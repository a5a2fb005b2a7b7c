import TagTemplate.Proofs.Utf8.Fault
import TagTemplate.Source

/-!
# The ways into a document agree

A document can be given as a text, as the bytes of a text, or by a reader that hands out those
bytes in chunks.  `entryPoints_agree` says that nothing hangs on the way that is taken.  The
result is that of the text wherever there is one, also when a chunk ends inside a character, and
where there is none both ways from bytes fail.

How bytes may be handed out is a `Cutting` of them.  None of its chunks is empty, since an
empty one would end the reading before the others.  A reader that comes to its end has given
all its bytes (`Source.readAll_ofChunks`), and one that fails gives nothing
(`Source.readAll_ofChunks_of_failure`).
-/

namespace TagTemplate

/-- A way of handing out bytes: chunks that make up the bytes together, and of which none is
empty.  A character may lie in several of them. -/
structure Cutting (bytes : List UInt8) where
  chunks : List (List UInt8)
  flatten_eq : chunks.flatten = bytes
  nil_notMem : [] ∉ chunks

namespace Source

variable {chunks : List (List UInt8)}

/-- A chunk that is not empty is read together with all that comes after it. -/
theorem readAll_chunk {bytes : List UInt8} (h : bytes ≠ []) (more : Source) :
    (chunk bytes more).readAll = more.readAll.map (bytes ++ ·) := by
  cases bytes with
  | nil => exact absurd rfl h
  | cons byte bytes => rfl

theorem readAll_ofChunks (h : [] ∉ chunks) :
    (ofChunks none chunks).readAll = .ok chunks.flatten := by
  induction chunks with
  | nil => rfl
  | cons bytes chunks ih =>
    obtain ⟨hbytes, hchunks⟩ := List.ne_and_not_mem_of_not_mem_cons h
    rw [ofChunks, readAll_chunk hbytes.symm, ih hchunks, List.flatten_cons]
    rfl

/-- A failure is all that is left of a reader, whatever it has handed out before. -/
theorem readAll_ofChunks_of_failure (reason : String) (h : [] ∉ chunks) :
    (ofChunks (some reason) chunks).readAll = .error reason := by
  induction chunks with
  | nil => rfl
  | cons bytes chunks ih =>
    obtain ⟨hbytes, hchunks⟩ := List.ne_and_not_mem_of_not_mem_cons h
    rw [ofChunks, readAll_chunk hbytes.symm, ih hchunks]
    rfl

end Source

variable {bytes : List UInt8} {text : String} {fault : Utf8.Fault}

theorem parseBytes_of_decode (h : Utf8.decode bytes = .ok text) (options : ParseOptions) :
    parseBytes bytes options = parse text options := by
  simp [parseBytes, h]

theorem parseBytes_of_fault (h : Utf8.decode bytes = .error fault) (options : ParseOptions) :
    parseBytes bytes options = .error (.invalidArgument fault.message) := by
  simp [parseBytes, h]

theorem parseSource_of_decode (cut : Cutting bytes) (h : Utf8.decode bytes = .ok text)
    (options : ParseOptions) :
    parseSource (.ofChunks none cut.chunks) options = parse text options := by
  simp [parseSource, Source.readText, Source.readAll_ofChunks cut.nil_notMem, cut.flatten_eq, h]

theorem parseSource_of_fault (cut : Cutting bytes) (h : Utf8.decode bytes = .error fault)
    (options : ParseOptions) :
    parseSource (.ofChunks none cut.chunks) options = .error (.io undecodable) := by
  simp [parseSource, Source.readText, Source.readAll_ofChunks cut.nil_notMem, cut.flatten_eq, h]

theorem parseSource_of_failure (cut : Cutting bytes) (reason : String) (options : ParseOptions) :
    parseSource (.ofChunks (some reason) cut.chunks) options = .error (.io reason) := by
  simp [parseSource, Source.readText, Source.readAll_ofChunks_of_failure reason cut.nil_notMem]

/-- **The ways into a document agree.**  The bytes of a text are read like the text, in one
piece or in chunks.  Other bytes are refused: with the length of their longest valid beginning
if they come in one piece, and as undecodable if a reader hands them out.  A reader that fails
is refused for its own reason. -/
theorem entryPoints_agree (bytes : List UInt8) (cut : Cutting bytes) (options : ParseOptions) :
    (∀ text, Utf8.encode text = bytes →
      parseBytes bytes options = parse text options ∧
        parseSource (.ofChunks none cut.chunks) options = parse text options) ∧
    ((∀ text, Utf8.encode text ≠ bytes) →
      (∃ index message, Utf8.IsLongestValid bytes index ∧ Utf8.Wording bytes index message ∧
        parseBytes bytes options = .error (.invalidArgument message)) ∧
      parseSource (.ofChunks none cut.chunks) options = .error (.io undecodable) ∧
      ∀ error, parseBytes bytes options = .error error ∨
        parseSource (.ofChunks none cut.chunks) options = .error error → error.position? = none) ∧
    ∀ reason, parseSource (.ofChunks (some reason) cut.chunks) options = .error (.io reason) := by
  refine ⟨?_, ?_, fun reason => parseSource_of_failure cut reason options⟩
  · intro text htext
    have hdecode := Utf8.decode_eq_ok_iff.mpr htext
    exact ⟨parseBytes_of_decode hdecode options, parseSource_of_decode cut hdecode options⟩
  · intro hnone
    cases hdecode : Utf8.decode bytes with
    | ok text => exact absurd (Utf8.decode_eq_ok_iff.mp hdecode) (hnone text)
    | error fault =>
      have hbytes := parseBytes_of_fault hdecode options
      have hsource := parseSource_of_fault cut hdecode options
      refine ⟨⟨fault.index, fault.message, Utf8.isLongestValid_of_decode hdecode,
        Utf8.wording_of_decode hdecode, hbytes⟩, hsource, ?_⟩
      rintro error (herror | herror)
      · obtain rfl := Except.error.inj (hbytes.symm.trans herror)
        rfl
      · obtain rfl := Except.error.inj (hsource.symm.trans herror)
        rfl

/-- The three bytes of the euro sign, handed out in two chunks, and two of them after a letter. -/
theorem entryPoints_agree_of_euro :
    Utf8.encode "€" = [0xE2, 0x82, 0xAC] ∧
      parseSource (.ofChunks none [[0xE2], [0x82, 0xAC]]) = parse "€" ∧
      (∀ text, Utf8.encode text ≠ [0x61, 0xE2, 0x82]) ∧
      (∃ index message, Utf8.IsLongestValid [0x61, 0xE2, 0x82] index ∧
        Utf8.Wording [0x61, 0xE2, 0x82] index message ∧
        parseBytes [0x61, 0xE2, 0x82] = .error (.invalidArgument message)) ∧
      parseSource (.ofChunks none [[0x61, 0xE2], [0x82]]) = .error (.io undecodable) ∧
      parseSource (.ofChunks (some "gone") [[0x61, 0xE2], [0x82]]) = .error (.io "gone") := by
  have heuro : Utf8.encode "€" = [0xE2, 0x82, 0xAC] := by decide
  have hnone : ∀ text, Utf8.encode text ≠ [0x61, 0xE2, 0x82] := by
    intro text htext
    have herror : Utf8.decode [0x61, 0xE2, 0x82] = .error (.incomplete 1) := rfl
    rw [Utf8.decode_eq_ok_iff.mpr htext] at herror
    exact absurd herror (by simp)
  obtain ⟨hvalid, -, -⟩ :=
    entryPoints_agree [0xE2, 0x82, 0xAC] ⟨[[0xE2], [0x82, 0xAC]], rfl, by decide⟩ {}
  obtain ⟨-, hinvalid, hfailed⟩ :=
    entryPoints_agree [0x61, 0xE2, 0x82] ⟨[[0x61, 0xE2], [0x82]], rfl, by decide⟩ {}
  obtain ⟨hbytes, hsource, -⟩ := hinvalid hnone
  exact ⟨heuro, (hvalid "€" heuro).2, hnone, hbytes, hsource, hfailed "gone"⟩

end TagTemplate
