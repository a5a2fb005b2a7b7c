import TagTemplate.Json.Tree
import TagTemplate.Proofs.Json.Compact
import TagTemplate.Proofs.Json.Pretty

/-!
# The JSON text of a tree identifies the tree

Each node and each element becomes an object whose one field is named for its kind, so the
JSON value gives the tree back (`Node.toJson_injective`).  It holds the doubles of the tree
and no others (`Node.doubles_toJson`).  With what is known of the texts of values this makes
`Node.json_identifies`: trees with finite doubles are equal if their texts are, the compact or
the pretty ones, where doubles are compared by their bits.
-/

namespace TagTemplate

/-! ## The doubles of a tree -/

/-- The double that an element may be. -/
def Element.doubles : Element → List Binary64
  | double value => [value]
  | _ => []

namespace Node

mutual

/-- The doubles in a tree, in document order. -/
def doubles : Node → List Binary64
  | document children => doublesBelow children
  | text _ => []
  | forLoop header children => header.elements.flatMap Element.doubles ++ doublesBelow children
  | echo elements => elements.flatMap Element.doubles

/-- The doubles in trees. -/
def doublesBelow : List Node → List Binary64
  | [] => []
  | node :: nodes => doubles node ++ doublesBelow nodes

end

end Node

theorem Element.doubles_toJson (element : Element) : element.toJson.doubles = element.doubles := by
  cases element <;> rfl

namespace Node

theorem itemDoubles_map_toJson (elements : List Element) :
    Json.itemDoubles (elements.map Element.toJson) = elements.flatMap Element.doubles := by
  induction elements with
  | nil => rfl
  | cons element elements ih =>
    rw [List.map_cons, Json.itemDoubles, ih, Element.doubles_toJson, List.flatMap_cons]

theorem fieldDoubles_append (fields more : List (String × Json)) :
    Json.fieldDoubles (fields ++ more) = Json.fieldDoubles fields ++ Json.fieldDoubles more := by
  induction fields with
  | nil => rfl
  | cons field fields ih =>
    obtain ⟨key, value⟩ := field
    rw [List.cons_append, Json.fieldDoubles, ih, Json.fieldDoubles, List.append_assoc]

theorem fieldDoubles_jsonFields (header : LoopHeader) :
    Json.fieldDoubles header.jsonFields = header.elements.flatMap Element.doubles := by
  obtain ⟨loopVariable, start, stop, step⟩ := header
  cases step <;>
    simp [LoopHeader.jsonFields, LoopHeader.elements, Json.fieldDoubles, Json.doubles,
      Element.doubles_toJson]

mutual

/-- The JSON form of a tree holds the doubles of the tree. -/
theorem doubles_toJson (node : Node) : node.toJson.doubles = node.doubles := by
  match node with
  | document children =>
    have hchildren := itemDoubles_toJsons children
    simp [toJson, Json.doubles, Json.fieldDoubles, doubles, hchildren]
  | text content => rfl
  | forLoop header children =>
    have hchildren := itemDoubles_toJsons children
    simp [toJson, Json.doubles, Json.fieldDoubles, doubles, hchildren, fieldDoubles_append,
      fieldDoubles_jsonFields]
  | echo elements =>
    simp [toJson, Json.doubles, Json.fieldDoubles, doubles, itemDoubles_map_toJson]

theorem itemDoubles_toJsons (nodes : List Node) :
    Json.itemDoubles (toJsons nodes) = doublesBelow nodes := by
  match nodes with
  | [] => rfl
  | node :: nodes =>
    rw [toJsons, Json.itemDoubles, doublesBelow, doubles_toJson, itemDoubles_toJsons]

end

end Node

/-! ## The JSON value gives the tree back -/

theorem Element.toJson_injective : Function.Injective Element.toJson := by
  intro a b h
  cases a <;> cases b <;> simp [Element.toJson] at h
  case var.var => rw [h]
  case function.function => rw [h]
  case integer.integer => rw [Int64.toInt_inj.mp h]
  case double.double => rw [h]
  case string.string => rw [h]
  case operator.operator => rw [h]

/-- The step of a header is left out exactly where the field is `null`. -/
theorem LoopHeader.jsonFields_injective : Function.Injective LoopHeader.jsonFields := by
  rintro ⟨loopVariable, start, stop, step⟩ ⟨loopVariable', start', stop', step'⟩ h
  simp only [LoopHeader.jsonFields, List.cons.injEq, Prod.mk.injEq, true_and, and_true] at h
  obtain ⟨hvariable, hstart, hstop, hstep⟩ := h
  have hsteps : step = step' := by
    cases step with
    | none =>
      cases step' with
      | none => rfl
      | some element' => cases element' <;> simp [Element.toJson] at hstep
    | some element =>
      cases step' with
      | none => cases element <;> simp [Element.toJson] at hstep
      | some element' => rw [Element.toJson_injective hstep]
  rw [Element.toJson_injective hvariable, Element.toJson_injective hstart,
    Element.toJson_injective hstop, hsteps]

namespace Node

mutual

/-- **The JSON form of a tree gives the tree back.** -/
theorem eq_of_toJson_eq (a b : Node) (h : a.toJson = b.toJson) : a = b := by
  match a with
  | document as =>
    cases b with
    | document bs =>
      have hchildren : toJsons as = toJsons bs := by simpa [toJson] using h
      rw [eq_of_toJsons_eq as bs hchildren]
    | _ => simp [toJson] at h
  | text content =>
    cases b with
    | text content' =>
      have hcontent : content = content' := by simpa [toJson] using h
      rw [hcontent]
    | _ => simp [toJson] at h
  | forLoop header as =>
    cases b with
    | forLoop header' bs =>
      simp only [toJson, Json.object.injEq, List.cons.injEq, Prod.mk.injEq, true_and,
        and_true] at h
      obtain ⟨hheader, hlast⟩ := List.append_inj' h rfl
      have hchildren : toJsons as = toJsons bs := by simpa using hlast
      rw [LoopHeader.jsonFields_injective hheader, eq_of_toJsons_eq as bs hchildren]
    | _ => simp [toJson] at h
  | echo elements =>
    cases b with
    | echo elements' =>
      have helements : elements.map Element.toJson = elements'.map Element.toJson := by
        simpa [toJson] using h
      rw [List.map_injective_iff.mpr Element.toJson_injective helements]
    | _ => simp [toJson] at h

theorem eq_of_toJsons_eq (as bs : List Node) (h : toJsons as = toJsons bs) : as = bs := by
  match as, bs with
  | [], [] => rfl
  | [], _ :: _ => simp [toJsons] at h
  | _ :: _, [] => simp [toJsons] at h
  | a :: as, b :: bs =>
    rw [toJsons, toJsons, List.cons.injEq] at h
    rw [eq_of_toJson_eq a b h.1, eq_of_toJsons_eq as bs h.2]

end

theorem eq_of_compact_toJson_eq {a b : Node} (ha : ∀ x ∈ a.doubles, x.isFinite = true)
    (hb : ∀ x ∈ b.doubles, x.isFinite = true) (h : a.toJson.compact = b.toJson.compact) :
    a = b := by
  have hfinite : ∀ {node : Node}, (∀ x ∈ node.doubles, x.isFinite = true) →
      node.toJson.IsFinite := by
    intro node hnode x hx
    exact hnode x (by rwa [doubles_toJson] at hx)
  exact eq_of_toJson_eq a b (Json.eq_of_compact_eq (hfinite ha) (hfinite hb) h)

/-- **The JSON text identifies the tree.**  Without the white space outside of its strings the
pretty text of a tree is the compact text.  Trees whose doubles are finite are equal, doubles
by their bits, as soon as their compact texts or their pretty texts are. -/
theorem json_identifies (a b : Node) :
    Json.withoutBlanks a.toJson.pretty = a.toJson.compact ∧
      ((∀ x ∈ a.doubles, x.isFinite = true) → (∀ x ∈ b.doubles, x.isFinite = true) →
        (a.toJson.compact = b.toJson.compact ↔ a = b) ∧
          (a.toJson.pretty = b.toJson.pretty ↔ a = b)) := by
  refine ⟨Json.withoutBlanks_pretty _, fun ha hb => ⟨⟨?_, ?_⟩, ⟨fun h => ?_, ?_⟩⟩⟩
  · exact eq_of_compact_toJson_eq ha hb
  · rintro rfl
    rfl
  · refine eq_of_compact_toJson_eq ha hb ?_
    rw [← Json.withoutBlanks_pretty, h, Json.withoutBlanks_pretty]
  · rintro rfl
    rfl

/-- The zero, the zero with a sign and the integer zero have different texts, here behind a
string with a blank and a quote. -/
theorem json_identifies_of_zeros :
    (document [text "a \" b", echo [.double ⟨false, 0, by decide⟩]]).toJson.pretty ≠
        (document [text "a \" b", echo [.double ⟨true, 0, by decide⟩]]).toJson.pretty ∧
      (document [text "a \" b", echo [.double ⟨false, 0, by decide⟩]]).toJson.compact ≠
        (document [text "a \" b", echo [.integer 0]]).toJson.compact := by
  let zeros : Element → Node := fun element => document [text "a \" b", echo [element]]
  have hfinite : ∀ negative, ∀ x ∈ (zeros (.double ⟨negative, 0, by decide⟩)).doubles,
      x.isFinite = true := by
    simp [zeros, doubles, doublesBelow, Element.doubles, Binary64.isFinite,
      Binary64.infinityMagnitude]
  have hinteger : ∀ x ∈ (zeros (.integer 0)).doubles, x.isFinite = true := by
    simp [zeros, doubles, doublesBelow, Element.doubles]
  constructor
  · intro h
    have heq := ((json_identifies _ _).2 (hfinite false) (hfinite true)).2.mp h
    simp [zeros] at heq
  · intro h
    have heq := ((json_identifies _ _).2 (hfinite false) hinteger).1.mp h
    simp [zeros] at heq

end Node
end TagTemplate
