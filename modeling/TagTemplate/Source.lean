import TagTemplate.Parse
import TagTemplate.Utf8

/-!
# Documents as bytes

A document may be given as bytes, or by a reader that hands out its bytes chunk by
chunk.  Characters may be split between chunks: the chunks are put together before
they are read as text.  A chunk without bytes is the end, even if the reader would have
more to give.  A reader that fails makes the whole reading fail, whatever it handed out
before.
-/

namespace TagTemplate

/-- What a reader gives when it is asked again and again. -/
inductive Source where
  /-- Some bytes, and more when asked again. -/
  | chunk (bytes : List UInt8) (more : Source)
  /-- The end of the bytes. -/
  | done
  /-- A failure, with its reason. -/
  | failed (reason : String)

/-- The reason given for bytes from a reader that are not the bytes of a text. -/
def undecodable : String := "stream did not contain valid UTF-8"

namespace Source

/-- The reader that hands out chunks and then ends, or fails for a reason. -/
def ofChunks (failure : Option String) : List (List UInt8) → Source
  | [] => failure.elim done failed
  | bytes :: chunks => chunk bytes (ofChunks failure chunks)

/-- All bytes of a reader up to its first empty chunk, or the reason of its failure. -/
def readAll : Source → Except String (List UInt8)
  | chunk [] _ => .ok []
  | chunk (byte :: bytes) more => more.readAll.map (byte :: bytes ++ ·)
  | done => .ok []
  | failed reason => .error reason

/-- All that a reader gives, as a text, or the reason why there is none. -/
def readText (source : Source) : Except String String :=
  match source.readAll with
  | .error reason => .error reason
  | .ok bytes =>
      match Utf8.decode bytes with
      | .error _ => .error undecodable
      | .ok text => .ok text

end Source

/-- Reads a document from its bytes. -/
def parseBytes (bytes : List UInt8) (options : ParseOptions := {}) : Except Error Node :=
  match Utf8.decode bytes with
  | .error fault => .error (.invalidArgument fault.message)
  | .ok text => parse text options

/-- Reads a document from a reader. -/
def parseSource (source : Source) (options : ParseOptions := {}) : Except Error Node :=
  match source.readText with
  | .error reason => .error (.io reason)
  | .ok text => parse text options

end TagTemplate
