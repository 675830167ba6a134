import IqTape.Json.Reader

/-!
# Libraries that read JSON

The programs hand bytes to a library, which gives the value that they spell or refuses
them.  What it says about bytes that it refuses may quote some of them, and then need
not be a text.

Libraries differ in what they take: a mark in front, a zero byte for an end, or half of
a surrogate pair.  A configuration file is read from its front, and a library may leave
what stands behind the value alone.  So the library is a parameter of whatever reads.

## Main definitions

* `Json.Refusal`, `Json.Refusal.text?` — what a library says about bytes that it refuses.
* `JsonLibrary` — a library.
* `Json.strictLibrary` — the reader of this project as a library.
-/

namespace IqTape

namespace Json

/-- Bytes are refused. -/
structure Refusal where
  /-- Whether they are no JSON; if they are, a number in them is too large. -/
  malformed : Bool
  /-- What is said about them. -/
  words : Bytes
  deriving DecidableEq, Repr, Inhabited

/-- The words, if they are a text. -/
def Refusal.text? (f : Refusal) : Option String := String.fromUTF8? ⟨f.words.toArray⟩

/-- What is shown of the words: if they are no text, one character for each byte. -/
def Refusal.shown (f : Refusal) : String :=
  f.text?.getD (String.ofList (f.words.map fun b => Char.ofNat b.toNat))

end Json

/-- A library that reads JSON. -/
class JsonLibrary where
  /-- The value that all of some bytes spell. -/
  readAll : Bytes → Except Json.Refusal Json
  /-- The value at the front of some bytes. -/
  readFront : Bytes → Except Json.Refusal Json

namespace Json

/-- The value that bytes spell; bytes that are no text are refused at the first of them. -/
def readBytes (bs : Bytes) : Except Refusal Json :=
  let value := match String.fromUTF8? ⟨bs.toArray⟩ with
    | some text => read text.toList
    | none => .error ⟨1⟩
  value.mapError fun f => ⟨true, f.message.toUTF8.toList⟩

/-- The reader of this project as a library.  It is a strict one: it refuses whatever stands
behind a value, and a number that is too large is no JSON to it. -/
instance strictLibrary : JsonLibrary := ⟨readBytes, readBytes⟩

end Json

end IqTape
