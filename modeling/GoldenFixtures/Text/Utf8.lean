/-!
# Sizes in UTF-8

Texts are lists of characters; some places and limits are counted in the bytes
of their UTF-8 form.
-/

namespace GoldenFixtures.Text

/-- The number of bytes of a text in UTF-8. -/
def byteCount (text : List Char) : Nat :=
  text.foldl (fun n c => n + c.utf8Size) 0

/-- The text that a run of bytes encodes, if it is UTF-8. -/
def decode? (bytes : List UInt8) : Option (List Char) :=
  (String.fromUTF8? ⟨bytes.toArray⟩).map String.toList

/-- The UTF-8 bytes of a text. -/
def encode (text : List Char) : List UInt8 := (String.ofList text).toUTF8.data.toList

end GoldenFixtures.Text
