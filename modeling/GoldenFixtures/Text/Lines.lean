/-!
# Lines of bytes

A line ends at a line feed; the last one may lack it.  A carriage return in
front of the line feed stays in the line, where it is white space.
-/

namespace GoldenFixtures.Text

/-- The lines of a run of bytes, without their line feeds. -/
def byteLines : List UInt8 → List (List UInt8)
  | [] => []
  | b :: rest =>
    if b = 10 then [] :: byteLines rest
    else
      match byteLines rest with
      | [] => [[b]]
      | line :: lines => (b :: line) :: lines

end GoldenFixtures.Text
