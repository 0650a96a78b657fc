/-!
# Ranges of integers

The bounds of the integers of 64 and of 128 bits, with a sign and without.
-/

namespace GoldenFixtures

/-- The least integer of 64 bits with a sign. -/
def int64Min : Int := -0x8000000000000000

/-- The greatest integer of 64 bits with a sign. -/
def int64Max : Int := 0x7FFFFFFFFFFFFFFF

/-- The greatest integer of 64 bits without a sign. -/
def uint64Max : Int := 0xFFFFFFFFFFFFFFFF

/-- The least integer of 128 bits with a sign. -/
def int128Min : Int := -0x80000000000000000000000000000000

/-- The greatest integer of 128 bits without a sign. -/
def uint128Max : Int := 0xFFFFFFFFFFFFFFFFFFFFFFFFFFFFFFFF

end GoldenFixtures
