import GoldenFixtures.Decimal.Digits

/-!
# Tenant aliases

A roster holds the aliases that were given to tenants.  A tenant that has none
gets the next one, `tenant-001`, `tenant-002` and so on: its number is one more
than the number of aliases in the roster.
-/

namespace GoldenFixtures.Archive

/-- The aliases given so far, each behind its tenant. -/
structure Roster where
  aliases : List (String × String) := []
  deriving DecidableEq, Repr

/-- The alias with a number; it has at least three digits. -/
def aliasOf (number : Nat) : String := "tenant-" ++ String.ofList (Digits.padded 3 number)

namespace Roster

/-- The alias that a tenant was given. -/
def given? (roster : Roster) (tenant : String) : Option String := roster.aliases.lookup tenant

/-- The next alias to give. -/
def nextAlias (roster : Roster) : String := aliasOf (roster.aliases.length + 1)

/-- The alias of a tenant: its own if it was given one, else the next one. -/
def aliasFor (roster : Roster) (tenant : String) : String :=
  match roster.given? tenant with
  | some given => given
  | none => roster.nextAlias

/-- The roster after a tenant was met. -/
def meet (roster : Roster) (tenant : String) : Roster :=
  match roster.given? tenant with
  | some _ => roster
  | none => ⟨roster.aliases ++ [(tenant, roster.nextAlias)]⟩

end Roster

end GoldenFixtures.Archive
