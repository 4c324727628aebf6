import SideQuest.Model.Calls
import Mathlib.Data.Rat.Floor
import Mathlib.Data.Nat.Sqrt

-- What the services take from their surroundings, and the level of an XP total.

namespace SideQuest

-- A request, and what it runs inside `runInTransaction`.
abbrev Request (α : Type) := Prog Stmt ApiError α

abbrev InTransaction (α : Type) := Tx Stmt ApiError α

abbrev prisma {α : Type} (s : Stmt α) : Request α := Prog.call s

abbrev tx {α : Type} (s : Stmt α) : InTransaction α := Tx.call s

abbrev emit (event : AppEvent) : Request Unit := Prog.call (.emit event)

structure AccessPayload where
  sub : Id
  email : String
  username : String
  role : UserRole

-- The parts of the runtime and of the packages that the services call. Signing takes
-- the time of issue in seconds, which `JwtService` puts into the payload.
structure Host where
  trim : String → String
  toLowerCase : String → String
  argon2Hash : String → String
  signAccess : AccessPayload → ℤ → String
  signRefresh : Id → ℤ → String
  -- `GeoService.haversineMeters`
  haversineMeters : Coordinates → Coordinates → ℚ

-- A host to run schedules on: every place is where it should be.
def Host.plain : Host where
  trim := id
  toLowerCase := id
  argon2Hash password := "hash:" ++ password
  signAccess payload _ := "access:" ++ payload.username
  signRefresh _ _ := "refresh"
  haversineMeters _ _ := 0

-- `Math.round`
def mathRound (x : ℚ) : ℤ := ⌊x + 1 / 2⌋

def MIN_LEVEL : ℕ := 1

-- `Math.floor(Math.sqrt(xp / 100)) + 1`, with the root taken of the whole part of the
-- quotient, which has the same whole part.
def levelFromXp (xp : ℤ) : ℕ :=
  if xp ≤ 0 then MIN_LEVEL else Nat.sqrt (xp.toNat / 100) + 1

end SideQuest
