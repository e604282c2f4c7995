import Loadout.Buff
import Loadout.Requirements
import Loadout.Weapon.Setup

/-!
# Why a request or a build is refused

A document is refused for its form, for an id that the catalogue does not have, or for what it asks
for.  A fault of arithmetic on the way is kept apart from the refusals.
-/

namespace Loadout

/-- Why a request or a build document is refused. -/
inductive InputError where
  | unreadable (path : String) (reason : Unreadable)
  | malformed
  | unknown (kind : Kind) (id : String)
  | contradictory (c : Contradiction)
  | exclusive (first second : String)
  | setup (weapon : String) (r : Refusal)
  | doesNotFit
  | fault (f : Fault)
  deriving DecidableEq, Repr

namespace InputError

def message : InputError → String
  | unreadable path reason => "unable to read " ++ quoted path ++ ": " ++ reason.message
  | malformed => "malformed document"
  | unknown kind id => "unknown " ++ kind.name ++ " " ++ quoted id
  | contradictory c => "contradictory skill spec: " ++ c.message
  | exclusive first second =>
      "misc buffs " ++ quoted first ++ " and " ++ quoted second ++ " cannot be combined"
  | setup weapon r => "invalid weapon configuration: " ++ weapon ++ ": " ++ r.message
  | doesNotFit => "decorations do not fit in the available slots"
  | fault _ => "arithmetic fault"

/-- A computation that may fault, among those that may refuse. -/
def ofFault {α : Type} : Except Fault α → Except InputError α
  | .ok a => .ok a
  | .error f => .error (.fault f)

/-- Checked requirements, among the refusals. -/
def ofContradiction {α : Type} : Except Contradiction α → Except InputError α
  | .ok a => .ok a
  | .error c => .error (.contradictory c)

/-- A choice for a weapon, among the refusals. -/
def ofRefusal {α : Type} (weapon : String) : Except Refusal α → Except InputError α
  | .ok a => .ok a
  | .error r => .error (.setup weapon r)

def find {α : Type} (kind : Kind) (look : String → Option α) (id : String) : Except InputError α :=
  match look id with
  | some a => .ok a
  | none => .error (.unknown kind id)

end InputError

end Loadout
