import Loadout.Catalogue
import Loadout.InputError

/-!
# Resolving ids of requests and builds

What requests and builds have in common: requirements and consumables given by id.
-/

namespace Loadout

open Std

structure RequirementsDraft where
  selected : OrderedMap String Nat
  forcedStates : OrderedMap String Nat
  removed : List String
  cutoffs : OrderedMap String Nat

namespace Catalogue

/-- A map from ids with the ids found, in id order. -/
def resolveKeys {κ ν : Type} [Ord κ] [TransOrd κ] [LawfulEqOrd κ] (kind : Kind)
    (look : String → Option κ) (m : OrderedMap String ν) : Except InputError (OrderedMap κ ν) := do
  return .ofList (← m.entries.mapM fun e => do return (← InputError.find kind look e.1, e.2))

def resolveRequirements (c : Catalogue) (d : RequirementsDraft) :
    Except InputError Requirements := do
  let asked ← resolveKeys .skill c.skills.findSkill? d.selected
  let states ← resolveKeys .skill c.skills.findSkill? d.forcedStates
  let removed ← d.removed.mapM (InputError.find .skill c.skills.findSkill?)
  let cutoffs ← resolveKeys .bonus c.skills.findBonus? d.cutoffs
  InputError.ofContradiction (Requirements.make c.skills asked states removed cutoffs)

/-- Consumables with their ids found, unless two of them exclude each other. -/
def consumables (c : Catalogue) (ids : List BuffId) : Except InputError Consumables :=
  let buffs := ids.map c.buff
  match Buff.firstClash buffs with
  | some (a, b) => .error (.exclusive a.id b.id)
  | none => do return ⟨ids, buffs, ← InputError.ofFault (Buff.addedRawOf buffs)⟩

def resolveConsumables (c : Catalogue) (ids : List String) : Except InputError Consumables := do
  c.consumables (← ids.mapM (InputError.find .buff c.findBuff?))

end Catalogue

end Loadout
