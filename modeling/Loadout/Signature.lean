import Loadout.Levels
import Loadout.SeenMap

/-!
# Signatures

What counts of a set of equipment is its signature: the levels and pieces it brings.  Whatever a
signature can reach, a signature that is at least as large everywhere can reach too, so only the
largest signatures offered are kept, each with the payload that was offered with it first.
-/

namespace Loadout

structure Signature where
  levels : SkillLevels
  pieces : SetPieces
  deriving DecidableEq, Inhabited

/-- A skill or a set bonus in a signature. -/
inductive Component where
  | skill (id : SkillId)
  | bonus (id : BonusId)
  deriving DecidableEq, Repr

namespace Signature

def empty : Signature := ⟨∅, ∅⟩

instance : EmptyCollection Signature := ⟨empty⟩

instance : Hashable Signature where
  hash s := mixHash (hash s.levels.toList) (hash s.pieces.toList)

def le (a b : Signature) : Bool := a.levels.le b.levels && a.pieces.le b.pieces

def count (s : Signature) : Component → Nat
  | .skill id => s.levels.count id
  | .bonus id => s.pieces.count id

/-- The components of which a signature has any, set bonuses behind skills. -/
def components (s : Signature) : List Component :=
  s.levels.toList.map (.skill ·.1) ++ s.pieces.toList.map (.bonus ·.1)

def lower (s : Signature) : Component → Signature
  | .skill id => { s with levels := s.levels.lower id }
  | .bonus id => { s with pieces := s.pieces.lower id }

def total (s : Signature) : Nat := s.levels.total + s.pieces.total

theorem count_lower (s : Signature) (c j : Component) :
    (s.lower c).count j = if j = c then s.count c - 1 else s.count j := by
  cases c <;> cases j <;> simp [lower, count, Tally.count_lower]

theorem mem_components {s : Signature} {c : Component} : c ∈ s.components ↔ 0 < s.count c := by
  cases c <;> simp [components, count, Tally.exists_mem_toList_iff]

theorem total_lower_lt {s : Signature} {c : Component} (h : 0 < s.count c) :
    (s.lower c).total < s.total := by
  cases c with
  | skill id => exact Nat.add_lt_add_right (Tally.total_lower_lt h) _
  | bonus id => exact Nat.add_lt_add_left (Tally.total_lower_lt h) _

/-- One unit below a signature are those that lack one unit of one component. -/
def descent : Descent Signature where
  below s := s.components.map s.lower
  rank := total
  rank_lt h := by
    obtain ⟨c, hc, rfl⟩ := List.mem_map.1 h
    exact total_lower_lt (mem_components.1 hc)

end Signature

/-- Payloads under signatures, of which the largest are kept. -/
abbrev SignatureMap (α : Type) := SeenMap (Std.HashSet Signature) Signature α

namespace SignatureMap

variable {α : Type}

def empty : SignatureMap α := .ofSeen ∅

instance : EmptyCollection (SignatureMap α) := ⟨empty⟩

def ofOffers (offers : List (Signature × α)) : SignatureMap α :=
  SeenMap.addAll Signature.descent ∅ offers

end SignatureMap

end Loadout
