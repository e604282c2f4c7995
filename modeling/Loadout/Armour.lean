import Loadout.Skill

/-!
# Armour

A piece belongs to a set in one of its variants and is worn in one of five slots.  Its decoration
slots are listed from the largest down.
-/

namespace Loadout

open Std

/-- The largest size of a decoration and of a slot for one. -/
def maxSlotSize : Nat := 4

inductive Slot where
  | head
  | chest
  | arms
  | waist
  | legs
  deriving DecidableEq, Repr, Inhabited

namespace Slot

def all : List Slot := [head, chest, arms, waist, legs]

theorem mem_all (s : Slot) : s ∈ all := by cases s <;> decide

def index : Slot → Nat
  | head => 0
  | chest => 1
  | arms => 2
  | waist => 3
  | legs => 4

theorem index_injective {a b : Slot} (h : a.index = b.index) : a = b := by
  cases a <;> cases b <;> simp_all [index]

instance : Ord Slot := ⟨compareOn Slot.index⟩

instance : TransOrd Slot := inferInstanceAs (TransCmp (compareOn Slot.index))

instance : LawfulEqOrd Slot where
  eq_of_compare h := index_injective (LawfulEqOrd.eq_of_compare (α := Nat) h)

def name : Slot → String
  | head => "head"
  | chest => "chest"
  | arms => "arms"
  | waist => "waist"
  | legs => "legs"

def ofName? (s : String) : Option Slot := all.find? (·.name = s)

end Slot

inductive Rank where
  | low
  | high
  | master
  deriving DecidableEq, Repr, Inhabited

namespace Rank

def name : Rank → String
  | low => "LOW_RANK"
  | high => "HIGH_RANK"
  | master => "MASTER_RANK"

/-- The rank of a rarity: up to 4 low, up to 8 high, master above. -/
def ofRarity (rarity : Nat) : Rank :=
  if rarity ≤ 4 then low else if rarity ≤ 8 then high else master

end Rank

inductive Variant where
  | low
  | highAlpha
  | highBeta
  | highGamma
  | masterAlpha
  | masterBeta
  | masterGamma
  deriving DecidableEq, Repr, Inhabited

namespace Variant

def all : List Variant :=
  [low, highAlpha, highBeta, highGamma, masterAlpha, masterBeta, masterGamma]

def name : Variant → String
  | low => "LOW_RANK"
  | highAlpha => "HIGH_RANK_ALPHA"
  | highBeta => "HIGH_RANK_BETA"
  | highGamma => "HIGH_RANK_GAMMA"
  | masterAlpha => "MASTER_RANK_ALPHA_PLUS"
  | masterBeta => "MASTER_RANK_BETA_PLUS"
  | masterGamma => "MASTER_RANK_GAMMA_PLUS"

def ofName? (s : String) : Option Variant := all.find? (·.name = s)

def rank : Variant → Rank
  | low => .low
  | highAlpha | highBeta | highGamma => .high
  | masterAlpha | masterBeta | masterGamma => .master

/-- What a variant adds to the name of its pieces. -/
def mark : Variant → String
  | low => ""
  | highAlpha => " α"
  | highBeta => " β"
  | highGamma => " γ"
  | masterAlpha => " α+"
  | masterBeta => " β+"
  | masterGamma => " γ+"

end Variant

structure PieceId where
  index : UInt32
  deriving DecidableEq, Hashable, Repr, Inhabited

def PieceId.ofIndex (n : Nat) : PieceId := ⟨UInt32.ofNat n⟩

structure Piece where
  setName : String
  variant : Variant
  slot : Slot
  skills : List (SkillId × Nat)
  /-- The decoration slots, largest first. -/
  decoSlots : List Nat
  bonus : Option BonusId
  deriving DecidableEq, Repr, Inhabited

namespace Piece

def rank (p : Piece) : Rank := p.variant.rank

def shownName (setName : String) (slot : Slot) (variant : Variant) : String :=
  setName ++ " " ++ slot.name ++ variant.mark

def displayName (p : Piece) : String := shownName p.setName p.slot p.variant

end Piece

def descending (sizes : List Nat) : List Nat := sizes.mergeSort fun a b => b ≤ a

end Loadout
