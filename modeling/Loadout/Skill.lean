import Loadout.Tally

/-!
# Skills and set bonuses

Skills and set bonuses are known by handles, which are the positions of their table entries in
sixteen bits, so a table of more than 65536 entries has entries that no handle of their own denotes.
A skill has a normal limit, and a secret limit that its levels can reach but that only counts while
its secret skill is present.
-/

namespace Loadout

open Std

structure SkillId where
  index : UInt16
  deriving DecidableEq, Hashable, Repr, Inhabited

structure BonusId where
  index : UInt16
  deriving DecidableEq, Hashable, Repr, Inhabited

namespace SkillId

def ofIndex (n : Nat) : SkillId := ⟨UInt16.ofNat n⟩

instance : Ord SkillId := ⟨compareOn SkillId.index⟩

instance : TransOrd SkillId := inferInstanceAs (TransCmp (compareOn SkillId.index))

instance : LawfulEqOrd SkillId where
  eq_of_compare {a b} h := by
    cases a
    cases b
    simpa [compare, compareOn] using LawfulEqOrd.eq_of_compare (α := UInt16) h

end SkillId

namespace BonusId

def ofIndex (n : Nat) : BonusId := ⟨UInt16.ofNat n⟩

instance : Ord BonusId := ⟨compareOn BonusId.index⟩

instance : TransOrd BonusId := inferInstanceAs (TransCmp (compareOn BonusId.index))

instance : LawfulEqOrd BonusId where
  eq_of_compare {a b} h := by
    cases a
    cases b
    simpa [compare, compareOn] using LawfulEqOrd.eq_of_compare (α := UInt16) h

end BonusId

structure Skill where
  id : String
  name : String
  normalLimit : Nat
  secretLimit : Nat
  /-- How many states the skill can be in, the first of them being off. -/
  states : Nat
  secretSkill : Option SkillId
  deriving DecidableEq, Repr

/-- The skill that stands for a handle without an entry. -/
instance : Inhabited Skill := ⟨⟨"", "", 1, 1, 2, none⟩⟩

/-- A skill granted once enough pieces of a set are worn. -/
structure Stage where
  pieces : Nat
  skill : SkillId
  deriving DecidableEq, Repr

/-- A set bonus with its stages by ascending number of pieces. -/
structure SetBonus where
  id : String
  name : String
  stages : List Stage
  deriving DecidableEq, Repr, Inhabited

/-- The skills whose effect on damage is known. -/
inductive Effect where
  | agitator
  | attackBoost
  | bludgeoner
  | criticalBoost
  | criticalEye
  | freeElement
  | frostcraft
  | handicraft
  | latentPower
  | maximumMight
  | nonElementalBoost
  | offensiveGuard
  | peakPerformance
  | weaknessExploit
  deriving DecidableEq, Repr

namespace Effect

def all : List Effect :=
  [agitator, attackBoost, bludgeoner, criticalBoost, criticalEye, freeElement, frostcraft,
    handicraft, latentPower, maximumMight, nonElementalBoost, offensiveGuard, peakPerformance,
    weaknessExploit]

theorem mem_all (e : Effect) : e ∈ all := by cases e <;> decide

def skillId : Effect → String
  | agitator => "AGITATOR"
  | attackBoost => "ATTACK_BOOST"
  | bludgeoner => "BLUDGEONER"
  | criticalBoost => "CRITICAL_BOOST"
  | criticalEye => "CRITICAL_EYE"
  | freeElement => "FREE_ELEMENT"
  | frostcraft => "FROSTCRAFT"
  | handicraft => "HANDICRAFT"
  | latentPower => "LATENT_POWER"
  | maximumMight => "MAXIMUM_MIGHT"
  | nonElementalBoost => "NON_ELEMENTAL_BOOST"
  | offensiveGuard => "OFFENSIVE_GUARD"
  | peakPerformance => "PEAK_PERFORMANCE"
  | weaknessExploit => "WEAKNESS_EXPLOIT"

end Effect

structure PerEffect (α : Type) where
  agitator : α
  attackBoost : α
  bludgeoner : α
  criticalBoost : α
  criticalEye : α
  freeElement : α
  frostcraft : α
  handicraft : α
  latentPower : α
  maximumMight : α
  nonElementalBoost : α
  offensiveGuard : α
  peakPerformance : α
  weaknessExploit : α
  deriving DecidableEq, Inhabited

namespace PerEffect

variable {α : Type}

def get (p : PerEffect α) : Effect → α
  | .agitator => p.agitator
  | .attackBoost => p.attackBoost
  | .bludgeoner => p.bludgeoner
  | .criticalBoost => p.criticalBoost
  | .criticalEye => p.criticalEye
  | .freeElement => p.freeElement
  | .frostcraft => p.frostcraft
  | .handicraft => p.handicraft
  | .latentPower => p.latentPower
  | .maximumMight => p.maximumMight
  | .nonElementalBoost => p.nonElementalBoost
  | .offensiveGuard => p.offensiveGuard
  | .peakPerformance => p.peakPerformance
  | .weaknessExploit => p.weaknessExploit

instance : CoeFun (PerEffect α) fun _ => Effect → α := ⟨get⟩

/-- The values of a function, each worked out once. -/
def ofFunction (f : Effect → α) : PerEffect α where
  agitator := f .agitator
  attackBoost := f .attackBoost
  bludgeoner := f .bludgeoner
  criticalBoost := f .criticalBoost
  criticalEye := f .criticalEye
  freeElement := f .freeElement
  frostcraft := f .frostcraft
  handicraft := f .handicraft
  latentPower := f .latentPower
  maximumMight := f .maximumMight
  nonElementalBoost := f .nonElementalBoost
  offensiveGuard := f .offensiveGuard
  peakPerformance := f .peakPerformance
  weaknessExploit := f .weaknessExploit

@[simp] theorem ofFunction_get (f : Effect → α) (e : Effect) : ofFunction f e = f e := by
  cases e <;> rfl

end PerEffect

/-- All skills and set bonuses, each table in id order, and which skill has which effect. -/
structure SkillTable where
  skills : Array Skill
  bonuses : Array SetBonus
  holder : PerEffect (Option SkillId)

namespace SkillTable

def position? {α : Type} (key : α → String) (entries : Array α) (id : String) : Option Nat :=
  entries.findIdx? fun e => key e = id

def findSkill? (t : SkillTable) (id : String) : Option SkillId :=
  (position? Skill.id t.skills id).map SkillId.ofIndex

def findBonus? (t : SkillTable) (id : String) : Option BonusId :=
  (position? SetBonus.id t.bonuses id).map BonusId.ofIndex

def skill (t : SkillTable) (s : SkillId) : Skill := t.skills.getD s.index.toNat default

def bonus (t : SkillTable) (b : BonusId) : SetBonus := t.bonuses.getD b.index.toNat default

/-- The handles of all skills, in table order. -/
def skillIds (t : SkillTable) : List SkillId := (List.range t.skills.size).map SkillId.ofIndex

/-- The handles of all set bonuses, in table order. -/
def bonusIds (t : SkillTable) : List BonusId := (List.range t.bonuses.size).map BonusId.ofIndex

def cap (t : SkillTable) (s : SkillId) : Nat := (t.skill s).secretLimit

instance : Inhabited SkillTable := ⟨⟨#[], #[], .ofFunction fun _ => none⟩⟩

end SkillTable

end Loadout
