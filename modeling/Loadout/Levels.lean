import Loadout.Skill

/-!
# Skill levels and worn pieces

Levels are a tally of skills capped at each skill's secret limit; pieces are a tally of set bonuses
capped at five, one for each armour slot, which also absorbs the piece that a weapon may add.
-/

namespace Loadout

abbrev SkillLevels := Tally SkillId

abbrev SetPieces := Tally BonusId

def maxPieces : Nat := 5

namespace SkillLevels

/-- Adds levels of a skill up to its secret limit. -/
def gain (t : SkillTable) (levels : SkillLevels) (s : SkillId) (n : Nat) : SkillLevels :=
  levels.raise (t.cap s) s n

/-- Adds the levels of a list one after the other. -/
def gainAll (t : SkillTable) (levels : SkillLevels) (grants : List (SkillId × Nat)) : SkillLevels :=
  grants.foldl (fun l g => gain t l g.1 g.2) levels

/-- Adds the levels of the second tally to the first. -/
def merge (t : SkillTable) (a b : SkillLevels) : SkillLevels := Tally.merge t.cap a b

end SkillLevels

namespace SetPieces

def wear (pieces : SetPieces) (b : BonusId) (n : Nat) : SetPieces := pieces.raise maxPieces b n

/-- The pieces of a list of counts, added up. -/
def ofCounts (counts : List (BonusId × Nat)) : SetPieces :=
  counts.foldl (fun p c => p.wear c.1 c.2) ∅

/-- Adds the pieces of the second tally to the first. -/
def merge (a b : SetPieces) : SetPieces := Tally.merge (fun _ => maxPieces) a b

/-- The skills of the stages that the pieces reach, once for every such stage. -/
def unlocked (t : SkillTable) (pieces : SetPieces) : List SkillId :=
  pieces.toList.flatMap fun p =>
    ((t.bonus p.1).stages.filter (·.pieces ≤ p.2)).map (·.skill)

end SetPieces

/-- Adds one level for every stage that the pieces reach. -/
def SkillLevels.grant (t : SkillTable) (levels : SkillLevels) (pieces : SetPieces) : SkillLevels :=
  levels.gainAll t ((pieces.unlocked t).map (·, 1))

end Loadout
