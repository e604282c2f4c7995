import Loadout.Gear
import Loadout.Search.SlotTable
import Loadout.Signature.Layout

/-!
# Armour sets

A whole set starts from a charm, or none, and takes one entry of each slot's table, head to legs.
After every slot only sets with the largest signatures stay, and a set that brings a set bonus up to
its cutoff is never formed.
-/

namespace Loadout

/-- A charm, or none, with its relevant levels. -/
structure CharmSeed where
  charm : Option CharmId
  levels : SkillLevels
  deriving DecidableEq

/-- An armour set, complete or in the making, with a charm and the decorations of its pieces. -/
structure ArmourSet where
  outfit : Outfit
  decorations : List DecorationId
  signature : Signature
  deriving DecidableEq

namespace Request

/-- The charms that grant no removed skill, each with its relevant levels. -/
def eligibleCharms (q : Request) (c : Catalogue) : List CharmSeed :=
  (c.allCharms.filter fun h => !h.2.skills.any q.requirements.removes).map fun h =>
    ⟨some h.1, q.requirements.restrictLevels (SkillLevels.gainAll c.skills ∅ h.2.grants)⟩

/-- No charm and the eligible charms, as far as their levels are the largest. -/
def charmSeeds (q : Request) (c : Catalogue) : List CharmSeed :=
  let seeds := ⟨none, ∅⟩ :: q.eligibleCharms c
  (SignatureMap.ofOffers (seeds.map fun seed => (⟨seed.levels, ∅⟩, seed))).payloads

end Request

namespace ArmourSet

def ofSeed (seed : CharmSeed) : ArmourSet := ⟨.withCharm seed.charm, [], ⟨seed.levels, ∅⟩⟩

def wear (c : Catalogue) (s : ArmourSet) (e : SlotEntry) : ArmourSet where
  outfit := s.outfit.put c e.piece
  decorations := s.decorations ++ e.decorations
  signature :=
    ⟨SkillLevels.merge c.skills s.signature.levels e.signature.levels,
      SetPieces.merge s.signature.pieces e.signature.pieces⟩

/-- Every set with every entry of a table, as far as all set bonuses stay below their cutoffs. -/
def extensions (c : Catalogue) (r : Requirements) (sets : List ArmourSet)
    (table : List SlotEntry) : List ArmourSet :=
  sets.flatMap fun s =>
    (table.filter fun e =>
      r.withinCutoffs (SetPieces.merge s.signature.pieces e.signature.pieces)).map (s.wear c)

def extend (c : Catalogue) (r : Requirements) (layout : Option Layout) (sets : List ArmourSet)
    (table : List SlotEntry) : Except Fault (List ArmourSet) := do
  let sieve ← (extensions c r sets table).foldlM (fun sieve s => sieve.offer s.signature s)
    (Sieve.ofLayout layout)
  return sieve.payloads

def assemble (c : Catalogue) (r : Requirements) (layout : Option Layout) (seeds : List CharmSeed)
    (tables : List (List SlotEntry)) : Except Fault (List ArmourSet) :=
  tables.foldlM (extend c r layout) (seeds.map ofSeed)

end ArmourSet

end Loadout
