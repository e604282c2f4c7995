import Loadout.Search.Sweep

/-!
# Searching for the best build

A search lists the useful decorations, the weapon candidates, the tables of the slots and the
charms, forms the whole armour sets, and sweeps over all pairings of sets with candidates.
-/

namespace Loadout

/-- How a search goes about its pairings. -/
structure SearchOptions where
  /-- Whether sets are visited in batches that may be shared among workers. -/
  parallel : Bool := false
  batches : Nat := 16
  deriving DecidableEq, Repr

structure SearchStats where
  weapons : Nat
  decorations : Nat
  /-- The sizes of the slots' tables, head to legs. -/
  slotEntries : List Nat
  charmSeeds : Nat
  armourSets : Nat
  evaluated : Nat
  deriving DecidableEq, Repr

structure SearchOutcome (R : Type) where
  /-- The best build that is found; none if no pairing of the kept sets with the kept candidates
  leads to one that is taken. -/
  best : Option (Find R)
  stats : SearchStats

namespace Request

variable {R : Type} [Reckoning R]

/-- Sweeps over all pairings in the way that the options ask for. -/
def sweep (x : Setting R) (o : SearchOptions) (candidates : List (Candidate R))
    (sets : List ArmourSet) : Except Fault (Held R) :=
  if o.parallel then x.searchInBatches o.batches candidates sets
  else x.searchInOrder candidates sets

/-- Searches the pairings for the build with the highest effective raw attack. -/
def search (q : Request) (c : Catalogue) (o : SearchOptions) :
    Except SearchError (SearchOutcome R) := do
  -- what is missing first is reported: decorations, then weapons, then armour
  let useful ← c.decorationsFor q.requirements
  let candidates : List (Candidate R) ← q.candidates c
  let layout := Layout.ofRequirements? c.skills q.requirements
  let tables ← q.slotTables c useful
  let seeds := q.charmSeeds c
  let sets ← SearchError.ofFault (ArmourSet.assemble c q.requirements layout seeds tables)
  let held ← SearchError.ofFault (sweep (.ofRequest c q useful) o candidates sets)
  return {
    best := held.best
    stats := {
      weapons := candidates.length
      decorations := useful.length
      slotEntries := tables.map List.length
      charmSeeds := seeds.length
      armourSets := sets.length
      evaluated := held.evaluated } }

end Request

end Loadout
