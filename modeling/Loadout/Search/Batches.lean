/-!
# Batches

Items are split into batches of consecutive items, as equal in size as possible, the larger ones
first.
-/

namespace Loadout

/-- Where a batch begins: after so many batches of the smaller size and, before it, the larger ones'
extra items. -/
def batchStart (total batches index : Nat) : Nat :=
  index * (total / batches) + min index (total % batches)

/-- The begin and end of each batch; no batch is empty. -/
def batchRanges (total batches : Nat) : List (Nat × Nat) :=
  let used := min batches total
  (List.range used).map fun i => (batchStart total used i, batchStart total used (i + 1))

def inBatches {α : Type} (batches : Nat) (items : List α) : List (List α) :=
  (batchRanges items.length batches).map fun r => (items.drop r.1).take (r.2 - r.1)

end Loadout
