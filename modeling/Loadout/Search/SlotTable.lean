import Loadout.Packing
import Loadout.Request
import Loadout.Signature

/-!
# Slot tables

The table of a slot lists what is worth wearing there: allowed pieces with their decorations, one
entry for each largest signature.
-/

namespace Loadout

/-- A piece with decorations in all its slots. -/
structure SlotEntry where
  piece : PieceId
  decorations : List DecorationId
  signature : Signature
  deriving DecidableEq

/-- The relevant levels and pieces of a piece without decorations. -/
def Requirements.pieceSignature (r : Requirements) (t : SkillTable) (p : Piece) : Signature :=
  ⟨r.restrictLevels (SkillLevels.gainAll t ∅ p.skills),
    r.restrictPieces (.ofCounts (p.bonus.toList.map (·, 1)))⟩

namespace Request

def allowedPieces (q : Request) (c : Catalogue) (slot : Slot) : List (PieceId × Piece) :=
  c.allPieces.filter fun p => p.2.slot = slot && q.allowsRank p.2.rank

/-- Every way to wear a piece with all its slots filled. -/
def slotEntries (q : Request) (c : Catalogue) (useful : List UsefulDecoration) (id : PieceId) :
    Except Fault (List SlotEntry) := do
  let piece := c.piece id
  let bare := q.requirements.pieceSignature c.skills piece
  let packings ← Packing.all c.skills useful piece.decoSlots bare.levels
  return packings.map fun packing =>
    { piece := id, decorations := packing.decorations
      signature := { bare with levels := packing.levels } }

def slotTable (q : Request) (c : Catalogue) (useful : List UsefulDecoration) (slot : Slot) :
    Except SearchError (List SlotEntry) := do
  let pieces := q.allowedPieces c slot
  if pieces.isEmpty then throw (.emptySlot slot)
  let entries ← SearchError.ofFault (pieces.mapM fun p => q.slotEntries c useful p.1)
  return (SignatureMap.ofOffers (entries.flatten.map fun e => (e.signature, e))).payloads

def slotTables (q : Request) (c : Catalogue) (useful : List UsefulDecoration) :
    Except SearchError (List (List SlotEntry)) :=
  Slot.all.mapM (q.slotTable c useful)

end Request

end Loadout
