import Loadout.Catalogue
import Mathlib.Tactic.Common

/-!
# Handles of a catalogue

A handle keeps the position of its entry in sixteen bits, or in thirty-two for armour and weapons.
While no table has more entries than handles, the handle that stands beside an entry in a listing
leads back to that entry.
-/

namespace Loadout

namespace Catalogue

/-- Whether no table has more entries than its handles can tell apart. -/
structure FitsHandles (c : Catalogue) : Prop where
  skills : c.skills.skills.size ≤ UInt16.size
  bonuses : c.skills.bonuses.size ≤ UInt16.size
  decorations : c.decorations.size ≤ UInt16.size
  pieces : c.pieces.size ≤ UInt32.size
  charms : c.charms.size ≤ UInt16.size
  weapons : c.weapons.size ≤ UInt32.size
  buffs : c.buffs.size ≤ UInt16.size

instance (c : Catalogue) : Decidable c.FitsHandles :=
  decidable_of_iff (c.skills.skills.size ≤ UInt16.size ∧ c.skills.bonuses.size ≤ UInt16.size ∧
      c.decorations.size ≤ UInt16.size ∧ c.pieces.size ≤ UInt32.size ∧ c.charms.size ≤ UInt16.size ∧
      c.weapons.size ≤ UInt32.size ∧ c.buffs.size ≤ UInt16.size)
    ⟨fun ⟨hskills, hbonuses, hdecorations, hpieces, hcharms, hweapons, hbuffs⟩ =>
        ⟨hskills, hbonuses, hdecorations, hpieces, hcharms, hweapons, hbuffs⟩,
      fun h => ⟨h.skills, h.bonuses, h.decorations, h.pieces, h.charms, h.weapons, h.buffs⟩⟩

/-- A position that survives in its handle finds the entry that was listed with the handle. -/
theorem getD_of_listed {α ι : Type} [Inhabited α] {entries : Array α} (handle : Nat → ι)
    (position : ι → Nat) (hposition : ∀ n < entries.size, position (handle n) = n) {e : ι × α}
    (h : e ∈ entries.toList.mapIdx fun n a => (handle n, a)) :
    entries.getD (position e.1) default = e.2 := by
  obtain ⟨n, hn, rfl⟩ := List.mem_mapIdx.1 h
  have hsize : n < entries.size := by simpa using hn
  have hback := hposition n hsize
  simp [hback, Array.getD, hsize]

variable {c : Catalogue}

theorem decoration_of_mem (hc : c.FitsHandles) {d : DecorationId × Decoration}
    (h : d ∈ c.allDecorations) : c.decoration d.1 = d.2 := by
  apply getD_of_listed DecorationId.ofIndex (·.index.toNat) _ h
  intro n hn
  exact UInt16.toNat_ofNat_of_lt (Nat.lt_of_lt_of_le hn hc.decorations)

theorem charm_of_mem (hc : c.FitsHandles) {h : CharmId × Charm} (hmem : h ∈ c.allCharms) :
    c.charm h.1 = h.2 := by
  apply getD_of_listed CharmId.ofIndex (·.index.toNat) _ hmem
  intro n hn
  exact UInt16.toNat_ofNat_of_lt (Nat.lt_of_lt_of_le hn hc.charms)

theorem piece_of_mem (hc : c.FitsHandles) {p : PieceId × Piece} (h : p ∈ c.allPieces) :
    c.piece p.1 = p.2 := by
  apply getD_of_listed PieceId.ofIndex (·.index.toNat) _ h
  intro n hn
  exact UInt32.toNat_ofNat_of_lt (Nat.lt_of_lt_of_le hn hc.pieces)

end Catalogue

end Loadout
