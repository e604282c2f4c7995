import Loadout.Catalogue.Review
import Loadout.Proofs.GearTotals
import Loadout.Proofs.HandleRoundTrips
import Loadout.Proofs.PaddedSetups
import Mathlib.Order.Bounds.Basic

/-!
# Stages that no build can reach

A review counts the slots that have a piece of a set, and one more if some weapon can be awakened
with it.  An outfit wears at most one piece in each of these slots and a setup adds at most one
piece, so no gear has more of the set; and one piece put on in each slot together with the awakening
are that many.  So what is remarked on are exactly the stages beyond the reach of all gear.
-/

namespace Loadout

open Std

/-- Whether an outfit is put together from listed pieces, in any order and one over the other. -/
def Outfit.Assembled (c : Catalogue) (o : Outfit) : Prop :=
  ∃ charm, ∃ pieces : List PieceId, (∀ p ∈ pieces, p ∈ c.allPieces.map (·.1)) ∧
    o = pieces.foldl (Outfit.put c) (Outfit.withCharm charm)

/-- Whether calls lead to a setup of some weapon, or no weapon is held. -/
def Setup.Held (c : Catalogue) (s : Setup) : Prop :=
  s = Setup.fresh ∨ ∃ w ∈ c.weapons.toList, Setup.Reached w s

/-- In a catalogue with weapons, empty hands are no better than a weapon that is left as it is. -/
theorem Setup.held_iff_of_mem {c : Catalogue} {w : Weapon} (hw : w ∈ c.weapons.toList) {s : Setup} :
    s.Held c ↔ ∃ w ∈ c.weapons.toList, Setup.Reached w s := by
  constructor
  · rintro (rfl | hreached)
    · exact ⟨w, hw, [], rfl⟩
    · exact hreached
  · exact .inr

namespace Catalogue

section Counting

variable (c : Catalogue) (b : BonusId)

/-- The worn pieces of each set with the one that a setup adds. -/
def heldPieces (s : Setup) (o : Outfit) : SetPieces :=
  match s.addedBonus with
  | some b => (o.setPieces c).wear b 1
  | none => o.setPieces c

/-- The slots that have a piece with a set bonus. -/
def carrierSlots : List Slot :=
  Slot.all.filter fun s => c.pieces.any fun p => p.slot = s && p.bonus = some b

/-- Whether some weapon can be awakened with a set bonus. -/
def Offers : Prop :=
  ∃ w ∈ c.weapons.toList, ∃ options, w.upgrades = .awakening options ∧ b ∈ options

end Counting

variable {c : Catalogue} {b : BonusId} {o : Outfit} {s : Setup}

/-- The stats of a weapon bring a set what its setup does. -/
theorem gearPieces_of_stats {w : Weapon} {stats : WeaponStats} (h : s.stats w = .ok stats) :
    c.gearPieces stats o = c.heldPieces s o := by
  obtain ⟨-, rfl⟩ := Setup.stats_eq_ok_iff.1 h
  rfl

theorem count_heldPieces : (c.heldPieces s o).count b =
    min maxPieces ((o.pieces.countP fun p => (c.piece p).bonus = some b) +
      if s.addedBonus = some b then 1 else 0) := by
  let stats := { (default : WeaponStats) with bonus := s.addedBonus }
  exact (count_gearPieces b : (c.gearPieces stats o).count b = _)

theorem mem_carrierSlots {slot : Slot} :
    slot ∈ c.carrierSlots b ↔ ∃ p ∈ c.allPieces, p.2.slot = slot ∧ p.2.bonus = some b := by
  have hlisted : (∃ p ∈ c.allPieces, p.2.slot = slot ∧ p.2.bonus = some b) ↔
      ∃ p ∈ c.pieces.toList, p.slot = slot ∧ p.bonus = some b := by
    constructor
    · rintro ⟨p, hp, hcarries⟩
      obtain ⟨n, hn, rfl⟩ := List.mem_mapIdx.1 hp
      exact ⟨_, List.getElem_mem hn, hcarries⟩
    · rintro ⟨p, hp, hcarries⟩
      obtain ⟨n, hn, rfl⟩ := List.getElem_of_mem hp
      exact ⟨_, List.mem_mapIdx.2 ⟨n, hn, rfl⟩, hcarries⟩
  rw [hlisted, carrierSlots, List.mem_filter, ← Array.any_toList, List.any_eq_true]
  simp [Slot.mem_all]

theorem sources_eq [Decidable (c.Offers b)] :
    c.sources b = (c.carrierSlots b).length + if c.Offers b then 1 else 0 := by
  have hoffers : (c.weapons.any fun w => w.upgrades.options?.any (·.contains b)) = true ↔
      c.Offers b := by
    have hoption : ∀ u : UpgradeScheme, u.options?.any (·.contains b) = true ↔
        ∃ options, u = .awakening options ∧ b ∈ options := by
      intro u
      cases u <;> simp [UpgradeScheme.options?]
    rw [← Array.any_toList, List.any_eq_true]
    simp only [hoption, Offers]
  rw [sources]
  simp only [hoffers, carrierSlots]

end Catalogue

namespace Outfit

variable {c : Catalogue} {b : BonusId} {o : Outfit}

/-- Whether every piece is a listed one in its own slot. -/
structure InPlace (c : Catalogue) (o : Outfit) : Prop where
  listed : ∀ e ∈ o.worn.entries, (e.2, c.piece e.2) ∈ c.allPieces
  slot : ∀ e ∈ o.worn.entries, (c.piece e.2).slot = e.1

theorem inPlace_withCharm (charm : Option CharmId) : (withCharm charm).InPlace c :=
  ⟨List.forall_mem_nil _, List.forall_mem_nil _⟩

theorem InPlace.put (h : o.InPlace c) {p : PieceId} (hp : (p, c.piece p) ∈ c.allPieces) :
    (o.put c p).InPlace c := by
  constructor
  · intro e he
    rcases OrderedMap.mem_place he with rfl | hworn
    · exact hp
    · exact h.listed e hworn
  · intro e he
    rcases OrderedMap.mem_place he with rfl | hworn
    · rfl
    · exact h.slot e hworn

theorem InPlace.foldl_put {pieces : List PieceId}
    (hpieces : ∀ p ∈ pieces, (p, c.piece p) ∈ c.allPieces) (h : o.InPlace c) :
    (pieces.foldl (Outfit.put c) o).InPlace c := by
  induction pieces generalizing o with
  | nil => exact h
  | cons p rest ih =>
      obtain ⟨hp, hrest⟩ := List.forall_mem_cons.1 hpieces
      exact ih hrest (h.put hp)

theorem Assembled.inPlace (hc : c.FitsHandles) (h : o.Assembled c) : o.InPlace c := by
  obtain ⟨charm, pieces, hpieces, rfl⟩ := h
  apply InPlace.foldl_put
  · intro p hp
    obtain ⟨e, he, rfl⟩ := List.mem_map.1 (hpieces p hp)
    rw [Catalogue.piece_of_mem hc he]
    exact he
  · exact inPlace_withCharm charm

/-- No slot is worn twice, so an outfit has no more pieces of a set than there are slots with one.
-/
theorem InPlace.countP_le (h : o.InPlace c) :
    (o.pieces.countP fun p => (c.piece p).bonus = some b) ≤ (c.carrierSlots b).length := by
  let carriers := o.worn.entries.filter fun e => (c.piece e.2).bonus = some b
  have hcount : (o.pieces.countP fun p => (c.piece p).bonus = some b) =
      (carriers.map (·.1)).length := by
    rw [pieces, List.countP_map, List.countP_eq_length_filter, List.length_map]
    rfl
  have hnodup : (carriers.map (·.1)).Nodup :=
    o.worn.nodup_keys.sublist (List.filter_sublist.map _)
  have hslots : carriers.map (·.1) ⊆ c.carrierSlots b := by
    intro slot hslot
    obtain ⟨e, he, rfl⟩ := List.mem_map.1 hslot
    obtain ⟨hworn, hbonus⟩ := List.mem_filter.1 he
    exact Catalogue.mem_carrierSlots.2
      ⟨_, h.listed e hworn, h.slot e hworn, of_decide_eq_true hbonus⟩
  rw [hcount]
  exact (hnodup.subperm hslots).length_le

/-- Pieces put on from head to legs are all worn. -/
theorem worn_foldl_put {pieces : List PieceId} {charm : Option CharmId}
    (h : (pieces.map fun p => (c.piece p).slot).Pairwise fun a b => compare a b = .lt) :
    (pieces.foldl (put c) (withCharm charm)).worn.entries =
      pieces.map fun p => ((c.piece p).slot, p) := by
  induction pieces using List.reverseRecOn with
  | nil => rfl
  | append_singleton before p ih =>
      rw [List.map_append, List.pairwise_append] at h
      obtain ⟨hbefore, -, hlast⟩ := h
      -- the last piece goes behind those worn already and replaces none
      have hbelow : ∀ e ∈ before.map (fun p => ((c.piece p).slot, p)),
          compare e.1 (c.piece p).slot = .lt := by
        intro e he
        obtain ⟨p', hp', rfl⟩ := List.mem_map.1 he
        exact hlast _ (List.mem_map_of_mem hp') _ (by simp)
      rw [List.foldl_append, List.map_append]
      change OrderedMap.place _ _ (before.foldl (put c) (withCharm charm)).worn.entries = _
      rw [ih hbefore, OrderedMap.place_of_forall_lt _ hbelow]
      rfl

/-- One piece of a set can be worn in every slot that has one. -/
theorem exists_assembled (hc : c.FitsHandles) (b : BonusId) : ∃ o : Outfit, o.Assembled c ∧
    (o.pieces.countP fun p => (c.piece p).bonus = some b) = (c.carrierSlots b).length := by
  have hpiece : ∀ slot ∈ c.carrierSlots b, ∃ p, p ∈ c.allPieces.map (·.1) ∧
      (c.piece p).slot = slot ∧ (c.piece p).bonus = some b := by
    intro slot hslot
    obtain ⟨p, hp, hcarries⟩ := Catalogue.mem_carrierSlots.1 hslot
    refine ⟨p.1, List.mem_map_of_mem hp, ?_⟩
    rw [Catalogue.piece_of_mem hc hp]
    exact hcarries
  obtain ⟨pieces, hpieces⟩ := SuccessfulRun.exists_results hpiece
  have hslots : pieces.map (fun p => (c.piece p).slot) = c.carrierSlots b := by
    rw [← List.map_id (c.carrierSlots b)]
    exact SuccessfulRun.map_eq_map (hpieces.imp fun _ _ h => h.2.1)
  have hascending : (c.carrierSlots b).Pairwise fun a b => compare a b = .lt :=
    List.Pairwise.sublist List.filter_sublist (by decide)
  have hworn : (pieces.foldl (put c) (withCharm none)).worn.entries =
      pieces.map fun p => ((c.piece p).slot, p) := worn_foldl_put (hslots.symm ▸ hascending)
  have hall : ∀ p ∈ pieces, p ∈ c.allPieces.map (·.1) ∧ (c.piece p).bonus = some b := by
    intro p hp
    obtain ⟨slot, -, hlisted, -, hbonus⟩ := SuccessfulRun.exists_item hpieces hp
    exact ⟨hlisted, hbonus⟩
  refine ⟨_, ⟨none, pieces, fun p hp => (hall p hp).1, rfl⟩, ?_⟩
  rw [Outfit.pieces, hworn, List.map_map, ← hslots, List.length_map]
  change (pieces.map id).countP _ = _
  rw [List.map_id, List.countP_eq_length]
  exact fun p hp => decide_eq_true (hall p hp).2

end Outfit

namespace Setup

variable {c : Catalogue} {b : BonusId} {s : Setup} {w : Weapon}

/-- A setup that keeps the rules adds no piece but of an offered set. -/
theorem Kept.offered (h : Kept w s) (hb : s.addedBonus = some b) :
    ∃ options, w.upgrades = .awakening options ∧ b ∈ options := by
  obtain ⟨u, hu, hbonus⟩ := List.mem_filterMap.1 (List.mem_of_getLast? hb)
  have hrules := h.scheme
  unfold SchemeKept at hrules
  cases hscheme : w.upgrades with
  | none =>
      rw [hscheme] at hrules
      rw [hrules] at hu
      cases hu
  | custom =>
      rw [hscheme] at hrules
      have hcustom := hrules.1 u hu
      cases u <;> simp_all [Upgrade.isCustom, Upgrade.bonus?]
  | awakening options =>
      rw [hscheme] at hrules
      exact ⟨options, rfl, hrules.offered u hu b hbonus⟩

theorem Held.offers (h : s.Held c) (hb : s.addedBonus = some b) : c.Offers b := by
  rcases h with rfl | ⟨w, hw, hreached⟩
  · cases hb
  · exact ⟨w, hw, (reached_iff_kept.1 hreached).offered hb⟩

/-- An offered set bonus can be the first awakening. -/
theorem exists_held (h : c.Offers b) : ∃ s : Setup, s.Held c ∧ s.addedBonus = some b := by
  obtain ⟨w, hw, options, hscheme, hb⟩ := h
  have hadd : fresh.addUpgrade w (.bonus b) = .ok ⟨{}, [.bonus b]⟩ := by
    simp [addUpgrade, schemeRefusal, hscheme, awakeningRefusal, bonusRefusal, fresh, hasUpgrade,
      Upgrade.isCustom, Upgrade.isLevelSix, Upgrade.isSharpness, Upgrade.isSlot, Upgrade.bonus?,
      maxAwakenings, hb]
  refine ⟨⟨{}, [.bonus b]⟩, .inr ⟨w, hw, [.upgrade (.bonus b)], ?_⟩, rfl⟩
  rw [List.foldlM_cons, Call.apply, hadd]
  rfl

end Setup

namespace Catalogue

variable {c : Catalogue} {b : BonusId}

/-- The numbers of pieces of a set that gear can have, whatever a request would allow. -/
def reach (c : Catalogue) (b : BonusId) : Set Nat :=
  {n | ∃ o s, Outfit.Assembled c o ∧ Setup.Held c s ∧ (c.heldPieces s o).count b = n}

/-- The sources that a review counts are the most pieces of a set that gear can have. -/
theorem isGreatest_sources (hc : c.FitsHandles) (b : BonusId) :
    IsGreatest (c.reach b) (min maxPieces (c.sources b)) := by
  classical
  rw [sources_eq]
  constructor
  · obtain ⟨o, ho, hworn⟩ := Outfit.exists_assembled hc b
    by_cases hoffers : c.Offers b
    · obtain ⟨s, hs, hadded⟩ := Setup.exists_held hoffers
      refine ⟨o, s, ho, hs, ?_⟩
      rw [count_heldPieces, hworn, if_pos hadded, if_pos hoffers]
    · refine ⟨o, Setup.fresh, ho, .inl rfl, ?_⟩
      rw [count_heldPieces, hworn, if_neg hoffers]
      rfl
  · rintro n ⟨o, s, ho, hs, rfl⟩
    have hworn := (ho.inPlace hc).countP_le (b := b)
    have hadded : (if s.addedBonus = some b then 1 else 0) ≤ if c.Offers b then 1 else 0 := by
      split
      next hadds => rw [if_pos (hs.offers hadds)]
      next => exact Nat.zero_le _
    rw [count_heldPieces]
    omega

theorem unreachableStage_mem_bonusRemarks {id : String} {pieces sources : Nat} :
    .unreachableStage id pieces sources ∈ c.bonusRemarks b ↔ (c.skills.bonus b).id = id ∧
      c.sources b = sources ∧ ∃ stage,
        (c.skills.bonus b).stages.find? (fun s => c.sources b < s.pieces) = some stage ∧
          stage.pieces = pieces := by
  have habove : ∀ p : Prop, ∀ _ : Decidable p, Remark.unreachableStage id pieces sources ∉
      if p then [Remark.stageAboveCap (c.skills.bonus b).id] else [] := by
    intro p _
    split <;> simp
  rw [bonusRemarks, List.mem_append, or_iff_left (habove _ _), Option.mem_toList,
    Option.map_eq_some_iff]
  simp only [Remark.unreachableStage.injEq]
  grind

/-- Stages are remarked on set bonus by set bonus. -/
theorem unreachableStage_mem_review {id : String} {pieces sources : Nat} :
    .unreachableStage id pieces sources ∈ c.review ↔
      ∃ b ∈ c.skills.bonusIds, .unreachableStage id pieces sources ∈ c.bonusRemarks b := by
  simp [review, limitRemarks, skillRemarks, slotRemarks, weaponRemarks]

theorem findBonus?_id (h : c.UniqueIds) (hc : c.FitsHandles) (hb : b ∈ c.skills.bonusIds) :
    c.skills.findBonus? (c.skills.bonus b).id = some b := by
  obtain ⟨n, hn, rfl⟩ := List.mem_map.1 hb
  have hn := List.mem_range.1 hn
  have hposition : (BonusId.ofIndex n).index.toNat = n :=
    UInt16.toNat_ofNat_of_lt (hn.trans_le hc.bonuses)
  have hentry : c.skills.bonus (.ofIndex n) = c.skills.bonuses[n] := by
    rw [SkillTable.bonus, hposition, Array.getD_eq_getD_getElem?, Array.getElem?_eq_getElem hn]
    rfl
  rw [hentry]
  exact (byPosition_bonuses h).find?_key hn

/-- A set bonus has its remark if one of its stages asks for more pieces than the counted sources.
-/
theorem exists_unreachableStage_iff (h : c.UniqueIds) (hc : c.FitsHandles)
    (hb : b ∈ c.skills.bonusIds) :
    (∃ pieces sources, .unreachableStage (c.skills.bonus b).id pieces sources ∈ c.review) ↔
      ∃ stage ∈ (c.skills.bonus b).stages, c.sources b < stage.pieces := by
  simp only [unreachableStage_mem_review, unreachableStage_mem_bonusRemarks]
  constructor
  · rintro ⟨pieces, sources, b', hb', hid, -, stage, hfound, -⟩
    have hsame : some b' = some b := by
      rw [← findBonus?_id h hc hb', ← findBonus?_id h hc hb, hid]
    cases hsame
    have hbeyond := List.find?_some hfound
    exact ⟨stage, List.mem_of_find?_eq_some hfound, of_decide_eq_true hbeyond⟩
  · rintro ⟨stage, hstage, hbeyond⟩
    have hsome : ((c.skills.bonus b).stages.find? fun s => c.sources b < s.pieces).isSome := by
      rw [List.find?_isSome]
      exact ⟨stage, hstage, decide_eq_true hbeyond⟩
    obtain ⟨first, hfirst⟩ := Option.isSome_iff_exists.1 hsome
    exact ⟨_, _, b, hb, rfl, rfl, first, hfirst, rfl⟩

/-- In a loaded catalogue the review warns of a set bonus exactly if it has a stage that asks for
more pieces than any gear has, whatever pieces are put on and whatever is done to a weapon. -/
theorem warns_iff_beyond_reach {d : CatalogueDraft} (hd : d.resolve = .ok c) (hc : c.FitsHandles)
    (hb : b ∈ c.skills.bonusIds) :
    (∃ pieces sources, .unreachableStage (c.skills.bonus b).id pieces sources ∈ c.review) ↔
      ∃ stage ∈ (c.skills.bonus b).stages, ∀ o s, Outfit.Assembled c o → Setup.Held c s →
        (c.heldPieces s o).count b < stage.pieces := by
  have hskills := (CatalogueDraft.resolves_of_resolve hd).skills
  have hstages := SkillsDraft.stagesInRange_of_resolve hskills
  have hgreatest := isGreatest_sources hc b
  rw [exists_unreachableStage_iff (CatalogueDraft.uniqueIds_of_resolve hd) hc hb]
  refine exists_congr fun stage => and_congr_right fun hstage => ?_
  -- no stage asks for more than the cap, so the cap hides none
  have hcap := (hstages b stage hstage).2
  constructor
  · intro hbeyond o s ho hs
    have hle := hgreatest.2 ⟨o, s, ho, hs, rfl⟩
    omega
  · intro hbeyond
    obtain ⟨o, s, ho, hs, hcount⟩ := hgreatest.1
    have hlt := hbeyond o s ho hs
    omega

theorem warns_iff_beyond_reach_apprentice : ∃ c, apprenticeDraft.resolve = .ok c ∧
    (∃ pieces sources, .unreachableStage "GUILD" pieces sources ∈ c.review) ∧
      ∃ stage ∈ (c.skills.bonus (.ofIndex 0)).stages, ∀ o s, Outfit.Assembled c o →
        Setup.Held c s → (c.heldPieces s o).count (.ofIndex 0) < stage.pieces := by
  have hrun : (apprenticeDraft.resolve.toOption.map fun c =>
      decide (c.FitsHandles ∧ .ofIndex 0 ∈ c.skills.bonusIds ∧
        (c.skills.bonus (.ofIndex 0)).id = "GUILD" ∧
          .unreachableStage "GUILD" 2 1 ∈ c.review)) = some true := by
    decide +kernel
  obtain ⟨c, hc, hrun⟩ := Option.map_eq_some_iff.1 hrun
  obtain ⟨hfits, hlisted, hid, hremark⟩ := of_decide_eq_true hrun
  have hd := SuccessfulRun.toOption_eq_some_iff.1 hc
  have hwarns := warns_iff_beyond_reach hd hfits hlisted
  rw [hid] at hwarns
  exact ⟨c, hd, ⟨2, 1, hremark⟩, hwarns.1 ⟨2, 1, hremark⟩⟩

end Catalogue

end Loadout
