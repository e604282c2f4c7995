import Loadout.Proofs.AcceptedRequests
import Loadout.Proofs.AssembledSets
import Loadout.Proofs.CatalogueHandles
import Loadout.Proofs.SkillLimits

/-!
# Round trips of handles

An entry is listed with a handle and looked up by its id, and the handle denotes an entry.  The
three agree as long as positions survive in handles: no two listed handles are equal then, and what
is listed is found again.  The first entry that is beyond the width of its handle is listed with the
handle of the first entry of all, so every table that is larger breaks the agreement.
-/

namespace Loadout

open Std

/-- The ways to the entries of a table: by handle, by key and by listing. -/
structure Access (κ ι α : Type) where
  key : α → κ
  entry : ι → α
  find? : κ → Option ι
  listed : List (ι × α)

namespace Access

variable {κ ι α : Type}

/-- Whether all ways lead to the same entries. -/
structure GoesRound (a : Access κ ι α) : Prop where
  found : ∀ k h, a.find? k = some h → a.key (a.entry h) = k
  distinct : (a.listed.map (·.1)).Nodup
  again : ∀ e ∈ a.listed, a.entry e.1 = e.2 ∧ a.find? (a.key e.2) = some e.1

/-- Whether handles are positions in a table, cut to a width. -/
structure ByPosition [DecidableEq κ] [Inhabited α] (a : Access κ ι α) (entries : Array α)
    (handle : Nat → ι) (position : ι → Nat) (width : Nat) : Prop where
  width_pos : 0 < width
  cut : ∀ n, position (handle n) = n % width
  wraps : handle width = handle 0
  entry : ∀ h, a.entry h = entries.getD (position h) default
  find? : ∀ k, a.find? k = (entries.findIdx? fun e => a.key e = k).map handle
  listed : a.listed = entries.toList.mapIdx fun n e => (handle n, e)
  unique : (entries.toList.map a.key).Nodup

variable [DecidableEq κ] [Inhabited α] {a : Access κ ι α} {entries : Array α} {handle : Nat → ι}
variable {position : ι → Nat} {width : Nat}

theorem ByPosition.find?_key (h : a.ByPosition entries handle position width) {n : Nat}
    (hn : n < entries.size) : a.find? (a.key entries[n]) = some (handle n) := by
  have hfirst : entries.findIdx? (fun e => a.key e = a.key entries[n]) = some n := by
    apply Array.findIdx?_eq_some_iff_getElem.2
    refine ⟨hn, by simp, ?_⟩
    -- an earlier entry of the key would be a second one
    intro m hm hsame
    have hne := List.pairwise_iff_getElem.1 h.unique m n (by simp; omega) (by simpa using hn) hm
    rw [List.getElem_map, List.getElem_map] at hne
    exact hne (of_decide_eq_true hsame)
  rw [h.find?, hfirst]
  rfl

theorem ByPosition.map_fst_listed (h : a.ByPosition entries handle position width) :
    a.listed.map (·.1) = (List.range entries.size).map handle := by
  rw [h.listed]
  apply List.ext_getElem
  · simp
  · intro n _ _
    simp

theorem ByPosition.goesRound (h : a.ByPosition entries handle position width)
    (hsize : entries.size ≤ width) : a.GoesRound := by
  have hposition : ∀ n < entries.size, position (handle n) = n := by
    intro n hn
    rw [h.cut, Nat.mod_eq_of_lt (hn.trans_le hsize)]
  constructor
  · intro k found hfound
    rw [h.find?] at hfound
    obtain ⟨n, hn, rfl⟩ := Option.map_eq_some_iff.1 hfound
    obtain ⟨hlt, hkey, -⟩ := Array.findIdx?_eq_some_iff_getElem.1 hn
    rw [h.entry, hposition n hlt]
    simpa [Array.getD, hlt] using hkey
  · rw [h.map_fst_listed]
    apply List.nodup_range.map_on
    intro m hm n hn hsame
    have hpositions := congrArg position hsame
    rwa [hposition m (List.mem_range.1 hm), hposition n (List.mem_range.1 hn)] at hpositions
  · intro e he
    rw [h.listed] at he
    constructor
    · rw [h.entry]
      exact Catalogue.getD_of_listed handle position hposition he
    · obtain ⟨n, hn, rfl⟩ := List.mem_mapIdx.1 he
      exact h.find?_key (by simpa using hn)

/-- The entry at the width of the handles shares the handle of the first entry. -/
theorem ByPosition.size_le_of_goesRound (h : a.ByPosition entries handle position width)
    (hround : a.GoesRound) : entries.size ≤ width := by
  by_contra hlarge
  have hdistinct := hround.distinct
  rw [h.map_fst_listed] at hdistinct
  have hfirst : 0 ∈ List.range entries.size := List.mem_range.2 (by omega)
  have hbeyond : width ∈ List.range entries.size := List.mem_range.2 (by omega)
  have hsame := List.inj_on_of_nodup_map hdistinct hbeyond hfirst h.wraps
  have hpos := h.width_pos
  omega

theorem ByPosition.goesRound_iff (h : a.ByPosition entries handle position width) :
    a.GoesRound ↔ entries.size ≤ width :=
  ⟨h.size_le_of_goesRound, h.goesRound⟩

end Access

section Unique

theorem firstRepeat_eq_none_iff {α : Type} [BEq α] [LawfulBEq α] {seen items : List α} :
    firstRepeat seen items = none ↔ items.Nodup ∧ ∀ a ∈ items, a ∉ seen := by
  induction items generalizing seen with
  | nil => simp [firstRepeat]
  | cons a rest ih =>
      by_cases ha : a ∈ seen
      · simp [firstRepeat, ha]
      · simp only [firstRepeat, List.contains_iff_mem, ha, if_false, ih, List.nodup_cons]
        grind

theorem demandUnique_eq_ok_iff {kind : Kind} {ids : List String} {u : Unit} :
    demandUnique kind ids = .ok u ↔ ids.Nodup := by
  have hrepeat : firstRepeat [] ids = none ↔ ids.Nodup ∧ ∀ id ∈ ids, id ∉ [] :=
    firstRepeat_eq_none_iff
  unfold demandUnique
  cases h : firstRepeat [] ids with
  | none => simpa [h] using hrepeat
  | some id => simpa [h] using hrepeat

/-- Whether no two entries of a table have the same id. -/
structure Catalogue.UniqueIds (c : Catalogue) : Prop where
  skills : (c.skills.skills.toList.map Skill.id).Nodup
  bonuses : (c.skills.bonuses.toList.map SetBonus.id).Nodup
  decorations : (c.decorations.toList.map Decoration.id).Nodup
  charms : (c.charms.toList.map Charm.id).Nodup
  weapons : (c.weapons.toList.map Weapon.id).Nodup
  buffs : (c.buffs.toList.map Buff.id).Nodup

theorem SkillsDraft.id_of_resolveBonus {d : SkillsDraft} {id : String} {b : BonusDraft}
    {bonus : SetBonus} (h : d.resolveBonus id b = .ok bonus) : bonus.id = id := by
  obtain ⟨stages, -, h⟩ := SuccessfulRun.bind_eq_ok_iff.1 h
  cases h
  rfl

theorem nodup_ids_of_keys {δ α : Type} {m : OrderedMap String δ} {resolved : List α}
    {id : α → String} (h : List.Forall₂ (fun e a => id a = e.1) m.entries resolved) :
    (resolved.map id).Nodup := by
  rw [SuccessfulRun.map_eq_map h]
  exact m.nodup_keys

theorem CatalogueDraft.uniqueIds_of_resolve {d : CatalogueDraft} {c : Catalogue}
    (h : d.resolve = .ok c) : c.UniqueIds := by
  have hd := resolves_of_resolve h
  have ht := SkillsDraft.resolves_of_resolve hd.skills
  exact ⟨nodup_ids_of_keys (ht.skills.imp fun _ _ hrun => SkillsDraft.id_of_resolveSkill hrun),
    nodup_ids_of_keys (ht.bonuses.imp fun _ _ hrun => SkillsDraft.id_of_resolveBonus hrun),
    demandUnique_eq_ok_iff.1 hd.uniqueDecorations, demandUnique_eq_ok_iff.1 hd.uniqueCharms,
    demandUnique_eq_ok_iff.1 hd.uniqueWeapons, demandUnique_eq_ok_iff.1 hd.uniqueBuffs⟩

end Unique

namespace Catalogue

section Tables

variable (c : Catalogue)

def skillAccess : Access String SkillId Skill :=
  ⟨Skill.id, c.skills.skill, c.skills.findSkill?, c.skills.skillIds.zip c.skills.skills.toList⟩

def bonusAccess : Access String BonusId SetBonus :=
  ⟨SetBonus.id, c.skills.bonus, c.skills.findBonus?, c.skills.bonusIds.zip c.skills.bonuses.toList⟩

def decorationAccess : Access String DecorationId Decoration :=
  ⟨Decoration.id, c.decoration, c.findDecoration?, c.allDecorations⟩

def charmAccess : Access String CharmId Charm :=
  ⟨Charm.id, c.charm, c.findCharm?, c.allCharms⟩

def weaponAccess : Access String WeaponId Weapon :=
  ⟨Weapon.id, c.weapon, c.findWeapon?, c.allWeapons⟩

def buffAccess : Access String BuffId Buff :=
  ⟨Buff.id, c.buff, c.findBuff?, c.allBuffs⟩

/-- Whether handles go round in every table that has ids. -/
structure HandlesGoRound : Prop where
  skills : c.skillAccess.GoesRound
  bonuses : c.bonusAccess.GoesRound
  decorations : c.decorationAccess.GoesRound
  charms : c.charmAccess.GoesRound
  weapons : c.weaponAccess.GoesRound
  buffs : c.buffAccess.GoesRound

end Tables

theorem zip_range_map_eq_mapIdx {α ι : Type} (handle : Nat → ι) (l : List α) :
    ((List.range l.length).map handle).zip l = l.mapIdx fun n a => (handle n, a) := by
  apply List.ext_getElem
  · simp
  · intro n _ _
    simp

variable {c : Catalogue}

theorem byPosition_skills (h : c.UniqueIds) : c.skillAccess.ByPosition c.skills.skills
    SkillId.ofIndex (·.index.toNat) UInt16.size :=
  ⟨by decide, fun _ => rfl, by decide, fun _ => rfl, fun _ => rfl,
    zip_range_map_eq_mapIdx SkillId.ofIndex c.skills.skills.toList, h.skills⟩

theorem byPosition_bonuses (h : c.UniqueIds) : c.bonusAccess.ByPosition c.skills.bonuses
    BonusId.ofIndex (·.index.toNat) UInt16.size :=
  ⟨by decide, fun _ => rfl, by decide, fun _ => rfl, fun _ => rfl,
    zip_range_map_eq_mapIdx BonusId.ofIndex c.skills.bonuses.toList, h.bonuses⟩

theorem byPosition_decorations (h : c.UniqueIds) : c.decorationAccess.ByPosition c.decorations
    DecorationId.ofIndex (·.index.toNat) UInt16.size :=
  ⟨by decide, fun _ => rfl, by decide, fun _ => rfl, fun _ => rfl, rfl, h.decorations⟩

theorem byPosition_charms (h : c.UniqueIds) : c.charmAccess.ByPosition c.charms
    CharmId.ofIndex (·.index.toNat) UInt16.size :=
  ⟨by decide, fun _ => rfl, by decide, fun _ => rfl, fun _ => rfl, rfl, h.charms⟩

theorem byPosition_weapons (h : c.UniqueIds) : c.weaponAccess.ByPosition c.weapons
    WeaponId.ofIndex (·.index.toNat) UInt32.size :=
  ⟨by decide, fun _ => rfl, by decide, fun _ => rfl, fun _ => rfl, rfl, h.weapons⟩

theorem byPosition_buffs (h : c.UniqueIds) : c.buffAccess.ByPosition c.buffs
    BuffId.ofIndex (·.index.toNat) UInt16.size :=
  ⟨by decide, fun _ => rfl, by decide, fun _ => rfl, fun _ => rfl, rfl, h.buffs⟩

/-- In a loaded catalogue the handles of a table go round exactly if they can tell its entries
apart. -/
theorem goesRound_iff_of_resolve {d : CatalogueDraft} (h : d.resolve = .ok c) :
    (c.skillAccess.GoesRound ↔ c.skills.skills.size ≤ UInt16.size) ∧
      (c.bonusAccess.GoesRound ↔ c.skills.bonuses.size ≤ UInt16.size) ∧
      (c.decorationAccess.GoesRound ↔ c.decorations.size ≤ UInt16.size) ∧
      (c.charmAccess.GoesRound ↔ c.charms.size ≤ UInt16.size) ∧
      (c.weaponAccess.GoesRound ↔ c.weapons.size ≤ UInt32.size) ∧
      (c.buffAccess.GoesRound ↔ c.buffs.size ≤ UInt16.size) := by
  have hunique := CatalogueDraft.uniqueIds_of_resolve h
  exact ⟨(byPosition_skills hunique).goesRound_iff, (byPosition_bonuses hunique).goesRound_iff,
    (byPosition_decorations hunique).goesRound_iff, (byPosition_charms hunique).goesRound_iff,
    (byPosition_weapons hunique).goesRound_iff, (byPosition_buffs hunique).goesRound_iff⟩

theorem goesRound_iff_of_resolve_archer :
    ∃ c, archerDraft.resolve = .ok c ∧ c.HandlesGoRound := by
  have hrun : (archerDraft.resolve.toOption.map fun c =>
      [c.skills.skills.size, c.skills.bonuses.size, c.decorations.size, c.charms.size,
        c.weapons.size, c.buffs.size]) = some [2, 1, 1, 1, 1, 0] := by
    decide +kernel
  obtain ⟨c, hc, hsizes⟩ := Option.map_eq_some_iff.1 hrun
  have hd := SuccessfulRun.toOption_eq_some_iff.1 hc
  obtain ⟨hskills, hbonuses, hdecorations, hcharms, hweapons, hbuffs⟩ := goesRound_iff_of_resolve hd
  simp only [List.cons.injEq, and_true] at hsizes
  obtain ⟨hs, hb, hj, hh, hw, hf⟩ := hsizes
  exact ⟨c, hd, hskills.2 (by rw [hs]; decide), hbonuses.2 (by rw [hb]; decide),
    hdecorations.2 (by rw [hj]; decide), hcharms.2 (by rw [hh]; decide),
    hweapons.2 (by rw [hw]; decide), hbuffs.2 (by rw [hf]; decide)⟩

section Crowded

/-- Ids in ascending order, each a single character. -/
def crowdedId (n : Nat) : String := String.singleton (Char.ofNat (0x10000 + n))

theorem compare_crowdedId {m n : Nat} (hmn : m < n) (hn : n ≤ UInt16.size) :
    compare (crowdedId m) (crowdedId n) = .lt := by
  have hchar : ∀ k ≤ UInt16.size, (Char.ofNat (0x10000 + k)).toNat = 0x10000 + k := by
    intro k hk
    -- beyond the surrogates
    have hvalid : (0x10000 + k).isValidChar := by
      right
      have hsize : UInt16.size = 65536 := rfl
      omega
    rw [Char.ofNat, dif_pos hvalid]
    exact UInt32.toNat_ofNatLT
  have hlt : Char.ofNat (0x10000 + m) < Char.ofNat (0x10000 + n) := by
    rw [Char.lt_def, UInt32.lt_iff_toNat_lt, Char.toNat_val, Char.toNat_val,
      hchar m (hmn.le.trans hn), hchar n hn]
    omega
  apply compareOfLessAndEq_eq_lt.2
  rw [crowdedId, crowdedId, String.lt_iff, String.toList_singleton, String.toList_singleton,
    List.cons_lt_cons_iff]
  exact .inl hlt

/-- One skill more than there are handles. -/
def crowdedDraft : CatalogueDraft where
  skills :=
    { skills :=
        { entries := (List.range (UInt16.size + 1)).map fun n =>
            (crowdedId n, ⟨"", 1, none, none, none⟩)
          ascending := by
            rw [List.pairwise_map]
            apply List.pairwise_lt_range.imp_of_mem
            intro m n _ hn hmn
            exact compare_crowdedId hmn (Nat.lt_succ_iff.1 (List.mem_range.1 hn)) }
      bonuses := ∅ }
  decorations := []
  armour := []
  charms := []
  weapons := []
  buffs := []

def crowdedSkill (n : Nat) : Skill := ⟨crowdedId n, "", 1, 1, 2, none⟩

theorem exists_resolve_crowdedDraft : ∃ c, crowdedDraft.resolve = .ok c ∧
    c.skills.skills = ((List.range (UInt16.size + 1)).map crowdedSkill).toArray := by
  have hskills : crowdedDraft.skills.skills.entries.mapM
      (fun e => crowdedDraft.skills.resolveSkill e.1 e.2) =
        .ok ((List.range (UInt16.size + 1)).map crowdedSkill) := by
    rw [SuccessfulRun.mapM_eq_ok_iff, crowdedDraft, List.forall₂_map_left_iff,
      List.forall₂_map_right_iff, List.forall₂_same]
    intro n _
    rfl
  have htable : ∃ t, crowdedDraft.skills.resolve = .ok t ∧
      t.skills = ((List.range (UInt16.size + 1)).map crowdedSkill).toArray :=
    ⟨_, SuccessfulRun.bind_eq_ok_iff.2 ⟨_, hskills, rfl⟩, rfl⟩
  obtain ⟨t, ht, hentries⟩ := htable
  exact ⟨_, SuccessfulRun.bind_eq_ok_iff.2 ⟨t, ht, rfl⟩, hentries⟩

/-- The last of too many skills is found as the first. -/
theorem handle_aliased_crowded : ∃ c, crowdedDraft.resolve = .ok c ∧
    c.skills.findSkill? (crowdedId UInt16.size) = some (.ofIndex 0) ∧
    (c.skills.skill (.ofIndex 0)).id = crowdedId 0 ∧ ¬ c.HandlesGoRound := by
  obtain ⟨c, hd, hskills⟩ := exists_resolve_crowdedDraft
  have haccess := byPosition_skills (CatalogueDraft.uniqueIds_of_resolve hd)
  have hsize : c.skills.skills.size = UInt16.size + 1 := by
    rw [hskills, List.size_toArray, List.length_map, List.length_range]
  have hget : ∀ (n : Nat) (hn : n < c.skills.skills.size), c.skills.skills[n].id = crowdedId n := by
    intro n hn
    simp [hskills, crowdedSkill]
  refine ⟨c, hd, ?_, ?_, ?_⟩
  · have hfound := haccess.find?_key (n := UInt16.size) (by omega)
    rw [haccess.wraps] at hfound
    rw [← hget UInt16.size (by omega)]
    exact hfound
  · rw [← hget 0 (by omega)]
    have hfirst : c.skills.skill (.ofIndex 0) = c.skills.skills.getD 0 default := rfl
    rw [hfirst, Array.getD_eq_getD_getElem?, Array.getElem?_eq_getElem (by omega)]
    rfl
  · intro hround
    have hle := haccess.goesRound_iff.1 hround.skills
    omega

end Crowded

end Catalogue

end Loadout
