import Loadout.Proofs.HandleRoundTrips
import Loadout.Proofs.PackedSlots
import Loadout.Proofs.Recomputation

/-!
# Accepted catalogues

A draft is sound if every id that it refers to is listed, every number lies in its range and nothing
that has to be told apart occurs twice.  All of this is said of the draft alone.  A resolver
succeeds exactly on what is sound, part by part and for the catalogue as a whole, whatever the order
in which it looks for faults; and the slots and stages that it lays down are those of the draft in
order.
-/

namespace Loadout

section Sound

/-- Whether a size is one that decorations and slots come in. -/
def SizeInRange (n : Nat) : Prop := 1 ≤ n ∧ n ≤ maxSlotSize

/-- Whether an element is there in all of its fields or in none of them. -/
def Element.Whole (e : Element) : Prop :=
  (e.visibility = .none → e.kind = .none ∧ e.value = 0) ∧
    (e.visibility ≠ .none → e.kind ≠ .none ∧ 0 < e.value)

variable (table : SkillsDraft)

/-- Whether a skill has some level, none beyond its secret limit, and no secret skill that is not
listed. -/
structure SkillDraft.Sound (s : SkillDraft) : Prop where
  limit : 1 ≤ s.limit
  secretLimit : s.limit ≤ s.secretLimit.getD s.limit
  secretSkill : ∀ id ∈ s.secretSkill, id ∈ table.skills.keys

structure StageDraft.Sound (s : StageDraft) : Prop where
  skill : s.skill ∈ table.skills.keys
  pieces : 1 ≤ s.pieces ∧ s.pieces ≤ maxPieces

structure DecorationDraft.Sound (d : DecorationDraft) : Prop where
  size : SizeInRange d.slotSize
  grants : d.skills.keys ≠ []
  skills : ∀ id ∈ d.skills.keys, id ∈ table.skills.keys

structure PieceDraft.Sound (p : PieceDraft) : Prop where
  skills : ∀ id ∈ p.skills.keys, id ∈ table.skills.keys
  slots : ∀ n ∈ p.slots, SizeInRange n

structure ArmourSetDraft.Sound (d : ArmourSetDraft) : Prop where
  bonus : ∀ id ∈ d.bonus, id ∈ table.bonuses.keys
  pieces : ∀ e ∈ d.pieces.entries, e.2.Sound table

structure CharmDraft.Sound (d : CharmDraft) : Prop where
  level : 1 ≤ d.maxLevel
  skills : ∀ id ∈ d.skills, id ∈ table.skills.keys

structure WeaponDraft.Sound (d : WeaponDraft) : Prop where
  raw : 1 ≤ d.trueRaw
  /-- Blades are what melee weapons have and ranged ones do not. -/
  gauge : d.gauge = none ↔ d.weaponClass.isRanged = true
  element : d.element.Whole
  slots : ∀ n ∈ d.slots, SizeInRange n
  skill : ∀ id ∈ d.skill, id ∈ table.skills.keys
  options : ∀ options, d.upgrades = .awakening options → ∀ id ∈ options, id ∈ table.bonuses.keys

end Sound

/-- The pieces of a stated set, each with what tells it from all others. -/
def ArmourSetDraft.stated (d : ArmourSetDraft) : List ((String × Variant × Slot) × PieceDraft) :=
  d.pieces.entries.map fun e => ((d.setName, d.variant, e.1), e.2)

/-- Whether no id and no piece is stated twice. -/
structure CatalogueDraft.Unique (d : CatalogueDraft) : Prop where
  decorations : (d.decorations.map (·.id)).Nodup
  charms : (d.charms.map (·.id)).Nodup
  weapons : (d.weapons.map (·.id)).Nodup
  buffs : (d.buffs.map (·.id)).Nodup
  pieces : ((d.armour.flatMap ArmourSetDraft.stated).map (·.1)).Nodup

/-- Whether a draft refers to nothing that is not listed, has all numbers in their ranges, and
repeats no id and no piece. -/
structure CatalogueDraft.Sound (d : CatalogueDraft) : Prop where
  skills : ∀ e ∈ d.skills.skills.entries, e.2.Sound d.skills
  stages : ∀ e ∈ d.skills.bonuses.entries, ∀ s ∈ e.2.stages, s.Sound d.skills
  decorations : ∀ x ∈ d.decorations, x.Sound d.skills
  armour : ∀ x ∈ d.armour, x.Sound d.skills
  charms : ∀ x ∈ d.charms, x.Sound d.skills
  weapons : ∀ x ∈ d.weapons, x.Sound d.skills
  unique : d.Unique

section Checking

theorem Element.consistent_iff {e : Element} : e.consistent = true ↔ e.Whole := by
  unfold consistent Whole
  cases e.visibility <;> simp

theorem validSize_iff {n : Nat} : validSize n = true ↔ SizeInRange n := by
  simp [validSize, SizeInRange]

variable {α : Type} {entry : Entry} {kind : Kind} {find : String → Option α} {id : String}

theorem refer_eq_ok_iff {a : α} : refer entry kind find id = .ok a ↔ find id = some a := by
  unfold refer
  cases find id <;> simp

/-- A check passed leaves the rest of the run. -/
theorem exists_demand_bind_eq_ok_iff {β : Type} {condition : Bool} {fault : EntryFault}
    {next : Unit → Except CatalogueError β} :
    (∃ b, demand condition entry fault >>= next = .ok b) ↔
      condition = true ∧ ∃ b, next () = .ok b := by
  simp only [SuccessfulRun.exists_bind_eq_ok_iff, demand_eq_ok_iff]
  exact ⟨fun ⟨_, h⟩ => h, fun h => ⟨(), h⟩⟩

theorem resolveSlots_eq_ok_iff {slots sorted : List Nat} :
    resolveSlots entry slots = .ok sorted ↔
      (∀ n ∈ slots, SizeInRange n) ∧ sorted = descending slots := by
  have hall : (slots.find? fun n => !validSize n) = none ↔ ∀ n ∈ slots, SizeInRange n := by
    simp [List.find?_eq_none, validSize_iff]
  rw [← hall]
  unfold resolveSlots
  cases slots.find? fun n => !validSize n with
  | none => simp [eq_comm]
  | some n => simp

end Checking

namespace SkillsDraft

variable {d : SkillsDraft} {t : SkillTable} {id : String}

theorem exists_find?_iff : (∃ s, d.find? id = some s) ↔ id ∈ d.skills.keys := by
  rw [← Option.isSome_iff_exists, find?, Option.isSome_map, List.findIdx?_isSome]
  simp

theorem exists_refer_iff {entry : Entry} :
    (∃ s, refer entry .skill d.find? id = .ok s) ↔ id ∈ d.skills.keys := by
  simp only [refer_eq_ok_iff, exists_find?_iff]

theorem exists_resolveSkill_iff {s : SkillDraft} :
    (∃ skill, d.resolveSkill id s = .ok skill) ↔ s.Sound d := by
  unfold resolveSkill
  simp only [exists_demand_bind_eq_ok_iff, pure, Except.pure, SuccessfulRun.exists_bind_ok_iff,
    SuccessfulRun.exists_option_mapM_eq_ok_iff, exists_refer_iff, Bool.and_eq_true,
    decide_eq_true_iff]
  constructor
  · rintro ⟨⟨hlimit, hsecret⟩, hskill⟩
    exact ⟨hlimit, hsecret, hskill⟩
  · exact fun h => ⟨⟨h.limit, h.secretLimit⟩, h.secretSkill⟩

theorem resolveStage_eq_ok_iff {s : StageDraft} {stage : Stage} :
    d.resolveStage id s = .ok stage ↔
      d.find? s.skill = some stage.skill ∧ (1 ≤ s.pieces ∧ s.pieces ≤ maxPieces) ∧
        stage.pieces = s.pieces := by
  simp only [resolveStage, SuccessfulRun.bind_eq_ok_iff, refer_eq_ok_iff, demand_eq_ok_iff,
    Bool.and_eq_true, decide_eq_true_iff]
  constructor
  · rintro ⟨skill, hskill, _, hpieces, hstage⟩
    cases hstage
    exact ⟨hskill, hpieces, rfl⟩
  · rintro ⟨hskill, hpieces, hstage⟩
    exact ⟨stage.skill, hskill, (), hpieces, by cases stage; cases hstage; rfl⟩

theorem exists_resolveStage_iff {s : StageDraft} :
    (∃ stage, d.resolveStage id s = .ok stage) ↔ s.Sound d := by
  simp only [resolveStage_eq_ok_iff]
  constructor
  · rintro ⟨stage, hskill, hpieces, -⟩
    exact ⟨exists_find?_iff.1 ⟨_, hskill⟩, hpieces⟩
  · intro h
    obtain ⟨skill, hskill⟩ := exists_find?_iff.2 h.skill
    exact ⟨⟨s.pieces, skill⟩, hskill, h.pieces, rfl⟩

theorem exists_resolveBonus_iff {b : BonusDraft} :
    (∃ bonus, d.resolveBonus id b = .ok bonus) ↔ ∀ s ∈ b.stages, s.Sound d := by
  simp only [resolveBonus, pure, Except.pure, SuccessfulRun.exists_bind_ok_iff,
    SuccessfulRun.exists_mapM_eq_ok_iff, exists_resolveStage_iff]

theorem exists_resolve_iff : (∃ t, d.resolve = .ok t) ↔
    (∀ e ∈ d.skills.entries, e.2.Sound d) ∧
      ∀ e ∈ d.bonuses.entries, ∀ s ∈ e.2.stages, s.Sound d := by
  simp only [resolve, SuccessfulRun.exists_bind_eq_ok_iff, pure, Except.pure, Except.ok.injEq,
    exists_eq', and_true, SuccessfulRun.exists_mapM_eq_ok_iff, exists_resolveBonus_iff]
  rw [exists_and_right, SuccessfulRun.exists_mapM_eq_ok_iff]
  simp only [exists_resolveSkill_iff]

/-- Whether a table finds the ids that a draft lists, and no others. -/
structure NamedBy (d : SkillsDraft) (t : SkillTable) : Prop where
  skills : ∀ id, (∃ s, t.findSkill? id = some s) ↔ id ∈ d.skills.keys
  bonuses : ∀ id, (∃ b, t.findBonus? id = some b) ↔ id ∈ d.bonuses.keys

theorem exists_position?_iff {α : Type} {key : α → String} {entries : Array α} :
    (∃ n, SkillTable.position? key entries id = some n) ↔ id ∈ entries.toList.map key := by
  rw [← Option.isSome_iff_exists, SkillTable.position?, Array.findIdx?_isSome, Array.any_eq_true',
    List.mem_map]
  simp

theorem namedBy_of_resolve (h : d.resolve = .ok t) : d.NamedBy t := by
  have hbonuses : t.bonuses.toList.map SetBonus.id = d.bonuses.keys :=
    SuccessfulRun.map_eq_map
      ((resolves_of_resolve h).bonuses.imp fun _ _ hrun => id_of_resolveBonus hrun)
  constructor
  · intro id
    rw [findSkill?_of_resolve h, exists_find?_iff]
  · intro id
    rw [← hbonuses, ← exists_position?_iff]
    simp [SkillTable.findBonus?]

theorem NamedBy.exists_refer_skill_iff (h : d.NamedBy t) {entry : Entry} :
    (∃ s, refer entry .skill t.findSkill? id = .ok s) ↔ id ∈ d.skills.keys := by
  simp only [refer_eq_ok_iff, h.skills]

theorem NamedBy.exists_refer_bonus_iff (h : d.NamedBy t) {entry : Entry} :
    (∃ b, refer entry .bonus t.findBonus? id = .ok b) ↔ id ∈ d.bonuses.keys := by
  simp only [refer_eq_ok_iff, h.bonuses]

theorem NamedBy.exists_referAll_iff (h : d.NamedBy t) {entry : Entry}
    {levels : OrderedMap String Nat} :
    (∃ grants, t.referAll entry levels.entries = .ok grants) ↔
      ∀ id ∈ levels.keys, id ∈ d.skills.keys := by
  simp only [SkillTable.referAll, pure, Except.pure, SuccessfulRun.exists_mapM_eq_ok_iff,
    SuccessfulRun.exists_bind_ok_iff, h.exists_refer_skill_iff, OrderedMap.keys,
    List.forall_mem_map]

end SkillsDraft

section Entries

variable {table : SkillsDraft} {t : SkillTable} (ht : table.NamedBy t)
include ht

theorem DecorationDraft.exists_resolve_iff {d : DecorationDraft} :
    (∃ x, d.resolve t = .ok x) ↔ d.Sound table := by
  have hgrants : (!d.skills.isEmpty) = true ↔ d.skills.keys ≠ [] := by
    simp [OrderedMap.isEmpty, OrderedMap.keys]
  simp only [resolve, exists_demand_bind_eq_ok_iff, pure, Except.pure,
    SuccessfulRun.exists_bind_ok_iff, ht.exists_referAll_iff, validSize_iff, hgrants]
  constructor
  · rintro ⟨hsize, hsome, hskills⟩
    exact ⟨hsize, hsome, hskills⟩
  · exact fun h => ⟨h.size, h.grants, h.skills⟩

theorem CharmDraft.exists_resolve_iff {d : CharmDraft} :
    (∃ x, d.resolve t = .ok x) ↔ d.Sound table := by
  simp only [resolve, exists_demand_bind_eq_ok_iff, pure, Except.pure,
    SuccessfulRun.exists_bind_ok_iff, SuccessfulRun.exists_mapM_eq_ok_iff,
    ht.exists_refer_skill_iff, decide_eq_true_iff]
  constructor
  · rintro ⟨hlevel, hskills⟩
    exact ⟨hlevel, hskills⟩
  · exact fun h => ⟨h.level, h.skills⟩

namespace ArmourSetDraft

theorem exists_resolvePiece_iff {d : ArmourSetDraft} {bonus : Option BonusId} {slot : Slot}
    {p : PieceDraft} : (∃ x, d.resolvePiece t bonus slot p = .ok x) ↔ p.Sound table := by
  simp only [resolvePiece, SuccessfulRun.exists_bind_eq_ok_iff, resolveSlots_eq_ok_iff, pure,
    Except.pure, Except.ok.injEq, exists_eq', and_true, exists_and_left, exists_eq,
    exists_and_right, ht.exists_referAll_iff]
  constructor
  · rintro ⟨hskills, hslots⟩
    exact ⟨hskills, hslots⟩
  · exact fun h => ⟨h.skills, h.slots⟩

theorem exists_resolve_iff {d : ArmourSetDraft} :
    (∃ x, d.resolve t = .ok x) ↔ d.Sound table := by
  simp only [resolve, SuccessfulRun.exists_bind_eq_ok_iff, SuccessfulRun.exists_mapM_eq_ok_iff,
    exists_resolvePiece_iff ht, exists_and_right, SuccessfulRun.exists_option_mapM_eq_ok_iff,
    ht.exists_refer_bonus_iff]
  constructor
  · rintro ⟨hbonus, hpieces⟩
    exact ⟨hbonus, hpieces⟩
  · exact fun h => ⟨h.bonus, h.pieces⟩

end ArmourSetDraft

theorem UpgradesDraft.exists_resolve_iff {entry : Entry} {u : UpgradesDraft} :
    (∃ x, u.resolve t entry = .ok x) ↔
      ∀ options, u = .awakening options → ∀ id ∈ options, id ∈ table.bonuses.keys := by
  cases u with
  | none => simp [resolve]
  | custom => simp [resolve]
  | awakening options =>
      simp only [resolve, pure, Except.pure, SuccessfulRun.exists_bind_ok_iff,
        SuccessfulRun.exists_mapM_eq_ok_iff, ht.exists_refer_bonus_iff, awakening.injEq, forall_eq']

theorem WeaponDraft.exists_resolve_iff {d : WeaponDraft} :
    (∃ x, d.resolve t = .ok x) ↔ d.Sound table := by
  have hgauge : (d.weaponClass.isRanged == d.gauge.isNone) = true ↔
      (d.gauge = none ↔ d.weaponClass.isRanged = true) := by
    rw [← Option.isNone_iff_eq_none, beq_iff_eq, Bool.eq_iff_iff]
    exact iff_comm
  simp only [resolve, exists_demand_bind_eq_ok_iff, SuccessfulRun.exists_bind_eq_ok_iff,
    resolveSlots_eq_ok_iff, pure, Except.pure, Except.ok.injEq, exists_eq', and_true,
    exists_and_left, exists_and_right, exists_eq, SuccessfulRun.exists_option_mapM_eq_ok_iff,
    ht.exists_refer_skill_iff, UpgradesDraft.exists_resolve_iff ht, decide_eq_true_iff, hgauge,
    Element.consistent_iff]
  constructor
  · rintro ⟨hraw, hgauge, helement, hslots, hskill, hoptions⟩
    exact ⟨hraw, hgauge, helement, hslots, hskill, hoptions⟩
  · exact fun h => ⟨h.raw, h.gauge, h.element, h.slots, h.skill, h.options⟩

end Entries

section Order

/-- Whether slots are those that are stated, largest first. -/
structure SlotsInOrder (stated slots : List Nat) : Prop where
  perm : slots.Perm stated
  descending : slots.Pairwise fun a b => b ≤ a

/-- Whether stages are those that are stated, with the handles of their skills, smallest number of
pieces first. -/
structure StagesInOrder (t : SkillTable) (stated : List StageDraft) (stages : List Stage) :
    Prop where
  perm : (stages.map fun s => (s.pieces, some s.skill)).Perm
    (stated.map fun s => (s.pieces, t.findSkill? s.skill))
  ascending : stages.Pairwise fun a b => a.pieces ≤ b.pieces

theorem slotsInOrder_descending (slots : List Nat) : SlotsInOrder slots (descending slots) :=
  ⟨descending_perm slots, pairwise_descending slots⟩

theorem SkillsDraft.stagesInOrder_of_resolveBonus {d : SkillsDraft} {t : SkillTable}
    (ht : d.resolve = .ok t) {id : String} {b : BonusDraft} {bonus : SetBonus}
    (h : d.resolveBonus id b = .ok bonus) : StagesInOrder t b.stages bonus.stages := by
  obtain ⟨stages, hstages, h⟩ := SuccessfulRun.bind_eq_ok_iff.1 h
  cases h
  constructor
  · have hsame : stages.map (fun s => (s.pieces, some s.skill)) =
        b.stages.map fun s => (s.pieces, t.findSkill? s.skill) := by
      apply SuccessfulRun.map_eq_map
      apply (SuccessfulRun.mapM_eq_ok_iff.1 hstages).imp
      intro s stage hrun
      obtain ⟨hskill, -, hpieces⟩ := resolveStage_eq_ok_iff.1 hrun
      rw [findSkill?_of_resolve ht, hskill, hpieces]
    rw [← hsame]
    exact (List.mergeSort_perm _ _).map _
  · have htrans : ∀ a b c : Stage, decide (a.pieces ≤ b.pieces) = true →
        decide (b.pieces ≤ c.pieces) = true → decide (a.pieces ≤ c.pieces) = true := by
      simp only [decide_eq_true_iff]
      exact fun a b c => Nat.le_trans
    have htotal : ∀ a b : Stage,
        (decide (a.pieces ≤ b.pieces) || decide (b.pieces ≤ a.pieces)) = true := by
      simp only [Bool.or_eq_true, decide_eq_true_iff]
      exact fun a b => Nat.le_total ..
    exact (List.pairwise_mergeSort htrans htotal stages).imp of_decide_eq_true

/-- Whether slots and stages are everywhere those that are stated, in their order. -/
structure CatalogueDraft.InOrder (d : CatalogueDraft) (c : Catalogue) : Prop where
  stages : List.Forall₂ (fun e bonus => StagesInOrder c.skills e.2.stages bonus.stages)
    d.skills.bonuses.entries c.skills.bonuses.toList
  pieces : List.Forall₂ (fun e piece => SlotsInOrder e.2.slots piece.decoSlots)
    (d.armour.flatMap ArmourSetDraft.stated) c.pieces.toList
  weapons : List.Forall₂ (fun w weapon => SlotsInOrder w.slots weapon.decoSlots)
    d.weapons c.weapons.toList

end Order

section Entries

variable {t : SkillTable}

theorem DecorationDraft.id_of_resolve {d : DecorationDraft} {x : Decoration}
    (h : d.resolve t = .ok x) : x.id = d.id := by
  obtain ⟨_, -, h⟩ := SuccessfulRun.bind_eq_ok_iff.1 h
  obtain ⟨_, -, h⟩ := SuccessfulRun.bind_eq_ok_iff.1 h
  obtain ⟨skills, -, h⟩ := SuccessfulRun.bind_eq_ok_iff.1 h
  cases h
  rfl

theorem CharmDraft.id_of_resolve {d : CharmDraft} {x : Charm} (h : d.resolve t = .ok x) :
    x.id = d.id := by
  obtain ⟨_, -, h⟩ := SuccessfulRun.bind_eq_ok_iff.1 h
  obtain ⟨skills, -, h⟩ := SuccessfulRun.bind_eq_ok_iff.1 h
  cases h
  rfl

theorem WeaponDraft.id_and_slots_of_resolve {d : WeaponDraft} {x : Weapon}
    (h : d.resolve t = .ok x) : x.id = d.id ∧ x.decoSlots = descending d.slots := by
  obtain ⟨_, -, h⟩ := SuccessfulRun.bind_eq_ok_iff.1 h
  obtain ⟨_, -, h⟩ := SuccessfulRun.bind_eq_ok_iff.1 h
  obtain ⟨_, -, h⟩ := SuccessfulRun.bind_eq_ok_iff.1 h
  obtain ⟨slots, hslots, h⟩ := SuccessfulRun.bind_eq_ok_iff.1 h
  obtain ⟨skill, -, h⟩ := SuccessfulRun.bind_eq_ok_iff.1 h
  obtain ⟨upgrades, -, h⟩ := SuccessfulRun.bind_eq_ok_iff.1 h
  cases h
  exact ⟨rfl, (resolveSlots_eq_ok_iff.1 hslots).2⟩

namespace ArmourSetDraft

variable {d : ArmourSetDraft}

theorem key_and_slots_of_resolvePiece {bonus : Option BonusId} {slot : Slot} {p : PieceDraft}
    {piece : Piece} (h : d.resolvePiece t bonus slot p = .ok piece) :
    piece.key = (d.setName, d.variant, slot) ∧ piece.decoSlots = descending p.slots := by
  obtain ⟨skills, -, h⟩ := SuccessfulRun.bind_eq_ok_iff.1 h
  obtain ⟨slots, hslots, h⟩ := SuccessfulRun.bind_eq_ok_iff.1 h
  cases h
  exact ⟨rfl, (resolveSlots_eq_ok_iff.1 hslots).2⟩

theorem pieces_of_resolve {pieces : List Piece} (h : d.resolve t = .ok pieces) :
    List.Forall₂ (fun e p => p.key = e.1 ∧ p.decoSlots = descending e.2.slots) d.stated pieces := by
  obtain ⟨bonus, -, h⟩ := SuccessfulRun.bind_eq_ok_iff.1 h
  rw [stated, List.forall₂_map_left_iff]
  exact (SuccessfulRun.mapM_eq_ok_iff.1 h).imp fun _ _ => key_and_slots_of_resolvePiece

end ArmourSetDraft

end Entries

namespace CatalogueDraft

variable {d : CatalogueDraft} {c : Catalogue}

/-- Whether the tables of a catalogue are the resolved tables of a draft, be there repeated ids or
not. -/
structure LaidDown (d : CatalogueDraft) (c : Catalogue) : Prop where
  skills : d.skills.resolve = .ok c.skills
  decorations : d.decorations.mapM (DecorationDraft.resolve c.skills) = .ok c.decorations.toList
  armour : ∃ sets, d.armour.mapM (ArmourSetDraft.resolve c.skills) = .ok sets ∧
    sets.flatten = c.pieces.toList
  charms : d.charms.mapM (CharmDraft.resolve c.skills) = .ok c.charms.toList
  weapons : d.weapons.mapM (WeaponDraft.resolve c.skills) = .ok c.weapons.toList
  buffs : c.buffs.toList = d.buffs

namespace LaidDown

variable (h : d.LaidDown c)
include h

theorem decorationIds : c.decorations.toList.map (·.id) = d.decorations.map (·.id) :=
  SuccessfulRun.map_eq_map ((SuccessfulRun.mapM_eq_ok_iff.1 h.decorations).imp
    fun _ _ => DecorationDraft.id_of_resolve)

theorem charmIds : c.charms.toList.map (·.id) = d.charms.map (·.id) :=
  SuccessfulRun.map_eq_map ((SuccessfulRun.mapM_eq_ok_iff.1 h.charms).imp
    fun _ _ => CharmDraft.id_of_resolve)

theorem weaponIds : c.weapons.toList.map (·.id) = d.weapons.map (·.id) :=
  SuccessfulRun.map_eq_map ((SuccessfulRun.mapM_eq_ok_iff.1 h.weapons).imp
    fun _ _ hrun => (WeaponDraft.id_and_slots_of_resolve hrun).1)

theorem pieces : List.Forall₂ (fun e p => p.key = e.1 ∧ p.decoSlots = descending e.2.slots)
    (d.armour.flatMap ArmourSetDraft.stated) c.pieces.toList := by
  obtain ⟨sets, hsets, hpieces⟩ := h.armour
  rw [← hpieces, List.flatMap_def]
  apply List.rel_flatten
  rw [List.forall₂_map_left_iff]
  exact (SuccessfulRun.mapM_eq_ok_iff.1 hsets).imp fun _ _ => ArmourSetDraft.pieces_of_resolve

theorem pieceKeys : c.pieces.toList.map Piece.key =
    (d.armour.flatMap ArmourSetDraft.stated).map (·.1) :=
  SuccessfulRun.map_eq_map (h.pieces.imp fun _ _ hrun => hrun.1)

theorem inOrder : d.InOrder c where
  stages := (SkillsDraft.resolves_of_resolve h.skills).bonuses.imp
    fun _ _ => SkillsDraft.stagesInOrder_of_resolveBonus h.skills
  pieces := h.pieces.imp fun e _ hrun => hrun.2 ▸ slotsInOrder_descending e.2.slots
  weapons := (SuccessfulRun.mapM_eq_ok_iff.1 h.weapons).imp fun w _ hrun =>
    (WeaponDraft.id_and_slots_of_resolve hrun).2 ▸ slotsInOrder_descending w.slots

end LaidDown

theorem demandUniquePieces_eq_ok_iff {pieces : List Piece} {u : Unit} :
    demandUniquePieces pieces = .ok u ↔ (pieces.map Piece.key).Nodup := by
  have hrepeat : firstRepeat [] (pieces.map Piece.key) = none ↔
      (pieces.map Piece.key).Nodup ∧ ∀ key ∈ pieces.map Piece.key, key ∉ [] :=
    firstRepeat_eq_none_iff
  unfold demandUniquePieces
  cases h : firstRepeat [] (pieces.map Piece.key) with
  | none => simpa [h] using hrepeat
  | some key => simpa [h] using hrepeat

/-- A draft becomes a catalogue by being laid down with nothing repeated. -/
theorem resolve_eq_ok_iff : d.resolve = .ok c ↔ d.LaidDown c ∧ d.Unique := by
  simp only [resolve, SuccessfulRun.bind_eq_ok_iff, demandUnique_eq_ok_iff,
    demandUniquePieces_eq_ok_iff]
  constructor
  · rintro ⟨skills, hskills, decorations, hdecorations, sets, hsets, charms, hcharms, weapons,
      hweapons, _, hdecorationIds, _, hcharmIds, _, hweaponIds, _, hbuffIds, _, hkeys, hc⟩
    cases hc
    have hlaid : d.LaidDown ⟨skills, decorations.toArray, sets.flatten.toArray, charms.toArray,
        weapons.toArray, d.buffs.toArray⟩ :=
      ⟨hskills, hdecorations, ⟨sets, hsets, rfl⟩, hcharms, hweapons, rfl⟩
    -- what was compared are the ids of the tables, which are those of the draft
    refine ⟨hlaid, ?_, ?_, ?_, hbuffIds, ?_⟩
    · exact hlaid.decorationIds ▸ hdecorationIds
    · exact hlaid.charmIds ▸ hcharmIds
    · exact hlaid.weaponIds ▸ hweaponIds
    · exact hlaid.pieceKeys ▸ hkeys
  · rintro ⟨hlaid, hunique⟩
    obtain ⟨sets, hsets, hpieces⟩ := hlaid.armour
    refine ⟨_, hlaid.skills, _, hlaid.decorations, sets, hsets, _, hlaid.charms, _, hlaid.weapons,
      (), ?_, (), ?_, (), ?_, (), hunique.buffs, (), ?_, ?_⟩
    · exact hlaid.decorationIds ▸ hunique.decorations
    · exact hlaid.charmIds ▸ hunique.charms
    · exact hlaid.weaponIds ▸ hunique.weapons
    · rw [hpieces, hlaid.pieceKeys]
      exact hunique.pieces
    · rw [hpieces, ← hlaid.buffs]
      rfl

/-- In a draft that is laid down every entry is sound, since each was resolved by itself. -/
theorem LaidDown.sound (h : d.LaidDown c) (hunique : d.Unique) : d.Sound := by
  have ht := SkillsDraft.namedBy_of_resolve h.skills
  obtain ⟨hskills, hstages⟩ := SkillsDraft.exists_resolve_iff.1 ⟨_, h.skills⟩
  obtain ⟨sets, hsets, -⟩ := h.armour
  refine ⟨hskills, hstages, ?_, ?_, ?_, ?_, hunique⟩
  · intro x hx
    exact (DecorationDraft.exists_resolve_iff ht).1
      (SuccessfulRun.exists_mapM_eq_ok_iff.1 ⟨_, h.decorations⟩ x hx)
  · intro x hx
    exact (ArmourSetDraft.exists_resolve_iff ht).1
      (SuccessfulRun.exists_mapM_eq_ok_iff.1 ⟨_, hsets⟩ x hx)
  · intro x hx
    exact (CharmDraft.exists_resolve_iff ht).1
      (SuccessfulRun.exists_mapM_eq_ok_iff.1 ⟨_, h.charms⟩ x hx)
  · intro x hx
    exact (WeaponDraft.exists_resolve_iff ht).1
      (SuccessfulRun.exists_mapM_eq_ok_iff.1 ⟨_, h.weapons⟩ x hx)

theorem Sound.exists_laidDown (h : d.Sound) : ∃ c, d.LaidDown c := by
  obtain ⟨t, ht⟩ := SkillsDraft.exists_resolve_iff.2 ⟨h.skills, h.stages⟩
  have hnamed := SkillsDraft.namedBy_of_resolve ht
  obtain ⟨decorations, hdecorations⟩ := SuccessfulRun.exists_mapM_eq_ok
    fun x hx => (DecorationDraft.exists_resolve_iff hnamed).2 (h.decorations x hx)
  obtain ⟨sets, hsets⟩ := SuccessfulRun.exists_mapM_eq_ok
    fun x hx => (ArmourSetDraft.exists_resolve_iff hnamed).2 (h.armour x hx)
  obtain ⟨charms, hcharms⟩ := SuccessfulRun.exists_mapM_eq_ok
    fun x hx => (CharmDraft.exists_resolve_iff hnamed).2 (h.charms x hx)
  obtain ⟨weapons, hweapons⟩ := SuccessfulRun.exists_mapM_eq_ok
    fun x hx => (WeaponDraft.exists_resolve_iff hnamed).2 (h.weapons x hx)
  exact ⟨⟨t, decorations.toArray, sets.flatten.toArray, charms.toArray, weapons.toArray,
    d.buffs.toArray⟩, ht, hdecorations, ⟨sets, hsets, rfl⟩, hcharms, hweapons, rfl⟩

/-- A draft is accepted exactly if it is sound; all slots and stages are then laid down in their
order. -/
theorem accepted_iff_sound (d : CatalogueDraft) :
    ((∃ c, d.resolve = .ok c) ↔ d.Sound) ∧ ∀ c, d.resolve = .ok c → d.InOrder c := by
  refine ⟨⟨?_, ?_⟩, ?_⟩
  · rintro ⟨c, hc⟩
    obtain ⟨hlaid, hunique⟩ := resolve_eq_ok_iff.1 hc
    exact hlaid.sound hunique
  · intro h
    obtain ⟨c, hlaid⟩ := h.exists_laidDown
    exact ⟨c, resolve_eq_ok_iff.2 ⟨hlaid, h.unique⟩⟩
  · intro c hc
    exact (resolve_eq_ok_iff.1 hc).1.inOrder

/-- A set with its stages and a bow with its slots in no order. -/
def unorderedDraft : CatalogueDraft where
  skills := ⟨.ofList [("ATTACK_BOOST", ⟨"Attack Boost", 4, some 7, none, some "GUILD_SECRET"⟩),
      ("GUILD_SECRET", ⟨"Guild Secret", 1, none, none, none⟩)],
    .ofList [("GUILD", ⟨"Guild", [⟨4, "GUILD_SECRET"⟩, ⟨2, "ATTACK_BOOST"⟩]⟩)]⟩
  decorations := [⟨"ATTACK_JEWEL", "Attack Jewel", 1, .ofList [("ATTACK_BOOST", 1)]⟩]
  armour := [⟨"Guild", .low, some "GUILD", .ofList [(.head, ⟨∅, [1, 3, 2]⟩)]⟩]
  charms := []
  weapons := [{
    id := "BOW", name := "Bow", weaponClass := .bow, rarity := 1, trueRaw := 100, affinity := 0
    skill := none, slots := [1, 4], element := {}, gauge := none, constantSharpness := false
    augments := .none, upgrades := .awakening ["GUILD"] }]
  buffs := []

theorem accepted_iff_sound_unordered :
    ∃ c, unorderedDraft.resolve = .ok c ∧ unorderedDraft.Sound ∧ unorderedDraft.InOrder c := by
  have hrun : unorderedDraft.resolve.toOption.isSome = true := by decide +kernel
  obtain ⟨c, hc⟩ := Option.isSome_iff_exists.1 hrun
  have hd := SuccessfulRun.toOption_eq_some_iff.1 hc
  obtain ⟨hsound, horder⟩ := accepted_iff_sound unorderedDraft
  exact ⟨c, hd, hsound.1 ⟨c, hd⟩, horder c hd⟩

end CatalogueDraft

end Loadout
