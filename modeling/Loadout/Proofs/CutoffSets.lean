import Loadout.Proofs.ReportedBuilds

/-!
# Sets below the cutoffs

A front prefers more pieces of a set bonus even where these lead to its cutoff, so the choice that
replaces another one can be lost at a later slot.  What is not lost are the safe choices: those that
stay within the cutoffs whatever replaces them.  All choices are safe where fewer slots offer a set
bonus than its cutoff.  A choice that grows in place of a safe one is finished with the safe one's
remaining entries, so it stays within the cutoffs as well.
-/

namespace Loadout

namespace Signature

variable {t : SkillTable} {r : Requirements} {a a' b : Signature}

theorem Within.le_merge (ha : a.Within t r) (b : Signature) : a ≤ a.merge t b := by
  intro component
  cases component with
  | skill k =>
      have hmerge : (a.merge t b).levels.count k = min (a.levels.count k + b.levels.count k)
        (t.cap k) := ha.levels.count_merge b.levels k
      have hcap := ha.levels k
      change a.levels.count k ≤ (a.merge t b).levels.count k
      omega
  | bonus k =>
      have hmerge : (a.merge t b).pieces.count k = min (a.pieces.count k + b.pieces.count k)
        maxPieces := ha.pieces.count_merge b.pieces k
      have hcap : a.pieces.count k ≤ maxPieces := ha.pieces k
      change a.pieces.count k ≤ (a.merge t b).pieces.count k
      omega

/-- A signature merged with the signatures of some entries, one after the other. -/
def mergeAll (t : SkillTable) (a : Signature) (entries : List SlotEntry) : Signature :=
  entries.foldl (fun s e => s.merge t e.signature) a

section

variable {entries : List SlotEntry} (hentries : ∀ e ∈ entries, e.signature.Within t r)
include hentries

theorem Within.le_mergeAll (ha : a.Within t r) : a ≤ mergeAll t a entries := by
  induction entries generalizing a with
  | nil => exact le_rfl
  | cons e rest ih =>
      have hmerged := ha.merge (hentries e List.mem_cons_self)
      exact (ha.le_merge e.signature).trans
        (ih (fun e he => hentries e (List.mem_cons_of_mem _ he)) hmerged)

theorem Within.mergeAll_mono (ha : a.Within t r) (ha' : a'.Within t r) (h : a ≤ a') :
    mergeAll t a entries ≤ mergeAll t a' entries := by
  induction entries generalizing a a' with
  | nil => exact h
  | cons e rest ih =>
      have he := hentries e List.mem_cons_self
      exact ih (fun e he => hentries e (List.mem_cons_of_mem _ he)) (ha.merge he) (ha'.merge he)
        (ha.merge_mono ha' h le_rfl)

end

end Signature

theorem Requirements.withinCutoffs_of_le {r : Requirements} {a b : Signature} (h : a ≤ b)
    (hwithin : r.withinCutoffs b.pieces = true) : r.withinCutoffs a.pieces = true :=
  withinCutoffs_of_count_le (fun k _ => h (.bonus k)) hwithin

variable {q : Request} {c : Catalogue} {useful : List UsefulDecoration} {slots rest : List Slot}

namespace Request

/-- Whether an allowed piece of a slot has a set bonus. -/
def offersBonus (q : Request) (c : Catalogue) (b : BonusId) (slot : Slot) : Bool :=
  (q.allowedPieces c slot).any fun p => (c.piece p.1).bonus = some b

theorem SlotChoice.count_pieces_le (huseful : c.decorationsFor q.requirements = .ok useful)
    {slot : Slot} {e : SlotEntry} (h : q.SlotChoice c useful slot e) (b : BonusId) :
    e.signature.pieces.count b ≤ if q.offersBonus c b slot then 1 else 0 := by
  obtain ⟨p, hp, hpiece, chosen, hmade⟩ := h.exists_madeOf huseful
  have hcount : e.signature.pieces.count b ≤ if (c.piece e.piece).bonus = some b then 1 else 0 := by
    rw [hmade.signature, Signature.ofGrants, Tally.count_collect, Tally.unitsOf_filter,
      Tally.unitsOf_toList_map_one]
    split
    · exact min_le_left _ _
    · exact (min_le_left _ _).trans (Nat.zero_le _)
  refine hcount.trans ?_
  split
  next hbonus =>
    have hoffers : q.offersBonus c b slot = true :=
      List.any_eq_true.2 ⟨p, hp, decide_eq_true (hpiece ▸ hbonus)⟩
    rw [if_pos hoffers]
  next => exact Nat.zero_le _

end Request

namespace Choice

/-- A choice for some slots continued with entries for the other slots. -/
def append (x : Choice q c useful slots) {entries : List SlotEntry}
    (h : List.Forall₂ (q.SlotChoice c useful) rest entries) :
    Choice q c useful (slots ++ rest) where
  seed := x.seed
  entries := x.entries ++ entries
  eligible := x.eligible
  allowed := List.rel_append x.allowed h

theorem signature_append (x : Choice q c useful slots) {entries : List SlotEntry}
    (h : List.Forall₂ (q.SlotChoice c useful) rest entries) :
    (x.append h).signature = x.signature.mergeAll c.skills entries := by
  simp [signature, append, Signature.mergeAll]

/-- Whether a choice stays within the cutoffs, and every choice with a larger signature too. -/
def Safe (x : Choice q c useful slots) : Prop :=
  ∀ y : Choice q c useful slots, x.signature ≤ y.signature →
    q.requirements.withinCutoffs y.signature.pieces = true

theorem count_pieces_le (huseful : c.decorationsFor q.requirements = .ok useful)
    (x : Choice q c useful slots) (b : BonusId) :
    x.signature.pieces.count b ≤ slots.countP (q.offersBonus c b) := by
  induction slots using List.reverseRecOn with
  | nil =>
      rw [signature, x.entries_eq_nil]
      exact Nat.le_refl 0
  | append_singleton slots slot ih =>
      obtain ⟨y, e, he, rfl⟩ := x.exists_snoc
      have hmerge : (y.snoc he).signature.pieces.count b =
          min (y.signature.pieces.count b + e.signature.pieces.count b) maxPieces := by
        rw [signature_snoc]
        exact (y.within huseful).pieces.count_merge e.signature.pieces b
      have hfirst := ih y
      have hlast := he.count_pieces_le huseful b
      rw [List.countP_append, List.countP_singleton]
      omega

/-- Where fewer slots offer a set bonus than its cutoff, every choice is safe. -/
theorem safe_of_few_offers (huseful : c.decorationsFor q.requirements = .ok useful)
    (hfew : ∀ e ∈ q.requirements.cutoffs.entries, slots.countP (q.offersBonus c e.1) < e.2)
    (x : Choice q c useful slots) : x.Safe := fun y _ =>
  List.all_eq_true.2 fun e he =>
    decide_eq_true ((y.count_pieces_le huseful e.1).trans_lt (hfew e he))

/-- A partial choice stays within the cutoffs if whatever it can be finished to does. -/
theorem withinCutoffs_of_finished (huseful : c.decorationsFor q.requirements = .ok useful)
    {base : Signature} (hbase : base.Within c.skills q.requirements)
    {x : Choice q c useful slots} (hle : base ≤ x.signature) {entries : List SlotEntry}
    (hentries : List.Forall₂ (q.SlotChoice c useful) rest entries)
    (hsafe : ∀ y : Choice q c useful (slots ++ rest), base.mergeAll c.skills entries ≤ y.signature →
      q.requirements.withinCutoffs y.signature.pieces = true) :
    q.requirements.withinCutoffs x.signature.pieces = true := by
  have hwithin : ∀ e ∈ entries, e.signature.Within c.skills q.requirements := fun e he => by
    obtain ⟨slot, -, hchoice⟩ := SuccessfulRun.exists_item hentries he
    exact hchoice.within huseful
  have hge : base.mergeAll c.skills entries ≤ (x.append hentries).signature := by
    rw [signature_append]
    exact hbase.mergeAll_mono hwithin (x.within huseful) hle
  have hfinished := hsafe (x.append hentries) hge
  rw [signature_append] at hfinished
  exact Requirements.withinCutoffs_of_le ((x.within huseful).le_mergeAll hwithin) hfinished

end Choice

namespace ArmourSet

/-- A step replaces a set with an entry by a set with at least their signature, if all that can come
of it is safe. -/
theorem exists_nextFront_ge (huseful : c.decorationsFor q.requirements = .ok useful) {slot : Slot}
    {table : List SlotEntry} (hslot : q.slotTable c useful slot = .ok table) {e : SlotEntry}
    (he : q.SlotChoice c useful slot e) {sets : List ArmourSet} {x : Choice q c useful slots}
    (hx : x.set ∈ sets)
    (hsafe : ∀ e', ∀ he' : q.SlotChoice c useful slot e', e.signature ≤ e'.signature →
      q.requirements.withinCutoffs (x.snoc he').signature.pieces = true) :
    ∃ s ∈ nextFront c q.requirements sets table,
      x.signature.merge c.skills e.signature ≤ s.signature := by
  obtain ⟨entries, hentries, htable⟩ := Request.slotTable_eq_ok hslot
  obtain ⟨e', hmem, hle⟩ := exists_frontOf_ge ((hentries e).2 he)
  rw [← htable] at hmem
  have he' := Request.slotChoice_of_mem_table hslot hmem
  have hwithin : q.requirements.withinCutoffs
      (SetPieces.merge x.set.signature.pieces e'.signature.pieces) = true := by
    have hsnoc := hsafe e' he' hle
    rw [x.signature_snoc] at hsnoc
    rw [x.signature_set]
    exact hsnoc
  have hextension : x.set.wear c e' ∈ extensions c q.requirements sets table :=
    mem_extensions.2 ⟨x.set, hx, e', hmem, hwithin, rfl⟩
  obtain ⟨s, hs, hge⟩ := exists_frontOf_ge hextension
  have hmerge : x.signature.merge c.skills e.signature ≤
      x.signature.merge c.skills e'.signature :=
    (x.within huseful).merge_mono (x.within huseful) le_rfl hle
  have hset : (x.set.wear c e').signature = x.signature.merge c.skills e'.signature := by
    rw [← x.signature_set]
    rfl
  exact ⟨s, hs, (hset ▸ hmerge).trans hge⟩

theorem withinCutoffs_of_mem_nextFront {r : Requirements} {sets : List ArmourSet}
    {table : List SlotEntry} {s : ArmourSet} (h : s ∈ nextFront c r sets table) :
    r.withinCutoffs s.signature.pieces = true := by
  obtain ⟨first, -, e, -, hwithin, rfl⟩ := mem_extensions.1 (frontOf_subset h)
  exact hwithin

theorem withinCutoffs_of_mem_foldl {r : Requirements} {sets : List ArmourSet}
    {tables : List (List SlotEntry)} (htables : tables ≠ []) {s : ArmourSet}
    (h : s ∈ tables.foldl (nextFront c r) sets) : r.withinCutoffs s.signature.pieces = true := by
  cases tables using List.reverseRecOn with
  | nil => exact absurd rfl htables
  | append_singleton tables last =>
      rw [List.foldl_append] at h
      exact withinCutoffs_of_mem_nextFront h

/-- Steps with all remaining tables keep a set with at least the signature of a partial choice and
its remaining entries, if that is safe. -/
theorem exists_foldl_nextFront_ge (huseful : c.decorationsFor q.requirements = .ok useful)
    {tables : List (List SlotEntry)}
    (hruns : List.Forall₂ (fun slot table => q.slotTable c useful slot = .ok table) rest tables)
    {sets : List ArmourSet} (hsets : ∀ s ∈ sets, ∃ x : Choice q c useful slots, x.set = s)
    {entries : List SlotEntry} (hentries : List.Forall₂ (q.SlotChoice c useful) rest entries)
    {base : Signature} (hbase : base.Within c.skills q.requirements)
    (hcovered : ∃ s ∈ sets, base ≤ s.signature)
    (hsafe : ∀ y : Choice q c useful (slots ++ rest), base.mergeAll c.skills entries ≤ y.signature →
      q.requirements.withinCutoffs y.signature.pieces = true) :
    ∃ s ∈ tables.foldl (nextFront c q.requirements) sets,
      base.mergeAll c.skills entries ≤ s.signature := by
  -- by the remaining slots: the front keeps a set that the rest of the safe choice finishes, and
  -- what the slots so far add up to moves from the rest to the base
  induction hruns generalizing slots sets entries base with
  | nil =>
      cases hentries
      exact hcovered
  | @cons slot table rest tables hslot _ ih =>
      obtain ⟨e, others, he, hothers, rfl⟩ := List.forall₂_cons_left_iff.1 hentries
      obtain ⟨_, hs, hle⟩ := hcovered
      obtain ⟨x, rfl⟩ := hsets _ hs
      rw [x.signature_set] at hle
      have hmerged := hbase.merge (he.within huseful)
      have hsafe' : ∀ y : Choice q c useful (slots ++ [slot] ++ rest),
          (base.merge c.skills e.signature).mergeAll c.skills others ≤ y.signature →
            q.requirements.withinCutoffs y.signature.pieces = true := by
        rw [List.append_assoc]
        exact hsafe
      have hgrown : ∀ e', ∀ he' : q.SlotChoice c useful slot e', e.signature ≤ e'.signature →
          q.requirements.withinCutoffs (x.snoc he').signature.pieces = true := by
        intro e' he' hle'
        have hge : base.merge c.skills e.signature ≤ (x.snoc he').signature := by
          rw [x.signature_snoc]
          exact hbase.merge_mono (x.within huseful) hle hle'
        exact Choice.withinCutoffs_of_finished huseful hmerged hge hothers hsafe'
      obtain ⟨s, hs, hge⟩ := exists_nextFront_ge huseful hslot he hs hgrown
      have hnext := (hbase.merge_mono (x.within huseful) hle le_rfl).trans hge
      exact ih (Request.exists_choice_of_mem_nextFront hslot hsets) hothers hmerged ⟨s, hs, hnext⟩
        hsafe'

end ArmourSet

namespace Request

variable {draft : RequestDraft} {layout : Option Layout} {tables : List (List SlotEntry)}

/-- Two head pieces with the same skill, the first of them with a set bonus. -/
def guildDraft : CatalogueDraft where
  skills := ⟨.ofList [("ATTACK_BOOST", ⟨"Attack Boost", 7, none, none, none⟩)],
    .ofList [("GUILD", ⟨"Guild", [⟨2, "ATTACK_BOOST"⟩]⟩)]⟩
  decorations := [⟨"ATTACK_JEWEL", "Attack Jewel", 1, .ofList [("ATTACK_BOOST", 1)]⟩]
  armour := [
    ⟨"Guild", .low, some "GUILD", .ofList [(.head, ⟨.ofList [("ATTACK_BOOST", 1)], []⟩)]⟩,
    ⟨"Hunter", .low, none, .ofList [(.head, ⟨.ofList [("ATTACK_BOOST", 1)], []⟩),
      (.chest, ⟨∅, []⟩), (.arms, ⟨∅, []⟩), (.waist, ⟨∅, []⟩), (.legs, ⟨∅, []⟩)]⟩]
  charms := []
  weapons := [{
    id := "BOW", name := "Bow", weaponClass := .bow, rarity := 1, trueRaw := 100, affinity := 0
    skill := none, slots := [], element := {}, gauge := none, constantSharpness := false
    augments := .none, upgrades := .none }]
  buffs := []

/-- A request that allows fewer pieces of the set bonus than its cutoff. -/
def guildRequest (cutoff : Nat) : RequestDraft where
  allowLow := true
  allowHigh := false
  allowMaster := false
  healthRegenRequired := false
  weaponClass := .bow
  allowElement := []
  damageModel := ⟨100, fun _ => none, 100, fun _ => 0⟩
  requirements := ⟨.ofList [("ATTACK_BOOST", 1)], ∅, [], .ofList [("GUILD", cutoff)]⟩
  buffs := []

/-- One way to wear the last allowed piece of a slot. -/
def lastEntry (q : Request) (c : Catalogue) (useful : List UsefulDecoration) (slot : Slot) :
    Except SearchError SlotEntry := do
  match (q.allowedPieces c slot).getLast? with
  | none => throw (.emptySlot slot)
  | some p =>
    let entries ← SearchError.ofFault (q.slotEntries c useful p.1)
    match entries.getLast? with
    | none => throw (.emptySlot slot)
    | some e => return e

theorem slotChoice_of_lastEntry {slot : Slot} {e : SlotEntry}
    (h : q.lastEntry c useful slot = .ok e) : q.SlotChoice c useful slot e := by
  unfold lastEntry at h
  split at h
  next => cases h
  next p hp =>
    obtain ⟨entries, hentries, h⟩ := SuccessfulRun.bind_eq_ok_iff.1 h
    split at h
    next => cases h
    next last hlast =>
      cases h
      exact ⟨p, List.mem_of_getLast? hp, entries, SearchError.ofFault_eq_ok_iff.1 hentries,
        List.mem_of_getLast? hlast⟩

/-- The choice of no charm and of the last allowed pieces. -/
def lastChoice {entries : List SlotEntry} (h : Slot.all.mapM (q.lastEntry c useful) = .ok entries) :
    Choice q c useful Slot.all :=
  ⟨⟨none, ∅⟩, entries, List.mem_cons_self,
    (SuccessfulRun.mapM_eq_ok_iff.1 h).imp fun _ _ => slotChoice_of_lastEntry⟩

/-- Folding the slot tables into the charm seeds keeps a set above every safe choice. -/
theorem exists_set_ge_of_safe (huseful : c.decorationsFor q.requirements = .ok useful)
    (htables : q.slotTables c useful = .ok tables) {x : Choice q c useful Slot.all}
    (hsafe : x.Safe) :
    ∃ s ∈ tables.foldl (ArmourSet.nextFront c q.requirements)
      ((q.charmSeeds c).map ArmourSet.ofSeed), x.signature ≤ s.signature := by
  have hcovered : ∃ s ∈ (q.charmSeeds c).map ArmourSet.ofSeed, x.seed.signature ≤ s.signature := by
    obtain ⟨seed, hseed, hle⟩ := exists_frontOf_ge x.eligible
    rw [charmSeeds_eq]
    exact ⟨.ofSeed seed, List.mem_map_of_mem hseed, hle⟩
  exact ArmourSet.exists_foldl_nextFront_ge huseful (slotTables_eq_ok htables)
    (fun s hs => exists_choice_of_mem_seeds hs) x.allowed (within_of_mem_seedChoices x.eligible)
    hcovered hsafe

theorem LaysOut.exists_set_ge_of_safe {R : Type} [Reckoning R] {g : Groundwork R}
    (hg : q.LaysOut c g) (hr : q.requirements.Coherent c.skills)
    {x : Choice q c g.useful Slot.all} (hsafe : x.Safe) :
    ∃ s ∈ g.sets, x.signature ≤ s.signature := by
  have hsets := hg.sets
  rw [assemble_eq hr (.inr rfl) hg.useful hg.tables] at hsets
  rw [← Except.ok.inj hsets]
  exact Request.exists_set_ge_of_safe hg.useful hg.tables hsafe

/-- For an accepted request whose slot tables exist, assembling comes to its end, all its sets stay
within the cutoffs, and every safe choice of one eligible charm or none and one allowed piece, with
any packing of its slots, for every slot lies below one of them. -/
theorem assemble_covers_safe (hq : resolve c draft = .ok q)
    (huseful : c.decorationsFor q.requirements = .ok useful)
    (htables : q.slotTables c useful = .ok tables)
    (hlayout : layout = none ∨ layout = Layout.ofRequirements? c.skills q.requirements) :
    ∃ sets, ArmourSet.assemble c q.requirements layout (q.charmSeeds c) tables = .ok sets ∧
      (∀ s ∈ sets, q.requirements.withinCutoffs s.signature.pieces = true) ∧
      ∀ x : Choice q c useful Slot.all, x.Safe → ∃ s ∈ sets, x.signature ≤ s.signature := by
  have hsome : tables ≠ [] := by
    rintro rfl
    cases slotTables_eq_ok htables
  exact ⟨_, assemble_eq (coherent_of_resolve hq) hlayout huseful htables,
    fun s hs => ArmourSet.withinCutoffs_of_mem_foldl hsome hs,
    fun x hsafe => exists_set_ge_of_safe huseful htables hsafe⟩

/-- Only the head offers the set bonus, so a cutoff of two leaves the choice without it safe. It
lies below a set with the first head piece. -/
theorem assemble_covers_safe_guild :
    ∃ c q, ∃ g : Groundwork Rat, ∃ x : Choice q c g.useful Slot.all,
      guildDraft.resolve = .ok c ∧ resolve c (guildRequest 2) = .ok q ∧ q.LaysOut c g ∧
      x.signature.pieces.count ⟨0⟩ = 0 ∧ g.sets.map (·.signature.pieces.count ⟨0⟩) = [1] ∧
      (∀ s ∈ g.sets, q.requirements.withinCutoffs s.signature.pieces = true) ∧
      x.Safe ∧ ∃ s ∈ g.sets, x.signature ≤ s.signature := by
  have hrun : (fromGroundwork guildDraft (guildRequest 2) fun c q (g : Groundwork Rat) =>
      (Slot.all.mapM (q.lastEntry c g.useful)).toOption.bind fun entries =>
        if ∀ e ∈ q.requirements.cutoffs.entries, Slot.all.countP (q.offersBonus c e.1) < e.2 then
          some ((((CharmSeed.mk none ∅).signature).mergeAll c.skills entries).pieces.count ⟨0⟩,
            g.sets.map (·.signature.pieces.count ⟨0⟩))
        else none) = some (0, [1]) := by
    decide +kernel
  obtain ⟨c, q, g, hc, hq, hlaid, hrun⟩ := exists_of_fromGroundwork hrun
  obtain ⟨entries, hentries, hrun⟩ := Option.bind_eq_some_iff.1 hrun
  obtain ⟨hfew, hrun⟩ := Option.ite_none_right_eq_some.1 hrun
  obtain ⟨hlast, hsets⟩ := Prod.mk.inj (Option.some.inj hrun)
  let x := lastChoice (SuccessfulRun.toOption_eq_some_iff.1 hentries)
  have hsafe : x.Safe := x.safe_of_few_offers hlaid.useful hfew
  obtain ⟨sets, hassembled, hwithin, hcovers⟩ :=
    assemble_covers_safe hq hlaid.useful hlaid.tables (.inr rfl)
  cases hlaid.sets.symm.trans hassembled
  exact ⟨c, q, g, x, hc, hq, hlaid, hlast, hsets, hwithin, hsafe, hcovers x hsafe⟩

/-- A cutoff of one leaves no set, because only the first head piece is in its table: a choice
within the cutoffs is lost. -/
theorem assemble_loses_admissible_choice :
    ¬ ∀ (d : CatalogueDraft) (c : Catalogue) (draft : RequestDraft) (q : Request)
        (useful : List UsefulDecoration) (tables : List (List SlotEntry)) (sets : List ArmourSet),
      d.resolve = .ok c → resolve c draft = .ok q → draft.requirements.cutoffs ≠ ∅ →
      c.decorationsFor q.requirements = .ok useful → q.slotTables c useful = .ok tables →
      ArmourSet.assemble c q.requirements (Layout.ofRequirements? c.skills q.requirements)
        (q.charmSeeds c) tables = .ok sets →
      ∀ x : Choice q c useful Slot.all,
        q.requirements.withinCutoffs x.signature.pieces = true →
        ∃ s ∈ sets, q.requirements.withinCutoffs s.signature.pieces = true ∧
          ∀ k, q.requirements.relevant k = true →
            x.signature.levels.count k ≤ s.signature.levels.count k := by
  intro hall
  have hrun : (fromGroundwork guildDraft (guildRequest 1) fun c q (g : Groundwork Rat) =>
      (Slot.all.mapM (q.lastEntry c g.useful)).toOption.bind fun entries =>
        if g.sets = [] then
          some (q.requirements.withinCutoffs (((CharmSeed.mk none ∅).signature).mergeAll
            c.skills entries).pieces) else none) = some true := by
    decide +kernel
  obtain ⟨c, q, g, hc, hq, hlaid, hrun⟩ := exists_of_fromGroundwork hrun
  obtain ⟨entries, hentries, hrun⟩ := Option.bind_eq_some_iff.1 hrun
  obtain ⟨hnone, hwithin⟩ := Option.ite_none_right_eq_some.1 hrun
  obtain ⟨s, hs, -⟩ := hall guildDraft c (guildRequest 1) q g.useful g.tables g.sets
    hc hq (by decide) hlaid.useful hlaid.tables hlaid.sets
    (lastChoice (SuccessfulRun.toOption_eq_some_iff.1 hentries)) (Option.some.inj hwithin)
  rw [hnone] at hs
  cases hs

end Request

end Loadout
