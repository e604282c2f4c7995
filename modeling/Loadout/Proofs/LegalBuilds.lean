import Loadout.Proofs.AcceptedSetups
import Loadout.Proofs.BuildAccounts
import Loadout.Proofs.FittingDecorations

/-!
# Reported builds are legal

Every condition on a build is checked at one stage of a search: ranks and removed skills where the
tables are laid out, the setup where weapons are prepared, cutoffs and minimum levels where a set is
paired with a weapon.  Merging and packing keep all of them, so they hold of the gear that is
reported.
-/

namespace Loadout

variable {R : Type} [Reckoning R]

/-- Whether a build can be made and meets a request, judged by its gear alone. -/
structure Request.Legal (q : Request) (c : Catalogue) (f : Find R) (stats : WeaponStats) :
    Prop where
  slots : f.outfit.worn.keys = Slot.all
  pieces : ∀ e ∈ f.outfit.worn.entries, (e.2, c.piece e.2) ∈ c.allPieces ∧
    (c.piece e.2).slot = e.1 ∧ q.allowsRank (c.piece e.2).rank = true
  weapon : f.weapon.weapon ∈ c.weapons.toList ∧ q.allowsWeapon f.weapon.weapon = true
  setup : f.weapon.setup.replay f.weapon.weapon = .ok f.weapon.setup
  own : f.weapon.stats = .ok stats
  healthRegen : q.healthRegenRequired = true → 0 < f.weapon.setup.augments.healthRegen
  fits : c.decorationsFit f.outfit stats f.decorations = true
  charm : ∀ h, f.outfit.charm = some h →
    (h, c.charm h) ∈ c.allCharms ∧ ∀ s ∈ (c.charm h).skills, q.requirements.removes s = false
  decorations : ∀ d ∈ f.decorations, (d, c.decoration d) ∈ c.allDecorations ∧
    ∀ l ∈ (c.decoration d).skills, q.requirements.removes l.1 = false
  weaponSkill : ∀ s, f.weapon.weapon.skill = some s → q.requirements.removes s = false
  minimum : ∀ e ∈ q.requirements.minimum.entries,
    e.2 ≤ (c.gearLevels stats f.outfit f.decorations).count e.1
  cutoffs : ∀ e ∈ q.requirements.cutoffs.entries, (c.gearPieces stats f.outfit).count e.1 < e.2

/-- Whether an outfit is an allowed piece for every slot, with no charm or one that grants no
removed skill. -/
structure Request.Wears (q : Request) (c : Catalogue) (o : Outfit) : Prop where
  slots : o.worn.keys = Slot.all
  pieces : ∀ e ∈ o.worn.entries, (e.2, c.piece e.2) ∈ q.allowedPieces c e.1
  charm : ∀ h ∈ o.charm,
    (h, c.charm h) ∈ c.allCharms ∧ ∀ s ∈ (c.charm h).skills, q.requirements.removes s = false

instance (q : Request) (c : Catalogue) (o : Outfit) : Decidable (q.Wears c o) :=
  decidable_of_iff (o.worn.keys = Slot.all ∧
    (∀ e ∈ o.worn.entries, (e.2, c.piece e.2) ∈ q.allowedPieces c e.1) ∧
    ∀ h ∈ o.charm, (h, c.charm h) ∈ c.allCharms ∧
      ∀ s ∈ (c.charm h).skills, q.requirements.removes s = false)
    ⟨fun ⟨slots, pieces, charm⟩ => ⟨slots, pieces, charm⟩, fun h => ⟨h.slots, h.pieces, h.charm⟩⟩

theorem Setup.healthRegen_of_stats {w : Weapon} {s : Setup} {stats : WeaponStats}
    (h : s.stats w = .ok stats) (hregen : stats.healthRegen = true) :
    0 < s.augments.healthRegen := by
  obtain ⟨raw, -, h⟩ := SuccessfulRun.bind_eq_ok_iff.1 h
  obtain ⟨affinity, -, h⟩ := SuccessfulRun.bind_eq_ok_iff.1 h
  cases h
  simpa using hregen

namespace Choice

variable {q : Request} {c : Catalogue} {useful : List UsefulDecoration}

theorem worn_allowed (hc : c.FitsHandles) (huseful : c.decorationsFor q.requirements = .ok useful)
    (x : Choice q c useful Slot.all) {e : Slot × PieceId} (h : e ∈ x.set.outfit.worn.entries) :
    (e.2, c.piece e.2) ∈ q.allowedPieces c e.1 := by
  have hpieces : List.Forall₂ (fun slot p => (p, c.piece p) ∈ q.allowedPieces c slot) Slot.all
      (x.entries.map (·.piece)) := by
    rw [List.forall₂_map_right_iff]
    apply x.allowed.imp
    intro slot e he
    exact he.piece hc huseful
  rw [x.worn_all hc huseful] at h
  exact (List.forall₂_iff_zip.1 hpieces).2 h

theorem charm_allowed (hc : c.FitsHandles) {slots : List Slot} (x : Choice q c useful slots)
    {h : CharmId} (hcharm : x.set.outfit.charm = some h) :
    (h, c.charm h) ∈ c.allCharms ∧ ∀ s ∈ (c.charm h).skills, q.requirements.removes s = false := by
  rw [x.charm_set] at hcharm
  rcases List.mem_cons.1 x.eligible with hnone | heligible
  · rw [hnone] at hcharm
    cases hcharm
  · obtain ⟨charm, hlisted, hkeeps, hseed, -⟩ := Request.exists_of_mem_eligibleCharms heligible
    have hsame : charm.1 = h := Option.some.inj (hseed.symm.trans hcharm)
    have hentry : c.charm h = charm.2 := hsame ▸ Catalogue.charm_of_mem hc hlisted
    rw [hentry, ← hsame]
    exact ⟨hlisted, hkeeps⟩

theorem wears (hc : c.FitsHandles) (huseful : c.decorationsFor q.requirements = .ok useful)
    (x : Choice q c useful Slot.all) : q.Wears c x.set.outfit :=
  ⟨x.worn_keys hc huseful, fun _ he => x.worn_allowed hc huseful he, fun _ => x.charm_allowed hc⟩

theorem exists_useful (huseful : c.decorationsFor q.requirements = .ok useful) {slots : List Slot}
    (x : Choice q c useful slots) {d : DecorationId} (hd : d ∈ x.set.decorations) :
    ∃ u ∈ useful, u.id = d := by
  rw [x.decorations_set] at hd
  obtain ⟨e, he, hd⟩ := List.mem_flatMap.1 hd
  obtain ⟨slot, -, hslot⟩ := SuccessfulRun.exists_item x.allowed he
  obtain ⟨p, -, -, chosen, hmade⟩ := hslot.exists_madeOf huseful
  rw [hmade.decorations] at hd
  obtain ⟨u, hu, hid⟩ := List.mem_map.1 hd
  exact ⟨u, hmade.useful u hu, hid⟩

end Choice

namespace Request

variable {q : Request} {c : Catalogue} {f : Find R} {useful : List UsefulDecoration}

section BuildOf

variable {x : Choice q c useful Slot.all} {w : Candidate R} {stats : WeaponStats} {p : Packing}
variable {chosen : List UsefulDecoration}

theorem BuildOf.exists_useful (h : q.BuildOf c f useful x w stats p chosen) {d : DecorationId}
    (hd : d ∈ f.decorations) : ∃ u ∈ useful, u.id = d := by
  rw [h.found.decorations, List.mem_append, h.filled.decorations, List.mem_map] at hd
  rcases hd with harmour | ⟨u, hu, hid⟩
  · exact x.exists_useful h.listed harmour
  · exact ⟨u, h.fromListed u hu, hid⟩

theorem BuildOf.minimum_met (hc : c.FitsHandles) (hr : q.requirements.Coherent c.skills)
    (h : q.BuildOf c f useful x w stats p chosen) {e : SkillId × Nat}
    (he : e ∈ q.requirements.minimum.entries) :
    e.2 ≤ (c.gearLevels stats f.outfit f.decorations).count e.1 := by
  have hmet := h.found.met
  rw [h.levels_eq hc hr, Requirements.metBy_restrictLevels] at hmet
  exact of_decide_eq_true (List.all_eq_true.1 hmet e he)

theorem BuildOf.cutoff_kept (hc : c.FitsHandles) (hr : q.requirements.Coherent c.skills)
    (h : q.BuildOf c f useful x w stats p chosen) {e : BonusId × Nat}
    (he : e ∈ q.requirements.cutoffs.entries) :
    (c.gearPieces stats f.outfit).count e.1 < e.2 := by
  have hcutoff : q.requirements.cutoffs.contains e.1 = true :=
    OrderedMap.mem_keys_iff.1 (List.mem_map_of_mem he)
  have hrelevant := hr.bonusRelevant_of_cutoff hcutoff
  have hbelow : f.pieces.count e.1 < e.2 := by
    rw [h.found.pieces]
    simpa using List.all_eq_true.1 h.withinCutoffs e he
  rw [h.pieces_eq hc, Requirements.restrictPieces, Tally.count_keep, hrelevant, if_pos rfl]
    at hbelow
  exact hbelow

theorem BuildOf.legal (hc : c.FitsHandles) (hr : q.requirements.Coherent c.skills)
    (h : q.BuildOf c f useful x w stats p chosen) : q.Legal c f stats := by
  have hweapon : f.weapon.weapon ∈ q.allowedWeapons c := by
    rw [h.found.weapon]
    exact h.candidate.weapon
  obtain ⟨hlisted, hallowed⟩ := List.mem_filter.1 hweapon
  obtain ⟨hallows, hskill⟩ := Bool.and_eq_true_iff.1 hallowed
  have houtfit : q.Wears c f.outfit := h.found.outfit ▸ x.wears hc h.listed
  constructor
  · exact houtfit.slots
  · intro e he
    exact mem_allowedPieces_iff.1 (houtfit.pieces e he)
  · exact ⟨hlisted, hallows⟩
  · rw [h.found.weapon]
    exact (Setup.kept_of_mem_full h.candidate.setup).replay_eq_ok
  · exact h.own
  · intro hrequired
    exact Setup.healthRegen_of_stats h.own (h.candidate.healthRegen hrequired)
  · exact h.decorationsFit hc
  · exact houtfit.charm
  · intro d hd
    obtain ⟨u, hu, rfl⟩ := h.exists_useful hd
    obtain ⟨hentry, hkeeps, -⟩ := decoration_of_mem_useful hc h.listed hu
    exact ⟨hentry, hkeeps⟩
  · intro s hs
    rw [hs] at hskill
    simpa using hskill
  · intro e he
    exact h.minimum_met hc hr he
  · intro e he
    exact h.cutoff_kept hc hr he

end BuildOf

variable {d : RequestDraft} {o : SearchOptions}

theorem reported_legal (hc : c.FitsHandles) (hq : resolve c d = .ok q) (h : q.Reports c o f) :
    ∃ stats, q.Legal c f stats := by
  have hr := coherent_of_resolve hq
  obtain ⟨useful, x, w, stats, p, chosen, hbuild⟩ := exists_buildOf_of_reports hr h
  exact ⟨stats, hbuild.legal hc hr⟩

theorem reported_legal_archer : ∃ c q stats, ∃ f : Find Rat, archerDraft.resolve = .ok c ∧
    c.FitsHandles ∧ resolve c archerRequest = .ok q ∧ q.Reports c {} f ∧ q.Legal c f stats := by
  obtain ⟨c, q, f, hd, hc, hq, hf⟩ := exists_archer_report
  obtain ⟨stats, hlegal⟩ := reported_legal hc hq hf
  exact ⟨c, q, stats, f, hd, hc, hq, hf, hlegal⟩

end Request

end Loadout
