import Loadout.Proofs.BestHeld
import Loadout.Proofs.LaidGroundwork
import Loadout.Proofs.PrunedWeapons
import Loadout.Proofs.SharpnessOrder

/-!
# The two ways to search agree

A search in batches starts from a floor, so that a build must have some attack, and a search in
order takes whatever it finds first.  They report the same effective raw attack unless the best
build has none; that needs buffs that multiply raw attack by less than a half, since a loaded weapon
has raw attack and nothing else takes all of it away.
-/

namespace Loadout

namespace Setting

variable {R : Type} [Reckoning R] [LinearOrder R] [LinearReckoning R]
variable {x : Setting R} {sets : List ArmourSet} {candidates : List (Candidate R)}

theorem mem_of_searchInOrder {held : Held R} {f : Find R}
    (hsorted : candidates.Pairwise fun a b => b.ceiling ≤ a.ceiling)
    (hbound : ∀ set ∈ sets, ∀ w ∈ candidates, ∀ f ∈ x.builds set w, f.effective.raw ≤ w.ceiling)
    (h : x.searchInOrder candidates sets = .ok held) (hf : held.best = some f) :
    f ∈ x.allBuilds sets candidates := by
  have hbest := best_of_searchInOrder hsorted hbound h
  obtain ⟨before, after, hall, -⟩ := Find.isFirstBest_of_improve_none (hbest.symm.trans hf)
  simp [hall]

/-- What a crew holds in the end is as good as what a search in order holds, above the floor. -/
theorem raw_of_over_eq_filter {batches : Nat} {held : Held R} {crew : Crew R}
    (hsorted : candidates.Pairwise fun a b => b.ceiling ≤ a.ceiling)
    (hbound : ∀ set ∈ sets, ∀ w ∈ candidates, ∀ f ∈ x.builds set w, f.effective.raw ≤ w.ceiling)
    (hrun : x.searchInOrder candidates sets = .ok held)
    (hleads : Crew.Leads x (.start batches candidates sets) crew) (hover : crew.Over) :
    crew.held.best.map (·.effective.raw) =
      (held.best.map (·.effective.raw)).filter (sharedFloor < ·) := by
  obtain ⟨hsome, hnone⟩ := Crew.best_of_over_start hbound hleads hover
  cases hheld : held.best with
  | none =>
      have hbest := best_of_searchInOrder hsorted hbound hrun
      have hnil := Find.improve_none_eq_none_iff.1 (hbest.symm.trans hheld)
      rw [hnone.2 (by simp [hnil])]
      rfl
  | some f =>
      have hmem := mem_of_searchInOrder hsorted hbound hrun hheld
      have hmost : ∀ g ∈ x.allBuilds sets candidates, g.effective.raw ≤ f.effective.raw :=
        fun g hg => raw_le_of_mayEnd hsorted hbound (o := {}) (.inOrder rfl hrun) hheld hg
      cases hcrew : crew.held.best with
      | none =>
          have hfloor := hnone.1 hcrew f hmem
          rw [Option.map_some, Option.map_none, Option.filter_some, if_neg]
          simpa using hfloor
      | some f' =>
          obtain ⟨hfloor, hmem', hmost'⟩ := hsome f' hcrew
          have hsame : f.effective.raw = f'.effective.raw :=
            le_antisymm (hmost' f hmem) (hmost f' hmem')
          rw [Option.map_some, Option.map_some, Option.filter_some, if_pos, hsame]
          simpa [hsame] using hfloor

end Setting

namespace Effective

theorem rawSharpness_pos (g : Gauge) : (0 : Rat) < rawSharpness g := by
  have hpercent : ∀ tier < tierCount, 0 < Gauge.rawHundredths.getD tier 0 := by decide
  have htop : (0 : Rat) < (Gauge.rawHundredths.getD g.top 0 : Nat) := by
    exact_mod_cast hpercent g.top g.top_lt
  rw [rawSharpness, Reckoning.percent_rat, Int.cast_natCast]
  positivity

theorem sharpnessFactor_pos (gauge : Option Gauge) : 0 < sharpnessFactor gauge := by
  cases gauge with
  | none => exact zero_lt_one
  | some g => exact rawSharpness_pos g

/-- Half a point of raw attack is rounded up. -/
theorem wordOfRat_pos {x : Rat} (h : 1 / 2 ≤ x) : 0 < wordOfRat x := by
  have hfloor : 1 ≤ (x + 1 / 2).floor := Rat.le_floor_iff.2 (by push_cast; linarith)
  unfold wordOfRat
  omega

theorem raw_pos_of_ofInputs {a : AttackInputs Rat} {e : Effective Rat} (h : ofInputs a = .ok e)
    (hraw : 0 < a.raw) (hfactor : 1 / 2 ≤ a.baseFactor) (hcritical : 1 ≤ a.criticalFactor)
    (hfrostcraft : 0 < a.frostcraftFactor) : 0 < e.raw := by
  have hbase : (1 : Rat) ≤ (a.raw + a.bludgeonerRaw : Nat) := by exact_mod_cast (by omega)
  have hproduct : 1 / 2 ≤ ((a.raw + a.bludgeonerRaw : Nat) : Rat) * a.baseFactor := by
    nlinarith
  have huncut : 0 < uncut a := Nat.add_pos_left (wordOfRat_pos hproduct) _
  have hcut : 0 < min (uncut a) (a.raw * capMultiple) :=
    lt_min huncut (Nat.mul_pos hraw (by decide))
  have haffinity : 0 < affinityFactor (a.affinity + a.addedAffinity) a.criticalFactor :=
    affinityFactor_pos hcritical
  have hsharpness := sharpnessFactor_pos a.gauge
  rw [raw_of_ofInputs h]
  positivity

variable {t : SkillTable} {r : Requirements} {boost : Boost Rat} {weaponClass : WeaponClass}
variable {stats : WeaponStats}

/-- Skills and weapons leave some attack; only buffs can take all of it away. -/
theorem raw_pos {levels : SkillLevels} {e : Effective Rat}
    (h : ofLevels t r boost weaponClass stats levels = .ok e) (hraw : 0 < stats.raw)
    (hfactor : 1 / 2 ≤ boost.factor) : 0 < e.raw := by
  have hguard := Modifiers.one_le_baseFactorOf stats (.ofFunction (Modifiers.level t r levels))
  have hbase : 1 / 2 ≤ Modifiers.baseFactorOf stats (.ofFunction (Modifiers.level t r levels)) *
      boost.factor := by nlinarith
  exact raw_pos_of_ofInputs (ofLevels_eq_ok h) hraw hbase (Modifiers.one_le_criticalFactorOf _)
    (zero_lt_one.trans_le (Modifiers.one_le_frostcraftOf weaponClass _))

end Effective

theorem WeaponDraft.trueRaw_pos_of_resolve {t : SkillTable} {d : WeaponDraft} {w : Weapon}
    (h : d.resolve t = .ok w) : 0 < w.trueRaw := by
  obtain ⟨_, hraw, h⟩ := SuccessfulRun.bind_eq_ok_iff.1 h
  obtain ⟨_, -, h⟩ := SuccessfulRun.bind_eq_ok_iff.1 h
  obtain ⟨_, -, h⟩ := SuccessfulRun.bind_eq_ok_iff.1 h
  obtain ⟨_, -, h⟩ := SuccessfulRun.bind_eq_ok_iff.1 h
  obtain ⟨_, -, h⟩ := SuccessfulRun.bind_eq_ok_iff.1 h
  obtain ⟨_, -, h⟩ := SuccessfulRun.bind_eq_ok_iff.1 h
  cases h
  exact of_decide_eq_true (demand_eq_ok_iff.1 hraw)

theorem CatalogueDraft.trueRaw_pos_of_resolve {d : CatalogueDraft} {c : Catalogue}
    (h : d.resolve = .ok c) {w : Weapon} (hw : w ∈ c.weapons.toList) : 0 < w.trueRaw := by
  obtain ⟨draft, -, hresolve⟩ :=
    SuccessfulRun.exists_item (SuccessfulRun.mapM_eq_ok_iff.1 (resolves_of_resolve h).weapons) hw
  exact WeaponDraft.trueRaw_pos_of_resolve hresolve

namespace Request

variable {q : Request} {c : Catalogue}

theorem CandidateOf.raw_pos {R : Type} {d : CatalogueDraft} (hd : d.resolve = .ok c)
    {w : Candidate R} {stats : WeaponStats} (h : q.CandidateOf c w stats) : 0 < w.stats.raw := by
  have htrue : 0 < w.weapon.weapon.trueRaw :=
    CatalogueDraft.trueRaw_pos_of_resolve hd (List.mem_filter.1 h.weapon).1
  obtain ⟨raw, hraw, hrest⟩ := SuccessfulRun.bind_eq_ok_iff.1 h.own
  obtain ⟨affinity, -, hrest⟩ := SuccessfulRun.bind_eq_ok_iff.1 hrest
  cases hrest
  obtain ⟨rfl, -⟩ := Fault.word_eq_ok_iff.1 hraw
  rw [h.counted]
  exact Nat.add_pos_left (Nat.add_pos_left htrue _) _

/-- A build has some attack unless buffs take more than half of it away. -/
theorem raw_pos_of_mem_allBuilds {d : CatalogueDraft} (hd : d.resolve = .ok c)
    (hfactor : (1 / 2 : Rat) ≤ q.consumables.boost.factor) {g : Groundwork Rat}
    (hg : q.LaysOut c g) {sets : List ArmourSet} {f : Find Rat}
    (hf : f ∈ (Setting.ofRequest c q g.useful).allBuilds sets g.candidates) :
    0 < f.effective.raw := by
  obtain ⟨set, -, hf⟩ := List.mem_flatMap.1 hf
  obtain ⟨w, hw, hf⟩ := List.mem_flatMap.1 hf
  obtain ⟨stats, hcandidate⟩ := exists_candidateOf_of_mem_candidates hg.candidates hw
  unfold Setting.builds at hf
  split at hf
  next finds hfinds =>
    obtain ⟨-, packings, -, p, -, hfind⟩ := exists_packing_of_finds hfinds hf
    exact Effective.raw_pos (Setting.effective_of_find? hfind) (hcandidate.raw_pos hd) hfactor
  next => cases hf

open Setting Crew in
/-- Once the groundwork is laid, a search in order ends, and so does a search in batches whatever
its workers do; the latter reports the effective raw attack of the former if that is positive, and
nothing otherwise.  It is positive unless buffs take more than half of all raw attack away. -/
theorem searches_agree {d : CatalogueDraft} (hd : d.resolve = .ok c) {g : Groundwork Rat}
    (hg : q.LaysOut c g) (batches : Nat) :
    ∃ held, (ofRequest c q g.useful).searchInOrder g.candidates g.sets = .ok held ∧
      (∀ run : Nat → Crew Rat, ∃ n, ¬ Step (ofRequest c q g.useful) (run n) (run (n + 1))) ∧
      ∀ crew, Leads (ofRequest c q g.useful) (start batches g.candidates g.sets) crew →
        (crew.Over ∨ ∃ next, Step (ofRequest c q g.useful) crew next) ∧
        (crew.Over →
          crew.held.best.map (·.effective.raw) =
            (held.best.map (·.effective.raw)).filter (0 < ·) ∧
          ((1 / 2 : Rat) ≤ q.consumables.boost.factor →
            crew.held.best.map (·.effective.raw) = held.best.map (·.effective.raw))) := by
  have ht := CatalogueDraft.limitsInOrder_of_resolve hd
  have hsorted := pairwise_candidates hg.candidates
  have hbound := hg.raw_le_ceiling ht
  have hfinds : ∀ set ∈ g.sets, ∀ w ∈ g.candidates, ∃ finds,
      (ofRequest c q g.useful).finds set w = .ok finds :=
    fun set _ w hw => exists_finds_eq_ok ht hg hw set
  obtain ⟨last, hlast⟩ := hunt_succeeds (h := ⟨g.candidates, .nothing⟩) hfinds
  have hrun : (ofRequest c q g.useful).searchInOrder g.candidates g.sets = .ok last.held :=
    SuccessfulRun.bind_eq_ok_iff.2 ⟨last, hlast, rfl⟩
  refine ⟨last.held, hrun, exists_not_step _, fun crew hleads => ⟨?_, fun hover => ?_⟩⟩
  · exact over_or_exists_step ((accounted_start batches hbound).leads hbound hleads) hfinds
  · have hagree := raw_of_over_eq_filter hsorted hbound hrun hleads hover
    refine ⟨hagree, fun hfactor => ?_⟩
    rw [hagree]
    cases hheld : last.held.best with
    | none => rfl
    | some f =>
        have hmem := mem_of_searchInOrder hsorted hbound hrun hheld
        exact Option.filter_some_pos
          (decide_eq_true (raw_pos_of_mem_allBuilds hd hfactor hg hmem))

/-- What a crew of three batches and a search in order hold in the end. -/
def bothHold (c : Catalogue) (q : Request) (g : Groundwork Rat) :
    Option (Held Rat × Held Rat) :=
  (sweep (.ofRequest c q g.useful) ⟨true, 3⟩ g.candidates g.sets).toOption.bind fun shared =>
    ((Setting.ofRequest c q g.useful).searchInOrder g.candidates g.sets).toOption.map fun held =>
      (shared, held)

theorem exists_over_of_bothHold {d : CatalogueDraft} (hd : d.resolve = .ok c)
    {g : Groundwork Rat} (hg : q.LaysOut c g) {shared held : Held Rat}
    (h : bothHold c q g = some (shared, held)) :
    (Setting.ofRequest c q g.useful).searchInOrder g.candidates g.sets = .ok held ∧
      ∃ crew, Crew.Leads (Setting.ofRequest c q g.useful) (.start 3 g.candidates g.sets) crew ∧
        crew.Over ∧ crew.held = shared := by
  unfold bothHold at h
  obtain ⟨shared', hshared, h⟩ := Option.bind_eq_some_iff.1 h
  obtain ⟨held', hheld, heq⟩ := Option.map_eq_some_iff.1 h
  obtain ⟨rfl, rfl⟩ := Prod.mk.inj heq
  have hbound := hg.raw_le_ceiling (CatalogueDraft.limitsInOrder_of_resolve hd)
  have hend := Setting.mayEnd_of_sweep (SuccessfulRun.toOption_eq_some_iff.1 hshared)
  have hcrew := Crew.exists_over_of_mayEnd hbound rfl hend
  exact ⟨SuccessfulRun.toOption_eq_some_iff.1 hheld, hcrew⟩

theorem searches_agree_archer : ∃ c q g crew f f', archerDraft.resolve = .ok c ∧
    resolve c archerRequest = .ok q ∧ q.LaysOut c g ∧
    Crew.Leads (Setting.ofRequest c q g.useful) (.start 3 g.candidates g.sets) crew ∧ crew.Over ∧
    ((Setting.ofRequest c q g.useful).searchInOrder g.candidates g.sets).toOption.bind
      (·.best) = some f ∧ crew.held.best = some f' ∧
    f'.effective.raw = (f.effective.raw : Rat) := by
  have hrun : ((fromGroundwork archerDraft archerRequest fun c q g =>
      if (1 / 2 : Rat) ≤ q.consumables.boost.factor then bothHold c q g else none).bind
        fun both => both.2.best).isSome = true := by decide +kernel
  obtain ⟨f, hrun⟩ := Option.isSome_iff_exists.1 hrun
  obtain ⟨⟨shared, held⟩, hrun, hf⟩ := Option.bind_eq_some_iff.1 hrun
  obtain ⟨c, q, g, hc, hq, hlaid, hrun⟩ := exists_of_fromGroundwork hrun
  obtain ⟨hfactor, hrun⟩ := Option.ite_none_right_eq_some.1 hrun
  obtain ⟨hheld, crew, hleads, hover, -⟩ := exists_over_of_bothHold hc hlaid hrun
  obtain ⟨held', hheld', -, hends⟩ := searches_agree hc hlaid 3
  cases hheld.symm.trans hheld'
  have hsame := ((hends crew hleads).2 hover).2 hfactor
  rw [hf] at hsame
  obtain ⟨f', hf', hraw⟩ := Option.map_eq_some_iff.1 hsame
  exact ⟨c, q, g, crew, f, f', hc, hq, hlaid, hleads, hover, by rw [hheld]; exact hf, hf', hraw⟩

/-- Two bows, and a buff that takes all attack away. -/
def calmDraft : CatalogueDraft :=
  { twoBowsDraft 90 [] with buffs := [⟨"CALM", "Calm", 0, .ofNat 0, none⟩] }

def calmRequest : RequestDraft := { twoBowsRequest with buffs := ["CALM"] }

/-- All builds have no attack, so the search in order holds one and a crew holds none. -/
theorem searches_differ_calm :
    ¬ ∀ (d : CatalogueDraft) (c : Catalogue) (draft : RequestDraft) (q : Request)
        (g : Groundwork Rat) (batches : Nat) (held : Held Rat) (crew : Crew Rat),
      d.resolve = .ok c → resolve c draft = .ok q → q.LaysOut c g →
      (Setting.ofRequest c q g.useful).searchInOrder g.candidates g.sets = .ok held →
      Crew.Leads (Setting.ofRequest c q g.useful) (.start batches g.candidates g.sets) crew →
      crew.Over → (crew.held.best.isSome ↔ held.best.isSome) := by
  intro hall
  have hrun : ((fromGroundwork calmDraft calmRequest bothHold).map fun both =>
      (both.1.best.isSome, both.2.best.isSome)) = some (false, true) := by decide +kernel
  obtain ⟨⟨shared, held⟩, hrun, hsome⟩ := Option.map_eq_some_iff.1 hrun
  obtain ⟨hshared, hheld⟩ := Prod.mk.inj hsome
  obtain ⟨c, q, g, hc, hq, hlaid, hrun⟩ := exists_of_fromGroundwork hrun
  obtain ⟨hsearch, crew, hleads, hover, rfl⟩ := exists_over_of_bothHold hc hlaid hrun
  have hsame := hall calmDraft c calmRequest q g 3 held crew hc hq hlaid hsearch hleads hover
  simp [hshared, hheld] at hsame

end Request

end Loadout
