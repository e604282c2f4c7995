import Loadout.Proofs.CeilingBound
import Loadout.Proofs.ReportedBuilds
import Loadout.Proofs.SearchInOrder

/-!
# What a laid groundwork grants

When a search begins to visit its pairings, its candidates stand by descending ceiling and no build
exceeds the ceiling of its candidate.  Everything that could stop a pairing has been tried before:
whether decorations can be packed does not depend on slots and levels, and the slot tables have
packed them once; and the ceiling of a candidate has been reckoned from levels that are nowhere
below those of its builds, so no number of a build leaves its word.
-/

namespace Loadout

/-- The slot tables have packed every decoration. -/
theorem Request.givesLevels_of_slotTables {q : Request} {c : Catalogue}
    {useful : List UsefulDecoration} {tables : List (List SlotEntry)}
    (h : q.slotTables c useful = .ok tables) : ∀ u ∈ useful, u.GivesLevels := by
  obtain ⟨table, -, htable⟩ := SuccessfulRun.exists_result (slotTables_eq_ok h)
    (show Slot.head ∈ Slot.all by decide)
  unfold slotTable at htable
  dsimp only at htable
  split at htable
  next => cases htable
  next hpieces =>
    obtain ⟨lists, hlists, -⟩ := SuccessfulRun.bind_eq_ok_iff.1 htable
    have hruns := SuccessfulRun.mapM_eq_ok_iff.1 (SearchError.ofFault_eq_ok_iff.1 hlists)
    obtain ⟨p, hp⟩ := List.exists_mem_of_ne_nil _ (by simpa using hpieces)
    obtain ⟨entries, -, hentries⟩ := SuccessfulRun.exists_result hruns hp
    obtain ⟨packings, hpackings, -⟩ := SuccessfulRun.bind_eq_ok_iff.1 hentries
    exact Packing.exists_all_iff.1 ⟨packings, hpackings⟩

namespace Modifiers

variable {t : SkillTable} {r : Requirements} {weaponClass : WeaponClass} {stats : WeaponStats}

theorem exists_bludgeonerOf_eq_ok {gauge : Option Gauge} {m n k : Nat} (hmn : m ≤ n)
    (h : bludgeonerOf stats n gauge = .ok k) : ∃ j, bludgeonerOf stats m gauge = .ok j := by
  obtain ⟨hproduct, -⟩ := bludgeonerOf_eq_ok_iff.1 h
  exact ⟨_, bludgeonerOf_eq_ok_iff.2 ⟨fun hm => hproduct (hm.trans_le hmn), rfl⟩⟩

theorem exists_resolve_eq_ok {low high : SkillLevels} {m : Modifiers Rat}
    (hbludgeoner : level t r low .bludgeoner ≤ level t r high .bludgeoner)
    (hhandicraft : level t r low .handicraft = level t r high .handicraft)
    (h : resolve t r weaponClass stats high = .ok m) :
    ∃ m' : Modifiers Rat, resolve t r weaponClass stats low = .ok m' := by
  obtain ⟨k, hk, -⟩ := SuccessfulRun.bind_eq_ok_iff.1 h
  obtain ⟨j, hj⟩ : ∃ j, bludgeonerOf stats (level t r low .bludgeoner)
      (gaugeOf stats (level t r low .handicraft)) = .ok j := by
    rw [hhandicraft]
    exact exists_bludgeonerOf_eq_ok hbludgeoner hk
  exact ⟨_, SuccessfulRun.bind_eq_ok_iff.2 ⟨j, hj, rfl⟩⟩

end Modifiers

namespace Effective

/-- What does not leave its word for stronger inputs does not leave it for weaker ones. -/
theorem NoStronger.exists_ofInputs_eq_ok {a b : AttackInputs Rat} (h : NoStronger a b)
    (haffinity : Fault.signedMin ≤ a.affinity + a.addedAffinity)
    (hbase : a.raw + a.bludgeonerRaw ≤ b.raw + b.bludgeonerRaw) (helement : a.element = b.element)
    (hpercent : a.freeElementPercent ≤ b.freeElementPercent) {f : Effective Rat}
    (hf : ofInputs b = .ok f) : ∃ e, ofInputs a = .ok e := by
  obtain ⟨affinity, hsigned, hf⟩ := SuccessfulRun.bind_eq_ok_iff.1 hf
  obtain ⟨cap, hcap, hf⟩ := SuccessfulRun.bind_eq_ok_iff.1 hf
  obtain ⟨raw, hraw, hf⟩ := SuccessfulRun.bind_eq_ok_iff.1 hf
  obtain ⟨element, hawake, -⟩ := SuccessfulRun.bind_eq_ok_iff.1 hf
  obtain ⟨base, hsum, hraw⟩ := SuccessfulRun.bind_eq_ok_iff.1 hraw
  obtain ⟨-, -, hsigned⟩ := Fault.signed_eq_ok_iff.1 hsigned
  obtain ⟨-, hcap⟩ := Fault.word_eq_ok_iff.1 hcap
  obtain ⟨rfl, hword⟩ := Fault.word_eq_ok_iff.1 hsum
  obtain ⟨-, hraw⟩ := Fault.word_eq_ok_iff.1 hraw
  have hsigned' := Fault.signed_eq_ok_iff.2 ⟨rfl, haffinity, h.affinity.trans hsigned⟩
  have hcap' := Fault.word_eq_ok_iff.2 ⟨rfl, (Nat.mul_le_mul_right _ h.raw).trans hcap⟩
  have hword' := Fault.word_eq_ok_iff.2 ⟨rfl, hbase.trans hword⟩
  have hraw' := Fault.word_eq_ok_iff.2 ⟨rfl, le_trans h.uncut hraw⟩
  obtain ⟨element', hawake'⟩ : ∃ n, awakeElement a.element a.freeElementPercent = .ok n := by
    unfold awakeElement at hawake ⊢
    rw [helement]
    split
    next hvisibility =>
      rw [hvisibility] at hawake
      obtain ⟨product, hproduct, -⟩ := SuccessfulRun.bind_eq_ok_iff.1 hawake
      obtain ⟨-, hproduct⟩ := Fault.word_eq_ok_iff.1 hproduct
      have hproduct' := Fault.word_eq_ok_iff.2
        ⟨rfl, (Nat.mul_le_mul_left b.element.value hpercent).trans hproduct⟩
      exact ⟨_, SuccessfulRun.bind_eq_ok_iff.2 ⟨_, hproduct', rfl⟩⟩
    next => exact ⟨_, rfl⟩
  exact ⟨_, SuccessfulRun.bind_eq_ok_iff.2 ⟨_, hsigned', SuccessfulRun.bind_eq_ok_iff.2
    ⟨_, hcap', SuccessfulRun.bind_eq_ok_iff.2 ⟨_, SuccessfulRun.bind_eq_ok_iff.2
      ⟨_, hword', hraw'⟩, SuccessfulRun.bind_eq_ok_iff.2 ⟨_, hawake', rfl⟩⟩⟩⟩⟩

variable {t : SkillTable} {r : Requirements} {boost : Boost Rat} {weaponClass : WeaponClass}
variable {stats : WeaponStats}

theorem exists_ofLevels_eq_ok {low high : SkillLevels}
    (haffinity : Fault.signedMin ≤ stats.affinity)
    (hlevel : ∀ x, Modifiers.level t r low x ≤ Modifiers.level t r high x)
    (hhandicraft : Modifiers.level t r low .handicraft = Modifiers.level t r high .handicraft)
    {f : Effective Rat} (hf : ofLevels t r boost weaponClass stats high = .ok f) :
    ∃ e, ofLevels t r boost weaponClass stats low = .ok e := by
  have hinputs := ofLevels_eq_ok hf
  obtain ⟨m, hm, hf⟩ := SuccessfulRun.bind_eq_ok_iff.1 hf
  obtain ⟨added, hadded, -⟩ := SuccessfulRun.bind_eq_ok_iff.1 hf
  obtain ⟨-, hadded⟩ := Fault.word_eq_ok_iff.1 hadded
  have hnomore : BringsNoMore t r stats stats low high := .of_level_le hlevel hhandicraft
  obtain ⟨m', hm'⟩ := Modifiers.exists_resolve_eq_ok (hlevel .bludgeoner) hhandicraft hm
  cases Modifiers.resolve_eq_ok hm
  cases Modifiers.resolve_eq_ok hm'
  have hraw : Modifiers.rawOf (.ofFunction (Modifiers.level t r low)) + boost.addedRaw ≤
      Modifiers.rawOf (.ofFunction (Modifiers.level t r high)) + boost.addedRaw :=
    Nat.add_le_add_right (Modifiers.rawOf_mono hnomore.get_le) _
  have hadded' := Fault.word_eq_ok_iff.2 ⟨rfl, hraw.trans hadded⟩
  have hsum : Fault.signedMin ≤ stats.affinity +
      (Modifiers.affinityOf t r (.ofFunction (Modifiers.level t r low)) : Int) := by omega
  have hpercent : Modifiers.entry Modifiers.freeElementPercents
        (Modifiers.level t r low .freeElement) ≤
      Modifiers.entry Modifiers.freeElementPercents (Modifiers.level t r high .freeElement) :=
    Modifiers.entry_mono (by decide) (hlevel .freeElement)
  obtain ⟨e, he⟩ := hnomore.noStronger.exists_ofInputs_eq_ok hsum
    (Nat.add_le_add_left hnomore.bludgeoner _) rfl hpercent hinputs
  exact ⟨e, SuccessfulRun.bind_eq_ok_iff.2 ⟨_, hm', SuccessfulRun.bind_eq_ok_iff.2
    ⟨_, hadded', he⟩⟩⟩

end Effective

theorem Requirements.count_restrictLevels_of_not_relevant {r : Requirements} {s : SkillId}
    (h : r.relevant s = false) (levels : SkillLevels) : (r.restrictLevels levels).count s = 0 := by
  rw [count_restrictLevels, h]
  rfl

theorem Setup.signedMin_le_affinity {w : Weapon} {s : Setup} {stats : WeaponStats}
    (h : s.stats w = .ok stats) : Fault.signedMin ≤ stats.affinity := by
  obtain ⟨raw, -, h⟩ := SuccessfulRun.bind_eq_ok_iff.1 h
  obtain ⟨affinity, haffinity, h⟩ := SuccessfulRun.bind_eq_ok_iff.1 h
  obtain ⟨rfl, hmin, -⟩ := Fault.signed_eq_ok_iff.1 haffinity
  cases h
  exact hmin

/-- The affinity of a candidate was checked when its setup was made. -/
theorem Request.CandidateOf.signedMin_le {R : Type} {q : Request} {c : Catalogue} {w : Candidate R}
    {stats : WeaponStats} (h : q.CandidateOf c w stats) :
    Fault.signedMin ≤ w.stats.affinity := by
  have hmin := Setup.signedMin_le_affinity h.own
  rw [h.counted]
  exact hmin

namespace Setting

variable {q : Request} {c : Catalogue} {useful : List UsefulDecoration}

theorem exists_find?_eq_ok (ht : c.skills.LimitsInOrder)
    {candidates : List (Candidate Rat)} (hcandidates : q.candidates c = .ok candidates)
    {w : Candidate Rat} (hw : w ∈ candidates) (set : ArmourSet) (p : Packing) :
    ∃ found, (ofRequest c q useful).find? set w p = .ok found := by
  obtain ⟨stats, hcandidate⟩ := Request.exists_candidateOf_of_mem_candidates hcandidates hw
  obtain ⟨tried, e, he, -, hlevel, hhandicraft⟩ := Candidate.exists_tried_levels ht
    (Request.ceilingOf_of_mem_candidates hcandidates hw) fun s hs =>
      Requirements.count_restrictLevels_of_not_relevant hs
        (SkillLevels.grant c.skills p.levels (pairedPieces set w))
  obtain ⟨e', he'⟩ :=
    Effective.exists_ofLevels_eq_ok hcandidate.signedMin_le hlevel hhandicraft he
  unfold find?
  dsimp only
  split
  next => exact ⟨_, SuccessfulRun.bind_eq_ok_iff.2 ⟨e', he', rfl⟩⟩
  next => exact ⟨none, rfl⟩

/-- Once a search has laid its groundwork, no pairing with a candidate has a fault. -/
theorem exists_finds_eq_ok (ht : c.skills.LimitsInOrder) {g : Groundwork Rat} (hg : q.LaysOut c g)
    {w : Candidate Rat} (hw : w ∈ g.candidates) (set : ArmourSet) :
    ∃ finds, (ofRequest c q g.useful).finds set w = .ok finds := by
  unfold finds
  split
  next =>
    have hgives := Request.givesLevels_of_slotTables hg.tables
    obtain ⟨packings, hpackings⟩ := Packing.exists_all_iff.2 hgives
    obtain ⟨results, hresults⟩ := SuccessfulRun.exists_mapM_eq_ok fun p (_ : p ∈ packings) =>
      exists_find?_eq_ok ht hg.candidates hw set p
    exact ⟨_, SuccessfulRun.bind_eq_ok_iff.2 ⟨packings, hpackings,
      SuccessfulRun.bind_eq_ok_iff.2 ⟨results, hresults, rfl⟩⟩⟩
  next => exact ⟨[], rfl⟩

theorem raw_le_ceiling_of_mem_builds (ht : c.skills.LimitsInOrder)
    {candidates : List (Candidate Rat)} (hcandidates : q.candidates c = .ok candidates)
    {w : Candidate Rat} (hw : w ∈ candidates) {set : ArmourSet} {f : Find Rat}
    (hf : f ∈ (ofRequest c q useful).builds set w) : f.effective.raw ≤ w.ceiling := by
  unfold builds at hf
  split at hf
  next finds hfinds =>
    obtain ⟨-, packings, -, p, -, hfind⟩ := Request.exists_packing_of_finds hfinds hf
    have hrelevant : ∀ s, q.requirements.relevant s = false →
        (q.requirements.restrictLevels
          (SkillLevels.grant c.skills p.levels (pairedPieces set w))).count s = 0 :=
      fun s hs => Requirements.count_restrictLevels_of_not_relevant hs _
    have heffective := effective_of_find? hfind
    exact Candidate.raw_le_ceiling ht (Request.ceilingOf_of_mem_candidates hcandidates hw) hrelevant
      heffective
  next => cases hf

end Setting

theorem Request.LaysOut.raw_le_ceiling {q : Request} {c : Catalogue} {g : Groundwork Rat}
    (hg : q.LaysOut c g) (ht : c.skills.LimitsInOrder) :
    ∀ set ∈ g.sets, ∀ w ∈ g.candidates, ∀ f ∈ (Setting.ofRequest c q g.useful).builds set w,
      f.effective.raw ≤ w.ceiling :=
  fun _ _ _ hw _ hf => Setting.raw_le_ceiling_of_mem_builds ht hg.candidates hw hf

theorem Candidate.pairwise_arrange (candidates : List (Candidate Rat)) :
    (arrange candidates).Pairwise fun a b => b.ceiling ≤ a.ceiling := by
  have hless : ∀ a b : Rat, (!Reckoning.less a b) = true ↔ b ≤ a := by
    intro a b
    rw [Bool.not_eq_true', ← Bool.not_eq_true, Reckoning.less_iff, not_lt]
  have htrans : ∀ a b c : Candidate Rat, (!Reckoning.less a.ceiling b.ceiling) = true →
      (!Reckoning.less b.ceiling c.ceiling) = true →
      (!Reckoning.less a.ceiling c.ceiling) = true := by
    intro a b c
    rw [hless, hless, hless]
    exact fun hab hbc => hbc.trans hab
  have htotal : ∀ a b : Candidate Rat, (!Reckoning.less a.ceiling b.ceiling ||
      !Reckoning.less b.ceiling a.ceiling) = true := by
    intro a b
    rw [Bool.or_eq_true, hless, hless]
    exact le_total _ _
  exact (List.pairwise_mergeSort htrans htotal candidates).imp (hless _ _).1

theorem Request.pairwise_candidates {q : Request} {c : Catalogue}
    {candidates : List (Candidate Rat)} (h : q.candidates c = .ok candidates) :
    candidates.Pairwise fun a b => b.ceiling ≤ a.ceiling := by
  obtain ⟨configurations, -, h⟩ := SuccessfulRun.bind_eq_ok_iff.1 h
  dsimp only at h
  split at h
  next => cases h
  next =>
    obtain ⟨rated, -, h⟩ := SuccessfulRun.bind_eq_ok_iff.1 h
    cases h
    exact Candidate.pairwise_arrange rated

end Loadout
