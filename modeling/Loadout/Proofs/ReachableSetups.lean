import Loadout.Proofs.AcceptedSetups

/-!
# Reachable setups

A fresh setup is configured by calls, some of which may be refused.  No call breaks a rule, and a
setup that keeps the rules is replayed by calls, so the setups that calls lead to are exactly those
that keep the rules.
-/

namespace Loadout

namespace Setup

/-- A call that configures a setup.  Levels and counts are bytes. -/
inductive Call where
  | level (n : UInt8)
  | augment (a : Augment) (n : UInt8)
  | upgrade (u : Upgrade)
  deriving DecidableEq, Repr

namespace Call

def apply (w : Weapon) (s : Setup) : Call → Except Refusal Setup
  | level n => s.setLevel w n.toNat
  | augment a n => s.setAugment a n.toNat
  | upgrade u => s.addUpgrade w u

/-- A call that changes the setup in place, with all its checks before the change. -/
def perform (w : Weapon) : Call → EStateM Refusal Setup Unit
  | level n => do
      if w.augments = .none ∧ 0 < n.toNat then throw .notAugmentable
      if maxAugmentLevel < n.toNat then throw (.levelBeyond n.toNat)
      if n.toNat < (← get).augments.spent then throw .levelBelowSpent
      modify fun s => { s with augments.level := n.toNat }
  | augment a n => do
      let next := (← get).augments.withCount n.toNat a
      if a.single ∧ 1 < n.toNat then throw (.onlyOnce a)
      if next.level < next.spent then throw (.beyondLevel next.spent next.level)
      modify fun s => { s with augments := next }
  | upgrade u => do
      let s ← get
      match s.schemeRefusal w u with
      | some refusal => throw refusal
      | none =>
          if u.isSlot && s.hasUpgrade Upgrade.isSlot then throw .secondSlot
          modify fun s => { s with upgrades := s.upgrades ++ [u] }

end Call

/-- The setup that a call leaves behind, accepted or refused. -/
def after (w : Weapon) (s : Setup) (call : Call) : Setup :=
  match (call.perform w).run s with
  | .ok _ t => t
  | .error _ t => t

def afterAll (w : Weapon) (calls : List Call) : Setup := calls.foldl (after w) fresh

section Performing

variable {w : Weapon} {s t : Setup} {call : Call} {refusal : Refusal}

/-- The end of a call that is accepted with a new setup or refused with the old one. -/
def outcome (s : Setup) : Except Refusal Setup → EStateM.Result Refusal Setup Unit
  | .ok t => .ok () t
  | .error refusal => .error refusal s

theorem run_get_bind (change : Setup → EStateM Refusal Setup Unit) :
    (get >>= change).run s = (change s).run s := rfl

theorem run_check {p : Prop} [Decidable p] {change : EStateM Refusal Setup Unit}
    {changed : Except Refusal Setup} (h : change.run s = outcome s changed) :
    (if p then do throw refusal; change else change).run s =
      outcome s (if p then .error refusal else changed) := by
  split
  next => rfl
  next => exact h

/-- In place or not, a call is accepted and refused alike. -/
theorem perform_run (w : Weapon) (s : Setup) (call : Call) :
    (call.perform w).run s = outcome s (call.apply w s) := by
  cases call with
  | level n =>
      simp only [Call.perform, Call.apply, setLevel]
      apply run_check
      apply run_check
      exact run_check rfl
  | augment a n =>
      simp only [Call.perform, Call.apply, setAugment]
      apply run_check
      exact run_check rfl
  | upgrade u =>
      simp only [Call.perform, Call.apply, addUpgrade]
      rw [run_get_bind]
      cases s.schemeRefusal w u with
      | some refusal => rfl
      | none => exact run_check rfl

theorem perform_ok_iff :
    (call.perform w).run s = .ok () t ↔ call.apply w s = .ok t := by
  rw [perform_run]
  cases call.apply w s with
  | ok t => simp [outcome]
  | error refusal => simp [outcome]

theorem perform_error_iff :
    (call.perform w).run s = .error refusal t ↔ call.apply w s = .error refusal ∧ t = s := by
  rw [perform_run]
  cases call.apply w s with
  | ok t => simp [outcome]
  | error refusal => simp [outcome, eq_comm]

theorem after_of_apply_ok (h : call.apply w s = .ok t) : after w s call = t := by
  rw [after, perform_ok_iff.2 h]

theorem after_of_apply_error (h : call.apply w s = .error refusal) : after w s call = s := by
  rw [after, perform_error_iff.2 ⟨h, rfl⟩]

end Performing

section Keeping

variable {w : Weapon} {s t : Setup}

theorem kept_fresh (w : Weapon) : Kept w fresh where
  augments := by constructor <;> simp [fresh, Augments.spent]
  scheme := schemeKept_nil
  slot := Nat.zero_le _

theorem Kept.setLevel {n : Nat} (h : Kept w s) (hset : s.setLevel w n = .ok t) : Kept w t := by
  obtain ⟨hoffered, hlevel, hpaid, rfl⟩ := setLevel_eq_ok_iff.1 hset
  exact ⟨⟨hoffered, hlevel, hpaid, h.augments.healthRegen, h.augments.slot⟩, h.scheme, h.slot⟩

theorem AugmentsKept.withCount {a : Augments} {augment : Augment} {n : Nat}
    (h : AugmentsKept w a) (hsingle : augment.single = true → n ≤ 1)
    (hpaid : (a.withCount n augment).spent ≤ (a.withCount n augment).level) :
    AugmentsKept w (a.withCount n augment) := by
  cases augment with
  | attack => exact ⟨h.offered, h.level, hpaid, h.healthRegen, h.slot⟩
  | affinity => exact ⟨h.offered, h.level, hpaid, h.healthRegen, h.slot⟩
  | healthRegen => exact ⟨h.offered, h.level, hpaid, hsingle rfl, h.slot⟩
  | slot => exact ⟨h.offered, h.level, hpaid, h.healthRegen, hsingle rfl⟩

theorem Kept.setAugment {augment : Augment} {n : Nat} (h : Kept w s)
    (hset : s.setAugment augment n = .ok t) : Kept w t := by
  obtain ⟨hsingle, hpaid, rfl⟩ := setAugment_eq_ok_iff.1 hset
  exact ⟨h.augments.withCount hsingle hpaid, h.scheme, h.slot⟩

theorem Kept.addUpgrade {u : Upgrade} (h : Kept w s) (hadd : s.addUpgrade w u = .ok t) :
    Kept w t := by
  obtain ⟨hrefusal, hfirst, rfl⟩ := addUpgrade_eq_ok_iff.1 hadd
  exact ⟨h.augments, SchemeKept.append_iff.2 ⟨h.scheme, hrefusal⟩,
    countP_append_le_one_iff.2 ⟨h.slot, hfirst⟩⟩

theorem Kept.apply {call : Call} (h : Kept w s) (hcall : call.apply w s = .ok t) : Kept w t := by
  cases call with
  | level n => exact h.setLevel hcall
  | augment a n => exact h.setAugment hcall
  | upgrade u => exact h.addUpgrade hcall

theorem Kept.after (h : Kept w s) (call : Call) : Kept w (after w s call) := by
  cases hcall : call.apply w s with
  | ok t =>
      rw [after_of_apply_ok hcall]
      exact h.apply hcall
  | error refusal =>
      rw [after_of_apply_error hcall]
      exact h

theorem Kept.foldl_after (h : Kept w s) (calls : List Call) :
    Kept w (calls.foldl (Setup.after w) s) := by
  induction calls generalizing s with
  | nil => exact h
  | cons call rest ih => exact ih (h.after call)

end Keeping

section Replaying

variable {w : Weapon} {s t : Setup}

/-- The calls that replay a setup. -/
def calls (s : Setup) : List Call :=
  .level (.ofNat s.augments.level) ::
    (Augment.all.map fun a => .augment a (.ofNat (s.augments.count a))) ++
      s.upgrades.map .upgrade

theorem foldl_after_of_foldlM {calls : List Call}
    (h : calls.foldlM (fun s call => call.apply w s) s = .ok t) :
    calls.foldl (after w) s = t := by
  induction calls generalizing s with
  | nil => exact Except.ok.inj h
  | cons call rest ih =>
      rw [List.foldlM_cons, SuccessfulRun.bind_eq_ok_iff] at h
      obtain ⟨next, hcall, hrest⟩ := h
      rw [List.foldl_cons, after_of_apply_ok hcall]
      exact ih hrest

theorem AugmentsKept.count_lt {a : Augments} (h : AugmentsKept w a) (augment : Augment) :
    a.count augment < UInt8.size := by
  have hlevel : a.level ≤ 3 := h.level
  have hpaid : a.attack + a.affinity + a.healthRegen + a.slot ≤ a.level := h.paid
  have hsize : UInt8.size = 256 := rfl
  cases augment <;> simp only [Augments.count] <;> omega

theorem Kept.foldlM_calls (h : Kept w s) :
    s.calls.foldlM (fun t call => call.apply w t) fresh = s.replay w := by
  have hlevel : (UInt8.ofNat s.augments.level).toNat = s.augments.level := by
    have hlt : s.augments.level < UInt8.size := Nat.lt_of_le_of_lt h.augments.level (by decide)
    exact UInt8.toNat_ofNat_of_lt' hlt
  have hcount : ∀ a, (UInt8.ofNat (s.augments.count a)).toNat = s.augments.count a :=
    fun a => UInt8.toNat_ofNat_of_lt' (h.augments.count_lt a)
  rw [calls, List.cons_append, List.foldlM_cons]
  simp only [List.foldlM_append, List.foldlM_map, Call.apply, hlevel, hcount]
  rfl

theorem Kept.afterAll_calls (h : Kept w s) : afterAll w s.calls = s :=
  foldl_after_of_foldlM (h.foldlM_calls.trans h.replay_eq_ok)

end Replaying

/-- Calls, accepted and refused, lead from the fresh setup exactly to the setups that keep the
rules.  In place a call is accepted with the setup that the choice gives, and refused with the setup
as it was. -/
theorem reachable_iff_kept (w : Weapon) :
    (∀ s, (∃ calls, afterAll w calls = s) ↔ Kept w s) ∧
      ∀ s (call : Call),
        (∀ t, (call.perform w).run s = .ok () t ↔ call.apply w s = .ok t) ∧
        ∀ refusal t, (call.perform w).run s = .error refusal t ↔
          call.apply w s = .error refusal ∧ t = s := by
  constructor
  · intro s
    constructor
    · rintro ⟨calls, rfl⟩
      exact (kept_fresh w).foldl_after calls
    · intro h
      exact ⟨s.calls, h.afterAll_calls⟩
  · intro s call
    exact ⟨fun t => perform_ok_iff, fun refusal t => perform_error_iff⟩

/-- A bow with augments and awakenings. -/
def awakenedBow : Weapon where
  id := "BOW"
  name := "Bow"
  weaponClass := .bow
  rarity := 12
  trueRaw := 100
  affinity := 0
  skill := none
  decoSlots := []
  element := {}
  gauge := none
  constantSharpness := false
  augments := .iceborne
  upgrades := .awakening []

/-- Refused calls in between: a second health regeneration, a level below what is spent, a second
awakening of the sixth level. -/
def awakenedCalls : List Call :=
  [.level 2, .augment .healthRegen 2, .augment .healthRegen 1, .level 0, .upgrade .attack6,
    .upgrade .affinity6, .upgrade .slot]

theorem reachable_iff_kept_awakened :
    Kept awakenedBow ⟨{ level := 2, healthRegen := 1 }, [.attack6, .slot]⟩ ∧
      (¬ ∃ calls, afterAll awakenedBow calls = ⟨{}, [.attack6, .affinity6]⟩) ∧
      ((Call.level 0).perform awakenedBow).run ⟨{ level := 2, healthRegen := 1 }, []⟩ =
        .error .levelBelowSpent ⟨{ level := 2, healthRegen := 1 }, []⟩ := by
  obtain ⟨hreachable, hcalls⟩ := reachable_iff_kept awakenedBow
  refine ⟨(hreachable _).1 ⟨awakenedCalls, rfl⟩, ?_, ((hcalls _ _).2 _ _).2 ⟨rfl, rfl⟩⟩
  intro hreached
  have hkept := (hreachable _).1 hreached
  exact absurd hkept.scheme.levelSix (by decide)

end Setup

end Loadout
