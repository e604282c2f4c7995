import Loadout.InputError
import Loadout.Proofs.SuccessfulRun
import Mathlib.Data.List.Perm.Basic

/-!
# Runs that end alike

Two runs that resolve documents are compared step by step: if both accept, then with related
results, and otherwise both refuse, for whatever reason, or both stop at the same fault.
-/

namespace Loadout

namespace InputError

variable {α β γ δ : Type}

/-- Whether two runs end alike: with related results, both refusing, or at the same fault. -/
inductive Alike (related : α → β → Prop) : Except InputError α → Except InputError β → Prop
  | accepted {a : α} {b : β} (h : related a b) : Alike related (.ok a) (.ok b)
  | refused {e e' : InputError} (h : ∀ f, e ≠ .fault f) (h' : ∀ f, e' ≠ .fault f) :
      Alike related (.error e) (.error e')
  | faulty (f : Fault) : Alike related (.error (.fault f)) (.error (.fault f))

/-- Whether a run accepts or refuses. -/
def NeverFaults (run : Except InputError α) : Prop := ∀ f, run ≠ .error (.fault f)

section Alike

variable {related : α → β → Prop} {run : Except InputError α} {run' : Except InputError β}

theorem Alike.same {run : Except InputError α} (holds : α → Prop)
    (h : ∀ a, run = .ok a → holds a) : Alike (fun a b => a = b ∧ holds a) run run := by
  cases run with
  | ok a => exact .accepted ⟨rfl, h a rfl⟩
  | error e =>
      cases e with
      | fault f => exact .faulty f
      | _ => exact .refused (fun f hf => by cases hf) (fun f hf => by cases hf)

theorem Alike.of_ok {a : α} {b : β} (h : Alike related (.ok a) (.ok b)) : related a b := by
  cases h with
  | accepted h => exact h

theorem Alike.mono {related' : α → β → Prop} (h : Alike related run run')
    (hrelated : ∀ a b, related a b → related' a b) : Alike related' run run' := by
  cases h with
  | accepted h => exact .accepted (hrelated _ _ h)
  | refused h h' => exact .refused h h'
  | faulty f => exact .faulty f

theorem Alike.refl (run : Except InputError α) : Alike Eq run run :=
  (Alike.same (fun _ => True) fun _ _ => trivial).mono fun _ _ h => h.1

theorem Alike.bind {related' : γ → δ → Prop} {next : α → Except InputError γ}
    {next' : β → Except InputError δ} (h : Alike related run run')
    (hnext : ∀ a b, related a b → Alike related' (next a) (next' b)) :
    Alike related' (run >>= next) (run' >>= next') := by
  cases h with
  | accepted h => exact hnext _ _ h
  | refused h h' => exact .refused h h'
  | faulty f => exact .faulty f

theorem Alike.of_neverFaults (hrun : NeverFaults run) (hrun' : NeverFaults run')
    (hforth : ∀ a, run = .ok a → ∃ b, run' = .ok b ∧ related a b)
    (hback : ∀ b, run' = .ok b → ∃ a, run = .ok a) : Alike related run run' := by
  cases run with
  | ok a =>
      obtain ⟨b, rfl, hrelated⟩ := hforth a rfl
      exact .accepted hrelated
  | error e =>
      cases run' with
      | ok b =>
          obtain ⟨a, ha⟩ := hback b rfl
          cases ha
      | error e' =>
          exact .refused (fun f hf => hrun f (hf ▸ rfl)) (fun f hf => hrun' f (hf ▸ rfl))

end Alike

theorem NeverFaults.bind {run : Except InputError α} {next : α → Except InputError β}
    (h : NeverFaults run) (hnext : ∀ a, NeverFaults (next a)) : NeverFaults (run >>= next) := by
  cases run with
  | ok a => exact hnext a
  | error e => exact fun f hf => h f (by cases hf; rfl)

theorem NeverFaults.map {run : Except InputError α} (h : NeverFaults run) (f : α → β) :
    NeverFaults (run.map f) := by
  cases run with
  | ok a => exact fun f hf => by cases hf
  | error e => exact fun f hf => h f (by cases hf; rfl)

theorem neverFaults_foldlM {next : β → α → Except InputError β}
    (hnext : ∀ b a, NeverFaults (next b a)) (as : List α) (b : β) :
    NeverFaults (as.foldlM next b) := by
  induction as generalizing b with
  | nil => exact fun f hf => by cases hf
  | cons a rest ih =>
      rw [List.foldlM_cons]
      exact (hnext b a).bind ih

theorem neverFaults_mapM {f : α → Except InputError β} (hf : ∀ a, NeverFaults (f a))
    (as : List α) : NeverFaults (as.mapM f) := by
  induction as with
  | nil => exact fun f hf => by cases hf
  | cons a rest ih =>
      rw [List.mapM_cons]
      exact (hf a).bind fun b => ih.bind fun bs f hf => by cases hf

theorem neverFaults_find (kind : Kind) (look : String → Option α) (id : String) :
    NeverFaults (find kind look id) := by
  intro f hf
  unfold find at hf
  split at hf <;> cases hf

theorem neverFaults_ofRefusal (weapon : String) (run : Except Refusal α) :
    NeverFaults (ofRefusal weapon run) := by
  intro f hf
  cases run <;> cases hf

theorem ofRefusal_eq_ok_iff {weapon : String} {run : Except Refusal α} {a : α} :
    ofRefusal weapon run = .ok a ↔ run = .ok a := by
  cases run <;> simp [ofRefusal]

/-- A run over a list ends alike over the same list in any order, if it keeps accepting. -/
theorem alike_of_perm {related : β → β → Prop} {run : List α → Except InputError β}
    (hrun : ∀ as, NeverFaults (run as))
    (hperm : ∀ {as as'}, as.Perm as' → ∀ b, run as = .ok b → ∃ b', run as' = .ok b' ∧ related b b')
    {as as' : List α} (h : as.Perm as') : Alike related (run as) (run as') := by
  apply Alike.of_neverFaults (hrun as) (hrun as') (hperm h)
  intro b' hb'
  obtain ⟨b, hb, -⟩ := hperm h.symm b' hb'
  exact ⟨b, hb⟩

theorem alike_mapM_perm {f : α → Except InputError β} (hf : ∀ a, NeverFaults (f a))
    {as as' : List α} (h : as.Perm as') : Alike List.Perm (as.mapM f) (as'.mapM f) := by
  refine alike_of_perm (neverFaults_mapM hf) ?_ h
  intro as as' h bs hbs
  obtain ⟨bs', hbs', hperm⟩ := List.perm_comp_forall₂ h.symm (SuccessfulRun.mapM_eq_ok_iff.1 hbs)
  exact ⟨bs', SuccessfulRun.mapM_eq_ok_iff.2 hbs', hperm.symm⟩

end InputError

end Loadout
