import Mathlib.Data.List.Forall2

/-!
# Successful runs

A computation that may stop with an error is taken apart at its steps: it succeeds exactly if every
step on the way does.
-/

namespace Loadout.SuccessfulRun

variable {ε α β : Type}

theorem bind_eq_ok_iff {first : Except ε α} {next : α → Except ε β} {b : β} :
    first >>= next = .ok b ↔ ∃ a, first = .ok a ∧ next a = .ok b := by
  cases first with
  | error e => simp [bind, Except.bind]
  | ok a => simp [bind, Except.bind]

theorem exists_bind_eq_ok_iff {first : Except ε α} {next : α → Except ε β} :
    (∃ b, first >>= next = .ok b) ↔ ∃ a, first = .ok a ∧ ∃ b, next a = .ok b := by
  simp only [bind_eq_ok_iff]
  exact ⟨fun ⟨b, a, ha, hb⟩ => ⟨a, ha, b, hb⟩, fun ⟨a, ha, b, hb⟩ => ⟨b, a, ha, hb⟩⟩

/-- A run that always goes on succeeds where its first part does. -/
theorem exists_bind_ok_iff {first : Except ε α} {result : α → β} :
    (∃ b, (first >>= fun a => .ok (result a)) = .ok b) ↔ ∃ a, first = .ok a := by
  simp [exists_bind_eq_ok_iff]

/-- A check that may fail is passed by a run that succeeds. -/
theorem ite_error_eq_ok_iff {p : Prop} [Decidable p] {e : ε} {run : Except ε α} {a : α} :
    (if p then .error e else run) = .ok a ↔ ¬ p ∧ run = .ok a := by
  split
  next hp => simp [hp]
  next hp => simp [hp]

theorem toOption_eq_some_iff {run : Except ε α} {a : α} :
    run.toOption = some a ↔ run = .ok a := by
  cases run with
  | error e => simp [Except.toOption]
  | ok b => simp [Except.toOption]

/-- A list of computations succeeds with the list of their results. -/
theorem mapM_eq_ok_iff {f : α → Except ε β} {as : List α} {bs : List β} :
    as.mapM f = .ok bs ↔ List.Forall₂ (fun a b => f a = .ok b) as bs := by
  induction as generalizing bs with
  | nil =>
      rw [List.mapM_nil, List.forall₂_nil_left_iff]
      exact ⟨fun h => (Except.ok.inj h).symm, fun h => h ▸ rfl⟩
  | cons a rest ih =>
      rw [List.mapM_cons, bind_eq_ok_iff, List.forall₂_cons_left_iff]
      constructor
      · rintro ⟨b, hb, hrest⟩
        obtain ⟨cs, hcs, heq⟩ := bind_eq_ok_iff.1 hrest
        exact ⟨b, cs, hb, ih.1 hcs, (Except.ok.inj heq).symm⟩
      · rintro ⟨b, cs, hb, hcs, rfl⟩
        exact ⟨b, hb, bind_eq_ok_iff.2 ⟨cs, ih.2 hcs, rfl⟩⟩

/-- Computations that succeed under one condition, each with its own result. -/
theorem mapM_eq_ok_iff_of_forall {f : α → Except ε β} {g : α → β} {p : Prop}
    (h : ∀ a b, f a = .ok b ↔ p ∧ g a = b) {as : List α} (has : as ≠ []) {bs : List β} :
    as.mapM f = .ok bs ↔ p ∧ as.map g = bs := by
  obtain ⟨a, ha⟩ := List.exists_mem_of_ne_nil as has
  have hcondition : (∀ a ∈ as, p) ↔ p := ⟨fun h => h a ha, fun hp _ _ => hp⟩
  simp only [mapM_eq_ok_iff, h, List.forall₂_and_left, hcondition]
  rw [← List.forall₂_map_left_iff (R := fun a b => a = b), List.forall₂_eq_eq_eq]

/-- Steps that always succeed lead where their results lead. -/
theorem foldlM_eq_ok_of_forall {f : β → α → Except ε β} {g : β → α → β} {as : List α}
    (h : ∀ a ∈ as, ∀ b, f b a = .ok (g b a)) (b : β) : as.foldlM f b = .ok (as.foldl g b) := by
  induction as generalizing b with
  | nil => rfl
  | cons a rest ih =>
      obtain ⟨ha, hrest⟩ := List.forall_mem_cons.1 h
      rw [List.foldlM_cons, ha b]
      exact ih hrest (g b a)

theorem exists_results {related : α → β → Prop} {as : List α} (h : ∀ a ∈ as, ∃ b, related a b) :
    ∃ bs, List.Forall₂ related as bs := by
  induction as with
  | nil => exact ⟨[], .nil⟩
  | cons a rest ih =>
      obtain ⟨b, hb⟩ := h a List.mem_cons_self
      obtain ⟨bs, hbs⟩ := ih fun a' ha' => h a' (List.mem_cons_of_mem a ha')
      exact ⟨b :: bs, .cons hb hbs⟩

/-- A list of computations succeeds if each of them does. -/
theorem exists_mapM_eq_ok {f : α → Except ε β} {as : List α} (h : ∀ a ∈ as, ∃ b, f a = .ok b) :
    ∃ bs, as.mapM f = .ok bs := by
  obtain ⟨bs, hbs⟩ := exists_results h
  exact ⟨bs, mapM_eq_ok_iff.2 hbs⟩

/-- Whatever list is gone through item by item, every item has a result. -/
theorem exists_result {related : α → β → Prop} {as : List α} {bs : List β}
    (h : List.Forall₂ related as bs) {a : α} (ha : a ∈ as) : ∃ b ∈ bs, related a b := by
  induction h with
  | nil => cases ha
  | @cons c b as bs hb _ ih =>
      rcases List.mem_cons.1 ha with rfl | ha
      · exact ⟨b, List.mem_cons_self, hb⟩
      · obtain ⟨b', hb', hrun⟩ := ih ha
        exact ⟨b', List.mem_cons_of_mem b hb', hrun⟩

theorem exists_item {related : α → β → Prop} {as : List α} {bs : List β}
    (h : List.Forall₂ related as bs) {b : β} (hb : b ∈ bs) : ∃ a ∈ as, related a b := by
  obtain ⟨a, ha, hab⟩ := exists_result h.flip hb
  exact ⟨a, ha, hab⟩

/-- Lists that go along with each other have the same images if their items do. -/
theorem map_eq_map {γ : Type} {f : α → γ} {g : β → γ} {as : List α} {bs : List β}
    (h : List.Forall₂ (fun a b => g b = f a) as bs) : bs.map g = as.map f := by
  rw [← List.forall₂_eq_eq_eq, List.forall₂_map_left_iff, List.forall₂_map_right_iff]
  exact h.flip

theorem exists_mapM_eq_ok_iff {f : α → Except ε β} {as : List α} :
    (∃ bs, as.mapM f = .ok bs) ↔ ∀ a ∈ as, ∃ b, f a = .ok b := by
  constructor
  · rintro ⟨bs, hbs⟩ a ha
    obtain ⟨b, -, hb⟩ := exists_result (mapM_eq_ok_iff.1 hbs) ha
    exact ⟨b, hb⟩
  · exact exists_mapM_eq_ok

/-- What may be missing only has to succeed where it is there. -/
theorem exists_option_mapM_eq_ok_iff {f : α → Except ε β} {o : Option α} :
    (∃ r, o.mapM f = .ok r) ↔ ∀ a ∈ o, ∃ b, f a = .ok b := by
  cases o with
  | none =>
      have hrun : (none : Option α).mapM f = .ok none := rfl
      simp [hrun]
  | some a =>
      simp only [Option.mem_some, forall_eq']
      constructor
      · rintro ⟨r, hr⟩
        obtain ⟨b, hb, -⟩ := bind_eq_ok_iff.1 hr
        exact ⟨b, hb⟩
      · rintro ⟨b, hb⟩
        exact ⟨some b, bind_eq_ok_iff.2 ⟨b, hb, rfl⟩⟩

end Loadout.SuccessfulRun
