import Loadout.Proofs.GrantedSignatures
import Loadout.Proofs.LoadedDecorations
import Mathlib.Algebra.Order.BigOperators.Group.List

/-!
# Guarded preparation

The useful decorations are sorted out once more with a guard before every sum and every access.
For loaded decorations no guard strikes: their levels add up to less than a word, and a total of one
level has a first level.
-/

namespace Loadout

/-- What a guarded run breaks at. -/
inductive Breach where
  | overflow
  | emptyStep
  | outOfRange
  deriving DecidableEq, Repr

namespace UsefulDecoration

/-- The levels added up one after the other, every sum in a word. -/
def guardedTotal (u : UsefulDecoration) : Except Breach Nat :=
  u.levels.foldlM
    (fun sum l => if Fault.wordMax < sum + l.2 then .error .overflow else .ok (sum + l.2)) 0

end UsefulDecoration

/-- The useful decorations so far: one for each skill, and those of more than one level. -/
structure Assortment where
  single : OrderedMap SkillId UsefulDecoration
  multi : List UsefulDecoration

def Assortment.guardedAdd (a : Assortment) (u : UsefulDecoration) : Except Breach Assortment := do
  match ← u.guardedTotal with
  | 0 => return a
  | 1 =>
      match u.levels with
      | [] => .error .outOfRange
      | _ :: _ => return { a with single := UsefulDecoration.keepSmaller a.single u }
  | _ => return { a with multi := a.multi ++ [u] }

/-- Sorts out the useful decorations, one decoration of the catalogue after the other. -/
def Catalogue.guardedPrepare (c : Catalogue) (r : Requirements) :
    Except Breach (Except SearchError (List UsefulDecoration)) := do
  let kept ← c.allDecorations.foldlM
    (fun kept d =>
      if d.2.skills.any fun l => r.removes l.1 then .ok kept
      else kept.guardedAdd (UsefulDecoration.ofDecoration r d.1 d.2))
    (⟨∅, []⟩ : Assortment)
  let useful := UsefulDecoration.arrange (kept.single.entries.map (·.2) ++ kept.multi)
  return if useful.isEmpty && !r.minimum.isEmpty then .error .noDecorations else .ok useful

section Preparing

variable {c : Catalogue} {r : Requirements} {u : UsefulDecoration}

theorem UsefulDecoration.guardedTotal_eq_ok (h : u.total ≤ Fault.wordMax) :
    u.guardedTotal = .ok u.total := by
  have hfold : ∀ (grants : List (SkillId × Nat)) (sum : Nat),
      sum + (grants.map (·.2)).sum ≤ Fault.wordMax →
      grants.foldlM (fun sum l =>
        if Fault.wordMax < sum + l.2 then .error .overflow else .ok (sum + l.2)) sum =
          (.ok (sum + (grants.map (·.2)).sum) : Except Breach Nat) := by
    intro grants
    induction grants with
    | nil => exact fun sum _ => rfl
    | cons l rest ih =>
        intro sum hsum
        rw [List.map_cons, List.sum_cons, ← Nat.add_assoc] at hsum ⊢
        rw [List.foldlM_cons, if_neg (by omega)]
        exact ih (sum + l.2) hsum
  have hrun := hfold u.levels 0 (by rwa [Nat.zero_add])
  rwa [Nat.zero_add] at hrun

/-- What is kept after one more decoration. -/
def Assortment.add (a : Assortment) (u : UsefulDecoration) : Assortment where
  single := if u.total == 1 then UsefulDecoration.keepSmaller a.single u else a.single
  multi := if 1 < u.total then a.multi ++ [u] else a.multi

/-- A total of one level has a first level. -/
theorem Assortment.guardedAdd_eq_ok (a : Assortment) (h : u.total ≤ Fault.wordMax) :
    a.guardedAdd u = .ok (a.add u) := by
  have hnil : u.levels = [] → u.total = 0 := by
    intro hnil
    rw [UsefulDecoration.total, hnil]
    rfl
  unfold guardedAdd add
  rw [UsefulDecoration.guardedTotal_eq_ok h]
  rcases htotal : u.total with _ | _ | n
  · rfl
  · cases hlevels : u.levels with
    | nil =>
        rw [hnil hlevels] at htotal
        cases htotal
    | cons l rest => rfl
  · simp [bind, Except.bind, pure, Except.pure]

theorem Assortment.foldl_add (relevant : List UsefulDecoration) (a : Assortment) :
    relevant.foldl Assortment.add a =
      ⟨(relevant.filter fun u => u.total == 1).foldl UsefulDecoration.keepSmaller a.single,
        a.multi ++ relevant.filter fun u => 1 < u.total⟩ := by
  induction relevant generalizing a with
  | nil => simp
  | cons u rest ih =>
      rw [List.foldl_cons, ih, List.filter_cons, List.filter_cons, Assortment.add]
      congr 1
      · split <;> rfl
      · simp only [decide_eq_true_eq]
        split
        · rw [List.append_assoc, List.singleton_append]
        · rfl

namespace Catalogue

theorem guardedPrepare_eq_ok
    (h : ∀ d ∈ c.allDecorations,
      (UsefulDecoration.ofDecoration r d.1 d.2).total ≤ Fault.wordMax) :
    c.guardedPrepare r = .ok (c.decorationsFor r) := by
  have hstep : ∀ d ∈ c.allDecorations, ∀ kept : Assortment,
      (if d.2.skills.any fun l => r.removes l.1 then .ok kept
        else kept.guardedAdd (UsefulDecoration.ofDecoration r d.1 d.2)) =
        (.ok (if !d.2.skills.any fun l => r.removes l.1 then
          kept.add (UsefulDecoration.ofDecoration r d.1 d.2) else kept) :
            Except Breach Assortment) := by
    intro d hd kept
    cases d.2.skills.any fun l => r.removes l.1 with
    | true => rfl
    | false => exact kept.guardedAdd_eq_ok (h d hd)
  have hrelevant : ∀ (decorations : List (DecorationId × Decoration)) (kept : Assortment),
      decorations.foldl (fun kept d => kept.add (UsefulDecoration.ofDecoration r d.1 d.2)) kept =
        (decorations.map fun d => UsefulDecoration.ofDecoration r d.1 d.2).foldl
          Assortment.add kept :=
    fun decorations kept => List.foldl_map.symm
  unfold guardedPrepare
  rw [SuccessfulRun.foldlM_eq_ok_of_forall hstep, ← List.foldl_filter, hrelevant,
    Assortment.foldl_add]
  rfl

end Catalogue

theorem Decoration.Recorded.total_le {t : SkillTable} {d : Decoration} (h : d.Recorded t)
    (hfew : byteMax * t.skills.size ≤ Fault.wordMax) (id : DecorationId) :
    (UsefulDecoration.ofDecoration r id d).total ≤ Fault.wordMax := by
  have hlevels : ∀ n ∈ (d.skills.filter fun l => r.relevant l.1).map (·.2), n ≤ byteMax := by
    intro n hn
    obtain ⟨l, hl, rfl⟩ := List.mem_map.1 hn
    exact h.levels l (List.mem_filter.1 hl).1
  have hlength : (d.skills.filter fun l => r.relevant l.1).length ≤ t.skills.size :=
    (List.length_filter_le _ _).trans h.length
  calc (UsefulDecoration.ofDecoration r id d).total
      = ((d.skills.filter fun l => r.relevant l.1).map (·.2)).sum := rfl
    _ ≤ ((d.skills.filter fun l => r.relevant l.1).map (·.2)).length * byteMax :=
        List.sum_le_card_nsmul _ _ hlevels
    _ ≤ byteMax * t.skills.size := by
        rw [List.length_map, Nat.mul_comm]
        exact Nat.mul_le_mul_left byteMax hlength
    _ ≤ Fault.wordMax := hfew

end Preparing

namespace Catalogue

variable {d : CatalogueDraft} {c : Catalogue} {r : Requirements} {u : UsefulDecoration} {j : Json}

theorem guardedPrepare_of_read
    (hread : readListed "decorations" DecorationDraft.read j = some d.decorations)
    (hd : d.resolve = .ok c) (hfew : byteMax * c.skills.skills.size ≤ Fault.wordMax)
    (r : Requirements) : c.guardedPrepare r = .ok (c.decorationsFor r) :=
  guardedPrepare_eq_ok fun e he =>
    (CatalogueDraft.recorded_of_resolve hd (levels_le_of_readListed hread) he).total_le hfew e.1

/-- Whether no decoration that may be worn mixes levels of relevant skills with empty ones. -/
def Unmixed (c : Catalogue) (r : Requirements) : Prop :=
  ∀ e ∈ c.allDecorations, (∀ l ∈ e.2.skills, r.removes l.1 = false) →
    (∀ l ∈ e.2.skills, r.relevant l.1 = true → l.2 = 0) ∨
      ∀ l ∈ e.2.skills, r.relevant l.1 = true → l.2 ≠ 0

theorem total_pos_of_mem_usefulDecorations (h : u ∈ c.usefulDecorations r) : 0 < u.total := by
  unfold usefulDecorations UsefulDecoration.arrange at h
  dsimp only at h
  rw [List.mem_mergeSort, List.mem_append] at h
  rcases h with h | h
  · obtain ⟨e, he, rfl⟩ := List.mem_map.1 h
    rcases mem_of_foldl_keepSmaller he with hnone | hmem
    · cases hnone
    · have hone : (e.2.total == 1) = true := (List.mem_filter.1 hmem).2
      rw [beq_iff_eq] at hone
      omega
  · have hmore : decide (1 < u.total) = true := (List.mem_filter.1 h).2
    rw [decide_eq_true_iff] at hmore
    omega

theorem Unmixed.givesLevels (h : c.Unmixed r) (hu : u ∈ c.usefulDecorations r) :
    u.GivesLevels := by
  have htotal := total_pos_of_mem_usefulDecorations hu
  obtain ⟨e, he, hkept, rfl⟩ := exists_of_mem_usefulDecorations hu
  have hrelevant : ∀ l ∈ (UsefulDecoration.ofDecoration r e.1 e.2).levels,
      l ∈ e.2.skills ∧ r.relevant l.1 = true := fun l hl => List.mem_filter.1 hl
  rcases h e he hkept with hempty | hfull
  · have hnone : (UsefulDecoration.ofDecoration r e.1 e.2).total = 0 := by
      have hzero : ∀ n ∈ (UsefulDecoration.ofDecoration r e.1 e.2).levels.map (·.2), n = 0 := by
        intro n hn
        obtain ⟨l, hl, rfl⟩ := List.mem_map.1 hn
        exact hempty l (hrelevant l hl).1 (hrelevant l hl).2
      exact List.sum_eq_zero hzero
    omega
  · exact fun l hl => hfull l (hrelevant l hl).1 (hrelevant l hl).2

end Catalogue

end Loadout
