import Loadout.Proofs.LargestSignatures
import Loadout.Signature.Layout
import Mathlib.Algebra.Order.Ring.Nat
import Mathlib.Tactic.Ring

/-!
# Codes of signatures

A signature that stays within a layout has a code of its own, and the codes one unit below it are
those of the signatures one unit below it.  So going down among the codes leads to the same places
as going down among the signatures.
-/

namespace Loadout

/-- Whether a signature stays within places: it has components of theirs only, and of none more than
the place allows. -/
structure Signature.StaysWithin (s : Signature) (places : List Place) : Prop where
  listed : ∀ c, 0 < s.count c → ∃ p ∈ places, p.component = c
  bounded : ∀ p ∈ places, s.count p.component ≤ p.maximum

theorem Signature.StaysWithin.of_le {a b : Signature} {places : List Place}
    (hb : b.StaysWithin places) (h : ∀ c, a.count c ≤ b.count c) : a.StaysWithin places where
  listed c hc := hb.listed c (hc.trans_le (h c))
  bounded p hp := (h p.component).trans (hb.bounded p hp)

/-- Different skills and different set bonuses are different components. -/
theorem Component.nodup_append {skills : List SkillId} {bonuses : List BonusId}
    (hskills : skills.Nodup) (hbonuses : bonuses.Nodup) :
    (skills.map Component.skill ++ bonuses.map Component.bonus).Nodup := by
  refine List.nodup_append.2 ⟨hskills.map fun _ _ => Component.skill.inj,
    hbonuses.map fun _ _ => Component.bonus.inj, ?_⟩
  intro c hc c' hc' heq
  obtain ⟨s, -, rfl⟩ := List.mem_map.1 hc
  obtain ⟨b, -, rfl⟩ := List.mem_map.1 hc'
  cases heq

namespace Place

/-- The code of a signature within places. -/
def codeOf (s : Signature) (places : List Place) : Nat := ofDigits places (digits s places)

/-- The code of numbers of all components, each cut at the maximum of its place. -/
def clippedCode (f : Component → Nat) : List Place → Nat
  | [] => 0
  | p :: rest => min (f p.component) p.maximum + p.radix * clippedCode f rest

def Distinct (places : List Place) : Prop := (places.map (·.component)).Nodup

theorem Distinct.ne {p q : Place} {rest : List Place} (h : Distinct (p :: rest)) (hq : q ∈ rest) :
    p.component ≠ q.component := fun heq =>
  (List.nodup_cons.1 h).1 (List.mem_map.2 ⟨q, hq, heq.symm⟩)

theorem clippedCode_congr {f g : Component → Nat} {places : List Place}
    (h : ∀ p ∈ places, f p.component = g p.component) :
    clippedCode f places = clippedCode g places := by
  induction places with
  | nil => rfl
  | cons p rest ih =>
      obtain ⟨hp, hrest⟩ := List.forall_mem_cons.1 h
      rw [clippedCode, clippedCode, hp, ih hrest]

theorem clippedCode_lt_space (f : Component → Nat) (places : List Place) :
    clippedCode f places < space places := by
  induction places with
  | nil => exact Nat.one_pos
  | cons p rest ih =>
      have hdigit : min (f p.component) p.maximum < p.radix :=
        Nat.lt_succ_of_le (Nat.min_le_right _ _)
      calc min (f p.component) p.maximum + p.radix * clippedCode f rest
          < p.radix + p.radix * clippedCode f rest := Nat.add_lt_add_right hdigit _
        _ = p.radix * (clippedCode f rest + 1) := by ring
        _ ≤ p.radix * space rest := Nat.mul_le_mul_left _ ih

/-- Where no component has two places, every digit counts. -/
theorem codeOf_eq_clippedCode {s : Signature} {places : List Place} (hdistinct : Distinct places) :
    codeOf s places = clippedCode s.count places := by
  induction places with
  | nil => rfl
  | cons p rest ih =>
      have hnew : ¬ rest.any (·.component = p.component) = true := by
        intro hany
        obtain ⟨q, hq, heq⟩ := List.any_eq_true.1 hany
        exact hdistinct.ne hq (of_decide_eq_true heq).symm
      rw [codeOf, digits, if_neg hnew, ofDigits, clippedCode, ← ih (List.nodup_cons.1 hdistinct).2,
        codeOf]

@[simp] theorem codeOf_nil (s : Signature) : codeOf s [] = 0 := rfl

theorem codeOf_cons {s : Signature} {p : Place} {rest : List Place}
    (hdistinct : Distinct (p :: rest)) (hbound : s.count p.component ≤ p.maximum) :
    codeOf s (p :: rest) = s.count p.component + p.radix * codeOf s rest := by
  rw [codeOf_eq_clippedCode hdistinct, codeOf_eq_clippedCode (List.nodup_cons.1 hdistinct).2,
    clippedCode, min_eq_left hbound]

theorem codeOf_congr {s t : Signature} {places : List Place} (hdistinct : Distinct places)
    (h : ∀ p ∈ places, s.count p.component = t.count p.component) :
    codeOf s places = codeOf t places := by
  rw [codeOf_eq_clippedCode hdistinct, codeOf_eq_clippedCode hdistinct, clippedCode_congr h]

theorem codeOf_lt_space (s : Signature) {places : List Place} (hdistinct : Distinct places) :
    codeOf s places < space places := by
  rw [codeOf_eq_clippedCode hdistinct]
  exact clippedCode_lt_space s.count places

theorem count_eq_of_codeOf_eq {s t : Signature} {places : List Place}
    (hdistinct : Distinct places) (hs : ∀ p ∈ places, s.count p.component ≤ p.maximum)
    (ht : ∀ p ∈ places, t.count p.component ≤ p.maximum) (h : codeOf s places = codeOf t places) :
    ∀ p ∈ places, s.count p.component = t.count p.component := by
  induction places with
  | nil => simp
  | cons p rest ih =>
      have hsp := Nat.lt_succ_of_le (hs p (by simp))
      have htp := Nat.lt_succ_of_le (ht p (by simp))
      rw [codeOf_cons hdistinct (hs p (by simp)), codeOf_cons hdistinct (ht p (by simp))] at h
      have hdigit : s.count p.component = t.count p.component := by
        have hmod := congrArg (· % p.radix) h
        simpa [Nat.add_mul_mod_self_left, Nat.mod_eq_of_lt, hsp, htp, radix] using hmod
      have hrest : codeOf s rest = codeOf t rest := by
        rw [hdigit] at h
        exact Nat.eq_of_mul_eq_mul_left (Nat.succ_pos p.maximum) (Nat.add_left_cancel h)
      intro q hq
      rcases List.mem_cons.1 hq with rfl | hq
      · exact hdigit
      · exact ih (List.nodup_cons.1 hdistinct).2 (fun q hq => hs q (List.mem_cons_of_mem p hq))
          (fun q hq => ht q (List.mem_cons_of_mem p hq)) hrest q hq

theorem codeOf_lower_head {s : Signature} {p : Place} {rest : List Place}
    (hdistinct : Distinct (p :: rest)) (hbound : s.count p.component ≤ p.maximum)
    (hpos : 0 < s.count p.component) :
    codeOf s (p :: rest) = codeOf (s.lower p.component) (p :: rest) + 1 := by
  have hcount : (s.lower p.component).count p.component = s.count p.component - 1 := by
    rw [Signature.count_lower, if_pos rfl]
  have hrest : codeOf (s.lower p.component) rest = codeOf s rest :=
    codeOf_congr (List.nodup_cons.1 hdistinct).2 fun q hq => by
      rw [Signature.count_lower, if_neg (hdistinct.ne hq).symm]
  rw [codeOf_cons hdistinct hbound,
    codeOf_cons hdistinct (hcount.trans_le ((Nat.sub_le _ 1).trans hbound)), hcount, hrest]
  omega

theorem codeOf_lower_tail {s : Signature} {p q : Place} {rest : List Place}
    (hdistinct : Distinct (p :: rest)) (hbound : s.count p.component ≤ p.maximum)
    (hq : q ∈ rest) :
    codeOf (s.lower q.component) (p :: rest) =
      s.count p.component + p.radix * codeOf (s.lower q.component) rest := by
  have hcount : (s.lower q.component).count p.component = s.count p.component := by
    rw [Signature.count_lower, if_neg (hdistinct.ne hq)]
  rw [codeOf_cons hdistinct (hcount.trans_le hbound), hcount]

theorem digit_codeOf_cons {s : Signature} {p : Place} {rest : List Place}
    (hdistinct : Distinct (p :: rest)) (hbound : s.count p.component ≤ p.maximum)
    {remainder stride : Nat} (hremainder : remainder < stride) :
    (remainder + stride * codeOf s (p :: rest)) / stride % p.radix = s.count p.component := by
  rw [Nat.add_mul_div_left _ _ (Nat.zero_lt_of_lt hremainder), Nat.div_eq_of_lt hremainder,
    Nat.zero_add, codeOf_cons hdistinct hbound, Nat.add_mul_mod_self_left]
  exact Nat.mod_eq_of_lt (Nat.lt_succ_of_le hbound)

theorem digit_codeOf {s : Signature} {places : List Place} (hdistinct : Distinct places)
    (hbound : ∀ p ∈ places, s.count p.component ≤ p.maximum) {n : Nat} {p : Place}
    (hp : places[n]? = some p) :
    codeOf s places / space (places.take n) % p.radix = s.count p.component := by
  induction places generalizing n with
  | nil => simp at hp
  | cons first rest ih =>
      have hfirst := hbound first (by simp)
      cases n with
      | zero =>
          obtain rfl : first = p := by simpa using hp
          have hdigit := digit_codeOf_cons hdistinct hfirst Nat.zero_lt_one
          rw [Nat.zero_add, Nat.one_mul] at hdigit
          exact hdigit
      | succ n =>
          have hrest := ih (List.nodup_cons.1 hdistinct).2
            (fun q hq => hbound q (List.mem_cons_of_mem first hq)) (by simpa using hp)
          have hpos : 0 < first.radix := Nat.succ_pos first.maximum
          have hlow : s.count first.component / first.radix = 0 :=
            Nat.div_eq_of_lt (Nat.lt_succ_of_le hfirst)
          -- dividing by the radix of the first place takes its digit off
          rw [codeOf_cons hdistinct hfirst, List.take_succ_cons, space, ← Nat.div_div_eq_div_mul,
            Nat.add_mul_div_left _ _ hpos, hlow, Nat.zero_add]
          exact hrest

/-- The codes one lower at one place of a code are those of the signatures one lower at one
component; digits before these places count as a remainder. -/
theorem mem_below_iff {s : Signature} {places : List Place} (hdistinct : Distinct places)
    (hbound : ∀ p ∈ places, s.count p.component ≤ p.maximum) {remainder stride : Nat}
    (hremainder : remainder < stride) (code : Nat) :
    code ∈ below stride (remainder + stride * codeOf s places) places ↔
      ∃ p ∈ places, 0 < s.count p.component ∧
        code = remainder + stride * codeOf (s.lower p.component) places := by
  induction places generalizing remainder stride with
  | nil => simp [below]
  | cons p rest ih =>
      have hp := hbound p (by simp)
      -- behind this place its digit belongs to the remainder
      have hcarry : remainder + stride * s.count p.component < stride * p.radix := by
        calc remainder + stride * s.count p.component
            < stride + stride * s.count p.component := Nat.add_lt_add_right hremainder _
          _ = stride * (s.count p.component + 1) := by ring
          _ ≤ stride * p.radix := Nat.mul_le_mul_left _ (Nat.succ_le_succ hp)
      have hshift : remainder + stride * codeOf s (p :: rest) =
          (remainder + stride * s.count p.component) + stride * p.radix * codeOf s rest := by
        rw [codeOf_cons hdistinct hp]
        ring
      have hothers : code ∈ below (stride * p.radix)
            (remainder + stride * codeOf s (p :: rest)) rest ↔
          ∃ q ∈ rest, 0 < s.count q.component ∧
            code = remainder + stride * codeOf (s.lower q.component) (p :: rest) := by
        rw [hshift, ih (List.nodup_cons.1 hdistinct).2
          (fun q hq => hbound q (List.mem_cons_of_mem p hq)) hcarry]
        refine exists_congr fun q => and_congr_right fun hq => and_congr_right fun _ => ?_
        rw [codeOf_lower_tail hdistinct hp hq]
        ring_nf
      rw [below, digit_codeOf_cons hdistinct hp hremainder, List.exists_mem_cons_iff, ← hothers]
      by_cases hpos : 0 < s.count p.component
      · have hhere : remainder + stride * codeOf s (p :: rest) - stride =
            remainder + stride * codeOf (s.lower p.component) (p :: rest) := by
          rw [codeOf_lower_head hdistinct hp hpos, Nat.mul_succ, ← Nat.add_assoc,
            Nat.add_sub_cancel]
        rw [if_pos hpos, List.mem_cons, hhere]
        simp [hpos]
      · rw [if_neg hpos]
        simp [hpos]

end Place

namespace Layout

/-- The code of a signature within a layout. -/
def codeOf (l : Layout) (s : Signature) : Nat := Place.codeOf s l.places

theorem encode_eq_codeOf {l : Layout} {s : Signature} (hs : s.StaysWithin l.places) :
    l.encode s = .ok (l.codeOf s) := by
  have hlisted : s.components.all l.lists = true := by
    refine List.all_eq_true.2 fun c hc => ?_
    obtain ⟨p, hp, heq⟩ := hs.listed c (Signature.mem_components.1 hc)
    exact List.any_eq_true.2 ⟨p, hp, decide_eq_true heq⟩
  exact if_pos hlisted

theorem codeOf_lt_space {l : Layout} (hdistinct : Place.Distinct l.places) (s : Signature) :
    l.codeOf s < l.space := Place.codeOf_lt_space s hdistinct

theorem digit_codeOf {l : Layout} (hdistinct : Place.Distinct l.places) {s : Signature}
    (hs : s.StaysWithin l.places) {n : Nat} {p : Place} (hp : l.places[n]? = some p) :
    l.digit (l.codeOf s) n = s.count p.component := by
  unfold digit
  rw [hp]
  exact Place.digit_codeOf hdistinct hs.bounded hp

theorem codeOf_inj {l : Layout} (hdistinct : Place.Distinct l.places) {a b : Signature}
    (ha : a.StaysWithin l.places) (hb : b.StaysWithin l.places) (h : l.codeOf a = l.codeOf b) :
    a = b := by
  have hplaces := Place.count_eq_of_codeOf_eq hdistinct ha.bounded hb.bounded h
  refine Signature.ext_count fun c => ?_
  by_cases hc : 0 < a.count c ∨ 0 < b.count c
  · obtain ⟨p, hp, rfl⟩ := hc.elim (ha.listed c) (hb.listed c)
    exact hplaces p hp
  · omega

theorem mem_below_codeOf {l : Layout} (hdistinct : Place.Distinct l.places) {s : Signature}
    (hs : s.StaysWithin l.places) (code : Nat) :
    code ∈ l.descent.below (l.codeOf s) ↔
      ∃ t ∈ Signature.descent.below s, l.codeOf t = code := by
  have hbelow := Place.mem_below_iff hdistinct hs.bounded Nat.zero_lt_one code
  simp only [Nat.zero_add, Nat.one_mul] at hbelow
  refine hbelow.trans ⟨?_, ?_⟩
  · rintro ⟨p, hp, hpos, rfl⟩
    exact ⟨s.lower p.component, Signature.mem_below.2 ⟨p.component, hpos, rfl⟩, rfl⟩
  · rintro ⟨t, ht, rfl⟩
    obtain ⟨c, hpos, rfl⟩ := Signature.mem_below.1 ht
    obtain ⟨p, hp, rfl⟩ := hs.listed c hpos
    exact ⟨p, hp, hpos, rfl⟩

theorem below_staysWithin {s t : Signature} {places : List Place} (hs : s.StaysWithin places)
    (ht : t ∈ Signature.descent.below s) : t.StaysWithin places :=
  hs.of_le (Signature.le_iff.1 (Signature.descent_le_iff.1 (Descent.Le.of_mem_below ht)))

end Layout

end Loadout
