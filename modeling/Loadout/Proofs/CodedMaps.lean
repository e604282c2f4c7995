import Loadout.Proofs.SeenCodes
import Loadout.Proofs.SignatureCodes
import Loadout.Proofs.SuccessfulRun

/-!
# Working by codes

A map that works by codes gives the same answers as one that works by signatures, although it takes
the keys below a key in another order.  What a seen map answers depends only on which key lies below
which, so it is enough that the codes mirror the signatures in this respect.
-/

namespace Loadout

/-- Whether a function takes what lies one unit below a key of a domain to what lies one unit below
its value, and different keys to different ones. -/
structure Descent.Mirrors {κ κ' : Type} (d : Descent κ) (d' : Descent κ') (domain : κ → Prop)
    (f : κ → κ') : Prop where
  domain_below : ∀ {k c}, domain k → c ∈ d.below k → domain c
  mem_below_iff : ∀ {k}, domain k → ∀ c, c ∈ d'.below (f k) ↔ ∃ x ∈ d.below k, f x = c
  injective : ∀ {a b}, domain a → domain b → f a = f b → a = b

namespace Descent.Mirrors

variable {κ κ' : Type} {d : Descent κ} {d' : Descent κ'} {domain : κ → Prop} {f : κ → κ'}

theorem domain_of_le (h : d.Mirrors d' domain f) {a b : κ} (hle : d.Le a b) (hb : domain b) :
    domain a := by
  induction hle using Relation.ReflTransGen.head_induction_on with
  | refl => exact hb
  | head hbelow _ ih => exact h.domain_below ih hbelow

theorem le_value_iff (h : d.Mirrors d' domain f) {k : κ} (hk : domain k) (y : κ') :
    d'.Le y (f k) ↔ ∃ x, d.Le x k ∧ f x = y := by
  constructor
  · intro hle
    induction hle using Relation.ReflTransGen.head_induction_on with
    | refl => exact ⟨k, Descent.Le.refl d k, rfl⟩
    | head hbelow _ ih =>
        obtain ⟨x, hx, rfl⟩ := ih
        obtain ⟨z, hz, rfl⟩ := (h.mem_below_iff (h.domain_of_le hx hk) _).1 hbelow
        exact ⟨z, (Descent.Le.of_mem_below hz).trans hx, rfl⟩
  · rintro ⟨x, hle, rfl⟩
    induction hle using Relation.ReflTransGen.head_induction_on with
    | refl => exact Descent.Le.refl d' (f k)
    | @head z x hbelow hx ih =>
        have hvalue := (h.mem_below_iff (h.domain_of_le hx hk) (f z)).2 ⟨z, hbelow, rfl⟩
        exact (Descent.Le.of_mem_below hvalue).trans ih

theorem le_iff (h : d.Mirrors d' domain f) {a b : κ} (ha : domain a) (hb : domain b) :
    d'.Le (f a) (f b) ↔ d.Le a b := by
  rw [h.le_value_iff hb]
  constructor
  · rintro ⟨x, hx, heq⟩
    exact h.injective (h.domain_of_le hx hb) ha heq ▸ hx
  · exact fun hle => ⟨a, hle, rfl⟩

end Descent.Mirrors

theorem largest_map {κ κ' α : Type} [DecidableEq κ] [DecidableEq κ'] {le : κ → κ → Prop}
    {le' : κ' → κ' → Prop} [DecidableRel le] [DecidableRel le'] {f : κ → κ'}
    {offers : List (κ × α)} (hle : ∀ e ∈ offers, ∀ g ∈ offers, le' (f e.1) (f g.1) ↔ le e.1 g.1)
    (hf : ∀ e ∈ offers, ∀ g ∈ offers, f e.1 = f g.1 → e.1 = g.1) :
    largest le' (offers.map (Prod.map f id)) = (largest le offers).map (Prod.map f id) := by
  have heq : ∀ e ∈ offers, ∀ g ∈ offers, f e.1 = f g.1 ↔ e.1 = g.1 := fun e he g hg =>
    ⟨hf e he g hg, congrArg f⟩
  unfold largest
  rw [List.zipIdx_map, List.filter_map, List.map_map, List.map_map]
  have hfilter : (offers.zipIdx.filter ((fun e => decide (IsLargest le'
      (offers.map (Prod.map f id)) e)) ∘ Prod.map (Prod.map f id) id)) =
      offers.zipIdx.filter fun e => decide (IsLargest le offers e) := by
    refine List.filter_congr fun e he => ?_
    have hmem : e.1 ∈ offers := List.fst_mem_of_mem_zipIdx he
    have hlargest : IsLargest le' (offers.map (Prod.map f id)) (Prod.map (Prod.map f id) id e) ↔
        IsLargest le offers e := by
      unfold IsLargest
      rw [List.forall_mem_map, ← List.map_take, List.forall_mem_map]
      refine and_congr (forall₂_congr fun g hg => ?_) (forall₂_congr fun g hg => ?_)
      · exact not_congr (and_congr (hle _ hmem g hg) (not_congr (heq _ hmem g hg)))
      · exact not_congr (heq g (List.mem_of_mem_take hg) _ hmem)
    simp only [Function.comp_apply, hlargest]
  rw [hfilter]
  rfl

namespace SeenMap

variable {κ κ' σ σ' α : Type}
variable [BEq κ] [LawfulBEq κ] [Hashable κ] [DecidableEq κ] [SeenSet σ κ]
variable [BEq κ'] [LawfulBEq κ'] [Hashable κ'] [DecidableEq κ'] [SeenSet σ' κ']

/-- Maps over keys that mirror each other give the same answers. -/
theorem answers_of_mirrors {d : Descent κ} {d' : Descent κ'} {domain : κ → Prop} {f : κ → κ'}
    (hf : d.Mirrors d' domain f) (H : Holding d σ) (H' : Holding d' σ') {s : σ} {s' : σ'}
    (hs : H.Holds s ∅) (hs' : H'.Holds s' ∅) {offers : List (κ × α)}
    (hoffers : ∀ e ∈ offers, domain e.1) (hdomain : ∀ e ∈ offers, H.domain e.1)
    (hdomain' : ∀ e ∈ offers, H'.domain (f e.1)) :
    (addAll d' (ofSeen s') (offers.map (Prod.map f id))).payloads =
        (addAll d (ofSeen s) offers).payloads ∧
      (addAll d' (ofSeen s') (offers.map (Prod.map f id))).size =
        (addAll d (ofSeen s) offers).size ∧
      (addAll d' (ofSeen s') (offers.map (Prod.map f id))).reach =
        (addAll d (ofSeen s) offers).reach := by
  classical
  obtain ⟨hpayloads, hsize, -, -, hreach⟩ := answers_addAll hs offers hdomain
  obtain ⟨hpayloads', hsize', -, -, hreach'⟩ :=
    answers_addAll hs' (offers.map (Prod.map f id)) (List.forall_mem_map.2 hdomain')
  have hlargest : largest d'.Le (offers.map (Prod.map f id)) =
      (largest d.Le offers).map (Prod.map f id) :=
    largest_map (fun e he g hg => hf.le_iff (hoffers e he) (hoffers g hg))
      fun e he g hg => hf.injective (hoffers e he) (hoffers g hg)
  have hvalues : {y | ∃ e ∈ offers.map (Prod.map f id), d'.Le y e.1} =
      f '' {x | ∃ e ∈ offers, d.Le x e.1} := by
    ext y
    constructor
    · rintro ⟨_, hmem, hle⟩
      obtain ⟨e, he, rfl⟩ := List.mem_map.1 hmem
      obtain ⟨x, hx, heq⟩ := (hf.le_value_iff (hoffers e he) y).1 hle
      exact ⟨x, ⟨e, he, hx⟩, heq⟩
    · rintro ⟨x, ⟨e, he, hx⟩, heq⟩
      exact ⟨_, List.mem_map_of_mem he, (hf.le_value_iff (hoffers e he) y).2 ⟨x, hx, heq⟩⟩
  have hinjective : Set.InjOn f {x | ∃ e ∈ offers, d.Le x e.1} := by
    rintro a ⟨e, he, ha⟩ b ⟨g, hg, hb⟩
    exact hf.injective (hf.domain_of_le ha (hoffers e he)) (hf.domain_of_le hb (hoffers g hg))
  refine ⟨?_, ?_, ?_⟩
  · rw [hpayloads', hpayloads, hlargest, List.map_map]
    rfl
  · rw [hsize', hsize, hlargest, List.length_map]
  · rw [hreach', hreach, hvalues, hinjective.ncard_image]

end SeenMap

/-- The codes of a layout mirror the signatures that stay within it. -/
theorem Layout.mirrors {l : Layout} (hdistinct : Place.Distinct l.places) :
    Signature.descent.Mirrors l.descent (·.StaysWithin l.places) l.codeOf where
  domain_below := below_staysWithin
  mem_below_iff := mem_below_codeOf hdistinct
  injective := codeOf_inj hdistinct

/-- Whether a signature has listed skills and set bonuses only, of none more than its maximum. -/
def Signature.UsesOnly (s : Signature) (skills : List (SkillId × Nat))
    (bonuses : List (BonusId × Nat)) : Prop :=
  (∀ e ∈ s.levels.toList, ∃ p ∈ skills, p.1 = e.1 ∧ e.2 ≤ p.2) ∧
    ∀ e ∈ s.pieces.toList, ∃ p ∈ bonuses, p.1 = e.1 ∧ e.2 ≤ p.2

instance (s : Signature) (skills : List (SkillId × Nat)) (bonuses : List (BonusId × Nat)) :
    Decidable (s.UsesOnly skills bonuses) := inferInstanceAs (Decidable (_ ∧ _))

theorem Tally.count_le_of_listed {κ : Type} [Ord κ] [Std.LawfulEqOrd κ] {t : Tally κ}
    {maxima : List (κ × Nat)} (hdistinct : (maxima.map (·.1)).Nodup)
    (ht : ∀ e ∈ t.toList, ∃ p ∈ maxima, p.1 = e.1 ∧ e.2 ≤ p.2) {p : κ × Nat} (hp : p ∈ maxima) :
    t.count p.1 ≤ p.2 := by
  rcases Nat.eq_zero_or_pos (t.count p.1) with hzero | hpos
  · exact hzero.trans_le (Nat.zero_le p.2)
  · obtain ⟨q, hq, hkey, hle⟩ := ht (p.1, t.count p.1) (mem_toList_iff.2 ⟨rfl, hpos⟩)
    exact List.inj_on_of_nodup_map hdistinct hq hp hkey ▸ hle

namespace Place

/-- The places of skills and set bonuses with their maxima, in the order of a layout. -/
def ofMaxima (skills : List (SkillId × Nat)) (bonuses : List (BonusId × Nat)) : List Place :=
  skills.map (fun e => ⟨.skill e.1, e.2⟩) ++ bonuses.map fun e => ⟨.bonus e.1, e.2⟩

variable {skills : List (SkillId × Nat)} {bonuses : List (BonusId × Nat)}

theorem skill_mem_ofMaxima {id : SkillId} {n : Nat} :
    ⟨.skill id, n⟩ ∈ ofMaxima skills bonuses ↔ (id, n) ∈ skills := by
  simp [ofMaxima]

theorem bonus_mem_ofMaxima {id : BonusId} {n : Nat} :
    ⟨.bonus id, n⟩ ∈ ofMaxima skills bonuses ↔ (id, n) ∈ bonuses := by
  simp [ofMaxima]

theorem distinct_ofMaxima (hskills : (skills.map (·.1)).Nodup)
    (hbonuses : (bonuses.map (·.1)).Nodup) : Distinct (ofMaxima skills bonuses) := by
  have hnodup := Component.nodup_append hskills hbonuses
  rw [List.map_map, List.map_map] at hnodup
  rw [Distinct, ofMaxima, List.map_append, List.map_map, List.map_map]
  exact hnodup

end Place

namespace Layout

variable {skills : List (SkillId × Nat)} {bonuses : List (BonusId × Nat)} {l : Layout}

theorem places_of_ofMaxima? (hl : ofMaxima? skills bonuses = some l) :
    l.places = Place.ofMaxima skills bonuses := by
  unfold ofMaxima? ofPlaces? at hl
  split at hl
  next => exact (Option.some.inj hl) ▸ rfl
  next => cases hl

theorem distinct_of_ofMaxima? (hl : ofMaxima? skills bonuses = some l)
    (hskills : (skills.map (·.1)).Nodup) (hbonuses : (bonuses.map (·.1)).Nodup) :
    Place.Distinct l.places := by
  rw [places_of_ofMaxima? hl]
  exact Place.distinct_ofMaxima hskills hbonuses

theorem staysWithin_of_usesOnly (hl : ofMaxima? skills bonuses = some l)
    (hskills : (skills.map (·.1)).Nodup) (hbonuses : (bonuses.map (·.1)).Nodup) {s : Signature}
    (hs : s.UsesOnly skills bonuses) : s.StaysWithin l.places := by
  rw [places_of_ofMaxima? hl]
  constructor
  · rintro (id | id) hc
    · obtain ⟨e, he, rfl, -⟩ := hs.1 _ (Tally.mem_toList_iff.2 ⟨rfl, hc⟩)
      exact ⟨_, Place.skill_mem_ofMaxima.2 he, rfl⟩
    · obtain ⟨e, he, rfl, -⟩ := hs.2 _ (Tally.mem_toList_iff.2 ⟨rfl, hc⟩)
      exact ⟨_, Place.bonus_mem_ofMaxima.2 he, rfl⟩
  · rintro ⟨id | id, n⟩ hp
    · exact Tally.count_le_of_listed hskills hs.1 (Place.skill_mem_ofMaxima.1 hp)
    · exact Tally.count_le_of_listed hbonuses hs.2 (Place.bonus_mem_ofMaxima.1 hp)

theorem usesOnly_of_staysWithin (hl : ofMaxima? skills bonuses = some l) {s : Signature}
    (hs : s.StaysWithin l.places) : s.UsesOnly skills bonuses := by
  rw [places_of_ofMaxima? hl] at hs
  constructor
  · rintro ⟨id, n⟩ he
    obtain ⟨rfl, hpos⟩ := Tally.mem_toList_iff.1 he
    obtain ⟨⟨_, m⟩, hp, rfl⟩ := hs.listed (.skill id) hpos
    exact ⟨(id, m), Place.skill_mem_ofMaxima.1 hp, rfl, hs.bounded _ hp⟩
  · rintro ⟨id, n⟩ he
    obtain ⟨rfl, hpos⟩ := Tally.mem_toList_iff.1 he
    obtain ⟨⟨_, m⟩, hp, rfl⟩ := hs.listed (.bonus id) hpos
    exact ⟨(id, m), Place.bonus_mem_ofMaxima.1 hp, rfl, hs.bounded _ hp⟩

end Layout

namespace CodeMap

variable {α : Type}

theorem foldlM_offer_eq {l : Layout} (offers : List (Signature × α))
    (hoffers : ∀ e ∈ offers, e.1.StaysWithin l.places) (m : CodeMap α) :
    offers.foldlM (fun m e => offer l m e.1 e.2) m =
      .ok (SeenMap.addAll l.descent m (offers.map (Prod.map l.codeOf id))) := by
  induction offers generalizing m with
  | nil => rfl
  | cons e rest ih =>
      have hoffer : offer l m e.1 e.2 = .ok (m.add l.descent (l.codeOf e.1) e.2) :=
        SuccessfulRun.bind_eq_ok_iff.2
          ⟨l.codeOf e.1, Layout.encode_eq_codeOf (hoffers e (by simp)), rfl⟩
      rw [List.foldlM_cons, SuccessfulRun.bind_eq_ok_iff]
      exact ⟨_, hoffer, ih (fun g hg => hoffers g (List.mem_cons_of_mem e hg)) _⟩

theorem answers_of_staysWithin {l : Layout} (hdistinct : Place.Distinct l.places)
    {offers : List (Signature × α)} (hoffers : ∀ e ∈ offers, e.1.StaysWithin l.places) :
    ∃ m, ofOffers l offers = .ok m ∧
      m.payloads = (SignatureMap.ofOffers offers).payloads ∧
      m.size = (SignatureMap.ofOffers offers).size ∧
      m.reach = (SignatureMap.ofOffers offers).reach :=
  ⟨_, foldlM_offer_eq offers hoffers _,
    SeenMap.answers_of_mirrors (Layout.mirrors hdistinct) (.ofHashSet Signature.descent)
      (.ofLayout l) hashSetHolds_empty (SeenCodes.holds_ofSpace l.space) hoffers
      (fun _ _ => trivial) fun e _ => Layout.codeOf_lt_space hdistinct e.1⟩

/-- A map by codes takes every offer within its layout, and after any of the offers it answers like
the map by signatures, however many codes there are. -/
theorem ofOffers_agrees_with_signatures {skills : List (SkillId × Nat)}
    {bonuses : List (BonusId × Nat)} {l : Layout} (hl : Layout.ofMaxima? skills bonuses = some l)
    (hskills : (skills.map (·.1)).Nodup) (hbonuses : (bonuses.map (·.1)).Nodup)
    {offers : List (Signature × α)} (hoffers : ∀ e ∈ offers, e.1.UsesOnly skills bonuses)
    (n : Nat) :
    ∃ m, ofOffers l (offers.take n) = .ok m ∧
      m.payloads = (SignatureMap.ofOffers (offers.take n)).payloads ∧
      m.size = (SignatureMap.ofOffers (offers.take n)).size ∧
      m.reach = (SignatureMap.ofOffers (offers.take n)).reach :=
  answers_of_staysWithin (Layout.distinct_of_ofMaxima? hl hskills hbonuses) fun e he =>
    Layout.staysWithin_of_usesOnly hl hskills hbonuses (hoffers e (List.mem_of_mem_take he))

def twoOffers : List (Signature × String) :=
  [(⟨.ofList [(⟨0⟩, 1)], ∅⟩, "low"), (⟨.ofList [(⟨0⟩, 2)], .ofList [(⟨0⟩, 1)]⟩, "high")]

theorem ofOffers_agrees_with_signatures_twoOffers :
    (∀ e ∈ twoOffers, e.1.UsesOnly [(⟨0⟩, 2)] [(⟨0⟩, 1)]) ∧
      ∃ l m, Layout.ofMaxima? [(⟨0⟩, 2)] [(⟨0⟩, 1)] = some l ∧
        ofOffers l twoOffers = .ok m ∧
        m.payloads = (SignatureMap.ofOffers twoOffers).payloads ∧
        m.size = (SignatureMap.ofOffers twoOffers).size ∧
        m.reach = (SignatureMap.ofOffers twoOffers).reach := by
  have hl : Layout.ofMaxima? [(⟨0⟩, 2)] [(⟨0⟩, 1)] =
      some ⟨[⟨.skill ⟨0⟩, 2⟩, ⟨.bonus ⟨0⟩, 1⟩], by decide⟩ := rfl
  have hoffers : ∀ e ∈ twoOffers, e.1.UsesOnly [(⟨0⟩, 2)] [(⟨0⟩, 1)] := by decide +kernel
  obtain ⟨m, hm, hanswers⟩ :=
    ofOffers_agrees_with_signatures hl (by decide) (by decide) hoffers 2
  exact ⟨hoffers, _, m, hl, hm, hanswers⟩

end CodeMap

end Loadout
