import Loadout.Proofs.CodedMaps
import Loadout.Proofs.GuardedCodes
import Mathlib.Data.Set.Function

/-!
# Decoded signatures

The digits of a code are the numbers of a signature, so every code that a layout has room for is the
code of exactly one signature within the layout.  Taking a positive digit down by one takes the
stride of its place off the code.
-/

namespace Loadout

/-- The signature with another number of a component. -/
def Signature.put (s : Signature) : Component → Nat → Signature
  | .skill id, n => { s with levels := s.levels.set id n }
  | .bonus id, n => { s with pieces := s.pieces.set id n }

theorem Signature.count_put (s : Signature) (c j : Component) (n : Nat) :
    (s.put c n).count j = if j = c then n else s.count j := by
  cases c <;> cases j <;> simp [put, count, Tally.count_set]

namespace Place

/-- The signature of a code, whose digits are the numbers of the components. -/
def decode : List Place → Nat → Signature
  | [], _ => ∅
  | p :: rest, code => (decode rest (code / p.radix)).put p.component (code % p.radix)

variable {places : List Place}

theorem space_ofMaxima (skills : List (SkillId × Nat)) (bonuses : List (BonusId × Nat)) :
    space (ofMaxima skills bonuses) =
      (skills.map (·.2 + 1)).prod * (bonuses.map (·.2 + 1)).prod := by
  rw [space_eq_prod, ofMaxima, List.map_append, List.map_map, List.map_map, List.prod_append]
  rfl

theorem count_decode_head (p : Place) (rest : List Place) (code : Nat) :
    (decode (p :: rest) code).count p.component = code % p.radix := by
  rw [decode, Signature.count_put, if_pos rfl]

theorem count_decode_tail {p q : Place} {rest : List Place} (hdistinct : Distinct (p :: rest))
    (hq : q ∈ rest) (code : Nat) :
    (decode (p :: rest) code).count q.component =
      (decode rest (code / p.radix)).count q.component := by
  rw [decode, Signature.count_put, if_neg (hdistinct.ne hq).symm]

theorem decode_staysWithin (hdistinct : Distinct places) (code : Nat) :
    (decode places code).StaysWithin places := by
  induction places generalizing code with
  | nil =>
      refine ⟨fun c hc => ?_, fun p hp => absurd hp List.not_mem_nil⟩
      cases c <;> cases hc
  | cons p rest ih =>
      have hrest := ih (List.nodup_cons.1 hdistinct).2 (code / p.radix)
      constructor
      · intro c hc
        rw [decode, Signature.count_put] at hc
        split at hc
        next heq => exact ⟨p, List.mem_cons_self, heq.symm⟩
        next =>
          obtain ⟨q, hq, hkey⟩ := hrest.listed c hc
          exact ⟨q, List.mem_cons_of_mem p hq, hkey⟩
      · intro q hq
        rcases List.mem_cons.1 hq with rfl | hq
        · rw [count_decode_head]
          exact Nat.le_of_lt_succ (Nat.mod_lt _ (Nat.succ_pos _))
        · rw [count_decode_tail hdistinct hq]
          exact hrest.bounded q hq

theorem codeOf_decode (hdistinct : Distinct places) {code : Nat} (hcode : code < space places) :
    codeOf (decode places code) places = code := by
  induction places generalizing code with
  | nil => exact (Nat.lt_one_iff.1 hcode).symm
  | cons p rest ih =>
      have hquotient : code / p.radix < space rest := Nat.div_lt_of_lt_mul hcode
      have hbound := (decode_staysWithin hdistinct code).bounded p List.mem_cons_self
      have htail : codeOf (decode (p :: rest) code) rest =
          codeOf (decode rest (code / p.radix)) rest :=
        codeOf_congr (List.nodup_cons.1 hdistinct).2 fun q hq => count_decode_tail hdistinct hq code
      rw [codeOf_cons hdistinct hbound, count_decode_head, htail,
        ih (List.nodup_cons.1 hdistinct).2 hquotient, Nat.mod_add_div]

/-- Lowering a component that is there takes the stride of its place off the code. -/
theorem codeOf_lower {s : Signature} (hdistinct : Distinct places)
    (hbound : ∀ p ∈ places, s.count p.component ≤ p.maximum) {n : Nat} {p : Place}
    (hp : places[n]? = some p) (hpos : 0 < s.count p.component) :
    codeOf s places = codeOf (s.lower p.component) places + space (places.take n) := by
  induction places generalizing n with
  | nil => simp at hp
  | cons first rest ih =>
      obtain ⟨hfirst, hrest⟩ := List.forall_mem_cons.1 hbound
      cases n with
      | zero =>
          obtain rfl : first = p := by simpa using hp
          exact codeOf_lower_head hdistinct hfirst hpos
      | succ n =>
          have hmem : p ∈ rest := List.mem_of_getElem? (by simpa using hp)
          have htail := ih (List.nodup_cons.1 hdistinct).2 hrest (by simpa using hp)
          rw [codeOf_cons hdistinct hfirst, codeOf_lower_tail hdistinct hfirst hmem, htail,
            List.take_succ_cons, space]
          ring

end Place

namespace Layout

variable {skills : List (SkillId × Nat)} {bonuses : List (BonusId × Nat)} {l : Layout}

theorem bijOn_codeOf (hdistinct : Place.Distinct l.places) :
    Set.BijOn l.codeOf {s | s.StaysWithin l.places} {code | code < l.space} := by
  refine ⟨?_, ?_, ?_⟩
  · exact fun s _ => codeOf_lt_space hdistinct s
  · exact fun s hs s' hs' heq => codeOf_inj hdistinct hs hs' heq
  · exact fun code hcode => ⟨Place.decode l.places code,
      Place.decode_staysWithin hdistinct code, Place.codeOf_decode hdistinct hcode⟩

/-- Whether the codes of a layout stand for the signatures that have listed skills and set bonuses
only, of none more than its maximum. -/
structure CodesSignatures (l : Layout) (skills : List (SkillId × Nat))
    (bonuses : List (BonusId × Nat)) : Prop where
  places : l.places = Place.ofMaxima skills bonuses
  space : l.space = (skills.map (·.2 + 1)).prod * (bonuses.map (·.2 + 1)).prod
  /-- No guard is struck on the way to a code. -/
  guarded : ∀ s, l.guardedEncode s = l.encode s
  encoded : ∀ s : Signature, s.UsesOnly skills bonuses → l.encode s = .ok (l.codeOf s)
  bijective : Set.BijOn l.codeOf {s | s.UsesOnly skills bonuses} {code | code < l.space}
  digit : ∀ s : Signature, s.UsesOnly skills bonuses → ∀ {n p}, l.places[n]? = some p →
    0 < l.stride n ∧ l.digit (l.codeOf s) n = s.count p.component
  lowered : ∀ s : Signature, s.UsesOnly skills bonuses → ∀ {n p}, l.places[n]? = some p →
    0 < l.digit (l.codeOf s) n → l.stride n ≤ l.codeOf s ∧
      l.encode (s.lower p.component) = .ok (l.codeOf s - l.stride n)

theorem codesSignatures_of_ofMaxima? (hl : ofMaxima? skills bonuses = some l)
    (hskills : (skills.map (·.1)).Nodup) (hbonuses : (bonuses.map (·.1)).Nodup) :
    l.CodesSignatures skills bonuses := by
  have hdistinct := distinct_of_ofMaxima? hl hskills hbonuses
  have hplaces := places_of_ofMaxima? hl
  have hwithin : ∀ s : Signature, s.UsesOnly skills bonuses ↔ s.StaysWithin l.places := fun s =>
    ⟨staysWithin_of_usesOnly hl hskills hbonuses, usesOnly_of_staysWithin hl⟩
  constructor <;> try simp only [hwithin]
  case places => exact hplaces
  case space => rw [Layout.space, hplaces, Place.space_ofMaxima]
  case guarded => exact guardedEncode_eq_encode hdistinct
  case encoded => exact fun s hs => encode_eq_codeOf hs
  case bijective => exact bijOn_codeOf hdistinct
  case digit => exact fun s hs n p hp => ⟨Place.space_pos _, digit_codeOf hdistinct hs hp⟩
  case lowered =>
    intro s hs n p hp hpos
    rw [digit_codeOf hdistinct hs hp] at hpos
    have hcode : l.codeOf s = l.codeOf (s.lower p.component) + l.stride n :=
      Place.codeOf_lower hdistinct hs.bounded hp hpos
    have hlower : (s.lower p.component).StaysWithin l.places :=
      below_staysWithin hs (Signature.mem_below.2 ⟨p.component, hpos, rfl⟩)
    refine ⟨by omega, ?_⟩
    rw [encode_eq_codeOf hlower, hcode, Nat.add_sub_cancel]

/-- Different skills and set bonuses with maxima have no layout exactly if the product of all
radices does not fit into 128 bits, and laying them out place by place comes to the same.  The codes
of a layout stand for the signatures within it, one for each. -/
theorem ofMaxima?_codes_signatures (hskills : (skills.map (·.1)).Nodup)
    (hbonuses : (bonuses.map (·.1)).Nodup) :
    (ofMaxima? skills bonuses = none ↔
        2 ^ 128 - 1 < (skills.map (·.2 + 1)).prod * (bonuses.map (·.2 + 1)).prod) ∧
      Extent.ofPlaces? (Place.ofMaxima skills bonuses) =
        (ofMaxima? skills bonuses).map extent ∧
      ∀ l, ofMaxima? skills bonuses = some l → l.CodesSignatures skills bonuses := by
  refine ⟨?_, extent_ofPlaces? _, fun l hl => codesSignatures_of_ofMaxima? hl hskills hbonuses⟩
  rw [← Place.space_ofMaxima]
  exact ofPlaces?_eq_none_iff

/-- One skill of at most two levels and one set bonus of at most one piece. -/
def pairLayout : Layout := ⟨[⟨.skill ⟨0⟩, 2⟩, ⟨.bonus ⟨0⟩, 1⟩], by decide⟩

def fullSignature : Signature := ⟨.ofList [(⟨0⟩, 2)], .ofList [(⟨0⟩, 1)]⟩

/-- The largest of six signatures, and the one with a level less. -/
theorem ofMaxima?_codes_signatures_full :
    ofMaxima? [(⟨0⟩, 2)] [(⟨0⟩, 1)] = some pairLayout ∧ pairLayout.space = 6 ∧
      fullSignature.UsesOnly [(⟨0⟩, 2)] [(⟨0⟩, 1)] ∧
      pairLayout.guardedEncode fullSignature = .ok 5 ∧
      pairLayout.digit 5 0 = fullSignature.count (.skill ⟨0⟩) ∧ 0 < pairLayout.digit 5 0 ∧
      pairLayout.encode (fullSignature.lower (.skill ⟨0⟩)) = .ok 4 := by
  have hl : ofMaxima? [(⟨0⟩, 2)] [(⟨0⟩, 1)] = some pairLayout := rfl
  have hfull : fullSignature.UsesOnly [(⟨0⟩, 2)] [(⟨0⟩, 1)] := by decide +kernel
  have hcode : pairLayout.codeOf fullSignature = 5 := by decide +kernel
  have hpos : 0 < pairLayout.digit 5 0 := by decide
  have hskill : pairLayout.places[0]? = some ⟨.skill ⟨0⟩, 2⟩ := rfl
  obtain ⟨-, -, hcodes⟩ := @ofMaxima?_codes_signatures [(⟨0⟩, 2)] [(⟨0⟩, 1)] (by decide) (by decide)
  have h := hcodes _ hl
  have hencode := (h.guarded fullSignature).trans (h.encoded fullSignature hfull)
  obtain ⟨-, hdigit⟩ := h.digit fullSignature hfull hskill
  have hlowered := h.lowered fullSignature hfull hskill
  rw [hcode] at hencode hdigit hlowered
  exact ⟨hl, h.space, hfull, hencode, hdigit, hpos, (hlowered hpos).2⟩

end Layout

end Loadout
