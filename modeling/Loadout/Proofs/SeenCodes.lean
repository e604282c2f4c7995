import Loadout.Proofs.SeenMapRegistration
import Loadout.Signature.Layout
import Mathlib.Data.Nat.Bitwise

/-!
# Sets of codes

The codes of a layout are held either as bits in words or in a hash set.  Both hold exactly the
codes that have been put in, as long as these lie within the space of the layout, and both know how
many there are.
-/

namespace Loadout

namespace SeenCodes

theorem toNat_bit (code : Nat) : (bit code).toNat = 2 ^ (code % wordBits) := by
  have hlt : code % 64 < 64 := Nat.mod_lt code (by decide)
  have hpow : 2 ^ (code % 64) < 2 ^ 64 := Nat.pow_lt_pow_right (by decide) hlt
  have hmod : code % 64 % 18446744073709551616 = code % 64 :=
    Nat.mod_eq_of_lt (hlt.trans (by decide))
  simp only [bit, wordBits, UInt64.toNat_shiftLeft, UInt64.toNat_ofNat', UInt64.toNat_one,
    Nat.shiftLeft_eq, Nat.one_mul, hmod, Nat.mod_mod]
  exact Nat.mod_eq_of_lt hpow

theorem isSet_eq_testBit (words : Array UInt64) (code : Nat) :
    isSet words code = (words.getD (code / wordBits) 0).toNat.testBit (code % wordBits) := by
  have hzero : ∀ w : UInt64, (w &&& bit code != 0) = w.toNat.testBit (code % wordBits) := by
    intro w
    rw [Bool.eq_iff_iff, bne_iff_ne, ne_eq, ← UInt64.toNat_inj, UInt64.toNat_and, toNat_bit,
      Nat.and_two_pow]
    cases w.toNat.testBit (code % wordBits) <;> simp
  exact hzero _

theorem toNat_or_bit_testBit (w : UInt64) (code position : Nat) :
    (w ||| bit code).toNat.testBit position =
      (w.toNat.testBit position || decide (code % wordBits = position)) := by
  rw [UInt64.toNat_or, toNat_bit, Nat.testBit_or, Nat.testBit_two_pow]

theorem isSet_modify {words : Array UInt64} {code : Nat} (hstored : code / wordBits < words.size)
    (other : Nat) :
    isSet (words.modify (code / wordBits) (· ||| bit code)) other =
      (isSet words other || decide (other = code)) := by
  rw [isSet_eq_testBit, isSet_eq_testBit]
  by_cases hword : other / wordBits = code / wordBits
  · have hget : (words.modify (code / wordBits) (· ||| bit code)).getD (other / wordBits) 0 =
        words.getD (other / wordBits) 0 ||| bit code := by
      simp [Array.getD, hword, hstored, Array.getElem_modify]
    have hsame : code % wordBits = other % wordBits ↔ other = code := by
      unfold wordBits at hword ⊢
      omega
    rw [hget, toNat_or_bit_testBit]
    simp only [hsame]
  · have hget : (words.modify (code / wordBits) (· ||| bit code)).getD (other / wordBits) 0 =
        words.getD (other / wordBits) 0 := by
      simp [Array.getD, Array.getElem_modify, Ne.symm hword]
    have hne : other ≠ code := fun heq => hword (by rw [heq])
    rw [hget, decide_eq_false hne, Bool.or_false]

/-- Whether a set of codes holds exactly the given ones among those below a bound. -/
def Holds (space : Nat) : SeenCodes → Finset Nat → Prop
  | dense words count, codes =>
      space ≤ words.size * wordBits ∧ count = codes.card ∧
        ∀ code < space, isSet words code = true ↔ code ∈ codes
  | sparse held, codes => HashSetHolds held codes

theorem holds_ofSpace (space : Nat) : Holds space (ofSpace space) ∅ := by
  unfold ofSpace
  split
  · refine ⟨?_, rfl, fun code _ => ?_⟩
    · rw [Array.size_replicate]
      unfold wordBits
      omega
    · rw [isSet_eq_testBit]
      simp [Array.getD]
  · exact hashSetHolds_empty

theorem Holds.contains_iff {space : Nat} {held : SeenCodes} {codes : Finset Nat}
    (h : Holds space held codes) {code : Nat} (hcode : code < space) :
    held.contains code = true ↔ code ∈ codes := by
  cases held with
  | dense words count => exact h.2.2 code hcode
  | sparse held => exact h.1 code

theorem Holds.insert {space : Nat} {held : SeenCodes} {codes : Finset Nat}
    (h : Holds space held codes) {code : Nat} (hcode : code < space) (hnew : code ∉ codes) :
    Holds space (held.insert code) (Insert.insert code codes) := by
  cases held with
  | dense words count =>
      obtain ⟨hsize, hcount, hset⟩ := h
      have hclear : ¬ isSet words code = true := fun hbit => hnew ((hset code hcode).1 hbit)
      have hstored : code / wordBits < words.size := by
        unfold wordBits at hsize ⊢
        omega
      rw [SeenCodes.insert, if_neg hclear]
      refine ⟨by rwa [Array.size_modify], ?_, fun other hother => ?_⟩
      · rw [hcount, Finset.card_insert_of_notMem hnew]
      · rw [isSet_modify hstored, Bool.or_eq_true, hset other hother, decide_eq_true_iff,
          Finset.mem_insert, or_comm]
  | sparse held => exact HashSetHolds.insert h hnew

theorem Holds.size_eq {space : Nat} {held : SeenCodes} {codes : Finset Nat}
    (h : Holds space held codes) : held.size = codes.card := by
  cases held with
  | dense words count => exact h.2.1
  | sparse held => exact h.2

end SeenCodes

/-- Sets of codes hold the codes of a layout. -/
def Holding.ofLayout (l : Layout) : Holding l.descent SeenCodes where
  domain code := code < l.space
  domain_below hcode hbelow := (l.descent.rank_lt hbelow).trans hcode
  Holds := SeenCodes.Holds l.space
  contains_iff h hcode := h.contains_iff hcode
  insert h hcode hnew := h.insert hcode hnew
  size_eq h := h.size_eq

end Loadout
