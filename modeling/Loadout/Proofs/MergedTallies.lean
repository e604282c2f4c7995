import Loadout.Proofs.CappedSums
import Loadout.Proofs.LoadedDecorations
import Loadout.Requirements

/-!
# Merged tallies

Counts are kept as bytes.  Merging adds them up key by key: a sum stops at the largest byte, and
what it comes to is cut at the cap of its key.  As long as all counts lie between one and their
caps, this is plain addition cut once, and no key is left without a unit.  So such tallies are a
commutative monoid, ordered by their counts, in which nothing is lost by merging, and leaving keys
out before or after a merge is the same.
-/

namespace Loadout

open Std

namespace OrderedMap

variable {κ : Type} [Ord κ] [TransOrd κ] [LawfulEqOrd κ]

/-- Adds units to the byte of a key, which stops at the largest byte and is then cut at a cap. -/
def addByte (m : OrderedMap κ Nat) (cap : Nat) (k : κ) (n : Nat) : OrderedMap κ Nat :=
  if n = 0 then m else m.insert k (min (min ((m.get? k).getD 0 + n) byteMax) cap)

def addBytes (cap : κ → Nat) (m other : OrderedMap κ Nat) : OrderedMap κ Nat :=
  other.entries.foldl (fun m e => m.addByte (cap e.1) e.1 e.2) m

end OrderedMap

namespace Tally

/-- Whether every listed count lies between one and the cap of its key. -/
def Within {κ : Type} [Ord κ] (cap : κ → Nat) (t : Tally κ) : Prop :=
  ∀ e ∈ t.toList, 1 ≤ e.2 ∧ e.2 ≤ cap e.1

instance {κ : Type} [Ord κ] (cap : κ → Nat) (t : Tally κ) : Decidable (t.Within cap) :=
  inferInstanceAs (Decidable (∀ e ∈ t.toList, 1 ≤ e.2 ∧ e.2 ≤ cap e.1))

section Caps

variable {κ : Type} [Ord κ] [LawfulEqOrd κ] {cap : κ → Nat} {a : Tally κ}

theorem within_iff_capped : a.Within cap ↔ a.Capped cap := by
  rw [capped_iff]
  exact forall₂_congr fun e he => and_iff_right (a.positive e he)

end Caps

section Bytes

variable {κ : Type} [Ord κ] [TransOrd κ] [LawfulEqOrd κ] {cap : κ → Nat} {a b : Tally κ}

/-- A key with a cap is left with a unit at least, and with the byte that is stored for it. -/
theorem counts_raise {t : Tally κ} {limit n : Nat} (hn : 0 < n) (hpos : 0 < limit)
    (hbyte : limit ≤ byteMax) (k : κ) :
    (t.raise limit k n).counts = t.counts.addByte limit k n := by
  have hsum : min (t.count k + n) limit ≠ 0 := by omega
  have hstop : min (min (t.count k + n) byteMax) limit = min (t.count k + n) limit := by omega
  rw [raise, if_neg hn.ne', set, dif_neg hsum, OrderedMap.addByte, if_neg hn.ne']
  exact congrArg (t.counts.insert k) hstop.symm

theorem counts_merge (hcap : ∀ k, cap k ≤ byteMax) (hb : b.Within cap) :
    a.counts.addBytes cap b.counts = (merge cap a b).counts := by
  have hfold : ∀ (l : List (κ × Nat)) (t : Tally κ), (∀ e ∈ l, 1 ≤ e.2 ∧ e.2 ≤ cap e.1) →
      l.foldl (fun m e => m.addByte (cap e.1) e.1 e.2) t.counts = (raiseAll cap t l).counts := by
    intro l
    induction l with
    | nil => exact fun _ _ => rfl
    | cons e rest ih =>
        intro t hl
        obtain ⟨⟨hpos, hle⟩, hrest⟩ := List.forall_mem_cons.1 hl
        rw [List.foldl_cons, ← counts_raise hpos (by omega) (hcap e.1) e.1]
        exact ih _ hrest
  exact hfold b.toList a hb

end Bytes

section Merging

variable {κ : Type} [Ord κ] [TransOrd κ] [LawfulEqOrd κ] [DecidableEq κ]
variable {cap : κ → Nat} {a b c : Tally κ}

theorem Capped.merge_comm (ha : a.Capped cap) (hb : b.Capped cap) :
    Tally.merge cap a b = Tally.merge cap b a := by
  apply ext_count
  intro k
  rw [ha.count_merge, hb.count_merge, Nat.add_comm]

/-- Cutting the inner sum makes no difference, on whichever side it stands. -/
theorem Capped.merge_assoc (ha : a.Capped cap) (hb : b.Capped cap) :
    Tally.merge cap (Tally.merge cap a b) c = Tally.merge cap a (Tally.merge cap b c) := by
  apply ext_count
  intro k
  rw [(ha.merge b).count_merge, ha.count_merge, ha.count_merge, hb.count_merge]
  omega

theorem Capped.merge_empty (ha : a.Capped cap) : Tally.merge cap a ∅ = a := by
  apply ext_count
  intro k
  rw [ha.count_merge, count_empty, Nat.add_zero, min_eq_left (ha k)]

theorem Capped.le_merge (ha : a.Capped cap) : a.le (Tally.merge cap a b) = true := by
  rw [le_iff]
  intro k
  have hk := ha k
  rw [ha.count_merge]
  omega

theorem Capped.keep_merge (ha : a.Capped cap) (p : κ → Bool) :
    (Tally.merge cap a b).keep p = Tally.merge cap (a.keep p) (b.keep p) := by
  apply ext_count
  intro k
  rw [(ha.keep p).count_merge, count_keep, count_keep, count_keep, ha.count_merge]
  cases p k <;> simp

/-- The laws of merging on tallies within their caps. -/
structure MergeLaws (cap : κ → Nat) (merge : Tally κ → Tally κ → Tally κ) : Prop where
  /-- Where caps are bytes, merging is adding up bytes. -/
  bytes : ∀ {a b : Tally κ}, (∀ k, cap k ≤ byteMax) → a.Within cap → b.Within cap →
    a.counts.addBytes cap b.counts = (merge a b).counts
  within : ∀ {a b : Tally κ}, a.Within cap → b.Within cap → (merge a b).Within cap
  assoc : ∀ {a b c : Tally κ}, a.Within cap → b.Within cap → c.Within cap →
    merge (merge a b) c = merge a (merge b c)
  comm : ∀ {a b : Tally κ}, a.Within cap → b.Within cap → merge a b = merge b a
  empty_merge : ∀ {a : Tally κ}, a.Within cap → merge ∅ a = a
  merge_empty : ∀ {a : Tally κ}, a.Within cap → merge a ∅ = a
  mono : ∀ {a a' b b' : Tally κ}, a.Within cap → a'.Within cap → b.Within cap → b'.Within cap →
    a.le a' = true → b.le b' = true → (merge a b).le (merge a' b') = true
  left_le : ∀ {a b : Tally κ}, a.Within cap → b.Within cap → a.le (merge a b) = true
  right_le : ∀ {a b : Tally κ}, a.Within cap → b.Within cap → b.le (merge a b) = true
  keep_merge : ∀ {a b : Tally κ}, a.Within cap → b.Within cap → ∀ p : κ → Bool,
    (merge a b).keep p = merge (a.keep p) (b.keep p)

theorem mergeLaws (cap : κ → Nat) : MergeLaws cap (Tally.merge cap) := by
  have hempty : (∅ : Tally κ).Capped cap := capped_empty cap
  constructor <;> simp only [within_iff_capped]
  case bytes => exact fun hcap _ hb => counts_merge hcap (within_iff_capped.2 hb)
  case within => exact fun ha _ => ha.merge _
  case assoc => exact fun ha hb _ => ha.merge_assoc hb
  case comm => exact fun ha hb => ha.merge_comm hb
  case empty_merge => exact fun ha => (hempty.merge_comm ha).trans ha.merge_empty
  case merge_empty => exact fun ha => ha.merge_empty
  case mono =>
    intro a a' b b' ha ha' hb hb' hle hle'
    rw [le_iff] at hle hle' ⊢
    exact ha.count_merge_mono ha' hle hle'
  case left_le => exact fun ha _ => ha.le_merge
  case right_le =>
    intro a b ha hb
    rw [ha.merge_comm hb]
    exact hb.le_merge
  case keep_merge => exact fun ha _ p => ha.keep_merge p

end Merging

end Tally

section Loading

open Document Json

variable {j : Json} {d : SkillsDraft} {t : SkillTable}

theorem le_of_optional_byte? {n : Option Nat} (h : optional? byte? j = some n) :
    ∀ m ∈ n, m ≤ byteMax := by
  unfold optional? at h
  split at h
  next => cases h; simp
  next =>
    obtain ⟨m, hm, rfl⟩ := Option.map_eq_some_iff.1 h
    simpa using le_of_byte? hm

theorem SkillsDraft.limit_le_of_readSkill {s : SkillDraft} (h : readSkill j = some s) :
    s.secretLimit.getD s.limit ≤ byteMax := by
  obtain ⟨r, -, h⟩ := Option.bind_eq_some_iff.1 h
  obtain ⟨name, -, h⟩ := Option.bind_eq_some_iff.1 h
  obtain ⟨limit, hlimit, h⟩ := Option.bind_eq_some_iff.1 h
  obtain ⟨secretLimit, hsecret, h⟩ := Option.bind_eq_some_iff.1 h
  obtain ⟨states, -, h⟩ := Option.bind_eq_some_iff.1 h
  obtain ⟨secretSkill, -, h⟩ := Option.bind_eq_some_iff.1 h
  cases h
  obtain ⟨field, -, hfield⟩ := Option.bind_eq_some_iff.1 hlimit
  have hbytes : ∀ n ∈ secretLimit, n ≤ byteMax := by
    unfold Record.defaulted at hsecret
    split at hsecret
    next => exact le_of_optional_byte? hsecret
    next =>
      cases hsecret
      simp
  cases secretLimit with
  | none => exact le_of_byte? hfield
  | some n => exact hbytes n rfl

/-- The limits of a loaded skill table are bytes. -/
theorem SkillsDraft.cap_le_of_read (hread : SkillsDraft.read j = some d) (hd : d.resolve = .ok t)
    (s : SkillId) : t.cap s ≤ byteMax := by
  have hlimits : ∀ skill ∈ t.skills.toList, skill.secretLimit ≤ byteMax := by
    intro skill hskill
    obtain ⟨e, he, hresolve⟩ := SuccessfulRun.exists_item (resolves_of_resolve hd).skills hskill
    rw [secretLimit_of_resolveSkill hresolve]
    obtain ⟨r, -, hread⟩ := Option.bind_eq_some_iff.1 hread
    obtain ⟨skills, hskills, hread⟩ := Option.bind_eq_some_iff.1 hread
    obtain ⟨bonuses, -, hread⟩ := Option.bind_eq_some_iff.1 hread
    cases hread
    obtain ⟨field, -, htable⟩ := Option.bind_eq_some_iff.1 hskills
    obtain ⟨k, hk⟩ := exists_of_mem_texts? htable he
    exact limit_le_of_readSkill hk
  exact getD_of_forall (by decide) hlimits s.index.toNat

end Loading

/-- Levels within the secret limits and pieces up to five merge by the laws, and what is irrelevant
to requirements can be left out before or after.  The limits of a loaded table are bytes. -/
theorem SkillTable.merges_under_laws (t : SkillTable) :
    Tally.MergeLaws t.cap (SkillLevels.merge t) ∧
      Tally.MergeLaws (fun _ => maxPieces) SetPieces.merge ∧
      (∀ (r : Requirements) (a b : SkillLevels), a.Within t.cap → b.Within t.cap →
        r.restrictLevels (SkillLevels.merge t a b) =
          SkillLevels.merge t (r.restrictLevels a) (r.restrictLevels b)) ∧
      (∀ (r : Requirements) (a b : SetPieces), a.Within (fun _ => maxPieces) →
        b.Within (fun _ => maxPieces) →
        r.restrictPieces (SetPieces.merge a b) =
          SetPieces.merge (r.restrictPieces a) (r.restrictPieces b)) ∧
      ∀ {j : Json} {d : SkillsDraft}, SkillsDraft.read j = some d → d.resolve = .ok t →
        ∀ s, t.cap s ≤ byteMax := by
  have hlevels : Tally.MergeLaws t.cap (SkillLevels.merge t) := Tally.mergeLaws t.cap
  have hpieces : Tally.MergeLaws (fun _ => maxPieces) SetPieces.merge :=
    Tally.mergeLaws fun _ => maxPieces
  refine ⟨hlevels, hpieces, ?_, ?_, ?_⟩
  · exact fun r _ _ ha hb => hlevels.keep_merge ha hb r.relevant
  · exact fun r _ _ ha hb => hpieces.keep_merge ha hb r.bonusRelevant
  · exact fun hread hd => SkillsDraft.cap_le_of_read hread hd

def agitatorDocument : Json :=
  .record [("skills", .record [("AGITATOR", .record [
    ("name", .string "Agitator"), ("limit", .number "5"), ("secret_limit", .number "7")])])]

/-- So many levels of the first skill. -/
def someLevels (n : Nat) : SkillLevels := .ofList [(.ofIndex 0, n)]

/-- Four and five levels come to seven, the secret limit. -/
theorem SkillTable.merges_under_laws_agitator :
    ∃ d t, SkillsDraft.read agitatorDocument = some d ∧ d.resolve = .ok t ∧
      (someLevels 4).Within t.cap ∧ (someLevels 5).Within t.cap ∧
      (someLevels 4).counts.addBytes t.cap (someLevels 5).counts =
        (SkillLevels.merge t (someLevels 4) (someLevels 5)).counts ∧
      SkillLevels.merge t (someLevels 4) (someLevels 5) =
        SkillLevels.merge t (someLevels 5) (someLevels 4) ∧
      (SkillLevels.merge t (someLevels 4) (someLevels 5)).count (.ofIndex 0) = 7 := by
  have hrun : ((SkillsDraft.read agitatorDocument).bind fun d => d.resolve.toOption.map fun t =>
      (decide ((someLevels 4).Within t.cap), decide ((someLevels 5).Within t.cap),
        (SkillLevels.merge t (someLevels 4) (someLevels 5)).count (.ofIndex 0))) =
      some (true, true, 7) := by
    decide +kernel
  obtain ⟨d, hd, hrun⟩ := Option.bind_eq_some_iff.1 hrun
  obtain ⟨t, ht, hrun⟩ := Option.map_eq_some_iff.1 hrun
  have ht : d.resolve = .ok t := SuccessfulRun.toOption_eq_some_iff.1 ht
  simp only [Prod.mk.injEq, decide_eq_true_eq] at hrun
  obtain ⟨hfour, hfive, hseven⟩ := hrun
  obtain ⟨hlaws, -, -, -, hcaps⟩ := merges_under_laws t
  exact ⟨d, t, hd, ht, hfour, hfive, hlaws.bytes (hcaps hd ht) hfour hfive, hlaws.comm hfour hfive,
    hseven⟩

end Loadout
