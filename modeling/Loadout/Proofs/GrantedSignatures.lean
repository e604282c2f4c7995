import Loadout.Proofs.CatalogueHandles
import Loadout.Proofs.PackedSlots
import Loadout.Proofs.SignatureFronts
import Loadout.Proofs.SkillLimits
import Loadout.Search.ArmourSet

/-!
# Signatures as grants

The signature of a charm, of a decorated piece and of every set made of them is what they grant, as
far as it is relevant, added up under the caps.  Merging signatures is putting their grants
together, so neither the caps on the way nor the moment at which something irrelevant is left out
can be seen in the result.
-/

namespace Loadout

namespace Signature

def merge (t : SkillTable) (a b : Signature) : Signature :=
  ⟨SkillLevels.merge t a.levels b.levels, SetPieces.merge a.pieces b.pieces⟩

/-- The signature of grants of levels and of pieces, as far as they are relevant. -/
def ofGrants (t : SkillTable) (r : Requirements) (grants : List (SkillId × Nat))
    (pieces : List (BonusId × Nat)) : Signature :=
  ⟨Tally.collect t.cap (grants.filter fun g => r.relevant g.1),
    Tally.collect (fun _ => maxPieces) (pieces.filter fun p => r.bonusRelevant p.1)⟩

/-- Whether a signature has relevant components only, of none more than its cap. -/
structure Within (t : SkillTable) (r : Requirements) (s : Signature) : Prop where
  levels : s.levels.Capped t.cap
  pieces : s.pieces.Capped fun _ => maxPieces
  relevant : ∀ k, 0 < s.levels.count k → r.relevant k = true
  bonusRelevant : ∀ b, 0 < s.pieces.count b → r.bonusRelevant b = true

variable {t : SkillTable} {r : Requirements} {a b a' b' : Signature}

theorem within_ofGrants (grants : List (SkillId × Nat)) (pieces : List (BonusId × Nat)) :
    (ofGrants t r grants pieces).Within t r := by
  constructor
  · exact Tally.capped_collect _ _
  · exact Tally.capped_collect _ _
  · intro k hk
    rw [ofGrants, Tally.count_collect, Tally.unitsOf_filter] at hk
    by_cases hrelevant : r.relevant k = true
    · exact hrelevant
    · simp [hrelevant] at hk
  · intro k hk
    rw [ofGrants, Tally.count_collect, Tally.unitsOf_filter] at hk
    by_cases hrelevant : r.bonusRelevant k = true
    · exact hrelevant
    · simp [hrelevant] at hk

theorem ofGrants_perm {grants grants' : List (SkillId × Nat)} {pieces : List (BonusId × Nat)}
    (h : grants.Perm grants') : ofGrants t r grants pieces = ofGrants t r grants' pieces := by
  rw [ofGrants, ofGrants, Tally.collect_perm (h.filter _)]

theorem ofGrants_le_append (grants more : List (SkillId × Nat)) (pieces : List (BonusId × Nat)) :
    ofGrants t r grants pieces ≤ ofGrants t r (grants ++ more) pieces := by
  intro component
  cases component with
  | skill s =>
      rw [count, count, ofGrants, ofGrants, Tally.count_collect, Tally.count_collect,
        List.filter_append, Tally.unitsOf_append]
      omega
  | bonus b => exact le_rfl

theorem Within.merge (ha : a.Within t r) (hb : b.Within t r) : (a.merge t b).Within t r := by
  constructor
  · exact ha.levels.merge b.levels
  · exact ha.pieces.merge b.pieces
  · intro k hk
    have hcount : (a.merge t b).levels.count k = min (a.levels.count k + b.levels.count k)
        (t.cap k) := ha.levels.count_merge b.levels k
    have hsum : 0 < a.levels.count k ∨ 0 < b.levels.count k := by omega
    exact hsum.elim (ha.relevant k) (hb.relevant k)
  · intro k hk
    have hcount : (a.merge t b).pieces.count k = min (a.pieces.count k + b.pieces.count k)
        maxPieces := ha.pieces.count_merge b.pieces k
    have hsum : 0 < a.pieces.count k ∨ 0 < b.pieces.count k := by omega
    exact hsum.elim (ha.bonusRelevant k) (hb.bonusRelevant k)

theorem Within.merge_mono (ha : a.Within t r) (ha' : a'.Within t r) (hle : a ≤ a')
    (hle' : b ≤ b') : a.merge t b ≤ a'.merge t b' := by
  intro component
  cases component with
  | skill k =>
      exact ha.levels.count_merge_mono ha'.levels (fun k => hle (.skill k))
        (fun k => hle' (.skill k)) k
  | bonus k =>
      exact ha.pieces.count_merge_mono ha'.pieces (fun k => hle (.bonus k))
        (fun k => hle' (.bonus k)) k

theorem merge_ofGrants (t : SkillTable) (r : Requirements) (grants grants' : List (SkillId × Nat))
    (pieces pieces' : List (BonusId × Nat)) :
    (ofGrants t r grants pieces).merge t (ofGrants t r grants' pieces') =
      ofGrants t r (grants ++ grants') (pieces ++ pieces') := by
  simp only [merge, ofGrants, SkillLevels.merge_eq, SetPieces.merge_eq, Tally.merge_collect,
    List.filter_append]

end Signature

theorem SkillLevels.restrict_gainAll (t : SkillTable) (r : Requirements)
    (grants : List (SkillId × Nat)) :
    r.restrictLevels (gainAll t ∅ grants) =
      Tally.collect t.cap (grants.filter fun g => r.relevant g.1) := by
  rw [gainAll_empty, Requirements.restrictLevels, Tally.keep_collect]

/-- The signature of a charm that is worn alone, or of none. -/
def CharmSeed.signature (seed : CharmSeed) : Signature := ⟨seed.levels, ∅⟩

namespace Catalogue

variable {c : Catalogue} {r : Requirements}

theorem mem_of_foldl_keepSmaller {relevant : List UsefulDecoration}
    {kept : OrderedMap SkillId UsefulDecoration} {e : SkillId × UsefulDecoration}
    (h : e ∈ (relevant.foldl UsefulDecoration.keepSmaller kept).entries) :
    e ∈ kept.entries ∨ e.2 ∈ relevant := by
  induction relevant generalizing kept with
  | nil => exact .inl h
  | cons u rest ih =>
      rw [List.foldl_cons] at h
      rcases ih h with h | h
      · have hstep : e ∈ kept.entries ∨ e.2 = u := by
          unfold UsefulDecoration.keepSmaller at h
          cases hlevels : u.levels with
          | nil =>
              rw [hlevels] at h
              exact .inl h
          | cons l ls =>
              have hinsert : e ∈ (kept.insert l.1 u).entries → e ∈ kept.entries ∨ e.2 = u := by
                intro hmem
                rcases OrderedMap.mem_place hmem with rfl | hmem
                · exact .inr rfl
                · exact .inl hmem
              simp only [hlevels] at h
              split at h
              · split at h
                · exact hinsert h
                · exact .inl h
              · exact hinsert h
        rcases hstep with hkept | rfl
        · exact .inl hkept
        · exact .inr List.mem_cons_self
      · exact .inr (List.mem_cons_of_mem u h)

/-- A useful decoration is one of the catalogue that grants no removed skill, with what is relevant
of its levels. -/
theorem exists_of_mem_usefulDecorations {u : UsefulDecoration} (h : u ∈ c.usefulDecorations r) :
    ∃ d ∈ c.allDecorations, (∀ l ∈ d.2.skills, r.removes l.1 = false) ∧
      u = UsefulDecoration.ofDecoration r d.1 d.2 := by
  unfold usefulDecorations UsefulDecoration.arrange at h
  dsimp only at h
  rw [List.mem_mergeSort, List.mem_append] at h
  have hrelevant : u ∈ (c.allDecorations.filter fun d =>
      !d.2.skills.any fun l => r.removes l.1).map fun d =>
        UsefulDecoration.ofDecoration r d.1 d.2 := by
    rcases h with h | h
    · obtain ⟨e, he, rfl⟩ := List.mem_map.1 h
      rcases mem_of_foldl_keepSmaller he with hnone | hmem
      · cases hnone
      · exact (List.mem_filter.1 hmem).1
    · exact (List.mem_filter.1 h).1
  obtain ⟨d, hd, rfl⟩ := List.mem_map.1 hrelevant
  obtain ⟨hmem, hkeeps⟩ := List.mem_filter.1 hd
  refine ⟨d, hmem, ?_, rfl⟩
  intro l hl
  have hnone : ∀ l ∈ d.2.skills, ¬ r.removes l.1 = true := by simpa using hkeeps
  exact Bool.eq_false_iff.2 (hnone l hl)

theorem eq_of_decorationsFor {useful : List UsefulDecoration}
    (h : c.decorationsFor r = .ok useful) : useful = c.usefulDecorations r := by
  unfold decorationsFor at h
  dsimp only at h
  split at h
  next => cases h
  next => exact (Except.ok.inj h).symm

end Catalogue

namespace UsefulDecoration

variable {r : Requirements}

theorem filter_levels_ofDecoration (id : DecorationId) (d : Decoration) :
    (ofDecoration r id d).levels.filter (fun l => r.relevant l.1) =
      d.skills.filter fun l => r.relevant l.1 := by
  simp [ofDecoration, List.filter_filter]

end UsefulDecoration

end Loadout
