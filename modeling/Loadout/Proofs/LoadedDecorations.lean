import Loadout.Proofs.AcceptedRequests
import Loadout.Proofs.SkillLimits
import Mathlib.Data.List.Perm.Subperm

/-!
# Loaded decorations

The levels of a loaded decoration are bytes, at most one for each skill of the table, and each
handle beside them denotes an entry.  Whether a level is more than zero is not asked of them.
-/

namespace Loadout

namespace SkillTable

/-- Whether a handle denotes an entry. -/
def Lists (t : SkillTable) (s : SkillId) : Prop := s.index.toNat < t.skills.size

variable {t : SkillTable} {s : SkillId} {id : String}

/-- A position cut to a handle is no later than the position itself. -/
theorem lists_of_findSkill? (h : t.findSkill? id = some s) : t.Lists s := by
  obtain ⟨n, hn, rfl⟩ := Option.map_eq_some_iff.1 h
  obtain ⟨hsize, -⟩ := Array.findIdx?_eq_some_iff_getElem.1 hn
  exact (Nat.mod_le n _).trans_lt hsize

theorem mem_ids_of_findSkill? (h : t.findSkill? id = some s) : id ∈ t.skills.toList.map (·.id) := by
  obtain ⟨n, hn, -⟩ := Option.map_eq_some_iff.1 h
  obtain ⟨hsize, hid, -⟩ := Array.findIdx?_eq_some_iff_getElem.1 hn
  rw [List.mem_map]
  exact ⟨t.skills[n], by simp, by simpa using hid⟩

end SkillTable

section Reading

open Document Json

theorem exists_of_mapM_eq_some {α β : Type} {f : α → Option β} {as : List α} {bs : List β}
    (h : as.mapM f = some bs) {b : β} (hb : b ∈ bs) : ∃ a ∈ as, f a = some b := by
  induction as generalizing bs with
  | nil =>
      cases h
      cases hb
  | cons a rest ih =>
      rw [List.mapM_cons] at h
      obtain ⟨first, hfirst, h⟩ := Option.bind_eq_some_iff.1 h
      obtain ⟨others, hothers, h⟩ := Option.bind_eq_some_iff.1 h
      cases h
      rcases List.mem_cons.1 hb with rfl | hb
      · exact ⟨a, List.mem_cons_self, hfirst⟩
      · obtain ⟨a', ha', heq⟩ := ih hothers hb
        exact ⟨a', List.mem_cons_of_mem a ha', heq⟩

def byteMax : Nat := 255

theorem le_of_byte? {δ : Type} [Document δ] {j : δ} {n : Nat} (h : byte? j = some n) :
    n ≤ byteMax := by
  obtain ⟨m, hm, rfl⟩ := Option.map_eq_some_iff.1 h
  obtain ⟨k, -, hk⟩ := Option.bind_eq_some_iff.1 hm
  split at hk
  next hrange =>
    cases hk
    unfold byteMax
    omega
  next => cases hk

/-- What an object with any keys holds has been read from a node of it. -/
theorem exists_of_mem_texts? {δ α : Type} [Document δ] {read : δ → Option α} {j : δ}
    {m : OrderedMap String α} (h : texts? read j = some m) {e : String × α} (he : e ∈ m.entries) :
    ∃ k, read k = some e.2 := by
  obtain ⟨members, -, h⟩ := Option.bind_eq_some_iff.1 h
  obtain ⟨entries, hentries, h⟩ := Option.bind_eq_some_iff.1 h
  cases h
  obtain ⟨m, -, hm⟩ := exists_of_mapM_eq_some hentries (OrderedMap.mem_of_mem_ofList he)
  obtain ⟨name, -, hm⟩ := Option.bind_eq_some_iff.1 hm
  obtain ⟨key, -, hm⟩ := Option.bind_eq_some_iff.1 hm
  obtain ⟨value, hvalue, hm⟩ := Option.bind_eq_some_iff.1 hm
  cases hm
  exact ⟨m.2, hvalue⟩

theorem DecorationDraft.levels_le_of_read {j : Json} {d : DecorationDraft}
    (h : DecorationDraft.read j = some d) : ∀ e ∈ d.skills.entries, e.2 ≤ byteMax := by
  obtain ⟨r, -, h⟩ := Option.bind_eq_some_iff.1 h
  obtain ⟨id, -, h⟩ := Option.bind_eq_some_iff.1 h
  obtain ⟨name, -, h⟩ := Option.bind_eq_some_iff.1 h
  obtain ⟨size, -, h⟩ := Option.bind_eq_some_iff.1 h
  obtain ⟨skills, hskills, h⟩ := Option.bind_eq_some_iff.1 h
  cases h
  obtain ⟨field, -, htable⟩ := Option.bind_eq_some_iff.1 hskills
  intro e he
  obtain ⟨k, hk⟩ := exists_of_mem_texts? htable he
  exact le_of_byte? hk

theorem levels_le_of_readListed {j : Json} {decorations : List DecorationDraft}
    (h : readListed "decorations" DecorationDraft.read j = some decorations) :
    ∀ d ∈ decorations, ∀ e ∈ d.skills.entries, e.2 ≤ byteMax := by
  obtain ⟨r, -, h⟩ := Option.bind_eq_some_iff.1 h
  obtain ⟨field, -, h⟩ := Option.bind_eq_some_iff.1 h
  obtain ⟨items, -, h⟩ := Option.bind_eq_some_iff.1 h
  intro d hd
  obtain ⟨item, -, hitem⟩ := exists_of_mapM_eq_some h hd
  exact DecorationDraft.levels_le_of_read hitem

end Reading

section Loading

variable {t : SkillTable} {d : CatalogueDraft} {c : Catalogue}

/-- Whether the levels of a decoration are those of as many different skills of the table, each a
byte. -/
structure Decoration.Recorded (t : SkillTable) (d : Decoration) : Prop where
  listed : ∀ l ∈ d.skills, t.Lists l.1
  length : d.skills.length ≤ t.skills.size
  levels : ∀ l ∈ d.skills, l.2 ≤ byteMax

theorem SkillTable.referAll_eq_ok_iff {entry : Entry} {levels : List (String × Nat)}
    {grants : List (SkillId × Nat)} :
    t.referAll entry levels = .ok grants ↔
      List.Forall₂ (fun e l => t.findSkill? e.1 = some l.1 ∧ e.2 = l.2) levels grants := by
  have hrefer : ∀ (e : String × Nat) (l : SkillId × Nat),
      (refer entry .skill t.findSkill? e.1 >>= fun s => .ok (s, e.2)) = .ok l ↔
        t.findSkill? e.1 = some l.1 ∧ e.2 = l.2 := by
    intro e l
    unfold refer
    cases t.findSkill? e.1 with
    | none => simp [bind, Except.bind]
    | some s => simp [bind, Except.bind, Prod.ext_iff]
  rw [SkillTable.referAll, SuccessfulRun.mapM_eq_ok_iff]
  simp only [pure, Except.pure, hrefer]

theorem DecorationDraft.recorded_of_resolve {draft : DecorationDraft} {deco : Decoration}
    (h : draft.resolve t = .ok deco) (hbytes : ∀ e ∈ draft.skills.entries, e.2 ≤ byteMax) :
    deco.Recorded t := by
  obtain ⟨_, -, h⟩ := SuccessfulRun.bind_eq_ok_iff.1 h
  obtain ⟨_, -, h⟩ := SuccessfulRun.bind_eq_ok_iff.1 h
  obtain ⟨grants, hgrants, h⟩ := SuccessfulRun.bind_eq_ok_iff.1 h
  cases h
  have hreferred := SkillTable.referAll_eq_ok_iff.1 hgrants
  have hids : draft.skills.keys ⊆ t.skills.toList.map (·.id) := by
    intro id hid
    obtain ⟨e, he, rfl⟩ := List.mem_map.1 hid
    obtain ⟨l, -, hfound, -⟩ := SuccessfulRun.exists_result hreferred he
    exact SkillTable.mem_ids_of_findSkill? hfound
  constructor
  · intro l hl
    obtain ⟨e, -, hfound, -⟩ := SuccessfulRun.exists_item hreferred hl
    exact SkillTable.lists_of_findSkill? hfound
  · have hlength := (List.subperm_of_subset draft.skills.nodup_keys hids).length_le
    rw [← hreferred.length_eq]
    simpa [OrderedMap.keys] using hlength
  · intro l hl
    obtain ⟨e, he, -, hlevel⟩ := SuccessfulRun.exists_item hreferred hl
    exact hlevel ▸ hbytes e he

theorem CatalogueDraft.recorded_of_resolve (h : d.resolve = .ok c)
    (hbytes : ∀ draft ∈ d.decorations, ∀ e ∈ draft.skills.entries, e.2 ≤ byteMax)
    {e : DecorationId × Decoration} (he : e ∈ c.allDecorations) : e.2.Recorded c.skills := by
  obtain ⟨n, hn, rfl⟩ := List.mem_mapIdx.1 he
  obtain ⟨draft, hdraft, hresolve⟩ := SuccessfulRun.exists_item
    (SuccessfulRun.mapM_eq_ok_iff.1 (resolves_of_resolve h).decorations) (List.getElem_mem hn)
  exact DecorationDraft.recorded_of_resolve hresolve (hbytes draft hdraft)

end Loading

end Loadout
