import Loadout.Proofs.AssembledSets

/-!
# What a choice wears

The set of a choice wears the chosen piece in every slot, with the chosen charm and all chosen
decorations, and its signature is what this gear grants, as far as that is relevant.
-/

namespace Loadout

open Std

namespace OrderedMap

variable {κ ν : Type} [Ord κ] [TransOrd κ]

/-- A key above all others is appended. -/
theorem place_of_forall_lt {k : κ} (v : ν) {l : List (κ × ν)}
    (h : ∀ e ∈ l, compare e.1 k = .lt) : place k v l = l ++ [(k, v)] := by
  induction l with
  | nil => rfl
  | cons e rest ih =>
      have hgt : compare k e.1 = .gt := OrientedCmp.gt_of_lt (h e (by simp))
      have hrest := ih fun d hd => h d (by simp [hd])
      simp [place, hgt, hrest]

end OrderedMap

def Catalogue.charmGrants (c : Catalogue) (charm : Option CharmId) : List (SkillId × Nat) :=
  (charm.map fun h => (c.charm h).grants).getD []

def Catalogue.decorationGrants (c : Catalogue) (decorations : List DecorationId) :
    List (SkillId × Nat) :=
  decorations.flatMap fun d => (c.decoration d).skills

theorem Catalogue.decorationGrants_append (c : Catalogue) (first second : List DecorationId) :
    c.decorationGrants (first ++ second) =
      c.decorationGrants first ++ c.decorationGrants second := List.flatMap_append

def SlotEntry.grants (c : Catalogue) (e : SlotEntry) : List (SkillId × Nat) :=
  (c.piece e.piece).skills ++ c.decorationGrants e.decorations

namespace Request

variable {q : Request} {c : Catalogue} {useful : List UsefulDecoration}

theorem mem_allowedPieces_iff {slot : Slot} {p : PieceId × Piece} :
    p ∈ q.allowedPieces c slot ↔
      p ∈ c.allPieces ∧ p.2.slot = slot ∧ q.allowsRank p.2.rank = true := by
  simp [allowedPieces]

theorem SlotChoice.piece (hc : c.FitsHandles)
    (huseful : c.decorationsFor q.requirements = .ok useful) {slot : Slot} {e : SlotEntry}
    (h : q.SlotChoice c useful slot e) :
    (e.piece, c.piece e.piece) ∈ q.allowedPieces c slot := by
  obtain ⟨p, hp, hpiece, -⟩ := h.exists_madeOf huseful
  have hentry : c.piece p.1 = p.2 := Catalogue.piece_of_mem hc (mem_allowedPieces_iff.1 hp).1
  rw [hpiece, hentry]
  exact hp

/-- A useful decoration is read off its entry in the catalogue, which grants no removed skill. -/
theorem decoration_of_mem_useful (hc : c.FitsHandles)
    (huseful : c.decorationsFor q.requirements = .ok useful) {u : UsefulDecoration}
    (h : u ∈ useful) :
    (u.id, c.decoration u.id) ∈ c.allDecorations ∧
      (∀ l ∈ (c.decoration u.id).skills, q.requirements.removes l.1 = false) ∧
      u = .ofDecoration q.requirements u.id (c.decoration u.id) := by
  have hmem : u ∈ c.usefulDecorations q.requirements :=
    Catalogue.eq_of_decorationsFor huseful ▸ h
  obtain ⟨d, hd, hkeeps, rfl⟩ := Catalogue.exists_of_mem_usefulDecorations hmem
  have hentry : c.decoration d.1 = d.2 := Catalogue.decoration_of_mem hc hd
  simp only [UsefulDecoration.ofDecoration, hentry]
  exact ⟨hd, hkeeps, trivial⟩

/-- What counts of useful decorations is what is relevant of the decorations themselves. -/
theorem filter_levels_eq_filter_grants (hc : c.FitsHandles)
    (huseful : c.decorationsFor q.requirements = .ok useful) {chosen : List UsefulDecoration}
    (h : ∀ u ∈ chosen, u ∈ useful) :
    (chosen.flatMap (·.levels)).filter (fun l => q.requirements.relevant l.1) =
      (c.decorationGrants (chosen.map (·.id))).filter fun l => q.requirements.relevant l.1 := by
  induction chosen with
  | nil => rfl
  | cons u rest ih =>
      have hrest := ih fun v hv => h v (by simp [hv])
      obtain ⟨-, -, hu⟩ := decoration_of_mem_useful hc huseful (h u (by simp))
      have hlevels : u.levels.filter (fun l => q.requirements.relevant l.1) =
          (c.decoration u.id).skills.filter fun l => q.requirements.relevant l.1 := by
        rw [hu, UsefulDecoration.filter_levels_ofDecoration]
        rfl
      rw [List.flatMap_cons, List.filter_append, hrest, hlevels]
      simp [Catalogue.decorationGrants]

theorem SlotChoice.signature_eq (hc : c.FitsHandles)
    (huseful : c.decorationsFor q.requirements = .ok useful) {slot : Slot} {e : SlotEntry}
    (h : q.SlotChoice c useful slot e) :
    e.signature = .ofGrants c.skills q.requirements (e.grants c)
      ((c.piece e.piece).bonus.toList.map (·, 1)) := by
  obtain ⟨p, -, -, chosen, hmade⟩ := h.exists_madeOf huseful
  have hlevels := filter_levels_eq_filter_grants hc huseful hmade.useful
  rw [hmade.signature, Signature.ofGrants, Signature.ofGrants, SlotEntry.grants,
    List.filter_append, List.filter_append, hlevels, hmade.decorations]

theorem signature_of_mem_seedChoices (hc : c.FitsHandles) {seed : CharmSeed}
    (h : seed ∈ q.seedChoices c) :
    seed.signature = .ofGrants c.skills q.requirements (c.charmGrants seed.charm) [] := by
  rcases List.mem_cons.1 h with rfl | h
  · rfl
  · obtain ⟨charm, hlisted, -, hcharm, hsignature⟩ := exists_of_mem_eligibleCharms h
    rw [hsignature, hcharm, Catalogue.charmGrants, Option.map_some, Option.getD_some,
      Catalogue.charm_of_mem hc hlisted]

end Request

namespace Choice

variable {q : Request} {c : Catalogue} {useful : List UsefulDecoration} {slots : List Slot}

/-- What the gear of a choice grants, set bonuses left out. -/
def grants (x : Choice q c useful slots) : List (SkillId × Nat) :=
  c.charmGrants x.seed.charm ++ x.entries.flatMap (·.grants c)

def pieces (x : Choice q c useful slots) : List (BonusId × Nat) :=
  x.entries.flatMap fun e => (c.piece e.piece).bonus.toList.map (·, 1)

theorem charm_set (x : Choice q c useful slots) : x.set.outfit.charm = x.seed.charm := by
  induction slots using List.reverseRecOn with
  | nil => rw [set, x.entries_eq_nil]; rfl
  | append_singleton slots slot ih =>
      obtain ⟨y, e, he, rfl⟩ := x.exists_snoc
      rw [set_snoc]
      exact ih y

theorem decorations_set (x : Choice q c useful slots) :
    x.set.decorations = x.entries.flatMap (·.decorations) := by
  induction slots using List.reverseRecOn with
  | nil => rw [set, x.entries_eq_nil]; rfl
  | append_singleton slots slot ih =>
      obtain ⟨y, e, he, rfl⟩ := x.exists_snoc
      rw [set_snoc, ArmourSet.wear, ih y]
      simp [snoc]

theorem worn_set (hc : c.FitsHandles) (huseful : c.decorationsFor q.requirements = .ok useful)
    (hslots : slots.Pairwise fun a b => compare a b = .lt) (x : Choice q c useful slots) :
    x.set.outfit.worn.entries = slots.zip (x.entries.map (·.piece)) := by
  induction slots using List.reverseRecOn with
  | nil => rw [set, x.entries_eq_nil]; rfl
  | append_singleton slots slot ih =>
      obtain ⟨y, e, he, rfl⟩ := x.exists_snoc
      obtain ⟨hfirst, -, hlast⟩ := List.pairwise_append.1 hslots
      have hworn := ih hfirst y
      have hslot : (c.piece e.piece).slot = slot :=
        (Request.mem_allowedPieces_iff.1 (he.piece hc huseful)).2.1
      have hlength : slots.length = (y.entries.map (·.piece)).length := by
        rw [List.length_map]
        exact y.allowed.length_eq
      -- slots are visited from head to legs, so the piece goes behind those worn already
      have hbelow : ∀ d ∈ y.set.outfit.worn.entries, compare d.1 slot = .lt := by
        intro d hd
        rw [hworn] at hd
        exact hlast d.1 (List.of_mem_zip hd).1 slot (by simp)
      rw [set_snoc]
      change OrderedMap.place (c.piece e.piece).slot e.piece y.set.outfit.worn.entries = _
      rw [hslot, OrderedMap.place_of_forall_lt _ hbelow, hworn]
      simp [snoc, List.zip_append hlength]

theorem signature_eq (hc : c.FitsHandles)
    (huseful : c.decorationsFor q.requirements = .ok useful) (x : Choice q c useful slots) :
    x.signature = .ofGrants c.skills q.requirements x.grants x.pieces := by
  induction slots using List.reverseRecOn with
  | nil =>
      have hseed := Request.signature_of_mem_seedChoices hc x.eligible
      simp [signature, grants, pieces, x.entries_eq_nil, hseed]
  | append_singleton slots slot ih =>
      obtain ⟨y, e, he, rfl⟩ := x.exists_snoc
      rw [signature_snoc, ih y, he.signature_eq hc huseful, Signature.merge_ofGrants]
      simp [grants, pieces, snoc]

section WholeSet

variable (hc : c.FitsHandles) (huseful : c.decorationsFor q.requirements = .ok useful)
variable (x : Choice q c useful Slot.all)
include hc huseful

theorem worn_all : x.set.outfit.worn.entries = Slot.all.zip (x.entries.map (·.piece)) :=
  x.worn_set hc huseful (by decide)

theorem worn_keys : x.set.outfit.worn.keys = Slot.all := by
  have hlength : Slot.all.length = x.entries.length := x.allowed.length_eq
  rw [OrderedMap.keys, x.worn_all hc huseful, List.map_fst_zip]
  simp [hlength]

theorem pieces_set : x.set.outfit.pieces = x.entries.map (·.piece) := by
  have hlength : Slot.all.length = x.entries.length := x.allowed.length_eq
  rw [Outfit.pieces, x.worn_all hc huseful, List.map_snd_zip]
  simp [hlength]

/-- The gear grants the same in whatever order it is gone through. -/
theorem grants_perm :
    x.grants.Perm (x.set.outfit.grants c ++ c.decorationGrants x.set.decorations) := by
  have hentries : (x.entries.flatMap (·.grants c)).Perm
      (x.entries.flatMap (fun e => (c.piece e.piece).skills) ++
        x.entries.flatMap fun e => c.decorationGrants e.decorations) :=
    (List.flatMap_append_perm x.entries _ _).symm
  have hdecorations : c.decorationGrants x.set.decorations =
      x.entries.flatMap fun e => c.decorationGrants e.decorations := by
    rw [x.decorations_set, Catalogue.decorationGrants, List.flatMap_assoc]
    rfl
  have hpieces : x.set.outfit.pieces.flatMap (fun p => (c.piece p).skills) =
      x.entries.flatMap fun e => (c.piece e.piece).skills := by
    rw [x.pieces_set hc huseful, List.flatMap_map]
  have hcharm : ∀ skills decorations : List (SkillId × Nat),
      (c.charmGrants x.seed.charm ++ (skills ++ decorations)).Perm
        (skills ++ c.charmGrants x.seed.charm ++ decorations) := by
    intro skills decorations
    rw [← List.append_assoc]
    exact List.perm_append_comm.append_right decorations
  rw [Outfit.grants, hpieces, x.charm_set, hdecorations, grants]
  exact (hentries.append_left _).trans (hcharm _ _)

theorem pieces_eq :
    x.pieces = (x.set.outfit.pieces.filterMap fun p => (c.piece p).bonus).map (·, 1) := by
  have hlist : ∀ entries : List SlotEntry,
      (entries.flatMap fun e => (c.piece e.piece).bonus.toList.map (·, 1)) =
        ((entries.map (·.piece)).filterMap fun p => (c.piece p).bonus).map (·, 1) := by
    intro entries
    induction entries with
    | nil => rfl
    | cons e rest ih =>
        rw [List.flatMap_cons, ih]
        cases hbonus : (c.piece e.piece).bonus <;> simp [hbonus]
  rw [x.pieces_set hc huseful, pieces, hlist]

end WholeSet

end Choice

end Loadout
