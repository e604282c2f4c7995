import Loadout.Proofs.ReportedBuilds

/-!
# Assembling by codes

Every signature that comes up while sets are assembled has relevant components only, of none more
than its cap.  The layout of the requirements has a place for each of these components with its cap
as the maximum, so each signature has a code whose digits are the numbers of the signature, and the
same sets are kept in the same order with the layout and without it.
-/

namespace Loadout

/-- Whether a code writes a signature down, with every number of it uncut in the digit of its
place. -/
structure Layout.Writes (l : Layout) (s : Signature) (code : Nat) : Prop where
  encoded : l.encode s = .ok code
  inSpace : code < l.space
  digit : ∀ n p, l.places[n]? = some p → l.digit code n = s.count p.component

namespace ArmourSet

/-- Whether a signature is offered to the sieve of some slot while sets are assembled. -/
def Offered (c : Catalogue) (r : Requirements) (layout : Option Layout) (seeds : List CharmSeed)
    (tables : List (List SlotEntry)) (s : Signature) : Prop :=
  ∃ n table sets, tables[n]? = some table ∧
    assemble c r layout seeds (tables.take n) = .ok sets ∧
    ∃ set ∈ extensions c r sets table, set.signature = s

variable {c : Catalogue} {r : Requirements} {layout : Option Layout} {seeds : List CharmSeed}
variable {tables : List (List SlotEntry)}

theorem within_of_offered (hr : r.Coherent c.skills)
    (hlayout : layout = none ∨ layout = Layout.ofRequirements? c.skills r)
    (hseeds : ∀ s ∈ seeds.map ofSeed, s.signature.Within c.skills r)
    (htables : ∀ table ∈ tables, ∀ e ∈ table, e.signature.Within c.skills r) {s : Signature}
    (hs : Offered c r layout seeds tables s) : s.Within c.skills r := by
  obtain ⟨n, table, sets, htable, hsets, set, hset, rfl⟩ := hs
  have htaken : ∀ table ∈ tables.take n, ∀ e ∈ table, e.signature.Within c.skills r :=
    fun table hmem => htables table (List.mem_of_mem_take hmem)
  have hfold := foldlM_extend_eq hr hlayout hseeds htaken
  rw [assemble, hfold] at hsets
  cases hsets
  exact within_of_mem_extensions (fun s hs => within_of_mem_foldl hseeds htaken hs)
    (htables table (List.mem_of_getElem? htable)) hset

theorem exists_writes (hr : r.Coherent c.skills) {l : Layout}
    (hl : Layout.ofRequirements? c.skills r = some l) {s : Signature} (hs : s.Within c.skills r) :
    ∃ code, l.Writes s code := by
  have hdistinct := distinct_of_ofRequirements? hr hl
  have hstays := staysWithin_of_within hr hl hs
  refine ⟨l.codeOf s, Layout.encode_eq_codeOf hstays, Layout.codeOf_lt_space hdistinct s, ?_⟩
  intro n p hp
  exact Layout.digit_codeOf hdistinct hstays hp

end ArmourSet

namespace Request

variable {q : Request} {c : Catalogue} {d : RequestDraft} {useful : List UsefulDecoration}
variable {tables : List (List SlotEntry)}

/-- Whatever is offered while sets are assembled uses the keys of the layout only, with numbers up
to its maxima, and is written down uncut if the layout exists.  Assembling comes to its end without
a layout, and with the layout, if it exists, it ends with the same list. -/
theorem assemble_ignores_layout (hq : resolve c d = .ok q)
    (huseful : c.decorationsFor q.requirements = .ok useful)
    (htables : q.slotTables c useful = .ok tables) :
    (∀ layout, layout = none ∨ layout = Layout.ofRequirements? c.skills q.requirements →
      ∀ s, ArmourSet.Offered c q.requirements layout (q.charmSeeds c) tables s →
        s.UsesOnly (q.requirements.skills.map fun k => (k, c.skills.cap k))
            (q.requirements.relevantBonuses.map fun b => (b, maxPieces)) ∧
          ∀ l, Layout.ofRequirements? c.skills q.requirements = some l →
            ∃ code, l.Writes s code) ∧
    ∃ sets, ArmourSet.assemble c q.requirements none (q.charmSeeds c) tables = .ok sets ∧
      ∀ l, Layout.ofRequirements? c.skills q.requirements = some l →
        ArmourSet.assemble c q.requirements (some l) (q.charmSeeds c) tables = .ok sets := by
  have hr := coherent_of_resolve hq
  constructor
  · intro layout hlayout s hs
    have hwithin : s.Within c.skills q.requirements :=
      ArmourSet.within_of_offered hr hlayout (fun s hs => within_of_mem_charmSeeds hs)
        (within_of_mem_slotTables huseful htables) hs
    exact ⟨ArmourSet.usesOnly_of_within hwithin,
      fun l hl => ArmourSet.exists_writes hr hl hwithin⟩
  · refine ⟨_, assemble_eq hr (.inl rfl) huseful htables, ?_⟩
    intro l hl
    exact assemble_eq hr (.inr hl.symm) huseful htables

theorem assemble_ignores_layout_archer :
    ∃ c q l sets, ∃ g : Groundwork Rat, archerDraft.resolve = .ok c ∧
      resolve c archerRequest = .ok q ∧ q.LaysOut c g ∧
      Layout.ofRequirements? c.skills q.requirements = some l ∧ l.space = 384 ∧
      sets.length = 2 ∧
      ArmourSet.assemble c q.requirements none (q.charmSeeds c) g.tables = .ok sets ∧
      ArmourSet.assemble c q.requirements (some l) (q.charmSeeds c) g.tables = .ok sets := by
  have hrun : (fromGroundwork archerDraft archerRequest fun c q (g : Groundwork Rat) =>
      (Layout.ofRequirements? c.skills q.requirements).map fun l => (l.space, g.sets.length)) =
        some (384, 2) := by
    decide +kernel
  obtain ⟨c, q, g, hc, hq, hlaid, hrun⟩ := exists_of_fromGroundwork hrun
  obtain ⟨l, hl, hsizes⟩ := Option.map_eq_some_iff.1 hrun
  obtain ⟨hspace, hlength⟩ := Prod.mk.inj hsizes
  obtain ⟨-, sets, hplain, hcoded⟩ := assemble_ignores_layout hq hlaid.useful hlaid.tables
  have hsame : g.sets = sets := by
    have hsets := hlaid.sets
    rw [hl, hcoded l hl] at hsets
    exact (Except.ok.inj hsets).symm
  exact ⟨c, q, l, sets, g, hc, hq, hlaid, hl, hspace, hsame ▸ hlength, hplain, hcoded l hl⟩

end Request

end Loadout
