import Loadout.Catalogue.Resolve
import Loadout.Proofs.AcceptedRequests
import Loadout.Proofs.GrantedSignatures

/-!
# Assembled sets

A set is assembled from a choice: a charm or none, and for each slot an allowed piece with a packing
of its slots.  Seeds, tables and the sets after each slot are fronts of such choices, so assembling
is a fold of fronts, with or without a layout.
-/

namespace Loadout

namespace Request

variable {q : Request} {c : Catalogue} {useful : List UsefulDecoration}

def seedChoices (q : Request) (c : Catalogue) : List CharmSeed := ⟨none, ∅⟩ :: q.eligibleCharms c

theorem charmSeeds_eq (q : Request) (c : Catalogue) :
    q.charmSeeds c = frontOf CharmSeed.signature (q.seedChoices c) :=
  SignatureMap.payloads_ofOffers CharmSeed.signature (q.seedChoices c)

/-- Whether an entry is one of the ways to wear an allowed piece of a slot. -/
def SlotChoice (q : Request) (c : Catalogue) (useful : List UsefulDecoration) (slot : Slot)
    (e : SlotEntry) : Prop :=
  ∃ p ∈ q.allowedPieces c slot, ∃ entries, q.slotEntries c useful p.1 = .ok entries ∧ e ∈ entries

def slotFront (q : Request) (c : Catalogue) (useful : List UsefulDecoration) (slot : Slot) :
    Except SearchError (List SlotEntry) := do
  if (q.allowedPieces c slot).isEmpty then throw (.emptySlot slot)
  let entries ← SearchError.ofFault
    ((q.allowedPieces c slot).mapM fun p => q.slotEntries c useful p.1)
  return frontOf SlotEntry.signature entries.flatten

theorem slotTable_eq (q : Request) (c : Catalogue) (useful : List UsefulDecoration) (slot : Slot) :
    q.slotTable c useful slot = q.slotFront c useful slot := by
  unfold slotTable slotFront
  simp only [SignatureMap.payloads_ofOffers]

theorem slotTables_eq (q : Request) (c : Catalogue) (useful : List UsefulDecoration) :
    q.slotTables c useful = Slot.all.mapM (q.slotFront c useful) := by
  have htable : q.slotTable c useful = q.slotFront c useful := funext (slotTable_eq q c useful)
  rw [slotTables, htable]

theorem slotTable_eq_ok {slot : Slot} {table : List SlotEntry}
    (h : q.slotTable c useful slot = .ok table) :
    ∃ entries, (∀ e, e ∈ entries ↔ q.SlotChoice c useful slot e) ∧
      table = frontOf SlotEntry.signature entries := by
  rw [slotTable_eq] at h
  unfold slotFront at h
  split at h
  next => cases h
  next =>
    obtain ⟨lists, hlists, h⟩ := SuccessfulRun.bind_eq_ok_iff.1 h
    have hruns := SuccessfulRun.mapM_eq_ok_iff.1 (SearchError.ofFault_eq_ok_iff.1 hlists)
    refine ⟨lists.flatten, ?_, (Except.ok.inj h).symm⟩
    intro e
    rw [List.mem_flatten]
    constructor
    · rintro ⟨entries, hentries, he⟩
      obtain ⟨p, hp, hrun⟩ := SuccessfulRun.exists_item hruns hentries
      exact ⟨p, hp, entries, hrun, he⟩
    · rintro ⟨p, hp, entries, hrun, he⟩
      obtain ⟨entries', hentries', hrun'⟩ := SuccessfulRun.exists_result hruns hp
      have hsame : entries = entries' := Except.ok.inj (hrun.symm.trans hrun')
      exact ⟨entries', hentries', hsame ▸ he⟩

theorem slotTables_eq_ok {tables : List (List SlotEntry)}
    (h : q.slotTables c useful = .ok tables) :
    List.Forall₂ (fun slot table => q.slotTable c useful slot = .ok table) Slot.all tables :=
  SuccessfulRun.mapM_eq_ok_iff.1 h

theorem exists_of_mem_eligibleCharms {seed : CharmSeed} (h : seed ∈ q.eligibleCharms c) :
    ∃ charm ∈ c.allCharms, (∀ s ∈ charm.2.skills, q.requirements.removes s = false) ∧
      seed.charm = some charm.1 ∧
      seed.signature = .ofGrants c.skills q.requirements charm.2.grants [] := by
  obtain ⟨charm, hcharm, rfl⟩ := List.mem_map.1 h
  obtain ⟨hmem, hkeeps⟩ := List.mem_filter.1 hcharm
  refine ⟨charm, hmem, ?_, rfl, ?_⟩
  · intro s hs
    have hnone : ∀ s ∈ charm.2.skills, q.requirements.removes s = false := by simpa using hkeeps
    exact hnone s hs
  · rw [CharmSeed.signature, SkillLevels.restrict_gainAll]
    rfl

theorem within_of_mem_seedChoices {seed : CharmSeed} (h : seed ∈ q.seedChoices c) :
    seed.signature.Within c.skills q.requirements := by
  rcases List.mem_cons.1 h with rfl | h
  · exact Signature.within_ofGrants [] []
  · obtain ⟨charm, -, -, -, hsignature⟩ := exists_of_mem_eligibleCharms h
    rw [hsignature]
    exact Signature.within_ofGrants charm.2.grants []

/-- How an entry of a slot is made: from a piece and useful decorations, one for each of its
slots. -/
structure MadeOf (q : Request) (c : Catalogue) (useful : List UsefulDecoration) (e : SlotEntry)
    (chosen : List UsefulDecoration) : Prop where
  useful : ∀ u ∈ chosen, u ∈ useful
  decorations : e.decorations = chosen.map (·.id)
  fits : List.Forall₂ (fun u size => u.size ≤ size) chosen (c.piece e.piece).decoSlots
  signature : e.signature = .ofGrants c.skills q.requirements
    ((c.piece e.piece).skills ++ chosen.flatMap (·.levels))
    ((c.piece e.piece).bonus.toList.map (·, 1))

theorem filter_levels_of_useful (huseful : c.decorationsFor q.requirements = .ok useful)
    {chosen : List UsefulDecoration} (h : ∀ u ∈ chosen, u ∈ useful) :
    (chosen.flatMap (·.levels)).filter (fun l => q.requirements.relevant l.1) =
      chosen.flatMap (·.levels) := by
  rw [List.filter_eq_self]
  intro l hl
  obtain ⟨u, hu, hl⟩ := List.mem_flatMap.1 hl
  have hmem : u ∈ c.usefulDecorations q.requirements :=
    Catalogue.eq_of_decorationsFor huseful ▸ h u hu
  obtain ⟨d, -, -, rfl⟩ := Catalogue.exists_of_mem_usefulDecorations hmem
  exact (List.mem_filter.1 hl).2

theorem SlotChoice.exists_madeOf (huseful : c.decorationsFor q.requirements = .ok useful)
    {slot : Slot} {e : SlotEntry} (h : q.SlotChoice c useful slot e) :
    ∃ p ∈ q.allowedPieces c slot, e.piece = p.1 ∧ ∃ chosen, q.MadeOf c useful e chosen := by
  obtain ⟨p, hp, entries, hentries, he⟩ := h
  obtain ⟨packings, hpackings, h⟩ := SuccessfulRun.bind_eq_ok_iff.1 hentries
  cases h
  obtain ⟨packing, hpacking, rfl⟩ := List.mem_map.1 he
  obtain ⟨chosen, hchosen, hfilled⟩ := Packing.exists_filledBy hpackings hpacking
  refine ⟨p, hp, rfl, chosen, hchosen, hfilled.decorations, hfilled.fits, ?_⟩
  have hlevels : packing.levels = Tally.collect c.skills.cap
      (((c.piece p.1).skills ++ chosen.flatMap (·.levels)).filter fun g =>
        q.requirements.relevant g.1) := by
    rw [hfilled.levels, Requirements.pieceSignature, SkillLevels.restrict_gainAll,
      SkillLevels.gainAll_eq_raiseAll, Tally.raiseAll_collect, List.filter_append,
      filter_levels_of_useful huseful hchosen]
  have hpieces : (q.requirements.pieceSignature c.skills (c.piece p.1)).pieces =
      Tally.collect (fun _ => maxPieces) (((c.piece p.1).bonus.toList.map (·, 1)).filter fun b =>
        q.requirements.bonusRelevant b.1) :=
    Tally.keep_collect (fun _ => maxPieces) q.requirements.bonusRelevant _
  rw [Signature.ofGrants, ← hlevels, ← hpieces]

theorem SlotChoice.within (huseful : c.decorationsFor q.requirements = .ok useful) {slot : Slot}
    {e : SlotEntry} (h : q.SlotChoice c useful slot e) :
    e.signature.Within c.skills q.requirements := by
  obtain ⟨p, -, -, chosen, hmade⟩ := h.exists_madeOf huseful
  rw [hmade.signature]
  exact Signature.within_ofGrants _ _

end Request

/-- One charm or none, and for each of some slots a way to wear an allowed piece. -/
structure Choice (q : Request) (c : Catalogue) (useful : List UsefulDecoration)
    (slots : List Slot) where
  seed : CharmSeed
  entries : List SlotEntry
  eligible : seed ∈ q.seedChoices c
  allowed : List.Forall₂ (q.SlotChoice c useful) slots entries

namespace Choice

variable {q : Request} {c : Catalogue} {useful : List UsefulDecoration} {slots : List Slot}

def set (x : Choice q c useful slots) : ArmourSet :=
  x.entries.foldl (ArmourSet.wear c) (.ofSeed x.seed)

def signature (x : Choice q c useful slots) : Signature :=
  x.entries.foldl (fun s e => s.merge c.skills e.signature) x.seed.signature

def ofSeed (seed : CharmSeed) (h : seed ∈ q.seedChoices c) : Choice q c useful [] :=
  ⟨seed, [], h, .nil⟩

def snoc (x : Choice q c useful slots) {slot : Slot} {e : SlotEntry}
    (h : q.SlotChoice c useful slot e) : Choice q c useful (slots ++ [slot]) where
  seed := x.seed
  entries := x.entries ++ [e]
  eligible := x.eligible
  allowed := List.rel_append x.allowed (.cons h .nil)

theorem entries_eq_nil (x : Choice q c useful []) : x.entries = [] :=
  List.forall₂_nil_left_iff.1 x.allowed

theorem set_snoc (x : Choice q c useful slots) {slot : Slot} {e : SlotEntry}
    (h : q.SlotChoice c useful slot e) : (x.snoc h).set = x.set.wear c e := by
  simp [set, snoc]

theorem signature_snoc (x : Choice q c useful slots) {slot : Slot} {e : SlotEntry}
    (h : q.SlotChoice c useful slot e) :
    (x.snoc h).signature = x.signature.merge c.skills e.signature := by
  simp [signature, snoc]

/-- Every choice for one slot more is a choice for the others with an entry for this slot. -/
theorem exists_snoc {slot : Slot} (x : Choice q c useful (slots ++ [slot])) :
    ∃ (y : Choice q c useful slots) (e : SlotEntry) (h : q.SlotChoice c useful slot e),
      x = y.snoc h := by
  obtain ⟨seed, entries, eligible, allowed⟩ := x
  have hfirst := List.forall₂_take slots.length allowed
  have hrest := List.forall₂_drop slots.length allowed
  rw [List.take_left] at hfirst
  rw [List.drop_left] at hrest
  obtain ⟨e, rest, he, hnil, heq⟩ := List.forall₂_cons_left_iff.1 hrest
  rw [List.forall₂_nil_left_iff] at hnil
  subst hnil
  have hentries : entries = entries.take slots.length ++ [e] := by
    rw [← heq, List.take_append_drop]
  refine ⟨⟨seed, entries.take slots.length, eligible, hfirst⟩, e, he, ?_⟩
  simp only [snoc, Choice.mk.injEq, true_and]
  exact hentries

theorem signature_set (x : Choice q c useful slots) : x.set.signature = x.signature := by
  have hfold : ∀ (entries : List SlotEntry) (s : ArmourSet),
      (entries.foldl (ArmourSet.wear c) s).signature =
        entries.foldl (fun s e => s.merge c.skills e.signature) s.signature := by
    intro entries
    induction entries with
    | nil => intro s; rfl
    | cons e rest ih =>
        intro s
        exact ih (s.wear c e)
  exact hfold x.entries (.ofSeed x.seed)

theorem within (huseful : c.decorationsFor q.requirements = .ok useful)
    (x : Choice q c useful slots) : x.signature.Within c.skills q.requirements := by
  induction slots using List.reverseRecOn with
  | nil =>
      rw [signature, x.entries_eq_nil]
      exact Request.within_of_mem_seedChoices x.eligible
  | append_singleton slots slot ih =>
      obtain ⟨y, e, he, rfl⟩ := x.exists_snoc
      rw [signature_snoc]
      exact (ih y).merge (he.within huseful)

end Choice

namespace ArmourSet

variable {c : Catalogue} {r : Requirements} {layout : Option Layout}

def nextFront (c : Catalogue) (r : Requirements) (sets : List ArmourSet) (table : List SlotEntry) :
    List ArmourSet :=
  frontOf ArmourSet.signature (extensions c r sets table)

theorem mem_extensions {sets : List ArmourSet} {table : List SlotEntry} {s : ArmourSet} :
    s ∈ extensions c r sets table ↔ ∃ first ∈ sets, ∃ e ∈ table,
      r.withinCutoffs (SetPieces.merge first.signature.pieces e.signature.pieces) = true ∧
        first.wear c e = s := by
  simp only [extensions, List.mem_flatMap, List.mem_map, List.mem_filter, and_assoc]

theorem usesOnly_of_within {t : SkillTable} {s : Signature} (h : s.Within t r) :
    s.UsesOnly (r.skills.map fun k => (k, t.cap k))
      (r.relevantBonuses.map fun b => (b, maxPieces)) := by
  constructor
  · rintro ⟨k, n⟩ hmem
    obtain ⟨hcount, hpos⟩ := Tally.mem_toList_iff.1 hmem
    have hk : k ∈ r.skills := Requirements.relevant_iff.1 (h.relevant k (hcount ▸ hpos))
    have hle := h.levels k
    exact ⟨(k, t.cap k), List.mem_map_of_mem hk, rfl, hcount ▸ hle⟩
  · rintro ⟨b, n⟩ hmem
    obtain ⟨hcount, hpos⟩ := Tally.mem_toList_iff.1 hmem
    have hb : b ∈ r.relevantBonuses :=
      List.contains_iff_mem.1 (h.bonusRelevant b (hcount ▸ hpos))
    have hle := h.pieces b
    exact ⟨(b, maxPieces), List.mem_map_of_mem hb, rfl, hcount ▸ hle⟩

theorem distinct_of_ofRequirements? {t : SkillTable} (hr : r.Coherent t) {l : Layout}
    (hl : Layout.ofRequirements? t r = some l) : Place.Distinct l.places := by
  apply Layout.distinct_of_ofMaxima? hl
  · simpa [Function.comp_def, Requirements.skills] using r.minimum.nodup_keys
  · simpa [Function.comp_def] using hr.nodup_relevantBonuses

theorem staysWithin_of_within {t : SkillTable} (hr : r.Coherent t) {l : Layout}
    (hl : Layout.ofRequirements? t r = some l) {s : Signature} (hs : s.Within t r) :
    s.StaysWithin l.places := by
  apply Layout.staysWithin_of_usesOnly hl _ _ (usesOnly_of_within hs)
  · simpa [Function.comp_def, Requirements.skills] using r.minimum.nodup_keys
  · simpa [Function.comp_def] using hr.nodup_relevantBonuses

theorem within_of_mem_extensions {sets : List ArmourSet} {table : List SlotEntry}
    (hsets : ∀ s ∈ sets, s.signature.Within c.skills r)
    (htable : ∀ e ∈ table, e.signature.Within c.skills r) {s : ArmourSet}
    (hs : s ∈ extensions c r sets table) : s.signature.Within c.skills r := by
  obtain ⟨first, hfirst, e, he, -, rfl⟩ := mem_extensions.1 hs
  exact (hsets first hfirst).merge (htable e he)

theorem within_of_mem_foldl {tables : List (List SlotEntry)} {sets : List ArmourSet}
    (hsets : ∀ s ∈ sets, s.signature.Within c.skills r)
    (htables : ∀ table ∈ tables, ∀ e ∈ table, e.signature.Within c.skills r) {s : ArmourSet}
    (hs : s ∈ tables.foldl (nextFront c r) sets) : s.signature.Within c.skills r := by
  induction tables generalizing sets with
  | nil => exact hsets s hs
  | cons table rest ih =>
      have hnext : ∀ s ∈ nextFront c r sets table, s.signature.Within c.skills r := fun s hs =>
        within_of_mem_extensions hsets (htables table (by simp)) (frontOf_subset hs)
      exact ih hnext (fun table htable => htables table (by simp [htable])) hs

theorem extend_eq (hr : r.Coherent c.skills)
    (hlayout : layout = none ∨ layout = Layout.ofRequirements? c.skills r)
    {sets : List ArmourSet} {table : List SlotEntry}
    (hsets : ∀ s ∈ sets, s.signature.Within c.skills r)
    (htable : ∀ e ∈ table, e.signature.Within c.skills r) :
    extend c r layout sets table = .ok (nextFront c r sets table) ∧
      ∀ s ∈ nextFront c r sets table, s.signature.Within c.skills r := by
  have hplaces : ∀ l, layout = some l → Place.Distinct l.places ∧
      ∀ s ∈ extensions c r sets table, s.signature.StaysWithin l.places := by
    intro l hl
    have hsome : Layout.ofRequirements? c.skills r = some l := by
      rcases hlayout with hnone | hsome
      · rw [hnone] at hl
        cases hl
      · exact hsome ▸ hl
    exact ⟨distinct_of_ofRequirements? hr hsome, fun s hs =>
      staysWithin_of_within hr hsome (within_of_mem_extensions hsets htable hs)⟩
  obtain ⟨sieve, hsieve, hpayloads⟩ := Sieve.keeps_front hplaces
  constructor
  · exact SuccessfulRun.bind_eq_ok_iff.2 ⟨sieve, hsieve, congrArg Except.ok hpayloads⟩
  · intro s hs
    exact within_of_mem_extensions hsets htable (frontOf_subset hs)

/-- Assembling comes to its end and is a fold of fronts. -/
theorem foldlM_extend_eq (hr : r.Coherent c.skills)
    (hlayout : layout = none ∨ layout = Layout.ofRequirements? c.skills r)
    {tables : List (List SlotEntry)} {sets : List ArmourSet}
    (hsets : ∀ s ∈ sets, s.signature.Within c.skills r)
    (htables : ∀ table ∈ tables, ∀ e ∈ table, e.signature.Within c.skills r) :
    tables.foldlM (extend c r layout) sets = .ok (tables.foldl (nextFront c r) sets) := by
  induction tables generalizing sets with
  | nil => rfl
  | cons table rest ih =>
      obtain ⟨hextend, hnext⟩ := extend_eq hr hlayout hsets (htables table (by simp))
      have hrest := ih hnext fun table htable => htables table (by simp [htable])
      exact SuccessfulRun.bind_eq_ok_iff.2 ⟨_, hextend, hrest⟩

end ArmourSet

namespace Request

variable {q : Request} {c : Catalogue} {useful : List UsefulDecoration} {layout : Option Layout}
variable {tables : List (List SlotEntry)}

theorem slotChoice_of_mem_table {slot : Slot} {table : List SlotEntry}
    (h : q.slotTable c useful slot = .ok table) {e : SlotEntry} (he : e ∈ table) :
    q.SlotChoice c useful slot e := by
  obtain ⟨entries, hentries, rfl⟩ := slotTable_eq_ok h
  exact (hentries e).1 (frontOf_subset he)

theorem within_of_mem_charmSeeds {s : ArmourSet}
    (hs : s ∈ (q.charmSeeds c).map ArmourSet.ofSeed) :
    s.signature.Within c.skills q.requirements := by
  obtain ⟨seed, hseed, rfl⟩ := List.mem_map.1 hs
  rw [charmSeeds_eq] at hseed
  exact within_of_mem_seedChoices (frontOf_subset hseed)

theorem within_of_mem_slotTables (huseful : c.decorationsFor q.requirements = .ok useful)
    (htables : q.slotTables c useful = .ok tables) :
    ∀ table ∈ tables, ∀ e ∈ table, e.signature.Within c.skills q.requirements := by
  intro table htable e he
  obtain ⟨slot, -, hslot⟩ := SuccessfulRun.exists_item (slotTables_eq_ok htables) htable
  exact (slotChoice_of_mem_table hslot he).within huseful

theorem assemble_eq (hr : q.requirements.Coherent c.skills)
    (hlayout : layout = none ∨ layout = Layout.ofRequirements? c.skills q.requirements)
    (huseful : c.decorationsFor q.requirements = .ok useful)
    (htables : q.slotTables c useful = .ok tables) :
    ArmourSet.assemble c q.requirements layout (q.charmSeeds c) tables =
      .ok (tables.foldl (ArmourSet.nextFront c q.requirements)
        ((q.charmSeeds c).map ArmourSet.ofSeed)) := by
  apply ArmourSet.foldlM_extend_eq hr hlayout
  · exact fun s hs => within_of_mem_charmSeeds hs
  · exact within_of_mem_slotTables huseful htables

theorem exists_choice_of_mem_seeds {s : ArmourSet}
    (hs : s ∈ (q.charmSeeds c).map ArmourSet.ofSeed) : ∃ x : Choice q c useful [], x.set = s := by
  obtain ⟨seed, hseed, rfl⟩ := List.mem_map.1 hs
  rw [charmSeeds_eq] at hseed
  exact ⟨.ofSeed seed (frontOf_subset hseed), rfl⟩

theorem exists_choice_of_mem_nextFront {done : List Slot} {slot : Slot} {table : List SlotEntry}
    (hslot : q.slotTable c useful slot = .ok table) {sets : List ArmourSet}
    (hsets : ∀ s ∈ sets, ∃ x : Choice q c useful done, x.set = s) :
    ∀ s ∈ ArmourSet.nextFront c q.requirements sets table,
      ∃ x : Choice q c useful (done ++ [slot]), x.set = s := by
  intro s hs
  obtain ⟨first, hfirst, e, he, -, rfl⟩ := ArmourSet.mem_extensions.1 (frontOf_subset hs)
  obtain ⟨x, rfl⟩ := hsets first hfirst
  have hchoice := slotChoice_of_mem_table hslot he
  exact ⟨x.snoc hchoice, x.set_snoc hchoice⟩

/-- Every set after some more slots is the set of a choice, if the sets before are. -/
theorem exists_choice_of_foldl {done slots : List Slot} {sets : List ArmourSet}
    (hruns : List.Forall₂ (fun slot table => q.slotTable c useful slot = .ok table) slots tables)
    (hsets : ∀ s ∈ sets, ∃ x : Choice q c useful done, x.set = s) :
    ∀ s ∈ tables.foldl (ArmourSet.nextFront c q.requirements) sets,
      ∃ x : Choice q c useful (done ++ slots), x.set = s := by
  induction hruns generalizing done sets with
  | nil =>
      rw [List.append_nil]
      exact hsets
  | @cons slot table slots tables hslot _ ih =>
      have hall := ih (exists_choice_of_mem_nextFront hslot hsets)
      rwa [List.append_assoc] at hall

theorem exists_choice_of_assemble (hr : q.requirements.Coherent c.skills)
    (hlayout : layout = none ∨ layout = Layout.ofRequirements? c.skills q.requirements)
    (huseful : c.decorationsFor q.requirements = .ok useful)
    (htables : q.slotTables c useful = .ok tables) {sets : List ArmourSet}
    (h : ArmourSet.assemble c q.requirements layout (q.charmSeeds c) tables = .ok sets)
    {s : ArmourSet} (hs : s ∈ sets) : ∃ x : Choice q c useful Slot.all, x.set = s := by
  rw [assemble_eq hr hlayout huseful htables] at h
  cases h
  exact exists_choice_of_foldl (slotTables_eq_ok htables)
    (fun s hs => exists_choice_of_mem_seeds hs) s hs

end Request

/-- Two sets of armour for a bow, of which the second only has a head piece. -/
def archerDraft : CatalogueDraft where
  skills := ⟨.ofList [("ATTACK_BOOST", ⟨"Attack Boost", 7, none, none, none⟩),
      ("CRITICAL_EYE", ⟨"Critical Eye", 7, none, none, none⟩)],
    .ofList [("GUILD", ⟨"Guild", [⟨2, "ATTACK_BOOST"⟩]⟩)]⟩
  decorations := [⟨"ATTACK_JEWEL", "Attack Jewel", 1, .ofList [("ATTACK_BOOST", 1)]⟩]
  armour := [
    ⟨"Guild", .low, some "GUILD", .ofList [(.head, ⟨.ofList [("ATTACK_BOOST", 1)], [1]⟩),
      (.chest, ⟨∅, []⟩), (.arms, ⟨∅, []⟩), (.waist, ⟨∅, []⟩), (.legs, ⟨∅, []⟩)]⟩,
    ⟨"Hunter", .low, none, .ofList [(.head, ⟨.ofList [("CRITICAL_EYE", 1)], []⟩)]⟩]
  charms := [⟨"ATTACK_CHARM", "Attack Charm", 1, ["ATTACK_BOOST"]⟩]
  weapons := [{
    id := "BOW", name := "Bow", weaponClass := .bow, rarity := 1, trueRaw := 100, affinity := 0
    skill := none, slots := [1], element := {}, gauge := none, constantSharpness := false
    augments := .none, upgrades := .none }]
  buffs := []

/-- A request that only the second head piece can meet. -/
def archerRequest : RequestDraft where
  allowLow := true
  allowHigh := false
  allowMaster := false
  healthRegenRequired := false
  weaponClass := .bow
  allowElement := []
  damageModel := ⟨100, fun _ => none, 100, fun _ => 0⟩
  requirements := ⟨.ofList [("ATTACK_BOOST", 1), ("CRITICAL_EYE", 1)], ∅, [], ∅⟩
  buffs := []

end Loadout
