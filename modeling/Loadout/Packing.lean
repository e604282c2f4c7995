import Loadout.Catalogue
import Loadout.Requirements
import Loadout.Search.Error

/-!
# Packing decorations into slots

Only the relevant levels of a decoration count, and a decoration that gives one such level is
useful only if no smaller one gives the same.  Useful decorations are packed from the largest size
down, front to back into slots from the largest down, so each one takes the largest slot that is
still free; copies beyond what its skills can still take are never added, and a packing leaves no
slot open.
-/

namespace Loadout

structure UsefulDecoration where
  id : DecorationId
  size : Nat
  levels : List (SkillId × Nat)
  deriving DecidableEq, Repr, Inhabited

namespace UsefulDecoration

def ofDecoration (r : Requirements) (id : DecorationId) (d : Decoration) : UsefulDecoration :=
  ⟨id, d.slotSize, d.skills.filter fun l => r.relevant l.1⟩

def total (u : UsefulDecoration) : Nat := (u.levels.map (·.2)).foldr (· + ·) 0

/-- Keeps a decoration as the one for its first skill unless one no larger is kept already. -/
def keepSmaller (kept : OrderedMap SkillId UsefulDecoration) (u : UsefulDecoration) :
    OrderedMap SkillId UsefulDecoration :=
  match u.levels with
  | [] => kept
  | (s, _) :: _ =>
      match kept.get? s with
      | some k => if u.size < k.size then kept.insert s u else kept
      | none => kept.insert s u

/-- The order of packing: larger sizes first, equal sizes by handle. -/
def comesBefore (a b : UsefulDecoration) : Bool :=
  b.size < a.size || (a.size == b.size && a.id.index ≤ b.id.index)

def arrange (decorations : List UsefulDecoration) : List UsefulDecoration :=
  decorations.mergeSort comesBefore

/-- The copies of a decoration after which none of its skills takes another level. -/
def usefulCopies (t : SkillTable) (levels : SkillLevels) (u : UsefulDecoration) :
    Except Fault Nat :=
  u.levels.foldlM
    (fun most l => do
      return max most (← Fault.stepsOver (t.cap l.1 - levels.count l.1) l.2))
    0

def gainCopies (t : SkillTable) (u : UsefulDecoration) : Nat → SkillLevels → SkillLevels
  | 0, levels => levels
  | n + 1, levels => gainCopies t u n (levels.gainAll t u.levels)

end UsefulDecoration

/-- The decorations that can help to meet requirements, in the order of packing. -/
def Catalogue.usefulDecorations (c : Catalogue) (r : Requirements) : List UsefulDecoration :=
  let allowed := c.allDecorations.filter fun d => !d.2.skills.any fun l => r.removes l.1
  let relevant := allowed.map fun d => UsefulDecoration.ofDecoration r d.1 d.2
  let single := (relevant.filter fun u => u.total == 1).foldl UsefulDecoration.keepSmaller ∅
  UsefulDecoration.arrange (single.entries.map (·.2) ++ relevant.filter fun u => 1 < u.total)

/-- The useful decorations, if there are any or none are called for. -/
def Catalogue.decorationsFor (c : Catalogue) (r : Requirements) :
    Except SearchError (List UsefulDecoration) :=
  let useful := c.usefulDecorations r
  if useful.isEmpty && !r.minimum.isEmpty then .error .noDecorations else .ok useful

/-- Decorations that fill slots, with the levels they lead to. -/
structure Packing where
  decorations : List DecorationId
  levels : SkillLevels
  deriving DecidableEq

namespace Packing

def withCopies (n : Nat) (d : DecorationId) (p : Packing) : Packing :=
  { p with decorations := List.replicate n d ++ p.decorations }

/-- Every way to fill slots, largest first, with decorations in the order of packing, on top of
given levels: of each decoration no copy, one copy, and so on. -/
def all (t : SkillTable) :
    List UsefulDecoration → List Nat → SkillLevels → Except Fault (List Packing)
  | [], slots, levels => .ok (if slots.isEmpty then [⟨[], levels⟩] else [])
  | u :: rest, slots, levels => do
      -- copies are worked out even where none fits: an empty step is a fault wherever it is met
      let fitting := (slots.takeWhile (u.size ≤ ·)).length
      let most := min (← u.usefulCopies t levels) fitting
      let packings ← (List.range (most + 1)).mapM fun n => do
        return (← all t rest (slots.drop n) (u.gainCopies t n levels)).map (withCopies n u.id)
      return packings.flatten

end Packing

end Loadout
