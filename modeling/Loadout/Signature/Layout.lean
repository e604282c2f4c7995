import Loadout.Fault
import Loadout.Requirements
import Loadout.Signature

/-!
# Layouts of signatures

A layout lists the skills and set bonuses that signatures may use, each with the largest number it
can have.  Written in mixed radix, one digit for each place of the layout and the first place
lowest, a signature is a single number, its code.  A layout exists only if all its codes fit into
128 bits.  What has been seen is then a set of codes, held as bits if there are few codes.
-/

namespace Loadout

/-- A component with the largest number it can have. -/
structure Place where
  component : Component
  maximum : Nat
  deriving DecidableEq, Repr

namespace Place

def radix (p : Place) : Nat := p.maximum + 1

def space : List Place → Nat
  | [] => 1
  | p :: rest => p.radix * space rest

/-- The digits of a signature, its numbers cut at the maxima.  Of places with the same component
only the last has a digit. -/
def digits (s : Signature) : List Place → List Nat
  | [] => []
  | p :: rest =>
      (if rest.any (·.component = p.component) then 0 else min (s.count p.component) p.maximum) ::
        digits s rest

/-- The number that digits denote, the first digit lowest. -/
def ofDigits : List Place → List Nat → Nat
  | p :: rest, d :: ds => d + p.radix * ofDigits rest ds
  | _, _ => 0

/-- The codes that are one lower at one place, where the first place has the given weight. -/
def below (stride code : Nat) : List Place → List Nat
  | [] => []
  | p :: rest =>
      let others := below (stride * p.radix) code rest
      if 0 < code / stride % p.radix then (code - stride) :: others else others

theorem lt_of_mem_below {stride code c : Nat} {places : List Place} (hstride : 0 < stride)
    (h : c ∈ below stride code places) : c < code := by
  induction places generalizing stride with
  | nil => simp [below] at h
  | cons p rest ih =>
    have hothers : c ∈ below (stride * p.radix) code rest → c < code :=
      ih (Nat.mul_pos hstride (Nat.succ_pos _))
    unfold below at h
    split at h
    next hdigit =>
      rcases List.mem_cons.1 h with rfl | h
      · have hdiv : 0 < code / stride := Nat.lt_of_lt_of_le hdigit (Nat.mod_le _ _)
        have := (Nat.div_pos_iff.1 hdiv).2
        omega
      · exact hothers h
    next => exact hothers h

end Place

def codeLimit : Nat := 340282366920938463463374607431768211455

/-- A list of places whose codes fit into 128 bits. -/
structure Layout where
  places : List Place
  fits : Place.space places ≤ codeLimit

namespace Layout

/-- The layout of given places, if their codes fit. -/
def ofPlaces? (places : List Place) : Option Layout :=
  if h : Place.space places ≤ codeLimit then some ⟨places, h⟩ else none

/-- The layout of skills and set bonuses with their maxima. -/
def ofMaxima? (skills : List (SkillId × Nat)) (bonuses : List (BonusId × Nat)) : Option Layout :=
  ofPlaces? (skills.map (fun e => ⟨.skill e.1, e.2⟩) ++ bonuses.map fun e => ⟨.bonus e.1, e.2⟩)

def ofRequirements? (t : SkillTable) (r : Requirements) : Option Layout :=
  ofMaxima? (r.skills.map fun s => (s, t.cap s)) (r.relevantBonuses.map fun b => (b, maxPieces))

def space (l : Layout) : Nat := Place.space l.places

def stride (l : Layout) (position : Nat) : Nat := Place.space (l.places.take position)

def digit (l : Layout) (code position : Nat) : Nat :=
  match l.places[position]? with
  | some p => code / l.stride position % p.radix
  | none => 0

def lists (l : Layout) (c : Component) : Bool := l.places.any (·.component = c)

/-- The code of a signature, all of whose components must have a place. -/
def encode (l : Layout) (s : Signature) : Except Fault Nat :=
  if s.components.all l.lists then .ok (Place.ofDigits l.places (Place.digits s l.places))
  else .error .unlisted

/-- One unit below a code are those that are one lower at one place. -/
def descent (l : Layout) : Descent Nat where
  below code := Place.below 1 code l.places
  rank := id
  rank_lt h := Place.lt_of_mem_below Nat.one_pos h

end Layout

inductive SeenCodes where
  /-- A bit for every code, in words of 64 bits, and the number of bits that are set. -/
  | dense (words : Array UInt64) (count : Nat)
  | sparse (codes : Std.HashSet Nat)

namespace SeenCodes

def denseLimit : Nat := 67108864

def wordBits : Nat := 64

def ofSpace (space : Nat) : SeenCodes :=
  if space ≤ denseLimit then .dense (.replicate ((space + (wordBits - 1)) / wordBits) 0) 0
  else .sparse ∅

def bit (code : Nat) : UInt64 := 1 <<< UInt64.ofNat (code % wordBits)

def isSet (words : Array UInt64) (code : Nat) : Bool :=
  words.getD (code / wordBits) 0 &&& bit code != 0

def contains : SeenCodes → Nat → Bool
  | dense words _, code => isSet words code
  | sparse codes, code => codes.contains code

def insert : SeenCodes → Nat → SeenCodes
  | dense words count, code =>
      if isSet words code then dense words count
      else dense (words.modify (code / wordBits) (· ||| bit code)) (count + 1)
  | sparse codes, code => sparse (codes.insert code)

def size : SeenCodes → Nat
  | dense _ count => count
  | sparse codes => codes.size

instance : SeenSet SeenCodes Nat := ⟨contains, insert, size⟩

end SeenCodes

/-- Payloads under codes, of which the largest are kept. -/
abbrev CodeMap (α : Type) := SeenMap SeenCodes Nat α

namespace CodeMap

variable {α : Type}

/-- The map of a layout, before any offer. -/
def ofLayout (l : Layout) : CodeMap α := .ofSeen (.ofSpace l.space)

def offer (l : Layout) (m : CodeMap α) (s : Signature) (payload : α) : Except Fault (CodeMap α) := do
  return m.add l.descent (← l.encode s) payload

def ofOffers (l : Layout) (offers : List (Signature × α)) : Except Fault (CodeMap α) :=
  offers.foldlM (fun m e => offer l m e.1 e.2) (ofLayout l)

end CodeMap

/-- Payloads with their signatures, of which only the largest are kept: by their codes if there is a
layout, by the signatures themselves otherwise. -/
inductive Sieve (α : Type) where
  | coded (layout : Layout) (map : CodeMap α)
  | plain (map : SignatureMap α)

namespace Sieve

variable {α : Type}

/-- The sieve of a layout, before any offer. -/
def ofLayout : Option Layout → Sieve α
  | some l => coded l (.ofLayout l)
  | none => plain ∅

def offer : Sieve α → Signature → α → Except Fault (Sieve α)
  | coded l map, s, payload => do return coded l (← CodeMap.offer l map s payload)
  | plain map, s, payload => .ok (plain (map.add Signature.descent s payload))

/-- The payloads kept, oldest first. -/
def payloads : Sieve α → List α
  | coded _ map => map.payloads
  | plain map => map.payloads

def size : Sieve α → Nat
  | coded _ map => map.size
  | plain map => map.size

def reach : Sieve α → Nat
  | coded _ map => map.reach
  | plain map => map.reach

def isCoded : Sieve α → Bool
  | coded _ _ => true
  | plain _ => false

end Sieve

end Loadout
