import Std.Data.HashMap
import Std.Data.HashSet

/-!
# Maps of what has been seen

A map keeps payloads under keys, of which only the largest count.  A key that is added is registered
together with everything below it, so whatever is no larger than an earlier key is turned away at
once.  Registering works off a list of pending keys and goes no further below a key that is already
registered; a payload is dropped when its own key comes up again, which means that something larger
has arrived.
-/

namespace Loadout

/-- What lies one unit below a key, in a type where every way down comes to an end. -/
structure Descent (κ : Type) where
  below : κ → List κ
  rank : κ → Nat
  rank_lt : ∀ {k c : κ}, c ∈ below k → rank c < rank k

namespace Descent

variable {κ : Type}

/-- The number of ways down from a key, the one that stays there counted. -/
def weight (d : Descent κ) (k : κ) : Nat :=
  1 + ((d.below k).attach.map fun c => d.weight c.1).foldr (· + ·) 0
termination_by d.rank k
decreasing_by exact d.rank_lt c.2

def weightOf (d : Descent κ) (keys : List κ) : Nat := (keys.map d.weight).foldr (· + ·) 0

theorem weight_eq (d : Descent κ) (k : κ) : d.weight k = 1 + d.weightOf (d.below k) := by
  rw [weight, List.attach_map_val, weightOf]

@[simp] theorem weightOf_nil (d : Descent κ) : d.weightOf [] = 0 := rfl

@[simp] theorem weightOf_cons (d : Descent κ) (k : κ) (rest : List κ) :
    d.weightOf (k :: rest) = d.weight k + d.weightOf rest := rfl

@[simp] theorem weightOf_append (d : Descent κ) (first second : List κ) :
    d.weightOf (first ++ second) = d.weightOf first + d.weightOf second := by
  induction first with
  | nil => simp
  | cons k rest ih => simp [ih]; omega

@[simp] theorem weightOf_reverse (d : Descent κ) (keys : List κ) :
    d.weightOf keys.reverse = d.weightOf keys := by
  induction keys with
  | nil => rfl
  | cons k rest ih => simp [ih]; omega

end Descent

/-- A way to hold the keys that have been seen. -/
class SeenSet (σ : Type) (κ : outParam Type) where
  contains : σ → κ → Bool
  insert : σ → κ → σ
  size : σ → Nat

instance {κ : Type} [BEq κ] [Hashable κ] : SeenSet (Std.HashSet κ) κ where
  contains := Std.HashSet.contains
  insert := Std.HashSet.insert
  size := Std.HashSet.size

/-- Payloads in the order in which they came, each under its key.  A payload that is dropped leaves
its place empty. -/
structure Shelf (κ α : Type) [BEq κ] [Hashable κ] where
  places : Array (Option α)
  /-- The place of each key whose payload is still there. -/
  index : Std.HashMap κ Nat
  live : Nat

namespace Shelf

variable {κ α : Type} [BEq κ] [Hashable κ]

def empty : Shelf κ α := ⟨#[], ∅, 0⟩

instance : EmptyCollection (Shelf κ α) := ⟨empty⟩

instance : Inhabited (Shelf κ α) := ⟨empty⟩

def put (s : Shelf κ α) (k : κ) (payload : α) : Shelf κ α where
  places := s.places.push (some payload)
  index := s.index.insert k s.places.size
  live := s.live + 1

/-- Drops the payload of a key, if there is one. -/
def drop (s : Shelf κ α) (k : κ) : Shelf κ α :=
  match s.index[k]? with
  | none => s
  | some n =>
      match s.places[n]? with
      | some (some _) => ⟨s.places.setIfInBounds n none, s.index.erase k, s.live - 1⟩
      | _ => { s with index := s.index.erase k }

/-- The payloads that are still there, oldest first. -/
def payloads (s : Shelf κ α) : List α := s.places.toList.filterMap id

end Shelf

/-- The keys that have been seen, and the payloads of the largest ones. -/
structure SeenMap (σ κ α : Type) [BEq κ] [Hashable κ] where
  seen : σ
  shelf : Shelf κ α

namespace SeenMap

variable {σ κ α : Type} [BEq κ] [Hashable κ] [SeenSet σ κ]

def ofSeen (seen : σ) : SeenMap σ κ α := ⟨seen, ∅⟩

/-- What is left to register, with the map so far. -/
structure Walk (σ κ α : Type) [BEq κ] [Hashable κ] where
  /-- The pending keys, the next one first. -/
  pending : List κ
  map : SeenMap σ κ α

namespace Walk

/-- Takes the next pending key: drops the payload of a key seen before, or registers a new key and
appends what lies below it. -/
def step (d : Descent κ) : Walk σ κ α → Walk σ κ α
  | ⟨[], m⟩ => ⟨[], m⟩
  | ⟨k :: rest, ⟨seen, shelf⟩⟩ =>
      if SeenSet.contains seen k then ⟨rest, ⟨seen, shelf.drop k⟩⟩
      -- the key appended last is taken next
      else ⟨(d.below k).reverse ++ rest, ⟨SeenSet.insert seen k, shelf⟩⟩

def weight (d : Descent κ) (w : Walk σ κ α) : Nat := d.weightOf w.pending

theorem weight_step_lt (d : Descent κ) (w : Walk σ κ α) (h : w.pending ≠ []) :
    (w.step d).weight d < w.weight d := by
  obtain ⟨pending, seen, shelf⟩ := w
  cases pending with
  | nil => exact absurd rfl h
  | cons k rest =>
      have hk := d.weight_eq k
      by_cases hseen : SeenSet.contains seen k
      · simp [step, hseen, weight]
        omega
      · simp [step, hseen, weight]
        omega

def run (d : Descent κ) (w : Walk σ κ α) : SeenMap σ κ α :=
  if w.pending.isEmpty then w.map else run d (w.step d)
termination_by w.weight d
decreasing_by exact weight_step_lt d w (by simp_all)

end Walk

/-- Adds a payload under a key unless the key has been seen. -/
def add (d : Descent κ) (m : SeenMap σ κ α) (k : κ) (payload : α) : SeenMap σ κ α :=
  if SeenSet.contains m.seen k then m
  else
    let ⟨seen, shelf⟩ := Walk.run d ⟨[k], m⟩
    ⟨seen, shelf.put k payload⟩

/-- The map after some payloads have been added, each under its key. -/
def addAll (d : Descent κ) (m : SeenMap σ κ α) (offers : List (κ × α)) : SeenMap σ κ α :=
  offers.foldl (fun m e => m.add d e.1 e.2) m

/-- The payloads of the largest keys, oldest first. -/
def payloads (m : SeenMap σ κ α) : List α := m.shelf.payloads

def size (m : SeenMap σ κ α) : Nat := m.shelf.live

def reach (m : SeenMap σ κ α) : Nat := SeenSet.size m.seen

end SeenMap

end Loadout
