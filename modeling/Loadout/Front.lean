/-!
# Fronts

A front keeps, of everything offered to it, what no other offer covers, oldest first.  An offer
that a member covers is turned away, so of two offers covering each other the earlier stays; an
offer that is taken in drives out the members it covers.  The covering test is a parameter, such as
being never worse in any respect.
-/

namespace Loadout

/-- The offers kept so far, oldest first. -/
structure Front (α : Type) where
  members : List α
  deriving DecidableEq, Repr

namespace Front

variable {α : Type}

def empty : Front α := ⟨[]⟩

instance : EmptyCollection (Front α) := ⟨empty⟩

instance : Inhabited (Front α) := ⟨empty⟩

def covered (covers : α → α → Bool) (f : Front α) (x : α) : Bool := f.members.any (covers · x)

/-- Takes an offer in, or turns it away. -/
def offer (covers : α → α → Bool) (f : Front α) (x : α) : Front α :=
  if f.covered covers x then f else ⟨f.members.filter (fun y => !covers x y) ++ [x]⟩

def ofOffers (covers : α → α → Bool) (offers : List α) : Front α :=
  offers.foldl (offer covers) empty

def size (f : Front α) : Nat := f.members.length

@[simp] theorem members_empty : (∅ : Front α).members = [] := rfl

theorem members_offer_of_covered {covers : α → α → Bool} {f : Front α} {x : α}
    (h : f.covered covers x = true) : (f.offer covers x).members = f.members := by
  simp [offer, h]

theorem members_offer_of_not_covered {covers : α → α → Bool} {f : Front α} {x : α}
    (h : f.covered covers x = false) :
    (f.offer covers x).members = f.members.filter (fun y => !covers x y) ++ [x] := by
  simp [offer, h]

end Front

end Loadout
