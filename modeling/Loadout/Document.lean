import Loadout.Decimal
import Loadout.OrderedMap

/-!
# Typed reading

A reader either takes a document for a value of its type or refuses it.  Readers are the same for
every form of documents; a form says what its nodes can be taken for.  A record is written as an
object, whose known fields occur at most once each, or in some forms as the row of its fields in
order.  A field that is not known is skipped unread unless the record is closed.
-/

namespace Loadout

open Std

/-- A form of documents: what a node of a document can be taken for. -/
class Document (δ : Type) where
  text? : δ → Option String
  bool? : δ → Option Bool
  whole? : δ → Option Int
  quantity? : δ → Option Quantity
  items? : δ → Option (List δ)
  /-- The keys of an object with their nodes, `none` for a key that is no text. -/
  members? : δ → Option (List (Option String × δ))
  /-- The fields of a record without their names, in order. -/
  row? : δ → Option (List δ)
  choice? : δ → Option String

namespace Document

variable {δ α : Type} [Document δ]

def int? (low high : Int) (j : δ) : Option Int := do
  let n ← whole? j
  if low ≤ n ∧ n ≤ high then some n else none

def nat? (high : Nat) (j : δ) : Option Nat := (int? 0 high j).map Int.toNat

def byte? (j : δ) : Option Nat := nat? 255 j

def word? (j : δ) : Option Nat := nat? 4294967295 j

def list? (read : δ → Option α) (j : δ) : Option (List α) := do (← items? j).mapM read

def named? (named : String → Option α) (j : δ) : Option α := (choice? j).bind named

/-- An object whose keys are values themselves; the last of equal keys counts. -/
def table? {κ : Type} [Ord κ] [TransOrd κ] [LawfulEqOrd κ] (key : String → Option κ)
    (read : δ → Option α) (j : δ) : Option (OrderedMap κ α) := do
  let entries ← (← members? j).mapM fun m => do
    let name ← m.1
    return (← key name, ← read m.2)
  return .ofList entries

def texts? (read : δ → Option α) (j : δ) : Option (OrderedMap String α) := table? some read j

structure Record (δ : Type) where
  found : List (String × δ)

namespace Record

def field? (r : Record δ) (name : String) : Option δ := (r.found.find? (·.1 = name)).map (·.2)

def required (r : Record δ) (name : String) (read : δ → Option α) : Option α :=
  (r.field? name).bind read

/-- A field that stands for a given value when it is left out. -/
def defaulted (r : Record δ) (name : String) (value : α) (read : δ → Option α) : Option α :=
  match r.field? name with
  | some j => read j
  | none => some value

end Record

/-- The known fields of an object's members, none of them twice. -/
def pickFields (names : List String) (closed : Bool) :
    List (Option String × δ) → Option (List (String × δ))
  | [] => some []
  -- a name has to be read before it can be skipped, so a broken one is refused
  | (none, _) :: _ => none
  | (some name, value) :: rest => do
      let found ← pickFields names closed rest
      if names.contains name then
        if found.any (·.1 = name) then none else some ((name, value) :: found)
      else if closed then none
      else some found

/-- A record with the given fields; a closed one has no others. -/
def record? (names : List String) (closed : Bool) (j : δ) : Option (Record δ) :=
  match members? j, row? j with
  | some members, _ => (pickFields names closed members).map Record.mk
  | none, some fields => if fields.length ≤ names.length then some ⟨names.zip fields⟩ else none
  | none, none => none

end Document

end Loadout
