import Loadout.Decimal.Nearest
import Loadout.Document
import Loadout.Json.Parser

/-!
# Reading JSON documents

A text whose escapes leave half a surrogate pair is taken for no text at all.  A record may be
written as an array of its fields, and a choice as its name or as an object from its name to null.
-/

namespace Loadout.Json

open Document

abbrev Reader (α : Type) := Json → Option α

def decimal? : Reader Decimal
  | .number literal => do
      let d := (← Numeral.parse? literal.toList).decimal
      if d.isFinite then some d else none
  | _ => none

instance : Document Json where
  text?
    | .text content => content
    | _ => none
  bool?
    | .bool b => some b
    | _ => none
  whole?
    | .number literal => (Numeral.parse? literal.toList).bind Numeral.integer?
    | _ => none
  quantity? j := (decimal? j).map .decimal
  items?
    | .array items => some items
    | _ => none
  members?
    | .object members => some members
    | _ => none
  row?
    | .array fields => some fields
    | _ => none
  choice?
    | .text content => content
    | .object [(name, .null)] => name
    | _ => none

def optional? {α : Type} (read : Reader α) : Reader (Option α)
  | .null => some none
  | j => (read j).map some

mutual

/-- Whether a value can be set aside whole before it is read: its texts have content, its numbers
are finite, and its containers are nested no deeper than allowed. -/
def keepable (depth : Nat) : Json → Bool
  | .null => true
  | .bool _ => true
  | .number literal => ((Numeral.parse? literal.toList).map (·.decimal.isFinite)).getD false
  | .text content => content.isSome
  | .array items => depth != 0 && keepableItems (depth - 1) items
  | .object members => depth != 0 && keepableMembers (depth - 1) members

def keepableItems (depth : Nat) : List Json → Bool
  | [] => true
  | item :: rest => keepable depth item && keepableItems depth rest

def keepableMembers (depth : Nat) : List (Option String × Json) → Bool
  | [] => true
  | (key, value) :: rest => key.isSome && keepable depth value && keepableMembers depth rest

end

/-- A choice marked by a tag: the tag and what stands beside it.  Only the tag's name decides how
the rest is read, so the rest is set aside first. -/
def tagged? (tag : String) (depth : Nat) : Json → Option (String × Json)
  | .object members => do
      let (tags, rest) := members.partition fun m => m.1 = some tag
      match tags with
      | [(_, .text (some name))] =>
          if keepableMembers depth rest then some (name, .object rest) else none
      | _ => none
  | .array (.text (some name) :: rest) =>
      if keepableItems depth rest then some (name, .array rest) else none
  | _ => none

end Loadout.Json
