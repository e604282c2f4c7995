import Loadout.Decimal.Nearest
import Loadout.Document
import Loadout.Json.Token

/-!
# YAML documents

A document is made of scalars, lists and maps.  A plain scalar stands for whatever its reader looks
for: a text, a truth value, a number, or if it is empty, a list or map without anything in it.  A
quoted scalar is only ever a text, and a record always a map.
-/

namespace Loadout

inductive Yaml where
  | scalar (plain : Bool) (content : String)
  | list (items : List Yaml)
  | map (entries : List (Yaml × Yaml))

namespace Yaml

def empty : Yaml := .scalar true ""

def plain? : Yaml → Option (List Char)
  | .scalar true content => some content.toList
  | _ => none

def text? : Yaml → Option String
  | .scalar _ content => some content
  | _ => none

def truth? (cs : List Char) : Option Bool :=
  let word := String.ofList cs
  if ["true", "True", "TRUE"].contains word then some true
  else if ["false", "False", "FALSE"].contains word then some false
  else none

def digits? (base : Nat) : List Char → Option Nat
  | [] => none
  | cs => cs.foldlM
      (fun n c => do
        let d ← Json.Token.hexValue? c
        if d < base then some (base * n + d) else none)
      0

/-- The number that a word spells in another base than ten. -/
def based? : List Char → Option Nat
  | '0' :: 'x' :: rest => digits? 16 rest
  | '0' :: 'o' :: rest => digits? 8 rest
  | '0' :: 'b' :: rest => digits? 2 rest
  | _ => none

/-- The natural number that a word spells.  Digits behind a zero are no number. -/
def natural? (cs : List Char) : Option Nat :=
  let bare :=
    match cs with
    | '+' :: rest => rest
    | _ => cs
  match based? bare with
  | some n => some n
  | none => if bare.head? = some '0' ∧ bare ≠ ['0'] then none else digits? 10 bare

/-- A decimal without its sign: digits before or behind a point, and perhaps an exponent. -/
def magnitude? (negative : Bool) (cs : List Char) : Option Decimal :=
  let whole := cs.takeWhile Char.isDigit
  let (fraction, rest) :=
    match cs.dropWhile Char.isDigit with
    | '.' :: rest => (rest.takeWhile Char.isDigit, rest.dropWhile Char.isDigit)
    | rest => ([], rest)
  if whole ++ fraction = [] then none
  else (Json.Numeral.afterDigits negative whole (some fraction) rest).map (·.decimal)

def unsigned? (negative : Bool) (cs : List Char) : Option Quantity := do
  if [".inf", ".Inf", ".INF"].contains (String.ofList cs) then
    return .infinite negative
  let d ← magnitude? negative cs
  if d.isFinite then some (.decimal d) else none

def quantity? : List Char → Option Quantity
  | '+' :: rest => unsigned? false rest
  | '-' :: rest => unsigned? true rest
  | cs =>
      if [".nan", ".NaN", ".NAN"].contains (String.ofList cs) then some .undefined
      else unsigned? false cs

def items? : Yaml → Option (List Yaml)
  | .list items => some items
  | .scalar true "" => some []
  | _ => none

def members? : Yaml → Option (List (Option String × Yaml))
  | .map entries => some (entries.map fun e => (e.1.text?, e.2))
  | .scalar true "" => some []
  | _ => none

instance : Document Yaml where
  text? := text?
  bool? y := y.plain?.bind truth?
  whole? y := (y.plain?.bind natural?).map Int.ofNat
  quantity? y := y.plain?.bind quantity?
  items? := items?
  members? := members?
  row? _ := none
  choice? := text?

end Yaml

end Loadout
