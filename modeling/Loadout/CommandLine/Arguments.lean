/-!
# Command line arguments

A command is followed by options, flags and positional arguments in any order.  An option takes its
value behind an equals sign or as the next argument, which then must not look like an option itself;
two dashes alone end the options.  Arguments are read from left to right, and a call for help counts
if nothing before it is wrong.
-/

namespace Loadout.CommandLine

/-- Why there is no command to carry out. -/
inductive Stop where
  | help
  | misuse
  deriving DecidableEq, Repr

def Stop.code : Stop → Nat
  | help => 0
  | misuse => 2

inductive Command where
  | search (request : String) (dataDir : Option String) (parallel : Bool) (workers batches : Nat)
  | evaluate (build : String) (dataDir : Option String)
  | validate (dir : Option String)
  deriving DecidableEq, Repr

inductive ValueKind where
  | path
  | number
  deriving DecidableEq, Repr

def largestNumber : Nat := 18446744073709551615

/-- The number that a value spells: digits, with a plus sign before them or not. -/
def number? (value : String) : Option Nat :=
  let digits :=
    match value.toList with
    | '+' :: rest => rest
    | all => all
  if digits ≠ [] ∧ digits.all Char.isDigit then
    let n := digits.foldl (fun n c => 10 * n + (c.toNat - '0'.toNat)) 0
    if n ≤ largestNumber then some n else none
  else none

def ValueKind.admits : ValueKind → String → Bool
  | path, value => value ≠ ""
  | number, value => (number? value).isSome

structure Shape where
  options : List (String × ValueKind)
  flags : List String
  positionals : Nat

structure Scan where
  awaiting : Option (String × ValueKind) := none
  ended : Bool := false
  values : List (String × String) := []
  flags : List String := []
  positionals : List String := []

namespace Scan

def takeValue (s : Scan) (option : String × ValueKind) (value : String) : Except Stop Scan :=
  if s.values.any (·.1 = option.1) ∨ ¬ option.2.admits value then .error .misuse
  else .ok { s with awaiting := none, values := (option.1, value) :: s.values }

def raise (s : Scan) (flag : String) : Except Stop Scan :=
  if s.flags.contains flag then .error .misuse else .ok { s with flags := flag :: s.flags }

/-- Takes a positional argument, which is a path. -/
def takePositional (shape : Shape) (s : Scan) (arg : String) : Except Stop Scan :=
  if shape.positionals ≤ s.positionals.length ∨ arg = "" then .error .misuse
  else .ok { s with positionals := s.positionals ++ [arg] }

def splitValue (cs : List Char) : String × Option String :=
  match cs.dropWhile (· ≠ '=') with
  | [] => (String.ofList cs, none)
  | _ :: value => (String.ofList (cs.takeWhile (· ≠ '=')), some (String.ofList value))

def takeLong (shape : Shape) (s : Scan) (cs : List Char) : Except Stop Scan :=
  let (name, value) := splitValue cs
  match shape.options.find? (·.1 = name), value with
  | some option, some value => s.takeValue option value
  | some option, none => .ok { s with awaiting := some option }
  | none, some _ => .error .misuse
  | none, none =>
      if name = "help" then .error .help
      else if shape.flags.contains name then s.raise name
      else .error .misuse

def step (shape : Shape) (s : Scan) (arg : String) : Except Stop Scan :=
  if s.ended then s.takePositional shape arg
  else
    match s.awaiting, arg.toList with
    -- a dash alone is a value; with anything behind it, it is not
    | some option, ['-'] => s.takeValue option arg
    | some _, '-' :: _ => .error .misuse
    | some option, _ => s.takeValue option arg
    | none, ['-', '-'] => .ok { s with ended := true }
    | none, '-' :: '-' :: rest => s.takeLong shape rest
    | none, '-' :: 'h' :: _ => .error .help
    | none, '-' :: _ :: _ => .error .misuse
    | none, _ => s.takePositional shape arg

def all (shape : Shape) (args : List String) : Except Stop Scan := do
  let s ← args.foldlM (step shape) {}
  if s.awaiting.isSome then throw .misuse
  return s

def value? (s : Scan) (name : String) : Option String :=
  (s.values.find? (·.1 = name)).map (·.2)

/-- The number of an option, or what it is when left out. -/
def numberOr (s : Scan) (name : String) (otherwise : Nat) : Nat :=
  ((s.value? name).bind number?).getD otherwise

/-- The first positional argument, which must be there. -/
def first (s : Scan) : Except Stop String :=
  match s.positionals with
  | [] => .error .misuse
  | arg :: _ => .ok arg

end Scan

def searchShape : Shape :=
  ⟨[("data-dir", .path), ("workers", .number), ("batches", .number)], ["parallel"], 1⟩

def evaluateShape : Shape := ⟨[("data-dir", .path)], [], 1⟩

def validateShape : Shape := ⟨[], [], 1⟩

/-- The number of batches of a search that is not told. -/
def defaultBatches : Nat := 16

def commandNames : List String := ["search", "evaluate", "validate", "help"]

/-- The command of a list of arguments, the name of the program left out. -/
def Command.ofArguments : List String → Except Stop Command
  | "search" :: rest => do
      let s ← Scan.all searchShape rest
      return .search (← s.first) (s.value? "data-dir") (s.flags.contains "parallel")
        (s.numberOr "workers" 0) (s.numberOr "batches" defaultBatches)
  | "evaluate" :: rest => do
      let s ← Scan.all evaluateShape rest
      return .evaluate (← s.first) (s.value? "data-dir")
  | "validate" :: rest => do
      let s ← Scan.all validateShape rest
      return .validate s.positionals.head?
  | ["help"] => .error .help
  | ["help", topic] => .error (if commandNames.contains topic then .help else .misuse)
  | "--help" :: _ => .error .help
  | arg :: _ => .error (if arg.startsWith "-h" then .help else .misuse)
  | [] => .error .misuse

end Loadout.CommandLine
