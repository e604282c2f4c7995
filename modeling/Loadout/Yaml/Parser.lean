import Loadout.Yaml
import Loadout.Yaml.Token

/-!
# Reading a YAML document

Tokens are read into nodes from left to right.  Where a token stands that cannot begin a node but
can follow one, nothing is written there and the node is empty.  A text holds one document.
-/

namespace Loadout.Yaml

inductive Place where
  | root
  | item
  /-- Before or behind the colon of an entry, where a list need not be further in. -/
  | entry
  | brackets
  deriving DecidableEq

namespace Place

def endsAt : Place → Token → Bool
  | root, t => t = .documentStart || t = .documentEnd
  | item, t => t = .item || t = .key || t = .value || t = .blockEnd
  | entry, t => t = .key || t = .value || t = .blockEnd
  | brackets, t => t = .value || t = .comma || t = .closeList || t = .closeMap

end Place

mutual

/-- The node that tokens begin with, and the tokens behind it. -/
def node? : Nat → Place → List Token → Option (Yaml × List Token)
  | fuel + 1, place, token :: rest =>
      match token with
      | .scalar plain content => some (.scalar plain content, rest)
      | .openList => (bracketItems? fuel rest).map fun p => (.list p.1, p.2)
      | .openMap => (bracketEntries? fuel rest).map fun p => (.map p.1, p.2)
      | .blockList =>
          if place = .brackets then none
          else (blockItems? fuel rest).map fun p => (.list p.1, p.2)
      | .blockMap =>
          if place = .brackets then none
          else (blockEntries? fuel rest).map fun p => (.map p.1, p.2)
      | .item =>
          if place = .entry then (bareItems? fuel (token :: rest)).map fun p => (.list p.1, p.2)
          else none
      | _ => none
  | _, _, _ => none

def optional? : Nat → Place → List Token → Option (Yaml × List Token)
  | fuel + 1, place, tokens =>
      if tokens.head?.all place.endsAt then some (.empty, tokens) else node? fuel place tokens
  | 0, _, _ => none

/-- The node behind a colon, if there is a colon. -/
def value? : Nat → Place → List Token → Option (Yaml × List Token)
  | fuel + 1, place, .value :: rest => optional? fuel place rest
  | _ + 1, _, tokens => some (.empty, tokens)
  | 0, _, _ => none

/-- A key that need not be written, and its value. -/
def pair? : Nat → Place → List Token → Option ((Yaml × Yaml) × List Token)
  | fuel + 1, place, tokens => do
      let (key, tokens) ← optional? fuel place tokens
      let (value, tokens) ← value? fuel place tokens
      return ((key, value), tokens)
  | 0, _, _ => none

def blockItems? : Nat → List Token → Option (List Yaml × List Token)
  | fuel + 1, .item :: rest => do
      let (item, tokens) ← optional? fuel .item rest
      let (items, tokens) ← blockItems? fuel tokens
      return (item :: items, tokens)
  | _ + 1, .blockEnd :: rest => some ([], rest)
  | _, _ => none

/-- The items of a list in the block of the map around it. -/
def bareItems? : Nat → List Token → Option (List Yaml × List Token)
  | fuel + 1, .item :: rest => do
      let (item, tokens) ← optional? fuel .item rest
      let (items, tokens) ← bareItems? fuel tokens
      return (item :: items, tokens)
  | _ + 1, tokens => some ([], tokens)
  | 0, _ => none

def blockEntries? : Nat → List Token → Option (List (Yaml × Yaml) × List Token)
  | fuel + 1, .key :: rest => do
      let (entry, tokens) ← pair? fuel .entry rest
      let (entries, tokens) ← blockEntries? fuel tokens
      return (entry :: entries, tokens)
  | _ + 1, .blockEnd :: rest => some ([], rest)
  | _, _ => none

/-- The items of a list in brackets; one with a key is a map of its own. -/
def bracketItems? : Nat → List Token → Option (List Yaml × List Token)
  | _ + 1, .closeList :: rest => some ([], rest)
  | fuel + 1, tokens => do
      let (item, tokens) ←
        match tokens with
        | .key :: rest => (pair? fuel .brackets rest).map fun p => (Yaml.map [p.1], p.2)
        | tokens => node? fuel .brackets tokens
      match tokens with
      | .closeList :: rest => return ([item], rest)
      | .comma :: rest => (bracketItems? fuel rest).map fun p => (item :: p.1, p.2)
      | _ => none
  | 0, _ => none

/-- The entries of a map in brackets; a node alone is a key. -/
def bracketEntries? : Nat → List Token → Option (List (Yaml × Yaml) × List Token)
  | _ + 1, .closeMap :: rest => some ([], rest)
  | fuel + 1, tokens => do
      let (entry, tokens) ←
        match tokens with
        | .key :: rest => pair? fuel .brackets rest
        | tokens => (node? fuel .brackets tokens).map fun p => ((p.1, Yaml.empty), p.2)
      match tokens with
      | .closeMap :: rest => return ([entry], rest)
      | .comma :: rest => (bracketEntries? fuel rest).map fun p => (entry :: p.1, p.2)
      | _ => none
  | 0, _ => none

end

/-- Enough steps for a row of tokens: none takes more than four. -/
def fuelFor (tokens : List Token) : Nat := 4 * tokens.length + 4

def ofTokens? (tokens : List Token) : Option Yaml := do
  let (document, rest) ←
    match tokens with
    | [] => none
    | .documentStart :: rest => optional? (fuelFor tokens) .root rest
    | tokens => node? (fuelFor tokens) .root tokens
  if rest.all (· = .documentEnd) then some document else none

def parse? (text : String) : Option Yaml := (Token.scan text).bind ofTokens?

end Loadout.Yaml
