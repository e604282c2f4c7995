import Loadout.Yaml.Text

/-!
# Tokens of a YAML text

The text is read one character at a time by a machine that keeps track of the columns at which the
open blocks began.  A line further out closes blocks, and an item or key further in opens one.  A
scalar becomes a key only when the colon behind it is met, so the machine remembers where the last
scalar or bracket began that could still turn out to be a key, one for each open bracket.  Anchors,
tags, directives and texts in block style are not part of the form.
-/

namespace Loadout.Yaml

/-- The beginnings, ends and parts of lists and maps, by blocks or in brackets. -/
inductive Token where
  | documentStart
  | documentEnd
  | blockList
  | blockMap
  | blockEnd
  | openList
  | closeList
  | openMap
  | closeMap
  | comma
  | item
  | key
  | value
  | scalar (plain : Bool) (content : String)
  deriving DecidableEq, Repr

/-- The mark at the beginning or end of a document that a line starts with. -/
def marker? : List Char → Option Token
  | '-' :: '-' :: '-' :: rest => if pauses rest then some .documentStart else none
  | '.' :: '.' :: '.' :: rest => if pauses rest then some .documentEnd else none
  | _ => none

/-- The brackets and commas of lists and maps in brackets. -/
def isBracketing (c : Char) : Bool := ",[]\x7b\x7d".contains c

/-- The characters that no scalar starts with, brackets, quotes and comments apart. -/
def isReserved (c : Char) : Bool := "\t&*!|>%@`".contains c

inductive Mode where
  | between
  | comment
  | marker (remaining : Nat)
  | plain (f : Folded)
  | single (f : Folded)
  /-- Behind a quote in a text in single quotes: the end, or half of a quote written twice. -/
  | quote (f : Folded)
  | double (f : Folded)
  | escape (f : Folded)
  /-- Inside an escape by code, with some digits still to come. -/
  | code (f : Folded) (missing : Nat) (value : Nat)

/-- The beginning of what may turn out to be a key. -/
structure Candidate where
  position : Nat
  index : Nat
  line : Nat
  column : Nat
  required : Bool

structure Scanner where
  mode : Mode
  index : Nat
  line : Nat
  column : Nat
  /-- The columns of the open blocks, the innermost first. -/
  blocks : List Nat
  keyAllowed : Bool
  candidate : Option Candidate
  /-- The candidates around each open bracket, the innermost first. -/
  outer : List (Option Candidate)
  /-- The tokens read so far, last first. -/
  rev : List Token

namespace Scanner

def start : Scanner := ⟨.between, 0, 0, 0, [], true, none, [], []⟩

def inBrackets (s : Scanner) : Bool := !s.outer.isEmpty

/-- Whether the current column is further in than the innermost block. -/
def isInside (s : Scanner) : Bool :=
  match s.blocks with
  | [] => true
  | block :: _ => block < s.column

def emit (s : Scanner) (t : Token) : Scanner := { s with mode := .between, rev := t :: s.rev }

/-- Puts a token before those that stand behind a position. -/
def insert (s : Scanner) (position : Nat) (t : Token) : Scanner :=
  let behind := s.rev.length - position
  { s with rev := s.rev.take behind ++ t :: s.rev.drop behind }

def advance (s : Scanner) (c : Char) : Scanner :=
  if isBreak c then { s with index := s.index + 1, line := s.line + 1, column := 0 }
  else { s with index := s.index + 1, column := s.column + 1 }

/-- Closes the blocks for which a column is too far out. -/
def closeBlocks (s : Scanner) (tooFarOut : Nat → Bool) : Scanner :=
  if s.inBrackets then s
  else
    { s with
      blocks := s.blocks.dropWhile tooFarOut
      rev := (s.blocks.takeWhile tooFarOut).map (fun _ => .blockEnd) ++ s.rev }

/-- Opens a block at a column unless the innermost one is as far in. -/
def openBlock (s : Scanner) (column position : Nat) (t : Token) : Scanner :=
  let deeper :=
    match s.blocks with
    | [] => true
    | block :: _ => block < column
  if !s.inBrackets && deeper then { s.insert position t with blocks := column :: s.blocks } else s

/-- Gives the candidate up, which is refused if it had to be a key. -/
def dropCandidate (s : Scanner) : Option Scanner :=
  match s.candidate with
  | some k => if k.required then none else some { s with candidate := none }
  | none => some s

def noteCandidate (s : Scanner) : Option Scanner :=
  if s.keyAllowed then do
    let s ← s.dropCandidate
    let required := !s.inBrackets && s.blocks.head? = some s.column
    return { s with candidate := some ⟨s.rev.length, s.index, s.line, s.column, required⟩ }
  else some s

/-- How far behind the beginning of a key its colon may stand. -/
def keyReach : Nat := 1024

/-- Gives the candidate up if a colon here comes too late for it. -/
def reviewCandidate (s : Scanner) : Option Scanner :=
  match s.candidate with
  | some k => if k.line = s.line ∧ s.index ≤ k.index + keyReach then some s else s.dropCandidate
  | none => some s

def beginScalar (s : Scanner) (mode : Mode) : Option Scanner := do
  let s ← s.noteCandidate
  return { s with mode, keyAllowed := false }

def openBracket (s : Scanner) (t : Token) : Option Scanner := do
  let s ← s.noteCandidate
  return { s.emit t with keyAllowed := true, candidate := none, outer := s.candidate :: s.outer }

def closeBracket (s : Scanner) (t : Token) : Option Scanner := do
  let s ← s.dropCandidate
  return { s.emit t with
    keyAllowed := false
    candidate := s.outer.head?.getD none
    outer := s.outer.tail }

def comma (s : Scanner) : Option Scanner := do
  let s ← s.dropCandidate
  return { s.emit .comma with keyAllowed := true }

def item (s : Scanner) : Option Scanner :=
  if !s.inBrackets && !s.keyAllowed then none
  else do
    let s ← (s.openBlock s.column s.rev.length .blockList).dropCandidate
    return { s.emit .item with keyAllowed := true }

def explicitKey (s : Scanner) : Option Scanner :=
  if !s.inBrackets && !s.keyAllowed then none
  else do
    let s ← (s.openBlock s.column s.rev.length .blockMap).dropCandidate
    return { s.emit .key with keyAllowed := !s.inBrackets }

/-- A colon before a value: what began at the candidate was a key. -/
def colon (s : Scanner) : Option Scanner := do
  let s ← s.reviewCandidate
  match s.candidate with
  | some k =>
      let s := (s.insert k.position .key).openBlock k.column k.position .blockMap
      return { s.emit .value with candidate := none, keyAllowed := false }
  | none =>
      if !s.inBrackets && !s.keyAllowed then none
      else
        let s := s.openBlock s.column s.rev.length .blockMap
        return { s.emit .value with keyAllowed := !s.inBrackets }

/-- Begins a token with a character; what follows it is needed to tell some tokens apart. -/
def begin? (s : Scanner) (c : Char) (rest : List Char) : Option Scanner :=
  let s := s.closeBlocks (s.column < ·)
  match if s.column = 0 then marker? (c :: rest) else none with
  | some t => do
      let s ← (s.closeBlocks fun _ => true).dropCandidate
      return { s.emit t with mode := .marker 2, keyAllowed := false }
  | none =>
      match c with
      | '[' => s.openBracket .openList
      | '\x7b' => s.openBracket .openMap
      | ']' => s.closeBracket .closeList
      | '\x7d' => s.closeBracket .closeMap
      | ',' => s.comma
      | '\'' => s.beginScalar (.single .start)
      | '"' => s.beginScalar (.double .start)
      | c =>
          if c = '-' ∧ pauses rest then s.item
          else if c = '?' ∧ (s.inBrackets ∨ pauses rest) then s.explicitKey
          else if c = ':' ∧ (s.inBrackets ∨ pauses rest) then s.colon
          else if isReserved c then none
          else s.beginScalar (.plain (Folded.start.push c))

def between? (s : Scanner) (c : Char) (rest : List Char) : Option Scanner :=
  let s := { s with mode := .between }
  if isBreak c then some { s with keyAllowed := s.keyAllowed || !s.inBrackets }
  else if c = ' ' ∨ (c = '\t' ∧ (s.inBrackets ∨ !s.keyAllowed)) then some s
  -- the byte order mark of a text takes up a column of its first line
  else if c = '\ufeff' ∧ s.index = 0 then some s
  else if c = '#' then some { s with mode := .comment }
  else s.begin? c rest

/-- Ends a plain scalar; a key may follow if it ended on an earlier line. -/
def endPlain (s : Scanner) (f : Folded) : Scanner :=
  { s.emit (.scalar true f.content) with keyAllowed := s.keyAllowed || f.gap.isLines }

def endQuoted (s : Scanner) (f : Folded) : Scanner := s.emit (.scalar false f.close.content)

def endsPlain (s : Scanner) (f : Folded) (c : Char) (rest : List Char) : Bool :=
  (f.gap.isLines && !s.inBrackets && !s.isInside) ||
    (s.column = 0 && (marker? (c :: rest)).isSome) ||
    (c = '#' && !f.gap.isEmpty) ||
    (c = ':' && pauses rest) ||
    (s.inBrackets && isBracketing c)

/-- Reads a character of a plain scalar or the first one behind it. -/
def plain? (s : Scanner) (f : Folded) (c : Char) (rest : List Char) : Option Scanner :=
  if isBlank c then
    -- a tab does not indent
    if c = '\t' ∧ f.gap.isLines ∧ !s.isInside then none
    else some { s with mode := .plain (f.blank c) }
  else if isBreak c then some { s with mode := .plain (f.newLine c) }
  else if s.endsPlain f c rest then (s.endPlain f).between? c rest
  else if s.inBrackets ∧ c = ':' ∧ (rest.head?.any fun d => d = '?' || isBracketing d) then none
  else some { s with mode := .plain (f.push c) }

/-- Reads a character of a quoted text that is neither a quote nor an escape. -/
def quoted? (s : Scanner) (f : Folded) (mode : Folded → Mode) (c : Char) (rest : List Char) :
    Option Scanner :=
  if s.column = 0 ∧ (marker? (c :: rest)).isSome then none
  else if isBlank c then some { s with mode := mode (f.blank c) }
  else if isBreak c then some { s with mode := mode (f.newLine c) }
  else some { s with mode := mode (f.push c) }

def escape? (s : Scanner) (f : Folded) (c : Char) : Option Scanner :=
  if isBreak c then some { s with mode := .double f.continued }
  else
    match codeLength? c with
    | some n => some { s with mode := .code f n 0 }
    | none => (escaped? c).map fun d => { s with mode := .double (f.push d) }

def code? (s : Scanner) (f : Folded) (missing value : Nat) (c : Char) : Option Scanner := do
  let value := 16 * value + (← Json.Token.hexValue? c)
  if 1 < missing then return { s with mode := .code f (missing - 1) value }
  else if value.isValidChar then return { s with mode := .double (f.push (Char.ofNat value)) }
  else none

/-- Reads a character, with the characters behind it in view. -/
def read? (s : Scanner) (c : Char) (rest : List Char) : Option Scanner :=
  match s.mode with
  | .between => s.between? c rest
  | .comment => if isBreak c then s.between? c rest else some s
  | .marker n => some { s with mode := if 1 < n then .marker (n - 1) else .between }
  | .plain f => s.plain? f c rest
  | .single f =>
      if c = '\'' then some { s with mode := .quote f } else s.quoted? f .single c rest
  | .quote f =>
      if c = '\'' then some { s with mode := .single (f.push c) }
      else (s.endQuoted f).between? c rest
  | .double f =>
      if c = '"' then some (s.endQuoted f)
      else if c = '\\' then some { s with mode := .escape f.close }
      else s.quoted? f .double c rest
  | .escape f => s.escape? f c
  | .code f missing value => s.code? f missing value c

def run? (s : Scanner) : List Char → Option Scanner
  | [] => some s
  | c :: rest => do (← (s.read? c rest).map (·.advance c)).run? rest

/-- The tokens in order, with all blocks closed, if the text may end here. -/
def finish? (s : Scanner) : Option (List Token) := do
  let s ←
    match s.mode with
    | .between => some s
    | .comment => some s
    | .plain f => some (s.endPlain f)
    | .quote f => some (s.endQuoted f)
    | _ => none
  let s ← (s.closeBlocks fun _ => true).dropCandidate
  return s.rev.reverse

end Scanner

def Token.scan (text : String) : Option (List Token) :=
  if text.toList.all isPrintable then
    (Scanner.start.run? (evenLines text.toList)).bind Scanner.finish?
  else none

end Loadout.Yaml
