import Loadout.Json
import Loadout.Json.Numeral

/-!
# Tokens of a document

The text is read one character at a time by a machine that is between tokens, inside a word,
inside a number or inside a text; each character moves it once.  A text with an escaped half of a
surrogate pair is a token, but one without content.
-/

namespace Loadout.Json

/-- A bracket, a separator or a value without parts. -/
inductive Token where
  | openArray
  | closeArray
  | openObject
  | closeObject
  | comma
  | colon
  | leaf (value : Json)

namespace Token

/-- The characters of a text read so far, last first. -/
structure Quoted where
  rev : List Char
  broken : Bool
  /-- The first half of a pair, right after its escape. -/
  high : Option Nat

namespace Quoted

def start : Quoted := ⟨[], false, none⟩

/-- Adds a character; a first half of a pair before it stays alone. -/
def push (q : Quoted) (c : Char) : Quoted := ⟨c :: q.rev, q.broken || q.high.isSome, none⟩

def pushUnit (q : Quoted) (unit : Nat) : Quoted :=
  if 0xD800 ≤ unit ∧ unit < 0xDC00 then ⟨q.rev, q.broken || q.high.isSome, some unit⟩
  else if 0xDC00 ≤ unit ∧ unit < 0xE000 then
    match q.high with
    | some high =>
        ⟨Char.ofNat (0x10000 + (high - 0xD800) * 0x400 + (unit - 0xDC00)) :: q.rev, q.broken, none⟩
    | none => ⟨q.rev, true, none⟩
  else q.push (Char.ofNat unit)

def finish (q : Quoted) : Token :=
  .leaf (.text (if q.broken || q.high.isSome then none else some (String.ofList q.rev.reverse)))

end Quoted

inductive Mode where
  | between
  | word (rev : List Char)
  | numeral (rev : List Char)
  | quoted (q : Quoted)
  | escape (q : Quoted)
  /-- Inside a `\u` escape with some digits still to come. -/
  | unit (q : Quoted) (missing : Nat) (value : Nat)

/-- The machine: where it stands, and the tokens read so far, last first. -/
structure Scanner where
  mode : Mode
  rev : List Token

def isBlank (c : Char) : Bool := c = ' ' || c = '\t' || c = '\n' || c = '\r'

def isNumeral (c : Char) : Bool :=
  c.isDigit || c = '-' || c = '+' || c = '.' || c = 'e' || c = 'E'

def hexValue? (c : Char) : Option Nat :=
  if c.isDigit then some (c.toNat - '0'.toNat)
  else if 'a' ≤ c ∧ c ≤ 'f' then some (c.toNat - 'a'.toNat + 10)
  else if 'A' ≤ c ∧ c ≤ 'F' then some (c.toNat - 'A'.toNat + 10)
  else none

def escaped? : Char → Option Char
  | '"' => some '"'
  | '\\' => some '\\'
  | '/' => some '/'
  | 'b' => some '\x08'
  | 'f' => some '\x0c'
  | 'n' => some '\n'
  | 'r' => some '\r'
  | 't' => some '\t'
  | _ => none

def word? (letters : List Char) : Option Json :=
  if letters = "null".toList then some .null
  else if letters = "true".toList then some (.bool true)
  else if letters = "false".toList then some (.bool false)
  else none

namespace Scanner

/-- Ends the word or number that the machine is in. -/
def settle (s : Scanner) : Option Scanner :=
  match s.mode with
  | .word rev => (word? rev.reverse).map fun v => ⟨.between, .leaf v :: s.rev⟩
  | .numeral rev =>
      (Numeral.parse? rev.reverse).map fun _ =>
        ⟨.between, .leaf (.number (String.ofList rev.reverse)) :: s.rev⟩
  | _ => some s

def begin? (s : Scanner) (c : Char) : Option Scanner :=
  match c with
  | '[' => some ⟨.between, .openArray :: s.rev⟩
  | ']' => some ⟨.between, .closeArray :: s.rev⟩
  | '\x7b' => some ⟨.between, .openObject :: s.rev⟩
  | '\x7d' => some ⟨.between, .closeObject :: s.rev⟩
  | ',' => some ⟨.between, .comma :: s.rev⟩
  | ':' => some ⟨.between, .colon :: s.rev⟩
  | '"' => some ⟨.quoted .start, s.rev⟩
  | c =>
      if isBlank c then some ⟨.between, s.rev⟩
      else if c = '-' || c.isDigit then some ⟨.numeral [c], s.rev⟩
      else if c.isAlpha then some ⟨.word [c], s.rev⟩
      else none

def step (s : Scanner) (c : Char) : Option Scanner :=
  match s.mode with
  | .between => s.begin? c
  -- what ends a word or a numeral is read again as the start of the next token
  | .word rev =>
      if c.isAlpha then some ⟨.word (c :: rev), s.rev⟩ else s.settle.bind (·.begin? c)
  | .numeral rev =>
      if isNumeral c then some ⟨.numeral (c :: rev), s.rev⟩ else s.settle.bind (·.begin? c)
  | .quoted q =>
      if c = '"' then some ⟨.between, q.finish :: s.rev⟩
      else if c = '\\' then some ⟨.escape q, s.rev⟩
      else if c.toNat < 32 then none
      else some ⟨.quoted (q.push c), s.rev⟩
  | .escape q =>
      if c = 'u' then some ⟨.unit q 4 0, s.rev⟩
      else (escaped? c).map fun d => ⟨.quoted (q.push d), s.rev⟩
  | .unit q missing value =>
      (hexValue? c).map fun d =>
        let value := 16 * value + d
        if missing ≤ 1 then ⟨.quoted (q.pushUnit value), s.rev⟩
        else ⟨.unit q (missing - 1) value, s.rev⟩

/-- The tokens in order, if the machine ends between tokens. -/
def finish (s : Scanner) : Option (List Token) :=
  match s.settle with
  | some ⟨.between, rev⟩ => some rev.reverse
  | _ => none

end Scanner

def scan (text : String) : Option (List Token) :=
  (text.foldl (fun s c => s.bind (·.step c)) (some ⟨.between, []⟩)).bind Scanner.finish

end Token

end Loadout.Json
