import Loadout.Json.Token

/-!
# Texts in YAML

A text may be folded over several lines: a single line end inside it stands for a blank, and
further ones for themselves.  Blanks around a line end are not part of the text.
-/

namespace Loadout.Yaml

def isPrintable (c : Char) : Bool :=
  let n := c.toNat
  n = 0x09 || n = 0x0A || n = 0x0D || (0x20 ≤ n && n ≤ 0x7E) || n = 0x85 ||
    (0xA0 ≤ n && n ≤ 0xFFFD) || 0x10000 ≤ n

def isBlank (c : Char) : Bool := c = ' ' || c = '\t'

def isBreak (c : Char) : Bool := c = '\n' || c = '\u2028' || c = '\u2029'

/-- Every common way to end a line becomes the same one. -/
def evenLines : List Char → List Char
  | [] => []
  | '\r' :: '\n' :: rest => '\n' :: evenLines rest
  | c :: rest => (if c = '\r' ∨ c = '\u0085' then '\n' else c) :: evenLines rest

/-- Whether a text is over or goes on with a blank or a new line. -/
def pauses : List Char → Bool
  | [] => true
  | c :: _ => isBlank c || isBreak c

/-- What stands between two pieces of a text: blanks on one line, or line ends. -/
inductive Gap where
  | blanks (rev : List Char)
  /-- The first line end, if it is not escaped, and the further ones, last first. -/
  | lines (first : Option Char) (rev : List Char)

namespace Gap

/-- What a gap contributes to its text: a single line end is a blank, and where several follow each
other the first one does not count. -/
def chars : Gap → List Char
  | .blanks rev => rev.reverse
  | .lines (some '\n') [] => [' ']
  | .lines (some '\n') rev => rev.reverse
  | .lines first rev => first.toList ++ rev.reverse

def isEmpty : Gap → Bool
  | .blanks [] => true
  | _ => false

def isLines : Gap → Bool
  | .blanks _ => false
  | .lines _ _ => true

end Gap

/-- A text that may go on after a gap; its characters so far are kept last first. -/
structure Folded where
  rev : List Char
  gap : Gap

namespace Folded

def start : Folded := ⟨[], .blanks []⟩

def close (f : Folded) : Folded := ⟨f.gap.chars.reverse ++ f.rev, .blanks []⟩

def push (f : Folded) (c : Char) : Folded := { f.close with rev := c :: f.close.rev }

/-- Adds a blank to the gap; blanks at the beginning of a line are lost. -/
def blank (f : Folded) (c : Char) : Folded :=
  match f.gap with
  | .blanks rev => { f with gap := .blanks (c :: rev) }
  | .lines _ _ => f

/-- Adds a line end to the gap; blanks at the end of a line are lost. -/
def newLine (f : Folded) (c : Char) : Folded :=
  match f.gap with
  | .blanks _ => { f with gap := .lines (some c) [] }
  | .lines first rev => { f with gap := .lines first (c :: rev) }

def continued (f : Folded) : Folded := { f with gap := .lines none [] }

def content (f : Folded) : String := String.ofList f.rev.reverse

end Folded

def escaped? : Char → Option Char
  | '0' => some '\x00'
  | 'a' => some '\x07'
  | 'b' => some '\x08'
  | 't' => some '\t'
  | '\t' => some '\t'
  | 'n' => some '\n'
  | 'v' => some '\x0b'
  | 'f' => some '\x0c'
  | 'r' => some '\r'
  | 'e' => some '\x1b'
  | ' ' => some ' '
  | '"' => some '"'
  | '/' => some '/'
  | '\\' => some '\\'
  | 'N' => some '\u0085'
  | '_' => some '\u00a0'
  | 'L' => some '\u2028'
  | 'P' => some '\u2029'
  | _ => none

/-- How many hexadecimal digits follow the letter of an escape. -/
def codeLength? : Char → Option Nat
  | 'x' => some 2
  | 'u' => some 4
  | 'U' => some 8
  | _ => none

end Loadout.Yaml
