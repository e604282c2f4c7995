/-!
# Documents

A document is kept the way it was written: members in order with repetitions, numbers as their
literals, and a text whose escapes leave half a surrogate pair as a text without content.  What a
repetition, a literal or such a text means is for the reader of the document to say.
-/

namespace Loadout

inductive Json where
  | null
  | bool (value : Bool)
  | number (literal : String)
  /-- A text; `none` if an escape leaves half a surrogate pair. -/
  | text (content : Option String)
  | array (items : List Json)
  | object (members : List (Option String × Json))
  deriving Inhabited

namespace Json

def string (s : String) : Json := .text (some s)

def int (n : Int) : Json := .number (toString n)

def nat (n : Nat) : Json := .number (toString n)

def record (members : List (String × Json)) : Json := .object (members.map fun m => (some m.1, m.2))

/-- A value, or null. -/
def ofOption {α : Type} (f : α → Json) : Option α → Json
  | none => .null
  | some a => f a

def hexDigit (n : Nat) : Char := "0123456789abcdef".toList.getD n '0'

/-- A character inside a quoted text: quotes, backslashes and control characters are escaped. -/
def escape (c : Char) : String :=
  match c with
  | '"' => "\\\""
  | '\\' => "\\\\"
  | '\n' => "\\n"
  | '\r' => "\\r"
  | '\t' => "\\t"
  | '\x08' => "\\b"
  | '\x0c' => "\\f"
  | c =>
      if c.toNat < 32 then
        "\\u00" ++ String.singleton (hexDigit (c.toNat / 16)) ++
          String.singleton (hexDigit (c.toNat % 16))
      else String.singleton c

def quote (s : String) : String := s.foldl (fun out c => out ++ escape c) "\"" ++ "\""

def renderLeaf : Json → String
  | .null => "null"
  | .bool true => "true"
  | .bool false => "false"
  | .number literal => literal
  | .text content => quote (content.getD "")
  | .array _ => "[]"
  | .object _ => "\x7b\x7d"

/-- Texts between two brackets, apart by commas. -/
def bracket (left right : String) (parts : List String) : String :=
  left ++ ",".intercalate parts ++ right

mutual

/-- The text on one line, without blanks. -/
def compact : Json → String
  | .array items => bracket "[" "]" (compactItems items)
  | .object members => bracket "\x7b" "\x7d" (compactMembers members)
  | leaf => renderLeaf leaf

def compactItems : List Json → List String
  | [] => []
  | item :: rest => compact item :: compactItems rest

def compactMembers : List (Option String × Json) → List String
  | [] => []
  | (key, value) :: rest => (quote (key.getD "") ++ ":" ++ compact value) :: compactMembers rest

end

def newLine (level : Nat) : String := "\n" ++ String.ofList (List.replicate (2 * level) ' ')

/-- Texts on lines of their own between two brackets; nothing between them if there are none. -/
def stack (left right : String) (level : Nat) : List String → String
  | [] => left ++ right
  | parts =>
      left ++ newLine (level + 1) ++ ("," ++ newLine (level + 1)).intercalate parts ++
        newLine level ++ right

mutual

/-- The text over several lines, with the parts of a value one level further in than the value. -/
def prettyAt (level : Nat) : Json → String
  | .array items => stack "[" "]" level (prettyItems (level + 1) items)
  | .object members => stack "\x7b" "\x7d" level (prettyMembers (level + 1) members)
  | leaf => renderLeaf leaf

def prettyItems (level : Nat) : List Json → List String
  | [] => []
  | item :: rest => prettyAt level item :: prettyItems level rest

def prettyMembers (level : Nat) : List (Option String × Json) → List String
  | [] => []
  | (key, value) :: rest =>
      (quote (key.getD "") ++ ": " ++ prettyAt level value) :: prettyMembers level rest

end

def pretty (j : Json) : String := j.prettyAt 0

end Json

end Loadout
