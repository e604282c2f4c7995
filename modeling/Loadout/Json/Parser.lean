import Loadout.Json.Token

/-!
# Reading a document

Tokens are put together by a machine with a stack of the containers still open.  One token moves
it once, and at every moment it knows which kinds of token may come next, so a text is a document
exactly when no token is refused and the stack is empty at the end.
-/

namespace Loadout.Json

/-- A container that is still open, with its parts so far, last first. -/
inductive Frame where
  | items (rev : List Json)
  | members (rev : List (Option String × Json)) (key : Option String)

inductive Expect where
  | value
  | firstItem
  | key
  | firstKey
  | colon
  | separator
  | nothing
  deriving DecidableEq

structure Builder where
  stack : List Frame
  expect : Expect
  result : Option Json

namespace Builder

/-- A complete value: the document itself, or the next part of the innermost container. -/
def complete (b : Builder) (v : Json) : Builder :=
  match b.stack with
  | [] => ⟨[], .nothing, some v⟩
  | .items rev :: rest => ⟨.items (v :: rev) :: rest, .separator, none⟩
  | .members rev key :: rest => ⟨.members ((key, v) :: rev) key :: rest, .separator, none⟩

def enter (b : Builder) (f : Frame) (e : Expect) : Builder := ⟨f :: b.stack, e, none⟩

def leaveArray (b : Builder) : Option Builder :=
  match b.stack with
  | .items rev :: rest => some (complete ⟨rest, .value, none⟩ (.array rev.reverse))
  | _ => none

def leaveObject (b : Builder) : Option Builder :=
  match b.stack with
  | .members rev _ :: rest => some (complete ⟨rest, .value, none⟩ (.object rev.reverse))
  | _ => none

def pushValue (b : Builder) : Token → Option Builder
  | .leaf v => some (b.complete v)
  | .openArray => some (b.enter (.items []) .firstItem)
  | .openObject => some (b.enter (.members [] none) .firstKey)
  | _ => none

def pushKey (b : Builder) (key : Option String) : Option Builder :=
  match b.stack with
  | .members rev _ :: rest => some ⟨.members rev key :: rest, .colon, none⟩
  | _ => none

def pushComma (b : Builder) : Option Builder :=
  match b.stack with
  | .items _ :: _ => some { b with expect := .value }
  | .members _ _ :: _ => some { b with expect := .key }
  | [] => none

def push (b : Builder) (t : Token) : Option Builder :=
  match b.expect, t with
  | .value, t => b.pushValue t
  | .firstItem, .closeArray => b.leaveArray
  | .firstItem, t => b.pushValue t
  | .firstKey, .closeObject => b.leaveObject
  | .firstKey, .leaf (.text key) => b.pushKey key
  | .key, .leaf (.text key) => b.pushKey key
  | .colon, .colon => some { b with expect := .value }
  | .separator, .comma => b.pushComma
  | .separator, .closeArray => b.leaveArray
  | .separator, .closeObject => b.leaveObject
  | _, _ => none

end Builder

def ofTokens? (tokens : List Token) : Option Json :=
  (tokens.foldlM Builder.push ⟨[], .value, none⟩).bind (·.result)

def parse? (text : String) : Option Json := (Token.scan text).bind ofTokens?

end Loadout.Json
