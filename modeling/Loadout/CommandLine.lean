import Loadout.Catalogue.Review
import Loadout.CommandLine.Arguments
import Loadout.Report

/-!
# Carrying out a command

A command reads files, which is all it needs of its surroundings besides a preset directory and the
time.  Its outcome is a report, a review, or the cause of a failure; exit code and texts follow from
the outcome.
-/

namespace Loadout.CommandLine

structure Surroundings (m : Type → Type) where
  files : FileReader m
  dataDir : Option String
  now : m String

inductive Failure where
  | catalogue (dir : String) (e : CatalogueError)
  | request (path : String) (e : InputError)
  | build (path : String) (e : InputError)
  | search (e : SearchError)
  | noBuild
  | fault (f : Fault)
  deriving DecidableEq, Repr

namespace Failure

def message : Failure → String
  | catalogue dir e => "failed to load catalogue from " ++ dir ++ ": " ++ e.message
  | request path e => "invalid search request " ++ path ++ ": " ++ e.message
  | build path e => "invalid build " ++ path ++ ": " ++ e.message
  | search e => "search failed: " ++ e.message
  | noBuild => "no build satisfies the request"
  | fault _ => "arithmetic fault"

def code : Failure → Nat
  | fault _ => 101
  | _ => 1

def ofRequest (path : String) : InputError → Failure
  | .fault f => .fault f
  | e => .request path e

def ofBuild (path : String) : InputError → Failure
  | .fault f => .fault f
  | e => .build path e

def ofSearch : SearchError → Failure
  | .fault f => .fault f
  | e => .search e

end Failure

inductive Outcome where
  | stopped (s : Stop)
  | reported (document : Json)
  | reviewed (dir : String) (remarks : List Remark)
  | failed (f : Failure)

namespace Outcome

def ofReport : Except Failure Json → Outcome
  | .ok document => .reported document
  | .error f => .failed f

def usage : String := "usage: <search|evaluate|validate>"

def code : Outcome → Nat
  | stopped s => s.code
  | reported _ => 0
  | reviewed _ remarks => if remarks.any (·.severity = .error) then 1 else 0
  | failed f => f.code

def output : Outcome → List String
  | stopped .help => [usage]
  | stopped .misuse => []
  | reported document => [document.pretty]
  | reviewed dir remarks =>
      if remarks.any (·.severity = .error) then []
      else
        ["validation passed: " ++ dir ++ " (" ++ toString (Remark.count .warning remarks) ++
          " warning(s))"]
  | failed _ => []

def complaints : Outcome → List String
  | stopped .help => []
  | stopped .misuse => [usage]
  | reported _ => []
  | reviewed _ remarks =>
      remarks.map ("- " ++ ·.line) ++
        if remarks.any (·.severity = .error) then
          ["validation failed: " ++ toString (Remark.count .error remarks) ++ " error(s)"]
        else []
  | failed f => [f.message]

end Outcome

/-- What follows the last point in a file's name, if something comes before the point. -/
def extension? (path : String) : Option String :=
  let name := (path.splitOn "/").getLastD ""
  -- a point at the very start belongs to the name
  match (name.splitOn ".").reverse with
  | ext :: before => if name = ".." ∨ before = [] ∨ before = [""] then none else some ext
  | [] => none

def isYaml (path : String) : Bool :=
  extension? path = some "yaml" || extension? path = some "yml"

/-- The directory of a catalogue that is neither named nor preset. -/
def defaultDataDir : String := "data"

variable {m : Type → Type} [Monad m]

namespace Surroundings

/-- The catalogue directory: the named one, else the preset one. -/
def directory (s : Surroundings m) (named : Option String) : String :=
  (named.or s.dataDir).getD defaultDataDir

def catalogue (s : Surroundings m) (named : Option String) : ExceptT Failure m Catalogue :=
  let dir := s.directory named
  (Catalogue.load s.files dir).adapt (.catalogue dir)

def document {α : Type} (s : Surroundings m) (path : String)
    (resolve : String → Except InputError α) : ExceptT InputError m α := do
  match ← s.files path with
  | .error reason => throw (.unreadable path reason)
  | .ok content => ExceptT.mk (pure (resolve content))

def search (s : Surroundings m) (path : String) (named : Option String) (o : SearchOptions) :
    ExceptT Failure m Json := do
  let c ← s.catalogue named
  let read := if isYaml path then Request.ofYaml c else Request.ofJson c
  let q ← (s.document path read).adapt (.ofRequest path)
  let outcome ← (ExceptT.mk (pure (q.search c o))).adapt Failure.ofSearch
  let some find := outcome.best | throw .noBuild
  let report ← (ExceptT.mk (pure (Report.ofFind c q find outcome.stats))).adapt Failure.fault
  return report.toJson (← s.now)

def evaluate (s : Surroundings m) (path : String) (named : Option String) :
    ExceptT Failure m Json := do
  let c ← s.catalogue named
  let b ← (s.document path (Build.ofJson c)).adapt (.ofBuild path)
  let report ← (ExceptT.mk (pure (Report.ofBuild c b))).adapt Failure.fault
  return report.toJson (← s.now)

def execute (s : Surroundings m) : Command → m Outcome
  | .search path named parallel _ batches => do
      return .ofReport (← (s.search path named { parallel, batches }).run)
  | .evaluate path named => do return .ofReport (← (s.evaluate path named).run)
  | .validate named => do
      let dir := s.directory named
      return .reviewed dir (← Catalogue.reviewDirectory s.files dir)

def run (s : Surroundings m) (args : List String) : m Outcome :=
  match Command.ofArguments args with
  | .ok command => s.execute command
  | .error stop => return .stopped stop

end Surroundings

end Loadout.CommandLine
