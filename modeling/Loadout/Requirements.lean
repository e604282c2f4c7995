import Loadout.Catalogue.Error
import Loadout.Levels

/-!
# Requirements

A search is asked for minimum levels of some skills.  Those skills, together with their secret
skills, are the relevant ones: all others are left out of every tally.  Skills can also be forced
into a state, removed altogether, and set bonuses can be kept below a cutoff; a set bonus is
relevant when a stage of it grants a relevant skill or when it has a cutoff.
-/

namespace Loadout

/-- Why requirements cannot be met by anything. -/
inductive Contradiction where
  | beyondLimit (skill : String) (level limit : Nat)
  | requiredAndRemoved (skill : String)
  | noSuchState (skill : String) (states state : Nat)
  | activeAndRemoved (skill : String)
  | cutoffRange (cutoff : Nat) (bonus : String)
  deriving DecidableEq, Repr

def Contradiction.message : Contradiction → String
  | beyondLimit skill level limit =>
      skill ++ " requires level " ++ toString level ++ " but cannot exceed " ++ toString limit
  | requiredAndRemoved skill => skill ++ " is both required and removed"
  | noSuchState skill states state =>
      skill ++ " has " ++ toString states ++ " states; state " ++ toString state ++
        " is out of range"
  | activeAndRemoved skill => skill ++ " is forced active but removed"
  | cutoffRange cutoff bonus =>
      "set bonus cutoff " ++ toString cutoff ++ " for " ++ bonus ++ " is out of range"

structure Requirements where
  /-- The relevant skills with their minimum levels. -/
  minimum : OrderedMap SkillId Nat
  states : OrderedMap SkillId Nat
  removed : List SkillId
  cutoffs : OrderedMap BonusId Nat
  relevantBonuses : List BonusId
  deriving Inhabited

namespace Requirements

def checkMinimum (t : SkillTable) (removed : List SkillId) (s : SkillId) (level : Nat) :
    Except Contradiction Unit :=
  let skill := t.skill s
  if skill.secretLimit < level then .error (.beyondLimit skill.id level skill.secretLimit)
  else if 0 < level ∧ s ∈ removed then .error (.requiredAndRemoved skill.id)
  else .ok ()

/-- Refuses a state that a skill does not have or must not be in. -/
def checkState (t : SkillTable) (removed : List SkillId) (s : SkillId) (state : Nat) :
    Except Contradiction Unit :=
  let skill := t.skill s
  if skill.states ≤ state then .error (.noSuchState skill.id skill.states state)
  else if 0 < state ∧ s ∈ removed then .error (.activeAndRemoved skill.id)
  else .ok ()

/-- Refuses a cutoff that every count or no count is below. -/
def checkCutoff (t : SkillTable) (b : BonusId) (cutoff : Nat) : Except Contradiction Unit :=
  if cutoff = 0 ∨ maxPieces + 1 < cutoff then .error (.cutoffRange cutoff (t.bonus b).id)
  else .ok ()

/-- The secret skills of the asked skills, as far as they are not removed. -/
def secretsOf (t : SkillTable) (removed : List SkillId) (asked : List SkillId) : List SkillId :=
  (asked.filterMap fun s => (t.skill s).secretSkill).filter fun s => s ∉ removed

/-- The asked levels, with the secret skills of the asked skills at level 0 where they are new. -/
def withSecrets (t : SkillTable) (removed : List SkillId) (asked : OrderedMap SkillId Nat) :
    OrderedMap SkillId Nat :=
  (secretsOf t removed asked.keys).foldl
    (fun m s => if m.contains s then m else m.insert s 0) asked

/-- Whether a set bonus matters to requirements with the given skills and cutoffs. -/
def bonusMatters (t : SkillTable) (minimum : OrderedMap SkillId Nat)
    (cutoffs : OrderedMap BonusId Nat) (b : BonusId) : Bool :=
  cutoffs.contains b || (t.bonus b).stages.any fun stage => minimum.contains stage.skill

/-- Requirements from what is asked for, unless they contradict themselves. -/
def make (t : SkillTable) (asked states : OrderedMap SkillId Nat) (removed : List SkillId)
    (cutoffs : OrderedMap BonusId Nat) : Except Contradiction Requirements := do
  -- the first contradiction is the answer: levels, then states, then cutoffs, each in table order
  asked.entries.forM fun e => checkMinimum t removed e.1 e.2
  states.entries.forM fun e => checkState t removed e.1 e.2
  cutoffs.entries.forM fun e => checkCutoff t e.1 e.2
  let minimum := withSecrets t removed asked
  return {
    minimum, states, removed, cutoffs
    -- in a table with more entries than handles, several entries share one
    relevantBonuses := (t.bonusIds.filter (bonusMatters t minimum cutoffs)).eraseDups }

def relevant (r : Requirements) (s : SkillId) : Bool := r.minimum.contains s

def bonusRelevant (r : Requirements) (b : BonusId) : Bool := r.relevantBonuses.contains b

def removes (r : Requirements) (s : SkillId) : Bool := r.removed.contains s

def skills (r : Requirements) : List SkillId := r.minimum.keys

/-- The state of a skill: the forced one, or the highest. -/
def stateOf (r : Requirements) (t : SkillTable) (s : SkillId) : Nat :=
  (r.states.get? s).getD ((t.skill s).states - 1)

def metBy (r : Requirements) (levels : SkillLevels) : Bool :=
  r.minimum.entries.all fun e => e.2 ≤ levels.count e.1

/-- Whether every set bonus with a cutoff stays below it. -/
def withinCutoffs (r : Requirements) (pieces : SetPieces) : Bool :=
  r.cutoffs.entries.all fun e => pieces.count e.1 < e.2

def restrictLevels (r : Requirements) (levels : SkillLevels) : SkillLevels := levels.keep r.relevant

def restrictPieces (r : Requirements) (pieces : SetPieces) : SetPieces :=
  pieces.keep r.bonusRelevant

/-- Every relevant skill at its secret limit, removed skills left out. -/
def maximumLevels (r : Requirements) (t : SkillTable) : SkillLevels :=
  .ofList ((r.skills.filter fun s => !r.removes s).map fun s => (s, t.cap s))

end Requirements

end Loadout
