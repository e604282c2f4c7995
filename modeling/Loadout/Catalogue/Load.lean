import Loadout.Catalogue.Resolve

/-!
# Loading a catalogue

A catalogue is a directory with six files.  All of them are read and parsed, in a fixed order,
before anything is resolved.
-/

namespace Loadout

open Json

def readFileAs {m : Type → Type} [Monad m] {α : Type} (files : FileReader m) (path : String)
    (read : Reader α) : ExceptT CatalogueError m α := do
  match ← files path with
  | .error reason => throw (.unreadable path reason)
  | .ok content =>
      match (Json.parse? content).bind read with
      | some a => return a
      | none => throw (.unparsable path)

def CatalogueDraft.readFrom {m : Type → Type} [Monad m] (files : FileReader m) (dir : String) :
    ExceptT CatalogueError m CatalogueDraft := do
  let file {α : Type} (name : String) (read : Reader α) :=
    readFileAs files (inDirectory dir name) read
  return {
    skills := ← file "skills.json" SkillsDraft.read
    decorations := ← file "decorations.json" (readListed "decorations" DecorationDraft.read)
    armour := ← file "armour.json" (readListed "armour_sets" ArmourSetDraft.read)
    charms := ← file "charms.json" (readListed "charms" CharmDraft.read)
    weapons := ← file "weapons.json" (readListed "weapons" WeaponDraft.read)
    buffs := ← file "misc_buffs.json" (readListed "misc_buffs" Buff.read) }

def Catalogue.load {m : Type → Type} [Monad m] (files : FileReader m) (dir : String) :
    ExceptT CatalogueError m Catalogue := do
  let draft ← CatalogueDraft.readFrom files dir
  ExceptT.mk (pure draft.resolve)

end Loadout
