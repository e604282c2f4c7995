/-!
# Files

Documents are read through a reader of files, which is the disk for the program and a tree of
files held in memory elsewhere.  A path is followed name by name through the directories, which
are whatever stands above a file, from the top of the tree or from the directory that is home to
all other paths.
-/

namespace Loadout

/-- Why a path has no content to read. -/
inductive Unreadable where
  | missing
  | denied
  | notDirectory
  | isDirectory
  | nameTooLong
  | nameBroken
  | other (reason : String)
  deriving DecidableEq, Repr

def Unreadable.message : Unreadable → String
  | missing => "No such file or directory (os error 2)"
  | denied => "Permission denied (os error 13)"
  | notDirectory => "Not a directory (os error 20)"
  | isDirectory => "Is a directory (os error 21)"
  | nameTooLong => "File name too long (os error 36)"
  | nameBroken => "file name contained an unexpected NUL byte"
  | other reason => reason

/-- A way to read files: the content of a path, or the reason why there is none. -/
abbrev FileReader (m : Type → Type) := String → m (Except Unreadable String)

def inDirectory (dir file : String) : String :=
  if dir.isEmpty then file
  else if dir.endsWith "/" then dir ++ file
  else dir ++ "/" ++ file

/-- Files held in memory, each under the names that lead to it from the top. -/
structure FileTree where
  files : List (List String × String)
  /-- The directory where paths start that do not start at the top. -/
  home : List String
  deriving DecidableEq, Repr

namespace FileTree

def namesOf (path : String) : List String :=
  (path.splitOn "/").filter fun name => name ≠ "" && name ≠ "."

/-- Where a path starts, and the names to follow from there. -/
def routeFrom (home : List String) (path : String) : List String × List String :=
  (if path.startsWith "/" then [] else home, namesOf path)

/-- The tree of files given by their paths, the first of equal paths counting. -/
def ofPaths (home : List String) (files : List (String × String)) : FileTree where
  files := files.map fun f => ((routeFrom home f.1).1 ++ (routeFrom home f.1).2, f.2)
  home

/-- Whether names lead to something that stands above a file. -/
def isDirectory (t : FileTree) (names : List String) : Bool :=
  t.files.any fun f => names.length < f.1.length && names.isPrefixOf f.1

def nameLimit : Nat := 255

def pathLimit : Nat := 4095

/-- Follows names from a directory, given by its own names, last first. -/
def follow (t : FileTree) (passed : List String) : List String → Except Unreadable String
  | [] => .error .isDirectory
  | name :: rest =>
      -- above the top there is only the top again
      if name = ".." then t.follow (passed.drop 1) rest
      else if nameLimit < name.utf8ByteSize then .error .nameTooLong
      else
        let names := (name :: passed).reverse
        -- a file can only end a path
        match t.files.find? (·.1 = names) with
        | some file => if rest.isEmpty then .ok file.2 else .error .notDirectory
        | none =>
            if t.isDirectory names then t.follow (name :: passed) rest else .error .missing

def reader (t : FileTree) : FileReader Id := fun path =>
  if path.contains '\x00' then .error .nameBroken
  else if path.isEmpty then .error .missing
  else if pathLimit < path.utf8ByteSize then .error .nameTooLong
  else
    let (start, names) := routeFrom t.home path
    match t.follow start.reverse names with
    | .ok content =>
        if path.endsWith "/" || path.endsWith "/." then .error .notDirectory else .ok content
    | .error reason => .error reason

end FileTree

end Loadout
