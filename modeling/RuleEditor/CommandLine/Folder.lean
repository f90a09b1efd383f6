import RuleEditor.OrderedMap

/-!
# Folders of text files

The command line reads and writes text files by their paths. What it makes of them depends on their
contents only, so the folder in which it works is a map from names to texts. A name that holds
slashes lies in a folder within; such a folder exists if a file lies in it.

A path is followed step by step, and the first step that cannot be taken decides what is said. It
may lead out of the folder. Of what lies there no more is known than that there are folders around
this one, the usual folders at the root, and the null device, which is empty and keeps nothing.

## Main definitions

* `FileError` — why a file cannot be read or written, with its message.
* `Folder` — the files of a folder.
* `Folder.Place`, `Folder.follow` — where the steps of a path lead.
* `Folder.read`, `Folder.write` — access by path.
-/

namespace RuleEditor

/-- Why a file cannot be read or written. -/
inductive FileError where
  /-- There is no such file, or no folder for it. -/
  | notFound
  /-- The access is not allowed. -/
  | denied
  /-- The path leads through a file as if that were a folder. -/
  | notAFolder
  /-- The path is that of a folder. -/
  | isAFolder
  /-- The path or one of its steps is too long. -/
  | nameTooLong
  /-- The file is no text. -/
  | notText
deriving DecidableEq, Repr

/-- What is said of a file that cannot be read or written. -/
def FileError.message : FileError → String
  | .notFound => "No such file or directory (os error 2)"
  | .denied => "Permission denied (os error 13)"
  | .notAFolder => "Not a directory (os error 20)"
  | .isAFolder => "Is a directory (os error 21)"
  | .nameTooLong => "File name too long (os error 36)"
  | .notText => "stream did not contain valid UTF-8"

/-- The files of a folder, by name. -/
abbrev Folder := OrderedMap String

namespace Folder

/-! ## Paths -/

/-- The steps of a path. -/
def steps (path : String) : List String := (path.splitOn "/").filter fun s => s ≠ ""

/-- The greatest length of a step, in bytes. -/
def maxStep : Nat := 255

/-- The greatest length of a path, in bytes. -/
def maxPath : Nat := 4095

/-- The folders that there are at the root. -/
def rootFolders : List String :=
  ["bin", "boot", "dev", "etc", "home", "lib", "media", "mnt", "opt", "proc", "root", "run", "sbin",
    "srv", "sys", "tmp", "usr", "var"]

/-- A folder that a path leads to. -/
inductive Place where
  /-- The folder within that has these steps. -/
  | within (steps : List String)
  /-- A folder around this one, or elsewhere. -/
  | outside
  /-- The root. -/
  | root
  /-- The folder of devices. -/
  | devices
deriving DecidableEq, Repr

/-- The folder around a place. -/
def Place.parent : Place → Place
  | .within [] => .outside
  | .within steps => .within steps.dropLast
  | .outside => .outside
  | .root => .root
  | .devices => .root

/-- What there is under a name. -/
inductive Entry where
  /-- A folder. -/
  | folder (place : Place)
  /-- A file of this folder, by its name. -/
  | file (name : String)
  /-- The null device. -/
  | nullDevice
  /-- Nothing. -/
  | nothing
deriving DecidableEq, Repr

/-- The steps of the name of a file. -/
def nameSteps (name : String) : List String := (steps name).filter fun s => s ≠ "."

/-- What there is in this folder at the end of some steps. -/
def entryWithin (f : Folder) (s : List String) : Entry :=
  match f.find? fun (name, _) => nameSteps name == s with
  | some (name, _) => .file name
  | none =>
    if f.any fun (name, _) => s.isPrefixOf (nameSteps name) then .folder (.within s) else .nothing

/-- What a step from a place leads to. -/
def entry (f : Folder) (place : Place) (step : String) : Except FileError Entry :=
  if step = "." then .ok (.folder place)
  else if step = ".." then .ok (.folder place.parent)
  else if maxStep < step.utf8ByteSize then .error .nameTooLong
  else
    match place with
    | .within s => .ok (entryWithin f (s ++ [step]))
    | .outside => .ok .nothing
    | .root =>
      if step = "dev" then .ok (.folder .devices)
      else if rootFolders.contains step then .ok (.folder .outside)
      else .ok .nothing
    | .devices => .ok (if step = "null" then .nullDevice else .nothing)

/-- The folder that steps lead to from a place. -/
def follow (f : Folder) : Place → List String → Except FileError Place
  | place, [] => .ok place
  | place, step :: rest =>
    match f.entry place step with
    | .error e => .error e
    | .ok (.folder place) => follow f place rest
    | .ok .nothing => .error .notFound
    | .ok _ => .error .notAFolder

/-- A path taken apart. -/
structure Target where
  /-- The folder in which the last step is taken. -/
  place : Place
  /-- The last step; the root has none. -/
  last : Option String
  /-- Whether the path ends with a slash, so that it can only be that of a folder. -/
  slash : Bool

/-- Whether the last step is a name, rather than one that stays in place or leads back. -/
def Target.isNamed (t : Target) : Bool :=
  match t.last with
  | some step => step != "." && step != ".."
  | none => false

/-- Follows a path up to its last step. -/
def target (f : Folder) (path : String) : Except FileError Target :=
  if path = "" then .error .notFound
  else if maxPath < path.utf8ByteSize then .error .nameTooLong
  else
    let start : Place := if path.startsWith "/" then .root else .within []
    (f.follow start (steps path).dropLast).map fun place =>
      { place, last := (steps path).getLast?, slash := path.endsWith "/" }

/-- What there is at the end of a path. -/
def Target.entry (f : Folder) (t : Target) : Except FileError Entry :=
  match t.last with
  | none => .ok (.folder t.place)
  | some step => Folder.entry f t.place step

/-! ## Access -/

/-- The text of the file at a path. -/
def read (f : Folder) (path : String) : Except FileError String :=
  match f.target path with
  | .error e => .error e
  | .ok t =>
    match t.entry f with
    | .error e => .error e
    | .ok (.folder _) => .error .isAFolder
    | .ok .nothing => .error .notFound
    | .ok (.file name) =>
      if t.slash then .error .notAFolder else .ok ((OrderedMap.get? f name).getD "")
    | .ok .nullDevice => if t.slash then .error .notAFolder else .ok ""

/-- The folder with a new file in a place; a file outside is not in it. -/
def create (f : Folder) (place : Place) (name text : String) : Folder :=
  match place with
  | .within s => OrderedMap.insert f (String.intercalate "/" (s ++ [name])) text
  | _ => f

/-- Writes a text to the file at a path. The folder of the file has to exist. A name with a slash
behind it is never that of a file, whatever there is. -/
def write (f : Folder) (path text : String) : Except FileError Folder :=
  match f.target path with
  | .error e => .error e
  | .ok t =>
    if t.isNamed && t.slash then .error .isAFolder
    else
      match t.entry f with
      | .error e => .error e
      | .ok (.folder _) => .error .isAFolder
      | .ok (.file name) => .ok (OrderedMap.insert f name text)
      | .ok .nullDevice => .ok f
      | .ok .nothing => .ok (f.create t.place (t.last.getD "") text)

end Folder

end RuleEditor
