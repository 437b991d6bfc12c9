import BadgeLink.Console.Basic

/-!
# Simulated folders

The files that a program finds from its working directory. A path is walked name by name, and the
first name that cannot be followed decides how the walk fails: names lead on from directories only,
no name may be longer than `maxName` where names are limited, and no walk may follow more than
`maxLinks` links. A walk can leave the working directory for what the machine has around it.
-/

namespace BadgeLink

open Console (FileFault)

/-- Where a walk along a path can stand. -/
inductive Folder.Place where
  | file (content : Except FileFault (List UInt8))
  /-- In a directory at or below the working directory; the names that lead to it, latest first. -/
  | inside (names : List String)
  /-- So many levels above the working directory, but below the root. -/
  | above (levels : Nat)
  /-- In another directory of the machine; the names that lead to it from the root, latest first. -/
  | outside (names : List String)

def Folder.Place.root : Place := .outside []

/-- What a name leads to. -/
inductive Folder.Step where
  | place (p : Place)
  /-- A link that leads to a place at once. -/
  | jump (p : Place)
  /-- A link that is followed name by name from the root. -/
  | link (path : String)

/-- The content of a working directory, where it lies, and what the machine has around it. -/
structure Folder where
  /-- The files by their paths from the working directory. -/
  files : List (String × List UInt8) := []
  /-- How many directories lie above the working directory, the root among them. -/
  depth : Nat := 2
  /-- What the machine has at a path from the root; the names of the path, latest first. -/
  around : List String → Option Folder.Step := fun _ => none
  /-- Whether a directory of the machine limits the length of the names that it looks up. -/
  limitsNames : List String → Bool := fun _ => true

namespace Folder

/-- The longest name of a file or directory, in bytes. -/
def maxName : Nat := 255

/-- The longest path, in bytes. -/
def maxPath : Nat := 4095

/-- How many links a walk may follow. -/
def maxLinks : Nat := 40

/-- What a name leads to from a directory at or below the working directory. -/
def child (f : Folder) (names : List String) (name : String) : Except FileFault Step :=
  let path := (name :: names).reverse
  let files := f.files.map fun (file, data) => (file.splitOn "/", data)
  match files.lookup path with
  | some data => .ok (.place (.file (.ok data)))
  | none =>
    if files.any fun (file, _) => path.isPrefixOf file then .ok (.place (.inside (name :: names)))
    else .error .notFound

def climb (f : Folder) (levels : Nat) : Place :=
  if levels < f.depth then .above levels else .root

/-- The directory above a directory; above the root is the root. -/
def parent (f : Folder) : Place → Place
  | .inside (_ :: names) => .inside names
  | .inside [] => f.climb 1
  | .above levels => f.climb (levels + 1)
  | .outside names => .outside names.tail
  | .file content => .file content

/-- Why a name of which a directory knows nothing leads nowhere, where names are limited. -/
def missing (name : String) : FileFault :=
  if maxName < name.utf8ByteSize then .nameTooLong else .notFound

/-- What a name leads to. The empty name, which stands between two slashes and after the last, leads
nowhere else, like a dot. -/
def follow (f : Folder) (place : Place) (name : String) : Except FileFault Step :=
  match place with
  | .file _ => .error .notDirectory
  | _ =>
    if name.isEmpty || name == "." then .ok (.place place)
    else if name == ".." then .ok (.place (f.parent place))
    else
      match place with
      | .outside names =>
        match f.around (name :: names) with
        | some step => .ok step
        | none => .error (if f.limitsNames names then missing name else .notFound)
      | .inside names =>
        if maxName < name.utf8ByteSize then .error .nameTooLong else f.child names name
      | _ => .error (missing name)

/-- Where a walk from a place leads; it may follow so many links more. -/
def walk (f : Folder) (links : Nat) (place : Place) (names : List String) :
    Except FileFault Place :=
  match names with
  | [] => .ok place
  | name :: rest =>
    match f.follow place name, links with
    | .error e, _ => .error e
    | .ok (.place p), links => f.walk links p rest
    | .ok _, 0 => .error .tooManyLinks
    | .ok (.jump p), links + 1 => f.walk links p rest
    | .ok (.link path), links + 1 => f.walk links .root (path.splitOn "/" ++ rest)
termination_by (links, names.length)

def locate (f : Folder) (path : String) : Except FileFault Place :=
  if path.isEmpty then .error .notFound
  else if maxPath < path.utf8ByteSize then .error .nameTooLong
  else f.walk maxLinks (if path.startsWith "/" then .root else .inside []) (path.splitOn "/")

def read (f : Folder) (path : String) : Except FileFault (List UInt8) := do
  match ← f.locate path with
  | .file content => content
  | _ => throw .isDirectory

end Folder

end BadgeLink
