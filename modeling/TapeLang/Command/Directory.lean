import TapeLang.Text

namespace TapeLang.Command

/-- Why a path does not lead to the bytes of a file. -/
inductive FileFault where
  | missing
  | notDirectory
  | isDirectory
  | denied
  | invalid
  | tooLong
deriving DecidableEq, Repr

namespace FileFault

/-- The message for a path; a directory opens but cannot be read. -/
def message (f : FileFault) (path : Text) : Text :=
  match f with
  | missing => text "open " ++ path ++ text ": no such file or directory"
  | notDirectory => text "open " ++ path ++ text ": not a directory"
  | isDirectory => text "read " ++ path ++ text ": is a directory"
  | denied => text "open " ++ path ++ text ": permission denied"
  | invalid => text "open " ++ path ++ text ": invalid argument"
  | tooLong => text "open " ++ path ++ text ": file name too long"

end FileFault

/-- The place where a command works, the files around it, and directories that hold nothing. -/
structure Directory where
  here : List Text := []
  files : List (List Text × Text) := []
  empty : List (List Text) := []

namespace Directory

def slash : UInt8 := 0x2F

/-- The names of a path from the root down. -/
def names (path : Text) : List Text :=
  (path.split slash).filter fun n => !n.isEmpty && n != text "."

/-- The directories that every host has at its root. -/
def standard : List Text :=
  ["bin", "boot", "dev", "etc", "home", "lib", "lib64", "media", "mnt", "opt", "proc", "root",
    "run", "sbin", "srv", "sys", "tmp", "usr", "var"].map text

/-- A directory with files given by their paths, on a host where nothing else can be read but an
empty device. -/
def of (here : List Text) (files : List (Text × Text)) : Directory :=
  { here
    files := ([text "dev", text "null"], []) ::
      files.map fun (path, bytes) => (here ++ names path, bytes)
    empty := standard.map fun name => [name] }

def file? (d : Directory) (place : List Text) : Option Text := d.files.lookup place

/-- Something may lie below the place. -/
def isDirectory (d : Directory) (place : List Text) : Bool :=
  place.isPrefixOf d.here || d.empty.any place.isPrefixOf ||
    d.files.any fun (names, _) => place.isPrefixOf names && names != place

/-- The longest name of a file. -/
def maxName : Nat := 255

/-- A path is shorter than this. -/
def maxPath : Nat := 4096

/-- Follows the parts of a path from a place. The root has no other place above it. -/
def follow (d : Directory) (place : List Text) : List Text → Except FileFault (List Text)
  | [] => .ok place
  | part :: rest =>
    if !d.isDirectory place then
      if (d.file? place).isSome then .error .notDirectory else .error .missing
    else if part.isEmpty || part == text "." then d.follow place rest
    else if part == text ".." then d.follow place.dropLast rest
    else if part.length > maxName then .error .tooLong
    else d.follow (place ++ [part]) rest

def read (d : Directory) (path : Text) : Except FileFault Text :=
  if path.contains 0 then .error .invalid
  else if path.isEmpty then .error .missing
  else if path.length ≥ maxPath then .error .tooLong
  else
    match d.follow (if path.head? == some slash then [] else d.here) (path.split slash) with
    | .error e => .error e
    | .ok place =>
      match d.file? place with
      | some bytes => .ok bytes
      | none => if d.isDirectory place then .error .isDirectory else .error .missing

end Directory

end TapeLang.Command
