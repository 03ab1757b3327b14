import MiniScheme.Interpreter

/-!
# A directory of files

The files that a program can read, by name, and what reading a path gives. A path is followed from
one part to the next, and the first part that leads nowhere decides the fault: an unknown name is
not found, a name may be too long to be one, and nothing lies below a file, not even the file
itself.

Only the files of the directory itself can be reached. The directories above it are there, since
`..` leads to them, and show no names.

## Main definitions

* `Console.Place`: where the parts of a path lead.
* `Console.Directory.step`: where one more part leads.
* `Console.Directory.read`: what reading a path gives.
-/

namespace MiniScheme.Console

/-- The files of a directory, by name. -/
structure Directory where
  files : List (String × ByteArray)

/-- Where the parts of a path lead. -/
inductive Place where
  /-- The directory itself. -/
  | here
  /-- A directory above it. -/
  | above
  | file (bytes : ByteArray)

namespace Directory

/-- The number of bytes in the longest name that a file can have. -/
def longestName : Nat := 255

/-- The number of bytes in the longest path that can be followed. -/
def longestPath : Nat := 4095

/-- Looks up a name in a directory. -/
def find (d : Directory) (place : Place) (name : String) : Except FileFault Place :=
  if longestName < name.utf8ByteSize then .error .nameTooLong
  else
    match place, d.files.lookup name with
    | .here, some bytes => .ok (.file bytes)
    | _, _ => .error .notFound

/-- Where one more part of a path leads. -/
def step (d : Directory) (place : Place) (part : String) : Except FileFault Place :=
  match place with
  | .file _ => .error .notDirectory
  | _ =>
      if part = "" ∨ part = "." then .ok place
      else if part = ".." then .ok .above
      else d.find place part

/-- Where the remaining parts of a path lead. -/
def follow (d : Directory) (place : Place) : List String → Except FileFault Place
  | [] => .ok place
  | part :: parts =>
      match d.step place part with
      | .error fault => .error fault
      | .ok place' => d.follow place' parts

/-- Where a path starts: one that begins with a slash starts above everything else. -/
def start (path : String) : Place := if path.startsWith "/" then .above else .here

/-- What reading a path gives. -/
def read (d : Directory) (path : String) : FileContent :=
  if path = "" then .error .notFound
  else if longestPath < path.utf8ByteSize then .error .nameTooLong
  else
    match d.follow (start path) (path.splitOn "/") with
    | .error fault => .error fault
    | .ok (.file bytes) => .ok bytes
    | .ok _ => .error .isDirectory

end Directory

end MiniScheme.Console
