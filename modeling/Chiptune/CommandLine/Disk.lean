/-!
# Disks

A disk in memory: folders and files, each under the names that lead to it from the root. A path is
followed name by name. Every step needs a folder to start from; `.` stays, `..` goes back, and a
slash at the end asks for a folder. `read` and `write` fail with the reasons, and in the words, of
the system calls that open a file.
-/

namespace Chiptune.CommandLine

/-- The names that lead from the root to a folder or a file. -/
abbrev Place := List String

inductive Entry
  | folder
  | file (content : ByteArray)
  deriving Inhabited

structure Disk where
  /-- Where paths without a leading slash start. -/
  home : Place
  /-- Everything but the root; of two entries under one place the first one counts. -/
  entries : List (Place × Entry)
  deriving Inhabited

/-- Why a file could not be opened. -/
inductive DiskError
  | missing
  | notFolder
  | isFolder
  | nameTooLong
  deriving DecidableEq, Repr, Inhabited

def DiskError.message : DiskError → String
  | missing => "No such file or directory (os error 2)"
  | notFolder => "Not a directory (os error 20)"
  | isFolder => "Is a directory (os error 21)"
  | nameTooLong => "File name too long (os error 36)"

namespace Disk

/-- The most bytes of one name. -/
def longestName : Nat := 255

/-- The most bytes of a path. -/
def longestPath : Nat := 4095

/-- What is found at a place. The root is always a folder. -/
def entryAt (d : Disk) (place : Place) : Option Entry :=
  if place = [] then some .folder else d.entries.lookup place

/-- Follow some names. The place they end at need not hold anything yet. -/
def follow (d : Disk) : Place → List String → Except DiskError Place
  | place, [] => .ok place
  | place, name :: rest =>
    match d.entryAt place with
    | none => .error .missing
    | some (.file _) => .error .notFolder
    | some .folder =>
      if name = "" ∨ name = "." then d.follow place rest
      else if name = ".." then d.follow place.dropLast rest
      else if longestName < name.utf8ByteSize then .error .nameTooLong
      else d.follow (place ++ [name]) rest

/-- Follow the names of a path, once its length has been found to be within bounds. -/
def resolve (d : Disk) (path : String) (names : List String) : Except DiskError Place :=
  if longestPath < path.utf8ByteSize then .error .nameTooLong
  else d.follow (if path.startsWith "/" then [] else d.home) names

/-- The content of the file that a path leads to. -/
def read (d : Disk) (path : String) : Except DiskError ByteArray := do
  match d.entryAt (← d.resolve path (path.splitOn "/")) with
  | none => .error .missing
  | some .folder => .error .isFolder
  | some (.file content) => .ok content

/-- The names in front of the last one of a path with a slash at its end. -/
def parentNames (names : List String) : List String :=
  ((names.reverse.dropWhile (· = "")).drop 1).reverse

/-- Make a file, or replace the content of one. A path with a slash at its end can only mean a
folder, whether there is one or not. -/
def write (d : Disk) (path : String) (content : ByteArray) : Except DiskError Disk := do
  let names := path.splitOn "/"
  if path.endsWith "/" then
    let _ ← d.resolve path (parentNames names ++ ["."])
    .error .isFolder
  else
    let place ← d.resolve path names
    match d.entryAt place with
    | some .folder => .error .isFolder
    | _ => return { d with entries := (place, .file content) :: d.entries }

/-- A place holds what was put there last. -/
theorem entryAt_cons (home place : Place) (entry : Entry) (entries : List (Place × Entry))
    (h : place ≠ []) : entryAt ⟨home, (place, entry) :: entries⟩ place = some entry := by
  simp [entryAt, h]

/-- Other places hold what they held before. -/
theorem entryAt_cons_of_ne (home place other : Place) (entry : Entry)
    (entries : List (Place × Entry)) (h : other ≠ place) :
    entryAt ⟨home, (place, entry) :: entries⟩ other = entryAt ⟨home, entries⟩ other := by
  simp only [entryAt, List.lookup_cons]
  rw [show (other == place) = false from by simpa using h]

end Disk
end Chiptune.CommandLine
