import StripePruning.Text.Piece
import StripePruning.Text.Raw

/-!
# Files

A run reads its inputs through a `Files` value, which answers for every path
what opening it gives: a file with its bytes, a directory, or the reason why
it cannot be opened.  `Files.ofList` is such a value for a tree held in
memory.
-/

namespace StripePruning

/-- Why a path cannot be opened. -/
inductive OpenFailure where
  | notFound
  | notDirectory
  | nameTooLong
  | zeroByteInName
  /-- Anything else, as the operating system words it. -/
  | other (text : String)
deriving DecidableEq

/-- The text of a failure, as the operating system words it. -/
def OpenFailure.message : OpenFailure → String
  | .notFound => "No such file or directory (os error 2)"
  | .notDirectory => "Not a directory (os error 20)"
  | .nameTooLong => "File name too long (os error 36)"
  | .zeroByteInName => "file name contained an unexpected NUL byte"
  | .other text => text

/-- What a path names. -/
inductive Entry where
  | file (content : ByteArray)
  | directory

/-- The files that a run can see. -/
structure Files where
  /-- What opening a path gives. -/
  entry : RawText → Except OpenFailure Entry

namespace Files

/-- The bytes of the file at a path, if there is such a file. -/
def read? (files : Files) (path : RawText) : Option ByteArray :=
  match files.entry path with
  | .ok (.file content) => some content
  | _ => none

/-! ## Trees in memory -/

/-- The parts of a path between its slashes. -/
def pathParts (path : RawText) : List RawText :=
  (splitAtEach '/'.toUInt8 path.bytes).map RawText.mk

/-- Whether a part of a path stays in the folder it is read in. -/
def stays (part : RawText) : Bool :=
  part = RawText.ofString "" || part = RawText.ofString "."

/-- Whether a part of a path leaves the folder it is read in. -/
def leaves (part : RawText) : Bool :=
  part = RawText.ofString ".."

/-- A file of a tree: the names that lead to it, and its bytes. -/
abbrev TreeFile := List RawText × ByteArray

/-- Where a walk through a tree stands. -/
inductive Place where
  | folder (names : List RawText)
  | file (content : ByteArray)

/-- The place that a name in a folder leads to. -/
def enter (tree : List TreeFile) (names : List RawText) (name : RawText) :
    Except OpenFailure Place :=
  let target := names ++ [name]
  if name.bytes.length > 255 then .error .nameTooLong
  else
    match tree.find? (·.1 == target) with
    | some (_, content) => .ok (.file content)
    | none =>
      if tree.any fun (path, _) => target.isPrefixOf path then .ok (.folder target)
      else .error .notFound

/-- One part of a path: an empty part and `.` stay in the folder, `..` leaves
it, and nothing lies below a file. -/
def step (tree : List TreeFile) (place : Place) (part : RawText) : Except OpenFailure Place :=
  match place with
  | .file _ => .error .notDirectory
  | .folder names =>
    if stays part then .ok place
    else if leaves part then .ok (.folder names.dropLast)
    else enter tree names part

/-- The entry of a tree that a relative path names.  An absolute path lies
outside the tree. -/
def lookup (tree : List TreeFile) (path : RawText) : Except OpenFailure Entry := do
  if path.bytes.contains 0 then throw .zeroByteInName
  if path.bytes.isEmpty then throw .notFound
  if path.bytes.length ≥ 4096 then throw .nameTooLong
  if path.bytes.head? = some '/'.toUInt8 then throw .notFound
  match ← (pathParts path).foldlM (step tree) (.folder []) with
  | .folder _ => return .directory
  | .file content => return .file content

/-- The files of a tree given by their relative paths; the folders on the way
to them exist. -/
def ofList (entries : List (String × ByteArray)) : Files where
  entry := lookup <| entries.map fun (path, content) =>
    ((pathParts path).filter fun part => !stays part, content)

end Files

/-- The last name of a path without its extension: what stands before the last
point, unless that point opens the name. -/
def fileStem (path : RawText) : String :=
  let names := (Files.pathParts path).filter fun part => !Files.stays part
  match names.getLast? with
  | none => ""
  | some name =>
    if Files.leaves name then ""
    else
      match cutAt? '.'.toUInt8 name.bytes.reverse with
      | some (_, stem) => if stem.isEmpty then name.display else RawText.display ⟨stem.reverse⟩
      | none => name.display

end StripePruning
