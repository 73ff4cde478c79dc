import RingAgreement.Ring.PartyId
import RingAgreement.Service.Error
/-!
A directory of files with what they hold. A file may lie in a subdirectory, which exists as long
as it holds a file.
-/

namespace RingAgreement

/-- The names of directories and the file name at the end of a path. -/
abbrev FilePath := List String

structure Directory where
  files : List (FilePath × List UInt8)
deriving DecidableEq, Repr

namespace Directory

def empty : Directory := ⟨[]⟩

/-- The longest part of a path, in bytes. -/
def maxPartBytes : Nat := 255

/-- The longest path, in bytes. -/
def maxPathBytes : Nat := 4095

/-- Whether a place is the directory itself or a subdirectory. -/
def isFolder (d : Directory) (place : FilePath) : Bool :=
  place.isEmpty || d.files.any fun f => place.isPrefixOf f.1 && place ≠ f.1

/-- The place that the parts of a path lead to from a folder. All but the last part have to lead to
a folder, and none leads out of the directory. -/
def follow? (d : Directory) (place : FilePath) : List String → Option FilePath
  | [] => some place
  | "" :: rest | "." :: rest => d.follow? place rest
  | ".." :: rest => if place.isEmpty then none else d.follow? place.dropLast rest
  | part :: rest =>
    if part.utf8ByteSize > maxPartBytes then none
    else if rest.isEmpty then some (place ++ [part])
    else if d.isFolder (place ++ [part]) then d.follow? (place ++ [part]) rest
    else none

/-- The place of a path, if it is one inside the directory. -/
def resolve? (d : Directory) (path : String) : Option FilePath :=
  if path.utf8ByteSize > maxPathBytes ∨ path.startsWith "/" ∨ path.contains '\x00' then none
  else d.follow? [] (path.splitOn "/")

/-- What the file at a path holds. -/
def read? (d : Directory) (path : String) : Option (List UInt8) := do
  let place ← d.resolve? path
  d.files.lookup place

/-- The directory after a file has been written. The folder of the file has to exist. -/
def write? (d : Directory) (path : String) (content : List UInt8) : Option Directory := do
  let place ← d.resolve? path
  if d.isFolder place ∨ !d.isFolder place.dropLast then none
  else some ⟨(place, content) :: d.files.filter (·.1 ≠ place)⟩

/-- A directory of files with given paths. -/
def ofFiles (files : List (String × List UInt8)) : Directory :=
  ⟨files.map fun f => ((f.1.splitOn "/").filter fun part => part ≠ "" ∧ part ≠ ".", f.2)⟩

end Directory

end RingAgreement
