import Primer.Fault
import Primer.Text.Blank

/-! Paths and the files they lead to. A path is followed part by part, so that a
step back out of a directory is only taken if the directory is there. A place in a
tree of files is the list of the parts that lead to it from the root. -/
namespace Primer.CommandLine

def pathParts (path : String) : List String :=
  -- Empty parts and `.` lead nowhere.
  ((cut (· == '/') path.toList).filter fun p => !p.isEmpty && decide (p ≠ ['.'])).map String.ofList

/-- A path in its plain form, made of its parts. Two slashes at the start are kept. -/
def plainPath (path : String) : String :=
  let slashes := (path.toList.takeWhile (· == '/')).length
  let root := if slashes = 2 then "//" else if 0 < slashes then "/" else ""
  match root ++ "/".intercalate (pathParts path) with
  | "" => "."
  | plain => plain

-- Both limits count octets.
def partLimit : Nat := 255
def pathLimit : Nat := 4095

inductive Entry
  | missing
  | file (octets : List UInt8)
  | directory
  /-- The path, or a part of it that was reached, is too long to be followed. -/
  | tooLong
  deriving DecidableEq, Repr

def Entry.fault? (path : String) : Entry → Option Fault
  | .directory => some (.notAFile path)
  | .tooLong => some (.nameTooLong path)
  | .missing | .file _ => none

/-- Files by their places, and the place where relative paths start. -/
structure FileTree where
  files : List (List String × List UInt8)
  home : List String
  deriving Repr

namespace FileTree

/-- The directories are those above the files, the home and those above it. -/
def isDirectory (t : FileTree) (place : List String) : Bool :=
  place.isPrefixOf t.home ||
    t.files.any fun f => place.isPrefixOf f.1 && decide (place ≠ f.1)

def entry (t : FileTree) (place : List String) : Entry :=
  match t.files.lookup place with
  | some octets => .file octets
  | none => if t.isDirectory place then .directory else .missing

def walk (t : FileTree) (place : List String) : List String → Entry
  | [] => t.entry place
  | part :: parts =>
    match t.entry place with
    | .directory =>
      -- From the root `..` leads to the root.
      if part = ".." then t.walk place.dropLast parts
      else if partLimit < part.utf8ByteSize then .tooLong
      else t.walk (place ++ [part]) parts
    | _ => .missing

def look (t : FileTree) (path : String) : Entry :=
  if path.toList.contains '\x00' then .missing
  else if pathLimit < path.utf8ByteSize then .tooLong
  else t.walk (if path.toList.head? = some '/' then [] else t.home) (pathParts path)

end FileTree
end Primer.CommandLine
