import TapeMachine.Text.Quoted

/-!
# Directories

The files that a command line can name. A path is looked up one name at a time from the
directory that holds the files, and nothing outside of it can be read.
-/
namespace TapeMachine

/-- Why a file cannot be read. -/
inductive FileFault where
  | missing
  | notDirectory
  | isDirectory
  | nameTooLong
  | other (code : Nat) (text : String)

namespace FileFault

def code : FileFault → Nat
  | missing => 2
  | notDirectory => 20
  | isDirectory => 21
  | nameTooLong => 36
  | other code _ => code

def text : FileFault → String
  | missing => "No such file or directory"
  | notDirectory => "Not a directory"
  | isDirectory => "Is a directory"
  | nameTooLong => "File name too long"
  | other _ text => text

def message (f : FileFault) (path : String) : String :=
  "[Errno " ++ toString f.code ++ "] " ++ f.text ++ ": " ++ Text.quoted path

end FileFault

namespace Path

/-- The pieces of a text between slashes. -/
def pieces : List Char → List (List Char)
  | [] => [[]]
  | c :: cs =>
    match pieces cs with
    | piece :: rest => if c = '/' then [] :: piece :: rest else (c :: piece) :: rest
    | [] => [[c]]

/-- The names on a path. Empty ones and single dots lead nowhere. -/
def names (path : String) : List String :=
  ((pieces path.toList).filter fun piece => piece ≠ [] ∧ piece ≠ ['.']).map String.ofList

/-- The slashes a path starts with: two are kept, more count as one. -/
def root (path : String) : String :=
  match path.toList with
  | '/' :: '/' :: '/' :: _ => "/"
  | '/' :: '/' :: _ => "//"
  | '/' :: _ => "/"
  | _ => ""

/-- A path with nothing in it that leads nowhere. -/
def normal (path : String) : String :=
  let joined := root path ++ "/".intercalate (names path)
  if joined.isEmpty then "." else joined

/-- The most bytes a path may have. -/
def longest : Nat := 4095

/-- The most bytes a name on a path may have. -/
def longestName : Nat := 255

end Path

/-- The files below a directory, by the names that lead to them. -/
structure Directory where
  files : List (List String × List UInt8)

namespace Directory

def ofFiles (files : List (String × List UInt8)) : Directory :=
  ⟨files.map fun (path, content) => (Path.names path, content)⟩

def file? (d : Directory) (place : List String) : Option (List UInt8) :=
  (d.files.find? fun (names, _) => names = place).map (·.2)

def hasBelow (d : Directory) (place : List String) : Bool :=
  d.files.any fun (names, _) => place.isPrefixOf names

/-- Follows names from a place below the directory, given by the names that lead there, or from
a place outside of it. -/
def follow (d : Directory) : Option (List String) → List String → Except FileFault (List UInt8)
  | _, [] => .error .isDirectory
  | none, name :: rest => if name = ".." then follow d none rest else .error .missing
  | some here, name :: rest =>
    if name = ".." then follow d (if here.isEmpty then none else some here.dropLast) rest
    else if Path.longestName < name.utf8ByteSize then .error .nameTooLong
    else
      let there := here ++ [name]
      match d.file? there with
      | some content => if rest.isEmpty then .ok content else .error .notDirectory
      | none => if d.hasBelow there then follow d (some there) rest else .error .missing

/-- The content of the file at a path. -/
def read (d : Directory) (path : String) : Except FileFault (List UInt8) :=
  if Path.longest < path.utf8ByteSize then .error .nameTooLong
  else d.follow (if (Path.root path).isEmpty then some [] else none) (Path.names path)

end Directory

end TapeMachine
