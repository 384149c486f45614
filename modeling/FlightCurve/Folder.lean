/-!
The part of a file system that a program sees from its working folder: files and folders by their
paths.
-/

namespace FlightCurve

/-- What stands at a path. -/
inductive FolderNode
  | file (content : ByteArray)
  | folder

/-- A path, with the slash it begins with if it is absolute. Just two slashes there are kept, and
otherwise a slash counts once. Empty parts and single dots are left out. -/
structure FolderPath where
  root : String
  parts : List String
  deriving DecidableEq, Repr

namespace FolderPath

def rootOf (text : String) : String :=
  match (text.toList.takeWhile (· = '/')).length with
  | 0 => ""
  | 2 => "//"
  | _ => "/"

def ofText (text : String) : FolderPath :=
  ⟨rootOf text, (text.splitOn "/").filter fun part => part ≠ "" ∧ part ≠ "."⟩

/-- A path is relative to the working folder unless it has a root. -/
def isAbsolute (p : FolderPath) : Bool := p.root ≠ ""

def text (p : FolderPath) : String :=
  if !p.isAbsolute && p.parts.isEmpty then "." else p.root ++ String.intercalate "/" p.parts

/-- Whether two paths lead to one place. All roots are the same. -/
def sameAs (p q : FolderPath) : Bool := p.isAbsolute = q.isAbsolute && p.parts = q.parts

end FolderPath

/-- Files with their contents, and folders that may be empty. -/
structure Folder where
  files : List (FolderPath × ByteArray) := []
  folders : List FolderPath := []

namespace Folder

/-- What is listed at a path. A folder is there if anything is listed in it. -/
def listed? (f : Folder) (path : FolderPath) : Option FolderNode :=
  match f.files.find? (·.1.sameAs path) with
  | some (_, content) => some (.file content)
  | none =>
      let paths := f.files.map (·.1) ++ f.folders
      let within (p : FolderPath) : Bool :=
        p.isAbsolute = path.isAbsolute && path.parts.isPrefixOf p.parts
      if path.parts.isEmpty || paths.any within then some .folder else none

/-- Goes one part further from a place. There is no place outside of the working folder but the
folders above it, which are all one. -/
def enter? (f : Folder) (place : Option FolderPath) (part : String) :
    Option (Option FolderPath) :=
  match place with
  | none => if part = ".." then some none else none
  | some path =>
      match f.listed? path with
      | some .folder =>
          if part ≠ ".." then some (some { path with parts := path.parts ++ [part] })
          else if path.parts.isEmpty ∧ !path.isAbsolute then some none
          else some (some { path with parts := path.parts.dropLast })
      | _ => none

/-- What stands at a path: what is listed there, or what the path leads to part by part. -/
def find? (f : Folder) (path : FolderPath) : Option FolderNode :=
  match f.listed? path with
  | some node => some node
  | none =>
      match path.parts.foldlM f.enter? (some { path with parts := [] }) with
      | none => none
      | some none => some .folder
      | some (some place) => f.listed? place

end Folder

end FlightCurve
