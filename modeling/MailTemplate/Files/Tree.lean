import MailTemplate.Error

/-!
The file system as a command sees it: for each path, what is found there. One such file system is a
directory with all that is below it, as a value. Paths lead through it part by part; a part that
is a single point stays where it is, and two points go up.
-/

namespace MailTemplate

inductive FileEntry where
  | file (bytes : ByteArray)
  | directory
  | absent (cause : FileError)

structure Files where
  entry : Text → FileEntry

namespace Files

def isFile (files : Files) (path : Text) : Bool :=
  match files.entry path with
  | .file _ => true
  | .directory | .absent _ => false

def read (files : Files) (path : Text) : Except FileError Text :=
  match files.entry path with
  | .file bytes =>
      match String.fromUTF8? bytes with
      | some text => .ok text.toList
      | none => .error .notText
  | .directory => .error .isDirectory
  | .absent cause => .error cause

def join (directory name : Text) : Text :=
  if directory.isEmpty ∨ directory.getLast? = some '/' then directory ++ name
  else directory ++ '/' :: name

end Files

inductive Leaf where
  | file (bytes : ByteArray)
  | directory

/-- A directory, by the parts of the paths to its files and to some of its directories. Each
directory on such a path exists too. -/
structure FileTree where
  leaves : List (List Text × Leaf)

namespace FileTree

def parts (path : Text) : List Text :=
  path.splitOn '/'

def find (tree : FileTree) (place : List Text) : FileEntry :=
  match tree.leaves.find? fun leaf => leaf.1 = place with
  | some (_, .file bytes) => .file bytes
  | some (_, .directory) => .directory
  | none =>
      if place.isEmpty || tree.leaves.any fun leaf => place.isPrefixOf leaf.1 then .directory
      else .absent .notFound

def follow (tree : FileTree) (place : List Text) : List Text → FileEntry
  | [] => tree.find place.reverse
  | part :: rest =>
      match tree.find place.reverse with
      | .file _ => .absent .notDirectory
      | .absent cause => .absent cause
      | .directory =>
          if part = [] ∨ part = ['.'] then follow tree place rest
          else if part = ['.', '.'] then
            match place with
            | [] => .absent .notFound
            | _ :: above => follow tree above rest
          else follow tree (part :: place) rest

/-- What a path leads to. The empty path and paths from another root lead nowhere. -/
def entry (tree : FileTree) (path : Text) : FileEntry :=
  if path.isEmpty ∨ path.head? = some '/' then .absent .notFound
  else tree.follow [] (parts path)

def toFiles (tree : FileTree) : Files :=
  ⟨tree.entry⟩

end FileTree

end MailTemplate
