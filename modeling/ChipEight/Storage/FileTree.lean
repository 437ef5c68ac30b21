import ChipEight.Program
import ChipEight.Storage.Problem

/-!
# Files in a tree of directories

A tree of files has a root, and a path leads from the root, or from the top of all
directories, to a file or a directory.  A path is followed step by step.  A blank step
and a single dot stay where they are, two dots lead to the directory above, and every
other step is a name; all of them need to stand on a directory.

This is how a POSIX system resolves paths, without links and permissions, and its errors come in
the order in which resolving a path comes upon them.  The limits on the size of names and paths are
those of Linux.

* `FileTree.write` puts a file into a tree, with the directories on the way to it.
* `FileTree.get` reads the program in the file that a path leads to.
-/

namespace ChipEight
namespace Storage

namespace Step

/-- The steps of a path, which strokes tell apart. -/
def ofPath (path : String) : List String := path.splitOn "/"

/-- A step that stays where it is.  Several strokes in a row count as one. -/
def isIdle (step : String) : Bool := step == "" || step == "."

/-- A step that is a name. -/
def isName (step : String) : Bool := !(isIdle step || step == "..")

/-- Whether the steps of a path start at the top of all directories, as they do where the
path begins with a stroke. -/
def startsAtTop (path : String) : Bool := path.toList.head? == some '/'

end Step

/-- A position among directories, be there something or not. -/
structure Position where
  /-- The number of directories to go up from the root, or nothing for the top of all
  directories. -/
  height : Option Nat
  /-- The names to go down from there. -/
  names : List String
deriving DecidableEq

namespace Position

def root : Position := ⟨some 0, []⟩

/-- The top of all directories, which lies above itself. -/
def top : Position := ⟨none, []⟩

def up (position : Position) : Position :=
  if position.names.isEmpty then ⟨position.height.map (· + 1), []⟩
  else ⟨position.height, position.names.dropLast⟩

/-- The position that a step leads to, where two dots lead nowhere from the top. -/
def after (position : Position) (step : String) : Position :=
  if Step.isName step then ⟨position.height, position.names ++ [step]⟩
  else if Step.isIdle step then position
  else position.up

/-- Where a path starts: an absolute one at the top, and a relative one at the root of the tree,
which is the working directory. -/
def origin (path : String) : Position := if Step.startsAtTop path then top else root

end Position

/-- The directories and files that a host has. -/
structure FileTree where
  /-- The positions of the directories below the root. -/
  directories : List Position
  /-- The position of every file and its bytes, the file that was written last in
  front. -/
  files : List (Position × List UInt8)

namespace FileTree

def empty : FileTree := ⟨[], []⟩

/-- Writes a file at the end of the steps from a position.  Every position on the way
becomes a directory, and it stays one even where two dots lead out of it again. -/
def writeAt (tree : FileTree) (bytes : List UInt8) (position : Position) :
    List String → FileTree
  | [] => tree
  | [name] => { tree with files := (position.after name, bytes) :: tree.files }
  | step :: later =>
    let next := position.after step
    writeAt { tree with directories := next :: tree.directories } bytes next later

/-- Writes a file at the end of a path. -/
def write (tree : FileTree) (path : String) (bytes : List UInt8) : FileTree :=
  tree.writeAt bytes (.origin path) (Step.ofPath path)

/-- The tree in which the given files have been written one after the other. -/
def ofFiles (files : List (String × List UInt8)) : FileTree :=
  files.foldl (fun tree file => tree.write file.1 file.2) empty

def file? (tree : FileTree) (position : Position) : Option (List UInt8) :=
  tree.files.lookup position

/-- Whether there is a directory at a position.  Wherever two dots lead from the root,
there is one, since the root lies somewhere below the top. -/
def isDirectory (tree : FileTree) (position : Position) : Bool :=
  position.names.isEmpty || tree.directories.contains position

/-- What a path leads to. -/
inductive Place where
  | directory (position : Position)
  | file (bytes : List UInt8)

/-- What stands at a position; the system reports a name that a directory does not have. -/
def placeAt (tree : FileTree) (position : Position) : Except ContentProblem Place :=
  match tree.file? position with
  | some bytes => .ok (.file bytes)
  | none => if tree.isDirectory position then .ok (.directory position) else .error .missing

/-- The number of bytes that a name in a path may have on Linux. -/
def maxNameSize : Nat := 255

/-- The number of bytes that a path from the top of all directories may have on Linux, without
the zero at its end. -/
def maxPathSize : Nat := 4095

/-- The number of bytes that the way from the top to the root takes up. -/
def rootPathSize : Nat := 16

/-- The number of bytes of a path that is followed from the top, where the way to the root
comes in front of a path that starts there. -/
def wholeSize (path : String) : Nat :=
  if Step.startsAtTop path then path.utf8ByteSize else rootPathSize + path.utf8ByteSize

/-- Follows one step.  The system needs a directory for every step, also for those that stay where
they are, and looks at the size of a name before it looks for the name. -/
def follow (tree : FileTree) (step : String) : Place → Except ContentProblem Place
  | .file _ => .error .notDirectory
  | .directory position =>
    if !Step.isName step then .ok (.directory (position.after step))
    else if maxNameSize < step.utf8ByteSize then .error .nameTooLong
    else tree.placeAt (position.after step)

/-- Follows the steps of a path up to the first one that fails. -/
def followAll (tree : FileTree) (place : Place) : List String → Except ContentProblem Place
  | [] => .ok place
  | step :: later =>
    match tree.follow step place with
    | .ok next => tree.followAll next later
    | .error problem => .error problem

/-- The bytes of the file that a path leads to.  A path with a zero in it never gets to the
system, and one that is too long is refused before it is followed; a directory can be opened, but
not read. -/
def read (tree : FileTree) (path : String) : Except ContentProblem (List UInt8) :=
  if path.toList.contains '\x00' then .error .zeroInName
  else if maxPathSize < wholeSize path then .error .nameTooLong
  else
    match tree.followAll (.directory (.origin path)) (Step.ofPath path) with
    | .ok (.file bytes) => .ok bytes
    | .ok (.directory _) => .error .isDirectory
    | .error problem => .error problem

/-- The program in the file that a path leads to; the file's name, which is the last step of the
path, becomes the name of the program. -/
def get (tree : FileTree) (path : String) : Except Problem Program :=
  match tree.read path with
  | .ok bytes => .ok ⟨(Step.ofPath path).getLastD "", bytes⟩
  | .error problem => .error (.content problem)

end FileTree
end Storage
end ChipEight
