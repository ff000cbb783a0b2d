import StackQueue.CommandLine.Request

/-!
# A directory of files in memory

Files and directories below a working directory, and the resolution of paths in it. A path is
followed step by step: empty steps and `.` stay, `..` goes back, a name goes on to an existing
directory, and only the last step may name a file. A path that leaves the working directory, ends
at a directory or puts anything behind a file names no file.
-/

namespace StackQueue

/-- A place below the working directory: the names on the way to it. -/
abbrev Place := List Octets

/-- The files below a working directory and its other directories. -/
structure WorkingDirectory where
  /-- The files with their contents. -/
  files : List (Place × Octets)
  /-- The directories that are not implied by a file. -/
  directories : List Place

namespace WorkingDirectory

/-- The octet of a slash. -/
def slash : UInt8 := 0x2F

/-- The octet of a full stop. -/
def dot : UInt8 := 0x2E

/-- The longest name that a directory can hold. -/
def nameLimit : Nat := 255

/-- The longest path that can be followed, with its terminator. -/
def pathLimit : Nat := 4096

/-- The place that a plain path names, without looking whether anything is there. -/
def place (path : Octets) : Place :=
  (path.splitOn slash).filter fun name => !name.isEmpty

/-- Whether there is a directory at a place. -/
def isDirectory (here : WorkingDirectory) (place : Place) : Bool :=
  place.isEmpty || here.directories.any (fun directory => place.isPrefixOf directory) ||
    here.files.any fun file => place.isPrefixOf file.1 && place.length < file.1.length

/-- The content of the file at a place. -/
def content? (here : WorkingDirectory) (place : Place) : Option Octets :=
  (here.files.find? fun file => file.1 = place).map Prod.snd

/-- Follow one step that something else follows: it must lead to a directory. -/
def enter (here : WorkingDirectory) (place : Place) (name : Octets) : Option Place :=
  if name.isEmpty || name = [dot] then some place
  else if name = [dot, dot] then if place.isEmpty then none else some place.dropLast
  else if here.isDirectory (place ++ [name]) then some (place ++ [name])
  else none

/-- Follow the steps of a path from a directory and read the file at its end. -/
def follow (here : WorkingDirectory) (place : Place) : List Octets → Option Octets
  | [] => none
  | [name] =>
      if name.length ≤ nameLimit then here.content? (place ++ [name]) else none
  | name :: others => (here.enter place name).bind fun place => here.follow place others

/-- The content of the file that a path names, if it names one. -/
def read (here : WorkingDirectory) (path : Octets) : Option Octets :=
  if path.length < pathLimit && path.head? != some slash then
    here.follow [] (path.splitOn slash)
  else
    none

end WorkingDirectory

end StackQueue
