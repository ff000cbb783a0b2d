import StackQueue.Text.Utf8

/-!
# What a command line asks for

Arguments are read from left to right. The program takes one path and the flags for help and for
the version; a flag answers as soon as it is met, and the first mistake is final. The argument
`--` ends the flags, once; behind it every argument is a path. A lone `-` is a path everywhere.

## Implementation notes

Arguments are octets, because a path need not be text.
-/

namespace StackQueue

/-- The octets of an argument, a path or a file. -/
abbrev Octets := List UInt8

/-- What a command line asks for. -/
inductive Request where
  /-- Show the help text. -/
  | help
  /-- Show the version. -/
  | version
  /-- Explain the usage, since the command line is mistaken. -/
  | usage
  /-- Run the program in the file with the given path. -/
  | run (path : Octets)
  deriving DecidableEq

namespace Request

/-- The octet of a hyphen. -/
def hyphen : UInt8 := 0x2D

/-- What a single argument is while flags are still recognised. -/
inductive Argument where
  /-- The end of the flags. -/
  | endOfFlags
  /-- A path. -/
  | path (path : Octets)
  /-- A flag that answers at once, or a mistaken one. -/
  | flag (request : Request)
  deriving DecidableEq

/-- The request of a single letter. -/
def ofLetter (letter : UInt8) : Request :=
  if letter = 0x68 then .help
  else if letter = 0x56 then .version
  else .usage

/-- The request of a word behind two hyphens. -/
def ofWord (word : Octets) : Request :=
  if word = Utf8.octets "help" then .help
  else if word = Utf8.octets "version" then .version
  else .usage

/-- Classify an argument. Of a cluster of letters the first decides, since it either answers or is
a mistake. -/
def classify : Octets → Argument
  | first :: second :: others =>
      if first = hyphen then
        if second = hyphen then
          if others.isEmpty then .endOfFlags else .flag (ofWord others)
        else .flag (ofLetter second)
      else .path (first :: second :: others)
  | argument => .path argument

/-- Take a path, which must be the only one and not empty. An empty path is a mistake before
anything behind it is looked at. -/
def takePath (path? : Option Octets) (path : Octets) : Except Request Octets :=
  match path? with
  | some _ => .error .usage
  | none => if path.isEmpty then .error .usage else .ok path

/-- Read paths only. -/
def ofPaths (path? : Option Octets) : List Octets → Request
  | [] =>
      match path? with
      | some path => .run path
      | none => .usage
  | argument :: arguments =>
      match takePath path? argument with
      | .error request => request
      | .ok path => ofPaths (some path) arguments

/-- Read flags and paths. -/
def ofArgumentsFrom (path? : Option Octets) : List Octets → Request
  | [] => ofPaths path? []
  | argument :: arguments =>
      match classify argument with
      | .endOfFlags => ofPaths path? arguments
      | .flag request => request
      | .path path =>
          match takePath path? path with
          | .error request => request
          | .ok path => ofArgumentsFrom (some path) arguments

/-- What a command line with the given arguments asks for. -/
def ofArguments (arguments : List Octets) : Request :=
  ofArgumentsFrom none arguments

end Request

end StackQueue
