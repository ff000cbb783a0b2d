import StackQueue.CommandLine.Request
import StackQueue.Run

/-!
# What a command line answers

Help and version go to the output and succeed. A mistaken command line and a file that cannot be
read are failures. A file that can be read is decoded, with replacement characters where it is
not UTF-8, and run.

## Implementation notes

The texts of help and version are not composed here. The parser of the command line, a package of
its own, generates them from the name, the version and the description of the program and from the
description of its argument. They are kept as it generates them.
-/

namespace StackQueue

/-- What a command leaves behind. -/
structure Response where
  /-- The exit status. -/
  status : Nat
  /-- The octets for the output. -/
  output : Octets
  /-- The text for the error stream. -/
  diagnostic : String
  deriving DecidableEq

namespace Response

/-- The help text that the parser of the command line generates. -/
def helpText : String :=
  "Run a Monty bytecode file\n\nUsage: monty <FILE>\n\nArguments:\n" ++
    "  <FILE>  Path to the bytecode file\n\nOptions:\n" ++
    "  -h, --help     Print help\n  -V, --version  Print version\n"

/-- The version text that the parser of the command line generates. -/
def versionText : String :=
  "monty 0.1.0\n"

/-- Show a text and succeed. -/
def ofText (text : String) : Response :=
  ⟨0, Utf8.octets text, ""⟩

/-- Report a failure. -/
def ofFailure (failure : Failure) : Response :=
  ⟨Failure.status, [], failure.diagnostic⟩

/-- The response that is left when the output did not take it: a success becomes a failure of the
output, and a failure stays what it was. -/
def undelivered (response : Response) : Response :=
  if response.status = 0 then ofFailure .output else response

/-- Show what a run leaves behind. -/
def ofRun (run : Run) : Response :=
  ⟨run.status, run.output.toList, run.diagnostic⟩

end Response

namespace Request

/-- Answer a request, given what reading a path yields. Only the path of the program file is
read. -/
def respond (request : Request) (read : Octets → Option Octets) : Response :=
  match request with
  | .help => .ofText Response.helpText
  | .version => .ofText Response.versionText
  | .usage => .ofFailure .usage
  | .run path =>
      match read path with
      | none => .ofFailure (.cannotOpen (Utf8.text path))
      | some content => .ofRun (Run.ofSource (Utf8.text content) .unbounded)

end Request

end StackQueue
