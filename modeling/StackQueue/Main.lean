import StackQueue.CommandLine.Response

/-!
# The command line program

Reads the arguments and the program file, and shows the response. All decisions are made by
`Request.ofArguments`, `Request.respond` and `Response.undelivered`.
-/

namespace StackQueue

/-- The content of the file that a request needs, if it needs one and it can be read. -/
def Request.fetch : Request → IO (Option Octets)
  | .run path =>
      try
        let content ← IO.FS.readBinFile (Utf8.text path)
        pure (some content.toList)
      catch _ => pure none
  | _ => pure none

/-- Show the output of a response, and answer whether the output took it. -/
def Response.deliver (response : Response) : IO Bool :=
  try
    let output ← IO.getStdout
    output.write (ByteArray.mk response.output.toArray)
    output.flush
    pure true
  catch _ => pure false

end StackQueue

open StackQueue in
/-- Answer the command line. -/
def main (arguments : List String) : IO UInt32 := do
  let request := Request.ofArguments (arguments.map Utf8.octets)
  let content? ← request.fetch
  let response := request.respond fun _ => content?
  let delivered ← response.deliver
  let response := if delivered then response else response.undelivered
  (← IO.getStderr).putStr response.diagnostic
  pure (UInt32.ofNat response.status)
