import StackQueue.CommandLine.WorkingDirectory
import StackQueue.Machine.Session
import StackQueue.Main
import StackQueue.Sequence.Links
import StackQueue.Sequence.Operation
import StackQueue.Proofs.Sequence.Consistency
import StackQueue.Proofs.Machine.Atomicity
import StackQueue.Proofs.Reference.Simulation
import StackQueue.Proofs.Machine.Narrowing
import StackQueue.Proofs.Run.Ending
import StackQueue.Proofs.Run.BoundedOutput
import StackQueue.Proofs.Run.FirstFailure
import StackQueue.Proofs.Instruction.Labels
import StackQueue.Proofs.Run.Replay
import StackQueue.Proofs.Run.Unobserved
import StackQueue.Proofs.Run.Chronicle
import StackQueue.Proofs.Machine.Renumbering
import StackQueue.Proofs.Machine.Listing
import StackQueue.Proofs.Run.Normalisation
import StackQueue.Proofs.Run.Resemblance
import StackQueue.Proofs.Machine.Persistence
import StackQueue.Proofs.Run.Blame
import StackQueue.Proofs.Run.Folding
import StackQueue.Proofs.Instruction.Operands
import StackQueue.Proofs.Text.Numbering
import StackQueue.Proofs.Instruction.Resolution
import StackQueue.Proofs.Sequence.Relinking
import StackQueue.Proofs.Run.Insertions
import StackQueue.Proofs.Sequence.Storage
import StackQueue.Proofs.Run.Dump
import StackQueue.Proofs.Sequence.ExactSize
import StackQueue.Proofs.Run.Streams
import StackQueue.Proofs.CommandLine.Arguments
import StackQueue.Proofs.CommandLine.FileContent
import StackQueue.Proofs.CommandLine.Directory
import StackQueue.Proofs.Run.Capacity
