import TapeMachine.Main
import TapeMachine.Proofs.Residue
import TapeMachine.Proofs.Rounds
import TapeMachine.Proofs.Memory
import TapeMachine.Proofs.Block
import TapeMachine.Proofs.Effect
import TapeMachine.Proofs.Evaluation
import TapeMachine.Proofs.Store
import TapeMachine.Proofs.Placement
import TapeMachine.Proofs.Linkage
import TapeMachine.Proofs.Folding
import TapeMachine.Proofs.Collapse
import TapeMachine.Proofs.Idioms
import TapeMachine.Proofs.Condensing
import TapeMachine.Proofs.Execution
import TapeMachine.Proofs.Preservation
import TapeMachine.Proofs.Brackets
import TapeMachine.Proofs.Diagnosis
import TapeMachine.Proofs.Structured
import TapeMachine.Proofs.Writing
import TapeMachine.Proofs.Turns
import TapeMachine.Proofs.Lifecycle
import TapeMachine.Proofs.NormalForm
import TapeMachine.Proofs.Bounds
import TapeMachine.Proofs.Histories
import TapeMachine.Proofs.Origins
import TapeMachine.Proofs.Failures
import TapeMachine.Proofs.Partners
import TapeMachine.Proofs.Rewriting
import TapeMachine.Proofs.Replacement
import TapeMachine.Proofs.Numerals
import TapeMachine.Proofs.CommandLine
import TapeMachine.Proofs.Rejections
import TapeMachine.Proofs.Stops
import TapeMachine.Proofs.DeadEnds
import TapeMachine.Proofs.Positions
import TapeMachine.Proofs.Scans
import TapeMachine.Proofs.Rotation
import TapeMachine.Proofs.Congruence
import TapeMachine.Proofs.Feeds
import TapeMachine.Proofs.Wraparound
import TapeMachine.Proofs.Columns
import TapeMachine.Proofs.Arguments
import TapeMachine.Proofs.Listings
import TapeMachine.Proofs.Excerpts
import TapeMachine.Proofs.Reuse
import TapeMachine.Proofs.Decoding
import TapeMachine.Proofs.LineEnds
import TapeMachine.Proofs.Endings
import TapeMachine.Proofs.Echo
import TapeMachine.Proofs.Drains
import TapeMachine.Proofs.Unrolling
