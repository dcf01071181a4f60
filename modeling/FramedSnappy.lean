import FramedSnappy.Bytes.Edit
import FramedSnappy.Codec.Scripted
import FramedSnappy.Codec.Snappy
import FramedSnappy.Proofs.Codec.Scripted
import FramedSnappy.Proofs.RoundTrip
import FramedSnappy.Proofs.Writer.Honesty
import FramedSnappy.Proofs.Reader.Balance
import FramedSnappy.Reader.Operation
import FramedSnappy.Writer.Stream
import FramedSnappy.Proofs.Reader.Failure
import FramedSnappy.Proofs.Reader.Delivery
import FramedSnappy.Proofs.Reader.Sizes
import FramedSnappy.Proofs.Reader.Truncation
import FramedSnappy.Proofs.Sink.Bytewise
import FramedSnappy.Proofs.Writer.Plan
import FramedSnappy.Proofs.Writer.Failure
import FramedSnappy.Proofs.Writer.Storing
import FramedSnappy.Proofs.Writer.Refusal
import FramedSnappy.Proofs.Writer.Wire
import FramedSnappy.Proofs.Writer.Retrial
import FramedSnappy.Proofs.Reader.Policy
import FramedSnappy.Proofs.Reader.Corruption
import FramedSnappy.Proofs.Reader.Transparency
import FramedSnappy.Proofs.Memory
import FramedSnappy.Proofs.Reader.Turns
import FramedSnappy.Proofs.Reader.Strides
import FramedSnappy.Proofs.Reader.Exhaustion
import FramedSnappy.Proofs.Guarded.Access
import FramedSnappy.Proofs.Guarded.Frame
import FramedSnappy.Proofs.Guarded.Reader
import FramedSnappy.Proofs.Guarded.Writer
import FramedSnappy.Proofs.Reader.Safety
import FramedSnappy.Proofs.Safety
import FramedSnappy.Proofs.Snappy.Element
import FramedSnappy.Proofs.Codec.Snappy
import FramedSnappy.Proofs.Reader.Journey
import FramedSnappy.Proofs.Reader.Ending
import FramedSnappy.Proofs.Reader.Awaiting
import FramedSnappy.Proofs.Reader.Growing
import FramedSnappy.Proofs.Reader.Requests
import FramedSnappy.Proofs.Sink.Portions
import FramedSnappy.Proofs.Writer.Acceptance
import FramedSnappy.Proofs.Writer.Window
import FramedSnappy.Proofs.Frame.Rejection
import FramedSnappy.Proofs.Reader.Fetching
import FramedSnappy.Proofs.Reader.Rejection
import FramedSnappy.Proofs.Reader.Serving
import FramedSnappy.Proofs.ByteQueue.Simulation
import FramedSnappy.Proofs.Frame.Exact
import FramedSnappy.Proofs.Logging
import FramedSnappy.Proofs.Reader.Spending
