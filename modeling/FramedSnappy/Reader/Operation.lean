import FramedSnappy.Reader.Client

/-! The operations of a reader as data, so that a whole run of them is a list. Besides what a client
may ask of the reader itself, two operations go past it to its source. -/
namespace FramedSnappy

inductive ReaderOperation where
  | read (size : Nat)
  | readExact (count : Nat)
  | readAll (size : Nat)
  | peek
  | consume (count : Nat)
  | readUntil (delimiter : UInt8)
  | visitBlocks (visitor : Reader.Visitor)
  /-- Extends the script of the source. -/
  | feed (events : List SourceEvent)
  /-- Takes bytes from the source, which leaves the reader out of step with its frames. -/
  | rawRead (size : Nat)

inductive ReaderReply where
  | bytes (data : Bytes)
  | collected (data : Bytes) (calls : Nat) (failure : Option StreamError)
  | line (data : Bytes) (failure : Option StreamError)
  | visited (blocks : Array Bytes) (failure : Option VisitError)
  | silent
  | failed (error : StreamError)
  | overrun
  deriving DecidableEq

namespace Reader

variable {κ : Type}

def replyBytes : Outcome StreamError Bytes → ReaderReply
  | .done data => .bytes data
  | .failed e => .failed e
  | .overrun => .overrun

def replyCollected (bytes : Array UInt8) (calls : Nat) : Outcome StreamError Unit → ReaderReply
  | .done () => .collected bytes.toList calls none
  | .failed e => .collected bytes.toList calls (some e)
  | .overrun => .overrun

def replyLine (bytes : Array UInt8) : Outcome StreamError Unit → ReaderReply
  | .done () => .line bytes.toList none
  | .failed e => .line bytes.toList (some e)
  | .overrun => .overrun

def replyVisited (blocks : Array Bytes) : Outcome VisitError Unit → ReaderReply
  | .done () => .visited blocks none
  | .failed e => .visited blocks (some e)
  | .overrun => .overrun

def rawRead (reader : Reader κ) (size : Nat) : Except Fault Bytes × Reader κ :=
  match reader.source.read size with
  | (result, source) => (result, { reader with source })

def feed (reader : Reader κ) (events : List SourceEvent) : Reader κ :=
  { reader with source := reader.source.feed events }

def perform [Codec κ] (reader : Reader κ) : ReaderOperation → ReaderReply × Reader κ
  | .read size =>
    match reader.read size with
    | (result, reader) => (replyBytes result, reader)
  | .readExact count =>
    match reader.readExact count with
    | (result, reader) => (replyBytes result, reader)
  | .readAll size =>
    let all := reader.readAll size
    (replyCollected all.bytes all.calls all.ending, all.reader)
  | .peek =>
    match reader.peek with
    | (result, reader) => (replyBytes result, reader)
  | .consume count => (.silent, reader.consume count)
  | .readUntil delimiter =>
    match reader.readUntil delimiter with
    | (result, bytes, reader) => (replyLine bytes result, reader)
  | .visitBlocks visitor =>
    match reader.visitBlocks visitor with
    | (result, blocks, reader) => (replyVisited blocks result, reader)
  | .feed events => (.silent, reader.feed events)
  | .rawRead size =>
    match reader.rawRead size with
    | (.ok data, reader) => (.bytes data, reader)
    | (.error fault, reader) => (.failed (.fault fault), reader)

/-- The reply to every operation and the reader it leaves. Nothing follows an overrun. -/
def run [Codec κ] (reader : Reader κ) :
    List ReaderOperation → List (ReaderReply × Reader κ)
  | [] => []
  | operation :: rest =>
    match reader.perform operation with
    | (.overrun, reader) => [(.overrun, reader)]
    | (reply, reader) => (reply, reader) :: reader.run rest

end Reader

end FramedSnappy
