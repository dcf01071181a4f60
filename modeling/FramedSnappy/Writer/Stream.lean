import FramedSnappy.Writer.Basic

/-! The writer as a plain byte stream, and its operations as data. -/
namespace FramedSnappy

namespace Writer

variable {κ : Type}

/-- All or nothing: a call that succeeds has taken all of the data. -/
def write [Codec κ] (writer : Writer κ) (data : Bytes) : Outcome StreamError Unit × Writer κ :=
  match writer.writeFrames data with
  | (result, writer) => (result.mapError Error.toStreamError, writer)

/-- Writes, and writes all of the data again when the call was interrupted. A codec could interrupt
for ever, so the loop gives up when it has endured `patience` interruptions and meets one more. -/
def writeAll [Codec κ] (patience : Nat) (writer : Writer κ) (data : Bytes) :
    Outcome StreamError Unit × Writer κ :=
  if data.isEmpty then (.done (), writer)
  else match writer.write data with
    | (.failed e, writer) =>
      match patience with
      | 0 => (.failed e, writer)
      | patience + 1 =>
        if e.interrupted then writer.writeAll patience data else (.failed e, writer)
    | ended => ended

def flush (writer : Writer κ) : Except Fault Unit × Writer κ :=
  match writer.sink.flush with
  | (result, sink) => (result, { writer with sink })

end Writer

inductive WriterOperation where
  | write (data : Bytes)
  | writeFrames (data : Bytes)
  | writeAll (data : Bytes) (patience : Nat := 65536)
  | flush
  /-- Adds bytes to the sink past the writer. -/
  | raw (data : Bytes)
  /-- Extends the script of the sink. -/
  | feed (events : List SinkEvent)

inductive WriterReply where
  /-- All of so many bytes were taken. -/
  | accepted (count : Nat)
  | silent
  | failed (error : Error)
  | streamFailed (error : StreamError)
  | overrun
  deriving DecidableEq

namespace Writer

variable {κ : Type}

def perform [Codec κ] (writer : Writer κ) : WriterOperation → WriterReply × Writer κ
  | .write data =>
    match writer.write data with
    | (.done (), writer) => (.accepted data.length, writer)
    | (.failed e, writer) => (.streamFailed e, writer)
    | (.overrun, writer) => (.overrun, writer)
  | .writeFrames data =>
    match writer.writeFrames data with
    | (.done (), writer) => (.accepted data.length, writer)
    | (.failed e, writer) => (.failed e, writer)
    | (.overrun, writer) => (.overrun, writer)
  | .writeAll data patience =>
    match writer.writeAll patience data with
    | (.done (), writer) => (.silent, writer)
    | (.failed e, writer) => (.streamFailed e, writer)
    | (.overrun, writer) => (.overrun, writer)
  | .flush =>
    match writer.flush with
    | (.ok (), writer) => (.silent, writer)
    | (.error fault, writer) => (.streamFailed (.fault fault), writer)
  | .raw data => (.silent, { writer with sink := writer.sink.append data })
  | .feed events => (.silent, { writer with sink := writer.sink.feed events })

/-- The reply to every operation and the writer it leaves. Nothing follows an overrun. -/
def run [Codec κ] (writer : Writer κ) :
    List WriterOperation → List (WriterReply × Writer κ)
  | [] => []
  | operation :: rest =>
    match writer.perform operation with
    | (.overrun, writer) => [(.overrun, writer)]
    | (reply, writer) => (reply, writer) :: writer.run rest

end Writer

end FramedSnappy
