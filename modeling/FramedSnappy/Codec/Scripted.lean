import FramedSnappy.Codec.Basic

/-! A codec that misbehaves on request. It stores every byte with some of its bits inverted, reports
lengths that are off by a fixed amount, and fails one chosen call of each kind. -/
namespace FramedSnappy

structure Codec.Scripted where
  boundShift : Int
  compressShift : Int
  lengthShift : Int
  decompressShift : Int
  /-- The number of the call that fails, counted from 1, and its error. -/
  failCompress : Option (Nat × Error)
  failLength : Option (Nat × Error)
  failDecompress : Option (Nat × Error)
  compressCalls : Nat
  lengthCalls : Nat
  decompressCalls : Nat

namespace Codec.Scripted

/-- A length moved by a signed amount, but never below zero. -/
def shifted (length : Nat) (amount : Int) : Nat := (length + amount).toNat

def failure (plan : Option (Nat × Error)) (call : Nat) : Option Error :=
  match plan with
  | some (chosen, error) => if chosen = call then some error else none
  | none => none

def invert (input window : Bytes) : Bytes := (input.take window.length).map (· ^^^ 0x5a)

instance : Codec Codec.Scripted where
  bound codec size := (shifted size codec.boundShift, codec)
  compress codec block window :=
    let call := codec.compressCalls + 1
    let codec := { codec with compressCalls := call }
    match failure codec.failCompress call with
    | some error => ⟨.error error, [], codec⟩
    | none =>
      let written := invert block window
      ⟨.ok (shifted written.length codec.compressShift), written, codec⟩
  decodedLength codec block :=
    let call := codec.lengthCalls + 1
    let codec := { codec with lengthCalls := call }
    match failure codec.failLength call with
    | some error => (.error error, codec)
    | none => (.ok (shifted block.length codec.lengthShift), codec)
  decompress codec block window :=
    let call := codec.decompressCalls + 1
    let codec := { codec with decompressCalls := call }
    match failure codec.failDecompress call with
    | some error => ⟨.error error, [], codec⟩
    | none =>
      let written := invert block window
      ⟨.ok (shifted written.length codec.decompressShift), written, codec⟩

end Codec.Scripted

end FramedSnappy
