import FramedSnappy.Codec.Basic
import FramedSnappy.Snappy.Encoding

/-! Raw Snappy blocks, the codec the format is defined for. It remembers nothing from one call to
the next. -/
namespace FramedSnappy

structure Snappy where

namespace Snappy

instance : ToString Snappy := ⟨fun _ => "Snappy"⟩

instance : Inhabited Snappy := ⟨⟨⟩⟩

def reply (codec : Snappy) (result : Except BlockError Bytes) : Codec.Reply Snappy :=
  match result with
  | .error e => ⟨.error (.compression e), [], codec⟩
  | .ok bytes => ⟨.ok bytes.length, bytes, codec⟩

instance : Codec Snappy where
  bound codec size := (maxEncodedLength size, codec)
  compress codec block window := codec.reply (encode window.length block)
  decodedLength codec block :=
    match decodedLength block with
    | .error e => (.error (.compression e), codec)
    | .ok size => (.ok size, codec)
  decompress codec block window := codec.reply (decode window.length block)

end Snappy

end FramedSnappy
