import FramedSnappy.Proofs.Codec.Scripted
import FramedSnappy.Proofs.Reader.Settling
import FramedSnappy.Proofs.Writer.Log

/-! The logs of a reader and of a writer account for what they have done. -/
namespace FramedSnappy

open Diagnostic (decodedBytes framedBytes isWrittenFrame total)

namespace Reader

variable {κ : Type} [Codec κ]

end Reader

end FramedSnappy
