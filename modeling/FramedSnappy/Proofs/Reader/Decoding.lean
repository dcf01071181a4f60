import FramedSnappy.Proofs.Codec.Packing
import FramedSnappy.Proofs.Scratch
import FramedSnappy.Reader.Basic

/-! What a compressed block decodes to inside a reader: what the codec makes of it in a window of
the length it announces. If the codec keeps its promises, neither the codec's past nor the old
bytes of the window matter. -/
namespace FramedSnappy.Reader

variable {κ : Type}

structure Fit (reader : Reader κ) : Prop where
  body : reader.body.limit = Frame.dataLimit
  decoded : reader.decoded.limit = Frame.blockLimit

theorem fit_of_source (source : Source) (codec : κ) (policy : ChecksumPolicy) :
    (ofSource source codec policy).Fit := ⟨rfl, rfl⟩

variable [Codec κ]

def decode (reader : Reader κ) (block : Bytes) : Outcome Error Bytes :=
  (reader.decompress block).1

/-- Nothing else of a reader has a say in what it decodes. -/
theorem decode_congr {reader other : Reader κ} (codec : reader.codec = other.codec)
    (decoded : reader.decoded = other.decoded) : reader.decode = other.decode := by
  funext block
  unfold decode decompress
  rw [codec, decoded]
  rcases Codec.decodedLength other.codec block with ⟨_ | size, codec⟩
  · rfl
  · dsimp only
    split
    · rfl
    · cases other.decoded.reserve size with
      | error e => rfl
      | ok grown =>
        dsimp only
        cases (Codec.decompress codec block (grown.window size)).count with
        | error e => rfl
        | ok count =>
          dsimp only
          split <;> rfl

theorem decode_refused {reader : Reader κ} {block : Bytes} {e : Error} {codec : κ}
    (h : Codec.decodedLength reader.codec block = (.error e, codec)) :
    reader.decode block = .failed e := by
  simp [decode, decompress, h]

theorem decode_oversized {reader : Reader κ} {block : Bytes} {size : Nat} {codec : κ}
    (h : Codec.decodedLength reader.codec block = (.ok size, codec))
    (large : Frame.blockLimit < size) :
    reader.decode block = .failed (.blockTooLarge size Frame.blockLimit) := by
  simp [decode, decompress, h, large]

theorem decode_announced {reader : Reader κ} (fit : reader.Fit) {block : Bytes} {size : Nat}
    {codec : κ} (h : Codec.decodedLength reader.codec block = (.ok size, codec))
    (small : size ≤ Frame.blockLimit) :
    ∃ window : Bytes, window.length = size ∧
      reader.decode block = (Codec.decompress codec block window).result window := by
  obtain ⟨grown, reserved, -, room⟩ :=
    Scratch.reserve_of_le (fit.decoded ▸ small)
  have length := Scratch.length_window room
  refine ⟨grown.window size, length, ?_⟩
  simp only [decode, decompress, h, if_neg (Nat.not_lt.mpr small), reserved, Codec.Reply.result,
    length]
  cases (Codec.decompress codec block (grown.window size)).count with
  | error e => rfl
  | ok count =>
    dsimp only
    split
    · rfl
    · rename_i inside
      rw [Scratch.store_window _ room (Nat.not_lt.mp inside)]
      rfl

theorem decode_inside {reader : Reader κ} (fit : reader.Fit) (inside : Codec.Inside reader.codec)
    (block : Bytes) : reader.decode block ≠ .overrun := by
  have start : Codec.Later reader.codec reader.codec := .now
  have asked := start.decodedLength block
  rcases now : Codec.decodedLength reader.codec block with ⟨e | size, codec⟩
  · rw [decode_refused now]
    exact nofun
  · by_cases small : size ≤ Frame.blockLimit
    · obtain ⟨window, -, decoded⟩ := decode_announced fit now small
      rw [now] at asked
      rw [decoded]
      exact inside codec asked block window
    · rw [decode_oversized now (Nat.not_le.mp small)]
      exact nofun

theorem decode_input_only {first : κ} (promise : Codec.InputOnly first) {reader : Reader κ}
    (fit : reader.Fit) (later : Codec.Later first reader.codec) (block : Bytes) :
    reader.decode block = Codec.unpack first block := by
  have announced := promise.length reader.codec later block
  rcases now : Codec.decodedLength reader.codec block with ⟨answer, codec⟩
  rcases fresh : Codec.decodedLength first block with ⟨answer', other⟩
  rw [now, fresh] at announced
  obtain rfl : answer = answer' := announced
  cases answer with
  | error e => simp [decode_refused now, Codec.unpack, fresh]
  | ok size =>
    by_cases small : size ≤ Frame.blockLimit
    · obtain ⟨window, length, decoded⟩ := decode_announced fit now small
      have lately : Codec.Later first codec := by simpa [now] using later.decodedLength block
      have start : Codec.Later first first := .now
      have early : Codec.Later first other := by simpa [fresh] using start.decodedLength block
      rw [decoded]
      simp only [Codec.unpack, fresh, if_neg (Nat.not_lt.mpr small)]
      exact promise.bytes codec other lately early block _ _ (by simp [length])
    · have large := Nat.not_le.mp small
      simp [decode_oversized now large, Codec.unpack, fresh, large]

theorem decode_packing {first : κ} {packing : Codec.Packing}
    (restored : Codec.Restored first packing) (piece : Codec.Piece packing.block)
    {reader : Reader κ} (fit : reader.Fit) (later : Codec.Later first reader.codec) :
    reader.decode packing.payload = .done packing.block := by
  obtain ⟨announced, restores⟩ := restored reader.codec later
  rcases now : Codec.decodedLength reader.codec packing.payload with ⟨answer, codec⟩
  rw [now] at announced restores
  obtain rfl : answer = .ok packing.block.length := announced
  have small : packing.block.length ≤ Frame.blockLimit := Nat.le_trans piece.2 (Nat.sub_le _ _)
  obtain ⟨window, length, decoded⟩ := decode_announced fit now small
  rw [decoded]
  exact restores window length

theorem decode_restored {first : κ} {form : Bytes → Bytes} (promise : Codec.Restores first form)
    {reader : Reader κ} (fit : reader.Fit) (later : Codec.Later first reader.codec)
    {block : Bytes} (piece : Codec.Piece block) : reader.decode (form block) = .done block :=
  decode_packing (promise.restored piece) piece fit later

end FramedSnappy.Reader
