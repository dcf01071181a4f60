import FramedSnappy.Codec.Scripted
import FramedSnappy.Proofs.Codec.Packing
import FramedSnappy.Proofs.Scratch

/-! With an empty script the scripted codec keeps every promise: it inverts some bits of each byte,
and inverting them again restores the byte. -/
namespace FramedSnappy.Codec.Scripted

def honest : Codec.Scripted := ⟨0, 0, 0, 0, none, none, none, 0, 0, 0⟩

def inverted (block : Bytes) : Bytes := block.map (· ^^^ 0x5a)

theorem inverted_inverted (block : Bytes) : inverted (inverted block) = block := by
  unfold inverted
  rw [List.map_map]
  refine (List.map_congr_left fun byte _ => ?_).trans (List.map_id _)
  simp only [Function.comp_apply, UInt8.xor_assoc, UInt8.xor_self, UInt8.xor_zero, id]

/-- Only the counters of calls have changed. -/
structure Honest (codec : Codec.Scripted) : Prop where
  bound : codec.boundShift = 0
  compress : codec.compressShift = 0
  length : codec.lengthShift = 0
  decompress : codec.decompressShift = 0
  packs : codec.failCompress = none
  announces : codec.failLength = none
  unpacks : codec.failDecompress = none

/-- Calls move nothing but the counters. -/
theorem later_counts {first codec : Codec.Scripted} (later : Later first codec) :
    ∃ compressCalls lengthCalls decompressCalls,
      codec = { first with compressCalls, lengthCalls, decompressCalls } := by
  induction later with
  | now => exact ⟨_, _, _, rfl⟩
  | bound size _ ih => exact ih
  | @compress codec block window _ ih =>
    obtain ⟨compressed, announced, unpacked, rfl⟩ := ih
    refine ⟨compressed + 1, announced, unpacked, ?_⟩
    simp only [Codec.compress]
    split <;> rfl
  | @decodedLength codec block _ ih =>
    obtain ⟨compressed, announced, unpacked, rfl⟩ := ih
    refine ⟨compressed, announced + 1, unpacked, ?_⟩
    simp only [Codec.decodedLength]
    split <;> rfl
  | @decompress codec block window _ ih =>
    obtain ⟨compressed, announced, unpacked, rfl⟩ := ih
    refine ⟨compressed, announced, unpacked + 1, ?_⟩
    simp only [Codec.decompress]
    split <;> rfl

theorem honest_later {codec : Codec.Scripted} (later : Later honest codec) : Honest codec := by
  obtain ⟨compressed, announced, unpacked, rfl⟩ := later_counts later
  exact ⟨rfl, rfl, rfl, rfl, rfl, rfl, rfl⟩

theorem shifted_zero (length : Nat) : shifted length 0 = length := by
  simp [shifted]

theorem result_invert {codec : Codec.Scripted} (block window : Bytes) :
    Reply.result ⟨.ok (invert block window).length, invert block window, codec⟩ window =
      .done (invert block window) := by
  have inside : (invert block window).length ≤ window.length := by
    simp only [invert, List.length_map]
    exact List.length_take_le _ _
  exact Reply.result_written inside codec

theorem compress_honest {codec : Codec.Scripted} (honest : Honest codec) (block window : Bytes) :
    (Codec.compress codec block window).result window = .done (invert block window) := by
  simp only [Codec.compress, failure, honest.packs, honest.compress, shifted_zero]
  exact result_invert block window

theorem decoded_length_honest {codec : Codec.Scripted} (honest : Honest codec) (block : Bytes) :
    (Codec.decodedLength codec block).1 = .ok block.length := by
  simp only [Codec.decodedLength, failure, honest.announces, honest.length, shifted_zero]

theorem decompress_honest {codec : Codec.Scripted} (honest : Honest codec) (block window : Bytes) :
    (Codec.decompress codec block window).result window = .done (invert block window) := by
  simp only [Codec.decompress, failure, honest.unpacks, honest.decompress, shifted_zero]
  exact result_invert block window

theorem honest_input_only : InputOnly honest where
  length now later block := by
    rw [decoded_length_honest (honest_later later), decoded_length_honest (honest_later .now)]
  bytes now other later lately block window clean same := by
    rw [decompress_honest (honest_later later), decompress_honest (honest_later lately), invert,
      invert, same]
  inside now later block window := by
    rw [decompress_honest (honest_later later)]
    exact nofun

theorem invert_of_length {block window : Bytes} (h : window.length = block.length) :
    invert block window = inverted block := by
  rw [invert, h, List.take_length, inverted]

theorem bound_honest {codec : Codec.Scripted} (honest : Honest codec) (size : Nat) :
    Codec.bound codec size = (size, codec) := by
  simp only [Codec.bound, honest.bound, shifted_zero]

theorem honest_packs : Packs honest inverted where
  bound now later block piece := by
    rw [bound_honest (honest_later later), inverted, List.length_map]
    refine ⟨Nat.le_refl _, Nat.le_trans piece.2 ?_⟩
    decide
  compress now later block piece window same := by
    rw [bound_honest (honest_later later)] at same ⊢
    rw [compress_honest (honest_later later), invert_of_length same]

theorem honest_restores : Restores honest inverted where
  announce now later block _ := by
    rw [decoded_length_honest (honest_later later), inverted, List.length_map]
  restore now later block _ window same := by
    have next := honest_later (later.decodedLength (inverted block))
    have packed : window.length = (inverted block).length := by
      rw [same, inverted, List.length_map]
    rw [decompress_honest next, invert_of_length packed, inverted_inverted]

/-- Refuses one block, when it is shown its `call`-th one, and is honest otherwise. -/
def faltering (call : Nat) (error : Error) : Codec.Scripted :=
  { honest with failCompress := some (call, error) }

theorem compress_faltering {call : Nat} {error : Error} {codec : Codec.Scripted}
    (later : Later (faltering call error) codec) (block window : Bytes) :
    (Codec.compress codec block window).result window =
      if call = codec.compressCalls + 1 then .failed error else .done (invert block window) := by
  obtain ⟨compressed, announced, unpacked, rfl⟩ := later_counts later
  by_cases now : call = compressed + 1
  · simp only [Codec.compress, failure, faltering, if_pos now]
    rfl
  · simp only [Codec.compress, failure, faltering, if_neg now, honest, shifted_zero]
    exact result_invert block window

theorem bound_faltering {call : Nat} {error : Error} {codec : Codec.Scripted}
    (later : Later (faltering call error) codec) (size : Nat) :
    Codec.bound codec size = (size, codec) := by
  obtain ⟨compressed, announced, unpacked, rfl⟩ := later_counts later
  simp only [Codec.bound, faltering, honest, shifted_zero]

theorem bounded_faltering (call : Nat) (error : Error) : Bounded (faltering call error) := by
  intro now later block piece window length
  rw [bound_faltering later, compress_faltering later]
  split <;> exact nofun

/-- The number of blocks it has been shown decides. -/
theorem answers_faltering {call : Nat} {error : Error} {codec after : Codec.Scripted}
    (later : Later (faltering call error) codec) {block : Bytes} (piece : Piece block)
    {answer : Except Error Bytes} (h : Answers codec block answer after) :
    answer = (if call = codec.compressCalls + 1 then .error error else .ok (inverted block)) ∧
      after.compressCalls = codec.compressCalls + 1 := by
  have counts (window : Bytes) :
      (Codec.compress codec block window).codec.compressCalls = codec.compressCalls + 1 := by
    simp only [Codec.compress]
    split <;> rfl
  cases h with
  | unreserved large =>
    rw [bound_faltering later] at large
    have small : block.length ≤ Frame.compressedLimit := Nat.le_trans piece.2 (by decide)
    omega
  | failed length _ failed =>
    rw [bound_faltering later] at failed ⊢
    rw [compress_faltering later] at failed
    constructor
    · split at failed
      · rename_i now
        cases failed
        rw [if_pos now]
      · cases failed
    · exact counts _
  | packed length _ done =>
    rw [bound_faltering later] at length done ⊢
    rw [compress_faltering later] at done
    constructor
    · split at done
      · cases done
      · rename_i other
        cases done
        rw [if_neg other, invert_of_length length]
    · exact counts _

/-- The blocks before that call are packed. -/
theorem runs_faltering {call : Nat} {error : Error} {codec after : Codec.Scripted}
    (later : Later (faltering call error) codec) {attempt : Attempt}
    (runs : attempt.Runs codec after) {front rest : List Bytes} {block : Bytes}
    (split : attempt.blocks = front ++ block :: rest)
    (pieces : ∀ block ∈ attempt.blocks, Piece block)
    (due : call = codec.compressCalls + front.length + 1) :
    attempt.packings = front.map (pack inverted) ∧ attempt.refusal = some error ∧
      after.compressCalls = call := by
  induction runs generalizing front with
  | ended codec => exact absurd split.symm (List.append_ne_nil_of_right_ne_nil _ nofun)
  | @refused first behind e codec after answers =>
    obtain ⟨answer, counted⟩ := answers_faltering later (pieces first List.mem_cons_self) answers
    cases front with
    | nil =>
      have now : call = codec.compressCalls + 1 := due
      rw [if_pos now] at answer
      cases answer
      exact ⟨rfl, rfl, counted.trans now.symm⟩
    | cons early more =>
      rw [if_neg (by simp only [List.length_cons] at due; omega)] at answer
      cases answer
  | @packed first payload behind packings refusal codec middle after answers runs ih =>
    obtain ⟨answer, counted⟩ := answers_faltering later (pieces first List.mem_cons_self) answers
    cases front with
    | nil =>
      have now : call = codec.compressCalls + 1 := due
      rw [if_pos now] at answer
      cases answer
    | cons early more =>
      simp only [List.length_cons] at due
      rw [if_neg (by omega)] at answer
      cases answer
      obtain ⟨rfl, others⟩ := List.cons.inj split
      obtain ⟨packed, refused, last⟩ := ih (later.trans answers.later) others
        (fun other mem => pieces other (List.mem_cons_of_mem _ mem)) (by omega)
      exact ⟨congrArg (pack inverted first :: ·) packed, refused, last⟩

theorem compress_calls_later {first codec : Codec.Scripted} (later : Later first codec) :
    first.compressCalls ≤ codec.compressCalls := by
  induction later with
  | now => exact Nat.le_refl _
  | bound size _ ih => exact ih
  | @compress codec block window _ ih =>
    apply Nat.le_trans (Nat.le_succ_of_le ih)
    simp only [Codec.compress]
    split <;> exact Nat.le_refl _
  | @decodedLength codec block _ ih =>
    apply Nat.le_trans ih
    simp only [Codec.decodedLength]
    split <;> exact Nat.le_refl _
  | @decompress codec block window _ ih =>
    apply Nat.le_trans ih
    simp only [Codec.decompress]
    split <;> exact Nat.le_refl _

/-- Once past that call it packs everything. -/
theorem faltering_packs {call : Nat} {error : Error} {codec : Codec.Scripted}
    (later : Later (faltering call error) codec) (past : call ≤ codec.compressCalls) :
    Packs codec inverted where
  bound now further block piece := by
    rw [bound_faltering (later.trans further), inverted, List.length_map]
    refine ⟨Nat.le_refl _, Nat.le_trans piece.2 ?_⟩
    decide
  compress now further block piece window same := by
    rw [bound_faltering (later.trans further)] at same ⊢
    have counted := compress_calls_later further
    rw [compress_faltering (later.trans further), if_neg (by omega), invert_of_length same]

theorem faltering_lossless (call : Nat) (error : Error) :
    Lossless (faltering call error) honest := by
  constructor
  · exact bounded_faltering call error
  · intro now later packing after piece answers
    obtain ⟨block, payload⟩ := packing
    have answer := (answers_faltering later piece answers).1
    split at answer
    · cases answer
    · obtain rfl : payload = inverted block := Except.ok.inj answer
      exact honest_restores.restored piece

/-- An identifier and the frame in which an honest codec packs two bytes. -/
def sample : Bytes :=
  Frame.streamIdentifier ++ [0x00, 6, 0, 0, 0x1c, 0xb0, 0xf0, 0xf4, 0x3b, 0x38]

end FramedSnappy.Codec.Scripted
