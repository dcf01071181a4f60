import FramedSnappy.Reader.Basic

/-! How one frame moves the reader: the source never grows, it shrinks with every frame that was
there, and only a data frame touches the bytes that wait. -/
namespace FramedSnappy.Reader

variable {κ : Type}

@[simp] theorem source_report (reader : Reader κ) (diagnostic : Diagnostic) :
    (reader.report diagnostic).source = reader.source := rfl

@[simp] theorem pending_report (reader : Reader κ) (diagnostic : Diagnostic) :
    (reader.report diagnostic).pending = reader.pending := rfl

theorem skip_body_weight (reader : Reader κ) (length : Nat) :
    (reader.skipBody length).2.source.weight ≤ reader.source.weight :=
  Source.skip_body_by_weight reader.source 8192 length

theorem pending_skip_body (reader : Reader κ) (length : Nat) :
    (reader.skipBody length).2.pending = reader.pending := rfl

theorem take_identifier_weight (reader : Reader κ) (length : Nat) :
    (reader.takeIdentifier length).2.source.weight ≤ reader.source.weight := by
  have := Source.read_body_weight reader.source Frame.identifierBody.length
  unfold takeIdentifier
  split
  · exact Nat.le_refl _
  · split
    · rename_i h
      simpa [h] using this
    · rename_i h
      rw [h] at this
      dsimp only
      split
      · exact this
      · split
        · exact this
        · exact this

theorem pending_take_identifier (reader : Reader κ) (length : Nat) :
    (reader.takeIdentifier length).2.pending = reader.pending := by
  unfold takeIdentifier
  split
  · rfl
  · split
    · rfl
    · dsimp only
      split
      · rfl
      · split <;> rfl

theorem skip_frame_weight (reader : Reader κ) (header : Frame.Header) :
    (reader.skipFrame header).2.source.weight ≤ reader.source.weight := by
  have := skip_body_weight reader header.length
  unfold skipFrame
  split <;> (rename_i h; simpa [h] using this)

theorem pending_skip_frame (reader : Reader κ) (header : Frame.Header) :
    (reader.skipFrame header).2.pending = reader.pending := by
  have := pending_skip_body reader header.length
  unfold skipFrame
  split <;> (rename_i h; simpa [h] using this)

theorem refuse_frame_weight (reader : Reader κ) (tag : UInt8) (length : Nat) :
    (reader.refuseFrame tag length).2.source.weight ≤ reader.source.weight := by
  have := skip_body_weight reader length
  unfold refuseFrame
  split <;> (rename_i h; simpa [h] using this)

theorem refuse_frame_fails (reader : Reader κ) (tag : UInt8) (length : Nat) :
    ∃ e, (reader.refuseFrame tag length).1 = .failed e := by
  unfold refuseFrame
  split
  · exact ⟨_, rfl⟩
  · exact ⟨_, rfl⟩

theorem take_body_weight (reader : Reader κ) (length : Nat) :
    (reader.takeBody length).2.source.weight ≤ reader.source.weight := by
  have := Source.read_body_weight reader.source length
  unfold takeBody
  split
  · exact Nat.le_refl _
  · split <;> (rename_i h; simpa [h] using this)

theorem source_accept (reader : Reader κ) (header : Frame.Header) (masked : UInt32)
    (decoded : Bytes) : (reader.accept header masked decoded).2.source = reader.source := by
  unfold accept
  split <;> rfl

/-- A data frame is never taken for one without data. -/
theorem accept_progress {reader : Reader κ} {header : Frame.Header} {masked : UInt32}
    {decoded : Bytes} {progress : Progress}
    (h : (reader.accept header masked decoded).1 = .done progress) : progress = .block := by
  unfold accept at h
  split at h <;> cases h
  rfl

variable [Codec κ]

theorem source_decompress (reader : Reader κ) (block : Bytes) :
    (reader.decompress block).2.source = reader.source := by
  unfold decompress
  split
  · rfl
  · dsimp only
    split
    · rfl
    · split
      · rfl
      · split
        · rfl
        · split <;> rfl

theorem source_decode_block (reader : Reader κ) (chunkType : ChunkType) (block : Bytes) :
    (reader.decodeBlock chunkType block).2.source = reader.source := by
  unfold decodeBlock
  split
  · exact source_decompress reader block
  · rfl

theorem take_block_weight (reader : Reader κ) (header : Frame.Header) :
    (reader.takeBlock header).2.source.weight ≤ reader.source.weight := by
  have body := take_body_weight reader header.length
  unfold takeBlock
  dsimp only
  split
  · exact Nat.le_refl _
  · split
    · exact Nat.le_refl _
    · split
      · rename_i hb
        simpa [hb] using body
      · rename_i data taken hb
        rw [hb] at body
        have decoded :=
          source_decode_block taken header.chunkType (data.drop Frame.checksumSize)
        split
        · rename_i hd
          rw [hd] at decoded
          simpa [← decoded] using body
        · rename_i hd
          rw [hd] at decoded
          simpa [← decoded] using body
        · rename_i hd
          rw [hd] at decoded
          rw [source_accept]
          simpa [← decoded] using body

theorem take_block_progress {reader : Reader κ} {header : Frame.Header} {progress : Progress}
    (h : (reader.takeBlock header).1 = .done progress) : progress = .block := by
  unfold takeBlock at h
  dsimp only at h
  split at h
  · cases h
  · split at h
    · cases h
    · split at h
      · cases h
      · split at h
        · cases h
        · cases h
        · exact accept_progress h

theorem take_frame_weight (reader : Reader κ) (header : Frame.Header) :
    (reader.takeFrame header).2.source.weight ≤ reader.source.weight := by
  unfold takeFrame
  split
  · exact Nat.le_refl _
  · split
    · exact take_identifier_weight reader header.length
    · exact take_block_weight reader header
    · exact take_block_weight reader header
    · exact skip_frame_weight reader header
    · exact skip_frame_weight reader header
    · exact refuse_frame_weight reader _ header.length

theorem pending_take_frame {reader : Reader κ} {header : Frame.Header} {progress : Progress}
    (h : (reader.takeFrame header).1 = .done progress) (other : progress ≠ .block) :
    (reader.takeFrame header).2.pending = reader.pending := by
  unfold takeFrame at h ⊢
  split
  · rfl
  · rename_i opened
    rw [if_neg opened] at h
    split
    · exact pending_take_identifier reader header.length
    · rename_i ht
      rw [ht] at h
      exact absurd (take_block_progress h) other
    · rename_i ht
      rw [ht] at h
      exact absurd (take_block_progress h) other
    · exact pending_skip_frame reader header
    · exact pending_skip_frame reader header
    · rename_i tag ht
      rw [ht] at h
      obtain ⟨e, he⟩ := refuse_frame_fails reader tag header.length
      rw [he] at h
      cases h

theorem advance_weight (reader : Reader κ) :
    reader.advance.2.source.weight ≤ reader.source.weight := by
  have header := Source.read_header_weight reader.source
  unfold advance
  split
  · rename_i h
    simpa [h] using header
  · rename_i h
    simpa [h] using header
  · rename_i h
    rw [h] at header
    exact Nat.le_trans (take_frame_weight _ _) header

/-- A frame takes at least its header from the source. -/
theorem advance_shrinks {reader after : Reader κ} {progress : Progress}
    (h : reader.advance = (.done progress, after)) (there : progress ≠ .ended) :
    after.source.weight < reader.source.weight := by
  unfold advance at h
  split at h
  · cases h
  · cases h
    exact absurd rfl there
  · rename_i header source hs
    have smaller := Source.read_header_some_weight hs
    have frame := take_frame_weight { reader with source } header
    rw [h] at frame
    exact Nat.lt_of_le_of_lt frame smaller

theorem pending_advance {reader after : Reader κ} {progress : Progress}
    (h : reader.advance = (.done progress, after)) (other : progress ≠ .block) :
    after.pending = reader.pending := by
  unfold advance at h
  split at h
  · cases h
  · cases h
    rfl
  · rename_i header source _
    have result : ({ reader with source }.takeFrame header).1 = .done progress := by rw [h]
    have kept := pending_take_frame result other
    rw [h] at kept
    exact kept

end FramedSnappy.Reader
