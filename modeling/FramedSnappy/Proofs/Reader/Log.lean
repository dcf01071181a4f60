import FramedSnappy.Proofs.Diagnostic
import FramedSnappy.Proofs.Reader.Rejection

/-! What one frame adds to the log of a reader: one event if the frame is accepted, but none for an
identifier that only repeats another one; a warning if the reader itself refuses the frame; and
nothing if the source or the codec does. -/
namespace FramedSnappy

/-- The errors for which there is a warning. -/
def Error.Judged : Error → Prop
  | missingStreamIdentifier _ => True
  | unskippableChunk _ => True
  | checksumMismatch _ _ => True
  | _ => False

theorem Fault.inside_frame_not_judged (fault : Fault) : ¬ fault.insideFrame.Judged := by
  unfold insideFrame
  split <;> exact id

theorem ChecksumPolicy.check_judged {policy : ChecksumPolicy} {masked : UInt32} {content : Bytes}
    {e : Error} (h : policy.check masked content = .error e) : e.Judged := by
  cases policy with
  | skip => cases h
  | verify =>
    simp only [check] at h
    split at h <;> cases h
    trivial

namespace Source

variable {source after : Source} {length : Nat} {e : Error}

theorem read_header_not_judged (h : source.readHeader = (.error e, after)) : ¬ e.Judged := by
  unfold readHeader at h
  split at h
  · cases h
    exact id
  · cases h
  · split at h <;> cases h
    exact id

theorem read_header_some {header : Frame.Header}
    (h : source.readHeader = (.ok (some header), after)) :
    ∃ tag low middle high body, source.front = tag :: low :: middle :: high :: body ∧
      header = .parse tag [low, middle, high] ∧ after.front = body := by
  match front : source.front with
  | tag :: low :: middle :: high :: body =>
    obtain ⟨rest, read, said, -⟩ := read_header_full front
    obtain ⟨told, rfl⟩ := Prod.mk.inj (h.symm.trans read)
    refine ⟨tag, low, middle, high, body, rfl, ?_, front_of_signals said⟩
    exact Option.some.inj (Except.ok.inj told)
  | [] =>
    obtain ⟨rest, read, -⟩ := read_header_none front
    rw [read] at h
    split at h <;> cases h
  | [_] | [_, _] | [_, _, _] =>
    have begun : source.front ≠ [] := by simp [front]
    have short : source.front.length < Frame.headerSize := by simp [front, Frame.headerSize]
    obtain ⟨rest, read, -⟩ := read_header_cut begun short
    rw [read] at h
    cases h

theorem read_body_not_judged (h : source.readBody length = (.error e, after)) : ¬ e.Judged := by
  unfold readBody at h
  split at h <;> cases h
  exact Fault.inside_frame_not_judged _

theorem skip_body_not_judged (h : source.skipBody length = (.error e, after)) : ¬ e.Judged := by
  unfold skipBody skipBodyBy at h
  split at h
  · cases h
    exact Fault.inside_frame_not_judged _
  · split at h <;> cases h
    exact id

end Source

namespace Frame

open Diagnostic (decodedBytes total)

/-- What a reader has to say of a frame that it accepts. -/
def Parsed.diagnostics (identified : Bool) (parsed : Parsed) : List Diagnostic :=
  match parsed.content with
  | some content =>
    [.decodedFrame parsed.frame.tag parsed.frame.body.length content.length]
  | none =>
    if parsed.frame.tag ≠ 0xff then [.skippedFrame parsed.frame.tag parsed.frame.body.length]
    else if identified then [] else [.acceptedStreamIdentifier]

def diagnostics (identified : Bool) : List Parsed → List Diagnostic
  | [] => []
  | parsed :: rest => parsed.diagnostics identified ++ diagnostics true rest

theorem diagnostics_append (identified : Bool) (frames more : List Parsed) :
    diagnostics identified (frames ++ more) =
      diagnostics identified frames ++ diagnostics (identified || ! frames.isEmpty) more := by
  induction frames generalizing identified with
  | nil => simp [diagnostics]
  | cons parsed rest ih =>
    rw [List.cons_append, diagnostics, ih, diagnostics, List.append_assoc]
    simp

theorem Parsed.diagnostics_quiet (identified : Bool) (parsed : Parsed) :
    ∀ event ∈ parsed.diagnostics identified, event.level ≠ .warn := by
  obtain ⟨frame, _ | content⟩ := parsed
  · simp only [diagnostics]
    split
    · simp [Diagnostic.level]
    · split <;> simp [Diagnostic.level]
  · simp [diagnostics, Diagnostic.level]

theorem diagnostics_quiet (identified : Bool) (frames : List Parsed) :
    ∀ event ∈ diagnostics identified frames, event.level ≠ .warn := by
  induction frames generalizing identified with
  | nil => exact nofun
  | cons parsed rest ih =>
    exact List.forall_mem_append.mpr ⟨parsed.diagnostics_quiet identified, ih true⟩

end Frame

namespace Reader

open FramedSnappy.Frame (Parsed)

variable {κ : Type}

/-- What a refused frame adds to the log: a warning, unless it is to be `blamed` on something else
than the reader, or nothing. -/
inductive Warns (reader : Reader κ) (e : Error) (blamed : Prop) (after : Reader κ) : Prop
  | loud (event : Diagnostic) : e.Judged → ¬ blamed → event.level = .warn →
      after.log = reader.log.push event → Warns reader e blamed after
  | quiet : (e.Judged → blamed) → after.log = reader.log → Warns reader e blamed after

variable {reader after : Reader κ} {tag : UInt8} {length : Nat} {e : Error} {blamed : Prop}

theorem Warns.unjudged (harmless : ¬ e.Judged) (same : after.log = reader.log) :
    Warns reader e blamed after :=
  .quiet (fun judged => absurd judged harmless) same

theorem Warns.transfer {other : Reader κ} {blamed' : Prop} (h : Warns other e blamed after)
    (same : other.log = reader.log) (shift : blamed ↔ blamed') : Warns reader e blamed' after := by
  cases h with
  | loud event judged innocent level pushed =>
    exact .loud event judged (mt shift.mpr innocent) level (same ▸ pushed)
  | quiet harmless unsaid => exact .quiet (fun judged => shift.mp (harmless judged)) (unsaid.trans same)

theorem take_identifier_warns (h : reader.takeIdentifier length = (.failed e, after)) :
    Warns reader e blamed after := by
  unfold takeIdentifier at h
  split at h
  · cases h
    exact .unjudged id rfl
  · split at h
    · rename_i cut
      cases h
      exact .unjudged (Source.read_body_not_judged cut) rfl
    · dsimp only at h
      split at h
      · cases h
        exact .unjudged id rfl
      · split at h <;> cases h

theorem skip_frame_warns {header : Frame.Header} (h : reader.skipFrame header = (.failed e, after)) :
    Warns reader e blamed after := by
  unfold skipFrame skipBody at h
  rcases skipped : reader.source.skipBody header.length with ⟨_ | _, source⟩
  · rw [skipped] at h
    cases h
    exact .unjudged (Source.skip_body_not_judged skipped) rfl
  · rw [skipped] at h
    cases h

theorem refuse_frame_warns (innocent : ¬ blamed)
    (h : reader.refuseFrame tag length = (.failed e, after)) : Warns reader e blamed after := by
  unfold refuseFrame skipBody at h
  rcases skipped : reader.source.skipBody length with ⟨_ | _, source⟩
  · rw [skipped] at h
    cases h
    exact .unjudged (Source.skip_body_not_judged skipped) rfl
  · rw [skipped] at h
    cases h
    exact .loud (.unskippableFrame tag length) trivial innocent rfl rfl

theorem accept_warns {header : Frame.Header} {masked : UInt32} {content : Bytes}
    (innocent : ¬ blamed) (h : reader.accept header masked content = (.failed e, after)) :
    Warns reader e blamed after := by
  unfold accept at h
  split at h
  · rename_i refused
    cases h
    exact .loud (.corruptBlock _) (ChecksumPolicy.check_judged refused) innocent rfl rfl
  · cases h

/-- What an accepted frame adds to the log, and to the queue if it carries data. -/
inductive Tells (reader : Reader κ) (tag : UInt8) (length : Nat) (after : Reader κ) :
    Progress → Prop
  | identifier : tag = 0xff → after.log.toList =
      reader.log.toList ++ (if reader.identified then [] else [.acceptedStreamIdentifier]) →
      Tells reader tag length after .passed
  | skipped : tag ≠ 0xff → after.log = reader.log.push (.skippedFrame tag length) →
      Tells reader tag length after .passed
  | decoded (content : Bytes) : after.pending = reader.pending.append content →
      after.log = reader.log.push (.decodedFrame tag length content.length) →
      Tells reader tag length after .block

variable {progress : Progress}

theorem take_identifier_tells (h : reader.takeIdentifier length = (.done progress, after)) :
    Tells reader 0xff length after progress := by
  unfold takeIdentifier at h
  split at h
  · cases h
  · split at h
    · cases h
    · dsimp only at h
      split at h
      · cases h
      · split at h
        · rename_i known
          cases h
          exact .identifier rfl (by simp [known])
        · rename_i new
          cases h
          exact .identifier rfl (by simp [report, new])

theorem skip_frame_tells (other : tag ≠ 0xff)
    (h : reader.skipFrame ⟨.ofByte tag, length⟩ = (.done progress, after)) :
    Tells reader tag length after progress := by
  simp only [skipFrame, skipBody, ChunkType.to_byte_of_byte] at h
  rcases skipped : reader.source.skipBody length with ⟨_ | _, source⟩
  · rw [skipped] at h
    cases h
  · rw [skipped] at h
    cases h
    exact .skipped other rfl

theorem take_body_leaves (reader : Reader κ) (length : Nat) :
    (reader.takeBody length).2.log = reader.log ∧
      (reader.takeBody length).2.pending = reader.pending := by
  unfold takeBody
  split
  · exact ⟨rfl, rfl⟩
  · split <;> exact ⟨rfl, rfl⟩

variable [Codec κ]

theorem decompress_leaves (reader : Reader κ) (block : Bytes) :
    (reader.decompress block).2.log = reader.log ∧
      (reader.decompress block).2.pending = reader.pending := by
  unfold decompress
  split
  · exact ⟨rfl, rfl⟩
  · dsimp only
    split
    · exact ⟨rfl, rfl⟩
    · split
      · exact ⟨rfl, rfl⟩
      · split
        · exact ⟨rfl, rfl⟩
        · split <;> exact ⟨rfl, rfl⟩

theorem decode_block_leaves (reader : Reader κ) (chunkType : ChunkType) (block : Bytes) :
    (reader.decodeBlock chunkType block).2.log = reader.log ∧
      (reader.decodeBlock chunkType block).2.pending = reader.pending := by
  unfold decodeBlock
  split
  · exact decompress_leaves reader block
  · exact ⟨rfl, rfl⟩

/-- The codec has been asked for the block of a compressed frame, and has refused it. -/
def RefusedBlock (reader : Reader κ) (tag : UInt8) (length : Nat) (e : Error) : Prop :=
  tag = 0x00 ∧ length ≤ reader.source.front.length ∧
    reader.decode ((reader.source.front.take length).drop Frame.checksumSize) = .failed e

theorem take_block_warns (fit : reader.Fit) (carries : tag = 0x00 ∨ tag = 0x01)
    (h : reader.takeBlock ⟨.ofByte tag, length⟩ = (.failed e, after)) :
    Warns reader e (reader.RefusedBlock tag length e) after := by
  obtain ⟨limit, small, compressed⟩ := length_limit_of_byte carries
  unfold takeBlock at h
  simp only [limit] at h
  split at h
  · cases h
    exact .unjudged id rfl
  rename_i most
  split at h
  · cases h
    exact .unjudged id rfl
  have most : length ≤ Frame.dataLimit := Nat.le_trans (Nat.not_lt.mp most) small
  by_cases short : reader.source.front.length < length
  · obtain ⟨source, body, taken, -, -⟩ := take_body_short fit most short
    rw [taken] at h
    cases h
    exact .unjudged (Fault.inside_frame_not_judged _) rfl
  · obtain ⟨source, body, taken, -, -⟩ := take_body_enough fit most short
    let middle : Reader κ := { reader with source, body }
    let block := (reader.source.front.take length).drop Frame.checksumSize
    have fst := decode_block_fst middle (.ofByte tag) block
    have log := (decode_block_leaves middle (.ofByte tag) block).1
    have moved : middle.decode = reader.decode := decode_congr rfl rfl
    rw [taken] at h
    dsimp only at h
    rcases decoded : middle.decodeBlock (.ofByte tag) block with ⟨_ | e' | _, last⟩
    all_goals
      rw [decoded] at h fst log
      dsimp only at h fst log
    · -- what the codec has made is no refusal
      have innocent : ¬ reader.RefusedBlock tag length e := by
        rintro ⟨rfl, -, refused⟩
        rw [if_pos (compressed.mpr (by decide)), moved] at fst
        cases fst.trans refused
      exact (accept_warns innocent h).transfer log Iff.rfl
    · cases h
      refine .quiet (fun _ => ?_) log
      split at fst
      · rename_i packed
        have zero : tag = 0x00 := carries.resolve_right (compressed.mp packed)
        exact ⟨zero, Nat.not_lt.mp short, moved ▸ fst.symm⟩
      · cases fst
    · cases h

/-- The codec has been asked for the block of the frame in front, and has refused it. -/
def Undecoded (reader : Reader κ) (e : Error) : Prop :=
  reader.identified = true ∧ ∃ tag low middle high body,
    reader.source.front = tag :: low :: middle :: high :: body ∧
    { reader with source := reader.source.readHeader.2 }.RefusedBlock tag
      (Bytes.ofLittleEndian [low, middle, high]) e

theorem take_frame_warns (fit : reader.Fit)
    (h : reader.takeFrame ⟨.ofByte tag, length⟩ = (.failed e, after)) :
    Warns reader e (reader.identified = true ∧ reader.RefusedBlock tag length e) after := by
  unfold takeFrame at h
  split at h
  · rename_i early
    cases h
    exact .loud _ trivial (fun blamed => early.1 blamed.1) rfl rfl
  · rename_i opened
    have carries {tag' : UInt8} (type : (ChunkType.ofByte tag).toByte = tag') : tag = tag' := by
      rwa [ChunkType.to_byte_of_byte] at type
    have known (other : ChunkType.ofByte tag ≠ .streamIdentifier) : reader.identified = true :=
      Decidable.byContradiction fun new => opened ⟨new, other⟩
    -- a data frame is only looked at behind an identifier
    have block (other : ChunkType.ofByte tag ≠ .streamIdentifier) (data : tag = 0x00 ∨ tag = 0x01)
        (h : reader.takeBlock ⟨.ofByte tag, length⟩ = (.failed e, after)) :
        Warns reader e (reader.identified = true ∧ reader.RefusedBlock tag length e) after :=
      (take_block_warns fit data h).transfer rfl (iff_and_self.mpr fun _ => known other)
    split at h
    · exact take_identifier_warns h
    · rename_i type
      exact block (by simp [show ChunkType.ofByte tag = _ from type])
        (.inl (carries (congrArg ChunkType.toByte type))) h
    · rename_i type
      exact block (by simp [show ChunkType.ofByte tag = _ from type])
        (.inr (carries (congrArg ChunkType.toByte type))) h
    · exact skip_frame_warns h
    · exact skip_frame_warns h
    · rename_i tag' type
      refine refuse_frame_warns ?_ h
      rintro ⟨-, rfl, -⟩
      cases type

theorem advance_warns (fit : reader.Fit) (h : reader.advance = (.failed e, after)) :
    Warns reader e (reader.Undecoded e) after := by
  unfold advance at h
  rcases read : reader.source.readHeader with ⟨_ | _ | header, source⟩
  all_goals
    rw [read] at h
    dsimp only at h
  · cases h
    exact .unjudged (Source.read_header_not_judged read) rfl
  · cases h
  · obtain ⟨tag, low, middle, high, body, front, rfl, rest⟩ := Source.read_header_some read
    have moved : ({ reader with source } : Reader κ).Fit := ⟨fit.body, fit.decoded⟩
    refine (take_frame_warns moved h).transfer rfl ⟨?_, ?_⟩
    · rintro ⟨known, refused⟩
      exact ⟨known, tag, low, middle, high, body, front, read ▸ refused⟩
    · rintro ⟨known, tag', low', middle', high', body', front', refused⟩
      obtain ⟨rfl, rfl, rfl, rfl, rfl⟩ : tag = tag' ∧ low = low' ∧ middle = middle' ∧
          high = high' ∧ body = body' := by simpa [front] using front'
      rw [read] at refused
      exact ⟨known, refused⟩

theorem take_block_tells
    (h : reader.takeBlock ⟨.ofByte tag, length⟩ = (.done progress, after)) :
    Tells reader tag length after progress := by
  have body := take_body_leaves reader length
  unfold takeBlock at h
  dsimp only at h
  split at h
  · cases h
  split at h
  · cases h
  split at h
  · cases h
  rename_i data middle taken
  have block := decode_block_leaves middle (.ofByte tag) (data.drop Frame.checksumSize)
  rw [taken] at body
  split at h
  · cases h
  · cases h
  rename_i content last decoded
  rw [decoded] at block
  unfold accept at h
  split at h
  · cases h
  cases h
  refine .decoded content ?_ ?_
  · rw [← body.2, ← block.2]
    rfl
  · rw [← body.1, ← block.1, report, ChunkType.to_byte_of_byte]

theorem take_frame_tells (h : reader.takeFrame ⟨.ofByte tag, length⟩ = (.done progress, after)) :
    Tells reader tag length after progress := by
  unfold takeFrame at h
  split at h
  · cases h
  dsimp only at h
  have identifier := ChunkType.of_byte_identifier tag
  split at h
  · rename_i type
    rw [identifier.mp type]
    exact take_identifier_tells h
  · exact take_block_tells h
  · exact take_block_tells h
  · rename_i type
    exact skip_frame_tells (mt identifier.mpr (by simp [type])) h
  · rename_i type
    exact skip_frame_tells (mt identifier.mpr (by simp [type])) h
  · obtain ⟨e, refused⟩ := refuse_frame_fails reader _ length
    rw [h] at refused
    cases refused

theorem Passes.log {parsed : Parsed} (h : reader.Passes parsed after) :
    after.log.toList = reader.log.toList ++ parsed.diagnostics reader.identified := by
  obtain ⟨frame, content⟩ := parsed
  obtain ⟨low, middle, high, split, sized⟩ := frame.bytes_split
  have front : reader.source.front =
      frame.tag :: low :: middle :: high :: (frame.body ++ after.source.front) := by
    rw [h.takes.front, split]
    rfl
  obtain ⟨source, read, -⟩ := Source.read_header_full front
  have advanced := h.advance
  rw [Reader.advance, read] at advanced
  have tells := take_frame_tells advanced
  rw [sized] at tells
  have queued := h.pending
  generalize made : (Parsed.mk frame content).progress = progress at tells
  cases tells with
  | identifier tag told =>
    cases content with
    | none => simpa [Parsed.diagnostics, tag] using told
    | some content => cases made
  | skipped other told =>
    cases content with
    | none => simp [Parsed.diagnostics, other, told]
    | some content => cases made
  | decoded bytes pending told =>
    cases content with
    | none => cases made
    | some content =>
      have same : bytes = content := by
        have lists := congrArg ByteQueue.toList (pending.symm.trans queued)
        simpa [Parsed.queue, ByteQueue.to_list_append] using lists
      simp [Parsed.diagnostics, told, same]

theorem advance_ended_log (h : reader.advance = (.done .ended, after)) :
    after.log = reader.log := by
  unfold advance at h
  split at h
  · cases h
  · cases h
    rfl
  · -- a frame is never taken for the end
    rename_i header source read
    obtain ⟨tag, low, middle, high, body, -, rfl, -⟩ := Source.read_header_some read
    cases take_frame_tells h

end Reader

end FramedSnappy
