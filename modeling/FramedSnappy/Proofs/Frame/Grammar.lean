import FramedSnappy.Outcome
import FramedSnappy.Proofs.Checksum
import FramedSnappy.Proofs.Frame.Reading

/-! The format as a grammar of whole frames, and the verdict on the bytes that stand in front of a
reader. `Frame.Yields` told which frames are allowed and what they carry. `Frame.judge` told
besides what is wrong with bytes that do not start with an allowed frame, and where reading has
come to by then. -/
namespace FramedSnappy

/-- A tag and a data section whose length three bytes can hold. -/
structure Frame where
  tag : UInt8
  body : Bytes
  fits : body.length ≤ Frame.lengthFieldLimit

namespace Frame

def bytes (frame : Frame) : Bytes :=
  frame.tag :: Bytes.littleEndian 3 frame.body.length ++ frame.body

def field (frame : Frame) : Bytes := frame.body.take checksumSize

def block (frame : Frame) : Bytes := frame.body.drop checksumSize

def header (frame : Frame) : Header := ⟨.ofByte frame.tag, frame.body.length⟩

/-- The stored checksum. -/
def masked (frame : Frame) : UInt32 := UInt32.ofNat (Bytes.ofLittleEndian frame.field)

variable (decode : Bytes → Outcome Error Bytes) (policy : ChecksumPolicy)

/-- The allowed frames, with the content of those that carry data. -/
inductive Yields : Frame → Option Bytes → Prop where
  | identifier {frame : Frame} : frame.tag = 0xff → frame.body = identifierBody → Yields frame none
  | skipped {frame : Frame} : 0x80 ≤ frame.tag → frame.tag ≠ 0xff → Yields frame none
  | compressed {frame : Frame} {content : Bytes} : frame.tag = 0x00 →
      checksumSize ≤ frame.body.length → frame.body.length ≤ dataLimit →
      decode frame.block = .done content → policy.Accepts frame.field content →
      Yields frame (some content)
  | uncompressed {frame : Frame} : frame.tag = 0x01 →
      checksumSize ≤ frame.body.length → frame.body.length ≤ blockLimit + checksumSize →
      policy.Accepts frame.field frame.block → Yields frame (some frame.block)

/-- What the bytes in front come to, each time with the bytes left over. -/
inductive Verdict where
  | ended
  | passed (content : Option Bytes) (rest : Bytes)
  | broken (error : Error) (rest : Bytes)
  | overrun (rest : Bytes)

def lengthLimit (tag : UInt8) : Nat :=
  if tag = 0x01 then blockLimit + checksumSize else dataLimit

def judgeBlock (stop : Option Fault) (tag : UInt8) (length : Nat) (rest : Bytes) : Verdict :=
  if lengthLimit tag < length then .broken (.blockTooLarge length (lengthLimit tag)) rest
  else if length < checksumSize then .broken (.noRoomForChecksum length) rest
  else if rest.length < length then .broken (cutShort stop) []
  else
    let field := rest.take checksumSize
    let block := (rest.take length).drop checksumSize
    match if tag = 0x01 then .done block else decode block with
    | .failed e => .broken e (rest.drop length)
    | .overrun => .overrun (rest.drop length)
    | .done content =>
      match policy.check (UInt32.ofNat (Bytes.ofLittleEndian field)) content with
      | .error e => .broken e (rest.drop length)
      | .ok () => .passed (some content) (rest.drop length)

def judgeIdentifier (stop : Option Fault) (length : Nat) (rest : Bytes) : Verdict :=
  if length ≠ identifierBody.length then .broken .invalidStreamIdentifier rest
  else if rest.length < length then .broken (cutShort stop) []
  else if rest.take length ≠ identifierBody then
    .broken .invalidStreamIdentifier (rest.drop length)
  else .passed none (rest.drop length)

def judgeSkipped (stop : Option Fault) (tag : UInt8) (length : Nat) (rest : Bytes) : Verdict :=
  if rest.length < length then .broken (cutShort stop) []
  else if tag < 0x80 then .broken (.unskippableChunk tag) (rest.drop length)
  else .passed none (rest.drop length)

/-- `stop` is the fault, if it is one, that keeps more bytes from coming. -/
def judge (identified : Bool) (stop : Option Fault) : Bytes → Verdict
  | [] =>
    match stop with
    | none => .ended
    | some f => .broken (.io f) []
  | tag :: low :: middle :: high :: rest =>
    let length := Bytes.ofLittleEndian [low, middle, high]
    if ¬ identified ∧ tag ≠ 0xff then .broken (.missingStreamIdentifier tag) rest
    else if tag = 0xff then judgeIdentifier stop length rest
    else if tag = 0x00 ∨ tag = 0x01 then judgeBlock decode policy stop tag length rest
    else judgeSkipped stop tag length rest
  | _ =>
    match stop with
    | none => .broken .unexpectedEof []
    | some f => .broken (.io f) []

theorem bytes_split (frame : Frame) : ∃ low middle high,
    frame.bytes = frame.tag :: low :: middle :: high :: frame.body ∧
      Bytes.ofLittleEndian [low, middle, high] = frame.body.length := by
  have fits : frame.body.length < 256 ^ 3 := by
    have := frame.fits
    unfold lengthFieldLimit at this
    omega
  have told := Bytes.of_little_endian fits
  exact ⟨_, _, _, rfl, told⟩

theorem bytes_of_header (tag : UInt8) {low middle high : UInt8} {rest : Bytes} {length : Nat}
    (told : Bytes.ofLittleEndian [low, middle, high] = length) (whole : ¬ rest.length < length) :
    ∃ frame : Frame, frame.tag = tag ∧ frame.body = rest.take length ∧
      tag :: low :: middle :: high :: rest = frame.bytes ++ rest.drop length := by
  have small := Bytes.of_little_endian_lt [low, middle, high]
  have taken : (rest.take length).length = length := List.length_take_of_le (Nat.not_lt.mp whole)
  have fits : (rest.take length).length ≤ lengthFieldLimit := by
    rw [taken, ← told]
    unfold lengthFieldLimit
    simp only [List.length_cons, List.length_nil] at small
    omega
  refine ⟨⟨tag, rest.take length, fits⟩, rfl, rfl, ?_⟩
  have field := Bytes.little_endian_of [low, middle, high]
  rw [told] at field
  simp only [bytes, taken]
  rw [show (3 : Nat) = [low, middle, high].length from rfl, field]
  simp

variable {decode : Bytes → Outcome Error Bytes} {policy : ChecksumPolicy}

/-- Behind a header everything but the checksum is in order. -/
theorem judge_block_checked {frame : Frame} (least : checksumSize ≤ frame.body.length)
    (most : frame.body.length ≤ lengthLimit frame.tag) {content : Bytes}
    (decoded : (if frame.tag = 0x01 then .done frame.block else decode frame.block) =
      .done content) (stop : Option Fault) (rest : Bytes) :
    judgeBlock decode policy stop frame.tag frame.body.length (frame.body ++ rest) =
      match policy.check frame.masked content with
      | .error e => .broken e rest
      | .ok () => .passed (some content) rest := by
  have field : (frame.body ++ rest).take checksumSize = frame.field :=
    List.take_append_of_le_length least
  have block : ((frame.body ++ rest).take frame.body.length).drop checksumSize = frame.block := by
    rw [List.take_left]
    rfl
  unfold judgeBlock
  rw [if_neg (Nat.not_lt.mpr most), if_neg (Nat.not_lt.mpr least), if_neg (by simp)]
  simp only [field, block, decoded, List.drop_left, masked]

theorem Yields.unchecked {frame : Frame} {content : Option Bytes}
    (yields : frame.Yields decode policy content) : frame.Yields decode .skip content := by
  cases yields with
  | identifier tag body => exact .identifier tag body
  | skipped low high => exact .skipped low high
  | compressed tag least most decoded _ => exact .compressed tag least most decoded nofun
  | uncompressed tag least most _ => exact .uncompressed tag least most nofun

theorem Yields.check {frame : Frame} {content : Bytes}
    (yields : frame.Yields decode policy (some content)) :
    policy.check frame.masked content = .ok () := by
  cases yields with
  | compressed _ least _ _ accepted =>
    exact (policy.check_field content (List.length_take_of_le least)).mpr accepted
  | uncompressed _ least _ accepted =>
    exact (policy.check_field frame.block (List.length_take_of_le least)).mpr accepted

theorem judge_bytes {frame : Frame} {identified : Bool}
    (opened : identified = true ∨ frame.tag = 0xff) (stop : Option Fault) (rest : Bytes) :
    judge decode policy identified stop (frame.bytes ++ rest) =
      if frame.tag = 0xff then judgeIdentifier stop frame.body.length (frame.body ++ rest)
      else if frame.tag = 0x00 ∨ frame.tag = 0x01 then
        judgeBlock decode policy stop frame.tag frame.body.length (frame.body ++ rest)
      else judgeSkipped stop frame.tag frame.body.length (frame.body ++ rest) := by
  obtain ⟨low, middle, high, split, told⟩ := frame.bytes_split
  have known : ¬ (¬ identified = true ∧ frame.tag ≠ 0xff) := by
    rintro ⟨early, other⟩
    exact opened.elim early other
  rw [split]
  simp only [List.cons_append, judge, told, if_neg known]

/-- A data frame that passes as long as nobody looks at its checksum. -/
theorem Yields.checked {frame : Frame} {content : Bytes}
    (yields : frame.Yields decode .skip (some content)) {identified : Bool}
    (opened : identified = true ∨ frame.tag = 0xff) (stop : Option Fault) (rest : Bytes) :
    Frame.judge decode policy identified stop (frame.bytes ++ rest) =
      match policy.check frame.masked content with
      | .error e => .broken e rest
      | .ok () => .passed (some content) rest := by
  rw [judge_bytes opened]
  cases yields with
  | compressed tag least most decoded _ =>
    rw [if_neg (by rw [tag]; decide), if_pos (.inl tag)]
    have most : frame.body.length ≤ lengthLimit frame.tag := by simpa [lengthLimit, tag] using most
    exact judge_block_checked least most (by simpa [tag] using decoded) stop rest
  | uncompressed tag least most _ =>
    rw [if_neg (by rw [tag]; decide), if_pos (.inr tag)]
    have most : frame.body.length ≤ lengthLimit frame.tag := by simpa [lengthLimit, tag] using most
    exact judge_block_checked least most (if_pos tag) stop rest

/-- An allowed frame passes, whatever stands behind it. -/
theorem Yields.judge {frame : Frame} {content : Option Bytes}
    (yields : frame.Yields decode policy content) {identified : Bool}
    (opened : identified = true ∨ frame.tag = 0xff) (stop : Option Fault) (rest : Bytes) :
    Frame.judge decode policy identified stop (frame.bytes ++ rest) = .passed content rest := by
  cases content with
  | some content => rw [yields.unchecked.checked opened, yields.check]
  | none =>
    rw [judge_bytes opened]
    cases yields with
    | identifier tag body => simp [judgeIdentifier, tag, body]
    | skipped low high =>
      have other : ¬ (frame.tag = 0x00 ∨ frame.tag = 0x01) := by
        rintro (h | h) <;> rw [h] at low <;> exact absurd low (by decide)
      have skipped : ¬ frame.tag < 0x80 := UInt8.not_lt.mpr low
      simp [judgeSkipped, high, other, skipped]

/-- The content of a frame is settled by its bytes. -/
theorem Yields.unique {frame : Frame} {content content' : Option Bytes}
    (one : frame.Yields decode policy content) (other : frame.Yields decode policy content') :
    content = content' := by
  have judged := one.judge (.inl (rfl : true = true)) none []
  rw [other.judge (.inl rfl)] at judged
  cases judged
  rfl

/-- The first `length` bytes are the data section of an allowed frame. -/
def Opens (decode : Bytes → Outcome Error Bytes) (policy : ChecksumPolicy) (tag : UInt8)
    (length : Nat) (data : Bytes) (content : Option Bytes) (rest : Bytes) : Prop :=
  ¬ data.length < length ∧ rest = data.drop length ∧
    ∀ frame : Frame, frame.tag = tag → frame.body = data.take length →
      frame.Yields decode policy content

theorem opens_of_judge_identifier {stop : Option Fault} {length : Nat} {data rest : Bytes}
    {content : Option Bytes} (h : judgeIdentifier stop length data = .passed content rest) :
    Opens decode policy 0xff length data content rest := by
  unfold judgeIdentifier at h
  split at h
  · cases h
  · split at h
    · cases h
    · rename_i whole
      split at h
      · cases h
      · rename_i same
        cases h
        refine ⟨whole, rfl, fun frame ht hb => .identifier ht ?_⟩
        rw [hb]
        exact Decidable.not_not.mp same

theorem opens_of_judge_skipped {stop : Option Fault} {tag : UInt8} {length : Nat}
    {data rest : Bytes} {content : Option Bytes} (other : tag ≠ 0xff)
    (h : judgeSkipped stop tag length data = .passed content rest) :
    Opens decode policy tag length data content rest := by
  unfold judgeSkipped at h
  split at h
  · cases h
  · rename_i whole
    split at h
    · cases h
    · rename_i high
      cases h
      refine ⟨whole, rfl, fun frame ht _ => ?_⟩
      subst ht
      exact .skipped (UInt8.not_lt.mp high) other

theorem opens_of_judge_block {stop : Option Fault} {tag : UInt8} {length : Nat}
    {data rest : Bytes} {content : Option Bytes} (carries : tag = 0x00 ∨ tag = 0x01)
    (h : judgeBlock decode policy stop tag length data = .passed content rest) :
    Opens decode policy tag length data content rest := by
  unfold judgeBlock at h
  split at h
  · cases h
  · rename_i most
    split at h
    · cases h
    · rename_i least
      split at h
      · cases h
      · rename_i whole
        dsimp only at h
        split at h
        · cases h
        · cases h
        · rename_i bytes decoded
          split at h
          · cases h
          · rename_i checked
            cases h
            refine ⟨whole, rfl, ?_⟩
            intro frame ht hb
            have size : frame.body.length = length := by
              rw [hb, List.length_take_of_le (Nat.not_lt.mp whole)]
            have least : checksumSize ≤ frame.body.length := size ▸ Nat.not_lt.mp least
            have most : frame.body.length ≤ lengthLimit tag := size ▸ Nat.not_lt.mp most
            have field : frame.field = data.take checksumSize := by
              rw [field, hb, List.take_take, Nat.min_eq_left (size ▸ least)]
            have block : frame.block = (data.take length).drop checksumSize := by rw [block, hb]
            rw [← field] at checked
            rw [← block] at decoded
            have accepted := (policy.check_field bytes (List.length_take_of_le least)).mp checked
            rcases carries with rfl | rfl
            · exact .compressed ht least most decoded accepted
            · cases decoded
              exact .uncompressed ht least most accepted

theorem yields_of_judge {identified : Bool} {stop : Option Fault} {data rest : Bytes}
    {content : Option Bytes}
    (h : judge decode policy identified stop data = .passed content rest) :
    ∃ frame : Frame, data = frame.bytes ++ rest ∧ (identified = true ∨ frame.tag = 0xff) ∧
      frame.Yields decode policy content := by
  unfold judge at h
  split at h
  · split at h <;> cases h
  · rename_i tag low middle high behind
    dsimp only at h
    split at h
    · cases h
    · rename_i known
      have opened : identified = true ∨ tag = 0xff := by
        by_cases early : identified = true
        · exact .inl early
        · exact .inr (Decidable.byContradiction fun other => known ⟨early, other⟩)
      have opens : Opens decode policy tag (Bytes.ofLittleEndian [low, middle, high]) behind content
          rest := by
        split at h
        · rename_i identifier
          subst identifier
          exact opens_of_judge_identifier h
        · rename_i other
          split at h
          · rename_i carries
            exact opens_of_judge_block carries h
          · exact opens_of_judge_skipped other h
      obtain ⟨whole, rfl, yields⟩ := opens
      obtain ⟨frame, ht, hb, split⟩ := bytes_of_header tag rfl whole
      exact ⟨frame, split, ht ▸ opened, yields frame ht hb⟩
  · split at h <;> cases h

theorem judge_cut {identified : Bool} {stop : Option Fault} {data : Bytes} (begun : data ≠ [])
    (short : data.length < headerSize) :
    judge decode policy identified stop data =
      .broken (match stop with
        | none => .unexpectedEof
        | some f => .io f) [] := by
  unfold judge
  split
  · exact absurd rfl begun
  · simp only [List.length_cons, headerSize] at short
    omega
  · cases stop <;> rfl

/-- Only the codec can run past a buffer. -/
theorem judge_inside (inside : ∀ block, decode block ≠ .overrun) {identified : Bool}
    {stop : Option Fault} {data rest : Bytes} :
    judge decode policy identified stop data ≠ .overrun rest := by
  unfold judge
  split
  · split <;> exact nofun
  · rename_i tag low middle high behind
    dsimp only
    split
    · exact nofun
    · split
      · unfold judgeIdentifier
        repeat' split
        all_goals exact nofun
      · split
        · unfold judgeBlock
          dsimp only
          split
          · exact nofun
          · split
            · exact nofun
            · split
              · exact nofun
              · split
                · exact nofun
                · rename_i decoded
                  split at decoded
                  · cases decoded
                  · exact absurd decoded (inside _)
                · split <;> exact nofun
        · unfold judgeSkipped
          repeat' split
          all_goals exact nofun
  · split <;> exact nofun

theorem judge_header_goes_on (identified : Bool) (stop : Option Fault)
    (tag low middle high : UInt8) (rest : Bytes) :
    judge decode policy identified stop (tag :: low :: middle :: high :: rest) ≠ .ended := by
  simp only [judge, judgeIdentifier, judgeBlock, judgeSkipped]
  repeat' split
  all_goals exact nofun

theorem ended_of_judge {identified : Bool} {stop : Option Fault} {data : Bytes}
    (h : judge decode policy identified stop data = .ended) : data = [] ∧ stop = none := by
  unfold judge at h
  split at h
  · split at h
    · exact ⟨rfl, rfl⟩
    · cases h
  · exact absurd h (judge_header_goes_on identified stop _ _ _ _ _)
  · split at h <;> cases h

end Frame

end FramedSnappy
