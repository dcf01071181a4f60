import FramedSnappy.Proofs.Frame.Grammar

/-! Streams of frames. Every byte string has exactly one longest front that is a stream, and what
follows it starts with no allowed frame. -/
namespace FramedSnappy

namespace Frame

/-- A frame with the content it carries, if it is one that does. -/
structure Parsed where
  frame : Frame
  content : Option Bytes

namespace Parsed

def data (parsed : Parsed) : Bytes := parsed.content.getD []

end Parsed

def wire (frames : List Parsed) : Bytes := frames.flatMap (·.frame.bytes)

def payload (frames : List Parsed) : Bytes := frames.flatMap (·.data)

/-- What they carry, frame by frame. -/
def blocks (frames : List Parsed) : List Bytes := (frames.map (·.data)).filter (! ·.isEmpty)

@[simp] theorem wire_nil : wire [] = [] := rfl

@[simp] theorem wire_cons (parsed : Parsed) (frames : List Parsed) :
    wire (parsed :: frames) = parsed.frame.bytes ++ wire frames := rfl

@[simp] theorem wire_append (left right : List Parsed) :
    wire (left ++ right) = wire left ++ wire right := List.flatMap_append

theorem length_bytes (frame : Frame) :
    frame.bytes.length = headerSize + frame.body.length := by
  rw [bytes, List.cons_append, List.length_cons, List.length_append, Bytes.length_little_endian,
    Nat.add_right_comm]
  rfl

theorem header_size_le_bytes (frame : Frame) : headerSize ≤ frame.bytes.length :=
  frame.length_bytes ▸ Nat.le_add_right _ _

/-- Every frame has a header, if nothing else. -/
theorem headers_le_wire (frames : List Parsed) :
    headerSize * frames.length ≤ (wire frames).length := by
  induction frames with
  | nil => exact Nat.le_refl _
  | cons parsed rest ih =>
    have header := parsed.frame.header_size_le_bytes
    rw [wire_cons, List.length_cons, List.length_append, Nat.mul_succ]
    omega

@[simp] theorem payload_nil : payload [] = [] := rfl

@[simp] theorem payload_cons (parsed : Parsed) (frames : List Parsed) :
    payload (parsed :: frames) = parsed.data ++ payload frames := rfl

@[simp] theorem payload_append (left right : List Parsed) :
    payload (left ++ right) = payload left ++ payload right := List.flatMap_append

@[simp] theorem blocks_nil : blocks [] = [] := rfl

@[simp] theorem blocks_append (left right : List Parsed) :
    blocks (left ++ right) = blocks left ++ blocks right := by
  simp [blocks]

theorem blocks_cons (parsed : Parsed) (frames : List Parsed) :
    blocks (parsed :: frames) =
      if parsed.data = [] then blocks frames else parsed.data :: blocks frames := by
  cases h : parsed.data <;> simp [blocks, h]

theorem flatten_blocks (frames : List Parsed) : (blocks frames).flatten = payload frames := by
  induction frames with
  | nil => rfl
  | cons parsed rest ih =>
    rw [blocks_cons, payload_cons]
    split
    · rename_i empty
      rw [ih, empty, List.nil_append]
    · rw [List.flatten_cons, ih]

theorem bytes_ne_nil (frame : Frame) : frame.bytes ≠ [] := by
  simp [bytes]

theorem wire_eq_nil {frames : List Parsed} (h : wire frames = []) : frames = [] := by
  cases frames with
  | nil => rfl
  | cons parsed rest => exact absurd (List.append_eq_nil_iff.mp h).1 parsed.frame.bytes_ne_nil

theorem bytes_inj {left right : Frame} (h : left.bytes = right.bytes) : left = right := by
  obtain ⟨low, middle, high, split, told⟩ := left.bytes_split
  obtain ⟨low', middle', high', split', told'⟩ := right.bytes_split
  rw [split, split'] at h
  cases left
  cases right
  simp only [List.cons.injEq] at h
  obtain ⟨rfl, -, -, -, rfl⟩ := h
  rfl

/-- A header gives away where its frame ends. -/
theorem eq_of_prefix {left right : Frame} (h : left.bytes <+: right.bytes) : left = right := by
  obtain ⟨rest, same⟩ := h
  obtain ⟨low, middle, high, split, told⟩ := left.bytes_split
  obtain ⟨low', middle', high', split', told'⟩ := right.bytes_split
  apply bytes_inj
  rw [split, split'] at same ⊢
  simp only [List.cons_append, List.cons.injEq] at same
  obtain ⟨tags, lows, middles, highs, bodies⟩ := same
  have length : left.body.length = right.body.length := by
    rw [← told, ← told', lows, middles, highs]
  rw [tags, lows, middles, highs,
    (List.append_inj (bodies.trans (List.append_nil _).symm) length).1]

theorem eq_of_append {left right : Frame} {rest rest' : Bytes}
    (h : left.bytes ++ rest = right.bytes ++ rest') : left = right := by
  have mine : left.bytes <+: left.bytes ++ rest := List.prefix_append _ _
  have yours : right.bytes <+: left.bytes ++ rest := h ▸ List.prefix_append _ _
  rcases List.prefix_or_prefix_of_prefix mine yours with shorter | longer
  · exact eq_of_prefix shorter
  · have same := eq_of_prefix longer
    exact same.symm

/-- Bytes are cut into frames in one way. -/
theorem frames_of_wire {left right : List Parsed} (h : wire left = wire right) :
    left.map (·.frame) = right.map (·.frame) := by
  induction left generalizing right with
  | nil => rw [wire_eq_nil h.symm]
  | cons parsed rest ih =>
    cases right with
    | nil => cases wire_eq_nil h
    | cons other more =>
      rw [wire_cons, wire_cons] at h
      have same := eq_of_append h
      rw [same] at h
      rw [List.map_cons, List.map_cons, same, ih (List.append_cancel_left h)]

variable (decode : Bytes → Outcome Error Bytes) (policy : ChecksumPolicy)

/-- No allowed frame stands in front of the bytes. -/
def Blocked (identified : Bool) (rest : Bytes) : Prop :=
  ∀ content more, judge decode policy identified none rest ≠ .passed content more

/-- Allowed frames, the first of them an identifier. -/
structure Stream (frames : List Parsed) : Prop where
  opens : ∀ parsed ∈ frames.head?, parsed.frame.tag = 0xff
  allowed : ∀ parsed ∈ frames, parsed.frame.Yields decode policy parsed.content

variable {decode : Bytes → Outcome Error Bytes} {policy : ChecksumPolicy}

theorem blocked_nil (identified : Bool) : Blocked decode policy identified [] := nofun

theorem blocked_of_cut {frame : Frame} {torn : Bytes} (front : torn <+: frame.bytes)
    (cut : torn ≠ frame.bytes) (identified : Bool) : Blocked decode policy identified torn := by
  intro content more judged
  obtain ⟨other, split, -⟩ := yields_of_judge judged
  have within : other.bytes <+: torn := ⟨more, split.symm⟩
  obtain rfl := eq_of_prefix (within.trans front)
  exact cut (front.eq_of_length (Nat.le_antisymm front.length_le within.length_le))

theorem identifier_bytes {frame : Frame} (tag : frame.tag = 0xff)
    (body : frame.body = identifierBody) :
    frame.bytes = streamIdentifier := by
  rw [bytes, tag, body]
  rfl

theorem identifier_inner : ∀ count < streamIdentifier.length, 0 < count →
    streamIdentifier.drop count ≠ [] ∧ (streamIdentifier.drop count).head? ≠ some 0xff := by
  decide

/-- Nothing can be read behind the front of an identifier and the start of another one. -/
theorem blocked_of_torn_identifier {count : Nat} {tail : Bytes} (some : 0 < count)
    (part : count < streamIdentifier.length) (again : ∀ byte ∈ tail.head?, byte = 0xff) :
    Blocked decode policy false (streamIdentifier.take count ++ tail) := by
  intro content more judged
  obtain ⟨frame, split, opened, yields⟩ := yields_of_judge judged
  have tag : frame.tag = 0xff := opened.resolve_left nofun
  have whole : frame.bytes = streamIdentifier := by
    cases yields with
    | identifier _ body => exact identifier_bytes tag body
    | skipped _ other => exact absurd tag other
    | compressed other => cases tag.symm.trans other
    | uncompressed other => cases tag.symm.trans other
  rw [whole] at split
  have behind : tail = streamIdentifier.drop count ++ more := by
    have dropped := congrArg (List.drop count) split
    rwa [List.drop_left' (List.length_take_of_le (Nat.le_of_lt part)),
      List.drop_append_of_le_length (Nat.le_of_lt part)] at dropped
  have inner := identifier_inner count part some
  cases next : streamIdentifier.drop count with
  | nil => exact inner.1 next
  | cons byte rest =>
    rw [behind, next] at again
    rw [next, again byte rfl] at inner
    exact inner.2 rfl

/-- Taking allowed frames off the front ends at bytes that start with none. -/
theorem exists_blocked (identified : Bool) (data : Bytes) :
    ∃ frames rest, data = wire frames ++ rest ∧
      (identified = true ∨ ∀ parsed ∈ frames.head?, parsed.frame.tag = 0xff) ∧
      (∀ parsed ∈ frames, parsed.frame.Yields decode policy parsed.content) ∧
      Blocked decode policy (identified || ! frames.isEmpty) rest := by
  -- no frame is empty, so what is behind one is shorter
  induction h : data.length using Nat.strongRecOn generalizing identified data with
  | ind size ih =>
    by_cases stuck : Blocked decode policy identified data
    · exact ⟨[], data, rfl, .inr nofun, nofun, by simpa using stuck⟩
    · simp only [Blocked, Classical.not_forall, Classical.not_not] at stuck
      obtain ⟨content, more, judged⟩ := stuck
      obtain ⟨frame, split, opened, yields⟩ := yields_of_judge judged
      have shorter : more.length < size := by
        have := List.length_pos_iff.mpr frame.bytes_ne_nil
        rw [← h, split, List.length_append]
        omega
      obtain ⟨frames, rest, behind, _, allowed, blocked⟩ := ih _ shorter true more rfl
      refine ⟨⟨frame, content⟩ :: frames, rest, ?_, ?_, ?_, ?_⟩
      · rw [split, behind, wire_cons, List.append_assoc]
      · refine opened.imp_right fun tag parsed mem => ?_
        cases mem
        exact tag
      · intro parsed mem
        rcases List.mem_cons.mp mem with rfl | later
        · exact yields
        · exact allowed parsed later
      · simpa using blocked

theorem exists_stream (data : Bytes) :
    ∃ frames rest, data = wire frames ++ rest ∧ Stream decode policy frames ∧
      Blocked decode policy (! frames.isEmpty) rest := by
  obtain ⟨frames, rest, split, opens, allowed, blocked⟩ :=
    @exists_blocked decode policy false data
  refine ⟨frames, rest, split, ⟨?_, allowed⟩, by simpa using blocked⟩
  rcases opens with h | h
  · cases h
  · exact h

end Frame

end FramedSnappy
