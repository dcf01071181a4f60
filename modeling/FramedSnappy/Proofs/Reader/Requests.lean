import FramedSnappy.Proofs.Codec.Snappy
import FramedSnappy.Proofs.Reader.Acceptance
import FramedSnappy.Proofs.Reader.Drain
import FramedSnappy.Proofs.Reader.Equations
import FramedSnappy.Proofs.Reader.Transparency

/-! Bytes by number and by line. Whoever asks for some number of bytes, or for the bytes up to a
delimiter, gets them from the joined blocks of the stream and cannot tell where one block ends and
the next one begins. -/
namespace FramedSnappy

inductive Request where
  | exactly (count : Nat)
  /-- Up to and including the first delimiter, or all when there is none. -/
  | line (delimiter : UInt8)

namespace Request

def operation : Request → ReaderOperation
  | exactly count => .readExact count
  | line delimiter => .readUntil delimiter

/-- The reply when `left` lies there in one piece, and what is left after it. Asking for more than
there is uses up all of it. -/
def answer : Request → Bytes → ReaderReply × Bytes
  | exactly count, left =>
    if count ≤ left.length then (.bytes (left.take count), left.drop count)
    else (.failed (.fault .shortRead), [])
  | line delimiter, left =>
    let length := left.idxOf delimiter + 1
    (.line (left.take length) none, left.drop length)

def replies : List Request → Bytes → List ReaderReply
  | [], _ => []
  | request :: rest, left => (request.answer left).1 :: replies rest (request.answer left).2

theorem answer_fine (request : Request) (left : Bytes) : (request.answer left).1 ≠ .overrun := by
  cases request with
  | exactly count =>
    unfold answer
    dsimp only
    split <;> exact nofun
  | line delimiter => exact nofun

end Request

namespace Reader

variable {κ : Type} [Codec κ] {reader : Reader κ} {data : Bytes}

/-- The reader is in front of whole frames, and `data` is all that it has still to hand over. -/
def Owes (reader : Reader κ) (data : Bytes) : Prop :=
  ∃ frames, reader.Faces frames [] ∧ reader.poisoned = false ∧ reader.owed frames = data

namespace Owes

theorem waiting (h : reader.Owes data) : ∃ rest, data = reader.pending.toList ++ rest := by
  obtain ⟨frames, -, -, rfl⟩ := h
  exact ⟨Frame.payload frames, rfl⟩

theorem consume (h : reader.Owes data) {count : Nat}
    (waits : count ≤ reader.pending.toList.length) :
    (reader.consume count).Owes (data.drop count) := by
  obtain ⟨frames, faces, fresh, rfl⟩ := h
  refine ⟨frames, faces.with_queue _, fresh, ?_⟩
  have exact : ¬ reader.pending.Wraps count :=
    ByteQueue.not_wraps_of_le (ByteQueue.length_to_list _ ▸ waits)
  rw [owed, owed, List.drop_append_of_le_length waits, Reader.consume,
    ByteQueue.to_list_consume exact]

theorem read (h : reader.Owes data) {size : Nat} (positive : 0 < size) :
    ∃ got rest after, reader.read size = (.done got, after) ∧ got.length ≤ size ∧
      after.Owes rest ∧ data = got ++ rest ∧ (got = [] → data = []) := by
  obtain ⟨frames, faces, fresh, rfl⟩ := h
  obtain ⟨got, after, more, told, behind, fine, total, last⟩ := read_whole faces fresh positive
  exact ⟨got, after.owed more, after, told, read_at_most told, ⟨more, behind, fine, rfl⟩,
    total.symm, last⟩

theorem peek (h : reader.Owes data) :
    ∃ after, reader.peek = (.done after.pending.toList, after) ∧ after.Owes data ∧
      (after.pending.toList = [] → data = []) := by
  obtain ⟨frames, faces, fresh, rfl⟩ := h
  obtain ⟨after, more, told, behind, fine, total, last⟩ := peek_whole faces fresh
  exact ⟨after, told, ⟨more, behind, fine, total⟩, last⟩

/-- However many blocks the wanted bytes are spread over, they come in one piece. -/
theorem gather (h : reader.Owes data) (wanted : Nat) (got : Array UInt8) :
    ∃ after, after.Owes (data.drop wanted) ∧
      reader.gather wanted got =
        (if wanted ≤ data.length then .done (got.toList ++ data.take wanted)
          else .failed (.fault .shortRead), after) := by
  -- every read that hands something over leaves fewer bytes to be wanted
  induction wanted using Nat.strongRecOn generalizing reader data got with
  | ind wanted ih =>
    rw [gather_eq]
    by_cases none : wanted = 0
    · subst none
      exact ⟨reader, h, by simp⟩
    · rw [if_neg none]
      obtain ⟨piece, rest, middle, told, few, owes, rfl, last⟩ := h.read (Nat.pos_of_ne_zero none)
      rw [told]
      cases piece with
      | nil =>
        have nothing := last rfl
        rw [List.nil_append] at nothing ⊢
        subst nothing
        refine ⟨middle, ?_, ?_⟩
        · rwa [List.drop_nil]
        · rw [List.length_nil, if_neg (by omega)]
      | cons first more =>
        have fewer : wanted - (more.length + 1) < wanted := by omega
        obtain ⟨after, owes, told⟩ := ih _ fewer owes (got ++ first :: more)
        have length : (first :: more).length = more.length + 1 := rfl
        refine ⟨after, ?_, ?_⟩
        · rwa [List.drop_append, List.drop_of_length_le few, List.nil_append, length]
        · have enough : wanted - (more.length + 1) ≤ rest.length ↔
              wanted ≤ (first :: more ++ rest).length := by
            rw [List.length_append, length]
            omega
          rw [List.take_append, List.take_of_length_le few, ← List.append_assoc]
          simpa only [enough, Array.toList_appendList, length] using told

/-- However many blocks a line is spread over, it comes in one piece. -/
theorem collect_until (h : reader.Owes data) (delimiter : UInt8) (got : Array UInt8) :
    ∃ after, after.Owes (data.drop (data.idxOf delimiter + 1)) ∧
      reader.collectUntil delimiter got =
        (.done (), got ++ data.take (data.idxOf delimiter + 1), after) := by
  -- a piece without the delimiter is used up, so fewer bytes are owed behind it
  induction count : data.length using Nat.strongRecOn generalizing reader data got with
  | ind count ih =>
    subst count
    obtain ⟨middle, told, owes, last⟩ := h.peek
    rw [collect_until_eq, told]
    cases piece : middle.pending.toList with
    | nil =>
      obtain rfl := last piece
      exact ⟨middle, owes, by simp⟩
    | cons first more =>
      obtain ⟨rest, whole⟩ := owes.waiting
      rw [piece] at whole
      simp only [Bytes.up_to_eq, decide_eq_true_eq]
      by_cases there : delimiter ∈ first :: more
      · have inside : (first :: more).idxOf delimiter < (first :: more).length :=
          List.idxOf_lt_length_iff.mpr there
        have length : ((first :: more).take ((first :: more).idxOf delimiter + 1)).length =
            data.idxOf delimiter + 1 := by
          rw [whole, List.idxOf_append_of_mem there, List.length_take_of_le inside]
        rw [if_pos there, length]
        refine ⟨_, owes.consume ?_, ?_⟩
        · rw [piece, whole, List.idxOf_append_of_mem there]
          exact inside
        · rw [whole, List.idxOf_append_of_mem there, List.take_append_of_le_length inside]
      · have all : (first :: more).take ((first :: more).idxOf delimiter + 1) = first :: more := by
          rw [List.idxOf_eq_length_iff.mpr there]
          exact List.take_of_length_le (Nat.le_succ _)
        have place : data.idxOf delimiter = (first :: more).length + rest.idxOf delimiter := by
          rw [whole, List.idxOf_append_of_notMem there]
        have left : data.drop (first :: more).length = rest := by
          rw [whole, List.drop_left]
        have behind : (middle.consume (first :: more).length).Owes rest :=
          left ▸ owes.consume (Nat.le_of_eq (congrArg List.length piece.symm))
        have fewer : rest.length < data.length := by
          rw [whole, List.length_append, List.length_cons]
          omega
        obtain ⟨after, owes, told⟩ := ih _ fewer behind (got ++ first :: more) rfl
        rw [if_neg there, all, told, place, Nat.add_assoc]
        refine ⟨after, ?_, ?_⟩
        · rwa [← List.drop_drop, left]
        · rw [whole, List.take_length_add_append, Bytes.collect_append]

/-- One request. -/
theorem perform (h : reader.Owes data) (request : Request) :
    ∃ after, reader.perform request.operation = ((request.answer data).1, after) ∧
      after.Owes (request.answer data).2 := by
  cases request with
  | exactly count =>
    obtain ⟨after, owes, told⟩ := h.gather count #[]
    refine ⟨after, ?_, ?_⟩
    · simp only [Request.operation, Reader.perform, readExact, told, Request.answer]
      split <;> rfl
    · simp only [Request.answer]
      split
      · exact owes
      · rename_i short
        rwa [List.drop_of_length_le (Nat.le_of_not_le short)] at owes
  | line delimiter =>
    obtain ⟨after, owes, told⟩ := h.collect_until delimiter #[]
    refine ⟨after, ?_, owes⟩
    simp [Request.operation, Reader.perform, readUntil, told, Request.answer, replyLine]

/-- All of them, one after the other. -/
theorem run (h : reader.Owes data) (requests : List Request) :
    (reader.run (requests.map (·.operation))).map (·.1) = Request.replies requests data := by
  induction requests generalizing reader data with
  | nil => rfl
  | cons request rest ih =>
    obtain ⟨after, told, owes⟩ := h.perform request
    rw [List.map_cons, run_cons, told, if_neg (request.answer_fine data), List.map_cons, ih owes]
    rfl

end Owes

/-- A source gives the bytes of one stream, which the reader accepts to its end, and the blocks in it
join up to `data`. -/
structure Accepted (codec : κ) (policy : ChecksumPolicy) (source : Source) (data : Bytes) : Prop where
  said : ∃ wire : Bytes, source.signals = wire.map .byte
  done : ((ofSource source codec policy).visitBlocks fun _ => none).1 = .done ()
  joined : ((ofSource source codec policy).visitBlocks fun _ => none).2.1.toList.flatten = data

theorem Accepted.owes {codec : κ} (promise : Codec.InputOnly codec) {policy : ChecksumPolicy}
    {source : Source} (h : Accepted codec policy source data) :
    (ofSource source codec policy).Owes data := by
  obtain ⟨wire, said⟩ := h.said
  have accepts : ∀ seen, (fun _ => none : Visitor) seen = none := fun _ => rfl
  obtain ⟨whole, shows, -⟩ := visit_accepts_streams promise policy said accepts
  obtain ⟨frames, stream, rfl⟩ := whole.mp h.done
  have faces : (ofSource source codec policy).Faces frames [] := by
    apply faces_of_stream promise _ stream (Frame.blocked_nil _)
    rw [List.append_nil]
    exact said
  refine ⟨frames, faces, rfl, ?_⟩
  rw [← h.joined, shows frames stream rfl, Frame.flatten_blocks]
  rfl

/-- Two accepted streams whose blocks join up to the same bytes, whatever the frames, the codecs and
the policies are: neither requests by number nor requests by line tell them apart. The replies are
those that all these bytes in one piece would give. -/
theorem boundaries_invisible {κ lam : Type} [Codec κ] [Codec lam] {codec : κ} {other : lam}
    (promise : Codec.InputOnly codec) (pledge : Codec.InputOnly other)
    {policy rule : ChecksumPolicy} {source twin : Source} {data : Bytes}
    (first : Accepted codec policy source data) (second : Accepted other rule twin data)
    (requests : List Request) :
    let operations := requests.map (·.operation)
    let replies := ((ofSource source codec policy).run operations).map (·.1)
    replies = Request.replies requests data ∧
      replies = ((ofSource twin other rule).run operations).map (·.1) := by
  intro operations replies
  have mine : replies = Request.replies requests data := (first.owes promise).run requests
  have yours := (second.owes pledge).run requests
  exact ⟨mine, mine.trans yours.symm⟩

/-- Two stored blocks, and one compressed block that repeats its first half. -/
theorem halves_not_told_apart :
    let halves := Frame.wire [opening, twoBytes, twoBytes]
    let packed := Frame.wire [opening] ++
      [0x00, 11, 0, 0, 0x31, 0x11, 0xf2, 0x5c, 4, 0x04, 0x61, 0x62, 0x06, 2, 0]
    let first := ofSource (.ofEvents [.deliver halves] none) Codec.Scripted.honest .verify
    let second := ofSource (.ofEvents [.deliver packed] none) Snappy.mk .verify
    let operations : List ReaderOperation := [.readExact 3, .readUntil 0x62, .readExact 1]
    let replies : List ReaderReply :=
      [.bytes [0x61, 0x62, 0x61], .line [0x62] none, .failed (.fault .shortRead)]
    (first.run operations).map (·.1) = replies ∧ (second.run operations).map (·.1) = replies := by
  intro halves packed first second operations replies
  have data : Accepted Codec.Scripted.honest .verify (.ofEvents [.deliver halves] none)
      [0x61, 0x62, 0x61, 0x62] :=
    ⟨⟨halves, Source.signals_deliver halves⟩, by decide +kernel, by decide +kernel⟩
  have again : Accepted Snappy.mk .verify (.ofEvents [.deliver packed] none)
      [0x61, 0x62, 0x61, 0x62] :=
    ⟨⟨packed, Source.signals_deliver packed⟩, by decide +kernel, by decide +kernel⟩
  obtain ⟨known, same⟩ := boundaries_invisible Codec.Scripted.honest_input_only
    (Snappy.input_only Snappy.mk) data again [.exactly 3, .line 0x62, .exactly 1]
  exact ⟨known, same.symm.trans known⟩

end Reader

end FramedSnappy
