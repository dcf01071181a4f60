import FramedSnappy.Proofs.Codec.Scripted
import FramedSnappy.Proofs.Reader.Drain
import FramedSnappy.Proofs.Reader.Equations

/-! Reading to the end with a buffer of its own for every call. How the reading ends does not
depend on the sizes of the buffers, but how much is left waiting at a failure does: a read that
finds fewer bytes than it wants looks at the next frame first, and if this one is bad it says
nothing else. -/
namespace FramedSnappy.Reader

open FramedSnappy.Frame (Parsed)

variable {κ : Type}

/-- What reading to the end leaves of what is owed. Only the bytes that wait depend on the sizes of
the buffers, and they are fewer than the last call has wanted. -/
structure Drained (decode : Bytes → Outcome Error Bytes) (policy : ChecksumPolicy)
    (opened : Bool) (owed rest : Bytes) (sizes : Nat → Nat) (all : Collected κ) : Prop where
  ending : rest = [] ∧ all.ending = .done () ∧ all.reader.pending.toList = [] ∨
    ∃ e left, Frame.judge decode policy opened none rest = .broken e left ∧
      all.ending = .failed e.toStreamError
  total : all.bytes.toList ++ all.reader.pending.toList = owed
  last : ∃ call, all.calls = call + 1 ∧ all.reader.pending.length < sizes call

variable {decode : Bytes → Outcome Error Bytes} {policy : ChecksumPolicy} {opened : Bool}
  {owed rest : Bytes} {sizes others : Nat → Nat} {one other : Collected κ}

theorem Drained.ending_eq
    (mine : Drained decode policy opened owed rest sizes one)
    (yours : Drained decode policy opened owed rest others other) : one.ending = other.ending := by
  rcases mine.ending with ⟨empty, done, -⟩ | ⟨e, left, judged, failed⟩
  · rcases yours.ending with ⟨-, too, -⟩ | ⟨e, left, judged, -⟩
    · rw [done, too]
    · rw [empty] at judged
      cases judged
  · rcases yours.ending with ⟨empty, -, -⟩ | ⟨e', left', judged', failed'⟩
    · rw [empty] at judged
      cases judged
    · cases judged.symm.trans judged'
      rw [failed, failed']

theorem Drained.bytes_eq_iff
    (mine : Drained decode policy opened owed rest sizes one)
    (yours : Drained decode policy opened owed rest others other) :
    one.bytes = other.bytes ↔ one.reader.pending.length = other.reader.pending.length := by
  have same := mine.total.trans yours.total.symm
  have lengths := congrArg List.length same
  simp only [List.length_append, ByteQueue.length_to_list] at lengths
  constructor
  · intro equal
    rw [equal] at lengths
    exact Nat.add_left_cancel lengths
  · intro equal
    rw [equal] at lengths
    exact Array.toList_inj.mp (List.append_inj_left same (Nat.add_right_cancel lengths))

variable [Codec κ]

variable {reader : Reader κ} {frames : List Parsed}

/-- A reader on its way to `rest`, which it will judge as everyone does who knows what a block
decodes to. -/
structure Heads (decode : Bytes → Outcome Error Bytes) (policy : ChecksumPolicy) (opened : Bool)
    (reader : Reader κ) (frames : List Parsed) (rest : Bytes) : Prop where
  faces : reader.Faces frames rest
  fresh : reader.poisoned = false
  policy : reader.policy = policy
  opened : (reader.identified || ! frames.isEmpty) = opened
  decodes : ∀ now, reader.Keeps now → now.decode = decode
  inside : ∀ block, decode block ≠ .overrun

namespace Heads

theorem reaches {passed more : List Parsed} {after : Reader κ}
    (h : Heads decode policy opened reader (passed ++ more) rest)
    (reaches : Reaches reader passed after) (faces : after.Faces more rest) :
    Heads decode policy opened after more rest where
  faces := faces
  fresh := reaches.keeps.poisoned.trans h.fresh
  policy := reaches.keeps.policy.trans h.policy
  opened := by
    rw [← h.opened, reaches.identified]
    cases passed with
    | nil => simp
    | cons parsed passed => simp
  decodes now keeps := h.decodes now (reaches.keeps.trans keeps)
  inside := h.inside

theorem judged {middle : Reader κ} (h : Heads decode policy opened reader frames rest)
    (reaches : Reaches reader frames middle) :
    middle.Faces [] rest ∧ Frame.judge middle.decode middle.policy middle.identified none rest =
      Frame.judge decode policy opened none rest := by
  obtain ⟨more, split, behind⟩ := h.faces.reaches reaches
  obtain rfl : more = [] := List.append_cancel_left (split.symm.trans (List.append_nil _).symm)
  refine ⟨behind, ?_⟩
  rw [h.decodes _ reaches.keeps, reaches.keeps.policy, h.policy, reaches.identified, h.opened]

theorem read (h : Heads decode policy opened reader frames rest) {size : Nat}
    (positive : 0 < size) :
    (∃ data after more, reader.read size = (.done data, after) ∧
      Heads decode policy opened after more rest ∧
      data ++ after.owed more = reader.owed frames ∧
      (data = [] → reader.owed frames = [] ∧ rest = [])) ∨
    (∃ e left after, reader.read size = (.failed e.toStreamError, after) ∧
      Frame.judge decode policy opened none rest = .broken e left ∧
      after.pending.toList = reader.owed frames ∧ after.pending.length < size) := by
  have reads := read_reads h.faces h.fresh positive
  generalize reader.read size = result at reads ⊢
  cases reads with
  | served reaches split behind total last =>
    subst split
    exact .inl ⟨_, _, _, rfl, h.reaches reaches behind, total, last⟩
  | broken reaches breaks waits short =>
    obtain ⟨behind, same⟩ := h.judged reaches
    obtain ⟨-, left, judged⟩ := behind.breaks breaks
    exact .inr ⟨_, left, _, rfl, same.symm.trans judged, waits, short⟩
  | overrun reaches overruns =>
    obtain ⟨behind, same⟩ := h.judged reaches
    obtain ⟨-, left, judged⟩ := behind.overruns overruns
    exact absurd (same.symm.trans judged) (Frame.judge_inside h.inside)

end Heads

theorem collect_all_drained (heads : Heads decode policy opened reader frames rest)
    (positive : ∀ call, 0 < sizes call) (got : Array UInt8) (calls : Nat) :
    Drained decode policy opened (got.toList ++ reader.owed frames) rest sizes
      (reader.collectAll sizes got calls) := by
  fun_induction collectAll reader sizes got calls generalizing frames with
  | case1 reader got calls e after h =>
    rcases heads.read (positive calls) with ⟨data, other, more, served, -⟩ |
        ⟨e, left, other, failed, judged, waits, short⟩
    · cases h.symm.trans served
    · cases h.symm.trans failed
      exact ⟨.inr ⟨e, left, judged, rfl⟩, by rw [waits], calls, rfl, short⟩
  | case2 reader got calls after h =>
    rcases heads.read (positive calls) with ⟨data, other, more, served, -⟩ |
        ⟨e, left, other, failed, -⟩
    · cases h.symm.trans served
    · cases h.symm.trans failed
  | case3 reader got calls after h =>
    rcases heads.read (positive calls) with ⟨data, other, more, served, -, total, last⟩ |
        ⟨e, left, other, failed, -⟩
    · cases h.symm.trans served
      obtain ⟨none, behind⟩ := last rfl
      rw [none] at total ⊢
      have nothing : after.pending.toList ++ Frame.payload more = [] := total
      have waits := (List.append_eq_nil_iff.mp nothing).1
      refine ⟨.inl ⟨behind, rfl, waits⟩, by rw [waits], calls, rfl, ?_⟩
      rw [← ByteQueue.length_to_list, waits]
      exact positive calls
    · cases h.symm.trans failed
  | case4 reader got calls first more after h _ ih =>
    rcases heads.read (positive calls) with ⟨data, other, behind, served, next, total, -⟩ |
        ⟨e, left, other, failed, -⟩
    · cases h.symm.trans served
      have drained := ih next
      rwa [Array.toList_appendList, List.append_assoc, total] at drained
    · cases h.symm.trans failed

/-- Two callers who read to the end of the same bytes are told the same. What one of them has got
and what is left waiting for him is the same too, but he gets all of it only if nothing is left. -/
theorem read_sizes {codec : κ} (promise : Codec.InputOnly codec) (policy : ChecksumPolicy)
    {source : Source} {data : Bytes} (carries : source.signals = data.map .byte)
    {left right : Nat → Nat} (some : ∀ call, 0 < left call) (others : ∀ call, 0 < right call) :
    let first := ofSource source codec policy
    let one := first.drain left
    let other := first.drain right
    one.ending = other.ending ∧
    (one.bytes = other.bytes ↔ one.reader.pending.length = other.reader.pending.length) ∧
    ∃ frames rest, Frame.Stream (Codec.unpack codec) policy frames ∧
      data = Frame.wire frames ++ rest ∧
      Drained (Codec.unpack codec) policy (! frames.isEmpty) (Frame.payload frames) rest left one ∧
      Drained (Codec.unpack codec) policy (! frames.isEmpty) (Frame.payload frames) rest right
        other := by
  intro first one other
  obtain ⟨frames, rest, split, stream, blocked⟩ :=
    @Frame.exists_stream (Codec.unpack codec) policy data
  have faces : first.Faces frames rest := faces_of_stream promise (split ▸ carries) stream blocked
  have heads : Heads (Codec.unpack codec) policy (! frames.isEmpty) first frames rest :=
    ⟨faces, rfl, rfl, Bool.false_or _, fun now keeps =>
      funext (decode_input_only promise (keeps.fit faces.fit) keeps.codec),
      Codec.unpack_inside promise⟩
  have mine : Drained _ policy _ (Frame.payload frames) rest left one :=
    collect_all_drained heads some #[] 0
  have yours : Drained _ policy _ (Frame.payload frames) rest right other :=
    collect_all_drained heads others #[] 0
  exact ⟨mine.ending_eq yours, mine.bytes_eq_iff yours, frames, rest, stream, split, mine, yours⟩

/-- One byte is missing from the second header. -/
def cutSource : Source := .ofEvents [.deliver (Codec.Scripted.sample ++ [0x00])] none

theorem cut_read_told :
    let first := ofSource cutSource Codec.Scripted.honest .verify
    (first.drain fun _ => 1).ending = (first.drain fun call => call + 1).ending := by
  intro first
  exact (read_sizes Codec.Scripted.honest_input_only .verify (Source.signals_deliver _)
    (fun _ => Nat.one_pos) (fun call => call.succ_pos)).1

/-- A buffer that grows by a byte with every call costs the caller a byte. -/
theorem cut_read_loses :
    let first := ofSource cutSource Codec.Scripted.honest .verify
    let one := first.drain fun _ => 1
    let other := first.drain fun call => call + 1
    one.ending = other.ending ∧ one.bytes = #[0x61, 0x62] ∧ other.bytes = #[0x61] := by
  intro first one other
  have start : first.read 1 = (.done [0x61], (first.read 1).2) := Prod.ext (by decide +kernel) rfl
  generalize hm : (first.read 1).2 = middle at start
  have slow : middle.read 1 = (.done [0x62], (middle.read 1).2) :=
    Prod.ext (by subst hm; decide +kernel) rfl
  have fast : middle.read 2 = (.failed (.format .unexpectedEof), (middle.read 2).2) :=
    Prod.ext (by subst hm; decide +kernel) rfl
  generalize hl : (middle.read 1).2 = last at slow
  have late : last.read 1 = (.failed (.format .unexpectedEof), (last.read 1).2) :=
    Prod.ext (by subst hl hm; decide +kernel) rfl
  have careful : one = ⟨.failed (.format .unexpectedEof), #[0x61, 0x62], 3, (last.read 1).2⟩ := by
    rw [show one = first.collectAll (fun _ => 1) #[] 0 from rfl, collect_all_eq, start]
    dsimp only
    rw [collect_all_eq, slow]
    dsimp only
    rw [collect_all_eq, late]
    rfl
  have greedy : other = ⟨.failed (.format .unexpectedEof), #[0x61], 2, (middle.read 2).2⟩ := by
    rw [show other = first.collectAll (fun call => call + 1) #[] 0 from rfl, collect_all_eq,
      start]
    dsimp only
    rw [collect_all_eq, fast]
    rfl
  rw [careful, greedy]
  exact ⟨rfl, rfl, rfl⟩

end FramedSnappy.Reader
