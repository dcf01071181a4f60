import FramedSnappy.Proofs.Frame.Grammar

/-! What a frame can be refused for, and how much of its data section is gone by then. Some headers
are bad by themselves; behind any other one the whole data section is taken, or what there is of
it. -/
namespace FramedSnappy.Frame

/-- What a header alone is refused for. -/
inductive Barred (identified : Bool) (tag : UInt8) (length : Nat) : Error → Prop
  | early : identified = false → tag ≠ 0xff →
      Barred identified tag length (.missingStreamIdentifier tag)
  | identifier : tag = 0xff → length ≠ identifierBody.length →
      Barred identified tag length .invalidStreamIdentifier
  | long : identified = true → tag = 0x00 ∨ tag = 0x01 → lengthLimit tag < length →
      Barred identified tag length (.blockTooLarge length (lengthLimit tag))
  | short : identified = true → tag = 0x00 ∨ tag = 0x01 → length < checksumSize →
      Barred identified tag length (.noRoomForChecksum length)

/-- What a frame is refused for when its header is in order, and the bytes it takes behind the
header. A block that the codec does not decode may announce too long a result. -/
inductive Spoiled (decode : Bytes → Outcome Error Bytes) (policy : ChecksumPolicy) (tag : UInt8)
    (length : Nat) (body : Bytes) : Error → Nat → Prop
  | cut : body.length < length → Spoiled decode policy tag length body .unexpectedEof body.length
  | identifier : tag = 0xff → length ≤ body.length → body.take length ≠ identifierBody →
      Spoiled decode policy tag length body .invalidStreamIdentifier length
  | unskippable : tag ≠ 0x00 → tag ≠ 0x01 → tag < 0x80 → length ≤ body.length →
      Spoiled decode policy tag length body (.unskippableChunk tag) length
  | undecoded {e : Error} : tag = 0x00 → length ≤ body.length →
      decode ((body.take length).drop checksumSize) = .failed e →
      Spoiled decode policy tag length body e length
  | mismatched {content : Bytes} {e : Error} : tag = 0x00 ∨ tag = 0x01 → length ≤ body.length →
      (if tag = 0x01 then .done ((body.take length).drop checksumSize)
        else decode ((body.take length).drop checksumSize)) = .done content →
      policy.check (UInt32.ofNat (Bytes.ofLittleEndian (body.take checksumSize))) content =
        .error e →
      Spoiled decode policy tag length body e length

variable {decode : Bytes → Outcome Error Bytes} {policy : ChecksumPolicy} {identified : Bool}
  {tag : UInt8} {length : Nat} {body left : Bytes} {e : Error}

theorem Spoiled.count_le {count : Nat} (h : Spoiled decode policy tag length body e count) :
    count ≤ body.length := by
  cases h with
  | cut => exact Nat.le_refl _
  | identifier _ whole _ => exact whole
  | unskippable _ _ _ whole => exact whole
  | undecoded _ whole _ => exact whole
  | mismatched _ whole _ _ => exact whole

/-- The header is refused and nothing behind it is looked at, or the header is in order. -/
def Refused (decode : Bytes → Outcome Error Bytes) (policy : ChecksumPolicy) (identified : Bool)
    (tag : UInt8) (length : Nat) (body : Bytes) (e : Error) (left : Bytes) : Prop :=
  Barred identified tag length e ∧ left = body ∨
    (∀ e, ¬ Barred identified tag length e) ∧
      ∃ count, Spoiled decode policy tag length body e count ∧ left = body.drop count

theorem refused_identifier (h : judgeIdentifier none length body = .broken e left) :
    Refused decode policy identified 0xff length body e left := by
  unfold judgeIdentifier at h
  split at h
  · rename_i other
    cases h
    exact .inl ⟨.identifier rfl other, rfl⟩
  · rename_i fits
    have sound : ∀ e, ¬ Barred identified 0xff length e := by
      rintro e (⟨-, other⟩ | ⟨-, other⟩ | ⟨-, data | data, -⟩ | ⟨-, data | data, -⟩)
      · exact other rfl
      · exact fits other
      all_goals cases data
    right
    refine ⟨sound, ?_⟩
    split at h
    · rename_i short
      cases h
      exact ⟨_, .cut short, List.drop_length.symm⟩
    · rename_i whole
      split at h
      · rename_i wrong
        cases h
        exact ⟨_, .identifier rfl (Nat.not_lt.mp whole) wrong, rfl⟩
      · cases h

theorem refused_skipped (known : identified = true) (other : tag ≠ 0xff) (packed : tag ≠ 0x00)
    (raw : tag ≠ 0x01) (h : judgeSkipped none tag length body = .broken e left) :
    Refused decode policy identified tag length body e left := by
  have sound : ∀ e, ¬ Barred identified tag length e := by
    rintro e (⟨new, -⟩ | ⟨opening, -⟩ | ⟨-, data | data, -⟩ | ⟨-, data | data, -⟩)
    · cases known.symm.trans new
    · exact other opening
    · exact packed data
    · exact raw data
    · exact packed data
    · exact raw data
  right
  refine ⟨sound, ?_⟩
  unfold judgeSkipped at h
  split at h
  · rename_i short
    cases h
    exact ⟨_, .cut short, List.drop_length.symm⟩
  · rename_i whole
    split at h
    · rename_i low
      cases h
      exact ⟨_, .unskippable packed raw low (Nat.not_lt.mp whole), rfl⟩
    · cases h

theorem refused_block (known : identified = true) (carries : tag = 0x00 ∨ tag = 0x01)
    (h : judgeBlock decode policy none tag length body = .broken e left) :
    Refused decode policy identified tag length body e left := by
  unfold judgeBlock at h
  split at h
  · rename_i long
    cases h
    exact .inl ⟨.long known carries long, rfl⟩
  · rename_i most
    split at h
    · rename_i short
      cases h
      exact .inl ⟨.short known carries short, rfl⟩
    · rename_i least
      have sound : ∀ e, ¬ Barred identified tag length e := by
        rintro e (⟨new, -⟩ | ⟨opening, -⟩ | ⟨-, -, long⟩ | ⟨-, -, short⟩)
        · cases known.symm.trans new
        · rcases carries with rfl | rfl <;> cases opening
        · exact most long
        · exact least short
      right
      refine ⟨sound, ?_⟩
      split at h
      · rename_i short
        cases h
        exact ⟨_, .cut short, List.drop_length.symm⟩
      · rename_i whole
        have enough := Nat.not_lt.mp whole
        dsimp only at h
        split at h
        · rename_i failed
          cases h
          by_cases raw : tag = 0x01
          · rw [if_pos raw] at failed
            cases failed
          · rw [if_neg raw] at failed
            exact ⟨_, .undecoded (carries.resolve_right raw) enough failed, rfl⟩
        · cases h
        · rename_i content decoded
          split at h
          · rename_i wrong
            cases h
            exact ⟨_, .mismatched carries enough decoded wrong, rfl⟩
          · cases h

/-- Every refusal is one of these, and the verdict leaves over what it has not taken. -/
theorem refused_of_judge {low middle high : UInt8}
    (h : judge decode policy identified none (tag :: low :: middle :: high :: body) =
      .broken e left) :
    Refused decode policy identified tag (Bytes.ofLittleEndian [low, middle, high]) body e
      left := by
  simp only [judge] at h
  split at h
  · rename_i early
    cases h
    exact .inl ⟨.early (by simpa using early.1) early.2, rfl⟩
  · rename_i opened
    split at h
    · rename_i opening
      subst opening
      exact refused_identifier h
    · rename_i other
      have known : identified = true := by
        cases identified with
        | true => rfl
        | false => exact absurd ⟨Bool.false_ne_true, other⟩ opened
      split at h
      · rename_i carries
        exact refused_block known carries h
      · rename_i neither
        obtain ⟨packed, raw⟩ := not_or.mp neither
        exact refused_skipped known other packed raw h

end FramedSnappy.Frame
