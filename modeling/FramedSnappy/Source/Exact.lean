import FramedSnappy.Source.Basic

/-! Loops over single reads: collecting a wanted number of bytes, demanding all of them, and
passing over them in portions. Each makes an interrupted call again, and each ends because a call
that delivers or fails makes the source lighter. -/
namespace FramedSnappy.Source

/-- Bytes are added to `got` until none is wanted or the source has come to its end. What was
collected is lost when the source fails. -/
def gather (source : Source) (wanted : Nat) (got : Array UInt8) : Except Fault Bytes × Source :=
  if wanted = 0 then (.ok got.toList, source)
  else match h : source.read wanted with
    | (.error fault, after) =>
      have : after.weight < source.weight := read_weight_error h
      if fault.interrupted then after.gather wanted got else (.error fault, after)
    | (.ok [], after) => (.ok got.toList, after)
    | (.ok (first :: more), after) =>
      have : after.weight < source.weight := by
        have := read_weight_ok h
        simp only [List.length_cons] at this
        omega
      after.gather (wanted - (more.length + 1)) (got ++ first :: more)
termination_by source.weight

/-- All of `count` bytes; an early end is a fault of its own. -/
def readExact (source : Source) (count : Nat) : Except Fault Bytes × Source :=
  match source.gather count #[] with
  | (.error fault, after) => (.error fault, after)
  | (.ok got, after) =>
    if got.length < count then (.error .shortRead, after) else (.ok got, after)

/-- Reads `count` bytes in portions and keeps none. The answer is the number still missing when
the source has come to its end. -/
def skip (source : Source) (portion count : Nat) : Except Fault Nat × Source :=
  if count = 0 then (.ok 0, source)
  else match h : source.read (min portion count) with
    | (.error fault, after) =>
      have : after.weight < source.weight := read_weight_error h
      if fault.interrupted then after.skip portion count else (.error fault, after)
    | (.ok [], after) => (.ok count, after)
    | (.ok (first :: more), after) =>
      have : after.weight < source.weight := by
        have := read_weight_ok h
        simp only [List.length_cons] at this
        omega
      after.skip portion (count - (more.length + 1))
termination_by source.weight

theorem gather_weight_ok {source after : Source} {wanted : Nat} {got : Array UInt8}
    {bytes : Bytes} (h : source.gather wanted got = (.ok bytes, after)) :
    after.weight + bytes.length ≤ source.weight + got.size := by
  fun_induction gather source wanted got with
  | case1 =>
    cases h
    simp
  | case2 _ _ _ _ _ _ hr _ _ ih =>
    have := read_weight_error hr
    have := ih h
    omega
  | case3 => cases h
  | case4 _ _ _ _ _ hr =>
    cases h
    have := read_weight_ok hr
    simp only [Array.length_toList, List.length_nil] at this ⊢
    omega
  | case5 _ _ _ _ _ _ _ hr _ ih =>
    have := read_weight_ok hr
    have := ih h
    simp only [List.length_cons, ← Array.length_toList, Array.toList_appendList,
      List.length_append] at *
    omega

theorem gather_weight (source : Source) (wanted : Nat) (got : Array UInt8) :
    (source.gather wanted got).2.weight ≤ source.weight := by
  fun_induction gather source wanted got with
  | case1 => exact Nat.le_refl _
  | case2 _ _ _ _ _ _ hr _ _ ih =>
    have := read_weight_error hr
    omega
  | case3 _ _ _ _ _ _ hr =>
    exact Nat.le_of_lt (read_weight_error hr)
  | case4 _ _ _ _ _ hr =>
    have := read_weight_ok hr
    simp only [List.length_nil] at this
    omega
  | case5 _ _ _ _ _ _ _ hr _ ih =>
    have := read_weight_ok hr
    omega

theorem read_exact_weight (source : Source) (count : Nat) :
    (source.readExact count).2.weight ≤ source.weight := by
  have := gather_weight source count #[]
  unfold readExact
  split
  · rename_i h
    simpa [h] using this
  · rename_i h
    split <;> simpa [h] using this

theorem skip_weight (source : Source) (portion count : Nat) :
    (source.skip portion count).2.weight ≤ source.weight := by
  fun_induction skip source portion count with
  | case1 => exact Nat.le_refl _
  | case2 _ _ _ _ _ hr _ _ ih =>
    have := read_weight_error hr
    omega
  | case3 _ _ _ _ _ hr =>
    exact Nat.le_of_lt (read_weight_error hr)
  | case4 _ _ _ _ hr =>
    have := read_weight_ok hr
    simp only [List.length_nil] at this
    omega
  | case5 _ _ _ _ _ _ hr _ ih =>
    have := read_weight_ok hr
    omega

end FramedSnappy.Source
