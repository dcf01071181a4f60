import FramedSnappy.Source.Exact

/-! What a source says, apart from how it says it. The events of a script are flattened into
single bytes, faults and pauses; cuts between deliveries, empty deliveries and interruptions
leave no trace. Every loop over single reads depends on these signals alone. -/
namespace FramedSnappy

inductive Signal where
  | byte (value : UInt8)
  | fault (fault : Fault)
  | pause
  deriving DecidableEq

namespace Signal

def isByte : Signal → Bool
  | byte _ => true
  | _ => false

def bytes : List Signal → Bytes
  | [] => []
  | byte value :: rest => value :: bytes rest
  | _ :: rest => bytes rest

/-- The bytes before the first signal of another kind. -/
def front : List Signal → Bytes
  | byte value :: rest => value :: front rest
  | _ => []

def behind : List Signal → List Signal
  | byte _ :: rest => behind rest
  | signals => signals

/-- The fault that stands in front, if one does. A pause stops like the end. -/
def stop : List Signal → Option Fault
  | fault f :: _ => some f
  | _ => none

/-- Takes bytes until `wanted` are there or another signal, which is used up, ends it. -/
def gather : Nat → List Signal → Except Fault Bytes × List Signal
  | 0, signals => (.ok [], signals)
  | _ + 1, [] => (.ok [], [])
  | wanted + 1, byte value :: rest =>
    ((gather wanted rest).1.map (value :: ·), (gather wanted rest).2)
  | _ + 1, fault f :: rest => (.error f, rest)
  | _ + 1, pause :: rest => (.ok [], rest)

theorem bytes_append (left right : List Signal) :
    bytes (left ++ right) = bytes left ++ bytes right := by
  induction left with
  | nil => rfl
  | cons signal rest ih => cases signal <;> simp [bytes, ih]

@[simp] theorem bytes_map (data : Bytes) : bytes (data.map byte) = data := by
  induction data with
  | nil => rfl
  | cons first more ih => simp [bytes, ih]

theorem front_append_behind (signals : List Signal) :
    (front signals).map byte ++ behind signals = signals := by
  induction signals with
  | nil => rfl
  | cons signal rest ih => cases signal <;> simp [front, behind, ih]

@[simp] theorem front_behind (signals : List Signal) : front (behind signals) = [] := by
  induction signals with
  | nil => rfl
  | cons signal rest ih => cases signal <;> simp [front, behind, ih]

@[simp] theorem front_map_append (data : Bytes) (signals : List Signal) :
    front (data.map byte ++ signals) = data ++ front signals := by
  induction data with
  | nil => rfl
  | cons first more ih => simp [front, ih]

@[simp] theorem behind_map_append (data : Bytes) (signals : List Signal) :
    behind (data.map byte ++ signals) = behind signals := by
  induction data with
  | nil => rfl
  | cons first more ih => simp [behind, ih]

@[simp] theorem behind_behind (signals : List Signal) :
    behind (behind signals) = behind signals := by
  induction signals with
  | nil => rfl
  | cons signal rest ih => cases signal <;> simp [behind, ih]

theorem gather_map_append {wanted : Nat} (data : Bytes) (signals : List Signal)
    (enough : data.length ≤ wanted) :
    gather wanted (data.map byte ++ signals) =
      ((gather (wanted - data.length) signals).1.map (data ++ ·),
        (gather (wanted - data.length) signals).2) := by
  induction data generalizing wanted with
  | nil =>
    rcases h : gather wanted signals with ⟨result, after⟩
    cases result <;> simp [Except.map, h]
  | cons first more ih =>
    cases wanted with
    | zero => simp at enough
    | succ wanted =>
      have fewer : more.length ≤ wanted := by simpa using enough
      simp only [List.map_cons, List.cons_append, gather, ih fewer, List.length_cons,
        Nat.add_sub_add_right]
      cases (gather (wanted - more.length) signals).1 <;> simp [Except.map]

theorem gather_enough {wanted : Nat} {signals : List Signal}
    (enough : wanted ≤ (front signals).length) :
    gather wanted signals =
      (.ok ((front signals).take wanted),
        ((front signals).drop wanted).map byte ++ behind signals) := by
  induction signals generalizing wanted with
  | nil =>
    cases wanted with
    | zero => rfl
    | succ wanted => simp [front] at enough
  | cons signal rest ih =>
    cases wanted with
    | zero => simp [gather, front_append_behind]
    | succ wanted =>
      cases signal with
      | byte value =>
        have fewer : wanted ≤ (front rest).length := by simpa [front] using enough
        simp [gather, front, behind, ih fewer, Except.map]
      | fault f => simp [front] at enough
      | pause => simp [front] at enough

theorem gather_short {wanted : Nat} {signals : List Signal}
    (short : (front signals).length < wanted) :
    gather wanted signals =
      (match stop (behind signals) with
        | none => .ok (front signals)
        | some f => .error f, (behind signals).tail) := by
  induction signals generalizing wanted with
  | nil =>
    cases wanted with
    | zero => simp at short
    | succ wanted => rfl
  | cons signal rest ih =>
    cases wanted with
    | zero => simp at short
    | succ wanted =>
      cases signal with
      | byte value =>
        have shorter : (front rest).length < wanted := by simpa [front] using short
        simp only [gather, front, behind, ih shorter]
        cases stop (behind rest) <;> rfl
      | fault f => rfl
      | pause => rfl

end Signal

end FramedSnappy
