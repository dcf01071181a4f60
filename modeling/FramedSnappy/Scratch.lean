import FramedSnappy.Error

/-! A working buffer that is used again for every block. It grows with zeros up to a limit and is
never cleared, so bytes that nobody overwrites keep their values from earlier blocks. -/
namespace FramedSnappy

structure Scratch where
  data : Bytes
  limit : Nat
  deriving DecidableEq

namespace Scratch

def empty (limit : Nat) : Scratch := ⟨[], limit⟩

/-- Grows to `length` bytes if it is shorter. -/
def reserve (scratch : Scratch) (length : Nat) : Except Error Scratch :=
  if length > scratch.limit then .error (.blockTooLarge length scratch.limit)
  else if length ≤ scratch.data.length then .ok scratch
  else
    let missing := length - scratch.data.length
    .ok { scratch with data := scratch.data ++ List.replicate missing 0 }

def window (scratch : Scratch) (length : Nat) : Bytes := scratch.data.take length

/-- Writes from the start of a window of `length` bytes. -/
def store (scratch : Scratch) (length : Nat) (written : Bytes) : Scratch :=
  { scratch with
    data := Bytes.overlay written (scratch.window length) ++ scratch.data.drop length }

/-- The first `count` bytes, if there are so many. -/
def front (scratch : Scratch) (count : Nat) : Option Bytes :=
  if count ≤ scratch.data.length then some (scratch.data.take count) else none

end Scratch

end FramedSnappy
