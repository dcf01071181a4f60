/-! How a call ends: with a value, with an error, or with an overrun. An overrun happens where a
codec has claimed more bytes than a buffer holds; there is nothing to report and nothing to go on
with. -/
namespace FramedSnappy

inductive Outcome (ε α : Type) where
  | done (value : α)
  | failed (error : ε)
  | overrun
  deriving DecidableEq

namespace Outcome

def mapError {ε δ α : Type} (f : ε → δ) : Outcome ε α → Outcome δ α
  | done value => done value
  | failed error => failed (f error)
  | overrun => overrun

end Outcome

end FramedSnappy
