import FramedSnappy.Frame.Header
import FramedSnappy.Source.Exact

/-! Taking frames apart on a source: the next header, the data behind it, or the end between two
frames. Only before the first byte of a header may a stream end. -/
namespace FramedSnappy.Source

/-- The next header, or nothing when the source ends before it. -/
def readHeader (source : Source) : Except Error (Option Frame.Header) × Source :=
  match source.gather Frame.headerSize #[] with
  | (.error fault, after) => (.error (.io fault), after)
  | (.ok [], after) => (.ok none, after)
  | (.ok (tag :: field), after) =>
    if field.length + 1 < Frame.headerSize then (.error .unexpectedEof, after)
    else (.ok (some (.parse tag field)), after)

/-- Data inside a frame. -/
def readBody (source : Source) (length : Nat) : Except Error Bytes × Source :=
  match source.readExact length with
  | (.error fault, after) => (.error fault.insideFrame, after)
  | (.ok body, after) => (.ok body, after)

/-- Passes over data inside a frame, with calls for at most `portion` bytes. -/
def skipBodyBy (source : Source) (portion length : Nat) : Except Error Unit × Source :=
  match source.skip portion length with
  | (.error fault, after) => (.error fault.insideFrame, after)
  | (.ok missing, after) => (if missing = 0 then .ok () else .error .unexpectedEof, after)

def skipBody (source : Source) (length : Nat) : Except Error Unit × Source :=
  source.skipBodyBy 8192 length

theorem read_header_weight (source : Source) : source.readHeader.2.weight ≤ source.weight := by
  have := gather_weight source Frame.headerSize #[]
  unfold readHeader
  split
  · rename_i h
    simpa [h] using this
  · rename_i h
    simpa [h] using this
  · rename_i h
    split <;> simpa [h] using this

theorem read_header_some_weight {source after : Source} {header : Frame.Header}
    (h : source.readHeader = (.ok (some header), after)) : after.weight < source.weight := by
  unfold readHeader at h
  split at h
  · cases h
  · cases h
  · rename_i hg
    split at h
    · cases h
    · cases h
      have := gather_weight_ok hg
      simp only [List.length_cons, List.size_toArray, List.length_nil] at this
      omega

theorem read_body_weight (source : Source) (length : Nat) :
    (source.readBody length).2.weight ≤ source.weight := by
  have := read_exact_weight source length
  unfold readBody
  split <;> (rename_i h; simpa [h] using this)

theorem skip_body_by_weight (source : Source) (portion length : Nat) :
    (source.skipBodyBy portion length).2.weight ≤ source.weight := by
  have := skip_weight source portion length
  unfold skipBodyBy
  split <;> (rename_i h; simpa [h] using this)

end FramedSnappy.Source
