import Mathlib.Data.List.Basic

/-! # A stream cut into chunks

`marks` gives each element of a chunk with whether the chunk ends with it, so that a stream that comes
in chunks is one list, which can be split anywhere. -/

namespace Chunks

variable {α : Type}

/-- The elements of a chunk, each with whether it is the last. -/
def marks : List α → List (α × Bool)
  | [] => []
  | a :: l => (a, l.isEmpty) :: marks l

/-- Where the chunks end. -/
def ends : List (List α) → List Bool := fun chunks => (chunks.flatMap marks).map (·.2)

@[simp] theorem marks_nil : marks ([] : List α) = [] := rfl

theorem marks_cons (a : α) (l : List α) : marks (a :: l) = (a, l.isEmpty) :: marks l := rfl

theorem marks_fst (l : List α) : (marks l).map (·.1) = l := by
  induction l with
  | nil => rfl
  | cons a l ih => rw [marks, List.map_cons, ih]

/-- Without the marks the stream is left. -/
theorem flatMap_marks (chunks : List (List α)) : (chunks.flatMap marks).map (·.1) = chunks.flatten := by
  rw [List.map_flatMap, List.flatMap_def]
  congr 1
  rw [List.map_congr_left fun l _ => marks_fst l, List.map_id']

end Chunks
