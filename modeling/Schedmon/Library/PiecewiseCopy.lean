import Mathlib.Data.List.Basic

/-!
# Records that are copied piece by piece

A structure assignment is not one memory access.  A record type with a
piecewise copy says into how many pieces an assignment falls and what each of
them writes, so that a concurrent reader can be shown a half-written record.
-/

namespace Library

/-- The pieces of an assignment `destination := source`. -/
class PiecewiseCopy (α : Type u) where
  /-- Number of pieces. -/
  pieces : Nat
  /-- The destination after one piece of the source has been written to it. -/
  copyPiece : Nat → α → α → α
  /-- All pieces together write the whole record. -/
  copy_all : ∀ source destination,
    (List.range pieces).foldl
      (fun partly piece => copyPiece piece source partly) destination = source

namespace PiecewiseCopy

variable [PiecewiseCopy α]

/-- The destination after the first `copied` pieces have been written. -/
def copyPrefix (copied : Nat) (source destination : α) : α :=
  (List.range copied).foldl
    (fun partly piece => copyPiece piece source partly) destination

@[simp] theorem copyPrefix_zero (source destination : α) :
    copyPrefix 0 source destination = destination := rfl

theorem copyPrefix_succ
    (copied : Nat)
    (source destination : α) :
    copyPrefix (copied + 1) source destination =
      copyPiece copied source (copyPrefix copied source destination) := by
  simp [copyPrefix, List.range_succ]

@[simp] theorem copyPrefix_pieces (source destination : α) :
    copyPrefix (pieces α) source destination = source :=
  copy_all source destination

end PiecewiseCopy
end Library
