import Mathlib.Data.List.Basic
import Mathlib.Tactic.Common

/-!
# Ranges that are cut into pieces

A range of numbers is handed out in pieces, each of them a start and a positive count,
one behind the other.  `Tiles a b l` says that the pieces `l` make up the numbers from `a`
up to `b`.

* `Tiles.le`: a tiling goes upwards;
* `Tiles.existsUnique`: each number of the range is in exactly one piece.
-/

namespace Ps2Cdvd
namespace Lib

section Tiling

/-- The pieces lie one behind the other from `a` up to `b`. -/
def Tiles : (a b : Nat) → List (Nat × Nat) → Prop
  | a, b, [] => a = b
  | a, b, piece :: l => piece.1 = a ∧ 0 < piece.2 ∧ Tiles (a + piece.2) b l

/-- A number is in a piece. -/
def Inside (x : Nat) (piece : Nat × Nat) : Prop :=
  piece.1 ≤ x ∧ x < piece.1 + piece.2

variable {a b : Nat} {l : List (Nat × Nat)}

theorem Tiles.le (h : Tiles a b l) : a ≤ b := by
  induction l generalizing a with
  | nil => exact Nat.le_of_eq h
  | cons piece l ih =>
      obtain ⟨-, -, hrest⟩ := h
      exact Nat.le_trans (Nat.le_add_right _ _) (ih hrest)

/-- No piece of a tiling begins below it. -/
theorem Tiles.low
    (h : Tiles a b l)
    {piece : Nat × Nat}
    (hpiece : piece ∈ l) :
    a ≤ piece.1 := by
  induction l generalizing a with
  | nil => cases hpiece
  | cons first l ih =>
      obtain ⟨hfirst, -, hrest⟩ := h
      rcases List.mem_cons.mp hpiece with rfl | hmem
      · exact Nat.le_of_eq hfirst.symm
      · exact Nat.le_trans (Nat.le_add_right _ _) (ih hrest hmem)

/-- Each number of the range is in exactly one piece. -/
theorem Tiles.existsUnique
    (h : Tiles a b l)
    {x : Nat}
    (hlow : a ≤ x)
    (hhigh : x < b) :
    ∃! piece, piece ∈ l ∧ Inside x piece := by
  induction l generalizing a with
  | nil =>
      have hab : a = b := h
      omega
  | cons first l ih =>
      obtain ⟨hfirst, hpos, hrest⟩ := h
      by_cases hx : x < a + first.2
      · refine ⟨first, ⟨List.mem_cons_self, ⟨by omega, by omega⟩⟩, ?_⟩
        rintro piece ⟨hmem, hin⟩
        rcases List.mem_cons.mp hmem with rfl | hmem
        · rfl
        · have hbehind := hrest.low hmem
          have hstart := hin.1
          omega
      · obtain ⟨piece, ⟨hmem, hin⟩, hunique⟩ := ih hrest (Nat.le_of_not_lt hx)
        refine ⟨piece, ⟨List.mem_cons_of_mem _ hmem, hin⟩, ?_⟩
        rintro other ⟨hother, hotherIn⟩
        rcases List.mem_cons.mp hother with rfl | hother
        · have hend := hotherIn.2
          omega
        · exact hunique other ⟨hother, hotherIn⟩

end Tiling

end Lib
end Ps2Cdvd
