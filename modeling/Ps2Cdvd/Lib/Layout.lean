import Mathlib.Data.List.GetD
import Ps2Cdvd.Lib.Memory

/-!
# Records that are laid out piece by piece

A builder lays the pieces of a record one behind the other into a memory.
`Laid back base top l m` says that from `base` on the memory holds the cells of `l`, and
behind them, up to `top`, what `back` says: what was there before, or a filling.

A piece that is written is `Laid.write`; one that is left as it was is `Laid.skip`, or
`Laid.fill` for a filling; and what is written before `base` changes nothing
(`Laid.below`).
-/

namespace Ps2Cdvd
namespace Lib

universe u

section Layout

variable {β : Type u}

/-- The cells from `base` up to `top` are those of `l`, and behind them those of
`back`. -/
def Laid (back : Nat → β) (base top : Nat) (l : List β) (m : Nat → β) : Prop :=
  ∀ i, base + i < top → m (base + i) = l.getD i (back (base + i))

variable
  {back m : Nat → β}
  {base top : Nat}
  {l : List β}

theorem laid_nil
    (h : ∀ x, base ≤ x → x < top → m x = back x) :
    Laid back base top [] m := by
  intro i hi
  exact h (base + i) (Nat.le_add_right _ _) hi

/-- The next piece is written. -/
theorem Laid.write
    (h : Laid back base top l m)
    (piece : List β) (f : Nat → β)
    (hf : ∀ (i : Nat) (hi : i < piece.length), f i = piece[i]) :
    Laid back base top (l ++ piece)
      (writeRange m (base + l.length) piece.length f) := by
  intro i hi
  by_cases hlow : i < l.length
  · rw [writeRange_outside _ _ (by omega), h i hi, List.getD_append _ _ _ _ hlow]
  · obtain ⟨k, rfl⟩ := Nat.exists_eq_add_of_le (Nat.le_of_not_lt hlow)
    rw [List.getD_append_right _ _ _ _ (by omega), Nat.add_sub_cancel_left]
    by_cases hin : k < piece.length
    · rw [← Nat.add_assoc, writeRange_inside _ _ _ hin, hf k hin,
        List.getD_eq_getElem _ _ hin]
    · rw [writeRange_outside _ _ (by omega), h _ hi, List.getD_eq_default _ _ (by omega),
        List.getD_eq_default _ _ (by omega)]

/-- The next piece is what is there. -/
theorem Laid.skip
    (h : Laid back base top l m)
    (piece : List β)
    (hback : ∀ (i : Nat) (hi : i < piece.length),
      piece[i] = back (base + (l.length + i))) :
    Laid back base top (l ++ piece) m := by
  intro i hi
  rw [h i hi]
  by_cases hlow : i < l.length
  · rw [List.getD_append _ _ _ _ hlow]
  · obtain ⟨k, rfl⟩ := Nat.exists_eq_add_of_le (Nat.le_of_not_lt hlow)
    rw [List.getD_append_right _ _ _ _ (by omega), Nat.add_sub_cancel_left,
      List.getD_eq_default _ _ (by omega)]
    by_cases hin : k < piece.length
    · rw [List.getD_eq_getElem _ _ hin, hback k hin]
    · rw [List.getD_eq_default _ _ (by omega)]

/-- A filling that is there already. -/
theorem Laid.fill
    {z : β}
    (h : Laid (fun _ => z) base top l m)
    (n : Nat) :
    Laid (fun _ => z) base top (l ++ List.replicate n z) m :=
  h.skip _ (fun _ _ => List.getElem_replicate _)

/-- A write before the record. -/
theorem Laid.below
    (h : Laid back base top l m)
    {pos n : Nat}
    (hpos : pos + n ≤ base)
    (f : Nat → β) :
    Laid back base top l (writeRange m pos n f) := by
  intro i hi
  rw [writeRange_outside _ _ (by omega)]
  exact h i hi

end Layout

end Lib
end Ps2Cdvd
