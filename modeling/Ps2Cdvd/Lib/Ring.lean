import Ps2Cdvd.Lib.Memory

/-!
# Circular buffers

A circular buffer of `cap` cells holds a sequence from cell `start` on, wrapping
at the end.  The position of its `i`-th element is `ringIndex cap start i`, by a
comparison and a subtraction, as programs compute it.

`Holds cells cap start len f` says that the `len` elements are `f 0, f 1, …`.
Taking elements from the front is `Holds.drop`; a write to free cells changes
nothing (`Holds.write_free`); and once those cells hold the next elements the
sequence is longer (`Holds.extend`).
-/

namespace Ps2Cdvd
namespace Lib

universe u

section Index

/-- The cell of element `i` of a sequence that begins in cell `start`. -/
def ringIndex (cap start i : Nat) : Nat :=
  if start + i < cap then start + i else start + i - cap

variable {cap start i j k : Nat}

theorem ringIndex_lt
    (hstart : start < cap)
    (hi : i ≤ cap) :
    ringIndex cap start i < cap := by
  unfold ringIndex
  split_ifs
  · assumption
  · omega

@[simp] theorem ringIndex_zero (h : start < cap) :
    ringIndex cap start 0 = start := by
  simp [ringIndex, h]

/-- Elements are counted from any element before them. -/
theorem ringIndex_ringIndex
    (hstart : start < cap)
    (hk : k + i ≤ cap) :
    ringIndex cap (ringIndex cap start k) i = ringIndex cap start (k + i) := by
  unfold ringIndex
  split_ifs
  all_goals omega

/-- Inside a block that does not wrap the cells are consecutive. -/
theorem ringIndex_add_of_le
    (hblock : ringIndex cap start k + i < cap) :
    ringIndex cap start (k + i) = ringIndex cap start k + i := by
  unfold ringIndex at hblock ⊢
  split_ifs at hblock ⊢
  all_goals omega

end Index

section Contents

variable {β : Type u}

/-- The `len` elements from cell `start` on are `f 0, …, f (len - 1)`. -/
def Holds
    (cells : Nat → Option β) (cap start len : Nat) (f : Nat → β) : Prop :=
  ∀ i, i < len → cells (ringIndex cap start i) = some (f i)

variable
  {cells : Nat → Option β} {cap start len : Nat} {f : Nat → β}

theorem Holds.empty : Holds cells cap start 0 f := by
  intro i hi
  omega

/-- The sequence without its first `k` elements. -/
theorem Holds.drop
    {k : Nat}
    (h : Holds cells cap start len f)
    (hstart : start < cap)
    (hlen : len ≤ cap)
    (hk : k ≤ len) :
    Holds cells cap (ringIndex cap start k) (len - k) (fun i => f (k + i)) := by
  intro i hi
  rw [ringIndex_ringIndex hstart (by omega)]
  exact h (k + i) (by omega)

/-- A write to free cells behind the sequence changes no element. -/
theorem Holds.write_free
    {n : Nat} {g : Nat → Option β}
    (h : Holds cells cap start len f)
    (hroom : len + n ≤ cap) :
    Holds (writeRange cells (ringIndex cap start len) n g) cap start len f := by
  intro i hi
  have hout :
      ringIndex cap start i < ringIndex cap start len ∨
        ringIndex cap start len + n ≤ ringIndex cap start i := by
    unfold ringIndex
    split_ifs
    all_goals omega
  rw [writeRange_outside _ _ hout]
  exact h i hi

/-- Cells that hold the next elements, without wrapping, continue the sequence.
-/
theorem Holds.extend
    {n : Nat}
    (h : Holds cells cap start len f)
    (hblock : ringIndex cap start len + n ≤ cap)
    (hnext : ∀ j, j < n → cells (ringIndex cap start len + j) = some (f (len + j))) :
    Holds cells cap start (len + n) f := by
  intro i hi
  rcases Nat.lt_or_ge i len with hlt | hge
  · exact h i hlt
  · obtain ⟨j, rfl⟩ : ∃ j, i = len + j := ⟨i - len, by omega⟩
    rw [ringIndex_add_of_le (by omega)]
    exact hnext j (by omega)

end Contents

end Lib
end Ps2Cdvd
