import Mathlib.Tactic

/-!
# Binary semaphores

A semaphore with one permit is a counter, and every party either holds the permit
or not.  `Held count holds o` says that `o` is the one that holds it.

* `Held.congr`: a step that moves nobody in or out keeps the holder;
* `Held.take`: whoever takes the permit, when the counter allows it, is the
  holder from then on;
* `Held.release`: when the holder gives it back there is none.
-/

namespace Ps2Cdvd
namespace Lib

universe u

section Semaphore

variable {ι : Type u}

/-- The permit is with `o`, or free. -/
structure Held (count : Nat) (holds : ι → Bool) (o : Option ι) : Prop where
  count : count = if o.isNone then 1 else 0
  holder : ∀ x, holds x = true ↔ o = some x

variable {count count' : Nat} {holds holds' : ι → Bool} {o : Option ι} {x : ι}

theorem Held.congr
    (h : Held count holds o)
    (hcount : count' = count)
    (hsame : ∀ y, holds' y = holds y) :
    Held count' holds' o := by
  refine ⟨hcount.trans h.count, ?_⟩
  intro y
  rw [hsame y]
  exact h.holder y

/-- A counter that is not zero says that the permit is free. -/
theorem Held.free
    (h : Held count holds o)
    (hpos : 0 < count) :
    o = none := by
  cases o with
  | none => rfl
  | some y =>
      have hcount : count = 0 := h.count
      omega

theorem Held.take
    (h : Held count holds o)
    (hpos : 0 < count)
    (hcount : count' = count - 1)
    (hself : holds' x = true)
    (hother : ∀ y, y ≠ x → holds' y = holds y) :
    Held count' holds' (some x) := by
  have hfree := h.free hpos
  subst hfree
  have hone : count = 1 := h.count
  refine ⟨?_, ?_⟩
  · rw [hcount, hone]
    rfl
  · intro y
    by_cases hy : y = x
    · subst hy
      simp [hself]
    · rw [hother y hy, h.holder y]
      simp [Ne.symm hy]

theorem Held.release
    (h : Held count holds o)
    (hheld : holds x = true)
    (hcount : count' = min (count + 1) 1)
    (hself : holds' x = false)
    (hother : ∀ y, y ≠ x → holds' y = holds y) :
    Held count' holds' none := by
  have hx := (h.holder x).mp hheld
  subst hx
  refine ⟨?_, ?_⟩
  · rw [hcount]
    simp
  · intro y
    by_cases hy : y = x
    · subst hy
      simp [hself]
    · rw [hother y hy, h.holder y]
      simp [Ne.symm hy]

/-- Two parties that hold the permit are the same. -/
theorem Held.unique
    {y : ι}
    (h : Held count holds o)
    (hx : holds x = true)
    (hy : holds y = true) :
    x = y := by
  have hox := (h.holder x).mp hx
  rw [(h.holder y).mp hy] at hox
  exact (Option.some.inj hox).symm

end Semaphore

end Lib
end Ps2Cdvd
