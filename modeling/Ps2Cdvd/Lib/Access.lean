import Mathlib.Data.List.Basic
import Mathlib.Tactic.Common

/-!
# Accesses to buffers of fixed sizes

A function that works on buffers of fixed sizes is described by the accesses that it
makes, each of them a number of cells of one buffer from an index on.  `Safe size l` says
that the accesses `l` stay inside; they are put together by `safe_nil`, `safe_cons`,
`safe_append` and `safe_map`.
-/

namespace Ps2Cdvd
namespace Lib

universe u v

section Access

/-- An access to `count` cells of a buffer, from the index `first` on. -/
structure Access (β : Type u) where
  buffer : β
  first : Int
  count : Nat

variable {β : Type u} {size : β → Nat}

def Access.Inside (size : β → Nat) (a : Access β) : Prop :=
  0 ≤ a.first ∧ a.first + a.count ≤ size a.buffer

/-- All accesses stay inside their buffers. -/
def Safe (size : β → Nat) (l : List (Access β)) : Prop := ∀ a ∈ l, a.Inside size

@[simp] theorem safe_nil : Safe size [] := by
  intro a ha
  cases ha

@[simp] theorem safe_cons
    {a : Access β} {l : List (Access β)} :
    Safe size (a :: l) ↔ a.Inside size ∧ Safe size l :=
  List.forall_mem_cons

@[simp] theorem safe_append
    {l m : List (Access β)} :
    Safe size (l ++ m) ↔ Safe size l ∧ Safe size m :=
  List.forall_mem_append

/-- Accesses that are made in a loop. -/
@[simp] theorem safe_map
    {ι : Type v} {f : ι → Access β} {l : List ι} :
    Safe size (l.map f) ↔ ∀ i ∈ l, (f i).Inside size :=
  List.forall_mem_map

end Access

end Lib
end Ps2Cdvd
