import Mathlib.Tactic
import Ps2Cdvd.Lib.Run

/-!
# Functions inside a semaphore

A function waits for a binary semaphore when it is entered, and signals it on its way
out, on all ways or only on some.  `body` is the function between the wait and the
return; `none` means that it does not return.  Requests come one after the other, and
nothing else signals the semaphore: while its count is 0 a request waits for ever.

* `releasesWhen_of_cases`: which requests leave the semaphore free follows from which
  single calls signal it.
-/

namespace Ps2Cdvd
namespace Lib

universe u v

section Locked

/-- A return: the result, how often the semaphore was signalled since the wait, and the
variables. -/
structure Exit (σ : Type u) where
  result : Int
  signals : Nat
  vars : σ

/-- The count of the semaphore and the variables that it protects. -/
structure Locked (σ : Type u) where
  count : Nat
  vars : σ

variable {σ : Type u} {ρ : Type v} (body : σ → ρ → Option (Exit σ))

/-- A request, when it gets through. -/
def request (s : Locked σ) (r : ρ) : Option (Locked σ) :=
  if s.count = 0 then none
  else (body s.vars r).map (fun e => ⟨min (s.count - 1 + e.signals) 1, e.vars⟩)

/-- A call that returns has signalled the semaphore once, exactly when `ok` holds of it.
So a request leaves the semaphore free for the next one exactly when `ok` holds, and as
long as it holds no request is blocked. -/
structure ReleasesWhen (ok : σ → ρ → Prop) : Prop where
  once : ∀ v r e, body v r = some e → (e.signals = 1 ↔ ok v r)
  next :
    ∀ v s r t, Reach (request body) ⟨1, v⟩ s → request body s r = some t →
      (t.count ≠ 0 ↔ ok s.vars r)
  free :
    ∀ v s, GuardedReach (request body) (fun s r => ok s.vars r) ⟨1, v⟩ s →
      s.count = 1

variable {body} {s t : Locked σ} {r : ρ}

theorem request_blocked
    (hcount : s.count = 0)
    (r : ρ) :
    request body s r = none := by
  rw [request, if_pos hcount]

/-- A request that gets through, and its call. -/
theorem request_cases
    (h : request body s r = some t) :
    s.count ≠ 0 ∧
      ∃ e, body s.vars r = some e ∧
        t = ⟨min (s.count - 1 + e.signals) 1, e.vars⟩ := by
  by_cases hcount : s.count = 0
  · rw [request_blocked hcount] at h
    cases h
  · rw [request, if_neg hcount] at h
    obtain ⟨e, he, ht⟩ := Option.map_eq_some_iff.mp h
    exact ⟨hcount, e, he, ht.symm⟩

/-- The count is never above one. -/
theorem count_le_one
    {v : σ}
    (h : Reach (request body) ⟨1, v⟩ s) :
    s.count ≤ 1 := by
  refine h.invariant (I := fun s => s.count ≤ 1) le_rfl ?_
  intro u r u' _ _ hu
  obtain ⟨-, e, -, rfl⟩ := request_cases hu
  exact Nat.min_le_right _ _

/-- A function that signals once where `ok` holds, and nowhere else. -/
theorem releasesWhen_of_cases
    {ok : σ → ρ → Prop}
    (hcases :
      ∀ v r e, body v r = some e →
        (e.signals = 1 ∧ ok v r) ∨ (e.signals = 0 ∧ ¬ ok v r)) :
    ReleasesWhen body ok := by
  have honce : ∀ v r e, body v r = some e → (e.signals = 1 ↔ ok v r) := by
    intro v r e he
    rcases hcases v r e he with ⟨hone, hok⟩ | ⟨hzero, hok⟩
    · exact iff_of_true hone hok
    · exact iff_of_false (by omega) hok
  refine ⟨honce, ?_, ?_⟩
  · intro v s r t hs ht
    have hcount := count_le_one hs
    obtain ⟨hpos, e, he, rfl⟩ := request_cases ht
    rcases hcases _ _ _ he with ⟨hone, hok⟩ | ⟨hzero, hok⟩
    · refine iff_of_true ?_ hok
      dsimp only
      omega
    · refine iff_of_false ?_ hok
      dsimp only
      omega
  · intro v s hs
    refine hs.invariant (I := fun s => s.count = 1) rfl ?_
    intro u r u' hu hok hstep
    obtain ⟨-, e, he, rfl⟩ := request_cases hstep
    have hone := (honce _ _ _ he).mpr hok
    dsimp only
    omega

end Locked

end Lib
end Ps2Cdvd
