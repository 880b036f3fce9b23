import Mathlib.Tactic
import Ps2Cdvd.Read.Requests

/-!
# The completion bit

Bit 1 of `intr_ef` and `sync_flag` say the same thing in two places: no read is
pending.  `cdvdman_common_lock` changes both in one critical section.  The reading
thread and `cdvdman_SyncRead` write `sync_flag = 0` first and call `SetEventFlag`
afterwards, and a request that is accepted in between leaves the bit set during
its read.

* `completionBit_announces`: when no call locks the drive between the two writes
  of a completion, the bit is set only while every accepted read is complete;
* `completionBit_stale`: a lock between them always makes a stale completion
  reachable, by the very next step of the party that completes.
-/

namespace Ps2Cdvd
namespace Requests

open Lib

universe u

section Announcing

variable {ι : Type u}

/-- No party is between `sync_flag = 0` and `SetEventFlag`. -/
def Settled (s : State ι) : Prop :=
  s.thread ≠ .setting ∧ ∀ i, s.caller i ≠ .setting

/-- A call locks the drive only when every completion has been announced. -/
def LocksSettled (s : State ι) : Act ι → Prop
  | .caller i => s.caller i = .entered → s.syncFlag = false → Settled s
  | .thread => True

instance instDecidableLocksSettled
    [Fintype ι] [DecidableEq ι] (s : State ι) :
    ∀ a, Decidable (LocksSettled s a)
  | .caller i =>
      inferInstanceAs
        (Decidable
          (s.caller i = .entered → s.syncFlag = false →
            (s.thread ≠ .setting ∧ ∀ j, s.caller j ≠ .setting)))
  | .thread => inferInstanceAs (Decidable True)

/-- What bit 1 of `intr_ef` stands for: the drive is not locked, every accepted
request has been executed, and nobody is executing one. -/
structure NothingPending (call : ι → Call) (s : State ι) : Prop where
  unlocked : s.syncFlag = false
  executed : AllExecuted call s
  thread : s.thread.holds = false
  caller : ∀ i, (s.caller i).holds = false

/-- While the drive is locked the bit is clear, and nobody is about to set it. -/
def BitClearWhileLocked (s : State ι) : Prop :=
  s.syncFlag = true → s.intrEf1 = false ∧ Settled s

theorem bitClearWhileLocked_initial :
    BitClearWhileLocked (initial ι) := by
  intro hlocked
  cases hlocked

variable {call : ι → Call}

/-- An unlocked drive has no owner, so nothing is pending. -/
theorem Inv.nothingPending
    {s : State ι}
    (h : Inv call s)
    (hunlocked : s.syncFlag = false) :
    NothingPending call s := by
  obtain ⟨o, ho⟩ := h.owner
  have hnobody : o = .nobody := by
    have hflag := ho.flag
    rw [hunlocked] at hflag
    cases o with
    | nobody => rfl
    | caller i => cases hflag
    | queued i => cases hflag
    | thread i => cases hflag
  subst hnobody
  refine ⟨hunlocked, ho.log, ?_, ?_⟩
  · cases hthread : s.thread.holds with
    | false => rfl
    | true =>
        obtain ⟨i, hi⟩ := ho.thread.mp hthread
        cases hi
  · intro i
    cases hcaller : (s.caller i).holds with
    | false => rfl
    | true => cases (ho.caller i).mp hcaller

theorem bitClearWhileLocked_threadStep
    {s t : State ι}
    (h : BitClearWhileLocked s)
    (ht : threadStep s = some t) :
    BitClearWhileLocked t := by
  cases hpc : s.thread with
  | waiting =>
      simp only [threadStep, hpc] at ht
      split_ifs at ht
      cases ht
      intro hlocked
      exact ⟨(h hlocked).1, by simp, (h hlocked).2.2⟩
  | clearing =>
      simp only [threadStep, hpc, Option.some.injEq] at ht
      subst ht
      intro hlocked
      cases hlocked
  | setting =>
      simp only [threadStep, hpc, Option.some.injEq] at ht
      subst ht
      intro hlocked
      exact absurd hpc (h hlocked).2.1
  | _ =>
      simp only [threadStep, hpc, Option.some.injEq] at ht
      subst ht
      intro hlocked
      exact ⟨(h hlocked).1, by simp, (h hlocked).2.2⟩

variable [DecidableEq ι] {altRead : Bool}

/-- Moving one call to a position other than `setting` keeps the state settled. -/
theorem Settled.goto
    {s : State ι} {i : ι} {pc : CallerPc}
    (h : Settled s)
    (hpc : pc ≠ .setting) :
    Settled (s.goto i pc) := by
  refine ⟨h.1, ?_⟩
  intro j
  by_cases hj : j = i
  · subst hj
    simpa [State.goto] using hpc
  · simpa [State.goto, hj] using h.2 j

theorem bitClearWhileLocked_callerStep
    {s t : State ι} {i : ι}
    (h : BitClearWhileLocked s)
    (hguard : LocksSettled s (.caller i))
    (ht : callerStep altRead call i s = some t) :
    BitClearWhileLocked t := by
  cases hpc : s.caller i with
  | entered =>
      cases hflag : s.syncFlag with
      | true =>
          simp only [callerStep, hpc, hflag, if_true, Option.some.injEq] at ht
          subst ht
          intro hlocked
          exact ⟨(h hflag).1, (h hflag).2.goto (by simp)⟩
      | false =>
          have hsettled : Settled s := hguard hpc hflag
          simp only [callerStep, hpc, hflag, Bool.false_eq_true, if_false] at ht
          -- the lock clears the bit in the critical section that sets the flag
          split_ifs at ht
          · cases ht
            intro _
            exact ⟨rfl, Settled.goto
              (s := { commonLock s i with cdread := (call i).args })
              hsettled (by simp)⟩
          · cases ht
            intro _
            exact ⟨rfl, Settled.goto (s := commonLock s i)
              hsettled (by simp)⟩
  | signalling =>
      simp only [callerStep, hpc, Option.some.injEq] at ht
      subst ht
      intro hlocked
      exact ⟨(h hlocked).1,
        Settled.goto (s := signalSema s) (h hlocked).2 (by simp)⟩
  | starting =>
      simp only [callerStep, hpc, Option.some.injEq] at ht
      subst ht
      intro hlocked
      exact ⟨(h hlocked).1,
        Settled.goto (s := { s with executed := s.executed ++ [(call i).args] })
          (h hlocked).2 (by simp)⟩
  | reading =>
      simp only [callerStep, hpc, Option.some.injEq] at ht
      subst ht
      intro hlocked
      exact ⟨(h hlocked).1, (h hlocked).2.goto (by simp)⟩
  | clearing =>
      simp only [callerStep, hpc, Option.some.injEq] at ht
      subst ht
      intro hlocked
      cases hlocked
  | setting =>
      simp only [callerStep, hpc, Option.some.injEq] at ht
      subst ht
      intro hlocked
      exact absurd hpc ((h hlocked).2.2 i)
  | returned r =>
      simp only [callerStep, hpc] at ht
      cases ht

theorem bitClearWhileLocked_of_reach
    {s : State ι}
    (hs : GuardedReach (step altRead call) LocksSettled (initial ι) s) :
    BitClearWhileLocked s := by
  refine hs.invariant bitClearWhileLocked_initial ?_
  intro u a t hu hguard ht
  cases a with
  | caller i => exact bitClearWhileLocked_callerStep hu hguard ht
  | thread => exact bitClearWhileLocked_threadStep hu ht

/-- **The completion bit announces nothing too early.**  In every run in which no
call locks the drive between `sync_flag = 0` and the `SetEventFlag` of a
completion, whoever sees bit 1 of `intr_ef` set sees it while no accepted read is
pending. -/
theorem completionBit_announces
    {s : State ι}
    (hs : GuardedReach (step altRead call) LocksSettled (initial ι) s)
    (hbit : s.intrEf1 = true) :
    NothingPending call s := by
  have hinv : Inv call s := Inv.of_reach (hs.mono fun _ _ _ => trivial)
  cases hflag : s.syncFlag with
  | false => exact hinv.nothingPending hflag
  | true =>
      have hclear := (bitClearWhileLocked_of_reach hs hflag).1
      rw [hbit] at hclear
      cases hclear

/-- Two reads by threads with `IOPCORE_COMPAT_ALT_READ` unset, one after the
other. -/
def twoReads : Bool → Call
  | false => ⟨⟨16, 1, 0x1000⟩, false, false⟩
  | true => ⟨⟨40, 8, 0x3000⟩, false, false⟩

/-- The second read is accepted, and completes, after the first one has been
announced. -/
theorem completionBit_announces_twoReads :
    ∃ s, runGuarded (step false twoReads) LocksSettled (initial Bool)
        [.caller false, .caller false, .thread, .thread, .thread, .thread, .thread,
          .caller true, .thread, .caller true, .thread, .thread, .thread, .thread,
          .thread] = some s ∧
      s.executed = [⟨16, 1, 0x1000⟩, ⟨40, 8, 0x3000⟩] ∧
      s.intrEf1 = true ∧
      NothingPending twoReads s := by
  have hrun :
      (runGuarded (step false twoReads) LocksSettled (initial Bool)
        [.caller false, .caller false, .thread, .thread, .thread, .thread, .thread,
          .caller true, .thread, .caller true, .thread, .thread, .thread, .thread,
          .thread]).map (fun s => (s.executed, s.intrEf1)) =
        some ([⟨16, 1, 0x1000⟩, ⟨40, 8, 0x3000⟩], true) := by
    decide +kernel
  obtain ⟨s, hs, hshown⟩ := Option.map_eq_some_iff.mp hrun
  have hexecuted := congrArg Prod.fst hshown
  have hbit := congrArg Prod.snd hshown
  exact ⟨s, hs, hexecuted, hbit,
    completionBit_announces (guardedReach_of_runGuarded _ hs) hbit⟩

/-- The second read is accepted after the thread's `sync_flag = 0` and before its
`SetEventFlag`: the bit is set while that read is pending. -/
theorem completionBit_stale_twoReads :
    ¬ ∀ s, Reach (step false twoReads) (initial Bool) s →
      s.intrEf1 = true → s.syncFlag = false := by
  intro hclaim
  have hrun :
      (runActs (step false twoReads) (initial Bool)
        [.caller false, .caller false, .thread, .thread, .thread, .thread,
          .caller true, .thread]).map (fun s => (s.intrEf1, s.syncFlag)) =
        some (true, true) := by
    decide +kernel
  obtain ⟨s, hs, hshown⟩ := Option.map_eq_some_iff.mp hrun
  have hbit : s.intrEf1 = true := congrArg Prod.fst hshown
  have hlocked : s.syncFlag = true := congrArg Prod.snd hshown
  have hfree := hclaim s (guardedReach_of_runGuarded _ hs) hbit
  rw [hlocked] at hfree
  cases hfree

/-- **The condition is exact.**  A call that locks the drive while a completion is
being announced makes a stale completion reachable: the party that announces is one
step away from setting the bit during the new read. -/
theorem completionBit_stale
    {s t : State ι} {a : Act ι}
    (hguard : ¬ LocksSettled s a)
    (ht : step altRead call s a = some t) :
    ∃ b u, step altRead call t b = some u ∧
      u.intrEf1 = true ∧ u.syncFlag = true := by
  cases a with
  | thread => exact absurd trivial hguard
  | caller i =>
      simp only [LocksSettled, not_forall] at hguard
      obtain ⟨hpc, hfree, hunsettled⟩ := hguard
      -- the lock moves nobody but `i`
      have hlock :
          t.syncFlag = true ∧ t.thread = s.thread ∧
            ∀ j, j ≠ i → t.caller j = s.caller j := by
        simp only [step, callerStep, hpc, hfree, Bool.false_eq_true,
          if_false] at ht
        split_ifs at ht
        · cases ht
          exact ⟨rfl, rfl, fun j hj => by simp [State.goto, commonLock, hj]⟩
        · cases ht
          exact ⟨rfl, rfl, fun j hj => by simp [State.goto, commonLock, hj]⟩
      obtain ⟨hlocked, hthread, hcaller⟩ := hlock
      by_cases hsetting : s.thread = .setting
      · refine ⟨.thread, { t with intrEf1 := true, thread := .callback }, ?_,
          rfl, hlocked⟩
        simp [step, threadStep, hthread, hsetting]
      · have hex : ∃ j, s.caller j = .setting := by
          by_contra hnone
          refine hunsettled ⟨hsetting, ?_⟩
          intro j hj
          exact hnone ⟨j, hj⟩
        obtain ⟨j, hj⟩ := hex
        have hne : j ≠ i := by
          rintro rfl
          rw [hpc] at hj
          cases hj
        refine ⟨.caller j,
          ({ t with intrEf1 := true } : State ι).goto j (.returned true), ?_,
          rfl, hlocked⟩
        simp [step, callerStep, hcaller j hne, hj]

end Announcing

end Requests
end Ps2Cdvd
