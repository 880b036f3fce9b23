import Mathlib.Tactic
import Ps2Cdvd.Lib.Run

/-!
# Read requests and the reading thread

`sceCdRead` has two ways to serve a request.  `cdvdman_AsyncRead` locks the
drive (`sync_flag`), stores the request in `cdvdman_stat` and wakes the reading
thread through `cdrom_rthread_sema`; `cdvdman_SyncRead`, used by threads with
`IOPCORE_COMPAT_ALT_READ`, locks the drive and reads in the calling thread.

Every critical section, every semaphore and event call and every other write of
`sync_flag` is one step.  The calls are indexed by an arbitrary type `ι`, each
index standing for one call of `sceCdRead`, from whatever thread or handler.

The invariant `Inv` names the owner of the lock: nobody, a call, the semaphore
(a request queued for the reading thread) or the reading thread.

* `sceCdRead_exactlyOnce`: what was accepted is executed once, in order, and
  only that.
-/

namespace Ps2Cdvd
namespace Requests

open Lib

universe u

section Source

/-- The arguments of a read: `lsn`, `sectors` and `buf`. -/
structure ReadArgs where
  lsn : Nat
  sectors : Nat
  buf : Nat
deriving DecidableEq

/-- A call `sceCdRead(lsn, sectors, buf)`, with `QueryIntrContext()`; or a call
of `cdvdman_AsyncRead` by `StFillStreamBuffer`. -/
structure Call where
  args : ReadArgs
  intrContext : Bool
  streamFill : Bool

/-- Where a call of `sceCdRead` is. -/
inductive CallerPc
  | entered
  | signalling
  | starting
  | reading
  | clearing
  | setting
  | returned (result : Bool)
deriving DecidableEq

/-- Where `cdvdman_cdread_Thread` is. -/
inductive ThreadPc
  | waiting
  | starting
  | reading
  | clearing
  | setting
  | callback
deriving DecidableEq

/-- The shared variables, the position of every party, and the history: the
calls whose lock succeeded, the arguments of every `cdvdman_read`, and the
number of `SignalSema` calls and of returns from `WaitSema`. -/
structure State (ι : Type u) where
  syncFlag : Bool
  rthreadSema : Nat
  intrEf1 : Bool
  cdread : ReadArgs
  thread : ThreadPc
  caller : ι → CallerPc
  accepted : List ι
  executed : List ReadArgs
  signals : Nat
  wakeups : Nat

/-- After `cdvdman_create_semaphores` and `cdvdman_startThreads`. -/
def initial (ι : Type u) : State ι where
  syncFlag := false
  rthreadSema := 0
  intrEf1 := true
  cdread := ⟨0, 0, 0⟩
  thread := .waiting
  caller := fun _ => .entered
  accepted := []
  executed := []
  signals := 0
  wakeups := 0

/-- A step is a step of one call or of the reading thread. -/
inductive Act (ι : Type u)
  | caller (i : ι)
  | thread
deriving DecidableEq

variable {ι : Type u} [DecidableEq ι]

/-- The call `i` goes on at `pc`. -/
def State.goto (s : State ι) (i : ι) (pc : CallerPc) : State ι :=
  { s with caller := Function.update s.caller i pc }

/-- `cdvdman_common_lock`, when the drive is free. -/
def commonLock (s : State ι) (i : ι) : State ι :=
  { s with
    syncFlag := true
    intrEf1 := false
    accepted := s.accepted ++ [i] }

/-- `SignalSema(cdrom_rthread_sema)`: the maximum count is 1. -/
def signalSema (s : State ι) : State ι :=
  { s with
    rthreadSema := min (s.rthreadSema + 1) 1
    signals := s.signals + 1 }

/-- The next step of a call of `sceCdRead`. -/
def callerStep
    (altRead : Bool) (call : ι → Call) (i : ι) (s : State ι) :
    Option (State ι) :=
  match s.caller i with
  | .entered =>
      if s.syncFlag then
        some (s.goto i (.returned false))
      else if (call i).streamFill || !altRead || (call i).intrContext then
        -- `cdvdman_AsyncRead`
        some ({ commonLock s i with cdread := (call i).args }.goto i .signalling)
      else
        -- `cdvdman_SyncRead`
        some ((commonLock s i).goto i .starting)
  | .signalling =>
      some ((signalSema s).goto i (.returned true))
  | .starting =>
      some ({ s with executed := s.executed ++ [(call i).args] }.goto i .reading)
  | .reading =>
      some (s.goto i .clearing)
  | .clearing =>
      some ({ s with syncFlag := false }.goto i .setting)
  | .setting =>
      some ({ s with intrEf1 := true }.goto i (.returned true))
  | .returned _ => none

/-- The next step of `cdvdman_cdread_Thread`. -/
def threadStep (s : State ι) : Option (State ι) :=
  match s.thread with
  | .waiting =>
      if 0 < s.rthreadSema then
        some
          { s with
            rthreadSema := s.rthreadSema - 1
            wakeups := s.wakeups + 1
            thread := .starting }
      else none
  | .starting =>
      some { s with executed := s.executed ++ [s.cdread], thread := .reading }
  | .reading =>
      some { s with thread := .clearing }
  | .clearing =>
      some { s with syncFlag := false, thread := .setting }
  | .setting =>
      some { s with intrEf1 := true, thread := .callback }
  | .callback =>
      some { s with thread := .waiting }

/-- One step of the system. -/
def step (altRead : Bool) (call : ι → Call) (s : State ι) :
    Act ι → Option (State ι)
  | .caller i => callerStep altRead call i s
  | .thread => threadStep s

end Source

section Ownership

variable {ι : Type u}

/-- The positions of a call between its lock and the moment at which it hands
the lock on or clears `sync_flag`. -/
def CallerPc.holds : CallerPc → Bool
  | .signalling => true
  | .starting => true
  | .reading => true
  | .clearing => true
  | _ => false

/-- The positions of the reading thread between its wake-up and its clearing of
`sync_flag`. -/
def ThreadPc.holds : ThreadPc → Bool
  | .starting => true
  | .reading => true
  | .clearing => true
  | _ => false

/-- Who is responsible for a locked drive. -/
inductive Owner (ι : Type u)
  | nobody
  | caller (i : ι)
  | queued (i : ι)
  | thread (i : ι)

/-- `sync_flag` under an owner. -/
def Owner.locked : Owner ι → Bool
  | .nobody => false
  | _ => true

/-- The count of `cdrom_rthread_sema` under an owner. -/
def Owner.tokens : Owner ι → Nat
  | .queued _ => 1
  | _ => 0

/-- The request that an owner is responsible for. -/
def Owner.request : Owner ι → Option ι
  | .nobody => none
  | .caller i => some i
  | .queued i => some i
  | .thread i => some i

/-- Every accepted request has been executed. -/
def AllExecuted (call : ι → Call) (s : State ι) : Prop :=
  s.executed = s.accepted.map (fun i => (call i).args)

/-- Every accepted request but the last one, `i`, has been executed. -/
def AllButLast (call : ι → Call) (s : State ι) (i : ι) : Prop :=
  ∃ l, s.accepted = l ++ [i] ∧ s.executed = l.map (fun i => (call i).args)

/-- What has been executed, under an owner. -/
def LogOf (call : ι → Call) (s : State ι) : Owner ι → Prop
  | .nobody => AllExecuted call s
  | .caller i =>
      match s.caller i with
      | .signalling => AllButLast call s i ∧ s.cdread = (call i).args
      | .starting => AllButLast call s i
      | _ => AllExecuted call s
  | .queued i => AllButLast call s i ∧ s.cdread = (call i).args
  | .thread i =>
      match s.thread with
      | .starting => AllButLast call s i ∧ s.cdread = (call i).args
      | _ => AllExecuted call s

/-- `o` is the owner of the lock in `s`. -/
structure OwnedBy (call : ι → Call) (s : State ι) (o : Owner ι) : Prop where
  flag : s.syncFlag = o.locked
  sema : s.rthreadSema = o.tokens
  thread : s.thread.holds = true ↔ ∃ i, o = .thread i
  caller : ∀ j, (s.caller j).holds = true ↔ o = .caller j
  last : ∀ i, o.request = some i → s.accepted.getLast? = some i
  log : LogOf call s o

/-- The invariant of the read requests. -/
structure Inv (call : ι → Call) (s : State ι) : Prop where
  owner : ∃ o, OwnedBy call s o
  nodup : s.accepted.Nodup
  mem :
    ∀ i, i ∈ s.accepted ↔
      s.caller i ≠ .entered ∧ s.caller i ≠ .returned false
  wakeups : s.signals = s.wakeups + s.rthreadSema

variable {call : ι → Call}

theorem inv_initial : Inv call (initial ι) := by
  refine ⟨⟨.nobody, ?_⟩, ?_, ?_, rfl⟩
  · refine ⟨rfl, rfl, ?_, ?_, ?_, rfl⟩
    · simp [initial, ThreadPc.holds]
    · intro j
      simp [initial, CallerPc.holds]
    · intro i hi
      cases hi
  · exact List.nodup_nil
  · intro i
    simp [initial]

theorem OwnedBy.eq_caller
    {s : State ι} {o : Owner ι} {i : ι}
    (h : OwnedBy call s o)
    (hi : (s.caller i).holds = true) :
    o = .caller i :=
  (h.caller i).mp hi

theorem OwnedBy.eq_thread
    {s : State ι} {o : Owner ι}
    (h : OwnedBy call s o)
    (ht : s.thread.holds = true) :
    ∃ i, o = .thread i :=
  h.thread.mp ht

/-- A free drive has no owner. -/
theorem OwnedBy.eq_nobody
    {s : State ι} {o : Owner ι}
    (h : OwnedBy call s o)
    (hflag : s.syncFlag = false) :
    o = .nobody := by
  have hlocked := h.flag
  rw [hflag] at hlocked
  cases o with
  | nobody => rfl
  | caller i => cases hlocked
  | queued i => cases hlocked
  | thread i => cases hlocked

/-- A token is a queued request. -/
theorem OwnedBy.eq_queued
    {s : State ι} {o : Owner ι}
    (h : OwnedBy call s o)
    (hsema : 0 < s.rthreadSema) :
    ∃ i, o = .queued i := by
  have htokens := h.sema
  cases o with
  | nobody =>
      rw [htokens] at hsema
      exact absurd hsema (Nat.lt_irrefl 0)
  | caller i =>
      rw [htokens] at hsema
      exact absurd hsema (Nat.lt_irrefl 0)
  | queued i => exact ⟨i, rfl⟩
  | thread i =>
      rw [htokens] at hsema
      exact absurd hsema (Nat.lt_irrefl 0)

/-- The owner of a call that holds the lock. -/
theorem Inv.ownedBy_caller
    {s : State ι} {i : ι}
    (h : Inv call s)
    (hi : (s.caller i).holds = true) :
    OwnedBy call s (.caller i) := by
  obtain ⟨o, ho⟩ := h.owner
  have hoi := ho.eq_caller hi
  subst hoi
  exact ho

theorem AllButLast.allExecuted
    {s t : State ι} {i : ι}
    (h : AllButLast call s i)
    (haccepted : t.accepted = s.accepted)
    (hexecuted : t.executed = s.executed ++ [(call i).args]) :
    AllExecuted call t := by
  obtain ⟨l, hl, hdone⟩ := h
  unfold AllExecuted
  rw [haccepted, hexecuted, hl, hdone, List.map_append]
  rfl

/-- A step of the reading thread between `WaitSema` and the end of its loop
that changes no lock. -/
theorem inv_threadKeep
    {s : State ι} {i : ι} {pc : ThreadPc}
    (executed : List ReadArgs)
    (h : Inv call s)
    (ho : OwnedBy call s (.thread i))
    (hpc : pc = .reading ∨ pc = .clearing)
    (hlog : executed = s.accepted.map (fun i => (call i).args)) :
    Inv call { s with executed := executed, thread := pc } := by
  refine ⟨⟨.thread i, ho.flag, ho.sema, ?_, ho.caller, ho.last, ?_⟩, h.nodup,
    h.mem, h.wakeups⟩
  · rcases hpc with rfl | rfl
    · simp [ThreadPc.holds]
    · simp [ThreadPc.holds]
  · rcases hpc with rfl | rfl
    · exact hlog
    · exact hlog

/-- A step of the reading thread outside the lock. -/
theorem inv_threadIdle
    {s : State ι} {pc : ThreadPc}
    (intrEf1 : Bool)
    (h : Inv call s)
    (hthread : s.thread.holds = false)
    (hpc : pc.holds = false) :
    Inv call { s with intrEf1 := intrEf1, thread := pc } := by
  obtain ⟨⟨o, ho⟩, hnodup, hmem, hwake⟩ := h
  have hnot : ∀ i, o ≠ .thread i := by
    intro i hoi
    have hholds := ho.thread.mpr ⟨i, hoi⟩
    rw [hthread] at hholds
    cases hholds
  refine ⟨⟨o, ho.flag, ho.sema, ?_, ho.caller, ho.last, ?_⟩, hnodup, hmem,
    hwake⟩
  · simp [hpc, hnot]
  · have hlog := ho.log
    cases o with
    | nobody => exact hlog
    | caller i => exact hlog
    | queued i => exact hlog
    | thread i => exact absurd rfl (hnot i)

/-- Every step of the reading thread keeps the invariant. -/
theorem inv_threadStep
    {s t : State ι}
    (h : Inv call s)
    (ht : threadStep s = some t) :
    Inv call t := by
  obtain ⟨o, ho⟩ := h.owner
  cases hpc : s.thread with
  | waiting =>
      simp only [threadStep, hpc] at ht
      split_ifs at ht with hsema
      cases ht
      obtain ⟨i, rfl⟩ := ho.eq_queued hsema
      have hone : s.rthreadSema = 1 := ho.sema
      refine ⟨⟨.thread i, ho.flag, ?_, ?_, ?_, ho.last, ho.log⟩, h.nodup, h.mem,
        ?_⟩
      · simp [hone, Owner.tokens]
      · simp [ThreadPc.holds]
      · intro j
        simpa using ho.caller j
      · have hwake := h.wakeups
        show s.signals = s.wakeups + 1 + (s.rthreadSema - 1)
        omega
  | starting =>
      simp only [threadStep, hpc, Option.some.injEq] at ht
      subst ht
      obtain ⟨i, rfl⟩ := ho.eq_thread (by rw [hpc]; rfl)
      have hlog := ho.log
      simp only [LogOf, hpc] at hlog
      obtain ⟨hlast, hargs⟩ := hlog
      refine inv_threadKeep _ h ho (Or.inl rfl) ?_
      exact hlast.allExecuted
        (t := { s with executed := s.executed ++ [s.cdread] }) rfl
        (by rw [hargs])
  | reading =>
      simp only [threadStep, hpc, Option.some.injEq] at ht
      subst ht
      obtain ⟨i, rfl⟩ := ho.eq_thread (by rw [hpc]; rfl)
      have hlog := ho.log
      simp only [LogOf, hpc] at hlog
      exact inv_threadKeep s.executed h ho (Or.inr rfl) hlog
  | clearing =>
      simp only [threadStep, hpc, Option.some.injEq] at ht
      subst ht
      obtain ⟨i, rfl⟩ := ho.eq_thread (by rw [hpc]; rfl)
      have hlog := ho.log
      simp only [LogOf, hpc] at hlog
      refine ⟨⟨.nobody, rfl, ho.sema, ?_, ?_, ?_, hlog⟩, h.nodup, h.mem,
        h.wakeups⟩
      · simp [ThreadPc.holds]
      · intro j
        simpa using ho.caller j
      · intro j hj
        cases hj
  | setting =>
      simp only [threadStep, hpc, Option.some.injEq] at ht
      subst ht
      exact inv_threadIdle true h (by rw [hpc]; rfl) rfl
  | callback =>
      simp only [threadStep, hpc, Option.some.injEq] at ht
      subst ht
      exact inv_threadIdle s.intrEf1 h (by rw [hpc]; rfl) rfl

end Ownership

section Steps

variable {ι : Type u} [DecidableEq ι] {call : ι → Call} {altRead : Bool}

/-- Only the call that moves can become or cease to be the owner. -/
theorem holds_goto
    {s : State ι} {o o' : Owner ι} {i : ι} {pc : CallerPc}
    (h : ∀ j, (s.caller j).holds = true ↔ o = .caller j)
    (hi : pc.holds = true ↔ o' = .caller i)
    (hj : ∀ j, j ≠ i → (o' = .caller j ↔ o = .caller j)) :
    ∀ j, ((s.goto i pc).caller j).holds = true ↔ o' = .caller j := by
  intro j
  by_cases hji : j = i
  · subst hji
    simpa [State.goto] using hi
  · simpa [State.goto, hji, hj j hji] using h j

/-- A move between two positions of a call that is not entered and not refused
keeps the calls accepted. -/
theorem mem_goto
    {s : State ι} {i : ι} {pc : CallerPc}
    (h : ∀ j, j ∈ s.accepted ↔
      s.caller j ≠ .entered ∧ s.caller j ≠ .returned false)
    (hi : s.caller i ≠ .entered ∧ s.caller i ≠ .returned false ↔
      pc ≠ .entered ∧ pc ≠ .returned false) :
    ∀ j, j ∈ (s.goto i pc).accepted ↔
      (s.goto i pc).caller j ≠ .entered ∧
        (s.goto i pc).caller j ≠ .returned false := by
  intro j
  by_cases hji : j = i
  · subst hji
    rw [show (s.goto j pc).accepted = s.accepted from rfl, h j, hi]
    simp [State.goto]
  · simpa [State.goto, hji] using h j

/-- A call that does not hold the drive goes on without it; bit 1 may change. -/
theorem inv_apart
    {s : State ι} {i : ι} {pc : CallerPc}
    (intrEf1 : Bool)
    (h : Inv call s)
    (hwas : (s.caller i).holds = false)
    (his : pc.holds = false)
    (haccepted :
      s.caller i ≠ .entered ∧ s.caller i ≠ .returned false ↔
        pc ≠ .entered ∧ pc ≠ .returned false) :
    Inv call ({ s with intrEf1 := intrEf1 }.goto i pc) := by
  obtain ⟨⟨o, ho⟩, hnodup, hmem, hwake⟩ := h
  have hnot : o ≠ .caller i := by
    intro hoi
    have hholds := (ho.caller i).mpr hoi
    rw [hwas] at hholds
    cases hholds
  refine ⟨⟨o, ho.flag, ho.sema, ho.thread, ?_, ho.last, ?_⟩, hnodup, ?_, hwake⟩
  · apply holds_goto (s := { s with intrEf1 := intrEf1 }) ho.caller
    · simp [his, hnot]
    · exact fun j _ => Iff.rfl
  · have hlog := ho.log
    cases o with
    | nobody => exact hlog
    | caller j =>
        have hji : j ≠ i := fun h => hnot (h ▸ rfl)
        simpa [LogOf, State.goto, hji, AllButLast, AllExecuted] using hlog
    | queued j => exact hlog
    | thread j => exact hlog
  · exact mem_goto (s := { s with intrEf1 := intrEf1 }) hmem haccepted

/-- A refused call changes its own position only. -/
theorem inv_refused
    {s : State ι} {i : ι}
    (h : Inv call s)
    (hpc : s.caller i = .entered) :
    Inv call (s.goto i (.returned false)) :=
  inv_apart s.intrEf1 h (by rw [hpc]; rfl) rfl (by simp [hpc])

/-- The lock of a free drive by the call `i`, in either variant. -/
theorem inv_lock
    {s : State ι} {i : ι} {pc : CallerPc}
    (cdread : ReadArgs)
    (h : Inv call s)
    (hpc : s.caller i = .entered)
    (hflag : s.syncFlag = false)
    (hvariant :
      (pc = .signalling ∧ cdread = (call i).args) ∨ pc = .starting) :
    Inv call ({ commonLock s i with cdread := cdread }.goto i pc) := by
  obtain ⟨⟨o, ho⟩, hnodup, hmem, hwake⟩ := h
  have hnobody := ho.eq_nobody hflag
  subst hnobody
  have hholds : pc.holds = true := by
    rcases hvariant with ⟨rfl, -⟩ | rfl
    · rfl
    · rfl
  have hlast :
      AllButLast call
        ({ commonLock s i with cdread := cdread }.goto i pc) i :=
    ⟨s.accepted, rfl, ho.log⟩
  refine ⟨⟨.caller i, rfl, ho.sema, ?_, ?_, ?_, ?_⟩, ?_, ?_, hwake⟩
  · have hthread := ho.thread
    simpa [State.goto, commonLock] using hthread
  · apply holds_goto (s := { commonLock s i with cdread := cdread }) ho.caller
    · simp [hholds]
    · intro j hj
      simp [Ne.symm hj]
  · rintro j ⟨⟩
    exact List.getLast?_concat
  · rcases hvariant with ⟨rfl, rfl⟩ | rfl
    · simp only [LogOf, State.goto, Function.update_self]
      exact ⟨hlast, trivial⟩
    · simp only [LogOf, State.goto, Function.update_self]
      exact hlast
  · have hi : i ∉ s.accepted := by
      simp [hmem i, hpc]
    show (s.accepted ++ [i]).Nodup
    exact List.nodup_append.mpr
      ⟨hnodup, by simp, by
        intro a ha b hb
        rw [List.mem_singleton] at hb
        rintro rfl
        exact hi (hb ▸ ha)⟩
  · intro j
    by_cases hji : j = i
    · subst hji
      rcases hvariant with ⟨rfl, -⟩ | rfl
      · simp [State.goto, commonLock]
      · simp [State.goto, commonLock]
    · simpa [State.goto, commonLock, hji] using hmem j

/-- `SignalSema` by the call `i` hands its request to the semaphore. -/
theorem inv_signal
    {s : State ι} {i : ι}
    (h : Inv call s)
    (hpc : s.caller i = .signalling) :
    Inv call ((signalSema s).goto i (.returned true)) := by
  have ho : OwnedBy call s (.caller i) :=
    h.ownedBy_caller (by rw [hpc]; rfl)
  have hsema : s.rthreadSema = 0 := ho.sema
  have hlog := ho.log
  simp only [LogOf, hpc] at hlog
  refine ⟨⟨.queued i, ho.flag, ?_, ?_, ?_, ho.last, hlog⟩, h.nodup, ?_, ?_⟩
  · simp [State.goto, signalSema, hsema, Owner.tokens]
  · have hthread := ho.thread
    simpa [State.goto, signalSema] using hthread
  · apply holds_goto (s := signalSema s) ho.caller
    · simp [CallerPc.holds]
    · intro j hj
      simp [Ne.symm hj]
  · apply mem_goto (s := signalSema s) h.mem
    simp [signalSema, hpc]
  · have hwake := h.wakeups
    simp only [State.goto, signalSema]
    omega

/-- A call that keeps the lock and executes nothing. -/
theorem inv_keep
    {s : State ι} {i : ι} {pc : CallerPc}
    (executed : List ReadArgs)
    (h : Inv call s)
    (hholds : (s.caller i).holds = true)
    (hpc : pc = .reading ∨ pc = .clearing)
    (hlog : executed = s.accepted.map (fun i => (call i).args)) :
    Inv call ({ s with executed := executed }.goto i pc) := by
  have ho := h.ownedBy_caller hholds
  have hkeeps : pc.holds = true := by
    rcases hpc with rfl | rfl
    · rfl
    · rfl
  refine ⟨⟨.caller i, ho.flag, ho.sema, ho.thread, ?_, ho.last, ?_⟩, h.nodup, ?_,
    h.wakeups⟩
  · apply holds_goto (s := { s with executed := executed }) ho.caller
    · simp [hkeeps]
    · intro j _
      exact Iff.rfl
  · rcases hpc with rfl | rfl
    · simp only [LogOf, State.goto, Function.update_self]
      exact hlog
    · simp only [LogOf, State.goto, Function.update_self]
      exact hlog
  · apply mem_goto (s := { s with executed := executed }) h.mem
    have hleft : s.caller i ≠ .entered ∧ s.caller i ≠ .returned false := by
      constructor
      · intro heq
        rw [heq] at hholds
        cases hholds
      · intro heq
        rw [heq] at hholds
        cases hholds
    have hright : pc ≠ .entered ∧ pc ≠ .returned false := by
      rcases hpc with rfl | rfl
      · simp
      · simp
    exact ⟨fun _ => hright, fun _ => hleft⟩

/-- The call `i` clears `sync_flag`. -/
theorem inv_clear
    {s : State ι} {i : ι}
    (h : Inv call s)
    (hpc : s.caller i = .clearing) :
    Inv call ({ s with syncFlag := false }.goto i .setting) := by
  have ho : OwnedBy call s (.caller i) :=
    h.ownedBy_caller (by rw [hpc]; rfl)
  have hlog := ho.log
  simp only [LogOf, hpc] at hlog
  refine ⟨⟨.nobody, rfl, ho.sema, ?_, ?_, ?_, hlog⟩, h.nodup, ?_, h.wakeups⟩
  · have hthread := ho.thread
    simpa [State.goto] using hthread
  · apply holds_goto (s := { s with syncFlag := false }) ho.caller
    · simp [CallerPc.holds]
    · intro j hj
      simp [Ne.symm hj]
  · intro j hj
    cases hj
  · apply mem_goto (s := { s with syncFlag := false }) h.mem
    simp [hpc]

/-- The last step of a call that reads itself. -/
theorem inv_set
    {s : State ι} {i : ι}
    (h : Inv call s)
    (hpc : s.caller i = .setting) :
    Inv call ({ s with intrEf1 := true }.goto i (.returned true)) :=
  inv_apart true h (by rw [hpc]; rfl) rfl (by simp [hpc])

/-- Every step of a call keeps the invariant. -/
theorem inv_callerStep
    {s t : State ι} {i : ι}
    (h : Inv call s)
    (ht : callerStep altRead call i s = some t) :
    Inv call t := by
  cases hpc : s.caller i with
  | entered =>
      simp only [callerStep, hpc] at ht
      cases hflag : s.syncFlag with
      | true =>
          simp only [hflag, if_true, Option.some.injEq] at ht
          subst ht
          exact inv_refused h hpc
      | false =>
          simp only [hflag, Bool.false_eq_true, if_false] at ht
          split_ifs at ht with hasync
          · cases ht
            exact inv_lock _ h hpc hflag (Or.inl ⟨rfl, rfl⟩)
          · cases ht
            exact inv_lock s.cdread h hpc hflag (Or.inr rfl)
  | signalling =>
      simp only [callerStep, hpc, Option.some.injEq] at ht
      subst ht
      exact inv_signal h hpc
  | starting =>
      simp only [callerStep, hpc, Option.some.injEq] at ht
      subst ht
      have hlog := (h.ownedBy_caller (by rw [hpc]; rfl)).log
      simp only [LogOf, hpc] at hlog
      exact inv_keep _ h (by rw [hpc]; rfl) (Or.inl rfl)
        (hlog.allExecuted (t := { s with
          executed := s.executed ++ [(call i).args] }) rfl rfl)
  | reading =>
      simp only [callerStep, hpc, Option.some.injEq] at ht
      subst ht
      have hlog := (h.ownedBy_caller (by rw [hpc]; rfl)).log
      simp only [LogOf, hpc] at hlog
      exact inv_keep s.executed h (by rw [hpc]; rfl) (Or.inr rfl) hlog
  | clearing =>
      simp only [callerStep, hpc, Option.some.injEq] at ht
      subst ht
      exact inv_clear h hpc
  | setting =>
      simp only [callerStep, hpc, Option.some.injEq] at ht
      subst ht
      exact inv_set h hpc
  | returned r =>
      simp only [callerStep, hpc] at ht
      cases ht

/-- Every step keeps the invariant. -/
theorem Inv.next
    {s t : State ι} {a : Act ι}
    (h : Inv call s)
    (ht : step altRead call s a = some t) :
    Inv call t := by
  cases a with
  | caller i => exact inv_callerStep h ht
  | thread => exact inv_threadStep h ht

/-- The invariant holds in every reachable state. -/
theorem Inv.of_reach
    {s : State ι}
    (h : Reach (step altRead call) (initial ι) s) :
    Inv call s := by
  refine h.invariant inv_initial ?_
  intro u a t hu _ ht
  exact hu.next ht

end Steps

section Execution

variable {ι : Type u} {call : ι → Call}

/-- The call `i` was accepted and a `cdvdman_read` has been made for it. -/
def Executed (s : State ι) (i : ι) : Prop :=
  i ∈ s.accepted.take s.executed.length

/-- A `cdvdman_read` is running in the call or in the reading thread. -/
def InFlight (s : State ι) : Act ι → Prop
  | .caller i => s.caller i = .reading
  | .thread => s.thread = .reading

/-- What holds at any time of the requests made so far: the `k`-th `cdvdman_read`
serves the `k`-th accepted call with that call's own arguments, at most the last
accepted call is still to be served, one read runs at a time, and the semaphore
holds every wake-up that has not been taken. -/
structure ExactlyOnce (call : ι → Call) (s : State ι) : Prop where
  nodup : s.accepted.Nodup
  inOrder :
    s.executed =
      (s.accepted.take s.executed.length).map (fun i => (call i).args)
  atMostOnePending : s.accepted.length ≤ s.executed.length + 1
  returnedOne : ∀ i, s.caller i = .returned true → i ∈ s.accepted
  returnedZero : ∀ i, s.caller i = .returned false → i ∉ s.accepted
  oneInFlight : ∀ a b, InFlight s a → InFlight s b → a = b
  wakeups : s.signals = s.wakeups + s.rthreadSema
  oneToken : s.rthreadSema ≤ 1

/-- All accepted requests are executed, or all but the last. -/
theorem Inv.log_cases
    {s : State ι}
    (h : Inv call s) :
    AllExecuted call s ∨ ∃ i, AllButLast call s i := by
  obtain ⟨o, ho⟩ := h.owner
  have hlog := ho.log
  cases o with
  | nobody => exact Or.inl hlog
  | caller i =>
      simp only [LogOf] at hlog
      split at hlog
      · exact Or.inr ⟨i, hlog.1⟩
      · exact Or.inr ⟨i, hlog⟩
      · exact Or.inl hlog
  | queued i => exact Or.inr ⟨i, hlog.1⟩
  | thread i =>
      simp only [LogOf] at hlog
      split at hlog
      · exact Or.inr ⟨i, hlog.1⟩
      · exact Or.inl hlog

theorem Inv.oneInFlight
    {s : State ι}
    (h : Inv call s)
    {a b : Act ι}
    (ha : InFlight s a)
    (hb : InFlight s b) :
    a = b := by
  obtain ⟨o, ho⟩ := h.owner
  cases a with
  | caller i =>
      have hi : s.caller i = .reading := ha
      have hoi := ho.eq_caller (i := i) (by rw [hi]; rfl)
      cases b with
      | caller j =>
          have hj : s.caller j = .reading := hb
          have hoj := ho.eq_caller (i := j) (by rw [hj]; rfl)
          rw [hoi] at hoj
          cases hoj
          rfl
      | thread =>
          have ht : s.thread = .reading := hb
          obtain ⟨j, hoj⟩ := ho.eq_thread (by rw [ht]; rfl)
          rw [hoi] at hoj
          cases hoj
  | thread =>
      have ht : s.thread = .reading := ha
      obtain ⟨j, hoj⟩ := ho.eq_thread (by rw [ht]; rfl)
      cases b with
      | caller i =>
          have hi : s.caller i = .reading := hb
          have hoi := ho.eq_caller (i := i) (by rw [hi]; rfl)
          rw [hoi] at hoj
          cases hoj
      | thread => rfl

theorem Inv.exactlyOnce
    {s : State ι}
    (h : Inv call s) :
    ExactlyOnce call s := by
  have horder :
      s.executed =
          (s.accepted.take s.executed.length).map (fun i => (call i).args) ∧
        s.accepted.length ≤ s.executed.length + 1 := by
    rcases h.log_cases with hall | ⟨i, l, hacc, hexec⟩
    · have hlen : s.executed.length = s.accepted.length := by
        rw [hall, List.length_map]
      constructor
      · rw [hlen, List.take_length]
        exact hall
      · omega
    · have hlen : s.executed.length = l.length := by
        rw [hexec, List.length_map]
      constructor
      · rw [hlen, hacc, List.take_left]
        exact hexec
      · rw [hacc, List.length_append]
        simp [hlen]
  refine ⟨h.nodup, horder.1, horder.2, ?_, ?_, ?_, h.wakeups, ?_⟩
  · intro i hi
    rw [h.mem i, hi]
    simp
  · intro i hi
    rw [h.mem i, hi]
    simp
  · intro a b ha hb
    exact h.oneInFlight ha hb
  · obtain ⟨o, ho⟩ := h.owner
    rw [ho.sema]
    cases o with
    | nobody => exact Nat.zero_le 1
    | caller i => exact Nat.zero_le 1
    | queued i => exact le_rfl
    | thread i => exact Nat.zero_le 1

end Execution

section Frames

variable {ι : Type u} [DecidableEq ι] {call : ι → Call} {altRead : Bool}

/-- A step that neither refuses nor accepts a call: it moves one party on. -/
structure MovesOn (s t : State ι) (a : Act ι) : Prop where
  entered : ∀ k, a = .caller k → s.caller k ≠ .entered ∧ t.caller k ≠ .entered
  accepted : t.accepted = s.accepted
  flag : t.syncFlag = true → s.syncFlag = true
  caller : ∀ k, a ≠ .caller k → t.caller k = s.caller k
  thread : a ≠ .thread → t.thread = s.thread

/-- A step refuses a call, accepts one, or moves one party on. -/
theorem step_cases
    {s t : State ι} {a : Act ι}
    (ht : step altRead call s a = some t) :
    (∃ k, a = .caller k ∧ s.caller k = .entered ∧ s.syncFlag = true ∧
      t = s.goto k (.returned false)) ∨
    (∃ k pc, a = .caller k ∧ s.caller k = .entered ∧ s.syncFlag = false ∧
      pc.holds = true ∧ t.accepted = s.accepted ++ [k] ∧
      t.caller = Function.update s.caller k pc ∧ t.thread = s.thread) ∨
    MovesOn s t a := by
  have hmoves :
      ∀ (u : State ι) (k : ι) (pc : CallerPc),
        s.caller k ≠ .entered → pc ≠ .entered →
        u.accepted = s.accepted → (u.syncFlag = true → s.syncFlag = true) →
        u.caller = s.caller → u.thread = s.thread →
        MovesOn s (u.goto k pc) (.caller k) := by
    intro u k pc hk hpc hacc hflag hcaller hthread
    refine ⟨?_, hacc, hflag, ?_, fun _ => hthread⟩
    · rintro j ⟨⟩
      simpa [State.goto, hpc] using hk
    · intro j hj
      have hne : j ≠ k := by
        rintro rfl
        exact hj rfl
      simp [State.goto, hne, hcaller]
  cases a with
  | caller k =>
      cases hpc : s.caller k with
      | entered =>
          simp only [step, callerStep, hpc] at ht
          cases hflag : s.syncFlag with
          | true =>
              simp only [hflag, if_true, Option.some.injEq] at ht
              exact Or.inl ⟨k, rfl, hpc, rfl, ht.symm⟩
          | false =>
              simp only [hflag, Bool.false_eq_true, if_false] at ht
              split_ifs at ht
              · cases ht
                exact Or.inr (Or.inl
                  ⟨k, .signalling, rfl, hpc, rfl, rfl, rfl, rfl, rfl⟩)
              · cases ht
                exact Or.inr (Or.inl
                  ⟨k, .starting, rfl, hpc, rfl, rfl, rfl, rfl, rfl⟩)
      | signalling =>
          simp only [step, callerStep, hpc, Option.some.injEq] at ht
          subst ht
          exact Or.inr (Or.inr
            (hmoves (signalSema s) k _ (by simp [hpc]) (by simp) rfl id rfl rfl))
      | starting =>
          simp only [step, callerStep, hpc, Option.some.injEq] at ht
          subst ht
          exact Or.inr (Or.inr
            (hmoves { s with executed := s.executed ++ [(call k).args] } k _
              (by simp [hpc]) (by simp) rfl id rfl rfl))
      | reading =>
          simp only [step, callerStep, hpc, Option.some.injEq] at ht
          subst ht
          exact Or.inr (Or.inr
            (hmoves s k _ (by simp [hpc]) (by simp) rfl id rfl rfl))
      | clearing =>
          simp only [step, callerStep, hpc, Option.some.injEq] at ht
          subst ht
          exact Or.inr (Or.inr
            (hmoves { s with syncFlag := false } k _ (by simp [hpc]) (by simp)
              rfl (fun h => by cases h) rfl rfl))
      | setting =>
          simp only [step, callerStep, hpc, Option.some.injEq] at ht
          subst ht
          exact Or.inr (Or.inr
            (hmoves { s with intrEf1 := true } k _ (by simp [hpc]) (by simp)
              rfl id rfl rfl))
      | returned r =>
          simp only [step, callerStep, hpc] at ht
          cases ht
  | thread =>
      right
      right
      have hmove : ∀ u : State ι,
          u.accepted = s.accepted → (u.syncFlag = true → s.syncFlag = true) →
          u.caller = s.caller → MovesOn s u .thread := by
        intro u hacc hflag hcaller
        refine ⟨?_, hacc, hflag, ?_, fun h => absurd rfl h⟩
        · intro k hk
          cases hk
        · intro k _
          rw [hcaller]
      cases hpc : s.thread with
      | waiting =>
          simp only [step, threadStep, hpc] at ht
          split_ifs at ht
          cases ht
          exact hmove _ rfl id rfl
      | clearing =>
          simp only [step, threadStep, hpc, Option.some.injEq] at ht
          subst ht
          exact hmove _ rfl (fun h => by cases h) rfl
      | _ =>
          simp only [step, threadStep, hpc, Option.some.injEq] at ht
          subst ht
          exact hmove _ rfl id rfl

/-- A step of one party leaves the other calls where they are. -/
theorem step_caller_of_ne
    {s t : State ι} {a : Act ι} {k : ι}
    (ht : step altRead call s a = some t)
    (hne : a ≠ .caller k) :
    t.caller k = s.caller k := by
  rcases step_cases ht with
    ⟨j, rfl, -, -, rfl⟩ | ⟨j, pc, rfl, -, -, -, -, hcaller, -⟩ | hmove
  · have hkj : k ≠ j := fun h => hne (h ▸ rfl)
    simp [State.goto, hkj]
  · have hkj : k ≠ j := fun h => hne (h ▸ rfl)
    simp [hcaller, hkj]
  · exact hmove.caller k hne

/-- While the drive is locked nothing is accepted. -/
theorem step_accepted_of_locked
    {s t : State ι} {a : Act ι}
    (ht : step altRead call s a = some t)
    (hflag : s.syncFlag = true) :
    t.accepted = s.accepted := by
  rcases step_cases ht with
    ⟨j, rfl, -, -, rfl⟩ | ⟨j, pc, rfl, -, hfree, -⟩ | hmove
  · rfl
  · rw [hflag] at hfree
    cases hfree
  · exact hmove.accepted

/-- A read in flight is only ended by the party that makes it. -/
theorem step_inFlight_of_ne
    {s t : State ι} {a a' : Act ι}
    (ht : step altRead call s a = some t)
    (hne : a' ≠ a)
    (hfly : InFlight s a') :
    InFlight t a' := by
  cases a' with
  | caller k =>
      have hk : s.caller k = .reading := hfly
      show t.caller k = .reading
      rw [step_caller_of_ne ht (Ne.symm hne), hk]
  | thread =>
      have hth : s.thread = .reading := hfly
      show t.thread = .reading
      rcases step_cases ht with
        ⟨j, rfl, -, -, rfl⟩ | ⟨j, pc, rfl, -, -, -, -, -, hthread⟩ | hmove
      · exact hth
      · rw [hthread, hth]
      · rw [hmove.thread (Ne.symm hne), hth]

end Frames

section Progress

variable {ι : Type u} {call : ι → Call}

/-- Steps that the reading thread needs to begin the next `cdvdman_read`. -/
def ThreadPc.rank : ThreadPc → Nat
  | .setting => 4
  | .callback => 3
  | .waiting => 2
  | .starting => 1
  | _ => 0

/-- A later state of a run has at least the executions of an earlier one. -/
theorem Executed.mono
    {s t : State ι} {i : ι} {a e : List _}
    (h : Executed s i)
    (haccepted : t.accepted = s.accepted ++ a)
    (hexecuted : t.executed = s.executed ++ e) :
    Executed t i := by
  unfold Executed at h ⊢
  rw [haccepted, hexecuted, List.length_append, List.take_append]
  have hle : s.executed.length ≤ s.executed.length + e.length :=
    Nat.le_add_right _ _
  exact List.mem_append_left _
    ((List.take_subset_take_left s.accepted hle) h)

/-- An accepted call that has returned and is not executed yet waits for a
reading thread that is about to begin a read. -/
theorem Inv.executed_or_rank
    {s : State ι} {i : ι}
    (h : Inv call s)
    (hi : s.caller i = .returned true) :
    Executed s i ∨ (0 < s.thread.rank ∧ ∃ t, threadStep s = some t) := by
  have hmem : i ∈ s.accepted := h.exactlyOnce.returnedOne i hi
  obtain ⟨o, ho⟩ := h.owner
  have hlog := ho.log
  have hall : AllExecuted call s → Executed s i := by
    intro hall
    unfold Executed
    rw [hall, List.length_map, List.take_length]
    exact hmem
  have hlast : ∀ j, AllButLast call s j → i ≠ j → Executed s i := by
    rintro j ⟨l, hacc, hexec⟩ hij
    unfold Executed
    rw [hexec, List.length_map, hacc, List.take_left]
    rw [hacc] at hmem
    rcases List.mem_append.mp hmem with hl | hj
    · exact hl
    · exact absurd (List.mem_singleton.mp hj) hij
  cases o with
  | nobody => exact Or.inl (hall hlog)
  | caller j =>
      left
      have hij : i ≠ j := by
        rintro rfl
        have hholds := (ho.caller i).mpr rfl
        rw [hi] at hholds
        cases hholds
      simp only [LogOf] at hlog
      split at hlog
      · exact hlast j hlog.1 hij
      · exact hlast j hlog hij
      · exact hall hlog
  | queued j =>
      right
      have hsema : s.rthreadSema = 1 := ho.sema
      have hidle : ¬ s.thread.holds = true := by
        rw [ho.thread]
        rintro ⟨k, hk⟩
        cases hk
      cases hpc : s.thread with
      | waiting => exact ⟨by decide, by simp [threadStep, hpc, hsema]⟩
      | starting =>
          rw [hpc] at hidle
          exact absurd rfl hidle
      | reading =>
          rw [hpc] at hidle
          exact absurd rfl hidle
      | clearing =>
          rw [hpc] at hidle
          exact absurd rfl hidle
      | setting => exact ⟨by decide, by simp [threadStep, hpc]⟩
      | callback => exact ⟨by decide, by simp [threadStep, hpc]⟩
  | thread j =>
      simp only [LogOf] at hlog
      split at hlog
      · rename_i hpc
        right
        exact ⟨by rw [hpc]; decide, by simp [threadStep, hpc]⟩
      · exact Or.inl (hall hlog)

/-- A step of the reading thread moves it towards its next read or begins
that read. -/
theorem threadStep_frame
    {s t : State ι}
    (ht : threadStep s = some t) :
    t.accepted = s.accepted ∧
      (∃ e, t.executed = s.executed ++ e) ∧
      t.caller = s.caller ∧
      (0 < s.thread.rank → t.thread.rank + 1 = s.thread.rank) := by
  cases hpc : s.thread with
  | waiting =>
      simp only [threadStep, hpc] at ht
      split_ifs at ht
      cases ht
      exact ⟨rfl, ⟨[], by simp⟩, rfl, fun _ => rfl⟩
  | starting =>
      simp only [threadStep, hpc, Option.some.injEq] at ht
      subst ht
      exact ⟨rfl, ⟨[s.cdread], rfl⟩, rfl, fun _ => rfl⟩
  | reading =>
      simp only [threadStep, hpc, Option.some.injEq] at ht
      subst ht
      exact ⟨rfl, ⟨[], by simp⟩, rfl, fun h => absurd h (by decide)⟩
  | clearing =>
      simp only [threadStep, hpc, Option.some.injEq] at ht
      subst ht
      exact ⟨rfl, ⟨[], by simp⟩, rfl, fun h => absurd h (by decide)⟩
  | setting =>
      simp only [threadStep, hpc, Option.some.injEq] at ht
      subst ht
      exact ⟨rfl, ⟨[], by simp⟩, rfl, fun _ => rfl⟩
  | callback =>
      simp only [threadStep, hpc, Option.some.injEq] at ht
      subst ht
      exact ⟨rfl, ⟨[], by simp⟩, rfl, fun _ => rfl⟩

variable [DecidableEq ι] {altRead : Bool}

/-- A step of a call neither moves the reading thread nor takes an execution
back, and a call that has returned stays where it is. -/
theorem callerStep_frame
    {s t : State ι} {j : ι}
    (ht : callerStep altRead call j s = some t) :
    t.thread = s.thread ∧
      (∃ a, t.accepted = s.accepted ++ a) ∧
      (∃ e, t.executed = s.executed ++ e) ∧
      ∀ i r, s.caller i = .returned r → t.caller i = .returned r := by
  have hothers :
      ∀ (u : State ι) pc i r, u.caller = s.caller →
        (∀ r', s.caller j ≠ .returned r') → s.caller i = .returned r →
        (u.goto j pc).caller i = .returned r := by
    intro u pc i r hu hj hi
    have hij : i ≠ j := by
      rintro rfl
      exact hj r hi
    simpa [State.goto, hij, hu] using hi
  cases hpc : s.caller j with
  | entered =>
      simp only [callerStep, hpc] at ht
      split_ifs at ht
      · cases ht
        exact ⟨rfl, ⟨[], by simp [State.goto]⟩, ⟨[], by simp [State.goto]⟩,
          fun i r => hothers s _ i r rfl (by simp [hpc])⟩
      · cases ht
        exact ⟨rfl, ⟨[j], rfl⟩, ⟨[], by simp [State.goto, commonLock]⟩,
          fun i r =>
            hothers { commonLock s j with cdread := (call j).args } _ i r rfl
              (by simp [hpc])⟩
      · cases ht
        exact ⟨rfl, ⟨[j], rfl⟩, ⟨[], by simp [State.goto, commonLock]⟩,
          fun i r => hothers (commonLock s j) _ i r rfl (by simp [hpc])⟩
  | signalling =>
      simp only [callerStep, hpc, Option.some.injEq] at ht
      subst ht
      exact ⟨rfl, ⟨[], by simp [State.goto, signalSema]⟩,
        ⟨[], by simp [State.goto, signalSema]⟩,
        fun i r => hothers (signalSema s) _ i r rfl (by simp [hpc])⟩
  | starting =>
      simp only [callerStep, hpc, Option.some.injEq] at ht
      subst ht
      exact ⟨rfl, ⟨[], by simp [State.goto]⟩, ⟨[(call j).args], rfl⟩,
        fun i r =>
          hothers { s with executed := s.executed ++ [(call j).args] } _ i r rfl
            (by simp [hpc])⟩
  | reading =>
      simp only [callerStep, hpc, Option.some.injEq] at ht
      subst ht
      exact ⟨rfl, ⟨[], by simp [State.goto]⟩, ⟨[], by simp [State.goto]⟩,
        fun i r => hothers s _ i r rfl (by simp [hpc])⟩
  | clearing =>
      simp only [callerStep, hpc, Option.some.injEq] at ht
      subst ht
      exact ⟨rfl, ⟨[], by simp [State.goto]⟩, ⟨[], by simp [State.goto]⟩,
        fun i r =>
          hothers { s with syncFlag := false } _ i r rfl (by simp [hpc])⟩
  | setting =>
      simp only [callerStep, hpc, Option.some.injEq] at ht
      subst ht
      exact ⟨rfl, ⟨[], by simp [State.goto]⟩, ⟨[], by simp [State.goto]⟩,
        fun i r =>
          hothers { s with intrEf1 := true } _ i r rfl (by simp [hpc])⟩
  | returned r =>
      simp only [callerStep, hpc] at ht
      cases ht

/-- In every continuation of a run in which the reading thread takes as many
steps as its rank, a call that has returned 1 is executed. -/
theorem executed_of_runActs
    {i : ι} :
    ∀ (acts : List (Act ι)) {s t : State ι},
      Inv call s →
      s.caller i = .returned true →
      Executed s i ∨ s.thread.rank ≤ acts.count .thread →
      runActs (step altRead call) s acts = some t →
      Executed t i := by
  intro acts
  induction acts with
  | nil =>
      intro s t h hi hdue hrun
      have hst : s = t := by
        simpa [runGuarded] using hrun
      subst hst
      rcases h.executed_or_rank hi with hdone | ⟨hrank, -⟩
      · exact hdone
      · rcases hdue with hdone | hle
        · exact hdone
        · rw [List.count_nil] at hle
          omega
  | cons a acts ih =>
      intro s t h hi hdue hrun
      have hany : anyAct s a := trivial
      simp only [runGuarded, if_pos hany] at hrun
      cases hstep : step altRead call s a with
      | none =>
          rw [hstep] at hrun
          cases hrun
      | some u =>
          rw [hstep] at hrun
          cases a with
          | caller j =>
              obtain ⟨hthread, ⟨x, hacc⟩, ⟨e, hexec⟩, hreturned⟩ :=
                callerStep_frame hstep
              refine ih (inv_callerStep h hstep)
                (hreturned i true hi) ?_ hrun
              rcases hdue with hdone | hle
              · exact Or.inl (hdone.mono hacc hexec)
              · right
                rw [hthread]
                simpa using hle
          | thread =>
              obtain ⟨hacc, ⟨e, hexec⟩, hcaller, hrank⟩ :=
                threadStep_frame hstep
              refine ih (inv_threadStep h hstep)
                (by rw [hcaller]; exact hi) ?_ hrun
              have hacc' : u.accepted = s.accepted ++ [] := by
                rw [hacc, List.append_nil]
              rcases h.executed_or_rank hi with hdone | ⟨hpos, -⟩
              · exact Or.inl (hdone.mono hacc' hexec)
              · rcases hdue with hdone | hle
                · exact Or.inl (hdone.mono hacc' hexec)
                · right
                  have hdown := hrank hpos
                  rw [List.count_cons_self] at hle
                  omega

/-- **Read requests are executed exactly once.**  In every reachable state the
requests so far satisfy `ExactlyOnce`; a call that is refused has changed its own
position only; and for a call that has returned 1 the reading thread is never
blocked before the read, which it begins within four of its steps, whatever the
other calls do in between. -/
theorem sceCdRead_exactlyOnce
    {s : State ι}
    (hs : Reach (step altRead call) (initial ι) s) :
    ExactlyOnce call s ∧
    (∀ i t, step altRead call s (.caller i) = some t →
      t.caller i = .returned false →
        s.caller i = .entered ∧ t = s.goto i (.returned false)) ∧
    (∀ i, s.caller i = .returned true →
      (Executed s i ∨ ∃ t, step altRead call s .thread = some t) ∧
      ∀ acts t, runActs (step altRead call) s acts = some t →
        4 ≤ acts.count .thread → Executed t i) := by
  have h : Inv call s := Inv.of_reach hs
  refine ⟨h.exactlyOnce, ?_, ?_⟩
  · intro i t ht hrefused
    have hself : ∀ (u : State ι) pc,
        (u.goto i pc).caller i = pc := by
      intro u pc
      simp [State.goto]
    cases hpc : s.caller i with
    | entered =>
        simp only [step, callerStep, hpc] at ht
        split_ifs at ht
        · cases ht
          exact ⟨rfl, rfl⟩
        · cases ht
          rw [hself] at hrefused
          cases hrefused
        · cases ht
          rw [hself] at hrefused
          cases hrefused
    | returned r =>
        simp only [step, callerStep, hpc] at ht
        cases ht
    | _ =>
        simp only [step, callerStep, hpc, Option.some.injEq] at ht
        subst ht
        rw [hself] at hrefused
        cases hrefused
  · intro i hi
    constructor
    · rcases h.executed_or_rank hi with hdone | ⟨-, hgo⟩
      · exact Or.inl hdone
      · exact Or.inr hgo
    · intro acts t hrun hcount
      have hrank : s.thread.rank ≤ 4 := by
        cases s.thread with
        | _ => decide
      exact executed_of_runActs acts h hi
        (Or.inr (le_trans hrank hcount)) hrun

/-- Two calls, one from a thread and one from an interrupt handler. -/
def twoCalls : Bool → Call
  | false => ⟨⟨16, 1, 0x1000⟩, false, false⟩
  | true => ⟨⟨40, 8, 0x3000⟩, true, false⟩

/-- The first call is accepted, the second is refused while it is pending, and
the reading thread begins the first read. -/
theorem sceCdRead_exactlyOnce_twoCalls :
    ∃ s, runActs (step false twoCalls) (initial Bool)
        [.caller false, .caller true, .caller false, .thread, .thread] = some s ∧
      s.executed = [⟨16, 1, 0x1000⟩] ∧
      s.caller true = .returned false ∧
      ExactlyOnce twoCalls s :=
  ⟨_, rfl, rfl, rfl,
    (@sceCdRead_exactlyOnce Bool twoCalls _ false _
      (guardedReach_of_runGuarded
        [.caller false, .caller true, .caller false, .thread, .thread] rfl)).1⟩

end Progress

end Requests
end Ps2Cdvd
