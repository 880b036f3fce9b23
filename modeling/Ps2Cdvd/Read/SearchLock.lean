import Ps2Cdvd.Read.Requests

/-!
# The semaphore of file lookups and `sync_flag`

A file lookup holds `cdvdman_searchfilesema` while it reads directory sectors
into `cdvdman_buf`, one `sceCdRead` and one `sceCdSync(0)` for each.  A read to
an unaligned buffer is copied through the same `cdvdman_buf`, so `cdvdman_read`
takes the semaphore with `sync_flag` set.

The system is that of `Requests`, whose calls are the read requests `ρ` and the
sector reads `(i, n)` of the lookups `i : φ`, with the semaphore, the lookups and
the double copy of `cdvdman_read` around it.

* `step_deadlocks`: a run in which the reading thread and a lookup wait for each
  other;
* `noDeadlock_of_locksApart`: no such state is reached as long as a request for
  an unaligned buffer is only locked while no lookup is between the acceptance
  of its sector read and its return from `sceCdSync`.
-/

namespace Ps2Cdvd
namespace SearchLock

open Lib Requests

universe u v w

section Source

/-- Where `cdvdman_read` is: outside the double copy, before `WaitSema`, between
`WaitSema` and `SignalSema`, after `SignalSema`. -/
inductive CopyPc
  | outside
  | semaWait
  | copying
  | copied
deriving DecidableEq

/-- Where a lookup is; `n` counts the directory sectors. -/
inductive LookupPc
  | entered
  | searching (n : Nat)
  | calling (n : Nat)
  | syncTest (n : Nat)
  | syncWait (n : Nat)
  | releasing
  | returned
deriving DecidableEq

/-- The calls of `sceCdRead`: requests, and the sector reads of lookups. -/
abbrev CallId (ρ : Type u) (φ : Type v) := ρ ⊕ φ × Nat

variable {ρ : Type u} {φ : Type v}

/-- The requests, the sectors the lookups ask for, and the address of
`cdvdman_buf`, which is word aligned. -/
structure Setup (ρ : Type u) (φ : Type v) where
  reads : ρ → Call
  tocLBA : φ → Nat → Nat
  cdvdmanBuf : Nat
  aligned : cdvdmanBuf % 4 = 0

/-- `sceCdRead(tocLBA, 1, cdvdman_buf, NULL)` for the lookups. -/
def Setup.call (d : Setup ρ φ) : CallId ρ φ → Call
  | .inl r => d.reads r
  | .inr (i, n) => ⟨⟨d.tocLBA i n, 1, d.cdvdmanBuf⟩, false, false⟩

structure State (ρ : Type u) (φ : Type v) where
  base : Requests.State (CallId ρ φ)
  searchSema : Nat
  copy : Requests.Act (CallId ρ φ) → CopyPc
  lookup : φ → LookupPc

def initial (ρ : Type u) (φ : Type v) : State ρ φ where
  base := Requests.initial _
  searchSema := 1
  copy := fun _ => .outside
  lookup := fun _ => .entered

/-- A step of a call or of the reading thread; a semaphore call of the double
copy in one of them; a step of a lookup, which may want another sector. -/
inductive Act (ρ : Type u) (φ : Type v)
  | read (a : Requests.Act (CallId ρ φ))
  | sema (a : Requests.Act (CallId ρ φ))
  | lookup (i : φ) (more : Bool)

variable [DecidableEq ρ] [DecidableEq φ]

/-- The buffer of the `cdvdman_read` that `a` begins. -/
def readBuf (d : Setup ρ φ) (s : Requests.State (CallId ρ φ)) :
    Requests.Act (CallId ρ φ) → Nat
  | .caller k => (d.call k).args.buf
  | .thread => s.cdread.buf

/-- `a` is about to call `cdvdman_read`. -/
def beginsRead (s : Requests.State (CallId ρ φ)) :
    Requests.Act (CallId ρ φ) → Bool
  | .caller k => s.caller k = .starting
  | .thread => s.thread = .starting

/-- `a` is inside `cdvdman_read`. -/
def inRead (s : Requests.State (CallId ρ φ)) :
    Requests.Act (CallId ρ φ) → Bool
  | .caller k => s.caller k = .reading
  | .thread => s.thread = .reading

/-- A `cdvdman_read` ends after its `SignalSema`; the sector read of a lookup
moves only while the lookup is in that call. -/
def mayMove (s : State ρ φ) (a : Requests.Act (CallId ρ φ)) : Bool :=
  (match a with
    | .caller (.inr (i, n)) => decide (s.lookup i = .calling n)
    | _ => true) &&
  (!inRead s.base a || s.copy a = .outside || s.copy a = .copied)

/-- `if ((u32)(buf)&3)` at the beginning of `cdvdman_read`: the double copy goes to
`wait`, and is `outside` when the read has ended. -/
def copyBegun
    {π : Type w} (s : Requests.State (CallId ρ φ)) (buf : Nat) (wait outside : π)
    (copy : Requests.Act (CallId ρ φ) → π) (a : Requests.Act (CallId ρ φ)) :
    Requests.Act (CallId ρ φ) → π :=
  if beginsRead s a && buf % 4 != 0 then Function.update copy a wait
  else if inRead s a then Function.update copy a outside
  else copy

def copyAfter (d : Setup ρ φ) (s : State ρ φ)
    (a : Requests.Act (CallId ρ φ)) : Requests.Act (CallId ρ φ) → CopyPc :=
  copyBegun s.base (readBuf d s.base a) .semaWait .outside s.copy a

/-- A lookup whose `sceCdRead` returns 0 gives up, otherwise it goes to
`sceCdSync`. -/
def lookupAfter (s : State ρ φ) (b : Requests.State (CallId ρ φ)) :
    Requests.Act (CallId ρ φ) → φ → LookupPc
  | .caller (.inr (i, n)) =>
      match b.caller (.inr (i, n)) with
      | .returned false => Function.update s.lookup i .releasing
      | .returned true => Function.update s.lookup i (.syncTest n)
      | _ => s.lookup
  | _ => s.lookup

/-- `WaitSema` and `SignalSema` of the double copy in `cdvdman_read`. -/
def semaStep (s : State ρ φ) (a : Requests.Act (CallId ρ φ)) :
    Option (State ρ φ) :=
  match s.copy a with
  | .semaWait =>
      if 0 < s.searchSema then
        some
          { s with
            searchSema := s.searchSema - 1
            copy := Function.update s.copy a .copying }
      else none
  | .copying =>
      some
        { s with
          searchSema := min (s.searchSema + 1) 1
          copy := Function.update s.copy a .copied }
  | _ => none

/-- The lookup `i` goes on at `pc`. -/
def State.goto (s : State ρ φ) (i : φ) (pc : LookupPc) : State ρ φ :=
  { s with lookup := Function.update s.lookup i pc }

/-- The next step of a lookup: `cdvdman_findfile` around the sector loop of
`cdvdman_locatefile`, and `sceCdSync(0)`. -/
def lookupStep (s : State ρ φ) (i : φ) (more : Bool) : Option (State ρ φ) :=
  match s.lookup i with
  | .entered =>
      if 0 < s.searchSema then
        some ({ s with searchSema := s.searchSema - 1 }.goto i (.searching 0))
      else none
  | .searching n =>
      some (s.goto i (if more then .calling n else .releasing))
  | .calling _ => none
  | .syncTest n =>
      some (s.goto i (if s.base.syncFlag then .syncWait n else .searching (n + 1)))
  | .syncWait n =>
      if s.base.intrEf1 then some (s.goto i (.syncTest n)) else none
  | .releasing =>
      some ({ s with searchSema := min (s.searchSema + 1) 1 }.goto i .returned)
  | .returned => none

/-- One step of the system. -/
def step (altRead : Bool) (d : Setup ρ φ) (s : State ρ φ) :
    Act ρ φ → Option (State ρ φ)
  | .read a =>
      if mayMove s a then
        match Requests.step altRead d.call s.base a with
        | some b =>
            some
              { s with
                base := b
                copy := copyAfter d s a
                lookup := lookupAfter s b a }
        | none => none
      else none
  | .sema a => semaStep s a
  | .lookup i more => lookupStep s i more

end Source

section Deadlock

variable {ρ : Type u} {φ : Type v}

/-- The lookup `i` holds the semaphore between the acceptance of a sector read
and its return from `sceCdSync`. -/
def inSector (s : State ρ φ) (i : φ) : Bool :=
  match s.lookup i with
  | .calling n => !decide (s.base.caller (.inr (i, n)) = .entered)
  | .syncTest _ => true
  | .syncWait _ => true
  | _ => false

/-- A `cdvdman_read` waits on the semaphore while a lookup that holds it waits
in `sceCdSync(0)` for `sync_flag` to clear. -/
def Deadlocked (s : State ρ φ) : Prop :=
  (∃ a, s.copy a = .semaWait) ∧
    s.base.syncFlag = true ∧ ∃ i n, s.lookup i = .syncWait n

/-- The guard: a request for an unaligned buffer is locked only while no lookup
is inside a sector read. -/
def locksApart (d : Setup ρ φ) (s : State ρ φ) : Act ρ φ → Prop
  | .read (.caller (.inl r)) =>
      s.base.caller (.inl r) = .entered → s.base.syncFlag = false →
        (d.reads r).args.buf % 4 ≠ 0 → ∀ i, inSector s i = false
  | _ => True

instance instDecidableLocksApart
    [Fintype φ] [DecidableEq ρ] [DecidableEq φ]
    (d : Setup ρ φ) (s : State ρ φ) : ∀ a, Decidable (locksApart d s a)
  | .read (.caller (.inl r)) =>
      inferInstanceAs (Decidable
        (s.base.caller (.inl r) = .entered → s.base.syncFlag = false →
          (d.reads r).args.buf % 4 ≠ 0 → ∀ i, inSector s i = false))
  | .read (.caller (.inr _)) => isTrue trivial
  | .read .thread => isTrue trivial
  | .sema _ => isTrue trivial
  | .lookup _ _ => isTrue trivial

/-- Sector reads that a lookup has not made yet. -/
def LookupPc.unused : LookupPc → Nat → Prop
  | .entered, _ => True
  | .searching n, m => n ≤ m
  | .calling n, m => n < m
  | .syncTest n, m => n < m
  | .syncWait n, m => n < m
  | _, _ => False

/-- The last accepted call is a request for an unaligned buffer. -/
def LastUnaligned (d : Setup ρ φ) (s : State ρ φ) : Prop :=
  ∃ r, s.base.accepted.getLast? = some (.inl r) ∧ (d.reads r).args.buf % 4 ≠ 0

/-- The invariant of guarded runs. -/
structure Inv (d : Setup ρ φ) (s : State ρ φ) : Prop where
  base : Requests.Inv d.call s.base
  unused :
    ∀ i m, (s.lookup i).unused m → s.base.caller (.inr (i, m)) = .entered
  copying :
    ∀ a, s.copy a ≠ .outside → InFlight s.base a ∧ LastUnaligned d s
  apart :
    s.base.syncFlag = true → LastUnaligned d s → ∀ i, inSector s i = false

variable {d : Setup ρ φ}

theorem inv_initial : Inv d (initial ρ φ) := by
  refine ⟨Requests.inv_initial, ?_, ?_, ?_⟩
  · intro i m _
    rfl
  · intro a ha
    exact absurd rfl ha
  · intro hflag
    cases hflag

/-- The last accepted call is the request that `a` holds the lock for. -/
theorem lastUnaligned_of_begins
    {s : State ρ φ} {a : Requests.Act (CallId ρ φ)}
    (h : Requests.Inv d.call s.base)
    (hbegins : beginsRead s.base a = true)
    (hbuf : readBuf d s.base a % 4 ≠ 0) :
    LastUnaligned d s := by
  obtain ⟨o, ho⟩ := h.owner
  have hreader :
      ∀ k, s.base.accepted.getLast? = some k → (d.call k).args.buf % 4 ≠ 0 →
        LastUnaligned d s := by
    intro k hlast hk
    cases k with
    | inl r => exact ⟨r, hlast, hk⟩
    | inr p => exact absurd d.aligned hk
  cases a with
  | caller k =>
      have hk : s.base.caller k = .starting := by
        simpa [beginsRead] using hbegins
      have hok := ho.eq_caller (i := k) (by rw [hk]; rfl)
      subst hok
      exact hreader k (ho.last k rfl) hbuf
  | thread =>
      have ht : s.base.thread = .starting := by
        simpa [beginsRead] using hbegins
      obtain ⟨k, rfl⟩ := ho.eq_thread (by rw [ht]; rfl)
      have hlog := ho.log
      simp only [LogOf, ht] at hlog
      refine hreader k (ho.last k rfl) ?_
      rw [← hlog.2]
      exact hbuf

/-- While a read is in flight the drive is locked. -/
theorem syncFlag_of_inFlight
    {s : Requests.State (CallId ρ φ)} {a : Requests.Act (CallId ρ φ)}
    (h : Requests.Inv d.call s)
    (ha : InFlight s a) :
    s.syncFlag = true := by
  obtain ⟨o, ho⟩ := h.owner
  cases a with
  | caller k =>
      have hk : s.caller k = .reading := ha
      have hok := ho.eq_caller (i := k) (by rw [hk]; rfl)
      subst hok
      exact ho.flag
  | thread =>
      have ht : s.thread = .reading := ha
      obtain ⟨k, rfl⟩ := ho.eq_thread (by rw [ht]; rfl)
      exact ho.flag

/-- The sector read of a lookup moves only while the lookup is in that call. -/
theorem lookup_of_mayMove
    {s : State ρ φ} {i : φ} {n : Nat}
    (h : mayMove s (.caller (.inr (i, n))) = true) :
    s.lookup i = .calling n := by
  have hboth := (Bool.and_eq_true _ _).mp h
  simpa using hboth.1

theorem inRead_of_inFlight
    {s : Requests.State (CallId ρ φ)} {a : Requests.Act (CallId ρ φ)}
    (h : InFlight s a) :
    inRead s a = true := by
  cases a with
  | caller k =>
      have hk : s.caller k = .reading := h
      simp [inRead, hk]
  | thread =>
      have ht : s.thread = .reading := h
      simp [inRead, ht]

variable [DecidableEq φ]

/-- What a step of a call changes in the lookups: a lookup whose own sector read
has returned goes on. -/
theorem lookupAfter_cases
    (s : State ρ φ) (b : Requests.State (CallId ρ φ))
    (a : Requests.Act (CallId ρ φ)) (i : φ) :
    lookupAfter s b a i = s.lookup i ∨
    ∃ n, a = .caller (.inr (i, n)) ∧
      ((lookupAfter s b a i = .releasing ∧
          b.caller (.inr (i, n)) = .returned false) ∨
        (lookupAfter s b a i = .syncTest n ∧
          b.caller (.inr (i, n)) = .returned true)) := by
  cases a with
  | thread => exact Or.inl rfl
  | caller k =>
      cases k with
      | inl r => exact Or.inl rfl
      | inr p =>
          obtain ⟨j, n⟩ := p
          cases hpc : b.caller (.inr (j, n)) with
          | returned r =>
              by_cases hij : i = j
              · subst hij
                right
                cases r with
                | false =>
                    exact ⟨n, rfl, Or.inl ⟨by simp [lookupAfter, hpc], hpc⟩⟩
                | true =>
                    exact ⟨n, rfl, Or.inr ⟨by simp [lookupAfter, hpc], hpc⟩⟩
              · left
                cases r with
                | false => simp [lookupAfter, hpc, hij]
                | true => simp [lookupAfter, hpc, hij]
          | _ =>
              left
              simp [lookupAfter, hpc]

/-- A lookup that starts no sector read of its own keeps the invariant. -/
theorem inv_goto
    {s : State ρ φ} {i : φ} {pc : LookupPc}
    (n : Nat)
    (h : Inv d s)
    (hunused : ∀ m, pc.unused m → (s.lookup i).unused m)
    (hsector : inSector (s.goto i pc) i = true → inSector s i = true) :
    Inv d ({ s with searchSema := n }.goto i pc) := by
  refine ⟨h.base, ?_, h.copying, ?_⟩
  · intro j m hm
    by_cases hji : j = i
    · subst hji
      apply h.unused j m
      apply hunused m
      simpa [State.goto] using hm
    · apply h.unused j m
      simpa [State.goto, hji] using hm
  · intro hflag hlast j
    have hnone := h.apart hflag hlast j
    by_cases hji : j = i
    · subst hji
      rw [← Bool.not_eq_true]
      intro hin
      rw [hsector hin] at hnone
      cases hnone
    · have hlookup :
          ({ s with searchSema := n }.goto i pc).lookup j = s.lookup j := by
        simp [State.goto, hji]
      unfold inSector at hnone ⊢
      rw [hlookup]
      exact hnone

/-- Every step of a lookup keeps the invariant. -/
theorem inv_lookup
    {s t : State ρ φ} {i : φ} {more : Bool}
    (h : Inv d s)
    (ht : lookupStep s i more = some t) :
    Inv d t := by
  cases hpc : s.lookup i with
  | entered =>
      simp only [lookupStep, hpc] at ht
      split_ifs at ht
      cases ht
      refine inv_goto _ h ?_ ?_
      · intro m _
        rw [hpc]
        trivial
      · simp [inSector, State.goto]
  | searching n =>
      simp only [lookupStep, hpc, Option.some.injEq] at ht
      subst ht
      cases more with
      | false =>
          refine inv_goto s.searchSema h ?_ ?_
          · intro m hm
            cases hm
          · simp [inSector, State.goto]
      | true =>
          -- the sector read `n` has not been made yet
          have hentered : s.base.caller (.inr (i, n)) = .entered := by
            apply h.unused i n
            rw [hpc]
            exact le_rfl
          refine inv_goto s.searchSema h ?_ ?_
          · intro m hm
            rw [hpc]
            exact Nat.le_of_lt hm
          · simp [inSector, State.goto, hentered]
  | calling n =>
      simp only [lookupStep, hpc] at ht
      cases ht
  | syncTest n =>
      simp only [lookupStep, hpc, Option.some.injEq] at ht
      subst ht
      have hin : inSector s i = true := by
        simp [inSector, hpc]
      cases hflag : s.base.syncFlag with
      | false =>
          refine inv_goto s.searchSema h ?_ (fun _ => hin)
          intro m hm
          rw [hpc]
          exact hm
      | true =>
          refine inv_goto s.searchSema h ?_ (fun _ => hin)
          intro m hm
          rw [hpc]
          exact hm
  | syncWait n =>
      simp only [lookupStep, hpc] at ht
      split_ifs at ht
      cases ht
      refine inv_goto s.searchSema h ?_ ?_
      · intro m hm
        rw [hpc]
        exact hm
      · intro _
        simp [inSector, hpc]
  | releasing =>
      simp only [lookupStep, hpc, Option.some.injEq] at ht
      subst ht
      refine inv_goto _ h ?_ ?_
      · intro m hm
        cases hm
      · simp [inSector, State.goto]
  | returned =>
      simp only [lookupStep, hpc] at ht
      cases ht

variable [DecidableEq ρ] {altRead : Bool}

/-- A step of a call keeps the sector reads that are still to come. -/
theorem unused_read
    {s : State ρ φ} {a : Requests.Act (CallId ρ φ)}
    {b : Requests.State (CallId ρ φ)}
    (h : Inv d s)
    (hmay : mayMove s a = true)
    (hb : Requests.step altRead d.call s.base a = some b)
    (i : φ) (m : Nat)
    (hm : (lookupAfter s b a i).unused m) :
    b.caller (.inr (i, m)) = .entered := by
  have hbefore : (s.lookup i).unused m := by
    rcases lookupAfter_cases s b a i with
      hsame | ⟨n, rfl, ⟨hpc, -⟩ | ⟨hpc, -⟩⟩
    · rwa [hsame] at hm
    · rw [hpc] at hm
      exact hm.elim
    · rw [lookup_of_mayMove hmay]
      rwa [hpc] at hm
  have hne : a ≠ .caller (.inr (i, m)) := by
    rintro rfl
    rw [lookup_of_mayMove hmay] at hbefore
    exact Nat.lt_irrefl m hbefore
  rw [step_caller_of_ne hb hne]
  exact h.unused i m hbefore

/-- Who begins a read is in flight afterwards. -/
theorem inFlight_of_begins
    {s b : Requests.State (CallId ρ φ)} {a : Requests.Act (CallId ρ φ)}
    (hbegins : beginsRead s a = true)
    (hb : Requests.step altRead d.call s a = some b) :
    InFlight b a ∧ b.accepted = s.accepted := by
  cases a with
  | caller k =>
      have hk : s.caller k = .starting := by
        simpa [beginsRead] using hbegins
      simp only [Requests.step, callerStep, hk, Option.some.injEq] at hb
      subst hb
      refine ⟨?_, rfl⟩
      simp [InFlight, Requests.State.goto]
  | thread =>
      have ht : s.thread = .starting := by
        simpa [beginsRead] using hbegins
      simp only [Requests.step, threadStep, ht, Option.some.injEq] at hb
      subst hb
      exact ⟨rfl, rfl⟩

/-- A step of a call keeps the double copies tied to reads in flight. -/
theorem copying_read
    {s : State ρ φ} {a : Requests.Act (CallId ρ φ)}
    {b : Requests.State (CallId ρ φ)}
    (h : Inv d s)
    (hb : Requests.step altRead d.call s.base a = some b)
    (a' : Requests.Act (CallId ρ φ))
    (ha' : copyAfter d s a a' ≠ .outside) :
    InFlight b a' ∧
      LastUnaligned d
        { s with
          base := b
          copy := copyAfter d s a
          lookup := lookupAfter s b a } := by
  have hkeep :
      b.accepted = s.base.accepted → LastUnaligned d s →
        LastUnaligned d
          { s with
            base := b
            copy := copyAfter d s a
            lookup := lookupAfter s b a } := by
    rintro hacc ⟨r, hlast, hr⟩
    exact ⟨r, hacc ▸ hlast, hr⟩
  have hothers : s.copy a' ≠ .outside → a' ≠ a →
      InFlight b a' ∧
        LastUnaligned d
          { s with
            base := b
            copy := copyAfter d s a
            lookup := lookupAfter s b a } := by
    intro hcopy hne
    obtain ⟨hfly, hlast⟩ := h.copying a' hcopy
    have hflag := syncFlag_of_inFlight h.base hfly
    exact ⟨step_inFlight_of_ne hb hne hfly,
      hkeep (step_accepted_of_locked hb hflag) hlast⟩
  unfold copyAfter copyBegun at ha'
  split_ifs at ha' with hbegins hends
  · rw [Bool.and_eq_true, bne_iff_ne] at hbegins
    by_cases hne : a' = a
    · subst hne
      obtain ⟨hfly, hacc⟩ := inFlight_of_begins hbegins.1 hb
      exact ⟨hfly,
        hkeep hacc (lastUnaligned_of_begins h.base hbegins.1 hbegins.2)⟩
    · rw [Function.update_of_ne hne] at ha'
      exact hothers ha' hne
  · by_cases hne : a' = a
    · subst hne
      rw [Function.update_self] at ha'
      exact absurd rfl ha'
    · rw [Function.update_of_ne hne] at ha'
      exact hothers ha' hne
  · by_cases hne : a' = a
    · subst hne
      exact absurd (inRead_of_inFlight (h.copying a' ha').1) hends
    · exact hothers ha' hne

/-- A lookup inside a sector read after a step of a call was inside it before,
if the drive was locked. -/
theorem inSector_before
    {s : State ρ φ} {a : Requests.Act (CallId ρ φ)}
    {b : Requests.State (CallId ρ φ)}
    (hmay : mayMove s a = true)
    (hb : Requests.step altRead d.call s.base a = some b)
    (hflag : s.base.syncFlag = true)
    {i : φ}
    (hi : inSector
      { s with
        base := b
        copy := copyAfter d s a
        lookup := lookupAfter s b a } i = true) :
    inSector s i = true := by
  -- an entered call of a locked drive is refused
  have hrefused : ∀ k, a = .caller k → s.base.caller k = .entered →
      b.caller k = .returned false := by
    rintro k rfl hk
    rcases step_cases hb with
      ⟨j, hj, -, -, rfl⟩ | ⟨j, pc, -, -, hfree, -⟩ | hmove
    · cases hj
      simp [Requests.State.goto]
    · rw [hflag] at hfree
      cases hfree
    · exact absurd hk (hmove.entered k rfl).1
  unfold inSector at hi ⊢
  rcases lookupAfter_cases s b a i with
    hsame | ⟨n, rfl, ⟨hpc, -⟩ | ⟨hpc, hret⟩⟩
  · simp only [hsame] at hi
    cases hpc : s.lookup i with
    | calling n =>
        simp only [hpc, Bool.not_eq_true', decide_eq_false_iff_not] at hi ⊢
        intro hentered
        by_cases hne : a = .caller (.inr (i, n))
        · have hret := hrefused _ hne hentered
          subst hne
          simp [lookupAfter, hret, hpc] at hsame
        · rw [step_caller_of_ne hb hne] at hi
          exact hi hentered
    | syncTest n => rfl
    | syncWait n => rfl
    | _ =>
        rw [hpc] at hi
        cases hi
  · simp only [hpc] at hi
    cases hi
  · rw [lookup_of_mayMove hmay]
    simp only [Bool.not_eq_true', decide_eq_false_iff_not]
    intro hentered
    rw [hrefused _ rfl hentered] at hret
    cases hret

/-- Every guarded step of a call keeps the invariant. -/
theorem inv_read
    {s t : State ρ φ} {a : Requests.Act (CallId ρ φ)}
    (h : Inv d s)
    (hguard : locksApart d s (.read a))
    (ht : step altRead d s (.read a) = some t) :
    Inv d t := by
  simp only [step] at ht
  split_ifs at ht with hmay
  cases hb : Requests.step altRead d.call s.base a with
  | none =>
      rw [hb] at ht
      cases ht
  | some b =>
      rw [hb, Option.some.injEq] at ht
      subst ht
      refine ⟨h.base.next hb, unused_read h hmay hb, copying_read h hb, ?_⟩
      rintro hflag ⟨r, hlast, hr⟩ i
      rw [← Bool.not_eq_true]
      intro hi
      cases hlocked : s.base.syncFlag with
      | true =>
          have hacc := step_accepted_of_locked hb hlocked
          have hbefore := inSector_before hmay hb hlocked hi
          have hnone := h.apart hlocked ⟨r, hacc ▸ hlast, hr⟩ i
          rw [hbefore] at hnone
          cases hnone
      | false =>
          rcases step_cases hb with
            ⟨j, -, -, hfree, -⟩ | ⟨k, pc, rfl, hk, -, -, hacc, hcaller, -⟩ | hmove
          · rw [hlocked] at hfree
            cases hfree
          · -- the call just accepted is the request for an unaligned buffer
            have hkr : k = .inl r := by
              simpa [hacc] using hlast
            subst hkr
            have hnone := hguard hk hlocked hr i
            have hsame :
                inSector
                    { s with
                      base := b
                      copy := copyAfter d s (.caller (.inl r))
                      lookup := lookupAfter s b (.caller (.inl r)) } i =
                  inSector s i := by
              simp [inSector, lookupAfter, hcaller]
            rw [hsame, hnone] at hi
            cases hi
          · have hbefore := hmove.flag hflag
            rw [hlocked] at hbefore
            cases hbefore

/-- A semaphore call of a double copy keeps the invariant. -/
theorem inv_sema
    {s t : State ρ φ} {a : Requests.Act (CallId ρ φ)}
    (h : Inv d s)
    (ht : semaStep s a = some t) :
    Inv d t := by
  have hmove : ∀ (n : Nat) (pc : CopyPc), s.copy a ≠ .outside →
      Inv d
        { s with searchSema := n, copy := Function.update s.copy a pc } := by
    intro n pc ha
    refine ⟨h.base, h.unused, ?_, h.apart⟩
    intro a' ha'
    by_cases hne : a' = a
    · subst hne
      exact h.copying a' ha
    · have hcopy : s.copy a' ≠ .outside := by
        simpa [hne] using ha'
      exact h.copying a' hcopy
  cases hpc : s.copy a with
  | outside =>
      simp only [semaStep, hpc] at ht
      cases ht
  | semaWait =>
      simp only [semaStep, hpc] at ht
      split_ifs at ht
      cases ht
      exact hmove _ _ (by simp [hpc])
  | copying =>
      simp only [semaStep, hpc, Option.some.injEq] at ht
      subst ht
      exact hmove _ _ (by simp [hpc])
  | copied =>
      simp only [semaStep, hpc] at ht
      cases ht

/-- **No deadlock.**  In a run in which every request for an unaligned buffer is
locked while no lookup is inside a sector read, no read ever waits on the
semaphore while the lookup that holds it waits for that read. -/
theorem noDeadlock_of_locksApart
    {s : State ρ φ}
    (hs : GuardedReach (step altRead d) (locksApart d) (initial ρ φ) s) :
    ¬ Deadlocked s := by
  have h : Inv d s := by
    refine hs.invariant inv_initial ?_
    rintro u (a | a | ⟨i, more⟩) t hu hguard ht
    · exact inv_read hu hguard ht
    · exact inv_sema hu ht
    · exact inv_lookup hu ht
  rintro ⟨⟨a, ha⟩, hflag, i, n, hpc⟩
  obtain ⟨-, hlast⟩ := h.copying a (by simp [ha])
  have hnone := h.apart hflag hlast i
  simp [inSector, hpc] at hnone

/-- One request for one sector into an unaligned buffer, and one lookup. -/
def oneOfEach : Setup Unit Unit where
  reads := fun _ => ⟨⟨300, 1, 0x8001⟩, false, false⟩
  tocLBA := fun _ n => 20 + n
  cdvdmanBuf := 0x4000
  aligned := rfl

/-- The request is served while the lookup waits for the semaphore. -/
theorem noDeadlock_of_locksApart_oneOfEach :
    ∃ s, runGuarded (step false oneOfEach) (locksApart oneOfEach)
        (initial Unit Unit)
        [.read (.caller (.inl ())), .read (.caller (.inl ())), .read .thread,
          .read .thread, .sema .thread] = some s ∧
      s.copy .thread = .copying ∧ ¬ Deadlocked s :=
  ⟨_, rfl, rfl,
    @noDeadlock_of_locksApart Unit Unit oneOfEach _ _ false _
      (guardedReach_of_runGuarded
        [.read (.caller (.inl ())), .read (.caller (.inl ())), .read .thread,
          .read .thread, .sema .thread] rfl)⟩

/-- The lookup reads its sector; the reading thread has cleared `sync_flag` and
set the event when the lookup is about to call `sceCdSync`. -/
def lookupReads : List (Act Unit Unit) :=
  [.lookup () true, .lookup () true, .read (.caller (.inr ((), 0))),
    .read (.caller (.inr ((), 0))), .read .thread, .read .thread, .read .thread,
    .read .thread, .read .thread]

/-- The request is locked before the lookup tests `sync_flag`, and the reading
thread begins it. -/
def requestIntervenes : List (Act Unit Unit) :=
  [.read (.caller (.inl ())), .read (.caller (.inl ())), .lookup () true,
    .read .thread, .read .thread, .read .thread]

/-- A run after which the reading thread and the lookup wait for each other, and
nothing can move any more. -/
theorem step_deadlocks :
    ∃ s, runActs (step false oneOfEach) (initial Unit Unit)
        (lookupReads ++ requestIntervenes) = some s ∧
      Deadlocked s ∧
      s.copy .thread = .semaWait ∧ s.searchSema = 0 ∧
      s.lookup () = .syncWait 0 ∧ s.base.intrEf1 = false ∧
      ∀ a, step false oneOfEach s a = none := by
  refine ⟨_, rfl, ⟨⟨.thread, rfl⟩, rfl, (), 0, rfl⟩, rfl, rfl, rfl, rfl, ?_⟩
  rintro (((⟨⟩ | ⟨⟨⟩, n⟩) | _) | (k | _) | ⟨⟨⟩, more⟩)
  · rfl
  · rfl
  · rfl
  · rfl
  · rfl
  · rfl

end Deadlock

end SearchLock
end Ps2Cdvd
