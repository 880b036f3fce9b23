import Ps2Cdvd.Lib.Run
import Ps2Cdvd.Stream.Blocking

/-!
# What `StmCallback` counts

The streaming system in the steps that other contexts can see: each section
between `CpuSuspendIntr` and `CpuResumeIntr`, and each other access to
`StIsReading`, `sync_flag`, `Stm0Callback` or the alarm.  One client, the
reading thread, the handler of the alarm and the reads of other threads
interleave freely; the client's waits for an event are left out.

`StIsReading` is set before `cdvdman_AsyncRead` is asked and it is all that
`StmCallback` looks at.  Between the first section of a fill and its end, here
the *window* of the fill, the mark stands for no read that has finished.

* `stmCallback_counts_foreign`: the end of another thread's read is counted as a
  bank because a fill has its window open;
* `countedOnce_of_windowsApart`: when windows and callbacks keep apart, every
  bank read that finishes is counted once, and nothing else is.
-/

namespace Ps2Cdvd
namespace Accounting

open Ps2Cdvd.Lib Ps2Cdvd.Stream
open Ps2Cdvd.Blocking (ReadLoop)

section Source

/-- A bank read: how many were accepted before it, and the stream, counted by
starts, in which its fill began. -/
structure StreamRead where
  id : Nat
  stream : Nat
deriving DecidableEq

/-- An accepted read, of the streaming system or of another thread, which the
reading thread serves (`cdvdman_AsyncRead`) or that thread itself
(`cdvdman_SyncRead`). -/
inductive Request
  | bank (r : StreamRead)
  | foreign (async : Bool)
deriving DecidableEq

/-- The reading thread serves the read. -/
def Request.byReadingThread : Request → Bool
  | .bank _ => true
  | .foreign async => async

/-- `StmCallback` has advanced the counters of a stream after the end of a
read. -/
structure Advance where
  read : Request
  stream : Nat
deriving DecidableEq

/-- What has happened so far; no step depends on it. -/
structure Log where
  accepted : Nat
  finished : List StreamRead
  advances : List Advance
  streams : Nat
  origin : StreamingData
  taken : Nat

/-- Where `StFillStreamBuffer` is: before its section, before the section of
`cdvdman_AsyncRead`, before `StIsReading = 0`. -/
inductive FillPc
  | marking
  | requesting (stream : Nat)
  | clearing (stream : Nat) (refused : Bool)
deriving DecidableEq

/-- How a step of `StFillStreamBuffer` ends. -/
inductive FillNext
  | goesOn (f : FillPc)
  | returns (result : Int)
deriving DecidableEq

/-- Where the client is: outside; in `sceCdStStop` before `CancelAlarm`, before
its section, in `sceCdSync`; in `sceCdStStart` before its section; in the loop of
`sceCdStRead` before the first or the second section of the copy; in
`StStartFillStreamBuffer`, with `SetAlarm` at its end. -/
inductive ClientPc
  | outside
  | cancelling (restart : Option Nat)
  | stopping (restart : Option Nat)
  | syncing (restart : Option Nat)
  | starting (lsn : Nat)
  | reading (r : ReadLoop)
  | committing (r : ReadLoop) (v : Snapshot)
  | filling (f : FillPc)
  | arming
deriving DecidableEq

/-- Where the reading thread is: waiting for a request or reading; after the
read `q` before `Stm0Callback != NULL`, before `Stm0Callback()`, before the test
of `StIsReading`, before the section of `StmCallback`; in the fill that follows
it. -/
inductive ThreadPc
  | idle
  | testing (q : Request)
  | calling (q : Request)
  | checking (q : Request)
  | advancing (q : Request)
  | filling (f : FillPc)
  | arming
deriving DecidableEq

/-- Where the handler of the alarm is. -/
inductive HandlerPc
  | idle
  | filling (f : FillPc)
deriving DecidableEq

/-- The shared state, the positions of the three contexts and the log;
`sync_flag` is set while a request is pending. -/
structure State where
  data : StreamingData
  stm0Callback : Bool
  alarm : Bool
  pending : Option Request
  client : ClientPc
  thread : ThreadPc
  handler : HandlerPc
  log : Log

/-- After `sceCdStInit`. -/
def initial (bufmax bankmax : Nat) : State where
  data := stInit bufmax bankmax ⟨0, 0, 0, 0, 0, 0, false, false, 0⟩
  stm0Callback := false
  alarm := false
  pending := none
  client := .outside
  thread := .idle
  handler := .idle
  log := ⟨0, [], [], 0, ⟨0, 0, 0, 0, 0, 0, false, false, 0⟩, 0⟩

/-- The calls that the client makes. -/
inductive Op
  | stStart (lsn : Nat)
  | stStop
  | stSeek (lsn : Nat)
  | stRead (ee blocking : Bool) (sectors : Nat)
deriving DecidableEq

/-- A call of the client and the next step of each context. -/
inductive Act
  | call (op : Op)
  | client
  | thread
  | handler
  | foreignRead (async : Bool)
  | foreignEnd
deriving DecidableEq

/-- A step of `StFillStreamBuffer`. -/
def fillStep (s : State) : FillPc → State × FillNext
  | .marking =>
      if s.data.isReading then (s, .returns 0)
      else
        ({ s with data := { s.data with isReading := true }, alarm := false },
          if hasRoom s.data then .goesOn (.requesting s.log.streams)
          else .goesOn (.clearing s.log.streams false))
  | .requesting stream =>
      if s.pending.isSome then (s, .goesOn (.clearing stream true))
      else
        ({ s with
            pending := some (.bank ⟨s.log.accepted, stream⟩)
            log := { s.log with accepted := s.log.accepted + 1 } },
          .returns 0)
  | .clearing _ refused =>
      ({ s with data := { s.data with isReading := false } },
        .returns (if refused then -1 else 1))

/-- The first step of a call. -/
def callStep (s : State) : Op → State
  | .stStart lsn =>
      if s.data.stat then { s with client := .cancelling (some lsn) }
      else { s with client := .starting lsn }
  | .stSeek lsn =>
      if s.data.stat then { s with client := .cancelling (some lsn) } else s
  | .stStop => if s.data.stat then { s with client := .cancelling none } else s
  | .stRead ee blocking sectors =>
      if s.data.stat then
        if 0 < sectors then
          { s with
            client := .reading ⟨sectors, ee, blocking, s32 sectors, 0⟩ }
        else { s with client := .filling .marking }
      else s

/-- The end of the loop body of `sceCdStRead`, after `n` sectors. -/
def afterCopy (r : ReadLoop) (n : Nat) : ClientPc :=
  if r.blocking ∧ r.result + n < r.sectors then
    .reading
      { r with
        sectorsToRead := r.sectorsToRead - n
        result := r.result + n }
  else .filling .marking

/-- The next step of the client inside a call. -/
def clientStep (s : State) : Option State :=
  match s.client with
  | .outside => none
  | .cancelling restart =>
      some { s with alarm := false, client := .stopping restart }
  | .stopping restart =>
      some
        { s with
          data := stStop s.data
          stm0Callback := false
          client := .syncing restart }
  | .syncing restart =>
      if s.pending.isSome then none
      else
        match restart with
        | some lsn => some { s with client := .starting lsn }
        | none => some { s with client := .outside }
  | .starting lsn =>
      some
        { s with
          data := stStart lsn s.data
          stm0Callback := true
          client := .filling .marking
          log :=
            { s.log with
              streams := s.log.streams + 1
              origin := stStart lsn s.data
              taken := 0 } }
  | .reading r =>
      if r.ee then
        if (readSectorsEE s.data r.sectorsToRead).transfers ≠ [] then
          some
            { s with
              client :=
                .committing r (readSectorsEE s.data r.sectorsToRead) }
        else some { s with client := afterCopy r 0 }
      else
        some
          { s with
            data := (readSectors s.data r.sectorsToRead).data
            client := afterCopy r (readSectors s.data r.sectorsToRead).result
            log :=
              { s.log with
                taken :=
                  s.log.taken +
                    (readSectors s.data r.sectorsToRead).result } }
  | .committing r v =>
      some
        { s with
          data := commit v s.data
          client := afterCopy r v.result
          log := { s.log with taken := s.log.taken + v.result } }
  | .filling f =>
      match fillStep s f with
      | (s, .goesOn f) => some { s with client := .filling f }
      | (s, .returns result) =>
          if result < 0 then some { s with client := .arming }
          else some { s with client := .outside }
  | .arming => some { s with alarm := true, client := .outside }

/-- The read `q` ends: `sync_flag = 0`. -/
def Log.finish (log : Log) : Request → Log
  | .bank r => { log with finished := log.finished ++ [r] }
  | .foreign _ => log

/-- The next step of the reading thread.  Nothing is known of a call through
`Stm0Callback` when it has become `NULL` after the test. -/
def threadStep (s : State) : Option State :=
  match s.thread with
  | .idle =>
      match s.pending with
      | some q =>
          if q.byReadingThread then
            some
              { s with
                pending := none
                thread := .testing q
                log := s.log.finish q }
          else none
      | none => none
  | .testing q =>
      if s.stm0Callback then some { s with thread := .calling q }
      else some { s with thread := .idle }
  | .calling q =>
      if s.stm0Callback then some { s with thread := .checking q } else none
  | .checking q =>
      if s.data.isReading then some { s with thread := .advancing q }
      else some { s with thread := .filling .marking }
  | .advancing q =>
      some
        { s with
          data := accountBank s.data
          thread := .filling .marking
          log :=
            { s.log with
              advances := s.log.advances ++ [⟨q, s.log.streams⟩] } }
  | .filling f =>
      match fillStep s f with
      | (s, .goesOn f) => some { s with thread := .filling f }
      | (s, .returns result) =>
          if result < 0 then some { s with thread := .arming }
          else some { s with thread := .idle }
  | .arming => some { s with alarm := true, thread := .idle }

/-- The next step of `StmScheduleCb`: the alarm rings again when the fill is
refused. -/
def handlerStep (s : State) : Option State :=
  match s.handler with
  | .idle =>
      if s.alarm then
        some { s with alarm := false, handler := .filling .marking }
      else none
  | .filling f =>
      match fillStep s f with
      | (s, .goesOn f) => some { s with handler := .filling f }
      | (s, .returns result) =>
          if result < 0 then some { s with alarm := true, handler := .idle }
          else some { s with handler := .idle }

/-- One step. -/
def step (s : State) : Act → Option State
  | .call op =>
      match s.client with
      | .outside => some (callStep s op)
      | _ => none
  | .client => clientStep s
  | .thread => threadStep s
  | .handler => handlerStep s
  | .foreignRead async =>
      if s.pending.isSome then some s
      else some { s with pending := some (.foreign async) }
  | .foreignEnd =>
      if s.pending = some (.foreign false) then some { s with pending := none }
      else none

end Source

section Purpose

/-- The stream in which a fill opened its window. -/
def FillPc.window : FillPc → Option Nat
  | .marking => none
  | .requesting stream => some stream
  | .clearing stream _ => some stream

def ClientPc.window : ClientPc → Option Nat
  | .filling f => f.window
  | _ => none

def ThreadPc.window : ThreadPc → Option Nat
  | .filling f => f.window
  | _ => none

def HandlerPc.window : HandlerPc → Option Nat
  | .filling f => f.window
  | .idle => none

/-- The open windows. -/
def State.windows (s : State) : List Nat :=
  s.client.window.toList ++ s.thread.window.toList ++ s.handler.window.toList

/-- The read whose end the reading thread has still to account for. -/
def ThreadPc.handling : ThreadPc → Option Request
  | .testing q => some q
  | .calling q => some q
  | .checking q => some q
  | .advancing q => some q
  | _ => none

/-- A bank read is pending. -/
def bankPending (s : State) : Bool :=
  match s.pending with
  | some (.bank _) => true
  | _ => false

/-- No window is open when a fill sets the mark. -/
def Unopened (s : State) : Prop :=
  s.data.isReading = false → s.windows = []

/-- Between the test of `StIsReading` and the section of `StmCallback`. -/
def ThreadPc.inCallback : ThreadPc → Bool
  | .advancing _ => true
  | _ => false

/-- No stream is started between the test of `StIsReading` and the section that
follows it. -/
def ClientApart (s : State) : ClientPc → Prop
  | .starting _ => s.thread.inCallback = false
  | .filling .marking => Unopened s
  | _ => True

/-- `StmCallback` finds the mark set only when no window is open and no bank read
is pending. -/
def ThreadApart (s : State) : ThreadPc → Prop
  | .checking _ =>
      s.data.isReading = true → s.windows = [] ∧ bankPending s = false
  | .filling .marking => Unopened s
  | _ => True

def HandlerApart (s : State) : HandlerPc → Prop
  | .filling .marking => Unopened s
  | _ => True

/-- Windows and callbacks keep apart; and a fill opens its window only when no
other is open. -/
def WindowsApart (s : State) : Act → Prop
  | .client => ClientApart s s.client
  | .thread => ThreadApart s s.thread
  | .handler => HandlerApart s s.handler
  | _ => True

instance (s : State) : Decidable (Unopened s) :=
  inferInstanceAs (Decidable (_ → _))

instance (s : State) : DecidablePred (ClientApart s)
  | .starting _ => inferInstanceAs (Decidable (_ = false))
  | .filling .marking => inferInstanceAs (Decidable (Unopened s))
  | .filling (.requesting _) => isTrue trivial
  | .filling (.clearing _ _) => isTrue trivial
  | .outside => isTrue trivial
  | .cancelling _ => isTrue trivial
  | .stopping _ => isTrue trivial
  | .syncing _ => isTrue trivial
  | .reading _ => isTrue trivial
  | .committing _ _ => isTrue trivial
  | .arming => isTrue trivial

instance (s : State) : DecidablePred (ThreadApart s)
  | .checking _ => inferInstanceAs (Decidable (_ → _ ∧ _))
  | .filling .marking => inferInstanceAs (Decidable (Unopened s))
  | .filling (.requesting _) => isTrue trivial
  | .filling (.clearing _ _) => isTrue trivial
  | .idle => isTrue trivial
  | .testing _ => isTrue trivial
  | .calling _ => isTrue trivial
  | .advancing _ => isTrue trivial
  | .arming => isTrue trivial

instance (s : State) : DecidablePred (HandlerApart s)
  | .filling .marking => inferInstanceAs (Decidable (Unopened s))
  | .filling (.requesting _) => isTrue trivial
  | .filling (.clearing _ _) => isTrue trivial
  | .idle => isTrue trivial

instance (s : State) : DecidablePred (WindowsApart s)
  | .client => inferInstanceAs (Decidable (ClientApart s s.client))
  | .thread => inferInstanceAs (Decidable (ThreadApart s s.thread))
  | .handler => inferInstanceAs (Decidable (HandlerApart s s.handler))
  | .call _ => isTrue trivial
  | .foreignRead _ => isTrue trivial
  | .foreignEnd => isTrue trivial

/-- `StWritePtr` after `n` banks, whatever the sizes of the buffer are. -/
def writePtrAfter (origin : StreamingData) : Nat → Nat
  | 0 => origin.writePtr
  | n + 1 =>
      wrapPtr origin.bufmax (u16 (writePtrAfter origin n + origin.banksize))

/-- The advances of the current stream. -/
def Log.banks (log : Log) : Nat :=
  log.advances.countP (fun a => a.stream = log.streams)

/-- The counters are those of the start advanced by `n` banks; `taken` sectors
have been copied to the client since.  In a buffer of whole banks the write pointer
goes round. -/
structure Counted (origin : StreamingData) (n taken : Nat) (d : StreamingData) :
    Prop where
  sizes : d.banksize = origin.banksize ∧ d.bufmax = origin.bufmax
  lsn : d.lsn = if n = 0 then origin.lsn else u32 (origin.lsn + n * origin.banksize)
  writePtr : d.writePtr = writePtrAfter origin n
  ring : Geometry origin → d.writePtr = n * origin.banksize % origin.bufmax
  streamed :
    (d.streamed + taken) % 65536 =
      (origin.streamed + n * origin.banksize) % 65536

/-- Every bank read that has finished is accounted for once, and nothing
else is.  The reads of a stream that has been stopped are dropped with it. -/
structure CountedOnce (s : State) : Prop where
  onlyFinished :
    ∀ a ∈ s.log.advances,
      ∃ r ∈ s.log.finished, a.read = .bank r ∧ r.stream = a.stream
  atMostOnce : (s.log.advances.map Advance.read).Nodup
  notPending : ∀ r, s.pending = some (.bank r) → r ∉ s.log.finished
  exactlyOnce :
    s.data.stat = true → ∀ r ∈ s.log.finished, r.stream = s.log.streams →
      .bank r ∈ s.log.advances.map Advance.read ∨
        s.thread.handling = some (.bank r)
  counters :
    s.data.stat = true → Counted s.log.origin s.log.banks s.log.taken s.data

end Purpose

section Invariant

/-- The read `q`, if there is one, is a bank of the stream `k`. -/
def held (q : Option Request) (k : Nat) : Nat :=
  match q with
  | some (.bank r) => if r.stream = k then 1 else 0
  | _ => 0

/-- Of a started stream, the mark is held by exactly one of: an open window of
the stream, and `rest` bank reads of it that are pending or not yet accounted
for. -/
structure MarkOk
    (started : Bool) (stream : Nat) (mark : Bool) (windows : List Nat)
    (rest : Nat) : Prop where
  one : windows.length ≤ 1
  opened : ∀ k ∈ windows, k ≤ stream
  holder : started = true → windows.count stream + rest = mark.toNat
  stale : started = true → windows ≠ [] → windows.count stream = 0 → rest = 0

/-- What the log says of the reads, when `q` is pending and the reading thread
has still to account for `p`. -/
structure ReadsOk
    (started : Bool) (q p : Option Request) (log : Log) : Prop where
  fresh : ∀ r ∈ log.finished, r.id < log.accepted ∧ r.stream ≤ log.streams
  pending :
    ∀ r, q = some (.bank r) →
      r ∉ log.finished ∧ r.id < log.accepted ∧ r.stream ≤ log.streams
  handled :
    ∀ r, p = some (.bank r) →
      r ∈ log.finished ∧ .bank r ∉ log.advances.map Advance.read
  advances :
    ∀ a ∈ log.advances, ∃ r ∈ log.finished, a.read = .bank r ∧ r.stream = a.stream
  once : (log.advances.map Advance.read).Nodup
  complete :
    started = true → ∀ r ∈ log.finished, r.stream = log.streams →
      .bank r ∈ log.advances.map Advance.read ∨ p = some (.bank r)

/-- The invariant. -/
structure Inv (s : State) : Prop where
  callback : s.stm0Callback = s.data.stat
  marks :
    MarkOk s.data.stat s.log.streams s.data.isReading s.windows
      (held s.pending s.log.streams + held s.thread.handling s.log.streams)
  reads : ReadsOk s.data.stat s.pending s.thread.handling s.log
  -- a callback that outlives its stream meets no mark but that of a new fill
  outlived :
    s.data.stat = false → ∀ q, s.thread = .calling q ∨ s.thread = .checking q →
      s.data.isReading = true → s.windows ≠ [] ∨ bankPending s = true
  advancing :
    ∀ q, s.thread = .advancing q → ∃ r, q = .bank r ∧ r.stream = s.log.streams
  counters :
    s.data.stat = true → Counted s.log.origin s.log.banks s.log.taken s.data
  copying :
    ∀ r v, s.client = .committing r v → v.transfers ≠ []

end Invariant

section Marks

variable {started mark : Bool} {stream rest : Nat} {windows : List Nat}

/-- A fill opens its window. -/
theorem MarkOk.open_window
    (h : MarkOk started stream false [] rest) :
    MarkOk started stream true [stream] rest := by
  refine ⟨le_rfl, ?_, ?_, ?_⟩
  · intro k hk
    rw [List.mem_singleton] at hk
    exact le_of_eq hk
  · intro hstarted
    have hholder := h.holder hstarted
    simp at hholder
    simp [hholder]
  · intro _ _ hnone
    simp at hnone

/-- A fill ends with the mark cleared. -/
theorem MarkOk.clear
    {k : Nat}
    (h : MarkOk started stream mark [k] rest) :
    MarkOk started stream false [] rest := by
  refine ⟨Nat.zero_le _, ?_, ?_, ?_⟩
  · intro j hj
    cases hj
  · intro hstarted
    have hholder := h.holder hstarted
    have hone : mark.toNat ≤ 1 := Bool.toNat_le mark
    rcases Nat.eq_zero_or_pos ([k].count stream) with hnone | hsome
    · have hrest := h.stale hstarted (by simp) hnone
      simp [hrest]
    · have hrest : rest = 0 := by
        omega
      simp [hrest]
  · intro _ hne
    exact absurd rfl hne

/-- A fill ends with its read accepted. -/
theorem MarkOk.accept
    {k : Nat}
    (h : MarkOk started stream mark [k] rest) :
    MarkOk started stream mark [] (rest + if k = stream then 1 else 0) := by
  refine ⟨Nat.zero_le _, ?_, ?_, ?_⟩
  · intro j hj
    cases hj
  · intro hstarted
    have hholder := h.holder hstarted
    rw [List.count_singleton] at hholder
    by_cases hk : k = stream
    · subst hk
      simp at hholder ⊢
      omega
    · simp [hk] at hholder ⊢
      exact hholder
  · intro _ hne
    exact absurd rfl hne

/-- The stream is stopped. -/
theorem MarkOk.stop
    (h : MarkOk started stream mark windows rest)
    (rest' : Nat) (mark' : Bool) :
    MarkOk false stream mark' windows rest' := by
  refine ⟨h.one, h.opened, ?_, ?_⟩
  · intro hfalse
    cases hfalse
  · intro hfalse
    cases hfalse

/-- A new stream is started: whatever is open or pending is not of it. -/
theorem MarkOk.start
    (h : MarkOk started stream mark windows rest) :
    MarkOk true (stream + 1) false windows 0 := by
  have hnone : windows.count (stream + 1) = 0 := by
    rw [List.count_eq_zero]
    intro hmem
    have hle := h.opened _ hmem
    omega
  refine ⟨h.one, ?_, ?_, ?_⟩
  · intro k hk
    exact Nat.le_succ_of_le (h.opened k hk)
  · intro _
    rw [hnone]
    rfl
  · intro _ _ _
    rfl

/-- A window that is open is the only one. -/
theorem MarkOk.windows_eq
    {k : Nat}
    (h : MarkOk started stream mark windows rest)
    (hk : k ∈ windows) :
    windows = [k] := by
  have hone := h.one
  cases windows with
  | nil => cases hk
  | cons j ks =>
      cases ks with
      | nil =>
          rw [List.mem_singleton] at hk
          rw [hk]
      | cons i is => simp at hone

end Marks

section Reads

variable {started : Bool} {q p : Option Request} {log : Log}

/-- A bank read is accepted. -/
theorem ReadsOk.accept
    {k : Nat}
    (h : ReadsOk started none p log)
    (hk : k ≤ log.streams) :
    ReadsOk started (some (.bank ⟨log.accepted, k⟩)) p
      { log with accepted := log.accepted + 1 } := by
  refine ⟨?_, ?_, h.handled, h.advances, h.once, h.complete⟩
  · intro r hr
    obtain ⟨hid, hstream⟩ := h.fresh r hr
    exact ⟨Nat.lt_succ_of_lt hid, hstream⟩
  · intro r hr
    cases hr
    refine ⟨?_, Nat.lt_succ_self _, hk⟩
    intro hmem
    exact Nat.lt_irrefl _ (h.fresh _ hmem).1

/-- The reading thread ends a read. -/
theorem ReadsOk.finish
    {r : Request}
    (h : ReadsOk started (some r) none log) :
    ReadsOk started none (some r) (log.finish r) := by
  cases r with
  | foreign async =>
      refine ⟨h.fresh, ?_, ?_, h.advances, h.once, ?_⟩
      · intro r hr
        cases hr
      · intro r hr
        cases hr
      · intro hstarted r hr hstream
        rcases h.complete hstarted r hr hstream with hdone | hnone
        · exact Or.inl hdone
        · cases hnone
  | bank r =>
      obtain ⟨hnew, hid, hstream⟩ := h.pending r rfl
      refine ⟨?_, ?_, ?_, ?_, h.once, ?_⟩
      · intro x hx
        rcases List.mem_append.mp hx with hold | hlast
        · exact h.fresh x hold
        · rw [List.mem_singleton] at hlast
          subst hlast
          exact ⟨hid, hstream⟩
      · intro x hx
        cases hx
      · intro x hx
        cases hx
        refine ⟨List.mem_append_right _ (List.mem_singleton_self r), ?_⟩
        intro hcounted
        obtain ⟨a, ha, hread⟩ := List.mem_map.mp hcounted
        obtain ⟨y, hy, hay, -⟩ := h.advances a ha
        rw [hread] at hay
        cases hay
        exact hnew hy
      · intro a ha
        obtain ⟨y, hy, hay⟩ := h.advances a ha
        exact ⟨y, List.mem_append_left _ hy, hay⟩
      · intro hstarted x hx hcurrent
        rcases List.mem_append.mp hx with hold | hlast
        · rcases h.complete hstarted x hold hcurrent with hdone | hnone
          · exact Or.inl hdone
          · cases hnone
        · rw [List.mem_singleton] at hlast
          subst hlast
          exact Or.inr rfl

/-- `StmCallback` advances the counters for the bank that has finished. -/
theorem ReadsOk.advance
    {r : StreamRead}
    (h : ReadsOk started q (some (.bank r)) log)
    (hr : r.stream = log.streams) :
    ReadsOk started q none
      { log with advances := log.advances ++ [⟨.bank r, log.streams⟩] } := by
  obtain ⟨hmem, hnew⟩ := h.handled r rfl
  refine ⟨h.fresh, h.pending, ?_, ?_, ?_, ?_⟩
  · intro x hx
    cases hx
  · intro a ha
    rcases List.mem_append.mp ha with hold | hlast
    · exact h.advances a hold
    · rw [List.mem_singleton] at hlast
      subst hlast
      exact ⟨r, hmem, rfl, hr⟩
  · rw [List.map_append, List.map_singleton]
    exact List.nodup_append.mpr ⟨h.once, List.nodup_singleton _, by
      intro x hx y hy hxy
      rw [List.mem_singleton] at hy
      subst hxy
      subst hy
      exact hnew hx⟩
  · intro hstarted x hx hcurrent
    rw [List.map_append, List.map_singleton]
    rcases h.complete hstarted x hx hcurrent with hdone | hthis
    · exact Or.inl (List.mem_append_left _ hdone)
    · cases hthis
      exact Or.inl (List.mem_append_right _ (List.mem_singleton_self _))

/-- The reading thread leaves a read uncounted that is not a bank of the current
stream. -/
theorem ReadsOk.leave
    (h : ReadsOk started q p log)
    (hnot : started = true → held p log.streams = 0) :
    ReadsOk started q none log := by
  refine ⟨h.fresh, h.pending, ?_, h.advances, h.once, ?_⟩
  · intro x hx
    cases hx
  · intro hstarted x hx hcurrent
    rcases h.complete hstarted x hx hcurrent with hdone | hthis
    · exact Or.inl hdone
    · have hzero := hnot hstarted
      subst hthis
      simp [held, hcurrent] at hzero

/-- The stream is stopped. -/
theorem ReadsOk.stop
    (h : ReadsOk started q p log) :
    ReadsOk false q p log := by
  refine ⟨h.fresh, h.pending, h.handled, h.advances, h.once, ?_⟩
  intro hfalse
  cases hfalse

/-- A new stream is started. -/
theorem ReadsOk.start
    (h : ReadsOk started q p log)
    (origin : StreamingData) :
    ReadsOk true q p
      { log with
        streams := log.streams + 1
        origin := origin
        taken := 0 } := by
  refine ⟨?_, ?_, h.handled, h.advances, h.once, ?_⟩
  · intro r hr
    obtain ⟨hid, hstream⟩ := h.fresh r hr
    exact ⟨hid, Nat.le_succ_of_le hstream⟩
  · intro r hr
    obtain ⟨hnew, hid, hstream⟩ := h.pending r hr
    exact ⟨hnew, hid, Nat.le_succ_of_le hstream⟩
  · intro _ r hr hcurrent
    have hle := (h.fresh r hr).2
    have hnext : r.stream = log.streams + 1 := hcurrent
    omega

/-- Another thread's read is accepted, or ends. -/
theorem ReadsOk.foreign
    {q' : Option Request}
    (h : ReadsOk started q p log)
    (hq : ∀ r, q' ≠ some (.bank r)) :
    ReadsOk started q' p log := by
  refine ⟨h.fresh, ?_, h.handled, h.advances, h.once, h.complete⟩
  intro r hr
  exact absurd hr (hq r)

end Reads

section Counters

variable {origin d : StreamingData} {n taken : Nat}

/-- Behind the last bank of the buffer comes the first one. -/
theorem wrapPtr_bank
    (h : Geometry origin)
    (n : Nat) :
    wrapPtr origin.bufmax
        (u16 (n * origin.banksize % origin.bufmax + origin.banksize)) =
      (n + 1) * origin.banksize % origin.bufmax := by
  obtain ⟨m, hm, hbuf⟩ := h.banks
  have hpos := h.bank_pos
  have hsmall := h.small
  have hplace : n * origin.banksize % origin.bufmax = origin.banksize * (n % m) := by
    rw [hbuf, Nat.mul_comm n, Nat.mul_mod_mul_left]
  have hnext :
      (n + 1) * origin.banksize % origin.bufmax = origin.banksize * ((n + 1) % m) := by
    rw [hbuf, Nat.mul_comm (n + 1), Nat.mul_mod_mul_left]
  have hlt : n % m < m := Nat.mod_lt _ hm
  have hfits : origin.banksize * (n % m + 1) ≤ origin.bufmax := by
    rw [hbuf]
    exact Nat.mul_le_mul_left _ hlt
  rw [hplace, hnext, ← Nat.mul_add_one, u16_of_lt (by omega), wrapPtr]
  have hcases : n % m + 1 = m ∨ n % m + 1 < m := by omega
  rcases hcases with hlast | hmore
  · have hround : (n + 1) % m = 0 := by
      rw [← Nat.mod_add_mod, hlast, Nat.mod_self]
    rw [hround, hlast, ← hbuf, if_pos le_rfl, Nat.mul_zero]
  · have hgoes : (n + 1) % m = n % m + 1 := by
      rw [← Nat.mod_add_mod, Nat.mod_eq_of_lt hmore]
    have hbelow : origin.banksize * (n % m + 1) < origin.bufmax := by
      rw [hbuf]
      exact Nat.mul_lt_mul_of_pos_left hmore hpos
    rw [hgoes, if_neg (Nat.not_le.mpr hbelow)]

/-- `StmCallback` advances the counters by one bank. -/
theorem Counted.advance
    (h : Counted origin n taken d) :
    Counted origin (n + 1) taken (accountBank d) := by
  obtain ⟨⟨hbank, hbuf⟩, hlsn, hwrite, hring, hstreamed⟩ := h
  have hptr :
      (accountBank d).writePtr =
        wrapPtr origin.bufmax (u16 (d.writePtr + origin.banksize)) := by
    simp only [accountBank, wrapPtr, hbank, hbuf]
  have hsum :
      (n + 1) * origin.banksize = n * origin.banksize + origin.banksize :=
    Nat.succ_mul n origin.banksize
  refine ⟨⟨hbank, hbuf⟩, ?_, ?_, ?_, ?_⟩
  · rw [if_neg (Nat.succ_ne_zero n), hsum]
    simp only [accountBank, hlsn, hbank, u32]
    split_ifs with hnone
    · rw [hnone, Nat.zero_mul, Nat.zero_add]
    · omega
  · rw [hptr, hwrite]
    rfl
  · intro hgeometry
    rw [hptr, hring hgeometry]
    exact wrapPtr_bank hgeometry n
  · rw [hsum]
    simp only [accountBank, hbank, u16]
    omega

theorem counted_start
    (hstart : origin.writePtr = 0) :
    Counted origin 0 0 origin := by
  refine ⟨⟨rfl, rfl⟩, rfl, rfl, fun _ => ?_, ?_⟩
  · rw [hstart, Nat.zero_mul, Nat.zero_mod]
  · rw [Nat.zero_mul]

/-- The mark is not one of the counters. -/
theorem Counted.mark
    (h : Counted origin n taken d)
    (mark : Bool) :
    Counted origin n taken { d with isReading := mark } :=
  ⟨h.sizes, h.lsn, h.writePtr, h.ring, h.streamed⟩

/-- A copy changes the counters of the bank reads only in `StStreamed`. -/
structure TakesOut (d d' : StreamingData) (n : Nat) : Prop where
  stat : d'.stat = d.stat
  isReading : d'.isReading = d.isReading
  sizes : d'.banksize = d.banksize ∧ d'.bufmax = d.bufmax
  lsn : d'.lsn = d.lsn
  writePtr : d'.writePtr = d.writePtr
  streamed : (d'.streamed + n) % 65536 = d.streamed % 65536

theorem Counted.takesOut
    {d' : StreamingData} {k : Nat}
    (h : Counted origin n taken d)
    (hcopy : TakesOut d d' k) :
    Counted origin n (taken + k) d' := by
  obtain ⟨⟨hbank, hbuf⟩, hlsn, hwrite, hring, hstreamed⟩ := h
  obtain ⟨hsameBank, hsameBuf⟩ := hcopy.sizes
  have hbalance := hcopy.streamed
  refine ⟨⟨hsameBank.trans hbank, hsameBuf.trans hbuf⟩, hcopy.lsn.trans hlsn,
    hcopy.writePtr.trans hwrite, fun hgeometry => hcopy.writePtr.trans (hring hgeometry),
    ?_⟩
  omega

/-- The second section of `ReadSectorsEE`. -/
theorem takesOut_commit
    {v : Snapshot}
    (hv : v.transfers ≠ [])
    (d : StreamingData) :
    TakesOut d (commit v d) v.result := by
  unfold commit
  rw [if_pos hv]
  refine ⟨rfl, rfl, ⟨rfl, rfl⟩, rfl, rfl, ?_⟩
  simp only [u16Int]
  omega

theorem takesOut_memcpyRun
    {w : Copied}
    (h : TakesOut d w.data w.result)
    (sectorsToCopy : Nat) (maxcount : Int) :
    TakesOut d (memcpyRun sectorsToCopy maxcount w).data
      (memcpyRun sectorsToCopy maxcount w).result := by
  obtain ⟨hstat, hmark, hsizes, hlsn, hwrite, hstreamed⟩ := h
  unfold memcpyRun
  split_ifs with hpos
  · refine ⟨hstat, hmark, hsizes, hlsn, hwrite, ?_⟩
    simp only [u16Int]
    omega
  · exact ⟨hstat, hmark, hsizes, hlsn, hwrite, hstreamed⟩

/-- `ReadSectors`. -/
theorem takesOut_readSectors (d : StreamingData) (maxcount : Int) :
    TakesOut d (readSectors d maxcount).data (readSectors d maxcount).result := by
  have hnone : TakesOut d d 0 := ⟨rfl, rfl, ⟨rfl, rfl⟩, rfl, rfl, rfl⟩
  have hend :
      TakesOut d (memcpyToEnd maxcount ⟨d, 0, []⟩).data
        (memcpyToEnd maxcount ⟨d, 0, []⟩).result := by
    unfold memcpyToEnd
    split_ifs
    · exact takesOut_memcpyRun (w := ⟨d, 0, []⟩) hnone _ _
    · exact hnone
  unfold readSectors memcpyToWritePtr
  split_ifs
  · exact takesOut_memcpyRun hend _ _
  · exact hend

end Counters

section Fills

variable {s t : State}

/-- A step of a fill moves no context. -/
theorem fillStep_frame (s : State) (f : FillPc) :
    (fillStep s f).1.client = s.client ∧ (fillStep s f).1.thread = s.thread ∧
      (fillStep s f).1.handler = s.handler := by
  cases f with
  | marking =>
      cases hmark : s.data.isReading with
      | true => simp [fillStep, hmark]
      | false => simp [fillStep, hmark]
  | requesting k =>
      cases hbusy : s.pending.isSome with
      | true => simp [fillStep, hbusy]
      | false => simp [fillStep, hbusy]
  | clearing k refused => exact ⟨rfl, rfl, rfl⟩

def FillNext.window : FillNext → Option Nat
  | .goesOn f => f.window
  | .returns _ => none

/-- The reading thread has not moved, or has no read to account for. -/
def SameHandling (s t : State) : Prop :=
  t.thread = s.thread ∨ (t.thread.handling = none ∧ s.thread.handling = none)

theorem SameHandling.handling_eq
    (h : SameHandling s t) :
    t.thread.handling = s.thread.handling := by
  rcases h with hsame | ⟨hnone, hnone'⟩
  · rw [hsame]
  · rw [hnone, hnone']

/-- Where the reading thread has a read to account for, it has not moved. -/
theorem SameHandling.thread_eq
    {q : Request}
    (h : SameHandling s t)
    (hq : t.thread.handling = some q) :
    t.thread = s.thread := by
  rcases h with hsame | ⟨hnone, -⟩
  · exact hsame
  · rw [hnone] at hq
    cases hq

/-- A step after which the counters and the log are those of before, but for the
mark. -/
theorem Inv.withMark
    (h : Inv s)
    (mark : Bool)
    (hdata : t.data = { s.data with isReading := mark })
    (hcallback : t.stm0Callback = s.stm0Callback)
    (hpending : t.pending = s.pending)
    (hlog : t.log = s.log)
    (hthread : SameHandling s t)
    (hclient : ∀ r v, t.client = .committing r v → v.transfers ≠ [])
    (hmarks :
      MarkOk s.data.stat s.log.streams mark t.windows
        (held s.pending s.log.streams +
          held s.thread.handling s.log.streams))
    (houtlived :
      mark = true → (s.data.isReading = true → s.windows ≠ [] ∨
        bankPending s = true) → t.windows ≠ [] ∨ bankPending s = true) :
    Inv t := by
  have hsame := hthread.handling_eq
  constructor
  · rw [hcallback, hdata]
    exact h.callback
  · rw [hdata, hpending, hlog, hsame]
    exact hmarks
  · rw [hdata, hpending, hlog, hsame]
    exact h.reads
  · intro hstat q hq hmark
    have hmoved : t.thread = s.thread := by
      rcases hq with hq | hq
      · exact hthread.thread_eq (q := q) (by rw [hq]; rfl)
      · exact hthread.thread_eq (q := q) (by rw [hq]; rfl)
    rw [hmoved] at hq
    rw [hdata] at hstat hmark
    have hbank : bankPending t = bankPending s := by
      unfold bankPending
      rw [hpending]
    rw [hbank]
    exact houtlived hmark (h.outlived hstat q hq)
  · intro q hq
    have hmoved : t.thread = s.thread := hthread.thread_eq (q := q) (by rw [hq]; rfl)
    rw [hmoved] at hq
    rw [hlog]
    exact h.advancing q hq
  · intro hstat
    rw [hdata] at hstat ⊢
    rw [hlog]
    exact (h.counters hstat).mark mark
  · exact hclient

/-- A window that is alone has none beside it. -/
theorem apart_of_single
    {before after : List Nat} {k : Nat}
    (h : before ++ [k] ++ after = [k]) :
    before = [] ∧ after = [] := by
  have hlength := congrArg List.length h
  simp only [List.length_append, List.length_singleton] at hlength
  constructor
  · apply List.eq_nil_of_length_eq_zero
    omega
  · apply List.eq_nil_of_length_eq_zero
    omega

/-- A fill that is past its mark is the only one in a window. -/
theorem Inv.only_window
    {before after : List Nat} {k : Nat}
    (h : Inv s)
    (hwas : s.windows = before ++ (some k).toList ++ after) :
    s.windows = [k] ∧ before = [] ∧ after = [] := by
  have honly : s.windows = [k] := by
    apply h.marks.windows_eq
    rw [hwas]
    simp
  exact ⟨honly, apart_of_single (hwas.symm.trans honly)⟩

/-- `sceCdRead` accepts the bank of the only fill. -/
theorem Inv.acceptBank
    {k : Nat}
    (h : Inv s)
    (honly : s.windows = [k])
    (hfree : s.pending = none)
    (hdata : t.data = s.data)
    (hcallback : t.stm0Callback = s.stm0Callback)
    (hpending : t.pending = some (.bank ⟨s.log.accepted, k⟩))
    (hlog : t.log = { s.log with accepted := s.log.accepted + 1 })
    (hthread : SameHandling s t)
    (hclient : ∀ r v, t.client = .committing r v → v.transfers ≠ [])
    (hwindows : t.windows = []) :
    Inv t := by
  have hsame := hthread.handling_eq
  have hmarks := h.marks
  have hreads := h.reads
  rw [honly, hfree] at hmarks
  rw [hfree] at hreads
  have hk : k ≤ s.log.streams := hmarks.opened k (List.mem_singleton_self k)
  constructor
  · rw [hcallback, hdata]
    exact h.callback
  · have haccept := hmarks.accept
    rw [hdata, hpending, hlog, hsame, hwindows]
    simp only [held] at haccept ⊢
    rw [Nat.zero_add] at haccept
    rw [Nat.add_comm]
    exact haccept
  · rw [hdata, hpending, hlog, hsame]
    exact hreads.accept hk
  · intro _ _ _ _
    right
    simp [bankPending, hpending]
  · intro q hq
    have hmoved : t.thread = s.thread :=
      hthread.thread_eq (q := q) (by rw [hq]; rfl)
    rw [hmoved] at hq
    rw [hlog]
    exact h.advancing q hq
  · intro hstat
    rw [hdata] at hstat ⊢
    rw [hlog]
    exact h.counters hstat
  · exact hclient

/-- A step of a fill; `before` and `after` are the windows of the other
contexts. -/
theorem Inv.fill
    {f : FillPc} {before after : List Nat}
    (h : Inv s)
    (huse : f = .marking → Unopened s)
    (hdata : t.data = (fillStep s f).1.data)
    (hcallback : t.stm0Callback = (fillStep s f).1.stm0Callback)
    (hpending : t.pending = (fillStep s f).1.pending)
    (hlog : t.log = (fillStep s f).1.log)
    (hthread : SameHandling s t)
    (hclient : ∀ r v, t.client = .committing r v → v.transfers ≠ [])
    (hwas : s.windows = before ++ f.window.toList ++ after)
    (his : t.windows = before ++ (fillStep s f).2.window.toList ++ after) :
    Inv t := by
  cases f with
  | marking =>
      cases hmark : s.data.isReading with
      | true =>
          have hstep : fillStep s .marking = (s, .returns 0) := by
            simp [fillStep, hmark]
          rw [hstep] at hdata hcallback hpending hlog his
          have hwindows : t.windows = s.windows := his.trans hwas.symm
          refine h.withMark true ?_ hcallback hpending hlog hthread
            hclient ?_ ?_
          · rw [hdata, ← hmark]
          · rw [hwindows, ← hmark]
            exact h.marks
          · intro _ hopen
            rw [hwindows]
            exact hopen hmark
      | false =>
          have hnone := huse rfl hmark
          have hapart : before = [] ∧ after = [] := by
            have hempty : before ++ (none : Option Nat).toList ++ after = [] :=
              hwas.symm.trans hnone
            simpa using hempty
          obtain ⟨rfl, rfl⟩ := hapart
          have hwindow : t.windows = [s.log.streams] := by
            rw [his]
            simp only [fillStep, hmark]
            cases hasRoom s.data with
            | true => rfl
            | false => rfl
          simp only [fillStep, hmark] at hdata hcallback hpending hlog
          refine h.withMark true hdata hcallback hpending hlog hthread
            hclient ?_ ?_
          · rw [hwindow]
            apply MarkOk.open_window
            have hmarks := h.marks
            rw [hmark, hnone] at hmarks
            exact hmarks
          · intro _ _
            rw [hwindow]
            exact Or.inl (List.cons_ne_nil _ _)
  | requesting k =>
      obtain ⟨honly, rfl, rfl⟩ := h.only_window hwas
      cases hbusy : s.pending.isSome with
      | true =>
          have hstep :
              fillStep s (.requesting k) = (s, .goesOn (.clearing k true)) := by
            simp [fillStep, hbusy]
          rw [hstep] at hdata hcallback hpending hlog his
          have hwindows : t.windows = s.windows := his.trans hwas.symm
          refine h.withMark s.data.isReading hdata hcallback hpending
            hlog hthread hclient ?_ ?_
          · rw [hwindows]
            exact h.marks
          · intro hmark hopen
            rw [hwindows]
            exact hopen hmark
      | false =>
          have hfree : s.pending = none := by
            simpa using hbusy
          have hstep :
              fillStep s (.requesting k) =
                ({ s with
                    pending := some (.bank ⟨s.log.accepted, k⟩)
                    log := { s.log with accepted := s.log.accepted + 1 } },
                  .returns 0) := by
            simp [fillStep, hbusy]
          rw [hstep] at hdata hcallback hpending hlog his
          dsimp only at hdata hcallback hpending hlog
          exact h.acceptBank honly hfree hdata hcallback hpending hlog hthread
            hclient his
  | clearing k refused =>
      obtain ⟨honly, rfl, rfl⟩ := h.only_window hwas
      have hwindows : t.windows = [] := by
        rw [his]
        rfl
      have hmarks := h.marks
      rw [honly] at hmarks
      refine h.withMark false hdata hcallback hpending hlog hthread
        hclient ?_ ?_
      · rw [hwindows]
        exact hmarks.clear
      · intro hfalse
        cases hfalse

end Fills

section Steps

variable {s t : State}

/-- A step of the client outside its fills that leaves the shared state. -/
theorem Inv.moveClient
    (h : Inv s)
    (alarm : Bool) (pc : ClientPc)
    (hwindow : pc.window = s.client.window)
    (hcopy : ∀ r v, pc = .committing r v → v.transfers ≠ []) :
    Inv { s with alarm := alarm, client := pc } := by
  have hwindows : { s with alarm := alarm, client := pc }.windows = s.windows := by
    simp only [State.windows, hwindow]
  refine ⟨h.callback, ?_, h.reads, ?_, h.advancing, h.counters, hcopy⟩
  · rw [hwindows]
    exact h.marks
  · rw [hwindows]
    exact h.outlived

theorem afterCopy_window (r : ReadLoop) (n : Nat) :
    (afterCopy r n).window = none := by
  unfold afterCopy
  split_ifs
  · rfl
  · rfl

theorem afterCopy_ne_committing (r : ReadLoop) (n : Nat) :
    ∀ r' v, afterCopy r n ≠ .committing r' v := by
  intro r' v
  unfold afterCopy
  split_ifs
  · intro h
    cases h
  · intro h
    cases h

/-- The client has taken out `n` sectors. -/
theorem Inv.takeOut
    {r : ReadLoop} {d : StreamingData} {n : Nat}
    (h : Inv s)
    (hclosed : s.client.window = none)
    (hcopy : TakesOut s.data d n) :
    Inv
      { s with
        data := d
        client := afterCopy r n
        log := { s.log with taken := s.log.taken + n } } := by
  have hpc := afterCopy_window r n
  have hwindows :
      { s with
        data := d
        client := afterCopy r n
        log := { s.log with taken := s.log.taken + n } }.windows =
        s.windows := by
    simp only [State.windows, hpc, hclosed]
  have hstat := hcopy.stat
  have hmark := hcopy.isReading
  constructor
  · exact h.callback.trans hstat.symm
  · rw [hwindows]
    simp only [hstat, hmark]
    exact h.marks
  · simp only [hstat]
    exact ⟨h.reads.fresh, h.reads.pending, h.reads.handled, h.reads.advances,
      h.reads.once, h.reads.complete⟩
  · rw [hwindows]
    simp only [hstat, hmark]
    exact h.outlived
  · exact h.advancing
  · intro htrue
    exact (h.counters (hstat.symm.trans htrue)).takesOut hcopy
  · intro r' v hcommits
    exact absurd hcommits (afterCopy_ne_committing r n r' v)

/-- The section of `sceCdStStop`. -/
theorem Inv.stop
    (h : Inv s)
    (restart : Option Nat)
    (hclosed : s.client.window = none) :
    Inv
      { s with
        data := stStop s.data
        stm0Callback := false
        client := .syncing restart } := by
  have hwindows :
      { s with
        data := stStop s.data
        stm0Callback := false
        client := .syncing restart }.windows = s.windows := by
    have hpc : (ClientPc.syncing restart).window = none := rfl
    simp only [State.windows, hclosed, hpc]
  refine ⟨rfl, ?_, h.reads.stop, ?_, h.advancing, ?_, ?_⟩
  · rw [hwindows]
    exact h.marks.stop _ _
  · intro _ _ _ hmark
    cases hmark
  · intro hstat
    cases hstat
  · intro r v hpc
    cases hpc

/-- No read is of the stream that is about to start. -/
theorem held_next
    {started : Bool} {q p : Option Request} {log : Log}
    (h : ReadsOk started q p log) :
    held q (log.streams + 1) + held p (log.streams + 1) = 0 := by
  have hpending : held q (log.streams + 1) = 0 := by
    unfold held
    split
    · rename_i r
      have hle := (h.pending r rfl).2.2
      rw [if_neg (by omega)]
    · rfl
  have hhandled : held p (log.streams + 1) = 0 := by
    unfold held
    split
    · rename_i r
      have hle := (h.fresh r (h.handled r rfl).1).2
      rw [if_neg (by omega)]
    · rfl
  omega

/-- The section of `sceCdStStart`. -/
theorem Inv.start
    {lsn : Nat}
    (h : Inv s)
    (huse : s.thread.inCallback = false)
    (hclosed : s.client.window = none) :
    Inv
      { s with
        data := stStart lsn s.data
        stm0Callback := true
        client := .filling .marking
        log :=
          { s.log with
            streams := s.log.streams + 1
            origin := stStart lsn s.data
            taken := 0 } } := by
  have hnone : s.log.advances.countP (fun a => a.stream = s.log.streams + 1) = 0 := by
    rw [List.countP_eq_zero]
    intro a ha
    obtain ⟨r, hr, -, hstream⟩ := h.reads.advances a ha
    have hle := (h.reads.fresh r hr).2
    simp only [decide_eq_true_eq]
    omega
  refine ⟨rfl, ?_, h.reads.start _, ?_, ?_, ?_, ?_⟩
  · have hwindows :
        { s with
          data := stStart lsn s.data
          stm0Callback := true
          client := .filling .marking
          log :=
            { s.log with
              streams := s.log.streams + 1
              origin := stStart lsn s.data
              taken := 0 } }.windows = s.windows := by
      have hpc : (ClientPc.filling .marking).window = none := rfl
      simp only [State.windows, hclosed, hpc]
    rw [hwindows]
    dsimp only
    rw [held_next h.reads]
    exact h.marks.start
  · intro hstat
    cases hstat
  · intro q hq
    have hpc : s.thread = .advancing q := hq
    rw [hpc] at huse
    cases huse
  · intro _
    show Counted _ (s.log.advances.countP
      (fun a => a.stream = s.log.streams + 1)) 0 _
    rw [hnone]
    exact counted_start rfl
  · intro r v hpc
    cases hpc

/-- A step of the client inside a call. -/
theorem Inv.clientStep
    (h : Inv s)
    (huse : WindowsApart s .client)
    (ht : clientStep s = some t) :
    Inv t := by
  unfold Accounting.clientStep at ht
  simp only [WindowsApart] at huse
  cases hclient : s.client with
  | outside =>
      rw [hclient] at ht
      cases ht
  | cancelling restart =>
      rw [hclient] at ht
      cases ht
      exact h.moveClient _ _ (by rw [hclient]; rfl) (fun _ _ hpc => by cases hpc)
  | stopping restart =>
      rw [hclient] at ht
      cases ht
      exact h.stop _ (by rw [hclient]; rfl)
  | syncing restart =>
      rw [hclient] at ht
      cases restart with
      | none =>
          dsimp only at ht
          split_ifs at ht
          cases ht
          exact h.moveClient s.alarm _ (by rw [hclient]; rfl)
            (fun _ _ hpc => by cases hpc)
      | some lsn =>
          dsimp only at ht
          split_ifs at ht
          cases ht
          exact h.moveClient s.alarm _ (by rw [hclient]; rfl)
            (fun _ _ hpc => by cases hpc)
  | starting lsn =>
      rw [hclient] at ht huse
      cases ht
      exact h.start huse (by rw [hclient]; rfl)
  | reading r =>
      rw [hclient] at ht
      dsimp only at ht
      split_ifs at ht with hee hcopy
      · cases ht
        refine h.moveClient s.alarm _ (by rw [hclient]; rfl) ?_
        intro r' v hpc
        cases hpc
        exact hcopy
      · cases ht
        refine h.moveClient s.alarm _ ?_ ?_
        · rw [hclient]
          exact afterCopy_window r 0
        · intro r' v hpc
          exact absurd hpc (afterCopy_ne_committing r 0 r' v)
      · cases ht
        exact h.takeOut (by rw [hclient]; rfl) (takesOut_readSectors _ _)
  | committing r v =>
      rw [hclient] at ht
      cases ht
      exact h.takeOut (by rw [hclient]; rfl)
        (takesOut_commit (h.copying r v hclient) _)
  | filling f =>
      rw [hclient] at ht huse
      have hwas :
          s.windows =
            [] ++ f.window.toList ++
              (s.thread.window.toList ++ s.handler.window.toList) := by
        simp [State.windows, hclient, ClientPc.window]
      have hguard : f = .marking → Unopened s := by
        intro hf
        subst hf
        exact huse
      obtain ⟨-, hthread, hhandler⟩ := fillStep_frame s f
      have hfill : ∀ (alarm : Bool) (pc : ClientPc),
          pc.window = (fillStep s f).2.window →
          (∀ r v, pc = .committing r v → v.transfers ≠ []) →
          Inv { (fillStep s f).1 with alarm := alarm, client := pc } := by
        intro alarm pc hwindow hcopy
        refine h.fill hguard rfl rfl rfl rfl (Or.inl hthread) hcopy hwas ?_
        simp only [State.windows, hwindow, hthread, hhandler, List.nil_append,
          List.append_assoc]
      rcases hstep : fillStep s f with ⟨u, next⟩
      rw [hstep] at hfill
      simp only [hstep] at ht
      cases next with
      | goesOn g =>
          cases ht
          exact hfill u.alarm (.filling g) rfl (fun _ _ hpc => by cases hpc)
      | returns result =>
          dsimp only at ht
          split_ifs at ht
          · cases ht
            exact hfill u.alarm .arming rfl (fun _ _ hpc => by cases hpc)
          · cases ht
            exact hfill u.alarm .outside rfl (fun _ _ hpc => by cases hpc)
  | arming =>
      rw [hclient] at ht
      cases ht
      exact h.moveClient _ _ (by rw [hclient]; rfl) (fun _ _ hpc => by cases hpc)

/-- A call of the client. -/
theorem Inv.call
    (h : Inv s)
    (op : Op)
    (hclient : s.client = .outside) :
    Inv (callStep s op) := by
  have hmove : ∀ pc : ClientPc, pc.window = none →
      (∀ r v, pc ≠ .committing r v) → Inv { s with client := pc } := by
    intro pc hwindow hcopy
    refine h.moveClient s.alarm pc ?_ (fun r v hpc => absurd hpc (hcopy r v))
    rw [hwindow, hclient]
    rfl
  cases op with
  | stStart lsn =>
      simp only [callStep]
      split_ifs
      · exact hmove (.cancelling (some lsn)) rfl (fun _ _ hpc => by cases hpc)
      · exact hmove (.starting lsn) rfl (fun _ _ hpc => by cases hpc)
  | stStop =>
      simp only [callStep]
      split_ifs
      · exact hmove (.cancelling none) rfl (fun _ _ hpc => by cases hpc)
      · exact h
  | stSeek lsn =>
      simp only [callStep]
      split_ifs
      · exact hmove (.cancelling (some lsn)) rfl (fun _ _ hpc => by cases hpc)
      · exact h
  | stRead ee blocking sectors =>
      simp only [callStep]
      split_ifs
      · exact hmove (.reading ⟨sectors, ee, blocking, s32 sectors, 0⟩) rfl
          (fun _ _ hpc => by cases hpc)
      · exact hmove (.filling .marking) rfl (fun _ _ hpc => by cases hpc)
      · exact h

/-- The handler of the alarm. -/
theorem Inv.handlerStep
    (h : Inv s)
    (huse : WindowsApart s .handler)
    (ht : handlerStep s = some t) :
    Inv t := by
  unfold Accounting.handlerStep at ht
  simp only [WindowsApart] at huse
  cases hhandler : s.handler with
  | idle =>
      rw [hhandler] at ht
      dsimp only at ht
      split_ifs at ht
      cases ht
      have hwindows :
          { s with alarm := false, handler := .filling .marking }.windows =
            s.windows := by
        simp only [State.windows, hhandler, HandlerPc.window, FillPc.window]
      refine ⟨h.callback, ?_, h.reads, ?_, h.advancing, h.counters, h.copying⟩
      · rw [hwindows]
        exact h.marks
      · rw [hwindows]
        exact h.outlived
  | filling f =>
      rw [hhandler] at ht huse
      have hwas :
          s.windows =
            (s.client.window.toList ++ s.thread.window.toList) ++
              f.window.toList ++ [] := by
        simp [State.windows, hhandler, HandlerPc.window]
      have hguard : f = .marking → Unopened s := by
        intro hf
        subst hf
        exact huse
      obtain ⟨hclient, hthread, -⟩ := fillStep_frame s f
      have hfill : ∀ (alarm : Bool) (pc : HandlerPc),
          pc.window = (fillStep s f).2.window →
          Inv { (fillStep s f).1 with alarm := alarm, handler := pc } := by
        intro alarm pc hwindow
        refine h.fill hguard rfl rfl rfl rfl (Or.inl hthread) ?_ hwas ?_
        · intro r v hpc
          exact h.copying r v (hclient.symm.trans hpc)
        · simp only [State.windows, hwindow, hthread, hclient, List.append_nil]
      rcases hstep : fillStep s f with ⟨u, next⟩
      rw [hstep] at hfill
      simp only [hstep] at ht
      cases next with
      | goesOn g =>
          cases ht
          exact hfill u.alarm (.filling g) rfl
      | returns result =>
          dsimp only at ht
          split_ifs at ht
          · cases ht
            exact hfill true .idle rfl
          · cases ht
            exact hfill u.alarm .idle rfl

/-- The read that ends is held by the reading thread from then on. -/
theorem held_finish (q : Request) (log : Log) :
    (log.finish q).streams = log.streams ∧
      (log.finish q).advances = log.advances ∧
      (log.finish q).origin = log.origin ∧ (log.finish q).taken = log.taken := by
  cases q with
  | bank r => exact ⟨rfl, rfl, rfl, rfl⟩
  | foreign async => exact ⟨rfl, rfl, rfl, rfl⟩

/-- The reading thread ends the read `q`. -/
theorem Inv.endRead
    {q : Request}
    (h : Inv s)
    (hthread : s.thread = .idle)
    (hpending : s.pending = some q) :
    Inv
      { s with
        pending := none
        thread := .testing q
        log := s.log.finish q } := by
  obtain ⟨hstreams, hadvances, horigin, htaken⟩ := held_finish q s.log
  have hwindows :
      { s with
        pending := none
        thread := .testing q
        log := s.log.finish q }.windows = s.windows := by
    simp only [State.windows, hthread, ThreadPc.window]
  have hmarks := h.marks
  have hreads := h.reads
  rw [hpending, hthread] at hmarks hreads
  refine ⟨h.callback, ?_, hreads.finish, ?_, ?_, ?_, h.copying⟩
  · rw [hwindows]
    simp only [hstreams, ThreadPc.handling] at hmarks ⊢
    rw [Nat.add_comm]
    exact hmarks
  · rintro - q' (hq | hq) -
    · cases hq
    · cases hq
  · intro q' hq
    cases hq
  · intro hstat
    have hcounted := h.counters hstat
    unfold Log.banks at hcounted ⊢
    simp only [hstreams, hadvances, horigin, htaken]
    exact hcounted

/-- The section of `StmCallback`. -/
theorem Inv.advance
    {q : Request}
    (h : Inv s)
    (hthread : s.thread = .advancing q) :
    Inv
      { s with
        data := accountBank s.data
        thread := .filling .marking
        log :=
          { s.log with
            advances := s.log.advances ++ [⟨q, s.log.streams⟩] } } := by
  obtain ⟨r, rfl, hstream⟩ := h.advancing q hthread
  have hmarks := h.marks
  have hreads := h.reads
  rw [hthread] at hmarks hreads
  have hheld :
      held (ThreadPc.advancing (.bank r)).handling s.log.streams = 1 := by
    simp [held, ThreadPc.handling, hstream]
  rw [hheld] at hmarks
  have hwindows :
      { s with
        data := accountBank s.data
        thread := .filling .marking
        log :=
          { s.log with
            advances :=
              s.log.advances ++
                [Advance.mk (.bank r) s.log.streams] } }.windows =
        s.windows := by
    simp only [State.windows, hthread, ThreadPc.window, FillPc.window]
  refine ⟨h.callback, ?_, hreads.advance hstream, ?_, ?_, ?_, h.copying⟩
  · rw [hwindows]
    -- the mark of a started stream was held by this read alone
    refine ⟨hmarks.one, hmarks.opened, ?_, ?_⟩
    · intro hstat
      have hholder := hmarks.holder hstat
      have hone : s.data.isReading.toNat ≤ 1 := Bool.toNat_le _
      show s.windows.count s.log.streams + (held s.pending s.log.streams + 0) = 0
      omega
    · intro hstat hopen hnone
      have hrest := hmarks.stale hstat hopen hnone
      omega
  · rintro - q' (hq | hq) -
    · cases hq
    · cases hq
  · intro q' hq
    cases hq
  · intro hstat
    have hcounted := (h.counters hstat).advance
    have hbanks :
        (s.log.advances ++ [Advance.mk (.bank r) s.log.streams]).countP
            (fun a => a.stream = s.log.streams) =
          s.log.advances.countP (fun a => a.stream = s.log.streams) + 1 := by
      rw [List.countP_append, List.countP_singleton]
      simp
    unfold Log.banks at hcounted ⊢
    dsimp only
    rw [hbanks]
    exact hcounted

/-- The reading thread goes on to `pc` with the read it has in hand. -/
theorem Inv.moveThread
    (h : Inv s)
    (alarm : Bool) (pc : ThreadPc)
    (hwindow : pc.window = s.thread.window)
    (hhandling : pc.handling = s.thread.handling)
    (houtlived :
      s.data.stat = false → ∀ q, pc = .calling q ∨ pc = .checking q →
        s.data.isReading = true → s.windows ≠ [] ∨ bankPending s = true)
    (hadvancing :
      ∀ q, pc = .advancing q → ∃ r, q = .bank r ∧ r.stream = s.log.streams) :
    Inv { s with alarm := alarm, thread := pc } := by
  have hwindows : { s with alarm := alarm, thread := pc }.windows = s.windows := by
    simp only [State.windows, hwindow]
  refine ⟨h.callback, ?_, ?_, ?_, hadvancing, h.counters, h.copying⟩
  · rw [hwindows]
    simp only [hhandling]
    exact h.marks
  · simp only [hhandling]
    exact h.reads
  · rw [hwindows]
    exact houtlived

/-- The reading thread leaves a read uncounted that is not a bank of the current
stream. -/
theorem Inv.leaveRead
    (h : Inv s)
    (pc : ThreadPc)
    (hwindow : pc.window = s.thread.window)
    (hhandling : pc.handling = none)
    (hnot :
      s.data.stat = true → held s.thread.handling s.log.streams = 0) :
    Inv { s with thread := pc } := by
  have hwindows : { s with thread := pc }.windows = s.windows := by
    simp only [State.windows, hwindow]
  refine ⟨h.callback, ?_, ?_, ?_, ?_, h.counters, h.copying⟩
  · rw [hwindows]
    simp only [hhandling]
    have hmarks := h.marks
    refine ⟨hmarks.one, hmarks.opened, ?_, ?_⟩
    · intro hstat
      have hholder := hmarks.holder hstat
      rw [hnot hstat] at hholder
      exact hholder
    · intro hstat hopen hnone
      have hrest := hmarks.stale hstat hopen hnone
      rw [hnot hstat] at hrest
      exact hrest
  · simp only [hhandling]
    exact h.reads.leave hnot
  · rintro - q (hq | hq) -
    · have hpc : pc = .calling q := hq
      rw [hpc] at hhandling
      cases hhandling
    · have hpc : pc = .checking q := hq
      rw [hpc] at hhandling
      cases hhandling
  · intro q hq
    have hpc : pc = .advancing q := hq
    rw [hpc] at hhandling
    cases hhandling

/-- While no window is open and no bank is pending, the mark is held by the read that
the thread has just ended. -/
theorem Inv.holds_mark
    {q : Request}
    (h : Inv s)
    (hthread : s.thread = .checking q)
    (hmark : s.data.isReading = true)
    (hopen : s.windows = [])
    (hbank : bankPending s = false) :
    ∃ r, q = .bank r ∧ r.stream = s.log.streams := by
  have hnone : held s.pending s.log.streams = 0 := by
    unfold bankPending at hbank
    unfold held
    split at hbank
    · cases hbank
    · rfl
  have hstat : s.data.stat = true := by
    by_contra hstopped
    rw [Bool.not_eq_true] at hstopped
    rcases h.outlived hstopped q (Or.inr hthread) hmark with hne | htrue
    · exact hne hopen
    · rw [hbank] at htrue
      cases htrue
  have hheld : held (some q) s.log.streams = 1 := by
    have hholder := h.marks.holder hstat
    rw [hopen, hnone, hmark, hthread] at hholder
    simpa [ThreadPc.handling] using hholder
  cases q with
  | bank r =>
      refine ⟨r, rfl, ?_⟩
      by_contra hother
      simp [held, hother] at hheld
  | foreign async => cases hheld

/-- A step of the reading thread. -/
theorem Inv.threadStep
    (h : Inv s)
    (huse : WindowsApart s .thread)
    (ht : threadStep s = some t) :
    Inv t := by
  unfold Accounting.threadStep at ht
  simp only [WindowsApart] at huse
  cases hthread : s.thread with
  | idle =>
      rw [hthread] at ht
      dsimp only at ht
      split at ht
      · rename_i q hpending
        split_ifs at ht
        cases ht
        exact h.endRead hthread hpending
      · cases ht
  | testing q =>
      rw [hthread] at ht
      dsimp only at ht
      split_ifs at ht with hset
      · cases ht
        have hstat : s.data.stat = true := h.callback.symm.trans hset
        refine h.moveThread s.alarm (.calling q) (by rw [hthread]; rfl)
          (by rw [hthread]; rfl) ?_ ?_
        · intro hfalse
          rw [hstat] at hfalse
          cases hfalse
        · intro q' hq
          cases hq
      · cases ht
        refine h.leaveRead .idle (by rw [hthread]; rfl) rfl ?_
        intro hstat
        exact absurd (h.callback.trans hstat) hset
  | calling q =>
      rw [hthread] at ht
      dsimp only at ht
      split_ifs at ht
      cases ht
      refine h.moveThread s.alarm (.checking q) (by rw [hthread]; rfl)
        (by rw [hthread]; rfl) ?_ ?_
      · intro hstat _ _ hmark
        exact h.outlived hstat q (Or.inl hthread) hmark
      · intro q' hq
        cases hq
  | checking q =>
      rw [hthread] at ht huse
      dsimp only at ht
      split_ifs at ht with hmark
      · cases ht
        obtain ⟨hopen, hbank⟩ := huse hmark
        obtain ⟨r, rfl, hstream⟩ := h.holds_mark hthread hmark hopen hbank
        refine h.moveThread s.alarm (.advancing (.bank r)) (by rw [hthread]; rfl)
          (by rw [hthread]; rfl) ?_ ?_
        · rintro - q' (hq | hq) -
          · cases hq
          · cases hq
        · intro q' hq
          cases hq
          exact ⟨r, rfl, hstream⟩
      · cases ht
        refine h.leaveRead (.filling .marking) (by rw [hthread]; rfl) rfl ?_
        intro hstat
        have hholder := h.marks.holder hstat
        rw [Bool.not_eq_true] at hmark
        rw [hmark] at hholder
        simp only [Bool.toNat_false] at hholder
        omega
  | advancing q =>
      rw [hthread] at ht
      cases ht
      exact h.advance hthread
  | filling f =>
      rw [hthread] at ht huse
      have hwas :
          s.windows =
            s.client.window.toList ++ f.window.toList ++
              s.handler.window.toList := by
        simp [State.windows, hthread, ThreadPc.window]
      have hguard : f = .marking → Unopened s := by
        intro hf
        subst hf
        exact huse
      obtain ⟨hclient, -, hhandler⟩ := fillStep_frame s f
      have hfill : ∀ (alarm : Bool) (pc : ThreadPc),
          pc.window = (fillStep s f).2.window → pc.handling = none →
          Inv { (fillStep s f).1 with alarm := alarm, thread := pc } := by
        intro alarm pc hwindow hhandling
        refine h.fill hguard rfl rfl rfl rfl
          (Or.inr ⟨hhandling, by rw [hthread]; rfl⟩) ?_ hwas ?_
        · intro r v hpc
          exact h.copying r v (hclient.symm.trans hpc)
        · simp only [State.windows, hwindow, hhandler, hclient]
      rcases hstep : fillStep s f with ⟨u, next⟩
      rw [hstep] at hfill
      simp only [hstep] at ht
      cases next with
      | goesOn g =>
          cases ht
          exact hfill u.alarm (.filling g) rfl rfl
      | returns result =>
          dsimp only at ht
          split_ifs at ht
          · cases ht
            exact hfill u.alarm .arming rfl rfl
          · cases ht
            exact hfill u.alarm .idle rfl rfl
  | arming =>
      rw [hthread] at ht
      cases ht
      refine h.moveThread true .idle (by rw [hthread]; rfl) (by rw [hthread]; rfl)
        ?_ ?_
      · rintro - q (hq | hq) -
        · cases hq
        · cases hq
      · intro q hq
        cases hq

/-- The read of another thread is accepted, or ends. -/
theorem Inv.foreign
    {q : Option Request}
    (h : Inv s)
    (hwas : ∀ r, s.pending ≠ some (.bank r))
    (his : ∀ r, q ≠ some (.bank r)) :
    Inv { s with pending := q } := by
  have hheld : ∀ (p : Option Request) k, (∀ r, p ≠ some (.bank r)) →
      held p k = 0 := by
    intro p k hp
    unfold held
    split
    · rename_i r
      exact absurd rfl (hp r)
    · rfl
  have hbank : bankPending s = false := by
    unfold bankPending
    split
    · rename_i r hp
      exact absurd hp (hwas r)
    · rfl
  refine ⟨h.callback, ?_, h.reads.foreign his, ?_, h.advancing, h.counters,
    h.copying⟩
  · have hmarks := h.marks
    rw [hheld _ _ hwas] at hmarks
    dsimp only
    rw [hheld _ _ his]
    exact hmarks
  · intro hstat p hp hmark
    rcases h.outlived hstat p hp hmark with hopen | hfalse
    · exact Or.inl hopen
    · rw [hbank] at hfalse
      cases hfalse

/-- Every step of a run that keeps to the guard keeps the invariant. -/
theorem Inv.next
    {a : Act}
    (h : Inv s)
    (huse : WindowsApart s a)
    (ht : step s a = some t) :
    Inv t := by
  cases a with
  | call op =>
      simp only [step] at ht
      split at ht
      · rename_i hclient
        cases ht
        exact h.call op hclient
      · cases ht
  | client => exact h.clientStep huse ht
  | thread => exact h.threadStep huse ht
  | handler => exact h.handlerStep huse ht
  | foreignRead async =>
      simp only [step] at ht
      split_ifs at ht with hbusy
      · cases ht
        exact h
      · cases ht
        have hfree : s.pending = none := by
          simpa using hbusy
        refine h.foreign ?_ ?_
        · intro r hr
          rw [hfree] at hr
          cases hr
        · intro r hr
          cases hr
  | foreignEnd =>
      simp only [step] at ht
      split_ifs at ht with hpending
      cases ht
      refine h.foreign ?_ ?_
      · intro r hr
        rw [hpending] at hr
        cases hr
      · intro r hr
        cases hr

theorem inv_initial (bufmax bankmax : Nat) : Inv (initial bufmax bankmax) := by
  refine ⟨rfl, ?_, ?_, ?_, ?_, ?_, ?_⟩
  · refine ⟨Nat.zero_le _, ?_, ?_, ?_⟩
    · intro k hk
      cases hk
    · intro hstat
      cases hstat
    · intro hstat
      cases hstat
  · refine ⟨?_, ?_, ?_, ?_, List.nodup_nil, ?_⟩
    · intro r hr
      cases hr
    · intro r hr
      cases hr
    · intro r hr
      cases hr
    · intro a ha
      cases ha
    · intro hstat
      cases hstat
  · rintro - q (hq | hq) -
    · cases hq
    · cases hq
  · intro q hq
    cases hq
  · intro hstat
    cases hstat
  · intro r v hpc
    cases hpc

/-- **Every bank read that finishes is counted once, and nothing else is.**  In
every interleaving in which windows and callbacks keep apart: an advance of the
counters of a stream is on behalf of a finished bank read of that stream, never
twice; a started stream has counted each of its finished bank reads but the one
whose callback is still to come; and its counters are those of the start advanced
by as many banks. -/
theorem countedOnce_of_windowsApart
    {bufmax bankmax : Nat}
    (hs : GuardedReach step WindowsApart (initial bufmax bankmax) s) :
    CountedOnce s := by
  have h : Inv s := by
    refine hs.invariant (inv_initial bufmax bankmax) ?_
    intro u a u' hu huse ht
    exact hu.next huse ht
  refine ⟨h.reads.advances, h.reads.once, ?_, h.reads.complete, h.counters⟩
  intro r hr
  exact (h.reads.pending r hr).1

end Steps

section Runs

/-- Two banks of two sectors are read and counted.  After the first, another
thread's read comes before the next fill, which is refused, as is that of the
alarm; the end of that read is not counted. -/
def twoBanks : List Act :=
  [.call (.stStart 100), .client, .client, .client] ++
    List.replicate 5 .thread ++ [.foreignRead true] ++
    List.replicate 4 .thread ++ List.replicate 4 .handler ++
    List.replicate 13 .thread

theorem countedOnce_of_windowsApart_twoBanks :
    ∃ s, runGuarded step WindowsApart (initial 4 2) twoBanks = some s ∧
      s.data.stat = true ∧ s.log.finished = [⟨0, 1⟩, ⟨1, 1⟩] ∧
      s.log.advances = [⟨.bank ⟨0, 1⟩, 1⟩, ⟨.bank ⟨1, 1⟩, 1⟩] ∧
      s.data.lsn = 104 ∧ s.data.streamed = 4 ∧ CountedOnce s := by
  refine ⟨_, rfl, rfl, rfl, rfl, rfl, rfl, ?_⟩
  exact
    @countedOnce_of_windowsApart _ 4 2 (guardedReach_of_runGuarded twoBanks rfl)

/-- The end of another thread's read is counted: the test of `StIsReading` falls
into the window of the first fill of a stream. -/
theorem stmCallback_counts_foreign :
    ∃ s, runActs step (initial 2 2)
        [.foreignRead true, .thread, .call (.stStart 100), .client, .client,
          .thread, .thread, .thread, .thread] = some s ∧
      s.log.accepted = 0 ∧ s.log.finished = [] ∧ s.pending = none ∧
      s.log.advances = [⟨.foreign true, 1⟩] ∧ s.data.lsn = 101 ∧
      s.data.streamed = 1 ∧ ¬ CountedOnce s := by
  refine ⟨_, rfl, rfl, rfl, rfl, rfl, rfl, rfl, ?_⟩
  intro h
  obtain ⟨r, hr, -⟩ := h.onlyFinished _ (List.mem_singleton_self _)
  cases hr

end Runs

end Accounting
end Ps2Cdvd
