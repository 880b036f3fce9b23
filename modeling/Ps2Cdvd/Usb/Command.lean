import Ps2Cdvd.Lib.Run
import Ps2Cdvd.Usb.ReadAhead

/-!
# SCSI commands over USB

`mass_scsi_cmd` submits the transfers of a command one by one and counts them in
the static `ucmd`; `scsi_cmd_callback` counts them down and signals completion
when the count is zero or a transfer has failed.

The steps are the start of a command, each submission, each callback and the end
of the wait of a synchronous command.  usbd performs the accepted transfers in
order, and a callback may come at any time after its own submission.  What the
data are of is a parameter `κ`.

* `CmdInv`: the invariant of orderly runs, by the phase of the command;
* `massScsiCmd_completesOnce_of_orderly`: in an orderly run every command
  completes once and not early.
-/

namespace Ps2Cdvd
namespace Usb

open Lib

universe u

section Source

variable {κ : Type u}

/-- A transfer of a command. -/
inductive Part
  | cbw
  | data (pos len : Nat)
  | csw
deriving DecidableEq

/-- A transfer that was accepted and not called back yet; `what` is what its
command is about. -/
structure Transfer (κ : Type u) where
  cmd : Nat
  part : Part
  what : κ

/-- The arguments of `mass_scsi_cmd`: `data_len`, and whether there is a `cb`. -/
structure Request (κ : Type u) where
  dataLen : Nat
  hasCb : Bool
  what : κ

/-- Where the thread in `mass_scsi_cmd` is. -/
inductive Pc (κ : Type u)
  | idle
  | cbw (r : Request κ)
  | data (r : Request κ) (pos rest : Nat)
  | csw (r : Request κ)
  | waiting

/-- `ucmd`, as far as the callback uses it. -/
structure Ucmd where
  cmdCount : Int
  hasCb : Bool
  returnOk : Bool

/-- The history of one command: how often its completion was signalled, whether
its CSW transfer was called back and whether a transfer has failed, and what
`mass_scsi_cmd` has returned. -/
structure CmdRecord where
  hasCb : Bool
  signals : Nat
  cswDone : Bool
  failed : Bool
  returned : Option Bool

/-- The record of a command that has not begun. -/
def CmdRecord.fresh (hasCb : Bool) : CmdRecord where
  hasCb := hasCb
  signals := 0
  cswDone := false
  failed := false
  returned := none

/-- The driver and usbd.  `tag` numbers the commands; `early` tells whether a
completion was signalled too early, and `late` whether a callback came after the
next command had begun.  `ioSem` is the semaphore that the callback of the
read-ahead signals; both semaphores have a maximum of 1. -/
structure State (κ : Type u) where
  pc : Pc κ
  ucmd : Ucmd
  tag : Nat
  queue : List (Transfer κ)
  ioSema : Bool
  ioSem : Bool
  records : Nat → CmdRecord
  early : Bool
  late : Bool

def State.initial (κ : Type u) : State κ where
  pc := .idle
  ucmd := ⟨0, false, true⟩
  tag := 0
  queue := []
  ioSema := false
  ioSem := false
  records := fun _ => .fresh false
  early := false
  late := false

inductive Act (κ : Type u)
  | begin (r : Request κ)
  | submit (accepted : Bool)
  | wake
  | callback (ok : Bool)

/-- The history of one command changes. -/
def State.record (s : State κ) (cmd : Nat) (f : CmdRecord → CmdRecord) : State κ :=
  { s with records := Function.update s.records cmd (f (s.records cmd)) }

/-- `mass_scsi_cmd` returns. -/
def State.return (s : State κ) (ok : Bool) : State κ :=
  { s.record s.tag (fun r => { r with returned := some ok }) with pc := .idle }

/-- The start of `mass_scsi_cmd`. -/
def beginCmd (r : Request κ) (s : State κ) : State κ :=
  { s with
    pc := .cbw r
    ucmd := { s.ucmd with cmdCount := 0, hasCb := r.hasCb }
    tag := s.tag + 1
    records := Function.update s.records (s.tag + 1) (.fresh r.hasCb) }

/-- Where the submission of data goes on. -/
def nextData (r : Request κ) (pos rest : Nat) : Pc κ :=
  if 0 < rest then .data r pos rest else .csw r

/-- `ucmd.cmd_count++; result = UsbBulkTransfer(…);` for the transfer `part`,
behind which the command goes on at `pc`. -/
def submitPart (r : Request κ) (part : Part) (accepted : Bool) (pc : Pc κ)
    (s : State κ) : State κ :=
  let s := { s with ucmd := { s.ucmd with cmdCount := s.ucmd.cmdCount + 1 } }
  if accepted then
    { s with pc := pc, queue := s.queue ++ [⟨s.tag, part, r.what⟩] }
  else s.return false

/-- The next submission of `mass_scsi_cmd`. -/
def submit (accepted : Bool) (s : State κ) : Option (State κ) :=
  match s.pc with
  | .cbw r =>
      some (submitPart r .cbw accepted (nextData r 0 r.dataLen) s)
  | .data r pos rest =>
      let trLen := if rest < maxSize then rest else maxSize
      some
        (submitPart r (.data pos trLen) accepted
          (nextData r (pos + trLen) (rest - trLen)) s)
  | .csw r =>
      let s' := submitPart r .csw accepted .waiting s
      some (if accepted && r.hasCb then s'.return true else s')
  | _ => none

/-- `ucmd->returnCode = resultCode;` and the call of `cb` or
`SignalSema(dev->ioSema)`. -/
def complete (ok : Bool) (s : State κ) : State κ :=
  let r := s.records s.tag
  { s.record s.tag (fun r => { r with signals := r.signals + 1 }) with
    ucmd := { s.ucmd with returnOk := ok }
    ioSem := s.ioSem || s.ucmd.hasCb
    ioSema := s.ioSema || !s.ucmd.hasCb
    early := s.early || !(r.cswDone || r.failed) }

/-- `scsi_cmd_callback(resultCode, bytes, &ucmd)` for the transfer `t`. -/
def scsiCmdCallback (t : Transfer κ) (ok : Bool) (s : State κ) : State κ :=
  let s :=
    { s.record t.cmd
        (fun r =>
          { r with
            cswDone := r.cswDone || decide (t.part = .csw)
            failed := r.failed || !ok }) with
      ucmd := { s.ucmd with cmdCount := s.ucmd.cmdCount - 1 }
      late := s.late || decide (t.cmd ≠ s.tag) }
  if !ok || s.ucmd.cmdCount = 0 then complete ok s else s

/-- One step. -/
def step (s : State κ) : Act κ → Option (State κ)
  | .begin r =>
      match s.pc with
      | .idle => some (beginCmd r s)
      | _ => none
  | .submit accepted => submit accepted s
  | .wake =>
      match s.pc with
      | .waiting =>
          if s.ioSema then
            some ({ s with ioSema := false }.return s.ucmd.returnOk)
          else none
      | _ => none
  | .callback ok =>
      match s.queue with
      | t :: rest => some (scsiCmdCallback t ok { s with queue := rest })
      | [] => none

end Source

section Purpose

variable {κ : Type u}

/-- Every command completes once and not early.  A command with a `cb` may still
have transfers to come when `mass_scsi_cmd` has returned 0. -/
structure CompletesOnce (s : State κ) : Prop where
  atMost : ∀ c, (s.records c).returned = some true → (s.records c).signals ≤ 1
  once :
    ∀ c, (s.records c).returned = some true →
      (s.records c).hasCb = false ∨ (∀ t ∈ s.queue, t.cmd ≠ c) →
      (s.records c).signals = 1
  notEarly : s.early = false
  notLate : s.late = false

/-- The command is between its first and its last submission. -/
def Pc.sending : Pc κ → Bool
  | .data _ _ _ => true
  | .csw _ => true
  | _ => false

/-- The order of steps under which commands complete once: a command begins when
all callbacks of the former ones have come; no callback leaves an unfinished
submission without a transfer under way; and no transfer but a CSW fails. -/
def orderly (s : State κ) : Act κ → Prop
  | .begin _ => s.queue = []
  | .callback true => ¬ (s.pc.sending = true ∧ s.queue.length = 1)
  | .callback false => ∀ t ∈ s.queue.head?, t.part = .csw
  | _ => True

instance (s : State κ) : ∀ a, Decidable (orderly s a)
  | .begin _ =>
      match h : s.queue with
      | [] => isTrue h
      | _ :: _ => isFalse (by simp [orderly, h])
  | .callback true =>
      inferInstanceAs (Decidable (¬ (s.pc.sending = true ∧ s.queue.length = 1)))
  | .callback false =>
      inferInstanceAs (Decidable (∀ t ∈ s.queue.head?, t.part = .csw))
  | .submit _ => isTrue trivial
  | .wake => isTrue trivial

end Purpose

section Invariant

variable {κ : Type u}

/-- The record of the command that has begun last. -/
def State.current (s : State κ) : CmdRecord := s.records s.tag

/-- The CSW is still to come. -/
structure Ready (s : State κ) : Prop where
  noCsw : ∀ t ∈ s.queue, t.part ≠ .csw
  count : s.ucmd.cmdCount = s.queue.length
  signals : s.current.signals = 0
  returned : s.current.returned = none

/-- The submission was aborted: what was accepted is still called back. -/
structure Aborted (s : State κ) : Prop where
  noCsw : ∀ t ∈ s.queue, t.part ≠ .csw
  count : s.ucmd.cmdCount = s.queue.length + 1
  returned : s.current.returned = some false

/-- All transfers are submitted.  The CSW is the last of them, and its callback
completes the command. -/
structure Submitted (s : State κ) : Prop where
  count : s.ucmd.cmdCount = s.queue.length
  signals : s.current.signals = if s.queue.isEmpty then 1 else 0
  last :
    s.queue = [] ∨
      ∃ front t, s.queue = front ++ [t] ∧ t.part = .csw ∧
        ∀ t' ∈ front, t'.part ≠ .csw

/-- Where the current command is. -/
def Phase (s : State κ) : Prop :=
  match s.pc with
  | .cbw r => Ready s ∧ s.current.hasCb = r.hasCb ∧ s.queue = []
  | .data r _ _ => Ready s ∧ s.current.hasCb = r.hasCb ∧ s.queue ≠ []
  | .csw r => Ready s ∧ s.current.hasCb = r.hasCb ∧ s.queue ≠ []
  | .waiting =>
      Submitted s ∧ s.current.returned = none ∧ s.current.hasCb = false
  | .idle =>
      (s.queue = [] ∧ s.current.returned = none) ∨ Aborted s ∨
        (Submitted s ∧ s.current.returned ≠ none ∧
          (s.current.hasCb = true ∨ s.queue = []))

/-- The invariant of orderly runs. -/
structure CmdInv (s : State κ) : Prop where
  phase : Phase s
  own : ∀ t ∈ s.queue, t.cmd = s.tag
  former :
    ∀ c, c ≠ s.tag → (s.records c).returned = some true →
      (s.records c).signals = 1
  token : s.ioSema = true → s.pc = .waiting ∧ s.queue = []
  hasCb : s.ucmd.hasCb = s.current.hasCb
  notEarly : s.early = false
  notLate : s.late = false

theorem cmdInv_initial : CmdInv (State.initial κ) := by
  constructor
  · exact Or.inl ⟨rfl, rfl⟩
  · simp [State.initial]
  · intro c _ h
    cases h
  · intro h
    cases h
  · rfl
  · rfl
  · rfl

@[simp] theorem record_current (s : State κ) (f : CmdRecord → CmdRecord) :
    (s.record s.tag f).records s.tag = f s.current := by
  simp [State.record, State.current]

theorem record_other
    (s : State κ) {cmd c : Nat} (f : CmdRecord → CmdRecord)
    (h : c ≠ cmd) :
    (s.record cmd f).records c = s.records c := by
  simp [State.record, h]

/-- A finished command has completed once. -/
theorem CmdInv.finished
    {s : State κ}
    (h : CmdInv s)
    (hpc : s.pc = .idle)
    (hqueue : s.queue = [])
    (hreturned : s.current.returned = some true) :
    s.current.signals = 1 := by
  have hphase := h.phase
  unfold Phase at hphase
  rw [hpc] at hphase
  rcases hphase with ⟨-, hnone⟩ | haborted | ⟨hsubmitted, -, -⟩
  · rw [hnone] at hreturned
    cases hreturned
  · rw [haborted.returned] at hreturned
    cases hreturned
  · have hsignals := hsubmitted.signals
    rw [hqueue] at hsignals
    exact hsignals

theorem CmdInv.begin
    {s : State κ}
    (h : CmdInv s)
    (hpc : s.pc = .idle)
    (hqueue : s.queue = [])
    (r : Request κ) :
    CmdInv (beginCmd r s) := by
  have hcurrent : (beginCmd r s).current = .fresh r.hasCb := by
    simp [beginCmd, State.current]
  constructor
  · refine ⟨⟨?_, ?_, ?_, ?_⟩, ?_, hqueue⟩
    · intro t ht
      rw [show (beginCmd r s).queue = s.queue from rfl, hqueue] at ht
      cases ht
    · simp [beginCmd, hqueue]
    · rw [hcurrent]
      rfl
    · rw [hcurrent]
      rfl
    · rw [hcurrent]
      rfl
  · intro t ht
    rw [show (beginCmd r s).queue = s.queue from rfl, hqueue] at ht
    cases ht
  · intro c hc hreturned
    have hother : (beginCmd r s).records c = s.records c :=
      Function.update_of_ne hc _ _
    rw [hother] at hreturned ⊢
    by_cases hlast : c = s.tag
    · subst hlast
      exact h.finished hpc hqueue hreturned
    · exact h.former c hlast hreturned
  · intro htoken
    have hwaiting := (h.token htoken).1
    rw [hpc] at hwaiting
    cases hwaiting
  · rw [hcurrent]
    rfl
  · exact h.notEarly
  · exact h.notLate

@[simp] theorem return_current (s : State κ) (ok : Bool) :
    (s.return ok).current = { s.current with returned := some ok } := by
  simp [State.return, State.record, State.current]

theorem return_other
    (s : State κ) (ok : Bool) {c : Nat}
    (h : c ≠ s.tag) :
    (s.return ok).records c = s.records c := by
  simp [State.return, State.record, h]

/-- The state that `submitPart` counts in. -/
def State.counted (s : State κ) : State κ :=
  { s with ucmd := { s.ucmd with cmdCount := s.ucmd.cmdCount + 1 } }

theorem submitPart_refused (r : Request κ) (part : Part) (pc : Pc κ) (s : State κ) :
    submitPart r part false pc s = s.counted.return false :=
  rfl

/-- The state behind a submission that was accepted. -/
def State.sent (s : State κ) (t : Transfer κ) (pc : Pc κ) : State κ :=
  { s.counted with pc := pc, queue := s.queue ++ [t] }

theorem submitPart_accepted (r : Request κ) (part : Part) (pc : Pc κ) (s : State κ) :
    submitPart r part true pc s = s.sent ⟨s.tag, part, r.what⟩ pc :=
  rfl

/-- Nothing waits for the semaphore while a command is being submitted. -/
theorem CmdInv.noToken
    {s : State κ}
    (h : CmdInv s)
    (hpc : s.pc ≠ .waiting) :
    s.ioSema = false := by
  cases htoken : s.ioSema with
  | false => rfl
  | true => exact absurd (h.token htoken).1 hpc

/-- A submission that is refused aborts the command. -/
theorem CmdInv.refuse
    {s : State κ}
    (h : CmdInv s)
    (hpc : s.pc ≠ .waiting)
    (hready : Ready s)
    (r : Request κ) (part : Part) (pc : Pc κ) :
    CmdInv (submitPart r part false pc s) := by
  rw [submitPart_refused]
  constructor
  · refine Or.inr (Or.inl ⟨hready.noCsw, ?_, ?_⟩)
    · exact congrArg (· + 1) hready.count
    · rw [return_current]
  · exact h.own
  · intro c hc hreturned
    rw [return_other s.counted false hc] at hreturned ⊢
    exact h.former c hc hreturned
  · intro htoken
    have hnone : s.ioSema = false := h.noToken hpc
    rw [show (s.counted.return false).ioSema = s.ioSema from rfl, hnone] at htoken
    cases htoken
  · rw [return_current]
    exact h.hasCb
  · exact h.notEarly
  · exact h.notLate

/-- A submission of the CBW or of data that is accepted. -/
theorem CmdInv.accept
    {s : State κ}
    (h : CmdInv s)
    (hpc : s.pc ≠ .waiting)
    (hready : Ready s)
    {r : Request κ}
    (hcb : s.current.hasCb = r.hasCb)
    {part : Part}
    (hpart : part ≠ .csw)
    (pos rest : Nat) :
    CmdInv (submitPart r part true (nextData r pos rest) s) := by
  rw [submitPart_accepted]
  have hqueue : s.queue ++ [(⟨s.tag, part, r.what⟩ : Transfer κ)] ≠ [] := by
    simp
  have hready' : ∀ pc : Pc κ, Ready (s.sent ⟨s.tag, part, r.what⟩ pc) := by
    intro pc
    constructor
    · intro t ht
      rcases List.mem_append.mp ht with ht | ht
      · exact hready.noCsw t ht
      · rw [List.mem_singleton.mp ht]
        exact hpart
    · have hcount := hready.count
      simp only [State.sent, State.counted, List.length_append,
        List.length_singleton]
      push_cast
      rw [hcount]
    · exact hready.signals
    · exact hready.returned
  constructor
  · unfold nextData
    split_ifs
    · exact ⟨hready' _, hcb, hqueue⟩
    · exact ⟨hready' _, hcb, hqueue⟩
  · intro t ht
    rcases List.mem_append.mp ht with ht | ht
    · exact h.own t ht
    · rw [List.mem_singleton.mp ht]
      rfl
  · exact h.former
  · intro htoken
    have hnone : s.ioSema = false := h.noToken hpc
    rw [show s.ioSema = true from htoken] at hnone
    cases hnone
  · exact h.hasCb
  · exact h.notEarly
  · exact h.notLate

/-- Behind the CSW all transfers of the command are submitted. -/
theorem Ready.submitted
    {s : State κ}
    (h : Ready s)
    (r : Request κ) (pc : Pc κ) :
    Submitted (s.sent ⟨s.tag, .csw, r.what⟩ pc) := by
  constructor
  · have hcount := h.count
    simp only [State.sent, State.counted, List.length_append, List.length_singleton]
    push_cast
    rw [hcount]
  · have hempty : (s.queue ++ [(⟨s.tag, .csw, r.what⟩ : Transfer κ)]).isEmpty = false := by
      simp
    simp only [State.sent, hempty]
    exact h.signals
  · exact Or.inr ⟨s.queue, _, rfl, rfl, h.noCsw⟩

/-- The submission of the CSW when it is accepted. -/
theorem CmdInv.acceptCsw
    {s s' : State κ}
    (h : CmdInv s)
    {r : Request κ}
    (hpc : s.pc = .csw r)
    (hstep : submit true s = some s') :
    CmdInv s' := by
  have hphase := h.phase
  simp only [Phase, hpc] at hphase
  obtain ⟨hready, hcb, -⟩ := hphase
  have hown :
      ∀ t ∈ s.queue ++ [(⟨s.tag, .csw, r.what⟩ : Transfer κ)], t.cmd = s.tag := by
    intro t ht
    rcases List.mem_append.mp ht with ht | ht
    · exact h.own t ht
    · rw [List.mem_singleton.mp ht]
  have hnone : s.ioSema = false := by
    apply h.noToken
    rw [hpc]
    simp
  simp only [submit, hpc, submitPart_accepted, Bool.true_and, Option.some.injEq] at hstep
  have hsubmitted := hready.submitted r
  cases hr : r.hasCb with
  | false =>
      rw [hr] at hstep hcb
      rw [if_neg (by simp)] at hstep
      subst hstep
      constructor
      · exact ⟨hsubmitted _, hready.returned, hcb⟩
      · exact hown
      · exact h.former
      · intro htoken
        rw [show s.ioSema = true from htoken] at hnone
        cases hnone
      · exact h.hasCb
      · exact h.notEarly
      · exact h.notLate
  | true =>
      rw [hr] at hstep hcb
      rw [if_pos rfl] at hstep
      subst hstep
      have hphase := hsubmitted .idle
      constructor
      · refine Or.inr (Or.inr ⟨⟨hphase.count, ?_, hphase.last⟩, ?_, Or.inl ?_⟩)
        · rw [return_current]
          exact hphase.signals
        · rw [return_current]
          simp
        · rw [return_current]
          exact hcb
      · exact hown
      · intro c hc hreturned
        rw [return_other (s.sent ⟨s.tag, .csw, r.what⟩ .waiting) true hc]
          at hreturned ⊢
        exact h.former c hc hreturned
      · intro htoken
        rw [show s.ioSema = true from htoken] at hnone
        cases hnone
      · rw [return_current]
        exact h.hasCb
      · exact h.notEarly
      · exact h.notLate

/-- A submission keeps the invariant. -/
theorem CmdInv.submit
    {s s' : State κ}
    (h : CmdInv s)
    {accepted : Bool}
    (hstep : submit accepted s = some s') :
    CmdInv s' := by
  have hphase := h.phase
  cases hpc : s.pc with
  | idle => simp [Usb.submit, hpc] at hstep
  | waiting => simp [Usb.submit, hpc] at hstep
  | cbw r =>
      simp only [Phase, hpc] at hphase
      obtain ⟨hready, hcb, -⟩ := hphase
      have hbusy : s.pc ≠ .waiting := by
        rw [hpc]
        simp
      simp only [Usb.submit, hpc, Option.some.injEq] at hstep
      subst hstep
      cases accepted with
      | false => exact h.refuse hbusy hready r _ _
      | true => exact h.accept hbusy hready hcb (by simp) _ _
  | data r pos rest =>
      simp only [Phase, hpc] at hphase
      obtain ⟨hready, hcb, -⟩ := hphase
      have hbusy : s.pc ≠ .waiting := by
        rw [hpc]
        simp
      simp only [Usb.submit, hpc, Option.some.injEq] at hstep
      subst hstep
      cases accepted with
      | false => exact h.refuse hbusy hready r _ _
      | true => exact h.accept hbusy hready hcb (by simp) _ _
  | csw r =>
      cases accepted with
      | true => exact h.acceptCsw hpc hstep
      | false =>
          simp only [Phase, hpc] at hphase
          obtain ⟨hready, -, -⟩ := hphase
          have hbusy : s.pc ≠ .waiting := by
            rw [hpc]
            simp
          simp only [Usb.submit, hpc, Bool.false_and, Option.some.injEq] at hstep
          rw [if_neg (by simp)] at hstep
          subst hstep
          exact h.refuse hbusy hready r _ _

/-- The state that `scsi_cmd_callback` counts down to. -/
def State.calledBack (s : State κ) (t : Transfer κ) (rest : List (Transfer κ))
    (ok : Bool) : State κ :=
  { { s with queue := rest }.record t.cmd
      (fun r =>
        { r with
          cswDone := r.cswDone || decide (t.part = Part.csw)
          failed := r.failed || !ok }) with
    ucmd := { s.ucmd with cmdCount := s.ucmd.cmdCount - 1 }
    late := s.late || decide (t.cmd ≠ s.tag) }

theorem scsiCmdCallback_eq
    (s : State κ) (t : Transfer κ) (rest : List (Transfer κ)) (ok : Bool) :
    scsiCmdCallback t ok { s with queue := rest } =
      if !ok || (s.calledBack t rest ok).ucmd.cmdCount = 0 then
        complete ok (s.calledBack t rest ok)
      else s.calledBack t rest ok :=
  rfl

section CalledBack

variable {s : State κ} {t : Transfer κ} {rest : List (Transfer κ)} {ok : Bool}

theorem calledBack_current
    (rest : List (Transfer κ)) (ok : Bool)
    (hown : t.cmd = s.tag) :
    (s.calledBack t rest ok).current =
      { s.current with
        cswDone := s.current.cswDone || decide (t.part = Part.csw)
        failed := s.current.failed || !ok } := by
  simp [State.calledBack, State.current, State.record, hown]

theorem calledBack_other
    (rest : List (Transfer κ)) (ok : Bool)
    (hown : t.cmd = s.tag)
    {c : Nat}
    (h : c ≠ s.tag) :
    (s.calledBack t rest ok).records c = s.records c := by
  rw [← hown] at h
  simp [State.calledBack, State.record, h]

/-- While a transfer is to come, no completion is waiting to be taken. -/
theorem CmdInv.noToken_of_queue
    (h : CmdInv s)
    (hqueue : s.queue = t :: rest) :
    s.ioSema = false := by
  cases htoken : s.ioSema with
  | false => rfl
  | true =>
      have hnil := (h.token htoken).2
      rw [hqueue] at hnil
      cases hnil

/-- A callback that completes nothing. -/
theorem CmdInv.calledBack
    (h : CmdInv s)
    (hqueue : s.queue = t :: rest)
    (hphase : Phase (s.calledBack t rest ok)) :
    CmdInv (s.calledBack t rest ok) := by
  have hown : t.cmd = s.tag := h.own t (by rw [hqueue]; exact List.mem_cons_self)
  constructor
  · exact hphase
  · intro t' ht'
    apply h.own
    rw [hqueue]
    exact List.mem_cons_of_mem _ ht'
  · intro c hc hreturned
    rw [calledBack_other _ _ hown hc] at hreturned ⊢
    exact h.former c hc hreturned
  · intro htoken
    have hnone := h.noToken_of_queue hqueue
    rw [show s.ioSema = true from htoken] at hnone
    cases hnone
  · rw [calledBack_current _ _ hown]
    exact h.hasCb
  · exact h.notEarly
  · simp [State.calledBack, h.notLate, hown]

/-- A callback takes its transfer out of the queue and off the count. -/
theorem calledBack_count
    (ok : Bool)
    (hqueue : s.queue = t :: rest) :
    (s.calledBack t rest ok).ucmd.cmdCount - (s.calledBack t rest ok).queue.length =
      s.ucmd.cmdCount - s.queue.length := by
  rw [hqueue, List.length_cons]
  simp only [State.calledBack, State.record]
  push_cast
  ring

theorem calledBack_noCsw
    (hnoCsw : ∀ t' ∈ s.queue, t'.part ≠ .csw)
    (hqueue : s.queue = t :: rest) :
    ∀ t' ∈ (s.calledBack t rest ok).queue, t'.part ≠ .csw := by
  intro t' ht'
  apply hnoCsw
  rw [hqueue]
  exact List.mem_cons_of_mem _ ht'

/-- A callback leaves the command in submission when others are to come. -/
theorem Ready.calledBack
    (h : Ready s)
    (ok : Bool)
    (hqueue : s.queue = t :: rest)
    (hown : t.cmd = s.tag) :
    Ready (s.calledBack t rest ok) := by
  constructor
  · exact calledBack_noCsw h.noCsw hqueue
  · have hcount := h.count
    have hkeeps := calledBack_count ok hqueue
    omega
  · rw [calledBack_current _ _ hown]
    exact h.signals
  · rw [calledBack_current _ _ hown]
    exact h.returned

theorem Aborted.calledBack
    (h : Aborted s)
    (ok : Bool)
    (hqueue : s.queue = t :: rest)
    (hown : t.cmd = s.tag) :
    Aborted (s.calledBack t rest ok) := by
  constructor
  · exact calledBack_noCsw h.noCsw hqueue
  · have hcount := h.count
    have hkeeps := calledBack_count ok hqueue
    omega
  · rw [calledBack_current _ _ hown]
    exact h.returned

/-- The last transfer is the CSW. -/
theorem Submitted.csw
    (h : Submitted s)
    (hqueue : s.queue = [t]) :
    t.part = .csw := by
  rcases h.last with hnil | ⟨front, t', hsplit, hcsw, -⟩
  · rw [hqueue] at hnil
    cases hnil
  · rw [hqueue] at hsplit
    cases front with
    | nil =>
        rw [List.nil_append, List.singleton_inj] at hsplit
        rw [hsplit]
        exact hcsw
    | cons a front => simp at hsplit

/-- Any other transfer leaves the rest of the command. -/
theorem Submitted.calledBack
    (h : Submitted s)
    (ok : Bool)
    (hqueue : s.queue = t :: rest)
    (hrest : rest ≠ [])
    (hown : t.cmd = s.tag) :
    t.part ≠ .csw ∧ Submitted (s.calledBack t rest ok) := by
  rcases h.last with hnil | ⟨front, t', hsplit, hcsw, hfront⟩
  · rw [hqueue] at hnil
    cases hnil
  rw [hqueue] at hsplit
  cases front with
  | nil =>
      rw [List.nil_append, List.cons.injEq] at hsplit
      exact absurd hsplit.2 hrest
  | cons a front =>
      rw [List.cons_append, List.cons.injEq] at hsplit
      obtain ⟨rfl, hsplit⟩ := hsplit
      refine ⟨hfront t List.mem_cons_self, ?_, ?_, ?_⟩
      · have hcount := h.count
        have hkeeps := calledBack_count ok hqueue
        omega
      · have hsignals := h.signals
        rw [hqueue] at hsignals
        rw [calledBack_current _ _ hown, show (s.calledBack t rest ok).queue = rest from rfl,
          List.isEmpty_eq_false_iff.mpr hrest]
        exact hsignals
      · exact Or.inr ⟨front, t', hsplit, hcsw,
          fun x hx => hfront x (List.mem_cons_of_mem _ hx)⟩

/-- The phase of a submitted command that is waited for, or that was begun with a
`cb`. -/
def Ends (s : State κ) : Prop :=
  (s.pc = .waiting ∧ s.current.returned = none ∧ s.current.hasCb = false) ∨
    (s.pc = .idle ∧ s.current.returned ≠ none ∧ s.current.hasCb = true)

theorem Ends.phase
    (h : Ends s)
    (hsubmitted : Submitted s) :
    Phase s := by
  rcases h with ⟨hpc, hreturned, hcb⟩ | ⟨hpc, hreturned, hcb⟩
  · simp only [Phase, hpc]
    exact ⟨hsubmitted, hreturned, hcb⟩
  · simp only [Phase, hpc]
    exact Or.inr (Or.inr ⟨hsubmitted, hreturned, Or.inl hcb⟩)

theorem Ends.calledBack
    (h : Ends s)
    (rest : List (Transfer κ)) (ok : Bool)
    (hown : t.cmd = s.tag) :
    Ends (s.calledBack t rest ok) := by
  unfold Ends
  rw [calledBack_current rest ok hown]
  exact h

/-- The callback of the CSW, which completes the command. -/
theorem CmdInv.complete
    (h : CmdInv s)
    (hqueue : s.queue = [t])
    (hsubmitted : Submitted s)
    (hends : Ends s) :
    CmdInv (complete ok (s.calledBack t [] ok)) := by
  have hown : t.cmd = s.tag := h.own t (by rw [hqueue]; exact List.mem_cons_self)
  have hcsw : t.part = .csw := hsubmitted.csw hqueue
  have hnone : s.ioSema = false := h.noToken_of_queue hqueue
  have hcurrent :
      (Usb.complete ok (s.calledBack t [] ok)).current =
        { (s.calledBack t [] ok).current with
          signals := (s.calledBack t [] ok).current.signals + 1 } := by
    simp [Usb.complete, State.record, State.current]
  have hdone : Submitted (Usb.complete ok (s.calledBack t [] ok)) := by
    constructor
    · have hcount := hsubmitted.count
      rw [hqueue] at hcount
      simp [Usb.complete, State.calledBack, State.record, hcount]
    · have hsignals := hsubmitted.signals
      rw [hqueue] at hsignals
      rw [hcurrent, calledBack_current _ _ hown]
      simpa [Usb.complete, State.calledBack, State.record] using hsignals
    · exact Or.inl rfl
  constructor
  · have hends' : Ends (Usb.complete ok (s.calledBack t [] ok)) := by
      unfold Ends
      rw [hcurrent, calledBack_current _ _ hown]
      exact hends
    exact hends'.phase hdone
  · intro t' ht'
    cases ht'
  · intro c hc hreturned
    have hother :
        (Usb.complete ok (s.calledBack t [] ok)).records c = s.records c := by
      rw [← calledBack_other [] ok hown hc]
      exact Function.update_of_ne hc _ _
    rw [hother] at hreturned ⊢
    exact h.former c hc hreturned
  · intro htoken
    rcases hends with ⟨hpc, -, -⟩ | ⟨-, -, hcb⟩
    · exact ⟨hpc, rfl⟩
    · have hucmd : s.ucmd.hasCb = true := h.hasCb.trans hcb
      simp [Usb.complete, State.calledBack, State.record, hnone, hucmd] at htoken
  · rw [hcurrent, calledBack_current _ _ hown]
    exact h.hasCb
  · have hcswDone : (s.calledBack t [] ok).current.cswDone = true := by
      rw [calledBack_current _ _ hown]
      simp [hcsw]
    have hearly : (s.calledBack t [] ok).early = false := h.notEarly
    unfold State.current at hcswDone
    simp only [Usb.complete, State.record, hearly, hcswDone]
    rfl
  · simp [Usb.complete, State.record, State.calledBack, h.notLate, hown]

/-- In order only a CSW fails. -/
theorem ok_of_orderly
    (hqueue : s.queue = t :: rest)
    (horderly : orderly s (.callback ok))
    (hpart : t.part ≠ .csw) :
    ok = true := by
  cases ok with
  | true => rfl
  | false =>
      refine absurd (horderly t ?_) hpart
      rw [hqueue]
      rfl

/-- In order, while a command is in submission other transfers are to come. -/
theorem Ready.calledBack_sending
    (h : Ready s)
    (hsends : s.pc.sending = true)
    (hqueue : s.queue = t :: rest)
    (horderly : orderly s (.callback ok))
    (hown : t.cmd = s.tag) :
    t.part ≠ .csw ∧ rest ≠ [] ∧ Ready (s.calledBack t rest ok) ∧
      (s.calledBack t rest ok).ucmd.cmdCount ≠ 0 := by
  have hpart : t.part ≠ .csw :=
    h.noCsw t (by rw [hqueue]; exact List.mem_cons_self)
  have hok := ok_of_orderly hqueue horderly hpart
  subst hok
  have hrest : rest ≠ [] := by
    rintro rfl
    apply horderly
    rw [hqueue]
    exact ⟨hsends, rfl⟩
  have hready := h.calledBack true hqueue hown
  refine ⟨hpart, hrest, hready, ?_⟩
  rw [hready.count]
  exact_mod_cast (List.length_pos_of_ne_nil hrest).ne'

/-- A callback that leaves a count behind completes nothing. -/
theorem CmdInv.callback_counts
    (h : CmdInv s)
    (hqueue : s.queue = t :: rest)
    (horderly : orderly s (.callback ok))
    (hpart : t.part ≠ .csw)
    (hcount : (s.calledBack t rest ok).ucmd.cmdCount ≠ 0)
    (hphase : Phase (s.calledBack t rest ok)) :
    CmdInv (scsiCmdCallback t ok { s with queue := rest }) := by
  have hok := ok_of_orderly hqueue horderly hpart
  subst hok
  rw [scsiCmdCallback_eq, if_neg (by simp [hcount])]
  exact h.calledBack hqueue hphase

/-- A callback for a submitted command keeps the invariant: the last one
completes it. -/
theorem CmdInv.callback_submitted
    (h : CmdInv s)
    (hqueue : s.queue = t :: rest)
    (horderly : orderly s (.callback ok))
    (hsubmitted : Submitted s)
    (hends : Ends s) :
    CmdInv (scsiCmdCallback t ok { s with queue := rest }) := by
  have hown : t.cmd = s.tag := h.own t (by rw [hqueue]; exact List.mem_cons_self)
  by_cases hrest : rest = []
  · subst hrest
    rw [scsiCmdCallback_eq, if_pos]
    · exact h.complete hqueue hsubmitted hends
    · have hcount := hsubmitted.count
      rw [hqueue] at hcount
      simp [State.calledBack, State.record, hcount]
  · obtain ⟨hpart, hleft⟩ := hsubmitted.calledBack ok hqueue hrest hown
    refine h.callback_counts hqueue horderly hpart ?_ ?_
    · rw [hleft.count]
      exact_mod_cast (List.length_pos_of_ne_nil hrest).ne'
    · exact (hends.calledBack rest ok hown).phase hleft

end CalledBack

/-- A callback in order keeps the invariant. -/
theorem CmdInv.callback
    {s : State κ} {t : Transfer κ} {rest : List (Transfer κ)} {ok : Bool}
    (h : CmdInv s)
    (hqueue : s.queue = t :: rest)
    (horderly : orderly s (.callback ok)) :
    CmdInv (scsiCmdCallback t ok { s with queue := rest }) := by
  have hown : t.cmd = s.tag := h.own t (by rw [hqueue]; exact List.mem_cons_self)
  have hcurrent := calledBack_current rest ok hown
  have hphase := h.phase
  obtain ⟨pc, hpc⟩ : ∃ pc, s.pc = pc := ⟨_, rfl⟩
  cases pc with
  | cbw r =>
      simp only [Phase, hpc] at hphase
      rw [hqueue] at hphase
      cases hphase.2.2
  | data r pos len =>
      simp only [Phase, hpc] at hphase
      obtain ⟨hready, hcb, -⟩ := hphase
      obtain ⟨hpart, hrest, hready', hcount⟩ :=
        hready.calledBack_sending (by rw [hpc]; rfl) hqueue horderly hown
      apply h.callback_counts hqueue horderly hpart hcount
      have hpc' : (s.calledBack t rest ok).pc = .data r pos len := hpc
      simp only [Phase, hpc']
      refine ⟨hready', ?_, hrest⟩
      rw [hcurrent]
      exact hcb
  | csw r =>
      simp only [Phase, hpc] at hphase
      obtain ⟨hready, hcb, -⟩ := hphase
      obtain ⟨hpart, hrest, hready', hcount⟩ :=
        hready.calledBack_sending (by rw [hpc]; rfl) hqueue horderly hown
      apply h.callback_counts hqueue horderly hpart hcount
      have hpc' : (s.calledBack t rest ok).pc = .csw r := hpc
      simp only [Phase, hpc']
      refine ⟨hready', ?_, hrest⟩
      rw [hcurrent]
      exact hcb
  | waiting =>
      simp only [Phase, hpc] at hphase
      obtain ⟨hsubmitted, hreturned, hcb⟩ := hphase
      exact
        h.callback_submitted hqueue horderly hsubmitted
          (Or.inl ⟨hpc, hreturned, hcb⟩)
  | idle =>
      simp only [Phase, hpc] at hphase
      rcases hphase with ⟨hnil, -⟩ | haborted | ⟨hsubmitted, hreturned, hcb⟩
      · rw [hqueue] at hnil
        cases hnil
      · have hpart : t.part ≠ .csw :=
          haborted.noCsw t (by rw [hqueue]; exact List.mem_cons_self)
        have haborted' := haborted.calledBack ok hqueue hown
        have hpc' : (s.calledBack t rest ok).pc = .idle := hpc
        apply h.callback_counts hqueue horderly hpart
        · rw [haborted'.count]
          omega
        · simp only [Phase, hpc']
          exact Or.inr (Or.inl haborted')
      · have hcb' : s.current.hasCb = true := by
          rcases hcb with hcb | hnil
          · exact hcb
          · rw [hqueue] at hnil
            cases hnil
        exact
          h.callback_submitted hqueue horderly hsubmitted
            (Or.inr ⟨hpc, hreturned, hcb'⟩)

/-- The end of the wait keeps the invariant. -/
theorem CmdInv.wake
    {s : State κ}
    (h : CmdInv s)
    (hpc : s.pc = .waiting)
    (htoken : s.ioSema = true) :
    CmdInv ({ s with ioSema := false }.return s.ucmd.returnOk) := by
  have hqueue : s.queue = [] := (h.token htoken).2
  have hphase := h.phase
  simp only [Phase, hpc] at hphase
  obtain ⟨hsub, -, hcb⟩ := hphase
  have hcurrent :
      ({ s with ioSema := false }.return s.ucmd.returnOk).current =
        { s.current with returned := some s.ucmd.returnOk } :=
    return_current _ _
  constructor
  · refine Or.inr (Or.inr ⟨⟨hsub.count, ?_, hsub.last⟩, ?_, Or.inr hqueue⟩)
    · rw [hcurrent]
      exact hsub.signals
    · rw [hcurrent]
      simp
  · exact h.own
  · intro c hc hreturned
    rw [return_other { s with ioSema := false } _ hc] at hreturned ⊢
    exact h.former c hc hreturned
  · intro hfalse
    cases hfalse
  · rw [hcurrent]
    exact h.hasCb
  · exact h.notEarly
  · exact h.notLate

/-- A step in order keeps the invariant. -/
theorem CmdInv.next
    {s s' : State κ} {a : Act κ}
    (h : CmdInv s)
    (horderly : orderly s a)
    (hstep : step s a = some s') :
    CmdInv s' := by
  cases a with
  | begin r =>
      cases hpc : s.pc with
      | idle =>
          simp only [step, hpc, Option.some.injEq] at hstep
          subst hstep
          exact h.begin hpc horderly r
      | _ => simp [step, hpc] at hstep
  | submit accepted => exact h.submit hstep
  | wake =>
      cases hpc : s.pc with
      | waiting =>
          cases htoken : s.ioSema with
          | false => simp [step, hpc, htoken] at hstep
          | true =>
              simp only [step, hpc, htoken, if_true, Option.some.injEq] at hstep
              subst hstep
              exact h.wake hpc htoken
      | _ => simp [step, hpc] at hstep
  | callback ok =>
      cases hqueue : s.queue with
      | nil => simp [step, hqueue] at hstep
      | cons t rest =>
          simp only [step, hqueue, Option.some.injEq] at hstep
          subst hstep
          exact h.callback hqueue horderly

/-- What the invariant says of every command. -/
theorem CmdInv.completesOnce
    {s : State κ}
    (h : CmdInv s) :
    CompletesOnce s := by
  have hcurrent :
      s.current.returned = some true →
      Submitted s ∧ (s.current.hasCb = true ∨ s.queue = []) := by
    intro hreturned
    have hphase := h.phase
    cases hpc : s.pc with
    | idle =>
        simp only [Phase, hpc] at hphase
        rcases hphase with ⟨-, hnone⟩ | haborted | ⟨hsub, -, hcb⟩
        · rw [hnone] at hreturned
          cases hreturned
        · rw [haborted.returned] at hreturned
          cases hreturned
        · exact ⟨hsub, hcb⟩
    | waiting =>
        simp only [Phase, hpc] at hphase
        rw [hphase.2.1] at hreturned
        cases hreturned
    | _ =>
        simp only [Phase, hpc] at hphase
        rw [hphase.1.returned] at hreturned
        cases hreturned
  constructor
  · intro c hreturned
    by_cases hc : c = s.tag
    · subst hc
      have hsignals := (hcurrent hreturned).1.signals
      unfold State.current at hsignals
      rw [hsignals]
      split_ifs
      · exact le_rfl
      · exact Nat.zero_le _
    · exact (h.former c hc hreturned).le
  · intro c hreturned hdone
    by_cases hc : c = s.tag
    · subst hc
      obtain ⟨hsub, hcb⟩ := hcurrent hreturned
      have hnil : s.queue = [] := by
        rcases hdone with hsync | hnone
        · rcases hcb with hcb | hnil
          · rw [show s.current.hasCb = false from hsync] at hcb
            cases hcb
          · exact hnil
        · cases hqueue : s.queue with
          | nil => rfl
          | cons t rest =>
              have ht : t ∈ s.queue := by
                rw [hqueue]
                exact List.mem_cons_self
              exact absurd (h.own t ht) (hnone t ht)
      have hsignals := hsub.signals
      rw [hnil] at hsignals
      exact hsignals
    · exact h.former c hc hreturned
  · exact h.notEarly
  · exact h.notLate

end Invariant

section Results

variable {κ : Type u}

/-- In an orderly run every command completes once and not early. -/
theorem massScsiCmd_completesOnce_of_orderly
    {s : State κ}
    (hreach : GuardedReach step orderly (State.initial κ) s) :
    CompletesOnce s := by
  have hinv : CmdInv s :=
    hreach.invariant cmdInv_initial
      (fun _ _ _ hinv horderly hstep => hinv.next horderly hstep)
  exact hinv.completesOnce

/-- A synchronous command with two data transfers, and one with a `cb` whose last
submission is refused. -/
def orderlyRun : List (Act Unit) :=
  [.begin ⟨5000, false, ()⟩, .submit true, .submit true, .callback true,
    .submit true, .submit true, .callback true, .callback true, .callback false,
    .wake, .begin ⟨512, true, ()⟩, .submit true, .submit true, .submit true,
    .callback true, .callback true, .callback true,
    .begin ⟨512, true, ()⟩, .submit true, .submit true, .submit false,
    .callback true]

theorem massScsiCmd_completesOnce_of_orderly_three :
    ∃ s, GuardedReach step orderly (State.initial Unit) s ∧ s.tag = 3 ∧
      CompletesOnce s := by
  have hreach : GuardedReach step orderly (State.initial Unit) _ :=
    guardedReach_of_runGuarded orderlyRun rfl
  exact ⟨_, hreach, rfl, massScsiCmd_completesOnce_of_orderly hreach⟩

/-- A callback before the next submission completes the command early, and its
CSW completes it again; so does a failed transfer.  A command that begins while
another one is under way makes the callbacks of that one late. -/
theorem massScsiCmd_completes_twice :
    (∃ s, Reach step (State.initial Unit) s ∧
      (s.records 1).returned = some true ∧ (s.records 1).signals = 2 ∧
        s.early = true ∧ ¬ CompletesOnce s) ∧
    (∃ s, Reach step (State.initial Unit) s ∧
      (s.records 1).returned = some true ∧ (s.records 1).signals = 2 ∧
        s.early = false ∧ ¬ CompletesOnce s) ∧
    (∃ s, Reach step (State.initial Unit) s ∧ s.late = true ∧
      ¬ CompletesOnce s) := by
  refine ⟨?_, ?_, ?_⟩
  · refine
      ⟨_, guardedReach_of_runGuarded
        [.begin ⟨512, true, ()⟩, .submit true, .callback true, .submit true,
          .submit true, .callback true, .callback true] rfl,
        rfl, rfl, rfl, ?_⟩
    intro h
    exact absurd h.notEarly (by decide)
  · refine
      ⟨_, guardedReach_of_runGuarded
        [.begin ⟨512, true, ()⟩, .submit true, .submit true, .submit true,
          .callback true, .callback false, .callback true] rfl,
        rfl, rfl, rfl, ?_⟩
    intro h
    exact absurd (h.atMost 1 rfl) (by decide)
  · refine
      ⟨_, guardedReach_of_runGuarded
        [.begin ⟨512, true, ()⟩, .submit true, .submit true, .submit true,
          .begin ⟨512, false, ()⟩, .callback true] rfl,
        rfl, ?_⟩
    intro h
    exact absurd h.notLate (by decide)

end Results

end Usb
end Ps2Cdvd
