import Mathlib.Data.List.Perm.Subperm
import Ps2Cdvd.Lib.Run
import Ps2Cdvd.Settings

/-!
# Notifying the user callback

An event is handed to the user callback by an alarm.  `cdvdman_cb_event` stores the
callback and the reason in its static record `cb_data` and sets an alarm for
`event_alarm_cb`, which calls whatever it finds in the record when it fires.  There is
one record for all events, and the kernel may refuse an alarm that is already set.

Calls of `cdvdman_cb_event` run in any number of threads and interrupt handlers.  The
steps of different calls and the alarms come in any order.

* `recordKept_step`: what one step keeps, when it respects the record;
* `cbEvents_notifiedOnce`: while the record of a notification is kept until its alarm
  has fired, every event leads to one call of its callback with its reason;
* `cbEvents_lost`: otherwise an event is lost, and another one may be told twice.
-/

namespace Ps2Cdvd
namespace Callback

open Lib

universe u

section Source

def sceCdFuncRead : Nat := 1
def sceCdFuncSeek : Nat := 4
def sceCdFuncStandby : Nat := 5
def sceCdFuncStop : Nat := 6
def sceCdFuncPause : Nat := 7
def sceCdFuncBreak : Nat := 8

/-- `CDVD_STAT_STOP` -/
def cdvdStatStop : Int := 0x00

/-- `struct cdvdman_cb_data`; `none` is the null pointer. -/
structure CbData (κ : Type u) where
  userCb : Option κ
  reason : Nat
deriving DecidableEq

/-- Where a call of `cdvdman_cb_event` is, with its argument `reason`.  From `storeCb`
on it remembers the callback that its test of `user_cb` found.  `readEnd` is the reading
thread before its test of `Stm0Callback`. -/
inductive CbPc (κ : Type u)
  | readEnd
  | entered (reason : Nat)
  | storeCb (cb : κ) (reason : Nat)
  | storeReason (cb : κ) (reason : Nat)
  | setAlarm (cb : κ) (reason : Nat)
deriving DecidableEq

/-- The variables of the module, the alarms that are set and have not fired, and the
calls in progress.  `events` are the events for which a callback was registered, and
`invocations` what `event_alarm_cb` has called. -/
structure CbState (κ : Type u) where
  err : Int
  status : Int
  userCb : Option κ
  stm0Callback : Bool
  cbData : CbData κ
  alarms : Nat
  calls : List (CbPc κ)
  events : List (CbData κ)
  invocations : List (CbData κ)

/-- After the module has been loaded. -/
def CbState.initial (κ : Type u) : CbState κ where
  err := 0
  status := 0
  userCb := none
  stm0Callback := false
  cbData := ⟨none, 0⟩
  alarms := 0
  calls := []
  events := []
  invocations := []

variable {κ : Type u}

/-- A command that ends at once: its error, its status and its event. -/
def command (err status : Int) (reason : Nat) (s : CbState κ) : CbState κ :=
  { s with err := err, status := status, calls := .entered reason :: s.calls }

def sceCdSeek (s : CbState κ) : CbState κ :=
  command cdvdErrNo cdvdStatPause sceCdFuncSeek s

def sceCdStandby (s : CbState κ) : CbState κ :=
  command cdvdErrNo cdvdStatPause sceCdFuncStandby s

def sceCdStop (s : CbState κ) : CbState κ :=
  command cdvdErrNo cdvdStatStop sceCdFuncStop s

def sceCdPause (s : CbState κ) : CbState κ :=
  command cdvdErrNo cdvdStatPause sceCdFuncPause s

def sceCdBreak (s : CbState κ) : CbState κ :=
  command cdvdErrAbrt cdvdStatPause sceCdFuncBreak s

/-- `cdvdman_SyncRead`, after `cdvdman_read`. -/
def syncReadEnd (s : CbState κ) : CbState κ :=
  { s with calls := .entered sceCdFuncRead :: s.calls }

/-- `cdvdman_cdread_Thread`, after `cdvdman_read`. -/
def cdreadThreadEnd (s : CbState κ) : CbState κ :=
  { s with calls := .readEnd :: s.calls }

/-- The old callback and the new state. -/
def sceCdCallback (func : Option κ) (s : CbState κ) : Option κ × CbState κ :=
  (s.userCb, { s with userCb := func })

/-- `SetStm0Callback`, with a callback or with `NULL`. -/
def setStm0Callback (callback : Bool) (s : CbState κ) : CbState κ :=
  { s with stm0Callback := callback }

/-- The alarm fires. -/
def eventAlarmCb (s : CbState κ) : Option (CbState κ) :=
  if 0 < s.alarms then
    some
      { s with
        alarms := s.alarms - 1
        invocations := s.invocations ++ [s.cbData] }
  else none

variable [DecidableEq κ]

/-- The next step of a call that is at `c`.  `queued` is the answer of the kernel to an
alarm that is already set. -/
def goOn (c : CbPc κ) (queued : Bool) (s : CbState κ) : CbState κ :=
  let rest := s.calls.erase c
  match c with
  | .readEnd =>
      if s.stm0Callback then { s with calls := rest }
      else { s with calls := .entered sceCdFuncRead :: rest }
  | .entered reason =>
      match s.userCb with
      | some cb =>
          { s with
            calls := .storeCb cb reason :: rest
            events := s.events ++ [⟨some cb, reason⟩] }
      | none => { s with calls := rest }
  | .storeCb cb reason =>
      { s with
        cbData := { s.cbData with userCb := s.userCb }
        calls := .storeReason cb reason :: rest }
  | .storeReason cb reason =>
      { s with
        cbData := { s.cbData with reason := reason }
        calls := .setAlarm cb reason :: rest }
  | .setAlarm _ _ =>
      { s with
        alarms := if s.alarms = 0 ∨ queued then s.alarms + 1 else s.alarms
        calls := rest }

inductive CbAct (κ : Type u)
  | sceCdSeek
  | sceCdStandby
  | sceCdStop
  | sceCdPause
  | sceCdBreak
  | syncReadEnd
  | cdreadThreadEnd
  | sceCdCallback (func : Option κ)
  | setStm0Callback (callback : Bool)
  | goOn (c : CbPc κ) (queued : Bool)
  | eventAlarmCb

def step (s : CbState κ) : CbAct κ → Option (CbState κ)
  | .sceCdSeek => some (sceCdSeek s)
  | .sceCdStandby => some (sceCdStandby s)
  | .sceCdStop => some (sceCdStop s)
  | .sceCdPause => some (sceCdPause s)
  | .sceCdBreak => some (sceCdBreak s)
  | .syncReadEnd => some (syncReadEnd s)
  | .cdreadThreadEnd => some (cdreadThreadEnd s)
  | .sceCdCallback func => some (sceCdCallback func s).2
  | .setStm0Callback callback => some (setStm0Callback callback s)
  | .goOn c queued => if c ∈ s.calls then some (goOn c queued s) else none
  | .eventAlarmCb => eventAlarmCb s

end Source

section Notified

variable {κ : Type u}

/-- The event that a call still has to set an alarm for. -/
def CbPc.event : CbPc κ → Option (CbData κ)
  | .readEnd => none
  | .entered _ => none
  | .storeCb cb reason => some ⟨some cb, reason⟩
  | .storeReason cb reason => some ⟨some cb, reason⟩
  | .setAlarm cb reason => some ⟨some cb, reason⟩

/-- Every event leads to one call of its callback with its reason: nothing else is ever
called, an event that is still to be told has an alarm or a call that is about to set
one, and once all of these are through, exactly the events have been told. -/
structure NotifiedOnce (s : CbState κ) : Prop where
  labelled : s.invocations.Subperm s.events
  outstanding :
    s.events.length =
      s.invocations.length + s.alarms + s.calls.countP (fun c => c.event.isSome)
  complete :
    s.alarms = 0 → (∀ c ∈ s.calls, c.event = none) →
      s.invocations.Perm s.events

/-- The callback of the record is that of the call. -/
def CbPc.HasStoredCb : CbPc κ → Prop
  | .storeReason _ _ => True
  | .setAlarm _ _ => True
  | _ => False

/-- The whole record is that of the call. -/
def CbPc.HasStoredReason : CbPc κ → Prop
  | .setAlarm _ _ => True
  | _ => False

/-- A call changes a field of the record only while no alarm is set and no other call
is between its own store to the field and its alarm.  The callback that it stores is the
one it has tested, and it sets an alarm that is set already only where the kernel queues
it. -/
def RecordKept (s : CbState κ) : CbAct κ → Prop
  | .goOn (.storeCb cb _) _ =>
      s.userCb = some cb ∧
        (s.cbData.userCb = some cb ∨
          s.alarms = 0 ∧ ∀ c ∈ s.calls, ¬ c.HasStoredCb)
  | .goOn (.storeReason _ reason) _ =>
      s.cbData.reason = reason ∨
        s.alarms = 0 ∧ ∀ c ∈ s.calls, ¬ c.HasStoredReason
  | .goOn (.setAlarm _ _) queued => s.alarms = 0 ∨ queued = true
  | _ => True

instance instDecidableHasStoredCb : ∀ c : CbPc κ, Decidable c.HasStoredCb
  | .readEnd => inferInstanceAs (Decidable False)
  | .entered _ => inferInstanceAs (Decidable False)
  | .storeCb _ _ => inferInstanceAs (Decidable False)
  | .storeReason _ _ => inferInstanceAs (Decidable True)
  | .setAlarm _ _ => inferInstanceAs (Decidable True)

instance instDecidableHasStoredReason : ∀ c : CbPc κ, Decidable c.HasStoredReason
  | .readEnd => inferInstanceAs (Decidable False)
  | .entered _ => inferInstanceAs (Decidable False)
  | .storeCb _ _ => inferInstanceAs (Decidable False)
  | .storeReason _ _ => inferInstanceAs (Decidable False)
  | .setAlarm _ _ => inferInstanceAs (Decidable True)

/-- What a call relies on: the record holds what it has stored. -/
def CbPc.Relies (r : CbData κ) : CbPc κ → Prop
  | .storeReason cb _ => r.userCb = some cb
  | .setAlarm cb reason => r = ⟨some cb, reason⟩
  | _ => True

/-- The events that have not been told yet. -/
def CbState.owed (s : CbState κ) : List (CbData κ) :=
  s.calls.filterMap CbPc.event ++ List.replicate s.alarms s.cbData

/-- The invariant: told and owed events are all events, and the record holds what every
call has stored. -/
structure Inv (s : CbState κ) : Prop where
  balance : (s.invocations ++ s.owed).Perm s.events
  relies : ∀ c ∈ s.calls, c.Relies s.cbData

theorem inv_initial : Inv (CbState.initial κ) := by
  refine ⟨List.Perm.refl _, ?_⟩
  intro c hc
  cases hc

theorem Inv.notifiedOnce
    {s : CbState κ}
    (h : Inv s) :
    NotifiedOnce s := by
  have hlabelled : s.invocations.Subperm s.events :=
    (List.sublist_append_left _ s.owed).subperm.trans h.balance.subperm
  have howed :
      s.owed.length = s.calls.countP (fun c => c.event.isSome) + s.alarms := by
    rw [CbState.owed, List.length_append, List.length_replicate,
      List.length_filterMap_eq_countP]
  have houtstanding :
      s.events.length =
        s.invocations.length + s.alarms +
          s.calls.countP (fun c => c.event.isSome) := by
    have hlength := h.balance.length_eq
    rw [List.length_append, howed] at hlength
    omega
  refine ⟨hlabelled, houtstanding, ?_⟩
  intro halarms hcalls
  refine hlabelled.perm_of_length_le ?_
  have hnone : s.calls.countP (fun c => c.event.isSome) = 0 := by
    rw [List.countP_eq_zero]
    intro c hc
    rw [hcalls c hc]
    exact Bool.false_ne_true
  omega

/-- A call that has nothing to tell yet begins or ends. -/
theorem Inv.calls_silent
    {s t : CbState κ}
    (h : Inv s)
    (hcalls : t.calls.filterMap CbPc.event = s.calls.filterMap CbPc.event)
    (hrelies : ∀ c ∈ t.calls, c ∈ s.calls ∨ c.event = none)
    (hrecord : t.cbData = s.cbData)
    (halarms : t.alarms = s.alarms)
    (hevents : t.events = s.events)
    (hinvocations : t.invocations = s.invocations) :
    Inv t := by
  refine ⟨?_, ?_⟩
  · rw [CbState.owed, hcalls, hrecord, halarms, hevents, hinvocations]
    exact h.balance
  · intro c hc
    rw [hrecord]
    rcases hrelies c hc with hold | hnone
    · exact h.relies c hold
    · cases c with
      | readEnd => trivial
      | entered reason => trivial
      | storeCb cb reason => cases hnone
      | storeReason cb reason => cases hnone
      | setAlarm cb reason => cases hnone

/-- A call that has nothing to tell begins. -/
theorem Inv.begins
    {s : CbState κ} {c : CbPc κ} {err status : Int}
    (h : Inv s)
    (hc : c.event = none) :
    Inv { s with err := err, status := status, calls := c :: s.calls } := by
  refine h.calls_silent (List.filterMap_cons_none hc) ?_ rfl rfl rfl rfl
  intro c' hc'
  rcases List.mem_cons.mp hc' with rfl | hold
  · exact Or.inr hc
  · exact Or.inl hold

/-- The alarm fires: the record is the event that is told. -/
theorem Inv.eventAlarmCb
    {s t : CbState κ}
    (h : Inv s)
    (ht : Callback.eventAlarmCb s = some t) :
    Inv t := by
  rw [Callback.eventAlarmCb] at ht
  split_ifs at ht with halarms
  cases ht
  obtain ⟨n, hn⟩ := Nat.exists_eq_add_one_of_ne_zero (Nat.pos_iff_ne_zero.mp halarms)
  refine ⟨?_, h.relies⟩
  have hbalance := h.balance
  rw [CbState.owed, hn, List.replicate_succ] at hbalance
  rw [CbState.owed]
  dsimp only
  rw [hn, Nat.add_sub_cancel, List.append_assoc, List.singleton_append]
  refine List.Perm.trans ?_ hbalance
  exact (List.perm_middle.symm).append_left s.invocations

/-- Where no other call needs the callback of the record, or the callback stays, the
others can rely on the record as before. -/
theorem relies_of_sameCb
    {s : CbState κ} {userCb : Option κ}
    (h : s.cbData.userCb = userCb ∨ ∀ c ∈ s.calls, ¬ c.HasStoredCb) :
    ∀ d ∈ s.calls,
      d.Relies s.cbData → d.Relies { s.cbData with userCb := userCb } := by
  intro d hd hrelies
  rcases h with rfl | hnone
  · exact hrelies
  · cases d with
    | readEnd => trivial
    | entered reason => trivial
    | storeCb cb reason => trivial
    | storeReason cb reason => exact absurd trivial (hnone _ hd)
    | setAlarm cb reason => exact absurd trivial (hnone _ hd)

theorem relies_of_sameReason
    {s : CbState κ} {reason : Nat}
    (h : s.cbData.reason = reason ∨ ∀ c ∈ s.calls, ¬ c.HasStoredReason) :
    ∀ d ∈ s.calls,
      d.Relies s.cbData → d.Relies { s.cbData with reason := reason } := by
  intro d hd hrelies
  rcases h with rfl | hnone
  · exact hrelies
  · cases d with
    | readEnd => trivial
    | entered reason' => trivial
    | storeCb cb reason' => trivial
    | storeReason cb reason' => exact hrelies
    | setAlarm cb reason' => exact absurd trivial (hnone _ hd)

variable [DecidableEq κ]

/-- What a call that goes on leaves: the other calls, and itself at `c'`. -/
theorem owed_goOn
    {s : CbState κ} {c : CbPc κ}
    (hc : c ∈ s.calls) :
    (s.calls.filterMap CbPc.event).Perm
      ((c :: s.calls.erase c).filterMap CbPc.event) :=
  (List.perm_cons_erase hc).filterMap CbPc.event

/-- A call goes on that keeps its event, with a record that is not changed while it is
needed. -/
theorem Inv.stores
    {s : CbState κ} {c c' : CbPc κ} {r : CbData κ}
    (h : Inv s)
    (hc : c ∈ s.calls)
    (hevent : c'.event = c.event)
    (hrecord : r = s.cbData ∨ s.alarms = 0)
    (hself : c'.Relies r)
    (hothers : ∀ d ∈ s.calls, d.Relies s.cbData → d.Relies r) :
    Inv { s with cbData := r, calls := c' :: s.calls.erase c } := by
  refine ⟨?_, ?_⟩
  · have hcalls :
        ((c' :: s.calls.erase c).filterMap CbPc.event).Perm
          (s.calls.filterMap CbPc.event) := by
      have hsame :
          (c' :: s.calls.erase c).filterMap CbPc.event =
            (c :: s.calls.erase c).filterMap CbPc.event := by
        rw [List.filterMap_cons, List.filterMap_cons, hevent]
      rw [hsame]
      exact (owed_goOn hc).symm
    have halarms :
        List.replicate s.alarms r = List.replicate s.alarms s.cbData := by
      rcases hrecord with rfl | hzero
      · rfl
      · rw [hzero, List.replicate_zero, List.replicate_zero]
    refine List.Perm.trans ?_ h.balance
    refine List.Perm.append_left s.invocations ?_
    rw [CbState.owed, CbState.owed]
    dsimp only
    rw [halarms]
    exact hcalls.append_right _
  · intro d hd
    rcases List.mem_cons.mp hd with rfl | hold
    · exact hself
    · have hmem := List.mem_of_mem_erase hold
      exact hothers d hmem (h.relies d hmem)

/-- A call ends that has nothing to tell. -/
theorem Inv.ends
    {s : CbState κ} {c : CbPc κ}
    (h : Inv s)
    (hc : c ∈ s.calls)
    (hevent : c.event = none) :
    Inv { s with calls := s.calls.erase c } := by
  refine ⟨?_, fun d hd => h.relies d (List.mem_of_mem_erase hd)⟩
  refine List.Perm.trans ?_ h.balance
  refine List.Perm.append_left s.invocations ?_
  refine List.Perm.append_right _ ?_
  have hcalls := owed_goOn hc
  rw [List.filterMap_cons_none hevent] at hcalls
  exact hcalls.symm

/-- The test of `user_cb` finds a callback. -/
theorem Inv.tested
    {s : CbState κ} {reason : Nat} {cb : κ}
    (h : Inv s)
    (hc : .entered reason ∈ s.calls) :
    Inv
      { s with
        calls := .storeCb cb reason :: s.calls.erase (.entered reason)
        events := s.events ++ [⟨some cb, reason⟩] } := by
  refine ⟨?_, ?_⟩
  · have hcalls := owed_goOn hc
    have hsilent : (CbPc.entered reason : CbPc κ).event = none := rfl
    have htells :
        (CbPc.storeCb cb reason).event = some ⟨some cb, reason⟩ := rfl
    rw [List.filterMap_cons_none hsilent] at hcalls
    have hgrown := h.balance.append_right [(⟨some cb, reason⟩ : CbData κ)]
    refine List.Perm.trans ?_ hgrown
    rw [CbState.owed, CbState.owed]
    dsimp only
    rw [List.filterMap_cons_some htells, List.cons_append, List.append_assoc]
    refine List.Perm.append_left s.invocations ?_
    refine List.Perm.trans ?_ (List.perm_append_singleton _ _).symm
    exact (hcalls.symm.append_right _).cons _
  · intro d hd
    rcases List.mem_cons.mp hd with rfl | hold
    · trivial
    · exact h.relies d (List.mem_of_mem_erase hold)

/-- The alarm of a call is accepted. -/
theorem Inv.accepted
    {s : CbState κ} {reason : Nat} {cb : κ}
    (h : Inv s)
    (hc : .setAlarm cb reason ∈ s.calls) :
    Inv
      { s with
        alarms := s.alarms + 1
        calls := s.calls.erase (.setAlarm cb reason) } := by
  refine ⟨?_, fun d hd => h.relies d (List.mem_of_mem_erase hd)⟩
  have hrecord : s.cbData = ⟨some cb, reason⟩ := h.relies _ hc
  have hcalls := owed_goOn hc
  have htells :
      (CbPc.setAlarm cb reason).event = some s.cbData := by
    rw [hrecord]
    rfl
  rw [List.filterMap_cons_some htells] at hcalls
  refine List.Perm.trans ?_ h.balance
  refine List.Perm.append_left s.invocations ?_
  rw [CbState.owed, CbState.owed]
  dsimp only
  rw [List.replicate_succ]
  exact List.perm_middle.trans (hcalls.symm.append_right _)

/-- One step of a call. -/
theorem Inv.goOn
    {s : CbState κ} {c : CbPc κ} {queued : Bool}
    (h : Inv s)
    (hkept : RecordKept s (.goOn c queued))
    (hc : c ∈ s.calls) :
    Inv (Callback.goOn c queued s) := by
  cases c with
  | readEnd =>
      cases hstm0 : s.stm0Callback with
      | true =>
          dsimp only [Callback.goOn]
          rw [if_pos hstm0]
          exact h.ends hc rfl
      | false =>
          have hnone : ¬ s.stm0Callback = true := Bool.eq_false_iff.mp hstm0
          dsimp only [Callback.goOn]
          rw [if_neg hnone]
          exact h.stores hc rfl (Or.inl rfl) trivial (fun _ _ hd => hd)
  | entered reason =>
      dsimp only [Callback.goOn]
      split
      · exact h.tested hc
      · exact h.ends hc rfl
  | storeCb cb reason =>
      obtain ⟨htested, hfree⟩ := hkept
      refine h.stores hc rfl ?_ htested (relies_of_sameCb ?_)
      · rcases hfree with hsame | ⟨hzero, -⟩
        · left
          rw [htested, ← hsame]
        · exact Or.inr hzero
      · rw [htested]
        exact hfree.imp id And.right
  | storeReason cb reason =>
      have hstored : s.cbData.userCb = some cb := h.relies _ hc
      refine h.stores hc rfl ?_ ?_ (relies_of_sameReason ?_)
      · rcases hkept with hsame | ⟨hzero, -⟩
        · left
          rw [← hsame]
        · exact Or.inr hzero
      · show (⟨s.cbData.userCb, reason⟩ : CbData κ) = ⟨some cb, reason⟩
        rw [hstored]
      · exact hkept.imp id And.right
  | setAlarm cb reason =>
      have hcount :
          (if s.alarms = 0 ∨ queued then s.alarms + 1 else s.alarms) =
            s.alarms + 1 :=
        if_pos hkept
      dsimp only [Callback.goOn]
      rw [hcount]
      exact h.accepted hc

/-- One step that keeps the record. -/
theorem recordKept_step
    {s t : CbState κ} {a : CbAct κ}
    (h : Inv s)
    (hkept : RecordKept s a)
    (ht : step s a = some t) :
    Inv t := by
  cases a with
  | sceCdSeek =>
      cases ht
      exact h.begins rfl
  | sceCdStandby =>
      cases ht
      exact h.begins rfl
  | sceCdStop =>
      cases ht
      exact h.begins rfl
  | sceCdPause =>
      cases ht
      exact h.begins rfl
  | sceCdBreak =>
      cases ht
      exact h.begins rfl
  | syncReadEnd =>
      cases ht
      exact h.begins rfl
  | cdreadThreadEnd =>
      cases ht
      exact h.begins rfl
  | sceCdCallback func =>
      cases ht
      exact ⟨h.balance, h.relies⟩
  | setStm0Callback callback =>
      cases ht
      exact ⟨h.balance, h.relies⟩
  | goOn c queued =>
      simp only [step] at ht
      split_ifs at ht with hc
      cases ht
      exact h.goOn hkept hc
  | eventAlarmCb => exact h.eventAlarmCb ht

/-- **Each event is told once.**  In every state reached by steps that keep the record of
a notification until its alarm has fired, every event leads to exactly one call of the
callback that was registered when it occurred, with its reason. -/
theorem cbEvents_notifiedOnce
    {s : CbState κ}
    (hs : GuardedReach step RecordKept (CbState.initial κ) s) :
    NotifiedOnce s := by
  have hinv : Inv s := by
    refine hs.invariant inv_initial ?_
    intro u a t hu hkept ht
    exact recordKept_step hu hkept ht
  exact hinv.notifiedOnce

instance instDecidableRecordKept
    (s : CbState κ) :
    ∀ a, Decidable (RecordKept s a)
  | .goOn (.storeCb cb _) _ =>
      inferInstanceAs
        (Decidable
          (s.userCb = some cb ∧
            (s.cbData.userCb = some cb ∨
              s.alarms = 0 ∧ ∀ c ∈ s.calls, ¬ c.HasStoredCb)))
  | .goOn (.storeReason _ reason) _ =>
      inferInstanceAs
        (Decidable
          (s.cbData.reason = reason ∨
            s.alarms = 0 ∧ ∀ c ∈ s.calls, ¬ c.HasStoredReason))
  | .goOn (.setAlarm _ _) queued =>
      inferInstanceAs (Decidable (s.alarms = 0 ∨ queued = true))
  | .goOn .readEnd _ => inferInstanceAs (Decidable True)
  | .goOn (.entered _) _ => inferInstanceAs (Decidable True)
  | .sceCdSeek => inferInstanceAs (Decidable True)
  | .sceCdStandby => inferInstanceAs (Decidable True)
  | .sceCdStop => inferInstanceAs (Decidable True)
  | .sceCdPause => inferInstanceAs (Decidable True)
  | .sceCdBreak => inferInstanceAs (Decidable True)
  | .syncReadEnd => inferInstanceAs (Decidable True)
  | .cdreadThreadEnd => inferInstanceAs (Decidable True)
  | .sceCdCallback _ => inferInstanceAs (Decidable True)
  | .setStm0Callback _ => inferInstanceAs (Decidable True)
  | .eventAlarmCb => inferInstanceAs (Decidable True)

/-- All steps of one call of `cdvdman_cb_event` that finds the callback `cb`. -/
def wholeCall (cb : κ) (reason : Nat) (queued : Bool) : List (CbAct κ) :=
  [.goOn (.entered reason) queued, .goOn (.storeCb cb reason) queued,
    .goOn (.storeReason cb reason) queued, .goOn (.setAlarm cb reason) queued]

/-- Two reads are told by two alarms that are set at the same time, then a seek. -/
theorem cbEvents_notifiedOnce_threeEvents :
    ∃ s, runGuarded step RecordKept (CbState.initial Nat)
        ([.sceCdCallback (some 7), .cdreadThreadEnd, .goOn .readEnd false] ++
          wholeCall 7 sceCdFuncRead false ++ [.syncReadEnd] ++
          wholeCall 7 sceCdFuncRead true ++ [.eventAlarmCb, .eventAlarmCb] ++
          [.sceCdSeek] ++ wholeCall 7 sceCdFuncSeek false ++ [.eventAlarmCb]) =
        some s ∧
      s.invocations =
        [⟨some 7, sceCdFuncRead⟩, ⟨some 7, sceCdFuncRead⟩,
          ⟨some 7, sceCdFuncSeek⟩] ∧
      NotifiedOnce s := by
  have hrun :
      (runGuarded step RecordKept (CbState.initial Nat)
        ([.sceCdCallback (some 7), .cdreadThreadEnd, .goOn .readEnd false] ++
          wholeCall 7 sceCdFuncRead false ++ [.syncReadEnd] ++
          wholeCall 7 sceCdFuncRead true ++ [.eventAlarmCb, .eventAlarmCb] ++
          [.sceCdSeek] ++ wholeCall 7 sceCdFuncSeek false ++
          [.eventAlarmCb])).map CbState.invocations =
        some
          [⟨some 7, sceCdFuncRead⟩, ⟨some 7, sceCdFuncRead⟩,
            ⟨some 7, sceCdFuncSeek⟩] := by
    decide +kernel
  obtain ⟨s, hs, hinvocations⟩ := Option.map_eq_some_iff.mp hrun
  exact ⟨s, hs, hinvocations,
    cbEvents_notifiedOnce (guardedReach_of_runGuarded _ hs)⟩

/-- A seek and a stop before the alarm of the seek has fired, and after all calls and all
alarms: the callback has been called for the stop alone where the kernel refuses the
second alarm, and twice for the stop where it queues it. -/
theorem cbEvents_lost :
    (∃ s, runActs step (CbState.initial Nat)
        ([.sceCdCallback (some 7), .sceCdSeek] ++
          wholeCall 7 sceCdFuncSeek false ++ [.sceCdStop] ++
          wholeCall 7 sceCdFuncStop false ++ [.eventAlarmCb]) = some s ∧
      s.alarms = 0 ∧ s.calls = [] ∧
      s.events = [⟨some 7, sceCdFuncSeek⟩, ⟨some 7, sceCdFuncStop⟩] ∧
      s.invocations = [⟨some 7, sceCdFuncStop⟩] ∧
      ¬ NotifiedOnce s) ∧
    ∃ s, runActs step (CbState.initial Nat)
        ([.sceCdCallback (some 7), .sceCdSeek] ++
          wholeCall 7 sceCdFuncSeek true ++ [.sceCdStop] ++
          wholeCall 7 sceCdFuncStop true ++ [.eventAlarmCb, .eventAlarmCb]) =
        some s ∧
      s.alarms = 0 ∧ s.calls = [] ∧
      s.events = [⟨some 7, sceCdFuncSeek⟩, ⟨some 7, sceCdFuncStop⟩] ∧
      s.invocations = [⟨some 7, sceCdFuncStop⟩, ⟨some 7, sceCdFuncStop⟩] ∧
      ¬ NotifiedOnce s := by
  refine ⟨⟨_, rfl, rfl, rfl, rfl, rfl, ?_⟩, ⟨_, rfl, rfl, rfl, rfl, rfl, ?_⟩⟩
  · intro h
    have hperm := h.complete rfl (fun c hc => by cases hc)
    exact absurd hperm.length_eq (by decide)
  · intro h
    have hperm := h.complete rfl (fun c hc => by cases hc)
    have hseek : (⟨some 7, sceCdFuncSeek⟩ : CbData Nat) ∈ _ :=
      hperm.mem_iff.mpr (List.mem_cons_self)
    exact absurd hseek (by decide)

end Notified

end Callback
end Ps2Cdvd
