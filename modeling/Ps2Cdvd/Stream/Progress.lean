import Ps2Cdvd.Lib.Run
import Ps2Cdvd.Stream.System

/-!
# Progress of a started stream

All operations of the streaming system, each one step: `sceCdStInit`, `Start`,
`Stop`, `Pause`, `Resume`, `Seek`, non-blocking `sceCdStRead`, reads of other
threads, the end of a device read (successful or not) with its callback, and the
alarm.

A stream is `Live` when it is not paused and has something that will make it go
on: a bank read marked by `StIsReading` is in flight, and while there is room
for a bank some read is in flight or the alarm is set.

* `resume_stalls`: pausing while a bank is read and resuming leaves a stream
  that is not live;
* `live_of_cleanResume`: every other operation keeps a stream live.
-/

namespace Ps2Cdvd
namespace Stream

open Lib

universe u

section Source

variable {β : Type u}

/-- The operations of the streaming system; `ok` tells whether a device read
that ends succeeds. -/
inductive StreamOp
  | stInit (bufmax bankmax : Nat)
  | stStart (ok : Bool) (lsn : Nat)
  | stStop (ok : Bool)
  | stPause (ok : Bool)
  | stResume
  | stSeek (ok : Bool) (lsn : Nat)
  | stRead (ee : Bool) (sectors : Nat)
  | foreignRead (async : Bool)
  | readDone (ok : Bool)
  | alarm
deriving DecidableEq

/-- `sceCdStRead` with mode 0, run without interruption. -/
def sceCdStReadNonBlocking
    (ee : Bool) (sectors : Nat) (s : System β) : System β :=
  if s.data.stat then
    stStartFillStreamBuffer
      { s with
        data :=
          if 0 < sectors then
            if ee then commit (readSectorsEE s.data (s32 sectors)) s.data
            else (readSectors s.data (s32 sectors)).data
          else s.data }
  else s

/-- One operation. -/
def opStep (drive : Drive β) (s : System β) : StreamOp → Option (System β)
  | .stInit bufmax bankmax => some (sceCdStInit bufmax bankmax s)
  | .stStart ok lsn => sceCdStStart drive ok lsn s
  | .stStop ok => sceCdStStop drive ok s
  | .stPause ok => sceCdStPause drive ok s
  | .stResume => some (sceCdStResume s)
  | .stSeek ok lsn => sceCdStSeek drive ok lsn s
  | .stRead ee sectors => some (sceCdStReadNonBlocking ee sectors s)
  | .foreignRead async => some (foreignRead async s)
  | .readDone ok => readDone drive ok s
  | .alarm => if s.alarm then some (stmScheduleCb s) else none

/-- How the operations are used: `sceCdStInit` with valid arguments while no
stream is started, and before the first start. -/
def UsedAsIntended (s : System β) : StreamOp → Prop
  | .stInit bufmax bankmax =>
      s.data.stat = false ∧ 0 < bankmax ∧ bankmax ≤ bufmax ∧ bufmax < 65536
  | .stStart _ _ => 0 < s.data.banksize
  | .stSeek _ _ => 0 < s.data.banksize
  | _ => True

instance (s : System β) : DecidablePred (UsedAsIntended s)
  | .stInit _ _ => inferInstanceAs (Decidable (_ ∧ _ ∧ _ ∧ _))
  | .stStart _ _ => inferInstanceAs (Decidable (0 < _))
  | .stSeek _ _ => inferInstanceAs (Decidable (0 < _))
  | .stStop _ => isTrue trivial
  | .stPause _ => isTrue trivial
  | .stResume => isTrue trivial
  | .stRead _ _ => isTrue trivial
  | .foreignRead _ => isTrue trivial
  | .readDone _ => isTrue trivial
  | .alarm => isTrue trivial

end Source

section Purpose

variable {β : Type u}

/-- A bank read accepted by `cdvdman_AsyncRead` is in flight. -/
def bankInFlight (s : System β) : Bool :=
  match s.pending with
  | some (.bank _) => true
  | _ => false

/-- An unpaused stream has something that makes it go on. -/
def Live (s : System β) : Prop :=
  s.data.stat = true → s.stm0Callback = true →
    (s.data.isReading = true → bankInFlight s = true) ∧
    (hasRoom s.data = true → s.pending.isSome = true ∨ s.alarm = true)

/-- A stream is resumed only while `StIsReading` tells the truth. -/
def CleanResume (s : System β) : StreamOp → Prop
  | .stResume =>
      s.data.stat = true → s.data.isReading = true → bankInFlight s = true
  | _ => True

/-- The intended use with clean resumes only. -/
def CleanUse (s : System β) (op : StreamOp) : Prop :=
  UsedAsIntended s op ∧ CleanResume s op

instance (s : System β) : DecidablePred (CleanResume s)
  | .stResume => inferInstanceAs (Decidable (_ → _ → _))
  | .stInit _ _ => isTrue trivial
  | .stStart _ _ => isTrue trivial
  | .stSeek _ _ => isTrue trivial
  | .stStop _ => isTrue trivial
  | .stPause _ => isTrue trivial
  | .stRead _ _ => isTrue trivial
  | .foreignRead _ => isTrue trivial
  | .readDone _ => isTrue trivial
  | .alarm => isTrue trivial

instance (s : System β) (op : StreamOp) : Decidable (CleanUse s op) :=
  inferInstanceAs (Decidable (_ ∧ _))

end Purpose

section Invariant

variable {β : Type u} {drive : Drive β}

/-- A mark of `StIsReading` stands for a bank read in flight. -/
def MarkTrue (s : System β) : Prop :=
  s.data.isReading = true → bankInFlight s = true

/-- The chain of fills does not break: a bank or the alarm comes. -/
structure Chained (s : System β) : Prop where
  mark : MarkTrue s
  next : hasRoom s.data = true → callbackComes s = true ∨ s.alarm = true

/-- The invariant: an unpaused stream is chained. -/
def LiveInv (s : System β) : Prop :=
  s.data.stat = true → s.stm0Callback = true → Chained s

theorem callbackComes_of_bank
    {s : System β}
    (h : bankInFlight s = true) :
    callbackComes s = true := by
  unfold bankInFlight at h
  unfold callbackComes
  split at h
  · rename_i req hp
    rw [hp]
    rfl
  · cases h

theorem LiveInv.live
    {s : System β}
    (h : LiveInv s) :
    Live s := by
  intro hstat hset
  obtain ⟨hmark, hnext⟩ := h hstat hset
  refine ⟨hmark, ?_⟩
  intro hroom
  rcases hnext hroom with hcomes | halarm
  · exact Or.inl (isSome_of_callbackComes hcomes)
  · exact Or.inr halarm

/-- A fill chains the stream whenever the mark is true: it finds a bank in
flight, or no room, or is accepted, or sets the alarm. -/
theorem chained_fill
    {s : System β}
    (h : MarkTrue s) :
    Chained (stStartFillStreamBuffer s) := by
  rcases stStartFillStreamBuffer_cases s with
    ⟨hreading, heq⟩ | ⟨hreading, hroom, heq⟩ | ⟨hreading, -, -, heq⟩ |
      ⟨-, -, -, heq⟩
  · rw [heq]
    exact ⟨h, fun _ => Or.inl (callbackComes_of_bank (h hreading))⟩
  · rw [heq]
    refine ⟨h, ?_⟩
    intro htrue
    have hfalse : hasRoom s.data = true := htrue
    rw [hroom] at hfalse
    cases hfalse
  · rw [heq]
    exact ⟨h, fun _ => Or.inr rfl⟩
  · rw [heq]
    exact ⟨fun _ => rfl, fun _ => Or.inl rfl⟩

theorem markTrue_of_not_reading
    {s : System β}
    (h : s.data.isReading = false) :
    MarkTrue s := by
  intro htrue
  rw [h] at htrue
  cases htrue

/-- What holds after a fill of a stream with a true mark. -/
theorem liveInv_fill
    {s : System β}
    (h : s.data.stat = true → s.stm0Callback = true → MarkTrue s) :
    LiveInv (stStartFillStreamBuffer s) := by
  intro hstat hset
  obtain ⟨hstat', hset'⟩ := fill_frame s
  rw [hstat'] at hstat
  rw [hset'] at hset
  exact chained_fill (h hstat hset)

theorem liveInv_stopped
    {s : System β}
    (h : s.data.stat = false) :
    LiveInv s := by
  intro hstat
  rw [h] at hstat
  cases hstat

theorem liveInv_paused
    {s : System β}
    (h : s.stm0Callback = false) :
    LiveInv s := by
  intro _ hset
  rw [h] at hset
  cases hset

theorem LiveInv.readDone
    {s t : System β} {ok : Bool}
    (h : LiveInv s)
    (ht : readDone drive ok s = some t) :
    LiveInv t := by
  unfold Stream.readDone at ht
  cases hp : s.pending with
  | none =>
      rw [hp] at ht
      cases ht
  | some p =>
      rw [hp] at ht
      cases hfin : finishRead drive ok p s with
      | none =>
          simp only [hfin] at ht
          cases ht
      | some u =>
          simp only [hfin] at ht
          obtain ⟨hdata, hset, halarm, hfree⟩ := finishRead_frame hfin
          split_ifs at ht with hcallback
          · cases ht
            apply liveInv_fill
            intro _ _
            exact markTrue_of_not_reading (stat_stmCallback u.data).2
          · cases ht
            intro hstat hset'
            rw [hdata] at hstat
            rw [hset] at hset'
            obtain ⟨hmark, hnext⟩ := h hstat hset'
            -- the read was made by another thread itself
            have hself : p.byReadingThread = false := by
              rw [hset, hset'] at hcallback
              simpa using hcallback
            have hnoBank : bankInFlight s = false := by
              unfold bankInFlight
              rw [hp]
              cases p with
              | bank req => cases hself
              | foreign async => rfl
            constructor
            · apply markTrue_of_not_reading
              rw [hdata, ← Bool.not_eq_true]
              intro hreading
              rw [hmark hreading] at hnoBank
              cases hnoBank
            · intro hroom
              rw [hdata] at hroom
              rcases hnext hroom with hcomes | hrings
              · unfold callbackComes at hcomes
                rw [hp] at hcomes
                have hthread : p.byReadingThread = true := hcomes
                rw [hself] at hthread
                cases hthread
              · exact Or.inr (halarm.trans hrings)

theorem LiveInv.foreignRead
    {s : System β}
    (h : LiveInv s)
    (async : Bool) :
    LiveInv (foreignRead async s) := by
  unfold Stream.foreignRead
  split_ifs with hbusy
  · exact h
  · have hfree : s.pending = none := by
      simpa using hbusy
    have hnoBank : bankInFlight s = false := by
      simp [bankInFlight, hfree]
    intro hstat hset
    obtain ⟨hmark, hnext⟩ := h hstat hset
    constructor
    · apply markTrue_of_not_reading
      rw [← Bool.not_eq_true]
      intro hreading
      rw [hmark hreading] at hnoBank
      cases hnoBank
    · intro hroom
      rcases hnext hroom with hcomes | halarm
      · simp [callbackComes, hfree] at hcomes
      · exact Or.inr halarm

theorem LiveInv.stRead
    {s : System β}
    (h : LiveInv s)
    (ee : Bool) (n : Nat) :
    LiveInv (sceCdStReadNonBlocking ee n s) := by
  have hread : ∀ d : StreamingData, s.data.stat = true →
      d.isReading = s.data.isReading →
      LiveInv (stStartFillStreamBuffer { s with data := d }) := by
    intro d hstat hsame
    apply liveInv_fill
    intro _ hset hreading
    apply (h hstat hset).mark
    rw [← hsame]
    exact hreading
  unfold sceCdStReadNonBlocking
  split_ifs with hstat hn hee
  · exact hread _ hstat (commit_frame _ _).2
  · exact hread _ hstat (readSectors_frame _ _).2
  · exact hread _ hstat rfl
  · exact h

theorem stat_sceCdStStop
    {s t : System β} {ok : Bool}
    (ht : sceCdStStop drive ok s = some t) :
    t.data.stat = false := by
  unfold sceCdStStop at ht
  split_ifs at ht with hstat
  · rw [(syncWait_frame ht).1]
    rfl
  · cases ht
    simpa using hstat

theorem liveInv_sceCdStStart
    {s t : System β} {ok : Bool} {lsn : Nat}
    (ht : sceCdStStart drive ok lsn s = some t) :
    LiveInv t := by
  unfold sceCdStStart at ht
  split at ht
  · cases ht
  · cases ht
    apply liveInv_fill
    intro _ _
    exact markTrue_of_not_reading rfl

/-- Every clean operation keeps the invariant. -/
theorem LiveInv.step
    {s t : System β} {op : StreamOp}
    (h : LiveInv s)
    (huse : CleanUse s op)
    (ht : opStep drive s op = some t) :
    LiveInv t := by
  obtain ⟨hintended, hclean⟩ := huse
  cases op with
  | stInit bufmax bankmax =>
      cases ht
      exact liveInv_stopped hintended.1
  | stStart ok lsn => exact liveInv_sceCdStStart ht
  | stStop ok => exact liveInv_stopped (stat_sceCdStStop ht)
  | stPause ok =>
      simp only [opStep, sceCdStPause] at ht
      split_ifs at ht with hstat
      · exact liveInv_paused (syncWait_frame ht).2
      · cases ht
        exact h
  | stResume =>
      cases ht
      unfold sceCdStResume
      split_ifs with hstat
      · apply liveInv_fill
        intro _ _
        exact hclean hstat
      · exact h
  | stSeek ok lsn =>
      simp only [opStep, sceCdStSeek] at ht
      split_ifs at ht
      · exact liveInv_sceCdStStart ht
      · cases ht
        exact h
  | stRead ee n =>
      cases ht
      exact h.stRead ee n
  | foreignRead async =>
      cases ht
      exact h.foreignRead async
  | readDone ok => exact h.readDone ht
  | alarm =>
      simp only [opStep] at ht
      split_ifs at ht
      cases ht
      apply liveInv_fill
      intro hstat hset
      exact (h hstat hset).mark

/-- **A stream resumed only with a true mark never stalls.**  In every run of the
streaming operations, used as intended, in which `sceCdStResume` is called only
while `StIsReading` stands for a bank read in flight, every reachable state is
live. -/
theorem live_of_cleanResume
    {s : System β}
    (hs : GuardedReach (opStep drive) CleanUse (System.loaded β) s) :
    Live s := by
  have h : LiveInv s := by
    refine hs.invariant (liveInv_stopped rfl) ?_
    intro u op t hu huse ht
    exact hu.step huse ht
  exact h.live

end Invariant

section Runs

/-- A stream that is paused and resumed while no bank is being read. -/
theorem live_of_cleanResume_pausedWhenFull :
    ∃ s, runGuarded (opStep numberedDisc) CleanUse (System.loaded Nat)
        [.stInit 2 2, .stStart true 100, .readDone true, .readDone true,
          .stPause true, .stRead true 1, .stResume] = some s ∧
      s.data.stat = true ∧ s.stm0Callback = true ∧ Live s :=
  ⟨_, rfl, rfl, rfl,
    @live_of_cleanResume Nat numberedDisc _
      (guardedReach_of_runGuarded
        [.stInit 2 2, .stStart true 100, .readDone true, .readDone true,
          .stPause true, .stRead true 1, .stResume] rfl)⟩

/-- Used as intended, a stream that is paused while its first bank is read and
then resumed has room, the mark set, no read in flight and no alarm. -/
theorem resume_stalls :
    ∃ s, runGuarded (opStep numberedDisc) UsedAsIntended (System.loaded Nat)
        [.stInit 2 2, .stStart true 100, .stPause true, .stResume] = some s ∧
      s.data.stat = true ∧ s.stm0Callback = true ∧
      s.data.isReading = true ∧ hasRoom s.data = true ∧
      s.pending = none ∧ s.alarm = false ∧ ¬ Live s := by
  refine ⟨_, rfl, rfl, rfl, rfl, rfl, rfl, rfl, ?_⟩
  intro h
  have hmark := (h rfl rfl).1 rfl
  cases hmark

end Runs

end Stream
end Ps2Cdvd
