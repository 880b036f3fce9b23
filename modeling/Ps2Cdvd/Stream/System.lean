import Ps2Cdvd.Read.Sectors
import Ps2Cdvd.Stream.State

/-!
# The streaming system with atomic operations

The streaming state, `Stm0Callback`, the `StmScheduleCb` alarm, the accepted
read in flight (`sync_flag` set) and the sectors in the ring buffer.  Each
function below is one operation of `streaming.c`, or the end of a device read
together with the callback that follows it, run without interruption.

What a device read stores is given by a `Drive`; `Drive.ofImage` is the drive
whose reads are done by `cdvdman_read` from an image.

A ring slot holds `none` from the moment a read into it is accepted until that
read has succeeded.
-/

namespace Ps2Cdvd
namespace Stream

open Lib Read

universe u

section Source

/-- A disc of `size` sectors and what a successful `cdvdman_read(lsn, n, buf)`
leaves in sector `j` of its buffer. -/
structure Drive (β : Type u) where
  size : Nat
  size_lt : size < 4294967296
  sector : Nat → β
  delivered : (lsn n j : Nat) → β
  delivered_eq :
    ∀ lsn n j, 13 ≤ lsn → lsn + n ≤ size → j < n →
      delivered lsn n j = sector (lsn + j)

/-- The bytes of one sector in memory. -/
def sectorAt (m : Nat → UInt8) (addr : Nat) : Fin 2048 → UInt8 :=
  fun i => m (addr + i)

/-- The drive that reads an image with `cdvdman_read`; `cdvdman_buf` and the
buffer of the request are at fixed places. -/
def Drive.ofImage
    (cfg : Settings) (image : Nat → UInt8) (size : Nat)
    (hsize : size < 4294967296) : Drive (Fin 2048 → UInt8) where
  size := size
  size_lt := hsize
  sector := fun k => sectorAt image (2048 * k)
  delivered := fun lsn n j =>
    sectorAt
      (cdvdmanRead cfg image quietTurns 0 lsn n 4096 restingDrive).mem
      (4096 + 2048 * j)
  delivered_eq := by
    intro lsn n j hlogo hread hj
    funext i
    have hi := i.isLt
    show (cdvdmanRead cfg image quietTurns 0 lsn n 4096 restingDrive).mem
        (4096 + 2048 * j + i) = image (2048 * (lsn + j) + i)
    rw [cdvdmanRead_delivers quietTurns_undisturbed hlogo (by omega) (by omega)
      (by omega)]
    rw [show 4096 + 2048 * j + (i : Nat) = 4096 + (2048 * j + i) by omega]
    rw [writeRange_inside _ _ _ (by omega)]
    unfold sectorBytes
    congr 1
    omega

/-- An accepted read: a bank for the ring, or the read of another thread, which
the reading thread serves (`cdvdman_AsyncRead`) or that thread itself
(`cdvdman_SyncRead`). -/
inductive Pending
  | bank (req : BankRead)
  | foreign (async : Bool)
deriving DecidableEq

/-- The reading thread serves the read, so that `Stm0Callback` follows it. -/
def Pending.byReadingThread : Pending → Bool
  | .bank _ => true
  | .foreign async => async

/-- The shared state, the read in flight and the contents of the ring. -/
structure System (β : Type u) where
  data : StreamingData
  stm0Callback : Bool
  alarm : Bool
  pending : Option Pending
  ring : Nat → Option β

/-- The state after the module has been loaded. -/
def System.loaded (β : Type u) : System β where
  data := ⟨0, 0, 0, 0, 0, 0, false, false, 0⟩
  stm0Callback := false
  alarm := false
  pending := none
  ring := fun _ => none

variable {β : Type u} (drive : Drive β)

/-- `StStartFillStreamBuffer`. -/
def stStartFillStreamBuffer (s : System β) : System β :=
  match stFillStreamBuffer s.pending.isSome s.data with
  | (_, .reading) => s
  | (d, .full) => { s with data := d, alarm := false }
  | (d, .refused) => { s with data := d, alarm := true }
  | (d, .accepted req) =>
      { s with
        data := d
        alarm := false
        pending := some (.bank req)
        ring := writeRange s.ring req.slot req.sectors (fun _ => none) }

/-- `StmScheduleCb`: the alarm is set again if the fill is refused. -/
def stmScheduleCb (s : System β) : System β :=
  stStartFillStreamBuffer { s with alarm := false }

/-- The device read of the request `p` ends and `sync_flag` is cleared. -/
def finishRead (ok : Bool) (p : Pending) (s : System β) : Option (System β) :=
  match p with
  | .foreign _ => some { s with pending := none }
  | .bank req =>
      if ok then
        if req.lsn + req.sectors ≤ drive.size then
          some
            { s with
              pending := none
              ring :=
                writeRange s.ring req.slot req.sectors
                  (fun j => some (drive.delivered req.lsn req.sectors j)) }
        else none
      else
        some
          { s with
            pending := none
            ring := writeRange s.ring req.slot req.sectors (fun _ => none) }

/-- `StmCallback`. -/
def runStmCallback (s : System β) : System β :=
  stStartFillStreamBuffer { s with data := stmCallback s.data }

/-- The outstanding read ends, and the callback that follows it is run. -/
def readDone (ok : Bool) (s : System β) : Option (System β) :=
  match s.pending with
  | none => none
  | some p =>
      match finishRead drive ok p s with
      | none => none
      | some s =>
          if p.byReadingThread && s.stm0Callback then some (runStmCallback s)
          else some s

/-- `sceCdRead` of another thread. -/
def foreignRead (async : Bool) (s : System β) : System β :=
  if s.pending.isSome then s
  else { s with pending := some (.foreign async) }

/-- `sceCdSync(0)` of an operation: the outstanding read ends. -/
def syncWait (ok : Bool) (s : System β) : Option (System β) :=
  match s.pending with
  | none => some s
  | some p => finishRead drive ok p s

/-- `sceCdStInit`. -/
def sceCdStInit (bufmax bankmax : Nat) (s : System β) : System β :=
  { s with data := stInit bufmax bankmax s.data, alarm := false }

/-- `sceCdStStop`. -/
def sceCdStStop (ok : Bool) (s : System β) : Option (System β) :=
  if s.data.stat then
    syncWait drive ok
      { s with data := stStop s.data, stm0Callback := false, alarm := false }
  else some s

/-- `sceCdStStart`. -/
def sceCdStStart (ok : Bool) (lsn : Nat) (s : System β) : Option (System β) :=
  match sceCdStStop drive ok s with
  | none => none
  | some s =>
      some
        (stStartFillStreamBuffer
          { s with data := stStart lsn s.data, stm0Callback := true })

/-- `sceCdStSeek`. -/
def sceCdStSeek (ok : Bool) (lsn : Nat) (s : System β) : Option (System β) :=
  if s.data.stat then sceCdStStart drive ok lsn s else some s

/-- `sceCdStPause`. -/
def sceCdStPause (ok : Bool) (s : System β) : Option (System β) :=
  if s.data.stat then
    syncWait drive ok { s with stm0Callback := false, alarm := false }
  else some s

/-- `sceCdStResume`. -/
def sceCdStResume (s : System β) : System β :=
  if s.data.stat then
    stStartFillStreamBuffer { s with stm0Callback := true }
  else s

end Source

section Cases

variable {β : Type u}

/-- The bank that the next fill asks for. -/
def nextBank (d : StreamingData) : BankRead :=
  ⟨d.lsn, d.banksize, d.writePtr⟩

/-- The system after a fill has been accepted. -/
def bankAccepted (s : System β) : System β :=
  { s with
    data := { s.data with isReading := true }
    alarm := false
    pending := some (.bank (nextBank s.data))
    ring := writeRange s.ring s.data.writePtr s.data.banksize (fun _ => none) }

/-- The ways in which a fill ends. -/
theorem stStartFillStreamBuffer_cases (s : System β) :
    (s.data.isReading = true ∧ stStartFillStreamBuffer s = s) ∨
    (s.data.isReading = false ∧ hasRoom s.data = false ∧
      stStartFillStreamBuffer s = { s with alarm := false }) ∨
    (s.data.isReading = false ∧ hasRoom s.data = true ∧
      s.pending.isSome = true ∧
      stStartFillStreamBuffer s = { s with alarm := true }) ∨
    (s.data.isReading = false ∧ hasRoom s.data = true ∧ s.pending = none ∧
      stStartFillStreamBuffer s = bankAccepted s) := by
  rcases stFillStreamBuffer_cases s.pending.isSome s.data with
    ⟨hreading, heq⟩ | ⟨hreading, hroom, heq⟩ | ⟨hreading, hroom, hbusy, heq⟩ |
      ⟨hreading, hroom, hfree, heq⟩
  · refine Or.inl ⟨hreading, ?_⟩
    rw [stStartFillStreamBuffer, heq]
  · refine Or.inr (Or.inl ⟨hreading, hroom, ?_⟩)
    rw [stStartFillStreamBuffer, heq]
  · refine Or.inr (Or.inr (Or.inl ⟨hreading, hroom, hbusy, ?_⟩))
    rw [stStartFillStreamBuffer, heq]
  · have hnone : s.pending = none := by
      simpa using hfree
    refine Or.inr (Or.inr (Or.inr ⟨hreading, hroom, hnone, ?_⟩))
    rw [stStartFillStreamBuffer, heq]
    rfl

end Cases

section Frames

variable {β : Type u} {drive : Drive β}

/-- A read in flight that the reading thread will end with its callback. -/
def callbackComes (s : System β) : Bool :=
  match s.pending with
  | some p => p.byReadingThread
  | none => false

theorem isSome_of_callbackComes
    {s : System β}
    (h : callbackComes s = true) :
    s.pending.isSome = true := by
  unfold callbackComes at h
  split at h
  · rename_i p hp
    rw [hp]
    rfl
  · cases h

/-- A fill neither starts nor pauses a stream. -/
theorem fill_frame (s : System β) :
    (stStartFillStreamBuffer s).data.stat = s.data.stat ∧
      (stStartFillStreamBuffer s).stm0Callback = s.stm0Callback := by
  rcases stStartFillStreamBuffer_cases s with
    ⟨-, heq⟩ | ⟨-, -, heq⟩ | ⟨-, -, -, heq⟩ | ⟨-, -, -, heq⟩
  · rw [heq]
    exact ⟨rfl, rfl⟩
  · rw [heq]
    exact ⟨rfl, rfl⟩
  · rw [heq]
    exact ⟨rfl, rfl⟩
  · rw [heq]
    exact ⟨rfl, rfl⟩

/-- The end of a device read changes neither the counters nor the callback. -/
theorem finishRead_frame
    {s t : System β} {ok : Bool} {p : Pending}
    (ht : finishRead drive ok p s = some t) :
    t.data = s.data ∧ t.stm0Callback = s.stm0Callback ∧ t.alarm = s.alarm ∧
      t.pending = none := by
  cases p with
  | foreign async =>
      cases ht
      exact ⟨rfl, rfl, rfl, rfl⟩
  | bank req =>
      simp only [finishRead] at ht
      split_ifs at ht
      · cases ht
        exact ⟨rfl, rfl, rfl, rfl⟩
      · cases ht
        exact ⟨rfl, rfl, rfl, rfl⟩

theorem syncWait_frame
    {s t : System β} {ok : Bool}
    (ht : syncWait drive ok s = some t) :
    t.data = s.data ∧ t.stm0Callback = s.stm0Callback := by
  unfold syncWait at ht
  split at ht
  · cases ht
    exact ⟨rfl, rfl⟩
  · obtain ⟨hdata, hset, -, -⟩ := finishRead_frame ht
    exact ⟨hdata, hset⟩

/-- The read pointer stays and sectors are only added. -/
structure Grows (s t : System β) : Prop where
  bufmax : t.data.bufmax = s.data.bufmax
  readPtr : t.data.readPtr = s.data.readPtr
  streamed : s.data.streamed ≤ t.data.streamed

theorem Grows.trans
    {s t u : System β}
    (h : Grows s t)
    (h' : Grows t u) :
    Grows s u :=
  ⟨h'.bufmax.trans h.bufmax, h'.readPtr.trans h.readPtr,
    le_trans h.streamed h'.streamed⟩

theorem grows_fill (s : System β) : Grows s (stStartFillStreamBuffer s) := by
  rcases stStartFillStreamBuffer_cases s with
    ⟨-, heq⟩ | ⟨-, -, heq⟩ | ⟨-, -, -, heq⟩ | ⟨-, -, -, heq⟩
  · rw [heq]
    exact ⟨rfl, rfl, le_rfl⟩
  · rw [heq]
    exact ⟨rfl, rfl, le_rfl⟩
  · rw [heq]
    exact ⟨rfl, rfl, le_rfl⟩
  · rw [heq]
    exact ⟨rfl, rfl, le_rfl⟩

theorem grows_callback
    {s : System β}
    (h : RingOk s.data) :
    Grows s (runStmCallback s) := by
  have hcount : Grows s { s with data := stmCallback s.data } := by
    cases hreading : s.data.isReading with
    | false =>
        have hsame : stmCallback s.data = s.data := by
          simp [stmCallback, hreading]
        rw [hsame]
        exact ⟨rfl, rfl, le_rfl⟩
    | true =>
        have hdata : stmCallback s.data = accountBank s.data := by
          simp [stmCallback, hreading]
        rw [hdata, h.accountBank_eq hreading]
        exact ⟨rfl, rfl, Nat.le_add_right _ _⟩
  exact hcount.trans (grows_fill _)

theorem grows_finish
    {s t : System β} {p : Pending} {ok : Bool}
    (ht : finishRead drive ok p s = some t) :
    Grows s t := by
  cases p with
  | foreign async =>
      simp only [finishRead, Option.some.injEq] at ht
      subst ht
      exact ⟨rfl, rfl, le_rfl⟩
  | bank req =>
      simp only [finishRead] at ht
      split_ifs at ht
      · cases ht
        exact ⟨rfl, rfl, le_rfl⟩
      · cases ht
        exact ⟨rfl, rfl, le_rfl⟩

end Frames

section Examples

/-- A disc whose sectors are their numbers. -/
def numberedDisc : Drive Nat where
  size := 1000
  size_lt := by decide
  sector := id
  delivered := fun lsn _ j => lsn + j
  delivered_eq := fun _ _ _ _ _ _ => rfl

end Examples

end Stream
end Ps2Cdvd
