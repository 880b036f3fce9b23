import Ps2Cdvd.Device.Bdm
import Ps2Cdvd.Lib.Run

/-!
# The BDM back end: connecting and disconnecting devices

`bdm_connect_bd` and `bdm_disconnect_bd` change `g_bd` and
`g_bd_sectors_per_sector` while `DeviceReadSectors` uses them.  The steps are the
two stores of `bdm_connect_bd`, a `bdm_disconnect_bd`, the call and the polls of
`DeviceFSInit`, and a `DeviceReadSectors` in two halves: first it computes the
device sectors, then it calls through `g_bd`.  BDM delivers one event at a time.

* `deviceReadSectors_safe_of_inUse`: a read is safe where it begins with a device
  of a suitable sector size in use and that device stays in use; and an
  uninterrupted read is safe in no other state.
-/

namespace Ps2Cdvd
namespace HotPlug

open Lib Bdm

section Source

/-- `struct block_device`, as far as it is read.  `id` is its address. -/
structure BlockDevice where
  id : Nat
  sectorSize : Nat
  sectorSize_pos : 0 < sectorSize
deriving DecidableEq

/-- Where `DeviceFSInit` is. -/
inductive FsInit
  | notCalled
  | waiting
  | returned
deriving DecidableEq

/-- A `DeviceReadSectors` between its two halves: its arguments, the value of
`g_bd_sectors_per_sector` that it has used, and whether `DeviceFSInit` had
returned when it began. -/
structure Reading where
  lsn : Nat
  buffer : Nat
  sectors : Nat
  ratio : Nat
  afterInit : Bool

/-- A finished `DeviceReadSectors`: `g_bd` at its call, whether that device was
connected then, whether `g_bd` was dereferenced, and its call and result. -/
structure ReadLog where
  afterInit : Bool
  device : Option BlockDevice
  isConnected : Bool
  ratio : Nat
  touched : Bool
  call : BdRead
  result : Int

/-- The variables of `device-bdm.c`, the devices that are connected, and the
reads so far.  `connecting` is the device of a `bdm_connect_bd` that has stored
`g_bd` and not yet `g_bd_sectors_per_sector`. -/
structure State where
  connected : List BlockDevice
  gBd : Option BlockDevice
  sectorsPerSector : Nat
  connecting : Option BlockDevice
  fsInit : FsInit
  reading : Option Reading
  log : List ReadLog

def initial : State where
  connected := []
  gBd := none
  sectorsPerSector := 4
  connecting := none
  fsInit := .notCalled
  reading := none
  log := []

inductive Act
  | connect (bd : BlockDevice)
  | connectRest
  | disconnect (bd : BlockDevice)
  | fsInit
  | fsPoll
  | readBegin (lsn buffer sectors : Nat)
  | readCall (result : Int)

/-- `bdm_connect_bd(bd)`, up to its first store. -/
def bdmConnectBd (bd : BlockDevice) (s : State) : State :=
  if s.gBd = none then
    { s with
      connected := bd :: s.connected
      gBd := some bd
      connecting := some bd }
  else { s with connected := bd :: s.connected }

/-- `bdm_disconnect_bd(bd)` -/
def bdmDisconnectBd (bd : BlockDevice) (s : State) : State :=
  { s with
    connected := s.connected.filter (· ≠ bd)
    gBd := if s.gBd = some bd then none else s.gBd }

/-- The first half of `DeviceReadSectors(lsn, buffer, sectors)`. -/
def deviceReadBegin (lsn buffer sectors : Nat) (s : State) : State :=
  { s with
    reading :=
      some
        ⟨lsn, buffer, sectors, s.sectorsPerSector,
          decide (s.fsInit = .returned)⟩ }

/-- The second half: `g_bd->read(g_bd, sector, buffer, count)`, which the device
answers with `result`. -/
def deviceReadCall (lba0 : Nat) (r : Reading) (result : Int) (s : State) : State :=
  let dev := deviceReadSectors lba0 r.ratio r.lsn r.buffer r.sectors result
  { s with
    reading := none
    log := s.log ++
      [{ afterInit := r.afterInit
         device := s.gBd
         isConnected :=
           match s.gBd with
           | some bd => decide (bd ∈ s.connected)
           | none => false
         ratio := r.ratio
         touched := true
         call := dev.2
         result := dev.1 }] }

/-- One step. -/
def step (lba0 : Nat) (s : State) : Act → Option State
  | .connect bd =>
      if s.connecting = none then some (bdmConnectBd bd s) else none
  | .connectRest =>
      match s.connecting with
      | some bd =>
          some
            { s with
              sectorsPerSector := Bdm.sectorsPerSector bd.sectorSize
              connecting := none }
      | none => none
  | .disconnect bd =>
      if s.connecting = none then some (bdmDisconnectBd bd s) else none
  | .fsInit =>
      if s.fsInit = .notCalled then some { s with fsInit := .waiting } else none
  | .fsPoll =>
      if s.fsInit = .waiting then
        some (if s.gBd = none then s else { s with fsInit := .returned })
      else none
  | .readBegin lsn buffer sectors =>
      match s.reading with
      | none => some (deviceReadBegin lsn buffer sectors s)
      | some _ => none
  | .readCall result =>
      match s.reading with
      | some r => some (deviceReadCall lba0 r result s)
      | none => none

end Source

section Purpose

/-- The read has used a connected device with the ratio of its sector size, or
has returned an error without using one. -/
def ReadLog.Safe (r : ReadLog) : Prop :=
  (r.touched = false ∧ r.result ≠ 0) ∨
    ∃ bd, r.device = some bd ∧ r.isConnected = true ∧
      r.ratio * bd.sectorSize = 2048

/-- A device whose sector size divides 2048 is in use, and its connection is
complete. -/
def State.usable (s : State) : Bool :=
  s.connecting.isNone &&
    match s.gBd with
    | some bd => decide (bd.sectorSize ∣ 2048)
    | none => false

/-- A read is in progress that began after `DeviceFSInit`. -/
def State.busy (s : State) : Bool :=
  match s.reading with
  | some r => r.afterInit
  | none => false

/-- The steps under which reads are safe: a read begins with a usable device, and
the device in use is not disconnected during a read. -/
def inUse (s : State) : Act → Prop
  | .readBegin _ _ _ => s.fsInit = .returned → s.usable = true
  | .disconnect bd => s.busy = true → s.gBd ≠ some bd
  | _ => True

instance (s : State) : ∀ a, Decidable (inUse s a)
  | .readBegin _ _ _ =>
      inferInstanceAs (Decidable (s.fsInit = .returned → s.usable = true))
  | .disconnect bd =>
      inferInstanceAs (Decidable (s.busy = true → s.gBd ≠ some bd))
  | .connect _ => isTrue trivial
  | .connectRest => isTrue trivial
  | .fsInit => isTrue trivial
  | .fsPoll => isTrue trivial
  | .readCall _ => isTrue trivial

end Purpose

section Invariants

variable {lba0 : Nat} {s t : State}

/-- What any run keeps: the device in use is connected, and its ratio is stored
once its connection is complete. -/
structure Inv (s : State) : Prop where
  connected : ∀ bd, s.gBd = some bd → bd ∈ s.connected
  connecting : ∀ bd, s.connecting = some bd → s.gBd = some bd
  ratio :
    s.connecting = none → ∀ bd, s.gBd = some bd →
      s.sectorsPerSector = 2048 / bd.sectorSize

/-- What runs under `inUse` keep as well. -/
structure SafeInv (s : State) : Prop where
  inv : Inv s
  reading :
    ∀ r, s.reading = some r → r.afterInit = true →
      s.connecting = none ∧
        ∃ bd, s.gBd = some bd ∧ r.ratio * bd.sectorSize = 2048
  log : ∀ r ∈ s.log, r.afterInit = true → r.Safe

theorem inv_initial : Inv initial := by
  constructor
  · intro bd h
    cases h
  · intro bd h
    cases h
  · intro _ bd h
    cases h

theorem safeInv_initial : SafeInv initial := by
  constructor
  · exact inv_initial
  · intro r h
    cases h
  · intro r h
    cases h

/-- Steps that do not touch the device variables keep their invariant. -/
theorem Inv.of_same
    (h : Inv s)
    (hconnected : t.connected = s.connected)
    (hgBd : t.gBd = s.gBd)
    (hratio : t.sectorsPerSector = s.sectorsPerSector)
    (hconnecting : t.connecting = s.connecting) :
    Inv t := by
  constructor
  · rw [hgBd, hconnected]
    exact h.connected
  · rw [hconnecting, hgBd]
    exact h.connecting
  · rw [hconnecting, hgBd, hratio]
    exact h.ratio

theorem Inv.connect
    (h : Inv s)
    (bd : BlockDevice) :
    Inv (bdmConnectBd bd s) := by
  unfold bdmConnectBd
  split_ifs with hfree
  · constructor
    · intro bd' hbd
      rw [Option.some.injEq] at hbd
      subst hbd
      exact List.mem_cons_self
    · intro bd' hbd
      exact hbd
    · intro hnone
      cases hnone
  · constructor
    · intro bd' hbd
      exact List.mem_cons_of_mem _ (h.connected bd' hbd)
    · exact h.connecting
    · exact h.ratio

theorem Inv.disconnect
    (h : Inv s)
    (hidle : s.connecting = none)
    (bd : BlockDevice) :
    Inv (bdmDisconnectBd bd s) := by
  have hother :
      ∀ bd', (if s.gBd = some bd then none else s.gBd) = some bd' →
        s.gBd = some bd' ∧ bd' ≠ bd := by
    intro bd' hbd
    split_ifs at hbd with hcurrent
    refine ⟨hbd, ?_⟩
    rintro rfl
    exact hcurrent hbd
  constructor
  · intro bd' hbd
    obtain ⟨hcurrent, hne⟩ := hother bd' hbd
    exact List.mem_filter.mpr ⟨h.connected bd' hcurrent, by simpa using hne⟩
  · intro bd' hbd
    rw [show (bdmDisconnectBd bd s).connecting = s.connecting from rfl, hidle] at hbd
    cases hbd
  · intro _ bd' hbd
    exact h.ratio hidle bd' (hother bd' hbd).1

/-- Every step keeps the device variables consistent. -/
theorem Inv.next
    (h : Inv s)
    {a : Act}
    (hs : step lba0 s a = some t) :
    Inv t := by
  cases a with
  | connect bd =>
      simp only [step] at hs
      split_ifs at hs
      cases hs
      exact h.connect bd
  | connectRest =>
      simp only [step] at hs
      cases hc : s.connecting with
      | none =>
          rw [hc] at hs
          cases hs
      | some bd =>
          rw [hc] at hs
          cases hs
          have hcurrent := h.connecting bd hc
          constructor
          · exact h.connected
          · intro bd' hbd
            cases hbd
          · intro _ bd' hbd
            rw [hcurrent, Option.some.injEq] at hbd
            subst hbd
            rfl
  | disconnect bd =>
      simp only [step] at hs
      split_ifs at hs with hidle
      cases hs
      exact h.disconnect hidle bd
  | fsInit =>
      simp only [step] at hs
      split_ifs at hs
      cases hs
      exact h.of_same rfl rfl rfl rfl
  | fsPoll =>
      simp only [step] at hs
      split_ifs at hs
      · cases hs
        exact h
      · cases hs
        exact h.of_same rfl rfl rfl rfl
  | readBegin lsn buffer sectors =>
      simp only [step] at hs
      split at hs
      · cases hs
        exact h.of_same rfl rfl rfl rfl
      · cases hs
  | readCall result =>
      simp only [step] at hs
      split at hs
      · cases hs
        exact h.of_same rfl rfl rfl rfl
      · cases hs

/-- A usable device has the ratio that is stored. -/
theorem Inv.usable
    (h : Inv s)
    (husable : s.usable = true) :
    s.connecting = none ∧
      ∃ bd, s.gBd = some bd ∧ s.sectorsPerSector * bd.sectorSize = 2048 := by
  unfold State.usable at husable
  rw [Bool.and_eq_true, Option.isNone_iff_eq_none] at husable
  obtain ⟨hidle, hdevice⟩ := husable
  refine ⟨hidle, ?_⟩
  cases hbd : s.gBd with
  | none =>
      rw [hbd] at hdevice
      cases hdevice
  | some bd =>
      rw [hbd] at hdevice
      have hdvd : bd.sectorSize ∣ 2048 := of_decide_eq_true hdevice
      refine ⟨bd, rfl, ?_⟩
      rw [h.ratio hidle bd hbd]
      exact Nat.div_mul_cancel hdvd

end Invariants

section Reads

variable {lba0 : Nat} {s t : State}

/-- A read in progress is not disturbed by steps that leave it, the device in
use and the connection alone. -/
theorem SafeInv.of_same
    (h : SafeInv s)
    (hinv : Inv t)
    (hreading : t.reading = s.reading)
    (hlog : t.log = s.log)
    (hkeeps :
      s.busy = true → s.connecting = none →
        t.gBd = s.gBd ∧ t.connecting = none) :
    SafeInv t := by
  constructor
  · exact hinv
  · rw [hreading]
    intro r hr hafter
    obtain ⟨hidle, bd, hbd, hratio⟩ := h.reading r hr hafter
    have hbusy : s.busy = true := by
      unfold State.busy
      rw [hr]
      exact hafter
    obtain ⟨hgBd, hconnecting⟩ := hkeeps hbusy hidle
    exact ⟨hconnecting, bd, hgBd.trans hbd, hratio⟩
  · rw [hlog]
    exact h.log

/-- The device in use during a read. -/
theorem SafeInv.busy_device
    (h : SafeInv s)
    (hbusy : s.busy = true) :
    ∃ bd, s.gBd = some bd := by
  unfold State.busy at hbusy
  cases hr : s.reading with
  | none =>
      rw [hr] at hbusy
      cases hbusy
  | some r =>
      rw [hr] at hbusy
      obtain ⟨-, bd, hbd, -⟩ := h.reading r hr hbusy
      exact ⟨bd, hbd⟩

/-- The entry that the second half of a read makes. -/
theorem SafeInv.call_safe
    (h : SafeInv s)
    {r : Reading}
    (hr : s.reading = some r)
    (hafter : r.afterInit = true) :
    ∃ bd, s.gBd = some bd ∧ bd ∈ s.connected ∧
      r.ratio * bd.sectorSize = 2048 := by
  obtain ⟨-, bd, hbd, hratio⟩ := h.reading r hr hafter
  exact ⟨bd, hbd, h.inv.connected bd hbd, hratio⟩

/-- Every step under `inUse` keeps the reads safe. -/
theorem SafeInv.next
    (h : SafeInv s)
    {a : Act}
    (hguard : inUse s a)
    (hs : step lba0 s a = some t) :
    SafeInv t := by
  have hinv := h.inv.next hs
  cases a with
  | connect bd =>
      simp only [step] at hs
      split_ifs at hs with hidle
      cases hs
      refine h.of_same hinv ?_ ?_ ?_
      · unfold bdmConnectBd
        split_ifs <;> rfl
      · unfold bdmConnectBd
        split_ifs <;> rfl
      · intro hbusy _
        obtain ⟨bd', hbd'⟩ := h.busy_device hbusy
        unfold bdmConnectBd
        rw [if_neg (by rw [hbd']; exact Option.some_ne_none _)]
        exact ⟨rfl, hidle⟩
  | connectRest =>
      simp only [step] at hs
      split at hs
      · cases hs
        exact h.of_same hinv rfl rfl (fun _ _ => ⟨rfl, rfl⟩)
      · cases hs
  | disconnect bd =>
      simp only [step] at hs
      split_ifs at hs with hidle
      cases hs
      refine h.of_same hinv rfl rfl ?_
      intro hbusy hconnecting
      exact ⟨if_neg (hguard hbusy), hconnecting⟩
  | fsInit =>
      simp only [step] at hs
      split_ifs at hs
      cases hs
      exact h.of_same hinv rfl rfl (fun _ hc => ⟨rfl, hc⟩)
  | fsPoll =>
      simp only [step] at hs
      split_ifs at hs
      · cases hs
        exact h
      · cases hs
        exact h.of_same hinv rfl rfl (fun _ hc => ⟨rfl, hc⟩)
  | readBegin lsn buffer sectors =>
      simp only [step] at hs
      split at hs
      · cases hs
        refine ⟨hinv, ?_, h.log⟩
        intro r hr hafter
        have hreading := Option.some.inj hr
        subst hreading
        exact h.inv.usable (hguard (of_decide_eq_true hafter))
      · cases hs
  | readCall result =>
      simp only [step] at hs
      cases hr : s.reading with
      | none =>
          rw [hr] at hs
          cases hs
      | some r =>
          rw [hr] at hs
          cases hs
          constructor
          · exact hinv
          · intro r' hr'
            cases hr'
          · intro entry hentry hafter
            rcases List.mem_append.mp hentry with hold | hnew
            · exact h.log entry hold hafter
            · rw [List.mem_singleton] at hnew
              subst hnew
              obtain ⟨bd, hbd, hmem, hratio⟩ := h.call_safe hr hafter
              refine Or.inr ⟨bd, hbd, ?_, hratio⟩
              simp only [hbd]
              exact decide_eq_true hmem

/-- An uninterrupted read is safe if and only if it begins with a usable
device. -/
theorem Inv.uninterrupted_iff
    (h : Inv s)
    (hidle : s.connecting = none)
    {lsn buffer sectors : Nat} {result : Int} {u : State}
    (hbegin : step lba0 s (.readBegin lsn buffer sectors) = some u)
    (hcall : step lba0 u (.readCall result) = some t) :
    ∃ entry, t.log = s.log ++ [entry] ∧
      (entry.Safe ↔ s.usable = true) := by
  simp only [step] at hbegin
  split at hbegin
  · cases hbegin
    simp only [step, deviceReadBegin] at hcall
    cases hcall
    refine ⟨_, rfl, ?_⟩
    simp only [ReadLog.Safe, State.usable, hidle, Option.isNone_none,
      Bool.true_and, Bool.true_eq_false, false_and, false_or]
    cases hbd : s.gBd with
    | none => simp
    | some bd =>
        have hmem := h.connected bd hbd
        have hratio := h.ratio hidle bd hbd
        constructor
        · rintro ⟨bd', hsame, -, hwhole⟩
          rw [Option.some.injEq] at hsame
          subst hsame
          exact decide_eq_true (Dvd.intro_left _ hwhole)
        · intro hdvd
          refine ⟨bd, rfl, decide_eq_true hmem, ?_⟩
          rw [hratio]
          exact Nat.div_mul_cancel (of_decide_eq_true hdvd)
  · cases hbegin

/-- In every run whose reads begin with a usable device and keep it, every
`DeviceReadSectors` after `DeviceFSInit` is safe; and in any run at all, an
uninterrupted one is safe exactly if it begins with a usable device. -/
theorem deviceReadSectors_safe_of_inUse
    (lba0 : Nat) :
    (∀ s, GuardedReach (step lba0) inUse initial s →
      ∀ entry ∈ s.log, entry.afterInit = true → entry.Safe) ∧
    (∀ s, Reach (step lba0) initial s → s.connecting = none →
      ∀ lsn buffer sectors result u t,
        step lba0 s (.readBegin lsn buffer sectors) = some u →
        step lba0 u (.readCall result) = some t →
        ∃ entry, t.log = s.log ++ [entry] ∧
          (entry.Safe ↔ s.usable = true)) := by
  constructor
  · intro s hreach
    have hsafe : SafeInv s :=
      hreach.invariant safeInv_initial (fun _ _ _ h hg hs => h.next hg hs)
    exact hsafe.log
  · intro s hreach hidle lsn buffer sectors result u t hbegin hcall
    have hinv : Inv s :=
      hreach.invariant inv_initial (fun _ _ _ h _ hs => h.next hs)
    exact hinv.uninterrupted_iff hidle hbegin hcall

/-- A device with sectors of 512 bytes. -/
def disk512 : BlockDevice := ⟨1, 512, by decide⟩

/-- A device with sectors of 2048 bytes. -/
def disk2048 : BlockDevice := ⟨3, 2048, by decide⟩

/-- A device with sectors of 4096 bytes. -/
def disk4096 : BlockDevice := ⟨2, 4096, by decide⟩

/-- A device is used, replaced by another one, and that one is used. -/
def replacedRun : List Act :=
  [.fsInit, .connect disk512, .connectRest, .fsPoll, .readBegin 16 0x2000 1,
    .connect disk2048, .readCall 4, .disconnect disk512, .disconnect disk2048,
    .connect disk2048, .connectRest, .readBegin 17 0x2000 1, .readCall 1]

theorem deviceReadSectors_safe_of_inUse_replaced :
    ∃ s, GuardedReach (step 0) inUse initial s ∧ s.log.length = 2 ∧
      ∀ entry ∈ s.log, entry.afterInit = true → entry.Safe := by
  have hreach : GuardedReach (step 0) inUse initial _ :=
    guardedReach_of_runGuarded replacedRun rfl
  exact ⟨_, hreach, rfl, (deviceReadSectors_safe_of_inUse 0).1 _ hreach⟩

/-- The device is gone when the read comes: `g_bd` is dereferenced while it is
`NULL`.  A device with large sectors is used with a ratio of zero. -/
theorem deviceReadSectors_uses_no_device :
    (∃ s, Reach (step 0) initial s ∧
      ∃ entry ∈ s.log, entry.afterInit = true ∧ entry.touched = true ∧
        entry.device = none ∧ ¬ entry.Safe) ∧
    (∃ s, Reach (step 0) initial s ∧
      ∃ entry ∈ s.log, entry.afterInit = true ∧
        entry.device = some disk4096 ∧ entry.ratio = 0 ∧ ¬ entry.Safe) := by
  constructor
  · refine
      ⟨_, guardedReach_of_runGuarded
        [.fsInit, .connect disk512, .connectRest, .fsPoll, .disconnect disk512,
          .readBegin 16 0x2000 1, .readCall 4] rfl,
        _, List.mem_singleton_self _, rfl, rfl, rfl, ?_⟩
    rintro (⟨h, -⟩ | ⟨bd, h, -, -⟩)
    · cases h
    · cases h
  · refine
      ⟨_, guardedReach_of_runGuarded
        [.fsInit, .connect disk4096, .connectRest, .fsPoll,
          .readBegin 16 0x2000 1, .readCall 0] rfl,
        _, List.mem_singleton_self _, rfl, rfl, rfl, ?_⟩
    rintro (⟨h, -⟩ | ⟨bd, -, -, h⟩)
    · cases h
    · have hzero : 0 * bd.sectorSize = 2048 := h
      omega

end Reads

end HotPlug
end Ps2Cdvd
