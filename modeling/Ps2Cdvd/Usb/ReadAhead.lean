import Ps2Cdvd.Lib.Memory

/-!
# The read-ahead of the USB driver

`mass_stor_readSector` keeps a window of the disk in `ra_buffer`.  A read that
the window holds is copied from it and shortens the window; a read that goes on
where the last one ended starts a read-ahead of the same length, which opens a
new window and is waited for by the next call.

Here every command transfers what it is asked for; `RaVars` and its operations
are those of the driver.

* `RaInv.readSector`: what one call does, from any state of the window;
* `massStorReadSector_transparent`: any sequence of calls gives the same bytes as
  the uncached path, and stays inside `ra_buffer`.
-/

namespace Ps2Cdvd
namespace Usb

open Lib

section Source

/-- `SCSI_RA_SECTORS` -/
def scsiRaSectors : Nat := 64

/-- `MAX_SIZE`, the largest transfer of `mass_scsi_cmd`. -/
def maxSize : Nat := 4096

/-- The variables of the read-ahead; `raPos` is the position of
`ra_buffer_pointer` in `ra_buffer`. -/
structure RaVars where
  lastSector : Nat
  lastCount : Nat
  raPos : Nat
  raSector : Nat
  raCount : Nat
  raActive : Bool
deriving DecidableEq

def RaVars.initial : RaVars where
  lastSector := 0xffffffff
  lastCount := 0
  raPos := 0
  raSector := 0xffffffff
  raCount := 0
  raActive := false

/-- `(ra_sector == sector) && (ra_count >= count)` -/
def RaVars.hit (v : RaVars) (sector count : Nat) : Bool :=
  decide (v.raSector = sector ∧ count ≤ v.raCount)

/-- The window after a copy of `count` sectors out of it. -/
def RaVars.consume (v : RaVars) (count : Nat) : RaVars :=
  { v with
    raSector := u32 (v.raSector + count)
    raCount := u16 (v.raCount - count)
    raPos := v.raPos + count * 512 }

/-- A read-ahead is to be started behind a read. -/
def RaVars.wantsAhead (v : RaVars) (sector count : Nat) : Bool :=
  decide (u32 (v.lastSector + v.lastCount) = sector) &&
    !v.hit (u32 (sector + count)) count && decide (count ≤ scsiRaSectors)

/-- The window of a read-ahead that was started. -/
def RaVars.opened (v : RaVars) (sector count : Nat) : RaVars :=
  { v with
    raActive := true
    raSector := u32 (sector + count)
    raCount := count
    raPos := 0 }

/-- `last_sector = sector; last_count = count;` -/
def RaVars.noted (v : RaVars) (sector count : Nat) : RaVars :=
  { v with lastSector := sector, lastCount := count }

/-- The position and the length of each data transfer that `mass_scsi_cmd` makes
for `dataLen` bytes, from position `pos` on. -/
def dataTransfers : (fuel pos dataLen : Nat) → List (Nat × Nat)
  | 0, _, _ => []
  | fuel + 1, pos, dataLen =>
      if 0 < dataLen then
        let trLen := if dataLen < maxSize then dataLen else maxSize
        (pos, trLen) :: dataTransfers fuel (pos + trLen) (dataLen - trLen)
      else []

/-- The command block that `cbw_scsi_sector_io` builds; `dir` is 0 for a read. -/
def comData (dir lba sectorCount : Nat) : List UInt8 :=
  [if dir ≠ 0 then 0x2a else 0x28, 0,
    UInt8.ofNat (lba / 16777216), UInt8.ofNat (lba / 65536),
    UInt8.ofNat (lba / 256), UInt8.ofNat lba, 0,
    UInt8.ofNat (sectorCount / 256), UInt8.ofNat sectorCount, 0, 0, 0]

/-- The sector that a command block names to the device. -/
def cdbLba (cdb : List UInt8) : Nat :=
  16777216 * (cdb.getD 2 0).toNat + 65536 * (cdb.getD 3 0).toNat +
    256 * (cdb.getD 4 0).toNat + (cdb.getD 5 0).toNat

/-- The number of sectors that it names. -/
def cdbCount (cdb : List UInt8) : Nat :=
  256 * (cdb.getD 7 0).toNat + (cdb.getD 8 0).toNat

/-- A data transfer from the disk, for a command that reads from sector `lba`
on. -/
def dataIn (disk : Nat → UInt8) (lba : Nat) (tr : Nat × Nat)
    (buffer : Nat → UInt8) : Nat → UInt8 :=
  writeRange buffer tr.1 tr.2 (fun i => disk (512 * lba + tr.1 + i))

/-- `cbw_scsi_sector_io(dev, USB_BLK_EP_IN, lba, buffer, sectorCount, …)` with
all its transfers done: the device goes by the command block. -/
def cbwScsiSectorIo (disk : Nat → UInt8) (lba sectorCount : Nat)
    (buffer : Nat → UInt8) : Nat → UInt8 :=
  let cdb := comData 0 lba sectorCount
  (dataTransfers (512 * cdbCount cdb) 0 (512 * cdbCount cdb)).foldl
    (fun b tr => dataIn disk (cdbLba cdb) tr b) buffer

/-- The driver with its buffer; `pending` are the arguments of a read-ahead that
was not waited for, and `accesses` the position and the length of every copy out
of `ra_buffer` and every transfer to it. -/
structure RaState where
  vars : RaVars
  raBuffer : Nat → UInt8
  pending : Option (Nat × Nat)
  accesses : List (Nat × Nat)

def RaState.initial (raBuffer : Nat → UInt8) : RaState where
  vars := RaVars.initial
  raBuffer := raBuffer
  pending := none
  accesses := []

/-- `if (ra_active == 1) { WaitSema(io_sem); ra_active = 0; }` -/
def RaState.wait (disk : Nat → UInt8) (s : RaState) : RaState :=
  if s.vars.raActive then
    { s with
      vars := { s.vars with raActive := false }
      raBuffer :=
        match s.pending with
        | some (lba, count) => cbwScsiSectorIo disk lba count s.raBuffer
        | none => s.raBuffer
      pending := none }
  else s

/-- The read itself, from the window or from the disk. -/
def RaState.fetch
    (disk : Nat → UInt8) (sector count : Nat) (buffer : Nat → UInt8)
    (s : RaState) : (Nat → UInt8) × RaState :=
  if s.vars.hit sector count then
    (writeRange buffer 0 (512 * count) (fun i => s.raBuffer (s.vars.raPos + i)),
      { s with
        vars := s.vars.consume count
        accesses := s.accesses ++ [(s.vars.raPos, 512 * count)] })
  else (cbwScsiSectorIo disk sector count buffer, s)

/-- The read-ahead behind it. -/
def RaState.ahead (sector count : Nat) (s : RaState) : RaState :=
  if s.vars.wantsAhead sector count then
    { vars := s.vars.opened sector count
      raBuffer := s.raBuffer
      pending := some (u32 (sector + count), count)
      accesses :=
        s.accesses ++ dataTransfers (512 * count) 0 (512 * count) }
  else s

/-- `mass_stor_readSector(sector, count, buffer)`: the caller's buffer and the
driver behind the call. -/
def massStorReadSector
    (disk : Nat → UInt8) (sector count : Nat) (buffer : Nat → UInt8)
    (s : RaState) : (Nat → UInt8) × RaState :=
  let (buffer, s) := (s.wait disk).fetch disk sector count buffer
  let s := s.ahead sector count
  (buffer, { s with vars := s.vars.noted sector count })

/-- The arguments of a call. -/
structure ReadCall where
  sector : Nat
  count : Nat
  buffer : Nat → UInt8
  count_pos : 0 < count
  count_lt : count < 65536
  inside : sector + count < 4294967295

/-- The buffers that a sequence of calls returns, and the driver behind it. -/
def readRun (disk : Nat → UInt8) :
    List ReadCall → RaState → List (Nat → UInt8) × RaState
  | [], s => ([], s)
  | c :: calls, s =>
      let (buffer, s) := massStorReadSector disk c.sector c.count c.buffer s
      let (buffers, s) := readRun disk calls s
      (buffer :: buffers, s)

end Source

section Transfers

variable {disk : Nat → UInt8}

/-- The transfers of a command lie one behind the other. -/
theorem dataTransfers_within
    (fuel pos dataLen : Nat) :
    ∀ tr ∈ dataTransfers fuel pos dataLen,
      pos ≤ tr.1 ∧ tr.1 + tr.2 ≤ pos + dataLen := by
  induction fuel generalizing pos dataLen with
  | zero => simp [dataTransfers]
  | succ fuel ih =>
      unfold dataTransfers
      split_ifs with hpos hsmall
      · intro tr htr
        rcases List.mem_cons.mp htr with rfl | htr
        · exact ⟨le_rfl, le_rfl⟩
        · have h := ih _ _ tr htr
          omega
      · intro tr htr
        rcases List.mem_cons.mp htr with rfl | htr
        · exact ⟨le_rfl, by unfold maxSize at *; omega⟩
        · have h := ih _ _ tr htr
          unfold maxSize at *
          omega
      · simp

/-- Together they read the whole range. -/
theorem foldl_dataIn
    (lba fuel pos dataLen : Nat)
    (hfuel : dataLen ≤ fuel)
    (buffer : Nat → UInt8) :
    (dataTransfers fuel pos dataLen).foldl (fun b tr => dataIn disk lba tr b)
        buffer =
      writeRange buffer pos dataLen (fun i => disk (512 * lba + pos + i)) := by
  induction fuel generalizing pos dataLen buffer with
  | zero =>
      have hzero : dataLen = 0 := by
        omega
      subst hzero
      simp [dataTransfers]
  | succ fuel ih =>
      unfold dataTransfers
      split_ifs with hpos hsmall
      · rw [List.foldl_cons, Nat.sub_self, ih _ _ (by omega), writeRange_zero]
        rfl
      · rw [List.foldl_cons, ih _ _ (by unfold maxSize at *; omega)]
        have hwhole : maxSize + (dataLen - maxSize) = dataLen := by
          omega
        have hadj :=
          writeRange_adjacent buffer pos maxSize (dataLen - maxSize)
            (fun i => disk (512 * lba + pos + i))
        rw [hwhole] at hadj
        rw [← hadj]
        simp only [dataIn, ← Nat.add_assoc]
      · have hzero : dataLen = 0 := by
          omega
        subst hzero
        simp

/-- The command block names the sector and the count it was built for. -/
theorem cdbLba_comData
    (dir sectorCount : Nat) {lba : Nat}
    (h : lba < 4294967296) :
    cdbLba (comData dir lba sectorCount) = lba := by
  simp only [cdbLba, comData, List.getD_cons_succ, List.getD_cons_zero,
    UInt8.toNat_ofNat']
  omega

theorem cdbCount_comData
    (dir lba : Nat) {sectorCount : Nat}
    (h : sectorCount < 65536) :
    cdbCount (comData dir lba sectorCount) = sectorCount := by
  simp only [cdbCount, comData, List.getD_cons_succ, List.getD_cons_zero,
    UInt8.toNat_ofNat']
  omega

/-- The uncached path: the sectors asked for, at the front of the buffer. -/
theorem cbwScsiSectorIo_eq
    {lba sectorCount : Nat}
    (hlba : lba < 4294967296)
    (hcount : sectorCount < 65536)
    (buffer : Nat → UInt8) :
    cbwScsiSectorIo disk lba sectorCount buffer =
      writeRange buffer 0 (512 * sectorCount) (fun i => disk (512 * lba + i)) := by
  simp only [cbwScsiSectorIo, cdbLba_comData 0 sectorCount hlba,
    cdbCount_comData 0 lba hcount]
  rw [foldl_dataIn _ _ _ _ le_rfl]
  rfl

end Transfers

section Window

variable {disk : Nat → UInt8} {s : RaState}

/-- The window lies in `ra_buffer` and, once a pending read-ahead is waited for,
holds the sectors that the variables name. -/
structure RaInv (disk : Nat → UInt8) (s : RaState) : Prop where
  active : s.vars.raActive = true ↔ s.pending.isSome = true
  fits : s.vars.raPos + 512 * s.vars.raCount ≤ 512 * scsiRaSectors
  holds :
    ∀ i, i < 512 * s.vars.raCount →
      (s.wait disk).raBuffer (s.vars.raPos + i) =
        disk (512 * s.vars.raSector + i)
  accesses : ∀ a ∈ s.accesses, a.1 + a.2 ≤ 512 * scsiRaSectors

theorem raInv_initial (raBuffer : Nat → UInt8) :
    RaInv disk (RaState.initial raBuffer) := by
  constructor
  · simp [RaState.initial, RaVars.initial]
  · simp [RaState.initial, RaVars.initial]
  · intro i hi
    simp [RaState.initial, RaVars.initial] at hi
  · simp [RaState.initial]

/-- Without a pending read-ahead there is nothing to wait for. -/
theorem wait_of_idle
    (h : s.vars.raActive = false) :
    s.wait disk = s := by
  simp [RaState.wait, h]

theorem raActive_wait (s : RaState) : (s.wait disk).vars.raActive = false := by
  unfold RaState.wait
  by_cases h : s.vars.raActive = true
  · rw [if_pos h]
  · rw [if_neg h]
    simpa using h

/-- The wait completes the window. -/
theorem RaInv.wait
    (h : RaInv disk s) :
    RaInv disk (s.wait disk) := by
  by_cases hactive : s.vars.raActive = true
  · have hwait :
        s.wait disk =
          ⟨{ s.vars with raActive := false }, (s.wait disk).raBuffer, none,
            s.accesses⟩ := by
      simp only [RaState.wait, if_pos hactive]
    have hidle := @raActive_wait disk s
    constructor
    · rw [hidle, hwait]
      simp
    · rw [hwait]
      exact h.fits
    · rw [wait_of_idle hidle]
      intro i hi
      have hvars :
          (s.wait disk).vars = { s.vars with raActive := false } := by
        rw [hwait]
      rw [hvars] at hi ⊢
      exact h.holds i hi
    · rw [hwait]
      exact h.accesses
  · rw [wait_of_idle (by simpa using hactive)]
    exact h

theorem RaInv.consume
    (h : RaInv disk s)
    (hidle : s.vars.raActive = false)
    {sector count : Nat}
    (hhit : s.vars.hit sector count = true)
    (hsmall : s.vars.raCount < 65536)
    (hinside : sector + count < 4294967295) :
    RaInv disk
      { s with
        vars := s.vars.consume count
        accesses := s.accesses ++ [(s.vars.raPos, 512 * count)] } := by
  unfold RaVars.hit at hhit
  obtain ⟨hsector, hcount⟩ := of_decide_eq_true hhit
  have hfits := h.fits
  have hsectors : u32 (s.vars.raSector + count) = s.vars.raSector + count :=
    u32_of_lt (by omega)
  have hrest : u16 (s.vars.raCount - count) = s.vars.raCount - count :=
    u16_of_lt (by omega)
  constructor
  · exact h.active
  · simp only [RaVars.consume, hrest]
    omega
  · intro i hi
    have hsame :
        (RaState.wait disk
          { s with
            vars := s.vars.consume count
            accesses := s.accesses ++ [(s.vars.raPos, 512 * count)] }).raBuffer =
          s.raBuffer := by
      rw [wait_of_idle]
      exact hidle
    simp only [RaVars.consume, hrest, hsectors] at hi ⊢
    have hold := h.holds (512 * count + i) (by omega)
    rw [wait_of_idle hidle] at hold
    simp only [RaVars.consume, hrest, hsectors] at hsame
    rw [hsame, show s.vars.raPos + count * 512 + i =
      s.vars.raPos + (512 * count + i) by omega, hold]
    congr 1
    omega
  · intro a ha
    rcases List.mem_append.mp ha with hold | hnew
    · exact h.accesses a hold
    · rw [List.mem_singleton] at hnew
      subst hnew
      simp only
      omega

/-- The read gives the bytes of the disk. -/
theorem RaInv.fetch
    (h : RaInv disk s)
    (hidle : s.vars.raActive = false)
    {sector count : Nat}
    (hcount : count < 65536)
    (hinside : sector + count < 4294967295)
    (buffer : Nat → UInt8) :
    (s.fetch disk sector count buffer).1 =
        cbwScsiSectorIo disk sector count buffer ∧
      RaInv disk (s.fetch disk sector count buffer).2 ∧
      (s.fetch disk sector count buffer).2.vars.raActive = false := by
  unfold RaState.fetch
  by_cases hhit : s.vars.hit sector count = true
  · have hfits := h.fits
    unfold scsiRaSectors at hfits
    have hcopy :
        writeRange buffer 0 (512 * count)
            (fun i => s.raBuffer (s.vars.raPos + i)) =
          cbwScsiSectorIo disk sector count buffer := by
      rw [cbwScsiSectorIo_eq (by omega) hcount]
      apply writeRange_congr
      intro i hi
      have hwindow := hhit
      unfold RaVars.hit at hwindow
      obtain ⟨hsector, hheld⟩ := of_decide_eq_true hwindow
      have hbyte := h.holds i (by omega)
      rw [wait_of_idle hidle, hsector] at hbyte
      exact hbyte
    rw [if_pos hhit]
    exact ⟨hcopy, h.consume hidle hhit (by omega) hinside, hidle⟩
  · rw [if_neg hhit]
    exact ⟨rfl, h, hidle⟩

/-- A read-ahead opens a window that holds its sectors once it is waited for. -/
theorem RaInv.ahead
    (h : RaInv disk s)
    {sector count : Nat}
    (hcount : count < 65536) :
    RaInv disk (s.ahead sector count) := by
  unfold RaState.ahead
  by_cases hwants : s.vars.wantsAhead sector count = true
  · rw [if_pos hwants]
    unfold RaVars.wantsAhead at hwants
    rw [Bool.and_eq_true] at hwants
    have hfew : count ≤ scsiRaSectors := of_decide_eq_true hwants.2
    constructor
    · simp [RaVars.opened]
    · simp only [RaVars.opened]
      omega
    · intro i hi
      simp only [RaVars.opened] at hi
      simp only [RaState.wait, RaVars.opened, if_true]
      rw [cbwScsiSectorIo_eq (u32_lt _) hcount]
      exact writeRange_inside _ 0 _ hi
    · intro a ha
      rcases List.mem_append.mp ha with hold | hnew
      · exact h.accesses a hold
      · have hin := dataTransfers_within _ _ _ a hnew
        omega
  · rw [if_neg hwants]
    exact h

theorem RaInv.noted
    (h : RaInv disk s)
    (sector count : Nat) :
    RaInv disk { s with vars := s.vars.noted sector count } := by
  have hsame :
      (RaState.wait disk
        { s with vars := s.vars.noted sector count }).raBuffer =
        (s.wait disk).raBuffer := by
    unfold RaState.wait
    by_cases hactive : s.vars.raActive = true
    · rw [if_pos hactive, if_pos (show (s.vars.noted sector count).raActive = true
        from hactive)]
    · rw [if_neg hactive, if_neg (show ¬ (s.vars.noted sector count).raActive = true
        from hactive)]
  constructor
  · exact h.active
  · exact h.fits
  · intro i hi
    rw [hsame]
    exact h.holds i hi
  · exact h.accesses

/-- One call returns what the uncached path returns. -/
theorem RaInv.readSector
    (h : RaInv disk s)
    {sector count : Nat}
    (hcount : count < 65536)
    (hinside : sector + count < 4294967295)
    (buffer : Nat → UInt8) :
    (massStorReadSector disk sector count buffer s).1 =
        cbwScsiSectorIo disk sector count buffer ∧
      RaInv disk (massStorReadSector disk sector count buffer s).2 := by
  obtain ⟨hbytes, hinv, -⟩ :=
    h.wait.fetch (raActive_wait s) hcount hinside buffer
  exact ⟨hbytes, (hinv.ahead hcount).noted sector count⟩

/-- Any sequence of reads, from the start of the driver on, returns in every
buffer what the uncached path returns, and every copy and every transfer of the
read-ahead stays inside `ra_buffer`. -/
theorem massStorReadSector_transparent
    (disk : Nat → UInt8) (raBuffer : Nat → UInt8) (calls : List ReadCall) :
    (readRun disk calls (RaState.initial raBuffer)).1 =
        calls.map (fun c => cbwScsiSectorIo disk c.sector c.count c.buffer) ∧
      ∀ a ∈ (readRun disk calls (RaState.initial raBuffer)).2.accesses,
        a.1 + a.2 ≤ 512 * scsiRaSectors := by
  have hrun :
      ∀ (calls : List ReadCall) (s : RaState), RaInv disk s →
        (readRun disk calls s).1 =
            calls.map (fun c => cbwScsiSectorIo disk c.sector c.count c.buffer) ∧
          RaInv disk (readRun disk calls s).2 := by
    intro calls
    induction calls with
    | nil =>
        intro s h
        exact ⟨rfl, h⟩
    | cons c calls ih =>
        intro s h
        obtain ⟨hbytes, hinv⟩ := h.readSector c.count_lt c.inside c.buffer
        obtain ⟨hrest, hlast⟩ := ih _ hinv
        constructor
        · simp only [readRun, List.map_cons, hbytes, hrest]
        · exact hlast
  obtain ⟨hbuffers, hinv⟩ := hrun calls _ (raInv_initial raBuffer)
  exact ⟨hbuffers, hinv.accesses⟩

end Window

end Usb
end Ps2Cdvd
