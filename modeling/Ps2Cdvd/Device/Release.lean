import Ps2Cdvd.Device.Ata
import Ps2Cdvd.Lib.Locked
import Ps2Cdvd.Smb.Setup
import Ps2Cdvd.Usb.ReadAhead

/-!
# The I/O semaphore on every way out

With `VMC_DRIVER`, four functions begin with `WAITIOSEMA(io_sema)` and end with
`SIGNALIOSEMA(io_sema)`: `smb_OpenAndX`, `mass_stor_readSector` and the two
`ata_device_sector_io`.  Three of them also return in between, where something that they
have called fails.

What the calls underneath do is part of a request: what the ATA hardware does in each
attempt, the answers of the HD Pro registers, the results of `UsbBulkTransfer` and the
completion of a USB command.  The replies of an SMB server are in the variables of its
driver.

* `ioSema_released_iff`: for each function, the requests that signal the semaphore once,
  and leave it free for the next one;
* `Atad.returns`: the loop of the `ata_device_sector_io` of `atad` ends, and so it always
  signals;
* `ioSema_kept`: requests that return without, and block every later one.
-/

namespace Ps2Cdvd
namespace Release

open Lib

section Ata

/-- The arguments of `ata_device_sector_io`, with the setting `lba_48bit` and whether
`ATAWRITE` is defined. -/
structure SectorIo where
  atawrite : Bool
  lba48bit : Bool
  device : Int
  buf : Nat
  lba : Nat
  nsectors : Nat
  dir : Int

end Ata

section Atad

namespace Atad

/-- A call of `ata_device_sector_io`, and what the hardware does in each attempt. -/
structure Request where
  io : SectorIo
  env : Nat → Ata.Turn

/-- `ata_device_sector_io` of `atad.c`; the variables are the attempts that it has
made. -/
def ataDeviceSectorIo
    (v : List Ata.Attempt) (q : Request) : Option (Exit (List Ata.Attempt)) :=
  let (res, attempts) :=
    Ata.ataDeviceSectorIo q.env q.io.atawrite q.io.lba48bit q.io.device q.io.buf q.io.lba
      q.io.nsectors q.io.dir
  some ⟨res, 1, v ++ attempts⟩

end Atad

end Atad

section Hdpro

namespace Hdpro

/-- `hdpro_io_start()`, where the register answers `reply`; the flag is
`hdpro_io_active`. -/
def hdproIoStart (reply : Nat) (active : Bool) : Int × Bool :=
  if active then (0, active)
  else if reply &&& 0xff = 0xe7 then (1, true)
  else (0, false)

/-- `hdpro_io_finish()`, where the 32-bit register holds `io32`. -/
def hdproIoFinish (io32 : Nat) (active : Bool) : Int × Bool :=
  if !active then (0, active)
  else if io32 = 0x401a7800 then (1, false)
  else (0, true)

/-- A handshake that `gen_ata_wait_busy` makes, with the answer. -/
inductive Handshake
  | start (reply : Nat)
  | finish (io32 : Nat)

/-- What handshakes make of `hdpro_io_active`. -/
def shaken : List Handshake → Bool → Bool
  | [], active => active
  | .start reply :: shakes, active => shaken shakes (hdproIoStart reply active).2
  | .finish io32 :: shakes, active => shaken shakes (hdproIoFinish io32 active).2

/-- What the hardware does in an attempt, and the handshakes that `ata_io_start` and, when
the command was sent, `ata_io_finish` make in it. -/
structure Turn where
  hardware : Ata.Turn
  startShakes : List Handshake
  finishShakes : List Handshake

/-- The handshakes of an attempt. -/
def Turn.shakes (t : Turn) (a : Ata.Attempt) : List Handshake :=
  t.startShakes ++ if a.started = 0 then t.finishShakes else []

/-- A call of `ata_device_sector_io`: the answers to its own handshakes, and its
attempts. -/
structure Request where
  io : SectorIo
  startReply : Nat
  turns : List Turn
  finishIo32 : Nat

/-- A bus that stays busy. -/
def busyTurn : Ata.Turn := ⟨true, false, true, false, -1, 0⟩

/-- What the hardware does, by the number of the attempt. -/
def Request.env (q : Request) (n : Nat) : Ata.Turn :=
  (q.turns[n]?.map Turn.hardware).getD busyTurn

/-- `while (nsectors)`, for one turn more than the request has attempts. -/
def Request.loop (q : Request) : Option Int × List Ata.Attempt :=
  Ata.hdproLoop q.env q.io.atawrite q.io.lba48bit q.io.device q.io.dir
    (q.turns.length + 1) 0 q.io.buf q.io.lba q.io.nsectors 0

/-- `hdpro_io_active`, and the attempts that were made. -/
structure Vars where
  active : Bool
  attempts : List Ata.Attempt

/-- `ata_device_sector_io` of `hdpro_atad.c`.  `none`: these are not all the attempts of a
call that returns. -/
def ataDeviceSectorIo (v : Vars) (q : Request) : Option (Exit Vars) :=
  let (started, active) := hdproIoStart q.startReply v.active
  if started = 0 then some ⟨-1, 0, { v with active := active }⟩
  else
    let (ret, attempts) := q.loop
    if attempts.length ≠ q.turns.length then none
    else
      ret.map (fun res =>
        let active := shaken (List.zipWith Turn.shakes q.turns attempts).flatten active
        let (finished, active) := hdproIoFinish q.finishIo32 active
        let v := { active := active, attempts := v.attempts ++ attempts }
        if finished = 0 then ⟨-2, 0, v⟩ else ⟨res, 1, v⟩)

end Hdpro

end Hdpro

section Mass

namespace Mass

open Usb

/-- `EIO` -/
def eio : Int := 5

/-- What a command meets: whether each submission is accepted, and whether the command
completes with `USB_RC_OK`. -/
structure Turn where
  accepted : Nat → Bool
  completes : Bool

/-- The submissions of `mass_scsi_cmd`: the CBW, the data and the CSW. -/
def submissions (dataLen : Nat) : Nat :=
  (dataTransfers dataLen 0 dataLen).length + 2

/-- The result of `mass_scsi_cmd`; a command with a `cb` is not waited for. -/
def massScsiCmd (dataLen : Nat) (hasCb : Bool) (t : Turn) : Int :=
  if ∀ k, k < submissions dataLen → t.accepted k = true then
    if hasCb || t.completes then 0 else -eio
  else -eio

/-- A call of `mass_stor_readSector`; `ahead` is the command of the read-ahead. -/
structure Request where
  sector : Nat
  count : Nat
  sectorSize : Nat
  read : Turn
  ahead : Turn

/-- The read-ahead behind a read, the note of the read and the signal. -/
def readDone (q : Request) (v : RaVars) : Exit RaVars :=
  let v :=
    if v.wantsAhead q.sector q.count = true ∧
        massScsiCmd (u32 (q.sectorSize * q.count)) true q.ahead = 0 then
      v.opened q.sector q.count
    else v
  ⟨0, 1, v.noted q.sector q.count⟩

/-- `if (ra_active == 1) { WaitSema(io_sem); ra_active = 0; }`, once the read-ahead has
called back. -/
def waited (v : RaVars) : RaVars :=
  if v.raActive then { v with raActive := false } else v

/-- `mass_stor_readSector(sector, count, buffer)` -/
def massStorReadSector (v : RaVars) (q : Request) : Option (Exit RaVars) :=
  let v := waited v
  if v.hit q.sector q.count then some (readDone q (v.consume q.count))
  else if massScsiCmd (u32 (q.sectorSize * q.count)) false q.read < 0 then
    some ⟨0, 0, v⟩
  else some (readDone q v)

end Mass

end Mass

section Smb

namespace SmbOpen

open Smb

/-- A call of `smb_OpenAndX`. -/
structure Request where
  specs : ServerSpecs
  filename : List UInt8
  write : Bool

/-- `smb_OpenAndX`, from behind its wait. -/
def openAndX (s : Driver) (q : Request) : Option (Exit Driver) :=
  (smbOpenAndX true q.specs q.filename q.write { s with ioSema := true }).map
    (fun o => ⟨o.ret, if o.driver.ioSema then 1 else 0, o.driver⟩)

/-- What `GetSMBServerReply` gives for the request of the call. -/
def reply (s : Driver) (q : Request) : Option Reply :=
  (s.exchange (openRequest q.specs s.uid s.tid q.filename q.write s.buf)).map
    Prod.fst

end SmbOpen

end Smb

section Released

/-- `ata_device_sector_io` of `atad.c` gives the semaphore back in any case. -/
theorem Atad.releases :
    ReleasesWhen Atad.ataDeviceSectorIo (fun _ _ => True) := by
  refine releasesWhen_of_cases ?_
  intro v q e he
  cases he
  exact Or.inl ⟨rfl, trivial⟩

/-- Its loop ends, whatever the hardware does: more turns make no difference. -/
theorem Atad.returns
    (q : Atad.Request) {fuel : Nat}
    (hfuel : q.io.nsectors ≤ fuel) :
    Ata.sectorLoop q.env q.io.atawrite q.io.lba48bit q.io.device q.io.dir fuel 0 q.io.buf
        q.io.lba q.io.nsectors 0 =
      Ata.ataDeviceSectorIo q.env q.io.atawrite q.io.lba48bit q.io.device q.io.buf
        q.io.lba q.io.nsectors q.io.dir :=
  Ata.sectorLoop_enough hfuel 0 0

/-- The handshakes of a turn, by whether the hardware lets its command be sent. -/
def Hdpro.Turn.allShakes (t : Hdpro.Turn) : List Hdpro.Handshake :=
  t.startShakes ++ if t.hardware.refusal false = 0 then t.finishShakes else []

/-- The handshakes of the attempts are those of the turns. -/
theorem Hdpro.shakes_loop
    {q : Hdpro.Request}
    (hlength : q.loop.2.length = q.turns.length) :
    List.zipWith Hdpro.Turn.shakes q.turns q.loop.2 =
      q.turns.map Hdpro.Turn.allShakes := by
  refine List.ext_getElem (by simp [hlength]) ?_
  intro i hzip hmap
  rw [List.length_map] at hmap
  have hattempt : q.loop.2[i]? = some q.loop.2[i] := List.getElem?_eq_getElem _
  have hmade := Ata.hdproLoop_made _ _ _ i _ hattempt
  have hturn : q.env (0 + i) = q.turns[i].hardware := by
    simp [Hdpro.Request.env, hmap]
  rw [hturn] at hmade
  simp [Hdpro.Turn.shakes, Hdpro.Turn.allShakes, hmade.started]

/-- All handshakes of a call succeed, and those of its ATA commands leave
`hdpro_io_active` set. -/
def Hdpro.Shaken (v : Hdpro.Vars) (q : Hdpro.Request) : Prop :=
  v.active = false ∧ q.startReply &&& 0xff = 0xe7 ∧
    Hdpro.shaken (q.turns.flatMap Hdpro.Turn.allShakes) true = true ∧
    q.finishIo32 = 0x401a7800

theorem Hdpro.started_iff
    (reply : Nat) (active : Bool) :
    (Hdpro.hdproIoStart reply active).1 ≠ 0 ↔
      active = false ∧ reply &&& 0xff = 0xe7 := by
  cases active with
  | true => simp [Hdpro.hdproIoStart]
  | false =>
      by_cases hreply : reply &&& 0xff = 0xe7
      · simp [Hdpro.hdproIoStart, hreply]
      · simp [Hdpro.hdproIoStart, hreply]

theorem Hdpro.started_active
    {reply : Nat} {active : Bool}
    (h : (Hdpro.hdproIoStart reply active).1 ≠ 0) :
    (Hdpro.hdproIoStart reply active).2 = true := by
  obtain ⟨rfl, hreply⟩ := (Hdpro.started_iff reply active).mp h
  simp [Hdpro.hdproIoStart, hreply]

theorem Hdpro.finished_iff
    (io32 : Nat) (active : Bool) :
    (Hdpro.hdproIoFinish io32 active).1 ≠ 0 ↔
      active = true ∧ io32 = 0x401a7800 := by
  cases active with
  | false => simp [Hdpro.hdproIoFinish]
  | true =>
      by_cases hio : io32 = 0x401a7800
      · simp [Hdpro.hdproIoFinish, hio]
      · simp [Hdpro.hdproIoFinish, hio]

/-- A call that returns signals once or never, and once exactly when all its handshakes
succeed. -/
theorem Hdpro.signals_cases
    {v : Hdpro.Vars} {q : Hdpro.Request} {e : Exit Hdpro.Vars}
    (h : Hdpro.ataDeviceSectorIo v q = some e) :
    (e.signals = 1 ∧ Hdpro.Shaken v q) ∨ (e.signals = 0 ∧ ¬ Hdpro.Shaken v q) := by
  rw [Hdpro.ataDeviceSectorIo] at h
  dsimp only at h
  by_cases hstarted : (Hdpro.hdproIoStart q.startReply v.active).1 = 0
  · rw [if_pos hstarted] at h
    cases h
    refine Or.inr ⟨rfl, ?_⟩
    rintro ⟨hidle, hreply, -⟩
    exact (Hdpro.started_iff _ _).mpr ⟨hidle, hreply⟩ hstarted
  · rw [if_neg hstarted] at h
    by_cases hlength : q.loop.2.length = q.turns.length
    · rw [if_neg (not_not.mpr hlength), Hdpro.shakes_loop hlength,
        Hdpro.started_active hstarted, ← List.flatMap_def] at h
      obtain ⟨res, -, rfl⟩ := Option.map_eq_some_iff.mp h
      obtain ⟨hidle, hreply⟩ := (Hdpro.started_iff _ _).mp hstarted
      by_cases hfinished :
          (Hdpro.hdproIoFinish q.finishIo32
            (Hdpro.shaken (q.turns.flatMap Hdpro.Turn.allShakes) true)).1 = 0
      · rw [if_pos hfinished]
        refine Or.inr ⟨rfl, ?_⟩
        rintro ⟨-, -, hshaken, hio⟩
        exact (Hdpro.finished_iff _ _).mpr ⟨hshaken, hio⟩ hfinished
      · rw [if_neg hfinished]
        obtain ⟨hset, hio⟩ := (Hdpro.finished_iff _ _).mp hfinished
        exact Or.inl ⟨rfl, hidle, hreply, hset, hio⟩
    · rw [if_pos hlength] at h
      cases h

theorem Hdpro.releases :
    ReleasesWhen Hdpro.ataDeviceSectorIo Hdpro.Shaken :=
  releasesWhen_of_cases (fun _ _ _ he => Hdpro.signals_cases he)

/-- The sectors are in the window, or every submission of the read is accepted and the
read completes without an error. -/
def Mass.Reads (v : Usb.RaVars) (q : Mass.Request) : Prop :=
  v.hit q.sector q.count = true ∨
    ((∀ k, k < Mass.submissions (u32 (q.sectorSize * q.count)) →
        q.read.accepted k = true) ∧
      q.read.completes = true)

theorem Mass.massScsiCmd_nonneg_iff
    (dataLen : Nat) (t : Mass.Turn) :
    ¬ Mass.massScsiCmd dataLen false t < 0 ↔
      (∀ k, k < Mass.submissions dataLen → t.accepted k = true) ∧
        t.completes = true := by
  have hnegative : (-Mass.eio : Int) < 0 := by decide
  unfold Mass.massScsiCmd
  by_cases haccepted : ∀ k, k < Mass.submissions dataLen → t.accepted k = true
  · rw [if_pos haccepted, Bool.false_or]
    cases hcompletes : t.completes with
    | true => simpa using haccepted
    | false => simpa using hnegative
  · rw [if_neg haccepted]
    constructor
    · intro h
      exact absurd hnegative h
    · rintro ⟨h, -⟩
      exact absurd h haccepted

theorem Mass.waited_hit
    (v : Usb.RaVars) (sector count : Nat) :
    (Mass.waited v).hit sector count = v.hit sector count := by
  unfold Mass.waited
  split_ifs
  · rfl
  · rfl

theorem Mass.signals_cases
    {v : Usb.RaVars} {q : Mass.Request} {e : Exit Usb.RaVars}
    (h : Mass.massStorReadSector v q = some e) :
    (e.signals = 1 ∧ Mass.Reads v q) ∨ (e.signals = 0 ∧ ¬ Mass.Reads v q) := by
  have hhit := Mass.waited_hit v q.sector q.count
  rw [Mass.massStorReadSector] at h
  by_cases hin : v.hit q.sector q.count = true
  · rw [if_pos (hhit.trans hin)] at h
    cases h
    exact Or.inl ⟨rfl, Or.inl hin⟩
  · have hout : ¬ (Mass.waited v).hit q.sector q.count = true := by
      rw [hhit]
      exact hin
    have hread :=
      Mass.massScsiCmd_nonneg_iff (u32 (q.sectorSize * q.count)) q.read
    rw [if_neg hout] at h
    by_cases hfails :
        Mass.massScsiCmd (u32 (q.sectorSize * q.count)) false q.read < 0
    · rw [if_pos hfails] at h
      cases h
      refine Or.inr ⟨rfl, ?_⟩
      rintro (hwindow | hdisk)
      · exact hin hwindow
      · exact hread.mpr hdisk hfails
    · rw [if_neg hfails] at h
      cases h
      exact Or.inl ⟨rfl, Or.inr (hread.mp hfails)⟩

theorem Mass.releases :
    ReleasesWhen Mass.massStorReadSector Mass.Reads :=
  releasesWhen_of_cases (fun _ _ _ he => Mass.signals_cases he)

/-- No byte of the reply that is checked differs from a success. -/
def SmbOpen.Opens (s : Smb.Driver) (q : SmbOpen.Request) : Prop :=
  ∀ r, SmbOpen.reply s q = some r → ¬ r.Differs Smb.lowStatusPlaces

theorem SmbOpen.checked_ioSema
    {keep : Smb.Driver → Smb.Driver} {r : Smb.Reply} {s : Smb.Driver}
    (hkeep : (keep s).ioSema = true)
    (hs : s.ioSema = false)
    (failed : (Nat → UInt8) → Bool) :
    (Smb.checked failed keep r s).driver.ioSema = true ↔
      Smb.magic s.buf = Smb.smbMagic ∧ failed s.buf = false := by
  unfold Smb.checked
  split_ifs with hmagic hfailed
  · exact iff_of_false (by rw [hs]; exact Bool.false_ne_true) (fun h => hmagic h.1)
  · refine iff_of_false (by rw [hs]; exact Bool.false_ne_true) ?_
    rintro ⟨-, hok⟩
    rw [hok] at hfailed
    cases hfailed
  · exact iff_of_true hkeep ⟨not_not.mp hmagic, Bool.eq_false_iff.mpr hfailed⟩

/-- An exchange leaves the semaphore taken. -/
theorem SmbOpen.exchange_ioSema
    {request : Nat → UInt8} {s s' : Smb.Driver} {r : Smb.Reply}
    (h : { s with ioSema := false }.exchange request = some (r, s')) :
    s'.ioSema = false := by
  unfold Smb.Driver.exchange at h
  split at h
  · cases h
  · split at h
    · cases h
    · cases h
      rfl

/-- The reply does not depend on the semaphore. -/
theorem SmbOpen.reply_of_exchange
    {s s' : Smb.Driver} {q : SmbOpen.Request} {r : Smb.Reply}
    (h :
      { s with ioSema := false }.exchange
        (Smb.openRequest q.specs s.uid s.tid q.filename q.write s.buf) =
          some (r, s')) :
    SmbOpen.reply s q = some r := by
  unfold SmbOpen.reply
  unfold Smb.Driver.exchange at h ⊢
  dsimp only at h
  cases hsends : s.sends with
  | nil =>
      rw [hsends] at h
      cases h
  | cons sent sends =>
      rw [hsends] at h
      dsimp only at h ⊢
      split at h
      · cases h
      · cases h
        rfl

theorem SmbOpen.signals_cases
    {s : Smb.Driver} {q : SmbOpen.Request} {e : Exit Smb.Driver}
    (h : SmbOpen.openAndX s q = some e) :
    (e.signals = 1 ∧ SmbOpen.Opens s q) ∨ (e.signals = 0 ∧ ¬ SmbOpen.Opens s q) := by
  obtain ⟨o, ho, rfl⟩ := Option.map_eq_some_iff.mp h
  have hheader :=
    Smb.header_openRequest q.specs s.uid s.tid q.filename q.write s.buf
  simp only [Smb.smbOpenAndX, Bool.not_true, Bool.and_false, Bool.false_eq_true,
    if_false, Bool.and_true] at ho
  split at ho
  · cases ho
  · rename_i r s' hexchange
    cases ho
    obtain ⟨hinv, hbuf, -, -, -⟩ := Smb.exchange_spec hexchange
    have htaken : s'.ioSema = false := SmbOpen.exchange_ioSema hexchange
    have hreply : SmbOpen.reply s q = some r := SmbOpen.reply_of_exchange hexchange
    have hopens : SmbOpen.Opens s q ↔ ¬ r.Differs Smb.lowStatusPlaces := by
      rw [SmbOpen.Opens, hreply]
      exact ⟨fun h => h r rfl, fun h r' hr => Option.some.inj hr ▸ h⟩
    have hagrees :=
      Smb.agrees_iff hinv hheader Smb.lowStatusPlaces
        (by simp [Smb.lowStatusPlaces, Smb.statusPlaces])
    have hsignals :
        (Smb.checked (fun buf => decide (Smb.eclass buf ≠ 0))
          (fun s =>
            { s with
              fid := Smb.getField s.buf 41 2
              readUid := s.uid
              readTid := s.tid
              ioSema := true }) r s').driver.ioSema = true ↔
          SmbOpen.Opens s q := by
      rw [SmbOpen.checked_ioSema rfl htaken, hbuf, decide_eq_false_iff_not, not_not,
        Smb.lowStatus_iff, hagrees, hopens]
    by_cases hok : SmbOpen.Opens s q
    · left
      exact ⟨if_pos (hsignals.mpr hok), hok⟩
    · right
      exact ⟨if_neg (fun h => hok (hsignals.mp h)), hok⟩

theorem SmbOpen.releases :
    ReleasesWhen SmbOpen.openAndX SmbOpen.Opens :=
  releasesWhen_of_cases (fun _ _ _ he => SmbOpen.signals_cases he)

/-- The functions that wait for `io_sema`. -/
inductive IoSemaUser
  | smbOpenAndX
  | massStorReadSector
  | hdproAtaDeviceSectorIo
  | ataDeviceSectorIo

/-- What lasts from one call to the next. -/
def IoSemaUser.Vars : IoSemaUser → Type
  | .smbOpenAndX => Smb.Driver
  | .massStorReadSector => Usb.RaVars
  | .hdproAtaDeviceSectorIo => Hdpro.Vars
  | .ataDeviceSectorIo => List Ata.Attempt

/-- A call with the answers that it gets. -/
def IoSemaUser.Request : IoSemaUser → Type
  | .smbOpenAndX => SmbOpen.Request
  | .massStorReadSector => Mass.Request
  | .hdproAtaDeviceSectorIo => Hdpro.Request
  | .ataDeviceSectorIo => Atad.Request

/-- The function from the wait on. -/
def IoSemaUser.body :
    (f : IoSemaUser) → f.Vars → f.Request → Option (Exit f.Vars)
  | .smbOpenAndX => SmbOpen.openAndX
  | .massStorReadSector => Mass.massStorReadSector
  | .hdproAtaDeviceSectorIo => Hdpro.ataDeviceSectorIo
  | .ataDeviceSectorIo => Atad.ataDeviceSectorIo

/-- No checked byte of the reply to `smb_OpenAndX` differs from a success; the sectors of
`mass_stor_readSector` are in its window or its read succeeds; all handshakes around the
ATA commands of the HD Pro succeed.  The other `ata_device_sector_io` needs nothing. -/
def IoSemaUser.Succeeds : (f : IoSemaUser) → f.Vars → f.Request → Prop
  | .smbOpenAndX => SmbOpen.Opens
  | .massStorReadSector => Mass.Reads
  | .hdproAtaDeviceSectorIo => Hdpro.Shaken
  | .ataDeviceSectorIo => fun _ _ => True

/-- **Which ways out release the I/O semaphore.**  A call that returns has signalled it
once, and a sequence of requests stays unblocked, exactly as long as the calls
succeed. -/
theorem ioSema_released_iff (f : IoSemaUser) : ReleasesWhen f.body f.Succeeds := by
  cases f with
  | smbOpenAndX => exact SmbOpen.releases
  | massStorReadSector => exact Mass.releases
  | hdproAtaDeviceSectorIo => exact Hdpro.releases
  | ataDeviceSectorIo => exact Atad.releases

/-- A file that the server does not have, a read that the USB host refuses and an HD Pro
that does not answer: each call returns, and each later request is blocked. -/
theorem ioSema_kept :
    (∃ t,
      request SmbOpen.openAndX
          ⟨1, Smb.driverFor [100] [Smb.replyTo 0x2d [0x22, 0, 0, 0xc0]]⟩
          ⟨Smb.plainSpecs, [], false⟩ = some t ∧
        ∀ q, request SmbOpen.openAndX t q = none) ∧
    (∃ t,
      request Mass.massStorReadSector ⟨1, Usb.RaVars.initial⟩
          ⟨16, 4, 512, ⟨fun _ => false, true⟩, ⟨fun _ => true, true⟩⟩ = some t ∧
        ∀ q, request Mass.massStorReadSector t q = none) ∧
    ∃ t,
      request Hdpro.ataDeviceSectorIo ⟨1, false, []⟩
          ⟨⟨false, false, 0, 0x1000, 16, 4, 0⟩, 0xff, [], 0x401a7800⟩ = some t ∧
        ∀ q, request Hdpro.ataDeviceSectorIo t q = none := by
  refine ⟨?_, ?_, ?_⟩
  · have hcount :
        (request SmbOpen.openAndX
          ⟨1, Smb.driverFor [100] [Smb.replyTo 0x2d [0x22, 0, 0, 0xc0]]⟩
          ⟨Smb.plainSpecs, [], false⟩).map Locked.count = some 0 := by
      decide +kernel
    obtain ⟨t, ht, hzero⟩ := Option.map_eq_some_iff.mp hcount
    exact ⟨t, ht, request_blocked hzero⟩
  · have hcount :
        (request Mass.massStorReadSector ⟨1, Usb.RaVars.initial⟩
          ⟨16, 4, 512, ⟨fun _ => false, true⟩, ⟨fun _ => true, true⟩⟩).map
            Locked.count = some 0 := by
      decide +kernel
    obtain ⟨t, ht, hzero⟩ := Option.map_eq_some_iff.mp hcount
    exact ⟨t, ht, request_blocked hzero⟩
  · exact ⟨_, rfl, request_blocked rfl⟩

end Released

end Release
end Ps2Cdvd
