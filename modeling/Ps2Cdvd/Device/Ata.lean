import Ps2Cdvd.Lib.Memory
import Ps2Cdvd.Lib.Tiling

/-!
# ATA requests

`ata_device_sector_io` cuts a request into chunks, and has `ata_io_start` write the
registers of the drive for each of them.  A drive keeps the last two bytes that were
written to each of its address registers; a command of the 48-bit kind uses both, and a
command of the 28-bit kind the last one and four bits of the select register.

* `attempt_addresses`: what the drive makes of the registers is the chunk;
* `attempt_made`: the command is sent whenever the hardware lets it;
* `sectorLoop_transfers`: the chunks are served in order, each by at most three commands;
* `hdproLoop_ends`: the HD Pro driver gets to the end as long as commands succeed;
* `ataDeviceSectorIo_transfers`: the requests address exactly the sectors asked for.
-/

namespace Ps2Cdvd
namespace Ata

open Lib

section Source

/-- The registers that are written. -/
inductive AtaReg
  | control
  | feature
  | nsector
  | sector
  | lcyl
  | hcyl
  | select
  | command
deriving DecidableEq

/-- `ATA_RES_ERR_NOTREADY`, `ATA_RES_ERR_TIMEOUT`, `ATA_RES_ERR_CMD` and
`ATA_RES_ERR_ICRC` -/
def ataResErrNotready : Int := -501

def ataResErrTimeout : Int := -502

def ataResErrCmd : Int := -506

def ataResErrIcrc : Int := -510

/-- `ATA_C_SMART` -/
def ataCSmart : Nat := 0xb0

/-- `smart_cmd_table` of both drivers: a command and its type. -/
def smartCmdTable : List (Nat × Nat) := [(0xd8, 0x01)]

/-- `ata_cmd_table` of `atad.c` -/
def atadCmdTable : List (Nat × Nat) :=
  [(0xc8, 0x04), (0xec, 0x02), (0xa1, 0x02), (0xb0, 0x07), (0xef, 0x01), (0x25, 0x84),
    (0xca, 0x04), (0xe3, 0x01), (0x35, 0x84)]

/-- `ata_cmd_table` of `hdpro_atad.c` -/
def hdproCmdTable : List (Nat × Nat) :=
  [(0xec, 0x02), (0xa1, 0x02), (0xb0, 0x07), (0xef, 0x01), (0xe3, 0x01), (0x20, 0x02),
    (0x24, 0x82), (0x30, 0x03), (0x34, 0x83)]

/-- The arguments of `ata_io_start`. -/
structure IoArgs where
  buf : Nat
  blkcount : Nat
  feature : Nat
  nsector : Nat
  sector : Nat
  lcyl : Nat
  hcyl : Nat
  select : Nat
  command : Nat
deriving DecidableEq

/-- What the hardware does in one attempt: whether the bus stays busy, before and behind
the choice of the device; whether the device is selected already and is ready; the result
of `SetAlarm`, and that of `ata_io_finish`. -/
structure Turn where
  busBusy : Bool
  selected : Bool
  busBusyAfter : Bool
  ready : Bool
  alarm : Int
  finish : Int

/-- `ata_device_select(device)`, with the registers that it writes. -/
def ataDeviceSelect (device : Nat) (t : Turn) : Int × List (AtaReg × Nat) :=
  if t.busBusy then (ataResErrTimeout, [])
  else if t.selected then (0, [])
  else (if t.busBusyAfter then ataResErrTimeout else 0, [(.select, device % 2 * 16)])

/-- `type` of a command, or 0. -/
def cmdType (table : List (Nat × Nat)) (feature command : Nat) : Nat :=
  let searched :=
    if command = ataCSmart then smartCmdTable.find? (fun c => c.1 == feature % 256)
    else table.find? (fun c => c.1 == command % 256)
  match searched with
  | some c => c.2
  | none => 0

/-- The commands that need no ready device: `ATA_C_DEVICE_RESET`,
`ATA_C_EXECUTE_DEVICE_DIAGNOSTIC`, `ATA_C_INITIALIZE_DEVICE_PARAMETERS`, `ATA_C_PACKET`
and `ATA_C_IDENTIFY_PACKET_DEVICE`. -/
def readyExempt : List Nat := [0x08, 0x90, 0x91, 0xa0, 0xa1]

/-- One pass over the address registers. -/
def addressWrites (a : IoArgs) (part : Nat → Nat) : List (AtaReg × Nat) :=
  [(.feature, part a.feature), (.nsector, part a.nsector), (.sector, part a.sector),
    (.lcyl, part a.lcyl), (.hcyl, part a.hcyl)]

/-- The registers that send off the command: `type & 0x80` asks for two passes, for the
48-bit LBA. -/
def commandWrites (control type : Nat) (a : IoArgs) : List (AtaReg × Nat) :=
  [(.control, control)] ++
    (if type / 128 % 2 = 1 then addressWrites a (fun v => v / 256 % 256) else []) ++
    addressWrites a (fun v => v % 256) ++
    -- `ATA_SEL_LBA`
    [(.select, (a.select ||| 0x40) % 256), (.command, a.command % 256)]

/-- `ata_io_start` of both drivers, with the registers that it writes: they differ in
their tables and in the types that need a timeout. -/
def ioStart
    (table : List (Nat × Nat)) (timeoutTypes : List Nat) (a : IoArgs) (t : Turn) :
    Int × List (AtaReg × Nat) :=
  let (res, selectWrites) := ataDeviceSelect (a.select / 16 % 2) t
  let type := cmdType table a.feature a.command
  let usingTimeout := timeoutTypes.contains (type % 128)
  if res ≠ 0 then (res, selectWrites)
  else if type % 128 = 0 then (ataResErrCmd, selectWrites)
  else if !t.ready && !readyExempt.contains a.command then
    (ataResErrNotready, selectWrites)
  else if usingTimeout && decide (t.alarm < 0) then (t.alarm, selectWrites)
  else (0, selectWrites ++ commandWrites (if usingTimeout then 0 else 2) type a)

/-- `ata_io_start` of `atad.c` -/
def atadIoStart : IoArgs → Turn → Int × List (AtaReg × Nat) :=
  ioStart atadCmdTable [1, 6, 4]

/-- `ata_io_start` of `hdpro_atad.c` -/
def hdproIoStart : IoArgs → Turn → Int × List (AtaReg × Nat) :=
  ioStart hdproCmdTable [1, 6]

/-- The arguments for a chunk of `len` sectors. -/
def chunkArgs
    (lba48 : Bool) (device : Int) (command buf lba len : Nat) : IoArgs where
  buf := buf
  blkcount := len
  feature := 0
  nsector := len
  sector :=
    if lba48 then (lba / 65536 &&& 0xff00) ||| lba % 256 else lba % 256
  lcyl := lba / 256 % 256
  hcyl := lba / 65536 % 256
  select :=
    if lba48 then u32OfInt (device * 16) % 65536
    else (u32OfInt (device * 16) ||| lba / 16777216 % 16) % 65536
  command := command

/-- A call of `ata_io_start`, and of `ata_io_finish` when it has sent the command. -/
structure Attempt where
  args : IoArgs
  started : Int
  writes : List (AtaReg × Nat)
  finished : Int

/-- `res` behind the attempt. -/
def Attempt.res (a : Attempt) : Int := if a.started ≠ 0 then a.started else a.finished

def attempt
    (start : IoArgs → Turn → Int × List (AtaReg × Nat)) (args : IoArgs) (t : Turn) :
    Attempt where
  args := args
  started := (start args t).1
  writes := (start args t).2
  finished := t.finish

/-- The loop over `retries`; `env` is what the hardware does, by the number of the
attempt. -/
def retryLoop (env : Nat → Turn) (args : IoArgs) :
    (retries : Nat) → (res : Int) → (n : Nat) → Int × List Attempt
  | 0, res, _ => (res, [])
  | retries + 1, _, n =>
      let a := attempt atadIoStart args (env n)
      if a.started ≠ 0 then (a.res, [a])
      else if a.res ≠ ataResErrIcrc then (a.res, [a])
      else
        let (res, rest) := retryLoop env args retries a.res (n + 1)
        (res, a :: rest)

/-- `len` in `atad.c` -/
def chunkLen (lba48 : Bool) (nsectors : Nat) : Nat :=
  if lba48 then (if 16384 < nsectors then 16384 else nsectors)
  else if 256 < nsectors then 256 else nsectors

/-- `command` in `atad.c`: the four DMA commands. -/
def atadCommand (atawrite lba48 : Bool) (dir : Int) : Nat :=
  if lba48 then (if decide (dir = 1) && atawrite then 0x35 else 0x25)
  else if decide (dir = 1) && atawrite then 0xca else 0xc8

/-- The loop over the chunks.  Each takes at least one sector, so that as many turns as
there are sectors are enough. -/
def sectorLoop (env : Nat → Turn) (atawrite lba48 : Bool) (device dir : Int) :
    (fuel : Nat) → (res : Int) → (buf lba nsectors n : Nat) → Int × List Attempt
  | 0, res, _, _, _, _ => (res, [])
  | fuel + 1, res, buf, lba, nsectors, n =>
      if res = 0 ∧ 0 < nsectors then
        let len := chunkLen lba48 nsectors
        let args :=
          chunkArgs lba48 device (atadCommand atawrite lba48 dir) buf lba len
        let (res, tries) := retryLoop env args 3 res n
        let (ret, rest) :=
          sectorLoop env atawrite lba48 device dir fuel res (u32 (buf + len * 512))
            (u32 (lba + len)) (nsectors - len) (n + tries.length)
        (ret, tries ++ rest)
      else (res, [])

/-- `ata_device_sector_io` of `atad.c`; `atawrite` is `ATAWRITE`. -/
def ataDeviceSectorIo
    (env : Nat → Turn) (atawrite lba48 : Bool) (device : Int) (buf lba nsectors : Nat)
    (dir : Int) : Int × List Attempt :=
  sectorLoop env atawrite lba48 device dir nsectors 0 buf lba nsectors 0

/-- `command` in `hdpro_atad.c`: the four PIO commands. -/
def hdproCommand (atawrite lba48 : Bool) (dir : Int) : Nat :=
  if lba48 then (if decide (dir = 1) && atawrite then 0x34 else 0x24)
  else if decide (dir = 1) && atawrite then 0x30 else 0x20

/-- The loop of `hdpro_atad.c`, for at most `fuel` turns: it retries until the command
succeeds.  There is no result when it has not ended by then. -/
def hdproLoop (env : Nat → Turn) (atawrite lba48 : Bool) (device dir : Int) :
    (fuel : Nat) → (res : Int) → (buf lba nsectors n : Nat) → Option Int × List Attempt
  | 0, _, _, _, _, _ => (none, [])
  | fuel + 1, res, buf, lba, nsectors, n =>
      if 0 < nsectors then
        let len := if 256 < nsectors then 256 else nsectors
        let args :=
          chunkArgs lba48 device (hdproCommand atawrite lba48 dir) buf lba len
        let a := attempt hdproIoStart args (env n)
        let (ret, rest) :=
          if a.res ≠ 0 then
            hdproLoop env atawrite lba48 device dir fuel a.res buf lba nsectors (n + 1)
          else
            hdproLoop env atawrite lba48 device dir fuel a.res (u32 (buf + len * 512))
              (u32 (lba + len)) (nsectors - len) (n + 1)
        (ret, a :: rest)
      else (some res, [])

/-- `ata_device_sector_io` of `hdpro_atad.c`; `started` and `finished` are the results of
`hdpro_io_start` and of `hdpro_io_finish`. -/
def hdproDeviceSectorIo
    (env : Nat → Turn) (started finished : Bool) (atawrite lba48 : Bool) (device : Int)
    (buf lba nsectors : Nat) (dir : Int) (fuel : Nat) : Option Int × List Attempt :=
  if !started then (some (-1), [])
  else
    let (ret, attempts) :=
      hdproLoop env atawrite lba48 device dir fuel 0 buf lba nsectors 0
    (if finished then ret else ret.map (fun _ => -2), attempts)

end Source

section Purpose

/-- The registers of a drive: of each address register the last two bytes that were
written, the last one first. -/
structure AtaRegs where
  nsector : Nat × Nat
  sector : Nat × Nat
  lcyl : Nat × Nat
  hcyl : Nat × Nat
  select : Nat
  command : Nat

/-- A byte is written to a register. -/
def AtaRegs.write (r : AtaRegs) : AtaReg × Nat → AtaRegs
  | (.nsector, v) => { r with nsector := (v, r.nsector.1) }
  | (.sector, v) => { r with sector := (v, r.sector.1) }
  | (.lcyl, v) => { r with lcyl := (v, r.lcyl.1) }
  | (.hcyl, v) => { r with hcyl := (v, r.hcyl.1) }
  | (.select, v) => { r with select := v }
  | (.command, v) => { r with command := v }
  | (.control, _) => r
  | (.feature, _) => r

/-- `READ SECTOR(S) EXT`, `READ DMA EXT`, `WRITE SECTOR(S) EXT` and `WRITE DMA EXT` -/
def extCommands : List Nat := [0x24, 0x25, 0x34, 0x35]

/-- The first sector and the number of sectors that a command is about. -/
def AtaRegs.range (r : AtaRegs) : Nat × Nat :=
  if r.command ∈ extCommands then
    (r.sector.1 + 256 * r.lcyl.1 + 65536 * r.hcyl.1 + 16777216 * r.sector.2 +
        4294967296 * r.lcyl.2 + 1099511627776 * r.hcyl.2,
      if r.nsector.1 + 256 * r.nsector.2 = 0 then 65536
      else r.nsector.1 + 256 * r.nsector.2)
  else
    (r.sector.1 + 256 * r.lcyl.1 + 65536 * r.hcyl.1 + 16777216 * (r.select % 16),
      if r.nsector.1 = 0 then 256 else r.nsector.1)

/-- The bus stays busy, before the choice of the device or behind it. -/
def Turn.busStays (t : Turn) : Bool := t.busBusy || (!t.selected && t.busBusyAfter)

/-- Why the hardware lets no command be sent in a turn, or 0: the bus stays busy, the
device is not ready, or a command with a timeout gets no alarm. -/
def Turn.refusal (usingTimeout : Bool) (t : Turn) : Int :=
  if t.busStays then ataResErrTimeout
  else if !t.ready then ataResErrNotready
  else if usingTimeout && decide (t.alarm < 0) then t.alarm
  else 0

/-- A command that is tried in the turn succeeds. -/
def Turn.Succeeds (usingTimeout : Bool) (t : Turn) : Prop :=
  t.refusal usingTimeout = 0 ∧ t.finish = 0

/-- An attempt is what `ata_io_start` makes of its arguments in the turn: the command is
sent when nothing is in the way, and has the result of the hardware then; no command is
sent otherwise. -/
structure Attempt.Made
    (ataIoStart : IoArgs → Turn → Int × List (AtaReg × Nat)) (usingTimeout : Bool)
    (t : Turn) (a : Attempt) : Prop where
  made : a = attempt ataIoStart a.args t
  started : a.started = t.refusal usingTimeout
  finished : a.finished = t.finish
  unsent : a.started ≠ 0 → ∀ w ∈ a.writes, w.1 = .select

/-- The attempts are made in the turns from number `n` on. -/
def MadeFrom
    (ataIoStart : IoArgs → Turn → Int × List (AtaReg × Nat)) (usingTimeout : Bool)
    (env : Nat → Turn) (n : Nat) (attempts : List Attempt) : Prop :=
  ∀ (i : Nat) (a : Attempt),
    attempts[i]? = some a → a.Made ataIoStart usingTimeout (env (n + i))

/-- The sectors that can be addressed. -/
def sectorLimit (lba48 : Bool) : Nat := if lba48 then 4294967296 else 268435456

/-- An attempt sends a command for `len` sectors from `lba` on, whatever was in the
registers before. -/
def Attempt.Addresses (a : Attempt) (lba len : Nat) : Prop :=
  a.started = 0 ∧
    ∀ r : AtaRegs, (a.writes.foldl AtaRegs.write r).range = (lba, len)

/-- A chunk of a request and the attempts that were made for it. -/
structure Chunk where
  lba : Nat
  len : Nat
  args : IoArgs
  tries : List Attempt

/-- `res` behind the attempts for a chunk. -/
def Chunk.res (c : Chunk) : Int := (c.tries.getLast?.map Attempt.res).getD 0

/-- The attempts for a chunk: a command is sent at most three times, each time with the
same registers for the sectors of the chunk, and again only after `ATA_RES_ERR_ICRC`. -/
structure Chunk.Sound (c : Chunk) : Prop where
  tried : c.tries ≠ []
  few : c.tries.length ≤ 3
  unchanged : ∀ a ∈ c.tries, a.args = c.args
  addressed : ∀ a ∈ c.tries, a.started = 0 → a.Addresses c.lba c.len
  again : ∀ a ∈ c.tries.dropLast, a.started = 0 ∧ a.res = ataResErrIcrc

/-- A request for `nsectors` sectors from `lba` on, with its buffer at `buf`, has come to
the result `ret` by way of the attempts for these chunks. -/
structure Transfers
    (buf lba nsectors : Nat) (ret : Int) (attempts : List Attempt) (chunks : List Chunk) :
    Prop where
  attempts : attempts = chunks.flatMap Chunk.tries
  sound : ∀ c ∈ chunks, c.Sound
  tiles :
    ∃ stop, stop ≤ lba + nsectors ∧ (ret = 0 → stop = lba + nsectors) ∧
      Tiles lba stop (chunks.map fun c => (c.lba, c.len))
  buffer :
    ∀ c ∈ chunks,
      c.args.buf % 4294967296 = (buf + 512 * (c.lba - lba)) % 4294967296 ∧
        c.args.blkcount = c.len
  result : ret = 0 ↔ ∀ c ∈ chunks, c.res = 0
  stops : ∀ pre c post, chunks = pre ++ c :: post → c.res ≠ 0 → post = [] ∧ ret = c.res

/-- The successful commands of a request that is retried without end: they address the
sectors up to `stop`, one behind the other, each for its part of the buffer. -/
def Advances (buf lba stop : Nat) (attempts : List Attempt) : Prop :=
  ∃ ranges,
    List.Forall₂
        (fun a r =>
          a.Addresses r.1 r.2 ∧ a.args.blkcount = r.2 ∧
            a.args.buf % 4294967296 = (buf + 512 * (r.1 - lba)) % 4294967296)
        (attempts.filter fun a => decide (a.res = 0)) ranges ∧
      Tiles lba stop ranges

end Purpose

section Registers

variable {a : IoArgs} {type : Nat}

/-- The two passes over the address registers, as a drive decodes them. -/
theorem range_ext
    (htype : type / 128 % 2 = 1)
    (hcommand : a.command % 256 ∈ extCommands)
    (control : Nat) (r : AtaRegs) :
    ((commandWrites control type a).foldl AtaRegs.write r).range =
      (a.sector % 256 + 256 * (a.lcyl % 256) + 65536 * (a.hcyl % 256) +
          16777216 * (a.sector / 256 % 256) + 4294967296 * (a.lcyl / 256 % 256) +
          1099511627776 * (a.hcyl / 256 % 256),
        if a.nsector % 256 + 256 * (a.nsector / 256 % 256) = 0 then 65536
        else a.nsector % 256 + 256 * (a.nsector / 256 % 256)) := by
  simp only [commandWrites, if_pos htype, addressWrites, List.cons_append, List.nil_append,
    List.foldl_cons, List.foldl_nil, AtaRegs.write, AtaRegs.range, if_pos hcommand]

/-- One pass over them. -/
theorem range_short
    (htype : ¬ type / 128 % 2 = 1)
    (hcommand : a.command % 256 ∉ extCommands)
    (control : Nat) (r : AtaRegs) :
    ((commandWrites control type a).foldl AtaRegs.write r).range =
      (a.sector % 256 + 256 * (a.lcyl % 256) + 65536 * (a.hcyl % 256) +
          16777216 * ((a.select ||| 0x40) % 256 % 16),
        if a.nsector % 256 = 0 then 256 else a.nsector % 256) := by
  simp only [commandWrites, if_neg htype, addressWrites, List.cons_append, List.nil_append,
    List.append_nil, List.foldl_cons, List.foldl_nil, AtaRegs.write, AtaRegs.range,
    if_neg hcommand]

variable
  {table : List (Nat × Nat)}
  {timeoutTypes : List Nat}
  {t : Turn}

/-- What `ata_io_start` has written when it has sent the command. -/
theorem ioStart_writes
    (h : (ioStart table timeoutTypes a t).1 = 0) :
    ∃ front control,
      (ioStart table timeoutTypes a t).2 =
        front ++ commandWrites control (cmdType table a.feature a.command) a := by
  unfold ioStart at h ⊢
  dsimp only at h ⊢
  generalize timeoutTypes.contains (cmdType table a.feature a.command % 128) = usingTimeout
    at h ⊢
  by_cases hselect : (ataDeviceSelect (a.select / 16 % 2) t).1 ≠ 0
  · rw [if_pos hselect] at h
    exact absurd h hselect
  rw [if_neg hselect] at h ⊢
  by_cases htype : cmdType table a.feature a.command % 128 = 0
  · rw [if_pos htype] at h
    cases h
  rw [if_neg htype] at h ⊢
  by_cases hready : (!t.ready && !readyExempt.contains a.command) = true
  · rw [if_pos hready] at h
    cases h
  rw [if_neg hready] at h ⊢
  by_cases halarm : (usingTimeout && decide (t.alarm < 0)) = true
  · -- a failed `SetAlarm` is negative
    rw [if_pos halarm] at h
    have hneg := of_decide_eq_true (Bool.and_eq_true_iff.mp halarm).2
    have hzero : t.alarm = 0 := h
    omega
  · rw [if_neg halarm]
    exact ⟨_, _, rfl⟩

/-- The choice of the device fails when the bus stays busy. -/
theorem ataDeviceSelect_busStays (device : Nat) (t : Turn) :
    (ataDeviceSelect device t).1 = (if t.busStays then ataResErrTimeout else 0) ∧
      ∀ w ∈ (ataDeviceSelect device t).2, w.1 = AtaReg.select := by
  unfold ataDeviceSelect Turn.busStays
  cases t.busBusy with
  | true => simp
  | false =>
      cases t.selected with
      | true => simp
      | false => simp

/-- What `ata_io_start` makes of a command that it knows and that needs a ready device. -/
theorem ioStart_refusal
    (htype : cmdType table a.feature a.command % 128 ≠ 0)
    (hready : a.command ∉ readyExempt) :
    (ioStart table timeoutTypes a t).1 =
        t.refusal (timeoutTypes.contains (cmdType table a.feature a.command % 128)) ∧
      ((ioStart table timeoutTypes a t).1 ≠ 0 →
        ∀ w ∈ (ioStart table timeoutTypes a t).2, w.1 = AtaReg.select) := by
  unfold ioStart Turn.refusal
  dsimp only
  obtain ⟨hselect, hwrites⟩ := ataDeviceSelect_busStays (a.select / 16 % 2) t
  have hexempt : readyExempt.contains a.command = false := by simpa using hready
  have htimeout : ataResErrTimeout ≠ 0 := by decide
  generalize timeoutTypes.contains (cmdType table a.feature a.command % 128) = usingTimeout
  rw [hselect, hexempt, Bool.not_false, Bool.and_true]
  cases t.busStays with
  | true =>
      rw [if_pos rfl, if_pos htimeout]
      exact ⟨rfl, fun _ => hwrites⟩
  | false =>
      simp only [Bool.false_eq_true, if_false, ne_eq, not_true_eq_false, htype]
      by_cases hnot : (!t.ready) = true
      · rw [if_pos hnot, if_pos hnot]
        exact ⟨rfl, fun _ => hwrites⟩
      rw [if_neg hnot, if_neg hnot]
      by_cases halarm : (usingTimeout && decide (t.alarm < 0)) = true
      · rw [if_pos halarm, if_pos halarm]
        exact ⟨rfl, fun _ => hwrites⟩
      · rw [if_neg halarm, if_neg halarm]
        exact ⟨rfl, fun h => absurd rfl h⟩

theorem sector_low (lba : Nat) :
    ((lba / 65536 &&& 0xff00) ||| lba % 256) % 256 = lba % 256 := by
  have hor := @Nat.or_mod_two_pow (lba / 65536 &&& 0xff00) (lba % 256) 8
  have hand := @Nat.and_mod_two_pow (lba / 65536) 0xff00 8
  norm_num at hor hand
  rw [hor, hand, Nat.zero_or]

theorem sector_high
    {lba : Nat}
    (hlba : lba < 4294967296) :
    ((lba / 65536 &&& 0xff00) ||| lba % 256) / 256 % 256 = lba / 16777216 := by
  have hor := @Nat.shiftRight_or_distrib 8 (lba / 65536 &&& 0xff00) (lba % 256)
  have hand := @Nat.shiftRight_and_distrib 8 (lba / 65536) 0xff00
  have hmask := Nat.and_two_pow_sub_one_eq_mod (lba / 65536 / 256) 8
  simp only [Nat.shiftRight_eq_div_pow] at hor hand
  norm_num at hor hand hmask
  rw [hor, hand, hmask]
  omega

/-- The low bits of the select register are those of the sector number. -/
theorem select_low (device : Int) (lba : Nat) :
    ((u32OfInt (device * 16) ||| lba / 16777216 % 16) % 65536 ||| 0x40) % 256 % 16 =
      lba / 16777216 % 16 := by
  have hdevice : u32OfInt (device * 16) % 16 = 0 := by
    unfold u32OfInt
    omega
  have hsel :=
    @Nat.or_mod_two_pow ((u32OfInt (device * 16) ||| lba / 16777216 % 16) % 65536) 0x40 4
  have hor := @Nat.or_mod_two_pow (u32OfInt (device * 16)) (lba / 16777216 % 16) 4
  norm_num at hsel hor
  rw [Nat.mod_mod_of_dvd _ (by decide), hsel, hor, hdevice, Nat.zero_or]

/-- An attempt that sends the command for a chunk. -/
theorem attempt_addresses
    {start : IoArgs → Turn → Int × List (AtaReg × Nat)} {lba48 : Bool} {device : Int}
    {command buf lba len : Nat}
    (hstart : start = ioStart table timeoutTypes)
    (htype : cmdType table 0 command / 128 % 2 = if lba48 then 1 else 0)
    (hcommand : command % 256 ∈ extCommands ↔ lba48 = true)
    (hlba : lba < sectorLimit lba48)
    (hlen : 0 < len)
    (hcount : len ≤ if lba48 then 16384 else 256)
    (hsent : (attempt start (chunkArgs lba48 device command buf lba len) t).started = 0) :
    (attempt start (chunkArgs lba48 device command buf lba len) t).Addresses lba len := by
  subst hstart
  refine ⟨hsent, ?_⟩
  intro r
  obtain ⟨front, control, hwrites⟩ := ioStart_writes hsent
  have hattempt :
      (attempt (ioStart table timeoutTypes)
        (chunkArgs lba48 device command buf lba len) t).writes =
        front ++
          commandWrites control (cmdType table 0 command)
            (chunkArgs lba48 device command buf lba len) := hwrites
  rw [hattempt, List.foldl_append]
  cases lba48 with
  | true =>
      simp only [if_true, sectorLimit] at htype hlba hcount
      rw [range_ext htype (hcommand.mpr rfl)]
      simp only [chunkArgs, if_true, sector_low, sector_high hlba]
      rw [if_neg (by omega)]
      exact Prod.ext (by dsimp only; omega) (by dsimp only; omega)
  | false =>
      have hshort : command % 256 ∉ extCommands := fun h => by simpa using hcommand.mp h
      simp only [Bool.false_eq_true, if_false, sectorLimit] at htype hlba hcount
      rw [range_short (by omega) hshort]
      simp only [chunkArgs, Bool.false_eq_true, if_false, select_low]
      refine Prod.ext (by dsimp only; omega) ?_
      dsimp only
      split_ifs with hzero
      · omega
      · omega

/-- An attempt for a chunk, of a command that the table has and that needs a ready
device. -/
theorem attempt_made
    {lba48 : Bool} {device : Int} {command buf lba len : Nat}
    (htype : cmdType table 0 command % 128 ≠ 0)
    (hready : command ∉ readyExempt) :
    (attempt (ioStart table timeoutTypes)
        (chunkArgs lba48 device command buf lba len) t).Made (ioStart table timeoutTypes)
      (timeoutTypes.contains (cmdType table 0 command % 128)) t := by
  have hstart :=
    @ioStart_refusal (chunkArgs lba48 device command buf lba len) table timeoutTypes t
      htype hready
  exact ⟨rfl, hstart.1, rfl, hstart.2⟩

variable {ataIoStart : IoArgs → Turn → Int × List (AtaReg × Nat)} {usingTimeout : Bool}

/-- The result of an attempt is 0 when the turn lets its command succeed. -/
theorem Attempt.Made.res_iff
    {b : Attempt}
    (h : b.Made ataIoStart usingTimeout t) :
    b.res = 0 ↔ t.Succeeds usingTimeout := by
  unfold Attempt.res Turn.Succeeds
  rw [h.started, h.finished]
  by_cases hrefused : t.refusal usingTimeout = 0
  · simp [hrefused]
  · simp [hrefused]

theorem MadeFrom.nil (env : Nat → Turn) (n : Nat) :
    MadeFrom ataIoStart usingTimeout env n [] :=
  fun _ _ h => by simp at h

theorem MadeFrom.cons
    {env : Nat → Turn} {n : Nat} {a : Attempt} {attempts : List Attempt}
    (ha : a.Made ataIoStart usingTimeout (env n))
    (h : MadeFrom ataIoStart usingTimeout env (n + 1) attempts) :
    MadeFrom ataIoStart usingTimeout env n (a :: attempts) := by
  intro i b hb
  cases i with
  | zero =>
      obtain rfl : a = b := by simpa using hb
      exact ha
  | succ i =>
      have hmade := h i b (by simpa using hb)
      rwa [Nat.add_right_comm, Nat.add_assoc] at hmade

theorem MadeFrom.append
    {env : Nat → Turn} {n : Nat} {first second : List Attempt}
    (hfirst : MadeFrom ataIoStart usingTimeout env n first)
    (hsecond : MadeFrom ataIoStart usingTimeout env (n + first.length) second) :
    MadeFrom ataIoStart usingTimeout env n (first ++ second) := by
  induction first generalizing n with
  | nil => simpa using hsecond
  | cons a first ih =>
      have ha : a.Made ataIoStart usingTimeout (env n) := hfirst 0 a rfl
      refine MadeFrom.cons ha (ih ?_ ?_)
      · intro i b hb
        have hmade := hfirst (i + 1) b (by simpa using hb)
        rwa [Nat.add_right_comm, Nat.add_assoc]
      · rw [List.length_cons] at hsecond
        rwa [Nat.add_right_comm, Nat.add_assoc]

end Registers

section Chunks

variable
  {env : Nat → Turn}
  {args : IoArgs}
  {buf lba len nsectors : Nat}
  {ret : Int}
  {attempts : List Attempt}
  {chunks : List Chunk}

/-- The attempts that the loop over `retries` makes for a chunk. -/
theorem retryLoop_sound
    (haddresses :
      ∀ t, (attempt atadIoStart args t).started = 0 →
        (attempt atadIoStart args t).Addresses lba len)
    (retries : Nat) (res : Int) (n : Nat) :
    let out := retryLoop env args (retries + 1) res n
    out.2 ≠ [] ∧ out.2.length ≤ retries + 1 ∧
      (∀ a ∈ out.2, a.args = args ∧ (a.started = 0 → a.Addresses lba len)) ∧
      (∀ a ∈ out.2.dropLast, a.started = 0 ∧ a.res = ataResErrIcrc) ∧
      (out.2.getLast?.map Attempt.res).getD 0 = out.1 := by
  induction retries generalizing res n with
  | zero =>
      dsimp only
      rw [retryLoop]
      dsimp only [retryLoop]
      split_ifs with hstarted hicrc
      · simpa using ⟨rfl, haddresses (env n)⟩
      · simpa using ⟨rfl, haddresses (env n)⟩
      · simpa using ⟨rfl, haddresses (env n)⟩
  | succ retries ih =>
      have hrest := ih (attempt atadIoStart args (env n)).res (n + 1)
      dsimp only at hrest ⊢
      rw [retryLoop]
      dsimp only
      split_ifs with hstarted hicrc
      · simpa using ⟨rfl, haddresses (env n)⟩
      · simpa using ⟨rfl, haddresses (env n)⟩
      · obtain ⟨hne, hlength, hall, hagain, hlast⟩ := hrest
        refine ⟨List.cons_ne_nil _ _, Nat.succ_le_succ hlength, ?_, ?_, ?_⟩
        · intro a ha
          rcases List.mem_cons.mp ha with rfl | hmem
          · exact ⟨rfl, haddresses (env n)⟩
          · exact hall a hmem
        · intro a ha
          rw [List.dropLast_cons_of_ne_nil hne] at ha
          rcases List.mem_cons.mp ha with rfl | hmem
          · exact ⟨not_not.mp hstarted, not_not.mp hicrc⟩
          · exact hagain a hmem
        · rw [List.getLast?_cons_of_ne_nil hne]
          exact hlast

/-- The chunk that the attempts are made for. -/
theorem retryLoop_chunk
    (haddresses :
      ∀ t, (attempt atadIoStart args t).started = 0 →
        (attempt atadIoStart args t).Addresses lba len)
    (res : Int) (n : Nat) :
    (Chunk.mk lba len args (retryLoop env args 3 res n).2).Sound ∧
      (Chunk.mk lba len args (retryLoop env args 3 res n).2).res =
        (retryLoop env args 3 res n).1 := by
  obtain ⟨hne, hlength, hall, hagain, hlast⟩ :=
    @retryLoop_sound env args lba len haddresses 2 res n
  exact
    ⟨⟨hne, hlength, fun a ha => (hall a ha).1, fun a ha => (hall a ha).2, hagain⟩, hlast⟩

/-- They are made one after the other. -/
theorem retryLoop_made
    (hmade : ∀ t, (attempt atadIoStart args t).Made atadIoStart true t)
    (retries : Nat) (res : Int) (n : Nat) :
    MadeFrom atadIoStart true env n (retryLoop env args retries res n).2 := by
  induction retries generalizing res n with
  | zero => exact .nil env n
  | succ retries ih =>
      rw [retryLoop]
      dsimp only
      split_ifs with hstarted hicrc
      · exact .cons (hmade (env n)) (.nil env (n + 1))
      · exact .cons (hmade (env n)) (.nil env (n + 1))
      · exact .cons (hmade (env n)) (ih _ (n + 1))

theorem Transfers.nil (buf lba : Nat) : Transfers buf lba 0 0 [] [] where
  attempts := rfl
  sound := by simp
  tiles := ⟨lba, Nat.le_refl _, fun _ => rfl, rfl⟩
  buffer := by simp
  result := by simp
  stops := by simp

variable {c : Chunk}

/-- A chunk that fails is the last one. -/
theorem Transfers.failed
    (hsound : c.Sound)
    (hbuf : c.args.buf = buf)
    (hcount : c.args.blkcount = c.len)
    (hpos : 0 < c.len)
    (hlen : c.len ≤ nsectors)
    (hfailed : c.res ≠ 0) :
    Transfers buf c.lba nsectors c.res c.tries [c] where
  attempts := by simp
  sound := by simpa using hsound
  tiles := ⟨c.lba + c.len, by omega, fun h => absurd h hfailed, rfl, hpos, rfl⟩
  buffer := by
    intro c' hc'
    obtain rfl := List.mem_singleton.mp hc'
    rw [Nat.sub_self, Nat.mul_zero, Nat.add_zero, hbuf]
    exact ⟨rfl, hcount⟩
  result := by simp
  stops := by
    intro pre c' post hsplit _
    cases pre with
    | nil =>
        obtain ⟨rfl, rfl⟩ := List.cons.inj hsplit
        exact ⟨rfl, rfl⟩
    | cons x pre =>
        have hlength := congrArg List.length (List.cons.inj hsplit).2
        simp at hlength

/-- A chunk that succeeds, and the rest of the request behind it. -/
theorem Transfers.cons
    (hsound : c.Sound)
    (hbuf : c.args.buf = buf)
    (hcount : c.args.blkcount = c.len)
    (hpos : 0 < c.len)
    (hlen : c.len ≤ nsectors)
    (hok : c.res = 0)
    (hrest :
      Transfers (u32 (buf + c.len * 512)) (c.lba + c.len) (nsectors - c.len) ret attempts
        chunks) :
    Transfers buf c.lba nsectors ret (c.tries ++ attempts) (c :: chunks) where
  attempts := by rw [List.flatMap_cons, hrest.attempts]
  sound := by
    intro c' hc'
    rcases List.mem_cons.mp hc' with rfl | hmem
    · exact hsound
    · exact hrest.sound c' hmem
  tiles := by
    obtain ⟨stop, hstop, hwhole, htiles⟩ := hrest.tiles
    refine ⟨stop, by omega, ?_, rfl, hpos, htiles⟩
    intro hret
    have hend := hwhole hret
    omega
  buffer := by
    intro c' hc'
    rcases List.mem_cons.mp hc' with rfl | hmem
    · rw [Nat.sub_self, Nat.mul_zero, Nat.add_zero, hbuf]
      exact ⟨rfl, hcount⟩
    · obtain ⟨stop, -, -, htiles⟩ := hrest.tiles
      have hlow :=
        htiles.low (List.mem_map_of_mem (f := fun c : Chunk => (c.lba, c.len)) hmem)
      obtain ⟨haddr, hblk⟩ := hrest.buffer c' hmem
      refine ⟨haddr.trans ?_, hblk⟩
      dsimp only at hlow
      unfold u32
      omega
  result := by
    rw [hrest.result]
    simp [hok]
  stops := by
    intro pre c' post hsplit hfailed
    cases pre with
    | nil =>
        obtain ⟨rfl, -⟩ := List.cons.inj hsplit
        exact absurd hok hfailed
    | cons x pre => exact hrest.stops pre c' post (List.cons.inj hsplit).2 hfailed

/-- Each sector of a request that succeeds is in exactly one chunk. -/
theorem Transfers.once
    (h : Transfers buf lba nsectors 0 attempts chunks)
    {x : Nat}
    (hlow : lba ≤ x)
    (hhigh : x < lba + nsectors) :
    ∃! piece, piece ∈ chunks.map (fun c => (c.lba, c.len)) ∧ Inside x piece := by
  obtain ⟨stop, -, hwhole, htiles⟩ := h.tiles
  obtain rfl := hwhole rfl
  exact htiles.existsUnique hlow hhigh

end Chunks

section Results

variable
  {env : Nat → Turn}
  {atawrite lba48 : Bool}
  {device dir : Int}
  {buf lba nsectors : Nat}

/-- The commands of `atad.c` are of the kind that `lba_48bit` asks for. -/
theorem atadCommand_kind (atawrite lba48 : Bool) (dir : Int) :
    cmdType atadCmdTable 0 (atadCommand atawrite lba48 dir) / 128 % 2 =
        (if lba48 then 1 else 0) ∧
      (atadCommand atawrite lba48 dir % 256 ∈ extCommands ↔ lba48 = true) := by
  unfold atadCommand
  cases lba48 <;> cases decide (dir = 1) && atawrite <;> decide

theorem hdproCommand_kind (atawrite lba48 : Bool) (dir : Int) :
    cmdType hdproCmdTable 0 (hdproCommand atawrite lba48 dir) / 128 % 2 =
        (if lba48 then 1 else 0) ∧
      (hdproCommand atawrite lba48 dir % 256 ∈ extCommands ↔ lba48 = true) := by
  unfold hdproCommand
  cases lba48 <;> cases decide (dir = 1) && atawrite <;> decide

/-- A chunk is some of the sectors that are left, as many as a command can name. -/
theorem chunkLen_spec
    (h : 0 < nsectors) :
    0 < chunkLen lba48 nsectors ∧ chunkLen lba48 nsectors ≤ nsectors ∧
      chunkLen lba48 nsectors ≤ if lba48 then 16384 else 256 := by
  unfold chunkLen
  cases lba48 with
  | false =>
      simp only [Bool.false_eq_true, if_false]
      split_ifs with hlong
      · omega
      · omega
  | true =>
      simp only [if_true]
      split_ifs with hlong
      · omega
      · omega

theorem sectorLimit_le (lba48 : Bool) : sectorLimit lba48 ≤ 4294967296 := by
  cases lba48 <;> decide

theorem sectorLoop_ends
    {fuel n : Nat} {res : Int}
    (h : ¬ (res = 0 ∧ 0 < nsectors)) :
    sectorLoop env atawrite lba48 device dir fuel res buf lba nsectors n = (res, []) := by
  cases fuel with
  | zero => rfl
  | succ fuel => rw [sectorLoop, if_neg h]

/-- Each turn serves a sector, so that turns beyond the number of sectors make no
difference. -/
theorem sectorLoop_enough
    {fuel : Nat}
    (hfuel : nsectors ≤ fuel)
    (n : Nat) (res : Int) :
    sectorLoop env atawrite lba48 device dir fuel res buf lba nsectors n =
      sectorLoop env atawrite lba48 device dir nsectors res buf lba nsectors n := by
  -- by the number of turns; the number of sectors goes down with it
  suffices h :
      ∀ turns, nsectors ≤ turns →
        ∀ fuel, nsectors ≤ fuel →
          sectorLoop env atawrite lba48 device dir fuel res buf lba nsectors n =
            sectorLoop env atawrite lba48 device dir turns res buf lba nsectors n from
    h nsectors le_rfl fuel hfuel
  clear hfuel fuel
  intro turns hturns fuel hfuel
  induction turns generalizing buf lba nsectors n res fuel with
  | zero =>
      have hdone : ¬ (res = 0 ∧ 0 < nsectors) := by omega
      rw [sectorLoop_ends hdone, sectorLoop_ends hdone]
  | succ turns ih =>
      by_cases hmore : res = 0 ∧ 0 < nsectors
      · obtain ⟨hpos, -, -⟩ := @chunkLen_spec lba48 nsectors hmore.2
        obtain ⟨fuel, rfl⟩ := Nat.exists_eq_add_of_lt (show 0 < fuel by omega)
        rw [Nat.zero_add, sectorLoop, sectorLoop, if_pos hmore, if_pos hmore]
        dsimp only
        rw [ih _ _ (by omega) fuel (by omega)]
      · rw [sectorLoop_ends hmore, sectorLoop_ends hmore]

/-- The loop over the chunks serves them in order and stops at a failure. -/
theorem sectorLoop_transfers
    (fuel n : Nat)
    (hfuel : nsectors ≤ fuel)
    (hrange : lba + nsectors ≤ sectorLimit lba48) :
    ∃ chunks,
      Transfers buf lba nsectors
        (sectorLoop env atawrite lba48 device dir fuel 0 buf lba nsectors n).1
        (sectorLoop env atawrite lba48 device dir fuel 0 buf lba nsectors n).2 chunks := by
  induction fuel generalizing buf lba nsectors n with
  | zero =>
      obtain rfl := Nat.le_zero.mp hfuel
      exact ⟨[], .nil buf lba⟩
  | succ fuel ih =>
      by_cases hmore : 0 < nsectors
      · obtain ⟨hpos, hlen, hcount⟩ := @chunkLen_spec lba48 nsectors hmore
        rw [sectorLoop, if_pos ⟨rfl, hmore⟩]
        dsimp only
        generalize chunkLen lba48 nsectors = len at hpos hlen hcount ⊢
        obtain ⟨htype, hcommand⟩ := atadCommand_kind atawrite lba48 dir
        have hlba : lba < sectorLimit lba48 := by omega
        obtain ⟨hsound, hres⟩ :=
          @retryLoop_chunk env
            (chunkArgs lba48 device (atadCommand atawrite lba48 dir) buf lba len) lba len
            (fun t => attempt_addresses rfl htype hcommand hlba hpos hcount) 0 n
        have hbuf :
            (chunkArgs lba48 device (atadCommand atawrite lba48 dir) buf lba len).buf =
              buf := rfl
        have hblk :
            (chunkArgs lba48 device (atadCommand atawrite lba48 dir) buf lba len).blkcount =
              len := rfl
        generalize
          chunkArgs lba48 device (atadCommand atawrite lba48 dir) buf lba len = args
          at hsound hres hbuf hblk ⊢
        generalize retryLoop env args 3 0 n = out at hsound hres ⊢
        by_cases hok : out.1 = 0
        · have hrest :
              ∃ chunks,
                Transfers (u32 (buf + len * 512)) (lba + len) (nsectors - len)
                  (sectorLoop env atawrite lba48 device dir fuel out.1
                    (u32 (buf + len * 512)) (u32 (lba + len)) (nsectors - len)
                    (n + out.2.length)).1
                  (sectorLoop env atawrite lba48 device dir fuel out.1
                    (u32 (buf + len * 512)) (u32 (lba + len)) (nsectors - len)
                    (n + out.2.length)).2 chunks := by
            rw [hok]
            by_cases hleft : 0 < nsectors - len
            · -- there are sectors behind the chunk, so that their number has not wrapped
              have hlimit := sectorLimit_le lba48
              have hnext : u32 (lba + len) = lba + len := Nat.mod_eq_of_lt (by omega)
              rw [hnext]
              exact ih (n + out.2.length) (by omega) (by omega)
            · have hzero : nsectors - len = 0 := by omega
              rw [sectorLoop_ends (fun h => hleft h.2), hzero]
              exact ⟨[], .nil _ _⟩
          obtain ⟨chunks, hchunks⟩ := hrest
          exact ⟨_, hchunks.cons hsound hbuf hblk hpos hlen (hres.trans hok)⟩
        · rw [sectorLoop_ends (fun h => hok h.1), List.append_nil]
          have hfailed := Transfers.failed hsound hbuf hblk hpos hlen (fun h => hok (hres ▸ h))
          rw [hres] at hfailed
          exact ⟨_, hfailed⟩
      · have hzero : nsectors = 0 := by omega
        subst hzero
        rw [sectorLoop_ends (fun h => hmore h.2)]
        exact ⟨[], .nil buf lba⟩

/-- The DMA commands need a ready device and an alarm. -/
theorem atad_made (args : IoArgs) (t : Turn)
    (hargs : ∃ buf lba len,
      args = chunkArgs lba48 device (atadCommand atawrite lba48 dir) buf lba len) :
    (attempt atadIoStart args t).Made atadIoStart true t := by
  obtain ⟨buf, lba, len, rfl⟩ := hargs
  have htype :
      cmdType atadCmdTable 0 (atadCommand atawrite lba48 dir) % 128 = 4 ∧
        atadCommand atawrite lba48 dir ∉ readyExempt := by
    unfold atadCommand
    cases lba48 <;> cases decide (dir = 1) && atawrite <;> decide
  have hmade :=
    @attempt_made atadCmdTable [1, 6, 4] t lba48 device (atadCommand atawrite lba48 dir) buf
      lba len (by rw [htype.1]; decide) htype.2
  rwa [htype.1] at hmade

/-- The PIO commands need a ready device only. -/
theorem hdpro_made (args : IoArgs) (t : Turn)
    (hargs : ∃ buf lba len,
      args = chunkArgs lba48 device (hdproCommand atawrite lba48 dir) buf lba len) :
    (attempt hdproIoStart args t).Made hdproIoStart false t := by
  obtain ⟨buf, lba, len, rfl⟩ := hargs
  have htype :
      (cmdType hdproCmdTable 0 (hdproCommand atawrite lba48 dir) % 128 = 2 ∨
        cmdType hdproCmdTable 0 (hdproCommand atawrite lba48 dir) % 128 = 3) ∧
        hdproCommand atawrite lba48 dir ∉ readyExempt := by
    unfold hdproCommand
    cases lba48 <;> cases decide (dir = 1) && atawrite <;> decide
  have hmade :=
    @attempt_made hdproCmdTable [1, 6] t lba48 device (hdproCommand atawrite lba48 dir) buf
      lba len (by rcases htype.1 with h | h <;> rw [h] <;> decide) htype.2
  rcases htype.1 with h | h
  · rwa [h] at hmade
  · rwa [h] at hmade

/-- The attempts of a request are made one after the other. -/
theorem sectorLoop_made (fuel n : Nat) (res : Int) :
    MadeFrom atadIoStart true env n
      (sectorLoop env atawrite lba48 device dir fuel res buf lba nsectors n).2 := by
  induction fuel generalizing buf lba nsectors n res with
  | zero => exact .nil env n
  | succ fuel ih =>
      rw [sectorLoop]
      split_ifs with hmore
      · dsimp only
        exact
          (retryLoop_made (fun t => atad_made _ t ⟨_, _, _, rfl⟩) 3 res n).append (ih _ _)
      · exact .nil env n

theorem Advances.nil (buf lba : Nat) : Advances buf lba lba [] :=
  ⟨[], .nil, rfl⟩

/-- An attempt that fails changes nothing. -/
theorem Advances.retry
    {stop : Nat} {attempts : List Attempt} {a : Attempt}
    (hfailed : a.res ≠ 0)
    (h : Advances buf lba stop attempts) :
    Advances buf lba stop (a :: attempts) := by
  unfold Advances
  rw [List.filter_cons_of_neg (by simpa using hfailed)]
  exact h

/-- An attempt that succeeds goes on behind its sectors. -/
theorem Advances.cons
    {stop len : Nat} {attempts : List Attempt} {a : Attempt}
    (hok : a.res = 0)
    (haddresses : a.Addresses lba len)
    (hbuf : a.args.buf = buf)
    (hcount : a.args.blkcount = len)
    (hpos : 0 < len)
    (h : Advances (u32 (buf + len * 512)) (lba + len) stop attempts) :
    Advances buf lba stop (a :: attempts) := by
  obtain ⟨ranges, hall, htiles⟩ := h
  refine ⟨(lba, len) :: ranges, ?_, rfl, hpos, htiles⟩
  rw [List.filter_cons_of_pos (by simpa using hok)]
  refine List.Forall₂.cons ⟨haddresses, hcount, ?_⟩ ?_
  · rw [Nat.sub_self, Nat.mul_zero, Nat.add_zero, hbuf]
  · have hlow : ∀ r ∈ ranges, lba + len ≤ r.1 := fun r hr => htiles.low hr
    clear htiles
    generalize attempts.filter (fun a => decide (a.res = 0)) = successes at hall ⊢
    induction hall with
    | nil => exact .nil
    | @cons b r successes ranges hb _ ih =>
        obtain ⟨haddr, hblk, hat⟩ := hb
        have hr := hlow r List.mem_cons_self
        refine List.Forall₂.cons ⟨haddr, hblk, hat.trans ?_⟩
          (ih (fun r' hr' => hlow r' (List.mem_cons_of_mem _ hr')))
        unfold u32
        omega

/-- The loop of the HD Pro driver: whenever it is looked at, its successful commands have
addressed the sectors from the first one on, and all of them when it has ended. -/
theorem hdproLoop_advances
    (fuel n : Nat) (res : Int)
    (hrange : lba + nsectors ≤ sectorLimit lba48) :
    ∃ stop, stop ≤ lba + nsectors ∧
      Advances buf lba stop
        (hdproLoop env atawrite lba48 device dir fuel res buf lba nsectors n).2 ∧
      ((hdproLoop env atawrite lba48 device dir fuel res buf lba nsectors n).1.isSome →
        stop = lba + nsectors) := by
  induction fuel generalizing buf lba nsectors n res with
  | zero => exact ⟨lba, Nat.le_add_right _ _, .nil buf lba, fun h => by cases h⟩
  | succ fuel ih =>
      rw [hdproLoop]
      by_cases hmore : 0 < nsectors
      · rw [if_pos hmore]
        dsimp only
        have hlen :
            0 < (if 256 < nsectors then 256 else nsectors) ∧
              (if 256 < nsectors then 256 else nsectors) ≤ nsectors ∧
              (if 256 < nsectors then 256 else nsectors) ≤ 256 := by
          split_ifs with hlong
          · omega
          · omega
        generalize (if 256 < nsectors then 256 else nsectors) = len at hlen ⊢
        obtain ⟨hpos, hle, hcount⟩ := hlen
        obtain ⟨htype, hcommand⟩ := hdproCommand_kind atawrite lba48 dir
        have haddresses :=
          @attempt_addresses hdproCmdTable [1, 6] (env n) hdproIoStart lba48 device
            (hdproCommand atawrite lba48 dir) buf lba len rfl htype hcommand (by omega) hpos
            (by split_ifs <;> omega)
        have hbuf :
            (attempt hdproIoStart
              (chunkArgs lba48 device (hdproCommand atawrite lba48 dir) buf lba len)
              (env n)).args.buf = buf := rfl
        have hblk :
            (attempt hdproIoStart
              (chunkArgs lba48 device (hdproCommand atawrite lba48 dir) buf lba len)
              (env n)).args.blkcount = len := rfl
        generalize
          attempt hdproIoStart
            (chunkArgs lba48 device (hdproCommand atawrite lba48 dir) buf lba len) (env n) = a
          at haddresses hbuf hblk ⊢
        by_cases hfailed : a.res ≠ 0
        · rw [if_pos hfailed]
          obtain ⟨stop, hstop, hadvances, hwhole⟩ := ih (n + 1) a.res hrange
          exact ⟨stop, hstop, hadvances.retry hfailed, hwhole⟩
        · rw [if_neg hfailed]
          have hok : a.res = 0 := not_not.mp hfailed
          have hsent : a.started = 0 := by
            by_contra hne
            rw [Attempt.res, if_pos hne] at hok
            exact hne hok
          by_cases hleft : 0 < nsectors - len
          · have hlimit := sectorLimit_le lba48
            have hnext : u32 (lba + len) = lba + len := Nat.mod_eq_of_lt (by omega)
            rw [hnext]
            obtain ⟨stop, hstop, hadvances, hwhole⟩ :=
              @ih (u32 (buf + len * 512)) (lba + len) (nsectors - len) (n + 1) a.res
                (by omega)
            refine ⟨stop, by omega,
              hadvances.cons hok (haddresses hsent) hbuf hblk hpos, ?_⟩
            intro hended
            have hend := hwhole hended
            omega
          · -- nothing is left, whatever the number of the next sector
            have hzero : nsectors - len = 0 := by omega
            rw [hzero]
            have hnothing :
                (hdproLoop env atawrite lba48 device dir fuel a.res
                  (u32 (buf + len * 512)) (u32 (lba + len)) 0 (n + 1)).2 = [] := by
              cases fuel with
              | zero => rfl
              | succ fuel => rfl
            rw [hnothing]
            refine ⟨lba + len, by omega,
              (Advances.nil _ (lba + len)).cons hok (haddresses hsent) hbuf hblk hpos, ?_⟩
            intro _
            omega
      · rw [if_neg hmore]
        exact ⟨lba, Nat.le_add_right _ _, .nil buf lba, fun _ => by omega⟩

theorem hdproLoop_made (fuel n : Nat) (res : Int) :
    MadeFrom hdproIoStart false env n
      (hdproLoop env atawrite lba48 device dir fuel res buf lba nsectors n).2 := by
  induction fuel generalizing buf lba nsectors n res with
  | zero => exact .nil env n
  | succ fuel ih =>
      rw [hdproLoop]
      by_cases hmore : 0 < nsectors
      · rw [if_pos hmore]
        dsimp only
        refine .cons (hdpro_made _ (env n) ⟨_, _, _, rfl⟩) ?_
        by_cases hfailed :
            (attempt hdproIoStart
              (chunkArgs lba48 device (hdproCommand atawrite lba48 dir) buf lba
                (if 256 < nsectors then 256 else nsectors)) (env n)).res ≠ 0
        · rw [if_pos hfailed]
          exact ih _ _
        · rw [if_neg hfailed]
          exact ih _ _
      · rw [if_neg hmore]
        exact .nil env n

/-- The loop of the HD Pro driver ends with 0 only. -/
theorem hdproLoop_result
    (fuel n : Nat) (res : Int)
    (hres : nsectors = 0 → res = 0)
    (hended :
      (hdproLoop env atawrite lba48 device dir fuel res buf lba nsectors n).1.isSome) :
    (hdproLoop env atawrite lba48 device dir fuel res buf lba nsectors n).1 = some 0 := by
  induction fuel generalizing buf lba nsectors n res with
  | zero => cases hended
  | succ fuel ih =>
      rw [hdproLoop] at hended ⊢
      by_cases hmore : 0 < nsectors
      · rw [if_pos hmore] at hended ⊢
        dsimp only at hended ⊢
        generalize (if 256 < nsectors then 256 else nsectors) = len at hended ⊢
        generalize attempt hdproIoStart
          (chunkArgs lba48 device (hdproCommand atawrite lba48 dir) buf lba len) (env n) = a
          at hended ⊢
        by_cases hfailed : a.res ≠ 0
        · rw [if_pos hfailed] at hended ⊢
          exact ih _ _ (fun h => absurd h hmore.ne') hended
        · rw [if_neg hfailed] at hended ⊢
          exact ih _ _ (fun _ => not_not.mp hfailed) hended
      · rw [if_neg hmore]
        exact congrArg some (hres (Nat.eq_zero_of_not_pos hmore))

/-- It ends when there is always a command to come that succeeds. -/
theorem hdproLoop_ends
    (henv : ∀ n, ∃ m, n ≤ m ∧ (env m).Succeeds false)
    (n : Nat) (res : Int) :
    ∃ fuel,
      (hdproLoop env atawrite lba48 device dir fuel res buf lba nsectors n).1.isSome := by
  induction nsectors using Nat.strongRecOn generalizing buf lba n res with
  | ind nsectors ihSectors =>
      by_cases hmore : 0 < nsectors
      · have hsuccess :
            ∀ n res, (env n).Succeeds false →
              ∃ fuel,
                (hdproLoop env atawrite lba48 device dir fuel res buf lba nsectors
                  n).1.isSome := by
          intro n res hsucceeds
          have hleft :
              nsectors - (if 256 < nsectors then 256 else nsectors) < nsectors := by
            split_ifs with hlong
            · omega
            · omega
          obtain ⟨fuel, hended⟩ :=
            @ihSectors _ hleft
              (u32 (buf + (if 256 < nsectors then 256 else nsectors) * 512))
              (u32 (lba + (if 256 < nsectors then 256 else nsectors))) (n + 1) 0
          refine ⟨fuel + 1, ?_⟩
          have hok :=
            (@hdpro_made atawrite lba48 device dir _ (env n)
              ⟨buf, lba, if 256 < nsectors then 256 else nsectors, rfl⟩).res_iff.mpr
              hsucceeds
          rw [hdproLoop, if_pos hmore]
          dsimp only
          rw [hok, if_neg (fun h => h rfl)]
          exact hended
        obtain ⟨m, hm, hsucceeds⟩ := henv n
        obtain ⟨wait, rfl⟩ := Nat.exists_eq_add_of_le hm
        -- by the number of turns up to the command that succeeds
        clear hm
        induction wait generalizing n res with
        | zero => exact hsuccess n res hsucceeds
        | succ wait ih =>
            by_cases hnow : (env n).Succeeds false
            · exact hsuccess n res hnow
            · have hfailed :=
                mt (@hdpro_made atawrite lba48 device dir _ (env n)
                  ⟨buf, lba, if 256 < nsectors then 256 else nsectors, rfl⟩).res_iff.mp hnow
              obtain ⟨fuel, hended⟩ :=
                ih (n + 1) _ (by rwa [Nat.add_right_comm, Nat.add_assoc])
              refine ⟨fuel + 1, ?_⟩
              rw [hdproLoop, if_pos hmore]
              dsimp only
              rw [if_pos hfailed]
              exact hended
      · exact ⟨1, by rw [hdproLoop, if_neg hmore]; rfl⟩

/-- Every request addresses exactly its sectors, in order and with the matching parts of
its buffer, with one attempt a turn: the driver gives up at the first failure that is no
`ATA_RES_ERR_ICRC`, or at the third of these, and that of the HD Pro tries until the command
succeeds. -/
theorem ataDeviceSectorIo_transfers
    (hrange : lba + nsectors ≤ sectorLimit lba48)
    (env : Nat → Turn) (atawrite : Bool) (device : Int) (buf : Nat) (dir : Int) :
    (∃ chunks,
      Transfers buf lba nsectors
        (ataDeviceSectorIo env atawrite lba48 device buf lba nsectors dir).1
        (ataDeviceSectorIo env atawrite lba48 device buf lba nsectors dir).2 chunks) ∧
    MadeFrom atadIoStart true env 0
      (ataDeviceSectorIo env atawrite lba48 device buf lba nsectors dir).2 ∧
    (∀ (started finished : Bool) (fuel : Nat),
      let out :=
        hdproDeviceSectorIo env started finished atawrite lba48 device buf lba nsectors dir
          fuel
      MadeFrom hdproIoStart false env 0 out.2 ∧
        (started = false → out = (some (-1), [])) ∧
        ∃ stop, stop ≤ lba + nsectors ∧ Advances buf lba stop out.2 ∧
          (started = true → out.1.isSome →
            stop = lba + nsectors ∧ out.1 = some (if finished then 0 else -2))) ∧
    ∀ finished : Bool,
      (∀ n, ∃ m, n ≤ m ∧ (env m).Succeeds false) →
      ∃ fuel,
        (hdproDeviceSectorIo env true finished atawrite lba48 device buf lba nsectors dir
          fuel).1.isSome := by
  refine ⟨sectorLoop_transfers nsectors 0 (Nat.le_refl _) hrange, sectorLoop_made _ 0 0,
    ?_, ?_⟩
  · intro started finished fuel
    cases started with
    | false =>
        exact ⟨.nil env 0, fun _ => rfl, lba, Nat.le_add_right _ _, .nil buf lba,
          fun h => by cases h⟩
    | true =>
        obtain ⟨stop, hstop, hadvances, hwhole⟩ :=
          @hdproLoop_advances env atawrite lba48 device dir buf lba nsectors fuel 0 0 hrange
        refine ⟨hdproLoop_made fuel 0 0, fun h => (by cases h), stop, hstop, hadvances, ?_⟩
        intro _ hended
        cases finished with
        | true => exact ⟨hwhole hended, hdproLoop_result fuel 0 0 (fun _ => rfl) hended⟩
        | false =>
            have hloop :
                (hdproLoop env atawrite lba48 device dir fuel 0 buf lba nsectors
                  0).1.isSome := by
              simpa [hdproDeviceSectorIo] using hended
            refine ⟨hwhole hloop, ?_⟩
            have hresult := hdproLoop_result fuel 0 0 (fun _ => rfl) hloop
            simp [hdproDeviceSectorIo, hresult]
  · intro finished henv
    obtain ⟨fuel, hended⟩ :=
      @hdproLoop_ends env atawrite lba48 device dir buf lba nsectors henv 0 0
    refine ⟨fuel, ?_⟩
    cases finished with
    | true => exact hended
    | false => simpa [hdproDeviceSectorIo] using hended

/-- A drive that is ready, and at its second command has a transfer error. -/
def flakyTurn (n : Nat) : Turn where
  busBusy := false
  selected := true
  busBusyAfter := false
  ready := true
  alarm := 0
  finish := if n = 1 then ataResErrIcrc else 0

/-- 300 sectors from the last ones below 128 GiB on. -/
theorem ataDeviceSectorIo_transfers_flaky :
    (∃ chunks,
      Transfers 0x80000 0xffffed4 300
        (ataDeviceSectorIo flakyTurn false false 0 0x80000 0xffffed4 300 0).1
        (ataDeviceSectorIo flakyTurn false false 0 0x80000 0xffffed4 300 0).2 chunks) ∧
    MadeFrom atadIoStart true flakyTurn 0
      (ataDeviceSectorIo flakyTurn false false 0 0x80000 0xffffed4 300 0).2 ∧
    (∀ (started finished : Bool) (fuel : Nat),
      let out :=
        hdproDeviceSectorIo flakyTurn started finished false false 0 0x80000 0xffffed4 300 0
          fuel
      MadeFrom hdproIoStart false flakyTurn 0 out.2 ∧
        (started = false → out = (some (-1), [])) ∧
        ∃ stop, stop ≤ 0xffffed4 + 300 ∧ Advances 0x80000 0xffffed4 stop out.2 ∧
          (started = true → out.1.isSome →
            stop = 0xffffed4 + 300 ∧ out.1 = some (if finished then 0 else -2))) ∧
    ∃ fuel,
      (hdproDeviceSectorIo flakyTurn true true false false 0 0x80000 0xffffed4 300 0
        fuel).1.isSome := by
  obtain ⟨htransfers, hmade, hadvances, hends⟩ :=
    @ataDeviceSectorIo_transfers false 0xffffed4 300 (by decide) flakyTurn false 0 0x80000 0
  refine ⟨htransfers, hmade, hadvances, hends true ?_⟩
  intro n
  -- only the second command fails
  refine ⟨n + 2, by omega, rfl, ?_⟩
  show (if n + 2 = 1 then ataResErrIcrc else 0) = 0
  rw [if_neg (by omega)]

end Results

end Ata
end Ps2Cdvd
