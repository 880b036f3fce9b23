import Ps2Cdvd.Lib.Ring

/-!
# The streaming state of `streaming.c`

`struct SteamingData` and the functions that read or write it inside one critical
section.  The 16-bit and 32-bit fields are natural numbers below `2^16` and
`2^32`; every assignment to one goes through `u16` or `u32`.

The buffer is a ring of `StBufmax` sectors that is filled a bank at a time and
drained a sector at a time.  `RingOk` is the invariant of its counters:

* `RingOk.stReset`, `RingOk.accountBank`, `RingOk.commit`: the operations keep
  it;
* `readers_agree`: the two readers do the same, whatever the counters are;
* `readSectorsEE_spec`, `readSectors_spec`: what the two readers hand out.
-/

namespace Ps2Cdvd
namespace Stream

open Lib

section Source

/-- `struct SteamingData`; the buffer address is left to the ring slots. -/
structure StreamingData where
  bufmax : Nat
  bankmax : Nat
  banksize : Nat
  writePtr : Nat
  readPtr : Nat
  streamed : Nat
  stat : Bool
  isReading : Bool
  lsn : Nat
deriving DecidableEq

/-- The value of an `unsigned short` after a computation in `int`. -/
def u16Int (z : Int) : Nat := (z % 65536).toNat

/-- `StReset`. -/
def stReset (d : StreamingData) : StreamingData :=
  { d with writePtr := 0, readPtr := 0, streamed := 0, isReading := false }

/-- The critical section of `sceCdStInit`. -/
def stInit (bufmax bankmax : Nat) (d : StreamingData) : StreamingData :=
  stReset
    { d with
      bankmax := u16 bankmax
      banksize := u16 (bufmax / bankmax)
      bufmax := u16 (u16 (bufmax / bankmax) * u16 bankmax) }

/-- The critical section of `sceCdStStart`, without the callback. -/
def stStart (lsn : Nat) (d : StreamingData) : StreamingData :=
  stReset { d with lsn := lsn, stat := true }

/-- The critical section of `sceCdStStop`, without the callback. -/
def stStop (d : StreamingData) : StreamingData :=
  stReset { d with streamed := 0, stat := false }

/-- `AllocBank` finds room for one more bank. -/
def hasRoom (d : StreamingData) : Bool :=
  (d.bufmax : Int) - d.streamed ≥ d.banksize

/-- The critical section of `StmCallback`. -/
def accountBank (d : StreamingData) : StreamingData :=
  { d with
    lsn := u32 (d.lsn + d.banksize)
    streamed := u16 (d.streamed + d.banksize)
    writePtr :=
      if u16 (d.writePtr + d.banksize) ≥ d.bufmax then 0
      else u16 (d.writePtr + d.banksize)
    isReading := false }

/-- The part of `StmCallback` before the next fill. -/
def stmCallback (d : StreamingData) : StreamingData :=
  if d.isReading then accountBank d else d

/-- A read request of the streaming system: a bank of sectors for the ring. -/
structure BankRead where
  lsn : Nat
  sectors : Nat
  slot : Nat
deriving DecidableEq

/-- How `StFillStreamBuffer` ends: another fill is under way, the buffer is full,
`cdvdman_AsyncRead` refused, or it accepted a bank. -/
inductive FillResult
  | reading
  | full
  | refused
  | accepted (req : BankRead)
deriving DecidableEq

/-- `StFillStreamBuffer` run without interruption, when `sync_flag` is
`syncFlag`. -/
def stFillStreamBuffer
    (syncFlag : Bool) (d : StreamingData) : StreamingData × FillResult :=
  if d.isReading then (d, .reading)
  else if hasRoom d then
    if syncFlag then ({ d with isReading := false }, .refused)
    else
      ({ d with isReading := true },
        .accepted ⟨d.lsn, d.banksize, d.writePtr⟩)
  else ({ d with isReading := false }, .full)

/-- Sectors copied from ring slot `slot` on to sector `dest` of the user's
buffer on. -/
structure Transfer where
  slot : Nat
  dest : Nat
  count : Nat
deriving DecidableEq

/-- `if (SectorsToCopy > limit) SectorsToCopy = limit`. -/
def clampCopy (sectorsToCopy : Nat) (limit : Int) : Nat :=
  if (sectorsToCopy : Int) > limit then u16Int limit else sectorsToCopy

/-- `if (ptr >= StBufmax) ptr = 0`. -/
def wrapPtr (bufmax ptr : Nat) : Nat :=
  if ptr ≥ bufmax then 0 else ptr

/-- The local variables of `ReadSectorsEE`. -/
structure Snapshot where
  rdptr : Nat
  result : Nat
  transfers : List Transfer
deriving DecidableEq

/-- One of the two blocks of `ReadSectorsEE` that add a DMA transfer. -/
def copyRun
    (bufmax sectorsToCopy : Nat) (maxcount : Int) (v : Snapshot) : Snapshot :=
  if 0 < clampCopy sectorsToCopy (maxcount - v.result) then
    { rdptr :=
        wrapPtr bufmax
          (u16 (v.rdptr + clampCopy sectorsToCopy (maxcount - v.result)))
      result := v.result + clampCopy sectorsToCopy (maxcount - v.result)
      transfers :=
        v.transfers ++
          [⟨v.rdptr, v.result, clampCopy sectorsToCopy (maxcount - v.result)⟩] }
  else v

/-- The block for a full or wrapped buffer. -/
def copyToEnd (d : StreamingData) (maxcount : Int) (v : Snapshot) : Snapshot :=
  if d.writePtr ≤ v.rdptr ∧ 0 < d.streamed then
    copyRun d.bufmax (u16Int ((d.bufmax : Int) - v.rdptr)) maxcount v
  else v

/-- The block for the sectors below the write pointer. -/
def copyToWritePtr
    (d : StreamingData) (maxcount : Int) (v : Snapshot) : Snapshot :=
  if (v.result : Int) < maxcount ∧ v.rdptr < d.writePtr then
    copyRun d.bufmax (u16Int ((d.writePtr : Int) - v.rdptr)) maxcount v
  else v

/-- The first critical section of `ReadSectorsEE`. -/
def readSectorsEE (d : StreamingData) (maxcount : Int) : Snapshot :=
  copyToWritePtr d maxcount (copyToEnd d maxcount ⟨d.readPtr, 0, []⟩)

/-- The second critical section of `ReadSectorsEE`, entered if there was data to
copy. -/
def commit (v : Snapshot) (d : StreamingData) : StreamingData :=
  if v.transfers ≠ [] then
    { d with
      readPtr := v.rdptr
      streamed := u16Int ((d.streamed : Int) - v.result) }
  else d

/-- The variables of `ReadSectors`, which works on the shared fields. -/
structure Copied where
  data : StreamingData
  result : Nat
  transfers : List Transfer
deriving DecidableEq

/-- One of the two blocks of `ReadSectors` that copy sectors. -/
def memcpyRun (sectorsToCopy : Nat) (maxcount : Int) (v : Copied) : Copied :=
  if 0 < clampCopy sectorsToCopy (maxcount - v.result) then
    { data :=
        { v.data with
          readPtr :=
            wrapPtr v.data.bufmax
              (u16 (v.data.readPtr +
                clampCopy sectorsToCopy (maxcount - v.result)))
          streamed :=
            u16Int ((v.data.streamed : Int) -
              clampCopy sectorsToCopy (maxcount - v.result)) }
      result := v.result + clampCopy sectorsToCopy (maxcount - v.result)
      transfers :=
        v.transfers ++
          [⟨v.data.readPtr, v.result,
            clampCopy sectorsToCopy (maxcount - v.result)⟩] }
  else v

/-- The block for a full or wrapped buffer. -/
def memcpyToEnd (maxcount : Int) (v : Copied) : Copied :=
  if v.data.writePtr ≤ v.data.readPtr ∧ 0 < v.data.streamed then
    memcpyRun (u16Int ((v.data.bufmax : Int) - v.data.readPtr)) maxcount v
  else v

/-- The block for the sectors below the write pointer. -/
def memcpyToWritePtr (maxcount : Int) (v : Copied) : Copied :=
  if (v.result : Int) < maxcount ∧ v.data.readPtr < v.data.writePtr then
    memcpyRun (u16Int ((v.data.writePtr : Int) - v.data.readPtr)) maxcount v
  else v

/-- `ReadSectors`. -/
def readSectors (d : StreamingData) (maxcount : Int) : Copied :=
  memcpyToWritePtr maxcount (memcpyToEnd maxcount ⟨d, 0, []⟩)

end Source

section Readers

@[simp] theorem u16Int_natCast {n : Nat} (h : n < 65536) :
    u16Int (n : Int) = n := by
  unfold u16Int
  omega

/-- Two subtractions in 16 bits are one. -/
theorem u16Int_sub_sub (z : Int) (n : Nat) :
    u16Int ((u16Int z : Int) - n) = u16Int (z - n) := by
  unfold u16Int
  omega

/-- The variables of `ReadSectors` are those of `ReadSectorsEE`, with its two
local results already in the shared fields. -/
structure SameCopy (d : StreamingData) (v : Snapshot) (w : Copied) : Prop where
  data :
    w.data =
      { d with
        readPtr := v.rdptr
        streamed := u16Int ((d.streamed : Int) - v.result) }
  result : w.result = v.result
  transfers : w.transfers = v.transfers

theorem SameCopy.run
    {d : StreamingData} {v : Snapshot} {w : Copied}
    (h : SameCopy d v w)
    (sectorsToCopy : Nat) (maxcount : Int) :
    SameCopy d (copyRun d.bufmax sectorsToCopy maxcount v)
      (memcpyRun sectorsToCopy maxcount w) := by
  obtain ⟨hdata, hresult, htransfers⟩ := h
  unfold copyRun memcpyRun
  rw [hresult]
  split_ifs with hn
  · refine ⟨?_, rfl, ?_⟩
    · simp only [hdata, u16Int_sub_sub, Nat.cast_add, sub_sub]
    · simp only [hdata, htransfers]
  · exact ⟨hdata, hresult, htransfers⟩

/-- Run without interruption, both readers copy the same sectors and leave the
same state. -/
theorem readSectors_eq_readSectorsEE
    {d : StreamingData}
    (hstreamed : d.streamed < 65536)
    (maxcount : Int) :
    (readSectors d maxcount).data = commit (readSectorsEE d maxcount) d ∧
    (readSectors d maxcount).result = (readSectorsEE d maxcount).result ∧
    (readSectors d maxcount).transfers =
      (readSectorsEE d maxcount).transfers := by
  have hstart : SameCopy d ⟨d.readPtr, 0, []⟩ ⟨d, 0, []⟩ := by
    refine ⟨?_, rfl, rfl⟩
    simp [hstreamed]
  have hend :
      SameCopy d (copyToEnd d maxcount ⟨d.readPtr, 0, []⟩)
        (memcpyToEnd maxcount ⟨d, 0, []⟩) := by
    unfold copyToEnd memcpyToEnd
    split_ifs with hcond
    · exact hstart.run _ maxcount
    · exact hstart
  have hall : SameCopy d (readSectorsEE d maxcount) (readSectors d maxcount) := by
    unfold readSectorsEE readSectors copyToWritePtr memcpyToWritePtr
    rw [hend.result, hend.data]
    split_ifs with hcond
    · exact hend.run _ maxcount
    · exact hend
  refine ⟨?_, hall.result, hall.transfers⟩
  rw [hall.data]
  unfold commit
  split_ifs with hcopy
  · rfl
  · -- without a transfer nothing has been counted
    have hkeep :
        ∀ (v : Snapshot) n, (copyRun d.bufmax n maxcount v).transfers = [] →
          copyRun d.bufmax n maxcount v = v := by
      intro v n hnil
      unfold copyRun at hnil ⊢
      split_ifs at hnil ⊢
      · simp at hnil
      · rfl
    have hsame : readSectorsEE d maxcount = ⟨d.readPtr, 0, []⟩ := by
      rw [ne_eq, not_not] at hcopy
      unfold readSectorsEE copyToWritePtr at hcopy ⊢
      have hfirst :
          (copyToEnd d maxcount ⟨d.readPtr, 0, []⟩).transfers = [] →
            copyToEnd d maxcount ⟨d.readPtr, 0, []⟩ = ⟨d.readPtr, 0, []⟩ := by
        intro hnil
        unfold copyToEnd at hnil ⊢
        split_ifs at hnil ⊢
        · exact hkeep _ _ hnil
        · rfl
      split_ifs at hcopy ⊢
      · have hsecond := hkeep _ _ hcopy
        rw [hsecond] at hcopy ⊢
        exact hfirst hcopy
      · exact hfirst hcopy
    rw [hsame]
    simp [hstreamed]

/-- The sectors of the user's buffer after the transfers, for a ring that holds these
sectors. -/
def deliver {β : Type*} (ring : Nat → β) (transfers : List Transfer)
    (buffer : Nat → β) : Nat → β :=
  transfers.foldl
    (fun buffer t => writeRange buffer t.dest t.count (fun i => ring (t.slot + i)))
    buffer

/-- Nothing but the read pointer and the count of sectors differs. -/
def StreamingData.DrainedTo (d d' : StreamingData) : Prop :=
  d' = { d with readPtr := d'.readPtr, streamed := d'.streamed }

theorem commit_drained (v : Snapshot) (d : StreamingData) : d.DrainedTo (commit v d) := by
  unfold commit StreamingData.DrainedTo
  split_ifs
  · rfl
  · rfl

/-- The readers return the same count, copy the same sectors to the same places of the
user's buffer, leave the same state, and touch nothing of it but the read pointer and
the count of sectors. -/
structure ReadersAgree (d : StreamingData) (maxcount : Int) : Prop where
  result : (readSectorsEE d maxcount).result = (readSectors d maxcount).result
  transfers : (readSectorsEE d maxcount).transfers = (readSectors d maxcount).transfers
  buffer :
    ∀ ring buffer : Nat → Nat → UInt8,
      deliver ring (readSectorsEE d maxcount).transfers buffer =
        deliver ring (readSectors d maxcount).transfers buffer
  data : commit (readSectorsEE d maxcount) d = (readSectors d maxcount).data
  drained : d.DrainedTo (readSectors d maxcount).data

/-- **The two readers agree** in every state of the stream, also in one that no sequence
of calls leads to. -/
theorem readers_agree
    {d : StreamingData}
    (hstreamed : d.streamed < 65536)
    (maxcount : Int) :
    ReadersAgree d maxcount := by
  obtain ⟨hdata, hresult, htransfers⟩ := readSectors_eq_readSectorsEE hstreamed maxcount
  constructor
  · exact hresult.symm
  · exact htransfers.symm
  · intro ring buffer
    rw [htransfers]
  · exact hdata.symm
  · rw [hdata]
    exact commit_drained _ d

/-- A read pointer behind the end of the ring, and more sectors than it has. -/
theorem readers_agree_inconsistent :
    ReadersAgree ⟨16, 2, 8, 3, 20, 65535, true, false, 0⟩ 100 :=
  readers_agree (by decide) 100

end Readers

section Invariant

/-- The sizes that `sceCdStInit` sets: a positive number of whole banks. -/
structure Geometry (d : StreamingData) : Prop where
  bank_pos : 0 < d.banksize
  banks : ∃ m, 0 < m ∧ d.bufmax = d.banksize * m
  small : d.bufmax < 65536

/-- The invariant of the ring counters. -/
structure RingOk (d : StreamingData) : Prop extends Geometry d where
  writeBank : d.banksize ∣ d.writePtr
  write_lt : d.writePtr < d.bufmax
  read_lt : d.readPtr < d.bufmax
  streamed_le : d.streamed ≤ d.bufmax
  write_eq : d.writePtr = ringIndex d.bufmax d.readPtr d.streamed
  room : d.isReading = true → d.streamed + d.banksize ≤ d.bufmax

variable {d : StreamingData}

theorem Geometry.bank_le
    (h : Geometry d) :
    d.banksize ≤ d.bufmax := by
  obtain ⟨m, hm, hbuf⟩ := h.banks
  rw [hbuf]
  exact Nat.le_mul_of_pos_right _ hm

/-- `sceCdStInit` with valid arguments sets the sizes. -/
theorem geometry_stInit
    {bufmax bankmax : Nat}
    (hpos : 0 < bankmax)
    (hle : bankmax ≤ bufmax)
    (hsmall : bufmax < 65536)
    (d : StreamingData) :
    Geometry (stInit bufmax bankmax d) := by
  have hbank : 0 < bufmax / bankmax := Nat.div_pos hle hpos
  have hmul : bufmax / bankmax * bankmax ≤ bufmax := Nat.div_mul_le_self _ _
  have hdiv : bufmax / bankmax ≤ bufmax := Nat.div_le_self _ _
  have hsize : (stInit bufmax bankmax d).banksize = bufmax / bankmax :=
    u16_of_lt (by omega)
  have hbuf :
      (stInit bufmax bankmax d).bufmax = bufmax / bankmax * bankmax := by
    show u16 (u16 (bufmax / bankmax) * u16 bankmax) = _
    rw [u16_of_lt (show bufmax / bankmax < 65536 by omega),
      u16_of_lt (show bankmax < 65536 by omega),
      u16_of_lt (show bufmax / bankmax * bankmax < 65536 by omega)]
  refine ⟨?_, ⟨bankmax, hpos, ?_⟩, ?_⟩
  · rw [hsize]
    exact hbank
  · rw [hsize, hbuf]
  · rw [hbuf]
    omega

/-- An empty buffer of valid sizes. -/
theorem ringOk_stReset
    (h : Geometry d) :
    RingOk (stReset d) := by
  have hbuf : 0 < d.bufmax := lt_of_lt_of_le h.bank_pos h.bank_le
  refine ⟨⟨h.bank_pos, h.banks, h.small⟩, ?_, hbuf, hbuf, Nat.zero_le _, ?_, ?_⟩
  · exact dvd_zero _
  · exact (ringIndex_zero hbuf).symm
  · intro hreading
    cases hreading

/-- The bank at the write pointer does not wrap. -/
theorem RingOk.write_add_le
    (h : RingOk d) :
    d.writePtr + d.banksize ≤ d.bufmax := by
  obtain ⟨m, -, hbuf⟩ := h.banks
  obtain ⟨k, hk⟩ := h.writeBank
  have hlt : d.banksize * k < d.banksize * m := by
    rw [← hk, ← hbuf]
    exact h.write_lt
  have hkm : k + 1 ≤ m := Nat.lt_of_mul_lt_mul_left hlt
  calc d.writePtr + d.banksize
      = d.banksize * (k + 1) := by
        rw [hk, Nat.mul_succ]
    _ ≤ d.banksize * m := Nat.mul_le_mul_left _ hkm
    _ = d.bufmax := hbuf.symm

theorem hasRoom_iff :
    hasRoom d = true ↔ d.streamed + d.banksize ≤ d.bufmax := by
  unfold hasRoom
  rw [decide_eq_true_eq]
  omega

/-- What `StmCallback` leaves when it accounts a bank. -/
theorem RingOk.accountBank_eq
    (h : RingOk d)
    (hreading : d.isReading = true) :
    accountBank d =
      { d with
        lsn := u32 (d.lsn + d.banksize)
        streamed := d.streamed + d.banksize
        writePtr := wrapPtr d.bufmax (d.writePtr + d.banksize)
        isReading := false } := by
  have hroom := h.room hreading
  have hsmall := h.small
  have hwrite := h.write_add_le
  unfold accountBank wrapPtr
  rw [u16_of_lt (show d.streamed + d.banksize < 65536 by omega),
    u16_of_lt (show d.writePtr + d.banksize < 65536 by omega)]

theorem RingOk.accountBank
    (h : RingOk d)
    (hreading : d.isReading = true) :
    RingOk (accountBank d) := by
  have hroom := h.room hreading
  have hwrite := h.write_add_le
  have hwrap := h.write_eq
  have hread := h.read_lt
  have hpos := h.bank_pos
  rw [h.accountBank_eq hreading]
  refine ⟨⟨h.bank_pos, h.banks, h.small⟩, ?_, ?_, h.read_lt, hroom, ?_, ?_⟩
  · show d.banksize ∣ wrapPtr d.bufmax (d.writePtr + d.banksize)
    unfold wrapPtr
    split_ifs
    · exact dvd_zero _
    · exact dvd_add h.writeBank (dvd_refl _)
  · show wrapPtr d.bufmax (d.writePtr + d.banksize) < d.bufmax
    unfold wrapPtr
    split_ifs <;> omega
  · show wrapPtr d.bufmax (d.writePtr + d.banksize) =
      ringIndex d.bufmax d.readPtr (d.streamed + d.banksize)
    unfold wrapPtr ringIndex at *
    split_ifs at * <;> omega
  · intro hfalse
    cases hfalse

theorem RingOk.stmCallback
    (h : RingOk d) :
    RingOk (stmCallback d) := by
  unfold Stream.stmCallback
  split_ifs with hreading
  · exact h.accountBank hreading
  · exact h

/-- A fill that found room may be marked. -/
theorem RingOk.setReading
    (h : RingOk d)
    (hroom : d.streamed + d.banksize ≤ d.bufmax)
    (b : Bool) :
    RingOk { d with isReading := b } :=
  ⟨⟨h.bank_pos, h.banks, h.small⟩, h.writeBank, h.write_lt, h.read_lt,
    h.streamed_le, h.write_eq, fun _ => hroom⟩

/-- The ways in which `StFillStreamBuffer` ends. -/
theorem stFillStreamBuffer_cases
    (syncFlag : Bool) (d : StreamingData) :
    (d.isReading = true ∧ stFillStreamBuffer syncFlag d = (d, .reading)) ∨
    (d.isReading = false ∧ hasRoom d = false ∧
      stFillStreamBuffer syncFlag d = (d, .full)) ∨
    (d.isReading = false ∧ hasRoom d = true ∧ syncFlag = true ∧
      stFillStreamBuffer syncFlag d = (d, .refused)) ∨
    (d.isReading = false ∧ hasRoom d = true ∧ syncFlag = false ∧
      stFillStreamBuffer syncFlag d =
        ({ d with isReading := true },
          .accepted ⟨d.lsn, d.banksize, d.writePtr⟩)) := by
  unfold stFillStreamBuffer
  cases hreading : d.isReading with
  | true => exact Or.inl ⟨rfl, rfl⟩
  | false =>
      right
      have hsame : { d with isReading := false } = d := by
        rw [← hreading]
      cases hroom : hasRoom d with
      | false => exact Or.inl ⟨rfl, rfl, by simp [hsame]⟩
      | true =>
          right
          cases syncFlag with
          | true => exact Or.inl ⟨rfl, rfl, rfl, by simp [hsame]⟩
          | false => exact Or.inr ⟨rfl, rfl, rfl, rfl⟩

theorem RingOk.fill
    (h : RingOk d)
    (syncFlag : Bool) :
    RingOk (stFillStreamBuffer syncFlag d).1 := by
  rcases stFillStreamBuffer_cases syncFlag d with
    ⟨-, heq⟩ | ⟨-, -, heq⟩ | ⟨-, -, -, heq⟩ | ⟨-, hroom, -, heq⟩
  · rw [heq]
    exact h
  · rw [heq]
    exact h
  · rw [heq]
    exact h
  · rw [heq]
    exact h.setReading (hasRoom_iff.mp hroom) true

end Invariant

section Copies

/-- The ring slot that is copied to sector `x` of the user's buffer. -/
def slotAt : List Transfer → Nat → Option Nat
  | [], _ => none
  | t :: ts, x =>
      if t.dest ≤ x ∧ x < t.dest + t.count then some (t.slot + (x - t.dest))
      else slotAt ts x

/-- A snapshot that copies `k` sectors from the read pointer on. -/
structure CopiesFirst (d : StreamingData) (k : Nat) (v : Snapshot) : Prop where
  result : v.result = k
  rdptr : v.rdptr = ringIndex d.bufmax d.readPtr k
  slots :
    ∀ x, x < k → slotAt v.transfers x = some (ringIndex d.bufmax d.readPtr x)
  beyond : ∀ x, k ≤ x → slotAt v.transfers x = none
  some_transfer : v.transfers = [] → k = 0

variable {d : StreamingData}

theorem clampCopy_sub
    {a n r : Nat}
    (ha : a < 65536)
    (hr : r ≤ n) :
    clampCopy a ((n : Int) - r) = min a (n - r) := by
  unfold clampCopy u16Int
  split_ifs with hgt
  · omega
  · omega

theorem slotAt_append
    (ts us : List Transfer) (x : Nat) :
    slotAt (ts ++ us) x =
      match slotAt ts x with
      | some i => some i
      | none => slotAt us x := by
  induction ts with
  | nil => rfl
  | cons t ts ih =>
      simp only [List.cons_append, slotAt]
      split_ifs
      · rfl
      · exact ih

theorem copiesFirst_none (hread : d.readPtr < d.bufmax) :
    CopiesFirst d 0 ⟨d.readPtr, 0, []⟩ := by
  refine ⟨rfl, (ringIndex_zero hread).symm, ?_, fun _ _ => rfl, fun _ => rfl⟩
  intro x hx
  omega

/-- A run of consecutive slots extends the copy. -/
theorem CopiesFirst.run
    {k a n : Nat} {v : Snapshot}
    (h : CopiesFirst d k v)
    (hbuf : d.bufmax < 65536)
    (hread : d.readPtr < d.bufmax)
    (hk : k + a ≤ d.bufmax)
    (hkn : k ≤ n)
    (hslots : v.rdptr + a ≤ d.bufmax) :
    CopiesFirst d (k + min a (n - k)) (copyRun d.bufmax a n v) := by
  have hclamp : clampCopy a ((n : Int) - v.result) = min a (n - k) := by
    rw [h.result]
    exact clampCopy_sub (by omega) hkn
  unfold copyRun
  rw [hclamp]
  split_ifs with hpos
  · have hsum : v.rdptr + min a (n - k) ≤ d.bufmax := by
      omega
    have hlt : v.rdptr < d.bufmax := by
      omega
    have hat : v.rdptr = ringIndex d.bufmax d.readPtr k := h.rdptr
    refine ⟨?_, ?_, ?_, ?_, ?_⟩
    · show v.result + min a (n - k) = k + min a (n - k)
      rw [h.result]
    · show wrapPtr d.bufmax (u16 (v.rdptr + min a (n - k))) = _
      rw [u16_of_lt (by omega)]
      unfold wrapPtr ringIndex at *
      split_ifs at * <;> omega
    · intro x hx
      rw [slotAt_append]
      rcases Nat.lt_or_ge x k with hxk | hxk
      · rw [h.slots x hxk]
      · -- the new run begins at sector `k` of the user's buffer
        obtain ⟨j, rfl⟩ : ∃ j, x = k + j := ⟨x - k, by omega⟩
        have hin :
            v.result ≤ k + j ∧ k + j < v.result + min a (n - k) := by
          rw [h.result]
          omega
        rw [h.beyond _ hxk]
        simp only [slotAt]
        rw [if_pos hin, h.result, Nat.add_sub_cancel_left, hat,
          ringIndex_add_of_le (by omega)]
    · intro x hx
      have hout :
          ¬ (v.result ≤ x ∧ x < v.result + min a (n - k)) := by
        rw [h.result]
        omega
      rw [slotAt_append, h.beyond x (by omega)]
      simp only [slotAt]
      rw [if_neg hout]
    · intro hnil
      simp at hnil
  · have hzero : min a (n - k) = 0 := by
      omega
    rw [hzero, Nat.add_zero]
    exact h

/-- `ReadSectorsEE` copies as many of the oldest sectors as there are and as are
asked for. -/
theorem readSectorsEE_spec
    (h : RingOk d)
    (n : Nat) :
    CopiesFirst d (min n d.streamed) (readSectorsEE d n) := by
  have hread := h.read_lt
  have hsmall := h.small
  have hwrite := h.write_lt
  have hle := h.streamed_le
  have hat := h.write_eq
  have hnone := copiesFirst_none hread
  simp only [readSectorsEE, copyToEnd]
  split_ifs with hend
  · -- full or wrapped: the sectors up to the end of the buffer come first
    have hcount : u16Int ((d.bufmax : Int) - d.readPtr) = d.bufmax - d.readPtr := by
      unfold u16Int
      omega
    have hstreamed :
        d.streamed = (d.bufmax - d.readPtr) + d.writePtr := by
      unfold ringIndex at hat
      split_ifs at hat <;> omega
    have hfirst :=
      hnone.run hsmall hread (a := d.bufmax - d.readPtr) (n := n)
        (by omega) (Nat.zero_le n) (by dsimp only; omega)
    rw [hcount]
    rw [Nat.zero_add, Nat.sub_zero] at hfirst
    unfold copyToWritePtr
    rw [hfirst.result, hfirst.rdptr]
    split_ifs with hmore
    · have hrd :
          ringIndex d.bufmax d.readPtr (min (d.bufmax - d.readPtr) n) = 0 := by
        unfold ringIndex
        split_ifs <;> omega
      rw [hrd] at hmore ⊢
      have hcount' : u16Int ((d.writePtr : Int) - ((0 : Nat) : Int)) = d.writePtr := by
        unfold u16Int
        omega
      rw [hcount']
      have hsecond :=
        hfirst.run hsmall hread (a := d.writePtr) (n := n)
          (by omega) (by omega) (by rw [hfirst.rdptr, hrd]; omega)
      have htotal :
          min (d.bufmax - d.readPtr) n +
              min d.writePtr (n - min (d.bufmax - d.readPtr) n) =
            min n d.streamed := by
        omega
      rwa [htotal] at hsecond
    · have htotal : min (d.bufmax - d.readPtr) n = min n d.streamed := by
        unfold ringIndex at hmore
        split_ifs at hmore <;> omega
      rwa [htotal] at hfirst
  · simp only [copyToWritePtr]
    split_ifs with hmore
    · have hcount :
          u16Int ((d.writePtr : Int) - d.readPtr) = d.writePtr - d.readPtr := by
        unfold u16Int
        omega
      have hfirst :=
        hnone.run hsmall hread (a := d.writePtr - d.readPtr) (n := n)
          (by omega) (Nat.zero_le n) (by dsimp only; omega)
      rw [hcount]
      have htotal :
          0 + min (d.writePtr - d.readPtr) (n - 0) = min n d.streamed := by
        unfold ringIndex at hat
        split_ifs at hat <;> omega
      rwa [htotal] at hfirst
    · have htotal : 0 = min n d.streamed := by
        unfold ringIndex at hat
        split_ifs at hat <;> omega
      rwa [← htotal]

theorem stat_stmCallback (d : StreamingData) :
    (stmCallback d).stat = d.stat ∧ (stmCallback d).isReading = false := by
  unfold stmCallback
  split_ifs with hreading
  · exact ⟨rfl, rfl⟩
  · exact ⟨rfl, by simpa using hreading⟩

theorem memcpyRun_frame (n : Nat) (maxcount : Int) (v : Copied) :
    (memcpyRun n maxcount v).data.stat = v.data.stat ∧
      (memcpyRun n maxcount v).data.isReading = v.data.isReading := by
  unfold memcpyRun
  split_ifs
  · exact ⟨rfl, rfl⟩
  · exact ⟨rfl, rfl⟩

/-- The readers neither start a stream nor touch the mark. -/
theorem readSectors_frame (d : StreamingData) (maxcount : Int) :
    (readSectors d maxcount).data.stat = d.stat ∧
      (readSectors d maxcount).data.isReading = d.isReading := by
  have hend :
      (memcpyToEnd maxcount ⟨d, 0, []⟩).data.stat = d.stat ∧
        (memcpyToEnd maxcount ⟨d, 0, []⟩).data.isReading = d.isReading := by
    unfold memcpyToEnd
    split_ifs
    · exact memcpyRun_frame _ _ _
    · exact ⟨rfl, rfl⟩
  unfold readSectors memcpyToWritePtr
  split_ifs
  · obtain ⟨hstat, hreading⟩ :=
      memcpyRun_frame
        (u16Int
          (((memcpyToEnd maxcount ⟨d, 0, []⟩).data.writePtr : Int) -
            (memcpyToEnd maxcount ⟨d, 0, []⟩).data.readPtr))
        maxcount (memcpyToEnd maxcount ⟨d, 0, []⟩)
    exact ⟨hstat.trans hend.1, hreading.trans hend.2⟩
  · exact hend

theorem commit_frame (v : Snapshot) (d : StreamingData) :
    (commit v d).stat = d.stat ∧ (commit v d).isReading = d.isReading := by
  unfold commit
  split_ifs
  · exact ⟨rfl, rfl⟩
  · exact ⟨rfl, rfl⟩

/-- The counters after the first `k` sectors have been taken out. -/
def takeFront (k : Nat) (d : StreamingData) : StreamingData :=
  { d with
    readPtr := ringIndex d.bufmax d.readPtr k
    streamed := d.streamed - k }

theorem RingOk.takeFront
    {k : Nat}
    (h : RingOk d)
    (hk : k ≤ d.streamed) :
    RingOk (takeFront k d) := by
  have hread := h.read_lt
  have hle := h.streamed_le
  have hat := h.write_eq
  refine ⟨⟨h.bank_pos, h.banks, h.small⟩, h.writeBank, h.write_lt, ?_, ?_, ?_, ?_⟩
  · exact ringIndex_lt hread (by omega)
  · exact le_trans (Nat.sub_le _ _) hle
  · show d.writePtr =
      ringIndex d.bufmax (ringIndex d.bufmax d.readPtr k) (d.streamed - k)
    rw [ringIndex_ringIndex hread (by omega), hat]
    congr 1
    omega
  · intro hreading
    have hroom := h.room hreading
    show d.streamed - k + d.banksize ≤ d.bufmax
    omega

/-- The second critical section of `ReadSectorsEE` takes out what was copied. -/
theorem CopiesFirst.commit_eq
    {k : Nat} {v : Snapshot}
    (hv : CopiesFirst d k v)
    (h : RingOk d)
    (hk : k ≤ d.streamed) :
    commit v d = takeFront k d := by
  have hstreamed : d.streamed < 65536 := lt_of_le_of_lt h.streamed_le h.small
  have hcount : u16Int ((d.streamed : Int) - v.result) = d.streamed - k := by
    rw [hv.result]
    unfold u16Int
    omega
  unfold commit
  split_ifs with hcopy
  · unfold takeFront
    rw [hcount, hv.rdptr]
  · rw [ne_eq, not_not] at hcopy
    have hzero := hv.some_transfer hcopy
    subst hzero
    unfold takeFront
    rw [ringIndex_zero h.read_lt, Nat.sub_zero]

/-- `ReadSectors` does both parts of `ReadSectorsEE` at once. -/
theorem readSectors_spec
    (h : RingOk d)
    (n : Nat) :
    (readSectors d n).data = takeFront (min n d.streamed) d ∧
    (readSectors d n).result = min n d.streamed ∧
    (readSectors d n).transfers = (readSectorsEE d n).transfers := by
  have hstreamed : d.streamed < 65536 := lt_of_le_of_lt h.streamed_le h.small
  have hv := readSectorsEE_spec h n
  obtain ⟨hdata, hresult, htransfers⟩ := readSectors_eq_readSectorsEE hstreamed n
  refine ⟨?_, ?_, htransfers⟩
  · rw [hdata]
    exact hv.commit_eq h (min_le_right _ _)
  · rw [hresult]
    exact hv.result

end Copies

end Stream
end Ps2Cdvd
