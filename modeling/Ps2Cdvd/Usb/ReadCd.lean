import Ps2Cdvd.Lib.Memory

/-!
# CD sectors from a USB device: `mass_stor_ReadCD`

A CD sector of 2048 bytes is a whole number of device sectors of 512, 1024 or 2048 bytes,
and half of one of 4096.  For the last size a first half is read through `gSectorBuffer`
when the request begins in the middle of a device sector, and a last half when a single CD
sector is left.  A chunk of three or more CD sectors is read as `nbytes / sectorSize`
device sectors, which leaves out the last half of an odd one.

Every `mass_stor_readSector` returns the contents of the disk.

* `readCdLoop_returns`: the loop ends, for every count;
* `massStorReadCD_exact_iff`: exactly when a request brings its bytes.
-/

namespace Ps2Cdvd
namespace Usb

open Lib

section Source

/-- `MAX_USB_SECTORS` -/
def maxUsbSectors : Nat := 256

/-- The memory of the caller, `gSectorBuffer`, and the sector and count of every
`mass_stor_readSector`. -/
structure CdState where
  mem : Nat → UInt8
  gSectorBuffer : Nat → UInt8
  reads : List (Nat × Nat)

variable (disk : Nat → UInt8) (sectorSize : Nat)

/-- The contents of the disk from device sector `lba` on. -/
def diskFrom (lba : Nat) : Nat → UInt8 := fun i => disk (sectorSize * lba + i)

/-- `mass_stor_readSector(lba, count, p)` -/
def CdState.readSector (lba count p : Nat) (s : CdState) : CdState :=
  { s with
    mem := writeRange s.mem p (sectorSize * u16 count) (diskFrom disk sectorSize lba)
    reads := s.reads ++ [(lba, u16 count)] }

/-- `mass_stor_readSector(lba, 1, gSectorBuffer)` and a copy of 2048 bytes out of it,
from `offset` on. -/
def CdState.readHalf (lba offset p : Nat) (s : CdState) : CdState :=
  let sector := writeRange s.gSectorBuffer 0 sectorSize (diskFrom disk sectorSize lba)
  { mem := writeRange s.mem p 2048 (fun i => sector (offset + i))
    gSectorBuffer := sector
    reads := s.reads ++ [(lba, 1)] }

/-- `sectors`, of a turn of the loop. -/
def chunkSectorsOf (nsectors : Nat) : Nat :=
  if maxUsbSectors < nsectors then maxUsbSectors else nsectors

/-- `DiskSectorsToRead` -/
def diskSectorsToRead (sectors : Nat) : Nat := u32 (sectors * 2048) / sectorSize

/-- The read of a turn. -/
def CdState.readChunk (lba sectors p : Nat) (s : CdState) : CdState :=
  if diskSectorsToRead sectorSize sectors = 0 then s.readHalf disk sectorSize lba 0 p
  else s.readSector disk sectorSize lba (diskSectorsToRead sectorSize sectors) p

/-- The loop; a turn takes at least one CD sector. -/
def readCdLoop : (fuel lba nsectors p : Nat) → CdState → Option CdState
  | 0, _, _, _, _ => none
  | fuel + 1, lba, nsectors, p, s =>
      if 0 < nsectors then
        readCdLoop fuel
          (u32 (lba + diskSectorsToRead sectorSize (chunkSectorsOf nsectors)))
          (nsectors - chunkSectorsOf nsectors)
          (p + u32 (chunkSectorsOf nsectors * 2048))
          (s.readChunk disk sectorSize lba (chunkSectorsOf nsectors) p)
      else some s

/-- `mass_stor_ReadCD(lsn, nsectors, p, part_num)`; `start` is
`cdvdman_settings.LBAs[part_num]`. -/
def massStorReadCD (start lsn nsectors p : Nat) (s : CdState) : Option CdState :=
  if 2048 < sectorSize then
    let lba := u32 (start + lsn / 2)
    if 0 < lsn % 2 then
      let nsectors := u32Sub nsectors 1
      readCdLoop disk sectorSize (nsectors + 1) (u32 (lba + 1)) nsectors (p + 2048)
        (s.readHalf disk sectorSize lba 2048 p)
    else readCdLoop disk sectorSize (nsectors + 1) lba nsectors p s
  else
    readCdLoop disk sectorSize (nsectors + 1)
      (u32 (start + u32 (lsn * (2048 / sectorSize)))) nsectors p s

end Source

section Purpose

/-- The sizes of a device sector that are supported. -/
def Supported (sectorSize : Nat) : Prop :=
  sectorSize = 512 ∨ sectorSize = 1024 ∨ sectorSize = 2048 ∨ sectorSize = 4096

/-- A request returns, brings the bytes of its sectors, writes nothing else, and reads
nothing for no sectors. -/
def ReadCdExact (sectorSize start lsn nsectors : Nat) : Prop :=
  ∀ (disk : Nat → UInt8) (p : Nat) (s : CdState), s.reads = [] →
    ∃ t, massStorReadCD disk sectorSize start lsn nsectors p s = some t ∧
      (∀ i, i < 2048 * nsectors →
        t.mem (p + i) = disk (sectorSize * start + 2048 * lsn + i)) ∧
      (∀ x, (x < p ∨ p + 2048 * nsectors ≤ x) → t.mem x = s.mem x) ∧
      (nsectors = 0 → t.reads = [])

/-- The last chunk of `nsectors` CD sectors is read whole: with device sectors of 4096
bytes it is of an even number of CD sectors, or of one. -/
def LastWhole (sectorSize nsectors : Nat) : Prop :=
  sectorSize ≤ 2048 ∨ nsectors % maxUsbSectors % 2 = 0 ∨ nsectors % maxUsbSectors = 1

/-- A request for which the device sectors and the CD sectors come out even. -/
def ComesOut (sectorSize lsn nsectors : Nat) : Prop :=
  sectorSize ≤ 2048 ∨
    (¬ (nsectors = 0 ∧ lsn % 2 = 1) ∧
      LastWhole sectorSize (nsectors - lsn % 2))

end Purpose

section Loop

variable
  {disk : Nat → UInt8}
  {sectorSize : Nat}

theorem chunkSectorsOf_cases (nsectors : Nat) :
    (256 < nsectors ∧ chunkSectorsOf nsectors = 256) ∨
      (nsectors ≤ 256 ∧ chunkSectorsOf nsectors = nsectors) := by
  unfold chunkSectorsOf maxUsbSectors
  split_ifs with hmore
  · exact Or.inl ⟨hmore, rfl⟩
  · exact Or.inr ⟨by omega, rfl⟩

/-- The loop ends, for every count and size of a sector. -/
theorem readCdLoop_returns :
    ∀ (fuel lba nsectors p : Nat) (s : CdState), nsectors < fuel →
      (readCdLoop disk sectorSize fuel lba nsectors p s).isSome = true := by
  intro fuel
  induction fuel with
  | zero =>
      intro _ _ _ _ hfuel
      omega
  | succ fuel ih =>
      intro lba nsectors p s hfuel
      rw [readCdLoop]
      split_ifs with hsome
      · refine ih _ _ _ _ ?_
        rcases chunkSectorsOf_cases nsectors with ⟨-, hchunk⟩ | ⟨-, hchunk⟩
        · omega
        · omega
      · rfl

/-- The loop keeps the reads made before it. -/
theorem readCdLoop_reads :
    ∀ (fuel lba nsectors p : Nat) (s t : CdState),
      readCdLoop disk sectorSize fuel lba nsectors p s = some t →
      s.reads ≠ [] → t.reads ≠ [] := by
  intro fuel
  induction fuel with
  | zero =>
      intro _ _ _ _ _ hrun
      cases hrun
  | succ fuel ih =>
      intro lba nsectors p s t hrun hreads
      rw [readCdLoop] at hrun
      split_ifs at hrun with hsome
      · refine ih _ _ _ _ _ hrun ?_
        rw [CdState.readChunk]
        split_ifs
        · exact List.append_ne_nil_of_right_ne_nil _ (List.cons_ne_nil _ _)
        · exact List.append_ne_nil_of_right_ne_nil _ (List.cons_ne_nil _ _)
      · cases hrun
        exact hreads

/-- Sizes that are supported, by the CD sectors of a device sector. -/
theorem Supported.cases
    (h : Supported sectorSize) :
    (∃ k, (k = 1 ∨ k = 2 ∨ k = 4) ∧ sectorSize * k = 2048 ∧ 2048 / sectorSize = k) ∨
      sectorSize = 4096 := by
  rcases h with rfl | rfl | rfl | rfl
  · exact Or.inl ⟨4, by decide⟩
  · exact Or.inl ⟨2, by decide⟩
  · exact Or.inl ⟨1, by decide⟩
  · exact Or.inr rfl

/-- The bytes of the disk behind `n` bytes that are a whole number of device sectors. -/
theorem diskFrom_add (lba k : Nat) :
    diskFrom disk sectorSize (lba + k) =
      fun i => diskFrom disk sectorSize lba (sectorSize * k + i) := by
  funext i
  simp only [diskFrom, Nat.mul_add, Nat.add_assoc]

/-- A chunk that comes out even brings its CD sectors, and leaves the loop behind them. -/
theorem readChunk_whole
    {c : Nat}
    (hsize : Supported sectorSize)
    (hsmall : c ≤ 256)
    (hwhole : sectorSize ≤ 2048 ∨ c % 2 = 0)
    (hsome : 0 < c)
    (lba p : Nat) (s : CdState) :
    sectorSize * diskSectorsToRead sectorSize c = 2048 * c ∧
      (s.readChunk disk sectorSize lba c p).mem =
        writeRange s.mem p (2048 * c) (diskFrom disk sectorSize lba) := by
  have hbytes : u32 (c * 2048) = 2048 * c := by
    rw [u32_of_lt (by omega), Nat.mul_comm]
  have hsectors :
      sectorSize * diskSectorsToRead sectorSize c = 2048 * c ∧
        0 < diskSectorsToRead sectorSize c ∧ diskSectorsToRead sectorSize c < 65536 := by
    rw [diskSectorsToRead, hbytes]
    rcases hsize with rfl | rfl | rfl | rfl
    · omega
    · omega
    · omega
    · omega
  obtain ⟨hmul, hpos, hcount⟩ := hsectors
  refine ⟨hmul, ?_⟩
  rw [CdState.readChunk, if_neg (by omega), CdState.readSector]
  dsimp only
  rw [u16_of_lt hcount, hmul]

/-- A single CD sector of a device sector of 4096 bytes. -/
theorem readChunk_half (lba p : Nat) (s : CdState) :
    (s.readChunk disk 4096 lba 1 p).mem =
      writeRange s.mem p 2048 (diskFrom disk 4096 lba) := by
  have hzero : diskSectorsToRead 4096 1 = 0 := by decide
  rw [CdState.readChunk, if_pos hzero, CdState.readHalf]
  dsimp only
  refine writeRange_congr _ _ _ ?_
  intro i hi
  rw [Nat.zero_add]
  have hread :=
    writeRange_inside s.gSectorBuffer 0 (diskFrom disk 4096 lba) (by omega : i < 4096)
  rw [Nat.zero_add] at hread
  exact hread

theorem readCdLoop_zero (fuel lba p : Nat) (s : CdState) :
    readCdLoop disk sectorSize (fuel + 1) lba 0 p s = some s := by
  rw [readCdLoop, if_neg (by omega)]

/-- The loop brings its CD sectors when the last chunk is read whole. -/
theorem readCdLoop_whole
    (hsize : Supported sectorSize) :
    ∀ (fuel lba nsectors p : Nat) (s : CdState),
      nsectors < fuel → LastWhole sectorSize nsectors →
      sectorSize * lba + 2048 * nsectors ≤ sectorSize * 4294967296 →
      ∃ t, readCdLoop disk sectorSize fuel lba nsectors p s = some t ∧
        t.mem = writeRange s.mem p (2048 * nsectors) (diskFrom disk sectorSize lba) ∧
        (nsectors = 0 → t.reads = s.reads) := by
  intro fuel
  induction fuel with
  | zero =>
      intro _ _ _ _ hfuel
      omega
  | succ fuel ih =>
      intro lba nsectors p s hfuel hlast hlba
      rcases Nat.eq_zero_or_pos nsectors with hzero | hsome
      · subst hzero
        exact ⟨s, readCdLoop_zero fuel lba p s, (writeRange_zero _ _ _).symm,
          fun _ => rfl⟩
      · rw [readCdLoop, if_pos hsome]
        rcases chunkSectorsOf_cases nsectors with ⟨hmore, hchunk⟩ | ⟨hfew, hchunk⟩
        · -- a full chunk, and more behind it
          obtain ⟨hmul, hmem⟩ :=
            @readChunk_whole disk sectorSize 256 hsize (by decide) (Or.inr rfl)
              (by decide) lba p s
          have hnext :
              sectorSize * (lba + diskSectorsToRead sectorSize 256) =
                sectorSize * lba + 2048 * 256 := by
            rw [Nat.mul_add, hmul]
          have hword : lba + diskSectorsToRead sectorSize 256 < 4294967296 := by
            refine Nat.lt_of_mul_lt_mul_left (a := sectorSize) ?_
            rw [hnext]
            omega
          have hrest : LastWhole sectorSize (nsectors - 256) := by
            unfold LastWhole maxUsbSectors at *
            omega
          obtain ⟨t, hrun, hbytes, -⟩ :=
            ih (lba + diskSectorsToRead sectorSize 256) (nsectors - 256)
              (p + 2048 * 256) (s.readChunk disk sectorSize lba 256 p) (by omega) hrest
              (by rw [hnext]; omega)
          have hadvance : u32 (256 * 2048) = 2048 * 256 := by decide
          rw [hchunk, u32_of_lt hword, hadvance]
          refine ⟨t, hrun, ?_, fun hnone => by omega⟩
          have hall : 2048 * 256 + 2048 * (nsectors - 256) = 2048 * nsectors := by
            omega
          rw [hbytes, hmem, diskFrom_add, hmul, writeRange_adjacent, hall]
        · -- the last chunk
          obtain ⟨fuel, rfl⟩ : ∃ f, fuel = f + 1 := ⟨fuel - 1, by omega⟩
          rw [hchunk, Nat.sub_self, readCdLoop_zero]
          refine ⟨_, rfl, ?_, fun hnone => by omega⟩
          by_cases hone : sectorSize = 4096 ∧ nsectors = 1
          · obtain ⟨rfl, rfl⟩ := hone
            exact readChunk_half lba p s
          · refine (readChunk_whole hsize hfew ?_ hsome lba p s).2
            unfold LastWhole maxUsbSectors at hlast
            rcases hsize with rfl | rfl | rfl | rfl
            · exact Or.inl (by decide)
            · exact Or.inl (by decide)
            · exact Or.inl (by decide)
            · right
              omega

/-- With device sectors of 4096 bytes the loop leaves out the last half of an odd chunk of
three or more CD sectors. -/
theorem readCdLoop_leaves :
    ∀ (fuel lba nsectors p : Nat) (s t : CdState),
      ¬ LastWhole 4096 nsectors →
      readCdLoop disk 4096 fuel lba nsectors p s = some t →
      t.mem (p + 2048 * (nsectors - 1)) = s.mem (p + 2048 * (nsectors - 1)) := by
  intro fuel
  induction fuel with
  | zero =>
      intro _ _ _ _ _ _ hrun
      cases hrun
  | succ fuel ih =>
      intro lba nsectors p s t hlast hrun
      unfold LastWhole maxUsbSectors at hlast
      rw [readCdLoop, if_pos (by omega)] at hrun
      rcases chunkSectorsOf_cases nsectors with ⟨hmore, hchunk⟩ | ⟨hfew, hchunk⟩
      · rw [hchunk] at hrun
        have hadvance : u32 (256 * 2048) = 2048 * 256 := by decide
        rw [hadvance] at hrun
        have hrest : ¬ LastWhole 4096 (nsectors - 256) := by
          unfold LastWhole maxUsbSectors
          omega
        have hkept := ih _ _ _ _ _ hrest hrun
        have hat :
            p + 2048 * 256 + 2048 * (nsectors - 256 - 1) = p + 2048 * (nsectors - 1) := by
          omega
        rw [hat] at hkept
        rw [hkept,
          (@readChunk_whole disk 4096 256 (Or.inr (Or.inr (Or.inr rfl))) (by decide)
            (Or.inr rfl) (by decide) lba p s).2]
        exact writeRange_outside _ _ (by omega)
      · obtain ⟨fuel, rfl⟩ : ∃ f, fuel = f + 1 := by
          cases fuel with
          | zero => cases hrun
          | succ f => exact ⟨f, rfl⟩
        rw [hchunk, Nat.sub_self, readCdLoop_zero] at hrun
        cases hrun
        have hsectors : diskSectorsToRead 4096 nsectors = nsectors / 2 := by
          rw [diskSectorsToRead, u32_of_lt (by omega)]
          omega
        rw [CdState.readChunk, hsectors, if_neg (by omega), CdState.readSector]
        dsimp only
        rw [u16_of_lt (by omega)]
        exact writeRange_outside _ _ (by omega)

end Loop

section Request

variable {sectorSize start lsn nsectors : Nat}

/-- A request returns `t`, and leaves exactly the bytes of its CD sectors behind `p`. -/
def Brings (disk : Nat → UInt8) (sectorSize start lsn nsectors p : Nat)
    (s t : CdState) : Prop :=
  massStorReadCD disk sectorSize start lsn nsectors p s = some t ∧
    t.mem =
      writeRange s.mem p (2048 * nsectors)
        (fun i => disk (sectorSize * start + 2048 * lsn + i)) ∧
    (nsectors = 0 → t.reads = s.reads)

/-- A loop from the device sector of the first byte of the request on brings them. -/
theorem readCdLoop_brings
    {lba : Nat}
    (hsize : Supported sectorSize)
    (hlast : LastWhole sectorSize nsectors)
    (hat : sectorSize * lba = sectorSize * start + 2048 * lsn)
    (hlba :
      sectorSize * start + 2048 * (lsn + nsectors) ≤ sectorSize * 4294967296)
    (disk : Nat → UInt8) (p : Nat) (s : CdState) :
    ∃ t, readCdLoop disk sectorSize (nsectors + 1) (u32 lba) nsectors p s = some t ∧
      t.mem =
        writeRange s.mem p (2048 * nsectors)
          (fun i => disk (sectorSize * start + 2048 * lsn + i)) ∧
      (nsectors = 0 → t.reads = s.reads) := by
  rcases Nat.eq_zero_or_pos nsectors with hnone | hsome
  · subst hnone
    exact ⟨s, readCdLoop_zero _ _ _ _, (writeRange_zero _ _ _).symm, fun _ => rfl⟩
  · have hlt : lba < 4294967296 := by
      refine Nat.lt_of_mul_lt_mul_left (a := sectorSize) ?_
      rw [hat]
      omega
    obtain ⟨t, hrun, hmem, hreads⟩ :=
      @readCdLoop_whole disk sectorSize hsize (nsectors + 1) lba nsectors p s
        (Nat.lt_succ_self _) hlast (by rw [hat]; omega)
    rw [u32_of_lt hlt]
    refine ⟨t, hrun, ?_, hreads⟩
    rw [hmem]
    unfold diskFrom
    rw [hat]

/-- The second half of a device sector, read through `gSectorBuffer`. -/
theorem readHalf_second
    (hodd : lsn % 2 = 1)
    (disk : Nat → UInt8) (p : Nat) (s : CdState) :
    (s.readHalf disk 4096 (start + lsn / 2) 2048 p).mem =
      writeRange s.mem p 2048 (fun i => disk (4096 * start + 2048 * lsn + i)) := by
  rw [CdState.readHalf]
  dsimp only
  refine writeRange_congr _ _ _ ?_
  intro i hi
  have hread :=
    writeRange_inside s.gSectorBuffer 0 (diskFrom disk 4096 (start + lsn / 2))
      (by omega : 2048 + i < 4096)
  rw [Nat.zero_add] at hread
  have hat : 4096 * (start + lsn / 2) + (2048 + i) = 4096 * start + 2048 * lsn + i := by
    omega
  rw [hread, diskFrom, hat]

/-- Device sectors that a CD sector is a whole number of. -/
theorem brings_small
    (hsize : Supported sectorSize)
    (hsmall : sectorSize ≤ 2048)
    (hlba :
      sectorSize * start + 2048 * (lsn + nsectors) ≤ sectorSize * 4294967296)
    (disk : Nat → UInt8) (p : Nat) (s : CdState) :
    ∃ t, Brings disk sectorSize start lsn nsectors p s t := by
  rcases hsize.cases with ⟨k, hk, hmul, hdiv⟩ | hlarge
  · have hat : sectorSize * (start + lsn * k) = sectorSize * start + 2048 * lsn := by
      rw [Nat.mul_add, Nat.mul_comm lsn k, ← Nat.mul_assoc, hmul]
    have hword : u32 (start + u32 (lsn * k)) = u32 (start + lsn * k) := by
      unfold u32
      omega
    unfold Brings
    rw [massStorReadCD, if_neg (by omega), hdiv, hword]
    exact readCdLoop_brings hsize (Or.inl hsmall) hat hlba disk p s
  · omega

/-- Device sectors of 4096 bytes, from the beginning of one on. -/
theorem brings_even
    (heven : lsn % 2 = 0)
    (hlast : LastWhole 4096 nsectors)
    (hlba : 4096 * start + 2048 * (lsn + nsectors) ≤ 4096 * 4294967296)
    (disk : Nat → UInt8) (p : Nat) (s : CdState) :
    ∃ t, Brings disk 4096 start lsn nsectors p s t := by
  have hat : 4096 * (start + lsn / 2) = 4096 * start + 2048 * lsn := by
    omega
  unfold Brings
  rw [massStorReadCD, if_pos (by decide)]
  dsimp only
  rw [if_neg (by omega)]
  exact readCdLoop_brings (Or.inr (Or.inr (Or.inr rfl))) hlast hat hlba disk p s

/-- Device sectors of 4096 bytes, from the middle of one on: the first half is read
through `gSectorBuffer`, and the loop brings the rest. -/
theorem brings_odd
    (hodd : lsn % 2 = 1)
    (hpos : 0 < nsectors)
    (hword : nsectors < 4294967296)
    (hlast : LastWhole 4096 (nsectors - 1))
    (hlba : 4096 * start + 2048 * (lsn + nsectors) ≤ 4096 * 4294967296)
    (disk : Nat → UInt8) (p : Nat) (s : CdState) :
    ∃ t, Brings disk 4096 start lsn nsectors p s t := by
  have hlt : start + lsn / 2 < 4294967296 := by
    omega
  have hnext : 4096 * (start + lsn / 2 + 1) = 4096 * start + 2048 * (lsn + 1) := by
    omega
  obtain ⟨t, hrun, hmem, -⟩ :=
    readCdLoop_brings (Or.inr (Or.inr (Or.inr rfl))) hlast hnext (by omega) disk (p + 2048)
      (s.readHalf disk 4096 (start + lsn / 2) 2048 p)
  refine ⟨t, ?_, ?_, fun hnone => by omega⟩
  · rw [massStorReadCD, if_pos (by decide)]
    dsimp only
    rw [if_pos (by omega), u32Sub_of_le hpos hword, u32_of_lt hlt]
    exact hrun
  · have hrest :
        (fun i => disk (4096 * start + 2048 * (lsn + 1) + i)) =
          fun i => disk (4096 * start + 2048 * lsn + (2048 + i)) := by
      funext i
      rw [Nat.mul_add 2048 lsn 1, Nat.mul_one, ← Nat.add_assoc, Nat.add_assoc _ 2048 i]
    have hall : 2048 + 2048 * (nsectors - 1) = 2048 * nsectors := by
      omega
    have hjoin :=
      writeRange_adjacent s.mem p 2048 (2048 * (nsectors - 1))
        (fun i => disk (4096 * start + 2048 * lsn + i))
    rw [hmem, readHalf_second hodd, hrest, hjoin, hall]

/-- What a request leaves when its device sectors come out. -/
theorem massStorReadCD_brings
    (hsize : Supported sectorSize)
    (hword : nsectors < 4294967296)
    (hlba :
      sectorSize * start + 2048 * (lsn + nsectors) ≤ sectorSize * 4294967296)
    (hcomes : ComesOut sectorSize lsn nsectors)
    (disk : Nat → UInt8) (p : Nat) (s : CdState) :
    ∃ t, Brings disk sectorSize start lsn nsectors p s t := by
  rcases hcomes with hsmall | ⟨hsome, hlast⟩
  · exact brings_small hsize hsmall hlba disk p s
  · rcases hsize.cases with ⟨k, hk, hmul, hdiv⟩ | hlarge
    · have hsmall : sectorSize ≤ 2048 := by
        rcases hk with rfl | rfl | rfl
        · omega
        · omega
        · omega
      exact brings_small hsize hsmall hlba disk p s
    · subst hlarge
      rcases Nat.mod_two_eq_zero_or_one lsn with heven | hodd
      · rw [heven, Nat.sub_zero] at hlast
        exact brings_even heven hlast hlba disk p s
      · rw [hodd] at hlast
        exact brings_odd hodd (by omega) hword hlast hlba disk p s

/-- A request whose device sectors do not come out. -/
theorem comesOut_of_exact
    (hsize : Supported sectorSize)
    (hword : nsectors < 4294967296)
    (hexact : ReadCdExact sectorSize start lsn nsectors) :
    ComesOut sectorSize lsn nsectors := by
  by_contra hcomes
  unfold ComesOut at hcomes
  have hlarge : sectorSize = 4096 := by
    unfold Supported at hsize
    omega
  subst hlarge
  -- a disk of zeros and a memory of ones show every byte that is not read
  obtain ⟨t, hrun, hbytes, -, hnone⟩ :=
    hexact (fun _ => 0) 0 ⟨fun _ => 1, fun _ => 1, []⟩ rfl
  rw [massStorReadCD, if_pos (by decide)] at hrun
  dsimp only at hrun
  by_cases hzero : nsectors = 0 ∧ lsn % 2 = 1
  · obtain ⟨rfl, hodd⟩ := hzero
    rw [if_pos (by omega)] at hrun
    refine readCdLoop_reads _ _ _ _ _ _ hrun ?_ (hnone rfl)
    exact List.cons_ne_nil _ _
  · have hlast : ¬ LastWhole 4096 (nsectors - lsn % 2) := by
      intro hwhole
      exact hcomes (Or.inr ⟨hzero, hwhole⟩)
    have hthree : 3 ≤ nsectors - lsn % 2 := by
      unfold LastWhole maxUsbSectors at hlast
      omega
    have hlow := hbytes (2048 * (nsectors - 1)) (by omega)
    by_cases hodd : 0 < lsn % 2
    · have hone : u32Sub nsectors 1 = nsectors - 1 := u32Sub_of_le (by omega) hword
      have hmod : lsn % 2 = 1 := by
        omega
      rw [hmod] at hlast
      rw [if_pos hodd, hone] at hrun
      have hkept := readCdLoop_leaves _ _ _ _ _ _ hlast hrun
      have hat : 0 + 2048 + 2048 * (nsectors - 1 - 1) = 0 + 2048 * (nsectors - 1) := by
        omega
      rw [hat, hlow, CdState.readHalf] at hkept
      dsimp only at hkept
      rw [writeRange_outside _ _ (by omega)] at hkept
      exact absurd hkept (by decide)
    · have heven : lsn % 2 = 0 := by
        omega
      rw [heven, Nat.sub_zero] at hlast
      rw [if_neg hodd] at hrun
      have hkept := readCdLoop_leaves _ _ _ _ _ _ hlast hrun
      rw [hlow] at hkept
      have hfalse : (0 : UInt8) = 1 := hkept
      exact absurd hfalse (by decide)

/-- **`mass_stor_ReadCD` brings exactly its bytes** exactly when the device sectors are of
at most 2048 bytes, or the CD sectors come out: not none of them from the middle of a
device sector on, and no odd chunk of three or more at the end. -/
theorem massStorReadCD_exact_iff
    (hsize : Supported sectorSize)
    (hword : nsectors < 4294967296)
    (hlba :
      sectorSize * start + 2048 * (lsn + nsectors) ≤ sectorSize * 4294967296) :
    ReadCdExact sectorSize start lsn nsectors ↔ ComesOut sectorSize lsn nsectors := by
  constructor
  · exact comesOut_of_exact hsize hword
  · intro hcomes disk p s hreads
    obtain ⟨t, hrun, hmem, hkept⟩ :=
      massStorReadCD_brings hsize hword hlba hcomes disk p s
    refine ⟨t, hrun, ?_, ?_, ?_⟩
    · intro i hi
      rw [hmem]
      exact writeRange_inside _ _ _ hi
    · intro x hx
      rw [hmem]
      exact writeRange_outside _ _ hx
    · intro hnone
      rw [hkept hnone, hreads]

/-- Five CD sectors from the middle of a device sector of 4096 bytes on. -/
theorem massStorReadCD_exact_five :
    ReadCdExact 4096 100 7 5 ↔ ComesOut 4096 7 5 :=
  massStorReadCD_exact_iff (Or.inr (Or.inr (Or.inr rfl))) (by decide) (by decide)

/-- Three CD sectors of a device with sectors of 4096 bytes: the third one is not read. -/
theorem massStorReadCD_leaves_half : ¬ ReadCdExact 4096 0 0 3 := by
  intro hexact
  obtain ⟨t, hrun, hbytes, -⟩ :=
    hexact (fun _ => 0) 0 ⟨fun _ => 1, fun _ => 1, []⟩ rfl
  have hlow := hbytes 4096 (by decide)
  have hvalue :
      (massStorReadCD (fun _ => 0) 4096 0 0 3 0 ⟨fun _ => 1, fun _ => 1, []⟩).map
        (fun t => t.mem (0 + 4096)) = some 1 := by
    decide +kernel
  rw [hrun, Option.map_some, hlow] at hvalue
  exact absurd (Option.some.inj hvalue) (by decide)

end Request

end Usb
end Ps2Cdvd
