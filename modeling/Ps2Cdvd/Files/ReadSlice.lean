import Ps2Cdvd.Fsv.ReadEE
import Ps2Cdvd.Iso.Clients

/-!
# `cdrom_read`: a slice of a file

`cdrom_read` serves a range of bytes in three phases: a fragment of the first
sector, through `cdvdman_fs_buf`; whole sectors, straight to the buffer of the
caller; and a fragment of the last sector.  Each phase makes one sector read, and
repeats the `sceCdRead` until it is accepted.  What the read of a phase meets is one
`ReadTurn`: how often it is refused, and the device turns of the read itself.

`int` variables are `Int`, unsigned ones `Nat`; the conversions between them are
written out.

* `Slice`: how far a call has come, and what is true there;
* `Slice.append`: a phase that delivers the next bytes takes a slice further;
* `cdromRead_slice`: the whole call.
-/

namespace Ps2Cdvd
namespace Files

open Lib Read
open Clients (FHandle)

universe u

section Source

/-- A call `sceCdRead(lsn, sectors, buf, NULL)`. -/
structure SceCdRead where
  lsn : Nat
  sectors : Nat
  buf : Nat
  accepted : Bool
deriving DecidableEq

/-- What the sector read of one phase meets. -/
structure ReadTurn where
  refusals : Nat
  device : Nat → DeviceTurn

/-- The drive, and the calls of `sceCdRead` so far. -/
structure FileIo where
  drive : DriveState
  calls : List SceCdRead

/-- Everything outside a call of `cdrom_read`: the settings, the image, the reads,
and the addresses of `cdvdman_buf` and `cdvdman_fs_buf`. -/
structure Setup where
  cfg : Settings
  image : Nat → UInt8
  turn : Nat → ReadTurn
  cdvdmanBuf : Nat
  fsBuf : Nat

/-- `while (sceCdRead(lsn, sectors, buf, NULL) == 0) DelayThread(10000);` up to the
`sceCdSync(0)`, with so many refusals left. -/
def sceCdReadRetried (d : Setup) (device : Nat → DeviceTurn) (lsn sectors buf : Nat) :
    Nat → FileIo → FileIo
  | 0, io =>
      { drive := cdvdmanRead d.cfg d.image device d.cdvdmanBuf lsn sectors buf io.drive
        calls := io.calls ++ [⟨lsn, sectors, buf, true⟩] }
  | refusals + 1, io =>
      sceCdReadRetried d device lsn sectors buf refusals
        { io with calls := io.calls ++ [⟨lsn, sectors, buf, false⟩] }

/-- `mips_memcpy(dst, src, n)`. -/
def FileIo.copy (io : FileIo) (dst src n : Nat) : FileIo :=
  { io with drive := { io.drive with mem := memcpy dst src n io.drive.mem } }

/-- `fh->position` and the variables of `cdrom_read`. -/
structure ReadVars where
  position : Nat
  size : Int
  buf : Nat
  rpos : Int
  io : FileIo

/-- `fh->position += nbytes; size -= nbytes; rpos += nbytes; buf += nbytes;` -/
def ReadVars.advance (v : ReadVars) (nbytes : Nat) (io : FileIo) : ReadVars where
  position := u32 (v.position + nbytes)
  size := s32 (u32Sub (u32OfInt v.size) nbytes)
  buf := v.buf + nbytes
  rpos := s32 (u32 (u32OfInt v.rpos + nbytes))
  io := io

variable (d : Setup) (lsn : Nat)

/-- Phase 1: up to the next multiple of 2048. -/
def readHead (v : ReadVars) : ReadVars :=
  let offset := v.position % 2048
  if offset ≠ 0 then
    let nbytes :=
      if u32OfInt v.size < 2048 - offset then u32OfInt v.size else 2048 - offset
    let io :=
      sceCdReadRetried d (d.turn 1).device (u32 (lsn + v.position / 2048)) 1 d.fsBuf
        (d.turn 1).refusals v.io
    v.advance nbytes (io.copy v.buf (d.fsBuf + offset) nbytes)
  else v

/-- Phase 2: the sectors in the middle. -/
def readMiddle (v : ReadVars) : ReadVars :=
  let nsectors := u32OfInt (v.size.tdiv 2048)
  if 0 < nsectors then
    v.advance (u32 (nsectors * 2048))
      (sceCdReadRetried d (d.turn 2).device (u32 (lsn + v.position / 2048)) nsectors
        v.buf (d.turn 2).refusals v.io)
  else v

/-- Phase 3: what is left. -/
def readTail (v : ReadVars) : ReadVars :=
  let nbytes := u32OfInt v.size
  if 0 < nbytes then
    let io :=
      sceCdReadRetried d (d.turn 3).device (u32 (lsn + v.position / 2048)) 1 d.fsBuf
        (d.turn 3).refusals v.io
    v.advance nbytes (io.copy v.buf d.fsBuf nbytes)
  else v

variable {φ : Type u}

/-- `size`, limited to the rest of the file. -/
def clampSize (fh : FHandle φ) (size : Int) : Int :=
  if fh.filesize < u32 (fh.position + u32OfInt size) then
    s32 (u32Sub fh.filesize fh.position)
  else size

/-- The variables after the test of `size` and the `sceCdDiskReady(0)`. -/
def readStart (fh : FHandle φ) (buf : Nat) (size : Int) (drive : DriveState) :
    ReadVars where
  position := fh.position
  size := clampSize fh size
  buf := buf
  rpos := 0
  io := ⟨Fsv.sceCdDiskReady drive, []⟩

/-- `cdrom_read(f, buf, size)`: the result, the handle, and the drive with the
calls of `sceCdRead` that it has made. -/
def cdromRead (fh : FHandle φ) (buf : Nat) (size : Int) (drive : DriveState) :
    Int × FHandle φ × FileIo :=
  let v := readStart fh buf size drive
  let v := if 0 < v.size then
    readTail d fh.lsn (readMiddle d fh.lsn (readHead d fh.lsn v)) else v
  (v.rpos, { fh with position := v.position }, v.io)

end Source

section Slices

/-- Sectors of a file: `ceil(filesize / 2048)`. -/
def extentSectors (filesize : Nat) : Nat := (filesize + 2047) / 2048

/-- A call whose sectors lie in the extent of the file. -/
def SceCdRead.Inside (lsn filesize : Nat) (c : SceCdRead) : Prop :=
  lsn ≤ c.lsn ∧ c.lsn + c.sectors ≤ lsn + extentSectors filesize

/-- An address in one of the two buffers of the module. -/
def Setup.Own (d : Setup) (x : Nat) : Prop :=
  (d.cdvdmanBuf ≤ x ∧ x < d.cdvdmanBuf + 4096) ∨
    (d.fsBuf ≤ x ∧ x < d.fsBuf + 2048)

/-- The buffers of the module and of the caller, which do not overlap. -/
structure Setup.Apart (d : Setup) (buf n : Nat) : Prop where
  own : d.fsBuf + 2048 ≤ d.cdvdmanBuf ∨ d.cdvdmanBuf + 4096 ≤ d.fsBuf
  cdvdmanBuf : buf + n ≤ d.cdvdmanBuf ∨ d.cdvdmanBuf + 4096 ≤ buf
  fsBuf : buf + n ≤ d.fsBuf ∨ d.fsBuf + 2048 ≤ buf

/-- A file and a range of it to read: `n` bytes from `position` on. -/
structure IsRange (lsn filesize position n : Nat) : Prop where
  notLogo : 13 ≤ lsn
  small : filesize < 2147483648
  inFile : position + n ≤ filesize
  extent : lsn + extentSectors filesize ≤ 4294967296

/-- `k` of the `n` bytes have been read: the variables say so, the bytes are in the
buffer, nothing else has changed outside the buffers of the module, and all reads
lie in the extent. -/
structure Slice
    (d : Setup) (lsn filesize position n buf : Nat) (mem : Nat → UInt8)
    (k : Nat) (v : ReadVars) : Prop where
  le : k ≤ n
  at_position : v.position = position + k
  at_size : v.size = ((n - k : Nat) : Int)
  at_buf : v.buf = buf + k
  at_rpos : v.rpos = (k : Int)
  delivered :
    ∀ x, ¬ d.Own x →
      v.io.drive.mem x =
        writeRange mem buf k (fun i => d.image (2048 * lsn + position + i)) x
  inside : ∀ c ∈ v.io.calls, c.Inside lsn filesize

variable
  {d : Setup} {lsn filesize position n buf k : Nat} {mem : Nat → UInt8}
  {v : ReadVars}

/-- The drive after the read has been accepted. -/
theorem sceCdReadRetried_drive
    (device : Nat → DeviceTurn) (lsn sectors buf refusals : Nat) (io : FileIo) :
    (sceCdReadRetried d device lsn sectors buf refusals io).drive =
      cdvdmanRead d.cfg d.image device d.cdvdmanBuf lsn sectors buf io.drive := by
  induction refusals generalizing io with
  | zero => rfl
  | succ refusals ih => exact ih _

/-- All the calls made until the read is accepted ask for the same sectors. -/
theorem sceCdReadRetried_calls
    (device : Nat → DeviceTurn) (lsn sectors buf refusals : Nat) (io : FileIo)
    {P : SceCdRead → Prop}
    (hio : ∀ c ∈ io.calls, P c)
    (hcall : ∀ accepted, P ⟨lsn, sectors, buf, accepted⟩) :
    ∀ c ∈ (sceCdReadRetried d device lsn sectors buf refusals io).calls, P c := by
  induction refusals generalizing io with
  | zero =>
      intro c hc
      rcases List.mem_append.mp hc with hc | hc
      · exact hio c hc
      · rw [List.mem_singleton.mp hc]
        exact hcall true
  | succ refusals ih =>
      refine ih _ ?_
      intro c hc
      rcases List.mem_append.mp hc with hc | hc
      · exact hio c hc
      · rw [List.mem_singleton.mp hc]
        exact hcall false

/-- A phase that delivers the next `nb` bytes takes the slice further. -/
theorem Slice.append
    {nb : Nat} {io : FileIo}
    (h : Slice d lsn filesize position n buf mem k v)
    (hrange : IsRange lsn filesize position n)
    (hnb : nb ≤ n - k)
    (hmem :
      ∀ x, ¬ d.Own x →
        io.drive.mem x =
          writeRange v.io.drive.mem v.buf nb
            (fun i => d.image (2048 * lsn + v.position + i)) x)
    (hcalls : ∀ c ∈ io.calls, c.Inside lsn filesize) :
    Slice d lsn filesize position n buf mem (k + nb) (v.advance nb io) := by
  have hk := h.le
  have hfile := hrange.inFile
  have hsmall := hrange.small
  have hsize : u32OfInt v.size = n - k := by
    rw [h.at_size]
    exact u32OfInt_natCast (by omega)
  have hrpos : u32OfInt v.rpos = k := by
    rw [h.at_rpos]
    exact u32OfInt_natCast (by omega)
  refine ⟨by omega, ?_, ?_, ?_, ?_, ?_, hcalls⟩
  · show u32 (v.position + nb) = _
    rw [h.at_position, u32_of_lt (by omega), Nat.add_assoc]
  · show s32 (u32Sub (u32OfInt v.size) nb) = _
    rw [hsize, u32Sub_of_le hnb (by omega), s32_of_lt (by omega)]
    congr 1
    omega
  · show v.buf + nb = _
    rw [h.at_buf, Nat.add_assoc]
  · show s32 (u32 (u32OfInt v.rpos + nb)) = _
    rw [hrpos, u32_of_lt (by omega), s32_of_lt (by omega)]
  · intro x hx
    show io.drive.mem x = _
    rw [hmem x hx, h.at_buf, h.at_position, ← writeRange_adjacent]
    simp only [Nat.add_assoc]
    -- the two sides differ in the memory under the last piece
    by_cases hin : buf + k ≤ x ∧ x < buf + k + nb
    · obtain ⟨i, rfl⟩ : ∃ i, x = buf + k + i := ⟨x - (buf + k), by omega⟩
      rw [Nat.add_assoc, ← Nat.add_assoc buf k i,
        writeRange_inside _ _ _ (by omega), writeRange_inside _ _ _ (by omega)]
    · rw [writeRange_outside _ _ (by omega), writeRange_outside _ _ (by omega),
        h.delivered x hx]
      simp only [Nat.add_assoc]

/-- A fragment of one sector, through `cdvdman_fs_buf`. -/
theorem Slice.fragment
    (nb refusals : Nat) {device : Nat → DeviceTurn}
    (h : Slice d lsn filesize position n buf mem k v)
    (hrange : IsRange lsn filesize position n)
    (hapart : d.Apart buf n)
    (hdevice : ∀ t, ¬ (device t).Disturbed)
    (hpos : 0 < nb)
    (hnb : nb ≤ n - k)
    (hsector : v.position % 2048 + nb ≤ 2048) :
    Slice d lsn filesize position n buf mem (k + nb)
      (v.advance nb
        ((sceCdReadRetried d device (u32 (lsn + v.position / 2048)) 1 d.fsBuf
          refusals v.io).copy v.buf (d.fsBuf + v.position % 2048) nb)) := by
  have hk := h.le
  have hfile := hrange.inFile
  have hextent := hrange.extent
  have hlogo := hrange.notLogo
  have hposition := h.at_position
  unfold extentSectors at hextent
  have hlsn : u32 (lsn + v.position / 2048) = lsn + v.position / 2048 :=
    u32_of_lt (by omega)
  rw [hlsn]
  refine h.append hrange hnb ?_ ?_
  · intro x hx
    have hread : ∀ y, (y < d.cdvdmanBuf ∨ d.cdvdmanBuf + 4096 ≤ y) →
        (sceCdReadRetried d device (lsn + v.position / 2048) 1 d.fsBuf refusals
          v.io).drive.mem y =
        writeRange v.io.drive.mem d.fsBuf (2048 * 1)
          (sectorBytes d.image (lsn + v.position / 2048)) y := by
      intro y hy
      rw [sceCdReadRetried_drive]
      exact cdvdmanRead_delivers hdevice (by omega) (by omega)
        (by have := hapart.own; omega) hy
    have hown := hapart.own
    show memcpy v.buf (d.fsBuf + v.position % 2048) nb _ x = _
    unfold memcpy
    by_cases hin : v.buf ≤ x ∧ x < v.buf + nb
    · obtain ⟨i, rfl⟩ : ∃ i, x = v.buf + i := ⟨x - v.buf, by omega⟩
      rw [writeRange_inside _ _ _ (by omega), writeRange_inside _ _ _ (by omega),
        hread _ (by omega), Nat.add_assoc, writeRange_inside _ _ _ (by omega)]
      show d.image _ = d.image _
      congr 1
      omega
    · have hother : ¬ (d.fsBuf ≤ x ∧ x < d.fsBuf + 2048) := fun hfs => hx (Or.inr hfs)
      have hcdvd : ¬ (d.cdvdmanBuf ≤ x ∧ x < d.cdvdmanBuf + 4096) :=
        fun hcd => hx (Or.inl hcd)
      rw [writeRange_outside _ _ (by omega), writeRange_outside _ _ (by omega),
        hread x (by omega), writeRange_outside _ _ (by omega)]
  · refine sceCdReadRetried_calls device _ _ _ refusals v.io h.inside ?_
    intro accepted
    refine ⟨by show lsn ≤ lsn + v.position / 2048; omega, ?_⟩
    show lsn + v.position / 2048 + 1 ≤ lsn + extentSectors filesize
    unfold extentSectors
    omega

/-- Whole sectors, straight to the buffer of the caller. -/
theorem Slice.sectors
    (ns refusals : Nat) {device : Nat → DeviceTurn}
    (h : Slice d lsn filesize position n buf mem k v)
    (hrange : IsRange lsn filesize position n)
    (hapart : d.Apart buf n)
    (hdevice : ∀ t, ¬ (device t).Disturbed)
    (hpos : 0 < ns)
    (hns : 2048 * ns ≤ n - k)
    (haligned : v.position % 2048 = 0) :
    Slice d lsn filesize position n buf mem (k + 2048 * ns)
      (v.advance (2048 * ns)
        (sceCdReadRetried d device (u32 (lsn + v.position / 2048)) ns v.buf
          refusals v.io)) := by
  have hk := h.le
  have hfile := hrange.inFile
  have hextent := hrange.extent
  have hlogo := hrange.notLogo
  have hposition := h.at_position
  unfold extentSectors at hextent
  have hlsn : u32 (lsn + v.position / 2048) = lsn + v.position / 2048 :=
    u32_of_lt (by omega)
  rw [hlsn]
  refine h.append hrange hns ?_ ?_
  · intro x hx
    have hbuf := h.at_buf
    have hcdvdmanBuf := hapart.cdvdmanBuf
    have hcdvd : ¬ (d.cdvdmanBuf ≤ x ∧ x < d.cdvdmanBuf + 4096) :=
      fun hcd => hx (Or.inl hcd)
    rw [sceCdReadRetried_drive,
      cdvdmanRead_delivers hdevice (by omega) (by omega) (by omega) (by omega)]
    refine congrFun (writeRange_congr _ _ _ ?_) x
    intro i _
    show d.image _ = d.image _
    congr 1
    omega
  · refine sceCdReadRetried_calls device _ _ _ refusals v.io h.inside ?_
    intro accepted
    refine ⟨by show lsn ≤ lsn + v.position / 2048; omega, ?_⟩
    show lsn + v.position / 2048 + ns ≤ lsn + extentSectors filesize
    unfold extentSectors
    omega

/-- Phase 1 ends at a multiple of 2048, or at the end of the range. -/
theorem Slice.head
    (h : Slice d lsn filesize position n buf mem 0 v)
    (hrange : IsRange lsn filesize position n)
    (hapart : d.Apart buf n)
    (hdevice : ∀ i t, ¬ ((d.turn i).device t).Disturbed)
    (hn : 0 < n) :
    ∃ k,
      Slice d lsn filesize position n buf mem k (readHead d lsn v) ∧
      ((position + k) % 2048 = 0 ∨ k = n) := by
  have hfile := hrange.inFile
  have hsmall := hrange.small
  have hposition : v.position = position := h.at_position
  have hsize : u32OfInt v.size = n := by
    rw [h.at_size]
    exact u32OfInt_natCast (by omega)
  by_cases hoffset : v.position % 2048 = 0
  · refine ⟨0, ?_, Or.inl (by omega)⟩
    unfold readHead
    rw [if_neg (fun hne => hne hoffset)]
    exact h
  · obtain ⟨nb, hnb⟩ : ∃ nb, nb =
        if u32OfInt v.size < 2048 - v.position % 2048 then u32OfInt v.size
        else 2048 - v.position % 2048 := ⟨_, rfl⟩
    have hmin : nb = min n (2048 - v.position % 2048) := by
      rw [hnb, hsize]
      split_ifs with hlt
      · exact (min_eq_left (le_of_lt hlt)).symm
      · exact (min_eq_right (not_lt.mp hlt)).symm
    unfold readHead
    rw [if_pos hoffset, ← hnb]
    have hslice := h.fragment nb (d.turn 1).refusals hrange hapart (hdevice 1)
      (by omega) (by omega) (by omega)
    rw [Nat.zero_add] at hslice
    exact ⟨nb, hslice, by omega⟩

/-- Phase 2 leaves less than a sector. -/
theorem Slice.middle
    (h : Slice d lsn filesize position n buf mem k v)
    (hrange : IsRange lsn filesize position n)
    (hapart : d.Apart buf n)
    (hdevice : ∀ i t, ¬ ((d.turn i).device t).Disturbed)
    (haligned : (position + k) % 2048 = 0 ∨ k = n) :
    ∃ j,
      Slice d lsn filesize position n buf mem j (readMiddle d lsn v) ∧
      ((position + j) % 2048 = 0 ∨ j = n) ∧ n - j < 2048 := by
  have hfile := hrange.inFile
  have hsmall := hrange.small
  have hposition := h.at_position
  have hquotient : v.size.tdiv 2048 = ((n - k) / 2048 : Nat) := by
    rw [h.at_size, Int.tdiv_eq_ediv_of_nonneg (by omega)]
    omega
  have hsectors : u32OfInt (v.size.tdiv 2048) = (n - k) / 2048 := by
    rw [hquotient]
    exact u32OfInt_natCast (by omega)
  unfold readMiddle
  rw [hsectors]
  by_cases hsome : 0 < (n - k) / 2048
  · have hbytes : u32 ((n - k) / 2048 * 2048) = 2048 * ((n - k) / 2048) := by
      rw [u32_of_lt (by omega), Nat.mul_comm]
    rw [if_pos hsome, hbytes]
    have hslice := h.sectors ((n - k) / 2048) (d.turn 2).refusals hrange hapart
      (hdevice 2) hsome (by omega) (by omega)
    exact ⟨k + 2048 * ((n - k) / 2048), hslice, by omega, by omega⟩
  · rw [if_neg hsome]
    exact ⟨k, h, haligned, by omega⟩

/-- Phase 3 ends the range. -/
theorem Slice.tail
    (h : Slice d lsn filesize position n buf mem k v)
    (hrange : IsRange lsn filesize position n)
    (hapart : d.Apart buf n)
    (hdevice : ∀ i t, ¬ ((d.turn i).device t).Disturbed)
    (haligned : (position + k) % 2048 = 0 ∨ k = n)
    (hrest : n - k < 2048) :
    Slice d lsn filesize position n buf mem n (readTail d lsn v) := by
  have hk := h.le
  have hposition := h.at_position
  have hsize : u32OfInt v.size = n - k := by
    rw [h.at_size]
    exact u32OfInt_natCast (by omega)
  unfold readTail
  rw [hsize]
  by_cases hleft : 0 < n - k
  · rw [if_pos hleft]
    have hzero : v.position % 2048 = 0 := by omega
    have hslice := h.fragment (n - k) (d.turn 3).refusals hrange hapart (hdevice 3)
      hleft (le_refl _) (by omega)
    rw [hzero, Nat.add_zero, Nat.add_sub_cancel' hk] at hslice
    exact hslice
  · have hdone : k = n := by omega
    rw [if_neg hleft]
    subst hdone
    exact h

/-- The size of a call, limited to the rest of the file. -/
theorem clampSize_eq
    {φ : Type u} {fh : FHandle φ} {size : Int}
    (hfilesize : fh.filesize < 2147483648)
    (hposition : fh.position ≤ fh.filesize)
    (hsize : 0 ≤ size)
    (hint : size < 2147483648) :
    clampSize fh size =
      ((min size.toNat (fh.filesize - fh.position) : Nat) : Int) := by
  have hu : u32OfInt size = size.toNat := by
    unfold u32OfInt
    omega
  unfold clampSize
  rw [hu, u32_of_lt (by omega)]
  split_ifs with hlong
  · rw [u32Sub_of_le hposition (by omega), s32_of_lt (by omega)]
    omega
  · omega

/-- **`cdrom_read` returns the right slice of the file.**  For a handle of a file
that lies behind the logo sectors and inside the image, a buffer apart from those of
the module, and device reads that succeed, however often `sceCdRead` is refused: the
result is the number of bytes up to the end of the file; the buffer holds these bytes
of the extent, and nothing else has changed outside the buffers of the module; only
the position of the handle changes, by the result; and all sectors that are read
belong to the extent. -/
theorem cdromRead_slice
    {φ : Type u} {fh : FHandle φ} {buf : Nat} {size : Int} {drive : DriveState}
    (hlsn : 13 ≤ fh.lsn)
    (hextent : fh.lsn + extentSectors fh.filesize ≤ 4294967296)
    (hfilesize : fh.filesize < 2147483648)
    (hposition : fh.position ≤ fh.filesize)
    (hsize : 0 ≤ size)
    (hint : size < 2147483648)
    (hapart : d.Apart buf (min size.toNat (fh.filesize - fh.position)))
    (hdevice : ∀ i t, ¬ ((d.turn i).device t).Disturbed) :
    ∃ n, n = min size.toNat (fh.filesize - fh.position) ∧
      (cdromRead d fh buf size drive).1 = (n : Int) ∧
      (cdromRead d fh buf size drive).2.1 =
        { fh with position := fh.position + n } ∧
      (∀ i, i < n →
        (cdromRead d fh buf size drive).2.2.drive.mem (buf + i) =
          d.image (2048 * fh.lsn + fh.position + i)) ∧
      (∀ x, (x < buf ∨ buf + n ≤ x) → ¬ d.Own x →
        (cdromRead d fh buf size drive).2.2.drive.mem x = drive.mem x) ∧
      ∀ c ∈ (cdromRead d fh buf size drive).2.2.calls,
        c.Inside fh.lsn fh.filesize := by
  obtain ⟨n, hn⟩ : ∃ n, n = min size.toNat (fh.filesize - fh.position) := ⟨_, rfl⟩
  rw [← hn] at hapart
  have hclamp : clampSize fh size = (n : Int) := by
    rw [hn]
    exact clampSize_eq hfilesize hposition hsize hint
  have hrange : IsRange fh.lsn fh.filesize fh.position n :=
    ⟨hlsn, hfilesize, by omega, hextent⟩
  have hstart :
      Slice d fh.lsn fh.filesize fh.position n buf drive.mem 0
        (readStart fh buf size drive) := by
    refine ⟨Nat.zero_le n, rfl, ?_, rfl, rfl, ?_, ?_⟩
    · show clampSize fh size = _
      rw [hclamp, Nat.sub_zero]
    · intro x _
      rw [writeRange_zero]
      rfl
    · intro c hc
      cases hc
  -- the three phases, or none of them
  have hend : ∃ v,
      cdromRead d fh buf size drive =
        (v.rpos, { fh with position := v.position }, v.io) ∧
      Slice d fh.lsn fh.filesize fh.position n buf drive.mem n v := by
    rcases Nat.eq_zero_or_pos n with hzero | hpos
    · subst hzero
      refine ⟨readStart fh buf size drive, ?_, hstart⟩
      have hnone : ¬ 0 < (readStart fh buf size drive).size := by
        show ¬ 0 < clampSize fh size
        rw [hclamp]
        omega
      simp only [cdromRead, if_neg hnone]
    · have hsome : 0 < (readStart fh buf size drive).size := by
        show 0 < clampSize fh size
        rw [hclamp]
        omega
      obtain ⟨k, hhead, hk⟩ := hstart.head hrange hapart hdevice hpos
      obtain ⟨j, hmiddle, hj, hrest⟩ := hhead.middle hrange hapart hdevice hk
      refine ⟨_, ?_, hmiddle.tail hrange hapart hdevice hj hrest⟩
      simp only [cdromRead, if_pos hsome]
  obtain ⟨v, hrun, hslice⟩ := hend
  rw [hrun]
  refine ⟨n, hn, hslice.at_rpos, ?_, ?_, ?_, hslice.inside⟩
  · show ({ fh with position := v.position } : FHandle φ) = _
    rw [hslice.at_position]
  · intro i hi
    have hcdvdmanBuf := hapart.cdvdmanBuf
    have hfsBuf := hapart.fsBuf
    have hown : ¬ d.Own (buf + i) := by
      unfold Setup.Own
      omega
    exact (hslice.delivered _ hown).trans (writeRange_inside _ _ _ hi)
  · intro x hx hown
    exact (hslice.delivered x hown).trans (writeRange_outside _ _ hx)

/-- A drive that does what it is told, after one refusal of every read. -/
def steadySetup : Setup where
  cfg := ⟨0, 0⟩
  image := fun i => UInt8.ofNat (i / 2048)
  turn := fun _ => ⟨1, quietTurns⟩
  cdvdmanBuf := 0x8000
  fsBuf := 0xA000

/-- The last 3000 bytes of a file of 5000, to an unaligned buffer: all three phases
have something to do. -/
theorem cdromRead_slice_steadySetup :
    (cdromRead steadySetup (⟨some (), 20, 5000, 2000⟩ : FHandle Unit) 0x1001 9999
        restingDrive).1 = 3000 ∧
    (cdromRead steadySetup (⟨some (), 20, 5000, 2000⟩ : FHandle Unit) 0x1001 9999
        restingDrive).2.1.position = 5000 ∧
    (cdromRead steadySetup (⟨some (), 20, 5000, 2000⟩ : FHandle Unit) 0x1001 9999
        restingDrive).2.2.drive.mem (0x1001 + 100) = 21 := by
  obtain ⟨n, hn, hresult, hhandle, hbytes, -, -⟩ :=
    @cdromRead_slice steadySetup Unit ⟨some (), 20, 5000, 2000⟩ 0x1001 9999
      restingDrive (by decide) (by decide) (by decide)
      (by decide) (by decide) (by decide)
      ⟨by decide, by decide, by decide⟩
      (fun _ t => quietTurns_undisturbed t)
  have hthree : n = 3000 := hn
  subst hthree
  refine ⟨hresult, ?_, ?_⟩
  · rw [hhandle]
  · rw [hbytes 100 (by decide)]
    decide

end Slices

end Files
end Ps2Cdvd
