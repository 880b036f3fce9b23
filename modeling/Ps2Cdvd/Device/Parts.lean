import Ps2Cdvd.Lib.Memory

/-!
# Multi-part images: `DeviceReadSectors` of the USB and SMB back ends

An image may be stored in several part files of `0x80000` sectors.  The USB and
the SMB back end carry the same loop over the parts; they differ only in the
function that reads from one part, `mass_stor_ReadCD` or `smb_ReadCD`.

The loop keeps six coupled variables.  Two facts describe it:

* as long as the part that holds `lsn` is not reached, an iteration only moves
  the bounds and `offslsn` by one part (`partLoop_skip`);
* the first part read is served at the right offset, but when the range reaches
  the end of that part the loop goes on with an `offslsn` that has not been
  advanced over the sectors already read (`mem_partReads_of_touching`).

So the back ends serve a range exactly when it lies in the last part or ends
before the end of its part (`deviceReadSectors_readsAsOneImage_iff`).
-/

namespace Ps2Cdvd
namespace Parts

open Lib

universe u

section Source

/-- Sectors of a part file (`0x80000`). -/
def partSectors : Nat := 0x80000

/-- `MAX_SMB_SECTORS`. -/
def maxSmbSectors : Nat := 2

/-- A call `ReadCD(offslsn, sectors_to_read, &p[r], i)` of a part reader. -/
structure ReadCD where
  lsn : Nat
  nsectors : Nat
  buf : Nat
  partNum : Nat
deriving DecidableEq

/-- The local variables of `DeviceReadSectors`, with the part reads made. -/
structure PartVars where
  lsn : Nat
  sectors : Nat
  sectorsToRead : Nat
  lbound : Nat
  ubound : Nat
  nlsn : Nat
  offslsn : Nat
  r : Nat
  escFlag : Bool
  calls : List ReadCD
deriving DecidableEq

/-- The body of the loop over the parts, for part `i`. -/
def partBody (i : Nat) (v : PartVars) : PartVars :=
  if v.lbound ≤ v.lsn ∧ v.lsn < v.ubound then
    if u32Sub v.ubound 1 < u32 (v.lsn + v.sectors) then
      let sectorsToRead := u32Sub v.ubound v.lsn
      let sectors := u32Sub v.sectors sectorsToRead
      { v with
        sectors := sectors
        sectorsToRead := sectors
        nlsn := v.ubound
        lsn := v.ubound
        r := u32 (v.r + u32 (sectorsToRead * 2048))
        calls := v.calls ++ [⟨v.offslsn, sectorsToRead, v.r, i⟩] }
    else
      { v with
        escFlag := true
        sectorsToRead := v.sectors
        lsn := v.nlsn
        r := u32 (v.r + u32 (v.sectorsToRead * 2048))
        calls := v.calls ++ [⟨v.offslsn, v.sectorsToRead, v.r, i⟩] }
  else v

/-- `lbound = ubound, ubound += 0x80000, offslsn -= 0x80000`. -/
def partNext (v : PartVars) : PartVars :=
  { v with
    lbound := v.ubound
    ubound := u32 (v.ubound + partSectors)
    offslsn := u32Sub v.offslsn partSectors }

/-- The loop with `n` iterations left, the next one for part `i`. -/
def partLoop : Nat → Nat → PartVars → PartVars
  | 0, _, v => v
  | n + 1, i, v =>
      if (partBody i v).escFlag then partBody i v
      else partLoop n (i + 1) (partNext (partBody i v))

/-- The variables when the loop starts. -/
def partInit (numParts lsn sectors : Nat) : PartVars where
  lsn := lsn
  sectors := sectors
  sectorsToRead := sectors
  lbound := 0
  ubound := if 1 < numParts then partSectors else 0xFFFFFFFF
  nlsn := 0
  offslsn := lsn
  r := 0
  escFlag := false
  calls := []

/-- The part reads of one `DeviceReadSectors(lsn, buffer, sectors)`. -/
def partReads (numParts lsn sectors : Nat) : List ReadCD :=
  (partLoop numParts 0 (partInit numParts lsn sectors)).calls

/-- A call `smb_ReadFile(FIDs[fid], offsetlow, offsethigh, readbuf, nbytes)`. -/
structure ReadFile where
  fid : Nat
  offsetlow : Nat
  offsethigh : Nat
  readbuf : Nat
  nbytes : Nat
deriving DecidableEq

/-- The loop of `smb_ReadCD`; every iteration takes at least one sector, so
`nsectors` iterations are enough. -/
def smbReadLoop (fid : Nat) :
    (fuel offset p nsectors : Nat) → List ReadFile
  | 0, _, _, _ => []
  | fuel + 1, offset, p, nsectors =>
      if 0 < nsectors then
        let sectors := min nsectors maxSmbSectors
        ⟨fid, u32 (offset * 2048), offset / 2097152, p, sectors * 2048⟩ ::
          smbReadLoop fid fuel (u32 (offset + sectors)) (p + sectors * 2048)
            (nsectors - sectors)
      else []

/-- `smb_ReadCD(lsn, nsectors, buf, part_num)`. -/
def smbReadCD (c : ReadCD) : List ReadFile :=
  smbReadLoop c.partNum c.nsectors c.lsn c.buf c.nsectors

/-- `DeviceReadSectors` of `device-usb.c`: its `mass_stor_ReadCD` calls. -/
def usbDeviceReadSectors (numParts lsn sectors : Nat) : List ReadCD :=
  partReads numParts lsn sectors

/-- `DeviceReadSectors` of `device-smb.c`: its `smb_ReadFile` calls. -/
def smbDeviceReadSectors (numParts lsn sectors : Nat) : List ReadFile :=
  (partReads numParts lsn sectors).flatMap smbReadCD

end Source

section Purpose

/-- An image cut into parts of `0x80000` sectors, the last possibly shorter.
`NumParts` is a `u8`. -/
structure PartImage where
  numParts : Nat
  lastLen : Nat
  numParts_pos : 0 < numParts
  numParts_u8 : numParts < 256
  lastLen_pos : 0 < lastLen
  lastLen_le : lastLen ≤ partSectors

/-- Sectors of part `i`. -/
def PartImage.partLen (img : PartImage) (i : Nat) : Nat :=
  if i + 1 = img.numParts then img.lastLen else partSectors

/-- Sectors of the whole image. -/
def PartImage.size (img : PartImage) : Nat :=
  (img.numParts - 1) * partSectors + img.lastLen

/-- The range of a request lies inside the image. -/
def PartImage.Holds (img : PartImage) (lsn sectors : Nat) : Prop :=
  lsn < img.size ∧ lsn + sectors ≤ img.size

instance (img : PartImage) (lsn sectors : Nat) :
    Decidable (img.Holds lsn sectors) :=
  inferInstanceAs (Decidable (_ ∧ _))

/-- `len` bytes of a part file from byte `offset` on, stored at `buf`. -/
structure Fetch where
  part : Nat
  offset : Nat
  buf : Nat
  len : Nat

/-- A successful `mass_stor_ReadCD`. -/
def ReadCD.fetch (c : ReadCD) : Fetch :=
  ⟨c.partNum, 2048 * c.lsn, c.buf, 2048 * c.nsectors⟩

/-- The 64-bit byte offset of an SMB read request. -/
def ReadFile.offset (q : ReadFile) : Nat :=
  q.offsetlow + 4294967296 * q.offsethigh

/-- A successful `smb_ReadFile`. -/
def ReadFile.fetch (q : ReadFile) : Fetch :=
  ⟨q.fid, q.offset, q.readbuf, q.nbytes⟩

variable {β : Type u}

/-- The buffer after successful part reads, one after the other. -/
def fetchAll (file : Nat → Nat → β) : List Fetch → (Nat → β) → Nat → β
  | [], m => m
  | f :: fs, m =>
      fetchAll file fs
        (writeRange m f.buf f.len (fun k => file f.part (f.offset + k)))

/-- The parts are read as one image: block `k` of the buffer is sector
`lsn + k`, and every part read stays inside its part. -/
structure ReadsAsOneImage
    (img : PartImage)
    (file : Nat → Nat → β)
    (lsn sectors : Nat)
    (calls : List ReadCD)
    (fetches : List Fetch) : Prop where
  content :
    ∀ (m : Nat → β) (k j : Nat), k < sectors → j < 2048 →
      fetchAll file fetches m (2048 * k + j) =
        file ((lsn + k) / partSectors)
          (2048 * ((lsn + k) % partSectors) + j)
  inside :
    ∀ c ∈ calls,
      c.partNum < img.numParts ∧
      c.lsn + c.nsectors ≤ img.partLen c.partNum

/-- The USB back end reads the parts as one image. -/
def UsbReadsAsOneImage
    (img : PartImage) (file : Nat → Nat → β) (lsn sectors : Nat) : Prop :=
  ReadsAsOneImage img file lsn sectors
    (usbDeviceReadSectors img.numParts lsn sectors)
    ((usbDeviceReadSectors img.numParts lsn sectors).map ReadCD.fetch)

/-- The SMB back end reads the parts as one image, and the byte offset of each
request is 2048 times a sector of the part. -/
structure SmbReadsAsOneImage
    (img : PartImage) (file : Nat → Nat → β) (lsn sectors : Nat) : Prop where
  reads :
    ReadsAsOneImage img file lsn sectors
      (partReads img.numParts lsn sectors)
      ((smbDeviceReadSectors img.numParts lsn sectors).map ReadFile.fetch)
  requests :
    ∀ q ∈ smbDeviceReadSectors img.numParts lsn sectors,
      ∃ s n, q.offset = 2048 * s ∧ q.nbytes = 2048 * n ∧ 0 < n ∧
        s + n ≤ img.partLen q.fid

/-- The range lies in the last part, or ends before the end of its part. -/
def EndsBeforeBoundary (img : PartImage) (lsn sectors : Nat) : Prop :=
  lsn / partSectors + 1 = img.numParts ∨
    lsn % partSectors + sectors < partSectors

end Purpose

section Loop

/-- The variables before the iteration for part `i`, when no part has been read
yet and there are several parts. -/
def partVarsAt (i lsn sectors : Nat) : PartVars where
  lsn := lsn
  sectors := sectors
  sectorsToRead := sectors
  lbound := i * partSectors
  ubound := (i + 1) * partSectors
  nlsn := 0
  offslsn := lsn - i * partSectors
  r := 0
  escFlag := false
  calls := []

/-- The iterations before the part that holds `lsn` read nothing. -/
theorem partLoop_skip
    (lsn sectors : Nat)
    (hp : lsn / partSectors < 256) :
    ∀ (d n i : Nat), i + d = lsn / partSectors →
      partLoop (d + n) i (partVarsAt i lsn sectors) =
        partLoop n (lsn / partSectors)
          (partVarsAt (lsn / partSectors) lsn sectors) := by
  intro d
  induction d with
  | zero =>
      intro n i hi
      have hip : i = lsn / partSectors := by omega
      rw [hip, Nat.zero_add]
  | succ d ih =>
      intro n i hi
      have hbody :
          partBody i (partVarsAt i lsn sectors) =
            partVarsAt i lsn sectors := by
        have hout : ¬ (i * partSectors ≤ lsn ∧ lsn < (i + 1) * partSectors) := by
          simp only [partSectors] at hi ⊢
          omega
        simp [partBody, partVarsAt, hout]
      have hnext :
          partNext (partVarsAt i lsn sectors) =
            partVarsAt (i + 1) lsn sectors := by
        simp only [partNext, partVarsAt, PartVars.mk.injEq, true_and,
          and_true, u32, u32Sub, partSectors] at hi hp ⊢
        omega
      rw [show d + 1 + n = (d + n) + 1 by omega, partLoop, hbody]
      rw [if_neg (by simp [partVarsAt]), hnext]
      exact ih n (i + 1) (by omega)

/-- A part read stays in the list of reads made. -/
theorem mem_partLoop_of_mem
    {c : ReadCD} :
    ∀ (n i : Nat) (v : PartVars), c ∈ v.calls →
      c ∈ (partLoop n i v).calls := by
  intro n
  induction n with
  | zero =>
      intro _ _ hc
      exact hc
  | succ n ih =>
      intro i v hc
      have hbody : c ∈ (partBody i v).calls := by
        unfold partBody
        split_ifs <;> simp [hc]
      rw [partLoop]
      split_ifs
      · exact hbody
      · exact ih (i + 1) _ hbody

/-- The iteration for the part that holds `lsn` reads from it, at `offslsn`. -/
theorem partBody_reads
    (i : Nat) (v : PartVars)
    (hlow : v.lbound ≤ v.lsn)
    (hhigh : v.lsn < v.ubound) :
    ∃ n, (⟨v.offslsn, n, v.r, i⟩ : ReadCD) ∈ (partBody i v).calls := by
  by_cases hcross : u32Sub v.ubound 1 < u32 (v.lsn + v.sectors)
  · exact ⟨u32Sub v.ubound v.lsn, by simp [partBody, hlow, hhigh, hcross]⟩
  · exact ⟨v.sectorsToRead, by simp [partBody, hlow, hhigh, hcross]⟩

variable {img : PartImage} {lsn sectors : Nat}

theorem PartImage.partLen_le (img : PartImage) (i : Nat) :
    img.partLen i ≤ partSectors := by
  unfold PartImage.partLen
  split_ifs
  · exact img.lastLen_le
  · exact Nat.le_refl _

theorem part_lt_numParts (h : img.Holds lsn sectors) :
    lsn / partSectors < img.numParts := by
  obtain ⟨hlsn, -⟩ := h
  have hle := img.lastLen_le
  have hpos := img.numParts_pos
  simp only [PartImage.size, partSectors] at hlsn hle ⊢
  omega

/-- A range that ends in time stays inside the part that holds `lsn`. -/
theorem le_partLen_of_endsBeforeBoundary
    (h : img.Holds lsn sectors)
    (hends : EndsBeforeBoundary img lsn sectors) :
    lsn % partSectors + sectors ≤ img.partLen (lsn / partSectors) := by
  have hlt := part_lt_numParts h
  have hend := h.2
  have hle := img.lastLen_le
  simp only [PartImage.size, EndsBeforeBoundary, partSectors] at hlt hend hle hends ⊢
  by_cases hlast : lsn / 524288 + 1 = img.numParts
  · rw [PartImage.partLen, if_pos hlast]
    omega
  · rw [PartImage.partLen, if_neg hlast]
    simp only [partSectors]
    omega

/-- The loop from the part that holds `lsn` on. -/
theorem partReads_eq_of_several
    (h : img.Holds lsn sectors)
    (hmany : 1 < img.numParts) :
    partReads img.numParts lsn sectors =
      (partLoop (img.numParts - lsn / partSectors) (lsn / partSectors)
        (partVarsAt (lsn / partSectors) lsn sectors)).calls := by
  have hlt := part_lt_numParts h
  have hu8 := img.numParts_u8
  have hstart : partInit img.numParts lsn sectors = partVarsAt 0 lsn sectors := by
    simp [partInit, partVarsAt, hmany]
  have hskip :=
    partLoop_skip lsn sectors (by omega)
      (lsn / partSectors) (img.numParts - lsn / partSectors) 0 (by omega)
  rw [show lsn / partSectors + (img.numParts - lsn / partSectors) =
    img.numParts by omega] at hskip
  rw [partReads, hstart, hskip]

/-- With one part, or in the last part, or short of the end of the part, the
range is one part read. -/
theorem partReads_eq_single
    (h : img.Holds lsn sectors)
    (hends : EndsBeforeBoundary img lsn sectors) :
    partReads img.numParts lsn sectors =
      [⟨lsn % partSectors, sectors, 0, lsn / partSectors⟩] := by
  have hlt := part_lt_numParts h
  have hle := img.lastLen_le
  have hu8 := img.numParts_u8
  have hpos := img.numParts_pos
  have hend := h.2
  simp only [PartImage.size, EndsBeforeBoundary, partSectors] at hlt hle hend hends
  by_cases hmany : 1 < img.numParts
  · rw [partReads_eq_of_several h hmany]
    simp only [partSectors]
    obtain ⟨n, hn⟩ : ∃ n, img.numParts - lsn / 524288 = n + 1 :=
      ⟨img.numParts - lsn / 524288 - 1, by omega⟩
    have hin :
        lsn / 524288 * 524288 ≤ lsn ∧
          lsn < (lsn / 524288 + 1) * 524288 := by
      omega
    have hoff : lsn - lsn / 524288 * 524288 = lsn % 524288 := by
      omega
    rw [hn, partLoop]
    by_cases hcross : (lsn / 524288 + 1) * 524288 ≤ lsn + sectors
    · -- only the end of the last part can be reached
      have hlast : n = 0 ∧ lsn + sectors = (lsn / 524288 + 1) * 524288 := by
        omega
      have htest :
          u32Sub ((lsn / 524288 + 1) * 524288) 1 < u32 (lsn + sectors) := by
        simp only [u32Sub, u32]
        omega
      have hread : u32Sub ((lsn / 524288 + 1) * 524288) lsn = sectors := by
        simp only [u32Sub, u32]
        omega
      rw [hlast.1]
      simp [partBody, partVarsAt, partSectors, hin, htest, hread, hoff,
        partLoop, partNext]
    · have htest :
          ¬ u32Sub ((lsn / 524288 + 1) * 524288) 1 < u32 (lsn + sectors) := by
        simp only [u32Sub, u32]
        omega
      simp [partBody, partVarsAt, partSectors, hin, htest, hoff]
  · have hone : img.numParts = 1 := by
      omega
    have hsmall : lsn / 524288 = 0 := by
      omega
    have hmod : lsn % 524288 = lsn := by
      omega
    have hin : lsn < 4294967295 := by
      omega
    have htest : ¬ u32Sub 4294967295 1 < u32 (lsn + sectors) := by
      simp only [u32Sub, u32]
      omega
    simp only [partSectors]
    rw [hmod, hsmall, partReads, hone, partLoop]
    simp [partBody, partInit, hin, htest]

/-- A range that reaches the end of a part other than the last one makes a
second part read, and its in-part sector has wrapped below zero. -/
theorem mem_partReads_of_touching
    (h : img.Holds lsn sectors)
    (hends : ¬ EndsBeforeBoundary img lsn sectors) :
    ∃ n r,
      (⟨lsn % partSectors + 4294967296 - partSectors, n, r,
        lsn / partSectors + 1⟩ : ReadCD) ∈
          partReads img.numParts lsn sectors := by
  have hlt := part_lt_numParts h
  have hle := img.lastLen_le
  have hu8 := img.numParts_u8
  have hend := h.2
  simp only [PartImage.size, EndsBeforeBoundary, partSectors] at hlt hle hend hends
  rw [partReads_eq_of_several h (by omega)]
  simp only [partSectors]
  obtain ⟨n, hn⟩ : ∃ n, img.numParts - lsn / 524288 = n + 1 + 1 :=
    ⟨img.numParts - lsn / 524288 - 2, by omega⟩
  have hin :
      lsn / 524288 * 524288 ≤ lsn ∧
        lsn < (lsn / 524288 + 1) * 524288 := by
    omega
  have htest :
      u32Sub ((lsn / 524288 + 1) * 524288) 1 < u32 (lsn + sectors) := by
    simp only [u32Sub, u32]
    omega
  -- the second iteration starts at the first sector of the next part
  have hin' :
      (lsn / 524288 + 1) * 524288 <
        u32 ((lsn / 524288 + 1) * 524288 + 524288) := by
    simp only [u32]
    omega
  have hoff :
      u32Sub (lsn - lsn / 524288 * 524288) 524288 =
        lsn % 524288 + 4294967296 - 524288 := by
    simp only [u32Sub, u32]
    omega
  have hfirst :
      ∃ v, partBody (lsn / 524288) (partVarsAt (lsn / 524288) lsn sectors) = v ∧
        v.escFlag = false ∧
        v.lsn = (lsn / 524288 + 1) * 524288 ∧
        v.ubound = (lsn / 524288 + 1) * 524288 ∧
        v.offslsn = lsn - lsn / 524288 * 524288 := by
    refine ⟨_, rfl, ?_⟩
    simp [partBody, partVarsAt, partSectors, hin, htest]
  obtain ⟨v, hv, hesc, hlsn, hub, hofs⟩ := hfirst
  obtain ⟨m, hmem⟩ :=
    partBody_reads (lsn / 524288 + 1) (partNext v)
      (by simp [partNext, hlsn, hub])
      (by simpa [partNext, hlsn, hub, partSectors] using hin')
  refine ⟨m, v.r, ?_⟩
  have hmem' :
      (⟨lsn % 524288 + 4294967296 - 524288, m, v.r, lsn / 524288 + 1⟩ :
        ReadCD) ∈ (partBody (lsn / 524288 + 1) (partNext v)).calls := by
    simpa [partNext, hofs, partSectors, hoff] using hmem
  rw [hn, partLoop, hv, hesc, if_neg (by simp), partLoop]
  split_ifs
  · exact hmem'
  · exact mem_partLoop_of_mem n _ _ hmem'

end Loop

section SmbRequests

variable {β : Type u} (file : Nat → Nat → β)

/-- The 64-bit offset of a request is 2048 times its sector. -/
theorem smbRequest_offset
    {fid offset p n : Nat} :
    (ReadFile.mk fid (u32 (offset * 2048)) (offset / 2097152) p n).offset =
      2048 * offset := by
  simp only [ReadFile.offset, u32]
  omega

/-- The requests of `smb_ReadCD` bring the sectors asked for, in order. -/
theorem fetchAll_smbReadLoop
    (fid : Nat) :
    ∀ (fuel offset p n : Nat) (m : Nat → β),
      n ≤ fuel → offset + n < 4294967296 →
      fetchAll file ((smbReadLoop fid fuel offset p n).map ReadFile.fetch) m =
        writeRange m p (2048 * n) (fun k => file fid (2048 * offset + k)) := by
  intro fuel
  induction fuel with
  | zero =>
      intro offset p n m hn _
      have hzero : n = 0 := by omega
      subst hzero
      simp [smbReadLoop, fetchAll]
  | succ fuel ih =>
      intro offset p n m hn hlt
      by_cases hpos : 0 < n
      · have hmin : 0 < min n maxSmbSectors ∧ min n maxSmbSectors ≤ n := by
          simp only [maxSmbSectors]
          omega
        have hnext : u32 (offset + min n maxSmbSectors) =
            offset + min n maxSmbSectors := by
          apply u32_of_lt
          omega
        have hrest :=
          ih (offset + min n maxSmbSectors)
            (p + min n maxSmbSectors * 2048) (n - min n maxSmbSectors)
            (writeRange m p (min n maxSmbSectors * 2048)
              (fun k => file fid (2048 * offset + k)))
            (by omega) (by omega)
        have hsplit :=
          writeRange_adjacent m p (min n maxSmbSectors * 2048)
            (2048 * (n - min n maxSmbSectors))
            (fun k => file fid (2048 * offset + k))
        have hlen :
            min n maxSmbSectors * 2048 + 2048 * (n - min n maxSmbSectors) =
              2048 * n := by
          omega
        rw [hlen] at hsplit
        simp only [smbReadLoop, hpos, if_true, List.map_cons, fetchAll, hnext]
        simp only [ReadFile.fetch, smbRequest_offset] at hrest ⊢
        rw [hrest, ← hsplit]
        congr 1
        funext k
        congr 1
        omega
      · have hzero : n = 0 := by omega
        subst hzero
        simp [smbReadLoop, fetchAll]

/-- Every request of `smb_ReadCD` is for whole sectors of the range asked for,
at 2048 times the in-part sector. -/
theorem mem_smbReadLoop
    {fid : Nat} {q : ReadFile} :
    ∀ (fuel offset p n : Nat), offset + n < 4294967296 →
      q ∈ smbReadLoop fid fuel offset p n →
      q.fid = fid ∧
        ∃ s k, q.offset = 2048 * s ∧ q.nbytes = 2048 * k ∧ 0 < k ∧
          s + k ≤ offset + n := by
  intro fuel
  induction fuel with
  | zero =>
      intro _ _ _ _ hq
      simp [smbReadLoop] at hq
  | succ fuel ih =>
      intro offset p n hlt hq
      by_cases hpos : 0 < n
      · have hmin : 0 < min n maxSmbSectors ∧ min n maxSmbSectors ≤ n := by
          simp only [maxSmbSectors]
          omega
        have hnext : u32 (offset + min n maxSmbSectors) =
            offset + min n maxSmbSectors := by
          apply u32_of_lt
          omega
        simp only [smbReadLoop, hpos, if_true, List.mem_cons, hnext] at hq
        rcases hq with rfl | hq
        · exact
            ⟨rfl, offset, min n maxSmbSectors, smbRequest_offset,
              Nat.mul_comm _ _, hmin.1, by omega⟩
        · obtain ⟨hfid, s, k, hs, hk, hk0, hle⟩ :=
            ih _ _ _ (by omega) hq
          exact ⟨hfid, s, k, hs, hk, hk0, by omega⟩
      · simp [smbReadLoop, hpos] at hq

end SmbRequests

section OneImage

variable {β : Type u} {img : PartImage} {lsn sectors : Nat}

/-- One part read that stays inside its part serves the range as the image. -/
theorem readsAsOneImage_single
    (file : Nat → Nat → β)
    {fetches : List Fetch}
    (h : img.Holds lsn sectors)
    (hends : EndsBeforeBoundary img lsn sectors)
    (hfetch :
      ∀ m, fetchAll file fetches m =
        writeRange m 0 (2048 * sectors)
          (fun k => file (lsn / partSectors)
            (2048 * (lsn % partSectors) + k))) :
    ReadsAsOneImage img file lsn sectors
      [⟨lsn % partSectors, sectors, 0, lsn / partSectors⟩] fetches := by
  have hlt := part_lt_numParts h
  have hinside := le_partLen_of_endsBeforeBoundary h hends
  have hle := img.partLen_le (lsn / partSectors)
  refine ⟨?_, ?_⟩
  · intro m k j hk hj
    have hin : 2048 * k + j < 2048 * sectors := by
      omega
    have hget :=
      writeRange_inside m 0
        (fun k => file (lsn / partSectors) (2048 * (lsn % partSectors) + k)) hin
    rw [Nat.zero_add] at hget
    rw [hfetch m, hget]
    have hpart : (lsn + k) / partSectors = lsn / partSectors := by
      simp only [partSectors] at hinside hle ⊢
      omega
    have hsector : (lsn + k) % partSectors = lsn % partSectors + k := by
      simp only [partSectors] at hinside hle ⊢
      omega
    rw [hpart, hsector]
    congr 1
    omega
  · intro c hc
    rw [List.mem_singleton] at hc
    subst hc
    exact ⟨hlt, hinside⟩

/-- The second read of a range that reaches the end of its part lies outside
every part, so no such list of reads serves the range as the image. -/
theorem not_readsAsOneImage_of_touching
    (file : Nat → Nat → β)
    {fetches : List Fetch}
    (h : img.Holds lsn sectors)
    (hends : ¬ EndsBeforeBoundary img lsn sectors) :
    ¬ ReadsAsOneImage img file lsn sectors
        (partReads img.numParts lsn sectors) fetches := by
  intro hreads
  obtain ⟨n, r, hmem⟩ := mem_partReads_of_touching h hends
  obtain ⟨-, hinside⟩ := hreads.inside _ hmem
  have hle := img.partLen_le (lsn / partSectors + 1)
  simp only [partSectors] at hinside hle
  omega

/-- **Multi-part images.** The USB and the SMB back end read a range inside the
image as one image exactly when the range lies in the last part or ends before
the end of its part. -/
theorem deviceReadSectors_readsAsOneImage_iff
    (file : Nat → Nat → β)
    (h : img.Holds lsn sectors) :
    (UsbReadsAsOneImage img file lsn sectors ↔
      EndsBeforeBoundary img lsn sectors) ∧
    (SmbReadsAsOneImage img file lsn sectors ↔
      EndsBeforeBoundary img lsn sectors) := by
  refine ⟨⟨?_, ?_⟩, ⟨?_, ?_⟩⟩
  · intro husb
    by_contra hends
    exact not_readsAsOneImage_of_touching file h hends husb
  · intro hends
    unfold UsbReadsAsOneImage usbDeviceReadSectors
    rw [partReads_eq_single h hends]
    apply readsAsOneImage_single file h hends
    intro m
    simp [fetchAll, ReadCD.fetch]
  · intro hsmb
    by_contra hends
    exact not_readsAsOneImage_of_touching file h hends hsmb.reads
  · intro hends
    have hbound : lsn % partSectors + sectors < 4294967296 := by
      have hle := img.lastLen_le
      have hend := h.2
      have hu8 := img.numParts_u8
      simp only [PartImage.size, partSectors] at hend hle ⊢
      omega
    have hcalls :
        smbDeviceReadSectors img.numParts lsn sectors =
          smbReadLoop (lsn / partSectors) sectors (lsn % partSectors) 0
            sectors := by
      simp [smbDeviceReadSectors, partReads_eq_single h hends, smbReadCD]
    refine ⟨?_, ?_⟩
    · rw [partReads_eq_single h hends, hcalls]
      apply readsAsOneImage_single file h hends
      intro m
      exact
        fetchAll_smbReadLoop file _ sectors _ 0 sectors m (Nat.le_refl _) hbound
    · intro q hq
      rw [hcalls] at hq
      obtain ⟨hfid, s, k, hs, hk, hk0, hle⟩ :=
        mem_smbReadLoop _ _ _ _ hbound hq
      refine ⟨s, k, hs, hk, hk0, ?_⟩
      rw [hfid]
      exact Nat.le_trans hle (le_partLen_of_endsBeforeBoundary h hends)

/-- Two parts of full length. -/
def twoParts : PartImage where
  numParts := 2
  lastLen := partSectors
  numParts_pos := by decide
  numParts_u8 := by decide
  lastLen_pos := by decide
  lastLen_le := Nat.le_refl _

theorem deviceReadSectors_readsAsOneImage_iff_twoParts :
    twoParts.Holds 0x7FFFE 1 ∧
      UsbReadsAsOneImage twoParts (fun _ offset => offset) 0x7FFFE 1 :=
  have h : twoParts.Holds 0x7FFFE 1 := by decide
  ⟨h, (deviceReadSectors_readsAsOneImage_iff (fun _ offset => offset) h).1.2
    (Or.inr (by decide))⟩

/-- Two sectors across the first boundary: the second part is read at sector
`0xFFFFFFFF`. -/
theorem deviceReadSectors_crossing_reads_outside :
    twoParts.Holds 0x7FFFF 2 ∧
      partReads 2 0x7FFFF 2 =
        [⟨0x7FFFF, 1, 0, 0⟩, ⟨0xFFFFFFFF, 1, 2048, 1⟩] ∧
      ¬ UsbReadsAsOneImage twoParts (fun _ offset => offset) 0x7FFFF 2 ∧
      ¬ SmbReadsAsOneImage twoParts (fun _ offset => offset) 0x7FFFF 2 := by
  have hcalls :
      partReads 2 0x7FFFF 2 =
        [⟨0x7FFFF, 1, 0, 0⟩, ⟨0xFFFFFFFF, 1, 2048, 1⟩] := by
    decide
  have hout :
      ∀ fetches,
        ¬ ReadsAsOneImage twoParts (fun _ offset => offset) 0x7FFFF 2
            (partReads 2 0x7FFFF 2) fetches := by
    intro fetches hreads
    have hinside := hreads.inside ⟨0xFFFFFFFF, 1, 2048, 1⟩ (by simp [hcalls])
    revert hinside
    decide
  exact
    ⟨by decide, hcalls, hout _, fun hsmb => hout _ hsmb.reads⟩

end OneImage

end Parts
end Ps2Cdvd
