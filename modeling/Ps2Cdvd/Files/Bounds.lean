import Ps2Cdvd.Files.Table

/-!
# The position of an open file

`cdrom_read` limits its size by `fh->position + size > fh->filesize`, in unsigned
arithmetic that wraps, and takes the limited size as an `int`; `cdrom_lseek` lets the
position wrap and limits it afterwards.  `FileCall` is one of these calls with any
arguments, and what its reads meet.

* `cdromRead_counts`: how far a read comes, for every handle and size;
* `readWithin_iff`: exactly when one read stays in its bounds;
* `fileCalls_within_iff`: exactly when all calls of a sequence do.
-/

namespace Ps2Cdvd
namespace Files

open Lib Read
open Clients (FHandle maxFdhandles)

universe u

section Source

/-- A value of the C type `int`. -/
abbrev CInt : Type := { i : Int // -2147483648 ≤ i ∧ i < 2147483648 }

/-- A call on an open file. -/
inductive FileCall
  | cdromRead (buf : Nat) (size : CInt) (turn : Nat → ReadTurn)
  | cdromLseek (offset whence : CInt)

/-- The result of a call, the handle and the drive after it. -/
structure FileCall.Outcome (φ : Type u) where
  result : Int
  fh : FHandle φ
  drive : DriveState

variable {φ : Type u} (d : Setup)

/-- One call on the handle of the file. -/
def FileCall.run (fh : FHandle φ) (drive : DriveState) : FileCall → Outcome φ
  | .cdromRead buf size turn =>
      let (result, fh, io) := Files.cdromRead { d with turn := turn } fh buf size drive
      ⟨result, fh, io.drive⟩
  | .cdromLseek offset whence =>
      let (result, fh) := Files.cdromLseek fh offset whence
      ⟨result, fh, drive⟩

/-- The call as an operation on the table of open files. -/
def FileCall.op (f : φ) : FileCall → Op φ
  | .cdromRead buf size turn => .cdromRead f buf size turn
  | .cdromLseek offset whence => .cdromLseek f offset whence

end Source

section Purpose

variable {φ : Type u} (d : Setup)

/-- A call stays in its bounds: the position is in the file; a read transfers no more than
`max(size, 0)` bytes and none behind the end of the file, and changes nothing else outside
the buffers of the module. -/
def FileCall.Within (fh : FHandle φ) (drive : DriveState) (c : FileCall) : Prop :=
  (c.run d fh drive).fh.position ≤ fh.filesize ∧
  (c.run d fh drive).fh.filesize = fh.filesize ∧
  match c with
  | .cdromRead buf size _ =>
      (c.run d fh drive).result ≤ max size.val 0 ∧
      (fh.position : Int) + (c.run d fh drive).result ≤ fh.filesize ∧
      ∀ x, ¬ d.Own x →
        (x < buf ∨ (buf : Int) + max (c.run d fh drive).result 0 ≤ x) →
        (c.run d fh drive).drive.mem x = drive.mem x
  | .cdromLseek _ _ => (c.run d fh drive).drive = drive

/-- Every call of the sequence stays in its bounds. -/
def AllWithin : FHandle φ → DriveState → List FileCall → Prop
  | _, _, [] => True
  | fh, drive, c :: rest =>
      c.Within d fh drive ∧
        AllWithin (c.run d fh drive).fh (c.run d fh drive).drive rest

/-- The size of a read suits the position: the end of the range does not pass `2^32`; or
the size is negative, and the wrapped sum does not pass `filesize`, or the difference that
it is replaced by is not a positive `int`. -/
def SizeSuits (fh : FHandle φ) (size : Int) : Prop :=
  (0 ≤ size ∧ (fh.position : Int) + size < 4294967296) ∨
  (size < 0 ∧
    (0 ≤ (fh.position : Int) + size ∨
      (fh.position : Int) + size + 4294967296 ≤ fh.filesize ∨
      fh.position = fh.filesize ∨
      2147483648 ≤ (fh.filesize : Int) - fh.position))

/-- The call is a seek, or a read whose size suits the position. -/
def FileCall.Suits (fh : FHandle φ) : FileCall → Prop
  | .cdromRead _ size _ => SizeSuits fh size
  | .cdromLseek _ _ => True

/-- Every call of the sequence suits the position that it finds. -/
def AllSuit : FHandle φ → DriveState → List FileCall → Prop
  | _, _, [] => True
  | fh, drive, c :: rest =>
      c.Suits fh ∧ AllSuit (c.run d fh drive).fh (c.run d fh drive).drive rest

end Purpose

section Reads

/-- `k` of the `n` bytes have been transferred: the variables say so, and nothing else has
changed outside the buffers of the module. -/
structure Moved
    (d : Setup) (position n buf : Nat) (mem : Nat → UInt8) (k : Nat) (v : ReadVars) :
    Prop where
  le : k ≤ n
  small : n < 2147483648
  at_position : v.position = u32 (position + k)
  at_size : v.size = ((n - k : Nat) : Int)
  at_buf : v.buf = buf + k
  at_rpos : v.rpos = (k : Int)
  frame :
    ∀ x, ¬ d.Own x → (x < buf ∨ buf + k ≤ x) → v.io.drive.mem x = mem x

variable
  {d : Setup} {position n buf k : Nat} {mem : Nat → UInt8} {v : ReadVars}

/-- A phase that transfers `nb` bytes more. -/
theorem Moved.append
    {nb : Nat} {io : FileIo}
    (h : Moved d position n buf mem k v)
    (hnb : nb ≤ n - k)
    (hframe :
      ∀ x, ¬ d.Own x → (x < v.buf ∨ v.buf + nb ≤ x) →
        io.drive.mem x = v.io.drive.mem x) :
    Moved d position n buf mem (k + nb) (v.advance nb io) := by
  have hk := h.le
  have hsmall := h.small
  have hsize : u32OfInt v.size = n - k := by
    rw [h.at_size]
    exact u32OfInt_natCast (by omega)
  have hrpos : u32OfInt v.rpos = k := by
    rw [h.at_rpos]
    exact u32OfInt_natCast (by omega)
  refine ⟨by omega, hsmall, ?_, ?_, ?_, ?_, ?_⟩
  · show u32 (v.position + nb) = _
    rw [h.at_position]
    unfold u32
    omega
  · show s32 (u32Sub (u32OfInt v.size) nb) = _
    rw [hsize, u32Sub_of_le hnb (by omega), s32_of_lt (by omega)]
    congr 1
    omega
  · show v.buf + nb = _
    rw [h.at_buf, Nat.add_assoc]
  · show s32 (u32 (u32OfInt v.rpos + nb)) = _
    rw [hrpos, u32_of_lt (by omega), s32_of_lt (by omega)]
  · intro x hx hout
    have hbuf := h.at_buf
    show io.drive.mem x = mem x
    rw [hframe x hx (by omega), h.frame x hx (by omega)]

/-- What the read of a phase changes outside the buffers of the module. -/
theorem sceCdReadRetried_frame
    {device : Nat → DeviceTurn} {start sectors dest refusals x : Nat} {io : FileIo}
    (hx : ¬ d.Own x)
    (hout : x < dest ∨ dest + 2048 * sectors ≤ x) :
    (sceCdReadRetried d device start sectors dest refusals io).drive.mem x =
      io.drive.mem x := by
  have hcdvd : ¬ (d.cdvdmanBuf ≤ x ∧ x < d.cdvdmanBuf + 4096) :=
    fun hin => hx (Or.inl hin)
  rw [sceCdReadRetried_drive]
  exact cdvdmanRead_frame _ hout (by omega)

/-- A fragment that goes through `cdvdman_fs_buf`. -/
theorem Moved.fragment
    {device : Nat → DeviceTurn} {start refusals src nb : Nat}
    (h : Moved d position n buf mem k v)
    (hnb : nb ≤ n - k) :
    Moved d position n buf mem (k + nb)
      (v.advance nb
        ((sceCdReadRetried d device start 1 d.fsBuf refusals v.io).copy v.buf src
          nb)) := by
  refine h.append hnb ?_
  intro x hx hout
  have hfs : ¬ (d.fsBuf ≤ x ∧ x < d.fsBuf + 2048) := fun hin => hx (Or.inr hin)
  show memcpy v.buf src nb _ x = _
  rw [memcpy, writeRange_outside _ _ hout]
  exact sceCdReadRetried_frame hx (by omega)

/-- Phase 1, which may be the whole call. -/
theorem Moved.head
    (h : Moved d position n buf mem 0 v)
    (lsn : Nat) :
    ∃ k, Moved d position n buf mem k (readHead d lsn v) := by
  have hsmall := h.small
  have hsize : u32OfInt v.size = n := by
    rw [h.at_size]
    exact u32OfInt_natCast (by omega)
  by_cases hoffset : v.position % 2048 = 0
  · refine ⟨0, ?_⟩
    rw [readHead, if_neg (fun hne => hne hoffset)]
    exact h
  · rw [readHead, if_pos hoffset]
    refine ⟨_, h.fragment ?_⟩
    rw [hsize]
    split_ifs <;> omega

/-- Phase 2 leaves less than a sector. -/
theorem Moved.middle
    (h : Moved d position n buf mem k v)
    (lsn : Nat) :
    ∃ j, Moved d position n buf mem j (readMiddle d lsn v) ∧ n - j < 2048 := by
  have hk := h.le
  have hsmall := h.small
  have hquotient : v.size.tdiv 2048 = ((n - k) / 2048 : Nat) := by
    rw [h.at_size, Int.tdiv_eq_ediv_of_nonneg (by omega)]
    omega
  have hsectors : u32OfInt (v.size.tdiv 2048) = (n - k) / 2048 := by
    rw [hquotient]
    exact u32OfInt_natCast (by omega)
  rw [readMiddle, hsectors]
  split_ifs with hsome
  · have hbytes : u32 ((n - k) / 2048 * 2048) = 2048 * ((n - k) / 2048) := by
      rw [u32_of_lt (by omega), Nat.mul_comm]
    rw [hbytes]
    refine ⟨k + 2048 * ((n - k) / 2048), h.append (by omega) ?_, by omega⟩
    intro x hx hout
    exact sceCdReadRetried_frame hx hout
  · exact ⟨k, h, by omega⟩

/-- Phase 3 ends the call. -/
theorem Moved.tail
    (h : Moved d position n buf mem k v)
    (lsn : Nat)
    (hrest : n - k < 2048) :
    Moved d position n buf mem n (readTail d lsn v) := by
  have hk := h.le
  have hsmall := h.small
  have hsize : u32OfInt v.size = n - k := by
    rw [h.at_size]
    exact u32OfInt_natCast (by omega)
  rw [readTail, hsize]
  split_ifs with hleft
  · have hend := @Moved.fragment d position n buf k mem v (d.turn 3).device
      (u32 (lsn + v.position / 2048)) (d.turn 3).refusals d.fsBuf (n - k) h le_rfl
    rw [Nat.add_sub_cancel' hk] at hend
    exact hend
  · have hdone : k = n := by
      omega
    subst hdone
    exact h

variable {φ : Type u} {fh : FHandle φ} {size : Int} {drive : DriveState}

/-- The limited size is an `int`. -/
theorem clampSize_lt
    (fh : FHandle φ)
    (hsize : size < 2147483648) :
    clampSize fh size < 2147483648 := by
  unfold clampSize
  split_ifs
  · have hword := u32_lt (fh.filesize + (4294967296 - fh.position))
    unfold s32 u32Sub
    split_ifs <;> omega
  · exact hsize

/-- **How far a read comes**, for every handle, size and device: it transfers the limited
size when that is positive, and nothing otherwise. -/
theorem cdromRead_counts
    (d : Setup) (buf : Nat) (size : Int) (drive : DriveState)
    (hposition : fh.position < 4294967296)
    (hsize : size < 2147483648) :
    (cdromRead d fh buf size drive).1 = max (clampSize fh size) 0 ∧
    (cdromRead d fh buf size drive).2.1 =
      { fh with position := u32 (fh.position + (clampSize fh size).toNat) } ∧
    ∀ x, ¬ d.Own x → (x < buf ∨ buf + (clampSize fh size).toNat ≤ x) →
      (cdromRead d fh buf size drive).2.2.drive.mem x = drive.mem x := by
  have hlt := clampSize_lt fh hsize
  by_cases hsome : 0 < clampSize fh size
  · have hstart :
        Moved d fh.position (clampSize fh size).toNat buf drive.mem 0
          (readStart fh buf size drive) := by
      refine ⟨Nat.zero_le _, by omega, ?_, ?_, rfl, rfl, fun _ _ _ => rfl⟩
      · exact (u32_of_lt hposition).symm
      · show clampSize fh size = _
        omega
    obtain ⟨k, hhead⟩ := hstart.head fh.lsn
    obtain ⟨j, hmiddle, hrest⟩ := hhead.middle fh.lsn
    have hend := hmiddle.tail fh.lsn hrest
    have hrun : 0 < (readStart fh buf size drive).size := hsome
    simp only [cdromRead, if_pos hrun]
    refine ⟨?_, ?_, hend.frame⟩
    · rw [hend.at_rpos]
      omega
    · rw [hend.at_position]
  · have hzero : (clampSize fh size).toNat = 0 := by
      omega
    have hrun : ¬ 0 < (readStart fh buf size drive).size := hsome
    simp only [cdromRead, if_neg hrun, hzero]
    refine ⟨?_, ?_, fun _ _ _ => rfl⟩
    · show (0 : Int) = _
      omega
    · show ({ fh with position := fh.position } : FHandle φ) = _
      rw [Nat.add_zero, u32_of_lt hposition]

end Reads

section Calls

variable
  {φ : Type u}
  {d : Setup}
  {fh : FHandle φ}
  {drive : DriveState}

/-- The call is the operation of the table of open files on the handle of the file. -/
theorem exec_op
    [DecidableEq φ]
    {s : TableState φ} {f : φ} {slot : Fin maxFdhandles}
    (hslot : s.privdata f = some slot)
    (c : FileCall) :
    exec d s (c.op f) =
      some
        ⟨(c.run d (s.fdhandles slot) s.drive).result, none,
          { s with
            fdhandles :=
              Function.update s.fdhandles slot (c.run d (s.fdhandles slot) s.drive).fh
            drive := (c.run d (s.fdhandles slot) s.drive).drive }⟩ := by
  cases c with
  | cdromRead buf size turn => simp [FileCall.op, exec, hslot, FileCall.run]
  | cdromLseek offset whence => simp [FileCall.op, exec, hslot, FileCall.run]

/-- The limited size of a read, for a position in the file. -/
theorem clampSize_within_iff
    {size : Int}
    (hposition : fh.position ≤ fh.filesize)
    (hfilesize : fh.filesize < 4294967296)
    (hlow : -2147483648 ≤ size)
    (hhigh : size < 2147483648) :
    (max (clampSize fh size) 0 ≤ max size 0 ∧
        (fh.position : Int) + max (clampSize fh size) 0 ≤ fh.filesize) ↔
      SizeSuits fh size := by
  have hrest : u32Sub fh.filesize fh.position = fh.filesize - fh.position :=
    u32Sub_of_le hposition hfilesize
  have hsum :
      (0 ≤ size ∧ (fh.position : Int) + size < 4294967296 ∧
          (u32 (fh.position + u32OfInt size) : Int) = fh.position + size) ∨
        (0 ≤ size ∧ 4294967296 ≤ (fh.position : Int) + size ∧
          (u32 (fh.position + u32OfInt size) : Int) =
            fh.position + size - 4294967296) ∨
        (size < 0 ∧ 0 ≤ (fh.position : Int) + size ∧
          (u32 (fh.position + u32OfInt size) : Int) = fh.position + size) ∨
        (size < 0 ∧ (fh.position : Int) + size < 0 ∧
          (u32 (fh.position + u32OfInt size) : Int) =
            fh.position + size + 4294967296) := by
    unfold u32 u32OfInt
    omega
  rw [clampSize, hrest]
  unfold SizeSuits s32
  rcases hsum with ⟨hpos, hend, heq⟩ | ⟨hpos, hend, heq⟩ | ⟨hneg, hend, heq⟩ |
    ⟨hneg, hend, heq⟩
  · split_ifs <;> omega
  · split_ifs <;> omega
  · split_ifs <;> omega
  · split_ifs <;> omega

/-- **One read stays in its bounds** exactly when its size suits the position. -/
theorem readWithin_iff
    (hposition : fh.position ≤ fh.filesize)
    (hfilesize : fh.filesize < 4294967296)
    (buf : Nat) (size : CInt) (turn : Nat → ReadTurn) :
    (FileCall.cdromRead buf size turn).Within d fh drive ↔ SizeSuits fh size := by
  obtain ⟨hlow, hhigh⟩ := size.property
  obtain ⟨hresult, hfh, hframe⟩ :=
    cdromRead_counts { d with turn := turn } buf size.val drive
      (hposition.trans_lt hfilesize) hhigh
  rw [← clampSize_within_iff hposition hfilesize hlow hhigh]
  simp only [FileCall.Within, FileCall.run]
  rw [hresult, hfh]
  constructor
  · rintro ⟨-, -, hsize, hend, -⟩
    exact ⟨hsize, hend⟩
  · rintro ⟨hsize, hend⟩
    refine ⟨?_, rfl, hsize, hend, ?_⟩
    · show u32 _ ≤ _
      rw [u32_of_lt (by omega)]
      omega
    · intro x hx hout
      exact hframe x hx (by omega)

/-- A seek always stays in its bounds. -/
theorem lseekWithin
    (offset whence : CInt) :
    (FileCall.cdromLseek offset whence).Within d fh drive :=
  ⟨min_le_right _ _, rfl, rfl⟩

/-- One call stays in its bounds exactly when it suits the position. -/
theorem FileCall.within_iff
    (c : FileCall) (d : Setup) (drive : DriveState)
    (hposition : fh.position ≤ fh.filesize)
    (hfilesize : fh.filesize < 4294967296) :
    c.Within d fh drive ↔ c.Suits fh := by
  cases c with
  | cdromRead buf size turn => exact readWithin_iff hposition hfilesize buf size turn
  | cdromLseek offset whence => exact iff_of_true (lseekWithin offset whence) trivial

/-- **All calls on an open file stay in their bounds** exactly when every read of the
sequence has a size that suits the position it finds. -/
theorem fileCalls_within_iff
    (d : Setup) (fh : FHandle φ) (drive : DriveState) (calls : List FileCall)
    (hposition : fh.position ≤ fh.filesize)
    (hfilesize : fh.filesize < 4294967296) :
    AllWithin d fh drive calls ↔ AllSuit d fh drive calls := by
  induction calls generalizing fh drive with
  | nil => exact Iff.rfl
  | cons c rest ih =>
      have hone := c.within_iff d drive hposition hfilesize
      constructor
      · rintro ⟨hwithin, hrest⟩
        have hnext := hwithin.1
        have hsame := hwithin.2.1
        refine ⟨hone.mp hwithin, (ih _ _ ?_ ?_).mp hrest⟩
        · rw [hsame]
          exact hnext
        · rw [hsame]
          exact hfilesize
      · rintro ⟨hsuits, hrest⟩
        have hwithin := hone.mpr hsuits
        have hnext := hwithin.1
        have hsame := hwithin.2.1
        refine ⟨hwithin, (ih _ _ ?_ ?_).mpr hrest⟩
        · rw [hsame]
          exact hnext
        · rw [hsame]
          exact hfilesize

/-- A file of 5000 bytes: two reads and seeks before, behind and to its end. -/
theorem fileCalls_within_steady :
    AllWithin steadySetup (⟨some (), 20, 5000, 0⟩ : FHandle Unit) restingDrive
        [.cdromRead 0x10000 ⟨3000, by decide⟩ steadySetup.turn,
          .cdromLseek ⟨-4000, by decide⟩ ⟨1, by decide⟩,
          .cdromLseek ⟨10, by decide⟩ ⟨2, by decide⟩,
          .cdromRead 0x10000 ⟨9999, by decide⟩ steadySetup.turn] ↔
      AllSuit steadySetup (⟨some (), 20, 5000, 0⟩ : FHandle Unit) restingDrive
        [.cdromRead 0x10000 ⟨3000, by decide⟩ steadySetup.turn,
          .cdromLseek ⟨-4000, by decide⟩ ⟨1, by decide⟩,
          .cdromLseek ⟨10, by decide⟩ ⟨2, by decide⟩,
          .cdromRead 0x10000 ⟨9999, by decide⟩ steadySetup.turn] :=
  fileCalls_within_iff steadySetup ⟨some (), 20, 5000, 0⟩ restingDrive _ (by decide)
    (by decide)

/-- A read of -1 bytes at the start of a file of 5000 transfers the whole file. -/
theorem cdromRead_negative :
    ¬ AllWithin steadySetup (⟨some (), 20, 5000, 0⟩ : FHandle Unit) restingDrive
      [.cdromRead 0x10000 ⟨-1, by decide⟩ steadySetup.turn] := by
  rintro ⟨⟨-, -, hsize, -⟩, -⟩
  exact absurd hsize (by decide +kernel)

end Calls

end Files
end Ps2Cdvd
