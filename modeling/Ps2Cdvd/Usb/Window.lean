import Ps2Cdvd.Usb.ReadAhead

/-!
# The read-ahead window and the size of a sector

`ra_buffer` has room for `SCSI_RA_SECTORS` sectors of 512 bytes.  A read-ahead of `count`
sectors transfers `count * sectorSize` bytes to it, and every read that the window serves
takes that many out of it; but `ra_buffer_pointer` always moves by `count * 512`.

`Window` has the variables of the driver, how many sectors of the window have been taken
out, and the length of every read-ahead transfer.  Every command succeeds.

* `massStorReadSector_vars`: the variables are those of the driver;
* `wantsAhead_iff`: when a call starts a read-ahead;
* `readSector_fits_iff`: what one call does to a window that fits;
* `windowRun_fits_iff`: exactly when the window fits after every call of a sequence.
-/

namespace Ps2Cdvd
namespace Usb

open Lib

section Purpose

/-- The variables, the sectors taken out of the window since it was opened, and the
lengths of the read-ahead transfers. -/
structure Window where
  vars : RaVars
  consumed : Nat
  transfers : List Nat
deriving DecidableEq

def Window.initial : Window where
  vars := RaVars.initial
  consumed := 0
  transfers := []

/-- The arguments `sector` and `count` of a call. -/
structure SectorArgs where
  sector : Nat
  count : Nat
  sector_lt : sector < 4294967296
  count_lt : count < 65536

variable (sectorSize : Nat)

/-- The wait for a read-ahead. -/
def RaVars.waited (v : RaVars) : RaVars := { v with raActive := false }

/-- The window after the read itself. -/
def Window.fetch (sector count : Nat) (w : Window) : Window :=
  if w.vars.waited.hit sector count then
    { w with
      vars := w.vars.waited.consume count
      consumed := w.consumed + count }
  else { w with vars := w.vars.waited }

/-- The window after the read-ahead behind it. -/
def Window.ahead (sector count : Nat) (w : Window) : Window :=
  if w.vars.wantsAhead sector count then
    { vars := w.vars.opened sector count
      consumed := 0
      transfers := w.transfers ++ [count * sectorSize] }
  else w

/-- `mass_stor_readSector(sector, count, …)` -/
def Window.readSector (sector count : Nat) (w : Window) : Window :=
  let w := (w.fetch sector count).ahead sectorSize sector count
  { w with vars := w.vars.noted sector count }

/-- Every read-ahead transfer fits `ra_buffer`; `ra_buffer_pointer` has moved by the bytes
taken out; and what is left of the window lies in `ra_buffer`. -/
structure Window.Fits (w : Window) : Prop where
  transfers : ∀ n ∈ w.transfers, n ≤ scsiRaSectors * 512
  pointer : w.vars.raPos = w.consumed * sectorSize
  inside : w.vars.raPos + w.vars.raCount * sectorSize ≤ scsiRaSectors * 512

/-- The window fits after every call. -/
def AllFit : Window → List SectorArgs → Prop
  | _, [] => True
  | w, c :: rest =>
      (w.readSector sectorSize c.sector c.count).Fits sectorSize ∧
        AllFit (w.readSector sectorSize c.sector c.count) rest

/-- The sectors of a call are at the beginning of the window. -/
def Window.Holds (sector count : Nat) (w : Window) : Prop :=
  w.vars.raSector = sector ∧ count ≤ w.vars.raCount

/-- As many sectors behind those of the call are in the window, too. -/
def Window.HoldsNext (sector count : Nat) (w : Window) : Prop :=
  (w.vars.raSector = sector ∧ 2 * count ≤ w.vars.raCount) ∨
    (¬ w.Holds sector count ∧ w.vars.raSector = u32 (sector + count) ∧
      count ≤ w.vars.raCount)

/-- The call goes on behind the one before, with `SCSI_RA_SECTORS` sectors at most, and the
next ones are not in the window. -/
def Window.GoesOn (sector count : Nat) (w : Window) : Prop :=
  u32 (w.vars.lastSector + w.vars.lastCount) = sector ∧ count ≤ scsiRaSectors ∧
    ¬ w.HoldsNext sector count

/-- The call suits the size of a sector: when it goes on behind the one before, its sectors
have room in `ra_buffer`; and when it does not and its sectors are in the window, it has none
or they are of 512 bytes. -/
def Window.Suits (sector count : Nat) (w : Window) : Prop :=
  (w.GoesOn sector count → count * sectorSize ≤ scsiRaSectors * 512) ∧
  (w.Holds sector count → ¬ w.GoesOn sector count → count = 0 ∨ sectorSize = 512)

/-- Every call suits the window that it finds. -/
def AllSuit : Window → List SectorArgs → Prop
  | _, [] => True
  | w, c :: rest =>
      w.Suits sectorSize c.sector c.count ∧
        AllSuit (w.readSector sectorSize c.sector c.count) rest

end Purpose

section Calls

variable {sectorSize : Nat} {w : Window}

/-- The variables of the window are those of the driver. -/
theorem massStorReadSector_vars
    {disk : Nat → UInt8} {s : RaState}
    (sector count : Nat) (buffer : Nat → UInt8)
    (h : s.vars = w.vars) :
    (massStorReadSector disk sector count buffer s).2.vars =
      (w.readSector sectorSize sector count).vars := by
  have hwait : (s.wait disk).vars = w.vars.waited := by
    rw [← h, RaVars.waited, RaState.wait]
    split_ifs with hactive
    · rfl
    · rw [Bool.not_eq_true] at hactive
      rw [← hactive]
  have hfetch :
      ((s.wait disk).fetch disk sector count buffer).2.vars =
        (w.fetch sector count).vars := by
    rw [RaState.fetch, Window.fetch, hwait]
    split_ifs
    · rfl
    · exact hwait
  have hahead :
      (((s.wait disk).fetch disk sector count buffer).2.ahead sector count).vars =
        ((w.fetch sector count).ahead sectorSize sector count).vars := by
    rw [RaState.ahead, Window.ahead, hfetch]
    split_ifs
    · rfl
    · exact hfetch
  have hnoted :
      (massStorReadSector disk sector count buffer s).2.vars =
        (((s.wait disk).fetch disk sector count buffer).2.ahead sector count).vars.noted
          sector count := rfl
  rw [hnoted, hahead]
  rfl

theorem fits_initial : Window.initial.Fits sectorSize := by
  refine ⟨?_, ?_, ?_⟩
  · intro n hn
    cases hn
  · exact (Nat.zero_mul sectorSize).symm
  · show 0 + 0 * sectorSize ≤ _
    rw [Nat.zero_mul]
    exact Nat.zero_le _

/-- A window just opened. -/
theorem fits_opened_iff
    (h : w.Fits sectorSize)
    {v : RaVars}
    (sector count : Nat) :
    (⟨(v.opened sector count).noted sector count, 0,
          w.transfers ++ [count * sectorSize]⟩ : Window).Fits sectorSize ↔
      count * sectorSize ≤ scsiRaSectors * 512 := by
  constructor
  · intro hfits
    exact hfits.transfers _ (List.mem_append_right _ (List.mem_singleton_self _))
  · intro hsize
    refine ⟨?_, ?_, ?_⟩
    · intro n hn
      rcases List.mem_append.mp hn with hold | hnew
      · exact h.transfers n hold
      · rw [List.mem_singleton.mp hnew]
        exact hsize
    · exact (Nat.zero_mul sectorSize).symm
    · show 0 + count * sectorSize ≤ _
      rw [Nat.zero_add]
      exact hsize

/-- A window out of which sectors were taken. -/
theorem fits_consumed_iff
    (h : w.Fits sectorSize)
    {sector count : Nat}
    (hhit : w.vars.waited.hit sector count = true)
    (hcount : w.vars.raCount < 65536) :
    (⟨(w.vars.waited.consume count).noted sector count, w.consumed + count,
          w.transfers⟩ : Window).Fits sectorSize ↔
      count = 0 ∨ sectorSize = 512 := by
  have hheld : count ≤ w.vars.raCount := (of_decide_eq_true hhit).2
  have hrest : u16 (w.vars.raCount - count) = w.vars.raCount - count :=
    u16_of_lt (by omega)
  have hpointer :
      w.vars.raPos + count * 512 = (w.consumed + count) * sectorSize ↔
        count = 0 ∨ sectorSize = 512 := by
    rw [h.pointer, Nat.add_mul, Nat.add_left_cancel_iff, mul_eq_mul_left_iff]
    constructor
    · rintro (hsize | hnone)
      · exact Or.inr hsize.symm
      · exact Or.inl hnone
    · rintro (hnone | hsize)
      · exact Or.inr hnone
      · exact Or.inl hsize.symm
  constructor
  · intro hfits
    exact hpointer.mp hfits.pointer
  · intro hsize
    refine ⟨h.transfers, hpointer.mpr hsize, ?_⟩
    show w.vars.raPos + count * 512 + u16 (w.vars.raCount - count) * sectorSize ≤ _
    have hinside := h.inside
    have hsplit :
        (w.consumed + count) * sectorSize + (w.vars.raCount - count) * sectorSize =
          w.consumed * sectorSize + w.vars.raCount * sectorSize := by
      rw [← Nat.add_mul, ← Nat.add_mul]
      congr 1
      omega
    rw [hpointer.mpr hsize, hrest, hsplit, ← h.pointer]
    exact hinside

/-- The count of a window is an `unsigned short`. -/
theorem raCount_readSector
    (sectorSize : Nat) (c : SectorArgs)
    (h : w.vars.raCount < 65536) :
    (w.readSector sectorSize c.sector c.count).vars.raCount < 65536 := by
  have hfetch : (w.fetch c.sector c.count).vars.raCount < 65536 := by
    rw [Window.fetch]
    split_ifs
    · exact Nat.mod_lt _ (by decide)
    · exact h
  show ((w.fetch c.sector c.count).ahead sectorSize c.sector c.count).vars.raCount < 65536
  rw [Window.ahead]
  split_ifs
  · exact c.count_lt
  · exact hfetch

theorem hit_iff (sector count : Nat) (w : Window) :
    w.vars.waited.hit sector count = true ↔ w.Holds sector count := by
  rw [RaVars.hit, decide_eq_true_iff]
  exact Iff.rfl

/-- A read-ahead is started behind a call that goes on behind the one before. -/
theorem wantsAhead_iff
    (hcount : w.vars.raCount < 65536)
    (sector count : Nat) :
    (w.fetch sector count).vars.wantsAhead sector count = true ↔ w.GoesOn sector count := by
  have hnext :
      (w.fetch sector count).vars.hit (u32 (sector + count)) count = true ↔
        w.HoldsNext sector count := by
    rw [Window.fetch]
    split_ifs with hhit
    · have hholds := (hit_iff sector count w).mp hhit
      obtain ⟨hsector, hheld⟩ := hholds
      have hrest : u16 (w.vars.raCount - count) = w.vars.raCount - count :=
        u16_of_lt (by omega)
      simp only [Window.HoldsNext, RaVars.hit, RaVars.consume, RaVars.waited, hrest,
        decide_eq_true_eq]
      constructor
      · rintro ⟨-, hleft⟩
        exact Or.inl ⟨hsector, by omega⟩
      · rintro (⟨-, hleft⟩ | ⟨hnot, -⟩)
        · exact ⟨by rw [hsector], by omega⟩
        · exact absurd ⟨hsector, hheld⟩ hnot
    · have hnot := mt (hit_iff sector count w).mpr hhit
      rw [RaVars.hit, decide_eq_true_iff]
      constructor
      · intro hheld
        exact Or.inr ⟨hnot, hheld⟩
      · rintro (⟨hsector, hleft⟩ | ⟨-, hheld⟩)
        · exact absurd ⟨hsector, by omega⟩ hnot
        · exact hheld
  have hlast :
      (w.fetch sector count).vars.lastSector = w.vars.lastSector ∧
        (w.fetch sector count).vars.lastCount = w.vars.lastCount := by
    rw [Window.fetch]
    split_ifs
    · exact ⟨rfl, rfl⟩
    · exact ⟨rfl, rfl⟩
  rw [RaVars.wantsAhead, hlast.1, hlast.2, Bool.and_eq_true, Bool.and_eq_true,
    decide_eq_true_iff, decide_eq_true_iff, Bool.not_eq_true', ← Bool.not_eq_true, hnext,
    and_assoc, and_comm (a := ¬ _)]
  exact Iff.rfl

/-- **What one call does to a window that fits**: it fits afterwards exactly when the call
suits the size of a sector. -/
theorem readSector_fits_iff
    (h : w.Fits sectorSize)
    (hcount : w.vars.raCount < 65536)
    (sector count : Nat) :
    (w.readSector sectorSize sector count).Fits sectorSize ↔
      w.Suits sectorSize sector count := by
  have hkept : (w.fetch sector count).transfers = w.transfers := by
    rw [Window.fetch]
    split_ifs
    · rfl
    · rfl
  cases hahead : (w.fetch sector count).vars.wantsAhead sector count with
  | true =>
      have hstep :
          w.readSector sectorSize sector count =
            ⟨((w.fetch sector count).vars.opened sector count).noted sector count, 0,
              w.transfers ++ [count * sectorSize]⟩ := by
        rw [Window.readSector, Window.ahead, if_pos hahead, hkept]
      have hgoes := (wantsAhead_iff hcount sector count).mp hahead
      rw [hstep, fits_opened_iff h, Window.Suits]
      constructor
      · intro hsize
        exact ⟨fun _ => hsize, fun _ hnot => absurd hgoes hnot⟩
      · rintro ⟨hsize, -⟩
        exact hsize hgoes
  | false =>
      have hnone : ¬ (w.fetch sector count).vars.wantsAhead sector count = true := by
        rw [hahead]
        decide
      have hstays := mt (wantsAhead_iff hcount sector count).mpr hnone
      cases hhit : w.vars.waited.hit sector count with
      | true =>
          have hfetch :
              w.fetch sector count =
                ⟨w.vars.waited.consume count, w.consumed + count, w.transfers⟩ := by
            rw [Window.fetch, if_pos hhit]
          have hstep :
              w.readSector sectorSize sector count =
                ⟨(w.vars.waited.consume count).noted sector count, w.consumed + count,
                  w.transfers⟩ := by
            rw [Window.readSector, Window.ahead, if_neg hnone, hfetch]
          rw [hstep, fits_consumed_iff h hhit hcount, Window.Suits]
          constructor
          · intro hsize
            exact ⟨fun hgoes => absurd hgoes hstays, fun _ _ => hsize⟩
          · rintro ⟨-, hsize⟩
            exact hsize ((hit_iff sector count w).mp hhit) hstays
      | false =>
          have hmiss : ¬ w.vars.waited.hit sector count = true := by
            rw [hhit]
            decide
          have hstep :
              w.readSector sectorSize sector count =
                ⟨w.vars.waited.noted sector count, w.consumed, w.transfers⟩ := by
            rw [Window.readSector, Window.ahead, if_neg hnone, Window.fetch,
              if_neg hmiss]
          rw [hstep, Window.Suits]
          refine iff_of_true ⟨h.transfers, h.pointer, h.inside⟩ ?_
          exact ⟨fun hgoes => absurd hgoes hstays,
            fun hholds => absurd ((hit_iff sector count w).mpr hholds) hmiss⟩

/-- A sequence of calls, from a window that fits on. -/
theorem allFit_iff
    (h : w.Fits sectorSize)
    (hcount : w.vars.raCount < 65536)
    (calls : List SectorArgs) :
    AllFit sectorSize w calls ↔ AllSuit sectorSize w calls := by
  induction calls generalizing w with
  | nil => exact Iff.rfl
  | cons c rest ih =>
      have hone := readSector_fits_iff h hcount c.sector c.count
      have hnext := raCount_readSector sectorSize c hcount
      constructor
      · rintro ⟨hfits, hrest⟩
        exact ⟨hone.mp hfits, (ih hfits hnext).mp hrest⟩
      · rintro ⟨hsuits, hrest⟩
        have hfits := hone.mpr hsuits
        exact ⟨hfits, (ih hfits hnext).mpr hrest⟩

/-- **The window fits `ra_buffer`** after every call of a sequence exactly when every call
suits the size of a sector. -/
theorem windowRun_fits_iff (sectorSize : Nat) (calls : List SectorArgs) :
    AllFit sectorSize Window.initial calls ↔
      AllSuit sectorSize Window.initial calls :=
  allFit_iff fits_initial (by decide) calls

/-- With sectors of 512 bytes every call suits. -/
theorem suits_512 (sector count : Nat) (w : Window) : w.Suits 512 sector count := by
  refine ⟨?_, fun _ _ => Or.inr rfl⟩
  rintro ⟨-, hfew, -⟩
  exact Nat.mul_le_mul_right 512 hfew

/-- Sectors of 4096 bytes, sixteen at a time: the second call starts a read-ahead of 65536
bytes. -/
theorem windowRun_overflows :
    ¬ AllFit 4096 Window.initial
      [⟨0, 16, by decide, by decide⟩, ⟨16, 16, by decide, by decide⟩] := by
  rintro ⟨-, hfits, -⟩
  have hsize := hfits.transfers 65536 (by decide +kernel)
  exact absurd hsize (by decide)

end Calls

end Usb
end Ps2Cdvd
