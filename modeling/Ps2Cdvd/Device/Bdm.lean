import Ps2Cdvd.Read.Sectors

/-!
# The BDM back end: one read request

`DeviceReadSectors` of `device-bdm.c` turns 2048-byte sectors into sectors of a
block device and makes one `bd->read` call.  The number of device sectors is
kept in 16 bits, and the result of `bd->read` is not looked at.

What a request does to the block device is the list of its `bd->read` calls,
each with the number of sectors that the device says it has read.  They are the
device calls that the loop of `cdvdman_read_sectors` logs, one `bd->read` each.

* `bdReads_loop`: the calls of an undisturbed request cover its range if and only
  if every single one is whole;
* `deviceReadSectors_whole_iff`: exactly when success is only reported for a
  range that was read, for one call and for `cdvdman_read_sectors`.
-/

namespace Ps2Cdvd
namespace Bdm

open Lib Read

section Source

/-- A call `bd->read(bd, sector, buffer, count)` and its result. -/
structure BdRead where
  sector : Nat
  buffer : Nat
  count : Nat
  result : Int
deriving DecidableEq

/-- `2048 / bd->sectorSize`, which `bdm_connect_bd` stores. -/
def sectorsPerSector (sectorSize : Nat) : Nat := 2048 / sectorSize

/-- The call that `DeviceReadSectors(lsn, buffer, sectors)` makes, where
`bd->read` gives `result`. -/
def bdRead (lba0 ratio lsn buffer sectors : Nat) (result : Int) : BdRead where
  sector := u32 (lba0 + u32 (lsn * ratio))
  buffer := buffer
  count := u16 (u32 (sectors * ratio))
  result := result

/-- `DeviceReadSectors(lsn, buffer, sectors)`: its result, and its call. -/
def deviceReadSectors
    (lba0 ratio lsn buffer sectors : Nat) (result : Int) : Int × BdRead :=
  (0, bdRead lba0 ratio lsn buffer sectors result)

/-- What one turn of the loop in `cdvdman_read_sectors` meets outside it: the
places of an `sceCdBreak`, as in `DeviceTurn`, and the result of `bd->read`. -/
structure BdTurn where
  breakStart : Bool
  breakBefore : Bool
  breakBetween : Bool
  result : Int
  breakAfter : Bool

/-- The turn as the loop sees it: `DeviceReadSectors` gives 0, so no call fails. -/
def BdTurn.toDevice (out : BdTurn) : DeviceTurn where
  breakStart := out.breakStart
  breakBefore := out.breakBefore
  breakBetween := out.breakBetween
  fails := false
  breakAfter := out.breakAfter
  junk := fun _ => 0

variable (cfg : Settings) (lba0 ratio : Nat) (env : Nat → BdTurn)

/-- The calls of `bd->read` that the device calls of a loop make, from turn `t` and
the buffer `ptr` on.  Every turn that goes on makes one device call, behind the
last one. -/
def bdReads : (t ptr : Nat) → List ReadEvent → List BdRead
  | _, _, [] => []
  | t, ptr, .brk :: events => bdReads t ptr events
  | t, ptr, .call lsn n _ :: events =>
      (deviceReadSectors lba0 ratio lsn ptr n (env t).result).2 ::
        bdReads (t + 1) (ptr + 2048 * n) events

/-- `cdvdman_read_sectors(lsn, sectors, buf)`, as a request of its own; what it does
to the bytes that were read is left to the other back ends. -/
def cdvdmanReadSectors (lsn sectors buf : Nat) : DriveState :=
  Read.cdvdmanReadSectors cfg (fun _ => 0) (fun t => (env t).toDevice) lsn sectors buf
    restingDrive

/-- The calls of `bd->read` of such a request. -/
def requestReads (lsn sectors buf : Nat) : List BdRead :=
  bdReads lba0 ratio env 0 buf (cdvdmanReadSectors cfg env lsn sectors buf).events

end Source

section Purpose

/-- The call has stored the device sector `k` at `addr`: the device reads the
first `result` of the sectors it is asked for. -/
def BdRead.Stores (rd : BdRead) (sectorSize k addr : Nat) : Prop :=
  ∃ j, j < rd.count ∧ (j : Int) < rd.result ∧
    k = rd.sector + j ∧ addr = rd.buffer + sectorSize * j

/-- The device sectors `sector, …, sector + n - 1` were all read, one behind the
other, to the memory from `buffer` on. -/
def AllRead
    (sectorSize : Nat) (log : List BdRead) (sector buffer n : Nat) : Prop :=
  ∀ j, j < n → ∃ rd ∈ log, rd.Stores sectorSize (sector + j)
    (buffer + sectorSize * j)

/-- The number of device sectors fits 16 bits, and the device has read as many. -/
def Whole (ratio sectors : Nat) (result : Int) : Prop :=
  sectors = 0 ∨
    (sectors * ratio < 65536 ∧ ((sectors * ratio : Nat) : Int) ≤ result)

/-- The sectors of turn `t` of a request that is not stopped. -/
def turnSectors (cfg : Settings) (sectors t : Nat) : Nat :=
  if cfg.has iopcoreCompatAccuReads then min (sectors - 8 * t) 8 else sectors

/-- A break arrives in the turn, and is not cleared. -/
def BdTurn.Broken (out : BdTurn) : Prop :=
  out.breakBefore = true ∨ out.breakBetween = true ∨ out.breakAfter = true

end Purpose

section Calls

variable {sectorSize : Nat}

/-- A call stores nothing outside the range it is asked for. -/
theorem bdRead_stores_within
    {lba0 ratio lsn buffer sectors k addr : Nat} {result : Int}
    (hrange : lba0 + (lsn + sectors) * ratio < 4294967296)
    (h : (bdRead lba0 ratio lsn buffer sectors result).Stores sectorSize k addr) :
    lba0 + lsn * ratio ≤ k ∧ k < lba0 + lsn * ratio + sectors * ratio := by
  obtain ⟨j, hj, -, hk, -⟩ := h
  rw [Nat.add_mul] at hrange
  simp only [bdRead] at hj hk
  rw [u32_of_lt (by omega)] at hj
  rw [u32_of_lt (by omega : lsn * ratio < 4294967296),
    u32_of_lt (by omega)] at hk
  have hcount : u16 (sectors * ratio) ≤ sectors * ratio := Nat.mod_le _ _
  omega

/-- A call reads its range if and only if it is whole. -/
theorem bdRead_all_iff
    {lba0 ratio lsn sectors : Nat}
    (hratio : 0 < ratio)
    (hrange : lba0 + (lsn + sectors) * ratio < 4294967296)
    (buffer : Nat) (result : Int) :
    (∀ j, j < sectors * ratio →
      (bdRead lba0 ratio lsn buffer sectors result).Stores sectorSize
        (lba0 + lsn * ratio + j) (buffer + sectorSize * j)) ↔
      Whole ratio sectors result := by
  rw [Nat.add_mul] at hrange
  have hsector : u32 (lba0 + u32 (lsn * ratio)) = lba0 + lsn * ratio := by
    rw [u32_of_lt (by omega : lsn * ratio < 4294967296), u32_of_lt (by omega)]
  have hcount : u32 (sectors * ratio) = sectors * ratio := u32_of_lt (by omega)
  rcases Nat.eq_zero_or_pos sectors with rfl | hpos
  · constructor
    · intro _
      exact Or.inl rfl
    · intro _ j hj
      omega
  have hpositive : 0 < sectors * ratio := Nat.mul_pos hpos hratio
  constructor
  · intro hall
    -- the last sector of the range decides
    obtain ⟨j, hj, hresult, hk, -⟩ := hall (sectors * ratio - 1) (by omega)
    simp only [bdRead, hsector, hcount] at hj hresult hk
    have hle : u16 (sectors * ratio) ≤ sectors * ratio := Nat.mod_le _ _
    have hlt : u16 (sectors * ratio) < 65536 := Nat.mod_lt _ (by omega)
    exact Or.inr ⟨by omega, by omega⟩
  · rintro (hzero | ⟨hfits, hread⟩) j hj
    · omega
    · refine ⟨j, ?_, by simp only [bdRead]; omega, ?_, rfl⟩
      · simp only [bdRead, hcount]
        rw [u16_of_lt hfits]
        exact hj
      · simp only [bdRead, hsector]

/-- The first call of a log covers the first part of the range, and the others
cover the rest. -/
theorem allRead_cons_iff
    {rd : BdRead} {log : List BdRead} {sector buffer a b : Nat}
    (hfirst : ∀ k addr, rd.Stores sectorSize k addr → k < sector + a)
    (hrest :
      ∀ rd' ∈ log, ∀ k addr, rd'.Stores sectorSize k addr → sector + a ≤ k) :
    AllRead sectorSize (rd :: log) sector buffer (a + b) ↔
      (∀ j, j < a → rd.Stores sectorSize (sector + j) (buffer + sectorSize * j)) ∧
        AllRead sectorSize log (sector + a) (buffer + sectorSize * a) b := by
  constructor
  · intro hall
    constructor
    · intro j hj
      obtain ⟨rd', hmem, hstores⟩ := hall j (by omega)
      rcases List.mem_cons.mp hmem with rfl | hlog
      · exact hstores
      · have hle := hrest rd' hlog _ _ hstores
        omega
    · intro j hj
      obtain ⟨rd', hmem, hstores⟩ := hall (a + j) (by omega)
      rcases List.mem_cons.mp hmem with rfl | hlog
      · have hlt := hfirst _ _ hstores
        omega
      · refine ⟨rd', hlog, ?_⟩
        rw [Nat.mul_add, ← Nat.add_assoc, ← Nat.add_assoc] at hstores
        exact hstores
  · rintro ⟨hhead, htail⟩ j hj
    by_cases hin : j < a
    · exact ⟨rd, List.mem_cons_self, hhead j hin⟩
    · obtain ⟨rd', hlog, hstores⟩ := htail (j - a) (by omega)
      refine ⟨rd', List.mem_cons_of_mem _ hlog, ?_⟩
      have hsplit : j = a + (j - a) := by
        omega
      rw [hsplit, Nat.mul_add, ← Nat.add_assoc, ← Nat.add_assoc]
      exact hstores

end Calls

section Turns

variable {cfg : Settings}

theorem turnSectors_zero (remaining : Nat) :
    turnSectors cfg remaining 0 = sectorsToRead cfg remaining := by
  unfold turnSectors sectorsToRead
  split_ifs
  · rfl
  · rfl

/-- The later turns are those of the rest. -/
theorem turnSectors_succ
    {remaining t : Nat}
    (ht : t < turnsOf cfg (remaining - sectorsToRead cfg remaining)) :
    turnSectors cfg remaining (t + 1) =
      turnSectors cfg (remaining - sectorsToRead cfg remaining) t := by
  unfold turnsOf sectorsToRead at ht
  unfold turnSectors sectorsToRead
  split_ifs at ht ⊢ with haccu hzero
  · omega
  · omega
  · omega

variable {image : Nat → UInt8} {lba0 ratio : Nat} {env : Nat → BdTurn}

/-- The loop of the other back ends, over a block device. -/
abbrev readLoop (cfg : Settings) (image : Nat → UInt8) (env : Nat → BdTurn) :
    (fuel lsn ptr remaining : Nat) → DriveState → DriveState :=
  cdvdmanReadLoop cfg image (fun t => (env t).toDevice)

/-- A turn without a break makes its call and goes on. -/
theorem readLoop_succ
    {fuel lsn ptr remaining : Nat} {s : DriveState}
    (hpos : 0 < remaining)
    (herr : s.err = cdvdErrNo)
    (hquiet : ¬ (env s.turn).Broken) :
    readLoop cfg image env (fuel + 1) lsn ptr remaining s =
      readLoop cfg image env fuel (u32 (lsn + sectorsToRead cfg remaining))
        (ptr + 2048 * sectorsToRead cfg remaining)
        (remaining - sectorsToRead cfg remaining)
        (afterCall image lsn ptr (sectorsToRead cfg remaining) s) := by
  simp only [BdTurn.Broken, not_or, Bool.not_eq_true] at hquiet
  obtain ⟨hbefore, hbetween, hafter⟩ := hquiet
  rw [readLoop, cdvdmanReadLoop_turn herr hpos]
  simp [BdTurn.toDevice, hbefore, hbetween, hafter, breakIf]

/-- An error stops the request. -/
theorem readLoop_error
    (fuel lsn ptr remaining : Nat) {s : DriveState}
    (h : s.err ≠ cdvdErrNo) :
    (readLoop cfg image env fuel lsn ptr remaining s).err ≠ cdvdErrNo := by
  rw [readLoop, cdvdmanReadLoop_error h]
  split_ifs
  · exact breakIf_error _ h
  · exact h

/-- A break stops the request with its error. -/
theorem readLoop_broken
    (fuel lsn ptr remaining : Nat) (s : DriveState)
    (hfuel : remaining ≤ fuel)
    (herr : s.err = cdvdErrNo)
    (hbroken : ∃ t, t < turnsOf cfg remaining ∧ (env (s.turn + t)).Broken) :
    (readLoop cfg image env fuel lsn ptr remaining s).err ≠ cdvdErrNo := by
  induction fuel generalizing lsn ptr remaining s with
  | zero =>
      obtain ⟨t, ht, -⟩ := hbroken
      have hzero : remaining = 0 := by
        omega
      subst hzero
      simp at ht
  | succ fuel ih =>
      obtain ⟨t, ht, hbreak⟩ := hbroken
      rcases Nat.eq_zero_or_pos remaining with rfl | hpos
      · simp at ht
      have hsome : 0 < sectorsToRead cfg remaining := sectorsToRead_pos hpos
      by_cases hfirst : (env s.turn).Broken
      · rw [readLoop, cdvdmanReadLoop_turn herr hpos]
        split_ifs with hbefore hfails
        · exact cdvdErrAbrt_ne
        · cases hfails
        · -- the next turn, if there is one, finds the error
          have hlate :
              (breakIf (env s.turn).toDevice.breakAfter
                (afterCall image lsn ptr (sectorsToRead cfg remaining)
                  (breakIf (env s.turn).toDevice.breakBetween s))).err ≠ cdvdErrNo := by
            rcases hfirst with h | h | h
            · exact absurd h hbefore
            · have hbetween : (env s.turn).toDevice.breakBetween = true := h
              refine breakIf_error _ ?_
              rw [afterCall, breakIf_err, if_pos hbetween]
              exact cdvdErrAbrt_ne
            · have hafter : (env s.turn).toDevice.breakAfter = true := h
              rw [breakIf_err, if_pos hafter]
              exact cdvdErrAbrt_ne
          exact readLoop_error _ _ _ _ hlate
      · rw [readLoop_succ hpos herr hfirst]
        apply ih
        · omega
        · exact herr
        · cases t with
          | zero => exact absurd hbreak hfirst
          | succ t =>
              rw [turnsOf_succ hpos] at ht
              refine ⟨t, by omega, ?_⟩
              show (env (s.turn + 1 + t)).Broken
              rwa [show s.turn + 1 + t = s.turn + (t + 1) by omega]

end Turns

section Requests

variable
  {cfg : Settings} {image : Nat → UInt8} {lba0 ratio sectorSize : Nat}
  {env : Nat → BdTurn}

/-- The calls of a request without breaks cover its range if and only if every
one is whole. -/
theorem bdReads_loop
    (hsize : sectorSize * ratio = 2048)
    (fuel lsn ptr remaining : Nat) (s : DriveState)
    (hfuel : remaining ≤ fuel)
    (herr : s.err = cdvdErrNo)
    (hrange : lba0 + (lsn + remaining) * ratio < 4294967296)
    (hquiet : ∀ t, t < turnsOf cfg remaining → ¬ (env (s.turn + t)).Broken) :
    ∃ events,
      (readLoop cfg image env fuel lsn ptr remaining s).events =
        s.events ++ events ∧
      (∀ rd ∈ bdReads lba0 ratio env s.turn ptr events,
        ∀ k addr, rd.Stores sectorSize k addr → lba0 + lsn * ratio ≤ k) ∧
      (AllRead sectorSize (bdReads lba0 ratio env s.turn ptr events)
          (lba0 + lsn * ratio) ptr (remaining * ratio) ↔
        ∀ t, t < turnsOf cfg remaining →
          Whole ratio (turnSectors cfg remaining t)
            (env (s.turn + t)).result) := by
  have hratio : 0 < ratio := by
    rcases Nat.eq_zero_or_pos ratio with rfl | h
    · omega
    · exact h
  induction fuel generalizing lsn ptr remaining s with
  | zero =>
      have hzero : remaining = 0 := by
        omega
      subst hzero
      refine ⟨[], by simp [cdvdmanReadLoop], by simp [bdReads], ?_⟩
      simp [AllRead]
  | succ fuel ih =>
      rcases Nat.eq_zero_or_pos remaining with rfl | hpos
      · refine ⟨[], by simp [cdvdmanReadLoop_zero], by simp [bdReads], ?_⟩
        simp [AllRead]
      obtain ⟨n, hn⟩ : ∃ n, n = sectorsToRead cfg remaining := ⟨_, rfl⟩
      have hnpos : 0 < n := hn ▸ sectorsToRead_pos hpos
      have hnle : n ≤ remaining := hn ▸ sectorsToRead_le remaining
      have hturns := @turnsOf_succ cfg remaining hpos
      have hfirst : ¬ (env s.turn).Broken := hquiet 0 (by omega)
      have hprod : (lsn + n) * ratio ≤ (lsn + remaining) * ratio :=
        Nat.mul_le_mul_right _ (by omega)
      have hlsn : lsn + n < 4294967296 := by
        have hle : (lsn + n) * 1 ≤ (lsn + n) * ratio :=
          Nat.mul_le_mul_left _ hratio
        omega
      have hwhole : lsn + n + (remaining - n) = lsn + remaining := by
        omega
      rw [readLoop_succ hpos herr hfirst, ← hn, u32_of_lt hlsn]
      rw [← hn] at hturns
      obtain ⟨events, hlog, hwithin, hiff⟩ :=
        ih (lsn + n) (ptr + 2048 * n) (remaining - n) (afterCall image lsn ptr n s)
          (by omega) herr (by rw [hwhole]; exact hrange)
          (by
            intro t ht
            have hlater := hquiet (t + 1) (by omega)
            rwa [show s.turn + (t + 1) = s.turn + 1 + t by omega] at hlater)
      have hturn : (afterCall image lsn ptr n s).turn = s.turn + 1 := rfl
      rw [hturn] at hwithin hiff
      have hreads :
          bdReads lba0 ratio env s.turn ptr (.call lsn n true :: events) =
            bdRead lba0 ratio lsn ptr n (env s.turn).result ::
              bdReads lba0 ratio env (s.turn + 1) (ptr + 2048 * n) events :=
        rfl
      refine ⟨.call lsn n true :: events, ?_, ?_, ?_⟩
      · rw [hlog]
        simp [afterCall]
      · rw [hreads]
        intro rd hrd k addr hstores
        rcases List.mem_cons.mp hrd with rfl | hrd
        · exact (bdRead_stores_within (by omega) hstores).1
        · have hle := hwithin rd hrd k addr hstores
          rw [Nat.add_mul] at hle
          omega
      · have hsplit : remaining * ratio = n * ratio + (remaining - n) * ratio := by
          rw [← Nat.add_mul]
          congr 1
          omega
        have hbytes : 2048 * n = sectorSize * (n * ratio) := by
          rw [← hsize]
          ring
        rw [hreads, hsplit, allRead_cons_iff]
        · rw [bdRead_all_iff hratio (by omega)]
          rw [Nat.add_mul, ← Nat.add_assoc] at hiff
          rw [← hbytes, hiff, hturns]
          have hlater :
              ∀ t, t < turnsOf cfg (remaining - n) →
                turnSectors cfg remaining (t + 1) =
                  turnSectors cfg (remaining - n) t := by
            intro t ht
            have h := @turnSectors_succ cfg remaining t (by rwa [← hn])
            rwa [← hn] at h
          constructor
          · rintro ⟨hhead, htail⟩ t ht
            cases t with
            | zero =>
                rw [turnSectors_zero, ← hn]
                exact hhead
            | succ t =>
                have hmore : t < turnsOf cfg (remaining - n) := by
                  omega
                rw [hlater t hmore, show s.turn + (t + 1) = s.turn + 1 + t by omega]
                exact htail t hmore
          · intro hall
            constructor
            · have hhead := hall 0 (by omega)
              rwa [turnSectors_zero, ← hn] at hhead
            · intro t ht
              have htail := hall (t + 1) (by omega)
              rwa [hlater t ht,
                show s.turn + (t + 1) = s.turn + 1 + t by omega] at htail
        · intro k addr hstores
          exact (bdRead_stores_within (by omega) hstores).2
        · intro rd hrd k addr hstores
          have hle := hwithin rd hrd k addr hstores
          rw [Nat.add_mul] at hle
          omega

/-- A request without breaks ends without an error, whatever the device does. -/
theorem readLoop_err
    (fuel lsn ptr remaining : Nat) (s : DriveState)
    (hfuel : remaining ≤ fuel)
    (herr : s.err = cdvdErrNo)
    (hquiet : ∀ t, t < turnsOf cfg remaining → ¬ (env (s.turn + t)).Broken) :
    (readLoop cfg image env fuel lsn ptr remaining s).err = cdvdErrNo := by
  induction fuel generalizing lsn ptr remaining s with
  | zero => exact herr
  | succ fuel ih =>
      rcases Nat.eq_zero_or_pos remaining with rfl | hpos
      · rw [readLoop, cdvdmanReadLoop_zero]
        exact herr
      have hsome : 0 < sectorsToRead cfg remaining := sectorsToRead_pos hpos
      have hturns := @turnsOf_succ cfg remaining hpos
      rw [readLoop_succ hpos herr (hquiet 0 (by omega))]
      apply ih
      · omega
      · exact herr
      · intro t ht
        have hlater := hquiet (t + 1) (by omega)
        rwa [show s.turn + (t + 1) = s.turn + 1 + t by omega] at hlater

/-- A break before the clearing of the error makes no difference to the loop. -/
theorem cdvdmanReadSectors_loop
    (lsn sectors buf : Nat) :
    ∃ s : DriveState,
      s.err = cdvdErrNo ∧ s.turn = 0 ∧
        (∀ t ptr events,
          bdReads lba0 ratio env t ptr (s.events ++ events) =
            bdReads lba0 ratio env t ptr events) ∧
        cdvdmanReadSectors cfg env lsn sectors buf =
          readLoop cfg (fun _ => 0) env sectors lsn buf sectors s := by
  refine ⟨cleared (env 0).breakStart restingDrive, rfl, cleared_turn _ _, ?_, rfl⟩
  intro t ptr events
  rw [cleared_events]
  cases (env 0).breakStart with
  | true => rfl
  | false => rfl

/-- `DeviceReadSectors` returns 0 only for a range that was read, if and only if
the number of device sectors fits 16 bits and the device reads them all; and a
request ends with `CDVD_ERR_NO` only for such a range, if and only if that holds
in every turn or a break arrives. -/
theorem deviceReadSectors_whole_iff
    (hsize : sectorSize ∣ 2048)
    (lsn sectors buffer : Nat) (result : Int)
    (hrange : lba0 + (lsn + sectors) * (2048 / sectorSize) < 4294967296) :
    (((deviceReadSectors lba0 (sectorsPerSector sectorSize) lsn buffer sectors
          result).1 = 0 →
        AllRead sectorSize
          [(deviceReadSectors lba0 (sectorsPerSector sectorSize) lsn buffer
            sectors result).2]
          (lba0 + lsn * (2048 / sectorSize)) buffer
          (sectors * (2048 / sectorSize))) ↔
      Whole (2048 / sectorSize) sectors result) ∧
    (((cdvdmanReadSectors cfg env lsn sectors buffer).err = cdvdErrNo →
        AllRead sectorSize
          (requestReads cfg lba0 (sectorsPerSector sectorSize) env lsn sectors buffer)
          (lba0 + lsn * (2048 / sectorSize)) buffer
          (sectors * (2048 / sectorSize))) ↔
      (∃ t, t < turnsOf cfg sectors ∧ (env t).Broken) ∨
        ∀ t, t < turnsOf cfg sectors →
          Whole (2048 / sectorSize) (turnSectors cfg sectors t)
            (env t).result) := by
  have hwhole : sectorSize * (2048 / sectorSize) = 2048 :=
    Nat.mul_div_cancel' hsize
  unfold sectorsPerSector
  obtain ⟨ratio, hratio⟩ : ∃ r, r = 2048 / sectorSize := ⟨_, rfl⟩
  rw [← hratio] at hwhole hrange ⊢
  have hpositive : 0 < ratio := by
    rcases Nat.eq_zero_or_pos ratio with rfl | h
    · omega
    · exact h
  constructor
  · have hone :=
      @allRead_cons_iff sectorSize
        (bdRead lba0 ratio lsn buffer sectors result) []
        (lba0 + lsn * ratio) buffer (sectors * ratio) 0
        (fun k addr h => (bdRead_stores_within hrange h).2) (by simp)
    rw [Nat.add_zero] at hone
    rw [← @bdRead_all_iff sectorSize lba0 ratio lsn sectors hpositive hrange buffer
      result]
    constructor
    · intro h
      exact (hone.mp (h rfl)).1
    · intro h _
      exact hone.mpr ⟨h, fun j hj => absurd hj (Nat.not_lt_zero j)⟩
  · obtain ⟨s, herr, hturn, hstart, hloop⟩ :=
      @cdvdmanReadSectors_loop cfg lba0 ratio env lsn sectors buffer
    by_cases hbroken : ∃ t, t < turnsOf cfg sectors ∧ (env t).Broken
    · have hend :=
        @readLoop_broken cfg (fun _ => 0) env sectors lsn buffer sectors s le_rfl herr
          (by simpa [hturn] using hbroken)
      rw [← hloop] at hend
      constructor
      · intro _
        exact Or.inl hbroken
      · intro _ hno
        exact absurd hno hend
    · have hquiet :
          ∀ t, t < turnsOf cfg sectors → ¬ (env (s.turn + t)).Broken := by
        intro t ht hbreak
        rw [hturn, Nat.zero_add] at hbreak
        exact hbroken ⟨t, ht, hbreak⟩
      have hend :=
        @readLoop_err cfg (fun _ => 0) env sectors lsn buffer sectors s le_rfl herr
          hquiet
      obtain ⟨events, hlog, -, hiff⟩ :=
        @bdReads_loop cfg (fun _ => 0) lba0 ratio sectorSize env hwhole sectors lsn
          buffer sectors s le_rfl herr hrange hquiet
      rw [← hloop] at hend hlog
      simp only [hturn, Nat.zero_add] at hiff
      rw [requestReads, hlog, hstart, hiff]
      constructor
      · intro h
        exact Or.inr (h hend)
      · rintro (h | h) _
        · exact absurd h hbroken
        · exact h

/-- Turns without breaks in which `bd->read` gives `result`. -/
def bdTurns (result : Int) : Nat → BdTurn :=
  fun _ => ⟨false, false, false, result, false⟩

/-- Sixteen sectors of a 512-byte device that reads everything it is asked
for. -/
theorem deviceReadSectors_whole_iff_sixteen :
    ((deviceReadSectors 1000 (sectorsPerSector 512) 10 0x2000 16 64).1 = 0 →
      AllRead 512
        [(deviceReadSectors 1000 (sectorsPerSector 512) 10 0x2000 16 64).2]
        (1000 + 10 * (2048 / 512)) 0x2000 (16 * (2048 / 512))) ∧
    ((cdvdmanReadSectors ⟨0, 0⟩ (bdTurns 64) 10 16 0x2000).err = cdvdErrNo →
      AllRead 512
        (requestReads ⟨0, 0⟩ 1000 (sectorsPerSector 512) (bdTurns 64) 10 16 0x2000)
        (1000 + 10 * (2048 / 512)) 0x2000 (16 * (2048 / 512))) := by
  have h :=
    @deviceReadSectors_whole_iff ⟨0, 0⟩ 1000 512 (bdTurns 64)
      (by decide) 10 16 0x2000 64 (by decide)
  refine ⟨h.1.mpr (Or.inr (by decide)), h.2.mpr (Or.inr ?_)⟩
  intro t _
  have hone : turnSectors ⟨0, 0⟩ 16 t = 16 := rfl
  have hresult : (bdTurns 64 t).result = 64 := rfl
  rw [hone, hresult]
  exact Or.inr (by decide)

/-- A device that reports an error: `DeviceReadSectors` returns 0, and the
request ends with `CDVD_ERR_NO`, though nothing was read.  A count of 2^16 device
sectors is lost in the same way. -/
theorem deviceReadSectors_ignores_result :
    ((deviceReadSectors 0 (sectorsPerSector 512) 100 0x2000 1 (-5)).1 = 0 ∧
      ¬ AllRead 512
        [(deviceReadSectors 0 (sectorsPerSector 512) 100 0x2000 1 (-5)).2]
        400 0x2000 4) ∧
    ((cdvdmanReadSectors ⟨0, 0⟩ (bdTurns (-5)) 100 1 0x2000).err = cdvdErrNo ∧
      ¬ AllRead 512
        (requestReads ⟨0, 0⟩ 0 (sectorsPerSector 512) (bdTurns (-5)) 100 1 0x2000)
        400 0x2000 4) ∧
    (deviceReadSectors 0 (sectorsPerSector 512) 100 0x2000 16384 0).2.count = 0 := by
  have hnone :
      ¬ AllRead 512 [bdRead 0 4 100 0x2000 1 (-5)] 400 0x2000 4 := by
    intro h
    obtain ⟨rd, hrd, j, -, hj, -, -⟩ := h 0 (by decide)
    rw [List.mem_singleton] at hrd
    subst hrd
    simp only [bdRead] at hj
    omega
  exact ⟨⟨rfl, hnone⟩, ⟨by decide, hnone⟩, by decide⟩

end Requests

end Bdm
end Ps2Cdvd
