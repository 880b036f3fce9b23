import Ps2Cdvd.Lib.Extents
import Ps2Cdvd.Lib.Memory

/-!
# The HDD back end: image sectors through the partition table

An HDLoader game lies in up to 65 partitions.  `DeviceReadSectors` cuts a range of
image sectors at their ends and reads every piece with `ata_device_sector_io`.  The
index of the partition it used last is kept in `CurrentPart` and tried first.

What the ATA layer does is one `AtaTurn` for every call: whether it fails, and what
it leaves in the buffer then.

* `selectPart_eq`: with the cached index or without, the same partition is found;
* `deviceReadLoop_outcome`: the loop ends, and why it ends with which result;
* `deviceReadLoop_fills`: what the buffer holds when it ends with 0;
* `deviceReadSectors_maps`: the two together, for every cached index.
-/

namespace Ps2Cdvd
namespace Hdd

open Lib

section Source

def enxio : Int := 6
def eio : Int := 5

/-- `HDL_NUM_PART_SPECS`. -/
def hdlNumPartSpecs : Nat := 65

/-- `hdl_partspecs_t`. -/
structure HdlPartspecs where
  partOffset : Nat
  dataStart : Nat
  partSize : Nat
deriving DecidableEq

/-- `ps->part_offset + (ps->part_size >> 11)`. -/
def HdlPartspecs.partEnd (ps : HdlPartspecs) : Nat :=
  u32 (ps.partOffset + ps.partSize / 2048)

/-- `(lsn >= ps->part_offset) && (lsn < …)`. -/
def HdlPartspecs.holds (ps : HdlPartspecs) (lsn : Nat) : Bool :=
  decide (ps.partOffset ≤ lsn) && decide (lsn < ps.partEnd)

/-- The search of `cdvdman_get_part_specs`, over the `NumParts` entries. -/
def cdvdmanGetPartSpecs (table : List HdlPartspecs) (lsn : Nat) : Option Nat :=
  table.findIdx? (fun ps => ps.holds lsn)

/-- `cdvdman_partspecs[i]`. -/
def partspecs (table : List HdlPartspecs) (i : Nat) : HdlPartspecs :=
  table.getD i ⟨0, 0, 0⟩

/-- `CurrentPart` after the test at the top of the loop, or the failure of
`cdvdman_get_part_specs`. -/
def selectPart (table : List HdlPartspecs) (currentPart lsn : Nat) : Option Nat :=
  if (partspecs table currentPart).holds lsn then some currentPart
  else cdvdmanGetPartSpecs table lsn

/-- A call `ata_device_sector_io(0, buf, lba, nsectors, ATA_DIR_READ)`. -/
structure AtaRead where
  buf : Nat
  lba : Nat
  nsectors : Nat
deriving DecidableEq

/-- How one such call ends. -/
structure AtaTurn where
  fails : Bool
  junk : Nat → UInt8

/-- The variables of `DeviceReadSectors`, the memory, and the ATA reads so far. -/
structure ReadVars where
  lsn : Nat
  sectors : Nat
  offset : Nat
  currentPart : Nat
  mem : Nat → UInt8
  reads : List AtaRead

/-- The ATA read of one turn of the loop, from the partition `ps`. -/
def pieceRead (ps : HdlPartspecs) (buffer nsectors : Nat) (v : ReadVars) : AtaRead where
  buf := u32 (buffer + v.offset)
  lba := u32 (ps.dataStart + u32 (u32Sub v.lsn ps.partOffset * 4))
  nsectors := u32 (nsectors * 4)

/-- The sectors of one turn: up to the end of the partition. -/
def pieceSectors (ps : HdlPartspecs) (v : ReadVars) : Nat :=
  if v.sectors < u32Sub ps.partEnd v.lsn then v.sectors
  else u32Sub ps.partEnd v.lsn

variable (table : List HdlPartspecs) (disk : Nat → UInt8) (ata : Nat → AtaTurn)
  (buffer : Nat)

/-- The memory after an ATA read; `disk` is the disk, byte by byte. -/
def ataMem (v : ReadVars) (r : AtaRead) : Nat → UInt8 :=
  writeRange v.mem r.buf (512 * r.nsectors)
    (if (ata v.reads.length).fails then (ata v.reads.length).junk
      else fun k => disk (512 * r.lba + k))

/-- The loop of `DeviceReadSectors`, for at most `fuel` turns. -/
def deviceReadLoop : Nat → ReadVars → Option (Int × ReadVars)
  | 0, v => if v.sectors = 0 then some (0, v) else none
  | fuel + 1, v =>
      if v.sectors = 0 then some (0, v)
      else
        match selectPart table v.currentPart v.lsn with
        | none => some (-enxio, v)
        | some i =>
            let ps := partspecs table i
            let nsectors := pieceSectors ps v
            let r := pieceRead ps buffer nsectors v
            let read : ReadVars :=
              { v with
                currentPart := i
                mem := ataMem disk ata v r
                reads := v.reads ++ [r] }
            if (ata v.reads.length).fails then some (-eio, read)
            else
              deviceReadLoop fuel
                { read with
                  offset := u32 (v.offset + u32 (nsectors * 2048))
                  sectors := v.sectors - nsectors
                  lsn := u32 (v.lsn + nsectors) }

/-- `DeviceReadSectors(lsn, buffer, sectors)`.  A turn reads at least one sector, so
`sectors` turns are enough. -/
def deviceReadSectors
    (currentPart lsn sectors : Nat) (mem : Nat → UInt8) :
    Option (Int × ReadVars) :=
  deviceReadLoop table disk ata buffer sectors
    ⟨lsn, sectors, 0, currentPart, mem, []⟩

end Source

section Mapping

/-- The sectors of an image that a partition holds. -/
def HdlPartspecs.Covers (ps : HdlPartspecs) (s : Nat) : Prop :=
  ps.partOffset ≤ s ∧ s < ps.partOffset + ps.partSize / 2048

/-- The first disk sector of an image sector, in a partition that holds it. -/
def HdlPartspecs.diskSector (ps : HdlPartspecs) (s : Nat) : Nat :=
  ps.dataStart + 4 * (s - ps.partOffset)

/-- A partition table: at most 65 entries, no image sector in two partitions, and
no 32-bit overflow. -/
structure IsPartTable (table : List HdlPartspecs) : Prop where
  numParts : table.length ≤ hdlNumPartSpecs
  disjoint : Exclusive HdlPartspecs.Covers table
  size : ∀ ps ∈ table, ps.partSize < 4294967296
  image : ∀ ps ∈ table, ps.partOffset + ps.partSize / 2048 < 4294967296
  disk : ∀ ps ∈ table, ps.dataStart + 4 * (ps.partSize / 2048) ≤ 4294967296

variable {table : List HdlPartspecs} {disk : Nat → UInt8} {ata : Nat → AtaTurn}
  {buffer : Nat}

theorem IsPartTable.holds_iff
    {ps : HdlPartspecs} {s : Nat}
    (h : IsPartTable table)
    (hps : ps ∈ table) :
    ps.holds s = true ↔ ps.Covers s := by
  have hend : ps.partEnd = ps.partOffset + ps.partSize / 2048 :=
    u32_of_lt (h.image ps hps)
  simp [HdlPartspecs.holds, HdlPartspecs.Covers, hend]

theorem partspecs_of_lt
    {i : Nat}
    (hi : i < table.length) :
    partspecs table i = table[i] := by
  simp [partspecs, hi]

/-- The cached index makes no difference to which partition is found. -/
theorem selectPart_eq
    {currentPart lsn : Nat}
    (h : IsPartTable table)
    (hcurrent : currentPart < table.length) :
    selectPart table currentPart lsn = cdvdmanGetPartSpecs table lsn := by
  unfold selectPart
  rw [partspecs_of_lt hcurrent]
  split_ifs with hholds
  · have hcovers := (h.holds_iff (List.getElem_mem hcurrent)).mp hholds
    have hfind : cdvdmanGetPartSpecs table lsn = some currentPart :=
      h.disjoint.findIdx?_eq (fun ps hps => h.holds_iff hps) hcurrent hcovers
    exact hfind.symm
  · rfl

/-- A partition that the search finds is an entry that holds the sector. -/
theorem covers_of_search
    {i lsn : Nat}
    (h : IsPartTable table)
    (hfind : cdvdmanGetPartSpecs table lsn = some i) :
    ∃ hi : i < table.length, table[i].Covers lsn := by
  obtain ⟨hi, hholds, -⟩ := List.findIdx?_eq_some_iff_getElem.mp hfind
  exact ⟨hi, (h.holds_iff (List.getElem_mem hi)).mp hholds⟩

/-- The variables after a turn that reads the `n` sectors of a piece. -/
def ReadVars.next
    (v : ReadVars) (mem : Nat → UInt8) (i n : Nat) (r : AtaRead) : ReadVars where
  lsn := v.lsn + n
  sectors := v.sectors - n
  offset := u32 (v.offset + 2048 * n)
  currentPart := i
  mem := mem
  reads := v.reads ++ [r]

/-- A piece: `n` sectors, all in the partition `ps`, and its ATA read. -/
structure IsPiece
    (ps : HdlPartspecs) (buffer : Nat) (v : ReadVars) (n : Nat) (r : AtaRead) :
    Prop where
  pos : 0 < n
  le : n ≤ v.sectors
  covers : ∀ i, i < n → ps.Covers (v.lsn + i)
  buf : r.buf = u32 (buffer + v.offset)
  lba : r.lba = ps.diskSector v.lsn
  nsectors : r.nsectors = 4 * n

/-- The loop ends when no sectors are left. -/
theorem deviceReadLoop_done
    {v : ReadVars} (fuel : Nat)
    (hdone : v.sectors = 0) :
    deviceReadLoop table disk ata buffer fuel v = some (0, v) := by
  cases fuel with
  | zero => rw [deviceReadLoop, if_pos hdone]
  | succ fuel => rw [deviceReadLoop, if_pos hdone]

/-- One turn of the loop, with sectors left. -/
theorem deviceReadLoop_cases
    {v : ReadVars} (fuel : Nat)
    (h : IsPartTable table)
    (hcurrent : v.currentPart < table.length)
    (hleft : v.sectors ≠ 0) :
    (cdvdmanGetPartSpecs table v.lsn = none ∧
      deviceReadLoop table disk ata buffer (fuel + 1) v = some (-enxio, v)) ∨
    ∃ i, ∃ hi : i < table.length, ∃ n r,
      IsPiece table[i] buffer v n r ∧
      deviceReadLoop table disk ata buffer (fuel + 1) v =
        if (ata v.reads.length).fails then
          some (-eio,
            { v with
              currentPart := i
              mem := ataMem disk ata v r
              reads := v.reads ++ [r] })
        else
          deviceReadLoop table disk ata buffer fuel
            (v.next (ataMem disk ata v r) i n r) := by
  cases hfind : cdvdmanGetPartSpecs table v.lsn with
  | none =>
      left
      refine ⟨rfl, ?_⟩
      rw [deviceReadLoop, if_neg hleft, selectPart_eq h hcurrent, hfind]
  | some i =>
      right
      obtain ⟨hi, hcovers⟩ := covers_of_search h hfind
      have hmem := List.getElem_mem hi
      have himage := h.image _ hmem
      have hdisk := h.disk _ hmem
      have hsize := h.size _ hmem
      have hend : table[i].partEnd =
          table[i].partOffset + table[i].partSize / 2048 := u32_of_lt himage
      obtain ⟨hlow, hhigh⟩ := hcovers
      -- none of the 32-bit computations of this turn wraps
      have hrest : u32Sub table[i].partEnd v.lsn =
          table[i].partOffset + table[i].partSize / 2048 - v.lsn := by
        rw [hend]
        exact u32Sub_of_le (le_of_lt hhigh) himage
      have hback : u32Sub v.lsn table[i].partOffset =
          v.lsn - table[i].partOffset :=
        u32Sub_of_le hlow (lt_trans hhigh himage)
      have hn : pieceSectors table[i] v =
          min v.sectors
            (table[i].partOffset + table[i].partSize / 2048 - v.lsn) := by
        unfold pieceSectors
        rw [hrest]
        split_ifs with hlt
        · exact (min_eq_left (le_of_lt hlt)).symm
        · exact (min_eq_right (not_lt.mp hlt)).symm
      have hpos : 0 < pieceSectors table[i] v := by
        rw [hn]
        omega
      have hle : pieceSectors table[i] v ≤ v.sectors := by
        rw [hn]
        exact min_le_left _ _
      have hfits : v.lsn + pieceSectors table[i] v ≤
          table[i].partOffset + table[i].partSize / 2048 := by
        rw [hn]
        omega
      have hquarter : u32 (u32Sub v.lsn table[i].partOffset * 4) =
          4 * (v.lsn - table[i].partOffset) := by
        rw [hback, u32_of_lt (by omega), Nat.mul_comm]
      refine ⟨i, hi, pieceSectors table[i] v,
        pieceRead table[i] buffer (pieceSectors table[i] v) v, ?_, ?_⟩
      · refine ⟨hpos, hle, ?_, rfl, ?_, ?_⟩
        · intro j hj
          exact ⟨by omega, by omega⟩
        · show u32 (table[i].dataStart +
            u32 (u32Sub v.lsn table[i].partOffset * 4)) = _
          rw [hquarter]
          exact u32_of_lt (by omega)
        · show u32 (pieceSectors table[i] v * 4) = _
          rw [u32_of_lt (by omega), Nat.mul_comm]
      · rw [deviceReadLoop, if_neg hleft, selectPart_eq h hcurrent, hfind]
        dsimp only
        rw [partspecs_of_lt hi]
        have hbytes : u32 (pieceSectors table[i] v * 2048) =
            2048 * pieceSectors table[i] v := by
          rw [u32_of_lt (by omega), Nat.mul_comm]
        have hlsn : u32 (v.lsn + pieceSectors table[i] v) =
            v.lsn + pieceSectors table[i] v := u32_of_lt (by omega)
        rw [hbytes, hlsn]
        rfl

/-- Every sector of the range is in some partition. -/
def Covered (table : List HdlPartspecs) (lsn sectors : Nat) : Prop :=
  ∀ i, i < sectors → ∃ ps ∈ table, ps.Covers (lsn + i)

/-- The ATA reads from number `n` up to number `m` all succeed. -/
def AllSucceed (ata : Nat → AtaTurn) (n m : Nat) : Prop :=
  ∀ k, n ≤ k → k < m → (ata k).fails = false

theorem AllSucceed.cons
    {n m : Nat}
    (hrest : AllSucceed ata (n + 1) m)
    (hfirst : (ata n).fails = false) :
    AllSucceed ata n m := by
  intro k hlow hhigh
  rcases Nat.eq_or_lt_of_le hlow with rfl | hlater
  · exact hfirst
  · exact hrest k hlater hhigh

theorem AllSucceed.not_fails
    {m : Nat}
    (h : AllSucceed ata 0 m) :
    ¬ ∃ n, n < m ∧ (ata n).fails = true := by
  rintro ⟨n, hn, hfails⟩
  have hok := h n (Nat.zero_le n) hn
  rw [hfails] at hok
  cases hok

/-- How the loop can end: with 0 after a range that is covered, with `-ENXIO` when
a sector is in no partition, both after ATA reads that succeed, and with `-EIO` after
one that fails. -/
theorem deviceReadLoop_outcome
    (h : IsPartTable table) :
    ∀ (fuel : Nat) (v : ReadVars),
      v.currentPart < table.length → v.sectors ≤ fuel →
      ∃ result v',
        deviceReadLoop table disk ata buffer fuel v = some (result, v') ∧
        v'.currentPart < table.length ∧
        ((result = 0 ∧ Covered table v.lsn v.sectors ∧
            AllSucceed ata v.reads.length v'.reads.length) ∨
          (result = -enxio ∧ ¬ Covered table v.lsn v.sectors ∧
            AllSucceed ata v.reads.length v'.reads.length) ∨
          (result = -eio ∧ ∃ n, n < v'.reads.length ∧ (ata n).fails = true)) := by
  intro fuel
  induction fuel with
  | zero =>
      intro v hcurrent hfuel
      have hdone : v.sectors = 0 := Nat.le_zero.mp hfuel
      refine ⟨0, v, deviceReadLoop_done 0 hdone, hcurrent, Or.inl ⟨rfl, ?_, ?_⟩⟩
      · intro i hi
        omega
      · intro k hlow hhigh
        omega
  | succ fuel ih =>
      intro v hcurrent hfuel
      by_cases hleft : v.sectors = 0
      · refine ⟨0, v, deviceReadLoop_done _ hleft, hcurrent, Or.inl ⟨rfl, ?_, ?_⟩⟩
        · intro i hi
          omega
        · intro k hlow hhigh
          omega
      · rcases @deviceReadLoop_cases table disk ata buffer v fuel h hcurrent
          hleft with
          ⟨hnone, heq⟩ | ⟨i, hi, n, r, hpiece, heq⟩
        · refine ⟨-enxio, v, heq, hcurrent, Or.inr (Or.inl ⟨rfl, ?_, ?_⟩)⟩
          · intro hcovered
            obtain ⟨ps, hps, hcovers⟩ := hcovered 0 (Nat.pos_of_ne_zero hleft)
            exact not_covers_of_findIdx?_none (fun ps hps => h.holds_iff hps)
              hnone hps hcovers
          · intro k hlow hhigh
            omega
        · cases hfails : (ata v.reads.length).fails with
          | true =>
              rw [hfails, if_pos rfl] at heq
              exact ⟨-eio, _, heq, hi,
                Or.inr (Or.inr ⟨rfl, v.reads.length, by simp, hfails⟩)⟩
          | false =>
              rw [hfails, if_neg (by simp)] at heq
              have hpos := hpiece.pos
              have hle := hpiece.le
              obtain ⟨result, v', hloop, hcurrent', houtcome⟩ :=
                ih (v.next (ataMem disk ata v r) i n r) hi
                  (by simp only [ReadVars.next]; omega)
              refine ⟨result, v', heq.trans hloop, hcurrent', ?_⟩
              -- the piece is covered, so the rest decides
              have hsplit : Covered table (v.lsn + n) (v.sectors - n) ↔
                  Covered table v.lsn v.sectors := by
                constructor
                · intro hrest j hj
                  by_cases hjn : j < n
                  · exact ⟨table[i], List.getElem_mem hi, hpiece.covers j hjn⟩
                  · have hback := hrest (j - n) (by omega)
                    rwa [show v.lsn + n + (j - n) = v.lsn + j by omega] at hback
                · intro hall j hj
                  have hback := hall (n + j) (by omega)
                  rwa [← Nat.add_assoc] at hback
              have hone :
                  (v.next (ataMem disk ata v r) i n r).reads.length =
                    v.reads.length + 1 := by
                simp [ReadVars.next]
              rw [hone] at houtcome
              rcases houtcome with ⟨hr, hc, hok⟩ | ⟨hr, hc, hok⟩ | hfail
              · exact Or.inl ⟨hr, hsplit.mp hc, hok.cons hfails⟩
              · exact Or.inr (Or.inl
                  ⟨hr, fun hall => hc (hsplit.mpr hall), hok.cons hfails⟩)
              · exact Or.inr (Or.inr hfail)

/-- The buffer holds the disk data of the sectors `lsn, …, lsn + sectors - 1` from
`addr` on, each of them from the partition that covers it, and nothing else has
changed. -/
structure Filled
    (table : List HdlPartspecs) (disk : Nat → UInt8)
    (addr lsn sectors : Nat) (mem mem' : Nat → UInt8) : Prop where
  inside :
    ∀ ps ∈ table, ∀ i, i < sectors → ps.Covers (lsn + i) → ∀ b, b < 2048 →
      mem' (addr + 2048 * i + b) = disk (512 * ps.diskSector (lsn + i) + b)
  outside :
    ∀ a, a < addr ∨ addr + 2048 * sectors ≤ a → mem' a = mem a

/-- A piece followed by the rest of the range. -/
theorem Filled.append
    {ps : HdlPartspecs} {v : ReadVars} {n : Nat} {r : AtaRead}
    {mem' : Nat → UInt8}
    (h : IsPartTable table)
    (hps : ps ∈ table)
    (hpiece : IsPiece ps buffer v n r)
    (hbuf : r.buf = buffer + v.offset)
    (hok : (ata v.reads.length).fails = false)
    (hrest :
      Filled table disk (buffer + v.offset + 2048 * n) (v.lsn + n) (v.sectors - n)
        (ataMem disk ata v r) mem') :
    Filled table disk (buffer + v.offset) v.lsn v.sectors v.mem mem' := by
  have hle := hpiece.le
  have hwritten : ataMem disk ata v r =
      writeRange v.mem (buffer + v.offset) (2048 * n)
        (fun k => disk (512 * ps.diskSector v.lsn + k)) := by
    unfold ataMem
    rw [hok, hbuf, hpiece.lba, hpiece.nsectors, if_neg (by simp)]
    rw [show 512 * (4 * n) = 2048 * n by omega]
  refine ⟨?_, ?_⟩
  · intro qs hqs i hi hcovers b hb
    by_cases hin : i < n
    · -- a sector of the piece: it stays as the piece has written it
      have hsame : qs = ps :=
        h.disjoint.eq_of_covers hqs hps hcovers (hpiece.covers i hin)
      subst hsame
      obtain ⟨hlow, -⟩ := hpiece.covers 0 hpiece.pos
      rw [hrest.outside _ (Or.inl (by omega)), hwritten, Nat.add_assoc,
        writeRange_inside _ _ _ (by omega)]
      congr 1
      simp only [HdlPartspecs.diskSector]
      omega
    · have hlater := hrest.inside qs hqs (i - n) (by omega)
        (by rwa [show v.lsn + n + (i - n) = v.lsn + i by omega]) b hb
      rw [show v.lsn + n + (i - n) = v.lsn + i by omega] at hlater
      rw [← hlater]
      congr 1
      omega
  · intro a ha
    rw [hrest.outside a (by omega), hwritten]
    exact writeRange_outside _ _ (by omega)

/-- When the loop ends with 0, the buffer is filled. -/
theorem deviceReadLoop_fills
    (h : IsPartTable table) :
    ∀ (fuel : Nat) (v : ReadVars) {v' : ReadVars},
      v.currentPart < table.length →
      buffer + v.offset + 2048 * v.sectors ≤ 4294967296 →
      deviceReadLoop table disk ata buffer fuel v = some (0, v') →
      Filled table disk (buffer + v.offset) v.lsn v.sectors v.mem v'.mem := by
  have hempty : ∀ (v : ReadVars) (addr : Nat), v.sectors = 0 →
      Filled table disk addr v.lsn v.sectors v.mem v.mem := by
    intro v addr hdone
    refine ⟨?_, fun a _ => rfl⟩
    intro ps _ i hi
    omega
  intro fuel
  induction fuel with
  | zero =>
      intro v v' hcurrent hspace hloop
      rw [deviceReadLoop] at hloop
      split_ifs at hloop with hdone
      cases hloop
      exact hempty v _ hdone
  | succ fuel ih =>
      intro v v' hcurrent hspace hloop
      by_cases hdone : v.sectors = 0
      · rw [deviceReadLoop_done _ hdone] at hloop
        cases hloop
        exact hempty v _ hdone
      · rcases @deviceReadLoop_cases table disk ata buffer v fuel h hcurrent
          hdone with
          ⟨-, heq⟩ | ⟨i, hi, n, r, hpiece, heq⟩
        · rw [heq] at hloop
          cases hloop
        · cases hfails : (ata v.reads.length).fails with
          | true =>
              rw [heq, hfails, if_pos rfl] at hloop
              cases hloop
          | false =>
              rw [heq, hfails, if_neg (by simp)] at hloop
              have hpos := hpiece.pos
              have hle := hpiece.le
              have hbuf : r.buf = buffer + v.offset := by
                rw [hpiece.buf]
                exact u32_of_lt (by omega)
              refine Filled.append h (List.getElem_mem hi) hpiece hbuf hfails ?_
              by_cases hlast : v.sectors - n = 0
              · -- `offset` may wrap after the last piece, where it is not used
                rw [deviceReadLoop_done fuel hlast] at hloop
                cases hloop
                exact hempty (v.next (ataMem disk ata v r) i n r) _ hlast
              · have hoffset : u32 (v.offset + 2048 * n) = v.offset + 2048 * n :=
                  u32_of_lt (by omega)
                have hfilled := ih (v.next (ataMem disk ata v r) i n r) hi
                  (by simp only [ReadVars.next, hoffset]; omega) hloop
                simp only [ReadVars.next, hoffset, ← Nat.add_assoc] at hfilled
                exact hfilled

/-- The cached index has no effect on the result, the memory and the ATA reads. -/
theorem deviceReadLoop_congr
    {v : ReadVars} {currentPart : Nat} (fuel : Nat)
    (h : IsPartTable table)
    (hcurrent : v.currentPart < table.length)
    (hother : currentPart < table.length) :
    (deviceReadLoop table disk ata buffer fuel v).map
        (fun p => (p.1, p.2.mem, p.2.reads)) =
      (deviceReadLoop table disk ata buffer fuel
        { v with currentPart := currentPart }).map
          (fun p => (p.1, p.2.mem, p.2.reads)) := by
  by_cases hdone : v.sectors = 0
  · have hother' : ({ v with currentPart := currentPart } : ReadVars).sectors = 0 :=
      hdone
    rw [deviceReadLoop_done fuel hdone, deviceReadLoop_done fuel hother']
    rfl
  · cases fuel with
    | zero =>
        simp only [deviceReadLoop, if_neg hdone]
    | succ fuel =>
        rw [deviceReadLoop, deviceReadLoop, if_neg hdone, if_neg hdone]
        dsimp only
        rw [selectPart_eq h hcurrent, selectPart_eq h hother]
        cases cdvdmanGetPartSpecs table v.lsn with
        | none => rfl
        | some i => rfl

/-- **The HDD back end maps image sectors through the partition table.**  For every
partition table and every cached index: `DeviceReadSectors` returns; its result,
the memory and the ATA reads do not depend on the cached index, and the index it
leaves is one of the table.  When its ATA reads succeed it returns 0 for a range
that is covered and `-ENXIO` for any other; it returns `-EIO` when one of them has
failed, and only then.  With 0 the buffer is filled. -/
theorem deviceReadSectors_maps
    {currentPart lsn sectors : Nat} {mem : Nat → UInt8}
    (h : IsPartTable table)
    (hcurrent : currentPart < table.length) :
    ∃ result v,
      deviceReadSectors table disk ata buffer currentPart lsn sectors mem =
        some (result, v) ∧
      v.currentPart < table.length ∧
      (∀ other, other < table.length →
        ∃ w,
          deviceReadSectors table disk ata buffer other lsn sectors mem =
            some (result, w) ∧
          w.mem = v.mem ∧ w.reads = v.reads) ∧
      ((∀ n, n < v.reads.length → (ata n).fails = false) →
        (Covered table lsn sectors → result = 0) ∧
        (¬ Covered table lsn sectors → result = -enxio)) ∧
      (result = -eio ↔ ∃ n, n < v.reads.length ∧ (ata n).fails = true) ∧
      (result = 0 ∨ result = -enxio ∨ result = -eio) ∧
      (result = 0 → buffer + 2048 * sectors ≤ 4294967296 →
        Filled table disk buffer lsn sectors mem v.mem) := by
  obtain ⟨result, v, hrun, hcurrent', houtcome⟩ :=
    @deviceReadLoop_outcome table disk ata buffer h sectors
      ⟨lsn, sectors, 0, currentPart, mem, []⟩ hcurrent (le_refl _)
  refine ⟨result, v, hrun, hcurrent', ?_, ?_, ?_, ?_, ?_⟩
  · intro other hother
    have hsame := @deviceReadLoop_congr table disk ata buffer
      ⟨lsn, sectors, 0, currentPart, mem, []⟩ other sectors h hcurrent hother
    rw [hrun] at hsame
    obtain ⟨⟨result', w⟩, hw, hshown⟩ := Option.map_eq_some_iff.mp hsame.symm
    simp only [Prod.mk.injEq] at hshown
    obtain ⟨hr, hm, hreads⟩ := hshown
    subst hr
    exact ⟨w, hw, hm, hreads⟩
  · intro hok
    rcases houtcome with ⟨hr, hc, -⟩ | ⟨hr, hc, -⟩ | ⟨-, n, hn, hfails⟩
    · exact ⟨fun _ => hr, fun hnot => absurd hc hnot⟩
    · exact ⟨fun hall => absurd hall hc, fun _ => hr⟩
    · rw [hok n hn] at hfails
      cases hfails
  · rcases houtcome with ⟨rfl, -, hok⟩ | ⟨rfl, -, hok⟩ | ⟨rfl, hfail⟩
    · exact iff_of_false (by decide) hok.not_fails
    · exact iff_of_false (by decide) hok.not_fails
    · exact iff_of_true rfl hfail
  · rcases houtcome with ⟨hr, -⟩ | ⟨hr, -⟩ | ⟨hr, -⟩
    · exact Or.inl hr
    · exact Or.inr (Or.inl hr)
    · exact Or.inr (Or.inr hr)
  · intro hzero hspace
    subst hzero
    exact deviceReadLoop_fills h sectors
      ⟨lsn, sectors, 0, currentPart, mem, []⟩ hcurrent hspace hrun

/-- Two partitions, the second of which holds the beginning of the image. -/
def twoParts : List HdlPartspecs := [⟨4, 1000, 3 * 2048⟩, ⟨0, 500, 4 * 2048⟩]

theorem isPartTable_twoParts : IsPartTable twoParts := by
  refine ⟨by decide, ?_, by decide, by decide, by decide⟩
  simp only [Exclusive, twoParts, List.pairwise_cons, List.mem_singleton]
  refine ⟨?_, by simp⟩
  rintro ps rfl s ⟨hfirst, hsecond⟩
  simp only [HdlPartspecs.Covers] at hfirst hsecond
  omega

/-- Sectors 2 to 5 lie in both partitions, and the first one is cached. -/
theorem deviceReadSectors_maps_twoParts :
    ∃ result v,
      deviceReadSectors twoParts (fun _ => 7) (fun _ => ⟨false, fun _ => 0⟩) 0x1000
        0 2 4 (fun _ => 0) = some (result, v) ∧
      v.reads = [⟨0x1000, 508, 8⟩, ⟨0x2000, 1000, 8⟩] ∧
      result = 0 ∧
      Filled twoParts (fun _ => 7) 0x1000 2 4 (fun _ => 0) v.mem := by
  obtain ⟨result, v, hrun, -, -, hreturns, -, -, hfilled⟩ :=
    @deviceReadSectors_maps twoParts (fun _ => 7)
      (fun _ => ⟨false, fun _ => 0⟩) 0x1000 0 2 4 (fun _ => 0)
      isPartTable_twoParts (by decide)
  have hcovered : Covered twoParts 2 4 := by
    intro i hi
    by_cases hlow : i < 2
    · exact ⟨⟨0, 500, 4 * 2048⟩, by simp [twoParts], by
        simp only [HdlPartspecs.Covers]; omega⟩
    · exact ⟨⟨4, 1000, 3 * 2048⟩, by simp [twoParts], by
        simp only [HdlPartspecs.Covers]; omega⟩
  have hzero := (hreturns (fun _ _ => rfl)).1 hcovered
  have hreads :
      (deviceReadSectors twoParts (fun _ => 7) (fun _ => ⟨false, fun _ => 0⟩)
        0x1000 0 2 4 (fun _ => 0)).map (fun p => p.2.reads) =
          some [⟨0x1000, 508, 8⟩, ⟨0x2000, 1000, 8⟩] := by
    decide +kernel
  rw [hrun] at hreads
  exact ⟨result, v, hrun, Option.some.inj hreads, hzero,
    hfilled hzero (by decide)⟩

/-- A read that fails in a range that is not covered: sector 7 is in no partition,
but the ATA read of sectors 5 and 6 fails before, and the result is `-EIO`. -/
theorem deviceReadSectors_eio_twoParts :
    IsPartTable twoParts ∧ ¬ Covered twoParts 5 3 ∧
      ¬ ∀ ata : Nat → AtaTurn, ∃ v,
        deviceReadSectors twoParts (fun _ => 7) ata 0x1000 0 5 3 (fun _ => 0) =
          some (-enxio, v) := by
  refine ⟨isPartTable_twoParts, ?_, ?_⟩
  · intro hcovered
    obtain ⟨ps, hps, hcovers⟩ := hcovered 2 (by decide)
    simp only [twoParts, List.mem_cons, List.not_mem_nil, or_false] at hps
    rcases hps with rfl | rfl
    · simp only [HdlPartspecs.Covers] at hcovers
      omega
    · simp only [HdlPartspecs.Covers] at hcovers
      omega
  · intro hclaim
    obtain ⟨v, hv⟩ := hclaim (fun _ => ⟨true, fun _ => 0⟩)
    have hresult :
        (deviceReadSectors twoParts (fun _ => 7) (fun _ => ⟨true, fun _ => 0⟩)
          0x1000 0 5 3 (fun _ => 0)).map Prod.fst = some (-eio) := by
      decide +kernel
    rw [hv] at hresult
    have hsame : -enxio = -eio := Option.some.inj hresult
    exact absurd hsame (by decide)

end Mapping

end Hdd
end Ps2Cdvd
