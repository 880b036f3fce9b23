import Ps2Cdvd.Lib.Resolve
import Ps2Cdvd.Read.Sectors

/-!
# Directory records

An ISO9660 directory is a run of sectors, each holding whole records followed by
zeros.  `cdvdman_locatefile` reads the sectors one by one into `cdvdman_buf` and
goes from record to record by the length each record gives for itself.

`Laid` says which bytes of a sector are which records, and `LaidFrom` does so for
the sectors of a directory.

* `scanRecords_packed`: the record loop over one sector finds the first record
  wanted;
* `walkSectors_laid`: the sector loop finds the first one of the directory;
* `scanRecords_congr`: the record loop depends on the sector alone as long as the
  records it looks at lie in it.
-/

namespace Ps2Cdvd
namespace Iso

open Lib Read

section Source

/-- `struct dirTocEntry`, as far as it is read; `filename` has
`filenameLength` bytes. -/
structure DirTocEntry where
  length : Int
  fileLBA : Nat
  fileSize : Nat
  fileProperties : UInt8
  filename : List UInt8
deriving DecidableEq

/-- A little-endian `u16` at byte `i`. -/
def le16 (f : Nat → UInt8) (i : Nat) : Nat :=
  (f i).toNat + 256 * (f (i + 1)).toNat

/-- A little-endian `u32` at byte `i`. -/
def le32 (f : Nat → UInt8) (i : Nat) : Nat :=
  le16 f i + 65536 * le16 f (i + 2)

/-- The record at the first of the bytes `f`. -/
def DirTocEntry.ofBytes (f : Nat → UInt8) : DirTocEntry where
  length := s16 (le16 f 0)
  fileLBA := le32 f 2
  fileSize := le32 f 10
  fileProperties := f 25
  filename := (List.range (f 32).toNat).map (fun i => f (33 + i))

def DirTocEntry.filenameLength (e : DirTocEntry) : Nat := e.filename.length

/-- `tocEntryPointer->fileProperties & 2` -/
def DirTocEntry.isDirectory (e : DirTocEntry) : Bool :=
  e.fileProperties &&& 2 != 0

/-- `cdvdman_curdir`, as a string. -/
def DirTocEntry.curdir (e : DirTocEntry) : List UInt8 :=
  e.filename.takeWhile (· ≠ 0)

/-- `strncmp(cdvdman_dirname, cdvdman_curdir, 12) == 0` -/
def agrees (dirname : List UInt8) (e : DirTocEntry) : Bool :=
  dirname.take 12 == e.curdir.take 12

/-- The drive and the number of reads that were asked for. -/
structure SearchState where
  drive : DriveState
  reads : Nat

variable
  (cfg : Settings)
  (image : Nat → UInt8)
  (env : Nat → Option (Nat → DeviceTurn))
  (cdvdmanBuf : Nat)

/-- `sceCdRead(lsn, 1, cdvdman_buf, NULL)` and, when it was accepted,
`sceCdSync(0)`.  The read of ordinal `r` is refused where `env r` is `none`, and
meets the turns `env r` otherwise. -/
def sceCdRead (lsn : Nat) (s : SearchState) : Bool × SearchState :=
  match env s.reads with
  | none => (false, { s with reads := s.reads + 1 })
  | some turns =>
      (true,
        { drive :=
            cdvdmanRead cfg image turns cdvdmanBuf lsn 1 cdvdmanBuf s.drive
          reads := s.reads + 1 })

/-- `(struct dirTocEntry *)&cdvdman_buf[pos]` -/
def tocEntry (m : Nat → UInt8) (pos : Int) : DirTocEntry :=
  .ofBytes (fun i => m ((cdvdmanBuf + pos + i) % 4294967296).toNat)

/-- `tocPos += (tocEntryPointer->length << 16) >> 16`, in an `int`. -/
def nextPos (tocPos : Int) (e : DirTocEntry) : Int :=
  s32 (u32OfInt (tocPos + e.length))

/-- How the record loop over one sector ends: at a record to return, at a
directory to go on in, or behind the last record; or it does not end. -/
inductive Scan
  | found (pos : Int)
  | enter (pos : Int)
  | next
  | loops
deriving DecidableEq

/-- The `do … while (tocPos < 2016)` loop of `cdvdman_locatefile`, for at most
`turns` turns.  `last` is `slash == NULL`. -/
def scanRecords (m : Nat → UInt8) (last : Bool) (dirname : List UInt8) :
    (turns : Nat) → (tocPos : Int) → Scan
  | 0, _ => .loops
  | turns + 1, tocPos =>
      let e := tocEntry cdvdmanBuf m tocPos
      if e.length = 0 then .next
      else if e.filenameLength ≠ 0 then
        if agrees dirname e && last then .found tocPos
        else if agrees dirname e && e.isDirectory then .enter tocPos
        else if nextPos tocPos e < 2016 then
          scanRecords m last dirname turns (nextPos tocPos e)
        else .next
      else if tocPos < 2016 then
        -- an empty name leaves `tocPos` where it is
        scanRecords m last dirname turns tocPos
      else .next

/-- Sectors of `n` bytes. -/
def sectorsOf (n : Int) : Nat := ((n + 2047) / 2048).toNat

/-- How the sector loop ends; `null` when no record was found. -/
inductive Walk
  | found (pos : Int)
  | enter (pos : Int)
  | null
  | loops
deriving DecidableEq

/-- The `while (tocLength > 0)` loop of `cdvdman_locatefile`.  Each turn takes
one sector off `tocLength`, so `sectorsOf tocLength` turns are enough. -/
def walkSectors (turns : Nat) (last : Bool) (dirname : List UInt8) :
    (fuel tocLBA : Nat) → (tocLength : Int) → SearchState → Walk × SearchState
  | 0, _, _, s => (.null, s)
  | fuel + 1, tocLBA, tocLength, s =>
      if 0 < tocLength then
        match sceCdRead cfg image env cdvdmanBuf tocLBA s with
        | (false, s) => (.null, s)
        | (true, s) =>
            match scanRecords cdvdmanBuf s.drive.mem last dirname turns 0 with
            | .found pos => (.found pos, s)
            | .enter pos => (.enter pos, s)
            | .loops => (.loops, s)
            | .next =>
                walkSectors turns last dirname fuel (u32 (tocLBA + 1))
                  (tocLength - 2048) s
      else (.null, s)

end Source

section Layout

/-- The record `e` lies at byte `pos` of a sector: its extended attribute length
is zero, it has a name, and it does not leave the sector. -/
structure RecordIn (f : Nat → UInt8) (pos : Nat) (e : DirTocEntry) : Prop where
  bytes : e = .ofBytes (fun i => f (pos + i))
  extended : f (pos + 1) = 0
  named : 1 ≤ e.filenameLength
  holds : 33 + e.filenameLength ≤ (f pos).toNat
  inside : pos + (f pos).toNat ≤ 2048

/-- The record has a name of ISO9660 level 1. -/
structure RecordAt (f : Nat → UInt8) (pos : Nat) (e : DirTocEntry) : Prop
    extends RecordIn f pos e where
  level1 : e.filenameLength ≤ 14

/-- The records of a sector from a byte on, and zeros behind them, from byte `fin`
on. -/
inductive Packed (f : Nat → UInt8) (fin : Nat) : Nat → List DirTocEntry → Prop
  | padding
      (hfin : fin ≤ 2048)
      (hzero : ∀ i, fin ≤ i → i < 2048 → f i = 0) :
      Packed f fin fin []
  | record {pos : Nat} {e : DirTocEntry} {es : List DirTocEntry}
      (hrecord : RecordIn f pos e)
      (hrest : Packed f fin (pos + (f pos).toNat) es) :
      Packed f fin pos (e :: es)

/-- The records of a sector from byte `pos` on, with names of ISO9660 level 1, and zeros
behind them. -/
structure Laid (f : Nat → UInt8) (pos : Nat) (es : List DirTocEntry) : Prop where
  packed : ∃ fin, Packed f fin pos es
  level1 : ∀ e ∈ es, e.filenameLength ≤ 14

/-- The records of the sectors from `lsn` on, sector by sector. -/
def LaidFrom (image : Nat → UInt8) : Nat → List (List DirTocEntry) → Prop
  | _, [] => True
  | lsn, es :: secs =>
      Laid (sectorBytes image lsn) 0 es ∧ LaidFrom image (lsn + 1) secs

/-- The records of the sectors from `lba` on, as reads deliver them; the numbers of
sectors are `u32`. -/
def LaidAt (image : Nat → UInt8) : Nat → List (List DirTocEntry) → Prop
  | _, [] => True
  | lba, es :: secs =>
      Laid (deliveredBytes image lba) 0 es ∧ LaidAt image (u32 (lba + 1)) secs

/-- Every read is accepted and is not disturbed. -/
def ReadsSucceed (env : Nat → Option (Nat → DeviceTurn)) : Prop :=
  ∀ r, ∃ turns, env r = some turns ∧ ∀ t, ¬ (turns t).Disturbed

end Layout

section Bytes

/-- A record is read from its fixed part and its name. -/
theorem ofBytes_congr
    {f g : Nat → UInt8}
    (h : ∀ i, i < 33 + (f 32).toNat → g i = f i) :
    DirTocEntry.ofBytes g = DirTocEntry.ofBytes f := by
  have hname : g 32 = f 32 := h 32 (by omega)
  have hchars :
      (List.range (f 32).toNat).map (fun i => g (33 + i)) =
        (List.range (f 32).toNat).map (fun i => f (33 + i)) := by
    apply List.map_congr_left
    intro i hi
    exact h (33 + i) (by have := List.mem_range.mp hi; omega)
  unfold DirTocEntry.ofBytes
  rw [hname, hchars]
  simp only [le16, le32]
  rw [h 0 (by omega), h (0 + 1) (by omega), h 2 (by omega),
    h (2 + 1) (by omega), h (2 + 2) (by omega), h (2 + 2 + 1) (by omega),
    h 10 (by omega), h (10 + 1) (by omega), h (10 + 2) (by omega),
    h (10 + 2 + 1) (by omega), h 25 (by omega)]

/-- Without extended attributes the length is one byte. -/
theorem RecordIn.length_eq
    {f : Nat → UInt8} {pos : Nat} {e : DirTocEntry}
    (h : RecordIn f pos e) :
    e.length = (f pos).toNat := by
  have hbyte : (f pos).toNat < 256 := (f pos).toNat_lt
  rw [h.bytes]
  simp only [DirTocEntry.ofBytes, le16, Nat.add_zero, Nat.zero_add, h.extended]
  rw [s16_of_lt (by simp; omega)]
  simp

theorem RecordIn.filenameLength_eq
    {f : Nat → UInt8} {pos : Nat} {e : DirTocEntry}
    (h : RecordIn f pos e) :
    e.filenameLength = (f (pos + 32)).toNat := by
  rw [h.bytes]
  simp [DirTocEntry.ofBytes, DirTocEntry.filenameLength]

theorem RecordIn.congr
    {f g : Nat → UInt8} {pos : Nat} {e : DirTocEntry}
    (h : RecordIn f pos e)
    (hfg : ∀ i, i < 2048 → g i = f i) :
    RecordIn g pos e := by
  have hname := h.filenameLength_eq
  have hholds := h.holds
  have hinside := h.inside
  have hpos : g pos = f pos := hfg pos (by omega)
  constructor
  · rw [h.bytes]
    symm
    apply ofBytes_congr
    intro i hi
    exact hfg _ (by omega)
  · rw [hfg (pos + 1) (by omega)]
    exact h.extended
  · exact h.named
  · rw [hpos]
    exact hholds
  · rw [hpos]
    exact hinside

theorem RecordAt.congr
    {f g : Nat → UInt8} {pos : Nat} {e : DirTocEntry}
    (h : RecordAt f pos e)
    (hfg : ∀ i, i < 2048 → g i = f i) :
    RecordAt g pos e :=
  ⟨h.toRecordIn.congr hfg, h.level1⟩

theorem Packed.congr
    {f g : Nat → UInt8} {fin pos : Nat} {es : List DirTocEntry}
    (h : Packed f fin pos es)
    (hfg : ∀ i, i < 2048 → g i = f i) :
    Packed g fin pos es := by
  induction h with
  | padding hfin hzero =>
      refine .padding hfin ?_
      intro i hi hlt
      rw [hfg i hlt]
      exact hzero i hi hlt
  | @record pos e es hrecord _ ih =>
      have hinside := hrecord.inside
      have hlong := hrecord.holds
      refine .record (hrecord.congr hfg) ?_
      rw [hfg pos (by omega)]
      exact ih

theorem Packed.fin_le
    {f : Nat → UInt8} {fin pos : Nat} {es : List DirTocEntry}
    (h : Packed f fin pos es) :
    fin ≤ 2048 := by
  induction h with
  | padding hfin _ => exact hfin
  | record _ _ ih => exact ih

/-- The bytes behind the records. -/
theorem Packed.zeros
    {f : Nat → UInt8} {fin pos : Nat} {es : List DirTocEntry}
    (h : Packed f fin pos es) :
    ∀ i, fin ≤ i → i < 2048 → f i = 0 := by
  induction h with
  | padding _ hzero => exact hzero
  | record _ _ ih => exact ih

/-- The records end where their lengths say. -/
theorem Packed.fin_eq
    {f : Nat → UInt8} {fin pos : Nat} {es : List DirTocEntry}
    (h : Packed f fin pos es) :
    fin = pos + (es.map (fun e => e.length.toNat)).sum := by
  induction h with
  | padding _ _ => rfl
  | @record pos e es hrecord _ ih =>
      rw [ih, List.map_cons, List.sum_cons, hrecord.length_eq, Int.toNat_natCast,
        Nat.add_assoc]

/-- A record takes at least 34 bytes. -/
theorem Packed.length_le
    {f : Nat → UInt8} {fin pos : Nat} {es : List DirTocEntry}
    (h : Packed f fin pos es) :
    34 * es.length ≤ 2048 - pos := by
  induction h with
  | padding _ _ => simp
  | record hrecord _ ih =>
      have hnamed := hrecord.named
      have hholds := hrecord.holds
      have hinside := hrecord.inside
      rw [List.length_cons]
      omega

theorem Laid.padding
    {f : Nat → UInt8} {pos : Nat}
    (hpos : pos ≤ 2048)
    (hzero : ∀ i, pos ≤ i → i < 2048 → f i = 0) :
    Laid f pos [] :=
  ⟨⟨pos, .padding hpos hzero⟩, List.forall_mem_nil _⟩

theorem Laid.record
    {f : Nat → UInt8} {pos : Nat} {e : DirTocEntry} {es : List DirTocEntry}
    (hrecord : RecordAt f pos e)
    (hrest : Laid f (pos + (f pos).toNat) es) :
    Laid f pos (e :: es) := by
  obtain ⟨fin, hpacked⟩ := hrest.packed
  exact ⟨⟨fin, .record hrecord.toRecordIn hpacked⟩,
    List.forall_mem_cons.mpr ⟨hrecord.level1, hrest.level1⟩⟩

theorem Laid.congr
    {f g : Nat → UInt8} {pos : Nat} {es : List DirTocEntry}
    (h : Laid f pos es)
    (hfg : ∀ i, i < 2048 → g i = f i) :
    Laid g pos es := by
  obtain ⟨fin, hpacked⟩ := h.packed
  exact ⟨⟨fin, hpacked.congr hfg⟩, h.level1⟩

/-- `cdvdman_buf` holds the bytes `f`. -/
def Holds (cdvdmanBuf : Nat) (m f : Nat → UInt8) : Prop :=
  ∀ i, i < 2048 → m (cdvdmanBuf + i) = f i

variable {cdvdmanBuf : Nat} {m f : Nat → UInt8}

theorem Holds.address
    (h : Holds cdvdmanBuf m f)
    (hbuf : cdvdmanBuf + 4096 ≤ 4294967296)
    {pos i : Nat}
    (hi : pos + i < 2048) :
    m (((cdvdmanBuf : Int) + (pos : Int) + (i : Int)) % 4294967296).toNat =
      f (pos + i) := by
  have haddr :
      (((cdvdmanBuf : Int) + (pos : Int) + (i : Int)) % 4294967296).toNat =
        cdvdmanBuf + (pos + i) := by
    omega
  rw [haddr]
  exact h _ hi

/-- A record that does not leave the sector is read from the sector alone. -/
theorem Holds.tocEntry_inside
    (h : Holds cdvdmanBuf m f)
    (hbuf : cdvdmanBuf + 4096 ≤ 4294967296)
    {pos : Nat}
    (hpos : pos + 33 + (f (pos + 32)).toNat ≤ 2048) :
    tocEntry cdvdmanBuf m pos = .ofBytes (fun i => f (pos + i)) := by
  apply ofBytes_congr
  intro i hi
  exact h.address hbuf (by omega)

/-- The record that the code finds in its buffer. -/
theorem Holds.tocEntry_eq
    (h : Holds cdvdmanBuf m f)
    (hbuf : cdvdmanBuf + 4096 ≤ 4294967296)
    {pos : Nat} {e : DirTocEntry}
    (he : RecordIn f pos e) :
    tocEntry cdvdmanBuf m pos = e := by
  have hname := he.filenameLength_eq
  have hholds := he.holds
  have hinside := he.inside
  rw [he.bytes]
  exact h.tocEntry_inside hbuf (by omega)

/-- Two zero bytes end the record loop. -/
theorem Holds.tocEntry_length_zero
    (h : Holds cdvdmanBuf m f)
    (hbuf : cdvdmanBuf + 4096 ≤ 4294967296)
    {pos : Nat}
    (hpos : pos + 1 < 2048)
    (hzero : ∀ i, pos ≤ i → i < 2048 → f i = 0) :
    (tocEntry cdvdmanBuf m pos).length = 0 := by
  have h0 := @Holds.address cdvdmanBuf m f h hbuf pos 0 (by omega)
  have h1 := @Holds.address cdvdmanBuf m f h hbuf pos 1 (by omega)
  rw [hzero (pos + 0) (by omega) (by omega)] at h0
  rw [hzero (pos + 1) (by omega) (by omega)] at h1
  simp only [tocEntry, DirTocEntry.ofBytes, le16, Nat.zero_add]
  rw [h0, h1]
  rfl

end Bytes

section Names

/-- A segment of less than 12 characters agrees with the records of that very
name. -/
theorem agrees_iff_of_short
    {dirname : List UInt8} {e : DirTocEntry}
    (h : dirname.length < 12) :
    agrees dirname e = true ↔ e.curdir = dirname := by
  unfold agrees
  rw [beq_iff_eq, List.take_of_length_le (by omega)]
  constructor
  · intro hname
    have hlen := congrArg List.length hname
    rw [List.length_take] at hlen
    rw [hname, List.take_of_length_le (by omega)]
  · rintro rfl
    rw [List.take_of_length_le (by omega)]

end Names

section Scan

variable {cdvdmanBuf : Nat} {m f : Nat → UInt8}

/-- The cursor of a record that begins in the range of an `int`. -/
theorem nextPos_of_range
    {tocPos : Int} {e : DirTocEntry}
    (hlow : -2147483648 ≤ tocPos + e.length)
    (hhigh : tocPos + e.length < 2147483648) :
    nextPos tocPos e = tocPos + e.length := by
  simp only [nextPos, s32, u32OfInt]
  split_ifs <;> omega

/-- What the record loop does with the record that is wanted, and without one. -/
structure ScanOf
    (cdvdmanBuf : Nat) (m : Nat → UInt8) (last : Bool)
    (wanted : Option DirTocEntry) (out : Scan) : Prop where
  hit :
    ∀ e, wanted = some e →
      ∃ pos, tocEntry cdvdmanBuf m pos = e ∧
        out = if last then .found pos else .enter pos
  miss : wanted = none → out = .next

theorem ScanOf.nothing (last : Bool) :
    ScanOf cdvdmanBuf m last none .next := by
  constructor
  · intro e he
    cases he
  · intro _
    rfl

/-- A record that is not wanted is stepped over. -/
theorem scanRecords_step
    {last : Bool} {dirname : List UInt8} {e : DirTocEntry} {tocPos : Int}
    (turns : Nat)
    (he : tocEntry cdvdmanBuf m tocPos = e)
    (hlength : e.length ≠ 0)
    (hnamed : e.filenameLength ≠ 0)
    (hnot : (agrees dirname e && (last || e.isDirectory)) = false) :
    scanRecords cdvdmanBuf m last dirname (turns + 1) tocPos =
      if nextPos tocPos e < 2016 then
        scanRecords cdvdmanBuf m last dirname turns (nextPos tocPos e)
      else .next := by
  simp only [scanRecords, he, if_neg hlength, if_pos hnamed]
  cases hagrees : agrees dirname e with
  | false => simp
  | true =>
      rw [hagrees, Bool.true_and, Bool.or_eq_false_iff] at hnot
      simp [hnot.1, hnot.2]

/-- The wanted record ends the loop. -/
theorem scanRecords_stop
    {last : Bool} {dirname : List UInt8} {e : DirTocEntry} {tocPos : Int}
    (turns : Nat)
    (he : tocEntry cdvdmanBuf m tocPos = e)
    (hlength : e.length ≠ 0)
    (hnamed : e.filenameLength ≠ 0)
    (hwanted : (agrees dirname e && (last || e.isDirectory)) = true) :
    scanRecords cdvdmanBuf m last dirname (turns + 1) tocPos =
      if last then .found tocPos else .enter tocPos := by
  rw [Bool.and_eq_true] at hwanted
  simp only [scanRecords, he, if_neg hlength, if_pos hnamed, hwanted.1,
    Bool.true_and]
  cases last with
  | true => rfl
  | false =>
      have hdir : e.isDirectory = true := by
        simpa using hwanted.2
      simp [hdir]

/-- The record loop finds the first record wanted. -/
theorem scanRecords_packed
    (h : Holds cdvdmanBuf m f)
    (hbuf : cdvdmanBuf + 4096 ≤ 4294967296)
    (last : Bool) (dirname : List UInt8)
    {fin pos : Nat} {es : List DirTocEntry}
    (hpacked : Packed f fin pos es)
    {turns : Nat}
    (hpos : pos < 2016)
    (hturns : es.length < turns) :
    ScanOf cdvdmanBuf m last
      (denoted agrees DirTocEntry.isDirectory last dirname es)
      (scanRecords cdvdmanBuf m last dirname turns pos) := by
  induction hpacked generalizing turns with
  | padding _ hzero =>
      obtain ⟨turns, rfl⟩ : ∃ k, turns = k + 1 := ⟨turns - 1, by omega⟩
      have hend := h.tocEntry_length_zero hbuf (by omega) hzero
      have hout :
          scanRecords cdvdmanBuf m last dirname (turns + 1) fin = .next := by
        simp [scanRecords, hend]
      rw [hout]
      exact ScanOf.nothing last
  | @record pos e es hrecord hrest ih =>
      obtain ⟨turns, rfl⟩ : ∃ k, turns = k + 1 := ⟨turns - 1, by omega⟩
      have he := h.tocEntry_eq hbuf hrecord
      have hlength := hrecord.length_eq
      have hholds := hrecord.holds
      have hnamed := hrecord.named
      have hnonzero : e.length ≠ 0 := by
        omega
      have hname : e.filenameLength ≠ 0 := by
        omega
      by_cases hwanted :
          (agrees dirname e && (last || e.isDirectory)) = true
      · rw [scanRecords_stop turns he hnonzero hname hwanted]
        have hfind :
            denoted agrees DirTocEntry.isDirectory last dirname (e :: es) =
              some e :=
          List.find?_cons_of_pos hwanted
        constructor
        · intro e' he'
          rw [hfind, Option.some.injEq] at he'
          subst he'
          exact ⟨pos, he, rfl⟩
        · intro hnone
          rw [hfind] at hnone
          cases hnone
      · have hnot :
            (agrees dirname e && (last || e.isDirectory)) = false := by
          simpa using hwanted
        have hfind :
            denoted agrees DirTocEntry.isDirectory last dirname (e :: es) =
              denoted agrees DirTocEntry.isDirectory last dirname es :=
          List.find?_cons_of_neg hwanted
        have hinside := hrecord.inside
        have hnext : nextPos pos e = ((pos + (f pos).toNat : Nat) : Int) := by
          rw [nextPos_of_range (by omega) (by omega), hlength, Nat.cast_add]
        rw [scanRecords_step turns he hnonzero hname hnot, hfind, hnext]
        by_cases hmore : pos + (f pos).toNat < 2016
        · rw [if_pos (by omega)]
          exact ih hmore (by simpa using hturns)
        · rw [if_neg (by omega)]
          -- no record fits behind byte 2016
          cases hrest with
          | padding => exact ScanOf.nothing last
          | record hnext _ =>
              have hin := hnext.inside
              have hlong := hnext.holds
              have hone := hnext.named
              omega

end Scan

section Sector

/-- A range that is copied onto itself does not change. -/
theorem memcpy_self (m : Nat → UInt8) (buf n : Nat) :
    memcpy buf buf n m = m := by
  funext x
  unfold memcpy
  by_cases hx : buf ≤ x ∧ x < buf + n
  · obtain ⟨i, rfl⟩ : ∃ i, x = buf + i := ⟨x - buf, by omega⟩
    rw [writeRange_inside _ _ _ (by omega)]
  · rw [writeRange_outside _ _ (by omega)]

variable
  {cfg : Settings}
  {image : Nat → UInt8}

/-- One sector read into `cdvdman_buf` itself, aligned or not. -/
theorem cdvdmanRead_sector
    {env : Nat → DeviceTurn} {cdvdmanBuf : Nat}
    (henv : ∀ t, ¬ (env t).Disturbed)
    (lsn : Nat) (s : DriveState) :
    (cdvdmanRead cfg image env cdvdmanBuf lsn 1 cdvdmanBuf s).mem =
      writeRange s.mem cdvdmanBuf 2048 (deliveredBytes image lsn) := by
  unfold cdvdmanRead
  by_cases hbuf : cdvdmanBuf % 4 ≠ 0
  · simp only [if_pos hbuf, cdvdmanReadUnaligned]
    rw [if_pos (by omega)]
    simp only [cdvdmanBufSectors]
    rw [show min 1 2 = 1 by omega, memcpy_self]
    exact cdvdmanReadSectors_one henv lsn cdvdmanBuf _
  · simp only [if_neg hbuf]
    exact cdvdmanReadSectors_one henv lsn cdvdmanBuf _

/-- Behind the boot logo, a sector is delivered as it is on the disc. -/
theorem deliveredBytes_behind
    {lsn : Nat}
    (image : Nat → UInt8)
    (h : 13 ≤ lsn) :
    deliveredBytes image lsn = sectorBytes image lsn :=
  if_neg (by omega)

variable
  {env : Nat → Option (Nat → DeviceTurn)}
  {cdvdmanBuf : Nat}

/-- An accepted and undisturbed read leaves the sector in `cdvdman_buf`. -/
theorem sceCdRead_holds
    (henv : ReadsSucceed env)
    (lsn : Nat) (s : SearchState) :
    ∃ s', sceCdRead cfg image env cdvdmanBuf lsn s = (true, s') ∧
      Holds cdvdmanBuf s'.drive.mem (deliveredBytes image lsn) := by
  obtain ⟨turns, hturns, hquiet⟩ := henv s.reads
  refine
    ⟨⟨cdvdmanRead cfg image turns cdvdmanBuf lsn 1 cdvdmanBuf s.drive,
      s.reads + 1⟩, by simp only [sceCdRead, hturns], ?_⟩
  intro i hi
  simp only
  rw [cdvdmanRead_sector hquiet]
  exact writeRange_inside _ _ _ hi

end Sector

section Walk

theorem sectorsOf_succ
    {n : Int} {k : Nat}
    (h : sectorsOf n = k + 1) :
    0 < n ∧ sectorsOf (n - 2048) = k := by
  unfold sectorsOf at h ⊢
  omega

variable
  {cfg : Settings}
  {image : Nat → UInt8}
  {env : Nat → Option (Nat → DeviceTurn)}
  {cdvdmanBuf : Nat}

/-- What the sector loop does with the record that is wanted, and without one. -/
structure WalkOf
    (cdvdmanBuf : Nat) (last : Bool) (wanted : Option DirTocEntry)
    (out : Walk × SearchState) : Prop where
  hit :
    ∀ e, wanted = some e →
      ∃ pos, tocEntry cdvdmanBuf out.2.drive.mem pos = e ∧
        out.1 = if last then .found pos else .enter pos
  miss : wanted = none → out.1 = .null

theorem WalkOf.nothing (last : Bool) (s : SearchState) :
    WalkOf cdvdmanBuf last none (.null, s) := by
  constructor
  · intro e he
    cases he
  · intro _
    rfl

/-- Directory sectors on the disc are what the reads of them deliver. -/
theorem LaidFrom.laidAt
    {lsn : Nat} {secs : List (List DirTocEntry)}
    (h : LaidFrom image lsn secs)
    (hlogo : 13 ≤ lsn)
    (hlsn : lsn + secs.length ≤ 4294967296) :
    LaidAt image lsn secs := by
  induction secs generalizing lsn with
  | nil => trivial
  | cons es secs ih =>
      obtain ⟨hsector, hrest⟩ := h
      rw [List.length_cons] at hlsn
      refine ⟨?_, ?_⟩
      · rw [deliveredBytes_behind image hlogo]
        exact hsector
      · cases secs with
        | nil => trivial
        | cons es' secs =>
            rw [List.length_cons] at hlsn
            rw [u32_of_lt (by omega)]
            exact ih hrest (by omega) (by rw [List.length_cons]; omega)

/-- The sector loop finds the first record wanted in its sectors. -/
theorem walkSectors_laid
    (henv : ReadsSucceed env)
    (hbuf : cdvdmanBuf + 4096 ≤ 4294967296)
    (turns : Nat) (last : Bool) (dirname : List UInt8)
    (secs : List (List DirTocEntry))
    {tocLBA : Nat} {tocLength : Int}
    (hlaid : LaidAt image tocLBA secs)
    (hlength : sectorsOf tocLength = secs.length)
    (hturns : ∀ es ∈ secs, es.length < turns)
    (s : SearchState) :
    WalkOf cdvdmanBuf last
      (denoted agrees DirTocEntry.isDirectory last dirname secs.flatten)
      (walkSectors cfg image env cdvdmanBuf turns last dirname secs.length
        tocLBA tocLength s) := by
  induction secs generalizing tocLBA tocLength s with
  | nil => exact WalkOf.nothing last s
  | cons es secs ih =>
      obtain ⟨hsector, hrest⟩ := hlaid
      obtain ⟨fin, hpacked⟩ := hsector.packed
      rw [List.length_cons] at hlength
      obtain ⟨hpos, hleft⟩ := sectorsOf_succ hlength
      obtain ⟨s', hread, hholds⟩ :=
        @sceCdRead_holds cfg image env cdvdmanBuf henv tocLBA s
      have hscan :=
        scanRecords_packed hholds hbuf last dirname hpacked (by omega)
          (hturns es List.mem_cons_self)
      simp only [walkSectors, List.length_cons, if_pos hpos, hread,
        List.flatten_cons, denoted_append]
      cases hwanted :
          denoted agrees DirTocEntry.isDirectory last dirname es with
      | some e =>
          obtain ⟨pos, he, hout⟩ := hscan.hit e hwanted
          rw [Nat.cast_zero] at hout
          rw [hout]
          refine ⟨?_, fun hnone => by cases hnone⟩
          intro e' he'
          rw [Option.some_or, Option.some.injEq] at he'
          subst he'
          cases last with
          | true => exact ⟨pos, he, rfl⟩
          | false => exact ⟨pos, he, rfl⟩
      | none =>
          have hout := hscan.miss hwanted
          rw [Nat.cast_zero] at hout
          rw [hout, Option.none_or]
          exact ih hrest hleft
            (fun es hes => hturns es (List.mem_cons_of_mem _ hes)) s'

end Walk

section Inside

variable {cdvdmanBuf : Nat} {m m' f : Nat → UInt8}

/-- The records that the record loop looks at lie in the sector. -/
def recordsInside
    (cdvdmanBuf : Nat) (m : Nat → UInt8) (last : Bool) (dirname : List UInt8) :
    (turns : Nat) → (tocPos : Int) → Bool
  | 0, _ => true
  | turns + 1, tocPos =>
      let e := tocEntry cdvdmanBuf m tocPos
      decide (0 ≤ tocPos) &&
        (decide (e.length = 0) ||
          (decide (tocPos + 33 + e.filenameLength ≤ 2048) &&
            (if e.filenameLength ≠ 0 then
              if agrees dirname e && (last || e.isDirectory) then true
              else if nextPos tocPos e < 2016 then
                recordsInside cdvdmanBuf m last dirname turns (nextPos tocPos e)
              else true
            else if tocPos < 2016 then
              recordsInside cdvdmanBuf m last dirname turns tocPos
            else true)))

/-- The length of a record, and the length of its name, from the bytes of the
sector. -/
theorem Holds.tocEntry_lengths
    (h : Holds cdvdmanBuf m f)
    (hbuf : cdvdmanBuf + 4096 ≤ 4294967296)
    {pos : Nat}
    (hpos : pos < 2016) :
    (tocEntry cdvdmanBuf m pos).length = s16 (le16 (fun i => f (pos + i)) 0) ∧
      (tocEntry cdvdmanBuf m pos).filenameLength = (f (pos + 32)).toNat := by
  have h0 := @Holds.address cdvdmanBuf m f h hbuf pos 0 (by omega)
  have h1 := @Holds.address cdvdmanBuf m f h hbuf pos 1 (by omega)
  have h32 := @Holds.address cdvdmanBuf m f h hbuf pos 32 (by omega)
  constructor
  · simp only [tocEntry, DirTocEntry.ofBytes, le16, Nat.zero_add]
    rw [h0, h1]
  · simp only [tocEntry, DirTocEntry.ofBytes, DirTocEntry.filenameLength,
      List.length_map, List.length_range]
    rw [h32]

/-- A record inside the sector is the same in two memories that hold the
sector. -/
theorem Holds.tocEntry_congr
    (h : Holds cdvdmanBuf m f)
    (h' : Holds cdvdmanBuf m' f)
    (hbuf : cdvdmanBuf + 4096 ≤ 4294967296)
    {pos : Nat}
    (hpos : pos < 2016)
    (hinside : pos + 33 + (tocEntry cdvdmanBuf m pos).filenameLength ≤ 2048) :
    tocEntry cdvdmanBuf m' pos = tocEntry cdvdmanBuf m pos := by
  rw [(h.tocEntry_lengths hbuf hpos).2] at hinside
  rw [h.tocEntry_inside hbuf hinside, h'.tocEntry_inside hbuf hinside]

/-- Two loops that end in the same way, at the same record. -/
def SameScan
    (cdvdmanBuf : Nat) (m m' : Nat → UInt8) (out out' : Scan) : Prop :=
  out' = out ∧
    ∀ pos, out = .found pos ∨ out = .enter pos →
      tocEntry cdvdmanBuf m' pos = tocEntry cdvdmanBuf m pos

/-- Loops that end without a record. -/
theorem SameScan.of_no_record
    {out : Scan}
    (hfound : ∀ pos, out ≠ .found pos)
    (henter : ∀ pos, out ≠ .enter pos) :
    SameScan cdvdmanBuf m m' out out := by
  refine ⟨rfl, ?_⟩
  rintro pos (hout | hout)
  · exact absurd hout (hfound pos)
  · exact absurd hout (henter pos)

/-- Loops that end at a record of the same contents. -/
theorem SameScan.of_record
    {out : Scan} {n : Int}
    (hout : out = .found n ∨ out = .enter n)
    (hsame : tocEntry cdvdmanBuf m' n = tocEntry cdvdmanBuf m n) :
    SameScan cdvdmanBuf m m' out out := by
  refine ⟨rfl, ?_⟩
  rcases hout with rfl | rfl
  · rintro pos (hpos | hpos)
    · cases hpos
      exact hsame
    · cases hpos
  · rintro pos (hpos | hpos)
    · cases hpos
    · cases hpos
      exact hsame

/-- The record loop depends on the sector alone. -/
theorem scanRecords_congr
    (h : Holds cdvdmanBuf m f)
    (h' : Holds cdvdmanBuf m' f)
    (hbuf : cdvdmanBuf + 4096 ≤ 4294967296)
    (last : Bool) (dirname : List UInt8) :
    ∀ (turns : Nat) (tocPos : Int),
      tocPos < 2016 →
      recordsInside cdvdmanBuf m last dirname turns tocPos = true →
      SameScan cdvdmanBuf m m'
        (scanRecords cdvdmanBuf m last dirname turns tocPos)
        (scanRecords cdvdmanBuf m' last dirname turns tocPos) := by
  intro turns
  induction turns with
  | zero =>
      intro tocPos _ _
      exact
        SameScan.of_no_record (fun _ hout => by cases hout)
          (fun _ hout => by cases hout)
  | succ turns ih =>
      intro tocPos hlow hinside
      simp only [recordsInside, Bool.and_eq_true, Bool.or_eq_true,
        decide_eq_true_eq] at hinside
      obtain ⟨hpos, hrest⟩ := hinside
      obtain ⟨n, rfl⟩ : ∃ n : Nat, tocPos = n := ⟨tocPos.toNat, by omega⟩
      have hn : n < 2016 := by omega
      have hlength :
          (tocEntry cdvdmanBuf m' n).length = (tocEntry cdvdmanBuf m n).length := by
        rw [(h.tocEntry_lengths hbuf hn).1, (h'.tocEntry_lengths hbuf hn).1]
      have hends : SameScan cdvdmanBuf m m' .next .next :=
        SameScan.of_no_record (fun _ hout => by cases hout) (fun _ hout => by cases hout)
      by_cases hzero : (tocEntry cdvdmanBuf m n).length = 0
      · simp only [scanRecords, hlength, if_pos hzero]
        exact hends
      · rcases hrest with hzero' | ⟨hsector, hgoes⟩
        · exact absurd hzero' hzero
        have hsame :
            tocEntry cdvdmanBuf m' n = tocEntry cdvdmanBuf m n :=
          h.tocEntry_congr h' hbuf hn (by omega)
        have hfounds := SameScan.of_record (Or.inl rfl) hsame
        have henters := SameScan.of_record (Or.inr rfl) hsame
        generalize hentry : tocEntry cdvdmanBuf m n = e at *
        simp only [scanRecords, hentry, hsame, if_neg hzero]
        by_cases hnamed : e.filenameLength ≠ 0
        · rw [if_pos hnamed] at hgoes
          rw [if_pos hnamed, if_pos hnamed]
          by_cases hfound : (agrees dirname e && last) = true
          · rw [if_pos hfound, if_pos hfound]
            exact hfounds
          rw [if_neg hfound, if_neg hfound]
          by_cases henter : (agrees dirname e && e.isDirectory) = true
          · rw [if_pos henter, if_pos henter]
            exact henters
          rw [if_neg henter, if_neg henter]
          have hnot :
              ¬ (agrees dirname e = true ∧
                (last = true ∨ e.isDirectory = true)) := by
            rintro ⟨hname, hl | hd⟩
            · exact hfound (by simp [hname, hl])
            · exact henter (by simp [hname, hd])
          rw [if_neg hnot] at hgoes
          by_cases hmore : nextPos n e < 2016
          · rw [if_pos hmore] at hgoes
            rw [if_pos hmore, if_pos hmore]
            exact ih _ hmore hgoes
          · rw [if_neg hmore, if_neg hmore]
            exact hends
        · rw [if_neg hnamed] at hgoes
          rw [if_neg hnamed, if_neg hnamed]
          rw [if_pos hlow] at hgoes
          rw [if_pos hlow, if_pos hlow]
          exact ih _ hlow hgoes

end Inside

end Iso
end Ps2Cdvd
