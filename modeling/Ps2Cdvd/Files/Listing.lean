import Mathlib.Data.List.TakeWhile
import Ps2Cdvd.Files.Table

/-!
# Listing a directory

`cdrom_dread` reads the first sector of the directory, steps over the records with a
name of one character, and stores the next one; `fh->position` is the byte of the
sector where the next call goes on.

`DirExtent` is a well-formed directory extent: its sectors are `Packed` with records.

* `dreadLoop_next`, `dreadLoop_end`: what the record loop finds in a sector;
* `dreads_before`, `dreads_behind`: what the calls return while there are records left,
  and behind the last one;
* `dreads_lists_iff`: exactly when the calls list the directory.  Only the first sector
  is ever read, every name of one character is taken for `.` or `..`, and behind a
  sector without padding the loop reads what is behind the sector's buffer.
-/

namespace Ps2Cdvd
namespace Files

open Lib Read Iso
open Clients (cdvdmanGetfilefreeslot)

universe u

section Source

variable {φ : Type u} [DecidableEq φ] (d : Setup)

/-- `n` calls of `cdrom_dread` on `f`, one after the other: what they return and
store, and the state behind them.  The read of the `i`-th call meets `device i`. -/
def dreads
    (f : φ) (device : Nat → Nat → DeviceTurn) (fuel : Nat) :
    Nat → TableState φ → Option (List (Int × Option Dirent) × TableState φ)
  | 0, s => some ([], s)
  | n + 1, s =>
      (dreads f device fuel n s).bind (fun (outs, t) =>
        (exec d t (.cdromDread f true (device n) fuel)).map (fun r =>
          (outs ++ [(r.result, r.dirent)], r.state)))

end Source

section Purpose

/-- A well-formed directory extent: whole records in each sector, at first those of
the directory itself and of its parent, with the names 0 and 1.  `rest` is what follows
them in the first sector, up to byte `fin`, and `more` is in the other sectors. -/
structure DirExtent (image : Nat → UInt8) (lsn : Nat) where
  dot : DirTocEntry
  dotdot : DirTocEntry
  rest : List DirTocEntry
  more : List (List DirTocEntry)
  fin : Nat
  first : Packed (sectorBytes image lsn) fin 0 (dot :: dotdot :: rest)
  others :
    ∀ k es, more[k]? = some es →
      ∃ fin, Packed (sectorBytes image (lsn + 1 + k)) fin 0 es
  dotName : dot.filename = [0]
  dotdotName : dotdot.filename = [1]
  names : ∀ e ∈ rest ++ more.flatten, 0 ∉ e.filename ∧ e.filename ≠ [1]
  low : 16 < lsn
  high : lsn + 1 + more.length ≤ 4294967296

/-- What a directory lists for a record: the name, the size and the mode. -/
def listed (e : DirTocEntry) : Dirent where
  mode := if e.isDirectory then 0x116d else 0x2124
  size := e.fileSize
  name := e.filename

/-- What a directory lists: all its records but the first two, in order. -/
def DirExtent.expected
    {image : Nat → UInt8} {lsn : Nat} (v : DirExtent image lsn) : List Dirent :=
  (v.rest ++ v.more.flatten).map listed

/-- The call number `k` is right: 1 and the record number `k`, or 0 behind the last
one. -/
def RightAt (expected : List Dirent) (k : Nat) (out : Int × Option Dirent) : Prop :=
  match expected[k]? with
  | some dirent => out = (1, some dirent)
  | none => out.1 = 0

/-- Wherever the directory has been opened, any number of calls of `cdrom_dread` whose
reads succeed return, and each of them is right. -/
def DirExtent.ListedBy
    {φ : Type u} [DecidableEq φ]
    {image : Nat → UInt8} {lsn : Nat} (v : DirExtent image lsn)
    (d : Setup) (f : φ) : Prop :=
  ∀ (s t : TableState φ) (unit : Int) (cdfile : CdFile) (drive : DriveState),
    cdfile.lsn = lsn →
    cdfile.size = 2048 * (1 + v.more.length) →
    exec d s (.cdromDopen f unit (some cdfile) drive) = some ⟨0, none, t⟩ →
    ∃ enough, ∀ fuel device n,
      enough ≤ fuel →
      (∀ i j, ¬ (device i j).Disturbed) →
      ∃ outs t', dreads d f device fuel n t = some (outs, t') ∧
        outs.length = n ∧
        ∀ k out, outs[k]? = some out → RightAt v.expected k out

/-- All records are in the first sector, with two bytes of padding behind them, and
apart from `.` and `..` no name has one character. -/
structure DirExtent.Plain
    {image : Nat → UInt8} {lsn : Nat} (v : DirExtent image lsn) : Prop where
  oneSector : v.more.flatten = []
  padded : v.fin ≤ 2046
  longNames : ∀ e ∈ v.rest, e.filenameLength ≠ 1

end Purpose

section Records

variable {f m : Nat → UInt8} {fsBuf fin pos : Nat} {es : List DirTocEntry}

/-- The records of a sector end where their lengths say. -/
theorem packed_of_laid
    (h : Laid f pos es) :
    Packed f (pos + (es.map (fun e => e.length.toNat)).sum) pos es := by
  obtain ⟨fin, hpacked⟩ := h.packed
  rw [← hpacked.fin_eq]
  exact hpacked

/-- The records that the record loop does not step over. -/
def visible (es : List DirTocEntry) : List DirTocEntry :=
  es.filter (fun e => e.filenameLength != 1)

theorem visible_cons_of_short
    {e : DirTocEntry}
    (h : e.filenameLength = 1) :
    visible (e :: es) = visible es := by
  simp [visible, h]

theorem visible_cons_of_long
    {e : DirTocEntry}
    (h : e.filenameLength ≠ 1) :
    visible (e :: es) = e :: visible es := by
  simp [visible, h]

/-- One turn of the record loop, at a record of the sector. -/
theorem dreadLoop_record
    (hm : Holds fsBuf m f)
    (hfs : fsBuf + 4096 ≤ 4294967296)
    {e : DirTocEntry}
    (he : RecordIn f pos e)
    (fuel : Nat) :
    dreadLoop fsBuf m (fuel + 1) pos =
      if e.filenameLength = 1 then dreadLoop fsBuf m fuel (pos + (f pos).toNat)
      else some (1, pos + (f pos).toNat, e) := by
  have hlength := he.length_eq
  have hholds := he.holds
  have hinside := he.inside
  have hnonzero : e.length ≠ 0 := by
    omega
  have hnext : u32OfInt ((pos : Int) + e.length) = pos + (f pos).toNat := by
    rw [hlength, ← Nat.cast_add]
    exact u32OfInt_natCast (by omega)
  simp only [dreadLoop, hm.tocEntry_eq hfs he, if_neg hnonzero, hnext]

/-- The record loop ends at the first record that it does not step over. -/
theorem dreadLoop_next
    (hm : Holds fsBuf m f)
    (hfs : fsBuf + 4096 ≤ 4294967296)
    (h : Packed f fin pos es)
    {e : DirTocEntry} {rest : List DirTocEntry}
    (hvisible : visible es = e :: rest)
    {fuel : Nat}
    (hfuel : es.length < fuel) :
    ∃ pos' es',
      dreadLoop fsBuf m fuel pos = some (1, pos', e) ∧
        Packed f fin pos' es' ∧ visible es' = rest ∧ es'.length ≤ es.length := by
  induction h generalizing fuel with
  | padding _ _ => cases hvisible
  | @record pos e₀ es hrecord hrest ih =>
      obtain ⟨fuel, rfl⟩ : ∃ k, fuel = k + 1 := ⟨fuel - 1, by omega⟩
      rw [List.length_cons] at hfuel
      rw [dreadLoop_record hm hfs hrecord]
      by_cases hone : e₀.filenameLength = 1
      · rw [visible_cons_of_short hone] at hvisible
        have hfewer : es.length < fuel := by
          omega
        obtain ⟨pos', es', hloop, hpacked, hleft, hlen⟩ := ih hvisible hfewer
        refine ⟨pos', es', ?_, hpacked, hleft, ?_⟩
        · rw [if_pos hone]
          exact hloop
        · rw [List.length_cons]
          omega
      · rw [visible_cons_of_long hone, List.cons.injEq] at hvisible
        obtain ⟨rfl, hleft⟩ := hvisible
        refine ⟨_, es, ?_, hrest, hleft, ?_⟩
        · rw [if_neg hone]
        · rw [List.length_cons]
          omega

/-- Without such a record it comes to the end of the records. -/
theorem dreadLoop_end
    (hm : Holds fsBuf m f)
    (hfs : fsBuf + 4096 ≤ 4294967296)
    (h : Packed f fin pos es)
    (hvisible : visible es = [])
    {fuel : Nat}
    (hfuel : es.length < fuel) :
    ∃ left, dreadLoop fsBuf m fuel pos = dreadLoop fsBuf m (left + 1) fin := by
  induction h generalizing fuel with
  | padding _ _ =>
      obtain ⟨left, rfl⟩ : ∃ k, fuel = k + 1 := ⟨fuel - 1, by omega⟩
      exact ⟨left, rfl⟩
  | @record pos e es hrecord hrest ih =>
      obtain ⟨fuel, rfl⟩ : ∃ k, fuel = k + 1 := ⟨fuel - 1, by omega⟩
      rw [List.length_cons] at hfuel
      have hone : e.filenameLength = 1 := by
        by_contra hlong
        rw [visible_cons_of_long hlong] at hvisible
        cases hvisible
      rw [visible_cons_of_short hone] at hvisible
      rw [dreadLoop_record hm hfs hrecord, if_pos hone]
      exact ih hvisible (by omega)

/-- A record of length 0 ends the listing. -/
theorem dreadLoop_of_zero
    {left : Nat}
    (h : (tocEntry fsBuf m fin).length = 0) :
    dreadLoop fsBuf m (left + 1) fin = some (0, fin, tocEntry fsBuf m fin) := by
  simp only [dreadLoop, if_pos h]

/-- A record of another length and with a name that is longer is listed. -/
theorem dreadLoop_of_long
    (h : (tocEntry fsBuf m fin).length ≠ 0)
    (hname : (tocEntry fsBuf m fin).filenameLength ≠ 1)
    (left : Nat) :
    ∃ pos', dreadLoop fsBuf m (left + 1) fin =
      some (1, pos', tocEntry fsBuf m fin) := by
  simp only [dreadLoop, if_neg h, if_neg hname]
  exact ⟨_, rfl⟩

/-- The lengths of a record that begins in the first two sectors of the buffer. -/
theorem tocEntry_lengths
    (hfs : fsBuf + 4096 ≤ 4294967296)
    (hpos : pos + 33 ≤ 4096) :
    (tocEntry fsBuf m pos).length = s16 (le16 (fun i => m (fsBuf + (pos + i))) 0) ∧
      (tocEntry fsBuf m pos).filenameLength = (m (fsBuf + (pos + 32))).toNat := by
  have haddress : ∀ i : Nat, i < 33 →
      (((fsBuf : Int) + (pos : Int) + (i : Int)) % 4294967296).toNat =
        fsBuf + (pos + i) := by
    intro i hi
    omega
  constructor
  · simp only [tocEntry, DirTocEntry.ofBytes, le16]
    rw [haddress 0 (by omega), haddress (0 + 1) (by omega)]
  · simp only [tocEntry, DirTocEntry.ofBytes, DirTocEntry.filenameLength,
      List.length_map, List.length_range]
    rw [haddress 32 (by omega)]

/-- A name without zeros is stored as it is. -/
theorem direntOf_eq_listed
    {e : DirTocEntry}
    (h : 0 ∉ e.filename) :
    direntOf e = listed e := by
  have hname : e.filename.takeWhile (fun c => c != 0) = e.filename := by
    rw [List.takeWhile_eq_self_iff]
    intro c hc
    rw [bne_iff_ne]
    rintro rfl
    exact h hc
  simp only [direntOf, listed, hname]

end Records

section Calls

variable
  {φ : Type u} [DecidableEq φ]
  {d : Setup} {f : φ} {s : TableState φ} {m : Nat → UInt8}
  {device : Nat → Nat → DeviceTurn}
  {lsn fin pos fuel : Nat} {es : List DirTocEntry}

/-- `cdvdman_fs_buf`, of which the first two sectors count here, lies in the address
space and apart from `cdvdman_buf`. -/
structure Setup.FsBufPlaced (d : Setup) : Prop where
  fits : d.fsBuf + 4096 ≤ 4294967296
  apart : d.fsBuf + 4096 ≤ d.cdvdmanBuf ∨ d.cdvdmanBuf + 4096 ≤ d.fsBuf

/-- The memory behind the first sector of `cdvdman_fs_buf` is that of `m`. -/
def SameBehind (d : Setup) (m m' : Nat → UInt8) : Prop :=
  ∀ x, d.fsBuf + 2048 ≤ x → x < d.fsBuf + 4096 → m' x = m x

/-- The file is a directory at `lsn`, and the next call goes on at byte `pos`. -/
structure Reading
    (d : Setup) (f : φ) (lsn pos : Nat) (m : Nat → UInt8) (s : TableState φ) :
    Prop where
  slot :
    ∃ k, s.privdata f = some k ∧ (s.fdhandles k).lsn = lsn ∧
      (s.fdhandles k).position = pos
  behind : SameBehind d m s.drive.mem

/-- The record loop ends at byte `fin`, with the memory `m` behind the sector. -/
def EndsAt (d : Setup) (lsn fin : Nat) (m : Nat → UInt8) : Prop :=
  ∀ m', Holds d.fsBuf m' (sectorBytes d.image lsn) → SameBehind d m m' →
    (tocEntry d.fsBuf m' fin).length = 0

/-- One call: the record loop runs over the sector, and the file goes on where it
ended. -/
theorem Reading.dread
    (h : Reading d f lsn pos m s)
    (hplaced : d.FsBufPlaced)
    (hlow : 13 ≤ lsn)
    (hhigh : lsn < 4294967296)
    {turns : Nat → DeviceTurn}
    (hturns : ∀ j, ¬ (turns j).Disturbed) :
    ∃ m', Holds d.fsBuf m' (sectorBytes d.image lsn) ∧ SameBehind d m m' ∧
      ∀ fuel result pos' e,
        dreadLoop d.fsBuf m' fuel pos = some (result, pos', e) →
        ∃ t, exec d s (.cdromDread f true turns fuel) =
            some ⟨result, some (direntOf e), t⟩ ∧
          Reading d f lsn pos' m t := by
  obtain ⟨k, hk, hlsn, hpos⟩ := h.slot
  have hapart := hplaced.apart
  obtain ⟨drive, hdrive⟩ :
      ∃ drive, cdvdmanRead d.cfg d.image turns d.cdvdmanBuf lsn 1 d.fsBuf
        (Fsv.sceCdDiskReady s.drive) = drive :=
    ⟨_, rfl⟩
  have hread :
      ∀ x, x < d.cdvdmanBuf ∨ d.cdvdmanBuf + 4096 ≤ x →
        drive.mem x =
          writeRange s.drive.mem d.fsBuf 2048 (sectorBytes d.image lsn) x := by
    intro x hx
    rw [← hdrive]
    exact cdvdmanRead_delivers hturns hlow (by omega) (by omega) hx
  have hbehind : SameBehind d m drive.mem := by
    intro x hx hlt
    rw [hread x (by omega), writeRange_outside _ _ (Or.inr hx)]
    exact h.behind x hx hlt
  refine ⟨drive.mem, ?_, hbehind, ?_⟩
  · intro i hi
    rw [hread _ (by omega)]
    exact writeRange_inside _ _ _ hi
  · intro fuel result pos' e hloop
    refine
      ⟨{ s with
          fdhandles :=
            Function.update s.fdhandles k { s.fdhandles k with position := pos' }
          drive := drive }, ?_, ⟨k, hk, ?_, ?_⟩, hbehind⟩
    · simp only [exec, hk, Option.bind_some, if_true, hlsn, hpos, hdrive, hloop,
        Option.map_some]
    · simp only [Function.update_self]
      exact hlsn
    · simp only [Function.update_self]

/-- One more call that is right. -/
theorem rightAt_append
    {expected : List Dirent} {outs : List (Int × Option Dirent)}
    {last : Int × Option Dirent}
    (h : ∀ k out, outs[k]? = some out → RightAt expected k out)
    (hlast : RightAt expected outs.length last)
    (k : Nat) (out : Int × Option Dirent)
    (hk : (outs ++ [last])[k]? = some out) :
    RightAt expected k out := by
  rcases Nat.lt_trichotomy k outs.length with hlt | rfl | hgt
  · rw [List.getElem?_append_left hlt] at hk
    exact h k out hk
  · rw [List.getElem?_concat_length, Option.some.injEq] at hk
    exact hk ▸ hlast
  · rw [List.getElem?_eq_none (by simp; omega)] at hk
    cases hk

/-- So many calls return what the records of the sector say; those behind the last
record only if the loop ends there. -/
theorem dreads_run
    (h : Reading d f lsn pos m s)
    (hplaced : d.FsBufPlaced)
    (hlow : 13 ≤ lsn)
    (hhigh : lsn < 4294967296)
    (hdevice : ∀ i j, ¬ (device i j).Disturbed)
    (hpacked : Packed (sectorBytes d.image lsn) fin pos es)
    (hfuel : es.length < fuel)
    (n : Nat)
    (hend : (visible es).length < n → EndsAt d lsn fin m) :
    ∃ outs t pos' es',
      dreads d f device fuel n s = some (outs, t) ∧
        Reading d f lsn pos' m t ∧
        Packed (sectorBytes d.image lsn) fin pos' es' ∧
        es'.length < fuel ∧
        visible es' = (visible es).drop n ∧
        outs.length = n ∧
        ∀ k out, outs[k]? = some out → RightAt ((visible es).map direntOf) k out := by
  induction n with
  | zero =>
      exact ⟨[], s, pos, es, rfl, h, hpacked, hfuel, rfl, rfl, fun k out hk => by cases hk⟩
  | succ n ih =>
      obtain ⟨outs, t, pos₁, es₁, hrun, hreading, hpacked₁, hfuel₁, hleft, hlen, hright⟩ :=
        ih (fun hlt => hend (by omega))
      obtain ⟨m', hholds, hbehind, hcall⟩ :=
        hreading.dread hplaced hlow hhigh (hdevice n)
      cases hnext : visible es₁ with
      | nil =>
          rw [hnext, eq_comm, List.drop_eq_nil_iff] at hleft
          obtain ⟨left, hloop⟩ :=
            dreadLoop_end hholds hplaced.fits hpacked₁ hnext hfuel₁
          rw [dreadLoop_of_zero (hend (by omega) m' hholds hbehind)] at hloop
          obtain ⟨t', hexec, hreading'⟩ := hcall _ _ _ _ hloop
          have hnone : ((visible es).map direntOf)[outs.length]? = none := by
            rw [List.getElem?_eq_none]
            rw [List.length_map, hlen]
            exact hleft
          refine
            ⟨outs ++ [(0, some (direntOf (tocEntry d.fsBuf m' fin)))], t', fin, [],
              ?_, hreading',
              Packed.padding hpacked.fin_le hpacked.zeros, by simp; omega, ?_, ?_,
              rightAt_append hright ?_⟩
          · simp only [dreads, hrun, Option.bind_some, hexec, Option.map_some]
          · rw [eq_comm, List.drop_eq_nil_iff.mpr (by omega)]
            rfl
          · rw [List.length_append, hlen]
            rfl
          · simp only [RightAt, hnone]
      | cons e rest =>
          obtain ⟨pos', es', hloop, hpacked', hleft', hfewer⟩ :=
            dreadLoop_next hholds hplaced.fits hpacked₁ hnext hfuel₁
          obtain ⟨t', hexec, hreading'⟩ := hcall _ _ _ _ hloop
          rw [hnext] at hleft
          have hat : (visible es)[n]? = some e := by
            rw [← List.head?_drop, ← hleft]
            rfl
          have hsome :
              ((visible es).map direntOf)[outs.length]? = some (direntOf e) := by
            rw [List.getElem?_map, hlen, hat]
            rfl
          refine
            ⟨outs ++ [(1, some (direntOf e))], t', pos', es', ?_, hreading', hpacked',
              by omega, ?_, ?_, rightAt_append hright ?_⟩
          · simp only [dreads, hrun, Option.bind_some, hexec, Option.map_some]
          · rw [hleft', ← List.drop_drop, ← hleft]
            rfl
          · rw [List.length_append, hlen]
            rfl
          · simp only [RightAt, hsome]

end Calls

section Listings

variable
  {φ : Type u} [DecidableEq φ]
  {d : Setup} {f : φ}
  {lsn : Nat}

/-- Where a directory has been opened, the calls begin at its first byte. -/
theorem reading_of_dopen
    {s t : TableState φ} {unit : Int} {cdfile : CdFile} {drive : DriveState}
    (h : exec d s (.cdromDopen f unit (some cdfile) drive) = some ⟨0, none, t⟩) :
    Reading d f cdfile.lsn 0 t.drive.mem t := by
  simp only [exec, Option.some.injEq, Done.mk.injEq, true_and] at h
  obtain ⟨hresult, hstate⟩ := h
  simp only [cdvdmanOpen] at hresult hstate
  by_cases hunit : unit < 2
  · rw [if_pos hunit] at hresult hstate
    cases hslot : cdvdmanGetfilefreeslot s.fdhandles with
    | none =>
        rw [hslot] at hresult
        cases hresult
    | some k =>
        rw [hslot] at hstate
        subst hstate
        refine ⟨⟨k, ?_, ?_, ?_⟩, fun x _ _ => rfl⟩
        · simp only [Function.update_self]
        · simp only [Function.update_self]
        · simp only [Function.update_self]
  · rw [if_neg hunit] at hresult
    cases hresult

/-- With an empty table, a directory that is found can be opened, whatever the memory
holds. -/
theorem dopen_initial
    (d : Setup) (f : φ) (cdfile : CdFile) (drive : DriveState) :
    ∃ t, exec d (TableState.initial φ (fun _ => 0) (fun _ => none) drive)
        (.cdromDopen f 0 (some cdfile) drive) = some ⟨0, none, t⟩ ∧
      t.drive = drive := by
  have hslot :
      cdvdmanGetfilefreeslot
          (TableState.initial φ (fun _ => 0) (fun _ => none) drive).fdhandles =
        some ⟨0, by decide⟩ :=
    rfl
  refine
    ⟨{ TableState.initial φ (fun _ => 0) (fun _ => none) drive with
        fdhandles := Function.update (fun _ => .zero φ) ⟨0, by decide⟩
          ⟨some f, cdfile.lsn, cdfile.size, 0⟩
        privdata := Function.update (fun _ => none) f (some ⟨0, by decide⟩)
        live := Function.update (fun _ => false) f true
        drive := drive }, ?_, rfl⟩
  simp only [exec, cdvdmanOpen, hslot]
  rfl

variable (v : DirExtent d.image lsn)

/-- The record loop steps over the first two records. -/
theorem DirExtent.visible_first :
    visible (v.dot :: v.dotdot :: v.rest) = visible v.rest := by
  have hdot : v.dot.filenameLength = 1 := by
    simp [DirTocEntry.filenameLength, v.dotName]
  have hdotdot : v.dotdot.filenameLength = 1 := by
    simp [DirTocEntry.filenameLength, v.dotdotName]
  rw [visible_cons_of_short hdot, visible_cons_of_short hdotdot]

/-- The records that the calls list have names without zeros. -/
theorem DirExtent.visible_dirents :
    (visible v.rest).map direntOf = (visible v.rest).map listed := by
  apply List.map_congr_left
  intro e he
  apply direntOf_eq_listed
  exact (v.names e (List.mem_append_left _ (List.mem_of_mem_filter he))).1

/-- Two bytes of padding end the record loop. -/
theorem DirExtent.endsAt
    (hplaced : d.FsBufPlaced)
    (hpadded : v.fin ≤ 2046)
    (m : Nat → UInt8) :
    EndsAt d lsn v.fin m := by
  intro m' hholds _
  exact hholds.tocEntry_length_zero hplaced.fits (by omega) v.first.zeros

/-- A sector without padding, with zeros behind it. -/
theorem DirExtent.endsAt_zeros
    (hplaced : d.FsBufPlaced) :
    EndsAt d lsn v.fin (fun _ => 0) := by
  intro m' hholds hbehind
  have hfin := v.first.fin_le
  have hbyte : ∀ i, i < 2 → m' (d.fsBuf + (v.fin + i)) = 0 := by
    intro i hi
    by_cases hin : v.fin + i < 2048
    · rw [hholds _ hin]
      exact v.first.zeros _ (by omega) hin
    · exact hbehind _ (by omega) (by omega)
  rw [(tocEntry_lengths hplaced.fits (by omega)).1]
  simp only [le16]
  rw [hbyte 0 (by omega), hbyte (0 + 1) (by omega)]
  rfl

/-- A sector without padding, with twos behind it: the loop finds one more record
there. -/
theorem DirExtent.goesOn_twos
    (hplaced : d.FsBufPlaced)
    (hpadded : 2046 < v.fin)
    {m' : Nat → UInt8}
    (hbehind : SameBehind d (fun _ => 2) m') :
    (tocEntry d.fsBuf m' v.fin).length ≠ 0 ∧
      (tocEntry d.fsBuf m' v.fin).filenameLength ≠ 1 := by
  have hfin := v.first.fin_le
  obtain ⟨hlength, hname⟩ :=
    @tocEntry_lengths m' d.fsBuf v.fin hplaced.fits (by omega)
  have hhigh : m' (d.fsBuf + (v.fin + (0 + 1))) = 2 :=
    hbehind _ (by omega) (by omega)
  have hchars : m' (d.fsBuf + (v.fin + 32)) = 2 := hbehind _ (by omega) (by omega)
  rw [hlength, hname, hchars]
  refine ⟨?_, by decide⟩
  have hbyte := (m' (d.fsBuf + (v.fin + 0))).toNat_lt
  have htwo : (2 : UInt8).toNat = 2 := rfl
  simp only [le16]
  rw [hhigh, htwo, s16_of_lt (by omega)]
  omega

/-- What the calls return from an opened directory, while there are records, and
behind them if the loop ends there. -/
theorem DirExtent.dreads_opened
    (hplaced : d.FsBufPlaced)
    {t : TableState φ} {m : Nat → UInt8}
    (ht : Reading d f lsn 0 m t)
    {device : Nat → Nat → DeviceTurn} {fuel : Nat}
    (hdevice : ∀ i j, ¬ (device i j).Disturbed)
    (hfuel : v.rest.length + 2 < fuel)
    (n : Nat)
    (hend : (visible v.rest).length < n → EndsAt d lsn v.fin m) :
    ∃ outs t' pos' es',
      dreads d f device fuel n t = some (outs, t') ∧
        Reading d f lsn pos' m t' ∧
        Packed (sectorBytes d.image lsn) v.fin pos' es' ∧
        es'.length < fuel ∧
        visible es' = (visible v.rest).drop n ∧
        outs.length = n ∧
        ∀ k out, outs[k]? = some out →
          RightAt ((visible v.rest).map listed) k out := by
  have hlow := v.low
  have hhigh := v.high
  have hrun :=
    dreads_run ht hplaced (by omega) (by omega) hdevice v.first hfuel n
  rw [v.visible_first, v.visible_dirents] at hrun
  exact hrun hend

/-- A plain directory is listed. -/
theorem DirExtent.Plain.listedBy
    {v : DirExtent d.image lsn}
    (h : v.Plain)
    (hplaced : d.FsBufPlaced) :
    v.ListedBy d f := by
  intro s t unit cdfile drive hlsn _ hopen
  have ht := reading_of_dopen hopen
  rw [hlsn] at ht
  have hall : visible v.rest = v.rest := by
    rw [visible, List.filter_eq_self]
    intro e he
    simpa using h.longNames e he
  refine ⟨v.rest.length + 3, ?_⟩
  intro fuel device n hfuel hdevice
  have hmore : v.rest.length + 2 < fuel := by
    omega
  obtain ⟨outs, t', -, -, hrun, -, -, -, -, hlen, hright⟩ :=
    v.dreads_opened hplaced ht hdevice hmore n
      (fun _ => v.endsAt hplaced h.padded _)
  refine ⟨outs, t', hrun, hlen, ?_⟩
  rw [hall] at hright
  rw [DirExtent.expected, h.oneSector, List.append_nil]
  exact hright

/-- What a call that is right returns. -/
theorem RightAt.result
    {l : List Dirent} {k : Nat} {out : Int × Option Dirent}
    (h : RightAt l k out) :
    out.1 = if k < l.length then 1 else 0 := by
  by_cases hk : k < l.length
  · rw [RightAt, List.getElem?_eq_getElem hk] at h
    rw [if_pos hk, h]
  · rw [RightAt, List.getElem?_eq_none (by omega)] at h
    rw [if_neg hk]
    exact h

/-- Calls that are right for two listings, one of which they pass. -/
theorem length_le_of_rightAt
    {l l' : List Dirent} {outs : List (Int × Option Dirent)}
    (hlen : l.length ≤ outs.length)
    (h : ∀ k out, outs[k]? = some out → RightAt l k out)
    (h' : ∀ k out, outs[k]? = some out → RightAt l' k out) :
    l.length ≤ l'.length := by
  by_contra hgt
  have hk : l'.length < outs.length := by
    omega
  have hsome : outs[l'.length]? = some outs[l'.length] :=
    List.getElem?_eq_getElem hk
  have hone := (h _ _ hsome).result
  have hzero := (h' _ _ hsome).result
  rw [if_pos (by omega)] at hone
  rw [if_neg (by omega), hone] at hzero
  cases hzero

/-- A directory that is listed can be opened with anything in memory, and is listed
then. -/
theorem DirExtent.ListedBy.opened
    {v : DirExtent d.image lsn}
    (h : v.ListedBy d f)
    (m : Nat → UInt8) :
    ∃ t enough, Reading d f lsn 0 m t ∧
      ∀ fuel device n, enough ≤ fuel → (∀ i j, ¬ (device i j).Disturbed) →
        ∃ outs t', dreads d f device fuel n t = some (outs, t') ∧
          outs.length = n ∧
          ∀ k out, outs[k]? = some out → RightAt v.expected k out := by
  obtain ⟨t, hopen, hdrive⟩ :=
    dopen_initial d f ⟨lsn, 2048 * (1 + v.more.length), none⟩
      { restingDrive with mem := m }
  obtain ⟨enough, hlists⟩ := h _ t 0 _ _ rfl rfl hopen
  have ht := reading_of_dopen hopen
  rw [hdrive] at ht
  exact ⟨t, enough, ht, hlists⟩

/-- Reads that succeed. -/
theorem exists_undisturbed :
    ∃ device : Nat → Nat → DeviceTurn, ∀ i j, ¬ (device i j).Disturbed :=
  ⟨fun _ => quietTurns, fun _ t => quietTurns_undisturbed t⟩

/-- The calls return as many entries as there are records. -/
theorem DirExtent.ListedBy.length_eq
    {v : DirExtent d.image lsn}
    (h : v.ListedBy d f)
    (hplaced : d.FsBufPlaced) :
    (visible v.rest).length = v.expected.length := by
  obtain ⟨t, enough, ht, hlists⟩ := h.opened (fun _ => 0)
  obtain ⟨fuel, hfuel⟩ : ∃ fuel, fuel = enough + v.rest.length + 3 := ⟨_, rfl⟩
  have hmore : v.rest.length + 2 < fuel := by
    omega
  obtain ⟨device, hdevice⟩ := exists_undisturbed
  obtain ⟨outs, t', hrun, hlen, hright⟩ :=
    hlists fuel device ((visible v.rest).length + v.expected.length) (by omega)
      hdevice
  obtain ⟨outs', t'', -, -, hrun', -, -, -, -, -, hright'⟩ :=
    v.dreads_opened hplaced ht hdevice hmore
      ((visible v.rest).length + v.expected.length)
      (fun _ => v.endsAt_zeros hplaced)
  rw [hrun, Option.some.injEq, Prod.mk.injEq] at hrun'
  rw [← hrun'.1] at hright'
  have hle := length_le_of_rightAt (by omega) hright hright'
  have hge :=
    length_le_of_rightAt (by rw [List.length_map]; omega) hright' hright
  rw [List.length_map] at hle hge
  omega

/-- So all records are in the first sector, with longer names. -/
theorem DirExtent.ListedBy.contents
    {v : DirExtent d.image lsn}
    (h : v.ListedBy d f)
    (hplaced : d.FsBufPlaced) :
    v.more.flatten = [] ∧ ∀ e ∈ v.rest, e.filenameLength ≠ 1 := by
  have hlen := h.length_eq hplaced
  rw [DirExtent.expected, List.length_map, List.length_append] at hlen
  have hle : (visible v.rest).length ≤ v.rest.length := List.length_filter_le _ _
  have hnone : v.more.flatten.length = 0 := by
    omega
  have hall : (visible v.rest).length = v.rest.length := by
    omega
  refine ⟨List.length_eq_zero_iff.mp hnone, ?_⟩
  rw [visible, List.length_filter_eq_length_iff] at hall
  intro e he
  simpa using hall e he

/-- And there is padding behind them: otherwise the call behind the last record finds
one more behind the sector, where the memory has it. -/
theorem DirExtent.ListedBy.padded
    {v : DirExtent d.image lsn}
    (h : v.ListedBy d f)
    (hplaced : d.FsBufPlaced) :
    v.fin ≤ 2046 := by
  by_contra hfull
  obtain ⟨t, enough, ht, hlists⟩ := h.opened (fun _ => 2)
  obtain ⟨fuel, hfuel⟩ : ∃ fuel, fuel = enough + v.rest.length + 3 := ⟨_, rfl⟩
  have hmore : v.rest.length + 2 < fuel := by
    omega
  obtain ⟨device, hdevice⟩ := exists_undisturbed
  have hlow := v.low
  have hhigh := v.high
  obtain ⟨n, hn⟩ : ∃ n, n = (visible v.rest).length := ⟨_, rfl⟩
  obtain ⟨outs, t', pos', es', hrun, hreading, hpacked, hshort, hleft, hlen, -⟩ :=
    v.dreads_opened hplaced ht hdevice hmore n (fun hlt => absurd hlt (by omega))
  rw [List.drop_eq_nil_of_le (by omega)] at hleft
  obtain ⟨m', hholds, hbehind, hcall⟩ :=
    hreading.dread hplaced (by omega) (by omega) (hdevice n)
  obtain ⟨left, hloop⟩ := dreadLoop_end hholds hplaced.fits hpacked hleft hshort
  obtain ⟨hlength, hname⟩ := v.goesOn_twos hplaced (by omega) hbehind
  obtain ⟨pos'', hlong⟩ := dreadLoop_of_long hlength hname left
  rw [hlong] at hloop
  obtain ⟨t'', hexec, -⟩ := hcall _ _ _ _ hloop
  obtain ⟨outs', t₁, hrun', -, hright⟩ :=
    hlists fuel device (n + 1) (by omega) hdevice
  simp only [dreads, hrun, Option.bind_some, hexec, Option.map_some,
    Option.some.injEq, Prod.mk.injEq] at hrun'
  have hlast :
      outs'[outs.length]? =
        some (1, some (direntOf (tocEntry d.fsBuf m' v.fin))) := by
    rw [← hrun'.1]
    exact List.getElem?_concat_length
  have hzero := (hright _ _ hlast).result
  have hcount := h.length_eq hplaced
  rw [if_neg (by omega)] at hzero
  cases hzero

/-- **Exactly when a directory is listed.**  Wherever a well-formed directory is
opened, repeated calls of `cdrom_dread` return its records, but for `.` and `..`, once
each and in order, and 0 behind the last one, if and only if all its records are in its
first sector with two bytes of padding behind them and no other name has one
character. -/
theorem dreads_lists_iff
    (hplaced : d.FsBufPlaced) :
    v.ListedBy d f ↔ v.Plain := by
  constructor
  · intro h
    obtain ⟨hone, hlong⟩ := h.contents hplaced
    exact ⟨hone, h.padded hplaced, hlong⟩
  · intro h
    exact h.listedBy hplaced

/-- A disc with a root directory of two sectors at 20, and the directory `SUB` with one
file at 22. -/
def subImage : Nat → UInt8 :=
  imageOf
    [(20, recordBytes 20 4096 2 [0] ++ recordBytes 20 4096 2 [1] ++
       recordBytes 22 2048 2 [0x53, 0x55, 0x42]),
     (21, recordBytes 30 5 0 [0x41, 0x3b, 0x31]),
     (22, recordBytes 22 2048 2 [0] ++ recordBytes 20 4096 2 [1] ++
       recordBytes 29 7 0 [0x42, 0x3b, 0x31])]

def subSetup : Setup := { steadySetup with image := subImage }

theorem laid_subImage_root :
    Laid (sectorBytes subImage 20) 0
      [⟨34, 20, 4096, 2, [0]⟩, ⟨34, 20, 4096, 2, [1]⟩,
        ⟨36, 22, 2048, 2, [0x53, 0x55, 0x42]⟩] :=
  laid_of_bytes (fun _ hi => sectorBytes_imageOf _ 20 hi) rfl (by decide) (by decide)

theorem laid_subImage_more :
    Laid (sectorBytes subImage 21) 0 [⟨36, 30, 5, 0, [0x41, 0x3b, 0x31]⟩] :=
  laid_of_bytes (fun _ hi => sectorBytes_imageOf _ 21 hi) rfl (by decide) (by decide)

theorem laid_subImage_sub :
    Laid (sectorBytes subImage 22) 0
      [⟨34, 22, 2048, 2, [0]⟩, ⟨34, 20, 4096, 2, [1]⟩,
        ⟨36, 29, 7, 0, [0x42, 0x3b, 0x31]⟩] :=
  laid_of_bytes (fun _ hi => sectorBytes_imageOf _ 22 hi) rfl (by decide) (by decide)

/-- The root directory. -/
def rootExtent : DirExtent subSetup.image 20 where
  dot := ⟨34, 20, 4096, 2, [0]⟩
  dotdot := ⟨34, 20, 4096, 2, [1]⟩
  rest := [⟨36, 22, 2048, 2, [0x53, 0x55, 0x42]⟩]
  more := [[⟨36, 30, 5, 0, [0x41, 0x3b, 0x31]⟩]]
  fin := 104
  first := packed_of_laid laid_subImage_root
  others := by
    intro k es hk
    obtain ⟨rfl, rfl⟩ : k = 0 ∧ es = [⟨36, 30, 5, 0, [0x41, 0x3b, 0x31]⟩] := by
      cases k with
      | zero => exact ⟨rfl, (Option.some.inj hk).symm⟩
      | succ k => cases hk
    exact ⟨_, packed_of_laid laid_subImage_more⟩
  dotName := rfl
  dotdotName := rfl
  names := by decide
  low := by decide
  high := by decide

/-- The directory `SUB`. -/
def subExtent : DirExtent subSetup.image 22 where
  dot := ⟨34, 22, 2048, 2, [0]⟩
  dotdot := ⟨34, 20, 4096, 2, [1]⟩
  rest := [⟨36, 29, 7, 0, [0x42, 0x3b, 0x31]⟩]
  more := []
  fin := 104
  first := packed_of_laid laid_subImage_sub
  others := by
    intro k es hk
    cases hk
  dotName := rfl
  dotdotName := rfl
  names := by decide
  low := by decide
  high := by decide

theorem subSetup_placed : subSetup.FsBufPlaced := ⟨by decide, by decide⟩

/-- `SUB` is listed. -/
theorem dreads_lists_iff_sub : subExtent.ListedBy subSetup (0 : Fin 1) :=
  (dreads_lists_iff subExtent subSetup_placed).mpr ⟨rfl, by decide, by decide⟩

/-- The root directory is not: `A;1`, in its second sector, is left out. -/
theorem dreads_misses_secondSector :
    (⟨0x2124, 5, [0x41, 0x3b, 0x31]⟩ : Dirent) ∈ rootExtent.expected ∧
      ¬ rootExtent.ListedBy subSetup (0 : Fin 1) := by
  refine ⟨by decide, ?_⟩
  intro h
  have hone := (h.contents subSetup_placed).1
  cases hone

end Listings

end Files
end Ps2Cdvd
