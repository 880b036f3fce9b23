import Ps2Cdvd.Files.ReadSlice
import Ps2Cdvd.Lib.Slots

/-!
# The table of open files

`cdvdman_fdhandles` has 64 slots.  `cdvdman_open` takes the first one whose `f` is
`NULL` and lets the file structure point to it and it to the file structure;
`cdrom_close` clears the slot.  All operations run one after the other, inside
`cdrom_io_sema`.

The state has, besides the table, the fields `mode` and `privdata` of the file
structures `φ`, the drive, and which files are live: between a successful open and
their close.  What an operation meets outside (the lookup, the drive) is part of it.

* `cdvdmanOpen_cases`, `exec_cases`: what one operation does to the table;
* `openFiles_apart`: what holds in every state that is reached by operations on live
  files, and for every such operation in it.
-/

namespace Ps2Cdvd
namespace Files

open Lib Read
open Clients (FHandle cdvdmanGetfilefreeslot maxFdhandles)

universe u

section Source

/-- `O_RDONLY`. -/
def oRdonly : Nat := 1

def seekSet : Int := 0
def seekCur : Int := 1
def seekEnd : Int := 2

/-- What `cdrom_dread` stores: `stat.mode`, `stat.size` and `name`. -/
structure Dirent where
  mode : Nat
  size : Nat
  name : List UInt8
deriving DecidableEq

/-- The handles, the file structures and the drive.  `live` tells which files are
between a successful open and their close. -/
structure TableState (φ : Type u) where
  fdhandles : Fin maxFdhandles → FHandle φ
  mode : φ → Nat
  privdata : φ → Option (Fin maxFdhandles)
  live : φ → Bool
  drive : DriveState

/-- After `fs_init`. -/
def TableState.initial (φ : Type u)
    (mode : φ → Nat) (privdata : φ → Option (Fin maxFdhandles))
    (drive : DriveState) :
    TableState φ where
  fdhandles := fun _ => .zero φ
  mode := mode
  privdata := privdata
  live := fun _ => false
  drive := drive

/-- An operation on the file structure `f`.  `found` is what `cdvdman_findfile`
finds and `drive` the drive behind it; `turn`, `accepted` and `device` are what the
sector reads meet; `fuel` bounds the record loop of `cdrom_dread`. -/
inductive Op (φ : Type u)
  | cdromOpen (f : φ) (unit : Int) (found : Option Iso.CdFile) (drive : DriveState)
  | cdromDopen (f : φ) (unit : Int) (found : Option Iso.CdFile) (drive : DriveState)
  | cdromClose (f : φ)
  | cdromRead (f : φ) (buf : Nat) (size : Int) (turn : Nat → ReadTurn)
  | cdromLseek (f : φ) (offset whence : Int)
  | cdromDread (f : φ) (accepted : Bool) (device : Nat → DeviceTurn) (fuel : Nat)

/-- The result of an operation, the directory entry it stores, and the state. -/
structure Done (φ : Type u) where
  result : Int
  dirent : Option Dirent
  state : TableState φ

variable {φ : Type u}

variable [DecidableEq φ]

/-- `cdvdman_open`, after `cdvdman_init`. -/
def cdvdmanOpen (f : φ) (unit : Int) (found : Option Iso.CdFile)
    (drive : DriveState) (s : TableState φ) :
    Int × TableState φ :=
  if unit < 2 then
    match cdvdmanGetfilefreeslot s.fdhandles with
    | some k =>
        match found with
        | some cdfile =>
            (0,
              { s with
                fdhandles := Function.update s.fdhandles k
                  ⟨some f, cdfile.lsn, cdfile.size, 0⟩
                privdata := Function.update s.privdata f (some k)
                live := Function.update s.live f true
                drive := drive })
        | none => (-Clients.enoent, { s with drive := drive })
    | none =>
        (-Clients.emfile, { s with drive := Fsv.sceCdDiskReady s.drive })
  else (-Clients.enoent, s)

/-- The new position of `cdrom_lseek`, before the test against `filesize`. -/
def seekPosition (fh : FHandle φ) (offset whence : Int) : Nat :=
  if whence = seekCur then u32 (fh.position + u32OfInt offset)
  else if whence = seekSet then u32OfInt offset
  else if whence = seekEnd then u32Sub fh.filesize (u32OfInt offset)
  else fh.position

/-- `cdrom_lseek`, on the handle of the file. -/
def cdromLseek (fh : FHandle φ) (offset whence : Int) : Int × FHandle φ :=
  let position := min (seekPosition fh offset whence) fh.filesize
  (s32 position, { fh with position := position })

/-- The record loop of `cdrom_dread`, for at most `fuel` records: the result, the
position and the record it ends at. -/
def dreadLoop (fsBuf : Nat) (mem : Nat → UInt8) :
    Nat → Nat → Option (Int × Nat × Iso.DirTocEntry)
  | 0, _ => none
  | fuel + 1, position =>
      let entry := Iso.tocEntry fsBuf mem position
      if entry.length = 0 then some (0, position, entry)
      else
        let next := u32OfInt (position + entry.length)
        if entry.filenameLength = 1 then dreadLoop fsBuf mem fuel next
        else some (1, next, entry)

/-- What `cdrom_dread` stores for a record. -/
def direntOf (entry : Iso.DirTocEntry) : Dirent where
  mode := if entry.isDirectory then 0x116d else 0x2124
  size := entry.fileSize
  name := entry.filename.takeWhile (fun c => c != 0)

variable (d : Setup)

/-- One operation.  `none`: the pointer of the file structure does not point to a
handle, or the record loop does not end. -/
def exec (s : TableState φ) : Op φ → Option (Done φ)
  | .cdromOpen f unit found drive =>
      let (result, t) := cdvdmanOpen f unit found drive s
      some ⟨result, none,
        if 0 ≤ result then { t with mode := Function.update t.mode f oRdonly }
        else t⟩
  | .cdromDopen f unit found drive =>
      let (result, t) := cdvdmanOpen f unit found drive s
      some ⟨result, none, t⟩
  | .cdromClose f =>
      (s.privdata f).map (fun k =>
        ⟨0, none,
          { s with
            fdhandles := Function.update s.fdhandles k (.zero φ)
            mode := Function.update s.mode f 0
            live := Function.update s.live f false }⟩)
  | .cdromRead f buf size turn =>
      (s.privdata f).map (fun k =>
        let (result, fh, io) :=
          cdromRead { d with turn := turn } (s.fdhandles k) buf size s.drive
        ⟨result, none,
          { s with
            fdhandles := Function.update s.fdhandles k fh
            drive := io.drive }⟩)
  | .cdromLseek f offset whence =>
      (s.privdata f).map (fun k =>
        let (result, fh) := cdromLseek (s.fdhandles k) offset whence
        ⟨result, none,
          { s with fdhandles := Function.update s.fdhandles k fh }⟩)
  | .cdromDread f accepted device fuel =>
      (s.privdata f).bind (fun k =>
        let fh := s.fdhandles k
        let drive := Fsv.sceCdDiskReady s.drive
        if accepted then
          let drive :=
            cdvdmanRead d.cfg d.image device d.cdvdmanBuf fh.lsn 1 d.fsBuf drive
          (dreadLoop d.fsBuf drive.mem fuel fh.position).map
            (fun (result, position, entry) =>
              ⟨result, some (direntOf entry),
                { s with
                  fdhandles :=
                    Function.update s.fdhandles k { fh with position := position }
                  drive := drive }⟩)
        else some ⟨0, none, { s with drive := drive }⟩)

/-- The state after an operation. -/
def tableStep (s : TableState φ) (op : Op φ) : Option (TableState φ) :=
  (exec d s op).map Done.state

end Source

section Apart

variable {φ : Type u}

/-- The file structure of an operation. -/
def Op.file : Op φ → φ
  | .cdromOpen f _ _ _ => f
  | .cdromDopen f _ _ _ => f
  | .cdromClose f => f
  | .cdromRead f _ _ _ => f
  | .cdromLseek f _ _ => f
  | .cdromDread f _ _ _ => f

/-- The operation opens a file on this unit. -/
def Op.Opens (op : Op φ) (unit : Int) : Prop :=
  match op with
  | .cdromOpen _ u _ _ => u = unit
  | .cdromDopen _ u _ _ => u = unit
  | _ => False

/-- A file structure is opened only while it is not live, and otherwise used only
while it is. -/
def UsesLiveFiles (s : TableState φ) : Op φ → Prop
  | .cdromOpen f _ _ _ => s.live f = false
  | .cdromDopen f _ _ _ => s.live f = false
  | .cdromClose f => s.live f = true
  | .cdromRead f _ _ _ => s.live f = true
  | .cdromLseek f _ _ => s.live f = true
  | .cdromDread f _ _ _ => s.live f = true

instance instDecidableUsesLiveFiles (s : TableState φ) :
    ∀ op, Decidable (UsesLiveFiles s op)
  | .cdromOpen f _ _ _ => inferInstanceAs (Decidable (s.live f = false))
  | .cdromDopen f _ _ _ => inferInstanceAs (Decidable (s.live f = false))
  | .cdromClose f => inferInstanceAs (Decidable (s.live f = true))
  | .cdromRead f _ _ _ => inferInstanceAs (Decidable (s.live f = true))
  | .cdromLseek f _ _ => inferInstanceAs (Decidable (s.live f = true))
  | .cdromDread f _ _ _ => inferInstanceAs (Decidable (s.live f = true))

/-- `slot.f` -/
def TableState.owner (s : TableState φ) (k : Fin maxFdhandles) : Option φ :=
  (s.fdhandles k).f

/-- The invariant of the table. -/
def TableInv (s : TableState φ) : Prop :=
  Paired s.live s.privdata s.owner

/-- All 64 slots belong to live files. -/
def AllSlotsLive (s : TableState φ) : Prop :=
  ∀ k, ∃ f, s.live f = true ∧ s.privdata f = some k

/-- The handles of the other live files are as before. -/
def KeepsOthers (s t : TableState φ) (f : φ) : Prop :=
  ∀ g, g ≠ f → s.live g = true →
    t.live g = true ∧ t.privdata g = s.privdata g ∧
      ∀ k, s.privdata g = some k → t.fdhandles k = s.fdhandles k

/-- What holds of the live files of a state. -/
structure FilesApart (s : TableState φ) : Prop where
  slots :
    ∀ f, s.live f = true →
      ∃ k, s.privdata f = some k ∧ (s.fdhandles k).f = some f
  distinct :
    ∀ f g, s.live f = true → s.live g = true → f ≠ g →
      s.privdata f ≠ s.privdata g
  count :
    ∀ l : List φ, l.Nodup → (∀ f ∈ l, s.live f = true) →
      l.length ≤ maxFdhandles

/-- What holds of an operation in a state. -/
structure OpApart [DecidableEq φ] (s : TableState φ) (op : Op φ) (r : Done φ) :
    Prop where
  emfile :
    ∀ unit, op.Opens unit →
      (r.result = -Clients.emfile ↔ unit < 2 ∧ AllSlotsLive s)
  failed :
    ∀ unit, op.Opens unit → r.result < 0 → r.state.fdhandles = s.fdhandles
  close :
    ∀ f, op = .cdromClose f →
      ∃ k, s.privdata f = some k ∧ (s.fdhandles k).f = some f ∧
        r.state.fdhandles = Function.update s.fdhandles k (.zero φ)
  others : KeepsOthers s r.state op.file

theorem TableInv.filesApart
    {s : TableState φ}
    (h : TableInv s) :
    FilesApart s := by
  refine ⟨h.owns, fun f g hf hg hne => h.slot_ne hf hg hne, ?_⟩
  intro l hnodup hlive
  have hle := h.length_le hnodup hlive
  rwa [Fintype.card_fin] at hle

theorem tableInv_initial
    (mode : φ → Nat) (privdata : φ → Option (Fin maxFdhandles))
    (drive : DriveState) :
    TableInv (TableState.initial φ mode privdata drive) := by
  refine ⟨?_, ?_⟩
  · intro f hf
    cases hf
  · intro k f hk
    cases hk

/-- Where the search finds no slot, every slot has an owner. -/
theorem cdvdmanGetfilefreeslot_none
    {fdhandles : Fin maxFdhandles → FHandle φ}
    (h : cdvdmanGetfilefreeslot fdhandles = none)
    (k : Fin maxFdhandles) :
    ∃ f, (fdhandles k).f = some f := by
  have hk := List.find?_eq_none.mp h k (List.mem_finRange k)
  rw [Option.isNone_iff_eq_none] at hk
  exact Option.ne_none_iff_exists'.mp hk

/-- The slot that the search finds is free. -/
theorem cdvdmanGetfilefreeslot_some
    {fdhandles : Fin maxFdhandles → FHandle φ}
    {k : Fin maxFdhandles}
    (h : cdvdmanGetfilefreeslot fdhandles = some k) :
    (fdhandles k).f = none := by
  have hk := List.find?_some h
  exact Option.isNone_iff_eq_none.mp hk

/-- The table is full exactly when the search finds no slot. -/
theorem TableInv.allSlotsLive_iff
    {s : TableState φ}
    (h : TableInv s) :
    AllSlotsLive s ↔ cdvdmanGetfilefreeslot s.fdhandles = none := by
  constructor
  · intro hall
    cases hfree : cdvdmanGetfilefreeslot s.fdhandles with
    | none => rfl
    | some k =>
        obtain ⟨f, hf, hk⟩ := hall k
        have howner : (s.fdhandles k).f = some f := h.owner_eq hf hk
        rw [cdvdmanGetfilefreeslot_some hfree] at howner
        cases howner
  · intro hnone k
    obtain ⟨f, hf⟩ := cdvdmanGetfilefreeslot_none hnone k
    exact ⟨f, h.used k f hf⟩

/-- The owners after a handle is replaced. -/
theorem owner_update
    (s : TableState φ) (k : Fin maxFdhandles) (fh : FHandle φ) :
    (fun j => (Function.update s.fdhandles k fh j).f) =
      Function.update s.owner k fh.f := by
  funext j
  by_cases hj : j = k
  · subst hj
    simp
  · simp [TableState.owner, hj]

/-- Replacing the handle of a file by one of the same file keeps the table. -/
theorem TableInv.keep
    {s t : TableState φ} {k : Fin maxFdhandles} {fh : FHandle φ}
    (h : TableInv s)
    (hf : fh.f = (s.fdhandles k).f)
    (hhandles : t.fdhandles = Function.update s.fdhandles k fh)
    (hprivdata : t.privdata = s.privdata)
    (hlive : t.live = s.live) :
    TableInv t := by
  have howner : t.owner = s.owner := by
    have hupdate := owner_update s k fh
    rw [hf] at hupdate
    have hsame : Function.update s.owner k (s.fdhandles k).f = s.owner :=
      Function.update_eq_self k s.owner
    rw [hsame] at hupdate
    funext j
    show (t.fdhandles j).f = _
    rw [hhandles]
    exact congrFun hupdate j
  show Paired t.live t.privdata t.owner
  rw [hlive, hprivdata, howner]
  exact h

/-- Replacing the handle of one file leaves those of the others. -/
theorem keepsOthers_of_update
    {s t : TableState φ} {f : φ} {k : Fin maxFdhandles} {fh : FHandle φ}
    (hk : ∀ g, g ≠ f → s.live g = true → s.privdata g ≠ some k)
    (hhandles : t.fdhandles = Function.update s.fdhandles k fh)
    (hprivdata : ∀ g, g ≠ f → t.privdata g = s.privdata g)
    (hlive : ∀ g, g ≠ f → t.live g = s.live g) :
    KeepsOthers s t f := by
  intro g hg hglive
  refine ⟨(hlive g hg).trans hglive, hprivdata g hg, ?_⟩
  intro j hj
  have hne : j ≠ k := by
    rintro rfl
    exact hk g hg hglive hj
  rw [hhandles, Function.update_of_ne hne]

/-- No other live file has the slot of a live one. -/
theorem TableInv.slot_of_live
    {s : TableState φ} {f : φ} {k : Fin maxFdhandles}
    (h : TableInv s)
    (hf : s.live f = true)
    (hk : s.privdata f = some k) :
    ∀ g, g ≠ f → s.live g = true → s.privdata g ≠ some k := by
  intro g hg hglive hgk
  exact h.slot_ne hglive hf hg (hgk.trans hk.symm)

variable [DecidableEq φ] {d : Setup}

/-- What `cdvdman_open` does: it takes a free slot, or leaves the table alone. -/
theorem cdvdmanOpen_cases
    {s : TableState φ} (h : TableInv s)
    (f : φ) (unit : Int) (found : Option Iso.CdFile) (drive : DriveState) :
    (∃ k, ∃ cdfile : Iso.CdFile,
      cdvdmanGetfilefreeslot s.fdhandles = some k ∧
      cdvdmanOpen f unit found drive s =
        (0,
          { s with
            fdhandles := Function.update s.fdhandles k
              ⟨some f, cdfile.lsn, cdfile.size, 0⟩
            privdata := Function.update s.privdata f (some k)
            live := Function.update s.live f true
            drive := drive })) ∨
    ∃ result drive',
      cdvdmanOpen f unit found drive s = (result, { s with drive := drive' }) ∧
      result < 0 ∧
      (result = -Clients.emfile ↔ unit < 2 ∧ AllSlotsLive s) := by
  have hdiffer : (-Clients.enoent : Int) ≠ -Clients.emfile := by decide
  have hnegative : (-Clients.enoent : Int) < 0 := by decide
  by_cases hunit : unit < 2
  · cases hfree : cdvdmanGetfilefreeslot s.fdhandles with
    | none =>
        right
        refine ⟨-Clients.emfile, Fsv.sceCdDiskReady s.drive, ?_, by decide, ?_⟩
        · simp only [cdvdmanOpen, if_pos hunit, hfree]
        · exact ⟨fun _ => ⟨hunit, h.allSlotsLive_iff.mpr hfree⟩, fun _ => rfl⟩
    | some k =>
        cases found with
        | some cdfile =>
            left
            refine ⟨k, cdfile, rfl, ?_⟩
            simp only [cdvdmanOpen, if_pos hunit, hfree]
        | none =>
            right
            refine ⟨-Clients.enoent, drive, ?_, hnegative, ?_⟩
            · simp only [cdvdmanOpen, if_pos hunit, hfree]
            · refine ⟨fun heq => absurd heq hdiffer, ?_⟩
              rintro ⟨-, hall⟩
              rw [h.allSlotsLive_iff, hfree] at hall
              cases hall
  · right
    refine ⟨-Clients.enoent, s.drive, ?_, hnegative, ?_⟩
    · simp only [cdvdmanOpen, if_neg hunit]
    · refine ⟨fun heq => absurd heq hdiffer, ?_⟩
      rintro ⟨hlow, -⟩
      exact absurd hlow hunit

/-- An open, of a file or of a directory, keeps the table. -/
theorem TableInv.opens
    {s t : TableState φ} {f : φ} {op : Op φ} {dirent : Option Dirent}
    (h : TableInv s)
    (unit : Int) (found : Option Iso.CdFile) (drive : DriveState)
    (hnew : s.live f = false)
    (hfile : op.file = f)
    (hopens : ∀ u, op.Opens u → u = unit)
    (hclose : ∀ g, op ≠ .cdromClose g)
    (hhandles :
      t.fdhandles = (cdvdmanOpen f unit found drive s).2.fdhandles)
    (hprivdata : t.privdata = (cdvdmanOpen f unit found drive s).2.privdata)
    (hlive : t.live = (cdvdmanOpen f unit found drive s).2.live) :
    TableInv t ∧
      OpApart s op ⟨(cdvdmanOpen f unit found drive s).1, dirent, t⟩ := by
  rcases cdvdmanOpen_cases h f unit found drive with
    ⟨k, cdfile, hfree, heq⟩ | ⟨result, drive', heq, hresult, hemfile⟩
  · rw [heq] at hhandles hprivdata hlive ⊢
    dsimp only at hhandles hprivdata hlive ⊢
    have hfreeOwner : s.owner k = none := cdvdmanGetfilefreeslot_some hfree
    have hnotall : ¬ AllSlotsLive s := by
      intro hall
      rw [h.allSlotsLive_iff, hfree] at hall
      cases hall
    have hothers : ∀ g, g ≠ f → s.live g = true → s.privdata g ≠ some k := by
      intro g _ hg hgk
      have howner := h.owner_eq hg hgk
      rw [hfreeOwner] at howner
      cases howner
    refine ⟨?_, ⟨?_, ?_, ?_, ?_⟩⟩
    · have howner : t.owner = Function.update s.owner k (some f) := by
        have hupdate := owner_update s k ⟨some f, cdfile.lsn, cdfile.size, 0⟩
        rw [← hhandles] at hupdate
        exact hupdate
      show Paired t.live t.privdata t.owner
      rw [hlive, hprivdata, howner]
      exact h.insert hnew hfreeOwner
    · intro u hu
      refine ⟨fun hzero => absurd hzero (by show (0 : Int) ≠ _; decide), ?_⟩
      rintro ⟨-, hall⟩
      exact absurd hall hnotall
    · intro u _ hnegative
      exact absurd hnegative (by show ¬ (0 : Int) < 0; decide)
    · intro g hg
      exact absurd hg (hclose g)
    · rw [hfile]
      exact keepsOthers_of_update hothers hhandles
        (fun g hg => by rw [hprivdata, Function.update_of_ne hg])
        (fun g hg => by rw [hlive, Function.update_of_ne hg])
  · rw [heq] at hhandles hprivdata hlive ⊢
    dsimp only at hhandles hprivdata hlive ⊢
    refine ⟨?_, ⟨?_, ?_, ?_, ?_⟩⟩
    · have howner : t.owner = s.owner := by
        funext j
        show (t.fdhandles j).f = _
        rw [hhandles]
        rfl
      show Paired t.live t.privdata t.owner
      rw [hlive, hprivdata, howner]
      exact h
    · intro u hu
      rw [hopens u hu]
      exact hemfile
    · intro _ _ _
      exact hhandles
    · intro g hg
      exact absurd hg (hclose g)
    · intro g _ hglive
      refine ⟨by rw [hlive]; exact hglive, by rw [hprivdata], ?_⟩
      intro k _
      rw [hhandles]

/-- The operations that neither open nor close a file: they replace its handle by
one of the same file. -/
theorem exec_cases
    {s : TableState φ} {op : Op φ} {r : Done φ}
    (hr : exec d s op = some r)
    (hopen : ∀ unit, ¬ op.Opens unit)
    (hclose : ∀ f, op ≠ .cdromClose f) :
    ∃ k fh,
      s.privdata op.file = some k ∧
      fh.f = (s.fdhandles k).f ∧
      r.state.fdhandles = Function.update s.fdhandles k fh ∧
      r.state.privdata = s.privdata ∧
      r.state.live = s.live := by
  cases op with
  | cdromOpen f unit found drive => exact absurd rfl (hopen unit)
  | cdromDopen f unit found drive => exact absurd rfl (hopen unit)
  | cdromClose f => exact absurd rfl (hclose f)
  | cdromRead f buf size turn =>
      obtain ⟨k, hk, rfl⟩ := Option.map_eq_some_iff.mp hr
      exact ⟨k, (cdromRead { d with turn := turn } (s.fdhandles k) buf size
        s.drive).2.1, hk, rfl, rfl, rfl, rfl⟩
  | cdromLseek f offset whence =>
      obtain ⟨k, hk, rfl⟩ := Option.map_eq_some_iff.mp hr
      exact ⟨k, (cdromLseek (s.fdhandles k) offset whence).2, hk, rfl, rfl, rfl,
        rfl⟩
  | cdromDread f accepted device fuel =>
      obtain ⟨k, hk, hrun⟩ := Option.bind_eq_some_iff.mp hr
      cases accepted with
      | true =>
          simp only [if_true, Option.map_eq_some_iff] at hrun
          obtain ⟨⟨result, position, entry⟩, -, rfl⟩ := hrun
          exact ⟨k, { s.fdhandles k with position := position }, hk, rfl, rfl,
            rfl, rfl⟩
      | false =>
          simp only [Bool.false_eq_true, if_false, Option.some.injEq] at hrun
          subst hrun
          exact ⟨k, s.fdhandles k, hk, rfl,
            (Function.update_eq_self k s.fdhandles).symm, rfl, rfl⟩

/-- One operation on live files keeps the table, and the files apart. -/
theorem TableInv.exec
    {s : TableState φ} {op : Op φ} {r : Done φ}
    (h : TableInv s)
    (hguard : UsesLiveFiles s op)
    (hr : exec d s op = some r) :
    TableInv r.state ∧ OpApart s op r := by
  have hother : UsesLiveFiles s op → s.live op.file = true →
      (∀ unit, ¬ op.Opens unit) → (∀ f, op ≠ .cdromClose f) →
      TableInv r.state ∧ OpApart s op r := by
    intro _ hlive hopen hclose
    obtain ⟨k, fh, hk, hf, hhandles, hprivdata, hlive'⟩ :=
      exec_cases hr hopen hclose
    refine ⟨h.keep hf hhandles hprivdata hlive',
      ⟨fun unit hu => absurd hu (hopen unit),
        fun unit hu => absurd hu (hopen unit),
        fun f hc => absurd hc (hclose f), ?_⟩⟩
    exact keepsOthers_of_update (h.slot_of_live hlive hk) hhandles
      (fun g _ => by rw [hprivdata]) (fun g _ => by rw [hlive'])
  cases op with
  | cdromOpen f unit found drive =>
      simp only [Files.exec, Option.some.injEq] at hr
      subst hr
      refine h.opens unit found drive hguard rfl
        (fun u hu => Eq.symm hu) (fun g hg => by cases hg) ?_ ?_ ?_
      · split_ifs
        · rfl
        · rfl
      · split_ifs
        · rfl
        · rfl
      · split_ifs
        · rfl
        · rfl
  | cdromDopen f unit found drive =>
      simp only [Files.exec, Option.some.injEq] at hr
      subst hr
      exact h.opens unit found drive hguard rfl
        (fun u hu => Eq.symm hu) (fun g hg => by cases hg) rfl rfl rfl
  | cdromClose f =>
      obtain ⟨k, hk, rfl⟩ := Option.map_eq_some_iff.mp hr
      have hlive : s.live f = true := hguard
      refine ⟨?_, ⟨fun unit hu => absurd hu id, fun unit hu => absurd hu id, ?_,
        ?_⟩⟩
      · have howner := owner_update s k (.zero φ)
        show Paired (Function.update s.live f false) s.privdata _
        have hfree : (TableState.owner
            { s with
              fdhandles := Function.update s.fdhandles k (.zero φ)
              mode := Function.update s.mode f 0
              live := Function.update s.live f false }) =
            Function.update s.owner k none := howner
        rw [hfree]
        exact h.remove hlive hk
      · rintro g ⟨⟩
        exact ⟨k, hk, h.owner_eq hlive hk, rfl⟩
      · exact keepsOthers_of_update (h.slot_of_live hlive hk) rfl (fun _ _ => rfl)
          (fun g hg => Function.update_of_ne hg _ _)
  | cdromRead f buf size turn =>
      exact hother hguard hguard (fun _ hu => hu) (fun g hg => by cases hg)
  | cdromLseek f offset whence =>
      exact hother hguard hguard (fun _ hu => hu) (fun g hg => by cases hg)
  | cdromDread f accepted device fuel =>
      exact hother hguard hguard (fun _ hu => hu) (fun g hg => by cases hg)

/-- **The open-file table keeps files apart.**  In every state reached by operations
that use files only between a successful open and their close and do not open live
ones again: the live files have different slots, which point back to them, and there
are at most 64; and every such operation in it fails with `-EMFILE` exactly for an
open on a valid unit while all slots are live, changes no slot when it is an open
that fails, frees exactly the slot of its file when it is a close, and leaves the
handles of all other live files as they are. -/
theorem openFiles_apart
    {mode : φ → Nat} {privdata : φ → Option (Fin maxFdhandles)}
    {drive : DriveState} {s : TableState φ}
    (hs :
      GuardedReach (tableStep d) UsesLiveFiles
        (TableState.initial φ mode privdata drive) s) :
    FilesApart s ∧
      ∀ op r, UsesLiveFiles s op → exec d s op = some r → OpApart s op r := by
  have hinv : TableInv s := by
    refine hs.invariant (tableInv_initial mode privdata drive) ?_
    intro u op t hu hguard ht
    obtain ⟨r, hr, rfl⟩ := Option.map_eq_some_iff.mp ht
    exact (hu.exec hguard hr).1
  exact ⟨hinv.filesApart, fun op r hguard hr => (hinv.exec hguard hr).2⟩

/-- Two files are opened, one is closed, and a third one gets its slot. -/
theorem openFiles_apart_threeFiles :
    ∃ s, runGuarded (tableStep steadySetup) UsesLiveFiles
        (TableState.initial (Fin 3) (fun _ => 0) (fun _ => none) restingDrive)
        [.cdromOpen 0 0 (some ⟨20, 5000, none⟩) restingDrive,
          .cdromOpen 1 0 (some ⟨30, 7000, none⟩) restingDrive,
          .cdromLseek 1 2000 0, .cdromClose 0,
          .cdromDopen 2 0 (some ⟨40, 2048, none⟩) restingDrive] = some s ∧
      s.privdata 2 = some ⟨0, by decide⟩ ∧
      (s.fdhandles ⟨1, by decide⟩).position = 2000 ∧
      FilesApart s := by
  have hrun :
      (runGuarded (tableStep steadySetup) UsesLiveFiles
        (TableState.initial (Fin 3) (fun _ => 0) (fun _ => none) restingDrive)
        [.cdromOpen 0 0 (some ⟨20, 5000, none⟩) restingDrive,
          .cdromOpen 1 0 (some ⟨30, 7000, none⟩) restingDrive,
          .cdromLseek 1 2000 0, .cdromClose 0,
          .cdromDopen 2 0 (some ⟨40, 2048, none⟩) restingDrive]).map
            (fun s => (s.privdata 2, (s.fdhandles ⟨1, by decide⟩).position)) =
        some (some ⟨0, by decide⟩, 2000) := by
    decide +kernel
  obtain ⟨s, hs, hshown⟩ := Option.map_eq_some_iff.mp hrun
  have hslot := congrArg Prod.fst hshown
  have hposition := congrArg Prod.snd hshown
  exact ⟨s, hs, hslot, hposition,
    (openFiles_apart (guardedReach_of_runGuarded _ hs)).1⟩

end Apart

end Files
end Ps2Cdvd
