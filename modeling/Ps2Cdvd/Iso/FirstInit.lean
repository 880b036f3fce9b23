import Ps2Cdvd.Iso.Undisturbed

/-!
# The first `fs_init`

`cdvdman_init` tests `cdvdman_cdinited`, and `fs_init` tests `fs_inited`, without
a lock, and both flags are set only behind the reads of the volume descriptors.
The result of `sceCdRead` is not looked at there, and `cdvdman_buf` is used
without its semaphore.

* `cdvdmanInit_twice`: two threads prepare the device and clear the table of
  handles; and a descriptor that is asked for while the drive is busy leaves a
  wrong root extent for good;
* `cdvdmanInit_once_of_apart`: when `fs_init` is left alone, it is made once,
  before any handle is opened, and stores the roots that the disc records, the
  length of a record standing for the size of the root.
-/

namespace Ps2Cdvd
namespace Clients

open Lib Read Iso Requests
open SearchLock (CallId beginsRead inRead)

universe u v

section FirstInit

variable {ρ : Type u} {φ : Type v}
variable {d : Setup ρ φ} {s : State ρ φ}

/-- The first initialisation, in a state: the device and the table of handles
are prepared at most once, before any handle is opened, and before any call
returns; and with `fs_inited` set, `layer_info` holds the roots of the disc, at
the length that `fs_init` takes from their records. -/
structure InitOnce [DecidableEq φ] (d : Setup ρ φ) (s : State ρ φ) : Prop where
  atMostOnce :
    s.log.count .deviceFSInit ≤ 1 ∧ s.log.count .clearHandles ≤ 1
  performed :
    (s.fsInited = true ∨ ∃ i out, s.client i = .returned out) →
      .deviceFSInit ∈ s.log ∧ .clearHandles ∈ s.log
  beforeOpen :
    ∀ pre i post, s.log = pre ++ .openHandle i :: post →
      .deviceFSInit ∈ pre ∧ .clearHandles ∈ pre
  roots : s.fsInited = true → RootsStored d s

/-- The extent of a root as its record gives it, with `fileSize`. -/
def Setup.rootExtent (d : Setup ρ φ) (second : Bool) : LayerInfo where
  rootDirtocLBA := (d.root second).rootDirtocLBA
  rootDirtocLength :=
    (DirTocEntry.ofBytes fun i =>
      deliveredBytes d.image
        ((SectorRead.descriptor .sceCdInit second).lsn d.cfg) (0x9c + i)).fileSize

/-- What `fs_init` takes from the record of a root is its extent when the length
of the record is the size of the root. -/
theorem root_eq_rootExtent_iff (d : Setup ρ φ) (second : Bool) :
    d.root second = d.rootExtent second ↔
      (d.root second).rootDirtocLength =
        (d.rootExtent second).rootDirtocLength := by
  constructor
  · intro h
    rw [h]
  · intro h
    show d.root second =
      ⟨(d.root second).rootDirtocLBA, (d.rootExtent second).rootDirtocLength⟩
    rw [← h]

/-- The log of one `fs_init`, and of the handles opened behind it. -/
inductive LogOfOnce : List (FsEvent φ) → Prop
  | nothing : LogOfOnce []
  | device : LogOfOnce [.deviceFSInit]
  | handles (opened : List φ) :
      LogOfOnce (prepared ++ opened.map .openHandle)

/-- A handle is opened behind both events of `fs_init`. -/
theorem LogOfOnce.before
    {log pre post : List (FsEvent φ)} {i : φ}
    (h : LogOfOnce log)
    (hlog : log = pre ++ .openHandle i :: post) :
    .deviceFSInit ∈ pre ∧ .clearHandles ∈ pre := by
  cases h with
  | nothing =>
      have hlength := congrArg List.length hlog
      simp at hlength
  | device =>
      cases pre with
      | nil => cases hlog
      | cons x pre =>
          have htail := (List.cons.inj hlog).2
          have hlength := congrArg List.length htail
          simp at hlength
  | handles opened =>
      cases pre with
      | nil => cases hlog
      | cons x pre =>
          obtain ⟨hx, htail⟩ := List.cons.inj hlog
          cases pre with
          | nil => cases htail
          | cons y pre =>
              have hy := (List.cons.inj htail).1
              rw [← hx, ← hy]
              simp

/-- What has been logged in a phase. -/
theorem PhaseOf.logOfOnce
    {p : Phase φ}
    (h : PhaseOf d s p) :
    LogOfOnce s.log := by
  have hprepared : s.log = prepared → LogOfOnce s.log := by
    intro hlog
    rw [hlog]
    exact .handles []
  cases p with
  | fresh =>
      have hlog : s.log = [] := h.facts
      rw [hlog]
      exact .nothing
  | done =>
      obtain ⟨⟨opened, hlog⟩, -⟩ := h.facts
      rw [hlog]
      exact .handles opened
  | inside i =>
      have hinside := (h.inside i).mpr rfl
      have hfacts : InsideFacts d s (s.client i) := h.facts
      cases hpc : s.client i with
      | deviceFSInit k =>
          rw [hpc] at hfacts
          have hlog : s.log = [] := hfacts
          rw [hlog]
          exact .nothing
      | clearHandles k =>
          rw [hpc] at hfacts
          have hlog : s.log = [.deviceFSInit] := hfacts
          rw [hlog]
          exact .device
      | rootLength k second =>
          rw [hpc] at hfacts
          exact hprepared hfacts.1.1
      | setFsInited k =>
          rw [hpc] at hfacts
          exact hprepared hfacts.1
      | calling t =>
          rw [hpc] at hfacts hinside
          cases t with
          | descriptor k second => exact hprepared hfacts.1
          | directory fh c => cases hinside
      | syncTest t =>
          rw [hpc] at hfacts hinside
          cases t with
          | descriptor k second => exact hprepared hfacts.1
          | directory fh c => cases hinside
      | syncWait t =>
          rw [hpc] at hfacts hinside
          cases t with
          | descriptor k second => exact hprepared hfacts.1
          | directory fh c => cases hinside
      | arrived t =>
          rw [hpc] at hfacts hinside
          cases t with
          | descriptor k second => exact hprepared hfacts.1
          | directory fh c => cases hinside
      | _ =>
          rw [hpc] at hinside
          cases hinside

variable [DecidableEq φ]

theorem LogOfOnce.count_le
    {log : List (FsEvent φ)}
    (h : LogOfOnce log) :
    log.count .deviceFSInit ≤ 1 ∧ log.count .clearHandles ≤ 1 := by
  cases h with
  | nothing => simp
  | device => simp
  | handles opened =>
      have hdevice :
          (opened.map FsEvent.openHandle).count .deviceFSInit = 0 := by
        rw [List.count_eq_zero]
        simp
      have hclear :
          (opened.map FsEvent.openHandle).count .clearHandles = 0 := by
        rw [List.count_eq_zero]
        simp
      simp [prepared, hdevice, hclear]

variable [DecidableEq ρ]

/-- Where `fs_init` is left alone, the first initialisation is made once and
behind it `layer_info` holds the roots of the disc; and it holds their extents
when the lengths of their records are their sizes. -/
theorem cdvdmanInit_once_of_apart
    {drive : DriveState}
    (h : GuardedReach (step d) (initApart d) (initial ρ φ drive) s) :
    InitOnce d s ∧
      (s.fsInited = true →
        (s.layerInfo0 = d.rootExtent false ↔
          (d.root false).rootDirtocLength =
            (d.rootExtent false).rootDirtocLength) ∧
        (d.dual = true →
          (s.layerInfo1 = d.rootExtent true ↔
            (d.root true).rootDirtocLength =
              (d.rootExtent true).rootDirtocLength))) := by
  have hinv := Inv.of_reach h
  obtain ⟨p, hp⟩ := hinv.phase
  have hdone : p = .done → .deviceFSInit ∈ s.log ∧ .clearHandles ∈ s.log ∧
      RootsStored d s := by
    rintro rfl
    obtain ⟨⟨opened, hlog⟩, hroots⟩ := hp.facts
    refine ⟨?_, ?_, hroots⟩
    · rw [hlog]
      simp [prepared]
    · rw [hlog]
      simp [prepared]
  refine ⟨⟨hp.logOfOnce.count_le, ?_, ?_, ?_⟩, ?_⟩
  · intro hreturned
    have hphase : p = .done := by
      rcases hreturned with hfs | ⟨i, out, hi⟩
      · exact hp.fsInited.mp hfs
      · exact hp.past i (by rw [hi]; rfl)
    exact ⟨(hdone hphase).1, (hdone hphase).2.1⟩
  · intro pre i post hlog
    exact hp.logOfOnce.before hlog
  · intro hfs
    exact (hdone (hp.fsInited.mp hfs)).2.2
  · intro hfs
    obtain ⟨hroot0, hroot1⟩ := (hdone (hp.fsInited.mp hfs)).2.2
    refine ⟨?_, ?_⟩
    · rw [hroot0]
      exact root_eq_rootExtent_iff d false
    · intro hdual
      rw [hroot1 hdual]
      exact root_eq_rootExtent_iff d true

end FirstInit

section Races

/-- A disc whose sector 16 records a root at sector 20; two threads that call
`sceCdInit`, and a read of another one. -/
def twoInits : Setup Unit Bool where
  cfg := ⟨0, 0⟩
  image := fun x => if x = 2048 * 16 + 0x9c + 2 then 20 else 0
  cdvdmanBuf := 0x10000
  aligned := by decide
  fits := by decide
  reads := fun _ => ⟨⟨40, 1, 0x20000⟩, false, false⟩
  apart := by decide
  clients := fun _ => .sceCdInit
  turns := 61
  before := []

/-- `cdvdman_init` up to its first call of `sceCdRead`. -/
def initActs (i : Bool) : List (Act Unit Bool) :=
  List.replicate 6 (.client i)

/-- A descriptor read that is accepted and served by the reading thread, and the
rest of `sceCdInit`. -/
def descriptorActs (i : Bool) : List (Act Unit Bool) :=
  List.replicate 2 (.read (.caller (.inr ((i, 1), 16)))) ++
    List.replicate 4 (.read .thread) ++ List.replicate 5 (.client i)

/-- `sceCdInit` alone. -/
def initAloneActs : List (Act Unit Bool) := initActs false ++ descriptorActs false

/-- Both threads have tested `fs_inited` before one of them sets it. -/
def initTwiceActs : List (Act Unit Bool) :=
  List.replicate 4 (.client false) ++ List.replicate 4 (.client true) ++
    List.replicate 2 (.client false) ++ List.replicate 2 (.client true)

/-- The read of another thread is accepted before the descriptor is asked for,
and is served while `fs_init` waits in `sceCdSync`. -/
def initRefusedActs : List (Act Unit Bool) :=
  [.read (.caller (.inl ()))] ++ initActs false ++
    [.read (.caller (.inr ((false, 1), 16))), .client false,
      .read (.caller (.inl ()))] ++
    List.replicate 5 (.read .thread) ++ List.replicate 6 (.client false)

/-- Alone, `sceCdInit` returns with the root extent of the disc. -/
theorem cdvdmanInit_once_of_apart_alone :
    ∃ s, GuardedReach (step twoInits) (initApart twoInits)
        (initial Unit Bool restingDrive) s ∧
      s.client false = .returned (.status 1) ∧ InitOnce twoInits s := by
  have hrun :
      (runGuarded (step twoInits) (initApart twoInits)
        (initial Unit Bool restingDrive) initAloneActs).map
          (fun s => s.client false) = some (.returned (.status 1)) := by
    decide +kernel
  obtain ⟨s, hs, hreturned⟩ := Option.map_eq_some_iff.mp hrun
  have hreach := guardedReach_of_runGuarded initAloneActs hs
  exact ⟨s, hreach, hreturned, (cdvdmanInit_once_of_apart hreach).1⟩

/-- Two threads initialise twice; and a refused descriptor is never read
again. -/
theorem cdvdmanInit_twice :
    (∃ s, Reach (step twoInits) (initial Unit Bool restingDrive) s ∧
      ¬ InitOnce twoInits s ∧ s.log.count .deviceFSInit = 2 ∧
        s.log.count .clearHandles = 2) ∧
    ∃ s, Reach (step twoInits) (initial Unit Bool restingDrive) s ∧
      ¬ InitOnce twoInits s ∧ s.client false = .returned (.status 1) ∧
        s.layerInfo0.rootDirtocLBA = 0 ∧
        (twoInits.root false).rootDirtocLBA = 20 := by
  have htwice :
      (runActs (step twoInits) (initial Unit Bool restingDrive) initTwiceActs).map
          (fun s => (s.log.count .deviceFSInit, s.log.count .clearHandles)) =
        some (2, 2) := by
    decide +kernel
  have hrefused :
      (runActs (step twoInits) (initial Unit Bool restingDrive)
          initRefusedActs).map
          (fun s => (s.client false, s.fsInited, s.layerInfo0.rootDirtocLBA)) =
        some (.returned (.status 1), true, 0) := by
    decide +kernel
  have hroot : (twoInits.root false).rootDirtocLBA = 20 := by
    decide +kernel
  obtain ⟨s, hs, hcounts⟩ := Option.map_eq_some_iff.mp htwice
  obtain ⟨t, ht, hreturned⟩ := Option.map_eq_some_iff.mp hrefused
  simp only [Prod.mk.injEq] at hcounts hreturned
  obtain ⟨hdevice, hclear⟩ := hcounts
  obtain ⟨hclient, hfs, hlba⟩ := hreturned
  refine ⟨⟨s, guardedReach_of_runGuarded initTwiceActs hs, ?_, hdevice, hclear⟩,
    t, guardedReach_of_runGuarded initRefusedActs ht, ?_, hclient, hlba, hroot⟩
  · intro honce
    have hle := honce.atMostOnce.1
    omega
  · intro honce
    have hstored := (honce.roots hfs).1
    rw [hstored] at hlba
    omega

end Races

end Clients
end Ps2Cdvd
