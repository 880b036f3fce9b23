import Mathlib.Tactic
import Ps2Cdvd.Lib.Run
import Ps2Cdvd.Lib.Semaphore

/-!
# `cdrom_io_sema` and the file-system buffer

The file operations of `cdrom:` and the EE's N commands share `cdvdman_fs_buf`,
which CDVDFSV gets from `sceGetFsvRbuf`.  All of them run between a wait for
`cdrom_io_sema` and a signal.  The file operations call `WaitSema` and
`SignalSema`; `cbrpc_cdvdNcmds` goes through `sceCdSC(CDSC_IO_SEMA, param)`, which
waits when `*param` is not 0 and signals when it is.  On entry the parameter is
the function number of the request itself.

A call is one step each for the acquisition, for the use of the buffer, where it
has one, and for the release.  The calls are indexed by an arbitrary type `ι`.

* `fsBuf_exclusive`: as long as every call with function number 0 runs alone, at
  most one call is between its acquisition and its release;
* `fsBuf_shared`: a call with function number 0 that does not run alone is inside
  together with another one.
-/

namespace Ps2Cdvd
namespace Files

open Lib

universe u

section Source

def cdscGetDebugStatus : Nat := 0xFFFFFFF0
def cdscGetIntrflag : Nat := 0xFFFFFFF5
def cdscIoSema : Nat := 0xFFFFFFF6
def cdscGetVersion : Nat := 0xFFFFFFF7
def cdscSetError : Nat := 0xFFFFFFFE

def cdvdmanModuleVersion : Int := 0x225

/-- What `sceCdSC` reads and writes: the count of `cdrom_io_sema`, the fields
`err` and `intr_ef` of `cdvdman_stat`, and the address of
`cdvdman_debug_print_flag`. -/
structure ScState where
  ioSema : Nat
  err : Int
  intrEf : Int
  debugPrintFlag : Int

/-- The result of `sceCdSC`, `*param` after the call, and the state. -/
structure ScReturn where
  result : Int
  param : Int
  state : ScState

/-- `WaitSema`, when it does not block. -/
def waitSema (count : Nat) : Option Nat :=
  if 0 < count then some (count - 1) else none

/-- `SignalSema` on a semaphore of maximum count 1. -/
def signalSema (count : Nat) : Nat :=
  min (count + 1) 1

/-- `sceCdSC`, when it does not block. -/
def sceCdSC (code : Nat) (param : Int) (s : ScState) : Option ScReturn :=
  if code = cdscGetIntrflag then
    some ⟨s.intrEf, param, s⟩
  else if code = cdscIoSema then
    if param ≠ 0 then
      (waitSema s.ioSema).map
        (fun count => ⟨param, param, { s with ioSema := count }⟩)
    else
      some ⟨param, param, { s with ioSema := signalSema s.ioSema }⟩
  else if code = cdscGetVersion then
    some ⟨cdvdmanModuleVersion, param, s⟩
  else if code = cdscGetDebugStatus then
    some ⟨0xFF, s.debugPrintFlag, s⟩
  else if code = cdscSetError then
    some ⟨param, param, { s with err := param }⟩
  else
    some ⟨1, param, s⟩

/-- What `cbrpc_cdvdNcmds` calls for a function number. -/
inductive NcmdHandler
  | cdvdReadee
  | getToc
  | sceCdSeek
  | sceCdStandby
  | sceCdStop
  | sceCdPause
  | cdvdStsubcmdcall
  | cdvdReadiopm
  | sceCdDiskReady
  | cdvdReadchain
  | readDiskID
  | getDiskType
  | unknown
deriving DecidableEq

/-- The `switch` of `cbrpc_cdvdNcmds`. -/
def ncmdHandler (fno : Int) : NcmdHandler :=
  if fno = 1 ∨ fno = 2 ∨ fno = 3 then .cdvdReadee
  else if fno = 4 then .getToc
  else if fno = 5 then .sceCdSeek
  else if fno = 6 then .sceCdStandby
  else if fno = 7 then .sceCdStop
  else if fno = 8 then .sceCdPause
  else if fno = 9 then .cdvdStsubcmdcall
  else if fno = 0x0D then .cdvdReadiopm
  else if fno = 0x0E then .sceCdDiskReady
  else if fno = 0x0F then .cdvdReadchain
  else if fno = 0x11 then .readDiskID
  else if fno = 0x17 then .getDiskType
  else .unknown

/-- The calls that take `cdrom_io_sema`. -/
inductive Call
  | cbrpcCdvdNcmds (fno : Int)
  | cdromOpen
  | cdromDopen
  | cdromClose
  | cdromRead
  | cdromLseek
  | cdromDread
  | cdromIoctl
  | cdromIoctl2
  | cdromDevctl
deriving DecidableEq

/-- The calls that read into `cdvdman_fs_buf` and copy out of it. -/
def Call.usesFsBuf : Call → Bool
  | .cbrpcCdvdNcmds fno =>
      ncmdHandler fno = .cdvdReadee || ncmdHandler fno = .cdvdReadchain
  | .cdromRead => true
  | .cdromDread => true
  | _ => false

/-- The first thing a call does with `cdrom_io_sema`. -/
def Call.acquire (s : ScState) : Call → Option ScState
  | .cbrpcCdvdNcmds fno => (sceCdSC cdscIoSema fno s).map ScReturn.state
  | _ => (waitSema s.ioSema).map (fun count => { s with ioSema := count })

/-- The last thing a call does with `cdrom_io_sema`. -/
def Call.release (s : ScState) : Call → Option ScState
  | .cbrpcCdvdNcmds _ => (sceCdSC cdscIoSema 0 s).map ScReturn.state
  | _ => some { s with ioSema := signalSema s.ioSema }

/-- Where a call is. -/
inductive CallPc
  | entered
  | acquired
  | inBuffer
  | releasing
  | returned
deriving DecidableEq

structure State (ι : Type u) where
  sc : ScState
  pc : ι → CallPc

/-- After `cdrom_init`: `cdrom_io_sema` has initial and maximum count 1. -/
def initial (ι : Type u) (err intrEf debugPrintFlag : Int) : State ι where
  sc := ⟨1, err, intrEf, debugPrintFlag⟩
  pc := fun _ => .entered

variable {ι : Type u} [DecidableEq ι]

def State.goto (s : State ι) (sc : ScState) (i : ι) (pc : CallPc) : State ι where
  sc := sc
  pc := Function.update s.pc i pc

/-- The next step of the call `i`. -/
def step (call : ι → Call) (s : State ι) (i : ι) : Option (State ι) :=
  match s.pc i with
  | .entered =>
      ((call i).acquire s.sc).map (fun sc => s.goto sc i .acquired)
  | .acquired =>
      if (call i).usesFsBuf then some (s.goto s.sc i .inBuffer)
      else some (s.goto s.sc i .releasing)
  | .inBuffer =>
      some (s.goto s.sc i .releasing)
  | .releasing =>
      ((call i).release s.sc).map (fun sc => s.goto sc i .returned)
  | .returned => none

end Source

section Inside

/-- The positions between the acquisition and the release. -/
def CallPc.inside : CallPc → Bool
  | .acquired => true
  | .inBuffer => true
  | .releasing => true
  | _ => false

/-- A request whose function number makes `sceCdSC` signal on entry. -/
def Call.signalsFirst : Call → Bool
  | .cbrpcCdvdNcmds fno => fno = 0
  | _ => false

variable {ι : Type u}

/-- The call `i` is inside and has waited for `cdrom_io_sema`. -/
def holdsSema (call : ι → Call) (s : State ι) (i : ι) : Bool :=
  (s.pc i).inside && !(call i).signalsFirst

/-- A call with function number 0 enters only while nobody is inside, and nobody
enters while one is inside. -/
def ZeroCallsAlone (call : ι → Call) (s : State ι) (i : ι) : Prop :=
  s.pc i = .entered →
    ((call i).signalsFirst = true → ∀ j, (s.pc j).inside = false) ∧
    ∀ j, (call j).signalsFirst = true → (s.pc j).inside = false

instance instDecidableZeroCallsAlone
    [Fintype ι] (call : ι → Call) (s : State ι) (i : ι) :
    Decidable (ZeroCallsAlone call s i) :=
  inferInstanceAs
    (Decidable
      (s.pc i = .entered →
        ((call i).signalsFirst = true → ∀ j, (s.pc j).inside = false) ∧
        ∀ j, (call j).signalsFirst = true → (s.pc j).inside = false))

/-- At most one call is inside. -/
def Exclusive (s : State ι) : Prop :=
  ∀ i j, (s.pc i).inside = true → (s.pc j).inside = true → i = j

/-- The permit is with the call that waited for it, and a call with function
number 0 is inside alone. -/
structure Inv (call : ι → Call) (s : State ι) : Prop where
  held : ∃ o, Held s.sc.ioSema (holdsSema call s) o
  alone :
    ∀ i, (call i).signalsFirst = true → (s.pc i).inside = true →
      ∀ j, (s.pc j).inside = true → j = i

variable {call : ι → Call}

theorem inv_initial (err intrEf debugPrintFlag : Int) :
    Inv call (initial ι err intrEf debugPrintFlag) := by
  refine ⟨⟨none, rfl, ?_⟩, ?_⟩
  · intro i
    simp [holdsSema, initial, CallPc.inside]
  · intro i _ hi
    cases hi

theorem Inv.exclusive {s : State ι} (h : Inv call s) : Exclusive s := by
  intro i j hi hj
  by_cases hzi : (call i).signalsFirst = true
  · exact (h.alone i hzi hi j hj).symm
  · by_cases hzj : (call j).signalsFirst = true
    · exact h.alone j hzj hj i hi
    · obtain ⟨o, ho⟩ := h.held
      refine ho.unique ?_ ?_
      · simp [holdsSema, hi, hzi]
      · simp [holdsSema, hj, hzj]

/-- While a call with function number 0 is inside, or nobody is, the permit is
free. -/
theorem Inv.free
    {s : State ι} {o : Option ι}
    (ho : Held s.sc.ioSema (holdsSema call s) o)
    (hnone : ∀ j, holdsSema call s j = false) :
    o = none := by
  cases o with
  | none => rfl
  | some i =>
      have hi := (ho.holder i).mpr rfl
      rw [hnone i] at hi
      cases hi

/-- The acquisition of a call signals or takes a permit. -/
theorem acquire_cases
    {c : Call} {s t : ScState}
    (ht : c.acquire s = some t) :
    (c.signalsFirst = true ∧ t.ioSema = signalSema s.ioSema) ∨
      (c.signalsFirst = false ∧ 0 < s.ioSema ∧ t.ioSema = s.ioSema - 1) := by
  have hwait : ∀ {f : Nat → ScState},
      (∀ n, (f n).ioSema = n) →
      (waitSema s.ioSema).map f = some t →
      0 < s.ioSema ∧ t.ioSema = s.ioSema - 1 := by
    intro f hf hmap
    unfold waitSema at hmap
    split_ifs at hmap with hpos
    · cases hmap
      exact ⟨hpos, hf _⟩
    · cases hmap
  cases c with
  | cbrpcCdvdNcmds fno =>
      by_cases hfno : fno = 0
      · left
        subst hfno
        simp only [Call.acquire, sceCdSC, cdscIoSema, cdscGetIntrflag] at ht
        cases ht
        exact ⟨rfl, rfl⟩
      · right
        rw [Call.acquire, sceCdSC, if_neg (by decide), if_pos rfl, if_pos hfno,
          Option.map_map] at ht
        refine ⟨by simp [Call.signalsFirst, hfno], ?_⟩
        exact hwait (fun _ => rfl) ht
  | _ =>
      right
      exact ⟨rfl, hwait (fun _ => rfl) ht⟩

/-- The release of a call signals. -/
theorem release_eq
    {c : Call} {s t : ScState}
    (ht : c.release s = some t) :
    t.ioSema = signalSema s.ioSema := by
  cases c with
  | cbrpcCdvdNcmds fno =>
      simp only [Call.release, sceCdSC, cdscIoSema, cdscGetIntrflag] at ht
      cases ht
      rfl
  | _ =>
      simp only [Call.release] at ht
      cases ht
      rfl

variable [DecidableEq ι]

theorem goto_pc_self (s : State ι) (sc : ScState) (i : ι) (pc : CallPc) :
    (s.goto sc i pc).pc i = pc := by
  simp [State.goto]

theorem goto_pc_of_ne
    {s : State ι} {sc : ScState} {i j : ι} {pc : CallPc}
    (hj : j ≠ i) :
    (s.goto sc i pc).pc j = s.pc j := by
  simp [State.goto, hj]

theorem holdsSema_goto_of_ne
    {s : State ι} {sc : ScState} {i j : ι} {pc : CallPc}
    (hj : j ≠ i) :
    holdsSema call (s.goto sc i pc) j = holdsSema call s j := by
  simp [holdsSema, goto_pc_of_ne hj]

/-- A step inside changes nothing that the invariant speaks about. -/
theorem Inv.goto_inside
    {s : State ι} {i : ι} {pc : CallPc}
    (h : Inv call s)
    (hi : (s.pc i).inside = true)
    (hpc : pc.inside = true) :
    Inv call (s.goto s.sc i pc) := by
  have hinside : ∀ j, ((s.goto s.sc i pc).pc j).inside = (s.pc j).inside := by
    intro j
    by_cases hj : j = i
    · subst hj
      rw [goto_pc_self, hpc, hi]
    · rw [goto_pc_of_ne hj]
  obtain ⟨o, ho⟩ := h.held
  refine ⟨⟨o, ho.congr rfl ?_⟩, ?_⟩
  · intro j
    simp only [holdsSema, hinside]
  · intro k hk hkin j hj
    rw [hinside] at hkin hj
    exact h.alone k hk hkin j hj

/-- A call with function number 0 enters while nobody is inside: its signal finds
the permit free. -/
theorem Inv.enter_zero
    {s : State ι} {i : ι} {sc : ScState}
    (h : Inv call s)
    (hzero : (call i).signalsFirst = true)
    (hnobody : ∀ j, (s.pc j).inside = false)
    (hsc : sc.ioSema = signalSema s.sc.ioSema) :
    Inv call (s.goto sc i .acquired) := by
  obtain ⟨o, ho⟩ := h.held
  have hfree : o = none := Inv.free ho (fun j => by simp [holdsSema, hnobody])
  subst hfree
  have hcount : s.sc.ioSema = 1 := ho.count
  refine ⟨⟨none, ho.congr ?_ ?_⟩, ?_⟩
  · show sc.ioSema = s.sc.ioSema
    rw [hsc, hcount]
    rfl
  · intro j
    by_cases hj : j = i
    · subst hj
      simp [holdsSema, hzero]
    · exact holdsSema_goto_of_ne hj
  · intro k _ hk j hj
    have honly : ∀ l, ((s.goto sc i .acquired).pc l).inside = true → l = i := by
      intro l hl
      by_contra hne
      rw [goto_pc_of_ne hne, hnobody] at hl
      cases hl
    rw [honly j hj, honly k hk]

/-- Another call enters: it takes the permit. -/
theorem Inv.enter
    {s : State ι} {i : ι} {sc : ScState}
    (h : Inv call s)
    (hwaits : (call i).signalsFirst = false)
    (hnozero :
      ∀ j, (call j).signalsFirst = true → (s.pc j).inside = false)
    (hpos : 0 < s.sc.ioSema)
    (hsc : sc.ioSema = s.sc.ioSema - 1) :
    Inv call (s.goto sc i .acquired) := by
  obtain ⟨o, ho⟩ := h.held
  refine ⟨⟨some i, ho.take hpos hsc ?_ ?_⟩, ?_⟩
  · simp [holdsSema, goto_pc_self, CallPc.inside, hwaits]
  · intro j hj
    exact holdsSema_goto_of_ne hj
  · intro k hzero hk
    have hki : k ≠ i := by
      rintro rfl
      rw [hwaits] at hzero
      cases hzero
    rw [goto_pc_of_ne hki, hnozero k hzero] at hk
    cases hk

/-- A call leaves: what it signals is its own permit, or, with function number 0,
one that is free already. -/
theorem Inv.leave
    {s : State ι} {i : ι} {sc : ScState}
    (h : Inv call s)
    (hi : (s.pc i).inside = true)
    (hsc : sc.ioSema = signalSema s.sc.ioSema) :
    Inv call (s.goto sc i .returned) := by
  obtain ⟨o, ho⟩ := h.held
  have hself : holdsSema call (s.goto sc i .returned) i = false := by
    simp [holdsSema, goto_pc_self, CallPc.inside]
  have hother : ∀ j, j ≠ i →
      holdsSema call (s.goto sc i .returned) j = holdsSema call s j :=
    fun j hj => holdsSema_goto_of_ne hj
  refine ⟨⟨none, ?_⟩, ?_⟩
  · by_cases hzero : (call i).signalsFirst = true
    · have hnone : ∀ j, holdsSema call s j = false := by
        intro j
        cases hin : (s.pc j).inside with
        | false => simp [holdsSema, hin]
        | true =>
            rw [h.alone i hzero hi j hin]
            simp [holdsSema, hzero]
      have hfree := Inv.free ho hnone
      subst hfree
      have hcount : s.sc.ioSema = 1 := ho.count
      refine ho.congr ?_ ?_
      · show sc.ioSema = s.sc.ioSema
        rw [hsc, hcount]
        rfl
      · intro j
        by_cases hj : j = i
        · subst hj
          rw [hself, hnone]
        · exact hother j hj
    · exact ho.release (by simp [holdsSema, hi, hzero]) hsc hself hother
  · intro k hzero hk j hj
    have hk' : k ≠ i := by
      rintro rfl
      rw [goto_pc_self] at hk
      cases hk
    have hj' : j ≠ i := by
      rintro rfl
      rw [goto_pc_self] at hj
      cases hj
    rw [goto_pc_of_ne hk'] at hk
    rw [goto_pc_of_ne hj'] at hj
    exact h.alone k hzero hk j hj

theorem inv_step
    {s t : State ι} {i : ι}
    (h : Inv call s)
    (hguard : ZeroCallsAlone call s i)
    (ht : step call s i = some t) :
    Inv call t := by
  cases hpc : s.pc i with
  | entered =>
      simp only [step, hpc, Option.map_eq_some_iff] at ht
      obtain ⟨sc, hsc, rfl⟩ := ht
      obtain ⟨hnobody, hnozero⟩ := hguard hpc
      rcases acquire_cases hsc with ⟨hzero, hcount⟩ | ⟨hwaits, hpos, hcount⟩
      · exact h.enter_zero hzero (hnobody hzero) hcount
      · exact h.enter hwaits hnozero hpos hcount
  | acquired =>
      have hin : (s.pc i).inside = true := by
        rw [hpc]
        rfl
      simp only [step, hpc] at ht
      split_ifs at ht
      · cases ht
        exact h.goto_inside hin rfl
      · cases ht
        exact h.goto_inside hin rfl
  | inBuffer =>
      have hin : (s.pc i).inside = true := by
        rw [hpc]
        rfl
      simp only [step, hpc, Option.some.injEq] at ht
      subst ht
      exact h.goto_inside hin rfl
  | releasing =>
      have hin : (s.pc i).inside = true := by
        rw [hpc]
        rfl
      simp only [step, hpc, Option.map_eq_some_iff] at ht
      obtain ⟨sc, hsc, rfl⟩ := ht
      exact h.leave hin (release_eq hsc)
  | returned =>
      simp only [step, hpc] at ht
      cases ht

/-- **One user of the buffer at a time.**  In every run in which the calls with
function number 0 run alone, at most one call is between its acquisition and its
release of `cdrom_io_sema`, and so no two use `cdvdman_fs_buf`. -/
theorem fsBuf_exclusive
    {s : State ι} {err intrEf debugPrintFlag : Int}
    (hs :
      GuardedReach (step call) (ZeroCallsAlone call)
        (initial ι err intrEf debugPrintFlag) s) :
    Exclusive s ∧
      ∀ i j, s.pc i = .inBuffer → s.pc j = .inBuffer → i = j := by
  have hinv : Inv call s :=
    hs.invariant (inv_initial err intrEf debugPrintFlag)
      (fun _ _ _ h hguard ht => inv_step h hguard ht)
  refine ⟨hinv.exclusive, ?_⟩
  intro i j hi hj
  refine hinv.exclusive i j ?_ ?_
  · rw [hi]
    rfl
  · rw [hj]
    rfl

/-- A file read, a request with function number 0 and one that reads for the EE. -/
def readAndNcmds : Fin 3 → Call
  | 0 => .cdromRead
  | 1 => .cbrpcCdvdNcmds 0
  | 2 => .cbrpcCdvdNcmds 1

/-- The request with function number 0 comes while nobody is inside; the file read
holds the semaphore afterwards and the other request has to wait for it. -/
theorem fsBuf_exclusive_readAndNcmds :
    ∃ s, runGuarded (step readAndNcmds) (ZeroCallsAlone readAndNcmds)
        (initial (Fin 3) 0 0 0) [1, 1, 1, 0, 0] = some s ∧
      s.pc 0 = .inBuffer ∧
      step readAndNcmds s 2 = none ∧
      Exclusive s := by
  have hrun :
      (runGuarded (step readAndNcmds) (ZeroCallsAlone readAndNcmds)
        (initial (Fin 3) 0 0 0) [1, 1, 1, 0, 0]).map
          (fun s => (s.pc 0, (step readAndNcmds s 2).isNone)) =
        some (.inBuffer, true) := by
    decide +kernel
  obtain ⟨s, hs, hshown⟩ := Option.map_eq_some_iff.mp hrun
  have hinBuffer : s.pc 0 = .inBuffer := congrArg Prod.fst hshown
  have hblocked : (step readAndNcmds s 2).isNone = true :=
    congrArg Prod.snd hshown
  exact ⟨s, hs, hinBuffer, Option.isNone_iff_eq_none.mp hblocked,
    (fsBuf_exclusive (guardedReach_of_runGuarded _ hs)).1⟩

/-- The request with function number 0 comes during the file read: it releases
`cdrom_io_sema`, and the next request reads into the buffer that the file read is
using. -/
theorem fsBuf_shared_readAndNcmds :
    ¬ ∀ s, Reach (step readAndNcmds) (initial (Fin 3) 0 0 0) s →
      ∀ i j, s.pc i = .inBuffer → s.pc j = .inBuffer → i = j := by
  intro hclaim
  have hrun :
      (runActs (step readAndNcmds) (initial (Fin 3) 0 0 0)
        [0, 0, 1, 1, 1, 2, 2]).map (fun s => (s.pc 0, s.pc 2)) =
        some (.inBuffer, .inBuffer) := by
    decide +kernel
  obtain ⟨s, hs, hshown⟩ := Option.map_eq_some_iff.mp hrun
  have hread : s.pc 0 = .inBuffer := congrArg Prod.fst hshown
  have hreadee : s.pc 2 = .inBuffer := congrArg Prod.snd hshown
  have hsame :=
    hclaim s (guardedReach_of_runGuarded _ hs) 0 2 hread hreadee
  exact absurd hsame (by decide)

/-- **The condition is exact.**  A step that the condition excludes leads to two
calls inside. -/
theorem fsBuf_shared
    {s t : State ι} {i : ι}
    (hguard : ¬ ZeroCallsAlone call s i)
    (ht : step call s i = some t) :
    ¬ Exclusive t := by
  unfold ZeroCallsAlone at hguard
  rw [Classical.not_imp] at hguard
  obtain ⟨hpc, hnot⟩ := hguard
  have hother : ∃ j, (s.pc j).inside = true := by
    by_contra hnobody
    have hall : ∀ j, (s.pc j).inside = false := by
      intro j
      cases hin : (s.pc j).inside with
      | false => rfl
      | true => exact absurd ⟨j, hin⟩ hnobody
    exact hnot ⟨fun _ => hall, fun j _ => hall j⟩
  obtain ⟨j, hj⟩ := hother
  have hne : j ≠ i := by
    rintro rfl
    rw [hpc] at hj
    cases hj
  simp only [step, hpc, Option.map_eq_some_iff] at ht
  obtain ⟨sc, -, rfl⟩ := ht
  intro hexclusive
  refine hne (hexclusive j i ?_ ?_)
  · rw [goto_pc_of_ne hne]
    exact hj
  · rw [goto_pc_self]
    rfl

end Inside

end Files
end Ps2Cdvd
