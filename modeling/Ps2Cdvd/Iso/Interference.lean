import Mathlib.Data.List.TakeWhile
import Ps2Cdvd.Iso.FirstInit

/-!
# A lookup among other reads

A lookup gives up, and answers that there is no such file, as soon as one of its
sector reads finds the drive busy.  Where none does, each sector of its walk lies
in `cdvdman_buf` when it is looked at, and what is left of the lookup gives the
answer of the lookup alone (`Follows`).  The records looked at must lie in their
sector: behind it `cdvdman_buf` holds what unaligned reads have left there.

* `cdvdmanFindfile_not_found`: a read that is accepted just before a sector read
  of a lookup turns a file that is there into one that is not;
* `cdvdmanFindfile_alone_of_apart`: a lookup that is not refused a sector, after
  an `fs_init` that was left alone, returns what it returns alone.
-/

namespace Ps2Cdvd
namespace Clients

open Lib Read Iso Requests
open SearchLock (CallId beginsRead inRead)

universe u v

section Alone

variable {ρ : Type u} {φ : Type v}

/-- A lookup of its own, or one of `cbrpc_cdsearchfile`. -/
def ClientCall.isLookup : ClientCall → Bool
  | .cdvdmanFindfile _ => true
  | .cbrpcCdsearchfile _ => true
  | _ => false

/-- The answer of the lookup of a client that runs alone, from the start of the
module on. -/
def Setup.answer (d : Setup ρ φ) (drive : DriveState) (i : φ) :
    Option (Int × CdFile) :=
  (cdvdmanFindfile d.cfg d.image quietDrive d.cdvdmanBuf d.turns d.before
    (d.find i).pcdfile (d.find i).name (d.find i).layer (boot ⟨drive, 0⟩)).1

/-- What a client that runs alone is returned. -/
def Setup.alone (d : Setup ρ φ) (drive : DriveState) (i : φ) : Option Returned :=
  (d.answer drive i).map fun answer => (d.clients i).returns answer

/-- What `cdvdman_findfile` answers of what `cdvdman_locatefile` returns. -/
def answerFrom (d : Setup ρ φ) (i : φ) (out : Located × SearchState) :
    Option (Int × CdFile) :=
  match out.1 with
  | .loops => none
  | .null => some (0, (d.find i).pcdfile)
  | .found pos =>
      some (1, d.foundFile i (tocEntry d.cdvdmanBuf out.2.drive.mem pos))

variable {d : Setup ρ φ} {i : φ}

/-- `cdvdman_init` alone stores the root extents of the disc. -/
theorem cdvdmanInit_alone (search : SearchState) :
    (cdvdmanInit d.cfg d.image quietDrive d.cdvdmanBuf
        (boot search)).layerInfo0 = d.root false ∧
      (cdvdmanInit d.cfg d.image quietDrive d.cdvdmanBuf
        (boot search)).layerInfo1 =
          if d.dual then d.root true else ⟨0, 0⟩ := by
  obtain ⟨s, hs⟩ :
      ∃ s, s = { search with drive := { search.drive with err := cdvdErrNo } } :=
    ⟨_, rfl⟩
  obtain ⟨t, hread, hholds⟩ :=
    @sceCdRead_holds d.cfg d.image quietDrive d.cdvdmanBuf readsSucceed_quietDrive
      16 s
  have hroot0 :
      Iso.rootInfo 0 (tocEntry d.cdvdmanBuf t.drive.mem 0x9c) = d.root false :=
    @rootInfo_of_holds ρ φ d t.drive.mem false hholds
  simp only [cdvdmanInit, fsInit, boot, Bool.false_eq_true, if_false, ← hs, hread]
  cases hdual : d.dual with
  | false =>
      have hcond :
          (!d.cfg.has iopcoreCompatEmuDvddl &&
            (sceCdReadDvdDualInfo d.cfg).1) = false :=
        hdual
      simp only [hcond, Bool.false_eq_true, if_false]
      exact ⟨hroot0, trivial⟩
  | true =>
      have hcond :
          (!d.cfg.has iopcoreCompatEmuDvddl &&
            (sceCdReadDvdDualInfo d.cfg).1) = true :=
        hdual
      obtain ⟨t', hread', hholds'⟩ :=
        @sceCdRead_holds d.cfg d.image quietDrive d.cdvdmanBuf
          readsSucceed_quietDrive (u32 ((sceCdReadDvdDualInfo d.cfg).2 + 16)) t
      have hroot1 :
          Iso.rootInfo (sceCdReadDvdDualInfo d.cfg).2
            (tocEntry d.cdvdmanBuf t'.drive.mem 0x9c) = d.root true :=
        @rootInfo_of_holds ρ φ d t'.drive.mem true hholds'
      simp only [hcond, if_true, hread']
      exact ⟨hroot0, hroot1⟩

end Alone

section Follows

variable {ρ : Type u} {φ : Type v}
variable {d : Setup ρ φ} {i : φ} {drive : DriveState}

/-- What is left of the lookup, from the sector loop with the variables `c` on,
gives the answer of the lookup alone. -/
def Follows (d : Setup ρ φ) (drive : DriveState) (i : φ) (c : Cursor) : Prop :=
  ∃ fuel s, (∀ rest, c.slash = some rest → rest.length < fuel) ∧
    answerFrom d i
        (locateAt d.cfg d.image quietDrive d.cdvdmanBuf d.turns (d.layer i) fuel c s) =
      d.answer drive i

/-- The client goes through `cdvdman_findfile`, and has not answered anything
but what it answers alone. -/
def Simulates (d : Setup ρ φ) (drive : DriveState) (i : φ) : Pc → Prop
  | .entered => True
  | .initTest k => k = .cdvdmanFindfile none
  | .clearErr k => k = .cdvdmanFindfile none
  | .fsTest k => k = .cdvdmanFindfile none
  | .deviceFSInit k => k = .cdvdmanFindfile none
  | .clearHandles k => k = .cdvdmanFindfile none
  | .calling (.descriptor k _) => k = .cdvdmanFindfile none
  | .syncTest (.descriptor k _) => k = .cdvdmanFindfile none
  | .syncWait (.descriptor k _) => k = .cdvdmanFindfile none
  | .arrived (.descriptor k _) => k = .cdvdmanFindfile none
  | .rootLength k _ => k = .cdvdmanFindfile none
  | .setFsInited k => k = .cdvdmanFindfile none
  | .setCdinited k => k = .cdvdmanFindfile none
  | .semaWait fh => fh = none
  | .rootTest fh => fh = none
  | .searching fh c => fh = none ∧ Follows d drive i c
  | .calling (.directory fh c) =>
      fh = none ∧ 0 < c.tocLength ∧ Follows d drive i c
  | .syncTest (.directory fh c) =>
      fh = none ∧ 0 < c.tocLength ∧ Follows d drive i c
  | .syncWait (.directory fh c) =>
      fh = none ∧ 0 < c.tocLength ∧ Follows d drive i c
  | .arrived (.directory fh c) =>
      fh = none ∧ 0 < c.tocLength ∧ Follows d drive i c
  | .looping => True
  | .releasing fh answer => fh = none ∧ d.answer drive i = some answer
  | .returned out => d.alone drive i = some out
  | _ => False

/-- The sector loop begins where the lookup alone begins it. -/
theorem follows_root
    {info : LayerInfo}
    (hinfo :
      info =
        if d.layer i ≠ 0 then if d.dual then d.root true else ⟨0, 0⟩
        else d.root false) :
    (info.rootDirtocLBA = 0 →
      d.answer drive i = some (0, (d.find i).pcdfile)) ∧
    (info.rootDirtocLBA ≠ 0 →
      Follows d drive i
        (startLocate (d.filepath i) info.rootDirtocLBA
          (s32 info.rootDirtocLength))) := by
  obtain ⟨hinfo0, hinfo1⟩ := @cdvdmanInit_alone ρ φ d ⟨drive, 0⟩
  have hchosen :
      (if d.layer i ≠ 0 then
          (cdvdmanInit d.cfg d.image quietDrive d.cdvdmanBuf
            (boot ⟨drive, 0⟩)).layerInfo1
        else
          (cdvdmanInit d.cfg d.image quietDrive d.cdvdmanBuf
            (boot ⟨drive, 0⟩)).layerInfo0) = info := by
    rw [hinfo0, hinfo1, hinfo]
  constructor
  · intro hzero
    unfold Setup.answer cdvdmanFindfile
    simp only [← Setup.layer.eq_def, hchosen, if_pos hzero]
  · intro hne
    refine ⟨(d.filepath i).length,
      (cdvdmanInit d.cfg d.image quietDrive d.cdvdmanBuf
        (boot ⟨drive, 0⟩)).search, ?_, ?_⟩
    · intro rest hslash
      exact cutSegment_shorter hslash
    · rw [← cdvdmanLocatefile_eq_locateAt]
      unfold Setup.answer cdvdmanFindfile
      simp only [← Setup.layer.eq_def, hchosen, if_neg hne]
      simp only [← Setup.filepath.eq_def]
      generalize cdvdmanLocatefile d.cfg d.image quietDrive d.cdvdmanBuf d.turns
        _ _ _ _ _ _ = out
      obtain ⟨out, t⟩ := out
      cases out with
      | found pos => rfl
      | null => rfl
      | loops => rfl

/-- Behind the last sector there is no such file. -/
theorem Follows.ends
    {c : Cursor}
    (h : Follows d drive i c)
    (hend : ¬ 0 < c.tocLength) :
    d.answer drive i = some (0, (d.find i).pcdfile) := by
  obtain ⟨fuel, s, -, hanswer⟩ := h
  have hzero : sectorsOf c.tocLength = 0 := by
    unfold sectorsOf
    omega
  rw [← hanswer]
  unfold locateAt
  rw [hzero]
  rfl

/-- The directory sector in `cdvdman_buf` takes the lookup where it goes
alone. -/
theorem Follows.sector
    {c : Cursor} {m : Nat → UInt8}
    (h : Follows d drive i c)
    (hmore : 0 < c.tocLength)
    (hholds : Holds d.cdvdmanBuf m (deliveredBytes d.image c.tocLBA))
    (hinside :
      recordsInside d.cdvdmanBuf m c.slash.isNone c.dirname d.turns 0 = true) :
    Simulates d drive i (afterSector d i none c m) := by
  obtain ⟨fuel, s, hfuel, hanswer⟩ := h
  obtain ⟨k, hk⟩ : ∃ k, sectorsOf c.tocLength = k + 1 := by
    refine ⟨sectorsOf c.tocLength - 1, ?_⟩
    unfold sectorsOf
    omega
  obtain ⟨-, hleft⟩ := sectorsOf_succ hk
  obtain ⟨t, hread, hthere⟩ :=
    @sceCdRead_holds d.cfg d.image quietDrive d.cdvdmanBuf readsSucceed_quietDrive
      c.tocLBA s
  obtain ⟨hscan, hentry⟩ :=
    scanRecords_congr hholds hthere d.fits c.slash.isNone c.dirname d.turns 0
      (by omega) hinside
  unfold locateAt at hanswer
  rw [hk] at hanswer
  simp only [walkSectors, if_pos hmore, hread, hscan] at hanswer
  unfold afterSector
  cases hout :
      scanRecords d.cdvdmanBuf m c.slash.isNone c.dirname d.turns 0 with
  | found pos =>
      rw [hout] at hanswer
      refine ⟨rfl, ?_⟩
      rw [← hentry pos (Or.inl hout)]
      exact hanswer.symm
  | enter pos =>
      rw [hout] at hanswer
      cases hslash : c.slash with
      | none =>
          rw [hslash] at hanswer
          exact ⟨rfl, hanswer.symm⟩
      | some rest =>
          rw [hslash] at hanswer
          have hlong := hfuel rest hslash
          obtain ⟨fuel, rfl⟩ : ∃ n, fuel = n + 1 := ⟨fuel - 1, by omega⟩
          simp only [cdvdmanLocatefile_eq_locateAt] at hanswer
          rw [hentry pos (Or.inr hout)] at hanswer
          refine ⟨rfl, fuel, t, ?_, hanswer⟩
          intro rest' hslash'
          have hshorter := cutSegment_shorter hslash'
          omega
  | next =>
      rw [hout] at hanswer
      refine ⟨rfl, fuel, t, hfuel, ?_⟩
      unfold locateAt
      rw [hleft]
      exact hanswer
  | loops => trivial

end Follows

section Runs

variable {ρ : Type u} {φ : Type v}

/-- The records that the client is about to look at lie in their sector. -/
def sectorInside (d : Setup ρ φ) (s : State ρ φ) (i : φ) : Bool :=
  match s.client i with
  | .arrived (.directory _ c) =>
      recordsInside d.cdvdmanBuf s.drive.mem c.slash.isNone c.dirname d.turns 0
  | _ => true

/-- The lookup of `i` finds the drive free when it asks for a sector, and the
records that it looks at lie in their sector. -/
def lookupFree (d : Setup ρ φ) (i : φ) (s : State ρ φ) : Act ρ φ → Prop
  | .client j => j = i → sectorInside d s i = true
  | .read (.caller (.inr ((j, n), lsn))) =>
      j = i → s.base.caller (.inr ((j, n), lsn)) = .entered →
        s.base.syncFlag = false
  | _ => True

/-- `fs_init` is left alone, and the lookup of `i` is not refused a sector. -/
def lookupApart (d : Setup ρ φ) (i : φ) (s : State ρ φ) (x : Act ρ φ) : Prop :=
  initApart d s x ∧ lookupFree d i s x

instance instDecidableLookupFree [DecidableEq φ]
    (d : Setup ρ φ) (i : φ) (s : State ρ φ) :
    ∀ x, Decidable (lookupFree d i s x)
  | .client j => inferInstanceAs (Decidable (j = i → sectorInside d s i = true))
  | .read (.caller (.inr ((j, n), lsn))) =>
      inferInstanceAs (Decidable
        (j = i → s.base.caller (.inr ((j, n), lsn)) = .entered →
          s.base.syncFlag = false))
  | .read (.caller (.inl _)) => isTrue trivial
  | .read .thread => isTrue trivial
  | .copy _ => isTrue trivial

instance instDecidableLookupApart [Fintype φ] [DecidableEq φ]
    (d : Setup ρ φ) (i : φ) (s : State ρ φ) (x : Act ρ φ) :
    Decidable (lookupApart d i s x) :=
  inferInstanceAs (Decidable (initApart d s x ∧ lookupFree d i s x))

variable {d : Setup ρ φ} {s t : State ρ φ} {i : φ} {drive : DriveState}

/-- Behind `fs_init` a lookup finds the root extents that it stores alone. -/
theorem Inv.layerInfo
    (h : Inv d s)
    (hpast : (s.client i).pastInit = true) :
    (if d.layer i ≠ 0 then s.layerInfo1 else s.layerInfo0) =
      if d.layer i ≠ 0 then if d.dual then d.root true else ⟨0, 0⟩
      else d.root false := by
  obtain ⟨p, hp⟩ := h.phase
  have hdone := hp.past i hpast
  subst hdone
  obtain ⟨-, hroot0, hroot1⟩ := hp.facts
  have hinfo1 : s.layerInfo1 = if d.dual then d.root true else ⟨0, 0⟩ := by
    cases hdual : d.dual with
    | true => exact hroot1 hdual
    | false => exact hp.single hdual
  rw [hroot0, hinfo1]

variable [DecidableEq φ]

/-- A step of a client moves that client only. -/
theorem clientStep_other
    {j : φ}
    (ht : clientStep d s i = some t)
    (hj : j ≠ i) :
    t.client j = s.client j := by
  have hgoto :
      ∀ (u : State ρ φ) (pc : Pc),
        u.client = s.client → (u.goto i pc).client j = s.client j := by
    intro u pc hu
    rw [← hu]
    exact Function.update_of_ne hj _ _
  have hask :
      ∀ (u : State ρ φ) (r : SectorRead),
        u.client = s.client → (u.ask i r).client j = s.client j := by
    intro u r hu
    exact hgoto _ _ hu
  unfold clientStep at ht
  split at ht
  case h_1 =>
    split at ht
    · cases ht
      exact hgoto _ _ rfl
    · split_ifs at ht
      cases ht
      exact hgoto _ _ rfl
    · cases ht
      exact hgoto _ _ rfl
  case h_6 =>
    cases ht
    exact hask _ _ rfl
  case h_10 k second _ =>
    cases second with
    | false =>
        cases ht
        exact hgoto _ _ rfl
    | true =>
        cases ht
        exact hgoto _ _ rfl
  case h_11 k second _ =>
    cases second with
    | true =>
        cases ht
        exact hgoto _ _ rfl
    | false =>
        simp only [Bool.false_eq_true, if_false, Option.some.injEq] at ht
        subst ht
        split_ifs
        · exact hask _ _ rfl
        · exact hgoto _ _ rfl
  case h_21 fh c _ =>
    cases ht
    split_ifs
    · exact hask _ _ rfl
    · exact hgoto _ _ rfl
  all_goals
    first
      | cases ht
        exact hgoto _ _ rfl
      | cases ht
      | split_ifs at ht
        all_goals
          cases ht
          exact hgoto _ _ rfl

/-- A step of a client leaves it where it goes. -/
theorem goto_self (u : State ρ φ) (pc : Pc) :
    (u.goto i pc).client i = pc :=
  Function.update_self _ _ _

theorem ask_self (u : State ρ φ) (r : SectorRead) :
    (u.ask i r).client i = .calling r :=
  Function.update_self _ _ _

/-- A step of its own keeps the lookup on its way. -/
theorem Simulates.client
    (h : Inv d s)
    (hcall : (d.clients i).isLookup = true)
    (hsim : Simulates d drive i (s.client i))
    (hinside : sectorInside d s i = true)
    (ht : clientStep d s i = some t) :
    Simulates d drive i (t.client i) := by
  cases hpc : s.client i with
  | entered =>
      cases hclient : d.clients i with
      | sceCdInit =>
          rw [hclient] at hcall
          cases hcall
      | cdvdmanOpen find =>
          rw [hclient] at hcall
          cases hcall
      | cdvdmanFindfile find =>
          simp only [clientStep, hpc, hclient, Option.some.injEq] at ht
          subst ht
          rw [goto_self]
          rfl
      | cbrpcCdsearchfile pkt =>
          simp only [clientStep, hpc, hclient, Option.some.injEq] at ht
          subst ht
          rw [goto_self]
          rfl
  | initTest k =>
      rw [hpc] at hsim
      have hk : k = .cdvdmanFindfile none := hsim
      subst hk
      simp only [clientStep, hpc, Option.some.injEq] at ht
      subst ht
      rw [goto_self]
      split_ifs
      · rfl
      · rfl
  | clearErr k =>
      rw [hpc] at hsim
      simp only [clientStep, hpc, Option.some.injEq] at ht
      subst ht
      rw [goto_self]
      exact hsim
  | fsTest k =>
      rw [hpc] at hsim
      simp only [clientStep, hpc, Option.some.injEq] at ht
      subst ht
      rw [goto_self]
      split_ifs
      · exact hsim
      · exact hsim
  | deviceFSInit k =>
      rw [hpc] at hsim
      simp only [clientStep, hpc, Option.some.injEq] at ht
      subst ht
      rw [goto_self]
      exact hsim
  | clearHandles k =>
      rw [hpc] at hsim
      simp only [clientStep, hpc, Option.some.injEq] at ht
      subst ht
      rw [ask_self]
      exact hsim
  | calling r =>
      simp only [clientStep, hpc] at ht
      cases ht
  | syncTest r =>
      rw [hpc] at hsim
      simp only [clientStep, hpc, Option.some.injEq] at ht
      subst ht
      rw [goto_self]
      cases r with
      | descriptor k second =>
          split_ifs
          · exact hsim
          · exact hsim
      | directory fh c =>
          split_ifs
          · exact hsim
          · exact hsim
  | syncWait r =>
      rw [hpc] at hsim
      simp only [clientStep, hpc] at ht
      split_ifs at ht
      cases ht
      rw [goto_self]
      cases r with
      | descriptor k second => exact hsim
      | directory fh c => exact hsim
  | arrived r =>
      rw [hpc] at hsim
      cases r with
      | descriptor k second =>
          simp only [clientStep, hpc, Option.some.injEq] at ht
          subst ht
          rw [goto_self]
          exact hsim
      | directory fh c =>
          obtain ⟨rfl, hmore, hfollows⟩ := hsim
          have hholds :
              Holds d.cdvdmanBuf s.drive.mem (deliveredBytes d.image c.tocLBA) :=
            h.buffer.looked i (.directory none c) (by rw [hpc]; rfl)
          unfold sectorInside at hinside
          simp only [hpc] at hinside
          simp only [clientStep, hpc, Option.some.injEq] at ht
          subst ht
          rw [goto_self]
          exact hfollows.sector hmore hholds hinside
  | rootLength k second =>
      rw [hpc] at hsim
      simp only [clientStep, hpc] at ht
      split_ifs at ht
      · cases ht
        rw [goto_self]
        exact hsim
      · cases ht
        rw [ask_self]
        exact hsim
      · cases ht
        rw [goto_self]
        exact hsim
  | setFsInited k =>
      rw [hpc] at hsim
      simp only [clientStep, hpc, Option.some.injEq] at ht
      subst ht
      rw [goto_self]
      exact hsim
  | setCdinited k =>
      rw [hpc] at hsim
      have hk : k = .cdvdmanFindfile none := hsim
      subst hk
      simp only [clientStep, hpc, Option.some.injEq] at ht
      subst ht
      rw [goto_self]
      rfl
  | semaWait fh =>
      rw [hpc] at hsim
      simp only [clientStep, hpc] at ht
      split_ifs at ht
      cases ht
      rw [goto_self]
      exact hsim
  | rootTest fh =>
      rw [hpc] at hsim
      have hfh : fh = none := hsim
      subst hfh
      obtain ⟨hnone, hfollows⟩ :=
        @follows_root ρ φ d i drive _ (h.layerInfo (by rw [hpc]; rfl))
      simp only [clientStep, hpc, Option.some.injEq] at ht
      subst ht
      rw [goto_self]
      generalize (if d.layer i ≠ 0 then s.layerInfo1 else s.layerInfo0) = info
        at hnone hfollows ⊢
      split_ifs with hzero
      · exact ⟨rfl, hnone hzero⟩
      · exact ⟨rfl, hfollows hzero⟩
  | searching fh c =>
      rw [hpc] at hsim
      obtain ⟨rfl, hfollows⟩ := hsim
      simp only [clientStep, hpc, Option.some.injEq] at ht
      subst ht
      split_ifs with hmore
      · rw [ask_self]
        exact ⟨rfl, hmore, hfollows⟩
      · rw [goto_self]
        exact ⟨rfl, hfollows.ends hmore⟩
  | looping =>
      simp only [clientStep, hpc] at ht
      cases ht
  | releasing fh answer =>
      rw [hpc] at hsim
      obtain ⟨rfl, hanswer⟩ := hsim
      simp only [clientStep, hpc, Option.some.injEq] at ht
      subst ht
      rw [goto_self]
      show d.alone drive i = some ((d.clients i).returns answer)
      unfold Setup.alone
      rw [hanswer]
      rfl
  | returned out =>
      simp only [clientStep, hpc] at ht
      cases ht
  | _ =>
      rw [hpc] at hsim
      exact hsim.elim

variable [DecidableEq ρ]

/-- A call is refused where the drive is busy. -/
theorem entered_of_refused
    {altRead : Bool} {call : CallId ρ (φ × Nat) → Call}
    {r b : Requests.State (CallId ρ (φ × Nat))} {k : CallId ρ (φ × Nat)}
    (hb : Requests.step altRead call r (.caller k) = some b)
    (hrefused : result? (b.caller k) = some false) :
    r.caller k = .entered ∧ r.syncFlag = true := by
  have hgoto :
      ∀ (u : Requests.State (CallId ρ (φ × Nat))) (pc : CallerPc),
        b = u.goto k pc → result? pc = some false := by
    intro u pc hu
    rw [hu] at hrefused
    simpa [Requests.State.goto] using hrefused
  simp only [Requests.step] at hb
  cases hpc : r.caller k with
  | entered =>
      cases hflag : r.syncFlag with
      | true => exact ⟨rfl, rfl⟩
      | false =>
          simp only [callerStep, hpc, hflag, Bool.false_eq_true, if_false] at hb
          split_ifs at hb
          · cases hgoto _ _ (Option.some.inj hb).symm
          · cases hgoto _ _ (Option.some.inj hb).symm
  | signalling =>
      simp only [callerStep, hpc] at hb
      cases hgoto _ _ (Option.some.inj hb).symm
  | starting =>
      simp only [callerStep, hpc] at hb
      cases hgoto _ _ (Option.some.inj hb).symm
  | reading =>
      simp only [callerStep, hpc] at hb
      cases hgoto _ _ (Option.some.inj hb).symm
  | clearing =>
      simp only [callerStep, hpc] at hb
      cases hgoto _ _ (Option.some.inj hb).symm
  | setting =>
      simp only [callerStep, hpc] at hb
      cases hgoto _ _ (Option.some.inj hb).symm
  | returned result =>
      simp only [callerStep, hpc] at hb
      cases hb

/-- A step of the drive that does not refuse the lookup a sector leaves it on
its way. -/
theorem Simulates.read
    {a : Requests.Act (CallId ρ (φ × Nat))}
    {b : Requests.State (CallId ρ (φ × Nat))}
    (hsim : Simulates d drive i (s.client i))
    (hguard : lookupFree d i s (.read a))
    (hmove : mayMove d s a = true)
    (hb :
      Requests.step (d.cfg.has iopcoreCompatAltRead) d.call s.base a = some b) :
    Simulates d drive i (clientAfter d s b a i) := by
  rcases clientAfter_cases (b := b) hmove i with
    hsame | ⟨r, result, hpc, rfl, hresult, hafter⟩
  · rw [hsame]
    exact hsim
  · rw [hafter, hpc]
    rw [hpc] at hsim
    cases r with
    | descriptor k second => exact hsim
    | directory fh c =>
        cases result with
        | true => exact hsim
        | false =>
            obtain ⟨hentered, hbusy⟩ := entered_of_refused hb hresult
            have hfree : s.base.syncFlag = false := hguard rfl hentered
            rw [hbusy] at hfree
            cases hfree

/-- **Step lemma.** Every step that leaves `fs_init` and the lookup alone keeps
the lookup on its way. -/
theorem Simulates.next
    {x : Act ρ φ}
    (h : Inv d s)
    (hcall : (d.clients i).isLookup = true)
    (hsim : Simulates d drive i (s.client i))
    (hguard : lookupFree d i s x)
    (ht : step d s x = some t) :
    Simulates d drive i (t.client i) := by
  cases x with
  | read a =>
      simp only [step] at ht
      split_ifs at ht with hmove
      obtain ⟨b, hb, rfl⟩ := Option.map_eq_some_iff.mp ht
      exact hsim.read hguard hmove hb
  | copy a =>
      have hsame : t.client = s.client := by
        simp only [step, copyStep] at ht
        split at ht
        · split_ifs at ht
          cases ht
          rfl
        · split_ifs at ht
          · cases ht
            rfl
          · cases ht
            rfl
        · cases ht
      rw [hsame]
      exact hsim
  | client j =>
      simp only [step] at ht
      by_cases hj : j = i
      · subst hj
        exact hsim.client h hcall (hguard rfl) ht
      · rw [clientStep_other ht (Ne.symm hj)]
        exact hsim

/-- **Run lemma.** The lookup is on its way wherever the steps lead that leave
it and `fs_init` alone. -/
theorem simulates_of_reach
    (h : GuardedReach (step d) (lookupApart d i) (initial ρ φ drive) s)
    (hcall : (d.clients i).isLookup = true) :
    Inv d s ∧ Simulates d drive i (s.client i) := by
  refine
    GuardedReach.invariant (I := fun u => Inv d u ∧ Simulates d drive i (u.client i))
      h ⟨inv_initial drive, trivial⟩ ?_
  rintro u x u' ⟨hinv, hsim⟩ ⟨hinit, hfree⟩ hu
  exact ⟨hinv.next hinit hu, hsim.next hinv hcall hfree hu⟩

/-- A lookup that is not refused a sector, after an `fs_init` that was left
alone, returns what it returns alone. -/
theorem cdvdmanFindfile_alone_of_apart
    {out : Returned}
    (h : GuardedReach (step d) (lookupApart d i) (initial ρ φ drive) s)
    (hcall : (d.clients i).isLookup = true)
    (hout : s.client i = .returned out) :
    d.alone drive i = some out := by
  obtain ⟨-, hsim⟩ := simulates_of_reach h hcall
  rw [hout] at hsim
  exact hsim

end Runs

section Race

/-- A lookup of `\B;1`, which the disc has, and an unaligned read of another
thread. -/
def searchAndRead : Setup Unit Unit where
  cfg := ⟨0, 0⟩
  image := twoSectorImage
  cdvdmanBuf := 0x10000
  aligned := twoInits.aligned
  fits := twoInits.fits
  reads := fun _ => ⟨⟨40, 1, 0x20001⟩, false, false⟩
  apart := by decide
  clients := fun _ => .cdvdmanFindfile ⟨⟨0, 0, none⟩, pathB, 0⟩
  turns := 61
  before := []

/-- The lookup up to its call of `sceCdRead` for the root directory. -/
def lookupActs : List (Act Unit Unit) :=
  List.replicate 6 (.client ()) ++
    List.replicate 2 (.read (.caller (.inr (((), 1), 16)))) ++
    List.replicate 6 (.read .thread) ++ List.replicate 8 (.client ())

/-- The other read, from its acceptance to its end. -/
def readActs : List (Act Unit Unit) :=
  List.replicate 2 (.read (.caller (.inl ()))) ++
    List.replicate 2 (.read .thread) ++ List.replicate 3 (.copy .thread) ++
    List.replicate 4 (.read .thread)

/-- The other read is served in the middle of the lookup. -/
def lookupApartActs : List (Act Unit Unit) :=
  lookupActs.take 17 ++ readActs ++ lookupActs.drop 17 ++
    List.replicate 2 (.read (.caller (.inr (((), 2), 20)))) ++
    List.replicate 4 (.read .thread) ++ List.replicate 3 (.client ())

/-- The other read is accepted before the lookup asks for the root directory. -/
def lookupRefusedActs : List (Act Unit Unit) :=
  lookupActs ++
    [.read (.caller (.inl ())), .read (.caller (.inr (((), 2), 20))), .client ()]

/-- `B;1` as the disc has it. -/
def foundB : Returned := .found (1, ⟨29, 7, some [0x42, 0x3b, 0x31]⟩)

/-- With the other read copied through `cdvdman_buf` behind `fs_init`, the file
is found as it is alone. -/
theorem cdvdmanFindfile_alone_of_apart_copied :
    ∃ s, GuardedReach (step searchAndRead) (lookupApart searchAndRead ())
        (initial Unit Unit restingDrive) s ∧
      s.client () = .returned foundB ∧
      searchAndRead.alone restingDrive () = some foundB := by
  have hrun :
      (runGuarded (step searchAndRead) (lookupApart searchAndRead ())
        (initial Unit Unit restingDrive) lookupApartActs).map
          (fun s => s.client ()) = some (.returned foundB) := by
    decide +kernel
  obtain ⟨s, hs, hreturned⟩ := Option.map_eq_some_iff.mp hrun
  have hreach := guardedReach_of_runGuarded lookupApartActs hs
  exact
    ⟨s, hreach, hreturned, cdvdmanFindfile_alone_of_apart hreach rfl hreturned⟩

/-- With the other read accepted just before the root directory is asked for,
the lookup answers that there is no such file. -/
theorem cdvdmanFindfile_not_found :
    ∃ s, Reach (step searchAndRead) (initial Unit Unit restingDrive) s ∧
      s.client () = .returned (.found (0, ⟨0, 0, none⟩)) ∧
      searchAndRead.alone restingDrive () = some foundB := by
  have hrun :
      (runActs (step searchAndRead) (initial Unit Unit restingDrive)
        lookupRefusedActs).map
          (fun s => s.client ()) = some (.returned (.found (0, ⟨0, 0, none⟩))) := by
    decide +kernel
  have halone : searchAndRead.alone restingDrive () = some foundB := by
    decide +kernel
  obtain ⟨s, hs, hreturned⟩ := Option.map_eq_some_iff.mp hrun
  exact
    ⟨s, guardedReach_of_runGuarded lookupRefusedActs hs, hreturned, halone⟩

end Race

end Clients
end Ps2Cdvd
