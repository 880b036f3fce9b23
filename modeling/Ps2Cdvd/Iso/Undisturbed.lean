import Ps2Cdvd.Iso.Clients
import Ps2Cdvd.Lib.Semaphore

/-!
# Runs that leave `fs_init` alone

`Inv` is the invariant of the runs in which `fs_init` is left alone
(`initApart`): who holds `cdvdman_searchfilesema`, how far `fs_init` has come,
and whose sector lies in `cdvdman_buf`.  The flags of `fs_init` are tested and set
without a lock, so that its phase is what the invariant is built on.

* `Inv.sector_unique`: one client at a time reads a sector;
* `Inv.next`: every step that leaves `fs_init` alone keeps the invariant;
* `Inv.of_reach`: it holds wherever these steps lead.
-/

namespace Ps2Cdvd
namespace Clients

open Lib Read Iso Requests
open SearchLock (CallId beginsRead inRead)

universe u v

section Invariant

variable {ρ : Type u} {φ : Type v}

def SectorRead.isDirectory : SectorRead → Bool
  | .descriptor _ _ => false
  | .directory _ _ => true

/-- The sector that a client waits for. -/
def Pc.awaits : Pc → Option SectorRead
  | .calling t => some t
  | .syncTest t => some t
  | .syncWait t => some t
  | _ => none

/-- The sector that a client looks at in `cdvdman_buf`. -/
def Pc.looksAt : Pc → Option SectorRead
  | .arrived t => some t
  | .rootLength k second => some (.descriptor k second)
  | _ => none

/-- The sector that a client reads. -/
def Pc.sector (pc : Pc) : Option SectorRead := pc.awaits.or pc.looksAt

/-- Between the test of `fs_inited` and its setting. -/
def Pc.inFsInit : Pc → Bool
  | .deviceFSInit _ => true
  | .clearHandles _ => true
  | .rootLength _ _ => true
  | .setFsInited _ => true
  | .calling t => !t.isDirectory
  | .syncTest t => !t.isDirectory
  | .syncWait t => !t.isDirectory
  | .arrived t => !t.isDirectory
  | _ => false

/-- Between `WaitSema(cdvdman_searchfilesema)` and `SignalSema`. -/
def Pc.holdsSema : Pc → Bool
  | .rootTest _ => true
  | .searching _ _ => true
  | .looping => true
  | .releasing _ _ => true
  | .calling t => t.isDirectory
  | .syncTest t => t.isDirectory
  | .syncWait t => t.isDirectory
  | .arrived t => t.isDirectory
  | _ => false

/-- `cdvdman_open` has been through `cdvdman_init` before it calls
`cdvdman_findfile`. -/
def InitCaller.pastInit : InitCaller → Bool
  | .cdvdmanFindfile (some _) => true
  | _ => false

/-- Behind the first `fs_init`. -/
def Pc.pastInit : Pc → Bool
  | .entered => false
  | .initTest k => k.pastInit
  | .clearErr k => k.pastInit
  | .fsTest k => k.pastInit
  | .deviceFSInit _ => false
  | .clearHandles _ => false
  | .calling t => t.isDirectory
  | .syncTest t => t.isDirectory
  | .syncWait t => t.isDirectory
  | .arrived t => t.isDirectory
  | .rootLength _ _ => false
  | .setFsInited _ => false
  | _ => true

def CopyPc.holdsSema : CopyPc → Bool
  | .copying _ => true
  | _ => false

/-- The call of `sceCdRead` for the sector `t` of the client `i`. -/
def callOf (d : Setup ρ φ) (s : State ρ φ) (i : φ) (t : SectorRead) :
    CallId ρ (φ × Nat) :=
  .inr ((i, s.asked i), t.lsn d.cfg)

/-- The sector asked for lies in `cdvdman_buf`. -/
def Landed (d : Setup ρ φ) (s : State ρ φ) (t : SectorRead) : Prop :=
  Holds d.cdvdmanBuf s.drive.mem (deliveredBytes d.image (t.lsn d.cfg))

/-- The client `i` waits for the sector `t`, and its `sceCdRead` has begun. -/
def Awaiting (d : Setup ρ φ) (s : State ρ φ) (i : φ) (t : SectorRead) : Prop :=
  (s.client i).awaits = some t ∧
    (s.client i = .calling t → s.base.caller (callOf d s i t) ≠ .entered)

/-- The root extent that the descriptor of a layer records. -/
def Setup.root (d : Setup ρ φ) (second : Bool) : LayerInfo :=
  d.rootInfo second
    (.ofBytes fun i =>
      deliveredBytes d.image
        ((SectorRead.descriptor .sceCdInit second).lsn d.cfg) (0x9c + i))

/-- `layer_info` holds the root extents that the disc records. -/
def RootsStored (d : Setup ρ φ) (s : State ρ φ) : Prop :=
  s.layerInfo0 = d.root false ∧ (d.dual = true → s.layerInfo1 = d.root true)

/-- `fs_init` has prepared the device and the table of handles. -/
def prepared : List (FsEvent φ) := [.deviceFSInit, .clearHandles]

/-- How far `fs_init` has come. -/
inductive Phase (φ : Type v)
  | fresh
  | inside (i : φ)
  | done

/-- What `fs_init` has done before the descriptor of a layer is stored. -/
def BeforeRoot (d : Setup ρ φ) (s : State ρ φ) (second : Bool) : Prop :=
  s.log = prepared ∧
    (second = true → d.dual = true ∧ s.layerInfo0 = d.root false)

/-- What the client inside `fs_init` has done. -/
def InsideFacts (d : Setup ρ φ) (s : State ρ φ) : Pc → Prop
  | .deviceFSInit _ => s.log = []
  | .clearHandles _ => s.log = [.deviceFSInit]
  | .calling (.descriptor _ second) => BeforeRoot d s second
  | .syncTest (.descriptor _ second) => BeforeRoot d s second
  | .syncWait (.descriptor _ second) => BeforeRoot d s second
  | .arrived (.descriptor _ second) => BeforeRoot d s second
  | .rootLength _ second =>
      BeforeRoot d s second ∧
        (if second then s.layerInfo1 else s.layerInfo0).rootDirtocLBA =
          (d.root second).rootDirtocLBA
  | .setFsInited _ => s.log = prepared ∧ RootsStored d s
  | _ => True

/-- What has been done in a phase. -/
def PhaseFacts (d : Setup ρ φ) (s : State ρ φ) : Phase φ → Prop
  | .fresh => s.log = []
  | .inside i => InsideFacts d s (s.client i)
  | .done =>
      (∃ opened : List φ, s.log = prepared ++ opened.map .openHandle) ∧
        RootsStored d s

/-- `p` is the phase of `fs_init` in `s`. -/
structure PhaseOf (d : Setup ρ φ) (s : State ρ φ) (p : Phase φ) : Prop where
  fsInited : s.fsInited = true ↔ p = .done
  cdinited : s.cdinited = true → p = .done
  inside : ∀ i, (s.client i).inFsInit = true ↔ p = .inside i
  past : ∀ i, (s.client i).pastInit = true → p = .done
  single : d.dual = false → s.layerInfo1 = ⟨0, 0⟩
  facts : PhaseFacts d s p

/-- Whether a client or a double copy holds `cdvdman_searchfilesema`. -/
def State.holdsSema (s : State ρ φ) :
    φ ⊕ Requests.Act (CallId ρ (φ × Nat)) → Bool
  | .inl i => (s.client i).holdsSema
  | .inr a => (s.copy a).holdsSema

/-- `o` holds `cdvdman_searchfilesema`. -/
abbrev HeldBy
    (s : State ρ φ) (o : Option (φ ⊕ Requests.Act (CallId ρ (φ × Nat)))) :
    Prop :=
  Held s.searchSema s.holdsSema o

/-- What ties the drive to its clients. -/
structure DriveInv (d : Setup ρ φ) (s : State ρ φ) : Prop where
  base : Requests.Inv d.call s.base
  unused :
    ∀ i n lsn, s.asked i < n → s.base.caller (.inr ((i, n), lsn)) = .entered
  copies : ∀ a, s.copy a ≠ .outside → inRead s.base a = true
  pending :
    ∀ i n lsn, AllButLast d.call s.base (.inr ((i, n), lsn)) →
      n = s.asked i ∧
        ∃ t, (s.client i).awaits = some t ∧ t.lsn d.cfg = lsn

/-- Whose sector lies in `cdvdman_buf`. -/
structure BufferInv (d : Setup ρ φ) (s : State ρ φ) : Prop where
  landed :
    ∀ i t, Awaiting d s i t →
      AllButLast d.call s.base (callOf d s i t) ∨ Landed d s t
  looked : ∀ i t, (s.client i).looksAt = some t → Landed d s t

/-- The invariant of the runs that leave `fs_init` alone. -/
structure Inv (d : Setup ρ φ) (s : State ρ φ) : Prop where
  drive : DriveInv d s
  held : ∃ o, HeldBy s o
  phase : ∃ p, PhaseOf d s p
  buffer : BufferInv d s

/-- The client `i` needs the descriptor that it has asked for, or that lies in
`cdvdman_buf`. -/
def needsDescriptor (d : Setup ρ φ) (s : State ρ φ) (i : φ) : Bool :=
  (s.client i).inFsInit &&
    match s.client i with
    | .calling t => !decide (s.base.caller (callOf d s i t) = .entered)
    | .deviceFSInit _ => false
    | .clearHandles _ => false
    | .setFsInited _ => false
    | _ => true

/-- `if (fs_inited)` comes next. -/
def Pc.testsFsInited : Pc → Bool
  | .fsTest _ => true
  | _ => false

/-- The double copy is about to read into `cdvdman_buf`. -/
def CopyPc.writes : CopyPc → Bool
  | .copying args => decide (0 < args.sectors)
  | _ => false

/-- `fs_init` is left alone: it is not begun while another client is in it, the
drive is free when it asks for a descriptor, and nothing is copied through
`cdvdman_buf` before it has stored the root extent. -/
def initApart (d : Setup ρ φ) (s : State ρ φ) : Act ρ φ → Prop
  | .client i =>
      (s.client i).testsFsInited = true → s.fsInited = false →
        ∀ j, (s.client j).inFsInit = false
  | .read (.caller (.inr ((i, n), lsn))) =>
      (s.client i).inFsInit = true →
        s.base.caller (.inr ((i, n), lsn)) = .entered →
        s.base.syncFlag = false
  | .read _ => True
  | .copy a => (s.copy a).writes = true → ∀ j, needsDescriptor d s j = false

instance instDecidableInitApart [Fintype φ] (d : Setup ρ φ) (s : State ρ φ) :
    ∀ x, Decidable (initApart d s x)
  | .client i =>
      inferInstanceAs (Decidable
        ((s.client i).testsFsInited = true → s.fsInited = false →
          ∀ j, (s.client j).inFsInit = false))
  | .read (.caller (.inr ((i, n), lsn))) =>
      inferInstanceAs (Decidable
        ((s.client i).inFsInit = true →
          s.base.caller (.inr ((i, n), lsn)) = .entered →
          s.base.syncFlag = false))
  | .read (.caller (.inl _)) => isTrue trivial
  | .read .thread => isTrue trivial
  | .copy a =>
      inferInstanceAs (Decidable
        ((s.copy a).writes = true → ∀ j, needsDescriptor d s j = false))

end Invariant

section Calls

/-- What `sceCdRead` changes in a client by returning. -/
theorem afterCall_keeps
    {β : Type} (q : Pc → β)
    (hsync : ∀ t, q (.syncTest t) = q (.calling t))
    (hgives :
      ∀ fh c answer, q (.releasing fh answer) = q (.calling (.directory fh c)))
    (pcdfile : CdFile) (r : Bool) (pc : Pc) :
    q (pc.afterCall pcdfile r) = q pc := by
  unfold Pc.afterCall
  split
  · cases r with
    | false => exact hgives _ _ _
    | true => exact hsync _
  · exact hsync _
  · rfl

theorem afterCall_holdsSema (pcdfile : CdFile) (r : Bool) (pc : Pc) :
    (pc.afterCall pcdfile r).holdsSema = pc.holdsSema :=
  afterCall_keeps Pc.holdsSema (fun _ => rfl) (fun _ _ _ => rfl) pcdfile r pc

theorem afterCall_inFsInit (pcdfile : CdFile) (r : Bool) (pc : Pc) :
    (pc.afterCall pcdfile r).inFsInit = pc.inFsInit :=
  afterCall_keeps Pc.inFsInit (fun _ => rfl) (fun _ _ _ => rfl) pcdfile r pc

theorem afterCall_pastInit (pcdfile : CdFile) (r : Bool) (pc : Pc) :
    (pc.afterCall pcdfile r).pastInit = pc.pastInit :=
  afterCall_keeps Pc.pastInit (fun _ => rfl) (fun _ _ _ => rfl) pcdfile r pc

theorem afterCall_looksAt (pcdfile : CdFile) (r : Bool) (pc : Pc) :
    (pc.afterCall pcdfile r).looksAt = pc.looksAt :=
  afterCall_keeps Pc.looksAt (fun _ => rfl) (fun _ _ _ => rfl) pcdfile r pc

/-- Only a refused lookup gives up its sector. -/
theorem afterCall_awaits
    (pcdfile : CdFile) (r : Bool) {t : SectorRead} {pc : Pc}
    (hpc : pc = .calling t) :
    (pc.afterCall pcdfile r = .syncTest t) ∨
      (r = false ∧ t.isDirectory = true ∧
        (pc.afterCall pcdfile r).awaits = none) := by
  subst hpc
  cases t with
  | descriptor k second => exact Or.inl rfl
  | directory fh c =>
      cases r with
      | false => exact Or.inr ⟨rfl, rfl, rfl⟩
      | true => exact Or.inl rfl

/-- What a client looks at is not what it waits for. -/
theorem sector_of_awaits
    {pc : Pc} {t : SectorRead}
    (h : pc.awaits = some t) :
    pc.sector = some t := by
  unfold Pc.sector
  rw [h]
  rfl

theorem sector_of_looksAt
    {pc : Pc} {t : SectorRead}
    (h : pc.looksAt = some t) :
    pc.sector = some t := by
  unfold Pc.sector
  cases pc with
  | arrived t' => exact h
  | rootLength k second => exact h
  | _ => cases h

/-- A descriptor is read inside `fs_init`, a directory under the semaphore. -/
theorem inFsInit_of_sector
    {pc : Pc} {t : SectorRead}
    (h : pc.sector = some t)
    (ht : t.isDirectory = false) :
    pc.inFsInit = true := by
  cases pc with
  | calling t' =>
      cases Option.some.inj h
      simp [Pc.inFsInit, ht]
  | syncTest t' =>
      cases Option.some.inj h
      simp [Pc.inFsInit, ht]
  | syncWait t' =>
      cases Option.some.inj h
      simp [Pc.inFsInit, ht]
  | arrived t' =>
      cases Option.some.inj h
      simp [Pc.inFsInit, ht]
  | rootLength k second => rfl
  | _ => cases h

theorem holdsSema_of_sector
    {pc : Pc} {t : SectorRead}
    (h : pc.sector = some t)
    (ht : t.isDirectory = true) :
    pc.holdsSema = true ∧ pc.pastInit = true := by
  cases pc with
  | calling t' =>
      cases Option.some.inj h
      exact ⟨ht, ht⟩
  | syncTest t' =>
      cases Option.some.inj h
      exact ⟨ht, ht⟩
  | syncWait t' =>
      cases Option.some.inj h
      exact ⟨ht, ht⟩
  | arrived t' =>
      cases Option.some.inj h
      exact ⟨ht, ht⟩
  | rootLength k second =>
      cases Option.some.inj h
      cases ht
  | _ => cases h

variable {ρ : Type u} {φ : Type v}
variable {d : Setup ρ φ} {s : State ρ φ}
variable {a : Requests.Act (CallId ρ (φ × Nat))}
variable {b : Requests.State (CallId ρ (φ × Nat))}

/-- The sector read of a client moves while the client is in that call. -/
theorem calling_of_mayMove
    {i : φ} {n lsn : Nat}
    (h : mayMove d s (.caller (.inr ((i, n), lsn))) = true) :
    ∃ t, s.client i = .calling t ∧ t.lsn d.cfg = lsn ∧ s.asked i = n := by
  have hboth := (Bool.and_eq_true _ _).mp h
  have hcall := hboth.1
  cases hpc : s.client i with
  | calling t =>
      simp only [hpc, decide_eq_true_eq] at hcall
      exact ⟨t, rfl, hcall⟩
  | _ => simp only [hpc, Bool.false_eq_true] at hcall

/-- A call that was accepted has not been refused. -/
theorem result_of_accepted
    {k : CallId ρ (φ × Nat)} {r : Bool}
    (hbase : Requests.Inv d.call b)
    (hmem : k ∈ b.accepted)
    (hr : result? (b.caller k) = some r) :
    r = true := by
  have hleft := ((hbase.mem k).mp hmem).2
  cases hpc : b.caller k with
  | returned r' =>
      rw [hpc] at hr hleft
      cases Option.some.inj hr
      cases r with
      | true => rfl
      | false => exact absurd rfl hleft
  | _ =>
      rw [hpc] at hr
      cases hr

variable [DecidableEq φ]

/-- What a step of the drive changes in the clients: a client whose own sector
read has returned goes on. -/
theorem clientAfter_cases
    (hmove : mayMove d s a = true) (i : φ) :
    clientAfter d s b a i = s.client i ∨
    ∃ t r, s.client i = .calling t ∧ a = .caller (callOf d s i t) ∧
      result? (b.caller (callOf d s i t)) = some r ∧
      clientAfter d s b a i = (s.client i).afterCall (d.find i).pcdfile r := by
  cases a with
  | thread => exact Or.inl rfl
  | caller k =>
      cases k with
      | inl r => exact Or.inl rfl
      | inr p =>
          obtain ⟨⟨j, n⟩, lsn⟩ := p
          cases hr : result? (b.caller (.inr ((j, n), lsn))) with
          | none =>
              left
              simp [clientAfter, hr]
          | some r =>
              by_cases hij : i = j
              · subst hij
                obtain ⟨t, hpc, rfl, rfl⟩ := calling_of_mayMove hmove
                right
                exact ⟨t, r, hpc, rfl, hr, by simp [clientAfter, hr]⟩
              · left
                simp [clientAfter, hr, hij]

/-- A quality of the position of a client that `sceCdRead` does not change by
returning is not changed by a step of the drive. -/
theorem clientAfter_keeps
    {β : Type} (q : Pc → β)
    (hq : ∀ pcdfile r pc, q (pc.afterCall pcdfile r) = q pc)
    (hmove : mayMove d s a = true) (i : φ) :
    q (clientAfter d s b a i) = q (s.client i) := by
  rcases clientAfter_cases (b := b) hmove i with
    hsame | ⟨t, r, -, -, -, hafter⟩
  · rw [hsame]
  · rw [hafter, hq]

variable [DecidableEq ρ]

/-- A double copy begins outside the semaphore and ends behind it. -/
theorem copyAfter_holdsSema
    (h : DriveInv d s)
    (hmove : mayMove d s a = true)
    (a' : Requests.Act (CallId ρ (φ × Nat))) :
    (copyAfter d s a a').holdsSema = (s.copy a').holdsSema := by
  unfold copyAfter SearchLock.copyBegun
  split_ifs with hbegins hin
  · by_cases ha : a' = a
    · subst ha
      have hb := (Bool.and_eq_true _ _).mp hbegins
      have houtside : s.copy a' = .outside := by
        by_contra hne
        have hin := h.copies a' hne
        rw [inRead_of_begins hb.1] at hin
        cases hin
      rw [Function.update_self, houtside]
      rfl
    · rw [Function.update_of_ne ha]
  · by_cases ha : a' = a
    · subst ha
      have hboth := (Bool.and_eq_true _ _).mp hmove
      have hend : s.copy a' = .outside ∨ s.copy a' = .copied := by
        simpa [hin] using hboth.2
      rw [Function.update_self]
      rcases hend with hend | hend
      · rw [hend]
      · rw [hend]
        rfl
    · rw [Function.update_of_ne ha]
  · rfl

/-- A step of the drive keeps the holder of the semaphore. -/
theorem HeldBy.read
    {o : Option (φ ⊕ Requests.Act (CallId ρ (φ × Nat)))}
    (h : HeldBy s o)
    (hdrive : DriveInv d s)
    (hmove : mayMove d s a = true) :
    HeldBy (afterRead d s a b) o := by
  refine h.congr rfl ?_
  intro x
  cases x with
  | inl i => exact clientAfter_keeps Pc.holdsSema afterCall_holdsSema hmove i
  | inr a' => exact copyAfter_holdsSema hdrive hmove a'

/-- A double copy goes on inside its `cdvdman_read`. -/
theorem DriveInv.copies_read
    {a' : Requests.Act (CallId ρ (φ × Nat))}
    (h : DriveInv d s)
    (ht :
      Requests.step (d.cfg.has iopcoreCompatAltRead) d.call s.base a = some b)
    (hcopy : copyAfter d s a a' ≠ .outside) :
    inRead b a' = true := by
  by_cases ha : a = a'
  · subst ha
    unfold copyAfter SearchLock.copyBegun at hcopy
    split_ifs at hcopy with hbegins hin
    · cases driveStep_of_step ht with
      | begins _ _ _ hin => exact hin
      | locks k _ _ _ hnot _ _ _ _ =>
          rw [hnot] at hbegins
          cases hbegins
      | keeps hnot _ _ _ =>
          rw [hnot] at hbegins
          cases hbegins
    · rw [Function.update_self] at hcopy
      exact absurd rfl hcopy
    · exact absurd (h.copies a hcopy) hin
  · have hsame : copyAfter d s a a' = s.copy a' := by
      unfold copyAfter SearchLock.copyBegun
      split_ifs
      · exact Function.update_of_ne (Ne.symm ha) _ _
      · exact Function.update_of_ne (Ne.symm ha) _ _
      · rfl
    rw [hsame] at hcopy
    rw [inRead_of_ne ht ha]
    exact h.copies a' hcopy

/-- A step of the drive keeps what ties it to the clients. -/
theorem DriveInv.read
    (h : DriveInv d s)
    (hmove : mayMove d s a = true)
    (ht :
      Requests.step (d.cfg.has iopcoreCompatAltRead) d.call s.base a = some b) :
    DriveInv d (afterRead d s a b) := by
  have hbase : Requests.Inv d.call b := h.base.next ht
  have hstep := driveStep_of_step ht
  refine ⟨hbase, ?_, ?_, ?_⟩
  · intro i n lsn hn
    by_cases ha : a = .caller (.inr ((i, n), lsn))
    · subst ha
      obtain ⟨t, -, -, hasked⟩ := calling_of_mayMove hmove
      have hlt : s.asked i < n := hn
      omega
    · show b.caller _ = _
      rw [caller_of_ne ht ha]
      exact h.unused i n lsn hn
  · intro a' hcopy
    exact h.copies_read ht hcopy
  · intro i n lsn hwait
    have hwait' : AllButLast d.call b (.inr ((i, n), lsn)) := hwait
    cases hstep with
    | begins _ haccepted hexecuted _ =>
        -- the only request that waited is executed
        have hlength := allButLast_length hwait'
        have hle := executed_le h.base
        rw [haccepted] at hlength
        omega
    | locks k ha hentered hflag _ _ haccepted hexecuted hreturned =>
        have hlast := allButLast_last hwait'
        rw [haccepted, List.getLast?_concat] at hlast
        cases Option.some.inj hlast
        subst ha
        obtain ⟨t, hpc, hlsn, hasked⟩ := calling_of_mayMove hmove
        refine ⟨hasked.symm, t, ?_, hlsn⟩
        have hsame :
            clientAfter d s b (.caller (.inr ((i, n), lsn))) i = s.client i := by
          simp [clientAfter, hreturned]
        rw [hpc] at hsame
        exact congrArg Pc.awaits hsame
    | keeps _ haccepted hexecuted hrefused =>
        have hbefore : AllButLast d.call s.base (.inr ((i, n), lsn)) := by
          obtain ⟨l, hl, hdone⟩ := hwait'
          rw [haccepted] at hl
          rw [hexecuted] at hdone
          exact ⟨l, hl, hdone⟩
        obtain ⟨hn, t, hawaits, hlsn⟩ := h.pending i n lsn hbefore
        refine ⟨hn, t, ?_, hlsn⟩
        rcases clientAfter_cases (b := b) hmove i with
          hsame | ⟨t', r, hpc, ha, hr, hafter⟩
        · show (clientAfter d s b a i).awaits = some t
          rw [hsame, hawaits]
        · show (clientAfter d s b a i).awaits = some t
          rw [hpc] at hawaits
          cases Option.some.inj hawaits
          rw [hafter]
          rcases afterCall_awaits (d.find i).pcdfile r hpc with
            hgoes | ⟨hfalse, -, -⟩
          · rw [hgoes]
            rfl
          · -- a refused call has not been accepted
            exfalso
            have hid : callOf d s i t = .inr ((i, n), lsn) := by
              rw [hn, ← hlsn]
              rfl
            have hmem : callOf d s i t ∈ b.accepted := by
              rw [haccepted, hid]
              exact List.mem_of_getLast? (allButLast_last hbefore)
            rw [hfalse] at hr
            cases result_of_accepted hbase hmem hr

end Calls

section Buffer

variable {ρ : Type u} {φ : Type v}
variable {d : Setup ρ φ} {s : State ρ φ}
variable {a : Requests.Act (CallId ρ (φ × Nat))}
variable {b : Requests.State (CallId ρ (φ × Nat))}

/-- What `fs_init` stores of a descriptor that lies in `cdvdman_buf`. -/
theorem rootInfo_of_holds
    {m : Nat → UInt8} {second : Bool}
    (h :
      Holds d.cdvdmanBuf m
        (deliveredBytes d.image
          ((SectorRead.descriptor .sceCdInit second).lsn d.cfg))) :
    d.rootInfo second (tocEntry d.cdvdmanBuf m 0x9c) = d.root second := by
  have hname :
      (deliveredBytes d.image
        ((SectorRead.descriptor .sceCdInit second).lsn d.cfg)
        (0x9c + 32)).toNat < 256 :=
    UInt8.toNat_lt _
  have hentry := @Holds.tocEntry_inside d.cdvdmanBuf m _ h d.fits 0x9c (by omega)
  unfold Setup.root
  rw [← hentry]
  rfl

/-- The descriptor in `cdvdman_buf` gives the root extent. -/
theorem Landed.root
    {k : InitCaller} {second : Bool}
    (h : Landed d s (.descriptor k second)) :
    d.rootInfo second (tocEntry d.cdvdmanBuf s.drive.mem 0x9c) =
      d.root second := by
  have hlsn :
      (SectorRead.descriptor k second).lsn d.cfg =
        (SectorRead.descriptor .sceCdInit second).lsn d.cfg := by
    cases second with
    | false => rfl
    | true => rfl
  unfold Landed at h
  rw [hlsn] at h
  exact rootInfo_of_holds h

/-- Only one client at a time reads a sector. -/
theorem Inv.sector_unique
    (h : Inv d s)
    {i j : φ} {t t' : SectorRead}
    (hi : (s.client i).sector = some t)
    (hj : (s.client j).sector = some t') :
    i = j := by
  obtain ⟨o, ho⟩ := h.held
  obtain ⟨p, hp⟩ := h.phase
  cases ht : t.isDirectory with
  | true =>
      obtain ⟨hsema, hpast⟩ := holdsSema_of_sector hi ht
      cases ht' : t'.isDirectory with
      | true =>
          have hsame : (Sum.inl i : φ ⊕ Requests.Act _) = .inl j :=
            ho.unique hsema (holdsSema_of_sector hj ht').1
          exact Sum.inl.inj hsame
      | false =>
          have hinside := (hp.inside j).mp (inFsInit_of_sector hj ht')
          rw [hp.past i hpast] at hinside
          cases hinside
  | false =>
      have hinside := (hp.inside i).mp (inFsInit_of_sector hi ht)
      cases ht' : t'.isDirectory with
      | true =>
          rw [hp.past j (holdsSema_of_sector hj ht').2] at hinside
          cases hinside
      | false =>
          rw [(hp.inside j).mp (inFsInit_of_sector hj ht')] at hinside
          exact (Phase.inside.inj hinside).symm

/-- The memory behind the beginning of a `cdvdman_read`. -/
theorem driveAfter_mem
    (hbegins : beginsRead s.base a = true)
    {args : ReadArgs}
    (hargs : readArgs d s a = args)
    (hbuf : args.buf % 4 = 0) :
    (driveAfter d s a).mem =
      (cdvdmanReadSectors d.cfg d.image quietTurns args.lsn args.sectors args.buf
        { s.drive with status := cdvdStatRead, turn := 0, events := [] }).mem := by
  unfold driveAfter
  rw [if_pos hbegins]
  dsimp only
  rw [hargs, if_neg (by simpa using hbuf)]

theorem driveAfter_mem_unaligned
    (hbegins : beginsRead s.base a = true)
    (hbuf : (readArgs d s a).buf % 4 ≠ 0) :
    (driveAfter d s a).mem = s.drive.mem := by
  unfold driveAfter
  rw [if_pos hbegins]
  dsimp only
  rw [if_pos hbuf]

theorem driveAfter_mem_of_not
    (hbegins : beginsRead s.base a = false) :
    (driveAfter d s a).mem = s.drive.mem := by
  unfold driveAfter
  rw [if_neg (by simp [hbegins])]
  split_ifs
  · rfl
  · rfl

variable [DecidableEq ρ] [DecidableEq φ]

/-- The sector read of a client puts its sector into `cdvdman_buf`. -/
theorem lands
    {i : φ} {t : SectorRead}
    (hbegins : beginsRead s.base a = true)
    (hargs : readArgs d s a = (d.call (callOf d s i t)).args) :
    Landed d (afterRead d s a b) t := by
  intro x hx
  show (driveAfter d s a).mem _ = _
  rw [driveAfter_mem hbegins hargs d.aligned]
  show (cdvdmanReadSectors d.cfg d.image quietTurns _ 1 _ _).mem _ = _
  rw [cdvdmanReadSectors_one quietTurns_undisturbed]
  exact writeRange_inside _ _ _ hx

/-- A read of others does not write into `cdvdman_buf`, unless by the double
copy. -/
theorem landed_of_others
    {t : SectorRead} {r : ρ}
    (h : Landed d s t)
    (hbegins : beginsRead s.base a = true)
    (hargs : readArgs d s a = (d.reads r).args) :
    Landed d (afterRead d s a b) t := by
  intro x hx
  show (driveAfter d s a).mem _ = _
  by_cases hbuf : (d.reads r).args.buf % 4 = 0
  · have hapart := d.apart r
    rw [driveAfter_mem hbegins hargs hbuf, cdvdmanReadSectors_frame _ (by omega)]
    exact h x hx
  · rw [driveAfter_mem_unaligned hbegins (by rw [hargs]; exact hbuf)]
    exact h x hx

/-- A step of the drive leaves the sector that a client reads in
`cdvdman_buf`. -/
theorem Inv.landed_read
    (h : Inv d s)
    {i : φ} {t : SectorRead}
    (hsector : (s.client i).sector = some t)
    (hlanded : Landed d s t) :
    Landed d (afterRead d s a b) t := by
  cases hbegins : beginsRead s.base a with
  | false =>
      intro x hx
      show (driveAfter d s a).mem _ = _
      rw [driveAfter_mem_of_not hbegins]
      exact hlanded x hx
  | true =>
      obtain ⟨k, hwait, hargs⟩ := begins_waiting h.drive.base hbegins
      cases k with
      | inl r => exact landed_of_others hlanded hbegins hargs
      | inr p =>
          obtain ⟨⟨j, n⟩, lsn⟩ := p
          obtain ⟨hn, t', hawaits, hlsn⟩ := h.drive.pending j n lsn hwait
          have hj := sector_of_awaits hawaits
          have hij := h.sector_unique hsector hj
          subst hij
          rw [hsector] at hj
          cases Option.some.inj hj
          apply lands (i := i) hbegins
          rw [hargs, hn, ← hlsn]
          rfl

/-- A client that waits for a sector keeps waiting, or the sector lands. -/
theorem Inv.waits_read
    (h : Inv d s)
    (ht :
      Requests.step (d.cfg.has iopcoreCompatAltRead) d.call s.base a = some b)
    {i : φ} {t : SectorRead}
    (hwait : AllButLast d.call s.base (callOf d s i t)) :
    AllButLast d.call b (callOf d s i t) ∨ Landed d (afterRead d s a b) t := by
  cases driveStep_of_step ht with
  | begins hbegins _ _ _ =>
      right
      obtain ⟨k, hlast, hargs⟩ := begins_waiting h.drive.base hbegins
      cases allButLast_unique hlast hwait
      exact lands hbegins hargs
  | locks k _ _ hflag _ _ _ _ _ =>
      exact absurd hwait (not_allButLast_of_free h.drive.base hflag)
  | keeps _ haccepted hexecuted _ =>
      left
      obtain ⟨l, hl, hdone⟩ := hwait
      rw [← haccepted] at hl
      rw [← hexecuted] at hdone
      exact ⟨l, hl, hdone⟩

/-- A call that its client has just begun has locked the drive. -/
theorem Inv.begun_read
    {i : φ} {t : SectorRead}
    (h : Inv d s)
    (ht :
      Requests.step (d.cfg.has iopcoreCompatAltRead) d.call s.base a = some b)
    (hpc : s.client i = .calling t)
    (hsame : clientAfter d s b a i = s.client i)
    (hentered : s.base.caller (callOf d s i t) = .entered)
    (hleft : b.caller (callOf d s i t) ≠ .entered) :
    AllButLast d.call b (callOf d s i t) := by
  have ha : a = .caller (callOf d s i t) := by
    by_contra hne
    rw [caller_of_ne ht hne] at hleft
    exact hleft hentered
  subst ha
  cases driveStep_of_step ht with
  | begins hbegins _ _ _ => simp [beginsRead, hentered] at hbegins
  | locks k hk _ hflag _ _ haccepted hexecuted _ =>
      cases hk
      obtain ⟨o, ho⟩ := h.drive.base.owner
      have hnobody := ho.eq_nobody hflag
      subst hnobody
      exact ⟨s.base.accepted, haccepted, hexecuted.trans ho.log⟩
  | keeps _ _ _ hrefused =>
      -- a refused call has returned, and its client has gone on
      obtain ⟨-, hreturned⟩ := hrefused _ rfl hentered
      exfalso
      have hgone :
          clientAfter d s b (.caller (callOf d s i t)) i =
            (s.client i).afterCall (d.find i).pcdfile false := by
        unfold callOf at hreturned ⊢
        simp only [clientAfter, hreturned, Function.update_self]
      rw [hsame, hpc] at hgone
      cases t with
      | descriptor k second => cases hgone
      | directory fh c => cases hgone

/-- A step of the drive keeps whose sector lies in `cdvdman_buf`. -/
theorem BufferInv.read
    (h : Inv d s)
    (hguard : initApart d s (.read a))
    (hmove : mayMove d s a = true)
    (ht :
      Requests.step (d.cfg.has iopcoreCompatAltRead) d.call s.base a = some b) :
    BufferInv d (afterRead d s a b) := by
  have hgoes :
      ∀ i t, Awaiting d s i t →
        AllButLast d.call b (callOf d s i t) ∨
          Landed d (afterRead d s a b) t := by
    intro i t hawaiting
    rcases h.buffer.landed i t hawaiting with hwait | hlanded
    · exact h.waits_read ht hwait
    · exact Or.inr (h.landed_read (sector_of_awaits hawaiting.1) hlanded)
  constructor
  · intro i t hawaiting
    have hid : callOf d (afterRead d s a b) i t = callOf d s i t := rfl
    rw [hid]
    obtain ⟨hawaits, hbegun⟩ := hawaiting
    rw [hid] at hbegun
    rcases clientAfter_cases (b := b) hmove i with
      hsame | ⟨t', r, hpc, ha, hr, hafter⟩
    · have hawaits' : (s.client i).awaits = some t := by
        rw [← hsame]
        exact hawaits
      by_cases hentered :
          s.client i = .calling t ∧ s.base.caller (callOf d s i t) = .entered
      · obtain ⟨hpc, hentered⟩ := hentered
        have hleft : b.caller (callOf d s i t) ≠ .entered := by
          apply hbegun
          exact hsame.trans hpc
        exact Or.inl (h.begun_read ht hpc hsame hentered hleft)
      · apply hgoes i t
        refine ⟨hawaits', ?_⟩
        intro hpc hent
        exact hentered ⟨hpc, hent⟩
    · rcases afterCall_awaits (d.find i).pcdfile r hpc with
        hsync | ⟨-, -, hnone⟩
      · have hclient : (afterRead d s a b).client i = .syncTest t' := by
          rw [← hsync, ← hafter]
          rfl
        rw [hclient] at hawaits
        cases Option.some.inj hawaits
        apply hgoes i t
        refine ⟨by rw [hpc]; rfl, ?_⟩
        intro _ hentered
        -- a descriptor is asked for on a free drive
        subst ha
        cases driveStep_of_step ht with
        | begins hbegins _ _ _ => simp [beginsRead, hentered] at hbegins
        | locks k hk _ _ _ _ _ _ hreturned =>
            cases hk
            rw [hreturned] at hr
            cases hr
        | keeps _ _ _ hrefused =>
            obtain ⟨hflag, hreturned⟩ := hrefused _ rfl hentered
            rw [hreturned] at hr
            cases Option.some.inj hr
            cases t with
            | descriptor k second =>
                have hfree : s.base.syncFlag = false :=
                  hguard (by rw [hpc]; rfl) hentered
                rw [hfree] at hflag
                cases hflag
            | directory fh c =>
                rw [hpc] at hsync
                cases hsync
      · have hclient : ((afterRead d s a b).client i).awaits = none := by
          rw [← hnone, ← hafter]
          rfl
        rw [hclient] at hawaits
        cases hawaits
  · intro i t hlooks
    have hlooks' : (s.client i).looksAt = some t := by
      rw [← clientAfter_keeps (b := b) Pc.looksAt afterCall_looksAt hmove i]
      exact hlooks
    exact h.landed_read (sector_of_looksAt hlooks') (h.buffer.looked i t hlooks')

end Buffer

section Phases

variable {ρ : Type u} {φ : Type v}
variable {d : Setup ρ φ} {s t : State ρ φ}

/-- What has been done inside `fs_init` depends on the log and on `layer_info`
only. -/
theorem InsideFacts.congr
    {pc : Pc}
    (h : InsideFacts d s pc)
    (hlog : t.log = s.log)
    (hinfo0 : t.layerInfo0 = s.layerInfo0)
    (hinfo1 : t.layerInfo1 = s.layerInfo1) :
    InsideFacts d t pc := by
  have hbefore : ∀ second, BeforeRoot d s second → BeforeRoot d t second := by
    rintro second ⟨hprepared, hfirst⟩
    refine ⟨hlog.trans hprepared, ?_⟩
    intro hsecond
    rw [hinfo0]
    exact hfirst hsecond
  cases pc with
  | deviceFSInit k => exact hlog.trans h
  | clearHandles k => exact hlog.trans h
  | calling r =>
      cases r with
      | descriptor k second => exact hbefore second h
      | directory fh c => trivial
  | syncTest r =>
      cases r with
      | descriptor k second => exact hbefore second h
      | directory fh c => trivial
  | syncWait r =>
      cases r with
      | descriptor k second => exact hbefore second h
      | directory fh c => trivial
  | arrived r =>
      cases r with
      | descriptor k second => exact hbefore second h
      | directory fh c => trivial
  | rootLength k second =>
      refine ⟨hbefore second h.1, ?_⟩
      rw [hinfo0, hinfo1]
      exact h.2
  | setFsInited k =>
      obtain ⟨hprepared, hroot0, hroot1⟩ := h
      refine ⟨hlog.trans hprepared, hinfo0.trans hroot0, ?_⟩
      rw [hinfo1]
      exact hroot1
  | _ => trivial

/-- A client inside `fs_init` whose `sceCdRead` returns has done what it had
done. -/
theorem InsideFacts.afterCall
    {pc : Pc}
    (h : InsideFacts d s pc)
    (pcdfile : CdFile) (r : Bool) :
    InsideFacts d s (pc.afterCall pcdfile r) := by
  unfold Pc.afterCall
  split
  · cases r with
    | false => trivial
    | true => trivial
  · rename_i u hne
    cases u with
    | descriptor k second => exact h
    | directory fh c => trivial
  · exact h

/-- Where the variables of `fs_init` are left alone, the facts of a phase are
kept. -/
theorem PhaseFacts.congr
    {p : Phase φ}
    (h : PhaseFacts d s p)
    (hlog : t.log = s.log)
    (hinfo0 : t.layerInfo0 = s.layerInfo0)
    (hinfo1 : t.layerInfo1 = s.layerInfo1)
    (hinside : ∀ i, p = .inside i → InsideFacts d s (t.client i)) :
    PhaseFacts d t p := by
  cases p with
  | fresh => exact hlog.trans h
  | inside i => exact (hinside i rfl).congr hlog hinfo0 hinfo1
  | done =>
      obtain ⟨⟨opened, hopened⟩, hroot0, hroot1⟩ := h
      refine ⟨⟨opened, hlog.trans hopened⟩, hinfo0.trans hroot0, ?_⟩
      rw [hinfo1]
      exact hroot1

/-- A client is behind `fs_init` where it has been, and where one of the flags is
set. -/
theorem PhaseOf.done_of
    {p : Phase φ} {i : φ}
    (h : PhaseOf d s p)
    (hpast :
      (s.client i).pastInit = true ∨ s.cdinited = true ∨ s.fsInited = true) :
    p = .done := by
  rcases hpast with hpast | hcd | hfs
  · exact h.past i hpast
  · exact h.cdinited hcd
  · exact h.fsInited.mp hfs

variable [DecidableEq φ]

/-- A step that moves the client `i` and leaves the variables of `fs_init`
alone. -/
theorem PhaseOf.goto
    {p : Phase φ} {i : φ} {pc : Pc}
    (h : PhaseOf d s p)
    (hclient : t.client = Function.update s.client i pc)
    (hfs : t.fsInited = s.fsInited)
    (hcd : t.cdinited = true → p = .done)
    (hlog : t.log = s.log)
    (hinfo0 : t.layerInfo0 = s.layerInfo0)
    (hinfo1 : t.layerInfo1 = s.layerInfo1)
    (hinside : pc.inFsInit = (s.client i).inFsInit)
    (hpast : pc.pastInit = true → p = .done)
    (hfacts : pc.inFsInit = true → InsideFacts d s pc) :
    PhaseOf d t p := by
  refine ⟨by rw [hfs]; exact h.fsInited, hcd, ?_, ?_, ?_, ?_⟩
  · intro j
    rw [hclient]
    by_cases hji : j = i
    · subst hji
      rw [Function.update_self, hinside]
      exact h.inside j
    · rw [Function.update_of_ne hji]
      exact h.inside j
  · intro j hj
    rw [hclient] at hj
    by_cases hji : j = i
    · subst hji
      rw [Function.update_self] at hj
      exact hpast hj
    · rw [Function.update_of_ne hji] at hj
      exact h.past j hj
  · rw [hinfo1]
    exact h.single
  · refine h.facts.congr hlog hinfo0 hinfo1 ?_
    rintro j rfl
    rw [hclient]
    by_cases hji : j = i
    · subst hji
      rw [Function.update_self]
      apply hfacts
      rw [hinside]
      exact (h.inside j).mpr rfl
    · rw [Function.update_of_ne hji]
      exact h.facts

/-- A step of the client inside `fs_init` that goes on there. -/
theorem PhaseOf.inside_goto
    {i : φ} {pc : Pc}
    (h : PhaseOf d s (.inside i))
    (hclient : t.client = Function.update s.client i pc)
    (hfs : t.fsInited = s.fsInited)
    (hcd : t.cdinited = s.cdinited)
    (hinside : pc.inFsInit = true)
    (hpast : pc.pastInit = false)
    (hsingle : d.dual = false → t.layerInfo1 = s.layerInfo1)
    (hfacts : InsideFacts d t pc) :
    PhaseOf d t (.inside i) := by
  refine ⟨by rw [hfs]; exact h.fsInited, by rw [hcd]; exact h.cdinited, ?_, ?_, ?_,
    ?_⟩
  · intro j
    rw [hclient]
    by_cases hji : j = i
    · subst hji
      rw [Function.update_self, hinside]
      simp
    · rw [Function.update_of_ne hji]
      exact h.inside j
  · intro j hj
    rw [hclient] at hj
    by_cases hji : j = i
    · subst hji
      rw [Function.update_self, hpast] at hj
      cases hj
    · rw [Function.update_of_ne hji] at hj
      exact h.past j hj
  · intro hdual
    rw [hsingle hdual]
    exact h.single hdual
  · show InsideFacts d t (t.client i)
    rw [hclient, Function.update_self]
    exact hfacts

/-- `fs_init` is begun. -/
theorem PhaseOf.enter
    {p : Phase φ} {i : φ} {k : InitCaller}
    (h : PhaseOf d s p)
    (hpc : s.client i = .fsTest k)
    (hfs : s.fsInited = false)
    (hguard : ∀ j, (s.client j).inFsInit = false) :
    PhaseOf d (s.goto i (.deviceFSInit k)) (.inside i) := by
  have hfresh : p = .fresh := by
    cases p with
    | fresh => rfl
    | inside j =>
        have hinside := (h.inside j).mpr rfl
        rw [hguard j] at hinside
        cases hinside
    | done =>
        have hdone := h.fsInited.mpr rfl
        rw [hfs] at hdone
        cases hdone
  subst hfresh
  refine ⟨?_, ?_, ?_, ?_, h.single, ?_⟩
  · show s.fsInited = true ↔ _
    rw [hfs]
    simp
  · intro hcd
    cases h.cdinited hcd
  · intro j
    by_cases hji : j = i
    · subst hji
      simp [State.goto, Pc.inFsInit]
    · simp [State.goto, hji, hguard j, Ne.symm hji]
  · intro j hj
    by_cases hji : j = i
    · subst hji
      simp [State.goto, Pc.pastInit] at hj
    · have hj' : (s.client j).pastInit = true := by
        simpa [State.goto, hji] using hj
      cases h.past j hj'
  · have hlog : s.log = [] := h.facts
    simpa [PhaseFacts, State.goto, InsideFacts] using hlog

/-- `fs_inited` is set. -/
theorem PhaseOf.finish
    {i : φ} {k : InitCaller}
    (h : PhaseOf d s (.inside i))
    (hpc : s.client i = .setFsInited k) :
    PhaseOf d ({ s with fsInited := true }.goto i (.setCdinited k)) .done := by
  refine ⟨?_, ?_, ?_, ?_, h.single, ?_⟩
  · simp [State.goto]
  · intro _
    rfl
  · intro j
    by_cases hji : j = i
    · subst hji
      simp [State.goto, Pc.inFsInit]
    · have hout : (s.client j).inFsInit = false := by
        rw [← Bool.not_eq_true, h.inside j]
        rintro ⟨⟩
        exact hji rfl
      simp [State.goto, hji, hout]
  · intro _ _
    rfl
  · have hfacts : InsideFacts d s (s.client i) := h.facts
    rw [hpc] at hfacts
    obtain ⟨hlog, hroots⟩ := hfacts
    refine ⟨⟨[], ?_⟩, hroots⟩
    show s.log = _
    rw [hlog]
    simp

variable [DecidableEq ρ]

/-- A step of the drive keeps the phase. -/
theorem PhaseOf.read
    {p : Phase φ} {a : Requests.Act (CallId ρ (φ × Nat))}
    {b : Requests.State (CallId ρ (φ × Nat))}
    (h : PhaseOf d s p)
    (hmove : mayMove d s a = true) :
    PhaseOf d (afterRead d s a b) p := by
  refine ⟨h.fsInited, h.cdinited, ?_, ?_, h.single, ?_⟩
  · intro i
    rw [← h.inside i]
    exact iff_of_eq
      (congrArg (· = true)
        (clientAfter_keeps Pc.inFsInit afterCall_inFsInit hmove i))
  · intro i hi
    apply h.past i
    rw [← clientAfter_keeps (b := b) Pc.pastInit afterCall_pastInit hmove i]
    exact hi
  · refine h.facts.congr rfl rfl rfl ?_
    rintro i rfl
    have hfacts : InsideFacts d s (s.client i) := h.facts
    rcases clientAfter_cases (b := b) hmove i with
      hsame | ⟨u, r, -, -, -, hafter⟩
    · show InsideFacts d s (clientAfter d s b a i)
      rw [hsame]
      exact hfacts
    · show InsideFacts d s (clientAfter d s b a i)
      rw [hafter]
      exact hfacts.afterCall _ r

end Phases

section Positions

variable {ρ : Type u} {φ : Type v} {d : Setup ρ φ} {i : φ}

/-- A position outside `fs_init` at which no sector is read. -/
structure Plain (pc : Pc) (holds past : Bool) : Prop where
  sector : pc.sector = none
  inFsInit : pc.inFsInit = false
  holdsSema : pc.holdsSema = holds
  pastInit : pc.pastInit = past

/-- A position outside `fs_init` at which no sector is waited for. -/
structure Idle (pc : Pc) (holds : Bool) : Prop where
  awaits : pc.awaits = none
  inFsInit : pc.inFsInit = false
  holdsSema : pc.holdsSema = holds

theorem afterInit_plain (k : InitCaller) :
    Plain (afterInit d i k) false true := by
  cases k with
  | sceCdInit => exact ⟨rfl, rfl, rfl, rfl⟩
  | cdvdmanOpen =>
      unfold afterInit
      split_ifs
      · exact ⟨rfl, rfl, rfl, rfl⟩
      · exact ⟨rfl, rfl, rfl, rfl⟩
  | cdvdmanFindfile fh => exact ⟨rfl, rfl, rfl, rfl⟩

theorem afterFind_plain (answer : Int × CdFile) (fh : Option (Fin maxFdhandles)) :
    Plain (afterFind d i answer fh) false true := by
  cases fh with
  | none => exact ⟨rfl, rfl, rfl, rfl⟩
  | some fh => exact ⟨rfl, rfl, rfl, rfl⟩

theorem afterSector_plain
    (fh : Option (Fin maxFdhandles)) (c : Cursor) (m : Nat → UInt8) :
    Plain (afterSector d i fh c m) true true := by
  unfold afterSector
  split
  · exact ⟨rfl, rfl, rfl, rfl⟩
  · split
    · exact ⟨rfl, rfl, rfl, rfl⟩
    · exact ⟨rfl, rfl, rfl, rfl⟩
  · exact ⟨rfl, rfl, rfl, rfl⟩
  · exact ⟨rfl, rfl, rfl, rfl⟩

/-- Where a lookup is that has looked at `layer_info`. -/
theorem rootTest_plain (fh : Option (Fin maxFdhandles)) (s : State ρ φ) :
    Plain
      (if (if d.layer i ≠ 0 then s.layerInfo1 else s.layerInfo0).rootDirtocLBA =
          0 then
        .releasing fh (0, (d.find i).pcdfile)
      else
        .searching fh
          (startLocate (d.filepath i)
            (if d.layer i ≠ 0 then s.layerInfo1
              else s.layerInfo0).rootDirtocLBA
            (s32 (if d.layer i ≠ 0 then s.layerInfo1
              else s.layerInfo0).rootDirtocLength)))
      true true := by
  generalize (if d.layer i ≠ 0 then s.layerInfo1 else s.layerInfo0) = info
  split_ifs
  · exact ⟨rfl, rfl, rfl, rfl⟩
  · exact ⟨rfl, rfl, rfl, rfl⟩

end Positions

section Moves

variable {ρ : Type u} {φ : Type v} [DecidableEq φ]
variable {d : Setup ρ φ} {s t : State ρ φ} {i : φ} {pc : Pc}

/-- A step of the client `i` that leaves the drive and the memory alone. -/
structure Moves (s t : State ρ φ) (i : φ) (pc : Pc) : Prop where
  base : t.base = s.base
  copy : t.copy = s.copy
  mem : t.drive.mem = s.drive.mem
  client : t.client = Function.update s.client i pc

theorem Moves.self (hm : Moves s t i pc) : t.client i = pc := by
  rw [hm.client, Function.update_self]

theorem Moves.other
    {j : φ}
    (hm : Moves s t i pc)
    (hj : j ≠ i) :
    t.client j = s.client j := by
  rw [hm.client, Function.update_of_ne hj]

theorem Moves.landed
    {r : SectorRead}
    (hm : Moves s t i pc)
    (h : Landed d s r) :
    Landed d t r := by
  unfold Landed
  rw [hm.mem]
  exact h

/-- A client that neither asks for a sector nor stops waiting for one, unless
the drive is free. -/
theorem DriveInv.goto
    (h : DriveInv d s)
    (hm : Moves s t i pc)
    (hasked : t.asked = s.asked)
    (hawaits : pc.awaits = (s.client i).awaits ∨ s.base.syncFlag = false) :
    DriveInv d t := by
  refine ⟨by rw [hm.base]; exact h.base, ?_, ?_, ?_⟩
  · rw [hm.base, hasked]
    exact h.unused
  · rw [hm.base, hm.copy]
    exact h.copies
  · intro j n lsn hwait
    rw [hm.base] at hwait
    rw [hasked]
    obtain ⟨hn, r, hr, hlsn⟩ := h.pending j n lsn hwait
    refine ⟨hn, r, ?_, hlsn⟩
    by_cases hj : j = i
    · subst hj
      rw [hm.self]
      rcases hawaits with hsame | hfree
      · rw [hsame]
        exact hr
      · exact absurd hwait (not_allButLast_of_free h.base hfree)
    · rw [hm.other hj]
      exact hr

/-- A client calls `sceCdRead`. -/
theorem DriveInv.ask
    (h : DriveInv d s)
    (hm : Moves s t i pc)
    (hasked : t.asked = Function.update s.asked i (s.asked i + 1))
    (hnone : (s.client i).awaits = none) :
    DriveInv d t := by
  refine ⟨by rw [hm.base]; exact h.base, ?_, ?_, ?_⟩
  · intro j n lsn hn
    rw [hm.base]
    apply h.unused
    rw [hasked] at hn
    by_cases hj : j = i
    · subst hj
      rw [Function.update_self] at hn
      omega
    · rw [Function.update_of_ne hj] at hn
      exact hn
  · rw [hm.base, hm.copy]
    exact h.copies
  · intro j n lsn hwait
    rw [hm.base] at hwait
    obtain ⟨hn, r, hr, hlsn⟩ := h.pending j n lsn hwait
    have hj : j ≠ i := by
      rintro rfl
      rw [hnone] at hr
      cases hr
    rw [hasked, Function.update_of_ne hj, hm.other hj]
    exact ⟨hn, r, hr, hlsn⟩

/-- The sectors that the other clients read stay where they are. -/
theorem BufferInv.goto
    (h : BufferInv d s)
    (hm : Moves s t i pc)
    (hasked : ∀ j, j ≠ i → t.asked j = s.asked j)
    (hlanded :
      ∀ r, Awaiting d t i r →
        AllButLast d.call s.base (callOf d t i r) ∨ Landed d s r)
    (hlooked : ∀ r, pc.looksAt = some r → Landed d s r) :
    BufferInv d t := by
  constructor
  · intro j r hawaiting
    by_cases hj : j = i
    · subst hj
      rw [hm.base]
      rcases hlanded r hawaiting with hwait | hthere
      · exact Or.inl hwait
      · exact Or.inr (hm.landed hthere)
    · have hid : callOf d t j r = callOf d s j r := by
        unfold callOf
        rw [hasked j hj]
      unfold Awaiting at hawaiting
      rw [hid, hm.base, hm.other hj] at hawaiting
      rw [hid, hm.base]
      rcases h.landed j r hawaiting with hwait | hthere
      · exact Or.inl hwait
      · exact Or.inr (hm.landed hthere)
  · intro j r hlooks
    by_cases hj : j = i
    · subst hj
      rw [hm.self] at hlooks
      exact hm.landed (hlooked r hlooks)
    · rw [hm.other hj] at hlooks
      exact hm.landed (h.looked j r hlooks)

/-- A client that has just called `sceCdRead` does not wait for it yet. -/
theorem BufferInv.ask
    {r : SectorRead}
    (h : BufferInv d s)
    (hdrive : DriveInv d s)
    (hm : Moves s t i (.calling r))
    (hasked : t.asked = Function.update s.asked i (s.asked i + 1)) :
    BufferInv d t := by
  refine h.goto hm ?_ ?_ ?_
  · intro j hj
    rw [hasked, Function.update_of_ne hj]
  · rintro r' ⟨hawaits, hbegun⟩
    rw [hm.self] at hawaits hbegun
    cases Option.some.inj hawaits
    exfalso
    apply hbegun rfl
    rw [hm.base]
    apply hdrive.unused
    rw [hasked, Function.update_self]
    exact Nat.lt_succ_self _
  · intro r' hlooks
    cases hlooks

/-- A client that reads no sector now. -/
theorem BufferInv.leave
    (h : BufferInv d s)
    (hm : Moves s t i pc)
    (hasked : t.asked = s.asked)
    (hsector : pc.sector = none) :
    BufferInv d t := by
  refine h.goto hm ?_ ?_ ?_
  · intro j _
    rw [hasked]
  · rintro r ⟨hawaits, -⟩
    rw [hm.self] at hawaits
    rw [sector_of_awaits hawaits] at hsector
    cases hsector
  · intro r hlooks
    rw [sector_of_looksAt hlooks] at hsector
    cases hsector

variable {o : Option (φ ⊕ Requests.Act (CallId ρ (φ × Nat)))}

/-- Nobody but the client that moves takes or gives up the semaphore. -/
theorem Moves.holdsSema_other
    {x : φ ⊕ Requests.Act (CallId ρ (φ × Nat))}
    (hm : Moves s t i pc)
    (hx : x ≠ .inl i) :
    t.holdsSema x = s.holdsSema x := by
  cases x with
  | inl j =>
      have hj : j ≠ i := fun h => hx (congrArg Sum.inl h)
      exact congrArg Pc.holdsSema (hm.other hj)
  | inr a => exact congrArg (fun copy => (copy a).holdsSema) hm.copy

theorem Moves.holdsSema_self (hm : Moves s t i pc) :
    t.holdsSema (.inl i) = pc.holdsSema :=
  congrArg Pc.holdsSema hm.self

/-- A client that neither takes nor gives up the semaphore. -/
theorem HeldBy.goto
    (h : HeldBy s o)
    (hm : Moves s t i pc)
    (hsema : t.searchSema = s.searchSema)
    (hholds : pc.holdsSema = (s.client i).holdsSema) :
    HeldBy t o := by
  refine h.congr hsema ?_
  intro x
  by_cases hx : x = .inl i
  · subst hx
    rw [hm.holdsSema_self]
    exact hholds
  · exact hm.holdsSema_other hx

/-- A client goes on between two positions at which it reads no sector, and
keeps the semaphore if it has it. -/
theorem Inv.goto
    (h : Inv d s)
    (hm : Moves s t i pc)
    (hasked : t.asked = s.asked)
    (hsema : t.searchSema = s.searchSema)
    (hfrom : (s.client i).awaits = none)
    (hsector : pc.sector = none)
    (hholds : pc.holdsSema = (s.client i).holdsSema)
    (hphase : ∃ p, PhaseOf d t p) :
    Inv d t := by
  obtain ⟨o, ho⟩ := h.held
  have hawaits : pc.awaits = none := by
    cases hpc : pc.awaits with
    | none => rfl
    | some r =>
        rw [sector_of_awaits hpc] at hsector
        cases hsector
  exact
    ⟨h.drive.goto hm hasked (Or.inl (hawaits.trans hfrom.symm)),
      ⟨o, ho.goto hm hsema hholds⟩, hphase, h.buffer.leave hm hasked hsector⟩

/-- A client calls `sceCdRead` for a sector. -/
theorem Inv.ask
    {r : SectorRead}
    (h : Inv d s)
    (hm : Moves s t i (.calling r))
    (hasked : t.asked = Function.update s.asked i (s.asked i + 1))
    (hsema : t.searchSema = s.searchSema)
    (hfrom : (s.client i).awaits = none)
    (hholds : r.isDirectory = (s.client i).holdsSema)
    (hphase : ∃ p, PhaseOf d t p) :
    Inv d t := by
  obtain ⟨o, ho⟩ := h.held
  exact
    ⟨h.drive.ask hm hasked hfrom, ⟨o, ho.goto hm hsema hholds⟩, hphase,
      h.buffer.ask h.drive hm hasked⟩

/-- The variables of `fs_init`, the semaphore and the calls are left alone. -/
structure Keeps (s t : State ρ φ) : Prop where
  asked : t.asked = s.asked
  searchSema : t.searchSema = s.searchSema
  fsInited : t.fsInited = s.fsInited
  cdinited : t.cdinited = s.cdinited
  log : t.log = s.log
  layerInfo0 : t.layerInfo0 = s.layerInfo0
  layerInfo1 : t.layerInfo1 = s.layerInfo1

/-- A client goes on outside `fs_init`, and keeps the semaphore if it has it. -/
theorem Inv.plain
    {old : Pc} {holds past : Bool}
    (h : Inv d s)
    (hm : Moves s t i pc)
    (hkeeps : Keeps s t)
    (hold : s.client i = old)
    (hidle : Idle old holds)
    (hpc : Plain pc holds past)
    (hpast :
      past = true →
        old.pastInit = true ∨ s.cdinited = true ∨ s.fsInited = true) :
    Inv d t := by
  subst hold
  obtain ⟨p, hp⟩ := h.phase
  refine h.goto hm hkeeps.asked hkeeps.searchSema hidle.awaits hpc.sector
    (hpc.holdsSema.trans hidle.holdsSema.symm) ⟨p, ?_⟩
  refine hp.goto hm.client hkeeps.fsInited ?_ hkeeps.log hkeeps.layerInfo0
    hkeeps.layerInfo1 (hpc.inFsInit.trans hidle.inFsInit.symm) ?_ ?_
  · rw [hkeeps.cdinited]
    exact hp.cdinited
  · rw [hpc.pastInit]
    intro htrue
    exact hp.done_of (hpast htrue)
  · intro hin
    rw [hpc.inFsInit] at hin
    cases hin

/-- A client only goes on. -/
theorem Inv.goes
    {old : Pc} {holds past : Bool}
    (h : Inv d s)
    (hold : s.client i = old)
    (hidle : Idle old holds)
    (hpc : Plain pc holds past)
    (hpast :
      past = true →
        old.pastInit = true ∨ s.cdinited = true ∨ s.fsInited = true) :
    Inv d (s.goto i pc) :=
  h.plain ⟨rfl, rfl, rfl, rfl⟩ ⟨rfl, rfl, rfl, rfl, rfl, rfl, rfl⟩ hold hidle hpc
    hpast

/-- The positions of a client in `sceCdSync(0)` and behind it. -/
theorem Inv.sync
    {r : SectorRead}
    (h : Inv d s)
    (hfrom : s.client i = .syncTest r ∨ s.client i = .syncWait r)
    (hpc :
      pc = .syncTest r ∨ pc = .syncWait r ∨
        (pc = .arrived r ∧ s.base.syncFlag = false)) :
    Inv d (s.goto i pc) := by
  obtain ⟨o, ho⟩ := h.held
  obtain ⟨p, hp⟩ := h.phase
  have hm : Moves s (s.goto i pc) i pc := ⟨rfl, rfl, rfl, rfl⟩
  have hawaits : (s.client i).awaits = some r := by
    rcases hfrom with hfrom | hfrom
    · rw [hfrom]
      rfl
    · rw [hfrom]
      rfl
  have hawaiting : Awaiting d s i r := by
    refine ⟨hawaits, ?_⟩
    rcases hfrom with hfrom | hfrom
    · rw [hfrom]
      rintro ⟨⟩
    · rw [hfrom]
      rintro ⟨⟩
  have hprofile :
      pc.holdsSema = (s.client i).holdsSema ∧
        pc.inFsInit = (s.client i).inFsInit ∧
        pc.pastInit = (s.client i).pastInit := by
    rcases hfrom with hfrom | hfrom
    · rw [hfrom]
      rcases hpc with rfl | rfl | ⟨rfl, -⟩
      · exact ⟨rfl, rfl, rfl⟩
      · exact ⟨rfl, rfl, rfl⟩
      · exact ⟨rfl, rfl, rfl⟩
    · rw [hfrom]
      rcases hpc with rfl | rfl | ⟨rfl, -⟩
      · exact ⟨rfl, rfl, rfl⟩
      · exact ⟨rfl, rfl, rfl⟩
      · exact ⟨rfl, rfl, rfl⟩
  obtain ⟨hholds, hinside, hpast⟩ := hprofile
  have hfacts : pc.inFsInit = true → InsideFacts d s pc := by
    intro hin
    rw [hinside] at hin
    have hpi := (hp.inside i).mp hin
    subst hpi
    have hold : InsideFacts d s (s.client i) := hp.facts
    cases r with
    | directory fh c =>
        rcases hfrom with hfrom | hfrom
        · rw [hfrom] at hin
          cases hin
        · rw [hfrom] at hin
          cases hin
    | descriptor k second =>
        have hbefore : BeforeRoot d s second := by
          rcases hfrom with hfrom | hfrom
          · rw [hfrom] at hold
            exact hold
          · rw [hfrom] at hold
            exact hold
        rcases hpc with rfl | rfl | ⟨rfl, -⟩
        · exact hbefore
        · exact hbefore
        · exact hbefore
  refine ⟨?_, ⟨o, ho.goto hm rfl hholds⟩, ⟨p, ?_⟩, ?_⟩
  · refine h.drive.goto hm rfl ?_
    rcases hpc with rfl | rfl | ⟨rfl, hfree⟩
    · exact Or.inl hawaits.symm
    · exact Or.inl hawaits.symm
    · exact Or.inr hfree
  · refine hp.goto rfl rfl hp.cdinited rfl rfl rfl hinside ?_ hfacts
    rw [hpast]
    exact hp.past i
  · refine h.buffer.goto hm (fun _ _ => rfl) ?_ ?_
    · rintro r' ⟨hawaits', -⟩
      rw [hm.self] at hawaits'
      rcases hpc with rfl | rfl | ⟨rfl, -⟩
      · cases Option.some.inj hawaits'
        exact h.buffer.landed i r hawaiting
      · cases Option.some.inj hawaits'
        exact h.buffer.landed i r hawaiting
      · cases hawaits'
    · intro r' hlooks
      rcases hpc with rfl | rfl | ⟨rfl, hfree⟩
      · cases hlooks
      · cases hlooks
      · cases Option.some.inj hlooks
        -- the drive is free, so that the sector has landed
        rcases h.buffer.landed i r hawaiting with hwait | hthere
        · exact absurd hwait (not_allButLast_of_free h.drive.base hfree)
        · exact hthere

/-- A client inside `fs_init` goes on there. -/
theorem Inv.inside_goto
    (pc : Pc)
    (h : Inv d s)
    (hm : Moves s t i pc)
    (hasked : t.asked = s.asked)
    (hsema : t.searchSema = s.searchSema)
    (hfs : t.fsInited = s.fsInited)
    (hcd : t.cdinited = s.cdinited)
    (hfrom : (s.client i).inFsInit = true)
    (hawaits : (s.client i).awaits = none)
    (hpc : pc.inFsInit = true)
    (hnone : pc.awaits = none)
    (hlooks : ∀ r, pc.looksAt = some r → (s.client i).looksAt = some r)
    (hholds : pc.holdsSema = (s.client i).holdsSema)
    (hpast : pc.pastInit = false)
    (hsingle :
      InsideFacts d s (s.client i) → d.dual = false →
        t.layerInfo1 = s.layerInfo1)
    (hfacts : InsideFacts d s (s.client i) → InsideFacts d t pc) :
    Inv d t := by
  obtain ⟨o, ho⟩ := h.held
  obtain ⟨p, hp⟩ := h.phase
  have hpi := (hp.inside i).mp hfrom
  subst hpi
  refine ⟨h.drive.goto hm hasked (Or.inl (hnone.trans hawaits.symm)),
    ⟨o, ho.goto hm hsema hholds⟩,
    ⟨_, hp.inside_goto hm.client hfs hcd hpc hpast (hsingle hp.facts)
      (hfacts hp.facts)⟩, ?_⟩
  refine h.buffer.goto hm (fun j _ => by rw [hasked]) ?_ ?_
  · rintro r ⟨hawaits', -⟩
    rw [hm.self, hnone] at hawaits'
    cases hawaits'
  · intro r hr
    exact h.buffer.looked i r (hlooks r hr)

/-- A client inside `fs_init` asks for a descriptor. -/
theorem Inv.inside_ask
    {k : InitCaller} {second : Bool}
    (h : Inv d s)
    (hm : Moves s t i (.calling (.descriptor k second)))
    (hasked : t.asked = Function.update s.asked i (s.asked i + 1))
    (hsema : t.searchSema = s.searchSema)
    (hfs : t.fsInited = s.fsInited)
    (hcd : t.cdinited = s.cdinited)
    (hfrom : (s.client i).inFsInit = true)
    (hawaits : (s.client i).awaits = none)
    (hholds : (s.client i).holdsSema = false)
    (hinfo1 : t.layerInfo1 = s.layerInfo1)
    (hfacts : InsideFacts d s (s.client i) → BeforeRoot d t second) :
    Inv d t := by
  obtain ⟨p, hp⟩ := h.phase
  have hpi := (hp.inside i).mp hfrom
  subst hpi
  exact h.ask hm hasked hsema hawaits hholds.symm
    ⟨_, hp.inside_goto hm.client hfs hcd rfl rfl (fun _ => hinfo1)
      (hfacts hp.facts)⟩

end Moves

section Steps

variable {ρ : Type u} {φ : Type v}
variable {d : Setup ρ φ} {s t : State ρ φ} {i : φ}

theorem inv_initial (drive : DriveState) : Inv d (initial ρ φ drive) := by
  refine ⟨⟨Requests.inv_initial, ?_, ?_, ?_⟩, ⟨none, rfl, ?_⟩, ⟨.fresh, ?_⟩,
    ⟨?_, ?_⟩⟩
  · intro _ _ _ _
    rfl
  · intro _ hcopy
    exact absurd rfl hcopy
  · intro _ _ _ hwait
    exact absurd hwait (not_allButLast_of_free Requests.inv_initial rfl)
  · rintro (i | a)
    · simp [State.holdsSema, initial, Pc.holdsSema]
    · simp [State.holdsSema, initial, CopyPc.holdsSema]
  · refine ⟨?_, ?_, ?_, ?_, fun _ => rfl, rfl⟩
    · simp [initial]
    · rintro ⟨⟩
    · intro _
      simp [initial, Pc.inFsInit]
    · rintro _ ⟨⟩
  · rintro _ _ ⟨⟨⟩, -⟩
  · rintro _ _ ⟨⟩

variable [DecidableEq φ]

/-- The test of `fs_inited`. -/
theorem inv_fsTest
    {k : InitCaller}
    (h : Inv d s)
    (hpc : s.client i = .fsTest k)
    (hguard : s.fsInited = false → ∀ j, (s.client j).inFsInit = false) :
    Inv d
      (s.goto i (if s.fsInited then .setCdinited k else .deviceFSInit k)) := by
  cases hfs : s.fsInited with
  | true =>
      rw [if_pos rfl]
      exact h.goes hpc ⟨rfl, rfl, rfl⟩ ⟨rfl, rfl, rfl, rfl⟩
        (fun _ => Or.inr (Or.inr hfs))
  | false =>
      rw [if_neg Bool.false_ne_true]
      obtain ⟨p, hp⟩ := h.phase
      exact h.goto ⟨rfl, rfl, rfl, rfl⟩ rfl rfl (by rw [hpc]; rfl) rfl
        (by rw [hpc]; rfl) ⟨_, hp.enter hpc hfs (hguard hfs)⟩

/-- The first store of `fs_init` to `layer_info`. -/
theorem inv_arrived_descriptor
    {k : InitCaller} {second : Bool}
    (h : Inv d s)
    (hpc : s.client i = .arrived (.descriptor k second))
    (ht : clientStep d s i = some t) :
    Inv d t := by
  have hlanded := h.buffer.looked i (.descriptor k second) (by rw [hpc]; rfl)
  obtain ⟨lba, hlba⟩ : ∃ lba, lba = (d.root second).rootDirtocLBA := ⟨_, rfl⟩
  simp only [clientStep, hpc, hlanded.root, Option.some.injEq, ← hlba] at ht
  have hlooks :
      ∀ r, (Pc.rootLength k second).looksAt = some r →
        (s.client i).looksAt = some r := by
    intro r hr
    rw [hpc]
    exact hr
  cases second with
  | false =>
      simp only [Bool.false_eq_true, if_false] at ht
      subst ht
      refine h.inside_goto (.rootLength k false) ⟨rfl, rfl, rfl, rfl⟩ rfl
        rfl rfl rfl (by rw [hpc]; rfl) (by rw [hpc]; rfl) rfl rfl hlooks
        (by rw [hpc]; rfl) rfl (fun _ _ => rfl) ?_
      intro hfacts
      rw [hpc] at hfacts
      refine ⟨⟨hfacts.1, ?_⟩, hlba⟩
      rintro ⟨⟩
  | true =>
      simp only [if_true] at ht
      subst ht
      refine h.inside_goto (.rootLength k true) ⟨rfl, rfl, rfl, rfl⟩ rfl
        rfl rfl rfl (by rw [hpc]; rfl) (by rw [hpc]; rfl) rfl rfl hlooks
        (by rw [hpc]; rfl) rfl ?_ ?_
      · intro hfacts hdual
        rw [hpc] at hfacts
        rw [(hfacts.2 rfl).1] at hdual
        cases hdual
      · intro hfacts
        rw [hpc] at hfacts
        exact ⟨hfacts, hlba⟩

/-- The second store of `fs_init` to `layer_info`, and what follows it. -/
theorem inv_rootLength
    {k : InitCaller} {second : Bool}
    (h : Inv d s)
    (hpc : s.client i = .rootLength k second)
    (ht : clientStep d s i = some t) :
    Inv d t := by
  have hlanded := h.buffer.looked i (.descriptor k second) (by rw [hpc]; rfl)
  obtain ⟨length, hlength⟩ :
      ∃ length, length = (d.root second).rootDirtocLength :=
    ⟨_, rfl⟩
  simp only [clientStep, hpc, hlanded.root, ← hlength] at ht
  cases second with
  | true =>
      simp only [if_true, Option.some.injEq] at ht
      subst ht
      refine h.inside_goto (.setFsInited k) ⟨rfl, rfl, rfl, rfl⟩ rfl rfl
        rfl rfl (by rw [hpc]; rfl) (by rw [hpc]; rfl) rfl rfl ?_
        (by rw [hpc]; rfl) rfl ?_ ?_
      · rintro r ⟨⟩
      · intro hfacts hdual
        rw [hpc] at hfacts
        rw [(hfacts.1.2 rfl).1] at hdual
        cases hdual
      · intro hfacts
        rw [hpc] at hfacts
        obtain ⟨⟨hlog, hfirst⟩, hlba⟩ := hfacts
        have hlba' : s.layerInfo1.rootDirtocLBA = (d.root true).rootDirtocLBA :=
          hlba
        refine ⟨hlog, (hfirst rfl).2, fun _ => ?_⟩
        show LayerInfo.mk s.layerInfo1.rootDirtocLBA length = d.root true
        rw [hlba', hlength]
  | false =>
      simp only [Bool.false_eq_true, if_false, Option.some.injEq] at ht
      have hstored :
          InsideFacts d s (s.client i) →
            s.log = prepared ∧
              LayerInfo.mk s.layerInfo0.rootDirtocLBA length = d.root false := by
        intro hfacts
        rw [hpc] at hfacts
        obtain ⟨⟨hlog, -⟩, hlba⟩ := hfacts
        have hlba' :
            s.layerInfo0.rootDirtocLBA = (d.root false).rootDirtocLBA :=
          hlba
        rw [hlba', hlength]
        exact ⟨hlog, rfl⟩
      cases hdual : d.dual with
      | true =>
          rw [hdual, if_pos rfl] at ht
          subst ht
          refine h.inside_ask ⟨rfl, rfl, rfl, rfl⟩ rfl rfl rfl rfl
            (by rw [hpc]; rfl) (by rw [hpc]; rfl) (by rw [hpc]; rfl) rfl ?_
          intro hfacts
          exact ⟨(hstored hfacts).1, fun _ => ⟨hdual, (hstored hfacts).2⟩⟩
      | false =>
          rw [hdual, if_neg Bool.false_ne_true] at ht
          subst ht
          refine h.inside_goto (.setFsInited k) ⟨rfl, rfl, rfl, rfl⟩ rfl
            rfl rfl rfl (by rw [hpc]; rfl) (by rw [hpc]; rfl) rfl rfl ?_
            (by rw [hpc]; rfl) rfl (fun _ _ => rfl) ?_
          · rintro r ⟨⟩
          · intro hfacts
            refine ⟨(hstored hfacts).1, (hstored hfacts).2, ?_⟩
            intro htrue
            rw [hdual] at htrue
            cases htrue

/-- The last step of `cdvdman_init`. -/
theorem inv_setCdinited
    {k : InitCaller}
    (h : Inv d s)
    (hpc : s.client i = .setCdinited k) :
    Inv d ({ s with cdinited := true }.goto i (afterInit d i k)) := by
  obtain ⟨p, hp⟩ := h.phase
  have hdone : p = .done := hp.past i (by rw [hpc]; rfl)
  have hplain : Plain (afterInit d i k) false true := afterInit_plain k
  refine h.goto ⟨rfl, rfl, rfl, rfl⟩ rfl rfl
    (by rw [hpc]; rfl) hplain.sector ?_ ⟨p, ?_⟩
  · rw [hplain.holdsSema, hpc]
    rfl
  · refine hp.goto rfl rfl (fun _ => hdone) rfl rfl rfl ?_ (fun _ => hdone) ?_
    · rw [hplain.inFsInit, hpc]
      rfl
    · intro hin
      rw [hplain.inFsInit] at hin
      cases hin

/-- `cdvdman_open` writes its handle behind `fs_init`. -/
theorem inv_assign
    {fh : Fin maxFdhandles} {answer : Int × CdFile}
    (handles : Fin maxFdhandles → FHandle φ)
    (h : Inv d s)
    (hpc : s.client i = .assign fh answer) :
    Inv d
      ({ s with
          fdhandles := handles
          log := s.log ++ [FsEvent.openHandle i] }.goto i (.ioRelease 0)) := by
  obtain ⟨p, hp⟩ := h.phase
  have hdone : p = .done := hp.past i (by rw [hpc]; rfl)
  subst hdone
  refine h.goto ⟨rfl, rfl, rfl, rfl⟩ rfl rfl
    (by rw [hpc]; rfl) rfl (by rw [hpc]; rfl) ⟨.done, ?_⟩
  have hquiet : PhaseOf d (s.goto i (.ioRelease 0)) .done :=
    hp.goto rfl rfl (fun _ => rfl) rfl rfl rfl (by rw [hpc]; rfl) (fun _ => rfl)
      (by rintro ⟨⟩)
  obtain ⟨⟨opened, hopened⟩, hroots⟩ := hp.facts
  refine ⟨hquiet.fsInited, fun _ => rfl, hquiet.inside, hquiet.past,
    hquiet.single, ⟨opened ++ [i], ?_⟩, hroots⟩
  show s.log ++ [FsEvent.openHandle i] = _
  rw [hopened]
  simp

/-- A lookup takes the semaphore. -/
theorem inv_semaWait
    {fh : Option (Fin maxFdhandles)}
    (h : Inv d s)
    (hpc : s.client i = .semaWait fh)
    (hpos : 0 < s.searchSema) :
    Inv d
      ({ s with searchSema := s.searchSema - 1 }.goto i (.rootTest fh)) := by
  obtain ⟨o, ho⟩ := h.held
  obtain ⟨p, hp⟩ := h.phase
  have hm :
      Moves s ({ s with searchSema := s.searchSema - 1 }.goto i (.rootTest fh))
        i (.rootTest fh) :=
    ⟨rfl, rfl, rfl, rfl⟩
  have hdone : p = .done := hp.past i (by rw [hpc]; rfl)
  exact
    ⟨h.drive.goto hm rfl (Or.inl (by rw [hpc]; rfl)),
      ⟨_, ho.take hpos rfl hm.holdsSema_self (fun _ => hm.holdsSema_other)⟩,
      ⟨p, hp.goto rfl rfl hp.cdinited rfl rfl rfl (by rw [hpc]; rfl)
        (fun _ => hdone) (by rintro ⟨⟩)⟩,
      h.buffer.leave hm rfl rfl⟩

/-- A lookup gives up the semaphore. -/
theorem inv_releasing
    {fh : Option (Fin maxFdhandles)} {answer : Int × CdFile}
    (h : Inv d s)
    (hpc : s.client i = .releasing fh answer) :
    Inv d
      ({ s with searchSema := min (s.searchSema + 1) 1 }.goto i
        (afterFind d i answer fh)) := by
  obtain ⟨o, ho⟩ := h.held
  obtain ⟨p, hp⟩ := h.phase
  have hplain : Plain (afterFind d i answer fh) false true :=
    afterFind_plain answer fh
  have hm :
      Moves s
        ({ s with searchSema := min (s.searchSema + 1) 1 }.goto i
          (afterFind d i answer fh))
        i (afterFind d i answer fh) :=
    ⟨rfl, rfl, rfl, rfl⟩
  have hdone : p = .done := hp.past i (by rw [hpc]; rfl)
  have hawaits : (afterFind d i answer fh).awaits = none := by
    cases fh with
    | none => rfl
    | some fh => rfl
  have hheld : s.holdsSema (.inl i) = true := by
    show (s.client i).holdsSema = true
    rw [hpc]
    rfl
  refine
    ⟨h.drive.goto hm rfl (Or.inl ?_),
      ⟨_, ho.release hheld rfl (hm.holdsSema_self.trans hplain.holdsSema)
        (fun _ => hm.holdsSema_other)⟩, ⟨p, ?_⟩,
      h.buffer.leave hm rfl hplain.sector⟩
  · rw [hawaits, hpc]
    rfl
  · refine hp.goto rfl rfl hp.cdinited rfl rfl rfl ?_ (fun _ => hdone) ?_
    · rw [hplain.inFsInit, hpc]
      rfl
    · intro hin
      rw [hplain.inFsInit] at hin
      cases hin

/-- A step of a client that leaves `fs_init` alone keeps the invariant. -/
theorem Inv.client
    (h : Inv d s)
    (hguard : initApart d s (.client i))
    (ht : clientStep d s i = some t) :
    Inv d t := by
  cases hpc : s.client i with
  | entered =>
      have hk :
          ∀ k : InitCaller, k.pastInit = false → ∀ n,
            Inv d ({ s with ioSema := n }.goto i (.initTest k)) := by
        intro k hk n
        exact h.plain ⟨rfl, rfl, rfl, rfl⟩ ⟨rfl, rfl, rfl, rfl, rfl, rfl, rfl⟩ hpc
          ⟨rfl, rfl, rfl⟩ ⟨rfl, rfl, rfl, hk⟩ (by rintro ⟨⟩)
      cases hcall : d.clients i with
      | sceCdInit =>
          simp only [clientStep, hpc, hcall, Option.some.injEq] at ht
          subst ht
          exact hk _ rfl s.ioSema
      | cdvdmanOpen find =>
          simp only [clientStep, hpc, hcall] at ht
          split_ifs at ht
          cases ht
          exact hk _ rfl _
      | cdvdmanFindfile find =>
          simp only [clientStep, hpc, hcall, Option.some.injEq] at ht
          subst ht
          exact hk _ rfl s.ioSema
      | cbrpcCdsearchfile pkt =>
          simp only [clientStep, hpc, hcall, Option.some.injEq] at ht
          subst ht
          exact hk _ rfl s.ioSema
  | initTest k =>
      simp only [clientStep, hpc, Option.some.injEq] at ht
      subst ht
      cases hcd : s.cdinited with
      | true =>
          exact h.goes hpc ⟨rfl, rfl, rfl⟩ (afterInit_plain k)
            (fun _ => Or.inr (Or.inl hcd))
      | false =>
          exact h.goes hpc ⟨rfl, rfl, rfl⟩ ⟨rfl, rfl, rfl, rfl⟩ Or.inl
  | clearErr k =>
      simp only [clientStep, hpc, Option.some.injEq] at ht
      subst ht
      exact h.plain ⟨rfl, rfl, rfl, rfl⟩ ⟨rfl, rfl, rfl, rfl, rfl, rfl, rfl⟩ hpc
        ⟨rfl, rfl, rfl⟩ ⟨rfl, rfl, rfl, rfl⟩ Or.inl
  | fsTest k =>
      simp only [clientStep, hpc, Option.some.injEq] at ht
      subst ht
      exact inv_fsTest h hpc (hguard (by rw [hpc]; rfl))
  | deviceFSInit k =>
      simp only [clientStep, hpc, Option.some.injEq] at ht
      subst ht
      refine h.inside_goto (.clearHandles k) ⟨rfl, rfl, rfl, rfl⟩ rfl rfl
        rfl rfl (by rw [hpc]; rfl) (by rw [hpc]; rfl) rfl rfl (by rintro r ⟨⟩)
        (by rw [hpc]; rfl) rfl (fun _ _ => rfl) ?_
      intro hfacts
      rw [hpc] at hfacts
      have hlog : s.log = [] := hfacts
      show s.log ++ [FsEvent.deviceFSInit] = [.deviceFSInit]
      rw [hlog]
      rfl
  | clearHandles k =>
      simp only [clientStep, hpc, Option.some.injEq] at ht
      subst ht
      refine h.inside_ask ⟨rfl, rfl, rfl, rfl⟩ rfl rfl rfl rfl
        (by rw [hpc]; rfl) (by rw [hpc]; rfl) (by rw [hpc]; rfl) rfl ?_
      intro hfacts
      rw [hpc] at hfacts
      have hlog : s.log = [.deviceFSInit] := hfacts
      refine ⟨?_, by rintro ⟨⟩⟩
      show s.log ++ [FsEvent.clearHandles] = prepared
      rw [hlog]
      rfl
  | calling r =>
      simp only [clientStep, hpc] at ht
      cases ht
  | syncTest r =>
      simp only [clientStep, hpc, Option.some.injEq] at ht
      subst ht
      cases hflag : s.base.syncFlag with
      | true => exact h.sync (Or.inl hpc) (Or.inr (Or.inl rfl))
      | false => exact h.sync (Or.inl hpc) (Or.inr (Or.inr ⟨rfl, hflag⟩))
  | syncWait r =>
      simp only [clientStep, hpc] at ht
      split_ifs at ht
      cases ht
      exact h.sync (Or.inr hpc) (Or.inl rfl)
  | arrived r =>
      cases r with
      | descriptor k second => exact inv_arrived_descriptor h hpc ht
      | directory fh c =>
          simp only [clientStep, hpc, Option.some.injEq] at ht
          subst ht
          exact h.goes hpc ⟨rfl, rfl, rfl⟩ (afterSector_plain fh c s.drive.mem)
            (fun _ => Or.inl rfl)
  | rootLength k second => exact inv_rootLength h hpc ht
  | setFsInited k =>
      simp only [clientStep, hpc, Option.some.injEq] at ht
      subst ht
      obtain ⟨p, hp⟩ := h.phase
      have hpi := (hp.inside i).mp (by rw [hpc]; rfl)
      subst hpi
      exact h.goto ⟨rfl, rfl, rfl, rfl⟩ rfl rfl (by rw [hpc]; rfl) rfl
        (by rw [hpc]; rfl) ⟨_, hp.finish hpc⟩
  | setCdinited k =>
      simp only [clientStep, hpc, Option.some.injEq] at ht
      subst ht
      exact inv_setCdinited h hpc
  | diskReady =>
      simp only [clientStep, hpc, Option.some.injEq] at ht
      subst ht
      exact h.plain ⟨rfl, rfl, rfl, rfl⟩ ⟨rfl, rfl, rfl, rfl, rfl, rfl, rfl⟩ hpc
        ⟨rfl, rfl, rfl⟩ ⟨rfl, rfl, rfl, rfl⟩ Or.inl
  | readyInited =>
      simp only [clientStep, hpc, Option.some.injEq] at ht
      subst ht
      have hplain :
          Plain (if s.cdinited then .readyTest else .freeSlot) false true := by
        split_ifs
        · exact ⟨rfl, rfl, rfl, rfl⟩
        · exact ⟨rfl, rfl, rfl, rfl⟩
      exact h.goes hpc ⟨rfl, rfl, rfl⟩ hplain (fun _ => Or.inl rfl)
  | readyTest =>
      simp only [clientStep, hpc, Option.some.injEq] at ht
      subst ht
      have hplain :
          Plain (if s.base.syncFlag then .readyWait else .freeSlot) false true := by
        split_ifs
        · exact ⟨rfl, rfl, rfl, rfl⟩
        · exact ⟨rfl, rfl, rfl, rfl⟩
      exact h.goes hpc ⟨rfl, rfl, rfl⟩ hplain (fun _ => Or.inl rfl)
  | readyWait =>
      simp only [clientStep, hpc] at ht
      split_ifs at ht
      cases ht
      exact h.goes hpc ⟨rfl, rfl, rfl⟩ ⟨rfl, rfl, rfl, rfl⟩ Or.inl
  | freeSlot =>
      simp only [clientStep, hpc, Option.some.injEq] at ht
      subst ht
      cases cdvdmanGetfilefreeslot s.fdhandles with
      | none =>
          exact h.goes hpc ⟨rfl, rfl, rfl⟩ ⟨rfl, rfl, rfl, rfl⟩ (fun _ => Or.inl rfl)
      | some fh =>
          exact h.goes hpc ⟨rfl, rfl, rfl⟩ ⟨rfl, rfl, rfl, rfl⟩ (fun _ => Or.inl rfl)
  | semaWait fh =>
      simp only [clientStep, hpc] at ht
      split_ifs at ht with hpos
      cases ht
      exact inv_semaWait h hpc hpos
  | rootTest fh =>
      simp only [clientStep, hpc, Option.some.injEq] at ht
      subst ht
      exact h.goes hpc ⟨rfl, rfl, rfl⟩ (rootTest_plain fh s) (fun _ => Or.inl rfl)
  | searching fh c =>
      simp only [clientStep, hpc, Option.some.injEq] at ht
      subst ht
      split_ifs with hmore
      · obtain ⟨p, hp⟩ := h.phase
        have hdone : p = .done := hp.past i (by rw [hpc]; rfl)
        exact h.ask ⟨rfl, rfl, rfl, rfl⟩ rfl rfl (by rw [hpc]; rfl)
          (by rw [hpc]; rfl)
          ⟨p, hp.goto rfl rfl hp.cdinited rfl rfl rfl (by rw [hpc]; rfl)
            (fun _ => hdone) (by rintro ⟨⟩)⟩
      · exact h.goes hpc ⟨rfl, rfl, rfl⟩ ⟨rfl, rfl, rfl, rfl⟩ Or.inl
  | looping =>
      simp only [clientStep, hpc] at ht
      cases ht
  | releasing fh answer =>
      simp only [clientStep, hpc, Option.some.injEq] at ht
      subst ht
      exact inv_releasing h hpc
  | assign fh answer =>
      simp only [clientStep, hpc] at ht
      split_ifs at ht
      · cases ht
        exact inv_assign _ h hpc
      · cases ht
        exact h.goes hpc ⟨rfl, rfl, rfl⟩ ⟨rfl, rfl, rfl, rfl⟩ Or.inl
  | ioRelease r =>
      simp only [clientStep, hpc, Option.some.injEq] at ht
      subst ht
      exact h.plain ⟨rfl, rfl, rfl, rfl⟩ ⟨rfl, rfl, rfl, rfl, rfl, rfl, rfl⟩ hpc
        ⟨rfl, rfl, rfl⟩ ⟨rfl, rfl, rfl, rfl⟩ Or.inl
  | returned out =>
      simp only [clientStep, hpc] at ht
      cases ht

end Steps

section Copies

variable {ρ : Type u} {φ : Type v}
variable {d : Setup ρ φ} {s : State ρ φ}
variable {a : Requests.Act (CallId ρ (φ × Nat))} {cp : CopyPc}

/-- While the double copy holds the semaphore and `fs_init` needs no descriptor,
nobody reads a sector. -/
theorem Inv.nobody_reads
    (h : Inv d s)
    (hheld : (s.copy a).holdsSema = true)
    (hguard : ∀ j, needsDescriptor d s j = false)
    {i : φ} {r : SectorRead} :
    ¬ Awaiting d s i r ∧ (s.client i).looksAt ≠ some r := by
  obtain ⟨o, ho⟩ := h.held
  have hdirectory : ∀ hsector : (s.client i).sector = some r,
      r.isDirectory = false := by
    intro hsector
    rw [← Bool.not_eq_true]
    intro hdir
    have hsame : (Sum.inl i : φ ⊕ Requests.Act _) = .inr a :=
      ho.unique (holdsSema_of_sector hsector hdir).1 hheld
    cases hsame
  have hneeds := hguard i
  constructor
  · rintro ⟨hawaits, hbegun⟩
    have hsector := sector_of_awaits hawaits
    have hinside := inFsInit_of_sector hsector (hdirectory hsector)
    unfold needsDescriptor at hneeds
    rw [hinside, Bool.true_and] at hneeds
    cases hpc : s.client i with
    | calling r' =>
        rw [hpc] at hawaits hbegun hneeds
        cases Option.some.inj hawaits
        have hentered : s.base.caller (callOf d s i r) = .entered := by
          simpa using hneeds
        exact hbegun rfl hentered
    | syncTest r' =>
        rw [hpc] at hneeds
        cases hneeds
    | syncWait r' =>
        rw [hpc] at hneeds
        cases hneeds
    | _ =>
        rw [hpc] at hawaits
        cases hawaits
  · intro hlooks
    have hsector := sector_of_looksAt hlooks
    have hinside := inFsInit_of_sector hsector (hdirectory hsector)
    unfold needsDescriptor at hneeds
    rw [hinside, Bool.true_and] at hneeds
    cases hpc : s.client i with
    | arrived r' =>
        rw [hpc] at hneeds
        cases hneeds
    | rootLength k second =>
        rw [hpc] at hneeds
        cases hneeds
    | _ =>
        rw [hpc] at hlooks
        cases hlooks

variable [DecidableEq ρ] [DecidableEq φ]

/-- A step of the double copy moves no client and no call. -/
theorem DriveInv.copy
    (h : DriveInv d s)
    (n : Nat) (drive : DriveState)
    (hcopy : s.copy a ≠ .outside) :
    DriveInv d
      { s with
        searchSema := n
        drive := drive
        copy := Function.update s.copy a cp } := by
  refine ⟨h.base, h.unused, ?_, h.pending⟩
  intro a' ha'
  by_cases hne : a' = a
  · subst hne
    exact h.copies a' hcopy
  · apply h.copies
    simpa [hne] using ha'

theorem PhaseOf.copy
    {p : Phase φ}
    (h : PhaseOf d s p)
    (n : Nat) (drive : DriveState) :
    PhaseOf d
      { s with
        searchSema := n
        drive := drive
        copy := Function.update s.copy a cp } p := by
  refine ⟨h.fsInited, h.cdinited, h.inside, h.past, h.single, ?_⟩
  refine h.facts.congr rfl rfl rfl ?_
  rintro i rfl
  exact h.facts

/-- A step of the double copy takes or gives up the semaphore for nobody
else. -/
theorem copy_holdsSema_other
    {x : φ ⊕ Requests.Act (CallId ρ (φ × Nat))} (n : Nat) (drive : DriveState)
    (hx : x ≠ .inr a) :
    State.holdsSema
        { s with
          searchSema := n
          drive := drive
          copy := Function.update s.copy a cp } x =
      s.holdsSema x := by
  cases x with
  | inl i => rfl
  | inr a' =>
      have hne : a' ≠ a := fun h => hx (congrArg Sum.inr h)
      exact congrArg CopyPc.holdsSema (Function.update_of_ne hne _ _)

theorem copy_holdsSema_self (n : Nat) (drive : DriveState) :
    State.holdsSema
        { s with
          searchSema := n
          drive := drive
          copy := Function.update s.copy a cp } (.inr a) =
      cp.holdsSema :=
  congrArg CopyPc.holdsSema (Function.update_self _ _ _)

/-- A step of the double copy that leaves `fs_init` alone keeps the
invariant. -/
theorem Inv.copy
    {t : State ρ φ}
    (h : Inv d s)
    (hguard : initApart d s (.copy a))
    (ht : copyStep d s a = some t) :
    Inv d t := by
  obtain ⟨o, ho⟩ := h.held
  obtain ⟨p, hp⟩ := h.phase
  cases hcp : s.copy a with
  | outside =>
      simp only [copyStep, hcp] at ht
      cases ht
  | semaWait args =>
      simp only [copyStep, hcp] at ht
      split_ifs at ht with hpos
      cases ht
      exact
        ⟨h.drive.copy _ s.drive (by rw [hcp]; rintro ⟨⟩),
          ⟨_, ho.take hpos rfl (copy_holdsSema_self _ s.drive)
            (fun _ => copy_holdsSema_other _ s.drive)⟩, ⟨p, hp.copy _ s.drive⟩,
          ⟨h.buffer.landed, h.buffer.looked⟩⟩
  | copying args =>
      have hheld : (s.copy a).holdsSema = true := by
        rw [hcp]
        rfl
      simp only [copyStep, hcp] at ht
      split_ifs at ht with hmore
      · cases ht
        have hwrites : (s.copy a).writes = true := by
          rw [hcp]
          simpa [CopyPc.writes] using hmore
        have hnobody :
            ∀ i r, ¬ Awaiting d s i r ∧ (s.client i).looksAt ≠ some r :=
          fun i r => h.nobody_reads hheld (hguard hwrites)
        refine
          ⟨h.drive.copy s.searchSema _ (by rw [hcp]; rintro ⟨⟩), ⟨o, ?_⟩,
            ⟨p, hp.copy s.searchSema _⟩, ⟨?_, ?_⟩⟩
        · refine ho.congr rfl ?_
          intro x
          by_cases hx : x = .inr a
          · subst hx
            exact (copy_holdsSema_self s.searchSema _).trans hheld.symm
          · exact copy_holdsSema_other s.searchSema _ hx
        · intro i r hawaiting
          exact absurd hawaiting (hnobody i r).1
        · intro i r hlooks
          exact absurd hlooks (hnobody i r).2
      · cases ht
        exact
          ⟨h.drive.copy _ s.drive (by rw [hcp]; rintro ⟨⟩),
            ⟨_, ho.release (x := .inr a) hheld rfl (copy_holdsSema_self _ s.drive)
            (fun _ => copy_holdsSema_other _ s.drive)⟩, ⟨p, hp.copy _ s.drive⟩,
            ⟨h.buffer.landed, h.buffer.looked⟩⟩
  | copied =>
      simp only [copyStep, hcp] at ht
      cases ht

/-- A step of the drive keeps the invariant. -/
theorem Inv.read
    {b : Requests.State (CallId ρ (φ × Nat))}
    (h : Inv d s)
    (hguard : initApart d s (.read a))
    (hmove : mayMove d s a = true)
    (ht :
      Requests.step (d.cfg.has iopcoreCompatAltRead) d.call s.base a = some b) :
    Inv d (afterRead d s a b) := by
  obtain ⟨o, ho⟩ := h.held
  obtain ⟨p, hp⟩ := h.phase
  exact
    ⟨h.drive.read hmove ht, ⟨o, ho.read h.drive hmove⟩, ⟨p, hp.read hmove⟩,
      BufferInv.read h hguard hmove ht⟩

/-- **Step lemma.** Every step that leaves `fs_init` alone keeps the
invariant. -/
theorem Inv.next
    {t : State ρ φ} {x : Act ρ φ}
    (h : Inv d s)
    (hguard : initApart d s x)
    (ht : step d s x = some t) :
    Inv d t := by
  cases x with
  | read a =>
      simp only [step] at ht
      split_ifs at ht with hmove
      obtain ⟨b, hb, rfl⟩ := Option.map_eq_some_iff.mp ht
      exact h.read hguard hmove hb
  | copy a => exact h.copy hguard ht
  | client i => exact h.client hguard ht

/-- **Run lemma.** The invariant holds wherever the steps lead that leave
`fs_init` alone. -/
theorem Inv.of_reach
    {drive : DriveState}
    (h : GuardedReach (step d) (initApart d) (initial ρ φ drive) s) :
    Inv d s :=
  h.invariant (inv_initial drive) (fun _ _ _ hu hguard ht => hu.next hguard ht)

end Copies

end Clients
end Ps2Cdvd
