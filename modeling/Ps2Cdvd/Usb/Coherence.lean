import Mathlib.Data.UInt
import Mathlib.Tactic
import Ps2Cdvd.Usb.Command

/-!
# The read-ahead window under writes, failures and interleaved transfers

The whole driver: a client thread in `mass_stor_readSector` or
`mass_stor_writeSector`, the command it has started, and the transfers that usbd
has accepted.  A data transfer takes effect in the step of its callback; one that
fails leaves anything in its range.

A byte of `ra_buffer` is described when the window, or the read-ahead that is
being submitted, names a sector for it.

* `CoherentInv`: a described byte is on its way or there;
* `massStorReadSector_fresh_of_undisturbed`: in a run without a disturbance every
  copy out of `ra_buffer` is what the disk holds.
-/

namespace Ps2Cdvd
namespace Usb

open Lib

section Source

/-- What the data of a command are: a read into the caller's buffer, a read-ahead
or a write, the last two from sector `lba` on. -/
inductive Job
  | read
  | ahead (lba : Nat)
  | write (lba : Nat) (bytes : Nat → UInt8)

/-- Where the client thread is. -/
inductive Client
  | idle
  | entered (sector count : Nat)
  | fetch (sector count : Nat)
  | reading (sector count : Nat)
  | detect (sector count : Nat)
  | opening (sector count : Nat)
  | writing

/-- A copy out of `ra_buffer`, with the disk at that moment. -/
structure Copy where
  sector : Nat
  count : Nat
  bytes : Nat → UInt8
  disk : Nat → UInt8

/-- The driver, its client and the disk; `free` is the count of `io_sema`, which
only the VMC build has. -/
structure RaSystem where
  cmd : State Job
  vars : RaVars
  raBuffer : Nat → UInt8
  disk : Nat → UInt8
  client : Client
  free : Bool
  copies : List Copy

def RaSystem.initial (raBuffer disk : Nat → UInt8) : RaSystem where
  cmd := State.initial Job
  vars := RaVars.initial
  raBuffer := raBuffer
  disk := disk
  client := .idle
  free := true
  copies := []

/-- `read` and `write` are calls; the client goes on by `await`, `fetch`,
`detect`, `resume`, `submit` and `wake`. -/
inductive RaAct
  | read (sector count : Nat)
  | write (lba count : Nat) (bytes : Nat → UInt8)
  | await
  | fetch
  | detect
  | resume
  | submit (accepted : Bool)
  | wake
  | callback (ok : Bool) (junk : Nat → UInt8)

/-- What a transfer does that is called back with `ok`. -/
def RaSystem.transferred
    (t : Transfer Job) (ok : Bool) (junk : Nat → UInt8) (s : RaSystem) :
    RaSystem :=
  match t.part, t.what with
  | .data pos len, .ahead lba =>
      { s with
        raBuffer :=
          writeRange s.raBuffer pos len
            (fun i => if ok then s.disk (512 * lba + pos + i) else junk i) }
  | .data pos len, .write lba bytes =>
      { s with
        disk :=
          writeRange s.disk (512 * lba + pos) len
            (fun i => if ok then bytes (pos + i) else junk i) }
  | _, _ => s

/-- `cbw_scsi_sector_io(dev, dir, lba, …, sectorCount, …)` starts its command;
`job` says what the device makes of the sector in the command block. -/
def RaSystem.sectorIo
    (job : Nat → Job) (dir lba sectorCount : Nat) (hasCb : Bool) (client : Client)
    (s : RaSystem) : RaSystem :=
  { s with
    client := client
    cmd :=
      beginCmd
        ⟨512 * sectorCount, hasCb, job (cdbLba (comData dir lba sectorCount))⟩
        s.cmd }

/-- One step; the sectors of a call are those of the disk, whose numbers have 32
bits. -/
def raStep (vmc : Bool) (s : RaSystem) : RaAct → Option RaSystem
  | .read sector count =>
      match s.client with
      | .idle =>
          if sector + count < 4294967296 ∧ count < 65536 ∧
              (vmc = false ∨ s.free = true) then
            some { s with client := .entered sector count, free := false }
          else none
      | _ => none
  | .write lba count bytes =>
      match s.client with
      | .idle =>
          if lba + count < 4294967296 ∧ count < 65536 ∧ vmc = true ∧
              s.free = true then
            some
              ({ s with free := false }.sectorIo (.write · bytes) 1 lba count false
                .writing)
          else none
      | _ => none
  | .await =>
      match s.client with
      | .entered sector count =>
          if s.vars.raActive then
            if s.cmd.ioSem then
              some
                { s with
                  client := .fetch sector count
                  vars := { s.vars with raActive := false }
                  cmd := { s.cmd with ioSem := false } }
            else none
          else some { s with client := .fetch sector count }
      | _ => none
  | .fetch =>
      match s.client with
      | .fetch sector count =>
          if s.vars.hit sector count then
            some
              { s with
                client := .detect sector count
                vars := s.vars.consume count
                copies :=
                  s.copies ++
                    [⟨sector, count, fun i => s.raBuffer (s.vars.raPos + i),
                      s.disk⟩] }
          else
            some
              (s.sectorIo (fun _ => .read) 0 sector count false
                (.reading sector count))
      | _ => none
  | .detect =>
      match s.client with
      | .detect sector count =>
          if s.vars.wantsAhead sector count then
            some
              (s.sectorIo .ahead 0 (u32 (sector + count)) count true
                (.opening sector count))
          else
            some
              { s with
                client := .idle
                vars := s.vars.noted sector count
                free := true }
      | _ => none
  | .resume =>
      match s.client, s.cmd.pc with
      | .reading sector count, .idle =>
          if s.cmd.current.returned = some true then
            some { s with client := .detect sector count }
          -- `return;` without `SIGNALIOSEMA(io_sema)`
          else some { s with client := .idle }
      | .opening sector count, .idle =>
          let vars :=
            if s.cmd.current.returned = some true then s.vars.opened sector count
            else s.vars
          some
            { s with
              client := .idle
              vars := vars.noted sector count
              free := true }
      | .writing, .idle => some { s with client := .idle, free := true }
      | _, _ => none
  | .submit accepted =>
      (submit accepted s.cmd).map (fun c => { s with cmd := c })
  | .wake => (step s.cmd .wake).map (fun c => { s with cmd := c })
  | .callback ok junk =>
      match s.cmd.queue with
      | t :: rest =>
          some
            { s.transferred t ok junk with
              cmd := scsiCmdCallback t ok { s.cmd with queue := rest } }
      | [] => none

end Source

section Purpose

/-- A copy gives the sectors asked for as the disk holds them. -/
def Copy.Fresh (c : Copy) : Prop :=
  ∀ i, i < 512 * c.count → c.bytes i = c.disk (512 * c.sector + i)

/-- The place on the disk that a transfer brings to position `p` of
`ra_buffer`. -/
def Transfer.source (t : Transfer Job) (p : Nat) : Option Nat :=
  match t.part, t.what with
  | .data pos len, .ahead lba =>
      if pos ≤ p ∧ p < pos + len then some (512 * lba + p) else none
  | _, _ => none

/-- The place whose byte position `p` gets last from the transfers under way. -/
def incoming : List (Transfer Job) → Nat → Option Nat
  | [], _ => none
  | t :: queue, p =>
      match incoming queue p with
      | some a => some a
      | none => t.source p

/-- How many bytes of the current command were accepted. -/
def Pc.sent : Pc Job → Nat
  | .data _ pos _ => pos
  | .csw r => r.dataLen
  | _ => 0

/-- How many bytes of the read-ahead that is being submitted were accepted. -/
def RaSystem.accepted (s : RaSystem) : Nat :=
  match s.client with
  | .opening _ count =>
      match s.cmd.pc with
      | .idle =>
          if s.cmd.current.returned = some true then 512 * count else 0
      | pc => pc.sent
  | _ => 0

/-- The first sector of the read-ahead that is being submitted. -/
def RaSystem.aheadLba (s : RaSystem) : Nat :=
  match s.client with
  | .opening sector count => u32 (sector + count)
  | _ => 0

/-- The position is in the window. -/
def RaVars.inWindow (v : RaVars) (p : Nat) : Prop :=
  v.raPos ≤ p ∧ p < v.raPos + 512 * v.raCount

instance (v : RaVars) (p : Nat) : Decidable (v.inWindow p) :=
  inferInstanceAs (Decidable (_ ∧ _))

/-- The place that the window names for a position. -/
def RaVars.place (v : RaVars) (p : Nat) : Nat :=
  512 * v.raSector + (p - v.raPos)

/-- The place that position `p` of `ra_buffer` is described by. -/
def RaSystem.described (s : RaSystem) (p : Nat) : Option Nat :=
  if p < s.accepted then some (512 * s.aheadLba + p)
  else if s.vars.inWindow p then some (s.vars.place p)
  else none

/-- The callback of a transfer makes the byte at `p` differ from the place
`a`. -/
def Transfer.spoils (t : Transfer Job) (ok : Bool) (p a : Nat) : Bool :=
  match t.part, t.what with
  | .data pos len, .ahead _ => !ok && decide (pos ≤ p ∧ p < pos + len)
  | .data pos len, .write lba _ =>
      decide (512 * lba + pos ≤ a ∧ a < 512 * lba + pos + len)
  | _, _ => false

/-- A step without a disturbance.  A copy does not take a byte that a transfer is
still to bring; a read-ahead is not refused when transfers into the window were
accepted for it that bring other sectors; and no write to a described sector and
no failed transfer to a described byte is called back, unless the byte is still
to come. -/
def undisturbed (s : RaSystem) : RaAct → Prop
  | .fetch =>
      match s.client with
      | .fetch sector count =>
          s.vars.hit sector count = true →
            ∀ i, i < 512 * count →
              incoming s.cmd.queue (s.vars.raPos + i) = none
      | _ => True
  | .submit false =>
      ∀ p, p < s.accepted → s.vars.inWindow p →
        512 * s.aheadLba + p = s.vars.place p
  | .callback ok _ =>
      match s.cmd.queue with
      | t :: rest =>
          ∀ p, p < max s.accepted (s.vars.raPos + 512 * s.vars.raCount) →
            ∀ a ∈ s.described p, t.spoils ok p a = true →
              (incoming rest p).isSome = true
      | [] => True
  | _ => True

instance (s : RaSystem) : ∀ a, Decidable (undisturbed s a)
  | .read _ _ => isTrue trivial
  | .write _ _ _ => isTrue trivial
  | .await => isTrue trivial
  | .fetch => by
      unfold undisturbed
      cases s.client <;> infer_instance
  | .detect => isTrue trivial
  | .resume => isTrue trivial
  | .submit true => isTrue trivial
  | .submit false =>
      inferInstanceAs
        (Decidable
          (∀ p, p < s.accepted → s.vars.inWindow p →
            512 * s.aheadLba + p = s.vars.place p))
  | .wake => isTrue trivial
  | .callback _ _ => by
      unfold undisturbed
      cases s.cmd.queue <;> infer_instance

end Purpose

section Described

variable {s : RaSystem}

/-- The byte at `p` is on its way from the place `a`, or there. -/
def RaSystem.Holds (s : RaSystem) (p a : Nat) : Prop :=
  incoming s.cmd.queue p = some a ∨
    (incoming s.cmd.queue p = none ∧ s.raBuffer p = s.disk a)

/-- The command that is being submitted. -/
def Pc.request : Pc Job → Option (Request Job)
  | .cbw r => some r
  | .data r _ _ => some r
  | .csw r => some r
  | _ => none

/-- A read-ahead is submitted in `opening` only. -/
def Commanding (s : RaSystem) : Prop :=
  match s.client with
  | .opening sector count =>
      s.cmd.pc ≠ .waiting ∧
        ∀ r, s.cmd.pc.request = some r →
          r = ⟨512 * count, true, .ahead (u32 (sector + count))⟩
  | _ => ∀ r, s.cmd.pc.request = some r → ∀ lba, r.what ≠ .ahead lba

/-- The invariant of runs without a disturbance. -/
structure CoherentInv (s : RaSystem) : Prop where
  holds : ∀ p a, s.described p = some a → s.Holds p a
  commanding : Commanding s
  whole :
    ∀ r pos rest, s.cmd.pc = .data r pos rest → pos + rest = r.dataLen
  small : s.vars.raCount < 65536
  copies : ∀ c ∈ s.copies, c.Fresh

theorem coherentInv_initial (raBuffer disk : Nat → UInt8) :
    CoherentInv (RaSystem.initial raBuffer disk) := by
  constructor
  · intro p a h
    have hwindow : ¬ RaVars.initial.inWindow p := by
      simp only [RaVars.inWindow, RaVars.initial]
      omega
    simp [RaSystem.described, RaSystem.initial, RaSystem.accepted, hwindow] at h
  · intro r h
    cases h
  · intro r pos rest h
    cases h
  · simp [RaSystem.initial, RaVars.initial]
  · intro c h
    cases h

/-- While no read-ahead is being submitted the window alone describes. -/
theorem described_of_accepted
    (h : s.accepted = 0) (p : Nat) :
    s.described p =
      if s.vars.inWindow p then some (s.vars.place p) else none := by
  unfold RaSystem.described
  rw [h, if_neg (Nat.not_lt_zero p)]

/-- A described place is below the end of what is described. -/
theorem lt_of_described
    {p a : Nat}
    (h : s.described p = some a) :
    p < max s.accepted (s.vars.raPos + 512 * s.vars.raCount) := by
  unfold RaSystem.described at h
  split_ifs at h with haccepted hwindow
  · exact lt_max_of_lt_left haccepted
  · exact lt_max_of_lt_right hwindow.2

/-- What the client does between the transfers keeps what is described. -/
theorem CoherentInv.frame
    {s' : RaSystem}
    (h : CoherentInv s)
    (hqueue : s'.cmd.queue = s.cmd.queue)
    (hbuffer : s'.raBuffer = s.raBuffer)
    (hdisk : s'.disk = s.disk)
    (hdescribed : ∀ p a, s'.described p = some a → s.described p = some a)
    (hcommanding : Commanding s')
    (hwhole : ∀ r pos rest, s'.cmd.pc = .data r pos rest → pos + rest = r.dataLen)
    (hsmall : s'.vars.raCount < 65536)
    (hcopies : ∀ c ∈ s'.copies, c.Fresh) :
    CoherentInv s' := by
  refine ⟨?_, hcommanding, hwhole, hsmall, hcopies⟩
  intro p a hplace
  unfold RaSystem.Holds
  rw [hqueue, hbuffer, hdisk]
  exact h.holds p a (hdescribed p a hplace)

/-- Without a read-ahead on either side the same window describes the same. -/
theorem described_of_vars
    {s' : RaSystem}
    (haccepted : s.accepted = 0)
    (haccepted' : s'.accepted = 0)
    (hpos : s'.vars.raPos = s.vars.raPos)
    (hsector : s'.vars.raSector = s.vars.raSector)
    (hcount : s'.vars.raCount = s.vars.raCount)
    (p : Nat) :
    s'.described p = s.described p := by
  rw [described_of_accepted haccepted, described_of_accepted haccepted']
  have hwindow : s'.vars.inWindow p ↔ s.vars.inWindow p := by
    unfold RaVars.inWindow
    rw [hpos, hcount]
  have hplace : s'.vars.place p = s.vars.place p := by
    unfold RaVars.place
    rw [hpos, hsector]
  by_cases h : s.vars.inWindow p
  · rw [if_pos h, if_pos (hwindow.mpr h), hplace]
  · rw [if_neg h, if_neg (fun h' => h (hwindow.mp h'))]

end Described

section Calls

variable {s s' : RaSystem} {vmc : Bool}

/-- No byte is accepted for a read-ahead outside `opening`. -/
theorem accepted_of_client
    (hclient : ∀ sector count, s.client ≠ .opening sector count) :
    s.accepted = 0 := by
  unfold RaSystem.accepted
  split
  · exact absurd ‹_› (hclient _ _)
  · rfl

/-- The start of a command other than a read-ahead. -/
theorem CoherentInv.sectorIo
    (h : CoherentInv s)
    (haccepted : s.accepted = 0)
    {job : Nat → Job}
    (hjob : ∀ lba lba', job lba ≠ .ahead lba')
    (dir lba count : Nat) (hasCb : Bool) {client : Client}
    (hclient : ∀ sector count, client ≠ .opening sector count) :
    CoherentInv (s.sectorIo job dir lba count hasCb client) := by
  have hquiet : (s.sectorIo job dir lba count hasCb client).accepted = 0 := by
    cases client with
    | opening sector count => exact absurd rfl (hclient sector count)
    | _ => rfl
  refine h.frame rfl rfl rfl ?_ ?_ ?_ h.small h.copies
  · intro p a hplace
    rw [described_of_vars haccepted hquiet rfl rfl rfl] at hplace
    exact hplace
  · cases client with
    | opening sector count => exact absurd rfl (hclient sector count)
    | _ =>
        intro r hr lba'
        simp only [RaSystem.sectorIo, beginCmd, Pc.request, Option.some.injEq] at hr
        subst hr
        exact hjob _ lba'
  · intro r pos rest hpc
    cases hpc

/-- A client that is not opening a window and starts no command. -/
theorem CoherentInv.goOn
    (h : CoherentInv s)
    (hclient : ∀ sector count, s.client ≠ .opening sector count)
    (client : Client)
    (hclient' : ∀ sector count, client ≠ .opening sector count)
    (cmd : State Job)
    (hpc : cmd.pc = s.cmd.pc)
    (hqueue : cmd.queue = s.cmd.queue)
    (vars : RaVars)
    (hpos : vars.raPos = s.vars.raPos)
    (hsector : vars.raSector = s.vars.raSector)
    (hcount : vars.raCount = s.vars.raCount)
    (free : Bool) :
    CoherentInv { s with client := client, cmd := cmd, vars := vars, free := free } := by
  have haccepted : s.accepted = 0 := accepted_of_client hclient
  have haccepted' :
      RaSystem.accepted
        { s with client := client, cmd := cmd, vars := vars, free := free } = 0 := by
    cases client with
    | opening sector count => exact absurd rfl (hclient' sector count)
    | _ => rfl
  have hcommanding : ∀ r, s.cmd.pc.request = some r → ∀ lba, r.what ≠ .ahead lba := by
    have hcommanding := h.commanding
    unfold Commanding at hcommanding
    split at hcommanding
    · exact absurd ‹_› (hclient _ _)
    · exact hcommanding
  refine h.frame hqueue rfl rfl ?_ ?_ ?_ ?_ h.copies
  · intro p a hplace
    rw [described_of_vars haccepted haccepted' hpos hsector hcount] at hplace
    exact hplace
  · cases client with
    | opening sector count => exact absurd rfl (hclient' sector count)
    | _ =>
        intro r hr
        apply hcommanding r
        rw [← hpc]
        exact hr
  · intro r pos rest hdata
    apply h.whole r pos rest
    rw [← hpc]
    exact hdata
  · rw [show (_ : RaSystem).vars.raCount = vars.raCount from rfl, hcount]
    exact h.small

/-- A byte of the window is there when no transfer is to bring it. -/
theorem CoherentInv.fresh
    (h : CoherentInv s)
    (haccepted : s.accepted = 0)
    {sector count : Nat}
    (hhit : s.vars.hit sector count = true)
    (hquiet :
      ∀ i, i < 512 * count → incoming s.cmd.queue (s.vars.raPos + i) = none) :
    Copy.Fresh
      ⟨sector, count, fun i => s.raBuffer (s.vars.raPos + i), s.disk⟩ := by
  unfold RaVars.hit at hhit
  obtain ⟨hsector, hcount⟩ := of_decide_eq_true hhit
  intro i hi
  have hi' : i < 512 * count := hi
  have hwindow : s.vars.inWindow (s.vars.raPos + i) := by
    constructor
    · omega
    · omega
  have hplace : s.described (s.vars.raPos + i) = some (512 * sector + i) := by
    rw [described_of_accepted haccepted, if_pos hwindow]
    unfold RaVars.place
    rw [hsector, Nat.add_sub_cancel_left]
  rcases h.holds _ _ hplace with hcoming | ⟨-, hthere⟩
  · rw [hquiet i hi'] at hcoming
    cases hcoming
  · exact hthere

/-- A copy out of the window shortens it. -/
theorem CoherentInv.consume
    (h : CoherentInv s)
    {sector count : Nat}
    (hclient : s.client = .fetch sector count)
    (hlast : sector + count < 4294967296)
    (hhit : s.vars.hit sector count = true)
    (hquiet :
      ∀ i, i < 512 * count → incoming s.cmd.queue (s.vars.raPos + i) = none) :
    CoherentInv
      { s with
        client := .detect sector count
        vars := s.vars.consume count
        copies :=
          s.copies ++
            [⟨sector, count, fun i => s.raBuffer (s.vars.raPos + i), s.disk⟩] } := by
  have haccepted : s.accepted = 0 := by
    apply accepted_of_client
    rw [hclient]
    simp
  have hfresh := h.fresh haccepted hhit hquiet
  have hsmall := h.small
  unfold RaVars.hit at hhit
  obtain ⟨hsector, hcount⟩ := of_decide_eq_true hhit
  have hsectors : u32 (s.vars.raSector + count) = s.vars.raSector + count :=
    u32_of_lt (by omega)
  have hrest : u16 (s.vars.raCount - count) = s.vars.raCount - count :=
    u16_of_lt (by omega)
  refine h.frame rfl rfl rfl ?_ ?_ h.whole ?_ ?_
  · intro p a hplace
    rw [described_of_accepted rfl] at hplace
    split_ifs at hplace with hwindow
    have hold : s.vars.inWindow p := by
      simp only [RaVars.inWindow, RaVars.consume, hrest] at hwindow
      unfold RaVars.inWindow
      omega
    rw [described_of_accepted haccepted, if_pos hold, ← hplace]
    simp only [RaVars.inWindow, RaVars.consume, hrest] at hwindow
    simp only [RaVars.place, RaVars.consume, hsectors, Option.some.injEq]
    omega
  · have hcommanding := h.commanding
    unfold Commanding at hcommanding
    rw [hclient] at hcommanding
    exact hcommanding
  · simp only [RaVars.consume, hrest]
    omega
  · intro c hc
    rcases List.mem_append.mp hc with hold | hnew
    · exact h.copies c hold
    · rw [List.mem_singleton.mp hnew]
      exact hfresh

/-- The start of a read-ahead. -/
theorem CoherentInv.openAhead
    (h : CoherentInv s)
    {sector count : Nat}
    (hclient : s.client = .detect sector count) :
    CoherentInv
      (s.sectorIo .ahead 0 (u32 (sector + count)) count true
        (.opening sector count)) := by
  have haccepted : s.accepted = 0 := by
    apply accepted_of_client
    rw [hclient]
    simp
  have hlba :
      cdbLba (comData 0 (u32 (sector + count)) count) = u32 (sector + count) :=
    cdbLba_comData 0 count (u32_lt _)
  refine h.frame rfl rfl rfl ?_ ?_ ?_ h.small h.copies
  · intro p a hplace
    have haccepted' :
        (s.sectorIo .ahead 0 (u32 (sector + count)) count true
          (.opening sector count)).accepted = 0 :=
      rfl
    rw [described_of_vars haccepted haccepted' rfl rfl rfl] at hplace
    exact hplace
  · constructor
    · simp [RaSystem.sectorIo, beginCmd]
    · intro r hr
      simp only [RaSystem.sectorIo, beginCmd, Pc.request, Option.some.injEq] at hr
      rw [← hr, hlba]
  · intro r pos rest hpc
    cases hpc

/-- The end of the submission of a read-ahead: its window, or the old one. -/
theorem CoherentInv.opened
    (h : CoherentInv s)
    {sector count : Nat}
    (hclient : s.client = .opening sector count)
    (hpc : s.cmd.pc = .idle)
    (hcount : count < 65536)
    {vars : RaVars}
    (hvars :
      vars =
        (if s.cmd.current.returned = some true then s.vars.opened sector count
        else s.vars).noted sector count) :
    CoherentInv { s with client := .idle, vars := vars, free := true } := by
  have haccepted :
      s.accepted =
        if s.cmd.current.returned = some true then 512 * count else 0 := by
    unfold RaSystem.accepted
    rw [hclient, hpc]
  have hlba : s.aheadLba = u32 (sector + count) := by
    unfold RaSystem.aheadLba
    rw [hclient]
  refine h.frame rfl rfl rfl ?_ ?_ ?_ ?_ h.copies
  · intro p a hplace
    rw [described_of_accepted rfl] at hplace
    subst hvars
    by_cases hreturned : s.cmd.current.returned = some true
    · simp only [if_pos hreturned] at hplace
      rw [if_pos hreturned] at haccepted
      unfold RaSystem.described
      rw [haccepted, hlba]
      split_ifs at hplace with hwindow
      simp only [RaVars.inWindow, RaVars.opened, RaVars.noted] at hwindow
      rw [if_pos (by omega), ← hplace]
      simp [RaVars.place, RaVars.opened, RaVars.noted]
    · simp only [if_neg hreturned] at hplace
      rw [if_neg hreturned] at haccepted
      rw [described_of_accepted haccepted]
      exact hplace
  · intro r hr
    simp only [hpc, Pc.request] at hr
    cases hr
  · intro r pos rest hdata
    simp only [hpc] at hdata
    cases hdata
  · subst hvars
    split_ifs
    · exact hcount
    · exact h.small

/-- The end of the wait of a command. -/
theorem CoherentInv.woken
    (h : CoherentInv s)
    {c : State Job}
    (hstep : step s.cmd .wake = some c) :
    CoherentInv { s with cmd := c } := by
  cases hpc : s.cmd.pc with
  | waiting =>
      simp only [step, hpc] at hstep
      split_ifs at hstep
      have hqueue : c.queue = s.cmd.queue := by
        rw [← Option.some.inj hstep]
        rfl
      have hpc' : c.pc = .idle := by
        rw [← Option.some.inj hstep]
        rfl
      have hclient : ∀ sector count, s.client ≠ .opening sector count := by
        intro sector count hclient
        have hcommanding := h.commanding
        unfold Commanding at hcommanding
        rw [hclient] at hcommanding
        exact hcommanding.1 hpc
      have haccepted := accepted_of_client hclient
      have haccepted' : RaSystem.accepted { s with cmd := c } = 0 :=
        accepted_of_client hclient
      refine h.frame hqueue rfl rfl ?_ ?_ ?_ h.small h.copies
      · intro p a hplace
        rw [described_of_vars haccepted haccepted' rfl rfl rfl] at hplace
        exact hplace
      · unfold Commanding
        split
        · exact absurd ‹_› (hclient _ _)
        · intro r hr
          simp only [hpc', Pc.request] at hr
          cases hr
      · intro r pos rest hdata
        simp only [hpc'] at hdata
        cases hdata
  | _ => simp [step, hpc] at hstep

end Calls

section Transfers

variable {s : RaSystem} {t : Transfer Job} {rest : List (Transfer Job)}

@[simp] theorem transferred_client (ok : Bool) (junk : Nat → UInt8) :
    (s.transferred t ok junk).client = s.client := by
  unfold RaSystem.transferred
  split
  · rfl
  · rfl
  · rfl

@[simp] theorem transferred_vars (ok : Bool) (junk : Nat → UInt8) :
    (s.transferred t ok junk).vars = s.vars := by
  unfold RaSystem.transferred
  split
  · rfl
  · rfl
  · rfl

@[simp] theorem transferred_copies (ok : Bool) (junk : Nat → UInt8) :
    (s.transferred t ok junk).copies = s.copies := by
  unfold RaSystem.transferred
  split
  · rfl
  · rfl
  · rfl

theorem incoming_append (queue : List (Transfer Job)) (t : Transfer Job) (p : Nat) :
    incoming (queue ++ [t]) p =
      match t.source p with
      | some a => some a
      | none => incoming queue p := by
  induction queue with
  | nil =>
      cases hsource : t.source p with
      | none => simp [incoming, hsource]
      | some a => simp [incoming, hsource]
  | cons t' queue ih =>
      rw [List.cons_append, incoming, ih]
      cases t.source p with
      | none => simp [incoming]
      | some a => rfl

/-- A transfer that reads ahead brings the byte it names. -/
theorem source_ahead
    (cmd pos len lba p : Nat) :
    Transfer.source ⟨cmd, .data pos len, .ahead lba⟩ p =
      if pos ≤ p ∧ p < pos + len then some (512 * lba + p) else none :=
  rfl

/-- Every other transfer brings nothing to `ra_buffer`. -/
theorem source_of_job
    {t : Transfer Job}
    (h : ∀ lba, t.what ≠ .ahead lba) (p : Nat) :
    t.source p = none := by
  unfold Transfer.source
  split
  · exact absurd ‹_› (h _)
  · rfl

theorem source_of_part
    {t : Transfer Job}
    (h : ∀ pos len, t.part ≠ .data pos len) (p : Nat) :
    t.source p = none := by
  unfold Transfer.source
  split
  · exact absurd ‹_› (h _ _)
  · rfl

/-- A byte that `t` is to bring last is there when it is called back, and every
other byte stays as it was, unless `t` spoils it. -/
theorem holds_transferred
    {ok : Bool} {junk : Nat → UInt8} {cmd : State Job} {p a : Nat}
    (hqueue : s.cmd.queue = t :: rest)
    (hrest : cmd.queue = rest)
    (h : s.Holds p a)
    (hspoils : t.spoils ok p a = true → (incoming rest p).isSome = true) :
    RaSystem.Holds { s.transferred t ok junk with cmd := cmd } p a := by
  unfold RaSystem.Holds at h ⊢
  rw [hqueue] at h
  simp only [hrest]
  cases hlater : incoming rest p with
  | some a' =>
      simp only [incoming, hlater] at h
      rcases h with h | ⟨h, -⟩
      · exact Or.inl h
      · cases h
  | none =>
      simp only [incoming, hlater] at h
      have hkept : t.spoils ok p a = false := by
        cases hs : t.spoils ok p a with
        | false => rfl
        | true =>
            have hsome := hspoils hs
            rw [hlater] at hsome
            cases hsome
      refine Or.inr ⟨rfl, ?_⟩
      unfold RaSystem.transferred
      unfold Transfer.source at h
      unfold Transfer.spoils at hkept
      split
      · rename_i pos len lba hpart hwhat
        simp only [hpart, hwhat] at h hkept
        by_cases hin : pos ≤ p ∧ p < pos + len
        · rw [if_pos hin] at h
          have hok : ok = true := by
            simpa [hin] using hkept
          have ha : 512 * lba + p = a := by
            rcases h with h | ⟨h, -⟩
            · exact Option.some.inj h
            · cases h
          subst hok
          simp only [writeRange, if_pos hin, if_true]
          congr 1
          omega
        · rw [if_neg hin] at h
          rcases h with h | ⟨-, h⟩
          · cases h
          · simp only [writeRange, if_neg hin]
            exact h
      · rename_i pos len lba bytes hpart hwhat
        simp only [hpart, hwhat] at h hkept
        have hout : ¬ (512 * lba + pos ≤ a ∧ a < 512 * lba + pos + len) :=
          of_decide_eq_false hkept
        rcases h with h | ⟨-, h⟩
        · cases h
        · simp only [writeRange, if_neg hout]
          exact h
      · rename_i hahead hwrite
        rcases h with h | ⟨-, h⟩
        · split at h
          · exact absurd ‹_› (hahead _ _ _ ‹_›)
          · cases h
        · exact h

theorem scsiCmdCallback_pc (t : Transfer Job) (ok : Bool) (c : State Job) :
    (scsiCmdCallback t ok c).pc = c.pc := by
  unfold scsiCmdCallback
  simp only
  split
  · rfl
  · rfl

theorem scsiCmdCallback_queue (t : Transfer Job) (ok : Bool) (c : State Job) :
    (scsiCmdCallback t ok c).queue = c.queue := by
  unfold scsiCmdCallback
  simp only
  split
  · rfl
  · rfl

/-- A callback does not touch what the command has returned. -/
theorem scsiCmdCallback_returned (t : Transfer Job) (ok : Bool) (c : State Job) :
    (scsiCmdCallback t ok c).current.returned = c.current.returned := by
  have hrecord :
      ∀ (c : State Job) (n k : Nat) (f : CmdRecord → CmdRecord),
        (∀ r, (f r).returned = r.returned) →
        ((c.record n f).records k).returned = (c.records k).returned := by
    intro c n k f hf
    by_cases h : k = n
    · subst h
      simp [State.record, hf]
    · rw [record_other c f h]
  have hfirst :
      ∀ k,
        ((c.record t.cmd
          (fun r =>
            { r with
              cswDone := r.cswDone || decide (t.part = Part.csw)
              failed := r.failed || !ok })).records k).returned =
          (c.records k).returned := by
    intro k
    apply hrecord
    intro r
    rfl
  unfold scsiCmdCallback
  simp only
  split
  · unfold complete State.current
    simp only
    rw [← hfirst]
    apply hrecord
    intro r
    rfl
  · exact hfirst _

/-- A callback leaves the client and what is described alone. -/
theorem described_callback
    (t : Transfer Job) (ok : Bool) (junk : Nat → UInt8)
    (rest : List (Transfer Job)) (p : Nat) :
    RaSystem.described
        { s.transferred t ok junk with
          cmd := scsiCmdCallback t ok { s.cmd with queue := rest } } p =
      s.described p := by
  have haccepted :
      RaSystem.accepted
          { s.transferred t ok junk with
            cmd := scsiCmdCallback t ok { s.cmd with queue := rest } } =
        s.accepted := by
    unfold RaSystem.accepted
    simp only [transferred_client, scsiCmdCallback_pc, scsiCmdCallback_returned]
    rfl
  unfold RaSystem.described
  rw [haccepted]
  simp only [RaSystem.aheadLba, transferred_client, transferred_vars]

/-- A callback without a disturbance. -/
theorem CoherentInv.callback
    (h : CoherentInv s)
    {ok : Bool} {junk : Nat → UInt8}
    (hqueue : s.cmd.queue = t :: rest)
    (hquiet : undisturbed s (.callback ok junk)) :
    CoherentInv
      { s.transferred t ok junk with
        cmd := scsiCmdCallback t ok { s.cmd with queue := rest } } := by
  simp only [undisturbed, hqueue] at hquiet
  constructor
  · intro p a hplace
    rw [described_callback] at hplace
    apply holds_transferred hqueue (scsiCmdCallback_queue _ _ _) (h.holds p a hplace)
    exact hquiet p (lt_of_described hplace) a hplace
  · have hcommanding := h.commanding
    unfold Commanding at hcommanding ⊢
    simp only [transferred_client, scsiCmdCallback_pc]
    exact hcommanding
  · intro r pos len hdata
    simp only [scsiCmdCallback_pc] at hdata
    exact h.whole r pos len hdata
  · simp only [transferred_vars]
    exact h.small
  · intro c hc
    simp only [transferred_copies] at hc
    exact h.copies c hc

end Transfers

section Submission

variable {s : RaSystem} {c : State Job}

/-- A submission that is refused. -/
theorem submit_refused
    {u : State Job}
    (h : submit false u = some c) :
    c.queue = u.queue ∧ c.pc = .idle ∧ c.current.returned = some false := by
  have hreturn :
      ∀ r part pc, submitPart r part false pc u = c →
        c.queue = u.queue ∧ c.pc = .idle ∧ c.current.returned = some false := by
    intro r part pc hc
    rw [← hc, submitPart_refused]
    refine ⟨rfl, rfl, ?_⟩
    rw [return_current]
  cases hpc : u.pc with
  | idle => simp [submit, hpc] at h
  | waiting => simp [submit, hpc] at h
  | cbw r =>
      simp only [submit, hpc, Option.some.injEq] at h
      exact hreturn _ _ _ h
  | data r pos rest =>
      simp only [submit, hpc, Option.some.injEq] at h
      exact hreturn _ _ _ h
  | csw r =>
      simp only [submit, hpc, Bool.false_and, Option.some.injEq] at h
      rw [if_neg (by simp)] at h
      exact hreturn _ _ _ h

/-- A refused submission leaves the window, whose bytes are those that it
names. -/
theorem CoherentInv.refused
    (h : CoherentInv s)
    (hquiet : undisturbed s (.submit false))
    (hstep : submit false s.cmd = some c) :
    CoherentInv { s with cmd := c } := by
  obtain ⟨hqueue, hpc, hreturned⟩ := submit_refused hstep
  have haccepted : RaSystem.accepted { s with cmd := c } = 0 := by
    unfold RaSystem.accepted
    cases hclient : s.client with
    | opening sector count => simp [hpc, hreturned]
    | _ => rfl
  refine h.frame hqueue rfl rfl ?_ ?_ ?_ h.small h.copies
  · intro p a hplace
    rw [described_of_accepted haccepted] at hplace
    split_ifs at hplace with hwindow
    have hold : s.vars.inWindow p := hwindow
    unfold RaSystem.described
    by_cases hp : p < s.accepted
    · have hsame := hquiet p hp hold
      rw [if_pos hp, hsame]
      exact hplace
    · rw [if_neg hp, if_pos hold]
      exact hplace
  · unfold Commanding
    simp only [hpc]
    split
    · constructor
      · simp
      · intro r hr
        cases hr
    · intro r hr
      cases hr
  · intro r pos rest hdata
    simp only [hpc] at hdata
    cases hdata

theorem nextData_busy (r : Request Job) (pos rest : Nat) :
    nextData r pos rest ≠ .idle ∧ nextData r pos rest ≠ .waiting := by
  unfold nextData
  split_ifs
  · simp
  · simp

theorem nextData_request (r : Request Job) (pos rest : Nat) :
    (nextData r pos rest).request = some r := by
  unfold nextData
  split_ifs
  · rfl
  · rfl

theorem nextData_whole
    {r : Request Job} {pos rest : Nat}
    (h : pos + rest = r.dataLen) :
    ∀ r' pos' rest', nextData r pos rest = .data r' pos' rest' →
      pos' + rest' = r'.dataLen := by
  intro r' pos' rest' hdata
  unfold nextData at hdata
  split_ifs at hdata
  cases hdata
  exact h

theorem nextData_sent
    {r : Request Job} {pos rest : Nat}
    (h : pos + rest = r.dataLen) :
    (nextData r pos rest).sent = pos := by
  unfold nextData
  split_ifs with hrest
  · rfl
  · unfold Pc.sent
    simp only
    omega

/-- A transfer that is accepted for another command, or brings no data. -/
theorem CoherentInv.queued
    (h : CoherentInv s)
    {t : Transfer Job}
    (hqueue : c.queue = s.cmd.queue ++ [t])
    (hsource : ∀ p, t.source p = none)
    (haccepted : RaSystem.accepted { s with cmd := c } = s.accepted)
    (hcommanding : Commanding { s with cmd := c })
    (hwhole : ∀ r pos rest, c.pc = .data r pos rest → pos + rest = r.dataLen) :
    CoherentInv { s with cmd := c } := by
  refine ⟨?_, hcommanding, hwhole, h.small, h.copies⟩
  intro p a hplace
  have hold : s.described p = some a := by
    rw [← hplace]
    unfold RaSystem.described
    rw [haccepted]
    rfl
  have hincoming : incoming c.queue p = incoming s.cmd.queue p := by
    rw [hqueue, incoming_append, hsource]
  have hheld := h.holds p a hold
  unfold RaSystem.Holds at hheld ⊢
  simp only [hincoming]
  exact hheld

/-- A read-ahead whose last submission was accepted goes on with its request. -/
theorem commanding_nextData
    {sector count : Nat} {r : Request Job} {pos rest : Nat}
    (hclient : s.client = .opening sector count)
    (hr : r = ⟨512 * count, true, .ahead (u32 (sector + count))⟩)
    (hpc : c.pc = nextData r pos rest) :
    Commanding { s with cmd := c } := by
  unfold Commanding
  simp only [hclient]
  constructor
  · rw [hpc]
    exact (nextData_busy r pos rest).2
  · intro r' hr'
    rw [hpc, nextData_request, Option.some.injEq] at hr'
    rw [← hr', hr]

/-- The data of a read-ahead that are accepted. -/
theorem CoherentInv.queuedAhead
    (h : CoherentInv s)
    {sector count : Nat}
    (hclient : s.client = .opening sector count)
    {r : Request Job}
    (hr : r = ⟨512 * count, true, .ahead (u32 (sector + count))⟩)
    {pos rest len : Nat}
    (hpc : s.cmd.pc = .data r pos rest)
    (hlen : len ≤ rest)
    (hqueue : c.queue = s.cmd.queue ++ [⟨s.cmd.tag, .data pos len, r.what⟩])
    (hpc' : c.pc = nextData r (pos + len) (rest - len)) :
    CoherentInv { s with cmd := c } := by
  have hrest : pos + rest = r.dataLen := h.whole r pos rest hpc
  have hrest' : pos + len + (rest - len) = r.dataLen := by
    omega
  have hlba : s.aheadLba = u32 (sector + count) := by
    unfold RaSystem.aheadLba
    rw [hclient]
  have haccepted : s.accepted = pos := by
    unfold RaSystem.accepted
    rw [hclient, hpc]
    rfl
  have haccepted' : RaSystem.accepted { s with cmd := c } = pos + len := by
    rw [← nextData_sent hrest', ← hpc']
    unfold RaSystem.accepted
    simp only [hclient]
    have hbusy : c.pc ≠ .idle := by
      rw [hpc']
      exact (nextData_busy r _ _).1
    split
    · exact absurd ‹_› hbusy
    · rfl
  have hwhat : r.what = .ahead (u32 (sector + count)) := by
    rw [hr]
  refine ⟨?_, ?_, ?_, h.small, h.copies⟩
  · intro p a hplace
    unfold RaSystem.Holds
    simp only [hqueue, incoming_append, hwhat, source_ahead]
    by_cases hin : pos ≤ p ∧ p < pos + len
    · have hnew : 512 * u32 (sector + count) + p = a := by
        unfold RaSystem.described at hplace
        rw [haccepted', if_pos hin.2] at hplace
        simp only [RaSystem.aheadLba, hclient] at hplace
        exact Option.some.inj hplace
      rw [if_pos hin, hnew]
      exact Or.inl rfl
    · have hold : s.described p = some a := by
        rw [← hplace]
        unfold RaSystem.described
        rw [haccepted, haccepted']
        by_cases hp : p < pos
        · have hp' : p < pos + len := by
            omega
          rw [if_pos hp, if_pos hp']
          rfl
        · have hp' : ¬ p < pos + len := by
            omega
          rw [if_neg hp, if_neg hp']
      rw [if_neg hin]
      exact h.holds p a hold
  · exact commanding_nextData hclient hr hpc'
  · intro r' pos' rest' hdata
    simp only [hpc'] at hdata
    exact nextData_whole hrest' r' pos' rest' hdata

/-- Outside `opening` no accepted transfer reads ahead. -/
theorem CoherentInv.acceptedOther
    (h : CoherentInv s)
    (hclient : ∀ sector count, s.client ≠ .opening sector count)
    {t : Transfer Job} {r : Request Job}
    (hr : s.cmd.pc.request = some r)
    (hwhat : t.what = r.what)
    (hqueue : c.queue = s.cmd.queue ++ [t])
    (hrequest : ∀ r', c.pc.request = some r' → r' = r)
    (hwhole : ∀ r pos rest, c.pc = .data r pos rest → pos + rest = r.dataLen) :
    CoherentInv { s with cmd := c } := by
  have hjob : ∀ lba, r.what ≠ .ahead lba := by
    have hcommanding := h.commanding
    unfold Commanding at hcommanding
    split at hcommanding
    · exact absurd ‹_› (hclient _ _)
    · exact hcommanding r hr
  apply h.queued hqueue
  · apply source_of_job
    rw [hwhat]
    exact hjob
  · rw [accepted_of_client hclient]
    exact accepted_of_client hclient
  · unfold Commanding
    split
    · exact absurd ‹_› (hclient _ _)
    · intro r' hr'
      rw [hrequest r' hr']
      exact hjob
  · exact hwhole

/-- An accepted submission of a read-ahead. -/
theorem CoherentInv.acceptedAhead
    (h : CoherentInv s)
    {sector count : Nat}
    (hclient : s.client = .opening sector count)
    (hstep : submit true s.cmd = some c) :
    CoherentInv { s with cmd := c } := by
  have hcommanding := h.commanding
  unfold Commanding at hcommanding
  rw [hclient] at hcommanding
  obtain ⟨-, hrequest⟩ := hcommanding
  cases hpc : s.cmd.pc with
  | idle => simp [submit, hpc] at hstep
  | waiting => simp [submit, hpc] at hstep
  | cbw r =>
      have hr := hrequest r (by rw [hpc]; rfl)
      simp only [submit, hpc, submitPart_accepted, Option.some.injEq] at hstep
      have hpc' : c.pc = nextData r 0 r.dataLen := by
        rw [← hstep]
        rfl
      have hsent : c.pc.sent = 0 := by
        rw [hpc']
        exact nextData_sent (Nat.zero_add _)
      have hqueue :
          c.queue = s.cmd.queue ++ [⟨s.cmd.tag, .cbw, r.what⟩] := by
        rw [← hstep]
        rfl
      apply h.queued hqueue
      · apply source_of_part
        simp
      · have hbusy : c.pc ≠ .idle := by
          rw [hpc']
          exact (nextData_busy r _ _).1
        unfold RaSystem.accepted
        simp only [hclient, hpc]
        exact hsent
      · exact commanding_nextData hclient hr hpc'
      · rw [hpc']
        exact nextData_whole (Nat.zero_add _)
  | data r pos rest =>
      have hr := hrequest r (by rw [hpc]; rfl)
      simp only [submit, hpc, submitPart_accepted, Option.some.injEq] at hstep
      have hlen : (if rest < maxSize then rest else maxSize) ≤ rest := by
        split_ifs
        · exact le_rfl
        · omega
      apply h.queuedAhead hclient hr hpc hlen
      · rw [← hstep]
        rfl
      · rw [← hstep]
        rfl
  | csw r =>
      have hr := hrequest r (by rw [hpc]; rfl)
      have hcb : r.hasCb = true := by
        rw [hr]
      have hlen : r.dataLen = 512 * count := by
        rw [hr]
      simp only [submit, hpc, submitPart_accepted, hcb, Bool.and_self, if_true,
        Option.some.injEq] at hstep
      have hpc' : c.pc = .idle := by
        rw [← hstep]
        rfl
      have hreturned : c.current.returned = some true := by
        rw [← hstep, return_current]
      have hqueue :
          c.queue = s.cmd.queue ++ [⟨s.cmd.tag, .csw, r.what⟩] := by
        rw [← hstep]
        rfl
      apply h.queued hqueue
      · apply source_of_part
        simp
      · unfold RaSystem.accepted
        simp only [hclient, hpc, hpc', hreturned, if_true, Pc.sent]
        exact hlen.symm
      · unfold Commanding
        simp only [hclient, hpc']
        constructor
        · simp
        · intro r' hr'
          cases hr'
      · intro r' pos rest hdata
        rw [hpc'] at hdata
        cases hdata

/-- An accepted submission keeps the invariant. -/
theorem CoherentInv.accepted
    (h : CoherentInv s)
    (hstep : submit true s.cmd = some c) :
    CoherentInv { s with cmd := c } := by
  by_cases hopening : ∃ sector count, s.client = .opening sector count
  · obtain ⟨sector, count, hclient⟩ := hopening
    exact h.acceptedAhead hclient hstep
  have hclient : ∀ sector count, s.client ≠ .opening sector count := by
    intro sector count hc
    exact hopening ⟨sector, count, hc⟩
  cases hpc : s.cmd.pc with
  | idle => simp [submit, hpc] at hstep
  | waiting => simp [submit, hpc] at hstep
  | cbw r =>
      simp only [submit, hpc, submitPart_accepted, Option.some.injEq] at hstep
      subst hstep
      refine h.acceptedOther hclient (r := r) (by rw [hpc]; rfl) rfl rfl ?_ ?_
      · intro r' hr'
        have hsame : (nextData r 0 r.dataLen).request = some r' := hr'
        rw [nextData_request, Option.some.injEq] at hsame
        exact hsame.symm
      · exact nextData_whole (Nat.zero_add _)
  | data r pos rest =>
      have hrest := h.whole r pos rest hpc
      simp only [submit, hpc, submitPart_accepted, Option.some.injEq] at hstep
      subst hstep
      refine h.acceptedOther hclient (r := r) (by rw [hpc]; rfl) rfl rfl ?_ ?_
      · intro r' hr'
        have hsame :
            (nextData r (pos + if rest < maxSize then rest else maxSize)
              (rest - if rest < maxSize then rest else maxSize)).request =
              some r' :=
          hr'
        rw [nextData_request, Option.some.injEq] at hsame
        exact hsame.symm
      · apply nextData_whole
        split_ifs
        · omega
        · omega
  | csw r =>
      simp only [submit, hpc, submitPart_accepted, Bool.true_and,
        Option.some.injEq] at hstep
      have hdone : c.pc.request = none := by
        rw [← hstep]
        split_ifs
        · rfl
        · rfl
      have hqueue : c.queue = s.cmd.queue ++ [⟨s.cmd.tag, .csw, r.what⟩] := by
        rw [← hstep]
        split_ifs
        · rfl
        · rfl
      refine h.acceptedOther hclient (r := r) (by rw [hpc]; rfl) rfl hqueue ?_ ?_
      · intro r' hr'
        rw [hdone] at hr'
        cases hr'
      · intro r' pos rest hdata
        rw [hdata] at hdone
        cases hdone

end Submission

section Runs

variable {s s' : RaSystem} {vmc : Bool}

/-- The arguments of a call, as far as the steps behind it rely on them. -/
def CallInv (s : RaSystem) : Prop :=
  match s.client with
  | .entered sector count => sector + count < 4294967296 ∧ count < 65536
  | .fetch sector count => sector + count < 4294967296 ∧ count < 65536
  | .reading sector count => sector + count < 4294967296 ∧ count < 65536
  | .detect sector count => sector + count < 4294967296 ∧ count < 65536
  | .opening sector count => sector + count < 4294967296 ∧ count < 65536
  | _ => True

/-- Every step keeps the arguments of the call. -/
theorem CallInv.next
    (h : CallInv s)
    {a : RaAct}
    (hstep : raStep vmc s a = some s') :
    CallInv s' := by
  unfold CallInv at h
  cases a with
  | read sector count =>
      simp only [raStep] at hstep
      split at hstep
      · split_ifs at hstep with hok
        cases hstep
        exact ⟨hok.1, hok.2.1⟩
      · cases hstep
  | write lba count bytes =>
      simp only [raStep] at hstep
      split at hstep
      · split_ifs at hstep
        cases hstep
        trivial
      · cases hstep
  | await =>
      simp only [raStep] at hstep
      split at hstep
      · rename_i hclient
        rw [hclient] at h
        split_ifs at hstep
        · cases hstep
          exact h
        · cases hstep
          exact h
      · cases hstep
  | fetch =>
      simp only [raStep] at hstep
      split at hstep
      · rename_i hclient
        rw [hclient] at h
        split_ifs at hstep
        · cases hstep
          exact h
        · cases hstep
          exact h
      · cases hstep
  | detect =>
      simp only [raStep] at hstep
      split at hstep
      · rename_i hclient
        rw [hclient] at h
        split_ifs at hstep
        · cases hstep
          exact h
        · cases hstep
          trivial
      · cases hstep
  | resume =>
      simp only [raStep] at hstep
      split at hstep
      · rename_i hclient _
        rw [hclient] at h
        split_ifs at hstep
        · cases hstep
          exact h
        · cases hstep
          trivial
      · cases hstep
        trivial
      · cases hstep
        trivial
      · cases hstep
  | submit accepted =>
      simp only [raStep, Option.map_eq_some_iff] at hstep
      obtain ⟨c, -, rfl⟩ := hstep
      exact h
  | wake =>
      simp only [raStep, Option.map_eq_some_iff] at hstep
      obtain ⟨c, -, rfl⟩ := hstep
      exact h
  | callback ok junk =>
      simp only [raStep] at hstep
      split at hstep
      · rename_i t rest hqueue
        cases hstep
        unfold CallInv
        simp only [transferred_client]
        exact h
      · cases hstep

/-- A step without a disturbance keeps the invariant. -/
theorem CoherentInv.next
    (h : CoherentInv s)
    (hcall : CallInv s)
    {a : RaAct}
    (hquiet : undisturbed s a)
    (hstep : raStep vmc s a = some s') :
    CoherentInv s' := by
  cases a with
  | read sector count =>
      simp only [raStep] at hstep
      split at hstep
      · rename_i hclient
        split_ifs at hstep
        cases hstep
        exact
            h.goOn (by simp [hclient]) _ (by simp) s.cmd rfl rfl _ rfl rfl rfl false
      · cases hstep
  | write lba count bytes =>
      simp only [raStep] at hstep
      split at hstep
      · rename_i hclient
        split_ifs at hstep
        cases hstep
        have hfree : CoherentInv { s with free := false } := by
          rw [show s.client = .idle from hclient]
          exact
            h.goOn (by simp [hclient]) _ (by simp) s.cmd rfl rfl _ rfl rfl rfl false
        apply hfree.sectorIo
        · apply accepted_of_client
          simp [hclient]
        · simp
        · simp
      · cases hstep
  | await =>
      simp only [raStep] at hstep
      split at hstep
      · rename_i sector count hclient
        split_ifs at hstep
        · cases hstep
          exact
            h.goOn (by simp [hclient]) (.fetch sector count) (by simp)
              { s.cmd with ioSem := false } rfl rfl
              { s.vars with raActive := false } rfl rfl rfl s.free
        · cases hstep
          exact
            h.goOn (by simp [hclient]) _ (by simp) s.cmd rfl rfl _ rfl rfl rfl s.free
      · cases hstep
  | fetch =>
      simp only [raStep] at hstep
      split at hstep
      · rename_i sector count hclient
        unfold CallInv at hcall
        rw [hclient] at hcall
        split_ifs at hstep with hhit
        · cases hstep
          simp only [undisturbed, hclient] at hquiet
          exact h.consume hclient hcall.1 hhit (hquiet hhit)
        · cases hstep
          apply h.sectorIo
          · apply accepted_of_client
            simp [hclient]
          · simp
          · simp
      · cases hstep
  | detect =>
      simp only [raStep] at hstep
      split at hstep
      · rename_i sector count hclient
        split_ifs at hstep
        · cases hstep
          exact h.openAhead hclient
        · cases hstep
          exact
            h.goOn (by simp [hclient]) .idle (by simp) s.cmd rfl rfl
              (s.vars.noted sector count) rfl rfl rfl true
      · cases hstep
  | resume =>
      simp only [raStep] at hstep
      split at hstep
      · rename_i sector count hclient hpc
        split_ifs at hstep
        · cases hstep
          exact
            h.goOn (by simp [hclient]) _ (by simp) s.cmd rfl rfl _ rfl rfl rfl s.free
        · cases hstep
          exact
            h.goOn (by simp [hclient]) _ (by simp) s.cmd rfl rfl _ rfl rfl rfl s.free
      · rename_i sector count hclient hpc
        unfold CallInv at hcall
        rw [hclient] at hcall
        cases hstep
        exact h.opened hclient hpc hcall.2 rfl
      · rename_i hclient hpc
        cases hstep
        exact
            h.goOn (by simp [hclient]) _ (by simp) s.cmd rfl rfl _ rfl rfl rfl true
      · cases hstep
  | submit accepted =>
      simp only [raStep, Option.map_eq_some_iff] at hstep
      obtain ⟨c, hsubmit, rfl⟩ := hstep
      cases accepted with
      | true => exact h.accepted hsubmit
      | false => exact h.refused hquiet hsubmit
  | wake =>
      simp only [raStep, Option.map_eq_some_iff] at hstep
      obtain ⟨c, hwake, rfl⟩ := hstep
      exact h.woken hwake
  | callback ok junk =>
      simp only [raStep] at hstep
      split at hstep
      · rename_i t rest hqueue
        cases hstep
        exact h.callback hqueue hquiet
      · cases hstep

/-- In a run without a disturbance every copy out of `ra_buffer` is what the disk
holds at that moment. -/
theorem massStorReadSector_fresh_of_undisturbed
    (vmc : Bool) (raBuffer disk : Nat → UInt8)
    {s : RaSystem}
    (hreach :
      GuardedReach (raStep vmc) undisturbed (RaSystem.initial raBuffer disk) s) :
    ∀ c ∈ s.copies, c.Fresh := by
  have hinv : CoherentInv s ∧ CallInv s := by
    refine
      hreach.invariant (I := fun s => CoherentInv s ∧ CallInv s)
        ⟨coherentInv_initial raBuffer disk, trivial⟩ ?_
    rintro u a u' ⟨hinv, hcall⟩ hquiet hstep
    exact ⟨hinv.next hcall hquiet hstep, hcall.next hstep⟩
  exact hinv.1.copies

/-- The steps of a command with one data transfer, each called back with success
behind the last submission. -/
def plainTransfers : List RaAct :=
  [.submit true, .submit true, .submit true, .callback true 0, .callback true 0,
    .callback true 0]

/-- A call that reads a sector from the disk. -/
def missedRead (sector : Nat) : List RaAct :=
  [.read sector 1, .await, .fetch] ++ plainTransfers ++ [.wake, .resume, .detect]

/-- Two calls in sequence, the second of which starts a read-ahead. -/
def readAheadStart : List RaAct :=
  missedRead 0 ++ missedRead 1

/-- A disk whose sectors hold their own numbers. -/
def numbered : Nat → UInt8 := fun a => UInt8.ofNat (a / 512)

/-- The read-ahead is used, and a write to another sector comes between. -/
def undisturbedRun : List RaAct :=
  readAheadStart ++ plainTransfers ++ [.resume, .write 7 1 0] ++ plainTransfers ++
    [.wake, .resume, .read 2 1, .await, .fetch]

theorem massStorReadSector_fresh_of_undisturbed_write :
    ∃ s, GuardedReach (raStep true) undisturbed (RaSystem.initial 0 numbered) s ∧
      s.copies.length = 1 ∧ ∀ c ∈ s.copies, c.Fresh := by
  have hrun :
      ((runGuarded (raStep true) undisturbed (RaSystem.initial 0 numbered)
        undisturbedRun).map (fun s => s.copies.length)) = some 1 := by
    decide +kernel
  rw [Option.map_eq_some_iff] at hrun
  obtain ⟨s, hs, hone⟩ := hrun
  have hreach := guardedReach_of_runGuarded undisturbedRun hs
  exact
    ⟨s, hreach, hone,
      massStorReadSector_fresh_of_undisturbed true 0 numbered hreach⟩

/-- The use of the window for `count` sectors. -/
def windowRead (sector count : Nat) : List RaAct :=
  [.read sector count, .await, .fetch]

/-- The length of the last copy of a run, its first byte and that of its place on
the disk. -/
def lastCopy (acts : List RaAct) : Option (Nat × UInt8 × UInt8) :=
  (runActs (raStep true) (RaSystem.initial 0 numbered) acts).bind
    (fun s =>
      s.copies.getLast?.map
        (fun c => (c.count, c.bytes 0, c.disk (512 * c.sector))))

/-- In this run a copy differs from the disk. -/
def StaleRun (acts : List RaAct) : Prop :=
  ∃ s, runActs (raStep true) (RaSystem.initial 0 numbered) acts = some s ∧
    ∃ c ∈ s.copies, ¬ c.Fresh

/-- A run whose last copy begins with another byte than the disk has there. -/
theorem exists_stale_of_lastCopy
    {acts : List RaAct} {n : Nat} {b b' : UInt8}
    (h : lastCopy acts = some (n + 1, b, b'))
    (hne : b ≠ b') :
    StaleRun acts := by
  unfold lastCopy at h
  obtain ⟨s, hs, hlast⟩ := Option.bind_eq_some_iff.mp h
  obtain ⟨c, hc, hbytes⟩ := Option.map_eq_some_iff.mp hlast
  refine ⟨s, hs, c, List.mem_of_getLast? hc, ?_⟩
  intro hfresh
  rw [Prod.mk.injEq, Prod.mk.injEq] at hbytes
  obtain ⟨hcount, hfirst, hplace⟩ := hbytes
  have hsame := hfresh 0 (by omega)
  rw [Nat.add_zero, hfirst, hplace] at hsame
  exact hne hsame

/-- A write to the sector of the window. -/
def overwrittenRun : List RaAct :=
  readAheadStart ++ plainTransfers ++ [.resume, .write 2 1 (fun _ => 9)] ++
    plainTransfers ++ [.wake, .resume] ++ windowRead 2 1

/-- A read-ahead whose data transfer fails. -/
def failedRun : List RaAct :=
  readAheadStart ++
    [.submit true, .submit true, .submit true, .resume, .callback true 0,
      .callback false 0, .callback true 0] ++ windowRead 2 1

/-- A read-ahead that is refused when its data transfer was accepted. -/
def refusedRun : List RaAct :=
  readAheadStart ++ plainTransfers ++ [.resume, .read 2 2, .await, .fetch] ++
    plainTransfers ++
    [.wake, .resume, .detect, .submit true, .submit true, .submit false, .resume,
      .callback true 0, .callback true 0] ++ windowRead 2 1

/-- A read-ahead whose CBW is called back before its data are submitted. -/
def earlyRun : List RaAct :=
  readAheadStart ++
    [.submit true, .callback true 0, .submit true, .submit true, .resume] ++
    windowRead 2 1

/-- A write to the window, a failed read-ahead, one that was refused half-way and
one that was taken for complete each leave a window that describes other data. -/
theorem massStorReadSector_stale :
    StaleRun overwrittenRun ∧ StaleRun failedRun ∧ StaleRun refusedRun ∧
      StaleRun earlyRun := by
  have hoverwritten : lastCopy overwrittenRun = some (1, 2, 9) := by
    decide +kernel
  have hfailed : lastCopy failedRun = some (1, 0, 2) := by
    decide +kernel
  have hrefused : lastCopy refusedRun = some (1, 4, 2) := by
    decide +kernel
  have hearly : lastCopy earlyRun = some (1, 0, 2) := by
    decide +kernel
  exact
    ⟨exists_stale_of_lastCopy hoverwritten (by decide),
      exists_stale_of_lastCopy hfailed (by decide),
      exists_stale_of_lastCopy hrefused (by decide),
      exists_stale_of_lastCopy hearly (by decide)⟩

end Runs

end Usb
end Ps2Cdvd
