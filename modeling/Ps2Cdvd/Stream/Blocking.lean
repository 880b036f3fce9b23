import Ps2Cdvd.Lib.Run
import Ps2Cdvd.Stream.System

/-!
# Blocking `sceCdStRead`

A blocking `sceCdStRead` waits for bit 8 of `intr_ef` before every attempt to
copy sectors, and clears the bit itself.  The bit is set by the reading thread
after it has cleared `sync_flag` and before it runs `StmCallback`, which counts
the bank and asks for the next one.  Here these are separate steps, and so are
the steps of the client's loop.

A client is `Stranded` when it waits for the bit and nothing is left that could
set it.  The chain of fills stops when the buffer has no room for a bank, and the
loop does not restart it; so whether a client can be stranded depends on how many
sectors it asks for.

* `stRead_stranded`: a client stranded with one bank of one sector;
* `notStranded_of_fits`: no client is stranded when blocking calls ask for at
  most `StBufmax - StBanksize + 1` sectors (`StBanksize` less for an EE buffer)
  of at least two banks, and resumes are clean.
-/

namespace Ps2Cdvd
namespace Blocking

open Ps2Cdvd.Lib Ps2Cdvd.Stream

universe u

section Source

/-- Where the reading thread is: waiting for a request or reading, before
`SetEventFlag(9)`, before the test of `Stm0Callback`. -/
inductive ThreadPc
  | idle
  | setting
  | callback
deriving DecidableEq

/-- The variables of `sceCdStRead`. -/
structure ReadLoop where
  sectors : Nat
  ee : Bool
  blocking : Bool
  sectorsToRead : Int
  result : Nat
deriving DecidableEq

/-- Where the client is: outside; in `sceCdSync` of `sceCdStStop` or
`sceCdStPause`; before the critical section of `sceCdStStart`; before
`StStartFillStreamBuffer`; in the loop of `sceCdStRead`, before `WaitEventFlag`,
before `ClearEventFlag`, before the first or the second critical section of the
copy. -/
inductive ClientPc
  | outside
  | syncing (restart : Option Nat)
  | starting (lsn : Nat)
  | filling
  | waiting (r : ReadLoop)
  | clearing (r : ReadLoop)
  | reading (r : ReadLoop)
  | committing (r : ReadLoop) (v : Snapshot)
deriving DecidableEq

/-- The system with bit 8 of `intr_ef`, the reading thread, the other threads
that are about to set the bit after a `cdvdman_SyncRead`, and the client. -/
structure State (β : Type u) where
  sys : System β
  bit8 : Bool
  thread : ThreadPc
  setters : Nat
  client : ClientPc

variable {β : Type u}

/-- After the module has been loaded. -/
def initial (β : Type u) : State β where
  sys := System.loaded β
  bit8 := false
  thread := .idle
  setters := 0
  client := .outside

/-- The calls that the client makes. -/
inductive Op
  | stInit (bufmax bankmax : Nat)
  | stStart (lsn : Nat)
  | stStop
  | stPause
  | stResume
  | stSeek (lsn : Nat)
  | stRead (ee blocking : Bool) (sectors : Nat)
deriving DecidableEq

/-- A call of the client, its next step inside a call, the steps of the reading
thread, the alarm, and the reads of other threads. -/
inductive Act
  | call (op : Op)
  | client
  | readEnd (ok : Bool)
  | setEvent
  | callback
  | alarm
  | foreignRead (async : Bool)
  | foreignEnd
  | foreignSet
deriving DecidableEq

/-- The system and the position of the client change. -/
def State.move (s : State β) (sys : System β) (pc : ClientPc) : State β :=
  { s with sys := sys, client := pc }

/-- `result < sectors`. -/
def ReadLoop.next (r : ReadLoop) : ClientPc :=
  if r.result < r.sectors then .waiting r else .filling

/-- The end of the loop body, after `n` sectors. -/
def ReadLoop.after (r : ReadLoop) (n : Nat) : ClientPc :=
  if r.blocking then
    ReadLoop.next
      { r with
        sectorsToRead := r.sectorsToRead - n
        result := r.result + n }
  else .filling

/-- `sceCdStStop`, before it goes on with `restart`. -/
def stopStep (restart : Option Nat) (s : State β) : State β :=
  s.move
    { s.sys with
      data := stStop s.sys.data
      stm0Callback := false
      alarm := false }
    (.syncing restart)

/-- The first step of a call. -/
def callStep (s : State β) : Op → State β
  | .stInit bufmax bankmax => s.move (sceCdStInit bufmax bankmax s.sys) .outside
  | .stStart lsn =>
      if s.sys.data.stat then stopStep (some lsn) s
      else s.move s.sys (.starting lsn)
  | .stSeek lsn =>
      if s.sys.data.stat then stopStep (some lsn) s else s
  | .stStop => if s.sys.data.stat then stopStep none s else s
  | .stPause =>
      if s.sys.data.stat then
        s.move { s.sys with stm0Callback := false, alarm := false }
          (.syncing none)
      else s
  | .stResume =>
      if s.sys.data.stat then
        s.move { s.sys with stm0Callback := true } .filling
      else s
  | .stRead ee blocking sectors =>
      if s.sys.data.stat then
        { s with
          bit8 := true
          client :=
            ReadLoop.next ⟨sectors, ee, blocking, s32 sectors, 0⟩ }
      else s

/-- The next step inside a call. -/
def clientStep (s : State β) : Option (State β) :=
  match s.client with
  | .outside => none
  | .syncing restart =>
      if s.sys.pending.isSome then none
      else
        match restart with
        | some lsn => some (s.move s.sys (.starting lsn))
        | none => some (s.move s.sys .outside)
  | .starting lsn =>
      some
        (s.move
          { s.sys with data := stStart lsn s.sys.data, stm0Callback := true }
          .filling)
  | .filling => some (s.move (stStartFillStreamBuffer s.sys) .outside)
  | .waiting r => if s.bit8 then some { s with client := .clearing r } else none
  | .clearing r => some { s with bit8 := false, client := .reading r }
  | .reading r =>
      if r.ee then
        if (readSectorsEE s.sys.data r.sectorsToRead).transfers ≠ [] then
          some
            { s with
              client :=
                .committing r (readSectorsEE s.sys.data r.sectorsToRead) }
        else some { s with client := r.after 0 }
      else
        some
          (s.move
            { s.sys with data := (readSectors s.sys.data r.sectorsToRead).data }
            (r.after (readSectors s.sys.data r.sectorsToRead).result))
  | .committing r v =>
      some
        (s.move { s.sys with data := commit v s.sys.data } (r.after v.result))

/-- One step. -/
def step (drive : Drive β) (s : State β) : Act → Option (State β)
  | .call op =>
      match s.client with
      | .outside => some (callStep s op)
      | _ => none
  | .client => clientStep s
  | .readEnd ok =>
      if s.thread = .idle ∧ callbackComes s.sys = true then
        match syncWait drive ok s.sys with
        | some sys => some { s with sys := sys, thread := .setting }
        | none => none
      else none
  | .setEvent =>
      if s.thread = .setting then
        some { s with bit8 := true, thread := .callback }
      else none
  | .callback =>
      if s.thread = .callback then
        some
          { s with
            sys := if s.sys.stm0Callback then runStmCallback s.sys else s.sys
            thread := .idle }
      else none
  | .alarm =>
      if s.sys.alarm then some { s with sys := stmScheduleCb s.sys } else none
  | .foreignRead async => some { s with sys := Stream.foreignRead async s.sys }
  | .foreignEnd =>
      if s.sys.pending = some (.foreign false) then
        some
          { s with
            sys := { s.sys with pending := none }
            setters := s.setters + 1 }
      else none
  | .foreignSet =>
      if 0 < s.setters then
        some { s with bit8 := true, setters := s.setters - 1 }
      else none

end Source

section Purpose

variable {β : Type u}

/-- The stream is started and not paused. -/
def Unpaused (s : State β) : Prop :=
  s.sys.data.stat = true ∧ s.sys.stm0Callback = true

/-- The client waits for bit 8 with sectors still to read, and nothing is left
that could set the bit. -/
def Stranded (s : State β) : Prop :=
  (∃ r, s.client = .waiting r ∧ r.result < r.sectors) ∧
    s.bit8 = false ∧ s.sys.pending = none ∧ s.sys.alarm = false ∧
    s.thread = .idle

/-- The intended use of the operations: valid sizes, before the first start. -/
def UsedAsIntended (s : State β) : Act → Prop
  | .call (.stInit bufmax bankmax) =>
      s.sys.data.stat = false ∧ 0 < bankmax ∧ bankmax ≤ bufmax ∧ bufmax < 65536
  | .call (.stStart _) => 0 < s.sys.data.banksize
  | .call (.stSeek _) => 0 < s.sys.data.banksize
  | _ => True

/-- What a blocking call may ask for: nothing; or at least two banks exist and
whenever the chain of fills has stopped there are enough sectors. -/
def Fits (d : StreamingData) (ee : Bool) (sectors : Nat) : Prop :=
  sectors = 0 ∨
    (2 * d.banksize ≤ d.bufmax ∧
      if ee then sectors + 2 * d.banksize ≤ d.bufmax + 1
      else sectors + d.banksize ≤ d.bufmax + 1)

/-- Resumes with a mark that something will clear, counts that are positive as
`int`, and blocking calls that fit. -/
def CallsFit (s : State β) : Act → Prop
  | .call .stResume =>
      s.sys.data.stat = true → s.sys.data.isReading = true →
        callbackComes s.sys = true ∨ s.thread ≠ .idle
  | .call (.stRead ee blocking sectors) =>
      s.sys.data.stat = true →
        sectors < 2147483648 ∧
          (blocking = true → s.sys.stm0Callback = true →
            Fits s.sys.data ee sectors)
  | _ => True

/-- The guard of the runs. -/
def FittingUse (s : State β) (a : Act) : Prop :=
  UsedAsIntended s a ∧ CallsFit s a

instance (d : StreamingData) (ee : Bool) (n : Nat) : Decidable (Fits d ee n) :=
  inferInstanceAs
    (Decidable
      (n = 0 ∨
        (2 * d.banksize ≤ d.bufmax ∧
          if ee then n + 2 * d.banksize ≤ d.bufmax + 1
          else n + d.banksize ≤ d.bufmax + 1)))

instance (s : State β) : DecidablePred (UsedAsIntended s)
  | .call (.stInit _ _) => inferInstanceAs (Decidable (_ ∧ _ ∧ _ ∧ _))
  | .call (.stStart _) => inferInstanceAs (Decidable (0 < _))
  | .call (.stSeek _) => inferInstanceAs (Decidable (0 < _))
  | .call .stStop => isTrue trivial
  | .call .stPause => isTrue trivial
  | .call .stResume => isTrue trivial
  | .call (.stRead _ _ _) => isTrue trivial
  | .client => isTrue trivial
  | .readEnd _ => isTrue trivial
  | .setEvent => isTrue trivial
  | .callback => isTrue trivial
  | .alarm => isTrue trivial
  | .foreignRead _ => isTrue trivial
  | .foreignEnd => isTrue trivial
  | .foreignSet => isTrue trivial

instance (s : State β) : DecidablePred (CallsFit s)
  | .call .stResume => inferInstanceAs (Decidable (_ → _ → _ ∨ ¬ _))
  | .call (.stRead _ _ _) =>
      inferInstanceAs (Decidable (_ → _ ∧ (_ → _ → Fits _ _ _)))
  | .call (.stInit _ _) => isTrue trivial
  | .call (.stStart _) => isTrue trivial
  | .call (.stSeek _) => isTrue trivial
  | .call .stStop => isTrue trivial
  | .call .stPause => isTrue trivial
  | .client => isTrue trivial
  | .readEnd _ => isTrue trivial
  | .setEvent => isTrue trivial
  | .callback => isTrue trivial
  | .alarm => isTrue trivial
  | .foreignRead _ => isTrue trivial
  | .foreignEnd => isTrue trivial
  | .foreignSet => isTrue trivial

instance (s : State β) (a : Act) : Decidable (FittingUse s a) :=
  inferInstanceAs (Decidable (_ ∧ _))

end Purpose

section Invariant

variable {β : Type u} {drive : Drive β}

/-- Something is left that will ask for the next bank: a read that the reading
thread ends, that thread on its way to the callback, or the alarm. -/
def Alive (s : State β) : Prop :=
  callbackComes s.sys = true ∨ s.thread ≠ .idle ∨ s.sys.alarm = true

/-- The chain of fills goes on as long as there is room for a bank. -/
def Chain (s : State β) : Prop :=
  hasRoom s.sys.data = true → Alive s

/-- A mark of `StIsReading` will be cleared by the reading thread. -/
def MarkClears (s : State β) : Prop :=
  s.sys.data.isReading = true →
    callbackComes s.sys = true ∨ s.thread ≠ .idle

/-- Sectors that may still be counted without the bit being set again. -/
def credit (s : State β) : Nat :=
  if s.thread = .callback then s.sys.data.banksize else 0

/-- Sectors that the loop has still to read. -/
def ReadLoop.rest (r : ReadLoop) : Nat := r.sectors - r.result

/-- The two counters of the loop agree. -/
structure LoopVars (r : ReadLoop) : Prop where
  more : r.result < r.sectors
  count : r.sectorsToRead = (r.rest : Int)

/-- `Fits` for a call that is in its loop. -/
structure LoopFits (d : StreamingData) (r : ReadLoop) : Prop where
  banks : 2 * d.banksize ≤ d.bufmax
  iop : r.sectors + d.banksize ≤ d.bufmax + 1
  ee : r.ee = true → r.sectors + 2 * d.banksize ≤ d.bufmax + 1

/-- What the position of the client says of the counters. -/
def ClientOk (s : State β) : Prop :=
  match s.client with
  | .syncing (some _) => 0 < s.sys.data.banksize
  | .starting _ => 0 < s.sys.data.banksize
  | .waiting r => s.sys.data.stat = true ∧ LoopVars r
  | .clearing r => s.sys.data.stat = true ∧ LoopVars r
  | .reading r => s.sys.data.stat = true ∧ LoopVars r
  | .committing r v =>
      s.sys.data.stat = true ∧ LoopVars r ∧ r.ee = true ∧
        CopiesFirst s.sys.data v.result v ∧
        v.result ≤ s.sys.data.streamed ∧ v.result ≤ r.rest
  | _ => True

/-- A blocking client that has used up the sectors but `base` of them: while the
bit is clear at most one more bank can be counted and the chain is alive; once
it is set the chain goes on or there are enough sectors. -/
structure Awaits (s : State β) (r : ReadLoop) (base : Nat) : Prop where
  clear :
    s.bit8 = false →
      s.sys.data.streamed + credit s ≤ base + s.sys.data.banksize ∧ Alive s
  set : s.bit8 = true → Chain s ∨ r.rest ≤ s.sys.data.streamed

/-- What the position of the client says of the chain of fills. -/
def ChainOk (s : State β) : Prop :=
  match s.client with
  | .filling => True
  | .waiting r =>
      (r.blocking = false → s.bit8 = true) ∧
        (r.blocking = true → LoopFits s.sys.data r ∧ Awaits s r 0)
  | .clearing r =>
      r.blocking = true →
        LoopFits s.sys.data r ∧ (Chain s ∨ r.rest ≤ s.sys.data.streamed)
  | .reading r =>
      r.blocking = true →
        LoopFits s.sys.data r ∧ (Chain s ∨ r.rest ≤ s.sys.data.streamed)
  | .committing r v =>
      r.blocking = true → v.result < r.rest →
        LoopFits s.sys.data r ∧ Awaits s r v.result
  | _ => Chain s

/-- The invariant. -/
structure Inv (s : State β) : Prop where
  sizes : 0 < s.sys.data.banksize → Geometry s.sys.data
  counters : s.sys.data.stat = true → RingOk s.sys.data
  client : ClientOk s
  mark : Unpaused s → MarkClears s
  chain : Unpaused s → ChainOk s

/-- A step of the system behind the client's back. -/
structure Background (s t : State β) : Prop where
  client : t.client = s.client
  banksize : t.sys.data.banksize = s.sys.data.banksize
  bufmax : t.sys.data.bufmax = s.sys.data.bufmax
  stat : t.sys.data.stat = s.sys.data.stat
  stm0Callback : t.sys.stm0Callback = s.sys.stm0Callback
  counters : RingOk s.sys.data → RingOk t.sys.data ∧ Grows s.sys t.sys
  bit8 :
    t.bit8 = false →
      s.bit8 = false ∧
        (RingOk s.sys.data →
          t.sys.data.streamed + credit t ≤ s.sys.data.streamed + credit s)
  mark : Unpaused s → MarkClears s → MarkClears t
  chain : Unpaused s → MarkClears s → Chain s → Chain t

end Invariant

section BehindTheClient

variable {β : Type u} {drive : Drive β} {s t : State β}

theorem Alive.chain
    (h : Alive s) :
    Chain s := fun _ => h

theorem credit_le (s : State β) : credit s ≤ s.sys.data.banksize := by
  unfold credit
  split_ifs
  · exact le_rfl
  · exact Nat.zero_le _

/-- A copy in progress survives when sectors are added behind it. -/
theorem copiesFirst_of_grows
    {k : Nat} {v : Snapshot}
    (h : CopiesFirst s.sys.data k v)
    (hgrow : Grows s.sys t.sys) :
    CopiesFirst t.sys.data k v := by
  refine ⟨h.result, ?_, ?_, h.beyond, h.some_transfer⟩
  · rw [hgrow.bufmax, hgrow.readPtr]
    exact h.rdptr
  · rw [hgrow.bufmax, hgrow.readPtr]
    exact h.slots

theorem LoopFits.transfer
    {d d' : StreamingData} {r : ReadLoop}
    (h : LoopFits d r)
    (hbank : d'.banksize = d.banksize)
    (hbuf : d'.bufmax = d.bufmax) :
    LoopFits d' r := by
  obtain ⟨hbanks, hiop, hee⟩ := h
  constructor
  · rw [hbank, hbuf]
    exact hbanks
  · rw [hbank, hbuf]
    exact hiop
  · rw [hbank, hbuf]
    exact hee

theorem Geometry.transfer
    {d d' : StreamingData}
    (h : Geometry d)
    (hbank : d'.banksize = d.banksize)
    (hbuf : d'.bufmax = d.bufmax) :
    Geometry d' := by
  obtain ⟨hpos, hbanks, hsmall⟩ := h
  constructor
  · rw [hbank]
    exact hpos
  · rw [hbank, hbuf]
    exact hbanks
  · rw [hbuf]
    exact hsmall

theorem Background.unpaused
    (h : Background s t)
    (hup : Unpaused t) :
    Unpaused s :=
  ⟨h.stat.symm.trans hup.1, h.stm0Callback.symm.trans hup.2⟩

/-- Once the bit is set, or still is, there is a bank to come or enough sectors
are there. -/
theorem goesOn_of_background
    {r : ReadLoop}
    (hb : Background s t)
    (hup : Unpaused s)
    (hmark : MarkClears s)
    (hring : RingOk s.sys.data)
    (h : Chain s ∨ r.rest ≤ s.sys.data.streamed) :
    Chain t ∨ r.rest ≤ t.sys.data.streamed := by
  rcases h with hchain | henough
  · exact Or.inl (hb.chain hup hmark hchain)
  · exact Or.inr (le_trans henough (hb.counters hring).2.streamed)

/-- Behind a client that has at most `base` sectors left there is room for two
banks, so that the chain keeps on. -/
theorem Awaits.background
    {r : ReadLoop} {base : Nat}
    (h : Awaits s r base)
    (hb : Background s t)
    (hup : Unpaused s)
    (hmark : MarkClears s)
    (hring : RingOk s.sys.data)
    (hroom : base + 2 * s.sys.data.banksize ≤ s.sys.data.bufmax) :
    Awaits t r base := by
  constructor
  · intro hclear
    obtain ⟨hwas, hcount⟩ := hb.bit8 hclear
    obtain ⟨hle, halive⟩ := h.clear hwas
    have hsum := hcount hring
    have hbank := hb.banksize
    have hbuf := hb.bufmax
    refine ⟨by omega, ?_⟩
    apply hb.chain hup hmark halive.chain
    rw [hasRoom_iff]
    omega
  · intro hset
    cases hwas : s.bit8 with
    | false =>
        exact Or.inl (hb.chain hup hmark (h.clear hwas).2.chain)
    | true => exact goesOn_of_background hb hup hmark hring (h.set hwas)

/-- Steps behind the client's back keep what holds of its counters. -/
theorem ClientOk.background
    (h : ClientOk s)
    (hb : Background s t)
    (hring : s.sys.data.stat = true → RingOk s.sys.data) :
    ClientOk t := by
  unfold ClientOk at h ⊢
  rw [hb.client, hb.stat, hb.banksize]
  cases hclient : s.client with
  | outside => trivial
  | filling => trivial
  | syncing restart =>
      rw [hclient] at h
      cases restart with
      | none => trivial
      | some lsn => exact h
  | starting lsn =>
      rw [hclient] at h
      exact h
  | waiting r =>
      rw [hclient] at h
      exact h
  | clearing r =>
      rw [hclient] at h
      exact h
  | reading r =>
      rw [hclient] at h
      exact h
  | committing r v =>
      rw [hclient] at h
      obtain ⟨hstat, hvars, hee, hv, hle, hrest⟩ := h
      have hgrow := (hb.counters (hring hstat)).2
      exact ⟨hstat, hvars, hee, copiesFirst_of_grows hv hgrow,
        le_trans hle hgrow.streamed, hrest⟩

/-- Steps behind the client's back keep what holds of the chain of fills. -/
theorem ChainOk.background
    (h : ChainOk s)
    (hclientOk : ClientOk s)
    (hb : Background s t)
    (hup : Unpaused s)
    (hmark : MarkClears s)
    (hring : RingOk s.sys.data) :
    ChainOk t := by
  have hchain : Chain s → Chain t := hb.chain hup hmark
  unfold ChainOk at h ⊢
  unfold ClientOk at hclientOk
  rw [hb.client]
  cases hclient : s.client with
  | outside =>
      rw [hclient] at h
      exact hchain h
  | filling => trivial
  | syncing restart =>
      rw [hclient] at h
      exact hchain h
  | starting lsn =>
      rw [hclient] at h
      exact hchain h
  | waiting r =>
      rw [hclient] at h
      obtain ⟨honce, hblocking⟩ := h
      constructor
      · intro hmode
        cases hclear : t.bit8 with
        | false =>
            have hwas := (hb.bit8 hclear).1
            rw [honce hmode] at hwas
            cases hwas
        | true => rfl
      · intro hmode
        obtain ⟨hfits, hawaits⟩ := hblocking hmode
        refine ⟨hfits.transfer hb.banksize hb.bufmax, ?_⟩
        apply hawaits.background hb hup hmark hring
        rw [Nat.zero_add]
        exact hfits.banks
  | clearing r =>
      rw [hclient] at h
      intro hmode
      obtain ⟨hfits, hgoes⟩ := h hmode
      exact ⟨hfits.transfer hb.banksize hb.bufmax,
        goesOn_of_background hb hup hmark hring hgoes⟩
  | reading r =>
      rw [hclient] at h
      intro hmode
      obtain ⟨hfits, hgoes⟩ := h hmode
      exact ⟨hfits.transfer hb.banksize hb.bufmax,
        goesOn_of_background hb hup hmark hring hgoes⟩
  | committing r v =>
      rw [hclient] at h hclientOk
      obtain ⟨-, hvars, hee, -, -, -⟩ := hclientOk
      intro hmode hless
      obtain ⟨hfits, hawaits⟩ := h hmode hless
      refine ⟨hfits.transfer hb.banksize hb.bufmax, ?_⟩
      apply hawaits.background hb hup hmark hring
      have hbound := hfits.ee hee
      have hrest : r.rest ≤ r.sectors := Nat.sub_le _ _
      omega

theorem Inv.background
    (h : Inv s)
    (hb : Background s t) :
    Inv t := by
  constructor
  · intro hpos
    rw [hb.banksize] at hpos
    exact Geometry.transfer (h.sizes hpos) hb.banksize hb.bufmax
  · intro hstat
    rw [hb.stat] at hstat
    exact (hb.counters (h.counters hstat)).1
  · exact h.client.background hb h.counters
  · intro hup
    have hwas := hb.unpaused hup
    exact hb.mark hwas (h.mark hwas)
  · intro hup
    have hwas := hb.unpaused hup
    exact (h.chain hwas).background h.client hb hwas (h.mark hwas)
      (h.counters hwas.1)

end BehindTheClient

section SystemSteps

variable {β : Type u} {drive : Drive β} {s t : State β}

/-- A fill changes none of the sizes. -/
theorem fill_sizes (u : System β) :
    (stStartFillStreamBuffer u).data.banksize = u.data.banksize ∧
      (stStartFillStreamBuffer u).data.bufmax = u.data.bufmax ∧
      (stStartFillStreamBuffer u).data.streamed = u.data.streamed := by
  rcases stStartFillStreamBuffer_cases u with
    ⟨-, heq⟩ | ⟨-, -, heq⟩ | ⟨-, -, -, heq⟩ | ⟨-, -, -, heq⟩
  · rw [heq]
    exact ⟨rfl, rfl, rfl⟩
  · rw [heq]
    exact ⟨rfl, rfl, rfl⟩
  · rw [heq]
    exact ⟨rfl, rfl, rfl⟩
  · rw [heq]
    exact ⟨rfl, rfl, rfl⟩

theorem ringOk_fill
    {u : System β}
    (h : RingOk u.data) :
    RingOk (stStartFillStreamBuffer u).data := by
  rcases stStartFillStreamBuffer_cases u with
    ⟨-, heq⟩ | ⟨-, -, heq⟩ | ⟨-, -, -, heq⟩ | ⟨-, hroom, -, heq⟩
  · rw [heq]
    exact h
  · rw [heq]
    exact h
  · rw [heq]
    exact h
  · rw [heq]
    exact h.setReading (hasRoom_iff.mp hroom) true

/-- A fill keeps the chain: it finds a bank on its way, or no room, or is
accepted, or sets the alarm. -/
theorem chain_fill
    {u : System β}
    (hmark :
      u.data.isReading = true → callbackComes u = true ∨ s.thread ≠ .idle)
    (hsys : s.sys = stStartFillStreamBuffer u) :
    Chain s ∧ MarkClears s := by
  unfold Chain MarkClears Alive
  rw [hsys]
  rcases stStartFillStreamBuffer_cases u with
    ⟨hreading, heq⟩ | ⟨hreading, hroom, heq⟩ | ⟨hreading, -, -, heq⟩ |
      ⟨-, -, -, heq⟩
  · rw [heq]
    refine ⟨fun _ => ?_, hmark⟩
    rcases hmark hreading with hcomes | hthread
    · exact Or.inl hcomes
    · exact Or.inr (Or.inl hthread)
  · rw [heq]
    refine ⟨fun htrue => ?_, hmark⟩
    have hfalse : hasRoom u.data = true := htrue
    rw [hroom] at hfalse
    cases hfalse
  · rw [heq]
    exact ⟨fun _ => Or.inr (Or.inr rfl), hmark⟩
  · rw [heq]
    exact ⟨fun _ => Or.inl rfl, fun _ => Or.inl rfl⟩

/-- A step that leaves the counters and the bit. -/
theorem background_of_sameData
    (hclient : t.client = s.client)
    (hdata : t.sys.data = s.sys.data)
    (hset : t.sys.stm0Callback = s.sys.stm0Callback)
    (hbit : t.bit8 = false → s.bit8 = false ∧ credit t ≤ credit s)
    (hmark : MarkClears s → MarkClears t)
    (hchain : Chain s → Chain t) :
    Background s t := by
  refine ⟨hclient, by rw [hdata], by rw [hdata], by rw [hdata], hset, ?_, ?_,
    fun _ => hmark, fun _ _ => hchain⟩
  · intro hring
    refine ⟨by rwa [hdata], ?_, ?_, ?_⟩
    · rw [hdata]
    · rw [hdata]
    · rw [hdata]
  · intro hclear
    obtain ⟨hwas, hcredit⟩ := hbit hclear
    refine ⟨hwas, fun _ => ?_⟩
    rw [hdata]
    omega

/-- The reading thread ends a read. -/
theorem background_readEnd
    {sys : System β} {ok : Bool}
    (hsys : syncWait drive ok s.sys = some sys) :
    Background s { s with sys := sys, thread := .setting } := by
  obtain ⟨hdata, hset⟩ := syncWait_frame hsys
  have hbusy : ThreadPc.setting ≠ .idle := by
    intro h
    cases h
  refine background_of_sameData rfl hdata hset ?_ ?_ ?_
  · intro hclear
    refine ⟨hclear, ?_⟩
    simp [credit]
  · intro _ _
    exact Or.inr hbusy
  · intro _ _
    exact Or.inr (Or.inl hbusy)

/-- The reading thread sets the bit. -/
theorem background_setEvent :
    Background s { s with bit8 := true, thread := .callback } := by
  have hbusy : ThreadPc.callback ≠ .idle := by
    intro h
    cases h
  refine background_of_sameData rfl rfl rfl ?_ ?_ ?_
  · intro hclear
    cases hclear
  · intro _ _
    exact Or.inr hbusy
  · intro _ _
    exact Or.inr (Or.inl hbusy)

/-- The counters after `StmCallback` has looked at the mark. -/
theorem stmCallback_sizes (d : StreamingData) :
    (stmCallback d).banksize = d.banksize ∧
      (stmCallback d).bufmax = d.bufmax := by
  unfold stmCallback
  split_ifs
  · exact ⟨rfl, rfl⟩
  · exact ⟨rfl, rfl⟩

theorem streamed_stmCallback
    {d : StreamingData}
    (h : RingOk d) :
    (stmCallback d).streamed ≤ d.streamed + d.banksize := by
  unfold stmCallback
  split_ifs with hreading
  · rw [h.accountBank_eq hreading]
  · exact Nat.le_add_right _ _

/-- The reading thread runs `StmCallback`, or finds no callback set. -/
theorem background_callback
    (hthread : s.thread = .callback) :
    Background s
      { s with
        sys := if s.sys.stm0Callback then runStmCallback s.sys else s.sys
        thread := .idle } := by
  have hcreditBefore : credit s = s.sys.data.banksize := by
    simp [credit, hthread]
  split_ifs with hset
  · obtain ⟨hbank, hbuf⟩ := stmCallback_sizes s.sys.data
    obtain ⟨hstat, hreading⟩ := stat_stmCallback s.sys.data
    obtain ⟨hfillBank, hfillBuf, hfillStreamed⟩ :=
      fill_sizes { s.sys with data := stmCallback s.sys.data }
    obtain ⟨hfillStat, hfillSet⟩ :=
      fill_frame { s.sys with data := stmCallback s.sys.data }
    have hfill :
        Chain { s with sys := runStmCallback s.sys, thread := .idle } ∧
          MarkClears { s with sys := runStmCallback s.sys, thread := .idle } := by
      apply chain_fill (u := { s.sys with data := stmCallback s.sys.data })
      · intro htrue
        rw [show _ = false from hreading] at htrue
        cases htrue
      · rfl
    refine ⟨rfl, hfillBank.trans hbank, hfillBuf.trans hbuf,
      hfillStat.trans hstat, hfillSet, ?_, ?_, fun _ _ => hfill.2,
      fun _ _ _ => hfill.1⟩
    · intro hring
      exact ⟨ringOk_fill hring.stmCallback, grows_callback hring⟩
    · intro hclear
      refine ⟨hclear, fun hring => ?_⟩
      have hcredit :
          credit { s with sys := runStmCallback s.sys, thread := .idle } = 0 :=
        rfl
      have hstreamed :
          (runStmCallback s.sys).data.streamed ≤
            s.sys.data.streamed + s.sys.data.banksize := by
        unfold runStmCallback
        rw [hfillStreamed]
        exact streamed_stmCallback hring
      rw [hcredit, hcreditBefore]
      exact hstreamed
  · refine ⟨rfl, rfl, rfl, rfl, rfl, fun hring => ⟨hring, rfl, rfl, le_rfl⟩, ?_,
      ?_, ?_⟩
    · intro hclear
      refine ⟨hclear, fun _ => ?_⟩
      exact Nat.add_le_add_left (Nat.zero_le _) _
    · intro hup
      exact absurd hup.2 hset
    · intro hup
      exact absurd hup.2 hset

/-- The alarm rings. -/
theorem background_alarm :
    Background s { s with sys := stmScheduleCb s.sys } := by
  obtain ⟨hbank, hbuf, hstreamed⟩ := fill_sizes { s.sys with alarm := false }
  obtain ⟨hstat, hset⟩ := fill_frame { s.sys with alarm := false }
  have hfill :
      MarkClears s →
        Chain { s with sys := stmScheduleCb s.sys } ∧
          MarkClears { s with sys := stmScheduleCb s.sys } := by
    intro hmark
    exact chain_fill (u := { s.sys with alarm := false }) hmark rfl
  refine ⟨rfl, hbank, hbuf, hstat, hset, ?_, ?_, fun _ hmark => (hfill hmark).2,
    fun _ hmark _ => (hfill hmark).1⟩
  · intro hring
    have hgrow := grows_fill { s.sys with alarm := false }
    exact ⟨ringOk_fill hring, hgrow.bufmax, hgrow.readPtr, hgrow.streamed⟩
  · intro hclear
    refine ⟨hclear, fun _ => ?_⟩
    have hcredit : credit { s with sys := stmScheduleCb s.sys } = credit s := by
      unfold credit
      rw [show (stmScheduleCb s.sys).data.banksize = _ from hbank]
    have hsame :
        (stmScheduleCb s.sys).data.streamed = s.sys.data.streamed := hstreamed
    rw [hcredit]
    exact le_of_eq (congrArg (· + credit s) hsame)

/-- Another thread issues a read. -/
theorem background_foreignRead (async : Bool) :
    Background s { s with sys := Stream.foreignRead async s.sys } := by
  have hcomes :
      callbackComes s.sys = true →
        callbackComes (Stream.foreignRead async s.sys) = true := by
    intro h
    have hbusy := isSome_of_callbackComes h
    unfold Stream.foreignRead
    rw [if_pos hbusy]
    exact h
  have hframe :
      (Stream.foreignRead async s.sys).data = s.sys.data ∧
        (Stream.foreignRead async s.sys).stm0Callback = s.sys.stm0Callback ∧
        (Stream.foreignRead async s.sys).alarm = s.sys.alarm := by
    unfold Stream.foreignRead
    split_ifs
    · exact ⟨rfl, rfl, rfl⟩
    · exact ⟨rfl, rfl, rfl⟩
  obtain ⟨hdata, hset, halarm⟩ := hframe
  refine background_of_sameData rfl hdata hset ?_ ?_ ?_
  · intro hclear
    refine ⟨hclear, ?_⟩
    unfold credit
    rw [hdata]
  · intro hmark hreading
    rw [hdata] at hreading
    rcases hmark hreading with h | h
    · exact Or.inl (hcomes h)
    · exact Or.inr h
  · intro hchain hroom
    rw [hdata] at hroom
    rcases hchain hroom with h | h | h
    · exact Or.inl (hcomes h)
    · exact Or.inr (Or.inl h)
    · exact Or.inr (Or.inr (halarm.trans h))

/-- A thread that has read for itself clears `sync_flag`. -/
theorem background_foreignEnd
    (hp : s.sys.pending = some (.foreign false)) :
    Background s
      { s with
        sys := { s.sys with pending := none }
        setters := s.setters + 1 } := by
  have hnot : callbackComes s.sys = false := by
    simp [callbackComes, hp, Pending.byReadingThread]
  refine background_of_sameData rfl rfl rfl ?_ ?_ ?_
  · intro hclear
    exact ⟨hclear, le_rfl⟩
  · intro hmark hreading
    rcases hmark hreading with h | h
    · rw [hnot] at h
      cases h
    · exact Or.inr h
  · intro hchain hroom
    rcases hchain hroom with h | h | h
    · rw [hnot] at h
      cases h
    · exact Or.inr (Or.inl h)
    · exact Or.inr (Or.inr h)

/-- A thread that has read for itself sets the bit. -/
theorem background_foreignSet (n : Nat) :
    Background s { s with bit8 := true, setters := n } := by
  refine background_of_sameData rfl rfl rfl ?_ ?_ ?_
  · intro hclear
    cases hclear
  · exact fun hmark => hmark
  · exact fun hchain => hchain

/-- Every step other than one of the client is behind its back. -/
theorem background_of_step
    {a : Act}
    (hcall : ∀ op, a ≠ .call op)
    (hclient : a ≠ .client)
    (ht : step drive s a = some t) :
    Background s t := by
  cases a with
  | call op => exact absurd rfl (hcall op)
  | client => exact absurd rfl hclient
  | readEnd ok =>
      simp only [step] at ht
      split_ifs at ht
      split at ht
      · rename_i sys hsys
        cases ht
        exact background_readEnd hsys
      · cases ht
  | setEvent =>
      simp only [step] at ht
      split_ifs at ht
      cases ht
      exact background_setEvent
  | callback =>
      by_cases hthread : s.thread = .callback
      · simp only [step, if_pos hthread, Option.some.injEq] at ht
        subst ht
        exact background_callback hthread
      · simp only [step, if_neg hthread] at ht
        cases ht
  | alarm =>
      simp only [step] at ht
      split_ifs at ht
      cases ht
      exact background_alarm
  | foreignRead async =>
      cases ht
      exact background_foreignRead async
  | foreignEnd =>
      simp only [step] at ht
      split_ifs at ht with hp
      cases ht
      exact background_foreignEnd hp
  | foreignSet =>
      simp only [step] at ht
      split_ifs at ht
      cases ht
      exact background_foreignSet _

end SystemSteps

section ClientSteps

variable {β : Type u} {drive : Drive β} {s t : State β}

/-- A stopped stream. -/
theorem inv_stopped
    (hsizes : 0 < s.sys.data.banksize → Geometry s.sys.data)
    (hstat : s.sys.data.stat = false)
    (hclient : ClientOk s) :
    Inv s := by
  have hdown : ¬ Unpaused s := by
    intro hup
    have htrue := hup.1
    rw [hstat] at htrue
    cases htrue
  refine ⟨hsizes, ?_, hclient, fun hup => absurd hup hdown,
    fun hup => absurd hup hdown⟩
  intro htrue
  rw [hstat] at htrue
  cases htrue

/-- A started stream whose client has no copy to account for. -/
theorem inv_started
    (hring : RingOk s.sys.data)
    (hclient : ClientOk s)
    (hmark : Unpaused s → MarkClears s)
    (hchain : Unpaused s → ChainOk s) :
    Inv s :=
  ⟨fun _ => hring.toGeometry, fun _ => hring, hclient, hmark, hchain⟩

/-- The client about to fill the buffer. -/
theorem inv_filling
    (hring : RingOk s.sys.data)
    (hclient : s.client = .filling)
    (hmark : Unpaused s → MarkClears s) :
    Inv s := by
  refine inv_started hring ?_ hmark ?_
  · unfold ClientOk
    rw [hclient]
    trivial
  · intro _
    unfold ChainOk
    rw [hclient]
    trivial

/-- The client at the head of its loop. -/
theorem inv_next
    {r : ReadLoop}
    (hring : RingOk s.sys.data)
    (hstat : s.sys.data.stat = true)
    (hclient : s.client = r.next)
    (hmark : Unpaused s → MarkClears s)
    (hcount : r.result < r.sectors → r.sectorsToRead = (r.rest : Int))
    (honce : r.result < r.sectors → r.blocking = false → s.bit8 = true)
    (hawaits :
      Unpaused s → r.blocking = true → r.result < r.sectors →
        LoopFits s.sys.data r ∧ Awaits s r 0) :
    Inv s := by
  unfold ReadLoop.next at hclient
  split_ifs at hclient with hmore
  · refine inv_started hring ?_ hmark ?_
    · unfold ClientOk
      rw [hclient]
      exact ⟨hstat, hmore, hcount hmore⟩
    · intro hup
      unfold ChainOk
      rw [hclient]
      exact ⟨honce hmore, fun hmode => hawaits hup hmode hmore⟩
  · exact inv_filling hring hclient hmark

/-- The client after a copy of `n` sectors. -/
theorem inv_after
    {r : ReadLoop} {n : Nat}
    (hring : RingOk s.sys.data)
    (hstat : s.sys.data.stat = true)
    (hclient : s.client = r.after n)
    (hmark : Unpaused s → MarkClears s)
    (hvars : LoopVars r)
    (hn : n ≤ r.rest)
    (hawaits :
      Unpaused s → r.blocking = true → n < r.rest →
        LoopFits s.sys.data r ∧
          Awaits s { r with
            sectorsToRead := r.sectorsToRead - n
            result := r.result + n } 0) :
    Inv s := by
  have hmore := hvars.more
  have hcount := hvars.count
  unfold ReadLoop.rest at hn hcount hawaits
  unfold ReadLoop.after at hclient
  split_ifs at hclient with hmode
  · refine inv_next hring hstat hclient hmark ?_ ?_ ?_
    · intro hless
      dsimp only at hless
      simp only [ReadLoop.rest]
      omega
    · intro _ honce
      rw [show r.blocking = false from honce] at hmode
      cases hmode
    · intro hup _ hless
      dsimp only at hless
      obtain ⟨hfits, hwait⟩ := hawaits hup hmode (by omega)
      exact ⟨⟨hfits.banks, hfits.iop, hfits.ee⟩, hwait⟩
  · exact inv_filling hring hclient hmark

/-- The first step of a call. -/
theorem Inv.call
    {op : Op}
    (h : Inv s)
    (hclient : s.client = .outside)
    (huse : FittingUse s (.call op)) :
    Inv (callStep s op) := by
  obtain ⟨hintended, hfits⟩ := huse
  have hstop : ∀ restart : Option Nat,
      (∀ lsn, restart = some lsn → 0 < s.sys.data.banksize) →
      Inv (stopStep restart s) := by
    intro restart hbank
    refine inv_stopped ?_ rfl ?_
    · intro hpos
      exact Geometry.transfer (h.sizes hpos) rfl rfl
    · cases restart with
      | none => trivial
      | some lsn => exact hbank lsn rfl
  cases op with
  | stInit bufmax bankmax =>
      obtain ⟨hstat, hpos, hle, hsmall⟩ := hintended
      refine inv_stopped ?_ hstat trivial
      intro _
      exact geometry_stInit hpos hle hsmall s.sys.data
  | stStart lsn =>
      unfold callStep
      split_ifs with hstat
      · exact hstop _ (fun _ _ => hintended)
      · refine inv_stopped h.sizes ?_ hintended
        simpa [State.move] using hstat
  | stStop =>
      unfold callStep
      split_ifs
      · refine hstop none ?_
        intro lsn hnone
        cases hnone
      · exact h
  | stPause =>
      unfold callStep
      split_ifs with hstat
      · refine ⟨h.sizes, h.counters, trivial, ?_, ?_⟩
        · intro hup
          cases hup.2
        · intro hup
          cases hup.2
      · exact h
  | stResume =>
      unfold callStep
      split_ifs with hstat
      · refine inv_filling (h.counters hstat) rfl ?_
        intro _
        exact hfits hstat
      · exact h
  | stSeek lsn =>
      unfold callStep
      split_ifs
      · exact hstop _ (fun _ _ => hintended)
      · exact h
  | stRead ee blocking sectors =>
      unfold callStep
      split_ifs with hstat
      · obtain ⟨hsmall, hblocks⟩ := hfits hstat
        refine inv_next (h.counters hstat) hstat rfl h.mark ?_ ?_ ?_
        · intro _
          simp [s32, hsmall, ReadLoop.rest]
        · intro _ _
          rfl
        · intro hup hmode hmore
          have hchain := h.chain hup
          unfold ChainOk at hchain
          rw [hclient] at hchain
          constructor
          · rcases hblocks hmode hup.2 with hzero | ⟨hbanks, hroom⟩
            · subst hzero
              cases hmore
            · cases ee with
              | true =>
                  have hle : sectors + 2 * s.sys.data.banksize ≤
                      s.sys.data.bufmax + 1 := by
                    simpa using hroom
                  refine ⟨hbanks, ?_, fun _ => hle⟩
                  show sectors + s.sys.data.banksize ≤ s.sys.data.bufmax + 1
                  omega
              | false =>
                  have hle : sectors + s.sys.data.banksize ≤
                      s.sys.data.bufmax + 1 := by
                    simpa using hroom
                  refine ⟨hbanks, hle, ?_⟩
                  intro hfalse
                  cases hfalse
          · constructor
            · intro hclear
              cases hclear
            · intro _
              exact Or.inl hchain
      · exact h

/-- A client in its copy loop. -/
theorem Inv.reading
    {r : ReadLoop}
    (h : Inv s)
    (hclient : s.client = .reading r) :
    s.sys.data.stat = true ∧ LoopVars r ∧ RingOk s.sys.data ∧
      (Unpaused s → r.blocking = true →
        LoopFits s.sys.data r ∧ (Chain s ∨ r.rest ≤ s.sys.data.streamed)) := by
  have hok := h.client
  have hgoes := h.chain
  rw [ClientOk, hclient] at hok
  simp only [ChainOk, hclient] at hgoes
  obtain ⟨hstat, hvars⟩ := hok
  exact ⟨hstat, hvars, h.counters hstat, hgoes⟩

/-- With fewer sectors than are asked for, and room for a bank, the chain goes on. -/
theorem alive_of_few
    {r : ReadLoop}
    (hchain : Chain s ∨ r.rest ≤ s.sys.data.streamed)
    (hfew : s.sys.data.streamed < r.rest)
    (hroom : s.sys.data.streamed + s.sys.data.banksize ≤ s.sys.data.bufmax) :
    Alive s := by
  rcases hchain with hchain | henough
  · exact hchain (hasRoom_iff.mpr hroom)
  · omega

/-- The copy for an IOP buffer. -/
theorem Inv.copyIop
    {r : ReadLoop}
    (h : Inv s)
    (hclient : s.client = .reading r) :
    Inv
      (s.move
        { s.sys with data := (readSectors s.sys.data r.sectorsToRead).data }
        (r.after (readSectors s.sys.data r.sectorsToRead).result)) := by
  obtain ⟨hstat, hvars, hring, hgoes⟩ := h.reading hclient
  rw [hvars.count]
  obtain ⟨hdata, hresult, -⟩ := readSectors_spec hring r.rest
  rw [hresult, hdata]
  refine inv_after (hring.takeFront (min_le_right _ _)) hstat rfl h.mark hvars
    (min_le_left _ _) ?_
  intro hup hmode hless
  obtain ⟨hfits, hchain⟩ := hgoes hup hmode
  have hfew : s.sys.data.streamed < r.rest := by
    omega
  have hrest : r.rest ≤ r.sectors := Nat.sub_le _ _
  have hiop := hfits.iop
  have halive : Alive s := alive_of_few hchain hfew (by omega)
  refine ⟨⟨hfits.banks, hfits.iop, hfits.ee⟩, ?_, ?_⟩
  · intro _
    refine ⟨?_, halive⟩
    have hempty : s.sys.data.streamed - min r.rest s.sys.data.streamed = 0 := by
      omega
    have hcredit := credit_le s
    show s.sys.data.streamed - min r.rest s.sys.data.streamed + credit s ≤
      0 + s.sys.data.banksize
    omega
  · intro _
    exact Or.inl (fun _ => halive)

/-- The first critical section of the copy for an EE buffer. -/
theorem Inv.copyEE
    {r : ReadLoop}
    (h : Inv s)
    (hclient : s.client = .reading r)
    (hee : r.ee = true) :
    Inv
      { s with
        client :=
          .committing r (readSectorsEE s.sys.data r.sectorsToRead) } := by
  obtain ⟨hstat, hvars, hring, hgoes⟩ := h.reading hclient
  rw [hvars.count]
  have hv := readSectorsEE_spec hring r.rest
  have hresult := hv.result
  refine inv_started hring ?_ h.mark ?_
  · refine ⟨hstat, hvars, hee, ?_, ?_, ?_⟩
    · rw [hresult]
      exact hv
    · rw [hresult]
      exact min_le_right _ _
    · rw [hresult]
      exact min_le_left _ _
  · intro hup hmode hless
    rw [hresult] at hless ⊢
    obtain ⟨hfits, hchain⟩ := hgoes hup hmode
    have hfew : s.sys.data.streamed < r.rest := by
      omega
    have hrest : r.rest ≤ r.sectors := Nat.sub_le _ _
    have hbound := hfits.ee hee
    have halive : Alive s := alive_of_few hchain hfew (by omega)
    refine ⟨hfits, ?_, ?_⟩
    · intro _
      refine ⟨?_, halive⟩
      have hcredit := credit_le s
      show s.sys.data.streamed + credit s ≤
        min r.rest s.sys.data.streamed + s.sys.data.banksize
      omega
    · intro _
      exact Or.inl (fun _ => halive)

/-- No data to copy. -/
theorem Inv.copyNone
    {r : ReadLoop}
    (h : Inv s)
    (hclient : s.client = .reading r)
    (hcopy : (readSectorsEE s.sys.data r.sectorsToRead).transfers = []) :
    Inv { s with client := r.after 0 } := by
  obtain ⟨hstat, hvars, hring, hgoes⟩ := h.reading hclient
  rw [hvars.count] at hcopy
  have hzero := (readSectorsEE_spec hring r.rest).some_transfer hcopy
  refine inv_after hring hstat rfl h.mark hvars (Nat.zero_le _) ?_
  intro hup hmode hless
  obtain ⟨hfits, hchain⟩ := hgoes hup hmode
  have hempty : s.sys.data.streamed = 0 := by
    omega
  have hbank := hring.bank_le
  have halive : Alive s := alive_of_few hchain (by omega) (by omega)
  refine ⟨hfits, ?_, ?_⟩
  · intro _
    refine ⟨?_, halive⟩
    have hcredit := credit_le s
    show s.sys.data.streamed + credit s ≤ 0 + s.sys.data.banksize
    omega
  · intro _
    exact Or.inl (fun _ => halive)

/-- The second critical section of the copy for an EE buffer. -/
theorem Inv.commitEE
    {r : ReadLoop} {v : Snapshot}
    (h : Inv s)
    (hclient : s.client = .committing r v) :
    Inv
      (s.move { s.sys with data := commit v s.sys.data } (r.after v.result)) := by
  have hok := h.client
  have hgoes := h.chain
  unfold ClientOk at hok
  unfold ChainOk at hgoes
  rw [hclient] at hok hgoes
  obtain ⟨hstat, hvars, hee, hv, hle, hrest⟩ := hok
  have hring := h.counters hstat
  rw [hv.commit_eq hring hle]
  refine inv_after (hring.takeFront hle) hstat rfl h.mark hvars hrest ?_
  intro hup hmode hless
  obtain ⟨hfits, hclear, hset⟩ := hgoes hup hmode hless
  have hbound := hfits.ee hee
  have hsectors : r.rest ≤ r.sectors := Nat.sub_le _ _
  refine ⟨⟨hfits.banks, hfits.iop, hfits.ee⟩, ?_, ?_⟩
  · intro hbit
    obtain ⟨hcount, halive⟩ := hclear hbit
    refine ⟨?_, halive⟩
    show s.sys.data.streamed - v.result + credit s ≤ 0 + s.sys.data.banksize
    omega
  · intro hbit
    have henough :
        r.rest ≤ s.sys.data.streamed →
          r.sectors - (r.result + v.result) ≤ s.sys.data.streamed - v.result := by
      intro h
      unfold ReadLoop.rest at h
      omega
    by_cases hroom : hasRoom s.sys.data = true
    · rcases hset hbit with hchain | hmany
      · exact Or.inl (fun _ => hchain hroom)
      · exact Or.inr (henough hmany)
    · -- no room for a bank: more sectors than are asked for
      rw [hasRoom_iff] at hroom
      exact Or.inr (henough (by omega))

/-- A step of the client inside a call. -/
theorem Inv.clientStep
    (h : Inv s)
    (ht : clientStep s = some t) :
    Inv t := by
  have hok := h.client
  have hgoes := h.chain
  unfold ClientOk at hok
  unfold ChainOk at hgoes
  unfold Blocking.clientStep at ht
  cases hclient : s.client with
  | outside =>
      rw [hclient] at ht
      cases ht
  | syncing restart =>
      rw [hclient] at ht hok hgoes
      cases restart with
      | none =>
          dsimp only at ht
          split_ifs at ht
          cases ht
          exact ⟨h.sizes, h.counters, trivial, h.mark, hgoes⟩
      | some lsn =>
          dsimp only at ht
          split_ifs at ht
          cases ht
          exact ⟨h.sizes, h.counters, hok, h.mark, hgoes⟩
  | starting lsn =>
      rw [hclient] at ht hok
      cases ht
      have hgeo :
          Geometry { s.sys.data with lsn := lsn, stat := true } :=
        Geometry.transfer (h.sizes hok) rfl rfl
      refine inv_filling (ringOk_stReset hgeo) rfl ?_
      intro _ hfalse
      cases hfalse
  | filling =>
      rw [hclient] at ht
      cases ht
      obtain ⟨hbank, hbuf, -⟩ := fill_sizes s.sys
      obtain ⟨hstat, hset⟩ := fill_frame s.sys
      have hfill :
          Unpaused s →
            Chain (s.move (stStartFillStreamBuffer s.sys) .outside) ∧
              MarkClears (s.move (stStartFillStreamBuffer s.sys) .outside) := by
        intro hup
        exact chain_fill (u := s.sys) (h.mark hup) rfl
      have hwas :
          Unpaused (s.move (stStartFillStreamBuffer s.sys) .outside) →
            Unpaused s := by
        rintro ⟨hup, hup'⟩
        exact ⟨hstat.symm.trans hup, hset.symm.trans hup'⟩
      constructor
      · intro hpos
        exact Geometry.transfer (h.sizes (lt_of_lt_of_eq hpos hbank)) hbank hbuf
      · intro htrue
        exact ringOk_fill (h.counters (hstat.symm.trans htrue))
      · trivial
      · intro hup
        exact (hfill (hwas hup)).2
      · intro hup
        exact (hfill (hwas hup)).1
  | waiting r =>
      rw [hclient] at ht hok hgoes
      dsimp only at ht
      split_ifs at ht with hbit
      cases ht
      refine ⟨h.sizes, h.counters, hok, h.mark, ?_⟩
      intro hup hmode
      obtain ⟨hfits, hawaits⟩ := (hgoes hup).2 hmode
      exact ⟨hfits, hawaits.set hbit⟩
  | clearing r =>
      rw [hclient] at ht hok hgoes
      cases ht
      exact ⟨h.sizes, h.counters, hok, h.mark, hgoes⟩
  | reading r =>
      rw [hclient] at ht
      dsimp only at ht
      split_ifs at ht with hee hcopy
      · cases ht
        exact h.copyEE hclient hee
      · cases ht
        rw [ne_eq, not_not] at hcopy
        exact h.copyNone hclient hcopy
      · cases ht
        exact h.copyIop hclient
  | committing r v =>
      rw [hclient] at ht
      cases ht
      exact h.commitEE hclient

/-- Every step of a run that keeps to the guard keeps the invariant. -/
theorem Inv.next
    {a : Act}
    (h : Inv s)
    (huse : FittingUse s a)
    (ht : step drive s a = some t) :
    Inv t := by
  by_cases hcall : ∃ op, a = .call op
  · obtain ⟨op, rfl⟩ := hcall
    simp only [step] at ht
    cases hclient : s.client with
    | outside =>
        rw [hclient] at ht
        cases ht
        exact h.call hclient huse
    | syncing restart =>
        rw [hclient] at ht
        cases ht
    | starting lsn =>
        rw [hclient] at ht
        cases ht
    | filling =>
        rw [hclient] at ht
        cases ht
    | waiting r =>
        rw [hclient] at ht
        cases ht
    | clearing r =>
        rw [hclient] at ht
        cases ht
    | reading r =>
        rw [hclient] at ht
        cases ht
    | committing r v =>
        rw [hclient] at ht
        cases ht
  · rw [not_exists] at hcall
    by_cases hclient : a = .client
    · subst hclient
      exact h.clientStep ht
    · exact h.background (background_of_step hcall hclient ht)

/-- A client that the invariant describes is not stranded. -/
theorem Inv.notStranded
    (h : Inv s)
    (hup : Unpaused s) :
    ¬ Stranded s := by
  rintro ⟨⟨r, hclient, -⟩, hbit, hpending, halarm, hthread⟩
  have hchain := h.chain hup
  unfold ChainOk at hchain
  rw [hclient] at hchain
  obtain ⟨honce, hblocking⟩ := hchain
  have hmode : r.blocking = true := by
    by_contra hfalse
    rw [Bool.not_eq_true] at hfalse
    have hset := honce hfalse
    rw [hbit] at hset
    cases hset
  obtain ⟨-, hawaits⟩ := hblocking hmode
  rcases (hawaits.clear hbit).2 with hcomes | hbusy | hrings
  · simp [callbackComes, hpending] at hcomes
  · exact hbusy hthread
  · rw [halarm] at hrings
    cases hrings

/-- **A blocking `sceCdStRead` that fits the buffer is never stranded.**  In every
run in which resumes are clean and blocking calls on an unpaused stream ask for
no more than fits, no reachable unpaused state has a client waiting for a bit
that nothing is left to set. -/
theorem notStranded_of_fits
    (hs : GuardedReach (step drive) FittingUse (initial β) s)
    (hup : Unpaused s) :
    ¬ Stranded s := by
  have hinit : Inv (initial β) := by
    refine inv_stopped ?_ rfl trivial
    intro hpos
    cases hpos
  have h : Inv s := by
    refine hs.invariant hinit ?_
    intro u a u' hu huse ht
    exact hu.next huse ht
  exact h.notStranded hup

end ClientSteps

section Runs

/-- Two banks of two sectors; a call for three sectors that has two of them and
waits while the second bank is being read. -/
def threeOfFour : List Act :=
  [.call (.stInit 4 2), .call (.stStart 100), .client, .client, .readEnd true,
    .setEvent, .callback, .call (.stRead false true 3), .client, .client,
    .client]

theorem notStranded_of_fits_threeOfFour :
    ∃ s, runGuarded (step numberedDisc) FittingUse (initial Nat) threeOfFour =
        some s ∧
      s.client = .waiting ⟨3, false, true, 1, 2⟩ ∧ s.bit8 = false ∧
      s.sys.data.streamed = 0 ∧ ¬ Stranded s := by
  refine ⟨_, rfl, rfl, rfl, rfl, ?_⟩
  exact
    @notStranded_of_fits Nat numberedDisc _
      (guardedReach_of_runGuarded threeOfFour rfl) ⟨rfl, rfl⟩

/-- One bank of one sector, which a call for two sectors finds filled: after the
first sector nothing asks for the next bank. -/
theorem stRead_stranded :
    ∃ s, runGuarded (step numberedDisc) UsedAsIntended (initial Nat)
        [.call (.stInit 1 1), .call (.stStart 100), .client, .client,
          .readEnd true, .setEvent, .callback, .call (.stRead false true 2),
          .client, .client, .client] = some s ∧
      0 < s.sys.data.banksize ∧ s.sys.data.banksize ≤ s.sys.data.bufmax ∧
      Unpaused s ∧ Stranded s :=
  ⟨_, rfl, by decide, by decide, ⟨rfl, rfl⟩,
    ⟨⟨⟨2, false, true, 1, 1⟩, rfl, by decide⟩, rfl, rfl, rfl, rfl⟩⟩

end Runs

end Blocking
end Ps2Cdvd
