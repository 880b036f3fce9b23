import Ps2Cdvd.Stream.Blocking

/-!
# What `sceCdStRead` stores in `*error`

`cdvdman_stat.err` is one cell for the whole driver: `cdvdman_read_sectors` clears
it when it begins and writes `CDVD_ERR_READ` when a device read fails, and every
operation of `streaming.c` clears it when it is called.  `sceCdStRead` stores the
value that the cell has behind its loop; with no stream started it stores nothing.

The steps are those of the blocking model, with `cdvdman_read_sectors`, the store
and the RPC `cdvdSt_read` as steps of their own.  The calls of other threads write
the cell at any time.

* `ErrInv`: while a failed bank is to be handed out, or was by the call in
  progress, the cell holds an error;
* `sceCdStRead_reports_of_kept`: in such runs every call reports its failed banks
  and every reply has an error half.
-/

namespace Ps2Cdvd
namespace Errors

open Ps2Cdvd.Lib Ps2Cdvd.Stream
open Ps2Cdvd.Blocking (Op ReadLoop)

universe u

section Source

/-- `CDVD_ERR_NO` -/
def cdvdErrNo : Nat := 0x00

/-- `CDVD_ERR_READ` -/
def cdvdErrRead : Nat := 0x30

/-- A call of `sceCdStRead` between its start and its store: the sectors it has
read, and whether one of them is of a bank whose device read failed. -/
structure Call where
  got : Nat
  handed : Bool
deriving DecidableEq

/-- Where `cdvdSt_read` is: before a call of `sceCdStRead`, inside it, or behind
it. -/
inductive RpcPc
  | calling
  | inside
  | returned (r : Nat)
deriving DecidableEq

/-- The variables of `cdvdSt_read`; `err` is undefined until it is stored to. -/
structure Rpc where
  pc : RpcPc
  remaining : Int
  rpos : Nat
  err : Option Nat
deriving DecidableEq

/-- A call of `sceCdStRead` that has returned, with what it stored in `*error`. -/
structure Finished where
  handed : Bool
  error : Option Nat
deriving DecidableEq

/-- The streaming system with the error cell.  `failed` are the ring slots that
hold a sector of a bank whose device read failed and were not handed out; `device`
tells whether the reading thread is in `cdvdman_read_sectors`, and `served`
whether the calls of it for the read in flight have succeeded, once there was
one. -/
structure State (β : Type u) where
  base : Blocking.State β
  err : Nat
  failed : List Nat
  device : Bool
  served : Option Bool
  call : Option Call
  rpc : Option Rpc
  finished : List Finished
  replies : List (Option Nat)

variable {β : Type u}

def initial (β : Type u) : State β where
  base := Blocking.initial β
  err := cdvdErrNo
  failed := []
  device := false
  served := none
  call := none
  rpc := none
  finished := []
  replies := []

/-- The calls and steps of the client, `cdvdSt_read`, the calls of
`cdvdman_read_sectors` for the read in flight (several when its buffer is not
aligned), a write to the error cell by another call, and the other steps of the
blocking model. -/
inductive Act
  | call (op : Op)
  | client
  | store
  | rpc (sectors : Nat)
  | rpcCall
  | rpcNext
  | deviceBegin
  | deviceEnd (ok : Bool)
  | readEnd
  | other (err : Nat)
  | background (a : Blocking.Act)
deriving DecidableEq

/-- The transfers cover one of the slots. -/
def covers (transfers : List Transfer) (slot : Nat) : Bool :=
  transfers.any (fun t => decide (t.slot ≤ slot ∧ slot < t.slot + t.count))

/-- Sectors are copied to the caller of `sceCdStRead`. -/
def State.handOut (s : State β) (transfers : List Transfer) (n : Nat) : State β :=
  { s with
    failed := s.failed.filter (fun slot => !covers transfers slot)
    call :=
      s.call.map
        (fun c =>
          { got := c.got + n
            handed := c.handed || s.failed.any (covers transfers) }) }

/-- `sceCdStRead` when it is called. -/
def stReadCall (ee blocking : Bool) (sectors : Nat) (s : State β) : State β :=
  let s := { s with err := cdvdErrNo }
  if s.base.sys.data.stat then
    { s with
      base := Blocking.callStep s.base (.stRead ee blocking sectors)
      call := some ⟨0, false⟩ }
  -- `result = 0;`, and nothing is stored in `*error`
  else { s with finished := s.finished ++ [⟨false, none⟩] }

/-- The first step of a call. -/
def callStep (s : State β) : Op → State β
  | .stRead ee blocking sectors => stReadCall ee blocking sectors s
  | .stInit bufmax bankmax =>
      { s with
        base := Blocking.callStep s.base (.stInit bufmax bankmax)
        err := cdvdErrNo
        failed := [] }
  | op => { s with base := Blocking.callStep s.base op, err := cdvdErrNo }

/-- What a step of the client does besides the step of the blocking model. -/
def clientEffect (s : State β) : State β :=
  match s.base.client with
  -- `StReset` and `cdvdman_stat.err = CDVD_ERR_NO` of `sceCdStStart`
  | .starting _ => { s with err := cdvdErrNo, failed := [] }
  | .reading r =>
      if r.ee then
        s.handOut (readSectorsEE s.base.sys.data r.sectorsToRead).transfers 0
      else
        s.handOut (readSectors s.base.sys.data r.sectorsToRead).transfers
          (readSectors s.base.sys.data r.sectorsToRead).result
  | .committing _ v => s.handOut [] v.result
  | _ => s

/-- `*(int *)buf = (rpos & 0xFFFF) | (err << 16);` -/
def State.reply (s : State β) (v : Rpc) : State β :=
  { s with rpc := none, replies := s.replies ++ [v.err] }

/-- `*error = sceCdGetError();` -/
def store (c : Call) (s : State β) : State β :=
  { s with
    call := none
    rpc :=
      s.rpc.map
        (fun v => { v with pc := .returned c.got, err := some s.err })
    finished := s.finished ++ [⟨c.handed, some s.err⟩] }

/-- `DeviceReadSectors` has returned. -/
def deviceEnd (ok : Bool) (s : State β) : State β :=
  let s :=
    { s with device := false, served := some (s.served.getD true && ok) }
  if ok then s
  else
    { s with
      err := cdvdErrRead
      failed :=
        match s.base.sys.pending with
        | some (.bank req) => s.failed ++ List.range' req.slot req.sectors
        | _ => s.failed }

/-- One step. -/
def step (drive : Drive β) (s : State β) : Act → Option (State β)
  | .call op =>
      match s.base.client, s.rpc with
      | .outside, none => some (callStep s op)
      | _, _ => none
  | .client =>
      match s.base.client, s.call with
      -- the store comes first
      | .filling, some _ => none
      | _, _ =>
          (Blocking.clientStep s.base).map
            (fun base => { clientEffect s with base := base })
  | .store =>
      match s.base.client, s.call with
      | .filling, some c => some (store c s)
      | _, _ => none
  | .rpc sectors =>
      match s.base.client, s.rpc with
      | .outside, none =>
          if 0 < s32 sectors then
            some { s with rpc := some ⟨.calling, s32 sectors, 0, none⟩ }
          else some (s.reply ⟨.calling, s32 sectors, 0, none⟩)
      | _, _ => none
  | .rpcCall =>
      match s.base.client, s.rpc with
      | .outside, some ⟨.calling, remaining, rpos, err⟩ =>
          let s :=
            stReadCall true false remaining.toNat
              { s with rpc := some ⟨.inside, remaining, rpos, err⟩ }
          some
            (if s.base.sys.data.stat then s
            else { s with rpc := some ⟨.returned 0, remaining, rpos, err⟩ })
      | _, _ => none
  | .rpcNext =>
      match s.base.client, s.rpc with
      | .outside, some ⟨.returned r, remaining, rpos, err⟩ =>
          if r < 1 then some (s.reply ⟨.returned r, remaining, rpos, err⟩)
          else if 0 < remaining - r then
            some { s with rpc := some ⟨.calling, remaining - r, rpos + r, err⟩ }
          else some (s.reply ⟨.returned r, remaining - r, rpos + r, err⟩)
      | _, _ => none
  | .deviceBegin =>
      if s.base.thread = .idle ∧ callbackComes s.base.sys = true ∧
          s.device = false then
        some { s with err := cdvdErrNo, device := true }
      else none
  | .deviceEnd ok => if s.device then some (deviceEnd ok s) else none
  | .readEnd =>
      match s.served with
      | some ok =>
          if s.device then none
          else
            (Blocking.step drive s.base (.readEnd ok)).map
              (fun base => { s with base := base, served := none })
      | none => none
  | .other err => some { s with err := err }
  | .background a =>
      match a with
      | .call _ => none
      | .client => none
      | .readEnd _ => none
      | a => (Blocking.step drive s.base a).map (fun base => { s with base := base })

end Source

section Purpose

variable {β : Type u}

/-- A call that hands out a sector of a failed bank reports an error, and every
call stores something; so has every reply of `cdvdSt_read` an error half. -/
structure Reports (s : State β) : Prop where
  failed :
    ∀ c ∈ s.finished, c.handed = true → c.error ≠ some cdvdErrNo
  defined : ∀ c ∈ s.finished, c.error ≠ none
  reply : ∀ err ∈ s.replies, err ≠ none

/-- A sector of a failed bank is to be handed out, or was by the call in
progress. -/
def Dirty (s : State β) : Prop :=
  (s.base.sys.data.stat = true ∧ s.failed ≠ []) ∨
    ∃ c ∈ s.call, c.handed = true

/-- No step clears the error cell while it is needed, but for an operation that
drops the sectors; `sceCdStRead` is called while a stream is started, and
`cdvdSt_read` for at least one sector. -/
def errKept (s : State β) : Act → Prop
  | .call (.stRead _ _ _) => s.base.sys.data.stat = true ∧ ¬ Dirty s
  | .call .stPause => ¬ Dirty s
  | .call .stResume => ¬ Dirty s
  | .rpc sectors => 0 < s32 sectors
  | .rpcCall => s.base.sys.data.stat = true ∧ ¬ Dirty s
  | .deviceBegin => ¬ Dirty s
  | .other err => err = cdvdErrNo → ¬ Dirty s
  | _ => True

instance (s : State β) : Decidable (Dirty s) :=
  inferInstanceAs (Decidable (_ ∧ _ ∨ ∃ c ∈ s.call, c.handed = true))

instance (s : State β) : ∀ a, Decidable (errKept s a)
  | .call (.stRead _ _ _) => inferInstanceAs (Decidable (_ ∧ ¬ Dirty s))
  | .call .stPause => inferInstanceAs (Decidable (¬ Dirty s))
  | .call .stResume => inferInstanceAs (Decidable (¬ Dirty s))
  | .call (.stInit _ _) => isTrue trivial
  | .call (.stStart _) => isTrue trivial
  | .call .stStop => isTrue trivial
  | .call (.stSeek _) => isTrue trivial
  | .client => isTrue trivial
  | .store => isTrue trivial
  | .rpc _ => inferInstanceAs (Decidable (0 < _))
  | .rpcCall => inferInstanceAs (Decidable (_ ∧ ¬ Dirty s))
  | .rpcNext => isTrue trivial
  | .deviceBegin => inferInstanceAs (Decidable (¬ Dirty s))
  | .deviceEnd _ => isTrue trivial
  | .readEnd => isTrue trivial
  | .other _ => inferInstanceAs (Decidable (_ → ¬ Dirty s))
  | .background _ => isTrue trivial

end Purpose

section Invariant

variable {β : Type u} {drive : Drive β} {s s' : State β}

/-- The client is in `sceCdStRead` or before its last fill. -/
def InRead : Blocking.ClientPc → Prop
  | .waiting _ => True
  | .clearing _ => True
  | .reading _ => True
  | .committing _ _ => True
  | .filling => True
  | _ => False

/-- The invariant of runs that keep the cell. -/
structure ErrInv (s : State β) : Prop where
  dirty_err : Dirty s → s.err ≠ cdvdErrNo
  inside :
    ∀ c, s.call = some c →
      InRead s.base.client ∧ s.base.sys.data.stat = true
  returned :
    ∀ v r, s.rpc = some v → v.pc = .returned r → v.err ≠ none
  reports : Reports s

theorem errInv_initial : ErrInv (initial β) := by
  constructor
  · rintro (⟨hstat, -⟩ | ⟨c, hc, -⟩)
    · cases hstat
    · cases hc
  · intro c hc
    cases hc
  · intro v r hv
    cases hv
  · constructor
    · intro c hc
      cases hc
    · intro c hc
      cases hc
    · intro err herr
      cases herr

/-- No call is in progress outside `sceCdStRead`. -/
theorem ErrInv.noCall
    (h : ErrInv s)
    (hclient : ¬ InRead s.base.client) :
    s.call = none := by
  cases hcall : s.call with
  | none => rfl
  | some c => exact absurd (h.inside c hcall).1 hclient

theorem not_dirty
    (hcall : s.call = none)
    (hfailed : s.base.sys.data.stat = true → s.failed = []) :
    ¬ Dirty s := by
  rintro (⟨hstat, hne⟩ | ⟨c, hc, -⟩)
  · exact hne (hfailed hstat)
  · rw [hcall] at hc
    cases hc

/-- With nothing that needs the cell a started stream has no failed sectors. -/
theorem failed_of_clean
    (h : ¬ Dirty s)
    (hstat : s.base.sys.data.stat = true) :
    s.failed = [] := by
  by_contra hne
  exact h (Or.inl ⟨hstat, hne⟩)

/-- Steps that neither clear the cell nor touch the failed sectors. -/
theorem ErrInv.keep
    (h : ErrInv s)
    (hdirty : Dirty s' → Dirty s)
    (herr : s'.err = s.err)
    (hinside :
      ∀ c, s'.call = some c →
        InRead s'.base.client ∧ s'.base.sys.data.stat = true)
    (hrpc : s'.rpc = s.rpc)
    (hfinished : s'.finished = s.finished)
    (hreplies : s'.replies = s.replies) :
    ErrInv s' := by
  constructor
  · intro hd
    rw [herr]
    exact h.dirty_err (hdirty hd)
  · exact hinside
  · rw [hrpc]
    exact h.returned
  · obtain ⟨hfailed, hdefined, hreply⟩ := h.reports
    rw [← hfinished] at hfailed hdefined
    rw [← hreplies] at hreply
    exact ⟨hfailed, hdefined, hreply⟩

/-- Steps after which nothing needs the cell. -/
theorem ErrInv.clean
    (h : ErrInv s)
    (hdirty : ¬ Dirty s')
    (hinside :
      ∀ c, s'.call = some c →
        InRead s'.base.client ∧ s'.base.sys.data.stat = true)
    (hreturned :
      ∀ v r, s'.rpc = some v → v.pc = .returned r → v.err ≠ none)
    (hfinished : s'.finished = s.finished)
    (hreplies : s'.replies = s.replies) :
    ErrInv s' := by
  obtain ⟨hfailed, hdefined, hreply⟩ := h.reports
  rw [← hfinished] at hfailed hdefined
  rw [← hreplies] at hreply
  exact ⟨fun hd => absurd hd hdirty, hinside, hreturned, hfailed, hdefined, hreply⟩

/-- A start of `sceCdStRead` on a started stream. -/
theorem ErrInv.stReadCall
    (h : ErrInv s)
    (hstat : s.base.sys.data.stat = true)
    (hclean : ¬ Dirty s)
    (ee blocking : Bool) (sectors : Nat) :
    ErrInv (stReadCall ee blocking sectors s) := by
  have hout :
      Errors.stReadCall ee blocking sectors s =
        { s with
          err := cdvdErrNo
          base := Blocking.callStep s.base (.stRead ee blocking sectors)
          call := some ⟨0, false⟩ } := by
    unfold Errors.stReadCall
    simp only [hstat, if_true]
  have hbase :
      Blocking.callStep s.base (.stRead ee blocking sectors) =
        { s.base with
          bit8 := true
          client := ReadLoop.next ⟨sectors, ee, blocking, s32 sectors, 0⟩ } := by
    simp only [Blocking.callStep, hstat, if_true]
  rw [hout, hbase]
  refine h.clean ?_ ?_ h.returned rfl rfl
  · rintro (hfailed | ⟨c, hc, hhanded⟩)
    · exact hclean (Or.inl hfailed)
    · rw [← Option.some.inj hc] at hhanded
      cases hhanded
  · intro c hc
    refine ⟨?_, hstat⟩
    simp only [ReadLoop.next]
    split_ifs
    · trivial
    · trivial

/-- The operations that stop the stream. -/
theorem stopped_of_call
    (base : Blocking.State β) {op : Op}
    (hop : (∃ lsn, op = .stStart lsn ∨ op = .stSeek lsn) ∨ op = .stStop) :
    (Blocking.callStep base op).sys.data.stat = false := by
  rcases hop with ⟨lsn, rfl | rfl⟩ | rfl
  · simp only [Blocking.callStep]
    split_ifs with hstat
    · rfl
    · exact Bool.eq_false_iff.mpr hstat
  · simp only [Blocking.callStep]
    split_ifs with hstat
    · rfl
    · exact Bool.eq_false_iff.mpr hstat
  · simp only [Blocking.callStep]
    split_ifs with hstat
    · rfl
    · exact Bool.eq_false_iff.mpr hstat

/-- A call of the client. -/
theorem ErrInv.call
    (h : ErrInv s)
    {op : Op}
    (hclient : s.base.client = .outside)
    (hkept : errKept s (.call op)) :
    ErrInv (callStep s op) := by
  have hnone : s.call = none := by
    apply h.noCall
    rw [hclient]
    exact id
  have hcleared :
      ∀ (base : Blocking.State β) (failed : List Nat),
        (base.sys.data.stat = true → failed = []) →
        ErrInv { s with base := base, err := cdvdErrNo, failed := failed } := by
    intro base failed hfailed
    refine h.clean (not_dirty hnone hfailed) ?_ h.returned rfl rfl
    intro c hc
    rw [show s.call = some c from hc] at hnone
    cases hnone
  cases op with
  | stRead ee blocking sectors =>
      exact h.stReadCall hkept.1 hkept.2 ee blocking sectors
  | stInit bufmax bankmax => exact hcleared _ _ (fun _ => rfl)
  | stStart lsn =>
      apply hcleared
      intro hstat
      rw [stopped_of_call _ (Or.inl ⟨lsn, Or.inl rfl⟩)] at hstat
      cases hstat
  | stSeek lsn =>
      apply hcleared
      intro hstat
      rw [stopped_of_call _ (Or.inl ⟨lsn, Or.inr rfl⟩)] at hstat
      cases hstat
  | stStop =>
      apply hcleared
      intro hstat
      rw [stopped_of_call _ (Or.inr rfl)] at hstat
      cases hstat
  | stPause =>
      apply hcleared
      intro hstat
      apply failed_of_clean hkept
      simp only [Blocking.callStep] at hstat
      split_ifs at hstat
      · assumption
      · assumption
  | stResume =>
      apply hcleared
      intro hstat
      apply failed_of_clean hkept
      simp only [Blocking.callStep] at hstat
      split_ifs at hstat
      · assumption
      · assumption

theorem inRead_next (r : ReadLoop) : InRead r.next := by
  unfold ReadLoop.next
  split_ifs
  · trivial
  · trivial

theorem inRead_after (r : ReadLoop) (n : Nat) : InRead (r.after n) := by
  unfold ReadLoop.after
  split_ifs
  · exact inRead_next _
  · trivial

/-- A step inside `sceCdStRead` stays there. -/
theorem clientStep_inside
    {b b' : Blocking.State β}
    (hin : InRead b.client)
    (hfill : b.client ≠ .filling)
    (hstep : Blocking.clientStep b = some b') :
    InRead b'.client ∧ b'.sys.data.stat = b.sys.data.stat := by
  cases hclient : b.client with
  | outside =>
      rw [hclient] at hin
      exact hin.elim
  | syncing restart =>
      rw [hclient] at hin
      exact hin.elim
  | starting lsn =>
      rw [hclient] at hin
      exact hin.elim
  | filling => exact absurd hclient hfill
  | waiting r =>
      simp only [Blocking.clientStep, hclient] at hstep
      split_ifs at hstep
      cases hstep
      exact ⟨trivial, rfl⟩
  | clearing r =>
      simp only [Blocking.clientStep, hclient] at hstep
      cases hstep
      exact ⟨trivial, rfl⟩
  | reading r =>
      simp only [Blocking.clientStep, hclient] at hstep
      split_ifs at hstep
      · cases hstep
        exact ⟨trivial, rfl⟩
      · cases hstep
        exact ⟨inRead_after r 0, rfl⟩
      · cases hstep
        exact ⟨inRead_after r _, (readSectors_frame _ _).1⟩
  | committing r v =>
      simp only [Blocking.clientStep, hclient] at hstep
      cases hstep
      refine ⟨inRead_after r _, ?_⟩
      simp only [Blocking.State.move, commit]
      split_ifs
      · rfl
      · rfl

/-- A copy to the caller needs the cell only if it was needed before. -/
theorem dirty_handOut
    {transfers : List Transfer} {n : Nat} {base : Blocking.State β}
    (hstarted : ∀ c, s.call = some c → s.base.sys.data.stat = true)
    (hstat : base.sys.data.stat = s.base.sys.data.stat)
    (h : Dirty { s.handOut transfers n with base := base }) :
    Dirty s := by
  rcases h with ⟨hstarted', hne⟩ | ⟨c, hc, hhanded⟩
  · refine Or.inl ⟨?_, ?_⟩
    · rw [← hstat]
      exact hstarted'
    · intro hnil
      apply hne
      simp only [State.handOut, hnil, List.filter_nil]
  · simp only [State.handOut, Option.mem_def, Option.map_eq_some_iff] at hc
    obtain ⟨c', hc', rfl⟩ := hc
    rcases Bool.or_eq_true_iff.mp hhanded with hbefore | hnow
    · exact Or.inr ⟨c', hc', hbefore⟩
    · refine Or.inl ⟨hstarted c' hc', ?_⟩
      intro hnil
      rw [hnil] at hnow
      cases hnow

/-- A step of the client. -/
theorem ErrInv.client
    (h : ErrInv s)
    (hstep : step drive s .client = some s') :
    ErrInv s' := by
  have hready :
      ¬ (s.base.client = .filling ∧ s.call ≠ none) ∧
        (Blocking.clientStep s.base).map
          (fun base => { clientEffect s with base := base }) = some s' := by
    simp only [step] at hstep
    split at hstep
    · cases hstep
    · rename_i hnot
      refine ⟨?_, hstep⟩
      rintro ⟨hfill, hcall⟩
      obtain ⟨c, hc⟩ := Option.ne_none_iff_exists'.mp hcall
      exact hnot c hfill hc
  obtain ⟨hfilling, hmap⟩ := hready
  obtain ⟨base, hbase, rfl⟩ := Option.map_eq_some_iff.mp hmap
  have hstarted : ∀ c, s.call = some c → s.base.sys.data.stat = true := by
    intro c hc
    exact (h.inside c hc).2
  -- inside `sceCdStRead` the position and the start of the stream go on
  have hinside :
      ∀ c, s.call = some c →
        InRead base.client ∧ base.sys.data.stat = true := by
    intro c hc
    obtain ⟨hin, hstat⟩ := h.inside c hc
    have hfill : s.base.client ≠ .filling := by
      intro hfill
      apply hfilling
      rw [hc]
      exact ⟨hfill, by simp⟩
    obtain ⟨hin', hstat'⟩ := clientStep_inside hin hfill hbase
    exact ⟨hin', hstat'.trans hstat⟩
  have hcopy :
      ∀ (transfers : List Transfer) (n : Nat),
        base.sys.data.stat = s.base.sys.data.stat →
        ErrInv { s.handOut transfers n with base := base } := by
    intro transfers n hstat
    refine h.keep (dirty_handOut hstarted hstat) rfl ?_ rfl rfl rfl
    intro c hc
    simp only [State.handOut, Option.map_eq_some_iff] at hc
    obtain ⟨c', hc', -⟩ := hc
    exact hinside c' hc'
  have hquiet :
      (base.sys.data.stat = true → s.base.sys.data.stat = true) →
      ErrInv { s with base := base } := by
    intro hstat
    refine h.keep ?_ rfl hinside rfl rfl rfl
    rintro (⟨hstat', hne⟩ | hcall)
    · exact Or.inl ⟨hstat hstat', hne⟩
    · exact Or.inr hcall
  cases hclient : s.base.client with
  | outside =>
      rw [Blocking.clientStep, hclient] at hbase
      cases hbase
  | syncing restart =>
      simp only [clientEffect, hclient]
      apply hquiet
      simp only [Blocking.clientStep, hclient] at hbase
      split_ifs at hbase
      split at hbase
      · cases hbase
        exact id
      · cases hbase
        exact id
  | starting lsn =>
      simp only [clientEffect, hclient]
      have hnone : s.call = none := by
        apply h.noCall
        rw [hclient]
        exact id
      refine h.clean (not_dirty hnone (fun _ => rfl)) ?_ h.returned rfl rfl
      intro c hc
      rw [show s.call = some c from hc] at hnone
      cases hnone
  | filling =>
      simp only [clientEffect, hclient]
      apply hquiet
      simp only [Blocking.clientStep, hclient, Option.some.injEq] at hbase
      rw [← hbase]
      intro hstat
      rw [← (fill_frame s.base.sys).1]
      exact hstat
  | waiting r =>
      simp only [clientEffect, hclient]
      apply hquiet
      have hin : InRead s.base.client := by
        rw [hclient]
        trivial
      rw [(clientStep_inside hin (by simp [hclient]) hbase).2]
      exact id
  | clearing r =>
      simp only [clientEffect, hclient]
      apply hquiet
      have hin : InRead s.base.client := by
        rw [hclient]
        trivial
      rw [(clientStep_inside hin (by simp [hclient]) hbase).2]
      exact id
  | reading r =>
      simp only [clientEffect, hclient]
      have hin : InRead s.base.client := by
        rw [hclient]
        trivial
      have hstat := (clientStep_inside hin (by simp [hclient]) hbase).2
      split_ifs
      · exact hcopy _ _ hstat
      · exact hcopy _ _ hstat
  | committing r v =>
      simp only [clientEffect, hclient]
      have hin : InRead s.base.client := by
        rw [hclient]
        trivial
      exact hcopy _ _ (clientStep_inside hin (by simp [hclient]) hbase).2

/-- The store behind the loop. -/
theorem ErrInv.store
    (h : ErrInv s)
    {c : Call}
    (hcall : s.call = some c) :
    ErrInv (store c s) := by
  constructor
  · rintro (hfailed | ⟨c', hc', -⟩)
    · exact h.dirty_err (Or.inl hfailed)
    · cases hc'
  · intro c' hc'
    cases hc'
  · intro v r hv _
    simp only [Errors.store, Option.map_eq_some_iff] at hv
    obtain ⟨v', -, rfl⟩ := hv
    simp
  · obtain ⟨hfailed, hdefined, hreply⟩ := h.reports
    constructor
    · intro x hx hhanded
      rcases List.mem_append.mp hx with hold | hnew
      · exact hfailed x hold hhanded
      · rw [List.mem_singleton.mp hnew] at hhanded ⊢
        have herr := h.dirty_err (Or.inr ⟨c, hcall, hhanded⟩)
        intro hno
        exact herr (Option.some.inj hno)
    · intro x hx
      rcases List.mem_append.mp hx with hold | hnew
      · exact hdefined x hold
      · rw [List.mem_singleton.mp hnew]
        simp
    · exact hreply

/-- A change of the variables of `cdvdSt_read` outside its calls. -/
theorem ErrInv.setRpc
    (h : ErrInv s)
    {rpc : Option Rpc}
    (hreturned :
      ∀ v r, rpc = some v → v.pc = .returned r → v.err ≠ none) :
    ErrInv { s with rpc := rpc } := by
  obtain ⟨hfailed, hdefined, hreply⟩ := h.reports
  exact ⟨h.dirty_err, h.inside, hreturned, hfailed, hdefined, hreply⟩

/-- The reply of `cdvdSt_read`. -/
theorem ErrInv.reply
    (h : ErrInv s)
    {v : Rpc}
    (herr : v.err ≠ none) :
    ErrInv (s.reply v) := by
  obtain ⟨hfailed, hdefined, hreply⟩ := h.reports
  refine ⟨h.dirty_err, h.inside, ?_, hfailed, hdefined, ?_⟩
  · intro v' r hv
    cases hv
  · intro err hmem
    rcases List.mem_append.mp hmem with hold | hnew
    · exact hreply err hold
    · rw [List.mem_singleton.mp hnew]
      exact herr

/-- The end of a device read. -/
theorem ErrInv.deviceEnd
    (h : ErrInv s)
    (ok : Bool) :
    ErrInv (deviceEnd ok s) := by
  cases ok with
  | true => exact h.keep id rfl h.inside rfl rfl rfl
  | false =>
      obtain ⟨hfailed, hdefined, hreply⟩ := h.reports
      refine ⟨?_, h.inside, h.returned, hfailed, hdefined, hreply⟩
      intro _
      simp [Errors.deviceEnd, cdvdErrRead, cdvdErrNo]

/-- The steps of the other contexts. -/
theorem ErrInv.background
    (h : ErrInv s)
    {base : Blocking.State β}
    (hbase : Blocking.Background s.base base)
    (served : Option Bool) :
    ErrInv { s with base := base, served := served } := by
  refine h.keep ?_ rfl ?_ rfl rfl rfl
  · rintro (⟨hstat, hne⟩ | hcall)
    · refine Or.inl ⟨?_, hne⟩
      rw [← hbase.stat]
      exact hstat
    · exact Or.inr hcall
  · intro c hc
    obtain ⟨hin, hstat⟩ := h.inside c hc
    exact ⟨by rw [hbase.client]; exact hin, hbase.stat.trans hstat⟩

/-- A step that keeps the cell keeps the invariant. -/
theorem ErrInv.next
    (h : ErrInv s)
    {a : Act}
    (hkept : errKept s a)
    (hstep : step drive s a = some s') :
    ErrInv s' := by
  cases a with
  | call op =>
      simp only [step] at hstep
      split at hstep
      · rename_i hclient _
        cases hstep
        exact h.call hclient hkept
      · cases hstep
  | client => exact h.client hstep
  | store =>
      simp only [step] at hstep
      split at hstep
      · rename_i hcall
        cases hstep
        exact h.store hcall
      · cases hstep
  | rpc sectors =>
      simp only [step] at hstep
      split at hstep
      · have hpos : 0 < s32 sectors := hkept
        rw [if_pos hpos] at hstep
        cases hstep
        apply h.setRpc
        intro v r hv hpc
        rw [← Option.some.inj hv] at hpc
        cases hpc
      · cases hstep
  | rpcCall =>
      simp only [step] at hstep
      split at hstep
      · rename_i remaining rpos err _ _
        have hstat : s.base.sys.data.stat = true := hkept.1
        have hinside :
            ErrInv { s with rpc := some ⟨.inside, remaining, rpos, err⟩ } := by
          apply h.setRpc
          intro v r hv hpc
          rw [← Option.some.inj hv] at hpc
          cases hpc
        have hcalled :=
          hinside.stReadCall hstat hkept.2 true false remaining.toNat
        have hstarted :
            (Errors.stReadCall true false remaining.toNat
              { s with
                rpc := some ⟨.inside, remaining, rpos, err⟩ }).base.sys.data.stat =
              true := by
          simp only [Errors.stReadCall, hstat, if_true, Blocking.callStep]
        rw [if_pos hstarted] at hstep
        cases hstep
        exact hcalled
      · cases hstep
  | rpcNext =>
      simp only [step] at hstep
      split at hstep
      · rename_i r remaining rpos err _ hrpc
        have herr : err ≠ none := h.returned _ r hrpc rfl
        split_ifs at hstep
        · cases hstep
          exact h.reply herr
        · cases hstep
          apply h.setRpc
          intro v r' hv hpc
          rw [← Option.some.inj hv] at hpc
          cases hpc
        · cases hstep
          exact h.reply herr
      · cases hstep
  | deviceBegin =>
      simp only [step] at hstep
      split_ifs at hstep
      cases hstep
      exact h.clean hkept h.inside h.returned rfl rfl
  | deviceEnd ok =>
      simp only [step] at hstep
      split_ifs at hstep
      cases hstep
      exact h.deviceEnd ok
  | readEnd =>
      simp only [step] at hstep
      split at hstep
      · split_ifs at hstep
        obtain ⟨base, hbase, rfl⟩ := Option.map_eq_some_iff.mp hstep
        exact
          h.background
            (Blocking.background_of_step (by simp) (by simp) hbase) none
      · cases hstep
  | other err =>
      simp only [step, Option.some.injEq] at hstep
      subst hstep
      obtain ⟨hfailed, hdefined, hreply⟩ := h.reports
      refine ⟨?_, h.inside, h.returned, hfailed, hdefined, hreply⟩
      intro hdirty hno
      exact hkept hno hdirty
  | background a =>
      have hquiet :
          ∀ base, Blocking.step drive s.base a = some base →
            (∀ op, a ≠ .call op) → a ≠ .client →
            ErrInv { s with base := base } := by
        intro base hbase hcall hclient
        exact
          h.background (Blocking.background_of_step hcall hclient hbase) s.served
      simp only [step] at hstep
      split at hstep
      · cases hstep
      · cases hstep
      · cases hstep
      · rename_i hcall hclient _
        obtain ⟨base, hbase, rfl⟩ := Option.map_eq_some_iff.mp hstep
        exact hquiet base hbase hcall hclient

end Invariant

section Results

variable {β : Type u} {drive : Drive β} {s : State β}

/-- In a run in which nothing clears the error cell while it is needed, every call
reports the failed banks it hands out, and every reply has an error half. -/
theorem sceCdStRead_reports_of_kept
    (hreach : GuardedReach (step drive) errKept (initial β) s) :
    Reports s := by
  have hinv : ErrInv s :=
    hreach.invariant errInv_initial
      (fun _ _ _ hinv hkept hstep => hinv.next hkept hstep)
  exact hinv.reports

/-- A stream of two banks of one sector, of which the first is read. -/
def startedRun : List Act :=
  [.call (.stInit 2 2), .call (.stStart 100), .client, .client, .deviceBegin,
    .deviceEnd true, .readEnd, .background .setEvent, .background .callback]

/-- The first bank is handed out; the device read of the second one fails inside
the next call, which hands it out before the third one begins. -/
def keptRun : List Act :=
  startedRun ++
    [.rpc 1, .rpcCall, .client, .client, .client, .client, .store, .client,
      .rpcNext, .call (.stRead false true 1), .deviceBegin, .deviceEnd false,
      .readEnd, .background .setEvent, .background .callback, .client, .client,
      .client, .store, .client]

theorem sceCdStRead_reports_of_kept_run :
    ∃ s, GuardedReach (step numberedDisc) errKept (initial Nat) s ∧
      s.finished = [⟨false, some cdvdErrNo⟩, ⟨true, some cdvdErrRead⟩] ∧
      s.replies = [some cdvdErrNo] ∧ Reports s := by
  have hreach : GuardedReach (step numberedDisc) errKept (initial Nat) _ :=
    guardedReach_of_runGuarded keptRun rfl
  exact ⟨_, hreach, rfl, rfl, sceCdStRead_reports_of_kept hreach⟩

/-- A bank that failed before the call is handed out without an error; a call
without a stream stores nothing, and a reply of `cdvdSt_read` has no error half
then, nor when it is asked for no sectors. -/
theorem sceCdStRead_loses_error :
    (∃ s, Reach (step numberedDisc) (initial Nat) s ∧
      s.finished = [⟨true, some cdvdErrNo⟩] ∧ ¬ Reports s) ∧
    (∃ s, Reach (step numberedDisc) (initial Nat) s ∧
      s.finished = [⟨false, none⟩] ∧ s.replies = [none] ∧ ¬ Reports s) ∧
    (∃ s, Reach (step numberedDisc) (initial Nat) s ∧
      s.finished = [] ∧ s.replies = [none] ∧ ¬ Reports s) := by
  refine ⟨?_, ?_, ?_⟩
  · refine
      ⟨_, guardedReach_of_runGuarded
        [.call (.stInit 2 2), .call (.stStart 100), .client, .client, .deviceBegin,
          .deviceEnd false, .readEnd, .background .setEvent, .background .callback,
          .call (.stRead false false 1), .client, .client, .client, .store] rfl,
        rfl, ?_⟩
    intro h
    exact h.failed ⟨true, some cdvdErrNo⟩ (List.mem_singleton_self _) rfl rfl
  · refine
      ⟨_, guardedReach_of_runGuarded [.rpc 1, .rpcCall, .rpcNext] rfl, rfl, rfl, ?_⟩
    intro h
    exact h.reply none (List.mem_singleton_self _) rfl
  · refine ⟨_, guardedReach_of_runGuarded [.rpc 0] rfl, rfl, rfl, ?_⟩
    intro h
    exact h.reply none (List.mem_singleton_self _) rfl

end Results

end Errors
end Ps2Cdvd
