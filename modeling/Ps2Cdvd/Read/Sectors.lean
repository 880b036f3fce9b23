import Ps2Cdvd.Lib.Memory
import Ps2Cdvd.Settings

/-!
# One read request: `cdvdman_read_sectors` and `cdvdman_read`

A read request is turned into `DeviceReadSectors` calls.  `cdvdman_read_sectors`
clears `cdvdman_stat.err` and makes the calls in a loop; `cdvdman_read` calls it
once for a 4-byte aligned buffer, and once for every two sectors, through
`cdvdman_buf`, for any other buffer.

What happens outside the code is one `DeviceTurn` for every turn of the inner
loop: whether the device call fails, what it leaves in the buffer then, and at
which of the four places between two device calls an `sceCdBreak` arrives.  The
events of a request are kept in the order they happen.

* `cdvdmanRead_sticky_iff`: exactly when every error or break during a request
  survives to its end and stops it;
* `cdvdmanRead_delivers`: a request without errors stores the sectors asked for.
-/

namespace Ps2Cdvd
namespace Read

open Lib

section Source

/-- An event of one read request. -/
inductive ReadEvent
  | call (lsn sectors : Nat) (ok : Bool)
  | brk
deriving DecidableEq

/-- What one turn of the loop in `cdvdman_read_sectors` meets outside it: an
`sceCdBreak` before the call of `cdvdman_read_sectors` that begins with this turn
has cleared `cdvdman_stat.err`, one before the turn checks it, one between the
check and the device call, and one after the call; and what the device does. -/
structure DeviceTurn where
  breakStart : Bool
  breakBefore : Bool
  breakBetween : Bool
  fails : Bool
  breakAfter : Bool
  junk : Nat → UInt8

/-- The variables that a read request changes, the turns taken and the events
of the request. -/
structure DriveState where
  err : Int
  status : Int
  readPos : Nat
  mem : Nat → UInt8
  turn : Nat
  events : List ReadEvent

/-- `sceCdBreak`. -/
def sceCdBreak (s : DriveState) : DriveState :=
  { s with
    err := cdvdErrAbrt
    status := cdvdStatPause
    events := s.events ++ [.brk] }

/-- `sceCdBreak`, when one arrives. -/
def breakIf (b : Bool) (s : DriveState) : DriveState :=
  if b then sceCdBreak s else s

/-- `(logo[j] << 3) | (logo[j] >> 5)` after `logo[j] ^= key`. -/
def logoByte (key b : UInt8) : UInt8 :=
  ((b ^^^ key) <<< 3) ||| ((b ^^^ key) >>> 5)

/-- The PS2LOGO decryptor over the sectors just read. -/
def logoDecrypt (f : Nat → UInt8) : Nat → UInt8 :=
  if f 0 = 0 then f else fun j => logoByte (f 0) (f j)

/-- What a successful device call and the decryptor leave at `ptr`. -/
def deliveredBytes (image : Nat → UInt8) (lsn : Nat) : Nat → UInt8 :=
  if lsn < 13 then logoDecrypt (fun j => image (2048 * lsn + j))
  else fun j => image (2048 * lsn + j)

variable (cfg : Settings) (image : Nat → UInt8) (env : Nat → DeviceTurn)

/-- Sectors of one device call: all that remain, or at most 8 with
`ACCU_READS`.  The rate limit of that mode (an alarm and an event flag) only
takes time. -/
def sectorsToRead (remaining : Nat) : Nat :=
  if cfg.has iopcoreCompatAccuReads then min remaining 8 else remaining

/-- The loop of `cdvdman_read_sectors`.  A turn reads at least one sector, so
`remaining` turns are enough. -/
def cdvdmanReadLoop :
    (fuel lsn ptr remaining : Nat) → DriveState → DriveState
  | 0, _, _, _, s => s
  | fuel + 1, lsn, ptr, remaining, s =>
      if 0 < remaining then
        let out := env s.turn
        let s := breakIf out.breakBefore { s with turn := s.turn + 1 }
        if s.err ≠ cdvdErrNo then s
        else
          let n := sectorsToRead cfg remaining
          -- with `ACCU_READS` this takes the time of two system calls
          let s := breakIf out.breakBetween s
          if out.fails then
            breakIf out.breakAfter
              { s with
                err := cdvdErrRead
                mem := writeRange s.mem ptr (2048 * n) out.junk
                events := s.events ++ [.call lsn n false] }
          else
            cdvdmanReadLoop fuel (u32 (lsn + n)) (ptr + 2048 * n)
              (remaining - n)
              (breakIf out.breakAfter
                { s with
                  mem := writeRange s.mem ptr (2048 * n)
                    (deliveredBytes image lsn)
                  readPos := u32 (s.readPos + 2048 * n)
                  events := s.events ++ [.call lsn n true] })
      else s

/-- `cdvdman_read_sectors(lsn, sectors, buf)`. -/
def cdvdmanReadSectors
    (lsn sectors buf : Nat) (s : DriveState) : DriveState :=
  cdvdmanReadLoop cfg image env sectors lsn buf sectors
    { breakIf (env s.turn).breakStart s with err := cdvdErrNo }

/-- `mips_memcpy(dst, src, n)`. -/
def memcpy (dst src n : Nat) (m : Nat → UInt8) : Nat → UInt8 :=
  writeRange m dst n (fun i => m (src + i))

variable (cdvdmanBuf : Nat)

/-- The double-copy loop of `cdvdman_read` for an unaligned buffer. -/
def cdvdmanReadUnaligned :
    (fuel rpos sectors buf : Nat) → DriveState → DriveState
  | 0, _, _, _, s => s
  | fuel + 1, rpos, sectors, buf, s =>
      if 0 < sectors then
        let n := min sectors cdvdmanBufSectors
        let s := cdvdmanReadSectors cfg image env rpos n cdvdmanBuf s
        cdvdmanReadUnaligned fuel (u32 (rpos + n)) (sectors - n)
          (buf + 2048 * n)
          { s with mem := memcpy buf cdvdmanBuf (2048 * n) s.mem }
      else s

/-- `cdvdman_read(lsn, sectors, buf)`, as a request of its own: its events and
turns are counted from zero.  A request for no sectors takes no turn: a break
that it does not clear is the `breakBefore` of turn 0. -/
def cdvdmanRead (lsn sectors buf : Nat) (s : DriveState) : DriveState :=
  let s := { s with status := cdvdStatRead, turn := 0, events := [] }
  let s :=
    if buf % 4 ≠ 0 then
      cdvdmanReadUnaligned cfg image env cdvdmanBuf sectors lsn sectors buf s
    else
      cdvdmanReadSectors cfg image env lsn sectors buf s
  let s := breakIf (sectors == 0 && (env 0).breakBefore) s
  { s with readPos := 0, status := cdvdStatPause }

end Source

section Purpose

/-- A failed device call or a break. -/
def ReadEvent.Bad : ReadEvent → Prop
  | .call _ _ ok => ok = false
  | .brk => True

instance : DecidablePred ReadEvent.Bad
  | .call _ _ ok => inferInstanceAs (Decidable (ok = false))
  | .brk => isTrue trivial

/-- A device call. -/
def ReadEvent.IsCall : ReadEvent → Prop
  | .call _ _ _ => True
  | .brk => False

/-- Errors of a request are sticky: after a failed device call or a break no
device call follows and the error is there at the end, and without either the
request ends with `CDVD_ERR_NO`. -/
structure Sticky (s : DriveState) : Prop where
  kept : (∃ e ∈ s.events, e.Bad) → s.err ≠ cdvdErrNo
  stops :
    ∀ pre e post, s.events = pre ++ e :: post → e.Bad →
      ∀ e' ∈ post, ¬ e'.IsCall
  clean : (∀ e ∈ s.events, ¬ e.Bad) → s.err = cdvdErrNo

/-- In the turn something goes wrong: the device call fails or a break
arrives. -/
def DeviceTurn.Disturbed (out : DeviceTurn) : Prop :=
  out.breakStart = true ∨ out.breakBefore = true ∨ out.breakBetween = true ∨
    out.fails = true ∨ out.breakAfter = true

/-- The loop makes no device call after this turn. -/
def DeviceTurn.Ends (out : DeviceTurn) : Prop :=
  out.breakBefore = true ∨ out.breakBetween = true ∨ out.fails = true ∨
    out.breakAfter = true

/-- The turns of a request that is not stopped. -/
def turnsOf (cfg : Settings) (sectors : Nat) : Nat :=
  if cfg.has iopcoreCompatAccuReads then (sectors + 7) / 8
  else if sectors = 0 then 0 else 1

/-- Of `calls` turns from turn `t` on, the first that ends the loop has no break
between its check of the error and its device call, unless the check already
finds a break. -/
def CallsUnbroken (env : Nat → DeviceTurn) (t calls : Nat) : Prop :=
  ∀ i, i < calls → (∀ j, j < i → ¬ (env (t + j)).Ends) →
    (env (t + i)).breakBetween = true → (env (t + i)).breakBefore = true

/-- Of the pieces of two sectors from turn `t` on, every one is stopped by a break
before its check of the error, or no break comes before its device call and
nothing has gone wrong in the piece before. -/
def PiecesUnbroken (env : Nat → DeviceTurn) (t sectors : Nat) : Prop :=
  ∀ j, 2 * j < sectors →
    (env (t + j)).breakBefore = true ∨
      ((env (t + j)).breakStart = false ∧ (env (t + j)).breakBetween = false ∧
        ∀ i, i + 1 = j → ¬ (env (t + i)).Disturbed)

/-- The condition under which errors are sticky, by what the turns of the request
meet.  Only a request for no sectors to an unaligned buffer leaves the error of
the request before it. -/
def KeepsErrors
    (cfg : Settings) (env : Nat → DeviceTurn) (err : Int) (sectors buf : Nat) :
    Prop :=
  if sectors = 0 then
    (env 0).breakBefore = true ∨
      (if buf % 4 = 0 then (env 0).breakStart = false else err = cdvdErrNo)
  else if buf % 4 = 0 then
    ((env 0).breakStart = true → (env 0).breakBefore = true) ∧
      CallsUnbroken env 0 (turnsOf cfg sectors)
  else PiecesUnbroken env 0 sectors

end Purpose

section Logs

/-- No event of the log is bad. -/
def Quiet (events : List ReadEvent) : Prop :=
  ∀ e ∈ events, ¬ e.Bad

/-- Nothing went wrong so far. -/
def Clean (err : Int) (events : List ReadEvent) : Prop :=
  err = cdvdErrNo ∧ Quiet events

/-- Something went wrong; it is still recorded, and no device call followed. -/
def Stopped (err : Int) (events : List ReadEvent) : Prop :=
  err ≠ cdvdErrNo ∧
    ∃ pre e post, events = pre ++ e :: post ∧ Quiet pre ∧ e.Bad ∧
      ∀ e' ∈ post, ¬ e'.IsCall

/-- A log that is clean or has stopped. -/
def Settled (err : Int) (events : List ReadEvent) : Prop :=
  Clean err events ∨ Stopped err events

theorem cdvdErrAbrt_ne : cdvdErrAbrt ≠ cdvdErrNo := by decide

theorem cdvdErrRead_ne : cdvdErrRead ≠ cdvdErrNo := by decide

theorem ReadEvent.isCall_call (lsn n : Nat) (ok : Bool) :
    (ReadEvent.call lsn n ok).IsCall :=
  trivial

theorem Quiet.append_call
    {events : List ReadEvent}
    (h : Quiet events)
    (lsn n : Nat) :
    Quiet (events ++ [.call lsn n true]) := by
  intro e he
  rcases List.mem_append.mp he with he | he
  · exact h e he
  · rw [List.mem_singleton] at he
    subst he
    simp [ReadEvent.Bad]

theorem Quiet.stopped_append
    {events : List ReadEvent} {err : Int} {e : ReadEvent}
    (h : Quiet events)
    (hbad : e.Bad)
    (herr : err ≠ cdvdErrNo) :
    Stopped err (events ++ [e]) :=
  ⟨herr, events, e, [], rfl, h, hbad, by simp⟩

theorem Stopped.append_other
    {events rest : List ReadEvent} {err err' : Int}
    (h : Stopped err events)
    (hrest : ∀ e ∈ rest, ¬ e.IsCall)
    (herr : err' ≠ cdvdErrNo) :
    Stopped err' (events ++ rest) := by
  obtain ⟨-, pre, e, post, rfl, hquiet, hbad, hpost⟩ := h
  refine ⟨herr, pre, e, post ++ rest, by simp, hquiet, hbad, ?_⟩
  intro e' he'
  rcases List.mem_append.mp he' with he' | he'
  · exact hpost e' he'
  · exact hrest e' he'

theorem Stopped.append_brk
    {events : List ReadEvent} {err err' : Int}
    (h : Stopped err events)
    (herr : err' ≠ cdvdErrNo) :
    Stopped err' (events ++ [.brk]) := by
  apply h.append_other _ herr
  rintro e (_ | ⟨_, he⟩)
  · exact id
  · cases he

theorem sticky_congr
    {s s' : DriveState}
    (herr : s.err = s'.err)
    (hevents : s.events = s'.events) :
    Sticky s ↔ Sticky s' := by
  constructor
  · intro h
    exact ⟨herr ▸ hevents ▸ h.kept, hevents ▸ h.stops, herr ▸ hevents ▸ h.clean⟩
  · intro h
    exact ⟨herr ▸ hevents ▸ h.kept, hevents ▸ h.stops, herr ▸ hevents ▸ h.clean⟩

/-- A settled log ends sticky. -/
theorem Settled.sticky
    {s : DriveState}
    (h : Settled s.err s.events) :
    Sticky s := by
  rcases h with ⟨herr, hquiet⟩ | ⟨herr, pre, e, post, hevents, hquiet, hbad, hpost⟩
  · refine ⟨?_, ?_, fun _ => herr⟩
    · rintro ⟨e, he, hbad⟩
      exact absurd hbad (hquiet e he)
    · intro pre e post hevents hbad
      exact absurd hbad (hquiet e (by simp [hevents]))
  · refine ⟨fun _ => herr, ?_, ?_⟩
    · intro pre' e' post' hevents' hbad' e'' he''
      rw [hevents] at hevents'
      -- the first bad event of the log is `e`
      rcases List.append_eq_append_iff.mp hevents' with
        ⟨mid, hpre, hmid⟩ | ⟨mid, hpre, hmid⟩
      · cases mid with
        | nil =>
            have hpost' : post = post' := by
              simpa using (List.cons.inj hmid).2
            exact hpost e'' (hpost' ▸ he'')
        | cons x xs =>
            have hpost' : post = xs ++ e' :: post' := by
              simpa using (List.cons.inj hmid).2
            exact hpost e'' (by simp [hpost', he''])
      · cases mid with
        | nil =>
            have hpost' : post' = post := by
              simpa using (List.cons.inj hmid).2
            exact hpost e'' (hpost' ▸ he'')
        | cons x xs =>
            have hx : e' = x := by
              simpa using (List.cons.inj hmid).1
            exact absurd hbad' (hquiet e' (by simp [hpre, hx]))
    · intro hall
      exact absurd hbad (hall e (by simp [hevents]))

/-- A device call after a bad event is not sticky, whatever comes later. -/
theorem not_sticky_of_call_after_bad
    {s : DriveState} {pre mid post : List ReadEvent} {e c : ReadEvent}
    (hevents : s.events = pre ++ e :: (mid ++ c :: post))
    (hbad : e.Bad)
    (hcall : c.IsCall) :
    ¬ Sticky s := by
  intro h
  exact h.stops pre e (mid ++ c :: post) hevents hbad c (by simp) hcall

end Logs

section Loops

variable
  {cfg : Settings}
  {image : Nat → UInt8}
  {env : Nat → DeviceTurn}

@[simp] theorem breakIf_mem (b : Bool) (s : DriveState) :
    (breakIf b s).mem = s.mem := by
  cases b with
  | false => rfl
  | true => rfl

@[simp] theorem breakIf_turn (b : Bool) (s : DriveState) :
    (breakIf b s).turn = s.turn := by
  cases b with
  | false => rfl
  | true => rfl

theorem breakIf_err (b : Bool) (s : DriveState) :
    (breakIf b s).err = if b then cdvdErrAbrt else s.err := by
  cases b with
  | false => rfl
  | true => rfl

theorem breakIf_error
    {s : DriveState}
    (b : Bool)
    (herr : s.err ≠ cdvdErrNo) :
    (breakIf b s).err ≠ cdvdErrNo := by
  cases b with
  | false => exact herr
  | true => exact cdvdErrAbrt_ne

/-- The event of a break, when one arrives. -/
def brkEvents (b : Bool) : List ReadEvent :=
  if b then [.brk] else []

theorem breakIf_events (b : Bool) (s : DriveState) :
    (breakIf b s).events = s.events ++ brkEvents b := by
  cases b with
  | false => exact (List.append_nil _).symm
  | true => rfl

theorem brkEvents_not_call (b : Bool) :
    ∀ e ∈ brkEvents b, ¬ e.IsCall := by
  intro e he
  cases b with
  | false => cases he
  | true =>
      rw [List.mem_singleton.mp he]
      exact id

/-- The state when `cdvdman_read_sectors` has cleared the error. -/
def cleared (b : Bool) (s : DriveState) : DriveState :=
  { breakIf b s with err := cdvdErrNo }

@[simp] theorem cleared_err (b : Bool) (s : DriveState) :
    (cleared b s).err = cdvdErrNo :=
  rfl

@[simp] theorem cleared_mem (b : Bool) (s : DriveState) :
    (cleared b s).mem = s.mem :=
  breakIf_mem b s

@[simp] theorem cleared_turn (b : Bool) (s : DriveState) :
    (cleared b s).turn = s.turn :=
  breakIf_turn b s

theorem cleared_events (b : Bool) (s : DriveState) :
    (cleared b s).events = s.events ++ brkEvents b :=
  breakIf_events b s

theorem cdvdmanReadSectors_eq
    (lsn sectors buf : Nat) (s : DriveState) :
    cdvdmanReadSectors cfg image env lsn sectors buf s =
      cdvdmanReadLoop cfg image env sectors lsn buf sectors
        (cleared (env s.turn).breakStart s) :=
  rfl

theorem breakIf_settled
    {b : Bool} {s : DriveState}
    (h : Settled s.err s.events) :
    Settled (breakIf b s).err (breakIf b s).events := by
  cases b with
  | false => exact h
  | true =>
      right
      rcases h with ⟨-, hquiet⟩ | hstop
      · exact hquiet.stopped_append (by simp [ReadEvent.Bad]) cdvdErrAbrt_ne
      · exact hstop.append_brk cdvdErrAbrt_ne

theorem sectorsToRead_pos
    {remaining : Nat}
    (h : 0 < remaining) :
    0 < sectorsToRead cfg remaining := by
  unfold sectorsToRead
  split_ifs
  · exact lt_min h (by decide)
  · exact h

theorem sectorsToRead_le (remaining : Nat) :
    sectorsToRead cfg remaining ≤ remaining := by
  unfold sectorsToRead
  split_ifs
  · exact min_le_left _ _
  · exact le_rfl

@[simp] theorem turnsOf_zero : turnsOf cfg 0 = 0 := by
  simp [turnsOf]

/-- A request with sectors left takes one turn and the turns of its rest. -/
theorem turnsOf_succ
    {remaining : Nat}
    (hpos : 0 < remaining) :
    turnsOf cfg remaining =
      turnsOf cfg (remaining - sectorsToRead cfg remaining) + 1 := by
  unfold turnsOf sectorsToRead
  split_ifs
  · omega
  · omega
  · rfl
  · omega

theorem callsUnbroken_succ
    {t calls : Nat} :
    CallsUnbroken env t (calls + 1) ↔
      ((env t).breakBetween = true → (env t).breakBefore = true) ∧
        (¬ (env t).Ends → CallsUnbroken env (t + 1) calls) := by
  constructor
  · intro h
    refine ⟨h 0 (by omega) (fun j hj => absurd hj (Nat.not_lt_zero j)), ?_⟩
    intro hgo i hi hfirst hbetween
    rw [Nat.add_right_comm, Nat.add_assoc] at hbetween ⊢
    refine h (i + 1) (by omega) ?_ hbetween
    intro j hj
    cases j with
    | zero => exact hgo
    | succ j =>
        rw [← Nat.add_assoc, Nat.add_right_comm]
        exact hfirst j (by omega)
  · rintro ⟨hhead, hrest⟩ i hi hfirst hbetween
    cases i with
    | zero => exact hhead hbetween
    | succ i =>
        rw [← Nat.add_assoc, Nat.add_right_comm] at hbetween ⊢
        refine hrest (hfirst 0 (by omega)) i (by omega) ?_ hbetween
        intro j hj
        rw [Nat.add_right_comm, Nat.add_assoc]
        exact hfirst (j + 1) (by omega)

/-- After a turn that read everything the loop ends. -/
theorem cdvdmanReadLoop_zero
    (fuel lsn ptr : Nat) (s : DriveState) :
    cdvdmanReadLoop cfg image env fuel lsn ptr 0 s = s := by
  cases fuel with
  | zero => rfl
  | succ fuel => simp [cdvdmanReadLoop]

/-- With an error the loop takes at most one turn more, without a device call. -/
theorem cdvdmanReadLoop_error
    {fuel lsn ptr remaining : Nat} {s : DriveState}
    (herr : s.err ≠ cdvdErrNo) :
    cdvdmanReadLoop cfg image env fuel lsn ptr remaining s =
      if fuel ≠ 0 ∧ 0 < remaining then
        breakIf (env s.turn).breakBefore { s with turn := s.turn + 1 }
      else s := by
  cases fuel with
  | zero => rfl
  | succ fuel =>
      have hstill :
          (breakIf (env s.turn).breakBefore { s with turn := s.turn + 1 }).err ≠
            cdvdErrNo :=
        breakIf_error _ herr
      simp only [cdvdmanReadLoop, if_pos hstill, ne_eq, Nat.add_one_ne_zero,
        not_false_eq_true, true_and]

/-- The state after a device call that succeeds. -/
def afterCall (image : Nat → UInt8) (lsn ptr n : Nat) (s : DriveState) : DriveState :=
  { s with
    turn := s.turn + 1
    mem := writeRange s.mem ptr (2048 * n) (deliveredBytes image lsn)
    readPos := u32 (s.readPos + 2048 * n)
    events := s.events ++ [.call lsn n true] }

/-- The state after a device call that fails. -/
def afterFailure (junk : Nat → UInt8) (lsn ptr n : Nat) (s : DriveState) : DriveState :=
  { s with
    turn := s.turn + 1
    err := cdvdErrRead
    mem := writeRange s.mem ptr (2048 * n) junk
    events := s.events ++ [.call lsn n false] }

/-- One turn of the loop: a break before the call, a call that fails, or a call that
succeeds. -/
theorem cdvdmanReadLoop_turn
    {fuel lsn ptr remaining : Nat} {s : DriveState}
    (herr : s.err = cdvdErrNo)
    (hpos : 0 < remaining) :
    cdvdmanReadLoop cfg image env (fuel + 1) lsn ptr remaining s =
      if (env s.turn).breakBefore = true then sceCdBreak { s with turn := s.turn + 1 }
      else if (env s.turn).fails = true then
        breakIf (env s.turn).breakAfter
          (afterFailure (env s.turn).junk lsn ptr (sectorsToRead cfg remaining)
            (breakIf (env s.turn).breakBetween s))
      else
        cdvdmanReadLoop cfg image env fuel (u32 (lsn + sectorsToRead cfg remaining))
          (ptr + 2048 * sectorsToRead cfg remaining)
          (remaining - sectorsToRead cfg remaining)
          (breakIf (env s.turn).breakAfter
            (afterCall image lsn ptr (sectorsToRead cfg remaining)
              (breakIf (env s.turn).breakBetween s))) := by
  cases hbefore : (env s.turn).breakBefore with
  | true =>
      have hbroken : (sceCdBreak { s with turn := s.turn + 1 }).err ≠ cdvdErrNo :=
        cdvdErrAbrt_ne
      simp only [cdvdmanReadLoop, if_pos hpos, hbefore, breakIf, if_true,
        if_pos hbroken]
  | false =>
      have hgood : ¬ s.err ≠ cdvdErrNo := not_not.mpr herr
      cases hbetween : (env s.turn).breakBetween with
      | true =>
          simp only [cdvdmanReadLoop, if_pos hpos, hbefore, hbetween, breakIf,
            Bool.false_eq_true, if_false, if_true, if_neg hgood]
          rfl
      | false =>
          simp only [cdvdmanReadLoop, if_pos hpos, hbefore, hbetween, breakIf,
            Bool.false_eq_true, if_false, if_neg hgood]
          rfl

/-- The loop adds to the log of the request. -/
theorem cdvdmanReadLoop_events :
    ∀ (fuel lsn ptr remaining : Nat) (s : DriveState),
      ∃ more,
        (cdvdmanReadLoop cfg image env fuel lsn ptr remaining s).events =
          s.events ++ more := by
  intro fuel
  induction fuel with
  | zero =>
      intro _ _ _ s
      exact ⟨[], (List.append_nil _).symm⟩
  | succ fuel ih =>
      intro lsn ptr remaining s
      rcases Nat.eq_zero_or_pos remaining with rfl | hpos
      · rw [cdvdmanReadLoop_zero]
        exact ⟨[], (List.append_nil _).symm⟩
      by_cases herr : s.err = cdvdErrNo
      · rw [cdvdmanReadLoop_turn herr hpos]
        split_ifs
        · exact ⟨_, rfl⟩
        · rw [breakIf_events, afterFailure]
          dsimp only
          rw [breakIf_events, List.append_assoc, List.append_assoc]
          exact ⟨_, rfl⟩
        · obtain ⟨more, hmore⟩ := ih (u32 (lsn + sectorsToRead cfg remaining))
            (ptr + 2048 * sectorsToRead cfg remaining)
            (remaining - sectorsToRead cfg remaining)
            (breakIf (env s.turn).breakAfter
              (afterCall image lsn ptr (sectorsToRead cfg remaining)
                (breakIf (env s.turn).breakBetween s)))
          rw [hmore, breakIf_events, afterCall]
          dsimp only
          rw [breakIf_events, List.append_assoc, List.append_assoc, List.append_assoc]
          exact ⟨_, rfl⟩
      · rw [cdvdmanReadLoop_error herr]
        split_ifs
        · exact ⟨_, breakIf_events _ _⟩
        · exact ⟨[], (List.append_nil _).symm⟩

/-- The loop keeps a settled log settled, when no break comes right before a device
call. -/
theorem cdvdmanReadLoop_settled :
    ∀ (fuel lsn ptr remaining : Nat) (s : DriveState),
      Settled s.err s.events →
      CallsUnbroken env s.turn (turnsOf cfg remaining) →
      Settled
        (cdvdmanReadLoop cfg image env fuel lsn ptr remaining s).err
        (cdvdmanReadLoop cfg image env fuel lsn ptr remaining s).events := by
  intro fuel
  induction fuel with
  | zero =>
      intro _ _ _ _ h _
      exact h
  | succ fuel ih =>
      intro lsn ptr remaining s h hcalls
      rcases Nat.eq_zero_or_pos remaining with rfl | hpos
      · rw [cdvdmanReadLoop_zero]
        exact h
      rcases h with ⟨herr, hquiet⟩ | hstop
      · rw [turnsOf_succ hpos, callsUnbroken_succ] at hcalls
        obtain ⟨hhead, hrest⟩ := hcalls
        rw [cdvdmanReadLoop_turn herr hpos]
        split_ifs with hbefore hfails
        · exact Or.inr (hquiet.stopped_append (by simp [ReadEvent.Bad]) cdvdErrAbrt_ne)
        · have hbetween : (env s.turn).breakBetween = false :=
            Bool.eq_false_iff.mpr (fun h => hbefore (hhead h))
          rw [hbetween]
          exact breakIf_settled
            (Or.inr (hquiet.stopped_append (by simp [ReadEvent.Bad]) cdvdErrRead_ne))
        · have hbetween : (env s.turn).breakBetween = false :=
            Bool.eq_false_iff.mpr (fun h => hbefore (hhead h))
          rw [hbetween]
          have hgood :
              Clean s.err (s.events ++ [.call lsn (sectorsToRead cfg remaining) true]) :=
            ⟨herr, hquiet.append_call _ _⟩
          cases hafter : (env s.turn).breakAfter with
          | true =>
              have hbroken :
                  (breakIf true
                    (afterCall image lsn ptr (sectorsToRead cfg remaining)
                      (breakIf false s))).err ≠ cdvdErrNo :=
                cdvdErrAbrt_ne
              have hsettled := @breakIf_settled true
                (afterCall image lsn ptr (sectorsToRead cfg remaining)
                  (breakIf false s)) (Or.inl hgood)
              rw [cdvdmanReadLoop_error hbroken]
              split_ifs
              · exact breakIf_settled hsettled
              · exact hsettled
          | false =>
              refine ih _ _ _ _ (Or.inl hgood) (hrest ?_)
              rintro (h | h | h | h)
              · exact hbefore h
              · exact hbefore (hhead h)
              · exact hfails h
              · rw [hafter] at h
                cases h
      · rw [cdvdmanReadLoop_error hstop.1]
        split_ifs
        · exact @breakIf_settled _ { s with turn := s.turn + 1 } (Or.inr hstop)
        · exact Or.inr hstop

/-- A turn that no break stops makes its device call. -/
theorem cdvdmanReadLoop_call
    {fuel lsn ptr remaining : Nat} {s : DriveState}
    (herr : s.err = cdvdErrNo)
    (hpos : 0 < remaining)
    (hbefore : (env s.turn).breakBefore = false) :
    ∃ c post,
      (cdvdmanReadLoop cfg image env (fuel + 1) lsn ptr remaining s).events =
          s.events ++ (brkEvents (env s.turn).breakBetween ++ c :: post) ∧
        c.IsCall := by
  rw [cdvdmanReadLoop_turn herr hpos, hbefore, if_neg Bool.false_ne_true]
  split_ifs
  · rw [breakIf_events, afterFailure]
    dsimp only
    rw [breakIf_events, List.append_assoc, List.append_assoc]
    exact ⟨_, _, rfl, ReadEvent.isCall_call _ _ _⟩
  · obtain ⟨more, hmore⟩ :=
      @cdvdmanReadLoop_events cfg image env fuel
        (u32 (lsn + sectorsToRead cfg remaining))
        (ptr + 2048 * sectorsToRead cfg remaining)
        (remaining - sectorsToRead cfg remaining)
        (breakIf (env s.turn).breakAfter
          (afterCall image lsn ptr (sectorsToRead cfg remaining)
            (breakIf (env s.turn).breakBetween s)))
    rw [hmore, breakIf_events, afterCall]
    dsimp only
    rw [breakIf_events, List.append_assoc, List.append_assoc, List.append_assoc]
    exact ⟨_, _, rfl, ReadEvent.isCall_call _ _ _⟩

/-- A break right before a device call shows in the log. -/
theorem cdvdmanReadLoop_call_after_break :
    ∀ (fuel lsn ptr remaining : Nat) (s : DriveState),
      s.err = cdvdErrNo → remaining ≤ fuel →
      ¬ CallsUnbroken env s.turn (turnsOf cfg remaining) →
      ∃ pre c post,
        (cdvdmanReadLoop cfg image env fuel lsn ptr remaining s).events =
            pre ++ .brk :: c :: post ∧
          c.IsCall := by
  intro fuel
  induction fuel with
  | zero =>
      intro lsn ptr remaining s _ hfuel hbroken
      refine absurd ?_ hbroken
      intro i hi
      rw [Nat.le_zero.mp hfuel, turnsOf_zero] at hi
      exact absurd hi (Nat.not_lt_zero i)
  | succ fuel ih =>
      intro lsn ptr remaining s herr hfuel hbroken
      rcases Nat.eq_zero_or_pos remaining with rfl | hpos
      · refine absurd ?_ hbroken
        intro i hi
        rw [turnsOf_zero] at hi
        exact absurd hi (Nat.not_lt_zero i)
      have hsome : 0 < sectorsToRead cfg remaining := sectorsToRead_pos hpos
      rw [turnsOf_succ hpos, callsUnbroken_succ, not_and_or] at hbroken
      rcases hbroken with hhead | hrest
      · -- the break of this turn
        obtain ⟨hbetween, hbefore⟩ := Classical.not_imp.mp hhead
        obtain ⟨c, post, hlog, hcall⟩ :=
          @cdvdmanReadLoop_call cfg image env fuel lsn ptr remaining s herr hpos
            (Bool.eq_false_iff.mpr hbefore)
        rw [hbetween] at hlog
        exact ⟨s.events, c, post, hlog, hcall⟩
      · -- one of a later turn
        obtain ⟨hgo, hlater⟩ := Classical.not_imp.mp hrest
        simp only [DeviceTurn.Ends, not_or, Bool.not_eq_true] at hgo
        obtain ⟨hbefore, hbetween, hfails, hafter⟩ := hgo
        rw [cdvdmanReadLoop_turn herr hpos, hbefore, hfails, hbetween, hafter,
          if_neg Bool.false_ne_true, if_neg Bool.false_ne_true]
        exact ih _ _ _ _ herr (by omega) hlater

end Loops

section Pieces

/-- The events of one call of `cdvdman_read_sectors` for at most two sectors:
it takes one turn. -/
def pieceEvents (out : DeviceTurn) (lsn n : Nat) : List ReadEvent :=
  brkEvents out.breakStart ++
    if out.breakBefore then [.brk]
    else
      brkEvents out.breakBetween ++
        .call lsn n (!out.fails) :: brkEvents out.breakAfter

/-- `cdvdman_stat.err` after that call. -/
def pieceErr (out : DeviceTurn) : Int :=
  if out.breakBefore || out.breakAfter then cdvdErrAbrt
  else if out.fails then cdvdErrRead
  else if out.breakBetween then cdvdErrAbrt
  else cdvdErrNo

/-- The events of the double-copy loop, from turn `t` on. -/
def pieceLog (env : Nat → DeviceTurn) :
    (fuel t rpos sectors : Nat) → List ReadEvent
  | 0, _, _, _ => []
  | fuel + 1, t, rpos, sectors =>
      if 0 < sectors then
        pieceEvents (env t) rpos (min sectors cdvdmanBufSectors) ++
          pieceLog env fuel (t + 1)
            (u32 (rpos + min sectors cdvdmanBufSectors))
            (sectors - min sectors cdvdmanBufSectors)
      else []

variable
  {cfg : Settings}
  {image : Nat → UInt8}
  {env : Nat → DeviceTurn}

/-- The log of a loop with sectors left begins with one piece. -/
theorem pieceLog_succ
    {fuel t rpos sectors : Nat}
    (hpos : 0 < sectors) :
    pieceLog env (fuel + 1) t rpos sectors =
      pieceEvents (env t) rpos (min sectors cdvdmanBufSectors) ++
        pieceLog env fuel (t + 1)
          (u32 (rpos + min sectors cdvdmanBufSectors))
          (sectors - min sectors cdvdmanBufSectors) := by
  simp [pieceLog, hpos]

@[simp] theorem pieceLog_zero (fuel t rpos : Nat) :
    pieceLog env fuel t rpos 0 = [] := by
  cases fuel with
  | zero => rfl
  | succ fuel => simp [pieceLog]

/-- The last piece of a loop that goes on is the last piece of its rest. -/
theorem lastPiece_succ
    {t sectors : Nat}
    (hmore : 2 < sectors) :
    t + 1 + (sectors - min sectors cdvdmanBufSectors - 1) / 2 =
      t + (sectors - 1) / 2 := by
  unfold cdvdmanBufSectors
  omega

theorem sectorsToRead_of_le
    {n : Nat}
    (hn : n ≤ cdvdmanBufSectors) :
    sectorsToRead cfg n = n := by
  have hle : n ≤ 8 := le_trans hn (by decide)
  unfold sectorsToRead
  split_ifs
  · exact min_eq_left hle
  · rfl

variable (cfg image env) in
/-- What one piece of the double-copy loop leaves in the log and in the error
cell. -/
theorem cdvdmanReadSectors_piece
    {n : Nat}
    (hpos : 0 < n)
    (hn : n ≤ cdvdmanBufSectors)
    (lsn buf : Nat) (s : DriveState) :
    (cdvdmanReadSectors cfg image env lsn n buf s).turn = s.turn + 1 ∧
    (cdvdmanReadSectors cfg image env lsn n buf s).events =
      s.events ++ pieceEvents (env s.turn) lsn n ∧
    (cdvdmanReadSectors cfg image env lsn n buf s).err =
      pieceErr (env s.turn) := by
  obtain ⟨k, rfl⟩ : ∃ k, n = k + 1 := ⟨n - 1, by omega⟩
  have hall : sectorsToRead cfg (k + 1) = k + 1 := sectorsToRead_of_le hn
  rw [cdvdmanReadSectors_eq, cdvdmanReadLoop_turn rfl hpos, hall, Nat.sub_self,
    cdvdmanReadLoop_zero]
  simp only [cleared_turn]
  split_ifs with hbefore hfails
  · simp [pieceEvents, pieceErr, hbefore, sceCdBreak, cleared_events, brkEvents]
  · simp [pieceEvents, pieceErr, hbefore, hfails, afterFailure, breakIf_events,
      breakIf_err, cleared_events]
  · simp [pieceEvents, pieceErr, hbefore, hfails, afterCall, breakIf_events,
      breakIf_err, cleared_events]

@[simp] theorem cdvdmanReadUnaligned_zero
    {cdvdmanBuf : Nat} (fuel rpos buf : Nat) (s : DriveState) :
    cdvdmanReadUnaligned cfg image env cdvdmanBuf fuel rpos 0 buf s = s := by
  cases fuel with
  | zero => rfl
  | succ fuel => simp [cdvdmanReadUnaligned]

/-- The log of the whole double-copy loop. -/
theorem cdvdmanReadUnaligned_events
    {cdvdmanBuf : Nat} :
    ∀ (fuel rpos sectors buf : Nat) (s : DriveState),
      (cdvdmanReadUnaligned cfg image env cdvdmanBuf
        fuel rpos sectors buf s).events =
        s.events ++ pieceLog env fuel s.turn rpos sectors := by
  intro fuel
  induction fuel with
  | zero =>
      intro _ _ _ s
      simp [cdvdmanReadUnaligned, pieceLog]
  | succ fuel ih =>
      intro rpos sectors buf s
      rcases Nat.eq_zero_or_pos sectors with rfl | hpos
      · simp [cdvdmanReadUnaligned, pieceLog]
      · have hn : 0 < min sectors cdvdmanBufSectors :=
          lt_min hpos (by decide)
        obtain ⟨hturn, hevents, -⟩ :=
          cdvdmanReadSectors_piece cfg image env
            hn (min_le_right _ _) rpos cdvdmanBuf s
        simp only [cdvdmanReadUnaligned, pieceLog, if_pos hpos]
        rw [ih]
        simp only [hturn, hevents, List.append_assoc]

/-- The error cell after the whole double-copy loop is the one of its last
piece. -/
theorem cdvdmanReadUnaligned_err
    {cdvdmanBuf : Nat} :
    ∀ (fuel rpos sectors buf : Nat) (s : DriveState),
      0 < sectors → sectors ≤ fuel →
      (cdvdmanReadUnaligned cfg image env cdvdmanBuf
        fuel rpos sectors buf s).err =
        pieceErr (env (s.turn + (sectors - 1) / 2)) := by
  intro fuel
  induction fuel with
  | zero =>
      intro _ _ _ _ hpos hfuel
      omega
  | succ fuel ih =>
      intro rpos sectors buf s hpos hfuel
      have hn : 0 < min sectors cdvdmanBufSectors :=
        lt_min hpos (by decide)
      obtain ⟨hturn, -, herr⟩ :=
        cdvdmanReadSectors_piece cfg image env
          hn (min_le_right _ _) rpos cdvdmanBuf s
      simp only [cdvdmanReadUnaligned, if_pos hpos]
      rcases Nat.eq_zero_or_pos (sectors - min sectors cdvdmanBufSectors) with
        hlast | hmore
      · have hsmall : (sectors - 1) / 2 = 0 := by
          unfold cdvdmanBufSectors at hlast
          omega
        rw [hlast, hsmall]
        rw [cdvdmanReadUnaligned_zero]
        exact herr
      · rw [ih _ _ _ _ hmore
          (by unfold cdvdmanBufSectors; omega)]
        have htwo : 2 < sectors := by
          unfold cdvdmanBufSectors at hmore
          omega
        simp only [hturn, lastPiece_succ htwo]

end Pieces

section Chains

variable {env : Nat → DeviceTurn}

theorem pieceEvents_of_undisturbed
    {out : DeviceTurn}
    (h : ¬ out.Disturbed)
    (lsn n : Nat) :
    pieceEvents out lsn n = [.call lsn n true] ∧
      pieceErr out = cdvdErrNo := by
  simp only [DeviceTurn.Disturbed, not_or, Bool.not_eq_true] at h
  obtain ⟨hstart, hbefore, hbetween, hfails, hafter⟩ := h
  simp [pieceEvents, pieceErr, brkEvents, hstart, hbefore, hbetween, hfails, hafter]

/-- The error of a disturbed piece stays, unless its break was cleared again. -/
theorem pieceErr_of_disturbed
    {out : DeviceTurn}
    (h : out.Disturbed)
    (hstart : out.breakStart = false) :
    pieceErr out ≠ cdvdErrNo := by
  have habrt : cdvdErrAbrt ≠ cdvdErrNo := cdvdErrAbrt_ne
  have hread : cdvdErrRead ≠ cdvdErrNo := cdvdErrRead_ne
  simp only [DeviceTurn.Disturbed, hstart, Bool.false_eq_true, false_or] at h
  unfold pieceErr
  split_ifs with hbroken hfails hbetween
  · exact habrt
  · exact hread
  · exact habrt
  · simp_all

/-- A piece that no break stops makes its device call. -/
theorem pieceEvents_of_go
    {out : DeviceTurn} {lsn n : Nat}
    (h : out.breakBefore = false) :
    pieceEvents out lsn n =
      brkEvents out.breakStart ++ (brkEvents out.breakBetween ++
        .call lsn n (!out.fails) :: brkEvents out.breakAfter) := by
  simp [pieceEvents, h]

theorem pieceEvents_call
    {out : DeviceTurn}
    (h : out.breakBefore = false)
    (lsn n : Nat) :
    ∃ c post,
      pieceEvents out lsn n =
          brkEvents out.breakStart ++ (brkEvents out.breakBetween ++ c :: post) ∧
        c.IsCall :=
  ⟨_, _, pieceEvents_of_go h, ReadEvent.isCall_call _ _ _⟩

/-- A disturbed piece has a bad event. -/
theorem pieceEvents_of_disturbed
    {out : DeviceTurn}
    (h : out.Disturbed)
    (lsn n : Nat) :
    ∃ pre e post, pieceEvents out lsn n = pre ++ e :: post ∧ e.Bad := by
  have hmem : ∃ e ∈ pieceEvents out lsn n, e.Bad := by
    cases hbefore : out.breakBefore with
    | true => exact ⟨.brk, by simp [pieceEvents, hbefore], trivial⟩
    | false =>
        rw [pieceEvents_of_go hbefore]
        simp only [DeviceTurn.Disturbed, hbefore, Bool.false_eq_true, false_or] at h
        rcases h with h | h | h | h
        · exact ⟨.brk, by simp [brkEvents, h], trivial⟩
        · exact ⟨.brk, by simp [brkEvents, h], trivial⟩
        · exact ⟨.call lsn n false, by simp [h], rfl⟩
        · exact ⟨.brk, by simp [brkEvents, h], trivial⟩
  obtain ⟨e, he, hbad⟩ := hmem
  obtain ⟨pre, post, hsplit⟩ := List.append_of_mem he
  exact ⟨pre, e, post, hsplit, hbad⟩

theorem Clean.append_piece
    {err : Int} {events : List ReadEvent} {out : DeviceTurn}
    (h : Clean err events)
    (hout : ¬ out.Disturbed)
    (lsn n : Nat) :
    Clean (pieceErr out) (events ++ pieceEvents out lsn n) := by
  obtain ⟨hevents, herr⟩ := pieceEvents_of_undisturbed hout lsn n
  rw [hevents]
  exact ⟨herr, h.2.append_call lsn n⟩

/-- A piece that a break stops, or that begins with its device call after nothing
has gone wrong, keeps a settled log settled. -/
theorem Settled.append_piece
    {err : Int} {events : List ReadEvent} {out : DeviceTurn}
    (h : Settled err events)
    (hout :
      out.breakBefore = true ∨
        (out.breakStart = false ∧ out.breakBetween = false ∧ Clean err events))
    (lsn n : Nat) :
    Settled (pieceErr out) (events ++ pieceEvents out lsn n) := by
  rcases hout with hbefore | ⟨hstart, hbetween, hclean⟩
  · have herr : pieceErr out = cdvdErrAbrt := by
      simp [pieceErr, hbefore]
    have hone :
        ∀ {err events}, Settled err events →
          Stopped cdvdErrAbrt (events ++ [.brk]) := by
      rintro err events (⟨-, hquiet⟩ | hstop)
      · exact hquiet.stopped_append (by simp [ReadEvent.Bad]) cdvdErrAbrt_ne
      · exact hstop.append_brk cdvdErrAbrt_ne
    rw [herr, pieceEvents, if_pos hbefore, ← List.append_assoc]
    cases out.breakStart with
    | false =>
        rw [brkEvents, if_neg Bool.false_ne_true, List.append_nil]
        exact Or.inr (hone h)
    | true => exact Or.inr (hone (Or.inr (hone h)))
  · by_cases hcalm : out.Disturbed
    · right
      have herr := pieceErr_of_disturbed hcalm hstart
      cases hbefore : out.breakBefore with
      | true =>
          rw [pieceEvents, if_pos hbefore, hstart]
          exact hclean.2.stopped_append (by simp [ReadEvent.Bad]) herr
      | false =>
          rw [pieceEvents_of_go hbefore, hstart, hbetween]
          simp only [brkEvents, Bool.false_eq_true, if_false, List.nil_append]
          cases hfails : out.fails with
          | true =>
              have hcall :
                  Stopped (pieceErr out) (events ++ [.call lsn n false]) :=
                hclean.2.stopped_append (by simp [ReadEvent.Bad]) herr
              have hmore := hcall.append_other (brkEvents_not_call out.breakAfter) herr
              rwa [List.append_assoc] at hmore
          | false =>
              have hafter : out.breakAfter = true := by
                simpa [DeviceTurn.Disturbed, hstart, hbefore, hbetween, hfails]
                  using hcalm
              have hcall := hclean.2.append_call lsn n
              have hmore : Stopped (pieceErr out) _ :=
                hcall.stopped_append (by simp [ReadEvent.Bad] : ReadEvent.brk.Bad) herr
              rw [List.append_assoc, List.singleton_append] at hmore
              rwa [hafter]
    · exact Or.inl (hclean.append_piece hcalm lsn n)

theorem PiecesUnbroken.tail
    {t sectors : Nat}
    (h : PiecesUnbroken env t sectors) :
    PiecesUnbroken env (t + 1) (sectors - min sectors cdvdmanBufSectors) := by
  intro j hj
  have hlt : 2 * (j + 1) < sectors := by
    unfold cdvdmanBufSectors at hj
    omega
  have hnext := h (j + 1) hlt
  rw [← Nat.add_assoc, Nat.add_right_comm] at hnext
  refine hnext.imp_right ?_
  rintro ⟨hstart, hbetween, hprev⟩
  refine ⟨hstart, hbetween, ?_⟩
  intro i hi
  rw [Nat.add_right_comm, Nat.add_assoc]
  exact hprev (i + 1) (by omega)

/-- The pieces of the double-copy loop keep a settled log settled. -/
theorem pieceLog_settled :
    ∀ (fuel t rpos sectors : Nat) (err : Int) (events : List ReadEvent),
      PiecesUnbroken env t sectors →
      Settled err events →
      ((env t).breakBefore = true ∨ Clean err events) →
      0 < sectors → sectors ≤ fuel →
      Settled (pieceErr (env (t + (sectors - 1) / 2)))
        (events ++ pieceLog env fuel t rpos sectors) := by
  intro fuel
  induction fuel with
  | zero =>
      intro _ _ _ _ _ _ _ _ hpos hfuel
      omega
  | succ fuel ih =>
      intro t rpos sectors err events hpieces hsettled hfirst hpos hfuel
      have hhead := hpieces 0 (by omega)
      rw [Nat.add_zero] at hhead
      have hsafe :
          (env t).breakBefore = true ∨
            ((env t).breakStart = false ∧ (env t).breakBetween = false ∧
              Clean err events) := by
        rcases hhead with hbefore | ⟨hstart, hbetween, -⟩
        · exact Or.inl hbefore
        · exact hfirst.imp_right (fun hclean => ⟨hstart, hbetween, hclean⟩)
      have hpiece :=
        hsettled.append_piece hsafe rpos (min sectors cdvdmanBufSectors)
      rw [pieceLog_succ hpos, ← List.append_assoc]
      rcases Nat.lt_or_ge 2 sectors with hmore | hlast
      · have hlater :
            (env (t + 1)).breakBefore = true ∨
              Clean (pieceErr (env t))
                (events ++
                  pieceEvents (env t) rpos (min sectors cdvdmanBufSectors)) := by
          refine (hpieces 1 (by omega)).imp_right ?_
          rintro ⟨-, -, hprev⟩
          have hcalm : ¬ (env t).Disturbed := hprev 0 rfl
          refine Clean.append_piece (hfirst.resolve_left ?_) hcalm _ _
          exact fun hbefore => hcalm (Or.inr (Or.inl hbefore))
        have hrest :=
          ih (t + 1) (u32 (rpos + min sectors cdvdmanBufSectors))
            (sectors - min sectors cdvdmanBufSectors) _ _ hpieces.tail hpiece hlater
            (by unfold cdvdmanBufSectors; omega)
            (by unfold cdvdmanBufSectors; omega)
        rwa [lastPiece_succ hmore] at hrest
      · have hrest : sectors - min sectors cdvdmanBufSectors = 0 := by
          unfold cdvdmanBufSectors
          omega
        have hzero : (sectors - 1) / 2 = 0 := by
          omega
        rw [hrest, hzero, pieceLog_zero, List.append_nil]
        exact hpiece

/-- The log from piece `j` on. -/
theorem pieceLog_from :
    ∀ (j fuel t rpos sectors : Nat),
      2 * j < sectors → sectors ≤ fuel →
      ∃ pre fuel' rpos',
        sectors - 2 * j ≤ fuel' + 1 ∧
          pieceLog env fuel t rpos sectors =
            pre ++ pieceLog env (fuel' + 1) (t + j) rpos' (sectors - 2 * j)
  | 0, 0, _, _, _, hlt, hfuel => by
      omega
  | 0, fuel + 1, t, rpos, sectors, hlt, hfuel => ⟨[], fuel, rpos, hfuel, rfl⟩
  | j + 1, 0, _, _, _, hlt, hfuel => by
      omega
  | j + 1, fuel + 1, t, rpos, sectors, hlt, hfuel => by
      have htwo : sectors - min sectors cdvdmanBufSectors = sectors - 2 := by
        unfold cdvdmanBufSectors
        omega
      obtain ⟨pre, fuel', rpos', hle, hlog⟩ :=
        pieceLog_from j fuel (t + 1) (u32 (rpos + min sectors cdvdmanBufSectors))
          (sectors - 2) (by omega) (by omega)
      have hleft : sectors - 2 - 2 * j = sectors - 2 * (j + 1) := by
        omega
      have hturn : t + 1 + j = t + (j + 1) := by
        omega
      rw [hleft, hturn] at hlog
      rw [hleft] at hle
      refine
        ⟨pieceEvents (env t) rpos (min sectors cdvdmanBufSectors) ++ pre, fuel',
          rpos', hle, ?_⟩
      rw [pieceLog_succ (by omega), htwo, hlog, List.append_assoc]

/-- A break before the device call of a piece shows in the log. -/
theorem pieceLog_call_after_break
    {j fuel t rpos sectors : Nat}
    (hlt : 2 * j < sectors)
    (hfuel : sectors ≤ fuel)
    (hgo : (env (t + j)).breakBefore = false)
    (hbreak :
      (env (t + j)).breakStart = true ∨ (env (t + j)).breakBetween = true) :
    ∃ pre e mid c post,
      pieceLog env fuel t rpos sectors = pre ++ e :: (mid ++ c :: post) ∧
        e.Bad ∧ c.IsCall := by
  obtain ⟨pre, fuel', rpos', -, hlog⟩ :=
    @pieceLog_from env j fuel t rpos sectors hlt hfuel
  obtain ⟨c, post, hevents, hcall⟩ :=
    pieceEvents_call hgo rpos' (min (sectors - 2 * j) cdvdmanBufSectors)
  rw [pieceLog_succ (by omega), hevents] at hlog
  obtain ⟨rest, hlog⟩ : ∃ rest,
      pieceLog env fuel t rpos sectors =
        pre ++ (brkEvents (env (t + j)).breakStart ++
          (brkEvents (env (t + j)).breakBetween ++ c :: post) ++ rest) :=
    ⟨_, hlog⟩
  rcases hbreak with hstart | hbetween
  · refine
      ⟨pre, .brk, brkEvents (env (t + j)).breakBetween, c, post ++ rest, ?_, trivial,
        hcall⟩
    simp [hlog, hstart, brkEvents]
  · refine
      ⟨pre ++ brkEvents (env (t + j)).breakStart, .brk, [], c, post ++ rest, ?_,
        trivial, hcall⟩
    simp [hlog, hbetween, brkEvents]

/-- A disturbed piece that a device call follows shows in the log. -/
theorem pieceLog_call_after_bad
    {j fuel t rpos sectors : Nat}
    (hlt : 2 * (j + 1) < sectors)
    (hfuel : sectors ≤ fuel)
    (hdist : (env (t + j)).Disturbed)
    (hgo : (env (t + (j + 1))).breakBefore = false) :
    ∃ pre e mid c post,
      pieceLog env fuel t rpos sectors = pre ++ e :: (mid ++ c :: post) ∧
        e.Bad ∧ c.IsCall := by
  obtain ⟨pre, fuel', rpos', hle, hlog⟩ :=
    @pieceLog_from env j fuel t rpos sectors (by omega) hfuel
  obtain ⟨fuel'', rfl⟩ : ∃ k, fuel' = k + 1 := ⟨fuel' - 1, by omega⟩
  obtain ⟨before, e, after, hevents, hbad⟩ :=
    pieceEvents_of_disturbed hdist rpos' (min (sectors - 2 * j) cdvdmanBufSectors)
  have hleft : 0 < sectors - 2 * j - min (sectors - 2 * j) cdvdmanBufSectors := by
    unfold cdvdmanBufSectors
    omega
  obtain ⟨c, post, hnext, hcall⟩ :=
    pieceEvents_call hgo (u32 (rpos' + min (sectors - 2 * j) cdvdmanBufSectors))
      (min (sectors - 2 * j - min (sectors - 2 * j) cdvdmanBufSectors)
        cdvdmanBufSectors)
  rw [pieceLog_succ (by omega), pieceLog_succ hleft, Nat.add_assoc, hnext,
    hevents] at hlog
  obtain ⟨rest, hlog⟩ : ∃ rest,
      pieceLog env fuel t rpos sectors =
        pre ++ (before ++ e :: after ++
          (brkEvents (env (t + (j + 1))).breakStart ++
            (brkEvents (env (t + (j + 1))).breakBetween ++ c :: post) ++ rest)) :=
    ⟨_, hlog⟩
  refine
    ⟨pre ++ before, e,
      after ++ (brkEvents (env (t + (j + 1))).breakStart ++
        brkEvents (env (t + (j + 1))).breakBetween), c, post ++ rest, ?_, hbad, hcall⟩
  simp [hlog]

end Chains

section Errors

variable
  (cfg : Settings)
  (image : Nat → UInt8)
  (env : Nat → DeviceTurn)
  (cdvdmanBuf : Nat)

/-- A request for no sectors. -/
theorem cdvdmanRead_none
    (lsn buf : Nat) (s : DriveState) :
    (cdvdmanRead cfg image env cdvdmanBuf lsn 0 buf s).mem = s.mem ∧
    ((cdvdmanRead cfg image env cdvdmanBuf lsn 0 buf s).err =
      if (env 0).breakBefore then cdvdErrAbrt
      else if buf % 4 = 0 then cdvdErrNo else s.err) ∧
    (cdvdmanRead cfg image env cdvdmanBuf lsn 0 buf s).events =
      brkEvents (decide (buf % 4 = 0) && (env 0).breakStart) ++
        brkEvents (env 0).breakBefore := by
  by_cases hbuf : buf % 4 = 0
  · simp [cdvdmanRead, hbuf, cdvdmanReadSectors, cdvdmanReadLoop, breakIf_err,
      breakIf_events]
  · simp [cdvdmanRead, hbuf, cdvdmanReadUnaligned, breakIf_err, breakIf_events,
      brkEvents]

/-- An aligned request is one `cdvdman_read_sectors`. -/
theorem cdvdmanRead_aligned
    {sectors buf : Nat}
    (hpos : 0 < sectors)
    (hbuf : buf % 4 = 0)
    (lsn : Nat) (s : DriveState) :
    cdvdmanRead cfg image env cdvdmanBuf lsn sectors buf s =
      { cdvdmanReadSectors cfg image env lsn sectors buf
          { s with status := cdvdStatRead, turn := 0, events := [] } with
        readPos := 0, status := cdvdStatPause } := by
  have hsome : (sectors == 0) = false := beq_eq_false_iff_ne.mpr (by omega)
  simp [cdvdmanRead, hbuf, hsome, breakIf]

/-- The state in which the loop of an aligned request begins. -/
def alignedStart (env : Nat → DeviceTurn) (s : DriveState) : DriveState :=
  cleared (env 0).breakStart { s with status := cdvdStatRead, turn := 0, events := [] }

@[simp] theorem alignedStart_turn (s : DriveState) : (alignedStart env s).turn = 0 :=
  cleared_turn _ _

theorem alignedStart_events (s : DriveState) :
    (alignedStart env s).events = brkEvents (env 0).breakStart :=
  cleared_events _ _

/-- The log and the error cell of an aligned request are those of its loop. -/
theorem cdvdmanRead_aligned_log
    {sectors buf : Nat}
    (hpos : 0 < sectors)
    (hbuf : buf % 4 = 0)
    (lsn : Nat) (s : DriveState) :
    (cdvdmanRead cfg image env cdvdmanBuf lsn sectors buf s).err =
        (cdvdmanReadLoop cfg image env sectors lsn buf sectors (alignedStart env s)).err ∧
      (cdvdmanRead cfg image env cdvdmanBuf lsn sectors buf s).events =
        (cdvdmanReadLoop cfg image env sectors lsn buf sectors
          (alignedStart env s)).events := by
  rw [cdvdmanRead_aligned cfg image env cdvdmanBuf hpos hbuf]
  exact ⟨rfl, rfl⟩

/-- The log and the error cell of an unaligned request are those of its pieces.
-/
theorem cdvdmanRead_unaligned
    {sectors buf : Nat}
    (hpos : 0 < sectors)
    (hbuf : buf % 4 ≠ 0)
    (lsn : Nat) (s : DriveState) :
    (cdvdmanRead cfg image env cdvdmanBuf lsn sectors buf s).events =
      pieceLog env sectors 0 lsn sectors ∧
    (cdvdmanRead cfg image env cdvdmanBuf lsn sectors buf s).err =
      pieceErr (env ((sectors - 1) / 2)) := by
  have hsome : (sectors == 0) = false := beq_eq_false_iff_ne.mpr (by omega)
  simp only [cdvdmanRead, if_pos hbuf, hsome, Bool.false_and, breakIf,
    Bool.false_eq_true, if_false]
  constructor
  · rw [cdvdmanReadUnaligned_events]
    rfl
  · rw [cdvdmanReadUnaligned_err _ _ _ _ _ hpos le_rfl, Nat.zero_add]

/-- A request for no sectors is sticky when it clears no break, and, unless the
buffer is aligned, finds no error. -/
theorem cdvdmanRead_none_sticky
    (lsn buf : Nat) (s : DriveState) :
    Sticky (cdvdmanRead cfg image env cdvdmanBuf lsn 0 buf s) ↔
      (env 0).breakBefore = true ∨
        (if buf % 4 = 0 then (env 0).breakStart = false else s.err = cdvdErrNo) := by
  obtain ⟨-, herr, hevents⟩ := cdvdmanRead_none cfg image env cdvdmanBuf lsn buf s
  cases hbefore : (env 0).breakBefore with
  | true =>
      rw [hbefore, if_pos rfl] at herr
      rw [hbefore] at hevents
      refine iff_of_true ⟨fun _ => ?_, ?_, ?_⟩ (Or.inl rfl)
      · rw [herr]
        exact cdvdErrAbrt_ne
      · intro pre e post hsplit hbad e' he'
        have hmem : e' ∈ brkEvents (decide (buf % 4 = 0) && (env 0).breakStart) ++
            brkEvents true := by
          rw [← hevents, hsplit]
          exact List.mem_append_right _ (List.mem_cons_of_mem _ he')
        rcases List.mem_append.mp hmem with h | h
        · exact brkEvents_not_call _ e' h
        · exact brkEvents_not_call _ e' h
      · intro hnone
        exact absurd trivial (hnone .brk (by simp [hevents, brkEvents]))
  | false =>
      rw [hbefore, if_neg Bool.false_ne_true] at herr
      rw [hbefore] at hevents
      simp only [Bool.false_eq_true, false_or]
      by_cases hbuf : buf % 4 = 0
      · rw [if_pos hbuf] at herr ⊢
        cases hstart : (env 0).breakStart with
        | true =>
            refine iff_of_false (fun h => h.kept ⟨.brk, ?_, trivial⟩ herr) (by simp)
            simp [hevents, hbuf, hstart, brkEvents]
        | false =>
            refine iff_of_true (Settled.sticky (Or.inl ⟨herr, ?_⟩)) rfl
            simp [hevents, hstart, brkEvents, Quiet]
      · rw [if_neg hbuf] at herr ⊢
        have hnone : Quiet (cdvdmanRead cfg image env cdvdmanBuf lsn 0 buf s).events := by
          simp [hevents, hbuf, brkEvents, Quiet]
        rw [← herr]
        exact ⟨fun h => h.clean hnone, fun h => Settled.sticky (Or.inl ⟨h, hnone⟩)⟩

/-- An aligned request is sticky when its first turn clears no break, and no break
comes right before a device call. -/
theorem cdvdmanRead_aligned_sticky
    {sectors buf : Nat}
    (hpos : 0 < sectors)
    (hbuf : buf % 4 = 0)
    (lsn : Nat) (s : DriveState) :
    Sticky (cdvdmanRead cfg image env cdvdmanBuf lsn sectors buf s) ↔
      ((env 0).breakStart = true → (env 0).breakBefore = true) ∧
        CallsUnbroken env 0 (turnsOf cfg sectors) := by
  obtain ⟨herr, hevents⟩ :=
    cdvdmanRead_aligned_log cfg image env cdvdmanBuf hpos hbuf lsn s
  obtain ⟨t, ht⟩ : ∃ t : DriveState, t = alignedStart env s := ⟨_, rfl⟩
  have hturn : t.turn = 0 := ht ▸ alignedStart_turn env s
  have hclear : t.err = cdvdErrNo := ht ▸ rfl
  have hlog : t.events = brkEvents (env 0).breakStart := ht ▸ alignedStart_events env s
  rw [sticky_congr herr hevents, ← ht]
  obtain ⟨fuel, rfl⟩ : ∃ k, sectors = k + 1 := ⟨sectors - 1, by omega⟩
  cases hstart : (env 0).breakStart with
  | false =>
      have hquiet : Settled t.err t.events := by
        rw [hlog, hstart]
        exact Or.inl ⟨hclear, by simp [brkEvents, Quiet]⟩
      simp only [Bool.false_eq_true, false_implies, true_and]
      constructor
      · intro h
        by_contra hbroken
        obtain ⟨pre, c, post, hend, hcall⟩ :=
          @cdvdmanReadLoop_call_after_break cfg image env (fuel + 1) lsn buf (fuel + 1) t
            hclear le_rfl (by rwa [hturn])
        exact @not_sticky_of_call_after_bad _ pre [] post .brk c hend trivial hcall h
      · intro hcalls
        exact (cdvdmanReadLoop_settled _ _ _ _ _ hquiet (by rwa [hturn])).sticky
  | true =>
      rw [hstart] at hlog
      cases hbefore : (env 0).breakBefore with
      | true =>
          refine iff_of_true ?_ ⟨fun _ => rfl, ?_⟩
          · have hone : Stopped cdvdErrAbrt ([] ++ [ReadEvent.brk]) :=
              Quiet.stopped_append (by simp [Quiet]) trivial cdvdErrAbrt_ne
            refine Settled.sticky (Or.inr ?_)
            rw [cdvdmanReadLoop_turn hclear hpos, hturn, hbefore, if_pos rfl]
            show Stopped cdvdErrAbrt (t.events ++ [.brk])
            rw [hlog]
            exact hone.append_brk cdvdErrAbrt_ne
          · intro i _ hfirst hbetween
            cases i with
            | zero => exact hbefore
            | succ i =>
                exact absurd (Or.inl (by simpa using hbefore)) (hfirst 0 (by omega))
      | false =>
          obtain ⟨c, post, hend, hcall⟩ :=
            @cdvdmanReadLoop_call cfg image env fuel lsn buf (fuel + 1) t hclear hpos
              (by rwa [hturn])
          rw [hlog] at hend
          have hlost := @not_sticky_of_call_after_bad _ [] _ post .brk c hend trivial hcall
          exact iff_of_false hlost (fun h => Bool.false_ne_true (h.1 rfl))

/-- A request keeps its errors, whatever the state before it, if and only if the
breaks and the failures come where `KeepsErrors` says. -/
theorem cdvdmanRead_sticky_iff
    (lsn sectors buf : Nat) (s : DriveState) :
    Sticky (cdvdmanRead cfg image env cdvdmanBuf lsn sectors buf s) ↔
      KeepsErrors cfg env s.err sectors buf := by
  unfold KeepsErrors
  by_cases hzero : sectors = 0
  · subst hzero
    rw [if_pos rfl]
    exact cdvdmanRead_none_sticky cfg image env cdvdmanBuf lsn buf s
  have hpos : 0 < sectors := Nat.pos_of_ne_zero hzero
  rw [if_neg hzero]
  by_cases hbuf : buf % 4 = 0
  · rw [if_pos hbuf]
    exact cdvdmanRead_aligned_sticky cfg image env cdvdmanBuf hpos hbuf lsn s
  rw [if_neg hbuf]
  obtain ⟨hevents, herr⟩ :=
    cdvdmanRead_unaligned cfg image env cdvdmanBuf hpos hbuf lsn s
  constructor
  · intro h j hj
    by_contra hbroken
    obtain ⟨hgo, hcalls⟩ := not_or.mp hbroken
    rw [Bool.not_eq_true] at hgo
    have hlost : ∃ pre e mid c post,
        pieceLog env sectors 0 lsn sectors = pre ++ e :: (mid ++ c :: post) ∧
          e.Bad ∧ c.IsCall := by
      by_cases hbreak :
          (env (0 + j)).breakStart = true ∨ (env (0 + j)).breakBetween = true
      · exact pieceLog_call_after_break hj le_rfl hgo hbreak
      · simp only [not_or, Bool.not_eq_true] at hbreak
        have hprev : ¬ ∀ i, i + 1 = j → ¬ (env (0 + i)).Disturbed :=
          fun hprev => hcalls ⟨hbreak.1, hbreak.2, hprev⟩
        push Not at hprev
        obtain ⟨i, rfl, hdist⟩ := hprev
        exact pieceLog_call_after_bad hj le_rfl hdist hgo
    obtain ⟨pre, e, mid, c, post, hlog, hbad, hcall⟩ := hlost
    exact not_sticky_of_call_after_bad (hevents.trans hlog) hbad hcall h
  · intro hpieces
    apply Settled.sticky
    have hnone : Clean cdvdErrNo [] := ⟨rfl, by simp [Quiet]⟩
    have hsettled :=
      pieceLog_settled sectors 0 lsn sectors cdvdErrNo [] hpieces (Or.inl hnone)
        (Or.inr hnone) hpos le_rfl
    rw [Nat.zero_add, List.nil_append] at hsettled
    rwa [hevents, herr]

/-- Turns without failures and breaks. -/
def quietTurns : Nat → DeviceTurn :=
  fun _ => ⟨false, false, false, false, false, fun _ => 0⟩

theorem quietTurns_undisturbed (t : Nat) : ¬ (quietTurns t).Disturbed := by
  simp [quietTurns, DeviceTurn.Disturbed]

/-- Turns of which only turn `k` fails. -/
def failsOnlyAt (k : Nat) : Nat → DeviceTurn :=
  fun t => { quietTurns t with fails := t == k }

/-- A drive at rest with empty memory. -/
def restingDrive : DriveState :=
  ⟨cdvdErrNo, cdvdStatPause, 0, fun _ => 0, 0, []⟩

/-- Turns of which turn 0 has a break before the error is cleared. -/
def breaksAtStart : Nat → DeviceTurn :=
  fun t => { quietTurns t with breakStart := t == 0 }

/-- Turns of which turn 0 has a break right before its device call. -/
def breaksBeforeCall : Nat → DeviceTurn :=
  fun t => { quietTurns t with breakBetween := t == 0 }

/-- Three sectors to an unaligned buffer whose first device call fails: the
request goes on and ends without an error.  One sector to an aligned buffer: a
break at its start is lost, and one right before the device call does not stop
the call. -/
theorem cdvdmanRead_loses_error :
    ((cdvdmanRead ⟨0, 0⟩ (fun _ => 0) (failsOnlyAt 0) 0x1000 100 3 0x2002
        restingDrive).events =
          [.call 100 2 false, .call 102 1 true] ∧
      (cdvdmanRead ⟨0, 0⟩ (fun _ => 0) (failsOnlyAt 0) 0x1000 100 3 0x2002
        restingDrive).err = cdvdErrNo ∧
      ¬ Sticky
        (cdvdmanRead ⟨0, 0⟩ (fun _ => 0) (failsOnlyAt 0) 0x1000 100 3 0x2002
          restingDrive)) ∧
    ((cdvdmanRead ⟨0, 0⟩ (fun _ => 0) breaksAtStart 0x1000 100 1 0x2000
        restingDrive).events =
          [.brk, .call 100 1 true] ∧
      (cdvdmanRead ⟨0, 0⟩ (fun _ => 0) breaksAtStart 0x1000 100 1 0x2000
        restingDrive).err = cdvdErrNo ∧
      ¬ Sticky
        (cdvdmanRead ⟨0, 0⟩ (fun _ => 0) breaksAtStart 0x1000 100 1 0x2000
          restingDrive)) ∧
    (cdvdmanRead ⟨0, 0⟩ (fun _ => 0) breaksBeforeCall 0x1000 100 1 0x2000
        restingDrive).events =
          [.brk, .call 100 1 true] ∧
      ¬ Sticky
        (cdvdmanRead ⟨0, 0⟩ (fun _ => 0) breaksBeforeCall 0x1000 100 1 0x2000
          restingDrive) := by
  refine ⟨⟨rfl, rfl, ?_⟩, ⟨rfl, rfl, ?_⟩, rfl, ?_⟩
  · intro h
    exact h.kept ⟨.call 100 2 false, List.mem_cons_self, rfl⟩ rfl
  · intro h
    exact h.kept ⟨.brk, List.mem_cons_self, trivial⟩ rfl
  · exact @not_sticky_of_call_after_bad _ [] [] [] .brk (.call 100 1 true) rfl trivial
      trivial

end Errors

section Delivery

variable
  {cfg : Settings}
  {image : Nat → UInt8}
  {env : Nat → DeviceTurn}

/-- The bytes of the sectors from `lsn` on. -/
def sectorBytes (image : Nat → UInt8) (lsn : Nat) : Nat → UInt8 :=
  fun i => image (2048 * lsn + i)

/-- What the decryptor makes of a byte when `logo[0]` is `key`. -/
def decode (key b : UInt8) : UInt8 :=
  if key = 0 then b else logoByte key b

/-- The key for a chunk that begins with sector `start`: its first byte, or none behind
the logo. -/
def keyAt (image : Nat → UInt8) (start : Nat) : UInt8 :=
  if start < 13 then image (2048 * start) else 0

/-- The bytes of the sectors from `lsn` on, read in chunks of `w` sectors. -/
def chunkBytes (image : Nat → UInt8) (w lsn : Nat) : Nat → UInt8 :=
  fun i =>
    decode (keyAt image (lsn + i / 2048 / w * w)) (image (2048 * lsn + i))

/-- The sectors of a chunk of `cdvdman_read`: two through `cdvdman_buf`, 8 with
`ACCU_READS`, and otherwise all. -/
def chunkWidth (cfg : Settings) (sectors buf : Nat) : Nat :=
  if buf % 4 ≠ 0 then cdvdmanBufSectors
  else if cfg.has iopcoreCompatAccuReads then 8 else sectors

theorem deliveredBytes_eq (image : Nat → UInt8) (lsn : Nat) :
    deliveredBytes image lsn =
      fun i => decode (keyAt image lsn) (image (2048 * lsn + i)) := by
  funext i
  simp only [deliveredBytes, logoDecrypt, keyAt, decode, Nat.add_zero]
  split_ifs with hlogo hkey
  · rfl
  · rfl
  · rfl
  · contradiction

/-- The first chunk. -/
theorem chunkBytes_first
    {w i : Nat}
    (image : Nat → UInt8) (lsn : Nat)
    (hi : i < 2048 * w) :
    chunkBytes image w lsn i = deliveredBytes image lsn i := by
  have hzero : i / 2048 / w = 0 := Nat.div_eq_of_lt (by omega)
  rw [deliveredBytes_eq, chunkBytes, hzero, Nat.zero_mul, Nat.add_zero]

/-- The other chunks. -/
theorem chunkBytes_add
    {w : Nat}
    (hw : 0 < w)
    (image : Nat → UInt8) (lsn : Nat) :
    chunkBytes image w (lsn + w) = fun i => chunkBytes image w lsn (2048 * w + i) := by
  funext i
  have hsector : (2048 * w + i) / 2048 = w + i / 2048 := by
    omega
  have hchunk : (w + i / 2048) / w * w = w + i / 2048 / w * w := by
    rw [Nat.add_div_left _ hw, Nat.succ_mul, Nat.add_comm]
  have hstart :
      lsn + w + i / 2048 / w * w = lsn + (2048 * w + i) / 2048 / w * w := by
    rw [hsector, hchunk, Nat.add_assoc]
  have hbyte : 2048 * (lsn + w) + i = 2048 * lsn + (2048 * w + i) := by
    omega
  simp only [chunkBytes]
  rw [hstart, hbyte]

/-- Behind the logo the chunks make no difference. -/
theorem chunkBytes_behind
    {lsn : Nat}
    (image : Nat → UInt8) (w : Nat)
    (hlogo : 13 ≤ lsn) :
    chunkBytes image w lsn = sectorBytes image lsn := by
  funext i
  rw [chunkBytes, keyAt, if_neg (by omega), decode, if_pos rfl]
  rfl

/-- A chunk is stored, and the rest behind it. -/
theorem writeRange_chunk
    {w n remaining : Nat}
    (m : Nat → UInt8) (lsn ptr : Nat)
    (hn : n ≤ w)
    (hle : n ≤ remaining)
    (hfull : n = w ∨ n = remaining)
    (hw : 0 < w) :
    writeRange (writeRange m ptr (2048 * n) (deliveredBytes image lsn)) (ptr + 2048 * n)
        (2048 * (remaining - n)) (chunkBytes image w (lsn + n)) =
      writeRange m ptr (2048 * remaining) (chunkBytes image w lsn) := by
  have hfirst :
      writeRange m ptr (2048 * n) (deliveredBytes image lsn) =
        writeRange m ptr (2048 * n) (chunkBytes image w lsn) := by
    refine writeRange_congr _ _ _ ?_
    intro i hi
    exact (chunkBytes_first image lsn (by omega)).symm
  rw [hfirst]
  rcases Nat.eq_or_lt_of_le hle with hall | hmore
  · rw [hall, Nat.sub_self, Nat.mul_zero, writeRange_zero]
  · have hwide : n = w := hfull.resolve_right (by omega)
    have hwhole : 2048 * n + 2048 * (remaining - n) = 2048 * remaining := by
      omega
    subst hwide
    rw [chunkBytes_add hw, writeRange_adjacent, hwhole]

/-- A loop without disturbance stores the sectors in chunks and ends without an error. -/
theorem cdvdmanReadLoop_chunks
    (henv : ∀ t, ¬ (env t).Disturbed)
    {w : Nat}
    (hw : 0 < w) :
    ∀ (fuel lsn ptr remaining : Nat) (s : DriveState),
      s.err = cdvdErrNo → remaining ≤ fuel → lsn + remaining ≤ 4294967296 →
      (cfg.has iopcoreCompatAccuReads = true ∧ w = 8 ∨
        cfg.has iopcoreCompatAccuReads = false ∧ remaining ≤ w) →
      (cdvdmanReadLoop cfg image env fuel lsn ptr remaining s).err =
          cdvdErrNo ∧
        (cdvdmanReadLoop cfg image env fuel lsn ptr remaining s).mem =
          writeRange s.mem ptr (2048 * remaining) (chunkBytes image w lsn) := by
  intro fuel
  induction fuel with
  | zero =>
      intro lsn ptr remaining s herr hfuel _ _
      have hzero : remaining = 0 := by
        omega
      subst hzero
      exact ⟨herr, by simp [cdvdmanReadLoop]⟩
  | succ fuel ih =>
      intro lsn ptr remaining s herr hfuel hlsn hwidth
      rcases Nat.eq_zero_or_pos remaining with rfl | hpos
      · rw [cdvdmanReadLoop_zero]
        exact ⟨herr, by simp⟩
      have hn : 0 < sectorsToRead cfg remaining := sectorsToRead_pos hpos
      have hle : sectorsToRead cfg remaining ≤ remaining := sectorsToRead_le _
      have hchunk :
          sectorsToRead cfg remaining ≤ w ∧
            (sectorsToRead cfg remaining = w ∨
              sectorsToRead cfg remaining = remaining) := by
        unfold sectorsToRead
        rcases hwidth with ⟨haccu, rfl⟩ | ⟨haccu, hall⟩
        · rw [if_pos haccu]
          omega
        · rw [haccu, if_neg (by decide)]
          exact ⟨hall, Or.inr rfl⟩
      have hturn := henv s.turn
      simp only [DeviceTurn.Disturbed, not_or, Bool.not_eq_true] at hturn
      obtain ⟨-, hbefore, hbetween, hfails, hafter⟩ := hturn
      simp only [cdvdmanReadLoop, if_pos hpos, hbefore, hbetween, hafter, hfails,
        breakIf, herr, Bool.false_eq_true, if_false, ne_eq, not_true_eq_false]
      rw [← writeRange_chunk s.mem lsn ptr hchunk.1 hle hchunk.2 hw]
      rcases Nat.eq_zero_or_pos (remaining - sectorsToRead cfg remaining) with
        hlast | hmore
      · rw [hlast, cdvdmanReadLoop_zero, Nat.mul_zero, writeRange_zero]
        exact ⟨rfl, rfl⟩
      · rw [u32_of_lt (by omega)]
        refine ih _ _ _ _ rfl (by omega) (by omega) ?_
        rcases hwidth with ⟨haccu, hw8⟩ | ⟨haccu, hall⟩
        · exact Or.inl ⟨haccu, hw8⟩
        · exact Or.inr ⟨haccu, by omega⟩

/-- A loop without disturbance stores the sectors and ends without an error. -/
theorem cdvdmanReadLoop_delivers
    (henv : ∀ t, ¬ (env t).Disturbed)
    (fuel lsn ptr remaining : Nat) (s : DriveState)
    (herr : s.err = cdvdErrNo)
    (hfuel : remaining ≤ fuel)
    (hlogo : 13 ≤ lsn)
    (hlsn : lsn + remaining ≤ 4294967296) :
    (cdvdmanReadLoop cfg image env fuel lsn ptr remaining s).err = cdvdErrNo ∧
      (cdvdmanReadLoop cfg image env fuel lsn ptr remaining s).mem =
        writeRange s.mem ptr (2048 * remaining) (sectorBytes image lsn) := by
  cases haccu : cfg.has iopcoreCompatAccuReads with
  | true =>
      rw [← chunkBytes_behind image 8 hlogo]
      exact cdvdmanReadLoop_chunks henv (by decide) _ _ _ _ _ herr hfuel hlsn
        (Or.inl ⟨haccu, rfl⟩)
  | false =>
      rw [← chunkBytes_behind image (remaining + 1) hlogo]
      exact cdvdmanReadLoop_chunks henv (Nat.succ_pos _) _ _ _ _ _ herr hfuel hlsn
        (Or.inr ⟨haccu, Nat.le_succ _⟩)

theorem cdvdmanReadSectors_undisturbed
    (henv : ∀ t, ¬ (env t).Disturbed)
    (lsn sectors buf : Nat) (s : DriveState) :
    cdvdmanReadSectors cfg image env lsn sectors buf s =
      cdvdmanReadLoop cfg image env sectors lsn buf sectors
        { s with err := cdvdErrNo } := by
  have hturn := henv s.turn
  simp only [DeviceTurn.Disturbed, not_or, Bool.not_eq_true] at hturn
  simp [cdvdmanReadSectors, hturn.1, breakIf]

/-- The double-copy loop without disturbance: outside `cdvdman_buf` it does
what aligned reads of two sectors do. -/
theorem cdvdmanReadUnaligned_chunks
    {cdvdmanBuf : Nat}
    (henv : ∀ t, ¬ (env t).Disturbed) :
    ∀ (fuel lsn sectors buf : Nat) (s : DriveState),
      sectors ≤ fuel → lsn + sectors ≤ 4294967296 →
      (buf + 2048 * sectors ≤ cdvdmanBuf ∨ cdvdmanBuf + 4096 ≤ buf) →
      ∀ x, (x < cdvdmanBuf ∨ cdvdmanBuf + 4096 ≤ x) →
        (cdvdmanReadUnaligned cfg image env cdvdmanBuf
          fuel lsn sectors buf s).mem x =
          writeRange s.mem buf (2048 * sectors)
            (chunkBytes image cdvdmanBufSectors lsn) x := by
  intro fuel
  induction fuel with
  | zero =>
      intro lsn sectors buf s hfuel _ _ x _
      have hzero : sectors = 0 := by
        omega
      subst hzero
      simp
  | succ fuel ih =>
      intro lsn sectors buf s hfuel hlsn hapart x hx
      rcases Nat.eq_zero_or_pos sectors with rfl | hpos
      · simp
      obtain ⟨n, hn⟩ : ∃ n, n = min sectors cdvdmanBufSectors := ⟨_, rfl⟩
      have hle : n ≤ sectors := hn ▸ min_le_left _ _
      have htwo : n ≤ cdvdmanBufSectors := hn ▸ min_le_right _ _
      have hnpos : 0 < n := hn ▸ lt_min hpos (by decide)
      have hbytes : 2048 * n ≤ 4096 := Nat.mul_le_mul_left 2048 htwo
      have hpiece :
          (cdvdmanReadSectors cfg image env lsn n cdvdmanBuf s).mem =
            writeRange s.mem cdvdmanBuf (2048 * n) (deliveredBytes image lsn) := by
        have height : n ≤ 8 := le_trans htwo (by decide)
        have hwidth :
            cfg.has iopcoreCompatAccuReads = true ∧ 8 = 8 ∨
              cfg.has iopcoreCompatAccuReads = false ∧ n ≤ 8 := by
          cases cfg.has iopcoreCompatAccuReads with
          | true => exact Or.inl ⟨rfl, rfl⟩
          | false => exact Or.inr ⟨rfl, height⟩
        have hone :=
          (@cdvdmanReadLoop_chunks cfg image env henv 8 (by decide) n lsn cdvdmanBuf n
            { s with err := cdvdErrNo } rfl le_rfl (by omega) hwidth).2
        rw [cdvdmanReadSectors_undisturbed henv]
        refine hone.trans (writeRange_congr _ _ _ ?_)
        intro i hi
        exact chunkBytes_first image lsn (by omega)
      -- outside `cdvdman_buf` the copy leaves the sectors at `buf`
      have hcopy : ∀ y, (y < cdvdmanBuf ∨ cdvdmanBuf + 4096 ≤ y) →
          memcpy buf cdvdmanBuf (2048 * n)
              (cdvdmanReadSectors cfg image env lsn n cdvdmanBuf s).mem y =
            writeRange s.mem buf (2048 * n) (deliveredBytes image lsn) y := by
        intro y hy
        rw [hpiece]
        unfold memcpy
        by_cases hin : buf ≤ y ∧ y < buf + 2048 * n
        · obtain ⟨i, rfl⟩ : ∃ i, y = buf + i := ⟨y - buf, by omega⟩
          rw [writeRange_inside _ _ _ (by omega),
            writeRange_inside _ _ _ (by omega),
            writeRange_inside _ _ _ (by omega)]
        · rw [writeRange_outside _ _ (by omega),
            writeRange_outside _ _ (by omega),
            writeRange_outside _ _ (by omega)]
      simp only [cdvdmanReadUnaligned, if_pos hpos, ← hn]
      rw [← writeRange_chunk s.mem lsn buf htwo hle (by omega) (by decide)]
      rcases Nat.eq_zero_or_pos (sectors - n) with hlast | hmore
      · rw [hlast, cdvdmanReadUnaligned_zero, Nat.mul_zero, writeRange_zero]
        exact hcopy x hx
      · rw [u32_of_lt (by omega)]
        rw [ih (lsn + n) (sectors - n)
          (buf + 2048 * n) _ (by omega) (by omega) (by omega) x hx]
        by_cases hin :
            buf + 2048 * n ≤ x ∧ x < buf + 2048 * n + 2048 * (sectors - n)
        · simp [writeRange, hin]
        · rw [writeRange_outside _ _ (by omega),
            writeRange_outside _ _ (by omega)]
          exact hcopy x hx

/-- A request without disturbance stores its chunks at its buffer, and changes nothing
else outside `cdvdman_buf`, which it uses for an unaligned buffer only. -/
theorem cdvdmanRead_chunks
    {cdvdmanBuf lsn sectors buf : Nat} {s : DriveState}
    (henv : ∀ t, ¬ (env t).Disturbed)
    (hlsn : lsn + sectors ≤ 4294967296)
    (hapart :
      buf % 4 ≠ 0 → buf + 2048 * sectors ≤ cdvdmanBuf ∨ cdvdmanBuf + 4096 ≤ buf)
    {x : Nat}
    (hx : buf % 4 ≠ 0 → x < cdvdmanBuf ∨ cdvdmanBuf + 4096 ≤ x) :
    (cdvdmanRead cfg image env cdvdmanBuf lsn sectors buf s).mem x =
      writeRange s.mem buf (2048 * sectors)
        (chunkBytes image (chunkWidth cfg sectors buf) lsn) x := by
  rcases Nat.eq_zero_or_pos sectors with rfl | hpos
  · rw [(cdvdmanRead_none cfg image env cdvdmanBuf lsn buf s).1, Nat.mul_zero,
      writeRange_zero]
  unfold chunkWidth
  by_cases hbuf : buf % 4 ≠ 0
  · have hsome : (sectors == 0) = false := beq_eq_false_iff_ne.mpr (by omega)
    simp only [cdvdmanRead, if_pos hbuf, hsome, Bool.false_and, breakIf,
      Bool.false_eq_true, if_false]
    exact cdvdmanReadUnaligned_chunks henv sectors lsn sectors buf _ le_rfl
      hlsn (hapart hbuf) x (hx hbuf)
  · rw [if_neg hbuf,
      cdvdmanRead_aligned cfg image env cdvdmanBuf hpos (not_not.mp hbuf),
      cdvdmanReadSectors_undisturbed henv]
    refine congrFun (cdvdmanReadLoop_chunks henv ?_ sectors lsn buf sectors
      { s with
        status := cdvdStatRead
        turn := 0
        events := []
        err := cdvdErrNo } rfl le_rfl hlsn ?_).2 x
    · split_ifs
      · decide
      · exact hpos
    · cases haccu : cfg.has iopcoreCompatAccuReads with
      | true => exact Or.inl ⟨rfl, rfl⟩
      | false => exact Or.inr ⟨rfl, le_rfl⟩

/-- A request without disturbance stores the sectors asked for at its buffer and
changes nothing else outside `cdvdman_buf`. -/
theorem cdvdmanRead_delivers
    {cdvdmanBuf lsn sectors buf : Nat} {s : DriveState}
    (henv : ∀ t, ¬ (env t).Disturbed)
    (hlogo : 13 ≤ lsn)
    (hlsn : lsn + sectors ≤ 4294967296)
    (hapart : buf + 2048 * sectors ≤ cdvdmanBuf ∨ cdvdmanBuf + 4096 ≤ buf)
    {x : Nat}
    (hx : x < cdvdmanBuf ∨ cdvdmanBuf + 4096 ≤ x) :
    (cdvdmanRead cfg image env cdvdmanBuf lsn sectors buf s).mem x =
      writeRange s.mem buf (2048 * sectors) (sectorBytes image lsn) x := by
  rw [← chunkBytes_behind image (chunkWidth cfg sectors buf) hlogo]
  exact cdvdmanRead_chunks henv hlsn (fun _ => hapart) (fun _ => hx)

/-- A request without disturbance ends without an error. -/
theorem cdvdmanRead_err
    {cdvdmanBuf lsn sectors buf : Nat} {s : DriveState}
    (henv : ∀ t, ¬ (env t).Disturbed)
    (hpos : 0 < sectors)
    (hlogo : 13 ≤ lsn)
    (hlsn : lsn + sectors ≤ 4294967296) :
    (cdvdmanRead cfg image env cdvdmanBuf lsn sectors buf s).err = cdvdErrNo := by
  by_cases hbuf : buf % 4 = 0
  · rw [cdvdmanRead_aligned cfg image env cdvdmanBuf hpos hbuf,
      cdvdmanReadSectors_undisturbed henv]
    exact (cdvdmanReadLoop_delivers henv _ _ _ _ _ rfl le_rfl hlogo hlsn).1
  · rw [(cdvdmanRead_unaligned cfg image env cdvdmanBuf hpos hbuf lsn s).2]
    exact (pieceEvents_of_undisturbed (henv _) 0 0).2

end Delivery

section Frame

variable
  {cfg : Settings}
  {image : Nat → UInt8}
  {env : Nat → DeviceTurn}

/-- The loop of `cdvdman_read_sectors` writes only the sectors asked for. -/
theorem cdvdmanReadLoop_frame
    {x : Nat} :
    ∀ (fuel lsn ptr remaining : Nat) (s : DriveState),
      (x < ptr ∨ ptr + 2048 * remaining ≤ x) →
      (cdvdmanReadLoop cfg image env fuel lsn ptr remaining s).mem x = s.mem x := by
  intro fuel
  induction fuel with
  | zero =>
      intro _ _ _ _ _
      rfl
  | succ fuel ih =>
      intro lsn ptr remaining s hx
      have hn : sectorsToRead cfg remaining ≤ remaining := sectorsToRead_le _
      unfold cdvdmanReadLoop
      split
      · dsimp only
        split
        · rw [breakIf_mem]
        · split
          · rw [breakIf_mem]
            dsimp only
            rw [writeRange_outside _ _ (by omega), breakIf_mem, breakIf_mem]
          · rw [ih _ _ _ _ (by omega), breakIf_mem]
            dsimp only
            rw [writeRange_outside _ _ (by omega), breakIf_mem, breakIf_mem]
      · rfl

theorem cdvdmanReadSectors_frame
    {lsn sectors buf x : Nat} (s : DriveState)
    (hx : x < buf ∨ buf + 2048 * sectors ≤ x) :
    (cdvdmanReadSectors cfg image env lsn sectors buf s).mem x = s.mem x := by
  rw [cdvdmanReadSectors_eq, cdvdmanReadLoop_frame sectors lsn buf sectors _ hx,
    cleared_mem]

/-- The double-copy loop writes only the sectors asked for and `cdvdman_buf`. -/
theorem cdvdmanReadUnaligned_frame
    {cdvdmanBuf x : Nat}
    (hx : x < cdvdmanBuf ∨ cdvdmanBuf + 4096 ≤ x) :
    ∀ (fuel rpos sectors buf : Nat) (s : DriveState),
      (x < buf ∨ buf + 2048 * sectors ≤ x) →
      (cdvdmanReadUnaligned cfg image env cdvdmanBuf fuel rpos sectors buf s).mem x =
        s.mem x := by
  intro fuel
  induction fuel with
  | zero =>
      intro _ _ _ _ _
      rfl
  | succ fuel ih =>
      intro rpos sectors buf s hout
      rcases Nat.eq_zero_or_pos sectors with hzero | hpos
      · rw [hzero, cdvdmanReadUnaligned_zero]
      · have hle : min sectors cdvdmanBufSectors ≤ sectors := min_le_left _ _
        have htwo : min sectors cdvdmanBufSectors ≤ 2 := min_le_right _ _
        simp only [cdvdmanReadUnaligned, if_pos hpos]
        rw [ih _ _ _ _ (by omega)]
        dsimp only
        rw [memcpy, writeRange_outside _ _ (by omega)]
        exact cdvdmanReadSectors_frame s (by omega)

/-- Whatever happens, a request writes only the sectors asked for and `cdvdman_buf`. -/
theorem cdvdmanRead_frame
    {cdvdmanBuf lsn sectors buf x : Nat} (s : DriveState)
    (hx : x < buf ∨ buf + 2048 * sectors ≤ x)
    (hown : x < cdvdmanBuf ∨ cdvdmanBuf + 4096 ≤ x) :
    (cdvdmanRead cfg image env cdvdmanBuf lsn sectors buf s).mem x = s.mem x := by
  simp only [cdvdmanRead, breakIf_mem]
  split_ifs
  · exact cdvdmanReadUnaligned_frame hown _ _ _ _ _ hx
  · exact cdvdmanReadSectors_frame _ hx

/-- One sector, whatever its number. -/
theorem cdvdmanReadSectors_one
    (henv : ∀ t, ¬ (env t).Disturbed)
    (lsn buf : Nat) (s : DriveState) :
    (cdvdmanReadSectors cfg image env lsn 1 buf s).mem =
      writeRange s.mem buf 2048 (deliveredBytes image lsn) := by
  have hturn := henv s.turn
  simp only [DeviceTurn.Disturbed, not_or, Bool.not_eq_true] at hturn
  obtain ⟨-, hbefore, hbetween, hfails, hafter⟩ := hturn
  have hone : sectorsToRead cfg 1 = 1 :=
    Nat.le_antisymm (sectorsToRead_le 1) (sectorsToRead_pos Nat.one_pos)
  rw [cdvdmanReadSectors_undisturbed henv]
  simp only [cdvdmanReadLoop, hbefore, hbetween, hfails, hafter, hone, breakIf]
  simp

end Frame

end Read
end Ps2Cdvd
