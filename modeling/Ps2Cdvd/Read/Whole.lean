import Ps2Cdvd.Read.Sectors

/-!
# What a read request has read

How many device calls a request makes is known before it: one; with `ACCU_READS` one for
every 8 sectors; and through `cdvdman_buf` one for every two sectors.  A request that is
accepted may end early, and with `CDVD_ERR_NO` although a call has failed; what it has
read are the sectors of the device calls that succeed.

* `cdvdmanRead_whole_iff`: a request has read all its sectors exactly when all of its
  device calls are made and succeed;
* `cdvdmanRead_abrt_iff`: when it ends with `CDVD_ERR_ABRT`.
-/

namespace Ps2Cdvd
namespace Read

open Lib

section Purpose

/-- The sectors that an event has read. -/
def ReadEvent.sectorsRead : ReadEvent → Nat
  | .call _ n ok => if ok then n else 0
  | .brk => 0

/-- The sectors that a request has read. -/
def sectorsRead (events : List ReadEvent) : Nat :=
  (events.map ReadEvent.sectorsRead).sum

/-- A break comes after the loop has checked for one: the turn makes its device call,
and the next turn none. -/
def DeviceTurn.BreaksOff (out : DeviceTurn) : Prop :=
  out.breakBetween = true ∨ out.breakAfter = true

/-- The turn leaves `CDVD_ERR_ABRT`: a break stops it, or comes last, or comes right
before a device call that succeeds. -/
def DeviceTurn.Aborts (out : DeviceTurn) : Prop :=
  out.breakBefore = true ∨ out.breakAfter = true ∨
    (out.breakBetween = true ∧ out.fails = false)

/-- `calls` device calls from turn `t` on are made and succeed. -/
def TurnsGo (env : Nat → DeviceTurn) (t calls : Nat) : Prop :=
  ∀ i, i < calls →
    (env (t + i)).breakBefore = false ∧ (env (t + i)).fails = false ∧
      (i + 1 < calls → ¬ (env (t + i)).BreaksOff)

/-- The first of the `calls` turns from turn `t` on that ends the loop leaves
`CDVD_ERR_ABRT`. -/
def TurnsBroken (env : Nat → DeviceTurn) (t calls : Nat) : Prop :=
  ∃ i, i < calls ∧ (env (t + i)).Aborts ∧ ∀ j, j < i → ¬ (env (t + j)).Ends

/-- Every device call of a request is made and succeeds.  A piece of two sectors is read
although the last one was broken. -/
def ReadsAll (cfg : Settings) (env : Nat → DeviceTurn) (sectors buf : Nat) : Prop :=
  if buf % 4 = 0 then TurnsGo env 0 (turnsOf cfg sectors)
  else
    ∀ i, 2 * i < sectors → (env i).breakBefore = false ∧ (env i).fails = false

/-- A break is what ends a request, or the last piece of it. -/
def EndsAborted (cfg : Settings) (env : Nat → DeviceTurn) (sectors buf : Nat) : Prop :=
  if buf % 4 = 0 then TurnsBroken env 0 (turnsOf cfg sectors)
  else (env ((sectors - 1) / 2)).Aborts

end Purpose

section Turns

variable {env : Nat → DeviceTurn} {t calls : Nat}

theorem turnsGo_zero : TurnsGo env t 0 := by
  intro i hi
  omega

theorem turnsGo_succ :
    TurnsGo env t (calls + 1) ↔
      (env t).breakBefore = false ∧ (env t).fails = false ∧
        (0 < calls → ¬ (env t).BreaksOff) ∧ TurnsGo env (t + 1) calls := by
  constructor
  · intro h
    obtain ⟨hbefore, hfails, hafter⟩ := h 0 (by omega)
    refine ⟨hbefore, hfails, fun hmore => hafter (by omega), ?_⟩
    intro i hi
    have hnext := h (i + 1) (by omega)
    rw [← Nat.add_assoc, Nat.add_right_comm] at hnext
    exact ⟨hnext.1, hnext.2.1, fun hmore => hnext.2.2 (by omega)⟩
  · rintro ⟨hbefore, hfails, hafter, hrest⟩ i hi
    cases i with
    | zero => exact ⟨hbefore, hfails, fun hmore => hafter (by omega)⟩
    | succ i =>
        have hnext := hrest i (by omega)
        rw [← Nat.add_assoc, Nat.add_right_comm]
        exact ⟨hnext.1, hnext.2.1, fun hmore => hnext.2.2 (by omega)⟩

theorem not_turnsBroken_zero : ¬ TurnsBroken env t 0 := by
  rintro ⟨i, hi, -⟩
  omega

theorem turnsBroken_succ :
    TurnsBroken env t (calls + 1) ↔
      (env t).Aborts ∨ (¬ (env t).Ends ∧ TurnsBroken env (t + 1) calls) := by
  constructor
  · rintro ⟨i, hi, hbreak, hfirst⟩
    cases i with
    | zero => exact Or.inl hbreak
    | succ i =>
        refine Or.inr ⟨hfirst 0 (by omega), i, by omega, ?_, ?_⟩
        · rw [Nat.add_right_comm, Nat.add_assoc]
          exact hbreak
        · intro j hj
          rw [Nat.add_right_comm, Nat.add_assoc]
          exact hfirst (j + 1) (by omega)
  · rintro (hbreak | ⟨hquiet, i, hi, hbreak, hfirst⟩)
    · refine ⟨0, by omega, hbreak, ?_⟩
      intro j hj
      omega
    · refine ⟨i + 1, by omega, ?_, ?_⟩
      · rw [← Nat.add_assoc, Nat.add_right_comm]
        exact hbreak
      · intro j hj
        cases j with
        | zero => exact hquiet
        | succ j =>
            rw [← Nat.add_assoc, Nat.add_right_comm]
            exact hfirst j (by omega)

end Turns

section Aligned

variable
  {cfg : Settings}
  {image : Nat → UInt8}
  {env : Nat → DeviceTurn}

theorem sectorsRead_append (events more : List ReadEvent) :
    sectorsRead (events ++ more) = sectorsRead events + sectorsRead more := by
  simp [sectorsRead]

theorem sectorsRead_call (lsn n : Nat) (ok : Bool) :
    sectorsRead [.call lsn n ok] = if ok then n else 0 := by
  simp [sectorsRead, ReadEvent.sectorsRead]

theorem sectorsRead_brkEvents (b : Bool) : sectorsRead (brkEvents b) = 0 := by
  cases b with
  | true => rfl
  | false => rfl

theorem sectorsRead_breakIf (b : Bool) (s : DriveState) :
    sectorsRead (breakIf b s).events = sectorsRead s.events := by
  rw [breakIf_events, sectorsRead_append, sectorsRead_brkEvents, Nat.add_zero]

/-- With an error the loop reads nothing more. -/
theorem cdvdmanReadLoop_stops
    {fuel lsn ptr remaining : Nat} {s : DriveState}
    (herr : s.err ≠ cdvdErrNo) :
    sectorsRead
        (cdvdmanReadLoop cfg image env fuel lsn ptr remaining s).events =
      sectorsRead s.events ∧
    (s.err = cdvdErrAbrt →
      (cdvdmanReadLoop cfg image env fuel lsn ptr remaining s).err = cdvdErrAbrt) := by
  rw [cdvdmanReadLoop_error herr]
  split_ifs
  · refine ⟨sectorsRead_breakIf _ _, ?_⟩
    intro habrt
    rw [breakIf_err]
    split_ifs
    · rfl
    · exact habrt
  · exact ⟨rfl, id⟩

/-- The state after the breaks and the device call of a turn that succeeds. -/
def afterTurn (image : Nat → UInt8) (out : DeviceTurn) (lsn ptr n : Nat)
    (s : DriveState) : DriveState :=
  breakIf out.breakAfter (afterCall image lsn ptr n (breakIf out.breakBetween s))

theorem afterTurn_turn
    (image : Nat → UInt8) (out : DeviceTurn) (lsn ptr n : Nat) (s : DriveState) :
    (afterTurn image out lsn ptr n s).turn = s.turn + 1 := by
  rw [afterTurn, breakIf_turn, afterCall, breakIf_turn]

theorem sectorsRead_afterTurn
    (image : Nat → UInt8) (out : DeviceTurn) (lsn ptr n : Nat) (s : DriveState) :
    sectorsRead (afterTurn image out lsn ptr n s).events = sectorsRead s.events + n := by
  rw [afterTurn, sectorsRead_breakIf, afterCall, sectorsRead_append,
    sectorsRead_breakIf, sectorsRead_call, if_pos rfl]

theorem afterTurn_broken
    {out : DeviceTurn}
    (h : out.BreaksOff)
    (image : Nat → UInt8) (lsn ptr n : Nat) (s : DriveState) :
    (afterTurn image out lsn ptr n s).err = cdvdErrAbrt := by
  rw [afterTurn, breakIf_err]
  split_ifs with hafter
  · rfl
  · rw [afterCall, breakIf_err, if_pos (h.resolve_right hafter)]

theorem afterTurn_unbroken
    {out : DeviceTurn}
    (h : ¬ out.BreaksOff)
    (image : Nat → UInt8) (lsn ptr n : Nat) (s : DriveState) :
    afterTurn image out lsn ptr n s = afterCall image lsn ptr n s := by
  simp only [DeviceTurn.BreaksOff, not_or, Bool.not_eq_true] at h
  rw [afterTurn, h.1, h.2]
  rfl

/-- The loop reads all its sectors exactly when its device calls go through, and never
more. -/
theorem cdvdmanReadLoop_whole :
    ∀ (fuel lsn ptr remaining : Nat) (s : DriveState),
      s.err = cdvdErrNo → remaining ≤ fuel →
      sectorsRead
          (cdvdmanReadLoop cfg image env fuel lsn ptr remaining s).events ≤
        sectorsRead s.events + remaining ∧
      (sectorsRead
          (cdvdmanReadLoop cfg image env fuel lsn ptr remaining s).events =
          sectorsRead s.events + remaining ↔
        TurnsGo env s.turn (turnsOf cfg remaining)) := by
  intro fuel
  induction fuel with
  | zero =>
      intro lsn ptr remaining s _ hfuel
      have hzero : remaining = 0 := by
        omega
      subst hzero
      rw [turnsOf_zero]
      exact ⟨le_rfl, iff_of_true rfl turnsGo_zero⟩
  | succ fuel ih =>
      intro lsn ptr remaining s herr hfuel
      rcases Nat.eq_zero_or_pos remaining with hzero | hpos
      · subst hzero
        rw [cdvdmanReadLoop_zero, turnsOf_zero]
        exact ⟨le_rfl, iff_of_true rfl turnsGo_zero⟩
      · have hn : 0 < sectorsToRead cfg remaining := sectorsToRead_pos hpos
        have hle : sectorsToRead cfg remaining ≤ remaining := sectorsToRead_le _
        have hturn := @cdvdmanReadLoop_turn cfg image env fuel lsn ptr remaining s
          herr hpos
        rw [turnsOf_succ hpos, turnsGo_succ, hturn]
        split_ifs with hbefore hfails
        · have hsame :
              sectorsRead (sceCdBreak { s with turn := s.turn + 1 }).events =
                sectorsRead s.events :=
            sectorsRead_breakIf true { s with turn := s.turn + 1 }
          rw [hsame]
          refine ⟨by omega, iff_of_false (by omega) ?_⟩
          rintro ⟨hgo, -⟩
          rw [hbefore] at hgo
          cases hgo
        · rw [sectorsRead_breakIf, afterFailure, sectorsRead_append,
            sectorsRead_breakIf, sectorsRead_call]
          refine ⟨by simp, iff_of_false (by simp; omega) ?_⟩
          rintro ⟨-, hgo, -⟩
          rw [hfails] at hgo
          cases hgo
        · have hmade :=
            sectorsRead_afterTurn image (env s.turn) lsn ptr
              (sectorsToRead cfg remaining) s
          by_cases hoff : (env s.turn).BreaksOff
          · have hbroken := afterTurn_broken hoff image lsn ptr
              (sectorsToRead cfg remaining) s
            have hstops :=
              (@cdvdmanReadLoop_stops cfg image env fuel
                (u32 (lsn + sectorsToRead cfg remaining))
                (ptr + 2048 * sectorsToRead cfg remaining)
                (remaining - sectorsToRead cfg remaining) _
                (hbroken.trans_ne cdvdErrAbrt_ne)).1
            rw [afterTurn] at hstops hmade
            rw [hstops, hmade]
            refine ⟨by omega, ?_⟩
            rcases Nat.eq_zero_or_pos
                (remaining - sectorsToRead cfg remaining) with hlast | hmore
            · rw [hlast, turnsOf_zero]
              refine iff_of_true (by omega) ⟨?_, ?_, ?_, turnsGo_zero⟩
              · simpa using hbefore
              · simpa using hfails
              · intro hfalse
                omega
            · refine iff_of_false (by omega) ?_
              rintro ⟨-, -, hgo, -⟩
              have hcalls := @turnsOf_succ cfg _ hmore
              exact hgo (by omega) hoff
          · have hrest := ih (u32 (lsn + sectorsToRead cfg remaining))
              (ptr + 2048 * sectorsToRead cfg remaining)
              (remaining - sectorsToRead cfg remaining)
              (afterTurn image (env s.turn) lsn ptr (sectorsToRead cfg remaining) s)
              (by rw [afterTurn_unbroken hoff]; exact herr)
              (by omega)
            rw [hmade, afterTurn_turn, afterTurn] at hrest
            obtain ⟨hbound, hall⟩ := hrest
            refine ⟨by omega, ?_⟩
            have hsum :
                sectorsRead s.events + sectorsToRead cfg remaining +
                    (remaining - sectorsToRead cfg remaining) =
                  sectorsRead s.events + remaining := by
              omega
            rw [hsum] at hall
            rw [hall]
            constructor
            · intro hgo
              exact ⟨by simpa using hbefore, by simpa using hfails, fun _ => hoff, hgo⟩
            · rintro ⟨-, -, -, hgo⟩
              exact hgo

/-- The loop ends with `CDVD_ERR_ABRT` exactly when the turn that ends it leaves that. -/
theorem cdvdmanReadLoop_abrt :
    ∀ (fuel lsn ptr remaining : Nat) (s : DriveState),
      s.err = cdvdErrNo → remaining ≤ fuel →
      ((cdvdmanReadLoop cfg image env fuel lsn ptr remaining s).err = cdvdErrAbrt ↔
        TurnsBroken env s.turn (turnsOf cfg remaining)) := by
  have hno : cdvdErrNo ≠ cdvdErrAbrt := cdvdErrAbrt_ne.symm
  intro fuel
  induction fuel with
  | zero =>
      intro lsn ptr remaining s herr hfuel
      have hzero : remaining = 0 := by
        omega
      subst hzero
      rw [turnsOf_zero]
      refine iff_of_false ?_ not_turnsBroken_zero
      show ¬ s.err = cdvdErrAbrt
      rw [herr]
      exact hno
  | succ fuel ih =>
      intro lsn ptr remaining s herr hfuel
      rcases Nat.eq_zero_or_pos remaining with hzero | hpos
      · subst hzero
        rw [cdvdmanReadLoop_zero, turnsOf_zero, herr]
        exact iff_of_false hno not_turnsBroken_zero
      · have hn : 0 < sectorsToRead cfg remaining := sectorsToRead_pos hpos
        have hturn := @cdvdmanReadLoop_turn cfg image env fuel lsn ptr remaining s
          herr hpos
        rw [turnsOf_succ hpos, turnsBroken_succ, hturn]
        split_ifs with hbefore hfails
        · exact iff_of_true rfl (Or.inl (Or.inl hbefore))
        · have hends : (env s.turn).Ends := Or.inr (Or.inr (Or.inl hfails))
          have hread : cdvdErrRead ≠ cdvdErrAbrt := by decide
          rw [breakIf_err]
          split_ifs with hafter
          · exact iff_of_true rfl (Or.inl (Or.inr (Or.inl hafter)))
          · refine iff_of_false hread ?_
            rintro ((h | h | ⟨-, h⟩) | ⟨h, -⟩)
            · exact hbefore h
            · exact hafter h
            · rw [hfails] at h
              cases h
            · exact h hends
        · by_cases hoff : (env s.turn).BreaksOff
          · have hbroken := afterTurn_broken hoff image lsn ptr
              (sectorsToRead cfg remaining) s
            have hstops :=
              (@cdvdmanReadLoop_stops cfg image env fuel
                (u32 (lsn + sectorsToRead cfg remaining))
                (ptr + 2048 * sectorsToRead cfg remaining)
                (remaining - sectorsToRead cfg remaining) _
                (hbroken.trans_ne cdvdErrAbrt_ne)).2 hbroken
            refine iff_of_true hstops (Or.inl (Or.inr ?_))
            rcases hoff with h | h
            · exact Or.inr ⟨h, by simpa using hfails⟩
            · exact Or.inl h
          · have hquiet : ¬ (env s.turn).Ends := by
              rintro (h | h | h | h)
              · exact hbefore h
              · exact hoff (Or.inl h)
              · exact hfails h
              · exact hoff (Or.inr h)
            have hrest := ih (u32 (lsn + sectorsToRead cfg remaining))
              (ptr + 2048 * sectorsToRead cfg remaining)
              (remaining - sectorsToRead cfg remaining)
              (afterCall image lsn ptr (sectorsToRead cfg remaining) s) herr
              (by omega)
            rw [← afterTurn_unbroken hoff] at hrest
            rw [afterTurn_turn, afterTurn] at hrest
            rw [hrest]
            constructor
            · intro hbreak
              exact Or.inr ⟨hquiet, hbreak⟩
            · rintro ((h | h | ⟨h, -⟩) | ⟨-, hbreak⟩)
              · exact absurd h hbefore
              · exact absurd (Or.inr h) hoff
              · exact absurd (Or.inl h) hoff
              · exact hbreak

end Aligned

section Requests

variable
  {cfg : Settings}
  {image : Nat → UInt8}
  {env : Nat → DeviceTurn}
  {cdvdmanBuf : Nat}

theorem readsAll_zero (cfg : Settings) (env : Nat → DeviceTurn) (buf : Nat) :
    ReadsAll cfg env 0 buf := by
  unfold ReadsAll
  split_ifs
  · rw [turnsOf_zero]
    exact turnsGo_zero
  · intro i hi
    omega

/-- A piece leaves `CDVD_ERR_ABRT` exactly when its turn does. -/
theorem pieceErr_abrt_iff (out : DeviceTurn) :
    pieceErr out = cdvdErrAbrt ↔ out.Aborts := by
  have hread : cdvdErrRead ≠ cdvdErrAbrt := by decide
  have hno : cdvdErrNo ≠ cdvdErrAbrt := by decide
  unfold pieceErr DeviceTurn.Aborts
  split_ifs with hbroken hfails hbetween
  · simp only [Bool.or_eq_true] at hbroken
    exact iff_of_true rfl (hbroken.imp_right Or.inl)
  · simp only [Bool.or_eq_true, not_or] at hbroken
    refine iff_of_false hread ?_
    simp [hbroken.1, hbroken.2, hfails]
  · exact iff_of_true rfl (Or.inr (Or.inr ⟨hbetween, by simpa using hfails⟩))
  · simp only [Bool.or_eq_true, not_or] at hbroken
    refine iff_of_false hno ?_
    simp [hbroken.1, hbroken.2, hbetween]

/-- A piece is read unless a break comes before its device call, or the call fails. -/
theorem sectorsRead_pieceEvents
    (out : DeviceTurn) (lsn n : Nat) :
    sectorsRead (pieceEvents out lsn n) =
      if out.breakBefore = false ∧ out.fails = false then n else 0 := by
  cases hbefore : out.breakBefore with
  | true =>
      rw [pieceEvents, if_pos hbefore, sectorsRead_append, sectorsRead_brkEvents]
      rfl
  | false =>
      rw [pieceEvents_of_go hbefore, ← List.singleton_append]
      simp only [sectorsRead_append, sectorsRead_brkEvents, sectorsRead_call,
        Nat.zero_add, Nat.add_zero]
      cases out.fails with
      | true => rfl
      | false => rfl

/-- The double-copy loop reads all its sectors exactly when every piece is read. -/
theorem pieceLog_whole :
    ∀ (fuel t rpos sectors : Nat),
      sectors ≤ fuel →
      sectorsRead (pieceLog env fuel t rpos sectors) ≤ sectors ∧
      (sectorsRead (pieceLog env fuel t rpos sectors) = sectors ↔
        ∀ i, 2 * i < sectors →
          (env (t + i)).breakBefore = false ∧ (env (t + i)).fails = false) := by
  intro fuel
  induction fuel with
  | zero =>
      intro t rpos sectors hfuel
      have hzero : sectors = 0 := by
        omega
      subst hzero
      refine ⟨le_rfl, iff_of_true rfl ?_⟩
      intro i hi
      omega
  | succ fuel ih =>
      intro t rpos sectors hfuel
      rcases Nat.eq_zero_or_pos sectors with hzero | hpos
      · subst hzero
        rw [pieceLog_zero]
        refine ⟨le_rfl, iff_of_true rfl ?_⟩
        intro i hi
        omega
      · have hn :
            min sectors cdvdmanBufSectors = 1 ∧ sectors = 1 ∨
              min sectors cdvdmanBufSectors = 2 ∧ 2 ≤ sectors := by
          unfold cdvdmanBufSectors
          omega
        obtain ⟨hbound, hall⟩ :=
          ih (t + 1) (u32 (rpos + min sectors cdvdmanBufSectors))
            (sectors - min sectors cdvdmanBufSectors) (by omega)
        rw [pieceLog_succ hpos, sectorsRead_append, sectorsRead_pieceEvents]
        by_cases hfirst :
            (env t).breakBefore = false ∧ (env t).fails = false
        · rw [if_pos hfirst]
          refine ⟨by omega, ?_⟩
          have hrest :
              min sectors cdvdmanBufSectors +
                    sectorsRead
                      (pieceLog env fuel (t + 1)
                        (u32 (rpos + min sectors cdvdmanBufSectors))
                        (sectors - min sectors cdvdmanBufSectors)) = sectors ↔
                sectorsRead
                    (pieceLog env fuel (t + 1)
                      (u32 (rpos + min sectors cdvdmanBufSectors))
                      (sectors - min sectors cdvdmanBufSectors)) =
                  sectors - min sectors cdvdmanBufSectors := by
            omega
          rw [hrest, hall]
          constructor
          · intro hlater i hi
            cases i with
            | zero => exact hfirst
            | succ i =>
                rw [← Nat.add_assoc, Nat.add_right_comm]
                exact hlater i (by omega)
          · intro hevery i hi
            have hnext := hevery (i + 1) (by omega)
            rw [← Nat.add_assoc, Nat.add_right_comm] at hnext
            exact hnext
        · rw [if_neg hfirst]
          refine ⟨by omega, iff_of_false (by omega) ?_⟩
          intro hevery
          exact hfirst (hevery 0 (by omega))

/-- **A request reads all its sectors** exactly when its device calls are all made and
succeed. -/
theorem cdvdmanRead_whole_iff
    (lsn sectors buf : Nat) (s : DriveState) :
    sectorsRead (cdvdmanRead cfg image env cdvdmanBuf lsn sectors buf s).events =
        sectors ↔
      ReadsAll cfg env sectors buf := by
  rcases Nat.eq_zero_or_pos sectors with rfl | hpos
  · refine iff_of_true ?_ (readsAll_zero cfg env buf)
    rw [(cdvdmanRead_none cfg image env cdvdmanBuf lsn buf s).2.2, sectorsRead_append,
      sectorsRead_brkEvents, sectorsRead_brkEvents]
  by_cases hbuf : buf % 4 = 0
  · have hloop :=
      (@cdvdmanReadLoop_whole cfg image env sectors lsn buf sectors
        (alignedStart env s) rfl le_rfl).2
    rw [alignedStart_events, alignedStart_turn, sectorsRead_brkEvents,
      Nat.zero_add] at hloop
    rw [ReadsAll, if_pos hbuf,
      (cdvdmanRead_aligned_log cfg image env cdvdmanBuf hpos hbuf lsn s).2]
    exact hloop
  · have hpieces := (@pieceLog_whole env sectors 0 lsn sectors le_rfl).2
    simp only [Nat.zero_add] at hpieces
    rw [ReadsAll, if_neg hbuf,
      (cdvdmanRead_unaligned cfg image env cdvdmanBuf hpos hbuf lsn s).1]
    exact hpieces

/-- A request for at least one sector ends with `CDVD_ERR_ABRT` exactly when a break is
what ends it. -/
theorem cdvdmanRead_abrt_iff
    {sectors : Nat}
    (hpos : 0 < sectors)
    (lsn buf : Nat) (s : DriveState) :
    (cdvdmanRead cfg image env cdvdmanBuf lsn sectors buf s).err = cdvdErrAbrt ↔
      EndsAborted cfg env sectors buf := by
  by_cases hbuf : buf % 4 = 0
  · have hloop :=
      @cdvdmanReadLoop_abrt cfg image env sectors lsn buf sectors
        (alignedStart env s) rfl le_rfl
    rw [alignedStart_turn] at hloop
    rw [EndsAborted, if_pos hbuf,
      (cdvdmanRead_aligned_log cfg image env cdvdmanBuf hpos hbuf lsn s).1]
    exact hloop
  · rw [EndsAborted, if_neg hbuf,
      (cdvdmanRead_unaligned cfg image env cdvdmanBuf hpos hbuf lsn s).2]
    exact pieceErr_abrt_iff _

end Requests

section Filled

/-- Sector `i` of a request for the sectors from `lsn` on was read: a device call that
has succeeded covers it. -/
def SectorFilled (events : List ReadEvent) (lsn i : Nat) : Prop :=
  ∃ l n, .call l n true ∈ events ∧ u32Sub l lsn ≤ i ∧ i < u32Sub l lsn + n

/-- The device call that is to read sector `i` of a request with an aligned buffer. -/
def callOf (cfg : Settings) (i : Nat) : Nat :=
  if cfg.has iopcoreCompatAccuReads then i / 8 else 0

/-- The device reads sector `i` of a request: all device calls up to the one for it go
through; or, in pieces of two sectors, the one for its piece is made and succeeds. -/
def SectorRead (cfg : Settings) (env : Nat → DeviceTurn) (buf i : Nat) : Prop :=
  if buf % 4 = 0 then TurnsGo env 0 (callOf cfg i + 1)
  else (env (i / 2)).breakBefore = false ∧ (env (i / 2)).fails = false

variable
  {cfg : Settings}
  {image : Nat → UInt8}
  {env : Nat → DeviceTurn}
  {cdvdmanBuf lsn i : Nat}

theorem sectorFilled_append (events more : List ReadEvent) :
    SectorFilled (events ++ more) lsn i ↔
      SectorFilled events lsn i ∨ SectorFilled more lsn i := by
  simp only [SectorFilled, List.mem_append]
  constructor
  · rintro ⟨l, n, hmem | hmem, hin⟩
    · exact Or.inl ⟨l, n, hmem, hin⟩
    · exact Or.inr ⟨l, n, hmem, hin⟩
  · rintro (⟨l, n, hmem, hin⟩ | ⟨l, n, hmem, hin⟩)
    · exact ⟨l, n, Or.inl hmem, hin⟩
    · exact ⟨l, n, Or.inr hmem, hin⟩

theorem not_sectorFilled_nil : ¬ SectorFilled [] lsn i := by
  rintro ⟨l, n, hmem, -⟩
  cases hmem

/-- A device call of `n` sectors at offset `off` of the request. -/
theorem sectorFilled_call
    {off n : Nat} {ok : Bool}
    (hlsn : lsn < 4294967296)
    (hoff : off < 4294967296) :
    SectorFilled [.call (u32 (lsn + off)) n ok] lsn i ↔
      ok = true ∧ off ≤ i ∧ i < off + n := by
  have hat : u32Sub (u32 (lsn + off)) lsn = off := by
    unfold u32Sub u32
    omega
  constructor
  · rintro ⟨l, m, hmem, hin⟩
    obtain ⟨rfl, rfl, rfl⟩ := ReadEvent.call.inj (List.mem_singleton.mp hmem)
    rw [hat] at hin
    exact ⟨rfl, hin⟩
  · rintro ⟨rfl, hin⟩
    exact ⟨_, n, List.mem_singleton_self _, by rw [hat]; exact hin⟩

theorem not_sectorFilled_brkEvents (b : Bool) : ¬ SectorFilled (brkEvents b) lsn i := by
  rintro ⟨l, n, hmem, -⟩
  exact brkEvents_not_call b _ hmem trivial

theorem sectorFilled_breakIf (b : Bool) (s : DriveState) :
    SectorFilled (breakIf b s).events lsn i ↔ SectorFilled s.events lsn i := by
  rw [breakIf_events, sectorFilled_append, or_iff_left (not_sectorFilled_brkEvents b)]

/-- With an error the loop reads no sector more. -/
theorem cdvdmanReadLoop_stops_filled
    {fuel start ptr remaining : Nat} {s : DriveState}
    (herr : s.err ≠ cdvdErrNo) :
    SectorFilled
        (cdvdmanReadLoop cfg image env fuel start ptr remaining s).events lsn i ↔
      SectorFilled s.events lsn i := by
  rw [cdvdmanReadLoop_error herr]
  split_ifs
  · exact sectorFilled_breakIf _ _
  · rfl

/-- The sectors of the first device call of a loop, and the others. -/
theorem callOf_cases
    {remaining : Nat}
    (hi : i < remaining) :
    (i < sectorsToRead cfg remaining ∧ callOf cfg i = 0) ∨
      (sectorsToRead cfg remaining ≤ i ∧
        callOf cfg i = callOf cfg (i - sectorsToRead cfg remaining) + 1) := by
  unfold callOf sectorsToRead
  split_ifs with haccu
  · omega
  · exact Or.inl ⟨hi, rfl⟩

/-- A call that is broken after it leaves the sectors of the first device call. -/
theorem turnsGo_callOf_broken
    {t off remaining : Nat} :
    (off ≤ i ∧ i < off + remaining ∧ callOf cfg (i - off) = 0 ∧
        TurnsGo env t (callOf cfg (i - off))) ↔
      off ≤ i ∧ i < off + sectorsToRead cfg remaining := by
  have hle : sectorsToRead cfg remaining ≤ remaining := sectorsToRead_le _
  constructor
  · rintro ⟨hlow, hhigh, hfirst, -⟩
    rcases @callOf_cases cfg (i - off) remaining (by omega) with
      ⟨hnear, -⟩ | ⟨-, hlater⟩
    · exact ⟨hlow, by omega⟩
    · omega
  · rintro ⟨hlow, hhigh⟩
    rcases @callOf_cases cfg (i - off) remaining (by omega) with
      ⟨-, hfirst⟩ | ⟨hfar, -⟩
    · rw [hfirst]
      exact ⟨hlow, by omega, rfl, turnsGo_zero⟩
    · omega

/-- The sectors of the first device call of a loop, and those that its other turns
bring. -/
theorem turnsGo_callOf_later
    {t off remaining : Nat} :
    (off ≤ i ∧ i < off + remaining ∧ TurnsGo env t (callOf cfg (i - off))) ↔
      (off ≤ i ∧ i < off + sectorsToRead cfg remaining) ∨
        (off + sectorsToRead cfg remaining ≤ i ∧
          i < off + sectorsToRead cfg remaining +
            (remaining - sectorsToRead cfg remaining) ∧
          TurnsGo env t (callOf cfg (i - (off + sectorsToRead cfg remaining)) + 1)) := by
  have hle : sectorsToRead cfg remaining ≤ remaining := sectorsToRead_le _
  constructor
  · rintro ⟨hlow, hhigh, hgo⟩
    rcases @callOf_cases cfg (i - off) remaining (by omega) with
      ⟨hnear, -⟩ | ⟨hfar, hlater⟩
    · exact Or.inl ⟨hlow, by omega⟩
    · rw [hlater, Nat.sub_sub] at hgo
      exact Or.inr ⟨by omega, by omega, hgo⟩
  · rintro (⟨hlow, hhigh⟩ | ⟨hlow, hhigh, hgo⟩)
    · rcases @callOf_cases cfg (i - off) remaining (by omega) with
        ⟨-, hfirst⟩ | ⟨hfar, -⟩
      · rw [hfirst]
        exact ⟨hlow, by omega, turnsGo_zero⟩
      · omega
    · rcases @callOf_cases cfg (i - off) remaining (by omega) with
        ⟨hnear, -⟩ | ⟨-, hlater⟩
      · omega
      · rw [hlater, Nat.sub_sub]
        exact ⟨by omega, by omega, hgo⟩

/-- A device call that succeeds reads its sectors. -/
theorem sectorFilled_afterTurn
    {off ptr n : Nat} {out : DeviceTurn} {s : DriveState}
    (hlsn : lsn < 4294967296)
    (hoff : off < 4294967296) :
    SectorFilled (afterTurn image out (u32 (lsn + off)) ptr n s).events lsn i ↔
      SectorFilled s.events lsn i ∨ (off ≤ i ∧ i < off + n) := by
  rw [afterTurn, sectorFilled_breakIf, afterCall, sectorFilled_append,
    sectorFilled_breakIf, sectorFilled_call hlsn hoff]
  simp only [true_and]

/-- The sectors that the loop reads, by its device calls. -/
theorem cdvdmanReadLoop_filled
    (hlsn : lsn < 4294967296) :
    ∀ (fuel off ptr remaining : Nat) (s : DriveState),
      s.err = cdvdErrNo → remaining ≤ fuel → off + remaining < 4294967296 →
      (SectorFilled
          (cdvdmanReadLoop cfg image env fuel (u32 (lsn + off)) ptr remaining
            s).events lsn i ↔
        SectorFilled s.events lsn i ∨
          (off ≤ i ∧ i < off + remaining ∧
            TurnsGo env s.turn (callOf cfg (i - off) + 1))) := by
  intro fuel
  induction fuel with
  | zero =>
      intro off ptr remaining s _ hfuel _
      refine (or_iff_left ?_).symm
      rintro ⟨hlow, hhigh, -⟩
      omega
  | succ fuel ih =>
      intro off ptr remaining s herr hfuel hroom
      rcases Nat.eq_zero_or_pos remaining with hzero | hpos
      · subst hzero
        rw [cdvdmanReadLoop_zero]
        refine (or_iff_left ?_).symm
        rintro ⟨hlow, hhigh, -⟩
        omega
      · have hn : 0 < sectorsToRead cfg remaining := sectorsToRead_pos hpos
        have hle : sectorsToRead cfg remaining ≤ remaining := sectorsToRead_le _
        rw [cdvdmanReadLoop_turn herr hpos, turnsGo_succ]
        split_ifs with hbefore hfails
        · -- a break before the call
          have hsame := @sectorFilled_breakIf lsn i true { s with turn := s.turn + 1 }
          refine hsame.trans (or_iff_left ?_).symm
          rintro ⟨-, -, hgo, -⟩
          rw [hbefore] at hgo
          cases hgo
        · -- a call that fails
          rw [sectorFilled_breakIf, afterFailure]
          have hcall :
              ¬ SectorFilled
                [.call (u32 (lsn + off)) (sectorsToRead cfg remaining) false] lsn i := by
            rw [sectorFilled_call hlsn (by omega)]
            rintro ⟨hfalse, -⟩
            cases hfalse
          rw [sectorFilled_append, or_iff_left hcall, sectorFilled_breakIf]
          refine (or_iff_left ?_).symm
          rintro ⟨-, -, -, hgo, -⟩
          rw [hfails] at hgo
          cases hgo
        · -- a call that succeeds
          have hbefore' : (env s.turn).breakBefore = false := by
            simpa using hbefore
          have hfails' : (env s.turn).fails = false := by
            simpa using hfails
          simp only [hbefore', hfails', true_and]
          by_cases hoff : (env s.turn).BreaksOff
          · have hbroken := afterTurn_broken hoff image (u32 (lsn + off)) ptr
              (sectorsToRead cfg remaining) s
            have hstops :=
              @cdvdmanReadLoop_stops_filled cfg image env lsn i fuel
                (u32 (u32 (lsn + off) + sectorsToRead cfg remaining))
                (ptr + 2048 * sectorsToRead cfg remaining)
                (remaining - sectorsToRead cfg remaining) _
                (hbroken.trans_ne cdvdErrAbrt_ne)
            rw [sectorFilled_afterTurn hlsn (by omega), afterTurn] at hstops
            rw [hstops]
            refine or_congr_right ?_
            rw [← @turnsGo_callOf_broken cfg env i (s.turn + 1)]
            simp only [hoff, not_true_eq_false, imp_false, Nat.not_lt, Nat.le_zero]
          · have hnext :
                u32 (u32 (lsn + off) + sectorsToRead cfg remaining) =
                  u32 (lsn + (off + sectorsToRead cfg remaining)) := by
              unfold u32
              omega
            have hrest :=
              ih (off + sectorsToRead cfg remaining)
                (ptr + 2048 * sectorsToRead cfg remaining)
                (remaining - sectorsToRead cfg remaining)
                (afterTurn image (env s.turn) (u32 (lsn + off)) ptr
                  (sectorsToRead cfg remaining) s)
                (by rw [afterTurn_unbroken hoff]; exact herr) (by omega) (by omega)
            rw [sectorFilled_afterTurn hlsn (by omega), afterTurn_turn, or_assoc, afterTurn]
              at hrest
            simp only [hoff, not_false_eq_true, implies_true, true_and]
            rw [hnext, hrest]
            exact or_congr_right turnsGo_callOf_later.symm

/-- A piece of two sectors at offset `off` of the request. -/
theorem sectorFilled_pieceEvents
    {off n : Nat}
    (hlsn : lsn < 4294967296)
    (hoff : off < 4294967296)
    (out : DeviceTurn) :
    SectorFilled (pieceEvents out (u32 (lsn + off)) n) lsn i ↔
      (off ≤ i ∧ i < off + n) ∧ out.breakBefore = false ∧ out.fails = false := by
  cases hbefore : out.breakBefore with
  | true =>
      have hbrk : ¬ SectorFilled [.brk] lsn i := @not_sectorFilled_brkEvents lsn i true
      rw [pieceEvents, if_pos hbefore, sectorFilled_append, or_iff_left hbrk]
      refine iff_of_false (not_sectorFilled_brkEvents _) ?_
      rintro ⟨-, hfalse, -⟩
      cases hfalse
  | false =>
      rw [pieceEvents_of_go hbefore, ← List.singleton_append, sectorFilled_append,
        sectorFilled_append, sectorFilled_append,
        or_iff_right (not_sectorFilled_brkEvents _),
        or_iff_right (not_sectorFilled_brkEvents _),
        or_iff_left (not_sectorFilled_brkEvents _), sectorFilled_call hlsn hoff,
        Bool.not_eq_true']
      constructor
      · rintro ⟨hgood, hin⟩
        exact ⟨hin, rfl, hgood⟩
      · rintro ⟨hin, -, hgood⟩
        exact ⟨hgood, hin⟩

/-- The sectors that the double-copy loop reads, by its pieces. -/
theorem pieceLog_filled
    (hlsn : lsn < 4294967296) :
    ∀ (fuel t off sectors : Nat),
      sectors ≤ fuel → off + sectors < 4294967296 →
      (SectorFilled (pieceLog env fuel t (u32 (lsn + off)) sectors) lsn i ↔
        (off ≤ i ∧ i < off + sectors) ∧
          (env (t + (i - off) / 2)).breakBefore = false ∧
          (env (t + (i - off) / 2)).fails = false) := by
  intro fuel
  induction fuel with
  | zero =>
      intro t off sectors hfuel _
      refine iff_of_false not_sectorFilled_nil ?_
      rintro ⟨hin, -⟩
      omega
  | succ fuel ih =>
      intro t off sectors hfuel hroom
      rcases Nat.eq_zero_or_pos sectors with hzero | hpos
      · subst hzero
        rw [pieceLog_zero]
        refine iff_of_false not_sectorFilled_nil ?_
        rintro ⟨hin, -⟩
        omega
      · have hn :
            min sectors cdvdmanBufSectors = 1 ∧ sectors = 1 ∨
              min sectors cdvdmanBufSectors = 2 ∧ 2 ≤ sectors := by
          unfold cdvdmanBufSectors
          omega
        have hnext :
            u32 (u32 (lsn + off) + min sectors cdvdmanBufSectors) =
              u32 (lsn + (off + min sectors cdvdmanBufSectors)) := by
          unfold u32
          omega
        rw [pieceLog_succ hpos, sectorFilled_append,
          sectorFilled_pieceEvents hlsn (by omega), hnext,
          ih (t + 1) (off + min sectors cdvdmanBufSectors) _ (by omega) (by omega)]
        by_cases hfirst : i < off + min sectors cdvdmanBufSectors
        · -- the first piece
          have hin :
              (off ≤ i ∧ i < off + min sectors cdvdmanBufSectors) ↔
                (off ≤ i ∧ i < off + sectors) := by
            omega
          have hturn : t + (i - off) / 2 = t := by
            omega
          rw [or_iff_left (by omega), hturn, hin]
        · have hin :
              (off + min sectors cdvdmanBufSectors ≤ i ∧
                  i <
                    off + min sectors cdvdmanBufSectors +
                      (sectors - min sectors cdvdmanBufSectors)) ↔
                (off ≤ i ∧ i < off + sectors) := by
            omega
          rw [or_iff_right (by omega), hin]
          refine and_congr_right ?_
          intro hin
          have hturn :
              t + 1 + (i - (off + min sectors cdvdmanBufSectors)) / 2 =
                t + (i - off) / 2 := by
            omega
          rw [hturn]

/-- **The sectors that a request reads**, by what the device does. -/
theorem cdvdmanRead_filled_iff
    {sectors : Nat}
    (hlsn : lsn < 4294967296)
    (hsectors : sectors < 4294967296)
    (buf : Nat) (s : DriveState) :
    SectorFilled (cdvdmanRead cfg image env cdvdmanBuf lsn sectors buf s).events
        lsn i ↔
      i < sectors ∧ SectorRead cfg env buf i := by
  have hstart : u32 (lsn + 0) = lsn := u32_of_lt hlsn
  rcases Nat.eq_zero_or_pos sectors with rfl | hpos
  · rw [(cdvdmanRead_none cfg image env cdvdmanBuf lsn buf s).2.2, sectorFilled_append]
    refine iff_of_false ?_ (fun h => Nat.not_lt_zero i h.1)
    rintro (h | h)
    · exact not_sectorFilled_brkEvents _ h
    · exact not_sectorFilled_brkEvents _ h
  by_cases hbuf : buf % 4 = 0
  · have hloop :=
      @cdvdmanReadLoop_filled cfg image env lsn i hlsn sectors 0 buf sectors
        (alignedStart env s) rfl le_rfl (by omega)
    rw [alignedStart_events, alignedStart_turn, hstart,
      or_iff_right (not_sectorFilled_brkEvents _), Nat.zero_add, Nat.sub_zero] at hloop
    rw [SectorRead, if_pos hbuf,
      (cdvdmanRead_aligned_log cfg image env cdvdmanBuf hpos hbuf lsn s).2]
    exact hloop.trans (and_iff_right (Nat.zero_le i))
  · have hpieces :=
      @pieceLog_filled env lsn i hlsn sectors 0 0 sectors le_rfl (by omega)
    simp only [hstart, Nat.zero_add, Nat.sub_zero, Nat.zero_le, true_and] at hpieces
    rw [SectorRead, if_neg hbuf,
      (cdvdmanRead_unaligned cfg image env cdvdmanBuf hpos hbuf lsn s).1]
    exact hpieces

end Filled

end Read
end Ps2Cdvd
