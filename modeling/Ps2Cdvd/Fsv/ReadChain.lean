import Ps2Cdvd.Fsv.ReadTruth

/-!
# Read chains: `cdvd_readchain`

A request is a chain of at most 64 entries.  An entry for the IOP is one `sceCdRead` into
its buffer; an entry for the EE is read in chunks into `cdvdfsv_buf`, each of which is
sent by DMA.  After an entry the bytes read so far are sent to the address that the
request has as sectors of entry 65.  The request is taken to lie apart from the buffers
that are read into.

A refusal makes the reply 0.  Otherwise nothing is written to the reply: it is the first
word of the request, the sector at which the first entry starts.

* `cdvdReadchain_truthful_iff`: exactly when the reply is 0 for the chains with an entry
  that was not completely read and sent, and only for these;
* `readReplies_truthful_iff`: the same for the two handlers.
-/

namespace Ps2Cdvd
namespace Fsv

open Lib Read

section Source

/-- The entry `RpcCdvdchain_t`. -/
structure RpcCdvdchain where
  lsn : Nat
  sectors : Nat
  buf : Nat

/-- A field of the entry is -1. -/
def RpcCdvdchain.Terminates (ch : RpcCdvdchain) : Prop :=
  ch.lsn = 0xffffffff ∨ ch.sectors = 0xffffffff ∨ ch.buf = 0xffffffff

instance (ch : RpcCdvdchain) : Decidable ch.Terminates :=
  inferInstanceAs (Decidable (_ ∨ _ ∨ _))

/-- `(u32)ch->buf & 1` -/
def RpcCdvdchain.iop (ch : RpcCdvdchain) : Bool := ch.buf % 2 = 1

/-- `(u32)ch->buf & 0xfffffffc` -/
def RpcCdvdchain.addr (ch : RpcCdvdchain) : Nat := ch.buf / 4 * 4

/-- `CDVD_ERR_READCFR` -/
def cdvdErrReadcfr : Int := 0xFE

/-- `nsectors` -/
def chainSectors (tsectors : Nat) : Nat :=
  if cdvdfsvBufSectors < tsectors then cdvdfsvBufSectors else tsectors

/-- CDVDMAN, the transfers sent so far, `readpos`, and the calls of `sceCdRead`
so far. -/
structure ChainState where
  drive : DriveState
  sent : List EeDma
  readpos : Nat
  calls : Nat

/-- A call of `sceCdRead`: the sectors it was asked for, whether it was accepted, what
happened during the read, and the transfers that followed. -/
structure ChainRead where
  sectors : Nat
  accepted : Bool
  events : List ReadEvent
  dma : List EeDma

/-- How an entry ends, and its reads. -/
structure EntryRun where
  state : ChainState
  refused : Bool
  reads : List ChainRead

/-- How the request ends, and the reads of its entries. -/
structure ChainRun where
  state : ChainState
  reply : Nat
  log : List (List ChainRead)

variable
  (cfg : Settings)
  (image : Nat → UInt8)
  (world : Nat → FsvTurn)
  (cdvdmanBuf fsvBuf : Nat)

/-- `sceCdRead` is refused; `fsverror` is the error if there is none. -/
def chainRefused (fsverror : Int) (s : ChainState) : ChainState :=
  let drive := breakIf (world s.calls).breaks s.drive
  { s with
    drive :=
      { drive with err := if drive.err = cdvdErrNo then fsverror else drive.err }
    calls := s.calls + 1 }

/-- `sceCdRead` is accepted; `sceCdSync(0)` has returned. -/
def chainSync (lsn sectors buf : Nat) (s : ChainState) : ChainState :=
  let out := world s.calls
  { s with
    drive :=
      cdvdmanRead cfg image out.device cdvdmanBuf lsn sectors buf
        (breakIf out.breaks s.drive)
    calls := s.calls + 1 }

/-- An entry for the IOP. -/
def readIop (ch : RpcCdvdchain) (s : ChainState) : EntryRun :=
  if (world s.calls).refused then
    ⟨chainRefused world cdvdErrReadcfr s, true, [⟨ch.sectors, false, [], []⟩]⟩
  else
    let t := chainSync cfg image world cdvdmanBuf ch.lsn ch.sectors ch.addr s
    ⟨{ t with readpos := u32 (t.readpos + ch.sectors * 2048) }, false,
      [⟨ch.sectors, true, t.drive.events, []⟩]⟩

/-- The loop of an entry for the EE.  A turn takes at least one sector, so `tsectors`
turns are enough. -/
def readEe : (fuel lsn tsectors addr : Nat) → ChainState → EntryRun
  | 0, _, _, _, s => ⟨s, false, []⟩
  | fuel + 1, lsn, tsectors, addr, s =>
      if 0 < tsectors then
        let n := chainSectors tsectors
        if (world s.calls).refused then
          ⟨chainRefused world cdvdErrReadcf s, true, [⟨n, false, [], []⟩]⟩
        else
          let t := chainSync cfg image world cdvdmanBuf lsn n fsvBuf s
          let dma := [.data addr (n * 2048) (fun i => t.drive.mem (fsvBuf + i))]
          let rest :=
            readEe fuel (u32 (lsn + n)) (tsectors - n) (u32 (addr + n * 2048))
              { t with
                sent := t.sent ++ dma
                readpos := u32 (t.readpos + n * 2048) }
          { rest with reads := ⟨n, true, t.drive.events, dma⟩ :: rest.reads }
      else ⟨s, false, []⟩

/-- The entry `ch`, up to the transfer of `readpos`. -/
def readEntry (ch : RpcCdvdchain) (s : ChainState) : EntryRun :=
  if ch.iop then readIop cfg image world cdvdmanBuf ch s
  else
    readEe cfg image world cdvdmanBuf fsvBuf ch.sectors ch.lsn ch.sectors ch.addr s

/-- The state after the transfer of `readpos`. -/
def sendReadpos (chain : Nat → RpcCdvdchain) (s : ChainState) : ChainState :=
  { s with sent := s.sent ++ [.data (chain 65).sectors 4 (leByte s.readpos)] }

/-- The loop over the entries from entry `i` on. -/
def readchainLoop (chain : Nat → RpcCdvdchain) :
    (fuel i : Nat) → ChainState → ChainRun
  | 0, _, s => ⟨s, (chain 0).lsn, []⟩
  | fuel + 1, i, s =>
      if (chain i).Terminates then ⟨s, (chain 0).lsn, []⟩
      else
        let run := readEntry cfg image world cdvdmanBuf fsvBuf (chain i) s
        if run.refused then ⟨run.state, 0, [run.reads]⟩
        else
          let rest := readchainLoop chain fuel (i + 1) (sendReadpos chain run.state)
          { rest with log := run.reads :: rest.log }

/-- `cdvd_readchain` -/
def cdvdReadchain (chain : Nat → RpcCdvdchain) (s : DriveState) : ChainRun :=
  readchainLoop cfg image world cdvdmanBuf fsvBuf chain 64 0 ⟨s, [], 0, 0⟩

end Source

section Purpose

/-- The entries from entry `i` on before the terminator. -/
def chainEntries (chain : Nat → RpcCdvdchain) : (fuel i : Nat) → List RpcCdvdchain
  | 0, _ => []
  | fuel + 1, i =>
      if (chain i).Terminates then []
      else chain i :: chainEntries chain fuel (i + 1)

/-- All sectors of the read were read. -/
def ChainRead.Whole (rd : ChainRead) : Prop :=
  rd.accepted = true ∧ sectorsRead rd.events = rd.sectors

/-- The data of the read were sent. -/
def ChainRead.Sent (sent : List EeDma) (rd : ChainRead) : Prop :=
  ∃ dest size bytes, .data dest size bytes ∈ rd.dma ∧ .data dest size bytes ∈ sent

/-- The entry was completely read, and sent if it is for the EE. -/
def RpcCdvdchain.Done
    (ch : RpcCdvdchain) (reads : List ChainRead) (sent : List EeDma) : Prop :=
  (reads.map ChainRead.sectors).sum = ch.sectors ∧
    (∀ rd ∈ reads, rd.Whole) ∧
    (ch.iop = false → ∀ rd ∈ reads, rd.Sent sent)

/-- Some entry was not completely read and sent. -/
def SomeMissing
    (entries : List RpcCdvdchain) (log : List (List ChainRead)) (sent : List EeDma) :
    Prop :=
  ∃ (i : Nat) (ch : RpcCdvdchain), entries[i]? = some ch ∧
    ∀ reads, log[i]? = some reads → ¬ ch.Done reads sent

variable
  (cfg : Settings)
  (image : Nat → UInt8)
  (world : Nat → FsvTurn)
  (cdvdmanBuf fsvBuf : Nat)

/-- The reply is 0 exactly when some entry before the terminator was not completely read
and sent. -/
def ReadchainTruthful (chain : Nat → RpcCdvdchain) (s : DriveState) : Prop :=
  let run := cdvdReadchain cfg image world cdvdmanBuf fsvBuf chain s
  run.reply = 0 ↔ SomeMissing (chainEntries chain 64 0) run.log run.state.sent

end Purpose

section Conditions

/-- What `sceCdRead` is asked for. -/
structure Asked where
  sectors : Nat
  buf : Nat

variable (fsvBuf : Nat)

/-- The reads of the loop of an entry for the EE. -/
def eeReads : (fuel tsectors : Nat) → List Asked
  | 0, _ => []
  | fuel + 1, tsectors =>
      if 0 < tsectors then
        ⟨chainSectors tsectors, fsvBuf⟩ ::
          eeReads fuel (tsectors - chainSectors tsectors)
      else []

/-- The reads that an entry takes. -/
def entryReads (ch : RpcCdvdchain) : List Asked :=
  if ch.iop then [⟨ch.sectors, ch.addr⟩] else eeReads fsvBuf ch.sectors ch.sectors

/-- The reads that the entries from entry `i` on take. -/
def chainReads (chain : Nat → RpcCdvdchain) (fuel i : Nat) : List Asked :=
  (chainEntries chain fuel i).flatMap (entryReads fsvBuf)

variable (cfg : Settings) (world : Nat → FsvTurn)

/-- One of the reads is refused, if the first one is call `k`. -/
def RefusedIn (k : Nat) (reads : List Asked) : Prop :=
  ∃ i, i < reads.length ∧ (world (k + i)).refused = true

/-- All sectors of the reads are read, if the first one is call `k`. -/
def AllRead (k : Nat) (reads : List Asked) : Prop :=
  ∀ i a, reads[i]? = some a → ReadsAll cfg (world (k + i)).device a.sectors a.buf

variable
  {cfg world}
  {k : Nat}
  {a : Asked}
  {reads more : List Asked}

theorem refusedIn_nil : ¬ RefusedIn world k [] := by
  rintro ⟨i, hi, -⟩
  exact Nat.not_lt_zero i hi

theorem refusedIn_cons :
    RefusedIn world k (a :: reads) ↔
      (world k).refused = true ∨ RefusedIn world (k + 1) reads := by
  constructor
  · rintro ⟨i, hi, hrefused⟩
    cases i with
    | zero => exact Or.inl hrefused
    | succ i =>
        refine Or.inr ⟨i, Nat.lt_of_succ_lt_succ hi, ?_⟩
        rw [Nat.add_right_comm, Nat.add_assoc]
        exact hrefused
  · rintro (hrefused | ⟨i, hi, hrefused⟩)
    · exact ⟨0, Nat.succ_pos _, hrefused⟩
    · refine ⟨i + 1, Nat.succ_lt_succ hi, ?_⟩
      rw [← Nat.add_assoc, Nat.add_right_comm]
      exact hrefused

theorem allRead_nil : AllRead cfg world k [] := by
  intro i a ha
  rw [List.getElem?_nil] at ha
  cases ha

theorem allRead_cons :
    AllRead cfg world k (a :: reads) ↔
      ReadsAll cfg (world k).device a.sectors a.buf ∧
        AllRead cfg world (k + 1) reads := by
  constructor
  · intro h
    refine ⟨h 0 a rfl, ?_⟩
    intro i b hb
    rw [Nat.add_right_comm, Nat.add_assoc]
    exact h (i + 1) b hb
  · rintro ⟨hfirst, hrest⟩ i b hb
    cases i with
    | zero =>
        cases hb
        exact hfirst
    | succ i =>
        rw [← Nat.add_assoc, Nat.add_right_comm]
        exact hrest i b hb

theorem refusedIn_append :
    RefusedIn world k (reads ++ more) ↔
      RefusedIn world k reads ∨ RefusedIn world (k + reads.length) more := by
  induction reads generalizing k with
  | nil => exact (or_iff_right refusedIn_nil).symm
  | cons a reads ih =>
      rw [List.cons_append, refusedIn_cons, refusedIn_cons, ih, or_assoc,
        List.length_cons, Nat.add_assoc, Nat.add_comm 1]

theorem allRead_append :
    AllRead cfg world k (reads ++ more) ↔
      AllRead cfg world k reads ∧ AllRead cfg world (k + reads.length) more := by
  induction reads generalizing k with
  | nil => exact (and_iff_right allRead_nil).symm
  | cons a reads ih =>
      rw [List.cons_append, allRead_cons, allRead_cons, ih, and_assoc,
        List.length_cons, Nat.add_assoc, Nat.add_comm 1]

end Conditions

section Outcome

variable
  {cfg : Settings}
  {image : Nat → UInt8}
  {world : Nat → FsvTurn}
  {cdvdmanBuf fsvBuf : Nat}
  {ch : RpcCdvdchain}
  {entries : List RpcCdvdchain}
  {reads : List ChainRead}
  {log : List (List ChainRead)}
  {sent more : List EeDma}

theorem not_someMissing_nil : ¬ SomeMissing [] log sent := by
  rintro ⟨i, ch, hch, -⟩
  rw [List.getElem?_nil] at hch
  cases hch

theorem someMissing_cons :
    SomeMissing (ch :: entries) (reads :: log) sent ↔
      ¬ ch.Done reads sent ∨ SomeMissing entries log sent := by
  constructor
  · rintro ⟨i, ch', hch, hmissing⟩
    cases i with
    | zero =>
        cases hch
        exact Or.inl (hmissing reads rfl)
    | succ i => exact Or.inr ⟨i, ch', hch, fun rs hrs => hmissing rs hrs⟩
  · rintro (hfirst | ⟨i, ch', hch, hmissing⟩)
    · refine ⟨0, ch, rfl, ?_⟩
      intro rs hrs
      cases hrs
      exact hfirst
    · exact ⟨i + 1, ch', hch, fun rs hrs => hmissing rs hrs⟩

/-- What is sent stays sent. -/
theorem ChainRead.Sent.mono
    {rd : ChainRead}
    (h : rd.Sent sent)
    (hsent : sent ⊆ more) :
    rd.Sent more := by
  obtain ⟨dest, size, bytes, hdma, hmem⟩ := h
  exact ⟨dest, size, bytes, hdma, hsent hmem⟩

/-- How `sectors` sectors are read from call `k` on: either one of the reads they take is
refused, or all are accepted. -/
def EntryRun.Follows
    (cfg : Settings) (world : Nat → FsvTurn) (k : Nat) (plan : List Asked)
    (sectors : Nat) (toEe : Prop) (run : EntryRun) : Prop :=
  (RefusedIn world k plan ∧ run.refused = true ∧ ∃ rd ∈ run.reads, ¬ rd.Whole) ∨
    (¬ RefusedIn world k plan ∧ run.refused = false ∧
      run.state.calls = k + plan.length ∧
      (run.reads.map ChainRead.sectors).sum = sectors ∧
      (toEe → ∀ rd ∈ run.reads, rd.Sent run.state.sent) ∧
      ((∀ rd ∈ run.reads, rd.Whole) ↔ AllRead cfg world k plan))

/-- A refused read is not whole. -/
theorem not_whole_refused
    (n : Nat) (events : List ReadEvent) (dma : List EeDma) :
    ¬ (⟨n, false, events, dma⟩ : ChainRead).Whole := by
  rintro ⟨haccepted, -⟩
  cases haccepted

/-- An accepted read is whole exactly when its device calls go through. -/
theorem chainSync_whole_iff
    (lsn n buf : Nat) (s : ChainState) (dma : List EeDma) :
    (⟨n, true, (chainSync cfg image world cdvdmanBuf lsn n buf s).drive.events,
        dma⟩ : ChainRead).Whole ↔
      ReadsAll cfg (world s.calls).device n buf :=
  (and_iff_right rfl).trans (cdvdmanRead_whole_iff lsn n buf _)

theorem readIop_follows
    (ch : RpcCdvdchain) (s : ChainState) (toEe : Prop)
    (htoEe : ¬ toEe) :
    s.sent ⊆ (readIop cfg image world cdvdmanBuf ch s).state.sent ∧
      (readIop cfg image world cdvdmanBuf ch s).Follows cfg world s.calls
        [⟨ch.sectors, ch.addr⟩] ch.sectors toEe := by
  unfold readIop
  split_ifs with hrefused
  · refine ⟨List.Subset.refl _, Or.inl ⟨?_, rfl, ?_⟩⟩
    · exact refusedIn_cons.mpr (Or.inl hrefused)
    · exact ⟨_, List.mem_singleton_self _, not_whole_refused _ _ _⟩
  · refine ⟨List.Subset.refl _, Or.inr ⟨?_, rfl, rfl, ?_, fun h => absurd h htoEe, ?_⟩⟩
    · rw [refusedIn_cons]
      rintro (h | h)
      · exact hrefused h
      · exact refusedIn_nil h
    · exact List.sum_singleton
    · rw [allRead_cons, and_iff_left allRead_nil]
      refine Iff.trans List.forall_mem_singleton ?_
      exact chainSync_whole_iff ch.lsn ch.sectors ch.addr s []

theorem chainSectors_bounds
    {tsectors : Nat}
    (hpos : 0 < tsectors) :
    0 < chainSectors tsectors ∧ chainSectors tsectors ≤ tsectors := by
  unfold chainSectors cdvdfsvBufSectors
  split_ifs
  · omega
  · omega

theorem readEe_follows :
    ∀ (fuel lsn tsectors addr : Nat) (s : ChainState) (toEe : Prop),
      tsectors ≤ fuel →
      s.sent ⊆
          (readEe cfg image world cdvdmanBuf fsvBuf fuel lsn tsectors addr
            s).state.sent ∧
        (readEe cfg image world cdvdmanBuf fsvBuf fuel lsn tsectors addr s).Follows
          cfg world s.calls (eeReads fsvBuf fuel tsectors) tsectors toEe := by
  have hdone :
      ∀ (s : ChainState) (toEe : Prop),
        EntryRun.Follows cfg world s.calls [] 0 toEe ⟨s, false, []⟩ := by
    intro s toEe
    refine Or.inr ⟨refusedIn_nil, rfl, rfl, rfl, ?_, ?_⟩
    · intro _ rd hrd
      cases hrd
    · refine iff_of_true ?_ allRead_nil
      intro rd hrd
      cases hrd
  intro fuel
  induction fuel with
  | zero =>
      intro lsn tsectors addr s toEe hfuel
      have hzero : tsectors = 0 := Nat.le_zero.mp hfuel
      subst hzero
      exact ⟨List.Subset.refl _, hdone s toEe⟩
  | succ fuel ih =>
      intro lsn tsectors addr s toEe hfuel
      rcases Nat.eq_zero_or_pos tsectors with hzero | hpos
      · subst hzero
        exact ⟨List.Subset.refl _, hdone s toEe⟩
      · obtain ⟨hn, hle⟩ := chainSectors_bounds hpos
        simp only [readEe, eeReads, if_pos hpos]
        split_ifs with hrefused
        · refine ⟨List.Subset.refl _, Or.inl ⟨?_, rfl, ?_⟩⟩
          · exact refusedIn_cons.mpr (Or.inl hrefused)
          · exact ⟨_, List.mem_singleton_self _, not_whole_refused _ _ _⟩
        · have hwhole :=
            fun dma =>
              @chainSync_whole_iff cfg image world cdvdmanBuf lsn
                (chainSectors tsectors) fsvBuf s dma
          generalize hsync :
            chainSync cfg image world cdvdmanBuf lsn (chainSectors tsectors) fsvBuf s =
              t at hwhole
          have hcalls : t.calls = s.calls + 1 := by
            rw [← hsync]
            rfl
          have hkept : t.sent = s.sent := by
            rw [← hsync]
            rfl
          rw [hkept]
          obtain ⟨hsent, hrun⟩ :=
            ih (u32 (lsn + chainSectors tsectors)) (tsectors - chainSectors tsectors)
              (u32 (addr + chainSectors tsectors * 2048))
              { t with
                sent :=
                  s.sent ++
                    [.data addr (chainSectors tsectors * 2048)
                      (fun i => t.drive.mem (fsvBuf + i))]
                readpos := u32 (t.readpos + chainSectors tsectors * 2048) }
              toEe (by omega)
          refine ⟨fun d hd => hsent (List.mem_append_left _ hd), ?_⟩
          rw [EntryRun.Follows, refusedIn_cons, allRead_cons, or_iff_right hrefused]
          rw [← hcalls]
          rcases hrun with ⟨hlater, hrun, rd, hrd, hpart⟩ |
            ⟨hlater, hrun, hnext, hsum, hdata, hall⟩
          · exact Or.inl ⟨hlater, hrun, rd, List.mem_cons_of_mem _ hrd, hpart⟩
          · refine Or.inr ⟨hlater, hrun, ?_, ?_, ?_, ?_⟩
            · refine hnext.trans ?_
              show t.calls + _ = s.calls + _
              rw [hcalls, List.length_cons]
              omega
            · rw [List.map_cons, List.sum_cons, hsum]
              show chainSectors tsectors + (tsectors - chainSectors tsectors) = _
              omega
            · intro hee
              rw [List.forall_mem_cons]
              refine ⟨⟨_, _, _, List.mem_singleton_self _, ?_⟩, hdata hee⟩
              exact hsent (List.mem_append_right _ (List.mem_singleton_self _))
            · rw [List.forall_mem_cons, hall]
              exact and_congr_left fun _ => hwhole _

/-- An entry is read as `entryReads` plans. -/
theorem readEntry_follows
    (ch : RpcCdvdchain) (s : ChainState) :
    s.sent ⊆ (readEntry cfg image world cdvdmanBuf fsvBuf ch s).state.sent ∧
      (readEntry cfg image world cdvdmanBuf fsvBuf ch s).Follows cfg world s.calls
        (entryReads fsvBuf ch) ch.sectors (ch.iop = false) := by
  unfold readEntry entryReads
  split_ifs with hiop
  · exact readIop_follows ch s _ (by rw [hiop]; exact Bool.noConfusion)
  · exact readEe_follows ch.sectors ch.lsn ch.sectors ch.addr s _ le_rfl

/-- How the loop ends: refused, with reply 0 and an entry missing, or with the first word
of the request, and an entry missing exactly when not every read was whole. -/
theorem readchainLoop_outcome (chain : Nat → RpcCdvdchain) :
    ∀ (fuel i : Nat) (s : ChainState) (run : ChainRun),
      readchainLoop cfg image world cdvdmanBuf fsvBuf chain fuel i s = run →
      s.sent ⊆ run.state.sent ∧
      ((RefusedIn world s.calls (chainReads fsvBuf chain fuel i) ∧ run.reply = 0 ∧
          SomeMissing (chainEntries chain fuel i) run.log run.state.sent) ∨
        (¬ RefusedIn world s.calls (chainReads fsvBuf chain fuel i) ∧
          run.reply = (chain 0).lsn ∧
          (SomeMissing (chainEntries chain fuel i) run.log run.state.sent ↔
            ¬ AllRead cfg world s.calls (chainReads fsvBuf chain fuel i)))) := by
  intro fuel
  induction fuel with
  | zero =>
      intro i s run hrun
      subst hrun
      refine ⟨List.Subset.refl _, Or.inr ⟨refusedIn_nil, rfl, ?_⟩⟩
      exact iff_of_false not_someMissing_nil (not_not.mpr allRead_nil)
  | succ fuel ih =>
      intro i s run hrun
      by_cases hend : (chain i).Terminates
      · rw [readchainLoop, if_pos hend] at hrun
        subst hrun
        rw [chainReads, chainEntries, if_pos hend]
        refine ⟨List.Subset.refl _, Or.inr ⟨refusedIn_nil, rfl, ?_⟩⟩
        exact iff_of_false not_someMissing_nil (not_not.mpr allRead_nil)
      · have hplan :
            chainReads fsvBuf chain (fuel + 1) i =
              entryReads fsvBuf (chain i) ++ chainReads fsvBuf chain fuel (i + 1) := by
          rw [chainReads, chainEntries, if_neg hend, List.flatMap_cons]
          rfl
        rw [hplan, refusedIn_append, allRead_append, chainEntries, if_neg hend]
        obtain ⟨hkept, hentry⟩ :=
          @readEntry_follows cfg image world cdvdmanBuf fsvBuf (chain i) s
        simp only [readchainLoop, if_neg hend] at hrun
        rcases hentry with ⟨hrefused, hstop, rd, hrd, hpart⟩ |
          ⟨hrefused, hgo, hcalls, hsum, hdata, hall⟩
        · rw [if_pos hstop] at hrun
          subst hrun
          refine ⟨hkept, Or.inl ⟨Or.inl hrefused, rfl, ?_⟩⟩
          exact someMissing_cons.mpr (Or.inl fun hdone => hpart (hdone.2.1 rd hrd))
        · rw [if_neg (by rw [hgo]; exact Bool.noConfusion)] at hrun
          obtain ⟨hlater, hout⟩ := ih (i + 1) _ _ rfl
          subst hrun
          have hsub :
              (readEntry cfg image world cdvdmanBuf fsvBuf (chain i) s).state.sent ⊆
                (readchainLoop cfg image world cdvdmanBuf fsvBuf chain fuel (i + 1)
                  (sendReadpos chain
                    (readEntry cfg image world cdvdmanBuf fsvBuf (chain i)
                      s).state)).state.sent :=
            fun d hd => hlater (List.mem_append_left _ hd)
          have hdone :
              (chain i).Done
                  (readEntry cfg image world cdvdmanBuf fsvBuf (chain i) s).reads
                  (readchainLoop cfg image world cdvdmanBuf fsvBuf chain fuel (i + 1)
                    (sendReadpos chain
                      (readEntry cfg image world cdvdmanBuf fsvBuf (chain i)
                        s).state)).state.sent ↔
                AllRead cfg world s.calls (entryReads fsvBuf (chain i)) := by
            rw [← hall]
            constructor
            · rintro ⟨-, hwhole, -⟩
              exact hwhole
            · intro hwhole
              exact ⟨hsum, hwhole, fun hee rd hrd => (hdata hee rd hrd).mono hsub⟩
          refine ⟨List.Subset.trans hkept hsub, ?_⟩
          have hcalls' :
              (sendReadpos chain
                  (readEntry cfg image world cdvdmanBuf fsvBuf (chain i)
                    s).state).calls =
                s.calls + (entryReads fsvBuf (chain i)).length :=
            hcalls
          rw [hcalls'] at hout
          rw [someMissing_cons, hdone, or_iff_right hrefused]
          rcases hout with ⟨hrest, hreply, hmissing⟩ | ⟨hrest, hreply, hmissing⟩
          · exact Or.inl ⟨hrest, hreply, Or.inr hmissing⟩
          · refine Or.inr ⟨hrest, hreply, ?_⟩
            rw [hmissing, not_and_or]

end Outcome

section Truth

variable
  {cfg : Settings}
  {image : Nat → UInt8}
  {world : Nat → FsvTurn}
  {cdvdmanBuf fsvBuf : Nat}

/-- **The reply of `cdvd_readchain` is true** exactly when one of the reads that the
chain takes is refused, or the first word of the request is not 0 if and only if all
these reads read all their sectors. -/
theorem cdvdReadchain_truthful_iff
    (chain : Nat → RpcCdvdchain) (s : DriveState) :
    ReadchainTruthful cfg image world cdvdmanBuf fsvBuf chain s ↔
      RefusedIn world 0 (chainReads fsvBuf chain 64 0) ∨
        ((chain 0).lsn ≠ 0 ↔ AllRead cfg world 0 (chainReads fsvBuf chain 64 0)) := by
  obtain ⟨-, ⟨hrefused, hreply, hmissing⟩ | ⟨hrefused, hreply, hmissing⟩⟩ :=
    @readchainLoop_outcome cfg image world cdvdmanBuf fsvBuf chain 64 0
      ⟨s, [], 0, 0⟩ _ rfl
  · exact iff_of_true (iff_of_true hreply hmissing) (Or.inl hrefused)
  · have htruth :
        ReadchainTruthful cfg image world cdvdmanBuf fsvBuf chain s ↔
          ((chain 0).lsn = 0 ↔
            ¬ AllRead cfg world 0 (chainReads fsvBuf chain 64 0)) := by
      rw [← hreply, ← hmissing]
      rfl
    rw [htruth, or_iff_right hrefused, ne_eq, not_iff_comm]
    exact iff_comm

/-- **Read replies tell the EE the truth** exactly as follows.  For `cdvd_readee`: the
full number of bytes does not fit a word, or `sceCdRead` is refused before a check finds
a break, or no check finds one and every chunk is read.  For `cdvd_readchain`: one of the
reads is refused, or the first entry does not start at sector 0 if and only if all reads
read all their sectors. -/
theorem readReplies_truthful_iff
    (cfg : Settings) (image : Nat → UInt8) (world : Nat → FsvTurn)
    (cdvdmanBuf fsvBuf : Nat) (s : DriveState) :
    (∀ (stack : Readee) (r : RpcCdvd),
      ReadeeTruthful cfg image world cdvdmanBuf fsvBuf stack r s ↔
        4294967296 ≤ r.sectors * sectorSize r.datapattern ∨
          RefusedFrom cfg world (readeeCall fsvBuf r) 0 ∨
          ReadsFrom cfg world (readeeCall fsvBuf r) 0) ∧
    (∀ chain : Nat → RpcCdvdchain,
      ReadchainTruthful cfg image world cdvdmanBuf fsvBuf chain s ↔
        RefusedIn world 0 (chainReads fsvBuf chain 64 0) ∨
          ((chain 0).lsn ≠ 0 ↔
            AllRead cfg world 0 (chainReads fsvBuf chain 64 0))) :=
  ⟨fun stack r => cdvdReadee_truthful_iff stack r s,
    fun chain => cdvdReadchain_truthful_iff chain s⟩

/-- Nothing disturbs a read but that its device calls fail. -/
def failingIf (fails : Bool) : Nat → FsvTurn :=
  fun _ => ⟨false, false, fun t => { quietTurns t with fails }⟩

/-- A chain of one sector, into EE memory. -/
def oneSector (lsn : Nat) : Nat → RpcCdvdchain :=
  fun i => if i = 0 then ⟨lsn, 1, 0x100000⟩ else ⟨0xffffffff, 0xffffffff, 0xffffffff⟩

/-- The full count of 2048 bytes after a failed read, a chain whose read has failed and
which is answered with 100, and one from sector 0 that is read and answered with 0. -/
theorem readReplies_lie :
    ¬ ReadeeTruthful ⟨0, 0⟩ (fun _ => 0) (failingIf true) 0x8000 0x10000
        ⟨0, 0, 0, 0, fun _ => 0, fun _ => 0⟩ ⟨100, 1, 0x100000, 0, 0x2000, 0x3000⟩
        restingDrive ∧
      ¬ ReadchainTruthful ⟨0, 0⟩ (fun _ => 0) (failingIf true) 0x8000 0x10000
        (oneSector 100) restingDrive ∧
      ¬ ReadchainTruthful ⟨0, 0⟩ (fun _ => 0) (failingIf false) 0x8000 0x10000
        (oneSector 0) restingDrive := by
  have hcalls : turnsOf ⟨0, 0⟩ 1 = 1 := rfl
  have hreads :
      ∀ fails, ReadsAll ⟨0, 0⟩ (failingIf fails 0).device 1 0x10000 ↔ fails = false := by
    intro fails
    rw [ReadsAll, if_pos (by decide), hcalls, turnsGo_succ]
    simp [turnsGo_zero, failingIf, quietTurns]
  have hfirst : chainReads 0x10000 (oneSector 100) 64 0 = [⟨1, 0x10000⟩] := rfl
  have hzero : chainReads 0x10000 (oneSector 0) 64 0 = [⟨1, 0x10000⟩] := rfl
  have hnever : ∀ fails reads, ¬ RefusedIn (failingIf fails) 0 reads := by
    rintro fails reads ⟨i, -, hrefused⟩
    cases hrefused
  refine ⟨?_, ?_, ?_⟩
  · rw [cdvdReadee_truthful_iff]
    rintro (hlarge | ⟨m, -, -, hrefused, -⟩ | hall)
    · exact absurd hlarge (by decide)
    · cases hrefused
    · have hone := (hall 0 le_rfl (by decide)).2
      exact absurd ((hreads true).mp hone) (by decide)
  · rw [cdvdReadchain_truthful_iff, hfirst, allRead_cons, hreads]
    rintro (hrefused | hiff)
    · exact hnever _ _ hrefused
    · exact absurd (hiff.mp (by decide)).1 (by decide)
  · rw [cdvdReadchain_truthful_iff, hzero, allRead_cons, hreads]
    rintro (hrefused | hiff)
    · exact hnever _ _ hrefused
    · exact hiff.mpr ⟨rfl, allRead_nil⟩ rfl

end Truth

end Fsv
end Ps2Cdvd
