import Ps2Cdvd.Fsv.ReadChain
import Ps2Cdvd.Lib.Pieces

/-!
# The data of a read chain

`cdvd_readchain` serves the entries of a request one after the other.  An entry for the
EE is cut into reads of at most `CDVDFSV_BUF_SECTORS` sectors, each of which is sent
before the next one overwrites `cdvdfsv_buf`; behind every entry the position is sent.

* `readEe_sends`, `readIop_places`: what an entry leaves, by the loop over its sectors;
* `readchainLoop_serves`: what the entries leave, in their order;
* `cdvdReadchain_serves`: every entry gets its sectors, and nothing else is written.
-/

namespace Ps2Cdvd
namespace Fsv

open Lib Read

section Purpose

variable
  (cfg : Settings)
  (image : Nat → UInt8)
  (world : Nat → FsvTurn)
  (cdvdmanBuf fsvBuf : Nat)

/-- Transfers of at most `CDVDFSV_BUF_SECTORS` sectors each, which bring the `n` sectors
from `lsn` on to the addresses from `addr` on. -/
def SendsSectors (image : Nat → UInt8) : List EeDma → (lsn addr n : Nat) → Prop
  | [], _, _, n => n = 0
  | .data dest size bytes :: rest, lsn, addr, n =>
      dest = addr ∧
        ∃ k, 0 < k ∧ k ≤ cdvdfsvBufSectors ∧ k ≤ n ∧ size = 2048 * k ∧
          (∀ i, i < size → bytes i = sectorBytes image lsn i) ∧
          SendsSectors image rest (lsn + k) (addr + size) (n - k)
  | .readee _ _ :: _, _, _, _ => False
  | .progress _ _ :: _, _, _, _ => False

/-- The transfers of the entries, where `sectors` sectors have been read before them: for
each entry its data, if it is for the EE, and then the position behind it. -/
def SendsEntries (image : Nat → UInt8) (positionAt : Nat) :
    List RpcCdvdchain → (sectors : Nat) → List EeDma → Prop
  | [], _, sent => sent = []
  | ch :: entries, sectors, sent =>
      ∃ part rest,
        sent = part ++ .data positionAt 4 (leByte (2048 * (sectors + ch.sectors))) :: rest ∧
          SendsSectors image part ch.lsn ch.addr (if ch.iop then 0 else ch.sectors) ∧
          SendsEntries image positionAt entries (sectors + ch.sectors) rest

/-- The sectors of an entry, at their place. -/
def RpcCdvdchain.piece (image : Nat → UInt8) (ch : RpcCdvdchain) : Piece UInt8 where
  addr := ch.addr
  count := 2048 * ch.sectors
  cells := sectorBytes image ch.lsn

/-- The pieces of the entries for one of the processors. -/
def piecesOf (image : Nat → UInt8) (iop : Bool) (entries : List RpcCdvdchain) :
    List (Piece UInt8) :=
  (entries.filter fun ch => ch.iop == iop).map (RpcCdvdchain.piece image)

/-- The address belongs to one of the modules' own buffers. -/
def OwnBuffer (cdvdmanBuf fsvBuf x : Nat) : Prop :=
  (fsvBuf ≤ x ∧ x < fsvBuf + 2048 * cdvdfsvBufSectors) ∨
    (cdvdmanBuf ≤ x ∧ x < cdvdmanBuf + 4096)

/-- The address belongs to the variable that the position is sent to. -/
def InPosition (positionAt x : Nat) : Prop := positionAt ≤ x ∧ x < positionAt + 4

/-- The byte `x` of the memory of one of the processors belongs to the destination of the
entry. -/
def RpcCdvdchain.Covers (ch : RpcCdvdchain) (x : Bool × Nat) : Prop :=
  ch.iop = x.1 ∧ ch.addr ≤ x.2 ∧ x.2 < ch.addr + 2048 * ch.sectors

/-- The entries of a chain that can be read: behind the logo, as far as sectors have
numbers and memories have addresses, fewer than 2^21 sectors in all, and each into a
range of its own. -/
structure Readable (entries : List RpcCdvdchain) : Prop where
  logo : ∀ ch ∈ entries, 13 ≤ ch.lsn
  disc : ∀ ch ∈ entries, ch.lsn + ch.sectors ≤ 4294967296
  memory : ∀ ch ∈ entries, ch.addr + 2048 * ch.sectors ≤ 4294967296
  total : (entries.map RpcCdvdchain.sectors).sum < 2097152
  apart : Exclusive RpcCdvdchain.Covers entries

/-- The whole chain was served, in its order.  The bytes of an entry for the IOP are there
as soon as the entry has been served, and stay there outside the modules' own buffers. -/
structure Serves
    (chain : Nat → RpcCdvdchain) (before : DriveState) (run : ChainRun) : Prop where
  reads :
    run.log.map (List.map ChainRead.sectors) =
      (chainEntries chain 64 0).map fun ch => (entryReads fsvBuf ch).map Asked.sectors
  sent :
    SendsEntries image (chain 65).sectors (chainEntries chain 64 0) 0 run.state.sent
  arrives :
    ∀ k ch, (chainEntries chain 64 0)[k]? = some ch → ch.iop = true →
      ∀ i, i < 2048 * ch.sectors →
        (readchainLoop cfg image world cdvdmanBuf fsvBuf chain (k + 1) 0
            ⟨before, [], 0, 0⟩).state.drive.mem (ch.addr + i) =
          image (2048 * ch.lsn + i)
  iop :
    ∀ ch ∈ chainEntries chain 64 0, ch.iop = true →
      ∀ i, i < 2048 * ch.sectors → ¬ OwnBuffer cdvdmanBuf fsvBuf (ch.addr + i) →
        run.state.drive.mem (ch.addr + i) = image (2048 * ch.lsn + i)
  ee :
    ∀ ch ∈ chainEntries chain 64 0, ch.iop = false →
      ∀ (ee : Nat → UInt8) (i : Nat), i < 2048 * ch.sectors →
        ¬ InPosition (chain 65).sectors (ch.addr + i) →
        eeMemory ee run.state.sent (ch.addr + i) = image (2048 * ch.lsn + i)
  iopFrame :
    ∀ x, ¬ OwnBuffer cdvdmanBuf fsvBuf x →
      (∀ ch ∈ chainEntries chain 64 0, ¬ ch.Covers (true, x)) →
      run.state.drive.mem x = before.mem x
  eeFrame :
    ∀ (ee : Nat → UInt8) (x : Nat), ¬ InPosition (chain 65).sectors x →
      (∀ ch ∈ chainEntries chain 64 0, ¬ ch.Covers (false, x)) →
      eeMemory ee run.state.sent x = ee x

end Purpose

section Entries

variable
  {cfg : Settings}
  {image : Nat → UInt8}
  {world : Nat → FsvTurn}
  {cdvdmanBuf fsvBuf : Nat}

/-- A read that nothing disturbs, to an aligned buffer or to `cdvdfsv_buf`. -/
theorem chainSync_places
    (hworld : ∀ j, (world j).Fine)
    {lsn n buf : Nat} {s : ChainState}
    (hlogo : 13 ≤ lsn)
    (hlsn : lsn + n ≤ 4294967296)
    (hapart :
      buf % 4 ≠ 0 → buf + 2048 * n ≤ cdvdmanBuf ∨ cdvdmanBuf + 4096 ≤ buf)
    {x : Nat}
    (hx : buf % 4 ≠ 0 → x < cdvdmanBuf ∨ cdvdmanBuf + 4096 ≤ x) :
    (chainSync cfg image world cdvdmanBuf lsn n buf s).drive.mem x =
      writeRange s.drive.mem buf (2048 * n) (sectorBytes image lsn) x := by
  obtain ⟨-, -, hdevice⟩ := hworld s.calls
  rw [← chunkBytes_behind image (chunkWidth cfg n buf) hlogo, chainSync]
  dsimp only
  rw [cdvdmanRead_chunks hdevice hlsn hapart hx, breakIf_mem]

/-- An entry for the IOP. -/
theorem readIop_places
    (hworld : ∀ j, (world j).Fine)
    {ch : RpcCdvdchain} {s : ChainState} {before : Nat}
    (hlogo : 13 ≤ ch.lsn)
    (hlsn : ch.lsn + ch.sectors ≤ 4294967296)
    (hposition : s.readpos = 2048 * before)
    (hsectors : before + ch.sectors < 2097152) :
    let run := readIop cfg image world cdvdmanBuf ch s
    run.refused = false ∧ run.reads.map ChainRead.sectors = [ch.sectors] ∧
      run.state.sent = s.sent ∧ run.state.readpos = 2048 * (before + ch.sectors) ∧
      ∀ x, run.state.drive.mem x =
        writeRange s.drive.mem ch.addr (2048 * ch.sectors) (sectorBytes image ch.lsn) x := by
  have haligned : ¬ ch.addr % 4 ≠ 0 := by
    unfold RpcCdvdchain.addr
    omega
  have hgo : ¬ (world s.calls).refused = true := by
    rw [(hworld s.calls).2.1]
    exact Bool.false_ne_true
  unfold readIop
  rw [if_neg hgo]
  refine ⟨rfl, rfl, rfl, ?_, ?_⟩
  · show u32 (s.readpos + ch.sectors * 2048) = 2048 * (before + ch.sectors)
    rw [hposition, u32_of_lt (by omega)]
    omega
  · intro x
    exact chainSync_places hworld hlogo hlsn (fun h => absurd h haligned)
      (fun h => absurd h haligned)

/-- Nothing is left of an entry for the EE. -/
theorem readEe_zero (fuel lsn addr : Nat) (s : ChainState) :
    readEe cfg image world cdvdmanBuf fsvBuf fuel lsn 0 addr s = ⟨s, false, []⟩ := by
  cases fuel with
  | zero => rfl
  | succ fuel => rfl

/-- What the loop of an entry for the EE leaves. -/
structure EeRun
    (image : Nat → UInt8) (cdvdmanBuf fsvBuf lsn addr n before : Nat) (plan : List Asked)
    (s : ChainState) (run : EntryRun) : Prop where
  accepted : run.refused = false
  reads : run.reads.map ChainRead.sectors = plan.map Asked.sectors
  sends : ∃ part, run.state.sent = s.sent ++ part ∧ SendsSectors image part lsn addr n
  position : run.state.readpos = 2048 * (before + n)
  frame :
    ∀ x, ¬ OwnBuffer cdvdmanBuf fsvBuf x → run.state.drive.mem x = s.drive.mem x

/-- A turn of the loop reads a chunk into `cdvdfsv_buf` and sends it. -/
theorem readEe_turn
    (hworld : ∀ j, (world j).Fine)
    {fuel lsn tsectors addr : Nat} {s : ChainState}
    (hpos : 0 < tsectors) :
    let t := chainSync cfg image world cdvdmanBuf lsn (chainSectors tsectors) fsvBuf s
    let dma :=
      [EeDma.data addr (chainSectors tsectors * 2048) (fun i => t.drive.mem (fsvBuf + i))]
    let rest :=
      readEe cfg image world cdvdmanBuf fsvBuf fuel (u32 (lsn + chainSectors tsectors))
        (tsectors - chainSectors tsectors) (u32 (addr + chainSectors tsectors * 2048))
        { t with
          sent := t.sent ++ dma
          readpos := u32 (t.readpos + chainSectors tsectors * 2048) }
    readEe cfg image world cdvdmanBuf fsvBuf (fuel + 1) lsn tsectors addr s =
      { rest with
        reads := ⟨chainSectors tsectors, true, t.drive.events, dma⟩ :: rest.reads } := by
  have hgo : ¬ (world s.calls).refused = true := by
    rw [(hworld s.calls).2.1]
    exact Bool.false_ne_true
  rw [readEe, if_pos hpos, if_neg hgo]

/-- The loop of an entry for the EE: it sends its sectors in order. -/
theorem readEe_sends
    (hworld : ∀ j, (world j).Fine)
    (hbufs :
      fsvBuf + 2048 * cdvdfsvBufSectors ≤ cdvdmanBuf ∨ cdvdmanBuf + 4096 ≤ fsvBuf) :
    ∀ (fuel lsn tsectors addr before : Nat) (s : ChainState),
      tsectors ≤ fuel → 13 ≤ lsn → lsn + tsectors ≤ 4294967296 →
      addr + 2048 * tsectors ≤ 4294967296 → s.readpos = 2048 * before →
      before + tsectors < 2097152 →
      EeRun image cdvdmanBuf fsvBuf lsn addr tsectors before (eeReads fsvBuf fuel tsectors)
        s (readEe cfg image world cdvdmanBuf fsvBuf fuel lsn tsectors addr s) := by
  have hdone :
      ∀ (fuel lsn addr before : Nat) (s : ChainState), s.readpos = 2048 * before →
        EeRun image cdvdmanBuf fsvBuf lsn addr 0 before (eeReads fsvBuf fuel 0) s
          (readEe cfg image world cdvdmanBuf fsvBuf fuel lsn 0 addr s) := by
    intro fuel lsn addr before s hposition
    have hplan : eeReads fsvBuf fuel 0 = [] := by
      cases fuel with
      | zero => rfl
      | succ fuel => rfl
    rw [readEe_zero, hplan]
    exact ⟨rfl, rfl, ⟨[], (List.append_nil _).symm, rfl⟩, hposition, fun _ _ => rfl⟩
  intro fuel
  induction fuel with
  | zero =>
      intro lsn tsectors addr before s hfuel _ _ _ hposition _
      obtain rfl := Nat.le_zero.mp hfuel
      exact hdone 0 lsn addr before s hposition
  | succ fuel ih =>
      intro lsn tsectors addr before s hfuel hlogo hlsn haddr hposition htotal
      rcases Nat.eq_zero_or_pos tsectors with rfl | hpos
      · exact hdone (fuel + 1) lsn addr before s hposition
      · obtain ⟨hn, hle⟩ := chainSectors_bounds hpos
        have hsmall : chainSectors tsectors ≤ cdvdfsvBufSectors := by
          unfold chainSectors
          split_ifs
          · exact Nat.le_refl _
          · omega
        have hplan :
            eeReads fsvBuf (fuel + 1) tsectors =
              ⟨chainSectors tsectors, fsvBuf⟩ ::
                eeReads fsvBuf fuel (tsectors - chainSectors tsectors) := by
          rw [eeReads, if_pos hpos]
        rw [hplan, readEe_turn hworld hpos]
        generalize chainSectors tsectors = n at hn hle hsmall ⊢
        have hplaces : ∀ x, (fsvBuf % 4 ≠ 0 → x < cdvdmanBuf ∨ cdvdmanBuf + 4096 ≤ x) →
            (chainSync cfg image world cdvdmanBuf lsn n fsvBuf s).drive.mem x =
              writeRange s.drive.mem fsvBuf (2048 * n) (sectorBytes image lsn) x :=
          fun x hx =>
            chainSync_places hworld hlogo (by omega) (fun _ => by omega) hx
        have hsent :
            (chainSync cfg image world cdvdmanBuf lsn n fsvBuf s).sent = s.sent := rfl
        have hkept :
            (chainSync cfg image world cdvdmanBuf lsn n fsvBuf s).readpos = s.readpos := rfl
        generalize chainSync cfg image world cdvdmanBuf lsn n fsvBuf s = t
          at hplaces hsent hkept ⊢
        have hbytes :
            ∀ i, i < n * 2048 → t.drive.mem (fsvBuf + i) = sectorBytes image lsn i := by
          intro i hi
          rw [hplaces _ (fun _ => by omega), writeRange_inside _ _ _ (by omega)]
        have hnext : u32 (t.readpos + n * 2048) = 2048 * (before + n) := by
          rw [hkept, hposition, u32_of_lt (by omega)]
          omega
        rw [hnext, hsent]
        have hrest :
            EeRun image cdvdmanBuf fsvBuf (lsn + n) (addr + n * 2048) (tsectors - n)
              (before + n) (eeReads fsvBuf fuel (tsectors - n))
              { t with
                sent :=
                  s.sent ++
                    [.data addr (n * 2048) (fun i => t.drive.mem (fsvBuf + i))]
                readpos := 2048 * (before + n) }
              (readEe cfg image world cdvdmanBuf fsvBuf fuel (u32 (lsn + n)) (tsectors - n)
                (u32 (addr + n * 2048))
                { t with
                  sent :=
                    s.sent ++
                      [.data addr (n * 2048) (fun i => t.drive.mem (fsvBuf + i))]
                  readpos := 2048 * (before + n) }) := by
          rcases Nat.eq_zero_or_pos (tsectors - n) with hzero | hmore
          · -- the sector and the address behind the last chunk are not used
            rw [hzero, readEe_zero, ← readEe_zero fuel (lsn + n) (addr + n * 2048)]
            exact hdone fuel _ _ _ _ rfl
          · rw [u32_of_lt (show lsn + n < 4294967296 by omega),
              u32_of_lt (show addr + n * 2048 < 4294967296 by omega)]
            exact ih _ _ _ _ _ (by omega) (by omega) (by omega) (by omega) rfl (by omega)
        obtain ⟨haccepted, hreads, ⟨part, hpart, hsends⟩, hend, hframe⟩ := hrest
        refine ⟨haccepted, ?_, ?_, ?_, ?_⟩
        · rw [List.map_cons, List.map_cons, hreads]
        · refine ⟨.data addr (n * 2048) (fun i => t.drive.mem (fsvBuf + i)) :: part, ?_, rfl,
            n, hn, hsmall, hle, by omega, hbytes, hsends⟩
          rw [hpart, List.append_assoc, List.singleton_append]
        · rw [hend]
          omega
        · intro x hx
          have hout := hx
          simp only [OwnBuffer, not_or, not_and, not_lt] at hout
          rw [hframe x hx]
          show t.drive.mem x = s.drive.mem x
          rw [hplaces x (fun _ => by omega), writeRange_outside _ _ (by omega)]

/-- What an entry leaves. -/
structure EntryServed
    (image : Nat → UInt8) (cdvdmanBuf fsvBuf : Nat) (ch : RpcCdvdchain) (before : Nat)
    (s : ChainState) (run : EntryRun) : Prop where
  accepted : run.refused = false
  reads : run.reads.map ChainRead.sectors = (entryReads fsvBuf ch).map Asked.sectors
  sends :
    ∃ part, run.state.sent = s.sent ++ part ∧
      SendsSectors image part ch.lsn ch.addr (if ch.iop then 0 else ch.sectors)
  position : run.state.readpos = 2048 * (before + ch.sectors)
  memory :
    ∀ x, ch.iop = true ∨ ¬ OwnBuffer cdvdmanBuf fsvBuf x →
      run.state.drive.mem x = placeAll s.drive.mem (piecesOf image true [ch]) x

theorem readEntry_serves
    (hworld : ∀ j, (world j).Fine)
    (hbufs :
      fsvBuf + 2048 * cdvdfsvBufSectors ≤ cdvdmanBuf ∨ cdvdmanBuf + 4096 ≤ fsvBuf)
    {ch : RpcCdvdchain} {s : ChainState} {before : Nat}
    (hlogo : 13 ≤ ch.lsn)
    (hdisc : ch.lsn + ch.sectors ≤ 4294967296)
    (hmemory : ch.addr + 2048 * ch.sectors ≤ 4294967296)
    (hposition : s.readpos = 2048 * before)
    (hsectors : before + ch.sectors < 2097152) :
    EntryServed image cdvdmanBuf fsvBuf ch before s
      (readEntry cfg image world cdvdmanBuf fsvBuf ch s) := by
  unfold readEntry
  cases hiop : ch.iop with
  | true =>
      obtain ⟨haccepted, hreads, hsent, hend, hmem⟩ :=
        @readIop_places cfg image world cdvdmanBuf hworld ch s before hlogo hdisc hposition
          hsectors
      rw [if_pos rfl]
      refine ⟨haccepted, ?_, ⟨[], ?_, ?_⟩, hend, ?_⟩
      · rw [hreads, entryReads, if_pos hiop]
        rfl
      · rw [hsent, List.append_nil]
      · rw [if_pos hiop]
        rfl
      · intro x _
        have hpieces : piecesOf image true [ch] = [ch.piece image] := by
          simp [piecesOf, hiop]
        rw [hmem, hpieces]
        rfl
  | false =>
      rw [if_neg Bool.false_ne_true]
      obtain ⟨haccepted, hreads, hsends, hend, hframe⟩ :=
        @readEe_sends cfg image world cdvdmanBuf fsvBuf hworld hbufs ch.sectors ch.lsn
          ch.sectors ch.addr before s (Nat.le_refl _) hlogo hdisc hmemory hposition hsectors
      have hnot : ¬ ch.iop = true := by
        rw [hiop]
        exact Bool.false_ne_true
      refine ⟨haccepted, ?_, ?_, hend, ?_⟩
      · rw [hreads, entryReads, if_neg hnot]
      · rw [if_neg hnot]
        exact hsends
      · intro x hx
        have hpieces : piecesOf image true [ch] = [] := by
          simp [piecesOf, hiop]
        rw [hframe x (hx.resolve_left hnot), hpieces]
        rfl

end Entries

section Chain

variable
  {cfg : Settings}
  {image : Nat → UInt8}
  {world : Nat → FsvTurn}
  {cdvdmanBuf fsvBuf : Nat}
  {entries : List RpcCdvdchain}

theorem piecesOf_cons (iop : Bool) (ch : RpcCdvdchain) (entries : List RpcCdvdchain) :
    piecesOf image iop (ch :: entries) =
      piecesOf image iop [ch] ++ piecesOf image iop entries := by
  simp only [piecesOf, ← List.map_append, ← List.filter_append, List.singleton_append]

theorem chainEntries_succ
    {chain : Nat → RpcCdvdchain} {i : Nat}
    (h : ¬ (chain i).Terminates)
    (fuel : Nat) :
    chainEntries chain (fuel + 1) i = chain i :: chainEntries chain fuel (i + 1) := by
  rw [chainEntries, if_neg h]

/-- An entry that is served is followed by the next one. -/
theorem readchainLoop_turn
    {chain : Nat → RpcCdvdchain} {i : Nat} {s : ChainState} {run : EntryRun}
    (hmore : ¬ (chain i).Terminates)
    (hrun : readEntry cfg image world cdvdmanBuf fsvBuf (chain i) s = run)
    (haccepted : run.refused = false)
    (fuel : Nat) :
    let rest :=
      readchainLoop cfg image world cdvdmanBuf fsvBuf chain fuel (i + 1)
        (sendReadpos chain run.state)
    readchainLoop cfg image world cdvdmanBuf fsvBuf chain (fuel + 1) i s =
      { rest with log := run.reads :: rest.log } := by
  have hgo : ¬ run.refused = true := by
    rw [haccepted]
    exact Bool.false_ne_true
  rw [readchainLoop, if_neg hmore, hrun]
  exact if_neg hgo

/-- The loop over the entries: what they leave, in their order. -/
theorem readchainLoop_serves
    (hworld : ∀ j, (world j).Fine)
    (hbufs :
      fsvBuf + 2048 * cdvdfsvBufSectors ≤ cdvdmanBuf ∨ cdvdmanBuf + 4096 ≤ fsvBuf)
    (chain : Nat → RpcCdvdchain) :
    ∀ (fuel i before : Nat) (s : ChainState),
      (∀ ch ∈ chainEntries chain fuel i, 13 ≤ ch.lsn ∧
        ch.lsn + ch.sectors ≤ 4294967296 ∧ ch.addr + 2048 * ch.sectors ≤ 4294967296) →
      s.readpos = 2048 * before →
      before + ((chainEntries chain fuel i).map RpcCdvdchain.sectors).sum < 2097152 →
      let run := readchainLoop cfg image world cdvdmanBuf fsvBuf chain fuel i s
      run.log.map (List.map ChainRead.sectors) =
          (chainEntries chain fuel i).map
            (fun ch => (entryReads fsvBuf ch).map Asked.sectors) ∧
        (∃ more, run.state.sent = s.sent ++ more ∧
          SendsEntries image (chain 65).sectors (chainEntries chain fuel i) before more) ∧
        ∀ x, ¬ OwnBuffer cdvdmanBuf fsvBuf x →
          run.state.drive.mem x =
            placeAll s.drive.mem (piecesOf image true (chainEntries chain fuel i)) x := by
  intro fuel
  induction fuel with
  | zero =>
      intro i before s _ _ _
      exact ⟨rfl, ⟨[], (List.append_nil _).symm, rfl⟩, fun _ _ => rfl⟩
  | succ fuel ih =>
      intro i before s hreadable hposition htotal
      by_cases hend : (chain i).Terminates
      · have hnone : chainEntries chain (fuel + 1) i = [] := by
          rw [chainEntries, if_pos hend]
        rw [readchainLoop, if_pos hend, hnone]
        exact ⟨rfl, ⟨[], (List.append_nil _).symm, rfl⟩, fun _ _ => rfl⟩
      · rw [chainEntries_succ hend] at hreadable htotal ⊢
        rw [List.map_cons, List.sum_cons] at htotal
        obtain ⟨hlogo, hdisc, hmemory⟩ := hreadable (chain i) List.mem_cons_self
        have hentry :=
          @readEntry_serves cfg image world cdvdmanBuf fsvBuf hworld hbufs (chain i) s
            before hlogo hdisc hmemory hposition (by omega)
        generalize hrun : readEntry cfg image world cdvdmanBuf fsvBuf (chain i) s = run
          at hentry
        obtain ⟨haccepted, hreads, ⟨part, hpart, hsends⟩, hstop, hmem⟩ := hentry
        rw [readchainLoop_turn hend hrun haccepted]
        obtain ⟨hlog, ⟨more, hmore, hrest⟩, hplaced⟩ :=
          ih (i + 1) (before + (chain i).sectors) (sendReadpos chain run.state)
            (fun ch hch => hreadable ch (List.mem_cons_of_mem _ hch)) hstop (by omega)
        refine ⟨?_, ?_, ?_⟩
        · rw [List.map_cons, List.map_cons, hreads, hlog]
        · refine ⟨part ++ .data (chain 65).sectors 4
              (leByte (2048 * (before + (chain i).sectors))) :: more, ?_, part, more, rfl,
            hsends, hrest⟩
          rw [hmore, sendReadpos, hpart, hstop, List.append_assoc, List.append_assoc,
            List.singleton_append]
        · intro x hx
          rw [hplaced x hx, piecesOf_cons, placeAll_append]
          exact placeAll_congr (hmem x (Or.inr hx)) _

/-- When an entry for the IOP has been served, its sectors are at their place. -/
theorem readchainLoop_arrives
    (hworld : ∀ j, (world j).Fine)
    (hbufs :
      fsvBuf + 2048 * cdvdfsvBufSectors ≤ cdvdmanBuf ∨ cdvdmanBuf + 4096 ≤ fsvBuf)
    (chain : Nat → RpcCdvdchain) {ch : RpcCdvdchain} {x : Nat}
    (hiop : ch.iop = true)
    (hx : x < 2048 * ch.sectors) :
    ∀ (fuel k i before : Nat) (s : ChainState),
      (∀ ch ∈ chainEntries chain fuel i, 13 ≤ ch.lsn ∧
        ch.lsn + ch.sectors ≤ 4294967296 ∧ ch.addr + 2048 * ch.sectors ≤ 4294967296) →
      s.readpos = 2048 * before →
      before + ((chainEntries chain fuel i).map RpcCdvdchain.sectors).sum < 2097152 →
      (chainEntries chain fuel i)[k]? = some ch →
      (readchainLoop cfg image world cdvdmanBuf fsvBuf chain (k + 1) i
          s).state.drive.mem (ch.addr + x) =
        image (2048 * ch.lsn + x) := by
  intro fuel
  induction fuel with
  | zero =>
      intro k i before s _ _ _ hk
      rw [chainEntries, List.getElem?_nil] at hk
      cases hk
  | succ fuel ih =>
      intro k i before s hreadable hposition htotal hk
      by_cases hend : (chain i).Terminates
      · rw [chainEntries, if_pos hend, List.getElem?_nil] at hk
        cases hk
      · rw [chainEntries_succ hend] at hreadable htotal hk
        rw [List.map_cons, List.sum_cons] at htotal
        obtain ⟨hlogo, hdisc, hmemory⟩ := hreadable (chain i) List.mem_cons_self
        have hentry :=
          @readEntry_serves cfg image world cdvdmanBuf fsvBuf hworld hbufs (chain i) s
            before hlogo hdisc hmemory hposition (by omega)
        generalize hrun : readEntry cfg image world cdvdmanBuf fsvBuf (chain i) s = run
          at hentry
        obtain ⟨haccepted, -, -, hstop, hmem⟩ := hentry
        rw [readchainLoop_turn hend hrun haccepted]
        cases k with
        | zero =>
            obtain rfl : chain i = ch := Option.some.inj hk
            have hpieces : piecesOf image true [chain i] = [(chain i).piece image] := by
              simp [piecesOf, hiop]
            show run.state.drive.mem ((chain i).addr + x) = _
            rw [hmem _ (Or.inl hiop), hpieces]
            exact writeRange_inside _ _ _ hx
        | succ k =>
            exact ih k (i + 1) (before + (chain i).sectors) (sendReadpos chain run.state)
              (fun ch hch => hreadable ch (List.mem_cons_of_mem _ hch)) hstop (by omega) hk

/-- Transfers that bring the sectors of an entry leave them at their place. -/
theorem sendsSectors_memory
    {part : List EeDma} {lsn addr n : Nat}
    (h : SendsSectors image part lsn addr n)
    (m : Nat → UInt8) :
    eeMemory m part = writeRange m addr (2048 * n) (sectorBytes image lsn) := by
  induction part generalizing lsn addr n m with
  | nil =>
      obtain rfl : n = 0 := h
      exact (writeRange_zero m addr _).symm
  | cons d part ih =>
      cases d with
      | data dest size bytes =>
          obtain ⟨rfl, k, -, -, hk, rfl, hbytes, hrest⟩ := h
          have hshift :
              sectorBytes image (lsn + k) = fun i => sectorBytes image lsn (2048 * k + i) := by
            funext i
            unfold sectorBytes
            congr 1
            omega
          have hsize : 2048 * k + 2048 * (n - k) = 2048 * n := by
            omega
          show eeMemory (EeDma.apply m (.data dest (2048 * k) bytes)) part = _
          rw [ih hrest, apply_data, writeRange_congr _ _ _ hbytes, hshift,
            writeRange_adjacent, hsize]
      | readee dest r => exact h.elim
      | progress dest nbytes => exact h.elim

/-- What the transfers of the entries leave outside the position: their pieces. -/
theorem sendsEntries_memory
    {positionAt x : Nat}
    (hx : ¬ InPosition positionAt x)
    {sectors : Nat} {sent : List EeDma}
    (h : SendsEntries image positionAt entries sectors sent)
    (m : Nat → UInt8) :
    eeMemory m sent x = placeAll m (piecesOf image false entries) x := by
  induction entries generalizing sectors sent m with
  | nil =>
      obtain rfl : sent = [] := h
      rfl
  | cons ch entries ih =>
      obtain ⟨part, rest, rfl, hpart, hrest⟩ := h
      have hout : x < positionAt ∨ positionAt + 4 ≤ x := by
        unfold InPosition at hx
        omega
      have hfirst : eeMemory m part = placeAll m (piecesOf image false [ch]) := by
        rw [sendsSectors_memory hpart]
        cases hiop : ch.iop with
        | true => simp [piecesOf, hiop, placeAll]
        | false => simp [piecesOf, hiop, placeAll, RpcCdvdchain.piece]
      rw [eeMemory_append]
      show eeMemory (EeDma.apply (eeMemory m part) _) rest x = _
      rw [ih hrest, piecesOf_cons, placeAll_append, ← hfirst]
      refine placeAll_congr ?_ _
      rw [apply_data, writeRange_outside _ _ hout]

theorem mem_piecesOf
    {iop : Bool} {p : Piece UInt8} :
    p ∈ piecesOf image iop entries ↔ ∃ ch ∈ entries, ch.iop = iop ∧ ch.piece image = p := by
  simp only [piecesOf, List.mem_map, List.mem_filter, beq_iff_eq, and_assoc]

/-- The pieces of entries that lie apart lie apart. -/
theorem piecesOf_exclusive
    (h : Exclusive RpcCdvdchain.Covers entries)
    (iop : Bool) :
    Exclusive Piece.Covers (piecesOf image iop entries) := by
  unfold Exclusive piecesOf
  rw [List.pairwise_map]
  have hkept := (List.Pairwise.filter (fun ch => ch.iop == iop) h)
  refine hkept.imp_of_mem ?_
  intro a b ha hb hab x hboth
  have hiopA : a.iop = iop := by
    simpa using (List.mem_filter.mp ha).2
  have hiopB : b.iop = iop := by
    simpa using (List.mem_filter.mp hb).2
  exact hab (iop, x) ⟨⟨hiopA, hboth.1⟩, ⟨hiopB, hboth.2⟩⟩

/-- The pieces leave what no entry covers. -/
theorem piecesOf_outside
    {iop : Bool} {x : Nat}
    (hx : ∀ ch ∈ entries, ¬ ch.Covers (iop, x))
    (m : Nat → UInt8) :
    placeAll m (piecesOf image iop entries) x = m x := by
  refine placeAll_outside ?_
  intro p hp hcovers
  obtain ⟨ch, hch, hiop, rfl⟩ := mem_piecesOf.mp hp
  exact hx ch hch ⟨hiop, hcovers⟩

/-- The pieces bring an entry its sectors. -/
theorem piecesOf_covered
    (h : Exclusive RpcCdvdchain.Covers entries)
    {ch : RpcCdvdchain} {i : Nat}
    (hch : ch ∈ entries)
    (hi : i < 2048 * ch.sectors)
    (m : Nat → UInt8) :
    placeAll m (piecesOf image ch.iop entries) (ch.addr + i) = image (2048 * ch.lsn + i) := by
  have hcovers : (ch.piece image).Covers (ch.addr + i) :=
    ⟨Nat.le_add_right _ _, Nat.add_lt_add_left hi _⟩
  rw [placeAll_covered (piecesOf_exclusive h ch.iop)
    (mem_piecesOf.mpr ⟨ch, hch, rfl, rfl⟩) hcovers]
  show image (2048 * ch.lsn + (ch.addr + i - ch.addr)) = _
  rw [Nat.add_sub_cancel_left]

end Chain

section Served

variable
  {cfg : Settings}
  {image : Nat → UInt8}
  {world : Nat → FsvTurn}
  {cdvdmanBuf fsvBuf : Nat}

/-- **`cdvd_readchain` serves the whole chain**: every entry before the terminator gets its
sectors at its address, the EE in transfers of at most `CDVDFSV_BUF_SECTORS` sectors, and
behind each entry the EE is sent the number of bytes so far. -/
theorem cdvdReadchain_serves
    (chain : Nat → RpcCdvdchain) (before : DriveState)
    (hworld : ∀ j, (world j).Fine)
    (hbufs :
      fsvBuf + 2048 * cdvdfsvBufSectors ≤ cdvdmanBuf ∨ cdvdmanBuf + 4096 ≤ fsvBuf)
    (hchain : Readable (chainEntries chain 64 0)) :
    Serves cfg image world cdvdmanBuf fsvBuf chain before
      (cdvdReadchain cfg image world cdvdmanBuf fsvBuf chain before) := by
  have heach :
      ∀ ch ∈ chainEntries chain 64 0, 13 ≤ ch.lsn ∧
        ch.lsn + ch.sectors ≤ 4294967296 ∧ ch.addr + 2048 * ch.sectors ≤ 4294967296 :=
    fun ch hch => ⟨hchain.logo ch hch, hchain.disc ch hch, hchain.memory ch hch⟩
  have htotal :
      0 + ((chainEntries chain 64 0).map RpcCdvdchain.sectors).sum < 2097152 := by
    rw [Nat.zero_add]
    exact hchain.total
  obtain ⟨hreads, ⟨sent, hsent, hsends⟩, hplaced⟩ :=
    @readchainLoop_serves cfg image world cdvdmanBuf fsvBuf hworld hbufs chain 64 0 0
      ⟨before, [], 0, 0⟩ heach rfl htotal
  obtain rfl : (cdvdReadchain cfg image world cdvdmanBuf fsvBuf chain before).state.sent =
    sent := hsent
  refine ⟨hreads, hsends, ?_, ?_, ?_, ?_, ?_⟩
  · intro k ch hk hiop i hi
    exact readchainLoop_arrives hworld hbufs chain hiop hi 64 k 0 0 ⟨before, [], 0, 0⟩ heach
      rfl htotal hk
  · intro ch hch hiop i hi hown
    have hcovered := @piecesOf_covered image _ hchain.apart ch i hch hi before.mem
    rw [hiop] at hcovered
    exact (hplaced _ hown).trans hcovered
  · intro ch hch hiop ee i hi hposition
    have hcovered := @piecesOf_covered image _ hchain.apart ch i hch hi ee
    rw [hiop] at hcovered
    exact (sendsEntries_memory hposition hsends ee).trans hcovered
  · intro x hown hout
    exact (hplaced x hown).trans (piecesOf_outside hout before.mem)
  · intro ee x hposition hout
    exact (sendsEntries_memory hposition hsends ee).trans (piecesOf_outside hout ee)

/-- Thirty-three sectors for the EE, three for the IOP, and the terminator. -/
def mixedChain : Nat → RpcCdvdchain :=
  fun i =>
    if i = 0 then ⟨100, 33, 0x100000⟩
    else if i = 1 then ⟨500, 3, 0x40001⟩
    else if i = 65 then ⟨0, 0x90000, 0⟩
    else ⟨0xffffffff, 0, 0⟩

theorem cdvdReadchain_serves_mixed :
    Serves ⟨0, 0⟩ (fun i => UInt8.ofNat (i / 2048)) quietWorld 0x8000 0x10000 mixedChain
      restingDrive
      (cdvdReadchain ⟨0, 0⟩ (fun i => UInt8.ofNat (i / 2048)) quietWorld 0x8000 0x10000
        mixedChain restingDrive) := by
  have hentries :
      chainEntries mixedChain 64 0 = [⟨100, 33, 0x100000⟩, ⟨500, 3, 0x40001⟩] := by
    rfl
  refine cdvdReadchain_serves mixedChain restingDrive quietWorld_fine (by decide) ?_
  rw [hentries]
  refine ⟨by decide, by decide, by decide, by decide, ?_⟩
  refine List.pairwise_pair.mpr ?_
  rintro ⟨iop, x⟩ ⟨⟨hfirst, -⟩, hsecond, -⟩
  exact absurd (hfirst.trans hsecond.symm) (by decide)

end Served

end Fsv
end Ps2Cdvd
