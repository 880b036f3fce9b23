import Ps2Cdvd.Fsv.ReadEE
import Ps2Cdvd.Read.Whole

/-!
# What the reply of `cdvd_readee` says

The loop of the handler looks at three things: whether `sceCdRead` is refused, whether
the error is `CDVD_ERR_ABRT` before a chunk, and how many sectors are left.  It never
asks whether a chunk was read.  A refusal ends it with the bytes sent so far; both other
ends send and return the full number of bytes.

`readeeChunks` are the chunks of a call, with what their reads have done; they are what
the reply is compared with.

* `Stands.turn`: what one turn of the loop does, by the turns before it;

* `readeeLoop_outcome`: how the loop ends, by the turns to come;
* `cdvdReadee_truthful_iff`: exactly when the full number of bytes is only reported for
  chunks that were all read and sent.
-/

namespace Ps2Cdvd
namespace Fsv

open Lib Read

section Purpose

/-- A chunk of the loop: its sectors, the sectors that `sceCdRead` was asked for, what
happened during the read, and the transfers that followed. -/
structure Chunk where
  sectors : Nat
  asked : Nat
  events : List ReadEvent
  dma : List EeDma

/-- The chunk of a call of `sceCdRead`, unless the call was refused. -/
def ReadeeRead.chunk (c : ReadeeCall) (rd : ReadeeRead) : Option Chunk :=
  rd.drive.map (fun drive =>
    { sectors := chunkSectors c.flag64b rd.vars.sectorsToRead
      asked := chunkRead c.flag64b rd.vars.sectorsToRead
      events := drive.events
      dma :=
        chunkDma c rd.vars (chunkSectors c.flag64b rd.vars.sectorsToRead) drive.mem })

/-- The chunks of the calls. -/
def readeeChunks (c : ReadeeCall) (reads : List ReadeeRead) : List Chunk :=
  reads.filterMap (ReadeeRead.chunk c)

/-- The chunk was read without an error, and its data were sent. -/
def Chunk.Delivered (sent : List EeDma) (ch : Chunk) : Prop :=
  sectorsRead ch.events = ch.asked ∧
    ∃ dest size bytes,
      .data dest size bytes ∈ ch.dma ∧ .data dest size bytes ∈ sent

/-- All chunks of `sectors` sectors. -/
def AllDelivered (sectors : Nat) (chunks : List Chunk) (sent : List EeDma) : Prop :=
  (chunks.map Chunk.sectors).sum = sectors ∧ ∀ ch ∈ chunks, ch.Delivered sent

/-- The last count that was sent to `eeaddr2`. -/
def lastCount (sent : List EeDma) : Option Nat :=
  sent.foldl
    (fun last d =>
      match d with
      | .progress _ nbytes => some nbytes
      | _ => last)
    none

variable
  (cfg : Settings)
  (image : Nat → UInt8)
  (world : Nat → FsvTurn)
  (cdvdmanBuf fsvBuf : Nat)

/-- The reply and the last count name the full number of bytes of the request only if
every chunk was read without an error and delivered. -/
def ReadeeTruthful (stack : Readee) (r : RpcCdvd) (s : DriveState) : Prop :=
  ∃ t reply,
    cdvdReadee cfg image world cdvdmanBuf fsvBuf stack r s = some (t, reply) ∧
    ((reply = r.sectors * sectorSize r.datapattern ∨
        lastCount t.sent = some (r.sectors * sectorSize r.datapattern)) →
      AllDelivered r.sectors (readeeChunks (readeeCall fsvBuf r) t.reads) t.sent)

end Purpose

section Conditions

/-- The sectors that are left before turn `k`. -/
def leftBefore (c : ReadeeCall) : Nat → Nat
  | 0 => c.sectors
  | k + 1 => leftBefore c k - chunkSectors c.flag64b (leftBefore c k)

/-- The sectors that `sceCdRead` is asked for in turn `k`. -/
def askedIn (c : ReadeeCall) (k : Nat) : Nat :=
  chunkRead c.flag64b (leftBefore c k)

variable (cfg : Settings) (world : Nat → FsvTurn) (c : ReadeeCall)

/-- A break has ended the read of the chunk before turn `k`. -/
def AbortedBefore : Nat → Prop
  | 0 => False
  | k + 1 => EndsAborted cfg (world k).device (askedIn c k) c.fsvRbuf

/-- The check at the start of turn `k` finds `CDVD_ERR_ABRT`. -/
def CutAt (k : Nat) : Prop :=
  (world k).breaks = true ∨ AbortedBefore cfg world c k

/-- From turn `k` on, `sceCdRead` is refused in some turn that has sectors left, and no
check up to it finds a break. -/
def RefusedFrom (k : Nat) : Prop :=
  ∃ m, k ≤ m ∧ 0 < leftBefore c m ∧ (world m).refused = true ∧
    ∀ j, k ≤ j → j ≤ m → ¬ CutAt cfg world c j

/-- From turn `k` on, in every turn that has sectors left, no check finds a break and
the chunk is read. -/
def ReadsFrom (k : Nat) : Prop :=
  ∀ m, k ≤ m → 0 < leftBefore c m →
    ¬ CutAt cfg world c m ∧
      ReadsAll cfg (world m).device (askedIn c m) c.fsvRbuf

variable {cfg world c} {k : Nat}

theorem leftBefore_succ_le (k : Nat) : leftBefore c (k + 1) ≤ leftBefore c k :=
  Nat.sub_le _ _

/-- Once nothing is left, nothing is left in any later turn. -/
theorem leftBefore_zero
    (hk : leftBefore c k = 0)
    {m : Nat}
    (hm : k ≤ m) :
    leftBefore c m = 0 := by
  induction m, hm using Nat.le_induction with
  | base => exact hk
  | succ m _ ih =>
      have hle := leftBefore_succ_le (c := c) m
      omega

theorem leftBefore_le (k : Nat) : leftBefore c k ≤ c.sectors := by
  induction k with
  | zero => exact le_rfl
  | succ k ih => exact (leftBefore_succ_le k).trans ih

theorem not_refusedFrom_of_done
    (hk : leftBefore c k = 0) :
    ¬ RefusedFrom cfg world c k := by
  rintro ⟨m, hm, hleft, -⟩
  rw [leftBefore_zero hk hm] at hleft
  omega

theorem readsFrom_of_done
    (hk : leftBefore c k = 0) :
    ReadsFrom cfg world c k := by
  intro m hm hleft
  rw [leftBefore_zero hk hm] at hleft
  omega

/-- A refusal from turn `k` on is one in turn `k` or a later one. -/
theorem refusedFrom_iff
    (hk : 0 < leftBefore c k) :
    RefusedFrom cfg world c k ↔
      ¬ CutAt cfg world c k ∧
        ((world k).refused = true ∨ RefusedFrom cfg world c (k + 1)) := by
  constructor
  · rintro ⟨m, hm, hleft, hrefused, hcut⟩
    refine ⟨hcut k le_rfl hm, ?_⟩
    rcases Nat.eq_or_lt_of_le hm with heq | hlt
    · subst heq
      exact Or.inl hrefused
    · exact Or.inr ⟨m, hlt, hleft, hrefused, fun j hj => hcut j (by omega)⟩
  · rintro ⟨hcut, hrefused | ⟨m, hm, hleft, hrefused, hlater⟩⟩
    · refine ⟨k, le_rfl, hk, hrefused, ?_⟩
      intro j hj hj'
      have heq : j = k := le_antisymm hj' hj
      rw [heq]
      exact hcut
    · refine ⟨m, by omega, hleft, hrefused, ?_⟩
      intro j hj hj'
      rcases Nat.eq_or_lt_of_le hj with heq | hlt
      · rw [← heq]
        exact hcut
      · exact hlater j hlt hj'

theorem readsFrom_iff
    (hk : 0 < leftBefore c k) :
    ReadsFrom cfg world c k ↔
      ¬ CutAt cfg world c k ∧
        ReadsAll cfg (world k).device (askedIn c k) c.fsvRbuf ∧
        ReadsFrom cfg world c (k + 1) := by
  constructor
  · intro h
    obtain ⟨hcut, hreads⟩ := h k le_rfl hk
    exact ⟨hcut, hreads, fun m hm => h m (by omega)⟩
  · rintro ⟨hcut, hreads, hlater⟩ m hm hleft
    rcases Nat.eq_or_lt_of_le hm with heq | hlt
    · subst heq
      exact ⟨hcut, hreads⟩
    · exact hlater m hlt hleft

end Conditions

section Turns

/-- Where the loop stands before turn `k`: what is left, and whether a break has ended the
last read. -/
structure Stands
    (cfg : Settings) (world : Nat → FsvTurn) (c : ReadeeCall) (k : Nat)
    (v : ReadeeVars) (s : FsvState) : Prop where
  left : v.sectorsToRead = leftBefore c k
  err : s.drive.err = cdvdErrAbrt ↔ AbortedBefore cfg world c k

variable
  {cfg : Settings}
  {image : Nat → UInt8}
  {world : Nat → FsvTurn}
  {cdvdmanBuf k fuel : Nat}
  {c : ReadeeCall}
  {v : ReadeeVars}
  {s : FsvState}

/-- The check at the start of a turn, by the turns before it. -/
theorem Stands.stops_iff
    (h : Stands cfg world c k v s) :
    (v.sectorsToRead = 0 ∨
        (breakIf (world k).breaks s.drive).err = cdvdErrAbrt) ↔
      leftBefore c k = 0 ∨ CutAt cfg world c k := by
  rw [h.left, CutAt]
  cases hbreaks : (world k).breaks with
  | true => simp [breakIf, sceCdBreak]
  | false =>
      simp only [breakIf, Bool.false_eq_true, if_false, false_or]
      rw [h.err]

theorem askedIn_pos
    (hk : 0 < leftBefore c k) :
    0 < askedIn c k := by
  have hpos := chunkSectors_pos c.flag64b hk
  unfold askedIn chunkRead
  split_ifs
  · omega
  · exact hpos

/-- What turn `k` makes of the loop `out`: the check ends it, `sceCdRead` is refused and
ends it, or a chunk is read and the loop `rest` of the next turn follows. -/
inductive TurnOfLoop
    (cfg : Settings) (image : Nat → UInt8) (world : Nat → FsvTurn) (cdvdmanBuf : Nat)
    (c : ReadeeCall) (k : Nat) (v : ReadeeVars) (s : FsvState)
    (out : Option (FsvState × Nat))
    (rest : ReadeeVars → FsvState → Option (FsvState × Nat)) : Prop
  | ends (t : FsvState)
      (hend : leftBefore c k = 0 ∨ CutAt cfg world c k)
      (hout : out = some (t, c.nbytes))
      (hsent :
        t.sent =
          s.sent ++ [.readee c.eeaddr1 v.readee, .progress c.eeaddr2 c.nbytes])
      (hreads : t.reads = s.reads)
  | refused (t : FsvState)
      (hmore : 0 < leftBefore c k)
      (hcut : ¬ CutAt cfg world c k)
      (hrefused : (world k).refused = true)
      (hout : out = some (t, v.bytesent))
      (hsent : t.sent = s.sent)
      (hreads : t.reads = s.reads ++ [⟨v, none⟩])
  | reads (drive : DriveState)
      (hmore : 0 < leftBefore c k)
      (hcut : ¬ CutAt cfg world c k)
      (hrefused : (world k).refused = false)
      (hdrive :
        drive =
          cdvdmanRead cfg image (world k).device cdvdmanBuf v.lsn (askedIn c k)
            c.fsvRbuf s.drive)
      (hnext :
        ∀ sent reads,
          Stands cfg world c (k + 1)
            (chunkVars c v (chunkSectors c.flag64b v.sectorsToRead) drive.mem)
            ⟨drive, sent, reads⟩)
      (hout :
        out =
          rest (chunkVars c v (chunkSectors c.flag64b v.sectorsToRead) drive.mem)
            ⟨drive,
              s.sent ++
                chunkDma c v (chunkSectors c.flag64b v.sectorsToRead) drive.mem,
              s.reads ++ [⟨v, some drive⟩]⟩)

/-- One turn of the loop. -/
theorem Stands.turn
    (h : Stands cfg world c k v s) :
    TurnOfLoop cfg image world cdvdmanBuf c k v s
      (readeeLoop cfg image world cdvdmanBuf c (fuel + 1) k v s)
      (readeeLoop cfg image world cdvdmanBuf c fuel (k + 1)) := by
  simp only [readeeLoop]
  by_cases hend : leftBefore c k = 0 ∨ CutAt cfg world c k
  · rw [if_pos (h.stops_iff.mpr hend)]
    exact .ends _ hend rfl rfl rfl
  · rw [if_neg (fun hstop => hend (h.stops_iff.mp hstop))]
    rw [not_or] at hend
    obtain ⟨hmore, hcut⟩ := hend
    have hpos : 0 < leftBefore c k := Nat.pos_of_ne_zero hmore
    have hbreaks : (world k).breaks = false :=
      Bool.eq_false_iff.mpr (fun hbreak => hcut (Or.inl hbreak))
    have hasked : chunkRead c.flag64b v.sectorsToRead = askedIn c k := by
      rw [h.left]
      rfl
    rw [hbreaks, hasked]
    simp only [breakIf, Bool.false_eq_true, if_false]
    cases hrefused : (world k).refused with
    | true => exact .refused _ hpos hcut hrefused rfl rfl rfl
    | false =>
        refine .reads _ hpos hcut hrefused rfl ?_ rfl
        intro sent reads
        refine ⟨?_, cdvdmanRead_abrt_iff (askedIn_pos hpos) v.lsn c.fsvRbuf s.drive⟩
        show v.sectorsToRead - _ = _
        rw [h.left]
        rfl

end Turns

section Outcome

variable
  {cfg : Settings}
  {image : Nat → UInt8}
  {world : Nat → FsvTurn}
  {cdvdmanBuf k : Nat}
  {c : ReadeeCall}
  {v : ReadeeVars}
  {s : FsvState}

theorem lastCount_append (sent more : List EeDma) :
    lastCount (sent ++ more) =
      more.foldl
        (fun last d =>
          match d with
          | .progress _ nbytes => some nbytes
          | _ => last)
        (lastCount sent) := by
  rw [lastCount, List.foldl_append]
  rfl

theorem allDelivered_cons
    {ch : Chunk} {chunks : List Chunk} {sent : List EeDma} {sectors : Nat} :
    AllDelivered (ch.sectors + sectors) (ch :: chunks) sent ↔
      ch.Delivered sent ∧ AllDelivered sectors chunks sent := by
  unfold AllDelivered
  rw [List.map_cons, List.sum_cons, List.forall_mem_cons, Nat.add_left_cancel_iff]
  tauto

/-- The numbers of the call do not overflow. -/
structure Sized (c : ReadeeCall) : Prop where
  pos : 64 < c.sectorSize
  small : c.sectors * c.sectorSize < 4294967296

/-- Where the loop stands before turn `k`, and that no more has been counted than was
read. -/
structure Before
    (cfg : Settings) (world : Nat → FsvTurn) (c : ReadeeCall) (k : Nat)
    (v : ReadeeVars) (s : FsvState) : Prop
    extends Stands cfg world c k v s where
  bytesent : v.bytesent ≤ (c.sectors - leftBefore c k) * c.sectorSize
  count :
    ∀ n, lastCount s.sent = some n →
      n ≤ (c.sectors - leftBefore c k) * c.sectorSize

/-- A chunk sends something, and not more than its sectors. -/
theorem chunkSize_bounds
    (hc : Sized c)
    (hk : 0 < leftBefore c k) :
    0 < chunkSize c v (chunkSectors c.flag64b (leftBefore c k)) ∧
      chunkSize c v (chunkSectors c.flag64b (leftBefore c k)) ≤
        chunkSectors c.flag64b (leftBefore c k) * c.sectorSize := by
  have hpos := chunkSectors_pos c.flag64b hk
  have hle :=
    (chunkSectors_le c.flag64b (leftBefore c k)).trans (leftBefore_le (c := c) k)
  have hbytes :
      chunkSectors c.flag64b (leftBefore c k) * c.sectorSize ≤
        c.sectors * c.sectorSize :=
    Nat.mul_le_mul_right _ hle
  have hone :
      c.sectorSize ≤ chunkSectors c.flag64b (leftBefore c k) * c.sectorSize :=
    Nat.le_mul_of_pos_left _ hpos
  have hsize := hc.pos
  have hsmall := hc.small
  unfold chunkSize
  rw [u32_of_lt (by omega)]
  split_ifs
  · rw [u32Sub_of_le (by omega) (by omega)]
    omega
  · omega

/-- The bytes of the sectors read so far and of a chunk. -/
theorem bytes_add
    (hk : leftBefore c k ≤ c.sectors) :
    (c.sectors - leftBefore c k) * c.sectorSize +
        chunkSectors c.flag64b (leftBefore c k) * c.sectorSize =
      (c.sectors - leftBefore c (k + 1)) * c.sectorSize := by
  have hle := chunkSectors_le c.flag64b (leftBefore c k)
  have hsum :
      c.sectors - leftBefore c (k + 1) =
        c.sectors - leftBefore c k + chunkSectors c.flag64b (leftBefore c k) := by
    show c.sectors - (leftBefore c k - chunkSectors c.flag64b (leftBefore c k)) = _
    omega
  rw [hsum, Nat.add_mul]

/-- The transfers of a chunk. -/
theorem chunkDma_eq
    {n : Nat} {mem : Nat → UInt8}
    (hsize : 0 < chunkSize c v n) :
    chunkDma c v n mem =
      [.data v.eeaddr64b (chunkSize c v n)
          (fun i => mem (c.fsvRbuf + v.readee.b1len + i)),
        .progress c.eeaddr2 (u32 (v.bytesent + chunkSize c v n))] := by
  unfold chunkDma
  rw [if_pos hsize]

/-- A chunk whose transfers were sent has been delivered when it was read. -/
theorem delivered_iff
    {n asked : Nat} {events : List ReadEvent} {mem : Nat → UInt8} {sent : List EeDma}
    (hsize : 0 < chunkSize c v n)
    (hsent : ∀ d ∈ chunkDma c v n mem, d ∈ sent) :
    (⟨n, asked, events, chunkDma c v n mem⟩ : Chunk).Delivered sent ↔
      sectorsRead events = asked := by
  have hdata :
      .data v.eeaddr64b (chunkSize c v n)
          (fun i => mem (c.fsvRbuf + v.readee.b1len + i)) ∈ chunkDma c v n mem := by
    rw [chunkDma_eq hsize]
    exact List.mem_cons_self
  exact and_iff_left ⟨_, _, _, hdata, hsent _ hdata⟩

/-- A chunk leads to the next turn. -/
theorem Before.chunk
    {drive : DriveState} {reads : List ReadeeRead}
    (h : Before cfg world c k v s)
    (hc : Sized c)
    (hk : 0 < leftBefore c k)
    (hnext :
      ∀ sent reads,
        Stands cfg world c (k + 1)
          (chunkVars c v (chunkSectors c.flag64b v.sectorsToRead) drive.mem)
          ⟨drive, sent, reads⟩) :
    Before cfg world c (k + 1)
      (chunkVars c v (chunkSectors c.flag64b v.sectorsToRead) drive.mem)
      ⟨drive,
        s.sent ++ chunkDma c v (chunkSectors c.flag64b v.sectorsToRead) drive.mem,
        reads⟩ := by
  have hleft := leftBefore_le (c := c) k
  have hsum := bytes_add (c := c) hleft
  obtain ⟨hsome, hsize⟩ := chunkSize_bounds (v := v) hc hk
  have hsent := h.bytesent
  have hfull :
      (c.sectors - leftBefore c (k + 1)) * c.sectorSize ≤ c.sectors * c.sectorSize :=
    Nat.mul_le_mul_right _ (Nat.sub_le _ _)
  have hsmall := hc.small
  refine ⟨hnext _ _, ?_, ?_⟩
  all_goals
    rw [h.left]
    have hcount :
        u32 (v.bytesent + chunkSize c v (chunkSectors c.flag64b (leftBefore c k))) =
          v.bytesent + chunkSize c v (chunkSectors c.flag64b (leftBefore c k)) :=
      u32_of_lt (by omega)
  · show u32 (v.bytesent + chunkSize c v _) ≤ _
    rw [hcount]
    omega
  · intro n hn
    rw [chunkDma_eq hsome, lastCount_append] at hn
    have hlast :
        some (u32
          (v.bytesent + chunkSize c v (chunkSectors c.flag64b (leftBefore c k)))) =
            some n :=
      hn
    rw [hcount] at hlast
    have heq := Option.some.inj hlast
    omega

/-- What the loop comes to from turn `k` on: a refusal, with less than the full number of
bytes; or the full number, which is true exactly when no break cuts the loop and every
chunk is read. -/
def ComesTo
    (cfg : Settings) (world : Nat → FsvTurn) (c : ReadeeCall) (k : Nat)
    (chunks : List Chunk) (t : FsvState) (reply : Nat) : Prop :=
  (RefusedFrom cfg world c k ∧ reply < c.sectors * c.sectorSize ∧
      ∀ n, lastCount t.sent = some n → n < c.sectors * c.sectorSize) ∨
    (¬ RefusedFrom cfg world c k ∧ reply = c.nbytes ∧
      (AllDelivered (leftBefore c k) chunks t.sent ↔ ReadsFrom cfg world c k))

/-- The check ends the loop. -/
theorem comesTo_stopped
    (hend : leftBefore c k = 0 ∨ CutAt cfg world c k)
    (t : FsvState) :
    ComesTo cfg world c k [] t c.nbytes := by
  refine Or.inr ⟨?_, rfl, ?_⟩
  · rcases hend with hdone | hcut
    · exact not_refusedFrom_of_done hdone
    · rintro ⟨m, hm, -, -, hnone⟩
      exact hnone k le_rfl hm hcut
  · rcases Nat.eq_zero_or_pos (leftBefore c k) with hdone | hmore
    · refine iff_of_true ⟨by rw [hdone]; rfl, ?_⟩ (readsFrom_of_done hdone)
      intro ch hch
      cases hch
    · have hcut : CutAt cfg world c k :=
        hend.resolve_left (Nat.pos_iff_ne_zero.mp hmore)
      refine iff_of_false ?_ ?_
      · rintro ⟨hsum, -⟩
        have hzero : 0 = leftBefore c k := hsum
        omega
      · rw [readsFrom_iff hmore]
        exact fun hreads => hreads.1 hcut

/-- A refusal ends the loop. -/
theorem comesTo_refused
    {t : FsvState}
    (h : Before cfg world c k v s)
    (hc : Sized c)
    (hk : 0 < leftBefore c k)
    (hcut : ¬ CutAt cfg world c k)
    (hrefused : (world k).refused = true)
    (hsent : t.sent = s.sent) :
    ComesTo cfg world c k [] t v.bytesent := by
  have hless :
      (c.sectors - leftBefore c k) * c.sectorSize < c.sectors * c.sectorSize := by
    have hsize := hc.pos
    have hleft := leftBefore_le (c := c) k
    exact Nat.mul_lt_mul_of_pos_right (by omega) (by omega)
  refine Or.inl ⟨?_, h.bytesent.trans_lt hless, ?_⟩
  · exact (refusedFrom_iff hk).mpr ⟨hcut, Or.inl hrefused⟩
  · intro n hn
    rw [hsent] at hn
    exact (h.count n hn).trans_lt hless

/-- A chunk goes before what the rest of the loop comes to. -/
theorem ComesTo.chunk
    {ch : Chunk} {chunks : List Chunk} {t : FsvState} {reply : Nat}
    (h : ComesTo cfg world c (k + 1) chunks t reply)
    (hk : 0 < leftBefore c k)
    (hcut : ¬ CutAt cfg world c k)
    (hrefused : (world k).refused = false)
    (hsplit : leftBefore c k = ch.sectors + leftBefore c (k + 1))
    (hdelivered :
      ch.Delivered t.sent ↔
        ReadsAll cfg (world k).device (askedIn c k) c.fsvRbuf) :
    ComesTo cfg world c k (ch :: chunks) t reply := by
  have hlater : RefusedFrom cfg world c k ↔ RefusedFrom cfg world c (k + 1) := by
    rw [refusedFrom_iff hk, hrefused]
    simp [hcut]
  rw [ComesTo, hlater, readsFrom_iff hk, hsplit, allDelivered_cons, hdelivered,
    and_iff_right hcut]
  rcases h with ⟨hfrom, hless, hlast⟩ | ⟨hfrom, hreply, hall⟩
  · exact Or.inl ⟨hfrom, hless, hlast⟩
  · exact Or.inr ⟨hfrom, hreply, and_congr_right fun _ => hall⟩

/-- How the loop ends. -/
theorem readeeLoop_outcome
    (hc : Sized c) :
    ∀ (fuel k : Nat) (v : ReadeeVars) (s : FsvState),
      Before cfg world c k v s → leftBefore c k < fuel →
      ∃ t reply more reads,
        readeeLoop cfg image world cdvdmanBuf c fuel k v s = some (t, reply) ∧
        t.sent = s.sent ++ more ∧
        t.reads = s.reads ++ reads ∧
        ComesTo cfg world c k (readeeChunks c reads) t reply := by
  intro fuel
  induction fuel with
  | zero =>
      intro k v s _ hfuel
      omega
  | succ fuel ih =>
      intro k v s h hfuel
      cases @Stands.turn cfg image world cdvdmanBuf k fuel c v s h.toStands with
      | ends t hend hout hsent hreads =>
          exact ⟨t, _, _, [], hout, hsent, by rw [hreads, List.append_nil],
            comesTo_stopped hend t⟩
      | refused t hmore hcut hrefused hout hsent hreads =>
          exact ⟨t, _, [], _, hout, by rw [hsent, List.append_nil], hreads,
            comesTo_refused h hc hmore hcut hrefused hsent⟩
      | reads drive hmore hcut hrefused hdrive hnext hout =>
          have hwhole :=
            @cdvdmanRead_whole_iff cfg image (world k).device cdvdmanBuf v.lsn
              (askedIn c k) c.fsvRbuf s.drive
          rw [← hdrive] at hwhole
          have hasked : chunkRead c.flag64b v.sectorsToRead = askedIn c k := by
            rw [h.left]
            rfl
          have hle := chunkSectors_le c.flag64b (leftBefore c k)
          have hn := chunkSectors_pos c.flag64b hmore
          have hsplit :
              leftBefore c k =
                chunkSectors c.flag64b v.sectorsToRead + leftBefore c (k + 1) := by
            rw [h.left]
            show _ = _ + (leftBefore c k - _)
            omega
          have hless : leftBefore c (k + 1) < fuel := by
            show leftBefore c k - chunkSectors c.flag64b (leftBefore c k) < fuel
            omega
          have hsome := (chunkSize_bounds (v := v) hc hmore).1
          rw [← h.left] at hsome
          obtain ⟨t, reply, more, reads, hloop, hsent, hreads, hcomes⟩ :=
            ih (k + 1) _ _ (h.chunk hc hmore hnext) hless
          refine ⟨t, reply, _, ⟨v, some drive⟩ :: reads, hout.trans hloop,
            by rw [hsent, List.append_assoc], by rw [hreads, List.append_assoc]; rfl, ?_⟩
          refine hcomes.chunk hmore hcut hrefused hsplit ?_
          rw [← hasked] at hwhole ⊢
          refine (delivered_iff hsome ?_).trans hwhole
          intro d hd
          rw [hsent]
          exact List.mem_append_left _ (List.mem_append_right _ hd)

/-- The reply and the counts are 32-bit words. -/
theorem readeeLoop_words
    (hnbytes : c.nbytes < 4294967296) :
    ∀ (fuel k : Nat) (v : ReadeeVars) (s t : FsvState) (reply : Nat),
      v.bytesent < 4294967296 →
      (∀ n, lastCount s.sent = some n → n < 4294967296) →
      readeeLoop cfg image world cdvdmanBuf c fuel k v s = some (t, reply) →
      reply < 4294967296 ∧ ∀ n, lastCount t.sent = some n → n < 4294967296 := by
  intro fuel
  induction fuel with
  | zero =>
      intro k v s t reply _ _ hloop
      cases hloop
  | succ fuel ih =>
      intro k v s t reply hbytesent hcount hloop
      simp only [readeeLoop] at hloop
      split_ifs at hloop with hend hrefused hclean
      · cases hloop
        refine ⟨hnbytes, ?_⟩
        intro n hn
        rw [lastCount_append] at hn
        have hlast : some c.nbytes = some n := hn
        exact Option.some.inj hlast ▸ hnbytes
      · cases hloop
        exact ⟨hbytesent, hcount⟩
      · cases hloop
        exact ⟨hbytesent, hcount⟩
      · refine ih _ _ _ _ _ (u32_lt _) ?_ hloop
        intro n hn
        rw [lastCount_append] at hn
        by_cases hsize :
            0 < chunkSize c v (chunkSectors c.flag64b v.sectorsToRead)
        · rw [chunkDma_eq hsize] at hn
          have hlast :
              some (u32
                (v.bytesent +
                  chunkSize c v (chunkSectors c.flag64b v.sectorsToRead))) = some n :=
            hn
          exact Option.some.inj hlast ▸ u32_lt _
        · rw [chunkDma, if_neg hsize] at hn
          have hlast : some v.bytesent = some n := hn
          exact Option.some.inj hlast ▸ hbytesent

end Outcome

section Truth

variable
  {cfg : Settings}
  {image : Nat → UInt8}
  {world : Nat → FsvTurn}
  {cdvdmanBuf fsvBuf : Nat}

theorem sectorSize_pos (datapattern : UInt8) : 64 < sectorSize datapattern := by
  unfold sectorSize
  split_ifs
  · decide
  · decide
  · decide

theorem before_readeeVars
    (stack : Readee) (r : RpcCdvd) (s : DriveState) :
    Before cfg world (readeeCall fsvBuf r) 0 (readeeVars stack r)
      ⟨sceCdDiskReady s, [], []⟩ := by
  refine ⟨⟨rfl, ?_⟩, Nat.zero_le _, ?_⟩
  · exact iff_of_false cdvdErrAbrt_ne.symm id
  · intro n hn
    cases hn

/-- **The reply of `cdvd_readee` is true** exactly when the full number of bytes does not
fit a word, or `sceCdRead` is refused before a check finds a break, or no check finds one
and every chunk is read. -/
theorem cdvdReadee_truthful_iff
    (stack : Readee) (r : RpcCdvd) (s : DriveState) :
    ReadeeTruthful cfg image world cdvdmanBuf fsvBuf stack r s ↔
      4294967296 ≤ r.sectors * sectorSize r.datapattern ∨
        RefusedFrom cfg world (readeeCall fsvBuf r) 0 ∨
        ReadsFrom cfg world (readeeCall fsvBuf r) 0 := by
  rcases Nat.eq_zero_or_pos r.sectors with hnone | hsome
  · -- nothing is read for no sectors
    have hleft : leftBefore (readeeCall fsvBuf r) 0 = 0 := hnone
    refine iff_of_true ⟨⟨s, [], []⟩, 0, ?_, fun _ => ⟨hnone.symm, ?_⟩⟩
      (Or.inr (Or.inr (readsFrom_of_done hleft)))
    · rw [cdvdReadee, if_pos hnone]
    · intro ch hch
      cases hch
  · have hbefore :=
      @before_readeeVars cfg world fsvBuf stack r s
    rcases Nat.lt_or_ge (r.sectors * sectorSize r.datapattern) 4294967296 with
      hsmall | hlarge
    · have hsized : Sized (readeeCall fsvBuf r) :=
        ⟨sectorSize_pos r.datapattern, hsmall⟩
      have hnbytes :
          (readeeCall fsvBuf r).nbytes = r.sectors * sectorSize r.datapattern :=
        u32_of_lt hsmall
      obtain ⟨t, reply, more, reads, hloop, -, hreads, hout⟩ :=
        @readeeLoop_outcome cfg image world cdvdmanBuf _ hsized (r.sectors + 1) 0
          _ _ hbefore (Nat.lt_succ_self _)
      have hcall :
          cdvdReadee cfg image world cdvdmanBuf fsvBuf stack r s = some (t, reply) := by
        rw [cdvdReadee, if_neg (by omega)]
        exact hloop
      have htruth :
          ReadeeTruthful cfg image world cdvdmanBuf fsvBuf stack r s ↔
            ((reply = r.sectors * sectorSize r.datapattern ∨
                lastCount t.sent = some (r.sectors * sectorSize r.datapattern)) →
              AllDelivered r.sectors (readeeChunks (readeeCall fsvBuf r) reads)
                t.sent) := by
        have hall : t.reads = reads := hreads
        rw [← hall]
        constructor
        · rintro ⟨t', reply', hcall', htold⟩
          rw [hcall] at hcall'
          cases hcall'
          exact htold
        · intro htold
          exact ⟨t, reply, hcall, htold⟩
      rw [htruth, or_iff_right (Nat.not_le.mpr hsmall)]
      rcases hout with ⟨hrefused, hless, hlast⟩ | ⟨hrefused, hreply, hall⟩
      · refine iff_of_true ?_ (Or.inl hrefused)
        rintro (hfull | hfull)
        · exact absurd hfull (Nat.ne_of_lt hless)
        · exact absurd (hlast _ hfull) (lt_irrefl _)
      · rw [or_iff_right hrefused, ← hall]
        exact ⟨fun htold => htold (Or.inl (hreply.trans hnbytes)), fun h _ => h⟩
    · refine iff_of_true ?_ (Or.inl hlarge)
      have hreturns :=
        @readeeLoop_returns cfg image world cdvdmanBuf (readeeCall fsvBuf r)
          (r.sectors + 1) 0 (readeeVars stack r) ⟨sceCdDiskReady s, [], []⟩
          (Nat.lt_succ_self _)
      obtain ⟨⟨t, reply⟩, hloop⟩ := Option.isSome_iff_exists.mp hreturns
      obtain ⟨hreply, hcount⟩ :=
        readeeLoop_words (u32_lt _) _ _ _ _ _ _ (by decide : 0 < 4294967296)
          (fun n hn => by cases hn) hloop
      refine ⟨t, reply, ?_, ?_⟩
      · rw [cdvdReadee, if_neg (by omega)]
        exact hloop
      · rintro (hfull | hfull)
        · omega
        · have hword := hcount _ hfull
          omega

end Truth

end Fsv
end Ps2Cdvd
