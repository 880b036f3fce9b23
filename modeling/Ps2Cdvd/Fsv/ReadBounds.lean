import Ps2Cdvd.Fsv.ReadTruth

/-!
# What `cdvd_readee` asks for and what it copies

`requestTurns` are the turns of the loop that call `sceCdRead`: the sectors of the call,
what its device calls did, and the ranges of `cdvdfsv_buf` that are copied afterwards.

For a buffer that is not aligned one more sector is read with every chunk, the last one
included.  And the ranges are counted in sectors of 2328 or 2340 bytes when the data
pattern says so, while a read always stores 2048 bytes for a sector.

* `cdvdReadee_asks_inside_iff`: exactly when every call stays in the request;
* `cdvdReadee_copies_filled_iff`: exactly when every copy is of bytes just read.
-/

namespace Ps2Cdvd
namespace Fsv

open Lib Read

section Purpose

/-- A range of memory that is copied from. -/
structure SourceRange where
  addr : Nat
  size : Nat
deriving DecidableEq

/-- The range covers the address. -/
def SourceRange.Covers (range : SourceRange) (x : Nat) : Prop :=
  range.addr ≤ x ∧ x < range.addr + range.size

/-- The data copies after the read of a chunk: the head of the EE's buffer, the transfer,
and the tail of the EE's buffer. -/
def chunkCopies (c : ReadeeCall) (v : ReadeeVars) (nsectors : Nat) :
    List SourceRange :=
  (if c.flag64b = false ∧ v.sectorsToRead = c.sectors then
    [⟨c.fsvRbuf, v.readee.b1len⟩] else []) ++
  (if 0 < chunkSize c v nsectors then
    [⟨c.fsvRbuf + v.readee.b1len, chunkSize c v nsectors⟩] else []) ++
  (if c.flag64b = false ∧ v.sectorsToRead - nsectors = 0 then
    [⟨c.fsvRbuf + nsectors * c.sectorSize - v.readee.b2len, v.readee.b2len⟩] else [])

/-- A turn of the loop that calls `sceCdRead(lsn, asked, fsvRbuf)`.  After a refusal
nothing is read or copied. -/
structure ReadeeTurn where
  lsn : Nat
  asked : Nat
  events : List ReadEvent
  copies : List SourceRange

/-- The turn of a call of `sceCdRead`. -/
def ReadeeRead.turn (c : ReadeeCall) (rd : ReadeeRead) : ReadeeTurn where
  lsn := rd.vars.lsn
  asked := chunkRead c.flag64b rd.vars.sectorsToRead
  events := (rd.drive.map DriveState.events).getD []
  copies :=
    if rd.drive.isSome then
      chunkCopies c rd.vars (chunkSectors c.flag64b rd.vars.sectorsToRead)
    else []

/-- The read has stored a byte of the disc at the address. -/
def ReadeeTurn.Fills (t : ReadeeTurn) (fsvRbuf x : Nat) : Prop :=
  fsvRbuf ≤ x ∧ SectorFilled t.events t.lsn ((x - fsvRbuf) / 2048)

variable
  (cfg : Settings)
  (image : Nat → UInt8)
  (world : Nat → FsvTurn)
  (cdvdmanBuf fsvBuf : Nat)

/-- The turns of a request. -/
def requestTurns
    (stack : Readee) (r : RpcCdvd) (s : DriveState) : Option (List ReadeeTurn) :=
  (cdvdReadee cfg image world cdvdmanBuf fsvBuf stack r s).map (fun out =>
    out.1.reads.map (ReadeeRead.turn (readeeCall fsvBuf r)))

/-- Every `sceCdRead` asks for sectors of the request. -/
def AsksInside (stack : Readee) (r : RpcCdvd) (s : DriveState) : Prop :=
  ∃ turns, requestTurns cfg image world cdvdmanBuf fsvBuf stack r s = some turns ∧
  ∀ t ∈ turns,
    r.lsn ≤ t.lsn ∧ t.lsn + t.asked ≤ r.lsn + r.sectors

/-- The lengths of the two pieces are below 64, no read stores anything outside
`cdvdfsv_buf`, and every data copy is of bytes that the read before it has stored. -/
def CopiesFilled (stack : Readee) (r : RpcCdvd) (s : DriveState) : Prop :=
  (readeeVars stack r).readee.b1len < 64 ∧ (readeeVars stack r).readee.b2len < 64 ∧
  ∃ turns, requestTurns cfg image world cdvdmanBuf fsvBuf stack r s = some turns ∧
  ∀ t ∈ turns,
    (fsvBuf ≤ (readeeCall fsvBuf r).fsvRbuf ∧
      (readeeCall fsvBuf r).fsvRbuf + 2048 * t.asked ≤
        fsvBuf + 2048 * (cdvdfsvBufSectors + 1)) ∧
    (∀ x, t.Fills (readeeCall fsvBuf r).fsvRbuf x →
      x < (readeeCall fsvBuf r).fsvRbuf + 2048 * t.asked) ∧
    ∀ range ∈ t.copies, ∀ x, range.Covers x → t.Fills (readeeCall fsvBuf r).fsvRbuf x

/-- The request is one of 32-bit words. -/
structure RpcCdvd.Words (r : RpcCdvd) : Prop where
  lsn : r.lsn < 4294967296
  sectors : r.sectors < 4294967296

end Purpose

section Conditions

variable (cfg : Settings) (world : Nat → FsvTurn) (c : ReadeeCall)

/-- From turn `k` on, the loop comes to turn `m` and calls `sceCdRead` there: sectors are
left, no check up to it finds a break, and no call before it is refused. -/
def IssuedFrom (k m : Nat) : Prop :=
  k ≤ m ∧ 0 < leftBefore c m ∧
    (∀ j, k ≤ j → j ≤ m → ¬ CutAt cfg world c j) ∧
    ∀ j, k ≤ j → j < m → (world j).refused = false

/-- The device reads what the copies of turn `m` need.  With sectors of 2048 bytes these
are the sectors of the chunk, and one more for a buffer that does not begin aligned unless
the chunk is the last one.  With larger sectors at most seven sectors must be left, for a
buffer that is not aligned, and all that are asked for must be read. -/
def ChunkCovered (b1len m : Nat) : Prop :=
  if c.sectorSize = 2048 then
    ∀ i,
      i < chunkSectors c.flag64b (leftBefore c m) +
          (if b1len ≠ 0 ∧ 0 < leftBefore c (m + 1) then 1 else 0) →
      SectorRead cfg (world m).device c.fsvRbuf i
  else
    c.flag64b = false ∧ leftBefore c m ≤ 7 ∧
      ∀ i, i ≤ leftBefore c m → SectorRead cfg (world m).device c.fsvRbuf i

variable {cfg world c} {k m : Nat}

theorem issuedFrom_succ
    (h : IssuedFrom cfg world c k m)
    (hne : m ≠ k) :
    (world k).refused = false ∧ IssuedFrom cfg world c (k + 1) m := by
  obtain ⟨hm, hleft, hcut, hgone⟩ := h
  refine ⟨hgone k le_rfl (by omega), by omega, hleft, ?_, ?_⟩
  · intro j hj
    exact hcut j (by omega)
  · intro j hj
    exact hgone j (by omega)

theorem IssuedFrom.of_succ
    (h : IssuedFrom cfg world c (k + 1) m)
    (hcut : ¬ CutAt cfg world c k)
    (hgone : (world k).refused = false) :
    IssuedFrom cfg world c k m := by
  obtain ⟨hm, hleft, hcuts, hgoes⟩ := h
  refine ⟨by omega, hleft, ?_, ?_⟩
  · intro j hj hj'
    rcases Nat.eq_or_lt_of_le hj with heq | hlt
    · rw [← heq]
      exact hcut
    · exact hcuts j hlt hj'
  · intro j hj hj'
    rcases Nat.eq_or_lt_of_le hj with heq | hlt
    · rw [← heq]
      exact hgone
    · exact hgoes j hlt hj'

theorem issuedFrom_self
    (hleft : 0 < leftBefore c k)
    (hcut : ¬ CutAt cfg world c k) :
    IssuedFrom cfg world c k k := by
  refine ⟨le_rfl, hleft, ?_, ?_⟩
  · intro j hj hj'
    have heq : j = k := le_antisymm hj' hj
    rw [heq]
    exact hcut
  · intro j hj hj'
    omega

/-- A check that ends the loop lets no later call happen. -/
theorem not_issuedFrom_of_stop
    (hend : leftBefore c k = 0 ∨ CutAt cfg world c k) :
    ¬ IssuedFrom cfg world c k m := by
  rintro ⟨hm, hleft, hcut, -⟩
  rcases hend with hdone | hstop
  · rw [leftBefore_zero hdone hm] at hleft
    omega
  · exact hcut k le_rfl hm hstop

/-- A call that is refused is the last one. -/
theorem issuedFrom_forall_refused
    {Q : Nat → Prop}
    (hleft : 0 < leftBefore c k)
    (hcut : ¬ CutAt cfg world c k)
    (hgone : (world k).refused = true) :
    (∀ m, IssuedFrom cfg world c k m → Q m) ↔ Q k := by
  constructor
  · intro hall
    exact hall k (issuedFrom_self hleft hcut)
  · intro hq m hm
    by_cases hsame : m = k
    · rw [hsame]
      exact hq
    · have hfalse := (issuedFrom_succ hm hsame).1
      rw [hgone] at hfalse
      cases hfalse

/-- After a call that is not refused come those of the next turns. -/
theorem issuedFrom_forall_read
    {Q : Nat → Prop}
    (hleft : 0 < leftBefore c k)
    (hcut : ¬ CutAt cfg world c k)
    (hgone : (world k).refused = false) :
    (∀ m, IssuedFrom cfg world c k m → Q m) ↔
      Q k ∧ ∀ m, IssuedFrom cfg world c (k + 1) m → Q m := by
  constructor
  · intro hall
    exact ⟨hall k (issuedFrom_self hleft hcut),
      fun m hm => hall m (hm.of_succ hcut hgone)⟩
  · rintro ⟨hq, hlater⟩ m hm
    by_cases hsame : m = k
    · rw [hsame]
      exact hq
    · exact hlater m (issuedFrom_succ hm hsame).2

end Conditions

section Turns

variable
  {cfg : Settings}
  {image : Nat → UInt8}
  {world : Nat → FsvTurn}
  {cdvdmanBuf : Nat}
  {c : ReadeeCall}
  {q : ReadeeVars}

/-- Where the loop stands before turn `k`, when it has begun with the variables `q`. -/
structure BegunWith
    (cfg : Settings) (world : Nat → FsvTurn) (c : ReadeeCall) (q : ReadeeVars)
    (k : Nat) (v : ReadeeVars) (s : FsvState) : Prop
    extends Stands cfg world c k v s where
  lsn : v.lsn = u32 (q.lsn + (c.sectors - leftBefore c k))
  b1len : v.readee.b1len = q.readee.b1len
  b2len : v.readee.b2len = q.readee.b2len

/-- What turn `m` asks for, and what it reads and copies when the call is not refused. -/
structure TurnOf
    (cfg : Settings) (image : Nat → UInt8) (world : Nat → FsvTurn) (cdvdmanBuf : Nat)
    (c : ReadeeCall) (q : ReadeeVars) (m : Nat) (t : ReadeeTurn) : Prop where
  some_left : 0 < leftBefore c m
  lsn : t.lsn = u32 (q.lsn + (c.sectors - leftBefore c m))
  asked : t.asked = askedIn c m
  refused : (world m).refused = true → t.events = [] ∧ t.copies = []
  read :
    (world m).refused = false →
      ∃ v drive,
        v.sectorsToRead = leftBefore c m ∧
        v.readee.b1len = q.readee.b1len ∧ v.readee.b2len = q.readee.b2len ∧
        t.copies = chunkCopies c v (chunkSectors c.flag64b (leftBefore c m)) ∧
        t.events =
          (cdvdmanRead cfg image (world m).device cdvdmanBuf t.lsn t.asked c.fsvRbuf
            drive).events

/-- A chunk leads to the next turn. -/
theorem BegunWith.chunk
    {k : Nat} {v : ReadeeVars} {s t : FsvState} {mem : Nat → UInt8}
    (h : BegunWith cfg world c q k v s)
    (hnext :
      Stands cfg world c (k + 1)
        (chunkVars c v (chunkSectors c.flag64b v.sectorsToRead) mem) t) :
    BegunWith cfg world c q (k + 1)
      (chunkVars c v (chunkSectors c.flag64b v.sectorsToRead) mem) t := by
  refine ⟨hnext, ?_, h.b1len, h.b2len⟩
  have hleft := leftBefore_le (c := c) k
  have hle := chunkSectors_le c.flag64b (leftBefore c k)
  have hsum :
      c.sectors - leftBefore c (k + 1) =
        c.sectors - leftBefore c k + chunkSectors c.flag64b (leftBefore c k) := by
    show c.sectors - (leftBefore c k - chunkSectors c.flag64b (leftBefore c k)) = _
    omega
  rw [h.left]
  show u32 (v.lsn + _) = _
  rw [h.lsn, hsum]
  unfold u32
  omega

/-- A property of the turns that call `sceCdRead`, by the turns that the loop comes to. -/
theorem readeeLoop_forall
    {P : ReadeeTurn → Prop} {Q : Nat → Prop}
    (hturn : ∀ m t, TurnOf cfg image world cdvdmanBuf c q m t → (P t ↔ Q m)) :
    ∀ (fuel k : Nat) (v : ReadeeVars) (s : FsvState),
      BegunWith cfg world c q k v s → leftBefore c k < fuel →
      ∃ t reply reads,
        readeeLoop cfg image world cdvdmanBuf c fuel k v s = some (t, reply) ∧
        t.reads = s.reads ++ reads ∧
        ((∀ rd ∈ reads, P (rd.turn c)) ↔ ∀ m, IssuedFrom cfg world c k m → Q m) := by
  intro fuel
  induction fuel with
  | zero =>
      intro k v s _ hfuel
      omega
  | succ fuel ih =>
      intro k v s h hfuel
      have hasked : chunkRead c.flag64b v.sectorsToRead = askedIn c k := by
        rw [h.left]
        rfl
      cases @Stands.turn cfg image world cdvdmanBuf k fuel c v s h.toStands with
      | ends t hend hout _ hreads =>
          refine ⟨t, _, [], hout, by rw [hreads, List.append_nil], iff_of_true ?_ ?_⟩
          · intro rd hrd
            cases hrd
          · intro m hm
            exact absurd hm (not_issuedFrom_of_stop hend)
      | refused t hmore hcut hrefused hout _ hreads =>
          refine ⟨t, _, _, hout, hreads, ?_⟩
          rw [List.forall_mem_singleton, issuedFrom_forall_refused hmore hcut hrefused]
          refine hturn k _ ⟨hmore, h.lsn, hasked, fun _ => ⟨rfl, rfl⟩, ?_⟩
          intro hfalse
          rw [hrefused] at hfalse
          cases hfalse
      | reads drive hmore hcut hrefused hdrive hnext hout =>
          have hn := chunkSectors_pos c.flag64b hmore
          have hless : leftBefore c (k + 1) < fuel := by
            show leftBefore c k - chunkSectors c.flag64b (leftBefore c k) < fuel
            omega
          obtain ⟨t, reply, reads, hloop, hreads, hall⟩ :=
            ih (k + 1) _ _ (h.chunk (hnext _ _)) hless
          refine ⟨t, reply, ⟨v, some drive⟩ :: reads, hout.trans hloop,
            by rw [hreads, List.append_assoc]; rfl, ?_⟩
          rw [List.forall_mem_cons, hall, issuedFrom_forall_read hmore hcut hrefused]
          refine and_congr_left' (hturn k _ ⟨hmore, h.lsn, hasked, ?_, ?_⟩)
          · intro hfalse
            rw [hrefused] at hfalse
            cases hfalse
          · intro _
            refine ⟨v, s.drive, h.left, h.b1len, h.b2len, ?_, ?_⟩
            · rw [← h.left]
              rfl
            · show drive.events = _
              rw [hdrive, ← hasked]
              rfl

end Turns

section Asked

variable
  {cfg : Settings}
  {image : Nat → UInt8}
  {world : Nat → FsvTurn}
  {cdvdmanBuf fsvBuf : Nat}

theorem begunWith_readeeVars
    {r : RpcCdvd}
    (hr : r.Words)
    (stack : Readee) (s : DriveState) :
    BegunWith cfg world (readeeCall fsvBuf r) (readeeVars stack r) 0 (readeeVars stack r)
      ⟨sceCdDiskReady s, [], []⟩ := by
  refine ⟨⟨rfl, ?_⟩, ?_, rfl, rfl⟩
  · exact iff_of_false cdvdErrAbrt_ne.symm id
  · show r.lsn = u32 (r.lsn + (r.sectors - r.sectors))
    rw [Nat.sub_self, Nat.add_zero, u32_of_lt hr.lsn]

/-- A property of the turns of a request, by the turns that the loop comes to. -/
theorem requestTurns_forall
    {r : RpcCdvd} {P : ReadeeTurn → Prop} {Q : Nat → Prop}
    (hr : r.Words)
    (stack : Readee) (s : DriveState)
    (hturn :
      ∀ m t,
        TurnOf cfg image world cdvdmanBuf (readeeCall fsvBuf r) (readeeVars stack r) m t →
        (P t ↔ Q m)) :
    (∃ turns, requestTurns cfg image world cdvdmanBuf fsvBuf stack r s = some turns ∧
        ∀ t ∈ turns, P t) ↔
      ∀ m, IssuedFrom cfg world (readeeCall fsvBuf r) 0 m → Q m := by
  rw [requestTurns]
  rcases Nat.eq_zero_or_pos r.sectors with hnone | hsome
  · rw [cdvdReadee, if_pos hnone]
    refine iff_of_true ⟨[], rfl, fun t ht => by cases ht⟩ ?_
    intro m hm
    exact absurd hm (not_issuedFrom_of_stop (Or.inl hnone))
  · obtain ⟨t, reply, reads, hloop, hreads, hall⟩ :=
      readeeLoop_forall hturn (r.sectors + 1) 0 _ _ (begunWith_readeeVars hr stack s)
        (Nat.lt_succ_self _)
    rw [cdvdReadee, if_neg hsome.ne', hloop, ← hall]
    have hreads : t.reads = reads := hreads
    simp [hreads]

/-- **`cdvd_readee` asks the drive only for sectors of the request** exactly when, at each
of its calls, the number of the sector has not wrapped, and the chunk is not the last one
of a buffer that is not aligned. -/
theorem cdvdReadee_asks_inside_iff
    {r : RpcCdvd}
    (hr : r.Words)
    (stack : Readee) (s : DriveState) :
    AsksInside cfg image world cdvdmanBuf fsvBuf stack r s ↔
      ∀ m, IssuedFrom cfg world (readeeCall fsvBuf r) 0 m →
        r.lsn + (r.sectors - leftBefore (readeeCall fsvBuf r) m) < 4294967296 ∧
        ((readeeCall fsvBuf r).flag64b = true ∨
          0 < leftBefore (readeeCall fsvBuf r) (m + 1)) := by
  refine requestTurns_forall hr stack s ?_
  intro m t ht
  obtain ⟨hpos, hlsn, hasked, -, -⟩ := ht
  have hlow := hr.lsn
  have hwords := hr.sectors
  have hle : leftBefore (readeeCall fsvBuf r) m ≤ r.sectors := leftBefore_le m
  have hchunk :=
    chunkSectors_le (readeeCall fsvBuf r).flag64b (leftBefore (readeeCall fsvBuf r) m)
  have hnext :
      leftBefore (readeeCall fsvBuf r) (m + 1) =
        leftBefore (readeeCall fsvBuf r) m -
          chunkSectors (readeeCall fsvBuf r).flag64b
            (leftBefore (readeeCall fsvBuf r) m) := rfl
  have hstart : t.lsn = u32 (r.lsn + (r.sectors - leftBefore (readeeCall fsvBuf r) m)) :=
    hlsn
  have hread := (chunkSectors_small (readeeCall fsvBuf r).flag64b
    (leftBefore (readeeCall fsvBuf r) m)).2.2
  rw [askedIn, hread] at hasked
  rw [hasked, hstart, hnext]
  by_cases hwrap :
      r.lsn + (r.sectors - leftBefore (readeeCall fsvBuf r) m) < 4294967296
  · rw [u32_of_lt hwrap]
    cases hflag : (readeeCall fsvBuf r).flag64b with
    | true =>
        rw [hflag] at hchunk
        simp
        omega
    | false =>
        rw [hflag] at hchunk
        simp
        omega
  · refine iff_of_false ?_ (fun h => hwrap h.1)
    rintro ⟨hbelow, -⟩
    unfold u32 at hbelow
    omega

/-- A structure with nothing in it. -/
def emptyReadee : Readee := ⟨0, 0, 0, 0, fun _ => 0, fun _ => 0⟩

/-- Three sectors to an aligned buffer. -/
theorem cdvdReadee_asks_inside_aligned :
    AsksInside ⟨0, 0⟩ (fun _ => 0) quietWorld 0x8000 0x10000 emptyReadee
        ⟨100, 3, 0x100000, 0, 0x200000, 0x200100⟩ restingDrive ↔
      ∀ m,
        IssuedFrom ⟨0, 0⟩ quietWorld
          (readeeCall 0x10000 ⟨100, 3, 0x100000, 0, 0x200000, 0x200100⟩) 0 m →
        100 +
            (3 -
              leftBefore
                (readeeCall 0x10000 ⟨100, 3, 0x100000, 0, 0x200000, 0x200100⟩) m) <
          4294967296 ∧
        ((readeeCall 0x10000 ⟨100, 3, 0x100000, 0, 0x200000, 0x200100⟩).flag64b = true ∨
          0 <
            leftBefore
              (readeeCall 0x10000 ⟨100, 3, 0x100000, 0, 0x200000, 0x200100⟩) (m + 1)) :=
  cdvdReadee_asks_inside_iff ⟨by decide, by decide⟩ emptyReadee restingDrive

/-- One sector to a buffer 4 bytes after an aligned address: two sectors are read. -/
theorem cdvdReadee_asks_past_end :
    ¬ AsksInside ⟨0, 0⟩ (fun _ => 0) quietWorld 0x8000 0x10000 emptyReadee
      ⟨100, 1, 0x100004, 0, 0x200000, 0x200100⟩ restingDrive := by
  rintro ⟨turns, hturns, h⟩
  have hlog :
      (requestTurns ⟨0, 0⟩ (fun _ => 0) quietWorld 0x8000 0x10000 emptyReadee
        ⟨100, 1, 0x100004, 0, 0x200000, 0x200100⟩ restingDrive).map
          (List.map (fun t => (t.lsn, t.asked))) = some [(100, 2)] := by
    decide +kernel
  rw [hturns, Option.map_some, Option.some.injEq] at hlog
  have hsome : (100, 2) ∈ turns.map (fun t => (t.lsn, t.asked)) := by
    rw [hlog]
    exact List.mem_singleton_self _
  obtain ⟨t, ht, heq⟩ := List.mem_map.mp hsome
  obtain ⟨hlsn, hasked⟩ := Prod.mk.inj heq
  have hbound : t.lsn + t.asked ≤ 100 + 1 := (h t ht).2
  rw [hlsn, hasked] at hbound
  omega

end Asked

section Copied

variable
  {cfg : Settings}
  {image : Nat → UInt8}
  {world : Nat → FsvTurn}
  {cdvdmanBuf fsvBuf : Nat}

/-- How the lengths of the two pieces, the alignment and the sector size of a call go
together. -/
structure Placed (c : ReadeeCall) (head tail fsvBuf : Nat) : Prop where
  head_lt : head < 64
  tail_lt : tail < 64
  fsvRbuf : c.fsvRbuf = fsvBuf + tail
  flag64b : c.flag64b = true ↔ head = 0 ∧ tail = 0
  size : c.sectorSize = 2048 ∨ c.sectorSize = 2328 ∨ c.sectorSize = 2340
  both : c.sectorSize = 2048 → c.flag64b = false → head ≠ 0 ∧ tail ≠ 0

theorem placed_readeeCall (stack : Readee) (r : RpcCdvd) :
    Placed (readeeCall fsvBuf r) (readeeVars stack r).readee.b1len
      (readeeVars stack r).readee.b2len fsvBuf := by
  have hbuf : physical r.buf < 536870912 := Nat.mod_lt _ (by decide)
  have htail :
      u32Sub (u32 (physical r.buf + u32 (r.sectors * sectorSize r.datapattern)))
          (alignDown
            (u32 (physical r.buf + u32 (r.sectors * sectorSize r.datapattern)))) =
        u32 (physical r.buf + u32 (r.sectors * sectorSize r.datapattern)) % 64 := by
    have hlt := u32_lt (physical r.buf + u32 (r.sectors * sectorSize r.datapattern))
    rw [u32Sub_of_le (by unfold alignDown; omega) hlt]
    unfold alignDown
    omega
  have hhead :
      (readeeVars stack r).readee.b1len = (64 - physical r.buf % 64) % 64 := by
    show (if physical r.buf % 64 ≠ 0 then
      u32 (u32Sub (alignDown (physical r.buf)) (physical r.buf) + 64) else 0) = _
    split_ifs with haligned
    · unfold alignDown u32Sub u32
      omega
    · omega
  have hrest :
      (readeeVars stack r).readee.b2len =
        u32 (physical r.buf + u32 (r.sectors * sectorSize r.datapattern)) % 64 :=
    htail
  have hflag :
      (readeeCall fsvBuf r).flag64b = true ↔
        physical r.buf % 64 = 0 ∧
          u32 (physical r.buf + u32 (r.sectors * sectorSize r.datapattern)) % 64 = 0 := by
    show decide (_ ∧ _) = true ↔ _
    rw [decide_eq_true_iff, htail]
  refine ⟨by omega, by omega, rfl, ?_, ?_, ?_⟩
  · rw [hflag, hhead, hrest]
    omega
  · show sectorSize r.datapattern = _ ∨ sectorSize r.datapattern = _ ∨
      sectorSize r.datapattern = _
    unfold sectorSize
    split_ifs <;> simp
  · intro hsize hfalse
    have hraw : sectorSize r.datapattern = 2048 := hsize
    have hnot :
        ¬ (physical r.buf % 64 = 0 ∧
          u32 (physical r.buf + u32 (r.sectors * sectorSize r.datapattern)) % 64 = 0) := by
      rw [← hflag, hfalse]
      simp
    rw [hhead, hrest]
    rw [hraw] at hnot ⊢
    unfold u32 at hnot ⊢
    omega

/-- The end of the copies of a chunk, counted from `fsvRbuf`. -/
def chunkReach (c : ReadeeCall) (v : ReadeeVars) (nsectors : Nat) : Nat :=
  if v.sectorsToRead = nsectors ∧ v.readee.b2len ≠ 0 then nsectors * c.sectorSize
  else v.readee.b1len + chunkSize c v nsectors

variable
  {c : ReadeeCall}
  {v : ReadeeVars}
  {n : Nat}

/-- The data that a chunk sends and keeps come from the copied ranges. -/
theorem chunkCopies_sound
    {mem mem' : Nat → UInt8}
    (hsame :
      ∀ range ∈ chunkCopies c v n, ∀ x, range.Covers x → mem x = mem' x) :
    chunkReadee c v n mem = chunkReadee c v n mem' ∧
      ∀ ee, eeMemory ee (chunkDma c v n mem) = eeMemory ee (chunkDma c v n mem') := by
  have hrange :
      ∀ {r : SourceRange}, r ∈ chunkCopies c v n →
        ∀ i, i < r.size → mem (r.addr + i) = mem' (r.addr + i) := by
    intro r hr i hi
    exact hsame r hr _ ⟨by omega, by omega⟩
  constructor
  · have hbuf1 :
        (c.flag64b = false ∧ v.sectorsToRead = c.sectors) →
          writeRange v.readee.buf1 0 v.readee.b1len (fun i => mem (c.fsvRbuf + i)) =
            writeRange v.readee.buf1 0 v.readee.b1len
              (fun i => mem' (c.fsvRbuf + i)) := by
      intro hfirst
      refine writeRange_congr _ _ _ ?_
      refine hrange (r := ⟨c.fsvRbuf, v.readee.b1len⟩) ?_
      simp [chunkCopies, hfirst]
    have hbuf2 :
        (c.flag64b = false ∧ v.sectorsToRead - n = 0) →
          writeRange v.readee.buf2 0 v.readee.b2len
              (fun i => mem (c.fsvRbuf + n * c.sectorSize - v.readee.b2len + i)) =
            writeRange v.readee.buf2 0 v.readee.b2len
              (fun i => mem' (c.fsvRbuf + n * c.sectorSize - v.readee.b2len + i)) := by
      intro hlast
      refine writeRange_congr _ _ _ ?_
      refine hrange
        (r := ⟨c.fsvRbuf + n * c.sectorSize - v.readee.b2len, v.readee.b2len⟩)
        ?_
      simp [chunkCopies, hlast]
    simp only [chunkReadee, Readee.mk.injEq, true_and]
    refine ⟨?_, ?_⟩
    · split_ifs with hfirst
      · exact hbuf1 hfirst
      · rfl
    · split_ifs with hlast
      · exact hbuf2 hlast
      · rfl
  · intro ee
    simp only [chunkDma]
    split_ifs with hsize
    · have hdata :
          writeRange ee v.eeaddr64b (chunkSize c v n)
              (fun i => mem (c.fsvRbuf + v.readee.b1len + i)) =
            writeRange ee v.eeaddr64b (chunkSize c v n)
              (fun i => mem' (c.fsvRbuf + v.readee.b1len + i)) := by
        refine writeRange_congr _ _ _ ?_
        refine hrange
          (r := ⟨c.fsvRbuf + v.readee.b1len, chunkSize c v n⟩) ?_
        simp [chunkCopies, hsize]
      rw [eeMemory_pair, eeMemory_pair, apply_data, apply_data, hdata]
    · rfl

/-- The bytes that are sent for a chunk. -/
theorem chunkSize_cases
    (hplaced : Placed c v.readee.b1len v.readee.b2len fsvBuf)
    (hpos : 0 < n)
    (hsmall : n ≤ 16) :
    (c.flag64b = false ∧ v.sectorsToRead = n ∧ v.readee.b1len ≠ 0 ∧
        chunkSize c v n + 64 = n * c.sectorSize) ∨
      (¬ (c.flag64b = false ∧ v.sectorsToRead = n ∧ v.readee.b1len ≠ 0) ∧
        chunkSize c v n = n * c.sectorSize) := by
  have hbytes : 2048 ≤ n * c.sectorSize ∧ n * c.sectorSize < 4294967296 := by
    rcases hplaced.size with hsize | hsize | hsize
    · rw [hsize]
      omega
    · rw [hsize]
      omega
    · rw [hsize]
      omega
  rw [chunkSize, u32_of_lt hbytes.2]
  split_ifs with hlast
  · obtain ⟨hflag, hleft, hhead⟩ := hlast
    refine Or.inl ⟨hflag, hleft, hhead, ?_⟩
    rw [u32Sub_of_le (by omega) hbytes.2]
    omega
  · exact Or.inr ⟨hlast, rfl⟩

/-- A chunk has 2048 bytes or more. -/
theorem Placed.bytes_le
    (hplaced : Placed c v.readee.b1len v.readee.b2len fsvBuf)
    (hpos : 0 < n) :
    2048 ≤ n * c.sectorSize := by
  rcases hplaced.size with hsize | hsize | hsize
  · rw [hsize]
    omega
  · rw [hsize]
    omega
  · rw [hsize]
    omega

/-- The transfer ends with the copies or before. -/
theorem Placed.chunkSize_le_reach
    (hplaced : Placed c v.readee.b1len v.readee.b2len fsvBuf)
    (hpos : 0 < n)
    (hsmall : n ≤ 16) :
    v.readee.b1len + chunkSize c v n ≤ chunkReach c v n := by
  have hhead := hplaced.head_lt
  rw [chunkReach]
  split_ifs with hend
  · by_cases hnone : v.readee.b1len = 0
    · rcases chunkSize_cases hplaced hpos hsmall with ⟨-, -, hhead, -⟩ | ⟨-, hfull⟩
      · exact absurd hnone hhead
      · omega
    · have hfalse : c.flag64b = false := by
        refine Bool.eq_false_iff.mpr ?_
        intro htrue
        exact hnone (hplaced.flag64b.mp htrue).1
      rcases chunkSize_cases hplaced hpos hsmall with ⟨-, -, -, hless⟩ | ⟨hnot, -⟩
      · omega
      · exact absurd ⟨hfalse, hend.1, hnone⟩ hnot
  · exact le_rfl

/-- The sectors of a range that is copied. -/
theorem sector_of_copied
    {F : Nat → Prop} {addr start size : Nat}
    (hcopies :
      ∀ range ∈ chunkCopies c v n, ∀ x, range.Covers x →
        c.fsvRbuf ≤ x ∧ F ((x - c.fsvRbuf) / 2048))
    (hmem : (⟨addr, size⟩ : SourceRange) ∈ chunkCopies c v n)
    (haddr : addr = c.fsvRbuf + start)
    {x : Nat}
    (hlow : start ≤ x)
    (hhigh : x < start + size) :
    F (x / 2048) := by
  have hcovers : (⟨addr, size⟩ : SourceRange).Covers (c.fsvRbuf + x) :=
    ⟨by simp only; omega, by simp only; omega⟩
  have hat := (hcopies _ hmem _ hcovers).2
  rw [Nat.add_sub_cancel_left] at hat
  exact hat

/-- The copies of a chunk touch every sector below their end. -/
theorem below_reach_of_copies
    {F : Nat → Prop}
    (hplaced : Placed c v.readee.b1len v.readee.b2len fsvBuf)
    (hpos : 0 < n)
    (hsmall : n ≤ 16)
    (hcopies :
      ∀ range ∈ chunkCopies c v n, ∀ x, range.Covers x →
        c.fsvRbuf ≤ x ∧ F ((x - c.fsvRbuf) / 2048))
    (i : Nat)
    (hi : 2048 * i < chunkReach c v n) :
    F i := by
  have hhead := hplaced.head_lt
  have htail := hplaced.tail_lt
  have hbytes := hplaced.bytes_le hpos
  have hsize := chunkSize_cases hplaced hpos hsmall
  have hsent : ∀ x, v.readee.b1len ≤ x →
      x < v.readee.b1len + chunkSize c v n → F (x / 2048) := by
    intro x hlow hhigh
    refine sector_of_copied hcopies ?_ rfl hlow hhigh
    rw [chunkCopies, if_pos (by omega : 0 < chunkSize c v n)]
    simp
  have hself : 2048 * i / 2048 = i := by
    omega
  by_cases hlow : 2048 * i < v.readee.b1len
  · have hfirst := hsent v.readee.b1len le_rfl (by omega)
    have hi0 : v.readee.b1len / 2048 = i := by
      omega
    rw [← hi0]
    exact hfirst
  by_cases hin : 2048 * i < v.readee.b1len + chunkSize c v n
  · rw [← hself]
    exact hsent _ (by omega) hin
  -- the sector begins behind the transfer: the tail touches it
  rw [chunkReach] at hi
  split_ifs at hi with hend
  · have hunaligned : c.flag64b = false ∧ v.sectorsToRead - n = 0 := by
      refine ⟨Bool.eq_false_iff.mpr ?_, by omega⟩
      intro htrue
      exact hend.2 (hplaced.flag64b.mp htrue).2
    have hmem :
        (⟨c.fsvRbuf + n * c.sectorSize - v.readee.b2len, v.readee.b2len⟩ :
            SourceRange) ∈ chunkCopies c v n := by
      rw [chunkCopies, if_pos hunaligned]
      simp
    have hsome := hend.2
    have hlast : (n * c.sectorSize - 1) / 2048 = i := by
      omega
    rw [← hlast]
    exact sector_of_copied hcopies hmem (Nat.add_sub_assoc (by omega) _) (by omega)
      (by omega)
  · exact absurd hi hin

/-- The copies of a chunk touch every sector below their end, and no other. -/
theorem chunkCopies_iff
    {F : Nat → Prop}
    (hplaced : Placed c v.readee.b1len v.readee.b2len fsvBuf)
    (hpos : 0 < n)
    (hsmall : n ≤ 16)
    (hle : n ≤ v.sectorsToRead) :
    (∀ range ∈ chunkCopies c v n, ∀ x, range.Covers x →
        c.fsvRbuf ≤ x ∧ F ((x - c.fsvRbuf) / 2048)) ↔
      ∀ i, 2048 * i < chunkReach c v n → F i := by
  constructor
  · exact below_reach_of_copies hplaced hpos hsmall
  · intro hall range hrange x hx
    have hhead := hplaced.head_lt
    have htail := hplaced.tail_lt
    have hbytes := hplaced.bytes_le hpos
    have hreach := hplaced.chunkSize_le_reach hpos hsmall
    have hsize := chunkSize_cases hplaced hpos hsmall
    have hwithin : ∀ y, x = c.fsvRbuf + y → y < chunkReach c v n →
        c.fsvRbuf ≤ x ∧ F ((x - c.fsvRbuf) / 2048) := by
      rintro y rfl hy
      rw [Nat.add_sub_cancel_left]
      exact ⟨Nat.le_add_right _ _, hall _ (by omega)⟩
    obtain ⟨hlow, hhigh⟩ := hx
    simp only [chunkCopies, List.mem_append, List.mem_ite_nil_right,
      List.mem_singleton] at hrange
    rcases hrange with (⟨-, rfl⟩ | ⟨hsome, rfl⟩) | ⟨⟨-, hdone⟩, rfl⟩
    · simp only at hlow hhigh
      exact hwithin (x - c.fsvRbuf) (by omega) (by omega)
    · simp only at hlow hhigh
      exact hwithin (x - c.fsvRbuf) (by omega) (by omega)
    · simp only at hlow hhigh
      have hend : chunkReach c v n = n * c.sectorSize := by
        rw [chunkReach, if_pos ⟨by omega, by omega⟩]
      exact hwithin (x - c.fsvRbuf) (by omega) (by omega)

/-- Copies that end with sector `k` need all sectors below `k`. -/
theorem below_reach_iff
    {R : Nat → Prop} {reach k asked : Nat}
    (hlow : 2048 * k < reach + 2048)
    (hhigh : reach ≤ 2048 * k)
    (hk : k ≤ asked) :
    (∀ i, 2048 * i < reach → i < asked ∧ R i) ↔ ∀ i, i < k → R i := by
  constructor
  · intro h i hi
    exact (h i (by omega)).2
  · intro h i hi
    exact ⟨by omega, h i (by omega)⟩

/-- Copies that end behind the last sector that is asked for find less. -/
theorem not_below_reach
    {R : Nat → Prop} {reach asked : Nat}
    (hreach : 2048 * asked < reach) :
    ¬ ∀ i, 2048 * i < reach → i < asked ∧ R i := by
  intro h
  exact absurd (h asked hreach).1 (lt_irrefl asked)

/-- Where the copies of an aligned chunk end. -/
theorem Placed.chunkReach_aligned
    (hplaced : Placed c v.readee.b1len v.readee.b2len fsvBuf)
    (haligned : c.flag64b = true)
    (hpos : 0 < n)
    (hsmall : n ≤ 16) :
    chunkReach c v n = n * c.sectorSize := by
  obtain ⟨hhead, htail⟩ := hplaced.flag64b.mp haligned
  rcases chunkSize_cases hplaced hpos hsmall with ⟨-, -, hne, -⟩ | ⟨-, hfull⟩
  · exact absurd hhead hne
  · rw [chunkReach, if_neg (fun h => h.2 htail), hfull, hhead, Nat.zero_add]

/-- Where those of an unaligned chunk end, up to the pieces of the EE's buffer. -/
theorem Placed.chunkReach_unaligned
    (hplaced : Placed c v.readee.b1len v.readee.b2len fsvBuf)
    (haligned : c.flag64b = false)
    (hpos : 0 < n)
    (hsmall : n ≤ 16) :
    chunkReach c v n ≤ n * c.sectorSize + v.readee.b1len ∧
      n * c.sectorSize ≤ chunkReach c v n + 63 ∧
      (v.sectorsToRead = n → chunkReach c v n ≤ n * c.sectorSize) := by
  have hhead := hplaced.head_lt
  have hsize := chunkSize_cases hplaced hpos hsmall
  rw [chunkReach]
  split_ifs with hend
  · omega
  · rcases hsize with ⟨-, -, hne, heq⟩ | ⟨hnot, heq⟩
    · omega
    · refine ⟨by omega, by omega, ?_⟩
      intro hlast
      -- the last chunk of an unaligned buffer without a tail has no head either
      have hnone : v.readee.b1len = 0 := by
        by_contra hsome
        exact hnot ⟨haligned, hlast, hsome⟩
      omega

/-- The size of a chunk of larger sectors. -/
theorem Placed.bytes_large
    (hplaced : Placed c v.readee.b1len v.readee.b2len fsvBuf)
    (hlarge : c.sectorSize ≠ 2048) :
    n * 2328 ≤ n * c.sectorSize ∧ n * c.sectorSize ≤ n * 2340 := by
  rcases hplaced.size with hsize | hsize | hsize
  · exact absurd hsize hlarge
  · rw [hsize]
    omega
  · rw [hsize]
    omega

/-- What the copies of a chunk need, for every alignment and size of a sector. -/
theorem chunkReach_iff
    {R : Nat → Prop}
    (hplaced : Placed c v.readee.b1len v.readee.b2len fsvBuf)
    (hpos : 0 < v.sectorsToRead)
    (hn : n = chunkSectors c.flag64b v.sectorsToRead) :
    (∀ i, 2048 * i < chunkReach c v n →
        i < chunkRead c.flag64b v.sectorsToRead ∧ R i) ↔
      if c.sectorSize = 2048 then
        ∀ i,
          i < n + (if v.readee.b1len ≠ 0 ∧ 0 < v.sectorsToRead - n then 1 else 0) → R i
      else
        c.flag64b = false ∧ v.sectorsToRead ≤ 7 ∧
          ∀ i, i ≤ v.sectorsToRead → R i := by
  have hhead := hplaced.head_lt
  have htail := hplaced.tail_lt
  have hflag := hplaced.flag64b
  obtain ⟨hsixteen, hfifteen, hread⟩ := chunkSectors_small c.flag64b v.sectorsToRead
  have hle := chunkSectors_le c.flag64b v.sectorsToRead
  have hsome : 0 < n := by
    rw [hn]
    exact chunkSectors_pos _ hpos
  have hsize := chunkSize_cases hplaced hsome (by omega)
  rw [← hn] at hread hle hsixteen hfifteen
  rw [hread]
  cases haligned : c.flag64b with
  | true =>
      have hhead := (hflag.mp haligned).1
      rw [hplaced.chunkReach_aligned haligned hsome (by omega), if_neg (by simp),
        Nat.add_zero]
      split_ifs with hss hmore
      · exact absurd hhead hmore.1
      · rw [hss]
        exact below_reach_iff (by omega) (by omega) (by omega)
      · have hlarge := @Placed.bytes_large fsvBuf c v n hplaced hss
        exact iff_of_false (not_below_reach (by omega)) (fun h => by cases h.1)
  | false =>
      rw [if_pos rfl]
      have hfew := hfifteen haligned
      have hfull : v.sectorsToRead = n ∨ n = 15 := by
        rw [hn, haligned]
        unfold chunkSectors cdvdfsvBufSectors
        rw [if_pos rfl]
        split_ifs <;> omega
      split_ifs with hss hmore
      · -- sectors of 2048 bytes, more chunks to come
        obtain ⟨hh, ht⟩ := hplaced.both hss haligned
        rcases hsize with ⟨-, hend, -, -⟩ | ⟨-, heq⟩
        · omega
        · rw [chunkReach, if_neg (by omega), heq, hss]
          exact below_reach_iff (by omega) (by omega) le_rfl
      · obtain ⟨hh, ht⟩ := hplaced.both hss haligned
        have hend : v.sectorsToRead = n := by
          omega
        rw [chunkReach, if_pos ⟨hend, ht⟩, hss]
        exact below_reach_iff (by omega) (by omega) (by omega)
      · have hlarge := @Placed.bytes_large fsvBuf c v n hplaced hss
        have hreach := hplaced.chunkReach_unaligned haligned hsome (by omega)
        by_cases hseven : v.sectorsToRead ≤ 7
        · have hend : v.sectorsToRead = n := by
            omega
          have hupper := hreach.2.2 hend
          rw [below_reach_iff (k := n + 1) (by omega) (by omega) le_rfl, hend]
          simp only [true_and]
          rw [and_iff_right (by omega)]
          exact forall_congr' fun i => by rw [Nat.lt_succ_iff]
        · refine iff_of_false (not_below_reach ?_) (fun h => hseven h.2.1)
          rcases hfull with hend | hfull
          · omega
          · omega

/-- **`cdvd_readee` copies only bytes just read** exactly when, in each turn that reads a
chunk, the device reads what the copies need. -/
theorem cdvdReadee_copies_filled_iff
    {r : RpcCdvd}
    (hr : r.Words)
    (stack : Readee) (s : DriveState) :
    CopiesFilled cfg image world cdvdmanBuf fsvBuf stack r s ↔
      ∀ m, IssuedFrom cfg world (readeeCall fsvBuf r) 0 m →
        (world m).refused = false →
        ChunkCovered cfg world (readeeCall fsvBuf r)
          (readeeVars stack r).readee.b1len m := by
  have hplaced := @placed_readeeCall fsvBuf stack r
  rw [CopiesFilled, and_iff_right hplaced.head_lt, and_iff_right hplaced.tail_lt]
  refine requestTurns_forall hr stack s ?_
  intro m t ht
  obtain ⟨hpos, hlsn, hasked, hrefused, hread⟩ := ht
  obtain ⟨hsixteen, hfifteen, hplus⟩ :=
    chunkSectors_small (readeeCall fsvBuf r).flag64b
      (leftBefore (readeeCall fsvBuf r) m)
  have hfew : t.asked ≤ 16 := by
    rw [hasked, askedIn, hplus]
    split_ifs with hflag
    · have hless := hfifteen hflag
      omega
    · omega
  have hword : t.lsn < 4294967296 := by
    rw [hlsn]
    exact u32_lt _
  have hroom := hplaced.tail_lt
  have hbuf := hplaced.fsvRbuf
  have hinside :
      fsvBuf ≤ (readeeCall fsvBuf r).fsvRbuf ∧
        (readeeCall fsvBuf r).fsvRbuf + 2048 * t.asked ≤
          fsvBuf + 2048 * (cdvdfsvBufSectors + 1) := by
    unfold cdvdfsvBufSectors
    omega
  rw [and_iff_right hinside]
  cases hgone : (world m).refused with
  | true =>
      obtain ⟨hevents, hcopies⟩ := hrefused hgone
      refine iff_of_true ⟨?_, ?_⟩ (fun hfalse => by cases hfalse)
      · rintro x ⟨-, hfilled⟩
        rw [hevents] at hfilled
        exact absurd hfilled not_sectorFilled_nil
      · intro range hrange
        rw [hcopies] at hrange
        cases hrange
  | false =>
      obtain ⟨v, drive, hleft, hhead, htail, hcopies, hevents⟩ := hread hgone
      have hfilled :
          ∀ i, SectorFilled t.events t.lsn i ↔
            i < t.asked ∧
              SectorRead cfg (world m).device (readeeCall fsvBuf r).fsvRbuf i := by
        intro i
        rw [hevents]
        exact cdvdmanRead_filled_iff hword (by omega) _ _
      have hbelow :
          ∀ x, t.Fills (readeeCall fsvBuf r).fsvRbuf x →
            x < (readeeCall fsvBuf r).fsvRbuf + 2048 * t.asked := by
        rintro x ⟨hlow, hat⟩
        have hless := ((hfilled _).mp hat).1
        omega
      rw [and_iff_right hbelow, hcopies, ← hleft]
      rw [← hhead, ← htail] at hplaced
      have hsome := chunkSectors_pos (readeeCall fsvBuf r).flag64b hpos
      have hle := chunkSectors_le (readeeCall fsvBuf r).flag64b
        (leftBefore (readeeCall fsvBuf r) m)
      rw [← hleft] at hsome hle hsixteen hpos hplus
      refine (chunkCopies_iff hplaced hsome hsixteen hle).trans ?_
      have hneed :=
        @chunkReach_iff fsvBuf _ v _
          (SectorRead cfg (world m).device (readeeCall fsvBuf r).fsvRbuf) hplaced hpos
          rfl
      have hnext :
          leftBefore (readeeCall fsvBuf r) (m + 1) =
            v.sectorsToRead -
              chunkSectors (readeeCall fsvBuf r).flag64b v.sectorsToRead := by
        rw [hleft]
        rfl
      simp only [hfilled, true_implies]
      rw [hasked, askedIn, ← hleft, hneed, ChunkCovered, hnext, ← hleft, ← hhead]

/-- Two sectors of 2048 bytes. -/
theorem cdvdReadee_copies_filled_data :
    CopiesFilled ⟨0, 0⟩ (fun _ => 0) quietWorld 0x8000 0x10000 emptyReadee
        ⟨100, 2, 0x100004, 0, 0x200000, 0x200100⟩ restingDrive ↔
      ∀ m,
        IssuedFrom ⟨0, 0⟩ quietWorld
          (readeeCall 0x10000 ⟨100, 2, 0x100004, 0, 0x200000, 0x200100⟩) 0 m →
        (quietWorld m).refused = false →
        ChunkCovered ⟨0, 0⟩ quietWorld
          (readeeCall 0x10000 ⟨100, 2, 0x100004, 0, 0x200000, 0x200100⟩) 60 m :=
  cdvdReadee_copies_filled_iff ⟨by decide, by decide⟩ emptyReadee restingDrive

/-- Eight sectors of 2328 bytes to an aligned buffer: eight of 2048 bytes are read. -/
theorem cdvdReadee_copies_stale :
    ¬ CopiesFilled ⟨0, 0⟩ (fun _ => 0) quietWorld 0x8000 0x10000 emptyReadee
      ⟨100, 8, 0x100000, 1, 0x200000, 0x200100⟩ restingDrive := by
  rintro ⟨-, -, turns, hturns, h⟩
  have hlog :
      (requestTurns ⟨0, 0⟩ (fun _ => 0) quietWorld 0x8000 0x10000 emptyReadee
        ⟨100, 8, 0x100000, 1, 0x200000, 0x200100⟩ restingDrive).map
          (List.map (fun t => (t.lsn, t.events, t.copies))) =
        some [(100, [.call 100 8 true], [⟨0x10000, 18624⟩])] := by
    decide +kernel
  rw [hturns, Option.map_some, Option.some.injEq] at hlog
  have hsome :
      (100, [.call 100 8 true], [⟨0x10000, 18624⟩]) ∈
        turns.map (fun t => (t.lsn, t.events, t.copies)) := by
    rw [hlog]
    exact List.mem_singleton_self _
  obtain ⟨t, ht, heq⟩ := List.mem_map.mp hsome
  simp only [Prod.mk.injEq] at heq
  obtain ⟨hlsn, hevents, hcopies⟩ := heq
  have hrange : (⟨0x10000, 18624⟩ : SourceRange) ∈ t.copies := by
    rw [hcopies]
    exact List.mem_singleton_self _
  obtain ⟨-, hfilled⟩ := (h t ht).2.2 _ hrange 0x14000 ⟨by decide, by decide⟩
  rw [hevents, hlsn] at hfilled
  have hcall :=
    (@sectorFilled_call 100 ((0x14000 - 0x10000) / 2048) 0 8 true (by decide)
      (by decide)).mp hfilled
  exact absurd hcall.2.2 (by decide)

end Copied

end Fsv
end Ps2Cdvd
