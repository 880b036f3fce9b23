import Ps2Cdvd.Read.Sectors

/-!
# Reads into EE memory: `cdvd_readee`

The handler of CDVDFSV reads a request in chunks into `cdvdfsv_buf` and sends
them to the EE by DMA, whose destinations must be 64-byte aligned.  For a buffer
that is not aligned every chunk is stored `b2len` bytes into `cdvdfsv_buf`, is
followed by one more sector, and is sent from the first aligned EE address on;
the bytes before and after the aligned part go into a `cdvdfsv_readee_t`, from
which the EE copies them.

Each turn of the handler's loop meets one `FsvTurn`: a break before the check of
the error, a refusal of `sceCdRead`, and the device turns of its read.

* `readeeLoop_returns`: the loop ends, whatever happens;
* `cdvdReadee_delivers`: without errors the EE has the sectors asked for.
-/

namespace Ps2Cdvd
namespace Fsv

open Lib Read

section Source

/-- The request `RpcCdvd_t`. -/
structure RpcCdvd where
  lsn : Nat
  sectors : Nat
  buf : Nat
  datapattern : UInt8
  eeaddr1 : Nat
  eeaddr2 : Nat

/-- `cdvdfsv_readee_t` -/
structure Readee where
  b1len : Nat
  b2len : Nat
  pdst1 : Nat
  pdst2 : Nat
  buf1 : Nat → UInt8
  buf2 : Nat → UInt8

/-- Byte `i` of a little-endian word. -/
def leByte (n i : Nat) : UInt8 := UInt8.ofNat (n / 256 ^ i)

/-- The 144 bytes of the structure. -/
def Readee.bytes (r : Readee) : Nat → UInt8 :=
  fun i =>
    if i < 4 then leByte r.b1len i
    else if i < 8 then leByte r.b2len (i - 4)
    else if i < 12 then leByte r.pdst1 (i - 8)
    else if i < 16 then leByte r.pdst2 (i - 12)
    else if i < 80 then r.buf1 (i - 16)
    else r.buf2 (i - 80)

/-- A DMA transfer of `sysmemSendEE`: data, the structure to `eeaddr1`, or the
16 bytes of `curlsn_buf` to `eeaddr2`. -/
inductive EeDma
  | data (dest size : Nat) (bytes : Nat → UInt8)
  | readee (dest : Nat) (r : Readee)
  | progress (dest nbytes : Nat)

/-- What the transfer leaves in EE memory. -/
def EeDma.apply (m : Nat → UInt8) : EeDma → Nat → UInt8
  | .data dest size bytes => writeRange m dest size bytes
  | .readee dest r => writeRange m dest 144 r.bytes
  | .progress dest nbytes =>
      writeRange m dest 16 (fun i => if i < 4 then leByte nbytes i else 0)

/-- What one turn of the loop meets outside it. -/
structure FsvTurn where
  breaks : Bool
  refused : Bool
  device : Nat → DeviceTurn

/-- `CDVD_ERR_READCF` -/
def cdvdErrReadcf : Int := 0xFD

/-- `CDVDFSV_BUF_SECTORS`, that is `CDVDMAN_FS_SECTORS + 1`. -/
def cdvdfsvBufSectors : Nat := 16

/-- `sector_size` -/
def sectorSize (datapattern : UInt8) : Nat :=
  if datapattern ≠ 1 then
    if datapattern ≠ 2 then 2048 else 2340
  else 2328

/-- `x & 0x1fffffff` -/
def physical (x : Nat) : Nat := x % 536870912

/-- `x & 0xffffffc0` -/
def alignDown (x : Nat) : Nat := x / 64 * 64

/-- What is fixed before the loop. -/
structure ReadeeCall where
  sectors : Nat
  nbytes : Nat
  sectorSize : Nat
  fsvRbuf : Nat
  flag64b : Bool
  eeaddr1 : Nat
  eeaddr2 : Nat

/-- The variables of the loop. -/
structure ReadeeVars where
  lsn : Nat
  sectorsToRead : Nat
  bytesent : Nat
  eeaddr64b : Nat
  readee : Readee

/-- A call of `sceCdRead` in the loop: the variables before it and, unless it was refused,
the drive behind the read. -/
structure ReadeeRead where
  vars : ReadeeVars
  drive : Option DriveState

/-- CDVDMAN, the transfers sent so far, and the calls of `sceCdRead`. -/
structure FsvState where
  drive : DriveState
  sent : List EeDma
  reads : List ReadeeRead

/-- `sceCdDiskReady(0)`, once no read is in progress. -/
def sceCdDiskReady (s : DriveState) : DriveState := { s with err := cdvdErrNo }

/-- `nsectors` -/
def chunkSectors (flag64b : Bool) (sectorsToRead : Nat) : Nat :=
  if flag64b = false then
    if sectorsToRead < cdvdfsvBufSectors then sectorsToRead
    else cdvdfsvBufSectors - 1
  else
    if sectorsToRead < cdvdfsvBufSectors + 1 then sectorsToRead
    else cdvdfsvBufSectors

/-- Sectors that are read for the chunk. -/
def chunkRead (flag64b : Bool) (sectorsToRead : Nat) : Nat :=
  if flag64b = false then chunkSectors flag64b sectorsToRead + 1
  else chunkSectors flag64b sectorsToRead

/-- `size_64bb`, for a chunk of `nsectors` sectors. -/
def chunkSize (c : ReadeeCall) (v : ReadeeVars) (nsectors : Nat) : Nat :=
  if c.flag64b = false ∧ v.sectorsToRead = nsectors ∧ v.readee.b1len ≠ 0 then
    u32Sub (u32 (nsectors * c.sectorSize)) 64
  else u32 (nsectors * c.sectorSize)

/-- `readee` after the chunk: the head of the buffer with the first one, its tail
with the last one. -/
def chunkReadee
    (c : ReadeeCall) (v : ReadeeVars) (nsectors : Nat) (mem : Nat → UInt8) :
    Readee :=
  { v.readee with
    buf1 :=
      if c.flag64b = false ∧ v.sectorsToRead = c.sectors then
        writeRange v.readee.buf1 0 v.readee.b1len (fun i => mem (c.fsvRbuf + i))
      else v.readee.buf1
    buf2 :=
      if c.flag64b = false ∧ v.sectorsToRead - nsectors = 0 then
        writeRange v.readee.buf2 0 v.readee.b2len
          (fun i =>
            mem (c.fsvRbuf + nsectors * c.sectorSize - v.readee.b2len + i))
      else v.readee.buf2 }

/-- The transfers of the chunk. -/
def chunkDma
    (c : ReadeeCall) (v : ReadeeVars) (nsectors : Nat) (mem : Nat → UInt8) :
    List EeDma :=
  let size := chunkSize c v nsectors
  if 0 < size then
    [.data v.eeaddr64b size (fun i => mem (c.fsvRbuf + v.readee.b1len + i)),
      .progress c.eeaddr2 (u32 (v.bytesent + size))]
  else [.progress c.eeaddr2 v.bytesent]

/-- The variables after the chunk. -/
def chunkVars
    (c : ReadeeCall) (v : ReadeeVars) (nsectors : Nat) (mem : Nat → UInt8) :
    ReadeeVars where
  lsn := u32 (v.lsn + nsectors)
  sectorsToRead := v.sectorsToRead - nsectors
  bytesent := u32 (v.bytesent + chunkSize c v nsectors)
  eeaddr64b := u32 (v.eeaddr64b + nsectors * c.sectorSize)
  readee := chunkReadee c v nsectors mem

variable
  (cfg : Settings)
  (image : Nat → UInt8)
  (world : Nat → FsvTurn)
  (cdvdmanBuf : Nat)

/-- The loop from turn `k` on: the state and the reply. -/
def readeeLoop (c : ReadeeCall) :
    (fuel k : Nat) → ReadeeVars → FsvState → Option (FsvState × Nat)
  | 0, _, _, _ => none
  | fuel + 1, k, v, s =>
      let out := world k
      let drive := breakIf out.breaks s.drive
      if v.sectorsToRead = 0 ∨ drive.err = cdvdErrAbrt then
        some
          (⟨drive,
              s.sent ++
                [.readee c.eeaddr1 v.readee, .progress c.eeaddr2 c.nbytes],
              s.reads⟩,
            c.nbytes)
      else if out.refused then
        some
          (⟨{ drive with
                err :=
                  if drive.err = cdvdErrNo then cdvdErrReadcf else drive.err },
              s.sent, s.reads ++ [⟨v, none⟩]⟩,
            v.bytesent)
      else
        let n := chunkSectors c.flag64b v.sectorsToRead
        let drive :=
          cdvdmanRead cfg image out.device cdvdmanBuf v.lsn
            (chunkRead c.flag64b v.sectorsToRead) c.fsvRbuf drive
        readeeLoop c fuel (k + 1) (chunkVars c v n drive.mem)
          ⟨drive, s.sent ++ chunkDma c v n drive.mem, s.reads ++ [⟨v, some drive⟩]⟩

variable (fsvBuf : Nat)

/-- What is fixed before the loop for the request `r`. -/
def readeeCall (r : RpcCdvd) : ReadeeCall :=
  let buf := physical r.buf
  let nbytes := u32 (r.sectors * sectorSize r.datapattern)
  let temp := u32 (buf + nbytes)
  { sectors := r.sectors
    nbytes := nbytes
    sectorSize := sectorSize r.datapattern
    fsvRbuf := fsvBuf + u32Sub temp (alignDown temp)
    flag64b := buf % 64 = 0 ∧ u32Sub temp (alignDown temp) = 0
    eeaddr1 := physical r.eeaddr1
    eeaddr2 := physical r.eeaddr2 }

/-- The variables before the first turn; `stack` is what the uninitialised
structure holds. -/
def readeeVars (stack : Readee) (r : RpcCdvd) : ReadeeVars :=
  let buf := physical r.buf
  let temp := u32 (buf + u32 (r.sectors * sectorSize r.datapattern))
  { lsn := r.lsn
    sectorsToRead := r.sectors
    bytesent := 0
    eeaddr64b := alignDown (u32 (buf + 0x3f))
    readee :=
      { b1len :=
          if buf % 64 ≠ 0 then u32 (u32Sub (alignDown buf) buf + 64) else 0
        b2len := u32Sub temp (alignDown temp)
        pdst1 := buf
        pdst2 := alignDown temp
        buf1 := stack.buf1
        buf2 := stack.buf2 } }

/-- `cdvd_readee` -/
def cdvdReadee
    (stack : Readee) (r : RpcCdvd) (s : DriveState) :
    Option (FsvState × Nat) :=
  if r.sectors = 0 then some (⟨s, [], []⟩, 0)
  else
    readeeLoop cfg image world cdvdmanBuf (readeeCall fsvBuf r) (r.sectors + 1) 0
      (readeeVars stack r) ⟨sceCdDiskReady s, [], []⟩

end Source

section Purpose

/-- EE memory after the transfers. -/
def eeMemory (ee : Nat → UInt8) (sent : List EeDma) : Nat → UInt8 :=
  sent.foldl EeDma.apply ee

/-- The structure that the EE has received last. -/
def received : List EeDma → Option Readee
  | [] => none
  | .readee _ r :: rest =>
      match received rest with
      | some r' => some r'
      | none => some r
  | .data _ _ _ :: rest => received rest
  | .progress _ _ :: rest => received rest

/-- The EE copies `buf1` to `pdst1` and `buf2` to `pdst2`. -/
def Readee.copyOut (r : Readee) (m : Nat → UInt8) : Nat → UInt8 :=
  writeRange (writeRange m r.pdst1 r.b1len r.buf1) r.pdst2 r.b2len r.buf2

/-- The address belongs to one of the reply areas. -/
def InReply (r : RpcCdvd) (x : Nat) : Prop :=
  (physical r.eeaddr1 ≤ x ∧ x < physical r.eeaddr1 + 144) ∨
    (physical r.eeaddr2 ≤ x ∧ x < physical r.eeaddr2 + 16)

/-- A transfer of data covers only whole blocks of 64 bytes inside
`[lo, hi)`. -/
def EeDma.Inside (lo hi : Nat) : EeDma → Prop
  | .data dest size _ =>
      64 ∣ dest ∧ alignDown (lo + 63) ≤ dest ∧ dest + size ≤ alignDown hi
  | _ => True

/-- Nothing disturbs the turn. -/
def FsvTurn.Fine (out : FsvTurn) : Prop :=
  out.breaks = false ∧ out.refused = false ∧
    ∀ t, ¬ (out.device t).Disturbed

end Purpose

section Termination

variable
  {cfg : Settings}
  {image : Nat → UInt8}
  {world : Nat → FsvTurn}
  {cdvdmanBuf : Nat}

theorem chunkSectors_le (flag64b : Bool) (n : Nat) :
    chunkSectors flag64b n ≤ n := by
  unfold chunkSectors cdvdfsvBufSectors
  split_ifs <;> omega

theorem chunkSectors_pos
    {n : Nat}
    (flag64b : Bool)
    (hn : 0 < n) :
    0 < chunkSectors flag64b n := by
  unfold chunkSectors cdvdfsvBufSectors
  split_ifs <;> omega

/-- The loop ends, whatever reads are refused or fail and whenever breaks
arrive: every turn that goes on has read at least one sector. -/
theorem readeeLoop_returns (c : ReadeeCall) :
    ∀ (fuel k : Nat) (v : ReadeeVars) (s : FsvState),
      v.sectorsToRead < fuel →
      (readeeLoop cfg image world cdvdmanBuf c fuel k v s).isSome = true := by
  intro fuel
  induction fuel with
  | zero =>
      intro _ _ _ hfuel
      omega
  | succ fuel ih =>
      intro k v s hfuel
      simp only [readeeLoop]
      split_ifs with hend hrefused herr
      · rfl
      · rfl
      · rfl
      · apply ih
        have hmore : 0 < v.sectorsToRead := by
          rw [not_or] at hend
          omega
        have hpos := chunkSectors_pos c.flag64b hmore
        show v.sectorsToRead - chunkSectors c.flag64b v.sectorsToRead < fuel
        omega

end Termination

section Chunks

/-- What a request asks for: `sectors` sectors from `lsn` on, to the physical
address `buf`. -/
structure Plan where
  lsn : Nat
  sectors : Nat
  buf : Nat

/-- The bytes before the first aligned address. -/
def Plan.head (p : Plan) : Nat := (64 - p.buf % 64) % 64

/-- The bytes after the last aligned address. -/
def Plan.tail (p : Plan) : Nat := p.buf % 64

/-- The bytes sent once `k` sectors have been read. -/
def Plan.sentBytes (p : Plan) (k : Nat) : Nat :=
  if k = p.sectors then 2048 * p.sectors - p.head - p.tail else 2048 * k

/-- The call carries out the plan, with replies to the areas of `r`. -/
structure CarriesOut (p : Plan) (fsvBuf : Nat) (r : RpcCdvd) (c : ReadeeCall) :
    Prop where
  pos : 0 < p.sectors
  range : p.buf + 2048 * p.sectors < 536870912
  logo : 13 ≤ p.lsn
  disc : p.lsn + p.sectors + (if p.tail = 0 then 0 else 1) ≤ 4294967296
  sectors : c.sectors = p.sectors
  nbytes : c.nbytes = 2048 * p.sectors
  sectorSize : c.sectorSize = 2048
  fsvRbuf : c.fsvRbuf = fsvBuf + p.tail
  flag64b : c.flag64b = decide (p.tail = 0)
  eeaddr1 : c.eeaddr1 = physical r.eeaddr1
  eeaddr2 : c.eeaddr2 = physical r.eeaddr2

/-- The lengths and addresses of the two pieces that the EE copies. -/
structure Pieces (p : Plan) (q : Readee) : Prop where
  b1len : q.b1len = p.head
  b2len : q.b2len = p.tail
  pdst1 : q.pdst1 = p.buf
  pdst2 : q.pdst2 = p.buf + 2048 * p.sectors - p.tail

/-- After `k` sectors: where the loop is, what the two pieces hold and what the
EE has. -/
structure Done
    (p : Plan) (image : Nat → UInt8) (r : RpcCdvd) (ee : Nat → UInt8) (k : Nat)
    (v : ReadeeVars) (s : FsvState) : Prop where
  le : k ≤ p.sectors
  lsn : k < p.sectors → v.lsn = p.lsn + k
  left : v.sectorsToRead = p.sectors - k
  bytesent : v.bytesent = p.sentBytes k
  eeaddr : k < p.sectors → v.eeaddr64b = p.buf + p.head + 2048 * k
  pieces : Pieces p v.readee
  buf1 : 0 < k → ∀ i, i < p.head → v.readee.buf1 i = image (2048 * p.lsn + i)
  buf2 :
    k = p.sectors → ∀ i, i < p.tail →
      v.readee.buf2 i = image (2048 * p.lsn + 2048 * p.sectors - p.tail + i)
  err : s.drive.err = cdvdErrNo
  inside : ∀ d ∈ s.sent, d.Inside p.buf (p.buf + 2048 * p.sectors)
  memory :
    ∀ x, p.buf + p.head ≤ x → x < p.buf + p.head + v.bytesent → ¬ InReply r x →
      eeMemory ee s.sent x = image (2048 * p.lsn + (x - p.buf))

variable
  {cfg : Settings}
  {image : Nat → UInt8}
  {cdvdmanBuf fsvBuf : Nat}
  {p : Plan}
  {r : RpcCdvd}
  {c : ReadeeCall}
  {ee : Nat → UInt8}
  {k : Nat}
  {v : ReadeeVars}
  {s : FsvState}

theorem Plan.head_add_tail (p : Plan) :
    (p.tail = 0 ∧ p.head = 0) ∨ (0 < p.tail ∧ p.head + p.tail = 64) := by
  unfold Plan.head Plan.tail
  omega

/-- The largest chunks, and what is read for a chunk. -/
theorem chunkSectors_small (flag64b : Bool) (n : Nat) :
    chunkSectors flag64b n ≤ 16 ∧
      (flag64b = false → chunkSectors flag64b n ≤ 15) ∧
      chunkRead flag64b n =
        chunkSectors flag64b n + if flag64b = false then 1 else 0 := by
  cases flag64b with
  | false =>
      have hle : chunkSectors false n ≤ 15 := by
        unfold chunkSectors cdvdfsvBufSectors
        rw [if_pos rfl]
        split_ifs <;> omega
      exact ⟨by omega, fun _ => hle, rfl⟩
  | true =>
      have hle : chunkSectors true n ≤ 16 := by
        unfold chunkSectors cdvdfsvBufSectors
        rw [if_neg (by decide)]
        split_ifs <;> omega
      refine ⟨hle, ?_, rfl⟩
      intro hfalse
      cases hfalse

/-- An aligned buffer is read in chunks of at most 16 sectors, any other in
chunks of at most 15 with one more sector each. -/
theorem chunkSectors_cases (p : Plan) (n : Nat) :
    (p.tail = 0 ∧ chunkSectors (decide (p.tail = 0)) n ≤ 16 ∧
        chunkRead (decide (p.tail = 0)) n =
          chunkSectors (decide (p.tail = 0)) n) ∨
      (0 < p.tail ∧ chunkSectors (decide (p.tail = 0)) n ≤ 15 ∧
        chunkRead (decide (p.tail = 0)) n =
          chunkSectors (decide (p.tail = 0)) n + 1) := by
  obtain ⟨hsixteen, hfifteen, hread⟩ :=
    chunkSectors_small (decide (p.tail = 0)) n
  rcases Nat.eq_zero_or_pos p.tail with hzero | hpos
  · refine Or.inl ⟨hzero, hsixteen, ?_⟩
    rw [hread, if_neg (by simp [hzero])]
    rfl
  · have hflag : decide (p.tail = 0) = false := by
      simp
      omega
    refine Or.inr ⟨hpos, hfifteen hflag, ?_⟩
    rw [hread, if_pos hflag]

/-- What is read for a chunk fits the buffer and the disc. -/
theorem CarriesOut.chunkRead_le
    (hc : CarriesOut p fsvBuf r c)
    (hk : k < p.sectors) :
    chunkRead c.flag64b (p.sectors - k) ≤ 16 ∧
      p.lsn + k + chunkRead c.flag64b (p.sectors - k) ≤ 4294967296 := by
  have hdisc := hc.disc
  have hle := chunkSectors_le (decide (p.tail = 0)) (p.sectors - k)
  rw [hc.flag64b]
  rcases chunkSectors_cases p (p.sectors - k) with
    ⟨hzero, hsmall, hread⟩ | ⟨hpos, hsmall, hread⟩
  · rw [hread]
    rw [if_pos hzero] at hdisc
    omega
  · rw [hread]
    rw [if_neg (by omega)] at hdisc
    omega

/-- What the read of a chunk leaves in `cdvdfsv_buf`. -/
theorem chunk_read
    {device : Nat → DeviceTurn} {drive : DriveState}
    (hc : CarriesOut p fsvBuf r c)
    (hbufs : fsvBuf + 34816 ≤ cdvdmanBuf ∨ cdvdmanBuf + 4096 ≤ fsvBuf)
    (hdevice : ∀ t, ¬ (device t).Disturbed)
    (hk : k < p.sectors)
    {j : Nat}
    (hj : j < 2048 * chunkRead c.flag64b (p.sectors - k)) :
    (cdvdmanRead cfg image device cdvdmanBuf (p.lsn + k)
        (chunkRead c.flag64b (p.sectors - k)) c.fsvRbuf drive).mem
        (c.fsvRbuf + j) =
      image (2048 * (p.lsn + k) + j) := by
  have hlogo := hc.logo
  have htail : p.tail < 64 := Nat.mod_lt _ (by decide)
  obtain ⟨hsmall, hlsn⟩ := hc.chunkRead_le hk
  rw [hc.fsvRbuf]
  rw [cdvdmanRead_delivers hdevice (by omega) hlsn (by omega) (by omega),
    writeRange_inside _ _ _ hj]
  rfl

/-- The bytes of a chunk of `n` sectors after the first `k` sectors. -/
theorem chunkSize_eq
    {n : Nat}
    (hc : CarriesOut p fsvBuf r c)
    (h : Done p image r ee k v s)
    (hk : k < p.sectors)
    (hn : n = chunkSectors c.flag64b (p.sectors - k)) :
    chunkSize c v n =
      if k + n = p.sectors then 2048 * n - p.head - p.tail else 2048 * n := by
  have hrange := hc.range
  have hpos : 0 < n := by
    rw [hn]
    exact chunkSectors_pos _ (by omega)
  have hle : n ≤ p.sectors - k := by
    rw [hn]
    exact chunkSectors_le _ _
  have hsize : u32 (n * c.sectorSize) = 2048 * n := by
    rw [hc.sectorSize, u32_of_lt (by omega)]
    omega
  unfold chunkSize
  rw [hsize, hc.flag64b, h.left, h.pieces.b1len]
  rcases p.head_add_tail with ⟨htail, hhead⟩ | ⟨htail, hsum⟩
  · rw [if_neg (by simp [htail]), htail, hhead]
    split_ifs <;> omega
  · have hne : p.tail ≠ 0 := by
      omega
    have hhead : p.head ≠ 0 := by
      have hlt : p.tail < 64 := Nat.mod_lt _ (by decide)
      omega
    by_cases hlast : k + n = p.sectors
    · have hcond : decide (p.tail = 0) = false ∧ p.sectors - k = n ∧ p.head ≠ 0 :=
        ⟨by simp [hne], by omega, hhead⟩
      rw [if_pos hcond, if_pos hlast, u32Sub_of_le (by omega) (by omega)]
      omega
    · have hcond :
          ¬ (decide (p.tail = 0) = false ∧ p.sectors - k = n ∧ p.head ≠ 0) := by
        rintro ⟨-, hall, -⟩
        omega
      rw [if_neg hcond, if_neg hlast]

/-- Enough is read for a chunk and for the bytes that are sent. -/
theorem chunk_reaches
    {n : Nat}
    (hc : CarriesOut p fsvBuf r c)
    (h : Done p image r ee k v s)
    (hk : k < p.sectors)
    (hn : n = chunkSectors c.flag64b (p.sectors - k)) :
    n ≤ chunkRead c.flag64b (p.sectors - k) ∧
      p.head + chunkSize c v n ≤
        2048 * chunkRead c.flag64b (p.sectors - k) := by
  have hpos : 0 < n := by
    rw [hn]
    exact chunkSectors_pos _ (by omega)
  have hhead : p.head < 64 := Nat.mod_lt _ (by decide)
  rw [chunkSize_eq hc h hk hn]
  rw [hc.flag64b] at hn ⊢
  rcases chunkSectors_cases p (p.sectors - k) with
    ⟨hzero, -, hread⟩ | ⟨hsome, -, hread⟩
  · rcases p.head_add_tail with ⟨-, hnone⟩ | ⟨hbad, -⟩
    · rw [hread, ← hn, hnone]
      split_ifs <;> omega
    · omega
  · rw [hread, ← hn]
    split_ifs <;> omega

/-- The data of a chunk lie between the aligned ends of the EE's buffer. -/
theorem Plan.data_inside
    {n size : Nat} {bytes : Nat → UInt8}
    (hpos : 0 < p.sectors)
    (hsize : 2048 * k + size = p.sentBytes (k + n))
    (hle : k + n ≤ p.sectors) :
    EeDma.Inside p.buf (p.buf + 2048 * p.sectors)
      (.data (p.buf + p.head + 2048 * k) size bytes) := by
  have haligned : (p.buf + p.head) % 64 = 0 := by
    unfold Plan.head
    omega
  have hend : alignDown (p.buf + 2048 * p.sectors) =
      p.buf + 2048 * p.sectors - p.tail := by
    unfold alignDown Plan.tail
    omega
  have hstart : alignDown (p.buf + 63) = p.buf + p.head := by
    unfold alignDown Plan.head
    omega
  have hbound : p.sentBytes (k + n) + p.head + p.tail ≤ 2048 * p.sectors := by
    unfold Plan.sentBytes
    rcases p.head_add_tail with ⟨hz, hz'⟩ | ⟨-, hsixty⟩
    · split_ifs <;> omega
    · split_ifs <;> omega
  refine ⟨Nat.dvd_of_mod_eq_zero (by omega), ?_, ?_⟩
  · rw [hstart]
    omega
  · rw [hend]
    omega

/-- The structure after a chunk of `n` sectors: the first chunk has filled
`buf1`, the last one `buf2`. -/
theorem chunkReadee_done
    {n : Nat} {mem : Nat → UInt8}
    (hc : CarriesOut p fsvBuf r c)
    (h : Done p image r ee k v s)
    (hk : k < p.sectors)
    (hpos : 0 < n)
    (hle : n ≤ p.sectors - k)
    (hmem :
      ∀ j, j < 2048 * n → mem (c.fsvRbuf + j) = image (2048 * (p.lsn + k) + j)) :
    Pieces p (chunkReadee c v n mem) ∧
      (∀ i, i < p.head →
        (chunkReadee c v n mem).buf1 i = image (2048 * p.lsn + i)) ∧
      (k + n = p.sectors → ∀ i, i < p.tail →
        (chunkReadee c v n mem).buf2 i =
          image (2048 * p.lsn + 2048 * p.sectors - p.tail + i)) := by
  obtain ⟨hb1, hb2, hp1, hp2⟩ := h.pieces
  have htail : p.tail < 64 := Nat.mod_lt _ (by decide)
  have hhead : p.head < 64 := Nat.mod_lt _ (by decide)
  refine ⟨⟨hb1, hb2, hp1, hp2⟩, ?_, ?_⟩
  · intro i hi
    have hflag : c.flag64b = false := by
      rw [hc.flag64b]
      rcases p.head_add_tail with ⟨-, hzero⟩ | ⟨hsome, -⟩
      · omega
      · simp
        omega
    simp only [chunkReadee, hflag, true_and]
    rcases Nat.eq_zero_or_pos k with hzero | hlater
    · -- the first chunk
      subst hzero
      rw [if_pos (by rw [h.left, hc.sectors]; omega), hb1]
      have hread := writeRange_inside v.readee.buf1 0
        (fun i => mem (c.fsvRbuf + i)) hi
      rw [Nat.zero_add] at hread
      rw [hread, hmem i (by omega), Nat.add_zero]
    · rw [if_neg (by rw [h.left, hc.sectors]; omega)]
      exact h.buf1 hlater i hi
  · intro hlast i hi
    have hflag : c.flag64b = false := by
      rw [hc.flag64b]
      simp
      omega
    simp only [chunkReadee, hflag, true_and]
    rw [if_pos (by rw [h.left]; omega), hb2, hc.sectorSize]
    have hread := writeRange_inside v.readee.buf2 0
      (fun i => mem (c.fsvRbuf + n * 2048 - p.tail + i)) hi
    rw [Nat.zero_add] at hread
    have hat : c.fsvRbuf + n * 2048 - p.tail + i =
        c.fsvRbuf + (2048 * n - p.tail + i) := by
      omega
    rw [hread, hat, hmem _ (by omega)]
    congr 1
    omega

theorem eeMemory_append (sent more : List EeDma) :
    eeMemory ee (sent ++ more) = eeMemory (eeMemory ee sent) more := by
  unfold eeMemory
  rw [List.foldl_append]

theorem apply_data (m : Nat → UInt8) (dest size : Nat) (bytes : Nat → UInt8) :
    EeDma.apply m (.data dest size bytes) = writeRange m dest size bytes := rfl

theorem eeMemory_pair (m : Nat → UInt8) (d d' : EeDma) :
    eeMemory m [d, d'] = EeDma.apply (EeDma.apply m d) d' := rfl

/-- A reply to `eeaddr2` leaves the rest of the memory. -/
theorem apply_progress
    {n x : Nat} {m : Nat → UInt8}
    (hx : ¬ InReply r x) :
    EeDma.apply m (.progress (physical r.eeaddr2) n) x = m x := by
  simp only [InReply, not_or, not_and] at hx
  simp only [EeDma.apply]
  rw [writeRange_outside]
  omega

/-- The structure sent to `eeaddr1` leaves the rest of the memory. -/
theorem apply_readee
    {q : Readee} {x : Nat} {m : Nat → UInt8}
    (hx : ¬ InReply r x) :
    EeDma.apply m (.readee (physical r.eeaddr1) q) x = m x := by
  simp only [InReply, not_or, not_and] at hx
  simp only [EeDma.apply]
  rw [writeRange_outside]
  omega

/-- A chunk brings the next `n` sectors to the EE. -/
theorem Done.chunk
    {device : Nat → DeviceTurn} {n : Nat} {drive : DriveState} {reads : List ReadeeRead}
    (h : Done p image r ee k v s)
    (hc : CarriesOut p fsvBuf r c)
    (hbufs : fsvBuf + 34816 ≤ cdvdmanBuf ∨ cdvdmanBuf + 4096 ≤ fsvBuf)
    (hdevice : ∀ t, ¬ (device t).Disturbed)
    (hk : k < p.sectors)
    (hn : n = chunkSectors c.flag64b v.sectorsToRead)
    (hdrive :
      drive =
        cdvdmanRead cfg image device cdvdmanBuf v.lsn
          (chunkRead c.flag64b v.sectorsToRead) c.fsvRbuf s.drive) :
    Done p image r ee (k + n) (chunkVars c v n drive.mem)
      ⟨drive, s.sent ++ chunkDma c v n drive.mem, reads⟩ := by
  have hrange := hc.range
  have hlogo := hc.logo
  have hdisc := hc.disc
  have htail : p.tail < 64 := Nat.mod_lt _ (by decide)
  have hhead : p.head < 64 := Nat.mod_lt _ (by decide)
  obtain ⟨hsmall, hlsn⟩ := hc.chunkRead_le hk
  rw [h.left] at hn hdrive
  rw [h.lsn hk] at hdrive
  have hpos : 0 < n := by
    rw [hn]
    exact chunkSectors_pos _ (by omega)
  have hle : n ≤ p.sectors - k := by
    rw [hn]
    exact chunkSectors_le _ _
  have hsize := chunkSize_eq hc h hk hn
  obtain ⟨hfew, hreach⟩ := chunk_reaches hc h hk hn
  have hread :
      ∀ j, j < 2048 * chunkRead c.flag64b (p.sectors - k) →
        drive.mem (c.fsvRbuf + j) = image (2048 * (p.lsn + k) + j) := by
    intro j hj
    rw [hdrive]
    exact chunk_read hc hbufs hdevice hk hj
  obtain ⟨hpieces, hbuf1, hbuf2⟩ :=
    chunkReadee_done hc h hk hpos hle (fun j hj => hread j (by omega))
  have hbytes : v.bytesent = 2048 * k := by
    rw [h.bytesent, Plan.sentBytes, if_neg (by omega)]
  have hsum : v.bytesent + chunkSize c v n = p.sentBytes (k + n) := by
    rw [hbytes, hsize, Plan.sentBytes]
    split_ifs <;> omega
  have hsome : 0 < chunkSize c v n := by
    rw [hsize]
    split_ifs <;> omega
  have haddr := h.eeaddr hk
  have hdma : chunkDma c v n drive.mem =
      [.data (p.buf + p.head + 2048 * k) (chunkSize c v n)
          (fun i => drive.mem (c.fsvRbuf + p.head + i)),
        .progress (physical r.eeaddr2)
          (u32 (v.bytesent + chunkSize c v n))] := by
    unfold chunkDma
    rw [if_pos hsome, haddr, h.pieces.b1len, hc.eeaddr2]
  refine ⟨by omega, ?_, ?_, ?_, ?_, hpieces, fun _ => hbuf1, hbuf2, ?_, ?_, ?_⟩
  · intro hmore
    show u32 (v.lsn + n) = p.lsn + (k + n)
    rw [h.lsn hk, u32_of_lt]
    · omega
    · split_ifs at hdisc <;> omega
  · show v.sectorsToRead - n = p.sectors - (k + n)
    rw [h.left]
    omega
  · show u32 (v.bytesent + chunkSize c v n) = p.sentBytes (k + n)
    rw [hsum, u32_of_lt]
    omega
  · intro hmore
    show u32 (v.eeaddr64b + n * c.sectorSize) = p.buf + p.head + 2048 * (k + n)
    rw [haddr, hc.sectorSize, u32_of_lt (by omega)]
    omega
  · rw [hdrive]
    exact cdvdmanRead_err hdevice (by omega) (by omega) hlsn
  · intro d hd
    rcases List.mem_append.mp hd with hold | hnew
    · exact h.inside d hold
    · rw [hdma] at hnew
      rcases List.mem_cons.mp hnew with hdata | hprogress
      · subst hdata
        exact Plan.data_inside hc.pos (by rw [← hsum, hbytes]) (by omega)
      · rw [List.mem_singleton] at hprogress
        subst hprogress
        trivial
  · intro x hlow hhigh hx
    have hnew : (chunkVars c v n drive.mem).bytesent =
        v.bytesent + chunkSize c v n := by
      show u32 (v.bytesent + chunkSize c v n) = _
      rw [u32_of_lt]
      omega
    rw [hnew] at hhigh
    rw [eeMemory_append, hdma, eeMemory_pair, apply_progress hx]
    by_cases hold : x < p.buf + p.head + v.bytesent
    · rw [apply_data, writeRange_outside _ _ (by omega)]
      exact h.memory x hlow hold hx
    · obtain ⟨i, rfl⟩ : ∃ i, x = p.buf + p.head + 2048 * k + i :=
        ⟨x - (p.buf + p.head + 2048 * k), by omega⟩
      rw [apply_data, writeRange_inside _ _ _ (by omega),
        Nat.add_assoc c.fsvRbuf, hread _ (by omega)]
      congr 1
      omega

end Chunks

section Delivery

variable
  {cfg : Settings}
  {image : Nat → UInt8}
  {world : Nat → FsvTurn}
  {cdvdmanBuf fsvBuf : Nat}
  {p : Plan}
  {r : RpcCdvd}
  {c : ReadeeCall}
  {ee : Nat → UInt8}

/-- What the EE and the caller have when the handler returns. -/
structure Delivered
    (p : Plan) (image : Nat → UInt8) (r : RpcCdvd) (ee : Nat → UInt8)
    (sent : List EeDma) (q : Readee) : Prop where
  received : received sent = some q
  inside : ∀ d ∈ sent, d.Inside p.buf (p.buf + 2048 * p.sectors)
  memory :
    ∀ x, p.buf ≤ x → x < p.buf + 2048 * p.sectors → ¬ InReply r x →
      q.copyOut (eeMemory ee sent) x = image (2048 * p.lsn + (x - p.buf))

theorem received_append_readee
    (sent : List EeDma) (dest dest' n : Nat) (q : Readee) :
    received (sent ++ [.readee dest q, .progress dest' n]) = some q := by
  induction sent with
  | nil => rfl
  | cons d sent ih =>
      cases d with
      | data at' size bytes => exact ih
      | progress at' m => exact ih
      | readee at' q' =>
          show (match received (sent ++ [.readee dest q, .progress dest' n]) with
            | some r' => some r'
            | none => some q') = some q
          rw [ih]

/-- Once all sectors have been read the EE can put the buffer together. -/
theorem Done.delivered
    {v : ReadeeVars} {s : FsvState}
    (h : Done p image r ee p.sectors v s)
    (hc : CarriesOut p fsvBuf r c) :
    Delivered p image r ee
      (s.sent ++ [.readee c.eeaddr1 v.readee, .progress c.eeaddr2 c.nbytes])
      v.readee := by
  have hpos := hc.pos
  have htail : p.tail < 64 := Nat.mod_lt _ (by decide)
  have hhead : p.head < 64 := Nat.mod_lt _ (by decide)
  refine ⟨received_append_readee _ _ _ _ _, ?_, ?_⟩
  · intro d hd
    rcases List.mem_append.mp hd with hold | hnew
    · exact h.inside d hold
    · rcases List.mem_cons.mp hnew with hreadee | hprogress
      · subst hreadee
        trivial
      · rw [List.mem_singleton] at hprogress
        subst hprogress
        trivial
  · intro x hlow hhigh hx
    obtain ⟨hb1, hb2, hp1, hp2⟩ := h.pieces
    have hsent : v.bytesent = 2048 * p.sectors - p.head - p.tail := by
      rw [h.bytesent, Plan.sentBytes, if_pos rfl]
    unfold Readee.copyOut
    rw [hb1, hb2, hp1, hp2]
    by_cases hend : p.buf + 2048 * p.sectors - p.tail ≤ x
    · -- the tail
      obtain ⟨i, rfl⟩ : ∃ i, x = p.buf + 2048 * p.sectors - p.tail + i :=
        ⟨x - (p.buf + 2048 * p.sectors - p.tail), by omega⟩
      have hi : i < p.tail := by
        omega
      rw [writeRange_inside _ _ _ hi, h.buf2 rfl i hi]
      congr 1
      omega
    · rw [writeRange_outside _ _ (by omega)]
      by_cases hstart : x < p.buf + p.head
      · -- the head
        obtain ⟨i, rfl⟩ : ∃ i, x = p.buf + i := ⟨x - p.buf, by omega⟩
        rw [writeRange_inside _ _ _ (by omega), h.buf1 hpos i (by omega)]
        congr 1
        omega
      · rw [writeRange_outside _ _ (by omega), eeMemory_append, eeMemory_pair,
          hc.eeaddr1, hc.eeaddr2, apply_progress hx, apply_readee hx]
        exact h.memory x (by omega) (by omega) hx

/-- The loop brings all sectors to the EE. -/
theorem Done.loop
    (hc : CarriesOut p fsvBuf r c)
    (hbufs : fsvBuf + 34816 ≤ cdvdmanBuf ∨ cdvdmanBuf + 4096 ≤ fsvBuf)
    (hworld : ∀ j, (world j).Fine) :
    ∀ (fuel j k : Nat) (v : ReadeeVars) (s : FsvState),
      Done p image r ee k v s → p.sectors - k < fuel →
      ∃ t q,
        readeeLoop cfg image world cdvdmanBuf c fuel j v s =
          some (t, 2048 * p.sectors) ∧
        Delivered p image r ee t.sent q := by
  intro fuel
  induction fuel with
  | zero =>
      intro _ _ _ _ _ hfuel
      omega
  | succ fuel ih =>
      intro j k v s h hfuel
      obtain ⟨hbreaks, hrefused, hdevice⟩ := hworld j
      have hgood : s.drive.err ≠ cdvdErrAbrt := by
        rw [h.err]
        exact cdvdErrAbrt_ne.symm
      simp only [readeeLoop, hbreaks, breakIf, Bool.false_eq_true, if_false,
        hrefused]
      rcases Nat.lt_or_ge k p.sectors with hmore | hend
      · have hgo : ¬ (v.sectorsToRead = 0 ∨ s.drive.err = cdvdErrAbrt) := by
          rintro (hzero | habort)
          · rw [h.left] at hzero
            omega
          · exact hgood habort
        rw [if_neg hgo]
        have hpos :
            0 < chunkSectors c.flag64b v.sectorsToRead := by
          apply chunkSectors_pos
          rw [h.left]
          omega
        exact
          ih (j + 1) _ _ _
            (h.chunk hc hbufs hdevice hmore rfl rfl) (by omega)
      · have hall : k = p.sectors := le_antisymm h.le hend
        subst hall
        have hstop : v.sectorsToRead = 0 ∨ s.drive.err = cdvdErrAbrt := by
          left
          rw [h.left]
          omega
        rw [if_pos hstop]
        refine ⟨⟨s.drive, _, s.reads⟩, v.readee, ?_, h.delivered hc⟩
        rw [hc.nbytes]

/-- Turns in which nothing happens. -/
def quietWorld : Nat → FsvTurn :=
  fun _ => ⟨false, false, quietTurns⟩

theorem quietWorld_fine (j : Nat) : (quietWorld j).Fine :=
  ⟨rfl, rfl, quietTurns_undisturbed⟩

end Delivery

end Fsv
end Ps2Cdvd
