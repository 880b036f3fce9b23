import Ps2Cdvd.Iso.Lookup
import Ps2Cdvd.Read.SearchLock

/-!
# Clients of the file system among other reads

`sceCdInit`, `cdrom_open` and the file lookups come from several threads.  Each
of them goes through `cdvdman_init`, which reads the volume descriptor into
`cdvdman_buf` the first time, and a lookup then reads directory sectors into the
same buffer.  Meanwhile other threads and the streaming fill read through
`sceCdRead`, and a read to an unaligned buffer is copied through `cdvdman_buf`
as well.

The drive is that of `Requests`.  Its calls are the reads `r : ρ` of others and
the sector reads of the clients `i : φ`; the `n`-th one of a client that asks for
the sector `lsn` has the index `((i, n), lsn)`.  Every access of a shared
variable, every semaphore call and every event call of a client is one step.  All
device reads succeed.

* `driveStep_of_step`: what a step of a call or of the reading thread does to the
  requests;
* `begins_waiting`: the `cdvdman_read` that is begun is that of the request that
  waits.
-/

namespace Ps2Cdvd
namespace Clients

open Lib Read Iso Requests
open SearchLock (CallId beginsRead copyBegun inRead)

universe u v

section Source

/-- The arguments of a lookup. -/
structure FindArgs where
  pcdfile : CdFile
  name : List UInt8
  layer : Int

/-- The packets of `cbrpc_cdsearchfile`: `SearchFilePkt_t`, `SearchFilePkt2_t`
and `SearchFilePktl_t`, which the size tells apart. -/
inductive SearchFilePkt
  | pkt (cdfile : CdFile) (name : List UInt8)
  | pkt2 (cdfile : CdFile) (name : List UInt8)
  | pktl (cdfile : CdFile) (name : List UInt8) (layer : Int)

/-- What `cbrpc_cdsearchfile` sends to `pkt->dest`, with `cdfile.flag` where the
packet has one, and what it returns. -/
structure SearchReply where
  cdfile : CdFile
  flag : Option Nat
  result : Int
deriving DecidableEq

/-- The lookup that `cbrpc_cdsearchfile` calls for a packet. -/
def SearchFilePkt.find : SearchFilePkt → FindArgs
  | .pkt cdfile name => ⟨cdfile, name, 0⟩
  | .pkt2 cdfile name => ⟨cdfile, name, 0⟩
  | .pktl cdfile name layer => ⟨cdfile, name, layer⟩

/-- The reply to a packet, of what its lookup has answered. -/
def SearchFilePkt.reply (answer : Int × CdFile) : SearchFilePkt → SearchReply
  | .pkt _ _ => ⟨answer.2, none, answer.1⟩
  | .pkt2 _ _ => ⟨answer.2, some 0, answer.1⟩
  | .pktl _ _ _ => ⟨answer.2, some 0, answer.1⟩

/-- What a client calls: `sceCdInit`; `cdvdman_open`, for `cdrom_open`, with the
layer `f->unit`; a lookup, for `sceCdSearchFile` in layer 0 and
`sceCdLayerSearchFile`; or the RPC `cbrpc_cdsearchfile`. -/
inductive ClientCall
  | sceCdInit
  | cdvdmanOpen (find : FindArgs)
  | cdvdmanFindfile (find : FindArgs)
  | cbrpcCdsearchfile (pkt : SearchFilePkt)

/-- The lookup of a client; `sceCdInit` makes none. -/
def ClientCall.find : ClientCall → FindArgs
  | .sceCdInit => ⟨⟨0, 0, none⟩, [], 0⟩
  | .cdvdmanOpen find => find
  | .cdvdmanFindfile find => find
  | .cbrpcCdsearchfile pkt => pkt.find

/-- `ENOENT` -/
def enoent : Int := 2

/-- `EMFILE` -/
def emfile : Int := 24

/-- What a client is returned. -/
inductive Returned
  | status (r : Int)
  | found (answer : Int × CdFile)
  | reply (reply : SearchReply)
deriving DecidableEq

/-- What a lookup that does not come from `cdvdman_open` returns to its
client. -/
def ClientCall.returns (answer : Int × CdFile) : ClientCall → Returned
  | .cbrpcCdsearchfile pkt => .reply (pkt.reply answer)
  | _ => .found answer

/-- `MAX_FDHANDLES` -/
def maxFdhandles : Nat := 64

/-- Who has called `cdvdman_init`; `fh` is the free slot of `cdvdman_open`. -/
inductive InitCaller
  | sceCdInit
  | cdvdmanOpen
  | cdvdmanFindfile (fh : Option (Fin maxFdhandles))
deriving DecidableEq

/-- What a client reads a sector for: the volume descriptor of a layer, or a
directory. -/
inductive SectorRead
  | descriptor (k : InitCaller) (second : Bool)
  | directory (fh : Option (Fin maxFdhandles)) (c : Cursor)
deriving DecidableEq

/-- Where a client is.  `rootLength` lies between the two stores to
`layer_info`. -/
inductive Pc
  | entered
  | initTest (k : InitCaller)
  | clearErr (k : InitCaller)
  | fsTest (k : InitCaller)
  | deviceFSInit (k : InitCaller)
  | clearHandles (k : InitCaller)
  | calling (t : SectorRead)
  | syncTest (t : SectorRead)
  | syncWait (t : SectorRead)
  | arrived (t : SectorRead)
  | rootLength (k : InitCaller) (second : Bool)
  | setFsInited (k : InitCaller)
  | setCdinited (k : InitCaller)
  | diskReady
  | readyInited
  | readyTest
  | readyWait
  | freeSlot
  | semaWait (fh : Option (Fin maxFdhandles))
  | rootTest (fh : Option (Fin maxFdhandles))
  | searching (fh : Option (Fin maxFdhandles)) (c : Cursor)
  | looping
  | releasing (fh : Option (Fin maxFdhandles)) (answer : Int × CdFile)
  | assign (fh : Fin maxFdhandles) (answer : Int × CdFile)
  | ioRelease (r : Int)
  | returned (out : Returned)
deriving DecidableEq

/-- The double copy of `cdvdman_read`, before `WaitSema`, with the sectors that
are left, and after `SignalSema`. -/
inductive CopyPc
  | outside
  | semaWait (args : ReadArgs)
  | copying (args : ReadArgs)
  | copied
deriving DecidableEq

/-- `FHANDLE`; `f` is the file structure, or `NULL`. -/
structure FHandle (φ : Type v) where
  f : Option φ
  lsn : Nat
  filesize : Nat
  position : Nat

/-- A handle after `mips_memset(fh, 0, sizeof(FHANDLE))`. -/
def FHandle.zero (φ : Type v) : FHandle φ := ⟨none, 0, 0, 0⟩

/-- What happens to the table of handles. -/
inductive FsEvent (φ : Type v)
  | deviceFSInit
  | clearHandles
  | openHandle (i : φ)
deriving DecidableEq

variable {ρ : Type u} {φ : Type v}

/-- The system: the disc, the reads of others, whose buffers are not inside
`cdvdman_buf`, and the calls of the clients.  `turns` and `before` are those of
the lookups. -/
structure Setup (ρ : Type u) (φ : Type v) where
  cfg : Settings
  image : Nat → UInt8
  cdvdmanBuf : Nat
  aligned : cdvdmanBuf % 4 = 0
  fits : cdvdmanBuf + 4096 ≤ 4294967296
  reads : ρ → Call
  apart :
    ∀ r, (reads r).args.buf + 2048 * (reads r).args.sectors ≤ cdvdmanBuf ∨
      cdvdmanBuf + 4096 ≤ (reads r).args.buf
  clients : φ → ClientCall
  turns : Nat
  before : List UInt8

structure State (ρ : Type u) (φ : Type v) where
  base : Requests.State (CallId ρ (φ × Nat))
  searchSema : Nat
  ioSema : Nat
  copy : Requests.Act (CallId ρ (φ × Nat)) → CopyPc
  drive : DriveState
  cdinited : Bool
  fsInited : Bool
  layerInfo0 : LayerInfo
  layerInfo1 : LayerInfo
  fdhandles : Fin maxFdhandles → FHandle φ
  client : φ → Pc
  asked : φ → Nat
  log : List (FsEvent φ)

/-- The module after its start, with anything in memory. -/
def initial (ρ : Type u) (φ : Type v) (drive : DriveState) : State ρ φ where
  base := Requests.initial _
  searchSema := 1
  ioSema := 1
  copy := fun _ => .outside
  drive := drive
  cdinited := false
  fsInited := false
  layerInfo0 := ⟨0, 0⟩
  layerInfo1 := ⟨0, 0⟩
  fdhandles := fun _ => .zero φ
  client := fun _ => .entered
  asked := fun _ => 0
  log := []

/-- A step of a call of `sceCdRead` or of the reading thread; of the double copy
in one of them; or of a client. -/
inductive Act (ρ : Type u) (φ : Type v)
  | read (a : Requests.Act (CallId ρ (φ × Nat)))
  | copy (a : Requests.Act (CallId ρ (φ × Nat)))
  | client (i : φ)

/-- The sector that is asked for. -/
def SectorRead.lsn (cfg : Settings) : SectorRead → Nat
  | .descriptor _ false => 16
  | .descriptor _ true => u32 ((sceCdReadDvdDualInfo cfg).2 + 16)
  | .directory _ c => c.tocLBA

/-- `sceCdRead(lsn, 1, cdvdman_buf, NULL)` for the clients. -/
def Setup.call (d : Setup ρ φ) : CallId ρ (φ × Nat) → Call
  | .inl r => d.reads r
  | .inr (_, lsn) => ⟨⟨lsn, 1, d.cdvdmanBuf⟩, false, false⟩

def Setup.find (d : Setup ρ φ) (i : φ) : FindArgs := (d.clients i).find

/-- `layer` in `cdvdman_findfile`. -/
def Setup.layer (d : Setup ρ φ) (i : φ) : Int :=
  if d.cfg.has iopcoreCompatEmuDvddl then 0 else (d.find i).layer

/-- `cdvdman_filepath` -/
def Setup.filepath (d : Setup ρ φ) (i : φ) : List UInt8 :=
  cdvdmanTrimspaces ((d.find i).name.take 255)

/-- Whether `fs_init` reads the descriptor of a second layer. -/
def Setup.dual (d : Setup ρ φ) : Bool :=
  !d.cfg.has iopcoreCompatEmuDvddl && (sceCdReadDvdDualInfo d.cfg).1

/-- What `fs_init` makes of the record of a root. -/
def Setup.rootInfo (d : Setup ρ φ) (second : Bool) (e : DirTocEntry) :
    LayerInfo :=
  if second then Iso.rootInfo (sceCdReadDvdDualInfo d.cfg).2 e
  else Iso.rootInfo 0 e

/-- `*pcdfile` of a record that was found. -/
def Setup.foundFile (d : Setup ρ φ) (i : φ) (e : DirTocEntry) : CdFile where
  lsn :=
    if d.layer i ≠ 0 then u32 (e.fileLBA + (sceCdReadDvdDualInfo d.cfg).2)
    else e.fileLBA
  size :=
    if d.cfg.has iopcoreCompat0SkipVideos && isVideo d.before (d.filepath i) then 0
    else e.fileSize
  name := lastComponent (d.find i).name

/-- What a client does with the directory sector in `cdvdman_buf`. -/
def afterSector (d : Setup ρ φ) (i : φ) (fh : Option (Fin maxFdhandles)) (c : Cursor)
    (m : Nat → UInt8) : Pc :=
  match scanRecords d.cdvdmanBuf m c.slash.isNone c.dirname d.turns 0 with
  | .found pos =>
      .releasing fh (1, d.foundFile i (tocEntry d.cdvdmanBuf m pos))
  | .enter pos =>
      match c.slash with
      | none => .releasing fh (0, (d.find i).pcdfile)
      | some rest =>
          .searching fh
            (startLocate rest
              (enteredLBA d.cfg (d.layer i) (tocEntry d.cdvdmanBuf m pos))
              (s32 (tocEntry d.cdvdmanBuf m pos).fileSize))
  | .next =>
      .searching fh
        { c with tocLBA := u32 (c.tocLBA + 1), tocLength := c.tocLength - 2048 }
  | .loops => .looping

/-- Where a client is when its `cdvdman_init` has returned. -/
def afterInit (d : Setup ρ φ) (i : φ) : InitCaller → Pc
  | .sceCdInit => .returned (.status 1)
  | .cdvdmanOpen =>
      if (d.find i).layer < 2 then .diskReady else .ioRelease (-enoent)
  | .cdvdmanFindfile fh => .semaWait fh

/-- Where a client is when its lookup has returned. -/
def afterFind (d : Setup ρ φ) (i : φ) (answer : Int × CdFile) :
    Option (Fin maxFdhandles) → Pc
  | none => .returned ((d.clients i).returns answer)
  | some fh => .assign fh answer

/-- Where a client is when its `sceCdRead` has returned: `fs_init` does not look
at the result, and `cdvdman_locatefile` gives up on 0. -/
def Pc.afterCall (pcdfile : CdFile) (result : Bool) : Pc → Pc
  | .calling (.directory fh c) =>
      if result then .syncTest (.directory fh c) else .releasing fh (0, pcdfile)
  | .calling t => .syncTest t
  | pc => pc

/-- The result of `sceCdRead`, when it has returned. -/
def result? : CallerPc → Option Bool
  | .returned r => some r
  | _ => none

variable [DecidableEq ρ] [DecidableEq φ]

/-- The client `i` goes on at `pc`. -/
def State.goto (s : State ρ φ) (i : φ) (pc : Pc) : State ρ φ :=
  { s with client := Function.update s.client i pc }

/-- The client `i` calls `sceCdRead` for a sector. -/
def State.ask (s : State ρ φ) (i : φ) (t : SectorRead) : State ρ φ :=
  { s with asked := Function.update s.asked i (s.asked i + 1) }.goto i (.calling t)

/-- The arguments of the `cdvdman_read` that `a` begins. -/
def readArgs (d : Setup ρ φ) (s : State ρ φ) :
    Requests.Act (CallId ρ (φ × Nat)) → ReadArgs
  | .caller k => (d.call k).args
  | .thread => s.base.cdread

/-- A `cdvdman_read` ends after its `SignalSema`; the sector read of a client
moves while the client is in that call. -/
def mayMove (d : Setup ρ φ) (s : State ρ φ)
    (a : Requests.Act (CallId ρ (φ × Nat))) : Bool :=
  (match a with
    | .caller (.inr ((i, n), lsn)) =>
        match s.client i with
        | .calling t => decide (t.lsn d.cfg = lsn ∧ s.asked i = n)
        | _ => false
    | _ => true) &&
  (!inRead s.base a || s.copy a = .outside || s.copy a = .copied)

/-- The double copy for an unaligned buffer, before and after
`cdvdman_read`. -/
def copyAfter (d : Setup ρ φ) (s : State ρ φ)
    (a : Requests.Act (CallId ρ (φ × Nat))) :
    Requests.Act (CallId ρ (φ × Nat)) → CopyPc :=
  copyBegun s.base (readArgs d s a).buf (.semaWait (readArgs d s a)) .outside s.copy a

/-- `cdvdman_read` without its double copy. -/
def driveAfter (d : Setup ρ φ) (s : State ρ φ)
    (a : Requests.Act (CallId ρ (φ × Nat))) : DriveState :=
  if beginsRead s.base a then
    let drive :=
      { s.drive with status := cdvdStatRead, turn := 0, events := [] }
    let args := readArgs d s a
    if args.buf % 4 ≠ 0 then drive
    else
      cdvdmanReadSectors d.cfg d.image quietTurns args.lsn args.sectors args.buf
        drive
  else if inRead s.base a then
    { s.drive with readPos := 0, status := cdvdStatPause }
  else s.drive

/-- A client whose `sceCdRead` has returned goes on. -/
def clientAfter (d : Setup ρ φ) (s : State ρ φ)
    (b : Requests.State (CallId ρ (φ × Nat))) :
    Requests.Act (CallId ρ (φ × Nat)) → φ → Pc
  | .caller (.inr ((i, n), lsn)) =>
      match result? (b.caller (.inr ((i, n), lsn))) with
      | some r =>
          Function.update s.client i
            ((s.client i).afterCall (d.find i).pcdfile r)
      | none => s.client
  | _ => s.client

/-- The double copy of `cdvdman_read`: `WaitSema`, the turns of its loop, and
`SignalSema`. -/
def copyStep (d : Setup ρ φ) (s : State ρ φ)
    (a : Requests.Act (CallId ρ (φ × Nat))) : Option (State ρ φ) :=
  match s.copy a with
  | .semaWait args =>
      if 0 < s.searchSema then
        some
          { s with
            searchSema := s.searchSema - 1
            copy := Function.update s.copy a (.copying args) }
      else none
  | .copying args =>
      if 0 < args.sectors then
        let n := min args.sectors cdvdmanBufSectors
        some
          { s with
            drive :=
              cdvdmanReadUnaligned d.cfg d.image quietTurns d.cdvdmanBuf 1
                args.lsn args.sectors args.buf s.drive
            copy :=
              Function.update s.copy a
                (.copying
                  ⟨u32 (args.lsn + n), args.sectors - n, args.buf + 2048 * n⟩) }
      else
        some
          { s with
            searchSema := min (s.searchSema + 1) 1
            copy := Function.update s.copy a .copied }
  | _ => none

/-- `cdvdman_getfilefreeslot` -/
def cdvdmanGetfilefreeslot (fdhandles : Fin maxFdhandles → FHandle φ) :
    Option (Fin maxFdhandles) :=
  (List.finRange maxFdhandles).find? (fun k => (fdhandles k).f.isNone)

/-- The next step of a client. -/
def clientStep (d : Setup ρ φ) (s : State ρ φ) (i : φ) : Option (State ρ φ) :=
  match s.client i with
  | .entered =>
      match d.clients i with
      | .sceCdInit => some (s.goto i (.initTest .sceCdInit))
      | .cdvdmanOpen _ =>
          -- `WaitSema(cdrom_io_sema)`
          if 0 < s.ioSema then
            some
              ({ s with ioSema := s.ioSema - 1 }.goto i (.initTest .cdvdmanOpen))
          else none
      | _ => some (s.goto i (.initTest (.cdvdmanFindfile none)))
  | .initTest k =>
      some (s.goto i (if s.cdinited then afterInit d i k else .clearErr k))
  | .clearErr k =>
      some
        ({ s with drive := { s.drive with err := cdvdErrNo } }.goto i (.fsTest k))
  | .fsTest k =>
      some (s.goto i (if s.fsInited then .setCdinited k else .deviceFSInit k))
  | .deviceFSInit k =>
      some ({ s with log := s.log ++ [FsEvent.deviceFSInit] }.goto i (.clearHandles k))
  | .clearHandles k =>
      some
        ({ s with
            fdhandles := fun _ => .zero φ
            log := s.log ++ [FsEvent.clearHandles] }.ask i (.descriptor k false))
  | .calling _ => none
  | .syncTest t =>
      some (s.goto i (if s.base.syncFlag then .syncWait t else .arrived t))
  | .syncWait t =>
      if s.base.intrEf1 then some (s.goto i (.syncTest t)) else none
  | .arrived (.descriptor k second) =>
      let lba :=
        (d.rootInfo second
          (tocEntry d.cdvdmanBuf s.drive.mem 0x9c)).rootDirtocLBA
      some
        ((if second then
            { s with layerInfo1 := { s.layerInfo1 with rootDirtocLBA := lba } }
          else
            { s with
              layerInfo0 := { s.layerInfo0 with rootDirtocLBA := lba } }).goto i
          (.rootLength k second))
  | .rootLength k second =>
      let length :=
        (d.rootInfo second
          (tocEntry d.cdvdmanBuf s.drive.mem 0x9c)).rootDirtocLength
      if second then
        some
          ({ s with
              layerInfo1 :=
                { s.layerInfo1 with rootDirtocLength := length } }.goto i
            (.setFsInited k))
      else
        let s :=
          { s with
            layerInfo0 := { s.layerInfo0 with rootDirtocLength := length } }
        some
          (if d.dual then s.ask i (.descriptor k true)
          else s.goto i (.setFsInited k))
  | .setFsInited k =>
      some ({ s with fsInited := true }.goto i (.setCdinited k))
  | .setCdinited k =>
      some ({ s with cdinited := true }.goto i (afterInit d i k))
  | .diskReady =>
      some
        ({ s with drive := { s.drive with err := cdvdErrNo } }.goto i .readyInited)
  | .readyInited =>
      some (s.goto i (if s.cdinited then .readyTest else .freeSlot))
  | .readyTest =>
      some (s.goto i (if s.base.syncFlag then .readyWait else .freeSlot))
  | .readyWait =>
      if s.base.intrEf1 then some (s.goto i .readyTest) else none
  | .freeSlot =>
      some
        (s.goto i
          (match cdvdmanGetfilefreeslot s.fdhandles with
          | some fh => .initTest (.cdvdmanFindfile (some fh))
          | none => .ioRelease (-emfile)))
  | .semaWait fh =>
      if 0 < s.searchSema then
        some ({ s with searchSema := s.searchSema - 1 }.goto i (.rootTest fh))
      else none
  | .rootTest fh =>
      let info := if d.layer i ≠ 0 then s.layerInfo1 else s.layerInfo0
      some
        (s.goto i
          (if info.rootDirtocLBA = 0 then .releasing fh (0, (d.find i).pcdfile)
          else
            .searching fh
              (startLocate (d.filepath i) info.rootDirtocLBA
                (s32 info.rootDirtocLength))))
  | .searching fh c =>
      some
        (if 0 < c.tocLength then s.ask i (.directory fh c)
        else s.goto i (.releasing fh (0, (d.find i).pcdfile)))
  | .arrived (.directory fh c) =>
      some (s.goto i (afterSector d i fh c s.drive.mem))
  | .looping => none
  | .releasing fh answer =>
      some
        ({ s with searchSema := min (s.searchSema + 1) 1 }.goto i
          (afterFind d i answer fh))
  | .assign fh answer =>
      if answer.1 ≠ 0 then
        some
          ({ s with
              fdhandles :=
                Function.update s.fdhandles fh
                  ⟨some i, answer.2.lsn, answer.2.size, 0⟩
              log := s.log ++ [FsEvent.openHandle i] }.goto i (.ioRelease 0))
      else some (s.goto i (.ioRelease (-enoent)))
  | .ioRelease r =>
      some
        ({ s with ioSema := min (s.ioSema + 1) 1 }.goto i (.returned (.status r)))
  | .returned _ => none

/-- A step `a` of a call or of the reading thread, which leaves `b`. -/
def afterRead (d : Setup ρ φ) (s : State ρ φ)
    (a : Requests.Act (CallId ρ (φ × Nat)))
    (b : Requests.State (CallId ρ (φ × Nat))) : State ρ φ :=
  { s with
    base := b
    copy := copyAfter d s a
    drive := driveAfter d s a
    client := clientAfter d s b a }

/-- One step of the system. -/
def step (d : Setup ρ φ) (s : State ρ φ) : Act ρ φ → Option (State ρ φ)
  | .read a =>
      if mayMove d s a then
        (Requests.step (d.cfg.has iopcoreCompatAltRead) d.call s.base a).map
          (afterRead d s a)
      else none
  | .copy a => copyStep d s a
  | .client i => clientStep d s i

end Source

section Drive

variable {ι : Type u} {call : ι → Call}

/-- A request that waits to be executed is the last one accepted. -/
theorem allButLast_last
    {s : Requests.State ι} {k : ι}
    (h : AllButLast call s k) :
    s.accepted.getLast? = some k := by
  obtain ⟨l, hl, -⟩ := h
  rw [hl]
  exact List.getLast?_concat

theorem allButLast_length
    {s : Requests.State ι} {k : ι}
    (h : AllButLast call s k) :
    s.accepted.length = s.executed.length + 1 := by
  obtain ⟨l, hl, hdone⟩ := h
  rw [hl, hdone, List.length_append, List.length_map]
  rfl

theorem allButLast_unique
    {s : Requests.State ι} {k k' : ι}
    (h : AllButLast call s k)
    (h' : AllButLast call s k') :
    k = k' := by
  have hlast := allButLast_last h
  rw [allButLast_last h'] at hlast
  exact (Option.some.inj hlast).symm

/-- Nothing waits on a free drive. -/
theorem not_allButLast_of_free
    {s : Requests.State ι} {k : ι}
    (h : Requests.Inv call s)
    (hflag : s.syncFlag = false) :
    ¬ AllButLast call s k := by
  intro hwait
  obtain ⟨o, ho⟩ := h.owner
  have hnobody := ho.eq_nobody hflag
  subst hnobody
  have hall : s.executed = s.accepted.map (fun i => (call i).args) := ho.log
  have hlength := allButLast_length hwait
  rw [hall, List.length_map] at hlength
  omega

theorem executed_le
    {s : Requests.State ι}
    (h : Requests.Inv call s) :
    s.accepted.length ≤ s.executed.length + 1 := by
  rcases h.log_cases with hall | ⟨k, hwait⟩
  · rw [hall, List.length_map]
    omega
  · exact le_of_eq (allButLast_length hwait)

variable {ρ : Type u} {φ : Type v}
variable {d : Setup ρ φ} {s : State ρ φ}
variable {a : Requests.Act (CallId ρ (φ × Nat))}
variable {b : Requests.State (CallId ρ (φ × Nat))}

/-- `a` begins the `cdvdman_read` of the request that waits. -/
theorem begins_waiting
    (h : Requests.Inv d.call s.base)
    (hbegins : beginsRead s.base a = true) :
    ∃ k, AllButLast d.call s.base k ∧ readArgs d s a = (d.call k).args := by
  cases a with
  | caller k =>
      have hk : s.base.caller k = .starting := by
        simpa [beginsRead] using hbegins
      have hlog := (h.ownedBy_caller (by rw [hk]; rfl)).log
      simp only [LogOf, hk] at hlog
      exact ⟨k, hlog, rfl⟩
  | thread =>
      have ht : s.base.thread = .starting := by
        simpa [beginsRead] using hbegins
      obtain ⟨o, ho⟩ := h.owner
      obtain ⟨k, rfl⟩ := ho.eq_thread (by rw [ht]; rfl)
      have hlog := ho.log
      simp only [LogOf, ht] at hlog
      exact ⟨k, hlog.1, hlog.2⟩

/-- Who begins a `cdvdman_read` is not inside one. -/
theorem inRead_of_begins
    {r : Requests.State (CallId ρ (φ × Nat))}
    (hbegins : beginsRead r a = true) :
    inRead r a = false := by
  cases a with
  | caller k =>
      have hk : r.caller k = .starting := by
        simpa [beginsRead] using hbegins
      simp [inRead, hk]
  | thread =>
      have ht : r.thread = .starting := by
        simpa [beginsRead] using hbegins
      simp [inRead, ht]

/-- A step of the reading thread moves no call. -/
theorem threadStep_caller
    {r t : Requests.State (CallId ρ (φ × Nat))}
    (ht : threadStep r = some t) :
    t.caller = r.caller := by
  unfold threadStep at ht
  split at ht
  · split_ifs at ht
    cases ht
    rfl
  · cases ht
    rfl
  · cases ht
    rfl
  · cases ht
    rfl
  · cases ht
    rfl
  · cases ht
    rfl

variable [DecidableEq ρ] [DecidableEq φ]

/-- What a step of a call or of the reading thread does to the requests: it
begins a `cdvdman_read`, or locks the drive for a call, or neither. -/
inductive DriveStep
    (s : Requests.State (CallId ρ (φ × Nat)))
    (a : Requests.Act (CallId ρ (φ × Nat)))
    (t : Requests.State (CallId ρ (φ × Nat))) : Prop
  | begins
      (hbegins : beginsRead s a = true)
      (haccepted : t.accepted = s.accepted)
      (hexecuted : t.executed.length = s.executed.length + 1)
      (hin : inRead t a = true)
  | locks (k : CallId ρ (φ × Nat))
      (ha : a = .caller k)
      (hentered : s.caller k = .entered)
      (hflag : s.syncFlag = false)
      (hbegins : beginsRead s a = false)
      (hin : inRead s a = false)
      (haccepted : t.accepted = s.accepted ++ [k])
      (hexecuted : t.executed = s.executed)
      (hreturned : result? (t.caller k) = none)
  | keeps
      (hbegins : beginsRead s a = false)
      (haccepted : t.accepted = s.accepted)
      (hexecuted : t.executed = s.executed)
      (hrefused :
        ∀ k, a = .caller k → s.caller k = .entered →
          s.syncFlag = true ∧ result? (t.caller k) = some false)

theorem driveStep_of_step
    {altRead : Bool} {call : CallId ρ (φ × Nat) → Call}
    {r t : Requests.State (CallId ρ (φ × Nat))}
    (ht : Requests.step altRead call r a = some t) :
    DriveStep r a t := by
  cases a with
  | caller k =>
      simp only [Requests.step] at ht
      have hlater :
          r.caller k ≠ .entered →
            ∀ k', Requests.Act.caller k = .caller k' →
              r.caller k' = .entered →
                r.syncFlag = true ∧ result? (t.caller k') = some false := by
        rintro hne k' ⟨⟩ hentered
        exact absurd hentered hne
      cases hpc : r.caller k with
      | entered =>
          simp only [callerStep, hpc] at ht
          cases hflag : r.syncFlag with
          | true =>
              simp only [hflag, if_true, Option.some.injEq] at ht
              subst ht
              refine .keeps (by simp [beginsRead, hpc]) rfl rfl ?_
              rintro k' ⟨⟩ -
              exact ⟨hflag, by simp [Requests.State.goto, result?]⟩
          | false =>
              simp only [hflag, Bool.false_eq_true, if_false] at ht
              split_ifs at ht with hasync
              · cases ht
                exact .locks k rfl hpc hflag (by simp [beginsRead, hpc])
                  (by simp [inRead, hpc]) rfl rfl
                  (by simp [Requests.State.goto, result?])
              · cases ht
                exact .locks k rfl hpc hflag (by simp [beginsRead, hpc])
                  (by simp [inRead, hpc]) rfl rfl
                  (by simp [Requests.State.goto, result?])
      | starting =>
          simp only [callerStep, hpc, Option.some.injEq] at ht
          subst ht
          refine .begins (by simp [beginsRead, hpc]) rfl ?_ ?_
          · simp [Requests.State.goto]
          · simp [inRead, Requests.State.goto]
      | signalling =>
          simp only [callerStep, hpc, Option.some.injEq] at ht
          subst ht
          exact .keeps (by simp [beginsRead, hpc]) rfl rfl (hlater (by simp [hpc]))
      | reading =>
          simp only [callerStep, hpc, Option.some.injEq] at ht
          subst ht
          exact .keeps (by simp [beginsRead, hpc]) rfl rfl (hlater (by simp [hpc]))
      | clearing =>
          simp only [callerStep, hpc, Option.some.injEq] at ht
          subst ht
          exact .keeps (by simp [beginsRead, hpc]) rfl rfl (hlater (by simp [hpc]))
      | setting =>
          simp only [callerStep, hpc, Option.some.injEq] at ht
          subst ht
          exact .keeps (by simp [beginsRead, hpc]) rfl rfl (hlater (by simp [hpc]))
      | returned result =>
          simp only [callerStep, hpc] at ht
          cases ht
  | thread =>
      simp only [Requests.step] at ht
      have hother :
          ∀ k : CallId ρ (φ × Nat),
            (Requests.Act.thread : Requests.Act (CallId ρ (φ × Nat))) =
                .caller k →
              r.caller k = .entered →
                r.syncFlag = true ∧ result? (t.caller k) = some false := by
        rintro k ⟨⟩
      cases hpc : r.thread with
      | waiting =>
          simp only [threadStep, hpc] at ht
          split_ifs at ht
          cases ht
          exact .keeps (by simp [beginsRead, hpc]) rfl rfl hother
      | starting =>
          simp only [threadStep, hpc, Option.some.injEq] at ht
          subst ht
          refine .begins (by simp [beginsRead, hpc]) rfl ?_ ?_
          · simp
          · simp [inRead]
      | reading =>
          simp only [threadStep, hpc, Option.some.injEq] at ht
          subst ht
          exact .keeps (by simp [beginsRead, hpc]) rfl rfl hother
      | clearing =>
          simp only [threadStep, hpc, Option.some.injEq] at ht
          subst ht
          exact .keeps (by simp [beginsRead, hpc]) rfl rfl hother
      | setting =>
          simp only [threadStep, hpc, Option.some.injEq] at ht
          subst ht
          exact .keeps (by simp [beginsRead, hpc]) rfl rfl hother
      | callback =>
          simp only [threadStep, hpc, Option.some.injEq] at ht
          subst ht
          exact .keeps (by simp [beginsRead, hpc]) rfl rfl hother

/-- A step of a call moves that call only. -/
theorem callerStep_moves
    {altRead : Bool} {call : CallId ρ (φ × Nat) → Call}
    {r t : Requests.State (CallId ρ (φ × Nat))} {k : CallId ρ (φ × Nat)}
    (ht : callerStep altRead call k r = some t) :
    (∃ pc, t.caller = Function.update r.caller k pc) ∧ t.thread = r.thread := by
  unfold callerStep at ht
  split at ht
  · split_ifs at ht
    · cases ht
      exact ⟨⟨_, rfl⟩, rfl⟩
    · cases ht
      exact ⟨⟨_, rfl⟩, rfl⟩
    · cases ht
      exact ⟨⟨_, rfl⟩, rfl⟩
  · cases ht
    exact ⟨⟨_, rfl⟩, rfl⟩
  · cases ht
    exact ⟨⟨_, rfl⟩, rfl⟩
  · cases ht
    exact ⟨⟨_, rfl⟩, rfl⟩
  · cases ht
    exact ⟨⟨_, rfl⟩, rfl⟩
  · cases ht
    exact ⟨⟨_, rfl⟩, rfl⟩
  · cases ht

/-- A step moves nobody but the one who takes it. -/
theorem caller_of_ne
    {altRead : Bool} {call : CallId ρ (φ × Nat) → Call}
    {r t : Requests.State (CallId ρ (φ × Nat))} {k : CallId ρ (φ × Nat)}
    (ht : Requests.step altRead call r a = some t)
    (hk : a ≠ .caller k) :
    t.caller k = r.caller k := by
  cases a with
  | caller k' =>
      have hne : k ≠ k' := fun h => hk (by rw [h])
      obtain ⟨⟨pc, hpc⟩, -⟩ := callerStep_moves ht
      rw [hpc, Function.update_of_ne hne]
  | thread => rw [threadStep_caller ht]

theorem inRead_of_ne
    {altRead : Bool} {call : CallId ρ (φ × Nat) → Call}
    {r t : Requests.State (CallId ρ (φ × Nat))}
    {a' : Requests.Act (CallId ρ (φ × Nat))}
    (ht : Requests.step altRead call r a = some t)
    (hne : a ≠ a') :
    inRead t a' = inRead r a' := by
  cases a' with
  | caller k =>
      simp only [inRead]
      rw [caller_of_ne ht hne]
  | thread =>
      cases a with
      | caller k =>
          simp only [inRead]
          rw [(callerStep_moves ht).2]
      | thread => exact absurd rfl hne

end Drive

end Clients
end Ps2Cdvd
