import Mathlib.Data.List.GetD
import Mathlib.Data.List.TakeWhile
import Ps2Cdvd.Iso.Records

/-!
# File lookup

`fs_init` stores where the root directory of each layer lies.
`cdvdman_locatefile` goes through the path segment by segment: it walks the
sectors of a directory, and restarts in the extent of a subdirectory.
`cdvdman_findfile` turns the record found into an extent of the whole disc.

`Directories` is a set of well-formed directory extents, `Volume` adds the root
record of the volume descriptor, and `Disc` is a volume for each layer.  What a
path names there is `resolve`, over the listings of the volume.

* `cdvdmanLocatefile_resolves`: the walk is that search, over the sectors it is
  given and the directories whose size fits an `int`;
* `ofBytes_recordBytes`: a record is read back as it was written;
* `sceCdLayerSearchFile_complete_iff`: exactly when a lookup on a disc answers
  as the disc's contents say.  `fs_init` keeps the length of the root's record
  where the length of the root is needed, so that one sector of the root is all
  that is searched.
-/

namespace Ps2Cdvd
namespace Iso

open Lib Read

section Source

/-- `'/'` -/
def slashChar : UInt8 := 0x2f

/-- `'\\'` -/
def backslashChar : UInt8 := 0x5c

/-- `while (*p == '/') p++; while (*p == '\\') p++;` -/
def skipSlashes (p : List UInt8) : List UInt8 :=
  (p.dropWhile (· == slashChar)).dropWhile (· == backslashChar)

/-- `strchr(p, c)`: the text before the first `c`, and the text behind it. -/
def strchr (p : List UInt8) (c : UInt8) : Option (List UInt8 × List UInt8) :=
  if c ∈ p then some (p.takeWhile (· != c), (p.dropWhile (· != c)).tail)
  else none

/-- `cdvdman_dirname`, and `&slash[1]` when there is a slash.  Segments that do
not fit `cdvdman_dirname[32]` are not cut here. -/
def cutSegment (p : List UInt8) : List UInt8 × Option (List UInt8) :=
  match (strchr p slashChar).or (strchr p backslashChar) with
  | some (dirname, rest) => (dirname, some rest)
  | none => (p, none)

/-- `sceCdReadDvdDualInfo(&on_dual, &layer1_start)` -/
def sceCdReadDvdDualInfo (cfg : Settings) : Bool × Nat :=
  if cfg.has iopcoreCompatEmuDvddl then (true, 0)
  else (decide (0 < cfg.layer1Start), cfg.layer1Start)

/-- What `cdvdman_locatefile` returns, if it does. -/
inductive Located
  | found (pos : Int)
  | null
  | loops
deriving DecidableEq

/-- `cd_file_t`, as far as it is written.  `name` is `none` when it is copied
from the result of a failed `strrchr`. -/
structure CdFile where
  lsn : Nat
  size : Nat
  name : Option (List UInt8)
deriving DecidableEq

/-- `layer_info_t` -/
structure LayerInfo where
  rootDirtocLBA : Nat
  rootDirtocLength : Nat
deriving DecidableEq

/-- The variables of `fs_init` and of the lookups. -/
structure FsState where
  cdinited : Bool
  fsInited : Bool
  layerInfo0 : LayerInfo
  layerInfo1 : LayerInfo
  search : SearchState

/-- The static initialisation, with a drive in any state. -/
def boot (search : SearchState) : FsState where
  cdinited := false
  fsInited := false
  layerInfo0 := ⟨0, 0⟩
  layerInfo1 := ⟨0, 0⟩
  search := search

variable
  (cfg : Settings)
  (image : Nat → UInt8)
  (env : Nat → Option (Nat → DeviceTurn))
  (cdvdmanBuf : Nat)

/-- `tocLBA` of a directory that is entered. -/
def enteredLBA (layer : Int) (e : DirTocEntry) : Nat :=
  if !cfg.has iopcoreCompatEmuDvddl && layer ≠ 0 then
    u32 (e.fileLBA + (sceCdReadDvdDualInfo cfg).2)
  else e.fileLBA

/-- The variables of the sector loop of `cdvdman_locatefile`. -/
structure Cursor where
  dirname : List UInt8
  slash : Option (List UInt8)
  tocLBA : Nat
  tocLength : Int
deriving DecidableEq

/-- `cdvdman_locatefile` from `lbl_startlocate` on. -/
def startLocate (p : List UInt8) (tocLBA : Nat) (tocLength : Int) : Cursor where
  dirname := (cutSegment (skipSlashes p)).1
  slash := (cutSegment (skipSlashes p)).2
  tocLBA := tocLBA
  tocLength := tocLength

/-- `cdvdman_locatefile(name, tocLBA, tocLength, layer)`.  Every restart is
behind a slash of the name, so one turn more than it has characters is
enough. -/
def cdvdmanLocatefile (turns : Nat) (layer : Int) :
    (fuel : Nat) → (p : List UInt8) → (tocLBA : Nat) → (tocLength : Int) →
      SearchState → Located × SearchState
  | 0, _, _, _, s => (.loops, s)
  | fuel + 1, p, tocLBA, tocLength, s =>
      match cutSegment (skipSlashes p) with
      | (dirname, slash) =>
          match walkSectors cfg image env cdvdmanBuf turns slash.isNone dirname
              (sectorsOf tocLength) tocLBA tocLength s with
          | (.found pos, s) => (.found pos, s)
          | (.null, s) => (.null, s)
          | (.loops, s) => (.loops, s)
          | (.enter pos, s) =>
              match slash with
              | none => (.null, s)
              | some rest =>
                  let e := tocEntry cdvdmanBuf s.drive.mem pos
                  cdvdmanLocatefile turns layer fuel rest
                    (enteredLBA cfg layer e) (s32 e.fileSize) s

/-- `cdvdman_locatefile` from the sector loop on. -/
def locateAt (turns : Nat) (layer : Int) (fuel : Nat) (c : Cursor) (s : SearchState) :
    Located × SearchState :=
  match walkSectors cfg image env cdvdmanBuf turns c.slash.isNone c.dirname
      (sectorsOf c.tocLength) c.tocLBA c.tocLength s with
  | (.found pos, s) => (.found pos, s)
  | (.null, s) => (.null, s)
  | (.loops, s) => (.loops, s)
  | (.enter pos, s) =>
      match c.slash with
      | none => (.null, s)
      | some rest =>
          let e := tocEntry cdvdmanBuf s.drive.mem pos
          cdvdmanLocatefile cfg image env cdvdmanBuf turns layer fuel rest
            (enteredLBA cfg layer e) (s32 e.fileSize) s

theorem cdvdmanLocatefile_eq_locateAt
    {turns : Nat} {layer : Int} {fuel : Nat}
    (p : List UInt8) (tocLBA : Nat) (tocLength : Int) (s : SearchState) :
    cdvdmanLocatefile cfg image env cdvdmanBuf turns layer (fuel + 1) p tocLBA tocLength
        s =
      locateAt cfg image env cdvdmanBuf turns layer fuel (startLocate p tocLBA tocLength)
        s := by
  rfl

/-- The root extent that `fs_init` stores, from the record at
`&cdvdman_buf[0x9c]`. -/
def rootInfo (start : Nat) (e : DirTocEntry) : LayerInfo where
  rootDirtocLBA := u32 (start + e.fileLBA)
  rootDirtocLength := (e.length % 4294967296).toNat

/-- `fs_init`; whether its reads are accepted is not looked at. -/
def fsInit (s : FsState) : FsState :=
  if s.fsInited then s
  else
    let t := (sceCdRead cfg image env cdvdmanBuf 16 s.search).2
    let s :=
      { s with
        layerInfo0 := rootInfo 0 (tocEntry cdvdmanBuf t.drive.mem 0x9c)
        search := t }
    let s :=
      if !cfg.has iopcoreCompatEmuDvddl && (sceCdReadDvdDualInfo cfg).1 then
        let start := (sceCdReadDvdDualInfo cfg).2
        let t :=
          (sceCdRead cfg image env cdvdmanBuf (u32 (start + 16)) s.search).2
        { s with
          layerInfo1 := rootInfo start (tocEntry cdvdmanBuf t.drive.mem 0x9c)
          search := t }
      else s
    { s with fsInited := true }

/-- `cdvdman_init` -/
def cdvdmanInit (s : FsState) : FsState :=
  if s.cdinited then s
  else
    { fsInit cfg image env cdvdmanBuf
        { s with
          search :=
            { s.search with drive := { s.search.drive with err := cdvdErrNo } } }
      with
      cdinited := true }

/-- `cdvdman_trimspaces` -/
def cdvdmanTrimspaces (str : List UInt8) : List UInt8 :=
  (str.reverse.dropWhile (fun c => c == 0x20 || c == 0x2e)).reverse

/-- The four characters from `cdvdman_filepath[strlen(cdvdman_filepath) - 6]` on
are `.PSS` or `.pss`; `before` is what lies in front of that buffer. -/
def isVideo (before filepath : List UInt8) : Bool :=
  let tail := (before ++ filepath).drop (before.length + filepath.length - 6)
  tail.take 4 == [0x2e, 0x50, 0x53, 0x53] ||
    tail.take 4 == [0x2e, 0x70, 0x73, 0x73]

/-- `strrchr(name, '\\') + 1`, if there is a backslash. -/
def lastComponent (name : List UInt8) : Option (List UInt8) :=
  if backslashChar ∈ name then
    some (name.reverse.takeWhile (· != backslashChar)).reverse
  else none

/-- `cdvdman_findfile(pcdfile, name, layer)`: the result and `*pcdfile`, if it
returns, and the variables behind it. -/
def cdvdmanFindfile
    (turns : Nat) (before : List UInt8)
    (pcdfile : CdFile) (name : List UInt8) (layer : Int) (s : FsState) :
    Option (Int × CdFile) × FsState :=
  let s := cdvdmanInit cfg image env cdvdmanBuf s
  let layer := if cfg.has iopcoreCompatEmuDvddl then 0 else layer
  let info := if layer ≠ 0 then s.layerInfo1 else s.layerInfo0
  let filepath := cdvdmanTrimspaces (name.take 255)
  if info.rootDirtocLBA = 0 then (some (0, pcdfile), s)
  else
    match cdvdmanLocatefile cfg image env cdvdmanBuf turns layer
        (filepath.length + 1) filepath info.rootDirtocLBA
        (s32 info.rootDirtocLength) s.search with
    | (.loops, t) => (none, { s with search := t })
    | (.null, t) => (some (0, pcdfile), { s with search := t })
    | (.found pos, t) =>
        let e := tocEntry cdvdmanBuf t.drive.mem pos
        (some
          (1,
            { lsn :=
                if layer ≠ 0 then
                  u32 (e.fileLBA + (sceCdReadDvdDualInfo cfg).2)
                else e.fileLBA
              size :=
                if cfg.has iopcoreCompat0SkipVideos &&
                    isVideo before filepath then 0
                else e.fileSize
              name := lastComponent name }),
          { s with search := t })

/-- `sceCdLayerSearchFile(fp, name, layer)` -/
def sceCdLayerSearchFile
    (turns : Nat) (before : List UInt8)
    (fp : CdFile) (name : List UInt8) (layer : Int) (s : FsState) :
    Option (Int × CdFile) × FsState :=
  cdvdmanFindfile cfg image env cdvdmanBuf turns before fp name layer s

end Source

section Purpose

/-- A text is cut into segments at runs of `sep`; leading separators do not
count. -/
inductive Splits (sep : UInt8) : List UInt8 → List (List UInt8) → Prop
  | last {n : Nat} {seg : List UInt8}
      (hseg : sep ∉ seg) :
      Splits sep (List.replicate n sep ++ seg) [seg]
  | more {n : Nat} {seg rest : List UInt8} {segs : List (List UInt8)}
      (hne : seg ≠ [])
      (hseg : sep ∉ seg)
      (hrest : Splits sep rest segs) :
      Splits sep (List.replicate n sep ++ (seg ++ sep :: rest)) (seg :: segs)

/-- `sep` is one of the two separators, and the other one does not occur. -/
def OneKind (sep : UInt8) (text : List UInt8) : Prop :=
  (sep = backslashChar ∧ slashChar ∉ text) ∨
    (sep = slashChar ∧ backslashChar ∉ text)

/-- A set of well-formed directory extents, closed under subdirectories.  Block
numbers in records count from `start`. -/
structure Directories (image : Nat → UInt8) where
  start : Nat
  IsDir : DirTocEntry → Prop
  sectors : DirTocEntry → List (List DirTocEntry)
  laid : ∀ d, IsDir d → LaidFrom image (start + d.fileLBA) (sectors d)
  count : ∀ d, IsDir d → (sectors d).length = sectorsOf d.fileSize
  low : ∀ d, IsDir d → 16 < d.fileLBA
  high : ∀ d, IsDir d → start + d.fileLBA + (sectors d).length ≤ 4294967296
  inside :
    ∀ d, IsDir d → ∀ e ∈ (sectors d).flatten, start + e.fileLBA < 4294967296
  closed :
    ∀ d, IsDir d → ∀ e ∈ (sectors d).flatten, e.isDirectory = true → IsDir e

/-- The records of a directory, in the order in which they lie on the disc. -/
def Directories.entries
    {image : Nat → UInt8} (v : Directories image) (d : DirTocEntry) :
    List DirTocEntry :=
  (v.sectors d).flatten

/-- A set of well-formed directory extents, closed under subdirectories, as reads
deliver them.  Block numbers in records count from `start`, as `u32`. -/
structure DirectoryTree (image : Nat → UInt8) (start : Nat) where
  IsDir : DirTocEntry → Prop
  sectors : DirTocEntry → List (List DirTocEntry)
  laid : ∀ d, IsDir d → LaidAt image (u32 (start + d.fileLBA)) (sectors d)
  count : ∀ d, IsDir d → (sectors d).length = sectorsOf d.fileSize
  closed :
    ∀ d, IsDir d → ∀ e ∈ (sectors d).flatten, e.isDirectory = true → IsDir e

/-- The records of a directory, in the order in which they lie on the disc. -/
def DirectoryTree.entries
    {image : Nat → UInt8} {start : Nat} (v : DirectoryTree image start)
    (d : DirTocEntry) :
    List DirTocEntry :=
  (v.sectors d).flatten

/-- A well-formed volume: the descriptor in its sector 16 holds the record of
its root. -/
structure Volume (image : Nat → UInt8) extends Directories image where
  root : DirTocEntry
  rootIsDir : IsDir root
  descriptor : RecordAt (sectorBytes image (start + 16)) 0x9c root
  rootLength : root.length = 34
  rootSize : 0 < root.fileSize

/-- A record has the name that a component of a path gives. -/
def hasName (seg : List UInt8) (e : DirTocEntry) : Bool := e.filename == seg

/-- The record that a path names in a volume. -/
def Volume.find
    {image : Nat → UInt8} (v : Volume image) (segs : List (List UInt8)) :
    Option DirTocEntry :=
  resolve hasName DirTocEntry.isDirectory v.entries (v.entries v.root) segs

/-- The name of a record, up to its first zero, begins with the same twelve characters as
a component, or both are shorter and the same. -/
def sameTwelve (seg : List UInt8) (e : DirTocEntry) : Bool :=
  seg.take 12 == (e.filename.takeWhile (· ≠ 0)).take 12

/-- The record that a path picks in a volume when twelve characters of each component
count. -/
def Volume.picked
    {image : Nat → UInt8} (v : Volume image) (segs : List (List UInt8)) :
    Option DirTocEntry :=
  resolve sameTwelve DirTocEntry.isDirectory v.entries (v.entries v.root) segs

/-- A single-layer or dual-layer image. -/
structure Disc (cfg : Settings) (image : Nat → UInt8) where
  layer0 : Volume image
  layer1 : Option (Volume image)
  start0 : layer0.start = 0
  start1 : ∀ v, layer1 = some v → v.start = cfg.layer1Start
  dual : layer1.isSome = true ↔ 0 < cfg.layer1Start

/-- The volume that a lookup in a layer is about.  `EMU_DVDDL` makes one layer
of both. -/
def Disc.volume
    {cfg : Settings} {image : Nat → UInt8} (disc : Disc cfg image)
    (layer : Int) :
    Option (Volume image) :=
  if cfg.has iopcoreCompatEmuDvddl || layer = 0 then some disc.layer0
  else disc.layer1

/-- The extent and the size of what a path names in a layer. -/
def Disc.named
    {cfg : Settings} {image : Nat → UInt8} (disc : Disc cfg image)
    (layer : Int) (segs : List (List UInt8)) :
    Option (Nat × Nat) :=
  (disc.volume layer).bind fun v =>
    (v.find segs).map fun e => (v.start + e.fileLBA, e.fileSize)

/-- A backslash-separated path with the segments `segs`.  It fits
`cdvdman_filepath[256]` and its segments fit `cdvdman_dirname[32]`, which the
code does not check. -/
structure SearchPath (name : List UInt8) (segs : List (List UInt8)) : Prop where
  splits : Splits backslashChar (cdvdmanTrimspaces name) segs
  short : name.length ≤ 255
  fits : ∀ seg ∈ segs, seg.length < 32
  chars : ∀ c ∈ name, c ≠ 0 ∧ c ≠ slashChar

/-- A lookup has returned 1 if and only if the path names something, and then
with its extent and size. -/
def Complete (answer : Option (Int × CdFile)) (named : Option (Nat × Nat)) : Prop :=
  ∃ result file, answer = some (result, file) ∧
    (result = 1 ↔ named.isSome = true) ∧
    (result = 1 → named = some (file.lsn, file.size))

/-- The size of a directory fits an `int`. -/
def intSized (d : DirTocEntry) : Bool := decide (d.fileSize < 2147483648)

/-- The first component of the path picks a record in the first sector of the root, and
the directories on the way are smaller than 2 GiB. -/
def Volume.Reaches
    {image : Nat → UInt8} (v : Volume image) : List (List UInt8) → Prop
  | [] => False
  | seg :: segs =>
      (denoted sameTwelve DirTocEntry.isDirectory segs.isEmpty seg
        ((v.sectors v.root).take 1).flatten).isSome = true ∧
      ∀ d ∈ entered sameTwelve DirTocEntry.isDirectory v.entries
          (v.entries v.root) (seg :: segs),
        intSized d = true

/-- Twelve characters of each component are enough for the path: they pick the record that
it names, or one with the same extent and size, in what is reached; and if it names nothing,
they pick nothing there. -/
def Volume.PicksNamed
    {image : Nat → UInt8} (v : Volume image) (segs : List (List UInt8)) : Prop :=
  match v.find segs with
  | none => v.picked segs = none ∨ ¬ v.Reaches segs
  | some e =>
      v.Reaches segs ∧
        ∃ p, v.picked segs = some p ∧ p.fileLBA = e.fileLBA ∧ p.fileSize = e.fileSize

end Purpose

section Paths

variable {sep : UInt8} {seg : List UInt8}

theorem dropWhile_of_notMem
    {c : UInt8} {p : List UInt8}
    (h : c ∉ p) :
    p.dropWhile (· == c) = p := by
  cases p with
  | nil => rfl
  | cons x xs =>
      have hx : (x == c) = false := by
        rw [beq_eq_false_iff_ne]
        rintro rfl
        exact h List.mem_cons_self
      simp [List.dropWhile, hx]

/-- A run of separators is skipped. -/
theorem dropWhile_replicate
    (n : Nat) {p : List UInt8}
    (h : p.dropWhile (· == sep) = p) :
    (List.replicate n sep ++ p).dropWhile (· == sep) = p := by
  induction n with
  | zero => simpa using h
  | succ n ih =>
      rw [List.replicate_succ, List.cons_append, List.dropWhile_cons_of_pos]
      · exact ih
      · simp

theorem dropWhile_segment
    (hne : seg ≠ [])
    (hseg : sep ∉ seg)
    (rest : List UInt8) :
    (seg ++ rest).dropWhile (· == sep) = seg ++ rest := by
  cases seg with
  | nil => exact absurd rfl hne
  | cons x xs =>
      have hx : (x == sep) = false := by
        rw [beq_eq_false_iff_ne]
        rintro rfl
        exact hseg List.mem_cons_self
      simp [hx]

/-- Only one kind of separator occurs, so that one run of it is skipped. -/
theorem skipSlashes_replicate
    {n : Nat} {p : List UInt8}
    (hkind : OneKind sep (List.replicate n sep ++ p))
    (h : p.dropWhile (· == sep) = p) :
    skipSlashes (List.replicate n sep ++ p) = p := by
  rcases hkind with ⟨rfl, hother⟩ | ⟨rfl, hother⟩
  · unfold skipSlashes
    rw [dropWhile_of_notMem hother, dropWhile_replicate n h]
  · have hp : backslashChar ∉ p := fun hmem =>
      hother (List.mem_append_right _ hmem)
    unfold skipSlashes
    rw [dropWhile_replicate n h, dropWhile_of_notMem hp]

theorem strchr_of_notMem
    {p : List UInt8} {c : UInt8}
    (h : c ∉ p) :
    strchr p c = none := by
  simp [strchr, h]

theorem strchr_segment
    (hseg : sep ∉ seg)
    (rest : List UInt8) :
    strchr (seg ++ sep :: rest) sep = some (seg, rest) := by
  have hstop : ∀ c ∈ seg, (c != sep) = true := by
    intro c hc
    rw [bne_iff_ne]
    rintro rfl
    exact hseg hc
  unfold strchr
  rw [if_pos (by simp), List.takeWhile_append_of_pos hstop,
    List.dropWhile_append_of_pos hstop]
  simp

/-- The last segment is what is left of the path. -/
theorem cutSegment_last
    {n : Nat}
    (hkind : OneKind sep (List.replicate n sep ++ seg))
    (hseg : sep ∉ seg) :
    cutSegment (skipSlashes (List.replicate n sep ++ seg)) = (seg, none) := by
  rw [skipSlashes_replicate hkind (dropWhile_of_notMem hseg)]
  have hboth : slashChar ∉ seg ∧ backslashChar ∉ seg := by
    rcases hkind with ⟨rfl, hother⟩ | ⟨rfl, hother⟩
    · exact ⟨fun h => hother (List.mem_append_right _ h), hseg⟩
    · exact ⟨hseg, fun h => hother (List.mem_append_right _ h)⟩
  simp [cutSegment, strchr_of_notMem hboth.1, strchr_of_notMem hboth.2]

/-- Any other segment ends at the next separator. -/
theorem cutSegment_more
    {n : Nat} {rest : List UInt8}
    (hkind : OneKind sep (List.replicate n sep ++ (seg ++ sep :: rest)))
    (hne : seg ≠ [])
    (hseg : sep ∉ seg) :
    cutSegment (skipSlashes (List.replicate n sep ++ (seg ++ sep :: rest))) =
      (seg, some rest) := by
  rw [skipSlashes_replicate hkind (dropWhile_segment hne hseg _)]
  have hcut := strchr_segment hseg rest
  rcases hkind with ⟨rfl, hother⟩ | ⟨rfl, hother⟩
  · have hnone : slashChar ∉ seg ++ backslashChar :: rest :=
      fun h => hother (List.mem_append_right _ h)
    simp [cutSegment, strchr_of_notMem hnone, hcut]
  · simp [cutSegment, hcut]

/-- A text is longer than what follows its first segment. -/
theorem cutSegment_shorter
    {p rest : List UInt8}
    (h : (cutSegment (skipSlashes p)).2 = some rest) :
    rest.length < p.length := by
  have hdrop :
      ∀ (c : UInt8) (q : List UInt8),
        (q.dropWhile (· == c)).length ≤ q.length :=
    fun c q => (List.dropWhile_suffix _).length_le
  have hskip : (skipSlashes p).length ≤ p.length := by
    unfold skipSlashes
    exact (hdrop _ _).trans (hdrop _ _)
  have hcut :
      ∀ (q : List UInt8) (c : UInt8) (dirname : List UInt8),
        strchr q c = some (dirname, rest) → rest.length < q.length := by
    intro q c dirname hq
    unfold strchr at hq
    split_ifs at hq with hmem
    obtain ⟨-, hrest⟩ := Prod.mk.inj (Option.some.inj hq)
    have hne : q.dropWhile (· != c) ≠ [] := by
      intro hnil
      have hall := List.dropWhile_eq_nil_iff.mp hnil c hmem
      simp at hall
    have hpos := List.length_pos_iff.mpr hne
    have hle := (List.dropWhile_suffix (p := (· != c)) (l := q)).length_le
    rw [← hrest, List.length_tail]
    omega
  simp only [cutSegment] at h
  cases hfirst : (strchr (skipSlashes p) slashChar).or
      (strchr (skipSlashes p) backslashChar) with
  | none =>
      rw [hfirst] at h
      cases h
  | some pair =>
      obtain ⟨dirname, rest'⟩ := pair
      rw [hfirst] at h
      cases Option.some.inj h
      rcases Option.or_eq_some_iff.mp hfirst with hslash | ⟨-, hback⟩
      · exact lt_of_lt_of_le (hcut _ _ _ hslash) hskip
      · exact lt_of_lt_of_le (hcut _ _ _ hback) hskip

theorem OneKind.rest
    {pre p : List UInt8}
    (h : OneKind sep (pre ++ p)) :
    OneKind sep p := by
  rcases h with ⟨rfl, hother⟩ | ⟨rfl, hother⟩
  · exact Or.inl ⟨rfl, fun h => hother (List.mem_append_right _ h)⟩
  · exact Or.inr ⟨rfl, fun h => hother (List.mem_append_right _ h)⟩

end Paths

section Walks

variable
  {cfg : Settings}
  {image : Nat → UInt8}
  {env : Nat → Option (Nat → DeviceTurn)}
  {cdvdmanBuf : Nat}

theorem le32_lt (f : Nat → UInt8) (i : Nat) : le32 f i < 4294967296 := by
  have h0 := (f i).toNat_lt
  have h1 := (f (i + 1)).toNat_lt
  have h2 := (f (i + 2)).toNat_lt
  have h3 := (f (i + 2 + 1)).toNat_lt
  unfold le32 le16
  omega

section Trees

variable {start : Nat}

/-- The sectors that the code sees of a directory. -/
def DirectoryTree.seen
    (v : DirectoryTree image start) (d : DirTocEntry) : List (List DirTocEntry) :=
  if intSized d then v.sectors d else []

theorem DirectoryTree.seen_flatten
    (v : DirectoryTree image start) (d : DirTocEntry) :
    (v.seen d).flatten = kept v.entries intSized d := by
  unfold DirectoryTree.seen kept DirectoryTree.entries
  split_ifs
  · rfl
  · rfl

/-- The length of a directory that is entered counts the sectors seen. -/
theorem DirectoryTree.sectorsOf_seen
    (v : DirectoryTree image start) {d : DirTocEntry}
    (hd : v.IsDir d)
    (hsize : d.fileSize < 4294967296) :
    sectorsOf (s32 d.fileSize) = (v.seen d).length := by
  unfold DirectoryTree.seen
  by_cases hint : d.fileSize < 2147483648
  · rw [if_pos (by simpa [intSized] using hint), s32_of_lt hint]
    exact (v.count d hd).symm
  · rw [if_neg (by simpa [intSized] using hint)]
    simp only [s32, if_neg hint, List.length_nil, sectorsOf]
    omega

theorem DirectoryTree.laid_seen
    (v : DirectoryTree image start) {d : DirTocEntry}
    (hd : v.IsDir d) :
    LaidAt image (u32 (start + d.fileLBA)) (v.seen d) := by
  unfold DirectoryTree.seen
  split_ifs
  · exact v.laid d hd
  · trivial

theorem DirectoryTree.mem_seen
    (v : DirectoryTree image start) {d e : DirTocEntry}
    (h : e ∈ (v.seen d).flatten) :
    e ∈ (v.sectors d).flatten := by
  unfold DirectoryTree.seen at h
  split_ifs at h
  · exact h
  · cases h

end Trees

theorem LaidAt.length_lt
    {secs : List (List DirTocEntry)} {lba : Nat}
    (h : LaidAt image lba secs) :
    ∀ es ∈ secs, es.length < 61 := by
  induction secs generalizing lba with
  | nil => simp
  | cons es secs ih =>
      obtain ⟨hsector, hrest⟩ := h
      intro x hx
      rcases List.mem_cons.mp hx with rfl | hx
      · obtain ⟨fin, hpacked⟩ := hsector.packed
        have hlen := hpacked.length_le
        omega
      · exact ih hrest x hx

/-- Where a layer starts, for the code. -/
def layerStart (cfg : Settings) (layer : Int) : Nat :=
  if !cfg.has iopcoreCompatEmuDvddl && layer ≠ 0 then cfg.layer1Start else 0

theorem enteredLBA_eq
    {layer : Int} {e : DirTocEntry}
    (h : e.fileLBA < 4294967296) :
    enteredLBA cfg layer e = u32 (layerStart cfg layer + e.fileLBA) := by
  unfold enteredLBA layerStart sceCdReadDvdDualInfo
  cases hemu : cfg.has iopcoreCompatEmuDvddl with
  | true => simp [u32_of_lt h]
  | false =>
      by_cases hlayer : layer = 0
      · simp [hlayer, u32_of_lt h]
      · simp [hlayer, Nat.add_comm]

/-- The walk has found the record `wanted`, or there is none. -/
def LocateOf
    (cdvdmanBuf : Nat) (wanted : Option DirTocEntry)
    (out : Located × SearchState) : Prop :=
  match wanted with
  | some e => ∃ pos, out.1 = .found pos ∧
      tocEntry cdvdmanBuf out.2.drive.mem pos = e
  | none => out.1 = .null

/-- The walk through the directories is the search along the path. -/
theorem cdvdmanLocatefile_resolves
    {layer : Int}
    (v : DirectoryTree image (layerStart cfg layer))
    (henv : ReadsSucceed env)
    (hbuf : cdvdmanBuf + 4096 ≤ 4294967296)
    {turns : Nat}
    (hturns : 61 ≤ turns)
    {sep : UInt8} {text : List UInt8} {segs : List (List UInt8)}
    (hsplits : Splits sep text segs)
    (hkind : OneKind sep text)
    {fuel : Nat}
    (hfuel : text.length < fuel)
    {secs : List (List DirTocEntry)} {tocLBA : Nat} {tocLength : Int}
    (hlaid : LaidAt image tocLBA secs)
    (hlength : secs.length = sectorsOf tocLength)
    (hclosed : ∀ e ∈ secs.flatten, e.isDirectory = true → v.IsDir e)
    (s : SearchState) :
    LocateOf cdvdmanBuf
      (resolve agrees DirTocEntry.isDirectory (kept v.entries intSized)
        secs.flatten segs)
      (cdvdmanLocatefile cfg image env cdvdmanBuf turns layer fuel text tocLBA
        tocLength s) := by
  induction hsplits generalizing fuel secs tocLBA tocLength s with
  | @last n seg hseg =>
      obtain ⟨fuel, rfl⟩ : ∃ k, fuel = k + 1 := ⟨fuel - 1, by omega⟩
      have hwalk :=
        @walkSectors_laid cfg image env cdvdmanBuf henv hbuf turns true seg secs
          tocLBA tocLength hlaid hlength.symm
          (fun es hes => lt_of_lt_of_le (hlaid.length_lt es hes) hturns) s
      rcases hout : walkSectors cfg image env cdvdmanBuf turns true seg secs.length
        tocLBA tocLength s with ⟨out, s'⟩
      rw [hout] at hwalk
      simp only [cdvdmanLocatefile, cutSegment_last hkind hseg,
        Option.isNone_none, ← hlength, hout, resolve]
      cases hwanted :
          denoted agrees DirTocEntry.isDirectory true seg secs.flatten with
      | some e =>
          obtain ⟨pos, he, hfound⟩ := hwalk.hit e hwanted
          simp only [if_true] at hfound
          subst hfound
          exact ⟨pos, rfl, he⟩
      | none =>
          have hnull : out = .null := hwalk.miss hwanted
          subst hnull
          rfl
  | @more n seg rest segs hne hseg hrest ih =>
      obtain ⟨fuel, rfl⟩ : ∃ k, fuel = k + 1 := ⟨fuel - 1, by omega⟩
      have hwalk :=
        @walkSectors_laid cfg image env cdvdmanBuf henv hbuf turns false seg secs
          tocLBA tocLength hlaid hlength.symm
          (fun es hes => lt_of_lt_of_le (hlaid.length_lt es hes) hturns) s
      rcases hout : walkSectors cfg image env cdvdmanBuf turns false seg secs.length
        tocLBA tocLength s with ⟨out, s'⟩
      rw [hout] at hwalk
      simp only [cdvdmanLocatefile, cutSegment_more hkind hne hseg,
        Option.isNone_some, ← hlength, hout]
      rw [resolve_cons]
      have hmany : segs.isEmpty = false := by
        cases hrest with
        | last _ => rfl
        | more _ _ _ => rfl
      simp only [hmany, Bool.false_eq_true, if_false]
      cases hwanted :
          denoted agrees DirTocEntry.isDirectory false seg secs.flatten with
      | none =>
          have hnull : out = .null := hwalk.miss hwanted
          subst hnull
          rfl
      | some d =>
          obtain ⟨pos, hd, henter⟩ := hwalk.hit d hwanted
          simp only [Bool.false_eq_true, if_false] at hd henter
          subst henter
          have hisdir : d.isDirectory = true := by
            simpa using (denoted_agrees hwanted).2
          have hdir := hclosed d (denoted_mem hwanted) hisdir
          have hsize : d.fileSize < 4294967296 := by
            rw [← hd]
            exact le32_lt _ 10
          have hlba : d.fileLBA < 4294967296 := by
            rw [← hd]
            exact le32_lt _ 2
          have hkindrest : OneKind sep rest := by
            rw [show List.replicate n sep ++ (seg ++ sep :: rest) =
              (List.replicate n sep ++ seg ++ [sep]) ++ rest by simp] at hkind
            exact hkind.rest
          simp only [hd, Option.bind_some, ← v.seen_flatten]
          rw [enteredLBA_eq hlba]
          refine ih hkindrest ?_ (v.laid_seen hdir)
            (v.sectorsOf_seen hdir hsize).symm
            (fun e he => v.closed d hdir e (v.mem_seen he)) s'
          simp only [List.length_append, List.length_cons] at hfuel
          omega

/-- Directories whose sectors lie on the disc. -/
def Directories.tree
    (v : Directories image) {layer : Int} (hstart : v.start = layerStart cfg layer) :
    DirectoryTree image (layerStart cfg layer) where
  IsDir := fun d => v.IsDir d ∧ v.start + d.fileLBA < 4294967296
  sectors := v.sectors
  laid := by
    rintro d ⟨hd, hlba⟩
    have hlow := v.low d hd
    rw [← hstart, u32_of_lt hlba]
    exact (v.laid d hd).laidAt (by omega) (v.high d hd)
  count := fun d hd => v.count d hd.1
  closed := fun d hd e he hdir =>
    ⟨v.closed d hd.1 e he hdir, v.inside d hd.1 e he⟩

end Walks

section Answers

variable
  {cfg : Settings}
  {image : Nat → UInt8}
  {env : Nat → Option (Nat → DeviceTurn)}
  {cdvdmanBuf : Nat}

/-- What `fs_init` stores of a volume: its root extent, with the length of the
root's record. -/
def Volume.info (v : Volume image) : LayerInfo where
  rootDirtocLBA := v.start + v.root.fileLBA
  rootDirtocLength := 34

theorem Volume.sectors_pos (v : Volume image) :
    0 < (v.sectors v.root).length := by
  rw [v.count v.root v.rootIsDir]
  have hsize := v.rootSize
  unfold sectorsOf
  omega

theorem Volume.rootLBA_lt (v : Volume image) :
    v.start + v.root.fileLBA < 4294967296 := by
  have hhigh := v.high v.root v.rootIsDir
  have hpos := v.sectors_pos
  omega

/-- The descriptor of a volume gives its `layer_info`. -/
theorem Volume.rootInfo_eq
    (v : Volume image)
    {m : Nat → UInt8}
    (hbuf : cdvdmanBuf + 4096 ≤ 4294967296)
    (h : Holds cdvdmanBuf m (deliveredBytes image (v.start + 16))) :
    rootInfo v.start (tocEntry cdvdmanBuf m 0x9c) = v.info := by
  rw [deliveredBytes_behind image (by omega)] at h
  have hentry : tocEntry cdvdmanBuf m 0x9c = v.root :=
    h.tocEntry_eq hbuf v.descriptor.toRecordIn
  rw [hentry]
  unfold rootInfo Volume.info
  rw [v.rootLength, u32_of_lt v.rootLBA_lt]
  rfl

variable (disc : Disc cfg image)

/-- What `fs_init` leaves: the root extents of the layers. -/
structure Mounted (disc : Disc cfg image) (s : FsState) : Prop where
  inited : s.fsInited = true
  info0 : s.layerInfo0 = disc.layer0.info
  info1 :
    cfg.has iopcoreCompatEmuDvddl = false →
      s.layerInfo1 = match disc.layer1 with
        | some v => v.info
        | none => ⟨0, 0⟩

theorem fsInit_mounted
    (henv : ReadsSucceed env)
    (hbuf : cdvdmanBuf + 4096 ≤ 4294967296)
    (search : SearchState) :
    Mounted disc (fsInit cfg image env cdvdmanBuf (boot search)) := by
  obtain ⟨t, hread, hholds⟩ :=
    @sceCdRead_holds cfg image env cdvdmanBuf henv 16 search
  have hinfo0 :
      rootInfo 0 (tocEntry cdvdmanBuf t.drive.mem 0x9c) = disc.layer0.info := by
    have h := @Volume.rootInfo_eq image cdvdmanBuf disc.layer0 t.drive.mem hbuf
    rw [disc.start0] at h
    exact h hholds
  simp only [fsInit, boot, Bool.false_eq_true, if_false, hread]
  cases hemu : cfg.has iopcoreCompatEmuDvddl with
  | true =>
      simp only [Bool.not_true, Bool.false_and, Bool.false_eq_true, if_false]
      exact ⟨rfl, hinfo0, fun h => by rw [hemu] at h; cases h⟩
  | false =>
      simp only [Bool.not_false, Bool.true_and, sceCdReadDvdDualInfo, hemu,
        Bool.false_eq_true, if_false, decide_eq_true_eq]
      cases hlayer : disc.layer1 with
      | none =>
          have hsingle : ¬ 0 < cfg.layer1Start := by
            intro hpos
            have hsome := disc.dual.mpr hpos
            rw [hlayer] at hsome
            cases hsome
          rw [if_neg hsingle]
          refine ⟨rfl, hinfo0, fun _ => ?_⟩
          rw [hlayer]
      | some v =>
          have hdual : 0 < cfg.layer1Start := by
            rw [← disc.dual, hlayer]
            rfl
          have hstart := disc.start1 v hlayer
          have hlow := v.low v.root v.rootIsDir
          have hlba := v.rootLBA_lt
          rw [if_pos hdual, u32_of_lt (by omega)]
          obtain ⟨t', hread', hholds'⟩ :=
            @sceCdRead_holds cfg image env cdvdmanBuf henv
              (cfg.layer1Start + 16) t
          rw [hread']
          refine ⟨rfl, hinfo0, fun _ => ?_⟩
          rw [hlayer]
          rw [← hstart] at hholds' ⊢
          exact v.rootInfo_eq hbuf hholds'

/-- `cdvdman_init` has nothing left to initialise. -/
theorem Mounted.cdvdmanInit
    {s : FsState}
    (h : Mounted disc s) :
    Mounted disc (cdvdmanInit cfg image env cdvdmanBuf s) := by
  unfold Iso.cdvdmanInit
  by_cases hinit : s.cdinited = true
  · rw [if_pos hinit]
    exact h
  · rw [if_neg hinit]
    unfold fsInit
    simp only [h.inited, if_true]
    exact ⟨rfl, h.info0, h.info1⟩

/-- A search from the root that sees the root's first sector. -/
def Volume.findSeen (v : Volume image) (segs : List (List UInt8)) :
    Option DirTocEntry :=
  resolve agrees DirTocEntry.isDirectory (kept v.entries intSized)
    ((v.sectors v.root).take 1).flatten segs

/-- The comparison of the code is that of twelve characters. -/
theorem agrees_eq_sameTwelve : agrees = sameTwelve := rfl

/-- The part of the root that is seen, and the rest of it. -/
theorem Volume.entries_root (v : Volume image) :
    ((v.sectors v.root).take 1).flatten ++ ((v.sectors v.root).drop 1).flatten =
      v.entries v.root := by
  rw [← List.flatten_append, List.take_append_drop]
  rfl

/-- What is seen decides, where it reaches what the path picks. -/
theorem Volume.findSeen_of_reaches
    (v : Volume image) {segs : List (List UInt8)}
    (h : v.Reaches segs) :
    v.findSeen segs = v.picked segs := by
  cases segs with
  | nil => exact h.elim
  | cons seg segs =>
      obtain ⟨hfirst, hsizes⟩ := h
      unfold Volume.findSeen Volume.picked
      rw [agrees_eq_sameTwelve, resolve_restricted intSized _ ((v.sectors v.root).drop 1).flatten,
        v.entries_root, if_pos ⟨hfirst, by simpa using hsizes⟩]

/-- Otherwise the search finds nothing. -/
theorem Volume.findSeen_of_not_reaches
    (v : Volume image) {segs : List (List UInt8)}
    (h : ¬ v.Reaches segs) :
    v.findSeen segs = none := by
  cases segs with
  | nil => rfl
  | cons seg segs =>
      unfold Volume.findSeen
      rw [agrees_eq_sameTwelve, resolve_restricted intSized _ ((v.sectors v.root).drop 1).flatten,
        v.entries_root, if_neg]
      rintro ⟨hfirst, hsizes⟩
      exact h ⟨hfirst, by simpa using hsizes⟩

theorem LaidFrom.take
    {secs : List (List DirTocEntry)} {lsn : Nat}
    (h : LaidFrom image lsn secs)
    (n : Nat) :
    LaidFrom image lsn (secs.take n) := by
  induction secs generalizing lsn n with
  | nil => simp [LaidFrom]
  | cons es secs ih =>
      cases n with
      | zero => trivial
      | succ n => exact ⟨h.1, ih h.2 n⟩

/-- Every record that can be found has its extent inside the disc. -/
theorem Volume.findSeen_inside
    (v : Volume image) {segs : List (List UInt8)} {e : DirTocEntry}
    (h : v.findSeen segs = some e) :
    v.start + e.fileLBA < 4294967296 := by
  have hentries :
      ∀ d, v.IsDir d → ∀ r ∈ v.entries d,
        v.start + r.fileLBA < 4294967296 ∧
          (r.isDirectory = true → v.IsDir r) :=
    fun d hd r hr => ⟨v.inside d hd r hr, v.closed d hd r hr⟩
  refine
    (@resolve_invariant _ _ agrees DirTocEntry.isDirectory
      (kept v.entries intSized)
      (fun r => v.start + r.fileLBA < 4294967296 ∧
        (r.isDirectory = true → v.IsDir r))
      ?_ segs _ ?_ e h).1
  · intro d hd hdir r hr
    unfold kept at hr
    split_ifs at hr
    · exact hentries d (hd.2 hdir) r hr
    · cases hr
  · intro r hr
    apply hentries v.root v.rootIsDir
    rw [← v.entries_root]
    exact List.mem_append_left _ hr

/-- The walk from the stored root extent. -/
theorem Volume.locate
    (v : Volume image)
    (henv : ReadsSucceed env)
    (hbuf : cdvdmanBuf + 4096 ≤ 4294967296)
    {turns : Nat}
    (hturns : 61 ≤ turns)
    {layer : Int}
    (hstart : v.start = layerStart cfg layer)
    {sep : UInt8} {text : List UInt8} {segs : List (List UInt8)}
    (hsplits : Splits sep text segs)
    (hkind : OneKind sep text)
    (s : SearchState) :
    LocateOf cdvdmanBuf (v.findSeen segs)
      (cdvdmanLocatefile cfg image env cdvdmanBuf turns layer (text.length + 1)
        text v.info.rootDirtocLBA (s32 v.info.rootDirtocLength) s) := by
  have hlow := v.low v.root v.rootIsDir
  have hlba := v.rootLBA_lt
  have hpos := v.sectors_pos
  have hone : ((v.sectors v.root).take 1).length = 1 := by
    rw [List.length_take]
    omega
  have hmem :
      ∀ e ∈ ((v.sectors v.root).take 1).flatten, e ∈ v.entries v.root := by
    intro e he
    rw [← v.entries_root]
    exact List.mem_append_left _ he
  have hlength : sectorsOf (s32 v.info.rootDirtocLength) = 1 := by
    rw [show v.info.rootDirtocLength = 34 from rfl]
    decide
  have hlaid :
      LaidAt image v.info.rootDirtocLBA ((v.sectors v.root).take 1) :=
    ((v.laid v.root v.rootIsDir).take 1).laidAt (by omega) (by omega)
  have hclosed :
      ∀ e ∈ ((v.sectors v.root).take 1).flatten, e.isDirectory = true →
        v.IsDir e ∧ v.start + e.fileLBA < 4294967296 :=
    fun e he hdir =>
      ⟨v.closed v.root v.rootIsDir e (hmem e he) hdir,
        v.inside v.root v.rootIsDir e (hmem e he)⟩
  exact cdvdmanLocatefile_resolves (v.toDirectories.tree hstart) henv hbuf hturns
    hsplits hkind (Nat.lt_succ_self _) hlaid (hone.trans hlength.symm) hclosed s

/-- What a lookup answers, of the record that its search has found. -/
def answerOf
    (fp : CdFile) (name : List UInt8) (start : Nat) :
    Option DirTocEntry → Int × CdFile
  | none => (0, fp)
  | some e => (1, ⟨start + e.fileLBA, e.fileSize, lastComponent name⟩)

theorem SearchPath.oneKind
    {name : List UInt8} {segs : List (List UInt8)}
    (h : SearchPath name segs) :
    OneKind backslashChar (cdvdmanTrimspaces name) := by
  refine Or.inl ⟨rfl, ?_⟩
  intro hmem
  unfold cdvdmanTrimspaces at hmem
  rw [List.mem_reverse] at hmem
  have hin := (List.dropWhile_suffix _).subset hmem
  rw [List.mem_reverse] at hin
  exact (h.chars _ hin).2 rfl

/-- A lookup in a layer whose root is stored. -/
theorem cdvdmanFindfile_volume
    (v : Volume image)
    (henv : ReadsSucceed env)
    (hbuf : cdvdmanBuf + 4096 ≤ 4294967296)
    {turns : Nat}
    (hturns : 61 ≤ turns)
    (hvideos : cfg.has iopcoreCompat0SkipVideos = false)
    {name : List UInt8} {segs : List (List UInt8)}
    (hpath : SearchPath name segs)
    {layer : Int}
    (hstart :
      v.start =
        layerStart cfg (if cfg.has iopcoreCompatEmuDvddl then 0 else layer))
    {s : FsState}
    (hinfo :
      (if (if cfg.has iopcoreCompatEmuDvddl then 0 else layer) ≠ 0 then
        (cdvdmanInit cfg image env cdvdmanBuf s).layerInfo1
      else (cdvdmanInit cfg image env cdvdmanBuf s).layerInfo0) = v.info)
    (before : List UInt8) (fp : CdFile) :
    (cdvdmanFindfile cfg image env cdvdmanBuf turns before fp name layer s).1 =
      some (answerOf fp name v.start (v.findSeen segs)) := by
  have hlow := v.low v.root v.rootIsDir
  have hroot : ¬ v.info.rootDirtocLBA = 0 := by
    simp only [Volume.info]
    omega
  have htake : name.take 255 = name := List.take_of_length_le hpath.short
  have hwalk :=
    v.locate henv hbuf hturns hstart hpath.splits hpath.oneKind
      (cdvdmanInit cfg image env cdvdmanBuf s).search
  simp only [cdvdmanFindfile, htake, hinfo, if_neg hroot, hvideos,
    Bool.false_and, Bool.false_eq_true, if_false]
  generalize cdvdmanLocatefile cfg image env cdvdmanBuf turns _ _ _ _ _ _ = out
    at hwalk ⊢
  obtain ⟨out, t⟩ := out
  cases hfound : v.findSeen segs with
  | none =>
      rw [hfound] at hwalk
      have hnull : out = .null := hwalk
      subst hnull
      rfl
  | some e =>
      rw [hfound] at hwalk
      obtain ⟨pos, hpos, he⟩ := hwalk
      simp only at hpos he
      subst hpos
      have hinside := v.findSeen_inside hfound
      rw [hstart] at hinside
      have hlba : e.fileLBA < 4294967296 := by
        omega
      have hlsn :=
        @enteredLBA_eq cfg (if cfg.has iopcoreCompatEmuDvddl then 0 else layer) e
          hlba
      rw [u32_of_lt hinside, ← hstart] at hlsn
      simp only [he, answerOf, ← hlsn, enteredLBA]
      cases hemu : cfg.has iopcoreCompatEmuDvddl with
      | true => simp
      | false => simp

/-- A lookup after `fs_init`: the search from the stored root of its layer. -/
theorem sceCdLayerSearchFile_mounted
    (henv : ReadsSucceed env)
    (hbuf : cdvdmanBuf + 4096 ≤ 4294967296)
    {turns : Nat}
    (hturns : 61 ≤ turns)
    (hvideos : cfg.has iopcoreCompat0SkipVideos = false)
    {name : List UInt8} {segs : List (List UInt8)}
    (hpath : SearchPath name segs)
    {s : FsState}
    (hmounted : Mounted disc s)
    (layer : Int) (before : List UInt8) (fp : CdFile) :
    (sceCdLayerSearchFile cfg image env cdvdmanBuf turns before fp name layer s).1 =
      some (match disc.volume layer with
        | none => (0, fp)
        | some v => answerOf fp name v.start (v.findSeen segs)) := by
  have hinit := @Mounted.cdvdmanInit cfg image env cdvdmanBuf disc s hmounted
  unfold sceCdLayerSearchFile
  by_cases hfirst : (if cfg.has iopcoreCompatEmuDvddl then 0 else layer) = 0
  · have hvolume : disc.volume layer = some disc.layer0 := by
      unfold Disc.volume
      rw [if_pos]
      by_cases hemu : cfg.has iopcoreCompatEmuDvddl = true
      · simp [hemu]
      · rw [if_neg hemu] at hfirst
        simp [hfirst]
    rw [hvolume]
    apply cdvdmanFindfile_volume disc.layer0 henv hbuf hturns hvideos hpath
    · rw [hfirst, disc.start0]
      simp [layerStart]
    · rw [if_neg (by simpa using hfirst)]
      exact hinit.info0
  · have hemu : cfg.has iopcoreCompatEmuDvddl = false := by
      by_contra h
      rw [Bool.not_eq_false] at h
      rw [if_pos h] at hfirst
      exact hfirst rfl
    have hlayer : layer ≠ 0 := by
      simpa [hemu] using hfirst
    have hvolume : disc.volume layer = disc.layer1 := by
      unfold Disc.volume
      rw [if_neg]
      simp [hemu, hlayer]
    have hinfo := hinit.info1 hemu
    rw [hvolume]
    cases hlayer1 : disc.layer1 with
    | some v =>
        rw [hlayer1] at hinfo
        apply cdvdmanFindfile_volume v henv hbuf hturns hvideos hpath
        · rw [disc.start1 v hlayer1]
          simp [layerStart, hemu, hlayer]
        · rw [if_pos hfirst]
          exact hinfo
    | none =>
        rw [hlayer1] at hinfo
        simp only [cdvdmanFindfile, if_pos hfirst, hinfo, if_true]

/-- The answer of a search is right if it has the extent and the size of what the path
names. -/
theorem complete_answerOf_iff
    (fp : CdFile) (name : List UInt8) (start : Nat)
    (found named : Option DirTocEntry) :
    Complete (some (answerOf fp name start found))
        (named.map fun e => (start + e.fileLBA, e.fileSize)) ↔
      found.map (fun e => (e.fileLBA, e.fileSize)) =
        named.map (fun e => (e.fileLBA, e.fileSize)) := by
  cases found with
  | none =>
      cases named with
      | none => exact iff_of_true ⟨0, fp, rfl, by simp, by simp⟩ rfl
      | some e =>
          refine iff_of_false (fun hcomplete => ?_) (by simp)
          obtain ⟨result, file, hanswer, hiff, -⟩ := hcomplete
          obtain ⟨rfl, -⟩ := Prod.mk.inj (Option.some.inj hanswer)
          exact absurd (hiff.mpr rfl) (by decide)
  | some p =>
      constructor
      · rintro ⟨result, file, hanswer, -, hfile⟩
        obtain ⟨rfl, rfl⟩ := Prod.mk.inj (Option.some.inj hanswer)
        cases named with
        | none => cases hfile rfl
        | some e =>
            have hsame := Option.some.inj (hfile rfl)
            simp only [Prod.mk.injEq, Nat.add_left_cancel_iff] at hsame
            simp only [Option.map_some, hsame.1, hsame.2]
      · intro hsame
        cases named with
        | none => cases hsame
        | some e =>
            have hboth := Option.some.inj hsame
            simp only [Prod.mk.injEq] at hboth
            refine ⟨1, _, rfl, by simp, ?_⟩
            intro _
            simp only [Option.map_some, hboth.1, hboth.2]

/-- What is seen has that extent and size exactly when twelve characters are enough. -/
theorem Volume.findSeen_iff
    (v : Volume image) (segs : List (List UInt8)) :
    (v.findSeen segs).map (fun e => (e.fileLBA, e.fileSize)) =
        (v.find segs).map (fun e => (e.fileLBA, e.fileSize)) ↔
      v.PicksNamed segs := by
  unfold Volume.PicksNamed
  by_cases hreaches : v.Reaches segs
  · rw [v.findSeen_of_reaches hreaches]
    cases v.find segs with
    | none => simp [hreaches]
    | some e => simp [hreaches]
  · rw [v.findSeen_of_not_reaches hreaches]
    cases v.find segs with
    | none => simp [hreaches]
    | some e => simp [hreaches]

/-- Components of less than twelve characters pick the records of that very name, where no
name has a zero in it. -/
theorem sameTwelve_eq_hasName
    {seg : List UInt8} {e : DirTocEntry}
    (hseg : seg.length < 12)
    (hname : 0 ∉ e.filename) :
    sameTwelve seg e = hasName seg e := by
  have hcurdir : e.curdir = e.filename := by
    refine List.takeWhile_eq_self_iff.mpr ?_
    intro c hc
    simpa using fun h : c = 0 => hname (h ▸ hc)
  rw [Bool.eq_iff_iff, ← agrees_eq_sameTwelve, agrees_iff_of_short hseg, hcurdir, hasName,
    beq_iff_eq]

/-- A lookup answers as the contents of the disc say, if and only if its layer does not
exist, or twelve characters of each component pick the record that the path names, by way
of the first sector of the root and of directories smaller than 2 GiB. -/
theorem sceCdLayerSearchFile_complete_iff
    (henv : ReadsSucceed env)
    (hbuf : cdvdmanBuf + 4096 ≤ 4294967296)
    {turns : Nat}
    (hturns : 61 ≤ turns)
    (hvideos : cfg.has iopcoreCompat0SkipVideos = false)
    {name : List UInt8} {segs : List (List UInt8)}
    (hpath : SearchPath name segs)
    (layer : Int) (before : List UInt8) (fp : CdFile)
    (first later : SearchState) (cdinited : Bool) :
    Complete
      (sceCdLayerSearchFile cfg image env cdvdmanBuf turns before fp name layer
        { fsInit cfg image env cdvdmanBuf (boot first) with
          cdinited := cdinited
          search := later }).1
      (disc.named layer segs) ↔
    ∀ v, disc.volume layer = some v → v.PicksNamed segs := by
  have hinit := @fsInit_mounted cfg image env cdvdmanBuf disc henv hbuf first
  have hmounted :
      Mounted disc
        { fsInit cfg image env cdvdmanBuf (boot first) with
          cdinited := cdinited
          search := later } :=
    ⟨hinit.inited, hinit.info0, hinit.info1⟩
  rw [sceCdLayerSearchFile_mounted disc henv hbuf hturns hvideos hpath hmounted]
  unfold Disc.named
  cases hvolume : disc.volume layer with
  | none =>
      constructor
      · intro _ v hv
        cases hv
      · intro _
        exact ⟨0, fp, rfl, by simp, by simp⟩
  | some v =>
      simp only [Option.bind_some, Option.some.injEq, forall_eq']
      rw [complete_answerOf_iff, v.findSeen_iff]

end Answers

section TwoSectorRoot

/-- The four bytes of a little-endian number. -/
def bytes32 (n : Nat) : List UInt8 :=
  [UInt8.ofNat n, UInt8.ofNat (n / 256), UInt8.ofNat (n / 65536),
    UInt8.ofNat (n / 16777216)]

/-- The bytes of a directory record. -/
def recordBytes
    (lba size : Nat) (properties : UInt8) (name : List UInt8) : List UInt8 :=
  [UInt8.ofNat (33 + name.length), 0] ++ bytes32 lba ++ List.replicate 4 0 ++
    bytes32 size ++ List.replicate 11 0 ++ [properties] ++ List.replicate 6 0 ++
    [UInt8.ofNat name.length] ++ name

/-- An image that is zero outside the sectors given. -/
def imageOf (secs : List (Nat × List UInt8)) (addr : Nat) : UInt8 :=
  match secs.find? (fun s => s.1 == addr / 2048) with
  | some s => s.2.getD (addr % 2048) 0
  | none => 0

theorem sectorBytes_imageOf
    (secs : List (Nat × List UInt8)) (lsn : Nat) {i : Nat}
    (hi : i < 2048) :
    sectorBytes (imageOf secs) lsn i =
      match secs.find? (fun s => s.1 == lsn) with
      | some s => s.2.getD i 0
      | none => 0 := by
  have hdiv : (2048 * lsn + i) / 2048 = lsn := by
    omega
  have hmod : (2048 * lsn + i) % 2048 = i := by
    omega
  simp only [sectorBytes, imageOf, hdiv, hmod]

/-- The bytes of records, one behind the other. -/
def recordsBytes (es : List DirTocEntry) : List UInt8 :=
  es.flatMap (fun e => recordBytes e.fileLBA e.fileSize e.fileProperties e.filename)

/-- A record that its bytes can hold. -/
def DirTocEntry.Writable (e : DirTocEntry) : Prop :=
  e.length = 33 + e.filenameLength ∧ 1 ≤ e.filenameLength ∧ e.filenameLength ≤ 14 ∧
    e.fileLBA < 4294967296 ∧ e.fileSize < 4294967296

instance instDecidableWritable (e : DirTocEntry) : Decidable e.Writable :=
  inferInstanceAs (Decidable (_ ∧ _))

theorem le32_bytes32
    {f : Nat → UInt8} {i n : Nat}
    (h : n < 4294967296)
    (hf : ∀ j, j < 4 → f (i + j) = (bytes32 n).getD j 0) :
    le32 f i = n := by
  have h0 := hf 0 (by omega)
  have h1 := hf 1 (by omega)
  have h2 := hf 2 (by omega)
  have h3 := hf 3 (by omega)
  simp only [bytes32, List.getD_cons_zero, List.getD_cons_succ, Nat.add_zero]
    at h0 h1 h2 h3
  simp only [le32, le16]
  rw [h0, h1, h2, h3]
  simp only [UInt8.toNat_ofNat']
  omega

/-- The characters of a name behind the fixed part of its record. -/
theorem recordBytes_name
    (lba size : Nat) (properties : UInt8) (name post : List UInt8) :
    (List.range name.length).map
        (fun i => (recordBytes lba size properties name ++ post).getD (33 + i) 0) =
      name := by
  apply List.ext_getElem
  · simp
  · intro i _ hi
    have hbehind :
        (recordBytes lba size properties name ++ post).getD (33 + i) 0 =
          (name ++ post).getD i 0 := by
      rw [Nat.add_comm]
      rfl
    rw [List.getElem_map, List.getElem_range, hbehind, List.getD_append _ _ _ _ hi,
      List.getD_eq_getElem _ _ hi]

/-- A record is read back as it was written. -/
theorem ofBytes_recordBytes
    {e : DirTocEntry}
    (h : e.Writable)
    (post : List UInt8) :
    DirTocEntry.ofBytes (fun i =>
        (recordBytes e.fileLBA e.fileSize e.fileProperties e.filename ++ post).getD i 0) =
      e := by
  obtain ⟨length, lba, size, properties, name⟩ := e
  obtain ⟨hlength, -, hlevel1, hlba, hsize⟩ := h
  simp only [DirTocEntry.filenameLength] at hlength hlevel1 hlba hsize ⊢
  obtain ⟨f, hf⟩ :
      ∃ f, f = fun i => (recordBytes lba size properties name ++ post).getD i 0 :=
    ⟨_, rfl⟩
  have hfileLBA : le32 f 2 = lba := by
    apply le32_bytes32 hlba
    intro j hj
    rw [hf]
    interval_cases j <;> rfl
  have hfileSize : le32 f 10 = size := by
    apply le32_bytes32 hsize
    intro j hj
    rw [hf]
    interval_cases j <;> rfl
  have hbyte : f 0 = UInt8.ofNat (33 + name.length) := by
    rw [hf]
    rfl
  have hextended : f (0 + 1) = 0 := by
    rw [hf]
    rfl
  have hlong : s16 (le16 f 0) = length := by
    rw [le16, hbyte, hextended, UInt8.toNat_ofNat', Nat.mod_eq_of_lt (by omega),
      s16_of_lt (by simp; omega), hlength]
    simp
  have hproperties : f 25 = properties := by
    rw [hf]
    rfl
  have hcount : (f 32).toNat = name.length := by
    have hchar : f 32 = UInt8.ofNat name.length := by
      rw [hf]
      rfl
    rw [hchar, UInt8.toNat_ofNat', Nat.mod_eq_of_lt (by omega)]
  have hname := recordBytes_name lba size properties name post
  rw [← hf]
  simp only [DirTocEntry.ofBytes, hfileLBA, hfileSize, hlong, hproperties, hcount]
  rw [hf, hname]

theorem recordBytes_count (e : DirTocEntry) :
    (recordBytes e.fileLBA e.fileSize e.fileProperties e.filename).length =
      33 + e.filenameLength := by
  simp [recordBytes, bytes32, DirTocEntry.filenameLength]
  omega

/-- The first byte of a record is its length. -/
theorem recordBytes_length
    {e : DirTocEntry}
    (h : e.Writable)
    (pre post : List UInt8) :
    ((pre ++ (recordBytes e.fileLBA e.fileSize e.fileProperties e.filename ++
      post)).getD pre.length 0).toNat = 33 + e.filenameLength := by
  obtain ⟨-, -, hlevel1, -, -⟩ := h
  rw [List.getD_append_right _ _ _ _ le_rfl, Nat.sub_self]
  have hbyte :
      (recordBytes e.fileLBA e.fileSize e.fileProperties e.filename ++ post).getD 0 0 =
        UInt8.ofNat (33 + e.filenameLength) :=
    rfl
  rw [hbyte, UInt8.toNat_ofNat', Nat.mod_eq_of_lt (by omega)]

/-- A record lies in the sector where it was written. -/
theorem recordAt_recordBytes
    {e : DirTocEntry}
    (h : e.Writable)
    (pre post : List UInt8)
    (hfits : pre.length + (33 + e.filenameLength) ≤ 2048) :
    RecordAt
      (fun i =>
        (pre ++ (recordBytes e.fileLBA e.fileSize e.fileProperties e.filename ++
          post)).getD i 0)
      pre.length e := by
  have hbehind : ∀ i,
      (pre ++ (recordBytes e.fileLBA e.fileSize e.fileProperties e.filename ++
          post)).getD (pre.length + i) 0 =
        (recordBytes e.fileLBA e.fileSize e.fileProperties e.filename ++ post).getD i
          0 := by
    intro i
    rw [List.getD_append_right _ _ _ _ (Nat.le_add_right _ _), Nat.add_sub_cancel_left]
  have hlength := recordBytes_length h pre post
  refine ⟨⟨?_, ?_, h.2.1, ?_, ?_⟩, h.2.2.1⟩
  · simp only [hbehind]
    exact (ofBytes_recordBytes h post).symm
  · rw [hbehind]
    rfl
  · rw [hlength]
  · rw [hlength]
    exact hfits

/-- A sector that records have been written to holds them. -/
theorem laid_recordsBytes
    {es : List DirTocEntry}
    (hes : ∀ e ∈ es, e.Writable)
    (pre : List UInt8)
    (hfits : pre.length + (recordsBytes es).length ≤ 2048) :
    Laid (fun i => (pre ++ recordsBytes es).getD i 0) pre.length es := by
  induction es generalizing pre with
  | nil =>
      refine Laid.padding (by omega) ?_
      intro i hi _
      rw [recordsBytes, List.flatMap_nil, List.append_nil, List.getD_eq_default _ _ hi]
  | cons e es ih =>
      have he := hes e List.mem_cons_self
      obtain ⟨bytes, hbytes⟩ :
          ∃ bytes,
            bytes = recordBytes e.fileLBA e.fileSize e.fileProperties e.filename :=
        ⟨_, rfl⟩
      have hsplit : recordsBytes (e :: es) = bytes ++ recordsBytes es := by
        rw [hbytes]
        rfl
      have hlen : bytes.length = 33 + e.filenameLength := by
        rw [hbytes]
        exact recordBytes_count e
      rw [hsplit, List.length_append] at hfits
      rw [hsplit]
      refine Laid.record ?_ ?_
      · rw [hbytes]
        exact recordAt_recordBytes he pre _ (by omega)
      · have hnext := ih (fun e' he' => hes e' (List.mem_cons_of_mem _ he')) (pre ++ bytes)
          (by rw [List.length_append]; omega)
        have hbyte := recordBytes_length he pre (recordsBytes es)
        rw [← hbytes] at hbyte
        rw [hbyte, ← hlen, ← List.length_append]
        rw [List.append_assoc] at hnext
        exact hnext

theorem recordsBytes_length_le
    {es : List DirTocEntry}
    (hes : ∀ e ∈ es, e.Writable) :
    (recordsBytes es).length ≤ 47 * es.length := by
  induction es with
  | nil => exact Nat.zero_le _
  | cons e es ih =>
      have hle := ih (fun e' he' => hes e' (List.mem_cons_of_mem _ he'))
      have hlevel1 := (hes e List.mem_cons_self).2.2.1
      have hlen := recordBytes_count e
      simp only [recordsBytes, List.flatMap_cons, List.length_append, List.length_cons]
        at hle ⊢
      omega

/-- The same for a sector of an image, with few records. -/
theorem laid_of_bytes
    {f : Nat → UInt8} {es : List DirTocEntry} {bytes : List UInt8}
    (hf : ∀ i, i < 2048 → f i = bytes.getD i 0)
    (hbytes : bytes = recordsBytes es)
    (hes : ∀ e ∈ es, e.Writable)
    (hfew : es.length ≤ 43) :
    Laid f 0 es := by
  have hle := recordsBytes_length_le hes
  have hlaid := laid_recordsBytes hes [] (by rw [List.length_nil]; omega)
  rw [hbytes] at hf
  exact hlaid.congr hf

/-- A disc whose root directory has two sectors: `B;1` is in the first one and
`A;1` in the second one. -/
def twoSectorImage : Nat → UInt8 :=
  imageOf
    [(16, List.replicate 156 0 ++ recordBytes 20 4096 2 [0]),
     (20, recordBytes 20 4096 2 [0] ++ recordBytes 20 4096 2 [1] ++
       recordBytes 29 7 0 [0x42, 0x3b, 0x31]),
     (21, recordBytes 30 5 0 [0x41, 0x3b, 0x31])]

def dotRecord : DirTocEntry := ⟨34, 20, 4096, 2, [0]⟩

def dotDotRecord : DirTocEntry := ⟨34, 20, 4096, 2, [1]⟩

def fileB : DirTocEntry := ⟨36, 29, 7, 0, [0x42, 0x3b, 0x31]⟩

def fileA : DirTocEntry := ⟨36, 30, 5, 0, [0x41, 0x3b, 0x31]⟩

theorem laid_firstSector :
    Laid (sectorBytes twoSectorImage 20) 0 [dotRecord, dotDotRecord, fileB] :=
  laid_of_bytes (fun _ hi => sectorBytes_imageOf _ 20 hi) rfl (by decide) (by decide)

theorem laid_secondSector :
    Laid (sectorBytes twoSectorImage 21) 0 [fileA] :=
  laid_of_bytes (fun _ hi => sectorBytes_imageOf _ 21 hi) rfl (by decide) (by decide)

theorem rootRecordAt :
    RecordAt (sectorBytes twoSectorImage 16) 0x9c dotRecord := by
  have hroot : dotRecord.Writable := by
    decide
  have hrecord :=
    recordAt_recordBytes hroot (List.replicate 156 0) []
      (by rw [List.length_replicate]; decide)
  rw [List.length_replicate] at hrecord
  exact hrecord.congr (fun _ hi => sectorBytes_imageOf _ 16 hi)

/-- The disc as a volume. -/
def twoSectorVolume : Volume twoSectorImage where
  start := 0
  IsDir := fun d => d.fileLBA = 20 ∧ d.fileSize = 4096
  sectors := fun _ => [[dotRecord, dotDotRecord, fileB], [fileA]]
  laid := by
    rintro d ⟨hlba, -⟩
    rw [hlba]
    exact ⟨laid_firstSector, laid_secondSector, trivial⟩
  count := by
    rintro d ⟨-, hsize⟩
    rw [hsize]
    rfl
  low := by
    rintro d ⟨hlba, -⟩
    omega
  high := by
    rintro d ⟨hlba, -⟩
    rw [hlba]
    decide
  inside := by
    intro d _
    decide
  closed := by
    intro d _
    decide
  root := dotRecord
  rootIsDir := ⟨rfl, rfl⟩
  descriptor := rootRecordAt
  rootLength := rfl
  rootSize := by decide

def twoSectorDisc : Disc ⟨0, 0⟩ twoSectorImage where
  layer0 := twoSectorVolume
  layer1 := none
  start0 := rfl
  start1 := fun v hv => by cases hv
  dual := by decide

/-- A drive that accepts every read and is never disturbed. -/
def quietDrive : Nat → Option (Nat → DeviceTurn) :=
  fun _ => some quietTurns

theorem readsSucceed_quietDrive : ReadsSucceed quietDrive := by
  intro r
  exact ⟨_, rfl, quietTurns_undisturbed⟩

/-- `"\\A;1"` -/
def pathA : List UInt8 := [0x5c, 0x41, 0x3b, 0x31]

/-- `"\\B;1"` -/
def pathB : List UInt8 := [0x5c, 0x42, 0x3b, 0x31]

theorem searchPath_pathA : SearchPath pathA [[0x41, 0x3b, 0x31]] where
  splits := Splits.last (n := 1) (by decide)
  short := by decide
  fits := by decide
  chars := by simp [pathA, slashChar]

theorem searchPath_pathB : SearchPath pathB [[0x42, 0x3b, 0x31]] where
  splits := Splits.last (n := 1) (by decide)
  short := by decide
  fits := by decide
  chars := by simp [pathB, slashChar]

/-- A state of the drive before the first read. -/
def idleSearch : SearchState := ⟨⟨cdvdErrNo, cdvdStatPause, 0, fun _ => 0, 0, []⟩, 0⟩

/-- `B;1` is in the first sector of the root, and is found. -/
theorem sceCdLayerSearchFile_complete_iff_firstSector :
    Complete
      (sceCdLayerSearchFile ⟨0, 0⟩ twoSectorImage quietDrive 0x10000 61 []
        ⟨0, 0, none⟩ pathB 0
        { fsInit ⟨0, 0⟩ twoSectorImage quietDrive 0x10000 (boot idleSearch) with
          cdinited := true
          search := idleSearch }).1
      (twoSectorDisc.named 0 [[0x42, 0x3b, 0x31]]) := by
  refine
    (@sceCdLayerSearchFile_complete_iff ⟨0, 0⟩ twoSectorImage quietDrive 0x10000
      twoSectorDisc readsSucceed_quietDrive (by decide) 61 (by decide) (by decide)
      pathB [[0x42, 0x3b, 0x31]] searchPath_pathB 0 [] ⟨0, 0, none⟩ idleSearch
      idleSearch true).mpr ?_
  intro v hv
  have hlayer0 : v = twoSectorVolume := (Option.some.inj hv).symm
  subst hlayer0
  have hnamed : twoSectorVolume.find [[0x42, 0x3b, 0x31]] = some fileB := by
    decide
  have hpicked : twoSectorVolume.picked [[0x42, 0x3b, 0x31]] = some fileB := by
    decide
  unfold Volume.PicksNamed
  rw [hnamed]
  exact ⟨⟨by decide, by decide⟩, fileB, hpicked, rfl, rfl⟩

/-- `A;1` is in the second sector of the root: the disc has it, and the lookup
answers that it does not. -/
theorem sceCdLayerSearchFile_misses_secondSector :
    twoSectorDisc.named 0 [[0x41, 0x3b, 0x31]] = some (30, 5) ∧
    (sceCdLayerSearchFile ⟨0, 0⟩ twoSectorImage quietDrive 0x10000 61 []
      ⟨0, 0, none⟩ pathA 0
      (fsInit ⟨0, 0⟩ twoSectorImage quietDrive 0x10000 (boot idleSearch))).1 =
        some (0, ⟨0, 0, none⟩) ∧
    ¬ Complete
      (sceCdLayerSearchFile ⟨0, 0⟩ twoSectorImage quietDrive 0x10000 61 []
        ⟨0, 0, none⟩ pathA 0
        (fsInit ⟨0, 0⟩ twoSectorImage quietDrive 0x10000 (boot idleSearch))).1
      (twoSectorDisc.named 0 [[0x41, 0x3b, 0x31]]) := by
  have hnamed : twoSectorDisc.named 0 [[0x41, 0x3b, 0x31]] = some (30, 5) := by
    decide
  have hanswer :=
    @sceCdLayerSearchFile_mounted ⟨0, 0⟩ twoSectorImage quietDrive 0x10000
      twoSectorDisc readsSucceed_quietDrive (by decide) 61 (by decide) (by decide)
      pathA [[0x41, 0x3b, 0x31]] searchPath_pathA
      (fsInit ⟨0, 0⟩ twoSectorImage quietDrive 0x10000 (boot idleSearch))
      (fsInit_mounted twoSectorDisc readsSucceed_quietDrive (by decide) idleSearch)
      0 [] ⟨0, 0, none⟩
  have hmissed : twoSectorVolume.findSeen [[0x41, 0x3b, 0x31]] = none := by
    decide
  have hlayer : twoSectorDisc.volume 0 = some twoSectorVolume := rfl
  rw [hlayer] at hanswer
  simp only [hmissed, answerOf] at hanswer
  refine ⟨hnamed, hanswer, ?_⟩
  rw [hanswer, hnamed]
  rintro ⟨result, file, hsame, hiff, -⟩
  obtain ⟨rfl, -⟩ := Prod.mk.inj (Option.some.inj hsame)
  exact absurd (hiff.mpr rfl) (by decide)

end TwoSectorRoot

end Iso
end Ps2Cdvd
