import Ps2Cdvd.Iso.LastName
import Ps2Cdvd.Lib.Access

/-!
# The buffers that a path goes through

`cdrom_open` and `cdrom_getstat` copy a filename into `path_buffer[128]`, where
`cdrom_purifyPath` puts `";1"` behind it.  `cdvdman_findfile` copies a name into
`cdvdman_filepath[256]`, `cdvdman_locatefile` copies the segments of it into
`cdvdman_dirname[32]` and the names of the records into `cdvdman_curdir[15]`, and the part
of the name behind its last backslash goes to `cd_file_t.name[16]`.

The functions are given here by their accesses to these buffers.  A search that does not
end is seen up to any number `turns` of turns of its record loops.

* `locateAccesses_ok_iff`: exactly when the accesses of a search are as they should be;
* `findfileAccesses_inside_iff`: exactly when `cdvdman_findfile` does;
* `pathHandling_inside_iff`: exactly when each of the four functions does.
-/

namespace Ps2Cdvd
namespace Iso

open Lib Read StateTransition

section Source

/-- The buffers, with the text that the caller gave; nothing lies at `null`. -/
inductive PathBuffer
  | argument
  | pathBuffer
  | filepath
  | dirname
  | curdir
  | sector
  | name
  | null
deriving DecidableEq

/-- `sizeof`; the text of the caller ends with a zero. -/
def PathBuffer.size (argument : List UInt8) : PathBuffer → Nat
  | .argument => argument.length + 1
  | .pathBuffer => 128
  | .filepath => 256
  | .dirname => 32
  | .curdir => 15
  | .sector => 4096
  | .name => 16
  | .null => 0

/-- `strncpy(dst, src + first, n)`, with `text` at `src + first`. -/
def strncpyAccesses
    (dst src : PathBuffer) (first : Int) (text : List UInt8) (n : Nat) :
    List (Access PathBuffer) :=
  [⟨src, first, min (text.length + 1) n⟩, ⟨dst, 0, n⟩]

/-- `strcpy(dst, src + first)`, with `text` at `src + first`. -/
def strcpyAccesses
    (dst src : PathBuffer) (first : Int) (text : List UInt8) : List (Access PathBuffer) :=
  [⟨src, first, text.length + 1⟩, ⟨dst, 0, text.length + 1⟩]

/-- The characters that `strncmp(a, b, n)` reads of each text. -/
def strncmpReads : (a b : List UInt8) → (n : Nat) → Nat
  | _, _, 0 => 0
  | x :: a, y :: b, n + 1 => if x = y then strncmpReads a b n + 1 else 1
  | _, _, _ + 1 => 1

/-- The text in `path_buffer` behind `strncpy`; a filename that fills it goes on in what
lies `behind` it. -/
def copiedPath (behind filename : List UInt8) : List UInt8 :=
  if filename.length < 128 then filename else filename.take 128 ++ behind

/-- `cdrom_purifyPath` -/
def cdromPurifyPath (path : List UInt8) : List UInt8 :=
  if 3 ≤ path.length ∧
      (path.getD (path.length - 1) 0 ≠ 0x31 ∨ path.getD (path.length - 2) 0 ≠ 0x3b) then
    path ++ [0x3b, 0x31]
  else path

def purifyPathAccesses (path : List UInt8) : List (Access PathBuffer) :=
  ⟨.pathBuffer, 0, path.length + 1⟩ ::
    if 3 ≤ path.length then
      ⟨.pathBuffer, path.length - 1, 1⟩ ::
        if path.getD (path.length - 1) 0 ≠ 0x31 then [⟨.pathBuffer, path.length, 3⟩]
        else
          ⟨.pathBuffer, path.length - 2, 1⟩ ::
            if path.getD (path.length - 2) 0 ≠ 0x3b then [⟨.pathBuffer, path.length, 3⟩]
            else []
    else []

/-- The loop of `cdvdman_trimspaces`, over the characters of `str` from the last one on. -/
def trimLoopAccesses : List UInt8 → List (Access PathBuffer)
  | [] => []
  | c :: front =>
      ⟨.filepath, front.length, 1⟩ ::
        if c ≠ 0x20 ∧ c ≠ 0x2e then []
        else ⟨.filepath, front.length, 1⟩ :: trimLoopAccesses front

def trimspacesAccesses (str : List UInt8) : List (Access PathBuffer) :=
  ⟨.filepath, 0, str.length + 1⟩ :: trimLoopAccesses str.reverse

/-- `strchr(p, c)`, where `p` is at `first`. -/
def strchrAccess (first : Nat) (p : List UInt8) (c : UInt8) : Access PathBuffer :=
  ⟨.filepath, first, (p.takeWhile (· != c)).length + 1⟩

/-- From `lbl_startlocate` up to the sector loop, where `p` is at `first`. -/
def segmentAccesses (first : Nat) (p : List UInt8) : List (Access PathBuffer) :=
  let q := p.dropWhile (· == slashChar)
  let r := q.dropWhile (· == backslashChar)
  let atQ := first + (p.length - q.length)
  let atR := atQ + (q.length - r.length)
  [⟨.filepath, first, p.length - q.length + 1⟩, ⟨.filepath, atQ, q.length - r.length + 1⟩,
      strchrAccess atR r slashChar] ++
    (if slashChar ∈ r then [] else [strchrAccess atR r backslashChar]) ++
    match cutSegment r with
    | (dirname, some _) =>
        strncpyAccesses .dirname .filepath atR r dirname.length ++
          [⟨.dirname, dirname.length, 1⟩]
    | (_, none) => strcpyAccesses .dirname .filepath atR r

variable
  (cfg : Settings)
  (image : Nat → UInt8)
  (env : Nat → Option (Nat → DeviceTurn))
  (cdvdmanBuf : Nat)

/-- A turn of the record loop. -/
def recordAccesses (m : Nat → UInt8) (last : Bool) (dirname : List UInt8) (tocPos : Int) :
    List (Access PathBuffer) :=
  let e := tocEntry cdvdmanBuf m tocPos
  ⟨.sector, tocPos, 2⟩ ::
    if e.length = 0 then []
    else
      ⟨.sector, tocPos + 32, 1⟩ ::
        if e.filenameLength = 0 then []
        else
          strncpyAccesses .curdir .sector (tocPos + 33) e.curdir e.filenameLength ++
            [⟨.curdir, e.filenameLength, 1⟩,
              ⟨.dirname, 0, strncmpReads dirname e.curdir 12⟩,
              ⟨.curdir, 0, strncmpReads dirname e.curdir 12⟩] ++
            if agrees dirname e && last then []
            else
              (if agrees dirname e then [⟨.sector, tocPos + 25, 1⟩] else []) ++
                if agrees dirname e && e.isDirectory then
                  [⟨.sector, tocPos + 2, 4⟩, ⟨.sector, tocPos + 10, 4⟩]
                else [⟨.sector, tocPos, 2⟩]

/-- The record loop from `tocPos` on. -/
def scanAccesses (m : Nat → UInt8) (last : Bool) (dirname : List UInt8) :
    (turns : Nat) → (tocPos : Int) → List (Access PathBuffer)
  | 0, _ => []
  | turns + 1, tocPos =>
      recordAccesses cdvdmanBuf m last dirname tocPos ++
        match stepOver cdvdmanBuf m last dirname tocPos with
        | some next => scanAccesses m last dirname turns next
        | none => []

/-- The sector loop. -/
def walkAccesses (turns : Nat) (last : Bool) (dirname : List UInt8) :
    (fuel tocLBA : Nat) → (tocLength : Int) → SearchState → List (Access PathBuffer)
  | 0, _, _, _ => []
  | fuel + 1, tocLBA, tocLength, s =>
      if 0 < tocLength then
        match sceCdRead cfg image env cdvdmanBuf tocLBA s with
        | (false, _) => []
        | (true, s) =>
            scanAccesses cdvdmanBuf s.drive.mem last dirname turns 0 ++
              match scanRecords cdvdmanBuf s.drive.mem last dirname turns 0 with
              | .next =>
                  walkAccesses turns last dirname fuel (u32 (tocLBA + 1))
                    (tocLength - 2048) s
              | _ => []
      else []

/-- `cdvdman_locatefile`, where `p` is what is left of a path of `full` characters. -/
def locateAccesses (full turns : Nat) (layer : Int) :
    (fuel : Nat) → (p : List UInt8) → (tocLBA : Nat) → (tocLength : Int) →
      SearchState → List (Access PathBuffer)
  | 0, _, _, _, _ => []
  | fuel + 1, p, tocLBA, tocLength, s =>
      segmentAccesses (full - p.length) p ++
        match cutSegment (skipSlashes p) with
        | (dirname, slash) =>
            walkAccesses cfg image env cdvdmanBuf turns slash.isNone dirname
                (sectorsOf tocLength) tocLBA tocLength s ++
              match walkSectors cfg image env cdvdmanBuf turns slash.isNone dirname
                  (sectorsOf tocLength) tocLBA tocLength s, slash with
              | (.enter pos, s), some rest =>
                  let e := tocEntry cdvdmanBuf s.drive.mem pos
                  locateAccesses full turns layer fuel rest
                    (enteredLBA cfg layer e) (s32 e.fileSize) s
              | _, _ => []

/-- The test for a video; `before` lies in front of `cdvdman_filepath`. -/
def videoAccesses (before filepath : List UInt8) : List (Access PathBuffer) :=
  let tail := (before ++ filepath).drop (before.length + filepath.length - 6)
  [⟨.filepath, 0, filepath.length + 1⟩,
      ⟨.filepath, filepath.length - 6, strncmpReads tail [0x2e, 0x50, 0x53, 0x53] 4⟩] ++
    if tail.take 4 = [0x2e, 0x50, 0x53, 0x53] then []
    else
      [⟨.filepath, 0, filepath.length + 1⟩,
        ⟨.filepath, filepath.length - 6, strncmpReads tail [0x2e, 0x70, 0x73, 0x73] 4⟩]

/-- `strcpy(pcdfile->name, strrchr(name, '\\') + 1)`, where the name is in `src`. -/
def fileNameAccesses (src : PathBuffer) (name : List UInt8) : List (Access PathBuffer) :=
  ⟨src, 0, name.length + 1⟩ ::
    match lastComponent name with
    | some last => strcpyAccesses .name src (name.length - last.length) last
    | none => [⟨.null, 1, 1⟩]

/-- `cdvdman_findfile(pcdfile, name, layer)`, where the name is in `src`. -/
def findfileAccesses
    (turns : Nat) (before : List UInt8) (src : PathBuffer)
    (name : List UInt8) (layer : Int) (s : FsState) : List (Access PathBuffer) :=
  let s := cdvdmanInit cfg image env cdvdmanBuf s
  let layer := if cfg.has iopcoreCompatEmuDvddl then 0 else layer
  let info := if layer ≠ 0 then s.layerInfo1 else s.layerInfo0
  let filepath := cdvdmanTrimspaces (name.take 255)
  strncpyAccesses .filepath src 0 name 256 ++ [⟨.filepath, 255, 1⟩] ++
    trimspacesAccesses (name.take 255) ++
    if info.rootDirtocLBA = 0 then []
    else
      locateAccesses cfg image env cdvdmanBuf filepath.length turns layer
          (filepath.length + 1) filepath info.rootDirtocLBA (s32 info.rootDirtocLength)
          s.search ++
        match cdvdmanLocatefile cfg image env cdvdmanBuf turns layer (filepath.length + 1)
            filepath info.rootDirtocLBA (s32 info.rootDirtocLength) s.search with
        | (.found pos, _) =>
            [⟨.sector, pos + 2, 4⟩] ++
              (if cfg.has iopcoreCompat0SkipVideos then videoAccesses before filepath
                else []) ++
              (if cfg.has iopcoreCompat0SkipVideos && isVideo before filepath then []
                else [⟨.sector, pos + 10, 4⟩]) ++
              fileNameAccesses src name
        | _ => []

/-- `sceCdSearchFile(pcd_file, name)` -/
def sceCdSearchFileAccesses
    (turns : Nat) (before name : List UInt8) (s : FsState) : List (Access PathBuffer) :=
  findfileAccesses cfg image env cdvdmanBuf turns before .argument name 0 s

/-- `sceCdLayerSearchFile(fp, name, layer)` -/
def sceCdLayerSearchFileAccesses
    (turns : Nat) (before name : List UInt8) (layer : Int) (s : FsState) :
    List (Access PathBuffer) :=
  findfileAccesses cfg image env cdvdmanBuf turns before .argument name layer s

/-- `sceCdDiskReady(0)` clears the error. -/
def diskReady (s : FsState) : FsState :=
  { s with search := { s.search with drive := { s.search.drive with err := cdvdErrNo } } }

/-- The filename in `path_buffer`. -/
def pathBufferAccesses (behind filename : List UInt8) : List (Access PathBuffer) :=
  strncpyAccesses .pathBuffer .argument 0 filename 128 ++
    purifyPathAccesses (copiedPath behind filename)

/-- `cdrom_open(f, filename, mode)`, with `f->unit`; `free` says that there is a free file
slot. -/
def cdromOpenAccesses
    (turns : Nat) (before behind filename : List UInt8) (unit : Int) (free : Bool)
    (s : FsState) : List (Access PathBuffer) :=
  pathBufferAccesses behind filename ++
    if unit < 2 ∧ free = true then
      findfileAccesses cfg image env cdvdmanBuf turns before .pathBuffer
        (cdromPurifyPath (copiedPath behind filename)) unit
        (diskReady (cdvdmanInit cfg image env cdvdmanBuf s))
    else []

/-- `cdrom_getstat(f, filename, stat)` -/
def cdromGetstatAccesses
    (turns : Nat) (before behind filename : List UInt8) (unit : Int) (s : FsState) :
    List (Access PathBuffer) :=
  pathBufferAccesses behind filename ++
    findfileAccesses cfg image env cdvdmanBuf turns before .pathBuffer
      (cdromPurifyPath (copiedPath behind filename)) unit (diskReady s)

end Source

section Purpose

variable
  (cfg : Settings)
  (image : Nat → UInt8)
  (env : Nat → Option (Nat → DeviceTurn))
  (cdvdmanBuf : Nat)

/-- The name of the record at `pos` fits `cdvdman_curdir`. -/
def NameFits (m : Nat → UInt8) (pos : Int) : Prop :=
  (tocEntry cdvdmanBuf m pos).length ≠ 0 →
    (tocEntry cdvdmanBuf m pos).filenameLength ≤ 14

/-- It does, and the record does not begin in front of the sector buffer. -/
def RecordFits (m : Nat → UInt8) (pos : Int) : Prop :=
  0 ≤ pos ∧ NameFits cdvdmanBuf m pos

/-- The segments that a search comes to fit `cdvdman_dirname`, and the records that it
looks at are as `fits` says. -/
structure SearchFits
    (fits : (Nat → UInt8) → Int → Prop) (layer : Int) (c : Cursor) (s : SearchState) :
    Prop where
  first : c.dirname.length < 32
  next :
    ∀ c' m pos rest, Comes cfg image env cdvdmanBuf layer c s c' m →
      ScansTo cdvdmanBuf m c' (.enter pos) → c'.slash = some rest →
      (cutSegment (skipSlashes rest)).1.length < 32
  records :
    ∀ c' m, Comes cfg image env cdvdmanBuf layer c s c' m →
      ∀ pos, Reaches (stepOver cdvdmanBuf m c'.slash.isNone c'.dirname) 0 pos → fits m pos

/-- What is searched for a name fits; and if it is found, a trimmed path that is tested for
a video has six characters, and the part of the name behind its last backslash, which
exists, fits `name`. -/
def FindFits (name : List UInt8) (layer : Int) (s : FsState) : Prop :=
  let s' := cdvdmanInit cfg image env cdvdmanBuf s
  let layer' := if cfg.has iopcoreCompatEmuDvddl then 0 else layer
  let info := if layer' ≠ 0 then s'.layerInfo1 else s'.layerInfo0
  let filepath := cdvdmanTrimspaces (name.take 255)
  (info.rootDirtocLBA ≠ 0 →
    SearchFits cfg image env cdvdmanBuf (RecordFits cdvdmanBuf) layer'
      (startLocate filepath info.rootDirtocLBA (s32 info.rootDirtocLength)) s'.search) ∧
  ∀ turns pos t, locatedFor cfg image env cdvdmanBuf turns name layer s = (.found pos, t) →
    (cfg.has iopcoreCompat0SkipVideos = true → 6 ≤ filepath.length) ∧
      ∃ last, lastComponent name = some last ∧ last.length < 16

end Purpose

section Texts

variable {argument : List UInt8}

theorem strncmpReads_le (a b : List UInt8) (n : Nat) :
    strncmpReads a b n ≤ a.length + 1 ∧ strncmpReads a b n ≤ b.length + 1 := by
  induction a generalizing b n with
  | nil =>
      cases n with
      | zero => exact ⟨Nat.zero_le _, Nat.zero_le _⟩
      | succ n => exact ⟨Nat.le_add_left _ _, Nat.le_add_left _ _⟩
  | cons x a ih =>
      cases n with
      | zero => exact ⟨Nat.zero_le _, Nat.zero_le _⟩
      | succ n =>
          cases b with
          | nil => exact ⟨Nat.le_add_left _ _, Nat.le_add_left _ _⟩
          | cons y b =>
              obtain ⟨ha, hb⟩ := ih b n
              rw [strncmpReads, List.length_cons, List.length_cons]
              split_ifs
              · exact ⟨Nat.succ_le_succ ha, Nat.succ_le_succ hb⟩
              · exact ⟨Nat.le_add_left _ _, Nat.le_add_left _ _⟩

/-- A segment is a part of the path. -/
theorem cutSegment_le
    {p dirname : List UInt8} {slash : Option (List UInt8)}
    (h : cutSegment p = (dirname, slash)) :
    dirname.length ≤ p.length := by
  unfold cutSegment at h
  cases hslash : strchr p slashChar with
  | some cut =>
      rw [hslash] at h
      cases h
      rw [strchr_some hslash, List.length_append]
      exact Nat.le_add_right _ _
  | none =>
      rw [hslash] at h
      cases hback : strchr p backslashChar with
      | some cut =>
          rw [hback] at h
          cases h
          rw [strchr_some hback, List.length_append]
          exact Nat.le_add_right _ _
      | none =>
          rw [hback] at h
          cases h
          exact Nat.le_refl _

/-- Without a slash the segment is the whole path. -/
theorem cutSegment_none
    {p dirname : List UInt8}
    (h : cutSegment p = (dirname, none)) :
    dirname = p := by
  unfold cutSegment at h
  cases hcut : (strchr p slashChar).or (strchr p backslashChar) with
  | some cut =>
      rw [hcut] at h
      cases h
  | none =>
      rw [hcut] at h
      cases h
      rfl

/-- The accesses up to the sector loop stay inside exactly when the segment fits
`cdvdman_dirname`. -/
theorem segmentAccesses_inside_iff
    {first : Nat} {p : List UInt8}
    (hfirst : first + p.length ≤ 255) :
    Safe (PathBuffer.size argument) (segmentAccesses first p) ↔
      (cutSegment (skipSlashes p)).1.length < 32 := by
  have hq := (List.dropWhile_suffix (p := (· == slashChar)) (l := p)).length_le
  unfold segmentAccesses skipSlashes
  dsimp only
  generalize p.dropWhile (· == slashChar) = q at hq ⊢
  have hr := (List.dropWhile_suffix (p := (· == backslashChar)) (l := q)).length_le
  generalize q.dropWhile (· == backslashChar) = r at hr ⊢
  have hchr : ∀ c, (r.takeWhile (· != c)).length ≤ r.length := fun c =>
    (List.takeWhile_prefix _).length_le
  have hslash := hchr slashChar
  have hback := hchr backslashChar
  generalize hatQ : first + (p.length - q.length) = atQ
  generalize hatR : atQ + (q.length - r.length) = atR
  have htext :
      Safe (PathBuffer.size argument)
        ([⟨.filepath, first, p.length - q.length + 1⟩,
            ⟨.filepath, atQ, q.length - r.length + 1⟩, strchrAccess atR r slashChar] ++
          (if slashChar ∈ r then [] else [strchrAccess atR r backslashChar])) := by
    split_ifs
    · simp only [safe_append, safe_cons, safe_nil, Access.Inside, PathBuffer.size,
        strchrAccess, and_true]
      omega
    · simp only [safe_append, safe_cons, safe_nil, Access.Inside, PathBuffer.size,
        strchrAccess, and_true]
      omega
  rw [safe_append, and_iff_right htext]
  rcases hcut : cutSegment r with ⟨dirname, slash⟩
  have hdirname := cutSegment_le hcut
  cases slash with
  | some rest =>
      simp only [strncpyAccesses, safe_append, safe_cons, safe_nil, Access.Inside,
        PathBuffer.size, and_true]
      omega
  | none =>
      obtain rfl := cutSegment_none hcut
      simp only [strcpyAccesses, safe_cons, safe_nil, Access.Inside, PathBuffer.size,
        and_true]
      omega

end Texts

section Records

variable
  {argument : List UInt8}
  {cdvdmanBuf full : Nat}
  {m : Nat → UInt8}
  {last : Bool}
  {dirname : List UInt8}
  {tocPos pos : Int}

theorem filenameLength_le (pos : Int) :
    (tocEntry cdvdmanBuf m pos).filenameLength ≤ 255 := by
  simp only [tocEntry, DirTocEntry.ofBytes, DirTocEntry.filenameLength, List.length_map,
    List.length_range]
  exact Nat.le_of_lt_succ (UInt8.toNat_lt _)

theorem curdir_le (e : DirTocEntry) : e.curdir.length ≤ e.filenameLength :=
  (List.takeWhile_prefix _).length_le

/-- What is asked of the accesses of a turn holds at a record whose name fits, if it holds
of all accesses inside the buffers and of those to the fields of the record. -/
theorem recordAccesses_ok
    {ok : Access PathBuffer → Prop}
    (hinside : ∀ a : Access PathBuffer, a.Inside (PathBuffer.size argument) → ok a)
    (hsector : ∀ i n : Nat, i + n ≤ 300 → ok ⟨.sector, tocPos + i, n⟩)
    (hdirname : dirname.length < 32)
    (hname : NameFits cdvdmanBuf m tocPos) :
    ∀ a ∈ recordAccesses cdvdmanBuf m last dirname tocPos, ok a := by
  have hlong := @filenameLength_le cdvdmanBuf m tocPos
  have hcurdir := curdir_le (tocEntry cdvdmanBuf m tocPos)
  unfold NameFits at hname
  unfold recordAccesses
  dsimp only
  generalize tocEntry cdvdmanBuf m tocPos = e at hname hlong hcurdir ⊢
  obtain ⟨hreadsDir, hreadsCur⟩ := strncmpReads_le dirname e.curdir 12
  have hlength : ok ⟨.sector, tocPos, 2⟩ := by
    have hfirst := hsector 0 2 (by decide)
    rwa [Nat.cast_zero, add_zero] at hfirst
  have harray : ∀ (b : PathBuffer) (i n : Nat), i + n ≤ b.size argument →
      ok ⟨b, i, n⟩ := by
    intro b i n hin
    refine hinside _ ⟨Int.natCast_nonneg i, ?_⟩
    show (i : Int) + n ≤ b.size argument
    exact_mod_cast hin
  rw [List.forall_mem_cons]
  refine ⟨hlength, ?_⟩
  by_cases hzero : e.length = 0
  · rw [if_pos hzero]
    exact List.forall_mem_nil ok
  rw [if_neg hzero, List.forall_mem_cons]
  refine ⟨hsector 32 1 (by decide), ?_⟩
  by_cases hempty : e.filenameLength = 0
  · rw [if_pos hempty]
    exact List.forall_mem_nil ok
  · have hfits : e.filenameLength ≤ 14 := hname hzero
    have hcopy :
        ∀ a ∈ strncpyAccesses .curdir .sector (tocPos + 33) e.curdir e.filenameLength ++
            [⟨.curdir, e.filenameLength, 1⟩,
              ⟨.dirname, 0, strncmpReads dirname e.curdir 12⟩,
              ⟨.curdir, 0, strncmpReads dirname e.curdir 12⟩], ok a := by
      have hcurdirSize : PathBuffer.size argument .curdir = 15 := rfl
      have hdirnameSize : PathBuffer.size argument .dirname = 32 := rfl
      have htext := hsector 33 (min (e.curdir.length + 1) e.filenameLength) (by omega)
      have hcut := harray .curdir 0 e.filenameLength (by omega)
      have hend := harray .curdir e.filenameLength 1 (by omega)
      have hdir := harray .dirname 0 (strncmpReads dirname e.curdir 12) (by omega)
      have hcur := harray .curdir 0 (strncmpReads dirname e.curdir 12) (by omega)
      simp only [strncpyAccesses, List.cons_append, List.nil_append, List.forall_mem_cons]
      exact ⟨htext, hcut, hend, hdir, hcur, List.forall_mem_nil ok⟩
    have hfields :
        ∀ a ∈ (if agrees dirname e && last then []
          else
            (if agrees dirname e then [⟨.sector, tocPos + 25, 1⟩] else []) ++
              if agrees dirname e && e.isDirectory then
                [⟨.sector, tocPos + 2, 4⟩, ⟨.sector, tocPos + 10, 4⟩]
              else [⟨.sector, tocPos, 2⟩] : List (Access PathBuffer)), ok a := by
      have hlba := hsector 2 4 (by decide)
      have hsize := hsector 10 4 (by decide)
      have hproperties := hsector 25 1 (by decide)
      split_ifs
      · exact List.forall_mem_nil ok
      · simp only [List.cons_append, List.nil_append, List.forall_mem_cons]
        exact ⟨hproperties, hlba, hsize, List.forall_mem_nil ok⟩
      · simp only [List.cons_append, List.nil_append, List.forall_mem_cons]
        exact ⟨hproperties, hlength, List.forall_mem_nil ok⟩
      · simp only [List.nil_append, List.forall_mem_cons]
        exact ⟨hlba, hsize, List.forall_mem_nil ok⟩
      · simp only [List.nil_append, List.forall_mem_cons]
        exact ⟨hlength, List.forall_mem_nil ok⟩
    rw [if_neg hempty, List.forall_mem_append]
    exact ⟨hcopy, hfields⟩

/-- The name of a record fits if its end is written inside `cdvdman_curdir`. -/
theorem nameFits_of_ok
    {ok : Access PathBuffer → Prop}
    (hcurdir : ∀ n : Nat, ok ⟨.curdir, n, 1⟩ → n ≤ 14)
    (h : ∀ a ∈ recordAccesses cdvdmanBuf m last dirname tocPos, ok a) :
    NameFits cdvdmanBuf m tocPos := by
  unfold recordAccesses at h
  dsimp only at h
  obtain ⟨-, hrest⟩ := List.forall_mem_cons.mp h
  intro hzero
  rw [if_neg hzero] at hrest
  obtain ⟨-, hrest⟩ := List.forall_mem_cons.mp hrest
  by_cases hempty : (tocEntry cdvdmanBuf m tocPos).filenameLength = 0
  · omega
  · rw [if_neg hempty, List.forall_mem_append, List.forall_mem_append] at hrest
    obtain ⟨⟨-, hcopy⟩, -⟩ := hrest
    exact hcurdir _ (List.forall_mem_cons.mp hcopy).1

/-- What is asked of the accesses of a search holds up to a sector loop exactly when the
segment fits `cdvdman_dirname`, and of a turn of a record loop exactly at the records that
`fits` says. -/
structure Judges
    (cdvdmanBuf full : Nat) (ok : Access PathBuffer → Prop)
    (fits : (Nat → UInt8) → Int → Prop) : Prop where
  segment :
    ∀ (first : Nat) (p : List UInt8), first + p.length ≤ full →
      ((∀ a ∈ segmentAccesses first p, ok a) ↔ (cutSegment (skipSlashes p)).1.length < 32)
  record :
    ∀ (m : Nat → UInt8) (last : Bool) (dirname : List UInt8) (pos : Int),
      dirname.length < 32 → pos < 2016 → fits m pos →
      ∀ a ∈ recordAccesses cdvdmanBuf m last dirname pos, ok a
  fits :
    ∀ (m : Nat → UInt8) (last : Bool) (dirname : List UInt8) (pos : Int),
      (∀ a ∈ recordAccesses cdvdmanBuf m last dirname pos, ok a) → fits m pos

/-- All accesses are to be inside. -/
theorem judges_inside
    (hfull : full ≤ 255) :
    Judges cdvdmanBuf full (Access.Inside (PathBuffer.size argument))
      (RecordFits cdvdmanBuf) where
  segment := fun first p h => segmentAccesses_inside_iff (by omega)
  record := by
    intro m last dirname pos hdirname hlow hfits
    refine recordAccesses_ok (fun _ h => h) ?_ hdirname hfits.2
    intro i n hin
    obtain ⟨hpos, -⟩ := hfits
    simp only [Access.Inside, PathBuffer.size]
    omega
  fits := by
    intro m last dirname pos h
    refine ⟨(List.forall_mem_cons.mp h).1.1, nameFits_of_ok ?_ h⟩
    intro n hn
    simp only [Access.Inside, PathBuffer.size] at hn
    omega

variable
  {ok : Access PathBuffer → Prop}
  {fits : (Nat → UInt8) → Int → Prop}

/-- The record loop goes on at records that begin before 2016. -/
theorem stepOver_lt
    {next : Int}
    (hlow : tocPos < 2016)
    (h : stepOver cdvdmanBuf m last dirname tocPos = some next) :
    next < 2016 := by
  simp only [stepOver] at h
  split_ifs at h with hzero hempty hagrees hnext
  · cases h
    exact hlow
  · cases h
    exact hnext

/-- The accesses of the record loop are fine if all records that it comes to fit. -/
theorem scanAccesses_ok
    (hjudges : Judges cdvdmanBuf full ok fits)
    (hdirname : dirname.length < 32)
    (turns : Nat)
    (hlow : tocPos < 2016)
    (h :
      ∀ pos, Reaches (stepOver cdvdmanBuf m last dirname) tocPos pos →
        fits m pos) :
    ∀ a ∈ scanAccesses cdvdmanBuf m last dirname turns tocPos, ok a := by
  induction turns generalizing tocPos with
  | zero => exact List.forall_mem_nil ok
  | succ turns ih =>
      rw [scanAccesses, List.forall_mem_append]
      refine ⟨hjudges.record m last dirname tocPos hdirname hlow
        (h tocPos Relation.ReflTransGen.refl), ?_⟩
      cases hstep : stepOver cdvdmanBuf m last dirname tocPos with
      | none => exact List.forall_mem_nil ok
      | some next =>
          exact ih (stepOver_lt hlow hstep)
            (fun pos hpos => h pos (Relation.ReflTransGen.head hstep hpos))

/-- All records that it comes to fit if they are, however often it turns. -/
theorem fits_of_scan
    (hjudges : Judges cdvdmanBuf full ok fits)
    {enough : Nat}
    (h :
      ∀ turns, enough ≤ turns →
        ∀ a ∈ scanAccesses cdvdmanBuf m last dirname turns tocPos, ok a)
    (hpos : Reaches (stepOver cdvdmanBuf m last dirname) tocPos pos) :
    fits m pos := by
  induction hpos using Relation.ReflTransGen.head_induction_on with
  | refl =>
      have hturn := h (enough + 1) (Nat.le_succ enough)
      rw [scanAccesses, List.forall_mem_append] at hturn
      exact hjudges.fits m last dirname _ hturn.1
  | head hstep _ ih =>
      refine ih ?_
      intro turns hturns
      have hturn := h (turns + 1) (Nat.le_succ_of_le hturns)
      rw [scanAccesses, hstep, List.forall_mem_append] at hturn
      exact hturn.2

/-- The record loop stops at a record that it comes to. -/
theorem scanRecords_reaches
    {turns : Nat}
    (h : scanRecords cdvdmanBuf m last dirname turns tocPos = .found pos) :
    Reaches (stepOver cdvdmanBuf m last dirname) tocPos pos := by
  induction turns generalizing tocPos with
  | zero => cases h
  | succ turns ih =>
      rw [scanRecords_succ] at h
      cases hstep : stepOver cdvdmanBuf m last dirname tocPos with
      | some next =>
          rw [hstep] at h
          exact Relation.ReflTransGen.head hstep (ih h)
      | none =>
          simp only [hstep, stopAt] at h
          split_ifs at h with hzero hfound henter
          cases h
          exact Relation.ReflTransGen.refl

theorem reaches_lt
    (hlow : tocPos < 2016)
    (h : Reaches (stepOver cdvdmanBuf m last dirname) tocPos pos) :
    pos < 2016 := by
  induction h with
  | refl => exact hlow
  | tail _ hstep ih => exact stepOver_lt ih hstep

end Records

section Walk

variable
  {cfg : Settings}
  {image : Nat → UInt8}
  {env : Nat → Option (Nat → DeviceTurn)}
  {cdvdmanBuf full turns fuel : Nat}
  {layer : Int}
  {ok : Access PathBuffer → Prop}
  {fits : (Nat → UInt8) → Int → Prop}
  {c : Cursor}
  {s t : SearchState}

/-- `cdvdman_locatefile` from the sector loop on. -/
def locateAtAccesses
    (cfg : Settings) (image : Nat → UInt8) (env : Nat → Option (Nat → DeviceTurn))
    (cdvdmanBuf full turns : Nat) (layer : Int)
    (fuel : Nat) (c : Cursor) (s : SearchState) : List (Access PathBuffer) :=
  walkAccesses cfg image env cdvdmanBuf turns c.slash.isNone c.dirname
      (sectorsOf c.tocLength) c.tocLBA c.tocLength s ++
    match walkSectors cfg image env cdvdmanBuf turns c.slash.isNone c.dirname
        (sectorsOf c.tocLength) c.tocLBA c.tocLength s, c.slash with
    | (.enter pos, s), some rest =>
        let e := tocEntry cdvdmanBuf s.drive.mem pos
        locateAccesses cfg image env cdvdmanBuf full turns layer fuel rest
          (enteredLBA cfg layer e) (s32 e.fileSize) s
    | _, _ => []

theorem locateAccesses_succ
    (p : List UInt8) (tocLBA : Nat) (tocLength : Int) (s : SearchState) :
    locateAccesses cfg image env cdvdmanBuf full turns layer (fuel + 1) p tocLBA tocLength
        s =
      segmentAccesses (full - p.length) p ++
        locateAtAccesses cfg image env cdvdmanBuf full turns layer fuel
          (startLocate p tocLBA tocLength) s := by
  rfl

/-- Without sectors left, nothing is looked at. -/
theorem locateAtAccesses_done
    (h : ¬ 0 < c.tocLength) :
    locateAtAccesses cfg image env cdvdmanBuf full turns layer fuel c s = [] := by
  have hzero : sectorsOf c.tocLength = 0 := by
    unfold sectorsOf
    omega
  rw [locateAtAccesses, hzero]
  rfl

theorem locateAtAccesses_refused
    (hmore : 0 < c.tocLength)
    (hread : sceCdRead cfg image env cdvdmanBuf c.tocLBA s = (false, t)) :
    locateAtAccesses cfg image env cdvdmanBuf full turns layer fuel c s = [] := by
  obtain ⟨k, hk⟩ := sectorsOf_pos hmore
  simp only [locateAtAccesses, hk, walkAccesses, walkSectors, if_pos hmore, hread,
    List.append_nil]

/-- What is looked at in a sector, and behind it. -/
theorem locateAtAccesses_sector
    (hmore : 0 < c.tocLength)
    (hread : sceCdRead cfg image env cdvdmanBuf c.tocLBA s = (true, t)) :
    locateAtAccesses cfg image env cdvdmanBuf full turns layer fuel c s =
      scanAccesses cdvdmanBuf t.drive.mem c.slash.isNone c.dirname turns 0 ++
        match scanRecords cdvdmanBuf t.drive.mem c.slash.isNone c.dirname turns 0,
            c.slash with
        | .next, _ =>
            locateAtAccesses cfg image env cdvdmanBuf full turns layer fuel (nextSector c) t
        | .enter pos, some rest =>
            locateAccesses cfg image env cdvdmanBuf full turns layer fuel rest
              (enteredLBA cfg layer (tocEntry cdvdmanBuf t.drive.mem pos))
              (s32 (tocEntry cdvdmanBuf t.drive.mem pos).fileSize) t
        | _, _ => [] := by
  obtain ⟨k, hk⟩ := sectorsOf_pos hmore
  obtain ⟨-, hleft⟩ := sectorsOf_succ hk
  simp only [locateAtAccesses, hk, walkAccesses, walkSectors, if_pos hmore, hread,
    nextSector]
  cases scanRecords cdvdmanBuf t.drive.mem c.slash.isNone c.dirname turns 0 with
  | found pos => simp
  | enter pos =>
      cases c.slash with
      | none => simp
      | some rest => simp
  | next => rw [hleft, List.append_assoc]
  | loops => simp

theorem SearchFits.nextSector
    (h : SearchFits cfg image env cdvdmanBuf fits layer c s)
    (hmore : 0 < c.tocLength)
    (hread : sceCdRead cfg image env cdvdmanBuf c.tocLBA s = (true, t))
    (hscan : ScansTo cdvdmanBuf t.drive.mem c .next) :
    SearchFits cfg image env cdvdmanBuf fits layer (nextSector c) t :=
  ⟨h.first, fun c' m pos rest hcomes => h.next c' m pos rest (.next hmore hread hscan hcomes),
    fun c' m hcomes => h.records c' m (.next hmore hread hscan hcomes)⟩

theorem SearchFits.enter
    (h : SearchFits cfg image env cdvdmanBuf fits layer c s)
    {pos : Int} {rest : List UInt8}
    (hmore : 0 < c.tocLength)
    (hread : sceCdRead cfg image env cdvdmanBuf c.tocLBA s = (true, t))
    (hscan : ScansTo cdvdmanBuf t.drive.mem c (.enter pos))
    (hslash : c.slash = some rest) :
    SearchFits cfg image env cdvdmanBuf fits layer
      (startLocate rest (enteredLBA cfg layer (tocEntry cdvdmanBuf t.drive.mem pos))
        (s32 (tocEntry cdvdmanBuf t.drive.mem pos).fileSize)) t :=
  ⟨h.next c t.drive.mem pos rest (.here hmore hread) hscan hslash,
    fun c' m pos' rest' hcomes =>
      h.next c' m pos' rest' (.enter hmore hread hscan hslash hcomes),
    fun c' m hcomes => h.records c' m (.enter hmore hread hscan hslash hcomes)⟩

/-- The sectors of one directory, if the directories that are entered are safe. -/
theorem locateAtAccesses_ok
    (hjudges : Judges cdvdmanBuf full ok fits)
    (n : Nat)
    (hn : sectorsOf c.tocLength = n)
    (hfits : SearchFits cfg image env cdvdmanBuf fits layer c s)
    (henter :
      ∀ rest tocLBA tocLength t, c.slash = some rest →
        SearchFits cfg image env cdvdmanBuf fits layer (startLocate rest tocLBA tocLength) t →
        ∀ a ∈ locateAccesses cfg image env cdvdmanBuf full turns layer fuel rest tocLBA
            tocLength t, ok a) :
    ∀ a ∈ locateAtAccesses cfg image env cdvdmanBuf full turns layer fuel c s, ok a := by
  induction n generalizing c s with
  | zero =>
      rw [locateAtAccesses_done (by unfold sectorsOf at hn; omega)]
      exact List.forall_mem_nil ok
  | succ n ih =>
      obtain ⟨hmore, hleft⟩ := sectorsOf_succ hn
      rcases hread : sceCdRead cfg image env cdvdmanBuf c.tocLBA s with ⟨accepted, t⟩
      cases accepted with
      | false =>
          rw [locateAtAccesses_refused hmore hread]
          exact List.forall_mem_nil ok
      | true =>
          rw [locateAtAccesses_sector hmore hread, List.forall_mem_append]
          refine ⟨scanAccesses_ok hjudges hfits.first turns (by decide)
            (hfits.records c _ (.here hmore hread)), ?_⟩
          cases hscan : scanRecords cdvdmanBuf t.drive.mem c.slash.isNone c.dirname turns
              0 with
          | found pos => exact List.forall_mem_nil ok
          | loops => exact List.forall_mem_nil ok
          | next =>
              have hto : ScansTo cdvdmanBuf t.drive.mem c .next := ⟨by simp, turns, hscan⟩
              exact ih hleft (hfits.nextSector hmore hread hto) henter
          | enter pos =>
              have hto : ScansTo cdvdmanBuf t.drive.mem c (.enter pos) :=
                ⟨by simp, turns, hscan⟩
              cases hslash : c.slash with
              | none => exact List.forall_mem_nil ok
              | some rest =>
                  exact henter rest _ _ t hslash (hfits.enter hmore hread hto hslash)

/-- The accesses of a search whose segments and records fit are fine. -/
theorem locateAccesses_ok
    {p : List UInt8} {tocLBA : Nat} {tocLength : Int}
    (hjudges : Judges cdvdmanBuf full ok fits)
    (hp : p.length ≤ full)
    (hfits : SearchFits cfg image env cdvdmanBuf fits layer (startLocate p tocLBA tocLength) s) :
    ∀ a ∈ locateAccesses cfg image env cdvdmanBuf full turns layer fuel p tocLBA tocLength
        s, ok a := by
  induction fuel generalizing p tocLBA tocLength s with
  | zero => exact List.forall_mem_nil ok
  | succ fuel ih =>
      rw [locateAccesses_succ, List.forall_mem_append, hjudges.segment _ p (by omega)]
      refine ⟨hfits.first, locateAtAccesses_ok hjudges _ rfl hfits ?_⟩
      intro rest tocLBA' tocLength' t hslash hentered
      have hshorter := cutSegment_shorter hslash
      exact ih (by omega) hentered

/-- With turns enough, the accesses of the walk from a cursor on are fine. -/
def FineFrom
    (cfg : Settings) (image : Nat → UInt8) (env : Nat → Option (Nat → DeviceTurn))
    (cdvdmanBuf full : Nat) (layer : Int) (ok : Access PathBuffer → Prop)
    (fuel : Nat) (c : Cursor) (s : SearchState) : Prop :=
  ∃ enough, ∀ turns, enough ≤ turns →
    ∀ a ∈ locateAtAccesses cfg image env cdvdmanBuf full turns layer fuel c s, ok a

theorem FineFrom.scan
    (h : FineFrom cfg image env cdvdmanBuf full layer ok fuel c s)
    (hmore : 0 < c.tocLength)
    (hread : sceCdRead cfg image env cdvdmanBuf c.tocLBA s = (true, t)) :
    ∃ enough, ∀ turns, enough ≤ turns →
      ∀ a ∈ scanAccesses cdvdmanBuf t.drive.mem c.slash.isNone c.dirname turns 0, ok a := by
  obtain ⟨enough, henough⟩ := h
  refine ⟨enough, ?_⟩
  intro turns hturns
  have hsafe := henough turns hturns
  rw [locateAtAccesses_sector hmore hread, List.forall_mem_append] at hsafe
  exact hsafe.1

/-- With turns enough, a sector is scanned to its end. -/
theorem ScansTo.enough
    {m : Nat → UInt8} {out : Scan}
    (h : ScansTo cdvdmanBuf m c out) :
    ∃ enough, ∀ turns, enough ≤ turns →
      scanRecords cdvdmanBuf m c.slash.isNone c.dirname turns 0 = out := by
  obtain ⟨hout, first, rfl⟩ := h
  exact ⟨first, fun turns hturns => scanRecords_mono hout hturns⟩

theorem FineFrom.next
    (h : FineFrom cfg image env cdvdmanBuf full layer ok fuel c s)
    (hmore : 0 < c.tocLength)
    (hread : sceCdRead cfg image env cdvdmanBuf c.tocLBA s = (true, t))
    (hscan : ScansTo cdvdmanBuf t.drive.mem c .next) :
    FineFrom cfg image env cdvdmanBuf full layer ok fuel (nextSector c) t := by
  obtain ⟨enough, henough⟩ := h
  obtain ⟨first, hfirst⟩ := hscan.enough
  refine ⟨max enough first, ?_⟩
  intro turns hturns
  have hsafe := henough turns (by omega)
  rw [locateAtAccesses_sector hmore hread, hfirst turns (by omega), List.forall_mem_append] at hsafe
  exact hsafe.2

/-- The segment behind a directory that is entered fits, and the walk goes on so. -/
theorem FineFrom.enter
    {pos : Int} {rest : List UInt8}
    (h : FineFrom cfg image env cdvdmanBuf full layer ok (fuel + 1) c s)
    (hjudges : Judges cdvdmanBuf full ok fits)
    (hrest : rest.length ≤ full)
    (hmore : 0 < c.tocLength)
    (hread : sceCdRead cfg image env cdvdmanBuf c.tocLBA s = (true, t))
    (hscan : ScansTo cdvdmanBuf t.drive.mem c (.enter pos))
    (hslash : c.slash = some rest) :
    (cutSegment (skipSlashes rest)).1.length < 32 ∧
      FineFrom cfg image env cdvdmanBuf full layer ok fuel
        (startLocate rest (enteredLBA cfg layer (tocEntry cdvdmanBuf t.drive.mem pos))
          (s32 (tocEntry cdvdmanBuf t.drive.mem pos).fileSize)) t := by
  obtain ⟨enough, henough⟩ := h
  obtain ⟨first, hfirst⟩ := hscan.enough
  have hboth : ∀ turns, max enough first ≤ turns →
      (cutSegment (skipSlashes rest)).1.length < 32 ∧
        ∀ a ∈ locateAtAccesses cfg image env cdvdmanBuf full turns layer fuel
            (startLocate rest (enteredLBA cfg layer (tocEntry cdvdmanBuf t.drive.mem pos))
              (s32 (tocEntry cdvdmanBuf t.drive.mem pos).fileSize)) t, ok a := by
    intro turns hturns
    have hsafe := henough turns (by omega)
    rw [locateAtAccesses_sector hmore hread, hfirst turns (by omega), List.forall_mem_append] at hsafe
    have hentered := hsafe.2
    simp only [hslash] at hentered
    rw [locateAccesses_succ, List.forall_mem_append, hjudges.segment _ rest (by omega)]
      at hentered
    exact hentered
  exact ⟨(hboth _ le_rfl).1, max enough first, fun turns hturns => (hboth turns hturns).2⟩

/-- What such a walk comes to fits. -/
theorem Comes.fitsAt
    {c' : Cursor} {m : Nat → UInt8}
    (h : Comes cfg image env cdvdmanBuf layer c s c' m)
    (hjudges : Judges cdvdmanBuf full ok fits)
    (hfuel : ∀ rest, c.slash = some rest → rest.length < fuel ∧ rest.length ≤ full)
    (hfine : FineFrom cfg image env cdvdmanBuf full layer ok fuel c s) :
    (∀ pos rest, ScansTo cdvdmanBuf m c' (.enter pos) → c'.slash = some rest →
        (cutSegment (skipSlashes rest)).1.length < 32) ∧
      ∀ pos, Reaches (stepOver cdvdmanBuf m c'.slash.isNone c'.dirname) 0 pos →
        fits m pos := by
  induction h generalizing fuel with
  | here hmore hread =>
      refine ⟨?_, ?_⟩
      · intro pos rest hscan hslash
        obtain ⟨hlt, hle⟩ := hfuel rest hslash
        obtain ⟨fuel, rfl⟩ : ∃ k, fuel = k + 1 := ⟨fuel - 1, by omega⟩
        exact (hfine.enter hjudges hle hmore hread hscan hslash).1
      · intro pos hpos
        obtain ⟨enough, henough⟩ := hfine.scan hmore hread
        exact fits_of_scan hjudges henough hpos
  | next hmore hread hscan _ ih => exact ih hfuel (hfine.next hmore hread hscan)
  | enter hmore hread hscan hslash _ ih =>
      obtain ⟨hlt, hle⟩ := hfuel _ hslash
      obtain ⟨fuel, rfl⟩ : ∃ k, fuel = k + 1 := ⟨fuel - 1, by omega⟩
      refine ih ?_ (hfine.enter hjudges hle hmore hread hscan hslash).2
      intro rest hrest
      have hshorter := cutSegment_shorter hrest
      omega

/-- **The accesses of a search are fine** exactly when the segments and the records that it
comes to fit. -/
theorem locateAccesses_ok_iff
    {p : List UInt8} {tocLBA : Nat} {tocLength : Int}
    (hjudges : Judges cdvdmanBuf p.length ok fits) :
    (∀ turns, ∀ a ∈ locateAccesses cfg image env cdvdmanBuf p.length turns layer
        (p.length + 1) p tocLBA tocLength s, ok a) ↔
      SearchFits cfg image env cdvdmanBuf fits layer (startLocate p tocLBA tocLength) s := by
  constructor
  · intro hall
    have hsplit : ∀ turns,
        (cutSegment (skipSlashes p)).1.length < 32 ∧
          ∀ a ∈ locateAtAccesses cfg image env cdvdmanBuf p.length turns layer p.length
            (startLocate p tocLBA tocLength) s, ok a := by
      intro turns
      have hboth := hall turns
      rw [locateAccesses_succ, List.forall_mem_append, hjudges.segment _ p (by omega)]
        at hboth
      exact hboth
    have hfrom :
        FineFrom cfg image env cdvdmanBuf p.length layer ok p.length
          (startLocate p tocLBA tocLength) s :=
      ⟨0, fun turns _ => (hsplit turns).2⟩
    have hfuel : ∀ rest, (startLocate p tocLBA tocLength).slash = some rest →
        rest.length < p.length ∧ rest.length ≤ p.length := by
      intro rest hslash
      have hshorter := cutSegment_shorter hslash
      omega
    exact ⟨(hsplit 0).1,
      fun c' m pos rest hcomes => (hcomes.fitsAt hjudges hfuel hfrom).1 pos rest,
      fun c' m hcomes => (hcomes.fitsAt hjudges hfuel hfrom).2⟩
  · intro hfits turns
    exact locateAccesses_ok hjudges le_rfl hfits

/-- The sectors of one directory: a record that is found has been looked at. -/
theorem locateAt_found
    {pos : Int}
    (n : Nat)
    (hn : sectorsOf c.tocLength = n)
    (h : locateAt cfg image env cdvdmanBuf turns layer fuel c s = (.found pos, t))
    (henter :
      ∀ rest tocLBA tocLength s', c.slash = some rest →
        cdvdmanLocatefile cfg image env cdvdmanBuf turns layer fuel rest tocLBA tocLength s' =
          (.found pos, t) →
        ∃ c', Comes cfg image env cdvdmanBuf layer (startLocate rest tocLBA tocLength) s' c'
            t.drive.mem ∧
          Reaches (stepOver cdvdmanBuf t.drive.mem c'.slash.isNone c'.dirname) 0 pos) :
    ∃ c', Comes cfg image env cdvdmanBuf layer c s c' t.drive.mem ∧
      Reaches (stepOver cdvdmanBuf t.drive.mem c'.slash.isNone c'.dirname) 0 pos := by
  induction n generalizing c s with
  | zero =>
      have hnull :=
        @locateAt_done cfg image env cdvdmanBuf layer turns fuel c s
          (by unfold sectorsOf at hn; omega)
      rw [h] at hnull
      cases hnull
  | succ n ih =>
      obtain ⟨hmore, hleft⟩ := sectorsOf_succ hn
      rcases hread : sceCdRead cfg image env cdvdmanBuf c.tocLBA s with ⟨accepted, u⟩
      cases accepted with
      | false =>
          have hnull :=
            @locateAt_refused cfg image env cdvdmanBuf layer turns fuel c s u hmore hread
          rw [h] at hnull
          cases hnull
      | true =>
          rw [locateAt_sector hmore hread] at h
          cases hscan : scanRecords cdvdmanBuf u.drive.mem c.slash.isNone c.dirname turns
              0 with
          | found at_ =>
              rw [hscan] at h
              cases h
              exact ⟨c, .here hmore hread, scanRecords_reaches hscan⟩
          | loops =>
              rw [hscan] at h
              cases h
          | next =>
              rw [hscan] at h
              have hto : ScansTo cdvdmanBuf u.drive.mem c .next := ⟨by simp, turns, hscan⟩
              obtain ⟨c', hcomes, hreaches⟩ := ih hleft h henter
              exact ⟨c', .next hmore hread hto hcomes, hreaches⟩
          | enter at_ =>
              rw [hscan] at h
              have hto : ScansTo cdvdmanBuf u.drive.mem c (.enter at_) :=
                ⟨by simp, turns, hscan⟩
              cases hslash : c.slash with
              | none =>
                  simp only [hslash] at h
                  cases h
              | some rest =>
                  simp only [hslash] at h
                  obtain ⟨c', hcomes, hreaches⟩ := henter rest _ _ u hslash h
                  exact ⟨c', .enter hmore hread hto hslash hcomes, hreaches⟩

/-- A record that is found has been looked at. -/
theorem cdvdmanLocatefile_found
    {p : List UInt8} {tocLBA : Nat} {tocLength pos : Int}
    (h : cdvdmanLocatefile cfg image env cdvdmanBuf turns layer fuel p tocLBA tocLength s =
      (.found pos, t)) :
    ∃ c', Comes cfg image env cdvdmanBuf layer (startLocate p tocLBA tocLength) s c'
        t.drive.mem ∧
      Reaches (stepOver cdvdmanBuf t.drive.mem c'.slash.isNone c'.dirname) 0 pos := by
  induction fuel generalizing p tocLBA tocLength s with
  | zero => cases h
  | succ fuel ih =>
      rw [cdvdmanLocatefile_eq_locateAt] at h
      exact locateAt_found _ rfl h (fun rest tocLBA tocLength s' _ hrest => ih hrest)

end Walk

section Names

variable {argument : List UInt8}

theorem trimspaces_le (str : List UInt8) : (cdvdmanTrimspaces str).length ≤ str.length := by
  rw [cdvdmanTrimspaces, List.length_reverse]
  exact (List.dropWhile_suffix _).length_le.trans_eq List.length_reverse

theorem safe_trimLoopAccesses
    {str : List UInt8}
    (h : str.length ≤ 256) :
    Safe (PathBuffer.size argument) (trimLoopAccesses str) := by
  induction str with
  | nil => exact safe_nil
  | cons c front ih =>
      rw [List.length_cons] at h
      have hat : Access.Inside (PathBuffer.size argument) ⟨.filepath, front.length, 1⟩ := by
        simp only [Access.Inside, PathBuffer.size]
        omega
      rw [trimLoopAccesses, safe_cons]
      refine ⟨hat, ?_⟩
      split_ifs
      · exact safe_nil
      · rw [safe_cons]
        exact ⟨hat, ih (by omega)⟩

/-- The copy to `cdvdman_filepath` stays inside, of every name that ends in its buffer. -/
theorem safe_filepath
    {src : PathBuffer} {name : List UInt8}
    (hsrc : name.length + 1 ≤ src.size argument) :
    Safe (PathBuffer.size argument)
      (strncpyAccesses .filepath src 0 name 256 ++ [⟨.filepath, 255, 1⟩] ++
        trimspacesAccesses (name.take 255)) := by
  have hshort : (name.take 255).length ≤ 255 := List.length_take_le _ _
  have hloop :
      Safe (PathBuffer.size argument) (trimLoopAccesses (name.take 255).reverse) := by
    refine safe_trimLoopAccesses ?_
    rw [List.length_reverse]
    omega
  have hsize : PathBuffer.size argument .filepath = 256 := rfl
  simp only [strncpyAccesses, trimspacesAccesses, safe_append, safe_cons, safe_nil,
    Access.Inside, and_true, hsize]
  refine ⟨⟨?_, ?_⟩, ?_, hloop⟩
  · omega
  · omega
  · omega

/-- The test for a video stays inside exactly when the path has six characters. -/
theorem videoAccesses_inside_iff
    {filepath : List UInt8}
    (hshort : filepath.length ≤ 255)
    (before : List UInt8) :
    Safe (PathBuffer.size argument) (videoAccesses before filepath) ↔
      6 ≤ filepath.length := by
  unfold videoAccesses
  dsimp only
  generalize (before ++ filepath).drop (before.length + filepath.length - 6) = tail
  have hupper := (strncmpReads_le tail [0x2e, 0x50, 0x53, 0x53] 4).2
  have hlower := (strncmpReads_le tail [0x2e, 0x70, 0x73, 0x73] 4).2
  simp only [List.length_cons, List.length_nil] at hupper hlower
  have hsize : PathBuffer.size argument .filepath = 256 := rfl
  split_ifs
  · simp only [safe_append, safe_cons, safe_nil, Access.Inside, and_true, hsize]
    omega
  · simp only [safe_append, safe_cons, safe_nil, Access.Inside, and_true, hsize]
    omega

theorem lastComponent_le
    {name last : List UInt8}
    (h : lastComponent name = some last) :
    last.length ≤ name.length := by
  unfold lastComponent at h
  split_ifs at h
  cases h
  rw [List.length_reverse]
  exact (List.takeWhile_prefix _).length_le.trans_eq List.length_reverse

/-- The copy to `name` stays inside exactly when a part of the name behind a backslash
fits. -/
theorem fileNameAccesses_inside_iff
    {src : PathBuffer} {name : List UInt8}
    (hsrc : name.length + 1 ≤ src.size argument) :
    Safe (PathBuffer.size argument) (fileNameAccesses src name) ↔
      ∃ last, lastComponent name = some last ∧ last.length < 16 := by
  have hname : PathBuffer.size argument .name = 16 := rfl
  have hnull : PathBuffer.size argument .null = 0 := rfl
  unfold fileNameAccesses
  cases hlast : lastComponent name with
  | none =>
      simp only [safe_cons, safe_nil, Access.Inside, and_true, hnull, reduceCtorEq, false_and,
        exists_false, iff_false]
      omega
  | some last =>
      have hle := lastComponent_le hlast
      simp only [strcpyAccesses, safe_cons, safe_nil, Access.Inside, and_true, hname,
        Option.some.injEq, exists_eq_left']
      omega

/-- A name in `path_buffer` with its version. -/
theorem purifyPathAccesses_inside_iff (path : List UInt8) :
    Safe (PathBuffer.size argument) (purifyPathAccesses path) ↔
      (cdromPurifyPath path).length ≤ 127 := by
  have hsize : PathBuffer.size argument .pathBuffer = 128 := rfl
  unfold purifyPathAccesses cdromPurifyPath
  by_cases hlong : 3 ≤ path.length
  · by_cases hone : path.getD (path.length - 1) 0 ≠ 0x31
    · rw [if_pos hlong, if_pos hone, if_pos ⟨hlong, Or.inl hone⟩, List.length_append]
      simp only [safe_cons, safe_nil, Access.Inside, and_true, hsize, List.length_cons,
        List.length_nil]
      omega
    · by_cases hsemi : path.getD (path.length - 2) 0 ≠ 0x3b
      · rw [if_pos hlong, if_neg hone, if_pos hsemi, if_pos ⟨hlong, Or.inr hsemi⟩,
          List.length_append]
        simp only [safe_cons, safe_nil, Access.Inside, and_true, hsize, List.length_cons,
          List.length_nil]
        omega
      · rw [if_pos hlong, if_neg hone, if_neg hsemi, if_neg (fun h => h.2.elim hone hsemi)]
        simp only [safe_cons, safe_nil, Access.Inside, and_true, hsize]
        omega
  · rw [if_neg hlong, if_neg (fun h => hlong h.1)]
    simp only [safe_cons, safe_nil, Access.Inside, and_true, hsize]
    omega

theorem length_le_purifyPath (path : List UInt8) :
    path.length ≤ (cdromPurifyPath path).length := by
  unfold cdromPurifyPath
  split_ifs
  · rw [List.length_append]
    exact Nat.le_add_right _ _
  · exact Nat.le_refl _

/-- A filename stays inside `path_buffer` exactly when it fits there with its version. -/
theorem pathBufferAccesses_inside_iff (behind filename : List UInt8) :
    Safe (PathBuffer.size filename) (pathBufferAccesses behind filename) ↔
      (cdromPurifyPath filename).length ≤ 127 := by
  have hcopy :
      Safe (PathBuffer.size filename) (strncpyAccesses .pathBuffer .argument 0 filename 128) := by
    simp only [strncpyAccesses, safe_cons, safe_nil, Access.Inside, PathBuffer.size, and_true]
    omega
  rw [pathBufferAccesses, safe_append, and_iff_right hcopy, purifyPathAccesses_inside_iff]
  unfold copiedPath
  split_ifs with hshort
  · rfl
  · -- without a zero in the buffer, the text is longer than it
    have hlong := length_le_purifyPath filename
    have hcopied := length_le_purifyPath (filename.take 128 ++ behind)
    rw [List.length_append, List.length_take] at hcopied
    omega

theorem copiedPath_of_fits
    {filename : List UInt8}
    (h : (cdromPurifyPath filename).length ≤ 127)
    (behind : List UInt8) :
    copiedPath behind filename = filename := by
  have hle := length_le_purifyPath filename
  rw [copiedPath, if_pos (by omega)]

end Names

section Results

variable
  {cfg : Settings}
  {image : Nat → UInt8}
  {env : Nat → Option (Nat → DeviceTurn)}
  {cdvdmanBuf : Nat}
  {argument before : List UInt8}
  {src : PathBuffer}
  {name : List UInt8}
  {layer : Int}
  {s : FsState}

/-- **`cdvdman_findfile` stays inside its buffers** exactly when the search and what is
found fit. -/
theorem findfileAccesses_inside_iff
    (hsrc : name.length + 1 ≤ src.size argument) :
    (∀ turns, Safe (PathBuffer.size argument)
        (findfileAccesses cfg image env cdvdmanBuf turns before src name layer s)) ↔
      FindFits cfg image env cdvdmanBuf name layer s := by
  have hshort : (cdvdmanTrimspaces (name.take 255)).length ≤ 255 :=
    (trimspaces_le _).trans (List.length_take_le _ _)
  have hcopied := safe_filepath hsrc
  unfold FindFits findfileAccesses locatedFor
  dsimp only
  generalize cdvdmanInit cfg image env cdvdmanBuf s = s'
  generalize (if cfg.has iopcoreCompatEmuDvddl = true then 0 else layer) = layer'
  generalize (if layer' ≠ 0 then s'.layerInfo1 else s'.layerInfo0) = info
  generalize cdvdmanTrimspaces (name.take 255) = filepath at hshort ⊢
  by_cases hroot : info.rootDirtocLBA = 0
  · refine iff_of_true ?_ ⟨fun h => absurd hroot h, ?_⟩
    · intro turns
      rw [if_pos hroot, safe_append]
      exact ⟨hcopied, safe_nil⟩
    · intro turns pos t hfound
      rw [if_pos hroot] at hfound
      cases hfound
  · have hsector :
        ∀ {pos : Int} {t : SearchState} {turns : Nat},
          SearchFits cfg image env cdvdmanBuf (RecordFits cdvdmanBuf) layer'
            (startLocate filepath info.rootDirtocLBA (s32 info.rootDirtocLength)) s'.search →
          cdvdmanLocatefile cfg image env cdvdmanBuf turns layer' (filepath.length + 1) filepath
              info.rootDirtocLBA (s32 info.rootDirtocLength) s'.search = (.found pos, t) →
          0 ≤ pos ∧ pos < 2016 := by
      intro pos t turns hfits hfound
      obtain ⟨c', hcomes, hreaches⟩ := cdvdmanLocatefile_found hfound
      exact ⟨(hfits.records c' _ hcomes pos hreaches).1, reaches_lt (by decide) hreaches⟩
    simp only [if_neg hroot]
    constructor
    · intro hsafe
      have hfits :=
        (locateAccesses_ok_iff (judges_inside hshort)).mp
          (fun turns => (safe_append.mp (safe_append.mp (hsafe turns)).2).1)
      refine ⟨fun _ => hfits, ?_⟩
      intro turns pos t hfound
      have hbehind := (safe_append.mp (safe_append.mp (hsafe turns)).2).2
      rw [hfound] at hbehind
      simp only [safe_append] at hbehind
      obtain ⟨⟨⟨-, hvideo⟩, -⟩, hname⟩ := hbehind
      refine ⟨?_, (fileNameAccesses_inside_iff hsrc).mp hname⟩
      intro hskip
      rw [if_pos hskip] at hvideo
      exact (videoAccesses_inside_iff hshort before).mp hvideo
    · rintro ⟨hfits, hfound⟩ turns
      have hfits := hfits hroot
      refine safe_append.mpr ⟨hcopied, safe_append.mpr
        ⟨(locateAccesses_ok_iff (judges_inside hshort)).mpr hfits turns, ?_⟩⟩
      rcases hlocated : cdvdmanLocatefile cfg image env cdvdmanBuf turns layer'
          (filepath.length + 1) filepath info.rootDirtocLBA (s32 info.rootDirtocLength)
          s'.search with ⟨out, t⟩
      cases out with
      | null => exact safe_nil
      | loops => exact safe_nil
      | found pos =>
          obtain ⟨hlow, hhigh⟩ := hsector hfits hlocated
          obtain ⟨hvideo, hname⟩ := hfound turns pos t hlocated
          have hfield : ∀ i : Nat, i ≤ 300 →
              Access.Inside (PathBuffer.size argument) ⟨.sector, pos + i, 4⟩ := by
            intro i hi
            simp only [Access.Inside, PathBuffer.size]
            omega
          have hlba := hfield 2 (by decide)
          have hsize := hfield 10 (by decide)
          simp only [safe_append, safe_cons, safe_nil, and_true]
          refine ⟨⟨⟨hlba, ?_⟩, ?_⟩, (fileNameAccesses_inside_iff hsrc).mpr hname⟩
          · split_ifs with hskip
            · exact (videoAccesses_inside_iff hshort before).mpr (hvideo hskip)
            · exact safe_nil
          · split_ifs
            · exact safe_nil
            · exact safe_cons.mpr ⟨hsize, safe_nil⟩

/-- **Path handling stays inside its buffers** exactly as follows: a filename with its
version has at most 127 characters, and what is searched and found for it fits; a name that
is searched needs only the latter. -/
theorem pathHandling_inside_iff
    (cfg : Settings) (image : Nat → UInt8) (env : Nat → Option (Nat → DeviceTurn))
    (cdvdmanBuf : Nat) (before behind name : List UInt8) (layer : Int) (free : Bool)
    (s : FsState) :
    ((∀ turns, Safe (PathBuffer.size name)
        (cdromOpenAccesses cfg image env cdvdmanBuf turns before behind name layer free s)) ↔
      (cdromPurifyPath name).length ≤ 127 ∧
        (layer < 2 ∧ free = true →
          FindFits cfg image env cdvdmanBuf (cdromPurifyPath name) layer
            (diskReady (cdvdmanInit cfg image env cdvdmanBuf s)))) ∧
    ((∀ turns, Safe (PathBuffer.size name)
        (cdromGetstatAccesses cfg image env cdvdmanBuf turns before behind name layer s)) ↔
      (cdromPurifyPath name).length ≤ 127 ∧
        FindFits cfg image env cdvdmanBuf (cdromPurifyPath name) layer (diskReady s)) ∧
    ((∀ turns, Safe (PathBuffer.size name)
        (sceCdSearchFileAccesses cfg image env cdvdmanBuf turns before name s)) ↔
      FindFits cfg image env cdvdmanBuf name 0 s) ∧
    ((∀ turns, Safe (PathBuffer.size name)
        (sceCdLayerSearchFileAccesses cfg image env cdvdmanBuf turns before name layer s)) ↔
      FindFits cfg image env cdvdmanBuf name layer s) := by
  have hfind :
      ∀ s, (cdromPurifyPath name).length ≤ 127 →
        ((∀ turns, Safe (PathBuffer.size name)
          (findfileAccesses cfg image env cdvdmanBuf turns before .pathBuffer
            (cdromPurifyPath (copiedPath behind name)) layer s)) ↔
          FindFits cfg image env cdvdmanBuf (cdromPurifyPath name) layer s) := by
    intro s hfits
    rw [copiedPath_of_fits hfits]
    exact findfileAccesses_inside_iff (Nat.succ_le_succ hfits)
  refine ⟨?_, ?_, findfileAccesses_inside_iff (Nat.le_refl _),
    findfileAccesses_inside_iff (Nat.le_refl _)⟩
  · constructor
    · intro hsafe
      have hfits := (pathBufferAccesses_inside_iff behind name).mp (safe_append.mp (hsafe 0)).1
      refine ⟨hfits, ?_⟩
      intro hsearch
      refine (hfind _ hfits).mp ?_
      intro turns
      have hrest := (safe_append.mp (hsafe turns)).2
      rw [if_pos hsearch] at hrest
      exact hrest
    · rintro ⟨hfits, hfound⟩ turns
      rw [cdromOpenAccesses, safe_append]
      refine ⟨(pathBufferAccesses_inside_iff behind name).mpr hfits, ?_⟩
      split_ifs with hsearch
      · exact (hfind _ hfits).mpr (hfound hsearch) turns
      · exact safe_nil
  · constructor
    · intro hsafe
      have hfits := (pathBufferAccesses_inside_iff behind name).mp (safe_append.mp (hsafe 0)).1
      exact ⟨hfits, (hfind _ hfits).mp (fun turns => (safe_append.mp (hsafe turns)).2)⟩
    · rintro ⟨hfits, hfound⟩ turns
      rw [cdromGetstatAccesses, safe_append]
      exact ⟨(pathBufferAccesses_inside_iff behind name).mpr hfits,
        (hfind _ hfits).mpr hfound turns⟩

/-- A disc whose root has a record with a name of 15 characters. -/
def longNameImage : Nat → UInt8 :=
  imageOf
    [(16, List.replicate 156 0 ++ recordBytes 20 2048 2 [0]),
      (20, recordBytes 30 5 0 (List.replicate 15 0x41))]

/-- A filename of 126 characters leaves `path_buffer` when its version is appended; a
segment of 32 characters leaves `cdvdman_dirname`, and a record with a name of 15
characters `cdvdman_curdir`; and for a path of four characters, two characters in front of
`cdvdman_filepath` are tested for a video. -/
theorem pathHandling_leaves :
    (¬ ∀ turns, Safe (PathBuffer.size (List.replicate 126 0x41))
      (cdromOpenAccesses ⟨0, 0⟩ dataImage quietDrive 0x10000 turns [] []
        (List.replicate 126 0x41) 0 true (boot idleSearch))) ∧
    (¬ ∀ turns, Safe (PathBuffer.size (backslashChar :: List.replicate 32 0x41))
      (sceCdSearchFileAccesses ⟨0, 0⟩ dataImage quietDrive 0x10000 turns []
        (backslashChar :: List.replicate 32 0x41) (boot idleSearch))) ∧
    (¬ ∀ turns, Safe (PathBuffer.size pathA)
      (sceCdSearchFileAccesses ⟨0, 0⟩ longNameImage quietDrive 0x10000 turns [] pathA
        (boot idleSearch))) ∧
    ¬ ∀ turns, Safe (PathBuffer.size pathB)
      (sceCdSearchFileAccesses ⟨2, 0⟩ twoSectorImage quietDrive 0x10000 turns [] pathB
        (boot idleSearch)) := by
  have hsearch :
      ∀ {cfg : Settings} {image : Nat → UInt8} {name : List UInt8},
        (∀ turns, Safe (PathBuffer.size name)
          (sceCdSearchFileAccesses cfg image quietDrive 0x10000 turns [] name
            (boot idleSearch))) →
        FindFits cfg image quietDrive 0x10000 name 0 (boot idleSearch) :=
    fun hsafe => (findfileAccesses_inside_iff (Nat.le_refl _)).mp hsafe
  refine ⟨?_, ?_, ?_, ?_⟩
  · intro hsafe
    have hfits := (pathBufferAccesses_inside_iff _ _).mp (safe_append.mp (hsafe 0)).1
    exact absurd hfits (by decide +kernel)
  · intro hsafe
    have hroot :
        (cdvdmanInit ⟨0, 0⟩ dataImage quietDrive 0x10000
          (boot idleSearch)).layerInfo0.rootDirtocLBA ≠ 0 := by
      decide +kernel
    have hfirst := ((hsearch hsafe).1 hroot).first
    exact absurd hfirst (by decide +kernel)
  · intro hsafe
    have hroot :
        (cdvdmanInit ⟨0, 0⟩ longNameImage quietDrive 0x10000
          (boot idleSearch)).layerInfo0.rootDirtocLBA ≠ 0 := by
      decide +kernel
    have hfits := (hsearch hsafe).1 hroot
    have hrecord :=
      (hfits.records _ _ (.here (by decide +kernel) (Prod.ext (by decide +kernel) rfl)) 0
        Relation.ReflTransGen.refl).2
    exact absurd (hrecord (by decide +kernel)) (by decide +kernel)
  · intro hsafe
    have hfound :
        (locatedFor ⟨2, 0⟩ twoSectorImage quietDrive 0x10000 61 pathB 0
          (boot idleSearch)).1 = .found 68 := by
      decide +kernel
    have hlong := ((hsearch hsafe).2 61 68 _ (Prod.ext hfound rfl)).1 (by decide)
    exact absurd hlong (by decide)

end Results

end Iso
end Ps2Cdvd
