import Ps2Cdvd.Iso.Lookup

/-!
# The search along a path

What `cdvdman_locatefile` should find is `DirectoryTree.search`: for each component of
the path but the last one the first directory that agrees with it, over all sectors of
the extent, and for the last one the first record that does.  A search begins in any
extent, `Extent`, and goes on in those of a `DirectoryTree`.

* `cdvdmanLocatefile_exact_iff`: exactly when the walk finds what the search finds.  The
  length of a directory is an `int` for the walk, so that it takes a directory of 2 GiB
  for an empty one.
-/

namespace Ps2Cdvd
namespace Iso

open Lib Read

section Purpose

/-- A path whose components are separated by one kind of slash and fit
`cdvdman_dirname[32]`. -/
structure Segmented
    (sep : UInt8) (text : List UInt8) (segs : List (List UInt8)) : Prop where
  splits : Splits sep text segs
  oneKind : OneKind sep text
  fits : ∀ seg ∈ segs, seg.length < 32

variable {image : Nat → UInt8} {start : Nat}

/-- The extent that a search begins in: well-formed sectors, whose directories are in
the tree. -/
structure Extent
    (v : DirectoryTree image start) (tocLBA : Nat) (tocLength : Int) where
  sectors : List (List DirTocEntry)
  laid : LaidAt image tocLBA sectors
  count : sectors.length = sectorsOf tocLength
  closed : ∀ e ∈ sectors.flatten, e.isDirectory = true → v.IsDir e

variable {v : DirectoryTree image start} {tocLBA : Nat} {tocLength : Int}

/-- The record that a path names, from an extent on. -/
def Extent.search
    (x : Extent v tocLBA tocLength) (segs : List (List UInt8)) :
    Option DirTocEntry :=
  resolve agrees DirTocEntry.isDirectory v.entries x.sectors.flatten segs

/-- The directories on the way. -/
def Extent.entered
    (x : Extent v tocLBA tocLength) (segs : List (List UInt8)) :
    List DirTocEntry :=
  Lib.entered agrees DirTocEntry.isDirectory v.entries x.sectors.flatten segs

end Purpose

section Exact

variable
  {cfg : Settings}
  {image : Nat → UInt8}
  {env : Nat → Option (Nat → DeviceTurn)}
  {cdvdmanBuf : Nat}

/-- What the walk finds: the record that the path names, unless it has to enter a
directory whose size is negative as an `int`. -/
theorem Extent.search_seen
    {start : Nat} {v : DirectoryTree image start} {tocLBA : Nat} {tocLength : Int}
    (x : Extent v tocLBA tocLength) (segs : List (List UInt8)) :
    resolve agrees DirTocEntry.isDirectory (kept v.entries intSized)
        x.sectors.flatten segs =
      if ∀ d ∈ x.entered segs, d.fileSize < 2147483648 then x.search segs
      else none := by
  have hall :
      (x.entered segs).all intSized = true ↔
        ∀ d ∈ x.entered segs, d.fileSize < 2147483648 := by
    rw [List.all_eq_true]
    simp only [intSized, decide_eq_true_eq]
  rw [resolve_kept]
  by_cases hsizes : ∀ d ∈ x.entered segs, d.fileSize < 2147483648
  · rw [if_pos hsizes]
    exact if_pos (hall.mpr hsizes)
  · rw [if_neg hsizes]
    exact if_neg (fun h => hsizes (hall.mp h))

/-- **Exactly when the walk is the search.**  For every path, layer, extent to begin in
and set of well-formed directories, `cdvdman_locatefile` returns the record that the
path names, and `NULL` if it names none, if and only if the path names nothing or every
directory on the way is smaller than 2 GiB. -/
theorem cdvdmanLocatefile_exact_iff
    {layer : Int}
    {v : DirectoryTree image (layerStart cfg layer)}
    {tocLBA : Nat} {tocLength : Int}
    (x : Extent v tocLBA tocLength)
    (henv : ReadsSucceed env)
    (hbuf : cdvdmanBuf + 4096 ≤ 4294967296)
    {turns : Nat}
    (hturns : 61 ≤ turns)
    {sep : UInt8} {text : List UInt8} {segs : List (List UInt8)}
    (hpath : Segmented sep text segs)
    {fuel : Nat}
    (hfuel : text.length < fuel)
    (s : SearchState) :
    LocateOf cdvdmanBuf (x.search segs)
        (cdvdmanLocatefile cfg image env cdvdmanBuf turns layer fuel text tocLBA
          tocLength s) ↔
      x.search segs = none ∨ ∀ d ∈ x.entered segs, d.fileSize < 2147483648 := by
  have hwalk :=
    cdvdmanLocatefile_resolves v henv hbuf hturns hpath.splits hpath.oneKind hfuel
      x.laid x.count x.closed s
  rw [x.search_seen] at hwalk
  by_cases hsizes : ∀ d ∈ x.entered segs, d.fileSize < 2147483648
  · rw [if_pos hsizes] at hwalk
    exact ⟨fun _ => Or.inr hsizes, fun _ => hwalk⟩
  · rw [if_neg hsizes] at hwalk
    cases hfound : x.search segs with
    | none => exact ⟨fun _ => Or.inl rfl, fun _ => hwalk⟩
    | some e =>
        constructor
        · rintro ⟨pos, hpos, -⟩
          have hnull : (cdvdmanLocatefile cfg image env cdvdmanBuf turns layer fuel
              text tocLBA tocLength s).1 = .null := hwalk
          rw [hnull] at hpos
          cases hpos
        · rintro (hnone | hsmall)
          · cases hnone
          · exact absurd hsmall hsizes

end Exact

section BigDirectory

/-- A disc whose root directory at 20 has the directories `SUB`, of one sector, and
`BIG`, of 2 GiB, with one file in each. -/
def bigImage : Nat → UInt8 :=
  imageOf
    [(20, recordBytes 20 2048 2 [0] ++ recordBytes 20 2048 2 [1] ++
       recordBytes 22 2048 2 [0x53, 0x55, 0x42] ++
       recordBytes 32 2147483648 2 [0x42, 0x49, 0x47]),
     (22, recordBytes 22 2048 2 [0] ++ recordBytes 20 2048 2 [1] ++
       recordBytes 29 7 0 [0x42, 0x3b, 0x31]),
     (32, recordBytes 32 2147483648 2 [0] ++ recordBytes 20 2048 2 [1] ++
       recordBytes 30 5 0 [0x41, 0x3b, 0x31])]

def bigRoot : List DirTocEntry :=
  [⟨34, 20, 2048, 2, [0]⟩, ⟨34, 20, 2048, 2, [1]⟩,
    ⟨36, 22, 2048, 2, [0x53, 0x55, 0x42]⟩,
    ⟨36, 32, 2147483648, 2, [0x42, 0x49, 0x47]⟩]

def bigSub : List DirTocEntry :=
  [⟨34, 22, 2048, 2, [0]⟩, ⟨34, 20, 2048, 2, [1]⟩, fileB]

def bigBig : List DirTocEntry :=
  [⟨34, 32, 2147483648, 2, [0]⟩, ⟨34, 20, 2048, 2, [1]⟩, fileA]

theorem laid_bigRoot : Laid (deliveredBytes bigImage 20) 0 bigRoot := by
  rw [deliveredBytes_behind bigImage (by decide)]
  exact laid_of_bytes (fun _ hi => sectorBytes_imageOf _ 20 hi) rfl (by decide)
    (by decide)

theorem laid_bigSub : Laid (deliveredBytes bigImage 22) 0 bigSub := by
  rw [deliveredBytes_behind bigImage (by decide)]
  exact laid_of_bytes (fun _ hi => sectorBytes_imageOf _ 22 hi) rfl (by decide)
    (by decide)

theorem laid_bigBig : Laid (deliveredBytes bigImage 32) 0 bigBig := by
  rw [deliveredBytes_behind bigImage (by decide)]
  exact laid_of_bytes (fun _ hi => sectorBytes_imageOf _ 32 hi) rfl (by decide)
    (by decide)

/-- The other sectors of `BIG` are empty. -/
theorem laidAt_empty
    (n lba : Nat)
    (hlow : 32 < lba)
    (hhigh : lba + n ≤ 4294967296) :
    LaidAt bigImage lba (List.replicate n []) := by
  induction n generalizing lba with
  | zero => trivial
  | succ n ih =>
      refine ⟨?_, ?_⟩
      · rw [deliveredBytes_behind bigImage (by omega)]
        refine Laid.padding (by decide) ?_
        intro i _ hi
        have hnone : ¬ (20 = lba) ∧ ¬ (22 = lba) ∧ ¬ (32 = lba) := by
          omega
        rw [bigImage, sectorBytes_imageOf _ _ hi]
        simp [hnone]
      · cases n with
        | zero => trivial
        | succ n =>
            rw [u32_of_lt (by omega)]
            exact ih (lba + 1) (by omega) (by omega)

/-- The sectors of the directories, by where they lie. -/
def bigSectors (d : DirTocEntry) : List (List DirTocEntry) :=
  if d.fileLBA = 20 then [bigRoot]
  else if d.fileLBA = 22 then [bigSub]
  else bigBig :: List.replicate 1048575 []

def BigDir (d : DirTocEntry) : Prop :=
  (d.fileLBA = 20 ∧ d.fileSize = 2048) ∨ (d.fileLBA = 22 ∧ d.fileSize = 2048) ∨
    (d.fileLBA = 32 ∧ d.fileSize = 2147483648)

theorem bigSectors_flatten (d : DirTocEntry) :
    (bigSectors d).flatten =
      if d.fileLBA = 20 then bigRoot
      else if d.fileLBA = 22 then bigSub
      else bigBig := by
  unfold bigSectors
  split_ifs
  · rfl
  · rfl
  · rw [List.flatten_cons, List.flatten_replicate_nil, List.append_nil]

/-- The directories of the disc. -/
def bigTree : DirectoryTree bigImage (layerStart ⟨0, 0⟩ 0) where
  IsDir := BigDir
  sectors := bigSectors
  laid := by
    intro d hd
    have hstart : layerStart ⟨0, 0⟩ 0 = 0 := by decide
    rw [hstart, Nat.zero_add]
    unfold bigSectors
    rcases hd with ⟨hlba, -⟩ | ⟨hlba, -⟩ | ⟨hlba, -⟩
    · rw [hlba]
      exact ⟨laid_bigRoot, trivial⟩
    · rw [hlba]
      exact ⟨laid_bigSub, trivial⟩
    · rw [hlba]
      exact ⟨laid_bigBig, laidAt_empty _ _ (by decide) (by decide)⟩
  count := by
    intro d hd
    unfold bigSectors
    rcases hd with ⟨hlba, hsize⟩ | ⟨hlba, hsize⟩ | ⟨hlba, hsize⟩
    · rw [hlba, hsize]
      rfl
    · rw [hlba, hsize]
      rfl
    · rw [if_neg (by omega), if_neg (by omega), List.length_cons,
        List.length_replicate, hsize]
      rfl
  closed := by
    intro d _ e he
    rw [bigSectors_flatten] at he
    have hroot : ∀ e ∈ bigRoot ++ bigSub ++ bigBig, e.isDirectory = true →
        (e.fileLBA = 20 ∧ e.fileSize = 2048) ∨
          (e.fileLBA = 22 ∧ e.fileSize = 2048) ∨
            (e.fileLBA = 32 ∧ e.fileSize = 2147483648) := by
      decide
    apply hroot
    split_ifs at he
    · simp [he]
    · simp [he]
    · simp [he]

/-- The root directory. -/
def bigStart : Extent bigTree 20 2048 where
  sectors := [bigRoot]
  laid := ⟨laid_bigRoot, trivial⟩
  count := rfl
  closed := by
    intro e he
    have hroot : ∀ e ∈ [bigRoot].flatten, e.isDirectory = true →
        (e.fileLBA = 20 ∧ e.fileSize = 2048) ∨
          (e.fileLBA = 22 ∧ e.fileSize = 2048) ∨
            (e.fileLBA = 32 ∧ e.fileSize = 2147483648) := by
      decide
    exact hroot e he

/-- `"\\SUB\\B;1"` -/
def pathSubB : List UInt8 :=
  [0x5c, 0x53, 0x55, 0x42, 0x5c, 0x42, 0x3b, 0x31]

/-- `"\\BIG\\A;1"` -/
def pathBigA : List UInt8 :=
  [0x5c, 0x42, 0x49, 0x47, 0x5c, 0x41, 0x3b, 0x31]

theorem segmented_pathSubB :
    Segmented backslashChar pathSubB [[0x53, 0x55, 0x42], [0x42, 0x3b, 0x31]] where
  splits :=
    @Splits.more backslashChar 1 [0x53, 0x55, 0x42] [0x42, 0x3b, 0x31] _ (by decide)
      (by decide) (@Splits.last backslashChar 0 [0x42, 0x3b, 0x31] (by decide))
  oneKind := Or.inl ⟨rfl, by decide⟩
  fits := by decide

theorem segmented_pathBigA :
    Segmented backslashChar pathBigA [[0x42, 0x49, 0x47], [0x41, 0x3b, 0x31]] where
  splits :=
    @Splits.more backslashChar 1 [0x42, 0x49, 0x47] [0x41, 0x3b, 0x31] _ (by decide)
      (by decide) (@Splits.last backslashChar 0 [0x41, 0x3b, 0x31] (by decide))
  oneKind := Or.inl ⟨rfl, by decide⟩
  fits := by decide

/-- The file in `SUB` is found. -/
theorem cdvdmanLocatefile_exact_iff_sub :
    bigStart.search [[0x53, 0x55, 0x42], [0x42, 0x3b, 0x31]] = some fileB ∧
    LocateOf 0x10000 (bigStart.search [[0x53, 0x55, 0x42], [0x42, 0x3b, 0x31]])
      (cdvdmanLocatefile ⟨0, 0⟩ bigImage quietDrive 0x10000 61 0 9 pathSubB 20 2048
        idleSearch) :=
  ⟨by decide,
    (cdvdmanLocatefile_exact_iff bigStart readsSucceed_quietDrive (by decide)
      (by decide) segmented_pathSubB (by decide) idleSearch).mpr
        (Or.inr (by decide))⟩

/-- The file in `BIG` is there, and the walk answers that it is not. -/
theorem cdvdmanLocatefile_misses_big :
    bigStart.search [[0x42, 0x49, 0x47], [0x41, 0x3b, 0x31]] = some fileA ∧
    (cdvdmanLocatefile ⟨0, 0⟩ bigImage quietDrive 0x10000 61 0 9 pathBigA 20 2048
      idleSearch).1 = .null := by
  refine ⟨by decide, ?_⟩
  have hwalk :=
    @cdvdmanLocatefile_resolves ⟨0, 0⟩ bigImage quietDrive 0x10000 0 bigTree
      readsSucceed_quietDrive (by decide) 61 (by decide) backslashChar pathBigA
      [[0x42, 0x49, 0x47], [0x41, 0x3b, 0x31]] segmented_pathBigA.splits
      segmented_pathBigA.oneKind 9 (by decide) bigStart.sectors 20 2048
      bigStart.laid bigStart.count bigStart.closed idleSearch
  rw [bigStart.search_seen, if_neg (by decide)] at hwalk
  exact hwalk

end BigDirectory

end Iso
end Ps2Cdvd
