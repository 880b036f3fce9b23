import Ps2Cdvd.Iso.Endless

/-!
# The name in `cd_file_t`

`cdvdman_locatefile` goes along the segments of a trimmed copy of the path, and takes
slashes as well as backslashes for separators.  `cdvdman_findfile` then cuts
`pcdfile->name` out of the path itself, behind its last backslash.

* `locatedFor_agrees`: the record that is found agrees with the last segment;
* `cdvdmanFindfile_names_iff`: exactly when `pcdfile->name` is the last segment.
-/

namespace Ps2Cdvd
namespace Iso

open Lib Read

section Purpose

/-- The separators of a path. -/
def isSeparator (c : UInt8) : Bool := c == slashChar || c == backslashChar

/-- The segments of a path; in front of a leading separator there is an empty one. -/
def segments (path : List UInt8) : List (List UInt8) := path.splitOnP isSeparator

def lastSegment (path : List UInt8) : List UInt8 := (segments path).getLastD []

def lastSeparator (path : List UInt8) : Option UInt8 := path.reverse.find? isSeparator

/-- At most 12 name characters, and `";1"`. -/
def NameSegment (seg : List UInt8) : Prop :=
  ∃ base suffix, seg = base ++ suffix ∧ base.length ≤ 12 ∧
    (suffix = [] ∨ suffix = [0x3b, 0x31])

/-- What `cdvdman_locatefile` returns to `cdvdman_findfile`; without a root it is not
called. -/
def locatedFor
    (cfg : Settings) (image : Nat → UInt8) (env : Nat → Option (Nat → DeviceTurn))
    (cdvdmanBuf turns : Nat) (name : List UInt8) (layer : Int) (s : FsState) :
    Located × SearchState :=
  let s := cdvdmanInit cfg image env cdvdmanBuf s
  let layer := if cfg.has iopcoreCompatEmuDvddl then 0 else layer
  let info := if layer ≠ 0 then s.layerInfo1 else s.layerInfo0
  let filepath := cdvdmanTrimspaces (name.take 255)
  if info.rootDirtocLBA = 0 then (.null, s.search)
  else
    cdvdmanLocatefile cfg image env cdvdmanBuf turns layer (filepath.length + 1) filepath
      info.rootDirtocLBA (s32 info.rootDirtocLength) s.search

/-- A lookup returns 1 with the last segment of the path in `pcdfile->name[16]`; the
name is not copied from the result of a failed `strrchr`. -/
def NamesLast (answer : Option (Int × CdFile)) (path : List UInt8) : Prop :=
  ∃ file, answer = some (1, file) ∧ file.name = some (lastSegment path) ∧
    (lastSegment path).length < 16

end Purpose

section Paths

variable {front path : List UInt8} {c : UInt8}

/-- A text without separators, or one that is cut at its last separator. -/
theorem cut_last (sep : UInt8 → Bool) (path : List UInt8) :
    (∀ x ∈ path, sep x = false) ∨
      ∃ front c last, path = front ++ c :: last ∧ sep c = true ∧
        ∀ x ∈ last, sep x = false := by
  induction path with
  | nil =>
      left
      intro x hx
      cases hx
  | cons x path ih =>
      rcases ih with hnone | ⟨front, c, last, rfl, hc, hlast⟩
      · cases hx : sep x with
        | true => exact Or.inr ⟨[], x, path, rfl, hx, hnone⟩
        | false =>
            left
            intro y hy
            rcases List.mem_cons.mp hy with rfl | hmem
            · exact hx
            · exact hnone y hmem
      · exact Or.inr ⟨x :: front, c, last, rfl, hc, hlast⟩

theorem lastSegment_of_none
    (h : ∀ x ∈ path, isSeparator x = false) :
    lastSegment path = path := by
  rw [lastSegment, segments, List.splitOnP_eq_singleton h]
  rfl

/-- Only what is behind a separator counts for the last segment. -/
theorem lastSegment_behind
    (hc : isSeparator c = true)
    (front path : List UInt8) :
    lastSegment (front ++ c :: path) = lastSegment path := by
  rw [lastSegment, lastSegment, segments, segments, List.splitOnP_append_cons _ _ hc,
    List.getLastD_eq_getLast?, List.getLastD_eq_getLast?,
    List.getLast?_append_of_ne_nil _ (List.splitOnP_ne_nil _ _)]

theorem lastSegment_skipSlashes (p : List UInt8) :
    lastSegment (skipSlashes p) = lastSegment p := by
  have hdrop :
      ∀ (sep : UInt8) (hsep : isSeparator sep = true) (p : List UInt8),
        lastSegment (p.dropWhile (· == sep)) = lastSegment p := by
    intro sep hsep p
    induction p with
    | nil => rfl
    | cons x p ih =>
        by_cases hx : x = sep
        · subst hx
          rw [List.dropWhile_cons_of_pos (by simp), ih]
          exact (lastSegment_behind hsep [] p).symm
        · rw [List.dropWhile_cons_of_neg (by simp [hx])]
  unfold skipSlashes
  rw [hdrop backslashChar (by decide), hdrop slashChar (by decide)]

theorem strchr_some
    {p dirname rest : List UInt8}
    (h : strchr p c = some (dirname, rest)) :
    p = dirname ++ c :: rest := by
  unfold strchr at h
  split_ifs at h with hmem
  obtain ⟨rfl, rfl⟩ := Prod.mk.inj (Option.some.inj h)
  have hcut := (List.takeWhile_append_dropWhile (p := (· != c)) (l := p)).symm
  cases hdrop : p.dropWhile (· != c) with
  | nil =>
      have hall := List.dropWhile_eq_nil_iff.mp hdrop c hmem
      simp at hall
  | cons x rest =>
      have hx : x = c := by
        by_contra hne
        have hhead := List.head?_dropWhile_not (· != c) p
        rw [hdrop] at hhead
        simp [hne] at hhead
      rw [hdrop, hx] at hcut
      exact hcut

/-- A turn of the walk keeps the last segment of what is left of the path, and without a
slash the whole of it is compared. -/
theorem lastSegment_cutSegment (p : List UInt8) :
    lastSegment p =
      match (cutSegment p).2 with
      | some rest => lastSegment rest
      | none => (cutSegment p).1 := by
  unfold cutSegment
  cases hslash : strchr p slashChar with
  | some cut =>
      rw [strchr_some hslash]
      exact lastSegment_behind (by decide) _ _
  | none =>
      cases hback : strchr p backslashChar with
      | some cut =>
          rw [strchr_some hback]
          exact lastSegment_behind (by decide) _ _
      | none =>
          have hnone : ∀ sep, strchr p sep = none → sep ∉ p := by
            intro sep h hmem
            simp [strchr, hmem] at h
          apply lastSegment_of_none
          intro x hx
          cases hsep : isSeparator x with
          | false => rfl
          | true =>
              rcases Bool.or_eq_true _ _ ▸ hsep with h | h
              · exact absurd hx (eq_of_beq h ▸ hnone slashChar hslash)
              · exact absurd hx (eq_of_beq h ▸ hnone backslashChar hback)

/-- `strrchr` finds the last backslash. -/
theorem lastComponent_behind
    {last : List UInt8}
    (h : backslashChar ∉ last)
    (front : List UInt8) :
    lastComponent (front ++ backslashChar :: last) = some last := by
  have hmem : backslashChar ∈ front ++ backslashChar :: last := by simp
  have hstop :
      (last.reverse ++ backslashChar :: front.reverse).takeWhile (· != backslashChar) =
        last.reverse := by
    rw [List.takeWhile_append_of_pos]
    · simp
    · intro x hx
      have hne : x ≠ backslashChar := by
        rintro rfl
        exact h (List.mem_reverse.mp hx)
      simp [hne]
  rw [lastComponent, if_pos hmem, List.reverse_append, List.reverse_cons, List.append_assoc,
    List.singleton_append, hstop, List.reverse_reverse]

theorem notMem_slash
    {mid last : List UInt8}
    (hmid : ∀ x ∈ mid, (x == backslashChar) = false)
    (hlast : backslashChar ∉ last) :
    backslashChar ∉ mid ++ slashChar :: last := by
  intro hmem
  rcases List.mem_append.mp hmem with hin | hin
  · have hno := hmid _ hin
    simp at hno
  · rcases List.mem_cons.mp hin with heq | hin
    · exact absurd heq (by decide)
    · exact hlast hin

theorem lastSeparator_behind
    {last : List UInt8}
    (hc : isSeparator c = true)
    (h : ∀ x ∈ last, isSeparator x = false)
    (front : List UInt8) :
    lastSeparator (front ++ c :: last) = some c := by
  have hnone : last.reverse.find? isSeparator = none := by
    rw [List.find?_eq_none]
    intro x hx
    simp [h x (List.mem_reverse.mp hx)]
  rw [lastSeparator, List.reverse_append, List.reverse_cons, List.append_assoc,
    List.singleton_append, List.find?_append, hnone, Option.none_or,
    List.find?_cons_of_pos hc]

/-- What is cut out of the path is its last segment exactly when its last separator is a
backslash. -/
theorem lastComponent_eq_lastSegment_iff (path : List UInt8) :
    lastComponent path = some (lastSegment path) ↔
      lastSeparator path = some backslashChar := by
  rcases cut_last isSeparator path with hnone | ⟨front, c, last, rfl, hc, hlast⟩
  · have hmem : backslashChar ∉ path := by
      intro hmem
      have hsep := hnone _ hmem
      exact absurd hsep (by decide)
    have hfind : lastSeparator path = none := by
      rw [lastSeparator, List.find?_eq_none]
      intro x hx
      simp [hnone x (List.mem_reverse.mp hx)]
    rw [lastComponent, if_neg hmem, hfind]
    simp
  · rw [lastSeparator_behind hc hlast, lastSegment_behind hc, lastSegment_of_none hlast]
    have hback : backslashChar ∉ last := by
      intro hmem
      have hsep := hlast _ hmem
      exact absurd hsep (by decide)
    rcases Bool.or_eq_true _ _ ▸ hc with h | h
    · -- the last separator is a slash, which is left in what is cut out
      obtain rfl := eq_of_beq h
      constructor
      · intro hcut
        exfalso
        rcases cut_last (· == backslashChar) front with hfront | ⟨front, c, mid, rfl, hc, hmid⟩
        · rw [lastComponent, if_neg (notMem_slash hfront hback)] at hcut
          cases hcut
        · obtain rfl := eq_of_beq hc
          rw [List.append_assoc, List.cons_append,
            lastComponent_behind (notMem_slash hmid hback)] at hcut
          have hlength := congrArg List.length (Option.some.inj hcut)
          rw [List.length_append, List.length_cons] at hlength
          omega
      · intro heq
        exact absurd heq (by decide)
    · obtain rfl := eq_of_beq h
      rw [lastComponent_behind hback]
      simp

end Paths

section Walk

variable
  {cfg : Settings}
  {image : Nat → UInt8}
  {env : Nat → Option (Nat → DeviceTurn)}
  {cdvdmanBuf turns : Nat}
  {layer : Int}

/-- The record loop stops at a record of the name that is searched. -/
theorem scanRecords_found
    {m : Nat → UInt8} {last : Bool} {dirname : List UInt8} {start pos : Int}
    (h : scanRecords cdvdmanBuf m last dirname turns start = .found pos) :
    agrees dirname (tocEntry cdvdmanBuf m pos) = true ∧ last = true := by
  induction turns generalizing start with
  | zero => cases h
  | succ turns ih =>
      rw [scanRecords_succ] at h
      cases hstep : stepOver cdvdmanBuf m last dirname start with
      | some next =>
          rw [hstep] at h
          exact ih h
      | none =>
          simp only [hstep, stopAt] at h
          split_ifs at h with hzero hfound henter
          cases h
          exact Bool.and_eq_true_iff.mp hfound

theorem walkSectors_found
    {last : Bool} {dirname : List UInt8} {fuel tocLBA : Nat} {tocLength pos : Int}
    {s t : SearchState}
    (h : walkSectors cfg image env cdvdmanBuf turns last dirname fuel tocLBA tocLength s =
      (.found pos, t)) :
    agrees dirname (tocEntry cdvdmanBuf t.drive.mem pos) = true ∧ last = true := by
  induction fuel generalizing tocLBA tocLength s with
  | zero => cases h
  | succ fuel ih =>
      rw [walkSectors] at h
      split_ifs at h with hmore
      · cases hread : sceCdRead cfg image env cdvdmanBuf tocLBA s with
        | mk accepted u =>
            rw [hread] at h
            cases accepted with
            | false => cases h
            | true =>
                simp only at h
                cases hscan : scanRecords cdvdmanBuf u.drive.mem last dirname turns 0 with
                | found at_ =>
                    rw [hscan] at h
                    cases h
                    exact scanRecords_found hscan
                | enter at_ =>
                    rw [hscan] at h
                    cases h
                | loops =>
                    rw [hscan] at h
                    cases h
                | next =>
                    rw [hscan] at h
                    exact ih h
      · cases h

/-- The record that the walk resolves a path to agrees with its last segment. -/
theorem cdvdmanLocatefile_last
    {fuel : Nat} {p : List UInt8} {tocLBA : Nat} {tocLength pos : Int}
    {s t : SearchState}
    (h : cdvdmanLocatefile cfg image env cdvdmanBuf turns layer fuel p tocLBA tocLength s =
      (.found pos, t)) :
    agrees (lastSegment p) (tocEntry cdvdmanBuf t.drive.mem pos) = true := by
  induction fuel generalizing p tocLBA tocLength s with
  | zero => cases h
  | succ fuel ih =>
      have hkept := lastSegment_cutSegment (skipSlashes p)
      rw [lastSegment_skipSlashes] at hkept
      rw [cdvdmanLocatefile] at h
      cases hcut : cutSegment (skipSlashes p) with
      | mk dirname slash =>
          rw [hcut] at h hkept
          simp only at h
          cases hwalk : walkSectors cfg image env cdvdmanBuf turns slash.isNone dirname
              (sectorsOf tocLength) tocLBA tocLength s with
          | mk result u =>
              rw [hwalk] at h
              cases result with
              | found at_ =>
                  cases h
                  obtain ⟨hagrees, hlast⟩ := walkSectors_found hwalk
                  obtain rfl := Option.isNone_iff_eq_none.mp hlast
                  rw [hkept]
                  exact hagrees
              | null => cases h
              | loops => cases h
              | enter at_ =>
                  cases slash with
                  | none => cases h
                  | some rest =>
                      rw [hkept]
                      exact ih h

end Walk

section Results

variable
  {cfg : Settings}
  {image : Nat → UInt8}
  {env : Nat → Option (Nat → DeviceTurn)}
  {cdvdmanBuf turns : Nat}
  {name : List UInt8}
  {layer pos : Int}
  {s : FsState}
  {t : SearchState}

/-- What is made of a record that the walk resolves the path to. -/
theorem cdvdmanFindfile_found
    (h : locatedFor cfg image env cdvdmanBuf turns name layer s = (.found pos, t))
    (before : List UInt8) (pcdfile : CdFile) :
    ∃ file,
      (cdvdmanFindfile cfg image env cdvdmanBuf turns before pcdfile name layer s).1 =
          some (1, file) ∧
        file.name = lastComponent name := by
  dsimp only [locatedFor] at h
  dsimp only [cdvdmanFindfile]
  generalize cdvdmanInit cfg image env cdvdmanBuf s = s at h ⊢
  generalize (if cfg.has iopcoreCompatEmuDvddl = true then 0 else layer) = layer at h ⊢
  by_cases hroot :
    (if layer ≠ 0 then s.layerInfo1 else s.layerInfo0).rootDirtocLBA = 0
  · rw [if_pos hroot] at h
    cases h
  · rw [if_neg hroot] at h ⊢
    rw [h]
    exact ⟨_, rfl, rfl⟩

/-- The record that `cdvdman_findfile` takes agrees with the last segment of the trimmed
path. -/
theorem locatedFor_agrees
    (h : locatedFor cfg image env cdvdmanBuf turns name layer s = (.found pos, t)) :
    agrees (lastSegment (cdvdmanTrimspaces (name.take 255)))
      (tocEntry cdvdmanBuf t.drive.mem pos) = true := by
  dsimp only [locatedFor] at h
  generalize cdvdmanInit cfg image env cdvdmanBuf s = s at h
  generalize (if cfg.has iopcoreCompatEmuDvddl = true then 0 else layer) = layer at h
  by_cases hroot :
    (if layer ≠ 0 then s.layerInfo1 else s.layerInfo0).rootDirtocLBA = 0
  · rw [if_pos hroot] at h
    cases h
  · rw [if_neg hroot] at h
    exact cdvdmanLocatefile_last h

theorem NameSegment.length_le
    {seg : List UInt8}
    (h : NameSegment seg) :
    seg.length ≤ 14 := by
  obtain ⟨base, suffix, rfl, hbase, rfl | rfl⟩ := h
  · rw [List.append_nil]
    omega
  · rw [List.length_append]
    exact Nat.add_le_add_right hbase 2

theorem lastSegment_mem (path : List UInt8) : lastSegment path ∈ segments path := by
  have hne : segments path ≠ [] := List.splitOnP_ne_nil _ _
  rw [lastSegment, List.getLastD_eq_getLast?, List.getLast?_eq_some_getLast hne]
  exact List.getLast_mem hne

/-- A path that is resolved yields its last segment exactly when the last of its
separators is a backslash. -/
theorem cdvdmanFindfile_names_iff
    (hsegs : ∀ seg ∈ segments name, NameSegment seg)
    (hfound : locatedFor cfg image env cdvdmanBuf turns name layer s = (.found pos, t))
    (before : List UInt8) (pcdfile : CdFile) :
    NamesLast
        (cdvdmanFindfile cfg image env cdvdmanBuf turns before pcdfile name layer s).1
        name ↔
      lastSeparator name = some backslashChar := by
  obtain ⟨file, hanswer, hname⟩ := cdvdmanFindfile_found hfound before pcdfile
  rw [← lastComponent_eq_lastSegment_iff]
  constructor
  · rintro ⟨other, hother, hlast, -⟩
    rw [hanswer] at hother
    obtain ⟨-, rfl⟩ := Prod.mk.inj (Option.some.inj hother)
    rw [← hname]
    exact hlast
  · intro hlast
    have hshort := (hsegs _ (lastSegment_mem name)).length_le
    exact ⟨file, hanswer, hname.trans hlast, by omega⟩

/-- `DATA` and `PZS3EU1.AFS;1` in it. -/
def dataRecord : DirTocEntry := ⟨38, 21, 2048, 2, [0x44, 0x41, 0x54, 0x41]⟩

def afsRecord : DirTocEntry :=
  ⟨48, 22, 5, 0,
    [0x50, 0x5a, 0x53, 0x33, 0x45, 0x55, 0x31, 0x2e, 0x41, 0x46, 0x53, 0x3b, 0x31]⟩

/-- A disc with these two records. -/
def dataImage : Nat → UInt8 :=
  imageOf
    [(16, List.replicate 156 0 ++ recordBytes 20 2048 2 [0]),
      (20, recordsBytes [dataRecord]), (21, recordsBytes [afsRecord])]

/-- The path of the file, with a separator. -/
def afsPath (sep : UInt8) : List UInt8 := dataRecord.filename ++ sep :: afsRecord.filename

theorem afsPath_segments
    {sep : UInt8}
    (hsep : isSeparator sep = true) :
    ∀ seg ∈ segments (afsPath sep), NameSegment seg := by
  have hsegs : segments (afsPath sep) = [dataRecord.filename, afsRecord.filename] := by
    rw [segments, afsPath, List.splitOnP_append_cons _ _ hsep]
    decide
  rw [hsegs]
  intro seg hseg
  rcases List.mem_cons.mp hseg with rfl | hseg
  · exact ⟨dataRecord.filename, [], rfl, by decide, Or.inl rfl⟩
  · obtain rfl := List.mem_singleton.mp hseg
    exact ⟨afsRecord.filename.take 11, [0x3b, 0x31], rfl, by decide, Or.inr rfl⟩

/-- `"DATA\PZS3EU1.AFS;1"` -/
theorem cdvdmanFindfile_names_iff_backslash :
    NamesLast
        (cdvdmanFindfile ⟨0, 0⟩ dataImage quietDrive 0x10000 61 [] ⟨0, 0, none⟩
          (afsPath backslashChar) 0 (boot idleSearch)).1
        (afsPath backslashChar) ↔
      lastSeparator (afsPath backslashChar) = some backslashChar := by
  have hfound :
      (locatedFor ⟨0, 0⟩ dataImage quietDrive 0x10000 61 (afsPath backslashChar) 0
        (boot idleSearch)).1 = .found 0 := by
    decide +kernel
  exact
    cdvdmanFindfile_names_iff (afsPath_segments (by decide)) (Prod.ext hfound rfl) []
      ⟨0, 0, none⟩

/-- `"DATA/PZS3EU1.AFS;1"`, as `cdrom_open` makes it of the path of the test program: it
is resolved, and the name is copied from the result of a failed `strrchr`. -/
theorem cdvdmanFindfile_loses_name :
    (cdvdmanFindfile ⟨0, 0⟩ dataImage quietDrive 0x10000 61 [] ⟨0, 0, none⟩
        (afsPath slashChar) 0 (boot idleSearch)).1 = some (1, ⟨22, 5, none⟩) ∧
      ¬ ∀ (cfg : Settings) (image : Nat → UInt8)
          (env : Nat → Option (Nat → DeviceTurn)) (cdvdmanBuf turns : Nat)
          (name : List UInt8) (layer pos : Int) (s : FsState) (t : SearchState)
          (_ : ∀ seg ∈ segments name, NameSegment seg)
          (_ : locatedFor cfg image env cdvdmanBuf turns name layer s = (.found pos, t))
          (before : List UInt8) (pcdfile : CdFile),
          NamesLast
            (cdvdmanFindfile cfg image env cdvdmanBuf turns before pcdfile name layer s).1
            name := by
  have hanswer :
      (cdvdmanFindfile ⟨0, 0⟩ dataImage quietDrive 0x10000 61 [] ⟨0, 0, none⟩
        (afsPath slashChar) 0 (boot idleSearch)).1 = some (1, ⟨22, 5, none⟩) := by
    decide +kernel
  have hfound :
      (locatedFor ⟨0, 0⟩ dataImage quietDrive 0x10000 61 (afsPath slashChar) 0
        (boot idleSearch)).1 = .found 0 := by
    decide +kernel
  refine ⟨hanswer, ?_⟩
  intro hall
  obtain ⟨file, hfile, hname, -⟩ :=
    hall ⟨0, 0⟩ dataImage quietDrive 0x10000 61 (afsPath slashChar) 0 0 (boot idleSearch) _
      (afsPath_segments (by decide)) (Prod.ext hfound rfl) [] ⟨0, 0, none⟩
  rw [hanswer] at hfile
  obtain ⟨-, rfl⟩ := Prod.mk.inj (Option.some.inj hfile)
  cases hname

end Results

end Iso
end Ps2Cdvd
