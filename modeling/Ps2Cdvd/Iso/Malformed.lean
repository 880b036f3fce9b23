import Ps2Cdvd.Iso.PathBuffers

/-!
# Malformed discs

`cdvdman_dirname[32]` and `cdvdman_curdir[15]` are local arrays of `cdvdman_locatefile`: a
segment or a name that is too long for them runs over the other variables and the return
address, and nothing can be said of what the function does then.  It returns when it stays
inside the two arrays and its record loops end.

* `judges_frame`: what the arrays ask of the segments and of the records;
* `recordLoops_end_iff`: exactly when the walk and the record loop of `cdrom_dread` end.
-/

namespace Ps2Cdvd
namespace Iso

open Lib Read StateTransition

section Purpose

/-- An access to one of the two arrays stays inside. -/
def InFrame (a : Access PathBuffer) : Prop :=
  a.buffer = .dirname ∨ a.buffer = .curdir → a.Inside (PathBuffer.size [])

variable
  (cfg : Settings)
  (image : Nat → UInt8)
  (env : Nat → Option (Nat → DeviceTurn))
  (cdvdmanBuf : Nat)
  (layer : Int)

/-- `cdvdman_locatefile` never writes behind its local arrays, however often its record
loops turn. -/
def FrameIntact
    (p : List UInt8) (tocLBA : Nat) (tocLength : Int) (s : SearchState) : Prop :=
  ∀ turns, ∀ a ∈ locateAccesses cfg image env cdvdmanBuf p.length turns layer
    (p.length + 1) p tocLBA tocLength s, InFrame a

/-- It ends, with its frame intact. -/
def LocateReturns
    (p : List UInt8) (tocLBA : Nat) (tocLength : Int) (s : SearchState) : Prop :=
  LocateEnds cfg image env cdvdmanBuf layer p tocLBA tocLength s ∧
    FrameIntact cfg image env cdvdmanBuf layer p tocLBA tocLength s

end Purpose

section Frame

variable {cdvdmanBuf : Nat}

theorem inFrame_of_inside
    {a : Access PathBuffer}
    (h : a.Inside (PathBuffer.size [])) :
    InFrame a :=
  fun _ => h

/-- The arrays hold the segments of fewer than 32 characters, and the names of at most
14. -/
theorem judges_frame (cdvdmanBuf full : Nat) :
    Judges cdvdmanBuf full InFrame (NameFits cdvdmanBuf) where
  segment := by
    intro first p _
    unfold segmentAccesses skipSlashes
    dsimp only
    generalize p.dropWhile (· == slashChar) = q
    generalize q.dropWhile (· == backslashChar) = r
    have hpath : ∀ (i : Int) (n : Nat), InFrame ⟨.filepath, i, n⟩ := by
      intro i n h
      simp at h
    have hscan : ∀ at_ c, InFrame (strchrAccess at_ r c) := fun _ _ => hpath _ _
    have hfront : ∀ atQ atR : Nat,
        ∀ a ∈ [⟨.filepath, first, p.length - q.length + 1⟩,
              ⟨.filepath, atQ, q.length - r.length + 1⟩, strchrAccess atR r slashChar] ++
            (if slashChar ∈ r then [] else [strchrAccess atR r backslashChar]), InFrame a := by
      intro atQ atR
      split_ifs
      · simp [hpath, hscan]
      · simp [hpath, hscan]
    rw [List.forall_mem_append, and_iff_right (hfront _ _)]
    rcases hcut : cutSegment r with ⟨dirname, slash⟩
    cases slash with
    | some rest =>
        simp only [strncpyAccesses, List.cons_append, List.nil_append, List.forall_mem_cons,
          List.not_mem_nil, InFrame, Access.Inside, PathBuffer.size, reduceCtorEq, or_false,
          forall_const, IsEmpty.forall_iff, implies_true, and_true, true_and]
        omega
    | none =>
        obtain rfl := cutSegment_none hcut
        simp [strcpyAccesses, InFrame, Access.Inside, PathBuffer.size]
  record := by
    intro m last dirname pos hdirname _ hfits
    refine recordAccesses_ok (fun _ => inFrame_of_inside) ?_ hdirname hfits
    intro i n _ h
    simp at h
  fits := by
    intro m last dirname pos h
    refine nameFits_of_ok ?_ h
    intro n hn
    have hend := hn (Or.inr rfl)
    simp only [Access.Inside, PathBuffer.size] at hend
    omega

end Frame

section Results

variable
  {cfg : Settings}
  {image : Nat → UInt8}
  {env : Nat → Option (Nat → DeviceTurn)}
  {cdvdmanBuf : Nat}
  {layer : Int}

/-- The frame stays intact exactly when the segments and the names fit. -/
theorem frameIntact_iff
    (p : List UInt8) (tocLBA : Nat) (tocLength : Int) (s : SearchState) :
    FrameIntact cfg image env cdvdmanBuf layer p tocLBA tocLength s ↔
      SearchFits cfg image env cdvdmanBuf (NameFits cdvdmanBuf) layer
        (startLocate p tocLBA tocLength) s :=
  locateAccesses_ok_iff (judges_frame cdvdmanBuf p.length)

/-- **Exactly when the record loops end.**  For every path, extent, disc and memory:
`cdvdman_locatefile` returns if and only if the segments and the names that it comes to fit
its local arrays, and in no sector the records lead back to one that is stepped over; and
the record loop of `cdrom_dread` ends if and only if the records of one character from the
position of the file on do not lead back to one of them. -/
theorem recordLoops_end_iff
    (cfg : Settings) (image : Nat → UInt8) (env : Nat → Option (Nat → DeviceTurn))
    (cdvdmanBuf : Nat) (layer : Int)
    (p : List UInt8) (tocLBA : Nat) (tocLength : Int) (s : SearchState)
    (fsBuf : Nat) (m : Nat → UInt8) (position : Nat) :
    (LocateReturns cfg image env cdvdmanBuf layer p tocLBA tocLength s ↔
      NoCircles cfg image env cdvdmanBuf layer (startLocate p tocLBA tocLength) s ∧
        SearchFits cfg image env cdvdmanBuf (NameFits cdvdmanBuf) layer
          (startLocate p tocLBA tocLength) s) ∧
    ((∃ fuel, (Files.dreadLoop fsBuf m fuel position).isSome) ↔
      ¬ Circles (stepShort fsBuf m) position) :=
  ⟨and_congr (locateEnds_iff p tocLBA tocLength s) (frameIntact_iff p tocLBA tocLength s),
    dreadLoop_ends_iff position⟩

/-- A sector that is scanned to its end does not circle. -/
theorem ScansTo.not_circles
    {c : Cursor} {m : Nat → UInt8} {out : Scan}
    (h : ScansTo cdvdmanBuf m c out) :
    ¬ Circles (stepOver cdvdmanBuf m c.slash.isNone c.dirname) 0 := by
  obtain ⟨hout, turns, rfl⟩ := h
  exact scanRecords_ends_iff.mp ⟨turns, hout⟩

/-- The walk does not come past a sector that circles. -/
theorem Comes.stays
    {c c' : Cursor} {s t : SearchState} {m : Nat → UInt8}
    (h : Comes cfg image env cdvdmanBuf layer c s c' m)
    (hread : sceCdRead cfg image env cdvdmanBuf c.tocLBA s = (true, t))
    (hcircles : Circles (stepOver cdvdmanBuf t.drive.mem c.slash.isNone c.dirname) 0) :
    c' = c ∧ m = t.drive.mem := by
  cases h with
  | here _ hsame =>
      obtain ⟨-, rfl⟩ := Prod.mk.inj (hread.symm.trans hsame)
      exact ⟨rfl, rfl⟩
  | next _ hsame hscan =>
      obtain ⟨-, rfl⟩ := Prod.mk.inj (hread.symm.trans hsame)
      exact absurd hcircles hscan.not_circles
  | enter _ hsame hscan =>
      obtain ⟨-, rfl⟩ := Prod.mk.inj (hread.symm.trans hsame)
      exact absurd hcircles hscan.not_circles

/-- A disc whose sector 20 begins with a record that has an empty name. -/
def blankImage : Nat → UInt8 :=
  imageOf [(20, recordBytes 30 5 0 [])]

/-- The memory with a sector at 0xA000 whose second record has the length -34. -/
def backMem : Nat → UInt8 :=
  writeRange (fun _ => 0) 0xA000 2048
    (fun i =>
      (recordBytes 20 2048 2 [0] ++
        ([0xde, 0xff] ++ List.replicate 30 0 ++ [1, 1])).getD i 0)

/-- The search for `"\\A;1"` in the sector 20 of the first disc comes to an empty name, and
stays there. -/
theorem blankImage_stays :
    ∃ t, sceCdRead ⟨0, 0⟩ blankImage quietDrive 0x10000 20 idleSearch = (true, t) ∧
      (tocEntry 0x10000 t.drive.mem 0).filenameLength = 0 ∧
      stepOver 0x10000 t.drive.mem (startLocate pathA 20 2048).slash.isNone
        (startLocate pathA 20 2048).dirname 0 = some 0 := by
  obtain ⟨t, hread, hholds⟩ :=
    @sceCdRead_holds ⟨0, 0⟩ blankImage quietDrive 0x10000 readsSucceed_quietDrive 20
      idleSearch
  rw [deliveredBytes_behind blankImage (by decide)] at hholds
  obtain ⟨hlength, hname⟩ :=
    @Holds.tocEntry_lengths 0x10000 t.drive.mem _ hholds (by decide) 0 (by decide)
  rw [Nat.cast_zero] at hlength hname
  have hlong : s16 (le16 (fun i => sectorBytes blankImage 20 (0 + i)) 0) = 33 := by
    decide
  have hempty : (sectorBytes blankImage 20 (0 + 32)).toNat = 0 := by
    decide
  rw [hlong] at hlength
  rw [hempty] at hname
  exact ⟨t, hread, hname, by simp [stepOver, hlength, hname]⟩

/-- That search leaves its frame intact, but does not end; and neither does the record loop
of `cdrom_dread` in the second sector. -/
theorem recordLoops_circle :
    (FrameIntact ⟨0, 0⟩ blankImage quietDrive 0x10000 0 pathA 20 2048 idleSearch ∧
      ¬ LocateEnds ⟨0, 0⟩ blankImage quietDrive 0x10000 0 pathA 20 2048 idleSearch) ∧
    ¬ ∃ fuel, (Files.dreadLoop 0xA000 backMem fuel 0).isSome := by
  refine ⟨⟨?_, ?_⟩, ?_⟩
  · obtain ⟨t, hread, hname, hstays⟩ := blankImage_stays
    have hcircles :
        Circles (stepOver 0x10000 t.drive.mem (startLocate pathA 20 2048).slash.isNone
          (startLocate pathA 20 2048).dirname) 0 :=
      ⟨0, Relation.ReflTransGen.refl, Relation.TransGen.single hstays⟩
    have honly :
        ∀ {c' : Cursor} {m : Nat → UInt8},
          Comes ⟨0, 0⟩ blankImage quietDrive 0x10000 0 (startLocate pathA 20 2048) idleSearch
            c' m →
          c' = startLocate pathA 20 2048 ∧ m = t.drive.mem :=
      fun hcomes => hcomes.stays hread hcircles
    rw [frameIntact_iff]
    refine ⟨by decide, ?_, ?_⟩
    · intro c' m pos rest hcomes hscan _
      obtain ⟨rfl, rfl⟩ := honly hcomes
      exact absurd hcircles hscan.not_circles
    · intro c' m hcomes pos hpos
      obtain ⟨rfl, rfl⟩ := honly hcomes
      obtain rfl : pos = 0 := by
        induction hpos with
        | refl => rfl
        | tail _ hstep ih =>
            subst ih
            exact Option.some.inj (hstep.symm.trans hstays)
      intro _
      rw [hname]
      decide
  · rw [locateEnds_iff]
    intro hcircles
    obtain ⟨t, hread, -, hstays⟩ := blankImage_stays
    exact hcircles _ _ (Comes.here (by decide) hread)
      ⟨0, Relation.ReflTransGen.refl, Relation.TransGen.single hstays⟩
  · rw [dreadLoop_ends_iff, not_not]
    have hthere : stepShort 0xA000 backMem 0 = some 34 := by decide
    have hback : stepShort 0xA000 backMem 34 = some 0 := by decide
    exact ⟨0, Relation.ReflTransGen.refl,
      Relation.TransGen.head hthere (Relation.TransGen.single hback)⟩

end Results

end Iso
end Ps2Cdvd
