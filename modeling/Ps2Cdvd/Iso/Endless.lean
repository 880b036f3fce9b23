import Ps2Cdvd.Files.Table
import Ps2Cdvd.Lib.Loop

/-!
# Record loops that do not end

The record loops of `cdvdman_locatefile` and of `cdrom_dread` go from record to record by
the signed length that each record gives for itself, and the first one stays where it is
at a record with an empty name.  So on a malformed disc they can come back to a record
that they have stepped over, and then they never end.

`stepOver` and `stepShort` say where the loops go on behind a record.  `Comes` says which
sectors a walk comes to.

* `scanRecords_ends_iff`, `dreadLoop_ends_iff`: a record loop ends if and only if it does
  not circle;
* `locateAt_sector`: what the walk does with one sector;
* `locateEnds_iff`: exactly when the walk ends.
-/

namespace Ps2Cdvd
namespace Iso

open Lib Read StateTransition

section Purpose

/-- Where the record loop of `cdvdman_locatefile` goes on behind the record at `tocPos`:
nowhere, if the record has the length 0, or is wanted, or is the last one that may
begin in the sector; at the same record, if its name is empty; and behind it
otherwise. -/
def stepOver
    (cdvdmanBuf : Nat) (m : Nat → UInt8) (last : Bool) (dirname : List UInt8)
    (tocPos : Int) : Option Int :=
  let e := tocEntry cdvdmanBuf m tocPos
  if e.length = 0 then none
  else if e.filenameLength = 0 then
    if tocPos < 2016 then some tocPos else none
  else if agrees dirname e && (last || e.isDirectory) then none
  else if nextPos tocPos e < 2016 then some (nextPos tocPos e)
  else none

/-- Where the record loop of `cdrom_dread` goes on behind the record at `position`: behind
it, if its name has one character and its length is not 0. -/
def stepShort (fsBuf : Nat) (m : Nat → UInt8) (position : Nat) : Option Nat :=
  let e := tocEntry fsBuf m position
  if e.length ≠ 0 ∧ e.filenameLength = 1 then some (u32OfInt (position + e.length))
  else none

variable
  (cfg : Settings)
  (image : Nat → UInt8)
  (env : Nat → Option (Nat → DeviceTurn))
  (cdvdmanBuf : Nat)
  (layer : Int)

/-- How the record loop ends in a sector, with turns enough. -/
def ScansTo (m : Nat → UInt8) (c : Cursor) (out : Scan) : Prop :=
  out ≠ .loops ∧
    ∃ turns, scanRecords cdvdmanBuf m c.slash.isNone c.dirname turns 0 = out

/-- The next sector of the directory. -/
def nextSector (c : Cursor) : Cursor :=
  { c with tocLBA := u32 (c.tocLBA + 1), tocLength := c.tocLength - 2048 }

/-- A walk that is at the cursor `c` comes to a sector: it looks through the memory `m`
for what the cursor of that sector says. -/
inductive Comes : Cursor → SearchState → Cursor → (Nat → UInt8) → Prop
  | here {c : Cursor} {s t : SearchState}
      (hmore : 0 < c.tocLength)
      (hread : sceCdRead cfg image env cdvdmanBuf c.tocLBA s = (true, t)) :
      Comes c s c t.drive.mem
  | next {c c' : Cursor} {s t : SearchState} {m : Nat → UInt8}
      (hmore : 0 < c.tocLength)
      (hread : sceCdRead cfg image env cdvdmanBuf c.tocLBA s = (true, t))
      (hscan : ScansTo cdvdmanBuf t.drive.mem c .next)
      (hcomes : Comes (nextSector c) t c' m) :
      Comes c s c' m
  | enter {c c' : Cursor} {s t : SearchState} {m : Nat → UInt8} {pos : Int}
      {rest : List UInt8}
      (hmore : 0 < c.tocLength)
      (hread : sceCdRead cfg image env cdvdmanBuf c.tocLBA s = (true, t))
      (hscan : ScansTo cdvdmanBuf t.drive.mem c (.enter pos))
      (hslash : c.slash = some rest)
      (hcomes :
        Comes
          (startLocate rest (enteredLBA cfg layer (tocEntry cdvdmanBuf t.drive.mem pos))
            (s32 (tocEntry cdvdmanBuf t.drive.mem pos).fileSize)) t c' m) :
      Comes c s c' m

/-- The walk ends, with turns enough for its loops. -/
def LocateEnds
    (p : List UInt8) (tocLBA : Nat) (tocLength : Int) (s : SearchState) : Prop :=
  ∃ turns fuel,
    (cdvdmanLocatefile cfg image env cdvdmanBuf turns layer fuel p tocLBA tocLength
      s).1 ≠ .loops

/-- In none of the sectors that a walk comes to the records lead back to a record that
is stepped over. -/
def NoCircles (c : Cursor) (s : SearchState) : Prop :=
  ∀ c' m, Comes cfg image env cdvdmanBuf layer c s c' m →
    ¬ Circles (stepOver cdvdmanBuf m c'.slash.isNone c'.dirname) 0

end Purpose

section Records

variable {cdvdmanBuf fsBuf : Nat} {m : Nat → UInt8} {last : Bool} {dirname : List UInt8}

/-- How the record loop ends at a record that it does not step over. -/
def stopAt
    (cdvdmanBuf : Nat) (m : Nat → UInt8) (last : Bool) (dirname : List UInt8)
    (tocPos : Int) : Scan :=
  let e := tocEntry cdvdmanBuf m tocPos
  if e.length = 0 ∨ e.filenameLength = 0 then .next
  else if agrees dirname e && last then .found tocPos
  else if agrees dirname e && e.isDirectory then .enter tocPos
  else .next

theorem stopAt_ne_loops (tocPos : Int) :
    stopAt cdvdmanBuf m last dirname tocPos ≠ .loops := by
  simp only [stopAt]
  split_ifs <;> simp

/-- One turn of the record loop. -/
theorem scanRecords_succ (turns : Nat) (tocPos : Int) :
    scanRecords cdvdmanBuf m last dirname (turns + 1) tocPos =
      match stepOver cdvdmanBuf m last dirname tocPos with
      | some next => scanRecords cdvdmanBuf m last dirname turns next
      | none => stopAt cdvdmanBuf m last dirname tocPos := by
  simp only [scanRecords, stepOver, stopAt]
  generalize tocEntry cdvdmanBuf m tocPos = e
  by_cases hzero : e.length = 0
  · simp [hzero]
  by_cases hname : e.filenameLength = 0
  · by_cases hlow : tocPos < 2016
    · simp [hzero, hname, hlow]
    · simp [hzero, hname, hlow]
  cases agrees dirname e with
  | false =>
      by_cases hlow : nextPos tocPos e < 2016
      · simp [hzero, hname, hlow]
      · simp [hzero, hname, hlow]
  | true =>
      cases last with
      | true => simp [hzero, hname]
      | false =>
          cases e.isDirectory with
          | true => simp [hzero, hname]
          | false =>
              by_cases hlow : nextPos tocPos e < 2016
              · simp [hzero, hname, hlow]
              · simp [hzero, hname, hlow]

/-- With more turns the record loop ends in the same way. -/
theorem scanRecords_mono
    {turns more : Nat} {tocPos : Int}
    (h : scanRecords cdvdmanBuf m last dirname turns tocPos ≠ .loops)
    (hmore : turns ≤ more) :
    scanRecords cdvdmanBuf m last dirname more tocPos =
      scanRecords cdvdmanBuf m last dirname turns tocPos := by
  induction turns generalizing more tocPos with
  | zero => exact absurd rfl h
  | succ turns ih =>
      obtain ⟨more, rfl⟩ : ∃ k, more = k + 1 := ⟨more - 1, by omega⟩
      rw [scanRecords_succ] at h
      rw [scanRecords_succ, scanRecords_succ]
      cases hstep : stepOver cdvdmanBuf m last dirname tocPos with
      | none => rfl
      | some next =>
          simp only [hstep] at h
          exact ih h (by omega)

/-- The cursors of the record loop are values of an `int`. -/
theorem stepOver_mem
    {tocPos next : Int}
    (hpos : tocPos ∈ Set.Ico (-2147483648 : Int) 2147483648)
    (h : stepOver cdvdmanBuf m last dirname tocPos = some next) :
    next ∈ Set.Ico (-2147483648 : Int) 2147483648 := by
  have hnext : ∀ e, nextPos tocPos e ∈ Set.Ico (-2147483648 : Int) 2147483648 := by
    intro e
    rw [Set.mem_Ico]
    simp only [nextPos, s32, u32OfInt]
    split_ifs
    · omega
    · omega
  simp only [stepOver] at h
  split_ifs at h
  · cases h
    exact hpos
  · cases h
    exact hnext _

/-- The record loop ends if and only if the records do not lead back to one that is
stepped over. -/
theorem scanRecords_ends_iff :
    (∃ turns, scanRecords cdvdmanBuf m last dirname turns 0 ≠ .loops) ↔
      ¬ Circles (stepOver cdvdmanBuf m last dirname) 0 := by
  have hturn : ∀ turns tocPos next,
      stepOver cdvdmanBuf m last dirname tocPos = some next →
      (scanRecords cdvdmanBuf m last dirname (turns + 1) tocPos ≠ .loops ↔
        scanRecords cdvdmanBuf m last dirname turns next ≠ .loops) := by
    intro turns tocPos next hnext
    rw [scanRecords_succ, hnext]
  have hlast : ∀ turns tocPos,
      stepOver cdvdmanBuf m last dirname tocPos = none →
      scanRecords cdvdmanBuf m last dirname (turns + 1) tocPos ≠ .loops := by
    intro turns tocPos hnext
    rw [scanRecords_succ, hnext]
    exact stopAt_ne_loops tocPos
  rw [@exists_fuel_iff Int (stepOver cdvdmanBuf m last dirname)
    (fun turns tocPos => scanRecords cdvdmanBuf m last dirname turns tocPos ≠ .loops)
    (fun _ h => h rfl) hlast hturn 0]
  exact dom_iff_not_circles (Set.finite_Ico _ _) ⟨by decide, by decide⟩
    (fun _ ht _ h => stepOver_mem ht h)

/-- So does that of `cdrom_dread`. -/
theorem dreadLoop_ends_iff (position : Nat) :
    (∃ fuel, (Files.dreadLoop fsBuf m fuel position).isSome) ↔
      ¬ Circles (stepShort fsBuf m) position := by
  have hturn : ∀ fuel position next,
      stepShort fsBuf m position = some next →
      ((Files.dreadLoop fsBuf m (fuel + 1) position).isSome ↔
        (Files.dreadLoop fsBuf m fuel next).isSome) := by
    intro fuel position next hnext
    simp only [stepShort] at hnext
    split_ifs at hnext with hshort
    cases hnext
    simp only [Files.dreadLoop, if_neg hshort.1, if_pos hshort.2]
  have hlast : ∀ fuel position,
      stepShort fsBuf m position = none →
      (Files.dreadLoop fsBuf m (fuel + 1) position).isSome := by
    intro fuel position hnext
    simp only [stepShort] at hnext
    split_ifs at hnext with hshort
    simp only [Files.dreadLoop]
    by_cases hzero : (tocEntry fsBuf m position).length = 0
    · rw [if_pos hzero]
      rfl
    · rw [if_neg hzero, if_neg (fun hone => hshort ⟨hzero, hone⟩)]
      rfl
  rw [@exists_fuel_iff Nat (stepShort fsBuf m)
    (fun fuel position => (Files.dreadLoop fsBuf m fuel position).isSome)
    (fun _ h => by cases h) hlast hturn position]
  have hclosed : ∀ t ∈ insert position (Set.Iio 4294967296), ∀ u,
      stepShort fsBuf m t = some u → u ∈ insert position (Set.Iio 4294967296) := by
    intro t _ u hu
    simp only [stepShort] at hu
    split_ifs at hu
    cases hu
    refine Set.mem_insert_of_mem _ ?_
    rw [Set.mem_Iio, u32OfInt]
    omega
  exact dom_iff_not_circles ((Set.finite_Iio _).insert position)
    (Set.mem_insert _ _) hclosed

end Records

section Walk

variable
  {cfg : Settings}
  {image : Nat → UInt8}
  {env : Nat → Option (Nat → DeviceTurn)}
  {cdvdmanBuf : Nat}
  {layer : Int}
  {turns fuel : Nat} {c : Cursor} {s t : SearchState}

/-- Without sectors left, the walk ends. -/
theorem locateAt_done
    (h : ¬ 0 < c.tocLength) :
    (locateAt cfg image env cdvdmanBuf turns layer fuel c s).1 = .null := by
  have hzero : sectorsOf c.tocLength = 0 := by
    unfold sectorsOf
    omega
  rw [locateAt, hzero]
  rfl

theorem sectorsOf_pos
    {n : Int}
    (h : 0 < n) :
    ∃ k, sectorsOf n = k + 1 := by
  refine ⟨sectorsOf n - 1, ?_⟩
  unfold sectorsOf
  omega

/-- A read that is refused ends it. -/
theorem locateAt_refused
    (hmore : 0 < c.tocLength)
    (hread : sceCdRead cfg image env cdvdmanBuf c.tocLBA s = (false, t)) :
    (locateAt cfg image env cdvdmanBuf turns layer fuel c s).1 = .null := by
  obtain ⟨k, hk⟩ := sectorsOf_pos hmore
  simp only [locateAt, hk, walkSectors, if_pos hmore, hread]

/-- What the walk does with a sector. -/
theorem locateAt_sector
    (hmore : 0 < c.tocLength)
    (hread : sceCdRead cfg image env cdvdmanBuf c.tocLBA s = (true, t)) :
    locateAt cfg image env cdvdmanBuf turns layer fuel c s =
      match scanRecords cdvdmanBuf t.drive.mem c.slash.isNone c.dirname turns 0 with
      | .found pos => (.found pos, t)
      | .loops => (.loops, t)
      | .next => locateAt cfg image env cdvdmanBuf turns layer fuel (nextSector c) t
      | .enter pos =>
          match c.slash with
          | none => (.null, t)
          | some rest =>
              cdvdmanLocatefile cfg image env cdvdmanBuf turns layer fuel rest
                (enteredLBA cfg layer (tocEntry cdvdmanBuf t.drive.mem pos))
                (s32 (tocEntry cdvdmanBuf t.drive.mem pos).fileSize) t := by
  obtain ⟨k, hk⟩ := sectorsOf_pos hmore
  obtain ⟨-, hleft⟩ := sectorsOf_succ hk
  simp only [locateAt, hk, walkSectors, if_pos hmore, hread, nextSector]
  cases scanRecords cdvdmanBuf t.drive.mem c.slash.isNone c.dirname turns 0 with
  | found pos => rfl
  | enter pos => rfl
  | next => rw [hleft]
  | loops => rfl

/-- The record loop ends in every sector that a walk that ends comes to. -/
theorem Comes.not_circles
    {c' : Cursor} {m : Nat → UInt8}
    (h : Comes cfg image env cdvdmanBuf layer c s c' m)
    (hends : (locateAt cfg image env cdvdmanBuf turns layer fuel c s).1 ≠ .loops) :
    ¬ Circles (stepOver cdvdmanBuf m c'.slash.isNone c'.dirname) 0 := by
  have hscans :
      ∀ {c : Cursor} {m : Nat → UInt8} {out : Scan},
        scanRecords cdvdmanBuf m c.slash.isNone c.dirname turns 0 ≠ .loops →
        ScansTo cdvdmanBuf m c out →
        scanRecords cdvdmanBuf m c.slash.isNone c.dirname turns 0 = out := by
    rintro c m out hturns ⟨hout, turns', rfl⟩
    rcases Nat.le_total turns turns' with hle | hle
    · exact (scanRecords_mono hturns hle).symm
    · exact scanRecords_mono hout hle
  have hsector :
      ∀ {fuel : Nat} {c : Cursor} {s t : SearchState},
        0 < c.tocLength →
        sceCdRead cfg image env cdvdmanBuf c.tocLBA s = (true, t) →
        (locateAt cfg image env cdvdmanBuf turns layer fuel c s).1 ≠ .loops →
        scanRecords cdvdmanBuf t.drive.mem c.slash.isNone c.dirname turns 0 ≠
          .loops := by
    intro fuel c s t hmore hread hends hloops
    rw [locateAt_sector hmore hread, hloops] at hends
    exact hends rfl
  induction h generalizing fuel with
  | here hmore hread =>
      exact scanRecords_ends_iff.mp ⟨turns, hsector hmore hread hends⟩
  | next hmore hread hscan _ ih =>
      have hout := hscans (hsector hmore hread hends) hscan
      rw [locateAt_sector hmore hread, hout] at hends
      exact ih hends
  | enter hmore hread hscan hslash _ ih =>
      have hout := hscans (hsector hmore hread hends) hscan
      rw [locateAt_sector hmore hread, hout] at hends
      simp only [hslash] at hends
      cases fuel with
      | zero => exact absurd rfl hends
      | succ fuel =>
          rw [cdvdmanLocatefile_eq_locateAt] at hends
          exact ih hends

/-- So many turns are enough for the walk from a cursor on. -/
def EndsAt
    (cfg : Settings) (image : Nat → UInt8) (env : Nat → Option (Nat → DeviceTurn))
    (cdvdmanBuf : Nat) (layer : Int)
    (fuel : Nat) (c : Cursor) (s : SearchState) : Prop :=
  ∃ enough, ∀ turns, enough ≤ turns →
    (locateAt cfg image env cdvdmanBuf turns layer fuel c s).1 ≠ .loops

/-- The sectors of one directory, if the walk ends in those that it enters. -/
theorem endsAt_of_entered
    (n : Nat)
    (hn : sectorsOf c.tocLength = n)
    (hcircles : NoCircles cfg image env cdvdmanBuf layer c s)
    (henter :
      ∀ rest tocLBA tocLength t, c.slash = some rest →
        NoCircles cfg image env cdvdmanBuf layer (startLocate rest tocLBA tocLength) t →
        ∃ enough, ∀ turns, enough ≤ turns →
          (cdvdmanLocatefile cfg image env cdvdmanBuf turns layer fuel rest tocLBA
            tocLength t).1 ≠ .loops) :
    EndsAt cfg image env cdvdmanBuf layer fuel c s := by
  induction n generalizing c s with
  | zero =>
      refine ⟨0, ?_⟩
      intro turns _
      rw [locateAt_done (by unfold sectorsOf at hn; omega)]
      simp
  | succ n ih =>
      obtain ⟨hmore, hleft⟩ := sectorsOf_succ hn
      rcases hread : sceCdRead cfg image env cdvdmanBuf c.tocLBA s with ⟨accepted, t⟩
      cases accepted with
      | false =>
          refine ⟨0, ?_⟩
          intro turns _
          rw [locateAt_refused hmore hread]
          simp
      | true =>
          obtain ⟨first, hfirst⟩ :=
            scanRecords_ends_iff.mpr (hcircles c _ (Comes.here hmore hread))
          obtain ⟨out, hout⟩ :
              ∃ out, scanRecords cdvdmanBuf t.drive.mem c.slash.isNone c.dirname first 0 =
                out :=
            ⟨_, rfl⟩
          have hscan : ScansTo cdvdmanBuf t.drive.mem c out := by
            rw [hout] at hfirst
            exact ⟨hfirst, first, hout⟩
          have hsector : ∀ turns, first ≤ turns →
              scanRecords cdvdmanBuf t.drive.mem c.slash.isNone c.dirname turns 0 =
                out := by
            intro turns hturns
            rw [scanRecords_mono hfirst hturns, hout]
          cases out with
          | loops => exact absurd hout hfirst
          | found pos =>
              refine ⟨first, ?_⟩
              intro turns hturns
              rw [locateAt_sector hmore hread, hsector turns hturns]
              simp
          | next =>
              obtain ⟨enough, henough⟩ :=
                ih hleft
                  (fun c' m hcomes => hcircles c' m (Comes.next hmore hread hscan hcomes))
                  henter
              refine ⟨max first enough, ?_⟩
              intro turns hturns
              rw [locateAt_sector hmore hread, hsector turns (by omega)]
              exact henough turns (by omega)
          | enter pos =>
              cases hslash : c.slash with
              | none =>
                  refine ⟨first, ?_⟩
                  intro turns hturns
                  rw [locateAt_sector hmore hread, hsector turns hturns]
                  simp [hslash]
              | some rest =>
                  obtain ⟨enough, henough⟩ :=
                    henter rest _ _ t hslash
                      (fun c' m hcomes =>
                        hcircles c' m (Comes.enter hmore hread hscan hslash hcomes))
                  refine ⟨max first enough, ?_⟩
                  intro turns hturns
                  rw [locateAt_sector hmore hread, hsector turns (by omega)]
                  simp only [hslash]
                  exact henough turns (by omega)

/-- A walk in which no record loop circles ends: what is left of the path gets shorter
with every directory that it enters. -/
theorem endsAt_of_noCircles
    (hfuel : ∀ rest, c.slash = some rest → rest.length < fuel)
    (hcircles : NoCircles cfg image env cdvdmanBuf layer c s) :
    EndsAt cfg image env cdvdmanBuf layer fuel c s := by
  induction fuel generalizing c s with
  | zero =>
      refine endsAt_of_entered _ rfl hcircles ?_
      intro rest _ _ _ hslash
      exact absurd (hfuel rest hslash) (Nat.not_lt_zero _)
  | succ fuel ih =>
      refine endsAt_of_entered _ rfl hcircles ?_
      intro rest tocLBA tocLength t hslash hentered
      have hrest := hfuel rest hslash
      refine ih ?_ hentered
      intro rest' hslash'
      have hshorter := cutSegment_shorter hslash'
      omega

/-- The walk ends if and only if no record loop circles in a sector that it comes to. -/
theorem locateEnds_iff
    (p : List UInt8) (tocLBA : Nat) (tocLength : Int) (s : SearchState) :
    LocateEnds cfg image env cdvdmanBuf layer p tocLBA tocLength s ↔
      NoCircles cfg image env cdvdmanBuf layer (startLocate p tocLBA tocLength) s := by
  constructor
  · rintro ⟨turns, fuel, hends⟩ c m hcomes
    cases fuel with
    | zero => exact absurd rfl hends
    | succ fuel =>
        rw [cdvdmanLocatefile_eq_locateAt] at hends
        exact hcomes.not_circles hends
  · intro hcircles
    obtain ⟨enough, henough⟩ :=
      @endsAt_of_noCircles cfg image env cdvdmanBuf layer p.length
        (startLocate p tocLBA tocLength) s (fun rest h => cutSegment_shorter h) hcircles
    refine ⟨enough, p.length + 1, ?_⟩
    rw [cdvdmanLocatefile_eq_locateAt]
    exact henough enough le_rfl

end Walk

end Iso
end Ps2Cdvd
