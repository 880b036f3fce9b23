import Mathlib.Data.List.Basic

/-!
# Resolving a path through directory listings

A directory is the list of its records, in the order in which they are searched.
A path is a list of components of any type `σ`; which records a component agrees
with, which records are directories, and what a directory record lists are
parameters.

A component denotes the first record that agrees with it.  Only directories can
be entered, so a component that is not the last one denotes the first directory
that agrees with it.

* `resolve_restricted`: a search that only sees a first part of the directory it
  starts in and only some of the directories below finds what the whole search
  finds, or nothing; and exactly when it finds it.
-/

namespace Ps2Cdvd
namespace Lib

universe u v

section Resolve

variable
  {ρ : Type u} {σ : Type v}
  (agrees : σ → ρ → Bool)
  (isDir : ρ → Bool)
  (listing : ρ → List ρ)

/-- The record that a component denotes among `rs`. -/
def denoted (last : Bool) (seg : σ) (rs : List ρ) : Option ρ :=
  rs.find? (fun r => agrees seg r && (last || isDir r))

/-- The record that a path names, from the records `rs` on. -/
def resolve : List ρ → List σ → Option ρ
  | _, [] => none
  | rs, [seg] => denoted agrees isDir true seg rs
  | rs, seg :: next :: segs =>
      match denoted agrees isDir false seg rs with
      | none => none
      | some d => resolve (listing d) (next :: segs)

/-- The directories that a search enters, from the records `rs` on. -/
def entered : List ρ → List σ → List ρ
  | _, [] => []
  | _, [_] => []
  | rs, seg :: next :: segs =>
      match denoted agrees isDir false seg rs with
      | none => []
      | some d => d :: entered (listing d) (next :: segs)

/-- The listings of a search that sees only the directories in `keep`. -/
def kept (keep : ρ → Bool) (d : ρ) : List ρ :=
  if keep d then listing d else []

variable {agrees isDir listing}

theorem denoted_mem
    {last : Bool} {seg : σ} {rs : List ρ} {r : ρ}
    (h : denoted agrees isDir last seg rs = some r) :
    r ∈ rs :=
  List.mem_of_find?_eq_some h

theorem denoted_agrees
    {last : Bool} {seg : σ} {rs : List ρ} {r : ρ}
    (h : denoted agrees isDir last seg rs = some r) :
    agrees seg r = true ∧ (last || isDir r) = true := by
  have hr := List.find?_some h
  simpa only [Bool.and_eq_true] using hr

/-- The first part of a directory decides, where a component denotes a record
there. -/
theorem denoted_append
    (last : Bool) (seg : σ) (rs rest : List ρ) :
    denoted agrees isDir last seg (rs ++ rest) =
      (denoted agrees isDir last seg rs).or
        (denoted agrees isDir last seg rest) := by
  simp [denoted, List.find?_append]

theorem resolve_nil (segs : List σ) :
    resolve agrees isDir listing [] segs = none := by
  cases segs with
  | nil => rfl
  | cons seg segs =>
      cases segs with
      | nil => rfl
      | cons next segs => rfl

/-- A path resolves through the record that its first component denotes, and
through nothing else. -/
theorem resolve_cons
    (rs : List ρ) (seg : σ) (segs : List σ) :
    resolve agrees isDir listing rs (seg :: segs) =
      (denoted agrees isDir segs.isEmpty seg rs).bind
        (fun d =>
          if segs.isEmpty then some d
          else resolve agrees isDir listing (listing d) segs) := by
  cases segs with
  | nil =>
      simp only [resolve, List.isEmpty_nil, if_true]
      cases denoted agrees isDir true seg rs with
      | none => rfl
      | some d => rfl
  | cons next segs =>
      simp only [resolve, List.isEmpty_cons, Bool.false_eq_true, if_false]
      cases denoted agrees isDir false seg rs with
      | none => rfl
      | some d => rfl

theorem entered_cons
    (rs : List ρ) (seg : σ) (segs : List σ) :
    entered agrees isDir listing rs (seg :: segs) =
      if segs.isEmpty then []
      else
        match denoted agrees isDir segs.isEmpty seg rs with
        | none => []
        | some d => d :: entered agrees isDir listing (listing d) segs := by
  cases segs with
  | nil => rfl
  | cons next segs => rfl

/-- What holds of the records that a search can meet holds of the one it
finds. -/
theorem resolve_invariant
    {P : ρ → Prop}
    (hstep : ∀ d, P d → isDir d = true → ∀ r ∈ listing d, P r)
    (segs : List σ) (rs : List ρ)
    (hrs : ∀ r ∈ rs, P r)
    {e : ρ}
    (h : resolve agrees isDir listing rs segs = some e) :
    P e := by
  induction segs generalizing rs with
  | nil => cases h
  | cons seg segs ih =>
      rw [resolve_cons] at h
      obtain ⟨d, hd, hrest⟩ := Option.bind_eq_some_iff.mp h
      have hP := hrs d (denoted_mem hd)
      have hdir := (denoted_agrees hd).2
      cases hlast : segs.isEmpty with
      | true =>
          rw [hlast, if_pos rfl, Option.some.injEq] at hrest
          exact hrest ▸ hP
      | false =>
          rw [hlast, Bool.false_or] at hdir
          rw [hlast, if_neg Bool.false_ne_true] at hrest
          exact ih (listing d) (hstep d hP hdir) hrest

/-- A search that does not see every directory finds what the whole search
finds, unless it has to enter one that it does not see. -/
theorem resolve_kept
    (keep : ρ → Bool) (segs : List σ) (rs : List ρ) :
    resolve agrees isDir (kept listing keep) rs segs =
      if (entered agrees isDir listing rs segs).all keep then
        resolve agrees isDir listing rs segs
      else none := by
  induction segs generalizing rs with
  | nil => rfl
  | cons seg segs ih =>
      rw [resolve_cons, resolve_cons, entered_cons]
      cases hlast : segs.isEmpty with
      | true => simp
      | false =>
          simp only [Bool.false_eq_true, if_false]
          cases denoted agrees isDir false seg rs with
          | none => simp
          | some d =>
              simp only [Option.bind_some, List.all_cons]
              by_cases hkeep : keep d = true
              · simp [kept, hkeep, ih]
              · simp [kept, hkeep, resolve_nil]

/-- What follows the part in which the first component denotes a record is not
looked at. -/
theorem resolve_append
    {rs : List ρ} {seg : σ} {segs : List σ}
    (h : (denoted agrees isDir segs.isEmpty seg rs).isSome)
    (rest : List ρ) :
    resolve agrees isDir listing (rs ++ rest) (seg :: segs) =
      resolve agrees isDir listing rs (seg :: segs) := by
  obtain ⟨d, hd⟩ := Option.isSome_iff_exists.mp h
  rw [resolve_cons, resolve_cons, denoted_append, hd]
  rfl

/-- A search sees only a part of the directory it starts in and not every
directory below.  It finds what the whole search finds, if the first component
denotes a record of that part and every directory to enter is seen, and nothing
otherwise. -/
theorem resolve_restricted
    (keep : ρ → Bool) (rs rest : List ρ) (seg : σ) (segs : List σ) :
    resolve agrees isDir (kept listing keep) rs (seg :: segs) =
      if (denoted agrees isDir segs.isEmpty seg rs).isSome ∧
          (entered agrees isDir listing (rs ++ rest) (seg :: segs)).all keep then
        resolve agrees isDir listing (rs ++ rest) (seg :: segs)
      else none := by
  by_cases hfirst : (denoted agrees isDir segs.isEmpty seg rs).isSome
  · rw [← resolve_append hfirst rest, resolve_kept]
    simp [hfirst]
  · have hnone : denoted agrees isDir segs.isEmpty seg rs = none := by
      simpa using hfirst
    rw [resolve_cons, hnone]
    simp

end Resolve

end Lib
end Ps2Cdvd
