import Mathlib.Logic.Relation

/-!
# Labelled step functions and their guarded runs

A concurrent system is given by one executable step function
`step : σ → Act → Option σ`; `none` means that the action is not enabled.
A *guard* is a condition on the state before a step and on the action taken.
The states reached by steps that all meet the guard are `GuardedReach`; with
the trivial guard these are all reachable states.

* `GuardedReach.invariant`: an invariant that the start state has and every
  guarded step preserves holds in every state reached;
* `GuardedReach.mono`: a weaker guard reaches more;
* `guardedReach_of_runGuarded`: an executed list of actions is a run, so that
  one concrete run can be checked by evaluation.
-/

namespace Ps2Cdvd
namespace Lib

universe u v

section Run

variable {σ : Type u} {Act : Type v}

/-- One step by an action that the guard admits in the state before it. -/
def GuardedStep
    (step : σ → Act → Option σ)
    (guard : σ → Act → Prop)
    (s t : σ) : Prop :=
  ∃ a, guard s a ∧ step s a = some t

/-- The states reached from `s` by guarded steps. -/
def GuardedReach
    (step : σ → Act → Option σ)
    (guard : σ → Act → Prop) :
    σ → σ → Prop :=
  Relation.ReflTransGen (GuardedStep step guard)

/-- The guard that admits every action. -/
def anyAct (_ : σ) (_ : Act) : Prop := True

/-- All reachable states. -/
abbrev Reach (step : σ → Act → Option σ) : σ → σ → Prop :=
  GuardedReach step anyAct

variable
  {step : σ → Act → Option σ}
  {guard guard' : σ → Act → Prop}

theorem GuardedReach.refl (s : σ) : GuardedReach step guard s s :=
  Relation.ReflTransGen.refl

theorem GuardedReach.tail
    {s t t' : σ} {a : Act}
    (h : GuardedReach step guard s t)
    (hg : guard t a)
    (ht : step t a = some t') :
    GuardedReach step guard s t' :=
  Relation.ReflTransGen.tail h ⟨a, hg, ht⟩

theorem GuardedReach.trans
    {s t t' : σ}
    (h : GuardedReach step guard s t)
    (h' : GuardedReach step guard t t') :
    GuardedReach step guard s t' :=
  Relation.ReflTransGen.trans h h'

/-- **Run rule.** What the start state has and every guarded step preserves
holds in every state reached. -/
theorem GuardedReach.invariant
    {I : σ → Prop} {s t : σ}
    (h : GuardedReach step guard s t)
    (hstart : I s)
    (hstep : ∀ u a u', I u → guard u a → step u a = some u' → I u') :
    I t := by
  induction h with
  | refl => exact hstart
  | tail _ hlast ih =>
      obtain ⟨a, hg, ha⟩ := hlast
      exact hstep _ a _ ih hg ha

/-- A guard that admits more reaches more. -/
theorem GuardedReach.mono
    {s t : σ}
    (h : GuardedReach step guard s t)
    (hle : ∀ u a, guard u a → guard' u a) :
    GuardedReach step guard' s t := by
  induction h with
  | refl => exact GuardedReach.refl _
  | tail _ hlast ih =>
      obtain ⟨a, hg, ha⟩ := hlast
      exact ih.tail (hle _ a hg) ha

/-- Execute a list of actions, each of which the guard must admit. -/
def runGuarded
    (step : σ → Act → Option σ)
    (guard : σ → Act → Prop)
    [∀ s a, Decidable (guard s a)] :
    σ → List Act → Option σ
  | s, [] => some s
  | s, a :: as =>
      if guard s a then
        match step s a with
        | some t => runGuarded step guard t as
        | none => none
      else none

instance instDecidableAnyAct (s : σ) (a : Act) :
    Decidable (anyAct s a) :=
  inferInstanceAs (Decidable True)

/-- Execute a list of actions. -/
abbrev runActs (step : σ → Act → Option σ) : σ → List Act → Option σ :=
  runGuarded step anyAct

theorem guardedReach_of_runGuarded
    [∀ s a, Decidable (guard s a)] :
    ∀ (as : List Act) {s t : σ},
      runGuarded step guard s as = some t →
      GuardedReach step guard s t := by
  intro as
  induction as with
  | nil =>
      intro s t h
      have hst : s = t := by
        simpa [runGuarded] using h
      subst hst
      exact GuardedReach.refl s
  | cons a as ih =>
      intro s t h
      by_cases hg : guard s a
      · cases ha : step s a with
        | none =>
            simp [runGuarded, hg, ha] at h
        | some u =>
            have hrest : runGuarded step guard u as = some t := by
              simpa [runGuarded, hg, ha] using h
            exact
              ((GuardedReach.refl s).tail hg ha).trans
                (ih hrest)
      · simp [runGuarded, hg] at h

end Run

end Lib
end Ps2Cdvd
