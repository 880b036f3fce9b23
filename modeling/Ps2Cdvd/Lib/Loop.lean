import Mathlib.Computability.StateTransition
import Mathlib.Data.Set.Finite.Basic
import Mathlib.Order.WellFounded

/-!
# Loops over finitely many states

A loop is a function `next : σ → Option σ`: from a state it goes on in another one, or
it ends.  It circles when it comes to a state that leads back to itself.

* `dom_iff_not_circles`: a loop whose states all lie in a finite set ends if and only if
  it does not circle;
* `exists_fuel_iff`: a run that takes one unit of fuel for each turn ends, with some
  fuel, if and only if its loop ends.
-/

namespace Ps2Cdvd
namespace Lib

open StateTransition

universe u

section Circles

variable {σ : Type u} {next : σ → Option σ} {s t : σ}

/-- The loop comes from `s` to a state that leads back to itself. -/
def Circles (next : σ → Option σ) (s : σ) : Prop :=
  ∃ t, Reaches next s t ∧ Reaches₁ next t t

/-- All states behind one that leads back to itself do so. -/
theorem returns_of_reaches
    (hback : Reaches₁ next s s)
    (h : Reaches next s t) :
    Reaches₁ next t t := by
  induction h with
  | refl => exact hback
  | tail _ hstep ih =>
      have hforward := reaches₁_fwd ih hstep
      exact Relation.TransGen.tail' hforward hstep

/-- A loop that circles does not end. -/
theorem not_circles_of_dom
    (h : (eval next s).Dom) :
    ¬ Circles next s := by
  rintro ⟨t, hst, hback⟩
  obtain ⟨last, hlast⟩ := Part.dom_iff_mem.mp h
  have hends := (mem_eval.mp hlast).1
  have hreturns : Reaches₁ next last last := by
    rcases reaches_total hst hends with hforward | hforward
    · exact returns_of_reaches hback hforward
    · have hsame : t = last := (eval_maximal hlast).mp hforward
      rw [← hsame]
      exact hback
  exact eval_maximal₁ hlast last hreturns

/-- The states that the loop comes to from `s`. -/
def Behind (next : σ → Option σ) (s : σ) : Type u := { t : σ // Reaches next s t }

/-- The loop comes from the second state to the first one, in at least one turn. -/
def Later (u t : Behind next s) : Prop := Reaches₁ next t.1 u.1

/-- What a set that a loop does not leave has in it. -/
theorem reaches_mem
    {S : Set σ}
    (hs : s ∈ S)
    (hclosed : ∀ t ∈ S, ∀ u, next t = some u → u ∈ S)
    (h : Reaches next s t) :
    t ∈ S := by
  induction h with
  | refl => exact hs
  | tail _ hstep ih => exact hclosed _ ih _ hstep

/-- Behind a state, a loop over finitely many states that does not circle gets nowhere
twice. -/
theorem later_wellFounded
    {S : Set σ}
    (hfinite : S.Finite)
    (hs : s ∈ S)
    (hclosed : ∀ t ∈ S, ∀ u, next t = some u → u ∈ S)
    (h : ¬ Circles next s) :
    WellFounded (Later : Behind next s → Behind next s → Prop) := by
  have hinside : { t | Reaches next s t } ⊆ S := fun _ ht => reaches_mem hs hclosed ht
  have hstates : Finite (Behind next s) := (hfinite.subset hinside).to_subtype
  have htrans : IsTrans (Behind next s) Later :=
    ⟨fun _ _ _ hab hbc => Relation.TransGen.trans hbc hab⟩
  have hirrefl : Std.Irrefl (Later : Behind next s → Behind next s → Prop) :=
    ⟨fun t ht => h ⟨t.1, t.2, ht⟩⟩
  exact Finite.wellFounded_of_trans_of_irrefl Later

/-- A loop over finitely many states that does not circle ends: each turn takes it to a
state that it does not come back from. -/
theorem dom_of_not_circles
    {S : Set σ}
    (hfinite : S.Finite)
    (hs : s ∈ S)
    (hclosed : ∀ t ∈ S, ∀ u, next t = some u → u ∈ S)
    (h : ¬ Circles next s) :
    (eval next s).Dom := by
  have hwf := later_wellFounded hfinite hs hclosed h
  have hall : ∀ t : Behind next s, (eval next t.1).Dom := by
    intro t
    induction t using hwf.induction with
    | _ t ih =>
      cases hnext : next t.1 with
      | none =>
          exact Part.dom_iff_mem.mpr
            ⟨t.1, mem_eval.mpr ⟨Relation.ReflTransGen.refl, hnext⟩⟩
      | some u =>
          have hstep : Reaches next t.1 u := Relation.ReflTransGen.single hnext
          rw [reaches_eval hstep]
          exact ih ⟨u, t.2.tail hnext⟩ (Relation.TransGen.single hnext)
  exact hall ⟨s, Relation.ReflTransGen.refl⟩

theorem dom_iff_not_circles
    {S : Set σ}
    (hfinite : S.Finite)
    (hs : s ∈ S)
    (hclosed : ∀ t ∈ S, ∀ u, next t = some u → u ∈ S) :
    (eval next s).Dom ↔ ¬ Circles next s :=
  ⟨not_circles_of_dom, dom_of_not_circles hfinite hs hclosed⟩

end Circles

section Fuel

variable {σ : Type u} {next : σ → Option σ} {ended : Nat → σ → Prop}

/-- `ended n s` says that a run from `s` has ended with the fuel `n`.  If each turn of
the loop takes one unit, there is enough fuel if and only if the loop ends. -/
theorem exists_fuel_iff
    (hzero : ∀ s, ¬ ended 0 s)
    (hlast : ∀ n s, next s = none → ended (n + 1) s)
    (hturn : ∀ n s t, next s = some t → (ended (n + 1) s ↔ ended n t))
    (s : σ) :
    (∃ n, ended n s) ↔ (eval next s).Dom := by
  constructor
  · rintro ⟨n, hn⟩
    induction n generalizing s with
    | zero => exact absurd hn (hzero s)
    | succ n ih =>
        cases hnext : next s with
        | none =>
            exact Part.dom_iff_mem.mpr
              ⟨s, mem_eval.mpr ⟨Relation.ReflTransGen.refl, hnext⟩⟩
        | some t =>
            have hstep : Reaches next s t := Relation.ReflTransGen.single hnext
            rw [reaches_eval hstep]
            exact ih t ((hturn n s t hnext).mp hn)
  · intro h
    obtain ⟨last, hmem⟩ := Part.dom_iff_mem.mp h
    obtain ⟨hreaches, hend⟩ := mem_eval.mp hmem
    induction hreaches using Relation.ReflTransGen.head_induction_on with
    | refl => exact ⟨1, hlast 0 last hend⟩
    | head hstep hrest ih =>
        have hmem' := mem_eval.mpr ⟨hrest, hend⟩
        obtain ⟨n, hn⟩ := ih (Part.dom_iff_mem.mpr ⟨_, hmem'⟩) hmem'
        exact ⟨n + 1, (hturn n _ _ hstep).mpr hn⟩

end Fuel

end Lib
end Ps2Cdvd
