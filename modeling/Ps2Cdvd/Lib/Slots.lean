import Mathlib.Tactic

/-!
# Owners and slots

A table of slots is shared by owners that come and go.  Every live owner knows its
slot, every slot in use knows its owner, and the two agree.  This is all that has to
be kept for the slots of different owners to be different.

* `Paired.slot_ne`: different live owners have different slots;
* `Paired.length_le`: there are not more live owners than slots;
* `Paired.insert`, `Paired.remove`: taking a free slot and giving one back.
-/

namespace Ps2Cdvd
namespace Lib

universe u v

section Slots

variable {φ : Type u} {κ : Type v}

/-- The slots that the live owners know are the slots that know them. -/
structure Paired
    (live : φ → Bool) (slot : φ → Option κ) (owner : κ → Option φ) : Prop where
  owns : ∀ f, live f = true → ∃ k, slot f = some k ∧ owner k = some f
  used : ∀ k f, owner k = some f → live f = true ∧ slot f = some k

variable {live : φ → Bool} {slot : φ → Option κ} {owner : κ → Option φ}

/-- The slot of a live owner has it as its owner. -/
theorem Paired.owner_eq
    {f : φ} {k : κ}
    (h : Paired live slot owner)
    (hf : live f = true)
    (hk : slot f = some k) :
    owner k = some f := by
  obtain ⟨j, hj, howner⟩ := h.owns f hf
  rw [hk] at hj
  cases hj
  exact howner

theorem Paired.slot_ne
    {f g : φ}
    (h : Paired live slot owner)
    (hf : live f = true)
    (hg : live g = true)
    (hne : f ≠ g) :
    slot f ≠ slot g := by
  intro hsame
  obtain ⟨k, hk, howner⟩ := h.owns f hf
  have hother := h.owner_eq hg (hsame ▸ hk)
  rw [howner] at hother
  exact hne (Option.some.inj hother)

theorem Paired.length_le
    [Fintype κ] {l : List φ}
    (h : Paired live slot owner)
    (hnodup : l.Nodup)
    (hlive : ∀ f ∈ l, live f = true) :
    l.length ≤ Fintype.card κ := by
  have hlength : (l.filterMap slot).length = l.length := by
    have hall : ∀ m : List φ, (∀ f ∈ m, live f = true) →
        (m.filterMap slot).length = m.length := by
      intro m
      induction m with
      | nil => exact fun _ => rfl
      | cons f m ih =>
          intro hm
          obtain ⟨k, hk, -⟩ := h.owns f (hm f List.mem_cons_self)
          rw [List.filterMap_cons_some hk, List.length_cons, List.length_cons,
            ih (fun g hg => hm g (List.mem_cons_of_mem f hg))]
    exact hall l hlive
  have hslots : (l.filterMap slot).Nodup := by
    have hall : ∀ m : List φ, m.Nodup → (∀ f ∈ m, live f = true) →
        (m.filterMap slot).Nodup := by
      intro m
      induction m with
      | nil => exact fun _ _ => List.nodup_nil
      | cons f m ih =>
          intro hm hmlive
          obtain ⟨hfresh, hm⟩ := List.nodup_cons.mp hm
          have hf := hmlive f List.mem_cons_self
          have hrest := ih hm (fun g hg => hmlive g (List.mem_cons_of_mem f hg))
          obtain ⟨k, hk, -⟩ := h.owns f hf
          rw [List.filterMap_cons_some hk, List.nodup_cons]
          refine ⟨?_, hrest⟩
          intro hmem
          obtain ⟨g, hg, hgk⟩ := List.mem_filterMap.mp hmem
          refine h.slot_ne hf (hmlive g (List.mem_cons_of_mem f hg)) ?_
            (hk.trans hgk.symm)
          rintro rfl
          exact hfresh hg
    exact hall l hnodup hlive
  rw [← hlength]
  exact hslots.length_le_card

variable [DecidableEq φ] [DecidableEq κ]

/-- A new owner takes a free slot. -/
theorem Paired.insert
    {f : φ} {k : κ}
    (h : Paired live slot owner)
    (hnew : live f = false)
    (hfree : owner k = none) :
    Paired (Function.update live f true) (Function.update slot f (some k))
      (Function.update owner k (some f)) := by
  have hother : ∀ g j, owner j = some g → g ≠ f ∧ j ≠ k := by
    intro g j hj
    refine ⟨?_, ?_⟩
    · rintro rfl
      rw [(h.used j g hj).1] at hnew
      cases hnew
    · rintro rfl
      rw [hfree] at hj
      cases hj
  refine ⟨?_, ?_⟩
  · intro g hg
    by_cases hgf : g = f
    · subst hgf
      exact ⟨k, by simp, by simp⟩
    · rw [Function.update_of_ne hgf] at hg
      obtain ⟨j, hj, howner⟩ := h.owns g hg
      obtain ⟨-, hjk⟩ := hother g j howner
      exact ⟨j, by simp [hgf, hj], by simp [hjk, howner]⟩
  · intro j g hj
    by_cases hjk : j = k
    · subst hjk
      rw [Function.update_self] at hj
      cases hj
      exact ⟨by simp, by simp⟩
    · rw [Function.update_of_ne hjk] at hj
      obtain ⟨hgf, -⟩ := hother g j hj
      obtain ⟨hlive, hslot⟩ := h.used j g hj
      exact ⟨by simp [hgf, hlive], by simp [hgf, hslot]⟩

/-- An owner goes, and its slot is free. -/
theorem Paired.remove
    {f : φ} {k : κ}
    (h : Paired live slot owner)
    (hf : live f = true)
    (hk : slot f = some k) :
    Paired (Function.update live f false) slot (Function.update owner k none) := by
  refine ⟨?_, ?_⟩
  · intro g hg
    have hgf : g ≠ f := by
      rintro rfl
      rw [Function.update_self] at hg
      cases hg
    rw [Function.update_of_ne hgf] at hg
    obtain ⟨j, hj, howner⟩ := h.owns g hg
    have hjk : j ≠ k := by
      rintro rfl
      exact h.slot_ne hg hf hgf (hj.trans hk.symm)
    exact ⟨j, hj, by simp [hjk, howner]⟩
  · intro j g hj
    by_cases hjk : j = k
    · subst hjk
      rw [Function.update_self] at hj
      cases hj
    · rw [Function.update_of_ne hjk] at hj
      obtain ⟨hlive, hslot⟩ := h.used j g hj
      have hgf : g ≠ f := by
        rintro rfl
        rw [hk] at hslot
        exact hjk (Option.some.inj hslot).symm
      exact ⟨by simp [hgf, hlive], hslot⟩

end Slots

end Lib
end Ps2Cdvd
