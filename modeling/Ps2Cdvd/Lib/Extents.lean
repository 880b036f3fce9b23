import Mathlib.Tactic

/-!
# Tables whose entries exclude each other

A table assigns every key to the entry that covers it.  When no key is covered
twice, the entry and its index are determined by the key, and so it does not matter
where a search for it begins or what a cached index was.

* `Exclusive.eq_of_covers`: two entries of the table that cover one key are equal;
* `Exclusive.findIdx?_eq`: a search finds every index whose entry covers the key.
-/

namespace Ps2Cdvd
namespace Lib

universe u v

section Extents

variable {α : Type u} {κ : Type v}

/-- No key is covered by two entries of the table. -/
def Exclusive (covers : α → κ → Prop) (table : List α) : Prop :=
  table.Pairwise (fun a b => ∀ x, ¬ (covers a x ∧ covers b x))

variable {covers : α → κ → Prop} {table : List α} {x : κ}

/-- The index of an entry that covers a key is unique. -/
theorem Exclusive.index_eq
    {i j : Nat}
    (h : Exclusive covers table)
    (hi : i < table.length)
    (hj : j < table.length)
    (hci : covers table[i] x)
    (hcj : covers table[j] x) :
    i = j := by
  rcases Nat.lt_trichotomy i j with hlt | heq | hgt
  · exact absurd ⟨hci, hcj⟩ (List.pairwise_iff_getElem.mp h i j hi hj hlt x)
  · exact heq
  · exact absurd ⟨hcj, hci⟩ (List.pairwise_iff_getElem.mp h j i hj hi hgt x)

/-- Two entries of the table that cover one key are equal. -/
theorem Exclusive.eq_of_covers
    {a b : α}
    (h : Exclusive covers table)
    (ha : a ∈ table)
    (hb : b ∈ table)
    (hca : covers a x)
    (hcb : covers b x) :
    a = b := by
  obtain ⟨i, hi, rfl⟩ := List.mem_iff_getElem.mp ha
  obtain ⟨j, hj, rfl⟩ := List.mem_iff_getElem.mp hb
  have hij : i = j := h.index_eq hi hj hca hcb
  subst hij
  rfl

/-- A search finds the index of every entry that covers the key. -/
theorem Exclusive.findIdx?_eq
    {p : α → Bool} {i : Nat}
    (h : Exclusive covers table)
    (hp : ∀ a ∈ table, p a = true ↔ covers a x)
    (hi : i < table.length)
    (hci : covers table[i] x) :
    table.findIdx? p = some i := by
  cases hfind : table.findIdx? p with
  | none =>
      have hnone := List.findIdx?_eq_none_iff.mp hfind table[i]
        (List.getElem_mem hi)
      have hsome := (hp table[i] (List.getElem_mem hi)).mpr hci
      rw [hnone] at hsome
      cases hsome
  | some j =>
      obtain ⟨hj, hpj, -⟩ := List.findIdx?_eq_some_iff_getElem.mp hfind
      have hcj := (hp table[j] (List.getElem_mem hj)).mp hpj
      rw [h.index_eq hi hj hci hcj]

/-- A search that fails has seen no entry that covers the key. -/
theorem not_covers_of_findIdx?_none
    {p : α → Bool} {a : α}
    (hp : ∀ a ∈ table, p a = true ↔ covers a x)
    (hfind : table.findIdx? p = none)
    (ha : a ∈ table) :
    ¬ covers a x := by
  intro hca
  have hnone := List.findIdx?_eq_none_iff.mp hfind a ha
  have hsome := (hp a ha).mpr hca
  rw [hnone] at hsome
  cases hsome

end Extents

end Lib
end Ps2Cdvd
