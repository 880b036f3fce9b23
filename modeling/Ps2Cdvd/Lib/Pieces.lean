import Ps2Cdvd.Lib.Extents
import Ps2Cdvd.Lib.Memory

/-!
# Pieces that are written to a memory one after the other

A transfer that goes to several places is a list of pieces, each of them cells for a
range of addresses.  When no address belongs to two pieces, the order does not matter:
`placeAll_covered` and `placeAll_outside` say what every address holds in the end.
-/

namespace Ps2Cdvd
namespace Lib

universe u

section Pieces

variable {β : Type u}

/-- Cells for the addresses `addr, …, addr + count - 1`. -/
structure Piece (β : Type u) where
  addr : Nat
  count : Nat
  cells : Nat → β

def Piece.Covers (p : Piece β) (x : Nat) : Prop := p.addr ≤ x ∧ x < p.addr + p.count

/-- The memory behind the pieces. -/
def placeAll (m : Nat → β) (l : List (Piece β)) : Nat → β :=
  l.foldl (fun m p => writeRange m p.addr p.count p.cells) m

variable {m : Nat → β} {l : List (Piece β)} {x : Nat}

theorem placeAll_cons (m : Nat → β) (p : Piece β) (l : List (Piece β)) :
    placeAll m (p :: l) = placeAll (writeRange m p.addr p.count p.cells) l := rfl

theorem placeAll_append
    (m : Nat → β) (l l' : List (Piece β)) :
    placeAll m (l ++ l') = placeAll (placeAll m l) l' := by
  unfold placeAll
  rw [List.foldl_append]

/-- What an address holds in the end depends on its own cell only. -/
theorem placeAll_congr
    {m' : Nat → β}
    (h : m x = m' x)
    (l : List (Piece β)) :
    placeAll m l x = placeAll m' l x := by
  induction l generalizing m m' with
  | nil => exact h
  | cons p l ih =>
      apply ih
      simp only [writeRange, h]

/-- An address in no piece keeps its cell. -/
theorem placeAll_outside
    (h : ∀ p ∈ l, ¬ p.Covers x) :
    placeAll m l x = m x := by
  induction l generalizing m with
  | nil => rfl
  | cons p l ih =>
      have hp : ¬ (p.addr ≤ x ∧ x < p.addr + p.count) := h p List.mem_cons_self
      rw [placeAll_cons, ih (fun q hq => h q (List.mem_cons_of_mem p hq)),
        writeRange_outside _ _ (by omega)]

/-- An address in a piece gets its cell from there. -/
theorem placeAll_covered
    {p : Piece β}
    (h : Exclusive Piece.Covers l)
    (hp : p ∈ l)
    (hx : p.Covers x) :
    placeAll m l x = p.cells (x - p.addr) := by
  induction l generalizing m with
  | nil => cases hp
  | cons q l ih =>
      obtain ⟨hfirst, hrest⟩ := List.pairwise_cons.mp h
      rw [placeAll_cons]
      rcases List.mem_cons.mp hp with rfl | hmem
      · have hout : ∀ r ∈ l, ¬ r.Covers x := fun r hr hrx => hfirst r hr x ⟨hx, hrx⟩
        have hin : p.addr ≤ x ∧ x < p.addr + p.count := hx
        rw [placeAll_outside hout, writeRange, if_pos hin]
      · exact ih hrest hmem

end Pieces

end Lib
end Ps2Cdvd
