import Mathlib.Tactic

/-!
# Memory as a function from addresses, and machine words

A memory over any cell type is a function `Nat → β`.  Every transfer of the
drivers (a device read, a copy, a DMA) is one `writeRange`: `n` consecutive
cells from an address on get the values of a source function.

A loop that moves a range piece by piece is proved by `writeRange_adjacent`:
two adjacent pieces of one source make one larger piece.

Unsigned C arithmetic is arithmetic on `Nat` followed by `u32` or `u16`.
-/

namespace Ps2Cdvd
namespace Lib

universe u

section Words

/-- The value of a `u32` after an unsigned computation. -/
def u32 (n : Nat) : Nat := n % 4294967296

/-- The value of an `unsigned short` after an unsigned computation. -/
def u16 (n : Nat) : Nat := n % 65536

/-- The value of a `u32` read as an `int`. -/
def s32 (n : Nat) : Int :=
  if n < 2147483648 then n else (n : Int) - 4294967296

/-- The value of an `unsigned short` read as a `short`. -/
def s16 (n : Nat) : Int :=
  if n < 32768 then n else (n : Int) - 65536

/-- The value of an `int` after its conversion to `u32`. -/
def u32OfInt (i : Int) : Nat := (i % 4294967296).toNat

/-- Unsigned 32-bit subtraction, which wraps below zero. -/
def u32Sub (a b : Nat) : Nat := u32 (a + (4294967296 - b))

@[simp] theorem u32_of_lt {n : Nat} (h : n < 4294967296) : u32 n = n :=
  Nat.mod_eq_of_lt h

@[simp] theorem u16_of_lt {n : Nat} (h : n < 65536) : u16 n = n :=
  Nat.mod_eq_of_lt h

theorem s32_of_lt
    {n : Nat}
    (h : n < 2147483648) :
    s32 n = n := by
  simp [s32, h]

theorem s16_of_lt
    {n : Nat}
    (h : n < 32768) :
    s16 n = n := by
  simp [s16, h]

theorem u32OfInt_natCast
    {n : Nat}
    (h : n < 4294967296) :
    u32OfInt n = n := by
  unfold u32OfInt
  omega

theorem u32_lt (n : Nat) : u32 n < 4294967296 :=
  Nat.mod_lt n (by omega)

theorem u32Sub_of_le
    {a b : Nat}
    (hba : b ≤ a)
    (ha : a < 4294967296) :
    u32Sub a b = a - b := by
  unfold u32Sub u32
  omega

end Words

section Memory

variable {β : Type u}

/-- Cells `addr, …, addr + n - 1` get `f 0, …, f (n - 1)`. -/
def writeRange (m : Nat → β) (addr n : Nat) (f : Nat → β) : Nat → β :=
  fun x => if addr ≤ x ∧ x < addr + n then f (x - addr) else m x

@[simp] theorem writeRange_inside
    (m : Nat → β) (addr : Nat) {n i : Nat} (f : Nat → β)
    (hi : i < n) :
    writeRange m addr n f (addr + i) = f i := by
  have hin : addr ≤ addr + i ∧ addr + i < addr + n := by
    omega
  simp [writeRange, hin]

theorem writeRange_outside
    (m : Nat → β) {addr n x : Nat} (f : Nat → β)
    (hx : x < addr ∨ addr + n ≤ x) :
    writeRange m addr n f x = m x := by
  have hout : ¬ (addr ≤ x ∧ x < addr + n) := by
    omega
  simp [writeRange, hout]

@[simp] theorem writeRange_zero (m : Nat → β) (addr : Nat) (f : Nat → β) :
    writeRange m addr 0 f = m := by
  funext x
  exact writeRange_outside m f (by omega)

/-- A write only looks at the source below its length. -/
theorem writeRange_congr
    (m : Nat → β) (addr n : Nat) {f g : Nat → β}
    (hfg : ∀ i, i < n → f i = g i) :
    writeRange m addr n f = writeRange m addr n g := by
  funext x
  by_cases hx : addr ≤ x ∧ x < addr + n
  · simp [writeRange, hx, hfg (x - addr) (by omega)]
  · simp [writeRange, hx]

/-- Two adjacent pieces of one source are one piece. -/
theorem writeRange_adjacent
    (m : Nat → β) (addr n k : Nat) (f : Nat → β) :
    writeRange (writeRange m addr n f) (addr + n) k (fun i => f (n + i)) =
      writeRange m addr (n + k) f := by
  funext x
  by_cases hlow : addr ≤ x ∧ x < addr + n
  · have hout : x < addr + n ∨ addr + n + k ≤ x := Or.inl hlow.2
    have hin : addr ≤ x ∧ x < addr + (n + k) := by
      omega
    rw [writeRange_outside _ _ hout]
    simp [writeRange, hlow, hin]
  · by_cases hhigh : addr + n ≤ x ∧ x < addr + n + k
    · have hin : addr ≤ x ∧ x < addr + (n + k) := by
        omega
      have hidx : n + (x - (addr + n)) = x - addr := by
        omega
      simp [writeRange, hhigh, hin, hidx]
    · have hin : ¬ (addr ≤ x ∧ x < addr + (n + k)) := by
        omega
      simp only [writeRange]
      rw [if_neg hhigh, if_neg hlow, if_neg hin]

end Memory

end Lib
end Ps2Cdvd
