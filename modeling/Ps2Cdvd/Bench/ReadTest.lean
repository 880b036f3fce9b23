import Ps2Cdvd.Lib.Memory

/-!
# The benchmarks: `read_test` and `read_test_bd`

A test reads an amount block by block and divides it by the milliseconds between two
readings of a clock.  On the IOP a reading is a pair of seconds and microseconds, on the
EE a count of ticks.  The amount is an `unsigned int` that the loops of `read_test` count
down in an `int`.

Every read brings what it was asked for, and the device of `read_test_bd` returns the
count of sectors it was asked for.

* `msecBetween_close_iff`: exactly when the milliseconds are those that have gone by;
* `benchmarks_right_iff`: exactly when a test reads the amount and divides by no zero.
-/

namespace Ps2Cdvd
namespace Bench

open Lib

section Source

/-- A reading of the IOP clock, by `SysClock2USec`. -/
structure Reading where
  seconds : Nat
  usecs : Nat

/-- `msec`, on the IOP. -/
def msecBetween (start stop : Reading) : Nat :=
  let msec := u32 (u32Sub stop.seconds start.seconds * 1000)
  if stop.usecs < start.usecs then u32Sub msec ((start.usecs - stop.usecs) / 1000)
  else u32 (msec + (stop.usecs - start.usecs) / 1000)

/-- `CLOCKS_PER_MSEC` -/
def clocksPerMsec : Nat := 147456 / 256

/-- `msec`, on the EE. -/
def msecTicks (start stop : Nat) : Int :=
  s32 (u32 ((stop - start) / clocksPerMsec))

/-- The line that is printed. -/
structure Report where
  kib : Int
  msec : Int
  blocksize : Nat
  speed : Int
deriving DecidableEq

/-- How a test ends; `bytes` are those that were read. -/
inductive Outcome
  | notFound
  | failed
  | endless
  | divisionByZero (bytes : Nat)
  | printed (bytes : Nat) (line : Report)
deriving DecidableEq

/-- How the loop of `read_test` ends. -/
inductive Loop
  | failed
  | endless
  | read (bytes : Nat)

/-- The loop of `read_test`; `ok` says which reads bring what they were asked for. -/
def readLoop (ok : Nat → Bool) (bufSize : Nat) : (fuel k : Nat) → Int → Nat → Loop
  | 0, _, _, _ => .endless
  | fuel + 1, k, sizeLeft, bytes =>
      if 0 < sizeLeft then
        -- `size_left > buf_size` compares unsigned values
        let readSize :=
          if bufSize < u32OfInt sizeLeft then bufSize else u32OfInt sizeLeft
        if ok k then
          readLoop ok bufSize fuel (k + 1) (sizeLeft - s32 readSize) (bytes + readSize)
        else .failed
      else .read bytes

/-- `printf(…, fd_size/1024, msec, buf_size, fd_size / msec)` on the IOP, where `msec` is
unsigned. -/
def printIop (bytes : Nat) (fdSize : Int) (msec blocksize : Nat) : Outcome :=
  if msec = 0 then .divisionByZero bytes
  else .printed bytes ⟨fdSize.tdiv 1024, msec, blocksize, (u32OfInt fdSize / msec : Nat)⟩

/-- The same on the EE, where `msec` is an `int`. -/
def printEe (bytes : Nat) (fdSize msec : Int) (blocksize : Nat) : Outcome :=
  if msec = 0 then .divisionByZero bytes
  else .printed bytes ⟨fdSize.tdiv 1024, msec, blocksize, fdSize.tdiv msec⟩

/-- `read_test(filename, buf_size, max_size)`, with `print` for what follows the loop; a
turn takes at least one byte, unless the blocks are empty. -/
def readTest
    (print : Nat → Int → Outcome) (opened : Bool) (ok : Nat → Bool)
    (bufSize maxSize : Nat) : Outcome :=
  if opened then
    match readLoop ok bufSize (maxSize + 1) 0 (s32 maxSize) 0 with
    | .failed => .failed
    | .endless => .endless
    | .read bytes => print bytes (s32 maxSize)
  else .notFound

/-- `read_test` of `iop/main.c` -/
def readTestIop
    (opened : Bool) (ok : Nat → Bool) (bufSize maxSize : Nat) (start stop : Reading) :
    Outcome :=
  readTest (fun bytes fdSize => printIop bytes fdSize (msecBetween start stop) bufSize)
    opened ok bufSize maxSize

/-- `read_test` of `ee/main.c` -/
def readTestEe
    (opened : Bool) (ok : Nat → Bool) (bufSize maxSize : Nat) (start stop : Nat) :
    Outcome :=
  readTest (fun bytes fdSize => printEe bytes fdSize (msecTicks start stop) bufSize)
    opened ok bufSize maxSize

/-- The loop of `read_test_bd`; `results` is what `bd->read` returns, and `fdSize` the
bits of `fd_size`. -/
def bdLoop (results : Nat → Int) (sectorSize sectorCount sectors : Nat) :
    (fuel k sector fdSize bytes : Nat) → Option (Nat × Nat)
  | 0, _, _, _, _ => none
  | fuel + 1, k, sector, fdSize, bytes =>
      if sector < sectors then
        bdLoop results sectorSize sectorCount sectors fuel (k + 1)
          (u32 (sector + sectorCount))
          (u32 (fdSize + u32OfInt (results k) * sectorSize))
          (bytes + (results k).toNat * sectorSize)
      else some (fdSize, bytes)

/-- `read_test_bd(bd, sector_count, size)`; a turn takes at least one sector, unless the
blocks are empty. -/
def readTestBd
    (results : Nat → Int) (sectorSize sectorCount size : Nat) (start stop : Reading) :
    Outcome :=
  -- `size / bd->sectorSize`
  if sectorSize = 0 then .divisionByZero 0
  else
    match
      bdLoop results sectorSize sectorCount (size / sectorSize) (size + 1) 0 0 0 0 with
    | none => .endless
    | some (fdSize, bytes) =>
        printIop bytes (s32 fdSize) (msecBetween start stop)
          (u32 (sectorSize * sectorCount))

end Source

section Purpose

/-- The microseconds of a reading. -/
def Reading.micros (r : Reading) : Nat := r.seconds * 1000000 + r.usecs

/-- Two readings of the IOP clock, of which the second is not before the first. -/
structure Span where
  start : Reading
  stop : Reading
  seconds_lt : stop.seconds < 4294967296
  start_usecs_lt : start.usecs < 1000000
  stop_usecs_lt : stop.usecs < 1000000
  order : start.micros ≤ stop.micros

/-- The microseconds that have gone by. -/
def Span.elapsed (s : Span) : Nat := s.stop.micros - s.start.micros

/-- Two readings of the EE clock, of which the second is not before the first. -/
structure Ticks where
  start : Nat
  stop : Nat
  order : start ≤ stop

/-- An amount to read, in blocks that divide it. -/
structure Job where
  block : Nat
  amount : Nat
  amount_lt : amount < 4294967296
  divides : block ∣ amount

/-- An amount to read from a device, in blocks of whole sectors that divide it. -/
structure BdJob where
  sectorSize : Nat
  sectorCount : Nat
  amount : Nat
  amount_lt : amount < 4294967296
  divides : sectorSize * sectorCount ∣ amount

/-- The milliseconds differ from the time that has gone by, by less than one. -/
def Close (s : Span) (msec : Int) : Prop :=
  1000 * msec < s.elapsed + 1000 ∧ (s.elapsed : Int) < 1000 * msec + 1000

/-- The test has read the amount, divided by no zero, and printed milliseconds that are
right. -/
def Outcome.Right (amount : Nat) (msecRight : Int → Prop) (o : Outcome) : Prop :=
  ∃ line, o = .printed amount line ∧ msecRight line.msec

/-- The milliseconds that have gone by fit an `unsigned int`. -/
def Span.Fits (s : Span) : Prop :=
  if s.stop.usecs < s.start.usecs then s.elapsed ≤ 4294967295000
  else s.elapsed < 4294967296000

/-- The readings are a second apart, or their microseconds a millisecond. -/
def Span.Long (s : Span) : Prop :=
  s.start.seconds < s.stop.seconds ∨ s.start.usecs + 1000 ≤ s.stop.usecs

/-- The readings are a millisecond apart, by an `int` of milliseconds. -/
def Ticks.Long (t : Ticks) : Prop :=
  clocksPerMsec ≤ (t.stop - t.start) % (clocksPerMsec * 4294967296)

end Purpose

section Clocks

variable (s : Span)

/-- The milliseconds of the code before they are cut to 32 bits: those that have gone by,
rounded up when a second is borrowed, and else down. -/
def Span.millis : Nat :=
  if s.stop.usecs < s.start.usecs then (s.elapsed + 999) / 1000 else s.elapsed / 1000

theorem Span.seconds_le : s.start.seconds ≤ s.stop.seconds := by
  have horder := s.order
  have hstart := s.start_usecs_lt
  have hstop := s.stop_usecs_lt
  unfold Reading.micros at horder
  omega

theorem msecBetween_millis : msecBetween s.start s.stop = u32 s.millis := by
  have horder := s.order
  have hseconds := s.seconds_lt
  have hstart := s.start_usecs_lt
  have hstop := s.stop_usecs_lt
  unfold msecBetween Span.millis Span.elapsed
  rw [u32Sub_of_le s.seconds_le hseconds]
  unfold Reading.micros at horder ⊢
  dsimp only
  split_ifs with hborrow
  · unfold u32Sub u32
    omega
  · unfold u32
    omega

theorem millis_lt_iff : s.millis < 4294967296 ↔ s.Fits := by
  unfold Span.millis Span.Fits
  split_ifs
  · omega
  · omega

theorem millis_pos_iff : 0 < s.millis ↔ s.Long := by
  have horder := s.order
  have hstart := s.start_usecs_lt
  have hstop := s.stop_usecs_lt
  unfold Span.millis Span.Long Span.elapsed
  unfold Reading.micros at horder ⊢
  split_ifs with hborrow
  · omega
  · omega

theorem close_millis : Close s s.millis := by
  unfold Close Span.millis
  split_ifs
  · omega
  · omega

/-- The milliseconds are those that have gone by exactly when they fit. -/
theorem msecBetween_close_iff :
    Close s (msecBetween s.start s.stop : Nat) ↔ s.Fits := by
  rw [msecBetween_millis, ← millis_lt_iff]
  constructor
  · intro hclose
    by_contra hlarge
    have hmillis := close_millis s
    unfold Close at hclose hmillis
    unfold u32 at hclose
    omega
  · intro hfits
    rw [u32_of_lt hfits]
    exact close_millis s

/-- The quotient of the EE is an `int` that is not zero. -/
theorem msecTicks_ne_zero_iff (t : Ticks) : msecTicks t.start t.stop ≠ 0 ↔ t.Long := by
  unfold msecTicks Ticks.Long s32 u32 clocksPerMsec
  split_ifs
  · omega
  · omega

end Clocks

section Loops

/-- The loop of `read_test` reads what is left. -/
theorem readLoop_reads (bufSize : Nat) :
    ∀ (fuel k n bytes : Nat), n < fuel → n < 2147483648 → (0 < bufSize ∨ n = 0) →
      readLoop (fun _ => true) bufSize fuel k n bytes = .read (bytes + n) := by
  intro fuel
  induction fuel with
  | zero =>
      intro _ _ _ hfuel
      omega
  | succ fuel ih =>
      intro k n bytes hfuel hsmall hblock
      rw [readLoop]
      rcases Nat.eq_zero_or_pos n with hzero | hpos
      · subst hzero
        rfl
      · have hleft : u32OfInt (n : Int) = n := u32OfInt_natCast (by omega)
        rw [if_pos (by omega), hleft]
        dsimp only
        rw [if_pos rfl]
        split_ifs with hmore
        · have hrest : (n : Int) - s32 bufSize = ((n - bufSize : Nat) : Int) := by
            rw [s32_of_lt (by omega)]
            omega
          rw [hrest, ih _ (n - bufSize) _ (by omega) (by omega) (by omega)]
          congr 1
          omega
        · have hrest : (n : Int) - s32 n = ((0 : Nat) : Int) := by
            rw [s32_of_lt hsmall]
            omega
          rw [hrest, ih _ 0 _ (by omega) (by omega) (Or.inr rfl)]
          rfl

/-- An amount that is negative as an `int` is not read at all. -/
theorem readLoop_negative
    {n : Nat}
    (hlarge : 2147483648 ≤ n)
    (hword : n < 4294967296)
    (ok : Nat → Bool) (bufSize fuel : Nat) :
    readLoop ok bufSize (fuel + 1) 0 (s32 n) 0 = .read 0 := by
  have hneg : ¬ 0 < s32 n := by
    unfold s32
    rw [if_neg (by omega)]
    omega
  rw [readLoop, if_neg hneg]

/-- What `read_test` reads. -/
theorem readTest_reads (print : Nat → Int → Outcome) (j : Job) :
    readTest print true (fun _ => true) j.block j.amount =
      print (if j.amount < 2147483648 then j.amount else 0) (s32 j.amount) := by
  rw [readTest, if_pos rfl]
  split_ifs with hsmall
  · have hblock : 0 < j.block ∨ j.amount = 0 := by
      rcases Nat.eq_zero_or_pos j.block with hzero | hpos
      · have hdivides := j.divides
        rw [hzero] at hdivides
        exact Or.inr (Nat.eq_zero_of_zero_dvd hdivides)
      · exact Or.inl hpos
    rw [s32_of_lt hsmall,
      readLoop_reads j.block _ 0 j.amount 0 (Nat.lt_succ_self _) hsmall hblock,
      Nat.zero_add]
  · rw [readLoop_negative (Nat.le_of_not_lt hsmall) j.amount_lt]

/-- The loop of `read_test_bd` reads the blocks from block `i` on. -/
theorem bdLoop_reads
    {sectorSize sectorCount blocks : Nat}
    (hcount : 0 < sectorCount)
    (hsize : 0 < sectorSize)
    (hword : sectorSize * (sectorCount * blocks) < 4294967296) :
    ∀ (fuel k i : Nat), blocks < i + fuel → i ≤ blocks →
      bdLoop (fun _ => (sectorCount : Int)) sectorSize sectorCount (sectorCount * blocks)
          fuel k (sectorCount * i) (sectorSize * (sectorCount * i))
          (sectorSize * (sectorCount * i)) =
        some
          (sectorSize * (sectorCount * blocks), sectorSize * (sectorCount * blocks)) := by
  have hsectors : sectorCount * blocks < 4294967296 :=
    lt_of_le_of_lt (Nat.le_mul_of_pos_left _ hsize) hword
  intro fuel
  induction fuel with
  | zero =>
      intro _ i hfuel hi
      omega
  | succ fuel ih =>
      intro k i hfuel hi
      rw [bdLoop]
      rcases Nat.eq_or_lt_of_le hi with hend | hmore
      · subst hend
        rw [if_neg (lt_irrefl _)]
      · have hnext : sectorCount * i + sectorCount = sectorCount * (i + 1) :=
          (Nat.mul_succ _ _).symm
        have hlow : sectorCount * (i + 1) ≤ sectorCount * blocks :=
          Nat.mul_le_mul_left _ hmore
        have hbytes :
            sectorSize * (sectorCount * i) + sectorCount * sectorSize =
              sectorSize * (sectorCount * (i + 1)) := by
          rw [← hnext, Nat.mul_add, Nat.mul_comm sectorCount sectorSize]
        have hroom :
            sectorSize * (sectorCount * (i + 1)) ≤ sectorSize * (sectorCount * blocks) :=
          Nat.mul_le_mul_left _ hlow
        have hturn : u32OfInt (sectorCount : Int) = sectorCount :=
          u32OfInt_natCast (by omega)
        rw [if_pos (by omega), hnext, hturn, Int.toNat_natCast, hbytes,
          u32_of_lt (by omega), u32_of_lt (by omega)]
        exact ih (k + 1) (i + 1) (by omega) hmore

/-- What `read_test_bd` reads. -/
theorem readTestBd_reads (s : Span) (j : BdJob) (hsize : 0 < j.sectorSize) :
    readTestBd (fun _ => j.sectorCount) j.sectorSize j.sectorCount j.amount s.start
        s.stop =
      printIop j.amount (s32 j.amount) (msecBetween s.start s.stop)
        (u32 (j.sectorSize * j.sectorCount)) := by
  obtain ⟨k, hk⟩ := j.divides
  rw [Nat.mul_assoc] at hk
  have hword := j.amount_lt
  have hsectors : j.amount / j.sectorSize = j.sectorCount * k := by
    rw [hk, Nat.mul_div_cancel_left _ hsize]
  rw [readTestBd, if_neg (by omega), hsectors]
  rcases Nat.eq_zero_or_pos j.sectorCount with hnone | hcount
  · have hzero : j.amount = 0 := by
      rw [hk, hnone, Nat.zero_mul, Nat.mul_zero]
    rw [hzero, hnone, Nat.zero_mul]
    rfl
  · have hblocks : k ≤ j.amount := by
      rw [hk]
      exact
        le_trans (Nat.le_mul_of_pos_left _ hcount) (Nat.le_mul_of_pos_left _ hsize)
    have hloop :=
      bdLoop_reads hcount hsize (by rw [← hk]; exact hword) (j.amount + 1) 0 0
        (by omega) (Nat.zero_le k)
    rw [Nat.mul_zero, Nat.mul_zero, ← hk] at hloop
    rw [hloop]

end Loops

section Results

variable {amount bytes : Nat} {msecRight : Int → Prop}

/-- A line behind a test for a zero divisor. -/
theorem divided_right_iff
    {zero : Prop} [Decidable zero] {line : Report} :
    (if zero then Outcome.divisionByZero bytes else .printed bytes line).Right amount
        msecRight ↔
      bytes = amount ∧ ¬ zero ∧ msecRight line.msec := by
  unfold Outcome.Right
  split_ifs with hzero
  · refine iff_of_false ?_ (fun h => h.2.1 hzero)
    rintro ⟨line, hline, -⟩
    cases hline
  · constructor
    · rintro ⟨line, hline, hright⟩
      cases hline
      exact ⟨rfl, hzero, hright⟩
    · rintro ⟨rfl, -, hright⟩
      exact ⟨_, rfl, hright⟩

theorem printIop_right_iff (fdSize : Int) (msec blocksize : Nat) :
    (printIop bytes fdSize msec blocksize).Right amount msecRight ↔
      bytes = amount ∧ msec ≠ 0 ∧ msecRight msec :=
  divided_right_iff

theorem printEe_right_iff (fdSize msec : Int) (blocksize : Nat) :
    (printEe bytes fdSize msec blocksize).Right amount msecRight ↔
      bytes = amount ∧ msec ≠ 0 ∧ msecRight msec :=
  divided_right_iff

/-- The milliseconds of the IOP are right and not zero. -/
theorem msecBetween_right_iff (s : Span) :
    (msecBetween s.start s.stop ≠ 0 ∧ Close s (msecBetween s.start s.stop : Nat)) ↔
      s.Long ∧ s.Fits := by
  rw [msecBetween_close_iff, ← millis_pos_iff]
  refine and_congr_left ?_
  intro hfits
  rw [msecBetween_millis, u32_of_lt ((millis_lt_iff s).mpr hfits)]
  exact Nat.pos_iff_ne_zero.symm

theorem readTestIop_right_iff (s : Span) (j : Job) :
    (readTestIop true (fun _ => true) j.block j.amount s.start s.stop).Right j.amount
        (Close s) ↔
      j.amount < 2147483648 ∧ s.Long ∧ s.Fits := by
  rw [readTestIop, readTest_reads, printIop_right_iff, msecBetween_right_iff]
  refine and_congr_left' ?_
  split_ifs with hsmall
  · exact iff_of_true rfl hsmall
  · exact iff_of_false (by omega) hsmall

theorem readTestEe_right_iff (t : Ticks) (j : Job) :
    (readTestEe true (fun _ => true) j.block j.amount t.start t.stop).Right j.amount
        (fun _ => True) ↔
      j.amount < 2147483648 ∧ t.Long := by
  rw [readTestEe, readTest_reads, printEe_right_iff, and_true, msecTicks_ne_zero_iff]
  refine and_congr_left' ?_
  split_ifs with hsmall
  · exact iff_of_true rfl hsmall
  · exact iff_of_false (by omega) hsmall

theorem readTestBd_right_iff (s : Span) (j : BdJob) :
    (readTestBd (fun _ => j.sectorCount) j.sectorSize j.sectorCount j.amount s.start
        s.stop).Right j.amount (Close s) ↔
      0 < j.sectorSize ∧ s.Long ∧ s.Fits := by
  rcases Nat.eq_zero_or_pos j.sectorSize with hzero | hpos
  · rw [readTestBd, if_pos hzero]
    refine iff_of_false ?_ (by omega)
    rintro ⟨line, hline, -⟩
    cases hline
  · rw [readTestBd_reads s j hpos, printIop_right_iff, msecBetween_right_iff,
      and_iff_right rfl, and_iff_right hpos]

/-- **The benchmarks are right** exactly as follows: the amount is positive as an `int`
(the sectors of a device not empty), the readings are far enough apart, and the
milliseconds between them fit. -/
theorem benchmarks_right_iff (s : Span) (t : Ticks) (j : Job) (d : BdJob) :
    ((readTestIop true (fun _ => true) j.block j.amount s.start s.stop).Right j.amount
          (Close s) ↔
        j.amount < 2147483648 ∧ s.Long ∧ s.Fits) ∧
      ((readTestBd (fun _ => d.sectorCount) d.sectorSize d.sectorCount d.amount s.start
          s.stop).Right d.amount (Close s) ↔
        0 < d.sectorSize ∧ s.Long ∧ s.Fits) ∧
      ((readTestEe true (fun _ => true) j.block j.amount t.start t.stop).Right j.amount
          (fun _ => True) ↔
        j.amount < 2147483648 ∧ t.Long) :=
  ⟨readTestIop_right_iff s j, readTestBd_right_iff s d, readTestEe_right_iff t j⟩

/-- One KiB that is read within half a millisecond, on the IOP, from a device and on the
EE. -/
theorem benchmarks_divide_by_zero :
    readTestIop true (fun _ => true) 512 1024 ⟨5, 100⟩ ⟨5, 600⟩ = .divisionByZero 1024 ∧
      readTestBd (fun _ => 1) 512 1 1024 ⟨5, 100⟩ ⟨5, 600⟩ = .divisionByZero 1024 ∧
      readTestEe true (fun _ => true) 512 1024 1000 1500 = .divisionByZero 1024 := by
  refine ⟨?_, ?_, ?_⟩
  · decide +kernel
  · decide +kernel
  · decide +kernel

end Results

end Bench
end Ps2Cdvd
