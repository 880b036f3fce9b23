import Ps2Cdvd.Read.Whole

/-!
# What a read delivers: tiling and the PS2LOGO decryptor

A request reaches the device in chunks: two sectors at a time through `cdvdman_buf`, at
most 8 with `ACCU_READS`, and otherwise at once.  For a chunk that begins below sector 13
the decryptor takes the first byte of the chunk as its key and goes over the whole chunk,
so what it makes of a sector depends on where the chunk begins.

* `cdvdmanRead_verbatim`: behind the logo a request delivers the image, writes nothing
  else, and its device calls tile the sectors asked for;
* `cdvdmanRead_unsplit_iff`: exactly when the way a request is split makes no difference.
-/

namespace Ps2Cdvd
namespace Read

open Lib

section Purpose

/-- The events are device calls that succeed and cover the `n` sectors from `lsn` on, one
after the other. -/
def Tiles : List ReadEvent → (lsn n : Nat) → Prop
  | [], _, n => n = 0
  | .call l k ok :: rest, lsn, n =>
      ok = true ∧ l = lsn ∧ 0 < k ∧ k ≤ n ∧ Tiles rest (lsn + k) (n - k)
  | .brk :: _, _, _ => False

/-- A request for `sectors` sectors from `lsn` on has left them at `buf` as they are on
the disc, has written nothing else but `cdvdman_buf`, which is used for an unaligned buffer
only, and its device calls tile the sectors. -/
structure Verbatim
    (image : Nat → UInt8) (cdvdmanBuf lsn sectors buf : Nat) (before after : DriveState) :
    Prop where
  bytes : ∀ i, i < 2048 * sectors → after.mem (buf + i) = image (2048 * lsn + i)
  frame :
    ∀ x, (x < buf ∨ buf + 2048 * sectors ≤ x) →
      (buf % 4 ≠ 0 → x < cdvdmanBuf ∨ cdvdmanBuf + 4096 ≤ x) →
      after.mem x = before.mem x
  tiles : Tiles after.events lsn sectors

/-- No call of the device fails, and no break arrives. -/
def Fine (env : Nat → DeviceTurn) : Prop :=
  ∀ t, ¬ (env t).Disturbed

/-- A buffer of `sectors` sectors apart from `cdvdman_buf`. -/
def Apart (cdvdmanBuf sectors buf : Nat) : Prop :=
  buf + 2048 * sectors ≤ cdvdmanBuf ∨ cdvdmanBuf + 4096 ≤ buf

/-- The decryptor does not show how the request for `n + m` sectors from `lsn` on is
split: into two requests, or by the mode; and it leaves the sectors behind the logo. -/
structure Unsplit (image : Nat → UInt8) (cdvdmanBuf lsn n m : Nat) : Prop where
  requests :
    ∀ cfg env env₁ env₂ buf s, Fine env → Fine env₁ → Fine env₂ →
      Apart cdvdmanBuf (n + m) buf →
      ∀ i, i < 2048 * (n + m) →
        (cdvdmanRead cfg image env cdvdmanBuf lsn (n + m) buf s).mem (buf + i) =
          (cdvdmanRead cfg image env₂ cdvdmanBuf (lsn + n) m (buf + 2048 * n)
            (cdvdmanRead cfg image env₁ cdvdmanBuf lsn n buf s)).mem (buf + i)
  modes :
    ∀ cfg cfg' env env' buf buf' s s', Fine env → Fine env' →
      Apart cdvdmanBuf (n + m) buf → Apart cdvdmanBuf (n + m) buf' →
      ∀ i, i < 2048 * (n + m) →
        (cdvdmanRead cfg image env cdvdmanBuf lsn (n + m) buf s).mem (buf + i) =
          (cdvdmanRead cfg' image env' cdvdmanBuf lsn (n + m) buf' s').mem (buf' + i)
  behind :
    ∀ cfg env buf s, Fine env → Apart cdvdmanBuf (n + m) buf →
      ∀ t, 13 ≤ t → lsn ≤ t → t < lsn + (n + m) → ∀ j, j < 2048 →
        (cdvdmanRead cfg image env cdvdmanBuf lsn (n + m) buf s).mem
            (buf + (2048 * (t - lsn) + j)) =
          image (2048 * t + j)

end Purpose

section Tiling

variable
  {cfg : Settings}
  {image : Nat → UInt8}
  {env : Nat → DeviceTurn}
  {cdvdmanBuf : Nat}

/-- A turn of the loop that nothing disturbs. -/
theorem cdvdmanReadLoop_fine
    {fuel lsn ptr remaining : Nat} {s : DriveState}
    (henv : Fine env)
    (herr : s.err = cdvdErrNo)
    (hpos : 0 < remaining) :
    cdvdmanReadLoop cfg image env (fuel + 1) lsn ptr remaining s =
      cdvdmanReadLoop cfg image env fuel (u32 (lsn + sectorsToRead cfg remaining))
        (ptr + 2048 * sectorsToRead cfg remaining)
        (remaining - sectorsToRead cfg remaining)
        (afterCall image lsn ptr (sectorsToRead cfg remaining) s) := by
  have hturn := henv s.turn
  simp only [DeviceTurn.Disturbed, not_or, Bool.not_eq_true] at hturn
  obtain ⟨-, hbefore, hbetween, hfails, hafter⟩ := hturn
  rw [cdvdmanReadLoop_turn herr hpos, hbefore, hbetween, hfails, hafter]
  rfl

/-- The device calls of an undisturbed loop. -/
theorem cdvdmanReadLoop_tiles
    (henv : Fine env) :
    ∀ (fuel lsn ptr remaining : Nat) (s : DriveState),
      s.err = cdvdErrNo → remaining ≤ fuel → lsn + remaining ≤ 4294967296 →
      ∃ log,
        (cdvdmanReadLoop cfg image env fuel lsn ptr remaining s).events =
          s.events ++ log ∧
        Tiles log lsn remaining := by
  intro fuel
  induction fuel with
  | zero =>
      intro lsn ptr remaining s _ hfuel _
      exact ⟨[], (List.append_nil _).symm, by show remaining = 0; omega⟩
  | succ fuel ih =>
      intro lsn ptr remaining s herr hfuel hlsn
      rcases Nat.eq_zero_or_pos remaining with hzero | hpos
      · subst hzero
        rw [cdvdmanReadLoop_zero]
        exact ⟨[], (List.append_nil _).symm, rfl⟩
      · have hn : 0 < sectorsToRead cfg remaining := sectorsToRead_pos hpos
        have hle : sectorsToRead cfg remaining ≤ remaining := sectorsToRead_le _
        rw [cdvdmanReadLoop_fine henv herr hpos]
        rcases Nat.eq_or_lt_of_le hle with hall | hmore
        · -- the last device call
          rw [hall, Nat.sub_self, cdvdmanReadLoop_zero]
          exact ⟨[.call lsn remaining true], rfl, rfl, rfl, hpos, le_rfl,
            Nat.sub_self _⟩
        · rw [u32_of_lt (by omega)]
          obtain ⟨log, hevents, htiles⟩ :=
            ih (lsn + sectorsToRead cfg remaining)
              (ptr + 2048 * sectorsToRead cfg remaining)
              (remaining - sectorsToRead cfg remaining)
              (afterCall image lsn ptr (sectorsToRead cfg remaining) s) herr (by omega)
              (by omega)
          refine ⟨.call lsn (sectorsToRead cfg remaining) true :: log, ?_, rfl, rfl, hn,
            hle, htiles⟩
          rw [hevents]
          exact List.append_assoc _ _ _

/-- The device calls of an undisturbed double-copy loop. -/
theorem pieceLog_tiles
    (henv : Fine env) :
    ∀ (fuel t lsn sectors : Nat),
      sectors ≤ fuel → lsn + sectors ≤ 4294967296 →
      Tiles (pieceLog env fuel t lsn sectors) lsn sectors := by
  intro fuel
  induction fuel with
  | zero =>
      intro t lsn sectors hfuel _
      show sectors = 0
      omega
  | succ fuel ih =>
      intro t lsn sectors hfuel hlsn
      rcases Nat.eq_zero_or_pos sectors with hzero | hpos
      · subst hzero
        rw [pieceLog_zero]
        rfl
      · have hn : 0 < min sectors cdvdmanBufSectors := lt_min hpos (by decide)
        have hle : min sectors cdvdmanBufSectors ≤ sectors := min_le_left _ _
        rw [pieceLog_succ hpos, (pieceEvents_of_undisturbed (henv t) _ _).1]
        refine ⟨rfl, rfl, hn, hle, ?_⟩
        rcases Nat.eq_or_lt_of_le hle with hall | hmore
        · rw [hall, Nat.sub_self]
          show Tiles (pieceLog env fuel (t + 1) _ 0) _ 0
          rw [pieceLog_zero]
          rfl
        · rw [u32_of_lt (by omega)]
          exact ih _ _ _ (by omega) (by omega)

/-- **Behind the logo a request is verbatim**, for every buffer and mode. -/
theorem cdvdmanRead_verbatim
    {lsn sectors buf : Nat}
    (hlogo : 13 ≤ lsn)
    (hlsn : lsn + sectors ≤ 4294967296)
    (henv : Fine env)
    (hapart : buf % 4 ≠ 0 → Apart cdvdmanBuf sectors buf)
    (s : DriveState) :
    Verbatim image cdvdmanBuf lsn sectors buf s
      (cdvdmanRead cfg image env cdvdmanBuf lsn sectors buf s) := by
  refine ⟨?_, ?_, ?_⟩
  · intro i hi
    have hout : buf % 4 ≠ 0 → buf + i < cdvdmanBuf ∨ cdvdmanBuf + 4096 ≤ buf + i := by
      intro hbuf
      rcases hapart hbuf with hlow | hhigh
      · omega
      · omega
    rw [cdvdmanRead_chunks henv hlsn hapart hout, chunkBytes_behind _ _ hlogo,
      writeRange_inside _ _ _ hi]
    rfl
  · intro x hx hout
    rw [cdvdmanRead_chunks henv hlsn hapart hout, writeRange_outside _ _ hx]
  · have hturn := henv 0
    simp only [DeviceTurn.Disturbed, not_or, Bool.not_eq_true] at hturn
    rcases Nat.eq_zero_or_pos sectors with rfl | hpos
    · rw [(cdvdmanRead_none cfg image env cdvdmanBuf lsn buf s).2.2, hturn.1,
        hturn.2.1, Bool.and_false]
      rfl
    by_cases hbuf : buf % 4 = 0
    · rw [(cdvdmanRead_aligned_log cfg image env cdvdmanBuf hpos hbuf lsn s).2]
      obtain ⟨log, hevents, htiles⟩ :=
        @cdvdmanReadLoop_tiles cfg image env henv sectors lsn buf sectors
          (alignedStart env s) rfl le_rfl hlsn
      rw [alignedStart_events, hturn.1] at hevents
      rw [hevents]
      exact htiles
    · rw [(cdvdmanRead_unaligned cfg image env cdvdmanBuf hpos hbuf lsn s).1]
      exact pieceLog_tiles henv sectors 0 lsn sectors le_rfl hlsn

/-- Nineteen sectors to an unaligned buffer. -/
theorem cdvdmanRead_verbatim_unaligned :
    Verbatim (fun i => UInt8.ofNat (i / 2048)) 0x8000 16 19 0x10001 restingDrive
      (cdvdmanRead ⟨iopcoreCompatAccuReads, 0⟩ (fun i => UInt8.ofNat (i / 2048))
        quietTurns 0x8000 16 19 0x10001 restingDrive) :=
  cdvdmanRead_verbatim (by decide) (by decide) quietTurns_undisturbed
    (fun _ => Or.inr (by decide)) restingDrive

end Tiling

section Keys

/-- The decryptor with this key leaves every byte of the sector. -/
def Fixed (image : Nat → UInt8) (t : Nat) (key : UInt8) : Prop :=
  ∀ j, j < 2048 → logoByte key (image (2048 * t + j)) = image (2048 * t + j)

/-- The two keys make the same of sector `t`: they are the same, or one is 0, for which
the decryptor does nothing, and the other one leaves the sector. -/
def KeysAgree (image : Nat → UInt8) (t : Nat) (key key' : UInt8) : Prop :=
  key = key' ∨ (key = 0 ∧ Fixed image t key') ∨ (key' = 0 ∧ Fixed image t key)

variable {image : Nat → UInt8} {t : Nat} {key key' : UInt8}

/-- The rotation of the decryptor can be undone. -/
theorem rotate_back (x : UInt8) :
    ((x <<< 3 ||| x >>> 5) >>> 3) ||| ((x <<< 3 ||| x >>> 5) <<< 5) = x := by
  have hall :
      ∀ n : Fin 256,
        (((UInt8.ofFin n) <<< 3 ||| (UInt8.ofFin n) >>> 5) >>> 3) |||
            (((UInt8.ofFin n) <<< 3 ||| (UInt8.ofFin n) >>> 5) <<< 5) =
          UInt8.ofFin n := by
    decide +kernel
  exact hall x.toFin

/-- Two keys that make the same of a byte are the same. -/
theorem logoByte_key_injective
    {b : UInt8}
    (h : logoByte key b = logoByte key' b) :
    key = key' := by
  unfold logoByte at h
  have hxor : b ^^^ key = b ^^^ key' := by
    rw [← rotate_back (b ^^^ key), h, rotate_back]
  exact (UInt8.xor_right_inj b).mp hxor

theorem keysAgree_iff :
    KeysAgree image t key key' ↔
      ∀ j, j < 2048 →
        decode key (image (2048 * t + j)) = decode key' (image (2048 * t + j)) := by
  unfold decode
  constructor
  · rintro (heq | ⟨hzero, hfixed⟩ | ⟨hzero, hfixed⟩) j hj
    · rw [heq]
    · rw [if_pos hzero]
      split_ifs
      · rfl
      · exact (hfixed j hj).symm
    · rw [if_pos hzero]
      split_ifs
      · rfl
      · exact hfixed j hj
  · intro h
    by_cases hkey : key = 0
    · by_cases hkey' : key' = 0
      · exact Or.inl (hkey.trans hkey'.symm)
      · refine Or.inr (Or.inl ⟨hkey, ?_⟩)
        intro j hj
        have hbyte := h j hj
        rw [if_pos hkey, if_neg hkey'] at hbyte
        exact hbyte.symm
    · by_cases hkey' : key' = 0
      · refine Or.inr (Or.inr ⟨hkey', ?_⟩)
        intro j hj
        have hbyte := h j hj
        rw [if_neg hkey, if_pos hkey'] at hbyte
        exact hbyte
      · have hbyte := h 0 (by decide)
        rw [if_neg hkey, if_neg hkey'] at hbyte
        exact Or.inl (logoByte_key_injective hbyte)

end Keys

section Splits

/-- For sector `t`, a chunk that begins with sector `start` has the effect of one that
begins with sector `lsn`. -/
def SameAs (image : Nat → UInt8) (lsn t start : Nat) : Prop :=
  KeysAgree image t (keyAt image start) (keyAt image lsn)

/-- The first sector of the chunk of `w` sectors that reads sector `t` of a request. -/
def chunkStart (w lsn t : Nat) : Nat := lsn + (t - lsn) / w * w

/-- The sectors from which sector `t` of a request may be read, in the three modes. -/
def startsOf (lsn t : Nat) : List Nat := [lsn, chunkStart 2 lsn t, chunkStart 8 lsn t]

/-- Every chunk in which sector `t` may be read has the effect of one from `lsn` on, with
the request whole or split after `n` sectors; and behind the logo it has none. -/
def SectorUnsplit (image : Nat → UInt8) (lsn n t : Nat) : Prop :=
  (∀ start ∈ startsOf lsn t, SameAs image lsn t start) ∧
  (lsn + n ≤ t → ∀ start ∈ startsOf (lsn + n) t, SameAs image lsn t start) ∧
  (13 ≤ t → KeysAgree image t (keyAt image lsn) 0)

variable
  {cfg : Settings}
  {image : Nat → UInt8}
  {env : Nat → DeviceTurn}
  {cdvdmanBuf lsn n m : Nat}

/-- A byte of sector `t`, read in chunks of `w` sectors. -/
theorem chunkBytes_at
    {w t j : Nat}
    (ht : lsn ≤ t)
    (hj : j < 2048) :
    chunkBytes image w lsn (2048 * (t - lsn) + j) =
      decode (keyAt image (chunkStart w lsn t)) (image (2048 * t + j)) := by
  have hsector : (2048 * (t - lsn) + j) / 2048 = t - lsn := by
    omega
  have hbyte : 2048 * lsn + (2048 * (t - lsn) + j) = 2048 * t + j := by
    omega
  rw [chunkBytes, hsector, hbyte, chunkStart]

/-- The chunk of a request that reads sector `t` begins with one of `startsOf`. -/
theorem chunkStart_mem
    {sectors buf t : Nat}
    (hlow : lsn ≤ t)
    (hhigh : t < lsn + sectors) :
    chunkStart (chunkWidth cfg sectors buf) lsn t ∈ startsOf lsn t := by
  unfold chunkWidth cdvdmanBufSectors startsOf
  split_ifs
  · simp
  · simp
  · have hzero : (t - lsn) / sectors = 0 := Nat.div_eq_of_lt (by omega)
    simp [chunkStart, hzero]

/-- What a request leaves in its buffer. -/
theorem cdvdmanRead_byte
    {sectors buf t j : Nat} {s : DriveState}
    (henv : Fine env)
    (hlsn : lsn + sectors ≤ 4294967296)
    (hapart : Apart cdvdmanBuf sectors buf)
    (hlow : lsn ≤ t)
    (hhigh : t < lsn + sectors)
    (hj : j < 2048) :
    (cdvdmanRead cfg image env cdvdmanBuf lsn sectors buf s).mem
        (buf + (2048 * (t - lsn) + j)) =
      decode (keyAt image (chunkStart (chunkWidth cfg sectors buf) lsn t))
        (image (2048 * t + j)) := by
  have hout :
      buf + (2048 * (t - lsn) + j) < cdvdmanBuf ∨
        cdvdmanBuf + 4096 ≤ buf + (2048 * (t - lsn) + j) := by
    rcases hapart with hbefore | hafter
    · omega
    · omega
  rw [cdvdmanRead_chunks henv hlsn (fun _ => hapart) (fun _ => hout),
    writeRange_inside _ _ _ (by omega), chunkBytes_at hlow hj]

/-- A request leaves the rest of the caller's memory. -/
theorem cdvdmanRead_rest
    {sectors buf x : Nat} {s : DriveState}
    (henv : Fine env)
    (hlsn : lsn + sectors ≤ 4294967296)
    (hapart : Apart cdvdmanBuf sectors buf)
    (hx : x < buf ∨ buf + 2048 * sectors ≤ x)
    (hout : x < cdvdmanBuf ∨ cdvdmanBuf + 4096 ≤ x) :
    (cdvdmanRead cfg image env cdvdmanBuf lsn sectors buf s).mem x = s.mem x := by
  rw [cdvdmanRead_chunks henv hlsn (fun _ => hapart) (fun _ => hout),
    writeRange_outside _ _ hx]

/-- What a request in two parts leaves in its buffer. -/
theorem cdvdmanRead_twice_byte
    {env₁ env₂ : Nat → DeviceTurn} {buf t j : Nat} {s : DriveState}
    (henv₁ : Fine env₁)
    (henv₂ : Fine env₂)
    (hlsn : lsn + (n + m) ≤ 4294967296)
    (hapart : Apart cdvdmanBuf (n + m) buf)
    (hlow : lsn ≤ t)
    (hhigh : t < lsn + (n + m))
    (hj : j < 2048) :
    (cdvdmanRead cfg image env₂ cdvdmanBuf (lsn + n) m (buf + 2048 * n)
        (cdvdmanRead cfg image env₁ cdvdmanBuf lsn n buf s)).mem
        (buf + (2048 * (t - lsn) + j)) =
      decode
        (keyAt image
          (if t < lsn + n then chunkStart (chunkWidth cfg n buf) lsn t
          else chunkStart (chunkWidth cfg m (buf + 2048 * n)) (lsn + n) t))
        (image (2048 * t + j)) := by
  have hfirst : Apart cdvdmanBuf n buf := by
    rcases hapart with hbefore | hafter
    · exact Or.inl (by omega)
    · exact Or.inr hafter
  have hsecond : Apart cdvdmanBuf m (buf + 2048 * n) := by
    rcases hapart with hbefore | hafter
    · exact Or.inl (by omega)
    · exact Or.inr (by omega)
  split_ifs with hpart
  · have hout :
        buf + (2048 * (t - lsn) + j) < cdvdmanBuf ∨
          cdvdmanBuf + 4096 ≤ buf + (2048 * (t - lsn) + j) := by
      rcases hapart with hbefore | hafter
      · omega
      · omega
    rw [cdvdmanRead_rest henv₂ (by omega) hsecond (Or.inl (by omega)) hout,
      cdvdmanRead_byte henv₁ (by omega) hfirst hlow hpart hj]
  · have hat :
        buf + (2048 * (t - lsn) + j) =
          buf + 2048 * n + (2048 * (t - (lsn + n)) + j) := by
      omega
    rw [hat, cdvdmanRead_byte henv₂ (by omega) hsecond (by omega) (by omega) hj]

/-- Every start is the one of a mode, with a buffer as high as needed. -/
theorem startsOf_reached
    {t start : Nat}
    (hstart : start ∈ startsOf lsn t)
    (base : Nat) :
    ∃ cfg buf, base ≤ buf ∧
      ∀ sectors k, t < lsn + sectors →
        chunkStart (chunkWidth cfg sectors (buf + 2048 * k)) lsn t = start := by
  simp only [startsOf, List.mem_cons, List.not_mem_nil, or_false] at hstart
  rcases hstart with rfl | rfl | rfl
  · refine ⟨⟨0, 0⟩, 4 * base, by omega, ?_⟩
    intro sectors k ht
    have hzero : (t - start) / sectors = 0 := by
      rcases Nat.eq_zero_or_pos sectors with rfl | hpos
      · exact Nat.div_zero _
      · exact Nat.div_eq_of_lt (by omega)
    rw [chunkWidth, if_neg (by omega), if_neg (by decide), chunkStart, hzero,
      Nat.zero_mul, Nat.add_zero]
  · refine ⟨⟨0, 0⟩, 4 * base + 1, by omega, ?_⟩
    intro sectors k _
    rw [chunkWidth, if_pos (by omega)]
    rfl
  · refine ⟨⟨iopcoreCompatAccuReads, 0⟩, 4 * base, by omega, ?_⟩
    intro sectors k _
    rw [chunkWidth, if_neg (by omega), if_pos (by decide)]

/-- Where every chunk has the effect of one from `lsn` on, a request delivers what such a
chunk does. -/
theorem cdvdmanRead_same_byte
    {sectors buf t j : Nat} {s : DriveState}
    (hsame : ∀ start ∈ startsOf lsn t, SameAs image lsn t start)
    (henv : Fine env)
    (hlsn : lsn + sectors ≤ 4294967296)
    (hapart : Apart cdvdmanBuf sectors buf)
    (hlow : lsn ≤ t)
    (hhigh : t < lsn + sectors)
    (hj : j < 2048) :
    (cdvdmanRead cfg image env cdvdmanBuf lsn sectors buf s).mem
        (buf + (2048 * (t - lsn) + j)) =
      decode (keyAt image lsn) (image (2048 * t + j)) := by
  rw [cdvdmanRead_byte henv hlsn hapart hlow hhigh hj]
  exact keysAgree_iff.mp (hsame _ (chunkStart_mem hlow hhigh)) j hj

/-- When no sector shows the split, no request does. -/
theorem unsplit_of_sectors
    (hlsn : lsn + (n + m) ≤ 4294967296)
    (hsectors : ∀ t, lsn ≤ t → t < lsn + (n + m) → SectorUnsplit image lsn n t) :
    Unsplit image cdvdmanBuf lsn n m := by
  have hindex :
      ∀ i, i < 2048 * (n + m) →
        ∃ t j, i = 2048 * (t - lsn) + j ∧ lsn ≤ t ∧ t < lsn + (n + m) ∧ j < 2048 := by
    intro i hi
    exact ⟨lsn + i / 2048, i % 2048, by omega, by omega, by omega, by omega⟩
  refine ⟨?_, ?_, ?_⟩
  · intro cfg env env₁ env₂ buf s henv henv₁ henv₂ hapart i hi
    obtain ⟨t, j, rfl, hlow, hhigh, hj⟩ := hindex i hi
    obtain ⟨hwhole, hrest, -⟩ := hsectors t hlow hhigh
    rw [cdvdmanRead_same_byte hwhole henv hlsn hapart hlow hhigh hj,
      cdvdmanRead_twice_byte henv₁ henv₂ hlsn hapart hlow hhigh hj]
    split_ifs with hpart
    · exact (keysAgree_iff.mp (hwhole _ (chunkStart_mem hlow hpart)) j hj).symm
    · have hmem :
          chunkStart (chunkWidth cfg m (buf + 2048 * n)) (lsn + n) t ∈
            startsOf (lsn + n) t :=
        chunkStart_mem (by omega) (by omega)
      exact (keysAgree_iff.mp (hrest (by omega) _ hmem) j hj).symm
  · intro cfg cfg' env env' buf buf' s s' henv henv' hapart hapart' i hi
    obtain ⟨t, j, rfl, hlow, hhigh, hj⟩ := hindex i hi
    obtain ⟨hwhole, -, -⟩ := hsectors t hlow hhigh
    rw [cdvdmanRead_same_byte hwhole henv hlsn hapart hlow hhigh hj,
      cdvdmanRead_same_byte hwhole henv' hlsn hapart' hlow hhigh hj]
  · intro cfg env buf s henv hapart t hbehind hlow hhigh j hj
    obtain ⟨hwhole, -, hplain⟩ := hsectors t hlow hhigh
    rw [cdvdmanRead_same_byte hwhole henv hlsn hapart hlow hhigh hj]
    exact keysAgree_iff.mp (hplain hbehind) j hj

/-- When no request shows the split, no sector does. -/
theorem sectors_of_unsplit
    (hlsn : lsn + (n + m) ≤ 4294967296)
    (h : Unsplit image cdvdmanBuf lsn n m)
    {t : Nat}
    (hlow : lsn ≤ t)
    (hhigh : t < lsn + (n + m)) :
    SectorUnsplit image lsn n t := by
  obtain ⟨plain, buf, hbuf, hplain⟩ :=
    startsOf_reached (List.mem_cons_self : lsn ∈ startsOf lsn t) (cdvdmanBuf + 4096)
  have hwhole : ∀ start ∈ startsOf lsn t, SameAs image lsn t start := by
    intro start hstart
    obtain ⟨cfg, buf', hbuf', hmode⟩ :=
      startsOf_reached hstart (cdvdmanBuf + 4096)
    refine keysAgree_iff.mpr ?_
    intro j hj
    have hsame :=
      h.modes cfg plain quietTurns quietTurns buf' buf restingDrive restingDrive
        quietTurns_undisturbed quietTurns_undisturbed (Or.inr hbuf') (Or.inr hbuf)
        (2048 * (t - lsn) + j) (by omega)
    have hstart' := hmode (n + m) 0 hhigh
    have hstart₀ := hplain (n + m) 0 hhigh
    rw [Nat.mul_zero, Nat.add_zero] at hstart' hstart₀
    rw [cdvdmanRead_byte quietTurns_undisturbed hlsn (Or.inr hbuf') hlow hhigh hj,
      cdvdmanRead_byte quietTurns_undisturbed hlsn (Or.inr hbuf) hlow hhigh hj, hstart',
      hstart₀] at hsame
    exact hsame
  refine ⟨hwhole, ?_, ?_⟩
  · intro hrest start hstart
    obtain ⟨cfg, buf', hbuf', hmode⟩ :=
      startsOf_reached hstart (cdvdmanBuf + 4096)
    refine keysAgree_iff.mpr ?_
    intro j hj
    have hsame :=
      h.requests cfg quietTurns quietTurns quietTurns buf' restingDrive quietTurns_undisturbed
        quietTurns_undisturbed quietTurns_undisturbed (Or.inr hbuf') (2048 * (t - lsn) + j) (by omega)
    rw [cdvdmanRead_same_byte hwhole quietTurns_undisturbed hlsn (Or.inr hbuf') hlow hhigh hj,
      cdvdmanRead_twice_byte quietTurns_undisturbed quietTurns_undisturbed hlsn (Or.inr hbuf') hlow
        hhigh hj, if_neg (by omega), hmode m n (by omega)] at hsame
    exact hsame.symm
  · intro hbehind
    refine keysAgree_iff.mpr ?_
    intro j hj
    have hleft :=
      h.behind plain quietTurns buf restingDrive quietTurns_undisturbed (Or.inr hbuf) t hbehind
        hlow hhigh j hj
    rw [cdvdmanRead_same_byte hwhole quietTurns_undisturbed hlsn (Or.inr hbuf) hlow hhigh hj]
      at hleft
    rw [hleft, decode, if_pos rfl]

/-- **The decryptor does not show how a request is split** exactly when no sector of the
request does. -/
theorem cdvdmanRead_unsplit_iff
    (hlsn : lsn + (n + m) ≤ 4294967296) :
    Unsplit image cdvdmanBuf lsn n m ↔
      ∀ t, lsn ≤ t → t < lsn + (n + m) → SectorUnsplit image lsn n t := by
  constructor
  · intro h t hlow hhigh
    exact sectors_of_unsplit hlsn h hlow hhigh
  · intro hsectors
    exact unsplit_of_sectors hlsn hsectors

/-- A disc of zeros. -/
theorem cdvdmanRead_unsplit_zeros :
    Unsplit (fun _ => 0) 0x8000 0 1 1 ↔
      ∀ t, 0 ≤ t → t < 0 + (1 + 1) → SectorUnsplit (fun _ => 0) 0 1 t :=
  cdvdmanRead_unsplit_iff (by decide)

/-- Sector 0 with ones and sector 1 with twos: read together, sector 1 is decoded with the
key of sector 0. -/
theorem cdvdmanRead_shows_split :
    ¬ Unsplit (fun i => if i < 2048 then 1 else 2) 0x8000 0 1 1 := by
  intro h
  have hsame :=
    h.requests ⟨0, 0⟩ quietTurns quietTurns quietTurns 0x10000 restingDrive
      quietTurns_undisturbed quietTurns_undisturbed quietTurns_undisturbed (Or.inr (by decide)) 2048
      (by decide)
  exact absurd hsame (by decide +kernel)

end Splits

end Read
end Ps2Cdvd
