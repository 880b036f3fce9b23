import Mathlib.Tactic

/-!
# Disc positions: `sceCdPosToInt` and `sceCdIntToPos`

A sector number, plus 150, is a minute, a second and a sector of 75 to the second.  Each
is kept in a byte, in packed decimal.  `sceCdIntToPos` packs two digits; `sceCdPosToInt`
takes the tens digit from bit 16 of the byte on, where there is none.

* `sceCdIntToPos_number`: the encoder writes the location of the position;
* `sceCdPosToInt_location`: the decoder reads the last digits alone;
* `positions_roundTrip_iff`: exactly when either direction is the identity.
-/

namespace Ps2Cdvd
namespace Read

section Source

/-- `cd_location_t` -/
@[ext] structure CdLocation where
  minute : UInt8
  second : UInt8
  sector : UInt8
  track : UInt8
deriving DecidableEq

/-- `((u32)field >> 16) * 10 + ((u32)field & 0xF)` -/
def locationDigits (field : UInt8) : Nat :=
  field.toNat / 65536 * 10 + field.toNat % 16

/-- `sceCdPosToInt(p)` -/
def sceCdPosToInt (p : CdLocation) : Int :=
  let result := locationDigits p.minute
  let result := result * 60 + locationDigits p.second
  let result := result * 75 + locationDigits p.sector
  (result : Int) - 150

/-- `sceCdIntToPos(i, p)`; division in C rounds to zero. -/
def sceCdIntToPos (i : Int) (p : CdLocation) : CdLocation :=
  let i := i + 150
  let se := i.tdiv 75
  let sc := i - se * 75
  let mi := se.tdiv 60
  let se := se - mi * 60
  { p with
    sector := UInt8.ofInt ((sc - sc.tdiv 10 * 10) + sc.tdiv 10 * 16)
    second := UInt8.ofInt (se.tdiv 10 * 16 + se - se.tdiv 10 * 10)
    minute := UInt8.ofInt (mi.tdiv 10 * 16 + mi - mi.tdiv 10 * 10) }

end Source

section Purpose

/-- Minute, second and sector. -/
@[ext] structure Msf where
  minute : Nat
  second : Nat
  sector : Nat
  minute_lt : minute < 100
  second_lt : second < 60
  sector_lt : sector < 75

/-- The sectors before a position. -/
def Msf.number (m : Msf) : Nat := (m.minute * 60 + m.second) * 75 + m.sector

/-- The position behind `n` sectors. -/
def Msf.ofNumber (n : Nat) (h : n < 450000) : Msf where
  minute := n / 75 / 60
  second := n / 75 % 60
  sector := n % 75
  minute_lt := by omega
  second_lt := Nat.mod_lt _ (by omega)
  sector_lt := Nat.mod_lt _ (by omega)

/-- Two decimal digits in a byte. -/
def packed (n : Nat) : UInt8 := UInt8.ofNat (n / 10 * 16 + n % 10)

/-- The location of a position. -/
def Msf.location (m : Msf) (track : UInt8) : CdLocation where
  minute := packed m.minute
  second := packed m.second
  sector := packed m.sector
  track := track

/-- No field has a tens digit. -/
def Msf.OneDigit (m : Msf) : Prop :=
  m.minute < 10 ∧ m.second < 10 ∧ m.sector < 10

/-- A byte that holds two decimal digits of a number below `bound`. -/
def PackedBelow (bound : Nat) (field : UInt8) : Prop :=
  field.toNat / 16 < 10 ∧ field.toNat % 16 < 10 ∧
    field.toNat / 16 * 10 + field.toNat % 16 < bound

/-- A location whose fields are valid. -/
structure ValidLocation extends CdLocation where
  minute_packed : PackedBelow 100 minute
  second_packed : PackedBelow 60 second
  sector_packed : PackedBelow 75 sector

/-- The three fields of a position are the same. -/
def CdLocation.SameFields (p q : CdLocation) : Prop :=
  p.minute = q.minute ∧ p.second = q.second ∧ p.sector = q.sector

/-- A sector number whose minute has two digits. -/
structure SectorNumber where
  value : Int
  low : -150 ≤ value
  high : value < 449850

/-- The position of a valid location. -/
def ValidLocation.msf (p : ValidLocation) : Msf where
  minute := p.minute.toNat / 16 * 10 + p.minute.toNat % 16
  second := p.second.toNat / 16 * 10 + p.second.toNat % 16
  sector := p.sector.toNat / 16 * 10 + p.sector.toNat % 16
  minute_lt := p.minute_packed.2.2
  second_lt := p.second_packed.2.2
  sector_lt := p.sector_packed.2.2

/-- The position of a sector number. -/
def SectorNumber.msf (i : SectorNumber) : Msf :=
  Msf.ofNumber (i.value + 150).toNat (by have := i.low; have := i.high; omega)

end Purpose

section Positions

theorem number_lt (m : Msf) : m.number < 450000 := by
  have hminute := m.minute_lt
  have hsecond := m.second_lt
  have hsector := m.sector_lt
  unfold Msf.number
  omega

theorem number_ofNumber {n : Nat} (h : n < 450000) : (Msf.ofNumber n h).number = n := by
  unfold Msf.number Msf.ofNumber
  dsimp only
  omega

theorem ofNumber_number (m : Msf) : Msf.ofNumber m.number (number_lt m) = m := by
  have hsecond := m.second_lt
  have hsector := m.sector_lt
  unfold Msf.ofNumber Msf.number
  ext
  · dsimp only
    omega
  · dsimp only
    omega
  · dsimp only
    omega

theorem number_injective {m m' : Msf} (h : m.number = m'.number) : m = m' := by
  rw [← ofNumber_number m, ← ofNumber_number m']
  congr 1

/-- A position is given by its sector number, and by it alone. -/
theorem SectorNumber.number_msf (i : SectorNumber) :
    (i.msf.number : Int) = i.value + 150 := by
  have hlow := i.low
  rw [SectorNumber.msf, number_ofNumber]
  omega

theorem packed_toNat
    {n : Nat}
    (hn : n < 100) :
    (packed n).toNat = n / 10 * 16 + n % 10 := by
  rw [packed, UInt8.toNat_ofNat']
  omega

theorem packed_injective
    {n k : Nat}
    (hn : n < 100)
    (hk : k < 100)
    (h : packed n = packed k) :
    n = k := by
  have hbytes := congrArg UInt8.toNat h
  rw [packed_toNat hn, packed_toNat hk] at hbytes
  omega

/-- The decoder reads the last digit alone. -/
theorem locationDigits_packed
    {n : Nat}
    (hn : n < 100) :
    locationDigits (packed n) = n % 10 := by
  rw [locationDigits, packed_toNat hn]
  omega

theorem packed_field
    {bound : Nat} {field : UInt8}
    (h : PackedBelow bound field) :
    packed (field.toNat / 16 * 10 + field.toNat % 16) = field := by
  obtain ⟨htens, hones, -⟩ := h
  apply UInt8.toNat_inj.mp
  rw [packed_toNat (by omega)]
  omega

end Positions

section Code

/-- What is left of a position without its tens digits. -/
def Msf.lastDigits (m : Msf) : Msf where
  minute := m.minute % 10
  second := m.second % 10
  sector := m.sector % 10
  minute_lt := by omega
  second_lt := by omega
  sector_lt := by omega

theorem lastDigits_eq_iff (m : Msf) : m.lastDigits = m ↔ m.OneDigit := by
  unfold Msf.lastDigits Msf.OneDigit
  rw [Msf.ext_iff]
  dsimp only
  omega

theorem ofInt_natCast (n : Nat) : UInt8.ofInt n = UInt8.ofNat n := by
  apply UInt8.toNat_inj.mp
  rw [UInt8.ofInt, UInt8.toNat_ofNat', UInt8.toNat_ofNat']
  omega

/-- A field that the encoder writes. -/
theorem ofInt_packed (n : Nat) :
    UInt8.ofInt ((n : Int).tdiv 10 * 16 + n - (n : Int).tdiv 10 * 10) = packed n := by
  have hdigits :
      (n : Int).tdiv 10 * 16 + n - (n : Int).tdiv 10 * 10 =
        ((n / 10 * 16 + n % 10 : Nat) : Int) := by
    rw [Int.tdiv_eq_ediv_of_nonneg (by omega)]
    omega
  rw [hdigits, ofInt_natCast, packed]

/-- The encoder writes the location of the position. -/
theorem sceCdIntToPos_number (m : Msf) (p : CdLocation) :
    sceCdIntToPos ((m.number : Int) - 150) p = m.location p.track := by
  have hsecond := m.second_lt
  have hsector := m.sector_lt
  have hse : (m.number : Int).tdiv 75 = (m.minute * 60 + m.second : Nat) := by
    rw [Int.tdiv_eq_ediv_of_nonneg (by omega), Msf.number]
    omega
  have hmi : ((m.minute * 60 + m.second : Nat) : Int).tdiv 60 = m.minute := by
    rw [Int.tdiv_eq_ediv_of_nonneg (by omega)]
    omega
  have hsc : (m.number : Int) - (m.minute * 60 + m.second : Nat) * 75 = m.sector := by
    rw [Msf.number]
    omega
  have hrest : ((m.minute * 60 + m.second : Nat) : Int) - m.minute * 60 = m.second := by
    omega
  have hfield :
      (m.sector : Int) - (m.sector : Int).tdiv 10 * 10 + (m.sector : Int).tdiv 10 * 16 =
        (m.sector : Int).tdiv 10 * 16 + m.sector - (m.sector : Int).tdiv 10 * 10 := by
    omega
  unfold sceCdIntToPos
  dsimp only
  rw [Int.sub_add_cancel, hse, hmi, hsc, hrest, hfield, ofInt_packed, ofInt_packed,
    ofInt_packed]
  rfl

/-- The decoder reads the last digits alone. -/
theorem sceCdPosToInt_location (m : Msf) (track : UInt8) :
    sceCdPosToInt (m.location track) = (m.lastDigits.number : Int) - 150 := by
  have hsecond := m.second_lt
  have hsector := m.sector_lt
  unfold sceCdPosToInt Msf.location
  dsimp only
  rw [locationDigits_packed m.minute_lt, locationDigits_packed (by omega),
    locationDigits_packed (by omega)]
  rfl

theorem ValidLocation.location_msf (p : ValidLocation) :
    p.msf.location p.track = p.toCdLocation := by
  ext
  · exact congrArg UInt8.toNat (packed_field p.minute_packed)
  · exact congrArg UInt8.toNat (packed_field p.second_packed)
  · exact congrArg UInt8.toNat (packed_field p.sector_packed)
  · rfl

theorem location_sameFields_iff (m m' : Msf) (track track' : UInt8) :
    (m.location track).SameFields (m'.location track') ↔ m = m' := by
  constructor
  · rintro ⟨hminute, hsecond, hsector⟩
    have hs := m.second_lt
    have hs' := m'.second_lt
    have hf := m.sector_lt
    have hf' := m'.sector_lt
    exact
      Msf.ext (packed_injective m.minute_lt m'.minute_lt hminute)
        (packed_injective (by omega) (by omega) hsecond)
        (packed_injective (by omega) (by omega) hsector)
  · rintro rfl
    exact ⟨rfl, rfl, rfl⟩

end Code

section RoundTrips

/-- From a sector number to its location and back. -/
theorem sceCdPosToInt_intToPos_iff (i : SectorNumber) (p : CdLocation) :
    sceCdPosToInt (sceCdIntToPos i.value p) = i.value ↔ i.msf.OneDigit := by
  have hvalue : i.value = (i.msf.number : Int) - 150 := by
    rw [i.number_msf]
    omega
  rw [hvalue, sceCdIntToPos_number, sceCdPosToInt_location, ← lastDigits_eq_iff]
  constructor
  · intro h
    exact number_injective (by omega)
  · intro h
    rw [h]

/-- From a location to its sector number and back. -/
theorem sceCdIntToPos_posToInt_iff (p : ValidLocation) (q : CdLocation) :
    (sceCdIntToPos (sceCdPosToInt p.toCdLocation) q).SameFields p.toCdLocation ↔
      p.msf.OneDigit := by
  rw [← p.location_msf, sceCdPosToInt_location, sceCdIntToPos_number,
    location_sameFields_iff, lastDigits_eq_iff]

/-- **The two directions are inverse to each other** exactly at the positions whose minute,
second and sector are below 10. -/
theorem positions_roundTrip_iff (i : SectorNumber) (l : ValidLocation) (p : CdLocation) :
    (sceCdPosToInt (sceCdIntToPos i.value p) = i.value ↔ i.msf.OneDigit) ∧
      ((sceCdIntToPos (sceCdPosToInt l.toCdLocation) p).SameFields l.toCdLocation ↔
        l.msf.OneDigit) :=
  ⟨sceCdPosToInt_intToPos_iff i p, sceCdIntToPos_posToInt_iff l p⟩

/-- Sector number 600 is ten seconds behind the start, which the decoder takes for none. -/
theorem positions_lose_tens :
    sceCdPosToInt (sceCdIntToPos 600 ⟨0, 0, 0, 0⟩) ≠ 600 ∧
      ¬ (sceCdIntToPos (sceCdPosToInt ⟨0, 0x10, 0, 0⟩) ⟨0, 0, 0, 0⟩).SameFields
        ⟨0, 0x10, 0, 0⟩ := by
  refine ⟨by decide, ?_⟩
  rintro ⟨-, hsecond, -⟩
  exact absurd hsecond (by decide)

end RoundTrips

end Read
end Ps2Cdvd
