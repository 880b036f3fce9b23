import Ps2Cdvd.Lib.Access
import Ps2Cdvd.Smb.Requests

/-!
# The login, driven by the server

`smb_NegotiateProtocol` copies an encryption key and the name of the domain out of the
reply of the server into `server_specs`, and `smb_SessionSetupAndX` copies the name on
into its request.  The length of the key and the end of the name are the server's.

* `domainLoop_inside_iff`: the loop over the name reads inside the array exactly when the
  name ends there;
* `login_inside_iff`: exactly when all copies stay inside their fields.
-/

namespace Ps2Cdvd
namespace Smb

open Lib

section Source

/-- `KeyLength` of a negotiate response. -/
def keyLength (buf : Nat → UInt8) : Nat := (buf 70).toNat

/-- The checks of the response: magic, `Eclass` and `smbWordcount`. -/
def negotiateAccepted (buf : Nat → UInt8) : Bool :=
  decide (magic buf = smbMagic) && decide (eclass buf = 0) && buf 36 == 17

/-- `StringsCF`, by `SERVER_CAP_UNICODE`. -/
def negotiatedCF (buf : Nat → UInt8) : Nat := if getField buf 56 4 / 4 % 2 = 1 then 2 else 1

/-- The callback that hashes the password: it leaves the record in front of `Password` as
it is, and `PasswordLen` is the length of something in `Password[48]`. -/
structure HashCallback where
  run : (Nat → UInt8) → Nat → UInt8
  keeps : ∀ record x, x < 100 → run record x = record x
  short : ∀ record, getField (run record) 148 4 ≤ 48

/-- `server_specs` behind `smb_NegotiateProtocol`, as a memory: `StringsCF` is at 12,
`PrimaryDomainServerName` at 16, `EncryptionKey` at 48, `SecurityMode` at 56, `Username`
at 64, `Password` at 100 and `PasswordLen` at 148. -/
def negotiatedSpecs
    (callback : HashCallback) (username password : List UInt8) (iopAddr : Nat)
    (buf record : Nat → UInt8) : Nat → UInt8 :=
  let record :=
    putFields
      [(12, 4, negotiatedCF buf), (56, 4, (buf 39).toNat % 2),
        (60, 4, (buf 39).toNat / 2 % 2), (0, 4, getField buf 44 4),
        (4, 4, getField buf 40 2), (8, 4, getField buf 52 4)] record
  let record := writeRange record 48 (keyLength buf) (fun i => buf (73 + i))
  let record := writeRange record 16 32 (fun i => buf (73 + keyLength buf + i))
  let record := writeRange record 64 36 (fun i => username.getD i 0)
  let record := writeRange record 99 1 (fun _ => 0)
  let record := writeRange record 100 48 (fun i => password.getD i 0)
  let record := writeRange record 147 1 (fun _ => 0)
  let record := putFields [(156, 4, iopAddr)] record
  let record :=
    putFields [(152, 4, if getField record 60 4 = 1 then 0 else 4294967295)] record
  callback.run record

/-- The fields that the login copies into, and reads. -/
inductive LoginField
  | smbBuf
  | primaryDomainServerName
  | encryptionKey
  | username
  | password
deriving DecidableEq

def LoginField.size : LoginField → Nat
  | .smbBuf => 1024
  | .primaryDomainServerName => 32
  | .encryptionKey => 8
  | .username => 36
  | .password => 48

/-- The copies of `smb_NegotiateProtocol` behind the checks. -/
def negotiateAccesses (buf : Nat → UInt8) : List (Access LoginField) :=
  [⟨.encryptionKey, 0, keyLength buf⟩, ⟨.primaryDomainServerName, 0, 32⟩,
    ⟨.username, 0, 36⟩, ⟨.username, 35, 1⟩, ⟨.password, 0, 48⟩, ⟨.password, 47, 1⟩]

/-- `strlen` of the text at `pos`, of which `fuel` characters are looked at. -/
def strlenAt (m : Nat → UInt8) : (pos fuel : Nat) → Nat
  | _, 0 => 0
  | pos, fuel + 1 => if m pos = 0 then 0 else strlenAt m (pos + 1) fuel + 1

/-- The loop over `PrimaryDomainServerName` from `i` on: the indices that it reads, and
the one it ends at.  After 33 turns it has left the array. -/
def domainLoop (record : Nat → UInt8) (cf : Nat) : (fuel i : Nat) → List Nat × Nat
  | 0, i => ([], i)
  | fuel + 1, i =>
      if record (16 + i) ≠ 0 then
        let (reads, stop) := domainLoop record cf fuel (i + cf)
        (i :: reads, stop)
      else ([i], i)

/-- The accesses of `smb_SessionSetupAndX`, the same ones for either `AuthType`. -/
def sessionSetupAccesses (record : Nat → UInt8) : List (Access LoginField) :=
  let cf := getField record 12 4
  let user := decide (getField record 56 4 = 1)
  let passwordLen := if user then getField record 148 4 else 0
  let usernameLen := strlenAt record 64 36
  let domain := domainLoop record cf 33 0
  let userAt := 65 + passwordLen + alignment cf passwordLen
  let domainAt := userAt + cf * usernameLen + cf
  let nativeAt := domainAt + domain.2 + cf
  -- the buffer is cleared, and the fixed part is filled in
  [⟨.smbBuf, 0, 1024⟩, ⟨.smbBuf, 4, 61⟩] ++
    (if user then [⟨.smbBuf, 65, passwordLen⟩] else []) ++
    (List.range usernameLen).map (fun i => ⟨.smbBuf, userAt + cf * i, 1⟩) ++
    domain.1.map (fun i => ⟨.primaryDomainServerName, i, 1⟩) ++
    domain.1.dropLast.map (fun i => ⟨.smbBuf, domainAt + i, 1⟩) ++
    (List.range (2 * cf)).map (fun i => ⟨.smbBuf, nativeAt + i, 1⟩) ++
    [⟨.smbBuf, 0, 4⟩]

/-- The accesses of the login, for the negotiate response in `buf`. -/
def loginAccesses
    (callback : HashCallback) (username password : List UInt8) (iopAddr : Nat)
    (buf record : Nat → UInt8) : List (Access LoginField) :=
  negotiateAccesses buf ++
    sessionSetupAccesses (negotiatedSpecs callback username password iopAddr buf record)

end Source

section Purpose

/-- The name of the domain in a negotiate response ends inside of 32 bytes: a character
of it is zero. -/
def DomainEnds (buf : Nat → UInt8) : Prop :=
  ∃ i, i < 32 ∧ negotiatedCF buf ∣ i ∧ buf (73 + keyLength buf + i) = 0

/-- The record as `smb_SessionSetupAndX` uses it. -/
def recordSpecs (record : Nat → UInt8) : ServerSpecs where
  maxBufferSize := getField record 0 4
  maxMpxCount := getField record 4 4
  sessionKey := getField record 8 4
  stringsCF := getField record 12 4
  primaryDomainServerName := (List.range 32).map (fun i => record (16 + i))
  securityMode := s32 (getField record 56 4)
  username := (List.range (strlenAt record 64 36)).map (fun i => record (64 + i))
  password := fun i => record (100 + i)
  passwordLen := getField record 148 4

end Purpose

section Domain

variable {record : Nat → UInt8} {cf : Nat}

theorem domainLoop_zero
    {i : Nat}
    (h : record (16 + i) = 0)
    (fuel : Nat) :
    domainLoop record cf (fuel + 1) i = ([i], i) := by
  rw [domainLoop, if_neg (by simpa using h)]

theorem domainLoop_char
    {i : Nat}
    (h : record (16 + i) ≠ 0)
    (fuel : Nat) :
    domainLoop record cf (fuel + 1) i =
      (i :: (domainLoop record cf fuel (i + cf)).1, (domainLoop record cf fuel (i + cf)).2) := by
  rw [domainLoop, if_pos h]

/-- The loop reads inside the array exactly when the name ends there. -/
theorem domainLoop_inside_iff
    (hcf : 0 < cf)
    {fuel i : Nat}
    (hpos : 0 < fuel)
    (hfuel : 33 ≤ fuel + i)
    (hi : cf ∣ i) :
    (∀ k ∈ (domainLoop record cf fuel i).1, k < 32) ↔
      ∃ k, i ≤ k ∧ k < 32 ∧ cf ∣ k ∧ record (16 + k) = 0 := by
  induction fuel generalizing i with
  | zero => omega
  | succ fuel ih =>
      by_cases hzero : record (16 + i) = 0
      · rw [domainLoop_zero hzero]
        constructor
        · intro hall
          exact ⟨i, Nat.le_refl i, hall i List.mem_cons_self, hi, hzero⟩
        · rintro ⟨k, hik, hk, -, -⟩ x hx
          obtain rfl := List.mem_singleton.mp hx
          omega
      · rw [domainLoop_char hzero]
        by_cases hlow : i < 32
        · have hrest := ih (by omega) (by omega) (Nat.dvd_add hi (Nat.dvd_refl cf))
          constructor
          · intro hall
            obtain ⟨k, hk, hrange⟩ :=
              hrest.mp (fun k hk => hall k (List.mem_cons_of_mem i hk))
            exact ⟨k, by omega, hrange⟩
          · rintro ⟨k, hik, hk, hdvd, hend⟩
            have hne : k ≠ i := by
              rintro rfl
              exact hzero hend
            have hstep : i + cf ≤ k := by
              obtain ⟨d, hd⟩ := (Nat.dvd_sub hdvd hi)
              have hdpos : 0 < d := by
                rcases Nat.eq_zero_or_pos d with rfl | hdpos
                · omega
                · exact hdpos
              have hle := Nat.le_mul_of_pos_right cf hdpos
              omega
            intro x hx
            rcases List.mem_cons.mp hx with rfl | hmem
            · exact hlow
            · exact hrest.mpr ⟨k, hstep, hk, hdvd, hend⟩ x hmem
        · constructor
          · intro hall
            exact absurd (hall i List.mem_cons_self) hlow
          · rintro ⟨k, hik, hk, -, -⟩
            omega

/-- The loop ends at the last index that it reads. -/
theorem domainLoop_stop
    (hcf : 0 < cf)
    {fuel i : Nat}
    (hpos : 0 < fuel)
    (hfuel : 33 ≤ fuel + i)
    (hinside : ∀ k ∈ (domainLoop record cf fuel i).1, k < 32) :
    (domainLoop record cf fuel i).2 < 32 := by
  induction fuel generalizing i with
  | zero => omega
  | succ fuel ih =>
      by_cases hzero : record (16 + i) = 0
      · rw [domainLoop_zero hzero] at hinside ⊢
        exact hinside i List.mem_cons_self
      · rw [domainLoop_char hzero] at hinside ⊢
        have hlow := hinside i List.mem_cons_self
        exact ih (by omega) (by omega) (fun k hk => hinside k (List.mem_cons_of_mem i hk))

end Domain

section Results

variable
  {callback : HashCallback}
  {username password : List UInt8}
  {iopAddr : Nat}
  {buf record : Nat → UInt8}

/-- A field of four bytes that was written last. -/
theorem getField4_putField
    (pos : Nat) {v : Nat}
    (hv : v < 4294967296)
    (m : Nat → UInt8) :
    getField (putField m (pos, 4, v)) pos 4 = v := by
  have hbyte :
      ∀ i, i < 4 → putField m (pos, 4, v) (pos + i) = UInt8.ofNat (v / 256 ^ i) :=
    fun i hi => @writeRange_inside _ m pos 4 i (fun i => UInt8.ofNat (v / 256 ^ i)) hi
  have h0 := hbyte 0 (by omega)
  have h1 := hbyte 1 (by omega)
  have h2 := hbyte 2 (by omega)
  have h3 := hbyte 3 (by omega)
  rw [Nat.add_zero] at h0
  simp only [getField, Nat.add_assoc, h0, h1, h2, h3, UInt8.toNat_ofNat', pow_zero, pow_one,
    Nat.div_one]
  omega

theorem getField_congr
    {m m' : Nat → UInt8} {pos n : Nat}
    (h : ∀ i, i < n → m (pos + i) = m' (pos + i)) :
    getField m pos n = getField m' pos n := by
  induction n generalizing pos with
  | zero => rfl
  | succ n ih =>
      have hfirst := h 0 (by omega)
      have hrest : ∀ i, i < n → m (pos + 1 + i) = m' (pos + 1 + i) := by
        intro i hi
        have hnext := h (i + 1) (by omega)
        rwa [Nat.add_comm i 1, ← Nat.add_assoc] at hnext
      rw [Nat.add_zero] at hfirst
      rw [getField, getField, hfirst, ih hrest]

/-- `StringsCF` of the record: nothing that is copied later reaches back to it. -/
theorem negotiatedSpecs_cf :
    getField (negotiatedSpecs callback username password iopAddr buf record) 12 4 =
      negotiatedCF buf := by
  have hvalue : negotiatedCF buf < 4294967296 := by
    unfold negotiatedCF
    split_ifs
    · omega
    · omega
  rw [← getField4_putField 12 hvalue record]
  apply getField_congr
  intro i hi
  unfold negotiatedSpecs
  rw [callback.keeps _ _ (by omega)]
  simp only [putFields, List.foldl_cons, List.foldl_nil, putField]
  rw [writeRange_outside _ _ (by omega), writeRange_outside _ _ (by omega),
    writeRange_outside _ _ (by omega), writeRange_outside _ _ (by omega),
    writeRange_outside _ _ (by omega), writeRange_outside _ _ (by omega),
    writeRange_outside _ _ (by omega), writeRange_outside _ _ (by omega),
    writeRange_outside _ _ (by omega), writeRange_outside _ _ (by omega),
    writeRange_outside _ _ (by omega), writeRange_outside _ _ (by omega),
    writeRange_outside _ _ (by omega)]

/-- The name of the domain is the reply's, whatever the length of the key. -/
theorem negotiatedSpecs_domain
    {i : Nat}
    (hi : i < 32) :
    negotiatedSpecs callback username password iopAddr buf record (16 + i) =
      buf (73 + keyLength buf + i) := by
  unfold negotiatedSpecs
  rw [callback.keeps _ _ (by omega)]
  simp only [putFields, List.foldl_cons, List.foldl_nil, putField]
  rw [writeRange_outside _ _ (by omega), writeRange_outside _ _ (by omega),
    writeRange_outside _ _ (by omega), writeRange_outside _ _ (by omega),
    writeRange_outside _ _ (by omega), writeRange_outside _ _ (by omega),
    writeRange_inside _ _ _ hi]

/-- `Username` is terminated. -/
theorem negotiatedSpecs_username :
    negotiatedSpecs callback username password iopAddr buf record (64 + 35) = 0 := by
  unfold negotiatedSpecs
  rw [callback.keeps _ _ (by omega)]
  simp only [putFields, List.foldl_cons, List.foldl_nil, putField]
  rw [writeRange_outside _ _ (by omega), writeRange_outside _ _ (by omega),
    writeRange_outside _ _ (by omega), writeRange_outside _ _ (by omega)]
  exact @writeRange_inside _ _ 99 1 0 _ (by omega)

theorem strlenAt_le
    {m : Nat → UInt8} {pos k fuel : Nat}
    (h : m (pos + k) = 0) :
    strlenAt m pos fuel ≤ k := by
  induction fuel generalizing pos k with
  | zero => exact Nat.zero_le k
  | succ fuel ih =>
      rw [strlenAt]
      split_ifs with hzero
      · exact Nat.zero_le k
      · obtain ⟨k, rfl⟩ : ∃ j, k = j + 1 := by
          refine ⟨k - 1, ?_⟩
          rcases Nat.eq_zero_or_pos k with rfl | hk
          · exact absurd h hzero
          · omega
        have hrest := @ih (pos + 1) k (by rw [Nat.add_assoc, Nat.add_comm 1 k]; exact h)
        omega

theorem negotiatedCF_pos (buf : Nat → UInt8) : 0 < negotiatedCF buf ∧ negotiatedCF buf ≤ 2 := by
  unfold negotiatedCF
  split_ifs
  · omega
  · omega

/-- The loop over the name reads inside the array exactly when the name ends in the
reply. -/
theorem domainLoop_negotiated_iff :
    (∀ k ∈ (domainLoop (negotiatedSpecs callback username password iopAddr buf record)
        (negotiatedCF buf) 33 0).1, k < 32) ↔ DomainEnds buf := by
  rw [domainLoop_inside_iff (negotiatedCF_pos buf).1 (by omega) (by omega) (Nat.dvd_zero _)]
  constructor
  · rintro ⟨k, -, hk, hdvd, hzero⟩
    rw [negotiatedSpecs_domain hk] at hzero
    exact ⟨k, hk, hdvd, hzero⟩
  · rintro ⟨k, hk, hdvd, hzero⟩
    refine ⟨k, Nat.zero_le k, hk, hdvd, ?_⟩
    rw [negotiatedSpecs_domain hk]
    exact hzero

/-- The copies of `smb_NegotiateProtocol` stay inside exactly when the key fits its
field. -/
theorem negotiateAccesses_safe_iff (buf : Nat → UInt8) :
    Safe LoginField.size (negotiateAccesses buf) ↔ keyLength buf ≤ 8 := by
  have hkey :
      (⟨.encryptionKey, 0, keyLength buf⟩ : Access LoginField).Inside LoginField.size ↔
        keyLength buf ≤ 8 := by
    unfold Access.Inside
    dsimp only [LoginField.size]
    omega
  simp only [negotiateAccesses, safe_cons, safe_nil, hkey]
  simp [Access.Inside, LoginField.size]

/-- Those of `smb_SessionSetupAndX` do when its reads of the name do: everything else
fits `SMB_buf`. -/
theorem sessionSetupAccesses_safe_iff
    {record : Nat → UInt8} {cf : Nat}
    (hcf : getField record 12 4 = cf)
    (hpos : 0 < cf)
    (hwide : cf ≤ 2)
    (husername : strlenAt record 64 36 ≤ 35)
    (hpassword : getField record 148 4 ≤ 48) :
    Safe LoginField.size (sessionSetupAccesses record) ↔
      ∀ k ∈ (domainLoop record cf 33 0).1, k < 32 := by
  constructor
  · intro hsafe k hk
    have hread : (⟨.primaryDomainServerName, k, 1⟩ : Access LoginField).Inside
        LoginField.size := by
      apply hsafe
      simp only [sessionSetupAccesses, hcf, List.mem_append, List.mem_map]
      exact Or.inl (Or.inl (Or.inl (Or.inr ⟨k, hk, rfl⟩)))
    have hend := hread.2
    dsimp only [LoginField.size] at hend
    omega
  · intro hinside
    have hstop := domainLoop_stop hpos (by omega) (by omega) hinside
    have hwritten : ∀ k ∈ (domainLoop record cf 33 0).1.dropLast, k < 32 :=
      fun k hk => hinside k (List.dropLast_subset _ hk)
    have hpad : ∀ n, alignment cf n ≤ 1 := by
      intro n
      unfold alignment
      split_ifs
      · omega
      · omega
    unfold sessionSetupAccesses
    dsimp only
    rw [hcf]
    generalize strlenAt record 64 36 = usernameLen at husername ⊢
    generalize domainLoop record cf 33 0 = domain at hinside hstop hwritten ⊢
    have hlen :
        (if decide (getField record 56 4 = 1) = true then getField record 148 4 else 0) ≤
          48 := by
      split_ifs
      · exact hpassword
      · omega
    generalize
      (if decide (getField record 56 4 = 1) = true then getField record 148 4 else 0) =
        passwordLen at hlen ⊢
    have hpadded := hpad passwordLen
    have hname : ∀ i, i ≤ usernameLen → cf * i ≤ 70 := by
      intro i hi
      calc
        cf * i ≤ 2 * 35 := Nat.mul_le_mul hwide (by omega)
        _ = 70 := rfl
    have hall := hname usernameLen (Nat.le_refl _)
    generalize cf * usernameLen = nameLen at hall ⊢
    simp only [safe_append, safe_cons, safe_nil, safe_map, Access.Inside]
    refine ⟨⟨⟨⟨⟨⟨⟨?_, ?_, trivial⟩, ?_⟩, ?_⟩, ?_⟩, ?_⟩, ?_⟩, ?_, trivial⟩
    · exact ⟨by omega, by dsimp only [LoginField.size]; omega⟩
    · exact ⟨by omega, by dsimp only [LoginField.size]; omega⟩
    · split_ifs
      · simp only [safe_cons, safe_nil, Access.Inside]
        exact ⟨⟨by omega, by dsimp only [LoginField.size]; omega⟩, trivial⟩
      · exact safe_nil
    · intro i hi
      have hlow := hname i (by have := List.mem_range.mp hi; omega)
      have hcast : ((cf * i : Nat) : Int) = (cf : Int) * (i : Int) := Nat.cast_mul cf i
      exact ⟨by omega, by dsimp only [LoginField.size]; omega⟩
    · intro i hi
      have hlow := hinside i hi
      exact ⟨by omega, by dsimp only [LoginField.size]; omega⟩
    · intro i hi
      have hlow := hwritten i hi
      exact ⟨by omega, by dsimp only [LoginField.size]; omega⟩
    · intro i hi
      have hlow := List.mem_range.mp hi
      exact ⟨by omega, by dsimp only [LoginField.size]; omega⟩
    · exact ⟨by omega, by dsimp only [LoginField.size]; omega⟩

/-- The login stays inside its records exactly when the key has at most eight bytes, and
the name of the domain ends in its field. -/
theorem login_inside_iff
    (callback : HashCallback) (username password : List UInt8) (iopAddr : Nat)
    (buf record : Nat → UInt8) :
    Safe LoginField.size
        (loginAccesses callback username password iopAddr buf record) ↔
      keyLength buf ≤ 8 ∧ DomainEnds buf := by
  obtain ⟨hpos, hwide⟩ := negotiatedCF_pos buf
  have hsetup :=
    (sessionSetupAccesses_safe_iff
      (@negotiatedSpecs_cf callback username password iopAddr buf record) hpos hwide
      (strlenAt_le negotiatedSpecs_username) (callback.short _)).trans
      domainLoop_negotiated_iff
  rw [loginAccesses, safe_append, negotiateAccesses_safe_iff, hsetup]

theorem domainChars_le
    {name : List UInt8} {cf k : Nat}
    (hk : cf ∣ k)
    (hzero : name.getD k 0 = 0)
    (fuel : Nat) {i : Nat}
    (hi : cf ∣ i)
    (hle : i ≤ k) :
    i + cf * (domainChars name cf fuel i).length ≤ k := by
  induction fuel generalizing i with
  | zero =>
      rw [domainChars, List.length_nil, Nat.mul_zero]
      exact hle
  | succ fuel ih =>
      rw [domainChars]
      by_cases hchar : name.getD i 0 ≠ 0
      · rw [if_pos hchar, List.length_cons, Nat.mul_succ]
        have hne : i ≠ k := by
          rintro rfl
          exact hchar hzero
        have hstep : i + cf ≤ k := by
          obtain ⟨d, hd⟩ := Nat.dvd_sub hk hi
          have hdpos : 0 < d := by
            rcases Nat.eq_zero_or_pos d with rfl | hdpos
            · omega
            · exact hdpos
          have hmul := Nat.le_mul_of_pos_right cf hdpos
          omega
        have hrest := ih (Nat.dvd_add hi (Nat.dvd_refl cf)) hstep
        omega
      · rw [if_neg hchar, List.length_nil, Nat.mul_zero]
        exact hle

/-- The request of a login that stays inside fits `SMB_buf`. -/
theorem login_request_fits
    (h : DomainEnds buf)
    (callback : HashCallback) (username password : List UInt8) (iopAddr : Nat)
    (record : Nat → UInt8) (capabilities authType : Nat) :
    (Request.sessionSetup
      (recordSpecs (negotiatedSpecs callback username password iopAddr buf record))
      capabilities authType).Fits := by
  obtain ⟨k, hk, hdvd, hzero⟩ := h
  obtain ⟨hpos, hwide⟩ := negotiatedCF_pos buf
  have hcf := @negotiatedSpecs_cf callback username password iopAddr buf record
  have hname := @negotiatedSpecs_domain callback username password iopAddr buf record k hk
  have hshort :
      getField (negotiatedSpecs callback username password iopAddr buf record) 148 4 ≤ 48 :=
    callback.short _
  have huser :=
    @strlenAt_le _ 64 35 36
      (@negotiatedSpecs_username callback username password iopAddr buf record)
  generalize negotiatedSpecs callback username password iopAddr buf record = m
    at hcf hname hshort huser ⊢
  have hdomain :=
    @domainChars_le (recordSpecs m).primaryDomainServerName (recordSpecs m).stringsCF k
      (by
        show getField m 12 4 ∣ k
        rw [hcf]
        exact hdvd)
      (by
        rw [List.getD_eq_getElem _ _ (by simpa [recordSpecs] using hk)]
        simpa [recordSpecs, hname] using hzero)
      (recordSpecs m).primaryDomainServerName.length 0 (Nat.dvd_zero _) (Nat.zero_le k)
  have hcf' : (recordSpecs m).stringsCF = negotiatedCF buf := hcf
  have hlength : ((recordSpecs m).sessionPassword authType).length ≤ 48 := by
    rw [length_sessionPassword]
    split_ifs
    · exact hshort
    · omega
  have husername : (recordSpecs m).username.length ≤ 35 := by
    simpa [recordSpecs] using huser
  refine ⟨?_, ?_⟩
  · show (recordSpecs m).stringsCF = 1 ∨ (recordSpecs m).stringsCF = 2
    omega
  · have hpad :
        (padding (recordSpecs m).stringsCF
          ((recordSpecs m).sessionPassword authType).length).length ≤ 1 := by
      rw [length_padding]
      unfold alignment
      split_ifs
      · omega
      · omega
    have hchars : (recordSpecs m).stringsCF * (recordSpecs m).username.length ≤ 70 :=
      calc
        (recordSpecs m).stringsCF * (recordSpecs m).username.length ≤ 2 * 35 :=
          Nat.mul_le_mul (by omega) husername
        _ = 70 := rfl
    have hwidth : 0 < (recordSpecs m).stringsCF := by omega
    simp only [Request.fixedSize, Request.variable, List.length_append,
      length_wideString hwidth, List.length_replicate, ServerSpecs.domain]
    omega

theorem strlenAt_le_fuel (m : Nat → UInt8) (pos fuel : Nat) : strlenAt m pos fuel ≤ fuel := by
  induction fuel generalizing pos with
  | zero => exact Nat.le_refl 0
  | succ fuel ih =>
      rw [strlenAt]
      split_ifs
      · exact Nat.zero_le _
      · exact Nat.succ_le_succ (ih (pos + 1))

/-- What a callback for plain text passwords leaves of the record. -/
def plainHash (record : Nat → UInt8) : Nat → UInt8 :=
  putFields [(148, 4, strlenAt record 100 48)] record

theorem plainHash_keeps
    (record : Nat → UInt8) (x : Nat)
    (hx : x < 100) :
    plainHash record x = record x := by
  simp only [plainHash, putFields, List.foldl_cons, List.foldl_nil, putField]
  exact writeRange_outside _ _ (by omega)

theorem plainHash_short (record : Nat → UInt8) : getField (plainHash record) 148 4 ≤ 48 := by
  have hle := strlenAt_le_fuel record 100 48
  have hfield := getField4_putField 148 (show strlenAt record 100 48 < 4294967296 by omega)
    record
  exact Nat.le_trans (Nat.le_of_eq hfield) hle

def plainCallback : HashCallback := ⟨plainHash, plainHash_keeps, plainHash_short⟩

/-- A negotiate response that passes the checks, with a key of nine bytes. -/
def longKeyReply (i : Nat) : UInt8 :=
  if i = 4 then 0xff else if i = 5 then 0x53 else if i = 6 then 0x4d
  else if i = 7 then 0x42 else if i = 36 then 17 else if i = 70 then 9 else 0

/-- The ninth byte of the key is copied over `SecurityMode`. -/
theorem login_overruns_key :
    ¬ ∀ (callback : HashCallback) (username password : List UInt8) (iopAddr : Nat)
        (buf record : Nat → UInt8) (_ : negotiateAccepted buf = true),
        Safe LoginField.size
          (loginAccesses callback username password iopAddr buf record) := by
  intro hall
  have hsafe := hall plainCallback [] [] 0 longKeyReply (fun _ => 0) (by decide)
  have hkey :=
    (negotiateAccesses_safe_iff longKeyReply).mp (safe_append.mp hsafe).1
  exact absurd hkey (by decide)

end Results

end Smb
end Ps2Cdvd
