import Ps2Cdvd.Smb.Framing

/-!
# The setup of an SMB session

`smb_SessionSetupAndX`, `smb_TreeConnectAndX` and `smb_OpenAndX` each build a
request in `SMB_buf`, call `GetSMBServerReply` without looking at its result, and
then check magic and status in the same buffer.

* `Header`: magic and status of a request are those of a success;
* `agrees_iff`: the checks are passed when no received byte differs from that;
* `smbSetup_sound_iff`: when the three functions succeed on a success only.
-/

namespace Ps2Cdvd
namespace Smb

open Lib

section Source

/-- `SMB_MAGIC` -/
def smbMagic : Nat := 0x424d53ff

/-- `server_specs`, as far as the requests use it; `username` is the string, and
`primaryDomainServerName` the array. -/
structure ServerSpecs where
  maxBufferSize : Nat
  maxMpxCount : Nat
  sessionKey : Nat
  stringsCF : Nat
  primaryDomainServerName : List UInt8
  securityMode : Int
  username : List UInt8
  password : Nat → UInt8
  passwordLen : Nat

/-- `SERVER_SHARE_SECURITY_LEVEL` and `SERVER_USER_SECURITY_LEVEL` -/
def shareSecurityLevel : Int := 0

def userSecurityLevel : Int := 1

/-- `LM_AUTH` and `NTLM_AUTH` -/
def lmAuth : Nat := 0

def ntlmAuth : Nat := 1

/-- A field of `n` bytes at `pos`. -/
def putField (buf : Nat → UInt8) (field : Nat × Nat × Nat) : Nat → UInt8 :=
  writeRange buf field.1 field.2.1 (fun i => UInt8.ofNat (field.2.2 / 256 ^ i))

/-- Fields, each given by its position, its length and its value. -/
def putFields (fields : List (Nat × Nat × Nat)) (buf : Nat → UInt8) : Nat → UInt8 :=
  fields.foldl putField buf

/-- The value of a field of `n` bytes at `pos`. -/
def getField (buf : Nat → UInt8) (pos : Nat) : Nat → Nat
  | 0 => 0
  | n + 1 => (buf pos).toNat + 256 * getField buf (pos + 1) n

/-- The header of a request in the cleared buffer, with the unused fields of the
`AndX` part. -/
def smbHeader (cmd flags cf uid tid wordcount : Nat) (buf : Nat → UInt8) :
    Nat → UInt8 :=
  -- `SMB_FLAGS2_KNOWS_LONG_NAMES | SMB_FLAGS2_32BIT_STATUS`
  let flags2 := if cf = 2 then 0x4001 + 0x8000 else 0x4001
  putFields
    [(4, 4, smbMagic), (8, 1, cmd), (13, 1, flags), (14, 2, flags2), (28, 2, tid),
      (32, 2, uid), (36, 1, wordcount), (37, 1, 0xff)]
    (writeRange buf 0 1024 (fun _ => 0))

/-- A string with `cf` bytes for each character. -/
def putString (cf : Nat) : List UInt8 → Nat → (Nat → UInt8) → Nat → UInt8
  | [], _, buf => buf
  | c :: cs, pos, buf =>
      putString cf cs (pos + cf) (writeRange buf pos 1 (fun _ => c))

/-- The characters that the loop over `PrimaryDomainServerName` copies, from
position `i` on. -/
def domainChars (name : List UInt8) (cf : Nat) : (fuel i : Nat) → List UInt8
  | 0, _ => []
  | fuel + 1, i =>
      if name.getD i 0 ≠ 0 then name.getD i 0 :: domainChars name cf fuel (i + cf)
      else []

/-- The padding before a Unicode string. -/
def alignment (cf passwordLen : Nat) : Nat :=
  if cf = 2 ∧ passwordLen % 2 = 0 then 1 else 0

/-- The request of `smb_SessionSetupAndX`. -/
def sessionSetupRequest
    (specs : ServerSpecs) (capabilities authType : Nat) (buf : Nat → UInt8) :
    Nat → UInt8 :=
  let cf := specs.stringsCF
  let buf := smbHeader 0x73 0x08 cf 0 0 13 buf
  let maxBufferSize :=
    if 65535 < specs.maxBufferSize then 65535 else specs.maxBufferSize
  let maxMpxCount := if 2 ≤ specs.maxMpxCount then 2 else specs.maxMpxCount
  let buf :=
    putFields
      [(41, 2, maxBufferSize), (43, 2, maxMpxCount), (45, 2, 1),
        (47, 4, specs.sessionKey), (59, 4, capabilities)] buf
  let user := decide (specs.securityMode = userSecurityLevel)
  let passwordLen := if user then specs.passwordLen else 0
  let buf :=
    if user then
      putFields [(if authType = lmAuth then 51 else 53, 2, passwordLen)]
        (writeRange buf 65 passwordLen
          (fun i => specs.password (24 * authType + i)))
    else buf
  let offset := passwordLen + alignment cf passwordLen
  let buf := putString cf specs.username (65 + offset) buf
  let offset := offset + cf * specs.username.length + cf
  let domain :=
    domainChars specs.primaryDomainServerName cf
      specs.primaryDomainServerName.length 0
  let buf := putString cf domain (65 + offset) buf
  let offset := offset + cf * domain.length + cf
  let buf := writeRange buf (65 + offset) (2 * cf) (fun _ => 0)
  let offset := offset + 2 * cf
  rawTcpSetSessionHeader (61 + offset) (putFields [(63, 2, offset)] buf)

/-- The request of `smb_TreeConnectAndX`. -/
def treeConnectRequest
    (specs : ServerSpecs) (uid : Nat) (shareName : List UInt8)
    (buf : Nat → UInt8) : Nat → UInt8 :=
  let cf := specs.stringsCF
  let buf := smbHeader 0x75 0x08 cf uid 0 4 buf
  let share := decide (specs.securityMode = shareSecurityLevel)
  let passwordLen := if share then specs.passwordLen else 1
  let buf :=
    if share then
      writeRange buf 47 passwordLen (fun i => specs.password (24 * ntlmAuth + i))
    else buf
  let buf := putFields [(43, 2, passwordLen)] buf
  let offset := passwordLen + alignment cf passwordLen
  let buf := putString cf shareName (47 + offset) buf
  let offset := offset + cf * shareName.length + cf
  let buf :=
    writeRange buf (47 + offset) 6 (fun i => if i < 5 then 0x3f else 0)
  let offset := offset + 6
  rawTcpSetSessionHeader (43 + offset) (putFields [(45, 2, offset)] buf)

/-- The request of `smb_OpenAndX`; `write` is `Write && (SMBWRITE)`. -/
def openRequest
    (specs : ServerSpecs) (uid tid : Nat) (filename : List UInt8) (write : Bool)
    (buf : Nat → UInt8) : Nat → UInt8 :=
  let cf := specs.stringsCF
  let buf := smbHeader 0x2d 0x10 cf uid tid 15 buf
  let buf :=
    putFields
      [(43, 2, if write then 2 else 0), (47, 2, if write then 0x80 else 0x01),
        (53, 2, 1)] buf
  let offset := if cf = 2 then 1 else 0
  let buf := putString cf filename (69 + offset) buf
  let offset := offset + cf * filename.length + cf
  rawTcpSetSessionHeader (66 + offset) (putFields [(67, 2, offset)] buf)

/-- The variables of the driver and what the network has to come: the results of
`plwip_send` and of `plwip_recvfrom`.  `fid` is the variable behind `FID`, and
`ioSema` the count of `io_sema` in the VMC build. -/
structure Driver where
  buf : Nat → UInt8
  uid : Nat
  tid : Nat
  fid : Nat
  readUid : Nat
  readTid : Nat
  ioSema : Bool
  sends : List Int
  recvs : List (List UInt8)

/-- The call of `GetSMBServerReply` for the request `request`. -/
def Driver.exchange (request : Nat → UInt8) (s : Driver) : Option (Reply × Driver) :=
  match s.sends with
  | [] => none
  | sent :: sends =>
      match getSMBServerReply sent s.recvs request with
      | none => none
      | some r => some (r, { s with buf := r.rx.buf, sends := sends, recvs := r.rest })

/-- What a function returns, and the state behind it; `reply` is what its last
call of `GetSMBServerReply` gave. -/
structure Outcome where
  ret : Int
  driver : Driver
  reply : Reply

/-- `smbH.Magic`, `smbH.Eclass` and `smbH.Ecode` -/
def magic (buf : Nat → UInt8) : Nat := getField buf 4 4

def eclass (buf : Nat → UInt8) : Nat := getField buf 9 2

def ecode (buf : Nat → UInt8) : Nat := getField buf 11 2

/-- `(Eclass | (Ecode << 16)) == STATUS_LOGON_FAILURE`, where both are of type
`short`. -/
def logonFailure (buf : Nat → UInt8) : Bool :=
  decide
    ((BitVec.ofNat 16 (eclass buf)).signExtend 32 |||
      ((BitVec.ofNat 16 (ecode buf)).signExtend 32 <<< 16) = 0xc000006d#32)

/-- The checks behind `GetSMBServerReply`, with the status in the fields that
`failed` looks at, and what is kept of a success. -/
def checked (failed : (Nat → UInt8) → Bool) (keep : Driver → Driver) (r : Reply) (s : Driver) :
    Outcome :=
  if magic s.buf ≠ smbMagic then ⟨-1, s, r⟩
  else if failed s.buf then ⟨-1000, s, r⟩
  else ⟨1, keep s, r⟩

/-- `(Eclass | Ecode) != STATUS_SUCCESS` -/
def statusFailed (buf : Nat → UInt8) : Bool :=
  decide (eclass buf ||| ecode buf ≠ 0)

/-- `smb_SessionSetupAndX(capabilities)` -/
def smbSessionSetupAndX (specs : ServerSpecs) (capabilities : Nat) (s : Driver) :
    Option Outcome :=
  let keep := fun s : Driver => { s with uid := getField s.buf 32 2 }
  match s.exchange (sessionSetupRequest specs capabilities ntlmAuth s.buf) with
  | none => none
  | some (r, s) =>
      -- `AuthType = LM_AUTH; goto lbl_session_setup;`
      if magic s.buf = smbMagic ∧ specs.securityMode = userSecurityLevel ∧
          logonFailure s.buf = true then
        match s.exchange (sessionSetupRequest specs capabilities lmAuth s.buf) with
        | none => none
        | some (r, s) => some (checked statusFailed keep r s)
      else some (checked statusFailed keep r s)

/-- `smb_TreeConnectAndX(ShareName)` -/
def smbTreeConnectAndX (specs : ServerSpecs) (shareName : List UInt8) (s : Driver) :
    Option Outcome :=
  match s.exchange (treeConnectRequest specs s.uid shareName s.buf) with
  | none => none
  | some (r, s) =>
      some
        (checked statusFailed (fun s => { s with tid := getField s.buf 28 2 }) r s)

/-- `smb_OpenAndX(filename, FID, Write)` -/
def smbOpenAndX
    (vmc : Bool) (specs : ServerSpecs) (filename : List UInt8) (write : Bool)
    (s : Driver) : Option Outcome :=
  -- `WAITIOSEMA(io_sema)`
  if vmc && !s.ioSema then none
  else
    match
      { s with ioSema := false }.exchange
        (openRequest specs s.uid s.tid filename (write && vmc) s.buf) with
    | none => none
    | some (r, s) =>
        some
          (checked (fun buf => decide (eclass buf ≠ 0))
            (fun s =>
              { s with
                fid := getField s.buf 41 2
                readUid := s.uid
                readTid := s.tid
                ioSema := true }) r s)

end Source

section Purpose

/-- The bytes of magic and status of a success, by position. -/
def successByte (i : Nat) : UInt8 :=
  [0xff, 0x53, 0x4d, 0x42].getD (i - 4) 0

/-- The positions of the magic and of the status; `smb_OpenAndX` looks at the low
half of the status only. -/
def statusPlaces : List Nat := [4, 5, 6, 7, 9, 10, 11, 12]

def lowStatusPlaces : List Nat := [4, 5, 6, 7, 9, 10]

/-- A reply was delivered, is complete and reaches to the end of its status. -/
def Reply.Whole (r : Reply) : Prop :=
  0 < r.ret ∧
    13 ≤ rawTcpGetSessionHeader (fun i => r.rx.taken.getD i 0) + 4 ∧
    rawTcpGetSessionHeader (fun i => r.rx.taken.getD i 0) + 4 ≤ r.rx.taken.length

/-- A message has `SMB_MAGIC` and the 32-bit status `STATUS_SUCCESS`. -/
def ReportsSuccess (message : Nat → UInt8) : Prop :=
  getField message 4 4 = smbMagic ∧ getField message 9 4 = 0

/-- The reply is a success: whole, with `SMB_MAGIC` and the 32-bit status
`STATUS_SUCCESS`. -/
def Reply.Success (r : Reply) : Prop :=
  r.Whole ∧ ReportsSuccess (fun i => r.rx.taken.getD i 0)

/-- The function succeeds on a success only, and else keeps what it had. -/
def Outcome.Sound (before : Driver) (o : Outcome) : Prop :=
  (o.ret = 1 → o.reply.Success) ∧
    (¬ o.reply.Success →
      o.ret < 0 ∧ o.driver.uid = before.uid ∧ o.driver.tid = before.tid ∧
        o.driver.fid = before.fid)

/-- A byte that was received for the last request at one of the places differs
from a success. -/
def Reply.Differs (places : List Nat) (r : Reply) : Prop :=
  ∃ i ∈ places, ∃ b, r.rx.last i = some b ∧ b ≠ successByte i

end Purpose

section Requests

/-- A buffer with magic and status of a success. -/
def Header (buf : Nat → UInt8) : Prop :=
  ∀ i ∈ statusPlaces, buf i = successByte i

variable {buf : Nat → UInt8}

/-- A write away from magic and status. -/
theorem Header.write
    (h : Header buf)
    {pos n : Nat}
    (hpos : pos + n ≤ 4 ∨ pos = 8 ∧ n = 1 ∨ 13 ≤ pos)
    (f : Nat → UInt8) :
    Header (writeRange buf pos n f) := by
  intro i hi
  have hplace : 4 ≤ i ∧ i < 8 ∨ 9 ≤ i ∧ i < 13 := by
    simp only [statusPlaces, List.mem_cons, List.not_mem_nil, or_false] at hi
    omega
  rw [writeRange_outside _ _ (by omega)]
  exact h i hi

theorem Header.putFields
    (h : Header buf)
    {fields : List (Nat × Nat × Nat)}
    (hpos : ∀ f ∈ fields, f.1 = 8 ∧ f.2.1 = 1 ∨ 13 ≤ f.1) :
    Header (putFields fields buf) := by
  induction fields generalizing buf with
  | nil => exact h
  | cons f fields ih =>
      apply ih
      · exact h.write (Or.inr (hpos f List.mem_cons_self)) _
      · intro f' hf'
        exact hpos f' (List.mem_cons_of_mem _ hf')

theorem Header.putString
    (h : Header buf)
    (cf : Nat) (cs : List UInt8)
    {pos : Nat}
    (hpos : 13 ≤ pos) :
    Header (putString cf cs pos buf) := by
  induction cs generalizing buf pos with
  | nil => exact h
  | cons c cs ih =>
      apply ih
      · exact h.write (Or.inr (Or.inr hpos)) _
      · omega

theorem Header.sessionHeader
    (h : Header buf)
    (size : Nat) :
    Header (rawTcpSetSessionHeader size buf) :=
  h.write (Or.inl (by omega)) _

theorem Header.either
    {c : Prop} [Decidable c] {buf' : Nat → UInt8}
    (h : Header buf)
    (h' : Header buf') :
    Header (if c then buf else buf') := by
  split_ifs
  · exact h
  · exact h'

theorem header_smbHeader
    (cmd flags cf uid tid wordcount : Nat) (buf : Nat → UInt8) :
    Header (smbHeader cmd flags cf uid tid wordcount buf) := by
  have hmagic :
      Header (putField (writeRange buf 0 1024 (fun _ => 0)) (4, 4, smbMagic)) := by
    intro i hi
    simp only [statusPlaces, List.mem_cons, List.not_mem_nil, or_false] at hi
    rcases hi with rfl | rfl | rfl | rfl | rfl | rfl | rfl | rfl <;>
      simp [putField, writeRange, smbMagic, successByte]
  apply hmagic.putFields
  simp

theorem header_sessionSetupRequest
    (specs : ServerSpecs) (capabilities authType : Nat) (buf : Nat → UInt8) :
    Header (sessionSetupRequest specs capabilities authType buf) := by
  unfold sessionSetupRequest
  apply Header.sessionHeader
  apply Header.putFields
  · apply Header.write
    · apply Header.putString
      · apply Header.putString
        · have hfields :
              ∀ a b c d : Nat,
                Header
                  (Smb.putFields
                    [(41, 2, a), (43, 2, b), (45, 2, 1), (47, 4, c), (59, 4, d)]
                    (smbHeader 0x73 0x08 specs.stringsCF 0 0 13 buf)) := by
            intro a b c d
            apply Header.putFields
            · exact header_smbHeader _ _ _ _ _ _ _
            · simp
          apply Header.either
          · apply Header.putFields
            · apply Header.write
              · exact hfields _ _ _ _
              · omega
            · intro f hf
              rw [List.mem_singleton.mp hf]
              have hpos : 13 ≤ if authType = lmAuth then 51 else 53 := by
                split_ifs
                · omega
                · omega
              exact Or.inr hpos
          · exact hfields _ _ _ _
        · omega
      · omega
    · omega
  · simp

theorem header_treeConnectRequest
    (specs : ServerSpecs) (uid : Nat) (shareName : List UInt8)
    (buf : Nat → UInt8) :
    Header (treeConnectRequest specs uid shareName buf) := by
  unfold treeConnectRequest
  apply Header.sessionHeader
  apply Header.putFields
  · apply Header.write
    · apply Header.putString
      · apply Header.putFields
        · apply Header.either
          · apply Header.write
            · exact header_smbHeader _ _ _ _ _ _ _
            · omega
          · exact header_smbHeader _ _ _ _ _ _ _
        · simp
      · omega
    · omega
  · simp

theorem header_openRequest
    (specs : ServerSpecs) (uid tid : Nat) (filename : List UInt8) (write : Bool)
    (buf : Nat → UInt8) :
    Header (openRequest specs uid tid filename write buf) := by
  unfold openRequest
  apply Header.sessionHeader
  apply Header.putFields
  · apply Header.putString
    · apply Header.putFields
      · exact header_smbHeader _ _ _ _ _ _ _
      · simp
    · omega
  · simp

end Requests

section Checks

variable {buf : Nat → UInt8}

theorem getField_eq_iff
    (buf : Nat → UInt8) (pos n : Nat) {v : Nat}
    (hv : v < 256 ^ n) :
    getField buf pos n = v ↔
      ∀ i, i < n → (buf (pos + i)).toNat = v / 256 ^ i % 256 := by
  induction n generalizing pos v with
  | zero =>
      have hzero : v = 0 := by
        simpa using hv
      simp [getField, hzero]
  | succ n ih =>
      have hbyte := UInt8.toNat_lt (buf pos)
      have hrest : v / 256 < 256 ^ n := by
        rw [Nat.div_lt_iff_lt_mul (by omega)]
        rwa [pow_succ] at hv
      have hnext := ih (pos + 1) hrest
      have hsplit :
          getField buf pos (n + 1) = v ↔
            (buf pos).toNat = v % 256 ∧ getField buf (pos + 1) n = v / 256 := by
        rw [getField]
        omega
      rw [hsplit, hnext]
      constructor
      · rintro ⟨hfirst, hlater⟩ i hi
        cases i with
        | zero => simpa using hfirst
        | succ i =>
            have hbyte := hlater i (by omega)
            rw [Nat.div_div_eq_div_mul, ← pow_succ'] at hbyte
            rw [← Nat.add_assoc, Nat.add_right_comm]
            exact hbyte
      · intro h
        constructor
        · simpa using h 0 (by omega)
        · intro i hi
          have hbyte := h (i + 1) (by omega)
          rw [Nat.div_div_eq_div_mul, ← pow_succ']
          rw [← Nat.add_assoc, Nat.add_right_comm] at hbyte
          exact hbyte

/-- A field is that of a success when its bytes are. -/
theorem getField_success_iff
    (buf : Nat → UInt8) {pos n v : Nat}
    (hv : v < 256 ^ n)
    (hbytes :
      ∀ i, i < n → (successByte (pos + i)).toNat = v / 256 ^ i % 256) :
    getField buf pos n = v ↔ ∀ i ∈ List.range' pos n, buf i = successByte i := by
  rw [getField_eq_iff buf pos n hv]
  constructor
  · intro h i hi
    obtain ⟨k, hk, rfl⟩ := List.mem_range'.mp hi
    rw [Nat.one_mul, ← UInt8.toNat_inj, hbytes k hk]
    exact h k hk
  · intro h i hi
    have hplace : pos + i ∈ List.range' pos n :=
      List.mem_range'.mpr ⟨i, hi, by omega⟩
    rw [h _ hplace]
    exact hbytes i hi

/-- The check of the magic. -/
theorem magic_iff :
    magic buf = smbMagic ↔ ∀ i ∈ [4, 5, 6, 7], buf i = successByte i :=
  getField_success_iff buf (by decide) (by decide)

theorem eclass_iff :
    eclass buf = 0 ↔ ∀ i ∈ [9, 10], buf i = successByte i :=
  getField_success_iff buf (by decide) (by decide)

theorem ecode_iff :
    ecode buf = 0 ↔ ∀ i ∈ [11, 12], buf i = successByte i :=
  getField_success_iff buf (by decide) (by decide)

end Checks

section Replies

variable {request : Nat → UInt8}

theorem recvMore_inv
    {total : Nat} {results : List (List UInt8)} {s : Rx} {r : Reply}
    (h : RxInv request s)
    (hr : recvMore total results s = some r) :
    RxInv request r.rx ∧ (0 < r.ret → r.ret = r.rx.rcvSize) := by
  induction results generalizing s with
  | nil =>
      rw [recvMore] at hr
      split_ifs at hr
      cases hr
      exact ⟨h, fun _ => rfl⟩
  | cons pkt results ih =>
      rw [recvMore] at hr
      split_ifs at hr
      · cases hr
        exact ⟨h, fun hret => absurd hret (by simp)⟩
      · exact ih (h.got le_rfl pkt) hr
      · cases hr
        exact ⟨h, fun _ => rfl⟩

theorem receive_inv
    {results : List (List UInt8)} {s : Rx} {r : Reply}
    (h : RxInv request s)
    (hr : receive results s = some r) :
    RxInv request r.rx ∧ (0 < r.ret → r.ret = r.rx.rcvSize) := by
  induction results generalizing s with
  | nil => cases hr
  | cons pkt results ih =>
      rw [receive] at hr
      split_ifs at hr
      · cases hr
        exact ⟨h, fun hret => absurd hret (by simp)⟩
      · simp only at hr
        split_ifs at hr
        · exact ih (h.got (Nat.zero_le _) pkt) hr
        · exact recvMore_inv (h.got (Nat.zero_le _) pkt) hr

/-- What an exchange leaves in the buffer. -/
theorem exchange_spec
    {s s' : Driver} {r : Reply}
    (h : s.exchange request = some (r, s')) :
    RxInv request r.rx ∧ s'.buf = r.rx.buf ∧
      s'.uid = s.uid ∧ s'.tid = s.tid ∧ s'.fid = s.fid := by
  unfold Driver.exchange at h
  split at h
  · cases h
  · split at h
    · cases h
    · rename_i hr
      cases h
      refine ⟨?_, rfl, rfl, rfl, rfl⟩
      unfold getSMBServerReply at hr
      split_ifs at hr
      · cases hr
        exact rxInv_start request
      · exact (receive_inv (rxInv_start request) hr).1

variable {r : Reply}

/-- The bytes at the places are those of a success, exactly when no byte that was
received differs from one. -/
theorem agrees_iff
    (h : RxInv request r.rx)
    (hrequest : Header request)
    (places : List Nat)
    (hplaces : ∀ i ∈ places, i ∈ statusPlaces) :
    (∀ i ∈ places, r.rx.buf i = successByte i) ↔ ¬ r.Differs places := by
  constructor
  · rintro hagrees ⟨i, hi, b, hlast, hne⟩
    have hbyte := hagrees i hi
    rw [h.overlay, hlast] at hbyte
    exact hne hbyte
  · intro hsame i hi
    rw [h.overlay]
    cases hlast : r.rx.last i with
    | none => exact hrequest i (hplaces i hi)
    | some b =>
        by_contra hne
        exact hsame ⟨i, hi, b, hlast, hne⟩

/-- A whole reply holds the bytes that the checks look at. -/
theorem Reply.Whole.taken
    (h : r.Whole)
    (hinv : RxInv request r.rx)
    {i : Nat}
    (hi : i < 13) :
    r.rx.taken.getD i 0 = r.rx.buf i := by
  have hsize := hinv.size
  obtain ⟨-, hlong, hall⟩ := h
  rw [hinv.buf_front (by omega)]

theorem Reply.Whole.getField
    (h : r.Whole)
    (hinv : RxInv request r.rx)
    (pos n : Nat)
    (hpos : pos + n ≤ 13) :
    getField (fun i => r.rx.taken.getD i 0) pos n = getField r.rx.buf pos n := by
  induction n generalizing pos with
  | zero => rfl
  | succ n ih =>
      rw [Smb.getField, Smb.getField, ih (pos + 1) (by omega),
        h.taken hinv (by omega)]

/-- The four bytes of the status are its two halves. -/
theorem status_iff (buf : Nat → UInt8) :
    getField buf 9 4 = 0 ↔ eclass buf = 0 ∧ ecode buf = 0 := by
  unfold eclass ecode
  simp only [getField, Nat.reduceAdd]
  omega

/-- What the checks of `smb_OpenAndX` look at. -/
theorem lowStatus_iff (buf : Nat → UInt8) :
    (magic buf = smbMagic ∧ eclass buf = 0) ↔
      ∀ i ∈ lowStatusPlaces, buf i = successByte i := by
  rw [magic_iff, eclass_iff, show lowStatusPlaces = [4, 5, 6, 7] ++ [9, 10] from rfl,
    List.forall_mem_append]

/-- What the checks of the other two look at. -/
theorem fullStatus_iff (buf : Nat → UInt8) :
    (magic buf = smbMagic ∧ statusFailed buf = false) ↔
      ∀ i ∈ statusPlaces, buf i = successByte i := by
  have hfailed : statusFailed buf = false ↔ eclass buf = 0 ∧ ecode buf = 0 := by
    unfold statusFailed
    rw [decide_eq_false_iff_not, not_not, Nat.or_eq_zero_iff]
  rw [hfailed, magic_iff, eclass_iff, ecode_iff,
    show statusPlaces = [4, 5, 6, 7] ++ ([9, 10] ++ [11, 12]) from rfl,
    List.forall_mem_append, List.forall_mem_append]

end Replies

section Results

/-- What a function makes of its reply is sound exactly when the two checks, of the magic
and by `failed`, let only replies with a success pass. -/
theorem checked_sound_iff
    {before s : Driver} {r : Reply}
    (huid : s.uid = before.uid) (htid : s.tid = before.tid) (hfid : s.fid = before.fid)
    (failed : (Nat → UInt8) → Bool) (keep : Driver → Driver) :
    (checked failed keep r s).Sound before ↔
      (magic s.buf = smbMagic ∧ failed s.buf = false → r.Success) := by
  by_cases hmagic : magic s.buf = smbMagic
  · cases hfailed : failed s.buf with
    | true =>
        have hout : checked failed keep r s = ⟨-1000, s, r⟩ := by
          rw [checked, if_neg (not_not.mpr hmagic), if_pos hfailed]
        rw [hout]
        constructor
        · rintro - ⟨-, h⟩
          cases h
        · intro _
          exact ⟨fun h => absurd h (by simp), fun _ => ⟨by simp, huid, htid, hfid⟩⟩
    | false =>
        have hout : checked failed keep r s = ⟨1, keep s, r⟩ := by
          rw [checked, if_neg (not_not.mpr hmagic), if_neg (by simp [hfailed])]
        rw [hout]
        constructor
        · rintro ⟨h, -⟩ -
          exact h rfl
        · intro h
          have hsuccess := h ⟨hmagic, rfl⟩
          exact ⟨fun _ => hsuccess, fun hn => absurd hsuccess hn⟩
  · have hout : checked failed keep r s = ⟨-1, s, r⟩ := by
      rw [checked, if_pos hmagic]
    rw [hout]
    constructor
    · rintro - ⟨h, -⟩
      exact absurd h hmagic
    · intro _
      exact ⟨fun h => absurd h (by simp), fun _ => ⟨by simp, huid, htid, hfid⟩⟩

variable {request : Nat → UInt8} {r : Reply}

/-- A check of the whole status. -/
theorem fullStatus_success_iff
    (hinv : RxInv request r.rx)
    (hrequest : Header request) :
    (magic r.rx.buf = smbMagic ∧ statusFailed r.rx.buf = false → r.Success) ↔
      r.Whole ∨ r.Differs statusPlaces := by
  have hagrees := agrees_iff hinv hrequest statusPlaces (fun _ h => h)
  rw [fullStatus_iff, hagrees]
  constructor
  · intro h
    by_cases hdiffers : r.Differs statusPlaces
    · exact Or.inr hdiffers
    · exact Or.inl (h hdiffers).1
  · rintro (hwhole | hdiffers) hsame
    · have hbytes := hagrees.mpr hsame
      rw [← fullStatus_iff] at hbytes
      refine ⟨hwhole, ?_, ?_⟩
      · rw [hwhole.getField hinv 4 4 (by omega)]
        exact hbytes.1
      · rw [hwhole.getField hinv 9 4 (by omega), status_iff]
        have hstatus := hbytes.2
        unfold statusFailed at hstatus
        rw [decide_eq_false_iff_not, not_not, Nat.or_eq_zero_iff] at hstatus
        exact hstatus
    · exact absurd hdiffers hsame

/-- A check of the low half of the status. -/
theorem lowStatus_success_iff
    (hinv : RxInv request r.rx)
    (hrequest : Header request) :
    (magic r.rx.buf = smbMagic ∧ decide (eclass r.rx.buf ≠ 0) = false → r.Success) ↔
      (r.Whole ∧ ecode (fun i => r.rx.taken.getD i 0) = 0) ∨
        r.Differs lowStatusPlaces := by
  have hagrees :=
    agrees_iff hinv hrequest lowStatusPlaces
      (by simp [lowStatusPlaces, statusPlaces])
  rw [decide_eq_false_iff_not, not_not, lowStatus_iff, hagrees]
  constructor
  · intro h
    by_cases hdiffers : r.Differs lowStatusPlaces
    · exact Or.inr hdiffers
    · obtain ⟨hwhole, -, hstatus⟩ := h hdiffers
      exact Or.inl ⟨hwhole, ((status_iff _).mp hstatus).2⟩
  · rintro (⟨hwhole, hhigh⟩ | hdiffers) hsame
    · have hbytes := hagrees.mpr hsame
      rw [← lowStatus_iff] at hbytes
      refine ⟨hwhole, ?_, ?_⟩
      · rw [hwhole.getField hinv 4 4 (by omega)]
        exact hbytes.1
      · rw [status_iff]
        refine ⟨?_, hhigh⟩
        unfold eclass
        rw [hwhole.getField hinv 9 2 (by omega)]
        exact hbytes.2
    · exact absurd hdiffers hsame

theorem checked_reply
    (failed : (Nat → UInt8) → Bool) (keep : Driver → Driver) (s : Driver) :
    (checked failed keep r s).reply = r := by
  unfold checked
  split_ifs
  · rfl
  · rfl
  · rfl

/-- What `smb_SessionSetupAndX` and `smb_TreeConnectAndX` make of their last
reply. -/
theorem checked_fullStatus_sound_iff
    {before s : Driver} (keep : Driver → Driver)
    (hinv : RxInv request r.rx)
    (hrequest : Header request)
    (hbuf : s.buf = r.rx.buf)
    (huid : s.uid = before.uid) (htid : s.tid = before.tid)
    (hfid : s.fid = before.fid) :
    (checked statusFailed keep r s).Sound before ↔
      (checked statusFailed keep r s).reply.Whole ∨
        (checked statusFailed keep r s).reply.Differs statusPlaces := by
  rw [checked_reply, checked_sound_iff huid htid hfid, hbuf]
  exact fullStatus_success_iff hinv hrequest

theorem smbSessionSetupAndX_sound_iff
    {specs : ServerSpecs} {capabilities : Nat} {s : Driver} {o : Outcome}
    (h : smbSessionSetupAndX specs capabilities s = some o) :
    o.Sound s ↔ o.reply.Whole ∨ o.reply.Differs statusPlaces := by
  unfold smbSessionSetupAndX at h
  simp only at h
  split at h
  · cases h
  · rename_i r s' hexchange
    obtain ⟨hinv, hbuf, huid, htid, hfid⟩ := exchange_spec hexchange
    split_ifs at h
    · split at h
      · cases h
      · rename_i r' s'' hagain
        obtain ⟨hinv', hbuf', huid', htid', hfid'⟩ := exchange_spec hagain
        rw [← Option.some.inj h]
        exact
          checked_fullStatus_sound_iff _ hinv'
            (header_sessionSetupRequest _ _ _ _) hbuf' (huid'.trans huid)
            (htid'.trans htid) (hfid'.trans hfid)
    · rw [← Option.some.inj h]
      exact
        checked_fullStatus_sound_iff _ hinv (header_sessionSetupRequest _ _ _ _)
          hbuf huid htid hfid

theorem smbTreeConnectAndX_sound_iff
    {specs : ServerSpecs} {shareName : List UInt8} {s : Driver} {o : Outcome}
    (h : smbTreeConnectAndX specs shareName s = some o) :
    o.Sound s ↔ o.reply.Whole ∨ o.reply.Differs statusPlaces := by
  unfold smbTreeConnectAndX at h
  split at h
  · cases h
  · rename_i r s' hexchange
    obtain ⟨hinv, hbuf, huid, htid, hfid⟩ := exchange_spec hexchange
    rw [← Option.some.inj h]
    exact
      checked_fullStatus_sound_iff _ hinv (header_treeConnectRequest _ _ _ _)
        hbuf huid htid hfid

theorem smbOpenAndX_sound_iff
    {vmc : Bool} {specs : ServerSpecs} {filename : List UInt8} {write : Bool}
    {s : Driver} {o : Outcome}
    (h : smbOpenAndX vmc specs filename write s = some o) :
    o.Sound s ↔
      (o.reply.Whole ∧ ecode (fun i => o.reply.rx.taken.getD i 0) = 0) ∨
        o.reply.Differs lowStatusPlaces := by
  unfold smbOpenAndX at h
  split_ifs at h
  split at h
  · cases h
  · rename_i r s' hexchange
    obtain ⟨hinv, hbuf, huid, htid, hfid⟩ := exchange_spec hexchange
    have huid' : s'.uid = s.uid := huid
    have htid' : s'.tid = s.tid := htid
    have hfid' : s'.fid = s.fid := hfid
    rw [← Option.some.inj h, checked_reply, checked_sound_iff huid' htid' hfid', hbuf]
    exact lowStatus_success_iff hinv (header_openRequest _ _ _ _ _ _)

/-- The three functions succeed on a success only, and keep what they had
otherwise, exactly when their last request was answered by a whole reply (for
`smb_OpenAndX`: with a high half of the status that is zero), or a byte that they
check was received for it and differs from a success. -/
theorem smbSetup_sound_iff (specs : ServerSpecs) (s : Driver) (o : Outcome) :
    (∀ capabilities,
      smbSessionSetupAndX specs capabilities s = some o →
      (o.Sound s ↔ o.reply.Whole ∨ o.reply.Differs statusPlaces)) ∧
    (∀ shareName,
      smbTreeConnectAndX specs shareName s = some o →
      (o.Sound s ↔ o.reply.Whole ∨ o.reply.Differs statusPlaces)) ∧
    (∀ vmc filename write,
      smbOpenAndX vmc specs filename write s = some o →
      (o.Sound s ↔
        (o.reply.Whole ∧ ecode (fun i => o.reply.rx.taken.getD i 0) = 0) ∨
          o.reply.Differs lowStatusPlaces)) := by
  refine ⟨?_, ?_, ?_⟩
  · intro capabilities h
    exact smbSessionSetupAndX_sound_iff h
  · intro shareName h
    exact smbTreeConnectAndX_sound_iff h
  · intro vmc filename write h
    exact smbOpenAndX_sound_iff h

/-- A server with share level security and ASCII strings. -/
def plainSpecs : ServerSpecs where
  maxBufferSize := 16644
  maxMpxCount := 50
  sessionKey := 0
  stringsCF := 1
  primaryDomainServerName := []
  securityMode := shareSecurityLevel
  username := []
  password := fun _ => 0
  passwordLen := 1

/-- A driver for which the network gives these results. -/
def driverFor (sends : List Int) (recvs : List (List UInt8)) : Driver where
  buf := fun _ => 0
  uid := 7
  tid := 8
  fid := 9
  readUid := 0
  readTid := 0
  ioSema := true
  sends := sends
  recvs := recvs

/-- A reply up to its status. -/
def replyTo (cmd : UInt8) (status : List UInt8) : List UInt8 :=
  [0, 0, 0, 9, 0xff, 0x53, 0x4d, 0x42, cmd] ++ status

theorem smbSetup_sound_iff_success :
    (∃ o, smbSessionSetupAndX plainSpecs 0
        (driverFor [100] [replyTo 0x73 [0, 0, 0, 0]]) = some o ∧
      (o.Sound (driverFor [100] [replyTo 0x73 [0, 0, 0, 0]]) ↔
        o.reply.Whole ∨ o.reply.Differs statusPlaces)) ∧
    (∃ o, smbTreeConnectAndX plainSpecs [] (driverFor [-1] []) = some o ∧
      (o.Sound (driverFor [-1] []) ↔
        o.reply.Whole ∨ o.reply.Differs statusPlaces)) ∧
    (∃ o, smbOpenAndX true plainSpecs [] false
        (driverFor [100] [replyTo 0x2d [0x22, 0, 0, 0xc0]]) = some o ∧
      (o.Sound (driverFor [100] [replyTo 0x2d [0x22, 0, 0, 0xc0]]) ↔
        (o.reply.Whole ∧ ecode (fun i => o.reply.rx.taken.getD i 0) = 0) ∨
          o.reply.Differs lowStatusPlaces)) := by
  refine ⟨?_, ?_, ?_⟩
  · have hsome :
        (smbSessionSetupAndX plainSpecs 0
          (driverFor [100] [replyTo 0x73 [0, 0, 0, 0]])).isSome = true := by
      decide +kernel
    obtain ⟨o, ho⟩ := Option.isSome_iff_exists.mp hsome
    exact ⟨o, ho, (smbSetup_sound_iff _ _ o).1 _ ho⟩
  · have hsome :
        (smbTreeConnectAndX plainSpecs [] (driverFor [-1] [])).isSome = true := by
      decide +kernel
    obtain ⟨o, ho⟩ := Option.isSome_iff_exists.mp hsome
    exact ⟨o, ho, (smbSetup_sound_iff _ _ o).2.1 _ ho⟩
  · have hsome :
        (smbOpenAndX true plainSpecs [] false
          (driverFor [100] [replyTo 0x2d [0x22, 0, 0, 0xc0]])).isSome = true := by
      decide +kernel
    obtain ⟨o, ho⟩ := Option.isSome_iff_exists.mp hsome
    exact ⟨o, ho, (smbSetup_sound_iff _ _ o).2.2 _ _ _ ho⟩

/-- A success that no reply was delivered for. -/
theorem exists_unsound_of_failed
    {x : Option Outcome}
    (h : x.map (fun o => (o.ret, o.reply.ret)) = some (1, -1))
    (before : Driver) :
    ∃ o, x = some o ∧ o.ret = 1 ∧ ¬ o.Sound before := by
  obtain ⟨o, ho, hpair⟩ := Option.map_eq_some_iff.mp h
  rw [Prod.mk.injEq] at hpair
  refine ⟨o, ho, hpair.1, ?_⟩
  rintro ⟨hsuccess, -⟩
  have hret := (hsuccess hpair.1).1.1
  rw [hpair.2] at hret
  exact absurd hret (by decide)

/-- A success whose reply has another status. -/
theorem exists_unsound_of_status
    {x : Option Outcome} {status : Nat}
    (h :
      x.map (fun o => (o.ret, getField (fun i => o.reply.rx.taken.getD i 0) 9 4)) =
        some (1, status))
    (hstatus : status ≠ 0)
    (before : Driver) :
    ∃ o, x = some o ∧ o.ret = 1 ∧ ¬ o.Sound before := by
  obtain ⟨o, ho, hpair⟩ := Option.map_eq_some_iff.mp h
  rw [Prod.mk.injEq] at hpair
  refine ⟨o, ho, hpair.1, ?_⟩
  rintro ⟨hsuccess, -⟩
  have hzero := (hsuccess hpair.1).2.2
  exact hstatus (hpair.2.symm.trans hzero)

/-- With a request that was not sent each of the three functions takes its own
request for a success, and `smb_OpenAndX` takes a status with a zero low half for
one. -/
theorem smbSetup_succeeds_without_reply :
    (∃ o, smbSessionSetupAndX plainSpecs 0 (driverFor [-1] []) = some o ∧
      o.ret = 1 ∧ ¬ o.Sound (driverFor [-1] [])) ∧
    (∃ o, smbTreeConnectAndX plainSpecs [] (driverFor [-1] []) = some o ∧
      o.ret = 1 ∧ ¬ o.Sound (driverFor [-1] [])) ∧
    (∃ o, smbOpenAndX false plainSpecs [] false (driverFor [-1] []) = some o ∧
      o.ret = 1 ∧ ¬ o.Sound (driverFor [-1] [])) ∧
    (∃ o, smbOpenAndX false plainSpecs [] false
        (driverFor [100] [replyTo 0x2d [0, 0, 1, 0]]) = some o ∧
      o.ret = 1 ∧ ¬ o.Sound (driverFor [100] [replyTo 0x2d [0, 0, 1, 0]])) := by
  refine ⟨?_, ?_, ?_, ?_⟩
  · exact exists_unsound_of_failed (by decide +kernel) _
  · exact exists_unsound_of_failed (by decide +kernel) _
  · exact exists_unsound_of_failed (by decide +kernel) _
  · exact @exists_unsound_of_status _ 65536 (by decide +kernel) (by decide) _

end Results

end Smb
end Ps2Cdvd
