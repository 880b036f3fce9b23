import Ps2Cdvd.Lib.Layout
import Ps2Cdvd.Smb.Setup

/-!
# The lengths that SMB requests declare

A request has a part of fixed size that ends with `ByteCount`, and behind it the bytes
that the builder lays out: passwords, strings of one or two bytes for each character, or
the data of a write.  Its session header declares the length of both, less the four bytes
of the session header itself.

* `Request.built`: what is laid out, `ByteCount`, and the length that is declared;
* `request_declares_iff`: every request but that of `smb_OpenAndX` declares its length.
-/

namespace Ps2Cdvd
namespace Smb

open Lib

section Source

/-- `"NT LM 0.12"` -/
def dialect : List UInt8 := [0x4e, 0x54, 0x20, 0x4c, 0x4d, 0x20, 0x30, 0x2e, 0x31, 0x32]

/-- The request of `smb_NegotiateProtocol`. -/
def negotiateRequest (buf : Nat → UInt8) : Nat → UInt8 :=
  let length := dialect.length
  let buf :=
    putFields
      [(4, 4, smbMagic), (8, 1, 0x72), (13, 1, 0x08), (14, 2, 0x0001),
        (37, 2, length + 2), (39, 1, 0x02)]
      (writeRange buf 0 1024 (fun _ => 0))
  -- `strcpy(NPR->DialectName, dialect)`
  let buf := writeRange buf 40 (length + 1) (fun i => dialect.getD i 0)
  rawTcpSetSessionHeader (37 + length) buf

/-- `smb_Write_Request`, with the UID and TID that `smb_OpenAndX` puts into it. -/
def smbWriteRequest (uid tid : Nat) : Nat → UInt8 :=
  putFields
    [(4, 4, smbMagic), (8, 1, 0x2f), (14, 2, 0x4000), (28, 2, tid), (32, 2, uid),
      (36, 1, 14), (37, 1, 0xff), (51, 2, 1), (59, 2, 0x3f)]
    (fun _ => 0)

/-- The request of `smb_WriteFile`. -/
def writeRequest
    (uid tid fid offsetlow offsethigh : Nat) (writebuf : List UInt8)
    (buf : Nat → UInt8) : Nat → UInt8 :=
  let nbytes := writebuf.length
  let buf := writeRange buf 0 67 (smbWriteRequest uid tid)
  let buf :=
    putFields
      [(41, 2, fid), (43, 4, offsetlow), (61, 4, offsethigh), (53, 2, nbytes),
        (57, 2, nbytes), (65, 2, nbytes)] buf
  -- `DataOffset` points to the data, from behind the session header on
  let buf :=
    writeRange buf (4 + getField buf 59 2) nbytes (fun i => writebuf.getD i 0)
  rawTcpSetSessionHeader (63 + nbytes) buf

/-- The bytes that `GetSMBServerReply` gives to `plwip_send`. -/
def sentBytes (buf : Nat → UInt8) : List UInt8 :=
  (List.range (rawTcpGetSessionHeader buf + 4)).map buf

end Source

section Purpose

/-- The requests that are built in `SMB_buf`. -/
inductive Request
  | negotiate
  | sessionSetup (specs : ServerSpecs) (capabilities authType : Nat)
  | treeConnect (specs : ServerSpecs) (uid : Nat) (shareName : List UInt8)
  | openAndX (specs : ServerSpecs) (uid tid : Nat) (filename : List UInt8) (write : Bool)
  | writeFile (uid tid fid offsetlow offsethigh : Nat) (writebuf : List UInt8)

/-- The buffer with the request in it. -/
def Request.build : Request → (Nat → UInt8) → Nat → UInt8
  | .negotiate => negotiateRequest
  | .sessionSetup specs capabilities authType =>
      sessionSetupRequest specs capabilities authType
  | .treeConnect specs uid shareName => treeConnectRequest specs uid shareName
  | .openAndX specs uid tid filename write => openRequest specs uid tid filename write
  | .writeFile uid tid fid offsetlow offsethigh writebuf =>
      writeRequest uid tid fid offsetlow offsethigh writebuf

/-- The place behind `ByteCount`, where the variable bytes begin. -/
def Request.fixedSize : Request → Nat
  | .negotiate => 39
  | .sessionSetup _ _ _ => 65
  | .treeConnect _ _ _ => 47
  | .openAndX _ _ _ _ _ => 69
  | .writeFile _ _ _ _ _ _ => 67

/-- A string with `cf` bytes for each character. -/
def wideChars (cf : Nat) (cs : List UInt8) : List UInt8 :=
  cs.flatMap (fun c => c :: List.replicate (cf - 1) 0)

/-- The same with its terminator. -/
def wideString (cf : Nat) (cs : List UInt8) : List UInt8 :=
  wideChars cf cs ++ List.replicate cf 0

/-- The padding behind a password. -/
def padding (cf passwordLen : Nat) : List UInt8 :=
  List.replicate (alignment cf passwordLen) 0

/-- The password of one kind of authentication. -/
def ServerSpecs.passwordBytes (specs : ServerSpecs) (authType : Nat) : List UInt8 :=
  (List.range specs.passwordLen).map (fun i => specs.password (24 * authType + i))

/-- The password of a session setup: with user level security alone. -/
def ServerSpecs.sessionPassword (specs : ServerSpecs) (authType : Nat) : List UInt8 :=
  if specs.securityMode = userSecurityLevel then specs.passwordBytes authType else []

/-- The password of a tree connect; without share level security it is one zero. -/
def ServerSpecs.sharePassword (specs : ServerSpecs) : List UInt8 :=
  if specs.securityMode = shareSecurityLevel then specs.passwordBytes ntlmAuth else [0]

/-- The characters of the domain. -/
def ServerSpecs.domain (specs : ServerSpecs) : List UInt8 :=
  domainChars specs.primaryDomainServerName specs.stringsCF
    specs.primaryDomainServerName.length 0

/-- `"?????\0"` -/
def anyDevice : List UInt8 := [0x3f, 0x3f, 0x3f, 0x3f, 0x3f, 0]

/-- The variable bytes of a request, in their order. -/
def Request.variable : Request → List UInt8
  | .negotiate => 0x02 :: dialect ++ [0]
  | .sessionSetup specs _ authType =>
      specs.sessionPassword authType ++
        padding specs.stringsCF (specs.sessionPassword authType).length ++
        wideString specs.stringsCF specs.username ++
        wideString specs.stringsCF specs.domain ++
        List.replicate (2 * specs.stringsCF) 0
  | .treeConnect specs _ shareName =>
      specs.sharePassword ++ padding specs.stringsCF specs.sharePassword.length ++
        wideString specs.stringsCF shareName ++ anyDevice
  | .openAndX specs _ _ filename _ =>
      List.replicate (if specs.stringsCF = 2 then 1 else 0) 0 ++
        wideString specs.stringsCF filename
  | .writeFile _ _ _ _ _ writebuf => writebuf

/-- What the buffer holds behind the request: zeros, or what it held before. -/
def Request.behind : Request → (Nat → UInt8) → Nat → UInt8
  | .writeFile _ _ _ _ _ _, buf => buf
  | _, _ => fun _ => 0

/-- The strings of the server have one or two bytes for each character. -/
def Request.KnownWidth : Request → Prop
  | .sessionSetup specs _ _ => specs.stringsCF = 1 ∨ specs.stringsCF = 2
  | .treeConnect specs _ _ => specs.stringsCF = 1 ∨ specs.stringsCF = 2
  | .openAndX specs _ _ _ _ => specs.stringsCF = 1 ∨ specs.stringsCF = 2
  | _ => True

/-- The request fits `SMB_buf`. -/
def Request.Fits (r : Request) : Prop :=
  r.KnownWidth ∧ r.fixedSize + r.variable.length ≤ 1024

/-- `ByteCount` of a built request. -/
def Request.byteCount (r : Request) (buf : Nat → UInt8) : Nat :=
  getField (r.build buf) (r.fixedSize - 2) 2

/-- A request declares the length it carries: the session header gives the part behind it
up to `ByteCount` and the `ByteCount` bytes, this is what is sent, and `ByteCount` is the
number of the variable bytes, which lie there. -/
structure Request.Declares (r : Request) (buf : Nat → UInt8) : Prop where
  header :
    rawTcpGetSessionHeader (r.build buf) = (r.fixedSize - 4) + r.byteCount buf
  sent :
    (sentBytes (r.build buf)).length = 4 + rawTcpGetSessionHeader (r.build buf)
  count : r.byteCount buf = r.variable.length
  laid : Laid (r.behind buf) r.fixedSize 1024 r.variable (r.build buf)

/-- The request is that of `smb_OpenAndX`. -/
def Request.IsOpen : Request → Prop
  | .openAndX _ _ _ _ _ => True
  | _ => False

end Purpose

section Fields

variable {buf : Nat → UInt8}

theorem sessionHeader_get
    {size : Nat}
    (hsize : size < 16777216)
    (buf : Nat → UInt8) :
    rawTcpGetSessionHeader (rawTcpSetSessionHeader size buf) = size := by
  have hbyte :
      ∀ i, i < 4 →
        rawTcpSetSessionHeader size buf i =
          [0, UInt8.ofNat (size / 65536), UInt8.ofNat (size / 256),
            UInt8.ofNat size].getD i 0 := by
    intro i hi
    have hin := @writeRange_inside _ buf 0 4 i
      (fun i => [0, UInt8.ofNat (size / 65536), UInt8.ofNat (size / 256),
        UInt8.ofNat size].getD i 0) hi
    rw [Nat.zero_add] at hin
    exact hin
  rw [rawTcpGetSessionHeader, hbyte 1 (by omega), hbyte 2 (by omega), hbyte 3 (by omega)]
  simp only [List.getD_cons_succ, List.getD_cons_zero, UInt8.toNat_ofNat']
  omega

/-- The session header is in front of every field. -/
theorem getField_sessionHeader
    {pos : Nat}
    (hpos : 4 ≤ pos)
    (size n : Nat) (buf : Nat → UInt8) :
    getField (rawTcpSetSessionHeader size buf) pos n = getField buf pos n := by
  induction n generalizing pos with
  | zero => rfl
  | succ n ih =>
      rw [getField, getField, ih (by omega), rawTcpSetSessionHeader,
        writeRange_outside _ _ (by omega)]

/-- A field of two bytes that was written last. -/
theorem getField_putField
    (pos : Nat) {v : Nat}
    (hv : v < 65536)
    (buf : Nat → UInt8) :
    getField (putField buf (pos, 2, v)) pos 2 = v := by
  have hfirst := @writeRange_inside _ buf pos 2 0 (fun i => UInt8.ofNat (v / 256 ^ i))
    (by omega)
  have hsecond := @writeRange_inside _ buf pos 2 1 (fun i => UInt8.ofNat (v / 256 ^ i))
    (by omega)
  rw [Nat.add_zero] at hfirst
  simp only [getField, putField, hfirst, hsecond, UInt8.toNat_ofNat', pow_zero, pow_one,
    Nat.div_one]
  omega

/-- A write behind a field of two bytes, or before it. -/
theorem getField_outside
    {pos at_ n : Nat}
    (hpos : pos + 2 ≤ at_ ∨ at_ + n ≤ pos)
    (buf f : Nat → UInt8) :
    getField (writeRange buf at_ n f) pos 2 = getField buf pos 2 := by
  simp only [getField]
  rw [writeRange_outside _ _ (by omega), writeRange_outside _ _ (by omega)]

variable
  {back : Nat → UInt8}
  {base : Nat}
  {l : List UInt8}

theorem laid_fields
    (h : Laid back base 1024 l buf)
    {fields : List (Nat × Nat × Nat)}
    (hpos : ∀ f ∈ fields, f.1 + f.2.1 ≤ base) :
    Laid back base 1024 l (putFields fields buf) := by
  induction fields generalizing buf with
  | nil => exact h
  | cons f fields ih =>
      apply ih
      · exact h.below (hpos f List.mem_cons_self) _
      · intro f' hf'
        exact hpos f' (List.mem_cons_of_mem _ hf')

theorem laid_sessionHeader
    (h : Laid back base 1024 l buf)
    (hbase : 4 ≤ base)
    (size : Nat) :
    Laid back base 1024 l (rawTcpSetSessionHeader size buf) :=
  h.below (by omega) _

theorem wideChars_cons (cf : Nat) (c : UInt8) (cs : List UInt8) :
    wideChars cf (c :: cs) = [c] ++ List.replicate (cf - 1) 0 ++ wideChars cf cs := rfl

theorem length_wideChars
    {cf : Nat}
    (hcf : 0 < cf)
    (cs : List UInt8) :
    (wideChars cf cs).length = cf * cs.length := by
  induction cs with
  | nil => rfl
  | cons c cs ih =>
      rw [wideChars_cons, List.length_append, ih, List.length_append, List.length_replicate,
        List.length_singleton, List.length_cons, Nat.mul_succ]
      omega

theorem length_wideString
    {cf : Nat}
    (hcf : 0 < cf)
    (cs : List UInt8) :
    (wideString cf cs).length = cf * cs.length + cf := by
  rw [wideString, List.length_append, length_wideChars hcf, List.length_replicate]

/-- The loop over the characters of a string lays them out. -/
theorem laid_putString
    {cf : Nat}
    (hcf : 0 < cf)
    (cs : List UInt8)
    (h : Laid (fun _ => 0) base 1024 l buf) :
    Laid (fun _ => 0) base 1024 (l ++ wideChars cf cs)
      (putString cf cs (base + l.length) buf) := by
  induction cs generalizing buf l with
  | nil =>
      rw [wideChars, List.flatMap_nil, List.append_nil]
      exact h
  | cons c cs ih =>
      have hchar :=
        h.write [c] (fun _ => c) (by intro i hi; rw [List.getElem_singleton])
      have hnext := ih (hchar.fill (cf - 1))
      have hpos :
          base + (l ++ [c] ++ List.replicate (cf - 1) 0).length =
            base + l.length + cf := by
        rw [List.length_append, List.length_append, List.length_replicate,
          List.length_singleton]
        omega
      rw [hpos] at hnext
      rw [wideChars_cons, ← List.append_assoc, ← List.append_assoc]
      exact hnext

/-- A string and its terminator. -/
theorem laid_wideString
    {cf : Nat}
    (hcf : 0 < cf)
    (cs : List UInt8)
    (h : Laid (fun _ => 0) base 1024 l buf) :
    Laid (fun _ => 0) base 1024 (l ++ wideString cf cs)
      (putString cf cs (base + l.length) buf) := by
  rw [wideString, ← List.append_assoc]
  exact (laid_putString hcf cs h).fill cf

end Fields

section Builders

variable
  {back buf : Nat → UInt8}
  {base size : Nat}
  {l : List UInt8}

/-- `ByteCount` and the session header are written last. -/
theorem laid_finished
    (h : Laid back base 1024 l buf)
    (hbase : 6 ≤ base)
    (hfits : base + l.length ≤ 1024)
    (size : Nat) :
    Laid back base 1024 l
        (rawTcpSetSessionHeader size (putFields [(base - 2, 2, l.length)] buf)) ∧
      getField (rawTcpSetSessionHeader size (putFields [(base - 2, 2, l.length)] buf))
        (base - 2) 2 = l.length := by
  constructor
  · refine laid_sessionHeader (laid_fields h ?_) (by omega) size
    intro f hf
    rw [List.mem_singleton.mp hf]
    show base - 2 + 2 ≤ base
    omega
  · rw [getField_sessionHeader (by omega)]
    exact getField_putField _ (by omega) buf

/-- The buffer is cleared before the header is written. -/
theorem laid_smbHeader
    (hbase : 38 ≤ base)
    (cmd flags cf uid tid wordcount : Nat) (buf : Nat → UInt8) :
    Laid (fun _ => 0) base 1024 [] (smbHeader cmd flags cf uid tid wordcount buf) := by
  have hclear :
      Laid (fun _ => 0) base 1024 [] (writeRange buf 0 1024 (fun _ => 0)) := by
    refine laid_nil ?_
    intro x _ hx
    have hin := @writeRange_inside _ buf 0 1024 x (fun _ => 0) hx
    rw [Nat.zero_add] at hin
    exact hin
  unfold smbHeader
  refine laid_fields hclear ?_
  intro f hf
  simp only [List.mem_cons, List.not_mem_nil, or_false] at hf
  rcases hf with rfl | rfl | rfl | rfl | rfl | rfl | rfl | rfl <;> dsimp only <;> omega

/-- A password, or none, at the start of the variable bytes. -/
theorem laid_password
    (h : Laid (fun _ => 0) base 1024 [] buf)
    (specs : ServerSpecs) (authType : Nat) :
    Laid (fun _ => 0) base 1024 (specs.passwordBytes authType)
      (writeRange buf base specs.passwordLen
        (fun i => specs.password (24 * authType + i))) := by
  have hwrite :=
    h.write (specs.passwordBytes authType) (fun i => specs.password (24 * authType + i))
      (by
        intro i hi
        simp only [ServerSpecs.passwordBytes, List.getElem_map, List.getElem_range])
  have hlength : (specs.passwordBytes authType).length = specs.passwordLen := by
    rw [ServerSpecs.passwordBytes, List.length_map, List.length_range]
  rw [hlength, List.nil_append, List.length_nil, Nat.add_zero] at hwrite
  exact hwrite

end Builders

section Results

variable
  {specs : ServerSpecs}
  {buf : Nat → UInt8}

theorem length_padding (cf n : Nat) : (padding cf n).length = alignment cf n :=
  List.length_replicate

theorem length_passwordBytes (specs : ServerSpecs) (authType : Nat) :
    (specs.passwordBytes authType).length = specs.passwordLen := by
  rw [ServerSpecs.passwordBytes, List.length_map, List.length_range]

theorem length_sessionPassword (specs : ServerSpecs) (authType : Nat) :
    (specs.sessionPassword authType).length =
      if specs.securityMode = userSecurityLevel then specs.passwordLen else 0 := by
  unfold ServerSpecs.sessionPassword
  split_ifs
  · exact length_passwordBytes specs authType
  · rfl

theorem length_sharePassword (specs : ServerSpecs) :
    specs.sharePassword.length =
      if specs.securityMode = shareSecurityLevel then specs.passwordLen else 1 := by
  unfold ServerSpecs.sharePassword
  split_ifs
  · exact length_passwordBytes specs ntlmAuth
  · rfl

/-- What a builder has laid out, with its `ByteCount`, and the length that its session
header declares. -/
structure Request.Built (r : Request) (declared : Nat) (buf : Nat → UInt8) : Prop where
  laid : Laid (r.behind buf) r.fixedSize 1024 r.variable (r.build buf)
  count : r.byteCount buf = r.variable.length
  header : rawTcpGetSessionHeader (r.build buf) = declared

/-- A builder that has laid out the variable bytes in `body`, and writes `ByteCount` and
the session header last. -/
theorem Request.built
    {r : Request} {body : Nat → UInt8} {size : Nat}
    (hfits : r.Fits)
    (hbase : 6 ≤ r.fixedSize)
    (hsize : size < 16777216)
    (hbody : Laid (r.behind buf) r.fixedSize 1024 r.variable body)
    (hbuild :
      r.build buf =
        rawTcpSetSessionHeader size
          (putFields [(r.fixedSize - 2, 2, r.variable.length)] body)) :
    r.Built size buf := by
  obtain ⟨hlaid, hcount⟩ := laid_finished hbody hbase hfits.2 size
  constructor
  · rw [hbuild]
    exact hlaid
  · rw [Request.byteCount, hbuild]
    exact hcount
  · rw [hbuild]
    exact sessionHeader_get hsize _

/-- A session setup up to the password. -/
def sessionFront (specs : ServerSpecs) (capabilities authType : Nat) (buf : Nat → UInt8) :
    Nat → UInt8 :=
  let buf :=
    putFields
      [(41, 2, if 65535 < specs.maxBufferSize then 65535 else specs.maxBufferSize),
        (43, 2, if 2 ≤ specs.maxMpxCount then 2 else specs.maxMpxCount), (45, 2, 1),
        (47, 4, specs.sessionKey), (59, 4, capabilities)]
      (smbHeader 0x73 0x08 specs.stringsCF 0 0 13 buf)
  if specs.securityMode = userSecurityLevel then
    putFields [(if authType = lmAuth then 51 else 53, 2, specs.passwordLen)]
      (writeRange buf 65 specs.passwordLen
        (fun i => specs.password (24 * authType + i)))
  else buf

theorem laid_sessionFront
    (specs : ServerSpecs) (capabilities authType : Nat) (buf : Nat → UInt8) :
    Laid (fun _ => 0) 65 1024 (specs.sessionPassword authType)
      (sessionFront specs capabilities authType buf) := by
  have hfixed :
      ∀ a b c d : Nat,
        Laid (fun _ => 0) 65 1024 []
          (putFields [(41, 2, a), (43, 2, b), (45, 2, 1), (47, 4, c), (59, 4, d)]
            (smbHeader 0x73 0x08 specs.stringsCF 0 0 13 buf)) := by
    intro a b c d
    refine laid_fields (laid_smbHeader (by omega) _ _ _ _ _ _ _) ?_
    simp
  unfold sessionFront ServerSpecs.sessionPassword
  dsimp only
  by_cases huser : specs.securityMode = userSecurityLevel
  · rw [if_pos huser, if_pos huser]
    refine laid_fields (laid_password (hfixed _ _ _ _) specs authType) ?_
    intro f hf
    rw [List.mem_singleton.mp hf]
    dsimp only
    split_ifs
    · omega
    · omega
  · rw [if_neg huser, if_neg huser]
    exact hfixed _ _ _ _

theorem built_sessionSetup
    {capabilities authType : Nat}
    (hfits : (Request.sessionSetup specs capabilities authType).Fits)
    (buf : Nat → UInt8) :
    (Request.sessionSetup specs capabilities authType).Built
      (61 + (Request.sessionSetup specs capabilities authType).variable.length) buf := by
  have hroom := hfits.2
  have hcf : 0 < specs.stringsCF := by
    rcases hfits.1 with h | h
    · omega
    · omega
  have hbody :=
    (laid_wideString hcf specs.domain
      (laid_wideString hcf specs.username
        ((laid_sessionFront specs capabilities authType buf).fill
          (alignment specs.stringsCF (specs.sessionPassword authType).length)))).write
      (List.replicate (2 * specs.stringsCF) 0) (fun _ => 0)
      (fun _ _ => (List.getElem_replicate _).symm)
  refine Request.built hfits (by simp [Request.fixedSize]) (by omega) hbody ?_
  show sessionSetupRequest specs capabilities authType buf = _
  unfold sessionSetupRequest sessionFront
  simp only [Request.variable, Request.fixedSize, padding, List.length_append,
    length_wideString hcf, List.length_replicate, length_sessionPassword,
    decide_eq_true_eq, ← Nat.add_assoc, ServerSpecs.domain]
  by_cases huser : specs.securityMode = userSecurityLevel
  · simp only [if_pos huser]
  · simp only [if_neg huser]

/-- A tree connect up to the password. -/
def treeFront (specs : ServerSpecs) (uid : Nat) (buf : Nat → UInt8) : Nat → UInt8 :=
  let buf := smbHeader 0x75 0x08 specs.stringsCF uid 0 4 buf
  let share := decide (specs.securityMode = shareSecurityLevel)
  let passwordLen := if share then specs.passwordLen else 1
  let buf :=
    if share then
      writeRange buf 47 passwordLen (fun i => specs.password (24 * ntlmAuth + i))
    else buf
  putFields [(43, 2, passwordLen)] buf

theorem laid_treeFront (specs : ServerSpecs) (uid : Nat) (buf : Nat → UInt8) :
    Laid (fun _ => 0) 47 1024 specs.sharePassword (treeFront specs uid buf) := by
  have hheader :
      Laid (fun _ => 0) 47 1024 [] (smbHeader 0x75 0x08 specs.stringsCF uid 0 4 buf) :=
    laid_smbHeader (by omega) _ _ _ _ _ _ _
  unfold treeFront ServerSpecs.sharePassword
  simp only [decide_eq_true_eq]
  refine laid_fields ?_ (by simp)
  by_cases hshare : specs.securityMode = shareSecurityLevel
  · rw [if_pos hshare, if_pos hshare, if_pos hshare]
    exact laid_password hheader specs ntlmAuth
  · -- the one byte of the password is not written
    rw [if_neg hshare, if_neg hshare]
    exact hheader.fill 1

theorem built_treeConnect
    {uid : Nat} {shareName : List UInt8}
    (hfits : (Request.treeConnect specs uid shareName).Fits)
    (buf : Nat → UInt8) :
    (Request.treeConnect specs uid shareName).Built
      (43 + (Request.treeConnect specs uid shareName).variable.length) buf := by
  have hroom := hfits.2
  have hcf : 0 < specs.stringsCF := by
    rcases hfits.1 with h | h
    · omega
    · omega
  have hdevice :
      ∀ (i : Nat) (hi : i < anyDevice.length),
        (fun i => if i < 5 then (0x3f : UInt8) else 0) i = anyDevice[i] := by decide
  have hbody :=
    (laid_wideString hcf shareName
      ((laid_treeFront specs uid buf).fill
        (alignment specs.stringsCF specs.sharePassword.length))).write
      anyDevice _ hdevice
  refine Request.built hfits (by simp [Request.fixedSize]) (by omega) hbody ?_
  show treeConnectRequest specs uid shareName buf = _
  unfold treeConnectRequest treeFront
  simp only [Request.variable, Request.fixedSize, padding, List.length_append,
    length_wideString hcf, List.length_replicate, length_sharePassword,
    decide_eq_true_eq, ← Nat.add_assoc]
  by_cases hshare : specs.securityMode = shareSecurityLevel
  · simp only [if_pos hshare]
    rfl
  · simp only [if_neg hshare]
    rfl

/-- The number in front of the offset is one too large: `ByteCount` ends at 69. -/
theorem built_openAndX
    {uid tid : Nat} {filename : List UInt8} {write : Bool}
    (hfits : (Request.openAndX specs uid tid filename write).Fits)
    (buf : Nat → UInt8) :
    (Request.openAndX specs uid tid filename write).Built
      (66 + (Request.openAndX specs uid tid filename write).variable.length) buf := by
  have hroom := hfits.2
  have hcf : 0 < specs.stringsCF := by
    rcases hfits.1 with h | h
    · omega
    · omega
  have hfixed :
      ∀ a b : Nat,
        Laid (fun _ => 0) 69 1024 []
          (putFields [(43, 2, a), (47, 2, b), (53, 2, 1)]
            (smbHeader 0x2d 0x10 specs.stringsCF uid tid 15 buf)) := by
    intro a b
    refine laid_fields (laid_smbHeader (by omega) _ _ _ _ _ _ _) ?_
    simp
  have hbody :=
    laid_wideString hcf filename
      ((hfixed (if write then 2 else 0) (if write then 0x80 else 0x01)).fill
        (if specs.stringsCF = 2 then 1 else 0))
  refine Request.built hfits (by simp [Request.fixedSize]) (by omega) hbody ?_
  show openRequest specs uid tid filename write buf = _
  unfold openRequest
  simp only [Request.variable, Request.fixedSize, List.length_append, List.nil_append,
    length_wideString hcf, List.length_replicate, ← Nat.add_assoc]

/-- The fields of a negotiate request up to `ByteCount`. -/
def negotiateFront (buf : Nat → UInt8) : Nat → UInt8 :=
  putFields
    [(4, 4, smbMagic), (8, 1, 0x72), (13, 1, 0x08), (14, 2, 0x0001),
      (37, 2, dialect.length + 2)]
    (writeRange buf 0 1024 (fun _ => 0))

theorem built_negotiate (buf : Nat → UInt8) :
    Request.negotiate.Built (35 + Request.negotiate.variable.length) buf := by
  have hclear :
      Laid (fun _ => 0) 39 1024 [] (writeRange buf 0 1024 (fun _ => 0)) := by
    refine laid_nil ?_
    intro x _ hx
    have hin := @writeRange_inside _ buf 0 1024 x (fun _ => 0) hx
    rw [Nat.zero_add] at hin
    exact hin
  have hfront : Laid (fun _ => 0) 39 1024 [] (negotiateFront buf) := by
    refine laid_fields hclear ?_
    intro f hf
    simp only [List.mem_cons, List.not_mem_nil, or_false] at hf
    rcases hf with rfl | rfl | rfl | rfl | rfl <;> dsimp only <;> omega
  have hformat := hfront.write [0x02] (fun i => UInt8.ofNat (0x02 / 256 ^ i)) (by decide)
  have hdialect :=
    hformat.write (dialect ++ [0]) (fun i => dialect.getD i 0) (by decide)
  have hcount : getField (negotiateFront buf) 37 2 = 12 :=
    getField_putField 37 (by decide) _
  constructor
  · exact laid_sessionHeader hdialect (by simp) (37 + dialect.length)
  · show getField (rawTcpSetSessionHeader (37 + dialect.length) _) 37 2 = 12
    rw [getField_sessionHeader (by omega)]
    have hformatCount : getField (putField (negotiateFront buf) (39, 1, 0x02)) 37 2 = 12 :=
      (getField_outside (Or.inl (le_refl 39)) _ _).trans hcount
    exact
      (getField_outside (Or.inl (by simp)) (putField (negotiateFront buf) (39, 1, 0x02))
        _).trans hformatCount
  · exact sessionHeader_get (by decide) _

/-- The fixed part of a write request. -/
def writeFront (uid tid fid offsetlow offsethigh nbytes : Nat) (buf : Nat → UInt8) :
    Nat → UInt8 :=
  putFields
    [(41, 2, fid), (43, 4, offsetlow), (61, 4, offsethigh), (53, 2, nbytes),
      (57, 2, nbytes), (65, 2, nbytes)]
    (writeRange buf 0 67 (smbWriteRequest uid tid))

/-- `DataOffset` is that of `smb_Write_Request`. -/
theorem writeFront_dataOffset
    (uid tid fid offsetlow offsethigh nbytes : Nat) (buf : Nat → UInt8) :
    getField (writeFront uid tid fid offsetlow offsethigh nbytes buf) 59 2 = 63 := by
  have hrequest : getField (smbWriteRequest uid tid) 59 2 = 63 :=
    getField_putField 59 (by decide) _
  have hcopy :
      getField (writeRange buf 0 67 (smbWriteRequest uid tid)) 59 2 = 63 := by
    have hfirst := @writeRange_inside _ buf 0 67 59 (smbWriteRequest uid tid) (by omega)
    have hsecond := @writeRange_inside _ buf 0 67 60 (smbWriteRequest uid tid) (by omega)
    rw [Nat.zero_add] at hfirst hsecond
    simp only [getField, hfirst, hsecond] at hrequest ⊢
    exact hrequest
  unfold writeFront putFields
  simp only [List.foldl_cons, List.foldl_nil, putField]
  rw [getField_outside (by omega), getField_outside (by omega), getField_outside (by omega),
    getField_outside (by omega), getField_outside (by omega), getField_outside (by omega)]
  exact hcopy

theorem built_writeFile
    {uid tid fid offsetlow offsethigh : Nat} {writebuf : List UInt8}
    (hfits : (Request.writeFile uid tid fid offsetlow offsethigh writebuf).Fits)
    (buf : Nat → UInt8) :
    (Request.writeFile uid tid fid offsetlow offsethigh writebuf).Built
      (63 + (Request.writeFile uid tid fid offsetlow offsethigh writebuf).variable.length)
      buf := by
  have hroom : 67 + writebuf.length ≤ 1024 := hfits.2
  have hfront :
      Laid buf 67 1024 []
        (writeFront uid tid fid offsetlow offsethigh writebuf.length buf) := by
    have hbase : Laid buf 67 1024 [] buf := laid_nil (fun _ _ _ => rfl)
    refine laid_fields (hbase.below (by omega) _) ?_
    intro f hf
    simp only [List.mem_cons, List.not_mem_nil, or_false] at hf
    rcases hf with rfl | rfl | rfl | rfl | rfl | rfl <;> dsimp only <;> omega
  have hdata :=
    hfront.write writebuf (fun i => writebuf.getD i 0)
      (fun i hi => List.getD_eq_getElem _ _ hi)
  have hbuild :
      (Request.writeFile uid tid fid offsetlow offsethigh writebuf).build buf =
        rawTcpSetSessionHeader (63 + writebuf.length)
          (writeRange (writeFront uid tid fid offsetlow offsethigh writebuf.length buf) 67
            writebuf.length (fun i => writebuf.getD i 0)) := by
    show writeRequest uid tid fid offsetlow offsethigh writebuf buf = _
    have hoffset :=
      writeFront_dataOffset uid tid fid offsetlow offsethigh writebuf.length buf
    unfold writeFront at hoffset ⊢
    unfold writeRequest
    dsimp only
    rw [hoffset]
  constructor
  · rw [hbuild]
    exact laid_sessionHeader hdata (by simp) _
  · rw [Request.byteCount, hbuild]
    show getField _ 65 2 = writebuf.length
    rw [getField_sessionHeader (by omega), getField_outside (by omega)]
    exact getField_putField 65 (by omega) _
  · rw [hbuild]
    exact sessionHeader_get (by omega) _

/-- What a session header should declare. -/
theorem Request.Built.declares_iff
    {r : Request} {declared : Nat}
    (h : r.Built declared buf) :
    r.Declares buf ↔ declared = r.fixedSize - 4 + r.variable.length := by
  constructor
  · intro hd
    have hheader := hd.header
    rw [h.header, h.count] at hheader
    exact hheader
  · intro heq
    constructor
    · rw [h.header, h.count]
      exact heq
    · rw [sentBytes, List.length_map, List.length_range, Nat.add_comm]
    · exact h.count
    · exact h.laid

/-- Each request that fits the buffer declares its length, except that of
`smb_OpenAndX`, and that one never does. -/
theorem request_declares_iff
    {r : Request}
    (hfits : r.Fits)
    (buf : Nat → UInt8) :
    r.Declares buf ↔ ¬ r.IsOpen := by
  cases r with
  | negotiate =>
      refine (built_negotiate buf).declares_iff.trans ?_
      simp [Request.fixedSize, Request.IsOpen]
  | sessionSetup specs capabilities authType =>
      refine (built_sessionSetup hfits buf).declares_iff.trans ?_
      simp [Request.fixedSize, Request.IsOpen]
  | treeConnect specs uid shareName =>
      refine (built_treeConnect hfits buf).declares_iff.trans ?_
      simp [Request.fixedSize, Request.IsOpen]
  | openAndX specs uid tid filename write =>
      refine (built_openAndX hfits buf).declares_iff.trans ?_
      simp [Request.fixedSize, Request.IsOpen]
  | writeFile uid tid fid offsetlow offsethigh writebuf =>
      refine (built_writeFile hfits buf).declares_iff.trans ?_
      simp [Request.fixedSize, Request.IsOpen]

/-- A request that is not one of `smb_OpenAndX`: the write of one byte. -/
theorem request_declares_iff_write :
    (Request.writeFile 7 8 9 0 0 [0xaa]).Declares (fun _ => 0) ↔
      ¬ (Request.writeFile 7 8 9 0 0 [0xaa]).IsOpen :=
  request_declares_iff
    (show (Request.writeFile 7 8 9 0 0 [0xaa]).Fits from ⟨trivial, by decide⟩) (fun _ => 0)

/-- The open of a file with the name `"A"`: it declares 68 bytes and carries 67. -/
theorem open_declares_one_more :
    ¬ ∀ (r : Request) (_ : r.Fits) (buf : Nat → UInt8), r.Declares buf := by
  intro h
  have hfits : (Request.openAndX plainSpecs 7 8 [0x41] false).Fits :=
    ⟨Or.inl rfl, by decide⟩
  have hdeclared :=
    (built_openAndX hfits (fun _ => 0)).declares_iff.mp (h _ hfits (fun _ => 0))
  simp only [Request.fixedSize] at hdeclared
  omega

end Results

end Smb
end Ps2Cdvd
