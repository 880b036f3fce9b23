import Ps2Cdvd.Lib.Access
import Ps2Cdvd.Smb.Setup

/-!
# Reading a file: `smb_ReadFile`

The request is sent, and the reply received in pieces: `plwip_recvfrom` puts the header of
a message, which is as long as `DataOffset` says, into `SMB_buf`, and the rest of what has
come into `readbuf`.  As long as the length in the session header has not come, further
pieces go behind the ones before; where that is, the function computes from the bytes
counted so far and from one byte of `DataOffset`.  Unlike `GetSMBServerReply`, it looks
neither at the result of `plwip_send`, nor at the sign of a result of `plwip_recvfrom`,
nor at the status of the reply.

* `readLoop_inside`: what a loop needs in order to end and to stay inside `readbuf`;
* `receiveRead_delivers`: when the data arrive;
* `smbReadFile_delivers_iff`: exactly when the function delivers the data or fails.
-/

namespace Ps2Cdvd
namespace Smb

open Lib

section Source

/-- The result of a call of `plwip_recvfrom`: `-n`, or the number of the bytes that have
come. -/
inductive RecvResult
  | failed (n : Nat)
  | piece (bytes : List UInt8)

/-- The fields of `smb_Read_Request` that are set for a read. -/
structure ReadAndXRequest where
  fid : Nat
  offsetLow : Nat
  offsetHigh : Nat
  maxCountLow : Nat

/-- The buffers that `plwip_recvfrom` writes to. -/
inductive RxBuffer
  | smbBuf
  | readbuf
deriving DecidableEq

/-- `sizeof(SMB_buf)`, and the size of the caller's buffer. -/
def RxBuffer.size (nbytes : Nat) : RxBuffer → Nat
  | .smbBuf => 1024
  | .readbuf => nbytes

/-- `SMB_buf`, the memory from `readbuf` on and in front of it, `rcv_size`, the bytes that
have come since the last message was dropped, and the writes to the two buffers. -/
structure ReadRx where
  buf : Nat → UInt8
  readbuf : Int → UInt8
  rcvSize : Int
  got : List UInt8
  writes : List (Access RxBuffer)

/-- What is sent, what is returned, and the state behind it. -/
structure ReadRun where
  request : ReadAndXRequest
  ret : Int
  rx : ReadRx

/-- The bytes at `readbuf[first]` and behind. -/
def storeAt (m : Int → UInt8) (first : Int) (bytes : List UInt8) : Int → UInt8 :=
  fun x => if first ≤ x ∧ x < first + bytes.length then bytes.getD (x - first).toNat 0 else m x

/-- `DataOffset` of a message. -/
def dataOffset (bytes : List UInt8) : Nat :=
  (bytes.getD 49 0).toNat + 256 * (bytes.getD 50 0).toNat

/-- How many bytes `plwip_recvfrom` puts into the header buffer: the first `DataOffset + 4`,
or all of them when `DataOffset` has not come yet. -/
def headerLength (bytes : List UInt8) : Nat :=
  if bytes.length < 51 then bytes.length else dataOffset bytes + 4

/-- `plwip_recvfrom(main_socket, SMB_buf, 49, readbuf, nbytes, …)` -/
def ReadRx.recvHeader (nbytes : Nat) (r : RecvResult) (s : ReadRx) : ReadRx :=
  match r with
  | .failed n => { s with rcvSize := -(n : Int), got := [] }
  | .piece bytes =>
      let taken := bytes.take (headerLength bytes + nbytes)
      let header := taken.take (headerLength bytes)
      let data := taken.drop (headerLength bytes)
      { buf := fun i => header.getD i (s.buf i)
        readbuf := storeAt s.readbuf 0 data
        rcvSize := taken.length
        got := taken
        writes := s.writes ++ [⟨.smbBuf, 0, header.length⟩, ⟨.readbuf, 0, data.length⟩] }

/-- `plwip_recvfrom(main_socket, NULL, 0, &readbuf[…], expected_size - rcv_size, …)`, and
the addition to `rcv_size`. -/
def ReadRx.recvData (expectedSize : Nat) (r : RecvResult) (s : ReadRx) : ReadRx :=
  match r with
  | .failed n => { s with rcvSize := s.rcvSize - n }
  | .piece bytes =>
      let taken := bytes.take (expectedSize - s.rcvSize).toNat
      let first := s.rcvSize - (s.buf 49).toNat - 4
      { s with
        readbuf := storeAt s.readbuf first taken
        rcvSize := s.rcvSize + taken.length
        got := s.got ++ taken
        writes := s.writes ++ [⟨.readbuf, first, taken.length⟩] }

variable (results : Nat → RecvResult)

/-- `while (rcv_size < expected_size) { … }`, from result `i` on. -/
def readLoop (expectedSize : Nat) : (fuel i : Nat) → ReadRx → Option ReadRx
  | 0, _, _ => none
  | fuel + 1, i, s =>
      if s.rcvSize < expectedSize then
        readLoop expectedSize fuel (i + 1) (s.recvData expectedSize (results i))
      else some s

/-- `receive:` and what follows. -/
def receiveRead (nbytes : Nat) : (fuel i : Nat) → ReadRx → Option ReadRx
  | 0, _, _ => none
  | fuel + 1, i, s =>
      let s := s.recvHeader nbytes (results i)
      let expectedSize := rawTcpGetSessionHeader s.buf + 4
      -- dropping NBSS Session Keep alive
      if s.buf 0 ≠ 0 then receiveRead nbytes fuel (i + 1) s
      else readLoop results expectedSize fuel (i + 1) s

/-- `smb_ReadFile(FID, offsetlow, offsethigh, readbuf, nbytes)`, for at most `fuel` calls of
`plwip_recvfrom`; `_sent` is the result of `plwip_send`. -/
def smbReadFile
    (_sent : Int) (fuel fid offsetlow offsethigh nbytes : Nat)
    (buf : Nat → UInt8) (readbuf : Int → UInt8) : Option ReadRun :=
  (receiveRead results nbytes fuel 0 ⟨buf, readbuf, 0, [], []⟩).map fun s =>
    ⟨⟨fid, offsetlow, offsethigh, nbytes⟩, 1, s⟩

end Source

section Purpose

/-- A whole reply that reports success, with `nbytes` data bytes behind its fixed part. -/
structure ReadReply (nbytes : Nat) (bytes : List UInt8) : Prop where
  size : bytes.length = rawTcpGetSessionHeader (fun i => bytes.getD i 0) + 4
  success : ReportsSuccess (fun i => bytes.getD i 0)
  behind : 63 ≤ dataOffset bytes + 4
  data : bytes.length = dataOffset bytes + 4 + nbytes

/-- What has come is a reply that reports success, and `readbuf` holds its data in order. -/
def ReadRx.Delivered (nbytes : Nat) (s : ReadRx) : Prop :=
  ReadReply nbytes s.got ∧
    ∀ i, i < nbytes → s.readbuf i = s.got.getD (dataOffset s.got + 4 + i) 0

/-- The function returns, has written inside the two buffers only, and returns 1 only when the
data have been delivered. -/
def DeliversOrFails
    (results : Nat → RecvResult) (sent : Int) (fid offsetlow offsethigh nbytes : Nat)
    (buf : Nat → UInt8) (readbuf : Int → UInt8) : Prop :=
  ∃ fuel run,
    smbReadFile results sent fuel fid offsetlow offsethigh nbytes buf readbuf = some run ∧
      Safe (RxBuffer.size nbytes) run.rx.writes ∧ (run.ret = 1 → run.rx.Delivered nbytes)

variable (results : Nat → RecvResult)

/-- Result `k` is the first that is not dropped, and it is the piece `first`.  A piece is
dropped when it begins with a nonzero byte, and as much of it as counts as header fits
`SMB_buf`; a result without bytes is, when the piece before it was, `b` being the byte in
`SMB_buf[0]`. -/
inductive FirstPiece : (b : UInt8) → (i k : Nat) → (first : List UInt8) → Prop
  | here {b : UInt8} {i : Nat} {bytes : List UInt8}
      (hresult : results i = .piece (0 :: bytes)) :
      FirstPiece b i i (0 :: bytes)
  | dropped {b c : UInt8} {i k : Nat} {bytes first : List UInt8}
      (hresult : results i = .piece (c :: bytes))
      (halive : c ≠ 0)
      (hfits : min (headerLength (c :: bytes)) (c :: bytes).length ≤ 1024)
      (hrest : FirstPiece c (i + 1) k first) :
      FirstPiece b i k first
  | nothing {b : UInt8} {i k : Nat} {first : List UInt8}
      (hresult : results i = .piece [] ∨ ∃ n, results i = .failed n)
      (halive : b ≠ 0)
      (hrest : FirstPiece b (i + 1) k first) :
      FirstPiece b i k first

/-- The results from `i` on bring `n` bytes, and none before them is negative. -/
inductive Brings : (i n : Nat) → Prop
  | done {i : Nat} : Brings i 0
  | piece {i n : Nat} {bytes : List UInt8}
      (hresult : results i = .piece bytes)
      (hrest : Brings (i + 1) (n - bytes.length)) :
      Brings i n
  | again {i n : Nat}
      (hresult : results i = .failed 0)
      (hrest : Brings (i + 1) n) :
      Brings i n

/-- A first piece with the whole header, of at most 1024 bytes, of a reply that reports
success and has `nbytes` data bytes; and unless these are in it, `DataOffset` is below 256
and the results from `i` on bring the missing ones. -/
structure BringsReply (nbytes i : Nat) (first : List UInt8) : Prop where
  success : ReportsSuccess (fun i => first.getD i 0)
  behind : 63 ≤ dataOffset first + 4
  fits : dataOffset first + 4 ≤ 1024
  header : dataOffset first + 4 ≤ first.length
  size : rawTcpGetSessionHeader (fun i => first.getD i 0) = dataOffset first + nbytes
  rest :
    dataOffset first + 4 + nbytes ≤ first.length ∨
      (dataOffset first < 256 ∧ Brings results i (dataOffset first + 4 + nbytes - first.length))

end Purpose

section Loop

variable
  {results : Nat → RecvResult}
  {expectedSize nbytes fuel i : Nat}
  {s t : ReadRx}

/-- What was written before the loop is still recorded behind it. -/
theorem readLoop_writes
    (h : readLoop results expectedSize fuel i s = some t)
    (hsafe : Safe (RxBuffer.size nbytes) t.writes) :
    Safe (RxBuffer.size nbytes) s.writes := by
  induction fuel generalizing i s with
  | zero => cases h
  | succ fuel ih =>
      rw [readLoop] at h
      split_ifs at h
      · have hnext := ih h
        cases hresult : results i with
        | failed n =>
            rw [hresult] at hnext
            exact hnext
        | piece bytes =>
            rw [hresult] at hnext
            exact (safe_append.mp hnext).1
      · cases h
        exact hsafe

/-- With the expected size reached, the loop leaves what it finds. -/
theorem readLoop_stopped
    (h : readLoop results expectedSize fuel i s = some t)
    (hstop : ¬ s.rcvSize < expectedSize) :
    t = s := by
  cases fuel with
  | zero => cases h
  | succ fuel =>
      rw [readLoop, if_neg hstop] at h
      exact (Option.some.inj h).symm

/-- A loop that ends inside `readbuf`: it begins behind what `SMB_buf[49]` says, the size
that it expects fits behind that, and it takes the missing bytes, and more if a result was
negative. -/
theorem readLoop_inside
    (h : readLoop results expectedSize fuel i s = some t)
    (hmore : s.rcvSize < expectedSize)
    (hsafe : Safe (RxBuffer.size nbytes) t.writes) :
    (s.buf 49).toNat + 4 ≤ s.rcvSize ∧
      expectedSize ≤ (s.buf 49).toNat + 4 + nbytes ∧
      ∃ more : List UInt8, t.got = s.got ++ more ∧
        expectedSize - s.rcvSize ≤ more.length ∧
        (expectedSize - s.rcvSize = more.length → Brings results i more.length) := by
  induction fuel generalizing i s with
  | zero => cases h
  | succ fuel ih =>
      rw [readLoop, if_pos hmore] at h
      cases hresult : results i with
      | failed n =>
          rw [hresult] at h
          have hless : s.rcvSize - n < expectedSize := by
            omega
          obtain ⟨hlow, hhigh, more, hgot, hlong, hbrings⟩ := ih h hless
          simp only [ReadRx.recvData] at hlow hhigh hgot hlong hbrings
          refine ⟨by omega, hhigh, more, hgot, by omega, ?_⟩
          intro hexact
          obtain rfl : n = 0 := by
            omega
          exact Brings.again hresult (hbrings (by omega))
      | piece bytes =>
          rw [hresult] at h
          have hwrites := readLoop_writes h hsafe
          simp only [ReadRx.recvData, safe_append, safe_cons, safe_nil, and_true,
            Access.Inside, RxBuffer.size] at hwrites
          obtain ⟨-, hlow, hhigh⟩ := hwrites
          by_cases hnext : (s.recvData expectedSize (.piece bytes)).rcvSize < expectedSize
          · obtain ⟨-, hlast, more, hgot, hlong, hbrings⟩ := ih h hnext
            simp only [ReadRx.recvData] at hnext hlast hgot hlong hbrings
            have hwhole : bytes.take (expectedSize - s.rcvSize).toNat = bytes := by
              refine List.take_of_length_le ?_
              rw [List.length_take] at hnext
              omega
            rw [hwhole] at hlong hbrings hgot hnext
            refine ⟨by omega, hlast, bytes ++ more, ?_, ?_, ?_⟩
            · rw [hgot, List.append_assoc]
            · rw [List.length_append]
              omega
            · intro hexact
              rw [List.length_append] at hexact ⊢
              refine Brings.piece hresult ?_
              rw [Nat.add_sub_cancel_left]
              exact hbrings (by omega)
          · have hstop := readLoop_stopped h hnext
            simp only [ReadRx.recvData] at hnext hstop
            have hlength := List.length_take (i := (expectedSize - s.rcvSize).toNat) (l := bytes)
            refine ⟨by omega, by omega, bytes.take (expectedSize - s.rcvSize).toNat, ?_, ?_, ?_⟩
            · rw [hstop]
            · omega
            · intro _
              refine Brings.piece hresult ?_
              have hzero :
                  (bytes.take (expectedSize - s.rcvSize).toNat).length - bytes.length = 0 := by
                omega
              rw [hzero]
              exact Brings.done

end Loop

section Fields

variable {bytes bytes' : List UInt8}

/-- The fields of a message are read from its first 51 bytes. -/
theorem dataOffset_congr
    (h : ∀ j, j < 51 → bytes'.getD j 0 = bytes.getD j 0) :
    dataOffset bytes' = dataOffset bytes := by
  unfold dataOffset
  rw [h 49 (by decide), h 50 (by decide)]

theorem reportsSuccess_congr
    {f g : Nat → UInt8}
    (h : ∀ j, j < 51 → g j = f j) :
    ReportsSuccess g ↔ ReportsSuccess f := by
  simp only [ReportsSuccess, getField]
  rw [h 4 (by decide), h (4 + 1) (by decide), h (4 + 1 + 1) (by decide),
    h (4 + 1 + 1 + 1) (by decide), h 9 (by decide), h (9 + 1) (by decide),
    h (9 + 1 + 1) (by decide), h (9 + 1 + 1 + 1) (by decide)]

theorem sessionHeader_congr
    {f g : Nat → UInt8}
    (h : ∀ j, j < 4 → g j = f j) :
    rawTcpGetSessionHeader g = rawTcpGetSessionHeader f := by
  unfold rawTcpGetSessionHeader
  rw [h 1 (by decide), h 2 (by decide), h 3 (by decide)]

/-- The bytes of a piece that `plwip_recvfrom` takes. -/
def takenOf (nbytes : Nat) (bytes : List UInt8) : List UInt8 :=
  bytes.take (headerLength bytes + nbytes)

theorem takenOf_getD
    {nbytes j : Nat}
    (hj : j < (takenOf nbytes bytes).length)
    (more : List UInt8) :
    (takenOf nbytes bytes ++ more).getD j 0 = bytes.getD j 0 := by
  have hlength : (takenOf nbytes bytes).length ≤ bytes.length := List.length_take_le' _ _
  rw [List.getD_append _ _ _ _ hj, List.getD_eq_getElem _ _ hj,
    List.getD_eq_getElem _ _ (by omega)]
  exact List.getElem_take

/-- What of a piece is in `SMB_buf`. -/
theorem recvHeader_buf
    {nbytes j : Nat} {s : ReadRx}
    (hj : j < (takenOf nbytes bytes).length)
    (hheader : j < headerLength bytes) :
    (s.recvHeader nbytes (.piece bytes)).buf j = bytes.getD j 0 := by
  have hlength : j < ((takenOf nbytes bytes).take (headerLength bytes)).length := by
    rw [List.length_take]
    omega
  have hwhole := @takenOf_getD bytes nbytes j hj []
  rw [List.append_nil, List.getD_eq_getElem _ _ hj] at hwhole
  show ((takenOf nbytes bytes).take (headerLength bytes)).getD j (s.buf j) = _
  rw [List.getD_eq_getElem _ _ hlength, List.getElem_take, hwhole]

theorem headerLength_long
    (h : 51 ≤ bytes.length) :
    headerLength bytes = dataOffset bytes + 4 := by
  rw [headerLength, if_neg (by omega)]

theorem four_le_headerLength
    (h : 4 ≤ bytes.length) :
    4 ≤ headerLength bytes := by
  unfold headerLength
  split_ifs
  · exact h
  · exact Nat.le_add_left _ _

end Fields

section Receiving

variable
  {results : Nat → RecvResult}
  {nbytes fuel i : Nat}
  {r : RecvResult}
  {s t : ReadRx}

/-- What counts as header is written to `SMB_buf`. -/
theorem recvHeader_safe
    {bytes : List UInt8}
    (hsafe : Safe (RxBuffer.size nbytes) s.writes) :
    Safe (RxBuffer.size nbytes) (s.recvHeader nbytes (.piece bytes)).writes ↔
      min (headerLength bytes) bytes.length ≤ 1024 := by
  simp only [ReadRx.recvHeader, safe_append, safe_cons, safe_nil, and_true, Access.Inside,
    RxBuffer.size, List.length_take, List.length_drop]
  constructor
  · rintro ⟨-, ⟨-, hheader⟩, -⟩
    omega
  · intro hheader
    exact ⟨hsafe, ⟨by omega, by omega⟩, by omega, by omega⟩

theorem recvHeader_fits
    {bytes : List UInt8}
    (hsafe : Safe (RxBuffer.size nbytes) (s.recvHeader nbytes (.piece bytes)).writes) :
    min (headerLength bytes) bytes.length ≤ 1024 :=
  (recvHeader_safe (safe_append.mp hsafe).1).mp hsafe

/-- What was written before a message is received is still recorded behind it. -/
theorem receiveRead_writes
    (h : receiveRead results nbytes fuel i s = some t)
    (hsafe : Safe (RxBuffer.size nbytes) t.writes) :
    Safe (RxBuffer.size nbytes) s.writes := by
  induction fuel generalizing i s with
  | zero => cases h
  | succ fuel ih =>
      have hnext :
          Safe (RxBuffer.size nbytes) (s.recvHeader nbytes (results i)).writes := by
        rw [receiveRead] at h
        split_ifs at h with hzero
        · exact ih h
        · exact readLoop_writes h hsafe
      cases hresult : results i with
      | failed n =>
          rw [hresult] at hnext
          exact hnext
      | piece bytes =>
          rw [hresult] at hnext
          exact (safe_append.mp hnext).1

/-- If what comes of a piece is a whole reply, then what was taken of the piece begins the
reply, with all of its fields. -/
theorem taken_begins
    {bytes : List UInt8}
    (h :
      readLoop results
          (rawTcpGetSessionHeader (s.recvHeader nbytes (.piece bytes)).buf + 4) fuel i
          (s.recvHeader nbytes (.piece bytes)) = some t)
    (hsafe : Safe (RxBuffer.size nbytes) t.writes)
    (hreply : ReadReply nbytes t.got) :
    ∃ more, t.got = takenOf nbytes bytes ++ more ∧
      63 ≤ (takenOf nbytes bytes).length ∧
      dataOffset t.got + 4 ≤ (takenOf nbytes bytes).length ∧
      (dataOffset t.got + 4 + nbytes ≤ bytes.length ∨
        (dataOffset t.got ≤ ((s.recvHeader nbytes (.piece bytes)).buf 49).toNat ∧
          (takenOf nbytes bytes).length < dataOffset t.got + 4 + nbytes ∧
          Brings results i more.length)) := by
  have htaken : (takenOf nbytes bytes).length ≤ bytes.length := List.length_take_le' _ _
  have hmessage := hreply.size
  have hbehind := hreply.behind
  have hdata := hreply.data
  by_cases hmore :
      (s.recvHeader nbytes (.piece bytes)).rcvSize <
        ((rawTcpGetSessionHeader (s.recvHeader nbytes (.piece bytes)).buf + 4 : Nat) : Int)
  · obtain ⟨hlow, hhigh, more, hgot, hlong, hbrings⟩ := readLoop_inside h hmore hsafe
    have hsize : (s.recvHeader nbytes (.piece bytes)).rcvSize =
      (takenOf nbytes bytes).length := rfl
    have hgot' : t.got = takenOf nbytes bytes ++ more := hgot
    rw [hsize] at hmore hlow hlong hbrings
    have hsession :
        rawTcpGetSessionHeader (s.recvHeader nbytes (.piece bytes)).buf =
          rawTcpGetSessionHeader (fun j => t.got.getD j 0) := by
      refine sessionHeader_congr ?_
      intro j hj
      have hheader := four_le_headerLength (show 4 ≤ bytes.length by omega)
      rw [recvHeader_buf (by omega) (by omega), hgot', takenOf_getD (by omega)]
    rw [hsession, ← hmessage] at hmore hhigh hlong hbrings
    have hexact := congrArg List.length hgot'
    rw [List.length_append] at hexact
    exact ⟨more, hgot', by omega, by omega,
      Or.inr ⟨by omega, by omega, hbrings (by omega)⟩⟩
  · have hgot : t.got = takenOf nbytes bytes := by
      rw [readLoop_stopped h hmore]
      rfl
    have hexact := congrArg List.length hgot
    exact ⟨[], by rw [hgot, List.append_nil], by omega, by omega, Or.inl (by omega)⟩

/-- What a result that is not dropped has to be, if what comes of it is a whole reply. -/
theorem bringsReply_of_loop
    (h :
      readLoop results (rawTcpGetSessionHeader (s.recvHeader nbytes r).buf + 4) fuel i
        (s.recvHeader nbytes r) = some t)
    (hzero : (s.recvHeader nbytes r).buf 0 = 0)
    (hsafe : Safe (RxBuffer.size nbytes) t.writes)
    (hreply : ReadReply nbytes t.got) :
    ∃ bytes, r = .piece (0 :: bytes) ∧ BringsReply results nbytes i (0 :: bytes) := by
  cases r with
  | failed n =>
      obtain ⟨hlow, -⟩ := readLoop_inside h (by simp only [ReadRx.recvHeader]; omega) hsafe
      simp only [ReadRx.recvHeader] at hlow
      omega
  | piece bytes =>
      have htaken : (takenOf nbytes bytes).length ≤ bytes.length := List.length_take_le' _ _
      have hmessage := hreply.size
      have hbehind := hreply.behind
      have hdata := hreply.data
      obtain ⟨more, hgot, hlong, hheader, hrest⟩ := taken_begins h hsafe hreply
      have hsame : ∀ j, j < 51 → t.got.getD j 0 = bytes.getD j 0 := by
        intro j hj
        rw [hgot, takenOf_getD (by omega)]
      have hoffset := dataOffset_congr hsame
      have hsession := @sessionHeader_congr (fun j => bytes.getD j 0)
        (fun j => t.got.getD j 0) (fun j hj => hsame j (by omega))
      have hlength := headerLength_long (show 51 ≤ bytes.length by omega)
      have hfirst := @recvHeader_buf bytes nbytes 0 s (by omega) (by omega)
      rw [hzero] at hfirst
      rw [hoffset] at hheader hrest hdata hbehind
      have hbrings : BringsReply results nbytes i bytes := by
        refine ⟨?_, hbehind, ?_, by omega, by omega, ?_⟩
        · exact (reportsSuccess_congr hsame).mp hreply.success
        · have hfits := recvHeader_fits (readLoop_writes h hsafe)
          omega
        · refine hrest.imp_right ?_
          rintro ⟨hbyte, hpart, hmore⟩
          rw [recvHeader_buf (by omega) (by omega)] at hbyte
          have hwhole : (takenOf nbytes bytes).length =
              min (headerLength bytes + nbytes) bytes.length := List.length_take
          have hexact := congrArg List.length hgot
          rw [List.length_append] at hexact
          have hmissing : dataOffset bytes + 4 + nbytes - bytes.length = more.length := by
            omega
          have hlowByte := (bytes.getD 49 0).toNat_lt
          rw [hmissing]
          exact ⟨by omega, hmore⟩
      cases bytes with
      | nil => exact absurd hlong (by simp [takenOf])
      | cons c bytes =>
          obtain rfl : c = 0 := hfirst.symm
          exact ⟨bytes, rfl, hbrings⟩

/-- A result without bytes leaves `SMB_buf`. -/
theorem recvHeader_nothing
    (h : r = .piece [] ∨ ∃ n, r = .failed n) :
    (s.recvHeader nbytes r).buf = s.buf := by
  rcases h with rfl | ⟨n, rfl⟩
  · funext j
    simp only [ReadRx.recvHeader, List.take_nil, List.getD_nil]
  · rfl

/-- A piece begins `SMB_buf`. -/
theorem recvHeader_first (c : UInt8) (bytes : List UInt8) :
    (s.recvHeader nbytes (.piece (c :: bytes))).buf 0 = c := by
  have hheader : 0 < headerLength (c :: bytes) := by
    unfold headerLength
    split_ifs
    · exact Nat.succ_pos _
    · exact Nat.succ_pos _
  have htaken : 0 < (takenOf nbytes (c :: bytes)).length := by
    rw [takenOf, List.length_take, List.length_cons]
    omega
  rw [recvHeader_buf htaken hheader]
  rfl

/-- If a whole reply is received inside `readbuf`, the first result that is not dropped
begins it. -/
theorem firstPiece_of_receive
    (h : receiveRead results nbytes fuel i s = some t)
    (hsafe : Safe (RxBuffer.size nbytes) t.writes)
    (hreply : ReadReply nbytes t.got) :
    ∃ k first, FirstPiece results (s.buf 0) i k first ∧
      BringsReply results nbytes (k + 1) first := by
  induction fuel generalizing i s with
  | zero => cases h
  | succ fuel ih =>
      rw [receiveRead] at h
      by_cases hzero : (s.recvHeader nbytes (results i)).buf 0 = 0
      · rw [if_neg (not_not.mpr hzero)] at h
        obtain ⟨bytes, hresult, hbrings⟩ := bringsReply_of_loop h hzero hsafe hreply
        exact ⟨i, 0 :: bytes, FirstPiece.here hresult, hbrings⟩
      · rw [if_pos hzero] at h
        obtain ⟨k, first, hfirst, hbrings⟩ := ih h
        refine ⟨k, first, ?_, hbrings⟩
        have hnothing :
            (results i = .piece [] ∨ ∃ n, results i = .failed n) →
              FirstPiece results (s.buf 0) i k first := by
          intro hresult
          rw [recvHeader_nothing hresult] at hzero hfirst
          exact FirstPiece.nothing hresult hzero hfirst
        cases hresult : results i with
        | failed n => exact hnothing (Or.inr ⟨n, hresult⟩)
        | piece bytes =>
            cases bytes with
            | nil => exact hnothing (Or.inl hresult)
            | cons c bytes =>
                rw [hresult, recvHeader_first] at hzero hfirst
                have hfits := recvHeader_fits (hresult ▸ receiveRead_writes h hsafe)
                exact FirstPiece.dropped hresult hzero hfits hfirst

/-- So it is in every run that returns with the data. -/
theorem firstPiece_of_delivers
    {sent : Int} {fid offsetlow offsethigh : Nat} {buf : Nat → UInt8}
    {readbuf : Int → UInt8} {run : ReadRun}
    (h : smbReadFile results sent fuel fid offsetlow offsethigh nbytes buf readbuf = some run)
    (hsafe : Safe (RxBuffer.size nbytes) run.rx.writes)
    (hreturns : run.ret = 1 → run.rx.Delivered nbytes) :
    ∃ k first, FirstPiece results (buf 0) 0 k first ∧
      BringsReply results nbytes (k + 1) first := by
  obtain ⟨t, hreceive, rfl⟩ := Option.map_eq_some_iff.mp h
  exact firstPiece_of_receive hreceive hsafe (hreturns rfl).1

end Receiving

section Delivering

variable
  {results : Nat → RecvResult}
  {nbytes offset i n : Nat}
  {s : ReadRx}

/-- What has come lies at its place: the bytes from `offset` on are in `readbuf`. -/
structure Gathers (nbytes offset : Nat) (s : ReadRx) : Prop where
  size : s.rcvSize = s.got.length
  low : offset ≤ s.got.length
  high : s.got.length ≤ offset + nbytes
  safe : Safe (RxBuffer.size nbytes) s.writes
  data : ∀ j : Nat, offset + j < s.got.length → s.readbuf j = s.got.getD (offset + j) 0

/-- A further piece goes behind the ones before. -/
theorem Gathers.recvData
    (h : Gathers nbytes offset s)
    (hoffset : (s.buf 49).toNat + 4 = offset)
    (bytes : List UInt8) :
    Gathers nbytes offset (s.recvData (offset + nbytes) (.piece bytes)) := by
  obtain ⟨hsize, hlow, hhigh, hsafe, hdata⟩ := h
  have hroom : (((offset + nbytes : Nat) : Int) - s.rcvSize).toNat =
      offset + nbytes - s.got.length := by
    omega
  have htaken := List.length_take (i := offset + nbytes - s.got.length) (l := bytes)
  simp only [ReadRx.recvData, hroom]
  generalize bytes.take (offset + nbytes - s.got.length) = taken at htaken ⊢
  refine ⟨?_, ?_, ?_, ?_, ?_⟩
  · simp only [List.length_append]
    omega
  · simp only [List.length_append]
    omega
  · simp only [List.length_append]
    omega
  · simp only [safe_append, safe_cons, safe_nil, and_true, Access.Inside, RxBuffer.size]
    exact ⟨hsafe, by omega, by omega⟩
  · intro j hj
    simp only [List.length_append] at hj
    simp only [storeAt]
    by_cases hold : offset + j < s.got.length
    · rw [if_neg (by omega), hdata j hold, List.getD_append _ _ _ _ hold]
    · have hindex : ((j : Int) - (s.rcvSize - ((s.buf 49).toNat : Int) - 4)).toNat =
          offset + j - s.got.length := by
        omega
      rw [if_pos (by omega), hindex, List.getD_append_right _ _ _ _ (by omega)]

/-- With nothing missing the loop ends. -/
theorem Gathers.ends
    (h : Gathers nbytes offset s)
    (hwhole : s.got.length = offset + nbytes) :
    ∃ fuel t, readLoop results (offset + nbytes) fuel i s = some t ∧
      Gathers nbytes offset t ∧ (∃ more, t.got = s.got ++ more) ∧
      t.got.length = offset + nbytes := by
  have hstop : ¬ s.rcvSize < ((offset + nbytes : Nat) : Int) := by
    rw [h.size]
    omega
  refine ⟨1, s, ?_, h, ⟨[], (List.append_nil _).symm⟩, hwhole⟩
  rw [readLoop, if_neg hstop]

/-- The results that bring what is missing are gathered. -/
theorem readLoop_gathers
    (hbrings : Brings results i n)
    (h : Gathers nbytes offset s)
    (hoffset : (s.buf 49).toNat + 4 = offset)
    (hmissing : s.got.length + n = offset + nbytes) :
    ∃ fuel t, readLoop results (offset + nbytes) fuel i s = some t ∧
      Gathers nbytes offset t ∧ (∃ more, t.got = s.got ++ more) ∧
      t.got.length = offset + nbytes := by
  have hturn : ∀ {i : Nat} {s s' : ReadRx},
      s.rcvSize < ((offset + nbytes : Nat) : Int) →
      s.recvData (offset + nbytes) (results i) = s' →
      (∃ more, s'.got = s.got ++ more) →
      (∃ fuel t, readLoop results (offset + nbytes) fuel (i + 1) s' = some t ∧
        Gathers nbytes offset t ∧ (∃ more, t.got = s'.got ++ more) ∧
        t.got.length = offset + nbytes) →
      ∃ fuel t, readLoop results (offset + nbytes) fuel i s = some t ∧
        Gathers nbytes offset t ∧ (∃ more, t.got = s.got ++ more) ∧
        t.got.length = offset + nbytes := by
    rintro i s s' hless hnext ⟨piece, hpiece⟩ ⟨fuel, t, hrun, ht, ⟨more, hmore⟩, hlength⟩
    refine ⟨fuel + 1, t, ?_, ht, ⟨piece ++ more, ?_⟩, hlength⟩
    · rw [readLoop, if_pos hless, hnext]
      exact hrun
    · rw [hmore, hpiece, List.append_assoc]
  induction hbrings generalizing s with
  | done => exact h.ends hmissing
  | @piece i n bytes hresult _ ih =>
      rcases Nat.eq_zero_or_pos n with rfl | hpos
      · exact h.ends hmissing
      · have hsize := h.size
        have hroom : (((offset + nbytes : Nat) : Int) - s.rcvSize).toNat = n := by
          omega
        have hgot : (s.recvData (offset + nbytes) (.piece bytes)).got = s.got ++ bytes.take n := by
          simp only [ReadRx.recvData, hroom]
        have hlength := congrArg List.length hgot
        rw [List.length_append, List.length_take] at hlength
        exact hturn (by omega) (by rw [hresult]) ⟨_, hgot⟩
          (ih (h.recvData hoffset bytes) hoffset (by omega))
  | @again i n hresult _ ih =>
      rcases Nat.eq_zero_or_pos n with rfl | hpos
      · exact h.ends hmissing
      · have hsize := h.size
        have hsame : s.recvData (offset + nbytes) (.failed 0) = s := by
          simp only [ReadRx.recvData, Nat.cast_zero, sub_zero]
        exact hturn (by omega) (by rw [hresult, hsame]) ⟨[], (List.append_nil _).symm⟩
          (ih h hoffset hmissing)

/-- The first piece of a reply, with its whole header. -/
theorem Gathers.recvHeader
    {bytes : List UInt8}
    (hfits : dataOffset bytes + 4 ≤ 1024)
    (hbehind : 63 ≤ dataOffset bytes + 4)
    (hheader : dataOffset bytes + 4 ≤ bytes.length)
    (hsafe : Safe (RxBuffer.size nbytes) s.writes) :
    Gathers nbytes (dataOffset bytes + 4) (s.recvHeader nbytes (.piece bytes)) := by
  have hlength := headerLength_long (show 51 ≤ bytes.length by omega)
  have htaken := List.length_take (i := dataOffset bytes + 4 + nbytes) (l := bytes)
  simp only [ReadRx.recvHeader, hlength]
  generalize bytes.take (dataOffset bytes + 4 + nbytes) = taken at htaken ⊢
  refine ⟨rfl, ?_, ?_, ?_, ?_⟩
  · show dataOffset bytes + 4 ≤ taken.length
    omega
  · show taken.length ≤ dataOffset bytes + 4 + nbytes
    omega
  · simp only [safe_append, safe_cons, safe_nil, and_true, Access.Inside, RxBuffer.size,
      List.length_take, List.length_drop]
    exact ⟨hsafe, ⟨by omega, by omega⟩, by omega, by omega⟩
  · intro j hj
    have hj' : dataOffset bytes + 4 + j < taken.length := hj
    simp only [storeAt, List.length_drop]
    rw [if_pos (by omega), Int.sub_zero, Int.toNat_natCast, List.getD_eq_getElem?_getD,
      List.getD_eq_getElem?_getD, List.getElem?_drop]

/-- What is gathered whole has been delivered. -/
theorem Gathers.delivered
    {first : List UInt8} {t : ReadRx}
    (h : Gathers nbytes (dataOffset first + 4) t)
    (hwhole : t.got.length = dataOffset first + 4 + nbytes)
    (hbrings : BringsReply results nbytes i first)
    (hgot : ∃ more, t.got = takenOf nbytes first ++ more) :
    t.Delivered nbytes := by
  obtain ⟨more, hgot⟩ := hgot
  have hbehind := hbrings.behind
  have hheader := hbrings.header
  have htaken : (takenOf nbytes first).length = min (headerLength first + nbytes) first.length :=
    List.length_take
  have hlength := headerLength_long (show 51 ≤ first.length by omega)
  have hsame : ∀ j, j < 51 → t.got.getD j 0 = first.getD j 0 := by
    intro j hj
    rw [hgot, takenOf_getD (by omega)]
  have hoffset := dataOffset_congr hsame
  have hsession := @sessionHeader_congr (fun j => first.getD j 0) (fun j => t.got.getD j 0)
    (fun j hj => hsame j (by omega))
  refine ⟨⟨?_, ?_, ?_, ?_⟩, ?_⟩
  · rw [hsession, hbrings.size]
    omega
  · exact (reportsSuccess_congr hsame).mpr hbrings.success
  · rw [hoffset]
    exact hbehind
  · rw [hoffset]
    exact hwhole
  · intro j hj
    rw [hoffset]
    exact h.data j (by omega)

/-- The loop behind the first piece. -/
theorem readLoop_first
    {first : List UInt8}
    (hbrings : BringsReply results nbytes i first)
    (h : Gathers nbytes (dataOffset first + 4) (s.recvHeader nbytes (.piece first))) :
    ∃ fuel t,
      readLoop results (rawTcpGetSessionHeader (s.recvHeader nbytes (.piece first)).buf + 4)
          fuel i (s.recvHeader nbytes (.piece first)) = some t ∧
        Gathers nbytes (dataOffset first + 4) t ∧
        (∃ more, t.got = takenOf nbytes first ++ more) ∧
        t.got.length = dataOffset first + 4 + nbytes := by
  have hbehind := hbrings.behind
  have hheader := hbrings.header
  have htaken : (takenOf nbytes first).length = min (headerLength first + nbytes) first.length :=
    List.length_take
  have hlength := headerLength_long (show 51 ≤ first.length by omega)
  have hgot : (s.recvHeader nbytes (.piece first)).got = takenOf nbytes first := rfl
  have hexpected :
      rawTcpGetSessionHeader (s.recvHeader nbytes (.piece first)).buf + 4 =
        dataOffset first + 4 + nbytes := by
    have hsession := @sessionHeader_congr (fun j => first.getD j 0)
      (s.recvHeader nbytes (.piece first)).buf
      (fun j hj => recvHeader_buf (by omega) (by omega))
    rw [hsession, hbrings.size]
    omega
  rw [hexpected, ← hgot]
  rcases hbrings.rest with hfull | ⟨hsmall, hmore⟩
  · refine h.ends ?_
    rw [hgot]
    omega
  · refine readLoop_gathers hmore h ?_ ?_
    · rw [recvHeader_buf (by omega) (by omega)]
      unfold dataOffset at hsmall ⊢
      omega
    · rw [hgot]
      omega

/-- **The data arrive** when the first piece that is not dropped begins a reply that is
brought. -/
theorem receiveRead_delivers
    {b : UInt8} {k : Nat} {first : List UInt8}
    (hfirst : FirstPiece results b i k first)
    (hb : s.buf 0 = b)
    (hbrings : BringsReply results nbytes (k + 1) first)
    (hsafe : Safe (RxBuffer.size nbytes) s.writes) :
    ∃ fuel t, receiveRead results nbytes fuel i s = some t ∧
      Safe (RxBuffer.size nbytes) t.writes ∧ t.Delivered nbytes := by
  have hdrop : ∀ {i : Nat} {s : ReadRx},
      (s.recvHeader nbytes (results i)).buf 0 ≠ 0 →
      (∃ fuel t, receiveRead results nbytes fuel (i + 1) (s.recvHeader nbytes (results i)) =
          some t ∧ Safe (RxBuffer.size nbytes) t.writes ∧ t.Delivered nbytes) →
      ∃ fuel t, receiveRead results nbytes fuel i s = some t ∧
        Safe (RxBuffer.size nbytes) t.writes ∧ t.Delivered nbytes := by
    rintro i s hzero ⟨fuel, t, hrun, ht⟩
    refine ⟨fuel + 1, t, ?_, ht⟩
    rw [receiveRead]
    exact (if_pos hzero).trans hrun
  induction hfirst generalizing s with
  | @here b i bytes hresult =>
      have hgathers :=
        @Gathers.recvHeader nbytes s (0 :: bytes) hbrings.fits hbrings.behind hbrings.header
          hsafe
      have hzero : ¬ (s.recvHeader nbytes (results i)).buf 0 ≠ 0 := by
        rw [hresult, recvHeader_first]
        exact not_not.mpr rfl
      obtain ⟨fuel, t, hrun, ht, hgot, hwhole⟩ := readLoop_first hbrings hgathers
      refine ⟨fuel + 1, t, ?_, ht.safe, ht.delivered hwhole hbrings hgot⟩
      rw [receiveRead]
      refine (if_neg hzero).trans ?_
      rw [hresult]
      exact hrun
  | @dropped b c i k bytes first hresult halive hfits _ ih =>
      have hwrites :
          Safe (RxBuffer.size nbytes) (s.recvHeader nbytes (results i)).writes := by
        rw [hresult]
        exact (recvHeader_safe hsafe).mpr hfits
      have hbuf : (s.recvHeader nbytes (results i)).buf 0 = c := by
        rw [hresult, recvHeader_first]
      refine hdrop ?_ (ih hbuf hbrings hwrites)
      rw [hbuf]
      exact halive
  | @nothing b i k first hresult halive _ ih =>
      have hwrites :
          Safe (RxBuffer.size nbytes) (s.recvHeader nbytes (results i)).writes := by
        rcases hresult with hresult | ⟨n, hresult⟩
        · rw [hresult]
          exact (recvHeader_safe hsafe).mpr (by simp)
        · rw [hresult]
          exact hsafe
      have hbuf : (s.recvHeader nbytes (results i)).buf 0 = b := by
        rw [recvHeader_nothing hresult, hb]
      refine hdrop ?_ (ih hbuf hbrings hwrites)
      rw [hbuf]
      exact halive

end Delivering

section Results

/-- **`smb_ReadFile` delivers the data or fails** exactly when the first result that is not
dropped is a piece with the whole header of a reply that reports success and has `nbytes`
data bytes, no header is longer than `SMB_buf`, and these are in it or, with a `DataOffset` below 256, brought by the results
behind it before a negative one. -/
theorem smbReadFile_delivers_iff
    (results : Nat → RecvResult) (sent : Int) (fid offsetlow offsethigh nbytes : Nat)
    (buf : Nat → UInt8) (readbuf : Int → UInt8) :
    DeliversOrFails results sent fid offsetlow offsethigh nbytes buf readbuf ↔
      ∃ k first, FirstPiece results (buf 0) 0 k first ∧
        BringsReply results nbytes (k + 1) first := by
  constructor
  · rintro ⟨fuel, run, hrun, hsafe, hreturns⟩
    exact firstPiece_of_delivers hrun hsafe hreturns
  · rintro ⟨k, first, hfirst, hbrings⟩
    obtain ⟨fuel, t, hrun, hsafe, hdelivered⟩ :=
      @receiveRead_delivers results nbytes 0 ⟨buf, readbuf, 0, [], []⟩ (buf 0) k first hfirst
        rfl hbrings safe_nil
    refine ⟨fuel, ⟨⟨fid, offsetlow, offsethigh, nbytes⟩, 1, t⟩, ?_, hsafe,
      fun _ => hdelivered⟩
    rw [smbReadFile, hrun]
    rfl

theorem FirstPiece.result
    {results : Nat → RecvResult} {b : UInt8} {i k : Nat} {first : List UInt8}
    (h : FirstPiece results b i k first) :
    results k = .piece first := by
  induction h with
  | here hresult => exact hresult
  | dropped _ _ _ _ ih => exact ih
  | nothing _ _ _ ih => exact ih

/-- A reply of 39 bytes that reports `STATUS_ACCESS_DENIED`. -/
def deniedReply : List UInt8 :=
  [0, 0, 0, 35, 0xff, 0x53, 0x4d, 0x42, 0x2e, 0x22, 0, 0, 0xc0] ++ List.replicate 26 0

/-- When the connection is lost, a read of 2048 bytes does not end; and it takes a denial
for its data. -/
theorem smbReadFile_takes_denial :
    ¬ DeliversOrFails (fun _ => .failed 1) (-1) 1 0 0 2048 (fun _ => 0) (fun _ => 0) ∧
      ¬ DeliversOrFails (fun _ => .piece deniedReply) 63 1 0 0 2048 (fun _ => 0)
        (fun _ => 0) := by
  constructor
  · rintro ⟨fuel, run, hrun, hsafe, hreturns⟩
    obtain ⟨k, first, hfirst, -⟩ := firstPiece_of_delivers hrun hsafe hreturns
    have hresult := hfirst.result
    cases hresult
  · rintro ⟨fuel, run, hrun, hsafe, hreturns⟩
    obtain ⟨k, first, hfirst, hbrings⟩ := firstPiece_of_delivers hrun hsafe hreturns
    have hresult := hfirst.result
    obtain rfl : deniedReply = first := RecvResult.piece.inj hresult
    exact absurd hbrings.success.2 (by decide)

end Results

end Smb
end Ps2Cdvd
