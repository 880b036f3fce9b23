import Mathlib.Data.List.GetD
import Ps2Cdvd.Lib.Memory

/-!
# The framing of SMB messages

`GetSMBServerReply` sends the request in `SMB_buf` and receives the reply over it.
A result of `plwip_recvfrom` that begins with a nonzero byte is dropped; the first
other one is the start of the reply, whose length is read from the buffer, and
results are appended until that many bytes are there.

The results of `plwip_recvfrom` are a list; an empty one stands for an error or
the end of the connection.  No result is longer than the space it was asked for,
which the code relies on and the definitions here do not.

* `receive_spec`: what was dropped and what was taken;
* `getSMBServerReply_framed_iff`: for which cuts of a stream of messages the reply
  is the first message that is not a keep-alive.
-/

namespace Ps2Cdvd
namespace Smb

open Lib

section Source

/-- `rawTCP_SetSessionHeader(size)` -/
def rawTcpSetSessionHeader (size : Nat) (buf : Nat → UInt8) : Nat → UInt8 :=
  writeRange buf 0 4
    (fun i => [0, UInt8.ofNat (size / 65536), UInt8.ofNat (size / 256),
      UInt8.ofNat size].getD i 0)

/-- `rawTCP_GetSessionHeader()` -/
def rawTcpGetSessionHeader (buf : Nat → UInt8) : Nat :=
  (buf 3).toNat + 256 * (buf 2).toNat + 65536 * (buf 1).toNat

/-- `SMB_buf` and `rcv_size` while a reply is received; `taken` are the bytes
received since the last result was dropped, and `last` the byte received last at
each position. -/
structure Rx where
  buf : Nat → UInt8
  rcvSize : Nat
  taken : List UInt8
  last : Nat → Option UInt8

/-- Nothing is received yet; the buffer holds the request. -/
def Rx.start (request : Nat → UInt8) : Rx where
  buf := request
  rcvSize := 0
  taken := []
  last := fun _ => none

/-- A result is received at position `pos`. -/
def Rx.got (s : Rx) (pos : Nat) (pkt : List UInt8) : Rx where
  buf := writeRange s.buf pos pkt.length (fun i => pkt.getD i 0)
  rcvSize := pos + pkt.length
  taken := s.taken.take pos ++ pkt
  last := writeRange s.last pos pkt.length (fun i => pkt[i]?)

/-- What `GetSMBServerReply` returns, the buffer behind it and the results that
were not asked for. -/
structure Reply where
  ret : Int
  rx : Rx
  rest : List (List UInt8)

/-- `while (rcv_size < totalpkt_size) { … }`; `none` is a wait without an end. -/
def recvMore (totalpktSize : Nat) : List (List UInt8) → Rx → Option Reply
  | [], s =>
      if s.rcvSize < totalpktSize then none
      else some ⟨s.rcvSize, s, []⟩
  | pkt :: rest, s =>
      if s.rcvSize < totalpktSize then
        if pkt = [] then some ⟨-2, s, rest⟩
        else recvMore totalpktSize rest (s.got s.rcvSize pkt)
      else some ⟨s.rcvSize, s, pkt :: rest⟩

/-- `receive:` and what follows. -/
def receive : List (List UInt8) → Rx → Option Reply
  | [], _ => none
  | pkt :: rest, s =>
      if pkt = [] then some ⟨-2, s, rest⟩
      else
        let s := s.got 0 pkt
        -- dropping NBSS Session Keep alive
        if s.buf 0 ≠ 0 then receive rest s
        else recvMore (rawTcpGetSessionHeader s.buf + 4) rest s

/-- `GetSMBServerReply()`, where `plwip_send` returns `sent`. -/
def getSMBServerReply
    (sent : Int) (results : List (List UInt8)) (request : Nat → UInt8) :
    Option Reply :=
  if sent ≤ 0 then some ⟨-1, .start request, results⟩
  else receive results (.start request)

end Source

section Purpose

/-- A message of the session service. -/
structure Message where
  bytes : List UInt8
  long : 4 ≤ bytes.length
  size : bytes.length = rawTcpGetSessionHeader (fun i => bytes.getD i 0) + 4

/-- A message whose first byte is not zero. -/
def Message.KeepAlive (m : Message) : Prop := m.bytes.getD 0 0 ≠ 0

/-- The bytes of messages one behind the other. -/
def stream (messages : List Message) : List UInt8 :=
  (messages.map Message.bytes).flatten

/-- An exchange: the request is sent, the server sends keep-alives, the reply and
more messages, and `plwip_recvfrom` cuts these bytes into `results`. -/
structure Exchange where
  request : Nat → UInt8
  sent : Int
  keepAlives : List Message
  reply : Message
  after : List Message
  results : List (List UInt8)
  sent_pos : 0 < sent
  alive : ∀ m ∈ keepAlives, m.KeepAlive
  answer : ¬ reply.KeepAlive
  fits : reply.bytes.length ≤ 1024
  positive : ∀ pkt ∈ results, pkt ≠ []
  cut : results.flatten = stream keepAlives ++ (reply.bytes ++ stream after)

/-- The reply is in the buffer, and every byte behind it is unread. -/
def Exchange.Framed (x : Exchange) : Prop :=
  ∃ r, getSMBServerReply x.sent x.results x.request = some r ∧
    r.ret = x.reply.bytes.length ∧
    (∀ i, i < x.reply.bytes.length → r.rx.buf i = x.reply.bytes.getD i 0) ∧
    r.rest.flatten = stream x.after

/-- The buffer with results received at its start. -/
def overlaid (buf : Nat → UInt8) : List (List UInt8) → Nat → UInt8
  | [] => buf
  | pkt :: pkts => overlaid (fun i => pkt.getD i (buf i)) pkts

/-- The size that a first result announces; of its header, what the result does
not hold is what the buffer held before. -/
def announced (before : Nat → UInt8) (first : List UInt8) : Nat :=
  rawTcpGetSessionHeader (fun i => first.getD i (before i)) + 4

/-- Results that bring `size` received bytes to `total` or more, but not before the
last of them. -/
def Fills (total : Nat) : Nat → List (List UInt8) → Prop
  | size, [] => total ≤ size
  | size, pkt :: pkts => size < total ∧ Fills total (size + pkt.length) pkts

/-- The cuts that the framing goes by: the keep-alives and the reply end where
results end, every result of a keep-alive begins with a nonzero byte, and the
results of the reply fill what the first of them announces. -/
def Exchange.Aligned (x : Exchange) : Prop :=
  ∃ dropped first more rest,
    x.results = dropped ++ (first :: more ++ rest) ∧
    dropped.flatten = stream x.keepAlives ∧
    first ++ more.flatten = x.reply.bytes ∧
    (∀ pkt ∈ dropped, pkt.getD 0 0 ≠ 0) ∧
    Fills (announced (overlaid x.request dropped) first) first.length more

end Purpose

section Receiving

variable {request : Nat → UInt8} {s : Rx}

/-- The buffer is the request with what was received over it, and its front is
what was taken. -/
structure RxInv (request : Nat → UInt8) (s : Rx) : Prop where
  size : s.taken.length = s.rcvSize
  front : ∀ i, i < s.rcvSize → s.last i = s.taken[i]?
  overlay : ∀ i, s.buf i = (s.last i).getD (request i)

theorem rxInv_start (request : Nat → UInt8) : RxInv request (.start request) := by
  constructor
  · rfl
  · intro i hi
    exact absurd hi (Nat.not_lt_zero i)
  · intro i
    rfl

theorem RxInv.got
    (h : RxInv request s)
    {pos : Nat}
    (hpos : pos ≤ s.rcvSize)
    (pkt : List UInt8) :
    RxInv request (s.got pos pkt) := by
  have hlen : (s.taken.take pos).length = pos := by
    rw [List.length_take, h.size]
    omega
  constructor
  · simp only [Rx.got, List.length_append, hlen]
  · intro i hi
    have hi' : i < pos + pkt.length := hi
    simp only [Rx.got]
    by_cases hlow : i < pos
    · rw [writeRange_outside _ _ (Or.inl hlow), h.front i (by omega),
        List.getElem?_append_left (by omega), List.getElem?_take_of_lt hlow]
    · obtain ⟨k, rfl⟩ := Nat.exists_eq_add_of_le (Nat.le_of_not_lt hlow)
      rw [writeRange_inside _ _ _ (by omega),
        List.getElem?_append_right (by omega), hlen, Nat.add_sub_cancel_left]
  · intro i
    simp only [Rx.got]
    by_cases hin : pos ≤ i ∧ i < pos + pkt.length
    · obtain ⟨k, rfl⟩ := Nat.exists_eq_add_of_le hin.1
      have hk : k < pkt.length := by
        omega
      rw [writeRange_inside _ _ _ hk, writeRange_inside _ _ _ hk,
        List.getD_eq_getElem?_getD, List.getElem?_eq_getElem hk]
      rfl
    · have hout : i < pos ∨ pos + pkt.length ≤ i := by
        omega
      rw [writeRange_outside _ _ hout, writeRange_outside _ _ hout]
      exact h.overlay i

/-- The front of the buffer holds what was taken. -/
theorem RxInv.buf_front
    (h : RxInv request s)
    {i : Nat}
    (hi : i < s.rcvSize) :
    s.buf i = s.taken.getD i 0 := by
  have hi' : i < s.taken.length := by
    rw [h.size]
    exact hi
  rw [h.overlay, h.front i hi, List.getD_eq_getElem?_getD,
    List.getElem?_eq_getElem hi']
  rfl

/-- Results appended to what was received. -/
def Rx.append (s : Rx) (pkts : List (List UInt8)) : Rx :=
  pkts.foldl (fun s pkt => s.got s.rcvSize pkt) s

theorem append_cons (s : Rx) (pkt : List UInt8) (pkts : List (List UInt8)) :
    s.append (pkt :: pkts) = (s.got s.rcvSize pkt).append pkts :=
  rfl

theorem RxInv.append
    (h : RxInv request s)
    (pkts : List (List UInt8)) :
    RxInv request (s.append pkts) ∧
      (s.append pkts).taken = s.taken ++ pkts.flatten := by
  induction pkts generalizing s with
  | nil => exact ⟨h, (List.append_nil _).symm⟩
  | cons pkt pkts ih =>
      obtain ⟨hinv, htaken⟩ := ih (h.got le_rfl pkt)
      rw [append_cons]
      refine ⟨hinv, ?_⟩
      rw [htaken]
      simp only [Rx.got, ← h.size, List.take_length, List.flatten_cons,
        List.append_assoc]

/-- Results that were dropped. -/
def Rx.drop (s : Rx) (pkts : List (List UInt8)) : Rx :=
  pkts.foldl (fun s pkt => s.got 0 pkt) s

theorem RxInv.drop
    (h : RxInv request s)
    (pkts : List (List UInt8)) :
    RxInv request (s.drop pkts) := by
  induction pkts generalizing s with
  | nil => exact h
  | cons pkt pkts ih => exact ih (h.got (Nat.zero_le _) pkt)

theorem got_zero_buf (s : Rx) (pkt : List UInt8) :
    (s.got 0 pkt).buf = fun i => pkt.getD i (s.buf i) := by
  funext i
  simp only [Rx.got, writeRange, Nat.zero_le, true_and, Nat.zero_add, Nat.sub_zero]
  split_ifs with hi
  · rw [List.getD_eq_getElem _ _ hi, List.getD_eq_getElem _ _ hi]
  · rw [List.getD_eq_default _ _ (by omega)]

theorem drop_buf (s : Rx) (pkts : List (List UInt8)) :
    (s.drop pkts).buf = overlaid s.buf pkts := by
  induction pkts generalizing s with
  | nil => rfl
  | cons pkt pkts ih =>
      have hstep := ih (s.got 0 pkt)
      rw [got_zero_buf] at hstep
      exact hstep

/-- A nonempty result begins the buffer with its first byte. -/
theorem got_zero_first
    (s : Rx) {pkt : List UInt8}
    (h : pkt ≠ []) :
    (s.got 0 pkt).buf 0 = pkt.getD 0 0 := by
  rw [got_zero_buf]
  have hlen : 0 < pkt.length := List.length_pos_of_ne_nil h
  simp only [List.getD_eq_getElem _ _ hlen]

/-- Results that fill the announced size are appended. -/
theorem recvMore_of_fills
    {total : Nat} {more : List (List UInt8)}
    (h : Fills total s.rcvSize more)
    (hpos : ∀ pkt ∈ more, pkt ≠ [])
    (rest : List (List UInt8)) :
    recvMore total (more ++ rest) s =
      some ⟨(s.append more).rcvSize, s.append more, rest⟩ := by
  induction more generalizing s with
  | nil =>
      have hdone : ¬ s.rcvSize < total := Nat.not_lt.mpr h
      cases rest with
      | nil =>
          rw [List.append_nil, recvMore, if_neg hdone]
          rfl
      | cons pkt rest =>
          rw [List.nil_append, recvMore, if_neg hdone]
          rfl
  | cons pkt more ih =>
      obtain ⟨hmore, hfills⟩ := h
      rw [List.cons_append, recvMore, if_pos hmore,
        if_neg (hpos pkt List.mem_cons_self), append_cons]
      exact ih hfills (fun x hx => hpos x (List.mem_cons_of_mem _ hx))

/-- When the receiving succeeds, the results taken fill the announced size. -/
theorem recvMore_spec
    {total : Nat} {results : List (List UInt8)} {r : Reply}
    (h : recvMore total results s = some r)
    (hret : 0 < r.ret) :
    ∃ more rest, results = more ++ rest ∧ Fills total s.rcvSize more ∧
      r = ⟨(s.append more).rcvSize, s.append more, rest⟩ := by
  induction results generalizing s with
  | nil =>
      rw [recvMore] at h
      split_ifs at h with hmore
      exact ⟨[], [], rfl, Nat.le_of_not_lt hmore, (Option.some.inj h).symm⟩
  | cons pkt results ih =>
      rw [recvMore] at h
      split_ifs at h with hmore hempty
      · rw [← Option.some.inj h] at hret
        exact absurd hret (by simp)
      · obtain ⟨more, rest, hsplit, hfills, hr⟩ := ih h
        refine ⟨pkt :: more, rest, ?_, ⟨hmore, hfills⟩, hr⟩
        rw [hsplit]
        rfl
      · exact
          ⟨[], pkt :: results, rfl, Nat.le_of_not_lt hmore, (Option.some.inj h).symm⟩

/-- Results that begin with a nonzero byte are dropped. -/
theorem receive_dropped
    {dropped : List (List UInt8)}
    (h : ∀ pkt ∈ dropped, pkt.getD 0 0 ≠ 0)
    (results : List (List UInt8)) :
    receive (dropped ++ results) s = receive results (s.drop dropped) := by
  induction dropped generalizing s with
  | nil => rfl
  | cons pkt dropped ih =>
      have hfirst := h pkt List.mem_cons_self
      have hpos : pkt ≠ [] := by
        rintro rfl
        exact hfirst rfl
      rw [List.cons_append, receive, if_neg hpos]
      simp only [got_zero_first s hpos, if_pos hfirst]
      exact ih (fun x hx => h x (List.mem_cons_of_mem _ hx))

/-- The first other result starts the reply. -/
theorem receive_first
    {first : List UInt8}
    (hpos : first ≠ [])
    (hzero : first.getD 0 0 = 0)
    (results : List (List UInt8)) :
    receive (first :: results) s =
      recvMore (announced s.buf first) results (s.got 0 first) := by
  rw [receive, if_neg hpos]
  simp only [got_zero_first s hpos, hzero, ne_eq, not_true_eq_false, if_false]
  rw [got_zero_buf]
  rfl

/-- When the receiving succeeds: what was dropped, and what was taken. -/
theorem receive_spec
    {results : List (List UInt8)} {r : Reply}
    (h : receive results s = some r)
    (hret : 0 < r.ret) :
    ∃ dropped first more rest,
      results = dropped ++ (first :: more ++ rest) ∧
      (∀ pkt ∈ dropped, pkt.getD 0 0 ≠ 0) ∧
      first ≠ [] ∧ first.getD 0 0 = 0 ∧
      Fills (announced (overlaid s.buf dropped) first) first.length more ∧
      r =
        ⟨(((s.drop dropped).got 0 first).append more).rcvSize,
          ((s.drop dropped).got 0 first).append more, rest⟩ := by
  induction results generalizing s with
  | nil => cases h
  | cons pkt results ih =>
      by_cases hpos : pkt = []
      · rw [receive, if_pos hpos] at h
        rw [← Option.some.inj h] at hret
        exact absurd hret (by simp)
      by_cases hzero : pkt.getD 0 0 = 0
      · rw [receive_first hpos hzero] at h
        obtain ⟨more, rest, hsplit, hfills, hr⟩ := recvMore_spec h hret
        refine ⟨[], pkt, more, rest, ?_, ?_, hpos, hzero, ?_, hr⟩
        · rw [hsplit]
          rfl
        · intro x hx
          cases hx
        · have hsize : (s.got 0 pkt).rcvSize = pkt.length := Nat.zero_add _
          rw [hsize] at hfills
          exact hfills
      · have hdrop : ∀ x ∈ [pkt], x.getD 0 0 ≠ 0 := by
          intro x hx
          rw [List.mem_singleton.mp hx]
          exact hzero
        rw [← List.singleton_append, receive_dropped hdrop] at h
        obtain ⟨dropped, first, more, rest, hsplit, hall, hfirst, hz, hfills, hr⟩ :=
          ih h
        rw [drop_buf] at hfills
        refine
          ⟨pkt :: dropped, first, more, rest, ?_, ?_, hfirst, hz, hfills, hr⟩
        · rw [hsplit]
          rfl
        · intro x hx
          rcases List.mem_cons.mp hx with rfl | hx
          · exact hzero
          · exact hall x hx

end Receiving

section Results

/-- What a successful receiving took. -/
theorem taken_append
    (request : Nat → UInt8) (dropped : List (List UInt8)) (first : List UInt8)
    (more : List (List UInt8)) :
    RxInv request
        ((((Rx.start request).drop dropped).got 0 first).append more) ∧
      ((((Rx.start request).drop dropped).got 0 first).append more).taken =
        first ++ more.flatten := by
  have hdropped : RxInv request ((Rx.start request).drop dropped) :=
    (rxInv_start request).drop dropped
  obtain ⟨hinv, htaken⟩ := (hdropped.got (Nat.zero_le _) first).append more
  refine ⟨hinv, ?_⟩
  rw [htaken]
  simp only [Rx.got, List.take_zero, List.nil_append]

variable (x : Exchange)

/-- The exchange goes on to the receiving. -/
theorem Exchange.getSMBServerReply :
    getSMBServerReply x.sent x.results x.request =
      receive x.results (.start x.request) := by
  have hsent : ¬ x.sent ≤ 0 := Int.not_le.mpr x.sent_pos
  rw [Smb.getSMBServerReply, if_neg hsent]

theorem Exchange.aligned_of_framed
    (h : x.Framed) :
    x.Aligned := by
  obtain ⟨r, hr, hret, -, hrest⟩ := h
  rw [x.getSMBServerReply] at hr
  have hpos : 0 < r.ret := by
    have hlong := x.reply.long
    rw [hret]
    omega
  obtain ⟨dropped, first, more, rest, hsplit, hall, -, -, hfills, rfl⟩ :=
    receive_spec hr hpos
  obtain ⟨hinv, htaken⟩ := taken_append x.request dropped first more
  have hlength : (first ++ more.flatten).length = x.reply.bytes.length := by
    rw [← htaken, hinv.size]
    exact Int.ofNat.inj hret
  have hcut :
      (dropped.flatten ++ (first ++ more.flatten)) ++ stream x.after =
        (stream x.keepAlives ++ x.reply.bytes) ++ stream x.after := by
    rw [List.append_assoc _ x.reply.bytes, ← x.cut, hsplit, ← hrest]
    simp only [List.flatten_append, List.flatten_cons, List.append_assoc]
  have hfront := List.append_cancel_right hcut
  obtain ⟨hdropped, hreply⟩ := List.append_inj' hfront hlength
  exact ⟨dropped, first, more, rest, hsplit, hdropped, hreply, hall, hfills⟩

theorem Exchange.framed_of_aligned
    (h : x.Aligned) :
    x.Framed := by
  obtain ⟨dropped, first, more, rest, hsplit, hdropped, hreply, hall, hfills⟩ := h
  have hpositive : ∀ pkt ∈ first :: more, pkt ≠ [] := by
    intro pkt hpkt
    apply x.positive
    rw [hsplit]
    exact List.mem_append_right _ (List.mem_append_left _ hpkt)
  have hfirst : first ≠ [] := hpositive first List.mem_cons_self
  have hzero : first.getD 0 0 = 0 := by
    have hanswer := x.answer
    unfold Message.KeepAlive at hanswer
    rw [← hreply, List.getD_append _ _ _ _ (List.length_pos_of_ne_nil hfirst)]
      at hanswer
    exact not_not.mp hanswer
  obtain ⟨hinv, htaken⟩ := taken_append x.request dropped first more
  have hsize :
      ((((Rx.start x.request).drop dropped).got 0 first).append more).rcvSize =
        x.reply.bytes.length := by
    rw [← hinv.size, htaken, hreply]
  refine
    ⟨⟨((((Rx.start x.request).drop dropped).got 0 first).append more).rcvSize,
      (((Rx.start x.request).drop dropped).got 0 first).append more, rest⟩,
      ?_, ?_, ?_, ?_⟩
  · rw [x.getSMBServerReply, hsplit, receive_dropped hall, List.cons_append,
      receive_first hfirst hzero, drop_buf]
    apply recvMore_of_fills
    · have hstart : (((Rx.start x.request).drop dropped).got 0 first).rcvSize =
          first.length :=
        Nat.zero_add _
      rw [hstart]
      exact hfills
    · intro pkt hpkt
      exact hpositive pkt (List.mem_cons_of_mem _ hpkt)
  · exact congrArg Int.ofNat hsize
  · intro i hi
    rw [hinv.buf_front (by omega), htaken, hreply]
  · have hcut := x.cut
    rw [hsplit, List.flatten_append, List.flatten_append, List.flatten_cons, hdropped,
      hreply] at hcut
    exact List.append_cancel_left (List.append_cancel_left hcut)

/-- `GetSMBServerReply` delivers the first message that is not a keep-alive, whole
and alone, exactly for the aligned cuts. -/
theorem getSMBServerReply_framed_iff :
    x.Framed ↔ x.Aligned := by
  constructor
  · exact x.aligned_of_framed
  · exact x.framed_of_aligned

end Results

section Cuts

/-- A reply with one byte behind the session header, and a keep-alive. -/
def shortReply : Message := ⟨[0, 0, 0, 1, 0xaa], by decide, by decide⟩

def keepAlive : Message := ⟨[0x85, 0, 0, 0], by decide, by decide⟩

/-- A request of 100 bytes. -/
def shortRequest : Nat → UInt8 := rawTcpSetSessionHeader 96 (fun _ => 0)

/-- The header of the reply is cut. -/
def headerCut : Exchange where
  request := shortRequest
  sent := 100
  keepAlives := []
  reply := shortReply
  after := []
  results := [[0, 0], [0, 1, 0xaa]]
  sent_pos := by decide
  alive := by simp
  answer := by simp [Message.KeepAlive, shortReply]
  fits := by decide
  positive := by decide
  cut := rfl

/-- A keep-alive and the reply come in one result. -/
def joinedKeepAlive : Exchange where
  request := shortRequest
  sent := 100
  keepAlives := [keepAlive]
  reply := shortReply
  after := []
  results := [[0x85, 0, 0, 0, 0, 0, 0, 1, 0xaa]]
  sent_pos := by decide
  alive := by simp [Message.KeepAlive, keepAlive]
  answer := by simp [Message.KeepAlive, shortReply]
  fits := by decide
  positive := by decide
  cut := rfl

/-- The reply and the message behind it come in one result. -/
def joinedAfter : Exchange where
  request := shortRequest
  sent := 100
  keepAlives := []
  reply := shortReply
  after := [shortReply]
  results := [[0, 0, 0, 1, 0xaa, 0, 0, 0, 1, 0xaa]]
  sent_pos := by decide
  alive := by simp
  answer := by simp [Message.KeepAlive, shortReply]
  fits := by decide
  positive := by decide
  cut := rfl

/-- With the header cut, or with a keep-alive before the reply in one result, the
reply is waited for without an end; with another message behind it, that message
is taken for a part of the reply. -/
theorem getSMBServerReply_not_framed :
    ¬ headerCut.Framed ∧ ¬ joinedKeepAlive.Framed ∧ ¬ joinedAfter.Framed := by
  refine ⟨?_, ?_, ?_⟩
  · rintro ⟨r, hr, -⟩
    cases hr
  · rintro ⟨r, hr, -⟩
    cases hr
  · rintro ⟨r, hr, hret, -⟩
    rw [← Option.some.inj hr] at hret
    exact absurd hret (by decide)

end Cuts

end Smb
end Ps2Cdvd
