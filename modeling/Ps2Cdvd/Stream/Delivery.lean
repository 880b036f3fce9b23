import Ps2Cdvd.Lib.Run
import Ps2Cdvd.Stream.System

/-!
# Streaming delivers the disc in order

The runs of a started stream, as long as no operation starts it anew: the end of
a device read with its callback, the alarm, reads of other threads, pause and
resume, and the non-blocking `sceCdStRead` of one client.  For an EE buffer the
snapshot with its DMA and the commit are two steps; the fill at the end of
`sceCdStRead` is a step of its own.

`StreamOk drive lsn c` relates the counters, the ring and the read in flight to
the position of the stream: `c` sectors have been taken out, the ring holds the
next `StStreamed` ones, and the bank being read holds those after them.  The
client's part is that of `c` it has been handed.

* `sceCdStRead_inOrder`: what is handed out is the disc from `lsn` on.
-/

namespace Ps2Cdvd
namespace Stream

open Lib Read

universe u

section Source

variable {β : Type u}

/-- Where the client is in `sceCdStRead`: outside, between the two critical
sections of `ReadSectorsEE`, before `StStartFillStreamBuffer`. -/
inductive Client (β : Type u)
  | outside
  | copying (v : Snapshot) (sectors : List (Option β))
  | filling

/-- A call `sceCdStRead(asked, ..)`: `StStreamed` at its snapshot and the
value returned. -/
structure StReadCall where
  asked : Nat
  streamed : Nat
  result : Nat

/-- The system with one client, the sectors handed out so far and the calls. -/
structure StreamRun (β : Type u) where
  sys : System β
  client : Client β
  handed : List (Option β)
  calls : List StReadCall

/-- The sectors that the transfers put into the user's buffer. -/
def copiedSectors
    (ring : Nat → Option β) (transfers : List Transfer) (result : Nat) :
    List (Option β) :=
  (List.range result).map
    (fun x =>
      match slotAt transfers x with
      | some slot => ring slot
      | none => none)

/-- Steps of a started stream. -/
inductive StreamAct
  | readDone
  | alarm
  | foreignRead (async : Bool)
  | pause
  | resume
  | stReadEE (sectors : Nat)
  | stRead (sectors : Nat)
  | commit
  | fill
deriving DecidableEq

/-- `ReadSectorsEE` up to the end of its first critical section. -/
def beginEE (n : Nat) (r : StreamRun β) : StreamRun β :=
  let v := readSectorsEE r.sys.data (s32 n)
  let copied := copiedSectors r.sys.ring v.transfers v.result
  { r with
    client := if v.transfers ≠ [] then .copying v copied else .filling
    handed := r.handed ++ copied
    calls := r.calls ++ [⟨n, r.sys.data.streamed, v.result⟩] }

/-- `ReadSectors`. -/
def copyIop (n : Nat) (r : StreamRun β) : StreamRun β :=
  let w := readSectors r.sys.data (s32 n)
  { r with
    sys := { r.sys with data := w.data }
    client := .filling
    handed := r.handed ++ copiedSectors r.sys.ring w.transfers w.result
    calls := r.calls ++ [⟨n, r.sys.data.streamed, w.result⟩] }

/-- `sceCdStRead` with mode 0 up to its first step: nothing is read before a
start, and nothing is copied for no sectors. -/
def beginStRead
    (copy : StreamRun β → StreamRun β) (n : Nat) (r : StreamRun β) :
    Option (StreamRun β) :=
  match r.client with
  | .outside =>
      if n < 2147483648 then
        if r.sys.data.stat then
          if 0 < n then some (copy r)
          else
            some
              { r with
                client := .filling
                calls := r.calls ++ [⟨n, r.sys.data.streamed, 0⟩] }
        else some r
      else none
  | _ => none

/-- The system moves and the client does not. -/
def StreamRun.withSys (r : StreamRun β) : Option (System β) → Option (StreamRun β)
  | some s => some { r with sys := s }
  | none => none

/-- One step of a started stream, in which every device read succeeds. -/
def streamStep (drive : Drive β) (r : StreamRun β) :
    StreamAct → Option (StreamRun β)
  | .readDone => r.withSys (Stream.readDone drive true r.sys)
  | .alarm =>
      if r.sys.alarm then r.withSys (some (stmScheduleCb r.sys)) else none
  | .foreignRead async => r.withSys (some (Stream.foreignRead async r.sys))
  | .pause => r.withSys (sceCdStPause drive true r.sys)
  | .resume => r.withSys (some (sceCdStResume r.sys))
  | .stReadEE n => beginStRead (beginEE n) n r
  | .stRead n => beginStRead (copyIop n) n r
  | .commit =>
      match r.client with
      | .copying v _ =>
          some
            { r with
              sys := { r.sys with data := Stream.commit v r.sys.data }
              client := .filling }
      | _ => none
  | .fill =>
      match r.client with
      | .filling =>
          some
            { r with
              sys := stStartFillStreamBuffer r.sys
              client := .outside }
      | _ => none

/-- The client before its first `sceCdStRead`. -/
def StreamRun.start (s : System β) : StreamRun β :=
  ⟨s, .outside, [], []⟩

end Source

section Position

variable {β : Type u} {drive : Drive β} {lsn c : Nat}

/-- The bank at the write pointer holds the sectors that follow. -/
def Landed (drive : Drive β) (s : System β) : Prop :=
  s.data.lsn + s.data.banksize ≤ drive.size ∧
    ∀ j, j < s.data.banksize →
      s.ring (s.data.writePtr + j) = some (drive.sector (s.data.lsn + j))

/-- No bank read is in flight. -/
def NoBank (s : System β) : Prop :=
  ∀ req, s.pending ≠ some (.bank req)

theorem noBank_of_none
    {s : System β}
    (h : s.pending = none) :
    NoBank s := by
  intro req hreq
  rw [h] at hreq
  cases hreq

/-- The invariant of the system for a stream that began at `lsn` and of which
`c` sectors have been taken out. -/
structure StreamOk (drive : Drive β) (lsn c : Nat) (s : System β) : Prop where
  counters : RingOk s.data
  stat : s.data.stat = true
  lsn_eq : s.data.lsn = lsn + c + s.data.streamed
  contents :
    Holds s.ring s.data.bufmax s.data.readPtr s.data.streamed
      (fun i => drive.sector (lsn + c + i))
  reading :
    s.data.isReading = true →
      s.pending = some (.bank (nextBank s.data)) ∨ (NoBank s ∧ Landed drive s)
  notReading :
    s.data.isReading = false → NoBank s ∨ s.data.streamed = 0

/-- The ring contents survive a write to the bank at the write pointer. -/
theorem StreamOk.contents_write
    {s : System β}
    (h : StreamOk drive lsn c s)
    (hroom : s.data.streamed + s.data.banksize ≤ s.data.bufmax)
    (g : Nat → Option β) :
    Holds (writeRange s.ring s.data.writePtr s.data.banksize g)
      s.data.bufmax s.data.readPtr s.data.streamed
      (fun i => drive.sector (lsn + c + i)) := by
  rw [h.counters.write_eq]
  exact h.contents.write_free hroom

/-- A fill keeps the stream in position. -/
theorem StreamOk.fill
    {s : System β}
    (h : StreamOk drive lsn c s) :
    StreamOk drive lsn c (stStartFillStreamBuffer s) := by
  rcases stStartFillStreamBuffer_cases s with
    ⟨-, heq⟩ | ⟨-, -, heq⟩ | ⟨-, -, -, heq⟩ | ⟨hreading, hroom, -, heq⟩
  · rw [heq]
    exact h
  · rw [heq]
    exact ⟨h.counters, h.stat, h.lsn_eq, h.contents, h.reading, h.notReading⟩
  · rw [heq]
    exact ⟨h.counters, h.stat, h.lsn_eq, h.contents, h.reading, h.notReading⟩
  · rw [heq]
    have hle := hasRoom_iff.mp hroom
    refine ⟨h.counters.setReading hle true, h.stat, h.lsn_eq, ?_,
      fun _ => Or.inl rfl, ?_⟩
    · exact h.contents_write hle (fun _ => none)
    · intro hfalse
      cases hfalse

/-- The successful end of a device read keeps the stream in position, and no
bank read is in flight afterwards. -/
theorem StreamOk.finish
    {s t : System β} {p : Pending}
    (h : StreamOk drive lsn c s)
    (hlogo : 13 ≤ lsn)
    (hp : s.pending = some p)
    (ht : finishRead drive true p s = some t) :
    StreamOk drive lsn c t ∧ t.pending = none := by
  cases p with
  | foreign async =>
      simp only [finishRead, Option.some.injEq] at ht
      subst ht
      refine ⟨⟨h.counters, h.stat, h.lsn_eq, h.contents, ?_, ?_⟩, rfl⟩
      · intro hreading
        rcases h.reading hreading with hbank | ⟨-, hlanded⟩
        · rw [hp] at hbank
          cases hbank
        · exact Or.inr ⟨noBank_of_none rfl, hlanded⟩
      · intro _
        exact Or.inl (noBank_of_none rfl)
  | bank req =>
      simp only [finishRead, if_true] at ht
      split_ifs at ht with hdisc
      cases ht
      cases hreading : s.data.isReading with
      | true =>
          have hreq : req = nextBank s.data := by
            rcases h.reading hreading with hbank | ⟨hno, -⟩
            · rw [hp] at hbank
              cases hbank
              rfl
            · exact absurd hp (hno req)
          subst hreq
          have hroom := h.counters.room hreading
          have hfrom : 13 ≤ s.data.lsn := by
            rw [h.lsn_eq]
            omega
          have hsectors :
              ∀ j, j < s.data.banksize →
                writeRange s.ring s.data.writePtr s.data.banksize
                    (fun j =>
                      some (drive.delivered s.data.lsn s.data.banksize j))
                    (s.data.writePtr + j) =
                  some (drive.sector (s.data.lsn + j)) := by
            intro j hj
            rw [writeRange_inside _ _ _ hj]
            exact congrArg some (drive.delivered_eq _ _ _ hfrom hdisc hj)
          refine ⟨⟨h.counters, h.stat, h.lsn_eq, ?_, ?_, ?_⟩, rfl⟩
          · exact h.contents_write hroom
              (fun j => some (drive.delivered s.data.lsn s.data.banksize j))
          · exact fun _ => Or.inr ⟨noBank_of_none rfl, hdisc, hsectors⟩
          · exact fun _ => Or.inl (noBank_of_none rfl)
      | false =>
          -- a read of an earlier stream: nothing is in the ring yet
          have hempty : s.data.streamed = 0 := by
            rcases h.notReading hreading with hno | hzero
            · exact absurd hp (hno req)
            · exact hzero
          refine ⟨⟨h.counters, h.stat, h.lsn_eq, ?_, ?_, ?_⟩, rfl⟩
          · show Holds _ s.data.bufmax s.data.readPtr s.data.streamed _
            rw [hempty]
            exact Holds.empty
          · intro htrue
            rw [hreading] at htrue
            cases htrue
          · exact fun _ => Or.inl (noBank_of_none rfl)

/-- `StmCallback` counts the bank that has landed. -/
theorem StreamOk.callback
    {s : System β}
    (h : StreamOk drive lsn c s)
    (hfree : s.pending = none) :
    StreamOk drive lsn c (runStmCallback s) := by
  apply StreamOk.fill
  have hnone : NoBank s := noBank_of_none hfree
  cases hreading : s.data.isReading with
  | false =>
      have hsame : stmCallback s.data = s.data := by
        simp [stmCallback, hreading]
      rw [hsame]
      exact h
  | true =>
      obtain ⟨hdisc, hsectors⟩ : Landed drive s := by
        rcases h.reading hreading with hbank | ⟨-, hlanded⟩
        · exact absurd hbank (hnone _)
        · exact hlanded
      have hlt := drive.size_lt
      have hroom := h.counters.room hreading
      have hblock := h.counters.write_add_le
      have hdata :
          stmCallback s.data = accountBank s.data := by
        simp [stmCallback, hreading]
      rw [hdata]
      have hok := h.counters.accountBank hreading
      rw [h.counters.accountBank_eq hreading] at hok ⊢
      refine ⟨hok, h.stat, ?_, ?_, ?_, fun _ => Or.inl hnone⟩
      · show u32 (s.data.lsn + s.data.banksize) =
          lsn + c + (s.data.streamed + s.data.banksize)
        rw [u32_of_lt (by omega), h.lsn_eq]
        omega
      · rw [h.counters.write_eq] at hblock
        refine h.contents.extend hblock ?_
        intro j hj
        rw [← h.counters.write_eq, hsectors j hj, h.lsn_eq]
        rw [Nat.add_assoc (lsn + c)]
      · intro hfalse
        cases hfalse

/-- Taking out the first `k` sectors moves the position by `k`. -/
theorem StreamOk.takeFront
    {s : System β} {k : Nat}
    (h : StreamOk drive lsn c s)
    (hk : k ≤ s.data.streamed) :
    StreamOk drive lsn (c + k) { s with data := takeFront k s.data } := by
  refine ⟨h.counters.takeFront hk, h.stat, ?_, ?_, h.reading, ?_⟩
  · show s.data.lsn = lsn + (c + k) + (s.data.streamed - k)
    rw [h.lsn_eq]
    omega
  · have hrest :=
      h.contents.drop h.counters.read_lt h.counters.streamed_le hk
    have hfun :
        (fun i => drive.sector (lsn + c + (k + i))) =
          fun i => drive.sector (lsn + (c + k) + i) := by
      funext i
      congr 1
      omega
    rw [hfun] at hrest
    exact hrest
  · intro hreading
    rcases h.notReading hreading with hnone | hzero
    · exact Or.inl hnone
    · right
      show s.data.streamed - k = 0
      omega

/-- What a copy of the first `k` sectors puts into the user's buffer. -/
theorem StreamOk.copiedSectors_eq
    {s : System β} {k : Nat} {v : Snapshot}
    (h : StreamOk drive lsn c s)
    (hv : CopiesFirst s.data k v)
    (hk : k ≤ s.data.streamed) :
    copiedSectors s.ring v.transfers k =
      (List.range k).map (fun i => some (drive.sector (lsn + c + i))) := by
  unfold copiedSectors
  apply List.map_congr_left
  intro x hx
  rw [List.mem_range] at hx
  rw [hv.slots x hx]
  exact h.contents x (by omega)

/-- The end of a device read with its callback. -/
theorem StreamOk.readDone
    {s t : System β}
    (h : StreamOk drive lsn c s)
    (hlogo : 13 ≤ lsn)
    (ht : readDone drive true s = some t) :
    StreamOk drive lsn c t ∧ Grows s t := by
  unfold Stream.readDone at ht
  cases hp : s.pending with
  | none =>
      rw [hp] at ht
      cases ht
  | some p =>
      rw [hp] at ht
      cases hfin : finishRead drive true p s with
      | none =>
          simp only [hfin] at ht
          cases ht
      | some u =>
          simp only [hfin] at ht
          obtain ⟨hu, hfree⟩ := h.finish hlogo hp hfin
          have hgrow := grows_finish hfin
          split_ifs at ht
          · cases ht
            exact ⟨hu.callback hfree, hgrow.trans (grows_callback hu.counters)⟩
          · cases ht
            exact ⟨hu, hgrow⟩

theorem StreamOk.foreignRead
    {s : System β}
    (h : StreamOk drive lsn c s)
    (async : Bool) :
    StreamOk drive lsn c (foreignRead async s) := by
  unfold Stream.foreignRead
  split_ifs with hbusy
  · exact h
  · have hfree : s.pending = none := by
      simpa using hbusy
    have hnone :
        NoBank { s with pending := some (Pending.foreign async) } := by
      intro req hreq
      cases hreq
    refine ⟨h.counters, h.stat, h.lsn_eq, h.contents, ?_, fun _ => Or.inl hnone⟩
    intro hreading
    rcases h.reading hreading with hbank | ⟨-, hlanded⟩
    · rw [hfree] at hbank
      cases hbank
    · exact Or.inr ⟨hnone, hlanded⟩

theorem StreamOk.pause
    {s t : System β}
    (h : StreamOk drive lsn c s)
    (hlogo : 13 ≤ lsn)
    (ht : sceCdStPause drive true s = some t) :
    StreamOk drive lsn c t ∧ Grows s t := by
  have hclear :
      StreamOk drive lsn c { s with stm0Callback := false, alarm := false } :=
    ⟨h.counters, h.stat, h.lsn_eq, h.contents, h.reading, h.notReading⟩
  unfold sceCdStPause syncWait at ht
  rw [if_pos h.stat] at ht
  cases hp : s.pending with
  | none =>
      simp only [hp] at ht
      cases ht
      exact ⟨hp ▸ hclear, ⟨rfl, rfl, le_rfl⟩⟩
  | some p =>
      simp only [hp] at ht
      obtain ⟨hok, -⟩ := hclear.finish hlogo hp (hp ▸ ht)
      have hgrow := grows_finish ht
      exact ⟨hok, ⟨hgrow.bufmax, hgrow.readPtr, hgrow.streamed⟩⟩

theorem StreamOk.resume
    {s : System β}
    (h : StreamOk drive lsn c s) :
    StreamOk drive lsn c (sceCdStResume s) ∧ Grows s (sceCdStResume s) := by
  unfold sceCdStResume
  rw [if_pos h.stat]
  have hset : StreamOk drive lsn c { s with stm0Callback := true } :=
    ⟨h.counters, h.stat, h.lsn_eq, h.contents, h.reading, h.notReading⟩
  have hgrow := grows_fill { s with stm0Callback := true }
  exact ⟨hset.fill, ⟨hgrow.bufmax, hgrow.readPtr, hgrow.streamed⟩⟩

theorem StreamOk.alarm
    {s : System β}
    (h : StreamOk drive lsn c s) :
    StreamOk drive lsn c (stmScheduleCb s) ∧ Grows s (stmScheduleCb s) := by
  have hset : StreamOk drive lsn c { s with alarm := false } :=
    ⟨h.counters, h.stat, h.lsn_eq, h.contents, h.reading, h.notReading⟩
  have hgrow := grows_fill { s with alarm := false }
  exact ⟨hset.fill, ⟨hgrow.bufmax, hgrow.readPtr, hgrow.streamed⟩⟩

end Position

section Client

variable {β : Type u} {drive : Drive β} {lsn : Nat}

/-- Sectors that the client has snapshotted but not yet taken out. -/
def Client.held : Client β → Nat
  | .copying v _ => v.result
  | _ => 0

/-- A copy in progress is of the first sectors of the ring, which are still
there. -/
def CopyOk (drive : Drive β) (lsn c : Nat) (s : System β) : Client β → Prop
  | .copying v sectors =>
      CopiesFirst s.data v.result v ∧ v.result ≤ s.data.streamed ∧
        sectors =
          (List.range v.result).map (fun i => some (drive.sector (lsn + c + i)))
  | _ => True

/-- The invariant of a started stream with its client; `c` sectors have been
taken out. -/
structure RunOk (drive : Drive β) (lsn c : Nat) (r : StreamRun β) : Prop where
  sys : StreamOk drive lsn c r.sys
  copy : CopyOk drive lsn c r.sys r.client
  position : r.handed.length = c + r.client.held
  handed :
    r.handed =
      (List.range r.handed.length).map (fun i => some (drive.sector (lsn + i)))
  results : ∀ call ∈ r.calls, call.result = min call.asked call.streamed
  total : (r.calls.map StReadCall.result).sum = r.handed.length

variable {c : Nat} {r r' : StreamRun β}

/-- A copy in progress survives when sectors are added behind it. -/
theorem CopyOk.grows
    {s t : System β} {client : Client β}
    (h : CopyOk drive lsn c s client)
    (hgrow : Grows s t) :
    CopyOk drive lsn c t client := by
  cases client with
  | copying v sectors =>
      obtain ⟨hv, hle, hsectors⟩ := h
      refine ⟨⟨hv.result, ?_, ?_, hv.beyond, hv.some_transfer⟩,
        le_trans hle hgrow.streamed, hsectors⟩
      · rw [hgrow.bufmax, hgrow.readPtr]
        exact hv.rdptr
      · rw [hgrow.bufmax, hgrow.readPtr]
        exact hv.slots
  | outside => trivial
  | filling => trivial

/-- A step of the system. -/
theorem RunOk.withSys
    {s : System β}
    (h : RunOk drive lsn c r)
    (hs : StreamOk drive lsn c s)
    (hgrow : Grows r.sys s) :
    RunOk drive lsn c { r with sys := s } :=
  ⟨hs, h.copy.grows hgrow, h.position, h.handed, h.results, h.total⟩

/-- The handed-out sectors continue. -/
theorem handed_append
    {handed : List (Option β)} {k : Nat}
    (h : handed =
      (List.range handed.length).map (fun i => some (drive.sector (lsn + i)))) :
    handed ++
        (List.range k).map
          (fun i => some (drive.sector (lsn + handed.length + i))) =
      (List.range (handed.length + k)).map
        (fun i => some (drive.sector (lsn + i))) := by
  rw [List.range_add, List.map_append, ← h, List.map_map]
  congr 1
  apply List.map_congr_left
  intro i _
  simp [Nat.add_assoc]

/-- The call that is added to the history. -/
theorem results_append
    {calls : List StReadCall} {call : StReadCall}
    (h : ∀ call ∈ calls, call.result = min call.asked call.streamed)
    (hcall : call.result = min call.asked call.streamed) :
    ∀ x ∈ calls ++ [call], x.result = min x.asked x.streamed := by
  intro x hx
  rcases List.mem_append.mp hx with hx | hx
  · exact h x hx
  · rw [List.mem_singleton] at hx
    subst hx
    exact hcall

/-- `ReadSectorsEE` hands out the next sectors. -/
theorem RunOk.beginEE
    {n : Nat}
    (h : RunOk drive lsn c r)
    (hn : n < 2147483648)
    (hclient : r.client = .outside) :
    RunOk drive lsn c (beginEE n r) := by
  have hv := readSectorsEE_spec h.sys.counters n
  have hle : min n r.sys.data.streamed ≤ r.sys.data.streamed := min_le_right _ _
  have hcopied := h.sys.copiedSectors_eq hv hle
  have hpos : r.handed.length = c := by
    have hposition := h.position
    rw [hclient] at hposition
    exact hposition
  unfold Stream.beginEE
  rw [s32_of_lt hn]
  simp only [hv.result, hcopied]
  refine ⟨h.sys, ?_, ?_, ?_, ?_, ?_⟩
  · dsimp only
    split_ifs
    · refine ⟨?_, ?_, ?_⟩
      · rw [hv.result]
        exact hv
      · rw [hv.result]
        exact hle
      · rw [hv.result]
    · trivial
  · dsimp only
    split_ifs with hcopy
    · simp [Client.held, hv.result, hpos]
    · rw [ne_eq, not_not] at hcopy
      have hzero := hv.some_transfer hcopy
      simp [Client.held, hzero, hpos]
  · dsimp only
    have happend :=
      @handed_append _ drive lsn r.handed (min n r.sys.data.streamed) h.handed
    rw [hpos] at happend
    simp only [List.length_append, List.length_map, List.length_range]
    rw [happend, hpos]
  · exact results_append h.results rfl
  · have htotal := h.total
    simp [htotal]

/-- `ReadSectors` hands out the next sectors and takes them out. -/
theorem RunOk.copyIop
    {n : Nat}
    (h : RunOk drive lsn c r)
    (hn : n < 2147483648)
    (hclient : r.client = .outside) :
    RunOk drive lsn (c + min n r.sys.data.streamed) (copyIop n r) := by
  have hv := readSectorsEE_spec h.sys.counters n
  obtain ⟨hdata, hresult, htransfers⟩ := readSectors_spec h.sys.counters n
  have hle : min n r.sys.data.streamed ≤ r.sys.data.streamed := min_le_right _ _
  have hcopied := h.sys.copiedSectors_eq hv hle
  have hpos : r.handed.length = c := by
    have hposition := h.position
    rw [hclient] at hposition
    exact hposition
  unfold Stream.copyIop
  rw [s32_of_lt hn]
  simp only [hdata, hresult, htransfers, hcopied]
  refine ⟨h.sys.takeFront hle, trivial, ?_, ?_, ?_, ?_⟩
  · simp [Client.held, hpos]
  · have happend :=
      @handed_append _ drive lsn r.handed (min n r.sys.data.streamed) h.handed
    rw [hpos] at happend
    simp only [List.length_append, List.length_map, List.length_range]
    rw [happend, hpos]
  · exact results_append h.results rfl
  · have htotal := h.total
    simp [htotal]

/-- The commit of `ReadSectorsEE` takes out what was copied. -/
theorem RunOk.commit
    {v : Snapshot} {sectors : List (Option β)}
    (h : RunOk drive lsn c r)
    (hclient : r.client = .copying v sectors) :
    RunOk drive lsn (c + v.result)
      { r with
        sys := { r.sys with data := Stream.commit v r.sys.data }
        client := .filling } := by
  have hcopy := h.copy
  have hposition := h.position
  rw [hclient] at hcopy hposition
  obtain ⟨hv, hle, -⟩ := hcopy
  rw [hv.commit_eq h.sys.counters hle]
  exact ⟨h.sys.takeFront hle, trivial, hposition, h.handed, h.results, h.total⟩

/-- A call of `sceCdStRead` up to its first step. -/
theorem RunOk.beginStRead
    {n : Nat} {copy : StreamRun β → StreamRun β}
    (h : RunOk drive lsn c r)
    (hcopy : n < 2147483648 → r.client = .outside →
      ∃ c', RunOk drive lsn c' (copy r))
    (hr : beginStRead copy n r = some r') :
    ∃ c', RunOk drive lsn c' r' := by
  unfold Stream.beginStRead at hr
  cases hclient : r.client with
  | outside =>
      rw [hclient] at hr
      simp only [if_pos h.sys.stat] at hr
      split_ifs at hr with hn hpos
      · cases hr
        exact hcopy hn hclient
      · cases hr
        have hposition := h.position
        have htotal := h.total
        rw [hclient] at hposition
        refine ⟨c, h.sys, trivial, hposition, h.handed, ?_, by simp [htotal]⟩
        refine results_append h.results ?_
        show 0 = min n r.sys.data.streamed
        omega
  | copying v sectors =>
      rw [hclient] at hr
      cases hr
  | filling =>
      rw [hclient] at hr
      cases hr

/-- Every step keeps the invariant; a step of the client may move the
position. -/
theorem RunOk.step
    {a : StreamAct}
    (h : RunOk drive lsn c r)
    (hlogo : 13 ≤ lsn)
    (hr : streamStep drive r a = some r') :
    ∃ c', RunOk drive lsn c' r' := by
  cases a with
  | readDone =>
      cases hs : Stream.readDone drive true r.sys with
      | none =>
          simp only [streamStep, hs] at hr
          cases hr
      | some s =>
          simp only [streamStep, hs] at hr
          cases hr
          obtain ⟨hok, hgrow⟩ := h.sys.readDone hlogo hs
          exact ⟨c, h.withSys hok hgrow⟩
  | alarm =>
      simp only [streamStep] at hr
      split_ifs at hr
      cases hr
      obtain ⟨hok, hgrow⟩ := h.sys.alarm
      exact ⟨c, h.withSys hok hgrow⟩
  | foreignRead async =>
      cases hr
      refine ⟨c, h.withSys (h.sys.foreignRead async) ?_⟩
      unfold Stream.foreignRead
      split_ifs
      · exact ⟨rfl, rfl, le_rfl⟩
      · exact ⟨rfl, rfl, le_rfl⟩
  | pause =>
      cases hs : sceCdStPause drive true r.sys with
      | none =>
          simp only [streamStep, hs] at hr
          cases hr
      | some s =>
          simp only [streamStep, hs] at hr
          cases hr
          obtain ⟨hok, hgrow⟩ := h.sys.pause hlogo hs
          exact ⟨c, h.withSys hok hgrow⟩
  | resume =>
      cases hr
      obtain ⟨hok, hgrow⟩ := h.sys.resume
      exact ⟨c, h.withSys hok hgrow⟩
  | stReadEE n =>
      exact h.beginStRead (fun hn hclient => ⟨c, h.beginEE hn hclient⟩) hr
  | stRead n =>
      exact h.beginStRead (fun hn hclient => ⟨_, h.copyIop hn hclient⟩) hr
  | commit =>
      simp only [streamStep] at hr
      cases hclient : r.client with
      | copying v sectors =>
          rw [hclient] at hr
          cases hr
          exact ⟨_, h.commit hclient⟩
      | outside =>
          rw [hclient] at hr
          cases hr
      | filling =>
          rw [hclient] at hr
          cases hr
  | fill =>
      simp only [streamStep] at hr
      cases hclient : r.client with
      | filling =>
          rw [hclient] at hr
          cases hr
          have hposition := h.position
          rw [hclient] at hposition
          exact ⟨c, h.sys.fill, trivial, hposition, h.handed, h.results, h.total⟩
      | outside =>
          rw [hclient] at hr
          cases hr
      | copying v sectors =>
          rw [hclient] at hr
          cases hr

/-- Every run keeps the invariant. -/
theorem RunOk.run
    (h : RunOk drive lsn c r)
    (hlogo : 13 ≤ lsn)
    (hrun : Reach (streamStep drive) r r') :
    ∃ c', RunOk drive lsn c' r' := by
  refine hrun.invariant (I := fun u => ∃ c', RunOk drive lsn c' u) ⟨c, h⟩ ?_
  rintro u a t ⟨c', hu⟩ - ht
  exact hu.step hlogo ht

/-- `sceCdStStop` leaves the sizes of the buffer. -/
theorem geometry_sceCdStStop
    {s t : System β} {ok : Bool}
    (h : Geometry s.data)
    (ht : sceCdStStop drive ok s = some t) :
    Geometry t.data := by
  unfold sceCdStStop syncWait at ht
  split_ifs at ht
  · cases hp : s.pending with
    | none =>
        simp only [hp] at ht
        cases ht
        exact ⟨h.bank_pos, h.banks, h.small⟩
    | some p =>
        simp only [hp] at ht
        cases p with
        | foreign async =>
            cases ht
            exact ⟨h.bank_pos, h.banks, h.small⟩
        | bank req =>
            simp only [finishRead] at ht
            split_ifs at ht
            · cases ht
              exact ⟨h.bank_pos, h.banks, h.small⟩
            · cases ht
              exact ⟨h.bank_pos, h.banks, h.small⟩
  · cases ht
    exact h

/-- A stream just started is in position. -/
theorem streamOk_start
    {s t : System β} {ok : Bool}
    (h : Geometry s.data)
    (ht : sceCdStStart drive ok lsn s = some t) :
    StreamOk drive lsn 0 t := by
  unfold sceCdStStart at ht
  cases hs : sceCdStStop drive ok s with
  | none =>
      rw [hs] at ht
      cases ht
  | some u =>
      rw [hs] at ht
      cases ht
      apply StreamOk.fill
      obtain ⟨hpos, hbanks, hsmall⟩ := geometry_sceCdStStop h hs
      have hgeo : Geometry { u.data with lsn := lsn, stat := true } :=
        ⟨hpos, hbanks, hsmall⟩
      refine ⟨ringOk_stReset hgeo, rfl, rfl, Holds.empty, ?_, fun _ => Or.inr rfl⟩
      intro hfalse
      cases hfalse

/-- **Streaming delivers the disc in order.**  From any state, after
`sceCdStInit` with valid arguments and `sceCdStStart`, in every run in which the
device reads succeed: the sectors handed out are those of the disc from `lsn` on,
each call has returned what it asked for or all there was at its snapshot, as
many as were handed out, and a copy in progress still finds its sectors in the
ring. -/
theorem sceCdStRead_inOrder
    {bufmax bankmax : Nat} {s₀ s : System β}
    (hpos : 0 < bankmax)
    (hle : bankmax ≤ bufmax)
    (hsmall : bufmax < 65536)
    (hlogo : 13 ≤ lsn)
    (hstart : sceCdStStart drive true lsn (sceCdStInit bufmax bankmax s₀) = some s)
    (hrun : Reach (streamStep drive) (StreamRun.start s) r) :
    r.handed =
        (List.range r.handed.length).map
          (fun i => some (drive.sector (lsn + i))) ∧
      (∀ call ∈ r.calls, call.result = min call.asked call.streamed) ∧
      (r.calls.map StReadCall.result).sum = r.handed.length ∧
      ∀ v sectors, r.client = .copying v sectors →
        copiedSectors r.sys.ring v.transfers v.result = sectors := by
  have hgeo : Geometry (sceCdStInit bufmax bankmax s₀).data :=
    geometry_stInit hpos hle hsmall s₀.data
  have hfirst : RunOk drive lsn 0 (StreamRun.start s) := by
    refine ⟨streamOk_start hgeo hstart, trivial, rfl, rfl, ?_, rfl⟩
    intro call hcall
    cases hcall
  obtain ⟨c, h⟩ := hfirst.run hlogo hrun
  refine ⟨h.handed, h.results, h.total, ?_⟩
  intro v sectors hclient
  have hcopy := h.copy
  rw [hclient] at hcopy
  obtain ⟨hv, hle, hsectors⟩ := hcopy
  rw [h.sys.copiedSectors_eq hv hle, hsectors]

/-- A stream of two banks of two sectors from sector 100 on: a bank completes
between the two critical sections of the first call, and the second call meets a
wrapped buffer. -/
def drainAndWrap : List StreamAct :=
  [.readDone, .stReadEE 3, .readDone, .commit, .fill, .readDone, .pause, .resume,
    .stRead 1, .fill, .stReadEE 5, .commit, .fill]

theorem sceCdStRead_inOrder_numberedDisc :
    ∃ s r, sceCdStStart numberedDisc true 100
        (sceCdStInit 4 2 (System.loaded Nat)) = some s ∧
      runActs (streamStep numberedDisc) (StreamRun.start s) drainAndWrap =
        some r ∧
      r.handed = [some 100, some 101, some 102, some 103, some 104, some 105] ∧
      r.handed =
        (List.range r.handed.length).map
          (fun i => some (numberedDisc.sector (100 + i))) :=
  ⟨_, _, rfl, rfl, rfl,
    (@sceCdStRead_inOrder Nat numberedDisc 100 _ 4 2 (System.loaded Nat) _
      (by decide) (by decide) (by decide) (by decide) rfl
      (guardedReach_of_runGuarded drainAndWrap rfl)).1⟩

end Client

end Stream
end Ps2Cdvd
