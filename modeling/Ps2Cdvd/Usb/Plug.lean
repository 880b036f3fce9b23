import Mathlib.Tactic
import Ps2Cdvd.Lib.Run

/-!
# Plugging and unplugging USB mass storage

`mass_driver.c` serves one device, whose record is `g_mass_device`.  usbd calls
`mass_stor_probe`, `mass_stor_connect` and `mass_stor_disconnect` for the devices
that come and go, and `DeviceFSInit` calls `mass_stor_configureDevice` until it has
succeeded.  What the descriptors say, what the calls of usbd and of the kernel
return and how the SCSI commands of the warm-up end are inputs of the events.

* `massStor_recovers`: in every run in which the warm-up of a recorded device
  never fails, no second device is accepted, and unplugging the recorded one
  leaves the driver ready for the next;
* `massStor_lost`: after a failed warm-up no event ever changes the record again.
-/

namespace Ps2Cdvd
namespace UsbPlug

open Lib

section Source

def deviceDetected : Nat := 0x01
def deviceConfigured : Nat := 0x02

def usbEndpointXferBulk : Nat := 2
def usbEndpointDirMask : Nat := 0x80
def usbDirOut : Nat := 0
def usbDirIn : Nat := 0x80

def usbClassMassStorage : Nat := 8
def usbSubclassMassSff8070i : Nat := 0x05
def usbSubclassMassScsi : Nat := 0x06
def usbProtocolMassBulkOnly : Nat := 0x50

/-- `sizeof(UsbConfigDescriptor) + sizeof(UsbInterfaceDescriptor)`. -/
def configAndInterfaceSize : Nat := 9 + 9

structure UsbInterfaceDescriptor where
  bInterfaceNumber : Nat
  bAlternateSetting : Nat
  bNumEndpoints : Nat
  bInterfaceClass : Nat
  bInterfaceSubClass : Nat
  bInterfaceProtocol : Nat

/-- A configuration, with its first interface behind it. -/
structure UsbConfigDescriptor where
  wTotalLength : Nat
  bNumInterfaces : Nat
  bConfigurationValue : Nat
  interface : UsbInterfaceDescriptor

/-- A device, with the configuration that `UsbGetDeviceStaticDescriptor` finds. -/
structure UsbDeviceDescriptor where
  bNumConfigurations : Nat
  config : Option UsbConfigDescriptor

/-- An endpoint, with what `UsbOpenEndpointAligned` returns for it. -/
structure UsbEndpoint where
  bEndpointAddress : Nat
  bmAttributes : Nat
  wMaxPacketSizeLB : Nat
  wMaxPacketSizeHB : Nat
  opened : Int

/-- What `mass_stor_connect` gets from usbd and from `CreateSema`. -/
structure Connection where
  controlEp : Int
  config : UsbConfigDescriptor
  endpoint : Nat → UsbEndpoint
  createSema : Int

/-- A round of the loop of `mass_stor_warmup`: the sense data, and the result of
`cbw_scsi_start_stop_unit`, where it is sent. -/
structure NotReady where
  errorCode : Nat
  senseKey : Nat
  addSenseCode : Nat
  addSenseQual : Nat
  startStopUnit : Int

/-- The results of the commands of `mass_stor_warmup`, the rounds until the unit
is ready, the data of `READ CAPACITY`, and the address that `AllocSysMemory`
returns. -/
structure Warmup where
  inquiry : Int
  notReady : List NotReady
  readCapacity : Int
  blockLength : Nat
  lastLba : Nat
  allocated : Nat

/-- `struct _mass_dev`. -/
structure MassDev where
  controlEp : Int
  bulkEpI : Int
  bulkEpO : Int
  packetSzI : Nat
  packetSzO : Nat
  devId : Int
  configId : Nat
  status : Nat
  interfaceNumber : Nat
  interfaceAlt : Nat
  sectorSize : Nat
  maxLBA : Nat
  ioSema : Int

/-- `g_mass_device`, `gSectorBuffer`, and the semaphores that exist. -/
structure State where
  dev : MassDev
  sectorBuffer : Nat
  semas : List Int

/-- After `mass_stor_init`. -/
def initial : State where
  dev := ⟨0, 0, 0, 0, 0, -1, 0, 0, 0, 0, 0, 0, 0⟩
  sectorBuffer := 0
  semas := []

/-- `dev->status & DEVICE_DETECTED`. -/
def MassDev.detected (dev : MassDev) : Bool :=
  dev.status &&& deviceDetected != 0

/-- `dev->status & DEVICE_CONFIGURED`. -/
def MassDev.configured (dev : MassDev) : Bool :=
  dev.status &&& deviceConfigured != 0

/-- `usb_bulk_probeEndpoint`. -/
def usbBulkProbeEndpoint (dev : MassDev) (endpoint : UsbEndpoint) : MassDev :=
  let packetSz := endpoint.wMaxPacketSizeHB <<< 8 ||| endpoint.wMaxPacketSizeLB
  if endpoint.bmAttributes = usbEndpointXferBulk then
    if endpoint.bEndpointAddress &&& usbEndpointDirMask = usbDirOut ∧
        dev.bulkEpO < 0 then
      { dev with bulkEpO := endpoint.opened, packetSzO := packetSz }
    else if endpoint.bEndpointAddress &&& usbEndpointDirMask = usbDirIn ∧
        dev.bulkEpI < 0 then
      { dev with bulkEpI := endpoint.opened, packetSzI := packetSz }
    else dev
  else dev

/-- The test of the first interface in `mass_stor_probe`. -/
def isMassStorage (intf : UsbInterfaceDescriptor) : Bool :=
  !(intf.bInterfaceClass != usbClassMassStorage ||
    (intf.bInterfaceSubClass != usbSubclassMassScsi &&
      intf.bInterfaceSubClass != usbSubclassMassSff8070i) ||
    intf.bInterfaceProtocol != usbProtocolMassBulkOnly ||
    decide (intf.bNumEndpoints < 2))

/-- `mass_stor_probe`, for what usbd returns as the device descriptor. -/
def massStorProbe (device : Option UsbDeviceDescriptor) (s : State) : Int :=
  if s.dev.detected then 0
  else
    match device with
    | none => 0
    | some device =>
        if device.bNumConfigurations < 1 then 0
        else
          match device.config with
          | none => 0
          | some config =>
              if config.bNumInterfaces < 1 ∨
                  config.wTotalLength < configAndInterfaceSize then 0
              else if isMassStorage config.interface then 1
              else 0

/-- `mass_stor_release`. -/
def massStorRelease (s : State) : State :=
  { s with
    dev :=
      { s.dev with bulkEpI := -1, bulkEpO := -1, controlEp := -1, status := 0 }
    sectorBuffer := 0 }

/-- The endpoints that `mass_stor_connect` looks at: the first one in any case. -/
def Connection.endpoints (c : Connection) : List UsbEndpoint :=
  (List.range (max 1 c.config.interface.bNumEndpoints)).map c.endpoint

/-- The record of the device before `mass_stor_connect` looks at its endpoints. -/
def MassDev.begin (dev : MassDev) (c : Connection) : MassDev :=
  { dev with
    status := 0
    sectorSize := 0
    bulkEpI := -1
    bulkEpO := -1
    controlEp := c.controlEp
    interfaceNumber := c.config.interface.bInterfaceNumber
    interfaceAlt := c.config.interface.bAlternateSetting }

/-- `mass_stor_connect`. -/
def massStorConnect (devId : Int) (c : Connection) (s : State) : Int × State :=
  if s.dev.devId ≠ -1 then (1, s)
  else
    let dev := c.endpoints.foldl usbBulkProbeEndpoint (s.dev.begin c)
    if dev.bulkEpI < 0 ∨ dev.bulkEpO < 0 then
      (-1, massStorRelease { s with dev := dev })
    else if c.createSema < 0 then
      (-1, { s with dev := { dev with ioSema := c.createSema } })
    else
      (0,
        { s with
          dev :=
            { dev with
              ioSema := c.createSema
              devId := devId
              configId := c.config.bConfigurationValue
              status := deviceDetected }
          semas := c.createSema :: s.semas })

/-- `mass_stor_disconnect`. -/
def massStorDisconnect (devId : Int) (s : State) : Int × State :=
  if s.dev.detected && devId == s.dev.devId then
    let released := massStorRelease s
    (0,
      { released with
        dev := { released.dev with devId := -1 }
        semas := s.semas.filter (fun sema => sema != s.dev.ioSema) })
  else (0, s)

/-- The unit asks for `START STOP UNIT`. -/
def NotReady.needsStart (r : NotReady) : Bool :=
  (r.errorCode == 0x70 && r.senseKey != 0x00) &&
    (r.senseKey == 0x02 && r.addSenseCode == 0x04 && r.addSenseQual == 0x02)

/-- The loop of `mass_stor_warmup`: whether the unit gets ready. -/
def unitReady : List NotReady → Bool
  | [] => true
  | r :: rs =>
      if r.needsStart && r.startStopUnit != 0 then false else unitReady rs

/-- `mass_stor_warmup`. -/
def massStorWarmup (w : Warmup) (s : State) : Int × State :=
  if !s.dev.detected then (-1, s)
  else if w.inquiry < 0 then (-1, s)
  else if !unitReady w.notReady then (-1, s)
  else if w.readCapacity ≠ 0 then (-1, s)
  else
    (0,
      { s with
        dev := { s.dev with sectorSize := w.blockLength, maxLBA := w.lastLba }
        sectorBuffer := if 2048 < w.blockLength then w.allocated else 0 })

/-- `dev->status |= DEVICE_CONFIGURED`. -/
def State.setConfigured (s : State) : State :=
  { s with dev := { s.dev with status := s.dev.status ||| deviceConfigured } }

/-- A device is recorded and not configured yet. -/
def State.Waiting (s : State) : Prop :=
  s.dev.devId ≠ -1 ∧ s.dev.detected = true ∧ s.dev.configured = false

instance instDecidableWaiting (s : State) : Decidable s.Waiting :=
  inferInstanceAs
    (Decidable
      (s.dev.devId ≠ -1 ∧ s.dev.detected = true ∧ s.dev.configured = false))

/-- `mass_stor_configureDevice`. -/
def massStorConfigureDevice (w : Warmup) (s : State) : Int × State :=
  if s.Waiting then
    let warm := massStorWarmup w s.setConfigured
    if warm.1 < 0 then (-1, massStorRelease warm.2)
    else (1, warm.2)
  else (0, s)

/-- What can happen to the driver. -/
inductive Event
  | probe (devId : Int) (device : Option UsbDeviceDescriptor)
  | connect (devId : Int) (c : Connection)
  | configure (w : Warmup)
  | disconnect (devId : Int)

/-- The state after an event.  `CreateSema` does not return the id of a semaphore
that exists. -/
def step (s : State) : Event → Option State
  | .probe _ _ => some s
  | .connect devId c =>
      if c.createSema ∈ s.semas then none
      else some (massStorConnect devId c s).2
  | .configure w => some (massStorConfigureDevice w s).2
  | .disconnect devId => some (massStorDisconnect devId s).2

end Source

section Inputs

/-- Every command of the warm-up succeeds. -/
def Warmup.Succeeds (w : Warmup) : Prop :=
  0 ≤ w.inquiry ∧
  (∀ r ∈ w.notReady, r.needsStart = true → r.startStopUnit = 0) ∧
  w.readCapacity = 0

instance instDecidableSucceeds (w : Warmup) : Decidable w.Succeeds :=
  inferInstanceAs
    (Decidable
      (0 ≤ w.inquiry ∧
        (∀ r ∈ w.notReady, r.needsStart = true → r.startStopUnit = 0) ∧
        w.readCapacity = 0))

/-- A mass-storage device in order: its descriptors pass the probe, its bulk
endpoints open, the kernel has a semaphore, and its warm-up succeeds. -/
structure Works
    (device : Option UsbDeviceDescriptor) (c : Connection) (w : Warmup) : Prop where
  device :
    ∃ d, device = some d ∧ 1 ≤ d.bNumConfigurations ∧ d.config = some c.config
  config :
    1 ≤ c.config.bNumInterfaces ∧
      configAndInterfaceSize ≤ c.config.wTotalLength
  massStorage : isMassStorage c.config.interface = true
  opens : ∀ e ∈ c.endpoints, 0 ≤ e.opened
  bulkIn :
    ∃ e ∈ c.endpoints, e.bmAttributes = usbEndpointXferBulk ∧
      e.bEndpointAddress &&& usbEndpointDirMask = usbDirIn
  bulkOut :
    ∃ e ∈ c.endpoints, e.bmAttributes = usbEndpointXferBulk ∧
      e.bEndpointAddress &&& usbEndpointDirMask = usbDirOut
  sema : 0 ≤ c.createSema
  warmup : w.Succeeds

theorem unitReady_iff :
    ∀ rs : List NotReady,
      unitReady rs = true ↔
        ∀ r ∈ rs, r.needsStart = true → r.startStopUnit = 0 := by
  intro rs
  induction rs with
  | nil =>
      simp [unitReady]
  | cons r rs ih =>
      by_cases hstop : r.needsStart && r.startStopUnit != 0
      · have hfail : unitReady (r :: rs) = false := by
          rw [unitReady, if_pos hstop]
        rw [hfail]
        simp only [Bool.and_eq_true, bne_iff_ne] at hstop
        constructor
        · intro h
          cases h
        · intro h
          exact absurd (h r List.mem_cons_self hstop.1) hstop.2
      · have hgo : unitReady (r :: rs) = unitReady rs := by
          rw [unitReady, if_neg hstop]
        rw [hgo, ih, List.forall_mem_cons]
        simp only [Bool.and_eq_true, bne_iff_ne, not_and, not_not] at hstop
        constructor
        · intro h
          exact ⟨hstop, h⟩
        · intro h
          exact h.2

/-- What the warm-up of a detected device does. -/
theorem massStorWarmup_cases
    {s : State} (w : Warmup)
    (hdetected : s.dev.detected = true) :
    (w.Succeeds ∧
      massStorWarmup w s =
        (0,
          { s with
            dev :=
              { s.dev with sectorSize := w.blockLength, maxLBA := w.lastLba }
            sectorBuffer := if 2048 < w.blockLength then w.allocated else 0 })) ∨
    (¬ w.Succeeds ∧ massStorWarmup w s = (-1, s)) := by
  unfold massStorWarmup Warmup.Succeeds
  rw [← unitReady_iff]
  simp only [hdetected, Bool.not_true, Bool.false_eq_true, if_false]
  by_cases hinquiry : w.inquiry < 0
  · right
    rw [if_pos hinquiry]
    exact ⟨fun h => absurd h.1 (not_le.mpr hinquiry), rfl⟩
  · rw [if_neg hinquiry]
    cases hready : unitReady w.notReady with
    | false =>
        right
        exact ⟨fun h => absurd h.2.1 (by simp), rfl⟩
    | true =>
        by_cases hcapacity : w.readCapacity = 0
        · left
          refine ⟨⟨not_lt.mp hinquiry, rfl, hcapacity⟩, ?_⟩
          simp [hcapacity]
        · right
          refine ⟨fun h => absurd h.2.2 hcapacity, ?_⟩
          simp [hcapacity]

/-- Setting `DEVICE_CONFIGURED` leaves `DEVICE_DETECTED`. -/
theorem setConfigured_detected (s : State) :
    s.setConfigured.dev.detected = s.dev.detected := by
  simp [State.setConfigured, MassDev.detected, deviceDetected, deviceConfigured]

/-- What `mass_stor_configureDevice` does. -/
theorem massStorConfigureDevice_cases (w : Warmup) (s : State) :
    (s.Waiting ∧ w.Succeeds ∧
      massStorConfigureDevice w s =
        (1,
          { s.setConfigured with
            dev :=
              { s.setConfigured.dev with
                sectorSize := w.blockLength
                maxLBA := w.lastLba }
            sectorBuffer := if 2048 < w.blockLength then w.allocated else 0 })) ∨
    (s.Waiting ∧ ¬ w.Succeeds ∧
      massStorConfigureDevice w s = (-1, massStorRelease s.setConfigured)) ∨
    (¬ s.Waiting ∧ massStorConfigureDevice w s = (0, s)) := by
  by_cases hwaiting : s.Waiting
  · have hdetected : s.setConfigured.dev.detected = true := by
      rw [setConfigured_detected]
      exact hwaiting.2.1
    rcases massStorWarmup_cases w hdetected with
      ⟨hsucceeds, heq⟩ | ⟨hfails, heq⟩
    · left
      refine ⟨hwaiting, hsucceeds, ?_⟩
      rw [massStorConfigureDevice, if_pos hwaiting, heq]
      rfl
    · right
      left
      refine ⟨hwaiting, hfails, ?_⟩
      rw [massStorConfigureDevice, if_pos hwaiting, heq]
      rfl
  · right
    right
    refine ⟨hwaiting, ?_⟩
    rw [massStorConfigureDevice, if_neg hwaiting]

/-- A property that a fold keeps and that one of the elements establishes. -/
theorem foldl_establishes
    {σ α : Type} {f : σ → α → σ} {P : σ → Prop}
    (hkeep : ∀ s a, P s → P (f s a)) :
    ∀ (l : List α) (s : σ),
      (P s ∨ ∃ a ∈ l, ∀ s', P (f s' a)) → P (l.foldl f s) := by
  intro l
  induction l with
  | nil =>
      intro s h
      rcases h with h | ⟨a, ha, -⟩
      · exact h
      · cases ha
  | cons b l ih =>
      intro s h
      refine ih (f s b) ?_
      rcases h with h | ⟨a, ha, hest⟩
      · exact Or.inl (hkeep s b h)
      · rcases List.mem_cons.mp ha with rfl | ha
        · exact Or.inl (hest s)
        · exact Or.inr ⟨a, ha, hest⟩

/-- An endpoint that is open stays open. -/
theorem usbBulkProbeEndpoint_keeps (dev : MassDev) (e : UsbEndpoint) :
    (0 ≤ dev.bulkEpO → 0 ≤ (usbBulkProbeEndpoint dev e).bulkEpO) ∧
    (0 ≤ dev.bulkEpI → 0 ≤ (usbBulkProbeEndpoint dev e).bulkEpI) := by
  unfold usbBulkProbeEndpoint
  constructor
  · intro hopen
    split_ifs with hbulk hout hin
    · exact absurd hout.2 (not_lt.mpr hopen)
    · exact hopen
    · exact hopen
    · exact hopen
  · intro hopen
    split_ifs with hbulk hout hin
    · exact hopen
    · exact absurd hin.2 (not_lt.mpr hopen)
    · exact hopen
    · exact hopen

/-- A bulk endpoint that opens is found. -/
theorem usbBulkProbeEndpoint_opens
    (dev : MassDev) {e : UsbEndpoint}
    (hbulk : e.bmAttributes = usbEndpointXferBulk)
    (hopened : 0 ≤ e.opened) :
    (e.bEndpointAddress &&& usbEndpointDirMask = usbDirOut →
      0 ≤ (usbBulkProbeEndpoint dev e).bulkEpO) ∧
    (e.bEndpointAddress &&& usbEndpointDirMask = usbDirIn →
      0 ≤ (usbBulkProbeEndpoint dev e).bulkEpI) := by
  have hdir : usbDirOut ≠ usbDirIn := by decide
  unfold usbBulkProbeEndpoint
  rw [if_pos hbulk]
  constructor
  · intro hout
    by_cases hfirst : dev.bulkEpO < 0
    · rw [if_pos ⟨hout, hfirst⟩]
      exact hopened
    · rw [if_neg (fun h => hfirst h.2), if_neg]
      · exact not_lt.mp hfirst
      · rw [hout]
        exact fun h => hdir h.1
  · intro hin
    have hnot : ¬ (e.bEndpointAddress &&& usbEndpointDirMask = usbDirOut ∧
        dev.bulkEpO < 0) := by
      rw [hin]
      exact fun h => hdir h.1.symm
    rw [if_neg hnot]
    by_cases hfirst : dev.bulkEpI < 0
    · rw [if_pos ⟨hin, hfirst⟩]
      exact hopened
    · rw [if_neg (fun h => hfirst h.2)]
      exact not_lt.mp hfirst

/-- Both endpoints of a device in order are found. -/
theorem Works.endpoints_open
    {device : Option UsbDeviceDescriptor} {c : Connection} {w : Warmup}
    (h : Works device c w) (dev : MassDev) :
    0 ≤ (c.endpoints.foldl usbBulkProbeEndpoint dev).bulkEpI ∧
      0 ≤ (c.endpoints.foldl usbBulkProbeEndpoint dev).bulkEpO := by
  constructor
  · obtain ⟨e, he, hbulk, hin⟩ := h.bulkIn
    refine foldl_establishes (P := fun d => 0 ≤ d.bulkEpI)
      (fun d a => (usbBulkProbeEndpoint_keeps d a).2) _ _ (Or.inr ⟨e, he, ?_⟩)
    intro d
    exact (usbBulkProbeEndpoint_opens d hbulk (h.opens e he)).2 hin
  · obtain ⟨e, he, hbulk, hout⟩ := h.bulkOut
    refine foldl_establishes (P := fun d => 0 ≤ d.bulkEpO)
      (fun d a => (usbBulkProbeEndpoint_keeps d a).1) _ _ (Or.inr ⟨e, he, ?_⟩)
    intro d
    exact (usbBulkProbeEndpoint_opens d hbulk (h.opens e he)).1 hout

end Inputs

section Recovery

/-- What a recorded device means: it is detected, and its semaphore exists. -/
def Inv (s : State) : Prop :=
  s.dev.devId ≠ -1 → s.dev.detected = true ∧ s.dev.ioSema ∈ s.semas

/-- The warm-up of a recorded device, where an event makes one, succeeds. -/
def WarmsUp (s : State) : Event → Prop
  | .configure w => s.Waiting → w.Succeeds
  | _ => True

instance instDecidableWarmsUp (s : State) : ∀ e, Decidable (WarmsUp s e)
  | .configure w => inferInstanceAs (Decidable (s.Waiting → w.Succeeds))
  | .probe _ _ => inferInstanceAs (Decidable True)
  | .connect _ _ => inferInstanceAs (Decidable True)
  | .disconnect _ => inferInstanceAs (Decidable True)

/-- No device is accepted: the probe and the connection of any other one fail, and
change nothing. -/
def RefusesAll (s : State) : Prop :=
  (∀ device, massStorProbe device s = 0) ∧
  ∀ devId c, massStorConnect devId c s = (1, s)

/-- The driver is ready for a device: nothing is recorded, and probe, connection
and configuration of a device in order succeed. -/
structure Ready (s : State) : Prop where
  devId : s.dev.devId = -1
  status : s.dev.status = 0
  accepts :
    ∀ devId device c w,
      devId ≠ -1 → Works device c w →
      massStorProbe device s = 1 ∧
      (massStorConnect devId c s).1 = 0 ∧
      (massStorConfigureDevice w (massStorConnect devId c s).2).1 = 1 ∧
      (massStorConfigureDevice w (massStorConnect devId c s).2).2.dev.devId =
        devId

theorem probe_of_works
    {s : State} {device : Option UsbDeviceDescriptor} {c : Connection} {w : Warmup}
    (hfree : s.dev.detected = false)
    (h : Works device c w) :
    massStorProbe device s = 1 := by
  obtain ⟨d, rfl, hconfigs, hconfig⟩ := h.device
  obtain ⟨hinterfaces, hlength⟩ := h.config
  have hno : ¬ (c.config.bNumInterfaces < 1 ∨
      c.config.wTotalLength < configAndInterfaceSize) := by
    omega
  simp only [massStorProbe, hfree, Bool.false_eq_true, if_false,
    if_neg (not_lt.mpr hconfigs), hconfig, if_neg hno, h.massStorage, if_true]

/-- The state after the connection of a device in order. -/
theorem connect_of_works
    {s : State} {device : Option UsbDeviceDescriptor} {c : Connection} {w : Warmup}
    (devId : Int)
    (hfree : s.dev.devId = -1)
    (h : Works device c w) :
    (massStorConnect devId c s).1 = 0 ∧
    (massStorConnect devId c s).2.dev.devId = devId ∧
    (massStorConnect devId c s).2.dev.status = deviceDetected := by
  obtain ⟨hin, hout⟩ := h.endpoints_open (s.dev.begin c)
  have hopen :
      ¬ ((c.endpoints.foldl usbBulkProbeEndpoint (s.dev.begin c)).bulkEpI < 0 ∨
        (c.endpoints.foldl usbBulkProbeEndpoint (s.dev.begin c)).bulkEpO < 0) := by
    omega
  unfold massStorConnect
  rw [if_neg (fun hne => hne hfree), if_neg hopen, if_neg (not_lt.mpr h.sema)]
  exact ⟨rfl, rfl, rfl⟩

/-- The configuration of a device that has just been connected. -/
theorem configure_of_succeeds
    {s : State} {w : Warmup}
    (hrecorded : s.dev.devId ≠ -1)
    (hstatus : s.dev.status = deviceDetected)
    (hw : w.Succeeds) :
    (massStorConfigureDevice w s).1 = 1 ∧
    (massStorConfigureDevice w s).2.dev.devId = s.dev.devId := by
  have hdetected : s.dev.detected = true := by
    simp [MassDev.detected, hstatus, deviceDetected]
  have hnew : s.dev.configured = false := by
    simp [MassDev.configured, hstatus, deviceDetected, deviceConfigured]
  rcases massStorConfigureDevice_cases w s with
    ⟨-, -, heq⟩ | ⟨-, hfails, -⟩ | ⟨hnot, -⟩
  · rw [heq]
    exact ⟨rfl, rfl⟩
  · exact absurd hw hfails
  · exact absurd ⟨hrecorded, hdetected, hnew⟩ hnot

theorem ready_of_free
    {s : State}
    (hdev : s.dev.devId = -1)
    (hstatus : s.dev.status = 0) :
    Ready s := by
  refine ⟨hdev, hstatus, ?_⟩
  intro devId device c w hid h
  have hfree : s.dev.detected = false := by
    simp [MassDev.detected, hstatus]
  obtain ⟨hresult, hdevId, hdetected⟩ := connect_of_works devId hdev h
  have hrecorded : (massStorConnect devId c s).2.dev.devId ≠ -1 := by
    rw [hdevId]
    exact hid
  obtain ⟨hconfigured, hkept⟩ :=
    configure_of_succeeds hrecorded hdetected h.warmup
  exact ⟨probe_of_works hfree h, hresult, hconfigured, hkept.trans hdevId⟩

theorem inv_initial : Inv initial := by
  intro h
  exact absurd rfl h

/-- Looking at endpoints does not touch the id of the device. -/
theorem foldl_probeEndpoint_devId :
    ∀ (es : List UsbEndpoint) (dev : MassDev),
      (es.foldl usbBulkProbeEndpoint dev).devId = dev.devId := by
  intro es
  induction es with
  | nil =>
      intro _
      rfl
  | cons e es ih =>
      intro dev
      rw [List.foldl_cons, ih]
      unfold usbBulkProbeEndpoint
      dsimp only
      split_ifs
      · rfl
      · rfl
      · rfl
      · rfl

theorem inv_connect
    {s : State} (devId : Int) (c : Connection)
    (h : Inv s) :
    Inv (massStorConnect devId c s).2 := by
  by_cases hdev : s.dev.devId = -1
  · have hfold :
        (c.endpoints.foldl usbBulkProbeEndpoint (s.dev.begin c)).devId = -1 :=
      (foldl_probeEndpoint_devId _ _).trans hdev
    unfold massStorConnect
    rw [if_neg (fun hne => hne hdev)]
    dsimp only
    split_ifs
    · intro hrecorded
      exact absurd hfold hrecorded
    · intro hrecorded
      exact absurd hfold hrecorded
    · intro _
      exact ⟨by simp [MassDev.detected, deviceDetected], List.mem_cons_self⟩
  · unfold massStorConnect
    rw [if_pos hdev]
    exact h

theorem inv_configure
    {s : State} {w : Warmup}
    (h : Inv s)
    (hguard : WarmsUp s (.configure w)) :
    Inv (massStorConfigureDevice w s).2 := by
  rcases massStorConfigureDevice_cases w s with
    ⟨hwaiting, -, heq⟩ | ⟨hwaiting, hfails, -⟩ | ⟨-, heq⟩
  · rw [heq]
    intro _
    obtain ⟨hrecorded, hdetected, -⟩ := hwaiting
    exact ⟨(setConfigured_detected s).trans hdetected, (h hrecorded).2⟩
  · exact absurd (hguard hwaiting) hfails
  · rw [heq]
    exact h

theorem inv_disconnect
    {s : State} (devId : Int)
    (h : Inv s) :
    Inv (massStorDisconnect devId s).2 := by
  unfold massStorDisconnect
  split_ifs
  · intro hrecorded
    exact absurd rfl hrecorded
  · exact h

theorem inv_step
    {s t : State} {e : Event}
    (h : Inv s)
    (hguard : WarmsUp s e)
    (ht : step s e = some t) :
    Inv t := by
  cases e with
  | probe devId device =>
      simp only [step, Option.some.injEq] at ht
      subst ht
      exact h
  | connect devId c =>
      simp only [step] at ht
      split_ifs at ht
      cases ht
      exact inv_connect devId c h
  | configure w =>
      simp only [step, Option.some.injEq] at ht
      subst ht
      exact inv_configure h hguard
  | disconnect devId =>
      simp only [step, Option.some.injEq] at ht
      subst ht
      exact inv_disconnect devId h

/-- **The driver recovers after an unplug.**  In every run in which the warm-up of
a recorded device never fails: while a device is recorded every other one is
refused, and the disconnection of the recorded one leaves the driver ready, with
its semaphore deleted. -/
theorem massStor_recovers
    {s : State}
    (hs : GuardedReach step WarmsUp initial s)
    (hrecorded : s.dev.devId ≠ -1) :
    RefusesAll s ∧
    Ready (massStorDisconnect s.dev.devId s).2 ∧
    s.dev.ioSema ∈ s.semas ∧
    s.dev.ioSema ∉ (massStorDisconnect s.dev.devId s).2.semas := by
  have hinv : Inv s :=
    hs.invariant inv_initial (fun _ _ _ h hguard ht => inv_step h hguard ht)
  obtain ⟨hdetected, hsema⟩ := hinv hrecorded
  have hdisconnect :
      massStorDisconnect s.dev.devId s =
        (0,
          { massStorRelease s with
            dev := { (massStorRelease s).dev with devId := -1 }
            semas := s.semas.filter (fun sema => sema != s.dev.ioSema) }) := by
    unfold massStorDisconnect
    rw [hdetected, beq_self_eq_true, Bool.and_self, if_pos rfl]
  refine ⟨⟨?_, ?_⟩, ?_, hsema, ?_⟩
  · intro device
    simp [massStorProbe, hdetected]
  · intro devId c
    simp [massStorConnect, hrecorded]
  · rw [hdisconnect]
    exact ready_of_free rfl rfl
  · rw [hdisconnect]
    simp

/-- A flash drive with one bulk endpoint in each direction. -/
def flashDrive : UsbDeviceDescriptor where
  bNumConfigurations := 1
  config := some ⟨32, 1, 1, ⟨0, 0, 2, 8, 6, 0x50⟩⟩

/-- Its connection; usbd numbers the endpoints from 1 on. -/
def flashConnection (sema : Int) : Connection where
  controlEp := 1
  config := ⟨32, 1, 1, ⟨0, 0, 2, 8, 6, 0x50⟩⟩
  endpoint := fun i =>
    if i = 0 then ⟨0x81, 2, 0, 2, 2⟩ else ⟨0x02, 2, 0, 2, 3⟩
  createSema := sema

/-- A warm-up in which the unit is ready at the second try. -/
def goodWarmup : Warmup := ⟨0, [⟨0x70, 0x06, 0x28, 0, 0⟩], 0, 512, 0xFFFFF, 0⟩

/-- A warm-up that ends at `INQUIRY`. -/
def badWarmup : Warmup := ⟨-5, [], 0, 0, 0, 0⟩

/-- A flash drive is plugged in and configured; the driver recovers from its
removal. -/
theorem massStor_recovers_flashDrive :
    ∃ s, runGuarded step WarmsUp initial
        [.probe 3 (some flashDrive), .connect 3 (flashConnection 40),
          .configure goodWarmup] = some s ∧
      s.dev.devId = 3 ∧
      s.dev.sectorSize = 512 ∧
      Ready (massStorDisconnect s.dev.devId s).2 := by
  have hrun :
      (runGuarded step WarmsUp initial
        [.probe 3 (some flashDrive), .connect 3 (flashConnection 40),
          .configure goodWarmup]).map
            (fun s => (s.dev.devId, s.dev.sectorSize)) = some (3, 512) := by
    decide +kernel
  obtain ⟨s, hs, hshown⟩ := Option.map_eq_some_iff.mp hrun
  have hdevId : s.dev.devId = 3 := congrArg Prod.fst hshown
  have hsize : s.dev.sectorSize = 512 := congrArg Prod.snd hshown
  refine ⟨s, hs, hdevId, hsize, ?_⟩
  exact (massStor_recovers (guardedReach_of_runGuarded _ hs)
    (by rw [hdevId]; decide)).2.1

/-- The warm-up of the flash drive fails.  After its removal it is still recorded,
its semaphore still exists, and the connection of a device in order is refused. -/
theorem massStor_lost_flashDrive :
    ¬ ∀ s, Reach step initial s →
      s.dev.devId ≠ -1 →
      Ready (massStorDisconnect s.dev.devId s).2 := by
  intro hclaim
  have hrun :
      (runActs step initial
        [.probe 3 (some flashDrive), .connect 3 (flashConnection 40),
          .configure badWarmup]).map
            (fun s => (s.dev.devId,
              (massStorDisconnect s.dev.devId s).2.dev.devId)) =
        some (3, 3) := by
    decide +kernel
  obtain ⟨s, hs, hshown⟩ := Option.map_eq_some_iff.mp hrun
  have hdevId : s.dev.devId = 3 := congrArg Prod.fst hshown
  have hstill : (massStorDisconnect s.dev.devId s).2.dev.devId = 3 :=
    congrArg Prod.snd hshown
  have hready := hclaim s (guardedReach_of_runGuarded _ hs)
    (by rw [hdevId]; decide)
  have hfree := hready.devId
  rw [hstill] at hfree
  exact absurd hfree (by decide)

end Recovery

section Lost

/-- A device is recorded that is not detected any more. -/
def Lost (devId : Int) (s : State) : Prop :=
  devId ≠ -1 ∧ s.dev.devId = devId ∧ s.dev.detected = false

/-- A failed warm-up of a recorded device loses it. -/
theorem lost_of_failedWarmup
    {s t : State} {e : Event}
    (hguard : ¬ WarmsUp s e)
    (ht : step s e = some t) :
    Lost s.dev.devId t := by
  cases e with
  | configure w =>
      simp only [WarmsUp, Classical.not_imp] at hguard
      obtain ⟨hwaiting, hfails⟩ := hguard
      simp only [step, Option.some.injEq] at ht
      subst ht
      rcases massStorConfigureDevice_cases w s with
        ⟨-, hsucceeds, -⟩ | ⟨-, -, heq⟩ | ⟨hnot, -⟩
      · exact absurd hsucceeds hfails
      · rw [heq]
        exact ⟨hwaiting.1, rfl, by simp [massStorRelease, MassDev.detected]⟩
      · exact absurd hwaiting hnot
  | probe devId device => exact absurd trivial hguard
  | connect devId c => exact absurd trivial hguard
  | disconnect devId => exact absurd trivial hguard

/-- **The condition is exact.**  After a failed warm-up no sequence of events
changes the record: the driver stays at the lost device, and never connects
another one. -/
theorem massStor_lost
    {s t u : State} {e : Event}
    (hguard : ¬ WarmsUp s e)
    (ht : step s e = some t)
    (hu : Reach step t u) :
    u = t ∧ ∀ devId c, massStorConnect devId c u = (1, u) := by
  obtain ⟨hrecorded, hdevId, hundetected⟩ := lost_of_failedWarmup hguard ht
  have hne : t.dev.devId ≠ -1 := by
    rw [hdevId]
    exact hrecorded
  have hsame : u = t := by
    refine hu.invariant (I := fun v => v = t) rfl ?_
    rintro v a v' rfl - hv
    cases a with
    | probe d device =>
        simp only [step, Option.some.injEq] at hv
        exact hv.symm
    | connect d c =>
        simp only [step] at hv
        split_ifs at hv
        simp only [massStorConnect, ne_eq, hne, not_false_eq_true, if_true,
          Option.some.injEq] at hv
        exact hv.symm
    | configure w =>
        have hnot : ¬ v.Waiting := by
          rintro ⟨-, hdetected, -⟩
          rw [hundetected] at hdetected
          cases hdetected
        simp only [step, massStorConfigureDevice, if_neg hnot,
          Option.some.injEq] at hv
        exact hv.symm
    | disconnect d =>
        simp only [step, massStorDisconnect, hundetected, Bool.false_and,
          Bool.false_eq_true, if_false, Option.some.injEq] at hv
        exact hv.symm
  subst hsame
  refine ⟨rfl, ?_⟩
  intro devId c
  simp [massStorConnect, hne]

end Lost

end UsbPlug
end Ps2Cdvd
