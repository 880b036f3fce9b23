import Mathlib.Tactic

/-!
# The hooks on MODLOAD

The loader replaces some modules by its own code.  `Hook_LoadStartModule` and
`Hook_LoadModuleBuffer` answer a load of one of them with `FAKEMOD_ID`, and
`Hook_StartModule` answers the start.  The load and the start are linked by one
flag, `fakemod_flag`: `checkFakemod` sets it, `isFakemod` reads and clears it.
`Hook_StartModule` does not look at the module id it is given.

The functions behind the hooks are parameters, which change a world `W`.

* `hooks_flag`: the flag is set exactly while a faked load is pending;
* `fakesOnlyFaked_iff`: for every list of calls, the hooks fake what they should
  if and only if every start meets the condition `StartsPaired`.
-/

namespace Ps2Cdvd
namespace Modload

universe u

section Source

/-- The bytes of a string, without the terminating 0. -/
abbrev CString := List UInt8

/-- The bytes of a string literal. -/
def cstring (s : String) : CString :=
  s.toList.map (fun c => UInt8.ofNat c.toNat)

def fakemodId : Int := 0xdead

/-- The macros that decide which modules are replaced. -/
structure Build where
  usbDriver : Bool
  smbDriver : Bool
  hddDriver : Bool
  hdpro : Bool
  iopcoreDebug : Bool

/-- `lm_modulefake_list`, without its terminating `NULL`. -/
def lmModulefakeList (b : Build) : List CString :=
  (if b.usbDriver then [cstring "USBD.IRX", cstring "CDVDSTM.IRX"] else []) ++
  (if b.smbDriver then
    [cstring "DEV9.IRX", cstring "SMAP.IRX", cstring "CDVDSTM.IRX"] else []) ++
  (if b.hddDriver then
    [cstring "ATAD.IRX"] ++
    (if b.hdpro && !b.iopcoreDebug then [] else [cstring "DEV9.IRX"]) ++
    [cstring "CDVDSTM.IRX"] else [])

/-- `lmb_modulefake_list`, without its terminating `NULL`. -/
def lmbModulefakeList (b : Build) : List CString :=
  (if b.usbDriver then [cstring "USB_driver", cstring "cdvd_st_driver"] else []) ++
  (if b.smbDriver then
    [cstring "dev9", cstring "INET_SMAP_driver", cstring "cdvd_st_driver"]
    else []) ++
  (if b.hddDriver then
    [cstring "atad_driver"] ++
    (if b.hdpro && !b.iopcoreDebug then [] else [cstring "dev9"]) ++
    [cstring "cdvd_st_driver"] else [])

/-- `strstr`, as a test. -/
def strstr : CString → CString → Bool
  | [], needle => needle.isPrefixOf []
  | c :: cs, needle => needle.isPrefixOf (c :: cs) || strstr cs needle

/-- The functions that the hooks replace.  `args` holds `arg_len` bytes, `modres`
is an address. -/
structure RealModload (W : Type u) where
  loadStartModule : CString → List UInt8 → Nat → W → Int × W
  startModule : Int → CString → List UInt8 → Nat → W → Int × W
  loadModuleBuffer : List UInt8 → W → Int × W

/-- `fakemod_flag`, and everything the functions behind the hooks change. -/
structure State (W : Type u) where
  fakemodFlag : Bool
  world : W

/-- What a hook returns, and whether it has called the function behind it. -/
structure Outcome where
  result : Int
  called : Bool
deriving DecidableEq

/-- `checkFakemod`: the result and `fakemod_flag` afterwards. -/
def checkFakemod (modname : CString) : List CString → Bool → Bool × Bool
  | [], flag => (false, flag)
  | name :: names, flag =>
      if strstr modname name then (true, true)
      else checkFakemod modname names flag

/-- `isFakemod`: the result and `fakemod_flag` afterwards. -/
def isFakemod (flag : Bool) : Bool × Bool :=
  if flag then (true, false) else (false, flag)

variable {W : Type u}

def hookLoadStartModule (b : Build) (m : RealModload W)
    (modpath : CString) (args : List UInt8) (modres : Nat) (s : State W) :
    Outcome × State W :=
  let checked := checkFakemod modpath (lmModulefakeList b) s.fakemodFlag
  let is := isFakemod checked.2
  if is.1 then
    (⟨fakemodId, false⟩, { s with fakemodFlag := is.2 })
  else
    let real := m.loadStartModule modpath args modres s.world
    (⟨real.1, true⟩, ⟨is.2, real.2⟩)

def hookStartModule (m : RealModload W)
    (id : Int) (modname : CString) (args : List UInt8) (modres : Nat)
    (s : State W) :
    Outcome × State W :=
  let is := isFakemod s.fakemodFlag
  if is.1 then
    (⟨fakemodId, false⟩, { s with fakemodFlag := is.2 })
  else
    let real := m.startModule id modname args modres s.world
    (⟨real.1, true⟩, ⟨is.2, real.2⟩)

/-- `(char *)(ptr + 0x8e)`: the name in the header of a module. -/
def bufferName (ptr : List UInt8) : CString :=
  (ptr.drop 0x8e).takeWhile (fun c => c != 0)

def hookLoadModuleBuffer (b : Build) (m : RealModload W)
    (ptr : List UInt8) (s : State W) :
    Outcome × State W :=
  let checked :=
    checkFakemod (bufferName ptr) (lmbModulefakeList b) s.fakemodFlag
  if checked.1 then
    (⟨fakemodId, false⟩, { s with fakemodFlag := checked.2 })
  else
    let real := m.loadModuleBuffer ptr s.world
    (⟨real.1, true⟩, ⟨checked.2, real.2⟩)

/-- A call of one of the hooks. -/
inductive Call
  | loadStartModule (modpath : CString) (args : List UInt8) (modres : Nat)
  | startModule (id : Int) (modname : CString) (args : List UInt8) (modres : Nat)
  | loadModuleBuffer (ptr : List UInt8)
deriving DecidableEq

def hook (b : Build) (m : RealModload W) (s : State W) : Call → Outcome × State W
  | .loadStartModule modpath args modres =>
      hookLoadStartModule b m modpath args modres s
  | .startModule id modname args modres =>
      hookStartModule m id modname args modres s
  | .loadModuleBuffer ptr =>
      hookLoadModuleBuffer b m ptr s

/-- The state after some calls, one after the other. -/
def after (b : Build) (m : RealModload W) : List Call → State W → State W
  | [], s => s
  | c :: cs, s => after b m cs (hook b m s c).2

/-- `fakemod_flag` is 0 when the hooks are installed. -/
def initial (w : W) : State W := ⟨false, w⟩

end Source

section Names

/-- The string contains a name of the list. -/
def Contains (modname : CString) (names : List CString) : Prop :=
  ∃ name ∈ names, name <:+: modname

theorem strstr_eq_true_iff (needle : CString) :
    ∀ hay : CString, strstr hay needle = true ↔ needle <:+: hay := by
  intro hay
  induction hay with
  | nil =>
      rw [strstr, List.isPrefixOf_iff_prefix, List.prefix_nil, List.infix_nil]
  | cons c cs ih =>
      rw [strstr, Bool.or_eq_true, List.isPrefixOf_iff_prefix,
        ih, List.infix_cons_iff]

/-- `checkFakemod` sets the flag for a name of the list and leaves it alone
otherwise. -/
theorem checkFakemod_cases (modname : CString) (flag : Bool) :
    ∀ names : List CString,
      (Contains modname names ∧
        checkFakemod modname names flag = (true, true)) ∨
      (¬ Contains modname names ∧
        checkFakemod modname names flag = (false, flag)) := by
  intro names
  induction names with
  | nil =>
      right
      refine ⟨?_, rfl⟩
      rintro ⟨name, hname, -⟩
      cases hname
  | cons name names ih =>
      by_cases hstr : strstr modname name = true
      · left
        refine ⟨⟨name, List.mem_cons_self, ?_⟩, ?_⟩
        · exact (strstr_eq_true_iff name modname).mp hstr
        · rw [checkFakemod, if_pos hstr]
      · have hnot : ¬ name <:+: modname := by
          rw [← strstr_eq_true_iff]
          exact hstr
        rw [checkFakemod, if_neg hstr]
        rcases ih with
          ⟨⟨found, hmem, hin⟩, heq⟩ | ⟨hnone, heq⟩
        · exact Or.inl ⟨⟨found, List.mem_cons_of_mem name hmem, hin⟩, heq⟩
        · right
          refine ⟨?_, heq⟩
          rintro ⟨found, hmem, hin⟩
          rcases List.mem_cons.mp hmem with rfl | hmem
          · exact hnot hin
          · exact hnone ⟨found, hmem, hin⟩

end Names

section Histories

variable {W : Type u} {b : Build} {m : RealModload W}

/-- A call of `LoadModuleBuffer` for a module that is replaced. -/
def FakedLoad (b : Build) (c : Call) : Prop :=
  ∃ ptr, c = .loadModuleBuffer ptr ∧
    Contains (bufferName ptr) (lmbModulefakeList b)

/-- A call that starts a module. -/
def Starts : Call → Prop
  | .loadStartModule _ _ _ => True
  | .startModule _ _ _ _ => True
  | .loadModuleBuffer _ => False

/-- After these calls a faked load is pending: no module has been started
since. -/
def Pending (b : Build) (calls : List Call) : Prop :=
  ∃ pre c post,
    calls = pre ++ c :: post ∧ FakedLoad b c ∧ ∀ d ∈ post, ¬ Starts d

/-- The hook has answered with `FAKEMOD_ID` and not called what is behind it. -/
def Fakes (o : Outcome) : Prop :=
  o.result = fakemodId ∧ o.called = false

/-- **Only faked modules are faked**, by the call `c` after the calls `pre`. -/
def FakesOnlyFaked (b : Build) (pre : List Call) (o : Outcome) : Call → Prop
  | .loadStartModule modpath _ _ =>
      Fakes o ↔ Contains modpath (lmModulefakeList b)
  | .startModule id _ _ _ =>
      Fakes o ↔ id = fakemodId ∧ ∃ c ∈ pre, FakedLoad b c
  | .loadModuleBuffer ptr =>
      Fakes o ↔ Contains (bufferName ptr) (lmbModulefakeList b)

/-- The condition on a start after the calls `pre`: while a faked load is pending,
only that module, or a path that is faked anyway, is started; and a module that was
faked is started only while a faked load is pending. -/
def StartPaired (b : Build) (pre : List Call) : Call → Prop
  | .loadStartModule modpath _ _ =>
      Pending b pre → Contains modpath (lmModulefakeList b)
  | .startModule id _ _ _ =>
      Pending b pre ↔ id = fakemodId ∧ ∃ c ∈ pre, FakedLoad b c
  | .loadModuleBuffer _ => True

/-- Every start of a list of calls meets the condition. -/
def StartsPaired (b : Build) (calls : List Call) : Prop :=
  ∀ pre c post, calls = pre ++ c :: post → StartPaired b pre c

theorem not_pending_nil : ¬ Pending b [] := by
  rintro ⟨pre, c, post, hcalls, -, -⟩
  cases pre with
  | nil => cases hcalls
  | cons d ds => cases hcalls

/-- What the last call does to a pending load. -/
theorem pending_append_singleton
    {calls : List Call} {c : Call} :
    Pending b (calls ++ [c]) ↔
      FakedLoad b c ∨ (Pending b calls ∧ ¬ Starts c) := by
  constructor
  · rintro ⟨pre, load, post, hcalls, hload, hpost⟩
    rcases List.eq_nil_or_concat post with rfl | ⟨rest, last, rfl⟩
    · obtain ⟨-, hlast⟩ := List.append_inj' hcalls rfl
      cases hlast
      exact Or.inl hload
    · rw [List.concat_eq_append] at hcalls hpost
      have hsplit : calls ++ [c] = (pre ++ load :: rest) ++ [last] := by
        rw [hcalls]
        simp
      obtain ⟨hpre, hlast⟩ := List.append_inj' hsplit rfl
      cases hlast
      right
      refine ⟨⟨pre, load, rest, hpre, hload, ?_⟩, ?_⟩
      · intro d hd
        exact hpost d (List.mem_append_left _ hd)
      · exact hpost c (List.mem_append_right _ List.mem_cons_self)
  · rintro (hload | ⟨⟨pre, load, post, rfl, hload, hpost⟩, hlast⟩)
    · refine ⟨calls, c, [], rfl, hload, ?_⟩
      intro d hd
      cases hd
    · refine ⟨pre, load, post ++ [c], by simp, hload, ?_⟩
      intro d hd
      rcases List.mem_append.mp hd with hd | hd
      · exact hpost d hd
      · rw [List.mem_singleton.mp hd]
        exact hlast

theorem after_append
    (calls more : List Call) (s : State W) :
    after b m (calls ++ more) s = after b m more (after b m calls s) := by
  induction calls generalizing s with
  | nil => rfl
  | cons c cs ih => exact ih _

/-- `Hook_LoadStartModule` clears the flag, and fakes a path of the list or
whatever comes while the flag is set. -/
theorem hookLoadStartModule_spec
    (modpath : CString) (args : List UInt8) (modres : Nat) (s : State W) :
    (Fakes (hookLoadStartModule b m modpath args modres s).1 ↔
      s.fakemodFlag = true ∨ Contains modpath (lmModulefakeList b)) ∧
    (hookLoadStartModule b m modpath args modres s).2.fakemodFlag = false := by
  rcases checkFakemod_cases modpath s.fakemodFlag (lmModulefakeList b) with
    ⟨hin, heq⟩ | ⟨hnot, heq⟩
  · simp [hookLoadStartModule, heq, isFakemod, Fakes, hin]
  · cases hflag : s.fakemodFlag with
    | true =>
        rw [hflag] at heq
        simp [hookLoadStartModule, hflag, heq, isFakemod, Fakes]
    | false =>
        rw [hflag] at heq
        simp [hookLoadStartModule, hflag, heq, isFakemod, Fakes, hnot]

/-- `Hook_StartModule` clears the flag, and fakes while it is set. -/
theorem hookStartModule_spec
    (id : Int) (modname : CString) (args : List UInt8) (modres : Nat)
    (s : State W) :
    (Fakes (hookStartModule m id modname args modres s).1 ↔
      s.fakemodFlag = true) ∧
    (hookStartModule m id modname args modres s).2.fakemodFlag = false := by
  cases hflag : s.fakemodFlag with
  | true => simp [hookStartModule, hflag, isFakemod, Fakes]
  | false => simp [hookStartModule, hflag, isFakemod, Fakes]

/-- `Hook_LoadModuleBuffer` sets the flag when it fakes, and leaves it alone
otherwise. -/
theorem hookLoadModuleBuffer_spec
    (ptr : List UInt8) (s : State W) :
    (Fakes (hookLoadModuleBuffer b m ptr s).1 ↔
      Contains (bufferName ptr) (lmbModulefakeList b)) ∧
    ((hookLoadModuleBuffer b m ptr s).2.fakemodFlag = true ↔
      Contains (bufferName ptr) (lmbModulefakeList b) ∨
        s.fakemodFlag = true) := by
  rcases checkFakemod_cases (bufferName ptr) s.fakemodFlag
    (lmbModulefakeList b) with ⟨hin, heq⟩ | ⟨hnot, heq⟩
  · simp [hookLoadModuleBuffer, heq, Fakes, hin]
  · simp [hookLoadModuleBuffer, heq, Fakes, hnot]

/-- The flag after a call. -/
theorem hook_flag (s : State W) (c : Call) :
    (hook b m s c).2.fakemodFlag = true ↔
      FakedLoad b c ∨ (s.fakemodFlag = true ∧ ¬ Starts c) := by
  cases c with
  | loadStartModule modpath args modres =>
      have hclear := (hookLoadStartModule_spec (b := b) (m := m)
        modpath args modres s).2
      simp [hook, hclear, FakedLoad, Starts]
  | startModule id modname args modres =>
      have hclear := (hookStartModule_spec (m := m) id modname args modres s).2
      simp [hook, hclear, FakedLoad, Starts]
  | loadModuleBuffer ptr =>
      have hset := (hookLoadModuleBuffer_spec (b := b) (m := m) ptr s).2
      simp [hook, hset, FakedLoad, Starts]

/-- The flag is set exactly while a faked load is pending. -/
theorem hooks_flag (w : W) (calls : List Call) :
    (after b m calls (initial w)).fakemodFlag = true ↔ Pending b calls := by
  induction calls using List.reverseRecOn with
  | nil =>
      constructor
      · intro hflag
        cases hflag
      · intro hpending
        exact absurd hpending not_pending_nil
  | append_singleton calls c ih =>
      rw [after_append, pending_append_singleton, ← ih]
      exact hook_flag (after b m calls (initial w)) c

/-- One call fakes what it should exactly when it meets the condition. -/
theorem fakesOnlyFaked_hook_iff (w : W) (pre : List Call) (c : Call) :
    FakesOnlyFaked b pre (hook b m (after b m pre (initial w)) c).1 c ↔
      StartPaired b pre c := by
  have hflag := hooks_flag (b := b) (m := m) w pre
  cases c with
  | loadStartModule modpath args modres =>
      have hfakes := (hookLoadStartModule_spec (b := b) (m := m)
        modpath args modres (after b m pre (initial w))).1
      rw [hflag] at hfakes
      simp only [FakesOnlyFaked, StartPaired, hook, hfakes]
      constructor
      · intro hiff hpending
        exact hiff.mp (Or.inl hpending)
      · intro honly
        refine ⟨?_, Or.inr⟩
        rintro (hpending | hin)
        · exact honly hpending
        · exact hin
  | startModule id modname args modres =>
      have hfakes := (hookStartModule_spec (m := m) id modname args modres
        (after b m pre (initial w))).1
      rw [hflag] at hfakes
      simp only [FakesOnlyFaked, StartPaired, hook, hfakes]
  | loadModuleBuffer ptr =>
      have hfakes := (hookLoadModuleBuffer_spec (b := b) (m := m) ptr
        (after b m pre (initial w))).1
      simp only [FakesOnlyFaked, StartPaired, hook, hfakes]

/-- **When only faked modules are faked.**  For every list of calls: every call
fakes exactly what it should if and only if every start meets `StartPaired`. -/
theorem fakesOnlyFaked_iff
    (b : Build) (m : RealModload W) (w : W) (calls : List Call) :
    (∀ pre c post, calls = pre ++ c :: post →
      FakesOnlyFaked b pre (hook b m (after b m pre (initial w)) c).1 c) ↔
      StartsPaired b calls := by
  constructor
  · intro hall pre c post hcalls
    exact (fakesOnlyFaked_hook_iff w pre c).mp (hall pre c post hcalls)
  · intro hpaired pre c post hcalls
    exact (fakesOnlyFaked_hook_iff w pre c).mpr (hpaired pre c post hcalls)

/-- A build for games on USB. -/
def usbBuild : Build := ⟨true, false, false, false, false⟩

/-- A module in memory, by its name. -/
def moduleNamed (name : String) : List UInt8 :=
  List.replicate 0x8e 0 ++ cstring name ++ [0]

/-- A MODLOAD that loads and starts everything, with ids from 1 on. -/
def countingModload : RealModload Nat where
  loadStartModule := fun _ _ _ n => (n + 1, n + 1)
  startModule := fun id _ _ _ n => (id, n)
  loadModuleBuffer := fun _ n => (n + 1, n + 1)

/-- The USB driver is loaded from a buffer and never started.  The module that the
game starts next, by the id 5 of its own, is taken for it. -/
def loadThenStartOther : List Call :=
  [.loadModuleBuffer (moduleNamed "USB_driver"),
   .startModule 5 (cstring "game_driver") [] 0]

/-- The hooks fake the start of a module that no hook has faked. -/
theorem fakesOnlyFaked_loadThenStartOther :
    ¬ ∀ (calls : List Call) (pre : List Call) (c : Call) (post : List Call),
      calls = pre ++ c :: post →
      FakesOnlyFaked usbBuild pre
        (hook usbBuild countingModload
          (after usbBuild countingModload pre (initial 0)) c).1 c := by
  intro hclaim
  have hstart :=
    hclaim loadThenStartOther [.loadModuleBuffer (moduleNamed "USB_driver")]
      (.startModule 5 (cstring "game_driver") [] 0) [] rfl
  have hfakes :
      (hook usbBuild countingModload
        (after usbBuild countingModload
          [.loadModuleBuffer (moduleNamed "USB_driver")] (initial 0))
        (.startModule 5 (cstring "game_driver") [] 0)).1 =
      ⟨fakemodId, false⟩ := by
    decide +kernel
  rw [hfakes] at hstart
  obtain ⟨hid, -⟩ := hstart.mp ⟨rfl, rfl⟩
  exact absurd hid (by decide)

end Histories

end Modload
end Ps2Cdvd
