import Aser.Util.LibcWrapper

namespace Aser.Perf

/-- `event_type`. -/
inductive EventType
  | hardware
  | raw
  deriving DecidableEq

/-- The bits of `event_modifiers`. -/
def excludeUser : UInt8 := 1
def excludeKernel : UInt8 := 2
def excludeHv : UInt8 := 4

structure EventInfo where
  type : EventType
  code : UInt64
  modifiers : UInt8
  deriving DecidableEq

/-- `event::count_type` and `event_linux_impl::count_type`. -/
structure Counts where
  rawValue : UInt64
  timeEnabled : UInt64
  timeRunning : UInt64
  deriving DecidableEq

/-- The members of `perf_event_attr` that `open` sets, its size apart. The flags are bit-fields one
bit wide. -/
structure PerfEventAttr where
  type : UInt32
  config : UInt64
  readFormat : UInt64
  excludeUser : BitVec 1
  excludeKernel : BitVec 1
  excludeHv : BitVec 1
  inherit : BitVec 1
  disabled : BitVec 1
  enableOnExec : BitVec 1
  deriving DecidableEq

/-- `event_linux_impl`: 0 stands for "not open". -/
structure EventLinuxImpl where
  fd : Int := 0
  deriving DecidableEq

namespace EventLinuxImpl

/-- What `open` fills in. `PERF_TYPE_HARDWARE` is 0 and `PERF_TYPE_RAW` is 4, and the read format is
`PERF_FORMAT_TOTAL_TIME_ENABLED | PERF_FORMAT_TOTAL_TIME_RUNNING`. -/
def attr (info : EventInfo) (attach : Bool) : PerfEventAttr where
  type := match info.type with
    | .hardware => 0
    | .raw => 4
  config := info.code
  readFormat := 1 ||| 2
  excludeUser := .ofNat 1 (info.modifiers &&& Perf.excludeUser).toNat
  excludeKernel := .ofNat 1 (info.modifiers &&& Perf.excludeKernel).toNat
  excludeHv := .ofNat 1 (info.modifiers &&& Perf.excludeHv).toNat
  inherit := 1
  disabled := .ofBool !attach
  enableOnExec := .ofBool !attach

/-- `perfEventOpen` answers with a descriptor or with `errno`. -/
def openFd (impl : EventLinuxImpl) (info : EventInfo) (pid : Pid) (attach : Bool)
    (perfEventOpen : PerfEventAttr → Pid → Except Int Int) : Except Exception Unit × EventLinuxImpl :=
  match perfEventOpen (attr info attach) pid with
  | .error errno => (libcError errno "Error opening the event", impl)
  | .ok fd => (.ok (), { impl with fd })

/-- `readFd` answers with the counters, or with `errno` for anything but three whole numbers. -/
def read (impl : EventLinuxImpl) (readFd : Int → Except Int Counts) : Except Exception Counts :=
  match readFd impl.fd with
  | .error errno => libcError errno "Error reading PMC event"
  | .ok counts => .ok counts

/-- The descriptor the destructor passes to `close`. -/
def destroy (impl : EventLinuxImpl) : Option Int := if impl.fd ≠ 0 then some impl.fd else none

end EventLinuxImpl

/-- `event<event_linux_impl>`; `count_` is not set before the first `read`. -/
structure Event where
  info : EventInfo
  impl : EventLinuxImpl := {}
  count : Option Counts := none
  prev : Counts := ⟨0, 0, 0⟩
  deriving DecidableEq

namespace Event

def validModifiers (modifiers : UInt8) : Bool :=
  modifiers ≤ (excludeUser ||| excludeKernel ||| excludeHv)

/-- `none` is the failing assertion. -/
def make (info : EventInfo) : Option Event := if validModifiers info.modifiers then some { info } else none

def openFd (e : Event) (pid : Pid) (attach : Bool)
    (perfEventOpen : PerfEventAttr → Pid → Except Int Int) : Except Exception Unit × Event :=
  let (result, impl) := e.impl.openFd e.info pid attach perfEventOpen
  (result, { e with impl })

def read (e : Event) (readFd : Int → Except Int Counts) : Except Exception Unit × Event :=
  match e.impl.read readFd with
  | .error thrown => (.error thrown, e)
  | .ok counts => (.ok (), { e with count := some counts })

/-- What the defaulted moves leave in the object moved from. `event_linux_impl` declares its
destructor, so it has no move operations and its members are copied. -/
def movedFrom (e : Event) : Event := e

@[simp] theorem read_impl (e : Event) (readFd : Int → Except Int Counts) : (e.read readFd).2.impl = e.impl := by
  unfold read
  split <;> rfl

theorem openFd_error {e : Event} {pid : Pid} {attach : Bool} (errno : Int) :
    (e.openFd pid attach fun _ _ => .error errno).2 = e := rfl

theorem make_closed {info : EventInfo} {e : Event} (made : make info = some e) : e.impl.fd = 0 := by
  unfold make at made
  split at made
  · cases Option.some.inj made
    rfl
  · simp at made

end Event

end Aser.Perf
