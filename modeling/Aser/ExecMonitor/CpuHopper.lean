import Aser.Library.OrderedMap
import Aser.Util.LibcWrapper

namespace Aser

open Library

/-- The state of a `cpu_hopper`; CPUs are numbers. `bindCalls` and `cerr` record its effects on the
outside: the calls of `util::bind_process`, oldest first, and the lines written to `std::cerr`. -/
structure CpuHopper where
  cpuMapping : OrderedMap Pid Nat
  allocatedCpus : List Bool
  bindCalls : List (Pid × Nat)
  cerr : List String

namespace CpuHopper

/-- `hardwareConcurrency` may be `0`, which is how the library says that it is not known. -/
def init (hardwareConcurrency : Nat) : CpuHopper where
  cpuMapping := .empty
  allocatedCpus := List.replicate hardwareConcurrency false
  bindCalls := []
  cerr := []

def findAvailableCpu (h : CpuHopper) : Except Exception Nat :=
  match h.allocatedCpus.findIdx? (· == false) with
  | some cpu => .ok cpu
  | none => .error (.runtimeError "No available CPUs")

section
-- What the `n`-th call of `util::bind_process` throws, if it throws.
variable (osBind : Nat → Option String)

/-- The exception of `util::bind_process` is caught and reported; the process counts as bound. -/
def bindProcess (h : CpuHopper) (pid : Pid) (cpu : Nat) : CpuHopper where
  cpuMapping := h.cpuMapping.insert pid cpu
  allocatedCpus := h.allocatedCpus.set cpu true
  bindCalls := h.bindCalls ++ [(pid, cpu)]
  cerr := match osBind h.bindCalls.length with
    | some what => h.cerr ++ ["Error binding process: " ++ what ++ "\n"]
    | none => h.cerr

/-- Members below return what was thrown together with the state left behind: an exception does
not undo the changes made before it. -/
def addProcess (h : CpuHopper) (pid : Pid) : Except Exception Unit × CpuHopper :=
  match h.findAvailableCpu with
  | .error e => (.error e, h)
  | .ok cpu =>
    let h := h.bindProcess osBind pid cpu
    if h.cpuMapping.size = h.allocatedCpus.length then
      (.error (.runtimeError "Too many processes"), h)
    else (.ok (), h)

def hopProcess (h : CpuHopper) (pid : Pid) (cpu : Nat) : Except Exception Unit × CpuHopper :=
  match h.findAvailableCpu with
  | .error e => (.error e, h)
  | .ok newCpu =>
    let h := h.bindProcess osBind pid newCpu
    (.ok (), { h with allocatedCpus := h.allocatedCpus.set cpu false })

/-- The loop of `hop_processes` from the map entry of the first of `pids` on. A hop overwrites
values but adds no key, so the traversal visits the keys there were at the start, and reads each
value when it gets there. -/
def hopFrom (h : CpuHopper) : List Pid → Except Exception Unit × CpuHopper
  | [] => (.ok (), h)
  | pid :: rest =>
    match h.cpuMapping.find? pid with
    | none => hopFrom h rest
    | some cpu =>
      match h.hopProcess osBind pid cpu with
      | (.error e, h) => (.error e, h)
      | (.ok (), h) => hopFrom h rest

def hopProcesses (h : CpuHopper) : Except Exception Unit × CpuHopper :=
  h.hopFrom osBind h.cpuMapping.keys

end

end CpuHopper

/-- The states a `cpu_hopper` on `n` CPUs reaches from construction by calls of `add_process` that
return, for the listed processes, and by rounds of `hop_processes`, whatever they throw. -/
inductive HopperReach (n : Nat) (osBind : Nat → Option String) : List Pid → CpuHopper → Prop
  | start : HopperReach n osBind [] (CpuHopper.init n)
  | add {pids h h' pid} : HopperReach n osBind pids h → h.addProcess osBind pid = (.ok (), h') →
      HopperReach n osBind (pids ++ [pid]) h'
  | hop {pids h} : HopperReach n osBind pids h →
      HopperReach n osBind pids (h.hopProcesses osBind).2

end Aser
