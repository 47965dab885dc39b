import Aser.Library.OrderedMap
import Aser.Util.Process

namespace Aser

open Library

/-- The kernel as one process sees it: its children that no `waitpid` has reaped yet, with their
status once they have ended, and the pids it sent `SIGKILL` to, oldest first. -/
structure ProcessTable where
  children : OrderedMap Pid (Option Int)
  signals : List Pid

namespace ProcessTable

def init : ProcessTable := ⟨.empty, []⟩

/-- The pids of the children not yet waited for. -/
def pids (k : ProcessTable) : List Pid := k.children.keys

/-- A pid is positive and not that of a child still to be reaped; any other may be used again. -/
def mayFork (k : ProcessTable) : ForkResult → Bool
  | .failed _ => true
  | .child pid => 0 < pid && !k.pids.contains pid

def fork (k : ProcessTable) (pid : Pid) : ProcessTable :=
  { k with children := k.children.insert pid none }

/-- `SIGKILL` ends a running child and has no effect on one that has ended. `fails` is the error of a
call that the kernel refuses, such as `EPERM`; the error for a pid that is nobody's child here is `ESRCH`. -/
def kill (k : ProcessTable) (fails : Option Int) (pid : Pid) : Except Exception Unit × ProcessTable :=
  match fails, k.children.find? pid with
  | some errno, _ => (libcError errno "Error killing a process", k)
  | none, none => (libcError 3 "Error killing a process", ⟨k.children, k.signals ++ [pid]⟩)
  | none, some none => (.ok (), ⟨k.children.insert pid (some sigkilled), k.signals ++ [pid]⟩)
  | none, some (some _) => (.ok (), ⟨k.children, k.signals ++ [pid]⟩)

/-- `none` while the call blocks. `fails` is the error of a call that reaps nobody, such as `EINTR`; the
error for a pid that is not that of a child is `ECHILD`. -/
def waitpid (k : ProcessTable) (fails : Option Int) (pid : Pid) : Option (WaitResult × ProcessTable) :=
  match fails, k.children.find? pid with
  | some errno, _ => some (.error errno, k)
  | none, none => some (.error 10, k)
  | none, some none => none
  | none, some (some status) => some (.ok (pid, status), { k with children := k.children.erase pid })

/-- A child ends by itself or by a signal from elsewhere. -/
def childEnds (k : ProcessTable) (pid : Pid) (status : Int) : Option ProcessTable :=
  if k.children.find? pid = some none ∧ (wifExited status || wifSignaled status) then
    some { k with children := k.children.insert pid (some status) }
  else none

theorem mem_pids_fork {k : ProcessTable} {pid x : Pid} :
    x ∈ (k.fork pid).pids ↔ x = pid ∨ x ∈ k.pids := OrderedMap.mem_keys_insert

theorem mem_pids {k : ProcessTable} {pid : Pid} :
    pid ∈ k.pids ↔ ∃ state, k.children.find? pid = some state := OrderedMap.mem_keys

theorem mem_pids_of_find? {k : ProcessTable} {pid : Pid} {state : Option Int}
    (found : k.children.find? pid = some state) : pid ∈ k.pids := mem_pids.mpr ⟨state, found⟩

theorem mem_pids_erase {k : ProcessTable} {pid x : Pid} :
    x ∈ (k.children.erase pid).keys ↔ x ∈ k.pids ∧ x ≠ pid := by
  rw [OrderedMap.mem_keys, mem_pids]
  by_cases same : x = pid <;> simp [same]

theorem mem_pids_overwrite {k : ProcessTable} {pid x : Pid} {state : Option Int}
    (known : pid ∈ k.pids) : x ∈ (k.children.insert pid state).keys ↔ x ∈ k.pids := by
  rw [OrderedMap.mem_keys_insert]
  refine ⟨?_, Or.inr⟩
  intro member
  rcases member with rfl | old
  · exact known
  · exact old

/-- A signal ends a child at most; it stays in the table until it is waited for. -/
theorem mem_pids_kill (k : ProcessTable) (fails : Option Int) (pid x : Pid) :
    x ∈ (k.kill fails pid).2.pids ↔ x ∈ k.pids := by
  unfold kill
  split
  · rfl
  · rfl
  · rename_i running
    exact mem_pids_overwrite (mem_pids_of_find? running)
  · rfl

theorem signals_kill (k : ProcessTable) (pid : Pid) :
    (k.kill none pid).2.signals = k.signals ++ [pid] := by
  unfold kill
  cases k.children.find? pid with
  | none => rfl
  | some state => cases state <;> rfl

/-- What `waitpid` returns for a child: an error, or the status of a child that has ended, which is then
gone. -/
theorem waitpid_child {k k' : ProcessTable} {fails : Option Int} {pid : Pid} {result : WaitResult}
    (known : pid ∈ k.pids) (answer : k.waitpid fails pid = some (result, k')) :
    (∃ errno, fails = some errno ∧ result = .error errno ∧ k' = k) ∨
    ∃ status, fails = none ∧ k.children.find? pid = some (some status) ∧ result = .ok (pid, status) ∧
      k'.signals = k.signals ∧ ∀ x, x ∈ k'.pids ↔ x ∈ k.pids ∧ x ≠ pid := by
  obtain ⟨state, found⟩ := mem_pids.mp known
  cases fails with
  | some errno =>
    simp only [waitpid, Option.some.injEq, Prod.mk.injEq] at answer
    exact .inl ⟨errno, rfl, answer.1.symm, answer.2.symm⟩
  | none =>
    cases state with
    | none => simp [waitpid, found] at answer
    | some status =>
      simp only [waitpid, found, Option.some.injEq, Prod.mk.injEq] at answer
      obtain ⟨rfl, rfl⟩ := answer
      exact .inr ⟨status, rfl, found, rfl, rfl, fun x => mem_pids_erase⟩

theorem waitpid_ended {k : ProcessTable} {pid : Pid} {status : Int}
    (ended : k.children.find? pid = some (some status)) :
    k.waitpid none pid = some (.ok (pid, status), { k with children := k.children.erase pid }) := by
  simp only [waitpid, ended]

/-- After `SIGKILL` to a child, `waitpid` does not block. -/
theorem waitpid_kill {k : ProcessTable} {pid : Pid} (known : pid ∈ k.pids) :
    k.kill none pid = (.ok (), (k.kill none pid).2) ∧
      ∃ result k', (k.kill none pid).2.waitpid none pid = some (result, k') := by
  obtain ⟨state, found⟩ := mem_pids.mp known
  cases state with
  | none =>
    have killed : k.kill none pid = (.ok (), ⟨k.children.insert pid (some sigkilled), k.signals ++ [pid]⟩) := by
      simp only [kill, found]
    rw [killed]
    exact ⟨rfl, _, _, waitpid_ended (by rw [OrderedMap.find?_insert, if_pos rfl])⟩
  | some status =>
    have killed : k.kill none pid = (.ok (), ⟨k.children, k.signals ++ [pid]⟩) := by
      simp only [kill, found]
    rw [killed]
    exact ⟨rfl, _, _, waitpid_ended found⟩

/-- Every status in the table is one of a child that has ended for good. -/
def Ended (k : ProcessTable) : Prop :=
  ∀ pid status, k.children.find? pid = some (some status) →
    (wifExited status || wifSignaled status) = true

theorem Ended.insert {k : ProcessTable} {pid : Pid} {state : Option Int} (ended : k.Ended)
    (new : ∀ status, state = some status → (wifExited status || wifSignaled status) = true)
    (signals : List Pid) : Ended ⟨k.children.insert pid state, signals⟩ := by
  intro x status found
  rw [OrderedMap.find?_insert] at found
  split at found
  · exact new status (Option.some.inj found)
  · exact ended x status found

theorem Ended.kill {k : ProcessTable} (ended : k.Ended) (fails : Option Int) (pid : Pid) :
    (k.kill fails pid).2.Ended := by
  unfold ProcessTable.kill
  split
  · exact ended
  · exact ended
  · exact ended.insert (by rintro _ ⟨⟩; decide) _
  · exact ended

theorem Ended.waitpid {k k' : ProcessTable} {fails : Option Int} {pid : Pid} {result : WaitResult}
    (ended : k.Ended) (answer : k.waitpid fails pid = some (result, k')) : k'.Ended := by
  unfold ProcessTable.waitpid at answer
  split at answer
  · cases answer
    exact ended
  · cases answer
    exact ended
  · simp at answer
  · cases answer
    intro x status found
    simp only [OrderedMap.find?_erase] at found
    split at found
    · simp at found
    · exact ended x status found

theorem Ended.childEnds {k k' : ProcessTable} {pid : Pid} {status : Int} (ended : k.Ended)
    (taken : k.childEnds pid status = some k') : k'.Ended := by
  unfold ProcessTable.childEnds at taken
  split at taken
  · rename_i guard
    cases Option.some.inj taken
    exact ended.insert (by rintro _ ⟨⟩; exact guard.2) _
  · simp at taken

end ProcessTable

end Aser
