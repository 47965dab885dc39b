import Mathlib.Data.List.Perm.Subperm
import Aser.Core.ProcessMonitorSteps

namespace Aser

open Library

/-- What a worker has got so far agrees with what `waitpid` answers it, and it has pushed its pid
exactly if it is past a wait that succeeded. -/
def Worker.Fits (t : Worker) (answer : WaitResult) (pushed : Prop) : Prop :=
  match t.phase with
  | .waiting => ¬ pushed
  | .collected status => t.outcome answer = .ok status ∧ ¬ pushed
  | .leaving result | .ready result => t.outcome answer = result ∧ (pushed ↔ ∃ status, result = .ok status)

namespace ProcessMonitor

/-- The pid that worker `k` waits for. -/
def pidOf (m : ProcessMonitor) (k : Nat) : Option Pid := (m.workers[k]?).map Worker.pid

/-- How many pids the owner has taken from the queue. -/
def taken (m : ProcessMonitor) : Nat :=
  match m.owner with
  | .getting _ _ => m.returned.length + 1
  | _ => m.returned.length

variable (answers : Nat → WaitResult) (m : ProcessMonitor)

/-- The futures and the queue stay matched: the queue holds the pids pushed and not yet taken, in the
order of the pushes; `status_` holds the workers not yet reported. -/
structure Tracks : Prop where
  pushes : m.pushed.Nodup
  workers : ∀ {k : Nat} {t : Worker}, m.workers[k]? = some t → t.Fits (answers k) (k ∈ m.pushed)
  known : ∀ {k}, k ∈ m.pushed → k < m.workers.length
  queue : m.endedProcessQueue.map some = (m.pushed.drop m.taken).map m.pidOf
  owner : m.owner ≠ .aborted
  getting : ∀ {pid k}, m.owner = .getting pid k →
    m.pushed[m.returned.length]? = some k ∧ m.pidOf k = some pid
  status : ∀ pid k, m.status.find? pid = some k ↔ m.pidOf k = some pid ∧ k ∉ m.pushed.take m.returned.length
  returned : ∀ {i : Nat} {pid : Pid} {status : Int}, m.returned[i]? = some (pid, status) →
    ∃ (k : Nat) (t : Worker), m.pushed[i]? = some k ∧ m.workers[k]? = some t ∧ t.pid = pid ∧
      t.outcome (answers k) = .ok status

variable {answers m} {m' : ProcessMonitor} {k : Nat}

@[simp] theorem pidOf_setPhase (m : ProcessMonitor) (k : Nat) (phase : WorkerPhase) :
    (m.setPhase k phase).pidOf = m.pidOf := by
  funext j
  rw [pidOf, pidOf, workers_setPhase, Option.map_map]
  congr 1
  funext t
  dsimp only [Function.comp_apply]
  split <;> rfl

theorem pidOf_lt {pid : Pid} (here : m.pidOf k = some pid) : k < m.workers.length := by
  obtain ⟨t, atK, _⟩ := Option.map_eq_some_iff.mp here
  exact (List.getElem?_eq_some_iff.mp atK).1

theorem Tracks.reported_le (h : m.Tracks answers) : m.returned.length ≤ m.pushed.length := by
  cases count : m.returned.length with
  | zero => omega
  | succ n =>
    have within : n < m.returned.length := by omega
    obtain ⟨k, _, atN, _⟩ := h.returned (i := n) (List.getElem?_eq_getElem within)
    have bound := (List.getElem?_eq_some_iff.mp atN).1
    omega

theorem Tracks.taken_le (h : m.Tracks answers) : m.taken ≤ m.pushed.length := by
  have reported := h.reported_le
  unfold taken
  split
  · rename_i atOwner
    have bound := (List.getElem?_eq_some_iff.mp (h.getting atOwner).1).1
    omega
  · exact reported

/-- The worker next in line is not reported yet, so its future is still in `status_`. -/
theorem Tracks.next_unreported (h : m.Tracks answers) (next : m.pushed[m.returned.length]? = some k) :
    k ∉ m.pushed.take m.returned.length := by
  intro member
  obtain ⟨i, bound, atI⟩ := List.getElem_of_mem member
  rw [List.length_take] at bound
  rw [List.getElem_take] at atI
  have within : i < m.pushed.length := by omega
  have same : m.pushed[i]? = m.pushed[m.returned.length]? := by
    rw [next, List.getElem?_eq_getElem within, atI]
  have equal := (List.getElem?_inj within h.pushes).mp same
  omega

/-- A worker that moves on without pushing. -/
theorem Tracks.setPhase (h : m.Tracks answers) {t : Worker} {phase : WorkerPhase}
    (atK : m.workers[k]? = some t) (fits : { t with phase }.Fits (answers k) (k ∈ m.pushed)) :
    (m.setPhase k phase).Tracks answers where
  pushes := h.pushes
  workers {j t'} atJ := by
    rcases worker_setPhase atK atJ with ⟨rfl, rfl⟩ | ⟨_, atJ'⟩
    · exact fits
    · exact h.workers atJ'
  known member := by
    rw [ProcessMonitor.setPhase, List.length_modify]
    exact h.known member
  queue := by
    rw [pidOf_setPhase]
    exact h.queue
  owner := h.owner
  getting atOwner := by
    rw [pidOf_setPhase]
    exact h.getting atOwner
  status pid j := by
    rw [pidOf_setPhase]
    exact h.status pid j
  returned atI := by
    obtain ⟨j, t', pushed, atJ, rest⟩ := h.returned atI
    refine ⟨j, _, pushed, by rw [workers_setPhase, atJ]; rfl, ?_⟩
    split
    · exact rest
    · exact rest

theorem pidOf_append (m : ProcessMonitor) (t : Worker) (j : Nat) :
    ((m.workers ++ [t])[j]?).map Worker.pid = if j = m.workers.length then some t.pid else m.pidOf j := by
  by_cases last : j = m.workers.length
  · simp [last]
  · by_cases within : j < m.workers.length
    · rw [if_neg last, List.getElem?_append_left within, pidOf]
    · have beyond : (m.workers ++ [t])[j]? = none := List.getElem?_eq_none (by simp; omega)
      have beyond' : m.workers[j]? = none := List.getElem?_eq_none (by omega)
      simp [last, pidOf, beyond, beyond']

theorem Tracks.add (h : m.Tracks answers) (kind : WaitKind) (pid : Pid) :
    (m.add kind pid).2.Tracks answers := by
  unfold ProcessMonitor.add checkDuplicatedPid
  split
  · exact h
  · rename_i fresh
    have new : pid ∉ m.status.keys := by
      intro member
      simp [member] at fresh
    have unpushed : m.workers.length ∉ m.pushed := by
      intro member
      have bound := h.known member
      omega
    have old : ∀ {j}, j ∈ m.pushed → ((m.workers ++ [⟨kind, pid, .waiting⟩])[j]?).map Worker.pid = m.pidOf j := by
      intro j member
      have bound := h.known member
      rw [pidOf_append, if_neg (by omega)]
    refine ⟨h.pushes, ?_, ?_, ?_, h.owner, ?_, ?_, ?_⟩
    · intro j t atJ
      rcases getElem?_append_singleton atJ with known | ⟨rfl, rfl⟩
      · exact h.workers known
      · exact unpushed
    · intro j member
      have bound := h.known member
      rw [List.length_append]
      omega
    · rw [h.queue]
      refine List.map_congr_left fun j member => ?_
      exact (old (List.mem_of_mem_drop member)).symm
    · intro pid' j atOwner
      obtain ⟨next, known⟩ := h.getting atOwner
      exact ⟨next, (old (List.mem_of_getElem? next)).trans known⟩
    · intro pid' j
      have none : m.status.find? pid = Option.none := OrderedMap.find?_eq_none.mpr new
      have known := h.status pid' j
      rw [OrderedMap.find?_insert]
      show _ ↔ ((m.workers ++ [⟨kind, pid, .waiting⟩])[j]?).map Worker.pid = some pid' ∧ _
      rw [pidOf_append]
      by_cases last : j = m.workers.length
      · -- the new worker, which cannot have been reported
        have unreported : j ∉ m.pushed.take m.returned.length := by
          intro member
          exact unpushed (last ▸ List.mem_of_mem_take member)
        have unknown : m.status.find? pid' ≠ some j := by
          intro found
          have bound := pidOf_lt (known.mp found).1
          omega
        by_cases same : pid' = pid
        · simp [last, same, last ▸ unreported]
        · simp [last, same, Ne.symm same, last ▸ unknown]
      · by_cases same : pid' = pid
        · subst same
          rw [none] at known
          simpa [last, Ne.symm last] using known
        · simpa [last, same] using known
    · intro i pid' status atI
      obtain ⟨j, t, pushed, atJ, rest⟩ := h.returned atI
      have bound := h.known (List.mem_of_getElem? pushed)
      exact ⟨j, t, pushed, by rw [List.getElem?_append_left bound, atJ], rest⟩

/-- The owner goes on outside of `get`, with as many pids taken as reported. -/
theorem Tracks.withOwner (h : m.Tracks answers) {owner : Owner} (reported : m.taken = m.returned.length)
    (other : owner ≠ .aborted) (free : ∀ pid k, owner ≠ .getting pid k) :
    Tracks answers { m with owner } where
  pushes := h.pushes
  workers := h.workers
  known := h.known
  queue := by
    have count : taken { m with owner } = m.taken := by
      unfold taken
      split
      · rename_i atOwner
        exact absurd atOwner (free _ _)
      · exact reported.symm
    rw [count]
    exact h.queue
  owner := other
  getting atOwner := absurd atOwner (free _ _)
  status := h.status
  returned := h.returned

/-- The pid at the front of the queue was pushed by the worker next in line, and `status_` has the
future of that worker. -/
theorem Tracks.pop (h : m.Tracks answers) (popping : m.owner = .popping) {pid : Pid} {rest : List Pid}
    (front : m.endedProcessQueue = pid :: rest) :
    Tracks answers ({ m with endedProcessQueue := rest }.popped pid) := by
  have count : m.taken = m.returned.length := by rw [taken, popping]
  have queue := h.queue
  rw [front, count] at queue
  cases left : m.pushed.drop m.returned.length with
  | nil => simp [left] at queue
  | cons k others =>
    rw [left] at queue
    simp only [List.map_cons, List.cons.injEq] at queue
    obtain ⟨known, queue⟩ := queue
    have next : m.pushed[m.returned.length]? = some k := by
      rw [← List.head?_drop, left, List.head?_cons]
    have found := (h.status pid k).mpr ⟨known.symm, h.next_unreported next⟩
    have popped : { m with endedProcessQueue := rest }.popped pid =
        { m with endedProcessQueue := rest, owner := .getting pid k } := by
      simp only [ProcessMonitor.popped, found]
    rw [popped]
    refine ⟨h.pushes, h.workers, h.known, ?_, by simp, ?_, h.status, h.returned⟩
    · have tail : m.pushed.drop (m.returned.length + 1) = others := by
        rw [← List.tail_drop, left, List.tail_cons]
      show rest.map some = (m.pushed.drop (m.returned.length + 1)).map m.pidOf
      rw [tail]
      exact queue
    · rintro _ _ ⟨⟩
      exact ⟨next, known.symm⟩

/-- The future the owner waits for holds the status of a wait that succeeded. -/
theorem Tracks.get (h : m.Tracks answers) {pid : Pid} {t : Worker} {result : Except Exception Int}
    (getting : m.owner = .getting pid k) (atK : m.workers[k]? = some t) (ready : t.phase = .ready result) :
    Tracks answers (m.got pid result) := by
  obtain ⟨next, known⟩ := h.getting getting
  have fits := h.workers atK
  rw [Worker.Fits, ready] at fits
  obtain ⟨status, rfl⟩ := fits.2.mp (List.mem_of_getElem? next)
  have isPid : t.pid = pid := by
    rw [pidOf, atK] at known
    exact Option.some.inj known
  have within := (List.getElem?_eq_some_iff.mp next).1
  have longer : m.pushed.take (m.returned.length + 1) = m.pushed.take m.returned.length ++ [k] := by
    rw [List.take_add_one, next]
    rfl
  refine ⟨h.pushes, h.workers, h.known, ?_, by simp [got], by simp [got], ?_, ?_⟩
  · have count : taken (m.got pid (.ok status)) = m.taken := by simp [taken, got, getting]
    rw [count]
    exact h.queue
  · intro pid' j
    have old := h.status pid' j
    show (m.status.erase pid).find? pid' = some j ↔
      m.pidOf j = some pid' ∧ j ∉ m.pushed.take (m.returned ++ [(pid, status)]).length
    rw [OrderedMap.find?_erase, List.length_append, List.length_singleton, longer, List.mem_append,
      List.mem_singleton, not_or]
    by_cases same : pid' = pid
    · subst same
      rw [if_pos rfl]
      refine iff_of_false (by simp) ?_
      intro other
      obtain ⟨atJ, unreported, other⟩ := other
      have mine := (h.status pid' k).mpr ⟨known, h.next_unreported next⟩
      rw [mine] at old
      exact other (Option.some.inj (old.mpr ⟨atJ, unreported⟩)).symm
    · rw [if_neg same, old]
      refine and_congr_right fun atJ => (and_iff_left ?_).symm
      intro same
      subst same
      exact same (Option.some.inj (atJ.symm.trans known))
  · intro i pid' status' atI
    rcases getElem?_append_singleton atI with old | ⟨rfl, last⟩
    · exact h.returned old
    · obtain ⟨rfl, rfl⟩ := Prod.mk.inj last
      exact ⟨k, t, next, atK, isPid, fits.1⟩

theorem Tracks.push (h : m.Tracks answers) {t : Worker} {status : Int} (atK : m.workers[k]? = some t)
    (collected : t.phase = .collected status) :
    Tracks answers { m.setPhase k (.leaving (.ok status)) with
      endedProcessQueue := m.endedProcessQueue ++ [t.pid], pushed := m.pushed ++ [k] } := by
  have fits := h.workers atK
  rw [Worker.Fits, collected] at fits
  obtain ⟨outcome, unpushed⟩ := fits
  have bound := (List.getElem?_eq_some_iff.mp atK).1
  have reported := h.reported_le
  have taken := h.taken_le
  refine ⟨?_, ?_, ?_, ?_, h.owner, ?_, ?_, ?_⟩
  · rw [List.nodup_append]
    refine ⟨h.pushes, List.nodup_singleton k, fun j member j' last same => ?_⟩
    rw [same, List.mem_singleton.mp last] at member
    exact unpushed member
  · intro j t' atJ
    rcases worker_setPhase atK atJ with ⟨rfl, rfl⟩ | ⟨other, atJ'⟩
    · exact ⟨outcome, iff_of_true (by simp) ⟨status, rfl⟩⟩
    · have still : (j ∈ m.pushed ++ [k]) = (j ∈ m.pushed) := by simp [other]
      rw [still]
      exact h.workers atJ'
  · intro j member
    rw [ProcessMonitor.setPhase, List.length_modify]
    rcases List.mem_append.mp member with old | new
    · exact h.known old
    · rw [List.mem_singleton.mp new]
      exact bound
  · show (m.endedProcessQueue ++ [t.pid]).map some =
      ((m.pushed ++ [k]).drop m.taken).map (m.setPhase k (.leaving (.ok status))).pidOf
    have last : m.pidOf k = some t.pid := by rw [pidOf, atK, Option.map_some]
    rw [pidOf_setPhase, List.drop_append_of_le_length taken, List.map_append, List.map_append, h.queue]
    simp [last]
  · intro pid j atOwner
    obtain ⟨next, known⟩ := h.getting atOwner
    have within := (List.getElem?_eq_some_iff.mp next).1
    refine ⟨?_, by rw [← known]; exact congrFun (pidOf_setPhase m k _) j⟩
    show (m.pushed ++ [k])[m.returned.length]? = some j
    rw [List.getElem?_append_left within, next]
  · intro pid j
    have same : pidOf { m.setPhase k (.leaving (.ok status)) with
        endedProcessQueue := m.endedProcessQueue ++ [t.pid], pushed := m.pushed ++ [k] } j = m.pidOf j :=
      congrFun (pidOf_setPhase m k _) j
    rw [same]
    show m.status.find? pid = some j ↔ m.pidOf j = some pid ∧ j ∉ (m.pushed ++ [k]).take m.returned.length
    rw [List.take_append_of_le_length reported]
    exact h.status pid j
  · intro i pid status' atI
    obtain ⟨j, t', pushed, atJ, rest⟩ := h.returned atI
    have within := (List.getElem?_eq_some_iff.mp pushed).1
    refine ⟨j, _, ?_, by rw [workers_setPhase, atJ]; rfl, ?_⟩
    · rw [List.getElem?_append_left within, pushed]
    · split
      · exact rest
      · exact rest

theorem Tracks.step (h : m.Tracks answers) {a : Action} (taken : m.step answers a = some m') :
    m'.Tracks answers := by
  cases change_of_step taken with
  | adds => exact h.add _ _
  | calls idle => exact h.withOwner (by rw [ProcessMonitor.taken, idle]) (by simp) (by simp)
  | pops popping front => exact h.pop popping front
  | gets getting atK ready => exact h.get getting atK ready
  | destroys idle => exact h.withOwner (by rw [ProcessMonitor.taken, idle]) (by simp) (by simp)
  | drops destroying => exact h.withOwner (by rw [ProcessMonitor.taken, destroying]) (by simp) (by simp)
  | destroyed destroying => exact h.withOwner (by rw [ProcessMonitor.taken, destroying]) (by simp) (by simp)
  | fails atK waiting outcome =>
    have fits := h.workers atK
    rw [Worker.Fits, waiting] at fits
    exact h.setPhase atK ⟨outcome, iff_of_false fits (by simp)⟩
  | collects atK waiting outcome =>
    have fits := h.workers atK
    rw [Worker.Fits, waiting] at fits
    exact h.setPhase atK ⟨outcome, fits⟩
  | pushes atK collected => exact h.push atK collected
  | finishes atK leaving =>
    have fits := h.workers atK
    rw [Worker.Fits, leaving] at fits
    exact h.setPhase atK fits

theorem init_tracks : ({} : ProcessMonitor).Tracks answers where
  pushes := List.nodup_nil
  workers atK := by simp at atK
  known member := by simp at member
  queue := rfl
  owner := by simp
  getting atOwner := by simp at atOwner
  status pid k := by simp [pidOf]
  returned atI := by simp at atI

theorem tracks {ts : List (Transition ProcessMonitor Action)}
    (run : Run (step answers) {} ts m) : m.Tracks answers :=
  run.invariant (I := Tracks answers) init_tracks (fun h taken => h.step taken)

/-- When everything added has been reported, nothing is left in `status_`. -/
theorem Tracks.all_reported (h : m.Tracks answers) (all : m.returned.length = m.workers.length) :
    m.status = .empty := by
  have within : m.pushed ⊆ List.range m.workers.length := fun k member => List.mem_range.mpr (h.known member)
  have part := h.pushes.subperm within
  have reported := h.reported_le
  have whole := part.perm_of_length_le (by rw [List.length_range]; omega)
  have count : m.returned.length = m.pushed.length := by
    rw [whole.length_eq, List.length_range, all]
  refine OrderedMap.eq_empty fun pid => ?_
  cases found : m.status.find? pid with
  | none => rfl
  | some k =>
    obtain ⟨known, unreported⟩ := (h.status pid k).mp found
    rw [count, List.take_length, whole.mem_iff, List.mem_range] at unreported
    exact absurd (pidOf_lt known) unreported

/-- A worker that is not reported yet is waiting, or its pid is on the way to the owner. -/
theorem Tracks.not_lost (h : m.Tracks answers) {t : Worker} (atK : m.workers[k]? = some t)
    {status : Int} (succeeds : t.outcome (answers k) = .ok status) :
    k ∈ m.pushed.take m.returned.length ∨ m.status.find? t.pid = some k ∧
      (t.phase = .waiting ∨ t.phase = .collected status ∨ t.pid ∈ m.endedProcessQueue ∨
        m.owner = .getting t.pid k) := by
  by_cases reported : k ∈ m.pushed.take m.returned.length
  · exact .inl reported
  have pid : m.pidOf k = some t.pid := by rw [pidOf, atK, Option.map_some]
  refine .inr ⟨(h.status t.pid k).mpr ⟨pid, reported⟩, ?_⟩
  have fits := h.workers atK
  by_cases pushed : k ∈ m.pushed
  · have later : k ∈ m.pushed.drop m.returned.length := by
      rw [← List.take_append_drop m.returned.length m.pushed, List.mem_append] at pushed
      exact pushed.resolve_left reported
    by_cases inQueue : k ∈ m.pushed.drop m.taken
    · refine .inr (.inr (.inl ?_))
      have member : m.pidOf k ∈ (m.pushed.drop m.taken).map m.pidOf := List.mem_map_of_mem inQueue
      rw [← h.queue, pid] at member
      simpa using member
    · refine .inr (.inr (.inr ?_))
      cases atOwner : m.owner with
      | getting pid' k' =>
        obtain ⟨next, known⟩ := h.getting atOwner
        have count : m.taken = m.returned.length + 1 := by rw [taken, atOwner]
        rw [count] at inQueue
        have split := List.drop_eq_getElem_cons (List.getElem?_eq_some_iff.mp next).1
        rw [split, List.mem_cons] at later
        have same := later.resolve_right inQueue
        have mine : k' = k := by
          rw [same]
          exact (Option.some.inj ((List.getElem?_eq_getElem _).symm.trans next)).symm
        subst mine
        rw [Option.some.inj (known.symm.trans pid)]
      | _ =>
        rw [taken, atOwner] at inQueue
        exact absurd later inQueue
  · unfold Worker.Fits at fits
    split at fits
    · rename_i waiting
      exact .inl waiting
    · rename_i collected
      cases succeeds.symm.trans fits.1
      exact .inr (.inl collected)
    all_goals exact absurd (fits.2.mpr ⟨status, fits.1.symm.trans succeeds⟩) pushed

end ProcessMonitor

end Aser
