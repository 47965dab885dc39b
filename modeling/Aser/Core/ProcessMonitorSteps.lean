import Aser.Core.ProcessMonitor
import Aser.Library.Slots

namespace Aser

open Library

namespace ProcessMonitor

/-- The changes that a step of the owner or of a worker makes. -/
inductive Change (answers : Nat → WaitResult) (m : ProcessMonitor) : Action → ProcessMonitor → Prop
  | adds {kind pid} (idle : m.owner = .idle) : Change answers m (.add kind pid) (m.add kind pid).2
  | calls (idle : m.owner = .idle) : Change answers m .waitForAny { m with owner := .popping }
  | pops {pid rest} (popping : m.owner = .popping) (front : m.endedProcessQueue = pid :: rest) :
    Change answers m .pop ({ m with endedProcessQueue := rest }.popped pid)
  | gets {pid k t result} (getting : m.owner = .getting pid k) (atK : m.workers[k]? = some t)
    (ready : t.phase = .ready result) : Change answers m .get (m.got pid result)
  | destroys (idle : m.owner = .idle) :
    Change answers m .destroy { m with owner := .destroying m.status.values }
  | drops {k left t result} (destroying : m.owner = .destroying (k :: left)) (atK : m.workers[k]? = some t)
    (ready : t.phase = .ready result) : Change answers m .destroyNext { m with owner := .destroying left }
  | destroyed (destroying : m.owner = .destroying []) :
    Change answers m .destroyNext { m with owner := .destroyed }
  | fails {k t e} (atK : m.workers[k]? = some t) (waiting : t.phase = .waiting)
    (outcome : t.outcome (answers k) = .error e) :
    Change answers m (.waitpid k) (m.setPhase k (.leaving (.error e)))
  | collects {k t status} (atK : m.workers[k]? = some t) (waiting : t.phase = .waiting)
    (outcome : t.outcome (answers k) = .ok status) :
    Change answers m (.waitpid k) (m.setPhase k (.collected status))
  | pushes {k t status} (atK : m.workers[k]? = some t) (collected : t.phase = .collected status) :
    Change answers m (.push k) { m.setPhase k (.leaving (.ok status)) with
      endedProcessQueue := m.endedProcessQueue ++ [t.pid], pushed := m.pushed ++ [k] }
  | finishes {k t result} (atK : m.workers[k]? = some t) (leaving : t.phase = .leaving result) :
    Change answers m (.finish k) (m.setPhase k (.ready result))

/-- The steps of the workers. -/
def Action.ofWorker : Action → Bool
  | .waitpid _ | .push _ | .finish _ => true
  | _ => false

/-- The steps of the owner once all workers are there. -/
def Action.sparesWorkers : Action → Bool
  | .waitForAny | .pop | .get | .destroy | .destroyNext => true
  | _ => false

/-- Which processes the workers wait for. -/
def jobs (m : ProcessMonitor) : List (WaitKind × Pid) := m.workers.map fun t => (t.kind, t.pid)

variable {answers : Nat → WaitResult} {m m' : ProcessMonitor} {a : Action}

theorem change_of_step (taken : m.step answers a = some m') : Change answers m a m' := by
  cases a with
  | add kind pid =>
    simp only [step, Option.ite_none_right_eq_some, Option.some.injEq] at taken
    exact taken.2 ▸ .adds taken.1
  | waitForAny =>
    simp only [step, Option.ite_none_right_eq_some, Option.some.injEq] at taken
    exact taken.2 ▸ .calls taken.1
  | pop =>
    simp only [step] at taken
    split at taken
    · rename_i popping front
      exact Option.some.inj taken ▸ .pops popping front
    · simp at taken
  | get =>
    simp only [step] at taken
    split at taken
    · rename_i getting
      split at taken
      · rename_i ready
        obtain ⟨t, atK, phase⟩ := Option.map_eq_some_iff.mp ready
        exact Option.some.inj taken ▸ .gets getting atK phase
      · simp at taken
    · simp at taken
  | destroy =>
    simp only [step, Option.ite_none_right_eq_some, Option.some.injEq] at taken
    exact taken.2 ▸ .destroys taken.1
  | destroyNext =>
    simp only [step] at taken
    split at taken
    · rename_i destroying
      exact Option.some.inj taken ▸ .destroyed destroying
    · rename_i destroying
      split at taken
      · rename_i ready
        obtain ⟨t, atK, phase⟩ := Option.map_eq_some_iff.mp ready
        exact Option.some.inj taken ▸ .drops destroying atK phase
      · simp at taken
    · simp at taken
  | waitpid k =>
    obtain ⟨t, atK, taken⟩ := Option.bind_eq_some_iff.mp taken
    split at taken
    · rename_i waiting
      rw [← Option.some.inj taken]
      cases outcome : t.outcome (answers k) with
      | error e => exact .fails atK waiting outcome
      | ok status => exact .collects atK waiting outcome
    · simp at taken
  | push k =>
    obtain ⟨t, atK, taken⟩ := Option.bind_eq_some_iff.mp taken
    split at taken
    · rename_i collected
      exact Option.some.inj taken ▸ .pushes atK collected
    · simp at taken
  | finish k =>
    obtain ⟨t, atK, taken⟩ := Option.bind_eq_some_iff.mp taken
    split at taken
    · rename_i leaving
      exact Option.some.inj taken ▸ .finishes atK leaving
    · simp at taken

theorem workers_setPhase (m : ProcessMonitor) (k j : Nat) (phase : WorkerPhase) :
    (m.setPhase k phase).workers[j]? =
      (m.workers[j]?).map fun t => if k = j then { t with phase } else t := by
  rw [setPhase, List.getElem?_modify]
  by_cases same : k = j
  · simp [same]
  · simp [same]

/-- The workers after one of them has moved on: that one, and the others as they were. -/
theorem worker_setPhase {m : ProcessMonitor} {k j : Nat} {t t' : Worker} {phase : WorkerPhase}
    (atK : m.workers[k]? = some t) (atJ : (m.setPhase k phase).workers[j]? = some t') :
    j = k ∧ t' = { t with phase } ∨ j ≠ k ∧ m.workers[j]? = some t' := by
  rw [workers_setPhase] at atJ
  obtain ⟨t₀, atJ', rfl⟩ := Option.map_eq_some_iff.mp atJ
  by_cases same : k = j
  · subst same
    cases Option.some.inj (atK.symm.trans atJ')
    exact .inl ⟨rfl, if_pos rfl⟩
  · rw [if_neg same]
    exact .inr ⟨Ne.symm same, atJ'⟩

theorem workers_popped (m : ProcessMonitor) (pid : Pid) : (m.popped pid).workers = m.workers := by
  unfold popped
  split <;> rfl

theorem owner_add (m : ProcessMonitor) (kind : WaitKind) (pid : Pid) :
    (m.add kind pid).2.owner = m.owner := by
  unfold add
  split <;> rfl

theorem owner_got (m : ProcessMonitor) (pid : Pid) (result : Except Exception Int) :
    (m.got pid result).owner = .idle := by
  cases result <;> rfl

theorem workers_got (m : ProcessMonitor) (pid : Pid) (result : Except Exception Int) :
    (m.got pid result).workers = m.workers := by
  cases result <;> rfl

@[simp] theorem jobs_setPhase (m : ProcessMonitor) (k : Nat) (phase : WorkerPhase) :
    (m.setPhase k phase).jobs = m.jobs := by
  apply List.ext_getElem?
  intro j
  rw [jobs, jobs, List.getElem?_map, List.getElem?_map, workers_setPhase, Option.map_map]
  congr 1
  funext t
  dsimp only [Function.comp_apply]
  split <;> rfl

/-- A worker leaves the owner alone, and the others. -/
theorem worker_frame (ofWorker : a.ofWorker = true) (taken : m.step answers a = some m') :
    m'.owner = m.owner ∧ m'.returned = m.returned ∧ m'.jobs = m.jobs := by
  cases change_of_step taken with
  | fails | collects | finishes => exact ⟨rfl, rfl, jobs_setPhase m _ _⟩
  | @pushes k t status => exact ⟨rfl, rfl, jobs_setPhase m k (.leaving (.ok status))⟩
  | _ => simp [Action.ofWorker] at ofWorker

/-- A worker that makes a step is not waiting after it. -/
theorem worker_moves {k : Nat} {t : Worker} (mine : a = .waitpid k ∨ a = .push k ∨ a = .finish k)
    (atK : m.workers[k]? = some t) (taken : m.step answers a = some m') :
    (∃ phase, phase ≠ .waiting ∧ (m'.workers[k]?).map Worker.phase = some phase) ∧
      ∀ j, j ≠ k → m'.workers[j]? = m.workers[j]? := by
  have moved : ∀ phase, phase ≠ .waiting → m'.workers = (m.setPhase k phase).workers →
      (∃ phase, phase ≠ .waiting ∧ (m'.workers[k]?).map Worker.phase = some phase) ∧
        ∀ j, j ≠ k → m'.workers[j]? = m.workers[j]? := by
    intro phase done workers
    refine ⟨⟨phase, done, ?_⟩, fun j other => ?_⟩
    · rw [workers, workers_setPhase, atK]
      simp
    · rw [workers, workers_setPhase]
      simp [Ne.symm other]
  rcases mine with rfl | rfl | rfl
  · cases change_of_step taken with
    | fails => exact moved _ (by simp) rfl
    | collects => exact moved _ (by simp) rfl
  · cases change_of_step taken with
    | @pushes _ t' status => exact moved (.leaving (.ok status)) (by simp) rfl
  · cases change_of_step taken with
    | finishes => exact moved _ (by simp) rfl

/-- The owner, on its part, leaves the workers alone. -/
theorem owner_frame (spares : a.sparesWorkers = true) (taken : m.step answers a = some m') :
    m'.workers = m.workers := by
  cases change_of_step taken with
  | calls | destroys | drops | destroyed => rfl
  | pops => exact workers_popped _ _
  | gets => exact workers_got _ _ _
  | _ => simp [Action.sparesWorkers] at spares

theorem worker_frame_optional {a : Option Action} (ofWorker : a.all Action.ofWorker = true)
    (taken : optionalStep (step answers) m a = some m') :
    m'.owner = m.owner ∧ m'.returned = m.returned ∧ m'.jobs = m.jobs := by
  rcases optionalStep_cases taken with ⟨_, rfl⟩ | ⟨a, rfl, moved⟩
  · exact ⟨rfl, rfl, rfl⟩
  · exact worker_frame ofWorker moved

theorem owner_frame_optional {a : Option Action} (spares : a.all Action.sparesWorkers = true)
    (taken : optionalStep (step answers) m a = some m') : m'.workers = m.workers := by
  rcases optionalStep_cases taken with ⟨_, rfl⟩ | ⟨a, rfl, moved⟩
  · rfl
  · exact owner_frame spares moved

theorem pop_cases (taken : m.step answers .pop = some m') : m'.returned = m.returned ∧
    (m'.owner = .aborted ∨ ∃ pid k, m'.owner = .getting pid k) := by
  cases change_of_step taken with
  | pops =>
    unfold popped
    split
    · exact ⟨rfl, .inl rfl⟩
    · exact ⟨rfl, .inr ⟨_, _, rfl⟩⟩

theorem destroy_returned (destroys : a = .destroy ∨ a = .destroyNext)
    (taken : m.step answers a = some m') : m'.returned = m.returned := by
  cases change_of_step taken with
  | destroys | drops | destroyed => rfl
  | _ => simp at destroys

end ProcessMonitor

end Aser
