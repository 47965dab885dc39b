import Aser.Core.ProcessMonitorBlocking

namespace Aser

open Library

namespace ProcessMonitor

/-- Worker `k` has a future that the owner has still to wait for, be it in the destructor. -/
def Awaited (m : ProcessMonitor) (k : Nat) : Prop :=
  match m.owner with
  | .destroying left => k ∈ left
  | .destroyed => False
  | _ => k ∉ m.pushed.take m.returned.length

/-- The owner leaves no worker behind: what it need not wait for any more is done. -/
def Drains (m : ProcessMonitor) : Prop :=
  ∀ (k : Nat) (t : Worker), m.workers[k]? = some t → t.phase.isReady = true ∨ m.Awaited k

variable {answers : Nat → WaitResult} {m m' : ProcessMonitor}

theorem awaited_of_unreported {k : Nat} (unreported : k ∉ m.pushed.take m.returned.length)
    (still : ∀ left, m.owner ≠ .destroying left) (there : m.owner ≠ .destroyed) : m.Awaited k := by
  unfold Awaited
  split
  · rename_i left gone
    exact absurd gone (still left)
  · rename_i gone
    exact absurd gone there
  · exact unreported

/-- A worker that moves on was not done. -/
theorem Drains.setPhase (h : m.Drains) {k : Nat} {t : Worker} {phase : WorkerPhase}
    (atK : m.workers[k]? = some t) (busy : t.phase.isReady = false)
    (same : ∀ j, m.Awaited j → m'.Awaited j) (workers : m'.workers = (m.setPhase k phase).workers) :
    m'.Drains := by
  intro j t' atJ
  rw [workers] at atJ
  rcases worker_setPhase atK atJ with ⟨rfl, rfl⟩ | ⟨_, atJ'⟩
  · have awaited := (h j t atK).resolve_left (by simp [busy])
    exact .inr (same j awaited)
  · exact (h j t' atJ').imp_right (same j)

theorem Drains.add (h : m.Drains) (known : m.Tracks answers) (idle : m.owner = .idle) (kind : WaitKind)
    (pid : Pid) : (m.add kind pid).2.Drains := by
  unfold ProcessMonitor.add
  split
  · exact h
  · intro k t atK
    rcases getElem?_append_singleton atK with old | ⟨rfl, _⟩
    · exact h k t old
    · refine .inr (awaited_of_unreported (fun member => ?_) (by simp [idle]) (by simp [idle]))
      have bound := known.known (List.mem_of_mem_take member)
      omega

theorem Drains.get (h : m.Drains) (known : m.Tracks answers) {pid : Pid} {k : Nat} {t : Worker}
    {result : Except Exception Int} (getting : m.owner = .getting pid k) (atK : m.workers[k]? = some t)
    (ready : t.phase = .ready result) : (m.got pid result).Drains := by
  have before : ∀ {j}, m.Awaited j → j ∉ m.pushed.take m.returned.length := by
    intro j awaited
    rw [Awaited, getting] at awaited
    exact awaited
  intro j t' atJ
  rw [workers_got] at atJ
  rcases h j t' atJ with done | awaited
  · exact .inl done
  cases result with
  | error e => exact .inr (before awaited)
  | ok status =>
    by_cases mine : j = k
    · subst mine
      cases Option.some.inj (atK.symm.trans atJ)
      exact .inl (by rw [ready, WorkerPhase.isReady])
    · refine .inr ?_
      show j ∉ m.pushed.take (m.returned ++ [(pid, status)]).length
      rw [List.length_append, List.length_singleton, List.take_add_one, (known.getting getting).1]
      have other := before awaited
      simp [other, mine]

/-- The destructor waits for all futures that are left, one after the other. -/
theorem Drains.destroys (h : m.Drains) (known : m.Tracks answers) (idle : m.owner = .idle) :
    Drains { m with owner := .destroying m.status.values } := by
  intro k t atK
  have before := h k t atK
  rw [Awaited, idle] at before
  refine before.imp_right fun unreported => ?_
  have pid : m.pidOf k = some t.pid := by rw [pidOf, atK, Option.map_some]
  exact OrderedMap.mem_values_of_find? ((known.status t.pid k).mpr ⟨pid, unreported⟩)

theorem Drains.drops (h : m.Drains) {k : Nat} {left : List Nat} {t : Worker} {result : Except Exception Int}
    (destroying : m.owner = .destroying (k :: left)) (atK : m.workers[k]? = some t)
    (ready : t.phase = .ready result) : Drains { m with owner := .destroying left } := by
  intro j t' atJ
  have before := h j t' atJ
  rw [Awaited, destroying] at before
  rcases before with done | awaited
  · exact .inl done
  rcases List.mem_cons.mp awaited with same | later
  · subst same
    cases Option.some.inj (atK.symm.trans atJ)
    exact .inl (by rw [ready, WorkerPhase.isReady])
  · exact .inr later

theorem Drains.push (h : m.Drains) (known : m.Tracks answers) {k : Nat} {t : Worker} {status : Int}
    (atK : m.workers[k]? = some t) (collected : t.phase = .collected status) :
    Drains { m.setPhase k (.leaving (.ok status)) with
      endedProcessQueue := m.endedProcessQueue ++ [t.pid], pushed := m.pushed ++ [k] } := by
  refine h.setPhase atK (by rw [collected]; rfl) (fun j awaited => ?_) rfl
  have same : (m.pushed ++ [k]).take m.returned.length = m.pushed.take m.returned.length :=
    List.take_append_of_le_length known.reported_le
  unfold Awaited at awaited ⊢
  show match m.owner with
    | .destroying left => j ∈ left
    | .destroyed => False
    | _ => j ∉ (m.pushed ++ [k]).take m.returned.length
  rw [same]
  exact awaited

theorem Drains.step (h : m.Drains) (known : m.Tracks answers) {a : Action}
    (taken : m.step answers a = some m') : m'.Drains := by
  cases change_of_step taken with
  | adds idle => exact h.add known idle _ _
  | calls idle =>
    intro k t atK
    have before := h k t atK
    rw [Awaited, idle] at before
    exact before
  | pops popping =>
    intro k t atK
    rw [workers_popped] at atK
    have before := h k t atK
    rw [Awaited, popping] at before
    unfold popped
    split
    · exact before
    · exact before
  | gets getting atK ready => exact h.get known getting atK ready
  | destroys idle => exact h.destroys known idle
  | drops destroying atK ready => exact h.drops destroying atK ready
  | destroyed destroying =>
    intro k t atK
    have before := h k t atK
    rw [Awaited, destroying] at before
    exact before.imp_right (by simp)
  | fails atK waiting => exact h.setPhase atK (by rw [waiting]; rfl) (fun _ => id) rfl
  | collects atK waiting => exact h.setPhase atK (by rw [waiting]; rfl) (fun _ => id) rfl
  | pushes atK collected => exact h.push known atK collected
  | finishes atK leaving => exact h.setPhase atK (by rw [leaving]; rfl) (fun _ => id) rfl

/-- When the destructor of the monitor has returned, every worker is done. -/
theorem Drains.of_destroyed (h : m.Drains) (destroyed : m.owner = .destroyed) {k : Nat} {t : Worker}
    (atK : m.workers[k]? = some t) : t.phase.isReady = true := by
  rcases h k t atK with done | awaited
  · exact done
  · rw [Awaited, destroyed] at awaited
    exact awaited.elim

theorem drains {ts : List (Transition ProcessMonitor Action)} (run : Run (step answers) {} ts m) :
    m.Drains := by
  have both := run.invariant (I := fun m => m.Tracks answers ∧ m.Drains)
    ⟨init_tracks, fun k t atK => by simp at atK⟩
    (fun both taken => ⟨both.1.step taken, both.2.step both.1 taken⟩)
  exact both.2

end ProcessMonitor

end Aser
