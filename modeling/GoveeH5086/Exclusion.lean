import GoveeH5086.Moves

/-!
# The poll lock excludes

`LockInv` relates `_poll_lock` to the tasks: the holder is the one task inside
`_read_one_notification`, and the queue is the tasks that wait, each once.

1. `LockInv.reading_unique`, `LockInv.current_iff`: at most one call of `_read_one_notification` is
   in progress.
2. `LockInv.move`: every move keeps the invariant.
3. `Sys.lockInv`: it holds in every state of a run.
-/

namespace GoveeH5086
open BigEndian FifoLock Runs

def Phase.running : Phase → Option Call
  | .reading call => some call
  | _ => none

namespace Coordinator

def phaseOf (c : Coordinator) (i : ℕ) : Option Phase := (c.tasks i).map Task.phase

/-- Task `i` is inside `_read_one_notification`. -/
def Reading (c : Coordinator) (i : ℕ) : Prop := ∃ call, c.phaseOf i = some (.reading call)

/-- The call of `_read_one_notification` in progress. -/
def current (c : Coordinator) : Option Call :=
  c.pollLock.holder.bind fun i => (c.phaseOf i).bind Phase.running

structure LockInv (c : Coordinator) : Prop where
  fresh : ∀ i t, c.tasks i = some t → i < c.nextTask
  nodup : c.pollLock.waiters.Nodup
  queued : ∀ i, i ∈ c.pollLock.waiters ↔ c.phaseOf i = some .queued
  reading : ∀ i, c.pollLock.holder = some i ↔ c.Reading i

/-! ## What the moves do to the phases -/

section
variable (w : World) (c : Coordinator)

theorem phaseOf_setTask (i : ℕ) (t : Task) (j : ℕ) :
    (c.setTask i t).phaseOf j = if j = i then some t.phase else c.phaseOf j := by
  unfold phaseOf
  by_cases h : j = i
  · subst h
    rw [setTask_self, if_pos rfl, Option.map_some]
  · rw [setTask_of_ne c t h, if_neg h]

theorem leave_phaseOf (i : ℕ) (t : Task) (call : Option Call) (exit : PollExit) (j : ℕ) :
    (c.leave w i t call exit).phaseOf j =
      if j = i then some (.ended call (c.pollResult exit)) else c.phaseOf j := by
  rw [leave_eq]
  exact phaseOf_setTask c i { t with phase := .ended call (c.pollResult exit) } j

end

theorem phaseOf_some {c : Coordinator} {i : ℕ} {p : Phase} :
    c.phaseOf i = some p ↔ ∃ t, c.tasks i = some t ∧ t.phase = p :=
  Option.map_eq_some_iff

/-! ## The moves keep the invariant -/

namespace LockInv

variable {aes : Aes} {w : World} {c c' : Coordinator}

theorem reading_unique (h : c.LockInv) {i j : ℕ} (hi : c.Reading i) (hj : c.Reading j) : i = j := by
  have hi' := (h.reading i).mpr hi
  have hj' := (h.reading j).mpr hj
  exact Option.some.inj (hi'.symm.trans hj')

theorem current_iff (h : c.LockInv) {call : Call} :
    c.current = some call ↔ ∃ i, c.phaseOf i = some (.reading call) := by
  unfold current
  constructor
  · intro hcurrent
    obtain ⟨i, hi, hrunning⟩ := Option.bind_eq_some_iff.mp hcurrent
    obtain ⟨call', hphase⟩ := (h.reading i).mp hi
    rw [hphase] at hrunning
    cases hrunning
    exact ⟨i, hphase⟩
  · rintro ⟨i, hphase⟩
    rw [(h.reading i).mpr ⟨call, hphase⟩, Option.bind_some, hphase]
    rfl

theorem tick (h : c.LockInv) : LockInv { c with ticks := c.ticks + 1 } :=
  ⟨h.fresh, h.nodup, h.queued, h.reading⟩

/-- A task that joins the queue was in no phase before. -/
theorem phaseOf_nextTask (h : c.LockInv) : c.phaseOf c.nextTask = none := by
  cases hn : c.tasks c.nextTask with
  | none => simp [phaseOf, hn]
  | some t => exact absurd (h.fresh _ t hn) (Nat.lt_irrefl _)

theorem arrive (h : c.LockInv) (source : Source) (device : Option BLEDevice) :
    (c.arrive w source device).LockInv := by
  have hnone := h.phaseOf_nextTask
  have hphase : ∀ j, (c.arrive w source device).phaseOf j =
      if j = c.nextTask then some .queued else c.phaseOf j := phaseOf_setTask c c.nextTask _
  have hnew : c.nextTask ∉ c.pollLock.waiters := by
    rw [h.queued, hnone]
    simp
  constructor
  · intro i t ht
    rcases update_eq_some ht with ⟨rfl, -⟩ | ⟨-, hold⟩
    · exact Nat.lt_succ_self _
    · exact Nat.lt_succ_of_lt (h.fresh i t hold)
  · show (c.pollLock.waiters ++ [c.nextTask]).Nodup
    rw [List.nodup_append]
    refine ⟨h.nodup, List.nodup_singleton _, ?_⟩
    intro a ha b hb hab
    rw [List.mem_singleton.mp hb] at hab
    exact hnew (hab ▸ ha)
  · intro i
    show i ∈ c.pollLock.waiters ++ [c.nextTask] ↔ _
    rw [hphase, List.mem_append, List.mem_singleton, h.queued]
    by_cases hi : i = c.nextTask
    · simp [hi]
    · simp [hi]
  · intro i
    show c.pollLock.holder = some i ↔ ∃ call, _
    rw [h.reading]
    unfold Reading
    simp only [hphase]
    by_cases hi : i = c.nextTask
    · simp [hi, hnone]
    · simp [hi]

/-- A move of one task that is known: the lock follows the task's phase. -/
theorem update (h : c.LockInv) {i : ℕ} {t u : Task} (ht : c.tasks i = some t)
    (htasks : c'.tasks = Function.update c.tasks i (some u)) (hnext : c'.nextTask = c.nextTask)
    (hnodup : c'.pollLock.waiters.Nodup)
    (hqueued : ∀ j, j ∈ c'.pollLock.waiters ↔
      if j = i then u.phase = .queued else j ∈ c.pollLock.waiters)
    (hholder : ∀ j, c'.pollLock.holder = some j ↔
      if j = i then ∃ call, u.phase = .reading call else c.pollLock.holder = some j) :
    c'.LockInv := by
  have hphase : ∀ j, c'.phaseOf j = if j = i then some u.phase else c.phaseOf j := by
    intro j
    rw [← phaseOf_setTask]
    simp only [phaseOf, htasks, setTask]
  constructor
  · intro j v hj
    rw [hnext]
    rcases update_eq_some (htasks ▸ hj) with ⟨rfl, -⟩ | ⟨-, hold⟩
    · exact h.fresh j t ht
    · exact h.fresh j v hold
  · exact hnodup
  · intro j
    rw [hqueued, hphase]
    by_cases hji : j = i
    · simp [hji]
    · rw [if_neg hji, if_neg hji, h.queued]
  · intro j
    rw [hholder]
    by_cases hji : j = i
    · simp [Reading, hphase, hji]
    · rw [if_neg hji, h.reading]
      simp [Reading, hphase, hji]

/-- The head of the queue is woken: it leaves the queue, and nobody held the lock. -/
theorem popped (h : c.LockInv) {i : ℕ} {lock : Lock ℕ}
    (hgrant : c.pollLock.grant = some (i, lock)) :
    lock.waiters.Nodup ∧ (∀ j, j ∈ lock.waiters ↔ if j = i then False else j ∈ c.pollLock.waiters) ∧
    c.pollLock.holder = none ∧ lock.holder = some i := by
  obtain ⟨hholder, hwaiters, hlock⟩ := Lock.grant_eq_some.mp hgrant
  have hnodup := h.nodup
  rw [hwaiters, List.nodup_cons] at hnodup
  refine ⟨hnodup.2, fun j => ?_, hholder, hlock⟩
  by_cases hj : j = i
  · simp [hj, hnodup.1]
  · simp [hj, hwaiters]

/-- The head of the queue is a queued task. -/
theorem granted (h : c.LockInv) {i : ℕ} {lock : Lock ℕ} {t : Task}
    (hgrant : c.pollLock.grant = some (i, lock)) (ht : c.tasks i = some t) :
    t.phase = .queued := by
  obtain ⟨-, hwaiters, -⟩ := Lock.grant_eq_some.mp hgrant
  have hmem : i ∈ c.pollLock.waiters := by
    rw [hwaiters]
    exact List.mem_cons_self
  obtain ⟨t', ht', hphase⟩ := phaseOf_some.mp ((h.queued i).mp hmem)
  rw [ht] at ht'
  cases ht'
  exact hphase

/-- The head of the queue takes the lock and enters `_read_one_notification`. -/
theorem begin (h : c.LockInv) {i : ℕ} {lock : Lock ℕ} {t : Task} (device : BLEDevice)
    (hgrant : c.pollLock.grant = some (i, lock)) (ht : c.tasks i = some t) :
    ({ c with pollLock := lock }.begin w i t device).LockInv := by
  obtain ⟨hnodup, hmem, hfree, hheld⟩ := h.popped hgrant
  refine h.update (u := { t with phase := .reading (Call.start device w.now) }) ht rfl rfl hnodup
    (fun j => ?_) (fun j => ?_)
  · show j ∈ lock.waiters ↔ _
    simp [hmem]
  · show lock.holder = some j ↔ _
    by_cases hj : j = i
    · simp [hj, hheld]
    · simp [hj, hheld, hfree, Ne.symm hj]

/-- The head of the queue takes the lock and gives it back at once. -/
theorem skip (h : c.LockInv) {i : ℕ} {lock : Lock ℕ} {t : Task}
    (hgrant : c.pollLock.grant = some (i, lock)) (ht : c.tasks i = some t) :
    ({ c with pollLock := lock }.leave w i t none .noDevice).LockInv := by
  obtain ⟨hnodup, hmem, hfree, -⟩ := h.popped hgrant
  refine h.update ht (leave_tasks ..) (leave_nextTask ..) ?_ (fun j => ?_) (fun j => ?_)
  · rw [leave_pollLock]
    exact hnodup
  · rw [leave_pollLock]
    show j ∈ lock.waiters ↔ _
    simp [hmem]
  · rw [leave_pollLock]
    show none = some j ↔ _
    simp [hfree]

/-- The task inside `_read_one_notification` holds the lock. -/
theorem holder_of_reading (h : c.LockInv) {i : ℕ} {t : Task} {call : Call}
    (ht : c.tasks i = some t) (hphase : t.phase = .reading call) : c.pollLock.holder = some i :=
  (h.reading i).mpr ⟨call, phaseOf_some.mpr ⟨t, ht, hphase⟩⟩

/-- A task that does not wait keeps the queue as it is. -/
theorem waiters_of_not_queued (h : c.LockInv) {i : ℕ} {t u : Task} (ht : c.tasks i = some t)
    (hphase : t.phase ≠ .queued) (hwaits : u.phase ≠ .queued) (j : ℕ) :
    j ∈ c.pollLock.waiters ↔ if j = i then u.phase = .queued else j ∈ c.pollLock.waiters := by
  by_cases hj : j = i
  · have hnot : i ∉ c.pollLock.waiters := by
      rw [h.queued, phaseOf_some]
      rintro ⟨v, hv, hq⟩
      rw [ht] at hv
      cases hv
      exact hphase hq
    simp [hj, hnot, hwaits]
  · simp [hj]

theorem resume (h : c.LockInv) {i : ℕ} {t : Task} {call call' : Call}
    (ht : c.tasks i = some t) (hphase : t.phase = .reading call) :
    (c.setTask i { t with phase := .reading call' }).LockInv := by
  refine h.update ht rfl rfl h.nodup
    (h.waiters_of_not_queued (u := { t with phase := .reading call' }) ht (by simp [hphase])
      (by simp)) (fun j => ?_)
  have hheld := h.holder_of_reading ht hphase
  show c.pollLock.holder = some j ↔ _
  by_cases hj : j = i
  · simp [hj, hheld]
  · simp [hj]

theorem finish (h : c.LockInv) {i : ℕ} {t : Task} {call call' : Call} {exit : PollExit}
    (ht : c.tasks i = some t) (hphase : t.phase = .reading call) :
    (c.leave w i t (some call') exit).LockInv := by
  have hheld := h.holder_of_reading ht hphase
  refine h.update ht (leave_tasks ..) (leave_nextTask ..) ?_ (fun j => ?_) (fun j => ?_)
  · rw [leave_pollLock]
    exact h.nodup
  · rw [leave_pollLock]
    exact h.waiters_of_not_queued ht (by simp [hphase]) (by simp) j
  · rw [leave_pollLock]
    show none = some j ↔ _
    by_cases hj : j = i
    · simp [hj]
    · simp [hj, hheld, Ne.symm hj]

theorem notify (h : c.LockInv) {i : ℕ} {t : Task} {call : Call} (f : Call → Call)
    (ht : c.tasks i = some t) (hcall : t.phase.call = some call) :
    (c.setTask i { t with phase := t.phase.mapCall f }).LockInv := by
  cases hphase : t.phase with
  | queued =>
    rw [hphase] at hcall
    cases hcall
  | reading call => exact h.resume ht hphase
  | ended call result =>
    refine h.update ht rfl rfl h.nodup
      (h.waiters_of_not_queued (u := { t with phase := Phase.mapCall f (.ended call result) }) ht
        (by simp [hphase]) (by simp [Phase.mapCall])) (fun j => ?_)
    show c.pollLock.holder = some j ↔ _
    by_cases hj : j = i
    · have hnot : ¬ c.Reading i := by
        rintro ⟨call', hreading⟩
        obtain ⟨u, hu, hr⟩ := phaseOf_some.mp hreading
        rw [ht] at hu
        cases hu
        rw [hphase] at hr
        cases hr
      simp [hj, h.reading, hnot, Phase.mapCall]
    · simp [hj]

/-- Every move keeps the lock and the tasks together. -/
theorem move (h : c.LockInv) (hm : Move aes w c c') : c'.LockInv := by
  cases hm with
  | push => exact ⟨h.fresh, h.nodup, h.queued, h.reading⟩
  | add d => exact ⟨h.fresh, h.nodup, h.queued, h.reading⟩
  | tick => exact h.tick
  | arrive source device _ => exact h.arrive source device
  | begin hgrant ht _ => exact h.begin _ hgrant ht
  | skip hgrant ht _ => exact h.skip hgrant ht
  | resume ht hphase _ _ _ => exact h.resume ht hphase
  | finish ht hphase _ _ _ => exact h.finish ht hphase
  | notify ht hcall _ _ _ => exact h.notify _ ht hcall

theorem new (address : String) : (Coordinator.new address).asyncInit.asyncStart.LockInv := by
  constructor <;>
    simp [Coordinator.new, asyncInit, asyncStart, Lock.unlocked, phaseOf, Reading]

end LockInv

end Coordinator

/-- The lock and the tasks agree in every state of a run. -/
theorem Sys.lockInv {aes : Aes} {address : String} {scanInterval : Option ℤ}
    {ok : Sys → Sys.Event → Prop} {s : Sys}
    (h : Reaches (Sys.step aes) ok (Sys.init address scanInterval) s) : s.coord.LockInv :=
  Sys.invariant (P := fun _ c => c.LockInv) (fun _ _ _ hc _ => hc) (fun _ _ _ hc hm => hc.move hm) h
    (.new address)

end GoveeH5086
