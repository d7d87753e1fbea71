import GoveeH5086.Stalled

/-!
# Ticks that wait

The timer starts a tick every `scan_interval`, and a tick does not check whether an earlier one
still waits for `_poll_lock`.

1. `SpacedInv`: the ticks that wait are `scan_interval` apart.
2. `ClearInv`: while only the timer polls and no poll takes that long, every tick finds the lock free.
3. `Sys.waiting_ticks_spaced`: how many ticks wait is bounded by how long the first has waited.
4. `Sys.ticks_pile_up`: it is not bounded otherwise.
-/

namespace GoveeH5086
open BigEndian FifoLock Runs

namespace Coordinator

/-- When task `i` was started, if it is a tick. -/
def tickStart (c : Coordinator) (i : ℕ) : Option ℚ :=
  (c.tasks i).bind fun t => if t.source = .timer then some t.started else none

/-- When the ticks that wait for `_poll_lock` were started, in the order of the queue. -/
def waitingTicks (c : Coordinator) : List ℚ := c.pollLock.waiters.filterMap c.tickStart

section
variable {aes : Aes} {w : World} {c c' : Coordinator}

theorem tickStart_update {i : ℕ} {t u : Task} (ht : c.tasks i = some t)
    (htasks : c'.tasks = Function.update c.tasks i (some u)) (hsource : u.source = t.source)
    (hstarted : u.started = t.started) : c'.tickStart = c.tickStart := by
  funext j
  unfold tickStart
  rw [htasks]
  by_cases hji : j = i
  · rw [hji, Function.update_self, ht, Option.bind_some, Option.bind_some, hsource, hstarted]
  · rw [Function.update_of_ne hji]

/-- A tick that arrives joins the end. -/
theorem arrive_waitingTicks (h : c.LockInv) (source : Source) (device : Option BLEDevice) :
    (c.arrive w source device).waitingTicks =
      c.waitingTicks ++ if source = .timer then [w.now] else [] := by
  have hold : ∀ i ∈ c.pollLock.waiters, (c.arrive w source device).tickStart i = c.tickStart i := by
    intro i hi
    have hne : i ≠ c.nextTask := by
      rintro rfl
      have hphase := (h.queued c.nextTask).mp hi
      rw [h.phaseOf_nextTask] at hphase
      cases hphase
    unfold tickStart
    rw [show (c.arrive w source device).tasks i = c.tasks i from setTask_of_ne c _ hne]
  have hnew : (c.arrive w source device).tickStart c.nextTask =
      if source = .timer then some w.now else none := by
    unfold tickStart
    rw [show (c.arrive w source device).tasks c.nextTask = _ from setTask_self ..]
    rfl
  show (c.pollLock.waiters ++ [c.nextTask]).filterMap _ = _
  rw [List.filterMap_append, List.filterMap_congr hold, List.filterMap_cons, hnew]
  cases source <;> rfl

/-- The head of the queue leaves it. -/
theorem woken_waitingTicks {i : ℕ} {lock : Lock ℕ} (hgrant : c.pollLock.grant = some (i, lock))
    (hlock : c'.pollLock.waiters = lock.waiters) (hstart : c'.tickStart = c.tickStart) :
    c'.waitingTicks.Sublist c.waitingTicks := by
  obtain ⟨-, hwaiters, -⟩ := Lock.grant_eq_some.mp hgrant
  unfold waitingTicks
  rw [hlock, hstart, hwaiters]
  exact (List.sublist_cons_self i lock.waiters).filterMap _

/-- A move other than an arrival adds no tick to the queue. -/
theorem Move.waitingTicks_sublist (hm : Move aes w c c') (hnext : c'.nextTask = c.nextTask) :
    c'.waitingTicks.Sublist c.waitingTicks := by
  have same : c'.pollLock.waiters = c.pollLock.waiters → c'.tickStart = c.tickStart →
      c'.waitingTicks.Sublist c.waitingTicks := by
    intro hwaiters hstart
    unfold waitingTicks
    rw [hwaiters, hstart]
  cases hm with
  | push | add _ | tick => exact .refl _
  | arrive _ _ _ => exact absurd hnext (Nat.succ_ne_self _)
  | @begin i lock t device hgrant ht _ =>
    exact woken_waitingTicks hgrant rfl
      (tickStart_update (u := { t with phase := .reading (Call.start device w.now) })
        ht rfl rfl rfl)
  | skip hgrant ht _ =>
    refine woken_waitingTicks hgrant ?_ (tickStart_update ht (leave_tasks ..) rfl rfl)
    rw [leave_pollLock]
    rfl
  | @resume i t call call' o ht _ _ _ _ =>
    exact same rfl (tickStart_update (u := { t with phase := .reading call' }) ht rfl rfl rfl)
  | finish ht _ _ _ _ =>
    refine same ?_ (tickStart_update ht (leave_tasks ..) rfl rfl)
    rw [leave_pollLock]
    rfl
  | @notify i n k t call raw ht _ _ _ _ =>
    exact same rfl (tickStart_update
      (u := { t with phase := t.phase.mapCall fun call => call.absorb aes n raw }) ht rfl rfl rfl)

theorem Settles.waitingTicks_sublist {free : Bool} (h : Settles aes w free c c') :
    c'.waitingTicks.Sublist c.waitingTicks := by
  cases h with
  | waits _ => exact .refl _
  | begins _ hgrant ht hd =>
    exact (Move.begin hgrant ht hd : Move aes w c _).waitingTicks_sublist rfl
  | skips _ hgrant ht hd =>
    exact (Move.skip hgrant ht hd : Move aes w c _).waitingTicks_sublist (leave_nextTask ..)

end

end Coordinator

/-! ## The ticks that wait are spaced -/

/-- The ticks that wait are `scan_interval` apart, and none is younger than the last tick. -/
structure SpacedInv (s : Sys) : Prop where
  lock : s.coord.LockInv
  clock : s.coord.ticks * (s.world.scanInterval : ℚ) ≤ s.world.now
  spaced : s.coord.waitingTicks.Pairwise fun x y => x + (s.world.scanInterval : ℚ) ≤ y
  old : ∀ x ∈ s.coord.waitingTicks, x ≤ s.coord.ticks * (s.world.scanInterval : ℚ)

namespace SpacedInv

variable {aes : Aes} {s s' : Sys}

/-- The queue has no ticks but the old ones. -/
theorem fewer {c : Coordinator} (h : SpacedInv s) (hlock : c.LockInv)
    (hsub : c.waitingTicks.Sublist s.coord.waitingTicks) (hticks : c.ticks = s.coord.ticks) :
    SpacedInv ⟨s.world, c⟩ := by
  refine ⟨hlock, ?_, h.spaced.sublist hsub, fun x hx => ?_⟩
  · rw [hticks]
    exact h.clock
  · rw [hticks]
    exact h.old x (hsub.subset hx)

/-- A tick is counted, and may wait behind the old ones. -/
theorem counted {c : Coordinator} (h : SpacedInv s) (hlock : c.LockInv)
    (hsub : c.waitingTicks.Sublist (s.coord.waitingTicks ++ [s.world.now]))
    (hticks : c.ticks = s.coord.ticks + 1)
    (hnow : s.world.now = (s.coord.ticks + 1) * (s.world.scanInterval : ℚ)) :
    SpacedInv ⟨s.world, c⟩ := by
  have hclock := h.clock
  have hcast : (c.ticks : ℚ) = s.coord.ticks + 1 := by
    rw [hticks]
    push_cast
    rfl
  have hall : (s.coord.waitingTicks ++ [s.world.now]).Pairwise
      fun x y => x + (s.world.scanInterval : ℚ) ≤ y := by
    rw [List.pairwise_append]
    refine ⟨h.spaced, List.pairwise_singleton _ _, fun x hx y hy => ?_⟩
    rw [List.mem_singleton.mp hy, hnow]
    linarith [h.old x hx]
  refine ⟨hlock, ?_, hall.sublist hsub, fun x hx => ?_⟩
  · rw [hcast]
    exact hnow.ge
  · rw [hcast, ← hnow]
    rcases List.mem_append.mp (hsub.subset hx) with hold | hnew
    · exact (h.old x hold).trans hclock
    · exact (List.mem_singleton.mp hnew).le

theorem step {e : Sys.Event} (h : SpacedInv s) (hpunctual : s.Punctual e)
    (hstep : s.step aes e = some s') : SpacedInv s' := by
  cases e with
  | world e =>
    obtain ⟨w, hw, rfl⟩ := Option.map_eq_some_iff.mp hstep
    have hlater := World.step_later hw
    refine ⟨h.lock, ?_, ?_, ?_⟩
    · rw [hlater.scanInterval]
      exact h.clock.trans hlater.now
    · rw [hlater.scanInterval]
      exact h.spaced
    · rw [hlater.scanInterval]
      exact h.old
  | coord e =>
    obtain ⟨c, hc, rfl⟩ := Option.map_eq_some_iff.mp hstep
    have hlock := Coordinator.step_invariant (P := Coordinator.LockInv)
      (fun _ _ hl hm => hl.move hm) hc h.lock
    cases Coordinator.step_stepped hc with
    | skipped _ => exact h.counted hlock (List.sublist_append_left _ _) rfl hpunctual
    | @ticked manager _ _ hsettles =>
      have harrived := Coordinator.arrive_waitingTicks (w := s.world) h.lock.tick .timer manager
      exact h.counted hlock (harrived ▸ hsettles.waitingTicks_sublist) hsettles.ticks hpunctual
    | @advertised service manager _ hsettles =>
      have harrived :=
        Coordinator.arrive_waitingTicks (w := s.world) h.lock .adv (service <|> manager)
      rw [if_neg (by simp), List.append_nil] at harrived
      exact h.fewer hlock (harrived ▸ hsettles.waitingTicks_sublist) hsettles.ticks
    | moved _ _ hm => exact h.fewer hlock (hm.move.waitingTicks_sublist hm.nextTask) hm.ticks

/-- The first that waits has waited for all that came after it. -/
theorem first_le {S bound : ℚ} : ∀ {first : ℚ} {rest : List ℚ},
    (first :: rest).Pairwise (fun x y => x + S ≤ y) → (∀ x ∈ first :: rest, x ≤ bound) →
    first + rest.length * S ≤ bound
  | first, [], _, hbound => by
    simpa using hbound first (by simp)
  | first, second :: rest, hspaced, hbound => by
    obtain ⟨hfirst, hrest⟩ := List.pairwise_cons.mp hspaced
    have hnext := hfirst second (by simp)
    have ih := first_le hrest fun x hx => hbound x (List.mem_cons_of_mem _ hx)
    rw [List.length_cons]
    push_cast
    linarith

end SpacedInv

/-! ## None waits while only the timer polls -/

namespace Sys

/-- No advertisement polls. -/
def Unadvertised : Event → Prop
  | .coord (.goveePoll _ _) => False
  | _ => True

/-- The poll in progress has taken less than `scan_interval`. -/
def Brief (s : Sys) : Prop :=
  ∀ call ∈ s.coord.current, s.world.now - call.begun < s.world.scanInterval

/-- The events of a run in which only the timer polls and no poll takes as long as `scan_interval`.
Polls may fail, ticks may find no device, and Home Assistant may stop and start. -/
def TimerAlone (aes : Aes) (s : Sys) (e : Event) : Prop :=
  s.Punctual e ∧ Unadvertised e ∧ ∀ s', s.step aes e = some s' → s'.Brief

end Sys

/-- Nobody waits, and the poll in progress was begun by a tick at the latest. -/
structure ClearInv (s : Sys) : Prop where
  lock : s.coord.LockInv
  clock : s.coord.ticks * (s.world.scanInterval : ℚ) ≤ s.world.now
  brief : s.Brief
  queue : s.coord.pollLock.waiters = []
  begun : ∀ i call, s.coord.phaseOf i = some (.reading call) →
    call.begun ≤ s.coord.ticks * (s.world.scanInterval : ℚ)

namespace Coordinator

variable {aes : Aes} {w : World} {c c' : Coordinator} {bound : ℚ}

/-- The calls in progress were begun by `bound`, if those that begin now are. -/
theorem Move.begun_le (hm : Move aes w c c') (hnow : c.pollLock.grant ≠ none → w.now ≤ bound)
    (h : ∀ i call, c.phaseOf i = some (.reading call) → call.begun ≤ bound) :
    ∀ i call, c'.phaseOf i = some (.reading call) → call.begun ≤ bound := by
  refine hm.readings (fun hgrant _ => hnow hgrant) ?_ ?_ h
  · intro call call' o _ hr hcall
    rw [(Call.resume_resumed hr).begun]
    exact hcall
  · intro call n raw hcall
    rcases Call.absorb_cases aes call n raw with hsame | ⟨reading, -, -, hnew⟩
    · rw [hsame]
      exact hcall
    · rw [hnew]
      exact hcall

/-- The only one that waits is woken. -/
theorem Settles.queue (h : Settles aes w true c c') {i : ℕ} (hone : c.pollLock.waiters = [i]) :
    c'.pollLock.waiters = [] := by
  have woken : ∀ {j : ℕ} {lock : Lock ℕ}, c.pollLock.grant = some (j, lock) →
      lock.waiters = [] := by
    intro j lock hgrant
    obtain ⟨-, hwaiters, -⟩ := Lock.grant_eq_some.mp hgrant
    rw [hone] at hwaiters
    exact (List.cons.inj hwaiters).2.symm
  cases h with
  | waits hbusy => cases hbusy
  | begins _ hgrant _ _ => exact woken hgrant
  | skips _ hgrant _ _ =>
    have hempty := woken hgrant
    rw [leave_pollLock]
    exact hempty

/-- Nobody joins the queue but a task that arrives. -/
theorem Move.queue (hm : Move aes w c c') (hnext : c'.nextTask = c.nextTask)
    (hqueue : c.pollLock.waiters = []) : c'.pollLock.waiters = [] := by
  cases hm with
  | arrive _ _ _ => exact absurd hnext (Nat.succ_ne_self _)
  | begin hgrant _ _ | skip hgrant _ _ =>
    obtain ⟨-, hwaiters, -⟩ := Lock.grant_eq_some.mp hgrant
    rw [hqueue] at hwaiters
    cases hwaiters
  | finish _ _ _ _ _ =>
    rw [leave_pollLock]
    exact hqueue
  | push | add _ | tick | resume _ _ _ _ _ | notify _ _ _ _ _ => exact hqueue

end Coordinator

namespace ClearInv

variable {aes : Aes} {s s' : Sys}

/-- A tick comes when the poll that the tick before may have begun is over. -/
theorem free_at_tick (h : ClearInv s)
    (hnow : s.world.now = (s.coord.ticks + 1) * (s.world.scanInterval : ℚ)) :
    s.coord.pollLock.free = true := by
  refine Lock.free_iff.mpr ⟨?_, h.queue⟩
  cases hholder : s.coord.pollLock.holder with
  | none => rfl
  | some i =>
    obtain ⟨call, hphase⟩ := (h.lock.reading i).mp hholder
    have hyoung := h.brief call (h.lock.current_iff.mpr ⟨i, hphase⟩)
    have hbegun := h.begun i call hphase
    linarith

/-- A tick that is not skipped is served at once. -/
theorem ticked (h : ClearInv s) {c : Coordinator} {manager : Option BLEDevice}
    (hnow : s.world.now = (s.coord.ticks + 1) * (s.world.scanInterval : ℚ))
    (hsettles : Coordinator.Settles aes s.world s.coord.pollLock.free
      ({ s.coord with ticks := s.coord.ticks + 1 }.arrive s.world .timer manager) c)
    (hlock : c.LockInv) (hbrief : Sys.Brief ⟨s.world, c⟩) : ClearInv ⟨s.world, c⟩ := by
  rw [h.free_at_tick hnow] at hsettles
  have hticks : (c.ticks : ℚ) = s.coord.ticks + 1 := by
    rw [hsettles.ticks]
    show ((s.coord.ticks + 1 : ℕ) : ℚ) = _
    push_cast
    rfl
  have hone : ({ s.coord with ticks := s.coord.ticks + 1 }.arrive s.world .timer
      manager).pollLock.waiters = [s.coord.nextTask] := by
    show s.coord.pollLock.waiters ++ [s.coord.nextTask] = _
    rw [h.queue]
    rfl
  refine ⟨hlock, ?_, hbrief, hsettles.queue hone, ?_⟩
  · rw [hticks]
    exact hnow.ge
  · rw [hticks, ← hnow]
    refine hsettles.invariant (P := fun c => ∀ i call, c.phaseOf i = some (.reading call) →
      call.begun ≤ s.world.now) (fun _ _ hc hm => hm.begun_le (fun _ => le_rfl) hc) ?_
    refine Coordinator.setTask_readings
      (fun i call hphase => (h.begun i call hphase).trans h.clock) fun call hcall => ?_
    cases hcall

theorem step {e : Sys.Event} (h : ClearInv s) (hok : s.TimerAlone aes e)
    (hstep : s.step aes e = some s') : ClearInv s' := by
  obtain ⟨hpunctual, hunadvertised, hbrief⟩ := hok
  have hyoung := hbrief s' hstep
  cases e with
  | world e =>
    obtain ⟨w, hw, rfl⟩ := Option.map_eq_some_iff.mp hstep
    have hlater := World.step_later hw
    refine ⟨h.lock, ?_, hyoung, h.queue, ?_⟩
    · rw [hlater.scanInterval]
      exact h.clock.trans hlater.now
    · rw [hlater.scanInterval]
      exact h.begun
  | coord e =>
    obtain ⟨c, hc, rfl⟩ := Option.map_eq_some_iff.mp hstep
    have hlock := Coordinator.step_invariant (P := Coordinator.LockInv)
      (fun _ _ hl hm => hl.move hm) hc h.lock
    cases Coordinator.step_stepped hc with
    | skipped _ =>
      have hnow : s.world.now = (s.coord.ticks + 1) * (s.world.scanInterval : ℚ) := hpunctual
      have hcast : (s.coord.ticks : ℚ) + 1 = (s.coord.ticks + 1 : ℕ) := by
        push_cast
        rfl
      have hclock := h.clock
      rw [hnow, hcast] at hclock
      refine ⟨hlock, ?_, hyoung, h.queue, fun i call hphase => (h.begun i call hphase).trans hclock⟩
      show ((s.coord.ticks + 1 : ℕ) : ℚ) * _ ≤ _
      rw [← hcast]
      exact hnow.ge
    | ticked _ hsettles => exact h.ticked hpunctual hsettles hlock hyoung
    | advertised _ => exact hunadvertised.elim
    | moved _ _ hm =>
      have hnobody : ¬ s.coord.pollLock.grant ≠ none := by
        intro hsome
        obtain ⟨⟨i, lock⟩, hgrant⟩ := Option.ne_none_iff_exists'.mp hsome
        obtain ⟨-, hwaiters, -⟩ := Lock.grant_eq_some.mp hgrant
        rw [h.queue] at hwaiters
        cases hwaiters
      refine ⟨hlock, ?_, hyoung, hm.move.queue hm.nextTask h.queue, ?_⟩
      · rw [hm.ticks]
        exact h.clock
      · rw [hm.ticks]
        exact hm.move.begun_le (fun hsome => absurd hsome hnobody) h.begun

end ClearInv

/-! ## How many ticks wait -/

namespace Sys

variable {aes : Aes} {address : String} {scanInterval : Option ℤ} {s : Sys}

theorem spacedInv (h : Reaches (step aes) Punctual (init address scanInterval) s) :
    SpacedInv s := by
  refine h.invariant ⟨.new address, ?_, ?_, ?_⟩ fun _ _ _ ha hok hstep => ha.step hok hstep
  all_goals simp [init, Coordinator.new, Coordinator.asyncInit, Coordinator.asyncStart,
    Coordinator.waitingTicks, Lock.unlocked]

theorem clearInv (h : Reaches (step aes) (TimerAlone aes) (init address scanInterval) s) :
    ClearInv s := by
  refine h.invariant ⟨.new address, ?_, ?_, ?_, ?_⟩ fun _ _ _ ha hok hstep => ha.step hok hstep
  all_goals simp [init, Coordinator.new, Coordinator.asyncInit, Coordinator.asyncStart, Brief,
    Coordinator.current, Coordinator.phaseOf, Lock.unlocked]

/-- The ticks that wait started `scan_interval` apart, so two of them wait only if the first has
waited that long; none waits while only the timer polls and every poll takes less. -/
theorem waiting_ticks_spaced (h : Reaches (step aes) Punctual (init address scanInterval) s) :
    s.coord.waitingTicks.Pairwise (fun x y => x + (s.world.scanInterval : ℚ) ≤ y) ∧
    (∀ first rest, s.coord.waitingTicks = first :: rest →
      first + rest.length * (s.world.scanInterval : ℚ) ≤ s.world.now) ∧
    ((∀ x ∈ s.coord.waitingTicks, s.world.now - x < s.world.scanInterval) →
      s.coord.waitingTicks.length ≤ 1) ∧
    (Reaches (step aes) (TimerAlone aes) (init address scanInterval) s →
      s.coord.waitingTicks = []) := by
  have hinv := spacedInv h
  have hpast : ∀ x ∈ s.coord.waitingTicks, x ≤ s.world.now :=
    fun x hx => (hinv.old x hx).trans hinv.clock
  refine ⟨hinv.spaced, fun first rest heq => ?_, fun hyoung => ?_, fun halone => ?_⟩
  · exact SpacedInv.first_le (heq ▸ hinv.spaced) (heq ▸ hpast)
  · match hwaiting : s.coord.waitingTicks with
    | [] | [_] => simp
    | first :: second :: rest =>
      have hspaced := hinv.spaced
      rw [hwaiting] at hspaced hyoung hpast
      have hnext := (List.pairwise_cons.mp hspaced).1 second (by simp)
      have hfirst := hyoung first (by simp)
      have hsecond := hpast second (by simp)
      linarith
  · rw [Coordinator.waitingTicks, (clearInv halone).queue]
    rfl

/-! ## Ticks pile up -/

/-- The poll of the first tick hangs, no poll has succeeded yet, and `n` ticks wait for it. -/
structure Stuck (n : ℕ) (s : Sys) : Prop where
  reached : Reaches (step capturedAes) Punctual (init plug.address none) s
  state : s.world.state = .running
  option : s.world.scanIntervalOption = none
  clock : s.world.now = s.coord.ticks * 30
  live : s.coord.fallbackLive = true
  busy : s.coord.pollLock.free = false
  poll : s.coord.lastSuccessfulPoll = none
  waiting : s.coord.waitingTicks.length = n

/-- The state after given events of a run with a punctual timer. -/
def punctualAfter (events : List Event) : Sys :=
  outcome (guarded (step capturedAes) fun s e => decide (s.Punctual e)) (init plug.address none)
    events

theorem punctualAfter_reached {events : List Event}
    (h : (run (guarded (step capturedAes) fun s e => decide (s.Punctual e))
      (init plug.address none) events).isSome = true) :
    Reaches (step capturedAes) Punctual (init plug.address none) (punctualAfter events) :=
  reaches_outcome h fun _ _ => of_decide_eq_true

def nextTick : List Event := [.world (.advance 30), .coord (.fallbackTick (some plug))]

theorem stuck_zero : Stuck 0 (punctualAfter nextTick) :=
  ⟨punctualAfter_reached (by decide +kernel), by decide +kernel, by decide +kernel,
    by decide +kernel, by decide +kernel, by decide +kernel, by decide +kernel, by decide +kernel⟩

/-- Another tick joins the queue. -/
theorem Stuck.succ {n : ℕ} {s : Sys} (h : Stuck n s) : ∃ s', Stuck (n + 1) s' := by
  have hinterval : s.world.scanInterval = 30 := by
    rw [World.scanInterval, h.option]
    rfl
  obtain ⟨w, hw⟩ : ∃ w, w = { s.world with now := s.world.now + 30 } := ⟨_, rfl⟩
  have hinterval' : w.scanInterval = 30 := by
    rw [hw]
    exact hinterval
  have hnow : w.now = (s.coord.ticks + 1) * 30 := by
    rw [hw]
    show s.world.now + 30 = _
    rw [h.clock]
    ring
  have hlater : Reaches (step capturedAes) Punctual (init plug.address none) ⟨w, s.coord⟩ := by
    refine h.reached.tail (e := .world (.advance 30)) ?_ ?_
    · show s.world.now + 30 ≤ _
      rw [hinterval, h.clock]
      push_cast
      linarith
    · simp [step, World.step, hw]
  have htick : Coordinator.fallbackTick w { s.coord with ticks := s.coord.ticks + 1 } (some plug) =
      { s.coord with ticks := s.coord.ticks + 1 }.arrive w .timer (some plug) := by
    have hrunning : w.state = .running := by
      rw [hw]
      exact h.state
    have hspawn := Coordinator.fallbackTick_never (c := { s.coord with ticks := s.coord.ticks + 1 })
      hrunning h.poll (some plug)
    have harrive := Coordinator.spawn_busy (w := w)
      (c := { s.coord with ticks := s.coord.ticks + 1 }) h.busy .timer (some plug)
    exact hspawn.trans harrive
  have hstep : Sys.step capturedAes ⟨w, s.coord⟩ (.coord (.fallbackTick (some plug))) =
      some ⟨w, { s.coord with ticks := s.coord.ticks + 1 }.arrive w .timer (some plug)⟩ := by
    rw [← htick]
    simp only [step, Coordinator.step, h.live, if_true, Option.map_some]
  refine ⟨_, hlater.tail ?_ hstep, ?_, ?_, ?_, h.live, ?_, h.poll, ?_⟩
  · show w.now = _
    rw [hinterval', hnow]
    push_cast
    rfl
  · rw [hw]
    exact h.state
  · rw [hw]
    exact h.option
  · show w.now = ((s.coord.ticks + 1 : ℕ) : ℚ) * 30
    rw [hnow]
    push_cast
    rfl
  · show (s.coord.pollLock.enqueue _).free = false
    simp [Lock.free, Lock.enqueue]
  · rw [Coordinator.arrive_waitingTicks (spacedInv h.reached).lock.tick, List.length_append]
    show s.coord.waitingTicks.length + 1 = n + 1
    rw [h.waiting]

theorem stuck (n : ℕ) : ∃ s, Stuck n s := by
  induction n with
  | zero => exact ⟨_, stuck_zero⟩
  | succ n ih =>
    obtain ⟨s, hs⟩ := ih
    exact hs.succ

def threeTicks : List Event := nextTick ++ nextTick ++ nextTick

/-- While one poll hangs, every tick joins the queue: two wait after the third, and so on without
bound. -/
theorem ticks_pile_up :
    (Reaches (step capturedAes) Punctual (init plug.address none) (punctualAfter threeTicks) ∧
      (punctualAfter threeTicks).coord.waitingTicks = [60, 90]) ∧
    ∀ n, ∃ s, Reaches (step capturedAes) Punctual (init plug.address none) s ∧
      s.coord.waitingTicks.length = n := by
  refine ⟨⟨punctualAfter_reached (by decide +kernel), by decide +kernel⟩, fun n => ?_⟩
  obtain ⟨s, hs⟩ := stuck n
  exact ⟨s, hs.reached, hs.waiting⟩

theorem waiting_ticks_spaced_threeTicks :
    (60 : ℚ) + ([90] : List ℚ).length * ((punctualAfter threeTicks).world.scanInterval : ℚ) ≤
      (punctualAfter threeTicks).world.now :=
  (waiting_ticks_spaced (punctualAfter_reached (by decide +kernel : (run (guarded
    (step capturedAes) fun s e => decide (s.Punctual e)) (init plug.address none)
    threeTicks).isSome = true))).2.1 60 [90] (by decide +kernel)

end Sys

end GoveeH5086
