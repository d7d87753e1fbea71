import GoveeH5086.PollState
import GoveeH5086.Library.Cadence

/-!
# When advertisements stall

The timer ticks at every multiple of `scan_interval` and nothing else polls. Such a run is compared
with the periodic trigger of `Cadence`: a tick is a trigger, the end of a poll is the end of an
attempt.

1. `Tracks`, `Sys.tracks_step`, `Sys.refines_cadence`: a stalled run of the coordinator is a run of
   the periodic trigger. Ticks, starts and ends of polls are each one lemma of `Tracks`.
2. `Sys.polls_of_ticks`: if every poll succeeds, `n` ticks make `n` polls only for `n ≤ 1`.
3. `Sys.recently_polled_iff`: if no two polls in a row fail, exactly when the sensors are available.
-/

namespace GoveeH5086
open BigEndian FifoLock Runs

/-! ## Stalled runs -/

/-- The ends of polls in a log, oldest first. -/
def pollRecords (log : List LogEntry) : List PollRecord :=
  log.filterMap fun
    | .completed record => some record
    | _ => none

def PollRecord.succeeded (r : PollRecord) : Bool := r.reading.isSome

def PollRecord.duration (r : PollRecord) : ℚ := r.completed - r.begun

namespace Sys

/-- `async_track_time_interval`: tick `n` comes at `n` times `scan_interval`, not earlier and not
later. -/
def Punctual (s : Sys) : Event → Prop
  | .world (.advance dt) => s.world.now + dt ≤ (s.coord.ticks + 1) * s.world.scanInterval
  | .coord (.fallbackTick _) => s.world.now = (s.coord.ticks + 1) * s.world.scanInterval
  | _ => True

/-- Home Assistant keeps running, no advertisement polls, and every tick finds a device. -/
def Undisturbed : Event → Prop
  | .world (.setState _) => False
  | .coord (.goveePoll _ _) => False
  | .coord (.fallbackTick manager) => manager ≠ none
  | _ => True

/-- Every poll takes more than no time and less than `scan_interval`. -/
def Timely (s : Sys) : Prop :=
  (∀ r ∈ pollRecords s.coord.log, 0 < r.duration ∧ r.duration < s.world.scanInterval) ∧
  ∀ call ∈ s.coord.current, s.world.now - call.begun < s.world.scanInterval

/-- The events of a run in which only the timer polls. -/
def Stalled (aes : Aes) (s : Sys) (e : Event) : Prop :=
  s.Punctual e ∧ Undisturbed e ∧ ∀ s', s.step aes e = some s' → s'.Timely

instance (s : Sys) : (e : Event) → Decidable (s.Punctual e)
  | .world (.advance _) => inferInstanceAs (Decidable (_ ≤ _))
  | .coord (.fallbackTick _) => inferInstanceAs (Decidable (_ = _))
  | .world (.setState _) | .world (.emit _) | .coord (.goveePoll _ _) | .coord .grant
  | .coord (.resume _ _) | .coord (.notify _ _) | .coord .updateListeners
  | .coord (.addSensor _) => isTrue trivial

instance : (e : Event) → Decidable (Undisturbed e)
  | .world (.setState _) | .coord (.goveePoll _ _) => isFalse id
  | .coord (.fallbackTick _) => inferInstanceAs (Decidable (_ ≠ _))
  | .world (.advance _) | .world (.emit _) | .coord .grant | .coord (.resume _ _)
  | .coord (.notify _ _) | .coord .updateListeners | .coord (.addSensor _) => isTrue trivial

instance (s : Sys) : Decidable s.Timely := inferInstanceAs (Decidable (_ ∧ _))

instance (aes : Aes) (s : Sys) (e : Event) : Decidable (s.Stalled aes e) :=
  inferInstanceAs (Decidable (_ ∧ _ ∧ ∀ s' ∈ s.step aes e, s'.Timely))

/-- The state after given events of a stalled run, on a plug whose packets decode to the captured
record. -/
def stalledAfter (events : List Event) : Sys :=
  outcome (guarded (step capturedAes) fun s e => decide (s.Stalled capturedAes e))
    (init plug.address none) events

theorem stalledAfter_reached {events : List Event}
    (h : (run (guarded (step capturedAes) fun s e => decide (s.Stalled capturedAes e))
      (init plug.address none) events).isSome = true) :
    Reaches (step capturedAes) (Stalled capturedAes) (init plug.address none)
      (stalledAfter events) :=
  reaches_outcome h fun _ _ => of_decide_eq_true

end Sys

/-! ## The log -/

theorem pollRecords_append (log log' : List LogEntry) :
    pollRecords (log ++ log') = pollRecords log ++ pollRecords log' :=
  List.filterMap_append

namespace Coordinator

theorem leave_pollRecords (w : World) (c : Coordinator) (i : ℕ) (t : Task) (call : Option Call)
    (exit : PollExit) : pollRecords (c.leave w i t call exit).log = pollRecords c.log ++
      [⟨t.source, (call.map Call.begun).getD w.now, w.now, exit.obtained⟩] := by
  rw [leave_log, pollRecords_append]
  rfl

/-- Every task comes from the timer. -/
def TimerOnly (c : Coordinator) : Prop := ∀ i t, c.tasks i = some t → t.source = .timer

theorem TimerOnly.update {c c' : Coordinator} (h : c.TimerOnly) {i : ℕ} {u : Task}
    (htasks : c'.tasks = Function.update c.tasks i (some u)) (hu : u.source = .timer) :
    c'.TimerOnly := by
  intro j t hj
  rcases update_eq_some (htasks ▸ hj) with ⟨-, rfl⟩ | ⟨-, hold⟩
  · exact hu
  · exact h j t hold

end Coordinator

/-! ## A stalled run is a run of the periodic trigger -/

/-- The record of an attempt. -/
def recordOf (period : ℚ) (a : Cadence.Attempt ℚ PowerReading) : PollRecord :=
  ⟨.timer, a.tick * period, a.finished period, a.result⟩

/-- The coordinator is in the state `a` of a trigger of period `S`. -/
structure Tracks (S : ℤ) (s : Sys) (a : Cadence.State ℚ PowerReading) : Prop where
  lock : s.coord.LockInv
  timer : s.coord.TimerOnly
  timely : s.Timely
  running : s.world.state = .running
  interval : s.world.scanInterval = S
  ticks : s.coord.ticks = a.ticks
  since : a.ticks * (S : ℚ) ≤ s.world.now
  before : a.ticks ≠ 0 → s.world.now ≤ (a.ticks + 1) * (S : ℚ)
  queue : s.coord.pollLock.waiters = []
  busy : a.busy = s.coord.pollLock.holder.isSome
  begun : ∀ i call, s.coord.phaseOf i = some (.reading call) → call.begun = a.ticks * (S : ℚ)
  records : pollRecords s.coord.log = a.done.map (recordOf S)
  polls : pollsMade s.coord.log = a.attempts
  poll : s.coord.lastSuccessfulPoll = a.lastSuccess.map (Cadence.Attempt.finished (S : ℚ))

namespace Tracks

variable {aes : Aes} {S : ℤ} {s s' : Sys} {a : Cadence.State ℚ PowerReading} {c : Coordinator}

/-- Nothing that counts has changed. -/
theorem keep (h : Tracks S s a) (hlock : c.LockInv) (htimer : c.TimerOnly)
    (htimely : Sys.Timely ⟨s.world, c⟩) (hticks : c.ticks = s.coord.ticks)
    (hpollLock : c.pollLock = s.coord.pollLock) (hlog : c.log = s.coord.log)
    (hpoll : c.lastSuccessfulPoll = s.coord.lastSuccessfulPoll)
    (hbegun : ∀ i call, c.phaseOf i = some (.reading call) → call.begun = a.ticks * (S : ℚ)) :
    Tracks S ⟨s.world, c⟩ a where
  lock := hlock
  timer := htimer
  timely := htimely
  running := h.running
  interval := h.interval
  ticks := hticks.trans h.ticks
  since := h.since
  before := h.before
  queue := hpollLock ▸ h.queue
  busy := hpollLock ▸ h.busy
  begun := hbegun
  records := hlog ▸ h.records
  polls := hlog ▸ h.polls
  poll := hpoll.trans h.poll

/-- When a tick comes, the poll of the tick before is over. -/
theorem idle_at_tick (h : Tracks S s a) (hnow : s.world.now = (s.coord.ticks + 1) * (S : ℚ)) :
    s.coord.pollLock.holder = none := by
  cases hholder : s.coord.pollLock.holder with
  | none => rfl
  | some i =>
    obtain ⟨call, hphase⟩ := (h.lock.reading i).mp hholder
    have hlt := h.timely.2 call (h.lock.current_iff.mpr ⟨i, hphase⟩)
    have hbegun := h.begun i call hphase
    rw [hnow, hbegun, h.interval, h.ticks] at hlt
    linarith

/-- The age check of a tick is the test of the trigger. -/
theorem gate_iff (h : Tracks S s a) (hnow : s.world.now = (s.coord.ticks + 1) * (S : ℚ)) :
    s.coord.GateOpen s.world ↔ a.recent (S : ℚ) = false := by
  unfold Coordinator.GateOpen Coordinator.secondsSinceLastPoll Cadence.State.recent
  rw [h.poll]
  cases a.lastSuccess with
  | none => simp [h.running]
  | some x => simp [h.running, h.interval, hnow, h.ticks]

/-- The clock, once the tick is counted. -/
theorem clock_at_tick (h : Tracks S s a) (hnow : s.world.now = (s.coord.ticks + 1) * (S : ℚ)) :
    s.world.now = ((a.ticks + 1 : ℕ) : ℚ) * S ∧
      s.world.now ≤ (((a.ticks + 1 : ℕ) : ℚ) + 1) * S := by
  have hsince := h.since
  rw [h.ticks] at hnow
  push_cast
  exact ⟨hnow, by linarith⟩

/-- Time passes, up to the next tick at most. -/
theorem world (h : Tracks S s a) {e : World.Event} {w : World} (hok : s.Punctual (.world e))
    (hundisturbed : Sys.Undisturbed (.world e)) (hstep : s.world.step e = some w)
    (htimely : Sys.Timely ⟨w, s.coord⟩) : Tracks S ⟨w, s.coord⟩ a := by
  have hlater := World.step_later hstep
  obtain ⟨hrunning, hbefore⟩ : w.state = .running ∧
      (a.ticks ≠ 0 → w.now ≤ (a.ticks + 1) * (S : ℚ)) := by
    cases e with
    | advance dt =>
      obtain ⟨-, heq⟩ := Option.ite_none_right_eq_some.mp hstep
      cases heq
      refine ⟨h.running, fun _ => ?_⟩
      simp only [Sys.Punctual, h.interval, h.ticks] at hok
      exact hok
    | setState state => exact hundisturbed.elim
    | emit raw =>
      cases hstep
      exact ⟨h.running, h.before⟩
  exact ⟨h.lock, h.timer, htimely, hrunning, hlater.scanInterval.trans h.interval, h.ticks,
    h.since.trans hlater.now, hbefore, h.queue, h.busy, h.begun, h.records, h.polls, h.poll⟩

/-- A tick is skipped, and so is the trigger. -/
theorem skipped (h : Tracks S s a) (hnow : s.world.now = (s.coord.ticks + 1) * (S : ℚ))
    (hclosed : ¬ s.coord.GateOpen s.world)
    (htimely : Sys.Timely ⟨s.world, { s.coord with ticks := s.coord.ticks + 1 }⟩) :
    ∃ a', Cadence.step (S : ℚ) a .tick = some a' ∧
      Tracks S ⟨s.world, { s.coord with ticks := s.coord.ticks + 1 }⟩ a' := by
  have hholder := h.idle_at_tick hnow
  have hidle : a.busy = false := by
    rw [h.busy, hholder]
    rfl
  have hrecent : a.recent (S : ℚ) = true := by
    by_contra hnot
    exact hclosed ((h.gate_iff hnow).mpr (Bool.eq_false_iff.mpr hnot))
  obtain ⟨hclock, hbefore⟩ := h.clock_at_tick hnow
  refine ⟨⟨a.ticks + 1, false, a.done⟩, by simp [Cadence.step, hidle, hrecent], h.lock.tick,
    h.timer, htimely, h.running, h.interval, congrArg Nat.succ h.ticks, hclock.ge, fun _ => hbefore,
    h.queue, ?_, fun i call hphase => ?_, h.records, ?_, h.poll⟩
  · show false = s.coord.pollLock.holder.isSome
    rw [hholder]
    rfl
  · have hreading := (h.lock.reading i).mpr ⟨call, hphase⟩
    rw [hholder] at hreading
    cases hreading
  · rw [h.polls]
    simp [Cadence.State.attempts, hidle]

/-- The tick that arrives finds the lock free, and is alone in the queue. -/
theorem woken_at_tick (h : Tracks S s a) {manager : Option BLEDevice} {i : ℕ} {lock : Lock ℕ}
    {t : Task}
    (hgrant : (s.coord.pollLock.enqueue s.coord.nextTask).grant = some (i, lock))
    (ht : ({ s.coord with ticks := s.coord.ticks + 1 }.arrive s.world .timer manager).tasks i =
      some t) :
    t.source = .timer ∧ t.device = manager ∧ lock.holder = some i ∧ lock.waiters = [] := by
  obtain ⟨-, hhead, hheld⟩ := Lock.grant_eq_some.mp hgrant
  rw [Lock.enqueue, h.queue] at hhead
  obtain ⟨rfl, hrest⟩ := List.cons.inj hhead
  have hnew : ({ s.coord with ticks := s.coord.ticks + 1 }.arrive s.world .timer manager).tasks
      s.coord.nextTask = some ⟨.timer, manager, s.world.now, s.coord.log.length, .queued⟩ :=
    Coordinator.setTask_self ..
  cases hnew.symm.trans ht
  exact ⟨rfl, rfl, hheld, hrest.symm⟩

/-- A tick polls, and the trigger starts an attempt. -/
theorem ticked (h : Tracks S s a) (hnow : s.world.now = (s.coord.ticks + 1) * (S : ℚ))
    (hopen : s.coord.GateOpen s.world) {manager : Option BLEDevice} (hmanager : manager ≠ none)
    (hsettles : Coordinator.Settles aes s.world s.coord.pollLock.free
      ({ s.coord with ticks := s.coord.ticks + 1 }.arrive s.world .timer manager) c)
    (htimely : Sys.Timely ⟨s.world, c⟩) :
    ∃ a', Cadence.step (S : ℚ) a .tick = some a' ∧ Tracks S ⟨s.world, c⟩ a' := by
  have hholder := h.idle_at_tick hnow
  have hidle : a.busy = false := by
    rw [h.busy, hholder]
    rfl
  have hrecent : a.recent (S : ℚ) = false := (h.gate_iff hnow).mp hopen
  have hfree : s.coord.pollLock.free = true := Lock.free_iff.mpr ⟨hholder, h.queue⟩
  refine ⟨⟨a.ticks + 1, true, a.done⟩, by simp [Cadence.step, hidle, hrecent], ?_⟩
  cases hsettles with
  | waits hbusy =>
    rw [hfree] at hbusy
    cases hbusy
  | skips _ hgrant ht hdevice =>
    obtain ⟨-, hnew, -, -⟩ := h.woken_at_tick hgrant ht
    exact absurd (hnew.symm.trans hdevice) hmanager
  | @begins i lock t device _ hgrant ht _ =>
    obtain ⟨hsource, -, hheld, hwaiters⟩ := h.woken_at_tick hgrant ht
    obtain ⟨hclock, hbefore⟩ := h.clock_at_tick hnow
    have hbegun := (h.lock.tick.arrive .timer manager).begin (w := s.world) device hgrant ht
    have harrived : Coordinator.TimerOnly
        ({ s.coord with ticks := s.coord.ticks + 1 }.arrive s.world .timer manager) :=
      h.timer.update rfl rfl
    refine ⟨hbegun, harrived.update
        (u := { t with phase := .reading (Call.start device s.world.now) }) rfl hsource, htimely,
      h.running, h.interval, congrArg Nat.succ h.ticks, hclock.ge, fun _ => hbefore, hwaiters, ?_,
      fun j call hphase => ?_, ?_, ?_, h.poll⟩
    · show true = lock.holder.isSome
      rw [hheld]
      rfl
    · -- the only call in progress is the new one
      have hj : lock.holder = some j := (hbegun.reading j).mpr ⟨call, hphase⟩
      rw [hheld] at hj
      cases hj
      have hstart := Coordinator.phaseOf_setTask
        ({ s.coord with ticks := s.coord.ticks + 1 }.arrive s.world .timer manager) i
        { t with phase := .reading (Call.start device s.world.now) } i
      rw [if_pos rfl] at hstart
      cases hphase.symm.trans hstart
      exact hclock
    · show pollRecords (s.coord.log ++ _) = _
      rw [pollRecords_append, h.records]
      exact List.append_nil _
    · show pollsMade (s.coord.log ++ _) = _
      rw [pollsMade_append, h.polls]
      simp [Cadence.State.attempts, hidle, pollsMade, LogEntry.isBegan]

/-- The poll in progress ends, and so does the attempt. -/
theorem finished (h : Tracks S s a) {i : ℕ} {t : Task} {call call' : Call} {exit : PollExit}
    (ht : s.coord.tasks i = some t) (hphase : t.phase = .reading call)
    (hbegun : call'.begun = call.begun)
    (htimely : Sys.Timely ⟨s.world, s.coord.leave s.world i t (some call') exit⟩) :
    ∃ a', Reaches (Cadence.step (S : ℚ)) (Cadence.Timed (S : ℚ)) a a' ∧
      Tracks S ⟨s.world, s.coord.leave s.world i t (some call') exit⟩ a' := by
  have hbusy : a.busy = true := by
    rw [h.busy, h.lock.holder_of_reading ht hphase]
    rfl
  have hstart : call'.begun = a.ticks * (S : ℚ) :=
    hbegun.trans (h.begun i call (Coordinator.phaseOf_some.mpr ⟨t, ht, hphase⟩))
  have hrecords := Coordinator.leave_pollRecords s.world s.coord i t (some call') exit
  have hlast := htimely.1 _ (hrecords ▸ List.mem_append_right _ (List.mem_singleton.mpr rfl))
  have htook : 0 < s.world.now - a.ticks * (S : ℚ) ∧ s.world.now - a.ticks * (S : ℚ) < S := by
    have hinterval := h.interval
    simp only [PollRecord.duration, Option.map_some, Option.getD_some, hstart] at hlast
    rw [hinterval] at hlast
    exact hlast
  have hlock : (s.coord.leave s.world i t (some call') exit).LockInv :=
    h.lock.finish ht hphase
  refine ⟨⟨a.ticks, false, a.done ++ [⟨a.ticks, s.world.now - a.ticks * (S : ℚ), exit.obtained⟩]⟩,
    .single (e := .finish (s.world.now - a.ticks * (S : ℚ)) exit.obtained) htook
      (by simp [Cadence.step, hbusy]),
    hlock, h.timer.update (Coordinator.leave_tasks ..) (h.timer i t ht), htimely, h.running,
    h.interval, (Coordinator.leave_ticks ..).trans h.ticks, h.since, h.before, ?_, ?_,
    fun j call₁ hreading => ?_, ?_, ?_, ?_⟩
  · show (Coordinator.leave ..).pollLock.waiters = []
    rw [Coordinator.leave_pollLock]
    exact h.queue
  · show false = (Coordinator.leave ..).pollLock.holder.isSome
    rw [Coordinator.leave_pollLock]
    rfl
  · have hheld := (hlock.reading j).mpr ⟨call₁, hreading⟩
    rw [Coordinator.leave_pollLock] at hheld
    cases hheld
  · rw [hrecords, h.records, List.map_append, h.timer i t ht]
    simp [recordOf, Cadence.Attempt.finished, hstart]
  · rw [Coordinator.leave_pollsMade, h.polls]
    simp [Cadence.State.attempts, hbusy]
  · show (Coordinator.leave ..).lastSuccessfulPoll = _
    rw [Coordinator.leave_lastSuccessfulPoll, Cadence.lastSuccess_concat, h.poll]
    cases exit.obtained with
    | none => rfl
    | some reading =>
      simp [Cadence.Attempt.succeeded, Cadence.Attempt.finished]

/-- A move that is neither a tick nor an advertisement. -/
theorem moved (h : Tracks S s a) (hm : Coordinator.Moves aes s.world s.coord c)
    (htimely : Sys.Timely ⟨s.world, c⟩) :
    ∃ a', Reaches (Cadence.step (S : ℚ)) (Cadence.Timed (S : ℚ)) a a' ∧
      Tracks S ⟨s.world, c⟩ a' := by
  have hnobody : s.coord.pollLock.grant = none := by
    cases hgrant : s.coord.pollLock.grant with
    | none => rfl
    | some p =>
      obtain ⟨-, hwaiters, -⟩ := Lock.grant_eq_some.mp hgrant
      rw [h.queue] at hwaiters
      cases hwaiters
  have hbegun := hm.move.readings (Q := fun call => call.begun = a.ticks * (S : ℚ))
    (fun hne => absurd hnobody hne)
    (fun call call' o _ hr hcall => (Call.resume_resumed hr).begun.trans hcall)
    (fun call n raw hcall => ?_) h.begun
  · have hlock := h.lock.move hm.move
    cases hm.move with
    | push | add _ =>
      exact ⟨a, .refl, h.keep hlock h.timer htimely rfl rfl rfl rfl hbegun⟩
    | tick => exact absurd hm.ticks (Nat.succ_ne_self _)
    | arrive _ _ _ => exact absurd hm.nextTask (Nat.succ_ne_self _)
    | begin hgrant _ _ => exact absurd (hnobody.symm.trans hgrant) (by simp)
    | skip hgrant _ _ => exact absurd (hnobody.symm.trans hgrant) (by simp)
    | @resume i t call call' o ht _ _ _ _ =>
      exact ⟨a, .refl, h.keep hlock
        (h.timer.update (u := { t with phase := .reading call' }) rfl (h.timer i t ht))
        htimely rfl rfl rfl rfl hbegun⟩
    | @notify i n k t call raw ht _ _ _ _ =>
      exact ⟨a, .refl, h.keep hlock (h.timer.update
        (u := { t with phase := t.phase.mapCall fun call => call.absorb aes n raw }) rfl
        (h.timer i t ht)) htimely rfl rfl rfl rfl hbegun⟩
    | finish ht hphase _ hr _ =>
      exact h.finished ht hphase (Call.resume_resumed hr).begun htimely
  · rcases Call.absorb_cases aes call n raw with hsame | ⟨reading, -, -, hnew⟩
    · rw [hsame]
      exact hcall
    · rw [hnew]
      exact hcall

end Tracks

namespace Sys

variable {aes : Aes} {address : String} {scanInterval : Option ℤ} {s s' : Sys}

/-- An event of a stalled run is answered by the trigger. -/
theorem tracks_step {S : ℤ} {a : Cadence.State ℚ PowerReading} {e : Event} (h : Tracks S s a)
    (hok : s.Stalled aes e) (hstep : s.step aes e = some s') :
    ∃ a', Reaches (Cadence.step (S : ℚ)) (Cadence.Timed (S : ℚ)) a a' ∧ Tracks S s' a' := by
  obtain ⟨hpunctual, hundisturbed, htimely⟩ := hok
  have hgood := htimely s' hstep
  cases e with
  | world e =>
    obtain ⟨w, hw, rfl⟩ := Option.map_eq_some_iff.mp hstep
    exact ⟨a, .refl, h.world hpunctual hundisturbed hw hgood⟩
  | coord e =>
    obtain ⟨c, hc, rfl⟩ := Option.map_eq_some_iff.mp hstep
    cases Coordinator.step_stepped hc with
    | skipped hclosed =>
      have hnow : s.world.now = (s.coord.ticks + 1) * (S : ℚ) := h.interval ▸ hpunctual
      obtain ⟨a', hstep', htracks⟩ := h.skipped hnow hclosed hgood
      exact ⟨a', .single (e := .tick) trivial hstep', htracks⟩
    | ticked hopen hsettles =>
      have hnow : s.world.now = (s.coord.ticks + 1) * (S : ℚ) := h.interval ▸ hpunctual
      obtain ⟨a', hstep', htracks⟩ := h.ticked hnow hopen hundisturbed hsettles hgood
      exact ⟨a', .single (e := .tick) trivial hstep', htracks⟩
    | advertised _ => exact hundisturbed.elim
    | moved _ _ hm => exact h.moved hm hgood

theorem init_tracks (address : String) (scanInterval : Option ℤ) :
    Tracks (init address scanInterval).world.scanInterval (init address scanInterval) .init := by
  refine ⟨.new address, ?_, ⟨?_, ?_⟩, rfl, rfl, rfl, ?_, fun hne => absurd rfl hne, rfl, rfl, ?_,
    rfl, rfl, rfl⟩
  all_goals simp [init, Coordinator.new, Coordinator.asyncInit, Coordinator.asyncStart,
    Coordinator.TimerOnly, Coordinator.current, Coordinator.phaseOf, Lock.unlocked, pollRecords,
    Cadence.State.init]

/-- A stalled run is a run of the periodic trigger. -/
theorem refines_cadence (h : Reaches (step aes) (Stalled aes) (init address scanInterval) s) :
    ∃ a, Reaches (Cadence.step ((init address scanInterval).world.scanInterval : ℚ))
        (Cadence.Timed ((init address scanInterval).world.scanInterval : ℚ)) .init a ∧
      Tracks (init address scanInterval).world.scanInterval s a :=
  h.simulates (init_tracks address scanInterval) fun _ _ _ _ htracks hok hstep =>
    tracks_step htracks hok hstep

/-! ## How many polls are made -/

/-- If every poll succeeds, every other tick is skipped: the first `n` ticks make `n` polls exactly
for `n ≤ 1`. -/
theorem polls_of_ticks (h : Reaches (step aes) (Stalled aes) (init address scanInterval) s)
    (hsucceed : ∀ r ∈ pollRecords s.coord.log, r.reading ≠ none) :
    pollsMade s.coord.log = (s.coord.ticks + 1) / 2 ∧
    (pollsMade s.coord.log = s.coord.ticks ↔ s.coord.ticks ≤ 1) := by
  obtain ⟨a, hrun, htracks⟩ := refines_cadence h
  have hall : ∀ x ∈ a.done, x.result ≠ none := by
    intro x hx
    have hmem :=
      List.mem_map_of_mem (f := recordOf (init address scanInterval).world.scanInterval) hx
    exact hsucceed _ (htracks.records ▸ hmem)
  have hpolls : pollsMade s.coord.log = (s.coord.ticks + 1) / 2 := by
    rw [htracks.polls, htracks.ticks]
    exact Cadence.attempts_eq hrun hall
  exact ⟨hpolls, by omega⟩

/-- The poll of the first tick takes five seconds. -/
def firstPoll : List Event :=
  .world (.advance 30) :: .coord (.fallbackTick (some plug)) :: .world (.advance 5) :: reads 0 0

theorem polls_of_ticks_firstPoll :
    (stalledAfter firstPoll).coord.ticks = 1 ∧
    pollsMade (stalledAfter firstPoll).coord.log = (stalledAfter firstPoll).coord.ticks :=
  ⟨by decide +kernel, (polls_of_ticks (stalledAfter_reached (by decide +kernel))
    (by decide +kernel)).2.mpr (by decide +kernel)⟩

/-- At the second tick the success is 25 seconds old. -/
def secondTick : List Event :=
  firstPoll ++ [.world (.advance 25), .coord (.fallbackTick (some plug))]

theorem second_tick_skipped :
    Reaches (step capturedAes) (Stalled capturedAes) (init plug.address none)
      (stalledAfter secondTick) ∧
    (∀ r ∈ pollRecords (stalledAfter secondTick).coord.log, r.reading ≠ none) ∧
    (stalledAfter secondTick).coord.ticks = 2 ∧
    pollsMade (stalledAfter secondTick).coord.log = 1 :=
  ⟨stalledAfter_reached (by decide +kernel), by decide +kernel, by decide +kernel,
    by decide +kernel⟩

/-! ## When the sensors are available -/

/-- The poll in progress comes after a failed one, and has taken as long as the last successful
poll took. -/
def Overdue (s : Sys) : Prop :=
  ∃ call last good, s.coord.current = some call ∧
    (pollRecords s.coord.log).getLast? = some last ∧ last.reading = none ∧
    ((pollRecords s.coord.log).filter PollRecord.succeeded).getLast? = some good ∧
    good.duration ≤ s.world.now - call.begun

end Sys

namespace Tracks

variable {S : ℤ} {s : Sys} {a : Cadence.State ℚ PowerReading} {x : Cadence.Attempt ℚ PowerReading}

theorem readings (h : Tracks S s a) :
    (pollRecords s.coord.log).map PollRecord.reading = a.done.map Cadence.Attempt.result := by
  rw [h.records, List.map_map]
  rfl

theorem lastRecord (h : Tracks S s a) :
    (pollRecords s.coord.log).getLast? = a.done.getLast?.map (recordOf S) := by
  rw [h.records, List.getLast?_map]

theorem lastGood (h : Tracks S s a) :
    ((pollRecords s.coord.log).filter PollRecord.succeeded).getLast? =
      a.lastSuccess.map (recordOf S) := by
  rw [h.records, List.filter_map, List.getLast?_map]
  rfl

theorem current_of_busy (h : Tracks S s a) (hbusy : a.busy = true) :
    ∃ call, s.coord.current = some call ∧ call.begun = a.ticks * (S : ℚ) := by
  rw [h.busy] at hbusy
  obtain ⟨i, hi⟩ := Option.isSome_iff_exists.mp hbusy
  obtain ⟨call, hphase⟩ := (h.lock.reading i).mp hi
  exact ⟨call, h.lock.current_iff.mpr ⟨i, hphase⟩, h.begun i call hphase⟩

theorem busy_of_current (h : Tracks S s a) {call : Call} (hcurrent : s.coord.current = some call) :
    a.busy = true ∧ call.begun = a.ticks * (S : ℚ) := by
  obtain ⟨i, hphase⟩ := h.lock.current_iff.mp hcurrent
  rw [h.busy, (h.lock.reading i).mpr ⟨call, hphase⟩]
  exact ⟨rfl, h.begun i call hphase⟩

/-- `Overdue`, in terms of the trigger. -/
theorem overdue_iff (h : Tracks S s a) (hx : a.lastSuccess = some x) :
    s.Overdue ↔ a.busy = true ∧ a.Failed ∧ x.duration ≤ s.world.now - a.ticks * (S : ℚ) := by
  have hgood := h.lastGood
  rw [hx, Option.map_some] at hgood
  have hduration : (recordOf S x).duration = x.duration := by
    simp [recordOf, PollRecord.duration, Cadence.Attempt.finished]
  constructor
  · rintro ⟨call, last, good, hcurrent, hlast, hfailed, hgood', hle⟩
    obtain ⟨hbusy, hbegun⟩ := h.busy_of_current hcurrent
    cases hgood.symm.trans hgood'
    rw [hduration, hbegun] at hle
    rw [h.lastRecord] at hlast
    obtain ⟨y, hy, rfl⟩ := Option.map_eq_some_iff.mp hlast
    exact ⟨hbusy, ⟨y, hy, hfailed⟩, hle⟩
  · rintro ⟨hbusy, ⟨y, hy, hfailed⟩, hle⟩
    obtain ⟨call, hcurrent, hbegun⟩ := h.current_of_busy hbusy
    refine ⟨call, recordOf S y, recordOf S x, hcurrent, ?_, hfailed, hgood, ?_⟩
    · rw [h.lastRecord, hy]
      rfl
    · rw [hduration, hbegun]
      exact hle

/-- The availability window, in terms of the trigger. -/
theorem recently_iff (h : Tracks S s a) (hx : a.lastSuccess = some x) :
    s.coord.isRecentlyPolled s.world = true ↔
      s.world.now - (x.tick * (S : ℚ) + x.duration) < 3 * S := by
  unfold Coordinator.isRecentlyPolled Coordinator.secondsSinceLastPoll
  rw [h.poll, hx]
  simp [Cadence.Attempt.finished, availabilityWindowMultiplier, h.interval, mul_comm]

/-- While no two polls in a row fail, the availability window is left only by an overdue poll. -/
theorem fresh_iff (h : Tracks S s a) (hx : a.lastSuccess = some x) (hsince : Cadence.Since a x)
    (hticks : 0 < a.ticks) (hpos : 0 < x.duration) (hlt : x.duration < S) :
    s.coord.isRecentlyPolled s.world = true ↔ ¬ s.Overdue := by
  rw [h.recently_iff hx, h.overdue_iff hx]
  have hbefore := h.before (Nat.pos_iff_ne_zero.mp hticks)
  have hperiod := hpos.trans hlt
  cases hsince with
  | rested hidle _ hle =>
    have hcast : (a.ticks : ℚ) ≤ x.tick + 1 := by exact_mod_cast hle
    have hmul := mul_le_mul_of_nonneg_right hcast hperiod.le
    refine iff_of_true (by linarith) fun hover => ?_
    rw [hidle] at hover
    exact absurd hover.1 (by simp)
  | trying _ hdone heq =>
    rw [heq] at hbefore
    push_cast at hbefore
    refine iff_of_true (by linarith) ?_
    rintro ⟨-, ⟨y, hy, hfailed⟩, -⟩
    -- the last attempt is the success itself
    cases hdone.symm.trans hy
    exact Cadence.lastSuccess_succeeded hx hfailed
  | missed hidle _ heq =>
    rw [heq] at hbefore
    push_cast at hbefore
    refine iff_of_true (by linarith) fun hover => ?_
    rw [hidle] at hover
    exact absurd hover.1 (by simp)
  | retrying hbusy hfailed heq =>
    -- three intervals after the tick of the success, the window is short by its duration
    rw [heq]
    push_cast
    constructor
    · rintro hage ⟨-, -, hle⟩
      linarith
    · intro hnot
      have hyoung := not_le.mp fun hle => hnot ⟨hbusy, hfailed, hle⟩
      linarith

end Tracks

namespace Sys

variable {aes : Aes} {address : String} {scanInterval : Option ℤ} {s s' : Sys}

/-- If no two polls in a row fail, then after the first success the sensors are available exactly
until a poll that comes after a failed one has taken as long as the last successful poll took. -/
theorem recently_polled_iff (h : Reaches (step aes) (Stalled aes) (init address scanInterval) s)
    (hchain : Cadence.NoTwoFailures ((pollRecords s.coord.log).map PollRecord.reading))
    (hpolled : s.coord.lastSuccessfulPoll ≠ none) :
    (s.coord.isRecentlyPolled s.world = true ↔ ¬ s.Overdue) ∧
    (s.coord.available s.world = true ↔ ¬ s.Overdue) := by
  obtain ⟨a, hrun, htracks⟩ := refines_cadence h
  have havailable : s.coord.available s.world = s.coord.isRecentlyPolled s.world := by
    have hreading := mt (logInv h).lastReading_none.mp hpolled
    obtain ⟨reading, hsome⟩ := Option.ne_none_iff_exists'.mp hreading
    rw [Coordinator.available, hsome]
  obtain ⟨x, hx⟩ : ∃ x, a.lastSuccess = some x := by
    rw [htracks.poll] at hpolled
    exact Option.ne_none_iff_exists'.mp fun hnone => hpolled (by rw [hnone]; rfl)
  rw [htracks.readings] at hchain
  obtain ⟨hsince, hticks, hpos, hlt⟩ := Cadence.since hrun hchain hx
  have hfresh := htracks.fresh_iff hx hsince hticks hpos hlt
  rw [havailable]
  exact ⟨hfresh, hfresh⟩

/-- The poll of the first tick takes `d` seconds, the second tick is skipped, the poll of the
third tick fails after two seconds, and the poll of the fourth tick is two seconds old. -/
def missedPoll (d : ℚ) : List Event :=
  .world (.advance 30) :: .coord (.fallbackTick (some plug)) :: .world (.advance d) :: reads 0 0 ++
    [.world (.advance (30 - d)), .coord (.fallbackTick (some plug)), .world (.advance 30),
      .coord (.fallbackTick (some plug)), .world (.advance 2),
      .coord (.resume 1 (.raises .bleakError)), .world (.advance 28),
      .coord (.fallbackTick (some plug)), .world (.advance 2)]

theorem recently_polled_iff_missedPoll :
    (stalledAfter (missedPoll 5)).coord.available (stalledAfter (missedPoll 5)).world = true := by
  refine (recently_polled_iff (stalledAfter_reached (by decide +kernel)) (by decide +kernel)
    (by decide +kernel)).2.mpr ?_
  rintro ⟨call, last, good, hcurrent, -, -, hgood, hle⟩
  have hbegun : (stalledAfter (missedPoll 5)).coord.current.map Call.begun = some 120 := by
    decide +kernel
  have hlastGood : ((pollRecords (stalledAfter (missedPoll 5)).coord.log).filter
      PollRecord.succeeded).getLast?.map PollRecord.duration = some 5 := by decide +kernel
  have hnow : (stalledAfter (missedPoll 5)).world.now = 122 := by decide +kernel
  rw [hcurrent] at hbegun
  rw [hgood] at hlastGood
  rw [hnow, Option.some.inj hbegun, Option.some.inj hlastGood] at hle
  exact absurd hle (by norm_num)

theorem missed_poll_blanks :
    Reaches (step capturedAes) (Stalled capturedAes) (init plug.address none)
      (stalledAfter (missedPoll 2)) ∧
    Cadence.NoTwoFailures
      ((pollRecords (stalledAfter (missedPoll 2)).coord.log).map PollRecord.reading) ∧
    (stalledAfter (missedPoll 2)).coord.lastSuccessfulPoll ≠ none ∧
    (stalledAfter (missedPoll 2)).coord.isRecentlyPolled (stalledAfter (missedPoll 2)).world =
      false ∧
    (stalledAfter (missedPoll 2)).coord.available (stalledAfter (missedPoll 2)).world = false :=
  ⟨stalledAfter_reached (by decide +kernel), by decide +kernel, by decide +kernel,
    by decide +kernel, by decide +kernel⟩

end Sys

end GoveeH5086
