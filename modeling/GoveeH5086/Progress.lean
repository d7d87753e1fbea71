import Mathlib.Algebra.BigOperators.Group.Finset.Basic
import Mathlib.Algebra.Order.BigOperators.Group.Finset
import GoveeH5086.History

/-!
# Every poll has its turn

Tasks are numbered as they arrive, so what `_poll_lock` promises can be said of the log alone: the
polls are made in the order in which they were asked for. A task is served after finitely many
turns, and whoever holds the lock can always go on.

1. `begun`: the tasks that entered `_read_one_notification`, as the log has them.
2. `Sys.served_in_order`: polls are made in order of arrival, each once, and nobody is overtaken.
3. `Call.turnsLeft`, `Coordinator.turnsLeft`: how much is left to do.
4. `Sys.polls_come_to_end`: every run makes a bounded number of turns, and is stuck in none of its
   states.
-/

namespace GoveeH5086
open BigEndian FifoLock Runs

/-! ## First come, first served -/

/-- The task that entered `_read_one_notification`. -/
def LogEntry.entered : LogEntry → Option ℕ
  | .began i _ _ _ => some i
  | .completed _ => none

/-- The tasks that entered `_read_one_notification`, oldest first. -/
def begun (log : List LogEntry) : List ℕ := log.filterMap LogEntry.entered

theorem begun_append (log log' : List LogEntry) : begun (log ++ log') = begun log ++ begun log' :=
  List.filterMap_append

namespace Coordinator

/-- Those that were served and those that wait stand in one line, in order of arrival, and whoever
has a device stands in it. -/
structure InLine (c : Coordinator) : Prop where
  ordered : (begun c.log ++ c.pollLock.waiters).Pairwise (· < ·)
  arrived : ∀ i ∈ begun c.log ++ c.pollLock.waiters, i < c.nextTask
  known : ∀ i t, c.tasks i = some t → i < c.nextTask
  present : ∀ i t, c.tasks i = some t → t.device ≠ none →
    i ∈ begun c.log ++ c.pollLock.waiters

namespace InLine

variable {aes : Aes} {w : World} {c c' : Coordinator}

/-- Nobody comes, and the line is as it was. -/
theorem same (h : c.InLine) (hlog : begun c'.log = begun c.log)
    (hlock : c'.pollLock.waiters = c.pollLock.waiters) (hnext : c'.nextTask = c.nextTask)
    {i : ℕ} {t u : Task} (ht : c.tasks i = some t)
    (htasks : c'.tasks = Function.update c.tasks i (some u)) (hdevice : u.device = t.device) :
    c'.InLine := by
  refine ⟨?_, ?_, fun j v hj => ?_, fun j v hj hsome => ?_⟩
  · rw [hlog, hlock]
    exact h.ordered
  · rw [hlog, hlock, hnext]
    exact h.arrived
  · rw [hnext]
    rcases update_eq_some (htasks ▸ hj) with ⟨rfl, -⟩ | ⟨-, hold⟩
    · exact h.known j t ht
    · exact h.known j v hold
  · rw [hlog, hlock]
    rcases update_eq_some (htasks ▸ hj) with ⟨rfl, rfl⟩ | ⟨-, hold⟩
    · exact h.present j t ht (hdevice ▸ hsome)
    · exact h.present j v hold hsome

theorem arrive (h : c.InLine) (source : Source) (device : Option BLEDevice) :
    (c.arrive w source device).InLine := by
  have hline : begun (c.arrive w source device).log ++ (c.arrive w source device).pollLock.waiters =
      (begun c.log ++ c.pollLock.waiters) ++ [c.nextTask] := (List.append_assoc ..).symm
  refine ⟨?_, fun i hi => ?_, fun i t ht => ?_, fun i t ht hsome => ?_⟩
  · rw [hline, List.pairwise_append]
    refine ⟨h.ordered, List.pairwise_singleton _ _, fun a ha b hb => ?_⟩
    rw [List.mem_singleton.mp hb]
    exact h.arrived a ha
  · rw [hline] at hi
    rcases List.mem_append.mp hi with hold | hnew
    · exact Nat.lt_succ_of_lt (h.arrived i hold)
    · rw [List.mem_singleton.mp hnew]
      exact Nat.lt_succ_self _
  · rcases update_eq_some ht with ⟨rfl, -⟩ | ⟨-, hold⟩
    · exact Nat.lt_succ_self _
    · exact Nat.lt_succ_of_lt (h.known i t hold)
  · rw [hline]
    rcases update_eq_some ht with ⟨rfl, -⟩ | ⟨-, hold⟩
    · exact List.mem_append_right _ List.mem_cons_self
    · exact List.mem_append_left _ (h.present i t hold hsome)

/-- The head of the queue moves from the queue to the log. -/
theorem begin (h : c.InLine) {i : ℕ} {lock : Lock ℕ} {t : Task} (device : BLEDevice)
    (hgrant : c.pollLock.grant = some (i, lock)) (ht : c.tasks i = some t) :
    ({ c with pollLock := lock }.begin w i t device).InLine := by
  obtain ⟨-, hwaiters, -⟩ := Lock.grant_eq_some.mp hgrant
  have hline : begun (({ c with pollLock := lock } : Coordinator).begin w i t device).log ++
      lock.waiters = begun c.log ++ c.pollLock.waiters := by
    rw [hwaiters]
    show begun (c.log ++ _) ++ _ = _
    rw [begun_append, List.append_assoc]
    rfl
  refine ⟨?_, fun j hj => ?_, fun j v hj => ?_, fun j v hj hsome => ?_⟩
  · show (_ ++ lock.waiters).Pairwise _
    rw [hline]
    exact h.ordered
  · exact h.arrived j (hline ▸ hj)
  · rcases update_eq_some hj with ⟨rfl, -⟩ | ⟨-, hold⟩
    · exact h.known j t ht
    · exact h.known j v hold
  · show j ∈ _ ++ lock.waiters
    rw [hline]
    rcases update_eq_some hj with ⟨rfl, rfl⟩ | ⟨-, hold⟩
    · exact h.present j t ht hsome
    · exact h.present j v hold hsome

/-- The head of the queue has no device, and leaves the line. -/
theorem skip (h : c.InLine) {i : ℕ} {lock : Lock ℕ} {t : Task}
    (hgrant : c.pollLock.grant = some (i, lock)) (ht : c.tasks i = some t)
    (hdevice : t.device = none) :
    ({ c with pollLock := lock }.leave w i t none .noDevice).InLine := by
  obtain ⟨-, hwaiters, -⟩ := Lock.grant_eq_some.mp hgrant
  have hlog : begun (({ c with pollLock := lock } : Coordinator).leave w i t none .noDevice).log =
      begun c.log := by
    rw [leave_log, begun_append]
    exact List.append_nil _
  have hlock : (({ c with pollLock := lock } : Coordinator).leave w i t none
      .noDevice).pollLock.waiters = lock.waiters := by
    rw [leave_pollLock]
    rfl
  have hsub : (begun c.log ++ lock.waiters).Sublist (begun c.log ++ c.pollLock.waiters) := by
    rw [hwaiters]
    exact (List.Sublist.refl _).append (List.sublist_cons_self ..)
  refine ⟨?_, fun j hj => ?_, fun j v hj => ?_, fun j v hj hsome => ?_⟩
  · rw [hlog, hlock]
    exact h.ordered.sublist hsub
  · rw [hlog, hlock] at hj
    rw [leave_nextTask]
    exact h.arrived j (hsub.subset hj)
  · rw [leave_nextTask]
    rw [leave_tasks] at hj
    rcases update_eq_some hj with ⟨rfl, -⟩ | ⟨-, hold⟩
    · exact h.known j t ht
    · exact h.known j v hold
  · rw [hlog, hlock]
    rw [leave_tasks] at hj
    rcases update_eq_some hj with ⟨rfl, rfl⟩ | ⟨hne, hold⟩
    · exact absurd hdevice hsome
    · have hmem := h.present j v hold hsome
      rw [hwaiters, List.mem_append, List.mem_cons] at hmem
      rcases hmem with hlogged | heq | hrest
      · exact List.mem_append_left _ hlogged
      · exact absurd heq hne
      · exact List.mem_append_right _ hrest

theorem finish (h : c.InLine) {i : ℕ} {t : Task} (ht : c.tasks i = some t) (call : Option Call)
    (exit : PollExit) : (c.leave w i t call exit).InLine := by
  refine h.same ?_ ?_ (leave_nextTask ..) ht (leave_tasks ..) rfl
  · rw [leave_log, begun_append]
    exact List.append_nil _
  · rw [leave_pollLock]
    rfl

theorem move (h : c.InLine) (hm : Move aes w c c') : c'.InLine := by
  cases hm with
  | push | add _ | tick => exact ⟨h.ordered, h.arrived, h.known, h.present⟩
  | arrive source device _ => exact h.arrive source device
  | begin hgrant ht _ => exact h.begin _ hgrant ht
  | skip hgrant ht hdevice => exact h.skip hgrant ht hdevice
  | resume ht _ _ _ _ => exact h.same rfl rfl rfl ht rfl rfl
  | finish ht _ _ _ _ => exact h.finish ht _ _
  | notify ht _ _ _ _ => exact h.same rfl rfl rfl ht rfl rfl

theorem new (address : String) : (Coordinator.new address).asyncInit.asyncStart.InLine := by
  constructor <;> simp [Coordinator.new, asyncInit, asyncStart, Lock.unlocked, begun]

end InLine

end Coordinator

namespace Sys

theorem inLine {aes : Aes} {address : String} {scanInterval : Option ℤ}
    {ok : Sys → Event → Prop} {s : Sys}
    (h : Reaches (step aes) ok (init address scanInterval) s) : s.coord.InLine :=
  Sys.invariant (P := fun _ c => c.InLine) (fun _ _ _ hc _ => hc) (fun _ _ _ hc hm => hc.move hm) h
    (.new address)

/-- Polls are made in the order in which they were asked for, each once, and when one is made, every
one asked for before it that found a device has been made. -/
theorem served_in_order {aes : Aes} {address : String} {scanInterval : Option ℤ} {s : Sys}
    (h : Reachable aes address scanInterval s) :
    (begun s.coord.log).Pairwise (· < ·) ∧
    ∀ i ∈ begun s.coord.log, ∀ j t, j < i → s.coord.tasks j = some t → t.device ≠ none →
      j ∈ begun s.coord.log := by
  have hline := inLine h
  obtain ⟨hordered, -, hbefore⟩ := List.pairwise_append.mp hline.ordered
  refine ⟨hordered, fun i hi j t hji hj hdevice => ?_⟩
  rcases List.mem_append.mp (hline.present j t hj hdevice) with hserved | hwaits
  · exact hserved
  · -- whoever waits arrived after all that were served
    exact absurd (hbefore i hi j hwaits) (Nat.lt_asymm hji)

theorem served_in_order_twoPolls : (begun (after twoPolls).coord.log).Pairwise (· < ·) :=
  (served_in_order (after_reachable (by decide +kernel))).1

end Sys

/-! ## What is left to do -/

/-- How many resumptions a call can still take. -/
def Call.turnsLeft (c : Call) : ℕ :=
  match c.point with
  | .establishConnection => 6
  | .startNotify => 5
  | .writeGattChar => 4
  | .waitFor _ => 3
  | .stopNotify _ => 2
  | .disconnect _ => 1
  | .ended _ => 0

/-- A task that waits is woken once before its call. -/
def Phase.turnsLeft : Phase → ℕ
  | .queued => 7
  | .reading call => call.turnsLeft
  | .ended _ _ => 0

theorem Call.resume_turnsLeft {now : ℚ} {emitted : ℕ} {c c' : Call} {o : Outcome}
    (h : c.resume now emitted o = some c') : c'.turnsLeft + 1 ≤ c.turnsLeft := by
  unfold resume at h
  unfold turnsLeft
  cases hp : c.point with
  | establishConnection => rw [hp] at h; cases o <;> cases h <;> simp
  | startNotify => rw [hp] at h; cases o <;> cases h <;> simp [cleanUp]
  | writeGattChar =>
    rw [hp] at h
    cases o with
    | returns | cancelled => cases h; simp [cleanUp]
    | raises err => cases err <;> cases h <;> simp [cleanUp]
  | waitFor deadline =>
    rw [hp] at h
    cases o with
    | returns => cases hd : c.done <;> simp only [hd] at h <;> cases h; simp [cleanUp]
    | raises err =>
      cases err with
      | timeoutError =>
        cases hd : c.done with
        | pending =>
          simp only [hd] at h
          obtain ⟨-, heq⟩ := Option.ite_none_right_eq_some.mp h
          cases heq
          simp [cleanUp]
        | result reading | cancelled => simp only [hd] at h; cases h; simp [cleanUp]
      | _ => cases h; simp [cleanUp]
    | cancelled => cases h; simp [cleanUp]
  | stopNotify exit => rw [hp] at h; cases o <;> cases h <;> simp
  | disconnect exit => rw [hp] at h; cases o <;> cases h <;> simp
  | ended exit => rw [hp] at h; cases h

/-- A call that is not over can be resumed, if need be once its deadline has come. -/
theorem Call.resume_possible {c : Call} (hgoes : ∀ exit, c.point ≠ .ended exit) (now : ℚ)
    (emitted : ℕ) :
    ∃ dt, 0 ≤ dt ∧ ∃ o c', o ≠ .cancelled ∧ c.resume (now + dt) emitted o = some c' := by
  cases hp : c.point with
  | waitFor deadline =>
    refine ⟨max 0 (deadline - now), le_max_left .., ?_⟩
    have hover : deadline ≤ now + max 0 (deadline - now) := by
      rw [← sub_le_iff_le_add']
      exact le_max_right ..
    cases hd : c.done with
    | pending => exact ⟨.raises .timeoutError, _, by simp, by simp [resume, hp, hd, hover]; rfl⟩
    | result reading => exact ⟨.returns, _, by simp, by simp [resume, hp, hd]; rfl⟩
    | cancelled => exact ⟨.raises .timeoutError, _, by simp, by simp [resume, hp, hd]; rfl⟩
  | ended exit => exact absurd hp (hgoes exit)
  | _ => exact ⟨0, le_rfl, .returns, _, by simp, by simp [resume, hp]; rfl⟩

namespace Coordinator

/-- How many turns the tasks that have arrived can still take. -/
def turnsLeft (c : Coordinator) : ℕ :=
  ∑ i ∈ Finset.range c.nextTask, ((c.phaseOf i).map Phase.turnsLeft).getD 0

/-- A piece of code of a poll task runs. -/
def Event.isTurn : Event → Bool
  | .grant | .resume _ _ => true
  | .goveePoll _ _ | .fallbackTick _ | .notify _ _ | .updateListeners | .addSensor _ => false

/-- A poll may be asked for. -/
def Event.isArrival : Event → Bool
  | .goveePoll _ _ | .fallbackTick _ => true
  | .grant | .resume _ _ | .notify _ _ | .updateListeners | .addSensor _ => false

section
variable {aes : Aes} {w : World} {c c' : Coordinator}

/-- One task changes. -/
theorem turnsLeft_update {i : ℕ} {t u : Task} (ht : c.tasks i = some t) (hi : i < c.nextTask)
    (htasks : c'.tasks = Function.update c.tasks i (some u)) (hnext : c'.nextTask = c.nextTask) :
    c'.turnsLeft + t.phase.turnsLeft = c.turnsLeft + u.phase.turnsLeft := by
  have hmem : i ∈ Finset.range c.nextTask := Finset.mem_range.mpr hi
  have hterms : ∀ j ∈ (Finset.range c.nextTask).erase i,
      ((c'.phaseOf j).map Phase.turnsLeft).getD 0 = ((c.phaseOf j).map Phase.turnsLeft).getD 0 := by
    intro j hj
    rw [phaseOf, phaseOf, htasks, Function.update_of_ne (Finset.ne_of_mem_erase hj)]
  have hself : ((c.phaseOf i).map Phase.turnsLeft).getD 0 = t.phase.turnsLeft := by
    rw [phaseOf, ht]
    rfl
  have hself' : ((c'.phaseOf i).map Phase.turnsLeft).getD 0 = u.phase.turnsLeft := by
    rw [phaseOf, htasks, Function.update_self]
    rfl
  unfold turnsLeft
  rw [hnext, ← Finset.sum_erase_add _ _ hmem, ← Finset.sum_erase_add _ _ hmem,
    Finset.sum_congr rfl hterms, hself, hself']
  exact Nat.add_right_comm ..

theorem arrive_turnsLeft (source : Source) (device : Option BLEDevice) :
    (c.arrive w source device).turnsLeft = c.turnsLeft + 7 := by
  have hphase : ∀ j, (c.arrive w source device).phaseOf j =
      if j = c.nextTask then some .queued else c.phaseOf j := phaseOf_setTask c c.nextTask _
  have hterms : ∀ j ∈ Finset.range c.nextTask,
      (((c.arrive w source device).phaseOf j).map Phase.turnsLeft).getD 0 =
        ((c.phaseOf j).map Phase.turnsLeft).getD 0 := by
    intro j hj
    rw [hphase, if_neg (Finset.mem_range.mp hj).ne]
  show ∑ i ∈ Finset.range (c.nextTask + 1), _ = _
  rw [Finset.sum_range_succ, Finset.sum_congr rfl hterms, hphase, if_pos rfl]
  rfl

/-- The head of the queue is woken, and its call begins. -/
theorem begin_turnsLeft (hlock : c.LockInv) {i : ℕ} {lock : Lock ℕ} {t : Task} (device : BLEDevice)
    (hgrant : c.pollLock.grant = some (i, lock)) (ht : c.tasks i = some t) :
    ({ c with pollLock := lock }.begin w i t device).turnsLeft + 1 ≤ c.turnsLeft := by
  have hleft : ({ c with pollLock := lock }.begin w i t device).turnsLeft + t.phase.turnsLeft =
      c.turnsLeft + (Phase.reading (Call.start device w.now)).turnsLeft :=
    turnsLeft_update (u := { t with phase := .reading (Call.start device w.now) }) ht
      (hlock.fresh i t ht) rfl rfl
  rw [hlock.granted hgrant ht] at hleft
  simp only [Phase.turnsLeft, Call.turnsLeft, Call.start] at hleft
  omega

/-- The head of the queue is woken, and has no device. -/
theorem skip_turnsLeft (hlock : c.LockInv) {i : ℕ} {lock : Lock ℕ} {t : Task}
    (hgrant : c.pollLock.grant = some (i, lock)) (ht : c.tasks i = some t) :
    ({ c with pollLock := lock }.leave w i t none .noDevice).turnsLeft + 1 ≤ c.turnsLeft := by
  have hleft := turnsLeft_update (u := { t with phase := .ended none _ }) ht (hlock.fresh i t ht)
    (leave_tasks w { c with pollLock := lock } i t none .noDevice) (leave_nextTask ..)
  rw [hlock.granted hgrant ht] at hleft
  simp only [Phase.turnsLeft] at hleft
  omega

theorem enter_turnsLeft (hlock : c.LockInv) {i : ℕ} {lock : Lock ℕ} {t : Task}
    (hgrant : c.pollLock.grant = some (i, lock)) (ht : c.tasks i = some t) :
    ({ c with pollLock := lock }.enter w i t).turnsLeft + 1 ≤ c.turnsLeft := by
  unfold enter
  split
  · exact skip_turnsLeft hlock hgrant ht
  · exact begin_turnsLeft hlock _ hgrant ht

theorem Settles.turnsLeft {free : Bool} (h : Settles aes w free c c') (hlock : c.LockInv) :
    c'.turnsLeft ≤ c.turnsLeft := by
  cases h with
  | waits _ => exact le_rfl
  | begins _ hgrant ht _ => exact Nat.le_of_succ_le (begin_turnsLeft hlock _ hgrant ht)
  | skips _ hgrant ht _ => exact Nat.le_of_succ_le (skip_turnsLeft hlock hgrant ht)

theorem spawn_turnsLeft (aes : Aes) (hlock : c.LockInv) (source : Source)
    (device : Option BLEDevice) : (c.spawn w source device).turnsLeft ≤ c.turnsLeft + 7 := by
  rw [← arrive_turnsLeft (w := w) source device]
  exact (spawn_settles aes w c source device).turnsLeft (hlock.arrive source device)

/-- The call of a task goes on, or is over. -/
theorem proceed_turnsLeft (hlock : c.LockInv) {i : ℕ} {t : Task} {call call' : Call} {o : Outcome}
    (ht : c.tasks i = some t) (hphase : t.phase = .reading call)
    (h : call.resume w.now w.emitted.length o = some call') :
    (c.proceed w i t call').turnsLeft + 1 ≤ c.turnsLeft := by
  have hi := hlock.fresh i t ht
  have hturn := Call.resume_turnsLeft h
  unfold proceed
  split
  · next exit hexit =>
    have hleft := turnsLeft_update (u := { t with phase := .ended (some call') _ }) ht hi
      (leave_tasks w c i t (some call') (.read exit)) (leave_nextTask ..)
    rw [hphase] at hleft
    simp only [Phase.turnsLeft] at hleft
    omega
  · have hleft : (c.setTask i { t with phase := .reading call' }).turnsLeft + t.phase.turnsLeft =
        c.turnsLeft + (Phase.reading call').turnsLeft :=
      turnsLeft_update (u := { t with phase := .reading call' }) ht hi rfl rfl
    rw [hphase] at hleft
    simp only [Phase.turnsLeft] at hleft
    omega

/-- A callback takes no turn of the task. -/
theorem absorb_turnsLeft (aes : Aes) (p : Phase) (n : ℕ) (raw : Bytes) :
    (p.mapCall fun call => call.absorb aes n raw).turnsLeft = p.turnsLeft := by
  cases p with
  | queued | ended _ _ => rfl
  | reading call =>
    rcases Call.absorb_cases aes call n raw with hsame | ⟨reading, -, -, hnew⟩
    · simp only [Phase.mapCall, hsame]
    · simp only [Phase.mapCall, hnew, Phase.turnsLeft, Call.turnsLeft]

theorem deliver_turnsLeft (hlock : c.LockInv) {i : ℕ} {t : Task} (ht : c.tasks i = some t) (n : ℕ)
    (raw : Bytes) : (c.deliver aes i t n raw).turnsLeft = c.turnsLeft := by
  unfold deliver
  simp only [Call.onNotify_eq]
  have hleft : (c.setTask i { t with
      phase := t.phase.mapCall fun call => call.absorb aes n raw }).turnsLeft + t.phase.turnsLeft =
      c.turnsLeft + (t.phase.mapCall fun call => call.absorb aes n raw).turnsLeft :=
    turnsLeft_update (u := { t with phase := t.phase.mapCall fun call => call.absorb aes n raw }) ht
      (hlock.fresh i t ht) rfl rfl
  simp only [absorb_turnsLeft] at hleft
  exact Nat.add_right_cancel hleft

/-- A poll that is asked for brings at most seven turns, and every turn uses one up. -/
theorem step_turnsLeft (hlock : c.LockInv) {e : Event} (hstep : c.step aes w e = some c') :
    c'.turnsLeft + e.isTurn.toNat ≤ c.turnsLeft + 7 * e.isArrival.toNat := by
  cases e with
  | goveePoll service manager =>
    obtain ⟨-, heq⟩ := Option.ite_none_right_eq_some.mp hstep
    cases heq
    exact spawn_turnsLeft aes hlock .adv _
  | fallbackTick manager =>
    obtain ⟨-, heq⟩ := Option.ite_none_right_eq_some.mp hstep
    cases heq
    have hspawn := spawn_turnsLeft aes (w := w) hlock.tick .timer manager
    show ({ c with ticks := c.ticks + 1 }.fallbackTick w manager).turnsLeft ≤ c.turnsLeft + 7
    unfold fallbackTick
    split
    · exact Nat.le_add_right _ _
    · split
      · exact hspawn
      · split
        · exact Nat.le_add_right _ _
        · exact hspawn
  | grant =>
    simp only [step] at hstep
    split at hstep
    · cases hstep
    · next i lock hgrant =>
      obtain ⟨t, ht, rfl⟩ := Option.map_eq_some_iff.mp hstep
      exact enter_turnsLeft hlock hgrant ht
  | resume i o =>
    simp only [step] at hstep
    split at hstep
    · next ht =>
      obtain ⟨call', hcall, rfl⟩ := Option.map_eq_some_iff.mp hstep
      exact proceed_turnsLeft hlock ht rfl hcall
    · next ht =>
      obtain ⟨call', hcall, rfl⟩ := Option.map_eq_some_iff.mp hstep
      exact proceed_turnsLeft hlock ht rfl hcall
    · cases hstep
  | notify i n =>
    simp only [step] at hstep
    split at hstep
    · next t raw ht hn =>
      split at hstep
      · split at hstep
        · cases hstep
          exact (deliver_turnsLeft hlock ht n raw).le
        · cases hstep
      · cases hstep
    · cases hstep
  | updateListeners | addSensor =>
    cases hstep
    exact le_rfl

/-- All polls have come to their end. -/
def AllEnded (c : Coordinator) : Prop :=
  ∀ i t, c.tasks i = some t → ∃ call result, t.phase = .ended call result

/-- While some poll has not come to its end, a turn is possible, if need be once time has passed. -/
theorem goes_on (aes : Aes) (w : World) (hlock : c.LockInv)
    (hcalls : ∀ i call, c.phaseOf i = some (.reading call) → ∀ exit, call.point ≠ .ended exit)
    (hunended : ¬ c.AllEnded) :
    ∃ dt, 0 ≤ dt ∧ ∃ e c', e.isTurn = true ∧
      c.step aes { w with now := w.now + dt } e = some c' := by
  cases hholder : c.pollLock.holder with
  | some i =>
    obtain ⟨call, hphase⟩ := (hlock.reading i).mp hholder
    obtain ⟨⟨source, device, started, seen, phase⟩, ht, rfl⟩ := phaseOf_some.mp hphase
    obtain ⟨dt, hdt, o, call', ho, hcall⟩ :=
      Call.resume_possible (hcalls i call hphase) w.now w.emitted.length
    refine ⟨dt, hdt, .resume i o, c.proceed { w with now := w.now + dt } i
      ⟨source, device, started, seen, .reading call⟩ call', rfl, ?_⟩
    cases o with
    | returns | raises => simp only [step, ht, hcall, Option.map_some]
    | cancelled => exact absurd rfl ho
  | none =>
    -- nobody reads, so that somebody waits
    obtain ⟨i, hi⟩ : ∃ i, i ∈ c.pollLock.waiters := by
      by_contra hnone
      refine hunended fun i t ht => ?_
      cases hphase : t.phase with
      | queued => exact absurd ⟨i, (hlock.queued i).mpr (phaseOf_some.mpr ⟨t, ht, hphase⟩)⟩ hnone
      | reading call =>
        rw [hlock.holder_of_reading ht hphase] at hholder
        cases hholder
      | ended call result => exact ⟨call, result, rfl⟩
    obtain ⟨head, rest, hwaiters⟩ := List.exists_cons_of_ne_nil (List.ne_nil_of_mem hi)
    obtain ⟨t, ht, -⟩ := phaseOf_some.mp ((hlock.queued head).mp (by simp [hwaiters]))
    have hgrant : c.pollLock.grant = some (head, ⟨some head, rest⟩) :=
      Lock.grant_eq_some.mpr ⟨hholder, hwaiters, rfl⟩
    exact ⟨0, le_rfl, .grant, ({ c with pollLock := ⟨some head, rest⟩ } : Coordinator).enter
      { w with now := w.now + 0 } head t, rfl, by simp only [step, hgrant, ht, Option.map_some]⟩

/-- A call that is being read is not over. -/
def Going (c : Coordinator) : Prop :=
  ∀ i call, c.phaseOf i = some (.reading call) → ∀ exit, call.point ≠ .ended exit

theorem Going.update (h : c.Going) {i : ℕ} {u : Task}
    (htasks : c'.tasks = Function.update c.tasks i (some u))
    (hphase : ∀ call, u.phase = .reading call → ∀ exit, call.point ≠ .ended exit) : c'.Going := by
  intro j call hj
  obtain ⟨t, ht, hreading⟩ := phaseOf_some.mp hj
  rcases update_eq_some (htasks ▸ ht) with ⟨-, rfl⟩ | ⟨-, hold⟩
  · exact hphase call hreading
  · exact h j call (phaseOf_some.mpr ⟨t, hold, hreading⟩)

theorem Going.move (h : c.Going) (hm : Move aes w c c') : c'.Going := by
  cases hm with
  | push | add _ | tick => exact h
  | arrive source device _ =>
    exact h.update (i := c.nextTask) rfl fun call hcall => by cases hcall
  | @begin i lock t device _ ht _ =>
    refine h.update (u := { t with phase := .reading (Call.start device w.now) }) rfl ?_
    rintro call ⟨⟩ exit hended
    cases hended
  | skip hgrant ht _ => exact h.update (leave_tasks ..) fun call hcall => by cases hcall
  | @resume i t call call' o ht _ _ _ hgoes =>
    refine h.update (u := { t with phase := .reading call' }) rfl ?_
    rintro call ⟨⟩
    exact hgoes
  | finish ht _ _ _ _ => exact h.update (leave_tasks ..) fun call hcall => by cases hcall
  | @notify i n k t call raw ht hcall _ _ _ =>
    refine h.update (u := { t with phase := t.phase.mapCall fun call => call.absorb aes n raw })
      rfl fun call' hreading => ?_
    cases hphase : t.phase with
    | queued | ended _ _ =>
      rw [hphase] at hreading
      cases hreading
    | reading call₀ =>
      rw [hphase] at hreading
      cases hreading
      have hgoes := h i call₀ (phaseOf_some.mpr ⟨t, ht, hphase⟩)
      show ∀ exit, (call₀.absorb aes n raw).point ≠ .ended exit
      rcases Call.absorb_cases aes call₀ n raw with hsame | ⟨reading, -, -, hnew⟩
      · rw [hsame]
        exact hgoes
      · rw [hnew]
        exact hgoes

theorem Going.new (address : String) : (Coordinator.new address).asyncInit.asyncStart.Going := by
  intro i call hi
  cases hi

end

end Coordinator

namespace Sys

def Event.isTurn : Event → Bool
  | .coord e => e.isTurn
  | .world _ => false

def Event.isArrival : Event → Bool
  | .coord e => e.isArrival
  | .world _ => false

/-- From every state of a run on, at most seven turns are made for each poll that is asked for,
beside those that were left; and in every state all polls have come to their end, or some turn is
possible, if need be once time has passed. -/
theorem polls_come_to_end {aes : Aes} {address : String} {scanInterval : Option ℤ} {s s' : Sys}
    {es : List Event} (h : Reachable aes address scanInterval s)
    (hrun : run (step aes) s es = some s') :
    es.countP Event.isTurn + s'.coord.turnsLeft ≤
      s.coord.turnsLeft + 7 * es.countP Event.isArrival ∧
    (s'.coord.AllEnded ∨ ∃ dt, 0 ≤ dt ∧ ∃ e s'', e.isTurn = true ∧
      run (step aes) s' [.world (.advance dt), e] = some s'') := by
  have spent : ∀ a e b, a.coord.LockInv → step aes a e = some b →
      b.coord.LockInv ∧ b.coord.turnsLeft + e.isTurn.toNat ≤
        a.coord.turnsLeft + 7 * e.isArrival.toNat := by
    intro a e b hlock hstep
    refine ⟨step_invariant (P := fun _ c => c.LockInv) (fun _ _ _ hc _ => hc)
      (fun _ _ _ hc hm => hc.move hm) hstep hlock, ?_⟩
    cases e with
    | world e =>
      obtain ⟨w, -, rfl⟩ := Option.map_eq_some_iff.mp hstep
      exact le_rfl
    | coord e =>
      obtain ⟨c, hc, rfl⟩ := Option.map_eq_some_iff.mp hstep
      exact Coordinator.step_turnsLeft hlock hc
  obtain ⟨hlock, hcount⟩ := turns_paid (P := fun a : Sys => a.coord.LockInv) Event.isTurn
    Event.isArrival 7 (fun a => a.coord.turnsLeft) spent (lockInv h) hrun
  refine ⟨by rwa [Nat.add_comm] at hcount, ?_⟩
  have hgoing : s'.coord.Going :=
    Sys.invariant (P := fun _ c => c.Going) (fun _ _ _ hc _ => hc) (fun _ _ _ hc hm => hc.move hm)
      (h.trans (reaches_free hrun)) (.new address)
  by_cases hended : s'.coord.AllEnded
  · exact .inl hended
  · obtain ⟨dt, hdt, e, c, hturn, hstep⟩ :=
      Coordinator.goes_on aes s'.world hlock hgoing hended
    refine .inr ⟨dt, hdt, .coord e, ⟨{ s'.world with now := s'.world.now + dt }, c⟩, hturn, ?_⟩
    simp [run, step, World.step, hdt, hstep]

/-- From the first poll to the end of the second. -/
theorem polls_come_to_end_twoPolls :
    (twoPolls.drop 1).countP Event.isTurn + 0 ≤ 6 + 7 * (twoPolls.drop 1).countP Event.isArrival := by
  have hreached : Reachable capturedAes "A1:B2:C3:D4:E5:F6" none (after (twoPolls.take 1)) :=
    after_reachable (by decide +kernel)
  have hrun : (run (step capturedAes) (after (twoPolls.take 1)) (twoPolls.drop 1)).isSome = true := by
    decide +kernel
  obtain ⟨s', hs'⟩ := Option.isSome_iff_exists.mp hrun
  have hbound := (polls_come_to_end hreached hs').1
  have hleft : (after (twoPolls.take 1)).coord.turnsLeft = 6 := by decide +kernel
  rw [hleft] at hbound
  exact (Nat.add_le_add_left (Nat.zero_le _) _).trans hbound

end Sys

end GoveeH5086
