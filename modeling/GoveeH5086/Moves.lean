import GoveeH5086.Library.Runs
import GoveeH5086.PacketFormat
import GoveeH5086.Coordinator

/-!
# What an event can do

An event of the coordinator is at most three moves: a tick is counted, a task joins the queue of
`_poll_lock`, and one more thing happens. A task that finds the lock free joins the queue and is
woken at once.

1. `World.Later`: what the passing of time can change.
2. `Coordinator.leave_eq`: everything that the end of a poll changes, and one lemma for each field.
3. `Move`: the moves. `Stepped`: the events, by moves. `Coordinator.step_stepped`: every event is
   one of those.
4. `Coordinator.step_invariant`, `Sys.invariant`: what every move preserves, every event preserves,
   and what the moves and the passing of time preserve holds in every state of a run.
-/

namespace GoveeH5086
open BigEndian FifoLock Runs

/-- Time passes: the clock is not set back, the options stay, and at most one notification is
emitted. -/
structure World.Later (w w' : World) : Prop where
  now : w.now ≤ w'.now
  scanIntervalOption : w'.scanIntervalOption = w.scanIntervalOption
  emitted : w'.emitted = w.emitted ∨ ∃ raw, w'.emitted = w.emitted ++ [raw]

theorem World.step_later {w w' : World} {e : World.Event} (h : w.step e = some w') :
    w.Later w' := by
  cases e with
  | advance dt =>
    simp only [World.step] at h
    split at h
    · next hdt =>
      cases h
      exact ⟨le_add_of_nonneg_right hdt, rfl, .inl rfl⟩
    · cases h
  | setState state =>
    cases h
    exact ⟨le_refl _, rfl, .inl rfl⟩
  | emit raw =>
    cases h
    exact ⟨le_refl _, rfl, .inr ⟨raw, rfl⟩⟩

theorem World.Later.scanInterval {w w' : World} (h : w.Later w') :
    w'.scanInterval = w.scanInterval := by
  unfold World.scanInterval
  rw [h.scanIntervalOption]

/-- The entries of a table after one of them changed. -/
theorem update_eq_some {α : Type*} {f : ℕ → Option α} {i j : ℕ} {u v : α}
    (h : Function.update f i (some u) j = some v) : j = i ∧ u = v ∨ j ≠ i ∧ f j = some v := by
  rw [Function.update_apply] at h
  split at h
  · next hji => exact .inl ⟨hji, Option.some.inj h⟩
  · next hji => exact .inr ⟨hji, h⟩

namespace Coordinator

/-! ## Effects -/

/-- The age check of `_fallback_tick` lets the tick through. -/
def GateOpen (w : World) (c : Coordinator) : Prop :=
  w.state = .running ∧ ∀ age, c.secondsSinceLastPoll w = some age → (w.scanInterval : ℚ) ≤ age

/-- A new task joins the end of the queue. -/
def arrive (w : World) (c : Coordinator) (source : Source) (device : Option BLEDevice) :
    Coordinator :=
  { c.setTask c.nextTask ⟨source, device, w.now, c.log.length, .queued⟩ with
    nextTask := c.nextTask + 1
    pollLock := c.pollLock.enqueue c.nextTask }

/-- The task is inside `_read_one_notification`. -/
def begin (w : World) (c : Coordinator) (i : ℕ) (t : Task) (device : BLEDevice) : Coordinator :=
  { c.setTask i { t with phase := .reading (Call.start device w.now) } with
    log := c.log ++ [.began i t.source w.now t.seen] }

theorem setTask_self (c : Coordinator) (i : ℕ) (t : Task) : (c.setTask i t).tasks i = some t :=
  Function.update_self ..

theorem setTask_of_ne (c : Coordinator) {i j : ℕ} (t : Task) (h : j ≠ i) :
    (c.setTask i t).tasks j = c.tasks j :=
  Function.update_of_ne h ..

/-- The fields of `afterPoll` other than the parent's clock and the listeners are unchanged. -/
theorem afterPoll_eq (w : World) (c : Coordinator) (source : Source) (result : Completion) :
    afterPoll w c source result = { c with
      lastPoll := if source = .adv then some w.now else c.lastPoll
      listeners := (afterPoll w c source result).listeners } := by
  cases source <;> cases result <;> rfl

/-- How `_poll_once` ends. -/
def pollResult (c : Coordinator) : PollExit → Completion
  | .read .cancelled => .cancelled
  | .read (.returned (some reading)) => .returned (some reading)
  | _ => .returned c.lastReading

theorem pollOnce_eq (now : ℚ) (c : Coordinator) (exit : PollExit) :
    c.pollOnce now exit =
      ({ c with
          lastReading := exit.obtained <|> c.lastReading
          lastSuccessfulPoll := (exit.obtained.map fun _ => now) <|> c.lastSuccessfulPoll },
        c.pollResult exit) := by
  cases exit with
  | noDevice => rfl
  | read exit =>
    cases exit with
    | returned reading => cases reading <;> rfl
    | raised err => rfl
    | cancelled => rfl

/-- Everything that leaving does. -/
theorem leave_eq (w : World) (c : Coordinator) (i : ℕ) (t : Task) (call : Option Call)
    (exit : PollExit) :
    c.leave w i t call exit = { c with
      lastReading := exit.obtained <|> c.lastReading
      lastSuccessfulPoll := (exit.obtained.map fun _ => w.now) <|> c.lastSuccessfulPoll
      tasks := Function.update c.tasks i (some { t with phase := .ended call (c.pollResult exit) })
      pollLock := c.pollLock.release
      log := c.log ++ [.completed
        ⟨t.source, (call.map Call.begun).getD w.now, w.now, exit.obtained⟩]
      published := c.published ++
        (exit.obtained.map fun reading => ((call.bind Call.source).getD 0, reading)).toList
      lastPoll := if t.source = .adv then some w.now else c.lastPoll
      listeners := (c.leave w i t call exit).listeners } := by
  unfold leave
  rw [pollOnce_eq]
  exact afterPoll_eq w _ t.source (c.pollResult exit)

section
variable (w : World) (c : Coordinator) (i : ℕ) (t : Task) (call : Option Call) (exit : PollExit)

theorem leave_lastReading :
    (c.leave w i t call exit).lastReading = (exit.obtained <|> c.lastReading) := by
  rw [leave_eq]

theorem leave_lastSuccessfulPoll : (c.leave w i t call exit).lastSuccessfulPoll =
    ((exit.obtained.map fun _ => w.now) <|> c.lastSuccessfulPoll) := by
  rw [leave_eq]

theorem leave_pollLock : (c.leave w i t call exit).pollLock = c.pollLock.release := by
  rw [leave_eq]

theorem leave_lastPoll : (c.leave w i t call exit).lastPoll =
    if t.source = .adv then some w.now else c.lastPoll := by
  rw [leave_eq]

theorem leave_tasks : (c.leave w i t call exit).tasks =
    Function.update c.tasks i (some { t with phase := .ended call (c.pollResult exit) }) := by
  rw [leave_eq]

theorem leave_nextTask : (c.leave w i t call exit).nextTask = c.nextTask := by
  rw [leave_eq]

theorem leave_ticks : (c.leave w i t call exit).ticks = c.ticks := by
  rw [leave_eq]

theorem leave_fallbackLive : (c.leave w i t call exit).fallbackLive = c.fallbackLive := by
  rw [leave_eq]

theorem leave_subscribed : (c.leave w i t call exit).subscribed = c.subscribed := by
  rw [leave_eq]

theorem leave_log : (c.leave w i t call exit).log = c.log ++ [.completed
    ⟨t.source, (call.map Call.begun).getD w.now, w.now, exit.obtained⟩] := by
  rw [leave_eq]

theorem leave_published : (c.leave w i t call exit).published = c.published ++
    (exit.obtained.map fun reading => ((call.bind Call.source).getD 0, reading)).toList := by
  rw [leave_eq]

end

/-- A poll that was not cancelled updates the listeners as it ends. -/
theorem leave_listeners (w : World) (c : Coordinator) (i : ℕ) (t : Task) (call : Option Call)
    {exit : PollExit} (h : exit ≠ .read .cancelled) :
    ∀ e ∈ (c.leave w i t call exit).listeners,
      e.written = (c.leave w i t call exit).render w e.description := by
  have hret : ∃ data, c.pollResult exit = .returned data := by
    unfold pollResult
    split
    · exact absurd rfl h
    · exact ⟨_, rfl⟩
    · exact ⟨_, rfl⟩
  obtain ⟨data, hdata⟩ := hret
  rw [leave, pollOnce_eq, hdata]
  intro e he
  cases hs : t.source with
  | adv =>
    simp only [afterPoll, hs, asyncUpdateListeners, List.mem_map] at he ⊢
    obtain ⟨e', -, rfl⟩ := he
    rfl
  | timer =>
    simp only [afterPoll, hs, asyncUpdateListeners, List.mem_map] at he ⊢
    obtain ⟨e', -, rfl⟩ := he
    rfl

/-! ## Moves -/

/-- One thing that happens to the coordinator. -/
inductive Move (aes : Aes) (w : World) (c : Coordinator) : Coordinator → Prop
  | push : Move aes w c (c.asyncUpdateListeners w)
  | add (d : GoveeSensorDescription) : Move aes w c (c.addSensor w d)
  | tick : Move aes w c { c with ticks := c.ticks + 1 }
  | arrive (source : Source) (device : Option BLEDevice) :
      (source = .timer → c.GateOpen w) → Move aes w c (c.arrive w source device)
  | begin {i : ℕ} {lock : Lock ℕ} {t : Task} {device : BLEDevice} :
      c.pollLock.grant = some (i, lock) → c.tasks i = some t → t.device = some device →
      Move aes w c ({ c with pollLock := lock }.begin w i t device)
  | skip {i : ℕ} {lock : Lock ℕ} {t : Task} :
      c.pollLock.grant = some (i, lock) → c.tasks i = some t → t.device = none →
      Move aes w c ({ c with pollLock := lock }.leave w i t none .noDevice)
  | resume {i : ℕ} {t : Task} {call call' : Call} {o : Outcome} :
      c.tasks i = some t → t.phase = .reading call → o ≠ .cancelled →
      call.resume w.now w.emitted.length o = some call' → (∀ exit, call'.point ≠ .ended exit) →
      Move aes w c (c.setTask i { t with phase := .reading call' })
  | finish {i : ℕ} {t : Task} {call call' : Call} {o : Outcome} {exit : Completion} :
      c.tasks i = some t → t.phase = .reading call → o ≠ .cancelled →
      call.resume w.now w.emitted.length o = some call' → call'.point = .ended exit →
      Move aes w c (c.leave w i t (some call') (.read exit))
  | notify {i n k : ℕ} {t : Task} {call : Call} {raw : Bytes} :
      c.tasks i = some t → t.phase.call = some call → call.since = some k → k ≤ n →
      w.emitted[n]? = some raw →
      Move aes w c (c.setTask i { t with
        phase := t.phase.mapCall fun call => call.absorb aes n raw })

/-- A move that neither counts a tick nor starts a task. -/
structure Moves (aes : Aes) (w : World) (c c' : Coordinator) : Prop where
  ticks : c'.ticks = c.ticks
  nextTask : c'.nextTask = c.nextTask
  move : Move aes w c c'

/-- The head of the queue is woken, if the lock was free for the task that just arrived. -/
inductive Settles (aes : Aes) (w : World) (free : Bool) (c : Coordinator) : Coordinator → Prop
  | waits : free = false → Settles aes w free c c
  | begins {i : ℕ} {lock : Lock ℕ} {t : Task} {device : BLEDevice} :
      free = true → c.pollLock.grant = some (i, lock) → c.tasks i = some t →
      t.device = some device →
      Settles aes w free c ({ c with pollLock := lock }.begin w i t device)
  | skips {i : ℕ} {lock : Lock ℕ} {t : Task} :
      free = true → c.pollLock.grant = some (i, lock) → c.tasks i = some t → t.device = none →
      Settles aes w free c ({ c with pollLock := lock }.leave w i t none .noDevice)

/-- An event, by moves. -/
inductive Stepped (aes : Aes) (w : World) (c : Coordinator) : Event → Coordinator → Prop
  | skipped {manager : Option BLEDevice} : ¬ c.GateOpen w →
      Stepped aes w c (.fallbackTick manager) { c with ticks := c.ticks + 1 }
  | ticked {manager : Option BLEDevice} {c' : Coordinator} : c.GateOpen w →
      Settles aes w c.pollLock.free ({ c with ticks := c.ticks + 1 }.arrive w .timer manager) c' →
      Stepped aes w c (.fallbackTick manager) c'
  | advertised {service manager : Option BLEDevice} {c' : Coordinator} :
      Settles aes w c.pollLock.free (c.arrive w .adv (service <|> manager)) c' →
      Stepped aes w c (.goveePoll service manager) c'
  | moved {e : Event} {c' : Coordinator} : (∀ manager, e ≠ .fallbackTick manager) →
      (∀ service manager, e ≠ .goveePoll service manager) → Moves aes w c c' →
      Stepped aes w c e c'

/-! ## Every event is made of moves -/

section
variable {aes : Aes} {w : World} {c c' : Coordinator}

theorem spawn_busy (h : c.pollLock.free = false) (source : Source) (device : Option BLEDevice) :
    c.spawn w source device = c.arrive w source device := by
  simp [spawn, arrive, Lock.acquire_busy h]

theorem spawn_settles (aes : Aes) (w : World) (c : Coordinator) (source : Source)
    (device : Option BLEDevice) :
    Settles aes w c.pollLock.free (c.arrive w source device) (c.spawn w source device) := by
  cases hfree : c.pollLock.free with
  | false =>
    rw [spawn_busy hfree]
    exact .waits rfl
  | true =>
    have hgrant := Lock.acquire_free_grant hfree c.nextTask
    have htask : (c.arrive w source device).tasks c.nextTask =
        some ⟨source, device, w.now, c.log.length, .queued⟩ := setTask_self ..
    cases device with
    | none =>
      have hspawn : c.spawn w source none =
          { c.arrive w source none with pollLock := (c.pollLock.acquire c.nextTask).1 }.leave w
            c.nextTask ⟨source, none, w.now, c.log.length, .queued⟩ none .noDevice := by
        rw [spawn, Lock.acquire_free hfree]
        rfl
      rw [hspawn]
      exact .skips rfl hgrant htask rfl
    | some device =>
      have hspawn : c.spawn w source (some device) =
          { c.arrive w source (some device) with
              pollLock := (c.pollLock.acquire c.nextTask).1 }.begin w
            c.nextTask ⟨source, some device, w.now, c.log.length, .queued⟩ device := by
        rw [spawn, Lock.acquire_free hfree]
        rfl
      rw [hspawn]
      exact .begins rfl hgrant htask rfl

/-- Before the first success a tick always polls. -/
theorem fallbackTick_never (hrunning : w.state = .running) (hnever : c.lastSuccessfulPoll = none)
    (manager : Option BLEDevice) : c.fallbackTick w manager = c.spawn w .timer manager := by
  rw [fallbackTick, if_neg (not_not.mpr hrunning), secondsSinceLastPoll, hnever]

theorem fallbackTick_stepped (aes : Aes) (w : World) (c : Coordinator)
    (manager : Option BLEDevice) :
    Stepped aes w c (.fallbackTick manager) ({ c with ticks := c.ticks + 1 }.fallbackTick w manager)
    := by
  have hsettles := spawn_settles aes w { c with ticks := c.ticks + 1 } .timer manager
  unfold fallbackTick
  split
  · next hstate => exact .skipped fun hgate => hstate hgate.1
  · next hstate =>
    split
    · next hage =>
      refine .ticked ⟨not_not.mp hstate, fun age h => ?_⟩ hsettles
      exact absurd (hage.symm.trans h) (by simp)
    · next age hage =>
      split
      · next hlt => exact .skipped fun hgate => absurd (hgate.2 age hage) (not_le.mpr hlt)
      · next hlt =>
        refine .ticked ⟨not_not.mp hstate, fun age' h => ?_⟩ hsettles
        cases hage.symm.trans h
        exact not_lt.mp hlt

theorem enter_moves {i : ℕ} {lock : Lock ℕ} {t : Task} (hgrant : c.pollLock.grant = some (i, lock))
    (ht : c.tasks i = some t) : Moves aes w c ({ c with pollLock := lock }.enter w i t) := by
  unfold enter
  split
  · next hd => exact ⟨leave_ticks .., leave_nextTask .., .skip hgrant ht hd⟩
  · next device hd => exact ⟨rfl, rfl, .begin hgrant ht hd⟩

theorem proceed_moves {i : ℕ} {t : Task} {call call' : Call} {o : Outcome}
    (ht : c.tasks i = some t) (hphase : t.phase = .reading call) (ho : o ≠ .cancelled)
    (h : call.resume w.now w.emitted.length o = some call') :
    Moves aes w c (c.proceed w i t call') := by
  unfold proceed
  split
  · next exit hexit => exact ⟨leave_ticks .., leave_nextTask .., .finish ht hphase ho h hexit⟩
  · next hexit => exact ⟨rfl, rfl, .resume ht hphase ho h fun exit he => hexit exit he⟩

theorem deliver_moves {i n k : ℕ} {t : Task} {call : Call} {raw : Bytes}
    (ht : c.tasks i = some t) (hcall : t.phase.call = some call) (hk : call.since = some k)
    (hle : k ≤ n) (hn : w.emitted[n]? = some raw) : Moves aes w c (c.deliver aes i t n raw) := by
  unfold deliver
  simp only [Call.onNotify_eq]
  exact ⟨rfl, rfl, .notify ht hcall hk hle hn⟩

/-- Every event is made of moves. -/
theorem step_stepped {e : Event} (h : c.step aes w e = some c') : Stepped aes w c e c' := by
  cases e with
  | goveePoll service manager =>
    simp only [step] at h
    split at h
    · cases h
      exact .advertised (spawn_settles aes w c .adv _)
    · cases h
  | fallbackTick manager =>
    simp only [step] at h
    split at h
    · cases h
      exact fallbackTick_stepped aes w c manager
    · cases h
  | grant =>
    refine .moved (by simp) (by simp) ?_
    simp only [step] at h
    split at h
    · cases h
    · next i lock hgrant =>
      obtain ⟨t, ht, rfl⟩ := Option.map_eq_some_iff.mp h
      exact enter_moves hgrant ht
  | resume i o =>
    refine .moved (by simp) (by simp) ?_
    simp only [step] at h
    split at h
    · next ht =>
      obtain ⟨call', hcall, rfl⟩ := Option.map_eq_some_iff.mp h
      exact proceed_moves ht rfl (by simp) hcall
    · next ht =>
      obtain ⟨call', hcall, rfl⟩ := Option.map_eq_some_iff.mp h
      exact proceed_moves ht rfl (by simp) hcall
    · cases h
  | notify i n =>
    refine .moved (by simp) (by simp) ?_
    simp only [step] at h
    split at h
    · next t raw ht hn =>
      split at h
      · next k hk =>
        obtain ⟨call, hcall, hsince⟩ := Option.bind_eq_some_iff.mp hk
        split at h
        · next hle =>
          cases h
          exact deliver_moves ht hcall hsince hle hn
        · cases h
      · cases h
    · cases h
  | updateListeners =>
    cases h
    exact .moved (by simp) (by simp) ⟨rfl, rfl, .push⟩
  | addSensor d =>
    cases h
    exact .moved (by simp) (by simp) ⟨rfl, rfl, .add d⟩

theorem Settles.nextTask {free : Bool} (h : Settles aes w free c c') :
    c'.nextTask = c.nextTask := by
  cases h with
  | waits _ => rfl
  | begins _ _ _ _ => rfl
  | skips _ _ _ _ => rw [leave_nextTask]

theorem Settles.ticks {free : Bool} (h : Settles aes w free c c') : c'.ticks = c.ticks := by
  cases h with
  | waits _ => rfl
  | begins _ _ _ _ => rfl
  | skips _ _ _ _ => rw [leave_ticks]

theorem Settles.invariant {P : Coordinator → Prop} {free : Bool}
    (moves : ∀ c c', P c → Move aes w c c' → P c') (h : Settles aes w free c c') (hP : P c) :
    P c' := by
  cases h with
  | waits _ => exact hP
  | begins _ hgrant ht hd => exact moves _ _ hP (.begin hgrant ht hd)
  | skips _ hgrant ht hd => exact moves _ _ hP (.skip hgrant ht hd)

/-- What every move preserves, every event preserves. -/
theorem step_invariant {P : Coordinator → Prop} {e : Event}
    (moves : ∀ c c', P c → Move aes w c c' → P c') (h : c.step aes w e = some c') (hP : P c) :
    P c' := by
  cases step_stepped h with
  | skipped _ => exact moves _ _ hP .tick
  | ticked hgate hsettles =>
    have hticked := moves _ _ hP .tick
    exact hsettles.invariant moves (moves _ _ hticked (.arrive .timer _ fun _ => hgate))
  | advertised hsettles =>
    exact hsettles.invariant moves (moves _ _ hP (.arrive .adv _ (by simp)))
  | moved _ _ hm => exact moves _ _ hP hm.move

end

end Coordinator

namespace Sys

/-- `s` is reached in some run of a coordinator that was just set up. -/
def Reachable (aes : Aes) (address : String) (scanInterval : Option ℤ) (s : Sys) : Prop :=
  Reaches (step aes) Free (init address scanInterval) s

/-- An invariant holds after every event. -/
theorem step_invariant {aes : Aes} {P : World → Coordinator → Prop}
    (time : ∀ w w' c, P w c → w.Later w' → P w' c)
    (moves : ∀ w c c', P w c → Coordinator.Move aes w c c' → P w c') {s s' : Sys} {e : Event}
    (h : s.step aes e = some s') (hP : P s.world s.coord) : P s'.world s'.coord := by
  cases e with
  | world e =>
    obtain ⟨w, hw, rfl⟩ := Option.map_eq_some_iff.mp h
    exact time _ _ _ hP (World.step_later hw)
  | coord e =>
    obtain ⟨c, hc, rfl⟩ := Option.map_eq_some_iff.mp h
    exact Coordinator.step_invariant (moves s.world) hc hP

/-- An invariant holds in every state of a run. -/
theorem invariant {aes : Aes} {P : World → Coordinator → Prop}
    (time : ∀ w w' c, P w c → w.Later w' → P w' c)
    (moves : ∀ w c c', P w c → Coordinator.Move aes w c c' → P w c')
    {ok : Sys → Event → Prop} {s s' : Sys} (h : Reaches (step aes) ok s s')
    (start : P s.world s.coord) : P s'.world s'.coord :=
  h.invariant (P := fun a => P a.world a.coord) start
    fun _ _ _ ha _ hstep => step_invariant time moves hstep ha

/-! ## Runs on given events -/

def plug : BLEDevice := ⟨"A1:B2:C3:D4:E5:F6", none⟩

/-- The state after given events, on a plug whose packets decode to the captured record. -/
def after (events : List Event) : Sys :=
  outcome (guarded (step capturedAes) fun _ _ => true) (init plug.address none) events

theorem after_reachable {events : List Event}
    (h : (run (guarded (step capturedAes) fun _ _ => true) (init plug.address none) events).isSome =
      true) : Reachable capturedAes plug.address none (after events) :=
  reaches_outcome h fun _ _ _ => trivial

/-- Task `i` reads the `n`-th notification, which the plug emits once the connection is there. -/
def reads (i n : ℕ) : List Event :=
  [.coord (.resume i .returns), .world (.emit capturedPacket), .coord (.resume i .returns),
    .coord (.notify i n), .coord (.resume i .returns), .coord (.resume i .returns),
    .coord (.resume i .returns), .coord (.resume i .returns)]

/-- Two polls, by the two paths. -/
def twoPolls : List Event :=
  .coord (.goveePoll (some plug) none) :: reads 0 0 ++
    .world (.advance 30) :: .coord (.fallbackTick (some plug)) :: reads 1 1

end Sys

end GoveeH5086
