import GoveeH5086.History

/-!
# How a poll ends

1. `Move.readings`: a property of the running calls is kept by every move if the calls keep it.
2. `Coordinator.step_ended`: in a step at most one task ends its poll. A poll without a reading
   changes nothing that is stored, a poll with a reading stores it, and the listeners are told.
3. `Sys.poll_all_or_nothing`: the poll state is all-or-nothing, and a sensor that is available shows
   the reading of a recent success.
-/

namespace GoveeH5086
open BigEndian FifoLock Runs

/-- How an ended poll ended. -/
def Phase.result : Phase → Option Completion
  | .ended _ result => some result
  | _ => none

/-- The reading that `_read_one_notification` returned to an ended poll. -/
def Phase.obtained : Phase → Option PowerReading
  | .ended (some call) _ =>
    match call.point with
    | .ended (.returned obtained) => obtained
    | _ => none
  | _ => none

namespace Coordinator

def resultOf (c : Coordinator) (i : ℕ) : Option Completion := (c.phaseOf i).bind Phase.result

/-- Every listener shows what it would show if it were asked now. -/
def UpToDate (w : World) (c : Coordinator) : Prop :=
  ∀ e ∈ c.listeners, e.written = c.render w e.description

/-- A poll that ends in phase `p` stores the reading it obtained, or changes nothing; either way it
returns what is stored. -/
structure AllOrNothing (w : World) (c c' : Coordinator) (p : Phase) : Prop where
  failed : p.obtained = none →
    c'.lastReading = c.lastReading ∧ c'.lastSuccessfulPoll = c.lastSuccessfulPoll
  succeeded : ∀ reading, p.obtained = some reading →
    c'.lastReading = some reading ∧ c'.lastSuccessfulPoll = some w.now
  returned : p.result = some (.returned c'.lastReading)
  logged : ∃ source begun, c'.log = c.log ++ [.completed ⟨source, begun, w.now, p.obtained⟩]

/-- No poll ends, and nothing that is stored changes. -/
structure Quiet (c c' : Coordinator) : Prop where
  reading : c'.lastReading = c.lastReading
  poll : c'.lastSuccessfulPoll = c.lastSuccessfulPoll
  result : ∀ j, c'.resultOf j = c.resultOf j

/-- One poll ends, and the listeners are told. -/
def EndsPoll (w : World) (c c' : Coordinator) : Prop :=
  ∃ i p, c.resultOf i = none ∧ c'.phaseOf i = some p ∧
    (∀ j, j ≠ i → c'.resultOf j = c.resultOf j) ∧ AllOrNothing w c c' p ∧ c'.UpToDate w

/-- No running call has been cancelled. -/
def Uncancelled (c : Coordinator) : Prop :=
  ∀ i call, c.phaseOf i = some (.reading call) → call.point.exit ≠ some .cancelled

section
variable {aes : Aes} {w : World} {c c' : Coordinator}

/-! ## The running calls -/

/-- Only the phase of one task changes. -/
theorem setTask_readings {Q : Call → Prop} {i : ℕ} {t : Task}
    (h : ∀ j call, c.phaseOf j = some (.reading call) → Q call)
    (ht : ∀ call, t.phase = .reading call → Q call) :
    ∀ j call, (c.setTask i t).phaseOf j = some (.reading call) → Q call := by
  intro j call hj
  rw [phaseOf_setTask] at hj
  split at hj
  · exact ht call (Option.some.inj hj)
  · exact h j call hj

theorem leave_readings {Q : Call → Prop} {i : ℕ} {t : Task} {call₀ : Option Call} {exit : PollExit}
    (h : ∀ j call, c.phaseOf j = some (.reading call) → Q call) :
    ∀ j call, (c.leave w i t call₀ exit).phaseOf j = some (.reading call) → Q call := by
  intro j call hj
  rw [leave_phaseOf] at hj
  split at hj
  · cases hj
  · exact h j call hj

/-- What entering, resuming and the callback keep of the running calls, every move keeps. -/
theorem Move.readings {Q : Call → Prop} (hm : Move aes w c c')
    (start : c.pollLock.grant ≠ none → ∀ device, Q (Call.start device w.now))
    (resumed : ∀ call call' o, o ≠ .cancelled → call.resume w.now w.emitted.length o = some call' →
      Q call → Q call')
    (absorbed : ∀ call n raw, Q call → Q (call.absorb aes n raw))
    (h : ∀ i call, c.phaseOf i = some (.reading call) → Q call) :
    ∀ i call, c'.phaseOf i = some (.reading call) → Q call := by
  cases hm with
  | push | add _ | tick => exact h
  | arrive source device _ => exact setTask_readings h fun call hphase => by cases hphase
  | @begin i lock t device hgrant _ _ =>
    refine setTask_readings (c := { c with pollLock := lock }) h fun call hphase => ?_
    cases hphase
    exact start (by simp [hgrant]) device
  | @skip i lock t _ _ _ => exact leave_readings (c := { c with pollLock := lock }) h
  | @resume i t call call' o ht hphase ho hr _ =>
    refine setTask_readings h fun call₁ hphase₁ => ?_
    cases hphase₁
    exact resumed call call' o ho hr (h i call (phaseOf_some.mpr ⟨t, ht, hphase⟩))
  | finish _ _ _ _ _ => exact leave_readings h
  | @notify i n k t call raw ht _ _ _ _ =>
    refine setTask_readings h fun call₁ hphase₁ => ?_
    cases hphase : t.phase with
    | queued | ended _ _ =>
      rw [hphase] at hphase₁
      cases hphase₁
    | reading call₀ =>
      rw [hphase] at hphase₁
      cases hphase₁
      exact absorbed call₀ n raw (h i call₀ (phaseOf_some.mpr ⟨t, ht, hphase⟩))

theorem Uncancelled.move (h : c.Uncancelled) (hm : Move aes w c c') : c'.Uncancelled := by
  refine hm.readings (fun _ device => by simp [Call.start, Point.exit]) ?_ ?_ h
  · intro call call' o ho hr hcall hcancelled
    rcases (Call.resume_resumed hr).cancelled hcancelled with hold | hnow
    · exact hcall hold
    · exact ho hnow
  · intro call n raw hcall
    rcases Call.absorb_cases aes call n raw with hsame | ⟨reading, -, -, hnew⟩
    · rw [hsame]
      exact hcall
    · rw [hnew]
      exact hcall

/-- A running call does not end with a cancellation. -/
theorem Uncancelled.exit (h : c.Uncancelled) {i : ℕ} {t : Task} {call call' : Call} {o : Outcome}
    {exit : Completion} (ht : c.tasks i = some t) (hphase : t.phase = .reading call)
    (ho : o ≠ .cancelled) (hr : call.resume w.now w.emitted.length o = some call')
    (hexit : call'.point = .ended exit) : PollExit.read exit ≠ .read .cancelled := by
  intro heq
  cases heq
  have hpoint : call'.point.exit = some .cancelled := by
    rw [hexit]
    rfl
  rcases (Call.resume_resumed hr).cancelled hpoint with hold | hnow
  · exact h i call (phaseOf_some.mpr ⟨t, ht, hphase⟩) hold
  · exact ho hnow

/-! ## How a step ends a poll -/

theorem resultOf_setTask (c : Coordinator) (i : ℕ) (t : Task) (h : c.resultOf i = t.phase.result)
    (j : ℕ) : (c.setTask i t).resultOf j = c.resultOf j := by
  unfold resultOf
  rw [phaseOf_setTask]
  split
  · next hj =>
    rw [hj]
    exact h.symm
  · rfl

theorem leave_resultOf (w : World) (c : Coordinator) (i : ℕ) (t : Task) (call : Option Call)
    (exit : PollExit) {j : ℕ} (h : j ≠ i) :
    (c.leave w i t call exit).resultOf j = c.resultOf j := by
  unfold resultOf
  rw [leave_phaseOf, if_neg h]

theorem resultOf_eq {i : ℕ} {t : Task} (ht : c.tasks i = some t) :
    c.resultOf i = t.phase.result := by
  rw [resultOf, phaseOf, ht]
  rfl

theorem leave_allOrNothing (w : World) (c : Coordinator) (i : ℕ) (t : Task) (call : Option Call)
    {exit : PollExit} (hexit : exit ≠ .read .cancelled)
    (hobt : (Phase.ended call (c.pollResult exit)).obtained = exit.obtained) :
    AllOrNothing w c (c.leave w i t call exit) (.ended call (c.pollResult exit)) := by
  refine ⟨fun hnone => ?_, fun reading hsome => ?_, ?_,
    ⟨t.source, (call.map Call.begun).getD w.now, ?_⟩⟩
  · rw [leave_lastReading, leave_lastSuccessfulPoll, ← hobt, hnone]
    exact ⟨rfl, rfl⟩
  · rw [leave_lastReading, leave_lastSuccessfulPoll, ← hobt, hsome]
    exact ⟨rfl, rfl⟩
  · rw [leave_lastReading]
    cases exit with
    | noDevice => rfl
    | read exit =>
      cases exit with
      | returned reading => cases reading <;> rfl
      | raised err => rfl
      | cancelled => exact absurd rfl hexit
  · rw [leave_log, hobt]

theorem Quiet.endsPoll {c₁ : Coordinator} (hquiet : c.Quiet c₁) (hlog : c₁.log = c.log)
    (h : c₁.EndsPoll w c') : c.EndsPoll w c' := by
  obtain ⟨i, p, hi, hp, hothers, hall, hup⟩ := h
  refine ⟨i, p, (hquiet.result i).symm.trans hi, hp,
    fun j hj => (hothers j hj).trans (hquiet.result j), ⟨fun hnone => ?_, hall.succeeded,
    hall.returned, hlog ▸ hall.logged⟩, hup⟩
  obtain ⟨hreading, hpoll⟩ := hall.failed hnone
  exact ⟨hreading.trans hquiet.reading, hpoll.trans hquiet.poll⟩

theorem Quiet.andThen {c₁ : Coordinator} (hquiet : c.Quiet c₁) (hlog : c₁.log = c.log)
    (h : c₁.Quiet c' ∨ c₁.EndsPoll w c') : c.Quiet c' ∨ c.EndsPoll w c' := by
  rcases h with hnext | hends
  · exact .inl ⟨hnext.reading.trans hquiet.reading, hnext.poll.trans hquiet.poll,
      fun j => (hnext.result j).trans (hquiet.result j)⟩
  · exact .inr (hquiet.endsPoll hlog hends)

/-- A task that leaves with an end that was not a cancellation. -/
theorem leave_endsPoll (w : World) (c : Coordinator) {i : ℕ} {t : Task} (call : Option Call)
    {exit : PollExit} (ht : c.tasks i = some t) (hphase : t.phase.result = none)
    (hexit : exit ≠ .read .cancelled)
    (hobt : (Phase.ended call (c.pollResult exit)).obtained = exit.obtained) :
    c.EndsPoll w (c.leave w i t call exit) := by
  refine ⟨i, .ended call (c.pollResult exit), (resultOf_eq ht).trans hphase, ?_, ?_, ?_, ?_⟩
  · rw [leave_phaseOf, if_pos rfl]
  · exact fun j hj => leave_resultOf w c i t call exit hj
  · exact leave_allOrNothing w c i t call hexit hobt
  · exact leave_listeners w c i t call hexit

theorem arrive_quiet (h : c.LockInv) (source : Source) (device : Option BLEDevice) :
    c.Quiet (c.arrive w source device) := by
  refine ⟨rfl, rfl, resultOf_setTask c _ ⟨source, device, w.now, c.log.length, .queued⟩ ?_⟩
  rw [resultOf, h.phaseOf_nextTask]
  rfl

theorem begin_quiet (h : c.LockInv) {i : ℕ} {lock : Lock ℕ} {t : Task} (device : BLEDevice)
    (hgrant : c.pollLock.grant = some (i, lock)) (ht : c.tasks i = some t) :
    c.Quiet ({ c with pollLock := lock }.begin w i t device) := by
  refine ⟨rfl, rfl, resultOf_setTask c i { t with phase := .reading (Call.start device w.now) } ?_⟩
  rw [resultOf_eq ht, h.granted hgrant ht]
  rfl

theorem skip_endsPoll (h : c.LockInv) {i : ℕ} {lock : Lock ℕ} {t : Task}
    (hgrant : c.pollLock.grant = some (i, lock)) (ht : c.tasks i = some t) :
    c.EndsPoll w ({ c with pollLock := lock }.leave w i t none .noDevice) := by
  have hphase : t.phase.result = none := by
    rw [h.granted hgrant ht]
    rfl
  have hexit : PollExit.noDevice ≠ .read .cancelled := by simp
  have hends := leave_endsPoll w { c with pollLock := lock } none ht hphase hexit rfl
  have hquiet : c.Quiet { c with pollLock := lock } := ⟨rfl, rfl, fun _ => rfl⟩
  exact hquiet.endsPoll rfl hends

theorem Settles.ended {free : Bool} (hlock : c.LockInv) (h : Settles aes w free c c') :
    c.Quiet c' ∨ c.EndsPoll w c' := by
  cases h with
  | waits _ => exact .inl ⟨rfl, rfl, fun _ => rfl⟩
  | begins _ hgrant ht _ => exact .inl (begin_quiet hlock _ hgrant ht)
  | skips _ hgrant ht _ => exact .inr (skip_endsPoll hlock hgrant ht)

theorem Move.ended (hlock : c.LockInv) (huncancelled : c.Uncancelled) (h : Move aes w c c') :
    c.Quiet c' ∨ c.EndsPoll w c' := by
  cases h with
  | push | add _ | tick => exact .inl ⟨rfl, rfl, fun _ => rfl⟩
  | arrive source device _ => exact .inl (arrive_quiet hlock source device)
  | begin hgrant ht _ => exact .inl (begin_quiet hlock _ hgrant ht)
  | skip hgrant ht _ => exact .inr (skip_endsPoll hlock hgrant ht)
  | @resume i t call call' o ht hphase _ _ _ =>
    refine .inl ⟨rfl, rfl, resultOf_setTask c i { t with phase := .reading call' } ?_⟩
    rw [resultOf_eq ht, hphase]
    rfl
  | @finish i t call call' o exit ht hphase ho hr hexit =>
    have hcancelled := huncancelled.exit ht hphase ho hr hexit
    refine .inr (leave_endsPoll w c (some call') ht (by rw [hphase]; rfl) hcancelled ?_)
    unfold Phase.obtained
    simp only [hexit]
    cases exit <;> rfl
  | @notify i n k t call raw ht _ _ _ _ =>
    refine .inl ⟨rfl, rfl, resultOf_setTask c i
      { t with phase := t.phase.mapCall fun call => call.absorb aes n raw } ?_⟩
    rw [resultOf_eq ht]
    cases t.phase <;> rfl

/-- In a step at most one task ends its poll. -/
theorem step_ended {e : Event} (hlock : c.LockInv) (huncancelled : c.Uncancelled)
    (h : c.step aes w e = some c') : c.Quiet c' ∨ c.EndsPoll w c' := by
  cases step_stepped h with
  | skipped _ => exact .inl ⟨rfl, rfl, fun _ => rfl⟩
  | ticked _ hsettles =>
    -- the tick is counted, its task arrives, and is woken if the lock is free
    have hticked : Quiet c { c with ticks := c.ticks + 1 } := ⟨rfl, rfl, fun _ => rfl⟩
    exact hticked.andThen rfl
      ((arrive_quiet hlock.tick _ _).andThen rfl (hsettles.ended (hlock.tick.arrive _ _)))
  | advertised hsettles =>
    exact (arrive_quiet hlock _ _).andThen rfl (hsettles.ended (hlock.arrive _ _))
  | moved _ _ hm => exact hm.move.ended hlock huncancelled

/-! ## What the sensors show -/

theorem available_iff : c.available w = true ↔
    c.lastReading ≠ none ∧ ∃ p, c.lastSuccessfulPoll = some p ∧ w.now - p < 3 * w.scanInterval := by
  unfold available isRecentlyPolled secondsSinceLastPoll availabilityWindowMultiplier
  cases c.lastReading with
  | none => simp
  | some reading =>
    cases c.lastSuccessfulPoll with
    | none => simp
    | some p => simp [mul_comm]

theorem nativeValue_some {d : GoveeSensorDescription} {reading : PowerReading}
    (h : c.lastReading = some reading) : c.nativeValue d = some (d.valueFn reading) := by
  rw [nativeValue, h]

/-- An available sensor shows the reading of the last success, which is recent. -/
theorem LogInv.available (h : c.LogInv w) (havailable : c.available w = true)
    (d : GoveeSensorDescription) :
    ∃ x, (successes c.log).getLast? = some x ∧ c.nativeValue d = some (d.valueFn x.reading) ∧
      w.now - x.time < 3 * w.scanInterval := by
  obtain ⟨-, p, hp, hrecent⟩ := available_iff.mp havailable
  rw [h.poll] at hp
  obtain ⟨x, hx, rfl⟩ := Option.map_eq_some_iff.mp hp
  refine ⟨x, hx, nativeValue_some ?_, hrecent⟩
  rw [h.reading, hx]
  rfl

/-- Before the first success a sensor shows nothing. -/
theorem LogInv.unavailable (h : c.LogInv w) (hnone : successes c.log = [])
    (d : GoveeSensorDescription) : c.available w = false ∧ c.nativeValue d = none := by
  have hreading : c.lastReading = none := by
    rw [h.reading, hnone]
    rfl
  unfold Coordinator.available nativeValue
  rw [hreading]
  exact ⟨rfl, rfl⟩

end

end Coordinator

namespace Sys

variable {aes : Aes} {address : String} {scanInterval : Option ℤ} {ok : Sys → Event → Prop}
  {s s' : Sys}

theorem uncancelled (h : Reaches (step aes) ok (init address scanInterval) s) :
    s.coord.Uncancelled :=
  Sys.invariant (P := fun _ c => c.Uncancelled) (fun _ _ _ hc _ => hc)
    (fun _ _ _ hc hm => hc.move hm) h
    (by simp [Coordinator.Uncancelled, Coordinator.phaseOf, init, Coordinator.new,
      Coordinator.asyncInit, Coordinator.asyncStart])

/-- In a step nothing happens to what is stored, or one poll ends. -/
theorem step_ended {e : Event} (h : Reaches (step aes) ok (init address scanInterval) s)
    (hstep : s.step aes e = some s') :
    s.coord.Quiet s'.coord ∨ s.coord.EndsPoll s.world s'.coord ∧ s'.world = s.world := by
  cases e with
  | world e =>
    obtain ⟨w, -, rfl⟩ := Option.map_eq_some_iff.mp hstep
    exact .inl ⟨rfl, rfl, fun _ => rfl⟩
  | coord e =>
    obtain ⟨c, hc, rfl⟩ := Option.map_eq_some_iff.mp hstep
    rcases Coordinator.step_ended (lockInv h) (uncancelled h) hc with hquiet | hends
    · exact .inl hquiet
    · exact .inr ⟨hends, rfl⟩

/-- The poll that ends in a step. -/
theorem ended_of_result {e : Event} {i : ℕ} {result : Completion}
    (h : Reaches (step aes) ok (init address scanInterval) s) (hstep : s.step aes e = some s')
    (hbefore : s.coord.resultOf i = none) (hafter : s'.coord.resultOf i = some result) :
    ∃ p, s'.coord.phaseOf i = some p ∧ p.result = some result ∧
      Coordinator.AllOrNothing s.world s.coord s'.coord p ∧ s'.coord.UpToDate s'.world := by
  rcases step_ended h hstep with hquiet | ⟨⟨j, p, hj, hp, hothers, hall, hup⟩, hworld⟩
  · rw [hquiet.result i, hbefore] at hafter
    cases hafter
  · by_cases hij : i = j
    · subst hij
      refine ⟨p, hp, ?_, hall, hworld ▸ hup⟩
      rw [Coordinator.resultOf, hp] at hafter
      exact hafter
    · rw [hothers i hij, hbefore] at hafter
      cases hafter

/-- What is stored stays. -/
theorem lastReading_stays (h : Reachable aes address scanInterval s)
    (h' : Reaches (step aes) Free s s') (hsome : s.coord.lastReading ≠ none) :
    s'.coord.lastReading ≠ none := by
  have both : Reachable aes address scanInterval s' ∧ s'.coord.lastReading ≠ none := by
    refine h'.invariant (P := fun a => Reachable aes address scanInterval a ∧
      a.coord.lastReading ≠ none) ⟨h, hsome⟩ ?_
    rintro a e b ⟨ha, hread⟩ hok hstep
    refine ⟨ha.tail hok hstep, ?_⟩
    rcases step_ended ha hstep with hquiet | ⟨⟨i, p, -, -, -, hall, -⟩, -⟩
    · rw [hquiet.reading]
      exact hread
    · cases hobt : p.obtained with
      | none =>
        rw [(hall.failed hobt).1]
        exact hread
      | some reading =>
        rw [(hall.succeeded reading hobt).1]
        simp
  exact both.2

/-- The poll state is all-or-nothing. A poll that ends returns what is stored, and has stored what
it obtained or changed nothing; no other event changes what is stored. A sensor that is available
shows the reading of the last success, less than three scan intervals old. -/
theorem poll_all_or_nothing (h : Reachable aes address scanInterval s) :
    (∀ e s' i result, s.step aes e = some s' → s.coord.resultOf i = none →
      s'.coord.resultOf i = some result →
      ∃ p, s'.coord.phaseOf i = some p ∧ p.result = some result ∧
        Coordinator.AllOrNothing s.world s.coord s'.coord p) ∧
    (∀ e s', s.step aes e = some s' → (∀ i, s'.coord.resultOf i = s.coord.resultOf i) →
      s'.coord.lastReading = s.coord.lastReading ∧
      s'.coord.lastSuccessfulPoll = s.coord.lastSuccessfulPoll) ∧
    (s.coord.lastReading = none ↔ s.coord.lastSuccessfulPoll = none) ∧
    (∀ s', Reaches (step aes) Free s s' → s.coord.lastReading ≠ none →
      s'.coord.lastReading ≠ none ∧ s'.coord.lastSuccessfulPoll ≠ none) ∧
    (∀ d, s.coord.available s.world = true →
      ∃ x, (successes s.coord.log).getLast? = some x ∧
        s.coord.nativeValue d = some (d.valueFn x.reading) ∧
        s.world.now - x.time < 3 * s.world.scanInterval) ∧
    (∀ d, successes s.coord.log = [] →
      s.coord.available s.world = false ∧ s.coord.nativeValue d = none) := by
  have hlog := logInv h
  refine ⟨fun e s' i result hstep hbefore hafter => ?_, fun e s' hstep hsame => ?_,
    hlog.lastReading_none, fun s' h' hsome => ?_, fun d ha => hlog.available ha d,
    fun d hnone => hlog.unavailable hnone d⟩
  · obtain ⟨p, hp, hresult, hall, -⟩ := ended_of_result h hstep hbefore hafter
    exact ⟨p, hp, hresult, hall⟩
  · rcases step_ended h hstep with hquiet | ⟨⟨i, p, hi, hp, -, hall, -⟩, -⟩
    · exact ⟨hquiet.reading, hquiet.poll⟩
    · have hended : s'.coord.resultOf i = some (.returned s'.coord.lastReading) := by
        rw [Coordinator.resultOf, hp]
        exact hall.returned
      rw [hsame i, hi] at hended
      cases hended
  · have hstays := lastReading_stays h h' hsome
    have hlog' := logInv (h.trans h')
    exact ⟨hstays, fun hnone => hstays (hlog'.lastReading_none.mpr hnone)⟩

theorem poll_all_or_nothing_twoPolls :
    (after twoPolls).coord.available (after twoPolls).world = true ∧
    ∃ x, (successes (after twoPolls).coord.log).getLast? = some x ∧
      (after twoPolls).coord.nativeValue powerSensor = some x.reading.powerW ∧
      (after twoPolls).world.now - x.time < 3 * (after twoPolls).world.scanInterval :=
  have havailable : (after twoPolls).coord.available (after twoPolls).world = true := by
    decide +kernel
  ⟨havailable, (poll_all_or_nothing (after_reachable (by decide +kernel))).2.2.2.2.1 powerSensor
    havailable⟩

end Sys

end GoveeH5086
