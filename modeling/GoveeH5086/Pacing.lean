import GoveeH5086.Streaming
import GoveeH5086.Library.Backoff

/-!
# The pace of a monitored plug

The loop of `monitor_one` is a backoff: an attempt is a `connect`, a success is a subscription, and
a failure is what `except Exception` catches. Once the event is set, the loop is left.

1. `Stream.refines_backoff`: every run of the task is a run of `Backoff`.
2. `Stream.retry_delays`: how long the task waits after a failure.
3. `Stream.connects_paced`: how soon an attempt can come.
4. `Stream.stops_soon`: once the event is set the task connects no more and ends in a few turns.
-/

namespace GoveeH5086
namespace Monitor
open Runs

/-! ## The backoff -/

/-- The delays of the loop. -/
def plan : Backoff.Plan ℚ := ⟨initialBackoff, 2, 30⟩

theorem plan_sound : plan.Sound := ⟨by norm_num [plan, initialBackoff], one_le_two,
  by norm_num [plan, initialBackoff]⟩

/-- What a mark is to the backoff. -/
def Mark.paced : Mark → Option (Backoff.Mark ℚ)
  | .connecting time => some (.attempt time)
  | .subscribed time => some (.success time)
  | .retrying time delay => some (.failure time delay)
  | .opened | .wrote _ _ | .closed => none

/-- How many attempts failed since the last subscription. -/
def failures (log : List Mark) : ℕ := Backoff.failures (log.filterMap Mark.paced)

/-- The time of the last subscription, or of the start. -/
def since (start : ℚ) (log : List Mark) : ℚ := Backoff.since start (log.filterMap Mark.paced)

/-- The end of the delay that is waited for. -/
def StreamPoint.waiting : StreamPoint → Option ℚ
  | .backoffWait deadline => some deadline
  | .created | .connect | .startNotify | .keepaliveWait _ | .keepaliveWrite | .stopNotify
  | .disconnect _ | .ended _ => none

namespace Stream

/-- `a` follows the task. -/
structure Follows (s : Stream) (a : Backoff.State ℚ) : Prop where
  log : a.log = s.log.filterMap Mark.paced
  now : a.now = s.now
  loop : (∀ exit, s.point ≠ .ended exit) → a.delay = s.backoff ∧ a.waiting = s.point.waiting

/-- `a` follows the task, which is between two delays. -/
structure Between (s : Stream) (a : Backoff.State ℚ) : Prop where
  log : a.log = s.log.filterMap Mark.paced
  now : a.now = s.now
  delay : a.delay = s.backoff
  waiting : a.waiting = none

/-- Some run of the backoff ends as `P` says. -/
def Answers (a : Backoff.State ℚ) (P : Backoff.State ℚ → Prop) : Prop :=
  ∃ a', Reaches (Backoff.step plan) Free a a' ∧ P a'

section
variable {s s' : Stream} {a : Backoff.State ℚ}

theorem Follows.between (h : Follows s a) (hfree : s.point.waiting = none)
    (hgoes : ∀ exit, s.point ≠ .ended exit) : Between s a := by
  obtain ⟨hdelay, hwaiting⟩ := h.loop hgoes
  exact ⟨h.log, h.now, hdelay, hwaiting.trans hfree⟩

theorem Follows.ends (h : Follows s a) (hlog : s'.log = s.log) (hnow : s'.now = s.now)
    {exit : Leaving} (hended : s'.point = .ended exit) : Follows s' a :=
  ⟨hlog ▸ h.log, hnow ▸ h.now, fun hgoes => absurd hended (hgoes exit)⟩

namespace Between

theorem cancelled (h : Between s a) : Follows s.cancelledNow a :=
  ⟨h.log, h.now, fun hgoes => absurd rfl (hgoes .cancelled)⟩

theorem again (h : Between s a) : Answers a (Follows s.again) := by
  unfold Stream.again
  split
  · exact ⟨a, .refl, h.log, h.now, fun hgoes => absurd rfl (hgoes .normally)⟩
  · refine ⟨{ a with log := a.log ++ [.attempt a.now] }, .single (e := .attempt) trivial ?_, ?_⟩
    · simp [Backoff.step, h.waiting]
    · exact ⟨by simp [h.log, h.now, Mark.paced], h.now, fun _ => ⟨h.delay, h.waiting⟩⟩

theorem failed (h : Between s a) (err : PyException) : Answers a (Follows (s.failed err)) := by
  refine ⟨{ a with
    waiting := some (a.now + a.delay), log := a.log ++ [.failure a.now a.delay] },
    .single (e := .failure) trivial ?_, ?_⟩
  · simp [Backoff.step, h.waiting]
  · refine ⟨?_, h.now, fun _ => ⟨h.delay, ?_⟩⟩
    · simp [Stream.failed, h.log, h.now, h.delay, Mark.paced]
    · simp [Stream.failed, h.now, h.delay, StreamPoint.waiting]

theorem leave (h : Between s a) (exit : Leaving) : Answers a (Follows (s.leave exit)) := by
  cases exit with
  | normally => exact h.again
  | raised err => exact h.failed err
  | cancelled => exact ⟨a, .refl, h.cancelled⟩

theorem subscribed (h : Between s a) : Answers a (Between s.subscribed) := by
  refine ⟨{ a with delay := plan.base, log := a.log ++ [.success a.now] },
    .single (e := .success) trivial ?_, ?_⟩
  · simp [Backoff.step, h.waiting]
  · exact ⟨by simp [Stream.subscribed, h.log, h.now, Mark.paced], h.now, rfl, h.waiting⟩

theorem opened (h : Between s a) : Between s.opened a :=
  ⟨by simp [Stream.opened, h.log, Mark.paced], h.now, h.delay, h.waiting⟩

theorem exitClient (h : Between s a) (exit : Leaving) : Follows (s.exitClient exit) a :=
  ⟨by simp [Stream.exitClient, h.log, Mark.paced], h.now, fun _ => ⟨h.delay, h.waiting⟩⟩

theorem keepAlive (h : Between s a) : Follows s.keepAlive a := by
  unfold Stream.keepAlive
  split
  · exact ⟨h.log, h.now, fun _ => ⟨h.delay, h.waiting⟩⟩
  · exact ⟨h.log, h.now, fun _ => ⟨h.delay, h.waiting⟩⟩

theorem afterWait (h : Between s a) : Follows s.afterWait a := by
  unfold Stream.afterWait
  split
  · exact ⟨h.log, h.now, fun _ => ⟨h.delay, h.waiting⟩⟩
  · exact ⟨by simp [h.log, Mark.paced], h.now, fun _ => ⟨h.delay, h.waiting⟩⟩

end Between

/-- The delay is over, or is cut short because the task is to stop. -/
theorem Follows.backedOff (h : Follows s a) {deadline : ℚ} (hp : s.point = .backoffWait deadline)
    (hover : s.stop = true ∨ deadline ≤ s.now) : Answers a (Follows s.backedOff.again) := by
  obtain ⟨hdelay, hwaiting⟩ := h.loop (by simp [hp])
  rw [hp] at hwaiting
  rcases hover with hstop | hdeadline
  · have hended : s.backedOff.again = { s.backedOff with point := .ended .normally } := by
      simp [Stream.again, Stream.backedOff, hstop]
    rw [hended]
    exact ⟨a, .refl, h.ends rfl rfl rfl⟩
  · have hstep : Backoff.step plan a .expire =
        some { a with waiting := none, delay := plan.next a.delay } := by
      simp [Backoff.step, hwaiting, StreamPoint.waiting, h.now, hdeadline]
    have hbetween : Between s.backedOff { a with waiting := none, delay := plan.next a.delay } :=
      ⟨h.log, h.now, by rw [hdelay]; rfl, rfl⟩
    obtain ⟨a', hreach, hfollows⟩ := hbetween.again
    exact ⟨a', (Reaches.single trivial hstep).trans hreach, hfollows⟩

theorem Turn.answer (ht : Turn s s') (h : Follows s a) : Answers a (Follows s') := by
  have between : s.point.waiting = none → (∀ exit, s.point ≠ .ended exit) → Between s a := h.between
  cases ht with
  | again hp => exact (between (by rw [hp]; rfl) (by simp [hp])).again
  | @closed exit hp =>
    have hbetween := between (by rw [hp]; rfl) (by simp [hp])
    exact Between.leave (s := s.dropped) ⟨hbetween.log, hbetween.now, hbetween.delay,
      hbetween.waiting⟩ exit
  | backedOff hp hover => exact h.backedOff hp hover
  | opened hp =>
    have hbetween := (between (by rw [hp]; rfl) (by simp [hp])).opened
    exact ⟨a, .refl, hbetween.log, hbetween.now, fun _ => ⟨hbetween.delay, hbetween.waiting⟩⟩
  | noServices err hp =>
    exact ⟨a, .refl, (between (by rw [hp]; rfl) (by simp [hp])).opened.exitClient _⟩
  | subscribed hp =>
    obtain ⟨a', hreach, hbetween⟩ := (between (by rw [hp]; rfl) (by simp [hp])).subscribed
    exact ⟨a', hreach, hbetween.keepAlive⟩
  | waited hp => exact ⟨a, .refl, (between (by rw [hp]; rfl) (by simp [hp])).afterWait⟩
  | wrote hp => exact ⟨a, .refl, (between (by rw [hp]; rfl) (by simp [hp])).keepAlive⟩
  | exits exit hholds =>
    have hbetween : Between s a := by
      refine between ?_ fun exit hended => by rw [hended] at hholds; cases hholds
      cases hp : s.point with
      | backoffWait deadline => rw [hp] at hholds; cases hholds
      | _ => rfl
    exact ⟨a, .refl, hbetween.exitClient exit⟩
  | failed err hp =>
    refine (between ?_ ?_).failed err
    · rcases hp with hp | ⟨exit, hp⟩ <;> rw [hp] <;> rfl
    · rcases hp with hp | ⟨exit, hp⟩ <;> simp [hp]
  | cancelled _ _ => exact ⟨a, .refl, h.ends rfl rfl rfl⟩

/-- Every run of the task is one of the backoff. -/
theorem refines_backoff {aes : Aes} {device : BLEDevice} {label : String} {now : ℚ}
    (hrun : Reaches (step aes) Free (init device label now) s) :
    Answers (Backoff.init plan now) (Follows s) := by
  refine hrun.simulates ⟨rfl, rfl, fun _ => ⟨rfl, rfl⟩⟩ fun b a e b' hfollows _ hstep => ?_
  rcases step_moves hstep with ⟨-, hturn⟩ | ⟨-, haside⟩
  · exact hturn.answer ⟨hfollows.log, hfollows.now, hfollows.loop⟩
  · refine ⟨{ a with now := b'.now }, .single (e := .advance (b'.now - b.now)) trivial ?_, ?_⟩
    · simp [Backoff.step, sub_nonneg.mpr haside.now, hfollows.now]
    · refine ⟨?_, rfl, fun hgoes => ?_⟩
      · rw [haside.log]
        exact hfollows.log
      · rw [haside.point] at hgoes ⊢
        rw [haside.backoff]
        exact hfollows.loop hgoes

/-- An attempt to connect comes no earlier than the delays of all failures since the last
subscription allow: 31 seconds for the first five, and 30 for each further one. -/
theorem connects_paced {aes : Aes} {device : BLEDevice} {label : String} {now : ℚ}
    (hrun : Reaches (step aes) Free (init device label now) s) {before : List Mark} {time : ℚ}
    (hpre : before ++ [.connecting time] <+: s.log) :
    since now before + plan.total (failures before) ≤ time ∧
    ∀ j : ℕ, failures before = 5 + j → since now before + 31 + 30 * j ≤ time := by
  obtain ⟨a, hreach, hfollows⟩ := refines_backoff hrun
  have hmarks := hpre.filterMap Mark.paced
  rw [List.filterMap_append, ← hfollows.log] at hmarks
  have hpaced := Backoff.attempts_paced plan_sound hreach hmarks
  refine ⟨hpaced, fun j hj => ?_⟩
  have hfive : plan.total 5 = 31 := by
    norm_num [Backoff.Plan.total, Backoff.Plan.delay, plan, initialBackoff]
  have htotal : plan.total (5 + j) = 31 + j * 30 := by
    rw [plan_sound.total_of_reached (by norm_num [plan, initialBackoff]), hfive]
    rfl
  unfold failures at hj
  rw [hj, htotal] at hpaced
  unfold since
  linarith

theorem connects_paced_slowPlug :
    since 0 [.connecting 0, .retrying 0 1] + plan.total (failures [.connecting 0, .retrying 0 1]) ≤
      1 := by
  have hpre : [.connecting 0, .retrying 0 1] ++ [.connecting 1] <+: (watchedTo 15).log := by
    decide +kernel
  exact (connects_paced (reaches_watchedTo (by decide +kernel)) hpre).1

end

end Stream

/-! ## The end -/

/-- How many turns are left at most, once the task is to stop. -/
def StreamPoint.turnsLeft : StreamPoint → ℕ
  | .connect => 5
  | .startNotify | .keepaliveWait _ | .keepaliveWrite => 4
  | .stopNotify => 3
  | .disconnect _ => 2
  | .created | .backoffWait _ => 1
  | .ended _ => 0

theorem StreamPoint.turnsLeft_le (p : StreamPoint) : p.turnsLeft ≤ 5 := by
  cases p <;> simp [turnsLeft]

namespace Stream

theorem turnsLeft_of_holds {p : StreamPoint} (h : holds p = true) : 3 ≤ p.turnsLeft := by
  cases p with
  | startNotify | keepaliveWait | keepaliveWrite | stopNotify => simp [StreamPoint.turnsLeft]
  | _ => cases h

/-- The log goes on without an attempt to connect. -/
def NoAttempt (s s' : Stream) : Prop :=
  ∃ more, s'.log = s.log ++ more ∧ ∀ time, .connecting time ∉ more

/-- The task is to stop and has used up `spent` turns more. -/
structure Winds (s s' : Stream) (spent : ℕ) : Prop where
  stop : s'.stop = true
  rank : s'.point.turnsLeft + spent ≤ s.point.turnsLeft
  log : NoAttempt s s'

section
variable {aes : Aes} {s s' : Stream}

theorem NoAttempt.unchanged (hlog : s'.log = s.log) : NoAttempt s s' :=
  ⟨[], by rw [hlog, List.append_nil], by simp⟩

theorem NoAttempt.trans {s'' : Stream} (h : NoAttempt s s') (h' : NoAttempt s' s'') :
    NoAttempt s s'' := by
  obtain ⟨more, hmore, hnone⟩ := h
  obtain ⟨more', hmore', hnone'⟩ := h'
  refine ⟨more ++ more', by rw [hmore', hmore, List.append_assoc], fun time hmem => ?_⟩
  rcases List.mem_append.mp hmem with hmem | hmem
  · exact hnone time hmem
  · exact hnone' time hmem

theorem again_stopped (hstop : s.stop = true) : s.again = { s with point := .ended .normally } := by
  simp [again, hstop]

theorem keepAlive_stopped (hstop : s.stop = true) : s.keepAlive = s.callStopNotify := by
  simp [keepAlive, hstop]

theorem afterWait_stopped (hstop : s.stop = true) : s.afterWait = s.callStopNotify := by
  simp [afterWait, hstop]

theorem Turn.winds (ht : Turn s s') (hstop : s.stop = true) : Winds s s' 1 := by
  cases ht with
  | again hp =>
    rw [again_stopped hstop]
    exact ⟨hstop, by simp [hp, StreamPoint.turnsLeft], .unchanged rfl⟩
  | @closed exit hp =>
    cases exit with
    | normally =>
      rw [leave, again_stopped (s := s.dropped) hstop]
      exact ⟨hstop, by simp [hp, StreamPoint.turnsLeft], .unchanged rfl⟩
    | raised err =>
      exact ⟨hstop, by simp [hp, leave, Stream.failed, StreamPoint.turnsLeft], _, rfl, by simp⟩
    | cancelled =>
      exact ⟨hstop, by simp [hp, leave, cancelledNow, StreamPoint.turnsLeft], .unchanged rfl⟩
  | backedOff hp _ =>
    rw [again_stopped (s := s.backedOff) hstop]
    exact ⟨hstop, by simp [hp, StreamPoint.turnsLeft], .unchanged rfl⟩
  | opened hp => exact ⟨hstop, by simp [hp, StreamPoint.turnsLeft], _, rfl, by simp⟩
  | noServices err hp =>
    refine ⟨hstop, by simp [hp, exitClient, StreamPoint.turnsLeft], [.opened, .closed], ?_,
      by simp⟩
    simp [exitClient, Stream.opened]
  | subscribed hp =>
    rw [keepAlive_stopped (s := s.subscribed) hstop]
    exact ⟨hstop, by simp [hp, callStopNotify, StreamPoint.turnsLeft], _, rfl, by simp⟩
  | waited hp =>
    rw [afterWait_stopped hstop]
    exact ⟨hstop, by simp [hp, callStopNotify, StreamPoint.turnsLeft], .unchanged rfl⟩
  | wrote hp =>
    rw [keepAlive_stopped hstop]
    exact ⟨hstop, by simp [hp, callStopNotify, StreamPoint.turnsLeft], .unchanged rfl⟩
  | exits exit hholds => exact ⟨hstop, turnsLeft_of_holds hholds, _, rfl, by simp⟩
  | failed err hp =>
    refine ⟨hstop, ?_, _, rfl, by simp⟩
    rcases hp with hp | ⟨exit, hp⟩ <;> simp [hp, Stream.failed, StreamPoint.turnsLeft]
  | cancelled _ hgoes =>
    refine ⟨hstop, ?_, .unchanged rfl⟩
    cases hp : s.point with
    | ended exit => exact absurd hp (hgoes exit)
    | _ => simp [cancelledNow, StreamPoint.turnsLeft]

theorem step_winds {e : Event} (hstop : s.stop = true) (hstep : s.step aes e = some s') :
    Winds s s' e.isTurn.toNat := by
  rcases step_moves hstep with ⟨hturn, ht⟩ | ⟨hbeside, haside⟩
  · obtain ⟨hstop', hrank, hlog⟩ := ht.winds (s := { s with cancelRequested := false }) hstop
    rw [hturn]
    exact ⟨hstop', hrank, hlog⟩
  · rw [hbeside]
    exact ⟨haside.stop hstop, by rw [haside.point]; exact le_rfl, .unchanged haside.log⟩

/-- What the task awaits may return: it is never stuck. -/
theorem returns_or_ended (aes : Aes) (hstop : s.stop = true) :
    (∃ exit, s.point = .ended exit) ∨ ∃ t, s.step aes (.resume .returns) = some t := by
  simp only [step, resume, reduceCtorEq, false_and, if_false]
  cases hp : s.point with
  | ended exit => exact .inl ⟨exit, rfl⟩
  | _ => exact .inr (by simp [hstop])

/-- Once the event is set the task connects no more, and it ends within five turns, whatever they
bring. -/
theorem stops_soon {es : List Event} (hstop : s.stop = true)
    (hrun : run (step aes) s es = some s') :
    es.countP Event.isTurn ≤ 5 ∧ NoAttempt s s' ∧
    ((∃ exit, s'.point = .ended exit) ∨ ∃ t, s'.step aes (.resume .returns) = some t) := by
  have spent : ∀ a e b, (a.stop = true ∧ NoAttempt s a) → a.step aes e = some b →
      (b.stop = true ∧ NoAttempt s b) ∧
        b.point.turnsLeft + e.isTurn.toNat ≤ a.point.turnsLeft := by
    intro a e b ⟨ha, hlog⟩ hstep
    have hwinds := step_winds ha hstep
    exact ⟨⟨hwinds.stop, hlog.trans hwinds.log⟩, hwinds.rank⟩
  obtain ⟨⟨hstop', hlog⟩, hrank⟩ := turns_bounded Event.isTurn (fun a => a.point.turnsLeft) spent
    ⟨hstop, .unchanged rfl⟩ hrun
  refine ⟨?_, hlog, returns_or_ended aes hstop'⟩
  exact (Nat.le_add_left _ _).trans (hrank.trans s.point.turnsLeft_le)

/-- From the wait that the event ends. -/
theorem stops_soon_slowPlug : NoAttempt (watchedTo 12) (watchedTo 15) := by
  have hrun : run (step capturedAes) (watchedTo 12) (slowPlug.drop 12) = some (watchedTo 15) := by
    decide +kernel
  exact (stops_soon (by decide +kernel) hrun).2.1

end

end Stream

end Monitor

end GoveeH5086
