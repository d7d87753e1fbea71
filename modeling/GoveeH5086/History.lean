import GoveeH5086.Exclusion

/-!
# The poll state and the history of polls

`_last_reading` and `_last_successful_poll` are compared with the log: they are the reading and the
time of the last successful poll in it.

1. `successes`, `pollsMade`: the successful polls in a log, and how many polls were made.
2. `LogInv.gate`: a tick that passes its age check finds no success within `scan_interval`.
3. `LogInv.move`, `Sys.logInv`: the invariant holds in every state of a run.
-/

namespace GoveeH5086
open BigEndian FifoLock Runs

/-- A successful poll: `_poll_once` obtained a reading and stored it. -/
structure Success where
  source : Source
  time : ℚ
  reading : PowerReading
deriving DecidableEq, Repr

def LogEntry.success : LogEntry → Option Success
  | .completed ⟨source, _, time, some reading⟩ => some ⟨source, time, reading⟩
  | _ => none

/-- The successful polls of a log, oldest first. -/
def successes (log : List LogEntry) : List Success := log.filterMap LogEntry.success

theorem successes_append (log log' : List LogEntry) :
    successes (log ++ log') = successes log ++ successes log' :=
  List.filterMap_append

@[simp] theorem successes_began (i : ℕ) (source : Source) (time : ℚ) (seen : ℕ) :
    successes [.began i source time seen] = [] := rfl

@[simp] theorem successes_completed (source : Source) (begun time : ℚ)
    (reading : Option PowerReading) :
    successes [.completed ⟨source, begun, time, reading⟩] =
      (reading.map fun r => (⟨source, time, r⟩ : Success)).toList := by
  cases reading <;> rfl

def LogEntry.isBegan : LogEntry → Bool
  | .began _ _ _ _ => true
  | .completed _ => false

/-- How many polls were made: how often `_read_one_notification` was entered. -/
def pollsMade (log : List LogEntry) : ℕ := log.countP LogEntry.isBegan

theorem pollsMade_append (log log' : List LogEntry) :
    pollsMade (log ++ log') = pollsMade log + pollsMade log' :=
  List.countP_append

/-- The last success is the latest. -/
theorem le_last {l : List Success} (h : l.Pairwise fun a b => a.time ≤ b.time) {x y : Success}
    (hx : x ∈ l) (hy : l.getLast? = some y) : x.time ≤ y.time := by
  obtain ⟨ys, rfl⟩ := List.getLast?_eq_some_iff.mp hy
  rcases List.mem_append.mp hx with hmem | hmem
  · exact (List.pairwise_append.mp h).2.2 x hmem y (List.mem_singleton.mpr rfl)
  · rw [List.mem_singleton.mp hmem]

namespace Coordinator

/-- The stored state is that of the last successful poll, and the parent's clock covers its own. -/
structure LogInv (w : World) (c : Coordinator) : Prop where
  reading : c.lastReading = (successes c.log).getLast?.map Success.reading
  poll : c.lastSuccessfulPoll = (successes c.log).getLast?.map Success.time
  sorted : (successes c.log).Pairwise fun a b => a.time ≤ b.time
  past : ∀ x ∈ successes c.log, x.time ≤ w.now
  parent : ∀ x ∈ successes c.log, x.source = .adv → ∃ p, c.lastPoll = some p ∧ x.time ≤ p

/-! ## What leaving does to the log -/

section
variable (w : World) (c : Coordinator) (i : ℕ) (t : Task) (call : Option Call) (exit : PollExit)

theorem leave_pollsMade : pollsMade (c.leave w i t call exit).log = pollsMade c.log := by
  rw [leave_log, pollsMade_append]
  rfl

theorem leave_successes : successes (c.leave w i t call exit).log =
    successes c.log ++ (exit.obtained.map fun r => (⟨t.source, w.now, r⟩ : Success)).toList := by
  rw [leave_log, successes_append, successes_completed]

end

namespace LogInv

variable {aes : Aes} {w w' : World} {c c' : Coordinator}

theorem lastReading_none (h : c.LogInv w) : c.lastReading = none ↔ c.lastSuccessfulPoll = none := by
  rw [h.reading, h.poll, Option.map_eq_none_iff, Option.map_eq_none_iff]

/-- A tick that passes its age check finds no success within `scan_interval`. -/
theorem gate (h : c.LogInv w) (hgate : c.GateOpen w) :
    ∀ x ∈ successes c.log, (w.scanInterval : ℚ) ≤ w.now - x.time := by
  intro x hx
  obtain ⟨y, hy⟩ : ∃ y, (successes c.log).getLast? = some y := by
    cases hl : (successes c.log).getLast? with
    | none =>
      rw [List.getLast?_eq_none_iff.mp hl] at hx
      cases hx
    | some y => exact ⟨y, rfl⟩
  have hlast : c.lastSuccessfulPoll = some y.time := by rw [h.poll, hy]; rfl
  have hage := hgate.2 (w.now - y.time) (by simp [secondsSinceLastPoll, hlast])
  have hle := le_last h.sorted hx hy
  linarith

theorem leave (h : c.LogInv w) (i : ℕ) (t : Task) (call : Option Call) (exit : PollExit) :
    (c.leave w i t call exit).LogInv w := by
  cases hobt : exit.obtained with
  | none =>
    have hsucc : successes (c.leave w i t call exit).log = successes c.log := by
      simp [leave_successes, hobt]
    constructor
    · rw [hsucc, leave_lastReading, hobt, ← h.reading]
      rfl
    · rw [hsucc, leave_lastSuccessfulPoll, hobt, ← h.poll]
      rfl
    · rw [hsucc]
      exact h.sorted
    · rw [hsucc]
      exact h.past
    · rw [hsucc, leave_lastPoll]
      intro x hx hadv
      obtain ⟨p, hp, hle⟩ := h.parent x hx hadv
      split
      · exact ⟨w.now, rfl, h.past x hx⟩
      · exact ⟨p, hp, hle⟩
  | some reading =>
    have hsucc : successes (c.leave w i t call exit).log =
        successes c.log ++ [⟨t.source, w.now, reading⟩] := by
      simp [leave_successes, hobt]
    constructor
    · rw [hsucc, leave_lastReading, hobt, List.getLast?_concat]
      rfl
    · rw [hsucc, leave_lastSuccessfulPoll, hobt, List.getLast?_concat]
      rfl
    · rw [hsucc, List.pairwise_append]
      refine ⟨h.sorted, List.pairwise_singleton _ _, ?_⟩
      intro a ha b hb
      rw [List.mem_singleton.mp hb]
      exact h.past a ha
    · rw [hsucc]
      intro x hx
      rcases List.mem_append.mp hx with hold | hnew
      · exact h.past x hold
      · rw [List.mem_singleton.mp hnew]
    · rw [hsucc, leave_lastPoll]
      intro x hx hadv
      rcases List.mem_append.mp hx with hold | hnew
      · obtain ⟨p, hp, hle⟩ := h.parent x hold hadv
        split
        · exact ⟨w.now, rfl, h.past x hold⟩
        · exact ⟨p, hp, hle⟩
      · rw [List.mem_singleton.mp hnew] at hadv ⊢
        rw [if_pos hadv]
        exact ⟨w.now, rfl, le_refl _⟩

theorem begin (h : c.LogInv w) (i : ℕ) (t : Task) (device : BLEDevice) :
    (c.begin w i t device).LogInv w := by
  have hsucc : successes (c.begin w i t device).log = successes c.log := by
    show successes (c.log ++ _) = _
    rw [successes_append, successes_began, List.append_nil]
  constructor
  · rw [hsucc]
    exact h.reading
  · rw [hsucc]
    exact h.poll
  · rw [hsucc]
    exact h.sorted
  · rw [hsucc]
    exact h.past
  · rw [hsucc]
    exact h.parent

theorem move (h : c.LogInv w) (hm : Move aes w c c') : c'.LogInv w := by
  have same : ∀ lock : Lock ℕ, ({ c with pollLock := lock } : Coordinator).LogInv w :=
    fun _ => ⟨h.reading, h.poll, h.sorted, h.past, h.parent⟩
  cases hm with
  | begin _ _ _ => exact (same _).begin ..
  | skip _ _ _ => exact (same _).leave ..
  | finish _ _ _ _ _ => exact h.leave ..
  | push | add _ | tick | arrive _ _ _ | resume _ _ _ _ _ | notify _ _ _ _ _ =>
    exact ⟨h.reading, h.poll, h.sorted, h.past, h.parent⟩

theorem time (h : c.LogInv w) (hw : w.Later w') : c.LogInv w' :=
  ⟨h.reading, h.poll, h.sorted, fun x hx => (h.past x hx).trans hw.now, h.parent⟩

theorem new (w : World) (address : String) :
    (Coordinator.new address).asyncInit.asyncStart.LogInv w := by
  constructor <;> simp [Coordinator.new, asyncInit, asyncStart, successes]

end LogInv

end Coordinator

/-- The poll state is that of the last success in every state of a run. -/
theorem Sys.logInv {aes : Aes} {address : String} {scanInterval : Option ℤ}
    {ok : Sys → Sys.Event → Prop} {s : Sys}
    (h : Reaches (Sys.step aes) ok (Sys.init address scanInterval) s) : s.coord.LogInv s.world :=
  Sys.invariant (P := fun w c => c.LogInv w) (fun _ _ _ hc hw => hc.time hw)
    (fun _ _ _ hc hm => hc.move hm) h (.new _ address)

end GoveeH5086
