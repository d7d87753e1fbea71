import GoveeH5086.History

/-!
# What the two gates let through

A tick checks the age of the last success before it waits for `_poll_lock`, and not again when it
gets it. The parent's clock, which decides about advertisements, records the advertisement polls
only.

1. `TickInv`: at its age check a tick found every success old enough.
2. `Sys.tick_polls_late_enough_iff`: a tick never reads a plug that was just read, exactly if no
   poll that succeeded while a tick waited was too recent when the tick got the lock.
3. `Sys.advertisement_gate_iff`: the gate for advertisements is right about the successes of both
   paths, exactly if it is closed or the successes of the timer are old enough.
-/

namespace GoveeH5086
open BigEndian FifoLock Runs

/-! ## The two properties -/

/-- Every poll that a tick begins comes at least `S` after every success before it. -/
def NoDoublePoll (S : ℚ) (log : List LogEntry) : Prop :=
  ∀ k i t seen, log[k]? = some (.began i .timer t seen) →
    ∀ x ∈ successes (log.take k), S ≤ t - x.time

/-- The same for the successes that came while the tick waited: those that are not among the first
`seen` entries. -/
def NotOvertaken (S : ℚ) (log : List LogEntry) : Prop :=
  ∀ k i t seen, log[k]? = some (.began i .timer t seen) →
    ∀ x ∈ successes ((log.take k).drop seen), S ≤ t - x.time

/-- When the parent asks about an advertisement of time `τ` and the answer is yes, every success of
either path is at least `scan_interval` old. -/
def Sys.AdvertisementGate (s : Sys) (τ : ℚ) : Prop :=
  s.world.goveeNeedsPoll (s.coord.lastPoll.map fun p => τ - p) = true →
    ∀ x ∈ successes s.coord.log, (s.world.scanInterval : ℚ) ≤ τ - x.time

/-! ## The age check of a tick -/

theorem getElem?_concat {α : Type*} {l : List α} {a b : α} {k : ℕ} (h : (l ++ [a])[k]? = some b) :
    k < l.length ∧ l[k]? = some b ∨ k = l.length ∧ a = b := by
  rw [List.getElem?_append] at h
  split at h
  · next hlt => exact .inl ⟨hlt, h⟩
  · next hge =>
    obtain ⟨hk, rfl⟩ := List.getElem?_eq_some_iff.mp h
    simp only [List.length_singleton] at hk
    exact .inr ⟨by omega, by simp⟩

namespace Coordinator

/-- A tick that waits, or has begun, found every success of its time old enough. -/
structure TickInv (w : World) (c : Coordinator) : Prop where
  queued : ∀ i t, c.tasks i = some t → t.phase = .queued → t.source = .timer →
    t.seen ≤ c.log.length ∧ t.started ≤ w.now ∧
      ∀ x ∈ successes (c.log.take t.seen), (w.scanInterval : ℚ) ≤ t.started - x.time
  began : ∀ k i t seen, c.log[k]? = some (.began i .timer t seen) →
    ∀ x ∈ successes ((c.log.take k).take seen), (w.scanInterval : ℚ) ≤ t - x.time

namespace TickInv

variable {aes : Aes} {w w' : World} {c c' : Coordinator}

/-- Another entry is added to the log, and one task changes. -/
theorem concat (h : c.TickInv w) {i : ℕ} {u : Task} {entry : LogEntry}
    (htasks : c'.tasks = Function.update c.tasks i (some u)) (hphase : u.phase ≠ .queued)
    (hlog : c'.log = c.log ++ [entry])
    (hentry : ∀ j t seen, entry = .began j .timer t seen →
      ∀ x ∈ successes (c.log.take seen), (w.scanInterval : ℚ) ≤ t - x.time) : c'.TickInv w := by
  constructor
  · intro j t hj hqueued htimer
    rcases update_eq_some (htasks ▸ hj) with ⟨-, rfl⟩ | ⟨-, hj⟩
    · exact absurd hqueued hphase
    · obtain ⟨hseen, hstarted, hold⟩ := h.queued j t hj hqueued htimer
      rw [hlog, List.take_append_of_le_length hseen, List.length_append]
      exact ⟨Nat.le_add_right_of_le hseen, hstarted, hold⟩
  · intro k j t seen hk
    rw [hlog] at hk ⊢
    rcases getElem?_concat hk with ⟨hlt, hold⟩ | ⟨rfl, hnew⟩
    · rw [List.take_append_of_le_length hlt.le]
      exact h.began k j t seen hold
    · rw [List.take_left]
      exact hentry j t seen hnew

/-- One task changes that does not wait then. -/
theorem update (h : c.TickInv w) {i : ℕ} {u : Task} (hphase : u.phase ≠ .queued) :
    (c.setTask i u).TickInv w := by
  constructor
  · intro j t hj hqueued htimer
    rcases update_eq_some hj with ⟨-, rfl⟩ | ⟨-, hold⟩
    · exact absurd hqueued hphase
    · exact h.queued j t hold hqueued htimer
  · exact h.began

theorem arrive (h : c.TickInv w) (hlog : c.LogInv w) (source : Source) (device : Option BLEDevice)
    (hgate : source = .timer → c.GateOpen w) : (c.arrive w source device).TickInv w := by
  constructor
  · intro i t ht hqueued htimer
    rcases update_eq_some ht with ⟨-, rfl⟩ | ⟨-, hold⟩
    · refine ⟨le_refl _, le_refl _, fun x hx => ?_⟩
      have hall : c.log.take c.log.length = c.log := List.take_length
      exact hlog.gate (hgate htimer) x (hall ▸ hx)
    · exact h.queued i t hold hqueued htimer
  · exact h.began

theorem leave (h : c.TickInv w) (i : ℕ) (t : Task) (call : Option Call) (exit : PollExit) :
    (c.leave w i t call exit).TickInv w :=
  h.concat (leave_tasks ..) (by simp) (leave_log ..) (by simp)

theorem begin (h : c.TickInv w) {i : ℕ} {t : Task} (device : BLEDevice) (ht : c.tasks i = some t)
    (hqueued : t.phase = .queued) : (c.begin w i t device).TickInv w := by
  refine h.concat (u := { t with phase := .reading (Call.start device w.now) }) rfl (by simp) rfl ?_
  intro j time seen hentry x hx
  obtain ⟨-, htimer, rfl, rfl⟩ := (LogEntry.began.injEq ..).mp hentry
  obtain ⟨-, hstarted, hold⟩ := h.queued i t ht hqueued htimer
  exact (hold x hx).trans (sub_le_sub_right hstarted x.time)

theorem move (h : c.TickInv w) (hlock : c.LockInv) (hlog : c.LogInv w) (hm : Move aes w c c') :
    c'.TickInv w := by
  have same : ∀ lock : Lock ℕ, ({ c with pollLock := lock } : Coordinator).TickInv w :=
    fun _ => ⟨h.queued, h.began⟩
  cases hm with
  | push | add _ | tick => exact ⟨h.queued, h.began⟩
  | arrive source device hgate => exact h.arrive hlog source device hgate
  | begin hgrant ht _ => exact (same _).begin _ ht (hlock.granted hgrant ht)
  | skip _ _ _ => exact (same _).leave ..
  | @resume i t call call' o _ _ _ _ _ => exact h.update (by simp)
  | finish _ _ _ _ _ => exact h.leave ..
  | @notify i n k t call raw _ hcall _ _ _ =>
    refine h.update (fun hqueued => ?_)
    cases hphase : t.phase <;> simp_all [Phase.mapCall, Phase.call]

theorem time (h : c.TickInv w) (hw : w.Later w') : c.TickInv w' := by
  refine ⟨fun i t ht hqueued htimer => ?_, ?_⟩
  · obtain ⟨hseen, hstarted, hold⟩ := h.queued i t ht hqueued htimer
    rw [hw.scanInterval]
    exact ⟨hseen, hstarted.trans hw.now, hold⟩
  · rw [hw.scanInterval]
    exact h.began

end TickInv

end Coordinator

namespace Sys

variable {aes : Aes} {address : String} {scanInterval : Option ℤ} {ok : Sys → Event → Prop}
  {s s' : Sys}

theorem tickInv (h : Reaches (step aes) ok (init address scanInterval) s) :
    s.coord.TickInv s.world := by
  have all := Sys.invariant (P := fun w c => c.LockInv ∧ c.LogInv w ∧ c.TickInv w) ?_ ?_ h
    ⟨.new address, .new _ address, ?_⟩
  · exact all.2.2
  · exact fun w w' c hc hw => ⟨hc.1, hc.2.1.time hw, hc.2.2.time hw⟩
  · exact fun w c c' hc hm => ⟨hc.1.move hm, hc.2.1.move hm, hc.2.2.move hc.1 hc.2.1 hm⟩
  · constructor <;> simp [init, Coordinator.new, Coordinator.asyncInit, Coordinator.asyncStart]

/-- A tick never begins to read a plug that was read less than `scan_interval` before, exactly if
that holds of the successes that came while the tick waited. -/
theorem tick_polls_late_enough_iff (h : Reachable aes address scanInterval s) :
    NoDoublePoll s.world.scanInterval s.coord.log ↔
      NotOvertaken s.world.scanInterval s.coord.log := by
  have hbegan := (tickInv h).began
  constructor
  · intro hall k i t seen hk x hx
    refine hall k i t seen hk x ?_
    rw [← List.take_append_drop seen (s.coord.log.take k), successes_append]
    exact List.mem_append_right _ hx
  · intro hwaited k i t seen hk x hx
    rw [← List.take_append_drop seen (s.coord.log.take k), successes_append] at hx
    rcases List.mem_append.mp hx with hbefore | hwhile
    · exact hbegan k i t seen hk x hbefore
    · exact hwaited k i t seen hk x hwhile

/-- An advertisement poll is in progress when the tick passes its age check, and succeeds before
the tick gets the lock. -/
def overtakenTick : List Event :=
  .world (.advance 28) :: .coord (.goveePoll (some plug) none) :: .world (.advance 2) ::
    .coord (.fallbackTick (some plug)) :: reads 0 0 ++ [.coord .grant]

theorem tick_polls_too_early :
    Reachable capturedAes plug.address none (after overtakenTick) ∧
    ¬ NoDoublePoll (after overtakenTick).world.scanInterval (after overtakenTick).coord.log := by
  refine ⟨after_reachable (by decide +kernel), fun h => ?_⟩
  have hbegan : (after overtakenTick).coord.log[2]? = some (.began 1 .timer 30 1) := by
    decide +kernel
  have hsuccess : ⟨.adv, 30, capturedRecord.reading⟩ ∈
      successes ((after overtakenTick).coord.log.take 2) := by decide +kernel
  have hlate := h 2 1 30 1 hbegan _ hsuccess
  exact absurd hlate (by decide +kernel)

/-- Two advertisement polls are ahead of the tick. The first succeeds while the tick waits, the second
takes longer than `scan_interval` and fails. -/
def overtakenLongAgo : List Event :=
  .world (.advance 28) :: .coord (.goveePoll (some plug) none) :: .world (.advance 1) ::
    .coord (.goveePoll (some plug) none) :: .world (.advance 1) ::
    .coord (.fallbackTick (some plug)) :: reads 0 0 ++
    [.coord .grant, .world (.advance 35), .coord (.resume 1 (.raises .timeoutError)), .coord .grant]

theorem tick_polls_late_enough_iff_overtakenLongAgo :
    ((after overtakenLongAgo).coord.log[4]? = some (.began 2 .timer 65 1) ∧
      successes (((after overtakenLongAgo).coord.log.take 4).drop 1) =
        [⟨.adv, 30, capturedRecord.reading⟩]) ∧
    NoDoublePoll (after overtakenLongAgo).world.scanInterval (after overtakenLongAgo).coord.log := by
  have hlog : (after overtakenLongAgo).coord.log =
      [.began 0 .adv 28 0, .completed ⟨.adv, 28, 30, some capturedRecord.reading⟩,
        .began 1 .adv 30 1, .completed ⟨.adv, 30, 65, none⟩, .began 2 .timer 65 1] := by
    decide +kernel
  refine ⟨⟨by rw [hlog]; rfl, by rw [hlog]; rfl⟩, ?_⟩
  refine (tick_polls_late_enough_iff (after_reachable (by decide +kernel))).mpr ?_
  intro k i t seen hk x hx
  rw [hlog] at hk hx
  match k with
  | 0 | 1 | 2 | 3 => simp at hk
  | 4 =>
    cases hk
    have hinterval : (after overtakenLongAgo).world.scanInterval = 30 := by decide +kernel
    have hsuccess : x = ⟨.adv, 30, capturedRecord.reading⟩ := List.mem_singleton.mp hx
    rw [hsuccess, hinterval]
    norm_num
  | k + 5 => simp at hk

/-! ## The gate for advertisements -/

theorem goveeNeedsPoll_iff {w : World} {since : Option ℚ} : w.goveeNeedsPoll since = true ↔
    w.state = .running ∧ ∀ age, since = some age → (w.scanInterval : ℚ) ≤ age := by
  unfold World.goveeNeedsPoll
  split
  · next hstate => simp [hstate]
  · next hstate =>
    have hrunning := not_not.mp hstate
    cases since with
    | none => simp [hrunning]
    | some age => simp [hrunning]

/-- The gate for advertisements keeps both paths `scan_interval` apart, exactly if it is closed by
the parent's own last poll or the successes of the timer are old enough by themselves. -/
theorem advertisement_gate_iff (h : Reachable aes address scanInterval s) (τ : ℚ) :
    s.AdvertisementGate τ ↔
      s.world.state ≠ .running ∨
      (∃ p, s.coord.lastPoll = some p ∧ τ - p < s.world.scanInterval) ∨
      ∀ x ∈ successes s.coord.log, x.source = .timer →
        (s.world.scanInterval : ℚ) ≤ τ - x.time := by
  unfold AdvertisementGate
  rw [goveeNeedsPoll_iff]
  constructor
  · intro hgate
    by_contra hnot
    obtain ⟨hrunning, hnot⟩ := not_or.mp hnot
    obtain ⟨hparent, htimer⟩ := not_or.mp hnot
    refine htimer fun x hx _ => hgate ⟨not_not.mp hrunning, fun age hage => ?_⟩ x hx
    obtain ⟨p, hp, rfl⟩ := Option.map_eq_some_iff.mp hage
    exact not_lt.mp fun hlt => hparent ⟨p, hp, hlt⟩
  · rintro hwhen ⟨hrunning, hopen⟩ x hx
    rcases hwhen with hstate | ⟨p, hp, hlt⟩ | htimer
    · exact absurd hrunning hstate
    · have hle := hopen (τ - p) (by rw [hp]; rfl)
      exact absurd hlt (not_lt.mpr hle)
    · cases hsource : x.source with
      | timer => exact htimer x hx hsource
      | adv =>
        -- the parent's clock covers the successes of its own path
        obtain ⟨p, hp, hle⟩ := (logInv h).parent x hx hsource
        have hold := hopen (τ - p) (by rw [hp]; rfl)
        exact hold.trans (sub_le_sub_left hle τ)

/-- The timer polls first, and an advertisement comes five seconds later. -/
def timerFirst : List Event :=
  .world (.advance 30) :: .coord (.fallbackTick (some plug)) :: reads 0 0 ++ [.world (.advance 5)]

theorem advertisement_gate_too_early :
    Reachable capturedAes plug.address none (after timerFirst) ∧
    (after timerFirst).coord.pollLock.free = true ∧
    ¬ (after timerFirst).AdvertisementGate (after timerFirst).world.now := by
  refine ⟨after_reachable (by decide +kernel), by decide +kernel, fun h => ?_⟩
  have hsuccess : ⟨.timer, 30, capturedRecord.reading⟩ ∈
      successes (after timerFirst).coord.log := by decide +kernel
  have hlate := h (by decide +kernel) _ hsuccess
  exact absurd hlate (by decide +kernel)

theorem advertisement_gate_iff_twoPolls :
    (after twoPolls).AdvertisementGate 60 := by
  refine (advertisement_gate_iff (after_reachable (by decide +kernel)) 60).mpr (.inr (.inr ?_))
  decide +kernel

end Sys

end GoveeH5086
