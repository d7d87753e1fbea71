import GoveeH5086.PollState

/-!
# No update is lost between the coordinator and its sensors

1. `Shown`: while the sensors are available, every listener shows what it would show if it were
   asked now. `Shown.move`, `Shown.time`: moves and the passing of time keep it.
2. `Sys.sensors_up_to_date`: whenever a poll or a tick completes, a skipped one included, every
   listener is up to date.
-/

namespace GoveeH5086
open BigEndian FifoLock Runs

namespace Coordinator

/-- Listeners are told of everything except of growing too old. -/
def Shown (w : World) (c : Coordinator) : Prop := c.available w = true → c.UpToDate w

section
variable {aes : Aes} {w w' : World} {c c' : Coordinator}

theorem asyncUpdateListeners_upToDate (w : World) (c : Coordinator) :
    (c.asyncUpdateListeners w).UpToDate w := by
  intro e he
  obtain ⟨e', -, rfl⟩ := List.mem_map.mp he
  rfl

theorem UpToDate.addSensor (h : c.UpToDate w) (d : GoveeSensorDescription) :
    (c.addSensor w d).UpToDate w := by
  intro e he
  rcases List.mem_append.mp he with hold | hnew
  · exact h e hold
  · rw [List.mem_singleton.mp hnew]
    rfl

theorem Shown.move (h : c.Shown w) (huncancelled : c.Uncancelled) (hm : Move aes w c c') :
    c'.Shown w := by
  cases hm with
  | push => exact fun _ => asyncUpdateListeners_upToDate w c
  | add d => exact fun havailable => (h havailable).addSensor d
  | tick | arrive _ _ _ | begin _ _ _ | resume _ _ _ _ _ | notify _ _ _ _ _ => exact h
  | skip _ _ _ => exact fun _ => leave_listeners w _ _ _ none (by simp)
  | finish ht hphase ho hr hexit =>
    exact fun _ => leave_listeners w c _ _ _ (huncancelled.exit ht hphase ho hr hexit)

/-- A sensor that is still available has been available since. -/
theorem available_before (hw : w.Later w') (h : c.available w' = true) : c.available w = true := by
  obtain ⟨hreading, p, hp, hrecent⟩ := available_iff.mp h
  refine available_iff.mpr ⟨hreading, p, hp, ?_⟩
  rw [hw.scanInterval] at hrecent
  linarith [hw.now]

theorem Shown.time (h : c.Shown w) (hw : w.Later w') : c.Shown w' := by
  intro havailable entity hmem
  have hbefore := available_before hw havailable
  rw [h hbefore entity hmem]
  unfold render
  rw [hbefore, havailable]

/-- A tick that is skipped while Home Assistant runs finds the sensors available. -/
theorem LogInv.available_of_closed (h : c.LogInv w) (hrunning : w.state = .running)
    (hclosed : ¬ c.GateOpen w) : c.available w = true := by
  obtain ⟨age, hage, hlt⟩ : ∃ age, c.secondsSinceLastPoll w = some age ∧
      age < (w.scanInterval : ℚ) := by
    by_contra hnone
    refine hclosed ⟨hrunning, fun age hage => ?_⟩
    exact not_lt.mp fun hlt => hnone ⟨age, hage, hlt⟩
  unfold secondsSinceLastPoll at hage
  split at hage
  · cases hage
  · next p hp =>
    cases hage
    have hsome := h.poll
    rw [hp] at hsome
    obtain ⟨x, hx, hxp⟩ := Option.map_eq_some_iff.mp hsome.symm
    have hpast := h.past x (List.mem_of_getLast? hx)
    refine available_iff.mpr ⟨fun hnone => ?_, p, hp, ?_⟩
    · rw [h.lastReading_none.mp hnone] at hp
      cases hp
    -- the age is not negative, so the interval is positive
    · rw [hxp] at hpast
      linarith

/-- A tick that starts no task was skipped. -/
theorem closed_of_skipped {manager : Option BLEDevice}
    (h : c.step aes w (.fallbackTick manager) = some c') (hnext : c'.nextTask = c.nextTask) :
    ¬ c.GateOpen w ∧ c' = { c with ticks := c.ticks + 1 } := by
  cases step_stepped h with
  | skipped hclosed => exact ⟨hclosed, rfl⟩
  | ticked _ hsettles =>
    have hnew := hsettles.nextTask
    rw [hnext] at hnew
    exact absurd hnew (Nat.ne_of_lt (Nat.lt_succ_self _))
  | moved htick _ _ => exact absurd rfl (htick manager)

end

end Coordinator

namespace Sys

variable {aes : Aes} {address : String} {scanInterval : Option ℤ} {ok : Sys → Event → Prop}
  {s s' : Sys}

theorem shown (h : Reaches (step aes) ok (init address scanInterval) s) :
    s.coord.Shown s.world := by
  have both := Sys.invariant (P := fun w c => c.Uncancelled ∧ c.Shown w) ?_ ?_ h
    ⟨uncancelled (.refl : Reaches (step aes) ok _ _), fun _ e he => by cases he⟩
  · exact both.2
  · exact fun w w' c hc hw => ⟨hc.1, hc.2.time hw⟩
  · exact fun w c c' hc hm => ⟨hc.1.move hm, hc.2.move hc.1 hm⟩

/-- Whenever a poll ends, by either path, or a tick is skipped while Home Assistant runs, the last
state written for every sensor is what the sensor shows at that moment. -/
theorem sensors_up_to_date {e : Event} (h : Reachable aes address scanInterval s)
    (hstep : s.step aes e = some s') (hrunning : s.world.state = .running)
    (hcompletes : (∃ i result, s.coord.resultOf i = none ∧ s'.coord.resultOf i = some result) ∨
      ∃ manager, e = .coord (.fallbackTick manager) ∧ s'.coord.nextTask = s.coord.nextTask) :
    ∀ entity ∈ s'.coord.listeners, entity.written =
      (s'.coord.available s'.world, s'.coord.nativeValue entity.description) := by
  rcases hcompletes with ⟨i, result, hbefore, hafter⟩ | ⟨manager, rfl, hnext⟩
  · obtain ⟨p, -, -, -, hup⟩ := ended_of_result h hstep hbefore hafter
    exact hup
  · obtain ⟨c, hc, rfl⟩ := Option.map_eq_some_iff.mp hstep
    obtain ⟨hclosed, rfl⟩ := Coordinator.closed_of_skipped hc hnext
    have hup := shown h ((logInv h).available_of_closed hrunning hclosed)
    exact hup

/-- A sensor is added, a poll succeeds, and ten seconds pass. -/
def polledLately : List Event :=
  .coord (.addSensor powerSensor) :: .coord (.goveePoll (some plug) none) :: reads 0 0 ++
    [.world (.advance 10)]

theorem sensors_up_to_date_polledLately :
    ∃ s', (after polledLately).step capturedAes (.coord (.fallbackTick (some plug))) = some s' ∧
      s'.coord.listeners.length = 1 ∧
      ∀ entity ∈ s'.coord.listeners, entity.written =
        (s'.coord.available s'.world, s'.coord.nativeValue entity.description) := by
  have hkept : ((after polledLately).step capturedAes (.coord (.fallbackTick (some plug)))).map
      (fun s => (s.coord.listeners.length, s.coord.nextTask)) =
      some (1, (after polledLately).coord.nextTask) := by decide +kernel
  obtain ⟨s', hs', hpair⟩ := Option.map_eq_some_iff.mp hkept
  refine ⟨s', hs', congrArg Prod.fst hpair, ?_⟩
  exact sensors_up_to_date (after_reachable (by decide +kernel)) hs' (by decide +kernel)
    (.inr ⟨some plug, rfl, congrArg Prod.snd hpair⟩)

end Sys

end GoveeH5086
