import GoveeH5086.Reload

/-!
# What an attempt leaves behind

An attempt sets the entry up or unloads it, and may fail. While it is suspended, and between two
attempts, the coordinators go on and the options may change.

1. `Hass.Untouched`: nothing but the events of an attempt changes the timers or `hass.data`.
2. `Ledger.step`: as long as `async_start` and `async_forward_entry_setups` do not raise, the one
   live timer is that of the coordinator in `hass.data`.
3. `Hass.attempt_whole_iff`: after such attempts, the next one leaves no half-made coordinator
   exactly if it is such an attempt, too.
-/

namespace GoveeH5086
open Runs
open Sys (plug)

namespace Hass

/-! ## Timers and attempts -/

/-- The fallback timer of coordinator `k` is live. -/
def Live (h : Hass) (k : ℕ) : Prop := (h.coords k).map Coordinator.fallbackLive = some true

instance (h : Hass) (k : ℕ) : Decidable (h.Live k) := inferInstanceAs (Decidable (_ = _))

/-- The live timers are those of the coordinator in `hass.data`, and at most one. -/
structure Whole (h : Hass) : Prop where
  stored : ∀ k, h.Live k ↔ h.data = some k
  unique : ∀ j k, h.Live j → h.Live k → j = k

/-- The live timers and `hass.data` are the same. -/
structure SameLedger (h h' : Hass) : Prop where
  data : h'.data = h.data
  live : ∀ k, h'.Live k ↔ h.Live k

/-- An attempt, by what its fallible steps do. -/
inductive Attempt
  | setup (device : Option BLEDevice) (started forwarded : Bool)
  | unload (unloaded : Bool)
deriving DecidableEq, Repr

def Attempt.failed : Attempt → Bool
  | .setup device started forwarded => device.isNone || !started || !forwarded
  | .unload unloaded => !unloaded

/-- Once the device is found, neither `async_start` nor `async_forward_entry_setups` raises. -/
def Attempt.Sound : Attempt → Prop
  | .setup (some _) started forwarded => started = true ∧ forwarded = true
  | .setup none _ _ => True
  | .unload _ => True

/-- An event that is not part of an attempt. -/
def Meanwhile (_ : Hass) : Event → Prop
  | .world _ | .coord _ _ | .updateOptions _ => True
  | _ => False

/-- One attempt, from its start to its end. -/
inductive Attempted (aes : Aes) (h : Hass) : Attempt → Hass → Prop
  | cutShort {device : Option BLEDevice} {started forwarded : Bool} {h' : Hass} :
      device = none ∨ started = false → h.step aes (.setup device started) = some h' →
      Attempted aes h (.setup device started forwarded) h'
  | setup {device : BLEDevice} {forwarded : Bool} {h₁ h₂ h' : Hass} :
      h.step aes (.setup (some device) true) = some h₁ → Reaches (step aes) Meanwhile h₁ h₂ →
      h₂.step aes (.entrySetupsForwarded forwarded) = some h' →
      Attempted aes h (.setup (some device) true forwarded) h'
  | unload {unloaded : Bool} {h₁ h₂ h' : Hass} :
      h.step aes .unload = some h₁ → Reaches (step aes) Meanwhile h₁ h₂ →
      h₂.step aes (.platformsUnloaded unloaded) = some h' →
      Attempted aes h (.unload unloaded) h'

/-- Attempts that `ok` allows, with other events between them. -/
inductive Attempts (aes : Aes) (ok : Attempt → Prop) (h : Hass) : Hass → Prop
  | refl : Attempts aes ok h h
  | pass {h₁ h₂ : Hass} : Attempts aes ok h h₁ → Reaches (step aes) Meanwhile h₁ h₂ →
      Attempts aes ok h h₂
  | attempt {a : Attempt} {h₁ h₂ : Hass} : Attempts aes ok h h₁ → ok a → Attempted aes h₁ a h₂ →
      Attempts aes ok h h₂

/-! ## Meanwhile -/

/-- What only an attempt changes. -/
structure Untouched (h h' : Hass) : Prop extends SameLedger h h' where
  stage : h'.stage = h.stage
  onUnload : h'.onUnload = h.onUnload

theorem Untouched.refl (h : Hass) : h.Untouched h := ⟨⟨rfl, fun _ => Iff.rfl⟩, rfl, rfl⟩

theorem Untouched.trans {h h' h'' : Hass} (hu : h.Untouched h') (hu' : h'.Untouched h'') :
    h.Untouched h'' :=
  ⟨⟨hu'.data.trans hu.data, fun k => (hu'.live k).trans (hu.live k)⟩,
    hu'.stage.trans hu.stage, hu'.onUnload.trans hu.onUnload⟩

end Hass

/-- Neither the coordinator nor its sensors start or stop the timer. -/
theorem Coordinator.Move.fallbackLive {aes : Aes} {w : World} {c c' : Coordinator}
    (h : Move aes w c c') : c'.fallbackLive = c.fallbackLive := by
  cases h with
  | push | add _ | tick | arrive _ _ _ | «begin» _ _ _ | resume _ _ _ _ _ | notify _ _ _ _ _ => rfl
  | skip _ _ _ => rw [leave_fallbackLive]
  | finish _ _ _ _ _ => rw [leave_fallbackLive]

theorem Coordinator.step_fallbackLive {aes : Aes} {w : World} {c c' : Coordinator} {e : Event}
    (h : c.step aes w e = some c') : c'.fallbackLive = c.fallbackLive :=
  step_invariant (P := fun x => x.fallbackLive = c.fallbackLive)
    (fun _ _ hx hm => hm.fallbackLive.trans hx) h rfl

theorem Coordinator.addSensors_fallbackLive (w : World) (ds : List GoveeSensorDescription)
    (c : Coordinator) : (ds.foldl (addSensor w) c).fallbackLive = c.fallbackLive := by
  induction ds generalizing c with
  | nil => rfl
  | cons d ds ih => exact ih (c.addSensor w d)

namespace Hass

variable {aes : Aes} {h h' : Hass}

theorem live_update {k : ℕ} {c c' : Coordinator} (hc : h.coords k = some c)
    (hsame : c'.fallbackLive = c.fallbackLive) (j : ℕ) :
    ({ h with coords := Function.update h.coords k (some c') } : Hass).Live j ↔ h.Live j := by
  unfold Live
  by_cases hj : j = k
  · subst hj
    simp [hc, hsame]
  · simp [Function.update_of_ne hj]

theorem step_untouched {e : Event} (hok : h.Meanwhile e) (hstep : h.step aes e = some h') :
    h.Untouched h' := by
  cases step_stepped hstep with
  | world _ => exact ⟨⟨rfl, fun _ => Iff.rfl⟩, rfl, rfl⟩
  | coord hc hc' =>
    exact ⟨⟨rfl, live_update hc (Coordinator.step_fallbackLive hc')⟩, rfl, rfl⟩
  | updateOptions _ => exact ⟨⟨rfl, fun _ => Iff.rfl⟩, rfl, rfl⟩
  | setup _ _ _ | entrySetupsForwarded _ _ | unload _ | platformsUnloaded _ _ => exact hok.elim

/-- Nothing but an attempt touches the timers and `hass.data`. -/
theorem untouched (hrun : Reaches (step aes) Meanwhile h h') : h.Untouched h' :=
  hrun.relates .refl (fun _ _ _ => .trans) fun _ _ _ => step_untouched

/-! ## The ledger -/

/-- A coordinator changes, and its timer does not. -/
theorem modify_live {k : ℕ} {f : Coordinator → Coordinator}
    (hf : ∀ c, (f c).fallbackLive = c.fallbackLive) (j : ℕ) : (h.modify k f).Live j ↔ h.Live j := by
  cases hc : h.coords k with
  | none =>
    have hsame : h.modify k f = h := by
      rw [modify, hc, Option.map_none, ← hc, Function.update_eq_self]
    rw [hsame]
  | some c =>
    rw [modify, hc]
    exact live_update hc (hf c) j

/-- The callbacks of coordinator `k` stop its timer and no other. -/
theorem tornDown_live {k : ℕ} (j : ℕ) :
    (h.modify k Coordinator.tornDown).Live j ↔ j ≠ k ∧ h.Live j := by
  unfold Live modify
  by_cases hj : j = k
  · subst hj
    cases h.coords j <;>
      simp [Coordinator.tornDown, Coordinator.asyncStopFallback, Coordinator.stop]
  · simp [hj]

/-- While nothing is loaded no timer is live; otherwise only that of the coordinator in `hass.data`
is, and its callbacks are registered. -/
structure Ledger (h : Hass) : Prop where
  idle : h.stage = .notLoaded → h.data = none ∧ h.onUnload = [] ∧ ∀ k, ¬ h.Live k
  active : h.stage ≠ .notLoaded → ∃ k, h.data = some k ∧
    h.onUnload = [.stop k, .asyncStopFallback k] ∧ ∀ j, h.Live j ↔ j = k

namespace Ledger

theorem init (scanInterval : Option ℤ) : Ledger (Hass.init scanInterval) :=
  ⟨fun _ => ⟨rfl, rfl, fun _ => nofun⟩, fun hne => absurd rfl hne⟩

theorem whole (hl : Ledger h) : h.Whole := by
  by_cases hstage : h.stage = .notLoaded
  · obtain ⟨hdata, -, hdead⟩ := hl.idle hstage
    exact ⟨fun k => iff_of_false (hdead k) (by simp [hdata]), fun j _ hj => absurd hj (hdead j)⟩
  · obtain ⟨k, hdata, -, hlive⟩ := hl.active hstage
    refine ⟨fun j => ?_, fun i j hi hj => ((hlive i).mp hi).trans ((hlive j).mp hj).symm⟩
    rw [hlive, hdata, Option.some_inj]
    exact eq_comm

theorem untouched (hl : Ledger h) (hu : h.Untouched h') : Ledger h' := by
  constructor
  · intro hstage
    obtain ⟨hdata, hcalls, hdead⟩ := hl.idle (hu.stage ▸ hstage)
    exact ⟨hu.data.trans hdata, hu.onUnload.trans hcalls, fun k hk => hdead k ((hu.live k).mp hk)⟩
  · intro hstage
    obtain ⟨k, hdata, hcalls, hlive⟩ := hl.active (hu.stage ▸ hstage)
    exact ⟨k, hu.data.trans hdata, hu.onUnload.trans hcalls,
      fun j => (hu.live j).trans (hlive j)⟩

/-! ## One attempt -/

/-- No device: nothing was begun. -/
theorem noDevice (hl : Ledger h) (hidle : h.stage = .notLoaded) (started : Bool) :
    h.asyncSetupEntry none started = h := by
  obtain ⟨-, hcalls, -⟩ := hl.idle hidle
  rw [asyncSetupEntry, setupRaised, processOnUnload_idle hcalls, ← hidle]

theorem started (hl : Ledger h) (hidle : h.stage = .notLoaded) (device : BLEDevice) :
    Ledger (h.asyncSetupEntry (some device) true) := by
  obtain ⟨-, hcalls, hdead⟩ := hl.idle hidle
  refine ⟨fun hstage => (by cases hstage), fun _ => ⟨h.built, rfl, ?_, fun j => ?_⟩⟩
  · show h.onUnload ++ _ = _
    rw [hcalls]
    rfl
  · unfold Live
    by_cases hj : j = h.built
    · subst hj
      simp [asyncSetupEntry, modify, Coordinator.asyncInit, Coordinator.asyncStart]
    · have hdead := hdead j
      unfold Live at hdead
      simp [asyncSetupEntry, modify, hj, hdead]

/-- `async_start` raised: the coordinator stays in `hass.data`. -/
theorem notStarted (hl : Ledger h) (hidle : h.stage = .notLoaded) (device : BLEDevice) :
    (h.asyncSetupEntry (some device) false).data ≠ h.data := by
  obtain ⟨hdata, hcalls, -⟩ := hl.idle hidle
  have hsetup : (h.asyncSetupEntry (some device) false).data = some h.built := by
    rw [asyncSetupEntry]
    simp only [setupRaised, Bool.false_eq_true, if_false]
    rw [processOnUnload_idle (h := { h with
      coords := Function.update h.coords h.built
        (some (Coordinator.new device.address).asyncInit)
      built := h.built + 1
      data := some h.built }) hcalls]
  rw [hsetup, hdata]
  simp

theorem forwarded (hl : Ledger h) (hstage : h.stage = .settingUp) :
    Ledger (h.entrySetupsForwarded true) := by
  obtain ⟨k, hdata, hcalls, hlive⟩ := hl.active (by simp [hstage])
  rw [entrySetupsForwarded, if_pos rfl, hdata]
  refine ⟨fun hidle => (by cases hidle), fun _ => ⟨k, hdata, hcalls, fun j => ?_⟩⟩
  exact (modify_live (Coordinator.addSensors_fallbackLive h.world sensors) j).trans (hlive j)

/-- `async_forward_entry_setups` raised: the timer is stopped, the coordinator stays. -/
theorem notForwarded (hl : Ledger h) (hstage : h.stage = .settingUp) :
    ¬ (h.entrySetupsForwarded false).Whole := by
  obtain ⟨k, hdata, hcalls, hlive⟩ := hl.active (by simp [hstage])
  rw [entrySetupsForwarded, if_neg (by simp), setupRaised, processOnUnload_active hcalls]
  intro hwhole
  -- `hass.data` still names `k`, whose callbacks have stopped its timer
  have hlive := (hwhole.stored k).mpr hdata
  exact ((tornDown_live k).mp hlive).1 rfl

theorem unloaded (hl : Ledger h) (hstage : h.stage = .unloading) :
    Ledger (h.platformsUnloaded true) := by
  obtain ⟨k, hdata, hcalls, hlive⟩ := hl.active (by simp [hstage])
  have hactive := processOnUnload_active (k := k)
    (h := { h.modify k Coordinator.removeListeners with
      data := none, unloaded := h.unloaded ++ [k] }) hcalls
  rw [platformsUnloaded, if_pos rfl, hdata]
  simp only [hactive]
  refine ⟨fun _ => ⟨rfl, rfl, fun j hj => ?_⟩, fun hne => absurd rfl hne⟩
  -- the only live timer was that of `k`, and the callbacks stop it
  obtain ⟨hne, hj⟩ := (tornDown_live (h := h.modify k Coordinator.removeListeners) j).mp hj
  exact hne ((hlive j).mp
    ((modify_live (f := Coordinator.removeListeners) (fun _ => rfl) j).mp hj))

/-- Such an attempt keeps the ledger, and changes nothing if it fails. -/
theorem attempted (hl : Ledger h) {a : Attempt} (ha : Attempted aes h a h') (hok : a.Sound) :
    Ledger h' ∧ (a.failed = true → h.SameLedger h') := by
  cases ha with
  | @cutShort device started _ _ hcut hstep =>
    cases step_stepped hstep with
    | setup _ _ hidle =>
      cases device with
      | none =>
        rw [hl.noDevice hidle]
        exact ⟨hl, fun _ => (Untouched.refl h).toSameLedger⟩
      | some device =>
        -- the device was found, so `async_start` raised
        rcases hcut with hnone | hfalse
        · cases hnone
        · rw [hok.1] at hfalse
          cases hfalse
  | @setup device _ h₁ h₂ _ hstart hmean hend =>
    obtain ⟨-, rfl⟩ := hok
    cases step_stepped hstart with
    | setup _ _ hidle =>
      have hl₂ := (hl.started hidle device).untouched (Hass.untouched hmean)
      cases step_stepped hend with
      | entrySetupsForwarded _ hstage => exact ⟨hl₂.forwarded hstage, nofun⟩
  | @unload unloaded h₁ h₂ _ hstart hmean hend =>
    cases step_stepped hstart with
    | unload hloaded =>
      have hl₁ : Ledger { h with stage := .unloading } :=
        ⟨fun hidle => (by cases hidle), fun _ => hl.active (by simp [hloaded])⟩
      have hu := Hass.untouched hmean
      have hl₂ := hl₁.untouched hu
      cases step_stepped hend with
      | platformsUnloaded _ hstage =>
        cases unloaded with
        | true => exact ⟨hl₂.unloaded hstage, nofun⟩
        | false =>
          rw [platformsUnloaded, if_neg (by simp)]
          have hl' : Ledger { h₂ with stage := .loaded } :=
            ⟨fun hidle => (by cases hidle), fun _ => hl₂.active (by simp [hstage])⟩
          exact ⟨hl', fun _ => ⟨hu.data, hu.live⟩⟩

/-- Any other attempt leaves a half-made coordinator. -/
theorem attempted_unsound (hl : Ledger h) {a : Attempt} (ha : Attempted aes h a h')
    (hbad : ¬ a.Sound) : ¬ (h'.Whole ∧ (a.failed = true → h.SameLedger h')) := by
  rintro ⟨hwhole, hsame⟩
  cases ha with
  | @cutShort device started _ _ hcut hstep =>
    cases step_stepped hstep with
    | setup _ _ hidle =>
      cases device with
      | none => exact hbad trivial
      | some device =>
        rcases hcut with hnone | rfl
        · cases hnone
        · exact hl.notStarted hidle device (hsame rfl).data
  | @setup device forwarded h₁ h₂ _ hstart hmean hend =>
    cases step_stepped hstart with
    | setup _ _ hidle =>
      have hl₂ := (hl.started hidle device).untouched (Hass.untouched hmean)
      cases step_stepped hend with
      | entrySetupsForwarded _ hstage =>
        cases forwarded with
        | true => exact hbad ⟨rfl, rfl⟩
        | false => exact hl₂.notForwarded hstage hwhole
  | unload _ _ _ => exact hbad trivial

/-- The ledger is right after every attempt of a run of such attempts. -/
theorem attempts {scanInterval : Option ℤ}
    (hrun : Attempts aes Attempt.Sound (Hass.init scanInterval) h) : Ledger h := by
  induction hrun with
  | refl => exact .init scanInterval
  | pass _ hmean ih => exact ih.untouched (Hass.untouched hmean)
  | attempt _ hok ha ih => exact (ih.attempted ha hok).1

end Ledger

/-! ## Attempts in a row -/

/-- As long as, once the device was found, neither `async_start` nor `async_forward_entry_setups`
raised, exactly the timer of the coordinator in `hass.data` is live. The next attempt keeps that,
and leaves everything as it was if it fails, exactly if it is such an attempt, too. -/
theorem attempt_whole_iff {scanInterval : Option ℤ}
    (hrun : Attempts aes Attempt.Sound (init scanInterval) h) :
    h.Whole ∧ ∀ a h', Attempted aes h a h' →
      ((h'.Whole ∧ (a.failed = true → h.SameLedger h')) ↔ a.Sound) := by
  have hl : Ledger h := .attempts hrun
  refine ⟨hl.whole, fun a h' ha => ⟨fun hgood => ?_, fun hok => ?_⟩⟩
  · by_contra hbad
    exact hl.attempted_unsound ha hbad hgood
  · obtain ⟨hl', hsame⟩ := hl.attempted ha hok
    exact ⟨hl'.whole, hsame⟩

/-- An unload that fails after a setup. -/
def failedUnload : List Event := setUp ++ [.unload, .platformsUnloaded false]

theorem attempt_whole_iff_failedUnload :
    (after failedUnload).Whole ∧ (after setUp).SameLedger (after failedUnload) := by
  have hrun : Attempts capturedAes Attempt.Sound (init none) (after setUp) :=
    .attempt .refl (a := .setup (some plug) true true) ⟨rfl, rfl⟩ (.setup rfl .refl rfl)
  have hunload : Attempted capturedAes (after setUp) (.unload false) (after failedUnload) :=
    .unload rfl .refl rfl
  obtain ⟨hwhole, hsame⟩ := ((attempt_whole_iff hrun).2 _ _ hunload).mpr trivial
  exact ⟨hwhole, hsame rfl⟩

/-- `async_start` raises. -/
def startRaised : List Event := [.setup (some plug) false]

/-- `async_forward_entry_setups` raises. -/
def forwardRaised : List Event := [.setup (some plug) true, .entrySetupsForwarded false]

/-- Where `async_start` raises the timer stays, and the next setup adds another; where
`async_forward_entry_setups` raises a coordinator without a timer stays in `hass.data`. -/
theorem half_made :
    (Attempted capturedAes (init none) (.setup (some plug) false true) (after startRaised) ∧
      (init none).data = none ∧ (after startRaised).data = some 0 ∧
      (after (startRaised ++ setUp)).Live 0 ∧ (after (startRaised ++ setUp)).Live 1) ∧
    (Attempted capturedAes (init none) (.setup (some plug) true false) (after forwardRaised) ∧
      (after forwardRaised).data = some 0 ∧ ¬ (after forwardRaised).Live 0) :=
  ⟨⟨.cutShort (.inr rfl) rfl, rfl, rfl, by decide +kernel, by decide +kernel⟩,
    .setup rfl .refl rfl, rfl, by decide +kernel⟩

end Hass

end GoveeH5086
