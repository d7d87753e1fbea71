import GoveeH5086.Attempts

/-!
# The options of an entry (`GoveeH5086OptionsFlow` and `_async_options_updated`)

The timer of a coordinator gets its period once, in `async_init`, while the gates of the polls read
`scan_interval` anew each time. A change of the option is therefore answered by a reload. Several
forms may be open at a time, and what a client submits is checked by the schema of the form that
was shown.

The check is made by `voluptuous`, which is a parameter, and so is the kind of input that clients
send. Home Assistant stores the options that a flow ends with and, if they differ from the old ones,
schedules a task for every update listener. `async_reload` takes the `setup_lock` of the entry,
unloads the entry if it is loaded, and sets it up. A setup and an unload hold the same lock.

1. `Voluptuous.Lawful`: what is relied on of the check.
2. `Home.last_submission_wins`: the option is the last submission that was accepted, and every form
   is shown with a default that it accepts.
3. `Home.Inv.step`: while the entry is set up its timer has the current period, or a reload is due.
4. `Home.timer_up_to_date`: in every run in which no unload fails.
-/

namespace GoveeH5086
open Runs

/-- `MIN_SCAN_INTERVAL` and `MAX_SCAN_INTERVAL`. -/
def minScanInterval : ℤ := 10
def maxScanInterval : ℤ := 3600

/-! ## The schema of a form -/

/-- `CONF_SCAN_INTERVAL`. -/
def confScanInterval : String := "scan_interval"

/-- `vol.Schema` of one `vol.Required` with a default, for a value that goes through
`vol.Coerce(int)` and `vol.Range`. -/
structure Schema where
  key : String
  default : ℤ
  min : ℤ
  max : ℤ
deriving DecidableEq, Repr

/-- What the options form is shown with. -/
def dataSchema (current : ℤ) : Schema :=
  ⟨confScanInterval, current, minScanInterval, maxScanInterval⟩

/-- `voluptuous` on such a schema: the value that it passes on for the key, or `none` for `Invalid`.
`empty` is what a client sends who leaves the form as it is. -/
structure Voluptuous (Input : Type) where
  validate : Schema → Input → Option ℤ
  empty : Input

variable {Input : Type}

/-- `vol.Range` lets nothing else through, and `vol.Required` puts the default where the key is
missing. -/
structure Voluptuous.Lawful (v : Voluptuous Input) : Prop where
  range : ∀ schema input n, v.validate schema input = some n → schema.min ≤ n ∧ n ≤ schema.max
  default : ∀ schema, schema.min ≤ schema.default → schema.default ≤ schema.max →
    v.validate schema v.empty = some schema.default

/-- `voluptuous`, where a client sends an integer for each key. -/
def Voluptuous.ofInts : Voluptuous (List (String × ℤ)) where
  validate schema input :=
    if input.any fun p => p.1 ≠ schema.key then none
    else
      let n := (input.lookup schema.key).getD schema.default
      if schema.min ≤ n ∧ n ≤ schema.max then some n else none
  empty := []

theorem Voluptuous.ofInts_lawful : Voluptuous.ofInts.Lawful := by
  refine ⟨fun schema input n h => ?_, fun schema hmin hmax => if_pos ⟨hmin, hmax⟩⟩
  obtain ⟨-, h⟩ := Option.ite_none_left_eq_some.mp h
  obtain ⟨hrange, heq⟩ := Option.ite_none_right_eq_some.mp h
  exact Option.some.inj heq ▸ hrange

/-! ## The entry, its forms and its reloads -/

/-- The entry. `forms` are the options flows that are open; `period k` is the period that the timer
of coordinator `k` was registered with; `listening` says that `_async_options_updated` is among the
update listeners; `reloads` counts the tasks of it that have not got the lock, and `reloading` says
that one of them is between its unload and its setup. -/
structure Home where
  hass : Hass
  forms : ℕ → Option Schema
  period : ℕ → ℤ
  listening : Bool
  reloads : ℕ
  reloading : Bool

namespace Home

/-- The entry was just created, with no options. -/
def init : Home where
  hass := .init none
  forms := fun _ => none
  period := fun _ => 0
  listening := false
  reloads := 0
  reloading := false

/-- `async_step_init` without input. -/
def asyncStepInit (s : Home) (i : ℕ) : Home :=
  { s with forms := Function.update s.forms i (some (dataSchema s.hass.world.scanInterval)) }

def close (s : Home) (i : ℕ) : Home := { s with forms := Function.update s.forms i none }

/-- A flow ends with `async_create_entry`. -/
def asyncUpdateEntry (s : Home) (scanInterval : ℤ) : Home :=
  if s.hass.world.scanIntervalOption = some scanInterval then s
  else { s with
    hass := { s.hass with
      world := { s.hass.world with scanIntervalOption := some scanInterval } }
    reloads := if s.listening then s.reloads + 1 else s.reloads }

/-- `async_setup_entry` up to `async_forward_entry_setups`. The listener is added last. -/
def setUp (s : Home) (device : Option BLEDevice) (started : Bool) : Home :=
  { s with
    hass := s.hass.asyncSetupEntry device started
    period := Function.update s.period s.hass.built s.hass.world.scanInterval
    listening := device.isSome && started
    reloading := false }

/-- The rest of a setup. A listener goes with the other `on_unload` callbacks. -/
def forwarded (s : Home) (ok : Bool) : Home :=
  { s with hass := s.hass.entrySetupsForwarded ok, listening := s.listening && ok }

def beginUnload (s : Home) : Home := { s with hass := { s.hass with stage := .unloading } }

/-- The rest of an unload. A reload ends with an unload that failed. -/
def endUnload (s : Home) (unloaded : Bool) : Home :=
  { s with
    hass := s.hass.platformsUnloaded unloaded
    listening := s.listening && !unloaded
    reloading := s.reloading && unloaded }

/-- A reload gets the lock. -/
def beginReload (s : Home) : Home :=
  let s := { s with reloads := s.reloads - 1, reloading := true }
  if s.hass.stage = .loaded then s.beginUnload else s

inductive Event (Input : Type)
  | world (e : World.Event)
  | coord (k : ℕ) (e : Coordinator.Event)
  | openForm (i : ℕ)
  | submitForm (i : ℕ) (input : Input)
  | closeForm (i : ℕ)
  | setup (device : Option BLEDevice) (started : Bool)
  | entrySetupsForwarded (ok : Bool)
  | unload
  | platformsUnloaded (unloaded : Bool)
  | reload

/-- The lock of the entry is free. -/
def lockFree (s : Home) : Bool :=
  (s.hass.stage = .loaded || s.hass.stage = .notLoaded) && !s.reloading

/-- The effect of an event, when it can happen. A form may be shown again, with the default of then.
A setup comes from outside or from a reload that has unloaded the entry. -/
def step (v : Voluptuous Input) (aes : Aes) (s : Home) : Event Input → Option Home
  | .world e => (s.hass.step aes (.world e)).map fun hass => { s with hass := hass }
  | .coord k e => (s.hass.step aes (.coord k e)).map fun hass => { s with hass := hass }
  | .openForm i => some (s.asyncStepInit i)
  | .submitForm i input =>
    (s.forms i).map fun form =>
      match v.validate form input with
      | none => s
      | some scanInterval => (s.close i).asyncUpdateEntry scanInterval
  | .closeForm i => some (s.close i)
  | .setup device started =>
    if s.hass.stage = .notLoaded then some (s.setUp device started) else none
  | .entrySetupsForwarded ok =>
    if s.hass.stage = .settingUp then some (s.forwarded ok) else none
  | .unload => if s.hass.stage = .loaded && s.lockFree then some s.beginUnload else none
  | .platformsUnloaded unloaded =>
    if s.hass.stage = .unloading then some (s.endUnload unloaded) else none
  | .reload => if 0 < s.reloads && s.lockFree then some s.beginReload else none

/-- No platform fails to unload. -/
def Unloads (_ : Home) : Event Input → Prop
  | .platformsUnloaded unloaded => unloaded = true
  | _ => True

end Home

/-! ## What the entry leaves alone -/

namespace Hass

section
variable (h : Hass)

theorem processOnUnload_world : h.processOnUnload.world = h.world := by
  have hfold : ∀ fs : List OnUnload, (fs.foldr (fun f h => h.call f) h).world = h.world := by
    intro fs
    induction fs with
    | nil => rfl
    | cons f fs ih =>
      rw [List.foldr_cons, ← ih]
      cases f <;> rfl
  exact hfold h.onUnload

theorem asyncSetupEntry_world (device : Option BLEDevice) (started : Bool) :
    (h.asyncSetupEntry device started).world = h.world := by
  cases device with
  | none => exact processOnUnload_world h
  | some device =>
    cases started with
    | true => rfl
    | false => exact processOnUnload_world _

theorem entrySetupsForwarded_world (ok : Bool) : (h.entrySetupsForwarded ok).world = h.world := by
  unfold entrySetupsForwarded
  split
  · split <;> rfl
  · exact processOnUnload_world h

theorem platformsUnloaded_world (unloaded : Bool) :
    (h.platformsUnloaded unloaded).world = h.world := by
  unfold platformsUnloaded
  split
  · split
    · exact processOnUnload_world h
    · exact processOnUnload_world _
  · rfl

/-- A setup that does not reach its second part has failed. -/
theorem asyncSetupEntry_stage {device : Option BLEDevice} {started : Bool}
    (hfails : (device.isSome && started) = false) :
    (h.asyncSetupEntry device started).stage = .notLoaded := by
  cases device with
  | none => rfl
  | some device =>
    cases started with
    | true => cases hfails
    | false => rfl

theorem platformsUnloaded_stage : (h.platformsUnloaded true).stage = .notLoaded := by
  unfold platformsUnloaded
  rw [if_pos rfl]
  split <;> rfl

/-- A setup up to its second part has a coordinator with a live timer. -/
theorem asyncSetupEntry_live (device : BLEDevice) :
    (h.asyncSetupEntry (some device) true).data = some h.built ∧
    (h.asyncSetupEntry (some device) true).Live h.built := by
  refine ⟨rfl, ?_⟩
  simp [Live, asyncSetupEntry, modify, Coordinator.asyncInit, Coordinator.asyncStart]

theorem entrySetupsForwarded_live {k : ℕ} (hdata : h.data = some k) (hlive : h.Live k) :
    (h.entrySetupsForwarded true).data = some k ∧ (h.entrySetupsForwarded true).Live k := by
  rw [entrySetupsForwarded, if_pos rfl, hdata]
  exact ⟨hdata, (modify_live (Coordinator.addSensors_fallbackLive h.world sensors) k).mpr hlive⟩

end

end Hass

namespace Home

variable {v : Voluptuous Input} {aes : Aes} {s s' : Home}

/-! ## What the option is -/

/-- What a submission is taken for, if the form accepts it. -/
def submission (v : Voluptuous Input) (s : Home) : Event Input → Option ℤ
  | .submitForm i input => (s.forms i).bind fun form => v.validate form input
  | _ => none

/-- The submissions of a run that were accepted, as the intervals that they were taken for. -/
def accepted (v : Voluptuous Input) (aes : Aes) (es : List (Event Input)) : List ℤ :=
  seen (step v aes) (submission v) init es

/-- What one event does to the option and to the forms. -/
structure Changed (v : Voluptuous Input) (s : Home) (e : Event Input) (s' : Home) : Prop where
  option : s'.hass.world.scanIntervalOption =
    (submission v s e).or s.hass.world.scanIntervalOption
  forms : ∀ i form, s'.forms i = some form →
    s.forms i = some form ∧ e ≠ .openForm i ∨
    e = .openForm i ∧ form = dataSchema s.hass.world.scanInterval

/-- What is no form leaves both alone. -/
theorem Changed.aside {e : Event Input} (hnone : submission v s e = none)
    (hoption : s'.hass.world.scanIntervalOption = s.hass.world.scanIntervalOption)
    (hforms : s'.forms = s.forms) (he : ∀ i, e ≠ .openForm i) : Changed v s e s' :=
  ⟨by rw [hnone, Option.none_or, hoption], fun i _ hform => .inl ⟨hforms ▸ hform, he i⟩⟩

theorem close_forms {i j : ℕ} {form : Schema} (h : (s.close i).forms j = some form) :
    s.forms j = some form := by
  by_cases hij : j = i
  · simp [close, hij] at h
  · simpa [close, hij] using h

theorem asyncUpdateEntry_option (s : Home) (n : ℤ) :
    (s.asyncUpdateEntry n).hass.world.scanIntervalOption = some n ∧
      (s.asyncUpdateEntry n).forms = s.forms := by
  unfold asyncUpdateEntry
  split
  · next hsame => exact ⟨hsame, rfl⟩
  · exact ⟨rfl, rfl⟩

theorem step_changed {e : Event Input} (hstep : s.step v aes e = some s') : Changed v s e s' := by
  cases e with
  | world e =>
    obtain ⟨hass, hhass, rfl⟩ := Option.map_eq_some_iff.mp hstep
    obtain ⟨w, hw, rfl⟩ := Option.map_eq_some_iff.mp hhass
    exact .aside rfl (World.step_later hw).scanIntervalOption rfl nofun
  | coord k e =>
    obtain ⟨hass, hhass, rfl⟩ := Option.map_eq_some_iff.mp hstep
    obtain ⟨c, -, hmap⟩ := Option.bind_eq_some_iff.mp hhass
    obtain ⟨c', -, rfl⟩ := Option.map_eq_some_iff.mp hmap
    exact .aside rfl rfl rfl nofun
  | openForm i =>
    cases hstep
    refine ⟨rfl, fun j form hform => ?_⟩
    by_cases hj : j = i
    · subst hj
      simp only [asyncStepInit, Function.update_self, Option.some.injEq] at hform
      exact .inr ⟨rfl, hform.symm⟩
    · simp only [asyncStepInit, Function.update_of_ne hj] at hform
      exact .inl ⟨hform, fun he => hj (by cases he; rfl)⟩
  | submitForm i input =>
    obtain ⟨form, hopen, rfl⟩ := Option.map_eq_some_iff.mp hstep
    have hsubmission : submission v s (.submitForm i input) = v.validate form input := by
      simp [submission, hopen]
    cases hverdict : v.validate form input with
    | none => exact .aside (hsubmission.trans hverdict) rfl rfl nofun
    | some n =>
      obtain ⟨hoption, hforms⟩ := (s.close i).asyncUpdateEntry_option n
      refine ⟨by rw [hsubmission, hverdict]; exact hoption, fun j form' hform' => ?_⟩
      exact .inl ⟨close_forms (hforms ▸ hform'), nofun⟩
  | closeForm i =>
    cases hstep
    exact ⟨rfl, fun j form hform => .inl ⟨close_forms hform, nofun⟩⟩
  | setup device started =>
    obtain ⟨-, heq⟩ := Option.ite_none_right_eq_some.mp hstep
    cases heq
    exact .aside rfl (by rw [setUp, Hass.asyncSetupEntry_world]) rfl nofun
  | entrySetupsForwarded ok =>
    obtain ⟨-, heq⟩ := Option.ite_none_right_eq_some.mp hstep
    cases heq
    exact .aside rfl (by rw [forwarded, Hass.entrySetupsForwarded_world]) rfl nofun
  | unload =>
    obtain ⟨-, heq⟩ := Option.ite_none_right_eq_some.mp hstep
    cases heq
    exact .aside rfl rfl rfl nofun
  | platformsUnloaded unloaded =>
    obtain ⟨-, heq⟩ := Option.ite_none_right_eq_some.mp hstep
    cases heq
    exact .aside rfl (by rw [endUnload, Hass.platformsUnloaded_world]) rfl nofun
  | reload =>
    obtain ⟨-, heq⟩ := Option.ite_none_right_eq_some.mp hstep
    cases heq
    unfold beginReload
    dsimp only
    split <;> exact .aside rfl rfl rfl nofun

/-! ### Whole runs -/

/-- The interval is the one that was accepted last, and the default one before that. -/
theorem run_scanInterval {es : List (Event Input)} (hrun : run (step v aes) init es = some s) :
    s.hass.world.scanIntervalOption = (accepted v aes es).getLast? ∧
      s.hass.world.scanInterval = (accepted v aes es).getLast?.getD defaultScanInterval := by
  have hlast := last_seen (fun s : Home => s.hass.world.scanIntervalOption)
    (fun _ _ _ hstep => (step_changed hstep).option) hrun
  rw [show init.hass.world.scanIntervalOption = none from rfl, Option.or_none] at hlast
  exact ⟨hlast, by rw [World.scanInterval, hlast]; rfl⟩

/-- A form that is open has the schema of the moment when it was last shown. -/
theorem run_forms {es : List (Event Input)} (hrun : run (step v aes) init es = some s) {i : ℕ}
    {form : Schema} (hform : s.forms i = some form) :
    ∃ before after, es = before ++ .openForm i :: after ∧ .openForm i ∉ after ∧
      form = dataSchema ((accepted v aes before).getLast?.getD defaultScanInterval) := by
  induction es using List.reverseRecOn generalizing s with
  | nil =>
    cases hrun
    cases hform
  | append_singleton es e ih =>
    rw [run_concat] at hrun
    obtain ⟨t, ht, hstep⟩ := Option.bind_eq_some_iff.mp hrun
    rcases (step_changed hstep).forms i form hform with ⟨hbefore, hother⟩ | ⟨rfl, rfl⟩
    · obtain ⟨before, after, rfl, hlast, hschema⟩ := ih ht hbefore
      refine ⟨before, after ++ [e], by simp, fun hmem => ?_, hschema⟩
      rcases List.mem_append.mp hmem with hold | hnew
      · exact hlast hold
      · exact hother (List.mem_singleton.mp hnew).symm
    · exact ⟨es, [], rfl, List.not_mem_nil, by rw [(run_scanInterval ht).2]⟩

/-- Only what some form accepts is stored. -/
def Valid (s : Home) : Prop :=
  (∀ n, s.hass.world.scanIntervalOption = some n → minScanInterval ≤ n ∧ n ≤ maxScanInterval) ∧
  ∀ i form, s.forms i = some form → ∃ current,
    form = dataSchema current ∧ minScanInterval ≤ current ∧ current ≤ maxScanInterval

theorem Valid.scanInterval (h : s.Valid) :
    minScanInterval ≤ s.hass.world.scanInterval ∧ s.hass.world.scanInterval ≤ maxScanInterval := by
  unfold World.scanInterval
  cases hoption : s.hass.world.scanIntervalOption with
  | none => exact ⟨by decide, by decide⟩
  | some n => exact h.1 n hoption

theorem Valid.step (hv : v.Lawful) (h : s.Valid) {e : Event Input}
    (hstep : s.step v aes e = some s') : s'.Valid := by
  have hchanged := step_changed hstep
  refine ⟨fun n hn => ?_, fun i form hform => ?_⟩
  · rw [hchanged.option] at hn
    rcases Option.or_eq_some_iff.mp hn with hnew | ⟨-, hold⟩
    · cases e with
      | submitForm i input =>
        obtain ⟨form, hform, hverdict⟩ := Option.bind_eq_some_iff.mp hnew
        obtain ⟨current, rfl, -⟩ := h.2 i form hform
        exact hv.range _ input n hverdict
      | _ => cases hnew
    · exact h.1 n hold
  · rcases hchanged.forms i form hform with ⟨hbefore, -⟩ | ⟨-, hshown⟩
    · exact h.2 i form hbefore
    · exact ⟨_, hshown, h.scanInterval⟩

/-- Over any number of forms, shown and submitted in any order, and across all reloads, the option
is what the last accepted submission was taken for, within the bounds. A form that is open was shown
with the interval of then, and accepts it when it is submitted as it is. -/
theorem last_submission_wins (hv : v.Lawful) {es : List (Event Input)}
    (hrun : run (step v aes) init es = some s) :
    s.hass.world.scanIntervalOption = (accepted v aes es).getLast? ∧
    (minScanInterval ≤ s.hass.world.scanInterval ∧ s.hass.world.scanInterval ≤ maxScanInterval) ∧
    ∀ i form, s.forms i = some form → v.validate form v.empty = some form.default ∧
      ∃ before after, es = before ++ .openForm i :: after ∧ .openForm i ∉ after ∧
        form = dataSchema ((accepted v aes before).getLast?.getD defaultScanInterval) := by
  have hvalid : s.Valid := (reaches_free hrun).invariant (P := Valid)
    ⟨fun n hn => (by cases hn), fun i form hform => (by cases hform)⟩
    fun _ _ _ ha _ hstep => ha.step hv hstep
  refine ⟨(run_scanInterval hrun).1, hvalid.scanInterval,
    fun i form hform => ⟨?_, run_forms hrun hform⟩⟩
  obtain ⟨current, rfl, hmin, hmax⟩ := hvalid.2 i form hform
  exact hv.default _ hmin hmax

/-- The option is set twice, with a reload after each time; the second time in a form that was shown
before the first. -/
def twiceSet : List (Event (List (String × ℤ))) :=
  [.setup (some Sys.plug) true, .openForm 0, .openForm 1, .openForm 2, .entrySetupsForwarded true,
    .submitForm 0 [("scan_interval", 5)], .submitForm 0 [("scan_interval", 22)],
    .reload, .platformsUnloaded true, .setup (some Sys.plug) true, .entrySetupsForwarded true,
    .submitForm 1 [("scan_interval", 60)], .openForm 3, .reload, .platformsUnloaded true,
    .setup (some Sys.plug) true, .entrySetupsForwarded true]

/-- No unload of `twiceSet` fails. -/
def unloadsB (_ : Home) : Event Input → Bool
  | .platformsUnloaded unloaded => unloaded
  | _ => true

def afterTwiceSet : Home := outcome (guarded (step .ofInts capturedAes) unloadsB) init twiceSet

theorem last_submission_wins_twiceSet : ∃ s,
    run (step .ofInts capturedAes) init twiceSet = some s ∧
    s.hass.world.scanIntervalOption = some 60 ∧
    ∃ form, s.forms 2 = some form ∧ Voluptuous.ofInts.validate form [] = some 30 := by
  obtain ⟨s, hs⟩ : ∃ s, run (step .ofInts capturedAes) init twiceSet = some s :=
    Option.isSome_iff_exists.mp (by decide +kernel)
  obtain ⟨hoption, -, hforms⟩ := last_submission_wins Voluptuous.ofInts_lawful hs
  have hform : (run (step .ofInts capturedAes) init twiceSet).bind (fun s => s.forms 2) =
      some (dataSchema 30) := by decide +kernel
  rw [hs] at hform
  exact ⟨s, hs, hoption.trans (by decide +kernel), _, hform, (hforms 2 _ hform).1⟩

/-! ## The timer and the option -/

/-- While the entry is set up its timer is live, and has the current period or a reload is due. -/
def Inv (s : Home) : Prop :=
  s.hass.stage = .settingUp ∨ s.hass.stage = .loaded →
    s.listening = true ∧ ∃ k, s.hass.data = some k ∧ s.hass.Live k ∧
      (s.period k = s.hass.world.scanInterval ∨ 0 < s.reloads)

theorem Inv.idle (h : s.hass.stage = .notLoaded ∨ s.hass.stage = .unloading) : s.Inv := by
  intro hactive
  rcases h with h | h <;> rw [h] at hactive <;> simp at hactive

/-- Something beside the entry happens. -/
theorem Inv.hass (h : s.Inv) {hass : Hass} (hu : s.hass.Untouched hass)
    (hoption : hass.world.scanIntervalOption = s.hass.world.scanIntervalOption) :
    ({ s with hass := hass } : Home).Inv := by
  intro hactive
  obtain ⟨hlistening, k, hdata, hlive, hperiod⟩ := h (hu.stage ▸ hactive)
  refine ⟨hlistening, k, hu.data.trans hdata, (hu.live k).mpr hlive, ?_⟩
  unfold World.scanInterval at hperiod ⊢
  rw [hoption]
  exact hperiod

theorem Inv.asyncUpdateEntry (h : s.Inv) (n : ℤ) : (s.asyncUpdateEntry n).Inv := by
  unfold Home.asyncUpdateEntry
  split
  · exact h
  · intro hactive
    obtain ⟨hlistening, k, hdata, hlive, -⟩ := h hactive
    refine ⟨hlistening, k, hdata, hlive, .inr ?_⟩
    show 0 < if s.listening then s.reloads + 1 else s.reloads
    rw [hlistening]
    exact Nat.succ_pos _

theorem Inv.setUp (s : Home) (device : Option BLEDevice) (started : Bool) :
    (s.setUp device started).Inv := by
  cases hfails : device.isSome && started with
  | false => exact .idle (.inl (s.hass.asyncSetupEntry_stage hfails))
  | true =>
    obtain ⟨hsome, rfl⟩ := Bool.and_eq_true_iff.mp hfails
    obtain ⟨device, rfl⟩ := Option.isSome_iff_exists.mp hsome
    obtain ⟨hdata, hlive⟩ := s.hass.asyncSetupEntry_live device
    refine fun _ => ⟨rfl, s.hass.built, hdata, hlive, .inl ?_⟩
    show Function.update s.period s.hass.built _ s.hass.built = _
    rw [Function.update_self, Home.setUp, Hass.asyncSetupEntry_world]

theorem Inv.forwarded (h : s.Inv) (hstage : s.hass.stage = .settingUp) (ok : Bool) :
    (s.forwarded ok).Inv := by
  cases ok with
  | false =>
    refine .idle (.inl ?_)
    simp [Home.forwarded, Hass.entrySetupsForwarded, Hass.setupRaised]
  | true =>
    obtain ⟨hlistening, k, hdata, hlive, hperiod⟩ := h (.inl hstage)
    obtain ⟨hdata', hlive'⟩ := s.hass.entrySetupsForwarded_live hdata hlive
    refine fun _ => ⟨by rw [Home.forwarded, hlistening]; rfl, k, hdata', hlive', ?_⟩
    rw [Home.forwarded, Hass.entrySetupsForwarded_world]
    exact hperiod

theorem Inv.step (h : s.Inv) {e : Event Input} (hok : s.Unloads e)
    (hstep : s.step v aes e = some s') : s'.Inv := by
  cases e with
  | world e =>
    obtain ⟨hass, hhass, rfl⟩ := Option.map_eq_some_iff.mp hstep
    obtain ⟨w, hw, heq⟩ := Option.map_eq_some_iff.mp hhass
    refine h.hass (Hass.step_untouched (e := .world e) trivial hhass) ?_
    rw [← heq]
    exact (World.step_later hw).scanIntervalOption
  | coord k e =>
    obtain ⟨hass, hhass, rfl⟩ := Option.map_eq_some_iff.mp hstep
    refine h.hass (Hass.step_untouched (e := .coord k e) trivial hhass) ?_
    obtain ⟨c, -, hmap⟩ := Option.bind_eq_some_iff.mp hhass
    obtain ⟨c', -, rfl⟩ := Option.map_eq_some_iff.mp hmap
    rfl
  | openForm i =>
    cases hstep
    exact h
  | submitForm i input =>
    obtain ⟨form, -, rfl⟩ := Option.map_eq_some_iff.mp hstep
    split
    · exact h
    · exact Inv.asyncUpdateEntry (s := s.close i) h _
  | closeForm i =>
    cases hstep
    exact h
  | setup device started =>
    obtain ⟨-, heq⟩ := Option.ite_none_right_eq_some.mp hstep
    cases heq
    exact .setUp s device started
  | entrySetupsForwarded ok =>
    obtain ⟨hstage, heq⟩ := Option.ite_none_right_eq_some.mp hstep
    cases heq
    exact h.forwarded hstage ok
  | unload =>
    obtain ⟨-, heq⟩ := Option.ite_none_right_eq_some.mp hstep
    cases heq
    exact .idle (.inr rfl)
  | platformsUnloaded unloaded =>
    obtain ⟨-, heq⟩ := Option.ite_none_right_eq_some.mp hstep
    cases heq
    cases hok
    exact .idle (.inl s.hass.platformsUnloaded_stage)
  | reload =>
    obtain ⟨hfree, heq⟩ := Option.ite_none_right_eq_some.mp hstep
    cases heq
    simp only [beginReload]
    split
    · exact .idle (.inr rfl)
    · next hstage =>
      -- the lock is free, so that the entry is loaded or not loaded
      have hlock := (Bool.and_eq_true_iff.mp hfree).2
      simp only [lockFree, hstage, decide_false, Bool.false_or, Bool.and_eq_true,
        decide_eq_true_eq] at hlock
      exact .idle (.inl hlock.1)

/-- As long as no unload fails, the timer of an entry that is set up is live and has the period that
the gates of its polls go by, unless a reload is due. -/
theorem timer_up_to_date (hrun : Reaches (Home.step v aes) Unloads init s)
    (hactive : s.hass.stage = .settingUp ∨ s.hass.stage = .loaded) (hdue : s.reloads = 0) :
    ∃ k, s.hass.data = some k ∧ s.hass.Live k ∧ s.period k = s.hass.world.scanInterval := by
  have hinv : s.Inv := hrun.invariant (P := Inv) (.idle (.inl rfl))
    fun _ _ _ ha hok hstep => ha.step hok hstep
  obtain ⟨-, k, hdata, hlive, hperiod⟩ := hinv hactive
  refine ⟨k, hdata, hlive, ?_⟩
  rcases hperiod with hperiod | hpositive
  · exact hperiod
  · exact absurd hdue hpositive.ne'

theorem timer_up_to_date_twiceSet :
    ∃ k, afterTwiceSet.hass.data = some k ∧ afterTwiceSet.hass.Live k ∧
      afterTwiceSet.period k = 60 := by
  have hrun : Reaches (Home.step .ofInts capturedAes) Unloads init afterTwiceSet := by
    refine reaches_outcome (by decide +kernel) fun s e he => ?_
    cases e with
    | platformsUnloaded unloaded => exact he
    | _ => trivial
  have hoption : afterTwiceSet.hass.world.scanInterval = 60 := by decide +kernel
  obtain ⟨k, hdata, hlive, hperiod⟩ :=
    timer_up_to_date hrun (.inr (by decide +kernel)) (by decide +kernel)
  exact ⟨k, hdata, hlive, hperiod.trans hoption⟩

end Home

end GoveeH5086
