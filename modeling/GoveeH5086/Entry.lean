import GoveeH5086.History

/-!
# The config entry (`__init__.py`)

One config entry, and every coordinator that was ever built for it. A setup runs without an
interruption up to `async_forward_entry_setups` and is suspended there; an unload is suspended in
`async_unload_platforms`. Between any two steps the coordinators go on, the old ones too.

Home Assistant runs the `on_unload` callbacks, the last one first, after a setup that raised and
after an unload that returned `True`. It does not cancel a poll. `_async_options_updated` asks for a
reload, which is an unload and then a setup: both may come at any moment, so the listener itself is
left out.

1. `Hass.step`, `Hass.step_stepped`: the events of the entry and of its coordinators.
2. `Coordinator.Dead`, `Dead.step`: a coordinator that was stopped while no poll with a device
   waited for its lock makes no further poll.
-/

namespace GoveeH5086
open BigEndian FifoLock Runs

/-! ## State -/

/-- An `on_unload` callback of the entry: what `async_start` returned, or `async_stop_fallback`. -/
inductive OnUnload
  | stop (k : ℕ)
  | asyncStopFallback (k : ℕ)
deriving DecidableEq, Repr

/-- Where the entry is. In `settingUp` and `unloading` the code is suspended. -/
inductive Stage
  | notLoaded
  | settingUp
  | loaded
  | unloading
deriving DecidableEq, Repr

/-- Home Assistant, as far as the entry is concerned. `data` is `hass.data[DOMAIN]` at the entry.
`coords` and `built` are all coordinators that were built. `unloaded` is ghost: the coordinators
whose entry was unloaded. -/
structure Hass where
  world : World
  coords : ℕ → Option Coordinator
  built : ℕ
  data : Option ℕ
  onUnload : List OnUnload
  stage : Stage
  unloaded : List ℕ

/-- The parent's `stop`. -/
def Coordinator.stop (c : Coordinator) : Coordinator := { c with subscribed := false }

/-- `async_stop_fallback`. -/
def Coordinator.asyncStopFallback (c : Coordinator) : Coordinator :=
  { c with fallbackLive := false }

/-- The sensors are removed, each with its listener. -/
def Coordinator.removeListeners (c : Coordinator) : Coordinator := { c with listeners := [] }

namespace Hass

def modify (h : Hass) (k : ℕ) (f : Coordinator → Coordinator) : Hass :=
  { h with coords := Function.update h.coords k ((h.coords k).map f) }

def call (h : Hass) : OnUnload → Hass
  | .stop k => h.modify k Coordinator.stop
  | .asyncStopFallback k => h.modify k Coordinator.asyncStopFallback

/-- Home Assistant runs the `on_unload` callbacks. -/
def processOnUnload (h : Hass) : Hass :=
  { h.onUnload.foldr (fun f h => h.call f) h with onUnload := [] }

/-- A setup raised. -/
def setupRaised (h : Hass) : Hass := { h.processOnUnload with stage := .notLoaded }

/-- `async_setup_entry` up to `async_forward_entry_setups`. `device` is what
`async_ble_device_from_address` finds, `started` is whether `coordinator.async_start` returns. -/
def asyncSetupEntry (h : Hass) (device : Option BLEDevice) (started : Bool) : Hass :=
  match device with
  | none => h.setupRaised
  | some device =>
    let k := h.built
    let coordinator := (Coordinator.new device.address).asyncInit
    let h := { h with
      coords := Function.update h.coords k (some coordinator), built := k + 1, data := some k }
    if started then
      { h.modify k Coordinator.asyncStart with
        onUnload := h.onUnload ++ [.stop k, .asyncStopFallback k]
        stage := .settingUp }
    else h.setupRaised

/-- `async_setup_entry` from `async_forward_entry_setups` on. The platform adds the sensors to the
coordinator in `hass.data`. -/
def entrySetupsForwarded (h : Hass) (ok : Bool) : Hass :=
  if ok then
    match h.data with
    | none => { h with stage := .loaded }
    | some k => { h.modify k (fun c => sensors.foldl (Coordinator.addSensor h.world) c) with
        stage := .loaded }
  else h.setupRaised

/-- `async_unload_entry` from `async_unload_platforms` on. The platform removes its listeners. -/
def platformsUnloaded (h : Hass) (unloaded : Bool) : Hass :=
  if unloaded then
    match h.data with
    | none => { h.processOnUnload with stage := .notLoaded }
    | some k =>
      let h := { h.modify k Coordinator.removeListeners with
        data := none, unloaded := h.unloaded ++ [k] }
      { h.processOnUnload with stage := .notLoaded }
  else { h with stage := .loaded }

inductive Event
  | world (e : World.Event)
  | coord (k : ℕ) (e : Coordinator.Event)
  | updateOptions (scanInterval : ℤ)
  | setup (device : Option BLEDevice) (started : Bool)
  | entrySetupsForwarded (ok : Bool)
  | unload
  | platformsUnloaded (unloaded : Bool)

/-- The effect of an event, when it can happen. -/
def step (aes : Aes) (h : Hass) : Event → Option Hass
  | .world e => (h.world.step e).map fun w => { h with world := w }
  | .coord k e =>
    (h.coords k).bind fun c => (c.step aes h.world e).map fun c' =>
      { h with coords := Function.update h.coords k (some c') }
  | .updateOptions scanInterval =>
    some { h with world := { h.world with scanIntervalOption := some scanInterval } }
  | .setup device started =>
    if h.stage = .notLoaded then some (h.asyncSetupEntry device started) else none
  | .entrySetupsForwarded ok =>
    if h.stage = .settingUp then some (h.entrySetupsForwarded ok) else none
  | .unload => if h.stage = .loaded then some { h with stage := .unloading } else none
  | .platformsUnloaded unloaded =>
    if h.stage = .unloading then some (h.platformsUnloaded unloaded) else none

/-- An entry that was never set up. -/
def init (scanInterval : Option ℤ) : Hass where
  world := ⟨0, .running, scanInterval, []⟩
  coords := fun _ => none
  built := 0
  data := none
  onUnload := []
  stage := .notLoaded
  unloaded := []

/-- An event, with what it needs. -/
inductive Stepped (aes : Aes) (h : Hass) : Event → Hass → Prop
  | world {e : World.Event} {w : World} : h.world.step e = some w →
      Stepped aes h (.world e) { h with world := w }
  | coord {k : ℕ} {e : Coordinator.Event} {c c' : Coordinator} : h.coords k = some c →
      c.step aes h.world e = some c' →
      Stepped aes h (.coord k e) { h with coords := Function.update h.coords k (some c') }
  | updateOptions (scanInterval : ℤ) : Stepped aes h (.updateOptions scanInterval)
      { h with world := { h.world with scanIntervalOption := some scanInterval } }
  | setup (device : Option BLEDevice) (started : Bool) : h.stage = .notLoaded →
      Stepped aes h (.setup device started) (h.asyncSetupEntry device started)
  | entrySetupsForwarded (ok : Bool) : h.stage = .settingUp →
      Stepped aes h (.entrySetupsForwarded ok) (h.entrySetupsForwarded ok)
  | unload : h.stage = .loaded → Stepped aes h .unload { h with stage := .unloading }
  | platformsUnloaded (unloaded : Bool) : h.stage = .unloading →
      Stepped aes h (.platformsUnloaded unloaded) (h.platformsUnloaded unloaded)

theorem step_stepped {aes : Aes} {h h' : Hass} {e : Event} (hstep : h.step aes e = some h') :
    Stepped aes h e h' := by
  cases e with
  | world e =>
    obtain ⟨w, hw, rfl⟩ := Option.map_eq_some_iff.mp hstep
    exact .world hw
  | coord k e =>
    obtain ⟨c, hc, hmap⟩ := Option.bind_eq_some_iff.mp hstep
    obtain ⟨c', hc', rfl⟩ := Option.map_eq_some_iff.mp hmap
    exact .coord hc hc'
  | updateOptions scanInterval =>
    cases hstep
    exact .updateOptions scanInterval
  | setup device started =>
    obtain ⟨hstage, heq⟩ := Option.ite_none_right_eq_some.mp hstep
    cases heq
    exact .setup device started hstage
  | entrySetupsForwarded ok =>
    obtain ⟨hstage, heq⟩ := Option.ite_none_right_eq_some.mp hstep
    cases heq
    exact .entrySetupsForwarded ok hstage
  | unload =>
    obtain ⟨hstage, heq⟩ := Option.ite_none_right_eq_some.mp hstep
    cases heq
    exact .unload hstage
  | platformsUnloaded unloaded =>
    obtain ⟨hstage, heq⟩ := Option.ite_none_right_eq_some.mp hstep
    cases heq
    exact .platformsUnloaded unloaded hstage

end Hass

/-! ## A coordinator that polls no more -/

namespace Coordinator

/-- No poll with a device waits for `_poll_lock`. -/
def NoneWaits (c : Coordinator) : Prop :=
  ∀ i ∈ c.pollLock.waiters, (c.tasks i).bind Task.device = none

/-- Nothing starts a poll, and the polls that wait have no device. -/
structure Dead (c : Coordinator) : Prop where
  fallback : c.fallbackLive = false
  subscribed : c.subscribed = false
  waits : c.NoneWaits

section
variable {aes : Aes} {w : World} {c c' : Coordinator}

/-- One task changes and keeps its device; nobody joins the queue. -/
theorem NoneWaits.update (h : c.NoneWaits) {i : ℕ} {t u : Task} (ht : c.tasks i = some t)
    (htasks : c'.tasks = Function.update c.tasks i (some u)) (hdevice : u.device = t.device)
    (hsub : ∀ j ∈ c'.pollLock.waiters, j ∈ c.pollLock.waiters) : c'.NoneWaits := by
  intro j hj
  have hold := h j (hsub j hj)
  rw [htasks]
  by_cases hji : j = i
  · rw [hji, ht] at hold
    rw [hji, Function.update_self, Option.bind_some, hdevice]
    exact hold
  · rw [Function.update_of_ne hji]
    exact hold

/-- What a coordinator that is dead may still do: its last poll ends. -/
structure Fades (c c' : Coordinator) : Prop where
  dead : c'.Dead
  polls : pollsMade c'.log = pollsMade c.log
  holder : c'.pollLock.holder = c.pollLock.holder ∨ c'.pollLock.holder = none

/-- A task leaves, after the lock was handed on or not. -/
theorem Dead.leave (h : c.Dead) (lock : Lock ℕ) {i : ℕ} {t : Task} {call : Option Call}
    {exit : PollExit} (ht : c.tasks i = some t)
    (hsub : ∀ j ∈ lock.waiters, j ∈ c.pollLock.waiters) :
    c.Fades (({ c with pollLock := lock } : Coordinator).leave w i t call exit) := by
  refine ⟨⟨?_, ?_, h.waits.update ht (leave_tasks ..) rfl fun j hj => ?_⟩, leave_pollsMade .., ?_⟩
  · rw [leave_fallbackLive]
    exact h.fallback
  · rw [leave_subscribed]
    exact h.subscribed
  · rw [leave_pollLock] at hj
    exact hsub j hj
  · rw [leave_pollLock]
    exact .inr rfl

theorem Dead.move (h : c.Dead) (hm : Moves aes w c c') : c.Fades c' := by
  cases hm.move with
  | push | add _ => exact ⟨⟨h.fallback, h.subscribed, h.waits⟩, rfl, .inl rfl⟩
  | tick => exact absurd hm.ticks (Nat.succ_ne_self _)
  | arrive _ _ _ => exact absurd hm.nextTask (Nat.succ_ne_self _)
  | @begin i lock t device hgrant ht hdevice =>
    obtain ⟨-, hwaiters, -⟩ := Lock.grant_eq_some.mp hgrant
    have hnone := h.waits i (by rw [hwaiters]; exact List.mem_cons_self)
    rw [ht, Option.bind_some, hdevice] at hnone
    cases hnone
  | @skip i lock t hgrant ht _ =>
    obtain ⟨-, hwaiters, -⟩ := Lock.grant_eq_some.mp hgrant
    exact h.leave lock ht fun j hj => hwaiters ▸ List.mem_cons_of_mem _ hj
  | @resume i t call call' o ht _ _ _ _ =>
    exact ⟨⟨h.fallback, h.subscribed, h.waits.update (u := { t with phase := .reading call' })
      ht rfl rfl fun _ hj => hj⟩, rfl, .inl rfl⟩
  | finish ht _ _ _ _ => exact h.leave c.pollLock ht fun _ hj => hj
  | @notify i n k t call raw ht _ _ _ _ =>
    exact ⟨⟨h.fallback, h.subscribed, h.waits.update
      (u := { t with phase := t.phase.mapCall fun call => call.absorb aes n raw }) ht rfl rfl
      fun _ hj => hj⟩, rfl, .inl rfl⟩

/-- A dead coordinator stays dead and begins no call. -/
theorem Dead.step (h : c.Dead) {e : Event} (hstep : c.step aes w e = some c') : c.Fades c' := by
  cases step_stepped hstep with
  | skipped _ => simp [Coordinator.step, h.fallback] at hstep
  | ticked _ _ => simp [Coordinator.step, h.fallback] at hstep
  | advertised _ => simp [Coordinator.step, h.subscribed] at hstep
  | moved _ _ hm => exact h.move hm

/-- In a dead coordinator only the call in progress is in progress. -/
theorem Fades.reading (h : c.Fades c') (hlock : c.LockInv) (hlock' : c'.LockInv) {i : ℕ}
    (hreading : c'.Reading i) : c.Reading i := by
  have hheld := (hlock'.reading i).mpr hreading
  rcases h.holder with hsame | hnone
  · rw [hsame] at hheld
    exact (hlock.reading i).mp hheld
  · rw [hnone] at hheld
    cases hheld

end

end Coordinator

end GoveeH5086
