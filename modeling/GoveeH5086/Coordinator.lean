import Mathlib.Logic.Function.Basic
import GoveeH5086.Library.FifoLock
import GoveeH5086.ReadNotification

/-!
# The coordinator (`coordinator.py`, `sensor.py`)

One `GoveeH5086Coordinator`, its poll tasks and the sensors that listen to it. The event loop runs
one task at a time and switches only at an `await`, so an event is a piece of code between two
`await`s: a poll or a fallback tick up to its first suspension, the wake-up of the head of the
lock's queue, the resumption of a call, the delivery of a notification.

The ghost `log` records the entries into `_read_one_notification` and the ends of `_poll_once`;
`published` lists what was stored in `_last_reading`, with the number of the emission it comes from.
Both are oldest first.

Advertisement polls and ticks may start at any moment, and a notification may reach a callback at
any moment after its connection was established, in any order and more than once. Home Assistant
does not cancel a poll.

1. `Coordinator.secondsSinceLastPoll`, `Coordinator.available`, `Coordinator.render`: what the
   properties of the coordinator and of its sensors compute.
2. `Coordinator.spawn`, `Coordinator.enter`, `Coordinator.leave`: a poll task, from the queue of
   `_poll_lock` to its end.
3. `Coordinator.step`, `Sys.step`: the events of one coordinator, and of one coordinator in its
   surroundings.
-/

namespace GoveeH5086
open BigEndian FifoLock

/-! ## The surroundings -/

/-- `homeassistant.core.CoreState`. -/
inductive CoreState
  | notRunning | starting | running | stopping | finalWrite | stopped
deriving DecidableEq, Repr

/-- What a coordinator reads and does not own: `time.monotonic()`, `hass.state`, the entry's
`scan_interval` option, and (ghost) the notifications the plug has emitted, oldest first. -/
structure World where
  now : ℚ
  state : CoreState
  scanIntervalOption : Option ℤ
  emitted : List Bytes
deriving DecidableEq, Repr

inductive World.Event
  | advance (dt : ℚ)
  | setState (state : CoreState)
  | emit (raw : Bytes)
deriving DecidableEq, Repr

def World.step (w : World) : World.Event → Option World
  | .advance dt => if 0 ≤ dt then some { w with now := w.now + dt } else none
  | .setState state => some { w with state := state }
  | .emit raw => some { w with emitted := w.emitted ++ [raw] }

/-- `scan_interval`. -/
def World.scanInterval (w : World) : ℤ :=
  w.scanIntervalOption.getD defaultScanInterval

/-! ## State -/

/-- Which path started a poll. -/
inductive Source
  | adv
  | timer
deriving DecidableEq, Repr

/-- Where a poll task is: waiting for `_poll_lock`, suspended in `_read_one_notification`, or done
with `_poll_once`. A call that was made outlives its task, because its callback does. -/
inductive Phase
  | queued
  | reading (call : Call)
  | ended (call : Option Call) (result : Completion)
deriving DecidableEq, Repr

/-- The call of a task, running or over. -/
def Phase.call : Phase → Option Call
  | .queued => none
  | .reading call => some call
  | .ended call _ => call

def Phase.mapCall (f : Call → Call) : Phase → Phase
  | .queued => .queued
  | .reading call => .reading (f call)
  | .ended call result => .ended (call.map f) result

/-- A poll task. `started` and `seen` are ghost: when it was started, and how long the log was
then. -/
structure Task where
  source : Source
  device : Option BLEDevice
  started : ℚ
  seen : ℕ
  phase : Phase
deriving DecidableEq, Repr

/-- An end of `_poll_once`. `reading` is what `_read_one_notification` obtained, if anything. -/
structure PollRecord where
  source : Source
  begun : ℚ
  completed : ℚ
  reading : Option PowerReading
deriving DecidableEq, Repr

inductive LogEntry
  | began (task : ℕ) (source : Source) (time : ℚ) (seen : ℕ)
  | completed (record : PollRecord)
deriving DecidableEq, Repr

/-- A sensor's `key` and `value_fn`. -/
structure GoveeSensorDescription where
  key : String
  valueFn : PowerReading → ℚ

/-- The pair that Home Assistant last wrote for an entity: `available` and `native_value`. -/
abbrev Written := Bool × Option ℚ

/-- A sensor that was added, and its state in Home Assistant. -/
structure Entity where
  description : GoveeSensorDescription
  written : Written

/-- `GoveeH5086Coordinator`. `subscribed` and `lastPoll` belong to the parent class: whether it
gets advertisements, and when the last poll that it ran itself ended. `ticks`, `log` and
`published` are ghost; `ticks` counts the calls of `_fallback_tick`. -/
structure Coordinator where
  address : String
  lastReading : Option PowerReading
  lastSuccessfulPoll : Option ℚ
  pollLock : Lock ℕ
  fallbackLive : Bool
  subscribed : Bool
  lastPoll : Option ℚ
  listeners : List Entity
  tasks : ℕ → Option Task
  nextTask : ℕ
  ticks : ℕ
  log : List LogEntry
  published : List (ℕ × PowerReading)

/-! ## Properties of the coordinator and of its sensors -/

section
variable (w : World) (c : Coordinator)

/-- `seconds_since_last_poll`. -/
def Coordinator.secondsSinceLastPoll : Option ℚ :=
  match c.lastSuccessfulPoll with
  | none => none
  | some t => some (w.now - t)

/-- `AVAILABILITY_WINDOW_MULTIPLIER`. -/
def availabilityWindowMultiplier : ℤ := 3

/-- `is_recently_polled`. -/
def Coordinator.isRecentlyPolled : Bool :=
  match c.secondsSinceLastPoll w with
  | none => false
  | some age => decide (age < ((w.scanInterval * availabilityWindowMultiplier : ℤ) : ℚ))

/-- `_govee_needs_poll`. -/
def World.goveeNeedsPoll (secondsSinceLastPoll : Option ℚ) : Bool :=
  if w.state ≠ .running then false
  else
    match secondsSinceLastPoll with
    | none => true
    | some age => decide ((w.scanInterval : ℚ) ≤ age)

/-- `available`. -/
def Coordinator.available : Bool :=
  match c.lastReading with
  | none => false
  | some _ => c.isRecentlyPolled w

/-- `native_value`. -/
def Coordinator.nativeValue (d : GoveeSensorDescription) : Option ℚ :=
  match c.lastReading with
  | none => none
  | some reading => some (d.valueFn reading)

/-- What `async_write_ha_state` writes. -/
def Coordinator.render (d : GoveeSensorDescription) : Written :=
  (c.available w, c.nativeValue d)

/-- `async_update_listeners`: every listener's `_handle_coordinator_update`. -/
def Coordinator.asyncUpdateListeners : Coordinator :=
  { c with listeners := c.listeners.map fun e => { e with written := c.render w e.description } }

/-- `async_added_to_hass`, and the first write by Home Assistant. -/
def Coordinator.addSensor (d : GoveeSensorDescription) : Coordinator :=
  { c with listeners := c.listeners ++ [⟨d, c.render w d⟩] }

end

def voltageSensor : GoveeSensorDescription := ⟨"voltage", fun r => r.voltageV⟩
def currentSensor : GoveeSensorDescription := ⟨"current", fun r => r.currentA⟩
def powerSensor : GoveeSensorDescription := ⟨"power", fun r => r.powerW⟩
def energySensor : GoveeSensorDescription := ⟨"energy", fun r => r.accumWh⟩
def powerFactorSensor : GoveeSensorDescription := ⟨"power_factor", fun r => r.powerFactorPct⟩

/-- `SENSORS`. -/
def sensors : List GoveeSensorDescription :=
  [voltageSensor, currentSensor, powerSensor, energySensor, powerFactorSensor]

/-! ## `_poll_once` -/

/-- How `_poll_once` comes to its end: without a device, or with the end of
`_read_one_notification`. -/
inductive PollExit
  | noDevice
  | read (exit : Completion)
deriving DecidableEq, Repr

/-- The reading that was obtained. -/
def PollExit.obtained : PollExit → Option PowerReading
  | .read (.returned reading) => reading
  | _ => none

namespace Coordinator

def setTask (c : Coordinator) (i : ℕ) (t : Task) : Coordinator :=
  { c with tasks := Function.update c.tasks i (some t) }

/-- `_poll_once` from its last `await` on: the state it leaves and how it ends. -/
def pollOnce (now : ℚ) (c : Coordinator) : PollExit → Coordinator × Completion
  | .noDevice => (c, .returned c.lastReading)
  | .read (.raised _) => (c, .returned c.lastReading)
  | .read .cancelled => (c, .cancelled)
  | .read (.returned none) => (c, .returned c.lastReading)
  | .read (.returned (some reading)) =>
    let c := { c with lastReading := some reading, lastSuccessfulPoll := some now }
    (c, .returned c.lastReading)

/-- What the caller does after `_poll_once`: the parent notes the time of its own poll and updates
the listeners, the tick updates the listeners. A cancelled poll updates nothing. -/
def afterPoll (w : World) (c : Coordinator) (source : Source) (result : Completion) :
    Coordinator :=
  match source, result with
  | .adv, .returned _ => { c with lastPoll := some w.now }.asyncUpdateListeners w
  | .adv, _ => { c with lastPoll := some w.now }
  | .timer, .returned _ => c.asyncUpdateListeners w
  | .timer, _ => c

/-- Task `i` ends its `_poll_once`, leaves `_poll_lock` and returns to its caller, with no `await`
in between. -/
def leave (w : World) (c : Coordinator) (i : ℕ) (t : Task) (call : Option Call) (exit : PollExit) :
    Coordinator :=
  let (c', result) := c.pollOnce w.now exit
  afterPoll w
    { c' with
      tasks := Function.update c'.tasks i (some { t with phase := .ended call result })
      pollLock := c'.pollLock.release
      log := c'.log ++ [.completed
        ⟨t.source, (call.map Call.begun).getD w.now, w.now, exit.obtained⟩]
      published := c'.published ++
        (exit.obtained.map fun reading => ((call.bind Call.source).getD 0, reading)).toList }
    t.source result

/-- Task `i` holds `_poll_lock` and runs `_poll_once` up to its first `await`. -/
def enter (w : World) (c : Coordinator) (i : ℕ) (t : Task) : Coordinator :=
  match t.device with
  | none => c.leave w i t none .noDevice
  | some device =>
    { c.setTask i { t with phase := .reading (Call.start device w.now) } with
      log := c.log ++ [.began i t.source w.now t.seen] }

/-! ## The two triggers -/

/-- A new task arrives at `async with self._poll_lock`. -/
def spawn (w : World) (c : Coordinator) (source : Source) (device : Option BLEDevice) :
    Coordinator :=
  let i := c.nextTask
  let t : Task := ⟨source, device, w.now, c.log.length, .queued⟩
  let (lock, held) := c.pollLock.acquire i
  let c' := { c.setTask i t with nextTask := i + 1, pollLock := lock }
  if held then c'.enter w i t else c'

/-- `_govee_poll`: `service` is `service_info.device`, `manager` the device that
`async_ble_device_from_address` finds. -/
def goveePoll (w : World) (c : Coordinator) (service manager : Option BLEDevice) : Coordinator :=
  c.spawn w .adv (service <|> manager)

/-- `_fallback_tick`. -/
def fallbackTick (w : World) (c : Coordinator) (manager : Option BLEDevice) : Coordinator :=
  if w.state ≠ .running then c
  else
    match c.secondsSinceLastPoll w with
    | none => c.spawn w .timer manager
    | some age => if age < (w.scanInterval : ℚ) then c else c.spawn w .timer manager

/-! ## Events -/

inductive Event
  | goveePoll (service manager : Option BLEDevice)
  | fallbackTick (manager : Option BLEDevice)
  | grant
  | resume (i : ℕ) (o : Outcome)
  | notify (i n : ℕ)
  | updateListeners
  | addSensor (d : GoveeSensorDescription)

/-- The call of task `i` goes on: to its next `await`, or out of `_poll_once`. -/
def proceed (w : World) (c : Coordinator) (i : ℕ) (t : Task) (call : Call) : Coordinator :=
  match call.point with
  | .ended exit => c.leave w i t (some call) (.read exit)
  | _ => c.setTask i { t with phase := .reading call }

/-- The callback of a call runs; an exception in it would not reach the call. -/
def deliver (aes : Aes) (c : Coordinator) (i : ℕ) (t : Task) (n : ℕ) (raw : Bytes) : Coordinator :=
  c.setTask i { t with
    phase := t.phase.mapCall fun call =>
      match call.onNotify aes n raw with
      | .ok call' => call'
      | .error _ => call }

/-- The effect of an event, when it can happen. -/
def step (aes : Aes) (w : World) (c : Coordinator) : Event → Option Coordinator
  | .goveePoll service manager =>
    if c.subscribed then some (c.goveePoll w service manager) else none
  | .fallbackTick manager =>
    if c.fallbackLive then some ({ c with ticks := c.ticks + 1 }.fallbackTick w manager) else none
  | .grant =>
    match c.pollLock.grant with
    | none => none
    | some (i, lock) => (c.tasks i).map fun t => { c with pollLock := lock }.enter w i t
  | .resume i o =>
    match c.tasks i, o with
    | some ⟨source, device, started, seen, .reading call⟩, .returns
    | some ⟨source, device, started, seen, .reading call⟩, .raises _ =>
      (call.resume w.now w.emitted.length o).map fun call' =>
        c.proceed w i ⟨source, device, started, seen, .reading call⟩ call'
    | _, _ => none
  | .notify i n =>
    match c.tasks i, w.emitted[n]? with
    | some t, some raw =>
      match t.phase.call.bind Call.since with
      | some k => if k ≤ n then some (c.deliver aes i t n raw) else none
      | none => none
    | _, _ => none
  | .updateListeners => some (c.asyncUpdateListeners w)
  | .addSensor d => some (c.addSensor w d)

/-- `__init__`. -/
def new (address : String) : Coordinator where
  address := address
  lastReading := none
  lastSuccessfulPoll := none
  pollLock := .unlocked
  fallbackLive := false
  subscribed := false
  lastPoll := none
  listeners := []
  tasks := fun _ => none
  nextTask := 0
  ticks := 0
  log := []
  published := []

/-- `async_init`. -/
def asyncInit (c : Coordinator) : Coordinator := { c with fallbackLive := true }

/-- `async_start` of the parent. -/
def asyncStart (c : Coordinator) : Coordinator := { c with subscribed := true }

end Coordinator

/-! ## One coordinator in its surroundings -/

structure Sys where
  world : World
  coord : Coordinator

namespace Sys

inductive Event
  | world (e : World.Event)
  | coord (e : Coordinator.Event)

def step (aes : Aes) (s : Sys) : Event → Option Sys
  | .world e => (s.world.step e).map fun w => { s with world := w }
  | .coord e => (s.coord.step aes s.world e).map fun c => { s with coord := c }

/-- A coordinator that was just set up. The clock is read from that moment on. -/
def init (address : String) (scanInterval : Option ℤ) : Sys where
  world := ⟨0, .running, scanInterval, []⟩
  coord := (Coordinator.new address).asyncInit.asyncStart

end Sys

end GoveeH5086
