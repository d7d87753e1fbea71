import GoveeH5086.Monitor
import GoveeH5086.Library.Runs

/-!
# One monitored plug (`monitor_one` of `scripts/monitor.py`)

A task connects, subscribes, keeps the link alive, and connects again when the link is lost, until
`stop_event` is set. A piece of code between two `await`s is one event; what the peer, the event
loop and other tasks do meanwhile are others: the link drops, a notification arrives, the task is
cancelled, the event is set, time passes.

`async with BleakClient(..)` calls `connect` on entry and `disconnect` on exit. An exception of
`disconnect` takes the place of whatever left the block, a cancellation included.
`asyncio.wait_for(stop_event.wait(), timeout)` returns once the event is set and raises
`TimeoutError` no earlier than its deadline. `cancel` makes the task go on with `CancelledError`,
unless what it awaits swallows it. The lines that are printed are data; their time stamps are left
out.

1. `Stream.resume`, `Stream.step`: the task, from one `await` to the next.
2. `Stream.step_moves`: what one event can do.
3. `Stream.one_client`: every client is closed exactly once, before the next attempt to connect.
4. `Stream.lines_of_notifications`: what is printed of the notifications.
-/

namespace GoveeH5086
namespace Monitor
open BigEndian Runs

/-! ## The task -/

/-- How a block of code is left. -/
inductive Leaving
  | normally
  | raised (err : PyException)
  | cancelled
deriving DecidableEq, Repr

/-- The `await` at which the task is suspended, `created` before its first turn. In `disconnect`
the argument is how the body of the `async with` was left. -/
inductive StreamPoint
  | created
  | connect
  | startNotify
  | keepaliveWait (deadline : ℚ)
  | keepaliveWrite
  | stopNotify
  | disconnect (exit : Leaving)
  | backoffWait (deadline : ℚ)
  | ended (exit : Leaving)
deriving DecidableEq, Repr

/-- What is printed, without the label and the time. -/
inductive Line
  | connecting (address : String)
  | subscribed
  | skip (err : GoveePower.InvalidPacket) (raw : Bytes)
  | reading (reading : PowerReading)
  | connectionError (err : PyException) (delay : ℚ)
deriving DecidableEq, Repr

/-- What the ghost log records. -/
inductive Mark
  | connecting (time : ℚ)
  | opened
  | subscribed (time : ℚ)
  | wrote (time : ℚ) (data : Bytes)
  | closed
  | retrying (time delay : ℚ)
deriving DecidableEq, Repr

/-- A task of `monitor_one`, and what it sees of its surroundings: `client.is_connected`,
`stop_event` and the clock. `listening` says that some `start_notify` was called, so that a callback
may run. `heard` and `log` are ghost. -/
structure Stream where
  device : BLEDevice
  label : String
  point : StreamPoint
  backoff : ℚ
  connected : Bool
  listening : Bool
  cancelRequested : Bool
  stop : Bool
  now : ℚ
  lines : List Line
  heard : List Bytes
  log : List Mark
deriving DecidableEq, Repr

/-- `backoff` at first and after a subscription. -/
def initialBackoff : ℚ := 1

/-- `min(backoff * 2, 30.0)`. -/
def nextBackoff (backoff : ℚ) : ℚ := min (backoff * 2) 30

/-- The time between two writes that keep the link alive. -/
def keepaliveSeconds : ℚ := 3

/-- `keepalive`. -/
def keepalive : Bytes := List.replicate 20 0

namespace Stream

/-- The task is created. -/
def init (device : BLEDevice) (label : String) (now : ℚ) : Stream where
  device := device
  label := label
  point := .created
  backoff := initialBackoff
  connected := false
  listening := false
  cancelRequested := false
  stop := false
  now := now
  lines := []
  heard := []
  log := []

/-- The head of the outer loop. -/
def again (s : Stream) : Stream :=
  if s.stop then { s with point := .ended .normally }
  else { s with
    point := .connect
    lines := s.lines ++ [.connecting s.device.address]
    log := s.log ++ [.connecting s.now] }

def callStopNotify (s : Stream) : Stream := { s with point := .stopNotify }

/-- The head of the inner loop. -/
def keepAlive (s : Stream) : Stream :=
  if s.connected && !s.stop then { s with point := .keepaliveWait (s.now + keepaliveSeconds) }
  else s.callStopNotify

/-- The body of the inner loop after its wait. -/
def afterWait (s : Stream) : Stream :=
  if !s.connected || s.stop then s.callStopNotify
  else { s with point := .keepaliveWrite, log := s.log ++ [.wrote s.now keepalive] }

/-- The body of the `async with` is left: `disconnect` is called. -/
def exitClient (s : Stream) (exit : Leaving) : Stream :=
  { s with point := .disconnect exit, log := s.log ++ [.closed] }

/-- `except Exception as e`. -/
def failed (s : Stream) (err : PyException) : Stream :=
  { s with
    point := .backoffWait (s.now + s.backoff)
    lines := s.lines ++ [.connectionError err s.backoff]
    log := s.log ++ [.retrying s.now s.backoff] }

/-- `start_notify` has returned. -/
def subscribed (s : Stream) : Stream :=
  { s with
    backoff := initialBackoff
    lines := s.lines ++ [.subscribed]
    log := s.log ++ [.subscribed s.now] }

/-- `connect` has returned. -/
def opened (s : Stream) : Stream := { s with connected := true, log := s.log ++ [.opened] }

/-- The link is lost. -/
def dropped (s : Stream) : Stream := { s with connected := false }

/-- The wait before another attempt is over. -/
def backedOff (s : Stream) : Stream := { s with backoff := nextBackoff s.backoff }

def cancelledNow (s : Stream) : Stream := { s with point := .ended .cancelled }

/-- The `try` block is left. -/
def leave (s : Stream) : Leaving → Stream
  | .normally => s.again
  | .raised err => s.failed err
  | .cancelled => s.cancelledNow

/-- `monitor_one`, from one `await` to the next. An outcome that the awaited operation cannot have
gives `none`. -/
def resume (s : Stream) (o : Outcome) : Option Stream :=
  match s.point with
  | .created =>
    match o with
    | .returns => some s.again
    | .raises _ => none
    | .cancelled => some s.cancelledNow
  | .connect =>
    match o with
    | .returns => some { s.opened with point := .startNotify, listening := true }
    | .raises err => some (s.failed err)
    | .cancelled => some s.cancelledNow
  | .startNotify =>
    match o with
    | .returns => some s.subscribed.keepAlive
    | .raises err => some (s.exitClient (.raised err))
    | .cancelled => some (s.exitClient .cancelled)
  | .keepaliveWait deadline =>
    match o with
    | .returns => if s.stop then some s.afterWait else none
    | .raises .timeoutError => if deadline ≤ s.now then some s.afterWait else none
    | .raises _ => none
    | .cancelled => some (s.exitClient .cancelled)
  | .keepaliveWrite =>
    match o with
    | .returns | .raises _ => some s.keepAlive
    | .cancelled => some (s.exitClient .cancelled)
  | .stopNotify =>
    match o with
    | .returns | .raises _ => some (s.exitClient .normally)
    | .cancelled => some (s.exitClient .cancelled)
  | .disconnect exit =>
    match o with
    | .returns => some (s.dropped.leave exit)
    | .raises err => some (s.failed err)
    | .cancelled => some s.cancelledNow
  | .backoffWait deadline =>
    match o with
    | .returns => if s.stop then some s.backedOff.again else none
    | .raises .timeoutError =>
      if deadline ≤ s.now then some s.backedOff.again else none
    | .raises _ => none
    | .cancelled => some s.cancelledNow
  | .ended _ => none

/-- `on_notify`: the line that it prints. -/
def onNotify (aes : Aes) (data : Bytes) : Except GoveePower.DecodeError Line :=
  match GoveePower.decodeNotification aes data with
  | .ok reading => .ok (.reading reading)
  | .error (.invalidPacket err) => .ok (.skip err data)
  | .error err => .error err

inductive Event
  | resume (o : Outcome)
  | servicesRaised (err : PyException)
  | drop
  | notify (raw : Bytes)
  | cancel
  | setStop
  | advance (dt : ℚ)
deriving DecidableEq, Repr

/-- The effect of an event, when it can happen. `servicesRaised` is a `connect` that returns, after
which `client.services` raises. -/
def step (aes : Aes) (s : Stream) : Event → Option Stream
  | .resume o =>
    if o = .cancelled ∧ ¬ s.cancelRequested then none
    else ({ s with cancelRequested := false } : Stream).resume o
  | .servicesRaised err =>
    if s.point = .connect then
      some (({ s with cancelRequested := false } : Stream).opened.exitClient (.raised err))
    else none
  | .drop => if s.connected then some s.dropped else none
  | .notify raw =>
    if s.listening then
      match onNotify aes raw with
      | .ok line => some { s with lines := s.lines ++ [line], heard := s.heard ++ [raw] }
      | .error _ => some { s with heard := s.heard ++ [raw] }
    else none
  | .cancel => some { s with cancelRequested := true }
  | .setStop => some { s with stop := true }
  | .advance dt => if 0 ≤ dt then some { s with now := s.now + dt } else none

/-! ## What one event can do -/

/-- Something happens beside the task. -/
structure Aside (s s' : Stream) : Prop where
  device : s'.device = s.device
  point : s'.point = s.point
  backoff : s'.backoff = s.backoff
  log : s'.log = s.log
  now : s.now ≤ s'.now
  stop : s.stop = true → s'.stop = true

/-- A client was obtained and is not closed yet. -/
def holds : StreamPoint → Bool
  | .startNotify | .keepaliveWait _ | .keepaliveWrite | .stopNotify => true
  | .created | .connect | .disconnect _ | .backoffWait _ | .ended _ => false

/-- One turn of the task, from `s`. -/
inductive Turn (s : Stream) : Stream → Prop
  | again : s.point = .created → Turn s s.again
  | closed {exit : Leaving} : s.point = .disconnect exit → Turn s (s.dropped.leave exit)
  | backedOff {deadline : ℚ} : s.point = .backoffWait deadline → s.stop = true ∨ deadline ≤ s.now →
      Turn s s.backedOff.again
  | opened : s.point = .connect → Turn s { s.opened with point := .startNotify, listening := true }
  | noServices (err : PyException) : s.point = .connect → Turn s (s.opened.exitClient (.raised err))
  | subscribed : s.point = .startNotify → Turn s s.subscribed.keepAlive
  | waited {deadline : ℚ} : s.point = .keepaliveWait deadline → Turn s s.afterWait
  | wrote : s.point = .keepaliveWrite → Turn s s.keepAlive
  | exits (exit : Leaving) : holds s.point = true → Turn s (s.exitClient exit)
  | failed (err : PyException) : s.point = .connect ∨ (∃ exit, s.point = .disconnect exit) →
      Turn s (s.failed err)
  | cancelled : holds s.point = false → (∀ exit, s.point ≠ .ended exit) → Turn s s.cancelledNow

theorem resume_turn {s s' : Stream} {o : Outcome} (h : s.resume o = some s') : Turn s s' := by
  unfold resume at h
  cases hp : s.point with
  | created =>
    rw [hp] at h
    cases o with
    | returns => cases h; exact .again hp
    | raises err => cases h
    | cancelled => cases h; exact .cancelled (by rw [hp]; rfl) (by simp [hp])
  | connect =>
    rw [hp] at h
    cases o with
    | returns => cases h; exact .opened hp
    | raises err => cases h; exact .failed err (.inl hp)
    | cancelled => cases h; exact .cancelled (by rw [hp]; rfl) (by simp [hp])
  | startNotify =>
    have hholds : holds s.point = true := by rw [hp]; rfl
    rw [hp] at h
    cases o with
    | returns => cases h; exact .subscribed hp
    | raises err => cases h; exact .exits _ hholds
    | cancelled => cases h; exact .exits _ hholds
  | keepaliveWait deadline =>
    have hholds : holds s.point = true := by rw [hp]; rfl
    rw [hp] at h
    cases o with
    | returns =>
      obtain ⟨-, heq⟩ := Option.ite_none_right_eq_some.mp h
      cases heq
      exact .waited hp
    | raises err =>
      cases err with
      | timeoutError =>
        obtain ⟨-, heq⟩ := Option.ite_none_right_eq_some.mp h
        cases heq
        exact .waited hp
      | _ => cases h
    | cancelled => cases h; exact .exits _ hholds
  | keepaliveWrite =>
    have hholds : holds s.point = true := by rw [hp]; rfl
    rw [hp] at h
    cases o with
    | returns => cases h; exact .wrote hp
    | raises err => cases h; exact .wrote hp
    | cancelled => cases h; exact .exits _ hholds
  | stopNotify =>
    have hholds : holds s.point = true := by rw [hp]; rfl
    rw [hp] at h
    cases o with
    | returns => cases h; exact .exits _ hholds
    | raises err => cases h; exact .exits _ hholds
    | cancelled => cases h; exact .exits _ hholds
  | disconnect exit =>
    rw [hp] at h
    cases o with
    | returns => cases h; exact .closed hp
    | raises err => cases h; exact .failed err (.inr ⟨exit, hp⟩)
    | cancelled => cases h; exact .cancelled (by rw [hp]; rfl) (by simp [hp])
  | backoffWait deadline =>
    rw [hp] at h
    cases o with
    | returns =>
      obtain ⟨hstop, heq⟩ := Option.ite_none_right_eq_some.mp h
      cases heq
      exact .backedOff hp (.inl hstop)
    | raises err =>
      cases err with
      | timeoutError =>
        obtain ⟨hdeadline, heq⟩ := Option.ite_none_right_eq_some.mp h
        cases heq
        exact .backedOff hp (.inr hdeadline)
      | _ => cases h
    | cancelled => cases h; exact .cancelled (by rw [hp]; rfl) (by simp [hp])
  | ended exit =>
    rw [hp] at h
    cases h

/-- An event that is a turn of the task. -/
def Event.isTurn : Event → Bool
  | .resume _ | .servicesRaised _ => true
  | .drop | .notify _ | .cancel | .setStop | .advance _ => false

variable {aes : Aes} {s s' : Stream}

/-- The callback raises nothing, and prints one line. -/
theorem onNotify_ok (aes : Aes) (data : Bytes) : ∃ line, onNotify aes data = .ok line := by
  unfold onNotify
  cases hdec : GoveePower.decodeNotification aes data with
  | ok reading => exact ⟨_, rfl⟩
  | error err =>
    obtain ⟨e, rfl⟩ := GoveePower.decodeNotification_error hdec
    exact ⟨_, rfl⟩

/-- An event is a turn of the task, or happens beside it. -/
theorem step_moves {e : Event} (h : s.step aes e = some s') :
    (e.isTurn = true ∧ Turn { s with cancelRequested := false } s') ∨
      e.isTurn = false ∧ Aside s s' := by
  cases e with
  | resume o =>
    simp only [step] at h
    split at h
    · cases h
    · exact .inl ⟨rfl, resume_turn h⟩
  | servicesRaised err =>
    obtain ⟨hp, heq⟩ := Option.ite_none_right_eq_some.mp h
    cases heq
    exact .inl ⟨rfl, .noServices err hp⟩
  | drop =>
    obtain ⟨-, heq⟩ := Option.ite_none_right_eq_some.mp h
    cases heq
    exact .inr ⟨rfl, rfl, rfl, rfl, rfl, le_rfl, id⟩
  | notify raw =>
    obtain ⟨line, hline⟩ := onNotify_ok aes raw
    simp only [step, hline] at h
    obtain ⟨-, heq⟩ := Option.ite_none_right_eq_some.mp h
    cases heq
    exact .inr ⟨rfl, rfl, rfl, rfl, rfl, le_rfl, id⟩
  | cancel =>
    cases h
    exact .inr ⟨rfl, rfl, rfl, rfl, rfl, le_rfl, id⟩
  | setStop =>
    cases h
    exact .inr ⟨rfl, rfl, rfl, rfl, rfl, le_rfl, fun _ => rfl⟩
  | advance dt =>
    obtain ⟨hdt, heq⟩ := Option.ite_none_right_eq_some.mp h
    cases heq
    exact .inr ⟨rfl, rfl, rfl, rfl, rfl, le_add_of_nonneg_right hdt, id⟩

/-! ## What a task keeps -/

/-- What the task was made for, and whether it is to stop, are not its own doing. -/
structure Kept (s s' : Stream) : Prop where
  device : s'.device = s.device
  label : s'.label = s.label
  stop : s'.stop = s.stop

theorem Kept.again (s : Stream) : Kept s s.again := by
  unfold Stream.again
  split <;> exact ⟨rfl, rfl, rfl⟩

theorem Kept.leave (s : Stream) (exit : Leaving) : Kept s (s.leave exit) := by
  cases exit with
  | normally => exact .again s
  | raised err => exact ⟨rfl, rfl, rfl⟩
  | cancelled => exact ⟨rfl, rfl, rfl⟩

theorem Kept.keepAlive (s : Stream) : Kept s s.keepAlive := by
  unfold Stream.keepAlive
  split <;> exact ⟨rfl, rfl, rfl⟩

theorem Kept.afterWait (s : Stream) : Kept s s.afterWait := by
  unfold Stream.afterWait
  split <;> exact ⟨rfl, rfl, rfl⟩

theorem Turn.kept (ht : Turn s s') : Kept s s' := by
  cases ht with
  | again _ => exact .again s
  | @closed exit _ =>
    obtain ⟨hdevice, hlabel, hstop⟩ := Kept.leave s.dropped exit
    exact ⟨hdevice, hlabel, hstop⟩
  | backedOff _ _ =>
    obtain ⟨hdevice, hlabel, hstop⟩ := Kept.again s.backedOff
    exact ⟨hdevice, hlabel, hstop⟩
  | subscribed _ =>
    obtain ⟨hdevice, hlabel, hstop⟩ := Kept.keepAlive s.subscribed
    exact ⟨hdevice, hlabel, hstop⟩
  | waited _ => exact .afterWait s
  | wrote _ => exact .keepAlive s
  | opened _ | noServices _ _ | exits _ _ | failed _ _ | cancelled _ _ => exact ⟨rfl, rfl, rfl⟩

/-- An event beside `setStop`. -/
theorem step_kept {e : Event} (he : e ≠ .setStop) (hstep : s.step aes e = some s') :
    Kept s s' := by
  cases e with
  | resume o =>
    simp only [step] at hstep
    split at hstep
    · cases hstep
    · obtain ⟨hdevice, hlabel, hstop⟩ := (resume_turn hstep).kept
      exact ⟨hdevice, hlabel, hstop⟩
  | servicesRaised err =>
    obtain ⟨-, heq⟩ := Option.ite_none_right_eq_some.mp hstep
    cases heq
    exact ⟨rfl, rfl, rfl⟩
  | drop =>
    obtain ⟨-, heq⟩ := Option.ite_none_right_eq_some.mp hstep
    cases heq
    exact ⟨rfl, rfl, rfl⟩
  | notify raw =>
    obtain ⟨line, hline⟩ := onNotify_ok aes raw
    simp only [step, hline] at hstep
    obtain ⟨-, heq⟩ := Option.ite_none_right_eq_some.mp hstep
    cases heq
    exact ⟨rfl, rfl, rfl⟩
  | cancel =>
    cases hstep
    exact ⟨rfl, rfl, rfl⟩
  | setStop => exact absurd rfl he
  | advance dt =>
    obtain ⟨-, heq⟩ := Option.ite_none_right_eq_some.mp hstep
    cases heq
    exact ⟨rfl, rfl, rfl⟩

theorem run_kept (hrun : Reaches (step aes) Free s s') :
    s'.device = s.device ∧ s'.label = s.label := by
  refine hrun.relates (R := fun a b => b.device = a.device ∧ b.label = a.label)
    (fun _ => ⟨rfl, rfl⟩) (fun a b c h h' => ?_) fun a e b _ hstep => ?_
  · exact ⟨h'.1.trans h.1, h'.2.trans h.2⟩
  · by_cases he : e = .setStop
    · subst he
      cases hstep
      exact ⟨rfl, rfl⟩
    · obtain ⟨hdevice, hlabel, -⟩ := step_kept he hstep
      exact ⟨hdevice, hlabel⟩

/-- A plug that is not reached at once, reports, and is watched until the event is set. -/
def slowPlug : List Event :=
  [.resume .returns, .resume (.raises .timeoutError), .advance 1, .resume (.raises .timeoutError),
    .resume .returns, .resume .returns, .notify capturedPacket, .notify [0], .advance 3,
    .resume (.raises .timeoutError), .resume .returns, .setStop, .resume .returns,
    .resume .returns, .resume .returns]

/-- The task that `slowPlug` happens to. -/
def watched : Stream := init ⟨"AA:BB:CC:DD:EE:FF", some "GVH5086EEFF"⟩ "GVH5086EEFF" 0

/-- What `slowPlug` leads to. -/
def watchedTo (n : ℕ) : Stream :=
  outcome (guarded (step capturedAes) fun _ _ => true) watched (slowPlug.take n)

theorem reaches_watchedTo {n : ℕ}
    (h : (run (guarded (step capturedAes) fun _ _ => true) watched
      (slowPlug.take n)).isSome = true) :
    Reaches (step capturedAes) Free watched (watchedTo n) :=
  reaches_outcome h fun _ _ _ => trivial

/-! ## One client at a time -/

/-- How many clients were obtained, and how many were closed. -/
def opens (log : List Mark) : ℕ := log.count .opened
def closes (log : List Mark) : ℕ := log.count .closed

/-- Clients are obtained and closed in turn, and an attempt to connect comes while none is held. -/
structure Clients (log : List Mark) (holding : Bool) : Prop where
  held : opens log = closes log + holding.toNat
  balance : ∀ l, l <+: log → closes l ≤ opens l ∧ opens l ≤ closes l + 1
  apart : ∀ before time, before ++ [.connecting time] <+: log → opens before = closes before

namespace Clients

variable {log : List Mark} {holding : Bool}

theorem nil : Clients [] false := by
  refine ⟨rfl, fun l hl => ?_, fun before time hpre => ?_⟩
  · rw [List.prefix_nil.mp hl]
    exact ⟨le_rfl, Nat.le_succ _⟩
  · simpa using List.prefix_nil.mp hpre

/-- A mark is added. -/
theorem concat (h : Clients log holding) {mark : Mark} {holding' : Bool}
    (hheld : opens (log ++ [mark]) = closes (log ++ [mark]) + holding'.toNat)
    (hapart : ∀ time, mark = .connecting time → holding = false) :
    Clients (log ++ [mark]) holding' := by
  refine ⟨hheld, fun l hl => ?_, fun before time hpre => ?_⟩
  · rcases List.prefix_concat_iff.mp hl with rfl | hold
    · have hle := Bool.toNat_le holding'
      omega
    · exact h.balance l hold
  · rcases List.prefix_concat_iff.mp hpre with heq | hold
    · obtain ⟨rfl, hlast⟩ := List.append_inj' heq rfl
      have hfree := hapart time (List.singleton_inj.mp hlast).symm
      rw [h.held, hfree]
      rfl
    · exact h.apart before time hold

theorem opened (h : Clients log false) : Clients (log ++ [.opened]) true := by
  have hheld := h.held
  refine h.concat ?_ nofun
  simp only [opens, closes, List.count_append] at hheld ⊢
  rw [hheld]
  rfl

theorem closed (h : Clients log true) : Clients (log ++ [.closed]) false := by
  have hheld := h.held
  refine h.concat ?_ nofun
  simp only [opens, closes, List.count_append] at hheld ⊢
  rw [hheld]
  rfl

/-- Any other mark. -/
theorem other (h : Clients log holding) {mark : Mark} (hopened : mark ≠ .opened)
    (hclosed : mark ≠ .closed) (hapart : ∀ time, mark = .connecting time → holding = false) :
    Clients (log ++ [mark]) holding := by
  refine h.concat ?_ hapart
  have hheld := h.held
  simp only [opens, closes, List.count_append, List.count_singleton, beq_iff_eq, hopened, hclosed,
    if_false, Nat.add_zero] at hheld ⊢
  exact hheld

end Clients

section
variable {s s' : Stream}

theorem again_clients (h : Clients s.log false) : Clients s.again.log (holds s.again.point) := by
  unfold again
  split
  · exact h
  · exact h.other nofun nofun fun _ _ => rfl

theorem failed_clients (h : Clients s.log false) (err : PyException) :
    Clients (s.failed err).log (holds (s.failed err).point) :=
  h.other nofun nofun nofun

theorem leave_clients (h : Clients s.log false) (exit : Leaving) :
    Clients (s.leave exit).log (holds (s.leave exit).point) := by
  cases exit with
  | normally => exact again_clients h
  | raised err => exact failed_clients h err
  | cancelled => exact h

theorem keepAlive_clients (h : Clients s.log true) :
    Clients s.keepAlive.log (holds s.keepAlive.point) := by
  unfold keepAlive
  split
  · exact h
  · exact h

theorem afterWait_clients (h : Clients s.log true) :
    Clients s.afterWait.log (holds s.afterWait.point) := by
  unfold afterWait
  split
  · exact h
  · exact h.other nofun nofun nofun

theorem Turn.clients (ht : Turn s s') (h : Clients s.log (holds s.point)) :
    Clients s'.log (holds s'.point) := by
  cases ht with
  | again hp =>
    rw [hp] at h
    exact again_clients h
  | @closed exit hp =>
    rw [hp] at h
    exact leave_clients (s := s.dropped) h exit
  | backedOff hp _ =>
    rw [hp] at h
    exact again_clients (s := s.backedOff) h
  | opened hp =>
    rw [hp] at h
    exact h.opened
  | noServices err hp =>
    rw [hp] at h
    exact h.opened.closed
  | subscribed hp =>
    rw [hp] at h
    exact keepAlive_clients (s := s.subscribed) (h.other nofun nofun nofun)
  | waited hp =>
    rw [hp] at h
    exact afterWait_clients h
  | wrote hp =>
    rw [hp] at h
    exact keepAlive_clients h
  | exits exit hholds =>
    rw [hholds] at h
    exact h.closed
  | failed err hp =>
    have hfree : holds s.point = false := by
      rcases hp with hp | ⟨exit, hp⟩ <;> rw [hp] <;> rfl
    rw [hfree] at h
    exact failed_clients h err
  | cancelled hfree _ =>
    rw [hfree] at h
    exact h

theorem step_clients {aes : Aes} {e : Event} (h : Clients s.log (holds s.point))
    (hstep : s.step aes e = some s') : Clients s'.log (holds s'.point) := by
  rcases step_moves hstep with ⟨-, hturn⟩ | ⟨-, haside⟩
  · exact hturn.clients h
  · rw [haside.log, haside.point]
    exact h

theorem run_clients {aes : Aes} {device : BLEDevice} {label : String} {now : ℚ}
    (hrun : Reaches (step aes) Free (init device label now) s) :
    Clients s.log (holds s.point) :=
  hrun.invariant (P := fun s => Clients s.log (holds s.point)) .nil
    fun _ _ _ ha _ hstep => step_clients ha hstep

/-- Clients are closed exactly once, and before the next attempt to connect: in every run, whatever
raises and wherever the task is cancelled. When the task has ended none is held. -/
theorem one_client {aes : Aes} {device : BLEDevice} {label : String} {now : ℚ}
    (hrun : Reaches (step aes) Free (init device label now) s) :
    (∀ l, l <+: s.log → closes l ≤ opens l ∧ opens l ≤ closes l + 1) ∧
    (∀ before time, before ++ [.connecting time] <+: s.log → opens before = closes before) ∧
    ∀ exit, s.point = .ended exit → opens s.log = closes s.log := by
  have hclients := run_clients hrun
  refine ⟨hclients.balance, hclients.apart, fun exit hended => ?_⟩
  have hheld := hclients.held
  rw [hended] at hheld
  exact hheld

theorem one_client_slowPlug : opens (watchedTo 15).log = closes (watchedTo 15).log :=
  (one_client (reaches_watchedTo (by decide +kernel))).2.2 .normally (by decide +kernel)

end

end Stream

/-! ## What is printed of the notifications -/

/-- The lines that the callback prints. -/
def Line.ofNotification : Line → Bool
  | .reading _ | .skip _ _ => true
  | .connecting _ | .subscribed | .connectionError _ _ => false

/-- The reading of a line. -/
def Line.reading? : Line → Option PowerReading
  | .reading r => some r
  | .connecting _ | .subscribed | .skip _ _ | .connectionError _ _ => none

namespace Stream

/-- One line for each notification that was heard, in order. -/
def Printed (aes : Aes) (s : Stream) : Prop :=
  s.heard.map (onNotify aes) = (s.lines.filter Line.ofNotification).map .ok

/-- Nothing is heard, and nothing is printed of a notification. -/
structure Quiet (s s' : Stream) : Prop where
  heard : s'.heard = s.heard
  lines : s'.lines.filter Line.ofNotification = s.lines.filter Line.ofNotification

section
variable {aes : Aes} {s s' : Stream}

theorem Quiet.again (s : Stream) : Quiet s s.again := by
  unfold Stream.again
  split
  · exact ⟨rfl, rfl⟩
  · exact ⟨rfl, by simp [List.filter_append, Line.ofNotification]⟩

theorem Quiet.failed (s : Stream) (err : PyException) : Quiet s (s.failed err) :=
  ⟨rfl, by simp [Stream.failed, List.filter_append, Line.ofNotification]⟩

theorem Quiet.leave (s : Stream) (exit : Leaving) : Quiet s (s.leave exit) := by
  cases exit with
  | normally => exact .again s
  | raised err => exact .failed s err
  | cancelled => exact ⟨rfl, rfl⟩

theorem Quiet.keepAlive (s : Stream) : Quiet s s.keepAlive := by
  unfold Stream.keepAlive
  split <;> exact ⟨rfl, rfl⟩

theorem Quiet.afterWait (s : Stream) : Quiet s s.afterWait := by
  unfold Stream.afterWait
  split <;> exact ⟨rfl, rfl⟩

theorem Quiet.subscribed (s : Stream) : Quiet s s.subscribed.keepAlive := by
  obtain ⟨hheard, hlines⟩ := Quiet.keepAlive s.subscribed
  refine ⟨hheard, hlines.trans ?_⟩
  simp [Stream.subscribed, List.filter_append, Line.ofNotification]

theorem Turn.quiet (ht : Turn s s') : Quiet s s' := by
  cases ht with
  | again _ => exact .again s
  | @closed exit _ =>
    obtain ⟨hheard, hlines⟩ := Quiet.leave s.dropped exit
    exact ⟨hheard, hlines⟩
  | backedOff _ _ =>
    obtain ⟨hheard, hlines⟩ := Quiet.again s.backedOff
    exact ⟨hheard, hlines⟩
  | subscribed _ => exact .subscribed s
  | waited _ => exact .afterWait s
  | wrote _ => exact .keepAlive s
  | failed err _ => exact .failed s err
  | opened _ | noServices _ _ | exits _ _ | cancelled _ _ => exact ⟨rfl, rfl⟩

theorem Quiet.printed (hquiet : Quiet s s') (h : Printed aes s) : Printed aes s' := by
  unfold Printed
  rw [hquiet.heard, hquiet.lines]
  exact h

theorem step_printed {e : Event} (h : Printed aes s) (hstep : s.step aes e = some s') :
    Printed aes s' := by
  cases e with
  | resume o =>
    simp only [step] at hstep
    split at hstep
    · cases hstep
    · exact (resume_turn hstep).quiet.printed (s := { s with cancelRequested := false }) h
  | servicesRaised err =>
    obtain ⟨-, heq⟩ := Option.ite_none_right_eq_some.mp hstep
    cases heq
    exact h
  | drop =>
    obtain ⟨-, heq⟩ := Option.ite_none_right_eq_some.mp hstep
    cases heq
    exact h
  | notify raw =>
    obtain ⟨line, hline⟩ := onNotify_ok aes raw
    have hof : line.ofNotification = true := by
      unfold onNotify at hline
      split at hline <;> cases hline <;> rfl
    simp only [step, hline] at hstep
    obtain ⟨-, heq⟩ := Option.ite_none_right_eq_some.mp hstep
    cases heq
    unfold Printed at h ⊢
    simp [h, hline, List.filter_append, hof]
  | cancel | setStop =>
    cases hstep
    exact h
  | advance dt =>
    obtain ⟨-, heq⟩ := Option.ite_none_right_eq_some.mp hstep
    cases heq
    exact h

theorem reading_of_onNotify {raw : Bytes} {line : Line} (h : onNotify aes raw = .ok line) :
    line.reading? = (GoveePower.decodeNotification aes raw).toOption := by
  unfold onNotify at h
  split at h
  · next reading hdec =>
    cases h
    rw [hdec]
    rfl
  · next err hdec =>
    cases h
    rw [hdec]
    rfl
  · cases h

theorem Printed.readings (h : Printed aes s) :
    s.lines.filterMap Line.reading? =
      s.heard.filterMap fun raw => (GoveePower.decodeNotification aes raw).toOption := by
  have hother : ∀ line : Line, line.ofNotification = false → line.reading? = none := by
    intro line hline
    cases line <;> first | rfl | cases hline
  have hlines : s.lines.filterMap Line.reading? =
      (s.lines.filter Line.ofNotification).filterMap Line.reading? := by
    rw [List.filterMap_filter]
    refine List.filterMap_congr fun line _ => ?_
    split
    · rfl
    · next hof => exact hother line (by simpa using hof)
  rw [hlines]
  unfold Printed at h
  generalize s.lines.filter Line.ofNotification = printed at h
  generalize s.heard = heard at h
  induction heard generalizing printed with
  | nil =>
    rw [List.map_nil, eq_comm, List.map_eq_nil_iff] at h
    rw [h]
    rfl
  | cons raw heard ih =>
    cases printed with
    | nil => cases h
    | cons line printed =>
      simp only [List.map_cons, List.cons.injEq] at h
      rw [List.filterMap_cons, List.filterMap_cons, reading_of_onNotify h.1, ih printed h.2]

/-- In every run each notification is printed once, in the order heard, over all connections; and
every packet that the integration would accept is among them, with the same fields. -/
theorem lines_of_notifications {device : BLEDevice} {label : String} {now : ℚ}
    (hrun : Reaches (step aes) Free (init device label now) s) :
    s.heard.map (onNotify aes) = (s.lines.filter Line.ofNotification).map .ok ∧
    (s.heard.filterMap fun raw => (decodeNotification aes raw).toOption).Sublist
      (s.lines.filterMap Line.reading?) := by
  have hprinted : Printed aes s :=
    hrun.invariant (P := Printed aes) rfl fun _ _ _ ha _ hstep => step_printed ha hstep
  refine ⟨hprinted, ?_⟩
  rw [hprinted.readings]
  generalize s.heard = heard
  induction heard with
  | nil => exact .refl []
  | cons raw heard ih =>
    cases hdec : decodeNotification aes raw with
    | error err =>
      rw [List.filterMap_cons_none (by rw [hdec]; rfl)]
      exact ih.trans (List.Sublist.filterMap _ (List.sublist_cons_self raw heard))
    | ok reading =>
      obtain ⟨hlen, hheader, hfields, -⟩ := decodeNotification_ok.mp hdec
      have hclient := GoveePower.decodeNotification_ok.mpr ⟨hlen, hheader, hfields⟩
      rw [List.filterMap_cons_some (by rw [hdec]; rfl),
        List.filterMap_cons_some (by rw [hclient]; rfl)]
      exact ih.cons_cons reading

theorem lines_of_notifications_slowPlug :
    (watchedTo 15).heard.map (onNotify capturedAes) =
      ((watchedTo 15).lines.filter Line.ofNotification).map .ok :=
  (lines_of_notifications (reaches_watchedTo (by decide +kernel))).1

end

end Stream

end Monitor

end GoveeH5086
