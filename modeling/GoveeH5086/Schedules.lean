import GoveeH5086.ReadNotification
import GoveeH5086.PacketFormat

/-!
# One connection, whatever happens to it

A schedule says for each `await` of `_read_one_notification` which notifications are delivered
during it and how it ends, and which are delivered when the function has ended. The call is run by
passes: the notifications of the current `await`, then the code up to the next one.

1. `Session.deliver_eq`: the callback never raises, and keeps the first reading that decodes.
2. `Schedule.readOneNotification_ended`: the call always ends, with the exit and the client calls of
   a closed form (`Schedule.exit`, `Schedule.released`).
3. `readOneNotification_first`: the result is the first decodable notification before the timeout.
4. `disconnect_once_iff`: the client is disconnected exactly once unless the task is cancelled in
   `stop_notify`.
5. `write_best_effort_iff`: a write that fails goes unnoticed only with `BleakError`.
-/

namespace GoveeH5086
open BigEndian

/-! ## Schedules -/

/-- The operations that the call awaits. -/
inductive Await
  | establishConnection
  | startNotify
  | writeGattChar
  | waitFor
  | stopNotify
  | disconnect
deriving DecidableEq, Repr

/-- The operation that a suspended call awaits. -/
def Point.await : Point → Option Await
  | .establishConnection => some .establishConnection
  | .startNotify => some .startNotify
  | .writeGattChar => some .writeGattChar
  | .waitFor _ => some .waitFor
  | .stopNotify _ => some .stopNotify
  | .disconnect _ => some .disconnect
  | .ended _ => none

/-- What happens to a call. `written` is the time at which the write ends. The outcome `returns` of
`waitFor` says that nothing interferes with `asyncio.wait_for`. -/
structure Schedule where
  device : BLEDevice
  begun : ℚ
  written : ℚ
  outcome : Await → Outcome
  notices : Await → List Bytes
  late : List Bytes

/-- A call, and how many notifications were delivered to it. -/
structure Session where
  call : Call
  heard : ℕ
deriving DecidableEq, Repr

/-- One notification is delivered. -/
def Session.notify (aes : Aes) (x : Session) (raw : Bytes) : Except NotifyError Session := do
  let call ← x.call.onNotify aes x.heard raw
  return ⟨call, x.heard + 1⟩

def Session.deliver (aes : Aes) (x : Session) (raws : List Bytes) : Except NotifyError Session :=
  raws.foldlM (Session.notify aes) x

namespace Schedule

/-- Nothing is heard before `start_notify` is called. -/
def during (s : Schedule) : Await → List Bytes
  | .establishConnection => []
  | a => s.notices a

/-- How an `await` ends. `asyncio.wait_for` returns a result that was set before the timeout fired,
and otherwise cancels the future and raises `TimeoutError`. -/
def ends (s : Schedule) (done : Future) : Await → Outcome
  | .waitFor =>
    match s.outcome .waitFor, done with
    | .returns, .result _ => .returns
    | .returns, _ => .raises .timeoutError
    | o, _ => o
  | a => s.outcome a

/-- When an `await` ends. A timeout fires at the deadline; no other code depends on the time. -/
def time (s : Schedule) : Point → ℚ
  | .waitFor deadline => deadline
  | _ => s.written

/-- From one `await` to the next. A call that cannot go on stays where it is. -/
def pass (aes : Aes) (s : Schedule) (x : Session) : Except NotifyError Session :=
  match x.call.point.await with
  | none => .ok x
  | some a => do
    let x ← x.deliver aes (s.during a)
    let call := x.call.resume (s.time x.call.point) x.heard (s.ends x.call.done a)
    return { x with call := call.getD x.call }

def passes (aes : Aes) (s : Schedule) : ℕ → Session → Except NotifyError Session
  | 0, x => .ok x
  | n + 1, x => do
    let x ← s.pass aes x
    s.passes aes n x

/-- `_read_one_notification`, which has six `await`s, and the notifications after it. -/
def readOneNotification (aes : Aes) (s : Schedule) : Except NotifyError Session := do
  let x ← s.passes aes 6 ⟨.start s.device s.begun, 0⟩
  x.deliver aes s.late

end Schedule

/-! ## The callback -/

/-- The decoding of the first notification that can be decoded. -/
def firstDecoded (aes : Aes) (raws : List Bytes) : Option PowerReading :=
  raws.findSome? fun raw => (decodeNotification aes raw).toOption

/-- The future when a reading, if any, was offered to it. -/
def Future.fill : Future → Option PowerReading → Future
  | .pending, some reading => .result reading
  | done, _ => done

theorem Future.fill_fill (done : Future) (first next : Option PowerReading) :
    (done.fill first).fill next = done.fill (first.or next) := by
  cases done <;> cases first <;> rfl

@[simp] theorem Future.fill_none (done : Future) : done.fill none = done := by
  cases done <;> rfl

theorem firstDecoded_append (aes : Aes) (raws raws' : List Bytes) :
    firstDecoded aes (raws ++ raws') = (firstDecoded aes raws).or (firstDecoded aes raws') :=
  List.findSome?_append

/-- The callback offers the decoding to the future. -/
theorem Call.absorb_eq (aes : Aes) (c : Call) (n : ℕ) (raw : Bytes) :
    (c.absorb aes n raw).point = c.point ∧ (c.absorb aes n raw).calls = c.calls ∧
      (c.absorb aes n raw).done = c.done.fill (decodeNotification aes raw).toOption := by
  unfold absorb
  cases hdone : c.done <;> cases decodeNotification aes raw <;>
    simp [Future.fill, Except.toOption, hdone]

/-- The effect of notifications on a call. -/
structure Session.Delivered (aes : Aes) (x : Session) (raws : List Bytes) (x' : Session) :
    Prop where
  point : x'.call.point = x.call.point
  calls : x'.call.calls = x.call.calls
  done : x'.call.done = x.call.done.fill (firstDecoded aes raws)

/-- Whatever is delivered, the callback never raises. -/
theorem Session.deliver_eq (aes : Aes) (x : Session) (raws : List Bytes) :
    ∃ x', x.deliver aes raws = .ok x' ∧ x.Delivered aes raws x' := by
  induction raws generalizing x with
  | nil => exact ⟨x, rfl, rfl, rfl, by simp [firstDecoded]⟩
  | cons raw raws ih =>
    obtain ⟨hpoint, hcalls, hdone⟩ := Call.absorb_eq aes x.call x.heard raw
    obtain ⟨x', hx', hrest⟩ := ih ⟨x.call.absorb aes x.heard raw, x.heard + 1⟩
    refine ⟨x', ?_, hrest.point.trans hpoint, hrest.calls.trans hcalls, ?_⟩
    · rw [deliver, List.foldlM_cons, notify, Call.onNotify_eq]
      exact hx'
    · have hfirst : firstDecoded aes (raw :: raws) =
          (decodeNotification aes raw).toOption.or (firstDecoded aes raws) := by
        rw [firstDecoded, List.findSome?_cons]
        cases (decodeNotification aes raw).toOption <;> rfl
      rw [hrest.done, hdone, Future.fill_fill, hfirst]

/-! ## The closed form -/

namespace Schedule

/-- The notifications before the timeout fires. -/
def beforeTimeout (s : Schedule) : List Bytes :=
  s.notices .startNotify ++ s.notices .writeGattChar ++ s.notices .waitFor

/-- How the `try` block ends at `asyncio.wait_for`, with `first` in the future when it is over. -/
def waitExit (s : Schedule) (first : Option PowerReading) : Completion :=
  match s.outcome .waitFor with
  | .returns => .returned first
  | .raises .timeoutError => .returned none
  | .raises err => .raised err
  | .cancelled => .cancelled

/-- How it ends from the write on. -/
def writeExit (s : Schedule) (first : Option PowerReading) : Completion :=
  match s.outcome .writeGattChar with
  | .returns | .raises .bleakError => s.waitExit first
  | .raises err => .raised err
  | .cancelled => .cancelled

/-- How it ends. -/
def tryExit (s : Schedule) (first : Option PowerReading) : Completion :=
  match s.outcome .startNotify with
  | .returns => s.writeExit first
  | .raises err => .raised err
  | .cancelled => .cancelled

/-- How the `finally` block ends. -/
def finallyExit (s : Schedule) (exit : Completion) : Completion :=
  if s.outcome .stopNotify = .cancelled ∨ s.outcome .disconnect = .cancelled then .cancelled
  else exit

/-- The write, if it is reached. -/
def nudged (s : Schedule) : List ClientCall :=
  if s.outcome .startNotify = .returns then
    [.writeGattChar goveeSendCharUuid (List.replicate 20 0) false]
  else []

/-- The client calls of the `finally` block. -/
def released (s : Schedule) : List ClientCall :=
  .stopNotify goveeRecvCharUuid ::
    if s.outcome .stopNotify = .cancelled then [] else [.disconnect]

/-! ## One pass -/

/-- From `x` on the call ends with `exit` within `n` passes, and makes the client calls `added`. -/
def Ends (aes : Aes) (s : Schedule) (n : ℕ) (x : Session) (exit : Completion)
    (added : List ClientCall) : Prop :=
  ∃ x', s.passes aes n x = .ok x' ∧ x'.call.point = .ended exit ∧
    x'.call.calls = x.call.calls ++ added

section
variable {aes : Aes} {s : Schedule} {x : Session} {exit : Completion}

theorem pass_ended (h : x.call.point = .ended exit) : s.pass aes x = .ok x := by
  rw [pass, h]
  rfl

/-- A pass delivers the notifications of its `await`, and then resumes the call. -/
theorem pass_resume (aes : Aes) {a : Await} (ha : x.call.point.await = some a) :
    ∃ y, x.Delivered aes (s.during a) y ∧ ∀ call,
      y.call.resume (s.time x.call.point) y.heard (s.ends y.call.done a) = some call →
      s.pass aes x = .ok ⟨call, y.heard⟩ := by
  obtain ⟨y, hy, hdelivered⟩ := Session.deliver_eq aes x (s.during a)
  refine ⟨y, hdelivered, ?_⟩
  intro call hcall
  simp only [pass, ha, hy, bind, Except.bind]
  rw [hdelivered.point, hcall]
  rfl

theorem ends_zero (h : x.call.point = .ended exit) : s.Ends aes 0 x exit [] :=
  ⟨x, rfl, h, (List.append_nil _).symm⟩

/-- One pass, and what follows it. -/
theorem ends_of_resume {a : Await} {n : ℕ} (before : List ClientCall) {added : List ClientCall}
    (ha : x.call.point.await = some a)
    (h : ∀ y, x.Delivered aes (s.during a) y → ∃ call,
      y.call.resume (s.time x.call.point) y.heard (s.ends y.call.done a) = some call ∧
      call.calls = y.call.calls ++ before ∧ s.Ends aes n ⟨call, y.heard⟩ exit added) :
    s.Ends aes (n + 1) x exit (before ++ added) := by
  obtain ⟨y, hy, hpass⟩ := pass_resume aes (s := s) ha
  obtain ⟨call, hcall, hcalls, x', hx', hpoint, hadded⟩ := h y hy
  refine ⟨x', ?_, hpoint, ?_⟩
  · rw [passes, hpass call hcall]
    exact hx'
  · rw [hadded, hcalls, hy.calls, List.append_assoc]

theorem passes_succ (n : ℕ) : s.passes aes (n + 1) x = s.passes aes n x >>= s.pass aes := by
  induction n generalizing x with
  | zero =>
    change (s.pass aes x >>= fun x => .ok x) = s.pass aes x
    cases s.pass aes x <;> rfl
  | succ n ih =>
    rw [passes, passes]
    cases hpass : s.pass aes x with
    | error err => rfl
    | ok x₁ => exact ih

/-- A call that has ended does not change any more. -/
theorem Ends.succ {n : ℕ} {added : List ClientCall} (h : s.Ends aes n x exit added) :
    s.Ends aes (n + 1) x exit added := by
  obtain ⟨x', hx', hpoint, hadded⟩ := h
  refine ⟨x', ?_, hpoint, hadded⟩
  rw [passes_succ, hx']
  exact pass_ended hpoint

/-! ## The `finally` block -/

theorem resume_disconnect {c : Call} (h : c.point = .disconnect exit) (now : ℚ) (n : ℕ)
    (o : Outcome) :
    c.resume now n o =
      some { c with point := .ended (if o = .cancelled then .cancelled else exit) } := by
  unfold Call.resume
  rw [h]
  cases o <;> rfl

theorem resume_stopNotify {c : Call} (h : c.point = .stopNotify exit) (now : ℚ) (n : ℕ)
    (o : Outcome) :
    c.resume now n o = some (if o = .cancelled then { c with point := .ended .cancelled }
      else { c with point := .disconnect exit, calls := c.calls ++ [.disconnect] }) := by
  unfold Call.resume
  rw [h]
  cases o <;> rfl

theorem ends_disconnect (h : x.call.point = .disconnect exit) :
    s.Ends aes 1 x (if s.outcome .disconnect = .cancelled then .cancelled else exit) [] := by
  have ha : x.call.point.await = some .disconnect := by rw [h]; rfl
  refine ends_of_resume [] ha fun y hy => ?_
  exact ⟨_, resume_disconnect (hy.point.trans h) .., (List.append_nil _).symm, ends_zero rfl⟩

theorem ends_stopNotify (h : x.call.point = .stopNotify exit) :
    s.Ends aes 2 x (s.finallyExit exit)
      (if s.outcome .stopNotify = .cancelled then [] else [.disconnect]) := by
  have ha : x.call.point.await = some .stopNotify := by rw [h]; rfl
  -- `suppress` lets `CancelledError` through, and `disconnect` is not reached
  by_cases ho : s.outcome .stopNotify = .cancelled
  · rw [finallyExit, if_pos (.inl ho), if_pos ho]
    refine (ends_of_resume (n := 0) [] ha fun y hy => ?_).succ
    refine ⟨_, resume_stopNotify (hy.point.trans h) _ _ (s.outcome .stopNotify), ?_, ends_zero ?_⟩
    · rw [if_pos ho, List.append_nil]
    · rw [if_pos ho]
  · have hexit : s.finallyExit exit =
        if s.outcome .disconnect = .cancelled then .cancelled else exit := by
      simp [finallyExit, ho]
    rw [if_neg ho, hexit]
    refine ends_of_resume [.disconnect] ha fun y hy => ?_
    refine ⟨_, resume_stopNotify (hy.point.trans h) _ _ (s.outcome .stopNotify), ?_,
      ends_disconnect ?_⟩
    · rw [if_neg ho]
    · rw [if_neg ho]

/-- Where the `try` block ends, the `finally` block follows. -/
theorem ends_of_cleanUp {a : Await} (ha : x.call.point.await = some a)
    (h : ∀ y, x.Delivered aes (s.during a) y → ∃ call : Call, call.calls = y.call.calls ∧
      y.call.resume (s.time x.call.point) y.heard (s.ends y.call.done a) =
        some (call.cleanUp exit)) :
    s.Ends aes 3 x (s.finallyExit exit) s.released := by
  refine ends_of_resume [.stopNotify goveeRecvCharUuid] ha fun y hy => ?_
  obtain ⟨call, hcalls, hresume⟩ := h y hy
  refine ⟨_, hresume, ?_, ends_stopNotify rfl⟩
  rw [Call.cleanUp, hcalls]

/-! ## The `try` block -/

/-- What the wait leads to, with `first` in the future. -/
theorem resume_waitFor {c : Call} {deadline : ℚ} {first : Option PowerReading}
    (hp : c.point = .waitFor deadline) (hd : c.done = Future.pending.fill first) (n : ℕ) :
    ∃ call : Call, call.calls = c.calls ∧
      c.resume deadline n (s.ends c.done .waitFor) = some (call.cleanUp (s.waitExit first)) := by
  unfold ends waitExit
  cases s.outcome .waitFor with
  | returns =>
    cases first with
    | some reading => exact ⟨c, rfl, by simp [Call.resume, hp, hd, Future.fill]⟩
    -- nothing was set: the deadline passes, and `asyncio.wait_for` cancels the future
    | none => exact ⟨{ c with done := .cancelled }, rfl, by simp [Call.resume, hp, hd]⟩
  | raises err =>
    cases err with
    | timeoutError =>
      cases first with
      | some reading => exact ⟨c, rfl, by simp [Call.resume, hp, hd, Future.fill]⟩
      | none => exact ⟨{ c with done := .cancelled }, rfl, by simp [Call.resume, hp, hd]⟩
    | _ => exact ⟨c, rfl, by simp [Call.resume, hp]⟩
  | cancelled => exact ⟨{ c with done := c.done.cancel }, rfl, by simp [Call.resume, hp]⟩

theorem ends_waitFor {deadline : ℚ} {first : Option PowerReading}
    (hp : x.call.point = .waitFor deadline) (hd : x.call.done = Future.pending.fill first) :
    s.Ends aes 3 x
      (s.finallyExit (s.waitExit (first.or (firstDecoded aes (s.notices .waitFor)))))
      s.released := by
  have ha : x.call.point.await = some .waitFor := by rw [hp]; rfl
  refine ends_of_cleanUp ha fun y hy => ?_
  have hdone := hy.done
  rw [hd, Future.fill_fill] at hdone
  rw [hp]
  exact resume_waitFor (hy.point.trans hp) hdone y.heard

theorem ends_writeGattChar {first : Option PowerReading}
    (hp : x.call.point = .writeGattChar) (hd : x.call.done = Future.pending.fill first) :
    s.Ends aes 4 x
      (s.finallyExit (s.writeExit (first.or
        (firstDecoded aes (s.notices .writeGattChar ++ s.notices .waitFor))))) s.released := by
  have ha : x.call.point.await = some .writeGattChar := by rw [hp]; rfl
  have waits : ∀ y, x.Delivered aes (s.during .writeGattChar) y →
      s.Ends aes 3
        ⟨{ y.call with point := .waitFor (s.written + notifyTimeoutS) }, y.heard⟩
        (s.finallyExit (s.waitExit (first.or
          (firstDecoded aes (s.notices .writeGattChar ++ s.notices .waitFor))))) s.released := by
    intro y hy
    have hdone := hy.done
    rw [hd, Future.fill_fill] at hdone
    rw [firstDecoded_append, ← Option.or_assoc]
    exact ends_waitFor rfl hdone
  unfold writeExit
  cases ho : s.outcome .writeGattChar with
  | returns =>
    refine ends_of_resume [] ha fun y hy => ⟨_, ?_, ?_, waits y hy⟩
    · simp [Call.resume, hy.point.trans hp, ends, ho, hp, time]
    · simp
  | raises err =>
    cases err with
    | bleakError =>
      refine ends_of_resume [] ha fun y hy => ⟨_, ?_, ?_, waits y hy⟩
      · simp [Call.resume, hy.point.trans hp, ends, ho, hp, time]
      · simp
    -- the wait is skipped, whatever is in the future
    | _ =>
      refine (ends_of_cleanUp ha fun y hy => ⟨y.call, rfl, ?_⟩).succ
      simp [Call.resume, hy.point.trans hp, ends, ho]
  | cancelled =>
    refine (ends_of_cleanUp ha fun y hy => ⟨y.call, rfl, ?_⟩).succ
    simp [Call.resume, hy.point.trans hp, ends, ho]

theorem ends_startNotify (hp : x.call.point = .startNotify) (hd : x.call.done = .pending) :
    s.Ends aes 5 x (s.finallyExit (s.tryExit (firstDecoded aes s.beforeTimeout)))
      (s.nudged ++ s.released) := by
  have ha : x.call.point.await = some .startNotify := by rw [hp]; rfl
  unfold tryExit nudged
  cases ho : s.outcome .startNotify with
  | returns =>
    refine ends_of_resume _ ha fun y hy => ⟨{ y.call with
      point := .writeGattChar
      calls := y.call.calls ++ [.writeGattChar goveeSendCharUuid (List.replicate 20 0) false] },
      ?_, rfl, ?_⟩
    · simp [Call.resume, hy.point.trans hp, ends, ho]
    · rw [beforeTimeout, List.append_assoc, firstDecoded_append]
      exact ends_writeGattChar rfl (hy.done.trans (by rw [hd]; rfl))
  | raises err =>
    refine ((ends_of_cleanUp ha fun y hy => ⟨y.call, rfl, ?_⟩).succ).succ
    simp [Call.resume, hy.point.trans hp, ends, ho]
  | cancelled =>
    refine ((ends_of_cleanUp ha fun y hy => ⟨y.call, rfl, ?_⟩).succ).succ
    simp [Call.resume, hy.point.trans hp, ends, ho]

/-- A call that gets its connection ends, and this is all it does. -/
theorem readOneNotification_ended (aes : Aes)
    (hconnect : s.outcome .establishConnection = .returns) :
    ∃ x, s.readOneNotification aes = .ok x ∧
      x.call.point = .ended (s.finallyExit (s.tryExit (firstDecoded aes s.beforeTimeout))) ∧
      x.call.calls = .establishConnection s.device.label 3 :: .startNotify goveeRecvCharUuid ::
        (s.nudged ++ s.released) := by
  have hends : s.Ends aes 6 ⟨.start s.device s.begun, 0⟩
      (s.finallyExit (s.tryExit (firstDecoded aes s.beforeTimeout)))
      ([.startNotify goveeRecvCharUuid] ++ (s.nudged ++ s.released)) := by
    refine ends_of_resume (a := .establishConnection) _ rfl fun y hy => ⟨_, ?_, ?_,
      ends_startNotify (x := ⟨{ y.call with
        point := .startNotify
        calls := y.call.calls ++ [.startNotify goveeRecvCharUuid]
        since := some y.heard }, y.heard⟩) rfl hy.done⟩
    · simp [Call.resume, hy.point, ends, hconnect, Call.start]
    · rfl
  obtain ⟨x, hx, hpoint, hcalls⟩ := hends
  obtain ⟨x', hx', hlate⟩ := Session.deliver_eq aes x s.late
  refine ⟨x', ?_, hlate.point.trans hpoint, hlate.calls.trans hcalls⟩
  rw [readOneNotification, hx]
  exact hx'

/-- How the call ends. -/
def result (aes : Aes) (s : Schedule) : Option Completion :=
  match s.readOneNotification aes with
  | .error _ => none
  | .ok x =>
    match x.call.point with
    | .ended exit => some exit
    | _ => none

theorem result_eq (aes : Aes) (hconnect : s.outcome .establishConnection = .returns) :
    s.result aes = some (s.finallyExit (s.tryExit (firstDecoded aes s.beforeTimeout))) := by
  obtain ⟨x, hx, hpoint, -⟩ := readOneNotification_ended aes hconnect
  simp only [result, hx, hpoint]

/-- The schedule with another outcome of the write. -/
def withWrite (s : Schedule) (o : Outcome) : Schedule :=
  { s with outcome := Function.update s.outcome .writeGattChar o }

end

end Schedule

/-! ## The first valid reading -/

section
variable {aes : Aes} {s : Schedule}

/-- Whatever the plug sends and whenever, the call returns the first notification that decodes, of
those delivered before the timeout fires, and the callback never raises. Only a task that is
cancelled in the clean-up ends otherwise. -/
theorem readOneNotification_first (aes : Aes)
    (hconnect : s.outcome .establishConnection = .returns)
    (hstart : s.outcome .startNotify = .returns)
    (hwrite : s.outcome .writeGattChar = .returns ∨
      s.outcome .writeGattChar = .raises .bleakError)
    (hwait : s.outcome .waitFor = .returns) :
    (∃ x, s.readOneNotification aes = .ok x) ∧
      s.result aes = some (s.finallyExit (.returned (firstDecoded aes s.beforeTimeout))) := by
  obtain ⟨x, hx, -⟩ := Schedule.readOneNotification_ended aes hconnect
  have hexit : ∀ first, s.tryExit first = .returned first := by
    intro first
    rcases hwrite with hwrite | hwrite <;>
      simp [Schedule.tryExit, Schedule.writeExit, Schedule.waitExit, hstart, hwrite, hwait]
  refine ⟨⟨x, hx⟩, ?_⟩
  rw [Schedule.result_eq aes hconnect, hexit]

/-- A plug that sends a packet too short, a valid one during the write, and goes on. -/
def chatty : Schedule where
  device := ⟨"A1:B2:C3:D4:E5:F6", none⟩
  begun := 0
  written := 1
  outcome := fun _ => .returns
  notices := fun
    | .startNotify => [[0xee, 0x19]]
    | .writeGattChar => [capturedPacket]
    | _ => [[], capturedPacket]
  late := [capturedPacket]

theorem readOneNotification_first_chatty :
    chatty.result capturedAes = some (.returned (some capturedRecord.reading)) := by
  have hfirst : firstDecoded capturedAes chatty.beforeTimeout = some capturedRecord.reading := by
    decide +kernel
  have hresult := (readOneNotification_first capturedAes (s := chatty) rfl rfl (.inl rfl) rfl).2
  rw [hresult, hfirst]
  rfl

/-! ## The release of the connection -/

/-- A call that got its connection ends, and has called `disconnect` exactly once unless the task
was cancelled in `stop_notify`. -/
theorem disconnect_once_iff (aes : Aes)
    (hconnect : s.outcome .establishConnection = .returns) :
    ∃ x exit, s.readOneNotification aes = .ok x ∧ x.call.point = .ended exit ∧
      (x.call.calls.count .disconnect = 1 ↔ s.outcome .stopNotify ≠ .cancelled) := by
  obtain ⟨x, hx, hpoint, hcalls⟩ := Schedule.readOneNotification_ended aes hconnect
  refine ⟨x, _, hx, hpoint, ?_⟩
  have hnudged : s.nudged.count .disconnect = 0 := by
    unfold Schedule.nudged
    split <;> rfl
  have hreleased : s.released.count .disconnect =
      if s.outcome .stopNotify = .cancelled then 0 else 1 := by
    unfold Schedule.released
    split <;> rfl
  have hcount : x.call.calls.count .disconnect =
      if s.outcome .stopNotify = .cancelled then 0 else 1 := by
    rw [hcalls, List.count_cons_of_ne (by simp), List.count_cons_of_ne (by simp),
      List.count_append, hnudged, hreleased, Nat.zero_add]
  rw [hcount]
  simp

theorem disconnect_once_iff_chatty : ∃ x exit,
    chatty.readOneNotification capturedAes = .ok x ∧ x.call.point = .ended exit ∧
      x.call.calls.count .disconnect = 1 := by
  obtain ⟨x, exit, hx, hpoint, hcount⟩ := disconnect_once_iff capturedAes (s := chatty) rfl
  exact ⟨x, exit, hx, hpoint, hcount.mpr (by decide)⟩

/-- The task is cancelled while `stop_notify` is awaited. -/
def cancelledInStop : Schedule :=
  { chatty with outcome := fun a => if a = .stopNotify then .cancelled else .returns }

/-- The function is left without a call of `disconnect`. -/
theorem disconnect_skipped :
    cancelledInStop.outcome .establishConnection = .returns ∧
    cancelledInStop.result capturedAes = some .cancelled ∧
    (cancelledInStop.readOneNotification capturedAes).toOption.map
      (fun x => x.call.calls.count .disconnect) = some 0 := by
  decide +kernel

/-! ## The write -/

theorem Schedule.waitExit_eq_raised {first : Option PowerReading} {err : PyException} :
    s.waitExit first = .raised err ↔
      err ≠ .timeoutError ∧ s.outcome .waitFor = .raises err := by
  unfold waitExit
  cases s.outcome .waitFor with
  | returns => simp
  | raises err' => cases err' <;> cases err <;> simp
  | cancelled => simp

/-- The run in which the write succeeds ends as the wait does. -/
theorem Schedule.withWrite_returns_result (aes : Aes)
    (hconnect : s.outcome .establishConnection = .returns)
    (hstart : s.outcome .startNotify = .returns) :
    (s.withWrite .returns).result aes =
      some (s.finallyExit (s.waitExit (firstDecoded aes s.beforeTimeout))) := by
  have htry : ∀ first, (s.withWrite .returns).tryExit first = s.waitExit first := by
    intro first
    have hstart' : (s.withWrite .returns).outcome .startNotify = .returns := hstart
    rw [tryExit, hstart']
    rfl
  have hconnect' : (s.withWrite .returns).outcome .establishConnection = .returns := hconnect
  rw [result_eq aes hconnect', htry]
  rfl

/-- A write that raises goes unnoticed exactly if it raises `BleakError`, or if the call ends in the
same way for another reason: the task is cancelled in the clean-up, or the wait raises the same. -/
theorem write_best_effort_iff (aes : Aes) {err : PyException}
    (hconnect : s.outcome .establishConnection = .returns)
    (hstart : s.outcome .startNotify = .returns)
    (hwrite : s.outcome .writeGattChar = .raises err) :
    s.result aes = (s.withWrite .returns).result aes ↔
      err = .bleakError ∨ s.outcome .stopNotify = .cancelled ∨ s.outcome .disconnect = .cancelled ∨
      (err ≠ .timeoutError ∧ s.outcome .waitFor = .raises err) := by
  rw [Schedule.result_eq aes hconnect, Schedule.withWrite_returns_result aes hconnect hstart,
    Option.some_inj]
  generalize firstDecoded aes s.beforeTimeout = first
  by_cases hbleak : err = .bleakError
  · subst hbleak
    simp [Schedule.tryExit, Schedule.writeExit, hstart, hwrite]
  · have htry : s.tryExit first = .raised err := by
      cases err with
      | bleakError => exact absurd rfl hbleak
      | _ => simp [Schedule.tryExit, Schedule.writeExit, hstart, hwrite]
    by_cases hclean : s.outcome .stopNotify = .cancelled ∨ s.outcome .disconnect = .cancelled
    · rw [Schedule.finallyExit, Schedule.finallyExit, if_pos hclean, if_pos hclean]
      exact iff_of_true rfl (.inr (or_assoc.mp (.inl hclean)))
    · rw [Schedule.finallyExit, Schedule.finallyExit, if_neg hclean, if_neg hclean, htry,
        eq_comm, Schedule.waitExit_eq_raised]
      constructor
      · exact fun hwait => .inr (.inr (.inr hwait))
      · rintro (h | h | h | h)
        · exact absurd h hbleak
        · exact absurd (.inl h) hclean
        · exact absurd (.inr h) hclean
        · exact h

theorem write_best_effort_iff_bleakError :
    (chatty.withWrite (.raises .bleakError)).result capturedAes =
      ((chatty.withWrite (.raises .bleakError)).withWrite .returns).result capturedAes :=
  (write_best_effort_iff capturedAes rfl rfl rfl).mpr (.inl rfl)

/-- A transport error in the write loses the valid notification that came before it. -/
theorem reading_lost_by_write :
    let s := chatty.withWrite (.raises .osError)
    s.outcome .establishConnection = .returns ∧ s.outcome .startNotify = .returns ∧
    s.result capturedAes = some (.raised .osError) ∧
    (s.withWrite .returns).result capturedAes =
      some (.returned (some capturedRecord.reading)) := by
  decide +kernel

end

end GoveeH5086
