import GoveeH5086.Parser

/-!
# One connection to the plug (`_read_one_notification`)

A call runs from one `await` to the next. `Call.resume` is the code between two of them: it takes
the outcome of the awaited operation and runs to the next suspension. `Call.onNotify` is the
callback, which may run at any moment from the call of `start_notify` on, also after the function
has ended.

1. `Call.onNotify_eq`: the callback never raises. It stores the first valid reading and does
   nothing else.
2. `Call.resume_resumed`: what a resumption can change.
3. `Call.resume_sound`, `Call.absorb_sound`: a call that returns a reading returns the decoding of
   a notification that the plug emitted after this call's connection was established.
-/

namespace GoveeH5086
open BigEndian

/-! ## The coroutine -/

/-- The instances of `Exception` that an awaited operation may raise. -/
inductive PyException
  | bleakError
  | timeoutError
  | osError
  | other (name : String)
deriving DecidableEq, Repr

/-- How an `await` ends. `CancelledError` is not an `Exception`. -/
inductive Outcome
  | returns
  | raises (err : PyException)
  | cancelled
deriving DecidableEq, Repr

/-- How a coroutine that returns `PowerReading | None` ends. -/
inductive Completion
  | returned (reading : Option PowerReading)
  | raised (err : PyException)
  | cancelled
deriving DecidableEq, Repr

/-- The future `done`. -/
inductive Future
  | pending
  | result (reading : PowerReading)
  | cancelled
deriving DecidableEq, Repr

/-- `done.cancel()`. -/
def Future.cancel : Future → Future
  | .pending => .cancelled
  | done => done

structure BLEDevice where
  address : String
  name : Option String
deriving DecidableEq, Repr

/-- What the call asks of the Bluetooth stack. -/
inductive ClientCall
  | establishConnection (name : String) (maxAttempts : ℕ)
  | startNotify (uuid : String)
  | writeGattChar (uuid : String) (data : Bytes) (response : Bool)
  | stopNotify (uuid : String)
  | disconnect
deriving DecidableEq, Repr

/-- The `await` at which the call is suspended. In the `finally` block `exit` is how the `try`
block ended. -/
inductive Point
  | establishConnection
  | startNotify
  | writeGattChar
  | waitFor (deadline : ℚ)
  | stopNotify (exit : Completion)
  | disconnect (exit : Completion)
  | ended (exit : Completion)
deriving DecidableEq, Repr

/-- A call. `begun`, `since` and `source` are ghost: when the call was entered, how many
notifications the plug had emitted when the connection was established, and which emission the
result comes from. -/
structure Call where
  point : Point
  done : Future
  calls : List ClientCall
  begun : ℚ
  since : Option ℕ
  source : Option ℕ
deriving DecidableEq, Repr

/-- `ble_device.name or ble_device.address`. -/
def BLEDevice.label (device : BLEDevice) : String :=
  match device.name with
  | none => device.address
  | some name => if name = "" then device.address else name

namespace Call

/-- The call is entered. -/
def start (device : BLEDevice) (now : ℚ) : Call where
  point := .establishConnection
  done := .pending
  calls := [.establishConnection device.label 3]
  begun := now
  since := none
  source := none

/-- The `finally` block is entered. -/
def cleanUp (c : Call) (exit : Completion) : Call :=
  { c with point := .stopNotify exit, calls := c.calls ++ [.stopNotify goveeRecvCharUuid] }

/-- `_read_one_notification`, from one `await` to the next. An outcome that the awaited operation
cannot have gives `none`. -/
def resume (now : ℚ) (emitted : ℕ) (c : Call) (o : Outcome) : Option Call :=
  match c.point with
  | .establishConnection =>
    match o with
    | .returns => some { c with
        point := .startNotify
        calls := c.calls ++ [.startNotify goveeRecvCharUuid]
        since := some emitted }
    | .raises err => some { c with point := .ended (.raised err) }
    | .cancelled => some { c with point := .ended .cancelled }
  | .startNotify =>
    match o with
    | .returns => some { c with
        point := .writeGattChar
        calls := c.calls ++ [.writeGattChar goveeSendCharUuid (List.replicate 20 0) false] }
    | .raises err => some (c.cleanUp (.raised err))
    | .cancelled => some (c.cleanUp .cancelled)
  | .writeGattChar =>
    match o with
    -- `suppress(BleakError)` covers the write only
    | .returns | .raises .bleakError => some { c with point := .waitFor (now + notifyTimeoutS) }
    | .raises err => some (c.cleanUp (.raised err))
    | .cancelled => some (c.cleanUp .cancelled)
  | .waitFor deadline =>
    match o with
    | .returns =>
      match c.done with
      | .result reading => some (c.cleanUp (.returned (some reading)))
      | _ => none
    | .raises .timeoutError =>
      match c.done with
      | .pending =>
        if deadline ≤ now then some ({ c with done := .cancelled }.cleanUp (.returned none))
        else none
      | _ => some (c.cleanUp (.returned none))
    | .raises err => some (c.cleanUp (.raised err))
    | .cancelled => some ({ c with done := c.done.cancel }.cleanUp .cancelled)
  | .stopNotify exit =>
    match o with
    | .returns | .raises _ =>
      some { c with point := .disconnect exit, calls := c.calls ++ [.disconnect] }
    -- the `finally` block ends here, before `disconnect`
    | .cancelled => some { c with point := .ended .cancelled }
  | .disconnect exit =>
    match o with
    | .returns | .raises _ => some { c with point := .ended exit }
    | .cancelled => some { c with point := .ended .cancelled }
  | .ended _ => none

end Call

/-! ## The callback -/

/-- What the callback could raise. -/
inductive NotifyError
  | decode (err : DecodeError)
  | invalidState
deriving DecidableEq, Repr

/-- `done.done()`. -/
def Future.isDone : Future → Bool
  | .pending => false
  | .result _ => true
  | .cancelled => true

/-- `done.set_result`. -/
def Future.setResult : Future → PowerReading → Except NotifyError Future
  | .pending, reading => .ok (.result reading)
  | _, _ => .error .invalidState

/-- `on_notify`, for the `n`-th notification that the plug emitted. -/
def Call.onNotify (aes : Aes) (c : Call) (n : ℕ) (data : Bytes) : Except NotifyError Call :=
  if c.done.isDone then .ok c
  else
    match decodeNotification aes data with
    | .ok reading =>
      match c.done.setResult reading with
      | .ok done => .ok { c with done := done, source := some n }
      | .error err => .error err
    | .error (.invalidPacket _) => .ok c
    | .error err => .error (.decode err)

/-- The call after the callback: the first valid reading is kept. -/
def Call.absorb (aes : Aes) (c : Call) (n : ℕ) (data : Bytes) : Call :=
  match c.done, decodeNotification aes data with
  | .pending, .ok reading => { c with done := .result reading, source := some n }
  | _, _ => c

theorem Call.onNotify_eq (aes : Aes) (c : Call) (n : ℕ) (data : Bytes) :
    c.onNotify aes n data = .ok (c.absorb aes n data) := by
  unfold onNotify absorb
  cases hdone : c.done with
  | pending =>
    cases hdec : decodeNotification aes data with
    | ok reading => simp [Future.isDone, Future.setResult]
    | error err =>
      obtain ⟨e, rfl, -⟩ := decodeNotification_error hdec
      simp [Future.isDone]
  | result reading => simp [Future.isDone]
  | cancelled => simp [Future.isDone]

/-! ## What a resumption can change -/

/-- How the `try` block ended, once it has. -/
def Point.exit : Point → Option Completion
  | .stopNotify exit | .disconnect exit | .ended exit => some exit
  | _ => none

/-- The effect of one resumption on everything but the client calls. -/
structure Call.Resumed (emitted : ℕ) (o : Outcome) (c c' : Call) : Prop where
  begun : c'.begun = c.begun
  source : c'.source = c.source
  since : c'.since = c.since ∨ c.point = .establishConnection ∧ c'.since = some emitted
  done : c'.done = c.done ∨ c.done = .pending ∧ c'.done = .cancelled
  exit : ∀ reading, c'.point.exit = some (.returned (some reading)) →
    c.point.exit = some (.returned (some reading)) ∨ c.done = .result reading
  cancelled : c'.point.exit = some .cancelled → c.point.exit = some .cancelled ∨ o = .cancelled
  connected : c'.point ≠ .establishConnection

theorem Call.resume_resumed {now : ℚ} {emitted : ℕ} {c c' : Call} {o : Outcome}
    (h : c.resume now emitted o = some c') : c.Resumed emitted o c' := by
  unfold resume at h
  cases hp : c.point with
  | establishConnection =>
    rw [hp] at h
    cases o <;> cases h <;> constructor <;> simp [hp, Point.exit]
  | startNotify =>
    rw [hp] at h
    cases o <;> cases h <;> constructor <;> simp [cleanUp, Point.exit]
  | writeGattChar =>
    rw [hp] at h
    cases o with
    | returns => cases h; constructor <;> simp [Point.exit]
    | raises err => cases err <;> cases h <;> constructor <;> simp [cleanUp, Point.exit]
    | cancelled => cases h; constructor <;> simp [cleanUp, Point.exit]
  | waitFor deadline =>
    rw [hp] at h
    cases o with
    | returns =>
      cases hd : c.done <;> simp only [hd] at h <;> cases h
      constructor <;> simp [cleanUp, Point.exit, hd]
    | raises err =>
      cases err with
      | timeoutError =>
        cases hd : c.done with
        | pending =>
          simp only [hd] at h
          obtain ⟨-, heq⟩ := Option.ite_none_right_eq_some.mp h
          cases heq
          constructor <;> simp [cleanUp, Point.exit, hd]
        | result reading => simp only [hd] at h; cases h; constructor <;> simp [cleanUp, Point.exit]
        | cancelled => simp only [hd] at h; cases h; constructor <;> simp [cleanUp, Point.exit]
      | _ => cases h; constructor <;> simp [cleanUp, Point.exit]
    | cancelled =>
      cases h
      constructor
      case done => cases c.done <;> simp [cleanUp, Future.cancel]
      all_goals simp [cleanUp, Point.exit]
  | stopNotify exit =>
    rw [hp] at h
    cases o <;> cases h <;> constructor <;> simp +contextual [hp, Point.exit]
  | disconnect exit =>
    rw [hp] at h
    cases o <;> cases h <;> constructor <;> simp +contextual [hp, Point.exit]
  | ended exit =>
    rw [hp] at h
    cases h

/-! ## Where a result comes from -/

/-- `reading` is the decoding of emission `n`. -/
def Decodes (aes : Aes) (emitted : List Bytes) (n : ℕ) (reading : PowerReading) : Prop :=
  ∃ raw, emitted[n]? = some raw ∧ decodeNotification aes raw = .ok reading

namespace Call

/-- What a call knows about the notifications emitted so far. -/
structure Sound (aes : Aes) (emitted : List Bytes) (c : Call) : Prop where
  since_le : ∀ k, c.since = some k → k ≤ emitted.length
  result : ∀ reading, c.done = .result reading →
    ∃ k n, c.since = some k ∧ c.source = some n ∧ k ≤ n ∧ Decodes aes emitted n reading
  exit : ∀ reading, c.point.exit = some (.returned (some reading)) → c.done = .result reading
  connecting : c.point = .establishConnection → c.since = none

section
variable {aes : Aes} {emitted : List Bytes} {c : Call}

theorem start_sound (aes : Aes) (emitted : List Bytes) (device : BLEDevice) (now : ℚ) :
    (start device now).Sound aes emitted where
  since_le := by simp [start]
  result := by simp [start]
  exit := by simp [start, Point.exit]
  connecting := fun _ => rfl

theorem resume_sound {now : ℚ} {o : Outcome} {c' : Call} (hs : c.Sound aes emitted)
    (h : c.resume now emitted.length o = some c') : c'.Sound aes emitted := by
  have hr := resume_resumed h
  have since_or : ∀ k, c.since = some k → c'.since = some k := by
    intro k hk
    rcases hr.since with hsame | ⟨hpoint, -⟩
    · rw [hsame, hk]
    · rw [hs.connecting hpoint] at hk
      cases hk
  constructor
  · intro k hk
    rcases hr.since with hsame | ⟨-, hnew⟩
    · exact hs.since_le k (hsame ▸ hk)
    · rw [hnew] at hk
      cases hk
      exact Nat.le_refl _
  · intro reading hdone
    rcases hr.done with hsame | ⟨-, hcancel⟩
    · obtain ⟨k, n, hk, hn, hle, hdec⟩ := hs.result reading (hsame ▸ hdone)
      exact ⟨k, n, since_or k hk, hr.source.trans hn, hle, hdec⟩
    · rw [hcancel] at hdone
      cases hdone
  · intro reading hexit
    have hdone : c.done = .result reading := by
      rcases hr.exit reading hexit with hold | hdone
      · exact hs.exit reading hold
      · exact hdone
    rcases hr.done with hsame | ⟨hpending, -⟩
    · rw [hsame, hdone]
    · rw [hpending] at hdone
      cases hdone
  · exact fun hpoint => absurd hpoint hr.connected

/-- The callback fills in the result, and leaves everything else as it is. -/
theorem absorb_cases (aes : Aes) (c : Call) (n : ℕ) (data : Bytes) :
    c.absorb aes n data = c ∨
    ∃ reading, c.done = .pending ∧ decodeNotification aes data = .ok reading ∧
      c.absorb aes n data = { c with done := .result reading, source := some n } := by
  unfold absorb
  cases c.done with
  | pending =>
    cases hdec : decodeNotification aes data with
    | ok reading => exact .inr ⟨reading, rfl, rfl, rfl⟩
    | error err => exact .inl rfl
  | result reading => exact .inl rfl
  | cancelled => exact .inl rfl

theorem absorb_sound {k n : ℕ} {data : Bytes} (hs : c.Sound aes emitted) (hk : c.since = some k)
    (hle : k ≤ n) (hn : emitted[n]? = some data) : (c.absorb aes n data).Sound aes emitted := by
  rcases absorb_cases aes c n data with hsame | ⟨reading, hpending, hdec, hnew⟩
  · rw [hsame]
    exact hs
  · rw [hnew]
    refine ⟨hs.since_le, ?_, ?_, hs.connecting⟩
    · intro reading' hdone
      cases hdone
      exact ⟨k, n, hk, rfl, hle, data, hn, hdec⟩
    · intro reading' hexit
      rw [hs.exit reading' hexit] at hpending
      cases hpending

theorem Sound.emit (hs : c.Sound aes emitted) (raw : Bytes) : c.Sound aes (emitted ++ [raw]) := by
  refine ⟨?_, ?_, hs.exit, hs.connecting⟩
  · intro k hk
    have := hs.since_le k hk
    rw [List.length_append]
    omega
  · intro reading hdone
    obtain ⟨k, n, hk, hn, hle, data, hdata, hdec⟩ := hs.result reading hdone
    have hlt : n < emitted.length := (List.getElem?_eq_some_iff.mp hdata).1
    exact ⟨k, n, hk, hn, hle, data, by rw [List.getElem?_append_left hlt, hdata], hdec⟩

end

end Call

end GoveeH5086
