import GoveeH5086.Probing

/-!
# Listening for a long time (`scripts/capture.py`)

The script subscribes, writes one packet at once, and the same packet every three seconds until the
given time has passed, the link is lost or a write fails. It keeps every notification.

The property `client.services` is read on entry, which raises what the view calls a fault. The clock
of the loop is `time.time()`, which is assumed not to go back.

1. `body`: the block of the `async with`.
2. `Paced`, `paced`: the writes up to some point of the block.
3. `begun`, `stopped`: how the block begins, and why its loop stops.
4. `keepalive_paced`: the writes of every run of `main`, their number, and its exit code.
-/

namespace GoveeH5086
open BigEndian Runs

namespace Capture

/-- `first`. -/
def first : Bytes := pkt [0xaa, 0xb1] []

/-- The `await` at which the block is suspended. `deadline` is `end`. -/
inductive Point
  | subscribing
  | firstWrite
  | sleeping (deadline : ℚ)
  | keepalive (deadline : ℚ)
  | unsubscribing
deriving DecidableEq, Repr

/-- The head of the `while` loop. -/
def loop (deadline now : ℚ) : Session.Next Point PyException :=
  if now < deadline then .awaits (.sleeping deadline) else .awaits .unsubscribing

/-- The block, from one `await` to the next. -/
def body (seconds : ℤ) : ClientBody Point where
  enter v :=
    match v.fault with
    | some err => .leaves (.raised err)
    | none => .awaits .subscribing
  op
    | .subscribing => .startNotify recvChar
    | .firstWrite | .keepalive _ => .writeGattChar sendChar first false
    | .sleeping _ => .sleep 3
    | .unsubscribing => .stopNotify recvChar
  resume
    | _, _, .cancelled => .leaves .cancelled
    | .subscribing, _, .returns _ => .awaits .firstWrite
    | .firstWrite, v, _ => loop (v.now + seconds) v.now
    | .sleeping deadline, v, .returns _ =>
      if v.linked then .awaits (.keepalive deadline) else .awaits .unsubscribing
    | .keepalive deadline, v, .returns _ => loop deadline v.now
    | .keepalive _, _, .raises _ => .awaits .unsubscribing
    | .unsubscribing, _, _ => .leaves .normally
    | _, _, .raises err => .leaves (.raised err)

/-! ## The writes -/

/-- The link was up when the block woke to write at `t`. -/
def WokeLinked (cs : ClientCalls) (t : ℚ) : Prop :=
  ∃ x ∈ cs, x.op = .sleep 3 ∧ x.linked = true ∧ x.back = t

/-- The loop went round at `t`, before `deadline`, and no write but the first has failed. -/
structure Loops (seconds : ℤ) (cs : ClientCalls) (deadline t : ℚ) : Prop where
  before : t < deadline
  past : ∀ w ∈ writes cs, w.back ≤ t
  returned : ∀ w ∈ (writes cs).tail, w.reply.isReturn = true
  rounds : ∃ k, (writes cs).length = k + 1 ∧ deadline - seconds + 3 * k ≤ t

/-- How many calls there are at most beside two for each write. -/
def slack : Session.Next Point PyException → ℕ
  | .awaits .subscribing | .awaits (.sleeping _) => 0
  | .awaits .firstWrite | .awaits (.keepalive _) | .awaits .unsubscribing => 1
  | .leaves _ => 2

/-- What was written so far, by the end of a piece of the code. -/
structure Paced (seconds : ℤ) (cs : ClientCalls) (n : Session.Next Point PyException) (t : ℚ) :
    Prop where
  packets : ∀ w ∈ writes cs, w.op = .writeGattChar sendChar first false
  spaced : (writes cs).Pairwise fun w w' => w.back + 3 ≤ w'.since
  linked : ∀ w ∈ (writes cs).tail, WokeLinked cs w.since
  returned : ∀ w ∈ (writes cs).tail.dropLast, w.reply.isReturn = true
  count : ∀ k : ℕ, (writes cs).length = k + 2 → 3 * (k : ℤ) < seconds
  calls : cs.length ≤ 2 * (writes cs).length + slack n
  unwritten : n = .awaits .subscribing ∨ n = .awaits .firstWrite → writes cs = []
  sleeping : ∀ d, n = .awaits (.sleeping d) → Loops seconds cs d t
  keepalive : ∀ d, n = .awaits (.keepalive d) →
    ∃ t₀, Loops seconds cs d t₀ ∧ t₀ + 3 ≤ t ∧ WokeLinked cs t

/-- Where the block goes after a write: nowhere, or on to the loop. -/
def AfterWrite (n : Session.Next Point PyException) (d t : ℚ) : Prop :=
  (∃ exit, n = .leaves exit) ∨ n = .awaits .unsubscribing ∨ (n = .awaits (.sleeping d) ∧ t < d)

theorem AfterWrite.unwritten {n : Session.Next Point PyException} {d t : ℚ} (h : AfterWrite n d t) :
    ¬ (n = .awaits .subscribing ∨ n = .awaits .firstWrite) := by
  rintro (hn | hn) <;> rcases h with ⟨exit, h⟩ | h | ⟨h, -⟩ <;> cases hn.symm.trans h

theorem AfterWrite.keepalive {n : Session.Next Point PyException} {d d' t : ℚ}
    (h : AfterWrite n d t) : n ≠ .awaits (.keepalive d') := by
  intro hn
  rcases h with ⟨exit, h⟩ | h | ⟨h, -⟩ <;> cases hn.symm.trans h

theorem AfterWrite.sleeping {n : Session.Next Point PyException} {d d' t : ℚ}
    (h : AfterWrite n d t) (hn : n = .awaits (.sleeping d')) : d' = d ∧ t < d := by
  rcases h with ⟨exit, h⟩ | h | ⟨h, hlt⟩
  · cases hn.symm.trans h
  · cases hn.symm.trans h
  · cases hn.symm.trans h
    exact ⟨rfl, hlt⟩

theorem afterWrite_loop (d t : ℚ) : AfterWrite (loop d t) d t := by
  unfold loop
  split
  · next hbefore => exact .inr (.inr ⟨rfl, hbefore⟩)
  · exact .inr (.inl rfl)

theorem WokeLinked.concat {cs : ClientCalls} {t : ℚ} (h : WokeLinked cs t)
    (x : Session.Call ClientOp Bytes PyException) : WokeLinked (cs ++ [x]) t := by
  obtain ⟨y, hy, hrest⟩ := h
  exact ⟨y, List.mem_append_left _ hy, hrest⟩

namespace Paced

variable {seconds : ℤ} {cs : ClientCalls} {n n' : Session.Next Point PyException} {t t' : ℚ}
  {x : Session.Call ClientOp Bytes PyException}

/-- The block is entered, or its code raises before anything is awaited. -/
theorem enter (v : Session.View PyException) : Paced seconds [] ((body seconds).enter v) v.now := by
  refine ⟨fun w hw => (List.not_mem_nil hw).elim, .nil, fun w hw => (List.not_mem_nil hw).elim,
    fun w hw => (List.not_mem_nil hw).elim, fun k hk => (by cases hk), Nat.zero_le _, fun _ => rfl,
    fun d hd => ?_, fun d hd => ?_⟩
  all_goals
    simp only [body] at hd
    split at hd <;> cases hd

/-- A call that writes nothing comes back, and the block does not go into the loop. -/
theorem pass (h : Paced seconds cs n t) (hx : x.op.packet? = none) (hslack : slack n + 1 ≤ slack n')
    (hwritten : n' = .awaits .subscribing ∨ n' = .awaits .firstWrite → writes cs = [])
    (hsleeping : ∀ d, n' ≠ .awaits (.sleeping d))
    (hkeepalive : ∀ d, n' = .awaits (.keepalive d) →
      ∃ t₀, Loops seconds cs d t₀ ∧ t₀ + 3 ≤ t' ∧ WokeLinked (cs ++ [x]) t') :
    Paced seconds (cs ++ [x]) n' t' := by
  have hwrites : writes (cs ++ [x]) = writes cs := by simp [hx]
  have hloops : ∀ d t₀, Loops seconds cs d t₀ → Loops seconds (cs ++ [x]) d t₀ := by
    rintro d t₀ ⟨hbefore, hpast, hreturned, hrounds⟩
    exact ⟨hbefore, hwrites ▸ hpast, hwrites ▸ hreturned, hwrites ▸ hrounds⟩
  refine ⟨hwrites ▸ h.packets, hwrites ▸ h.spaced, fun w hw => ?_, hwrites ▸ h.returned,
    hwrites ▸ h.count, ?_, hwrites ▸ hwritten, fun d hd => (hsleeping d hd).elim, fun d hd => ?_⟩
  · exact (h.linked w (hwrites ▸ hw)).concat x
  · rw [hwrites, List.length_append, List.length_singleton]
    have hcalls := h.calls
    omega
  · obtain ⟨t₀, hloop, hle, hlinked⟩ := hkeepalive d hd
    exact ⟨t₀, hloops d t₀ hloop, hle, hlinked⟩

/-- The block is left. -/
theorem leave (h : Paced seconds cs n t) (hx : x.op.packet? = none) (hslack : slack n ≤ 1)
    (exit : Session.Exit PyException) : Paced seconds (cs ++ [x]) (.leaves exit) t' :=
  h.pass hx (Nat.succ_le_succ hslack) (fun hn => by rcases hn with hn | hn <;> cases hn)
    (fun _ hn => by cases hn) fun _ hn => by cases hn

/-- The first write comes back. -/
theorem begin (h : Paced seconds cs (.awaits .firstWrite) t)
    (hop : x.op = .writeGattChar sendChar first false) (hback : x.back = t')
    (hn : AfterWrite n (t' + seconds) t') : Paced seconds (cs ++ [x]) n t' := by
  have hpacket : x.op.packet? = some first := by rw [hop]; rfl
  have hwrites : writes (cs ++ [x]) = [x] := by simp [hpacket, h.unwritten (.inr rfl)]
  refine ⟨?_, ?_, ?_, ?_, ?_, ?_, fun hno => (hn.unwritten hno).elim, fun d hd => ?_,
    fun d hd => (hn.keepalive hd).elim⟩
  · rw [hwrites]
    exact List.forall_mem_singleton.mpr hop
  · rw [hwrites]
    exact List.pairwise_singleton ..
  · rw [hwrites]
    exact fun w hw => (List.not_mem_nil hw).elim
  · rw [hwrites]
    exact fun w hw => (List.not_mem_nil hw).elim
  · rw [hwrites]
    exact fun k hk => by cases hk
  · have hcalls := h.calls
    rw [h.unwritten (.inr rfl)] at hcalls
    rw [hwrites, List.length_append]
    exact (Nat.add_le_add_right hcalls 1).trans (Nat.le_add_right 2 _)
  · obtain ⟨rfl, hlt⟩ := hn.sleeping hd
    refine ⟨hlt, ?_, ?_, 0, ?_, ?_⟩
    · rw [hwrites]
      exact List.forall_mem_singleton.mpr hback.le
    · rw [hwrites]
      exact fun w hw => (List.not_mem_nil hw).elim
    · rw [hwrites]
      rfl
    · simp

/-- A write of the loop comes back. -/
theorem again {d : ℚ} (h : Paced seconds cs (.awaits (.keepalive d)) t)
    (hop : x.op = .writeGattChar sendChar first false) (hsince : x.since = t) (hback : x.back = t')
    (hle : t ≤ t') (hn : AfterWrite n d t')
    (hreturned : ∀ d', n = .awaits (.sleeping d') → x.reply.isReturn = true) :
    Paced seconds (cs ++ [x]) n t' := by
  obtain ⟨t₀, ⟨hbefore, hpast, hgood, k, hlength, hrounds⟩, hslept, hwoke⟩ := h.keepalive d rfl
  have hpacket : x.op.packet? = some first := by rw [hop]; rfl
  have hwrites : writes (cs ++ [x]) = writes cs ++ [x] := by simp [hpacket]
  have hnonempty : writes cs ≠ [] := List.ne_nil_of_length_eq_add_one hlength
  have htail : (writes cs ++ [x]).tail = (writes cs).tail ++ [x] :=
    List.tail_append_of_ne_nil hnonempty
  have hcount : (3 * k : ℚ) < seconds := by linarith
  refine ⟨?_, ?_, ?_, ?_, ?_, ?_, fun hno => (hn.unwritten hno).elim, fun d' hd => ?_,
    fun d' hd => (hn.keepalive hd).elim⟩
  · rw [hwrites]
    exact List.forall_mem_append.mpr ⟨h.packets, List.forall_mem_singleton.mpr hop⟩
  · rw [hwrites]
    refine List.pairwise_append.mpr ⟨h.spaced, List.pairwise_singleton .., fun w hw w' hw' => ?_⟩
    rw [List.mem_singleton.mp hw', hsince]
    linarith [hpast w hw]
  · rw [hwrites, htail]
    refine List.forall_mem_append.mpr ⟨fun w hw => (h.linked w hw).concat x, ?_⟩
    exact List.forall_mem_singleton.mpr (hsince ▸ hwoke.concat x)
  · rw [hwrites, htail, List.dropLast_concat]
    exact hgood
  · intro k' hk'
    rw [hwrites, List.length_append, hlength] at hk'
    cases hk'
    exact_mod_cast hcount
  · rw [hwrites, List.length_append, List.length_append]
    have hcalls : cs.length ≤ 2 * (writes cs).length + 1 := h.calls
    have hone : [x].length = 1 := rfl
    omega
  · obtain ⟨rfl, hlt⟩ := hn.sleeping hd
    refine ⟨hlt, ?_, ?_, k + 1, ?_, ?_⟩
    · rw [hwrites]
      refine List.forall_mem_append.mpr ⟨fun w hw => ?_, List.forall_mem_singleton.mpr hback.le⟩
      linarith [hpast w hw]
    · rw [hwrites, htail]
      exact List.forall_mem_append.mpr ⟨hgood, List.forall_mem_singleton.mpr (hreturned d' hd)⟩
    · rw [hwrites, List.length_append, hlength]
      rfl
    · push_cast
      linarith

end Paced

/-- Whatever the operations run into, the block writes as described. -/
theorem paced {seconds : ℤ} {cs : ClientCalls} {n : Session.Next Point PyException} {t : ℚ}
    (h : Session.Trace clientOps (body seconds) cs n t) : Paced seconds cs n t := by
  refine h.invariant (P := Paced seconds) (fun v => .enter v) fun cs p t v r ih hle hallows => ?_
  cases p with
  | subscribing =>
    cases r with
    | returns data =>
      exact ih.pass rfl le_rfl (fun _ => ih.unwritten (.inl rfl)) (fun _ hn => by cases hn)
        fun _ hn => by cases hn
    | raises err => exact ih.leave rfl (Nat.zero_le 1) _
    | cancelled => exact ih.leave rfl (Nat.zero_le 1) _
  | firstWrite =>
    cases r with
    | returns data => exact ih.begin rfl rfl (afterWrite_loop _ _)
    | raises err => exact ih.begin rfl rfl (afterWrite_loop _ _)
    | cancelled => exact ih.begin rfl rfl (.inl ⟨_, rfl⟩)
  | sleeping d =>
    cases r with
    | returns data =>
      show Paced seconds _ (if v.linked then .awaits (.keepalive d) else .awaits .unsubscribing) _
      split
      · next hlinked =>
        refine ih.pass rfl le_rfl (fun hn => by rcases hn with hn | hn <;> cases hn)
          (fun _ hn => by cases hn) fun d' hn => ?_
        cases hn
        exact ⟨t, ih.sleeping d rfl, allows_sleep hallows, _,
          List.mem_append_right _ (List.mem_singleton_self _), rfl, hlinked, rfl⟩
      · exact ih.pass rfl le_rfl (fun hn => by rcases hn with hn | hn <;> cases hn)
          (fun _ hn => by cases hn) fun _ hn => by cases hn
    | raises err => cases hallows
    | cancelled => exact ih.leave rfl (Nat.zero_le 1) _
  | keepalive d =>
    cases r with
    | returns data => exact ih.again rfl rfl rfl hle (afterWrite_loop _ _) fun _ _ => rfl
    | raises err =>
      exact ih.again (d := d) rfl rfl rfl hle (.inr (.inl rfl)) fun _ hn => by cases hn
    | cancelled => exact ih.again (d := d) rfl rfl rfl hle (.inl ⟨_, rfl⟩) fun _ hn => by cases hn
  | unsubscribing =>
    cases r with
    | returns data => exact ih.leave rfl le_rfl _
    | raises err => exact ih.leave rfl le_rfl _
    | cancelled => exact ih.leave rfl le_rfl _

/-! ## The first write and the last -/

/-- The block begins with the subscription, and the first write follows at once when that is there. -/
def Begun : ClientCalls → Session.Next Point PyException → ℚ → Prop
  | [], n, _ => n = .awaits .subscribing ∨ ∃ exit, n = .leaves exit
  | [x], n, t => x.op = .startNotify recvChar ∧
    if x.reply.isReturn then n = .awaits .firstWrite ∧ t = x.back else ∃ exit, n = .leaves exit
  | x :: w :: _, _, _ => x.op = .startNotify recvChar ∧ x.reply.isReturn = true ∧
    w.op = .writeGattChar sendChar first false ∧ w.since = x.back

theorem enter_cases (seconds : ℤ) (v : Session.View PyException) :
    (body seconds).enter v = .awaits .subscribing ∨
      ∃ err, (body seconds).enter v = .leaves (.raised err) := by
  cases hfault : v.fault with
  | none => exact .inl (by simp [body, hfault])
  | some err => exact .inr ⟨err, by simp [body, hfault]⟩

theorem begun {seconds : ℤ} {cs : ClientCalls} {n : Session.Next Point PyException} {t : ℚ}
    (h : Session.Trace clientOps (body seconds) cs n t) : Begun cs n t := by
  refine h.invariant (P := Begun) (fun v => ?_) fun cs p t v r ih _ _ => ?_
  · exact (enter_cases seconds v).imp_right fun ⟨_, hraised⟩ => ⟨_, hraised⟩
  · match cs, ih with
    | [], ih =>
      obtain rfl : p = .subscribing := by simpa [Begun] using ih
      cases r with
      | returns data => exact ⟨rfl, rfl, rfl⟩
      | raises err => exact ⟨rfl, _, rfl⟩
      | cancelled => exact ⟨rfl, _, rfl⟩
    | [x], ⟨hop, hx⟩ =>
      split at hx
      · next hreturn =>
        obtain ⟨hp, rfl⟩ := hx
        cases hp
        exact ⟨hop, hreturn, rfl, rfl⟩
      · obtain ⟨exit, hexit⟩ := hx
        cases hexit
    | x :: w :: rest, ih => exact ih

/-- The loop stops after the last of these calls: the link was down when the block woke, or a write
has come back after the time was over, or one that is not the first has failed. -/
def Stops (seconds : ℤ) (cs : ClientCalls) : Prop :=
  ∃ w x, (writes cs).head? = some w ∧ cs.getLast? = some x ∧
    (x.op = .sleep 3 ∧ x.linked = false ∨
      x.op.packet?.isSome = true ∧ w.back + seconds ≤ x.back ∨
      x.op.packet?.isSome = true ∧ x.reply.isReturn = false ∧ 2 ≤ (writes cs).length)

/-- Where the block is, and what the loop has to do with it. -/
def Stopped (seconds : ℤ) (cs : ClientCalls) : Session.Next Point PyException → Prop
  | .awaits .subscribing | .awaits .firstWrite => writes cs = []
  | .awaits (.sleeping d) | .awaits (.keepalive d) =>
    ∃ w, (writes cs).head? = some w ∧ d = w.back + seconds
  | .awaits .unsubscribing => Stops seconds cs
  | .leaves .normally =>
    ∃ calls x, cs = calls ++ [x] ∧ x.op = .stopNotify recvChar ∧ Stops seconds calls
  | .leaves (.raised _) | .leaves .cancelled => True

theorem head_writes_concat {cs : ClientCalls} {w : Session.Call ClientOp Bytes PyException}
    (h : (writes cs).head? = some w) (x : Session.Call ClientOp Bytes PyException) :
    (writes (cs ++ [x])).head? = some w := by
  rw [writes_concat, List.head?_append, h]
  rfl

/-- The head of the loop, after a write. -/
theorem stopped_loop {seconds : ℤ} {cs : ClientCalls}
    {w x : Session.Call ClientOp Bytes PyException} (hfirst : (writes cs).head? = some w)
    (hlast : cs.getLast? = some x) (hx : x.op.packet?.isSome = true) :
    Stopped seconds cs (loop (w.back + seconds) x.back) := by
  unfold loop
  split
  · exact ⟨w, hfirst, rfl⟩
  · next hover => exact ⟨w, x, hfirst, hlast, .inr (.inl ⟨hx, le_of_not_gt hover⟩)⟩

theorem stopped {seconds : ℤ} {cs : ClientCalls} {n : Session.Next Point PyException} {t : ℚ}
    (h : Session.Trace clientOps (body seconds) cs n t) : Stopped seconds cs n := by
  refine h.invariant (P := fun cs n _ => Stopped seconds cs n) (fun v => ?_)
    fun cs p t v r ih _ hallows => ?_
  · rcases enter_cases seconds v with henter | ⟨err, henter⟩ <;> rw [henter]
    · exact rfl
    · trivial
  · cases p with
    | subscribing =>
      have hnone : writes cs = [] := ih
      cases r with
      | returns data => simpa [Stopped, body, ClientOp.packet?] using hnone
      | raises err => trivial
      | cancelled => trivial
    | firstWrite =>
      have hnone : writes cs = [] := ih
      have hfirst : ∀ x : Session.Call ClientOp Bytes PyException,
          x.op = .writeGattChar sendChar first false → (writes (cs ++ [x])).head? = some x :=
        fun x hx => by simp [hx, hnone, ClientOp.packet?]
      cases r with
      | returns data | raises err => exact stopped_loop (hfirst _ rfl) List.getLast?_concat rfl
      | cancelled => trivial
    | sleeping d =>
      obtain ⟨w, hw, hd⟩ : ∃ w, (writes cs).head? = some w ∧ d = w.back + seconds := ih
      cases r with
      | returns data =>
        show Stopped seconds _ (if v.linked then .awaits (.keepalive d) else .awaits .unsubscribing)
        split
        · exact ⟨w, head_writes_concat hw _, hd⟩
        · next hdown =>
          exact ⟨w, _, head_writes_concat hw _, List.getLast?_concat,
            .inl ⟨rfl, Bool.eq_false_iff.mpr hdown⟩⟩
      | raises err => cases hallows
      | cancelled => trivial
    | keepalive d =>
      obtain ⟨w, hw, rfl⟩ : ∃ w, (writes cs).head? = some w ∧ d = w.back + seconds := ih
      cases r with
      | returns data =>
        exact stopped_loop (head_writes_concat hw _) List.getLast?_concat rfl
      | raises err =>
        refine ⟨w, _, head_writes_concat hw _, List.getLast?_concat, .inr (.inr ⟨rfl, rfl, ?_⟩)⟩
        have hpos := List.length_pos_of_mem (List.mem_of_head? hw)
        simp only [body, writes_concat, ClientOp.packet?, Option.isSome_some, if_true,
          List.length_append, List.length_singleton]
        omega
      | cancelled => trivial
    | unsubscribing =>
      have hstops : Stops seconds cs := ih
      cases r with
      | returns data | raises err => exact ⟨cs, _, rfl, rfl, hstops⟩
      | cancelled => trivial

/-! ## Whole runs -/

/-- What is known of the writes of a session. -/
structure Written (seconds : ℤ) (s : ClientSession Point) : Prop where
  packets : ∀ w ∈ writes s.calls, w.op = .writeGattChar sendChar first false
  opening : ∀ x rest, s.calls = x :: rest → x.op = .startNotify recvChar ∧
    (rest = [] → x.reply.isReturn = true → s.stage = .inside .firstWrite x.back) ∧
    ∀ w, rest.head? = some w → x.reply.isReturn = true ∧
      w.op = .writeGattChar sendChar first false ∧ w.since = x.back
  spaced : (writes s.calls).Pairwise fun w w' => w.back + 3 ≤ w'.since
  linked : ∀ w ∈ (writes s.calls).tail, WokeLinked s.calls w.since
  returned : ∀ w ∈ (writes s.calls).tail.dropLast, w.reply.isReturn = true
  stops : s.stage = .ended .normally →
    ∃ calls x, s.calls = calls ++ [x] ∧ x.op = .stopNotify recvChar ∧ Stops seconds calls
  count : ∀ k : ℕ, (writes s.calls).length = k + 2 → 3 * (k : ℤ) < seconds
  calls : s.calls.length ≤ 2 * (writes s.calls).length + 2

theorem Written.of_none {seconds : ℤ} {s : ClientSession Point} (hcalls : s.calls = [])
    (hended : s.stage ≠ .ended .normally) : Written seconds s := by
  constructor
  case opening => exact fun x rest hx => by cases hcalls.symm.trans hx
  case stops => exact fun hnormal => absurd hnormal hended
  all_goals simp [hcalls, writes]

theorem Written.of_trace {seconds : ℤ} {s : ClientSession Point}
    {n : Session.Next Point PyException} {t : ℚ}
    (h : Session.Trace clientOps (body seconds) s.calls n t)
    (hinside : ∀ p, n = .awaits p → s.stage = .inside p t)
    (hended : s.stage = .ended .normally → n = .leaves .normally) : Written seconds s := by
  have hpaced := paced h
  have hslack : slack n ≤ 2 := by
    unfold slack
    split <;> decide
  refine ⟨hpaced.packets, fun x rest hx => ?_, hpaced.spaced, hpaced.linked, hpaced.returned,
    fun hnormal => ?_, hpaced.count, hpaced.calls.trans (Nat.add_le_add_left hslack _)⟩
  · have hbegun := begun h
    rw [hx] at hbegun
    cases rest with
    | nil =>
      obtain ⟨hop, hreply⟩ := hbegun
      refine ⟨hop, fun _ hreturn => ?_, fun w hw => by cases hw⟩
      rw [if_pos hreturn] at hreply
      exact hreply.2 ▸ hinside _ hreply.1
    | cons w rest =>
      obtain ⟨hop, hreturn, hwrite, hsince⟩ := hbegun
      refine ⟨hop, fun hnil => (List.cons_ne_nil _ _ hnil).elim, fun w' hw' => ?_⟩
      cases hw'
      exact ⟨hreturn, hwrite, hsince⟩
  · have hstopped := stopped h
    rw [hended hnormal] at hstopped
    exact hstopped

theorem session_written {seconds : ℤ} {now : ℚ} {s : ClientSession Point}
    (h : Reaches (Session.State.step clientOps (body seconds)) Free (Session.State.start now) s) :
    Written seconds s := by
  cases Session.run_stands h with
  | opening hstage _ _ hcalls => exact .of_none hcalls (by rw [hstage]; nofun)
  | inside hstage _ _ _ htrace =>
    exact .of_trace htrace (fun p hp => by cases hp; exact hstage) (by rw [hstage]; nofun)
  | closing hstage _ _ _ htrace =>
    exact .of_trace htrace (fun p hp => by cases hp) (by rw [hstage]; nofun)
  | unopened hstage hexit _ _ hcalls =>
    refine .of_none hcalls fun hnormal => hexit ?_
    cases hstage.symm.trans hnormal
    rfl
  | ended hstage hleft _ _ _ htrace =>
    refine .of_trace htrace (fun p hp => by cases hp) fun hnormal => ?_
    cases hstage.symm.trans hnormal
    rw [hleft rfl]

/-- The script writes one packet at once and again as long as it listens: at least 3 seconds after
the last time, never after a write of the loop has failed, and only if the link was up when it woke.
It stops only after the given time, without a link, or after such a failure, so that after the first
two writes there are fewer than `seconds / 3` more. All notifications are kept, with the times at
which they came, and the client is closed before the script ends. -/
theorem keepalive_paced {seconds : ℤ} {name : String} {now : ℚ} {es : List Solo.Event}
    {m : Solo Point} (h : run (Solo.step (body seconds) name) (Solo.init now) es = some m) :
    (∀ k, m.code = some k → k ≤ 1) ∧
    (m.code = some 1 → m.session = none ∧ ∀ adv, .hear adv ∈ es → adv.name ≠ name) ∧
    (m.code = some 0 → ∃ device s, m.session = some (device, s) ∧ s.stage = .ended .normally) ∧
    ∀ device s, m.session = some (device, s) →
      (∃ adv, .hear adv ∈ es ∧ adv.name = name ∧ adv.device = device) ∧
      Written seconds s ∧
      s.arrivals = Solo.arrived now es ∧ s.arrivals.Pairwise (fun a a' => a.1 ≤ a'.1) ∧
      (s.hasEnded = true → s.opens = s.closes) ∧
      (s.hasEnded = false → ∃ dt, 0 ≤ dt ∧ ∃ s', run (Session.State.step clientOps (body seconds)) s
        [.advance dt, .reply (.returns []) none] = some s') := by
  have hout := Solo.run_outcome h
  refine ⟨hout.codes, hout.absent, hout.done, fun device s hs => ?_⟩
  obtain ⟨t, hreach⟩ := hout.reached device s hs
  exact ⟨hout.device device s hs, session_written hreach, hout.kept device s hs,
    (Session.run_heard hreach).sorted, (Session.run_stands hreach).balance.2.2,
    Session.goes_on clientOps (body seconds) [] fun op => by cases op <;> rfl⟩

/-- The first write fails, the others do not; four seconds allow for two rounds. -/
def twoRounds : List Solo.Event :=
  [.hear ⟨⟨"A1:B2:C3:D4:E5:F6", none⟩, some "GVH50861234", -60⟩, .scanned] ++
    ([.reply (.returns []) none, .reply (.returns []) none, .reply (.raises .bleakError) none,
      .arrive [0xee], .advance 3, .reply (.returns []) none, .reply (.returns []) none,
      .advance 3, .reply (.returns []) none, .reply (.returns []) none, .reply (.returns []) none,
      .reply (.returns []) none] :
      List (Session.Event Bytes PyException Bytes)).map .session ++ [.returned]

def afterTwoRounds : Solo Point :=
  outcome (Solo.step (body 4) "GVH50861234") (Solo.init 0) twoRounds

theorem keepalive_paced_twoRounds : ∃ m device s,
    run (Solo.step (body 4) "GVH50861234") (Solo.init 0) twoRounds = some m ∧
    m.session = some (device, s) ∧ (writes s.calls).length = 3 ∧ Written 4 s ∧
    s.arrivals = [(0, [0xee])] := by
  have hrun : run (Solo.step (body 4) "GVH50861234") (Solo.init 0) twoRounds =
      some afterTwoRounds := by decide +kernel
  obtain ⟨-, -, hdone, hall⟩ := keepalive_paced hrun
  obtain ⟨device, s, hs, -⟩ := hdone (by decide +kernel)
  obtain ⟨-, hwritten, harrivals, -⟩ := hall device s hs
  have hcount : (afterTwoRounds.session.map fun p => (writes p.2.calls).length) = some 3 := by
    decide +kernel
  rw [hs] at hcount
  exact ⟨_, device, s, hrun, hs, Option.some.inj hcount, hwritten,
    harrivals.trans (by decide +kernel)⟩

end Capture

end GoveeH5086
