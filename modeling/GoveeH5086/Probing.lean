import Mathlib.Data.List.Chain
import GoveeH5086.Commands
import GoveeH5086.Monitor
import GoveeH5086.Library.SortBy
import GoveeH5086.Library.Visits

/-!
# Sending commands (`scripts/probe_power.py`, `scripts/listen.py`)

Both scripts connect, subscribe, write a list of commands with a pause after each, and unsubscribe.
They differ in what a write that fails costs: `probe_power.py` goes on at once, `listen.py` pauses
all the same. `probe_power.py` does this with one plug after another, the strongest first, and an
exception ends the turn of one plug only.

What is printed is left out, and so are the names of the commands, which are only printed. There is
one clock, which is assumed not to go back: `listen.py` reads it as `time.time()`.

1. `CommandScript.body`: the block of the `async with`.
2. `CommandScript.sent`: which commands are written, in which order and at which distance.
3. `ProbePower.plugs_probed`: the turns of the plugs, over whole runs of `main`.
4. `Solo.run_outcome`: what a script with one plug has heard and kept, and its exit code.
5. `Listen.commands_spaced`: the writes of `listen.py`, over whole runs of `main`.
-/

namespace GoveeH5086
open BigEndian Runs

/-! ## The client -/

/-- `SEND_CHAR` and `RECV_CHAR` of the scripts. -/
def sendChar : String := "00010203-0405-0607-0809-0a0b0c0d2b11"
def recvChar : String := "00010203-0405-0607-0809-0a0b0c0d2b10"

/-- What the scripts await inside the block. -/
inductive ClientOp
  | startNotify (uuid : String)
  | stopNotify (uuid : String)
  | writeGattChar (uuid : String) (data : Bytes) (response : Bool)
  | readGattChar (uuid : String)
  | sleep (seconds : ℚ)
deriving DecidableEq, Repr

/-- `asyncio.sleep` takes its time and raises nothing but `CancelledError`. -/
def clientOps : Session.Ops ClientOp Bytes PyException where
  lasts
    | .sleep seconds => seconds
    | _ => 0
  admits
    | .sleep _, .raises _ => false
    | _, _ => true
  listens
    | .startNotify _ => true
    | _ => false

theorem allows_sleep {seconds since now : ℚ} {data : Bytes}
    (h : clientOps.allows (.sleep seconds) since now (.returns data) = true) :
    since + seconds ≤ now := by
  have hdue : decide (since + seconds ≤ now) = true := h
  exact of_decide_eq_true hdue

/-- A session with points `π`, and the notifications that its callback has kept, with their times.
The scripts subtract the time of the start from all of these. -/
abbrev ClientSession (π : Type) := Session.State π ClientOp Bytes PyException Bytes

abbrev ClientBody (π : Type) := Session.Body π ClientOp Bytes PyException

abbrev ClientCalls := List (Session.Call ClientOp Bytes PyException)

def ClientOp.packet? : ClientOp → Option Bytes
  | .writeGattChar _ data _ => some data
  | .startNotify _ | .stopNotify _ | .readGattChar _ | .sleep _ => none

/-- The writes among some calls. -/
def writes (cs : ClientCalls) : ClientCalls := cs.filter fun c => c.op.packet?.isSome

/-- What was written. -/
def packets (cs : ClientCalls) : List Bytes := cs.filterMap fun c => c.op.packet?

@[simp] theorem packets_concat (cs : ClientCalls) (c : Session.Call ClientOp Bytes PyException) :
    packets (cs ++ [c]) = packets cs ++ c.op.packet?.toList := by
  cases h : c.op.packet? <;> simp [packets, List.filterMap_append, h]

@[simp] theorem writes_concat (cs : ClientCalls) (c : Session.Call ClientOp Bytes PyException) :
    writes (cs ++ [c]) = writes cs ++ if c.op.packet?.isSome then [c] else [] := by
  simp [writes, List.filter_append, List.filter_cons]

/-! ## The block of both scripts -/

/-- What the scripts differ in: the time before the first command, the commands, the time after
each, and whether a write that failed goes without. -/
structure CommandScript where
  quiet : Option ℚ
  commands : List Bytes
  pause : ℚ
  skips : Bool

inductive CommandPoint
  | subscribing
  | quiet
  | writing (cmd : Bytes) (rest : List Bytes)
  | pausing (rest : List Bytes)
  | unsubscribing
deriving DecidableEq, Repr

namespace CommandScript

/-- The head of the loop over the commands. -/
def loop : List Bytes → Session.Next CommandPoint PyException
  | [] => .awaits .unsubscribing
  | cmd :: rest => .awaits (.writing cmd rest)

/-- The block, from one `await` to the next. -/
def body (c : CommandScript) : ClientBody CommandPoint where
  enter _ := .awaits .subscribing
  op
    | .subscribing => .startNotify recvChar
    | .quiet => .sleep (c.quiet.getD 0)
    | .writing cmd _ => .writeGattChar sendChar cmd false
    | .pausing _ => .sleep c.pause
    | .unsubscribing => .stopNotify recvChar
  resume
    | _, _, .cancelled => .leaves .cancelled
    | .subscribing, _, .returns _ => if c.quiet.isSome then .awaits .quiet else loop c.commands
    | .quiet, _, .returns _ => loop c.commands
    | .writing _ rest, _, .returns _ => .awaits (.pausing rest)
    | .writing _ rest, _, .raises _ => if c.skips then loop rest else .awaits (.pausing rest)
    | .pausing rest, _, .returns _ => loop rest
    | .unsubscribing, _, .returns _ => .leaves .normally
    | _, _, .raises err => .leaves (.raised err)

end CommandScript

namespace ProbePower

/-- The first two bytes of the commands. -/
def codes : List Bytes :=
  [[0xaa, 0x00], [0xaa, 0x01], [0xaa, 0x06], [0xaa, 0x07], [0xaa, 0x20], [0xaa, 0x21], [0xaa, 0xb1]]

def commands : List Bytes := codes.map fun cmd => packet cmd []

/-- No `assert` of `build_pkt` fails. -/
theorem codes_packets : codes.mapM (fun cmd => buildPkt cmd []) = .ok commands := rfl

/-- `probe`. -/
def script : CommandScript where
  quiet := none
  commands := commands
  pause := 4 / 5
  skips := true

end ProbePower

namespace Listen

def codes : List Bytes := [[0xaa, 0xb1], [0xaa, 0x00], [0xaa, 0x01], [0xaa, 0x06], [0xaa, 0x07]]

def commands : List Bytes := codes.map fun cmd => buildPkt cmd []

/-- The block in `main`. -/
def script : CommandScript where
  quiet := some 10
  commands := commands
  pause := 4
  skips := false

end Listen

/-! ## What is written -/

namespace CommandScript

variable {c : CommandScript}

/-- The write has failed, and the loop goes on without a pause. -/
def Skipped (c : CommandScript) (w : Session.Call ClientOp Bytes PyException) : Prop :=
  c.skips = true ∧ w.reply.isReturn = false

instance (w : Session.Call ClientOp Bytes PyException) : Decidable (c.Skipped w) :=
  inferInstanceAs (Decidable (_ ∧ _))

/-- The least time from the end of a write to the next one. -/
def gap (c : CommandScript) (w : Session.Call ClientOp Bytes PyException) : ℚ :=
  if c.Skipped w then 0 else c.pause

/-- The commands that are still to be written, where the code between two `await`s has ended. -/
def Left (c : CommandScript) : Session.Next CommandPoint PyException → List Bytes → Prop
  | .awaits .subscribing, rest | .awaits .quiet, rest => rest = c.commands
  | .awaits (.writing cmd cmds), rest => rest = cmd :: cmds
  | .awaits (.pausing cmds), rest => rest = cmds
  | .awaits .unsubscribing, rest | .leaves .normally, rest => rest = []
  | .leaves (.raised _), rest => rest = c.commands ∨ rest = []
  | .leaves .cancelled, _ => True

/-- When the next write can be called at the earliest. -/
def soonest (c : CommandScript) (t : ℚ) : CommandPoint → ℚ
  | .quiet => t + c.quiet.getD 0
  | .pausing _ => t + c.pause
  | .subscribing | .writing _ _ | .unsubscribing => t

/-- The subscription is there, and the time before the first command is over by `t`. -/
def Settled (c : CommandScript) (cs : ClientCalls) (t : ℚ) : Prop :=
  ∃ s ∈ cs, s.op = .startNotify recvChar ∧ s.reply.isReturn = true ∧ s.back + c.quiet.getD 0 ≤ t

/-- What was written so far, by the end of a piece of the code. -/
structure Sent (c : CommandScript) (cs : ClientCalls)
    (n : Session.Next CommandPoint PyException) (t : ℚ) : Prop where
  order : ∃ rest, packets cs ++ rest = c.commands ∧ c.Left n rest
  spaced : (writes cs).Pairwise fun w w' => w.back + c.gap w ≤ w'.since
  after : ∀ w ∈ writes cs, c.Settled cs w.since
  next : ∀ p, n = .awaits p → ∀ w ∈ writes cs, w.back + c.gap w ≤ c.soonest t p
  settled : ∀ p, n = .awaits p → p = .subscribing ∨ c.Settled cs (c.soonest t p)
  prompt : (writes cs).IsChain fun w w' => c.Skipped w → w'.since = w.back
  last : ∀ w, (writes cs).getLast? = some w → c.Skipped w →
    (∃ exit, n = .leaves exit) ∨ ∃ cmds, n = loop cmds ∧ t = w.back

theorem left_loop (cmds : List Bytes) : c.Left (loop cmds) cmds := by
  cases cmds <;> rfl

theorem soonest_loop {cmds : List Bytes} {p : CommandPoint} (h : loop cmds = .awaits p) (t : ℚ) :
    c.soonest t p = t := by
  cases cmds <;> cases h <;> rfl

theorem gap_nonneg (hpause : 0 ≤ c.pause) (x : Session.Call ClientOp Bytes PyException) :
    0 ≤ c.gap x := by
  unfold gap
  split
  · exact le_rfl
  · exact hpause

theorem Settled.mono {cs : ClientCalls} {t t' : ℚ} (h : c.Settled cs t) (hle : t ≤ t')
    (x : Session.Call ClientOp Bytes PyException) : c.Settled (cs ++ [x]) t' := by
  obtain ⟨s, hs, hop, hreturn, hs'⟩ := h
  exact ⟨s, List.mem_append_left _ hs, hop, hreturn, hs'.trans hle⟩

namespace Sent

variable {cs : ClientCalls} {n : Session.Next CommandPoint PyException} {t t' : ℚ}
  {x : Session.Call ClientOp Bytes PyException}

/-- A call that writes nothing comes back. -/
theorem pass {p : CommandPoint} (h : c.Sent cs (.awaits p) t) (hx : x.op.packet? = none)
    (hleft : ∀ rest, c.Left (.awaits p) rest → c.Left n rest)
    (hsoonest : ∀ q, n = .awaits q → c.soonest t p ≤ c.soonest t' q)
    (hstart : p = .subscribing → ∀ q, n = .awaits q → c.Settled (cs ++ [x]) (c.soonest t' q))
    (hlast : (∃ exit, n = .leaves exit) ∨ ∀ cmds, loop cmds ≠ .awaits p) :
    c.Sent (cs ++ [x]) n t' := by
  obtain ⟨rest, hrest, hl⟩ := h.order
  have hwrites : writes (cs ++ [x]) = writes cs := by simp [hx]
  refine ⟨⟨rest, by simpa [hx] using hrest, hleft rest hl⟩, ?_, ?_, fun q hq => ?_, fun q hq => ?_,
    hwrites ▸ h.prompt, fun w hw hskipped => ?_⟩
  · rw [hwrites]
    exact h.spaced
  · rw [hwrites]
    exact fun w hw => (h.after w hw).mono le_rfl x
  · rw [hwrites]
    exact fun w hw => (h.next p rfl w hw).trans (hsoonest q hq)
  · rcases h.settled p rfl with hfirst | hsettled
    · exact .inr (hstart hfirst q hq)
    · exact .inr (hsettled.mono (hsoonest q hq) x)
  · refine .inl (hlast.resolve_right fun hno => ?_)
    rcases h.last w (hwrites ▸ hw) hskipped with ⟨exit, hexit⟩ | ⟨cmds, hloop, -⟩
    · cases hexit
    · exact hno cmds hloop.symm

/-- A write comes back. -/
theorem write {cmd : Bytes} {rest : List Bytes} (h : c.Sent cs (.awaits (.writing cmd rest)) t)
    (hpause : 0 ≤ c.pause) (hop : x.op = .writeGattChar sendChar cmd false) (hsince : x.since = t)
    (hback : t ≤ x.back) (hleft : c.Left n rest)
    (hsoonest : ∀ q, n = .awaits q → x.back + c.gap x ≤ c.soonest t' q)
    (hlast : c.Skipped x → (∃ exit, n = .leaves exit) ∨ ∃ cmds, n = loop cmds ∧ t' = x.back) :
    c.Sent (cs ++ [x]) n t' := by
  obtain ⟨all, hall, rfl⟩ := h.order
  have hpacket : x.op.packet? = some cmd := by rw [hop]; rfl
  have hwrites : writes (cs ++ [x]) = writes cs ++ [x] := by simp [hpacket]
  have hlater : ∀ q, n = .awaits q → t ≤ c.soonest t' q := fun q hq => by
    linarith [hsoonest q hq, c.gap_nonneg hpause x]
  have hsettled : c.Settled cs t := (h.settled _ rfl).resolve_left (by simp)
  refine ⟨⟨rest, by simpa [hpacket] using hall, hleft⟩, ?_, ?_, fun q hq => ?_,
    fun q hq => .inr (hsettled.mono (hlater q hq) x), ?_, fun w hw hskipped => ?_⟩
  · rw [hwrites]
    refine List.pairwise_append.mpr ⟨h.spaced, List.pairwise_singleton .., fun w hw w' hw' => ?_⟩
    rw [List.mem_singleton.mp hw', hsince]
    exact h.next _ rfl w hw
  · rw [hwrites]
    intro w hw
    rcases List.mem_append.mp hw with hold | hnew
    · exact (h.after w hold).mono le_rfl x
    · rw [List.mem_singleton.mp hnew, hsince]
      exact hsettled.mono le_rfl x
  · rw [hwrites]
    intro w hw
    rcases List.mem_append.mp hw with hold | hnew
    · exact (h.next _ rfl w hold).trans (hlater q hq)
    · rw [List.mem_singleton.mp hnew]
      exact hsoonest q hq
  · rw [hwrites]
    refine List.isChain_append.mpr ⟨h.prompt, .singleton x, fun w hw x' hx' hskipped => ?_⟩
    obtain rfl := Option.some.inj hx'
    rcases h.last w hw hskipped with ⟨exit, hexit⟩ | ⟨cmds, -, ht⟩
    · cases hexit
    · rw [hsince, ht]
  · rw [hwrites, List.getLast?_concat] at hw
    obtain rfl := Option.some.inj hw
    exact hlast hskipped

end Sent

/-- Whatever the operations run into, the commands are written in order, none twice and none left
out before the block is left normally, and each at the distance from the one before it. -/
theorem sent (hpause : 0 ≤ c.pause) (hquiet : 0 ≤ c.quiet.getD 0) {cs : ClientCalls}
    {n : Session.Next CommandPoint PyException} {t : ℚ}
    (h : Session.Trace clientOps c.body cs n t) : c.Sent cs n t := by
  refine h.invariant (P := c.Sent) (fun v => ?_) fun cs p t v r ih hle hallows => ?_
  · refine ⟨⟨c.commands, rfl, rfl⟩, .nil, fun w hw => (List.not_mem_nil hw).elim,
      fun q hq w hw => (List.not_mem_nil hw).elim, fun q hq => ?_, .nil, fun w hw => by cases hw⟩
    cases hq
    exact .inl rfl
  · cases r with
    | cancelled =>
      cases p with
      | writing cmd rest =>
        exact ih.write hpause rfl rfl hle trivial (fun q hq => by cases hq) fun _ => .inl ⟨_, rfl⟩
      | _ =>
        exact ih.pass rfl (fun _ _ => trivial) (fun q hq => by cases hq)
          (fun _ q hq => by cases hq) (.inl ⟨_, rfl⟩)
    | returns d =>
      cases p with
      | subscribing =>
        have hnew : c.Settled
            (cs ++ [⟨.startNotify recvChar, t, v.now, v.linked, .returns d⟩])
            (v.now + c.quiet.getD 0) :=
          ⟨_, List.mem_append_right _ (List.mem_singleton_self _), rfl, rfl, le_rfl⟩
        have hoff : ∀ cmds, loop cmds ≠ .awaits .subscribing := fun cmds => by cases cmds <;> nofun
        show c.Sent _ (if c.quiet.isSome then .awaits .quiet else loop c.commands) _
        split
        · refine ih.pass rfl (fun _ hrest => hrest) (fun q hq => ?_) (fun _ q hq => ?_) (.inr hoff)
          · cases hq
            exact hle.trans (le_add_of_nonneg_right hquiet)
          · cases hq
            exact hnew
        · next hnone =>
          refine ih.pass rfl (fun rest hrest => ?_) (fun q hq => ?_) (fun _ q hq => ?_) (.inr hoff)
          · rw [show rest = c.commands from hrest]
            exact left_loop c.commands
          · rw [soonest_loop hq]
            exact hle
          · rw [soonest_loop hq]
            rw [Option.not_isSome_iff_eq_none.mp hnone, Option.getD_none, add_zero] at hnew
            exact hnew
      | quiet =>
        refine ih.pass rfl (fun rest hrest => ?_) (fun q hq => ?_) (fun hp => by cases hp)
          (.inr fun cmds => by cases cmds <;> nofun)
        · rw [show rest = c.commands from hrest]
          exact left_loop c.commands
        · rw [soonest_loop hq]
          exact allows_sleep hallows
      | writing cmd rest =>
        refine ih.write hpause rfl rfl hle rfl (fun q hq => ?_) fun hskipped => by cases hskipped.2
        cases hq
        simp [gap, Skipped, soonest, Session.Reply.isReturn]
      | pausing rest =>
        refine ih.pass rfl (fun left hleft => ?_) (fun q hq => ?_) (fun hp => by cases hp)
          (.inr fun cmds => by cases cmds <;> nofun)
        · rw [show left = rest from hleft]
          exact left_loop rest
        · rw [soonest_loop hq]
          exact allows_sleep hallows
      | unsubscribing =>
        exact ih.pass rfl (fun _ hrest => hrest) (fun q hq => by cases hq) (fun hp => by cases hp)
          (.inl ⟨_, rfl⟩)
    | raises err =>
      cases p with
      | subscribing =>
        exact ih.pass rfl (fun _ hrest => .inl hrest) (fun q hq => by cases hq)
          (fun _ q hq => by cases hq) (.inl ⟨_, rfl⟩)
      | quiet | pausing rest => cases hallows
      | writing cmd rest =>
        show c.Sent _ (if c.skips then loop rest else .awaits (.pausing rest)) _
        split
        · next hskips =>
          refine ih.write hpause rfl rfl hle (left_loop rest) (fun q hq => ?_)
            fun _ => .inr ⟨rest, rfl, rfl⟩
          rw [soonest_loop hq]
          simp [gap, Skipped, hskips, Session.Reply.isReturn]
        · next hpauses =>
          refine ih.write hpause rfl rfl hle rfl (fun q hq => ?_)
            fun hskipped => absurd hskipped.1 hpauses
          cases hq
          simp [gap, Skipped, soonest, hpauses]
      | unsubscribing =>
        exact ih.pass rfl (fun _ hrest => .inr hrest) (fun q hq => by cases hq)
          (fun hp => by cases hp) (.inl ⟨_, rfl⟩)

/-- The same, for a session. -/
theorem session_sent (hpause : 0 ≤ c.pause) (hquiet : 0 ≤ c.quiet.getD 0) {now : ℚ}
    {s : ClientSession CommandPoint}
    (h : Reaches (Session.State.step clientOps c.body) Free (Session.State.start now) s) :
    packets s.calls <+: c.commands ∧
    (writes s.calls).Pairwise (fun w w' => w.back + c.gap w ≤ w'.since) ∧
    (writes s.calls).IsChain (fun w w' => c.Skipped w → w'.since = w.back) ∧
    (∀ w ∈ writes s.calls, c.Settled s.calls w.since) ∧
    (s.stage = .ended .normally → packets s.calls = c.commands) := by
  have hstands := Session.run_stands h
  have hdone : s.stage = .ended .normally → packets s.calls = c.commands := by
    intro hended
    obtain ⟨-, -, t, -, htrace⟩ := hstands.left_normally hended
    obtain ⟨rest, hrest, hleft⟩ := (sent hpause hquiet htrace).order
    rw [show rest = [] from hleft, List.append_nil] at hrest
    exact hrest
  rcases hstands.calls with hnone | ⟨n, t, -, htrace⟩
  · rw [hnone] at hdone ⊢
    exact ⟨List.nil_prefix, .nil, .nil, fun w hw => (List.not_mem_nil hw).elim, hdone⟩
  · have hsent := sent hpause hquiet htrace
    obtain ⟨rest, hrest, -⟩ := hsent.order
    exact ⟨⟨rest, hrest⟩, hsent.spaced, hsent.prompt, hsent.after, hdone⟩

end CommandScript

/-! ## The end of the block -/

namespace CommandScript

/-- A bound on the awaited operations that are left. -/
def rank (c : CommandScript) : Session.Next CommandPoint PyException → ℕ
  | .awaits .subscribing => 2 * c.commands.length + 2 + c.quiet.isSome.toNat
  | .awaits .quiet => 2 * c.commands.length + 2
  | .awaits (.writing _ rest) => 2 * rest.length + 3
  | .awaits (.pausing rest) => 2 * rest.length + 2
  | .awaits .unsubscribing => 1
  | .leaves _ => 0

theorem rank_loop (c : CommandScript) (cmds : List Bytes) :
    c.rank (loop cmds) = 2 * cmds.length + 1 := by
  cases cmds <;> rfl

theorem rank_pos (c : CommandScript) (p : CommandPoint) : 0 < c.rank (.awaits p) := by
  cases p <;> simp [rank]

theorem rank_resume (c : CommandScript) (p : CommandPoint) (v : Session.View PyException)
    (r : Session.Reply Bytes PyException) : c.rank (c.body.resume p v r) < c.rank (.awaits p) := by
  cases r with
  | cancelled => cases p <;> exact c.rank_pos _
  | returns data =>
    cases p with
    | subscribing =>
      show c.rank (if c.quiet.isSome then .awaits .quiet else loop c.commands) <
        2 * c.commands.length + 2 + c.quiet.isSome.toNat
      split
      · next hquiet =>
        rw [hquiet]
        exact Nat.lt_succ_self _
      · rw [rank_loop]
        exact Nat.lt_add_right _ (Nat.lt_succ_self _)
    | quiet | pausing rest =>
      show c.rank (loop _) < _
      rw [rank_loop]
      exact Nat.lt_succ_self _
    | writing cmd rest => exact Nat.lt_succ_self _
    | unsubscribing => exact Nat.zero_lt_one
  | raises err =>
    cases p with
    | writing cmd rest =>
      show c.rank (if c.skips then loop rest else .awaits (.pausing rest)) < 2 * rest.length + 3
      split
      · rw [rank_loop]
        exact Nat.lt_add_of_pos_right Nat.zero_lt_two
      · exact Nat.lt_succ_self _
    | subscribing | quiet | pausing rest | unsubscribing => exact c.rank_pos _

end CommandScript

/-! ## Scans that keep the last advertisement -/

section
variable {α : Type}

/-- The detection callback: `found[device.address] = value`. -/
def keepLast (accepts : Monitor.Advertisement → Bool) (value : Monitor.Advertisement → α)
    (found : List (String × α)) (adv : Monitor.Advertisement) : List (String × α) :=
  if accepts adv then Dict.set adv.device.address (value adv) found else found

/-- `found` after a scan. -/
def heardLast (accepts : Monitor.Advertisement → Bool) (value : Monitor.Advertisement → α)
    (advs : List Monitor.Advertisement) : List (String × α) :=
  advs.foldl (keepLast accepts value) []

/-- The last advertisement of the plug at `address` that was accepted. -/
def lastHeard (accepts : Monitor.Advertisement → Bool) (advs : List Monitor.Advertisement)
    (address : String) : Option Monitor.Advertisement :=
  (advs.filter fun adv => accepts adv && adv.device.address = address).getLast?

variable (accepts : Monitor.Advertisement → Bool) (value : Monitor.Advertisement → α)
  (advs : List Monitor.Advertisement)

theorem lastHeard_some {accepts : Monitor.Advertisement → Bool}
    {advs : List Monitor.Advertisement} {address : String} {adv : Monitor.Advertisement}
    (h : lastHeard accepts advs address = some adv) :
    adv ∈ advs ∧ accepts adv = true ∧ adv.device.address = address := by
  obtain ⟨hmem, haccepted⟩ := List.mem_filter.mp (List.mem_of_getLast? h)
  rw [Bool.and_eq_true, decide_eq_true_eq] at haccepted
  exact ⟨hmem, haccepted⟩

theorem heardLast_eq : heardLast accepts value advs =
    Dict.assign ((advs.filter accepts).map fun adv => (adv.device.address, value adv)) := by
  rw [heardLast, Dict.assign, List.foldl_map, List.foldl_filter]
  rfl

theorem heardLast_nodup : (Dict.keys (heardLast accepts value advs)).Nodup := by
  rw [heardLast_eq]
  exact Dict.nodup_keys_assign _

variable {accepts value advs}

/-- A plug that was heard is kept, as in the last advertisement that was accepted of it. -/
theorem mem_heardLast {a : String} {v : α} : (a, v) ∈ heardLast accepts value advs ↔
    ∃ adv, lastHeard accepts advs a = some adv ∧ value adv = v := by
  rw [Dict.mem_iff_lookup (heardLast_nodup accepts value advs), heardLast_eq, Dict.lookup_assign,
    List.filter_map, List.filter_filter, List.getLast?_map, Option.map_map, Option.map_eq_some_iff]
  simp only [Function.comp_def, lastHeard, Bool.and_comm]

theorem heardLast_eq_nil : heardLast accepts value advs = [] ↔ ∀ adv ∈ advs, accepts adv = false := by
  constructor
  · intro hnil adv hadv
    refine Bool.eq_false_iff.mpr fun haccepted => ?_
    have hheard : (lastHeard accepts advs adv.device.address).isSome = true :=
      List.getLast?_isSome.mpr (List.ne_nil_of_mem
        (List.mem_filter.mpr ⟨hadv, by simp [haccepted]⟩))
    obtain ⟨adv', hlast⟩ := Option.isSome_iff_exists.mp hheard
    have hmem := (@mem_heardLast _ accepts value advs _ _).mpr ⟨adv', hlast, rfl⟩
    rw [hnil] at hmem
    cases hmem
  · intro hnone
    have hfilter : advs.filter accepts = [] :=
      List.filter_eq_nil_iff.mpr fun adv hadv => by simp [hnone adv hadv]
    rw [heardLast_eq, hfilter]
    rfl

section
variable (address : α → String) (haddress : ∀ adv, address (value adv) = adv.device.address)
include haddress

/-- The values of the dictionary, where a value tells its key. -/
theorem mem_heardLast_values {v : α} : v ∈ (heardLast accepts value advs).map Prod.snd ↔
    ∃ adv, lastHeard accepts advs (address v) = some adv ∧ value adv = v := by
  rw [List.mem_map]
  constructor
  · rintro ⟨⟨a, v⟩, hmem, rfl⟩
    obtain ⟨adv, hlast, rfl⟩ := mem_heardLast.mp hmem
    exact ⟨adv, by rwa [haddress, (lastHeard_some hlast).2.2], rfl⟩
  · rintro ⟨adv, hlast, hv⟩
    exact ⟨(address v, v), mem_heardLast.mpr ⟨adv, hlast, hv⟩, rfl⟩

theorem heardLast_values_keys : ((heardLast accepts value advs).map Prod.snd).map address =
    Dict.keys (heardLast accepts value advs) := by
  rw [List.map_map]
  refine List.map_congr_left fun p hp => ?_
  obtain ⟨adv, hlast, heq⟩ := mem_heardLast.mp (show (p.1, p.2) ∈ _ from hp)
  show address p.2 = p.1
  rw [← heq, haddress, (lastHeard_some hlast).2.2]

theorem heardLast_values_nodup :
    (((heardLast accepts value advs).map Prod.snd).map address).Nodup := by
  rw [heardLast_values_keys address haddress]
  exact heardLast_nodup accepts value advs

/-- The plugs stand in the order in which they were first heard. -/
theorem heardLast_values_order : ((heardLast accepts value advs).map Prod.snd).map address =
    ((advs.filter accepts).map fun adv => adv.device.address).eraseDups := by
  rw [heardLast_values_keys address haddress, heardLast_eq, Dict.keys_assign, List.map_map]
  rfl

end

end

/-! ## `probe_power.py` -/

namespace ProbePower

/-- `name.startswith("GVH5086")`. -/
def accepts (adv : Monitor.Advertisement) : Bool := "GVH5086".toList.isPrefixOf adv.name.toList

/-- `sorted(found.values(), key=lambda t: -t[1])`. -/
def devices (advs : List Monitor.Advertisement) : List (BLEDevice × ℤ) :=
  SortBy.descending Prod.snd
    ((heardLast accepts (fun adv => (adv.device, adv.rssi)) advs).map Prod.snd)

/-- The block of `probe`, the same for every plug. -/
def probe (_ : BLEDevice × ℤ) : ClientBody CommandPoint := script.body

abbrev State := Visits.State (BLEDevice × ℤ) CommandPoint ClientOp Bytes PyException Bytes

abbrev Event := Visits.Event Bytes PyException Bytes

/-- `for device, rssi in devices: await probe(device, ..)`. -/
def step : State → Event → Option State := Visits.step clientOps probe

/-- `main`, after a scan that ended at `now`. -/
def main (advs : List Monitor.Advertisement) (now : ℚ) : State :=
  Visits.start clientOps probe now (devices advs)

theorem mem_devices {advs : List Monitor.Advertisement} {d : BLEDevice × ℤ} :
    d ∈ devices advs ↔
      ∃ adv, lastHeard accepts advs d.1.address = some adv ∧ (adv.device, adv.rssi) = d := by
  rw [devices, (SortBy.descending_perm _ _).mem_iff]
  exact mem_heardLast_values (fun d : BLEDevice × ℤ => d.1.address) fun _ => rfl

theorem devices_nodup (advs : List Monitor.Advertisement) :
    ((devices advs).map fun d => d.1.address).Nodup := by
  have hperm := (SortBy.descending_perm Prod.snd ((heardLast accepts
    (fun adv => (adv.device, adv.rssi)) advs).map Prod.snd)).map fun d => d.1.address
  exact hperm.nodup_iff.mpr (heardLast_values_nodup (fun d : BLEDevice × ℤ => d.1.address) fun _ => rfl)

/-- Every plug that was heard gets one turn, the strongest first, whatever happens to the others, and
the loop ends only when all have had theirs. At most one client is connected at a time, and each is
closed when the turn of its plug is over. In its turn a plug is sent the commands in order, the next
one four fifths of a second after a write that returned and at once after one that failed, and all
of them before the turn ends normally. -/
theorem plugs_probed {advs : List Monitor.Advertisement} {now : ℚ} {m : State}
    (h : Reaches step Free (main advs now) m) :
    (m.items = devices advs ∧ ((devices advs).map fun d => d.1.address).Nodup ∧
      ((devices advs).Pairwise fun d d' => d'.2 ≤ d.2) ∧
      ∀ d, d ∈ devices advs ↔
        ∃ adv, lastHeard accepts advs d.1.address = some adv ∧ (adv.device, adv.rssi) = d) ∧
    (m.current = none → m.finished.map Prod.fst = devices advs) ∧
    (Visits.sessions m).countP (fun p => Visits.held p.2) ≤ 1 ∧
    (∀ p ∈ m.finished, p.2.opens = p.2.closes) ∧
    ∀ p ∈ Visits.sessions m, packets p.2.calls <+: commands ∧
      (writes p.2.calls).Pairwise (fun w w' => w.back ≤ w'.since ∧
        (w.reply.isReturn = true → w.back + 4 / 5 ≤ w'.since)) ∧
      (writes p.2.calls).IsChain (fun w w' => w.reply.isReturn = false → w'.since = w.back) ∧
      (p.2.stage = .ended .normally → packets p.2.calls = commands) := by
  have hstands := Visits.run_visits h
  refine ⟨⟨hstands.items, devices_nodup advs, SortBy.descending_sorted .., fun d => mem_devices⟩,
    hstands.complete, hstands.exclusive, fun p hp => (hstands.finished p hp).2, fun p hp => ?_⟩
  obtain ⟨t, hreach⟩ := hstands.reached p hp
  obtain ⟨horder, hspaced, hprompt, -, hall⟩ := CommandScript.session_sent (by norm_num [script])
    (by norm_num [script]) hreach
  refine ⟨horder, hspaced.imp fun {w w'} hw => ?_,
    hprompt.imp fun _ _ hw hfailed => hw ⟨rfl, hfailed⟩, hall⟩
  unfold CommandScript.gap at hw
  split at hw
  · next hskipped =>
    exact ⟨by simpa using hw, fun hreturn => by cases hreturn.symm.trans hskipped.2⟩
  · have hlater : w.back + 4 / 5 ≤ w'.since := hw
    exact ⟨by linarith, fun _ => hlater⟩

/-- The loop comes to its end: after at most 18 replies for each plug all have had their turn, unless
it is cancelled, and until then something can come back. -/
theorem main_ends {advs : List Monitor.Advertisement} {now : ℚ} {es : List Event} {m : State}
    (h : run step (main advs now) es = some m) :
    es.countP Visits.isReply ≤ 18 * (devices advs).length ∧
    (m.current = none ∧ m.finished.map Prod.fst = devices advs ∨
      (∃ p, m.current = some p ∧ p.2.stage = .ended .cancelled) ∨
      ∃ dt, 0 ≤ dt ∧ ∃ e m', (e = .next ∨ Visits.isReply e = true) ∧
        run step m [.one (.advance dt), e] = some m') :=
  ⟨Visits.run_turns (fun _ _ _ => le_rfl) (fun _ => script.rank_resume) h,
    (Visits.goes_on [] fun op => by cases op <;> rfl).imp_left fun hnone =>
      ⟨hnone, (Visits.run_visits (reaches_free h)).complete hnone⟩⟩

/-- Two plugs. The stronger one cannot be connected; a write to the other one fails. -/
def twoHeard : List Monitor.Advertisement :=
  [⟨⟨"A1:B2:C3:D4:E5:F7", none⟩, some "GVH5086A482", -50⟩,
    ⟨⟨"A1:B2:C3:D4:E5:F6", none⟩, some "GVH5086A481", -70⟩]

def oneFails : List Event :=
  .one (.reply (.raises .bleakError) none) :: .next ::
    [.reply (.returns []) none, .reply (.returns []) none, .reply (.raises .osError) none,
      .reply (.returns []) none, .advance (4 / 5), .reply (.returns []) none].map .one

def afterOneFails : State :=
  outcome (guarded step fun _ _ => true)
    (Visits.start clientOps probe 0 (twoHeard.map fun adv => (adv.device, adv.rssi))) oneFails

theorem main_twoHeard : main twoHeard 0 =
    Visits.start clientOps probe 0 (twoHeard.map fun adv => (adv.device, adv.rssi)) := by
  have hfound : (heardLast accepts (fun adv => (adv.device, adv.rssi)) twoHeard).map Prod.snd =
      twoHeard.map fun adv => (adv.device, adv.rssi) := by decide
  rw [main, devices, hfound, SortBy.descending_of_sorted _ (by decide)]

theorem plugs_probed_oneFails :
    (afterOneFails.current.map fun p => packets p.2.calls) = some (commands.take 2) ∧
    (Visits.sessions afterOneFails).countP (fun p => Visits.held p.2) ≤ 1 := by
  have hrun : Reaches step Free (main twoHeard 0) afterOneFails := by
    rw [main_twoHeard]
    exact reaches_outcome (by decide +kernel) fun _ _ _ => trivial
  exact ⟨by decide +kernel, (plugs_probed hrun).2.2.1⟩

theorem main_ends_oneFails :
    oneFails.countP Visits.isReply ≤ 18 * (devices twoHeard).length := by
  have hrun : (run step (main twoHeard 0) oneFails).isSome = true := by
    rw [main_twoHeard]
    decide +kernel
  obtain ⟨m, hm⟩ := Option.isSome_iff_exists.mp hrun
  exact (main_ends hm).1

end ProbePower

/-! ## Scripts with one plug -/

/-- `found[device.address]` of the scripts with one plug, and `next(iter(found.values()))`. -/
def target (name : String) (advs : List Monitor.Advertisement) : Option BLEDevice :=
  (heardLast (fun adv => adv.name = name) Monitor.Advertisement.device advs).head?.map Prod.snd

/-- `main` of a script with one plug: the scan, the session, and the exit code. -/
structure Solo (π : Type) where
  heard : List Monitor.Advertisement
  now : ℚ
  session : Option (BLEDevice × ClientSession π)
  code : Option ℕ
deriving DecidableEq, Repr

namespace Solo

variable {π : Type}

def init (now : ℚ) : Solo π := ⟨[], now, none, none⟩

def scanning (m : Solo π) : Bool := m.session.isNone && m.code.isNone

/-- The scan is over. -/
def scanned (name : String) (m : Solo π) : Solo π :=
  match target name m.heard with
  | none => { m with code := some 1 }
  | some device => { m with session := some (device, Session.State.start m.now) }

inductive Event
  | hear (adv : Monitor.Advertisement)
  | advance (dt : ℚ)
  | scanned
  | session (e : Session.Event Bytes PyException Bytes)
  | returned
deriving DecidableEq, Repr

/-- The effect of an event, when it can happen. An exception of the session, or its cancellation,
leaves `main` without an exit code. -/
def step (b : ClientBody π) (name : String) (m : Solo π) : Event → Option (Solo π)
  | .hear adv => if m.scanning then some { m with heard := m.heard ++ [adv] } else none
  | .advance dt => if m.scanning ∧ 0 ≤ dt then some { m with now := m.now + dt } else none
  | .scanned => if m.scanning then some (m.scanned name) else none
  | .session e => m.session.bind fun p =>
      (p.2.step clientOps b e).map fun s => { m with session := some (p.1, s) }
  | .returned => m.session.bind fun p =>
      match p.2.stage with
      | .ended .normally => some { m with code := some 0 }
      | _ => none

theorem target_none {name : String} {advs : List Monitor.Advertisement}
    (h : target name advs = none) : ∀ adv ∈ advs, adv.name ≠ name := by
  intro adv hadv
  have hnil := List.head?_eq_none_iff.mp (Option.map_eq_none_iff.mp h)
  exact of_decide_eq_false (heardLast_eq_nil.mp hnil adv hadv)

theorem target_some {name : String} {advs : List Monitor.Advertisement} {device : BLEDevice}
    (h : target name advs = some device) : ∃ adv ∈ advs, adv.name = name ∧ adv.device = device := by
  obtain ⟨⟨a, device⟩, hhead, rfl⟩ := Option.map_eq_some_iff.mp h
  obtain ⟨adv, hlast, hdevice⟩ := mem_heardLast.mp (List.mem_of_head? hhead)
  obtain ⟨hadv, haccepted, -⟩ := lastHeard_some hlast
  exact ⟨adv, hadv, of_decide_eq_true haccepted, hdevice⟩

/-- What a run of `main` has come to. -/
structure Stands (b : ClientBody π) (name : String) (m : Solo π) : Prop where
  session : ∀ device s, m.session = some (device, s) → target name m.heard = some device ∧
    ∃ now, Reaches (Session.State.step clientOps b) Free (Session.State.start now) s
  code : ∀ k, m.code = some k → (k = 1 ∧ m.session = none ∧ target name m.heard = none) ∨
    k = 0 ∧ ∃ device s, m.session = some (device, s) ∧ s.stage = .ended .normally

theorem scanning_iff {m : Solo π} : m.scanning = true ↔ m.session = none ∧ m.code = none := by
  simp [scanning]

/-- While the scan goes on there is nothing to say. -/
theorem Stands.scanning {b : ClientBody π} {name : String} {m : Solo π} (hsession : m.session = none)
    (hcode : m.code = none) : m.Stands b name :=
  ⟨fun _ _ h => (Option.some_ne_none _ (h.symm.trans hsession)).elim,
    fun _ h => (Option.some_ne_none _ (h.symm.trans hcode)).elim⟩

theorem Stands.scanned {b : ClientBody π} {name : String} {m : Solo π} (hsession : m.session = none)
    (hcode : m.code = none) : (m.scanned name).Stands b name := by
  unfold Solo.scanned
  split
  · next hnone =>
    refine ⟨fun device s h => (Option.some_ne_none _ (h.symm.trans hsession)).elim, fun k hk => ?_⟩
    cases hk
    exact .inl ⟨rfl, hsession, hnone⟩
  · next device hdevice =>
    refine ⟨fun device s h => ?_, fun k hk => (Option.some_ne_none _ (hk.symm.trans hcode)).elim⟩
    cases h
    exact ⟨hdevice, m.now, .refl⟩

theorem Stands.step {b : ClientBody π} {name : String} {m m' : Solo π} {e : Event}
    (h : m.Stands b name) (hstep : m.step b name e = some m') : m'.Stands b name := by
  cases e with
  | hear adv =>
    obtain ⟨hscanning, heq⟩ := Option.ite_none_right_eq_some.mp hstep
    obtain ⟨hsession, hcode⟩ := scanning_iff.mp hscanning
    cases heq
    exact .scanning hsession hcode
  | advance dt =>
    obtain ⟨⟨hscanning, -⟩, heq⟩ := Option.ite_none_right_eq_some.mp hstep
    obtain ⟨hsession, hcode⟩ := scanning_iff.mp hscanning
    cases heq
    exact .scanning hsession hcode
  | scanned =>
    obtain ⟨hscanning, heq⟩ := Option.ite_none_right_eq_some.mp hstep
    obtain ⟨hsession, hcode⟩ := scanning_iff.mp hscanning
    cases heq
    exact .scanned hsession hcode
  | session e =>
    obtain ⟨⟨device, s⟩, hsession, hmap⟩ := Option.bind_eq_some_iff.mp hstep
    obtain ⟨s', hs', rfl⟩ := Option.map_eq_some_iff.mp hmap
    obtain ⟨hdevice, t, hreach⟩ := h.session device s hsession
    refine ⟨fun device' s₁ h₁ => ?_, fun k hk => ?_⟩
    · cases h₁
      exact ⟨hdevice, t, hreach.tail trivial hs'⟩
    · rcases h.code k hk with ⟨-, hnone, -⟩ | ⟨rfl, device', s₁, h₁, hended⟩
      · cases hsession.symm.trans hnone
      -- a session that has ended only sees time pass
      · cases hsession.symm.trans h₁
        exact .inr ⟨rfl, device, s', rfl, Session.step_ended hended hs'⟩
  | returned =>
    obtain ⟨⟨device, s⟩, hsession, hmatch⟩ := Option.bind_eq_some_iff.mp hstep
    dsimp only at hmatch
    split at hmatch
    · next hended =>
      cases hmatch
      refine ⟨h.session, fun k hk => ?_⟩
      cases hk
      exact .inr ⟨rfl, device, s, hsession, hended⟩
    · cases hmatch

theorem run_stands {b : ClientBody π} {name : String} {now : ℚ} {m : Solo π}
    (h : Reaches (step b name) Free (init now) m) : m.Stands b name :=
  h.invariant (.scanning rfl rfl) fun _ _ _ ha _ hstep => ha.step hstep

/-! ### What a run has heard -/

/-- The time, of the scan or of the session. -/
def clock (m : Solo π) : ℚ := (m.session.map fun p => p.2.now).getD m.now

/-- `notifs`. -/
def notifs (m : Solo π) : List (ℚ × Bytes) := (m.session.map fun p => p.2.arrivals).getD []

namespace Event

def elapsed : Event → ℚ
  | .advance dt => dt
  | .session e => e.elapsed
  | .hear _ | .scanned | .returned => 0

def advertisement? : Event → Option Monitor.Advertisement
  | .hear adv => some adv
  | .advance _ | .scanned | .session _ | .returned => none

def notification? : Event → Option Bytes
  | .session e => e.message?
  | .hear _ | .advance _ | .scanned | .returned => none

end Event

/-- The notifications of some events, each with the time at which it comes. -/
def arrived : ℚ → List Event → List (ℚ × Bytes)
  | _, [] => []
  | now, e :: es =>
    (e.notification?.map fun data => (now, data)).toList ++ arrived (now + e.elapsed) es

/-- What a step adds to the advertisements, the time and the notifications. -/
structure Records (m : Solo π) (e : Event) (m' : Solo π) : Prop where
  heard : m'.heard = m.heard ++ e.advertisement?.toList
  clock : m'.clock = m.clock + e.elapsed
  notifs : m'.notifs = m.notifs ++ (e.notification?.map fun data => (m.clock, data)).toList

theorem step_records {b : ClientBody π} {name : String} {m m' : Solo π} {e : Event}
    (hstep : m.step b name e = some m') : Records m e m' := by
  cases e with
  | hear adv =>
    obtain ⟨hscanning, heq⟩ := Option.ite_none_right_eq_some.mp hstep
    cases heq
    exact ⟨rfl, (add_zero _).symm, (List.append_nil _).symm⟩
  | advance dt =>
    obtain ⟨⟨hscanning, -⟩, heq⟩ := Option.ite_none_right_eq_some.mp hstep
    cases heq
    refine ⟨(List.append_nil _).symm, ?_, (List.append_nil _).symm⟩
    simp [Solo.clock, (scanning_iff.mp hscanning).1, Event.elapsed]
  | scanned =>
    obtain ⟨hscanning, heq⟩ := Option.ite_none_right_eq_some.mp hstep
    have hsession := (scanning_iff.mp hscanning).1
    cases heq
    unfold Solo.scanned
    constructor <;> split <;>
      simp [Solo.clock, Solo.notifs, hsession, Event.elapsed, Event.advertisement?,
        Event.notification?, Session.State.start]
  | session e =>
    obtain ⟨⟨device, s⟩, hsession, hmap⟩ := Option.bind_eq_some_iff.mp hstep
    obtain ⟨s', hs', rfl⟩ := Option.map_eq_some_iff.mp hmap
    obtain ⟨hnow, harrivals⟩ := Session.step_records hs'
    refine ⟨(List.append_nil _).symm, ?_, ?_⟩
    · simpa [Solo.clock, hsession, Event.elapsed] using hnow
    · simpa [Solo.clock, Solo.notifs, hsession, Event.notification?] using harrivals
  | returned =>
    obtain ⟨⟨device, s⟩, hsession, hmatch⟩ := Option.bind_eq_some_iff.mp hstep
    dsimp only at hmatch
    split at hmatch
    · cases hmatch
      exact ⟨(List.append_nil _).symm, (add_zero _).symm, (List.append_nil _).symm⟩
    · cases hmatch

/-- Every advertisement of the scan is heard, and every notification of the session is kept, with
the time at which it came. -/
theorem run_records {b : ClientBody π} {name : String} {m m' : Solo π} {es : List Event}
    (h : run (step b name) m es = some m') :
    m'.heard = m.heard ++ es.filterMap Event.advertisement? ∧
      m'.notifs = m.notifs ++ arrived m.clock es := by
  induction es generalizing m with
  | nil =>
    cases h
    exact ⟨(List.append_nil _).symm, (List.append_nil _).symm⟩
  | cons e es ih =>
    obtain ⟨m₁, hstep, hrest⟩ := Option.bind_eq_some_iff.mp h
    have hone := step_records hstep
    obtain ⟨hheard, hnotifs⟩ := ih hrest
    constructor
    · rw [hheard, hone.heard, List.append_assoc, List.filterMap_cons]
      cases e.advertisement? <;> rfl
    · rw [hnotifs, hone.notifs, hone.clock, List.append_assoc, arrived]

theorem mem_advertisements {es : List Event} {adv : Monitor.Advertisement} :
    adv ∈ es.filterMap Event.advertisement? ↔ .hear adv ∈ es := by
  rw [List.mem_filterMap]
  constructor
  · rintro ⟨e, he, hadv⟩
    cases e <;> cases hadv
    exact he
  · exact fun hadv => ⟨_, hadv, rfl⟩

/-- What a whole run of `main` has come to. -/
structure Outcome (b : ClientBody π) (name : String) (now : ℚ) (es : List Event) (m : Solo π) :
    Prop where
  absent : m.code = some 1 → m.session = none ∧ ∀ adv, .hear adv ∈ es → adv.name ≠ name
  done : m.code = some 0 → ∃ device s, m.session = some (device, s) ∧ s.stage = .ended .normally
  codes : ∀ k, m.code = some k → k ≤ 1
  device : ∀ device s, m.session = some (device, s) →
    ∃ adv, .hear adv ∈ es ∧ adv.name = name ∧ adv.device = device
  reached : ∀ device s, m.session = some (device, s) →
    ∃ t, Reaches (Session.State.step clientOps b) Free (Session.State.start t) s
  kept : ∀ device s, m.session = some (device, s) → s.arrivals = arrived now es

theorem run_outcome {b : ClientBody π} {name : String} {now : ℚ} {es : List Event} {m : Solo π}
    (h : run (step b name) (init now) es = some m) : Outcome b name now es m := by
  have hstands := run_stands (reaches_free h)
  obtain ⟨hheard, hnotifs⟩ := run_records h
  refine ⟨fun hcode => ?_, fun hcode => ?_, fun k hk => ?_, fun device s hs => ?_,
    fun device s hs => (hstands.session device s hs).2, fun device s hs => ?_⟩
  · rcases hstands.code 1 hcode with ⟨-, hsession, hnone⟩ | ⟨hone, -⟩
    · refine ⟨hsession, fun adv hadv => target_none hnone adv ?_⟩
      rw [hheard]
      exact mem_advertisements.mpr hadv
    · cases hone
  · rcases hstands.code 0 hcode with ⟨hzero, -⟩ | ⟨-, hended⟩
    · cases hzero
    · exact hended
  · rcases hstands.code k hk with ⟨rfl, -⟩ | ⟨rfl, -⟩ <;> decide
  · obtain ⟨adv, hadv, hname, hdevice⟩ := target_some (hstands.session device s hs).1
    rw [hheard] at hadv
    exact ⟨adv, mem_advertisements.mp hadv, hname, hdevice⟩
  · simpa [Solo.notifs, Solo.clock, hs, init] using hnotifs

end Solo

namespace Listen

/-- A write comes back, a notification arrives, and the pause is over. -/
def written (r : Session.Reply Bytes PyException) :
    List (Session.Event Bytes PyException Bytes) :=
  [.reply r none, .arrive [0xee], .advance 4, .reply (.returns []) none]

end Listen

end GoveeH5086
