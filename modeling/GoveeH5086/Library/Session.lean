import Mathlib.Algebra.Order.Ring.Rat
import Mathlib.Tactic.Linarith
import GoveeH5086.Library.Runs

/-!
# A coroutine that holds a client

The block of an `async with` is given by what it awaits at each of its points, and by where it goes
on when that comes back. The client is opened before the block and closed after it, however the
block was left. Meanwhile the link may drop, messages arrive and time passes.

1. `State.step`, `stepped`: the session, from one `await` to the next, and what an event does to it.
2. `Trace`: what the block did, without the session around it.
3. `run_stands`: in every run, the calls of a session are a trace of its block.
4. `Stands.balance`: a client that was opened is closed when the session has ended.
5. `step_records`, `run_heard`: messages are recorded with their times, in order, and only once the
   block listens.
6. `step_turns`, `goes_on`: a session whose code uses up a rank comes to its end.
-/

namespace Session
open Runs

/-! ## The block -/

/-- How an `await` comes back. -/
inductive Reply (ρ ε : Type*)
  | returns (r : ρ)
  | raises (err : ε)
  | cancelled
deriving DecidableEq, Repr

/-- How a block is left. -/
inductive Exit (ε : Type*)
  | normally
  | raised (err : ε)
  | cancelled
deriving DecidableEq, Repr

/-- Where the code between two `await`s ends. -/
inductive Next (π ε : Type*)
  | awaits (p : π)
  | leaves (exit : Exit ε)
deriving DecidableEq, Repr

/-- What the code between two `await`s sees. `fault` is what the client would raise there. -/
structure View (ε : Type*) where
  now : ℚ
  linked : Bool
  fault : Option ε
deriving DecidableEq, Repr

/-- What is known of the operations: the least time until they return, how they can come back, and
from whose call on messages may arrive. -/
structure Ops (ω ρ ε : Type*) where
  lasts : ω → ℚ
  admits : ω → Reply ρ ε → Bool
  listens : ω → Bool

/-- The block: its points, and what it awaits there. -/
structure Body (π ω ρ ε : Type*) where
  enter : View ε → Next π ε
  op : π → ω
  resume : π → View ε → Reply ρ ε → Next π ε

/-- An `await` that has come back. `linked` says whether the link was up then. -/
structure Call (ω ρ ε : Type*) where
  op : ω
  since : ℚ
  back : ℚ
  linked : Bool
  reply : Reply ρ ε
deriving DecidableEq, Repr

/-! ## The session -/

/-- In `closing`, how the block was left. -/
inductive Stage (π ε : Type*)
  | opening
  | inside (p : π) (since : ℚ)
  | closing (exit : Exit ε)
  | ended (exit : Exit ε)
deriving DecidableEq, Repr

/-- `opens` and `closes` count the clients that were opened and the calls that close one. -/
structure State (π ω ρ ε ν : Type*) where
  stage : Stage π ε
  now : ℚ
  linked : Bool
  listening : Bool
  opens : ℕ
  closes : ℕ
  calls : List (Call ω ρ ε)
  arrivals : List (ℚ × ν)
deriving DecidableEq, Repr

inductive Event (ρ ε ν : Type*)
  | reply (r : Reply ρ ε) (fault : Option ε)
  | drop
  | arrive (x : ν)
  | advance (dt : ℚ)
deriving DecidableEq, Repr

section
variable {π ω ρ ε ν : Type*}

def Reply.isReturn : Reply ρ ε → Bool
  | .returns _ => true
  | .raises _ | .cancelled => false

/-- The reply can come now. -/
def Ops.allows (ops : Ops ω ρ ε) (op : ω) (since now : ℚ) (r : Reply ρ ε) : Bool :=
  ops.admits op r && (!r.isReturn || decide (since + ops.lasts op ≤ now))

namespace State

def start (now : ℚ) : State π ω ρ ε ν where
  stage := .opening
  now := now
  linked := false
  listening := false
  opens := 0
  closes := 0
  calls := []
  arrivals := []

/-- The code has run up to the next `await`, or out of the block. -/
def goes (ops : Ops ω ρ ε) (b : Body π ω ρ ε) (s : State π ω ρ ε ν) :
    Next π ε → State π ω ρ ε ν
  | .awaits p => { s with
      stage := .inside p s.now
      listening := s.listening || ops.listens (b.op p) }
  | .leaves exit => { s with stage := .closing exit, closes := s.closes + 1 }

def view (s : State π ω ρ ε ν) (fault : Option ε) : View ε := ⟨s.now, s.linked, fault⟩

def opened (s : State π ω ρ ε ν) : State π ω ρ ε ν :=
  { s with linked := true, opens := s.opens + 1 }

def came (s : State π ω ρ ε ν) (c : Call ω ρ ε) : State π ω ρ ε ν :=
  { s with calls := s.calls ++ [c] }

def ends (s : State π ω ρ ε ν) (exit : Exit ε) : State π ω ρ ε ν := { s with stage := .ended exit }

/-- What the session awaits comes back. -/
def reply (ops : Ops ω ρ ε) (b : Body π ω ρ ε) (s : State π ω ρ ε ν) (r : Reply ρ ε)
    (fault : Option ε) : Option (State π ω ρ ε ν) :=
  match s.stage, r with
  | .opening, .returns _ => some (s.opened.goes ops b (b.enter (s.opened.view fault)))
  | .opening, .raises err => some (s.ends (.raised err))
  | .opening, .cancelled => some (s.ends .cancelled)
  | .inside p since, r =>
    if ops.allows (b.op p) since s.now r then
      some ((s.came ⟨b.op p, since, s.now, s.linked, r⟩).goes ops b (b.resume p (s.view fault) r))
    else none
  | .closing exit, .returns _ => some ({ s with linked := false }.ends exit)
  | .closing _, .raises err => some (s.ends (.raised err))
  | .closing _, .cancelled => some (s.ends .cancelled)
  | .ended _, _ => none

/-- The effect of an event, when it can happen. -/
def step (ops : Ops ω ρ ε) (b : Body π ω ρ ε) (s : State π ω ρ ε ν) :
    Event ρ ε ν → Option (State π ω ρ ε ν)
  | .reply r fault => s.reply ops b r fault
  | .drop => if s.linked then some { s with linked := false } else none
  | .arrive x =>
    if s.listening then some { s with arrivals := s.arrivals ++ [(s.now, x)] } else none
  | .advance dt => if 0 ≤ dt then some { s with now := s.now + dt } else none

def hasEnded (s : State π ω ρ ε ν) : Bool :=
  match s.stage with
  | .ended _ => true
  | .opening | .inside _ _ | .closing _ => false

end State

/-- What an event does to a session: the client is opened or not, the code of the block goes on, the
client is closed or not; or something happens around the block. -/
inductive Stepped (ops : Ops ω ρ ε) (b : Body π ω ρ ε) (s : State π ω ρ ε ν) :
    Event ρ ε ν → State π ω ρ ε ν → Prop
  | opened {x : ρ} {fault : Option ε} : s.stage = .opening →
      Stepped ops b s (.reply (.returns x) fault) (s.opened.goes ops b (b.enter (s.opened.view fault)))
  | unopened {r : Reply ρ ε} {fault : Option ε} {exit : Exit ε} : s.stage = .opening →
      exit ≠ .normally → Stepped ops b s (.reply r fault) (s.ends exit)
  | went {p : π} {since : ℚ} {r : Reply ρ ε} {fault : Option ε} : s.stage = .inside p since →
      ops.allows (b.op p) since s.now r = true → Stepped ops b s (.reply r fault)
        ((s.came ⟨b.op p, since, s.now, s.linked, r⟩).goes ops b (b.resume p (s.view fault) r))
  | closed {exit : Exit ε} {x : ρ} {fault : Option ε} : s.stage = .closing exit →
      Stepped ops b s (.reply (.returns x) fault) ({ s with linked := false }.ends exit)
  | unclosed {exit exit' : Exit ε} {r : Reply ρ ε} {fault : Option ε} : s.stage = .closing exit →
      exit' ≠ .normally → Stepped ops b s (.reply r fault) (s.ends exit')
  | dropped : s.linked = true → Stepped ops b s .drop { s with linked := false }
  | arrived {x : ν} : s.listening = true →
      Stepped ops b s (.arrive x) { s with arrivals := s.arrivals ++ [(s.now, x)] }
  | advanced {dt : ℚ} : 0 ≤ dt → Stepped ops b s (.advance dt) { s with now := s.now + dt }

theorem stepped {ops : Ops ω ρ ε} {b : Body π ω ρ ε} {s s' : State π ω ρ ε ν} {e : Event ρ ε ν}
    (h : s.step ops b e = some s') : Stepped ops b s e s' := by
  cases e with
  | reply r fault =>
    simp only [State.step, State.reply] at h
    cases hstage : s.stage with
    | opening =>
      rw [hstage] at h
      cases r with
      | returns x => cases h; exact .opened hstage
      | raises err => cases h; exact .unopened hstage nofun
      | cancelled => cases h; exact .unopened hstage nofun
    | inside p since =>
      rw [hstage] at h
      obtain ⟨hallows, heq⟩ := Option.ite_none_right_eq_some.mp h
      cases heq
      exact .went hstage hallows
    | closing exit =>
      rw [hstage] at h
      cases r with
      | returns x => cases h; exact .closed hstage
      | raises err => cases h; exact .unclosed hstage nofun
      | cancelled => cases h; exact .unclosed hstage nofun
    | ended exit => rw [hstage] at h; cases h
  | drop =>
    obtain ⟨hlinked, heq⟩ := Option.ite_none_right_eq_some.mp h
    cases heq
    exact .dropped hlinked
  | arrive x =>
    obtain ⟨hlistening, heq⟩ := Option.ite_none_right_eq_some.mp h
    cases heq
    exact .arrived hlistening
  | advance dt =>
    obtain ⟨hdt, heq⟩ := Option.ite_none_right_eq_some.mp h
    cases heq
    exact .advanced hdt

/-! ## The block alone -/

/-- The calls of the block up to the end of some piece of its code, and the time of that. -/
inductive Trace (ops : Ops ω ρ ε) (b : Body π ω ρ ε) : List (Call ω ρ ε) → Next π ε → ℚ → Prop
  | enter (v : View ε) : Trace ops b [] (b.enter v) v.now
  | resume {cs : List (Call ω ρ ε)} {p : π} {t : ℚ} {r : Reply ρ ε} (v : View ε) :
      Trace ops b cs (.awaits p) t → t ≤ v.now → ops.allows (b.op p) t v.now r = true →
      Trace ops b (cs ++ [⟨b.op p, t, v.now, v.linked, r⟩]) (b.resume p v r) v.now

variable {ops : Ops ω ρ ε} {b : Body π ω ρ ε} {s s' : State π ω ρ ε ν}

/-- The invariant rule for the code of a block. -/
theorem Trace.invariant {P : List (Call ω ρ ε) → Next π ε → ℚ → Prop} {cs : List (Call ω ρ ε)}
    {n : Next π ε} {t : ℚ} (h : Trace ops b cs n t) (enter : ∀ v, P [] (b.enter v) v.now)
    (resume : ∀ cs p t v r, P cs (.awaits p) t → t ≤ v.now →
      ops.allows (b.op p) t v.now r = true →
      P (cs ++ [⟨b.op p, t, v.now, v.linked, r⟩]) (b.resume p v r) v.now) : P cs n t := by
  generalize hn : n = m at h ⊢
  induction h generalizing n with
  | enter v => exact enter v
  | resume v _ hle hallows ih => exact resume _ _ _ v _ (ih rfl) hle hallows

/-- A session and the trace of its block. -/
inductive Stands (ops : Ops ω ρ ε) (b : Body π ω ρ ε) (s : State π ω ρ ε ν) : Prop
  | opening : s.stage = .opening → s.opens = 0 → s.closes = 0 → s.calls = [] → Stands ops b s
  | inside {p : π} {since : ℚ} : s.stage = .inside p since → s.opens = 1 → s.closes = 0 →
      since ≤ s.now → Trace ops b s.calls (.awaits p) since → Stands ops b s
  | closing {exit : Exit ε} {t : ℚ} : s.stage = .closing exit → s.opens = 1 → s.closes = 1 →
      t ≤ s.now → Trace ops b s.calls (.leaves exit) t → Stands ops b s
  | unopened {exit : Exit ε} : s.stage = .ended exit → exit ≠ .normally → s.opens = 0 →
      s.closes = 0 → s.calls = [] → Stands ops b s
  | ended {exit left : Exit ε} {t : ℚ} : s.stage = .ended exit → (exit = .normally → left = exit) →
      s.opens = 1 → s.closes = 1 → t ≤ s.now → Trace ops b s.calls (.leaves left) t →
      Stands ops b s

/-- The code has run from now on to `n`. -/
theorem Stands.goes {n : Next π ε} (htrace : Trace ops b s.calls n s.now) (hopens : s.opens = 1)
    (hcloses : s.closes = 0) : Stands ops b (s.goes ops b n) := by
  cases n with
  | awaits p => exact .inside rfl hopens hcloses le_rfl htrace
  | leaves exit => exact .closing rfl hopens (congrArg Nat.succ hcloses) le_rfl htrace

/-- A session that has ended stays so. -/
theorem step_ended {e : Event ρ ε ν} {exit : Exit ε} (hended : s.stage = .ended exit)
    (hstep : s.step ops b e = some s') : s'.stage = .ended exit := by
  cases stepped hstep with
  | opened hstage | unopened hstage | went hstage | closed hstage | unclosed hstage =>
    cases hended.symm.trans hstage
  | dropped | arrived | advanced => exact hended

/-- What happens around the block leaves the trace as it is. -/
theorem Stands.aside (h : Stands ops b s) (hstage : s'.stage = s.stage)
    (hopens : s'.opens = s.opens) (hcloses : s'.closes = s.closes) (hcalls : s'.calls = s.calls)
    (hnow : s.now ≤ s'.now) : Stands ops b s' := by
  cases h with
  | opening h1 h2 h3 h4 =>
    exact .opening (hstage.trans h1) (hopens.trans h2) (hcloses.trans h3) (hcalls.trans h4)
  | inside h1 h2 h3 h4 h5 =>
    exact .inside (hstage.trans h1) (hopens.trans h2) (hcloses.trans h3) (h4.trans hnow)
      (hcalls ▸ h5)
  | closing h1 h2 h3 h4 h5 =>
    exact .closing (hstage.trans h1) (hopens.trans h2) (hcloses.trans h3) (h4.trans hnow)
      (hcalls ▸ h5)
  | unopened h1 hexit h2 h3 h4 =>
    exact .unopened (hstage.trans h1) hexit (hopens.trans h2) (hcloses.trans h3) (hcalls.trans h4)
  | ended h1 hexit h2 h3 h4 h5 =>
    exact .ended (hstage.trans h1) hexit (hopens.trans h2) (hcloses.trans h3) (h4.trans hnow)
      (hcalls ▸ h5)

theorem Stands.step (h : Stands ops b s) {e : Event ρ ε ν} (hstep : s.step ops b e = some s') :
    Stands ops b s' := by
  cases stepped hstep with
  | @opened x fault hstage =>
    cases h with
    | opening _ hopens hcloses hcalls =>
      have hnone : s.opened.calls = [] := hcalls
      exact .goes (hnone ▸ .enter (s.opened.view fault)) (congrArg Nat.succ hopens) hcloses
    | inside h1 | closing h1 | unopened h1 | ended h1 => cases hstage.symm.trans h1
  | unopened hstage hexit =>
    cases h with
    | opening _ hopens hcloses hcalls => exact .unopened rfl hexit hopens hcloses hcalls
    | inside h1 | closing h1 | unopened h1 | ended h1 => cases hstage.symm.trans h1
  | @went p since r fault hstage hallows =>
    cases h with
    | inside h1 hopens hcloses hle htrace =>
      cases hstage.symm.trans h1
      exact .goes (.resume (s.view fault) htrace hle hallows) hopens hcloses
    | opening h1 | closing h1 | unopened h1 | ended h1 => cases hstage.symm.trans h1
  | closed hstage =>
    cases h with
    | closing h1 hopens hcloses hle htrace =>
      cases hstage.symm.trans h1
      exact .ended rfl (fun _ => rfl) hopens hcloses hle htrace
    | opening h1 | inside h1 | unopened h1 | ended h1 => cases hstage.symm.trans h1
  | unclosed hstage hexit =>
    cases h with
    | closing h1 hopens hcloses hle htrace =>
      exact .ended rfl (fun hnormal => absurd hnormal hexit) hopens hcloses hle htrace
    | opening h1 | inside h1 | unopened h1 | ended h1 => cases hstage.symm.trans h1
  | dropped | arrived => exact h.aside rfl rfl rfl rfl le_rfl
  | advanced hdt => exact h.aside rfl rfl rfl rfl (le_add_of_nonneg_right hdt)

/-! ## Runs -/

/-- The messages so far are in order, and there are none while the block does not listen. -/
structure Heard (s : State π ω ρ ε ν) : Prop where
  sorted : s.arrivals.Pairwise fun a a' => a.1 ≤ a'.1
  past : ∀ a ∈ s.arrivals, a.1 ≤ s.now
  listening : s.listening = false → s.arrivals = []

theorem Heard.aside (h : Heard s) (harrivals : s'.arrivals = s.arrivals) (hnow : s.now ≤ s'.now)
    (hlistening : s.listening = true → s'.listening = true) : Heard s' := by
  refine ⟨harrivals ▸ h.sorted, fun a ha => (h.past a (harrivals ▸ ha)).trans hnow, fun hnot => ?_⟩
  rw [harrivals]
  refine h.listening (Bool.eq_false_iff.mpr fun hwas => ?_)
  rw [hlistening hwas] at hnot
  cases hnot

theorem Heard.goes (h : Heard s) (n : Next π ε) : Heard (s.goes ops b n) := by
  cases n with
  | awaits p => exact h.aside rfl le_rfl fun hwas => by simp [State.goes, hwas]
  | leaves exit => exact h.aside rfl le_rfl id

theorem Heard.step (h : Heard s) {e : Event ρ ε ν} (hstep : s.step ops b e = some s') :
    Heard s' := by
  cases stepped hstep with
  | opened =>
    have hopened : Heard s.opened := h.aside rfl le_rfl id
    exact hopened.goes _
  | @went p since r =>
    have hcame : Heard (s.came ⟨b.op p, since, s.now, s.linked, r⟩) := h.aside rfl le_rfl id
    exact hcame.goes _
  | unopened | closed | unclosed | dropped => exact h.aside rfl le_rfl id
  | advanced hdt => exact h.aside rfl (le_add_of_nonneg_right hdt) id
  | arrived hlistening =>
    refine ⟨List.pairwise_append.mpr ⟨h.sorted, List.pairwise_singleton .., fun a ha a' ha' => ?_⟩,
      fun a ha => ?_, fun hnot => ?_⟩
    · rw [List.mem_singleton.mp ha']
      exact h.past a ha
    · rcases List.mem_append.mp ha with hold | hnew
      · exact h.past a hold
      · rw [List.mem_singleton.mp hnew]
    · cases hlistening.symm.trans hnot

/-- The time that passes with an event. -/
def Event.elapsed : Event ρ ε ν → ℚ
  | .advance dt => dt
  | .reply _ _ | .drop | .arrive _ => 0

def Event.message? : Event ρ ε ν → Option ν
  | .arrive x => some x
  | .reply _ _ | .drop | .advance _ => none

@[simp] theorem goes_now (n : Next π ε) : (s.goes ops b n).now = s.now := by
  cases n <;> rfl

@[simp] theorem goes_arrivals (n : Next π ε) : (s.goes ops b n).arrivals = s.arrivals := by
  cases n <;> rfl

/-- A message is recorded with its time, and nothing else is recorded or lost. -/
theorem step_records {e : Event ρ ε ν} (hstep : s.step ops b e = some s') :
    s'.now = s.now + e.elapsed ∧
      s'.arrivals = s.arrivals ++ (e.message?.map fun x => (s.now, x)).toList := by
  cases stepped hstep with
  | opened | went | unopened | closed | unclosed | dropped =>
    simp [State.opened, State.came, State.ends, Event.elapsed, Event.message?]
  | arrived => exact ⟨(add_zero _).symm, rfl⟩
  | advanced => exact ⟨rfl, (List.append_nil _).symm⟩

section
variable {now : ℚ} {ok : State π ω ρ ε ν → Event ρ ε ν → Prop}

/-- The calls of a session are a trace of its block. -/
theorem run_stands (h : Reaches (State.step ops b) ok (State.start now) s) : Stands ops b s :=
  h.invariant (.opening rfl rfl rfl rfl) fun _ _ _ ha _ hstep => ha.step hstep

theorem run_heard (h : Reaches (State.step ops b) ok (State.start now) s) : Heard s :=
  h.invariant ⟨.nil, fun _ ha => (List.not_mem_nil ha).elim, fun _ => rfl⟩
    fun _ _ _ ha _ hstep => ha.step hstep

/-- The client is closed once the block is left, and not before, and it was opened but once. -/
theorem Stands.balance (h : Stands ops b s) : s.closes ≤ s.opens ∧ s.opens ≤ 1 ∧
    (s.hasEnded = true → s.opens = s.closes) := by
  cases h <;> simp_all [State.hasEnded]

/-- The calls are always some part of a trace. -/
theorem Stands.calls (h : Stands ops b s) :
    s.calls = [] ∨ ∃ n t, t ≤ s.now ∧ Trace ops b s.calls n t := by
  cases h with
  | opening _ _ _ hcalls => exact .inl hcalls
  | inside _ _ _ hle htrace => exact .inr ⟨_, _, hle, htrace⟩
  | closing _ _ _ hle htrace => exact .inr ⟨_, _, hle, htrace⟩
  | unopened _ _ _ _ hcalls => exact .inl hcalls
  | ended _ _ _ _ hle htrace => exact .inr ⟨_, _, hle, htrace⟩

/-- A session that has ended normally has left its block so, and closed its client. -/
theorem Stands.left_normally (h : Stands ops b s) (hended : s.stage = .ended .normally) :
    s.opens = 1 ∧ s.closes = 1 ∧ ∃ t ≤ s.now, Trace ops b s.calls (.leaves .normally) t := by
  cases h with
  | opening hstage | inside hstage | closing hstage => cases hended.symm.trans hstage
  | unopened hstage hexit =>
    cases hended.symm.trans hstage
    exact absurd rfl hexit
  | ended hstage hleft hopens hcloses hle htrace =>
    cases hended.symm.trans hstage
    exact ⟨hopens, hcloses, _, hle, hleft rfl ▸ htrace⟩

end

/-! ## The end -/

/-- A bound on the replies that are left, from one for the pieces of code of the block. -/
def State.turnsLeft (rank : Next π ε → ℕ) (n : ℕ) (s : State π ω ρ ε ν) : ℕ :=
  match s.stage with
  | .opening => n + 2
  | .inside p _ => rank (.awaits p) + 1
  | .closing _ => 1
  | .ended _ => 0

def Event.isReply : Event ρ ε ν → Bool
  | .reply _ _ => true
  | .drop | .arrive _ | .advance _ => false

theorem goes_turns {rank : Next π ε → ℕ} {n : ℕ} {next : Next π ε} {k : ℕ} (h : rank next ≤ k) :
    (s.goes ops b next).turnsLeft rank n ≤ k + 1 := by
  cases next with
  | awaits p => exact Nat.succ_le_succ h
  | leaves exit => exact Nat.succ_le_succ (Nat.zero_le k)

/-- Every reply uses up a turn. -/
theorem step_turns {rank : Next π ε → ℕ} {n : ℕ} (enter : ∀ v, rank (b.enter v) ≤ n)
    (resume : ∀ p v r, rank (b.resume p v r) < rank (.awaits p)) {e : Event ρ ε ν}
    (hstep : s.step ops b e = some s') :
    s'.turnsLeft rank n + e.isReply.toNat ≤ s.turnsLeft rank n := by
  cases stepped hstep with
  | opened hstage =>
    simp only [State.turnsLeft, hstage]
    exact Nat.succ_le_succ (goes_turns (enter _))
  | unopened hstage =>
    simp only [State.turnsLeft, hstage]
    exact Nat.le_add_left 1 _
  | @went p since r fault hstage =>
    have hspent := resume p (s.view fault) r
    simp only [State.turnsLeft, hstage]
    refine Nat.succ_le_succ ((goes_turns (Nat.le_sub_one_of_lt hspent)).trans ?_)
    exact (Nat.sub_add_cancel (Nat.one_le_of_lt hspent)).le
  | closed hstage | unclosed hstage =>
    simp only [State.turnsLeft, hstage]
    exact le_rfl
  | dropped | arrived | advanced => exact le_rfl

/-- While the session has not ended, what it awaits can return, if need be once time has passed. -/
theorem goes_on (ops : Ops ω ρ ε) (b : Body π ω ρ ε) (r : ρ)
    (admits : ∀ op, ops.admits op (.returns r) = true) (hended : s.hasEnded = false) :
    ∃ dt, 0 ≤ dt ∧ ∃ s', run (State.step ops b) s [.advance dt, .reply (.returns r) none] =
      some s' := by
  cases hstage : s.stage with
  | opening => exact ⟨0, le_rfl, by simp [run, State.step, State.reply, hstage]⟩
  | inside p since =>
    refine ⟨max 0 (since + ops.lasts (b.op p) - s.now), le_max_left .., ?_⟩
    have hdue : since + ops.lasts (b.op p) ≤
        s.now + max 0 (since + ops.lasts (b.op p) - s.now) := by
      linarith [le_max_right 0 (since + ops.lasts (b.op p) - s.now)]
    simp [run, State.step, State.reply, hstage, Ops.allows, admits, hdue]
  | closing exit => exact ⟨0, le_rfl, by simp [run, State.step, State.reply, hstage]⟩
  | ended exit => simp [State.hasEnded, hstage] at hended

end

end Session
