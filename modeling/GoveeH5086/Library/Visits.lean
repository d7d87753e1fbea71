import GoveeH5086.Library.Rounds
import GoveeH5086.Library.Session

/-!
# One client after another

A loop opens a session for each item of a list, waits until it has ended, and goes on to the next
item. What a session raised is caught around it; its cancellation stops the loop.

1. `run_visits`: every item has its session, in the order of the list, whatever becomes of the
   others, and at most one client is open at a time.
2. `run_turns`, `goes_on`: the loop comes to its end.
-/

namespace Visits
open Runs

variable {δ π ω ρ ε ν : Type*}

abbrev State (δ π ω ρ ε ν : Type*) := Rounds.State δ (Session.State π ω ρ ε ν)

abbrev Event (ρ ε ν : Type*) := Rounds.Event (Session.Event ρ ε ν)

/-- The session is over, and was not cancelled. -/
def returned (s : Session.State π ω ρ ε ν) : Bool :=
  match s.stage with
  | .ended .normally | .ended (.raised _) => true
  | .ended .cancelled | .opening | .inside _ _ | .closing _ => false

/-- The session has a client that is not closed. -/
def held (s : Session.State π ω ρ ε ν) : Bool := s.opens ≠ s.closes

/-- `for item in items: try: async with ..: .. except Exception: ..` -/
def loop (ops : Session.Ops ω ρ ε) (body : δ → Session.Body π ω ρ ε) :
    Rounds.Loop δ (Session.State π ω ρ ε ν) (Session.Event ρ ε ν) ℚ where
  start _ now := Session.State.start now
  step d := Session.State.step ops (body d)
  passed := returned
  clock s := s.now

def start (ops : Session.Ops ω ρ ε) (body : δ → Session.Body π ω ρ ε) (now : ℚ) (ds : List δ) :
    State δ π ω ρ ε ν :=
  Rounds.turn (loop ops body) [] now ds

def step (ops : Session.Ops ω ρ ε) (body : δ → Session.Body π ω ρ ε) :
    State δ π ω ρ ε ν → Event ρ ε ν → Option (State δ π ω ρ ε ν) :=
  Rounds.step (loop ops body)

/-- The sessions so far, the current one last. -/
def sessions (m : State δ π ω ρ ε ν) : List (δ × Session.State π ω ρ ε ν) :=
  m.finished ++ m.current.toList

variable {ops : Session.Ops ω ρ ε} {body : δ → Session.Body π ω ρ ε} {ds : List δ} {now : ℚ}
  {m : State δ π ω ρ ε ν}

theorem hasEnded_of_returned {s : Session.State π ω ρ ε ν} (h : returned s = true) :
    s.hasEnded = true := by
  unfold returned at h
  unfold Session.State.hasEnded
  split at h
  · next hstage => rw [hstage]
  · next hstage => rw [hstage]
  all_goals cases h

theorem held_of_returned {b : Session.Body π ω ρ ε} {s : Session.State π ω ρ ε ν} {t : ℚ}
    (h : Reaches (Session.State.step ops b) Free (Session.State.start t) s)
    (hreturned : returned s = true) : held s = false := by
  simp [held, (Session.run_stands h).balance.2.2 (hasEnded_of_returned hreturned)]

/-- What a run of the loop has come to. -/
structure Stands (ops : Session.Ops ω ρ ε) (body : δ → Session.Body π ω ρ ε) (ds : List δ)
    (m : State δ π ω ρ ε ν) : Prop where
  items : m.items = ds
  complete : m.current = none → m.finished.map Prod.fst = ds
  exclusive : (sessions m).countP (fun p => held p.2) ≤ 1
  finished : ∀ p ∈ m.finished, returned p.2 = true ∧ p.2.opens = p.2.closes
  reached : ∀ p ∈ sessions m,
    ∃ t, Reaches (Session.State.step ops (body p.1)) Free (Session.State.start t) p.2

theorem run_visits (h : Reaches (step ops body) Free (start ops body now ds) m) :
    Stands ops body ds m := by
  have hparts := Rounds.run_parts h
  refine ⟨Rounds.run_order h, Rounds.run_complete h, Rounds.run_exclusive held h fun d t s => held_of_returned,
    fun p hp => ?_, fun p hp => ?_⟩
  · obtain ⟨hreturned, t, hreach⟩ := hparts.finished p hp
    exact ⟨hreturned, of_not_not (of_decide_eq_false (held_of_returned hreach hreturned))⟩
  · rcases List.mem_append.mp hp with hfinished | hcurrent
    · exact (hparts.finished p hfinished).2
    · exact hparts.current p (Option.mem_toList.mp hcurrent)

/-! ## The end -/

/-- The event is a reply to a session. -/
def isReply : Event ρ ε ν → Bool := Rounds.Event.isTurn Session.Event.isReply

/-- If the code of a session uses up a rank that is at most `n`, it takes at most `n + 2` replies. -/
theorem run_turns {rank : δ → Session.Next π ε → ℕ} {n : ℕ}
    (enter : ∀ d ∈ ds, ∀ v, rank d ((body d).enter v) ≤ n)
    (resume : ∀ d p v r, rank d ((body d).resume p v r) < rank d (.awaits p))
    {es : List (Event ρ ε ν)} (h : run (step ops body) (start ops body now ds) es = some m) :
    es.countP isReply ≤ (n + 2) * ds.length := by
  have hturns := Rounds.run_turns (fun d s => s.turnsLeft (rank d) n) (n + 2) Session.Event.isReply
    (fun _ _ _ => le_rfl)
    (fun d hd _ _ _ hstep => Session.step_turns (enter d hd) (resume d) hstep) h
  exact (Nat.le_add_left _ _).trans hturns

/-- Until the loop has ended, unless it is cancelled, something can come back, if need be once time
has passed, or the next item has its turn. -/
theorem goes_on (r : ρ) (admits : ∀ op, ops.admits op (.returns r) = true) :
    m.current = none ∨ (∃ p, m.current = some p ∧ p.2.stage = .ended .cancelled) ∨
      ∃ dt, 0 ≤ dt ∧ ∃ e m', (e = .next ∨ isReply e = true) ∧
        run (step ops body) m [.one (.advance dt), e] = some m' := by
  cases hcurrent : m.current with
  | none => exact .inl rfl
  | some p =>
    cases hended : p.2.hasEnded with
    | false =>
      obtain ⟨dt, hdt, s', hs'⟩ := Session.goes_on ops (body p.1) r admits hended
      obtain ⟨s₁, hadvance, hrest⟩ := Option.bind_eq_some_iff.mp hs'
      obtain ⟨s₂, hreply, -⟩ := Option.bind_eq_some_iff.mp hrest
      refine .inr (.inr ⟨dt, hdt, .one (.reply (.returns r) none),
        { m with current := some (p.1, s₂) }, .inr rfl, ?_⟩)
      simp [run, step, Rounds.step, hcurrent, loop, hadvance, hreply]
    | true =>
      by_cases hreturned : returned p.2 = true
      · obtain ⟨s, hadvance, hs⟩ : ∃ s, Session.State.step ops (body p.1) p.2 (.advance 0) = some s ∧
            returned s = true := ⟨{ p.2 with now := p.2.now + 0 }, by simp [Session.State.step], hreturned⟩
        refine .inr (.inr ⟨0, le_rfl, .next, Rounds.turn (loop ops body) (m.finished ++ [(p.1, s)]) s.now
          m.queue, .inl rfl, ?_⟩)
        simp [run, step, Rounds.step, hcurrent, loop, hadvance, hs]
      · refine .inr (.inl ⟨p, rfl, ?_⟩)
        unfold Session.State.hasEnded at hended
        unfold returned at hreturned
        split at hended
        · next exit hstage =>
          cases exit with
          | cancelled => exact hstage
          | normally | raised err => simp [hstage] at hreturned
        all_goals cases hended

end Visits
