import Mathlib.Data.List.Basic
import GoveeH5086.Library.Runs

/-!
# Components one after another

A loop goes through a list and runs one component for each item, the next one once the last is over.
A component that is not over when it has ended stops the loop.

1. `step`, `run_order`: every item has its turn, in the order of the list.
2. `run_parts`: what was run was reached by its component alone.
3. `run_exclusive`: what no component holds once it has passed, at most one of them holds.
4. `run_turns`: the loop takes as many turns as its components do.
-/

namespace Rounds
open Runs

variable {δ σ ε τ : Type*}

/-- The component of an item, from the time at which its turn comes. -/
structure Loop (δ σ ε τ : Type*) where
  start : δ → τ → σ
  step : δ → σ → ε → Option σ
  passed : σ → Bool
  clock : σ → τ

structure State (δ σ : Type*) where
  finished : List (δ × σ)
  current : Option (δ × σ)
  queue : List δ
deriving DecidableEq, Repr

inductive Event (ε : Type*)
  | one (e : ε)
  | next
deriving DecidableEq, Repr

/-- The loop reaches the next item. -/
def turn (loop : Loop δ σ ε τ) (finished : List (δ × σ)) (now : τ) : List δ → State δ σ
  | [] => ⟨finished, none, []⟩
  | d :: ds => ⟨finished, some (d, loop.start d now), ds⟩

/-- The effect of an event, when it can happen. -/
def step (loop : Loop δ σ ε τ) (m : State δ σ) : Event ε → Option (State δ σ)
  | .one e => m.current.bind fun p => (loop.step p.1 p.2 e).map fun s =>
      { m with current := some (p.1, s) }
  | .next => m.current.bind fun p =>
      if loop.passed p.2 then some (turn loop (m.finished ++ [p]) (loop.clock p.2) m.queue) else none

variable {loop : Loop δ σ ε τ} {m m' : State δ σ} {ds : List δ}

/-- All items, those whose turn has come first. -/
def State.items (m : State δ σ) : List δ :=
  m.finished.map Prod.fst ++ (m.current.map Prod.fst).toList ++ m.queue

/-- Every component was reached from its start, those that are behind are over, and the loop ends
only when none is left. -/
structure Parts (loop : Loop δ σ ε τ) (m : State δ σ) : Prop where
  finished : ∀ p ∈ m.finished, loop.passed p.2 = true ∧
    ∃ now, Reaches (loop.step p.1) Free (loop.start p.1 now) p.2
  current : ∀ p, m.current = some p → ∃ now, Reaches (loop.step p.1) Free (loop.start p.1 now) p.2
  idle : m.current = none → m.queue = []

theorem turn_items (finished : List (δ × σ)) (now : τ) (ds : List δ) :
    (turn loop finished now ds).items = finished.map Prod.fst ++ ds := by
  cases ds <;> simp [turn, State.items]

theorem turn_parts {finished : List (δ × σ)} (h : ∀ p ∈ finished, loop.passed p.2 = true ∧
    ∃ now, Reaches (loop.step p.1) Free (loop.start p.1 now) p.2) (now : τ) (ds : List δ) :
    Parts loop (turn loop finished now ds) := by
  cases ds with
  | nil => exact ⟨h, nofun, fun _ => rfl⟩
  | cons d ds =>
    refine ⟨h, fun p hp => ?_, fun hnone => by cases hnone⟩
    cases hp
    exact ⟨now, .refl⟩

/-- What an event does: one component goes on, or the loop does. -/
theorem step_cases {e : Event ε} (h : step loop m e = some m') :
    (∃ p s e', m.current = some p ∧ loop.step p.1 p.2 e' = some s ∧ e = .one e' ∧
      m' = { m with current := some (p.1, s) }) ∨
    ∃ p, m.current = some p ∧ loop.passed p.2 = true ∧ e = .next ∧
      m' = turn loop (m.finished ++ [p]) (loop.clock p.2) m.queue := by
  cases e with
  | one e' =>
    obtain ⟨p, hp, hmap⟩ := Option.bind_eq_some_iff.mp h
    obtain ⟨s, hs, rfl⟩ := Option.map_eq_some_iff.mp hmap
    exact .inl ⟨p, s, e', hp, hs, rfl, rfl⟩
  | next =>
    obtain ⟨p, hp, hite⟩ := Option.bind_eq_some_iff.mp h
    obtain ⟨hpassed, heq⟩ := Option.ite_none_right_eq_some.mp hite
    exact .inr ⟨p, hp, hpassed, rfl, (Option.some.inj heq).symm⟩

theorem step_items {e : Event ε} (h : step loop m e = some m') : m'.items = m.items := by
  rcases step_cases h with ⟨p, s, -, hp, -, -, rfl⟩ | ⟨p, hp, -, -, rfl⟩
  · simp [State.items, hp]
  · rw [turn_items]
    simp [State.items, hp]

theorem Parts.step (hparts : Parts loop m) {e : Event ε} (h : Rounds.step loop m e = some m') :
    Parts loop m' := by
  rcases step_cases h with ⟨p, s, e', hp, hs, -, rfl⟩ | ⟨p, hp, hpassed, -, rfl⟩
  · refine ⟨hparts.finished, fun q hq => ?_, fun hnone => by cases hnone⟩
    cases hq
    obtain ⟨now, hreach⟩ := hparts.current p hp
    exact ⟨now, hreach.tail trivial hs⟩
  · refine turn_parts (fun q hq => ?_) _ _
    rcases List.mem_append.mp hq with hold | hnew
    · exact hparts.finished q hold
    · cases List.mem_singleton.mp hnew
      exact ⟨hpassed, hparts.current p hp⟩

/-! ## Runs -/

/-- The items keep their order, whatever the components run into. -/
theorem run_order {now : τ} (h : Reaches (step loop) Free (turn loop [] now ds) m) :
    m.items = ds :=
  h.invariant (turn_items [] now ds) fun _ _ _ ha _ hstep => (step_items hstep).trans ha

theorem run_parts {now : τ} (h : Reaches (step loop) Free (turn loop [] now ds) m) :
    Parts loop m :=
  h.invariant (turn_parts (fun _ hp => (List.not_mem_nil hp).elim) now ds)
    fun _ _ _ ha _ hstep => ha.step hstep

/-- When the loop has ended, every item has had its turn. -/
theorem run_complete {now : τ} (h : Reaches (step loop) Free (turn loop [] now ds) m)
    (hnone : m.current = none) : m.finished.map Prod.fst = ds := by
  rw [← run_order h, State.items, hnone, (run_parts h).idle hnone]
  simp

/-- If no component that has passed holds something, at most one of all components does. -/
theorem run_exclusive (holds : σ → Bool) {now : τ}
    (h : Reaches (step loop) Free (turn loop [] now ds) m)
    (released : ∀ d t s, Reaches (loop.step d) Free (loop.start d t) s → loop.passed s = true →
      holds s = false) :
    (m.finished ++ m.current.toList).countP (fun p => holds p.2) ≤ 1 := by
  have hparts := run_parts h
  have hfinished : m.finished.countP (fun p => holds p.2) = 0 := by
    refine List.countP_eq_zero.mpr fun p hp => ?_
    obtain ⟨hpassed, t, hreach⟩ := hparts.finished p hp
    rw [released p.1 t p.2 hreach hpassed]
    exact Bool.false_ne_true
  rw [List.countP_append, hfinished, Nat.zero_add]
  refine Nat.le_trans List.countP_le_length ?_
  cases m.current <;> simp

/-! ## The end -/

/-- A bound on the turns that are left, if no component takes more than `n`. -/
def State.turnsLeft (rank : δ → σ → ℕ) (n : ℕ) (m : State δ σ) : ℕ :=
  (m.current.map fun p => rank p.1 p.2).getD 0 + n * m.queue.length

def Event.isTurn (turn : ε → Bool) : Event ε → Bool
  | .one e => turn e
  | .next => false

theorem turn_turnsLeft {rank : δ → σ → ℕ} {n : ℕ}
    (hstart : ∀ d ∈ ds, ∀ t, rank d (loop.start d t) ≤ n) (finished : List (δ × σ)) (now : τ) :
    (turn loop finished now ds).turnsLeft rank n ≤ n * ds.length := by
  cases ds with
  | nil => exact Nat.le_refl _
  | cons d ds =>
    rw [List.length_cons, Nat.mul_succ, Nat.add_comm]
    exact Nat.add_le_add_right (hstart d List.mem_cons_self now) _

/-- If a component takes at most `n` turns, the loop takes at most `n` for each item. -/
theorem run_turns (rank : δ → σ → ℕ) (n : ℕ) (turns : ε → Bool)
    (hstart : ∀ d ∈ ds, ∀ t, rank d (loop.start d t) ≤ n)
    (hstep : ∀ d ∈ ds, ∀ s e s', loop.step d s e = some s' →
      rank d s' + (turns e).toNat ≤ rank d s)
    {now : τ} {es : List (Event ε)} (h : run (step loop) (turn loop [] now ds) es = some m) :
    m.turnsLeft rank n + es.countP (Event.isTurn turns) ≤ n * ds.length := by
  have spent : ∀ a e b, State.items a = ds → step loop a e = some b →
      b.items = ds ∧ b.turnsLeft rank n + (e.isTurn turns).toNat ≤ a.turnsLeft rank n := by
    intro a e b ha h
    refine ⟨(step_items h).trans ha, ?_⟩
    rcases step_cases h with ⟨p, s, e', hp, hs, rfl, rfl⟩ | ⟨p, hp, -, rfl, rfl⟩
    · have hmem : p.1 ∈ ds := by simp [← ha, State.items, hp]
      have hone := hstep p.1 hmem p.2 e' s hs
      simp only [State.turnsLeft, hp, Option.map_some, Option.getD_some, Event.isTurn]
      omega
    · have hqueue : ∀ d ∈ a.queue, d ∈ ds := fun d hd => by simp [← ha, State.items, hd]
      exact Nat.le_trans (turn_turnsLeft (fun d hd => hstart d (hqueue d hd)) _ _)
        (Nat.le_add_left _ _)
  exact Nat.le_trans (turns_bounded (Event.isTurn turns) _ spent (turn_items [] now ds) h).2
    (turn_turnsLeft hstart [] now)

end Rounds
