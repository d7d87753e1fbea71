import Mathlib.Data.Nat.Notation
import Mathlib.Data.Option.Basic

/-!
# Runs of an event-driven system

A system is a partial step function `step s e`: the state after event `e`, when `e` can happen in
`s`. A run may be restricted by an assumption `ok` on the event and the state in which it happens.

1. `Reaches.invariant`: a property of the start that every allowed step preserves holds in every
   state reached.
2. `Reaches.relates`: a preorder that every allowed step respects relates the start to every state
   reached.
3. `Reaches.simulates`: a step-by-step simulation carries whole runs over.
4. `reaches_of_run`, `reaches_outcome`: a run computed from a list of events is a run.
5. `last_seen`: what every event writes or leaves alone is what was written last.
6. `turns_paid`, `turns_bounded`: a rank that turns use up bounds the turns of a run.
-/

namespace Runs

variable {σ ε : Type*}

/-- `Reaches step ok s t`: some events, each allowed by `ok` where it happens, lead from `s` to
`t`. -/
inductive Reaches (step : σ → ε → Option σ) (ok : σ → ε → Prop) (s : σ) : σ → Prop
  | refl : Reaches step ok s s
  | tail {t u : σ} {e : ε} : Reaches step ok s t → ok t e → step t e = some u →
      Reaches step ok s u

/-- No assumption on the events. -/
def Free (_ : σ) (_ : ε) : Prop := True

variable {step : σ → ε → Option σ} {ok : σ → ε → Prop} {s t u : σ}

namespace Reaches

theorem trans (h : Reaches step ok s t) (h' : Reaches step ok t u) : Reaches step ok s u := by
  induction h' with
  | refl => exact h
  | tail _ hok hstep ih => exact ih.tail hok hstep

theorem single {e : ε} (hok : ok s e) (hstep : step s e = some t) : Reaches step ok s t :=
  refl.tail hok hstep

/-- The invariant rule. -/
theorem invariant {P : σ → Prop} (h : Reaches step ok s t) (start : P s)
    (preserved : ∀ a e b, P a → ok a e → step a e = some b → P b) : P t := by
  induction h with
  | refl => exact start
  | tail _ hok hstep ih => exact preserved _ _ _ ih hok hstep

/-- The invariant rule for a preorder between the states of a run. -/
theorem relates {R : σ → σ → Prop} (h : Reaches step ok s t) (start : ∀ a, R a a)
    (compose : ∀ a b c, R a b → R b c → R a c)
    (respected : ∀ a e b, ok a e → step a e = some b → R a b) : R s t := by
  induction h with
  | refl => exact start s
  | tail _ hok hstep ih => exact compose _ _ _ ih (respected _ _ _ hok hstep)

/-- If `R` relates the starts and every allowed step of the first system is answered by a run of
the second, then `R` relates every state reached to some state reached. -/
theorem simulates {σ' ε' : Type*} {step' : σ' → ε' → Option σ'} {okA : σ' → ε' → Prop}
    {R : σ → σ' → Prop} {s' : σ'} (h : Reaches step ok s t) (start : R s s')
    (answer : ∀ a a' e b, R a a' → ok a e → step a e = some b →
      ∃ b', Reaches step' okA a' b' ∧ R b b') :
    ∃ t', Reaches step' okA s' t' ∧ R t t' := by
  induction h with
  | refl => exact ⟨s', refl, start⟩
  | tail _ hok hstep ih =>
    obtain ⟨a', hreach, hR⟩ := ih
    obtain ⟨b', hreach', hR'⟩ := answer _ _ _ _ hR hok hstep
    exact ⟨b', hreach.trans hreach', hR'⟩

end Reaches

/-- The state after a list of events. -/
def run (step : σ → ε → Option σ) : σ → List ε → Option σ
  | s, [] => some s
  | s, e :: es => (step s e).bind fun t => run step t es

/-- The system that checks the assumption at every step. -/
def guarded (step : σ → ε → Option σ) (ok : σ → ε → Bool) (s : σ) (e : ε) : Option σ :=
  if ok s e then step s e else none

/-- The state after a list of events that can all happen. -/
def outcome (step : σ → ε → Option σ) (s : σ) (es : List ε) : σ := (run step s es).getD s

theorem reaches_of_run {okB : σ → ε → Bool} {es : List ε}
    (h : run (guarded step okB) s es = some t) (sound : ∀ a e, okB a e = true → ok a e) :
    Reaches step ok s t := by
  induction es generalizing s with
  | nil =>
    cases h
    exact .refl
  | cons e es ih =>
    obtain ⟨m, hstep, hrest⟩ := Option.bind_eq_some_iff.mp h
    unfold guarded at hstep
    split at hstep
    · next hok => exact (Reaches.single (sound _ _ hok) hstep).trans (ih hrest)
    · cases hstep

theorem reaches_outcome {okB : σ → ε → Bool} {es : List ε}
    (h : (run (guarded step okB) s es).isSome = true) (sound : ∀ a e, okB a e = true → ok a e) :
    Reaches step ok s (outcome (guarded step okB) s es) := by
  obtain ⟨t, ht⟩ := Option.isSome_iff_exists.mp h
  rw [outcome, ht]
  exact reaches_of_run ht sound

theorem reaches_free {es : List ε} (h : run step s es = some t) : Reaches step Free s t := by
  have hall : guarded step (fun _ _ => true) = step := by
    funext a e
    rfl
  rw [← hall] at h
  exact reaches_of_run h fun _ _ _ => trivial

theorem run_concat {e : ε} (es : List ε) :
    run step s (es ++ [e]) = (run step s es).bind fun t => step t e := by
  induction es generalizing s with
  | nil => simp [run]
  | cons e' es ih => simp [run, ih, Option.bind_assoc]

/-- What `view` sees of the events of a run, each in the state in which it happens. -/
def seen {β : Type*} (step : σ → ε → Option σ) (view : σ → ε → Option β) : σ → List ε → List β
  | _, [] => []
  | s, e :: es => (view s e).toList ++ ((step s e).map fun t => seen step view t es).getD []

/-- If an event either writes what is seen of it or leaves the register alone, the register holds
what was seen last. -/
theorem last_seen {β : Type*} {view : σ → ε → Option β} (register : σ → Option β)
    (written : ∀ a e b, step a e = some b → register b = (view a e).or (register a)) {es : List ε}
    (h : run step s es = some t) :
    register t = (seen step view s es).getLast?.or (register s) := by
  induction es generalizing s with
  | nil =>
    cases h
    rfl
  | cons e es ih =>
    obtain ⟨m, hstep, hrest⟩ := Option.bind_eq_some_iff.mp h
    have hlast : (view s e).toList.getLast? = view s e := by cases view s e <;> rfl
    rw [ih hrest, written s e m hstep, seen, hstep, Option.map_some, Option.getD_some,
      List.getLast?_append, hlast, Option.or_assoc]

/-- The events that `turn` picks use up `rank`, those that `arrival` picks bring at most `k` more, and
no other event renews it. -/
theorem turns_paid {P : σ → Prop} (turn arrival : ε → Bool) (k : ℕ) (rank : σ → ℕ)
    (spent : ∀ a e b, P a → step a e = some b →
      P b ∧ rank b + (turn e).toNat ≤ rank a + k * (arrival e).toNat)
    {es : List ε} (start : P s) (h : run step s es = some t) :
    P t ∧ rank t + es.countP turn ≤ rank s + k * es.countP arrival := by
  induction es generalizing s with
  | nil =>
    cases h
    exact ⟨start, Nat.le_refl _⟩
  | cons e es ih =>
    obtain ⟨m, hstep, hrest⟩ := Option.bind_eq_some_iff.mp h
    obtain ⟨hm, hle⟩ := spent s e m start hstep
    obtain ⟨ht, hcount⟩ := ih hm hrest
    have hturns : (e :: es).countP turn = es.countP turn + (turn e).toNat := by
      rw [List.countP_cons]
      cases turn e <;> rfl
    have harrivals : (e :: es).countP arrival = es.countP arrival + (arrival e).toNat := by
      rw [List.countP_cons]
      cases arrival e <;> rfl
    refine ⟨ht, ?_⟩
    rw [hturns, harrivals, Nat.mul_add]
    omega

/-- The events that `turn` picks use up `rank`, and no event renews it. -/
theorem turns_bounded {P : σ → Prop} (turn : ε → Bool) (rank : σ → ℕ)
    (spent : ∀ a e b, P a → step a e = some b → P b ∧ rank b + (turn e).toNat ≤ rank a)
    {es : List ε} (start : P s) (h : run step s es = some t) :
    P t ∧ rank t + es.countP turn ≤ rank s := by
  have hpaid := turns_paid turn turn 0 rank (fun a e b ha hstep => by
    rw [Nat.zero_mul]
    exact spent a e b ha hstep) start h
  rwa [Nat.zero_mul] at hpaid

end Runs
