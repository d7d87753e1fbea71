import Mathlib.Algebra.Order.Field.Basic
import Mathlib.Data.List.Chain
import Mathlib.Tactic.Linarith
import Mathlib.Tactic.Ring
import GoveeH5086.Library.Runs

/-!
# A periodic trigger that skips after a recent success

A trigger comes at every multiple of a period. It starts an attempt, unless the last successful
attempt finished less than a period before. An attempt takes more than no time and less than a
period, so it is over when the next trigger comes.

1. `recent_iff`: a trigger is skipped exactly when the one before it started an attempt that
   succeeded.
2. `attempts_eq`: if every attempt succeeds, every other trigger is skipped.
3. `since`: how far the last success is behind, if no two attempts in a row fail.
-/

namespace Cadence
open Runs

variable {K ρ : Type*}

/-- An attempt: the number of the trigger that started it, how long it took, and its result. -/
structure Attempt (K ρ : Type*) where
  tick : ℕ
  duration : K
  result : Option ρ

/-- The triggers so far, whether an attempt is going on, and the attempts that are over, oldest
first. -/
structure State (K ρ : Type*) where
  ticks : ℕ
  busy : Bool
  done : List (Attempt K ρ)

inductive Event (K ρ : Type*)
  | tick
  | finish (duration : K) (result : Option ρ)

def State.init : State K ρ := ⟨0, false, []⟩

def Attempt.succeeded (a : Attempt K ρ) : Bool := a.result.isSome

def State.lastSuccess (s : State K ρ) : Option (Attempt K ρ) :=
  (s.done.filter Attempt.succeeded).getLast?

/-- How many attempts have been started. -/
def State.attempts (s : State K ρ) : ℕ := s.done.length + s.busy.toNat

/-- The last attempt that is over has failed. -/
def State.Failed (s : State K ρ) : Prop := ∃ a, s.done.getLast? = some a ∧ a.result = none

/-- No two attempts in a row have failed. -/
def NoTwoFailures (l : List (Option ρ)) : Prop :=
  l.IsChain fun x y => x = none → y ≠ none

instance [DecidableEq ρ] (l : List (Option ρ)) : Decidable (NoTwoFailures l) :=
  inferInstanceAs (Decidable (l.IsChain fun x y => x = none → y ≠ none))

section
variable {s : State K ρ}

theorem lastSuccess_mem {a : Attempt K ρ} (h : s.lastSuccess = some a) : a ∈ s.done :=
  (List.mem_filter.mp (List.mem_of_getLast? h)).1

theorem lastSuccess_succeeded {a : Attempt K ρ} (h : s.lastSuccess = some a) : a.result ≠ none :=
  Option.isSome_iff_ne_none.mp (List.mem_filter.mp (List.mem_of_getLast? h)).2

theorem lastSuccess_of_all (h : ∀ a ∈ s.done, a.result ≠ none) :
    s.lastSuccess = s.done.getLast? := by
  have hfilter : s.done.filter Attempt.succeeded = s.done :=
    List.filter_eq_self.mpr fun a ha => Option.isSome_iff_ne_none.mpr (h a ha)
  rw [State.lastSuccess, hfilter]

theorem lastSuccess_concat (l : List (Attempt K ρ)) (n : ℕ) (busy : Bool) (a : Attempt K ρ) :
    (⟨n, busy, l ++ [a]⟩ : State K ρ).lastSuccess =
      if a.succeeded then some a else (⟨n, busy, l⟩ : State K ρ).lastSuccess := by
  unfold State.lastSuccess
  rw [List.filter_append]
  cases h : a.succeeded with
  | true => simp [h]
  | false => simp [h]

end

variable [Field K] [LinearOrder K]

/-- When an attempt was over. -/
def Attempt.finished (period : K) (a : Attempt K ρ) : K := a.tick * period + a.duration

/-- The trigger to come finds a success less than a period old. -/
def State.recent (period : K) (s : State K ρ) : Bool :=
  match s.lastSuccess with
  | none => false
  | some a => decide ((s.ticks + 1) * period - a.finished period < period)

def step (period : K) (s : State K ρ) : Event K ρ → Option (State K ρ)
  | .tick =>
    if s.busy then none else some { s with ticks := s.ticks + 1, busy := !s.recent period }
  | .finish duration result =>
    if s.busy then some ⟨s.ticks, false, s.done ++ [⟨s.ticks, duration, result⟩]⟩ else none

/-- Attempts take more than no time and less than a period. -/
def Timed (period : K) (_ : State K ρ) : Event K ρ → Prop
  | .tick => True
  | .finish duration _ => 0 < duration ∧ duration < period

section
variable {period : K} {s t : State K ρ}

theorem step_tick (h : step period s .tick = some t) :
    s.busy = false ∧ t = { s with ticks := s.ticks + 1, busy := !s.recent period } := by
  simp only [step] at h
  split at h
  · cases h
  · next hbusy =>
    cases h
    exact ⟨Bool.eq_false_iff.mpr hbusy, rfl⟩

theorem step_finish {duration : K} {result : Option ρ}
    (h : step period s (.finish duration result) = some t) :
    s.busy = true ∧ t = ⟨s.ticks, false, s.done ++ [⟨s.ticks, duration, result⟩]⟩ := by
  obtain ⟨hbusy, heq⟩ := Option.ite_none_right_eq_some.mp h
  cases heq
  exact ⟨hbusy, rfl⟩

end

/-! ## When a trigger is skipped -/

/-- Every attempt was started by a trigger that has come, and took its time. -/
structure Sane (period : K) (s : State K ρ) : Prop where
  busy : s.busy = true → 0 < s.ticks
  tick : ∀ a ∈ s.done, 0 < a.tick ∧ a.tick ≤ s.ticks
  duration : ∀ a ∈ s.done, 0 < a.duration ∧ a.duration < period

variable {period : K} {s t : State K ρ} {e : Event K ρ}

theorem Sane.step (h : Sane period s) (htimed : Timed period s e)
    (hstep : step period s e = some t) : Sane period t := by
  cases e with
  | tick =>
    obtain ⟨-, rfl⟩ := step_tick hstep
    refine ⟨fun _ => Nat.succ_pos _, fun a ha => ?_, h.duration⟩
    obtain ⟨hpos, hle⟩ := h.tick a ha
    exact ⟨hpos, Nat.le_succ_of_le hle⟩
  | finish duration result =>
    obtain ⟨hbusy, rfl⟩ := step_finish hstep
    refine ⟨nofun, fun a ha => ?_, fun a ha => ?_⟩
    · rcases List.mem_append.mp ha with hold | hnew
      · exact h.tick a hold
      · rw [List.mem_singleton.mp hnew]
        exact ⟨h.busy hbusy, le_refl _⟩
    · rcases List.mem_append.mp ha with hold | hnew
      · exact h.duration a hold
      · rw [List.mem_singleton.mp hnew]
        exact htimed

theorem Sane.init : Sane period (State.init : State K ρ) := ⟨nofun, nofun, nofun⟩

/-- What is over stays over. -/
theorem step_done (h : step period s e = some t) : s.done <+: t.done := by
  cases e with
  | tick =>
    obtain ⟨-, rfl⟩ := step_tick h
    exact List.prefix_rfl
  | finish duration result =>
    obtain ⟨-, rfl⟩ := step_finish h
    exact List.prefix_append _ _

variable [IsStrictOrderedRing K]

/-- A success is recent exactly when the last trigger started it. -/
theorem recent_iff (h : Sane period s) {a : Attempt K ρ} (ha : s.lastSuccess = some a) :
    s.recent period = true ↔ s.ticks = a.tick := by
  obtain ⟨-, htick⟩ := h.tick a (lastSuccess_mem ha)
  obtain ⟨hpos, hlt⟩ := h.duration a (lastSuccess_mem ha)
  unfold State.recent Attempt.finished
  rw [ha]
  simp only [decide_eq_true_eq]
  constructor
  · intro hrecent
    by_contra hne
    have hlater : a.tick + 1 ≤ s.ticks := Nat.lt_of_le_of_ne htick (Ne.symm hne)
    have hcast : (a.tick : K) + 1 ≤ s.ticks := by exact_mod_cast hlater
    have hperiod : 0 < period := hpos.trans hlt
    have hmul := mul_le_mul_of_nonneg_right hcast hperiod.le
    linarith
  · intro heq
    rw [heq]
    linarith

/-! ## If every attempt succeeds -/

/-- Attempts start at the first trigger and at every other trigger after that. -/
structure Alternating (s : State K ρ) : Prop where
  busy : s.busy = true → s.ticks = 2 * s.done.length + 1
  idle : s.busy = false → s.ticks = 2 * s.done.length ∨ s.ticks + 1 = 2 * s.done.length
  last : ∀ a, s.done.getLast? = some a → a.tick + 1 = 2 * s.done.length

theorem Alternating.step (h : Alternating s) (hsane : Sane period s)
    (hall : ∀ a ∈ t.done, a.result ≠ none) (hstep : step period s e = some t) :
    Alternating t := by
  cases e with
  | tick =>
    obtain ⟨hbusy, rfl⟩ := step_tick hstep
    have hidle := h.idle hbusy
    have hlast : s.lastSuccess = s.done.getLast? := lastSuccess_of_all hall
    cases hdone : s.done.getLast? with
    | none =>
      have hnil : s.done = [] := List.getLast?_eq_none_iff.mp hdone
      have hrecent : s.recent period = false := by
        unfold State.recent
        rw [hlast, hdone]
      rw [hnil] at hidle
      refine ⟨fun _ => ?_, fun hb => ?_, h.last⟩
      · simp only [hnil, List.length_nil] at hidle ⊢
        omega
      · simp [hrecent] at hb
    | some a =>
      have htick := h.last a hdone
      have hrecent := recent_iff hsane (hlast.trans hdone)
      refine ⟨fun hb => ?_, fun hb => ?_, h.last⟩
      · have hnot : ¬ s.ticks = a.tick := by
          rw [← hrecent]
          simpa using hb
        simp only
        omega
      · have heq : s.ticks = a.tick := by
          rw [← hrecent]
          simpa using hb
        simp only
        omega
  | finish duration result =>
    obtain ⟨hbusy, rfl⟩ := step_finish hstep
    have hticks := h.busy hbusy
    refine ⟨nofun, fun _ => .inr ?_, fun a ha => ?_⟩
    · simp only [List.length_append, List.length_singleton]
      omega
    · rw [List.getLast?_concat] at ha
      cases ha
      simp only [List.length_append, List.length_singleton]
      omega

/-- If every attempt succeeds, every other trigger is skipped. -/
theorem attempts_eq (h : Reaches (step period) (Timed period) State.init s)
    (hall : ∀ a ∈ s.done, a.result ≠ none) : s.attempts = (s.ticks + 1) / 2 := by
  have hinv : Sane period s ∧ ((∀ a ∈ s.done, a.result ≠ none) → Alternating s) := by
    refine h.invariant (P := fun s => Sane period s ∧
      ((∀ a ∈ s.done, a.result ≠ none) → Alternating s)) ⟨.init, fun _ => ?_⟩ ?_
    · exact ⟨nofun, fun _ => .inl rfl, nofun⟩
    · rintro a e b ⟨hsane, halt⟩ htimed hstep
      refine ⟨hsane.step htimed hstep, fun hall' => ?_⟩
      have hbefore : ∀ x ∈ a.done, x.result ≠ none :=
        fun x hx => hall' x ((step_done hstep).subset hx)
      exact (halt hbefore).step hsane hall' hstep
  have halt := hinv.2 hall
  unfold State.attempts
  cases hb : s.busy with
  | true =>
    have hticks := halt.busy hb
    simp only [Bool.toNat_true]
    omega
  | false =>
    have hticks := halt.idle hb
    simp only [Bool.toNat_false]
    omega

/-! ## If no two attempts in a row fail -/

/-- How far success `a`, the last one, is behind. -/
inductive Since (s : State K ρ) (a : Attempt K ρ) : Prop
  | rested : s.busy = false → s.done.getLast? = some a → s.ticks ≤ a.tick + 1 → Since s a
  | trying : s.busy = true → s.done.getLast? = some a → s.ticks = a.tick + 2 → Since s a
  | missed : s.busy = false → s.Failed → s.ticks = a.tick + 2 → Since s a
  | retrying : s.busy = true → s.Failed → s.ticks = a.tick + 3 → Since s a

theorem since_step (hsince : ∀ a, s.lastSuccess = some a → Since s a) (hsane : Sane period s)
    (hchain : NoTwoFailures (t.done.map Attempt.result)) (hstep : step period s e = some t)
    {a : Attempt K ρ} (ha : t.lastSuccess = some a) : Since t a := by
  cases e with
  | tick =>
    obtain ⟨hidle, rfl⟩ := step_tick hstep
    have hbusy : ¬ s.busy = true := Bool.eq_false_iff.mp hidle
    have hlast : s.lastSuccess = some a := ha
    have hrecent := recent_iff hsane hlast
    obtain ⟨-, htick⟩ := hsane.tick a (lastSuccess_mem hlast)
    cases hsince a hlast with
    | rested _ hdone hle =>
      by_cases heq : s.ticks = a.tick
      · refine .rested ?_ hdone (by simp only; omega)
        simp [hrecent.mpr heq]
      · refine .trying ?_ hdone (by simp only; omega)
        have hnot : ¬ s.recent period = true := fun h => heq (hrecent.mp h)
        simp [hnot]
    | trying hb _ _ => exact absurd hb hbusy
    | missed _ hfailed heq =>
      refine .retrying ?_ hfailed (by simp only; omega)
      have hnot : ¬ s.recent period = true := fun h => by
        have := hrecent.mp h
        omega
      simp [hnot]
    | retrying hb _ _ => exact absurd hb hbusy
  | finish duration result =>
    obtain ⟨hbusy, rfl⟩ := step_finish hstep
    rw [lastSuccess_concat] at ha
    split at ha
    · cases ha
      exact .rested rfl List.getLast?_concat (Nat.le_succ _)
    · next hfailed =>
      have hnone : result = none := by
        simpa [Attempt.succeeded] using hfailed
      have hlast : s.lastSuccess = some a := ha
      have hfails :
          (⟨s.ticks, false, s.done ++ [⟨s.ticks, duration, result⟩]⟩ : State K ρ).Failed :=
        ⟨_, List.getLast?_concat, hnone⟩
      cases hsince a hlast with
      | rested hidle _ _ => exact absurd hbusy (Bool.eq_false_iff.mp hidle)
      | trying _ _ heq => exact .missed rfl hfails heq
      | missed hidle _ _ => exact absurd hbusy (Bool.eq_false_iff.mp hidle)
      | retrying _ hfailed' _ =>
        -- a second failure in a row
        obtain ⟨b, hb, hbnone⟩ := hfailed'
        obtain ⟨front, hfront⟩ := List.getLast?_eq_some_iff.mp hb
        have htwo : NoTwoFailures (front.map Attempt.result ++ b.result :: result :: []) := by
          simpa [hfront] using hchain
        exact absurd hnone ((List.isChain_append_cons_cons.mp htwo).2.1 hbnone)

/-- How far the last success is behind, if no two attempts in a row fail. -/
theorem since (h : Reaches (step period) (Timed period) State.init s)
    (hchain : NoTwoFailures (s.done.map Attempt.result)) {a : Attempt K ρ}
    (ha : s.lastSuccess = some a) :
    Since s a ∧ 0 < s.ticks ∧ 0 < a.duration ∧ a.duration < period := by
  have hinv : Sane period s ∧ (NoTwoFailures (s.done.map Attempt.result) →
      ∀ a, s.lastSuccess = some a → Since s a) := by
    refine h.invariant (P := fun s => Sane period s ∧ (NoTwoFailures (s.done.map Attempt.result) →
      ∀ a, s.lastSuccess = some a → Since s a))
      ⟨.init, fun _ => nofun⟩ ?_
    rintro a e b ⟨hsane, hsince⟩ htimed hstep
    refine ⟨hsane.step htimed hstep, fun hchain' x hx => ?_⟩
    obtain ⟨rest, hrest⟩ := step_done hstep
    have hbefore : NoTwoFailures (a.done.map Attempt.result) := by
      rw [← hrest, List.map_append] at hchain'
      exact List.IsChain.left_of_append hchain'
    exact since_step (hsince hbefore) hsane hchain' hstep hx
  obtain ⟨hpos, hle⟩ := hinv.1.tick a (lastSuccess_mem ha)
  exact ⟨hinv.2 hchain a ha, hpos.trans_le hle, hinv.1.duration a (lastSuccess_mem ha)⟩

end Cadence
