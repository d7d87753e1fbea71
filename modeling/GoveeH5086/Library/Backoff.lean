import Mathlib.Algebra.Order.Field.Basic
import Mathlib.Tactic.Linarith
import Mathlib.Tactic.Ring
import GoveeH5086.Library.Runs

/-!
# Exponential backoff

Something is attempted again and again. After a failure nothing is attempted for a delay, which
starts at `base`, is multiplied by `factor` after every failure and cut at `cap`, and starts again
at `base` after a success.

1. `Plan.Sound.next_delay`: a delay kept in a variable is a closed form of the number of failures.
2. `Plan.Sound.total_of_reached`: once `cap` is reached, every further failure costs `cap`.
3. `delays_planned`: in every run each delay is the one that the failures before it ask for.
4. `attempts_paced`: in every run an attempt comes no earlier than all delays since the last
   success allow.
-/

namespace Backoff
open Runs

/-! ## Delays -/

/-- The parameters of a backoff. -/
structure Plan (K : Type*) where
  base : K
  factor : K
  cap : K

section
variable {K : Type*} [Field K] [LinearOrder K]

/-- The delay after the one that has just been waited for. -/
def Plan.next (p : Plan K) (delay : K) : K := min (delay * p.factor) p.cap

/-- The delay after `k` failures in a row. -/
def Plan.delay (p : Plan K) (k : ℕ) : K := min (p.base * p.factor ^ k) p.cap

/-- What `n` failures in a row cost. -/
def Plan.total (p : Plan K) : ℕ → K
  | 0 => 0
  | n + 1 => p.total n + p.delay n

/-- Delays do not shrink, and the first is not cut. -/
structure Plan.Sound (p : Plan K) : Prop where
  base : 0 ≤ p.base
  factor : 1 ≤ p.factor
  cap : p.base ≤ p.cap

variable {p : Plan K}

theorem Plan.delay_le_cap (p : Plan K) (k : ℕ) : p.delay k ≤ p.cap := min_le_right ..

theorem Plan.Sound.delay_zero (h : p.Sound) : p.delay 0 = p.base := by
  rw [Plan.delay, pow_zero, mul_one, min_eq_left h.cap]

variable [IsStrictOrderedRing K]

/-- Cutting before or after the multiplication makes no difference. -/
theorem Plan.Sound.next_delay (h : p.Sound) (k : ℕ) : p.next (p.delay k) = p.delay (k + 1) := by
  have hcap : 0 ≤ p.cap := h.base.trans h.cap
  have hgrows : p.cap ≤ p.cap * p.factor := le_mul_of_one_le_right hcap h.factor
  have hfactor : 0 ≤ p.factor := zero_le_one.trans h.factor
  unfold Plan.next Plan.delay
  rw [min_mul_of_nonneg _ _ hfactor, min_assoc, min_eq_right hgrows, pow_succ, mul_assoc]

theorem Plan.Sound.delay_mono (h : p.Sound) {j k : ℕ} (hjk : j ≤ k) : p.delay j ≤ p.delay k := by
  refine min_le_min ?_ le_rfl
  exact mul_le_mul_of_nonneg_left (pow_le_pow_right₀ h.factor hjk) h.base

/-- From the failure on at which the delay has reached `cap`, every failure costs `cap`. -/
theorem Plan.Sound.total_of_reached (h : p.Sound) {m : ℕ} (hm : p.cap ≤ p.base * p.factor ^ m)
    (j : ℕ) : p.total (m + j) = p.total m + j * p.cap := by
  have reached : ∀ k, m ≤ k → p.delay k = p.cap := by
    intro k hk
    have hfull : p.delay m = p.cap := min_eq_right hm
    exact le_antisymm (p.delay_le_cap k) (hfull.ge.trans (h.delay_mono hk))
  induction j with
  | zero => simp
  | succ j ih =>
    rw [← Nat.add_assoc, Plan.total, ih, reached _ (Nat.le_add_right m j)]
    push_cast
    ring

end

/-! ## A log of attempts -/

/-- What a log records, with the time and, for a failure, the delay that follows it. -/
inductive Mark (K : Type*)
  | attempt (time : K)
  | success (time : K)
  | failure (time delay : K)
deriving DecidableEq, Repr

section
variable {K : Type*}

/-- How many failures followed the last success. The oldest mark comes first. -/
def failures (log : List (Mark K)) : ℕ :=
  log.foldl (fun
    | _, .success _ => 0
    | n, .failure _ _ => n + 1
    | n, .attempt _ => n) 0

/-- The time of the last success, or of the start. -/
def since (start : K) (log : List (Mark K)) : K :=
  log.foldl (fun
    | _, .success time => time
    | t, .failure _ _ | t, .attempt _ => t) start

@[simp] theorem failures_attempt (log : List (Mark K)) (time : K) :
    failures (log ++ [.attempt time]) = failures log := by
  simp [failures, List.foldl_append]

@[simp] theorem failures_success (log : List (Mark K)) (time : K) :
    failures (log ++ [.success time]) = 0 := by
  simp [failures, List.foldl_append]

@[simp] theorem failures_failure (log : List (Mark K)) (time delay : K) :
    failures (log ++ [.failure time delay]) = failures log + 1 := by
  simp [failures, List.foldl_append]

@[simp] theorem since_attempt (start : K) (log : List (Mark K)) (time : K) :
    since start (log ++ [.attempt time]) = since start log := by
  simp [since, List.foldl_append]

@[simp] theorem since_success (start : K) (log : List (Mark K)) (time : K) :
    since start (log ++ [.success time]) = time := by
  simp [since, List.foldl_append]

@[simp] theorem since_failure (start : K) (log : List (Mark K)) (time delay : K) :
    since start (log ++ [.failure time delay]) = since start log := by
  simp [since, List.foldl_append]

/-- Every mark of a log fits the log before it. -/
def Throughout (P : List (Mark K) → Mark K → Prop) (log : List (Mark K)) : Prop :=
  ∀ before mark, before ++ [mark] <+: log → P before mark

variable {P : List (Mark K) → Mark K → Prop}

theorem Throughout.nil : Throughout P [] := by
  intro before mark hpre
  simpa using List.prefix_nil.mp hpre

theorem Throughout.concat {log : List (Mark K)} (h : Throughout P log) {mark : Mark K}
    (hmark : P log mark) : Throughout P (log ++ [mark]) := by
  intro before mark' hpre
  rcases List.prefix_concat_iff.mp hpre with heq | hold
  · obtain ⟨rfl, hlast⟩ := List.append_inj' heq rfl
    cases List.singleton_inj.mp hlast
    exact hmark
  · exact h before mark' hold

end

/-! ## The loop -/

variable {K : Type*} [Field K] [LinearOrder K]

/-- `waiting` is the end of the delay that is being waited for. -/
structure State (K : Type*) where
  now : K
  delay : K
  waiting : Option K
  log : List (Mark K)

inductive Event (K : Type*)
  | advance (dt : K)
  | attempt
  | success
  | failure
  | expire

def init (p : Plan K) (now : K) : State K := ⟨now, p.base, none, []⟩

/-- The effect of an event, when it can happen. -/
def step (p : Plan K) (s : State K) : Event K → Option (State K)
  | .advance dt => if 0 ≤ dt then some { s with now := s.now + dt } else none
  | .attempt =>
    if s.waiting = none then some { s with log := s.log ++ [.attempt s.now] } else none
  | .success =>
    if s.waiting = none then
      some { s with delay := p.base, log := s.log ++ [.success s.now] }
    else none
  | .failure =>
    if s.waiting = none then
      some { s with
        waiting := some (s.now + s.delay), log := s.log ++ [.failure s.now s.delay] }
    else none
  | .expire =>
    s.waiting.bind fun deadline =>
      if deadline ≤ s.now then some { s with waiting := none, delay := p.next s.delay } else none

/-- A failure asks for the delay that the failures before it make, and an attempt comes no earlier
than all delays since the last success allow. -/
def Fits (p : Plan K) (start : K) (before : List (Mark K)) : Mark K → Prop
  | .attempt time => since start before + p.total (failures before) ≤ time
  | .success _ => True
  | .failure _ delay => delay = p.delay (failures before)

/-- While a delay is waited for, the last failure is the one that it follows. -/
structure Inv (p : Plan K) (start : K) (s : State K) : Prop where
  log : Throughout (Fits p start) s.log
  idle : s.waiting = none → s.delay = p.delay (failures s.log) ∧
    since start s.log + p.total (failures s.log) ≤ s.now
  waiting : ∀ deadline, s.waiting = some deadline → ∃ k, failures s.log = k + 1 ∧
    s.delay = p.delay k ∧ since start s.log + p.total (k + 1) ≤ deadline

variable [IsStrictOrderedRing K] {p : Plan K} {start : K} {s s' : State K}

theorem Inv.step (hp : p.Sound) (h : Inv p start s) {e : Event K}
    (hstep : step p s e = some s') : Inv p start s' := by
  cases e with
  | advance dt =>
    obtain ⟨hdt, heq⟩ := Option.ite_none_right_eq_some.mp hstep
    cases heq
    refine ⟨h.log, fun hidle => ?_, h.waiting⟩
    obtain ⟨hdelay, hle⟩ := h.idle hidle
    exact ⟨hdelay, hle.trans (le_add_of_nonneg_right hdt)⟩
  | attempt =>
    obtain ⟨hidle, heq⟩ := Option.ite_none_right_eq_some.mp hstep
    cases heq
    obtain ⟨hdelay, hle⟩ := h.idle hidle
    refine ⟨h.log.concat hle, fun _ => ?_, fun deadline hw => ?_⟩
    · rw [failures_attempt, since_attempt]
      exact ⟨hdelay, hle⟩
    · rw [hidle] at hw
      cases hw
  | success =>
    obtain ⟨hidle, heq⟩ := Option.ite_none_right_eq_some.mp hstep
    cases heq
    refine ⟨h.log.concat trivial, fun _ => ?_, fun deadline hw => ?_⟩
    · rw [failures_success, since_success, hp.delay_zero, Plan.total, add_zero]
      exact ⟨rfl, le_rfl⟩
    · rw [hidle] at hw
      cases hw
  | failure =>
    obtain ⟨hidle, heq⟩ := Option.ite_none_right_eq_some.mp hstep
    cases heq
    obtain ⟨hdelay, hle⟩ := h.idle hidle
    refine ⟨h.log.concat hdelay, nofun, fun deadline hw => ?_⟩
    cases hw
    refine ⟨failures s.log, failures_failure .., hdelay, ?_⟩
    rw [since_failure, Plan.total, ← hdelay, ← add_assoc]
    exact add_le_add hle le_rfl
  | expire =>
    obtain ⟨deadline, hw, hrest⟩ := Option.bind_eq_some_iff.mp hstep
    obtain ⟨hdeadline, heq⟩ := Option.ite_none_right_eq_some.mp hrest
    cases heq
    obtain ⟨k, hk, hdelay, hle⟩ := h.waiting deadline hw
    refine ⟨h.log, fun _ => ?_, nofun⟩
    rw [hk, hdelay, hp.next_delay]
    exact ⟨rfl, hle.trans hdeadline⟩

omit [IsStrictOrderedRing K] in
theorem Inv.init (hp : p.Sound) (now : K) : Inv p now (init p now) := by
  refine ⟨.nil, fun _ => ⟨hp.delay_zero.symm, ?_⟩, nofun⟩
  exact (add_zero now).le

/-- In every run every mark fits the log before it. -/
theorem log_fits (hp : p.Sound) {now : K} (h : Reaches (step p) Free (init p now) s) :
    Throughout (Fits p now) s.log :=
  (h.invariant (P := Inv p now) (.init hp now) fun _ _ _ ha _ hstep => ha.step hp hstep).log

/-- An attempt comes no earlier than all delays since the last success allow. -/
theorem attempts_paced (hp : p.Sound) {now : K} (h : Reaches (step p) Free (init p now) s)
    {before : List (Mark K)} {time : K} (hpre : before ++ [.attempt time] <+: s.log) :
    since now before + p.total (failures before) ≤ time :=
  log_fits hp h before _ hpre

end Backoff
