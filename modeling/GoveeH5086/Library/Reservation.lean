import Mathlib.Logic.Function.Basic
import Mathlib.Data.List.Nodup
import GoveeH5086.Library.Runs

/-!
# Reservations

A process reserves a key that no other process holds, checks that no record has it, and commits a
record of it later, without checking again. Records may be removed at any moment.

1. `Inv.step`: only one process holds a key, and a key that was checked stays unrecorded as long as
   it is held.
2. `records_nodup`: in every run no key is recorded twice.
-/

namespace Reservation
open Runs

/-- `holder p` is the key that `p` holds, and `checked p` says that `p` has checked it. -/
structure State (P K : Type*) where
  holder : P → Option K
  checked : P → Prop
  records : List K

inductive Event (P K : Type*)
  | reserve (p : P) (k : K)
  | check (p : P)
  | commit (p : P)
  | release (p : P)
  | remove (i : ℕ)

variable {P K : Type*} [DecidableEq P]

def init : State P K := ⟨fun _ => none, fun _ => False, []⟩

/-- What `p` holds and has checked changes. -/
def State.set (s : State P K) (p : P) (key : Option K) (checked : Prop) : State P K :=
  { s with
    holder := Function.update s.holder p key, checked := Function.update s.checked p checked }

open Classical in
/-- The effect of an event, when it can happen. -/
noncomputable def step (s : State P K) : Event P K → Option (State P K)
  | .reserve p k =>
    if ∀ q, q ≠ p → s.holder q ≠ some k then some (s.set p (some k) False) else none
  | .check p =>
    if ∀ k, s.holder p = some k → k ∉ s.records then some (s.set p (s.holder p) True) else none
  | .commit p =>
    (s.holder p).bind fun k =>
      if s.checked p then some { s.set p none False with records := s.records ++ [k] } else none
  | .release p => some (s.set p none False)
  | .remove i => some { s with records := s.records.eraseIdx i }

/-! ## When an event can happen -/

section
variable {s : State P K} {p : P} {k : K}

theorem step_reserve (h : ∀ q, q ≠ p → s.holder q ≠ some k) :
    step s (.reserve p k) = some (s.set p (some k) False) :=
  if_pos h

theorem step_check (h : ∀ k, s.holder p = some k → k ∉ s.records) :
    step s (.check p) = some (s.set p (s.holder p) True) :=
  if_pos h

theorem step_commit (hk : s.holder p = some k) (hc : s.checked p) :
    step s (.commit p) = some { s.set p none False with records := s.records ++ [k] } := by
  rw [step, hk, Option.bind_some, if_pos hc]

@[simp] theorem set_holder_self (key : Option K) (c : Prop) : (s.set p key c).holder p = key :=
  Function.update_self ..

theorem set_holder_of_ne {q : P} (key : Option K) (c : Prop) (h : q ≠ p) :
    (s.set p key c).holder q = s.holder q :=
  Function.update_of_ne h ..

@[simp] theorem set_checked_self (key : Option K) (c : Prop) : (s.set p key c).checked p = c :=
  Function.update_self ..

theorem set_checked_of_ne {q : P} (key : Option K) (c : Prop) (h : q ≠ p) :
    (s.set p key c).checked q = s.checked q :=
  Function.update_of_ne h ..

@[simp] theorem set_set (key key' : Option K) (c c' : Prop) :
    (s.set p key c).set p key' c' = s.set p key' c' := by
  unfold State.set
  simp only [Function.update_idem]

end

/-! ## The invariant -/

structure Inv (s : State P K) : Prop where
  exclusive : ∀ p q k, s.holder p = some k → s.holder q = some k → p = q
  fresh : ∀ p k, s.checked p → s.holder p = some k → k ∉ s.records
  nodup : s.records.Nodup

namespace Inv

variable {s s' : State P K}

omit [DecidableEq P] in
theorem init : Inv (init : State P K) :=
  ⟨fun _ _ _ => nofun, fun _ _ => nofun, List.nodup_nil⟩

/-- The new key is free, and not recorded if it counts as checked. -/
theorem set (h : Inv s) {p : P} {key : Option K} {c : Prop}
    (hfree : ∀ k, key = some k → ∀ q, q ≠ p → s.holder q ≠ some k)
    (hfresh : ∀ k, c → key = some k → k ∉ s.records) : Inv (s.set p key c) := by
  constructor
  · intro q r k hq hr
    by_cases hqp : q = p
    · subst hqp
      rw [set_holder_self] at hq
      by_contra hne
      rw [set_holder_of_ne _ _ (Ne.symm hne)] at hr
      exact hfree k hq r (Ne.symm hne) hr
    · rw [set_holder_of_ne _ _ hqp] at hq
      by_cases hrp : r = p
      · subst hrp
        rw [set_holder_self] at hr
        exact absurd hq (hfree k hr q hqp)
      · rw [set_holder_of_ne _ _ hrp] at hr
        exact h.exclusive q r k hq hr
  · intro q k hc hq
    by_cases hqp : q = p
    · subst hqp
      rw [set_holder_self] at hq
      rw [set_checked_self] at hc
      exact hfresh k hc hq
    · rw [set_holder_of_ne _ _ hqp] at hq
      rw [set_checked_of_ne _ _ hqp] at hc
      exact h.fresh q k hc hq
  · exact h.nodup

/-- The key that `p` held and had checked is recorded. -/
theorem commit (h : Inv s) {p : P} {k : K} (hk : s.holder p = some k) (hc : s.checked p) :
    Inv { s.set p none False with records := s.records ++ [k] } := by
  have hset : Inv (s.set p none False) := h.set (fun _ => nofun) fun _ hfalse => hfalse.elim
  refine ⟨hset.exclusive, fun q k' hc' hq => ?_, ?_⟩
  · have hqp : q ≠ p := by
      rintro rfl
      exact absurd (hq : (s.set q none False).holder q = some k') (by simp)
    intro hmem
    rcases List.mem_append.mp hmem with hold | hnew
    · exact hset.fresh q k' hc' hq hold
    · cases List.mem_singleton.mp hnew
      have hq' : s.holder q = some k := (set_holder_of_ne none False hqp).symm.trans hq
      exact hqp (h.exclusive q p k hq' hk)
  · refine List.nodup_append.mpr ⟨h.nodup, List.nodup_singleton k, fun a ha b hb hab => ?_⟩
    cases List.mem_singleton.mp hb
    exact h.fresh p k hc hk (hab ▸ ha)

theorem step (h : Inv s) {e : Event P K} (hstep : step s e = some s') : Inv s' := by
  cases e with
  | reserve p k =>
    obtain ⟨hfree, heq⟩ := Option.ite_none_right_eq_some.mp hstep
    cases heq
    refine h.set (fun k' hk' => ?_) fun _ hfalse => hfalse.elim
    cases hk'
    exact hfree
  | check p =>
    obtain ⟨hfresh, heq⟩ := Option.ite_none_right_eq_some.mp hstep
    cases heq
    refine h.set (fun k hk q hqp hq => hqp (h.exclusive q p k hq hk)) fun k _ hk => hfresh k hk
  | commit p =>
    obtain ⟨k, hk, hcommit⟩ := Option.bind_eq_some_iff.mp hstep
    obtain ⟨hc, heq⟩ := Option.ite_none_right_eq_some.mp hcommit
    cases heq
    exact h.commit hk hc
  | release p =>
    cases hstep
    exact h.set (fun _ => nofun) fun _ hfalse => hfalse.elim
  | remove i =>
    cases hstep
    have hsub : (s.records.eraseIdx i).Sublist s.records := List.eraseIdx_sublist ..
    exact ⟨h.exclusive, fun p k hc hp hmem => h.fresh p k hc hp (hsub.subset hmem),
      h.nodup.sublist hsub⟩

end Inv

/-- No key is recorded twice. -/
theorem records_nodup {s : State P K} (h : Reaches step Free init s) : s.records.Nodup :=
  (h.invariant (P := Inv) .init fun _ _ _ ha _ hstep => ha.step hstep).nodup

end Reservation
