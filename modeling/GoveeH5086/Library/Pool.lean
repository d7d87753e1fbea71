import Mathlib.Algebra.Order.BigOperators.Group.List
import Mathlib.Data.List.Forall2
import Mathlib.Tactic.Ring
import GoveeH5086.Library.Runs

/-!
# Components side by side

A pool is a list of components of one kind. An event happens in one of them, or in all at once when
it is one of their surroundings, and new components join at the end.

1. `component`: a component of a pool goes its own way, and never disappears.
2. `fixed`: without joins, a run of the pool is a run of each component.
3. `total_one`, `total_all`: what an event does to the sum of the components' ranks.
-/

namespace Pool
open Runs

variable {σ ε : Type*}

inductive Event (σ ε : Type*)
  | one (i : ℕ) (e : ε)
  | all (e : ε)
  | join (m : σ)

/-- An event that happens in all components. -/
def stepAll (f : σ → ε → Option σ) (e : ε) : List σ → Option (List σ)
  | [] => some []
  | m :: ms => (f m e).bind fun m' => (stepAll f e ms).map (m' :: ·)

/-- The effect of an event, when it can happen. -/
def step (f : σ → ε → Option σ) (ms : List σ) : Event σ ε → Option (List σ)
  | .one i e => ms[i]?.bind fun m => (f m e).map (ms.set i)
  | .all e => stepAll f e ms
  | .join m => some (ms ++ [m])

/-- Every component may do what it does, and those that join are new. -/
def Allows (ok : σ → ε → Prop) (new : σ → Prop) (ms : List σ) : Event σ ε → Prop
  | .one i e => ∀ m, ms[i]? = some m → ok m e
  | .all e => ∀ m ∈ ms, ok m e
  | .join m => new m

variable {f : σ → ε → Option σ} {ok : σ → ε → Prop} {new : σ → Prop} {ms ms' : List σ}

theorem stepAll_iff {e : ε} :
    stepAll f e ms = some ms' ↔ List.Forall₂ (fun m m' => f m e = some m') ms ms' := by
  induction ms generalizing ms' with
  | nil => simp [stepAll, eq_comm]
  | cons m ms ih =>
    rw [stepAll, Option.bind_eq_some_iff]
    constructor
    · rintro ⟨m', hm', hmap⟩
      obtain ⟨rest, hrest, rfl⟩ := Option.map_eq_some_iff.mp hmap
      exact .cons hm' (ih.mp hrest)
    · rintro (_ | ⟨hm', hrest⟩)
      exact ⟨_, hm', Option.map_eq_some_iff.mpr ⟨_, ih.mpr hrest, rfl⟩⟩

/-- What a list is related to element by element has an element for each of its own. -/
theorem exists_of_mem {α β : Type*} {R : α → β → Prop} {as : List α} {bs : List β}
    (h : List.Forall₂ R as bs) {b : β} (hb : b ∈ bs) : ∃ a ∈ as, R a b := by
  induction h with
  | nil => cases hb
  | cons hR _ ih =>
    rcases List.mem_cons.mp hb with rfl | hrest
    · exact ⟨_, List.mem_cons_self, hR⟩
    · obtain ⟨a, ha, hRa⟩ := ih hrest
      exact ⟨a, List.mem_cons_of_mem _ ha, hRa⟩

theorem mem_stepAll {e : ε} (h : stepAll f e ms = some ms') {m' : σ} (hm' : m' ∈ ms') :
    ∃ m ∈ ms, f m e = some m' := exists_of_mem (stepAll_iff.mp h) hm'

/-- An event that can happen in every component can happen in all of them. -/
theorem stepAll_isSome {e : ε} (h : ∀ m ∈ ms, ∃ m', f m e = some m') :
    ∃ ms', stepAll f e ms = some ms' := by
  induction ms with
  | nil => exact ⟨[], rfl⟩
  | cons m ms ih =>
    obtain ⟨m', hm'⟩ := h m List.mem_cons_self
    obtain ⟨ms', hms'⟩ := ih fun x hx => h x (List.mem_cons_of_mem _ hx)
    exact ⟨m' :: ms', by rw [stepAll, hm', Option.bind_some, hms']; rfl⟩

theorem length_stepAll {e : ε} (h : stepAll f e ms = some ms') : ms'.length = ms.length :=
  (stepAll_iff.mp h).length_eq.symm

theorem getElem?_stepAll {e : ε} (h : stepAll f e ms = some ms') (i : ℕ) :
    ms'[i]? = ms[i]?.bind fun m => f m e := by
  have hall := stepAll_iff.mp h
  clear h
  induction hall generalizing i with
  | nil => rfl
  | cons hm _ ih =>
    cases i with
    | zero => exact hm.symm
    | succ i => exact ih i

/-- One event, seen from one component. -/
theorem step_component {e : Event σ ε} (hok : Allows ok new ms e) (hstep : step f ms e = some ms')
    {i : ℕ} {m : σ} (hm : ms[i]? = some m) : ∃ m', ms'[i]? = some m' ∧ Reaches f ok m m' := by
  cases e with
  | one j e =>
    obtain ⟨x, hx, hmap⟩ := Option.bind_eq_some_iff.mp hstep
    obtain ⟨x', hx', rfl⟩ := Option.map_eq_some_iff.mp hmap
    by_cases hij : j = i
    · subst hij
      cases hm.symm.trans hx
      have hlt := (List.getElem?_eq_some_iff.mp hm).1
      exact ⟨x', by simp [hlt], .single (hok m hm) hx'⟩
    · exact ⟨m, by rw [List.getElem?_set_ne hij, hm], .refl⟩
  | all e =>
    have hget := getElem?_stepAll hstep i
    obtain ⟨m', hm'⟩ : ∃ m', f m e = some m' := by
      have hlt := (List.getElem?_eq_some_iff.mp hm).1
      rw [← length_stepAll hstep] at hlt
      rw [hm, Option.bind_some, List.getElem?_eq_getElem hlt] at hget
      exact ⟨_, hget.symm⟩
    refine ⟨m', ?_, .single (hok m (List.mem_of_getElem? hm)) hm'⟩
    rw [hget, hm, Option.bind_some, hm']
  | join x =>
    cases hstep
    have hlt := (List.getElem?_eq_some_iff.mp hm).1
    exact ⟨m, by rw [List.getElem?_append_left hlt, hm], .refl⟩

/-- Every component goes its own way. -/
theorem component (h : Reaches (step f) (Allows ok new) ms ms') {i : ℕ} {m : σ}
    (hm : ms[i]? = some m) : ∃ m', ms'[i]? = some m' ∧ Reaches f ok m m' := by
  induction h with
  | refl => exact ⟨m, hm, .refl⟩
  | tail _ hok hstep ih =>
    obtain ⟨x, hx, hreach⟩ := ih
    obtain ⟨m', hm', hreach'⟩ := step_component hok hstep hx
    exact ⟨m', hm', hreach.trans hreach'⟩

/-- One event adds nothing but what joins. -/
theorem step_length {e : Event σ ε} (hok : Allows ok new ms e) (hstep : step f ms e = some ms') :
    ms'.length = ms.length ∨ ∃ m, new m ∧ ms' = ms ++ [m] := by
  cases e with
  | one j e =>
    obtain ⟨x, -, hmap⟩ := Option.bind_eq_some_iff.mp hstep
    obtain ⟨x', -, rfl⟩ := Option.map_eq_some_iff.mp hmap
    exact .inl List.length_set
  | all e => exact .inl (length_stepAll hstep)
  | join m =>
    cases hstep
    exact .inr ⟨m, hok, rfl⟩

/-- Where nothing joins, there are as many components as before. -/
theorem fixed_length (h : Reaches (step f) (Allows ok fun _ => False) ms ms') :
    ms'.length = ms.length := by
  induction h with
  | refl => rfl
  | tail _ hok hstep ih =>
    rcases step_length hok hstep with hlen | ⟨m, hm, -⟩
    · exact hlen.trans ih
    · exact hm.elim

/-- Where nothing joins, every component has its own run, from its own start. -/
theorem fixed (h : Reaches (step f) (Allows ok fun _ => False) ms ms') :
    List.Forall₂ (Reaches f ok) ms ms' := by
  refine List.forall₂_iff_get.mpr ⟨(fixed_length h).symm, fun i hi hi' => ?_⟩
  obtain ⟨m', hm', hreach⟩ := component h (List.getElem?_eq_getElem hi)
  rw [List.getElem?_eq_getElem hi', Option.some.injEq] at hm'
  rw [List.get_eq_getElem, List.get_eq_getElem, hm']
  exact hreach

/-! ## Ranks -/

/-- The sum of the components' ranks. -/
def total (rank : σ → ℕ) (ms : List σ) : ℕ := (ms.map rank).sum

theorem total_one (rank : σ → ℕ) {i : ℕ} {m : σ} (hm : ms[i]? = some m) (m' : σ) :
    total rank (ms.set i m') + rank m = total rank ms + rank m' := by
  induction ms generalizing i with
  | nil => cases hm
  | cons x ms ih =>
    cases i with
    | zero =>
      cases hm
      simp only [total, List.set_cons_zero, List.map_cons, List.sum_cons]
      ring
    | succ i =>
      have hrest := ih hm
      simp only [total, List.set_cons_succ, List.map_cons, List.sum_cons] at hrest ⊢
      rw [add_assoc, hrest, add_assoc]

theorem total_all {rank : σ → ℕ} {e : ε} (h : stepAll f e ms = some ms')
    (hle : ∀ m m', m ∈ ms → f m e = some m' → rank m' ≤ rank m) :
    total rank ms' ≤ total rank ms := by
  have hall := stepAll_iff.mp h
  clear h
  induction hall with
  | nil => exact le_rfl
  | cons hm _ ih =>
    simp only [total, List.map_cons, List.sum_cons] at ih ⊢
    refine add_le_add (hle _ _ List.mem_cons_self hm) ?_
    exact ih fun x x' hx => hle x x' (List.mem_cons_of_mem _ hx)

/-- No rank is above `b`. -/
theorem total_le {rank : σ → ℕ} {b : ℕ} (h : ∀ m ∈ ms, rank m ≤ b) :
    total rank ms ≤ b * ms.length := by
  have hsum := List.sum_le_card_nsmul (ms.map rank) b (by simpa using h)
  rwa [List.length_map, nsmul_eq_mul, Nat.cast_id, mul_comm] at hsum

end Pool
