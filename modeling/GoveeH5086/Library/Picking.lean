import Mathlib.Data.List.Sort
import Mathlib.Data.List.Range
import GoveeH5086.Library.Runs

/-!
# Picking from a feed in order

A source emits items one after the other, and some of them decode. A reader picks decoded items,
each time one that was emitted after everything picked before. Items are told apart by their number
in the feed, so that equal items at different places are different.

1. `picked_sublist`: in every run, what was picked is a subsequence of what decodes.
2. `picked_prefix`: along a run, picks are only added.
3. `last_le`: along a run, a quantity that never decreases over the feed never decreases over the
   picks.
-/

namespace Picking
open Runs

variable {α β : Type*}

/-- The items emitted and the items picked, each oldest first. -/
structure Feed (α β : Type*) where
  emitted : List α
  picked : List (ℕ × β)

inductive Event (α : Type*)
  | emit (a : α)
  | pick (n : ℕ)

def Feed.empty : Feed α β := ⟨[], []⟩

variable (decode : α → Option β)

/-- The decoded items of a feed, with their numbers. -/
def numbered (l : List α) : List (ℕ × β) :=
  l.zipIdx.filterMap fun p => (decode p.1).map fun b => (p.2, b)

def step (f : Feed α β) : Event α → Option (Feed α β)
  | .emit a => some { f with emitted := f.emitted ++ [a] }
  | .pick n =>
    match f.emitted[n]?.bind decode with
    | some b =>
      if ∀ p ∈ f.picked, p.1 < n then some { f with picked := f.picked ++ [(n, b)] } else none
    | none => none

variable {decode}

theorem mem_numbered {l : List α} {n : ℕ} {b : β} :
    (n, b) ∈ numbered decode l ↔ l[n]?.bind decode = some b := by
  simp only [numbered, List.mem_filterMap, Option.map_eq_some_iff, Option.bind_eq_some_iff]
  constructor
  · rintro ⟨⟨a, m⟩, hmem, b', hdec, heq⟩
    cases heq
    exact ⟨a, List.mem_zipIdx_iff_getElem?.mp hmem, hdec⟩
  · rintro ⟨a, hget, hdec⟩
    exact ⟨(a, n), List.mem_zipIdx_iff_getElem?.mpr hget, b, hdec, rfl⟩

theorem numbered_append (l : List α) (a : α) :
    numbered decode l <+: numbered decode (l ++ [a]) := by
  unfold numbered
  rw [List.zipIdx_append, List.filterMap_append]
  exact List.prefix_append _ _

theorem numbered_sorted (l : List α) : (numbered decode l).Pairwise fun p q => p.1 < q.1 := by
  have hidx : l.zipIdx.Pairwise fun p q => p.2 < q.2 := by
    have h : (l.zipIdx.map Prod.snd).Pairwise (· < ·) := by
      rw [List.zipIdx_map_snd]
      exact List.pairwise_lt_range'
    exact List.pairwise_map.mp h
  refine List.Pairwise.filterMap _ ?_ hidx
  rintro ⟨a, n⟩ ⟨a', n'⟩ hlt p hp q hq
  obtain ⟨b, -, rfl⟩ := Option.map_eq_some_iff.mp hp
  obtain ⟨b', -, rfl⟩ := Option.map_eq_some_iff.mp hq
  exact hlt

theorem step_pick {f g : Feed α β} {n : ℕ} (h : step decode f (.pick n) = some g) :
    ∃ b, f.emitted[n]?.bind decode = some b ∧ (∀ p ∈ f.picked, p.1 < n) ∧
      g = { f with picked := f.picked ++ [(n, b)] } := by
  simp only [step] at h
  split at h
  · next b hb =>
    obtain ⟨hall, heq⟩ := Option.ite_none_right_eq_some.mp h
    cases heq
    exact ⟨b, hb, hall, rfl⟩
  · cases h

/-- The picks come from the feed, in order. -/
structure Ordered (decode : α → Option β) (f : Feed α β) : Prop where
  sorted : f.picked.Pairwise fun p q => p.1 < q.1
  decoded : ∀ p ∈ f.picked, p ∈ numbered decode f.emitted

theorem Ordered.step {f g : Feed α β} {e : Event α} (h : Ordered decode f)
    (hstep : step decode f e = some g) : Ordered decode g := by
  cases e with
  | emit a =>
    cases hstep
    exact ⟨h.sorted, fun p hp => (numbered_append f.emitted a).subset (h.decoded p hp)⟩
  | pick n =>
    obtain ⟨b, hb, hall, rfl⟩ := step_pick hstep
    constructor
    · rw [List.pairwise_append]
      refine ⟨h.sorted, List.pairwise_singleton _ _, ?_⟩
      intro p hp q hq
      rw [List.mem_singleton.mp hq]
      exact hall p hp
    · intro p hp
      rcases List.mem_append.mp hp with hold | hnew
      · exact h.decoded p hold
      · rw [List.mem_singleton.mp hnew]
        exact mem_numbered.mpr hb

theorem Ordered.sublist {f : Feed α β} (h : Ordered decode f) :
    f.picked.Sublist (numbered decode f.emitted) := by
  have nodup : ∀ l : List (ℕ × β), l.Pairwise (fun p q => p.1 < q.1) → l.Nodup :=
    fun l hl => hl.imp fun hlt heq => absurd (congrArg Prod.fst heq) (Nat.ne_of_lt hlt)
  have : Std.Antisymm fun p q : ℕ × β => p.1 < q.1 :=
    ⟨fun _ _ hpq hqp => absurd hqp (Nat.lt_asymm hpq)⟩
  exact List.sublist_of_subperm_of_pairwise (List.subperm_of_subset (nodup _ h.sorted) h.decoded)
    h.sorted (numbered_sorted f.emitted)

variable {ok : Feed α β → Event α → Prop} {f g : Feed α β}

/-- What was picked is a subsequence of what decodes. -/
theorem picked_sublist (h : Reaches (step decode) ok Feed.empty f) :
    f.picked.Sublist (numbered decode f.emitted) := by
  have hord : Ordered decode f :=
    h.invariant ⟨List.Pairwise.nil, by simp [Feed.empty]⟩ fun _ _ _ ha _ hs => ha.step hs
  exact hord.sublist

/-- Picks are only added. -/
theorem picked_prefix (h : Reaches (step decode) ok f g) : f.picked <+: g.picked := by
  refine h.relates (R := fun a b => a.picked <+: b.picked) (fun _ => List.prefix_rfl)
    (fun a b c (hab : a.picked <+: b.picked) (hbc : b.picked <+: c.picked) => hab.trans hbc) ?_
  intro a e b _ hs
  cases e with
  | emit x =>
    cases hs
    exact List.prefix_rfl
  | pick n =>
    obtain ⟨b, -, -, rfl⟩ := step_pick hs
    exact List.prefix_append _ _

/-- A quantity that never decreases over the feed never decreases over the picks. -/
theorem last_le {γ : Type*} [Preorder γ] {value : β → γ}
    (start : Reaches (step decode) ok Feed.empty f) (h : Reaches (step decode) ok f g)
    (mono : (numbered decode g.emitted).Pairwise fun p q => value p.2 ≤ value q.2)
    {b : β} (hb : f.picked.getLast?.map Prod.snd = some b) :
    ∃ b', g.picked.getLast?.map Prod.snd = some b' ∧ value b ≤ value b' := by
  obtain ⟨p, hp, rfl⟩ := Option.map_eq_some_iff.mp hb
  obtain ⟨front, hfront⟩ := List.getLast?_eq_some_iff.mp hp
  obtain ⟨rest, hrest⟩ := picked_prefix h
  have hsorted : g.picked.Pairwise fun p q => value p.2 ≤ value q.2 :=
    mono.sublist (picked_sublist (start.trans h))
  rcases List.eq_nil_or_concat rest with rfl | ⟨mid, q, rfl⟩
  · rw [List.append_nil] at hrest
    exact ⟨p.2, by rw [← hrest, hp]; rfl, le_refl _⟩
  · rw [← hrest, hfront] at hsorted
    have hlast : g.picked.getLast? = some q := by
      rw [← hrest, List.concat_eq_append, ← List.append_assoc, List.getLast?_concat]
    refine ⟨q.2, by rw [hlast]; rfl, ?_⟩
    exact (List.pairwise_append.mp hsorted).2.2 p (by simp) q (by simp)

end Picking
