import GoveeH5086.Exclusion
import GoveeH5086.Library.Picking

/-!
# The readings follow the plug's order

The coordinator is compared with a reader that picks from a feed in order: the plug's notifications
are the feed, and storing a reading picks the notification it comes from.

1. `FeedInv`: a running call can only deliver a notification that is later than everything stored.
2. `Sys.refines`: a run of the coordinator is a run of the reader.
3. `Sys.stored`: what one event stores.
4. `Sys.published_in_order`: one call at a time, the readings are stored in the order of emission,
   and the energy that is shown never decreases if the plug's counter does not.
-/

namespace GoveeH5086
open BigEndian FifoLock Runs

/-- `decode_notification`, as a filter of the feed. -/
def decode (aes : Aes) (raw : Bytes) : Option PowerReading :=
  (decodeNotification aes raw).toOption

theorem decode_of_decodes {aes : Aes} {emitted : List Bytes} {n : ℕ} {reading : PowerReading}
    (h : Decodes aes emitted n reading) : emitted[n]?.bind (decode aes) = some reading := by
  obtain ⟨raw, hraw, hdec⟩ := h
  rw [hraw, Option.bind_some, decode, hdec]
  rfl

theorem Decodes.lt {aes : Aes} {emitted : List Bytes} {n : ℕ} {reading : PowerReading}
    (h : Decodes aes emitted n reading) : n < emitted.length := by
  obtain ⟨raw, hraw, -⟩ := h
  exact (List.getElem?_eq_some_iff.mp hraw).1

theorem PollExit.eq_of_obtained {exit : PollExit} {reading : PowerReading}
    (h : exit.obtained = some reading) : exit = .read (.returned (some reading)) := by
  unfold PollExit.obtained at h
  split at h
  · rw [h]
  · cases h

namespace Coordinator

/-- The coordinator as a reader of the plug's feed. -/
def feed (w : World) (c : Coordinator) : Picking.Feed Bytes PowerReading :=
  ⟨w.emitted, c.published⟩

structure FeedInv (aes : Aes) (w : World) (c : Coordinator) : Prop where
  calls : ∀ i t call, c.tasks i = some t → t.phase.call = some call → call.Sound aes w.emitted
  past : ∀ p ∈ c.published, p.1 < w.emitted.length
  ahead : ∀ i call k, c.phaseOf i = some (.reading call) → call.since = some k →
    ∀ p ∈ c.published, p.1 < k
  last : c.lastReading = c.published.getLast?.map Prod.snd

/-! ## The moves keep the invariant -/

namespace FeedInv

variable {aes : Aes} {w w' : World} {c c' : Coordinator}

/-- A running call, after it is resumed, still delivers later notifications only. -/
theorem ahead_resume (h : c.FeedInv aes w) {i : ℕ} {t : Task} {call call' : Call} {o : Outcome}
    (ht : c.tasks i = some t) (hphase : t.phase = .reading call)
    (hr : call.resume w.now w.emitted.length o = some call') {k : ℕ}
    (hk : call'.since = some k) : ∀ p ∈ c.published, p.1 < k := by
  rcases (Call.resume_resumed hr).since with hsame | ⟨-, hnew⟩
  · exact h.ahead i call k (phaseOf_some.mpr ⟨t, ht, hphase⟩) (hsame ▸ hk)
  · rw [hnew] at hk
    cases hk
    exact h.past

theorem call_resume (h : c.FeedInv aes w) {i : ℕ} {t : Task} {call call' : Call} {o : Outcome}
    (ht : c.tasks i = some t) (hphase : t.phase = .reading call)
    (hr : call.resume w.now w.emitted.length o = some call') : call'.Sound aes w.emitted :=
  Call.resume_sound (h.calls i t call ht (by rw [hphase]; rfl)) hr

/-- Where an obtained reading comes from. -/
theorem obtained (h : c.FeedInv aes w) {i : ℕ} {t : Task} {call call' : Call} {o : Outcome}
    (ht : c.tasks i = some t) (hphase : t.phase = .reading call)
    (hr : call.resume w.now w.emitted.length o = some call') {reading : PowerReading}
    (hexit : call'.point = .ended (.returned (some reading))) :
    ∃ n, call'.source = some n ∧ (∀ p ∈ c.published, p.1 < n) ∧
      Decodes aes w.emitted n reading := by
  have hsound := h.call_resume ht hphase hr
  have hdone := hsound.exit reading (by rw [hexit]; rfl)
  obtain ⟨k, n, hk, hn, hle, hdec⟩ := hsound.result reading hdone
  refine ⟨n, hn, fun p hp => ?_, hdec⟩
  exact Nat.lt_of_lt_of_le (h.ahead_resume ht hphase hr hk p hp) hle

/-- Changing one task whose call stays sound, without storing anything. -/
theorem update (h : c.FeedInv aes w) {i : ℕ} {u : Task}
    (htasks : c'.tasks = Function.update c.tasks i (some u))
    (hpub : c'.published = c.published) (hlast : c'.lastReading = c.lastReading)
    (hcall : ∀ call, u.phase.call = some call → call.Sound aes w.emitted)
    (hahead : ∀ call k, u.phase = .reading call → call.since = some k →
      ∀ p ∈ c.published, p.1 < k) : c'.FeedInv aes w := by
  constructor
  · intro j v call hj hc
    rcases update_eq_some (htasks ▸ hj) with ⟨-, rfl⟩ | ⟨-, hold⟩
    · exact hcall call hc
    · exact h.calls j v call hold hc
  · rw [hpub]
    exact h.past
  · intro j call k hj hk
    rw [hpub]
    obtain ⟨v, hv, hphase⟩ := phaseOf_some.mp hj
    rcases update_eq_some (htasks ▸ hv) with ⟨-, rfl⟩ | ⟨-, hold⟩
    · exact hahead call k hphase hk
    · exact h.ahead j call k (phaseOf_some.mpr ⟨v, hold, hphase⟩) hk
  · rw [hpub, hlast]
    exact h.last

/-- A task that leaves without a reading. -/
theorem leave_none (h : c.FeedInv aes w) (i : ℕ) (t : Task) (call : Option Call) {exit : PollExit}
    (hcall : ∀ call', call = some call' → call'.Sound aes w.emitted)
    (hobt : exit.obtained = none) : (c.leave w i t call exit).FeedInv aes w := by
  refine h.update (leave_tasks ..) ?_ ?_ hcall (fun call' k hphase => by simp at hphase)
  · rw [leave_published, hobt]
    exact List.append_nil _
  · rw [leave_lastReading, hobt]
    rfl

/-- A task that leaves with a reading. Nobody else is reading. -/
theorem leave_some (h : c.FeedInv aes w) (hlock : c.LockInv) {i n : ℕ} {t : Task}
    {call call' : Call} {exit : PollExit} {reading : PowerReading} (ht : c.tasks i = some t)
    (hphase : t.phase = .reading call) (hsound : call'.Sound aes w.emitted)
    (hobt : exit.obtained = some reading) (hn : call'.source = some n)
    (hlt : n < w.emitted.length) : (c.leave w i t (some call') exit).FeedInv aes w := by
  have hpub : (c.leave w i t (some call') exit).published = c.published ++ [(n, reading)] := by
    rw [leave_published, hobt, Option.bind_some, hn]
    rfl
  constructor
  · intro j u call₁ hj hc
    rw [leave_tasks] at hj
    rcases update_eq_some hj with ⟨-, rfl⟩ | ⟨-, hold⟩
    · cases hc
      exact hsound
    · exact h.calls j u call₁ hold hc
  · rw [hpub]
    intro p hp
    rcases List.mem_append.mp hp with hold | hnew
    · exact h.past p hold
    · rw [List.mem_singleton.mp hnew]
      exact hlt
  · intro j call₁ k hj
    rw [leave_phaseOf] at hj
    split at hj
    · cases hj
    · next hji =>
      have hi : c.Reading i := ⟨call, phaseOf_some.mpr ⟨t, ht, hphase⟩⟩
      exact absurd (hlock.reading_unique ⟨call₁, hj⟩ hi) hji
  · rw [hpub, leave_lastReading, hobt, List.getLast?_concat]
    rfl

theorem begin (h : c.FeedInv aes w) (i : ℕ) (t : Task) (device : BLEDevice) :
    (c.begin w i t device).FeedInv aes w := by
  refine h.update (u := { t with phase := .reading (Call.start device w.now) }) rfl rfl rfl ?_ ?_
  · intro call hcall
    cases hcall
    exact Call.start_sound aes w.emitted device w.now
  · intro call k hphase hk
    cases hphase
    cases hk

theorem notify (h : c.FeedInv aes w) {i n k : ℕ} {t : Task} {call : Call} {raw : Bytes}
    (ht : c.tasks i = some t) (hcall : t.phase.call = some call) (hk : call.since = some k)
    (hle : k ≤ n) (hn : w.emitted[n]? = some raw) :
    (c.setTask i { t with
      phase := t.phase.mapCall fun call => call.absorb aes n raw }).FeedInv aes w := by
  have hsound := Call.absorb_sound (h.calls i t call ht hcall) hk hle hn
  refine h.update (i := i)
    (u := { t with phase := t.phase.mapCall fun call => call.absorb aes n raw }) rfl rfl rfl ?_ ?_
  · intro call' hcall'
    cases hphase : t.phase with
    | queued =>
      rw [hphase] at hcall
      cases hcall
    | reading call₁ | ended call₁ result =>
      rw [hphase] at hcall hcall'
      cases hcall
      cases hcall'
      exact hsound
  · intro call' k' hphase' hk'
    cases hphase : t.phase with
    | queued | ended call₁ result =>
      rw [hphase] at hphase'
      cases hphase'
    | reading call₁ =>
      rw [hphase] at hphase'
      cases hphase'
      refine h.ahead i call₁ k' (phaseOf_some.mpr ⟨t, ht, hphase⟩) ?_
      rcases Call.absorb_cases aes call₁ n raw with hsame | ⟨reading, -, -, hnew⟩
      · rw [← hsame]
        exact hk'
      · have habsorbed : (call₁.absorb aes n raw).since = some k' := hk'
        rw [hnew] at habsorbed
        exact habsorbed

/-- A queued task is added. -/
theorem arrive (h : c.FeedInv aes w) (source : Source) (device : Option BLEDevice) :
    (c.arrive w source device).FeedInv aes w :=
  h.update (u := ⟨source, device, w.now, c.log.length, .queued⟩) rfl rfl rfl
    (fun call hcall => by cases hcall) (fun call k hphase => by cases hphase)

theorem move (h : c.FeedInv aes w) (hlock : c.LockInv) (hm : Move aes w c c') :
    c'.FeedInv aes w := by
  have same : ∀ lock : Lock ℕ, ({ c with pollLock := lock } : Coordinator).FeedInv aes w :=
    fun _ => ⟨h.calls, h.past, h.ahead, h.last⟩
  cases hm with
  | push | add _ | tick => exact ⟨h.calls, h.past, h.ahead, h.last⟩
  | arrive source device _ => exact h.arrive source device
  | begin _ _ _ => exact (same _).begin ..
  | skip _ _ _ => exact (same _).leave_none _ _ _ (fun _ hc => by cases hc) rfl
  | @resume i t call call' o ht hphase _ hr _ =>
    refine h.update (u := { t with phase := .reading call' }) rfl rfl rfl ?_ ?_
    · intro call₁ hcall
      cases hcall
      exact h.call_resume ht hphase hr
    · intro call₁ k hphase' hk
      cases hphase'
      exact h.ahead_resume ht hphase hr hk
  | @finish i t call call' o exit ht hphase _ hr hexit =>
    have hsound := h.call_resume ht hphase hr
    cases hobt : (PollExit.read exit).obtained with
    | none =>
      refine h.leave_none _ _ _ (fun call₁ hc => ?_) hobt
      cases hc
      exact hsound
    | some reading =>
      cases PollExit.eq_of_obtained hobt
      obtain ⟨n, hn, -, hdec⟩ := h.obtained ht hphase hr hexit
      exact h.leave_some hlock ht hphase hsound hobt hn hdec.lt
  | notify ht hcall hk hle hn => exact h.notify ht hcall hk hle hn

theorem time (h : c.FeedInv aes w) (hw : w.Later w') : c.FeedInv aes w' := by
  rcases hw.emitted with hsame | ⟨raw, hnew⟩
  · exact ⟨hsame ▸ h.calls, hsame ▸ h.past, h.ahead, h.last⟩
  · refine ⟨fun i t call ht hc => ?_, fun p hp => ?_, h.ahead, h.last⟩
    · rw [hnew]
      exact (h.calls i t call ht hc).emit raw
    · rw [hnew, List.length_append]
      exact Nat.lt_add_right _ (h.past p hp)

theorem new (aes : Aes) (w : World) (address : String) :
    (Coordinator.new address).asyncInit.asyncStart.FeedInv aes w := by
  constructor <;> simp [Coordinator.new, asyncInit, asyncStart, phaseOf]

end FeedInv

/-! ## A run of the coordinator is a run of the reader -/

section
variable {aes : Aes} {w w' : World} {c c' : Coordinator}

/-- Storing a reading picks the notification that it comes from; no other move touches the feed. -/
theorem Move.refines (h : c.FeedInv aes w) (hm : Move aes w c c') :
    Reaches (Picking.step (decode aes)) Free (c.feed w) (c'.feed w) := by
  have same : c'.published = c.published →
      Reaches (Picking.step (decode aes)) Free (c.feed w) (c'.feed w) := by
    intro hpub
    unfold feed
    rw [hpub]
    exact .refl
  cases hm with
  | push | add _ | tick | arrive _ _ _ | begin _ _ _ | resume _ _ _ _ _ | notify _ _ _ _ _ =>
    exact same rfl
  | skip _ _ _ =>
    apply same
    rw [leave_published]
    exact List.append_nil _
  | @finish i t call call' o exit ht hphase _ hr hexit =>
    cases hobt : (PollExit.read exit).obtained with
    | none =>
      apply same
      rw [leave_published, hobt]
      exact List.append_nil _
    | some reading =>
      cases PollExit.eq_of_obtained hobt
      obtain ⟨n, hn, hahead, hdec⟩ := h.obtained ht hphase hr hexit
      refine .single (e := .pick n) trivial ?_
      unfold feed Picking.step
      rw [leave_published, hobt, Option.bind_some, hn]
      simp only [decode_of_decodes hdec]
      rw [if_pos hahead]
      rfl

theorem time_refines (hw : w.Later w') :
    Reaches (Picking.step (decode aes)) Free (c.feed w) (c.feed w') := by
  unfold feed
  rcases hw.emitted with hsame | ⟨raw, hnew⟩
  · rw [hsame]
    exact .refl
  · rw [hnew]
    exact .single (e := .emit raw) trivial rfl

/-- What is stored in `_last_reading` and what is published agree. -/
def Stores (c c' : Coordinator) : Prop :=
  (c'.published = c.published ∧ c'.lastReading = c.lastReading) ∨
  ∃ n reading, c'.published = c.published ++ [(n, reading)] ∧ c'.lastReading = some reading

theorem leave_stores (w : World) (c : Coordinator) (i : ℕ) (t : Task) (call : Option Call)
    (exit : PollExit) : c.Stores (c.leave w i t call exit) := by
  unfold Stores
  rw [leave_published, leave_lastReading]
  cases exit.obtained with
  | none => exact .inl ⟨List.append_nil _, rfl⟩
  | some reading => exact .inr ⟨_, reading, rfl, rfl⟩

theorem step_stores {e : Event} (h : c.step aes w e = some c') : c.Stores c' := by
  have settles : ∀ {free c₁ c₂}, Settles aes w free c₁ c₂ → c₁.Stores c₂ := by
    intro free c₁ c₂ hsettles
    cases hsettles with
    | waits _ => exact .inl ⟨rfl, rfl⟩
    | begins _ _ _ _ => exact .inl ⟨rfl, rfl⟩
    | skips _ _ _ _ => exact leave_stores w _ _ _ none .noDevice
  cases step_stepped h with
  | skipped _ => exact .inl ⟨rfl, rfl⟩
  | ticked _ hsettles =>
    have hstores := settles hsettles
    exact hstores
  | advertised hsettles =>
    have hstores := settles hsettles
    exact hstores
  | moved _ _ hm =>
    cases hm.move with
    | push | add _ | tick | arrive _ _ _ | begin _ _ _ | resume _ _ _ _ _ | notify _ _ _ _ _ =>
      exact .inl ⟨rfl, rfl⟩
    | skip _ _ _ => exact leave_stores w _ _ _ none .noDevice
    | finish _ _ _ _ _ => exact leave_stores w c _ _ (some _) (.read _)

end

end Coordinator

namespace Sys

variable {aes : Aes} {address : String} {scanInterval : Option ℤ} {ok : Sys → Event → Prop}
  {s s' : Sys}

/-- One event stores at most one reading. -/
theorem stored {e : Event} (h : s.step aes e = some s') : s.coord.Stores s'.coord := by
  cases e with
  | world e =>
    obtain ⟨w, -, rfl⟩ := Option.map_eq_some_iff.mp h
    exact .inl ⟨rfl, rfl⟩
  | coord e =>
    obtain ⟨c, hc, rfl⟩ := Option.map_eq_some_iff.mp h
    exact Coordinator.step_stores hc

def feed (s : Sys) : Picking.Feed Bytes PowerReading := s.coord.feed s.world

/-- A run of the coordinator is a run of a reader that picks in order. -/
theorem refines (hlock : s.coord.LockInv) (hfeed : s.coord.FeedInv aes s.world)
    (h : Reaches (step aes) ok s s') :
    s'.coord.FeedInv aes s'.world ∧
      Reaches (Picking.step (decode aes)) Free s.feed s'.feed := by
  have hall := Sys.invariant (P := fun w c => c.LockInv ∧ c.FeedInv aes w ∧
      Reaches (Picking.step (decode aes)) Free s.feed (c.feed w)) ?_ ?_ h ⟨hlock, hfeed, .refl⟩
  · exact hall.2
  · rintro w w' c ⟨hl, hf, hr⟩ hw
    exact ⟨hl, hf.time hw, hr.trans (Coordinator.time_refines hw)⟩
  · rintro w c c' ⟨hl, hf, hr⟩ hm
    exact ⟨hl.move hm, hf.move hl hm, hr.trans (hm.refines hf)⟩

theorem init_refines (h : Reaches (step aes) ok (init address scanInterval) s) :
    s.coord.FeedInv aes s.world ∧
      Reaches (Picking.step (decode aes)) Free Picking.Feed.empty s.feed :=
  refines (.new address) (.new aes _ address) h

/-- The energy that the sensor shows. -/
def energy (s : Sys) : Option ℚ := s.coord.nativeValue energySensor

theorem energy_eq (hfeed : s.coord.FeedInv aes s.world) :
    s.energy = (s.coord.published.getLast?.map Prod.snd).map PowerReading.accumWh := by
  unfold energy Coordinator.nativeValue
  rw [hfeed.last]
  cases s.coord.published.getLast?.map Prod.snd <;> rfl

/-- At most one call at a time reads the plug, what is stored in `_last_reading` is a subsequence
of what the plug emitted, and the energy that is shown, that of the last reading, never decreases if
the counter does not. -/
theorem published_in_order (h : Reachable aes address scanInterval s) :
    (∀ i j, s.coord.Reading i → s.coord.Reading j → i = j) ∧
    s.coord.published.Sublist (Picking.numbered (decode aes) s.world.emitted) ∧
    s.coord.lastReading = s.coord.published.getLast?.map Prod.snd ∧
    s.energy = (s.coord.published.getLast?.map Prod.snd).map PowerReading.accumWh ∧
    (∀ e s', s.step aes e = some s' → s.coord.Stores s'.coord) ∧
    ∀ s', Reaches (step aes) Free s s' →
      s.coord.published <+: s'.coord.published ∧
      ((Picking.numbered (decode aes) s'.world.emitted).Pairwise
          (fun p q => p.2.accumWh ≤ q.2.accumWh) →
        ∀ e, s.energy = some e → ∃ e', s'.energy = some e' ∧ e ≤ e') := by
  have hlock := lockInv h
  obtain ⟨hfeed, hstart⟩ := init_refines h
  refine ⟨fun i j => hlock.reading_unique, Picking.picked_sublist hstart, hfeed.last,
    energy_eq hfeed, fun e s' => stored, fun s' h' => ?_⟩
  obtain ⟨hfeed', hrun⟩ := refines hlock hfeed h'
  refine ⟨Picking.picked_prefix hrun, fun hmono e he => ?_⟩
  rw [energy_eq hfeed] at he
  obtain ⟨reading, hlast, rfl⟩ := Option.map_eq_some_iff.mp he
  obtain ⟨reading', hlast', hle⟩ := Picking.last_le hstart hrun hmono hlast
  refine ⟨reading'.accumWh, ?_, hle⟩
  rw [energy_eq hfeed']
  exact congrArg (Option.map PowerReading.accumWh) hlast'

theorem published_in_order_twoPolls :
    (after twoPolls).coord.published = [(0, capturedRecord.reading), (1, capturedRecord.reading)] ∧
    (after twoPolls).coord.published.Sublist
      (Picking.numbered (decode capturedAes) (after twoPolls).world.emitted) :=
  ⟨by decide +kernel, (published_in_order (after_reachable (by decide +kernel))).2.1⟩

end Sys

end GoveeH5086
