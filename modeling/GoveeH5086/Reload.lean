import GoveeH5086.Entry

/-!
# Polls across unload and reload

The lock that keeps polls apart belongs to a coordinator, and a reload builds a new one.

1. `Hass.Orderly`: a coordinator is torn down only while no poll with a device waits for its lock,
   and a new one is built only while no call is in progress.
2. `EntryInv.step`: in an orderly run every coordinator but the last is dead and reads nothing.
3. `Hass.one_connection`: in an orderly run at most one call is in progress, and none is begun for
   an entry that was unloaded.
4. `Hass.reload_polls_twice`: a reload during a poll makes two at once.
-/

namespace GoveeH5086
open BigEndian FifoLock Runs
open Sys (plug)

namespace Hass

/-- Task `i` of coordinator `k` is inside `_read_one_notification`. -/
def Reads (h : Hass) (k i : ℕ) : Prop := ∃ c, h.coords k = some c ∧ c.Reading i

/-- The call of `_read_one_notification` that coordinator `k` has in progress. -/
def inProgress (h : Hass) (k : ℕ) : Option Call := (h.coords k).bind Coordinator.current

/-- Coordinators are torn down while no poll with a device waits, and built, and started, while no
call is in progress. -/
def Orderly (h : Hass) : Event → Prop
  | .setup (some _) started => started = true ∧ ∀ k < h.built, h.inProgress k = none
  | .entrySetupsForwarded false | .platformsUnloaded true =>
    ∀ c ∈ h.data.bind h.coords, c.NoneWaits
  | _ => True

end Hass

/-! ## Changes that start nothing -/

namespace Coordinator

/-- The tasks, the lock and the log stay, and nothing is turned on. -/
structure Calmer (c c' : Coordinator) : Prop where
  tasks : c'.tasks = c.tasks
  nextTask : c'.nextTask = c.nextTask
  pollLock : c'.pollLock = c.pollLock
  log : c'.log = c.log
  fallback : c.fallbackLive = false → c'.fallbackLive = false
  subscribed : c.subscribed = false → c'.subscribed = false

namespace Calmer

variable {c c' c'' : Coordinator}

theorem reading (h : c.Calmer c') {i : ℕ} : c'.Reading i ↔ c.Reading i := by
  unfold Reading phaseOf
  rw [h.tasks]

theorem lock (h : c.Calmer c') (hlock : c.LockInv) : c'.LockInv := by
  constructor
  · rw [h.tasks, h.nextTask]
    exact hlock.fresh
  · rw [h.pollLock]
    exact hlock.nodup
  · unfold phaseOf
    rw [h.pollLock, h.tasks]
    exact hlock.queued
  · intro i
    rw [h.pollLock, h.reading]
    exact hlock.reading i

theorem noneWaits (h : c.Calmer c') (hwaits : c.NoneWaits) : c'.NoneWaits := by
  unfold NoneWaits
  rw [h.pollLock, h.tasks]
  exact hwaits

theorem dead (h : c.Calmer c') (hdead : c.Dead) : c'.Dead :=
  ⟨h.fallback hdead.fallback, h.subscribed hdead.subscribed, h.noneWaits hdead.waits⟩

theorem trans (h : c.Calmer c') (h' : c'.Calmer c'') : c.Calmer c'' :=
  ⟨h'.tasks.trans h.tasks, h'.nextTask.trans h.nextTask, h'.pollLock.trans h.pollLock,
    h'.log.trans h.log, fun hc => h'.fallback (h.fallback hc),
    fun hc => h'.subscribed (h.subscribed hc)⟩

end Calmer

/-- Both callbacks of a coordinator. -/
def tornDown (c : Coordinator) : Coordinator := c.asyncStopFallback.stop

theorem tornDown_calmer (c : Coordinator) : c.Calmer c.tornDown :=
  ⟨rfl, rfl, rfl, rfl, fun _ => rfl, fun _ => rfl⟩

theorem tornDown_dead {c : Coordinator} (h : c.NoneWaits) : c.tornDown.Dead := ⟨rfl, rfl, h⟩

theorem removeListeners_calmer (c : Coordinator) : c.Calmer c.removeListeners :=
  ⟨rfl, rfl, rfl, rfl, id, id⟩

theorem addSensors_calmer (w : World) (ds : List GoveeSensorDescription) (c : Coordinator) :
    c.Calmer (ds.foldl (addSensor w) c) := by
  induction ds generalizing c with
  | nil => exact ⟨rfl, rfl, rfl, rfl, id, id⟩
  | cons d ds ih =>
    have hone : c.Calmer (c.addSensor w d) := ⟨rfl, rfl, rfl, rfl, id, id⟩
    exact hone.trans (ih _)

end Coordinator

/-! ## The invariant -/

/-- Every coordinator but the last is dead and reads nothing, and so is, apart from its last call,
every coordinator that was unloaded. -/
structure Kept (coords : ℕ → Option Coordinator) (built : ℕ) (unloaded : List ℕ) : Prop where
  fresh : ∀ k c, coords k = some c → k < built
  lock : ∀ k c, coords k = some c → c.LockInv
  past : ∀ k c, coords k = some c → k + 1 < built → c.Dead ∧ ∀ i, ¬ c.Reading i
  unloaded : ∀ k ∈ unloaded, k < built ∧ ∀ c, coords k = some c → c.Dead

structure EntryInv (h : Hass) : Prop where
  kept : Kept h.coords h.built h.unloaded
  idle : h.stage = .notLoaded → h.onUnload = [] ∧ ∀ k c, h.coords k = some c → c.Dead
  active : h.stage ≠ .notLoaded → ∃ k, k + 1 = h.built ∧ h.data = some k ∧
    h.onUnload = [.stop k, .asyncStopFallback k]

namespace Kept

variable {coords : ℕ → Option Coordinator} {built : ℕ} {unloaded : List ℕ}

/-- One coordinator changes. -/
theorem update (h : Kept coords built unloaded) {k : ℕ} {c c' : Coordinator}
    (hc : coords k = some c) (hlock : c'.LockInv) (hdead : c.Dead → c'.Dead)
    (hreading : c.Dead → ∀ i, c'.Reading i → c.Reading i) :
    Kept (Function.update coords k (some c')) built unloaded := by
  constructor
  · intro j x hx
    rcases update_eq_some hx with ⟨rfl, -⟩ | ⟨-, hold⟩
    · exact h.fresh j c hc
    · exact h.fresh j x hold
  · intro j x hx
    rcases update_eq_some hx with ⟨-, rfl⟩ | ⟨-, hold⟩
    · exact hlock
    · exact h.lock j x hold
  · intro j x hx hlt
    rcases update_eq_some hx with ⟨rfl, rfl⟩ | ⟨-, hold⟩
    · obtain ⟨hd, hr⟩ := h.past _ c hc hlt
      exact ⟨hdead hd, fun i hi => hr i (hreading hd i hi)⟩
    · exact h.past j x hold hlt
  · intro j hj
    obtain ⟨hlt, hd⟩ := h.unloaded j hj
    refine ⟨hlt, fun x hx => ?_⟩
    rcases update_eq_some hx with ⟨rfl, rfl⟩ | ⟨-, hold⟩
    · exact hdead (hd c hc)
    · exact hd x hold

theorem modify (h : Kept coords built unloaded) (k : ℕ) {f : Coordinator → Coordinator}
    (hf : ∀ c : Coordinator, c.Calmer (f c)) :
    Kept (Function.update coords k ((coords k).map f)) built unloaded := by
  cases hc : coords k with
  | none =>
    rw [Option.map_none, ← hc, Function.update_eq_self]
    exact h
  | some c =>
    exact h.update hc ((hf c).lock (h.lock k c hc)) (hf c).dead
      fun _ i hi => (hf c).reading.mp hi

/-- The last coordinator decides whether all are dead. -/
theorem all_dead (h : Kept coords built unloaded)
    (hlast : ∀ k c, k + 1 = built → coords k = some c → c.Dead) :
    ∀ k c, coords k = some c → c.Dead := by
  intro k c hc
  rcases Nat.lt_or_eq_of_le (Nat.succ_le_of_lt (h.fresh k c hc)) with hlt | heq
  · exact (h.past k c hc hlt).1
  · exact hlast k c heq hc

/-- The last coordinator is torn down while no poll with a device waits for its lock. -/
theorem tearDown (h : Kept coords built unloaded) {k : ℕ} (hk : k + 1 = built)
    (hwaits : ∀ c, coords k = some c → c.NoneWaits) :
    Kept (Function.update coords k ((coords k).map Coordinator.tornDown)) built (unloaded ++ [k]) ∧
    ∀ j c, Function.update coords k ((coords k).map Coordinator.tornDown) j = some c → c.Dead := by
  have hkept := h.modify k Coordinator.tornDown_calmer
  have hdead := hkept.all_dead fun j x hj hx => by
    cases Nat.succ.inj (hj.trans hk.symm)
    rw [Function.update_self] at hx
    obtain ⟨c, hc, rfl⟩ := Option.map_eq_some_iff.mp hx
    exact Coordinator.tornDown_dead (hwaits c hc)
  refine ⟨⟨hkept.fresh, hkept.lock, hkept.past, fun j hj => ⟨?_, hdead j⟩⟩, hdead⟩
  rcases List.mem_append.mp hj with hold | hnew
  · exact (h.unloaded j hold).1
  · rw [List.mem_singleton.mp hnew, ← hk]
    exact Nat.lt_succ_self k

/-- What was unloaded may be forgotten. -/
theorem weaken {k : ℕ} (h : Kept coords built (unloaded ++ [k])) : Kept coords built unloaded :=
  ⟨h.fresh, h.lock, h.past, fun j hj => h.unloaded j (List.mem_append_left _ hj)⟩

/-- A new coordinator, while the others are dead and no call is in progress. -/
theorem build (h : Kept coords built unloaded) (hdead : ∀ k c, coords k = some c → c.Dead)
    (hquiet : ∀ k c, coords k = some c → ∀ i, ¬ c.Reading i) {c : Coordinator} (hc : c.LockInv) :
    Kept (Function.update coords built (some c)) (built + 1) unloaded := by
  constructor
  · intro j x hx
    rcases update_eq_some hx with ⟨rfl, -⟩ | ⟨-, hold⟩
    · exact Nat.lt_succ_self _
    · exact Nat.lt_succ_of_lt (h.fresh j x hold)
  · intro j x hx
    rcases update_eq_some hx with ⟨-, rfl⟩ | ⟨-, hold⟩
    · exact hc
    · exact h.lock j x hold
  · intro j x hx hlt
    rw [Function.update_of_ne (Nat.ne_of_lt (Nat.lt_of_succ_lt_succ hlt))] at hx
    exact ⟨hdead j x hx, hquiet j x hx⟩
  · intro j hj
    obtain ⟨hlt, hd⟩ := h.unloaded j hj
    refine ⟨Nat.lt_succ_of_lt hlt, fun x hx => ?_⟩
    rw [Function.update_of_ne (Nat.ne_of_lt hlt)] at hx
    exact hd x hx

end Kept

namespace Hass

theorem processOnUnload_idle {h : Hass} (hu : h.onUnload = []) : h.processOnUnload = h := by
  obtain ⟨world, coords, built, data, onUnload, stage, unloaded⟩ := h
  cases hu
  rfl

theorem processOnUnload_active {h : Hass} {k : ℕ}
    (hu : h.onUnload = [.stop k, .asyncStopFallback k]) :
    h.processOnUnload = { h.modify k Coordinator.tornDown with onUnload := [] } := by
  unfold processOnUnload
  rw [hu]
  simp only [List.foldr_cons, List.foldr_nil, call, modify, Function.update_self,
    Function.update_idem, Option.map_map]
  rfl

/-! ## The logs -/

def logOf (h : Hass) (k : ℕ) : Option (List LogEntry) := (h.coords k).map Coordinator.log

section
variable (h : Hass)

theorem modify_logOf (j : ℕ) (f : Coordinator → Coordinator) (hf : ∀ c, (f c).log = c.log)
    (k : ℕ) : (h.modify j f).logOf k = h.logOf k := by
  show Option.map _ (Function.update h.coords j ((h.coords j).map f) k) = _
  by_cases hkj : k = j
  · rw [hkj, Function.update_self, Option.map_map, logOf]
    congr 1
    funext c
    exact hf c
  · rw [Function.update_of_ne hkj, logOf]

theorem processOnUnload_logOf (k : ℕ) : h.processOnUnload.logOf k = h.logOf k := by
  have hfold : ∀ fs : List OnUnload, (fs.foldr (fun f h => h.call f) h).logOf k = h.logOf k := by
    intro fs
    induction fs with
    | nil => rfl
    | cons f fs ih =>
      rw [List.foldr_cons, ← ih]
      cases f with
      | stop j => exact modify_logOf _ j Coordinator.stop (fun _ => rfl) k
      | asyncStopFallback j =>
        exact modify_logOf _ j Coordinator.asyncStopFallback (fun _ => rfl) k
  exact hfold h.onUnload

theorem asyncSetupEntry_logOf (device : Option BLEDevice) (started : Bool) {k : ℕ}
    (hk : k ≠ h.built) : (h.asyncSetupEntry device started).logOf k = h.logOf k := by
  have hnew : ∀ c, ({ h with coords := Function.update h.coords h.built (some c) } : Hass).logOf k =
      h.logOf k := by
    intro c
    show Option.map _ (Function.update h.coords h.built (some c) k) = _
    rw [Function.update_of_ne hk, logOf]
  cases device with
  | none => exact processOnUnload_logOf h k
  | some device =>
    cases started with
    | true =>
      exact (modify_logOf _ h.built Coordinator.asyncStart (fun _ => rfl) k).trans (hnew _)
    | false => exact (processOnUnload_logOf _ k).trans (hnew _)

theorem entrySetupsForwarded_logOf (ok : Bool) (k : ℕ) :
    (h.entrySetupsForwarded ok).logOf k = h.logOf k := by
  unfold entrySetupsForwarded
  split
  · split
    · rfl
    · exact modify_logOf h _ _ (fun c => (Coordinator.addSensors_calmer h.world sensors c).log) k
  · exact processOnUnload_logOf h k

theorem platformsUnloaded_logOf (unloaded : Bool) (k : ℕ) :
    (h.platformsUnloaded unloaded).logOf k = h.logOf k := by
  unfold platformsUnloaded
  split
  · split
    · exact processOnUnload_logOf h k
    · exact (processOnUnload_logOf _ k).trans
        (modify_logOf h _ _ (fun c => c.removeListeners_calmer.log) k)
  · rfl

end

end Hass

namespace EntryInv

variable {aes : Aes} {h h' : Hass}

theorem coord (hinv : EntryInv h) {k : ℕ} {c c' : Coordinator} {e : Coordinator.Event}
    (hc : h.coords k = some c) (hstep : c.step aes h.world e = some c') :
    EntryInv { h with coords := Function.update h.coords k (some c') } := by
  have hlock := hinv.kept.lock k c hc
  have hlock' : c'.LockInv := Coordinator.step_invariant (P := Coordinator.LockInv)
    (fun _ _ hl hm => hl.move hm) hstep hlock
  refine ⟨hinv.kept.update hc hlock' (fun hd => (hd.step hstep).dead)
    fun hd i hi => (hd.step hstep).reading hlock hlock' hi, fun hidle => ?_, hinv.active⟩
  obtain ⟨hu, hdead⟩ := hinv.idle hidle
  refine ⟨hu, fun j x (hx : Function.update h.coords k (some c') j = some x) => ?_⟩
  rcases update_eq_some hx with ⟨-, rfl⟩ | ⟨-, hold⟩
  · exact ((hdead k c hc).step hstep).dead
  · exact hdead j x hold

theorem setup (hinv : EntryInv h) (hidle : h.stage = .notLoaded) {device : Option BLEDevice}
    {started : Bool} (hok : h.Orderly (.setup device started)) :
    EntryInv (h.asyncSetupEntry device started) := by
  obtain ⟨hu, hdead⟩ := hinv.idle hidle
  cases device with
  | none =>
    rw [Hass.asyncSetupEntry, Hass.setupRaised, Hass.processOnUnload_idle hu]
    exact ⟨hinv.kept, fun _ => ⟨hu, hdead⟩, fun hne => absurd rfl hne⟩
  | some device =>
    obtain ⟨rfl, hquiet⟩ := hok
    have hnobody : ∀ k c, h.coords k = some c → ∀ i, ¬ c.Reading i := by
      rintro k c hc i ⟨call, hcall⟩
      have hnone := hquiet k (hinv.kept.fresh k c hc)
      rw [Hass.inProgress, hc, Option.bind_some,
        (hinv.kept.lock k c hc).current_iff.mpr ⟨i, hcall⟩] at hnone
      cases hnone
    have hkept := hinv.kept.build hdead hnobody (.new device.address)
    refine ⟨?_, fun hstage => (by cases hstage), fun _ => ⟨h.built, rfl, rfl, ?_⟩⟩
    · have hcoords : (h.asyncSetupEntry (some device) true).coords =
          Function.update h.coords h.built
            (some (Coordinator.new device.address).asyncInit.asyncStart) := by
        simp [Hass.asyncSetupEntry, Hass.modify]
      rw [hcoords]
      exact hkept
    · show h.onUnload ++ _ = _
      rw [hu]
      rfl

theorem entrySetupsForwarded (hinv : EntryInv h) (hstage : h.stage = .settingUp) {ok : Bool}
    (hok : h.Orderly (.entrySetupsForwarded ok)) : EntryInv (h.entrySetupsForwarded ok) := by
  obtain ⟨k, hk, hdata, hu⟩ := hinv.active (by simp [hstage])
  cases ok with
  | true =>
    rw [Hass.entrySetupsForwarded, if_pos rfl, hdata]
    exact ⟨hinv.kept.modify k (Coordinator.addSensors_calmer h.world sensors),
      fun hidle => (by cases hidle), fun _ => ⟨k, hk, hdata, hu⟩⟩
  | false =>
    rw [Hass.entrySetupsForwarded, if_neg (by simp), Hass.setupRaised,
      Hass.processOnUnload_active hu]
    obtain ⟨hkept, hdead⟩ := hinv.kept.tearDown hk fun c hc => hok c (by rw [hdata]; exact hc)
    exact ⟨hkept.weaken, fun _ => ⟨rfl, hdead⟩, fun hne => absurd rfl hne⟩

theorem platformsUnloaded (hinv : EntryInv h) (hstage : h.stage = .unloading) {unloaded : Bool}
    (hok : h.Orderly (.platformsUnloaded unloaded)) : EntryInv (h.platformsUnloaded unloaded) := by
  obtain ⟨k, hk, hdata, hu⟩ := hinv.active (by simp [hstage])
  cases unloaded with
  | true =>
    have hactive := Hass.processOnUnload_active (k := k)
      (h := { h.modify k Coordinator.removeListeners with
        data := none, unloaded := h.unloaded ++ [k] }) hu
    rw [Hass.platformsUnloaded, if_pos rfl, hdata]
    simp only [hactive]
    have hremoved := hinv.kept.modify k Coordinator.removeListeners_calmer
    obtain ⟨hkept, hdead⟩ := hremoved.tearDown hk fun c hc => by
      rw [Function.update_self] at hc
      obtain ⟨c₀, hc₀, rfl⟩ := Option.map_eq_some_iff.mp hc
      exact c₀.removeListeners_calmer.noneWaits (hok c₀ (by rw [hdata]; exact hc₀))
    exact ⟨hkept, fun _ => ⟨rfl, hdead⟩, fun hne => absurd rfl hne⟩
  | false =>
    rw [Hass.platformsUnloaded, if_neg (by simp)]
    exact ⟨hinv.kept, fun hidle => (by cases hidle), fun _ => ⟨k, hk, hdata, hu⟩⟩

/-- Every step of an orderly run keeps the invariant. -/
theorem step (hinv : EntryInv h) {e : Hass.Event} (hok : h.Orderly e)
    (hstep : h.step aes e = some h') : EntryInv h' := by
  cases Hass.step_stepped hstep with
  | world _ => exact ⟨hinv.kept, hinv.idle, hinv.active⟩
  | coord hc hc' => exact hinv.coord hc hc'
  | updateOptions _ => exact ⟨hinv.kept, hinv.idle, hinv.active⟩
  | setup device started hidle => exact hinv.setup hidle hok
  | entrySetupsForwarded ok hstage => exact hinv.entrySetupsForwarded hstage hok
  | unload hstage =>
    exact ⟨hinv.kept, fun hidle => (by cases hidle), fun _ => hinv.active (by simp [hstage])⟩
  | platformsUnloaded unloaded hstage => exact hinv.platformsUnloaded hstage hok

/-- No event makes a coordinator that was unloaded begin a call. -/
theorem unloaded_step (hinv : EntryInv h) {e : Hass.Event} (hstep : h.step aes e = some h') {k : ℕ}
    (hk : k ∈ h.unloaded) {c c' : Coordinator} (hc : h.coords k = some c)
    (hc' : h'.coords k = some c') : pollsMade c'.log = pollsMade c.log := by
  obtain ⟨hlt, hdead⟩ := hinv.kept.unloaded k hk
  -- every event but those of the coordinator itself leaves its log alone
  have same : h'.logOf k = h.logOf k → pollsMade c'.log = pollsMade c.log := by
    intro hlog
    rw [Hass.logOf, Hass.logOf, hc, hc'] at hlog
    rw [Option.some.inj hlog]
  cases Hass.step_stepped hstep with
  | world _ | updateOptions _ | unload _ => exact same rfl
  | setup device started _ =>
    exact same (h.asyncSetupEntry_logOf device started (Nat.ne_of_lt hlt))
  | entrySetupsForwarded ok _ => exact same (h.entrySetupsForwarded_logOf ok k)
  | platformsUnloaded unloaded _ => exact same (h.platformsUnloaded_logOf unloaded k)
  | @coord j _ c₀ c₁ hc₀ hc₁ =>
    rcases update_eq_some hc' with ⟨rfl, rfl⟩ | ⟨-, hold⟩
    · cases hc.symm.trans hc₀
      exact ((hdead c hc).step hc₁).polls
    · cases hc.symm.trans hold
      rfl

theorem init (scanInterval : Option ℤ) : EntryInv (Hass.init scanInterval) := by
  refine ⟨⟨?_, ?_, ?_, ?_⟩, fun _ => ⟨rfl, ?_⟩, fun hne => absurd rfl hne⟩
  all_goals simp [Hass.init]

end EntryInv

namespace Hass

variable {aes : Aes} {scanInterval : Option ℤ} {h : Hass}

/-- In an orderly run at most one call of `_read_one_notification` is in progress over all
coordinators, and no event makes a coordinator whose entry was unloaded begin one. -/
theorem one_connection (hrun : Reaches (step aes) Orderly (init scanInterval) h) :
    (∀ k j i i', h.Reads k i → h.Reads j i' → k = j ∧ i = i') ∧
    ∀ e h', h.step aes e = some h' → ∀ k ∈ h.unloaded, ∀ c c', h.coords k = some c →
      h'.coords k = some c' → pollsMade c'.log = pollsMade c.log := by
  have hinv : EntryInv h :=
    hrun.invariant (.init scanInterval) fun _ _ _ ha hok hs => ha.step hok hs
  have hlast : ∀ k i, h.Reads k i → k + 1 = h.built := by
    rintro k i ⟨c, hc, hreading⟩
    rcases Nat.lt_or_eq_of_le (Nat.succ_le_of_lt (hinv.kept.fresh k c hc)) with hlt | heq
    · exact absurd hreading ((hinv.kept.past k c hc hlt).2 i)
    · exact heq
  refine ⟨fun k j i i' hk hj => ?_, fun e h' hstep k hk c c' hc hc' => ?_⟩
  · cases Nat.succ.inj ((hlast k i hk).trans (hlast j i' hj).symm)
    obtain ⟨c, hc, hi⟩ := hk
    obtain ⟨c', hc', hi'⟩ := hj
    cases hc.symm.trans hc'
    exact ⟨rfl, (hinv.kept.lock k c hc).reading_unique hi hi'⟩
  · exact hinv.unloaded_step hstep hk hc hc'

/-! ## A reload during a poll -/

theorem reads_of {h : Hass} {k i : ℕ}
    (hsome : (((h.coords k).bind fun c => c.phaseOf i).bind Phase.running).isSome = true) :
    h.Reads k i := by
  obtain ⟨call, hcall⟩ := Option.isSome_iff_exists.mp hsome
  obtain ⟨phase, hphase, hrunning⟩ := Option.bind_eq_some_iff.mp hcall
  obtain ⟨c, hc, hi⟩ := Option.bind_eq_some_iff.mp hphase
  refine ⟨c, hc, call, ?_⟩
  rw [hi]
  cases phase with
  | queued => cases hrunning
  | reading call' =>
    cases hrunning
    rfl
  | ended call' result => cases hrunning

instance : (h : Hass) → (e : Event) → Decidable (h.Orderly e)
  | h, .setup (some _) _ => inferInstanceAs (Decidable (_ ∧ ∀ k < h.built, h.inProgress k = none))
  | h, .entrySetupsForwarded false | h, .platformsUnloaded true =>
    inferInstanceAs (Decidable (∀ c ∈ h.data.bind h.coords, ∀ i ∈ c.pollLock.waiters,
      (c.tasks i).bind Task.device = none))
  | _, .world _ | _, .coord _ _ | _, .updateOptions _ | _, .setup none _
  | _, .entrySetupsForwarded true | _, .unload | _, .platformsUnloaded false => isTrue trivial

/-- The state after given events of an orderly run, on a plug whose packets decode to the captured
record. -/
def orderlyAfter (events : List Event) : Hass :=
  outcome (guarded (step capturedAes) fun h e => decide (h.Orderly e)) (init none) events

/-- The state after given events of any run. -/
def after (events : List Event) : Hass :=
  outcome (guarded (step capturedAes) fun _ _ => true) (init none) events

def setUp : List Event := [.setup (some plug) true, .entrySetupsForwarded true]

/-- The options are changed, and the entry is reloaded. -/
def reload : List Event := .updateOptions 60 :: .unload :: .platformsUnloaded true :: setUp

def reads (k i n : ℕ) : List Event :=
  (Sys.reads i n).filterMap fun
    | .world e => some (.world e)
    | .coord e => some (.coord k e)

/-- Coordinator `0` has a poll in progress when the entry is reloaded; then coordinator `1`
polls. -/
def reloadDuringPoll : List Event :=
  setUp ++ [.coord 0 (.goveePoll (some plug) none)] ++ reload ++
    [.coord 1 (.goveePoll (some plug) none)]

/-- A poll of coordinator `0` waits behind another when the entry is unloaded, and begins after. -/
def unloadWhileWaiting : List Event :=
  setUp ++ [.coord 0 (.goveePoll (some plug) none), .coord 0 (.fallbackTick (some plug)), .unload,
    .platformsUnloaded true] ++ reads 0 0 0

theorem reload_polls_twice :
    (Reaches (step capturedAes) Free (init none) (after reloadDuringPoll) ∧
      (after reloadDuringPoll).Reads 0 0 ∧ (after reloadDuringPoll).Reads 1 0) ∧
    (Reaches (step capturedAes) Free (init none) (after unloadWhileWaiting) ∧
      (after unloadWhileWaiting).unloaded = [0] ∧
      ((after unloadWhileWaiting).coords 0).map (fun c => pollsMade c.log) = some 1 ∧
      ((after (unloadWhileWaiting ++ [.coord 0 .grant])).coords 0).map (fun c => pollsMade c.log) =
        some 2) :=
  ⟨⟨reaches_outcome (by decide +kernel) fun _ _ _ => trivial, reads_of (by decide +kernel),
      reads_of (by decide +kernel)⟩,
    reaches_outcome (by decide +kernel) fun _ _ _ => trivial, by decide +kernel, by decide +kernel,
    by decide +kernel⟩

/-- The poll of coordinator `0` is over when the entry is reloaded. -/
def reloadAfterPoll : List Event :=
  setUp ++ .coord 0 (.goveePoll (some plug) none) :: reads 0 0 0 ++ reload ++
    [.coord 1 (.goveePoll (some plug) none)]

theorem one_connection_reloadAfterPoll :
    (orderlyAfter reloadAfterPoll).Reads 1 0 ∧
    ∀ k i, (orderlyAfter reloadAfterPoll).Reads k i → k = 1 ∧ i = 0 := by
  have hreached : Reaches (step capturedAes) Orderly (init none) (orderlyAfter reloadAfterPoll) :=
    reaches_outcome (by decide +kernel) fun _ _ => of_decide_eq_true
  have hreads : (orderlyAfter reloadAfterPoll).Reads 1 0 := reads_of (by decide +kernel)
  exact ⟨hreads, fun k i hk => (one_connection hreached).1 k 1 i 0 hk hreads⟩

end Hass

end GoveeH5086
