import Mathlib.Data.List.InsertIdx
import GoveeH5086.ConfigFlow
import GoveeH5086.Library.Reservation

/-!
# Each plug is configured once

A flow reserves the address of its plug as its unique id, checks that no entry has it, and creates
the entry later: the manager refines `Reservation`.

1. `ConfigFlow.Inv`, `Turn.Inv`: a flow offers and adds only what it saw advertised under an
   accepted name.
2. `Turn.Acts`: what a turn does with the reservation of its flow.
3. `FlowManager.Refines.step`: every event is answered by a run of `Reservation`.
4. `FlowManager.configured_once`: no two entries have the same address.
5. `FlowManager.submit_creates_iff`: what is offered can be added unless another flow holds it or
   an entry has it.
-/

namespace GoveeH5086
open Runs

/-! ## What a flow saw -/

/-- The address was advertised under a name that `is_h5086_local_name` accepts. -/
def Advertised (saw : List BluetoothServiceInfo) (address : String) : Prop :=
  ∃ info ∈ saw, info.address = address ∧ isH5086LocalName (some info.name) = true

theorem Advertised.mono {saw saw' : List BluetoothServiceInfo} {address : String}
    (h : Advertised saw address) (hsub : ∀ info ∈ saw, info ∈ saw') : Advertised saw' address := by
  obtain ⟨info, hmem, hrest⟩ := h
  exact ⟨info, hsub info hmem, hrest⟩

/-- What is known of a flow, from where it is. -/
def ConfigFlow.PointInv (flow : ConfigFlow) : Prop :=
  match flow.point with
  | .bluetooth info => flow.uniqueId = some info.address ∧ Advertised flow.saw info.address
  | .user address => flow.uniqueId = some address ∧ Advertised flow.saw address
  | .form (.bluetoothConfirm _ _) => ∃ info, flow.discovery = some info ∧
      flow.uniqueId = some info.address ∧ Advertised flow.saw info.address
  | .form (.user options) => flow.uniqueId = none ∧
      ∀ address ∈ Dict.keys options, Advertised flow.saw address

structure ConfigFlow.Inv (flow : ConfigFlow) : Prop where
  discovered : ∀ address ∈ Dict.keys flow.discovered, Advertised flow.saw address
  point : flow.PointInv

theorem ConfigFlow.Inv.known {flow : ConfigFlow} {point : FlowPoint} (h : flow.Inv)
    (hpoint : flow.point = point) : ConfigFlow.PointInv { flow with point := point } := by
  subst hpoint
  exact h.point

/-- The entry's address is its unique id, and was advertised when its flow saw it. -/
def ConfigEntry.Inv (e : ConfigEntry) : Prop :=
  e.uniqueId = some e.address ∧ Advertised e.saw e.address

/-- A turn leaves a flow and an entry that are right, and no assertion fails. -/
structure Turn.Inv (turn : Turn) : Prop where
  kept : ∀ flow, turn.kept = some flow → flow.Inv
  created : ∀ e ∈ turn.created, e.Inv
  asserted : turn.result ≠ some .assertionError

/-! ## What a turn does with the reservation -/

/-- The flow waits for its discovery to be confirmed. -/
def ConfigFlow.Confirming (flow : ConfigFlow) : Prop :=
  ∃ name address, flow.point = .form (.bluetoothConfirm name address)

/-- What a turn of flow `f`, which was `old`, does with its reservation. -/
inductive Turn.Acts (s : FlowManager) (f : ℕ) (old : ConfigFlow) (turn : Turn) : Prop
  | ends : turn.kept = none → turn.created = [] → Turn.Acts s f old turn
  | shows {flow : ConfigFlow} : turn.kept = some flow → turn.created = [] → flow.uniqueId = none →
      ¬ flow.Confirming → Turn.Acts s f old turn
  | reserves {flow : ConfigFlow} {uniqueId : String} : turn.kept = some flow → turn.created = [] →
      flow.uniqueId = some uniqueId → ¬ flow.Confirming → ¬ s.InProgress f uniqueId →
      Turn.Acts s f old turn
  | checks {flow : ConfigFlow} {uniqueId : String} : turn.kept = some flow → turn.created = [] →
      flow.uniqueId = some uniqueId → old.uniqueId = some uniqueId →
      some uniqueId ∉ s.currentIds → Turn.Acts s f old turn
  | keeps {flow : ConfigFlow} : turn.kept = some flow → turn.created = [] →
      flow.uniqueId = old.uniqueId → old.Confirming → Turn.Acts s f old turn
  | commits {e : ConfigEntry} : turn.kept = none → turn.created = [e] →
      e.uniqueId = old.uniqueId → old.Confirming → Turn.Acts s f old turn
  | adds {e : ConfigEntry} {uniqueId : String} : turn.kept = none → turn.created = [e] →
      e.uniqueId = some uniqueId → old.uniqueId = some uniqueId → some uniqueId ∉ s.currentIds →
      Turn.Acts s f old turn

/-! ## Every turn is good -/

section
variable {s : FlowManager} {f : ℕ} {flow : ConfigFlow}

/-- An abort changes nothing but the flow. -/
theorem Turn.abort_inv (flow : ConfigFlow) (reason : AbortReason) :
    Turn.Inv ⟨flow, some (.abort reason)⟩ :=
  ⟨nofun, nofun, nofun⟩

theorem FlowManager.asyncSetUniqueId_good {uniqueId : String} {point : FlowPoint}
    (hdiscovered : ∀ address ∈ Dict.keys flow.discovered, Advertised flow.saw address)
    (hseen : Advertised flow.saw uniqueId)
    (hpoint : (∃ info, point = .bluetooth info ∧ info.address = uniqueId) ∨
      point = .user uniqueId) :
    (s.asyncSetUniqueId f flow uniqueId point).Inv ∧
      (s.asyncSetUniqueId f flow uniqueId point).Acts s f flow := by
  unfold asyncSetUniqueId
  split
  · exact ⟨Turn.abort_inv .., .ends rfl rfl⟩
  · next hfree =>
    refine ⟨⟨fun flow' hkept => ?_, nofun, nofun⟩, .reserves rfl rfl rfl ?_ hfree⟩
    · cases hkept
      refine ⟨hdiscovered, ?_⟩
      rcases hpoint with ⟨info, rfl, rfl⟩ | rfl
      · exact ⟨rfl, hseen⟩
      · exact ⟨rfl, hseen⟩
    · rintro ⟨name, address, h⟩
      rcases hpoint with ⟨info, rfl, -⟩ | rfl <;> cases h

theorem FlowManager.asyncStepBluetooth_good (info : BluetoothServiceInfo) :
    (s.asyncStepBluetooth f (newFlow (.bluetooth info) [info]) info).Inv ∧
      (s.asyncStepBluetooth f (newFlow (.bluetooth info) [info]) info).Acts s f
        (newFlow (.bluetooth info) [info]) := by
  unfold asyncStepBluetooth
  split
  · exact ⟨Turn.abort_inv .., .ends rfl rfl⟩
  · next haccepted =>
    refine asyncSetUniqueId_good nofun ⟨info, List.mem_singleton_self _, rfl, ?_⟩
      (.inl ⟨info, rfl, rfl⟩)
    simpa using haccepted

/-- What `_abort_if_unique_id_configured` finds. -/
theorem FlowManager.configured_iff {uniqueId : String} (hid : flow.uniqueId = some uniqueId) :
    s.configured flow = true ↔ some uniqueId ∈ s.currentIds := by
  simp [configured, hid]

theorem FlowManager.bluetoothUniqueIdSet_good {info : BluetoothServiceInfo} (hinv : flow.Inv)
    (hpoint : flow.point = .bluetooth info) :
    (s.bluetoothUniqueIdSet flow info).Inv ∧ (s.bluetoothUniqueIdSet flow info).Acts s f flow := by
  obtain ⟨hid, hseen⟩ := hinv.known hpoint
  unfold bluetoothUniqueIdSet
  split
  · exact ⟨Turn.abort_inv .., .ends rfl rfl⟩
  · next hnew =>
    refine ⟨⟨fun flow' hkept => ?_, nofun, nofun⟩,
      .checks rfl rfl hid hid ((configured_iff hid).not.mp hnew)⟩
    cases hkept
    exact ⟨hinv.discovered, info, rfl, hid, hseen⟩

/-- One turn of the loop of `async_step_user`. -/
theorem FlowManager.discover_cases (s : FlowManager) (flow : ConfigFlow)
    (info : BluetoothServiceInfo) :
    s.discover flow info = flow ∨
    isH5086LocalName (some info.name) = true ∧ ∃ label, s.discover flow info =
      { flow with discovered := Dict.set info.address label flow.discovered } := by
  unfold discover
  split
  · exact .inl rfl
  · split
    · exact .inl rfl
    · next haccepted => exact .inr ⟨by simpa using haccepted, _, rfl⟩

/-- The loop of `async_step_user` offers what is advertised under an accepted name. -/
theorem FlowManager.discover_loop (s : FlowManager) (flow : ConfigFlow)
    (infos : List BluetoothServiceInfo)
    (hdiscovered : ∀ address ∈ Dict.keys flow.discovered, Advertised flow.saw address)
    (hinfos : ∀ info ∈ infos, info ∈ flow.saw) :
    ∃ discovered, infos.foldl s.discover flow = { flow with discovered := discovered } ∧
      ∀ address ∈ Dict.keys discovered, Advertised flow.saw address := by
  -- what the flow saw stays the same along the loop
  induction infos generalizing flow with
  | nil => exact ⟨flow.discovered, rfl, hdiscovered⟩
  | cons info infos ih =>
    have hinfo : info ∈ flow.saw := hinfos info List.mem_cons_self
    have hrest : ∀ x ∈ infos, x ∈ flow.saw := fun x hx => hinfos x (List.mem_cons_of_mem _ hx)
    rw [List.foldl_cons]
    rcases s.discover_cases flow info with hsame | ⟨haccepted, label, hset⟩
    · rw [hsame]
      exact ih flow hdiscovered hrest
    · rw [hset]
      refine ih _ (fun address hmem => ?_) hrest
      rcases Dict.mem_keys_set.mp hmem with rfl | hold
      · exact ⟨info, hinfo, rfl, haccepted⟩
      · exact hdiscovered address hold

/-- The `user` form is shown, the first time or again. -/
theorem FlowManager.showUser_good (s : FlowManager) (f : ℕ) (flow : ConfigFlow)
    (hdiscovered : ∀ address ∈ Dict.keys flow.discovered, Advertised flow.saw address)
    (hid : flow.uniqueId = none) :
    (s.asyncStepUser f flow none).Inv ∧ (s.asyncStepUser f flow none).Acts s f flow := by
  obtain ⟨discovered, hloop, hseen⟩ :=
    discover_loop s { flow with saw := flow.saw ++ s.infos } s.infos
      (fun address hmem => (hdiscovered address hmem).mono fun _ => List.mem_append_left _)
      fun _ => List.mem_append_right _
  simp only [asyncStepUser, hloop]
  split
  · exact ⟨Turn.abort_inv .., .ends rfl rfl⟩
  · refine ⟨⟨fun flow' hkept => ?_, nofun, nofun⟩, .shows rfl rfl hid nofun⟩
    cases hkept
    exact ⟨hseen, hid, hseen⟩

theorem FlowManager.userUniqueIdSet_good {address : String} (hinv : flow.Inv)
    (hpoint : flow.point = .user address) :
    (s.userUniqueIdSet flow address).Inv ∧ (s.userUniqueIdSet flow address).Acts s f flow := by
  obtain ⟨hid, hseen⟩ := hinv.known hpoint
  unfold userUniqueIdSet
  split
  · exact ⟨Turn.abort_inv .., .ends rfl rfl⟩
  · next hnew =>
    refine ⟨⟨nofun, fun e he => ?_, nofun⟩,
      .adds rfl rfl hid hid ((configured_iff hid).not.mp hnew)⟩
    cases List.mem_singleton.mp he
    exact ⟨hid, hseen⟩

/-- The discovery is there when it is asked for. -/
theorem ConfigFlow.confirm_good {name address : String} (hinv : flow.Inv)
    (hpoint : flow.point = .form (.bluetoothConfirm name address)) (userInput : Option String) :
    (Turn.mk flow (some (flow.asyncStepBluetoothConfirm userInput))).Inv ∧
      (Turn.mk flow (some (flow.asyncStepBluetoothConfirm userInput))).Acts s f flow := by
  obtain ⟨info, hdiscovery, hid, hseen⟩ := hinv.known hpoint
  unfold asyncStepBluetoothConfirm
  rw [hdiscovery]
  cases userInput with
  | none =>
    refine ⟨⟨fun flow' hkept => ?_, nofun, nofun⟩, .keeps rfl rfl rfl ⟨name, address, hpoint⟩⟩
    cases hkept
    exact ⟨hinv.discovered, info, hdiscovery, hid, hseen⟩
  | some _ =>
    refine ⟨⟨nofun, fun e he => ?_, nofun⟩, .commits rfl rfl rfl ⟨name, address, hpoint⟩⟩
    cases List.mem_singleton.mp he
    exact ⟨hid, hseen⟩

theorem FlowManager.uniqueIdSet_good {turn : Turn} (hinv : flow.Inv)
    (hturn : s.uniqueIdSet flow = some turn) : turn.Inv ∧ turn.Acts s f flow := by
  unfold uniqueIdSet at hturn
  split at hturn
  · next info hpoint =>
    cases hturn
    exact bluetoothUniqueIdSet_good hinv hpoint
  · next address hpoint =>
    cases hturn
    exact userUniqueIdSet_good hinv hpoint
  · cases hturn

theorem FlowManager.configure_good {userInput : Option String} {turn : Turn} (hinv : flow.Inv)
    (hturn : s.configure f flow userInput = some turn) : turn.Inv ∧ turn.Acts s f flow := by
  unfold configure at hturn
  split at hturn
  · next name address hpoint =>
    cases hturn
    exact flow.confirm_good hinv hpoint userInput
  · next options hpoint =>
    obtain ⟨haccepted, heq⟩ := Option.ite_none_right_eq_some.mp hturn
    cases heq
    obtain ⟨hid, hoffered⟩ := hinv.known hpoint
    cases userInput with
    | none => exact showUser_good s f flow hinv.discovered hid
    | some address =>
      exact asyncSetUniqueId_good hinv.discovered (hoffered address (haccepted address rfl))
        (.inr rfl)
  · cases hturn
  · cases hturn

end

/-! ## The manager refines the reservation -/

namespace FlowManager

/-- What holds of every flow, every entry and every result. -/
structure Inv (s : FlowManager) : Prop where
  flows : ∀ f flow, s.flow f = some flow → flow.Inv
  entries : ∀ e ∈ s.entries, e.Inv
  asserted : ∀ f, (f, FlowResult.assertionError) ∉ s.results

/-- A flow holds its unique id, and has checked it once it waits for its confirmation. -/
structure Refines (s : FlowManager) (a : Reservation.State ℕ String) : Prop where
  inv : s.Inv
  holder : ∀ f, a.holder f = s.uniqueIdOf f
  checked : ∀ f flow, s.flow f = some flow → flow.Confirming → a.checked f
  records : a.records.map some = s.currentIds

variable {s s' : FlowManager} {a : Reservation.State ℕ String} {f : ℕ}

theorem init_refines : init.Refines Reservation.init :=
  ⟨⟨nofun, nofun, nofun⟩, fun _ => rfl, nofun, rfl⟩

namespace Refines

theorem push (h : s.Refines a) : s.push.Refines a := by
  refine ⟨⟨fun f flow hflow => ?_, h.inv.entries, h.inv.asserted⟩, fun f => ?_,
    fun f flow hflow => ?_, h.records⟩
  · exact h.inv.flows f flow ((s.push_flow f).symm.trans hflow)
  · rw [push_uniqueIdOf]
    exact h.holder f
  · exact h.checked f flow ((s.push_flow f).symm.trans hflow)

/-- A turn is taken, and the reservation of its flow is changed accordingly. -/
theorem settle (h : s.Refines a) (hf : f < s.flows.length) {turn : Turn} (ht : turn.Inv)
    {a' : Reservation.State ℕ String}
    (hself : a'.holder f = turn.kept.bind ConfigFlow.uniqueId)
    (hothers : ∀ g, g ≠ f → a'.holder g = a.holder g ∧ (a.checked g → a'.checked g))
    (hchecked : ∀ flow, turn.kept = some flow → flow.Confirming → a'.checked f)
    (hrecords : a'.records.map some = a.records.map some ++ turn.created.map ConfigEntry.uniqueId) :
    (s.settle f turn).Refines a' := by
  refine ⟨⟨fun g flow hflow => ?_, fun e he => ?_, fun g hg => ?_⟩, fun g => ?_,
    fun g flow hflow hconfirming => ?_, ?_⟩
  · rw [settle_flow hf] at hflow
    split at hflow
    · exact ht.kept flow hflow
    · exact h.inv.flows g flow hflow
  · rcases List.mem_append.mp he with hold | hnew
    · exact h.inv.entries e hold
    · exact ht.created e hnew
  · rcases List.mem_append.mp hg with hold | hnew
    · exact h.inv.asserted g hold
    · obtain ⟨result, hresult, heq⟩ := Option.map_eq_some_iff.mp (Option.mem_toList.mp hnew)
      cases heq
      exact ht.asserted hresult
  · rw [settle_uniqueIdOf hf]
    split
    · next hg => rw [hg, hself]
    · next hg => rw [(hothers g hg).1, h.holder]
  · rw [settle_flow hf] at hflow
    split at hflow
    · next hg =>
      rw [hg]
      exact hchecked flow hflow hconfirming
    · next hg => exact (hothers g hg).2 (h.checked g flow hflow hconfirming)
  · rw [hrecords, h.records, currentIds, currentIds, ← List.map_append]
    rfl

/-- The reservation of the flow is set. -/
theorem settle_set (h : s.Refines a) (hf : f < s.flows.length) {turn : Turn} (ht : turn.Inv)
    (hcreated : turn.created = []) (c : Prop)
    (hchecked : ∀ flow, turn.kept = some flow → flow.Confirming → c) :
    (s.settle f turn).Refines (a.set f (turn.kept.bind ConfigFlow.uniqueId) c) := by
  refine h.settle hf ht (by simp) (fun g hg => ?_) (fun flow hkept hconfirming => ?_) ?_
  · rw [Reservation.set_holder_of_ne _ _ hg, Reservation.set_checked_of_ne _ _ hg]
    exact ⟨rfl, id⟩
  · rw [Reservation.set_checked_self]
    exact hchecked flow hkept hconfirming
  · rw [hcreated, List.map_nil, List.append_nil]
    rfl

/-- The flow ends with an entry. -/
theorem settle_commit (h : s.Refines a) (hf : f < s.flows.length) {turn : Turn} (ht : turn.Inv)
    (hkept : turn.kept = none) {e : ConfigEntry} (hcreated : turn.created = [e]) {uniqueId : String}
    (hid : e.uniqueId = some uniqueId) :
    (s.settle f turn).Refines
      { a.set f none False with records := a.records ++ [uniqueId] } := by
  refine h.settle hf ht ?_ (fun g hg => ?_) (fun flow hflow => ?_) ?_
  · rw [hkept]
    exact Reservation.set_holder_self none False
  · exact ⟨Reservation.set_holder_of_ne none False hg,
      fun hc => (Reservation.set_checked_of_ne none False hg).mpr hc⟩
  · rw [hkept] at hflow
    cases hflow
  · rw [hcreated, List.map_append, List.map_singleton, List.map_singleton, hid]

/-- Whatever a turn does is done by the reservation, too. `s₀` is the manager that takes the turn,
with a number for the flow if it is new. -/
theorem turn (h : s.Refines a) {s₀ : FlowManager} (h₀ : s₀.Refines a) (hf : f < s₀.flows.length)
    {old : ConfigFlow} {turn : Turn} (ht : turn.Inv) (hacts : turn.Acts s f old)
    (hold : s.uniqueIdOf f = old.uniqueId) (hconfirming : old.Confirming → a.checked f) :
    ∃ a', Reaches Reservation.step Free a a' ∧ (s₀.settle f turn).Refines a' := by
  have hholder : a.holder f = old.uniqueId := (h.holder f).trans hold
  have unrecorded : ∀ uniqueId, some uniqueId ∉ s.currentIds → uniqueId ∉ a.records := by
    intro uniqueId hnew hmem
    rw [← h.records] at hnew
    exact hnew (List.mem_map_of_mem hmem)
  have checkable : ∀ uniqueId, old.uniqueId = some uniqueId → some uniqueId ∉ s.currentIds →
      Reservation.step a (.check f) = some (a.set f (some uniqueId) True) := by
    intro uniqueId hid hnew
    rw [← hid, ← hholder]
    refine Reservation.step_check fun k hk => ?_
    rw [hholder, hid] at hk
    cases hk
    exact unrecorded uniqueId hnew
  cases hacts with
  | ends hkept hcreated =>
    have hsettled := h₀.settle_set hf ht hcreated False (by rw [hkept]; nofun)
    rw [hkept] at hsettled
    exact ⟨_, .single trivial (e := .release f) rfl, hsettled⟩
  | shows hkept hcreated hid hnot =>
    have hsettled := h₀.settle_set hf ht hcreated False
      (by rw [hkept]; rintro _ ⟨⟩ hconf; exact hnot hconf)
    rw [hkept, Option.bind_some, hid] at hsettled
    exact ⟨_, .single trivial (e := .release f) rfl, hsettled⟩
  | @reserves flow uniqueId hkept hcreated hid hnot hfree =>
    have hsettled := h₀.settle_set hf ht hcreated False
      (by rw [hkept]; rintro _ ⟨⟩ hconf; exact hnot hconf)
    rw [hkept, Option.bind_some, hid] at hsettled
    refine ⟨_, .single trivial (Reservation.step_reserve fun g hg hheld => ?_), hsettled⟩
    rw [h.holder] at hheld
    exact hfree (inProgress_iff.mpr ⟨g, hg, hheld⟩)
  | @checks flow uniqueId hkept hcreated hid holdId hnew =>
    have hsettled := h₀.settle_set hf ht hcreated True fun _ _ _ => trivial
    rw [hkept, Option.bind_some, hid] at hsettled
    exact ⟨_, .single trivial (checkable uniqueId holdId hnew), hsettled⟩
  | @keeps flow hkept hcreated hid hconf =>
    refine ⟨a, .refl, h₀.settle hf ht ?_ (fun g _ => ⟨rfl, id⟩)
      (fun _ _ _ => hconfirming hconf) ?_⟩
    · rw [hkept, Option.bind_some, hid, hholder]
    · rw [hcreated, List.map_nil, List.append_nil]
  | @commits e hkept hcreated hid hconf =>
    have heid : e.uniqueId = some e.address := (ht.created e (by simp [hcreated])).1
    have hheld : a.holder f = some e.address := hholder.trans (hid.symm.trans heid)
    exact ⟨_, .single trivial (Reservation.step_commit hheld (hconfirming hconf)),
      h₀.settle_commit hf ht hkept hcreated heid⟩
  | @adds e uniqueId hkept hcreated hid holdId hnew =>
    -- the check and the entry in one turn are two steps of the reservation
    have hchecked : (a.set f (some uniqueId) True).checked f :=
      (Reservation.set_checked_self (some uniqueId) True).mpr trivial
    refine ⟨_, (Reaches.single trivial (checkable uniqueId holdId hnew)).tail trivial
      (Reservation.step_commit (Reservation.set_holder_self ..) hchecked), ?_⟩
    rw [Reservation.set_set]
    exact h₀.settle_commit hf ht hkept hcreated hid

/-- Every event is answered by the reservation. -/
theorem step (h : s.Refines a) {e : Event} (hstep : s.step e = some s') :
    ∃ a', Reaches Reservation.step Free a a' ∧ s'.Refines a' := by
  have hnone : s.uniqueIdOf s.flows.length = none := by
    cases hid : s.uniqueIdOf s.flows.length with
    | none => rfl
    | some uniqueId =>
      obtain ⟨flow, hflow, -⟩ := Option.bind_eq_some_iff.mp hid
      exact absurd (flow_lt hflow) (lt_irrefl _)
  cases step_stepped hstep with
  | bluetooth info =>
    obtain ⟨ht, hacts⟩ := asyncStepBluetooth_good (s := s) (f := s.flows.length) info
    exact h.turn h.push s.push_lt ht hacts hnone nofun
  | user =>
    obtain ⟨ht, hacts⟩ :=
      showUser_good s s.flows.length (newFlow (.form (.user [])) []) nofun rfl
    exact h.turn h.push s.push_lt ht hacts hnone nofun
  | @uniqueIdSet f flow turn hflow hturn =>
    obtain ⟨ht, hacts⟩ := uniqueIdSet_good (f := f) (h.inv.flows f flow hflow) hturn
    exact h.turn h (flow_lt hflow) ht hacts (by rw [uniqueIdOf, hflow]; rfl)
      (h.checked f flow hflow)
  | @configure f userInput flow turn hflow hturn =>
    obtain ⟨ht, hacts⟩ := configure_good (h.inv.flows f flow hflow) hturn
    exact h.turn h (flow_lt hflow) ht hacts (by rw [uniqueIdOf, hflow]; rfl)
      (h.checked f flow hflow)
  | @dismiss f flow hflow =>
    -- to the reservation it is an abort
    have hnotKept : (Turn.mk flow (some (.abort .alreadyConfigured))).kept = none := rfl
    have haborted := h.settle_set (flow_lt hflow)
      (Turn.abort_inv flow .alreadyConfigured) rfl False (by simp [hnotKept])
    exact ⟨_, .single trivial (e := .release f) rfl,
      ⟨haborted.inv.flows, h.inv.entries, h.inv.asserted⟩, haborted.holder, haborted.checked,
      h.records⟩
  | advertise infos =>
    exact ⟨a, .refl, ⟨h.inv.flows, h.inv.entries, h.inv.asserted⟩, h.holder, h.checked, h.records⟩
  | removeEntry i =>
    refine ⟨_, .single trivial (e := .remove i) rfl, ⟨h.inv.flows, fun e he => ?_, h.inv.asserted⟩,
      h.holder, h.checked, ?_⟩
    · exact h.inv.entries e (List.mem_of_mem_eraseIdx he)
    · show (a.records.eraseIdx i).map some = (s.entries.eraseIdx i).map ConfigEntry.uniqueId
      rw [← List.eraseIdx_map, ← List.eraseIdx_map, h.records]
      rfl

end Refines

/-! ## Each plug is configured once -/

/-- In every run no two entries have the same address, every entry's address is its unique id and
was advertised, when its flow saw it, under an accepted name, and no assertion fails. -/
theorem configured_once (hrun : Reaches FlowManager.step Free init s) :
    (s.entries.map ConfigEntry.address).Nodup ∧
    (∀ e ∈ s.entries, e.uniqueId = some e.address ∧ Advertised e.saw e.address) ∧
    ∀ f, (f, FlowResult.assertionError) ∉ s.results := by
  have hanswered : ∃ a, Reaches Reservation.step Free Reservation.init a ∧ s.Refines a :=
    hrun.simulates init_refines fun _ _ _ _ h _ hstep => h.step hstep
  obtain ⟨a, hreached, hrefines⟩ := hanswered
  refine ⟨?_, hrefines.inv.entries, hrefines.inv.asserted⟩
  have hids : s.currentIds = (s.entries.map ConfigEntry.address).map some := by
    rw [currentIds, List.map_map]
    exact List.map_congr_left fun e he => (hrefines.inv.entries e he).1
  have hnodup : s.currentIds.Nodup := by
    rw [← hrefines.records]
    exact (Reservation.records_nodup hreached).map (Option.some_injective _)
  rw [hids] at hnodup
  exact hnodup.of_map _

/-- The state after given events. -/
def after (events : List Event) : FlowManager :=
  outcome (guarded FlowManager.step fun _ _ => true) init events

def plug : BluetoothServiceInfo := ⟨"GVH50861234", "A1:B2:C3:D4:12:34"⟩
def otherPlug : BluetoothServiceInfo := ⟨"GVH5086EEFF", "A1:B2:C3:D4:EE:FF"⟩

/-- A card waits for its confirmation while the user adds the other plug; then it is confirmed. -/
def twoPlugs : List Event :=
  [.advertise [plug, otherPlug, ⟨"lamp", "A1:B2:C3:D4:00:01"⟩], .bluetooth plug, .uniqueIdSet 0,
    .user, .configure 1 (some otherPlug.address), .uniqueIdSet 1, .configure 0 (some "")]

theorem configured_once_twoPlugs :
    (after twoPlugs).entries.map ConfigEntry.address = [otherPlug.address, plug.address] ∧
    ((after twoPlugs).entries.map ConfigEntry.address).Nodup ∧
    (∀ e ∈ (after twoPlugs).entries, e.uniqueId = some e.address ∧ Advertised e.saw e.address) ∧
    ∀ f, (f, FlowResult.assertionError) ∉ (after twoPlugs).results := by
  have hrun : Reaches FlowManager.step Free init (after twoPlugs) :=
    reaches_outcome (by decide +kernel) fun _ _ _ => trivial
  exact ⟨by decide +kernel, configured_once hrun⟩

/-! ## What is offered can be added -/

/-- An event that is not one of flow `f`. -/
def Elsewhere (f : ℕ) (_ : FlowManager) : Event → Prop
  | .uniqueIdSet g | .configure g _ | .dismiss g => g ≠ f
  | .bluetooth _ | .user | .advertise _ | .removeEntry _ => True

/-- Submitting `address` in flow `f` creates an entry for it, whatever happens elsewhere in
between. -/
def Creates (s : FlowManager) (f : ℕ) (address : String) : Prop :=
  ∃ s₁, s.step (.configure f (some address)) = some s₁ ∧
    ∀ s₂, Reaches FlowManager.step (Elsewhere f) s₁ s₂ → ∃ s₃ e,
      s₂.step (.uniqueIdSet f) = some s₃ ∧ s₃.entries = s₂.entries ++ [e] ∧
      e.address = address ∧ e.uniqueId = some address

/-- Flow `f` alone holds the unique id, and no entry has it. -/
structure Holds (s : FlowManager) (f : ℕ) (flow : ConfigFlow) (uniqueId : String) : Prop where
  there : s.flow f = some flow
  held : flow.uniqueId = some uniqueId
  alone : ∀ g, g ≠ f → s.uniqueIdOf g ≠ some uniqueId
  unrecorded : some uniqueId ∉ s.currentIds

/-- A turn of flow `g`, which was `old`, takes no unique id that another flow holds. -/
def Polite (s : FlowManager) (g : ℕ) (old : ConfigFlow) (turn : Turn) : Prop :=
  turn.flow.uniqueId = old.uniqueId ∨
    ∃ uniqueId, turn.flow.uniqueId = some uniqueId ∧ ¬ s.InProgress g uniqueId

section
variable {g : ℕ} {old flow : ConfigFlow} {turn : Turn} {uniqueId : String}

theorem asyncSetUniqueId_polite (s : FlowManager) (g : ℕ) (old : ConfigFlow) (uniqueId : String)
    (point : FlowPoint) : s.Polite g old (s.asyncSetUniqueId g old uniqueId point) := by
  unfold asyncSetUniqueId
  split
  · exact .inl rfl
  · next hfree => exact .inr ⟨uniqueId, rfl, hfree⟩

theorem asyncStepBluetooth_polite (s : FlowManager) (g : ℕ) (old : ConfigFlow)
    (info : BluetoothServiceInfo) : s.Polite g old (s.asyncStepBluetooth g old info) := by
  unfold asyncStepBluetooth
  split
  · exact .inl rfl
  · exact asyncSetUniqueId_polite ..

theorem discover_uniqueId (s : FlowManager) (infos : List BluetoothServiceInfo)
    (flow : ConfigFlow) : (infos.foldl s.discover flow).uniqueId = flow.uniqueId := by
  induction infos generalizing flow with
  | nil => rfl
  | cons info infos ih =>
    rw [List.foldl_cons, ih]
    rcases s.discover_cases flow info with hsame | ⟨-, label, hset⟩
    · rw [hsame]
    · rw [hset]

theorem asyncStepUser_polite (s : FlowManager) (g : ℕ) (old : ConfigFlow)
    (userInput : Option String) : s.Polite g old (s.asyncStepUser g old userInput) := by
  cases userInput with
  | some address => exact asyncSetUniqueId_polite ..
  | none =>
    have hid := s.discover_uniqueId s.infos { old with saw := old.saw ++ s.infos }
    simp only [asyncStepUser]
    split
    · exact .inl hid
    · exact .inl hid

theorem uniqueIdSet_polite (hturn : s.uniqueIdSet old = some turn) : s.Polite g old turn := by
  unfold uniqueIdSet bluetoothUniqueIdSet userUniqueIdSet at hturn
  split at hturn
  · cases hturn
    split
    · exact .inl rfl
    · exact .inl rfl
  · cases hturn
    split
    · exact .inl rfl
    · exact .inl rfl
  · cases hturn

theorem configure_polite {userInput : Option String}
    (hturn : s.configure g old userInput = some turn) : s.Polite g old turn := by
  unfold configure at hturn
  split at hturn
  · cases hturn
    exact .inl rfl
  · obtain ⟨-, heq⟩ := Option.ite_none_right_eq_some.mp hturn
    cases heq
    exact asyncStepUser_polite ..
  · cases hturn
  · cases hturn

theorem kept_uniqueId (h : turn.kept.bind ConfigFlow.uniqueId = some uniqueId) :
    turn.flow.uniqueId = some uniqueId := by
  obtain ⟨kept, hkept, hid⟩ := Option.bind_eq_some_iff.mp h
  unfold Turn.kept at hkept
  split at hkept <;> cases hkept <;> exact hid

theorem created_uniqueId {e : ConfigEntry} (h : e ∈ turn.created) :
    e.uniqueId = turn.flow.uniqueId := by
  unfold Turn.created at h
  split at h
  · cases List.mem_singleton.mp h
    rfl
  · cases h

namespace Holds

theorem push (h : s.Holds f flow uniqueId) : s.push.Holds f flow uniqueId := by
  refine ⟨(s.push_flow f).trans h.there, h.held, fun g hg => ?_, h.unrecorded⟩
  rw [push_uniqueIdOf]
  exact h.alone g hg

/-- A turn of another flow. `s₀` is the manager that takes it. -/
theorem settle (h : s.Holds f flow uniqueId) {s₀ : FlowManager} (h₀ : s₀.Holds f flow uniqueId)
    (hg : g < s₀.flows.length) (hne : g ≠ f) (hold : old.uniqueId ≠ some uniqueId)
    (hpolite : s.Polite g old turn) : (s₀.settle g turn).Holds f flow uniqueId := by
  have hnot : turn.flow.uniqueId ≠ some uniqueId := by
    intro hid
    rcases hpolite with hsame | ⟨uniqueId', hid', hfree⟩
    · exact hold (hsame.symm.trans hid)
    · -- `async_set_unique_id` found no holder, but `f` is one
      cases hid.symm.trans hid'
      refine hfree (inProgress_iff.mpr ⟨f, Ne.symm hne, ?_⟩)
      rw [uniqueIdOf, h.there, Option.bind_some, h.held]
  refine ⟨?_, h.held, fun j hj => ?_, fun hmem => ?_⟩
  · rw [settle_flow hg, if_neg (Ne.symm hne)]
    exact h₀.there
  · rw [settle_uniqueIdOf hg]
    split
    · exact fun hid => hnot (kept_uniqueId hid)
    · exact h₀.alone j hj
  · obtain ⟨e, he, hid⟩ := List.mem_map.mp hmem
    rcases List.mem_append.mp he with hold | hnew
    · exact h₀.unrecorded (List.mem_map.mpr ⟨e, hold, hid⟩)
    · exact hnot ((created_uniqueId hnew).symm.trans hid)

theorem step (h : s.Holds f flow uniqueId) {e : Event} (hok : s.Elsewhere f e)
    (hstep : s.step e = some s') : s'.Holds f flow uniqueId := by
  have hlt := flow_lt h.there
  cases step_stepped hstep with
  | bluetooth info =>
    exact h.settle h.push s.push_lt (Nat.ne_of_gt hlt) (by simp [newFlow])
      (asyncStepBluetooth_polite ..)
  | user =>
    exact h.settle h.push s.push_lt (Nat.ne_of_gt hlt) (by simp [newFlow]) (asyncStepUser_polite ..)
  | @uniqueIdSet g old turn hold hturn =>
    have hid := h.alone g hok
    rw [uniqueIdOf, hold, Option.bind_some] at hid
    exact h.settle h (flow_lt hold) hok hid (uniqueIdSet_polite hturn)
  | @configure g userInput old turn hold hturn =>
    have hid := h.alone g hok
    rw [uniqueIdOf, hold, Option.bind_some] at hid
    exact h.settle h (flow_lt hold) hok hid (configure_polite hturn)
  | @dismiss g old hold =>
    refine ⟨?_, h.held, fun j hj => ?_, h.unrecorded⟩
    · rw [setFlow_flow (flow_lt hold), if_neg (Ne.symm hok)]
      exact h.there
    · rw [uniqueIdOf, setFlow_flow (flow_lt hold)]
      split
      · exact Option.some_ne_none uniqueId ∘ Eq.symm
      · exact h.alone j hj
  | advertise infos => exact ⟨h.there, h.held, h.alone, h.unrecorded⟩
  | removeEntry i =>
    refine ⟨h.there, h.held, h.alone, fun hmem => ?_⟩
    obtain ⟨e, he, hid⟩ := List.mem_map.mp hmem
    exact h.unrecorded (List.mem_map.mpr ⟨e, List.mem_of_mem_eraseIdx he, hid⟩)

end Holds

/-- The flow that holds the address adds it. -/
theorem Holds.adds (h : s.Holds f flow uniqueId) (hpoint : flow.point = .user uniqueId) :
    ∃ title, s.step (.uniqueIdSet f) =
      some (s.settle f ⟨flow, some (.createEntry title uniqueId)⟩) := by
  have hnew : ¬ s.configured flow = true := (configured_iff h.held).not.mpr h.unrecorded
  refine ⟨(flow.discovered.lookup uniqueId).getD uniqueId, ?_⟩
  rw [FlowManager.step, h.there, Option.bind_some, uniqueIdSet, hpoint]
  simp only [userUniqueIdSet, if_neg hnew]
  rfl

/-- A flow whose address was recorded ends without an entry. -/
theorem user_aborts (hflow : s.flow f = some flow) (hpoint : flow.point = .user uniqueId)
    (hid : flow.uniqueId = some uniqueId) (hrecorded : some uniqueId ∈ s.currentIds) :
    s.step (.uniqueIdSet f) = some (s.settle f ⟨flow, some (.abort .alreadyConfigured)⟩) := by
  have hold : s.configured flow = true := (configured_iff hid).mpr hrecorded
  rw [FlowManager.step, hflow, Option.bind_some, uniqueIdSet, hpoint]
  simp only [userUniqueIdSet, if_pos hold]
  rfl

/-- An address offered in the form can be added exactly if no entry has it and no other flow in
progress holds it. -/
theorem submit_creates_iff {options : List (String × String)} {address : String}
    (hflow : s.flow f = some flow) (hform : flow.point = .form (.user options))
    (hoffered : address ∈ Dict.keys options) :
    s.Creates f address ↔
      (∀ e ∈ s.entries, e.uniqueId ≠ some address) ∧
      ∀ g, g ≠ f → s.uniqueIdOf g ≠ some address := by
  have hsubmit : s.step (.configure f (some address)) =
      some (s.settle f (s.asyncSetUniqueId f flow address (.user address))) := by
    rw [FlowManager.step, hflow, Option.bind_some, configure, hform]
    simp [hoffered, asyncStepUser]
  have hlt := flow_lt hflow
  -- the flow once it holds the address
  have hset : ¬ s.InProgress f address → s.asyncSetUniqueId f flow address (.user address) =
      ⟨{ flow with uniqueId := some address, point := .user address }, none⟩ := fun hfree =>
    if_neg hfree
  constructor
  · rintro ⟨s₁, hs₁, hadds⟩
    cases hsubmit.symm.trans hs₁
    obtain ⟨s₃, e, hs₃, hentries, -, -⟩ := hadds _ .refl
    have hfree : ¬ s.InProgress f address := by
      intro hbusy
      rw [asyncSetUniqueId, if_pos hbusy, FlowManager.step, settle_flow hlt, if_pos rfl] at hs₃
      cases hs₃
    refine ⟨fun e' he' hid => ?_, fun g hg hid => hfree (inProgress_iff.mpr ⟨g, hg, hid⟩)⟩
    rw [hset hfree] at hs₃ hentries
    have hrecorded : some address ∈ (s.settle f
        ⟨{ flow with uniqueId := some address, point := .user address }, none⟩).currentIds :=
      List.mem_map.mpr ⟨e', List.mem_append_left _ he', hid⟩
    have habort := user_aborts (by rw [settle_flow hlt, if_pos rfl]; rfl) rfl rfl hrecorded
    cases habort.symm.trans hs₃
    have hlength := congrArg List.length hentries
    simp [settle, Turn.created] at hlength
  · rintro ⟨hnew, halone⟩
    have hfree : ¬ s.InProgress f address := by
      rintro hbusy
      obtain ⟨g, hg, hid⟩ := inProgress_iff.mp hbusy
      exact halone g hg hid
    rw [hset hfree] at hsubmit
    refine ⟨_, hsubmit, fun s₂ hrun => ?_⟩
    have hholds : s₂.Holds f { flow with uniqueId := some address, point := .user address }
        address := by
      refine hrun.invariant (P := fun s => s.Holds f { flow with
        uniqueId := some address, point := .user address } address) ⟨?_, rfl, fun g hg => ?_, ?_⟩
        fun _ _ _ ha hok hstep => ha.step hok hstep
      · rw [settle_flow hlt, if_pos rfl]
        rfl
      · rw [settle_uniqueIdOf hlt, if_neg hg]
        exact halone g hg
      · intro hmem
        obtain ⟨e, he, hid⟩ := List.mem_map.mp hmem
        rw [settle, Turn.created, List.append_nil] at he
        exact hnew e he hid
    obtain ⟨title, hadded⟩ := hholds.adds rfl
    exact ⟨_, _, hadded, rfl, rfl, rfl⟩

end

/-- The user opens the form. -/
def formShown : List Event := [.advertise [plug, otherPlug], .user]

theorem submit_creates_iff_formShown : (after formShown).Creates 0 plug.address := by
  have hflow : ((after formShown).flow 0).isSome = true := by decide +kernel
  obtain ⟨flow, hflow⟩ := Option.isSome_iff_exists.mp hflow
  have hpoint : ((after formShown).flow 0).map ConfigFlow.point =
      some (.form (.user [(plug.address, "GVH50861234 (A1:B2:C3:D4:12:34)"),
        (otherPlug.address, "GVH5086EEFF (A1:B2:C3:D4:EE:FF)")])) := by decide +kernel
  rw [hflow] at hpoint
  have hfree : ¬ (after formShown).InProgress 0 plug.address := by decide +kernel
  refine (submit_creates_iff hflow (Option.some.inj hpoint) (by decide +kernel)).mpr
    ⟨by decide +kernel, fun g hg hid => hfree (inProgress_iff.mpr ⟨g, hg, hid⟩)⟩

/-- The user opens the form while a card for the same plug waits for its confirmation. -/
def cardWaits : List Event :=
  [.advertise [plug, otherPlug], .bluetooth plug, .uniqueIdSet 0, .user]

/-- The plug is offered, no entry has it, and adding it is aborted. -/
theorem offered_not_added :
    ((after cardWaits).flow 1).map ConfigFlow.point =
      some (.form (.user [(plug.address, "GVH50861234 (A1:B2:C3:D4:12:34)"),
        (otherPlug.address, "GVH5086EEFF (A1:B2:C3:D4:EE:FF)")])) ∧
    (after cardWaits).entries = [] ∧
    ((after cardWaits).step (.configure 1 (some plug.address))).map FlowManager.results =
      some [(0, .showForm (.bluetoothConfirm plug.name plug.address)),
        (1, .showForm (.user [(plug.address, "GVH50861234 (A1:B2:C3:D4:12:34)"),
          (otherPlug.address, "GVH5086EEFF (A1:B2:C3:D4:EE:FF)")])),
        (1, .abort .alreadyInProgress)] ∧
    ¬ (after cardWaits).Creates 1 plug.address := by
  refine ⟨by decide +kernel, by decide +kernel, by decide +kernel, ?_⟩
  rintro ⟨s₁, hs₁, hadds⟩
  have hended : ((after cardWaits).step (.configure 1 (some plug.address))).bind
      (fun s => s.step (.uniqueIdSet 1)) = none := by decide +kernel
  obtain ⟨s₃, e, hs₃, -⟩ := hadds s₁ .refl
  rw [hs₁, Option.bind_some, hs₃] at hended
  cases hended

end FlowManager

end GoveeH5086
