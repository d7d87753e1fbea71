import GoveeH5086.Parser
import GoveeH5086.Library.Dict
import GoveeH5086.Library.Runs

/-!
# The config flow (`config_flow.py`)

Any number of flows, each started by a discovery or by the user, and the entries they created. A
flow runs without an interruption up to an `await`; `async_set_unique_id` is the only one. Between
any two pieces of code other flows go on, advertisements change, flows are dismissed and entries
are removed.

Of Home Assistant: `async_set_unique_id` aborts a flow when another one in progress holds the id,
`_abort_if_unique_id_configured` aborts it when an entry has the id, a flow that ended holds
nothing, input reaches a step only if it passes the schema of the form shown last, and an entry gets
the unique id of its flow.

1. `FlowManager.asyncStepBluetooth`, `FlowManager.asyncStepUser`: the steps, from one `await` to the
   next.
2. `FlowManager.step`, `FlowManager.step_stepped`: the events.
3. `FlowManager.settle_flow`, `FlowManager.push_flow`: a turn changes the flow that takes it.
-/

namespace GoveeH5086
open Runs

/-! ## Flows and entries -/

/-- `BluetoothServiceInfoBleak`. -/
structure BluetoothServiceInfo where
  name : String
  address : String
deriving DecidableEq, Repr

/-- A form: `bluetooth_confirm` with its placeholders, or `user` with what its schema accepts. -/
inductive Form
  | bluetoothConfirm (name address : String)
  | user (options : List (String × String))
deriving DecidableEq, Repr

inductive AbortReason
  | notSupported
  | noDevicesFound
  | alreadyInProgress
  | alreadyConfigured
deriving DecidableEq, Repr

/-- What a step ends with. -/
inductive FlowResult
  | abort (reason : AbortReason)
  | showForm (form : Form)
  | createEntry (title address : String)
  | assertionError
deriving DecidableEq, Repr

/-- Where a flow is: suspended in the `async_set_unique_id` of a step, or waiting for input. -/
inductive FlowPoint
  | bluetooth (info : BluetoothServiceInfo)
  | user (address : String)
  | form (form : Form)
deriving DecidableEq, Repr

/-- `GoveeH5086ConfigFlow`. `saw` is ghost: what the flow was given or read of the
advertisements. -/
structure ConfigFlow where
  point : FlowPoint
  uniqueId : Option String
  discovery : Option BluetoothServiceInfo
  discovered : List (String × String)
  saw : List BluetoothServiceInfo
deriving DecidableEq, Repr

/-- An entry of the integration. `address` is its data, `saw` is that of its flow. -/
structure ConfigEntry where
  title : String
  address : String
  uniqueId : Option String
  saw : List BluetoothServiceInfo
deriving DecidableEq, Repr

/-- Home Assistant, as far as the flows are concerned. `infos` are the connectable devices that
advertise, `flows` is every flow that was started, `none` once it has ended. `results` is ghost. -/
structure FlowManager where
  infos : List BluetoothServiceInfo
  entries : List ConfigEntry
  flows : List (Option ConfigFlow)
  results : List (ℕ × FlowResult)
deriving DecidableEq, Repr

/-- A piece of code between two `await`s: the flow after it, and its result unless it is suspended
again. -/
structure Turn where
  flow : ConfigFlow
  result : Option FlowResult
deriving DecidableEq, Repr

namespace FlowManager

def flow (s : FlowManager) (f : ℕ) : Option ConfigFlow := s.flows[f]?.join

/-- The unique id that a flow in progress holds. -/
def uniqueIdOf (s : FlowManager) (f : ℕ) : Option String := (s.flow f).bind ConfigFlow.uniqueId

/-- `_async_current_ids`. -/
def currentIds (s : FlowManager) : List (Option String) := s.entries.map ConfigEntry.uniqueId

/-- Another flow in progress than `f` holds the unique id. -/
def InProgress (s : FlowManager) (f : ℕ) (uniqueId : String) : Prop :=
  ∃ g < s.flows.length, g ≠ f ∧ s.uniqueIdOf g = some uniqueId

instance (s : FlowManager) (f : ℕ) (uniqueId : String) : Decidable (s.InProgress f uniqueId) :=
  inferInstanceAs (Decidable (∃ g < s.flows.length, g ≠ f ∧ s.uniqueIdOf g = some uniqueId))

/-! ## The steps -/

/-- `async_set_unique_id`, awaited at `point`. -/
def asyncSetUniqueId (s : FlowManager) (f : ℕ) (flow : ConfigFlow) (uniqueId : String)
    (point : FlowPoint) : Turn :=
  if s.InProgress f uniqueId then ⟨flow, some (.abort .alreadyInProgress)⟩
  else ⟨{ flow with uniqueId := some uniqueId, point := point }, none⟩

/-- Whether `_abort_if_unique_id_configured` aborts. -/
def configured (s : FlowManager) (flow : ConfigFlow) : Bool :=
  flow.uniqueId ≠ none && s.currentIds.contains flow.uniqueId

end FlowManager

/-- `async_step_bluetooth_confirm`. -/
def ConfigFlow.asyncStepBluetoothConfirm (flow : ConfigFlow) (userInput : Option String) :
    FlowResult :=
  match flow.discovery with
  | none => .assertionError
  | some discovery =>
    match userInput with
    | some _ => .createEntry discovery.name discovery.address
    | none => .showForm (.bluetoothConfirm discovery.name discovery.address)

namespace FlowManager

/-- `async_step_bluetooth` up to its `await`. -/
def asyncStepBluetooth (s : FlowManager) (f : ℕ) (flow : ConfigFlow)
    (info : BluetoothServiceInfo) : Turn :=
  if !isH5086LocalName (some info.name) then ⟨flow, some (.abort .notSupported)⟩
  else s.asyncSetUniqueId f flow info.address (.bluetooth info)

/-- `async_step_bluetooth` from its `await` on. -/
def bluetoothUniqueIdSet (s : FlowManager) (flow : ConfigFlow) (info : BluetoothServiceInfo) :
    Turn :=
  if s.configured flow then ⟨flow, some (.abort .alreadyConfigured)⟩
  else
    let flow := { flow with discovery := some info }
    ⟨flow, some (flow.asyncStepBluetoothConfirm none)⟩

/-- The body of the loop of `async_step_user`. -/
def discover (s : FlowManager) (flow : ConfigFlow) (info : BluetoothServiceInfo) : ConfigFlow :=
  if s.currentIds.contains (some info.address) then flow
  else if !isH5086LocalName (some info.name) then flow
  else { flow with
    discovered := Dict.set info.address (info.name ++ " (" ++ info.address ++ ")")
      flow.discovered }

/-- `async_step_user` up to its `await`. -/
def asyncStepUser (s : FlowManager) (f : ℕ) (flow : ConfigFlow) : Option String → Turn
  | some address => s.asyncSetUniqueId f flow address (.user address)
  | none =>
    -- `_discovered` is never cleared: what the flow offered before, it offers again
    let flow := s.infos.foldl s.discover { flow with saw := flow.saw ++ s.infos }
    if flow.discovered = [] then ⟨flow, some (.abort .noDevicesFound)⟩
    else ⟨flow, some (.showForm (.user flow.discovered))⟩

/-- `async_step_user` from its `await` on. -/
def userUniqueIdSet (s : FlowManager) (flow : ConfigFlow) (address : String) : Turn :=
  if s.configured flow then ⟨flow, some (.abort .alreadyConfigured)⟩
  else ⟨flow, some (.createEntry ((flow.discovered.lookup address).getD address) address)⟩

end FlowManager

/-! ## The manager -/

/-- What is left of the flow. -/
def Turn.kept (turn : Turn) : Option ConfigFlow :=
  match turn.result with
  | none => some turn.flow
  | some (.showForm form) => some { turn.flow with point := .form form }
  | some (.abort _) | some (.createEntry _ _) | some .assertionError => none

def Turn.created (turn : Turn) : List ConfigEntry :=
  match turn.result with
  | some (.createEntry title address) =>
    [⟨title, address, turn.flow.uniqueId, turn.flow.saw⟩]
  | _ => []

namespace FlowManager

def setFlow (s : FlowManager) (f : ℕ) (flow : Option ConfigFlow) : FlowManager :=
  { s with flows := s.flows.set f flow }

/-- The manager takes the outcome of a turn. -/
def settle (s : FlowManager) (f : ℕ) (turn : Turn) : FlowManager :=
  { s.setFlow f turn.kept with
    entries := s.entries ++ turn.created
    results := s.results ++ (turn.result.map fun result => (f, result)).toList }

/-- A number for a new flow. -/
def push (s : FlowManager) : FlowManager := { s with flows := s.flows ++ [none] }

/-- A flow is started, and takes its first turn. -/
def start (s : FlowManager) (turn : ℕ → Turn) : FlowManager :=
  s.push.settle s.flows.length (turn s.flows.length)

/-- `__init__`. The point is that of the first step. -/
def newFlow (point : FlowPoint) (saw : List BluetoothServiceInfo) : ConfigFlow :=
  ⟨point, none, none, [], saw⟩

inductive Event
  | bluetooth (info : BluetoothServiceInfo)
  | user
  | uniqueIdSet (f : ℕ)
  | configure (f : ℕ) (userInput : Option String)
  | dismiss (f : ℕ)
  | advertise (infos : List BluetoothServiceInfo)
  | removeEntry (i : ℕ)

/-- The code that `async_set_unique_id` returns to. -/
def uniqueIdSet (s : FlowManager) (flow : ConfigFlow) : Option Turn :=
  match flow.point with
  | .bluetooth info => some (s.bluetoothUniqueIdSet flow info)
  | .user address => some (s.userUniqueIdSet flow address)
  | .form _ => none

/-- The step that gets the input, if the input passes the schema. -/
def configure (s : FlowManager) (f : ℕ) (flow : ConfigFlow) (userInput : Option String) :
    Option Turn :=
  match flow.point with
  | .form (.bluetoothConfirm _ _) => some ⟨flow, some (flow.asyncStepBluetoothConfirm userInput)⟩
  | .form (.user options) =>
    -- the schema of the form shown last, not of what advertises now
    if ∀ address ∈ userInput, address ∈ Dict.keys options then
      some (s.asyncStepUser f flow userInput)
    else none
  | .bluetooth _ | .user _ => none

/-- The effect of an event, when it can happen. -/
def step (s : FlowManager) : Event → Option FlowManager
  | .bluetooth info =>
    some (s.start fun f => s.asyncStepBluetooth f (newFlow (.bluetooth info) [info]) info)
  | .user => some (s.start fun f => s.asyncStepUser f (newFlow (.form (.user [])) []) none)
  | .uniqueIdSet f =>
    (s.flow f).bind fun flow => (s.uniqueIdSet flow).map (s.settle f)
  | .configure f userInput =>
    (s.flow f).bind fun flow => (s.configure f flow userInput).map (s.settle f)
  | .dismiss f => (s.flow f).map fun _ => s.setFlow f none
  | .advertise infos => some { s with infos := infos }
  | .removeEntry i => some { s with entries := s.entries.eraseIdx i }

/-- No flow and no entry. -/
def init : FlowManager := ⟨[], [], [], []⟩

/-! ## What changes -/

section
variable {s s' : FlowManager} {f g : ℕ} {flow : ConfigFlow}

theorem flow_lt (h : s.flow f = some flow) : f < s.flows.length :=
  (List.getElem?_eq_some_iff.mp (Option.join_eq_some_iff.mp h)).1

/-- Only the flow that took the turn changes. -/
theorem setFlow_flow (hf : f < s.flows.length) (o : Option ConfigFlow) (g : ℕ) :
    (s.setFlow f o).flow g = if g = f then o else s.flow g := by
  unfold FlowManager.flow setFlow
  rw [List.getElem?_set]
  by_cases hg : g = f
  · subst hg
    rw [if_pos rfl, if_pos hf, if_pos rfl]
    rfl
  · rw [if_neg (Ne.symm hg), if_neg hg]

theorem settle_flow (hf : f < s.flows.length) (turn : Turn) (g : ℕ) :
    (s.settle f turn).flow g = if g = f then turn.kept else s.flow g :=
  setFlow_flow hf turn.kept g

theorem settle_uniqueIdOf (hf : f < s.flows.length) (turn : Turn) (g : ℕ) :
    (s.settle f turn).uniqueIdOf g =
      if g = f then turn.kept.bind ConfigFlow.uniqueId else s.uniqueIdOf g := by
  rw [uniqueIdOf, settle_flow hf]
  split <;> rfl

/-- A flow that is about to start is not there yet. -/
theorem push_flow (s : FlowManager) (g : ℕ) : s.push.flow g = s.flow g := by
  unfold FlowManager.flow push
  rw [List.getElem?_append]
  split
  · rfl
  · next hge =>
    rw [List.getElem?_eq_none (not_lt.mp hge)]
    cases hg : ([none] : List (Option ConfigFlow))[g - s.flows.length]? with
    | none => rfl
    | some o =>
      cases List.mem_singleton.mp (List.mem_of_getElem? hg)
      rfl

theorem push_uniqueIdOf (s : FlowManager) (g : ℕ) : s.push.uniqueIdOf g = s.uniqueIdOf g := by
  rw [uniqueIdOf, push_flow, uniqueIdOf]

theorem push_lt (s : FlowManager) : s.flows.length < s.push.flows.length := by
  simp [push]

theorem inProgress_iff {uniqueId : String} :
    s.InProgress f uniqueId ↔ ∃ g, g ≠ f ∧ s.uniqueIdOf g = some uniqueId := by
  constructor
  · rintro ⟨g, -, hne, hg⟩
    exact ⟨g, hne, hg⟩
  · rintro ⟨g, hne, hg⟩
    obtain ⟨flow, hflow, -⟩ := Option.bind_eq_some_iff.mp hg
    exact ⟨g, flow_lt hflow, hne, hg⟩

/-- An event, with what it needs. -/
inductive Stepped (s : FlowManager) : Event → FlowManager → Prop
  | bluetooth (info : BluetoothServiceInfo) : Stepped s (.bluetooth info)
      (s.start fun f => s.asyncStepBluetooth f (newFlow (.bluetooth info) [info]) info)
  | user : Stepped s .user
      (s.start fun f => s.asyncStepUser f (newFlow (.form (.user [])) []) none)
  | uniqueIdSet {f : ℕ} {flow : ConfigFlow} {turn : Turn} : s.flow f = some flow →
      s.uniqueIdSet flow = some turn → Stepped s (.uniqueIdSet f) (s.settle f turn)
  | configure {f : ℕ} {userInput : Option String} {flow : ConfigFlow} {turn : Turn} :
      s.flow f = some flow → s.configure f flow userInput = some turn →
      Stepped s (.configure f userInput) (s.settle f turn)
  | dismiss {f : ℕ} {flow : ConfigFlow} : s.flow f = some flow →
      Stepped s (.dismiss f) (s.setFlow f none)
  | advertise (infos : List BluetoothServiceInfo) :
      Stepped s (.advertise infos) { s with infos := infos }
  | removeEntry (i : ℕ) : Stepped s (.removeEntry i) { s with entries := s.entries.eraseIdx i }

theorem step_stepped {e : Event} (h : s.step e = some s') : Stepped s e s' := by
  cases e with
  | bluetooth info =>
    cases h
    exact .bluetooth info
  | user =>
    cases h
    exact .user
  | uniqueIdSet f =>
    obtain ⟨flow, hflow, hmap⟩ := Option.bind_eq_some_iff.mp h
    obtain ⟨turn, hturn, rfl⟩ := Option.map_eq_some_iff.mp hmap
    exact .uniqueIdSet hflow hturn
  | configure f userInput =>
    obtain ⟨flow, hflow, hmap⟩ := Option.bind_eq_some_iff.mp h
    obtain ⟨turn, hturn, rfl⟩ := Option.map_eq_some_iff.mp hmap
    exact .configure hflow hturn
  | dismiss f =>
    obtain ⟨flow, hflow, rfl⟩ := Option.map_eq_some_iff.mp h
    exact .dismiss hflow
  | advertise infos =>
    cases h
    exact .advertise infos
  | removeEntry i =>
    cases h
    exact .removeEntry i

end

end FlowManager

end GoveeH5086
