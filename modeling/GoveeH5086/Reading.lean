import GoveeH5086.Probing
import GoveeH5086.SystemId
import GoveeH5086.Library.LastMatch

/-!
# Reading characteristics (`scripts/identify.py`, `scripts/dump_gatt.py`)

Both scripts connect to every plug they heard, one after another, and read a list of values. A read
that fails is noted, and the next one is made. `identify.py` then looks for the plug whose System ID
holds a given MAC; its exit code says whether there is one.

What is printed is left out. The texts that `identify.py` keeps for printing, `raw.decode(..)` and
`repr(err)`, stand as what they are made from.

1. `trace_reads`: every read is made once, in the order of the list.
2. `Identify.info_mac`: what `probe` says of a plug.
3. `Identify.target_identified`: the turns of the plugs and the exit code, over whole runs of `main`.
4. `DumpGatt.tree_read`: the same for the reads of `dump_gatt.py`, with a bound on their number.
-/

namespace GoveeH5086
open BigEndian Runs

/-! ## Reads -/

/-- What the scripts await inside the block. -/
inductive ReadOp
  | readGattChar (uuid : String)
  | readGattDescriptor (handle : ℕ)
deriving DecidableEq, Repr

/-- A read takes any time, and can raise anything. -/
def readOps : Session.Ops ReadOp Bytes PyException where
  lasts _ := 0
  admits _ _ := true
  listens _ := false

/-- The read that is made, and the ones to come. -/
structure ReadPoint where
  read : ReadOp
  rest : List ReadOp
deriving DecidableEq, Repr

/-- A session that reads. Nothing is subscribed to, so no notification arrives. -/
abbrev ReadSession := Session.State ReadPoint ReadOp Bytes PyException Empty

abbrev ReadCall := Session.Call ReadOp Bytes PyException

/-- The head of the loop over the reads. -/
def nextRead : List ReadOp → Session.Next ReadPoint PyException
  | [] => .leaves .normally
  | read :: rest => .awaits ⟨read, rest⟩

/-- The block: reads one after another, each with an `except Exception` of its own. If it goes through
`client.services`, that may raise on entry. -/
def readBody (services : Bool) (reads : List ReadOp) :
    Session.Body ReadPoint ReadOp Bytes PyException where
  enter v :=
    match services, v.fault with
    | true, some err => .leaves (.raised err)
    | _, _ => nextRead reads
  op p := p.read
  resume
    | _, _, .cancelled => .leaves .cancelled
    | p, _, .returns _ | p, _, .raises _ => nextRead p.rest

/-- The reads that are still to be made. -/
def readsLeft : Session.Next ReadPoint PyException → List ReadOp → Prop
  | .awaits p, left => left = p.read :: p.rest
  | .leaves .normally, left => left = []
  | .leaves (.raised _), _ | .leaves .cancelled, _ => True

theorem readsLeft_next (reads : List ReadOp) : readsLeft (nextRead reads) reads := by
  cases reads <;> rfl

theorem enter_cases (services : Bool) (reads : List ReadOp) (v : Session.View PyException) :
    (readBody services reads).enter v = nextRead reads ∨
      ∃ err, (readBody services reads).enter v = .leaves (.raised err) := by
  cases services with
  | false => exact .inl rfl
  | true =>
    cases hfault : v.fault with
    | none => exact .inl (by simp [readBody, hfault])
    | some err => exact .inr ⟨err, by simp [readBody, hfault]⟩

/-- The reads are made in order, none twice and none left out, whatever they come back with. -/
theorem trace_reads {services : Bool} {reads : List ReadOp} {cs : List ReadCall}
    {n : Session.Next ReadPoint PyException} {t : ℚ}
    (h : Session.Trace readOps (readBody services reads) cs n t) :
    ∃ left, cs.map Session.Call.op ++ left = reads ∧ readsLeft n left := by
  refine h.invariant (P := fun cs n _ => ∃ left, cs.map Session.Call.op ++ left = reads ∧
    readsLeft n left) (fun v => ⟨reads, rfl, ?_⟩) fun cs p t v r ih _ _ => ?_
  · rcases enter_cases services reads v with henter | ⟨err, henter⟩
    · rw [henter]
      exact readsLeft_next reads
    · rw [henter]
      exact trivial
  obtain ⟨left, hleft, rfl⟩ := ih
  refine ⟨p.rest, by simpa [readBody] using hleft, ?_⟩
  cases r with
  | cancelled => exact trivial
  | returns data => exact readsLeft_next p.rest
  | raises err => exact readsLeft_next p.rest

/-- The same, for a session. -/
theorem session_reads {services : Bool} {reads : List ReadOp} {now : ℚ} {s : ReadSession}
    (h : Reaches (Session.State.step readOps (readBody services reads)) Free
      (Session.State.start now) s) :
    s.calls.map Session.Call.op <+: reads ∧
    (s.stage = .ended .normally → s.calls.map Session.Call.op = reads) := by
  have hstands := Session.run_stands h
  have hdone : s.stage = .ended .normally → s.calls.map Session.Call.op = reads := by
    intro hended
    obtain ⟨-, -, t, -, htrace⟩ := hstands.left_normally hended
    obtain ⟨left, hleft, rfl⟩ := trace_reads htrace
    rwa [List.append_nil] at hleft
  refine ⟨?_, hdone⟩
  rcases hstands.calls with hnone | ⟨n, t, -, htrace⟩
  · rw [hnone]
    exact List.nil_prefix
  · obtain ⟨left, hleft, -⟩ := trace_reads htrace
    exact ⟨left, hleft⟩

/-- A bound on the reads that are left. -/
def readRank : Session.Next ReadPoint PyException → ℕ
  | .awaits p => p.rest.length + 1
  | .leaves _ => 0

theorem readRank_next (reads : List ReadOp) : readRank (nextRead reads) = reads.length := by
  cases reads <;> rfl

theorem readRank_enter (services : Bool) (reads : List ReadOp) (v : Session.View PyException) :
    readRank ((readBody services reads).enter v) ≤ reads.length := by
  rcases enter_cases services reads v with henter | ⟨err, henter⟩
  · rw [henter, readRank_next]
  · rw [henter]
    exact Nat.zero_le _

theorem readRank_resume (services : Bool) (reads : List ReadOp) (p : ReadPoint)
    (v : Session.View PyException) (r : Session.Reply Bytes PyException) :
    readRank ((readBody services reads).resume p v r) < readRank (.awaits p) := by
  cases r with
  | cancelled => exact Nat.succ_pos _
  | returns data => exact (readRank_next p.rest).trans_lt (Nat.lt_succ_self _)
  | raises err => exact (readRank_next p.rest).trans_lt (Nat.lt_succ_self _)

/-! ## Plugs that were heard -/

/-- The values of `found`, for a scan that keeps the devices. -/
def heardDevices (accepts : Monitor.Advertisement → Bool) (advs : List Monitor.Advertisement) :
    List BLEDevice :=
  (heardLast accepts Monitor.Advertisement.device advs).map Prod.snd

theorem mem_heardDevices {accepts : Monitor.Advertisement → Bool}
    {advs : List Monitor.Advertisement} {d : BLEDevice} : d ∈ heardDevices accepts advs ↔
      ∃ adv, lastHeard accepts advs d.address = some adv ∧ adv.device = d :=
  mem_heardLast_values BLEDevice.address fun _ => rfl

/-- The plugs stand in the order in which they were first heard. -/
theorem heardDevices_order (accepts : Monitor.Advertisement → Bool)
    (advs : List Monitor.Advertisement) : (heardDevices accepts advs).map BLEDevice.address =
      ((advs.filter accepts).map fun adv => adv.device.address).eraseDups :=
  heardLast_values_order BLEDevice.address fun _ => rfl

theorem heardDevices_nodup (accepts : Monitor.Advertisement → Bool)
    (advs : List Monitor.Advertisement) :
    ((heardDevices accepts advs).map BLEDevice.address).Nodup :=
  heardLast_values_nodup BLEDevice.address fun _ => rfl

theorem heardDevices_eq_nil {accepts : Monitor.Advertisement → Bool}
    {advs : List Monitor.Advertisement} :
    heardDevices accepts advs = [] ↔ ∀ adv ∈ advs, accepts adv = false :=
  List.map_eq_nil_iff.trans heardLast_eq_nil

/-! ## `identify.py` -/

namespace Identify

/-- `TARGET_MAC`. -/
def targetMac : String :=
  String.ofList (("AA:BB:CC:DD:EE:FE".toList.map Char.toLower).filter (· ≠ ':'))

def targetOctets : Bytes := [0xaa, 0xbb, 0xcc, 0xdd, 0xee, 0xfe]

theorem targetMac_eq : targetMac = hex targetOctets := by decide

/-- `SYSTEM_ID_UUID`. -/
def systemIdUuid : String := "00002a23-0000-1000-8000-00805f9b34fb"

/-- The labels and UUIDs of the loop in `probe`. -/
def fields : List (String × String) :=
  [("system_id", systemIdUuid),
    ("hardware_rev", "00002a27-0000-1000-8000-00805f9b34fb"),
    ("firmware_rev", "00002a26-0000-1000-8000-00805f9b34fb"),
    ("manufacturer", "00002a29-0000-1000-8000-00805f9b34fb"),
    ("serial", "00002a25-0000-1000-8000-00805f9b34fb"),
    ("model", "00002a24-0000-1000-8000-00805f9b34fb")]

def textLabels : List String := ["hardware_rev", "firmware_rev", "manufacturer", "serial", "model"]

def reads : List ReadOp := fields.map fun f => .readGattChar f.2

/-- A value of `out`. `decoded raw` is `raw.decode("utf-8", errors="replace")`. -/
inductive Value
  | str (s : String)
  | decoded (raw : Bytes)
  | repr (err : PyException)
deriving DecidableEq, Repr

abbrev Info := List (String × Value)

/-- What `out` keeps of a read. -/
def record (out : Info) (label : String) : Session.Reply Bytes PyException → Info
  | .returns raw =>
    let out := Dict.set label (.str (hex raw)) out
    if label ∈ textLabels then Dict.set (label ++ "_text") (.decoded raw) out else out
  | .raises err => Dict.set (label ++ "_err") (.repr err) out
  | .cancelled => out

/-- `out` after the loop. -/
def collected (device : BLEDevice) (calls : List ReadCall) : Info :=
  (fields.zip calls).foldl (fun out p => record out p.1.1 p.2.reply)
    [("address", .str device.address), ("name", .str (device.name.getD ""))]

/-- `if "system_id" in out: ..`. A `ValueError` of `fromhex` would be caught further out. -/
def withMac (out : Info) : Option Info :=
  match out.lookup "system_id" with
  | some (.str s) => (fromHex s).map fun raw =>
      Dict.set "mac_from_system_id" (.str (decodeSystemIdToMac raw)) out
  | _ => some out

/-- What `probe` returns after its session. -/
def info (device : BLEDevice) (s : ReadSession) : Option Info :=
  match s.stage with
  | .ended .normally => withMac (collected device s.calls)
  | _ => none

/-- `r.get("mac_from_system_id", "")`. -/
def mac (r : Info) : String :=
  match r.lookup "mac_from_system_id" with
  | some (.str s) => s
  | _ => ""

/-- The names that the detection callback accepts. -/
def accepts (adv : Monitor.Advertisement) : Bool :=
  "GVH5086".toList.isPrefixOf adv.name.toList || "ihoment_H5086".toList.isPrefixOf adv.name.toList

def devices (advs : List Monitor.Advertisement) : List BLEDevice := heardDevices accepts advs

abbrev State := Visits.State BLEDevice ReadPoint ReadOp Bytes PyException Empty

abbrev Event := Visits.Event Bytes PyException Empty

/-- The block of `probe`, the same for every plug. -/
def probe (_ : BLEDevice) : Session.Body ReadPoint ReadOp Bytes PyException := readBody false reads

/-- `for device in devices_by_addr.values(): info = await probe(device) ..`. -/
def step : State → Event → Option State := Visits.step readOps probe

/-- `main`, after a scan that ended at `now`. -/
def main (advs : List Monitor.Advertisement) (now : ℚ) : State :=
  Visits.start readOps probe now (devices advs)

/-- `results`. No dictionary is empty, so `if info:` drops only what is `None`. -/
def results (m : State) : List Info := m.finished.filterMap fun p => info p.1 p.2

/-- `matched`. -/
def matched (m : State) : Option Info := LastMatch.last (fun r => mac r = targetMac) (results m)

/-- The exit code, once `main` has one. -/
def exitCode (advs : List Monitor.Advertisement) (m : State) : Option ℕ :=
  if devices advs = [] then some 1
  else if m.current.isSome then none
  else if (matched m).isSome then some 0 else some 2

/-! ## What is found -/

/-- The plug was read to the end, and its System ID holds the MAC. -/
def Shows (s : ReadSession) (octets : Bytes) : Prop :=
  s.stage = .ended .normally ∧ ∃ c ∈ s.calls, ∃ raw, c.op = .readGattChar systemIdUuid ∧
    c.reply = .returns raw ∧ macOctets raw = octets

/-- A read is kept under its own keys. -/
theorem record_lookup {key label : String} (out : Info) (r : Session.Reply Bytes PyException)
    (hlabel : key ≠ label) (htext : key ≠ label ++ "_text") (herr : key ≠ label ++ "_err") :
    (record out label r).lookup key = out.lookup key := by
  cases r with
  | returns raw =>
    unfold record
    dsimp only
    split
    · rw [Dict.lookup_set, if_neg htext, Dict.lookup_set, if_neg hlabel]
    · rw [Dict.lookup_set, if_neg hlabel]
  | raises err => rw [record, Dict.lookup_set, if_neg herr]
  | cancelled => rfl

theorem foldl_record_lookup {key : String} (ps : List ((String × String) × ReadCall)) (out : Info)
    (h : ∀ p ∈ ps, key ≠ p.1.1 ∧ key ≠ p.1.1 ++ "_text" ∧ key ≠ p.1.1 ++ "_err") :
    (ps.foldl (fun out p => record out p.1.1 p.2.reply) out).lookup key = out.lookup key := by
  induction ps generalizing out with
  | nil => rfl
  | cons p ps ih =>
    obtain ⟨hlabel, htext, herr⟩ := h p List.mem_cons_self
    rw [List.foldl_cons, ih _ fun q hq => h q (List.mem_cons_of_mem _ hq),
      record_lookup out p.2.reply hlabel htext herr]

/-- The bytes that a read returned. -/
def received : Session.Reply Bytes PyException → Option Bytes
  | .returns raw => some raw
  | .raises _ | .cancelled => none

theorem received_eq_some {r : Session.Reply Bytes PyException} {raw : Bytes} :
    received r = some raw ↔ r = .returns raw := by
  cases r <;> simp [received]

/-- What `probe` has of the first read, the System ID, after all six. -/
theorem collected_lookup (device : BLEDevice) (c : ReadCall) (cs : List ReadCall) :
    (collected device (c :: cs)).lookup "system_id" =
      (received c.reply).map (fun raw => .str (hex raw)) ∧
    (collected device (c :: cs)).lookup "mac_from_system_id" = none ∧
    (collected device (c :: cs)).lookup "address" = some (.str device.address) := by
  have hkeys : ∀ key ∈ ["system_id", "mac_from_system_id", "address"], ∀ f ∈ fields.tail,
      key ≠ f.1 ∧ key ≠ f.1 ++ "_text" ∧ key ≠ f.1 ++ "_err" := by decide
  have hlater : ∀ key ∈ ["system_id", "mac_from_system_id", "address"],
      (collected device (c :: cs)).lookup key = (record [("address", .str device.address),
        ("name", .str (device.name.getD ""))] "system_id" c.reply).lookup key := fun key hkey =>
    foldl_record_lookup (fields.tail.zip cs) _ fun p hp => hkeys key hkey p.1 (List.of_mem_zip hp).1
  rw [hlater "system_id" (by decide), hlater "mac_from_system_id" (by decide),
    hlater "address" (by decide)]
  cases c.reply <;> exact ⟨rfl, rfl, rfl⟩

/-- The MAC of what `probe` returns is the one in the System ID that was read. -/
theorem info_mac (device : BLEDevice) {s : ReadSession} (hended : s.stage = .ended .normally)
    (hreads : s.calls.map Session.Call.op = reads) : ∃ r, info device s = some r ∧
      r.lookup "address" = some (.str device.address) ∧
      ∀ octets : Bytes, octets ≠ [] → (mac r = hex octets ↔ Shows s octets) := by
  obtain ⟨c, cs, hcalls, hfirst, hrest⟩ := List.map_eq_cons_iff.mp hreads
  obtain ⟨hid, hmac, haddress⟩ := collected_lookup device c cs
  -- no later read is one of the System ID
  have hshows : ∀ octets, Shows s octets ↔
      ∃ raw, received c.reply = some raw ∧ macOctets raw = octets := by
    intro octets
    constructor
    · rintro ⟨-, x, hx, raw, hop, hreply, hoctets⟩
      rcases List.mem_cons.mp (hcalls ▸ hx) with rfl | hlater
      · exact ⟨raw, received_eq_some.mpr hreply, hoctets⟩
      · have hmem := List.mem_map_of_mem (f := Session.Call.op) hlater
        rw [hrest, hop] at hmem
        exact absurd hmem (by decide)
    · rintro ⟨raw, hreply, hoctets⟩
      exact ⟨hended, c, hcalls ▸ List.mem_cons_self, raw, hfirst, received_eq_some.mp hreply, hoctets⟩
  have hinfo : info device s = withMac (collected device (c :: cs)) := by rw [info, hended, hcalls]
  rw [hinfo, withMac, hid]
  cases hreply : received c.reply with
  | some raw =>
    refine ⟨Dict.set "mac_from_system_id" (.str (decodeSystemIdToMac raw))
      (collected device (c :: cs)), by simp [fromHex_hex], ?_, fun octets hne => ?_⟩
    · rw [Dict.lookup_set, if_neg (by decide)]
      exact haddress
    · rw [hshows, hreply, mac, Dict.lookup_set, if_pos rfl, decodeSystemIdToMac_eq, hex_inj]
      simp
  | none =>
    refine ⟨collected device (c :: cs), rfl, haddress, fun octets hne => ?_⟩
    have hempty : mac (collected device (c :: cs)) = hex [] := by rw [mac, hmac]; rfl
    rw [hempty, hex_inj, hshows, hreply]
    simp [hne.symm]

/-! ## Whole runs -/

/-- A result of `main` comes from a plug that was read to the end. -/
theorem info_eq_some {device : BLEDevice} {s : ReadSession} {r : Info}
    (hreads : s.stage = .ended .normally → s.calls.map Session.Call.op = reads)
    (h : info device s = some r) : r.lookup "address" = some (.str device.address) ∧
      (mac r = targetMac ↔ Shows s targetOctets) := by
  have hended : s.stage = .ended .normally := by
    unfold info at h
    split at h
    · next hstage => exact hstage
    · cases h
  obtain ⟨r', hr', haddress, hmac⟩ := info_mac device hended (hreads hended)
  obtain rfl := Option.some.inj (h.symm.trans hr')
  exact ⟨haddress, targetMac_eq ▸ hmac targetOctets (by decide)⟩

section
variable {m : State} (hreads : ∀ p ∈ m.finished, p.2.stage = .ended .normally →
  p.2.calls.map Session.Call.op = reads)
include hreads

theorem matched_eq_none : matched m = none ↔ ∀ p ∈ m.finished, ¬ Shows p.2 targetOctets := by
  rw [matched, LastMatch.last_eq_none]
  constructor
  · intro hnone p hp hshows
    obtain ⟨r, hr, -, hmac⟩ := info_mac p.1 hshows.1 (hreads p hp hshows.1)
    refine of_decide_eq_false (hnone r (List.mem_filterMap.mpr ⟨p, hp, hr⟩)) ?_
    rw [targetMac_eq]
    exact (hmac targetOctets (by decide)).mpr hshows
  · intro hnone r hr
    obtain ⟨p, hp, hinfo⟩ := List.mem_filterMap.mp hr
    exact decide_eq_false fun hmac => hnone p hp ((info_eq_some (hreads p hp) hinfo).2.mp hmac)

/-- The plug that is reported is the last one that shows the MAC. -/
theorem matched_eq_some {r : Info} (h : matched m = some r) :
    ∃ ps p qs, m.finished = ps ++ p :: qs ∧ r.lookup "address" = some (.str p.1.address) ∧
      Shows p.2 targetOctets ∧ ∀ q ∈ qs, ¬ Shows q.2 targetOctets := by
  obtain ⟨ps, p, qs, hsplit, hinfo, hmac, hafter⟩ := LastMatch.last_filterMap.mp h
  have hmem : p ∈ m.finished := hsplit ▸ List.mem_append_right _ List.mem_cons_self
  obtain ⟨haddress, hshows⟩ := info_eq_some (hreads p hmem) hinfo
  refine ⟨ps, p, qs, hsplit, haddress, hshows.mp (of_decide_eq_true hmac), fun q hq hq' => ?_⟩
  have hqmem : q ∈ m.finished :=
    hsplit ▸ List.mem_append_right _ (List.mem_cons_of_mem _ hq)
  obtain ⟨r', hr', -, hmac'⟩ := info_mac q.1 hq'.1 (hreads q hqmem hq'.1)
  refine of_decide_eq_false (hafter q hq r' hr') ?_
  rw [targetMac_eq]
  exact (hmac' targetOctets (by decide)).mpr hq'

/-- How `main` ends, if it has. -/
theorem exitCode_cases (advs : List Monitor.Advertisement) :
    (devices advs = [] ∧ exitCode advs m = some 1) ∨
    (devices advs ≠ [] ∧ m.current ≠ none ∧ exitCode advs m = none) ∨
    (devices advs ≠ [] ∧ m.current = none ∧ (∃ p ∈ m.finished, Shows p.2 targetOctets) ∧
      exitCode advs m = some 0) ∨
    (devices advs ≠ [] ∧ m.current = none ∧ (∀ p ∈ m.finished, ¬ Shows p.2 targetOctets) ∧
      exitCode advs m = some 2) := by
  unfold exitCode
  by_cases hdevices : devices advs = []
  · exact .inl ⟨hdevices, if_pos hdevices⟩
  rw [if_neg hdevices]
  cases hcurrent : m.current with
  | some p => exact .inr (.inl ⟨hdevices, Option.some_ne_none p, rfl⟩)
  | none =>
    cases hmatched : matched m with
    | none => exact .inr (.inr (.inr ⟨hdevices, rfl, (matched_eq_none hreads).mp hmatched, rfl⟩))
    | some r =>
      obtain ⟨ps, p, qs, hsplit, -, hshows, -⟩ := matched_eq_some hreads hmatched
      have hmem : p ∈ m.finished := hsplit ▸ List.mem_append_right _ List.mem_cons_self
      exact .inr (.inr (.inl ⟨hdevices, rfl, ⟨p, hmem, hshows⟩, rfl⟩))

end

/-- Every plug that was heard is read in its turn, in the order in which they were first heard, one
at a time, and every client is closed when the turn is over. The six reads are made in order, and all
of them before a turn ends normally. Once all turns are over, the exit code is 0 exactly if some plug
was read to the end and its System ID holds the target MAC, and the last such plug is the one that is
reported. It is 1 exactly if no plug was heard, and else 2. -/
theorem target_identified {advs : List Monitor.Advertisement} {now : ℚ} {m : State}
    (h : Reaches step Free (main advs now) m) :
    (m.items = devices advs ∧ ((devices advs).map BLEDevice.address).Nodup ∧
      (devices advs).map BLEDevice.address =
        ((advs.filter accepts).map fun adv => adv.device.address).eraseDups ∧
      ∀ d, d ∈ devices advs ↔ ∃ adv, lastHeard accepts advs d.address = some adv ∧ adv.device = d) ∧
    (m.current = none → m.finished.map Prod.fst = devices advs) ∧
    (Visits.sessions m).countP (fun p => Visits.held p.2) ≤ 1 ∧
    (∀ p ∈ m.finished, p.2.opens = p.2.closes) ∧
    (∀ p ∈ Visits.sessions m, p.2.calls.map Session.Call.op <+: reads ∧
      (p.2.stage = .ended .normally → p.2.calls.map Session.Call.op = reads)) ∧
    (exitCode advs m = some 1 ↔ ∀ adv ∈ advs, accepts adv = false) ∧
    (exitCode advs m = some 0 ↔ m.current = none ∧ ∃ p ∈ m.finished, Shows p.2 targetOctets) ∧
    (exitCode advs m = some 2 ↔ m.current = none ∧ (∃ adv ∈ advs, accepts adv = true) ∧
      ∀ p ∈ m.finished, ¬ Shows p.2 targetOctets) ∧
    ∀ r, matched m = some r →
      ∃ ps p qs, m.finished = ps ++ p :: qs ∧ r.lookup "address" = some (.str p.1.address) ∧
        Shows p.2 targetOctets ∧ ∀ q ∈ qs, ¬ Shows q.2 targetOctets := by
  have hstands := Visits.run_visits h
  have hreads : ∀ p ∈ Visits.sessions m, p.2.calls.map Session.Call.op <+: reads ∧
      (p.2.stage = .ended .normally → p.2.calls.map Session.Call.op = reads) := fun p hp => by
    obtain ⟨t, hreach⟩ := hstands.reached p hp
    exact session_reads hreach
  have hfinished : ∀ p ∈ m.finished, p.2.stage = .ended .normally →
      p.2.calls.map Session.Call.op = reads :=
    fun p hp => (hreads p (List.mem_append_left _ hp)).2
  refine ⟨⟨hstands.items, heardDevices_nodup accepts advs, heardDevices_order accepts advs,
      fun d => mem_heardDevices⟩,
    hstands.complete, hstands.exclusive, fun p hp => (hstands.finished p hp).2,
    hreads, ?_, ?_, ?_, fun r hr => matched_eq_some hfinished hr⟩
  · rw [← heardDevices_eq_nil]
    rcases exitCode_cases hfinished advs with ⟨hnil, hcode⟩ | ⟨hne, -, hcode⟩ | ⟨hne, -, -, hcode⟩ |
      ⟨hne, -, -, hcode⟩
    · exact iff_of_true hcode hnil
    all_goals exact iff_of_false (by simp [hcode]) hne
  · rcases exitCode_cases hfinished advs with ⟨hnil, hcode⟩ | ⟨-, hcurrent, hcode⟩ |
      ⟨-, hcurrent, hshows, hcode⟩ | ⟨-, -, hnone, hcode⟩
    · refine iff_of_false (by simp [hcode]) ?_
      rintro ⟨hcurrent, p, hp, -⟩
      have hmem := List.mem_map_of_mem (f := Prod.fst) hp
      rw [hstands.complete hcurrent, hnil] at hmem
      cases hmem
    · exact iff_of_false (by simp [hcode]) fun hdone => hcurrent hdone.1
    · exact iff_of_true hcode ⟨hcurrent, hshows⟩
    · refine iff_of_false (by simp [hcode]) ?_
      rintro ⟨-, p, hp, hshows⟩
      exact hnone p hp hshows
  · have hheard : (∃ adv ∈ advs, accepts adv = true) ↔ devices advs ≠ [] := by
      rw [devices, ne_eq, heardDevices_eq_nil]
      simp
    rw [hheard]
    rcases exitCode_cases hfinished advs with ⟨hnil, hcode⟩ | ⟨-, hcurrent, hcode⟩ |
      ⟨-, -, ⟨p, hp, hshows⟩, hcode⟩ | ⟨hne, hcurrent, hnone, hcode⟩
    · exact iff_of_false (by simp [hcode]) fun hdone => hdone.2.1 hnil
    · exact iff_of_false (by simp [hcode]) fun hdone => hcurrent hdone.1
    · exact iff_of_false (by simp [hcode]) fun hdone => hdone.2.2 p hp hshows
    · exact iff_of_true hcode ⟨hcurrent, hne, hnone⟩

/-- Two plugs. The first one cannot be connected; of the second one only the hardware revision is
not readable. -/
def twoHeard : List Monitor.Advertisement :=
  [⟨⟨"A1:B2:C3:D4:E5:F7", none⟩, some "GVH5086A482", -50⟩,
    ⟨⟨"A1:B2:C3:D4:E5:F6", some "ihoment_H5086_A481"⟩, none, -70⟩]

def secondMatches : List Event :=
  .one (.reply (.raises .bleakError) none) :: .next ::
    [.reply (.returns []) none, .reply (.returns (systemId targetOctets [0xfe, 0xff])) none,
      .reply (.raises .bleakError) none, .reply (.returns [0x31]) none,
      .reply (.returns [0x32]) none, .reply (.returns [0x33]) none, .reply (.returns [0x34]) none,
      .reply (.returns []) none].map .one ++ [.next]

def afterSecondMatches : State :=
  outcome (guarded step fun _ _ => true) (main twoHeard 0) secondMatches

theorem target_identified_secondMatches : exitCode twoHeard afterSecondMatches = some 0 ∧
    ∃ p ∈ afterSecondMatches.finished, Shows p.2 targetOctets := by
  have hrun : Reaches step Free (main twoHeard 0) afterSecondMatches :=
    reaches_outcome (by decide +kernel) fun _ _ _ => trivial
  have hcode : exitCode twoHeard afterSecondMatches = some 0 := by decide +kernel
  exact ⟨hcode, ((target_identified hrun).2.2.2.2.2.2.1.mp hcode).2⟩

end Identify

/-! ## `dump_gatt.py` -/

namespace DumpGatt

/-- `descriptors` are handles. -/
structure Characteristic where
  uuid : String
  properties : List String
  descriptors : List ℕ
deriving DecidableEq, Repr

structure Service where
  characteristics : List Characteristic
deriving DecidableEq, Repr

/-- The reads of one characteristic. -/
def characteristicReads (ch : Characteristic) : List ReadOp :=
  (if "read" ∈ ch.properties then [.readGattChar ch.uuid] else []) ++
    ch.descriptors.map .readGattDescriptor

/-- The loops of `dump`. -/
def reads (services : List Service) : List ReadOp :=
  services.flatMap fun svc => svc.characteristics.flatMap characteristicReads

/-- `name.startswith("GVH5086")`. -/
def accepts (adv : Monitor.Advertisement) : Bool := "GVH5086".toList.isPrefixOf adv.name.toList

def devices (advs : List Monitor.Advertisement) : List BLEDevice := heardDevices accepts advs

abbrev State := Visits.State BLEDevice ReadPoint ReadOp Bytes PyException Empty

abbrev Event := Visits.Event Bytes PyException Empty

/-- The block of `dump`. `services` is what the client of each plug finds on it. -/
def dump (services : BLEDevice → List Service) (d : BLEDevice) :
    Session.Body ReadPoint ReadOp Bytes PyException :=
  readBody true (reads (services d))

/-- `for d in found.values(): await dump(d)`. -/
def step (services : BLEDevice → List Service) : State → Event → Option State :=
  Visits.step readOps (dump services)

/-- `main`, after a scan that ended at `now`. -/
def main (services : BLEDevice → List Service) (advs : List Monitor.Advertisement) (now : ℚ) :
    State :=
  Visits.start readOps (dump services) now (devices advs)

/-- Every plug that was heard has its turn, in the order in which they were first heard, and with one
client at a time. In it its values are read once, in the order of the tree, whatever fails on it or
on the others. If no plug has more than `n` values, the loop takes at most `n + 2` replies for each
plug, and until it has ended something can come back. -/
theorem tree_read {services : BLEDevice → List Service} {advs : List Monitor.Advertisement} {now : ℚ}
    {es : List Event} {m : State} (h : run (step services) (main services advs now) es = some m) :
    (m.items = devices advs ∧ ((devices advs).map BLEDevice.address).Nodup ∧
      (devices advs).map BLEDevice.address =
        ((advs.filter accepts).map fun adv => adv.device.address).eraseDups ∧
      (m.current = none → m.finished.map Prod.fst = devices advs)) ∧
    (Visits.sessions m).countP (fun p => Visits.held p.2) ≤ 1 ∧
    (∀ p ∈ m.finished, p.2.opens = p.2.closes) ∧
    (∀ p ∈ Visits.sessions m, p.2.calls.map Session.Call.op <+: reads (services p.1) ∧
      (p.2.stage = .ended .normally → p.2.calls.map Session.Call.op = reads (services p.1))) ∧
    (∀ n, (∀ d ∈ devices advs, (reads (services d)).length ≤ n) →
      es.countP Visits.isReply ≤ (n + 2) * (devices advs).length) ∧
    (m.current = none ∨ (∃ p, m.current = some p ∧ p.2.stage = .ended .cancelled) ∨
      ∃ dt, 0 ≤ dt ∧ ∃ e m', (e = .next ∨ Visits.isReply e = true) ∧
        run (step services) m [.one (.advance dt), e] = some m') := by
  have hstands := Visits.run_visits (reaches_free h)
  refine ⟨⟨hstands.items, heardDevices_nodup accepts advs, heardDevices_order accepts advs,
      hstands.complete⟩, hstands.exclusive,
    fun p hp => (hstands.finished p hp).2, fun p hp => ?_, fun n hn => ?_,
    Visits.goes_on [] fun _ => rfl⟩
  · obtain ⟨t, hreach⟩ := hstands.reached p hp
    exact session_reads hreach
  · have enter : ∀ d ∈ devices advs, ∀ v, readRank ((dump services d).enter v) ≤ n :=
      fun d hd v => (readRank_enter true _ v).trans (hn d hd)
    exact Visits.run_turns enter (fun d => readRank_resume true (reads (services d))) h

/-- A plug with two characteristics, of which one cannot be read. -/
def oneService (_ : BLEDevice) : List Service :=
  [⟨[⟨"2a00", ["read", "write"], []⟩, ⟨recvChar, ["notify"], [13]⟩]⟩]

def oneHeard : List Monitor.Advertisement :=
  [⟨⟨"A1:B2:C3:D4:E5:F6", none⟩, some "GVH5086A481", -60⟩]

def dumped : List Event :=
  [.reply (.returns []) none, .reply (.raises .bleakError) none, .reply (.returns [1, 0]) none,
    .reply (.returns []) none].map .one ++ [.next]

theorem tree_read_oneHeard : ∃ m, run (step oneService) (main oneService oneHeard 0) dumped = some m ∧
    (∀ p ∈ Visits.sessions m,
      p.2.calls.map Session.Call.op <+: [.readGattChar "2a00", .readGattDescriptor 13]) ∧
    dumped.countP Visits.isReply ≤ 4 * (devices oneHeard).length := by
  obtain ⟨m, hm⟩ := Option.isSome_iff_exists.mp (show
    (run (step oneService) (main oneService oneHeard 0) dumped).isSome = true by decide +kernel)
  obtain ⟨-, -, -, hreads, hbound, -⟩ := tree_read hm
  exact ⟨m, hm, fun p hp => (hreads p hp).1, hbound 2 fun _ _ => le_rfl⟩

end DumpGatt

end GoveeH5086
