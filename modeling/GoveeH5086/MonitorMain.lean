import GoveeH5086.Pacing
import GoveeH5086.Library.Pool
import GoveeH5086.Library.SortBy

/-!
# The monitor as a whole (`main_async` and `main` of `scripts/monitor.py`)

The monitor scans, prints what it found, and makes a task of `monitor_one` for each plug. A signal
sets the event that all tasks share; the main task then cancels them, waits for all of them and
returns. The tasks take turns in any order, before and after the cancellation.

A bad command line ends the process with code 2. `KeyboardInterrupt` can only come during the scan:
later the handlers of the signals set the event instead. What `resolve_target` prints on `stderr` is
left out.

1. `Main.listing_exact`: what is printed about the plugs.
2. `Main.Inv.step`: one event, seen from the tasks.
3. `Main.plugs_served`: one task and at most one client for each plug, and none when the process has
   ended.
4. `Main.exits_after_signal`: after a signal the process ends, whatever the tasks run into.
-/

namespace GoveeH5086
namespace Monitor
open Runs

/-! ## What is printed -/

/-- `sorted(found.items(), key=lambda kv: -kv[1][2])`. -/
def byStrength (found : Found) : Found := SortBy.descending (fun p => p.2.rssi) found

/-- A line on `stdout`. -/
inductive Shown
  | found (count : ℕ)
  | monitoring (count : ℕ)
  | listed (name : String) (rssi : ℤ) (address : String)
  | monitored (name : String) (rssi : ℤ) (address : String)
  | blank
deriving DecidableEq, Repr

/-- What `--list` prints. -/
def listing (found : Found) : List Shown :=
  .found found.length ::
    (byStrength found).map fun p => .listed p.2.name p.2.rssi p.1

/-- What is printed before the tasks start. -/
def announcement (found : Found) : List Shown :=
  .monitoring found.length ::
    ((byStrength found).map fun p => .monitored p.2.name p.2.rssi p.1) ++ [.blank]

/-- `shown` holds each plug once, as in one of its strongest advertisements, the strongest plug first.
Plugs of one strength stand in the order in which they were first heard. -/
structure Listed (name : Option String) (advs : List Advertisement) (shown : Found) : Prop where
  nodup : (shown.map Prod.fst).Nodup
  heard : ∀ a p, (a, p) ∈ shown →
    ∃ adv ∈ advs, Takes name adv ∧ adv.device.address = a ∧ p = adv.plug
  strongest : ∀ a p, (a, p) ∈ shown → ∀ adv ∈ advs, Takes name adv → adv.device.address = a →
    adv.rssi ≤ p.rssi
  descending : shown.Pairwise fun a b => b.2.rssi ≤ a.2.rssi
  ties : ∀ k, ((shown.filter fun p => p.2.rssi = k).map Prod.fst).Sublist (firstHeard name advs)

theorem byStrength_perm (found : Found) : (byStrength found).Perm found :=
  SortBy.descending_perm ..

theorem byStrength_listed {name : Option String} {advs : List Advertisement} {found : Found}
    (hsub : found.Sublist (discover name advs)) : Listed name advs (byStrength found) := by
  obtain ⟨hnodup, hheard, hstrongest⟩ := discover_strongest name advs
  have hlookup : ∀ a p, (a, p) ∈ byStrength found → (discover name advs).lookup a = some p :=
    fun a p hp => (Dict.mem_iff_lookup hnodup).mp (hsub.subset ((byStrength_perm found).subset hp))
  refine ⟨?_, fun a p hp => hheard a p (hlookup a p hp), fun a p hp adv hadv htakes haddress => ?_,
    SortBy.descending_sorted .., fun k => ?_⟩
  · exact ((byStrength_perm found).map Prod.fst).nodup_iff.mpr (hnodup.sublist (hsub.map Prod.fst))
  · obtain ⟨p', hp', hle⟩ := hstrongest adv hadv htakes
    rw [haddress, hlookup a p hp] at hp'
    cases hp'
    exact hle
  · rw [byStrength, SortBy.descending_stable, ← discover_order]
    exact (List.filter_sublist.trans hsub).map Prod.fst

/-! ## The process -/

/-- The arguments of the command line. -/
structure CommandLine extends Args where
  list : Bool
deriving DecidableEq, Repr

/-- What the main task awaits, or how the process has ended. -/
inductive Stage
  | scanning
  | waiting
  | gathering
  | exited (code : ℕ)
  | raised (err : ValueError)
deriving DecidableEq, Repr

/-- The process. `started` is the time at which the tasks were created. -/
structure Main where
  args : CommandLine
  stage : Stage
  heard : List Advertisement
  stop : Bool
  now : ℚ
  started : ℚ
  tasks : List Stream
  shown : List Shown
deriving DecidableEq, Repr

namespace Main

/-- Up to the scan: what `main` checks, and the candidates that `resolve_target` makes first. -/
def firstStage (args : CommandLine) : Stage :=
  if given args.name && given args.mac then .exited 2
  else if given args.mac then
    match nameSuffixCandidates (args.mac.getD "") with
    | .error err => .raised err
    | .ok _ => .scanning
  else .scanning

def init (args : CommandLine) (now : ℚ) : Main where
  args := args
  stage := firstStage args
  heard := []
  stop := false
  now := now
  started := now
  tasks := []
  shown := []

/-- The task for an entry of `found`. -/
def task (now : ℚ) (p : String × Plug) : Stream := Stream.init p.2.device p.2.name now

/-- From the end of the scan to the next `await`. -/
def scanned (m : Main) : Main :=
  match resolveTarget m.args.toArgs m.heard with
  | .error err => { m with stage := .raised err }
  | .ok found =>
    if found = [] then { m with stage := .exited 1 }
    else if m.args.list then { m with stage := .exited 0, shown := m.shown ++ listing found }
    else { m with
      stage := .waiting
      started := m.now
      tasks := found.map (task m.now)
      shown := m.shown ++ announcement found }

/-- The event loop has tasks of `monitor_one`. -/
def running (m : Main) : Bool := m.stage = .waiting || m.stage = .gathering

/-- The event is set for all tasks. -/
def signalled (m : Main) (ts : List Stream) : Main := { m with stop := true, tasks := ts }

/-- The main task has cancelled the others, and waits for them. -/
def awaits (m : Main) (ts : List Stream) : Main := { m with stage := .gathering, tasks := ts }

/-- Some tasks have done something. -/
def after (m : Main) (ts : List Stream) : Main := { m with tasks := ts }

end Main

/-- What happens in one task, and is not the doing of another. -/
def Stream.Event.own : Stream.Event → Bool
  | .resume _ | .servicesRaised _ | .drop | .notify _ => true
  | .cancel | .setStop | .advance _ => false

def Stream.hasEnded (s : Stream) : Bool :=
  match s.point with
  | .ended _ => true
  | _ => false

namespace Main

inductive Event
  | hear (adv : Advertisement)
  | scanned
  | interrupt
  | signal
  | wake
  | gathered
  | task (i : ℕ) (e : Stream.Event)
  | advance (dt : ℚ)
deriving DecidableEq, Repr

/-- The effect of an event, when it can happen. -/
def step (aes : Aes) (m : Main) : Event → Option Main
  | .hear adv => if m.stage = .scanning then some { m with heard := m.heard ++ [adv] } else none
  | .scanned => if m.stage = .scanning then some m.scanned else none
  | .interrupt => if m.stage = .scanning then some { m with stage := .exited 0 } else none
  | .signal =>
    if m.running then (Pool.step (Stream.step aes) m.tasks (.all .setStop)).map m.signalled
    else none
  | .wake =>
    if m.stage = .waiting ∧ m.stop then
      (Pool.step (Stream.step aes) m.tasks (.all .cancel)).map m.awaits
    else none
  | .gathered =>
    if m.stage = .gathering ∧ m.tasks.all Stream.hasEnded then
      some { m with stage := .exited 0 }
    else none
  | .task i e =>
    if m.running ∧ e.own then (Pool.step (Stream.step aes) m.tasks (.one i e)).map m.after
    else none
  | .advance dt =>
    if 0 ≤ dt then
      (Pool.step (Stream.step aes) m.tasks (.all (.advance dt))).map
        ({ m with now := m.now + dt } : Main).after
    else none

/-- A turn of the main task after a signal, or of a task. -/
def Event.isTurn : Event → Bool
  | .wake | .gathered => true
  | .task _ e => e.isTurn
  | .hear _ | .scanned | .interrupt | .signal | .advance _ => false

end Main

/-! ## Which plugs are monitored -/

theorem mem_discover {name : Option String} {advs : List Advertisement} {p : String × Plug}
    (h : p ∈ discover name advs) :
    ∃ adv ∈ advs, Takes name adv ∧ p = (adv.device.address, adv.plug) := by
  obtain ⟨hnodup, hheard, -⟩ := discover_strongest name advs
  obtain ⟨adv, hadv, htakes, haddress, hplug⟩ := hheard p.1 p.2 ((Dict.mem_iff_lookup hnodup).mp h)
  exact ⟨adv, hadv, htakes, Prod.ext haddress.symm hplug⟩

theorem firstMatches_sublist (plugs : Found) (suffixes : List String) :
    (firstMatches plugs suffixes).Sublist plugs := by
  induction suffixes with
  | nil => exact List.nil_sublist plugs
  | cons suffix suffixes ih =>
    simp only [firstMatches]
    split
    · exact List.filter_sublist
    · exact ih

/-- The name by which the scan filters. -/
def scanName (args : Args) : Option String := if given args.mac then none else args.name

/-- With `--mac` some of the visible plugs are resolved, and else all that were found. -/
theorem resolveTarget_sublist {args : Args} {advs : List Advertisement} {found : Found}
    (h : resolveTarget args advs = .ok found) : found.Sublist (discover (scanName args) advs) ∧
      (given args.mac = false → found = discover (scanName args) advs) := by
  unfold resolveTarget at h
  unfold scanName
  split at h
  · next hmac =>
    rw [if_pos hmac]
    cases hsuffixes : nameSuffixCandidates (args.mac.getD "") with
    | error err =>
      rw [hsuffixes] at h
      cases h
    | ok suffixes =>
      rw [hsuffixes] at h
      cases h
      exact ⟨firstMatches_sublist _ _, fun hnone => by rw [hnone] at hmac; cases hmac⟩
  · next hmac =>
    rw [if_neg hmac]
    cases h
    exact ⟨.refl _, fun _ => rfl⟩

/-- What is monitored was heard, and no plug is monitored twice. -/
theorem resolveTarget_plugs {args : Args} {advs : List Advertisement} {found : Found}
    (h : resolveTarget args advs = .ok found) :
    (found.map fun p => p.2.device.address).Nodup ∧
    ∀ p ∈ found, ∃ adv ∈ advs, GoveePower.isH5086Advertisement (some adv.name) = true ∧
      p.2 = adv.plug := by
  have hsub := (resolveTarget_sublist h).1
  refine ⟨?_, fun p hp => ?_⟩
  · have hkeys : found.map (fun p => p.2.device.address) = Dict.keys found := by
      refine List.map_congr_left fun p hp => ?_
      obtain ⟨adv, -, -, rfl⟩ := mem_discover (hsub.subset hp)
      rfl
    rw [hkeys]
    exact (discover_strongest _ advs).nodup.sublist (hsub.map Prod.fst)
  · obtain ⟨adv, hadv, htakes, rfl⟩ := mem_discover (hsub.subset hp)
    exact ⟨adv, hadv, htakes.1, rfl⟩

/-! ## Runs of the process -/

namespace Main

/-- `ts` are the tasks that were made for what the scan found, each on its own way. -/
def Comes (aes : Aes) (m : Main) (ts : List Stream) : Prop :=
  ∃ found, resolveTarget m.args.toArgs m.heard = .ok found ∧
    Reaches (Pool.step (Stream.step aes)) (Pool.Allows Free fun _ => False)
      (found.map (task m.started)) ts

/-- There are no tasks before the scan is over, they share one event, and the process ends after
them. -/
structure Inv (aes : Aes) (m : Main) : Prop where
  scanning : m.stage = .scanning → m.tasks = [] ∧ m.stop = false
  tasks : m.tasks = [] ∧ m.running = false ∨ Comes aes m m.tasks
  stop : ∀ t ∈ m.tasks, t.stop = m.stop
  ended : m.running = false → ∀ t ∈ m.tasks, t.hasEnded = true

variable {aes : Aes} {m m' : Main} {ts ts' : List Stream}

theorem Comes.pool (h : Comes aes m ts) {e : Pool.Event Stream Stream.Event}
    (hstep : Pool.step (Stream.step aes) ts e = some ts')
    (hok : Pool.Allows Free (fun _ => False) ts e) : Comes aes m ts' := by
  obtain ⟨found, hfound, hreach⟩ := h
  exact ⟨found, hfound, hreach.tail hok hstep⟩

theorem Inv.comes (h : Inv aes m) (hrunning : m.running = true) : Comes aes m m.tasks := by
  refine h.tasks.resolve_left fun hnone => ?_
  rw [hnone.2] at hrunning
  cases hrunning

theorem Inv.noTasks (h : m.tasks = []) (hstop : m.stop = false) (hidle : m.running = false) :
    Inv aes m := by
  refine ⟨fun _ => ⟨h, hstop⟩, .inl ⟨h, hidle⟩, fun t ht => ?_, fun _ t ht => ?_⟩
  · rw [h] at ht
    cases ht
  · rw [h] at ht
    cases ht

theorem idle_of_scanning (h : m.stage = .scanning) : m.running = false := by
  rw [Main.running, h]
  rfl

theorem hasEnded_iff {s : Stream} : s.hasEnded = true ↔ ∃ exit, s.point = .ended exit := by
  unfold Stream.hasEnded
  split
  · next exit hended => exact ⟨fun _ => ⟨exit, hended⟩, fun _ => rfl⟩
  · next hgoes => exact ⟨nofun, fun ⟨exit, hended⟩ => absurd hended (hgoes exit)⟩

theorem scanned_inv (h : m.tasks = []) (hstop : m.stop = false) : Inv aes m.scanned := by
  unfold scanned
  split
  · exact .noTasks h hstop rfl
  · next found hfound =>
    split
    · exact .noTasks h hstop rfl
    · split
      · exact .noTasks h hstop rfl
      · refine ⟨nofun, .inr ⟨found, hfound, .refl⟩, fun t ht => ?_, nofun⟩
        obtain ⟨p, -, rfl⟩ := List.mem_map.mp ht
        exact hstop.symm

/-- Something happens in the tasks of a process that has some. -/
theorem Inv.running (h : Inv aes m) (hm : m.running = true) {e : Pool.Event Stream Stream.Event}
    (hstep : Pool.step (Stream.step aes) m.tasks e = some ts)
    (hok : Pool.Allows Free (fun _ => False) m.tasks e)
    (hargs : m'.args = m.args) (hheard : m'.heard = m.heard) (hstarted : m'.started = m.started)
    (htasks : m'.tasks = ts) (hrunning : m'.running = true)
    (hstop : ∀ t ∈ ts, t.stop = m'.stop) : Inv aes m' := by
  refine ⟨fun hscanning => ?_, ?_, htasks ▸ hstop, fun hidle => ?_⟩
  · rw [Main.running, hscanning] at hrunning
    cases hrunning
  · have hcomes := (h.comes hm).pool hstep hok
    unfold Comes at hcomes ⊢
    rw [hargs, hheard, hstarted, htasks]
    exact .inr hcomes
  · rw [hrunning] at hidle
    cases hidle

theorem stepAll_stop {e : Stream.Event} (he : e ≠ .setStop)
    (hstep : Pool.step (Stream.step aes) ts (.all e) = some ts') {b : Bool}
    (h : ∀ t ∈ ts, t.stop = b) : ∀ t ∈ ts', t.stop = b := by
  intro t ht
  obtain ⟨x, hx, hxt⟩ := Pool.mem_stepAll hstep ht
  exact (Stream.step_kept he hxt).stop.trans (h x hx)

theorem Inv.step (h : Inv aes m) {e : Event} (hstep : m.step aes e = some m') : Inv aes m' := by
  cases e with
  | hear adv =>
    obtain ⟨hscanning, heq⟩ := Option.ite_none_right_eq_some.mp hstep
    cases heq
    obtain ⟨htasks, hstop⟩ := h.scanning hscanning
    exact .noTasks htasks hstop (idle_of_scanning hscanning)
  | scanned =>
    obtain ⟨hscanning, heq⟩ := Option.ite_none_right_eq_some.mp hstep
    cases heq
    obtain ⟨htasks, hstop⟩ := h.scanning hscanning
    exact scanned_inv htasks hstop
  | interrupt =>
    obtain ⟨hscanning, heq⟩ := Option.ite_none_right_eq_some.mp hstep
    cases heq
    obtain ⟨htasks, hstop⟩ := h.scanning hscanning
    exact .noTasks htasks hstop rfl
  | signal =>
    obtain ⟨hrunning, hmap⟩ := Option.ite_none_right_eq_some.mp hstep
    obtain ⟨ts, hts, rfl⟩ := Option.map_eq_some_iff.mp hmap
    refine h.running hrunning hts (fun _ _ => trivial) rfl rfl rfl rfl hrunning fun t ht => ?_
    obtain ⟨x, -, hxt⟩ := Pool.mem_stepAll hts ht
    cases hxt
    rfl
  | wake =>
    obtain ⟨⟨hwaiting, -⟩, hmap⟩ := Option.ite_none_right_eq_some.mp hstep
    obtain ⟨ts, hts, rfl⟩ := Option.map_eq_some_iff.mp hmap
    exact h.running (by rw [Main.running, hwaiting]; rfl) hts (fun _ _ => trivial) rfl rfl rfl rfl rfl
      (stepAll_stop (by decide) hts h.stop)
  | gathered =>
    obtain ⟨⟨hgathering, hended⟩, heq⟩ := Option.ite_none_right_eq_some.mp hstep
    cases heq
    have hcomes := h.comes (by rw [Main.running, hgathering]; rfl)
    exact ⟨nofun, .inr hcomes, h.stop, fun _ => List.all_eq_true.mp hended⟩
  | task i e =>
    obtain ⟨⟨hrunning, hown⟩, hmap⟩ := Option.ite_none_right_eq_some.mp hstep
    obtain ⟨ts, hts, rfl⟩ := Option.map_eq_some_iff.mp hmap
    refine h.running hrunning hts (fun _ _ => trivial) rfl rfl rfl rfl hrunning fun t ht => ?_
    obtain ⟨x, hx, hmap'⟩ := Option.bind_eq_some_iff.mp hts
    obtain ⟨x', hx', rfl⟩ := Option.map_eq_some_iff.mp hmap'
    rcases List.mem_or_eq_of_mem_set ht with hold | rfl
    · exact h.stop t hold
    · have he : e ≠ .setStop := by
        rintro rfl
        cases hown
      exact (Stream.step_kept he hx').stop.trans (h.stop x (List.mem_of_getElem? hx))
  | advance dt =>
    obtain ⟨-, hmap⟩ := Option.ite_none_right_eq_some.mp hstep
    obtain ⟨ts, hts, rfl⟩ := Option.map_eq_some_iff.mp hmap
    have hstop := stepAll_stop (by simp) hts h.stop
    refine ⟨fun hscanning => ?_, ?_, hstop, fun hidle t ht => ?_⟩
    · obtain ⟨htasks, hunset⟩ := h.scanning hscanning
      rw [htasks] at hts
      cases hts
      exact ⟨rfl, hunset⟩
    · rcases h.tasks with ⟨hnone, hidle⟩ | hcomes
      · rw [hnone] at hts
        cases hts
        exact .inl ⟨rfl, hidle⟩
      · exact .inr (hcomes.pool hts fun _ _ => trivial)
    · obtain ⟨x, hx, hxt⟩ := Pool.mem_stepAll hts ht
      obtain ⟨exit, hended⟩ := hasEnded_iff.mp (h.ended hidle x hx)
      obtain ⟨-, heq⟩ := Option.ite_none_right_eq_some.mp hxt
      cases heq
      exact hasEnded_iff.mpr ⟨exit, hended⟩

/-- The event loop has no tasks before the scan. -/
theorem init_idle (args : CommandLine) (now : ℚ) : (init args now).running = false := by
  rw [Main.running, init, firstStage]
  split
  · rfl
  · split
    · split <;> rfl
    · rfl

theorem run_inv {args : CommandLine} {now : ℚ}
    (hrun : Reaches (Main.step aes) Free (init args now) m) : Inv aes m :=
  hrun.invariant (P := Inv aes) (.noTasks rfl rfl (init_idle args now))
    fun _ _ _ ha _ hstep => ha.step hstep

theorem Inv.each (h : Inv aes m) (hsome : m.running = true ∨ m.tasks ≠ []) :
    ∃ found, resolveTarget m.args.toArgs m.heard = .ok found ∧
      List.Forall₂ (fun p t => Reaches (Stream.step aes) Free (task m.started p) t) found
        m.tasks := by
  rcases h.tasks with ⟨hnone, hidle⟩ | ⟨found, hfound, hreach⟩
  · rcases hsome with hrunning | htasks
    · rw [hidle] at hrunning
      cases hrunning
    · exact absurd hnone htasks
  · exact ⟨found, hfound, List.forall₂_map_left_iff.mp (Pool.fixed hreach)⟩

theorem devices {found : Found} {start : ℚ}
    (h : List.Forall₂ (fun p t => Reaches (Stream.step aes) Free (task start p) t) found ts) :
    ts.map Stream.device = found.map fun p => p.2.device := by
  induction h with
  | nil => rfl
  | cons hreach _ ih => rw [List.map_cons, List.map_cons, ih, (Stream.run_kept hreach).1]; rfl

/-! ### What is printed about the plugs -/

/-- The scan goes on only with a command line that can be resolved, and prints nothing. -/
structure Scans (args : CommandLine) (m : Main) : Prop where
  same : m.args = args
  scanning : m.stage = .scanning → firstStage args = .scanning ∧ m.shown = []

theorem Scans.step {args : CommandLine} (h : Scans args m) {e : Event}
    (hstep : m.step aes e = some m') : Scans args m' := by
  cases e with
  | hear adv =>
    obtain ⟨-, heq⟩ := Option.ite_none_right_eq_some.mp hstep
    cases heq
    exact ⟨h.same, h.scanning⟩
  | scanned =>
    obtain ⟨-, heq⟩ := Option.ite_none_right_eq_some.mp hstep
    cases heq
    unfold Main.scanned
    split
    · exact ⟨h.same, nofun⟩
    · split
      · exact ⟨h.same, nofun⟩
      · split <;> exact ⟨h.same, nofun⟩
  | interrupt | gathered =>
    obtain ⟨-, heq⟩ := Option.ite_none_right_eq_some.mp hstep
    cases heq
    exact ⟨h.same, nofun⟩
  | signal | task =>
    obtain ⟨-, hmap⟩ := Option.ite_none_right_eq_some.mp hstep
    obtain ⟨ts, -, rfl⟩ := Option.map_eq_some_iff.mp hmap
    exact ⟨h.same, h.scanning⟩
  | wake =>
    obtain ⟨-, hmap⟩ := Option.ite_none_right_eq_some.mp hstep
    obtain ⟨ts, -, rfl⟩ := Option.map_eq_some_iff.mp hmap
    exact ⟨h.same, nofun⟩
  | advance dt =>
    obtain ⟨-, hmap⟩ := Option.ite_none_right_eq_some.mp hstep
    obtain ⟨ts, -, rfl⟩ := Option.map_eq_some_iff.mp hmap
    exact ⟨h.same, h.scanning⟩

theorem resolveTarget_ok {args : CommandLine} (h : firstStage args = .scanning)
    (advs : List Advertisement) : ∃ found, resolveTarget args.toArgs advs = .ok found := by
  unfold resolveTarget
  split
  · next hmac =>
    cases hsuffixes : nameSuffixCandidates (args.mac.getD "") with
    | ok suffixes => exact ⟨_, rfl⟩
    | error err =>
      unfold firstStage at h
      rw [if_pos hmac, hsuffixes] at h
      split at h <;> cases h
  · exact ⟨_, rfl⟩

/-- At the end of every scan: without a plug nothing is printed, and the exit code is 1. Otherwise
`--list` prints how many plugs were found and a line for each, the strongest first, and ends with
code 0; without `--list` the same plugs are announced in the same order before their tasks start.
Each plug is shown as in one of its strongest advertisements, those of one strength in the order in
which they were first heard, and without `--mac` no plug is left out. -/
theorem listing_exact {args : CommandLine} {now : ℚ}
    (hrun : Reaches (Main.step aes) Free (init args now) m)
    (hstep : m.step aes .scanned = some m') :
    ∃ found shown, resolveTarget args.toArgs m.heard = .ok found ∧ shown.Perm found ∧
      Listed (scanName args.toArgs) m.heard shown ∧
      (given args.mac = false → ∀ adv ∈ m.heard, Takes (scanName args.toArgs) adv →
        adv.device.address ∈ shown.map Prod.fst) ∧
      (shown = [] → m'.stage = .exited 1 ∧ m'.shown = []) ∧
      (shown ≠ [] → args.list = true → m'.stage = .exited 0 ∧ m'.shown =
        .found shown.length :: shown.map fun p => .listed p.2.name p.2.rssi p.1) ∧
      (shown ≠ [] → args.list = false → m'.stage = .waiting ∧ m'.shown =
        .monitoring shown.length ::
          (shown.map fun p => .monitored p.2.name p.2.rssi p.1) ++ [.blank]) := by
  have hscans : Scans args m := hrun.invariant (P := Scans args) ⟨rfl, fun h => ⟨h, rfl⟩⟩
    fun _ _ _ ha _ hstep => ha.step hstep
  obtain ⟨hscanning, heq⟩ := Option.ite_none_right_eq_some.mp hstep
  obtain ⟨hfirst, hunshown⟩ := hscans.scanning hscanning
  obtain ⟨found, hfound⟩ := resolveTarget_ok hfirst m.heard
  obtain ⟨hsub, hall⟩ := resolveTarget_sublist hfound
  have hperm := byStrength_perm found
  have hempty : byStrength found = [] ↔ found = [] := by
    rw [← List.length_eq_zero_iff, hperm.length_eq, List.length_eq_zero_iff]
  cases heq
  refine ⟨found, byStrength found, hfound, hperm, byStrength_listed hsub,
    fun hmac adv hadv htakes => ?_, fun hnone => ?_, fun hsome hlist => ?_, fun hsome hlist => ?_⟩
  · rw [(hperm.map Prod.fst).mem_iff, hall hmac]
    obtain ⟨p, hp, -⟩ := (discover_strongest _ m.heard).strongest adv hadv htakes
    exact Dict.mem_keys_of_lookup hp
  all_goals simp only [Main.scanned, hscans.same, hfound]
  · rw [if_pos (hempty.mp hnone)]
    exact ⟨rfl, hunshown⟩
  · rw [if_neg (hempty.not.mp hsome), if_pos hlist, hunshown, listing, hperm.length_eq]
    exact ⟨rfl, rfl⟩
  · rw [if_neg (hempty.not.mp hsome), if_neg (by simp [hlist]), hunshown, announcement,
      hperm.length_eq]
    exact ⟨rfl, rfl⟩

/-- Three plugs are heard, two of them equally well, and one of these twice. -/
def threeHeard : List Event :=
  [.hear ⟨⟨"AA:BB:CC:DD:12:34", none⟩, some "GVH50861234", -70⟩,
    .hear ⟨⟨"AA:BB:CC:DD:EE:FF", none⟩, some "GVH5086EEFF", -60⟩,
    .hear ⟨⟨"AA:BB:CC:DD:56:78", none⟩, some "GVH50865678", -60⟩,
    .hear ⟨⟨"AA:BB:CC:DD:12:34", none⟩, some "GVH50861234", -60⟩]

theorem listing_exact_threeHeard : ∃ (shown : Found) (m m' : Main),
    run (Main.step capturedAes) (init ⟨⟨none, none⟩, true⟩ 0) threeHeard = some m ∧
    m.step capturedAes .scanned = some m' ∧ m'.stage = .exited 0 ∧
    m'.shown = .found shown.length :: (shown.map fun p => .listed p.2.name p.2.rssi p.1) ∧
    ((shown.filter fun p => p.2.rssi = -60).map Prod.fst).Sublist
      ["AA:BB:CC:DD:12:34", "AA:BB:CC:DD:EE:FF", "AA:BB:CC:DD:56:78"] := by
  obtain ⟨m, hm⟩ := Option.isSome_iff_exists.mp (show (run (Main.step capturedAes)
    (init ⟨⟨none, none⟩, true⟩ 0) threeHeard).isSome = true by decide +kernel)
  have hstep : m.step capturedAes .scanned = some m.scanned := by
    cases hm
    rfl
  have hheard : firstHeard none m.heard =
      ["AA:BB:CC:DD:12:34", "AA:BB:CC:DD:EE:FF", "AA:BB:CC:DD:56:78"] := by
    cases hm
    decide +kernel
  obtain ⟨-, shown, -, -, hlisted, hall, -, hlist, -⟩ := listing_exact (reaches_free hm) hstep
  have hsome : shown ≠ [] := by
    rintro rfl
    cases hm
    exact List.not_mem_nil (hall rfl _ List.mem_cons_self (by decide +kernel))
  obtain ⟨hstage, hshown⟩ := hlist hsome rfl
  exact ⟨shown, m, m.scanned, hm, hstep, hstage, hshown, hheard ▸ hlisted.ties (-60)⟩

/-! ### The tasks -/

/-- While the process runs, every plug that the scan found is monitored by one task, and nothing else
is. No plug has two clients at a time, and none is left connected when the process has ended. -/
theorem plugs_served {args : CommandLine} {now : ℚ}
    (hrun : Reaches (Main.step aes) Free (init args now) m) :
    (m.running = true ∨ m.tasks ≠ [] →
      ∃ found, resolveTarget m.args.toArgs m.heard = .ok found ∧
        m.tasks.map Stream.device = found.map fun p => p.2.device) ∧
    (m.tasks.map fun t => t.device.address).Nodup ∧
    (∀ t ∈ m.tasks,
      (∃ adv ∈ m.heard, GoveePower.isH5086Advertisement (some adv.name) = true ∧
        t.device = adv.device ∧ t.label = adv.name) ∧
      Stream.opens t.log ≤ Stream.closes t.log + 1) ∧
    ∀ code, m.stage = .exited code → ∀ t ∈ m.tasks, Stream.opens t.log = Stream.closes t.log := by
  have hinv := run_inv hrun
  have hserved : m.running = true ∨ m.tasks ≠ [] →
      ∃ found, resolveTarget m.args.toArgs m.heard = .ok found ∧
        m.tasks.map Stream.device = found.map fun p => p.2.device := by
    intro hsome
    obtain ⟨found, hfound, heach⟩ := hinv.each hsome
    exact ⟨found, hfound, devices heach⟩
  refine ⟨hserved, ?_⟩
  rcases eq_or_ne m.tasks [] with hnone | hsome
  · rw [hnone]
    exact ⟨List.nodup_nil, fun t ht => absurd ht List.not_mem_nil,
      fun _ _ t ht => absurd ht List.not_mem_nil⟩
  obtain ⟨found, hfound, heach⟩ := hinv.each (.inr hsome)
  obtain ⟨hnodup, hheard⟩ := resolveTarget_plugs hfound
  have hdevices := devices heach
  -- a task and the entry that it was made for
  have made : ∀ t ∈ m.tasks, ∃ p ∈ found, Reaches (Stream.step aes) Free (task m.started p) t :=
    fun t ht => Pool.exists_of_mem heach ht
  refine ⟨?_, fun t ht => ?_, fun code hexited t ht => ?_⟩
  · have haddresses := congrArg (List.map BLEDevice.address) hdevices
    rw [List.map_map, List.map_map] at haddresses
    exact haddresses ▸ hnodup
  · obtain ⟨p, hp, hreach⟩ := made t ht
    obtain ⟨adv, hadv, haccepted, hplug⟩ := hheard p hp
    obtain ⟨hdevice, hlabel⟩ := Stream.run_kept hreach
    refine ⟨⟨adv, hadv, haccepted, ?_, ?_⟩,
      ((Stream.run_clients hreach).balance t.log List.prefix_rfl).2⟩
    · rw [hdevice, task, hplug]
      rfl
    · rw [hlabel, task, hplug]
      rfl
  · obtain ⟨p, -, hreach⟩ := made t ht
    have hidle : m.running = false := by
      rw [Main.running, hexited]
      rfl
    obtain ⟨exit, hended⟩ := hasEnded_iff.mp (hinv.ended hidle t ht)
    have hheld := (Stream.run_clients hreach).held
    rw [hended] at hheld
    exact hheld

/-! ## The end of the process -/

/-- The turns of the main task that are left after a signal. -/
def ownTurns : Stage → ℕ
  | .waiting => 2
  | .gathering => 1
  | .scanning | .exited _ | .raised _ => 0

/-- The turns that are left at most after a signal. -/
def turnsLeft (m : Main) : ℕ :=
  Pool.total (fun t => t.point.turnsLeft) m.tasks + ownTurns m.stage

/-- A signal has come: the process is about to end with code 0. -/
structure Stopping (m : Main) : Prop where
  stop : m.stop = true
  tasks : ∀ t ∈ m.tasks, t.stop = true
  stage : m.running = true ∨ m.stage = .exited 0

theorem total_other {e : Stream.Event} (hturn : e.isTurn = false)
    (hstep : Pool.step (Stream.step aes) ts (.all e) = some ts') :
    Pool.total (fun t => t.point.turnsLeft) ts' ≤ Pool.total (fun t => t.point.turnsLeft) ts := by
  refine Pool.total_all hstep fun t t' _ ht => ?_
  rcases Stream.step_moves ht with ⟨hturn', -⟩ | ⟨-, haside⟩
  · rw [hturn] at hturn'
    cases hturn'
  · rw [haside.point]

theorem tasks_stopped {e : Stream.Event}
    (hstep : Pool.step (Stream.step aes) ts (.all e) = some ts') (h : ∀ t ∈ ts, t.stop = true) :
    ∀ t ∈ ts', t.stop = true := by
  intro t ht
  obtain ⟨x, hx, hxt⟩ := Pool.mem_stepAll hstep ht
  exact (Stream.step_winds (h x hx) hxt).stop

theorem Stopping.step (h : Stopping m) {e : Event} (hstep : m.step aes e = some m') :
    Stopping m' ∧ m'.turnsLeft + e.isTurn.toNat ≤ m.turnsLeft := by
  have hscanning : m.stage ≠ .scanning := by
    intro hscanning
    have hstage := h.stage
    rw [Main.running, hscanning] at hstage
    simp at hstage
  cases e with
  | hear adv | scanned | interrupt =>
    exact absurd (Option.ite_none_right_eq_some.mp hstep).1 hscanning
  | signal =>
    obtain ⟨hrunning, hmap⟩ := Option.ite_none_right_eq_some.mp hstep
    obtain ⟨ts, hts, rfl⟩ := Option.map_eq_some_iff.mp hmap
    exact ⟨⟨rfl, tasks_stopped hts h.tasks, h.stage⟩,
      Nat.add_le_add_right (total_other rfl hts) _⟩
  | wake =>
    obtain ⟨⟨hwaiting, -⟩, hmap⟩ := Option.ite_none_right_eq_some.mp hstep
    obtain ⟨ts, hts, rfl⟩ := Option.map_eq_some_iff.mp hmap
    refine ⟨⟨h.stop, tasks_stopped hts h.tasks, .inl rfl⟩, ?_⟩
    rw [turnsLeft, turnsLeft, hwaiting]
    exact Nat.add_le_add_right (total_other rfl hts) 2
  | gathered =>
    obtain ⟨⟨hgathering, -⟩, heq⟩ := Option.ite_none_right_eq_some.mp hstep
    cases heq
    refine ⟨⟨h.stop, h.tasks, .inr rfl⟩, ?_⟩
    rw [turnsLeft, turnsLeft, hgathering]
    exact le_rfl
  | task i e =>
    obtain ⟨⟨hrunning, -⟩, hmap⟩ := Option.ite_none_right_eq_some.mp hstep
    obtain ⟨ts, hts, rfl⟩ := Option.map_eq_some_iff.mp hmap
    obtain ⟨x, hx, hmap'⟩ := Option.bind_eq_some_iff.mp hts
    obtain ⟨x', hx', rfl⟩ := Option.map_eq_some_iff.mp hmap'
    have hwinds := Stream.step_winds (h.tasks x (List.mem_of_getElem? hx)) hx'
    refine ⟨⟨h.stop, fun t ht => ?_, h.stage⟩, ?_⟩
    · rcases List.mem_or_eq_of_mem_set ht with hold | rfl
      · exact h.tasks t hold
      · exact hwinds.stop
    · have htotal := Pool.total_one (fun t : Stream => t.point.turnsLeft) hx x'
      have hrank := hwinds.rank
      simp only [turnsLeft, Main.after, Event.isTurn] at htotal ⊢
      omega
  | advance dt =>
    obtain ⟨-, hmap⟩ := Option.ite_none_right_eq_some.mp hstep
    obtain ⟨ts, hts, rfl⟩ := Option.map_eq_some_iff.mp hmap
    exact ⟨⟨h.stop, tasks_stopped hts h.tasks, h.stage⟩,
      Nat.add_le_add_right (total_other rfl hts) _⟩

/-- Some turn is possible until the process has ended. -/
theorem Stopping.goes_on (h : Stopping m) :
    m.stage = .exited 0 ∨ ∃ e m', e.isTurn = true ∧ m.step aes e = some m' := by
  rcases h.stage with hrunning | hexited
  · right
    cases hstage : m.stage with
    | waiting =>
      obtain ⟨ts, hts⟩ : ∃ ts, Pool.stepAll (Stream.step aes) .cancel m.tasks = some ts :=
        Pool.stepAll_isSome fun t _ => ⟨_, rfl⟩
      exact ⟨.wake, m.awaits ts, rfl, by simp [Main.step, hstage, h.stop, Pool.step, hts]⟩
    | gathering =>
      by_cases hall : m.tasks.all Stream.hasEnded = true
      · exact ⟨.gathered, { m with stage := .exited 0 }, rfl, by simp [Main.step, hstage, hall]⟩
      · -- some task has not ended, and can go on
        obtain ⟨i, hi, hgoes⟩ : ∃ i, ∃ hi : i < m.tasks.length, m.tasks[i].hasEnded = false := by
          simpa [List.all_eq, List.mem_iff_getElem] using hall
        have hstopped : m.tasks[i].stop = true := h.tasks _ (List.getElem_mem hi)
        rcases Stream.returns_or_ended aes hstopped with hended | ⟨t, ht⟩
        · rw [hasEnded_iff.mpr hended] at hgoes
          cases hgoes
        · refine ⟨.task i (.resume .returns), m.after (m.tasks.set i t), rfl, ?_⟩
          simp [Main.step, hrunning, Stream.Event.own, Pool.step, hi, ht]
    | scanning => simp [Main.running, hstage] at hrunning
    | exited code => simp [Main.running, hstage] at hrunning
    | raised err => simp [Main.running, hstage] at hrunning
  · exact .inl hexited

/-- A process without tasks makes no turn. -/
theorem no_turn_of_idle (hidle : m.running = false) {e : Event} (hturn : e.isTurn = true) :
    m.step aes e ≠ some m' := by
  intro hstep
  cases e with
  | wake =>
    obtain ⟨⟨hwaiting, -⟩, -⟩ := Option.ite_none_right_eq_some.mp hstep
    rw [Main.running, hwaiting] at hidle
    cases hidle
  | gathered =>
    obtain ⟨⟨hgathering, -⟩, -⟩ := Option.ite_none_right_eq_some.mp hstep
    rw [Main.running, hgathering] at hidle
    cases hidle
  | task i e =>
    obtain ⟨⟨hrunning, -⟩, -⟩ := Option.ite_none_right_eq_some.mp hstep
    rw [hidle] at hrunning
    cases hrunning
  | hear | scanned | interrupt | signal | advance => cases hturn

/-- After a signal the process ends with code 0: within five turns for each task and two of the main
task, whatever the tasks run into, and some turn is possible until then. -/
theorem exits_after_signal {args : CommandLine} {now : ℚ} {es : List Event}
    (hrun : Reaches (Main.step aes) Free (init args now) m) (hrunning : m.running = true)
    (hsignal : m.stop = true) (hes : run (Main.step aes) m es = some m') :
    es.countP Event.isTurn ≤ 5 * m.tasks.length + 2 ∧
    (m'.stage = .exited 0 ∨ ∃ e m'', e.isTurn = true ∧ m'.step aes e = some m'') := by
  have hstart : Stopping m :=
    ⟨hsignal, fun t ht => ((run_inv hrun).stop t ht).trans hsignal, .inl hrunning⟩
  obtain ⟨hstopping, hcount⟩ := turns_bounded Event.isTurn turnsLeft
    (fun _ _ _ ha hstep => ha.step hstep) hstart hes
  refine ⟨?_, hstopping.goes_on⟩
  have htasks : Pool.total (fun t => t.point.turnsLeft) m.tasks ≤ 5 * m.tasks.length :=
    Pool.total_le fun t _ => t.point.turnsLeft_le
  have hown : ownTurns m.stage ≤ 2 := by
    cases m.stage <;> simp [ownTurns]
  calc es.countP Event.isTurn
      ≤ m.turnsLeft := (Nat.le_add_left _ _).trans hcount
    _ ≤ 5 * m.tasks.length + 2 := Nat.add_le_add htasks hown

/-- Two plugs are watched until a signal comes, one of them connected. -/
def twoWatched : List Event :=
  [.hear ⟨⟨"AA:BB:CC:DD:EE:FF", none⟩, some "GVH5086EEFF", -60⟩,
    .hear ⟨⟨"AA:BB:CC:DD:12:34", none⟩, some "GVH50861234", -70⟩, .scanned,
    .task 0 (.resume .returns), .task 1 (.resume .returns), .task 0 (.resume .returns),
    .advance 2, .task 0 (.resume .returns), .signal, .task 0 (.resume .returns), .wake,
    .task 1 (.resume .cancelled), .task 0 (.resume .cancelled), .task 0 (.resume .returns),
    .gathered]

def twoWatchedTo (n : ℕ) : Main :=
  outcome (guarded (Main.step capturedAes) fun _ _ => true) (init ⟨⟨none, none⟩, false⟩ 0)
    (twoWatched.take n)

theorem reaches_twoWatchedTo {n : ℕ}
    (h : (run (guarded (Main.step capturedAes) fun _ _ => true) (init ⟨⟨none, none⟩, false⟩ 0)
      (twoWatched.take n)).isSome = true) :
    Reaches (Main.step capturedAes) Free (init ⟨⟨none, none⟩, false⟩ 0) (twoWatchedTo n) :=
  reaches_outcome h fun _ _ _ => trivial

theorem plugs_served_twoWatched :
    (twoWatchedTo 15).tasks.length = 2 ∧
    ∀ t ∈ (twoWatchedTo 15).tasks, Stream.opens t.log = Stream.closes t.log :=
  ⟨by decide +kernel,
    (plugs_served (reaches_twoWatchedTo (by decide +kernel))).2.2.2 0 (by decide +kernel)⟩

theorem exits_after_signal_twoWatched : ∃ m',
    run (Main.step capturedAes) (twoWatchedTo 9) (twoWatched.drop 9) = some m' ∧
    m'.stage = .exited 0 ∧
    (twoWatched.drop 9).countP Event.isTurn ≤ 5 * (twoWatchedTo 9).tasks.length + 2 := by
  have hends : (run (Main.step capturedAes) (twoWatchedTo 9) (twoWatched.drop 9)).map Main.running =
      some false := by
    decide +kernel
  obtain ⟨m', hm', hidle⟩ := Option.map_eq_some_iff.mp hends
  obtain ⟨hcount, hexits⟩ := exits_after_signal (reaches_twoWatchedTo (by decide +kernel))
    (by decide +kernel) (by decide +kernel) hm'
  refine ⟨m', hm', hexits.resolve_right ?_, hcount⟩
  rintro ⟨e, m'', hturn, hstep⟩
  exact no_turn_of_idle hidle hturn hstep

end Main

end Monitor

end GoveeH5086
