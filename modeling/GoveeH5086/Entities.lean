import GoveeH5086.Configured
import GoveeH5086.Readings
import GoveeH5086.Updates
import GoveeH5086.PacketFormat

/-!
# The sensors of a house (`sensor.py`)

An entry has one sensor for each description, and Home Assistant tells sensors apart by their unique
ids, over all entries. What a sensor shows is a field of the last reading.

1. `append_inj_of_suffixFree`: words that end in a code without proper suffixes can be split.
2. `uniqueId_inj`: a unique id tells the plug and the sensor, whatever the addresses look like.
3. `FlowManager.entity_ids_distinct`: no two sensors of a house have the same unique id.
4. `Coordinator.Shows.move`, `Sys.shown_was_heard`: what is shown was in a packet of the plug.
-/

namespace GoveeH5086
open BigEndian FifoLock Runs

/-! ## Unique ids -/

/-- No word of `code` is a proper suffix of another. -/
def SuffixFree {α : Type*} (code : List (List α)) : Prop :=
  ∀ s ∈ code, ∀ t ∈ code, s <:+ t → s = t

/-- What ends in a word of such a code can be split in one way only. -/
theorem append_inj_of_suffixFree {α : Type*} {code : List (List α)} (h : SuffixFree code)
    {a a' s s' : List α} (hs : s ∈ code) (hs' : s' ∈ code) (heq : a ++ s = a' ++ s') :
    a = a' ∧ s = s' := by
  have hend : s <:+ a' ++ s' := heq ▸ List.suffix_append a s
  have hsame : s = s' := by
    rcases List.suffix_or_suffix_of_suffix hend (List.suffix_append a' s') with hsub | hsub
    · exact h s hs s' hs' hsub
    · exact (h s' hs' s hs hsub).symm
  subst hsame
  exact ⟨List.append_cancel_right heq, rfl⟩

/-- `_attr_unique_id`. -/
def GoveeSensorDescription.uniqueId (address : String) (d : GoveeSensorDescription) : String :=
  address ++ "_" ++ d.key

/-- The keys of `SENSORS`, each after its separator. -/
def keySuffixes : List (List Char) := sensors.map fun d => '_' :: d.key.toList

theorem keySuffixes_suffixFree : SuffixFree keySuffixes := by
  have all : ∀ s ∈ keySuffixes, ∀ t ∈ keySuffixes, s.isSuffixOf t = true → s = t := by decide
  intro s hs t ht hsub
  exact all s hs t ht (List.isSuffixOf_iff_suffix.mpr hsub)

theorem keys_nodup : (sensors.map GoveeSensorDescription.key).Nodup := by decide

/-- The id of a sensor tells which plug and which quantity it is. -/
theorem uniqueId_inj {address address' : String} {d d' : GoveeSensorDescription} (hd : d ∈ sensors)
    (hd' : d' ∈ sensors) (heq : d.uniqueId address = d'.uniqueId address') :
    address = address' ∧ d.key = d'.key := by
  have hlists : address.toList ++ ('_' :: d.key.toList) =
      address'.toList ++ ('_' :: d'.key.toList) := by
    have htext := congrArg String.toList heq
    simpa [GoveeSensorDescription.uniqueId] using htext
  have hmem : ∀ {x}, x ∈ sensors → '_' :: x.key.toList ∈ keySuffixes := fun hx =>
    List.mem_map.mpr ⟨_, hx, rfl⟩
  obtain ⟨haddress, hkey⟩ :=
    append_inj_of_suffixFree keySuffixes_suffixFree (hmem hd) (hmem hd') hlists
  exact ⟨String.toList_inj.mp haddress, String.toList_inj.mp (List.cons.inj hkey).2⟩

namespace FlowManager

/-- The unique ids of the sensors of all entries. -/
def entityIds (s : FlowManager) : List String :=
  s.entries.flatMap fun e => sensors.map (GoveeSensorDescription.uniqueId e.address)

theorem addresses_nodup {s : FlowManager} (hrun : Reaches FlowManager.step Free init s) :
    (s.entries.map ConfigEntry.address).Nodup := by
  obtain ⟨a, hreached, hrefines⟩ : ∃ a, Reaches Reservation.step Free Reservation.init a ∧
      s.Refines a := hrun.simulates init_refines fun _ _ _ _ h _ hstep => h.step hstep
  have hids : (s.entries.map ConfigEntry.uniqueId).Nodup := by
    show s.currentIds.Nodup
    rw [← hrefines.records]
    exact (Reservation.records_nodup hreached).map (Option.some_injective _)
  -- the unique id of an entry is its address
  refine List.Nodup.of_map some ?_
  rw [List.map_map]
  exact (List.map_congr_left fun e he => (hrefines.inv.entries e he).1) ▸ hids

/-- Whatever flows are started, submitted and dismissed in whatever order, no two sensors of the
house have the same unique id. -/
theorem entity_ids_distinct {s : FlowManager} (hrun : Reaches FlowManager.step Free init s) :
    s.entityIds.Nodup := by
  have haddresses := addresses_nodup hrun
  refine List.nodup_flatMap.mpr ⟨fun e _ => ?_, ?_⟩
  · refine (List.Nodup.of_map GoveeSensorDescription.key keys_nodup).map_on fun d hd d' hd' heq => ?_
    have hkey := (uniqueId_inj hd hd' heq).2
    exact List.inj_on_of_nodup_map keys_nodup hd hd' hkey
  · have hentries : s.entries.Pairwise fun e e' => e.address ≠ e'.address :=
      List.pairwise_map.mp haddresses
    refine hentries.imp fun hne id hid hid' => ?_
    obtain ⟨d, hd, rfl⟩ := List.mem_map.mp hid
    obtain ⟨d', hd', heq⟩ := List.mem_map.mp hid'
    exact hne (uniqueId_inj hd' hd heq).1.symm

theorem entity_ids_distinct_twoPlugs :
    (after twoPlugs).entityIds.length = 10 ∧ (after twoPlugs).entityIds.Nodup := by
  have hrun : Reaches FlowManager.step Free init (after twoPlugs) :=
    reaches_outcome (by decide +kernel) fun _ _ _ => trivial
  exact ⟨by decide +kernel, entity_ids_distinct hrun⟩

end FlowManager

/-! ## What a sensor shows -/

/-- The plug has sent a packet with this reading. -/
def Heard (aes : Aes) (w : World) (r : PowerReading) : Prop :=
  ∃ raw ∈ w.emitted, decodeNotification aes raw = .ok r

namespace Coordinator

/-- Readings and written values are the plug's. A sensor that is available has a value. -/
structure Shows (aes : Aes) (w : World) (c : Coordinator) : Prop where
  reading : ∀ r, c.lastReading = some r → Heard aes w r
  written : ∀ e ∈ c.listeners, ∀ v, e.written.2 = some v →
    ∃ r, Heard aes w r ∧ v = e.description.valueFn r
  available : ∀ e ∈ c.listeners, e.written.1 = true → e.written.2.isSome = true

namespace Shows

variable {aes : Aes} {w w' : World} {c c' : Coordinator}

/-- A listener keeps what was written, or shows the new reading. -/
theorem update (h : c.Shows aes w) (hreading : ∀ r, c'.lastReading = some r → Heard aes w r)
    (hlisteners : ∀ e ∈ c'.listeners, e ∈ c.listeners ∨ e.written = c'.render w e.description) :
    c'.Shows aes w := by
  refine ⟨hreading, fun e he v hv => ?_, fun e he hshown => ?_⟩
  · rcases hlisteners e he with hold | hnew
    · exact h.written e hold v hv
    · rw [hnew] at hv
      cases hlast : c'.lastReading with
      | none => simp [render, nativeValue, hlast] at hv
      | some r =>
        have hvalue : e.description.valueFn r = v := by
          simpa [render, nativeValue, hlast] using hv
        exact ⟨r, hreading r hlast, hvalue.symm⟩
  · rcases hlisteners e he with hold | hnew
    · exact h.available e hold hshown
    · rw [hnew] at hshown ⊢
      cases hlast : c'.lastReading with
      | none => simp [render, Coordinator.available, hlast] at hshown
      | some r => simp [render, nativeValue, hlast]

theorem same (h : c.Shows aes w) (hreading : c'.lastReading = c.lastReading)
    (hlisteners : c'.listeners = c.listeners) : c'.Shows aes w :=
  h.update (hreading ▸ h.reading) fun _ he => .inl (hlisteners ▸ he)

theorem leave (h : c.Shows aes w) (i : ℕ) (t : Task) (call : Option Call) {exit : PollExit}
    (hexit : ∀ r, exit.obtained = some r → Heard aes w r) :
    (c.leave w i t call exit).Shows aes w := by
  refine h.update (fun r hr => ?_) fun e he => ?_
  · rw [leave_lastReading] at hr
    cases hobt : exit.obtained with
    | none => exact h.reading r (by simpa [hobt] using hr)
    | some r' => exact hexit r (by simpa [hobt] using hr)
  · by_cases hcancelled : exit = .read .cancelled
    · subst hcancelled
      have hkept : (c.leave w i t call (.read .cancelled)).listeners = c.listeners := by
        rw [Coordinator.leave, pollOnce_eq]
        cases t.source <;> simp [afterPoll, pollResult]
      exact .inl (hkept ▸ he)
    · exact .inr (leave_listeners w c i t call hcancelled e he)

theorem move (h : c.Shows aes w) (hfeed : c.FeedInv aes w) (hm : Move aes w c c') :
    c'.Shows aes w := by
  cases hm with
  | push =>
    refine h.update h.reading fun e he => .inr ?_
    obtain ⟨e', -, rfl⟩ := List.mem_map.mp he
    rfl
  | add d =>
    refine h.update h.reading fun e he => ?_
    rcases List.mem_append.mp he with hold | hnew
    · exact .inl hold
    · rw [List.mem_singleton.mp hnew]
      exact .inr rfl
  | tick | arrive _ _ _ | begin _ _ _ | resume _ _ _ _ _ | notify _ _ _ _ _ =>
    exact h.same rfl rfl
  | @skip i lock t _ _ _ =>
    have hlocked : ({ c with pollLock := lock } : Coordinator).Shows aes w := h.same rfl rfl
    exact hlocked.leave i t none fun r hr => by cases hr
  | @finish i t call call' o exit ht hphase _ hr hexit =>
    refine h.leave i t _ fun r hobt => ?_
    cases PollExit.eq_of_obtained hobt
    obtain ⟨n, -, -, raw, hraw, hdec⟩ := hfeed.obtained ht hphase hr hexit
    exact ⟨raw, List.mem_of_getElem? hraw, hdec⟩

theorem time (h : c.Shows aes w) (hw : w.Later w') : c.Shows aes w' := by
  have heard : ∀ r, Heard aes w r → Heard aes w' r := by
    rintro r ⟨raw, hraw, hdec⟩
    refine ⟨raw, ?_, hdec⟩
    rcases hw.emitted with hsame | ⟨new, hnew⟩
    · exact hsame ▸ hraw
    · exact hnew ▸ List.mem_append_left _ hraw
  refine ⟨fun r hr => heard r (h.reading r hr), fun e he v hv => ?_, h.available⟩
  obtain ⟨r, hr, hvalue⟩ := h.written e he v hv
  exact ⟨r, heard r hr, hvalue⟩

end Shows

end Coordinator

/-- The sensors, with the least and the greatest value of a plausible record. -/
def sensorBounds : List (GoveeSensorDescription × ℚ × ℚ) :=
  [(voltageSensor, 50, 300), (currentSensor, 0, 20), (powerSensor, 0, 16777215 / 100),
    (energySensor, 0, 16777215 / 10), (powerFactorSensor, 0, 100)]

example : sensorBounds.map Prod.fst = sensors := rfl

theorem PowerRecord.reading_bounds (rec : PowerRecord) :
    ∀ b ∈ sensorBounds, b.2.1 ≤ b.1.valueFn rec.reading ∧ b.1.valueFn rec.reading ≤ b.2.2 := by
  have hvoltage : (5000 : ℚ) ≤ rec.voltage ∧ (rec.voltage : ℚ) ≤ 30000 :=
    mod_cast rec.voltage_mem
  have hcurrent : (rec.current : ℚ) ≤ 2000 := mod_cast rec.current_le
  have hpower : (rec.power : ℚ) ≤ 16777215 := mod_cast Nat.le_of_lt_succ rec.power_lt
  have haccum : (rec.accum : ℚ) ≤ 16777215 := mod_cast Nat.le_of_lt_succ rec.accum_lt
  have hfactor : (rec.powerFactor : ℚ) ≤ 100 := mod_cast rec.powerFactor_le
  have hpos : ∀ n : ℕ, (0 : ℚ) ≤ n := fun n => Nat.cast_nonneg n
  simp only [sensorBounds, List.forall_mem_cons, voltageSensor, currentSensor, powerSensor,
    energySensor, powerFactorSensor, PowerRecord.reading]
  refine ⟨⟨?_, ?_⟩, ⟨?_, ?_⟩, ⟨?_, ?_⟩, ⟨?_, ?_⟩, ⟨hpos _, hfactor⟩, List.forall_mem_nil _⟩
  all_goals linarith [hpos rec.current, hpos rec.power, hpos rec.accum]

namespace Sys

variable {aes : Aes} {address : String} {scanInterval : Option ℤ} {s : Sys}

/-- Whatever Home Assistant has on record for a sensor, by whatever path it was written, is the
sensor's field of a plausible record that the plug has sent, so it is within the sensor's bounds.
A sensor on record as available has a value. -/
theorem shown_was_heard (h : Reachable aes address scanInterval s) :
    ∀ e ∈ s.coord.listeners, (e.written.1 = true → e.written.2.isSome = true) ∧
      ∀ v, e.written.2 = some v →
        (∃ rec : PowerRecord, v = e.description.valueFn rec.reading ∧
          ∃ trailer, rec.encode aes trailer ∈ s.world.emitted) ∧
        ∀ b ∈ sensorBounds, e.description = b.1 → b.2.1 ≤ v ∧ v ≤ b.2.2 := by
  have start : (init address scanInterval).coord.Shows aes (init address scanInterval).world :=
    ⟨fun _ hr => (Option.some_ne_none _ hr.symm).elim, List.forall_mem_nil _, List.forall_mem_nil _⟩
  have both := Sys.invariant (P := fun w c => c.LockInv ∧ c.FeedInv aes w ∧ c.Shows aes w) ?_ ?_ h
    ⟨.new _, .new _ _ _, start⟩
  · obtain ⟨-, -, hshows⟩ := both
    refine fun e he => ⟨hshows.available e he, fun v hv => ?_⟩
    obtain ⟨r, ⟨raw, hraw, hdec⟩, rfl⟩ := hshows.written e he v hv
    obtain ⟨rec, rfl, henc⟩ := decodeNotification_record hdec
    refine ⟨⟨rec, rfl, raw.drop 16, by rwa [henc]⟩, fun b hb heq => ?_⟩
    rw [heq]
    exact rec.reading_bounds b hb
  · exact fun w w' c hc hw => ⟨hc.1, hc.2.1.time hw, hc.2.2.time hw⟩
  · exact fun w c c' hc hm => ⟨hc.1.move hm, hc.2.1.move hc.1 hm, hc.2.2.move hc.2.1 hm⟩

theorem shown_was_heard_polledLately :
    ∃ e ∈ (after polledLately).coord.listeners, e.written = (true, some (426 / 100)) ∧
      ∃ rec : PowerRecord, 426 / 100 = e.description.valueFn rec.reading := by
  have hwritten : (after polledLately).coord.listeners.map Entity.written =
      [(true, some (426 / 100))] := by decide +kernel
  obtain ⟨e, he, hshows⟩ := List.mem_map.mp (hwritten ▸ List.mem_singleton_self _)
  have hheard := shown_was_heard (after_reachable (by decide +kernel)) e he
  obtain ⟨⟨rec, hvalue, -⟩, -⟩ := hheard.2 (426 / 100) (by rw [hshows])
  exact ⟨e, he, hshows, rec, hvalue⟩

end Sys

end GoveeH5086
