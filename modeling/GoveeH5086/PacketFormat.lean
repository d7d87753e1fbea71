import Mathlib.Logic.Equiv.Basic
import GoveeH5086.Parser

/-!
# The notification format

The documented record is `ee19` and six big-endian fields in 16 bytes. `PowerRecord` is such a
record within the plausible ranges: its bounds are fields, so an implausible record cannot be
built. The decoder is compared with it.

1. `decodeNotification_encode`: every record, encrypted and followed by any trailer, decodes to
   its reading.
2. `decodeNotification_record`: every accepted notification is the encoding of a record.
3. `decodeNotification_exact`: the accepted byte strings, and the two round trips.
-/

namespace GoveeH5086
open BigEndian

/-! ## Records -/

/-- The documented layout of the plaintext. -/
def layout (timeOn accum voltage current power powerFactor : ℕ) : Bytes :=
  [0xEE, 0x19] ++ toBytes 3 timeOn ++ toBytes 3 accum ++ toBytes 2 voltage ++ toBytes 2 current ++
    toBytes 3 power ++ toBytes 1 powerFactor

/-- A plausible record, in the units of the wire. -/
structure PowerRecord where
  timeOn : ℕ
  accum : ℕ
  voltage : ℕ
  current : ℕ
  power : ℕ
  powerFactor : ℕ
  timeOn_lt : timeOn < 2 ^ 24
  accum_lt : accum < 2 ^ 24
  power_lt : power < 2 ^ 24
  voltage_mem : 5000 ≤ voltage ∧ voltage ≤ 30000
  current_le : current ≤ 2000
  powerFactor_le : powerFactor ≤ 100

namespace PowerRecord

def plaintext (rec : PowerRecord) : Block :=
  ⟨layout rec.timeOn rec.accum rec.voltage rec.current rec.power rec.powerFactor,
    by simp [layout]⟩

def reading (rec : PowerRecord) : PowerReading where
  timeOnS := rec.timeOn
  accumWh := (rec.accum : ℚ) / 10
  voltageV := (rec.voltage : ℚ) / 100
  currentA := (rec.current : ℚ) / 100
  powerW := (rec.power : ℚ) / 100
  powerFactorPct := rec.powerFactor

end PowerRecord

/-- `E(ee19 ++ fields) ++ trailer`. -/
def encodeFields (aes : Aes) (timeOn accum voltage current power powerFactor : ℕ)
    (trailer : Bytes) : Bytes :=
  ((aes goveePsk).symm
    (Block.ofBytes (layout timeOn accum voltage current power powerFactor))).val ++ trailer

/-- The notification of a reading: its fields in the units of the wire, encrypted. -/
def encodeNotification (aes : Aes) (r : PowerReading) (trailer : Bytes) : Bytes :=
  encodeFields aes r.timeOnS (r.accumWh * 10).num.toNat (r.voltageV * 100).num.toNat
    (r.currentA * 100).num.toNat (r.powerW * 100).num.toNat r.powerFactorPct trailer

/-- The byte strings in the documented format with plausible fields. -/
structure Accepted (aes : Aes) (raw : Bytes) : Prop where
  length : raw.length = 20
  header : slice (plaintextOf aes raw) 0 2 = [0xEE, 0x19]
  voltage : 5000 ≤ fromBytes (slice (plaintextOf aes raw) 8 10) ∧
    fromBytes (slice (plaintextOf aes raw) 8 10) ≤ 30000
  current : fromBytes (slice (plaintextOf aes raw) 10 12) ≤ 2000
  powerFactor : fromBytes (slice (plaintextOf aes raw) 15 16) ≤ 100

/-! ## Fields of a layout -/

section
variable (timeOn accum voltage current power powerFactor : ℕ)

/-- Each field of the layout stands at the offsets the decoder reads. -/
theorem layout_slices :
    let p := layout timeOn accum voltage current power powerFactor
    slice p 0 2 = [0xEE, 0x19] ∧ slice p 2 5 = toBytes 3 timeOn ∧ slice p 5 8 = toBytes 3 accum ∧
    slice p 8 10 = toBytes 2 voltage ∧ slice p 10 12 = toBytes 2 current ∧
    slice p 12 15 = toBytes 3 power ∧ slice p 15 16 = toBytes 1 powerFactor :=
  ⟨rfl, rfl, rfl, rfl, rfl, rfl, rfl⟩

end

/-- A plaintext with the header is the layout of the numbers at the decoder's offsets. -/
theorem layout_of_header {p : Bytes} (hlen : p.length = 16) (hhdr : slice p 0 2 = [0xEE, 0x19]) :
    layout (fromBytes (slice p 2 5)) (fromBytes (slice p 5 8)) (fromBytes (slice p 8 10))
      (fromBytes (slice p 10 12)) (fromBytes (slice p 12 15)) (fromBytes (slice p 15 16)) = p := by
  have field : ∀ {i j : ℕ}, j ≤ 16 → toBytes (j - i) (fromBytes (slice p i j)) = slice p i j :=
    fun hj => toBytes_fromBytes_of_length (slice_length (by omega))
  have h3 := field (i := 2) (j := 5) (by omega)
  have h4 := field (i := 5) (j := 8) (by omega)
  have h5 := field (i := 8) (j := 10) (by omega)
  have h6 := field (i := 10) (j := 12) (by omega)
  have h7 := field (i := 12) (j := 15) (by omega)
  have h8 := field (i := 15) (j := 16) (by omega)
  unfold layout
  rw [h3, h4, h5, h6, h7, h8, ← hhdr, slice_append_slice p (by omega) (by omega),
    slice_append_slice p (by omega) (by omega), slice_append_slice p (by omega) (by omega),
    slice_append_slice p (by omega) (by omega), slice_append_slice p (by omega) (by omega),
    slice_append_slice p (by omega) (by omega), slice_zero_length hlen]

theorem fromBytes_slice_lt {p : Bytes} {i j : ℕ} (h : j ≤ p.length) :
    fromBytes (slice p i j) < 256 ^ (j - i) := by
  have hlt := fromBytes_lt (slice p i j)
  rwa [slice_length h] at hlt

namespace PowerRecord

theorem readingOf_plaintext (rec : PowerRecord) : readingOf rec.plaintext.val = rec.reading := by
  obtain ⟨-, h2, h3, h4, h5, h6, h7⟩ := layout_slices rec.timeOn rec.accum rec.voltage rec.current
    rec.power rec.powerFactor
  have hv := rec.voltage_mem
  have hc := rec.current_le
  have hpf := rec.powerFactor_le
  simp only [readingOf, plaintext, reading, h2, h3, h4, h5, h6, h7]
  rw [fromBytes_toBytes (by simpa using rec.timeOn_lt),
    fromBytes_toBytes (by simpa using rec.accum_lt),
    fromBytes_toBytes (by omega), fromBytes_toBytes (by omega),
    fromBytes_toBytes (by simpa using rec.power_lt), fromBytes_toBytes (by omega)]

/-- The record of an accepted notification. -/
def ofAccepted {aes : Aes} {raw : Bytes} (h : Accepted aes raw) : PowerRecord where
  timeOn := fromBytes (slice (plaintextOf aes raw) 2 5)
  accum := fromBytes (slice (plaintextOf aes raw) 5 8)
  voltage := fromBytes (slice (plaintextOf aes raw) 8 10)
  current := fromBytes (slice (plaintextOf aes raw) 10 12)
  power := fromBytes (slice (plaintextOf aes raw) 12 15)
  powerFactor := fromBytes (slice (plaintextOf aes raw) 15 16)
  timeOn_lt := fromBytes_slice_lt (by rw [plaintextOf_length]; decide)
  accum_lt := fromBytes_slice_lt (by rw [plaintextOf_length]; decide)
  power_lt := fromBytes_slice_lt (by rw [plaintextOf_length]; decide)
  voltage_mem := h.voltage
  current_le := h.current
  powerFactor_le := h.powerFactor

theorem ofAccepted_plaintext {aes : Aes} {raw : Bytes} (h : Accepted aes raw) :
    (ofAccepted h).plaintext = aes goveePsk (Block.ofBytes raw) :=
  Subtype.ext (layout_of_header (plaintextOf_length aes raw) h.header)

/-- The encrypted record, followed by the trailer. -/
def encode (aes : Aes) (rec : PowerRecord) (trailer : Bytes) : Bytes :=
  ((aes goveePsk).symm rec.plaintext).val ++ trailer

theorem encode_eq (aes : Aes) (rec : PowerRecord) (trailer : Bytes) :
    rec.encode aes trailer = encodeFields aes rec.timeOn rec.accum rec.voltage rec.current rec.power
      rec.powerFactor trailer := by
  have hblock : Block.ofBytes rec.plaintext.val = rec.plaintext := by
    simpa using Block.ofBytes_block rec.plaintext []
  unfold encode encodeFields
  rw [← hblock]
  rfl

/-- The units of the wire are recovered from a reading. -/
theorem encodeNotification_reading (aes : Aes) (rec : PowerRecord) (trailer : Bytes) :
    encodeNotification aes rec.reading trailer = rec.encode aes trailer := by
  have ten : ∀ n : ℕ, ((n : ℚ) / 10 * 10).num.toNat = n := by
    intro n
    rw [div_mul_cancel₀ (n : ℚ) (by norm_num)]
    simp
  have hundred : ∀ n : ℕ, ((n : ℚ) / 100 * 100).num.toNat = n := by
    intro n
    rw [div_mul_cancel₀ (n : ℚ) (by norm_num)]
    simp
  rw [encode_eq]
  simp only [encodeNotification, reading, ten, hundred]

theorem plaintextOf_encode (aes : Aes) (rec : PowerRecord) (trailer : Bytes) :
    plaintextOf aes (rec.encode aes trailer) = rec.plaintext.val := by
  unfold plaintextOf encode
  rw [Block.ofBytes_block, Equiv.apply_symm_apply]

end PowerRecord

/-! ## The two round trips -/

theorem hundredths_le {n m : ℕ} : (n : ℚ) / 100 ≤ m ↔ n ≤ 100 * m := by
  rw [div_le_iff₀ (by norm_num), mul_comm]
  exact_mod_cast Iff.rfl

theorem le_hundredths {n m : ℕ} : (m : ℚ) ≤ (n : ℚ) / 100 ↔ 100 * m ≤ n := by
  rw [le_div_iff₀ (by norm_num), mul_comm]
  exact_mod_cast Iff.rfl

/-- Encoding, then decoding. -/
theorem decodeNotification_encode (aes : Aes) (rec : PowerRecord) {trailer : Bytes}
    (h : trailer.length = 4) :
    decodeNotification aes (rec.encode aes trailer) = .ok rec.reading := by
  have hv := rec.voltage_mem
  have hlen : (rec.encode aes trailer).length = 20 := by
    unfold PowerRecord.encode
    rw [List.length_append, ((aes goveePsk).symm rec.plaintext).property, h]
  rw [decodeNotification_ok, PowerRecord.plaintextOf_encode, PowerRecord.readingOf_plaintext]
  refine ⟨hlen, (layout_slices _ _ _ _ _ _).1, rfl, ⟨?_, ?_⟩, ⟨?_, ?_⟩, rec.powerFactor_le⟩
  · exact (le_hundredths (m := 50)).mpr hv.1
  · exact (hundredths_le (m := 300)).mpr hv.2
  · exact (le_hundredths (m := 0)).mpr (Nat.zero_le _)
  · exact (hundredths_le (m := 20)).mpr rec.current_le

/-- What the decoder accepts, in the units of the wire. -/
theorem decodeNotification_accepted {aes : Aes} {raw : Bytes} :
    (∃ r, decodeNotification aes raw = .ok r) ↔ Accepted aes raw := by
  constructor
  · rintro ⟨r, hr⟩
    obtain ⟨hlen, hhdr, rfl, hv, hc, hpf⟩ := decodeNotification_ok.mp hr
    exact ⟨hlen, hhdr, ⟨(le_hundredths (m := 50)).mp hv.1, (hundredths_le (m := 300)).mp hv.2⟩,
      (hundredths_le (m := 20)).mp hc.2, hpf⟩
  · intro h
    refine ⟨_, decodeNotification_ok.mpr
      ⟨h.length, h.header, rfl, ⟨?_, ?_⟩, ⟨?_, ?_⟩, h.powerFactor⟩⟩
    · exact (le_hundredths (m := 50)).mpr h.voltage.1
    · exact (hundredths_le (m := 300)).mpr h.voltage.2
    · exact (le_hundredths (m := 0)).mpr (Nat.zero_le _)
    · exact (hundredths_le (m := 20)).mpr h.current

/-- Every accepted notification is the encoding of a record, and its reading is the record's. -/
theorem decodeNotification_record {aes : Aes} {raw : Bytes} {r : PowerReading}
    (h : decodeNotification aes raw = .ok r) :
    ∃ rec : PowerRecord, rec.reading = r ∧ rec.encode aes (raw.drop 16) = raw := by
  have hacc := decodeNotification_accepted.mp ⟨r, h⟩
  obtain ⟨hlen, -, rfl, -⟩ := decodeNotification_ok.mp h
  refine ⟨.ofAccepted hacc, ?_, ?_⟩
  · rw [← PowerRecord.readingOf_plaintext, PowerRecord.ofAccepted_plaintext]
    rfl
  · unfold PowerRecord.encode
    rw [PowerRecord.ofAccepted_plaintext, Equiv.symm_apply_apply, Block.ofBytes_val (by omega),
      List.take_append_drop]

/-- The decoder is exact. It raises nothing but `InvalidPacket`; it accepts the documented format
with plausible fields and nothing else; encoded fields decode to themselves, and an accepted
notification is the encoding of what it decodes to. -/
theorem decodeNotification_exact (aes : Aes) :
    (∀ raw, (∃ r, decodeNotification aes raw = .ok r) ∨
      ∃ e, decodeNotification aes raw = .error (.invalidPacket e)) ∧
    (∀ raw, (∃ r, decodeNotification aes raw = .ok r) ↔ Accepted aes raw) ∧
    (∀ timeOn accum voltage current power powerFactor : ℕ, ∀ trailer : Bytes,
      timeOn < 2 ^ 24 → accum < 2 ^ 24 → power < 2 ^ 24 → 5000 ≤ voltage → voltage ≤ 30000 →
      current ≤ 2000 → powerFactor ≤ 100 → trailer.length = 4 →
      decodeNotification aes
          (encodeFields aes timeOn accum voltage current power powerFactor trailer) =
        .ok ⟨timeOn, (accum : ℚ) / 10, (voltage : ℚ) / 100, (current : ℚ) / 100,
          (power : ℚ) / 100, powerFactor⟩) ∧
    (∀ raw r, decodeNotification aes raw = .ok r →
      encodeNotification aes r (raw.drop 16) = raw) := by
  refine ⟨?_, fun raw => decodeNotification_accepted, ?_, ?_⟩
  · intro raw
    cases h : decodeNotification aes raw with
    | ok r => exact .inl ⟨r, rfl⟩
    | error err =>
      obtain ⟨e, rfl, -⟩ := decodeNotification_error h
      exact .inr ⟨e, rfl⟩
  · intro timeOn accum voltage current power powerFactor trailer ht ha hp hv hv' hc hpf htr
    have h := decodeNotification_encode aes ⟨timeOn, accum, voltage, current, power, powerFactor,
      ht, ha, hp, ⟨hv, hv'⟩, hc, hpf⟩ htr
    rwa [PowerRecord.encode_eq] at h
  · intro raw r h
    obtain ⟨rec, rfl, hraw⟩ := decodeNotification_record h
    rw [PowerRecord.encodeNotification_reading, hraw]

/-! ## A captured notification -/

/-- Plug A481, idle. -/
def capturedRecord : PowerRecord :=
  ⟨2459, 29, 11991, 5, 426, 68, by decide, by decide, by decide, by decide, by decide, by decide⟩

/-- The first 16 bytes the plug sent. -/
def capturedBlock : Block :=
  ⟨[0x2e, 0x93, 0xd2, 0x6c, 0xdd, 0xe9, 0xce, 0xee, 0xe2, 0xb8, 0x8c, 0x2a, 0xd9, 0xe8, 0xd0, 0x33],
    rfl⟩

def capturedTrailer : Bytes := [0x68, 0xee, 0x40, 0x34]

def capturedPacket : Bytes := capturedBlock.val ++ capturedTrailer

/-- A cipher that decrypts the captured block as AES under the plug's key does. -/
def capturedAes : Aes := fun _ => Equiv.swap capturedBlock capturedRecord.plaintext

theorem capturedRecord_encode :
    capturedRecord.encode capturedAes capturedTrailer = capturedPacket := by
  simp [PowerRecord.encode, capturedAes, capturedPacket]

theorem capturedPacket_decodes :
    decodeNotification capturedAes capturedPacket = .ok capturedRecord.reading := by
  rw [← capturedRecord_encode]
  exact decodeNotification_encode capturedAes capturedRecord rfl

/-- The captured notification decodes and re-encodes. -/
theorem decodeNotification_exact_captured :
    decodeNotification capturedAes
        (encodeFields capturedAes 2459 29 11991 5 426 68 capturedTrailer) =
      .ok ⟨2459, 29 / 10, 11991 / 100, 5 / 100, 426 / 100, 68⟩ ∧
    encodeNotification capturedAes capturedRecord.reading (capturedPacket.drop 16) =
      capturedPacket := by
  obtain ⟨-, -, hencode, hdecode⟩ := decodeNotification_exact capturedAes
  refine ⟨?_, hdecode capturedPacket _ capturedPacket_decodes⟩
  have h := hencode 2459 29 11991 5 426 68 capturedTrailer (by decide) (by decide) (by decide)
    (by decide) (by decide) (by decide) (by decide) rfl
  simpa using h

end GoveeH5086
