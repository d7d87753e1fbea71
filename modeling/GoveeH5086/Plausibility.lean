import GoveeH5086.PacketFormat

/-!
# What the plausibility checks leave open

The decoder checks the voltage, the current and the power factor, each by itself. The power is read
from its bytes and never compared with anything.

1. `decodeNotification_withPower`: the decoder does the same whatever the power bytes are.
2. `power_unchecked`: the checks rule out an impossible power up to half a watt, and no further.
3. `garbage_power_accepted`: a plug that draws no current may be read as drawing 167 kW.
-/

namespace GoveeH5086
open BigEndian

/-- The real power is at most the apparent power, up to the resolution of the fields. -/
def PowerReading.Consistent (r : PowerReading) : Prop :=
  r.powerW ≤ (r.voltageV + 1 / 100) * (r.currentA + 1 / 100)

/-- The notification with other power bytes. -/
def withPower (aes : Aes) (power : ℕ) (raw : Bytes) : Bytes :=
  let p := plaintextOf aes raw
  ((aes goveePsk).symm (Block.ofBytes (slice p 0 12 ++ toBytes 3 power ++ slice p 15 16))).val ++
    raw.drop 16

/-! ## The power bytes are not looked at -/

section
variable {aes : Aes} {raw : Bytes} {power : ℕ}

theorem plaintextOf_withPower : plaintextOf aes (withPower aes power raw) =
    slice (plaintextOf aes raw) 0 12 ++ toBytes 3 power ++ slice (plaintextOf aes raw) 15 16 := by
  have hp := plaintextOf_length aes raw
  have hlen : (slice (plaintextOf aes raw) 0 12 ++ toBytes 3 power ++
      slice (plaintextOf aes raw) 15 16).length = 16 := by
    simp [slice_length, hp]
  unfold withPower
  rw [plaintextOf, Block.ofBytes_block, Equiv.apply_symm_apply, Block.ofBytes_val hlen.ge,
    List.take_of_length_le hlen.le]

/-- Every field but the power stays. -/
theorem readingOf_withPower (aes : Aes) (raw : Bytes) (hpower : power < 2 ^ 24) :
    slice (plaintextOf aes (withPower aes power raw)) 0 2 = slice (plaintextOf aes raw) 0 2 ∧
    readingOf (plaintextOf aes (withPower aes power raw)) =
      { readingOf (plaintextOf aes raw) with powerW := (power : ℚ) / 100 } := by
  have hp := plaintextOf_length aes raw
  rw [plaintextOf_withPower]
  generalize plaintextOf aes raw = p at hp ⊢
  have hfront : (slice p 0 12).length = 12 := slice_length (by omega)
  have hmiddle : (slice p 0 12 ++ toBytes 3 power).length = 15 := by simp [hfront]
  have before : ∀ {i j : ℕ}, j ≤ 12 →
      slice (slice p 0 12 ++ toBytes 3 power ++ slice p 15 16) i j = slice p i j := by
    intro i j hj
    rw [slice_append_left _ (by omega), slice_append_left _ (by omega), slice_slice_zero p hj]
  have hpow : slice (slice p 0 12 ++ toBytes 3 power ++ slice p 15 16) 12 15 = toBytes 3 power := by
    rw [slice_append_left _ (by omega), slice_append_right _ hfront (by omega) (by omega)]
    exact slice_zero_length (toBytes_length 3 power)
  have hpf : slice (slice p 0 12 ++ toBytes 3 power ++ slice p 15 16) 15 16 = slice p 15 16 := by
    rw [slice_append_right _ hmiddle (by omega) (by omega)]
    exact slice_zero_length (slice_length (by omega))
  have hnumber : fromBytes (toBytes 3 power) = power := fromBytes_toBytes (by simpa using hpower)
  refine ⟨before (by omega), ?_⟩
  unfold readingOf
  simp (disch := omega) only [before, hpow, hpf, hnumber]

/-- Whatever the power bytes are, the decoder accepts, or raises the same exception. -/
theorem decodeNotification_withPower (hlen : raw.length = 20) (hpower : power < 2 ^ 24) :
    decodeNotification aes (withPower aes power raw) =
      (decodeNotification aes raw).map fun r => { r with powerW := (power : ℚ) / 100 } := by
  have hlen' : (withPower aes power raw).length = 20 := by
    unfold withPower
    rw [List.length_append, ((aes goveePsk).symm _).property, List.length_drop, hlen]
  obtain ⟨hheader, hreading⟩ := readingOf_withPower aes raw hpower
  rw [decodeNotification_eq aes hlen', decodeNotification_eq aes hlen]
  simp only [hheader, hreading]
  split
  · rfl
  · split
    · rfl
    · split
      · rfl
      · split
        · rfl
        · rfl

end

/-! ## What the checks rule out -/

/-- At the lowest voltage and no current, only half a watt is possible. -/
def noCurrent (power : ℕ) (h : power < 2 ^ 24) : PowerRecord :=
  ⟨0, 0, 5000, 0, power, 0, by decide, by decide, h, by decide, by decide, by decide⟩

theorem noCurrent_consistent_iff {power : ℕ} (h : power < 2 ^ 24) :
    (noCurrent power h).reading.Consistent ↔ power ≤ 50 := by
  have hcast : (power : ℚ) ≤ 50 + 1 / 100 ↔ power ≤ 50 := by
    constructor
    · intro hle
      have hlt : (power : ℚ) < 51 := by linarith
      exact Nat.lt_succ_iff.mp (by exact_mod_cast hlt)
    · intro hle
      have hle' : (power : ℚ) ≤ 50 := by exact_mod_cast hle
      linarith
  rw [← hcast]
  simp only [PowerReading.Consistent, PowerRecord.reading, noCurrent]
  push_cast
  constructor
  · intro hle
    linarith
  · intro hle
    linarith

/-- An accepted reading has at least the apparent power of the lowest voltage and no current. -/
theorem consistent_of_small {r : PowerReading} {power : ℕ} (hv : 50 ≤ r.voltageV)
    (hc : 0 ≤ r.currentA) (hr : r.powerW = (power : ℚ) / 100) (hpower : power ≤ 50) :
    r.Consistent := by
  have hcast : (power : ℚ) ≤ 50 := by exact_mod_cast hpower
  have happarent :
      (50 + 1 / 100) * (1 / 100 : ℚ) ≤ (r.voltageV + 1 / 100) * (r.currentA + 1 / 100) :=
    mul_le_mul (by linarith) (by linarith) (by norm_num) (by linarith)
  unfold PowerReading.Consistent
  rw [hr]
  linarith

/-- Each of voltage, current and power factor is checked, by itself. The power is not: the decoder
does the same whatever the power bytes are, and the other checks rule out an impossible power up to
half a watt only. -/
theorem power_unchecked (aes : Aes) :
    (∀ raw r, decodeNotification aes raw = .ok r → (50 ≤ r.voltageV ∧ r.voltageV ≤ 300) ∧
      (0 ≤ r.currentA ∧ r.currentA ≤ 20) ∧ r.powerFactorPct ≤ 100) ∧
    (∀ raw power, raw.length = 20 → power < 2 ^ 24 →
      decodeNotification aes (withPower aes power raw) =
        (decodeNotification aes raw).map fun r => { r with powerW := (power : ℚ) / 100 }) ∧
    ∀ power : ℕ, power < 2 ^ 24 →
      ((∀ raw r, decodeNotification aes raw = .ok r → r.powerW = (power : ℚ) / 100 →
        r.Consistent) ↔ power ≤ 50) := by
  refine ⟨fun raw r hr => ?_, fun raw power => decodeNotification_withPower, fun power hpower => ?_⟩
  · obtain ⟨-, -, -, hv, hc, hpf⟩ := decodeNotification_ok.mp hr
    exact ⟨hv, hc, hpf⟩
  · constructor
    · intro hall
      have hdec := decodeNotification_encode aes (noCurrent power hpower)
        (show capturedTrailer.length = 4 from rfl)
      exact (noCurrent_consistent_iff hpower).mp (hall _ _ hdec rfl)
    · intro hsmall raw r hr hpow
      obtain ⟨-, -, -, hv, hc, -⟩ := decodeNotification_ok.mp hr
      exact consistent_of_small hv.1 hc.1 hpow hsmall

/-- Garbage in the power bytes: 167772.15 W at 50 V and no current. -/
theorem garbage_power_accepted :
    (∀ aes : Aes, decodeNotification aes
        ((noCurrent 16777215 (by decide)).encode aes capturedTrailer) =
      .ok ⟨0, 0, 50, 0, 16777215 / 100, 0⟩) ∧
    ¬ (⟨0, 0, 50, 0, 16777215 / 100, 0⟩ : PowerReading).Consistent := by
  constructor
  · intro aes
    rw [decodeNotification_encode aes _ rfl]
    norm_num [PowerRecord.reading, noCurrent]
  · norm_num [PowerReading.Consistent]

end GoveeH5086
