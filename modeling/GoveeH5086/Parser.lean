import Mathlib.Algebra.Order.Field.Rat
import Mathlib.Data.List.TakeDrop
import Mathlib.Logic.Equiv.Defs
import Mathlib.Tactic.Linarith
import Mathlib.Tactic.NormNum
import GoveeH5086.Const

/-!
# The notification decoder (`parser.py`)

A notification is 20 bytes: one AES-128-ECB block and 4 plaintext bytes. `decodeNotification`
follows the source statement by statement, with every exception that one of its expressions could
raise. The cipher is a parameter: for each key, a permutation of the 16-byte blocks.

1. `decryptFirstBlock_eq`: on 16 bytes the ECB decryptor returns exactly one block.
2. `decodeNotification_eq`: on 20 bytes the decoder is a chain of range checks over the plaintext,
   and no index is out of range.
3. `decodeNotification_error`: every rejection carries the value it rejects.
-/

namespace GoveeH5086
open BigEndian

/-! ## Readings and exceptions -/

/-- `PowerReading`. A `float` of the source is read as the rational it stands for. -/
structure PowerReading where
  timeOnS : ℕ
  accumWh : ℚ
  voltageV : ℚ
  currentA : ℚ
  powerW : ℚ
  powerFactorPct : ℕ
deriving DecidableEq, Repr

/-- `InvalidPacket`, by the check that raised it and with the value its message shows. -/
inductive InvalidPacket
  | length (found : ℕ)
  | header (found : Bytes)
  | voltage (found : ℚ)
  | current (found : ℚ)
  | powerFactor (found : ℕ)
deriving DecidableEq, Repr

/-- The exceptions that the decoder's own expressions can raise. -/
inductive DecodeError
  | invalidPacket (err : InvalidPacket)
  | indexError
  | valueError
deriving DecidableEq, Repr

/-- `bs.hex()`. -/
def hex (bs : Bytes) : String :=
  String.join (bs.map fun b =>
    String.ofList [Nat.digitChar (b.toNat / 16), Nat.digitChar (b.toNat % 16)])

/-- `str` of a float that is a whole number of hundredths: one decimal at least, two at most. -/
def hundredthsStr (q : ℚ) : String :=
  let n := (q * 100).num.toNat
  let frac := if n % 10 = 0 then toString (n / 10 % 10)
    else toString (n / 10 % 10) ++ toString (n % 10)
  toString (n / 100) ++ "." ++ frac

/-- The text of the exception. -/
def InvalidPacket.message : InvalidPacket → String
  | .length found => "expected 20-byte packet, got " ++ toString found
  | .header found => "decrypted header " ++ hex found ++ " != ee19; key wrong or packet corrupt"
  | .voltage found => "implausible voltage " ++ hundredthsStr found ++ " V"
  | .current found => "implausible current " ++ hundredthsStr found ++ " A"
  | .powerFactor found => "implausible PF " ++ toString found ++ "%"

/-! ## Local names -/

/-- `bool(local_name) and local_name.startswith(start)`. -/
def nameStartsWith (start : String) (localName : Option String) : Bool :=
  match localName with
  | none => false
  | some name => name ≠ "" && start.toList.isPrefixOf name.toList

/-- `is_h5086_local_name`. -/
def isH5086LocalName : Option String → Bool := nameStartsWith "GVH5086"

/-! ## The cipher -/

/-- One AES block. -/
abbrev Block := {bs : Bytes // bs.length = 16}

/-- AES decryption of one block under each key. -/
abbrev Aes := Bytes → Equiv.Perm Block

/-- The first 16 bytes, zero-padded when there are fewer. -/
def Block.ofBytes (bs : Bytes) : Block :=
  ⟨bs.takeD 16 0, List.takeD_length 16 bs 0⟩

def decryptBlocks (dec : Block → Block) : ℕ → Bytes → Bytes
  | 0, _ => []
  | n + 1, ct => (dec (Block.ofBytes ct)).val ++ decryptBlocks dec n (ct.drop 16)

/-- `decryptor.update`: the whole blocks, decrypted one by one. -/
def ecbUpdate (dec : Block → Block) (ct : Bytes) : Bytes :=
  decryptBlocks dec (ct.length / 16) ct

/-- `decryptor.finalize` after `ct` was fed in: nothing is left, or the length was wrong. -/
def ecbFinalize (ct : Bytes) : Except DecodeError Bytes :=
  if ct.length % 16 = 0 then .ok [] else .error .valueError

/-- `_decrypt_first_block`. -/
def decryptFirstBlock (aes : Aes) (ciphertext : Bytes) : Except DecodeError Bytes := do
  let head := ecbUpdate (aes goveePsk) ciphertext
  let tail ← ecbFinalize ciphertext
  return head ++ tail

/-! ## The decoder -/

/-- `bs[i]`. -/
def index (bs : Bytes) (i : ℕ) : Except DecodeError UInt8 :=
  match bs[i]? with
  | some b => .ok b
  | none => .error .indexError

/-- `decode_notification`. -/
def decodeNotification (aes : Aes) (raw : Bytes) : Except DecodeError PowerReading := do
  if raw.length ≠ 20 then
    throw (.invalidPacket (.length raw.length))
  let plaintext ← decryptFirstBlock aes (slice raw 0 16)
  let wrongHeader ←
    if (← index plaintext 0) ≠ 0xEE then pure true
    else do pure (decide ((← index plaintext 1) ≠ 0x19))
  if wrongHeader then
    throw (.invalidPacket (.header (slice plaintext 0 2)))
  let reading : PowerReading :=
    { timeOnS := fromBytes (slice plaintext 2 5)
      accumWh := (fromBytes (slice plaintext 5 8) : ℚ) / 10
      voltageV := (fromBytes (slice plaintext 8 10) : ℚ) / 100
      currentA := (fromBytes (slice plaintext 10 12) : ℚ) / 100
      powerW := (fromBytes (slice plaintext 12 15) : ℚ) / 100
      powerFactorPct := (← index plaintext 15).toNat }
  if ¬ (50 ≤ reading.voltageV ∧ reading.voltageV ≤ 300) then
    throw (.invalidPacket (.voltage reading.voltageV))
  if ¬ (0 ≤ reading.currentA ∧ reading.currentA ≤ 20) then
    throw (.invalidPacket (.current reading.currentA))
  if ¬ (0 ≤ reading.powerFactorPct ∧ reading.powerFactorPct ≤ 100) then
    throw (.invalidPacket (.powerFactor reading.powerFactorPct))
  return reading

/-- The plaintext of a notification: its first 16 bytes, decrypted. -/
def plaintextOf (aes : Aes) (raw : Bytes) : Bytes :=
  (aes goveePsk (Block.ofBytes raw)).val

/-- The reading a plaintext spells, before any check. -/
def readingOf (plaintext : Bytes) : PowerReading where
  timeOnS := fromBytes (slice plaintext 2 5)
  accumWh := (fromBytes (slice plaintext 5 8) : ℚ) / 10
  voltageV := (fromBytes (slice plaintext 8 10) : ℚ) / 100
  currentA := (fromBytes (slice plaintext 10 12) : ℚ) / 100
  powerW := (fromBytes (slice plaintext 12 15) : ℚ) / 100
  powerFactorPct := fromBytes (slice plaintext 15 16)

/-! ## What the decoder computes -/

theorem plaintextOf_length (aes : Aes) (raw : Bytes) : (plaintextOf aes raw).length = 16 :=
  (aes goveePsk (Block.ofBytes raw)).property

theorem Block.ofBytes_val {bs : Bytes} (h : 16 ≤ bs.length) : (Block.ofBytes bs).val = bs.take 16 :=
  List.takeD_eq_take 0 h

theorem Block.ofBytes_block (b : Block) (rest : Bytes) : Block.ofBytes (b.val ++ rest) = b := by
  apply Subtype.ext
  have hlen := b.property
  rw [Block.ofBytes_val (by rw [List.length_append]; omega), List.take_append_of_le_length hlen.ge,
    List.take_of_length_le hlen.le]

/-- Sixteen bytes are one block: `update` decrypts it and `finalize` has nothing left. -/
theorem decryptFirstBlock_eq (aes : Aes) {ct : Bytes} (h : ct.length = 16) :
    decryptFirstBlock aes ct = .ok (aes goveePsk (Block.ofBytes ct)).val := by
  simp [decryptFirstBlock, ecbUpdate, ecbFinalize, h, decryptBlocks, bind, Except.bind, pure,
    Except.pure]

theorem decryptFirstBlock_slice (aes : Aes) {raw : Bytes} (h : raw.length = 20) :
    decryptFirstBlock aes (slice raw 0 16) = .ok (plaintextOf aes raw) := by
  have hlen : (slice raw 0 16).length = 16 := slice_length (by omega)
  have hblock : Block.ofBytes (slice raw 0 16) = Block.ofBytes raw := by
    apply Subtype.ext
    rw [Block.ofBytes_val hlen.ge, Block.ofBytes_val (by omega)]
    simp [slice]
  rw [decryptFirstBlock_eq aes hlen, hblock]
  rfl

theorem index_eq {bs : Bytes} {i : ℕ} (h : i < bs.length) : index bs i = .ok bs[i] := by
  simp [index, h]

theorem slice_two {p : Bytes} (h : 2 ≤ p.length) : slice p 0 2 = [p[0], p[1]] := by
  rw [← slice_append_slice p (Nat.zero_le 1) (Nat.le_succ 1),
    slice_single (List.getElem?_eq_getElem (by omega)),
    slice_single (List.getElem?_eq_getElem (by omega))]
  rfl

/-- On 20 bytes the decoder is a chain of checks over the plaintext. -/
theorem decodeNotification_eq (aes : Aes) {raw : Bytes} (h : raw.length = 20) :
    decodeNotification aes raw =
      let p := plaintextOf aes raw
      let r := readingOf p
      if slice p 0 2 ≠ [0xEE, 0x19] then .error (.invalidPacket (.header (slice p 0 2)))
      else if ¬ (50 ≤ r.voltageV ∧ r.voltageV ≤ 300) then
        .error (.invalidPacket (.voltage r.voltageV))
      else if ¬ (0 ≤ r.currentA ∧ r.currentA ≤ 20) then
        .error (.invalidPacket (.current r.currentA))
      else if ¬ (0 ≤ r.powerFactorPct ∧ r.powerFactorPct ≤ 100) then
        .error (.invalidPacket (.powerFactor r.powerFactorPct))
      else .ok r := by
  have hp := plaintextOf_length aes raw
  unfold decodeNotification
  rw [decryptFirstBlock_slice aes h]
  generalize plaintextOf aes raw = p at hp ⊢
  have hpf : fromBytes (slice p 15 16) = p[15].toNat := by
    rw [slice_single (List.getElem?_eq_getElem (by omega))]
    simp [fromBytes]
  simp only [h, ne_eq, not_true_eq_false, if_false, bind, Except.bind, pure, Except.pure, throw,
    throwThe, MonadExceptOf.throw, index_eq (show 0 < p.length by omega),
    index_eq (show 1 < p.length by omega), index_eq (show 15 < p.length by omega), readingOf, hpf,
    slice_two (show 2 ≤ p.length by omega)]
  by_cases h0 : p[0] = 0xEE
  · by_cases h1 : p[1] = 0x19
    · simp [h0, h1]
    · simp [h0, h1]
  · simp [h0]

theorem decodeNotification_length (aes : Aes) {raw : Bytes} (h : raw.length ≠ 20) :
    decodeNotification aes raw = .error (.invalidPacket (.length raw.length)) := by
  simp [decodeNotification, h, bind, Except.bind, throw, throwThe, MonadExceptOf.throw]

/-- What a rejection says about the notification it rejects. -/
def InvalidPacket.Describes (aes : Aes) (raw : Bytes) : InvalidPacket → Prop
  | .length found => found = raw.length ∧ found ≠ 20
  | .header found => found = slice (plaintextOf aes raw) 0 2 ∧ found ≠ [0xEE, 0x19]
  | .voltage found =>
      found = (readingOf (plaintextOf aes raw)).voltageV ∧ ¬ (50 ≤ found ∧ found ≤ 300)
  | .current found =>
      found = (readingOf (plaintextOf aes raw)).currentA ∧ ¬ (0 ≤ found ∧ found ≤ 20)
  | .powerFactor found =>
      found = (readingOf (plaintextOf aes raw)).powerFactorPct ∧ ¬ (0 ≤ found ∧ found ≤ 100)

/-- The decoder raises nothing but `InvalidPacket`, and each one carries the value of the check
that failed. -/
theorem decodeNotification_error {aes : Aes} {raw : Bytes} {err : DecodeError}
    (h : decodeNotification aes raw = .error err) :
    ∃ e : InvalidPacket, err = .invalidPacket e ∧ e.Describes aes raw := by
  by_cases hlen : raw.length = 20
  · rw [decodeNotification_eq aes hlen] at h
    dsimp only at h
    split at h
    · next hc => cases h; exact ⟨_, rfl, rfl, hc⟩
    · split at h
      · next hc => cases h; exact ⟨_, rfl, rfl, hc⟩
      · split at h
        · next hc => cases h; exact ⟨_, rfl, rfl, hc⟩
        · split at h
          · next hc => cases h; exact ⟨_, rfl, rfl, hc⟩
          · cases h
  · rw [decodeNotification_length aes hlen] at h
    cases h
    exact ⟨_, rfl, rfl, hlen⟩

/-- The decoder returns a reading exactly when every check passes, and then it is the reading that
the plaintext spells. -/
theorem decodeNotification_ok {aes : Aes} {raw : Bytes} {r : PowerReading} :
    decodeNotification aes raw = .ok r ↔
      raw.length = 20 ∧ slice (plaintextOf aes raw) 0 2 = [0xEE, 0x19] ∧
      readingOf (plaintextOf aes raw) = r ∧ (50 ≤ r.voltageV ∧ r.voltageV ≤ 300) ∧
      (0 ≤ r.currentA ∧ r.currentA ≤ 20) ∧ r.powerFactorPct ≤ 100 := by
  by_cases hlen : raw.length = 20
  · rw [decodeNotification_eq aes hlen]
    dsimp only
    constructor
    · intro h
      split at h
      · cases h
      · next h0 =>
        split at h
        · cases h
        · next hv =>
          split at h
          · cases h
          · next hc =>
            split at h
            · cases h
            · next hpf =>
              cases h
              exact ⟨hlen, not_not.mp h0, rfl, not_not.mp hv, not_not.mp hc, (not_not.mp hpf).2⟩
    · rintro ⟨_, h0, rfl, hv, hc, hpf⟩
      rw [if_neg (not_not.mpr h0), if_neg (not_not.mpr hv), if_neg (not_not.mpr hc),
        if_neg (not_not.mpr ⟨Nat.zero_le _, hpf⟩)]
  · rw [decodeNotification_length aes hlen]
    constructor
    · intro h
      cases h
    · rintro ⟨h, -⟩
      exact absurd h hlen

end GoveeH5086
