import GoveeH5086.PacketFormat

/-!
# The decoders of the scripts (`scripts/govee_power.py`, `scripts/decode.py`)

Both decode the same record as `parser.py`, without its plausibility checks. They differ in what
they check about lengths, and in how they reject.

1. `GoveePower.decodeNotification_eq`: on 20 bytes the client's decoder checks the header only.
2. `Decode.decodeEe19_main`: the bytes after the block change nothing but `tail_bytes`.
3. `decoders_agree`: what the parser accepts, the scripts accept with the same fields, and the
   parser rejects more only for an implausible field.
-/

namespace GoveeH5086
open BigEndian

/-! ## `govee_power.py` -/

namespace GoveePower

/-- `PSK`. -/
def psk : Bytes :=
  [0x4d, 0x61, 0x6b, 0x69, 0x6e, 0x67, 0x4c, 0x69, 0x66, 0x65, 0x53, 0x6d, 0x61, 0x72, 0x74, 0x65]

/-- `InvalidPacket`, by the check that raised it and with the value its message shows. -/
inductive InvalidPacket
  | ciphertext (found : ℕ)
  | length (found : ℕ)
  | header (found : Bytes)
deriving DecidableEq, Repr

/-- The text of the exception. -/
def InvalidPacket.message : InvalidPacket → String
  | .ciphertext found => "expected 16 bytes of ciphertext, got " ++ toString found
  | .length found => "expected 20-byte packet, got " ++ toString found
  | .header found => "decrypted header " ++ hex found ++ " != ee19"

/-- The exceptions that the decoder's own expressions can raise. -/
inductive DecodeError
  | invalidPacket (err : InvalidPacket)
  | indexError
  | valueError
deriving DecidableEq, Repr

/-- `_decrypt_block`. -/
def decryptBlock (aes : Aes) (ciphertext : Bytes) : Except DecodeError Bytes := do
  if ciphertext.length ≠ 16 then
    throw (.invalidPacket (.ciphertext ciphertext.length))
  let head := ecbUpdate (aes psk) ciphertext
  let tail ← (ecbFinalize ciphertext).mapError fun _ => .valueError
  return head ++ tail

/-- `bs[i]`. -/
def index (bs : Bytes) (i : ℕ) : Except DecodeError UInt8 :=
  (GoveeH5086.index bs i).mapError fun _ => .indexError

/-- `decode_notification`. Its `PowerReading` has the fields of the parser's. -/
def decodeNotification (aes : Aes) (raw : Bytes) : Except DecodeError PowerReading := do
  if raw.length ≠ 20 then
    throw (.invalidPacket (.length raw.length))
  let pt ← decryptBlock aes (slice raw 0 16)
  let wrongHeader ←
    if (← index pt 0) ≠ 0xEE then pure true
    else do pure (decide ((← index pt 1) ≠ 0x19))
  if wrongHeader then
    throw (.invalidPacket (.header (slice pt 0 2)))
  return {
    timeOnS := fromBytes (slice pt 2 5)
    accumWh := (fromBytes (slice pt 5 8) : ℚ) / 10
    voltageV := (fromBytes (slice pt 8 10) : ℚ) / 100
    currentA := (fromBytes (slice pt 10 12) : ℚ) / 100
    powerW := (fromBytes (slice pt 12 15) : ℚ) / 100
    powerFactorPct := (← index pt 15).toNat }

end GoveePower

/-! ## `decode.py` -/

namespace Decode

/-- `KEY`. -/
def key : Bytes :=
  [0x4d, 0x61, 0x6b, 0x69, 0x6e, 0x67, 0x4c, 0x69, 0x66, 0x65, 0x53, 0x6d, 0x61, 0x72, 0x74, 0x65]

inductive DecodeError
  | assertionError (message : String)
  | indexError
deriving DecidableEq, Repr

/-- The dictionary that `decode_ee19` returns. -/
structure Ee19 extends PowerReading where
  tailBytes : String
deriving DecidableEq, Repr

/-- `decrypt_block`. -/
def decryptBlock (aes : Aes) (ct16 : Bytes) : Bytes := ecbUpdate (aes key) ct16

/-- `bs[i]`. -/
def index (bs : Bytes) (i : ℕ) : Except DecodeError UInt8 :=
  (GoveeH5086.index bs i).mapError fun _ => .indexError

/-- `decode_ee19`. -/
def decodeEe19 (pt : Bytes) : Except DecodeError Ee19 := do
  let header ←
    if (← index pt 0) = 0xEE then do pure (decide ((← index pt 1) = 0x19))
    else pure false
  if ¬ header then
    throw (.assertionError ("unexpected header " ++ hex (slice pt 0 2)))
  return {
    timeOnS := fromBytes (slice pt 2 5)
    accumWh := (fromBytes (slice pt 5 8) : ℚ) / 10
    voltageV := (fromBytes (slice pt 8 10) : ℚ) / 100
    currentA := (fromBytes (slice pt 10 12) : ℚ) / 100
    powerW := (fromBytes (slice pt 12 15) : ℚ) / 100
    powerFactorPct := (← index pt 15).toNat
    tailBytes := hex (pt.drop 16) }

end Decode

/-! ## What the scripts compute -/

/-- The last byte of a record, as a field of one byte. -/
theorem fromBytes_slice_single {bs : Bytes} {i : ℕ} (h : i < bs.length) :
    fromBytes (slice bs i (i + 1)) = bs[i].toNat := by
  rw [slice_single (List.getElem?_eq_getElem h)]
  simp [fromBytes]

/-- A reading is spelled by the first 16 bytes. -/
theorem readingOf_append {p : Bytes} (rest : Bytes) (h : 16 ≤ p.length) :
    readingOf (p ++ rest) = readingOf p := by
  have field : ∀ {i j : ℕ}, j ≤ 16 → slice (p ++ rest) i j = slice p i j :=
    fun hj => slice_append_left rest (hj.trans h)
  unfold readingOf
  simp (disch := omega) only [field]

namespace GoveePower

theorem decryptBlock_slice (aes : Aes) {raw : Bytes} (h : raw.length = 20) :
    decryptBlock aes (slice raw 0 16) = .ok (plaintextOf aes raw) := by
  have hlen : (slice raw 0 16).length = 16 := slice_length (by omega)
  have hok := decryptFirstBlock_slice aes h
  have hpsk : psk = goveePsk := rfl
  simp only [decryptFirstBlock, ecbFinalize, hlen] at hok
  simp only [decryptBlock, ecbFinalize, hlen, hpsk]
  simpa [bind, Except.bind, pure, Except.pure, Except.mapError] using hok

theorem index_eq {bs : Bytes} {i : ℕ} (h : i < bs.length) : index bs i = .ok bs[i] := by
  rw [index, GoveeH5086.index_eq h]
  rfl

/-- On 20 bytes the client's decoder checks the header and nothing else. -/
theorem decodeNotification_eq (aes : Aes) {raw : Bytes} (h : raw.length = 20) :
    decodeNotification aes raw =
      if slice (plaintextOf aes raw) 0 2 = [0xEE, 0x19] then .ok (readingOf (plaintextOf aes raw))
      else .error (.invalidPacket (.header (slice (plaintextOf aes raw) 0 2))) := by
  have hp := plaintextOf_length aes raw
  unfold decodeNotification
  rw [decryptBlock_slice aes h]
  generalize plaintextOf aes raw = p at hp ⊢
  have hpf := fromBytes_slice_single (show 15 < p.length by omega)
  simp only [h, ne_eq, not_true_eq_false, if_false, bind, Except.bind, pure, Except.pure, throw,
    throwThe, MonadExceptOf.throw, index_eq (show 0 < p.length by omega),
    index_eq (show 1 < p.length by omega), index_eq (show 15 < p.length by omega), readingOf, hpf,
    slice_two (show 2 ≤ p.length by omega)]
  by_cases h0 : p[0] = 0xEE
  · by_cases h1 : p[1] = 0x19
    · simp [h0, h1]
    · simp [h0, h1]
  · simp [h0]

theorem decodeNotification_length (aes : Aes) {raw : Bytes} (h : raw.length ≠ 20) :
    decodeNotification aes raw = .error (.invalidPacket (.length raw.length)) := by
  simp [decodeNotification, h, bind, Except.bind, throw, throwThe, MonadExceptOf.throw]

/-- The client's decoder accepts 20 bytes with the header, whatever the fields are. -/
theorem decodeNotification_ok {aes : Aes} {raw : Bytes} {r : PowerReading} :
    decodeNotification aes raw = .ok r ↔
      raw.length = 20 ∧ slice (plaintextOf aes raw) 0 2 = [0xEE, 0x19] ∧
      readingOf (plaintextOf aes raw) = r := by
  by_cases hlen : raw.length = 20
  · rw [decodeNotification_eq aes hlen]
    split
    · next hheader => simp [hlen, hheader]
    · next hheader => simp [hheader]
  · simp [decodeNotification_length aes hlen, hlen]

theorem decodeNotification_error {aes : Aes} {raw : Bytes} {err : DecodeError}
    (h : decodeNotification aes raw = .error err) : ∃ e, err = .invalidPacket e := by
  by_cases hlen : raw.length = 20
  · rw [decodeNotification_eq aes hlen] at h
    split at h
    · cases h
    · cases h
      exact ⟨_, rfl⟩
  · rw [decodeNotification_length aes hlen] at h
    cases h
    exact ⟨_, rfl⟩

end GoveePower

namespace Decode

theorem index_eq {bs : Bytes} {i : ℕ} (h : i < bs.length) : index bs i = .ok bs[i] := by
  rw [index, GoveeH5086.index_eq h]
  rfl

theorem decodeEe19_eq {pt : Bytes} (h : 16 ≤ pt.length) :
    decodeEe19 pt =
      if slice pt 0 2 = [0xEE, 0x19] then .ok ⟨readingOf pt, hex (pt.drop 16)⟩
      else .error (.assertionError ("unexpected header " ++ hex (slice pt 0 2))) := by
  have hpf := fromBytes_slice_single (show 15 < pt.length by omega)
  unfold decodeEe19
  simp only [bind, Except.bind, pure, Except.pure, throw, throwThe, MonadExceptOf.throw,
    index_eq (show 0 < pt.length by omega), index_eq (show 1 < pt.length by omega),
    index_eq (show 15 < pt.length by omega), readingOf, hpf,
    slice_two (show 2 ≤ pt.length by omega)]
  by_cases h0 : pt[0] = 0xEE
  · by_cases h1 : pt[1] = 0x19
    · simp [h0, h1]
    · simp [h0, h1]
  · simp [h0]

/-- The way `main` calls `decode_ee19`: the four bytes after the block end up in `tail_bytes`. -/
theorem decodeEe19_main (aes : Aes) {raw : Bytes} (h : raw.length = 20) :
    decodeEe19 (decryptBlock aes (slice raw 0 16) ++ raw.drop 16) =
      if slice (plaintextOf aes raw) 0 2 = [0xEE, 0x19] then
        .ok ⟨readingOf (plaintextOf aes raw), hex (raw.drop 16)⟩
      else .error (.assertionError
        ("unexpected header " ++ hex (slice (plaintextOf aes raw) 0 2))) := by
  have hp := plaintextOf_length aes raw
  have hlen : (slice raw 0 16).length = 16 := slice_length (by omega)
  have hblock : decryptBlock aes (slice raw 0 16) = plaintextOf aes raw := by
    have hok := decryptFirstBlock_slice aes h
    have hkey : key = goveePsk := rfl
    simpa [decryptFirstBlock, ecbFinalize, hlen, decryptBlock, hkey, bind, Except.bind, pure,
      Except.pure] using hok
  rw [hblock, decodeEe19_eq (by rw [List.length_append]; omega), slice_append_left _ (by omega),
    readingOf_append _ hp.ge, List.drop_left' hp]

end Decode

/-! ## The three decoders -/

/-- What the parser accepts, the client accepts with the same fields; it accepts more only with an
implausible field; what it rejects, both reject with their `InvalidPacket`. On 20 bytes the decoder
of the captures does what the client's does. -/
theorem decoders_agree (aes : Aes) (raw : Bytes) :
    (∀ r, decodeNotification aes raw = .ok r → GoveePower.decodeNotification aes raw = .ok r) ∧
    (∀ r e, GoveePower.decodeNotification aes raw = .ok r → decodeNotification aes raw = .error e →
      ¬ (50 ≤ r.voltageV ∧ r.voltageV ≤ 300) ∨ ¬ (0 ≤ r.currentA ∧ r.currentA ≤ 20) ∨
        ¬ (0 ≤ r.powerFactorPct ∧ r.powerFactorPct ≤ 100)) ∧
    (∀ e, GoveePower.decodeNotification aes raw = .error e →
      (∃ err, e = .invalidPacket err) ∧
      ∃ err, decodeNotification aes raw = .error (.invalidPacket err)) ∧
    (raw.length = 20 → ∀ r, GoveePower.decodeNotification aes raw = .ok r ↔
      ∃ d, Decode.decodeEe19 (Decode.decryptBlock aes (slice raw 0 16) ++ raw.drop 16) = .ok d ∧
        d.toPowerReading = r) := by
  have hrefines : ∀ r, decodeNotification aes raw = .ok r →
      GoveePower.decodeNotification aes raw = .ok r := by
    intro r hr
    obtain ⟨hlen, hheader, hreading, -⟩ := decodeNotification_ok.mp hr
    exact GoveePower.decodeNotification_ok.mpr ⟨hlen, hheader, hreading⟩
  refine ⟨hrefines, fun r e hr he => ?_, fun e he => ⟨GoveePower.decodeNotification_error he, ?_⟩,
    fun hlen r => ?_⟩
  · -- with all three fields in range the parser would have accepted
    obtain ⟨hlen, hheader, hreading⟩ := GoveePower.decodeNotification_ok.mp hr
    by_contra hnot
    obtain ⟨hv, hrest⟩ := not_or.mp hnot
    obtain ⟨hc, hpf⟩ := not_or.mp hrest
    have hok := decodeNotification_ok.mpr
      ⟨hlen, hheader, hreading, not_not.mp hv, not_not.mp hc, (not_not.mp hpf).2⟩
    rw [he] at hok
    cases hok
  · cases hdec : decodeNotification aes raw with
    | ok r =>
      rw [hrefines r hdec] at he
      cases he
    | error err =>
      obtain ⟨i, rfl, -⟩ := decodeNotification_error hdec
      exact ⟨i, rfl⟩
  · rw [GoveePower.decodeNotification_eq aes hlen, Decode.decodeEe19_main aes hlen]
    split
    · simp
    · simp

/-- The captured notification, by the three decoders. -/
theorem decoders_agree_captured :
    GoveePower.decodeNotification capturedAes capturedPacket = .ok capturedRecord.reading ∧
    ∃ d, Decode.decodeEe19 (Decode.decryptBlock capturedAes (slice capturedPacket 0 16) ++
        capturedPacket.drop 16) = .ok d ∧ d.toPowerReading = capturedRecord.reading := by
  obtain ⟨hrefines, -, -, hmain⟩ := decoders_agree capturedAes capturedPacket
  have hclient := hrefines _ capturedPacket_decodes
  exact ⟨hclient, (hmain (by decide) _).mp hclient⟩

end GoveeH5086
