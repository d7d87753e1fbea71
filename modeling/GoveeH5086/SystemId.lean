import GoveeH5086.Parser
import GoveeH5086.Library.HexText

/-!
# MACs in System IDs (`decode_system_id_to_mac` of `scripts/identify.py`)

The System ID characteristic holds a MAC as a little-endian number of eight bytes: the five lower
octets, two bytes of filler, and the top octet. The script takes it apart with masks and shifts.

1. `decodeSystemIdToMac_eq`: what the script makes of a byte string of any length.
2. `decodeSystemIdToMac_exact`: the MAC of a System ID is found, whatever the filler is, and two
   strings are taken for one MAC exactly if they agree in six places.
-/

namespace GoveeH5086
open BigEndian

theorem hex_eq (bs : Bytes) : hex bs = String.ofList (HexText.text bs) := by
  induction bs with
  | nil => rfl
  | cons b bs ih =>
    have hcons : hex (b :: bs) =
        String.ofList [Nat.digitChar (b.toNat / 16), Nat.digitChar (b.toNat % 16)] ++ hex bs := by
      simp [hex, String.join_cons]
    rw [hcons, ih, ← String.ofList_append]
    rfl

/-- Different byte strings have different texts. -/
theorem hex_inj {xs ys : Bytes} : hex xs = hex ys ↔ xs = ys := by
  rw [hex_eq, hex_eq, String.ofList_inj, HexText.text_inj]

/-- `bytes.fromhex(s)`. -/
def fromHex (s : String) : Option Bytes := HexText.fromHex s.toList

theorem fromHex_hex (bs : Bytes) : fromHex (hex bs) = some bs := by
  rw [fromHex, hex_eq, String.toList_ofList, HexText.fromHex_text]

namespace Identify

/-- `int.from_bytes(raw, "little")`. -/
def fromBytesLittle (raw : Bytes) : ℕ := raw.foldr (fun b n => b.toNat + 256 * n) 0

/-- `decode_system_id_to_mac`. -/
def decodeSystemIdToMac (raw : Bytes) : String :=
  let val := fromBytesLittle raw
  let bottom := val &&& 0xFFFFFFFFFF
  let top := (val >>> 56) &&& 0xFF
  let macInt := (top <<< 40) ||| bottom
  String.ofList (HexText.padded 12 macInt)

/-- The documented layout: "lower 5 bytes of MAC || 0xFFFE || upper 1 byte (LE)". -/
def systemId (mac filler : Bytes) : Bytes := (mac.drop 1).reverse ++ filler ++ mac.take 1

/-- The octets that the script takes for the MAC. A byte that is missing counts as zero. -/
def macOctets (raw : Bytes) : Bytes := [7, 4, 3, 2, 1, 0].map fun i => raw.getD i 0

/-! ## Bytes of a little-endian number -/

/-- The byte at place `k`. -/
theorem fromBytesLittle_byte (raw : Bytes) (k : ℕ) :
    fromBytesLittle raw / 256 ^ k % 256 = (raw.getD k 0).toNat := by
  induction raw generalizing k with
  | nil => simp [fromBytesLittle]
  | cons b raw ih =>
    have hb : b.toNat < 256 := b.toNat_lt
    have hcons : fromBytesLittle (b :: raw) = b.toNat + 256 * fromBytesLittle raw := rfl
    cases k with
    | zero =>
      rw [hcons, List.getD_cons_zero, pow_zero, Nat.div_one, Nat.add_mul_mod_self_left,
        Nat.mod_eq_of_lt hb]
    | succ k =>
      have hrest : (b.toNat + 256 * fromBytesLittle raw) / 256 = fromBytesLittle raw := by omega
      rw [hcons, List.getD_cons_succ, ← ih k, pow_succ', ← Nat.div_div_eq_div_mul, hrest]

/-- The masks and shifts pick the octets. -/
theorem macInt_eq (raw : Bytes) :
    ((fromBytesLittle raw >>> 56 &&& 0xFF) <<< 40) ||| (fromBytesLittle raw &&& 0xFFFFFFFFFF) =
      fromBytes (macOctets raw) := by
  have hbyte := fromBytesLittle_byte raw
  have hbottom : fromBytesLittle raw &&& 0xFFFFFFFFFF = fromBytesLittle raw % 2 ^ 40 :=
    Nat.and_two_pow_sub_one_eq_mod _ 40
  have htop : fromBytesLittle raw >>> 56 &&& 0xFF = fromBytesLittle raw / 2 ^ 56 % 2 ^ 8 := by
    rw [Nat.shiftRight_eq_div_pow]
    exact Nat.and_two_pow_sub_one_eq_mod _ 8
  have hlt : fromBytesLittle raw % 2 ^ 40 < 2 ^ 40 := Nat.mod_lt _ (by decide)
  have hoctets : fromBytes (macOctets raw) =
      ((((((raw.getD 7 0).toNat * 256 + (raw.getD 4 0).toNat) * 256 + (raw.getD 3 0).toNat) * 256 +
        (raw.getD 2 0).toNat) * 256 + (raw.getD 1 0).toNat) * 256 + (raw.getD 0 0).toNat) := by
    simp only [macOctets, fromBytes, List.map, List.foldl]
    omega
  rw [hbottom, htop, ← Nat.shiftLeft_add_eq_or_of_lt hlt, Nat.shiftLeft_eq, hoctets, ← hbyte 0,
    ← hbyte 1, ← hbyte 2, ← hbyte 3, ← hbyte 4, ← hbyte 7]
  omega

/-- The script writes the octets out, for byte strings of any length. -/
theorem decodeSystemIdToMac_eq (raw : Bytes) :
    decodeSystemIdToMac raw = hex (macOctets raw) := by
  have hne : macOctets raw ≠ [] := by simp [macOctets]
  have hpadded := HexText.padded_fromBytes hne
  rw [hex_eq, ← hpadded, ← macInt_eq]
  rfl

/-- The octets of a System ID are its MAC. -/
theorem macOctets_systemId {mac filler : Bytes} (hmac : mac.length = 6) (hfiller : filler.length = 2) :
    macOctets (systemId mac filler) = mac := by
  match mac, filler, hmac, hfiller with
  | [_, _, _, _, _, _], [_, _], _, _ => rfl

/-- A string of eight bytes is the System ID of its octets. -/
theorem systemId_macOctets {raw : Bytes} (h : raw.length = 8) :
    systemId (macOctets raw) (slice raw 5 7) = raw := by
  match raw, h with
  | [_, _, _, _, _, _, _, _], _ => rfl

theorem macOctets_eq_iff {raw raw' : Bytes} :
    macOctets raw = macOctets raw' ↔ ∀ i ∈ [7, 4, 3, 2, 1, 0], raw.getD i 0 = raw'.getD i 0 :=
  List.map_inj_left

/-- By way of `raw.hex()`, the script finds a MAC in exactly the System IDs of that MAC, among the
strings of eight bytes. Of a string of any length it takes six bytes into account, and no others:
strings that agree there are taken for one MAC, and all others are not. -/
theorem decodeSystemIdToMac_exact {mac : Bytes} (hmac : mac.length = 6) :
    (∀ raw : Bytes, raw.length = 8 →
      ((fromHex (hex raw)).map decodeSystemIdToMac = some (hex mac) ↔
        ∃ filler : Bytes, filler.length = 2 ∧ raw = systemId mac filler)) ∧
    (∀ raw : Bytes, decodeSystemIdToMac raw = hex mac ↔ macOctets raw = mac) ∧
    ∀ raw raw' : Bytes, decodeSystemIdToMac raw = decodeSystemIdToMac raw' ↔
      ∀ i ∈ [7, 4, 3, 2, 1, 0], raw.getD i 0 = raw'.getD i 0 := by
  have hfound : ∀ raw : Bytes, decodeSystemIdToMac raw = hex mac ↔ macOctets raw = mac :=
    fun raw => by rw [decodeSystemIdToMac_eq, hex_inj]
  refine ⟨fun raw hraw => ?_, hfound, fun raw raw' => ?_⟩
  · rw [fromHex_hex, Option.map_some, Option.some_inj, hfound]
    constructor
    · rintro rfl
      exact ⟨slice raw 5 7, slice_length (by omega), (systemId_macOctets hraw).symm⟩
    · rintro ⟨filler, hfiller, rfl⟩
      exact macOctets_systemId hmac hfiller
  · rw [decodeSystemIdToMac_eq, decodeSystemIdToMac_eq, hex_inj, macOctets_eq_iff]

theorem decodeSystemIdToMac_exact_six :
    decodeSystemIdToMac [0xfe, 0xee, 0xdd, 0xcc, 0xbb, 0xfe, 0xff, 0xaa] =
      hex [0xaa, 0xbb, 0xcc, 0xdd, 0xee, 0xfe] :=
  ((@decodeSystemIdToMac_exact [0xaa, 0xbb, 0xcc, 0xdd, 0xee, 0xfe] rfl).2.1 _).mpr rfl

end Identify

end GoveeH5086
