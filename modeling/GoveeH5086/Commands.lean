import GoveeH5086.Parser
import GoveeH5086.Library.Checksum

/-!
# Command packets (`build_pkt` and `pkt` of `scripts/probe_power.py`, `listen.py`, `capture.py`)

A command is two bytes, 17 bytes of zero-padded payload and the exclusive or of these 19. The three
scripts build it by the same expression; `probe_power.py` alone checks the length of the command.

1. `xorCs_eq`: the loop over integers is a sum that cancels.
2. `packet_length`: what the scripts without the check send for other lengths.
3. `ProbePower.buildPkt_exact`: the packets are the strings of 20 bytes that cancel, each of one
   command and one padded payload, and which errors the checksum misses.
-/

namespace GoveeH5086
open BigEndian Checksum

/-- `xor_cs`. -/
def xorCs (data : Bytes) : ℕ := data.foldl (fun cs b => cs ^^^ b.toNat) 0 &&& 0xFF

/-- `cmd + payload.ljust(17, b"\x00")`, and its checksum as one byte. -/
def packet (cmd payload : Bytes) : Bytes :=
  let body := cmd ++ payload.rightpad 17 0
  body ++ [UInt8.ofNat (xorCs body)]

/-- `pkt`. -/
def Capture.pkt (cmd payload : Bytes) : Bytes := packet cmd payload

/-- `build_pkt`. -/
def Listen.buildPkt (cmd payload : Bytes) : Bytes := packet cmd payload

namespace ProbePower

inductive AssertionError
  | commandLength (found : ℕ)
deriving DecidableEq, Repr

/-- `build_pkt`. -/
def buildPkt (cmd payload : Bytes) : Except AssertionError Bytes :=
  if cmd.length ≠ 2 then .error (.commandLength cmd.length) else .ok (packet cmd payload)

end ProbePower

/-! ## The checksum -/

theorem xor_selfInverse : SelfInverse (fun a b : UInt8 => a ^^^ b) 0 where
  assoc := UInt8.xor_assoc
  comm := UInt8.xor_comm
  unit _ := UInt8.zero_xor
  self _ := UInt8.xor_self

/-- The exclusive or of bytes, as a byte. -/
def parity (data : Bytes) : UInt8 := total (fun a b => a ^^^ b) 0 data

/-- The mask changes nothing, and the sum is a byte: `bytes([xor_cs(body)])` raises nothing. -/
theorem xorCs_eq (data : Bytes) : xorCs data = (parity data).toNat := by
  have hfold : data.foldl (fun cs b => cs ^^^ b.toNat) (UInt8.toNat 0) = (parity data).toNat :=
    List.foldl_hom UInt8.toNat fun a b => (UInt8.toNat_xor a b).symm
  rw [UInt8.toNat_zero] at hfold
  rw [xorCs, hfold, Nat.and_two_pow_sub_one_eq_mod _ 8]
  exact Nat.mod_eq_of_lt (parity data).toNat_lt

theorem xorCs_eq_zero {data : Bytes} : xorCs data = 0 ↔ parity data = 0 := by
  rw [xorCs_eq, ← UInt8.toNat_inj]
  rfl

theorem packet_eq (cmd payload : Bytes) :
    packet cmd payload = cmd ++ payload.rightpad 17 0 ++ [parity (cmd ++ payload.rightpad 17 0)] := by
  rw [packet, xorCs_eq, UInt8.ofNat_toNat]

theorem packet_length (cmd payload : Bytes) :
    (packet cmd payload).length = cmd.length + max 17 payload.length + 1 := by
  rw [packet_eq, List.length_append, List.length_append, List.length_rightpad]
  rfl

/-- Every packet cancels, whatever the lengths are. -/
theorem xorCs_packet (cmd payload : Bytes) : xorCs (packet cmd payload) = 0 := by
  rw [xorCs_eq_zero, packet_eq]
  exact (total_concat_iff xor_selfInverse).mpr rfl

/-! ## Reading a packet back -/

namespace ProbePower

theorem buildPkt_ok {cmd payload raw : Bytes} :
    buildPkt cmd payload = .ok raw ↔ cmd.length = 2 ∧ packet cmd payload = raw := by
  unfold buildPkt
  split
  · next h => simp [h]
  · next h => simp [not_not.mp h]

/-- Command and padded payload are where the receiver looks for them. -/
theorem slices_buildPkt {cmd payload raw : Bytes} (h : buildPkt cmd payload = .ok raw)
    (hfits : payload.length ≤ 17) : slice raw 0 2 = cmd ∧ slice raw 2 19 = payload.rightpad 17 0 := by
  obtain ⟨hcmd, rfl⟩ := buildPkt_ok.mp h
  have hpadded : (payload.rightpad 17 0).length = 17 := by
    rw [List.length_rightpad, Nat.max_eq_left hfits]
  rw [packet_eq]
  constructor
  · rw [List.append_assoc, slice_append_left _ hcmd.ge, slice_zero_length hcmd]
  · rw [slice_append_left _ (by rw [List.length_append, hcmd, hpadded]),
      slice_append_right _ hcmd (le_refl 2) (by decide), slice_zero_length hpadded]

/-- A string of 20 bytes that cancels is the packet of its first 19 bytes. -/
theorem packet_of_parity {raw : Bytes} (hlen : raw.length = 20) (hvalid : parity raw = 0) :
    packet (slice raw 0 2) (slice raw 2 19) = raw := by
  have hbody : slice raw 0 2 ++ slice raw 2 19 = raw.take 19 := by
    rw [slice_append_slice raw (Nat.zero_le 2) (by decide : 2 ≤ 19)]
    rfl
  have hpadded : (slice raw 2 19).rightpad 17 0 = slice raw 2 19 := by
    have hslice : (slice raw 2 19).length = 17 := slice_length (by omega)
    simp [List.rightpad, hslice]
  have hlast : raw = raw.take 19 ++ [raw[19]] := by
    conv_lhs => rw [← List.take_append_drop 19 raw]
    rw [List.drop_eq_getElem_cons (by omega), List.drop_of_length_le (by omega)]
  rw [packet_eq, hpadded, hbody]
  rw [hlast] at hvalid
  rw [show parity (raw.take 19) = raw[19] from
    ((total_concat_iff xor_selfInverse).mp hvalid).symm, ← hlast]

/-- The packets are exactly the strings of 20 bytes whose exclusive or is zero, and each is the
packet of one command and one padded payload. Another value in a single byte is always noticed;
an error over several bytes is missed exactly if its own exclusive or is zero. -/
theorem buildPkt_exact (raw : Bytes) :
    ((∃ cmd payload, payload.length ≤ 17 ∧ buildPkt cmd payload = .ok raw) ↔
      raw.length = 20 ∧ xorCs raw = 0) ∧
    (∀ cmd payload, payload.length ≤ 17 → buildPkt cmd payload = .ok raw →
      slice raw 0 2 = cmd ∧ slice raw 2 19 = payload.rightpad 17 0 ∧
      Listen.buildPkt cmd payload = raw ∧ Capture.pkt cmd payload = raw) ∧
    (xorCs raw = 0 →
      (∀ i a b, raw[i]? = some a → (xorCs (raw.set i b) = 0 ↔ b = a)) ∧
      ∀ es : Bytes, es.length = raw.length →
        (xorCs (List.zipWith (fun a b => a ^^^ b) raw es) = 0 ↔ xorCs es = 0)) := by
  refine ⟨⟨?_, ?_⟩, fun cmd payload hfits h => ?_, fun hvalid => ⟨fun i a b ha => ?_, fun es hes => ?_⟩⟩
  · rintro ⟨cmd, payload, hfits, h⟩
    obtain ⟨hcmd, rfl⟩ := buildPkt_ok.mp h
    exact ⟨by rw [packet_length, hcmd, Nat.max_eq_left hfits], xorCs_packet cmd payload⟩
  · rintro ⟨hlen, hvalid⟩
    refine ⟨slice raw 0 2, slice raw 2 19, (slice_length (by omega)).le, buildPkt_ok.mpr
      ⟨slice_length (by omega), packet_of_parity hlen (xorCs_eq_zero.mp hvalid)⟩⟩
  · obtain ⟨hfirst, hsecond⟩ := slices_buildPkt h hfits
    have hsame := (buildPkt_ok.mp h).2
    exact ⟨hfirst, hsecond, hsame, hsame⟩
  · rw [xorCs_eq_zero] at hvalid ⊢
    exact total_set_iff xor_selfInverse ha hvalid
  · rw [xorCs_eq_zero] at hvalid ⊢
    rw [xorCs_eq_zero]
    exact total_corrupted_iff xor_selfInverse hes.symm hvalid

end ProbePower

end GoveeH5086
