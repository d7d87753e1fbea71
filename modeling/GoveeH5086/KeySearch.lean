import GoveeH5086.ScriptDecoders
import GoveeH5086.SystemId
import GoveeH5086.Library.Failing
import GoveeH5086.Library.LastMatch

/-!
# Captured notifications (`scripts/try_decrypt.py`, `main` of `scripts/decode.py`)

`try_decrypt.py` derives eight keys from a MAC, decrypts up to three captured packets of each plug
under each, and marks what looks like plaintext. `decode.py` decodes all captured packets under the
pre-shared key. The captures are a parameter; in the source they are a constant of either script.

What is printed of an exception is left out.

1. `TryDecrypt.keys_length`: all keys have the size of a block exactly for a MAC of six bytes.
2. `TryDecrypt.main_exact`: which captures raise, and what is shown for all others.
3. `decoded_marked`: where `decode.py` runs through, `try_decrypt.py` marks every plug under the
   pre-shared key.
-/

namespace GoveeH5086
open BigEndian

/-- `CAPTURES`: the packets of each plug, in hexadecimal. -/
abbrev Captures := List (String × List String)

/-! ## `try_decrypt.py` -/

namespace TryDecrypt

/-- `b"\x00" * n`. -/
def zeros (n : ℕ) : Bytes := List.replicate n 0

/-- `b"MakingLifeSmarte"`. -/
def psk : Bytes :=
  [0x4d, 0x61, 0x6b, 0x69, 0x6e, 0x67, 0x4c, 0x69, 0x66, 0x65, 0x53, 0x6d, 0x61, 0x72, 0x74, 0x65]

/-- `make_keys`, from the bytes of the MAC. -/
def keys (mac : Bytes) : List (String × Bytes) :=
  let rev := mac.reverse
  [("mac forward + zero pad", mac ++ zeros (16 - mac.length)),
    ("mac reversed + zero pad", rev ++ zeros (16 - rev.length)),
    ("mac reversed twice (12B) + zp", (rev ++ mac) ++ zeros (16 - 12)),
    ("mac reversed * (16/6) repeat", (rev ++ rev ++ rev).take 16),
    ("mac forward * (16/6) repeat", (mac ++ mac ++ mac).take 16),
    ("zero pad + mac", zeros (16 - mac.length) ++ mac),
    ("zero pad + reversed mac", zeros (16 - mac.length) ++ rev),
    ("MakingLifeSmarte (pre-shared)", psk)]

/-- `make_keys`. -/
def makeKeys (macHex : String) : Except DecodeError (List (String × Bytes)) :=
  match fromHex macHex with
  | some mac => .ok (keys mac)
  | none => .error .valueError

/-- The sizes that `Cipher(algorithms.AES(key), modes.ECB())` takes. -/
def validKey (key : Bytes) : Bool := key.length = 16 || key.length = 24 || key.length = 32

/-- `try_decrypt`. -/
def tryDecrypt (aes : Aes) (packetHex : String) (key : Bytes) : Except DecodeError Bytes :=
  match fromHex packetHex with
  | none => .error .valueError
  | some raw => do
    let ct := raw.take 16
    if !validKey key then throw .valueError
    let head := ecbUpdate (aes key) ct
    let tail ← ecbFinalize ct
    return head ++ tail

/-- `"; ".join(reasons) or "no signal"`. -/
def joined (reasons : List String) : String :=
  let text := String.intercalate "; " reasons
  if text = "" then "no signal" else text

/-- `is_plausible`. -/
def isPlausible (pt : Bytes) : Except DecodeError (Bool × String) := do
  let first ← index pt 0
  let startsKnown := first ∈ ([0xAA, 0xEE, 0x33, 0xBB] : Bytes)
  let zeros := pt.count 0
  let reasons :=
    (if startsKnown then ["starts with known byte 0x" ++ hex [first]] else []) ++
      (if zeros ≥ 4 then [toString zeros ++ " zero bytes"] else [])
  return (startsKnown || zeros ≥ 6, joined reasons)

/-- `best`. -/
structure Best where
  packet : String
  pt : Bytes
  reason : String
  marker : String
deriving DecidableEq, Repr

/-- The loop over the packets of a plug. -/
def search (aes : Aes) (key : Bytes) (packets : List String) : Except DecodeError (Option Best) :=
  (packets.take 3).foldlM (fun best packet =>
    match tryDecrypt aes packet key with
    | .error _ => .ok best
    | .ok pt => do
      let (likely, reason) ← isPlausible pt
      let marker := if likely then "  <-- maybe?" else ""
      if best.isNone || likely then return some ⟨packet, pt, reason, marker⟩
      else return best) none

/-- What `main` prints under a key: the best packet of each plug. -/
structure Row where
  label : String
  key : Bytes
  lines : List (String × Option Best)
deriving DecidableEq, Repr

/-- `main`, with what it prints. -/
def main (aes : Aes) (macHex : String) (captures : Captures) : Except DecodeError (List Row) := do
  let keys ← makeKeys macHex
  keys.mapM fun k => do
    let lines ← captures.mapM fun c => do
      let best ← search aes k.2 c.2
      return (c.1, best)
    return ⟨k.1, k.2, lines⟩

/-! ## The keys -/

/-- For a MAC of six bytes every key has the size of a block, and for any other the third has not. -/
theorem keys_length {mac : Bytes} : (∀ k ∈ keys mac, k.2.length = 16) ↔ mac.length = 6 := by
  constructor
  · intro h
    have htwice := h ("mac reversed twice (12B) + zp", (mac.reverse ++ mac) ++ zeros (16 - 12))
      (by simp [keys])
    simp only [List.length_append, List.length_reverse, zeros, List.length_replicate] at htwice
    omega
  · intro hlen
    simp [keys, zeros, hlen, psk]

theorem psk_mem_keys (mac : Bytes) : ("MakingLifeSmarte (pre-shared)", psk) ∈ keys mac := by
  simp [keys]

/-! ## One packet -/

/-- The packet has no bytes, so that `pt[0]` raises `IndexError`. -/
def blank (packet : String) : Bool := fromHex packet = some []

/-- What is known of a packet under a key, where nothing is raised. -/
def candidate (aes : Aes) (key : Bytes) (packet : String) : Option Best :=
  match tryDecrypt aes packet key with
  | .error _ => none
  | .ok pt =>
    match isPlausible pt with
    | .error _ => none
    | .ok (likely, reason) =>
      some ⟨packet, pt, reason, if likely then "  <-- maybe?" else ""⟩

def Best.marked (b : Best) : Bool := b.marker ≠ ""

/-- What the search shows of the packets of a plug: the last marked one of three, or else the first
one that was decrypted. -/
def best (aes : Aes) (key : Bytes) (packets : List String) : Option Best :=
  LastMatch.best Best.marked ((packets.take 3).filterMap (candidate aes key))

/-- The first block of a packet that has one. -/
theorem ecbUpdate_take (dec : Block → Block) {raw : Bytes} (h : 16 ≤ raw.length) :
    ecbUpdate dec (raw.take 16) = (dec (Block.ofBytes raw)).val := by
  have htake : (raw.take 16).length = 16 := List.length_take_of_le h
  have hblock : Block.ofBytes (raw.take 16) = Block.ofBytes raw := by
    apply Subtype.ext
    rw [Block.ofBytes_val htake.ge, Block.ofBytes_val h, List.take_take]
    rfl
  simp [ecbUpdate, decryptBlocks, Nat.min_eq_left h, hblock]

/-- A packet of at least one block is decrypted, and the bytes after the block are ignored. -/
theorem tryDecrypt_block {aes : Aes} {packet : String} {raw key : Bytes}
    (hraw : fromHex packet = some raw) (hlen : 16 ≤ raw.length) (hkey : validKey key = true) :
    tryDecrypt aes packet key = .ok (aes key (Block.ofBytes raw)).val := by
  simp [tryDecrypt, hraw, hkey, ecbUpdate_take _ hlen, ecbFinalize, Nat.min_eq_left hlen, bind,
    Except.bind, pure, Except.pure]

/-- A packet is decrypted to nothing exactly if it is blank, and else to something or not at all. -/
theorem tryDecrypt_cases (aes : Aes) (key : Bytes) (packet : String) :
    ((validKey key && blank packet) = true ∧ tryDecrypt aes packet key = .ok []) ∨
    (validKey key && blank packet) = false ∧ ((∃ err, tryDecrypt aes packet key = .error err) ∨
      ∃ b rest, tryDecrypt aes packet key = .ok (b :: rest)) := by
  cases hraw : fromHex packet with
  | none => exact .inr ⟨by simp [blank, hraw], .inl ⟨.valueError, by simp [tryDecrypt, hraw]⟩⟩
  | some raw =>
    cases hkey : validKey key with
    | false =>
      refine .inr ⟨rfl, .inl ⟨.valueError, ?_⟩⟩
      simp [tryDecrypt, hraw, hkey, bind, Except.bind, throw, throwThe, MonadExceptOf.throw]
    | true =>
      rcases Nat.lt_or_ge raw.length 16 with hlt | hge
      · cases raw with
        | nil =>
          refine .inl ⟨by simp [blank, hraw], ?_⟩
          simp [tryDecrypt, hraw, hkey, ecbUpdate, ecbFinalize, decryptBlocks, bind, Except.bind,
            pure, Except.pure]
        | cons b rest =>
          have hlen : ((b :: rest).take 16).length % 16 ≠ 0 := by
            rw [List.take_of_length_le hlt.le, Nat.mod_eq_of_lt hlt]
            exact Nat.succ_ne_zero _
          refine .inr ⟨by simp [blank, hraw], .inl ⟨.valueError, ?_⟩⟩
          simp only [tryDecrypt, hraw, hkey, ecbFinalize, if_neg hlen]
          rfl
      · have hne : raw ≠ [] := fun hnil => by simp [hnil] at hge
        refine .inr ⟨by simp [blank, hraw, hne], .inr ?_⟩
        rw [tryDecrypt_block hraw hge hkey]
        have hpos : (aes key (Block.ofBytes raw)).val ≠ [] := fun hnil => by
          have hsize := (aes key (Block.ofBytes raw)).property
          rw [hnil] at hsize
          cases hsize
        obtain ⟨b, rest, hcons⟩ := List.exists_cons_of_ne_nil hpos
        exact ⟨b, rest, by rw [hcons]⟩

/-! ## Whole searches -/

/-- What one turn of the search keeps. -/
def keep (aes : Aes) (key : Bytes) (best : Option Best) (packet : String) : Option Best :=
  match candidate aes key packet with
  | some b => if best.isNone || b.marked then some b else best
  | none => best

/-- The search raises exactly for a blank packet under a key of a size that is taken. -/
theorem search_eq (aes : Aes) (key : Bytes) (packets : List String) :
    search aes key packets =
      if (packets.take 3).any fun packet => validKey key && blank packet then .error .indexError
      else .ok (best aes key packets) := by
  have hbest : (packets.take 3).foldl (keep aes key) none = best aes key packets := by
    rw [best, LastMatch.best, List.foldl_filterMap]
    congr
    funext best packet
    unfold keep
    cases candidate aes key packet <;> rfl
  rw [← hbest, search]
  refine Failing.foldlM_eq (fun best packet => ?_) _ _
  rcases tryDecrypt_cases aes key packet with ⟨hblank, hpt⟩ |
    ⟨hblank, ⟨err, hpt⟩ | ⟨b, rest, hpt⟩⟩
  · rw [hblank, hpt]
    rfl
  · simp only [hblank, hpt, keep, candidate]
    rfl
  · obtain ⟨⟨likely, reason⟩, hverdict⟩ : ∃ v, isPlausible (b :: rest) = .ok v := ⟨_, rfl⟩
    simp only [hblank, hpt, keep, candidate, hverdict]
    cases likely with
    | true => simp [bind, Except.bind, pure, Except.pure, Best.marked]
    | false => cases best <;> simp [bind, Except.bind, pure, Except.pure, Best.marked]

/-- The rows that `main` prints if nothing is raised. -/
def rows (aes : Aes) (mac : Bytes) (captures : Captures) : List Row :=
  (keys mac).map fun k => ⟨k.1, k.2, captures.map fun c => (c.1, best aes k.2 c.2)⟩

/-- The script raises for a MAC that is no hexadecimal text, and for a blank packet among the first
three of some plug. In all other cases it shows its rows. -/
theorem main_eq (aes : Aes) (macHex : String) (captures : Captures) :
    main aes macHex captures = match fromHex macHex with
      | none => .error .valueError
      | some mac =>
        if captures.any fun c => (c.2.take 3).any blank then .error .indexError
        else .ok (rows aes mac captures) := by
  cases hmac : fromHex macHex with
  | none => simp [main, makeKeys, hmac, bind, Except.bind]
  | some mac =>
    have hlines : ∀ k : String × Bytes, captures.mapM (fun c => do
        let best ← search aes k.2 c.2
        return (c.1, best)) =
        if captures.any fun c => (c.2.take 3).any fun packet => validKey k.2 && blank packet then
          .error .indexError
        else .ok (captures.map fun c => (c.1, best aes k.2 c.2)) := fun k => by
      refine Failing.mapM_eq (fun c => ?_) captures
      rw [search_eq]
      split <;> rfl
    have hrows : main aes macHex captures = (keys mac).mapM fun k => do
        let lines ← captures.mapM fun c => do
          let best ← search aes k.2 c.2
          return (c.1, best)
        return ⟨k.1, k.2, lines⟩ := by
      simp [main, makeKeys, hmac, bind, Except.bind]
    -- under the pre-shared key, at the latest, a blank packet raises
    have hany : (keys mac).any (fun k => captures.any fun c => (c.2.take 3).any fun packet =>
        validKey k.2 && blank packet) = captures.any fun c => (c.2.take 3).any blank := by
      rw [Bool.eq_iff_iff]
      simp only [List.any_eq_true, Bool.and_eq_true]
      constructor
      · rintro ⟨k, -, c, hc, packet, hpacket, -, hblank⟩
        exact ⟨c, hc, packet, hpacket, hblank⟩
      · rintro ⟨c, hc, packet, hpacket, hblank⟩
        exact ⟨_, psk_mem_keys mac, c, hc, packet, hpacket, rfl, hblank⟩
    rw [hrows, ← hany]
    refine Failing.mapM_eq (fun k => ?_) (keys mac)
    rw [hlines]
    split <;> rfl

theorem candidate_packet {aes : Aes} {key : Bytes} {packet : String} {b : Best}
    (h : candidate aes key packet = some b) : b.packet = packet := by
  unfold candidate at h
  split at h
  · cases h
  · split at h
    · cases h
    · cases h
      rfl

/-- What is shown of a plug under a key. If there is a mark, it is on the last packet, of the first
three, that can be decrypted and looks like plaintext. If there is none, no packet does, and the
first one that can be decrypted is shown. -/
def Shown (aes : Aes) (key : Bytes) (packets : List String) : Option Best → Prop
  | none => ∀ packet ∈ packets.take 3, candidate aes key packet = none
  | some b =>
    if b.marked then ∃ ps qs, packets.take 3 = ps ++ b.packet :: qs ∧
      candidate aes key b.packet = some b ∧
      ∀ packet ∈ qs, ∀ b', candidate aes key packet = some b' → b'.marked = false
    else (∀ packet ∈ packets.take 3, ∀ b', candidate aes key packet = some b' → b'.marked = false) ∧
      ∃ ps qs, packets.take 3 = ps ++ b.packet :: qs ∧ candidate aes key b.packet = some b ∧
        ∀ packet ∈ ps, candidate aes key packet = none

theorem best_shown (aes : Aes) (key : Bytes) (packets : List String) :
    Shown aes key packets (best aes key packets) := by
  rw [best, LastMatch.best_eq]
  cases hlast : LastMatch.last Best.marked ((packets.take 3).filterMap (candidate aes key)) with
  | some b =>
    obtain ⟨ps, packet, qs, hsplit, hb, hmarked, hafter⟩ := LastMatch.last_filterMap.mp hlast
    obtain rfl := candidate_packet hb
    simp only [Option.some_or, Shown, hmarked, if_true]
    exact ⟨ps, qs, hsplit, hb, hafter⟩
  | none =>
    have hunmarked : ∀ packet ∈ packets.take 3, ∀ b, candidate aes key packet = some b →
        b.marked = false := fun packet hpacket b hb =>
      LastMatch.last_eq_none.mp hlast b (List.mem_filterMap.mpr ⟨packet, hpacket, hb⟩)
    rw [Option.none_or]
    cases hshown : (packets.take 3).filterMap (candidate aes key) with
    | nil => exact List.filterMap_eq_nil_iff.mp hshown
    | cons b bs =>
      obtain ⟨ps, packet, qs, hsplit, hskipped, hb, -⟩ := List.filterMap_eq_cons_iff.mp hshown
      obtain rfl := candidate_packet hb
      have hmem : b.packet ∈ packets.take 3 := hsplit ▸ List.mem_append_right _ List.mem_cons_self
      simp only [List.head?_cons, Shown, hunmarked _ hmem b hb, Bool.false_eq_true, if_false]
      exact ⟨hunmarked, ps, qs, hsplit, hb, hskipped⟩

/-- `try_decrypt.py` raises exactly for a MAC that is no hexadecimal text, or for a packet without
bytes among the first three of some plug. Else it shows, under each of the keys of the MAC, one
packet of each plug. No key is of another size than a block exactly if the MAC has six bytes. -/
theorem main_exact (aes : Aes) (macHex : String) (captures : Captures) :
    (main aes macHex captures = .error .valueError ↔ fromHex macHex = none) ∧
    (main aes macHex captures = .error .indexError ↔ fromHex macHex ≠ none ∧
      ∃ c ∈ captures, ∃ packet ∈ c.2.take 3, fromHex packet = some []) ∧
    ∀ mac, fromHex macHex = some mac →
      (∀ c ∈ captures, ∀ packet ∈ c.2.take 3, fromHex packet ≠ some []) →
      ∃ shown, main aes macHex captures = .ok shown ∧
        (shown.map fun row => (row.label, row.key)) = keys mac ∧
        ((∀ row ∈ shown, row.key.length = 16) ↔ mac.length = 6) ∧
        ∀ row ∈ shown, List.Forall₂
          (fun c line => line.1 = c.1 ∧ Shown aes row.key c.2 line.2) captures row.lines := by
  have hblank : ((captures.any fun c => (c.2.take 3).any blank) = true) ↔
      ∃ c ∈ captures, ∃ packet ∈ c.2.take 3, fromHex packet = some [] := by
    simp [blank]
  rw [main_eq]
  cases hmac : fromHex macHex with
  | none => simp
  | some mac =>
    dsimp only
    rw [← hblank]
    refine ⟨by split <;> simp, ?_, fun mac' hmac' hbytes => ?_⟩
    · split
      · next hraises => simp [hraises]
      · next hreturns => simp [hreturns]
    obtain rfl := Option.some.inj hmac'
    have hreturns : ¬ (captures.any fun c => (c.2.take 3).any blank) = true := fun hraises => by
      obtain ⟨c, hc, packet, hpacket, hempty⟩ := hblank.mp hraises
      exact hbytes c hc packet hpacket hempty
    refine ⟨rows aes mac captures, if_neg hreturns, ?_, ?_, fun row hrow => ?_⟩
    · rw [rows, List.map_map]
      exact List.map_id _
    · exact List.forall_mem_map.trans keys_length
    · obtain ⟨k, -, rfl⟩ := List.mem_map.mp hrow
      refine List.forall₂_map_right_iff.mpr (List.forall₂_same.mpr fun c _ => ⟨rfl, ?_⟩)
      exact best_shown aes k.2 c.2

end TryDecrypt

/-! ## `decode.py` -/

namespace Decode

/-- The exceptions of `main`: a packet that is no hexadecimal text, or one that is not decoded. -/
inductive MainError
  | valueError
  | decode (err : DecodeError)
deriving DecidableEq, Repr

/-- The loop body of `main`. -/
def decodePacket (aes : Aes) (hexPkt : String) : Except MainError Ee19 :=
  match fromHex hexPkt with
  | none => .error .valueError
  | some raw =>
    let pt := decryptBlock aes (raw.take 16) ++ raw.drop 16
    (decodeEe19 pt).mapError .decode

/-- `main`, with what it prints. -/
def main (aes : Aes) (captures : Captures) : Except MainError (List (String × List Ee19)) :=
  captures.mapM fun c => do
    let readings ← c.2.mapM (decodePacket aes)
    return (c.1, readings)

/-- What is known of a packet that is decoded: it has a block, and its plaintext the header. -/
structure Decoded (aes : Aes) (packet : String) (raw : Bytes) (d : Ee19) : Prop where
  bytes : fromHex packet = some raw
  block : 16 ≤ raw.length
  header : slice (plaintextOf aes raw) 0 2 = [0xEE, 0x19]
  reading : decodeEe19 (plaintextOf aes raw ++ raw.drop 16) = .ok d

theorem decodePacket_ok {aes : Aes} {hexPkt : String} {d : Ee19}
    (h : decodePacket aes hexPkt = .ok d) : ∃ raw, Decoded aes hexPkt raw d := by
  unfold decodePacket at h
  cases hraw : fromHex hexPkt with
  | none => simp [hraw] at h
  | some raw =>
    simp only [hraw] at h
    refine ⟨raw, ?_⟩
    rcases Nat.lt_or_ge raw.length 16 with hlt | hge
    · -- nothing is left to decode
      have hblocks : (raw.take 16).length / 16 = 0 := by
        rw [List.take_of_length_le hlt.le]
        exact Nat.div_eq_of_lt hlt
      have hpt : decryptBlock aes (raw.take 16) ++ raw.drop 16 = [] := by
        rw [decryptBlock, ecbUpdate, hblocks, List.drop_eq_nil_of_le hlt.le]
        rfl
      simp only [hpt] at h
      cases h
    · have hp := plaintextOf_length aes raw
      have hblock : decryptBlock aes (raw.take 16) = plaintextOf aes raw :=
        TryDecrypt.ecbUpdate_take (aes key) hge
      rw [hblock] at h
      cases hd : decodeEe19 (plaintextOf aes raw ++ raw.drop 16) with
      | error err =>
        rw [hd] at h
        cases h
      | ok d' =>
        obtain rfl : d' = d := by
          rw [hd] at h
          exact Except.ok.inj h
        refine ⟨hraw, hge, ?_, hd⟩
        rw [decodeEe19_eq (by rw [List.length_append]; omega),
          slice_append_left _ (by omega)] at hd
        split at hd
        · next hheader => exact hheader
        · cases hd

end Decode

/-! ## Both scripts -/

namespace TryDecrypt

/-- Plaintext with the header is marked. -/
theorem candidate_header {aes : Aes} {packet : String} {raw : Bytes}
    (hraw : fromHex packet = some raw) (hlen : 16 ≤ raw.length)
    (hheader : slice (plaintextOf aes raw) 0 2 = [0xEE, 0x19]) :
    ∃ reason, candidate aes psk packet =
      some ⟨packet, plaintextOf aes raw, reason, "  <-- maybe?"⟩ := by
  have hpt : tryDecrypt aes packet psk = .ok (plaintextOf aes raw) :=
    tryDecrypt_block hraw hlen rfl
  have hp := plaintextOf_length aes raw
  rw [slice_two (by omega)] at hheader
  obtain ⟨rest, hcons⟩ : ∃ rest, plaintextOf aes raw = 0xEE :: rest := by
    obtain ⟨b, rest, hcons⟩ := List.exists_cons_of_length_eq_add_one hp
    simp only [hcons, List.getElem_cons_zero, List.cons.injEq] at hheader
    exact ⟨rest, hheader.1 ▸ hcons⟩
  obtain ⟨reason, hverdict⟩ : ∃ reason, isPlausible (0xEE :: rest) = .ok (true, reason) := ⟨_, rfl⟩
  refine ⟨reason, ?_⟩
  simp only [candidate, hpt, hcons, hverdict, if_true]

/-- Of a plug whose packets are all decoded, the last one of the first three is shown. -/
theorem best_decoded {aes : Aes} {packets : List String} (hne : packets ≠ [])
    (h : ∀ packet ∈ packets, ∃ raw d, Decode.Decoded aes packet raw d) :
    ∃ b, best aes psk packets = some b ∧ b.marker = "  <-- maybe?" ∧
      (packets.take 3).getLast? = some b.packet ∧
      ∀ raw, fromHex b.packet = some raw → b.pt = plaintextOf aes raw := by
  have hshown : ∀ packet ∈ packets.take 3, ∃ b, candidate aes psk packet = some b ∧
      b.marker = "  <-- maybe?" ∧
      ∀ raw, fromHex packet = some raw → b.pt = plaintextOf aes raw := by
    intro packet hpacket
    obtain ⟨raw, d, hd⟩ := h packet (List.mem_of_mem_take hpacket)
    obtain ⟨reason, hb⟩ := candidate_header hd.bytes hd.block hd.header
    refine ⟨_, hb, rfl, fun raw' hraw' => ?_⟩
    obtain rfl := Option.some.inj (hd.bytes.symm.trans hraw')
    rfl
  have hcases := best_shown aes psk packets
  cases hbest : best aes psk packets with
  | none =>
    rw [hbest] at hcases
    obtain ⟨packet, rest, rfl⟩ := List.exists_cons_of_ne_nil hne
    obtain ⟨b, hb, -⟩ := hshown packet List.mem_cons_self
    rw [hcases packet List.mem_cons_self] at hb
    cases hb
  | some b =>
    simp only [hbest, Shown] at hcases
    split at hcases
    · obtain ⟨ps, qs, hsplit, hb, hafter⟩ := hcases
      cases qs with
      | nil =>
        have hmem : b.packet ∈ packets.take 3 := by simp [hsplit]
        obtain ⟨b', hb', hmarker, hplain⟩ := hshown b.packet hmem
        obtain rfl := Option.some.inj (hb.symm.trans hb')
        exact ⟨b, rfl, hmarker, by simp [hsplit], hplain⟩
      | cons packet qs =>
        have hmem : packet ∈ packets.take 3 := by simp [hsplit]
        obtain ⟨b', hb', hmarker, -⟩ := hshown packet hmem
        have hno := hafter packet List.mem_cons_self b' hb'
        simp [Best.marked, hmarker] at hno
    · obtain ⟨hunmarked, ps, qs, hsplit, hb, -⟩ := hcases
      have hmem : b.packet ∈ packets.take 3 := by simp [hsplit]
      obtain ⟨b', hb', hmarker, -⟩ := hshown b.packet hmem
      have hno := hunmarked b.packet hmem b' hb'
      simp [Best.marked, hmarker] at hno

end TryDecrypt

namespace Decode

/-- In a run that raises nothing every packet of a plug is decoded to the reading of its number. -/
theorem main_ok {aes : Aes} {captures : Captures} {readings : List (String × List Ee19)}
    (h : main aes captures = .ok readings) {i : ℕ} {c : String × List String}
    (hi : captures[i]? = some c) : ∃ ds : List Ee19, readings[i]? = some (c.1, ds) ∧
      ∀ (j : ℕ) packet, c.2[j]? = some packet →
        ∃ raw d, ds[j]? = some d ∧ Decoded aes packet raw d := by
  obtain ⟨line, hline, hturn⟩ := Failing.mapM_ok h hi
  cases hone : c.2.mapM (decodePacket aes) with
  | error err =>
    rw [hone] at hturn
    cases hturn
  | ok ds =>
    rw [hone] at hturn
    obtain rfl := Except.ok.inj hturn
    refine ⟨ds, hline, fun j packet hj => ?_⟩
    obtain ⟨d, hd, hok⟩ := Failing.mapM_ok hone hj
    obtain ⟨raw, hdecoded⟩ := decodePacket_ok hok
    exact ⟨raw, d, hd, hdecoded⟩

end Decode

/-- A plug as both scripts show it. `try_decrypt.py` marks the last packet of the first three, and
its plaintext is the one that `decode.py` reads under the same number. -/
def Agree (aes : Aes) (packets : List String) (ds : List Decode.Ee19) (b : TryDecrypt.Best) : Prop :=
  b.marker = "  <-- maybe?" ∧ ∃ j d raw, j + 1 = min packets.length 3 ∧
    packets[j]? = some b.packet ∧ ds[j]? = some d ∧ fromHex b.packet = some raw ∧
    b.pt = plaintextOf aes raw ∧ slice b.pt 0 2 = [0xEE, 0x19] ∧
    Decode.decodeEe19 (b.pt ++ raw.drop 16) = .ok d

/-- Where `decode.py` runs through, `try_decrypt.py` does, for every MAC in hexadecimal. Under the
pre-shared key it then shows every plug of which a packet was captured as `decode.py` does. -/
theorem decoded_marked {aes : Aes} {captures : Captures}
    {readings : List (String × List Decode.Ee19)} {macHex : String} {mac : Bytes}
    (hdecode : Decode.main aes captures = .ok readings) (hmac : fromHex macHex = some mac) :
    ∃ rows, TryDecrypt.main aes macHex captures = .ok rows ∧
      ∃ row ∈ rows, row.key = TryDecrypt.psk ∧ row.lines.map Prod.fst = captures.map Prod.fst ∧
        ∀ (i : ℕ) (c : String × List String), captures[i]? = some c → c.2 ≠ [] →
          ∃ ds b, readings[i]? = some (c.1, ds) ∧ row.lines[i]? = some (c.1, some b) ∧
            Agree aes c.2 ds b := by
  have hdecoded : ∀ c ∈ captures, ∀ packet ∈ c.2, ∃ raw d, Decode.Decoded aes packet raw d := by
    intro c hc packet hpacket
    obtain ⟨i, hi⟩ := List.getElem?_of_mem hc
    obtain ⟨j, hj⟩ := List.getElem?_of_mem hpacket
    obtain ⟨ds, -, hds⟩ := Decode.main_ok hdecode hi
    obtain ⟨raw, d, -, hd⟩ := hds j packet hj
    exact ⟨raw, d, hd⟩
  have hblank : (captures.any fun c => (c.2.take 3).any TryDecrypt.blank) = false := by
    refine List.any_eq_false.mpr fun c hc => ?_
    rw [Bool.not_eq_true, List.any_eq_false]
    intro packet hpacket
    obtain ⟨raw, d, hd⟩ := hdecoded c hc packet (List.mem_of_mem_take hpacket)
    have hne : raw ≠ [] := fun hnil => by simpa [hnil] using hd.block
    simp [TryDecrypt.blank, hd.bytes, hne]
  refine ⟨TryDecrypt.rows aes mac captures, ?_, ?_⟩
  · rw [TryDecrypt.main_eq, hmac]
    simp only [hblank, Bool.false_eq_true, if_false]
  · refine ⟨_, List.mem_map_of_mem (TryDecrypt.psk_mem_keys mac), rfl, ?_, fun i c hi hne => ?_⟩
    · rw [List.map_map]
      rfl
    · obtain ⟨ds, hline, hds⟩ := Decode.main_ok hdecode hi
      obtain ⟨b, hbest, hmarker, hlast, hplain⟩ :=
        TryDecrypt.best_decoded hne (hdecoded c (List.mem_of_getElem? hi))
      refine ⟨ds, b, hline, by rw [List.getElem?_map, hi, Option.map_some, hbest], hmarker, ?_⟩
      have hpos := List.length_pos_iff.mpr hne
      obtain ⟨j, hj⟩ : ∃ j, j + 1 = min c.2.length 3 :=
        Nat.exists_eq_add_one.mpr (by omega) |>.imp fun _ => Eq.symm
      have hpacket : c.2[j]? = some b.packet := by
        rw [List.getLast?_eq_getElem?, List.length_take, Nat.min_comm, ← hj, Nat.add_sub_cancel,
          List.getElem?_take_of_lt (by omega)] at hlast
        exact hlast
      obtain ⟨raw, d, hd, hfacts⟩ := hds j _ hpacket
      have hpt := hplain raw hfacts.bytes
      exact ⟨j, d, raw, hj, hpacket, hd, hfacts.bytes, hpt, hpt ▸ hfacts.header,
        hpt ▸ hfacts.reading⟩

/-- The captures of one plug: one notification, in hexadecimal. -/
def capturedOnce : Captures := [("plug_A", ["2e93d26cdde9ceeee2b88c2ad9e8d03368ee4034"])]

theorem decoded_marked_captured : ∃ (rows : List TryDecrypt.Row)
    (readings : List (String × List Decode.Ee19)),
    TryDecrypt.main capturedAes "AABBCCDDEEFE" capturedOnce = .ok rows ∧
    Decode.main capturedAes capturedOnce = .ok readings ∧
    ∃ row ∈ rows, row.key = TryDecrypt.psk ∧ ∃ ds b, readings[0]? = some ("plug_A", ds) ∧
      row.lines[0]? = some ("plug_A", some b) ∧
      Agree capturedAes ["2e93d26cdde9ceeee2b88c2ad9e8d03368ee4034"] ds b := by
  obtain ⟨readings, hdecode⟩ : ∃ readings, Decode.main capturedAes capturedOnce = .ok readings := by
    have hok : (Decode.main capturedAes capturedOnce).isOk = true := by decide +kernel
    cases hmain : Decode.main capturedAes capturedOnce with
    | ok readings => exact ⟨readings, rfl⟩
    | error err =>
      rw [hmain] at hok
      cases hok
  have hmac : fromHex "AABBCCDDEEFE" = some [0xaa, 0xbb, 0xcc, 0xdd, 0xee, 0xfe] := by decide
  obtain ⟨rows, hmain, row, hrow, hkey, -, hlines⟩ := decoded_marked hdecode hmac
  exact ⟨rows, readings, hmain, hdecode, row, hrow, hkey, hlines 0 _ rfl (by simp)⟩

end GoveeH5086
