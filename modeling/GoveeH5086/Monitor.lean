import GoveeH5086.ReadNotification
import GoveeH5086.ScriptDecoders
import GoveeH5086.Library.Dict
import GoveeH5086.Library.Hexadecimal

/-!
# The target of the monitor (`scripts/monitor.py`)

`--mac` takes the MAC that the app shows, and looks for a plug by the end of its local name. The
command line is ASCII text, and what is printed is left out.

1. `discover_strongest`, `discover_order`: a scan finds every plug that advertised, once, as it was
   heard best, in the order in which they were first heard.
2. `nameSuffixCandidates_eq`: the candidates for a MAC are its last two octets, the final one as it
   is, one higher and one lower. The octet before it is never changed.
3. `firstMatches_name`: what is found has the name of a candidate.
4. `resolveTarget_wifi_iff`: the plug one above the MAC is found unless the final octet carries.
-/

namespace GoveeH5086
open Hexadecimal

/-- `is_h5086_advertisement`. -/
def GoveePower.isH5086Advertisement : Option String → Bool := nameStartsWith "GVH5086"

namespace Monitor

/-! ## Names from a MAC -/

/-- `ValueError`, by what raised it and with the value that its message shows. -/
inductive ValueError
  | macLength (mac : String)
  | invalidLiteral (text : String)
deriving DecidableEq, Repr

/-- `int(text, 16)` of two characters, neither of them `-`. -/
def int16 (text : List Char) : Option ℕ :=
  let digits :=
    match strip text with
    | '+' :: digits => digits
    | digits => digits
  if digits = [] then none
  else digits.foldlM (fun n c => (upperDigits.idxOf? c.toUpper).map (16 * n + ·)) 0

/-- `f"{n:02X}"`. -/
def format02X (n : ℕ) : List Char := ((Nat.toDigits 16 n).map Char.toUpper).leftpad 2 '0'

/-- `n & 0xFF`. -/
def octet (n : ℤ) : ℕ := (n % 256).toNat

/-- `mac.replace(":", "").replace("-", "")`. -/
def unseparated (mac : String) : List Char := (mac.toList.filter (· ≠ ':')).filter (· ≠ '-')

/-- `_name_suffix_candidates`. -/
def nameSuffixCandidates (mac : String) : Except ValueError (List String) :=
  let cleaned := (unseparated mac).map Char.toUpper
  if cleaned.length ≠ 12 then .error (.macLength mac)
  else
    let upper := (cleaned.drop 8).take 2
    let lower := cleaned.drop 10
    match int16 lower with
    | none => .error (.invalidLiteral (String.ofList lower))
    | some last => .ok [
        String.ofList (upper ++ format02X last),
        String.ofList (upper ++ format02X (octet (last + 1))),
        String.ofList (upper ++ format02X (octet (last - 1)))]

/-! ## Visible plugs -/

/-- What the scanner's detection callback is called with. -/
structure Advertisement where
  device : BLEDevice
  localName : Option String
  rssi : ℤ
deriving DecidableEq, Repr

/-- An entry of `found`. -/
structure Plug where
  device : BLEDevice
  name : String
  rssi : ℤ
deriving DecidableEq, Repr

/-- The `dict` from addresses. -/
abbrev Found := List (String × Plug)

/-- `adv.local_name or device.name or ""`. -/
def Advertisement.name (adv : Advertisement) : String :=
  match adv.localName with
  | none => adv.device.name.getD ""
  | some name => if name = "" then adv.device.name.getD "" else name

/-- Whether a filter `name` is given. -/
def given (name : Option String) : Bool := name ≠ none && name ≠ some ""

/-- `cb`, the callback of `discover`. -/
def cb (name : Option String) (found : Found) (adv : Advertisement) : Found :=
  let localName := adv.name
  if !GoveePower.isH5086Advertisement (some localName) then found
  else if given name ∧ some localName ≠ name then found
  else
    let plug := ⟨adv.device, localName, adv.rssi⟩
    match found.lookup adv.device.address with
    | none => Dict.set adv.device.address plug found
    | some prev => if adv.rssi > prev.rssi then Dict.set adv.device.address plug found else found

/-- `discover`, over the advertisements heard during the scan. -/
def discover (name : Option String) (advs : List Advertisement) : Found := advs.foldl (cb name) []

/-! ## The target -/

/-- The arguments of the command line that select plugs. -/
structure Args where
  name : Option String
  mac : Option String
deriving DecidableEq, Repr

/-- `{a: t for a, t in all_plugs.items() if t[1] == name}`. -/
def named (name : String) (plugs : Found) : Found := plugs.filter fun p => p.2.name = name

/-- The loop over the suffixes. -/
def firstMatches (plugs : Found) : List String → Found
  | [] => []
  | suffix :: suffixes =>
    let matched := named ("GVH5086" ++ suffix) plugs
    if matched ≠ [] then matched else firstMatches plugs suffixes

/-- `resolve_target`, over the advertisements heard during the scan. -/
def resolveTarget (args : Args) (advs : List Advertisement) : Except ValueError Found :=
  if given args.mac then do
    let suffixes ← nameSuffixCandidates (args.mac.getD "")
    return firstMatches (discover none advs) suffixes
  else return discover args.name advs

/-! ## What is visible -/

/-- The callback takes the advertisement. -/
def Takes (name : Option String) (adv : Advertisement) : Prop :=
  GoveePower.isH5086Advertisement (some adv.name) = true ∧
    ¬ (given name ∧ some adv.name ≠ name)

instance (name : Option String) (adv : Advertisement) : Decidable (Takes name adv) :=
  inferInstanceAs (Decidable (_ ∧ _))

def Advertisement.plug (adv : Advertisement) : Plug := ⟨adv.device, adv.name, adv.rssi⟩

/-- The addresses of the plugs that were heard, in the order in which they were first heard. -/
def firstHeard (name : Option String) (advs : List Advertisement) : List String :=
  ((advs.filter fun adv => Takes name adv).map fun adv => adv.device.address).eraseDups

/-- `found` holds each plug that was heard once, as in one of its strongest advertisements. -/
structure Strongest (name : Option String) (advs : List Advertisement) (found : Found) :
    Prop where
  nodup : (Dict.keys found).Nodup
  heard : ∀ a p, found.lookup a = some p →
    ∃ adv ∈ advs, Takes name adv ∧ adv.device.address = a ∧ p = adv.plug
  strongest : ∀ adv ∈ advs, Takes name adv →
    ∃ p, found.lookup adv.device.address = some p ∧ adv.rssi ≤ p.rssi

/-- What the callback does to `found`. -/
theorem cb_cases (name : Option String) (found : Found) (adv : Advertisement) :
    (¬ Takes name adv ∧ cb name found adv = found) ∨
    (Takes name adv ∧ (∃ p, found.lookup adv.device.address = some p ∧ adv.rssi ≤ p.rssi) ∧
      cb name found adv = found) ∨
    (Takes name adv ∧ (∀ p, found.lookup adv.device.address = some p → p.rssi ≤ adv.rssi) ∧
      cb name found adv = Dict.set adv.device.address adv.plug found) := by
  unfold cb
  simp only [Bool.not_eq_true']
  split
  · next hother => exact .inl ⟨fun h => by simp [h.1] at hother, rfl⟩
  · next haccepted =>
    split
    · next hnamed => exact .inl ⟨fun h => h.2 hnamed, rfl⟩
    · next hnamed =>
      have htakes : Takes name adv := ⟨by simpa using haccepted, hnamed⟩
      split
      · next hnew => exact .inr (.inr ⟨htakes, fun p hp => by simp [hnew] at hp, rfl⟩)
      · next prev hprev =>
        split
        -- heard better than before
        · next hlt =>
          refine .inr (.inr ⟨htakes, fun p hp => ?_, rfl⟩)
          cases hprev.symm.trans hp
          exact le_of_lt hlt
        · next hle => exact .inr (.inl ⟨htakes, ⟨prev, hprev, not_lt.mp hle⟩, rfl⟩)

theorem Strongest.cb {name : Option String} {advs : List Advertisement} {found : Found}
    (h : Strongest name advs found) (adv : Advertisement) :
    Strongest name (advs ++ [adv]) (cb name found adv) := by
  have earlier : ∀ a p, found.lookup a = some p →
      ∃ x ∈ advs ++ [adv], Takes name x ∧ x.device.address = a ∧ p = x.plug := by
    intro a p hp
    obtain ⟨x, hx, hrest⟩ := h.heard a p hp
    exact ⟨x, List.mem_append_left _ hx, hrest⟩
  have unchanged : (Takes name adv →
      ∃ p, found.lookup adv.device.address = some p ∧ adv.rssi ≤ p.rssi) →
      Strongest name (advs ++ [adv]) found := by
    intro hadv
    refine ⟨h.nodup, earlier, fun x hx hx' => ?_⟩
    rcases List.mem_append.mp hx with hx | hx
    · exact h.strongest x hx hx'
    · cases List.mem_singleton.mp hx
      exact hadv hx'
  rcases cb_cases name found adv with ⟨hnot, heq⟩ | ⟨-, hold, heq⟩ | ⟨htakes, hweaker, heq⟩
  · rw [heq]
    exact unchanged fun htakes => absurd htakes hnot
  · rw [heq]
    exact unchanged fun _ => hold
  · rw [heq]
    refine ⟨Dict.nodup_keys_set h.nodup, fun a p hp => ?_, fun x hx hx' => ?_⟩
    · rw [Dict.lookup_set] at hp
      split at hp
      · next ha =>
        cases hp
        exact ⟨adv, List.mem_append_right _ (List.mem_singleton_self _), htakes, ha.symm, rfl⟩
      · exact earlier a p hp
    · rw [Dict.lookup_set]
      split
      -- the entry is replaced by one that was heard no worse
      · next ha =>
        refine ⟨_, rfl, ?_⟩
        rcases List.mem_append.mp hx with hx | hx
        · obtain ⟨p, hp, hle⟩ := h.strongest x hx hx'
          exact le_trans hle (hweaker p (ha ▸ hp))
        · cases List.mem_singleton.mp hx
          exact le_refl _
      · next hne =>
        rcases List.mem_append.mp hx with hx | hx
        · exact h.strongest x hx hx'
        · cases List.mem_singleton.mp hx
          exact absurd rfl hne

/-- Each plug that advertised under an accepted name is found once, as in one of its strongest
advertisements. -/
theorem discover_strongest (name : Option String) (advs : List Advertisement) :
    Strongest name advs (discover name advs) := by
  induction advs using List.reverseRecOn with
  | nil => exact ⟨List.nodup_nil, nofun, nofun⟩
  | append_singleton advs adv ih =>
    rw [discover, List.foldl_append]
    exact ih.cb adv

theorem firstHeard_concat (name : Option String) (advs : List Advertisement) (adv : Advertisement) :
    firstHeard name (advs ++ [adv]) =
      if Takes name adv ∧ adv.device.address ∉ firstHeard name advs then
        firstHeard name advs ++ [adv.device.address]
      else firstHeard name advs := by
  simp only [firstHeard, List.filter_append, List.map_append, List.mem_eraseDups]
  by_cases htakes : Takes name adv
  · have hone : [adv].filter (fun adv => Takes name adv) = [adv] := by simp [htakes]
    rw [hone, List.map_singleton, Dict.eraseDups_concat]
    split
    · next hmem => rw [if_neg fun h => h.2 hmem]
    · next hnew => rw [if_pos ⟨htakes, hnew⟩]
  · have hnone : [adv].filter (fun adv => Takes name adv) = [] := by simp [htakes]
    rw [hnone, if_neg fun h => htakes h.1, List.map_nil, List.append_nil]

/-- A plug keeps the place at which it was first heard, however often it is heard better. -/
theorem discover_order (name : Option String) (advs : List Advertisement) :
    Dict.keys (discover name advs) = firstHeard name advs := by
  induction advs using List.reverseRecOn with
  | nil => rfl
  | append_singleton advs adv ih =>
    rw [discover, List.foldl_append, firstHeard_concat, ← ih]
    show Dict.keys (cb name (discover name advs) adv) = _
    rcases cb_cases name (discover name advs) adv with ⟨hnot, heq⟩ | ⟨-, ⟨p, hp, -⟩, heq⟩ |
      ⟨htakes, -, heq⟩
    · rw [heq, if_neg fun h => hnot h.1]
    · rw [heq, if_neg fun h => h.2 (Dict.mem_keys_of_lookup hp)]
    · rw [heq, Dict.keys_set]
      split
      · next hmem => rw [if_neg fun h => h.2 hmem]
      · next hnew => rw [if_pos ⟨htakes, hnew⟩]

/-! ## A MAC and its candidates -/

/-- `mac` spells the 48-bit number `n`, with separators anywhere and digits in either case. -/
def Spells (mac : String) (n : ℕ) : Prop := List.Forall₂ IsDigit (unseparated mac) (digits 12 n)

/-- The suffix of the local name of the plug with BLE MAC `b`. -/
def suffix (b : ℕ) : String := String.ofList (numeral 4 b)

def plugName (b : ℕ) : String := "GVH5086" ++ suffix b

/-- `int` reads a digit, and takes it neither for a blank nor for a sign. -/
theorem upperDigit_read {d : ℕ} (hd : d < 16) :
    isBlank (upperDigit d) = false ∧ upperDigit d ≠ '+' ∧
      upperDigits.idxOf? (upperDigit d).toUpper = some d := by
  have all : ∀ d < 16, isBlank (upperDigit d) = false ∧ upperDigit d ≠ '+' ∧
      upperDigits.idxOf? (upperDigit d).toUpper = some d := by decide
  exact all d hd

theorem int16_numeral {n : ℕ} (h : n < 256) : int16 (numeral 2 n) = some n := by
  have hnum : numeral 2 n = [upperDigit (n / 16 % 16), upperDigit (n % 16)] := rfl
  obtain ⟨hblank, hplus, hhigh⟩ := upperDigit_read (Nat.mod_lt (n / 16) (show 0 < 16 by decide))
  obtain ⟨hblank', -, hlow⟩ := upperDigit_read (Nat.mod_lt n (show 0 < 16 by decide))
  have hvalue : 16 * (n / 16 % 16) + n % 16 = n := by omega
  unfold int16
  rw [hnum, strip_pair hblank hblank']
  split
  · next hsign => exact absurd (List.cons.inj hsign).1 hplus
  · simp [hhigh, hlow, hvalue]

theorem digitChar_toUpper {d : ℕ} (hd : d < 16) : (Nat.digitChar d).toUpper = upperDigit d := by
  have all : ∀ d < 16, (Nat.digitChar d).toUpper = upperDigit d := by decide
  exact all d hd

/-- One digit is padded with a `0`, two are not. -/
theorem format02X_eq {n : ℕ} (h : n < 256) : format02X n = numeral 2 n := by
  have hnum : numeral 2 n = [upperDigit (n / 16 % 16), upperDigit (n % 16)] := rfl
  have hlow := Nat.mod_lt n (show 0 < 16 by decide)
  have hhigh : n / 16 < 16 := by omega
  rw [format02X, hnum, Nat.mod_eq_of_lt hhigh, Nat.toDigits_eq_if (by decide)]
  split
  · next hlt =>
    rw [Nat.mod_eq_of_lt hlt, Nat.div_eq_of_lt hlt, List.map_singleton, digitChar_toUpper hlt]
    rfl
  · rw [Nat.toDigits_of_lt_base hhigh, List.map_append, List.map_singleton, List.map_singleton,
      digitChar_toUpper hhigh, digitChar_toUpper hlow]
    rfl

theorem numeral_two_mod (n : ℕ) : numeral 2 (n % 256) = numeral 2 n :=
  numeral_inj.mpr (Nat.mod_mod _ _)

theorem numeral_four (n : ℕ) : numeral 4 n = numeral 2 (n / 256) ++ numeral 2 n :=
  numeral_append 2 2 n

/-- The candidates keep the last octet but one. -/
theorem nameSuffixCandidates_eq {mac : String} {n : ℕ} (h : Spells mac n) :
    nameSuffixCandidates mac = .ok
      ([n % 256, (n + 1) % 256, (n + 255) % 256].map fun last =>
        String.ofList (numeral 2 (n / 256) ++ numeral 2 last)) := by
  have hcleaned : (unseparated mac).map Char.toUpper
      = numeral 8 (n / 16 ^ 4) ++ (numeral 2 (n / 256) ++ numeral 2 n) := by
    rw [map_toUpper h, numeral_append 8 4, numeral_four]
  have hupper : (((unseparated mac).map Char.toUpper).drop 8).take 2 = numeral 2 (n / 256) := by
    rw [hcleaned, List.drop_left' (numeral_length ..), List.take_left' (numeral_length ..)]
  have hlower : ((unseparated mac).map Char.toUpper).drop 10 = numeral 2 (n % 256) := by
    rw [hcleaned, ← List.append_assoc, List.drop_left' (by simp), numeral_two_mod]
  have hlen : ((unseparated mac).map Char.toUpper).length = 12 := by
    rw [hcleaned]
    simp
  have hlast := Nat.mod_lt n (show 0 < 256 by decide)
  have hnext : octet ((n % 256 : ℕ) + 1) = (n + 1) % 256 := by
    unfold octet
    omega
  have hprev : octet ((n % 256 : ℕ) - 1) = (n + 255) % 256 := by
    unfold octet
    omega
  simp only [nameSuffixCandidates, hlen, hupper, hlower, int16_numeral hlast, hnext, hprev]
  rw [format02X_eq hlast, format02X_eq (Nat.mod_lt _ (by decide)),
    format02X_eq (Nat.mod_lt _ (by decide))]
  rfl

theorem suffix_eq (b : ℕ) :
    suffix b = String.ofList (numeral 2 (b / 256) ++ numeral 2 (b % 256)) := by
  rw [suffix, numeral_four, numeral_two_mod]

theorem plugName_inj {b : ℕ} {suffix' : String} :
    plugName b = "GVH5086" ++ suffix' ↔ suffix b = suffix' := by
  rw [plugName, String.append_right_inj]

/-- A suffix with the last octet but one of `m` is that of `b` exactly if the octets agree. -/
theorem suffix_eq_iff {b m last : ℕ} :
    suffix b = String.ofList (numeral 2 (m / 256) ++ numeral 2 last) ↔
      b / 256 % 256 = m / 256 % 256 ∧ b % 256 = last % 256 := by
  rw [suffix_eq, String.ofList_inj]
  constructor
  · intro h
    obtain ⟨hhigh, hlow⟩ := List.append_inj h (by simp)
    refine ⟨numeral_inj.mp hhigh, ?_⟩
    rw [numeral_two_mod] at hlow
    exact numeral_inj.mp hlow
  · rintro ⟨hhigh, hlow⟩
    have hupper : numeral 2 (b / 256) = numeral 2 (m / 256) := numeral_inj.mpr hhigh
    have hlower : numeral 2 b = numeral 2 last := numeral_inj.mpr hlow
    rw [hupper, numeral_two_mod, hlower]

/-! ## What is found -/

/-- Whatever is found has the name of a candidate. -/
theorem firstMatches_name {plugs : Found} {suffixes : List String} {p : String × Plug}
    (h : p ∈ firstMatches plugs suffixes) :
    p ∈ plugs ∧ ∃ s ∈ suffixes, p.2.name = "GVH5086" ++ s := by
  induction suffixes with
  | nil => cases h
  | cons s suffixes ih =>
    rw [firstMatches] at h
    split at h
    · obtain ⟨hmem, hname⟩ := List.mem_filter.mp h
      exact ⟨hmem, s, List.mem_cons_self, of_decide_eq_true hname⟩
    · obtain ⟨hmem, s', hs', hname⟩ := ih h
      exact ⟨hmem, s', List.mem_cons_of_mem _ hs', hname⟩

/-- A suffix that no plug has is passed over. -/
theorem firstMatches_cons_none {plugs : Found} {s : String} (suffixes : List String)
    (h : ∀ p ∈ plugs, p.2.name ≠ "GVH5086" ++ s) :
    firstMatches plugs (s :: suffixes) = firstMatches plugs suffixes := by
  have hnone : named ("GVH5086" ++ s) plugs = [] := by
    rw [named, List.filter_eq_nil_iff]
    exact fun p hp => by simpa using h p hp
  rw [firstMatches, hnone]
  rfl

/-- A suffix that some plug has is decided on. -/
theorem firstMatches_cons_some {plugs : Found} {s : String} (suffixes : List String)
    (h : ∃ p ∈ plugs, p.2.name = "GVH5086" ++ s) :
    firstMatches plugs (s :: suffixes) = named ("GVH5086" ++ s) plugs := by
  obtain ⟨p, hp, hname⟩ := h
  have hmem : p ∈ named ("GVH5086" ++ s) plugs := List.mem_filter.mpr ⟨hp, decide_eq_true hname⟩
  rw [firstMatches, if_pos (List.ne_nil_of_mem hmem)]

theorem resolveTarget_mac {mac : String} {suffixes : List String} (name : Option String)
    (advs : List Advertisement) (hgiven : mac ≠ "")
    (h : nameSuffixCandidates mac = .ok suffixes) :
    resolveTarget ⟨name, some mac⟩ advs = .ok (firstMatches (discover none advs) suffixes) := by
  have hmac : given (some mac) = true := by simp [given, hgiven]
  simp only [resolveTarget, hmac, if_true, Option.getD_some, h]
  rfl

theorem Spells.ne_empty {mac : String} {n : ℕ} (h : Spells mac n) : mac ≠ "" := by
  rintro rfl
  have hlen := h.length_eq
  rw [digits_length] at hlen
  cases hlen

/-- The plug whose BLE MAC is one above the given MAC is found unless its last octet is `00`: the
candidates do not carry into the octet before. -/
theorem resolveTarget_wifi_iff {mac : String} {b : ℕ} (name : Option String)
    (advs : List Advertisement) (hpos : 0 < b) (hmac : Spells mac (b - 1))
    (hvisible : ∃ p ∈ discover none advs, p.2.name = plugName b)
    (hnone : ∀ p ∈ discover none advs, p.2.name ≠ plugName (b - 1)) :
    resolveTarget ⟨name, some mac⟩ advs = .ok (named (plugName b) (discover none advs)) ↔
      b % 256 ≠ 0 := by
  have hexact : suffix (b - 1) =
      String.ofList (numeral 2 ((b - 1) / 256) ++ numeral 2 ((b - 1) % 256)) := suffix_eq _
  rw [resolveTarget_mac name advs hmac.ne_empty (nameSuffixCandidates_eq hmac)]
  rw [List.map_cons, ← hexact, firstMatches_cons_none _ hnone, List.map_cons]
  constructor
  · -- whatever is found has the last octet but one of the MAC
    intro hfound hzero
    obtain ⟨p, hp, hname⟩ := hvisible
    have hmem : p ∈ named (plugName b) (discover none advs) :=
      List.mem_filter.mpr ⟨hp, decide_eq_true hname⟩
    rw [← Except.ok.inj hfound] at hmem
    obtain ⟨-, s, hs, hcandidate⟩ := firstMatches_name hmem
    obtain ⟨last, rfl⟩ : ∃ last,
        s = String.ofList (numeral 2 ((b - 1) / 256) ++ numeral 2 last) := by
      rcases List.mem_cons.mp hs with rfl | hs
      · exact ⟨_, rfl⟩
      · rw [List.map_cons, List.map_nil, List.mem_singleton] at hs
        exact ⟨_, hs⟩
    obtain ⟨hhigh, -⟩ := suffix_eq_iff.mp (plugName_inj.mp (hname.symm.trans hcandidate))
    omega
  · -- no carry: the second candidate is the suffix of `b`
    intro hlast
    have hsuffix : suffix b =
        String.ofList (numeral 2 ((b - 1) / 256) ++ numeral 2 ((b - 1 + 1) % 256)) := by
      rw [suffix_eq_iff]
      omega
    rw [← hsuffix, firstMatches_cons_some _ hvisible]
    rfl

/-- The MAC `AA:BB:CC:DD:EE:FE` of the documentation, and its plug. -/
theorem resolveTarget_wifi_iff_documented :
    resolveTarget ⟨none, some "AA:BB:CC:DD:EE:FE"⟩ [⟨⟨"u1", none⟩, some "GVH5086EEFF", -60⟩] =
        .ok (named (plugName 0xAABBCCDDEEFF)
          (discover none [⟨⟨"u1", none⟩, some "GVH5086EEFF", -60⟩])) ↔
      0xAABBCCDDEEFF % 256 ≠ 0 :=
  resolveTarget_wifi_iff none _ (by decide) (by unfold Spells; decide +kernel)
    (by decide +kernel) (by decide +kernel)

/-- The plug `AA:BB:CC:DD:12:00` is not found by the MAC `AA:BB:CC:DD:11:FF`. -/
theorem resolveTarget_carry_missed :
    let b := 0xAABBCCDD1200
    let advs : List Advertisement := [⟨⟨"u1", none⟩, some "GVH50861200", -60⟩]
    Spells "aa:bb:cc:dd:11:ff" (b - 1) ∧ (∃ p ∈ discover none advs, p.2.name = plugName b) ∧
    (∀ p ∈ discover none advs, p.2.name ≠ plugName (b - 1)) ∧
    resolveTarget ⟨none, some "aa:bb:cc:dd:11:ff"⟩ advs = .ok [] ∧
    named (plugName b) (discover none advs) ≠ [] := by
  unfold Spells
  decide +kernel

end Monitor

end GoveeH5086
