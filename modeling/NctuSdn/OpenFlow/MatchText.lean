/-
Matches as texts (`OFMatch.fromString`, `setFromCIDR`).

A text is a list of tokens `key=value`, in brackets or not.  Every token takes the wildcard
of its field out and sets the field.  A token that cannot be read ends the loop with an
exception, and the match keeps what the tokens before it have set.

Digits of other scripts, the case of letters and `HexString.fromHexString` are those of the
platform (`MatchReader`).
-/
import NctuSdn.Packet.Numerals
import NctuSdn.StaticFlow.StaticFlowEntryPusher

namespace NctuSdn

open List Decimal

/-- What texts are read with. -/
structure MatchReader where
  digits : CharacterDigit
  /-- `Character.digit(c, 16)`. -/
  hexDigit : Char → Option ℕ
  hexAscii : ∀ n : Fin 16, hexDigit (Nat.digitChar n) = some n
  fromHexString : List Char → Except JavaException (BitVec 48)
  toLowerCase : List Char → List Char
  lowerAscii : ∀ s, (∀ c ∈ s, c.isLower = true ∨ c = '_') → toLowerCase s = s

namespace MatchReader

variable (r : MatchReader)

/-! ### Numbers -/

def hexValue : ℕ → List Char → Option ℕ
  | n, [] => some n
  | n, c :: s =>
    match r.hexDigit c with
    | some k => hexValue (16 * n + k) s
    | none => none

/-- `Integer.valueOf` with the radix 16, of a text and its sign. -/
def hexSigned (negative : Bool) (s : List Char) : Except JavaException ℤ :=
  match s, r.hexValue 0 s with
  | _ :: _, some n =>
    let x : ℤ := if negative then -n else n
    if -(2 ^ 31) ≤ x ∧ x < 2 ^ 31 then .ok x else .error .illegalArgument
  | _, _ => .error .illegalArgument

def hexValueOf : List Char → Except JavaException ℤ
  | '-' :: s => r.hexSigned true s
  | '+' :: s => r.hexSigned false s
  | s => r.hexSigned false s

/-- `Short.valueOf` of what one of the radixes gives. -/
def inShort (x : Except JavaException ℤ) : Except JavaException ℤ := do
  let n ← x
  if -(2 ^ 15) ≤ n ∧ n < 2 ^ 15 then return n else .error .illegalArgument

/-- A number in the radix that its beginning says. -/
def number (text : List Char) : Except JavaException ℤ :=
  if ['0', 'x'].isPrefixOf text then r.hexValueOf (text.drop 2) else r.digits.valueOf text

/-- One of the parts of an address, as an `int`. -/
def part (parts : List (List Char)) (i : ℕ) : Except JavaException (BitVec 32) :=
  match parts[i]? with
  | none => .error .indexOutOfBounds
  | some text => (r.digits.valueOf text).map (BitVec.ofInt 32)

/-- The reading half of `setFromCIDR`: the address, and how many bits are left open. -/
def cidr (text : List Char) : Except JavaException (BitVec 32 × BitVec 32) :=
  match splitText (· == '/') text with
  | [] => .error .indexOutOfBounds
  | address :: rest => do
      let parts := splitText (· == '.') address
      let b₀ ← r.part parts 0
      let b₁ ← r.part parts 1
      let b₂ ← r.part parts 2
      let b₃ ← r.part parts 3
      let mask ← match rest with
        | [] => .ok 0
        | bits :: _ => (r.digits.valueOf bits).map fun n => 32 - BitVec.ofInt 32 n
      return (b₀ <<< 24 + b₁ <<< 16 + b₂ <<< 8 + b₃, mask)

/-! ### Tokens -/

/-- The field of a key, in lower case. -/
def column (key : List Char) : Option MatchColumn :=
  if key = "in_port".toList ∨ key = "input_port".toList then some .inPort
  else if key = "dl_dst".toList ∨ key = "eth_dst".toList then some .dlDst
  else if key = "dl_src".toList ∨ key = "eth_src".toList then some .dlSrc
  else if key = "dl_type".toList ∨ key = "eth_type".toList then some .dlType
  else if key = "dl_vlan".toList then some .dlVlan
  else if key = "dl_vlan_pcp".toList then some .dlVlanPcp
  else if key = "nw_dst".toList ∨ key = "ip_dst".toList then some .nwDst
  else if key = "nw_src".toList ∨ key = "ip_src".toList then some .nwSrc
  else if key = "nw_proto".toList then some .nwProto
  else if key = "nw_tos".toList then some .nwTos
  else if key = "tp_dst".toList then some .tpDst
  else if key = "tp_src".toList then some .tpSrc
  else none

/-- The field and its wildcards are set once the value has been read. -/
def setColumn (m : OFMatch) (text : List Char) : MatchColumn → Except JavaException OFMatch
  | .inPort => (r.digits.valueOf text).map fun n =>
    { m with inputPort := BitVec.ofInt 16 n, wildcards := m.wildcards &&& ~~~ofpfwInPort }
  | .dlDst => (r.fromHexString text).map fun mac =>
    { m with dataLayerDestination := mac, wildcards := m.wildcards &&& ~~~ofpfwDlDst }
  | .dlSrc => (r.fromHexString text).map fun mac =>
    { m with dataLayerSource := mac, wildcards := m.wildcards &&& ~~~ofpfwDlSrc }
  | .dlType => (r.number text).map fun n =>
    { m with dataLayerType := BitVec.ofInt 16 n, wildcards := m.wildcards &&& ~~~ofpfwDlType }
  | .dlVlan => (r.number text).map fun n =>
    { m with dataLayerVirtualLan := BitVec.ofInt 16 n
             wildcards := m.wildcards &&& ~~~ofpfwDlVlan }
  | .dlVlanPcp => (inShort (r.digits.valueOf text)).map fun n =>
    { m with dataLayerVirtualLanPriorityCodePoint := BitVec.ofInt 8 n
             wildcards := m.wildcards &&& ~~~ofpfwDlVlanPcp }
  | .nwDst => (r.cidr text).map fun (ip, mask) =>
    { m with networkDestination := ip
             wildcards := (m.wildcards &&& ~~~ofpfwNwDstMask) ||| (mask <<< ofpfwNwDstShift) }
  | .nwSrc => (r.cidr text).map fun (ip, mask) =>
    { m with networkSource := ip
             wildcards := (m.wildcards &&& ~~~ofpfwNwSrcMask) ||| (mask <<< ofpfwNwSrcShift) }
  | .nwProto => (inShort (r.number text)).map fun n =>
    { m with networkProtocol := BitVec.ofInt 8 n, wildcards := m.wildcards &&& ~~~ofpfwNwProto }
  | .nwTos => (inShort (r.digits.valueOf text)).map fun n =>
    { m.setNetworkTypeOfService (BitVec.ofInt 8 n) with
      wildcards := m.wildcards &&& ~~~ofpfwNwTos }
  | .tpDst => (r.digits.valueOf text).map fun n =>
    { m with transportDestination := BitVec.ofInt 16 n
             wildcards := m.wildcards &&& ~~~ofpfwTpDst }
  | .tpSrc => (r.digits.valueOf text).map fun n =>
    { m with transportSource := BitVec.ofInt 16 n, wildcards := m.wildcards &&& ~~~ofpfwTpSrc }

def readToken (m : OFMatch) (token : List Char) : Except JavaException OFMatch :=
  match splitText (· == '=') token with
  | [key, text] =>
    match column (r.toLowerCase key) with
    | some c => r.setColumn m text c
    | none => .error .illegalArgument
  | _ => .error .illegalArgument

/-- The loop over the tokens, with the match that it leaves behind. -/
def readTokens : OFMatch → List (List Char) → OFMatch × Except JavaException Unit
  | m, [] => (m, .ok ())
  | m, token :: tokens =>
    match r.readToken m token with
    | .ok m' => readTokens m' tokens
    | .error e => (m, .error e)

def isSeparator (c : Char) : Bool := c == '[' || c == ',' || c == ']'

/-- `fromString`.  A text of separators only has no first token. -/
def fromString (m : OFMatch) (text : List Char) : OFMatch × Except JavaException Unit :=
  let text := if text = [] ∨ text.map Char.toLower = "any".toList ∨
    text.map Char.toLower = "all".toList ∨ text = "[]".toList then "OFMatch[]".toList else text
  match splitText isSeparator text with
  | [] => (m, .error .indexOutOfBounds)
  | token :: tokens =>
    r.readTokens { m with wildcards := ofpfwAll }
      (if token = "OFMatch".toList then tokens else token :: tokens)

/-! ### Texts of fields -/

/-- The `STR_` constants. -/
def columnName : MatchColumn → List Char
  | .inPort => "in_port".toList
  | .dlSrc => "dl_src".toList
  | .dlDst => "dl_dst".toList
  | .dlVlan => "dl_vlan".toList
  | .dlVlanPcp => "dl_vlan_pcp".toList
  | .dlType => "dl_type".toList
  | .nwTos => "nw_tos".toList
  | .nwProto => "nw_proto".toList
  | .nwSrc => "nw_src".toList
  | .nwDst => "nw_dst".toList
  | .tpDst => "tp_dst".toList
  | .tpSrc => "tp_src".toList

def token (field : MatchColumn × List Char) : List Char := columnName field.1 ++ '=' :: field.2

/-- The loop over fields instead of tokens. -/
def setColumns : OFMatch → List (MatchColumn × List Char) → OFMatch × Except JavaException Unit
  | m, [] => (m, .ok ())
  | m, field :: fields =>
    match r.setColumn m field.2 field.1 with
    | .ok m' => setColumns m' fields
    | .error e => (m, .error e)

/-- A character of a number or of an address. -/
def isValueChar (c : Char) : Bool := c.isDigit || c == '.' || c == '-' || c == 'x'

theorem columnName_spec (c : MatchColumn) :
    column (columnName c) = some c ∧
      (∀ x ∈ columnName c, x.isLower = true ∨ x = '_') ∧
      ∃ x s, columnName c = x :: s ∧ x ≠ '[' ∧ x ≠ 'O' ∧ x.toLower ≠ 'a' := by
  have hlower : (columnName c).all fun x => decide (x.isLower = true ∨ x = '_') := by
    cases c <;> rfl
  refine ⟨by cases c <;> rfl, fun x hx => of_decide_eq_true (all_eq_true.mp hlower x hx), ?_⟩
  cases c <;> exact ⟨_, _, rfl, by decide, by decide, by decide⟩

theorem columnName_ne {c : MatchColumn} {x : Char} (hx : x ∈ columnName c) {sep : Char}
    (hsep : ¬ (sep.isLower = true ∨ sep = '_')) : x ≠ sep := by
  rintro rfl
  exact hsep ((columnName_spec c).2.1 x hx)

theorem isValueChar_ne {x : Char} (hx : isValueChar x = true) {sep : Char}
    (hsep : ¬ isValueChar sep = true) : x ≠ sep := by
  rintro rfl
  exact hsep hx

theorem readToken_token (m : OFMatch) {field : MatchColumn × List Char} (hne : field.2 ≠ [])
    (hvalue : ∀ c ∈ field.2, isValueChar c = true) :
    r.readToken m (token field) = r.setColumn m field.2 field.1 := by
  obtain ⟨hcolumn, hlower, x, s, hname, -⟩ := columnName_spec field.1
  have hsplit : splitText (· == '=') (token field) = [columnName field.1, field.2] := by
    have htoken : token field = ['='].intercalate [columnName field.1, field.2] := by
      simp [token]
    rw [htoken]
    refine splitText_intercalate rfl (cons_ne_nil _ _) ?_ ?_
    · intro t ht
      rcases mem_pair.mp ht with rfl | rfl
      · exact hname ▸ cons_ne_nil x s
      · exact hne
    · intro t ht c hc
      rcases mem_pair.mp ht with rfl | rfl
      · exact beq_eq_false_iff_ne.mpr (columnName_ne hc (by decide))
      · exact beq_eq_false_iff_ne.mpr (isValueChar_ne (hvalue c hc) (by decide))
  unfold readToken
  rw [hsplit]
  dsimp only
  rw [r.lowerAscii _ hlower, hcolumn]

theorem readTokens_tokens (m : OFMatch) {fields : List (MatchColumn × List Char)}
    (h : ∀ f ∈ fields, f.2 ≠ [] ∧ ∀ c ∈ f.2, isValueChar c = true) :
    r.readTokens m (fields.map token) = r.setColumns m fields := by
  induction fields generalizing m with
  | nil => rfl
  | cons field fields ih =>
    obtain ⟨hfield, hfields⟩ := forall_mem_cons.mp h
    rw [map_cons, readTokens, setColumns, r.readToken_token m hfield.1 hfield.2]
    cases r.setColumn m field.2 field.1 with
    | error e => rfl
    | ok m' => exact ih m' hfields

theorem not_isSeparator_of_mem_token {field : MatchColumn × List Char}
    (hvalue : ∀ c ∈ field.2, isValueChar c = true) {c : Char} (hc : c ∈ token field) :
    isSeparator c = false := by
  have hne : c ≠ '[' ∧ c ≠ ',' ∧ c ≠ ']' := by
    rcases mem_append.mp hc with hc | hc
    · exact ⟨columnName_ne hc (by decide), columnName_ne hc (by decide),
        columnName_ne hc (by decide)⟩
    · rcases mem_cons.mp hc with rfl | hc
      · decide
      · have hvalue := hvalue c hc
        exact ⟨isValueChar_ne hvalue (by decide), isValueChar_ne hvalue (by decide),
          isValueChar_ne hvalue (by decide)⟩
  simp [isSeparator, hne]

/-- **A text of fields is read field by field.** -/
theorem fromString_tokens (m : OFMatch) {fields : List (MatchColumn × List Char)}
    (hne : fields ≠ []) (h : ∀ f ∈ fields, f.2 ≠ [] ∧ ∀ c ∈ f.2, isValueChar c = true) :
    r.fromString m ([','].intercalate (fields.map token)) =
      r.setColumns { m with wildcards := ofpfwAll } fields := by
  have hsplit : splitText isSeparator ([','].intercalate (fields.map token)) =
      fields.map token := by
    refine splitText_intercalate rfl (by simpa using hne) ?_ ?_
    · intro t ht
      obtain ⟨f, -, rfl⟩ := mem_map.mp ht
      simp [token]
    · intro t ht c hc
      obtain ⟨f, hf, rfl⟩ := mem_map.mp ht
      exact not_isSeparator_of_mem_token (h f hf).2 hc
  cases fields with
  | nil => exact absurd rfl hne
  | cons field fields =>
    -- the first letter tells the text from those that mean no field
    obtain ⟨-, -, x, s, hname, hbracket, hlabel, hall⟩ := columnName_spec field.1
    have htext : ∃ s', [','].intercalate ((field :: fields).map token) = x :: s' := by
      cases fields <;> simp [token, hname]
    obtain ⟨s', htext⟩ := htext
    have hplain : ¬ (x :: s' = [] ∨ (x :: s').map Char.toLower = "any".toList ∨
        (x :: s').map Char.toLower = "all".toList ∨ x :: s' = "[]".toList) := by
      simp [hbracket, hall]
    have hfirst : token field ≠ "OFMatch".toList := by
      simp [token, hname, hlabel]
    rw [htext] at hsplit ⊢
    unfold fromString
    dsimp only
    rw [if_neg hplain, hsplit, map_cons]
    dsimp only
    rw [if_neg hfirst]
    exact r.readTokens_tokens _ h

/-! ### Values -/

theorem isValueChar_decimal {x : ℤ} {c : Char} (hc : c ∈ decimal x) : isValueChar c = true := by
  rcases isDigit_or_dash_of_mem hc with hdigit | rfl
  · simp [isValueChar, hdigit]
  · rfl

theorem isValueChar_fromIPv4Address {address : BitVec 32} {c : Char}
    (hc : c ∈ fromIPv4Address address) : isValueChar c = true := by
  rcases mem_fromIPv4Address hc with (hdigit | rfl) | rfl
  · simp [isValueChar, hdigit]
  · rfl
  · rfl

theorem number_decimal {x : ℤ} (h : -(2 ^ 31) ≤ x ∧ x < 2 ^ 31) :
    r.number (decimal x) = .ok x := by
  have hradix : ['0', 'x'].isPrefixOf (decimal x) = false := by
    refine Bool.eq_false_iff.mpr fun hprefix => ?_
    obtain ⟨s, hs⟩ := isPrefixOf_iff_prefix.mp hprefix
    have hmem : 'x' ∈ decimal x := hs ▸ by simp
    exact absurd (isDigit_or_dash_of_mem hmem) (by decide)
  unfold number
  rw [hradix, if_neg Bool.false_ne_true, r.digits.valueOf_decimal h]

theorem number_etherType : r.number "0x800".toList = .ok 0x800 := by
  have height : r.hexDigit '8' = some 8 := r.hexAscii 8
  have hzero : r.hexDigit '0' = some 0 := r.hexAscii 0
  have hvalue : r.hexValue 0 ['8', '0', '0'] = some 0x800 := by
    simp only [hexValue, height, hzero]
  show r.hexSigned false ['8', '0', '0'] = .ok 0x800
  unfold hexSigned
  rw [hvalue]
  rfl

theorem toNat_octet (x : BitVec 32) : (x &&& 0xff).toNat = x.toNat % 256 :=
  (BitVec.toNat_and x 0xff).trans (Nat.and_two_pow_sub_one_eq_mod x.toNat 8)

theorem octets_eq (address : BitVec 32) :
    ((address >>> 24) &&& 0xff) <<< 24 + ((address >>> 16) &&& 0xff) <<< 16 +
      ((address >>> 8) &&& 0xff) <<< 8 + ((address >>> 0) &&& 0xff) = address := by
  apply BitVec.eq_of_toNat_eq
  have hlt := address.isLt
  simp only [BitVec.toNat_add, BitVec.toNat_shiftLeft, toNat_octet, BitVec.toNat_ushiftRight,
    Nat.shiftRight_eq_div_pow, Nat.shiftLeft_eq]
  omega

theorem part_octet {address : BitVec 32} {shift i : ℕ} {parts : List (List Char)}
    (h : parts[i]? = some (decimal ((address >>> shift) &&& 0xff).toNat)) :
    r.part parts i = .ok ((address >>> shift) &&& 0xff) := by
  have hlt : ((address >>> shift) &&& 0xff).toNat < 256 := by
    rw [toNat_octet]
    exact Nat.mod_lt _ (by decide)
  unfold part
  rw [h]
  dsimp only
  rw [r.digits.valueOf_decimal (by omega)]
  refine congrArg Except.ok ?_
  rw [BitVec.ofInt_natCast, BitVec.ofNat_toNat, BitVec.setWidth_eq]

/-- An address that was printed is read back, with no bits left open. -/
theorem cidr_fromIPv4Address (address : BitVec 32) :
    r.cidr (fromIPv4Address address) = .ok (address, 0) := by
  have hslash : splitText (· == '/') (fromIPv4Address address) = [fromIPv4Address address] := by
    refine if_neg ?_
    simp only [any_eq_true, beq_iff_eq, not_exists, not_and]
    rintro _ hmem rfl
    exact absurd (mem_fromIPv4Address hmem) (by decide)
  have hdots := splitText_fromIPv4Address address
  unfold cidr
  rw [hslash]
  dsimp only
  rw [hdots, r.part_octet rfl, r.part_octet rfl, r.part_octet rfl, r.part_octet rfl]
  exact congrArg (fun a => Except.ok (a, 0)) (octets_eq address)

end MatchReader

end NctuSdn
