/-
When the decoder keeps the boundaries of OpenFlow messages.

A connection carries messages one after the other, and the network delivers
them in chunks of any size.  As long as every message fills its length
(`Filled`), the decoder emits the messages one for one, however the stream is
cut.  A hello of a later version of the protocol has elements behind its
header, which the class for hellos does not read: they are taken for a
message, and the boundaries are lost.
-/
import NctuSdn.OpenFlow.Layout

namespace NctuSdn

open List

variable {data : List (BitVec 8)} {n index index' : ℕ}

/-! ### Streams of messages -/

def headerOf (b : List (BitVec 8)) : Option OFMessage :=
  (OFMessage.readFrom b 0).toOption.map Prod.fst

/-- A message with a known type, and as long as its header says. -/
def IsMessage (b : List (BitVec 8)) : Prop :=
  ∃ m t, OFMessage.readFrom b 0 = .ok (m, 8) ∧ m.type = some t ∧ m.getLengthU = b.length

/-- `P` holds of every buffer that starts with a message of the stream and goes
on with as much of the stream as may have arrived by then. -/
def AtEveryMessage (P : List (BitVec 8) → Prop) : List (List (BitVec 8)) → Prop
  | [] => True
  | b :: later => (∀ arrived, arrived <+: later.flatten → P (b ++ arrived)) ∧ AtEveryMessage P later

theorem AtEveryMessage.of_append {P : List (BitVec 8) → Prop} {done later : List (List (BitVec 8))}
    (h : AtEveryMessage P (done ++ later)) : AtEveryMessage P later := by
  induction done with
  | nil => exact h
  | cons b done ih => exact ih h.2

theorem numberAt_append {e : List (BitVec 8)} (h : index + n ≤ data.length) :
    numberAt (data ++ e) index n = numberAt data index n := by
  induction n with
  | zero => rfl
  | succ n ih =>
    have ih : (ByteBuffer.mk (data ++ e) 0).at? index n = (ByteBuffer.mk data 0).at? index n :=
      ih (by omega)
    unfold numberAt
    simp only [ByteBuffer.at?]
    rw [ih, List.getElem?_append_left (by omega)]

theorem readNumber_append {e : List (BitVec 8)} (h : index + n ≤ data.length) :
    readNumber (data ++ e) n index = readNumber data n index := by
  unfold readNumber
  rw [numberAt_append h]

theorem bind_congr_of_ok {ε α β : Type} {x : Except ε α} {f g : α → Except ε β}
    (h : ∀ a, x = .ok a → f a = g a) : (x >>= f) = (x >>= g) := by
  cases x with
  | error e => rfl
  | ok a => exact h a rfl

theorem readHeader_append {e : List (BitVec 8)} (h : 8 ≤ data.length) :
    OFMessage.readFrom (data ++ e) 0 = OFMessage.readFrom data 0 := by
  unfold OFMessage.readFrom
  rw [readNumber_append (by omega)]
  apply bind_congr_of_ok
  rintro ⟨version, i₁⟩ h₁
  obtain ⟨-, rfl⟩ := readNumber_ok h₁
  dsimp only
  rw [readNumber_append (by omega)]
  apply bind_congr_of_ok
  rintro ⟨i, i₂⟩ h₂
  obtain ⟨-, rfl⟩ := readNumber_ok h₂
  apply bind_congr_of_ok
  intro type _
  rw [readNumber_append (by omega)]
  apply bind_congr_of_ok
  rintro ⟨length, i₃⟩ h₃
  obtain ⟨-, rfl⟩ := readNumber_ok h₃
  rw [readNumber_append (by omega)]

section

variable {b e : List (BitVec 8)} (hb : IsMessage b)
include hb

theorem parseMessageOne_part (hpart : data ++ e = b) (hlt : data.length < b.length) :
    parseMessageOne data = .ok none := by
  obtain ⟨m, t, hheader, ht, hlength⟩ := hb
  unfold parseMessageOne
  split
  next => rfl
  next h8 =>
    rw [← hpart, readHeader_append (by omega)] at hheader
    rw [hheader]
    show (if data.length < m.getLengthU then _ else _) = _
    rw [if_pos (by omega)]
    rfl

theorem parseMessageOne_whole :
    parseMessageOne (b ++ e) ≠ .ok none := by
  obtain ⟨m, t, hheader, ht, hlength⟩ := hb
  have h8 := (readHeader_ok hheader).2
  intro h
  unfold parseMessageOne at h
  rw [if_neg (by rw [length_append]; omega)] at h
  rw [readHeader_append h8, hheader] at h
  obtain ⟨⟨demux, i⟩, hdemux, h⟩ := exists_of_bind_eq_ok h
  obtain ⟨rfl, rfl⟩ := Prod.mk.inj (Except.ok.inj hdemux)
  dsimp only at h
  rw [if_neg (by rw [length_append]; omega), ht] at h
  obtain ⟨⟨ofm, i⟩, -, h⟩ := exists_of_bind_eq_ok h
  obtain ⟨index, -, h⟩ := exists_of_bind_eq_ok h
  cases h

theorem parseMessageOne_filled (hparse : ∃ r, parseMessageOne (b ++ e) = .ok r)
    (hfilled : Filled (b ++ e)) :
    ∃ m, parseMessageOne (b ++ e) = .ok (some (m, b.length)) ∧ headerOf b = some m := by
  obtain ⟨_ | ⟨m, k⟩, hr⟩ := hparse
  · exact absurd hr (parseMessageOne_whole hb)
  · have hk := (consumed_eq_length_iff hr).mpr hfilled
    obtain ⟨t, hheader, -, -⟩ := parseMessageOne_ok hr
    obtain ⟨m', t', hheader', -, hlength⟩ := hb
    rw [readHeader_append (readHeader_ok hheader').2] at hheader
    obtain rfl : m = m' := congrArg Prod.fst (Except.ok.inj (hheader.symm.trans hheader'))
    refine ⟨m, ?_, ?_⟩
    · rw [hr, hk, hlength]
    · rw [headerOf, hheader]
      rfl

end

/-- What a part of a stream that has arrived leaves: the messages that have
arrived whole are emitted, and the part of the next one is kept. -/
theorem parseMessage_stream {ms : List (List (BitVec 8))} (hms : ∀ b ∈ ms, IsMessage b)
    (hparse : AtEveryMessage (fun b => ∃ r, parseMessageOne b = .ok r) ms)
    (hfilled : AtEveryMessage Filled ms) {buffer : List (BitVec 8)}
    (hbuffer : buffer <+: ms.flatten) (msglist : List OFMessage) {rounds : ℕ}
    (hrounds : buffer.length < rounds) :
    ∃ done later rest emitted, ms = done ++ later ∧ buffer = done.flatten ++ rest ∧
      (∀ b ∈ later.head?, rest.length < b.length) ∧ emitted.map some = done.map headerOf ∧
      whileLoop .endless parseNextMessage rounds (msglist, buffer) =
        .ok (msglist ++ emitted, rest) := by
  induction ms generalizing buffer msglist rounds with
  | nil =>
    obtain rfl := prefix_nil.mp hbuffer
    obtain ⟨rounds, rfl⟩ := Nat.exists_eq_add_one_of_ne_zero (Nat.ne_zero_of_lt hrounds)
    refine ⟨[], [], [], [], rfl, rfl, by simp, rfl, ?_⟩
    rw [whileLoop_stop rfl, append_nil]
  | cons b ms ih =>
    obtain ⟨rounds, rfl⟩ := Nat.exists_eq_add_one_of_ne_zero (Nat.ne_zero_of_lt hrounds)
    have hb := hms b mem_cons_self
    rw [flatten_cons] at hbuffer
    obtain hlt | hge := Nat.lt_or_ge buffer.length b.length
    · -- only part of the first message has arrived
      obtain ⟨e, he⟩ := prefix_of_prefix_length_le hbuffer (prefix_append _ _)
        (Nat.le_of_lt hlt)
      have hnone := parseMessageOne_part hb he hlt
      refine ⟨[], b :: ms, buffer, [], rfl, rfl, by simpa using hlt, rfl, ?_⟩
      rw [whileLoop_stop (by simp only [parseNextMessage, hnone]; rfl), append_nil]
    · -- the first message is parsed, and the loop goes on behind it
      obtain ⟨e, rfl⟩ := prefix_of_prefix_length_le (prefix_append _ _) hbuffer hge
      have he := (prefix_append_right_inj b).mp hbuffer
      obtain ⟨m, hm, hheader⟩ := parseMessageOne_filled hb (hparse.1 e he) (hfilled.1 e he)
      have h8 : 8 ≤ b.length := by
        obtain ⟨_, _, hheader', -, -⟩ := hb
        exact (readHeader_ok hheader').2
      rw [length_append] at hrounds
      obtain ⟨done, later, rest, emitted, rfl, rfl, hshort, hemitted, hloop⟩ :=
        ih (fun c hc => hms c (mem_cons_of_mem b hc)) hparse.2 hfilled.2 he (msglist ++ [m])
          (show e.length < rounds by omega)
      refine ⟨b :: done, later, rest, m :: emitted, rfl, ?_, hshort, ?_, ?_⟩
      · rw [flatten_cons, append_assoc]
      · rw [map_cons, map_cons, hheader, hemitted]
      · rw [whileLoop_move (by simp only [parseNextMessage, hm]; rfl), drop_left, hloop,
          append_assoc]
        rfl

/-! ### What is kept -/

/-- By its header the buffer does not hold a complete message. -/
def Incomplete (b : List (BitVec 8)) : Prop :=
  b.length < 8 ∨ ∃ length, numberAt b 2 2 = some length ∧ b.length < length.toNat

theorem numberAt_length {m : OFMessage} (h : OFMessage.readFrom data 0 = .ok (m, index)) :
    numberAt data 2 2 = some m.length := by
  obtain ⟨version, -, h⟩ := readNumber_bind_ok h
  obtain ⟨i, -, h⟩ := readNumber_bind_ok h
  obtain ⟨type, -, h⟩ := exists_of_bind_eq_ok h
  obtain ⟨length, hlength, h⟩ := readNumber_bind_ok h
  obtain ⟨xid, -, h⟩ := readNumber_bind_ok h
  cases h
  exact hlength

/-- The parser returns nothing only where it has to wait for more bytes. -/
theorem incomplete_of_parseMessageOne (h : parseMessageOne data = .ok none) : Incomplete data := by
  unfold parseMessageOne at h
  split at h
  next hshort => exact .inl hshort
  next =>
    obtain ⟨⟨demux, i⟩, hheader, h⟩ := exists_of_bind_eq_ok h
    dsimp only at h
    split at h
    next hlt => exact .inr ⟨demux.length, numberAt_length hheader, hlt⟩
    next =>
      split at h
      next => cases h
      next =>
        obtain ⟨⟨ofm, i⟩, -, h⟩ := exists_of_bind_eq_ok h
        obtain ⟨index, -, h⟩ := exists_of_bind_eq_ok h
        cases h

/-- A round of the loop drops what it has consumed. -/
theorem suffix_of_reaches {s t : List OFMessage × List (BitVec 8)}
    (h : Relation.ReflTransGen (fun s t : List OFMessage × List (BitVec 8) => t.2 <:+ s.2) s t) :
    t.2 <:+ s.2 := by
  induction h with
  | refl => exact suffix_rfl
  | tail _ hstep ih => exact hstep.trans ih

theorem parseMessage_rest {msgs : List OFMessage} {rest : List (BitVec 8)}
    (h : parseMessage data = .ok (msgs, rest)) : rest <:+ data ∧ Incomplete rest := by
  have hmove : ∀ s s', parseNextMessage s = .ok (some s') → s'.2 <:+ s.2 := by
    intro s s' hmove
    obtain ⟨_ | ⟨msg, n⟩, -, hmove⟩ := exists_of_bind_eq_ok hmove
    · cases hmove
    · cases hmove
      exact drop_suffix n s.2
  obtain ⟨hreach, hstop⟩ := whileLoop_reaches hmove h
  refine ⟨suffix_of_reaches hreach, ?_⟩
  obtain ⟨_ | ⟨msg, n⟩, hone, hstop⟩ := exists_of_bind_eq_ok hstop
  · exact incomplete_of_parseMessageOne hone
  · cases hstop

theorem receive_rest {kept rest : List (BitVec 8)} {chunks : List (List (BitVec 8))}
    {msgs : List OFMessage} (hkept : Incomplete kept)
    (h : OFMessageDecoder.receive kept chunks = .ok (msgs, rest)) :
    rest <:+ kept ++ chunks.flatten ∧ Incomplete rest := by
  induction chunks generalizing kept msgs with
  | nil =>
    cases h
    rw [flatten_nil, append_nil]
    exact ⟨suffix_rfl, hkept⟩
  | cons chunk chunks ih =>
    obtain ⟨⟨msgs₁, rest₁⟩, hparse, h⟩ := exists_of_bind_eq_ok h
    obtain ⟨⟨msgs₂, rest₂⟩, hlater, h⟩ := exists_of_bind_eq_ok h
    cases h
    obtain ⟨⟨consumed, hconsumed⟩, hrest₁⟩ := parseMessage_rest hparse
    obtain ⟨hsuffix, hrest⟩ := ih hrest₁ hlater
    refine ⟨hsuffix.trans ⟨consumed, ?_⟩, hrest⟩
    rw [flatten_cons, ← append_assoc, ← append_assoc, hconsumed]

/-- **No message waits.**  However the bytes of a connection are cut, as long as the decoder does
not fail, what it keeps is the end of what has arrived, and shorter than a header or than the
length that its header announces. -/
theorem receive_leaves_no_message {chunks : List (List (BitVec 8))} {msgs : List OFMessage}
    {rest : List (BitVec 8)} (h : OFMessageDecoder.receive [] chunks = .ok (msgs, rest)) :
    rest <:+ chunks.flatten ∧ Incomplete rest := by
  have hstart : Incomplete [] := .inl (by decide)
  exact receive_rest hstart h

/-- A hello, and nine bytes of an echo request of sixteen. -/
theorem receive_leaves_no_message_echo :
    OFMessageDecoder.receive [] [[1, 0, 0], [8, 0, 0, 0, 1, 1, 2, 0], [16, 0, 0, 0, 2, 0xca]] =
      .ok ([⟨1, some .hello, 8, 1⟩], [1, 2, 0, 16, 0, 0, 0, 2, 0xca]) ∧
    Incomplete [1, 2, 0, 16, 0, 0, 0, 2, 0xca] := by
  have h : OFMessageDecoder.receive []
      [[1, 0, 0], [8, 0, 0, 0, 1, 1, 2, 0], [16, 0, 0, 0, 2, 0xca]] =
      .ok ([⟨1, some .hello, 8, 1⟩], [1, 2, 0, 16, 0, 0, 0, 2, 0xca]) := rfl
  exact ⟨h, (receive_leaves_no_message h).2⟩

/-! ### Streams of messages that fill their lengths -/

/-- However a stream is cut, each of its messages is emitted once it has
arrived, and nothing else is. -/
theorem receive_stream {ms chunks : List (List (BitVec 8))} (hms : ∀ b ∈ ms, IsMessage b)
    (hparse : AtEveryMessage (fun b => ∃ r, parseMessageOne b = .ok r) ms)
    (hfilled : AtEveryMessage Filled ms) {kept : List (BitVec 8)}
    (hkept : ∀ b ∈ ms.head?, kept.length < b.length)
    (hstream : kept ++ chunks.flatten = ms.flatten) :
    ∃ emitted, OFMessageDecoder.receive kept chunks = .ok (emitted, []) ∧
      emitted.map some = ms.map headerOf := by
  -- `kept` is the beginning of the first message that is not complete
  induction chunks generalizing ms kept with
  | nil =>
    rw [flatten_nil, append_nil] at hstream
    cases ms with
    | nil =>
      subst hstream
      exact ⟨[], rfl, rfl⟩
    | cons b ms =>
      have hlt := hkept b rfl
      rw [hstream, flatten_cons, length_append] at hlt
      omega
  | cons chunk chunks ih =>
    rw [flatten_cons, ← append_assoc] at hstream
    obtain ⟨done, later, rest, emitted, rfl, hbuffer, hshort, hemitted, hloop⟩ :=
      parseMessage_stream hms hparse hfilled ⟨_, hstream⟩ [] (Nat.lt_succ_self _)
    rw [hbuffer, flatten_append, append_assoc] at hstream
    obtain ⟨emitted', hreceive, hemitted'⟩ :=
      ih (fun b hb => hms b (mem_append_right done hb)) hparse.of_append hfilled.of_append
        hshort (append_cancel_left hstream)
    refine ⟨emitted ++ emitted', ?_, ?_⟩
    · have hparsed : parseMessage (kept ++ chunk) = .ok (emitted, rest) := hloop
      simp only [OFMessageDecoder.receive, hparsed]
      show (OFMessageDecoder.receive rest chunks >>= _) = _
      rw [hreceive]
      rfl
    · rw [map_append, map_append, hemitted, hemitted']

/-- The parser consumes a message it returns exactly up to its length iff the
message fills its length; and a stream of messages that parse and fill their
lengths gives its messages, one for one and in order, however it is cut. -/
theorem framing_kept_iff_filled (b : List (BitVec 8)) (ms chunks : List (List (BitVec 8))) :
    (∀ (m : OFMessage) (n : ℕ), parseMessageOne b = .ok (some (m, n)) →
      (n = m.getLengthU ↔ Filled b)) ∧
    ((∀ b ∈ ms, IsMessage b) → chunks.flatten = ms.flatten →
      AtEveryMessage (fun b => ∃ r, parseMessageOne b = .ok r) ms → AtEveryMessage Filled ms →
      ∃ emitted, OFMessageDecoder.receive [] chunks = .ok (emitted, []) ∧
        emitted.map some = ms.map headerOf) := by
  refine ⟨fun m n h => consumed_eq_length_iff h, ?_⟩
  intro hms hstream hparse hfilled
  refine receive_stream hms hparse hfilled ?_ hstream
  intro b hb
  obtain ⟨m, t, hheader, -, -⟩ := hms b (mem_of_mem_head? hb)
  exact Nat.lt_of_lt_of_le (Nat.succ_pos 7) (readHeader_ok hheader).2

theorem framing_kept_iff_filled_echo :
    Filled [1, 0, 0, 8, 0, 0, 0, 1] ∧
    ∃ emitted,
      OFMessageDecoder.receive []
        [[1, 0, 0], [8, 0, 0, 0, 1, 1, 2, 0], [10, 0, 0, 0, 2, 0xca, 0xfe]] = .ok (emitted, []) ∧
      emitted.map some =
        [headerOf [1, 0, 0, 8, 0, 0, 0, 1], headerOf [1, 2, 0, 10, 0, 0, 0, 2, 0xca, 0xfe]] := by
  obtain ⟨hone, hall⟩ := framing_kept_iff_filled [1, 0, 0, 8, 0, 0, 0, 1]
    [[1, 0, 0, 8, 0, 0, 0, 1], [1, 2, 0, 10, 0, 0, 0, 2, 0xca, 0xfe]]
    [[1, 0, 0], [8, 0, 0, 0, 1, 1, 2, 0], [10, 0, 0, 0, 2, 0xca, 0xfe]]
  refine ⟨(hone ⟨1, some .hello, 8, 1⟩ 8 rfl).mp rfl, hall ?_ rfl ?_ ?_⟩
  · intro b hb
    obtain rfl | hb := mem_cons.mp hb
    · exact ⟨⟨1, some .hello, 8, 1⟩, .hello, rfl, rfl, rfl⟩
    · obtain rfl := mem_singleton.mp hb
      exact ⟨⟨1, some .echoRequest, 10, 2⟩, .echoRequest, rfl, rfl, rfl⟩
  · refine ⟨fun arrived _ => ⟨some (⟨1, some .hello, 8, 1⟩, 8), ?_⟩, fun arrived h => ?_, trivial⟩
    · exact parseMessageOne_of_body rfl rfl (length_append ▸ Nat.le_add_right 8 _) rfl
    · obtain rfl := prefix_nil.mp h
      exact ⟨_, rfl⟩
  · refine ⟨fun arrived _ => ?_, fun arrived _ => ?_, trivial⟩
    · exact ⟨⟨1, some .hello, 8, 1⟩, .hello, rfl, rfl, rfl⟩
    · exact ⟨⟨1, some .echoRequest, 10, 2⟩, .echoRequest, rfl, rfl, Nat.le_add_right 8 2⟩

/-- A hello of version 1.3 with its bitmap of versions, and an echo request: the
bitmap is taken for an error message, which takes half of the request with it. -/
theorem hello_elements_break_framing :
    IsMessage [4, 0, 0, 16, 0, 0, 0, 1, 0, 1, 0, 8, 0, 0, 0, 0x12] ∧
    IsMessage [1, 2, 0, 8, 0, 0, 0, 2] ∧
    parseMessageOne [4, 0, 0, 16, 0, 0, 0, 1, 0, 1, 0, 8, 0, 0, 0, 0x12] =
      .ok (some (⟨4, some .hello, 16, 1⟩, 8)) ∧
    OFMessageDecoder.receive []
        [[4, 0, 0, 16, 0, 0, 0, 1, 0, 1, 0, 8, 0, 0, 0, 0x12, 1, 2, 0, 8, 0, 0, 0, 2]] =
      .ok ([⟨4, some .hello, 16, 1⟩, ⟨0, some .error, 8, 0x12⟩], [0, 0, 0, 2]) :=
  ⟨⟨⟨4, some .hello, 16, 1⟩, .hello, rfl, rfl, rfl⟩,
    ⟨⟨1, some .echoRequest, 8, 2⟩, .echoRequest, rfl, rfl, rfl⟩, rfl, rfl⟩

end NctuSdn
