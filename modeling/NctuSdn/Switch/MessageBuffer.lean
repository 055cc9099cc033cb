/-
Messages on their way to a switch (`OFSwitchBase.write`, `flush`).

Single messages are put into a buffer of the thread, which goes to the channel when it is
full, when a message comes that is neither a packet-out nor a flow-mod, or on `flush`.  A
list of messages goes to the channel at once, past whatever is in the buffer.  The buffer
is cleared after it is handed over, so the channel has to read it before `write` returns.

A message may be written more than once, so what is followed is each time that one is
written: the messages are numbered in the order of the calls (`number`).
-/
import NctuSdn.OpenFlow.Messages
import Mathlib.Data.List.Nodup

namespace NctuSdn

open List

variable {M : Type*}

/-! ### Writing -/

/-- The buffer of the thread for the switch, which may be null, and the lists that have
been handed to the channel. -/
structure SwitchOutput (M : Type*) where
  msgBuffer : Option (List M)
  channel : List (List M)

def batchMaxSize : ℕ := 100

namespace SwitchOutput

variable (type : M → OFType)

def writeChannel (connected : Bool) (msglist : List M) (out : SwitchOutput M) : SwitchOutput M :=
  if connected then { out with channel := out.channel ++ [msglist] } else out

def write (connected : Bool) (m : M) (out : SwitchOutput M) : SwitchOutput M :=
  if connected then
    let msgBuffer := out.msgBuffer.getD [] ++ [m]
    if batchMaxSize ≤ msgBuffer.length ∨ (type m ≠ .packetOut ∧ type m ≠ .flowMod) then
      { writeChannel connected msgBuffer out with msgBuffer := some [] }
    else { out with msgBuffer := some msgBuffer }
  else out

def writeList (connected : Bool) (msglist : List M) (out : SwitchOutput M) : SwitchOutput M :=
  if connected then writeChannel connected msglist out else out

def flush (connected : Bool) (out : SwitchOutput M) : SwitchOutput M :=
  match out.msgBuffer with
  | none => out
  | some msglist =>
    if 0 < msglist.length then
      { writeChannel connected msglist out with msgBuffer := some [] }
    else out

end SwitchOutput

/-- A call of the thread. -/
inductive OutputCall (M : Type*)
  | write (m : M)
  | writeList (msglist : List M)
  | flush

namespace OutputCall

def messages : OutputCall M → List M
  | write m => [m]
  | writeList msglist => msglist
  | flush => []

def apply (type : M → OFType) (out : SwitchOutput M) : OutputCall M → SwitchOutput M
  | write m => out.write type true m
  | writeList msglist => out.writeList true msglist
  | flush => out.flush true

end OutputCall

/-- The messages of some calls, in the order of the calls. -/
def written (calls : List (OutputCall M)) : List M := calls.flatMap OutputCall.messages

/-- What some calls leave, from a thread that has not written to the switch. -/
def outputRun (type : M → OFType) (calls : List (OutputCall M)) : SwitchOutput M :=
  calls.foldl (OutputCall.apply type) ⟨none, []⟩

def SwitchOutput.sent (out : SwitchOutput M) : List M := out.channel.flatten

/-- The messages that wait in the buffer. -/
def SwitchOutput.pending (out : SwitchOutput M) : List M := out.msgBuffer.getD []

/-! ### What may overtake -/

namespace OutputCall

/-- How many messages wait after a call, if `n` have been waiting. -/
def waitingAfter (type : M → OFType) (n : ℕ) : OutputCall M → ℕ
  | write m =>
    if batchMaxSize ≤ n + 1 ∨ (type m ≠ .packetOut ∧ type m ≠ .flowMod) then 0 else n + 1
  | writeList _ => n
  | flush => 0

/-- The call does not pass by waiting messages. -/
def InTurn (n : ℕ) : OutputCall M → Prop
  | write _ => True
  | writeList msglist => msglist = [] ∨ n = 0
  | flush => True

end OutputCall

/-- No list is written while messages are waiting, from a time when `n` are. -/
def NoneOvertaken (type : M → OFType) : ℕ → List (OutputCall M) → Prop
  | _, [] => True
  | n, call :: calls => call.InTurn n ∧ NoneOvertaken type (call.waitingAfter type n) calls

/-! ### One call -/

section Step

variable (type : M → OFType) (out : SwitchOutput M)

theorem sent_writeChannel (msglist : List M) :
    (out.writeChannel true msglist).sent = out.sent ++ msglist := by
  unfold SwitchOutput.writeChannel SwitchOutput.sent
  rw [if_pos rfl, flatten_append]
  simp

theorem write_eq (m : M) :
    out.write type true m =
      if batchMaxSize ≤ out.pending.length + 1 ∨ (type m ≠ .packetOut ∧ type m ≠ .flowMod) then
        { out.writeChannel true (out.pending ++ [m]) with msgBuffer := some [] }
      else { out with msgBuffer := some (out.pending ++ [m]) } := by
  unfold SwitchOutput.write
  rw [if_pos rfl]
  dsimp only
  rw [length_append, length_singleton]
  rfl

theorem flush_spec : (out.flush true).sent = out.sent ++ out.pending ∧
    (out.flush true).pending = [] := by
  unfold SwitchOutput.flush
  rcases out with ⟨_ | _ | ⟨m, msglist⟩, channel⟩
  · exact ⟨(append_nil _).symm, rfl⟩
  · exact ⟨(append_nil _).symm, rfl⟩
  · dsimp only
    rw [if_pos (length_pos_of_ne_nil (cons_ne_nil m msglist))]
    exact ⟨sent_writeChannel _ _, rfl⟩

/-- **What a call can do**: keep a message back, send what is waiting and then its own
messages, or send its own messages past those that are waiting. -/
theorem apply_cases (call : OutputCall M) :
    ((call.apply type out).sent = out.sent ∧
      (call.apply type out).pending = out.pending ++ call.messages ∧
      call.waitingAfter type out.pending.length = out.pending.length + call.messages.length ∧
      call.InTurn out.pending.length) ∨
    ((call.apply type out).sent = out.sent ++ out.pending ++ call.messages ∧
      (call.apply type out).pending = [] ∧
      call.waitingAfter type out.pending.length = 0 ∧ call.InTurn out.pending.length) ∨
    (∃ msglist, call = .writeList msglist ∧
      (call.apply type out).sent = out.sent ++ msglist ∧
      (call.apply type out).pending = out.pending) := by
  cases call with
  | write m =>
    unfold OutputCall.apply OutputCall.waitingAfter
    dsimp only
    rw [write_eq]
    by_cases hdrain : batchMaxSize ≤ out.pending.length + 1 ∨
        (type m ≠ .packetOut ∧ type m ≠ .flowMod)
    · rw [if_pos hdrain, if_pos hdrain, append_assoc]
      exact .inr (.inl ⟨sent_writeChannel out _, rfl, rfl, trivial⟩)
    · rw [if_neg hdrain, if_neg hdrain]
      exact .inl ⟨rfl, rfl, rfl, trivial⟩
  | writeList msglist =>
    exact .inr (.inr ⟨msglist, rfl, sent_writeChannel out msglist, rfl⟩)
  | flush =>
    obtain ⟨hsent, hpending⟩ := flush_spec out
    refine .inr (.inl ⟨?_, hpending, rfl, trivial⟩)
    exact hsent.trans (append_nil _).symm

theorem length_pending_apply (call : OutputCall M) :
    (call.apply type out).pending.length = call.waitingAfter type out.pending.length := by
  obtain ⟨-, hpending, hwaiting, -⟩ | ⟨-, hpending, hwaiting, -⟩ |
    ⟨msglist, rfl, -, hpending⟩ := apply_cases type out call
  · rw [hpending, hwaiting, length_append]
  · rw [hpending, hwaiting, length_nil]
  · rw [hpending]
    rfl

theorem sent_prefix_apply (call : OutputCall M) : out.sent <+: (call.apply type out).sent := by
  obtain ⟨hsent, -⟩ | ⟨hsent, -⟩ | ⟨msglist, -, hsent, -⟩ := apply_cases type out call
  · exact ⟨[], by rw [hsent, append_nil]⟩
  · rw [hsent, append_assoc]
    exact prefix_append _ _
  · rw [hsent]
    exact prefix_append _ _

theorem length_apply (call : OutputCall M) :
    (call.apply type out).sent.length + (call.apply type out).pending.length =
      out.sent.length + out.pending.length + call.messages.length := by
  obtain ⟨hsent, hpending, -⟩ | ⟨hsent, hpending, -⟩ | ⟨msglist, rfl, hsent, hpending⟩ :=
    apply_cases type out call
  · rw [hsent, hpending, length_append, Nat.add_assoc]
  · rw [hsent, hpending, length_append, length_append, length_nil, Nat.add_zero]
  · rw [hsent, hpending, length_append, Nat.add_right_comm]
    rfl

theorem apply_inTurn {call : OutputCall M} (h : call.InTurn out.pending.length) :
    (call.apply type out).sent ++ (call.apply type out).pending =
      out.sent ++ out.pending ++ call.messages := by
  obtain ⟨hsent, hpending, -⟩ | ⟨hsent, hpending, -⟩ | ⟨msglist, rfl, hsent, hpending⟩ :=
    apply_cases type out call
  · rw [hsent, hpending, append_assoc]
  · rw [hsent, hpending, append_nil]
  · rw [hsent, hpending]
    rcases h with rfl | hnone
    · rw [append_nil]
      exact (append_nil _).symm
    · rw [length_eq_zero_iff.mp hnone, append_nil, append_nil]
      rfl

end Step

/-! ### All calls -/

theorem length_eq_of_concat_prefix {w l₁ l₂ : List M} {x : M} (hw : w.Nodup)
    (h₁ : l₁ ++ [x] <+: w) (h₂ : l₂ ++ [x] <+: w) : l₁.length = l₂.length := by
  have hget : ∀ {l : List M}, l ++ [x] <+: w → w[l.length]? = some x := by
    rintro l ⟨rest, rfl⟩
    rw [append_assoc]
    simp
  have hlt : l₁.length < w.length := (List.getElem?_eq_some_iff.mp (hget h₁)).1
  exact (List.getElem?_inj hlt hw).mp ((hget h₁).trans (hget h₂).symm)

section Run

variable {type : M → OFType} {out : SwitchOutput M} {calls : List (OutputCall M)}

theorem sent_prefix_foldl (type : M → OFType) (out : SwitchOutput M) (calls : List (OutputCall M)) :
    out.sent <+: (calls.foldl (OutputCall.apply type) out).sent := by
  induction calls generalizing out with
  | nil => exact prefix_rfl
  | cons call calls ih => exact (sent_prefix_apply type out call).trans (ih _)

/-- **In turn**: what has been sent and what waits is what has been written. -/
theorem sent_append_pending (h : NoneOvertaken type out.pending.length calls) :
    (calls.foldl (OutputCall.apply type) out).sent ++
        (calls.foldl (OutputCall.apply type) out).pending =
      out.sent ++ out.pending ++ written calls := by
  induction calls generalizing out with
  | nil => exact (append_nil _).symm
  | cons call calls ih =>
    obtain ⟨hturn, hrest⟩ := h
    rw [← length_pending_apply] at hrest
    rw [foldl_cons, ih hrest, apply_inTurn type out hturn, append_assoc]
    rfl

/-- **Out of turn**: if what is sent in the end begins as what is written, no list has
overtaken a message. -/
theorem noneOvertaken_of_begins {done : List M} (hnodup : (done ++ written calls).Nodup)
    (hlength : out.sent.length + out.pending.length = done.length)
    (h : (calls.foldl (OutputCall.apply type) out).sent <+: done ++ written calls) :
    NoneOvertaken type out.pending.length calls := by
  induction calls generalizing out done with
  | nil => trivial
  | cons call calls ih =>
    have hwritten : done ++ written (call :: calls) = done ++ call.messages ++ written calls :=
      (append_assoc _ _ _).symm
    rw [hwritten] at hnodup h
    constructor
    · obtain ⟨-, -, -, hturn⟩ | ⟨-, -, -, hturn⟩ | ⟨msglist, rfl, hsent, -⟩ :=
        apply_cases type out call
      · exact hturn
      · exact hturn
      · -- the last message of the list is sent as early as it is written
        obtain rfl | ⟨l, x, rfl⟩ := eq_nil_or_concat' msglist
        · exact .inl rfl
        · have hearly := (sent_prefix_foldl type _ calls).trans h
          have hlate : done ++ l ++ [x] <+:
              done ++ (OutputCall.writeList (l ++ [x])).messages ++ written calls := by
            rw [append_assoc done l]
            exact prefix_append _ _
          rw [hsent, ← append_assoc] at hearly
          have hsame := length_eq_of_concat_prefix hnodup hearly hlate
          rw [length_append, length_append] at hsame
          exact .inr (by omega)
    · rw [← length_pending_apply]
      refine ih hnodup ?_ h
      rw [length_apply, hlength, length_append]

theorem pending_foldl_flush (out : SwitchOutput M) (calls : List (OutputCall M)) :
    ((calls ++ [OutputCall.flush]).foldl (OutputCall.apply type) out).pending = [] := by
  rw [foldl_append]
  exact (flush_spec _).2

theorem noneOvertaken_append_flush (n : ℕ) (calls : List (OutputCall M)) :
    NoneOvertaken type n (calls ++ [.flush]) ↔ NoneOvertaken type n calls := by
  induction calls generalizing n with
  | nil => exact iff_of_true ⟨trivial, trivial⟩ trivial
  | cons call calls ih => exact and_congr_right fun _ => ih _

theorem sent_eq_written_iff (h : (written calls).Nodup)
    (hflushed : (outputRun type calls).pending = []) :
    (outputRun type calls).sent = written calls ↔ NoneOvertaken type 0 calls := by
  constructor
  · intro heq
    refine @noneOvertaken_of_begins M type ⟨none, []⟩ calls [] h rfl ?_
    exact heq ▸ prefix_rfl
  · intro hnone
    have hall := @sent_append_pending M type ⟨none, []⟩ calls hnone
    unfold outputRun at hflushed ⊢
    rw [hflushed, append_nil] at hall
    exact hall

end Run

/-! ### Each time that a message is written -/

/-- The calls with their messages numbered from `n` on. -/
def number : ℕ → List (OutputCall M) → List (OutputCall (M × ℕ))
  | _, [] => []
  | n, .write m :: calls => .write (m, n) :: number (n + 1) calls
  | n, .writeList msglist :: calls =>
    .writeList (msglist.zipIdx n) :: number (n + msglist.length) calls
  | n, .flush :: calls => .flush :: number n calls

theorem written_number (n : ℕ) (calls : List (OutputCall M)) :
    written (number n calls) = (written calls).zipIdx n := by
  induction calls generalizing n with
  | nil => rfl
  | cons call calls ih =>
    cases call with
    | write m => exact congrArg ((m, n) :: ·) (ih (n + 1))
    | writeList msglist =>
      have hrest := congrArg (msglist.zipIdx n ++ ·) (ih (n + msglist.length))
      exact hrest.trans zipIdx_append.symm
    | flush => exact ih n

theorem number_append_flush (n : ℕ) (calls : List (OutputCall M)) :
    number n (calls ++ [.flush]) = number n calls ++ [.flush] := by
  induction calls generalizing n with
  | nil => rfl
  | cons call calls ih =>
    cases call with
    | write m => exact congrArg (OutputCall.write (m, n) :: ·) (ih (n + 1))
    | writeList msglist =>
      exact congrArg (OutputCall.writeList (msglist.zipIdx n) :: ·) (ih (n + msglist.length))
    | flush => exact congrArg (OutputCall.flush :: ·) (ih n)

def SwitchOutput.plain (out : SwitchOutput (M × ℕ)) : SwitchOutput M :=
  ⟨out.msgBuffer.map (List.map Prod.fst), out.channel.map (List.map Prod.fst)⟩

theorem plain_writeChannel (out : SwitchOutput (M × ℕ)) (msglist : List (M × ℕ)) :
    (out.writeChannel true msglist).plain = out.plain.writeChannel true (msglist.map Prod.fst) := by
  unfold SwitchOutput.writeChannel SwitchOutput.plain
  rw [if_pos rfl, if_pos rfl, map_append]
  rfl

theorem pending_plain (out : SwitchOutput (M × ℕ)) :
    out.plain.pending = out.pending.map Prod.fst := by
  unfold SwitchOutput.pending SwitchOutput.plain
  cases out.msgBuffer <;> rfl

theorem plain_write (type : M → OFType) (out : SwitchOutput (M × ℕ)) (m : M) (n : ℕ) :
    (out.write (fun m => type m.1) true (m, n)).plain = out.plain.write type true m := by
  rw [write_eq, write_eq, pending_plain, length_map]
  split_ifs
  · have hchannel := plain_writeChannel out (out.pending ++ [(m, n)])
    rw [map_append] at hchannel
    exact congrArg (fun o : SwitchOutput M => { o with msgBuffer := some [] }) hchannel
  · unfold SwitchOutput.plain
    simp

theorem plain_flush (out : SwitchOutput (M × ℕ)) :
    (out.flush true).plain = out.plain.flush true := by
  rcases out with ⟨_ | _ | ⟨m, msglist⟩, channel⟩
  · rfl
  · rfl
  · exact congrArg (fun o : SwitchOutput M => { o with msgBuffer := some [] })
      (plain_writeChannel ⟨some (m :: msglist), channel⟩ (m :: msglist))

theorem plain_foldl_number (type : M → OFType) (n : ℕ) (calls : List (OutputCall M))
    (out : SwitchOutput (M × ℕ)) :
    ((number n calls).foldl (OutputCall.apply fun m => type m.1) out).plain =
      calls.foldl (OutputCall.apply type) out.plain := by
  induction calls generalizing n out with
  | nil => rfl
  | cons call calls ih =>
    cases call with
    | write m =>
      refine (ih _ _).trans ?_
      exact congrArg (calls.foldl (OutputCall.apply type)) (plain_write type out m n)
    | writeList msglist =>
      refine (ih _ _).trans ?_
      have hchannel := plain_writeChannel out (msglist.zipIdx n)
      rw [zipIdx_map_fst] at hchannel
      exact congrArg (calls.foldl (OutputCall.apply type)) hchannel
    | flush =>
      refine (ih _ _).trans ?_
      exact congrArg (calls.foldl (OutputCall.apply type)) (plain_flush out)

theorem nodup_zipIdx (l : List M) (n : ℕ) : (l.zipIdx n).Nodup := by
  refine List.Nodup.of_map Prod.snd ?_
  rw [zipIdx_map_snd]
  exact nodup_range'

theorem noneOvertaken_number (type : M → OFType) (k n : ℕ) (calls : List (OutputCall M)) :
    NoneOvertaken (fun m => type m.1) n (number k calls) ↔ NoneOvertaken type n calls := by
  induction calls generalizing k n with
  | nil => rfl
  | cons call calls ih =>
    cases call with
    | write | flush => exact and_congr_right fun _ => ih _ _
    | writeList msglist =>
      refine and_congr (or_congr_left ?_) (ih _ _)
      exact zipIdx_eq_nil_iff

/-- The messages are handed to the channel in the order of the calls. -/
def KeepsOrder (type : M → OFType) (calls : List (OutputCall M)) : Prop :=
  (outputRun (fun m => type m.1) (number 0 calls)).sent = written (number 0 calls)

theorem KeepsOrder.sent_eq {type : M → OFType} {calls : List (OutputCall M)}
    (h : KeepsOrder type calls) : (outputRun type calls).sent = written calls := by
  have hsent : ∀ out : SwitchOutput (M × ℕ), out.plain.sent = out.sent.map Prod.fst :=
    fun out => map_flatten.symm
  have hplain := plain_foldl_number type 0 calls ⟨none, []⟩
  have hfst := congrArg (List.map Prod.fst) h
  rw [written_number, zipIdx_map_fst, ← hsent] at hfst
  exact (congrArg SwitchOutput.sent hplain).symm.trans hfst

/-- **Messages keep their order** over all calls up to a flush exactly if no list is
written while messages are waiting. -/
theorem messages_keep_order_iff (type : M → OFType) (calls : List (OutputCall M)) :
    KeepsOrder type (calls ++ [.flush]) ↔ NoneOvertaken type 0 calls := by
  have hnodup : (written (number 0 (calls ++ [.flush]))).Nodup := by
    rw [written_number]
    exact nodup_zipIdx _ _
  have hflushed : (outputRun (fun m => type m.1) (number 0 (calls ++ [.flush]))).pending = [] := by
    rw [number_append_flush]
    exact pending_foldl_flush _ _
  unfold KeepsOrder
  rw [sent_eq_written_iff hnodup hflushed, noneOvertaken_number, noneOvertaken_append_flush]

/-- A flow-mod and then, in a list, the barrier that is to come after it. -/
def barrierAfterFlowMod : List (OutputCall OFType) :=
  [.write .flowMod, .writeList [.barrierRequest], .flush]

/-- The barrier is sent first. -/
theorem barrier_overtakes_flowMod :
    ¬ KeepsOrder id barrierAfterFlowMod ∧
      written barrierAfterFlowMod = [.flowMod, .barrierRequest] ∧
      (outputRun id barrierAfterFlowMod).sent = [.barrierRequest, .flowMod] := by
  exact ⟨fun h => absurd h.sent_eq (by decide), by decide, by decide⟩

end NctuSdn
