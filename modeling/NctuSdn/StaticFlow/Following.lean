/-
Static flows in the switches follow the table.

The messages that `StaticFlowEntryPusher` writes are commands about single
entries, so the entries of all switches are a table with the switch, the match
and the priority as its key.  The module takes too little out of it in two
cases: a row that is deactivated, and a row that moves to another switch with
its match and priority, leave the old entry behind.
-/
import NctuSdn.Lib.KeyedTable
import NctuSdn.StaticFlow.StaticFlowEntryPusher

namespace NctuSdn

open List Function Option

variable {T : Type}

/-! ### One entry of the maps -/

namespace StaticFlowEntryPusher

section Maps

variable {st : StaticFlowEntryPusher T}

def lookup (st : StaticFlowEntryPusher T) (dpid entry : T) : Option (Option OFFlowMod) :=
  (st.entriesFromStorage dpid).bind fun m => m entry

def Has (st : StaticFlowEntryPusher T) (dpid : T) : Prop := ∃ m, st.entriesFromStorage dpid = some m

/-- Two states that differ in the entries of one name at most. -/
structure SameBut (entry : T) (st st' : StaticFlowEntryPusher T) : Prop where
  lookup : ∀ dpid other, other ≠ entry → st'.lookup dpid other = st.lookup dpid other
  entry2dpid : ∀ other, other ≠ entry → st'.entry2dpid other = st.entry2dpid other
  has : ∀ dpid, st.Has dpid → st'.Has dpid

theorem SameBut.refl (entry : T) (st : StaticFlowEntryPusher T) : SameBut entry st st :=
  ⟨fun _ _ _ => rfl, fun _ _ => rfl, fun _ h => h⟩

theorem SameBut.trans {entry : T} {st st' st'' : StaticFlowEntryPusher T}
    (h : SameBut entry st st') (h' : SameBut entry st' st'') : SameBut entry st st'' where
  lookup dpid other hne := (h'.lookup dpid other hne).trans (h.lookup dpid other hne)
  entry2dpid other hne := (h'.entry2dpid other hne).trans (h.entry2dpid other hne)
  has dpid hd := h'.has dpid (h.has dpid hd)

/-- What the maps should say about a name: the switch and the flow mod of its
row, whatever the command in it was last set to. -/
def Tracked (st : StaticFlowEntryPusher T) (entry : T) : Option (T × OFFlowMod) → Prop
  | none => st.entry2dpid entry = none
  | some (dpid, flowMod) => st.entry2dpid entry = some dpid ∧
      ∃ c, st.lookup dpid entry = some (some { flowMod with command := c })

theorem Tracked.of_sameBut {entry other : T} {st st' : StaticFlowEntryPusher T}
    {flow : Option (T × OFFlowMod)} (h : st.Tracked other flow) (hsame : SameBut entry st st')
    (hne : other ≠ entry) : st'.Tracked other flow := by
  cases flow with
  | none => exact (hsame.entry2dpid other hne).trans h
  | some flow =>
    refine ⟨(hsame.entry2dpid other hne).trans h.1, ?_⟩
    obtain ⟨c, hc⟩ := h.2
    exact ⟨c, (hsame.lookup _ other hne).trans hc⟩

end Maps

variable [DecidableEq T] {st : StaticFlowEntryPusher T}

theorem has_ensure (st : StaticFlowEntryPusher T) (dpid : T) : (st.ensure dpid).Has dpid := by
  unfold ensure
  cases h : st.entriesFromStorage dpid with
  | some m => exact ⟨m, h⟩
  | none => exact ⟨_, update_self ..⟩

theorem lookup_ensure (st : StaticFlowEntryPusher T) (d dpid entry : T) :
    (st.ensure d).lookup dpid entry = st.lookup dpid entry := by
  unfold ensure
  cases h : st.entriesFromStorage d with
  | some m => rfl
  | none =>
    unfold lookup
    by_cases hd : dpid = d
    · subst hd
      dsimp only
      rw [update_self, h]
      rfl
    · dsimp only
      rw [update_of_ne hd]

theorem ensure_keeps (st : StaticFlowEntryPusher T) (d : T) :
    (st.ensure d).entry2dpid = st.entry2dpid ∧ (st.ensure d).written = st.written := by
  unfold ensure
  cases st.entriesFromStorage d <;> exact ⟨rfl, rfl⟩

theorem sameBut_ensure (entry : T) (st : StaticFlowEntryPusher T) (d : T) :
    SameBut entry st (st.ensure d) where
  lookup dpid other _ := lookup_ensure st d dpid other
  entry2dpid other _ := congrFun (ensure_keeps st d).1 other
  has dpid hd := by
    obtain ⟨m, hm⟩ := hd
    unfold ensure
    cases h : st.entriesFromStorage d with
    | some m => exact ⟨_, hm⟩
    | none =>
      have hne : dpid ≠ d := by
        rintro rfl
        rw [h] at hm
        cases hm
      exact ⟨m, (update_of_ne hne ..).trans hm⟩

theorem setEntry_spec {dpid : T} (h : st.Has dpid) (entry : T) (v : Option (Option OFFlowMod)) :
    ∃ st', st.setEntry dpid entry v = .ok st' ∧ SameBut entry st st' ∧
      st'.lookup dpid entry = v ∧ st'.entry2dpid = st.entry2dpid ∧ st'.written = st.written := by
  obtain ⟨m, hm⟩ := h
  refine ⟨⟨Function.update st.entriesFromStorage dpid (some (Function.update m entry v)),
    st.entry2dpid, st.written⟩, ?_, ⟨?_, fun _ _ => rfl, ?_⟩, ?_, rfl, rfl⟩
  · unfold setEntry inner
    rw [hm]
    rfl
  · intro d other hne
    unfold lookup
    by_cases hd : d = dpid
    · subst hd
      dsimp only
      rw [update_self, hm]
      exact update_of_ne hne ..
    · dsimp only
      rw [update_of_ne hd]
  · rintro d ⟨m', hm'⟩
    by_cases hd : d = dpid
    · subst hd
      exact ⟨_, update_self ..⟩
    · exact ⟨m', (update_of_ne hd ..).trans hm'⟩
  · unfold lookup
    dsimp only
    rw [update_self]
    exact update_self ..

end StaticFlowEntryPusher

variable (parser : TextParser T)

/-! ### The entries of the switches -/

/-- Where an entry is: the switch, the match and the priority. -/
abbrev EntryKey := SwitchId × OFMatch × BitVec 16

/-- The key of the entry that a message is about. -/
def entryKey (sw : SwitchId) (flowMod : OFFlowMod) : EntryKey :=
  (sw, flowMod.ofMatch, flowMod.priority)

/-- What the messages that are written here do: ADD and MODIFY_STRICT set the
entry of the same match and priority, DELETE_STRICT without an output port
removes it. -/
def applyStrict (t : EntryKey → Option (List OFAction)) (msg : SwitchId × OFFlowMod) :
    EntryKey → Option (List OFAction) :=
  if msg.2.command = ofpfcAdd ∨ msg.2.command = ofpfcModifyStrict then
    Function.update t (entryKey msg.1 msg.2) (some msg.2.actions)
  else if msg.2.command = ofpfcDeleteStrict ∧ msg.2.outPort = ofppNone then
    Function.update t (entryKey msg.1 msg.2) none
  else t

/-- The entries of all switches, which had none at first. -/
def entriesAfter (written : List (SwitchId × OFFlowMod)) : EntryKey → Option (List OFAction) :=
  written.foldl applyStrict fun _ => none

/-- The switch and the flow mod of a row that is active. -/
def flowOf (row : FlowRow T) : Option (T × OFFlowMod) :=
  match ParsedRow.ofRow parser row with
  | .ok (.flow switchName _ flowMod) => some (switchName, flowMod)
  | _ => none

def activeFlow (storage : FlowStorage T) (name : T) : Option (T × OFFlowMod) :=
  (storage name).bind (flowOf parser)

def onSwitch (flow : T × OFFlowMod) : Option (SwitchId × OFFlowMod) :=
  match parser.toLong flow.1 with
  | .ok sw => some (sw, flow.2)
  | .error _ => none

def entryOf (flow : SwitchId × OFFlowMod) : EntryKey × List OFAction :=
  (entryKey flow.1 flow.2, flow.2.actions)

/-- The entries that the rows of a table should have, by their names. -/
def desired (storage : FlowStorage T) (name : T) : Option (EntryKey × List OFAction) :=
  ((activeFlow parser storage name).bind (onSwitch parser)).map entryOf

/-! ### Histories -/

section Histories

variable [DecidableEq T]

/-- A change of a row. -/
inductive RowChange (T : Type)
  | put (name : T) (row : FlowRow T)
  | delete (name : T)

/-- The table and the module. -/
structure StaticFlowSystem (T : Type) where
  storage : FlowStorage T
  pusher : StaticFlowEntryPusher T

def StaticFlowSystem.init : StaticFlowSystem T := ⟨fun _ => none, .init⟩

/-- A row changes, and the module is told. -/
def StaticFlowSystem.step (s : StaticFlowSystem T) :
    RowChange T → Except JavaException (StaticFlowSystem T)
  | .put name row => do
      let storage := Function.update s.storage name (some row)
      let pusher ← s.pusher.rowsModified parser storage [name]
      return ⟨storage, pusher⟩
  | .delete name => do
      let pusher ← s.pusher.rowsDeleted parser [name]
      return ⟨Function.update s.storage name none, pusher⟩

def StaticFlowSystem.run (s : StaticFlowSystem T) (changes : List (RowChange T)) :
    Except JavaException (StaticFlowSystem T) :=
  changes.foldlM (StaticFlowSystem.step parser) s

def RowChange.apply (storage : FlowStorage T) : RowChange T → FlowStorage T
  | .put name row => Function.update storage name (some row)
  | .delete name => Function.update storage name none

def ParsedRow.switchName : ParsedRow T → Option T
  | .skipped => none
  | .illegalMatch s => some s
  | .inactive s _ => some s
  | .flow s _ _ => some s

/-- What a single row asks for. -/
def ParsedRow.entries : ParsedRow T → EntryMap T
  | .skipped => []
  | .illegalMatch s => [(s, [])]
  | .inactive s n => [(s, [(n, none)])]
  | .flow s n flowMod => [(s, [(n, some flowMod)])]

/-- The row is stored under its name, and its texts can be read. -/
def Readable (name : T) (row : FlowRow T) : Prop :=
  row.lookup .name = some name ∧
    ∃ parsed, ParsedRow.ofRow parser row = .ok parsed ∧
      ∀ s, parsed.switchName = some s → ∃ sw, parser.toLong s = .ok sw

/-- A change that leaves no entry behind: an active row stays active, and if
it moves to another switch it gets another match or priority. -/
def RowChange.Clean (storage : FlowStorage T) : RowChange T → Prop
  | .put name row => Readable parser name row ∧
      ∀ d flowMod, activeFlow parser storage name = some (d, flowMod) →
        ∃ d' flowMod', flowOf parser row = some (d', flowMod') ∧
          (parser.toLong d' = parser.toLong d ∨ flowMod'.ofMatch ≠ flowMod.ofMatch ∨
            flowMod'.priority ≠ flowMod.priority)
  | .delete _ => True

/-- A history of clean changes, with distinct entries all the time. -/
def CleanRun : FlowStorage T → List (RowChange T) → Prop
  | _, [] => True
  | storage, change :: changes =>
    change.Clean parser storage ∧
      KeyedTable.DistinctKeys (desired parser (change.apply storage)) ∧
      CleanRun (change.apply storage) changes

end Histories

/-! ### One change -/

section Parsing

variable {parser}

/-- What `initDefaultFlowMod` has set and no column of a row changes. -/
structure KeepsDefaults (parser : TextParser T) (entryName : T) (flowMod : OFFlowMod) : Prop where
  command : flowMod.command = ofpfcAdd
  outPort : flowMod.outPort = ofppNone
  flags : flowMod.flags = 0
  cookie : flowMod.cookie = parser.computeEntryCookie entryName

theorem readColumns_keeps {entryName : T} {row : FlowRow T} {flowMod flowMod' : OFFlowMod}
    {ms ms' : List (MatchColumn × T)} (hd : KeepsDefaults parser entryName flowMod)
    (h : readColumns parser entryName row (flowMod, ms) = .ok (some (flowMod', ms'))) :
    KeepsDefaults parser entryName flowMod' := by
  induction row generalizing flowMod ms with
  | nil =>
    cases h
    exact hd
  | cons c row ih =>
    obtain ⟨column, text⟩ := c
    cases column with
    | active =>
      simp only [readColumns] at h
      split at h
      · exact ih hd h
      · cases h
    | actions | priority =>
      rw [readColumns] at h
      obtain ⟨_, -, h⟩ := exists_of_bind_eq_ok h
      refine ih ?_ h
      exact ⟨hd.command, hd.outPort, hd.flags, hd.cookie⟩
    | cookie =>
      -- the number in the column is read and thrown away
      rw [readColumns] at h
      obtain ⟨_, -, h⟩ := exists_of_bind_eq_ok h
      refine ih ?_ h
      exact ⟨hd.command, hd.outPort, hd.flags, rfl⟩
    | _ =>
      rw [readColumns] at h
      exact ih hd h

theorem ParsedRow.ofRow_spec {row : FlowRow T} {parsed : ParsedRow T}
    (h : ParsedRow.ofRow parser row = .ok parsed) :
    match parsed with
    | .skipped => True
    | .illegalMatch _ => True
    | .inactive _ n => row.lookup .name = some n
    | .flow _ n flowMod => row.lookup .name = some n ∧ KeepsDefaults parser n flowMod := by
  unfold ParsedRow.ofRow at h
  split at h
  · next switchName entryName hs hn =>
    rcases hcolumns : readColumns parser entryName row (initDefaultFlowMod parser entryName, [])
      with e | _ | ⟨flowMod, ms⟩
    · rw [hcolumns] at h
      cases h
    · rw [hcolumns] at h
      cases h
      exact hn
    · rw [hcolumns] at h
      dsimp only [bind, Except.bind] at h
      split at h
      · cases h
        have hd := readColumns_keeps ⟨rfl, rfl, rfl, rfl⟩ hcolumns
        exact ⟨hn, hd.command, hd.outPort, hd.flags, hd.cookie⟩
      · cases h
        trivial
      · cases h
  · cases h
    trivial

end Parsing

namespace StaticFlowEntryPusher

variable {parser} {st : StaticFlowEntryPusher T} {sw : SwitchId}

theorem write_spec (st : StaticFlowEntryPusher T) {dpid : T} (hsw : parser.toLong dpid = .ok sw)
    (entry : T) (messages : List OFFlowMod) :
    ∃ st', st.write parser dpid messages = .ok st' ∧ SameBut entry st st' ∧
      (∀ flow, st.Tracked entry flow → st'.Tracked entry flow) ∧
      st'.written = st.written ++ messages.map fun msg => (sw, msg) := by
  unfold write
  rw [hsw]
  refine ⟨_, rfl, ⟨fun _ _ _ => rfl, fun _ _ => rfl, fun _ h => h⟩, fun flow h => ?_, rfl⟩
  cases flow with
  | none => exact h
  | some flow => exact h

variable [DecidableEq T]

theorem takeOld_spec {entry : T} {flow : Option (T × OFFlowMod)} (h : st.Tracked entry flow) :
    ∃ c st', st.takeOld entry =
        .ok (flow.map fun f => (f.1, { f.2 with command := c }), st') ∧
      SameBut entry st st' ∧ st'.written = st.written := by
  unfold takeOld
  cases flow with
  | none =>
    have hnone : st.entry2dpid entry = none := h
    rw [hnone]
    exact ⟨0, st, rfl, .refl entry st, rfl⟩
  | some flow =>
    obtain ⟨hdpid, c, hlookup⟩ := h
    obtain ⟨m, hm, hentry⟩ := bind_eq_some_iff.mp hlookup
    obtain ⟨st', hset, hsame, -, -, hwritten⟩ := setEntry_spec ⟨m, hm⟩ entry none
    rw [hdpid]
    refine ⟨c, st', ?_, hsame, hwritten⟩
    dsimp only
    unfold inner
    rw [hm, hset]
    show Except.ok ((m entry).join.map _, st') = _
    rw [hentry]
    rfl

/-- The messages that lead from the old flow of a name to the new one. -/
def transition (old : Option (SwitchId × OFFlowMod)) (new : Option (SwitchId × OFFlowMod)) :
    List (SwitchId × OFFlowMod) :=
  match old, new with
  | _, none => []
  | none, some new => [new]
  | some old, some new =>
    if old.2.ofMatch = new.2.ofMatch ∧ old.2.cookie = new.2.cookie ∧
        old.2.priority = new.2.priority then
      [(new.1, { new.2 with command := ofpfcModifyStrict })]
    else [(old.1, { old.2 with command := ofpfcDeleteStrict }), new]

theorem sameBut_entry2dpid (entry : T) (st : StaticFlowEntryPusher T) (v : Option T) :
    SameBut entry st { st with entry2dpid := Function.update st.entry2dpid entry v } where
  lookup _ _ _ := rfl
  entry2dpid _ hne := update_of_ne hne ..
  has _ h := h

/-- The last steps for a name: its flow mod goes into the map of the switch,
or out of it, and the switch of the name is noted. -/
theorem note_spec {dpid : T} (hhas : st.Has dpid) (entry : T) (new : Option OFFlowMod)
    (c : BitVec 16) :
    ∃ st₁, st.setEntry dpid entry (new.map fun fm => some { fm with command := c }) = .ok st₁ ∧
      Tracked { st₁ with
        entry2dpid := Function.update st₁.entry2dpid entry (new.map fun _ => dpid) } entry
        (new.map fun fm => (dpid, fm)) ∧
      SameBut entry st { st₁ with
        entry2dpid := Function.update st₁.entry2dpid entry (new.map fun _ => dpid) } ∧
      st₁.written = st.written := by
  obtain ⟨st₁, hset, hsame, hlookup, -, hwritten⟩ :=
    setEntry_spec hhas entry (new.map fun fm => some { fm with command := c })
  refine ⟨st₁, hset, ?_, hsame.trans (sameBut_entry2dpid ..), hwritten⟩
  cases new with
  | none => exact update_self ..
  | some fm => exact ⟨update_self .., c, hlookup⟩

/-- One entry has been changed to a new flow: what has been written and what is
in the queue for its switch are the messages of the change. -/
def Modifies (st : StaticFlowEntryPusher T) (dpid : T) (sw : SwitchId) (entry : T)
    (new : Option OFFlowMod) (messages : List (SwitchId × OFFlowMod))
    (outcome : Except JavaException (StaticFlowEntryPusher T × List OFFlowMod)) : Prop :=
  ∃ st' outQueue, outcome = .ok (st', outQueue) ∧
    st'.Tracked entry (new.map fun fm => (dpid, fm)) ∧ SameBut entry st st' ∧
    st'.written ++ outQueue.map (fun msg => (sw, msg)) = st.written ++ messages

/-- A new flow mod is noted and put into the queue, behind what is written and
in the queue so far. -/
theorem modifies_note {st₁ : StaticFlowEntryPusher T} {dpid entry : T} {outQueue : List OFFlowMod}
    {messages : List (SwitchId × OFFlowMod)} (hsame : SameBut entry st st₁) (hhas : st.Has dpid)
    (hwritten : st₁.written ++ outQueue.map (fun msg => (sw, msg)) = st.written ++ messages)
    (fm : OFFlowMod) (c : BitVec 16) :
    Modifies st dpid sw entry (some fm) (messages ++ [(sw, { fm with command := c })]) (do
      let st ← st₁.setEntry dpid entry (some (some { fm with command := c }))
      return ({ st with entry2dpid := Function.update st.entry2dpid entry (some dpid) },
        outQueue ++ [{ fm with command := c }])) := by
  obtain ⟨st₂, hset, htracked, hsame₂, hwritten₂⟩ :=
    note_spec (hsame.has dpid hhas) entry (some fm) c
  refine ⟨_, outQueue ++ [{ fm with command := c }], ?_, htracked, hsame.trans hsame₂, ?_⟩
  · rw [show st₁.setEntry dpid entry (some (some { fm with command := c })) = .ok st₂ from hset]
    rfl
  · show st₂.written ++ _ = _
    rw [hwritten₂, map_append, ← append_assoc, hwritten, append_assoc]
    rfl

section

variable {entry dpid : T} {old : Option (T × OFFlowMod)} {new : Option OFFlowMod}
  (h : st.Tracked entry old)
include h

/-- One entry of a notification.  The queue and what is written at once make up
the transition. -/
theorem modifyEntry_spec (hhas : st.Has dpid) (hsw : parser.toLong dpid = .ok sw)
    (hkept : new = none → old = none)
    (hold : ∀ d fm, old = some (d, fm) → ∃ sw₀, parser.toLong d = .ok sw₀) :
    Modifies st dpid sw entry new
      (transition (old.bind (onSwitch parser)) (new.map fun fm => (sw, fm)))
      (modifyEntry parser dpid (st, []) (entry, new)) := by
  obtain ⟨c, st₁, htake, hsame₁, hwritten₁⟩ := takeOld_spec h
  have hnothing : st₁.written ++ ([] : List OFFlowMod).map (fun msg => (sw, msg)) =
      st.written ++ [] := by
    rw [hwritten₁]
    rfl
  unfold modifyEntry
  rw [htake]
  cases new with
  | none =>
    rw [hkept rfl]
    obtain ⟨st₂, hset, htracked, hsame₂, hwritten₂⟩ :=
      note_spec (hsame₁.has dpid hhas) entry none 0
    refine ⟨_, [], ?_, htracked, hsame₁.trans hsame₂, ?_⟩
    · show (st₁.setEntry dpid entry none >>= _) = _
      rw [show st₁.setEntry dpid entry none = .ok st₂ from hset]
      rfl
    · show st₂.written ++ [] = st.written ++ []
      rw [hwritten₂, hwritten₁]
  | some fm =>
    cases old with
    | none => exact modifies_note hsame₁ hhas hnothing fm fm.command
    | some old =>
      obtain ⟨d, fm₀⟩ := old
      obtain ⟨sw₀, hsw₀⟩ := hold d fm₀ rfl
      have honSwitch : onSwitch parser (d, fm₀) = some (sw₀, fm₀) := by
        rw [onSwitch, hsw₀]
      rw [bind_some, honSwitch]
      dsimp only [transition, map_some, bind, Except.bind]
      split
      · -- the entry is modified where it is
        exact modifies_note hsame₁ hhas hnothing fm ofpfcModifyStrict
      · -- the old entry is deleted, by the queue or at once
        split
        next hd =>
          subst hd
          obtain rfl := Except.ok.inj (hsw₀.symm.trans hsw)
          have hqueue : st₁.written ++
              [{ fm₀ with command := ofpfcDeleteStrict }].map (fun msg => (sw₀, msg)) =
              st.written ++ [(sw₀, { fm₀ with command := ofpfcDeleteStrict })] := by
            rw [hwritten₁]
            rfl
          exact modifies_note hsame₁ hhas hqueue fm fm.command
        next hd =>
          obtain ⟨st₁', hst₁', hsame₁', -, hwritten₁'⟩ := write_spec st₁ hsw₀ entry
            [{ fm₀ with command := ofpfcDeleteStrict }]
          have hqueue : st₁'.written ++ ([] : List OFFlowMod).map (fun msg => (sw, msg)) =
              st.written ++ [(sw₀, { fm₀ with command := ofpfcDeleteStrict })] := by
            rw [hwritten₁', hwritten₁]
            exact append_nil _
          rw [hst₁']
          exact modifies_note (hsame₁.trans hsame₁') hhas hqueue fm fm.command

theorem modifySwitch_spec (hsw : parser.toLong dpid = .ok sw) (hkept : new = none → old = none)
    (hold : ∀ d fm, old = some (d, fm) → ∃ sw₀, parser.toLong d = .ok sw₀) :
    ∃ st', st.modifySwitch parser (dpid, [(entry, new)]) = .ok st' ∧
      st'.Tracked entry (new.map fun fm => (dpid, fm)) ∧ SameBut entry st st' ∧
      st'.written =
        st.written ++ transition (old.bind (onSwitch parser)) (new.map fun fm => (sw, fm)) := by
  have htracked : (st.ensure dpid).Tracked entry old := by
    cases old with
    | none => exact (congrFun (ensure_keeps st dpid).1 entry).trans h
    | some old =>
      obtain ⟨hdpid, c, hlookup⟩ := h
      exact ⟨(congrFun (ensure_keeps st dpid).1 entry).trans hdpid, c,
        (lookup_ensure ..).trans hlookup⟩
  obtain ⟨st₁, outQueue, hmodify, htracked₁, hsame₁, hwritten₁⟩ :=
    modifyEntry_spec htracked (has_ensure st dpid) hsw hkept hold
  obtain ⟨st₂, hwrite, hsame₂, htracked₂, hwritten₂⟩ := write_spec st₁ hsw entry outQueue
  refine ⟨st₂, ?_, htracked₂ _ htracked₁,
    ((sameBut_ensure entry st dpid).trans hsame₁).trans hsame₂, ?_⟩
  · unfold modifySwitch
    rw [foldlM_cons, hmodify]
    exact hwrite
  · rw [hwritten₂, hwritten₁, (ensure_keeps st dpid).2]

end

theorem rowsModified_eq {storage : FlowStorage T} {name : T} {row : FlowRow T}
    {parsed : ParsedRow T} (hrow : storage name = some row)
    (hparsed : ParsedRow.ofRow parser row = .ok parsed) :
    st.rowsModified parser storage [name] =
      parsed.entries.foldlM (modifySwitch parser) st := by
  have hentries : parseStaticRow parser row [] = .ok parsed.entries := by
    unfold parseStaticRow
    rw [hparsed]
    cases parsed <;> rfl
  unfold rowsModified
  rw [foldlM_cons, hrow]
  dsimp only
  rw [hentries]
  rfl

theorem rowsModified_spec {storage : FlowStorage T} {name : T} {row : FlowRow T}
    {old : Option (T × OFFlowMod)} (h : st.Tracked name old) (hrow : storage name = some row)
    (hread : Readable parser name row) (hkept : flowOf parser row = none → old = none)
    (hold : ∀ d fm, old = some (d, fm) → ∃ sw₀, parser.toLong d = .ok sw₀) :
    ∃ st', st.rowsModified parser storage [name] = .ok st' ∧
      st'.Tracked name (flowOf parser row) ∧ SameBut name st st' ∧
      st'.written = st.written ++
        transition (old.bind (onSwitch parser)) ((flowOf parser row).bind (onSwitch parser)) := by
  obtain ⟨hname, parsed, hparsed, hswitch⟩ := hread
  have hspec := ParsedRow.ofRow_spec hparsed
  rw [rowsModified_eq hrow hparsed]
  unfold flowOf at hkept ⊢
  rw [hparsed] at hkept ⊢
  cases parsed with
  | skipped =>
    obtain rfl : old = none := hkept rfl
    exact ⟨st, rfl, h, .refl name st, (append_nil _).symm⟩
  | illegalMatch s =>
    -- only an empty map for the switch is left behind
    obtain rfl : old = none := hkept rfl
    obtain ⟨sw, hsw⟩ := hswitch s rfl
    obtain ⟨st', hwrite, hsame, htracked, hwritten⟩ := write_spec (st.ensure s) hsw name []
    refine ⟨st', ?_, htracked none ?_, (sameBut_ensure name st s).trans hsame, ?_⟩
    · rw [ParsedRow.entries, foldlM_cons, modifySwitch]
      show (st.ensure s).write parser s [] >>= _ = _
      rw [hwrite]
      rfl
    · exact (congrFun (ensure_keeps st s).1 name).trans h
    · rw [hwritten, (ensure_keeps st s).2]
      rfl
  | inactive s n =>
    obtain rfl : name = n := some.inj (hname.symm.trans hspec)
    obtain ⟨sw, hsw⟩ := hswitch s rfl
    obtain ⟨st', hmodify, htracked, hsame, hwritten⟩ :=
      modifySwitch_spec h hsw (fun _ : (none : Option OFFlowMod) = none => hkept rfl) hold
    refine ⟨st', ?_, htracked, hsame, hwritten⟩
    rw [ParsedRow.entries, foldlM_cons, hmodify]
    rfl
  | flow s n fm =>
    obtain rfl : name = n := some.inj (hname.symm.trans hspec.1)
    obtain ⟨sw, hsw⟩ := hswitch s rfl
    obtain ⟨st', hmodify, htracked, hsame, hwritten⟩ :=
      modifySwitch_spec h hsw (fun hnone : some fm = none => nomatch hnone) hold
    refine ⟨st', ?_, htracked, hsame, ?_⟩
    · rw [ParsedRow.entries, foldlM_cons, hmodify]
      rfl
    · rw [hwritten, bind_some, onSwitch, hsw]
      rfl

/-- The messages that remove the flow of a name. -/
def removal : Option (SwitchId × OFFlowMod) → List (SwitchId × OFFlowMod)
  | none => []
  | some old => [(old.1, { old.2 with command := ofpfcDeleteStrict })]

theorem rowsDeleted_spec {name : T} {old : Option (T × OFFlowMod)} (h : st.Tracked name old)
    (hold : ∀ d fm, old = some (d, fm) → ∃ sw₀, parser.toLong d = .ok sw₀) :
    ∃ st', st.rowsDeleted parser [name] = .ok st' ∧ st'.Tracked name none ∧
      SameBut name st st' ∧
      st'.written = st.written ++ removal (old.bind (onSwitch parser)) := by
  suffices hdelete : ∃ st', st.deleteStaticFlowEntry parser name = .ok st' ∧
      st'.Tracked name none ∧ SameBut name st st' ∧
      st'.written = st.written ++ removal (old.bind (onSwitch parser)) by
    obtain ⟨st', hst', hrest⟩ := hdelete
    refine ⟨st', ?_, hrest⟩
    rw [rowsDeleted, foldlM_cons, hst']
    rfl
  unfold deleteStaticFlowEntry
  cases old with
  | none =>
    have hnone : st.entry2dpid name = none := h
    rw [hnone]
    exact ⟨st, rfl, h, .refl name st, (append_nil _).symm⟩
  | some flow =>
    obtain ⟨d, fm⟩ := flow
    obtain ⟨hdpid, c, hlookup⟩ := h
    obtain ⟨sw, hsw⟩ := hold d fm rfl
    obtain ⟨m, hm, hentry⟩ := bind_eq_some_iff.mp hlookup
    have hhas : Has { st with entry2dpid := Function.update st.entry2dpid name none } d :=
      ⟨m, hm⟩
    obtain ⟨st₁, hset, hsame₁, -, hdpid₁, hwritten₁⟩ := setEntry_spec hhas name none
    obtain ⟨st₂, hwrite, hsame₂, htracked₂, hwritten₂⟩ :=
      write_spec st₁ hsw name [{ fm with command := ofpfcDeleteStrict }]
    rw [hdpid]
    refine ⟨st₂, ?_, htracked₂ none ?_,
      ((sameBut_entry2dpid name st none).trans hsame₁).trans hsame₂, ?_⟩
    · dsimp only
      unfold inner
      rw [hm]
      dsimp only [bind, Except.bind]
      rw [hentry, hset]
      exact hwrite
    · exact (congrFun hdpid₁ name).trans (update_self ..)
    · rw [hwritten₂, hwritten₁, bind_some, onSwitch, hsw]
      rfl

end StaticFlowEntryPusher

/-! ### The table follows -/

section Tables

open KeyedTable StaticFlowEntryPusher

variable [DecidableEq T] {F : T → Option (EntryKey × List OFAction)}
  {t : EntryKey → Option (List OFAction)} {name : T} {old new : Option (SwitchId × OFFlowMod)}

theorem applyStrict_delete {old : SwitchId × OFFlowMod} (hport : old.2.outPort = ofppNone) :
    applyStrict t (old.1, { old.2 with command := ofpfcDeleteStrict }) =
      Function.update t (entryKey old.1 old.2) none := by
  have hcommand : ¬ (ofpfcDeleteStrict = ofpfcAdd ∨ ofpfcDeleteStrict = ofpfcModifyStrict) := by
    decide
  unfold applyStrict
  rw [if_neg hcommand, if_pos ⟨rfl, hport⟩]
  rfl

theorem represents_transition (h : Represents F t) (hF : DistinctKeys F)
    (hold : F name = old.map entryOf)
    (hF' : DistinctKeys (Function.update F name (new.map entryOf)))
    (hkept : new = none → old = none) (hadd : ∀ f, new = some f → f.2.command = ofpfcAdd)
    (hport : ∀ f, old = some f → f.2.outPort = ofppNone)
    (hmoved : ∀ f f', old = some f → new = some f' → f.2.ofMatch = f'.2.ofMatch →
      f.2.priority = f'.2.priority → f.1 = f'.1) :
    Represents (Function.update F name (new.map entryOf))
      ((transition old new).foldl applyStrict t) := by
  cases new with
  | none =>
    obtain rfl : old = none := hkept rfl
    rw [show Function.update F name (Option.map entryOf none) = F from
      update_eq_self_iff.mpr hold.symm]
    exact h
  | some new =>
    have hput : ∀ t, applyStrict t new =
        Function.update t (entryKey new.1 new.2) (some new.2.actions) := by
      intro t
      unfold applyStrict
      rw [if_pos (.inl (hadd new rfl))]
    cases old with
    | none =>
      show Represents _ (applyStrict t new)
      rw [hput]
      exact h.put hold hF'
    | some old =>
      have hreplace : Represents (Function.update F name (some (entryOf new)))
          (Function.update (Function.update t (entryKey old.1 old.2) none)
            (entryKey new.1 new.2) (some new.2.actions)) := h.replace hF hold hF'
      unfold transition
      dsimp only
      split
      · -- the same key, so that the entry is set where it is
        next hsame =>
        have hkey : entryKey new.1 new.2 = entryKey old.1 old.2 := by
          unfold entryKey
          rw [hmoved old new rfl rfl hsame.1 hsame.2.2, hsame.1, hsame.2.2]
        have hmodify : applyStrict t (new.1, { new.2 with command := ofpfcModifyStrict }) =
            Function.update t (entryKey new.1 new.2) (some new.2.actions) := by
          unfold applyStrict
          rw [if_pos (.inr rfl)]
          rfl
        rw [foldl_cons, foldl_nil, hmodify]
        rw [hkey, update_idem] at hreplace
        rw [hkey]
        exact hreplace
      · rw [foldl_cons, foldl_cons, foldl_nil,
          applyStrict_delete (hport old rfl), hput]
        exact hreplace

theorem represents_removal (h : Represents F t) (hF : DistinctKeys F)
    (hold : F name = old.map entryOf) (hport : ∀ f, old = some f → f.2.outPort = ofppNone) :
    Represents (Function.update F name none) ((removal old).foldl applyStrict t) := by
  cases old with
  | none =>
    rw [update_eq_self_iff.mpr hold.symm]
    exact h
  | some old =>
    rw [removal, foldl_cons, foldl_nil, applyStrict_delete (hport old rfl)]
    exact h.clear hF hold

end Tables

variable {parser} {row : FlowRow T} {d : T} {flowMod : OFFlowMod}

theorem flowOf_spec (h : flowOf parser row = some (d, flowMod)) :
    ∃ name, KeepsDefaults parser name flowMod := by
  unfold flowOf at h
  split at h
  · next name _ hrow =>
    cases h
    exact ⟨name, (ParsedRow.ofRow_spec hrow).2⟩
  · cases h

theorem onSwitch_flowOf {row : Option (FlowRow T)} {f : SwitchId × OFFlowMod}
    (h : (row.bind (flowOf parser)).bind (onSwitch parser) = some f) :
    ∃ d, row.bind (flowOf parser) = some (d, f.2) ∧ parser.toLong d = .ok f.1 ∧
      f.2.command = ofpfcAdd ∧ f.2.outPort = ofppNone := by
  obtain ⟨⟨d, flowMod⟩, hflow, hsw⟩ := bind_eq_some_iff.mp h
  obtain ⟨row, -, hrow⟩ := bind_eq_some_iff.mp hflow
  unfold onSwitch at hsw
  split at hsw
  · next sw htoLong =>
    cases hsw
    obtain ⟨name, hd⟩ := flowOf_spec hrow
    exact ⟨d, hflow, htoLong, hd.command, hd.outPort⟩
  · cases hsw

theorem toLong_of_readable {name : T} (hread : Readable parser name row)
    (h : flowOf parser row = some (d, flowMod)) :
    ∃ sw, parser.toLong d = .ok sw := by
  obtain ⟨-, parsed, hparsed, hswitch⟩ := hread
  unfold flowOf at h
  rw [hparsed] at h
  cases parsed with
  | flow s n fm =>
    cases h
    exact hswitch d rfl
  | _ => cases h

/-- The module, the table and the switches agree. -/
structure StaticFlowSystem.Follows (parser : TextParser T) (s : StaticFlowSystem T) : Prop where
  tracked : ∀ name, s.pusher.Tracked name (activeFlow parser s.storage name)
  connected : ∀ name d flowMod, activeFlow parser s.storage name = some (d, flowMod) →
    ∃ sw, parser.toLong d = .ok sw
  distinct : KeyedTable.DistinctKeys (desired parser s.storage)
  entries : KeyedTable.Represents (desired parser s.storage) (entriesAfter s.pusher.written)

theorem StaticFlowSystem.follows_init : (StaticFlowSystem.init : StaticFlowSystem T).Follows parser
    where
  tracked _ := rfl
  connected _ _ _ h := nomatch h
  distinct _ _ _ _ _ h := nomatch h
  entries := KeyedTable.represents_empty

variable [DecidableEq T]

theorem activeFlow_update (storage : FlowStorage T) (name : T) (v : Option (FlowRow T)) :
    activeFlow parser (Function.update storage name v) =
      Function.update (activeFlow parser storage) name (v.bind (flowOf parser)) := by
  have hcomp : ∀ rows, activeFlow parser rows = (fun row => row.bind (flowOf parser)) ∘ rows :=
    fun _ => rfl
  rw [hcomp, hcomp, comp_update]

theorem desired_update (storage : FlowStorage T) (name : T) (v : Option (FlowRow T)) :
    desired parser (Function.update storage name v) =
      Function.update (desired parser storage) name
        (((v.bind (flowOf parser)).bind (onSwitch parser)).map entryOf) := by
  have hcomp : ∀ rows, desired parser rows =
      (fun flow => (flow.bind (onSwitch parser)).map entryOf) ∘ activeFlow parser rows :=
    fun _ => rfl
  rw [hcomp, hcomp, activeFlow_update, comp_update]

theorem entriesAfter_append (written messages : List (SwitchId × OFFlowMod)) :
    entriesAfter (written ++ messages) = messages.foldl applyStrict (entriesAfter written) :=
  foldl_append ..

/-- The messages that a change of a row causes. -/
def RowChange.messages (parser : TextParser T) (storage : FlowStorage T) :
    RowChange T → List (SwitchId × OFFlowMod)
  | .put name row =>
    StaticFlowEntryPusher.transition ((activeFlow parser storage name).bind (onSwitch parser))
      ((flowOf parser row).bind (onSwitch parser))
  | .delete name =>
    StaticFlowEntryPusher.removal ((activeFlow parser storage name).bind (onSwitch parser))

/-- The messages of a history, one change after the other. -/
def messagesOf (parser : TextParser T) :
    FlowStorage T → List (RowChange T) → List (SwitchId × OFFlowMod)
  | _, [] => []
  | storage, change :: changes =>
    change.messages parser storage ++ messagesOf parser (change.apply storage) changes

namespace StaticFlowSystem.Follows

variable {s : StaticFlowSystem T} (h : s.Follows parser)

include h

theorem update {name : T} {v : Option (FlowRow T)} {st' : StaticFlowEntryPusher T}
    (htracked : st'.Tracked name (v.bind (flowOf parser)))
    (hsame : StaticFlowEntryPusher.SameBut name s.pusher st')
    (hconnected : ∀ d flowMod, v.bind (flowOf parser) = some (d, flowMod) →
      ∃ sw, parser.toLong d = .ok sw)
    (hdistinct : KeyedTable.DistinctKeys (desired parser (Function.update s.storage name v)))
    (hentries : KeyedTable.Represents
      (Function.update (desired parser s.storage) name
        (((v.bind (flowOf parser)).bind (onSwitch parser)).map entryOf))
      (entriesAfter st'.written)) :
    Follows parser ⟨Function.update s.storage name v, st'⟩ := by
  refine ⟨fun other => ?_, fun other d flowMod hflow => ?_, hdistinct, ?_⟩
  · show st'.Tracked other (activeFlow parser (Function.update s.storage name v) other)
    rw [activeFlow_update]
    by_cases hother : other = name
    · subst hother
      rwa [update_self]
    · rw [update_of_ne hother]
      exact (h.tracked other).of_sameBut hsame hother
  · have hflow : activeFlow parser (Function.update s.storage name v) other =
        some (d, flowMod) := hflow
    rw [activeFlow_update] at hflow
    by_cases hother : other = name
    · subst hother
      rw [update_self] at hflow
      exact hconnected d flowMod hflow
    · rw [update_of_ne hother] at hflow
      exact h.connected other d flowMod hflow
  · show KeyedTable.Represents (desired parser (Function.update s.storage name v)) _
    rw [desired_update]
    exact hentries

theorem put {name : T} (hclean : (RowChange.put name row).Clean parser s.storage)
    (hdistinct : KeyedTable.DistinctKeys
      (desired parser ((RowChange.put name row).apply s.storage))) :
    ∃ s', s.step parser (.put name row) = .ok s' ∧ s'.Follows parser ∧
      s'.storage = (RowChange.put name row).apply s.storage ∧
      s'.pusher.written = s.pusher.written ++
        (RowChange.put name row).messages parser s.storage := by
  obtain ⟨hread, hmoved⟩ := hclean
  have hkept : flowOf parser row = none → activeFlow parser s.storage name = none := by
    intro hnone
    cases hflow : activeFlow parser s.storage name with
    | none => rfl
    | some f =>
      obtain ⟨d', fm', hflow', -⟩ := hmoved f.1 f.2 hflow
      rw [hnone] at hflow'
      cases hflow'
  obtain ⟨st', hst', htracked, hsame, hwritten⟩ :=
    StaticFlowEntryPusher.rowsModified_spec (h.tracked name)
      (update_self name (some row) s.storage) hread hkept (h.connected name)
  refine ⟨⟨Function.update s.storage name (some row), st'⟩, ?_,
    h.update htracked hsame (fun d fm => toLong_of_readable hread) hdistinct ?_, rfl, hwritten⟩
  · unfold StaticFlowSystem.step
    dsimp only
    rw [hst']
    rfl
  · rw [hwritten, entriesAfter_append]
    have hdistinct' := hdistinct
    unfold RowChange.apply at hdistinct'
    rw [desired_update] at hdistinct'
    refine represents_transition h.entries h.distinct rfl hdistinct' ?_ ?_ ?_ ?_
    · intro hnone
      cases hflow : flowOf parser row with
      | none => rw [hkept hflow, bind_none]
      | some f =>
        obtain ⟨sw, hsw⟩ := toLong_of_readable hread hflow
        rw [bind_some, hflow, bind_some, onSwitch, hsw] at hnone
        cases hnone
    · intro f hf
      obtain ⟨d, -, -, hadd, -⟩ := onSwitch_flowOf hf
      exact hadd
    · intro f hf
      obtain ⟨d, -, -, -, hport⟩ := onSwitch_flowOf hf
      exact hport
    · -- an entry with the same key is on the same switch
      intro f f' hf hf' hmatch hpriority
      obtain ⟨d, hflow, hsw, -⟩ := onSwitch_flowOf hf
      obtain ⟨d', hflow', hsw', -⟩ := onSwitch_flowOf hf'
      obtain ⟨d'', fm'', hflow'', hdiffer⟩ := hmoved d f.2 hflow
      cases hflow''.symm.trans hflow'
      have htoLong := (hdiffer.resolve_right fun hne =>
        hne.elim (fun hne => hne hmatch.symm) fun hne => hne hpriority.symm)
      exact Except.ok.inj (hsw.symm.trans (htoLong.symm.trans hsw'))

theorem delete (name : T) (hdistinct : KeyedTable.DistinctKeys
      (desired parser ((RowChange.delete name).apply s.storage))) :
    ∃ s', s.step parser (.delete name) = .ok s' ∧ s'.Follows parser ∧
      s'.storage = (RowChange.delete name).apply s.storage ∧
      s'.pusher.written = s.pusher.written ++
        (RowChange.delete name).messages parser s.storage := by
  obtain ⟨st', hst', htracked, hsame, hwritten⟩ :=
    StaticFlowEntryPusher.rowsDeleted_spec (h.tracked name) (h.connected name)
  refine ⟨⟨Function.update s.storage name none, st'⟩, ?_,
    h.update htracked hsame (fun d fm hnone => nomatch hnone) hdistinct ?_, rfl, hwritten⟩
  · unfold StaticFlowSystem.step
    dsimp only
    rw [hst']
    rfl
  · rw [hwritten, entriesAfter_append]
    refine represents_removal h.entries h.distinct rfl fun f hf => ?_
    obtain ⟨d, -, -, -, hport⟩ := onSwitch_flowOf hf
    exact hport

end StaticFlowSystem.Follows

theorem StaticFlowSystem.Follows.run {s : StaticFlowSystem T} (h : s.Follows parser)
    {changes : List (RowChange T)} (hclean : CleanRun parser s.storage changes) :
    ∃ s', s.run parser changes = .ok s' ∧ s'.Follows parser ∧
      s'.storage = changes.foldl RowChange.apply s.storage ∧
      s'.pusher.written = s.pusher.written ++ messagesOf parser s.storage changes := by
  induction changes generalizing s with
  | nil => exact ⟨s, rfl, h, rfl, (append_nil _).symm⟩
  | cons change changes ih =>
    obtain ⟨hchange, hdistinct, hrest⟩ := hclean
    obtain ⟨s₁, hstep, hfollows, hstorage, hwritten⟩ : ∃ s₁, s.step parser change = .ok s₁ ∧
        s₁.Follows parser ∧ s₁.storage = change.apply s.storage ∧
        s₁.pusher.written = s.pusher.written ++ change.messages parser s.storage := by
      cases change with
      | put name row => exact h.put hchange hdistinct
      | delete name => exact h.delete name hdistinct
    rw [← hstorage] at hrest
    obtain ⟨s', hrun, hs', hstorage', hwritten'⟩ := ih hfollows hrest
    refine ⟨s', ?_, hs', ?_, ?_⟩
    · rw [StaticFlowSystem.run, foldlM_cons, hstep]
      exact hrun
    · rw [hstorage', hstorage, foldl_cons]
    · rw [hwritten', hwritten, hstorage, append_assoc]
      rfl

/-- **Static flows follow the table.**  After any history of clean changes no
handler has thrown, and the switches have exactly the entries of the active
rows. -/
theorem static_flows_follow {changes : List (RowChange T)}
    (hclean : CleanRun parser (fun _ => none) changes) :
    ∃ s, StaticFlowSystem.init.run parser changes = .ok s ∧
      s.storage = changes.foldl RowChange.apply (fun _ => none) ∧
      KeyedTable.Represents (desired parser s.storage) (entriesAfter s.pusher.written) := by
  obtain ⟨s, hrun, hs, hstorage, -⟩ := StaticFlowSystem.follows_init.run hclean
  exact ⟨s, hrun, hstorage, hs.entries⟩

/-! ### One row -/

def numberParser : TextParser ℕ where
  isTrue n := n == 1
  valueOf n := .ok (BitVec.ofNat 32 n)
  toLong n := .ok (BitVec.ofNat 64 n)
  parseActionString n := .ok [.output (BitVec.ofNat 16 n) 0]
  fromString columns :=
    match columns.lookup .inPort with
    | some p => .ok { OFMatch.new with
        wildcards := ofpfwAll &&& ~~~ofpfwInPort
        inputPort := BitVec.ofNat 16 p }
    | none => .ok OFMatch.new
  computeEntryCookie n := BitVec.ofNat 64 n

def portRow (switchId active inPort outPort : ℕ) : FlowRow ℕ :=
  [(.name, 5), (.switchId, switchId), (.active, active), (.priority, 100),
    (.actions, outPort), (.ofMatch .inPort, inPort)]

/-- A row is added, gets another action, moves to another switch with another
match, and is deleted. -/
def portChanges : List (RowChange ℕ) :=
  [.put 5 (portRow 1 1 1 2), .put 5 (portRow 1 1 1 3), .put 5 (portRow 2 1 4 3), .delete 5]

theorem distinctKeys_single {storage : FlowStorage ℕ} (h : ∀ name, name ≠ 5 → storage name = none) :
    KeyedTable.DistinctKeys (desired numberParser storage) := by
  have hname : ∀ {name e}, desired numberParser storage name = some e → name = 5 := by
    intro name e he
    by_contra hne
    rw [desired, activeFlow, h name hne] at he
    cases he
  exact fun i j k v v' hi hj => (hname hi).trans (hname hj).symm

def portFlow (inPort outPort : ℕ) : OFFlowMod :=
  { initDefaultFlowMod numberParser 5 with
    ofMatch := { OFMatch.new with
      wildcards := ofpfwAll &&& ~~~ofpfwInPort
      inputPort := BitVec.ofNat 16 inPort }
    priority := 100
    actions := [.output (BitVec.ofNat 16 outPort) 0] }

theorem ofRow_portRow (sw i o : ℕ) :
    ParsedRow.ofRow numberParser (portRow sw 1 i o) = .ok (.flow sw 5 (portFlow i o)) := rfl

theorem readable_portRow (sw i o : ℕ) : Readable numberParser 5 (portRow sw 1 i o) :=
  ⟨rfl, _, ofRow_portRow sw i o, fun s _ => ⟨BitVec.ofNat 64 s, rfl⟩⟩

theorem cleanRun_portChanges : CleanRun numberParser (fun _ => none) portChanges := by
  refine ⟨⟨readable_portRow 1 1 2, fun d fm h => (nomatch h)⟩, distinctKeys_single ?_,
    ⟨readable_portRow 1 1 3, ?_⟩, distinctKeys_single ?_,
    ⟨readable_portRow 2 4 3, ?_⟩, distinctKeys_single ?_, trivial, distinctKeys_single ?_, trivial⟩
  · intro name hne
    simp [RowChange.apply, hne]
  · intro d fm h
    cases h
    exact ⟨1, portFlow 1 3, rfl, .inl rfl⟩
  · intro name hne
    simp [RowChange.apply, hne]
  · intro d fm h
    cases h
    exact ⟨2, portFlow 4 3, rfl, .inr (.inl (by decide))⟩
  · intro name hne
    simp [RowChange.apply, hne]
  · intro name hne
    simp [RowChange.apply, hne]

theorem static_flows_follow_ports :
    CleanRun numberParser (fun _ => none) portChanges ∧
    ∃ s, StaticFlowSystem.init.run numberParser portChanges = .ok s ∧
      s.storage = portChanges.foldl RowChange.apply (fun _ => none) ∧
      KeyedTable.Represents (desired numberParser s.storage) (entriesAfter s.pusher.written) :=
  ⟨cleanRun_portChanges, static_flows_follow cleanRun_portChanges⟩

/-- The row is deactivated, and its entry stays on the switch. -/
theorem static_flow_left_behind :
    ∃ s, StaticFlowSystem.init.run numberParser
        [.put 5 (portRow 1 1 1 2), .put 5 (portRow 1 0 1 2)] = .ok s ∧
      (∀ name, desired numberParser s.storage name = none) ∧
      entriesAfter s.pusher.written (entryKey 1 (portFlow 1 2)) = some [.output 2 0] := by
  refine ⟨_, rfl, fun name => ?_, by decide +kernel⟩
  by_cases hname : name = 5
  · subst hname
    rfl
  · simp [desired, activeFlow, StaticFlowSystem.init, hname]

end NctuSdn
