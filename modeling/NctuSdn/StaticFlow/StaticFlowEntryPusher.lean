/-
Static flows (`StaticFlowEntryPusher`).

Rows of a table in storage describe flow entries.  The module keeps the flow
mod of each active row, by switch and name, and the switch of each name; on a
change of a row it compares the old flow mod with the new one and writes what
it takes to get from one to the other.

The texts of a row go through parsers of their own, which are parameters.
-/
import NctuSdn.OpenFlow.FlowTable

namespace NctuSdn

/-! ### Rows -/

/-- The columns that make up the match. -/
inductive MatchColumn
  | inPort
  | dlSrc
  | dlDst
  | dlVlan
  | dlVlanPcp
  | dlType
  | nwTos
  | nwProto
  | nwSrc
  | nwDst
  | tpDst
  | tpSrc
deriving DecidableEq, Repr

/-- The columns of a static flow. -/
inductive FlowColumn
  | id
  | name
  | switchId
  | active
  | idleTimeout
  | hardTimeout
  | priority
  | cookie
  | wildcards
  | actions
  | ofMatch (column : MatchColumn)
deriving DecidableEq, Repr

/-- A row, in the order of its key set. -/
abbrev FlowRow (T : Type) := List (FlowColumn × T)

/-- The parsers that are used on the texts of a row. -/
structure TextParser (T : Type) where
  isTrue : T → Bool
  valueOf : T → Except JavaException (BitVec 32)
  toLong : T → Except JavaException SwitchId
  parseActionString : T → Except JavaException (List OFAction)
  /-- `OFMatch.fromString`, of the columns joined together. -/
  fromString : List (MatchColumn × T) → Except JavaException OFMatch
  /-- `StaticFlowEntries.computeEntryCookie`, a hash of the name. -/
  computeEntryCookie : T → BitVec 64

variable {T : Type} [DecidableEq T] (parser : TextParser T)

/-- `StaticFlowEntries.initDefaultFlowMod` of a new message. -/
def initDefaultFlowMod (entryName : T) : OFFlowMod where
  xid := 0
  ofMatch := OFMatch.new
  cookie := parser.computeEntryCookie entryName
  command := ofpfcAdd
  idleTimeout := 0
  hardTimeout := 0
  priority := 0x7fff
  bufferId := .allOnes 32
  outPort := ofppNone
  flags := 0
  actions := []

/-- The loop of `parseRow` over the columns: the flow mod and the parts of the
match string so far; `none` for an inactive row. -/
def readColumns (entryName : T) :
    FlowRow T → OFFlowMod × List (MatchColumn × T) →
      Except JavaException (Option (OFFlowMod × List (MatchColumn × T)))
  | [], st => .ok (some st)
  | (column, text) :: row, (flowMod, matchString) =>
    match column with
    | .switchId | .name | .id | .hardTimeout | .idleTimeout | .wildcards =>
      readColumns entryName row (flowMod, matchString)
    | .active =>
      if parser.isTrue text then readColumns entryName row (flowMod, matchString)
      else .ok none
    | .actions => do
        let actions ← parser.parseActionString text
        readColumns entryName row ({ flowMod with actions := actions }, matchString)
    | .cookie => do
        let _ ← parser.valueOf text
        readColumns entryName row
          ({ flowMod with cookie := parser.computeEntryCookie entryName }, matchString)
    | .priority => do
        let priority ← parser.valueOf text
        readColumns entryName row ({ flowMod with priority := priority.setWidth 16 }, matchString)
    | .ofMatch c => readColumns entryName row (flowMod, matchString ++ [(c, text)])

/-- What `parseRow` makes of a row. -/
inductive ParsedRow (T : Type)
  | skipped
  | illegalMatch (switchName : T)
  | inactive (switchName entryName : T)
  | flow (switchName entryName : T) (flowMod : OFFlowMod)

/-- The parsing half of `parseRow`.  An illegal match is logged, any other
exception goes to the caller. -/
def ParsedRow.ofRow (row : FlowRow T) : Except JavaException (ParsedRow T) :=
  match row.lookup .switchId, row.lookup .name with
  | some switchName, some entryName => do
      let columns ← readColumns parser entryName row (initDefaultFlowMod parser entryName, [])
      match columns with
      | none => return .inactive switchName entryName
      | some (flowMod, matchString) =>
        match parser.fromString matchString with
        | .ok ofMatch => return .flow switchName entryName { flowMod with ofMatch := ofMatch }
        | .error .illegalArgument => return .illegalMatch switchName
        | .error e => .error e
  | _, _ => .ok .skipped

/-! ### The maps -/

/-- `Map<DPID, Map<Name, FlowMod>>`, in the order in which it is walked; a
null flow mod is an inactive row. -/
abbrev EntryMap (T : Type) := List (T × List (T × Option OFFlowMod))

/-- Put into an inner map, with a new one for a switch that has none. -/
def EntryMap.put (entries : EntryMap T) (switchName : T) (new : List (T × Option OFFlowMod)) :
    EntryMap T :=
  match entries with
  | [] => [(switchName, new)]
  | (s, inner) :: entries =>
    if s = switchName then
      (s, inner.filter (fun e => ∀ x ∈ new, x.1 ≠ e.1) ++ new) :: entries
    else (s, inner) :: EntryMap.put entries switchName new

def parseStaticRow (row : FlowRow T) (entries : EntryMap T) :
    Except JavaException (EntryMap T) := do
  match ← ParsedRow.ofRow parser row with
  | .skipped => return entries
  | .illegalMatch switchName => return entries.put switchName []
  | .inactive switchName entryName => return entries.put switchName [(entryName, none)]
  | .flow switchName entryName flowMod =>
    return entries.put switchName [(entryName, some flowMod)]

/-- The state of the module, with what it has written to the switches. -/
structure StaticFlowEntryPusher (T : Type) where
  entriesFromStorage : T → Option (T → Option (Option OFFlowMod))
  entry2dpid : T → Option T
  written : List (SwitchId × OFFlowMod)

def StaticFlowEntryPusher.init : StaticFlowEntryPusher T := ⟨fun _ => none, fun _ => none, []⟩

abbrev FlowStorage (T : Type) := T → Option (FlowRow T)

namespace StaticFlowEntryPusher

variable (st : StaticFlowEntryPusher T)

/-- `writeOFMessageToSwitch`, for a switch that is connected. -/
def write (dpid : T) (messages : List OFFlowMod) :
    Except JavaException (StaticFlowEntryPusher T) := do
  let sw ← parser.toLong dpid
  return { st with written := st.written ++ messages.map fun msg => (sw, msg) }

def ensure (dpid : T) : StaticFlowEntryPusher T :=
  match st.entriesFromStorage dpid with
  | some _ => st
  | none =>
    { st with
      entriesFromStorage := Function.update st.entriesFromStorage dpid (some fun _ => none) }

/-- `entriesFromStorage.get(dpid)`. -/
def inner (dpid : T) : Except JavaException (T → Option (Option OFFlowMod)) :=
  match st.entriesFromStorage dpid with
  | some m => .ok m
  | none => .error .nullPointer

def setEntry (dpid entry : T) (v : Option (Option OFFlowMod)) :
    Except JavaException (StaticFlowEntryPusher T) := do
  let m ← st.inner dpid
  return { st with
    entriesFromStorage := Function.update st.entriesFromStorage dpid
      (some (Function.update m entry v)) }

/-- Take the flow mod that a name had so far out of its inner map. -/
def takeOld (entry : T) :
    Except JavaException (Option (T × OFFlowMod) × StaticFlowEntryPusher T) :=
  match st.entry2dpid entry with
  | none => .ok (none, st)
  | some dpidOldFlowMod => do
      let m ← st.inner dpidOldFlowMod
      let st ← st.setEntry dpidOldFlowMod entry none
      return ((m entry).join.map fun flowMod => (dpidOldFlowMod, flowMod), st)

/-- One entry of `rowsModified`, with the queue for its switch. -/
def modifyEntry (dpid : T) (acc : StaticFlowEntryPusher T × List OFFlowMod)
    (new : T × Option OFFlowMod) :
    Except JavaException (StaticFlowEntryPusher T × List OFFlowMod) := do
  let (old, st) ← acc.1.takeOld new.1
  let outQueue := acc.2
  match old, new.2 with
  | some (dpidOldFlowMod, oldFlowMod), some newFlowMod =>
    if oldFlowMod.ofMatch = newFlowMod.ofMatch ∧ oldFlowMod.cookie = newFlowMod.cookie ∧
        oldFlowMod.priority = newFlowMod.priority then
      let newFlowMod := { newFlowMod with command := ofpfcModifyStrict }
      let st ← st.setEntry dpid new.1 (some (some newFlowMod))
      return ({ st with entry2dpid := Function.update st.entry2dpid new.1 (some dpid) },
        outQueue ++ [newFlowMod])
    else
      let oldFlowMod := { oldFlowMod with command := ofpfcDeleteStrict }
      let (st, outQueue) ←
        if dpidOldFlowMod = dpid then .ok (st, outQueue ++ [oldFlowMod])
        else do
          let st ← st.write parser dpidOldFlowMod [oldFlowMod]
          .ok (st, outQueue)
      let st ← st.setEntry dpid new.1 (some (some newFlowMod))
      return ({ st with entry2dpid := Function.update st.entry2dpid new.1 (some dpid) },
        outQueue ++ [newFlowMod])
  | none, some newFlowMod =>
    let st ← st.setEntry dpid new.1 (some (some newFlowMod))
    return ({ st with entry2dpid := Function.update st.entry2dpid new.1 (some dpid) },
      outQueue ++ [newFlowMod])
  | _, none =>
    let st ← st.setEntry dpid new.1 none
    return ({ st with entry2dpid := Function.update st.entry2dpid new.1 none }, outQueue)

/-- One switch of `rowsModified`. -/
def modifySwitch (new : T × List (T × Option OFFlowMod)) :
    Except JavaException (StaticFlowEntryPusher T) := do
  let (st, outQueue) ← new.2.foldlM (modifyEntry parser new.1) (st.ensure new.1, [])
  st.write parser new.1 outQueue

def rowsModified (storage : FlowStorage T) (rowKeys : List T) :
    Except JavaException (StaticFlowEntryPusher T) := do
  let entriesToAdd ← rowKeys.foldlM (fun entries key =>
    match storage key with
    | some row => parseStaticRow parser row entries
    | none => .ok entries) []
  entriesToAdd.foldlM (modifySwitch parser) st

def deleteStaticFlowEntry (entryName : T) : Except JavaException (StaticFlowEntryPusher T) :=
  match st.entry2dpid entryName with
  | none => .ok st
  | some dpid => do
      let st := { st with entry2dpid := Function.update st.entry2dpid entryName none }
      let m ← st.inner dpid
      match (m entryName).join with
      | none => .error .nullPointer
      | some flowMod =>
        let st ← st.setEntry dpid entryName none
        st.write parser dpid [{ flowMod with command := ofpfcDeleteStrict }]

def rowsDeleted (rowKeys : List T) : Except JavaException (StaticFlowEntryPusher T) :=
  rowKeys.foldlM (deleteStaticFlowEntry parser) st

end StaticFlowEntryPusher

end NctuSdn
