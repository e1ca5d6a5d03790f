import BdxReco.DAQ.EtSource
import BdxReco.DAQ.Event
import BdxReco.Lib.Dom
import BdxReco.Lib.Run

/-!
# `DAQ.FileSource` — reading events from an EVIO file

The file branch of `JEventSourceEvioDAQ::GetEvent` and the part of `GetObjects` that makes the `eventData`. Both read
the HEAD bank of the event: the first in one scan of all banks, carrying a run number from event to event, the second
among the banks of the mother banks, and only when it has five words.

The EVIO library is not part of the repository: `getNodeList` is an argument, which lists the banks of a tree in the
order of the document (`hlist`). `none` is undefined behaviour: a null pointer, an element that does not exist, or a
container read as a leaf.
-/

namespace BdxReco

open JEventSourceEvioDAQ (toInt)

/-- A tree of banks; leaves hold words. -/
abbrev EvioTree : Type := Dom Nat (List UInt32)

/-- The members of the source that the file branch and `GetObjects` use, with the values of the constructor; `chan` is
    whether the channel exists. -/
structure EvioFileSource extends JEventSourceEvioDAQ where
  chan : Bool := true
  vmeMotherTag : Nat := 0x50
  epicsMotherTag : Nat := 0x81
  childMode1Tag : Nat := 0xe101
  childTriggerTag : Nat := 0xe118
  deriving DecidableEq, Repr

namespace EvioFileSource

variable (getNodeList : EvioTree → List EvioTree)

/-! ## `GetEvent` -/

/-- The prestart branch of the loop over the banks. -/
def readPrestart (s : EvioFileSource) (node : EvioTree) : Option EvioFileSource :=
  if node.tag = s.prestartTag ∧ s.overwriteRunNumber = -1 then do
    let pData ← node.data?
    let run ← pData[1]?
    some { s with curRunNumber := toInt run }
  else some s

/-- The HEAD branch of the loop over the banks. -/
def readHeader (s : EvioFileSource) (event : JEvent EvioTree) (node : EvioTree) :
    Option (EvioFileSource × JEvent EvioTree) :=
  if node.tag = s.eventHeaderTag then do
    let pData ← node.data?
    let number ← pData[2]?
    let run ← pData[1]?
    let type ← pData[4]?
    some ({ s with curRunNumber := toInt run, curEventType := toInt type },
      { event with eventNumber := number.toNat })
  else some (s, event)

/-- The body of the loop over the banks. -/
def scanNode (r : EvioFileSource × JEvent EvioTree) (node : EvioTree) : Option (EvioFileSource × JEvent EvioTree) := do
  let s ← readPrestart r.1 node
  readHeader s r.2 node

/-- The file branch of `GetEvent(event)`; `edt` is the event that `read` finds in the file. -/
def getEvent (s : EvioFileSource) (edt : Option EvioTree) (event : JEvent EvioTree) :
    Option (EvioFileSource × JEvent EvioTree × JError) :=
  let event := { event with ref := none }
  if s.chan then
    match edt with
    -- "Source done": the channel is closed and deleted
    | none => some ({ s with chan := false }, event, .noMoreEventsInSource)
    | some tree => do
      let fullList := getNodeList tree
      let root ← fullList[0]?
      let s := { s with curEventType := root.tag }
      let event := { event with
        ref := some tree, hasSource := true
        sequential := if s.curEventType = s.eventTypeEPICS then true else event.sequential }
      let (s, event) ← fullList.foldlM scanNode (s, event)
      let runNumber := if s.overwriteRunNumber ≠ -1 then s.overwriteRunNumber else s.curRunNumber
      some (s, { event with runNumber }, .noError)
  else none

/-- The source after the events of a file, one `GetEvent` for each. -/
def readEvents (s : EvioFileSource) (file : List EvioTree) : Option EvioFileSource :=
  file.foldlM (fun s tree => (s.getEvent getNodeList (some tree) {}).map (fun r => r.1)) s

/-! ## `GetObjects` of the `eventData` -/

/-- `this_eventData`, and what has been printed. -/
structure HeaderScan where
  data : EventData := {}
  jerr : List String := []
  deriving DecidableEq, Repr

/-- The body of the loop over the banks of a mother bank. -/
def readBank (s : EvioFileSource) (r : HeaderScan) (branch : EvioTree) : Option HeaderScan :=
  if branch.tag = s.childTriggerTag then do
    let pData ← branch.data?
    let leafSize := pData.length
    if leafSize > 0 then some { r with data := { r.data with triggerWords := r.data.triggerWords ++ pData } }
    else some r
  else if branch.tag = s.eventHeaderTag then do
    let pData ← branch.data?
    let leafSize := pData.length
    if leafSize ≠ 5 then
      -- should have 5 words in head bank
      some { r with jerr := r.jerr ++ ["Incompatible number of words in head bank: got " ++ toString leafSize] }
    else
      let eventN ← pData[2]?
      let runN ← pData[1]?
      let time ← pData[3]?
      some { r with data := { r.data with eventN := eventN.toNat, runN, time := time.toNat } }
  else some r

/-- A VME or EPICS mother bank. -/
def isMother (s : EvioFileSource) (node : EvioTree) : Bool :=
  node.tag == s.vmeMotherTag || node.tag == s.epicsMotherTag

/-- The body of the loop over all banks. -/
def readMother (s : EvioFileSource) (r : HeaderScan) (node : EvioTree) : Option HeaderScan :=
  if s.isMother node then do
    let leafList ← node.children?
    let r : HeaderScan :=
      if node.tag = s.vmeMotherTag then { r with data := { r.data with eventType := some .daq } } else r
    let r : HeaderScan :=
      if node.tag = s.epicsMotherTag then { r with data := { r.data with eventType := some .epics } } else r
    leafList.foldlM s.readBank r
  else some r

/-- `GetObjects(event, factory)` for the factory of the `eventData`: what it is given, and what is printed. -/
def getObjectsEventData (s : EvioFileSource) (event : JEvent EvioTree) : Option (List EventData × List String) := do
  let edt ← event.ref
  let r ← (getNodeList edt).foldlM s.readMother {}
  if r.data.eventType = some .daq ∨ r.data.eventType = some .epics then some ([r.data], r.jerr)
  else some ([], r.jerr)

/-! ## The two headers of an event -/

/-- **The headers agree**: `GetEvent` returns the event, `GetObjects` publishes one `eventData` for it, and the two have
    the same run number (as `int`s) and event number. -/
def HeadersAgree (s : EvioFileSource) (tree : EvioTree) (event : JEvent EvioTree) : Prop :=
  ∃ s' event' d jerr, s.getEvent getNodeList (some tree) event = some (s', event', .noError) ∧
    s'.getObjectsEventData getNodeList event' = some ([d], jerr) ∧
    event'.runNumber = toInt d.runN ∧ event'.eventNumber = d.eventN

/-- The banks are what their tags say: mother banks are containers, trigger and prestart banks are leaves, and a
    prestart bank has a run number. -/
structure WellTagged (s : EvioFileSource) (tree : EvioTree) : Prop where
  mothers : ∀ m ∈ tree.nodes, s.isMother m = true → ∃ leafList, m.children? = some leafList
  triggers : ∀ n ∈ tree.nodes, n.tag = s.childTriggerTag → ∃ pData, n.data? = some pData
  prestarts : ∀ n ∈ tree.nodes, n.tag = s.prestartTag → ∃ pData run, n.data? = some pData ∧ pData[1]? = some run

/-- One HEAD bank, `head`, in a mother bank; `before` and `after` are the banks around it. -/
structure Headed (s : EvioFileSource) (tree : EvioTree) (before : List EvioTree) (head : List UInt32)
    (after : List EvioTree) : Prop where
  nodes : tree.nodes = before ++ .leaf s.eventHeaderTag head :: after
  oneHead : ∀ n ∈ before ++ after, n.tag ≠ s.eventHeaderTag
  inMother : ∃ m ∈ tree.nodes, s.isMother m = true ∧ .leaf s.eventHeaderTag head ∈ m.children

/-! ## What `GetEvent` takes from the event -/

/-- The source with another run number and event type: all that a scan changes. -/
def carry (s : EvioFileSource) (run type : Int) : EvioFileSource :=
  { s with curRunNumber := run, curEventType := type }

@[simp] theorem carry_carry (s : EvioFileSource) (run type run' type' : Int) :
    (s.carry run type).carry run' type' = s.carry run' type' := rfl

@[simp] theorem carry_eventHeaderTag (s : EvioFileSource) (run type : Int) :
    (s.carry run type).eventHeaderTag = s.eventHeaderTag := rfl

theorem readHeader_other {s : EvioFileSource} {node : EvioTree} (h : node.tag ≠ s.eventHeaderTag)
    (event : JEvent EvioTree) : readHeader s event node = some (s, event) :=
  if_neg h

/-- The HEAD bank sets the run number, the event number and the event type. -/
theorem readHeader_head (s : EvioFileSource) (event : JEvent EvioTree) (w₀ run number time type : UInt32) :
    readHeader s event (.leaf s.eventHeaderTag [w₀, run, number, time, type]) =
      some (s.carry (toInt run) (toInt type), { event with eventNumber := number.toNat }) := by
  unfold readHeader
  exact if_pos rfl

/-- A prestart bank sets the run number. -/
theorem readPrestart_cases (s : EvioFileSource) (node : EvioTree)
    (h : node.tag = s.prestartTag → ∃ pData run, node.data? = some pData ∧ pData[1]? = some run) :
    ∃ run, readPrestart s node = some (s.carry run s.curEventType) := by
  unfold readPrestart
  by_cases htag : node.tag = s.prestartTag ∧ s.overwriteRunNumber = -1
  · obtain ⟨pData, run, hdata, hrun⟩ := h htag.1
    refine ⟨toInt run, ?_⟩
    rw [if_pos htag, hdata]
    simp [hrun, carry]
  · exact ⟨s.curRunNumber, if_neg htag⟩

theorem scanNode_of_readPrestart {s s' : EvioFileSource} {node : EvioTree} (h : readPrestart s node = some s')
    (event : JEvent EvioTree) : scanNode (s, event) node = readHeader s' event node := by
  unfold scanNode
  rw [h]
  rfl

/-- A bank that is neither a prestart nor a HEAD bank is passed over. -/
theorem scanNode_other {s : EvioFileSource} {node : EvioTree} (hprestart : node.tag ≠ s.prestartTag)
    (hheader : node.tag ≠ s.eventHeaderTag) (event : JEvent EvioTree) :
    scanNode (s, event) node = some (s, event) := by
  have hs : readPrestart s node = some s := if_neg (fun h => hprestart h.1)
  rw [scanNode_of_readPrestart hs]
  exact readHeader_other hheader event

/-- Up to the HEAD bank the run number can become anything. -/
theorem scan_before {s : EvioFileSource} {before : List EvioTree} (hheader : ∀ n ∈ before, n.tag ≠ s.eventHeaderTag)
    (hprestarts : ∀ n ∈ before, n.tag = s.prestartTag → ∃ pData run, n.data? = some pData ∧ pData[1]? = some run)
    (run type : Int) (event : JEvent EvioTree) :
    ∃ run', before.foldlM scanNode (s.carry run type, event) = some (s.carry run' type, event) := by
  induction before generalizing run with
  | nil => exact ⟨run, rfl⟩
  | cons node before ih =>
      obtain ⟨run₁, hprestart⟩ := readPrestart_cases (s.carry run type) node (hprestarts node List.mem_cons_self)
      obtain ⟨run', hrest⟩ := ih (fun n hn => hheader n (List.mem_cons_of_mem node hn))
        (fun n hn => hprestarts n (List.mem_cons_of_mem node hn)) run₁
      have hnode : scanNode (s.carry run type, event) node = some (s.carry run₁ type, event) := by
        rw [scanNode_of_readPrestart hprestart, carry_carry]
        exact readHeader_other (s := s.carry run₁ type) (hheader node List.mem_cons_self) event
      refine ⟨run', ?_⟩
      rw [List.foldlM_cons, hnode]
      exact hrest

/-- After it nothing changes any more, unless a prestart bank follows. -/
theorem scan_after {s : EvioFileSource} {after : List EvioTree}
    (h : ∀ n ∈ after, n.tag ≠ s.prestartTag ∧ n.tag ≠ s.eventHeaderTag) (event : JEvent EvioTree) :
    after.foldlM scanNode (s, event) = some (s, event) := by
  induction after with
  | nil => rfl
  | cons node after ih =>
      obtain ⟨hprestart, hheader⟩ := h node List.mem_cons_self
      rw [List.foldlM_cons, scanNode_other hprestart hheader]
      exact ih (fun n hn => h n (List.mem_cons_of_mem node hn))

/-- **The scan leaves with the words of the HEAD bank** when no prestart bank comes after it. -/
theorem scan_headed {s : EvioFileSource} {before after : List EvioTree} (w₀ run number time type : UInt32)
    (hbefore : ∀ n ∈ before, n.tag ≠ s.eventHeaderTag)
    (hprestarts : ∀ n ∈ before, n.tag = s.prestartTag → ∃ pData run, n.data? = some pData ∧ pData[1]? = some run)
    (hafter : ∀ n ∈ after, n.tag ≠ s.prestartTag ∧ n.tag ≠ s.eventHeaderTag) (event : JEvent EvioTree) :
    (before ++ .leaf s.eventHeaderTag [w₀, run, number, time, type] :: after).foldlM scanNode (s, event) =
      some (s.carry (toInt run) (toInt type), { event with eventNumber := number.toNat }) := by
  obtain ⟨run₁, hrun₁⟩ := scan_before hbefore hprestarts s.curRunNumber s.curEventType event
  obtain ⟨run₂, hprestart⟩ := readPrestart_cases (s.carry run₁ s.curEventType)
    (.leaf s.eventHeaderTag [w₀, run, number, time, type]) (fun _ => ⟨_, run, rfl, rfl⟩)
  have hhead := readHeader_head (s.carry run₂ s.curEventType) event w₀ run number time type
  rw [List.foldlM_append]
  show (before.foldlM scanNode (s.carry s.curRunNumber s.curEventType, event)).bind _ = _
  rw [hrun₁, Option.bind_some, List.foldlM_cons, scanNode_of_readPrestart hprestart, carry_carry]
  show (readHeader (s.carry run₂ s.curEventType) event _).bind _ = _
  rw [carry_eventHeaderTag, carry_carry] at hhead
  rw [hhead, Option.bind_some]
  exact scan_after (s := s.carry (toInt run) (toInt type)) hafter _

/-- **`GetEvent` gives the event the numbers of the HEAD bank.** -/
theorem getEvent_headed (hlist : ∀ tree, getNodeList tree = tree.nodes) {s : EvioFileSource} (hchan : s.chan = true)
    (hoverwrite : s.overwriteRunNumber = -1) {tree : EvioTree} (hwell : s.WellTagged tree)
    {before after : List EvioTree} {w₀ run number time type : UInt32}
    (hhead : s.Headed tree before [w₀, run, number, time, type] after) (hafter : ∀ n ∈ after, n.tag ≠ s.prestartTag)
    (event : JEvent EvioTree) :
    ∃ event', s.getEvent getNodeList (some tree) event =
        some (s.carry (toInt run) (toInt type), event', .noError) ∧
      event'.ref = some tree ∧ event'.runNumber = toInt run ∧ event'.eventNumber = number.toNat := by
  have hbefore : ∀ n ∈ before, n.tag ≠ s.eventHeaderTag :=
    fun n hn => hhead.oneHead n (List.mem_append_left after hn)
  have hprestarts : ∀ n ∈ before, n.tag = s.prestartTag → ∃ pData run, n.data? = some pData ∧ pData[1]? = some run := by
    intro n hn
    refine hwell.prestarts n ?_
    rw [hhead.nodes]
    exact List.mem_append_left _ hn
  have hlater : ∀ n ∈ after, n.tag ≠ s.prestartTag ∧ n.tag ≠ s.eventHeaderTag :=
    fun n hn => ⟨hafter n hn, hhead.oneHead n (List.mem_append_right before hn)⟩
  have hroot : (getNodeList tree)[0]? = some tree := by
    rw [hlist, Dom.nodes_eq_edges]
    rfl
  -- the type of the event is the tag of its root, until the HEAD bank says otherwise
  have hscan := scan_headed (s := s.carry s.curRunNumber tree.tag) w₀ run number time type hbefore hprestarts hlater
  refine ⟨{ event with
    ref := some tree, hasSource := true, eventNumber := number.toNat, runNumber := toInt run
    sequential := if (tree.tag : Int) = s.eventTypeEPICS then true else event.sequential }, ?_, rfl, rfl, rfl⟩
  unfold getEvent
  simp only [if_pos hchan, hroot, Option.bind_eq_bind, Option.bind_some]
  show ((getNodeList tree).foldlM scanNode (s.carry s.curRunNumber tree.tag, _)).bind _ = _
  rw [hlist, hhead.nodes]
  show ((before ++ .leaf (s.carry s.curRunNumber tree.tag).eventHeaderTag [w₀, run, number, time, type] :: after).foldlM
    scanNode (s.carry s.curRunNumber tree.tag, _)).bind _ = _
  rw [hscan, Option.bind_some]
  have hkept : ((s.carry s.curRunNumber tree.tag).carry (toInt run) (toInt type)).overwriteRunNumber = -1 := hoverwrite
  simp only [hkept]
  rfl

/-! ## What `GetObjects` takes from the event -/

/-- The `eventData` has the numbers of the HEAD bank. -/
def Labelled (run number : UInt32) (r : HeaderScan) : Prop := r.data.runN = run ∧ r.data.eventN = number.toNat

/-- The banks of a mother bank: none but `head` is a HEAD bank, and trigger banks are leaves. -/
theorem readBank_establishes {s : EvioFileSource} (htags : s.childTriggerTag ≠ s.eventHeaderTag)
    {w₀ run number time type : UInt32} {branch : EvioTree}
    (htrigger : branch.tag = s.childTriggerTag → ∃ pData, branch.data? = some pData)
    (hhead : branch.tag = s.eventHeaderTag → branch = .leaf s.eventHeaderTag [w₀, run, number, time, type])
    (r : HeaderScan) :
    ∃ r', s.readBank r branch = some r' ∧ r'.data.eventType = r.data.eventType ∧
      (branch.tag = s.eventHeaderTag ∨ Labelled run number r → Labelled run number r') := by
  -- the order of the branches of `readBank`: trigger words first
  by_cases htag : branch.tag = s.childTriggerTag
  · have hother : branch.tag ≠ s.eventHeaderTag := by
      rw [htag]
      exact htags
    obtain ⟨pData, hdata⟩ := htrigger htag
    unfold readBank
    rw [if_pos htag, hdata]
    by_cases hsize : pData.length > 0
    · refine ⟨_, if_pos hsize, rfl, ?_⟩
      rintro (h | h)
      · exact absurd h hother
      · exact h
    · refine ⟨_, if_neg hsize, rfl, ?_⟩
      rintro (h | h)
      · exact absurd h hother
      · exact h
  · by_cases hheader : branch.tag = s.eventHeaderTag
    · rw [hhead hheader] at htag ⊢
      unfold readBank
      rw [if_neg htag]
      exact ⟨_, if_pos rfl, rfl, fun _ => ⟨rfl, rfl⟩⟩
    · unfold readBank
      rw [if_neg htag, if_neg hheader]
      refine ⟨r, rfl, rfl, ?_⟩
      rintro (h | h)
      · exact absurd h hheader
      · exact h

/-- The `eventData` is one that is published. -/
def Published (r : HeaderScan) : Prop := r.data.eventType = some .daq ∨ r.data.eventType = some .epics

/-- The event type a mother bank gives. -/
theorem readMother_of_mother {s : EvioFileSource} {node : EvioTree} {leafList : List EvioTree}
    (hmother : s.isMother node = true) (hchildren : node.children? = some leafList) (r : HeaderScan) :
    ∃ r₁ : HeaderScan, s.readMother r node = leafList.foldlM s.readBank r₁ ∧ Published r₁ ∧
      r₁.data.runN = r.data.runN ∧ r₁.data.eventN = r.data.eventN := by
  unfold readMother
  rw [if_pos hmother, hchildren]
  by_cases hepics : node.tag = s.epicsMotherTag
  · refine ⟨_, rfl, ?_⟩
    rw [if_pos hepics]
    refine ⟨Or.inr rfl, ?_⟩
    split
    · exact ⟨rfl, rfl⟩
    · exact ⟨rfl, rfl⟩
  · have hvme : node.tag = s.vmeMotherTag := by simpa [isMother, hepics] using hmother
    refine ⟨_, rfl, ?_⟩
    rw [if_neg hepics, if_pos hvme]
    exact ⟨Or.inl rfl, rfl, rfl⟩

/-- A bank of the list: `GetObjects` takes the numbers of the HEAD bank from the mother bank that has it. -/
theorem readMother_establishes {s : EvioFileSource} {tree : EvioTree} (hwell : s.WellTagged tree)
    (htags : s.childTriggerTag ≠ s.eventHeaderTag) {w₀ run number time type : UInt32}
    (hhead : ∀ n ∈ tree.nodes, n.tag = s.eventHeaderTag →
      n = .leaf s.eventHeaderTag [w₀, run, number, time, type])
    {node : EvioTree} (hnode : node ∈ tree.nodes) (r : HeaderScan) :
    ∃ r', s.readMother r node = some r' ∧
      ((s.isMother node = true ∧ ∃ branch ∈ node.children, branch.tag = s.eventHeaderTag) ∨
        (Published r ∧ Labelled run number r) → Published r' ∧ Labelled run number r') := by
  by_cases hmother : s.isMother node = true
  · obtain ⟨leafList, hchildren⟩ := hwell.mothers node hnode hmother
    obtain ⟨r₁, hread, hpublished, hrunN, heventN⟩ := readMother_of_mother hmother hchildren r
    have hleaves : node.children = leafList := by rw [Dom.children, hchildren]; rfl
    -- the banks of a mother bank are banks of the event, so what is known of those holds of them
    have hbranch : ∀ branch ∈ leafList, branch ∈ tree.nodes := by
      intro branch hbranch
      exact Dom.mem_nodes_of_mem_children hnode (hleaves ▸ hbranch)
    have hstep : ∀ r' : HeaderScan, ∀ branch ∈ leafList, r'.data.eventType = r₁.data.eventType →
        ∃ r'', s.readBank r' branch = some r'' ∧ r''.data.eventType = r₁.data.eventType ∧
          (branch.tag = s.eventHeaderTag ∨ Labelled run number r' → Labelled run number r'') := by
      intro r' branch hmem hI
      obtain ⟨r'', hstep, htype, hlabel⟩ := readBank_establishes htags (hwell.triggers branch (hbranch branch hmem))
        (hhead branch (hbranch branch hmem)) r'
      exact ⟨r'', hstep, htype.trans hI, hlabel⟩
    obtain ⟨r', hrun', htype, hlabel⟩ := Run.foldlM_establishes
      (fun r' : HeaderScan => r'.data.eventType = r₁.data.eventType) (Labelled run number)
      (fun branch : EvioTree => branch.tag = s.eventHeaderTag) hstep (s := r₁) rfl
    refine ⟨r', hread.trans hrun', ?_⟩
    rintro (⟨-, branch, hmem, htag⟩ | ⟨-, hrunN', heventN'⟩)
    · refine ⟨by rw [Published, htype]; exact hpublished, hlabel (Or.inl ⟨branch, hleaves ▸ hmem, htag⟩)⟩
    · refine ⟨by rw [Published, htype]; exact hpublished, hlabel (Or.inr ⟨?_, ?_⟩)⟩
      · rw [hrunN, hrunN']
      · rw [heventN, heventN']
  · refine ⟨r, if_neg hmother, ?_⟩
    rintro (⟨h, -⟩ | h)
    · exact absurd h hmother
    · exact h

/-- **`GetObjects` publishes one `eventData` with the numbers of the HEAD bank.** -/
theorem getObjectsEventData_headed (hlist : ∀ tree, getNodeList tree = tree.nodes) {s : EvioFileSource}
    {tree : EvioTree} (hwell : s.WellTagged tree) (htags : s.childTriggerTag ≠ s.eventHeaderTag)
    {w₀ run number time type : UInt32}
    (hhead : ∀ n ∈ tree.nodes, n.tag = s.eventHeaderTag →
      n = .leaf s.eventHeaderTag [w₀, run, number, time, type])
    (hmother : ∃ m ∈ tree.nodes, s.isMother m = true ∧ ∃ branch ∈ m.children, branch.tag = s.eventHeaderTag)
    {event : JEvent EvioTree} (href : event.ref = some tree) :
    ∃ d jerr, s.getObjectsEventData getNodeList event = some ([d], jerr) ∧ d.runN = run ∧ d.eventN = number.toNat := by
  have hstep : ∀ r : HeaderScan, ∀ node ∈ tree.nodes, True → ∃ r', s.readMother r node = some r' ∧ True ∧
      ((s.isMother node = true ∧ ∃ branch ∈ node.children, branch.tag = s.eventHeaderTag) ∨
        (Published r ∧ Labelled run number r) → Published r' ∧ Labelled run number r') := by
    intro r node hnode _
    obtain ⟨r', hr', hlabel⟩ := readMother_establishes hwell htags hhead hnode r
    exact ⟨r', hr', trivial, hlabel⟩
  obtain ⟨r', hrun', -, hlabel⟩ := Run.foldlM_establishes (fun _ => True)
    (fun r => Published r ∧ Labelled run number r)
    (fun node => s.isMother node = true ∧ ∃ branch ∈ node.children, branch.tag = s.eventHeaderTag)
    hstep (s := {}) trivial
  obtain ⟨hpublished, hrunN, heventN⟩ := hlabel (Or.inl hmother)
  refine ⟨r'.data, r'.jerr, ?_, hrunN, heventN⟩
  unfold getObjectsEventData
  rw [href]
  simp only [Option.bind_eq_bind, Option.bind_some, hlist, hrun']
  exact if_pos hpublished

/-! ## Whole files -/

theorem scanNode_carry {r r' : EvioFileSource × JEvent EvioTree} {node : EvioTree} (h : scanNode r node = some r') :
    ∃ run type, r'.1 = r.1.carry run type := by
  unfold scanNode at h
  obtain ⟨s₁, hprestart, hheader⟩ := Option.bind_eq_some_iff.mp h
  have hs₁ : ∃ run, s₁ = r.1.carry run r.1.curEventType := by
    unfold readPrestart at hprestart
    split at hprestart
    · simp only [Option.bind_eq_bind, Option.bind_eq_some_iff] at hprestart
      obtain ⟨_, _, run, _, hrun⟩ := hprestart
      exact ⟨toInt run, (Option.some.inj hrun).symm⟩
    · exact ⟨r.1.curRunNumber, (Option.some.inj hprestart).symm⟩
  obtain ⟨run₁, rfl⟩ := hs₁
  unfold readHeader at hheader
  split at hheader
  · simp only [Option.bind_eq_bind, Option.bind_eq_some_iff] at hheader
    obtain ⟨_, _, _, _, run, _, type, _, hr'⟩ := hheader
    exact ⟨toInt run, toInt type, by rw [← Option.some.inj hr']; rfl⟩
  · exact ⟨run₁, r.1.curEventType, by rw [← Option.some.inj hheader]⟩

theorem scan_carry {nodes : List EvioTree} {r r' : EvioFileSource × JEvent EvioTree}
    (h : nodes.foldlM scanNode r = some r') : ∃ run type, r'.1 = r.1.carry run type := by
  refine Run.foldlM_invariant (I := fun r' => ∃ run type, r'.1 = r.1.carry run type) ?_
    ⟨r.1.curRunNumber, r.1.curEventType, rfl⟩ h
  rintro r₁ node r₂ ⟨run₁, type₁, h₁⟩ hstep
  obtain ⟨run, type, h₂⟩ := scanNode_carry hstep
  exact ⟨run, type, by rw [h₂, h₁, carry_carry]⟩

/-- Events change what the source carries along, and nothing else. -/
theorem getEvent_carry {s s' : EvioFileSource} {tree : EvioTree} {event event' : JEvent EvioTree} {err : JError}
    (h : s.getEvent getNodeList (some tree) event = some (s', event', err)) : ∃ run type, s' = s.carry run type := by
  unfold getEvent at h
  simp only at h
  split at h
  · simp only [Option.bind_eq_bind, Option.bind_eq_some_iff] at h
    obtain ⟨root, _, r, hscan, hr⟩ := h
    obtain ⟨run, type, hcarry⟩ := scan_carry hscan
    have hs' : r.1 = s' := congrArg Prod.fst (Option.some.inj hr)
    refine ⟨run, type, ?_⟩
    rw [← hs', hcarry]
    rfl
  · exact absurd h (by simp)

theorem readEvents_carry {s s' : EvioFileSource} {file : List EvioTree}
    (h : s.readEvents getNodeList file = some s') : ∃ run type, s' = s.carry run type := by
  refine Run.foldlM_invariant (I := fun s' => ∃ run type, s' = s.carry run type) ?_
    ⟨s.curRunNumber, s.curEventType, rfl⟩ h
  rintro s₁ tree s₂ ⟨run₁, type₁, h₁⟩ hstep
  obtain ⟨r, hr, rfl⟩ := Option.map_eq_some_iff.mp hstep
  obtain ⟨run, type, h₂⟩ := getEvent_carry getNodeList hr
  exact ⟨run, type, by rw [h₂, h₁, carry_carry]⟩

/-- **The two headers of an event agree**, whatever events came before it: when the HEAD bank has the five words that
    `GetObjects` asks for, and no prestart bank comes after it in the event. -/
theorem headersAgree_of_headed (hlist : ∀ tree, getNodeList tree = tree.nodes) {s s' : EvioFileSource}
    (hchan : s.chan = true) (hoverwrite : s.overwriteRunNumber = -1) (htags : s.childTriggerTag ≠ s.eventHeaderTag)
    {file : List EvioTree} (hfile : s.readEvents getNodeList file = some s') {tree : EvioTree}
    (hwell : s.WellTagged tree) {before after : List EvioTree} {head : List UInt32}
    (hhead : s.Headed tree before head after) (hfive : head.length = 5)
    (hafter : ∀ n ∈ after, n.tag ≠ s.prestartTag) (event : JEvent EvioTree) :
    s'.HeadersAgree getNodeList tree event := by
  obtain ⟨run₁, type₁, rfl⟩ := readEvents_carry getNodeList hfile
  -- events before this one only changed what is carried along
  match head, hfive with
  | [w₀, run, number, time, type], _ =>
    obtain ⟨event', hget, href, hrun, hnumber⟩ := getEvent_headed getNodeList hlist (s := s.carry run₁ type₁) hchan
      hoverwrite ⟨hwell.mothers, hwell.triggers, hwell.prestarts⟩ ⟨hhead.nodes, hhead.oneHead, hhead.inMother⟩
      hafter event
    have honly : ∀ n ∈ tree.nodes, n.tag = s.eventHeaderTag →
        n = .leaf s.eventHeaderTag [w₀, run, number, time, type] := by
      intro n hn htag
      rw [hhead.nodes, List.mem_append, List.mem_cons] at hn
      rcases hn with hbefore | rfl | hlater
      · exact absurd htag (hhead.oneHead n (List.mem_append_left after hbefore))
      · rfl
      · exact absurd htag (hhead.oneHead n (List.mem_append_right before hlater))
    obtain ⟨m, hm, hmother, hchild⟩ := hhead.inMother
    obtain ⟨d, jerr, hobjects, hrunN, heventN⟩ := getObjectsEventData_headed getNodeList hlist
      (s := (s.carry run₁ type₁).carry (toInt run) (toInt type)) ⟨hwell.mothers, hwell.triggers, hwell.prestarts⟩
      htags honly ⟨m, hm, hmother, _, hchild, rfl⟩ href
    refine ⟨_, event', d, jerr, hget, hobjects, ?_, ?_⟩
    · rw [hrun, hrunN]
    · rw [hnumber, heventN]

/-- A prestart event of run 7. -/
def prestartOfRun7 : EvioTree := .leaf 0x11 [0, 7, 0]

/-- A VME mother bank with the HEAD bank `head`. -/
def daqMother (head : List UInt32) : EvioTree := .container 0x50 [.leaf 0xe10F head, .leaf 0xe118 [1, 2]]

/-- An event of the DAQ, with `later` after the mother bank. -/
def daqEvent (head : List UInt32) (later : List EvioTree) : EvioTree := .container 129 (daqMother head :: later)

theorem headersAgree_daqEvent :
    ∃ s', ({} : EvioFileSource).readEvents Dom.nodes [prestartOfRun7] = some s' ∧
      s'.HeadersAgree Dom.nodes (daqEvent [0, 7, 42, 1000, 129] []) {} := by
  have hfile : ({} : EvioFileSource).readEvents Dom.nodes [prestartOfRun7] =
      some (({} : EvioFileSource).carry 7 0x11) := rfl
  have hnodes : (daqEvent [0, 7, 42, 1000, 129] []).nodes =
      [daqEvent [0, 7, 42, 1000, 129] [], daqMother [0, 7, 42, 1000, 129]] ++
        .leaf 0xe10F [0, 7, 42, 1000, 129] :: [.leaf 0xe118 [1, 2]] := rfl
  have hcases : ∀ n ∈ (daqEvent [0, 7, 42, 1000, 129] []).nodes, n = daqEvent [0, 7, 42, 1000, 129] [] ∨
      n = daqMother [0, 7, 42, 1000, 129] ∨ n = .leaf 0xe10F [0, 7, 42, 1000, 129] ∨ n = .leaf 0xe118 [1, 2] := by
    intro n hn
    simpa [hnodes, or_assoc] using hn
  have hwell : ({} : EvioFileSource).WellTagged (daqEvent [0, 7, 42, 1000, 129] []) := by
    refine ⟨?_, ?_, ?_⟩
    · intro m hm
      rcases hcases m hm with rfl | rfl | rfl | rfl <;> simp [isMother, daqEvent, daqMother, Dom.tag, Dom.children?]
    · intro m hm
      rcases hcases m hm with rfl | rfl | rfl | rfl <;> simp [daqEvent, daqMother, Dom.tag, Dom.data?]
    · intro m hm
      rcases hcases m hm with rfl | rfl | rfl | rfl <;> simp [daqEvent, daqMother, Dom.tag]
  have hhead : ({} : EvioFileSource).Headed (daqEvent [0, 7, 42, 1000, 129] [])
      [daqEvent [0, 7, 42, 1000, 129] [], daqMother [0, 7, 42, 1000, 129]] [0, 7, 42, 1000, 129]
      [.leaf 0xe118 [1, 2]] := by
    refine ⟨hnodes, ?_, daqMother [0, 7, 42, 1000, 129], ?_, rfl, ?_⟩
    · simp [daqEvent, daqMother, Dom.tag]
    · rw [hnodes]
      simp
    · simp [daqMother, Dom.children, Dom.children?]
  exact ⟨_, hfile, headersAgree_of_headed Dom.nodes (fun _ => rfl) rfl rfl (by decide) hfile hwell hhead rfl
    (by simp [Dom.tag]) {}⟩

/-- The run numbers of the `JEvent` and of the `eventData` objects. -/
def runNumbers (s : EvioFileSource) (tree : EvioTree) : Option (Int × List Int) := do
  let (s, event, _) ← s.getEvent getNodeList (some tree) {}
  let (data, _) ← s.getObjectsEventData getNodeList event
  some (event.runNumber, data.map (fun d => toInt d.runN))

theorem HeadersAgree.runNumbers {s : EvioFileSource} {tree : EvioTree} (h : s.HeadersAgree getNodeList tree {}) :
    ∃ run, s.runNumbers getNodeList tree = some (run, [run]) := by
  obtain ⟨s', event', d, jerr, hget, hobjects, hrun, -⟩ := h
  refine ⟨event'.runNumber, ?_⟩
  unfold EvioFileSource.runNumbers
  simp [hget, hobjects, hrun]

/-- `GetObjects` refuses a HEAD bank with a sixth word, a prestart bank after the HEAD bank changes the run number of
    the `JEvent` only, and trigger banks with the tag of the HEAD bank hide it. -/
theorem headers_disagree :
    ¬ ({} : EvioFileSource).HeadersAgree Dom.nodes (daqEvent [0, 7, 42, 1000, 129, 0] []) {} ∧
    ¬ ({} : EvioFileSource).HeadersAgree Dom.nodes (daqEvent [0, 7, 42, 1000, 129] [.leaf 0x11 [0, 8, 0]]) {} ∧
    ¬ ({ childTriggerTag := 0xe10F } : EvioFileSource).HeadersAgree Dom.nodes
      (daqEvent [0, 7, 42, 1000, 129] []) {} := by
  refine ⟨?_, ?_, ?_⟩
  · intro h
    obtain ⟨run, hrun⟩ := h.runNumbers
    have hwords : some ((7 : Int), [(0 : Int)]) = some (run, [run]) := hrun
    simp only [Option.some.injEq, Prod.mk.injEq, List.cons.injEq, and_true] at hwords
    omega
  · intro h
    obtain ⟨run, hrun⟩ := h.runNumbers
    have hwords : some ((8 : Int), [(7 : Int)]) = some (run, [run]) := hrun
    simp only [Option.some.injEq, Prod.mk.injEq, List.cons.injEq, and_true] at hwords
    omega
  · intro h
    obtain ⟨run, hrun⟩ := h.runNumbers
    have hwords : some ((7 : Int), [(0 : Int)]) = some (run, [run]) := hrun
    simp only [Option.some.injEq, Prod.mk.injEq, List.cons.injEq, and_true] at hwords
    omega

end EvioFileSource

end BdxReco
