import BdxReco.TRIDAS.ParseEvent

/-!
# `TRIDAS.PtFileReader` — a post-trigger file

A file is a header, a datacard, and the time slices; a slice is a header and its events. The constructor walks over the
slices once and notes where they start. `operator []` goes to the place that was noted and reads the slice.

* `new_encode`: the constructor notes the start of every slice.
* `reads_encode`: the slices can then be read in any order, any number of times.

The stream belongs to the reader, and every access leaves it where it ends.
-/

namespace BdxReco.Tridas

open ByteStream

/-! ## The headers -/

structure PTHeader where
  run_number : BitVec 32
  file_number : BitVec 32
  run_start_time : BitVec 64
  datacard_size : BitVec 32
  number_of_events : BitVec 32
  number_of_timeslices : BitVec 32
  effective_file_size : BitVec 32
  deriving DecidableEq, Repr

structure TimeSliceHeader where
  TS_ID : BitVec 64
  NEvents : BitVec 32
  /-- The size with the header. -/
  TS_size : BitVec 32
  deriving DecidableEq, Repr

structure TEHeaderInfo where
  EventTag : BitVec 32
  EventID : BitVec 32
  /-- The length with the header. -/
  EventL : BitVec 32
  nHit : BitVec 32
  StartTime : BitVec 64
  TSCompleted : BitVec 32
  nseeds : List.Vector (BitVec 32) 5
  plugin_trigtype : List.Vector (BitVec 32) 8
  plugin_nseeds : List.Vector (BitVec 32) 8
  deriving DecidableEq

/-- The seven numbers of the file's header. -/
def PTHeader.layout : Layout PTHeader :=
  let numbers := (Layout.word 4).prod <| (Layout.word 4).prod <| (Layout.word 8).prod <|
    (Layout.word 4).prod <| (Layout.word 4).prod <| (Layout.word 4).prod (Layout.word 4)
  numbers.map {
    toFun := fun (a, b, c, d, e, f, g) => ⟨a, b, c, d, e, f, g⟩
    invFun := fun ⟨a, b, c, d, e, f, g⟩ => (a, b, c, d, e, f, g)
    left_inv := fun _ => rfl
    right_inv := fun _ => rfl }

def TimeSliceHeader.layout : Layout TimeSliceHeader :=
  ((Layout.word 8).prod <| (Layout.word 4).prod (Layout.word 4)).map {
    toFun := fun (a, b, c) => ⟨a, b, c⟩
    invFun := fun ⟨a, b, c⟩ => (a, b, c)
    left_inv := fun _ => rfl
    right_inv := fun _ => rfl }

def TEHeaderInfo.layout : Layout TEHeaderInfo :=
  let numbers := (Layout.word 4).prod <| (Layout.word 4).prod <| (Layout.word 4).prod <| (Layout.word 4).prod <|
    (Layout.word 8).prod <| (Layout.word 4).prod <|
    ((Layout.word 4).vector 5).prod <| ((Layout.word 4).vector 8).prod ((Layout.word 4).vector 8)
  numbers.map {
    toFun := fun (a, b, c, d, e, f, g, h, i) => ⟨a, b, c, d, e, f, g, h, i⟩
    invFun := fun ⟨a, b, c, d, e, f, g, h, i⟩ => (a, b, c, d, e, f, g, h, i)
    left_inv := fun _ => rfl
    right_inv := fun _ => rfl }

theorem PTHeader.layout_size : PTHeader.layout.size = 32 := rfl
theorem TimeSliceHeader.layout_size : TimeSliceHeader.layout.size = 16 := rfl
theorem TEHeaderInfo.layout_size : TEHeaderInfo.layout.size = 112 := rfl

/-! ## Reading -/

/-- `Event<sample::uncompressed>`. -/
structure Event where
  head : TEHeaderInfo
  hits : List Hit
  deriving DecidableEq

/-- `TimeSlice<sample::uncompressed>`. -/
structure TimeSlice where
  head : TimeSliceHeader
  events : List Event
  deriving DecidableEq

/-- `nHit()`, made an `int`. -/
def Event.nHit (head : TEHeaderInfo) : Int := toInt head.nHit.toNat

/-- `size() - sizeof(m_head)`, made an `int`. -/
def Event.bodySize (head : TEHeaderInfo) : Int := toInt ((head.EventL.toNat : Int) - 112)

/-- `Event(stream)`. -/
def Event.new (s : ByteStream) : Except ReadError (Event × ByteStream) := do
  let (head, s) ← readHeader TEHeaderInfo.layout s
  let (hits, s) ← parseEvent s (Event.nHit head) (Event.bodySize head)
  .ok (⟨head, hits⟩, s)

/-- The loop over the events of a slice. -/
def readEvents : Nat → ByteStream → Except ReadError (List Event × ByteStream)
  | 0, s => .ok ([], s)
  | n + 1, s => do
    let (event, s) ← Event.new s
    let (events, s) ← readEvents n s
    .ok (event :: events, s)

def TimeSlice.nEvents (head : TimeSliceHeader) : Int := toInt head.NEvents.toNat

/-- `TimeSlice(stream)`; a negative number of events is refused by `reserve`. -/
def TimeSlice.new (s : ByteStream) : Except ReadError (TimeSlice × ByteStream) := do
  let (head, s) ← readHeader TimeSliceHeader.layout s
  if nEvents head < 0 then .error .length
  else do
    let (events, s) ← readEvents (nEvents head).toNat s
    .ok (⟨head, events⟩, s)

/-- `PtFileReader<sample::uncompressed>`. -/
structure PtFileReader where
  m_file : ByteStream
  m_head : PTHeader
  m_ts_pos : List Int

/-- The loop of the constructor, which takes at most `n` more turns after the first. -/
def indexSlices : Nat → ByteStream → Except ReadError (List Int × ByteStream)
  | n, s => do
    let (pos, s) := s.tellg
    let (tsHead, s) ← readHeader TimeSliceHeader.layout s
    let s := s.ignore ((tsHead.TS_size.toNat : Int) - 16)
    if s.fail then .ok ([pos], s)
    else
      match n with
      | 0 => .ok ([pos], s)
      | n + 1 => do
        let (later, s) ← indexSlices n s
        .ok (pos :: later, s)

namespace PtFileReader

/-- The constructor, on a file that could be opened. -/
def new (content : List UInt8) : Except ReadError PtFileReader := do
  let (head, s) ← readHeader PTHeader.layout (opened content)
  let s := s.seekgCur head.datacard_size.toNat
  let (tsPos, s) ← indexSlices (head.number_of_timeslices.toNat - 1) s
  .ok ⟨(s.seekg 0).clear, head, tsPos⟩

/-- `operator [](pos)`. -/
def get (r : PtFileReader) (pos : Nat) : Except ReadError (TimeSlice × PtFileReader) :=
  match r.m_ts_pos[pos]? with
  | none => .error .pastSlices
  | some tsPos => do
    let s := (r.m_file.seekg tsPos).clear
    let (slice, s) ← TimeSlice.new s
    .ok (slice, { r with m_file := s })

def runNumber (r : PtFileReader) : Nat := r.m_head.run_number.toNat

/-- Several accesses, one after the other. -/
def reads (r : PtFileReader) : List Nat → Except ReadError (List TimeSlice × PtFileReader)
  | [] => .ok ([], r)
  | pos :: later => do
    let (slice, r) ← r.get pos
    let (slices, r) ← r.reads later
    .ok (slice :: slices, r)

end PtFileReader

/-! ## Files -/

/-- An event as it lies in the file. -/
structure StoredEvent where
  head : TEHeaderInfo
  frames : List Frame
  frames_ne : frames ≠ []
  EventL_eq : head.EventL.toNat = 112 + sizeOf frames
  nHit_eq : head.nHit.toNat = (hitsOf frames).length
  size_lt : sizeOf frames < 2 ^ 31

namespace StoredEvent

def encode (ev : StoredEvent) : List UInt8 := TEHeaderInfo.layout.encode ev.head ++ ev.frames.flatMap Frame.encode

def event (ev : StoredEvent) : Event := ⟨ev.head, hitsOf ev.frames⟩

end StoredEvent

/-- A time slice as it lies in the file. -/
structure StoredSlice where
  head : TimeSliceHeader
  events : List StoredEvent
  NEvents_eq : head.NEvents.toNat = events.length
  TS_size_eq : head.TS_size.toNat = 16 + (events.flatMap StoredEvent.encode).length

namespace StoredSlice

def encode (ts : StoredSlice) : List UInt8 :=
  TimeSliceHeader.layout.encode ts.head ++ ts.events.flatMap StoredEvent.encode

def timeSlice (ts : StoredSlice) : TimeSlice := ⟨ts.head, ts.events.map StoredEvent.event⟩

end StoredSlice

/-- A whole file. -/
structure StoredFile where
  head : PTHeader
  datacard : List UInt8
  slices : List StoredSlice
  datacard_size_eq : head.datacard_size.toNat = datacard.length
  slices_ne : slices ≠ []
  number_of_timeslices_eq : head.number_of_timeslices.toNat = slices.length

namespace StoredFile

/-- What is in front of the slices. -/
def front (f : StoredFile) : List UInt8 := PTHeader.layout.encode f.head ++ f.datacard

def encode (f : StoredFile) : List UInt8 := f.front ++ f.slices.flatMap StoredSlice.encode

end StoredFile

variable {s s' : ByteStream} {pre bs : List UInt8}

/-! ## Reading what was written -/

theorem length_hitsOf_le (fs : List Frame) : 16 * (hitsOf fs).length ≤ sizeOf fs := by
  have hadd : ∀ (g : List Hit) (f : Frame), (addFrame g f).length ≤ g.length + 1 := by
    intro g f
    unfold addFrame
    split <;> simp
  have hfold : ∀ (g : List Hit) (fs : List Frame), (fs.foldl addFrame g).length ≤ g.length + fs.length := by
    intro g fs
    induction fs generalizing g with
    | nil => simp
    | cons f fs ih =>
        have hstep := hadd g f
        have hlater := ih (addFrame g f)
        rw [List.foldl_cons, List.length_cons]
        omega
  have hsize : 16 * fs.length ≤ sizeOf fs := by
    induction fs with
    | nil => simp [sizeOf]
    | cons f fs ih =>
        have hf := f.size_le.1
        unfold sizeOf at ih ⊢
        rw [List.map_cons, List.sum_cons, List.length_cons]
        omega
  have hlen := hfold [] fs
  unfold hitsOf
  rw [List.length_nil] at hlen
  omega

theorem readHeader_some {α : Type} {l : Layout α} {a : α} (h : l.readFrom s = some (a, s')) :
    readHeader l s = .ok (a, s') := by
  unfold readHeader
  rw [h]

theorem Event.new_of_parts {head : TEHeaderInfo} {hits : List Hit} {s₁ s₂ : ByteStream}
    (hhead : TEHeaderInfo.layout.readFrom s = some (head, s₁))
    (hparse : parseEvent s₁ (nHit head) (bodySize head) = .ok (hits, s₂)) :
    Event.new s = .ok (⟨head, hits⟩, s₂) := by
  unfold Event.new
  rw [readHeader_some hhead, ok_bind]
  simp only
  rw [hparse, ok_bind]

theorem TimeSlice.new_of_parts {head : TimeSliceHeader} {events : List Event} {n : Nat} {s₁ s₂ : ByteStream}
    (hhead : TimeSliceHeader.layout.readFrom s = some (head, s₁)) (hn : nEvents head = (n : Int))
    (hevents : readEvents n s₁ = .ok (events, s₂)) : TimeSlice.new s = .ok (⟨head, events⟩, s₂) := by
  unfold TimeSlice.new
  rw [readHeader_some hhead, ok_bind]
  simp only
  rw [hn, if_neg (by omega), Int.toNat_natCast, hevents, ok_bind]

/-- **An event that was written is read.** -/
theorem StoredEvent.new_encode (ev : StoredEvent) (hat : ByteStream.At s pre (ev.encode ++ bs)) :
    ∃ s', Event.new s = .ok (ev.event, s') ∧ ByteStream.At s' (pre ++ ev.encode) bs := by
  unfold StoredEvent.encode at hat ⊢
  rw [List.append_assoc] at hat
  obtain ⟨s₁, hhead, hat₁⟩ := TEHeaderInfo.layout.readFrom_encode hat
  have hsize := ev.size_lt
  have hhits := length_hitsOf_le ev.frames
  have hnHit : Event.nHit ev.head = ((hitsOf ev.frames).length : Int) := by
    unfold Event.nHit
    rw [ev.nHit_eq]
    exact toInt_of_bounds (by omega) (by omega)
  have hEventL : Event.bodySize ev.head = (sizeOf ev.frames : Int) := by
    unfold Event.bodySize
    rw [ev.EventL_eq, toInt_of_bounds (by omega) (by omega)]
    omega
  rcases parseEvent_stored (stored_of_encode ev.frames_ne bs) hat₁ (hitsOf ev.frames).length hsize with
    ⟨s₂, _, hparse, hbehind⟩ | ⟨hpast, _⟩
  · rw [← hnHit, ← hEventL] at hparse
    refine ⟨s₂, ?_, by rw [← List.append_assoc]; exact hbehind⟩
    rw [Event.new_of_parts hhead hparse]
    unfold StoredEvent.event paddedTo
    rw [Nat.sub_self, List.replicate_zero, List.append_nil]
  · omega

theorem readEvents_encode (evs : List StoredEvent) (hat : ByteStream.At s pre (evs.flatMap StoredEvent.encode ++ bs)) :
    ∃ s', readEvents evs.length s = .ok (evs.map StoredEvent.event, s') ∧
      ByteStream.At s' (pre ++ evs.flatMap StoredEvent.encode) bs := by
  induction evs generalizing s pre with
  | nil => exact ⟨s, rfl, by simpa using hat⟩
  | cons ev evs ih =>
      rw [List.flatMap_cons, List.append_assoc] at hat
      obtain ⟨s₁, hev, hat₁⟩ := ev.new_encode hat
      obtain ⟨s₂, hevs, hat₂⟩ := ih hat₁
      refine ⟨s₂, ?_, by rw [List.flatMap_cons, ← List.append_assoc]; exact hat₂⟩
      simp only [List.length_cons, readEvents, hev, hevs, bind, Except.bind, List.map_cons]

/-- An event takes bytes, so that a slice has not too many of them for an `int`. -/
theorem StoredSlice.nEvents_eq (ts : StoredSlice) : TimeSlice.nEvents ts.head = (ts.events.length : Int) := by
  have hlen : ∀ evs : List StoredEvent, 112 * evs.length ≤ (evs.flatMap StoredEvent.encode).length := by
    intro evs
    induction evs with
    | nil => simp
    | cons ev evs ih =>
        rw [List.flatMap_cons, List.length_append, List.length_cons, StoredEvent.encode, List.length_append,
          TEHeaderInfo.layout.length_encode, TEHeaderInfo.layout_size]
        omega
  have hevents := hlen ts.events
  have hsize := ts.head.TS_size.isLt
  rw [ts.TS_size_eq] at hsize
  unfold TimeSlice.nEvents
  rw [ts.NEvents_eq]
  exact toInt_of_bounds (by omega) (by omega)

/-- **A slice that was written is read.** -/
theorem StoredSlice.new_encode (ts : StoredSlice) (hat : ByteStream.At s pre (ts.encode ++ bs)) :
    ∃ s', TimeSlice.new s = .ok (ts.timeSlice, s') ∧ ByteStream.At s' (pre ++ ts.encode) bs := by
  unfold StoredSlice.encode at hat ⊢
  rw [List.append_assoc] at hat
  obtain ⟨s₁, hhead, hat₁⟩ := TimeSliceHeader.layout.readFrom_encode hat
  obtain ⟨s₂, hevents, hat₂⟩ := readEvents_encode ts.events hat₁
  exact ⟨s₂, TimeSlice.new_of_parts hhead ts.nEvents_eq hevents, by rw [← List.append_assoc]; exact hat₂⟩

theorem StoredSlice.length_encode (ts : StoredSlice) : ts.encode.length = ts.head.TS_size.toNat := by
  rw [StoredSlice.encode, List.length_append, TimeSliceHeader.layout.length_encode, TimeSliceHeader.layout_size,
    ts.TS_size_eq]

/-! ## The index -/

/-- Where the slices start, from the place `p` on. -/
def startsFrom : Nat → List StoredSlice → List Int
  | _, [] => []
  | p, ts :: later => (p : Int) :: startsFrom (p + ts.encode.length) later

/-- One slice of the loop. -/
theorem indexSlices_step (ts : StoredSlice) (hat : ByteStream.At s pre (ts.encode ++ bs)) (n : Nat) :
    ∃ s', ByteStream.At s' (pre ++ ts.encode) bs ∧ indexSlices 0 s = .ok ([(pre.length : Int)], s') ∧
      indexSlices (n + 1) s = Except.bind (indexSlices n s') (fun r => .ok ((pre.length : Int) :: r.1, r.2)) := by
  have hlen := ts.length_encode
  unfold StoredSlice.encode at hat hlen ⊢
  rw [List.append_assoc] at hat
  obtain ⟨s₁, hhead, hat₁⟩ := TimeSliceHeader.layout.readFrom_encode hat
  have hskip : ((ts.head.TS_size.toNat : Int) - 16).toNat = (ts.events.flatMap StoredEvent.encode).length := by
    rw [ts.TS_size_eq]
    omega
  have hat₂ := hat₁.ignore hskip
  have htell := hat.tellg
  refine ⟨_, by rw [← List.append_assoc]; exact hat₂, ?_, ?_⟩
  · rw [indexSlices, htell]
    simp only [readHeader, hhead, bind, Except.bind, hat₂.bits.2, Bool.false_eq_true, if_false]
  · rw [indexSlices, htell]
    simp only [readHeader, hhead, bind, Except.bind, hat₂.bits.2, Bool.false_eq_true, if_false]

/-- The loop of the constructor goes from slice to slice. -/
theorem indexSlices_encode {ts : StoredSlice} {later : List StoredSlice}
    (hat : ByteStream.At s pre ((ts :: later).flatMap StoredSlice.encode ++ bs)) :
    ∃ s', indexSlices later.length s = .ok (startsFrom pre.length (ts :: later), s') ∧
      ByteStream.At s' (pre ++ (ts :: later).flatMap StoredSlice.encode) bs := by
  induction later generalizing s pre ts with
  | nil =>
      rw [List.flatMap_cons, List.append_assoc] at hat
      obtain ⟨s₁, hat₁, hindex, _⟩ := indexSlices_step ts hat 0
      exact ⟨s₁, hindex, by simpa using hat₁⟩
  | cons next later ih =>
      rw [List.flatMap_cons, List.append_assoc] at hat
      obtain ⟨s₁, hat₁, _, hindex⟩ := indexSlices_step ts hat later.length
      obtain ⟨s₂, hrest, hat₂⟩ := ih hat₁
      refine ⟨s₂, ?_, by rw [List.flatMap_cons, ← List.append_assoc]; exact hat₂⟩
      rw [List.length_cons, hindex, hrest, List.length_append]
      rfl

/-! ## The file -/

/-- The reader knows where the slices of the file start, and its stream has not failed. -/
structure Indexed (f : StoredFile) (r : PtFileReader) : Prop where
  content : r.m_file.content = f.encode
  fail : r.m_file.fail = false
  head : r.m_head = f.head
  tsPos : r.m_ts_pos = startsFrom f.front.length f.slices

/-- **The constructor notes the start of every slice.** -/
theorem new_encode (f : StoredFile) : ∃ r, PtFileReader.new f.encode = .ok r ∧ Indexed f r := by
  obtain ⟨ts, later, hslices⟩ := List.exists_cons_of_ne_nil f.slices_ne
  have hopen := at_opened f.encode
  have hencode : f.encode = PTHeader.layout.encode f.head ++
      (f.datacard ++ (f.slices.flatMap StoredSlice.encode ++ [])) := by
    unfold StoredFile.encode StoredFile.front
    rw [List.append_nil, List.append_assoc]
  rw [hencode] at hopen
  obtain ⟨s₁, hhead, hat₁⟩ := PTHeader.layout.readFrom_encode hopen
  have hat₂ : ByteStream.At _ f.front _ := hat₁.seekgCur
  rw [← f.datacard_size_eq, hslices] at hat₂
  obtain ⟨s₃, hindex, hat₃⟩ := indexSlices_encode hat₂
  have hturns : f.head.number_of_timeslices.toNat - 1 = later.length := by
    rw [f.number_of_timeslices_eq, hslices]
    rfl
  refine ⟨⟨(s₃.seekg 0).clear, f.head, startsFrom f.front.length (ts :: later)⟩, ?_, Indexed.mk ?_ rfl rfl ?_⟩
  · unfold PtFileReader.new readHeader
    rw [hencode, hhead]
    simp only [bind, Except.bind, hturns, hindex]
  · rw [clear_content, seekg_content, hat₃.content, ← hslices, List.append_nil]
    rfl
  · rw [hslices]

/-- The start of a slice is where it lies. -/
theorem startsFrom_get {slices : List StoredSlice} {k : Nat} {ts : StoredSlice} (hk : slices[k]? = some ts) (p : Nat) :
    ∃ before after, slices.flatMap StoredSlice.encode = before ++ (ts.encode ++ after) ∧
      (startsFrom p slices)[k]? = some ((p + before.length : Nat) : Int) := by
  induction slices generalizing k p with
  | nil => exact absurd hk (by simp)
  | cons first slices ih =>
      cases k with
      | zero =>
          have hts : first = ts := by simpa using hk
          exact ⟨[], slices.flatMap StoredSlice.encode, by rw [hts]; rfl, rfl⟩
      | succ k =>
          obtain ⟨before, after, hsplit, hpos⟩ := ih (by simpa using hk) (p + first.encode.length)
          refine ⟨first.encode ++ before, after, by rw [List.flatMap_cons, hsplit, List.append_assoc], ?_⟩
          rw [startsFrom, List.getElem?_cons_succ, hpos, List.length_append, Nat.add_assoc]

/-- **An access reads its slice**, wherever the stream stands. -/
theorem Indexed.get {f : StoredFile} {r : PtFileReader} (h : Indexed f r) {k : Nat} {ts : StoredSlice}
    (hk : f.slices[k]? = some ts) : ∃ r', r.get k = .ok (ts.timeSlice, r') ∧ Indexed f r' := by
  obtain ⟨before, after, hsplit, hpos⟩ := startsFrom_get hk f.front.length
  have hcontent : r.m_file.content = (f.front ++ before) ++ (ts.encode ++ after) := by
    rw [h.content, StoredFile.encode, hsplit, List.append_assoc]
  have hseek := (at_seekg h.fail hcontent).clear
  rw [List.length_append] at hseek
  obtain ⟨s', hread, hat'⟩ := ts.new_encode hseek
  refine ⟨{ r with m_file := s' }, ?_, ⟨?_, hat'.bits.2, h.head, h.tsPos⟩⟩
  · unfold PtFileReader.get
    rw [h.tsPos, hpos]
    simp only [hread, bind, Except.bind]
  · rw [hat'.content, ← h.content, hcontent]
    simp

/-- **The slices of a file can be read in any order.** -/
theorem reads_encode (f : StoredFile) (ks : List Nat) (hks : ∀ k ∈ ks, k < f.slices.length) :
    ∃ r r' slices, PtFileReader.new f.encode = .ok r ∧ r.reads ks = .ok (slices, r') ∧
      slices.map some = ks.map (fun k => f.slices[k]?.map StoredSlice.timeSlice) := by
  obtain ⟨r, hnew, hindexed⟩ := new_encode f
  have hreads : ∀ r, Indexed f r → ∃ r' slices, r.reads ks = .ok (slices, r') ∧
      slices.map some = ks.map (fun k => f.slices[k]?.map StoredSlice.timeSlice) := by
    clear hnew hindexed r
    induction ks with
    | nil => exact fun r _ => ⟨r, [], rfl, rfl⟩
    | cons k ks ih =>
        intro r h
        have hk := hks k List.mem_cons_self
        obtain ⟨r₁, hget, h₁⟩ := h.get (List.getElem?_eq_getElem hk)
        obtain ⟨r₂, slices, hreads, hslices⟩ := ih (fun k' hk' => hks k' (List.mem_cons_of_mem k hk')) r₁ h₁
        refine ⟨r₂, f.slices[k].timeSlice :: slices, ?_, ?_⟩
        · simp only [PtFileReader.reads, hget, hreads, bind, Except.bind]
        · rw [List.map_cons, List.map_cons, hslices, List.getElem?_eq_getElem hk]
          rfl
  obtain ⟨r', slices, hrun, hslices⟩ := hreads r hindexed
  exact ⟨r, r', slices, hnew, hrun, hslices⟩

/-- An event of one hit that goes over two frames, and another hit. -/
def threeFrameEvent : StoredEvent where
  head := ⟨12081972, 41, 180, 2, 0, 1, ⟨[1, 0, 0, 0, 0], rfl⟩, ⟨List.replicate 8 0, rfl⟩, ⟨List.replicate 8 0, rfl⟩⟩
  frames := [oddFrame, subsequentFrame, oddFrame]
  frames_ne := by simp
  EventL_eq := by decide +kernel
  nHit_eq := by decide +kernel
  size_lt := by decide +kernel

def oneFrameEvent : StoredEvent where
  head := ⟨12081972, 42, 136, 1, 0, 1, ⟨[0, 1, 0, 0, 0], rfl⟩, ⟨List.replicate 8 0, rfl⟩, ⟨List.replicate 8 0, rfl⟩⟩
  frames := [oddFrame]
  frames_ne := by simp
  EventL_eq := by decide +kernel
  nHit_eq := by decide +kernel
  size_lt := by decide +kernel

/-- A file of two slices with a datacard of three bytes. -/
def twoSliceFile : StoredFile where
  head := ⟨7, 0, 1500000000, 3, 3, 2, 0⟩
  datacard := [60, 47, 62]
  slices :=
    [{ head := ⟨5, 2, 332⟩
       events := [threeFrameEvent, oneFrameEvent]
       NEvents_eq := by decide +kernel
       TS_size_eq := by decide +kernel },
     { head := ⟨6, 1, 152⟩
       events := [oneFrameEvent]
       NEvents_eq := by decide +kernel
       TS_size_eq := by decide +kernel }]
  datacard_size_eq := by decide +kernel
  slices_ne := by simp
  number_of_timeslices_eq := by decide +kernel

theorem reads_encode_twoSliceFile :
    ∃ r r' slices, PtFileReader.new twoSliceFile.encode = .ok r ∧ r.reads [1, 0, 1] = .ok (slices, r') ∧
      slices.map some = [1, 0, 1].map (fun k => twoSliceFile.slices[k]?.map StoredSlice.timeSlice) :=
  reads_encode twoSliceFile [1, 0, 1] (by decide)

end BdxReco.Tridas
