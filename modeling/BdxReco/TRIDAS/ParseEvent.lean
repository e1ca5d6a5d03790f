import BdxReco.TRIDAS.DataFrameHeader

/-!
# `TRIDAS.ParseEvent` — the hits of an event

`parse_event` for uncompressed samples. An event is a sequence of data frames, and its header says how many bytes and
how many hits they make. A frame with the fragmentation flag continues the hit of the frame before it, any other starts
the next hit. The hits are counted nowhere: they are put into an array of the announced size, one after the other.

* `parseEvent_stored`: of the frames that were written the reader makes their hits, unless there are more of them
  than announced, in which case it writes past the array.
* `parseEvent_ok_iff`: what it accepts are frames of exactly the announced size, except that the padding behind the last
  one may be cut off by the end of the file.

`event_size` is an `int` that is reduced by numbers of type `size_t`, so it wraps around.
-/

namespace BdxReco.Tridas

open ByteStream LittleEndian

/-- `Hit<sample::uncompressed>`. -/
structure Hit where
  heads : List DataFrameHeader
  samples : List (BitVec 16)
  deriving DecidableEq, Repr

/-- `Hit()`. -/
def Hit.new : Hit := ⟨[], []⟩

/-- What can go wrong while an event is read. -/
inductive ReadError where
  /-- "Error reading the full header from file." -/
  | header
  /-- "Incomplete event in file." -/
  | incomplete
  /-- An array is asked for with a negative size. -/
  | length
  /-- `current` points behind the last hit. -/
  | pastHits
  /-- A position behind the last time slice. -/
  | pastSlices
  /-- Not a result of the code: the turns of the loop given to the definition are used up. -/
  | turns
  deriving DecidableEq, Repr

theorem ok_bind {α β : Type} (a : α) (f : α → Except ReadError β) : (Except.ok a >>= f) = f a := rfl

/-- `readHeader`. -/
def readHeader {α : Type} (l : Layout α) (s : ByteStream) : Except ReadError (α × ByteStream) :=
  match l.readFrom s with
  | none => .error .header
  | some (head, s) => .ok (head, s)

/-- The value of an `int` after an assignment. -/
def toInt (x : Int) : Int := x.bmod (2 ^ 32)

/-- `read_samples`, for samples of `width` bytes: the samples, the number of bytes got, and the stream. -/
def readSamples (width : Nat) : Nat → ByteStream → List (BitVec 16) × Nat × ByteStream
  | 0, s => ([], 0, s)
  | n + 1, s =>
    let (got, s) := s.read width
    let (samples, readSize, s) := readSamples width n s
    (BitVec.ofNat 16 (number got) :: samples, got.length + readSize, s)

/-- The bytes of a sample in the frame. -/
def DataFrameHeader.width (head : DataFrameHeader) : Nat := if head.compressed then 1 else 2

/-- The bytes of a frame that `ignore` skips. -/
def DataFrameHeader.diff (head : DataFrameHeader) : Nat :=
  head.getDFHPayloadSize - head.getDFHNSamples * head.width

/-- The hits read so far and `current`. -/
structure Hits where
  hits : List Hit
  current : Nat
  deriving DecidableEq, Repr

/-- Move on to the next hit unless the frame continues one, and give the hit its header. -/
def Hits.pushHead (h : Hits) (head : DataFrameHeader) : Except ReadError Hits :=
  match h.hits[h.current]? with
  | none => .error .pastHits
  | some hit =>
    let current := if !head.subsequent && hit.heads.length != 0 then h.current + 1 else h.current
    if current < h.hits.length then
      .ok { hits := h.hits.modify current (fun hit => { hit with heads := hit.heads ++ [head] }), current }
    else .error .pastHits

def Hits.pushSamples (h : Hits) (samples : List (BitVec 16)) : Hits :=
  { h with hits := h.hits.modify h.current (fun hit => { hit with samples := hit.samples ++ samples }) }

/-- The body of the loop. -/
def readFrame (s : ByteStream) (eventSize : Int) (h : Hits) : Except ReadError (Hits × Int × ByteStream) := do
  let (head, s) ← readHeader DataFrameHeader.layout s
  let eventSize := toInt (eventSize - 16)
  let h ← h.pushHead head
  let (samples, readSize, s) := readSamples head.width head.getDFHNSamples s
  let eventSize := toInt (eventSize - readSize)
  let h := h.pushSamples samples
  let s := s.ignore head.diff
  let eventSize := toInt (eventSize - head.diff)
  .ok (h, eventSize, s)

/-- The loop, with a bound on its turns. -/
def readFrames : Nat → ByteStream → Int → Hits → Except ReadError (Hits × Int × ByteStream)
  | 0, _, _, _ => .error .turns
  | n + 1, s, eventSize, h => do
    let (h, eventSize, s) ← readFrame s eventSize h
    if !s.fail && decide (0 < eventSize) then readFrames n s eventSize h else .ok (h, eventSize, s)

/-- `parse_event(stream, nhits, event_size)`. Every turn of the loop reads a header of at least one byte. -/
def parseEvent (s : ByteStream) (nhits eventSize : Int) : Except ReadError (List Hit × ByteStream) :=
  if nhits < 0 then .error .length
  else do
    let (h, eventSize, s) ← readFrames (s.rest.length + 1) s eventSize ⟨List.replicate nhits.toNat Hit.new, 0⟩
    if eventSize ≠ 0 then .error .incomplete else .ok (h.hits, s)

/-! ## Frames -/

def sampleBytes (width : Nat) (samples : List (BitVec 16)) : List UInt8 :=
  samples.flatMap (fun x => bytes width x.toNat)

/-- A frame as it lies in the file. -/
structure Frame where
  head : DataFrameHeader
  samples : List (BitVec 16)
  padding : List UInt8
  samples_length : samples.length = head.getDFHNSamples
  samples_lt : ∀ x ∈ samples, x.toNat < 256 ^ head.width
  padding_length : padding.length = head.diff

namespace Frame

/-- The header and the samples of a frame. -/
def core (f : Frame) : List UInt8 :=
  DataFrameHeader.layout.encode f.head ++ sampleBytes f.head.width f.samples

def encode (f : Frame) : List UInt8 := f.core ++ f.padding

/-- The bytes the frame takes. -/
def size (f : Frame) : Nat := 16 + f.head.getDFHPayloadSize

end Frame

/-- The frame continues the last hit or starts a new one. -/
def addFrame (hits : List Hit) (f : Frame) : List Hit :=
  if f.head.subsequent && !hits.isEmpty then
    hits.modify (hits.length - 1) (fun hit => ⟨hit.heads ++ [f.head], hit.samples ++ f.samples⟩)
  else hits ++ [⟨[f.head], f.samples⟩]

/-- The hits that some frames make. -/
def hitsOf (fs : List Frame) : List Hit := fs.foldl addFrame []

def sizeOf (fs : List Frame) : Nat := (fs.map Frame.size).sum

variable {s s' : ByteStream} {pre bs : List UInt8}

/-! ## Samples -/

theorem length_sampleBytes (width : Nat) (samples : List (BitVec 16)) :
    (sampleBytes width samples).length = samples.length * width := by
  induction samples with
  | nil => simp [sampleBytes]
  | cons x samples ih =>
      unfold sampleBytes at ih ⊢
      rw [List.flatMap_cons, List.length_append, ih, length_bytes, List.length_cons, Nat.succ_mul]
      omega

theorem readSamples_encode {width : Nat} {samples : List (BitVec 16)} (hlt : ∀ x ∈ samples, x.toNat < 256 ^ width)
    (h : ByteStream.At s pre (sampleBytes width samples ++ bs)) :
    ∃ s', readSamples width samples.length s = (samples, samples.length * width, s') ∧
      ByteStream.At s' (pre ++ sampleBytes width samples) bs := by
  induction samples generalizing s pre with
  | nil => exact ⟨s, by simp [readSamples], by simpa [sampleBytes] using h⟩
  | cons x samples ih =>
      have hsplit : sampleBytes width (x :: samples) = bytes width x.toNat ++ sampleBytes width samples := rfl
      rw [hsplit, List.append_assoc] at h
      obtain ⟨s₁, hread, hat⟩ := h.read (length_bytes width x.toNat).symm
      obtain ⟨s₂, hrest, hat'⟩ := ih (fun y hy => hlt y (List.mem_cons_of_mem x hy)) hat
      have hx : BitVec.ofNat 16 (number (bytes width x.toNat)) = x := by
        rw [number_bytes (hlt x List.mem_cons_self), BitVec.ofNat_toNat]
        exact BitVec.setWidth_eq x
      refine ⟨s₂, ?_, by rw [hsplit, ← List.append_assoc]; exact hat'⟩
      rw [List.length_cons, readSamples, hread]
      simp only [hrest, hx, length_bytes]
      rw [Nat.succ_mul, Nat.add_comm]

/-- A stream that is not good gives no more bytes, and the samples are zero. -/
theorem readSamples_of_not_good (width : Nat) {n : Nat} (h : s.good = false) (hfail : s.fail = true) :
    ∃ s', readSamples width n s = (List.replicate n 0, 0, s') ∧ s'.fail = true := by
  induction n generalizing s with
  | zero => exact ⟨s, rfl, hfail⟩
  | succ n ih =>
      obtain ⟨s', hrest, hfail'⟩ := ih (s := { s with fail := true }) (by simp [good]) rfl
      refine ⟨s', ?_, hfail'⟩
      rw [readSamples, read_of_not_good h]
      simp only [hrest]
      rfl

theorem sampleBytes_cons (width : Nat) (x : BitVec 16) (samples : List (BitVec 16)) :
    sampleBytes width (x :: samples) = bytes width x.toNat ++ sampleBytes width samples := rfl

theorem bytes_zero (width : Nat) : bytes width 0 = List.replicate width 0 := by
  induction width with
  | zero => rfl
  | succ width ih => rw [bytes, List.replicate_succ, Nat.zero_div, ih]; rfl

theorem sampleBytes_zero (width n : Nat) :
    sampleBytes width (List.replicate n 0) = List.replicate (n * width) 0 := by
  induction n with
  | zero => simp [sampleBytes]
  | succ n ih =>
      have hzero : (0 : BitVec 16).toNat = 0 := rfl
      rw [List.replicate_succ, sampleBytes_cons, ih, hzero, bytes_zero, List.replicate_append_replicate, Nat.succ_mul,
        Nat.add_comm]

theorem number_append_zeros (got : List UInt8) (k : Nat) : number (got ++ List.replicate k 0) = number got := by
  induction got with
  | nil =>
      induction k with
      | zero => rfl
      | succ k ih =>
          rw [List.nil_append] at ih ⊢
          rw [List.replicate_succ, number.eq_2, ih]
          rfl
  | cons b got ih => rw [List.cons_append, number, number, ih]

/-- A sample whose bytes are `got`, filled up with zeros. -/
theorem bytes_ofNat_number {width : Nat} (hwidth : width ≤ 2) {got : List UInt8} (hgot : got.length ≤ width) :
    (BitVec.ofNat 16 (number got)).toNat < 256 ^ width ∧
      bytes width (BitVec.ofNat 16 (number got)).toNat = got ++ List.replicate (width - got.length) 0 := by
  have hlen : (got ++ List.replicate (width - got.length) 0).length = width := by
    rw [List.length_append, List.length_replicate]
    omega
  have hlt := number_lt (got ++ List.replicate (width - got.length) 0)
  have hback := bytes_number (got ++ List.replicate (width - got.length) 0)
  have hpow : 256 ^ width ≤ 256 ^ 2 := Nat.pow_le_pow_right (by decide) hwidth
  rw [hlen, number_append_zeros] at hlt hback
  have hvalue : (BitVec.ofNat 16 (number got)).toNat = number got := by
    rw [BitVec.toNat_ofNat]
    exact Nat.mod_eq_of_lt (Nat.lt_of_lt_of_le hlt hpow)
  rw [hvalue]
  exact ⟨hlt, hback⟩

/-- Any bytes are samples. -/
theorem exists_sampleBytes {width n : Nat} (hwidth : width ≤ 2) {bs : List UInt8} (hbs : bs.length = n * width) :
    ∃ samples : List (BitVec 16), samples.length = n ∧ (∀ x ∈ samples, x.toNat < 256 ^ width) ∧
      sampleBytes width samples = bs := by
  induction n generalizing bs with
  | zero =>
      have hnil : bs = [] := List.length_eq_zero_iff.mp (by simpa using hbs)
      exact ⟨[], rfl, by simp, by rw [hnil]; rfl⟩
  | succ n ih =>
      rw [Nat.succ_mul] at hbs
      have htake : (bs.take width).length = width := List.length_take_of_le (by omega)
      obtain ⟨samples, hn, hlt, hbytes⟩ := ih (by rw [List.length_drop]; omega : (bs.drop width).length = n * width)
      obtain ⟨hfirst, hword⟩ := bytes_ofNat_number hwidth (Nat.le_of_eq htake)
      refine ⟨BitVec.ofNat 16 (number (bs.take width)) :: samples, by rw [List.length_cons, hn],
        List.forall_mem_cons.mpr ⟨hfirst, hlt⟩, ?_⟩
      rw [sampleBytes_cons, hword, hbytes, htake, Nat.sub_self, List.replicate_zero, List.append_nil,
        List.take_append_drop]

/-- **Where the file ends within the samples**, the missing bytes are read as zeros but not counted. -/
theorem readSamples_cut {width n : Nat} (hwidth : width ≤ 2) (h : ByteStream.At s pre bs) (hshort : bs.length < n * width) :
    ∃ (samples : List (BitVec 16)) (s' : ByteStream), samples.length = n ∧ (∀ x ∈ samples, x.toNat < 256 ^ width) ∧
      sampleBytes width samples = bs ++ List.replicate (n * width - bs.length) 0 ∧
      readSamples width n s = (samples, bs.length, s') ∧ s'.fail = true := by
  induction n generalizing s pre bs with
  | zero => exact absurd hshort (by simp)
  | succ n ih =>
      rw [Nat.succ_mul] at hshort ⊢
      by_cases hlen : width ≤ bs.length
      · have htake : (bs.take width).length = width := List.length_take_of_le hlen
        have hbs : bs = bs.take width ++ bs.drop width := (List.take_append_drop width bs).symm
        obtain ⟨s₁, hread, hat⟩ := (hbs ▸ h : ByteStream.At s pre (bs.take width ++ bs.drop width)).read htake.symm
        obtain ⟨samples, s₂, hn, hlt, hbytes, hrest, hfail⟩ :=
          ih hat (by rw [List.length_drop]; omega)
        obtain ⟨hfirst, hword⟩ := bytes_ofNat_number hwidth (Nat.le_of_eq htake)
        have hmissing : n * width - (bs.drop width).length = n * width + width - bs.length := by
          rw [List.length_drop]
          omega
        refine ⟨BitVec.ofNat 16 (number (bs.take width)) :: samples, s₂, by rw [List.length_cons, hn],
          List.forall_mem_cons.mpr ⟨hfirst, hlt⟩, ?_, ?_, hfail⟩
        · rw [sampleBytes_cons, hword, hbytes, htake, Nat.sub_self, List.replicate_zero, List.append_nil,
            ← List.append_assoc, List.take_append_drop, hmissing]
        · rw [readSamples, hread]
          simp only [hrest, htake, List.length_drop, Prod.mk.injEq, true_and, and_true]
          omega
      · obtain ⟨hgot, hfail⟩ := read_short h (by omega : bs.length < width)
        obtain ⟨s₂, hrest, hfail'⟩ := readSamples_of_not_good width (n := n)
          (s := (s.read width).2) (by simp [good, hfail]) hfail
        obtain ⟨hfirst, hword⟩ := bytes_ofNat_number hwidth (by omega : bs.length ≤ width)
        refine ⟨BitVec.ofNat 16 (number bs) :: List.replicate n 0, s₂, by simp, ?_, ?_, ?_, hfail'⟩
        · refine List.forall_mem_cons.mpr ⟨hfirst, ?_⟩
          intro x hx
          rw [List.eq_of_mem_replicate hx]
          exact Nat.pow_pos (by decide)
        · have hsum : width - bs.length + n * width = n * width + width - bs.length := by omega
          rw [sampleBytes_cons, hword, sampleBytes_zero, List.append_assoc, List.replicate_append_replicate, hsum]
        · rw [readSamples]
          show (BitVec.ofNat 16 (number (s.read width).1) :: (readSamples width n (s.read width).2).1,
            (s.read width).1.length + (readSamples width n (s.read width).2).2.1,
            (readSamples width n (s.read width).2).2.2) = _
          rw [hgot, hrest, Nat.add_zero]

/-! ## Hits -/

theorem modify_append_cons {α : Type} (init : List α) (a : α) (later : List α) (f : α → α) :
    (init ++ a :: later).modify init.length f = init ++ f a :: later := by
  induction init with
  | nil => rfl
  | cons b init ih => rw [List.cons_append, List.length_cons, List.modify_succ_cons, ih, List.cons_append]

/-- The array holds the hits `g`, none of them without a header, and is empty behind them. -/
structure Filled (h : Hits) (g : List Hit) (n : Nat) : Prop where
  hits : h.hits = g ++ List.replicate (n - g.length) Hit.new
  length_le : g.length ≤ n
  current : h.current = g.length - 1
  heads : ∀ hit ∈ g, hit.heads ≠ []

theorem addFrame_concat (init : List Hit) (last : Hit) (f : Frame) :
    addFrame (init ++ [last]) f =
      if f.head.subsequent then init ++ [⟨last.heads ++ [f.head], last.samples ++ f.samples⟩]
      else init ++ [last] ++ [⟨[f.head], f.samples⟩] := by
  unfold addFrame
  have hlast : (init ++ [last]).length - 1 = init.length := by simp
  have hne : (init ++ [last]).isEmpty = false := by simp
  rw [hlast, modify_append_cons, hne]
  cases f.head.subsequent <;> rfl

/-- What a new hit has and a continued hit keeps, all hits have. -/
theorem addFrame_forall {P : Hit → Prop} {g : List Hit} {f : Frame} (hnew : P ⟨[f.head], f.samples⟩)
    (hnext : ∀ hit, P hit → P ⟨hit.heads ++ [f.head], hit.samples ++ f.samples⟩) (hg : ∀ hit ∈ g, P hit) :
    ∀ hit ∈ addFrame g f, P hit := by
  intro hit hhit
  rcases List.eq_nil_or_concat g with rfl | ⟨init, last, rfl⟩
  · have hhit' : hit = ⟨[f.head], f.samples⟩ := by simpa [addFrame] using hhit
    rw [hhit']
    exact hnew
  · rw [List.concat_eq_append] at hg hhit
    rw [addFrame_concat] at hhit
    split at hhit
    · rcases List.mem_append.mp hhit with hinit | hlast
      · exact hg hit (List.mem_append_left _ hinit)
      · rw [List.mem_singleton.mp hlast]
        exact hnext last (hg last (by simp))
    · rcases List.mem_append.mp hhit with hold | hlast
      · exact hg hit hold
      · rw [List.mem_singleton.mp hlast]
        exact hnew

theorem heads_addFrame {g : List Hit} (hg : ∀ hit ∈ g, hit.heads ≠ []) (f : Frame) :
    ∀ hit ∈ addFrame g f, hit.heads ≠ [] :=
  addFrame_forall (by simp) (by simp) hg

/-- The same for all frames of an event. -/
theorem hitsOf_forall {P : Hit → Prop} {fs : List Frame} (hnew : ∀ f ∈ fs, P ⟨[f.head], f.samples⟩)
    (hnext : ∀ f ∈ fs, ∀ hit, P hit → P ⟨hit.heads ++ [f.head], hit.samples ++ f.samples⟩) :
    ∀ hit ∈ hitsOf fs, P hit := by
  have hfold : ∀ g : List Hit, (∀ hit ∈ g, P hit) → ∀ hit ∈ fs.foldl addFrame g, P hit := by
    induction fs with
    | nil => exact fun g hg => hg
    | cons f fs ih =>
        intro g hg
        exact ih (fun f' hf' => hnew f' (List.mem_cons_of_mem f hf'))
          (fun f' hf' => hnext f' (List.mem_cons_of_mem f hf')) _
          (addFrame_forall (hnew f List.mem_cons_self) (hnext f List.mem_cons_self) hg)
  exact hfold [] (by simp)

/-- A hit behind the last one, if the array goes on. -/
theorem Filled.next {h : Hits} {g : List Hit} {n : Nat} (hfill : Filled h g n) (f : Frame) (hlt : g.length < n) :
    Filled ⟨h.hits.modify g.length (fun hit => ⟨hit.heads ++ [f.head], hit.samples ++ f.samples⟩), g.length⟩
      (g ++ [⟨[f.head], f.samples⟩]) n := by
  obtain ⟨k, hk⟩ : ∃ k, n - g.length = k + 1 := ⟨n - g.length - 1, by omega⟩
  refine ⟨?_, by simp; omega, by simp, ?_⟩
  · have hrest : n - (g ++ [(⟨[f.head], f.samples⟩ : Hit)]).length = k := by simp; omega
    simp only
    rw [hfill.hits, hk, List.replicate_succ, modify_append_cons, hrest, List.append_assoc]
    rfl
  · intro hit hhit
    rcases List.mem_append.mp hhit with hold | hnew
    · exact hfill.heads hit hold
    · rw [List.mem_singleton.mp hnew]
      simp

theorem pushSamples_modify (hits : List Hit) (current : Nat) (head : DataFrameHeader) (samples : List (BitVec 16)) :
    (Hits.mk (hits.modify current (fun hit => { hit with heads := hit.heads ++ [head] })) current).pushSamples samples
      = ⟨hits.modify current (fun hit => ⟨hit.heads ++ [head], hit.samples ++ samples⟩), current⟩ := by
  unfold Hits.pushSamples
  simp only [List.modify_modify_eq]
  rfl

/-- **One frame** goes to its hit, if the array has one for it. -/
theorem Filled.addFrame {h : Hits} {g : List Hit} {n : Nat} (hfill : Filled h g n) (f : Frame) :
    (∃ h', h.pushHead f.head = .ok h' ∧ Filled (h'.pushSamples f.samples) (addFrame g f) n) ∨
      (h.pushHead f.head = .error .pastHits ∧ n < (Tridas.addFrame g f).length) := by
  rcases List.eq_nil_or_concat g with rfl | ⟨init, last, hg⟩
  · -- the first frame of the event
    have hcurrent : h.current = 0 := hfill.current
    have hhits : h.hits = List.replicate n Hit.new := by simpa using hfill.hits
    have hadd : Tridas.addFrame [] f = [⟨[f.head], f.samples⟩] := by simp [Tridas.addFrame]
    unfold Hits.pushHead
    rw [hcurrent, hadd]
    cases n with
    | zero => exact Or.inr ⟨by rw [hhits]; rfl, by simp⟩
    | succ n =>
        have hfirst : h.hits[0]? = some Hit.new := by rw [hhits]; rfl
        have hlen : 0 < h.hits.length := by rw [hhits]; simp
        have hstay : (!f.head.subsequent && Hit.new.heads.length != 0) = false := by simp [Hit.new]
        left
        rw [hfirst]
        simp only [hstay, Bool.false_eq_true, if_false, hlen, if_true]
        refine ⟨_, rfl, ?_⟩
        rw [pushSamples_modify]
        exact hfill.next f (Nat.succ_pos n)
  · rw [List.concat_eq_append] at hg
    subst hg
    have hcurrent : h.current = init.length := by
      rw [hfill.current]
      simp
    have hhits := hfill.hits
    rw [List.append_assoc, List.singleton_append] at hhits
    have hlast : h.hits[init.length]? = some last := by
      rw [hhits]
      simp
    have hheads : (last.heads.length != 0) = true := by
      have hne := hfill.heads last (by simp)
      simpa using hne
    have hlen : h.hits.length = n := by
      have hle := hfill.length_le
      rw [hfill.hits, List.length_append, List.length_replicate]
      omega
    unfold Hits.pushHead
    rw [hcurrent, hlast, addFrame_concat]
    simp only [hheads, Bool.and_true, hlen]
    cases hsub : f.head.subsequent with
    | true =>
        have hlt : init.length < n := by
          have hle := hfill.length_le
          simp at hle
          omega
        left
        simp only [Bool.not_true, Bool.false_eq_true, if_false, hlt, if_true]
        refine ⟨_, rfl, ?_⟩
        rw [pushSamples_modify, hhits, modify_append_cons]
        refine ⟨by simp, by simpa using hfill.length_le, by simp, ?_⟩
        have hheads' := heads_addFrame hfill.heads f
        rw [addFrame_concat, hsub] at hheads'
        exact hheads'
    | false =>
        simp only [Bool.not_false, if_true, Bool.false_eq_true, if_false]
        by_cases hlt : init.length + 1 < n
        · left
          rw [if_pos hlt]
          refine ⟨_, rfl, ?_⟩
          rw [pushSamples_modify]
          simpa using hfill.next f (by simpa using hlt)
        · right
          rw [if_neg hlt]
          exact ⟨rfl, by simp; omega⟩

/-! ## One frame -/

theorem DataFrameHeader.width_le (head : DataFrameHeader) : 0 < head.width ∧ head.width ≤ 2 := by
  unfold DataFrameHeader.width
  split <;> omega

/-- The payload is the samples and the padding. -/
theorem DataFrameHeader.payload_eq (head : DataFrameHeader) :
    head.getDFHPayloadSize = head.getDFHNSamples * head.width + head.diff := by
  have hle : head.getDFHNSamples * head.width ≤ head.getDFHPayloadSize := by
    have hmul := Nat.mul_le_mul_left head.getDFHNSamples head.width_le.2
    unfold DataFrameHeader.getDFHPayloadSize DataFrameHeader.getDFHSampleSize
    unfold DataFrameHeader.getDFHNSamples at hmul ⊢
    dsimp only
    omega
  unfold DataFrameHeader.diff
  omega

theorem Frame.length_encode (f : Frame) : f.encode.length = f.size := by
  rw [Frame.encode, Frame.core, List.length_append, List.length_append, DataFrameHeader.layout.length_encode,
    length_sampleBytes, f.samples_length, f.padding_length, Frame.size, f.head.payload_eq,
    DataFrameHeader.layout_size, Nat.add_assoc]

theorem Frame.size_le (f : Frame) : 16 ≤ f.size ∧ f.size ≤ 272 := by
  have hsamples := f.head.NDataSamples.isLt
  unfold Frame.size DataFrameHeader.getDFHPayloadSize DataFrameHeader.getDFHSampleSize
  dsimp only
  split <;> omega

/-- The three subtractions from `event_size`. -/
theorem toInt_sub (e a b c : Int) : toInt (toInt (toInt (e - a) - b) - c) = toInt (e - (a + b + c)) := by
  have hstep : ∀ x y : Int, toInt (toInt x - y) = toInt (x - y) := fun x y => Int.bmod_sub_bmod
  rw [hstep, Int.sub_sub, hstep, Int.sub_sub, Int.add_assoc]

section OneFrame

variable {e : Int} {h h' : Hits}

/-- A turn of the loop, once its header is read. -/
theorem readFrame_eq {head : DataFrameHeader} {s₁ s₂ : ByteStream} {samples : List (BitVec 16)} {readSize : Nat}
    (hhead : DataFrameHeader.layout.readFrom s = some (head, s₁)) (hpush : h.pushHead head = .ok h')
    (hsamples : readSamples head.width head.getDFHNSamples s₁ = (samples, readSize, s₂)) :
    readFrame s e h = .ok (h'.pushSamples samples, toInt (e - (16 + readSize + head.diff)), s₂.ignore head.diff) := by
  unfold readFrame readHeader
  simp only [hhead, hpush, hsamples, toInt_sub, bind, Except.bind]

/-- **A frame that is there is read**, and the stream stands behind it. -/
theorem readFrame_encode (f : Frame) (hat : ByteStream.At s pre (f.encode ++ bs)) (hpush : h.pushHead f.head = .ok h') :
    ∃ s', readFrame s e h = .ok (h'.pushSamples f.samples, toInt (e - f.size), s') ∧
      ByteStream.At s' (pre ++ f.encode) bs := by
  unfold Frame.encode Frame.core at hat
  rw [List.append_assoc, List.append_assoc] at hat
  obtain ⟨s₁, hhead, hat₁⟩ := DataFrameHeader.layout.readFrom_encode hat
  obtain ⟨s₂, hsamples, hat₂⟩ := readSamples_encode f.samples_lt hat₁
  rw [f.samples_length] at hsamples
  refine ⟨s₂.ignore f.head.diff, ?_, ?_⟩
  · rw [readFrame_eq hhead hpush hsamples]
    unfold Frame.size
    rw [f.head.payload_eq]
    push_cast
    simp only [Int.add_assoc]
  · have hat₃ := hat₂.ignore (n := f.head.diff) (by rw [f.padding_length]; rfl)
    unfold Frame.encode Frame.core
    simpa only [List.append_assoc] using hat₃

/-- A frame for which the array has no hit. -/
theorem readFrame_pastHits (f : Frame) (hat : ByteStream.At s pre (f.encode ++ bs))
    (hpush : h.pushHead f.head = .error .pastHits) : readFrame s e h = .error .pastHits := by
  unfold Frame.encode Frame.core at hat
  rw [List.append_assoc, List.append_assoc] at hat
  obtain ⟨s₁, hhead, _⟩ := DataFrameHeader.layout.readFrom_encode hat
  unfold readFrame readHeader
  simp only [hhead, hpush, bind, Except.bind]

/-- The frame is completed by zeros: its last `missing` bytes are behind the end of the file. -/
structure CutOff (f : Frame) (bs : List UInt8) (missing : Nat) : Prop where
  pos : 0 < missing
  le : missing ≤ f.head.getDFHPayloadSize
  encode : f.encode = bs ++ List.replicate missing 0

/-- The header of a frame that is cut off is there. -/
theorem CutOff.encode_head {f : Frame} {missing : Nat} (hcut : CutOff f bs missing) :
    ∃ payload, bs = DataFrameHeader.layout.encode f.head ++ payload := by
  have hprefix : DataFrameHeader.layout.encode f.head <+: bs := by
    refine @List.prefix_of_prefix_length_le _ _ _ f.encode ?_ ?_ ?_
    · exact ⟨sampleBytes f.head.width f.samples ++ f.padding, by simp [Frame.encode, Frame.core]⟩
    · exact ⟨List.replicate missing 0, hcut.encode.symm⟩
    · have hlen := congrArg List.length hcut.encode
      rw [f.length_encode, List.length_append, List.length_replicate] at hlen
      have hle := hcut.le
      rw [DataFrameHeader.layout.length_encode, DataFrameHeader.layout_size]
      unfold Frame.size at hlen
      omega
  exact hprefix.imp fun payload hbs => hbs.symm

theorem readFrame_pastHits_cutOff {f : Frame} {missing : Nat} (hcut : CutOff f bs missing) (hat : ByteStream.At s pre bs)
    (hpush : h.pushHead f.head = .error .pastHits) : readFrame s e h = .error .pastHits := by
  obtain ⟨payload, hpayload⟩ := hcut.encode_head
  obtain ⟨s₁, hhead, _⟩ := DataFrameHeader.layout.readFrom_encode (hpayload ▸ hat)
  unfold readFrame readHeader
  simp only [hhead, hpush, bind, Except.bind]

theorem readFrames_of_not_good {turns : Nat} {result : Hits × Int × ByteStream} (hgood : s.good = false) :
    readFrames turns s e h ≠ .ok result := by
  have hhead : DataFrameHeader.layout.readFrom s = none :=
    DataFrameHeader.layout.readFrom_of_not_good hgood (by rw [DataFrameHeader.layout_size]; decide)
  cases turns with
  | zero => rintro ⟨⟩
  | succ turns =>
      simp only [readFrames, readFrame, readHeader, hhead, bind, Except.bind]
      rintro ⟨⟩

/-- What is subtracted from `event_size` for a frame that is cut off: its padding counts even where it is missing. -/
def Frame.counted (f : Frame) (missing : Nat) : Nat := f.size - (missing - f.head.diff)

theorem Frame.counted_le (f : Frame) {missing : Nat} (hle : missing ≤ f.head.getDFHPayloadSize) :
    16 ≤ f.counted missing ∧ f.counted missing ≤ 272 := by
  have hsize := f.size_le
  unfold Frame.counted
  unfold Frame.size at hsize ⊢
  omega

/-- Any payload of the size its header says makes a frame. -/
theorem exists_frame (head : DataFrameHeader) {payload : List UInt8} (hlen : payload.length = head.getDFHPayloadSize) :
    ∃ f : Frame, f.head = head ∧ f.encode = DataFrameHeader.layout.encode head ++ payload := by
  rw [head.payload_eq] at hlen
  have htake : (payload.take (head.getDFHNSamples * head.width)).length = head.getDFHNSamples * head.width :=
    List.length_take_of_le (by omega)
  obtain ⟨samples, hsamples, hlt, hbytes⟩ := exists_sampleBytes head.width_le.2 htake
  refine ⟨⟨head, samples, payload.drop (head.getDFHNSamples * head.width), hsamples, hlt, ?_⟩, rfl, ?_⟩
  · rw [List.length_drop]
    omega
  · unfold Frame.encode Frame.core
    rw [hbytes, List.append_assoc, List.take_append_drop]

theorem sampleBytes_injective {width : Nat} {xs ys : List (BitVec 16)} (hx : ∀ x ∈ xs, x.toNat < 256 ^ width)
    (hy : ∀ y ∈ ys, y.toNat < 256 ^ width) (hlen : xs.length = ys.length)
    (hbytes : sampleBytes width xs = sampleBytes width ys) : xs = ys := by
  have hat : ByteStream.At ⟨sampleBytes width xs ++ [], 0, false, false⟩ [] (sampleBytes width xs ++ []) := ⟨rfl, rfl, rfl⟩
  obtain ⟨_, hread, _⟩ := readSamples_encode hx hat
  obtain ⟨_, hread', _⟩ := readSamples_encode hy (by rw [hbytes] at hat; exact hat)
  rw [hlen, hbytes, hread'] at hread
  exact (Prod.mk.inj hread).1.symm

/-- **A frame that is cut off is read as well.** The stream is not good after it. -/
theorem readFrame_cutOff {f : Frame} {missing : Nat} (hcut : CutOff f bs missing) (hat : ByteStream.At s pre bs)
    (hpush : h.pushHead f.head = .ok h') :
    ∃ s', readFrame s e h = .ok (h'.pushSamples f.samples, toInt (e - f.counted missing), s') ∧ s'.good = false := by
  obtain ⟨payload, hpayload⟩ := hcut.encode_head
  have hrest : sampleBytes f.head.width f.samples ++ f.padding = payload ++ List.replicate missing 0 := by
    have hencode := hcut.encode
    unfold Frame.encode Frame.core at hencode
    rw [hpayload, List.append_assoc, List.append_assoc] at hencode
    exact List.append_cancel_left hencode
  have hlen : f.head.getDFHNSamples * f.head.width + f.head.diff = payload.length + missing := by
    have hlen := congrArg List.length hrest
    rwa [List.length_append, List.length_append, length_sampleBytes, f.samples_length, f.padding_length,
      List.length_replicate] at hlen
  obtain ⟨s₁, hhead, hat₁⟩ := DataFrameHeader.layout.readFrom_encode (hpayload ▸ hat)
  by_cases hpad : missing ≤ f.head.diff
  · -- only padding is missing
    obtain ⟨got, hgot⟩ : ∃ got, payload = sampleBytes f.head.width f.samples ++ got := by
      have hprefix : sampleBytes f.head.width f.samples <+: payload :=
        List.prefix_of_prefix_length_le ⟨f.padding, rfl⟩ ⟨List.replicate missing 0, hrest.symm⟩
          (by rw [length_sampleBytes, f.samples_length]; omega)
      exact hprefix.imp fun got hbs => hbs.symm
    have hgotlen : got.length + missing = f.head.diff := by
      rw [hgot, List.length_append, length_sampleBytes, f.samples_length] at hlen
      omega
    obtain ⟨s₂, hsamples, hat₂⟩ := readSamples_encode f.samples_lt (hgot ▸ hat₁)
    rw [f.samples_length] at hsamples
    have hpos := hcut.pos
    refine ⟨_, ?_, (ignore_short (n := f.head.diff) hat₂ (by omega)).1⟩
    rw [readFrame_eq hhead hpush hsamples]
    unfold Frame.counted Frame.size
    rw [Nat.sub_eq_zero_of_le hpad, Nat.sub_zero, f.head.payload_eq]
    push_cast
    simp only [Int.add_assoc]
  · -- samples are missing
    have hshort : payload.length < f.head.getDFHNSamples * f.head.width := by omega
    obtain ⟨samples, s₂, hcount, hlt, hbytes, hsamples, hfail⟩ := readSamples_cut f.head.width_le.2 hat₁ hshort
    have hsame : samples = f.samples := by
      refine sampleBytes_injective hlt f.samples_lt (by rw [hcount, f.samples_length]) ?_
      have hprefix : sampleBytes f.head.width f.samples =
          (payload ++ List.replicate missing 0).take (f.head.getDFHNSamples * f.head.width) := by
        rw [← hrest, List.take_left' (by rw [length_sampleBytes, f.samples_length])]
      rw [hbytes, hprefix, List.take_append, List.take_of_length_le (by omega), List.take_replicate,
        Nat.min_eq_left (by omega)]
    refine ⟨s₂.ignore f.head.diff, ?_, ?_⟩
    · have hcounted : f.counted missing = 16 + payload.length + f.head.diff := by
        unfold Frame.counted Frame.size
        rw [f.head.payload_eq]
        omega
      rw [readFrame_eq hhead hpush hsamples, hsame, hcounted]
      push_cast
      rfl
    · unfold ByteStream.ignore
      simp [good, hfail]

/-- **What a turn of the loop reads** is a frame, whole or cut off. -/
theorem exists_frame_of_readFrame {result : Hits × Int × ByteStream} (hat : ByteStream.At s pre bs)
    (hok : readFrame s e h = .ok result) :
    ∃ (f : Frame) (h' : Hits), h.pushHead f.head = .ok h' ∧
      ((∃ later, bs = f.encode ++ later) ∨ ∃ missing, CutOff f bs missing) := by
  unfold readFrame readHeader at hok
  cases hhead : DataFrameHeader.layout.readFrom s with
  | none => rw [hhead] at hok; exact absurd hok (by rintro ⟨⟩)
  | some got =>
      obtain ⟨head, s₁⟩ := got
      obtain ⟨payload, hbs, _⟩ := DataFrameHeader.layout.readFrom_some hat hhead
      cases hpush : h.pushHead head with
      | error error => simp only [hhead, hpush, bind, Except.bind] at hok; exact absurd hok (by rintro ⟨⟩)
      | ok h' =>
          by_cases hlen : head.getDFHPayloadSize ≤ payload.length
          · obtain ⟨f, rfl, hf⟩ := exists_frame head (List.length_take_of_le hlen)
            refine ⟨f, h', hpush, Or.inl ⟨payload.drop f.head.getDFHPayloadSize, ?_⟩⟩
            rw [hf, List.append_assoc, List.take_append_drop, hbs]
          · have hfull : (payload ++ List.replicate (head.getDFHPayloadSize - payload.length) 0).length =
                head.getDFHPayloadSize := by
              rw [List.length_append, List.length_replicate]
              omega
            obtain ⟨f, rfl, hf⟩ := exists_frame head hfull
            refine ⟨f, h', hpush, Or.inr ⟨f.head.getDFHPayloadSize - payload.length, by omega, by omega, ?_⟩⟩
            rw [hf, hbs, List.append_assoc]

end OneFrame

/-! ## All frames -/

/-- The frames `fs` are what `bs` starts with. They count `n` bytes, and `later` is behind them unless the last one is
cut off. -/
inductive Stored : List UInt8 → List Frame → Nat → Option (List UInt8) → Prop where
  | last (f : Frame) (later : List UInt8) : Stored (f.encode ++ later) [f] f.size (some later)
  | cut {bs : List UInt8} {f : Frame} {missing : Nat} : CutOff f bs missing → Stored bs [f] (f.counted missing) none
  | cons {bs : List UInt8} {fs : List Frame} {n : Nat} {later : Option (List UInt8)} (f : Frame) :
      Stored bs fs n later → Stored (f.encode ++ bs) (f :: fs) (f.size + n) later

theorem Stored.pos {fs : List Frame} {n : Nat} {later : Option (List UInt8)} (h : Stored bs fs n later) : 16 ≤ n := by
  induction h with
  | last f later => exact f.size_le.1
  | cut hcut => exact (Frame.counted_le _ hcut.le).1
  | cons f _ ih => omega

theorem stored_of_encode {fs : List Frame} (hne : fs ≠ []) (later : List UInt8) :
    Stored (fs.flatMap Frame.encode ++ later) fs (sizeOf fs) (some later) := by
  induction fs with
  | nil => exact absurd rfl hne
  | cons f fs ih =>
      rw [List.flatMap_cons, List.append_assoc]
      cases fs with
      | nil => simpa [sizeOf] using Stored.last f later
      | cons f' fs => simpa [sizeOf] using Stored.cons f (ih (by simp))

/-- The stream stands behind what was read, or nothing more can be read from it. -/
def Behind (s : ByteStream) (pre : List UInt8) : Option (List UInt8) → Prop
  | some later => ByteStream.At s pre later
  | none => s.good = false

theorem length_le_foldl_addFrame (g : List Hit) (fs : List Frame) : g.length ≤ (fs.foldl addFrame g).length := by
  induction fs generalizing g with
  | nil => exact Nat.le_refl g.length
  | cons f fs ih =>
      have hstep : g.length ≤ (addFrame g f).length := by
        unfold addFrame
        split <;> simp
      exact Nat.le_trans hstep (ih (addFrame g f))

/-- The first hit starts with the first frame. -/
theorem hitsOf_cons (f : Frame) (fs : List Frame) :
    ∃ hit later, hitsOf (f :: fs) = hit :: later ∧ hit.heads.head? = some f.head := by
  have hkeep : ∀ (fs : List Frame) (g : List Hit), (∃ hit later, g = hit :: later ∧ hit.heads.head? = some f.head) →
      ∃ hit later, fs.foldl addFrame g = hit :: later ∧ hit.heads.head? = some f.head := by
    intro fs
    induction fs with
    | nil => exact fun g hg => hg
    | cons f' fs ih =>
        rintro g ⟨hit, later, rfl, hhead⟩
        apply ih
        unfold addFrame
        split
        · cases later with
          | nil => exact ⟨⟨hit.heads ++ [f'.head], hit.samples ++ f'.samples⟩, [], rfl, by simp [hhead]⟩
          | cons next later => exact ⟨hit, _, rfl, hhead⟩
        · exact ⟨hit, later ++ [⟨[f'.head], f'.samples⟩], rfl, hhead⟩
  have hfirst : addFrame [] f = [⟨[f.head], f.samples⟩] := by simp [addFrame]
  unfold hitsOf
  rw [List.foldl_cons, hfirst]
  exact hkeep fs _ ⟨_, [], rfl, rfl⟩

theorem toInt_of_bounds {x : Int} (hlow : -(2 ^ 31) ≤ x) (hhigh : x < 2 ^ 31) : toInt x = x := by
  unfold toInt
  exact Int.bmod_eq_of_le hlow hhigh

/-- The bits of the word are the same as before. -/
theorem ofInt_toInt (w : BitVec 32) : BitVec.ofInt 32 (toInt w.toNat) = w := by
  unfold toInt
  rw [← BitVec.toInt_eq_toNat_bmod, BitVec.ofInt_toInt]

attribute [irreducible] toInt

section AllFrames

variable {turns : Nat} {e : Int} {h : Hits} {g : List Hit} {n : Nat}

/-- **Stored frames are read**, if the array is large enough for their hits. -/
theorem readFrames_stored {fs : List Frame} {count : Nat} {later : Option (List UInt8)}
    (hstored : Stored bs fs count later) (hturns : bs.length < turns) (hat : ByteStream.At s pre bs) (hfill : Filled h g n)
    (hcount : count < 2 ^ 31) :
    (∃ h' s', (fs.foldl addFrame g).length ≤ n ∧ readFrames turns s count h = .ok (h', 0, s') ∧
        Filled h' (fs.foldl addFrame g) n ∧ Behind s' (pre ++ fs.flatMap Frame.encode) later) ∨
      (n < (fs.foldl addFrame g).length ∧ readFrames turns s count h = .error .pastHits) := by
  induction hstored generalizing turns s pre h g with
  | last f later =>
      obtain ⟨turns, rfl⟩ : ∃ k, turns = k + 1 := ⟨turns - 1, by omega⟩
      rcases hfill.addFrame f with ⟨h', hpush, hfill'⟩ | ⟨hpush, hlt⟩
      · obtain ⟨s', hread, hat'⟩ := readFrame_encode (e := (f.size : Int)) f hat hpush
        have hzero : toInt ((f.size : Int) - f.size) = 0 := by
          rw [Int.sub_self]
          exact toInt_of_bounds (by omega) (by omega)
        rw [hzero] at hread
        refine Or.inl ⟨_, s', hfill'.length_le, ?_, hfill', by simpa [Behind] using hat'⟩
        simp [readFrames, hread, bind, Except.bind]
      · exact Or.inr ⟨hlt, by simp [readFrames, readFrame_pastHits f hat hpush, bind, Except.bind]⟩
  | @cut bs f missing hcut =>
      obtain ⟨turns, rfl⟩ : ∃ k, turns = k + 1 := ⟨turns - 1, by omega⟩
      rcases hfill.addFrame f with ⟨h', hpush, hfill'⟩ | ⟨hpush, hlt⟩
      · obtain ⟨s', hread, hgood⟩ := readFrame_cutOff (e := (f.counted missing : Int)) hcut hat hpush
        rw [Int.sub_self] at hread
        have hzero : toInt 0 = 0 := toInt_of_bounds (by omega) (by omega)
        rw [hzero] at hread
        refine Or.inl ⟨_, s', hfill'.length_le, ?_, hfill', hgood⟩
        simp [readFrames, hread, bind, Except.bind]
      · have herror : readFrame s (f.counted missing) h = .error .pastHits := readFrame_pastHits_cutOff hcut hat hpush
        exact Or.inr ⟨hlt, by simp [readFrames, herror, bind, Except.bind]⟩
  | @cons bs fs count later f hstored ih =>
      obtain ⟨turns, rfl⟩ : ∃ k, turns = k + 1 := ⟨turns - 1, by omega⟩
      have hpos := hstored.pos
      have hsize := f.size_le
      rcases hfill.addFrame f with ⟨h', hpush, hfill'⟩ | ⟨hpush, hlt⟩
      · obtain ⟨s', hread, hat'⟩ := readFrame_encode (e := ((f.size + count : Nat) : Int)) f hat hpush
        have hleft : toInt (((f.size + count : Nat) : Int) - f.size) = (count : Int) := by
          rw [toInt_of_bounds (by omega) (by omega)]
          omega
        rw [hleft] at hread
        have hmore : (!s'.fail && decide ((0 : Int) < (count : Int))) = true := by
          rw [hat'.bits.2]
          simp
          omega
        have hstep : readFrames (turns + 1) s ((f.size + count : Nat) : Int) h
            = readFrames turns s' count (h'.pushSamples f.samples) := by
          simp only [readFrames, hread, bind, Except.bind, hmore, if_true]
        rw [hstep, List.foldl_cons, List.flatMap_cons, ← List.append_assoc]
        refine ih ?_ hat' hfill' (by omega)
        rw [List.length_append, f.length_encode] at hturns
        omega
      · refine Or.inr ⟨?_, by simp [readFrames, readFrame_pastHits f hat hpush, bind, Except.bind]⟩
        rw [List.foldl_cons]
        exact Nat.lt_of_lt_of_le hlt (length_le_foldl_addFrame (addFrame g f) fs)

/-- **What the loop reads is stored.** The bound on `e` keeps `event_size` from wrapping around. -/
theorem stored_of_readFrames {h' : Hits} (hat : ByteStream.At s pre bs) (hfill : Filled h g n) (hlow : -(2 ^ 31) + 272 ≤ e)
    (hhigh : e < 2 ^ 31) (hok : readFrames turns s e h = .ok (h', 0, s')) :
    ∃ fs count later, Stored bs fs count later ∧ e = (count : Int) ∧ Filled h' (fs.foldl addFrame g) n := by
  induction turns generalizing s pre bs e h g with
  | zero => exact absurd hok (by rintro ⟨⟩)
  | succ turns ih =>
      obtain ⟨⟨h₁, e₁, s₁⟩, hread⟩ : ∃ result, readFrame s e h = .ok result := by
        cases hread : readFrame s e h with
        | ok result => exact ⟨result, rfl⟩
        | error error => simp only [readFrames, hread, bind, Except.bind] at hok; exact absurd hok (by rintro ⟨⟩)
      simp only [readFrames, hread, bind, Except.bind] at hok
      obtain ⟨f, hnext, hpush, hframe⟩ := exists_frame_of_readFrame hat hread
      obtain ⟨h'', hpush', hfill'⟩ | ⟨hpast, _⟩ := hfill.addFrame f
      case inr => exact absurd (hpush.symm.trans hpast) (by rintro ⟨⟩)
      have hsame : h'' = hnext := Except.ok.inj (hpush'.symm.trans hpush)
      subst hsame
      have hsize := f.size_le
      rcases hframe with ⟨bs', rfl⟩ | ⟨missing, hcut⟩
      · obtain ⟨s₂, hwhole, hat'⟩ := readFrame_encode (e := e) f hat hpush
        have hresult := Except.ok.inj (hread.symm.trans hwhole)
        rw [toInt_of_bounds (by omega) (by omega)] at hresult
        obtain ⟨rfl, rfl, rfl⟩ : h₁ = h''.pushSamples f.samples ∧ e₁ = e - f.size ∧ s₁ = s₂ := by
          simpa using hresult
        by_cases hmore : (!s₁.fail && decide ((0 : Int) < e - f.size)) = true
        · rw [if_pos hmore] at hok
          have hpos : (0 : Int) < e - f.size := by simpa using (Bool.and_eq_true_iff.mp hmore).2
          obtain ⟨fs, count, later, hstored, hcount, hfs⟩ := ih hat' hfill' (by omega) (by omega) hok
          exact ⟨f :: fs, f.size + count, later, hstored.cons f, by omega, hfs⟩
        · rw [if_neg hmore] at hok
          obtain ⟨rfl, hzero, rfl⟩ : h''.pushSamples f.samples = h' ∧ e - f.size = 0 ∧ s₁ = s' := by
            simpa using hok
          exact ⟨[f], f.size, some bs', Stored.last f bs', by omega, hfill'⟩
      · obtain ⟨s₂, hshort, hgood⟩ := readFrame_cutOff (e := e) hcut hat hpush
        have hcounted := f.counted_le hcut.le
        have hresult := Except.ok.inj (hread.symm.trans hshort)
        rw [toInt_of_bounds (by omega) (by omega)] at hresult
        obtain ⟨rfl, rfl, rfl⟩ :
            h₁ = h''.pushSamples f.samples ∧ e₁ = e - f.counted missing ∧ s₁ = s₂ := by
          simpa using hresult
        by_cases hmore : (!s₁.fail && decide ((0 : Int) < e - f.counted missing)) = true
        · -- the next turn finds no header
          rw [if_pos hmore] at hok
          exact absurd hok (readFrames_of_not_good hgood)
        · rw [if_neg hmore] at hok
          obtain ⟨rfl, hzero, rfl⟩ :
              h''.pushSamples f.samples = h' ∧ e - f.counted missing = 0 ∧ s₁ = s' := by
            simpa using hok
          exact ⟨[f], f.counted missing, none, Stored.cut hcut, by omega, hfill'⟩

end AllFrames

/-- The hits in an array of `n`. -/
def paddedTo (n : Nat) (hits : List Hit) : List Hit := hits ++ List.replicate (n - hits.length) Hit.new

theorem filled_new (n : Nat) : Filled ⟨List.replicate n Hit.new, 0⟩ [] n :=
  ⟨by simp, Nat.zero_le n, rfl, by simp⟩

/-- The hits of stored frames, if they are as many as announced or fewer. -/
theorem parseEvent_stored {fs : List Frame} {count : Nat} {later : Option (List UInt8)}
    (hstored : Stored bs fs count later) (hat : ByteStream.At s pre bs) (n : Nat) (hcount : count < 2 ^ 31) :
    (∃ s', (hitsOf fs).length ≤ n ∧ parseEvent s n count = .ok (paddedTo n (hitsOf fs), s') ∧
        Behind s' (pre ++ fs.flatMap Frame.encode) later) ∨
      (n < (hitsOf fs).length ∧ parseEvent s n count = .error .pastHits) := by
  have hn : ¬((n : Int) < 0) := by omega
  have hturns : bs.length < s.rest.length + 1 := by rw [hat.rest]; omega
  unfold parseEvent
  rw [if_neg hn, Int.toNat_natCast]
  rcases readFrames_stored hstored hturns hat (filled_new n) hcount with ⟨h', s', hle, hread, hfill, hbehind⟩ | herror
  · refine Or.inl ⟨s', hle, ?_, hbehind⟩
    simp only [hread, bind, Except.bind, ne_eq, not_true_eq_false, if_false]
    rw [hfill.hits]
    rfl
  · refine Or.inr ⟨herror.1, ?_⟩
    simp only [herror.2, bind, Except.bind]

/-- **What `parse_event` accepts** are frames that count the announced size and make no more hits than announced. -/
theorem parseEvent_ok_iff {nhits e : Int} (hat : ByteStream.At s pre bs) (hlow : -(2 ^ 31) + 272 ≤ e) (hhigh : e < 2 ^ 31)
    (hits : List Hit) :
    (∃ s', parseEvent s nhits e = .ok (hits, s')) ↔
      ∃ fs count later, Stored bs fs count later ∧ e = (count : Int) ∧ ((hitsOf fs).length : Int) ≤ nhits ∧
        hits = paddedTo nhits.toNat (hitsOf fs) := by
  constructor
  · rintro ⟨s', hok⟩
    have hn : ¬(nhits < 0) := by
      intro hneg
      rw [parseEvent, if_pos hneg] at hok
      exact absurd hok (by rintro ⟨⟩)
    obtain ⟨n, rfl⟩ : ∃ n : Nat, nhits = n := ⟨nhits.toNat, by omega⟩
    rw [parseEvent, if_neg hn, Int.toNat_natCast] at hok
    cases hread : readFrames (s.rest.length + 1) s e ⟨List.replicate n Hit.new, 0⟩ with
    | error error => simp only [hread, bind, Except.bind] at hok; exact absurd hok (by rintro ⟨⟩)
    | ok result =>
        obtain ⟨h', e', s₁⟩ := result
        simp only [hread, bind, Except.bind] at hok
        by_cases hzero : e' = 0
        · subst hzero
          rw [if_neg (by simp)] at hok
          obtain ⟨rfl, rfl⟩ := Prod.mk.inj (Except.ok.inj hok)
          obtain ⟨fs, count, later, hstored, hcount, hfill⟩ :=
            stored_of_readFrames hat (filled_new n) hlow hhigh hread
          exact ⟨fs, count, later, hstored, hcount, Int.ofNat_le.mpr hfill.length_le, hfill.hits⟩
        · rw [if_pos hzero] at hok
          exact absurd hok (by rintro ⟨⟩)
  · rintro ⟨fs, count, later, hstored, rfl, hle, rfl⟩
    obtain ⟨n, rfl⟩ : ∃ n : Nat, nhits = n := ⟨nhits.toNat, by omega⟩
    have hlt : count < 2 ^ 31 := by omega
    rcases parseEvent_stored hstored hat n hlt with ⟨s', _, hok, _⟩ | ⟨hpast, _⟩
    · exact ⟨s', hok⟩
    · omega

/-- A header of a frame with `n` samples. -/
def DataFrameHeader.ofSamples (n : BitVec 7) (frag zip : BitVec 1) : DataFrameHeader :=
  ⟨1, 2, 3, 0x2322, 5, 6, 7, 8, 20, n, 0, 9, frag, zip⟩

/-- A frame of three samples with its padding. -/
def oddFrame : Frame where
  head := .ofSamples 3 0 0
  samples := [1, 2, 259]
  padding := [255, 255]
  samples_length := by decide +kernel
  samples_lt := by
    have hwidth : (256 : Nat) ^ DataFrameHeader.width (.ofSamples 3 0 0) = 65536 := rfl
    intro x _
    rw [hwidth]
    exact x.isLt
  padding_length := by decide +kernel

/-- A frame that continues a hit. -/
def subsequentFrame : Frame where
  head := .ofSamples 2 1 0
  samples := [4, 5]
  padding := []
  samples_length := by decide +kernel
  samples_lt := by
    have hwidth : (256 : Nat) ^ DataFrameHeader.width (.ofSamples 2 1 0) = 65536 := rfl
    intro x _
    rw [hwidth]
    exact x.isLt
  padding_length := by decide +kernel

/-- The file ends within the last sample of the second frame. -/
def cutOffEvent : List UInt8 := oddFrame.encode ++ subsequentFrame.encode.dropLast

theorem parseEvent_ok_iff_cutOff :
    ∃ s', parseEvent (opened cutOffEvent) 2 43 =
      .ok ([⟨[.ofSamples 3 0 0, .ofSamples 2 1 0], [1, 2, 259, 4, 5]⟩, Hit.new], s') := by
  have hcut : CutOff subsequentFrame subsequentFrame.encode.dropLast 1 :=
    ⟨by decide, by decide +kernel, by decide +kernel⟩
  have hcount : oddFrame.size + subsequentFrame.counted 1 = 43 := by decide +kernel
  have hstored := (Stored.cut hcut).cons oddFrame
  rw [hcount] at hstored
  exact (parseEvent_ok_iff (at_opened cutOffEvent) (by decide) (by decide) _).mpr
    ⟨_, 43, none, hstored, rfl, by decide +kernel, by decide +kernel⟩

end BdxReco.Tridas
