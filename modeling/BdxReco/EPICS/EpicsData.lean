import BdxReco.Lib.StdMap
import BdxReco.Lib.Stream

/-!
# `EPICS.EpicsData` — the slow-control record and the decoding of its texts

An `epicsData` maps the names of the slow-control variables to their last values and to the times of these. `decode`
enters the texts of an EPICS bank, one `value description` pair after the other, until the stream reaches its end.
The end is all the loop asks for, so it may never end: it has fuel, and `decode_eq_none` says that the fuel `decode`
gives it is enough. Times are seconds in an `int`.

* `reads`: the pairs the loop reads from a text; `decode` enters them in order.
* `EpicsEntry`: a pair as the writer puts it down. `reads_entries` says what is read from a text made of them.
-/

namespace BdxReco

open IStream

structure EpicsData where
  values : StdMap String ℚ := .empty
  times : StdMap String Int := .empty
  runNumber : Int := 0
  eventNumber : Int := 0
  time : Int := 0

namespace EpicsData

def hasData (d : EpicsData) (key : String) : Bool := (d.values.find? key).isSome

def getDataValue (d : EpicsData) (key : String) : ℚ := (d.values.find? key).getD (-999)

def getDataTime (d : EpicsData) (key : String) : Int := (d.times.find? key).getD (-999)

/-- The two assignments of the loop; a `long` is stored in an `int`. -/
def enter (deltaTime : Int) (d : EpicsData) (desc : String) (val : ℚ) : EpicsData :=
  { d with values := d.values.assign desc val, times := d.times.assign desc ((d.time + deltaTime).bmod (2 ^ 32)) }

/-- The local variables of `decode`. -/
structure Locals where
  stream : IStream
  val : ℚ := 0
  desc : String := ""

/-- `stream >> val >> desc`. -/
def Locals.extract (l : Locals) : Locals :=
  let (stream, val) := l.stream.getDouble l.val
  let (stream, desc) := stream.getString l.desc
  { stream, val, desc }

/-- The loop of `decode`; `none` when it has not ended within `fuel` rounds. -/
def decodeLoop (deltaTime : Int) : Nat → Locals → EpicsData → Option EpicsData
  | 0, _, _ => none
  | fuel + 1, l, d =>
    let l := l.extract
    if l.stream.eof then some d
    else decodeLoop deltaTime fuel l (d.enter deltaTime l.desc l.val)

/-- `decode`; `none` when the loop does not end. -/
def decode (d : EpicsData) (rawData : String) (deltaTime : Int) : Option EpicsData :=
  decodeLoop deltaTime (rawData.toList.length + 1) { stream := { rest := rawData.toList } } d

end EpicsData

/-! ## What the loop reads -/

open EpicsData

/-- The pairs of the loop. -/
def readsLoop : Nat → Locals → Option (List (String × ℚ))
  | 0, _ => none
  | fuel + 1, l =>
    let l := l.extract
    if l.stream.eof then some []
    else (readsLoop fuel l).map (fun pairs => (l.desc, l.val) :: pairs)

def reads (rawData : String) : Option (List (String × ℚ)) :=
  readsLoop (rawData.toList.length + 1) { stream := { rest := rawData.toList } }

/-- Enter pairs one after the other. -/
def enterAll (deltaTime : Int) (d : EpicsData) (pairs : List (String × ℚ)) : EpicsData :=
  pairs.foldl (fun d p => d.enter deltaTime p.1 p.2) d

theorem decodeLoop_eq (deltaTime : Int) (fuel : Nat) (l : Locals) (d : EpicsData) :
    decodeLoop deltaTime fuel l d = (readsLoop fuel l).map (enterAll deltaTime d) := by
  induction fuel generalizing l d with
  | zero => rfl
  | succ fuel ih =>
      unfold decodeLoop readsLoop
      cases heof : l.extract.stream.eof with
      | true => simp [heof, enterAll]
      | false =>
          simp only [heof, Bool.false_eq_true, if_false, ih, Option.map_map]
          rfl

/-- **`decode` enters what is read.** -/
theorem decode_eq (d : EpicsData) (rawData : String) (deltaTime : Int) :
    d.decode rawData deltaTime = (reads rawData).map (enterAll deltaTime d) :=
  decodeLoop_eq _ _ _ _

/-! ## Enough fuel -/

theorem getDouble_failed {s : IStream} (hfail : s.fail = true) (heof : s.eof = false) (val : ℚ) :
    s.getDouble val = (s, val) := by
  obtain ⟨rest, eof, fail⟩ := s
  subst hfail heof
  rfl

theorem getString_failed {s : IStream} (hfail : s.fail = true) (heof : s.eof = false) (str : String) :
    s.getString str = (s, str) := by
  obtain ⟨rest, eof, fail⟩ := s
  subst hfail heof
  rfl

/-- A stream that failed before its end keeps the loop going for ever. -/
theorem readsLoop_failed {l : Locals} (hfail : l.stream.fail = true) (heof : l.stream.eof = false) (fuel : Nat) :
    readsLoop fuel l = none := by
  have hextract : l.extract = l := by
    simp only [Locals.extract, getDouble_failed hfail heof, getString_failed hfail heof]
  induction fuel with
  | zero => rfl
  | succ fuel ih =>
      unfold readsLoop
      simp [hextract, heof, ih]

/-- A round that neither ends the loop nor fails shortens the stream. -/
theorem extract_rest_length {l : Locals} (heof : l.extract.stream.eof = false)
    (hfail : l.extract.stream.fail = false) : l.extract.stream.rest.length < l.stream.rest.length := by
  have hgood : ((l.stream.getDouble l.val).1.getString l.desc).1.good = true := by
    have heof' : ((l.stream.getDouble l.val).1.getString l.desc).1.eof = false := heof
    have hfail' : ((l.stream.getDouble l.val).1.getString l.desc).1.fail = false := hfail
    simp [good, heof', hfail']
  exact (getString_rest_length hgood).trans_le (getDouble_rest_length l.stream l.val)

theorem readsLoop_none {fuel : Nat} {l : Locals} (hlen : l.stream.rest.length < fuel)
    (hnone : readsLoop fuel l = none) (fuel' : Nat) : readsLoop fuel' l = none := by
  induction fuel generalizing l fuel' with
  | zero => omega
  | succ fuel ih =>
      cases fuel' with
      | zero => rfl
      | succ fuel' =>
          unfold readsLoop at hnone ⊢
          cases heof : l.extract.stream.eof with
          | true => simp [heof] at hnone
          | false =>
              simp only [heof, Bool.false_eq_true, if_false, Option.map_eq_none_iff] at hnone ⊢
              cases hfail : l.extract.stream.fail with
              | true => exact readsLoop_failed hfail heof fuel'
              | false =>
                  have hshorter := extract_rest_length heof hfail
                  exact ih (by omega) hnone fuel'

/-- **`decode` has no result only when no number of rounds ends the loop.** -/
theorem decode_eq_none {d : EpicsData} {rawData : String} {deltaTime : Int}
    (h : d.decode rawData deltaTime = none) (fuel : Nat) :
    decodeLoop deltaTime fuel { stream := { rest := rawData.toList } } d = none := by
  rw [decode_eq, Option.map_eq_none_iff] at h
  rw [decodeLoop_eq, readsLoop_none (Nat.lt_succ_self _) h fuel]
  rfl

/-! ## Texts of the documented form -/

/-- `value description newline`, with any white space between and after. -/
structure EpicsEntry where
  value : Decimal
  sep : List Char
  sep_ne : sep ≠ []
  sep_space : ∀ c ∈ sep, isSpace c = true
  desc : List Char
  desc_ne : desc ≠ []
  desc_word : ∀ c ∈ desc, isSpace c = false
  stop : List Char
  stop_ne : stop ≠ []
  stop_space : ∀ c ∈ stop, isSpace c = true

namespace EpicsEntry

def toChars (e : EpicsEntry) : List Char := e.value.toChars ++ (e.sep ++ (e.desc ++ e.stop))

/-- What the entry says. -/
def pair (e : EpicsEntry) : String × ℚ := (String.ofList e.desc, e.value.value)

end EpicsEntry

section Entries

variable {l : Locals} {blank : List Char} (hblank : ∀ c ∈ blank, isSpace c = true)
include hblank

theorem extract_blank (hstream : l.stream = { rest := blank }) : l.extract.stream.eof = true := by
  have hgood : l.stream.good = true := by rw [hstream]; rfl
  have hrest : l.stream.rest.dropWhile isSpace = [] := by
    rw [hstream, ← List.append_nil blank, List.dropWhile_append_of_pos hblank, List.dropWhile_nil]
  have hdouble : l.stream.getDouble l.val = ({ rest := [], eof := true, fail := true }, l.val) := by
    simp only [getDouble, sentry_blank hgood hrest]
  simp only [Locals.extract, hdouble]
  rfl

/-- A round over an entry: in range it is read; out of range the stream fails for good. -/
theorem extract_entry {e : EpicsEntry} {tail : List Char}
    (hstream : l.stream = { rest := blank ++ (e.toChars ++ tail) }) :
    (e.value.InRange → l.extract
      = { stream := { rest := e.stop ++ tail }, val := e.pair.2, desc := e.pair.1 }) ∧
      (¬ e.value.InRange → l.extract.stream.fail = true ∧ l.extract.stream.eof = false) := by
  obtain ⟨c, cs, hsep⟩ := List.exists_cons_of_ne_nil e.sep_ne
  obtain ⟨c', cs', hstop⟩ := List.exists_cons_of_ne_nil e.stop_ne
  have hc : isSpace c = true := e.sep_space c (by simp [hsep])
  have hc' : isSpace c' = true := e.stop_space c' (by simp [hstop])
  have hgood : l.stream.good = true := by rw [hstream]; rfl
  have hrest : l.stream.rest = blank ++ (e.value.toChars ++ c :: (cs ++ (e.desc ++ e.stop ++ tail))) := by
    rw [hstream]
    simp [EpicsEntry.toChars, hsep]
  obtain ⟨hin, hout⟩ := getDouble_decimal hgood hblank hc hrest l.val
  constructor
  · intro hrange
    have hword : IStream.getString { rest := c :: (cs ++ (e.desc ++ e.stop ++ tail)) } l.desc
        = ({ rest := e.stop ++ tail }, String.ofList e.desc) := by
      rw [hstop, List.cons_append]
      exact getString_word rfl e.sep_space hc' e.desc_ne e.desc_word (by simp [hsep]) l.desc
    simp only [Locals.extract, hin hrange, hword, EpicsEntry.pair]
  · intro hrange
    have hfailed : (l.stream.getDouble l.val).1.fail = true ∧ (l.stream.getDouble l.val).1.eof = false := by
      rw [hout hrange]
      exact ⟨rfl, rfl⟩
    simp only [Locals.extract, getString_failed hfailed.1 hfailed.2]
    exact hfailed

/-- **What is read from a text of entries**: all of them, if they are in range. -/
theorem readsLoop_entries {fuel : Nat} {entries : List EpicsEntry}
    (hstream : l.stream = { rest := blank ++ entries.flatMap EpicsEntry.toChars })
    (hlen : l.stream.rest.length < fuel) (hrange : ∀ e ∈ entries, e.value.InRange) :
    readsLoop fuel l = some (entries.map EpicsEntry.pair) := by
  induction entries generalizing fuel l blank with
  | nil =>
      rw [List.flatMap_nil, List.append_nil] at hstream
      cases fuel with
      | zero => omega
      | succ fuel =>
          unfold readsLoop
          simp only [extract_blank hblank hstream, if_true, List.map_nil]
  | cons e entries ih =>
      rw [List.flatMap_cons] at hstream
      have hextract := (extract_entry hblank hstream).1 (hrange e (by simp))
      have hstream' : l.extract.stream = { rest := e.stop ++ entries.flatMap EpicsEntry.toChars } := by
        rw [hextract]
      have hshorter : l.extract.stream.rest.length < l.stream.rest.length := by
        apply extract_rest_length
        · rw [hstream']
        · rw [hstream']
      cases fuel with
      | zero => omega
      | succ fuel =>
          have htail : readsLoop fuel l.extract = some (entries.map EpicsEntry.pair) :=
            ih e.stop_space hstream' (by omega) (fun e' he' => hrange e' (List.mem_cons_of_mem e he'))
          unfold readsLoop
          simp only [htail]
          simp only [hextract, Bool.false_eq_true, if_false, Option.map_some, List.map_cons]

/-- **An entry out of range is fatal.** -/
theorem readsLoop_overflow {entries : List EpicsEntry}
    (hstream : l.stream = { rest := blank ++ entries.flatMap EpicsEntry.toChars })
    (hrange : ∃ e ∈ entries, ¬ e.value.InRange) (fuel : Nat) : readsLoop fuel l = none := by
  induction entries generalizing fuel l blank with
  | nil => simp at hrange
  | cons e entries ih =>
      rw [List.flatMap_cons] at hstream
      obtain ⟨hin, hout⟩ := extract_entry hblank hstream
      cases fuel with
      | zero => rfl
      | succ fuel =>
          unfold readsLoop
          by_cases he : e.value.InRange
          · have htail : ∃ e ∈ entries, ¬ e.value.InRange := by
              obtain ⟨e', hmem, hout'⟩ := hrange
              rcases List.mem_cons.mp hmem with rfl | hmem
              · exact absurd he hout'
              · exact ⟨e', hmem, hout'⟩
            have hstream' : l.extract.stream = { rest := e.stop ++ entries.flatMap EpicsEntry.toChars } := by
              rw [hin he]
            simp [hstream', ih e.stop_space hstream' htail fuel]
          · obtain ⟨hfail, heof⟩ := hout he
            simp [heof, readsLoop_failed hfail heof]

end Entries

theorem reads_entries {rawData : String} {entries : List EpicsEntry}
    (hraw : rawData.toList = entries.flatMap EpicsEntry.toChars) (hrange : ∀ e ∈ entries, e.value.InRange) :
    reads rawData = some (entries.map EpicsEntry.pair) :=
  readsLoop_entries (List.forall_mem_nil _) (by simp [hraw]) (Nat.lt_succ_self _) hrange

theorem reads_overflow {rawData : String} {entries : List EpicsEntry}
    (hraw : rawData.toList = entries.flatMap EpicsEntry.toChars) (hrange : ∃ e ∈ entries, ¬ e.value.InRange) :
    reads rawData = none :=
  readsLoop_overflow (List.forall_mem_nil _) (by simp [hraw]) hrange _

/-! ## Entering pairs -/

theorem enterAll_values (deltaTime : Int) (d : EpicsData) (pairs : List (String × ℚ)) :
    (enterAll deltaTime d pairs).values = pairs.foldl (fun m p => m.assign p.1 p.2) d.values := by
  induction pairs generalizing d with
  | nil => rfl
  | cons p pairs ih => exact ih (d.enter deltaTime p.1 p.2)

theorem enterAll_time (deltaTime : Int) (d : EpicsData) (pairs : List (String × ℚ)) :
    (enterAll deltaTime d pairs).time = d.time ∧ (enterAll deltaTime d pairs).eventNumber = d.eventNumber := by
  induction pairs generalizing d with
  | nil => exact ⟨rfl, rfl⟩
  | cons p pairs ih => exact ih (d.enter deltaTime p.1 p.2)

/-- **The times of entered pairs**: one for all of them; the other keys keep theirs. -/
theorem enterAll_times (deltaTime : Int) (d : EpicsData) (pairs : List (String × ℚ)) (key : String) :
    (enterAll deltaTime d pairs).times.find? key
      = if key ∈ pairs.map Prod.fst then some ((d.time + deltaTime).bmod (2 ^ 32)) else d.times.find? key := by
  induction pairs generalizing d with
  | nil => rfl
  | cons p pairs ih =>
      refine (ih (d.enter deltaTime p.1 p.2)).trans ?_
      have htime : (d.enter deltaTime p.1 p.2).time = d.time := rfl
      rw [htime]
      by_cases hkey : key = p.1
      · have hself : (d.enter deltaTime p.1 p.2).times.find? key = some ((d.time + deltaTime).bmod (2 ^ 32)) := by
          rw [hkey]
          exact StdMap.find?_assign_self _ _ _
        rw [hself, ite_self, if_pos (by simp [hkey])]
      · have hne : (d.enter deltaTime p.1 p.2).times.find? key = d.times.find? key :=
          StdMap.find?_assign_ne _ hkey _
        rw [hne, List.map_cons]
        simp only [List.mem_cons, hkey, false_or]

/-- Values and times have the same keys. -/
def SameKeys (d : EpicsData) : Prop := ∀ key, d.hasData key = (d.times.find? key).isSome

theorem SameKeys.enterAll {d : EpicsData} (h : SameKeys d) (deltaTime : Int) (pairs : List (String × ℚ)) :
    SameKeys (enterAll deltaTime d pairs) := by
  induction pairs generalizing d with
  | nil => exact h
  | cons p pairs ih =>
      apply ih
      intro key
      by_cases hkey : key = p.1
      · subst hkey
        simp [hasData, EpicsData.enter, StdMap.find?_assign_self]
      · have hold := h key
        simpa [hasData, EpicsData.enter, StdMap.find?_assign_ne _ hkey] using hold

end BdxReco
