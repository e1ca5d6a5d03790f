import BdxReco.EPICS.EpicsDataFactory
import Mathlib.Data.List.TakeWhile

/-!
# `EPICS.DecodeEnds` — when the decoding of a text ends

The loop of `epicsData::decode` asks for the end of the stream only. A value that cannot be read leaves the stream where
it is, not at its end, and every further turn finds it there. The check in front of the loop looks at characters, not at
words, and lets such texts through (`decode_ends_iff`).
-/

namespace BdxReco

open EpicsData IStream

/-- Some number of turns ends the loop of `decode`. -/
def Ends (d : EpicsData) (rawData : String) (deltaTime : Int) : Prop :=
  ∃ fuel d', decodeLoop deltaTime fuel { stream := { rest := rawData.toList } } d = some d'

/-- The values of a text: one after each word, from its start on. `taken` is what can continue a number there, `left` the
    text behind it. -/
inductive ValueAt : List Char → List Char → List Char → Prop
  | here {cs : List Char} {c : Char} {text taken left : List Char} :
      cs.dropWhile isSpace = c :: text → collect {} (c :: text) = (taken, left) → ValueAt cs taken left
  | later {cs : List Char} {c : Char} {text taken left taken' left' : List Char} :
      cs.dropWhile isSpace = c :: text → collect {} (c :: text) = (taken, left) →
      ValueAt (afterWord left) taken' left' → ValueAt cs taken' left'

/-- Every value with something behind it is a number. -/
def ValuesReadable (cs : List Char) : Prop := ∀ taken left, ValueAt cs taken left → left ≠ [] → IsNumber taken

theorem not_valueAt_blank {cs taken left : List Char} (h : cs.dropWhile isSpace = []) : ¬ ValueAt cs taken left := by
  intro hvalue
  cases hvalue with
  | here htext _ =>
      rw [h] at htext
      exact absurd htext.symm (List.cons_ne_nil _ _)
  | later htext _ _ =>
      rw [h] at htext
      exact absurd htext.symm (List.cons_ne_nil _ _)

/-- The values of a text are its first one and those behind the next word. -/
theorem valuesReadable_iff {cs : List Char} {c : Char} {text taken left : List Char}
    (htext : cs.dropWhile isSpace = c :: text) (hcollect : collect {} (c :: text) = (taken, left)) :
    ValuesReadable cs ↔ (left ≠ [] → IsNumber taken) ∧ ValuesReadable (afterWord left) := by
  constructor
  · intro h
    exact ⟨h taken left (.here htext hcollect), fun taken' left' hvalue => h taken' left' (.later htext hcollect hvalue)⟩
  · rintro ⟨hfirst, hrest⟩ taken' left' hvalue
    cases hvalue with
    | here htext' hcollect' =>
        rw [htext] at htext'
        obtain ⟨rfl, rfl⟩ := List.cons.inj htext'
        obtain ⟨rfl, rfl⟩ := Prod.mk.inj (hcollect.symm.trans hcollect')
        exact hfirst
    | later htext' hcollect' hvalue' =>
        rw [htext] at htext'
        obtain ⟨rfl, rfl⟩ := List.cons.inj htext'
        obtain ⟨-, rfl⟩ := Prod.mk.inj (hcollect.symm.trans hcollect')
        exact hrest taken' left' hvalue'

/-- Nothing is read from a text that is blank. -/
theorem valuesReadable_blank {cs : List Char} (h : cs.dropWhile isSpace = []) : ValuesReadable cs :=
  fun _ _ hvalue => absurd hvalue (not_valueAt_blank h)

theorem dropWhile_afterWord_nil {cs : List Char} (h : afterWord cs = []) : (afterWord cs).dropWhile isSpace = [] := by
  rw [h, List.dropWhile_nil]

/-! ## One turn -/

/-- **What a turn does** on a text with a value. -/
theorem extract_cases {l : Locals} {cs : List Char} {c : Char} {text taken left : List Char}
    (hstream : l.stream = { rest := cs }) (htext : cs.dropWhile isSpace = c :: text)
    (hcollect : collect {} (c :: text) = (taken, left)) :
    (left = [] → l.extract.stream.eof = true) ∧
      (left ≠ [] → ¬ IsNumber taken → l.extract.stream.fail = true ∧ l.extract.stream.eof = false) ∧
      (left ≠ [] → IsNumber taken → afterWord left = [] → l.extract.stream.eof = true) ∧
      (left ≠ [] → IsNumber taken → afterWord left ≠ [] → l.extract.stream = { rest := afterWord left }) := by
  have hgood : l.stream.good = true := by
    rw [hstream]
    rfl
  have htext' : l.stream.rest.dropWhile isSpace = c :: text := by
    rw [hstream]
    exact htext
  obtain ⟨hnumber, hnot⟩ := getDouble_cases hgood htext' hcollect l.val
  have hextract : l.extract.stream = ((l.stream.getDouble l.val).1.getString l.desc).1 := rfl
  have hmore : left ≠ [] → left.isEmpty = false := by
    intro hleft
    simpa using hleft
  rw [hextract]
  refine ⟨?_, ?_, ?_, ?_⟩
  · -- the value reaches the end, number or not
    rintro rfl
    apply getString_eof
    by_cases hn : IsNumber taken
    · obtain ⟨x, hx⟩ := hnumber hn
      rw [hx]
      rfl
    · obtain ⟨x, hx⟩ := hnot hn
      rw [hx]
      rfl
  · intro hleft hn
    obtain ⟨x, hx⟩ := hnot hn
    rw [hx, hmore hleft, getString_failed rfl rfl]
    exact ⟨rfl, rfl⟩
  · intro hleft hn hafter
    obtain ⟨x, hx⟩ := hnumber hn
    rw [hx, hmore hleft]
    exact (getString_cases left l.desc).1 hafter
  · intro hleft hn hafter
    obtain ⟨x, hx⟩ := hnumber hn
    rw [hx, hmore hleft]
    exact (getString_cases left l.desc).2 hafter

theorem extract_eof_of_blank {l : Locals} {cs : List Char} (hstream : l.stream = { rest := cs })
    (hblank : cs.dropWhile isSpace = []) : l.extract.stream.eof = true := by
  have hspace : ∀ c ∈ cs, isSpace c = true := List.dropWhile_eq_nil_iff.mp hblank
  exact extract_blank hspace hstream

/-! ## The loop -/

/-- Some number of turns ends the loop. -/
def LoopEnds (l : Locals) : Prop := ∃ fuel pairs, readsLoop fuel l = some pairs

theorem loopEnds_of_eof {l : Locals} (h : l.extract.stream.eof = true) : LoopEnds l := by
  refine ⟨1, [], ?_⟩
  unfold readsLoop
  simp only [h, if_true]

/-- One turn more or less makes no difference. -/
theorem loopEnds_iff_extract {l : Locals} (h : l.extract.stream.eof = false) : LoopEnds l ↔ LoopEnds l.extract := by
  constructor
  · rintro ⟨fuel, pairs, hreads⟩
    cases fuel with
    | zero => exact absurd hreads.symm (Option.some_ne_none pairs)
    | succ fuel =>
        unfold readsLoop at hreads
        simp only [h, Bool.false_eq_true, if_false, Option.map_eq_some_iff] at hreads
        obtain ⟨pairs', hreads', -⟩ := hreads
        exact ⟨fuel, pairs', hreads'⟩
  · rintro ⟨fuel, pairs, hreads⟩
    refine ⟨fuel + 1, (l.extract.desc, l.extract.val) :: pairs, ?_⟩
    unfold readsLoop
    simp only [h, Bool.false_eq_true, if_false, hreads, Option.map_some]

theorem not_loopEnds_of_failed {l : Locals} (hfail : l.stream.fail = true) (heof : l.stream.eof = false) :
    ¬ LoopEnds l := by
  rintro ⟨fuel, pairs, hreads⟩
  rw [readsLoop_failed hfail heof] at hreads
  exact absurd hreads.symm (Option.some_ne_none pairs)

/-- **When the loop ends**, by induction on the text that is left. -/
theorem loopEnds_iff {l : Locals} {cs : List Char} (hstream : l.stream = { rest := cs }) :
    LoopEnds l ↔ ValuesReadable cs := by
  induction hn : cs.length using Nat.strong_induction_on generalizing l cs with
  | _ n ih =>
      cases htext : cs.dropWhile isSpace with
      | nil =>
          have heof := extract_eof_of_blank hstream htext
          exact iff_of_true (loopEnds_of_eof heof) (valuesReadable_blank htext)
      | cons c text =>
          cases hcollect : collect {} (c :: text) with
          | mk taken left =>
              obtain ⟨hend, hbad, hlast, hnext⟩ := extract_cases hstream htext hcollect
              rw [valuesReadable_iff htext hcollect]
              by_cases hleft : left = []
              · -- the value reaches the end
                have hafter : afterWord left = [] := by
                  rw [hleft]
                  rfl
                refine iff_of_true (loopEnds_of_eof (hend hleft)) ⟨fun hne => absurd hleft hne, ?_⟩
                exact valuesReadable_blank (dropWhile_afterWord_nil hafter)
              · by_cases hnumber : IsNumber taken
                · by_cases hafter : afterWord left = []
                  · -- the word reaches the end
                    refine iff_of_true (loopEnds_of_eof (hlast hleft hnumber hafter)) ⟨fun _ => hnumber, ?_⟩
                    exact valuesReadable_blank (dropWhile_afterWord_nil hafter)
                  · have hstream' := hnext hleft hnumber hafter
                    have heof : l.extract.stream.eof = false := by
                      rw [hstream']
                    have hfail : l.extract.stream.fail = false := by
                      rw [hstream']
                    have hshorter := extract_rest_length heof hfail
                    rw [hstream, hstream'] at hshorter
                    rw [loopEnds_iff_extract heof, ih _ (hn ▸ hshorter) hstream' rfl]
                    exact ⟨fun h => ⟨fun _ => hnumber, h⟩, fun h => h.2⟩
                · -- nothing gets past the value
                  obtain ⟨hfail, heof⟩ := hbad hleft hnumber
                  rw [loopEnds_iff_extract heof]
                  exact iff_of_false (not_loopEnds_of_failed hfail heof) (fun h => hnumber (h.1 hleft))

/-- **When the decoding of a text ends**: exactly when each of its values, other than one at its very end, is a number
    that a `double` can hold. -/
theorem decode_ends_iff (d : EpicsData) (rawData : String) (deltaTime : Int) :
    Ends d rawData deltaTime ↔ ValuesReadable rawData.toList := by
  rw [← loopEnds_iff (l := { stream := { rest := rawData.toList } }) rfl]
  unfold Ends LoopEnds
  simp only [decodeLoop_eq, Option.map_eq_some_iff]
  constructor
  · rintro ⟨fuel, d', pairs, hreads, -⟩
    exact ⟨fuel, pairs, hreads⟩
  · rintro ⟨fuel, pairs, hreads⟩
    exact ⟨fuel, _, pairs, hreads, rfl⟩

/-- A word where a value should be: the text is valid, and its decoding does not end. -/
theorem word_not_ends : EpicsDataFactory.stringIsValid "BEAM off" = true ∧ ¬ Ends {} "BEAM off" 0 := by
  refine ⟨by decide +kernel, ?_⟩
  rintro ⟨fuel, d', hloop⟩
  have hreads : reads "BEAM off" = none := by decide +kernel
  have hnone : decode {} "BEAM off" 0 = none := by
    rw [decode_eq, hreads]
    rfl
  rw [decode_eq_none hnone] at hloop
  exact absurd hloop.symm (Option.some_ne_none d')

end BdxReco
