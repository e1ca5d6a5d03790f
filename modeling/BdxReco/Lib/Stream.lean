import Mathlib.Algebra.Order.Field.Rat
import Mathlib.Tactic.NormNum

/-!
# `Lib.Stream` — formatted extraction from a C++ string stream

`std::istringstream` in the classic locale: the characters not read yet and the two state bits an extraction can set.
Every formatted extraction starts with the sentry, which skips white space and refuses a stream that is not good.

* `>> std::string` reads up to the next white space.
* `>> double` collects the longest run of characters that can continue a decimal number and converts it. What is not
  a number, and a number too large for the type, sets `failbit`; it is not read again.

A `double` is a rational number here: rounding is left out, overflow is not, since it changes the stream. The texts a
writer produces are `Decimal`s; `getDouble_decimal` says how one is read.
-/

def IStream.isSpace (c : Char) : Bool := c == ' ' || ('\t' ≤ c && c ≤ '\r')

/-- A `std::istringstream`. -/
structure IStream where
  rest : List Char
  eof : Bool := false
  fail : Bool := false
  deriving DecidableEq, Repr

namespace IStream

def good (s : IStream) : Bool := !s.eof && !s.fail

/-- The sentry of a formatted extraction, and whether there is something to read. -/
def sentry (s : IStream) : IStream × Bool :=
  if s.good then
    let rest := s.rest.dropWhile isSpace
    ({ rest, eof := rest.isEmpty, fail := rest.isEmpty }, !rest.isEmpty)
  else ({ s with fail := true }, false)

/-- `>> std::string`, `str` being what the variable holds before. -/
def getString (s : IStream) (str : String) : IStream × String :=
  match s.sentry with
  | (s, false) => (s, str)
  | (s, true) =>
    let word := s.rest.takeWhile (fun c => !isSpace c)
    let rest := s.rest.dropWhile (fun c => !isSpace c)
    ({ rest, eof := rest.isEmpty, fail := word.isEmpty }, String.ofList word)

/-! ## Numbers -/

/-- What the characters collected so far are: whether a sign may come next, and whether there was a digit of the
    mantissa, a point, an exponent letter. -/
structure Collected where
  sign : Bool := true
  mantissa : Bool := false
  dec : Bool := false
  sci : Bool := false

/-- The next character, if it can continue the number. -/
def Collected.next (f : Collected) (c : Char) : Option Collected :=
  if f.sign && (c == '+' || c == '-') then some { f with sign := false }
  else if c.isDigit then some { f with sign := false, mantissa := true }
  else if c == '.' && !f.dec && !f.sci then some { f with sign := false, dec := true }
  else if (c == 'e' || c == 'E') && !f.sci && f.mantissa then some { f with sign := true, sci := true }
  else none

/-- The characters collected, and those left. -/
def collect (f : Collected) : List Char → List Char × List Char
  | [] => ([], [])
  | c :: cs =>
    match f.next c with
    | none => ([], c :: cs)
    | some f' =>
      let (taken, left) := collect f' cs
      (c :: taken, left)

/-- The number that digits denote. -/
def digitsValue (cs : List Char) : Nat := cs.foldl (fun n c => 10 * n + (c.toNat - '0'.toNat)) 0

/-- A sign at the front: whether it is a minus, and what follows. -/
def takeSign : List Char → Bool × List Char
  | '-' :: cs => (true, cs)
  | '+' :: cs => (false, cs)
  | cs => (false, cs)

/-- A point with digits at the front: the digits, and what follows. -/
def takeFraction : List Char → List Char × List Char
  | '.' :: cs => (cs.takeWhile Char.isDigit, cs.dropWhile Char.isDigit)
  | cs => ([], cs)

/-- An exponent that takes up the whole text; no exponent is 0. -/
def takeExponent : List Char → Option Int
  | [] => some 0
  | c :: cs =>
    let (minus, digits) := takeSign cs
    if (c == 'e' || c == 'E') && !digits.isEmpty && digits.all Char.isDigit then
      some (if minus then -(digitsValue digits : Int) else digitsValue digits)
    else none

/-- `strtod` of a text that it has to take up as a whole. -/
def strtod (cs : List Char) : Option ℚ :=
  let (minus, cs) := takeSign cs
  let int := cs.takeWhile Char.isDigit
  let (frac, cs) := takeFraction (cs.dropWhile Char.isDigit)
  if int.isEmpty && frac.isEmpty then none
  else
    (takeExponent cs).map (fun e =>
      (if minus then -1 else 1) * (digitsValue (int ++ frac) : ℚ) * (10 : ℚ) ^ (e - (frac.length : Int)))

/-- The largest `double`. -/
def doubleMax : ℚ := 2 ^ 1024 - 2 ^ 971

/-- From here on a number is rounded to infinity. -/
def doubleOverflow : ℚ := 2 ^ 1024 - 2 ^ 970

/-- `>> double`, `val` being what the variable holds before. -/
def getDouble (s : IStream) (val : ℚ) : IStream × ℚ :=
  match s.sentry with
  | (s, false) => (s, val)
  | (s, true) =>
    let (taken, left) := collect {} s.rest
    match strtod taken with
    | none => ({ rest := left, eof := left.isEmpty, fail := true }, 0)
    | some x =>
      if doubleOverflow ≤ x then ({ rest := left, eof := left.isEmpty, fail := true }, doubleMax)
      else if x ≤ -doubleOverflow then ({ rest := left, eof := left.isEmpty, fail := true }, -doubleMax)
      else ({ rest := left, eof := left.isEmpty }, x)

/-! ## Where an extraction leaves the stream -/

theorem sentry_of_not_good {s : IStream} (h : s.good = false) : s.sentry = ({ s with fail := true }, false) := by
  unfold sentry
  rw [h, if_neg Bool.false_ne_true]

theorem sentry_blank {s : IStream} (h : s.good = true) (hrest : s.rest.dropWhile isSpace = []) :
    s.sentry = ({ rest := [], eof := true, fail := true }, false) := by
  unfold sentry
  rw [h, if_pos rfl, hrest]
  rfl

theorem sentry_text {s : IStream} {c : Char} {cs : List Char} (h : s.good = true)
    (hrest : s.rest.dropWhile isSpace = c :: cs) : s.sentry = ({ rest := c :: cs }, true) := by
  unfold sentry
  rw [h, if_pos rfl, hrest]
  rfl

/-- What the sentry has to do: nothing, skip to the end, or skip to the first character to read. -/
theorem sentry_cases (s : IStream) :
    s.good = false ∨ (s.good = true ∧ s.rest.dropWhile isSpace = []) ∨
      ∃ c cs, s.good = true ∧ s.rest.dropWhile isSpace = c :: cs ∧ isSpace c = false := by
  cases hgood : s.good with
  | false => exact Or.inl rfl
  | true =>
      cases hrest : s.rest.dropWhile isSpace with
      | nil => exact Or.inr (Or.inl ⟨rfl, rfl⟩)
      | cons c cs =>
          have hhead := List.head?_dropWhile_not isSpace s.rest
          exact Or.inr (Or.inr ⟨c, cs, rfl, rfl, by simpa [hrest] using hhead⟩)

theorem collect_left_length (f : Collected) (cs : List Char) : (collect f cs).2.length ≤ cs.length := by
  induction cs generalizing f with
  | nil => rfl
  | cons c cs ih =>
      unfold collect
      cases f.next c with
      | none => exact Nat.le_refl _
      | some f' => exact Nat.le_succ_of_le (ih f')

theorem getDouble_text_rest {s : IStream} {c : Char} {cs : List Char} (h : s.good = true)
    (hrest : s.rest.dropWhile isSpace = c :: cs) (val : ℚ) :
    (s.getDouble val).1.rest = (collect {} (c :: cs)).2 := by
  unfold getDouble
  simp only [sentry_text h hrest]
  split
  · rfl
  · split
    · rfl
    · split
      · rfl
      · rfl

theorem length_dropWhile_le (p : Char → Bool) (cs : List Char) : (cs.dropWhile p).length ≤ cs.length :=
  (List.dropWhile_suffix p).length_le

theorem getDouble_rest_length (s : IStream) (val : ℚ) : (s.getDouble val).1.rest.length ≤ s.rest.length := by
  rcases s.sentry_cases with hgood | ⟨hgood, hrest⟩ | ⟨c, cs, hgood, hrest, -⟩
  · simp [getDouble, sentry_of_not_good hgood]
  · simp [getDouble, sentry_blank hgood hrest]
  · have hdrop := length_dropWhile_le isSpace s.rest
    rw [hrest] at hdrop
    rw [getDouble_text_rest hgood hrest]
    exact (collect_left_length {} (c :: cs)).trans hdrop

/-- **A string extraction that leaves the stream good has read something.** -/
theorem getString_rest_length {s : IStream} {str : String} (h : (s.getString str).1.good = true) :
    (s.getString str).1.rest.length < s.rest.length := by
  rcases s.sentry_cases with hgood | ⟨hgood, hrest⟩ | ⟨c, cs, hgood, hrest, hc⟩
  · simp [getString, sentry_of_not_good hgood, good] at h
  · simp [getString, sentry_blank hgood hrest, good] at h
  · have hdrop := length_dropWhile_le isSpace s.rest
    have hword := length_dropWhile_le (fun c => !isSpace c) cs
    rw [hrest, List.length_cons] at hdrop
    simp only [getString, sentry_text hgood hrest, List.dropWhile_cons_of_pos, hc, Bool.not_false]
    omega

/-! ## Decimal literals -/

/-- The exponent of a literal. -/
structure Exponent where
  capital : Bool := false
  minus : Option Bool := none
  digits : List (Fin 10)
  digits_ne : digits ≠ []

/-- A decimal literal: a sign, digits with a point somewhere or nowhere, an exponent. `minus` is `none` without a sign. -/
structure Decimal where
  minus : Option Bool := none
  int : List (Fin 10)
  frac : Option (List (Fin 10)) := none
  exp : Option Exponent := none
  digits_ne : int ++ frac.getD [] ≠ []

def signChars : Option Bool → List Char
  | none => []
  | some true => ['-']
  | some false => ['+']

def digitChar (d : Fin 10) : Char := Char.ofNat (48 + d)

def fracChars : Option (List (Fin 10)) → List Char
  | none => []
  | some ds => '.' :: ds.map digitChar

def expChars : Option Exponent → List Char
  | none => []
  | some e => (if e.capital then 'E' else 'e') :: (signChars e.minus ++ e.digits.map digitChar)

def Decimal.toChars (x : Decimal) : List Char :=
  signChars x.minus ++ (x.int.map digitChar ++ (fracChars x.frac ++ expChars x.exp))

/-- The number that decimal digits denote. -/
def ofDigits (ds : List (Fin 10)) : Nat := ds.foldl (fun n d => 10 * n + d.val) 0

def signOf (minus : Option Bool) : Int := if minus = some true then -1 else 1

def Exponent.value (e : Exponent) : Int := signOf e.minus * ofDigits e.digits

def Decimal.value (x : Decimal) : ℚ :=
  signOf x.minus * ofDigits (x.int ++ x.frac.getD [])
    * 10 ^ ((x.exp.map Exponent.value).getD 0 - ((x.frac.getD []).length : Int))

/-- The literal is not too large for a `double`. -/
def Decimal.InRange (x : Decimal) : Prop := |x.value| < doubleOverflow

theorem isDigit_digitChar (d : Fin 10) : (digitChar d).isDigit = true := by
  revert d
  decide

theorem digitChar_ne_sign (d : Fin 10) : digitChar d ≠ '+' ∧ digitChar d ≠ '-' := by
  revert d
  decide

theorem digitsValue_map (ds : List (Fin 10)) : digitsValue (ds.map digitChar) = ofDigits ds := by
  have hdigit : ∀ d : Fin 10, (digitChar d).toNat - '0'.toNat = d.val := by decide
  unfold digitsValue ofDigits
  rw [List.foldl_map]
  simp only [hdigit]

theorem takeWhile_digits {cs : List Char} (ds : List (Fin 10)) (h : cs.takeWhile Char.isDigit = []) :
    (ds.map digitChar ++ cs).takeWhile Char.isDigit = ds.map digitChar ∧
      (ds.map digitChar ++ cs).dropWhile Char.isDigit = cs := by
  have hdigits : ∀ c ∈ ds.map digitChar, c.isDigit = true := by
    intro c hc
    obtain ⟨d, -, rfl⟩ := List.mem_map.mp hc
    exact isDigit_digitChar d
  have hcs : cs.dropWhile Char.isDigit = cs := by
    have hsplit := List.takeWhile_append_dropWhile (p := Char.isDigit) (l := cs)
    rwa [h, List.nil_append] at hsplit
  rw [List.takeWhile_append_of_pos hdigits, List.dropWhile_append_of_pos hdigits, h, List.append_nil]
  exact ⟨rfl, hcs⟩

theorem takeWhile_expChars (e : Option Exponent) : (expChars e).takeWhile Char.isDigit = [] := by
  cases e with
  | none => rfl
  | some e =>
      obtain ⟨capital, minus, digits, -⟩ := e
      cases capital <;> rfl

theorem takeWhile_fracChars (frac : Option (List (Fin 10))) (e : Option Exponent) :
    (fracChars frac ++ expChars e).takeWhile Char.isDigit = [] := by
  cases frac with
  | none => exact takeWhile_expChars e
  | some ds => rfl

theorem takeSign_signChars (minus : Option Bool) {cs : List Char}
    (h : ∀ c, cs.head? = some c → c ≠ '+' ∧ c ≠ '-') :
    takeSign (signChars minus ++ cs) = (decide (minus = some true), cs) := by
  match minus with
  | some true => rfl
  | some false => rfl
  | none =>
      cases cs with
      | nil => rfl
      | cons c cs =>
          obtain ⟨hplus, hminus⟩ := h c rfl
          simp only [signChars, List.nil_append]
          unfold takeSign
          split
          · rename_i heq
            exact absurd (List.cons.inj heq).1 hminus
          · rename_i heq
            exact absurd (List.cons.inj heq).1 hplus
          · rfl

theorem takeFraction_fracChars (frac : Option (List (Fin 10))) (e : Option Exponent) :
    takeFraction (fracChars frac ++ expChars e) = ((frac.getD []).map digitChar, expChars e) := by
  cases frac with
  | none =>
      cases e with
      | none => rfl
      | some e =>
          obtain ⟨capital, minus, digits, -⟩ := e
          cases capital <;> rfl
  | some ds =>
      obtain ⟨htake, hdrop⟩ := takeWhile_digits ds (takeWhile_expChars e)
      simp only [fracChars, List.cons_append, takeFraction, htake, hdrop, Option.getD_some]

theorem head?_map_digitChar {ds : List (Fin 10)} {cs : List Char} {c : Char} (hds : ds ≠ [])
    (h : (ds.map digitChar ++ cs).head? = some c) : c ≠ '+' ∧ c ≠ '-' := by
  cases ds with
  | nil => exact absurd rfl hds
  | cons d ds =>
      simp only [List.map_cons, List.cons_append, List.head?_cons, Option.some.injEq] at h
      rw [← h]
      exact digitChar_ne_sign d

theorem takeExponent_expChars (e : Option Exponent) :
    takeExponent (expChars e) = some ((e.map Exponent.value).getD 0) := by
  cases e with
  | none => rfl
  | some e =>
      have hsign : takeSign (signChars e.minus ++ e.digits.map digitChar)
          = (decide (e.minus = some true), e.digits.map digitChar) := by
        apply takeSign_signChars
        intro c hc
        exact head?_map_digitChar e.digits_ne (by rwa [List.append_nil])
      have hletter : ((if e.capital then 'E' else 'e') == 'e' || (if e.capital then 'E' else 'e') == 'E') = true := by
        cases e.capital <;> rfl
      have hne : (e.digits.map digitChar).isEmpty = false := by
        simpa using e.digits_ne
      have hall : (e.digits.map digitChar).all Char.isDigit = true := by
        simp [isDigit_digitChar]
      unfold expChars takeExponent
      simp only [hsign, hletter, hne, hall, digitsValue_map, decide_eq_true_eq, Bool.not_false, Bool.and_true,
        if_true, Option.map_some, Option.getD_some, Option.some.injEq, Exponent.value, signOf]
      split
      · rw [neg_one_mul]
      · rw [one_mul]

/-- **`strtod` gives a literal its value.** -/
theorem strtod_toChars (x : Decimal) : strtod x.toChars = some x.value := by
  have hsign : takeSign x.toChars
      = (decide (x.minus = some true), x.int.map digitChar ++ (fracChars x.frac ++ expChars x.exp)) := by
    apply takeSign_signChars
    intro c hc
    by_cases hint : x.int = []
    · -- the literal starts with its point
      have hfrac := x.digits_ne
      rw [hint, List.nil_append] at hfrac
      cases hpoint : x.frac with
      | none => simp [hpoint] at hfrac
      | some ds =>
          rw [hint, hpoint] at hc
          simp only [List.map_nil, List.nil_append, fracChars, List.cons_append, List.head?_cons,
            Option.some.injEq] at hc
          rw [← hc]
          decide
    · exact head?_map_digitChar hint hc
  obtain ⟨htake, hdrop⟩ := takeWhile_digits x.int (takeWhile_fracChars x.frac x.exp)
  have hne : ((x.int.map digitChar).isEmpty && ((x.frac.getD []).map digitChar).isEmpty) = false := by
    rw [← Bool.not_eq_true]
    intro hboth
    apply x.digits_ne
    simpa using hboth
  unfold strtod
  simp only [hsign, htake, hdrop, takeFraction_fracChars, takeExponent_expChars, hne, ← List.map_append,
    digitsValue_map, List.length_map, Option.map_some, Decimal.value, signOf, decide_eq_true_eq]
  rw [if_neg Bool.false_ne_true]
  split
  · simp
  · simp

/-! ## Reading a literal and a word -/

theorem isSpace_cases {c : Char} (h : isSpace c = true) : c.toNat = 32 ∨ (9 ≤ c.toNat ∧ c.toNat ≤ 13) := by
  unfold isSpace at h
  rcases Bool.or_eq_true_iff.mp h with h | h
  · rw [eq_of_beq h]
    exact Or.inl rfl
  · obtain ⟨hlo, hhi⟩ := Bool.and_eq_true_iff.mp h
    exact Or.inr ⟨of_decide_eq_true hlo, of_decide_eq_true hhi⟩

theorem isDigit_of_isSpace {c : Char} (h : isSpace c = true) : c.isDigit = false := by
  have hspace := isSpace_cases h
  rw [← Bool.not_eq_true]
  intro hdigit
  unfold Char.isDigit at hdigit
  simp only [ge_iff_le, Bool.and_eq_true, decide_eq_true_eq, UInt32.le_iff_toNat_le] at hdigit
  have hlo : 48 ≤ c.toNat := hdigit.1
  omega

/-- White space continues no number. -/
theorem next_of_isSpace {c : Char} (h : isSpace c = true) (f : Collected) : f.next c = none := by
  have hne : ∀ c', isSpace c' = false → (c == c') = false := by
    intro c' hc'
    rw [beq_eq_false_iff_ne]
    rintro rfl
    rw [h] at hc'
    exact Bool.noConfusion hc'
  unfold Collected.next
  simp [hne '+' (by decide), hne '-' (by decide), hne '.' (by decide), hne 'e' (by decide), hne 'E' (by decide),
    isDigit_of_isSpace h]

/-- Characters that all continue the number are collected. -/
theorem collect_append {f f' : Collected} {cs : List Char} (h : cs.foldlM Collected.next f = some f')
    (left : List Char) : collect f (cs ++ left) = (cs ++ (collect f' left).1, (collect f' left).2) := by
  induction cs generalizing f with
  | nil =>
      obtain rfl : f = f' := Option.some.inj h
      rfl
  | cons c cs ih =>
      rw [List.foldlM_cons] at h
      obtain ⟨f₁, hnext, htail⟩ := Option.bind_eq_some_iff.mp h
      rw [List.cons_append, collect, hnext]
      simp only [ih htail, List.cons_append]

theorem next_digitChar (f : Collected) (d : Fin 10) :
    f.next (digitChar d) = some { f with sign := false, mantissa := true } := by
  obtain ⟨hplus, hminus⟩ := digitChar_ne_sign d
  simp [Collected.next, hplus, hminus, isDigit_digitChar]

theorem next_digits (f : Collected) (ds : List (Fin 10)) :
    ∃ f', (ds.map digitChar).foldlM Collected.next f = some f' ∧ f'.dec = f.dec ∧ f'.sci = f.sci ∧
      (f.mantissa = true ∨ ds ≠ [] → f'.mantissa = true) := by
  induction ds generalizing f with
  | nil => exact ⟨f, rfl, rfl, rfl, by simp⟩
  | cons d ds ih =>
      obtain ⟨f', hfold, hdec, hsci, hmantissa⟩ := ih { f with sign := false, mantissa := true }
      refine ⟨f', ?_, hdec, hsci, fun _ => hmantissa (Or.inl rfl)⟩
      rw [List.map_cons, List.foldlM_cons, next_digitChar]
      exact hfold

theorem next_signChars {f : Collected} (h : f.sign = true) (minus : Option Bool) :
    ∃ f', (signChars minus).foldlM Collected.next f = some f' ∧ f'.dec = f.dec ∧ f'.sci = f.sci ∧
      f'.mantissa = f.mantissa := by
  match minus with
  | none => exact ⟨f, rfl, rfl, rfl, rfl⟩
  | some true => exact ⟨{ f with sign := false }, by simp [signChars, Collected.next, h], rfl, rfl, rfl⟩
  | some false => exact ⟨{ f with sign := false }, by simp [signChars, Collected.next, h], rfl, rfl, rfl⟩

theorem next_fracChars {f : Collected} (hdec : f.dec = false) (hsci : f.sci = false) (frac : Option (List (Fin 10))) :
    ∃ f', (fracChars frac).foldlM Collected.next f = some f' ∧ f'.sci = false ∧
      (f.mantissa = true ∨ frac.getD [] ≠ [] → f'.mantissa = true) := by
  cases frac with
  | none => exact ⟨f, rfl, hsci, by simp⟩
  | some ds =>
      obtain ⟨f', hfold, -, hsci', hmantissa⟩ := next_digits { f with sign := false, dec := true } ds
      refine ⟨f', ?_, hsci'.trans hsci, hmantissa⟩
      have hpoint : f.next '.' = some { f with sign := false, dec := true } := by
        simp [Collected.next, hdec, hsci]
      rw [fracChars, List.foldlM_cons, hpoint]
      exact hfold

theorem next_expChars {f : Collected} (hmantissa : f.mantissa = true) (hsci : f.sci = false) (e : Option Exponent) :
    ∃ f', (expChars e).foldlM Collected.next f = some f' := by
  cases e with
  | none => exact ⟨f, rfl⟩
  | some e =>
      have hletter : f.next (if e.capital then 'E' else 'e') = some { f with sign := true, sci := true } := by
        cases e.capital <;> simp [Collected.next, hmantissa, hsci]
      obtain ⟨f₁, hsign, -, -, -⟩ := next_signChars (f := { f with sign := true, sci := true }) rfl e.minus
      obtain ⟨f₂, hdigits, -, -, -⟩ := next_digits f₁ e.digits
      refine ⟨f₂, ?_⟩
      rw [expChars, List.foldlM_cons, hletter, Option.bind_eq_bind, Option.bind_some, List.foldlM_append, hsign]
      exact hdigits

theorem next_toChars (x : Decimal) : ∃ f', x.toChars.foldlM Collected.next {} = some f' := by
  obtain ⟨f₁, hsign, hdec₁, hsci₁, -⟩ := next_signChars (f := {}) rfl x.minus
  obtain ⟨f₂, hint, hdec₂, hsci₂, hmantissa₂⟩ := next_digits f₁ x.int
  obtain ⟨f₃, hfrac, hsci₃, hmantissa₃⟩ := next_fracChars (hdec₂.trans hdec₁) (hsci₂.trans hsci₁) x.frac
  have hmantissa : f₃.mantissa = true := by
    by_cases hne : x.int = []
    · have hdigits := x.digits_ne
      rw [hne, List.nil_append] at hdigits
      exact hmantissa₃ (Or.inr hdigits)
    · exact hmantissa₃ (Or.inl (hmantissa₂ (Or.inr hne)))
  obtain ⟨f₄, hexp⟩ := next_expChars hmantissa hsci₃ x.exp
  refine ⟨f₄, ?_⟩
  rw [Decimal.toChars, List.foldlM_append, hsign, Option.bind_eq_bind, Option.bind_some, List.foldlM_append, hint,
    Option.bind_eq_bind, Option.bind_some, List.foldlM_append, hfrac, Option.bind_eq_bind, Option.bind_some]
  exact hexp

theorem collect_toChars (x : Decimal) {c : Char} (hc : isSpace c = true) (cs : List Char) :
    collect {} (x.toChars ++ c :: cs) = (x.toChars, c :: cs) := by
  obtain ⟨f, hf⟩ := next_toChars x
  rw [collect_append hf, collect, next_of_isSpace hc]
  simp only [List.append_nil]

theorem toChars_cons (x : Decimal) : ∃ c cs, x.toChars = c :: cs ∧ isSpace c = false := by
  obtain ⟨f, hf⟩ := next_toChars x
  cases hchars : x.toChars with
  | nil =>
      exfalso
      simp only [Decimal.toChars, List.append_eq_nil_iff, List.map_eq_nil_iff] at hchars
      obtain ⟨-, hint, hfrac, -⟩ := hchars
      apply x.digits_ne
      rw [hint, List.nil_append]
      cases hpoint : x.frac with
      | none => rfl
      | some ds => simp [hpoint, fracChars] at hfrac
  | cons c cs =>
      refine ⟨c, cs, rfl, ?_⟩
      rw [← Bool.not_eq_true]
      intro hspace
      rw [hchars, List.foldlM_cons, next_of_isSpace hspace] at hf
      exact absurd hf.symm (Option.some_ne_none f)

/-- Skipping white space in front of a text that starts with something else. -/
theorem dropWhile_blank {blank : List Char} (hblank : ∀ c ∈ blank, isSpace c = true) {c : Char} {cs : List Char}
    (hc : isSpace c = false) : (blank ++ c :: cs).dropWhile isSpace = c :: cs := by
  rw [List.dropWhile_append_of_pos hblank, List.dropWhile_cons_of_neg (by simp [hc])]

section Reading

variable {s : IStream} (hgood : s.good = true) {blank : List Char} (hblank : ∀ c ∈ blank, isSpace c = true)
  {c : Char} (hc : isSpace c = true) {cs : List Char}

include hgood hblank hc

/-- **How a literal is read.** In range it is read and the stream stays good; out of range the stream fails, away from
    its end. -/
theorem getDouble_decimal {x : Decimal} (hrest : s.rest = blank ++ (x.toChars ++ c :: cs)) (val : ℚ) :
    (x.InRange → s.getDouble val = ({ rest := c :: cs }, x.value)) ∧
      (¬ x.InRange → (s.getDouble val).1 = { rest := c :: cs, fail := true }) := by
  obtain ⟨c₀, cs₀, hchars, hc₀⟩ := toChars_cons x
  have htext : s.rest.dropWhile isSpace = c₀ :: (cs₀ ++ c :: cs) := by
    rw [hrest, hchars, List.cons_append, dropWhile_blank hblank hc₀]
  have hcollect : collect {} (c₀ :: (cs₀ ++ c :: cs)) = (x.toChars, c :: cs) := by
    rw [← List.cons_append, ← hchars, collect_toChars x hc]
  unfold getDouble Decimal.InRange
  simp only [sentry_text hgood htext, hcollect, strtod_toChars, List.isEmpty_cons]
  constructor
  · intro hin
    obtain ⟨hlo, hhi⟩ := abs_lt.mp hin
    rw [if_neg (not_le.mpr hhi), if_neg (not_le.mpr hlo)]
  · intro hout
    split
    · rfl
    · split
      · rfl
      · rename_i hhi hlo
        exact absurd (abs_lt.mpr ⟨not_le.mp hlo, not_le.mp hhi⟩) hout

/-- **How a word is read.** -/
theorem getString_word {word : List Char} (hne : word ≠ []) (hword : ∀ c ∈ word, isSpace c = false)
    (hrest : s.rest = blank ++ (word ++ c :: cs)) (str : String) :
    s.getString str = ({ rest := c :: cs }, String.ofList word) := by
  cases word with
  | nil => exact absurd rfl hne
  | cons c₀ word =>
      have htext : s.rest.dropWhile isSpace = c₀ :: (word ++ c :: cs) := by
        rw [hrest, List.cons_append, dropWhile_blank hblank (hword c₀ (by simp))]
      have hpos : ∀ c ∈ c₀ :: word, (!isSpace c) = true := by
        intro c hc
        rw [hword c hc]
        rfl
      have htake : ((c₀ :: word) ++ c :: cs).takeWhile (fun c => !isSpace c) = c₀ :: word := by
        rw [List.takeWhile_append_of_pos hpos, List.takeWhile_cons_of_neg (by simp [hc]), List.append_nil]
      have hdrop : ((c₀ :: word) ++ c :: cs).dropWhile (fun c => !isSpace c) = c :: cs := by
        rw [List.dropWhile_append_of_pos hpos, List.dropWhile_cons_of_neg (by simp [hc])]
      unfold getString
      simp only [sentry_text hgood htext, ← List.cons_append, htake, hdrop, List.isEmpty_cons]

end Reading

/-! ## What an extraction can do -/

/-- A decimal number that a `double` can hold. -/
def IsNumber (cs : List Char) : Prop := ∃ x, strtod cs = some x ∧ |x| < doubleOverflow

/-- The text behind the next word. -/
def afterWord (cs : List Char) : List Char := (cs.dropWhile isSpace).dropWhile (fun c => !isSpace c)

/-- **What `>> double` does** on a text that goes on: it takes what can continue a number, and fails if this is none. -/
theorem getDouble_cases {s : IStream} (hgood : s.good = true) {c : Char} {cs taken left : List Char}
    (htext : s.rest.dropWhile isSpace = c :: cs) (hcollect : collect {} (c :: cs) = (taken, left)) (val : ℚ) :
    (IsNumber taken → ∃ x, s.getDouble val = ({ rest := left, eof := left.isEmpty }, x)) ∧
      (¬ IsNumber taken → ∃ x, s.getDouble val = ({ rest := left, eof := left.isEmpty, fail := true }, x)) := by
  unfold getDouble
  simp only [sentry_text hgood htext, hcollect]
  constructor
  · rintro ⟨x, hx, hrange⟩
    obtain ⟨hlo, hhi⟩ := abs_lt.mp hrange
    simp only [hx, if_neg (not_le.mpr hhi), if_neg (not_le.mpr hlo)]
    exact ⟨x, rfl⟩
  · intro hnot
    cases hx : strtod taken with
    | none => exact ⟨0, rfl⟩
    | some x =>
        dsimp only
        by_cases hhi : doubleOverflow ≤ x
        · rw [if_pos hhi]
          exact ⟨_, rfl⟩
        · by_cases hlo : x ≤ -doubleOverflow
          · rw [if_neg hhi, if_pos hlo]
            exact ⟨_, rfl⟩
          · exact absurd ⟨x, hx, abs_lt.mpr ⟨not_le.mp hlo, not_le.mp hhi⟩⟩ hnot

/-- A stream at its end stays there. -/
theorem getString_eof {s : IStream} (heof : s.eof = true) (str : String) : (s.getString str).1.eof = true := by
  have hbad : s.good = false := by
    simp [good, heof]
  unfold getString
  simp only [sentry_of_not_good hbad]
  exact heof

/-- **What `>> std::string` does**: it stays good if there is something behind the next word. -/
theorem getString_cases (cs : List Char) (str : String) :
    (afterWord cs = [] → (IStream.getString { rest := cs } str).1.eof = true) ∧
      (afterWord cs ≠ [] → (IStream.getString { rest := cs } str).1 = { rest := afterWord cs }) := by
  rcases sentry_cases { rest := cs } with hbad | ⟨hgood, hblank⟩ | ⟨c, text, hgood, htext, hc⟩
  · exact absurd hbad (by simp [good])
  · have hafter : afterWord cs = [] := by
      unfold afterWord
      have hblank' : cs.dropWhile isSpace = [] := hblank
      rw [hblank', List.dropWhile_nil]
    unfold getString
    simp only [sentry_blank hgood hblank, hafter, ne_eq, not_true_eq_false, false_imp_iff, and_true, true_imp_iff]
  · have hafter : afterWord cs = (c :: text).dropWhile (fun c => !isSpace c) := by
      unfold afterWord
      have htext' : cs.dropWhile isSpace = c :: text := htext
      rw [htext']
    have hword : ((c :: text).takeWhile (fun c => !isSpace c)).isEmpty = false := by
      rw [List.takeWhile_cons_of_pos (by simp [hc])]
      rfl
    unfold getString
    simp only [sentry_text hgood htext, ← hafter, hword]
    constructor
    · intro hnil
      simp [hnil]
    · intro hne
      simpa using hne

/-! ## Lines -/

/-- The characters of a line, with room for so many of them: the end of the text is looked for first, then the end of the
    line, which is taken but not stored, then the end of the room. -/
def takeLine : Nat → List Char → IStream × List Char
  | _, [] => ({ rest := [], eof := true }, [])
  | room, c :: cs =>
    if c = '\n' then ({ rest := cs }, [])
    else
      match room with
      | 0 => ({ rest := c :: cs, fail := true }, [])
      | room + 1 => ((takeLine room cs).1, c :: (takeLine room cs).2)
termination_by structural _ cs => cs

/-- `getline` into an array of `n` characters, the last of which is for the terminating NUL. -/
def getline (s : IStream) (n : Nat) : IStream × List Char :=
  if s.good then
    if s.rest.isEmpty then ({ rest := [], eof := true, fail := true }, [])
    else takeLine (n - 1) s.rest
  else ({ s with fail := true }, [])

section Lines

variable {room : Nat} {line : List Char} (hline : '\n' ∉ line)
include hline

/-- What comes behind characters that all have room. -/
theorem takeLine_append (hroom : line.length ≤ room) (cs : List Char) :
    takeLine room (line ++ cs)
      = ((takeLine (room - line.length) cs).1, line ++ (takeLine (room - line.length) cs).2) := by
  induction line generalizing room with
  | nil => rfl
  | cons c line ih =>
      obtain ⟨hc, hline'⟩ := List.ne_and_not_mem_of_not_mem_cons hline
      cases room with
      | zero => simp at hroom
      | succ room =>
          have htail := ih hline' (Nat.le_of_succ_le_succ hroom)
          rw [List.cons_append, takeLine, if_neg (Ne.symm hc)]
          simp only [htail, List.length_cons, Nat.add_sub_add_right, List.cons_append]

/-- A line that has room is taken with its end. -/
theorem takeLine_newline (hroom : line.length ≤ room) (cs : List Char) :
    takeLine room (line ++ '\n' :: cs) = ({ rest := cs }, line) := by
  have hend : ∀ room, takeLine room ('\n' :: cs) = ({ rest := cs }, []) := fun room => by cases room <;> rfl
  rw [takeLine_append hline hroom, hend, List.append_nil]

/-- The last line of a text, if it has room. -/
theorem takeLine_last (hroom : line.length ≤ room) : takeLine room line = ({ rest := [], eof := true }, line) := by
  have happend := takeLine_append hline hroom []
  rwa [List.append_nil, takeLine, List.append_nil] at happend

/-- **A line that has no room** is cut, and the stream fails. -/
theorem takeLine_long (hroom : room < line.length) (cs : List Char) :
    takeLine room (line ++ cs) = ({ rest := line.drop room ++ cs, fail := true }, line.take room) := by
  have htake : '\n' ∉ line.take room := fun hmem => hline (List.mem_of_mem_take hmem)
  have hlength : (line.take room).length = room := List.length_take_of_le (Nat.le_of_lt hroom)
  obtain ⟨c, tail, hdrop⟩ := List.exists_cons_of_length_pos (l := line.drop room) (by rw [List.length_drop]; omega)
  have hc : c ≠ '\n' := by
    rintro rfl
    exact hline (List.mem_of_mem_drop (i := room) (by simp [hdrop]))
  have hcut : takeLine 0 (line.drop room ++ cs) = ({ rest := line.drop room ++ cs, fail := true }, []) := by
    rw [hdrop, List.cons_append, takeLine, if_neg hc]
  have happend := takeLine_append htake (Nat.le_of_eq hlength) (line.drop room ++ cs)
  rwa [hlength, Nat.sub_self, hcut, ← List.append_assoc, List.take_append_drop, List.append_nil] at happend

end Lines

end IStream
