import BdxReco.Lib.MixedRadix
import BdxReco.TRIDAS.DataFrameHeader

/-!
# `TRIDAS.FrameTime` — the time of a data frame

A header holds its time as the year and the day of the year, both in binary coded decimals, the second of the day, the
number of the frame of 125 µs in the second, and the number of the tick of 4 ns in the frame. `getDFHFullTime` turns
this into ticks since the year 2000, `setDFHFullTime` writes a number of ticks into a header.

* `fullTime_inverse`: they are inverse to each other, on all times up to the year 2068 and all headers a waveboard
  writes.
* `getDFHFullTime_lt_iff`: the order of two times is the order of the 64 bits that hold them.

Times are numbers of ticks here; `fine_time` counts them in 64 bits, which no header exceeds.
-/

namespace BdxReco.Tridas

/-- Ticks of 4 ns in a frame of 125 µs. -/
def ticksPerFrame : Nat := 31250

def framesPerSecond : Nat := 8000

def ticksPerSecond : Nat := 250000000

def secondsPerDay : Nat := 86400

namespace DataFrameHeader

/-! ## Reading the time -/

def getDFHYears (h : DataFrameHeader) : Nat :=
  let r := h.Years.toNat &&& 15
  r + (10 * (h.Years.toNat &&& 240)) >>> 4

def getDFHDays (h : DataFrameHeader) : Nat :=
  let r := h.Days.toNat &&& 15
  let r := r + (10 * (h.Days.toNat &&& 240)) >>> 4
  r + (100 * (h.Days.toNat &&& 768)) >>> 8

def getDFHDayTime (h : DataFrameHeader) : Nat :=
  h.Seconds.toNat * ticksPerSecond + h.FrameCounter.toNat * ticksPerFrame + h.T4ns.toNat

def getDFHYearTime (h : DataFrameHeader) : Nat := secondsPerDay * h.getDFHDays * ticksPerSecond + h.getDFHDayTime

/-- The days of the leap years before the year. -/
def bissextileDays (years : Nat) : Nat :=
  let days := years >>> 2 + 1
  if years % 4 = 0 then days - 1 else days

/-- Time elapsed since the year 2000; the seconds of the years are an `unsigned int`. -/
def getDFHFullTime (h : DataFrameHeader) : Nat :=
  let years := h.getDFHYears
  (31536000 * years + 86400 * bissextileDays years) % 2 ^ 32 * ticksPerSecond + h.getDFHYearTime

/-! ## Writing the time -/

/-- `none` is a failed assertion. -/
def setDFHDays (gregorian : Nat) (h : DataFrameHeader) : Option DataFrameHeader :=
  if gregorian < 367 then
    let hundreds := gregorian / 100
    let tens := gregorian % 100 / 10
    let units := gregorian % 10
    some { h with Days := BitVec.ofNat 10 (hundreds <<< 8 + tens <<< 4 + units) }
  else none

def setDFHYears (year : Nat) (h : DataFrameHeader) : Option DataFrameHeader :=
  if year < 100 then
    let tens := year / 10
    let units := year % 10
    some { h with Years := BitVec.ofNat 8 (tens <<< 4 + units) }
  else none

def setDFHDayTime (time : Nat) (h : DataFrameHeader) : Option DataFrameHeader :=
  if time < secondsPerDay * ticksPerSecond then
    let secs := time / ticksPerSecond
    let framecounter := (time - secs * ticksPerSecond) / ticksPerFrame
    some { h with
      Seconds := BitVec.ofNat 17 secs
      FrameCounter := BitVec.ofNat 13 framecounter
      T4ns := BitVec.ofNat 16 (time - secs * ticksPerSecond - framecounter * ticksPerFrame) }
  else none

def setDFHYearTime (time : Nat) (h : DataFrameHeader) : Option DataFrameHeader := do
  let gregorian := time / (secondsPerDay * ticksPerSecond)
  let h ← h.setDFHDays gregorian
  h.setDFHDayTime (time - gregorian * (secondsPerDay * ticksPerSecond))

/-- `calendar s` is what the calendar library makes of `s` seconds since 2000: the year, counted from 2000, and the
    seconds since its first of January. -/
def setDFHFullTime (calendar : Nat → Nat × Nat) (time : Nat) (h : DataFrameHeader) : Option DataFrameHeader := do
  let s := time / ticksPerSecond
  let (year, x) := calendar s
  let h ← h.setDFHYears year
  let rest := time - s * ticksPerSecond
  h.setDFHYearTime (x * ticksPerSecond + rest)

end DataFrameHeader

/-! ## The calendar -/

/-- Leap years of the Gregorian calendar, counted from 2000. -/
def isLeapYear (year : Nat) : Bool := (year + 2000) % 4 == 0 && ((year + 2000) % 100 != 0 || (year + 2000) % 400 == 0)

def daysOfYear (year : Nat) : Nat := if isLeapYear year then 366 else 365

/-- Days from 2000 to the first of January of the year. -/
def firstOfTheYear : Nat → Nat
  | 0 => 0
  | year + 1 => firstOfTheYear year + daysOfYear year

/-- The days of the years a header can hold. -/
def daysOfCentury : Nat := 36525

theorem firstOfTheYear_century : firstOfTheYear 100 = daysOfCentury := by decide +kernel

/-- The calendar is right up to `limit` seconds since 2000. -/
def Gregorian (calendar : Nat → Nat × Nat) (limit : Nat) : Prop :=
  ∀ s < limit, (calendar s).2 < daysOfYear (calendar s).1 * secondsPerDay ∧
    firstOfTheYear (calendar s).1 * secondsPerDay + (calendar s).2 = s

theorem firstOfTheYear_lt {year year' : Nat} (h : year < year') :
    firstOfTheYear year + daysOfYear year ≤ firstOfTheYear year' := by
  induction h with
  | refl => exact Nat.le_refl _
  | step _ ih => exact Nat.le_trans ih (Nat.le_add_right _ _)

theorem year_lt_of_lt {year year' : Nat} (h : firstOfTheYear year < firstOfTheYear year') : year < year' := by
  apply Nat.lt_of_not_le
  intro hle
  rcases Nat.eq_or_lt_of_le hle with heq | hlt
  · rw [heq] at h
    exact absurd h (Nat.lt_irrefl _)
  · have hmono := firstOfTheYear_lt hlt
    omega

/-- The seconds of the years do not overflow, and count the leap days right. -/
theorem yearSeconds (years : Nat) (h : years < 100) :
    (31536000 * years + 86400 * DataFrameHeader.bissextileDays years) % 2 ^ 32
      = firstOfTheYear years * secondsPerDay := by
  have hall : ∀ y < 100, (31536000 * y + 86400 * DataFrameHeader.bissextileDays y) % 2 ^ 32
      = firstOfTheYear y * secondsPerDay := by decide +kernel
  exact hall years h

namespace DataFrameHeader

open BitField

variable {h h' : DataFrameHeader}

/-! ## The digits of a time -/

theorem getDFHYears_eq (h : DataFrameHeader) : h.getDFHYears = 10 * (h.Years.toNat / 16) + h.Years.toNat % 16 := by
  have hall : ∀ years : BitVec 8, (years.toNat &&& 15) + (10 * (years.toNat &&& 240)) >>> 4
      = 10 * (years.toNat / 16) + years.toNat % 16 := by decide +kernel
  exact hall h.Years

theorem getDFHDays_eq (h : DataFrameHeader) :
    h.getDFHDays = 100 * (h.Days.toNat / 256) + 10 * (h.Days.toNat / 16 % 16) + h.Days.toNat % 16 := by
  have hall : ∀ days : BitVec 10, (days.toNat &&& 15) + (10 * (days.toNat &&& 240)) >>> 4
      + (100 * (days.toNat &&& 768)) >>> 8
        = 100 * (days.toNat / 256) + 10 * (days.toNat / 16 % 16) + days.toNat % 16 := by decide +kernel
  exact hall h.Days

/-- The header holds a time: decimal digits, and every part below the next one's unit. -/
structure TimeValid (h : DataFrameHeader) : Prop where
  years : h.Years.toNat / 16 ≤ 9 ∧ h.Years.toNat % 16 ≤ 9
  days : h.Days.toNat / 16 % 16 ≤ 9 ∧ h.Days.toNat % 16 ≤ 9
  dayOfYear : h.getDFHDays < daysOfYear h.getDFHYears
  seconds : h.Seconds.toNat < secondsPerDay
  frameCounter : h.FrameCounter.toNat < framesPerSecond
  t4ns : h.T4ns.toNat < ticksPerFrame

theorem TimeValid.years_lt (hv : h.TimeValid) : h.getDFHYears < 100 := by
  have hdigits := hv.years
  rw [getDFHYears_eq]
  omega

/-- The fields of a time within a day, with a radix for each. -/
def dayDigits (h : DataFrameHeader) (seconds frames ticks : Nat) : List (Nat × Nat) :=
  [(seconds, h.Seconds.toNat), (frames, h.FrameCounter.toNat), (ticks, h.T4ns.toNat)]

theorem getDFHFullTime_eq (hv : h.TimeValid) :
    h.getDFHFullTime = MixedRadix.value (firstOfTheYear h.getDFHYears + h.getDFHDays)
      (h.dayDigits secondsPerDay framesPerSecond ticksPerFrame) := by
  unfold getDFHFullTime getDFHYearTime getDFHDayTime
  simp only [yearSeconds _ hv.years_lt, dayDigits, MixedRadix.value, secondsPerDay, framesPerSecond, ticksPerFrame,
    ticksPerSecond]
  omega

theorem timeWord_eq (h : DataFrameHeader) :
    h.timeWord.toNat = MixedRadix.value h.Years.toNat
      ((2 ^ 10, h.Days.toNat) :: h.dayDigits (2 ^ 17) (2 ^ 13) (2 ^ 16)) := by
  unfold timeWord
  simp only [toNat_append, dayDigits, MixedRadix.value]

/-! ## The order of times -/

theorem getDFHYears_lt_iff (hv : h.TimeValid) (hv' : h'.TimeValid) :
    h.getDFHYears < h'.getDFHYears ↔ h.Years.toNat < h'.Years.toNat := by
  have hdigits := hv.years
  have hdigits' := hv'.years
  rw [getDFHYears_eq, getDFHYears_eq]
  omega

/-- The digits of the day, with the radix they are read and the radix they are written in. -/
def dayOfYearDigits (h : DataFrameHeader) (radix : Nat) : List (Nat × Nat) :=
  [(radix, h.Days.toNat / 16 % 16), (radix, h.Days.toNat % 16)]

theorem getDFHDays_lt_iff (hv : h.TimeValid) (hv' : h'.TimeValid) :
    h.getDFHDays < h'.getDFHDays ↔ h.Days.toNat < h'.Days.toNat := by
  have hdecimal : ∀ g : DataFrameHeader,
      g.getDFHDays = MixedRadix.value (g.Days.toNat / 256) (g.dayOfYearDigits 10) := by
    intro g
    rw [getDFHDays_eq]
    simp only [dayOfYearDigits, MixedRadix.value]
    omega
  have hbinary : ∀ g : DataFrameHeader,
      g.Days.toNat = MixedRadix.value (g.Days.toNat / 256) (g.dayOfYearDigits 16) := by
    intro g
    simp only [dayOfYearDigits, MixedRadix.value]
    omega
  have halike : ∀ radix, 9 < radix → MixedRadix.Alike (h.dayOfYearDigits radix) (h'.dayOfYearDigits radix) := by
    intro radix hradix
    have hdigits := hv.days
    have hdigits' := hv'.days
    exact .cons ⟨rfl, by omega, by omega⟩ (.cons ⟨rfl, by omega, by omega⟩ .nil)
  rw [hdecimal h, hdecimal h', MixedRadix.value_lt_value_iff (halike 10 (by omega)), hbinary h, hbinary h',
    MixedRadix.value_lt_value_iff (halike 16 (by omega)), ← hbinary h, ← hbinary h']
  rfl

/-- The day counted from 2000 compares like year and day of the year. -/
theorem dayNumber_lt_iff (hv : h.TimeValid) (hv' : h'.TimeValid) :
    firstOfTheYear h.getDFHYears + h.getDFHDays < firstOfTheYear h'.getDFHYears + h'.getDFHDays ↔
      h.Years.toNat < h'.Years.toNat ∨ h.Years.toNat = h'.Years.toNat ∧ h.Days.toNat < h'.Days.toNat := by
  have hday := hv.dayOfYear
  have hday' := hv'.dayOfYear
  have hyears := getDFHYears_lt_iff hv hv'
  have hyears' := getDFHYears_lt_iff hv' hv
  have hdays := getDFHDays_lt_iff hv hv'
  rcases Nat.lt_trichotomy h.getDFHYears h'.getDFHYears with hlt | heq | hgt
  · have hmono := firstOfTheYear_lt hlt
    omega
  · rw [heq]
    omega
  · have hmono := firstOfTheYear_lt hgt
    omega

theorem dayNumber_eq_iff (hv : h.TimeValid) (hv' : h'.TimeValid) :
    firstOfTheYear h.getDFHYears + h.getDFHDays = firstOfTheYear h'.getDFHYears + h'.getDFHDays ↔
      h.Years.toNat = h'.Years.toNat ∧ h.Days.toNat = h'.Days.toNat := by
  have hlt := dayNumber_lt_iff hv hv'
  have hgt := dayNumber_lt_iff hv' hv
  omega

/-- **Times compare like the 64 bits that hold them.** -/
theorem getDFHFullTime_lt_iff (hv : h.TimeValid) (hv' : h'.TimeValid) :
    h.getDFHFullTime < h'.getDFHFullTime ↔ h.timeWord.toNat < h'.timeWord.toNat := by
  have htime : MixedRadix.Alike (h.dayDigits secondsPerDay framesPerSecond ticksPerFrame)
      (h'.dayDigits secondsPerDay framesPerSecond ticksPerFrame) :=
    .cons ⟨rfl, hv.seconds, hv'.seconds⟩ (.cons ⟨rfl, hv.frameCounter, hv'.frameCounter⟩
      (.cons ⟨rfl, hv.t4ns, hv'.t4ns⟩ .nil))
  have hword : MixedRadix.Alike ((2 ^ 10, h.Days.toNat) :: h.dayDigits (2 ^ 17) (2 ^ 13) (2 ^ 16))
      ((2 ^ 10, h'.Days.toNat) :: h'.dayDigits (2 ^ 17) (2 ^ 13) (2 ^ 16)) :=
    .cons ⟨rfl, h.Days.isLt, h'.Days.isLt⟩ (.cons ⟨rfl, h.Seconds.isLt, h'.Seconds.isLt⟩
      (.cons ⟨rfl, h.FrameCounter.isLt, h'.FrameCounter.isLt⟩ (.cons ⟨rfl, h.T4ns.isLt, h'.T4ns.isLt⟩ .nil)))
  have hdigits : ∀ (g : DataFrameHeader) a b c a' b' c',
      MixedRadix.digits (g.dayDigits a b c) = MixedRadix.digits (g.dayDigits a' b' c') := fun _ _ _ _ _ _ _ => rfl
  rw [getDFHFullTime_eq hv, getDFHFullTime_eq hv', MixedRadix.value_lt_value_iff htime, timeWord_eq, timeWord_eq,
    MixedRadix.value_lt_value_iff hword, dayNumber_lt_iff hv hv', dayNumber_eq_iff hv hv',
    hdigits h secondsPerDay framesPerSecond ticksPerFrame (2 ^ 17) (2 ^ 13) (2 ^ 16),
    hdigits h' secondsPerDay framesPerSecond ticksPerFrame (2 ^ 17) (2 ^ 13) (2 ^ 16)]
  unfold MixedRadix.digits
  rw [List.map_cons, List.map_cons, List.cons_lex_cons_iff]
  tauto

/-! ## Writing and reading back -/

theorem setDFHYears_spec {year : Nat} (hyear : year < 100) (h : DataFrameHeader) :
    ∃ years, h.setDFHYears year = some { h with Years := years } ∧
      10 * (years.toNat / 16) + years.toNat % 16 = year ∧ years.toNat / 16 ≤ 9 ∧ years.toNat % 16 ≤ 9 := by
  have hvalue : (BitVec.ofNat 8 ((year / 10) <<< 4 + year % 10)).toNat = year / 10 * 16 + year % 10 := by
    rw [BitVec.toNat_ofNat, Nat.shiftLeft_eq]
    omega
  refine ⟨BitVec.ofNat 8 ((year / 10) <<< 4 + year % 10), ?_, ?_⟩
  · unfold setDFHYears
    rw [if_pos hyear]
  · rw [hvalue]
    omega

theorem setDFHDays_spec {day : Nat} (hday : day < 367) (h : DataFrameHeader) :
    ∃ days, h.setDFHDays day = some { h with Days := days } ∧
      100 * (days.toNat / 256) + 10 * (days.toNat / 16 % 16) + days.toNat % 16 = day ∧
      days.toNat / 16 % 16 ≤ 9 ∧ days.toNat % 16 ≤ 9 := by
  have hvalue : (BitVec.ofNat 10 ((day / 100) <<< 8 + (day % 100 / 10) <<< 4 + day % 10)).toNat
      = day / 100 * 256 + day % 100 / 10 * 16 + day % 10 := by
    rw [BitVec.toNat_ofNat, Nat.shiftLeft_eq, Nat.shiftLeft_eq]
    omega
  refine ⟨BitVec.ofNat 10 ((day / 100) <<< 8 + (day % 100 / 10) <<< 4 + day % 10), ?_, ?_⟩
  · unfold setDFHDays
    rw [if_pos hday]
  · have hhundreds : day / 100 * 100 + day % 100 / 10 * 10 + day % 10 = day := by omega
    have htens : day % 100 / 10 ≤ 9 := by omega
    have hunits : day % 10 ≤ 9 := by omega
    rw [hvalue]
    generalize day / 100 = hundreds, day % 100 / 10 = tens, day % 10 = units at *
    have hread : (hundreds * 256 + tens * 16 + units) / 256 = hundreds := by omega
    have hread' : (hundreds * 256 + tens * 16 + units) / 16 % 16 = tens := by omega
    have hread'' : (hundreds * 256 + tens * 16 + units) % 16 = units := by omega
    rw [hread, hread', hread'']
    omega

theorem setDFHDayTime_spec {time : Nat} (htime : time < secondsPerDay * ticksPerSecond) (h : DataFrameHeader) :
    ∃ seconds frames ticks,
      h.setDFHDayTime time = some { h with Seconds := seconds, FrameCounter := frames, T4ns := ticks } ∧
      seconds.toNat * ticksPerSecond + frames.toNat * ticksPerFrame + ticks.toNat = time ∧
      seconds.toNat < secondsPerDay ∧ frames.toNat < framesPerSecond ∧ ticks.toNat < ticksPerFrame := by
  refine ⟨BitVec.ofNat 17 (time / ticksPerSecond),
    BitVec.ofNat 13 ((time - time / ticksPerSecond * ticksPerSecond) / ticksPerFrame),
    BitVec.ofNat 16 (time - time / ticksPerSecond * ticksPerSecond
      - (time - time / ticksPerSecond * ticksPerSecond) / ticksPerFrame * ticksPerFrame), ?_, ?_⟩
  · unfold setDFHDayTime
    rw [if_pos htime]
  simp only [BitVec.toNat_ofNat]
  have hseconds : time / ticksPerSecond < secondsPerDay := Nat.div_lt_of_lt_mul (by rwa [Nat.mul_comm])
  unfold secondsPerDay at hseconds ⊢
  unfold ticksPerSecond framesPerSecond ticksPerFrame at *
  omega

theorem setDFHYearTime_eq (time : Nat) (h : DataFrameHeader) :
    h.setDFHYearTime time = (h.setDFHDays (time / (secondsPerDay * ticksPerSecond))).bind (fun h =>
      h.setDFHDayTime (time - time / (secondsPerDay * ticksPerSecond) * (secondsPerDay * ticksPerSecond))) := rfl

theorem setDFHFullTime_eq (calendar : Nat → Nat × Nat) (time : Nat) (h : DataFrameHeader) :
    h.setDFHFullTime calendar time = (h.setDFHYears (calendar (time / ticksPerSecond)).1).bind (fun h =>
      h.setDFHYearTime ((calendar (time / ticksPerSecond)).2 * ticksPerSecond
        + (time - time / ticksPerSecond * ticksPerSecond))) := rfl

/-- The time of the year, split into its day and the time of that day. -/
theorem setDFHYearTime_spec {time : Nat} (htime : time < 366 * (secondsPerDay * ticksPerSecond))
    (h : DataFrameHeader) :
    ∃ h', h.setDFHYearTime time = some h' ∧ h'.getDFHYearTime = time ∧ h'.Years = h.Years ∧
      (h'.Days.toNat / 16 % 16 ≤ 9 ∧ h'.Days.toNat % 16 ≤ 9) ∧
      h'.getDFHDays = time / (secondsPerDay * ticksPerSecond) ∧
      h'.Seconds.toNat < secondsPerDay ∧ h'.FrameCounter.toNat < framesPerSecond ∧ h'.T4ns.toNat < ticksPerFrame ∧
      h'.idWord = h.idWord ∧ h'.hitWord = h.hitWord := by
  have hday : time / (secondsPerDay * ticksPerSecond) < 367 := by
    unfold secondsPerDay ticksPerSecond at htime ⊢
    omega
  have hrest : time - time / (secondsPerDay * ticksPerSecond) * (secondsPerDay * ticksPerSecond)
      < secondsPerDay * ticksPerSecond := by
    unfold secondsPerDay ticksPerSecond
    omega
  obtain ⟨days, hdays, hvalue, hdigits⟩ := setDFHDays_spec hday h
  obtain ⟨seconds, frames, ticks, hset, htotal, hs, hf, ht⟩ := setDFHDayTime_spec hrest { h with Days := days }
  refine ⟨{ h with Days := days, Seconds := seconds, FrameCounter := frames, T4ns := ticks },
    ?_, ?_, rfl, hdigits, ?_, hs, hf, ht, rfl, rfl⟩
  · rw [setDFHYearTime_eq, hdays, Option.bind_some, hset]
  · unfold getDFHYearTime getDFHDayTime
    rw [getDFHDays_eq]
    simp only [hvalue, htotal]
    unfold secondsPerDay ticksPerSecond
    omega
  · rw [getDFHDays_eq]
    exact hvalue

/-- **A time that was written is read.** The calendar has to be right up to some second of the century; nothing but
    the time of the header is written. -/
theorem getDFHFullTime_setDFHFullTime {calendar : Nat → Nat × Nat} {limit : Nat} (hcal : Gregorian calendar limit)
    (hlimit : limit ≤ daysOfCentury * secondsPerDay) {time : Nat} (htime : time < limit * ticksPerSecond)
    (h : DataFrameHeader) :
    ∃ h', h.setDFHFullTime calendar time = some h' ∧ h'.getDFHFullTime = time ∧ h'.TimeValid ∧
      h'.idWord = h.idWord ∧ h'.hitWord = h.hitWord := by
  have hs : time / ticksPerSecond < limit := Nat.div_lt_of_lt_mul (by rwa [Nat.mul_comm])
  obtain ⟨hx, hsplit⟩ := hcal _ hs
  have hyear : (calendar (time / ticksPerSecond)).1 < 100 := by
    apply year_lt_of_lt
    rw [firstOfTheYear_century]
    apply Nat.lt_of_mul_lt_mul_right (a := secondsPerDay)
    omega
  have hdays : daysOfYear (calendar (time / ticksPerSecond)).1 ≤ 366 := by
    unfold daysOfYear
    split <;> omega
  obtain ⟨years, hyears, hvalue, hdigits⟩ := setDFHYears_spec hyear h
  have hinYear : (calendar (time / ticksPerSecond)).2 * ticksPerSecond + (time - time / ticksPerSecond * ticksPerSecond)
      < 366 * (secondsPerDay * ticksPerSecond) := by
    have hx' := Nat.lt_of_lt_of_le hx (Nat.mul_le_mul_right secondsPerDay hdays)
    unfold secondsPerDay ticksPerSecond at *
    omega
  obtain ⟨h', hset, hyearTime, hsame, hdayDigits, hday, hseconds, hframes, hticks, hid, hhit⟩ :=
    setDFHYearTime_spec hinYear { h with Years := years }
  have hread : h'.getDFHYears = (calendar (time / ticksPerSecond)).1 := by
    rw [getDFHYears_eq, hsame]
    exact hvalue
  refine ⟨h', ?_, ?_, ⟨by rw [hsame]; exact hdigits, hdayDigits, ?_, hseconds, hframes, hticks⟩, hid, hhit⟩
  · rw [setDFHFullTime_eq, hyears, Option.bind_some, hset]
  · have hle : time / ticksPerSecond * ticksPerSecond ≤ time := Nat.div_mul_le_self _ _
    unfold getDFHFullTime
    simp only
    rw [hread, yearSeconds _ hyear, hyearTime, ← Nat.add_assoc, ← Nat.add_mul, hsplit]
    exact Nat.add_sub_cancel' hle
  · rw [hread, hday]
    unfold secondsPerDay ticksPerSecond at hx ⊢
    omega

/-- A header is its three words. -/
theorem eq_of_words (hid : h'.idWord = h.idWord) (htime : h'.timeWord = h.timeWord) (hhit : h'.hitWord = h.hitWord) :
    h' = h := by
  rw [← ofWords_words h', ← ofWords_words h, hid, htime, hhit]

/-- **Reading and writing the time are inverse to each other**, up to the second up to which the calendar is right. -/
theorem fullTime_inverse {calendar : Nat → Nat × Nat} {limit : Nat} (hcal : Gregorian calendar limit)
    (hlimit : limit ≤ daysOfCentury * secondsPerDay) (h : DataFrameHeader) :
    (∀ time < limit * ticksPerSecond, ∃ h', h.setDFHFullTime calendar time = some h' ∧ h'.getDFHFullTime = time ∧
        h'.TimeValid ∧ h'.idWord = h.idWord ∧ h'.hitWord = h.hitWord) ∧
      (h.TimeValid → h.getDFHFullTime < limit * ticksPerSecond →
        h.setDFHFullTime calendar h.getDFHFullTime = some h) := by
  constructor
  · intro time htime
    exact getDFHFullTime_setDFHFullTime hcal hlimit htime h
  · intro hv htime
    obtain ⟨h', hset, hread, hv', hid, hhit⟩ := getDFHFullTime_setDFHFullTime hcal hlimit htime h
    have hlt := getDFHFullTime_lt_iff hv hv'
    have hgt := getDFHFullTime_lt_iff hv' hv
    have hword : h'.timeWord = h.timeWord := by
      apply BitVec.eq_of_toNat_eq
      omega
    rw [hset, eq_of_words hid hword hhit]

end DataFrameHeader

/-! ## A calendar -/

/-- Year after year, as long as the seconds fill it. -/
def calendarFrom : Nat → Nat → Nat → Nat × Nat
  | 0, year, x => (year, x)
  | n + 1, year, x =>
    if x < daysOfYear year * secondsPerDay then (year, x)
    else calendarFrom n (year + 1) (x - daysOfYear year * secondsPerDay)

def gregorianCalendar (s : Nat) : Nat × Nat := calendarFrom 100 0 s

theorem calendarFrom_spec (n year x : Nat)
    (hx : firstOfTheYear year * secondsPerDay + x < firstOfTheYear (year + n) * secondsPerDay) :
    (calendarFrom n year x).2 < daysOfYear (calendarFrom n year x).1 * secondsPerDay ∧
      firstOfTheYear (calendarFrom n year x).1 * secondsPerDay + (calendarFrom n year x).2
        = firstOfTheYear year * secondsPerDay + x := by
  induction n generalizing year x with
  | zero =>
      rw [Nat.add_zero] at hx
      omega
  | succ n ih =>
      unfold calendarFrom
      by_cases hyear : x < daysOfYear year * secondsPerDay
      · rw [if_pos hyear]
        exact ⟨hyear, rfl⟩
      · have hnext : firstOfTheYear (year + 1) * secondsPerDay + (x - daysOfYear year * secondsPerDay)
            = firstOfTheYear year * secondsPerDay + x := by
          rw [firstOfTheYear, Nat.add_mul]
          omega
        rw [if_neg hyear, ← hnext]
        apply ih
        rw [hnext, Nat.add_assoc year 1 n, Nat.add_comm 1 n]
        exact hx

theorem gregorianCalendar_gregorian : Gregorian gregorianCalendar (daysOfCentury * secondsPerDay) := by
  intro s hs
  have hspec := calendarFrom_spec 100 0 s (by
    rw [Nat.zero_add, firstOfTheYear_century]
    simpa [firstOfTheYear] using hs)
  simpa [gregorianCalendar, firstOfTheYear] using hspec

namespace DataFrameHeader

/-- The last tick of the last day of 2024. -/
def endOf2024 : DataFrameHeader where
  PMTID := 1
  EFCMID := 2
  TowerID := 3
  SyncBytes := 21930
  T4ns := 31249
  FrameCounter := 7999
  Seconds := 86399
  Days := 0x365
  Years := 0x24
  NDataSamples := 0
  FifoFull := 0
  Charge := 0
  FragFlag := 0
  ZipFlag := 0

theorem fullTime_inverse_endOf2024 :
    endOf2024.setDFHFullTime gregorianCalendar endOf2024.getDFHFullTime = some endOf2024 ∧
      endOf2024.getDFHFullTime = firstOfTheYear 25 * secondsPerDay * ticksPerSecond - 1 := by
  have hv : endOf2024.TimeValid := by
    constructor <;> decide
  have htime : endOf2024.getDFHFullTime = firstOfTheYear 25 * secondsPerDay * ticksPerSecond - 1 := by decide
  refine ⟨(fullTime_inverse gregorianCalendar_gregorian (Nat.le_refl _) endOf2024).2 hv ?_, htime⟩
  rw [htime]
  decide

end DataFrameHeader

end BdxReco.Tridas
