import Mathlib.Data.List.Basic
import Mathlib.Data.List.TakeDrop

/-!
# `Lib.ByteStream` — unformatted input from a binary file

A `std::ifstream` over a file that does not change: the position and the two state bits. Every input function starts
with the sentry, which refuses a stream that is not good.

* `read` sets both bits when it gets fewer bytes than asked for, `ignore` only `eofbit`.
* A seek clears `eofbit` first, but does nothing on a stream with `failbit`.

`At s pre bs` says that the stream is good and stands between `pre` and `bs`. What is read of a text written piece by
piece follows from one lemma for each operation.
-/

/-- A `std::ifstream`. -/
structure ByteStream where
  content : List UInt8
  pos : Nat := 0
  eof : Bool := false
  fail : Bool := false
  deriving DecidableEq, Repr

namespace ByteStream

variable {s : ByteStream} {pre bs : List UInt8}

/-- The stream on a file that was just opened. -/
def opened (content : List UInt8) : ByteStream := ⟨content, 0, false, false⟩

def good (s : ByteStream) : Bool := !s.eof && !s.fail

/-- The bytes not read yet. -/
def rest (s : ByteStream) : List UInt8 := s.content.drop s.pos

/-- `read(p, n)`. `gcount` is the number of bytes it gets. -/
def read (s : ByteStream) (n : Nat) : List UInt8 × ByteStream :=
  if s.good then
    let got := s.rest.take n
    let short := decide (got.length < n)
    (got, { s with pos := s.pos + got.length, eof := short, fail := short })
  else ([], { s with fail := true })

/-- `ignore(n)`; a negative number of bytes is none. -/
def ignore (s : ByteStream) (n : Int) : ByteStream :=
  if s.good then
    let got := s.rest.take n.toNat
    { s with pos := s.pos + got.length, eof := decide (got.length < n.toNat) }
  else { s with fail := true }

/-- `tellg()`, which goes through the sentry too. -/
def tellg (s : ByteStream) : Int × ByteStream :=
  if s.good then ((s.pos : Int), s) else (-1, { s with fail := true })

/-- `seekg(p)`. -/
def seekg (s : ByteStream) (p : Int) : ByteStream :=
  if s.fail then { s with eof := false }
  else if p < 0 then { s with eof := false, fail := true }
  else { s with pos := p.toNat, eof := false }

/-- `seekg(n, std::ios::cur)`. -/
def seekgCur (s : ByteStream) (n : Nat) : ByteStream := s.seekg ((s.pos : Int) + (n : Int))

/-- `clear()`. -/
def clear (s : ByteStream) : ByteStream := { s with eof := false, fail := false }

/-! ## The file stays the same -/

@[simp] theorem read_content (s : ByteStream) (n : Nat) : (s.read n).2.content = s.content := by
  unfold read
  split <;> rfl

@[simp] theorem ignore_content (s : ByteStream) (n : Int) : (s.ignore n).content = s.content := by
  unfold ignore
  split <;> rfl

@[simp] theorem tellg_content (s : ByteStream) : s.tellg.2.content = s.content := by
  unfold tellg
  split <;> rfl

@[simp] theorem seekg_content (s : ByteStream) (p : Int) : (s.seekg p).content = s.content := by
  unfold seekg
  split
  · rfl
  · split <;> rfl

@[simp] theorem seekgCur_content (s : ByteStream) (n : Nat) : (s.seekgCur n).content = s.content :=
  seekg_content s _

@[simp] theorem clear_content (s : ByteStream) : s.clear.content = s.content := rfl

/-! ## Where the stream stands -/

/-- The stream is good and stands between `pre` and `bs`. -/
structure At (s : ByteStream) (pre bs : List UInt8) : Prop where
  good : s.good = true
  content : s.content = pre ++ bs
  pos : s.pos = pre.length

theorem At.bits (h : At s pre bs) : s.eof = false ∧ s.fail = false := by
  have hgood := h.good
  unfold ByteStream.good at hgood
  simpa using hgood

theorem At.rest (h : At s pre bs) : s.rest = bs := by
  unfold ByteStream.rest
  rw [h.content, h.pos]
  exact List.drop_left

theorem at_opened (content : List UInt8) : At (opened content) [] content := ⟨rfl, rfl, rfl⟩

/-- **What is there is read.** -/
theorem At.read {got : List UInt8} (h : At s pre (got ++ bs)) {n : Nat} (hn : n = got.length) :
    ∃ s', s.read n = (got, s') ∧ At s' (pre ++ got) bs := by
  have htake : s.rest.take n = got := by
    rw [h.rest, hn]
    exact List.take_left
  refine ⟨{ s with pos := s.pos + got.length, eof := false, fail := false }, ?_, ?_⟩
  · unfold ByteStream.read
    rw [if_pos h.good]
    simp only [htake]
    simp [hn]
  · exact ⟨rfl, by simp [h.content], by simp [h.pos]⟩

theorem At.ignore {skip : List UInt8} (h : At s pre (skip ++ bs)) {n : Int} (hn : n.toNat = skip.length) :
    At (s.ignore n) (pre ++ skip) bs := by
  have htake : s.rest.take n.toNat = skip := by
    rw [h.rest, hn]
    exact List.take_left
  unfold ByteStream.ignore
  rw [if_pos h.good]
  simp only [htake]
  refine ⟨?_, by simp [h.content], by simp [h.pos]⟩
  simp [ByteStream.good, hn, h.bits.2]

theorem At.tellg (h : At s pre bs) : s.tellg = ((pre.length : Int), s) := by
  unfold ByteStream.tellg
  rw [if_pos h.good, h.pos]

/-- A seek within the file, on a stream that has not failed. -/
theorem at_seekg (hfail : s.fail = false) (hcontent : s.content = pre ++ bs) :
    At (s.seekg (pre.length : Int)) pre bs := by
  unfold seekg
  rw [if_neg (by simp [hfail]), if_neg (by omega)]
  exact ⟨by simp [good, hfail], hcontent, by simp⟩

theorem At.seekgCur {skip : List UInt8} (h : At s pre (skip ++ bs)) :
    At (s.seekgCur skip.length) (pre ++ skip) bs := by
  have hpos : ((s.pos : Int) + (skip.length : Int)) = ((pre ++ skip).length : Int) := by
    rw [h.pos, List.length_append]
    omega
  unfold ByteStream.seekgCur
  rw [hpos]
  exact at_seekg h.bits.2 (by rw [h.content, List.append_assoc])

theorem At.clear (h : At s pre bs) : At s.clear pre bs := ⟨rfl, h.content, h.pos⟩

/-! ## What is not there -/

/-- A read that gets all its bytes leaves the stream behind them. -/
theorem read_full {n : Nat} {got : List UInt8} {s' : ByteStream} (h : At s pre bs) (hread : s.read n = (got, s'))
    (hlen : got.length = n) : ∃ later, bs = got ++ later ∧ At s' (pre ++ got) later := by
  have hgot : got = bs.take n := by
    have hfst := congrArg Prod.fst hread
    unfold ByteStream.read at hfst
    rw [if_pos h.good, h.rest] at hfst
    exact hfst.symm
  have hbs : bs = got ++ bs.drop n := by rw [hgot, List.take_append_drop]
  obtain ⟨s'', hread', hat⟩ := (hbs ▸ h : At s pre (got ++ bs.drop n)).read hlen.symm
  rw [hread] at hread'
  exact ⟨bs.drop n, hbs, (Prod.mk.inj hread').2 ▸ hat⟩

/-- A read of something from a stream that is not good, or at the end of the file, gets nothing. -/
theorem read_of_not_good (h : s.good = false) (n : Nat) : s.read n = ([], { s with fail := true }) := by
  unfold read
  rw [if_neg (by simp [h])]

theorem read_short {n : Nat} (h : At s pre bs) (hn : bs.length < n) :
    (s.read n).1 = bs ∧ (s.read n).2.fail = true := by
  have htake : bs.take n = bs := List.take_of_length_le (Nat.le_of_lt hn)
  unfold ByteStream.read
  rw [if_pos h.good, h.rest]
  simp [htake, hn]

/-- `ignore` past the end of the file sets `eofbit` only. -/
theorem ignore_short {n : Int} (h : At s pre bs) (hn : bs.length < n.toNat) :
    (s.ignore n).good = false ∧ (s.ignore n).fail = false := by
  have htake : bs.take n.toNat = bs := List.take_of_length_le (Nat.le_of_lt hn)
  unfold ByteStream.ignore
  rw [if_pos h.good, h.rest]
  simp [good, htake, hn, h.bits.2]

end ByteStream
