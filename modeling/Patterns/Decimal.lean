import Mathlib.Data.Nat.Digits

/-!
# Decimal text of integers

`std::to_string` writes an integer as an optional `-` and its decimal digits; `std::istream >>`
reads white space, an optional sign and the longest run of digits after it.  The arithmetic
`Convert::to_value` reads with `>>`, and so does `Integer::match` (modelled from the spec in
`Patterns.Pattern`).

* `decimal` — `std::to_string` of an integer.
* `scanInteger` — what `num_get` reads of a decimal integer, and what it leaves.
* `scanInteger_decimal` — reading a printed integer back gives its sign and magnitude and leaves
  the text after it, when that text does not go on with a digit.
-/

set_option autoImplicit false

namespace Patterns

/-- `std::isspace` in the "C" locale. -/
def isSpace (c : Char) : Bool :=
  c == ' ' || c == '\t' || c == '\n' || c == '\x0b' || c == '\x0c' || c == '\r'

/-- `std::to_string` of an integer. -/
def decimal (n : Int) : List Char :=
  if n < 0 then '-' :: Nat.toDigits 10 n.natAbs else Nat.toDigits 10 n.natAbs

/-- One digit step of `num_get`: `result = result * 10 + digit`. -/
def digitStep (n : Nat) (c : Char) : Nat := 10 * n + (c.toNat - '0'.toNat)

/-- Value of a run of decimal digits. -/
def digitsValue (ds : List Char) : Nat := ds.foldl digitStep 0

/-- The optional sign in front of the digits: `(negative, text after the sign)`. -/
def takeSign : List Char → Bool × List Char
  | '-' :: r => (true, r)
  | '+' :: r => (false, r)
  | r => (false, r)

/-- `num_get` on a decimal integer: white space, an optional sign, then the longest run of
digits.  `(negative, magnitude, rest)`, or `none` (`failbit`) when no digit follows. -/
def scanInteger (s : List Char) : Option (Bool × Nat × List Char) :=
  let body := takeSign (s.dropWhile isSpace)
  let ds := body.2.takeWhile Char.isDigit
  if ds = [] then none else some (body.1, digitsValue ds, body.2.dropWhile Char.isDigit)

/-- The integer a sign and a magnitude stand for. -/
def signedValue (negative : Bool) (magnitude : Nat) : Int :=
  if negative then -(magnitude : Int) else magnitude

/-- The text after a number does not go on with a digit. -/
def NoDigitHead (r : List Char) : Prop := ∀ c ∈ r.head?, c.isDigit = false

/-! ## Digits -/

theorem digitChar_isDigit : ∀ d, d < 10 → (Nat.digitChar d).isDigit = true := by decide

theorem digitChar_value : ∀ d, d < 10 → (Nat.digitChar d).toNat - '0'.toNat = d := by decide

theorem toDigitsCore_isDigit :
    ∀ (fuel n : Nat) (ds : List Char), (∀ c ∈ ds, c.isDigit = true) →
      ∀ c ∈ Nat.toDigitsCore 10 fuel n ds, c.isDigit = true
  | 0, _, _, h => h
  | fuel + 1, n, ds, h => by
    have hd := digitChar_isDigit (n % 10) (Nat.mod_lt n (by omega))
    have hds : ∀ c ∈ Nat.digitChar (n % 10) :: ds, c.isDigit = true := by
      simpa [hd] using h
    simp only [Nat.toDigitsCore]
    split
    · exact hds
    · exact toDigitsCore_isDigit fuel (n / 10) _ hds

theorem toDigitsCore_foldl :
    ∀ (fuel n : Nat) (ds : List Char), n < fuel →
      (Nat.toDigitsCore 10 fuel n ds).foldl digitStep 0 = ds.foldl digitStep n
  | 0, _, _, h => absurd h (Nat.not_lt_zero _)
  | fuel + 1, n, ds, h => by
    have hv := digitChar_value (n % 10) (Nat.mod_lt n (by omega))
    simp only [Nat.toDigitsCore]
    split
    · simp only [List.foldl_cons, digitStep, hv]
      congr 1
      omega
    · rw [toDigitsCore_foldl fuel (n / 10) _ (by omega)]
      simp only [List.foldl_cons, digitStep, hv]
      congr 1
      omega

theorem toDigitsCore_ne_nil :
    ∀ (fuel n : Nat) (ds : List Char), ds ≠ [] → Nat.toDigitsCore 10 fuel n ds ≠ []
  | 0, _, _, h => h
  | fuel + 1, n, ds, _ => by
    simp only [Nat.toDigitsCore]
    split
    · exact List.cons_ne_nil _ _
    · exact toDigitsCore_ne_nil fuel _ _ (List.cons_ne_nil _ _)

theorem toDigits_ne_nil (n : Nat) : Nat.toDigits 10 n ≠ [] := by
  simp only [Nat.toDigits, Nat.toDigitsCore]
  split
  · exact List.cons_ne_nil _ _
  · exact toDigitsCore_ne_nil n _ _ (List.cons_ne_nil _ _)

/-! ## Reading back -/

theorem takeSign_digit {c : Char} (hc : c.isDigit = true) (r : List Char) :
    takeSign (c :: r) = (false, c :: r) := by
  have h1 : c ≠ '-' := by rintro rfl; exact absurd hc (by decide)
  have h2 : c ≠ '+' := by rintro rfl; exact absurd hc (by decide)
  simp [takeSign, h1, h2]

/-- The digits `std::to_string` writes for a natural number, read back. -/
theorem scan_toDigits (m : Nat) {r : List Char} (hr : NoDigitHead r) :
    (Nat.toDigits 10 m ++ r).takeWhile Char.isDigit = Nat.toDigits 10 m ∧
      (Nat.toDigits 10 m ++ r).dropWhile Char.isDigit = r ∧
      digitsValue (Nat.toDigits 10 m) = m := by
  have hall : ∀ c ∈ Nat.toDigits 10 m, c.isDigit = true :=
    toDigitsCore_isDigit (m + 1) m [] (by simp)
  have hstop : r.takeWhile Char.isDigit = [] ∧ r.dropWhile Char.isDigit = r := by
    cases r with
    | nil => simp
    | cons c r => simp [List.takeWhile, List.dropWhile, hr c (by simp)]
  refine ⟨?_, ?_, ?_⟩
  · rw [List.takeWhile_append_of_pos hall, hstop.1, List.append_nil]
  · rw [List.dropWhile_append_of_pos hall, hstop.2]
  · exact (toDigitsCore_foldl (m + 1) m [] (by omega)).trans rfl

theorem isSpace_of_isDigit {c : Char} (h : c.isDigit = true) : isSpace c = false := by
  cases hs : isSpace c
  · rfl
  · simp only [isSpace, Bool.or_eq_true, beq_iff_eq] at hs
    rcases hs with (((((rfl | rfl) | rfl) | rfl) | rfl) | rfl) <;> exact absurd h (by decide)

/-- **Reading a printed integer back.**  `num_get` on `std::to_string n` followed by a text that
does not go on with a digit reads the sign and magnitude of `n` and leaves that text. -/
theorem scanInteger_decimal (n : Int) {r : List Char} (hr : NoDigitHead r) :
    scanInteger (decimal n ++ r) = some (decide (n < 0), n.natAbs, r) := by
  obtain ⟨ht, hd, hv⟩ := scan_toDigits n.natAbs hr
  have hall : ∀ x ∈ Nat.toDigits 10 n.natAbs, x.isDigit = true :=
    toDigitsCore_isDigit _ _ [] (by simp)
  obtain ⟨c, cs, hcs⟩ := List.exists_cons_of_ne_nil (toDigits_ne_nil n.natAbs)
  have hc : c.isDigit = true := hall c (by rw [hcs]; simp)
  have hbody : takeSign ((decimal n ++ r).dropWhile isSpace) =
      (decide (n < 0), Nat.toDigits 10 n.natAbs ++ r) := by
    unfold decimal
    split
    · simp [List.dropWhile, takeSign, show isSpace '-' = false from rfl, *]
    · rw [hcs]
      simp [List.dropWhile, isSpace_of_isDigit hc, takeSign_digit hc, *]
  simp [scanInteger, hbody, ht, hd, hv, toDigits_ne_nil]

theorem signedValue_decimal (n : Int) : signedValue (decide (n < 0)) n.natAbs = n := by
  by_cases h : n < 0 <;>
    simp only [signedValue, h, decide_True, decide_False, ite_true, Bool.false_eq_true,
      ite_false] <;> omega

end Patterns
