import Patterns.Convert

/-!
# Integral leaves

`Convert<T>` for an integral `T` other than `bool`.  `to_pattern` builds
`Integer (numeric_limits<T>::min (), numeric_limits<T>::max ())`, whose parameters are `int`:
the limits of `T` survive only when `T` fits in `int`, and the limits of the wider types become
`Integer (0, -1)`, an integer pattern with no bound.  `to_string` prints with `std::to_string`
(through `int` for the character types), `to_value` reads with `operator>>` (through `int` for
`char` and `unsigned char` only).

* `integerMatch_narrow` — the pattern of `T` accepts the numbers in the range of `T` when `T`
  fits in `int`, and every number otherwise.
* `readIntegral_scan`, `extract_accepted` — into every `T` but `signed char`, `operator>>`
  stores an accepted number that `T` can hold (modulo `2 ^ bits` for a negative number into an
  unsigned `T`) and sets `failbit` on any other.
* `integral_codec` — what `Convert<T>` does with `std::to_string` of an integer and with a value.
* `integral_long_overflow_signedChar_five` — the pattern of `long` accepts `2 ^ 63`, which
  `to_value` cannot store, and `signed char` reads `5` as the character `'5'`.
-/

set_option autoImplicit false

namespace Patterns

open Tools

namespace IntegralKind

/-- The limits of `T` are `int` values. -/
def fitsInt (k : IntegralKind) : Bool := decide (minIntValue ≤ k.min ∧ k.max ≤ maxIntValue)

/-- `num_get` can store `n` into `T`: `n` is in the range of `T`, or `T` is unsigned and `n` is
negative with a magnitude `T` holds. -/
def Readable (k : IntegralKind) (n : Int) : Prop :=
  (k.min ≤ n ∧ n ≤ k.max) ∨ (k.min = 0 ∧ n < 0 ∧ -n ≤ k.max)

instance (k : IntegralKind) (n : Int) : Decidable (k.Readable n) :=
  inferInstanceAs (Decidable (_ ∨ _))

theorem readable_of_mem {k : IntegralKind} {n : Int} (h : k.min ≤ n ∧ n ≤ k.max) :
    k.Readable n :=
  .inl h

theorem narrow_min (k : IntegralKind) : narrowToInt k.min = if k.fitsInt then k.min else 0 := by
  cases k <;> rfl

theorem narrow_max (k : IntegralKind) : narrowToInt k.max = if k.fitsInt then k.max else -1 := by
  cases k <;> rfl

/-- The range test of `Integer::match` with the narrowed limits of `T`: the range of `T` when
`T` fits in `int`, no bound otherwise. -/
theorem narrow_accepts (k : IntegralKind) (i : Int) :
    (narrowToInt k.max < narrowToInt k.min ∨ narrowToInt k.min ≤ i ∧ i ≤ narrowToInt k.max) ↔
      (k.fitsInt = true → k.min ≤ i ∧ i ≤ k.max) := by
  have hk := k.min_le_zero
  rw [narrow_min, narrow_max]
  cases k.fitsInt <;> simp only [Bool.false_eq_true, if_true, if_false, true_implies,
    false_implies, iff_true] <;> omega

theorem wrap_of_mem (k : IntegralKind) {n : Int} (h : k.min ≤ n ∧ n ≤ k.max) :
    k.wrap n = ⟨n, h⟩ := by
  have hb := k.bits_eq
  apply Subtype.ext
  simp only [wrap]
  rw [Int.emod_eq_of_lt (by omega) (by omega)]
  omega

/-- A `T` that fits in `int` holds only `int` values. -/
theorem int_of_fitsInt {k : IntegralKind} {n : Int} (hn : k.min ≤ n ∧ n ≤ k.max)
    (h : k.fitsInt = true) : IntegralKind.int.min ≤ n ∧ n ≤ IntegralKind.int.max := by
  simp only [fitsInt, minIntValue, maxIntValue, decide_eq_true_eq] at h
  exact ⟨le_trans h.1 hn.1, le_trans hn.2 h.2⟩

end IntegralKind

/-! ## Matching -/

/-- **The pattern of `T`.**  `Integer::match` with the narrowed limits of `T` accepts a text
exactly when it reads as a number followed by blanks, in the range of `T` if `T` fits in `int`. -/
theorem integerMatch_narrow (k : IntegralKind) (s : List Char) :
    integerMatch (narrowToInt k.min) (narrowToInt k.max) s = true ↔
      ∃ negative magnitude rest, scanInteger s = some (negative, magnitude, rest) ∧
        rest.all isSpace = true ∧ (k.fitsInt = true → k.min ≤ signedValue negative magnitude ∧
          signedValue negative magnitude ≤ k.max) := by
  unfold integerMatch
  cases scanInteger s with
  | none => simp
  | some r =>
    obtain ⟨negative, magnitude, rest⟩ := r
    simp only [Bool.and_eq_true, Bool.or_eq_true, decide_eq_true_eq, k.narrow_accepts]
    constructor
    · rintro ⟨hr, hb⟩
      exact ⟨_, _, _, rfl, hr, hb⟩
    · rintro ⟨_, _, _, he, hr, hb⟩
      cases he
      exact ⟨hr, hb⟩

theorem integerMatch_decimal (k : IntegralKind) (n : Int) :
    integerMatch (narrowToInt k.min) (narrowToInt k.max) (decimal n) = true ↔
      (k.fitsInt = true → k.min ≤ n ∧ n ≤ k.max) := by
  have hs := scanInteger_decimal n (r := []) nofun
  rw [List.append_nil] at hs
  rw [integerMatch_narrow]
  constructor
  · rintro ⟨_, _, _, he, -, h⟩
    rw [hs, Option.some.injEq] at he
    cases he
    rwa [signedValue_decimal] at h
  · intro h
    exact ⟨_, _, _, hs, rfl, by rwa [signedValue_decimal]⟩

/-! ## Reading -/

/-- `num_get` into `T` after it has read a sign and a magnitude. -/
theorem readIntegral_scan (k : IntegralKind) {s : List Char} {negative : Bool} {magnitude : Nat}
    {rest : List Char} (hs : scanInteger s = some (negative, magnitude, rest)) :
    readIntegral k s = if k.Readable (signedValue negative magnitude) then
      some (k.wrap (signedValue negative magnitude)) else none := by
  simp only [readIntegral, hs]
  have hk := k.min_le_zero
  by_cases h : k.min ≤ signedValue negative magnitude ∧ signedValue negative magnitude ≤ k.max
  · rw [dif_pos h, if_pos (IntegralKind.readable_of_mem h), k.wrap_of_mem h]
  · have hwide : (k.min = 0 ∧ negative = true ∧ (magnitude : Int) ≤ k.max) ↔
        k.Readable (signedValue negative magnitude) := by
      unfold IntegralKind.Readable
      cases negative <;>
        simp only [signedValue, if_true, Bool.false_eq_true, if_false, true_and] at h ⊢ <;> omega
    simp only [dif_neg h, hwide]

/-- **Reading after a match.**  Into every `T` but `signed char`, `operator>>` stores a number the
pattern of `T` accepts when `T` can hold it, and sets `failbit` otherwise. -/
theorem extract_accepted {k : IntegralKind} (hk : k ≠ .signedChar) {s : List Char}
    {negative : Bool} {magnitude : Nat} {rest : List Char}
    (hs : scanInteger s = some (negative, magnitude, rest))
    (h : k.fitsInt = true → k.min ≤ signedValue negative magnitude ∧
      signedValue negative magnitude ≤ k.max) :
    extract k s = if k.Readable (signedValue negative magnitude) then
      some (k.wrap (signedValue negative magnitude)) else none := by
  cases k
  case signedChar => exact absurd rfl hk
  case char | unsignedChar =>
    have hm := h rfl
    have hint := IntegralKind.int_of_fitsInt hm rfl
    simp only [extract, readIntegral_scan .int hs, if_pos (IntegralKind.readable_of_mem hint),
      IntegralKind.int.wrap_of_mem hint, if_pos (IntegralKind.readable_of_mem hm)]
    rfl
  all_goals exact readIntegral_scan _ hs

theorem scanInteger_dropWhile {s : List Char} {r : Bool × Nat × List Char}
    (hs : scanInteger s = some r) : s.dropWhile isSpace ≠ [] := by
  intro h
  simp [scanInteger, h, takeSign] at hs

/-- After a match, `operator>>` into a `T` that fits in `int` never fails. -/
theorem extract_isSome {k : IntegralKind} (hfit : k.fitsInt = true) {s : List Char}
    (h : integerMatch (narrowToInt k.min) (narrowToInt k.max) s = true) :
    ∃ v, extract k s = some v := by
  obtain ⟨negative, magnitude, rest, hs, -, hacc⟩ := (integerMatch_narrow k s).mp h
  by_cases hk : k = .signedChar
  · subst hk
    have hne := scanInteger_dropWhile hs
    unfold extract readSignedChar
    split
    · contradiction
    · exact ⟨_, rfl⟩
  · rw [extract_accepted hk hs hacc, if_pos (IntegralKind.readable_of_mem (hacc hfit))]
    exact ⟨_, rfl⟩

/-! ## The codec -/

theorem toString_integral (k : IntegralKind) (v : k.Val) (p : Pattern) :
    toString (.integral k) v p =
      if p.matches (decimal v.1) then .ok (decimal v.1) else .error (.noMatch (decimal v.1) p) := by
  simp only [Tools.toString, assertMatch]
  split <;> rfl

/-- The pattern of `T` accepts `std::to_string` of every value of `T`. -/
theorem matches_decimal_val (k : IntegralKind) (v : k.Val) :
    (Pattern.integer (narrowToInt k.min) (narrowToInt k.max)).matches (decimal v.1) = true :=
  (integerMatch_decimal k v.1).mpr fun _ => v.2

theorem toPattern_integral {k : IntegralKind} {p : Pattern}
    (hp : toPattern (.integral k) = some p) :
    p = .integer (narrowToInt k.min) (narrowToInt k.max) :=
  (Option.some.inj hp).symm

/-- `to_value` of `std::to_string (n)` for an accepted `n`. -/
theorem toValue_integral_decimal {k : IntegralKind} (hk : k ≠ .signedChar) {n : Int}
    (h : k.fitsInt = true → k.min ≤ n ∧ n ≤ k.max) :
    toValue (.integral k) (decimal n) (.integer (narrowToInt k.min) (narrowToInt k.max)) =
      if k.Readable n then .ok (k.wrap n)
      else .error (.message (failedToConvert (decimal n) k)) := by
  have hs := scanInteger_decimal n (r := []) nofun
  rw [List.append_nil] at hs
  have he := extract_accepted hk hs (by rwa [signedValue_decimal])
  rw [signedValue_decimal] at he
  simp only [toValue, assertMatch, Pattern.matches, (integerMatch_decimal k n).mpr h, if_true,
    ok_bind, he]
  split_ifs <;> rfl

/-- **Integral leaves.**  The pattern of `T` accepts `std::to_string (n)` for the `n` in the range
of `T` when `T` fits in `int`, and for every `n` otherwise; into every `T` but `signed char`,
`to_value` reads an accepted `n` that `T` can hold as `n` modulo `2 ^ bits` and raises
`ExcMessage` on any other; `to_string` writes `std::to_string (v)` for every value.  So every
value of every `T` but `signed char` comes back from `to_value (to_string (v))`. -/
theorem integral_codec (k : IntegralKind) {p : Pattern} (hp : toPattern (.integral k) = some p) :
    (∀ n, p.matches (decimal n) = true ↔ (k.fitsInt = true → k.min ≤ n ∧ n ≤ k.max)) ∧
    (∀ n, k ≠ .signedChar → p.matches (decimal n) = true →
      toValue (.integral k) (decimal n) p =
        if k.Readable n then .ok (k.wrap n)
        else .error (.message (failedToConvert (decimal n) k))) ∧
    (∀ v : k.Val, toString (.integral k) v p = .ok (decimal v.1)) ∧
    (k ≠ .signedChar → ∀ v : k.Val,
      (toString (.integral k) v p).bind (toValue (.integral k) · p) = .ok v) := by
  obtain rfl := toPattern_integral hp
  have hstring (v : k.Val) :
      toString (.integral k) v (.integer (narrowToInt k.min) (narrowToInt k.max)) =
        .ok (decimal v.1) := by
    rw [toString_integral, if_pos (matches_decimal_val k v)]
  refine ⟨integerMatch_decimal k,
    fun n hk hm => toValue_integral_decimal hk ((integerMatch_decimal k n).mp hm), hstring,
    fun hk v => ?_⟩
  rw [hstring]
  exact (toValue_integral_decimal hk fun _ => v.2).trans
    (by rw [if_pos (IntegralKind.readable_of_mem v.2), k.wrap_of_mem v.2])

theorem integral_codec_short :
    toValue (.integral .short) (decimal (-5)) (.integer (-32768) 32767) =
      .ok (IntegralKind.short.wrap (-5)) :=
  ((integral_codec .short rfl).2.1 (-5) (by decide) (by decide)).trans rfl

/-- The pattern of `long`, `Integer (0, -1)`, accepts `std::to_string (2 ^ 63)`, outside the range
of `long`, and `to_value` then raises `ExcMessage`; `signed char` reads `std::to_string (5)` as
the character `'5'`, of code `53`. -/
theorem integral_long_overflow_signedChar_five :
    toPattern (.integral .long) = some (.integer 0 (-1)) ∧
      ¬ (IntegralKind.long.min ≤ 9223372036854775808 ∧
        (9223372036854775808 : Int) ≤ IntegralKind.long.max) ∧
      (Pattern.integer 0 (-1)).matches (decimal 9223372036854775808) = true ∧
      toValue (.integral .long) (decimal 9223372036854775808) (.integer 0 (-1)) =
        .error (.message (failedToConvert (decimal 9223372036854775808) .long)) ∧
    toValue (.integral .signedChar) (decimal 5) (.integer (-128) 127) =
      .ok (IntegralKind.signedChar.wrap 53) :=
  ⟨rfl, by decide, by decide, rfl, rfl⟩

end Patterns
