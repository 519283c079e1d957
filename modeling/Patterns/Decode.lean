import Patterns.Integral

/-!
# Decoding what the pattern accepts

`to_value` checks its text against the whole pattern, then splits it again level by level with
the separators of the pattern; every part it converts is one the pattern has checked.

* `foldlM_ok` — a loop of `to_value` runs to its end when each pass does;
  `foldlM_tensorStep_ok` — the `Tensor` loop, when there are at most `dim` parts.
* `Shape.IntLeaves` — every integral leaf of `T` has `int` limits, so that its pattern is
  bounded by the range of the leaf.
* `toValue_of_matches` — with the patterns `to_pattern` builds, every text the pattern accepts
  is converted when the integral leaves have `int` limits: no level raises `ExcNoMatch`, no
  number fails to read, and no access goes past the parts of a split or the entries of a map.
* `toValue_map_value_pattern` — the map `to_value` converts the mapped values with the default
  pattern of the mapped type, not with the value pattern it is given.
* `toValue_fixed_arity_loose` — given a `List` or `Map` pattern with looser bounds, the
  fixed-arity converters return a partly filled `Tensor`, or access past the parts of the split
  or the entries of an empty map.
-/

set_option autoImplicit false

namespace Patterns

open Tools

/-! ## Loops -/

/-- A `foldlM` runs to its end when every pass does, while an invariant of the accumulator and
the parts still to come holds. -/
theorem foldlM_ok {α β ε : Type} {f : β → α → Except ε β} (P : β → List α → Prop)
    (step : ∀ x xs b, P b (x :: xs) → ∃ b', f b x = .ok b' ∧ P b' xs) :
    ∀ (xs : List α) (init : β), P init xs → ∃ r, xs.foldlM f init = .ok r
  | [], init, _ => ⟨init, rfl⟩
  | x :: xs, init, h => by
    obtain ⟨b, hb, hP⟩ := step x xs init h
    obtain ⟨r, hr⟩ := foldlM_ok P step xs b hP
    exact ⟨r, by rw [List.foldlM_cons, hb]; exact hr⟩

theorem exists_of_bind_ok {α β ε : Type} {x : Except ε α} {f : α → Except ε β} {b : β}
    (h : (x >>= f) = .ok b) : ∃ a, x = .ok a ∧ f a = .ok b := by
  cases x with
  | error => cases h
  | ok a => exact ⟨a, rfl, h⟩

/-- The loop of the `Tensor` `to_value` runs to its end when every part converts and there are
no more parts than places left. -/
theorem foldlM_tensorStep_ok {α : Type} {dim : Nat} {dec : List Char → Except Failure α}
    {parts : List (List Char)} (hconv : ∀ x ∈ parts, ∃ y, dec x = .ok y)
    (acc : {xs : List α // xs.length = dim} × Nat) (hlen : acc.2 + parts.length ≤ dim) :
    ∃ r, parts.foldlM (tensorStep dec) acc = .ok r :=
  foldlM_ok (fun acc rest => acc.2 + rest.length ≤ dim ∧ ∀ x ∈ rest, ∃ y, dec x = .ok y)
    (fun x xs acc ⟨hlen, h⟩ => by
      obtain ⟨y, hy⟩ := h x (List.mem_cons_self x xs)
      have hi : acc.2 < dim := by simp only [List.length_cons] at hlen; omega
      exact ⟨_, by simp only [tensorStep, hy, hi, ok_bind, if_true, pure_eq_ok]; rfl,
        by simp only [List.length_cons] at hlen ⊢; omega,
        fun z hz => h z (List.mem_cons_of_mem x hz)⟩)
    parts acc ⟨hlen, hconv⟩

/-! ## Maps -/

section Maps

variable {K V : Type} {keyToValue : List Char → Pattern → Except Failure K}
  {valueToValue : List Char → Pattern → Except Failure V} {kp vp : Pattern}

theorem mapEntry_eq {kv : Separator} {str k v : List Char} {a : K} {b : V}
    (hs : splitStringList str kv = [k, v]) (ha : keyToValue k kp = .ok a)
    (hb : valueToValue v vp = .ok b) :
    mapEntry keyToValue valueToValue (some vp) kp kv str = .ok (a, b) := by
  simp only [mapEntry, hs, ha, ok_bind, hb, pure_eq_ok]

theorem mapEntry_ok {kv : Separator} {str : List Char}
    (hk : ∀ k, kp.matches k = true → ∃ a, keyToValue k kp = .ok a)
    (hv : ∀ v, vp.matches v = true → ∃ b, valueToValue v vp = .ok b)
    (he : EntryMatches kp vp kv str) :
    ∃ e, mapEntry keyToValue valueToValue (some vp) kp kv str = .ok e := by
  obtain ⟨k, v, hs, hkm, hvm⟩ := he
  obtain ⟨a, ha⟩ := hk k hkm
  obtain ⟨b, hb⟩ := hv v hvm
  exact ⟨(a, b), mapEntry_eq hs ha hb⟩

theorem mapToValue_ok {lo hi : Nat} {sep kv : Separator} {s : List Char} (placement : Placement)
    (keyCmp : K → K → Ordering) (hm : (Pattern.map kp vp lo hi sep kv).matches s = true)
    (hk : ∀ k, kp.matches k = true → ∃ a, keyToValue k kp = .ok a)
    (hv : ∀ v, vp.matches v = true → ∃ b, valueToValue v vp = .ok b) :
    ∃ r, mapToValue keyToValue valueToValue (some vp) placement keyCmp s
      (.map kp vp lo hi sep kv) = .ok r := by
  simp only [mapToValue, assertMatch, hm, if_true, ok_bind]
  refine foldlM_ok (fun _ rest => ∀ e ∈ rest, EntryMatches kp vp kv e) (fun x xs acc h => ?_) _ []
    ((matches_map kp vp lo hi sep kv s).mp hm).2
  obtain ⟨e, he⟩ := mapEntry_ok hk hv (h x (List.mem_cons_self x xs))
  exact ⟨_, by simp only [he, ok_bind, pure_eq_ok]; rfl,
    fun y hy => h y (List.mem_cons_of_mem x hy)⟩

/-- A map text of one entry gives a map of that entry. -/
theorem mapToValue_single {lo hi : Nat} {sep kv : Separator} {s str : List Char} {e : K × V}
    (placement : Placement) (keyCmp : K → K → Ordering)
    (hm : (Pattern.map kp vp lo hi sep kv).matches s = true) (hs : splitStringList s sep = [str])
    (he : mapEntry keyToValue valueToValue (some vp) kp kv str = .ok e) :
    mapToValue keyToValue valueToValue (some vp) placement keyCmp s (.map kp vp lo hi sep kv) =
      .ok [e] := by
  simp only [mapToValue, assertMatch, hm, if_true, hs, List.foldlM_cons, he, List.foldlM_nil,
    ok_bind, pure_eq_ok, Placement.insert_nil]

end Maps

/-! ## Validation is enough -/

/-- Every integral leaf of `T` has `int` limits (`char`, `signed char`, `unsigned char`, `short`,
`unsigned short`, `int`).  The pattern of a wider leaf is `Integer (0, -1)`, which accepts
numbers that `operator>>` cannot store. -/
def Shape.IntLeaves : Shape → Bool
  | .bool | .string => true
  | .integral k => k.fitsInt
  | .list _ t | .tensor _ t | .complex t => t.IntLeaves
  | .map _ k v | .pair k v => k.IntLeaves && v.IntLeaves

/-- **Validation is sufficient for decoding.**  With the pattern `to_pattern` builds for a shape
whose integral leaves have `int` limits, every text that matches is converted by `to_value`. -/
theorem toValue_of_matches : ∀ (T : Shape) {p : Pattern} {s : List Char}, T.IntLeaves = true →
    toPattern T = some p → p.matches s = true → ∃ v, toValue T s p = .ok v
  | .bool, p, s, _, hp, hm => by
    cases hp
    exact ⟨_, by simp only [toValue, assertMatch, hm, if_true, ok_bind, pure_eq_ok]; rfl⟩
  | .integral k, p, s, hT, hp, hm => by
    cases hp
    obtain ⟨v, hv⟩ := extract_isSome hT hm
    exact ⟨v, by simp only [toValue, assertMatch, hm, if_true, hv, ok_bind, pure_eq_ok]⟩
  | .string, p, s, _, hp, hm => by
    cases hp
    exact ⟨s, by simp only [toValue, assertMatch, hm, if_true, ok_bind, pure_eq_ok]⟩
  | .list k t, p, s, hT, hp, hm => by
    obtain ⟨base, sep, hb, -, rfl⟩ := toPattern_list.mp hp
    simp only [toValue, assertMatch, hm, if_true, ok_bind]
    refine foldlM_ok (fun _ rest => ∀ x ∈ rest, base.matches x = true) (fun x xs acc h => ?_) _ []
      ((matches_list base 0 maxUnsignedInt sep s).mp hm).2
    obtain ⟨y, hy⟩ := toValue_of_matches t hT hb (h x (List.mem_cons_self x xs))
    exact ⟨_, by simp only [hy, ok_bind, pure_eq_ok]; rfl,
      fun z hz => h z (List.mem_cons_of_mem x hz)⟩
  | .map k kt vt, p, s, hT, hp, hm => by
    obtain ⟨hkt, hvt⟩ := Bool.and_eq_true_iff.mp hT
    obtain ⟨kp, vp, sep, kv, hk, hv, -, -, rfl⟩ := toPattern_map.mp hp
    simp only [toValue, hv]
    exact mapToValue_ok _ _ hm (fun _ h => toValue_of_matches kt hkt hk h)
      (fun _ h => toValue_of_matches vt hvt hv h)
  | .tensor dim t, p, s, hT, hp, hm => by
    obtain ⟨base, sep, hb, -, rfl⟩ := toPattern_tensor.mp hp
    obtain ⟨⟨-, hhi⟩, hall⟩ := (matches_list base dim dim sep s).mp hm
    obtain ⟨r, hr⟩ := foldlM_tensorStep_ok (fun x hx => toValue_of_matches t hT hb (hall x hx))
      ((Shape.tensor dim t).zero, 0) (by rw [Nat.zero_add]; exact hhi)
    exact ⟨r.1, by simp only [toValue, assertMatch, hm, if_true, ok_bind, hr, pure_eq_ok]⟩
  | .complex t, p, s, hT, hp, hm => by
    obtain ⟨base, sep, hb, -, rfl⟩ := toPattern_complex.mp hp
    obtain ⟨⟨hlo, hhi⟩, hall⟩ := (matches_list base 2 2 sep s).mp hm
    obtain ⟨a, b, hab⟩ := List.length_eq_two.mp (by omega : (splitStringList s sep).length = 2)
    obtain ⟨x, hx⟩ := toValue_of_matches t hT hb (hall a (by simp [hab]))
    obtain ⟨y, hy⟩ := toValue_of_matches t hT hb (hall b (by simp [hab]))
    exact ⟨(x, y), by simp only [toValue, assertMatch, hm, if_true, hab, hx, hy, ok_bind,
      pure_eq_ok]⟩
  | .pair kt vt, p, s, hT, hp, hm => by
    obtain ⟨hkt, hvt⟩ := Bool.and_eq_true_iff.mp hT
    obtain ⟨kp, vp, sep, kv, hk, hv, -, -, rfl⟩ := toPattern_pair.mp hp
    obtain ⟨⟨hlo, hhi⟩, hall⟩ := (matches_map kp vp 1 1 sep kv s).mp hm
    obtain ⟨str, hstr⟩ := List.length_eq_one.mp (by omega : (splitStringList s sep).length = 1)
    obtain ⟨e, he⟩ := mapEntry_ok (fun _ h => toValue_of_matches kt hkt hk h)
      (fun _ h => toValue_of_matches vt hvt hv h) (hall str (by simp [hstr]))
    exact ⟨e, by simp only [toValue, hv, mapToValue_single _ _ hm hstr he, ok_bind]; rfl⟩

theorem toValue_of_matches_vector :
    ∃ v, toValue (.list .vector (.integral .int)) "1, -2".toList
      (.list (.integer minIntValue maxIntValue) 0 maxUnsignedInt (.single ',')) = .ok v :=
  toValue_of_matches _ rfl rfl (by decide)

/-! ## Caller-supplied patterns -/

/-- With `Map (Integer (), List (Integer (), 0, max, ";"), 0, max, ",", ":")` for a
`std::map<int, std::vector<int>>`, the text `1:2;3` matches, but its mapped value `2;3` is
converted with the default pattern of `std::vector<int>`, whose separator is `,`. -/
theorem toValue_map_value_pattern :
    (Pattern.map (.integer minIntValue maxIntValue)
        (.list (.integer minIntValue maxIntValue) 0 maxUnsignedInt (.single ';')) 0 maxUnsignedInt
        (.single ',') (.single ':')).matches "1:2;3".toList = true ∧
      toValue (.map .map (.integral .int) (.list .vector (.integral .int))) "1:2;3".toList
        (.map (.integer minIntValue maxIntValue)
          (.list (.integer minIntValue maxIntValue) 0 maxUnsignedInt (.single ';')) 0
          maxUnsignedInt (.single ',') (.single ':')) =
        .error (.noMatch "2;3".toList
          (.list (.integer minIntValue maxIntValue) 0 maxUnsignedInt (.single ','))) :=
  ⟨by decide, rfl⟩

/-- With a `List` pattern of bounds `0 .. max` for `Tensor<1, 2, int>`, the text `1` gives the
tensor `(1, 0)` and the text `1, 2, 3` writes `t[2]`; `std::complex<int>` reads `v[1]` of the
one part of `1`; with a `Map` pattern of bounds `0 .. max`, `std::pair<int, int>` dereferences
`begin ()` of the empty map the empty text gives. -/
theorem toValue_fixed_arity_loose :
    (Pattern.list (.integer minIntValue maxIntValue) 0 maxUnsignedInt (.single ',')).matches
        "1".toList = true ∧
      (toValue (.tensor 2 (.integral .int)) "1".toList
        (.list (.integer minIntValue maxIntValue) 0 maxUnsignedInt (.single ','))).map
          (·.1.map (·.1)) = .ok [1, 0] ∧
    (Pattern.list (.integer minIntValue maxIntValue) 0 maxUnsignedInt (.single ',')).matches
        "1, 2, 3".toList = true ∧
      toValue (.tensor 2 (.integral .int)) "1, 2, 3".toList
        (.list (.integer minIntValue maxIntValue) 0 maxUnsignedInt (.single ',')) =
        .error .undefinedBehaviour ∧
    toValue (.complex (.integral .int)) "1".toList
        (.list (.integer minIntValue maxIntValue) 0 maxUnsignedInt (.single ',')) =
      .error .undefinedBehaviour ∧
    (Pattern.map (.integer minIntValue maxIntValue) (.integer minIntValue maxIntValue) 0
        maxUnsignedInt (.single ',') (.single ':')).matches [] = true ∧
      toValue (.pair (.integral .int) (.integral .int)) []
        (.map (.integer minIntValue maxIntValue) (.integer minIntValue maxIntValue) 0
          maxUnsignedInt (.single ',') (.single ':')) = .error .undefinedBehaviour :=
  ⟨by decide, rfl, by decide, rfl, rfl, by decide, rfl⟩

end Patterns
