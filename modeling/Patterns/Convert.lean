import Patterns.Shape

/-!
# The conversion engine `Patterns::Tools::Convert<T>`

`to_pattern`, `to_string` and `to_value` of every specialisation of `Convert` in `patterns.h`
(arithmetic types, `std::string`, list-compatible containers, map-compatible containers,
`Tensor` / `Point`, `std::complex`, `std::pair`), each as one function by recursion on the shape.

* `toPattern` — `none` where the C++ reads past the end of a separator table.
* `toString`, `toValue` — an `AssertThrow` that fails raises its exception (`Failure.noMatch`,
  `Failure.message`); an access the C++ leaves undefined is `Failure.undefinedBehaviour`.

The model is the release build: `Assert` and `AssertDimension` are compiled out.  Where the C++
leaves the order of two conversions unspecified (the operands of `+`, the arguments of
`std::make_pair`), the left one runs first.
-/

set_option autoImplicit false

namespace Patterns.Tools

/-- `internal::default_list_separator`. -/
def defaultListSeparator : List Separator :=
  [.single ',', .single ';', .single '|', .single '%']

/-- `internal::default_map_separator`. -/
def defaultMapSeparator : List Separator :=
  [.single ':', .single '=', .single '@', .single '#']

/-- `Convert<T>::to_pattern()`; `none` when it reads past the end of a separator table. -/
def toPattern : Shape → Option Pattern
  | .bool => some .bool
  | .integral k => some (.integer (narrowToInt k.min) (narrowToInt k.max))
  | .string => some .anything
  | .list k t => do
    let base ← toPattern t
    let sep ← defaultListSeparator[RankInfo.listRank (.list k t) - 1]?
    pure (.list base 0 maxUnsignedInt sep)
  | .map k kt vt => do
    let kp ← toPattern kt
    let vp ← toPattern vt
    let sep ← defaultListSeparator[RankInfo.listRank (.map k kt vt) - 1]?
    let kv ← defaultMapSeparator[RankInfo.mapRank (.map k kt vt) - 1]?
    pure (.map kp vp 0 maxUnsignedInt sep kv)
  | .tensor dim t => do
    let base ← toPattern t
    let sep ← defaultListSeparator[RankInfo.listRank (.tensor dim t) - 1]?
    pure (.list base dim dim sep)
  | .complex t => do
    let base ← toPattern t
    let sep ← defaultListSeparator[RankInfo.listRank (.complex t) - 1]?
    pure (.list base 2 2 sep)
  | .pair kt vt => do
    let kp ← toPattern kt
    let vp ← toPattern vt
    -- the list separator of the level above: a pair is a map with one entry
    let sep ← defaultListSeparator[RankInfo.listRank (.pair kt vt)]?
    let kv ← defaultMapSeparator[RankInfo.mapRank (.pair kt vt) - 1]?
    pure (.map kp vp 1 1 sep kv)

/-! ### What `to_pattern` builds, node by node -/

section ToPattern

open RankInfo

variable {t kt vt : Shape} {p : Pattern}

theorem toPattern_list {k : ListKind} :
    toPattern (.list k t) = some p ↔ ∃ base sep, toPattern t = some base ∧
      defaultListSeparator[listRank t]? = some sep ∧ .list base 0 maxUnsignedInt sep = p := by
  simp only [toPattern, listRank, mapRank, Nat.add_sub_cancel, Option.bind_eq_bind,
    Option.bind_eq_some, Option.pure_def, Option.some.injEq, exists_and_left]

theorem toPattern_map {k : MapKind} :
    toPattern (.map k kt vt) = some p ↔ ∃ kp vp sep kv, toPattern kt = some kp ∧
      toPattern vt = some vp ∧ defaultListSeparator[max (listRank kt) (listRank vt)]? = some sep ∧
      defaultMapSeparator[max (mapRank kt) (mapRank vt)]? = some kv ∧
      .map kp vp 0 maxUnsignedInt sep kv = p := by
  simp only [toPattern, listRank, mapRank, Nat.add_sub_cancel, Option.bind_eq_bind,
    Option.bind_eq_some, Option.pure_def, Option.some.injEq, exists_and_left]

theorem toPattern_tensor {dim : Nat} :
    toPattern (.tensor dim t) = some p ↔ ∃ base sep, toPattern t = some base ∧
      defaultListSeparator[listRank t]? = some sep ∧ .list base dim dim sep = p := by
  simp only [toPattern, listRank, mapRank, Nat.add_sub_cancel, Option.bind_eq_bind,
    Option.bind_eq_some, Option.pure_def, Option.some.injEq, exists_and_left]

theorem toPattern_complex :
    toPattern (.complex t) = some p ↔ ∃ base sep, toPattern t = some base ∧
      defaultListSeparator[listRank t]? = some sep ∧ .list base 2 2 sep = p := by
  simp only [toPattern, listRank, mapRank, Nat.add_sub_cancel, Option.bind_eq_bind,
    Option.bind_eq_some, Option.pure_def, Option.some.injEq, exists_and_left]

theorem toPattern_pair :
    toPattern (.pair kt vt) = some p ↔ ∃ kp vp sep kv, toPattern kt = some kp ∧
      toPattern vt = some vp ∧ defaultListSeparator[max (listRank kt) (listRank vt)]? = some sep ∧
      defaultMapSeparator[max (mapRank kt) (mapRank vt)]? = some kv ∧
        .map kp vp 1 1 sep kv = p := by
  simp only [toPattern, listRank, mapRank, Nat.add_sub_cancel, Option.bind_eq_bind,
    Option.bind_eq_some, Option.pure_def, Option.some.injEq, exists_and_left]

end ToPattern

/-! ### `Except` -/

@[simp] theorem ok_bind {ε α β : Type} (a : α) (f : α → Except ε β) :
    (Except.ok a >>= f) = f a := rfl

@[simp] theorem error_bind {ε α β : Type} (e : ε) (f : α → Except ε β) :
    (Except.error e >>= f) = .error e := rfl

@[simp] theorem pure_eq_ok {ε α : Type} (a : α) : (pure a : Except ε α) = .ok a := rfl

/-! ## Messages -/

/-- `ExcMessage` of the list converters. -/
def needListPattern : String := "I need a List pattern to convert a string to a List type."

/-- `ExcMessage` of the `Tensor` and `std::complex` converters. -/
def needListPatternCompatible : String :=
  "I need a List pattern to convert a string to a List compatbile type."

/-- `ExcMessage` of the map `to_string`. -/
def needMapPatternToString : String :=
  "I need a Map pattern to convert a string to a Map compatbile type."

/-- `ExcMessage` of the map `to_value`. -/
def needMapPatternToValue : String :=
  "I need a Map pattern to convert a string to a Map compatible type."

/-- `ExcMessage` of the arithmetic `to_value` when `operator>>` sets `failbit`. -/
def failedToConvert (s : List Char) (k : IntegralKind) : String :=
  "Failed to convert from \"" ++ String.mk s ++ "\" to the type \"" ++ k.typeName ++ "\""

/-- `AssertThrow (p->match (s), ExcNoMatch (s, *p))`. -/
def assertMatch (p : Pattern) (s : List Char) : Except Failure Unit :=
  if p.matches s then .ok () else .error (.noMatch s p)

/-! ## Reading numbers -/

/-- `num_get` into an integral `T` (libstdc++): a magnitude past the range of `T` sets
`failbit`; an unsigned `T` takes a `-` by negating modulo `2 ^ bits`. -/
def readIntegral (k : IntegralKind) (s : List Char) : Option k.Val :=
  match scanInteger s with
  | none => none
  | some (negative, magnitude, _) =>
    let v := signedValue negative magnitude
    if h : k.min ≤ v ∧ v ≤ k.max then some ⟨v, h⟩
    else if k.min = 0 ∧ negative ∧ (magnitude : Int) ≤ k.max then some (k.wrap v)
    else none

/-- `operator>> (std::istream &, signed char &)`: the first byte after white space. -/
def readSignedChar (s : List Char) : Option IntegralKind.signedChar.Val :=
  match s.dropWhile isSpace with
  | [] => none
  | c :: _ => some (IntegralKind.signedChar.wrap ((String.utf8EncodeChar c).headD 0).toNat)

/-- `std::istringstream is (s); … is >> value;` of the arithmetic `to_value`, `none` when
`is.fail ()`.  Only `unsigned char` and `char` are read through an `int`. -/
def extract (k : IntegralKind) (s : List Char) : Option k.Val :=
  match k with
  | .unsignedChar => (readIntegral .int s).map fun i => IntegralKind.unsignedChar.wrap i.1
  | .char => (readIntegral .int s).map fun i => IntegralKind.char.wrap i.1
  | .signedChar => readSignedChar s
  | k => readIntegral k s

/-! ## Maps -/

/-- `Convert<T>::to_string` of a map-compatible `T`, from the converters of its key and mapped
types (`std::pair` uses it through a `std::unordered_map`). -/
def mapToString {K V : Type} (keyToString : K → Pattern → Except Failure (List Char))
    (valueToString : V → Pattern → Except Failure (List Char)) (t : List (K × V))
    (pattern : Pattern) : Except Failure (List Char) :=
  match pattern with
  | .map kp vp _ _ sep kv => do
    let vec ← t.mapM fun e => do
      let key ← keyToString e.1 kp
      let value ← valueToString e.2 vp
      pure (key ++ kv.chars ++ value)
    let s := joinEntries (sep.chars ++ [' ']) vec
    assertMatch pattern s
    pure s
  | _ => .error (.message needMapPatternToString)

/-- The body of the loop of the map `to_value`: split one entry at the key/value separator and
convert its two parts.  `AssertDimension (key_val.size (), 2)` is compiled out, so fewer than two
parts is an access past the end.  The mapped value is converted with
`Convert<mapped_type>::to_value (key_val[1])`, that is with the default pattern `valueDefault` of
the mapped type, not with the value pattern of the map pattern. -/
def mapEntry {K V : Type} (keyToValue : List Char → Pattern → Except Failure K)
    (valueToValue : List Char → Pattern → Except Failure V) (valueDefault : Option Pattern)
    (keyPattern : Pattern) (keyValueSeparator : Separator) (str : List Char) :
    Except Failure (K × V) :=
  match splitStringList str keyValueSeparator with
  | k :: v :: _ => do
    let key ← keyToValue k keyPattern
    let vp ← match valueDefault with
      | some q => .ok q
      | none => .error .undefinedBehaviour
    let value ← valueToValue v vp
    pure (key, value)
  | _ => .error .undefinedBehaviour

/-- `Convert<T>::to_value` of a map-compatible `T`, from the converters of its key and mapped
types. -/
def mapToValue {K V : Type} (keyToValue : List Char → Pattern → Except Failure K)
    (valueToValue : List Char → Pattern → Except Failure V) (valueDefault : Option Pattern)
    (placement : Placement) (keyCmp : K → K → Ordering) (s : List Char) (pattern : Pattern) :
    Except Failure (List (K × V)) := do
  assertMatch pattern s
  match pattern with
  | .map kp _ _ _ sep kv =>
    (splitStringList s sep).foldlM (fun t str => do
      let e ← mapEntry keyToValue valueToValue valueDefault kp kv str
      pure (placement.insert (fun a b => keyCmp a.1 b.1) t e)) []
  | _ => .error (.message needMapPatternToValue)

/-- `t[i] = x` of a `Tensor`. -/
def tensorSet {α : Type} {dim : Nat} (t : {xs : List α // xs.length = dim}) (i : Nat) (x : α) :
    {xs : List α // xs.length = dim} :=
  ⟨t.1.set i x, by rw [List.length_set, t.2]⟩

/-- One pass of the loop of the `Tensor` `to_value`, `t[i++] = Convert<value_type>::to_value (str,
base_p)`: the right-hand side is converted first, and writing `t[i]` with `i = dim` is an access
past the end. -/
def tensorStep {α : Type} {dim : Nat} (convert : List Char → Except Failure α)
    (acc : {xs : List α // xs.length = dim} × Nat) (str : List Char) :
    Except Failure ({xs : List α // xs.length = dim} × Nat) := do
  let x ← convert str
  if acc.2 < dim then pure (tensorSet acc.1 acc.2 x, acc.2 + 1) else .error .undefinedBehaviour

/-! ## `to_string` and `to_value` -/

/-- `Convert<T>::to_string (t, pattern)`. -/
def toString : (T : Shape) → T.Val → Pattern → Except Failure (List Char)
  | .bool, b, p => do
    let str := if b then "true".toList else "false".toList
    assertMatch p str
    pure str
  | .integral _, v, p => do
    -- `std::to_string (value)`, through `(int) value` for the character types
    let str := decimal v.1
    assertMatch p str
    pure str
  | .string, t, p => do
    assertMatch p t
    pure t
  | .list _ t, xs, p =>
    match p with
    | .list base _ _ sep => do
      let vec ← xs.mapM fun x => toString t x base
      let s := joinEntries (sep.chars ++ [' ']) vec
      assertMatch p s
      pure s
    | _ => .error (.message needListPattern)
  | .map _ kt vt, xs, p => mapToString (toString kt) (toString vt) xs p
  | .tensor _ t, xs, p =>
    match p with
    | .list base _ _ sep => do
      let vec ← xs.1.mapM fun x => toString t x base
      let s := joinEntries (sep.chars ++ [' ']) vec
      assertMatch p s
      pure s
    | _ => .error (.message needListPatternCompatible)
  | .complex t, z, p =>
    match p with
    | .list base _ _ sep => do
      let re ← toString t z.1 base
      let im ← toString t z.2 base
      let s := re ++ sep.chars ++ ' ' :: im
      assertMatch p s
      pure s
    | _ => .error (.message needListPatternCompatible)
  | .pair kt vt, e, p => do
    -- `std::unordered_map<Key, Value> m; m.insert (t);`
    let m := MapKind.unorderedMap.placement.insert (fun a b => kt.cmp a.1 b.1) [] e
    let s ← mapToString (toString kt) (toString vt) m p
    assertMatch p s
    pure s

/-- `Convert<T>::to_value (s, pattern)`. -/
def toValue : (T : Shape) → List Char → Pattern → Except Failure T.Val
  | .bool, s, p => do
    assertMatch p s
    pure (s == "true".toList)
  | .integral k, s, p => do
    assertMatch p s
    match extract k s with
    | some v => pure v
    | none => .error (.message (failedToConvert s k))
  | .string, s, p => do
    assertMatch p s
    pure s
  | .list k t, s, p => do
    assertMatch p s
    match p with
    | .list base _ _ sep =>
      (splitStringList s sep).foldlM (fun acc str => do
        let x ← toValue t str base
        pure (k.placement.insert t.cmp acc x)) []
    | _ => .error (.message needListPattern)
  | .map k kt vt, s, p =>
    mapToValue (toValue kt) (toValue vt) (toPattern vt) k.placement kt.cmp s p
  | .tensor dim t, s, p => do
    assertMatch p s
    match p with
    | .list base _ _ sep => do
      -- `T t; unsigned int i = 0; for (… str : v) t[i++] = …;`
      let r ← (splitStringList s sep).foldlM (tensorStep (toValue t · base))
        ((Shape.tensor dim t).zero, 0)
      pure r.1
    | _ => .error (.message needListPatternCompatible)
  | .complex t, s, p => do
    assertMatch p s
    match p with
    | .list base _ _ sep =>
      match splitStringList s sep with
      | a :: b :: _ => do
        let re ← toValue t a base
        let im ← toValue t b base
        pure (re, im)
      | _ => .error .undefinedBehaviour
    | _ => .error (.message needListPatternCompatible)
  | .pair kt vt, s, p => do
    let m ← mapToValue (toValue kt) (toValue vt) (toPattern vt) MapKind.unorderedMap.placement
      kt.cmp s p
    match m with
    | e :: _ => pure e
    | [] => .error .undefinedBehaviour

end Patterns.Tools
