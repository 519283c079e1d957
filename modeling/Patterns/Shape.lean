import Mathlib.Algebra.Group.Int
import Mathlib.Order.Compare
import Patterns.Pattern

/-!
# Shapes, ranks and values

The template argument `T` of `Patterns::Tools::Convert<T>` as a syntax tree (`Shape`), the
values of each `T` (`Shape.Val`), and the two static functions the engine computes from `T`:

* `RankInfo.listRank`, `RankInfo.mapRank` — `internal::RankInfo<T>::list_rank` / `map_rank`;
* `Shape.cmp` — `operator<` on the values of `T`, which orders `std::set` and `std::map`;
* `Placement.insert` — `t.insert(...)` of each container kind, and `Placement.Ordered`, the order
  its iteration keeps; `foldl_insert_of_ordered` — inserting the elements of a container in
  iteration order into an empty one rebuilds it.

`Tensor<rank, dim, Number>` is `tensor dim` applied `rank` times to `Number`: its `value_type`
is `Tensor<rank - 1, dim, Number>`, and `Number` for `rank = 1`.  `Convert<Point<dim, Number>>`
and `RankInfo<Point<dim, Number>>` forward to `Tensor<1, dim, Number>`, so a point is written
`tensor dim Number`.  Floating-point leaves are not modelled.
-/

set_option autoImplicit false

namespace Patterns

/-- The integral types `Convert` accepts besides `bool`, on an LP64 target (`char` is signed). -/
inductive IntegralKind where
  | char
  | signedChar
  | unsignedChar
  | short
  | unsignedShort
  | int
  | unsignedInt
  | long
  | unsignedLong
  | longLong
  | unsignedLongLong
  deriving DecidableEq, Repr

namespace IntegralKind

/-- Width in bits. -/
def bits : IntegralKind → Nat
  | .char | .signedChar | .unsignedChar => 8
  | .short | .unsignedShort => 16
  | .int | .unsignedInt => 32
  | .long | .unsignedLong | .longLong | .unsignedLongLong => 64

/-- `std::numeric_limits<T>::min()`. -/
def min : IntegralKind → Int
  | .char | .signedChar => -128
  | .short => -32768
  | .int => -2147483648
  | .long | .longLong => -9223372036854775808
  | .unsignedChar | .unsignedShort | .unsignedInt | .unsignedLong | .unsignedLongLong => 0

/-- `std::numeric_limits<T>::max()`. -/
def max : IntegralKind → Int
  | .char | .signedChar => 127
  | .unsignedChar => 255
  | .short => 32767
  | .unsignedShort => 65535
  | .int => 2147483647
  | .unsignedInt => 4294967295
  | .long | .longLong => 9223372036854775807
  | .unsignedLong | .unsignedLongLong => 18446744073709551615

/-- The values of `T`. -/
abbrev Val (k : IntegralKind) : Type := {n : Int // k.min ≤ n ∧ n ≤ k.max}

/-- `boost::core::demangle(typeid(T).name())`. -/
def typeName : IntegralKind → String
  | .char => "char"
  | .signedChar => "signed char"
  | .unsignedChar => "unsigned char"
  | .short => "short"
  | .unsignedShort => "unsigned short"
  | .int => "int"
  | .unsignedInt => "unsigned int"
  | .long => "long"
  | .unsignedLong => "unsigned long"
  | .longLong => "long long"
  | .unsignedLongLong => "unsigned long long"

theorem bits_eq (k : IntegralKind) : (2 : Int) ^ k.bits = k.max - k.min + 1 := by
  cases k <;> rfl

theorem min_le_zero (k : IntegralKind) : k.min ≤ 0 ∧ 0 ≤ k.max := by
  cases k <;> decide

/-- A conversion to `T` (`value = i`, or an argument passed to a `T` parameter): modulo
`2 ^ bits` into the range of `T`. -/
def wrap (k : IntegralKind) (n : Int) : k.Val :=
  ⟨(n - k.min) % 2 ^ k.bits + k.min, by
    have h := k.bits_eq
    have hpos : (0 : Int) < 2 ^ k.bits := by have := k.min_le_zero; omega
    constructor
    · have := Int.emod_nonneg (n - k.min) (by omega : (2 : Int) ^ k.bits ≠ 0)
      omega
    · have := Int.emod_lt_of_pos (n - k.min) hpos
      omega⟩

end IntegralKind

/-- `std::numeric_limits<T>::min()` / `max()` passed to the `int` parameters of `Integer`. -/
def narrowToInt (n : Int) : Int := IntegralKind.int.wrap n

/-- The list-compatible containers of `internal::is_list_compatible` that `to_value` can fill
(`std::array` has no `insert`). -/
inductive ListKind where
  | vector
  | list
  | deque
  | set
  | multiset
  | unorderedSet
  | unorderedMultiset
  deriving DecidableEq, Repr

/-- The map-compatible containers of `internal::is_map_compatible`. -/
inductive MapKind where
  | map
  | multimap
  | unorderedMap
  | unorderedMultimap
  deriving DecidableEq, Repr

/-- A template argument of `Convert`. -/
inductive Shape where
  | bool
  | integral (k : IntegralKind)
  | string
  | list (k : ListKind) (value : Shape)
  | map (k : MapKind) (key mapped : Shape)
  | tensor (dim : Nat) (value : Shape)
  | complex (number : Shape)
  | pair (key value : Shape)
  deriving DecidableEq, Repr

namespace RankInfo

/-- `internal::RankInfo<T>::list_rank`. -/
def listRank : Shape → Nat
  | .bool | .integral _ | .string => 0
  | .list _ t => listRank t + 1
  | .map _ k v => max (listRank k) (listRank v) + 1
  | .tensor _ t => listRank t + 1
  | .complex t => listRank t + 1
  | .pair k v => max (listRank k) (listRank v)

/-- `internal::RankInfo<T>::map_rank`. -/
def mapRank : Shape → Nat
  | .bool | .integral _ | .string => 0
  | .list _ t => mapRank t
  | .map _ k v => max (mapRank k) (mapRank v) + 1
  | .tensor _ t => mapRank t
  | .complex t => mapRank t
  | .pair k v => max (mapRank k) (mapRank v) + 1

end RankInfo

/-- The values of `T`.  A container is the list of its elements in iteration order, a map the
list of its `(key, value)` entries; `Tensor` and `Point` hold exactly `dim` components. -/
abbrev Shape.Val : Shape → Type
  | .bool => Bool
  | .integral k => k.Val
  | .string => List Char
  | .list _ t => List t.Val
  | .map _ k v => List (k.Val × v.Val)
  | .tensor dim t => {xs : List t.Val // xs.length = dim}
  | .complex t => t.Val × t.Val
  | .pair k v => k.Val × v.Val

/-- Equality of values of `T`. -/
def Shape.decEq : (T : Shape) → DecidableEq T.Val
  | .bool => inferInstanceAs (DecidableEq Bool)
  | .integral k => inferInstanceAs (DecidableEq k.Val)
  | .string => inferInstanceAs (DecidableEq (List Char))
  | .list _ t => letI := t.decEq; inferInstanceAs (DecidableEq (List t.Val))
  | .map _ k v =>
    letI := k.decEq; letI := v.decEq; inferInstanceAs (DecidableEq (List (k.Val × v.Val)))
  | .tensor dim t =>
    letI := t.decEq; inferInstanceAs (DecidableEq {xs : List t.Val // xs.length = dim})
  | .complex t => letI := t.decEq; inferInstanceAs (DecidableEq (t.Val × t.Val))
  | .pair k v => letI := k.decEq; letI := v.decEq; inferInstanceAs (DecidableEq (k.Val × v.Val))

instance (T : Shape) : DecidableEq T.Val := T.decEq

/-- A value-initialised `T` (`T t;` in the `Tensor` converter): zeros and empty containers. -/
def Shape.zero : (T : Shape) → T.Val
  | .bool => false
  | .integral k => ⟨0, k.min_le_zero⟩
  | .string => []
  | .list _ _ => []
  | .map _ _ _ => []
  | .tensor dim t => ⟨List.replicate dim t.zero, List.length_replicate dim t.zero⟩
  | .complex t => (t.zero, t.zero)
  | .pair k v => (k.zero, v.zero)

/-! ## `operator<` -/

/-- `std::lexicographical_compare` as a three-way comparison. -/
def lexCompare {α : Type} (cmp : α → α → Ordering) : List α → List α → Ordering
  | [], [] => .eq
  | [], _ :: _ => .lt
  | _ :: _, [] => .gt
  | a :: as, b :: bs => (cmp a b).then (lexCompare cmp as bs)

/-- `operator<` on the values of `T` as a three-way comparison: numbers by value, `false < true`,
strings, containers and maps lexicographically in iteration order, pairs by key then value.
`Tensor` and `std::complex` have no `operator<`; they are compared lexicographically here, which
no program of the engine observes. -/
def Shape.cmp : (T : Shape) → T.Val → T.Val → Ordering
  | .bool, a, b => compare a.toNat b.toNat
  | .integral _, a, b => compare a.1 b.1
  | .string, a, b => lexCompare (fun x y => compare x.toNat y.toNat) a b
  | .list _ t, a, b => lexCompare t.cmp a b
  | .map _ k v, a, b => lexCompare (fun x y => (k.cmp x.1 y.1).then (v.cmp x.2 y.2)) a b
  | .tensor _ t, a, b => lexCompare t.cmp a.1 b.1
  | .complex t, a, b => (t.cmp a.1 b.1).then (t.cmp a.2 b.2)
  | .pair k v, a, b => (k.cmp a.1 b.1).then (v.cmp a.2 b.2)

theorem lexCompare_swap {α : Type} {cmp : α → α → Ordering} :
    ∀ {as bs : List α}, (∀ a ∈ as, ∀ b, (cmp a b).swap = cmp b a) →
      (lexCompare cmp as bs).swap = lexCompare cmp bs as
  | [], [], _ => rfl
  | [], _ :: _, _ => rfl
  | _ :: _, [], _ => rfl
  | a :: as, b :: bs, h => by
    simp only [lexCompare, Ordering.swap_then, h a (by simp) b,
      lexCompare_swap (fun x hx => h x (List.mem_cons_of_mem a hx))]

theorem int_compare_swap (a b : Int) : (compare a b).swap = compare b a := by
  simp only [compare, compareOfLessAndEq]
  split_ifs <;> first | rfl | omega

/-- `operator<` is antisymmetric: comparing the other way round swaps the answer. -/
theorem Shape.cmp_swap : ∀ (T : Shape) (a b : T.Val), (T.cmp a b).swap = T.cmp b a
  | .bool, a, b => Nat.compare_swap a.toNat b.toNat
  | .integral _, a, b => int_compare_swap a.1 b.1
  | .string, _, _ => lexCompare_swap fun _ _ _ => Nat.compare_swap _ _
  | .list _ t, _, _ => lexCompare_swap fun a _ b => t.cmp_swap a b
  | .map _ k v, _, _ => lexCompare_swap fun x _ y => by
      simp only [Ordering.swap_then, k.cmp_swap, v.cmp_swap]
  | .tensor _ t, _, _ => lexCompare_swap fun a _ b => t.cmp_swap a b
  | .complex t, a, b => by simp only [Shape.cmp, Ordering.swap_then, t.cmp_swap]
  | .pair k v, a, b => by simp only [Shape.cmp, Ordering.swap_then, k.cmp_swap, v.cmp_swap]

/-! ## Insertion -/

/-- Where `t.insert(...)` puts an element. -/
inductive Placement where
  /-- `std::vector`, `std::list`, `std::deque`: at the end. -/
  | back
  /-- `std::set`, `std::map`: in order, unless an equivalent element is already there. -/
  | unique
  /-- `std::multiset`, `std::multimap`: in order, after the equivalent elements. -/
  | multi
  deriving DecidableEq, Repr

/-- The placement of each list-compatible container.  An unordered container is modelled by the
list of what it holds in the order of `operator<`, a canonical form of its contents: the
standard leaves its iteration order unspecified (libstdc++ iterates in bucket order and puts a
new element before the equal ones it holds), so two of its model values are equal exactly when
the containers are equal under `operator==`, and its iteration order is not modelled. -/
def ListKind.placement : ListKind → Placement
  | .vector | .list | .deque => .back
  | .set | .unorderedSet => .unique
  | .multiset | .unorderedMultiset => .multi

/-- The placement of each map-compatible container, by key.  An unordered map is modelled, as an
unordered list-compatible container is (`ListKind.placement`), by its entries in the order of
the keys: its iteration order is not modelled. -/
def MapKind.placement : MapKind → Placement
  | .map | .unorderedMap => .unique
  | .multimap | .unorderedMultimap => .multi

/-- Insert into a container without equivalent elements. -/
def uniqueInsert {α : Type} (cmp : α → α → Ordering) (x : α) : List α → List α
  | [] => [x]
  | y :: ys =>
    match cmp x y with
    | .lt => x :: y :: ys
    | .eq => y :: ys
    | .gt => y :: uniqueInsert cmp x ys

/-- Insert at the upper bound of the equivalent elements. -/
def multiInsert {α : Type} (cmp : α → α → Ordering) (x : α) : List α → List α
  | [] => [x]
  | y :: ys => if cmp x y = .lt then x :: y :: ys else y :: multiInsert cmp x ys

/-- `t.insert(t.end(), x)` of a list-compatible container, `t.insert(x)` of a map. -/
def Placement.insert {α : Type} (cmp : α → α → Ordering) : Placement → List α → α → List α
  | .back, xs, x => xs ++ [x]
  | .unique, xs, x => uniqueInsert cmp x xs
  | .multi, xs, x => multiInsert cmp x xs

/-- `a` may come before `b` in iteration order. -/
def Placement.Before {α : Type} (cmp : α → α → Ordering) : Placement → α → α → Prop
  | .back, _, _ => True
  | .unique, a, b => cmp a b = .lt
  | .multi, a, b => cmp a b ≠ .gt

/-- The iteration order a container keeps. -/
def Placement.Ordered {α : Type} (cmp : α → α → Ordering) (p : Placement) (xs : List α) : Prop :=
  xs.Pairwise (p.Before cmp)

/-- `Placement.Before` is decided by the comparison. -/
def Placement.decBefore {α : Type} (cmp : α → α → Ordering) : (p : Placement) →
    DecidableRel (p.Before cmp)
  | .back, _, _ => inferInstanceAs (Decidable True)
  | .unique, a, b => inferInstanceAs (Decidable (cmp a b = .lt))
  | .multi, a, b => inferInstanceAs (Decidable (cmp a b ≠ .gt))

instance {α : Type} (cmp : α → α → Ordering) (p : Placement) : DecidableRel (p.Before cmp) :=
  p.decBefore cmp

instance {α : Type} (cmp : α → α → Ordering) (p : Placement) (xs : List α) :
    Decidable (p.Ordered cmp xs) :=
  inferInstanceAs (Decidable (xs.Pairwise (p.Before cmp)))

section Insertion

variable {α : Type} {cmp : α → α → Ordering}

@[simp] theorem Placement.insert_nil (p : Placement) (x : α) : p.insert cmp [] x = [x] := by
  cases p <;> rfl

/-- An element that comes after every element already there goes at the end. -/
theorem Placement.insert_of_before (hswap : ∀ a b, (cmp a b).swap = cmp b a) (x : α) :
    ∀ (p : Placement) (acc : List α), (∀ y ∈ acc, p.Before cmp y x) →
      p.insert cmp acc x = acc ++ [x]
  | .back, _, _ => rfl
  | .unique, [], _ => rfl
  | .unique, y :: ys, h => by
    have hxy : cmp x y = .gt := by rw [← hswap, show cmp y x = .lt from h y (by simp)]; rfl
    have ih := Placement.insert_of_before hswap x .unique ys fun z hz => h z (by simp [hz])
    simp only [Placement.insert] at ih ⊢
    simp [uniqueInsert, hxy, ih]
  | .multi, [], _ => rfl
  | .multi, y :: ys, h => by
    have hxy : cmp x y ≠ .lt := by
      rw [← hswap]
      have : cmp y x ≠ .gt := h y (by simp)
      cases hc : cmp y x <;> simp_all [Ordering.swap]
    have ih := Placement.insert_of_before hswap x .multi ys fun z hz => h z (by simp [hz])
    simp only [Placement.insert] at ih ⊢
    simp [multiInsert, hxy, ih]

/-- **Rebuilding a container.**  Inserting the elements of a container in iteration order into
an empty container of the same kind gives it back. -/
theorem Placement.foldl_insert_of_ordered (hswap : ∀ a b, (cmp a b).swap = cmp b a)
    (p : Placement) : ∀ (xs acc : List α), p.Ordered cmp (acc ++ xs) →
      xs.foldl (p.insert cmp) acc = acc ++ xs
  | [], acc, _ => by simp
  | x :: xs, acc, h => by
    have hx : ∀ y ∈ acc, p.Before cmp y x :=
      fun y hy => (List.pairwise_append.mp h).2.2 y hy x (List.mem_cons_self x xs)
    rw [List.foldl_cons, p.insert_of_before hswap x acc hx,
      Placement.foldl_insert_of_ordered hswap p xs (acc ++ [x]) (by simpa using h)]
    simp

end Insertion

end Patterns
