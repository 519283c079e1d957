import Patterns.Decode

/-!
# Iteration order of the ordered containers

`to_value` builds a container by inserting the converted parts one by one
(`t.insert (t.end (), x)` for a list-compatible `T`, `t.insert (std::make_pair (key, value))`
for a map-compatible one).  A `std::set` or `std::map` iterates in the order of `operator<`, which
the model also uses as the canonical order of the unordered kinds.

* `Shape.transCmp` — `operator<` on the values of every shape is a total preorder.
* `Placement.mem_insert`, `Placement.ordered_insert` — one insertion adds only its element and
  keeps the iteration order.
-/

set_option autoImplicit false

namespace Patterns

open Tools Batteries Ordering

/-! ## `operator<` is a total preorder -/

theorem transCmp_nat : TransCmp (compare : Nat → Nat → Ordering) :=
  TransCmp.compareOfLessAndEq Nat.lt_irrefl Nat.lt_trans fun h1 h2 =>
    Nat.le_antisymm (Nat.not_lt.mp h2) (Nat.not_lt.mp h1)

theorem transCmp_int : TransCmp (compare : Int → Int → Ordering) :=
  TransCmp.compareOfLessAndEq Int.lt_irrefl Int.lt_trans fun h1 h2 =>
    Int.le_antisymm (Int.not_lt.mp h2) (Int.not_lt.mp h1)

section Lex

variable {α : Type} {cmp : α → α → Ordering} [TransCmp cmp]

theorem lexCompare_le_trans : ∀ {xs ys zs : List α}, lexCompare cmp xs ys ≠ .gt →
    lexCompare cmp ys zs ≠ .gt → lexCompare cmp xs zs ≠ .gt
  | [], _, [], _, _ => nofun
  | [], _, _ :: _, _, _ => nofun
  | _ :: _, [], _, h1, _ => absurd rfl h1
  | _ :: _, _ :: _, [], _, h2 => absurd rfl h2
  | a :: _, b :: _, c :: _, h1, h2 => by
    simp only [lexCompare, ne_eq, then_eq_gt, not_or, not_and] at h1 h2 ⊢
    refine ⟨TransCmp.le_trans h1.1 h2.1, fun e1 e2 => ?_⟩
    match ab : cmp a b with
    | .gt => exact h1.1 ab
    | .eq => exact lexCompare_le_trans (h1.2 ab) (h2.2 (TransCmp.cmp_congr_left ab ▸ e1)) e2
    | .lt => exact h2.1 (OrientedCmp.cmp_eq_gt.2 (TransCmp.cmp_congr_left e1 ▸ ab))

/-- `std::lexicographical_compare` over a total preorder is a total preorder. -/
theorem lexCompare_transCmp : TransCmp (lexCompare cmp) where
  symm _ _ := lexCompare_swap fun a _ b => OrientedCmp.symm a b
  le_trans := lexCompare_le_trans

end Lex

/-- **`operator<` is a total preorder** on the values of every shape: built from the order of
numbers (of `bool` and `char` by their codes) by lexicographic comparison and comparison by
key. -/
theorem Shape.transCmp : ∀ T : Shape, TransCmp T.cmp
  | .bool => have := transCmp_nat; inferInstanceAs (TransCmp (byKey Bool.toNat compare))
  | .integral _ => have := transCmp_int; inferInstanceAs (TransCmp (byKey Subtype.val compare))
  | .string => have := transCmp_nat; @lexCompare_transCmp _ (byKey Char.toNat compare) _
  | .list _ t => have := t.transCmp; lexCompare_transCmp
  | .map _ k v =>
    have := k.transCmp
    have := v.transCmp
    @lexCompare_transCmp _ (compareLex (byKey Prod.fst k.cmp) (byKey Prod.snd v.cmp)) _
  | .tensor _ t =>
    have := t.transCmp
    have := @lexCompare_transCmp _ t.cmp _
    inferInstanceAs (TransCmp (byKey Subtype.val (lexCompare t.cmp)))
  | .complex t =>
    have := t.transCmp
    inferInstanceAs (TransCmp (compareLex (byKey Prod.fst t.cmp) (byKey Prod.snd t.cmp)))
  | .pair k v =>
    have := k.transCmp
    have := v.transCmp
    inferInstanceAs (TransCmp (compareLex (byKey Prod.fst k.cmp) (byKey Prod.snd v.cmp)))

/-! ## One insertion -/

section Insertion

variable {α : Type} {cmp : α → α → Ordering}

/-- `t.insert (x)` adds no element but `x`. -/
theorem Placement.mem_insert {x z : α} :
    ∀ (p : Placement) {ys : List α}, z ∈ p.insert cmp ys x → z = x ∨ z ∈ ys
  | .back, _, h => by simpa [Placement.insert, or_comm] using h
  | .unique, [], h | .multi, [], h => .inl (List.mem_singleton.mp h)
  | .unique, y :: ys, h => by
    simp only [Placement.insert, uniqueInsert] at h
    split at h
    · simpa using h
    · exact .inr h
    · rcases List.mem_cons.mp h with rfl | h
      · exact .inr (List.mem_cons_self _ _)
      · exact (Placement.mem_insert .unique h).imp_right (List.mem_cons_of_mem y)
  | .multi, y :: ys, h => by
    simp only [Placement.insert, multiInsert] at h
    split at h
    · simpa using h
    · rcases List.mem_cons.mp h with rfl | h
      · exact .inr (List.mem_cons_self _ _)
      · exact (Placement.mem_insert .multi h).imp_right (List.mem_cons_of_mem y)

variable [TransCmp cmp]

/-- **One insertion keeps the iteration order** of every container kind. -/
theorem Placement.ordered_insert (x : α) :
    ∀ (p : Placement) {ys : List α}, p.Ordered cmp ys → p.Ordered cmp (p.insert cmp ys x)
  | .back, _, _ => List.pairwise_of_forall fun _ _ => trivial
  | .unique, [], _ | .multi, [], _ => List.pairwise_singleton _ _
  | .unique, y :: ys, h => by
    obtain ⟨hy, hys⟩ := List.pairwise_cons.mp h
    have ih := Placement.ordered_insert x .unique hys
    simp only [Placement.Ordered, Placement.insert, uniqueInsert] at ih ⊢
    split
    · next hxy =>
      refine .cons (fun z hz => ?_) h
      rcases List.mem_cons.mp hz with rfl | hz
      exacts [hxy, TransCmp.lt_trans hxy (hy z hz)]
    · exact h
    · next hxy =>
      refine .cons (fun z hz => ?_) ih
      rcases Placement.mem_insert .unique hz with rfl | hz
      exacts [OrientedCmp.cmp_eq_gt.mp hxy, hy z hz]
  | .multi, y :: ys, h => by
    obtain ⟨hy, hys⟩ := List.pairwise_cons.mp h
    have ih := Placement.ordered_insert x .multi hys
    simp only [Placement.Ordered, Placement.insert, multiInsert] at ih ⊢
    split
    · next hxy =>
      refine .cons (fun z hz => ?_) h
      rcases List.mem_cons.mp hz with rfl | hz
      exacts [ne_of_eq_of_ne hxy nofun,
        ne_of_eq_of_ne (TransCmp.lt_le_trans hxy (hy z hz)) nofun]
    · next hxy =>
      refine .cons (fun z hz => ?_) ih
      rcases Placement.mem_insert .multi hz with rfl | hz
      exacts [OrientedCmp.cmp_ne_gt.mpr hxy, hy z hz]

end Insertion

end Patterns
