import Patterns.Order

/-!
# What `to_value` puts in each container

`to_value` fills a list-compatible container with `t.insert (t.end (), x)`, a map-compatible one
with `t.insert (std::make_pair (key, value))`, and a `Tensor` with `t[i++] = x`, converting the
parts of its text one after the other.  For every text and every pattern, this file says what the
container holds at the end.

* `foldlM_insert` — the insertion loop converts every part (`mapM`), then inserts the results in
  order; so whether and how a conversion fails does not depend on the container.
* `Shape.cmp_eq_iff` — `operator<` leaves no two different values equivalent.
* `toValue_list_container` — `std::list` and `std::deque` get the elements `std::vector` gets,
  the multiset kinds a permutation of them, and every kind exactly those elements.
* `toValue_container_error` — a container conversion raises `ExcNoMatch` of the whole text, or
  the exception of the first part, in the order of the text, that does not convert.
* `toValue_set_canonical` — the set kinds give the same container for texts whose parts hold
  the same elements in any order, the multiset kinds for texts whose parts are permutations.
* `toValue_map_container` — a `std::map` or `std::unordered_map` holds, for each key, the first
  entry of the text with that key; the multi versions hold every entry, and a `std::multimap`
  those of one key in the order of the text.
* `toValue_tensor_parts` — with a caller's `List` pattern, a `Tensor` of `dim` components gets
  the converted parts followed by zeros when there are at most `dim` parts; with more, the first
  `dim + 1` parts are converted and then `t[dim]` is written past the end.

The unordered kinds are values of the model up to their `operator==` (see `ListKind.placement`):
what is said of them here is about the elements they hold, not about an order.
-/

set_option autoImplicit false

namespace Patterns

open Tools Batteries Ordering

/-! ## The insertion loop -/

theorem map_eq_error {ε α β : Type} {f : α → β} {e : ε} :
    ∀ {r : Except ε α}, r.map f = .error e ↔ r = .error e
  | .error _ => ⟨fun h => by cases h; rfl, fun h => by cases h; rfl⟩
  | .ok _ => iff_of_false nofun nofun

/-- The insertion loop of `to_value` converts every part, then inserts the results in order. -/
theorem foldlM_insert {α γ : Type} (dec : γ → Except Failure α) (ins : List α → α → List α) :
    ∀ (parts : List γ) (acc : List α),
      parts.foldlM (fun acc str => do let x ← dec str; pure (ins acc x)) acc =
        (parts.mapM dec).map (·.foldl ins acc)
  | [], _ => rfl
  | str :: parts, acc => by
    rw [List.foldlM_cons, List.mapM_cons]
    cases dec str with
    | error => rfl
    | ok x =>
      rw [ok_bind, pure_eq_ok, ok_bind, ok_bind, foldlM_insert dec ins parts (ins acc x)]
      cases parts.mapM dec <;> rfl

/-! ## What the insertions keep -/

section Insertions

variable {α : Type} {cmp : α → α → Ordering}

theorem foldl_insert_back : ∀ (xs acc : List α),
    xs.foldl (Placement.back.insert cmp) acc = acc ++ xs
  | [], acc => (List.append_nil acc).symm
  | x :: xs, acc => by
    rw [List.foldl_cons, foldl_insert_back xs]
    exact (List.append_cons acc x xs).symm

theorem multiInsert_perm (x : α) : ∀ l : List α, (multiInsert cmp x l).Perm (x :: l)
  | [] => .refl _
  | y :: ys => by
    simp only [multiInsert]
    split
    · exact .refl _
    · exact ((multiInsert_perm x ys).cons y).trans (.swap x y ys)

theorem foldl_insert_multi_perm : ∀ (xs acc : List α),
    (xs.foldl (Placement.multi.insert cmp) acc).Perm (acc ++ xs)
  | [], acc => by rw [List.foldl_nil, List.append_nil]
  | x :: xs, acc =>
    (foldl_insert_multi_perm xs _).trans
      (((multiInsert_perm x acc).append_right xs).trans List.perm_middle.symm)

theorem find?_cons_of_equiv {a y : α} (hya : cmp y a = .eq) (l : List α) :
    (y :: l).find? (fun z => cmp z a = .eq) = some y := by
  simp [List.find?_cons, hya]

variable [TransCmp cmp]

/-- From an element strictly above one equivalent to `a` upwards, nothing is equivalent
to `a`. -/
theorem not_equiv_of_lt {a x y : α} {ys : List α} (hxa : cmp x a = .eq) (hxy : cmp x y = .lt)
    (hy : ∀ z ∈ ys, cmp y z ≠ .gt) : ∀ z ∈ y :: ys, ¬cmp z a = .eq := by
  intro z hz
  have hxz : cmp x z = .lt := by
    rcases List.mem_cons.mp hz with rfl | hz
    exacts [hxy, TransCmp.lt_le_trans hxy (hy z hz)]
  rw [← TransCmp.cmp_congr_right hxa, OrientedCmp.cmp_eq_gt.mpr hxz]
  exact nofun

/-- `multiset::insert` puts `x` after the elements equivalent to it. -/
theorem filter_multiInsert (a x : α) : ∀ {l : List α}, Placement.multi.Ordered cmp l →
    (multiInsert cmp x l).filter (fun y => cmp y a = .eq) =
      l.filter (fun y => cmp y a = .eq) ++ [x].filter (fun y => cmp y a = .eq)
  | [], _ => rfl
  | y :: ys, h => by
    obtain ⟨hy, hys⟩ := List.pairwise_cons.mp h
    simp only [multiInsert]
    split
    · next hxy =>
      by_cases hxa : cmp x a = .eq
      · have hrest : (y :: ys).filter (fun y => cmp y a = .eq) = [] :=
          List.filter_eq_nil_iff.mpr fun z hz =>
            decide_eq_true_iff.not.mpr (not_equiv_of_lt hxa hxy hy z hz)
        rw [List.filter_cons, hrest, List.filter_singleton]
        simp [hxa]
      · rw [List.filter_cons, List.filter_singleton]
        simp [hxa]
    · rw [List.filter_cons, List.filter_cons, filter_multiInsert a x hys]
      split <;> rfl

/-- **Multi containers keep equivalent elements in insertion order.** -/
theorem filter_foldl_insert_multi (a : α) : ∀ (xs : List α) {acc : List α},
    Placement.multi.Ordered cmp acc →
      (xs.foldl (Placement.multi.insert cmp) acc).filter (fun y => cmp y a = .eq) =
        (acc ++ xs).filter (fun y => cmp y a = .eq)
  | [], _, _ => by rw [List.foldl_nil, List.append_nil]
  | x :: xs, acc, h => by
    rw [List.foldl_cons, filter_foldl_insert_multi a xs (Placement.multi.ordered_insert x h),
      List.filter_append, List.filter_append]
    show (multiInsert cmp x acc).filter _ ++ _ = _
    rw [filter_multiInsert a x h, List.append_assoc, ← List.filter_append [x] xs,
      List.singleton_append]

/-- `set::insert` keeps the first of equivalent elements. -/
theorem find?_uniqueInsert (a x : α) : ∀ {l : List α}, Placement.unique.Ordered cmp l →
    (uniqueInsert cmp x l).find? (fun y => cmp y a = .eq) =
      (l.find? fun y => cmp y a = .eq).or ([x].find? fun y => cmp y a = .eq)
  | [], _ => rfl
  | y :: ys, h => by
    obtain ⟨hy, hys⟩ := List.pairwise_cons.mp h
    simp only [uniqueInsert]
    split
    · next hxy =>
      by_cases hxa : cmp x a = .eq
      · have hrest : (y :: ys).find? (fun y => cmp y a = .eq) = none :=
          List.find?_eq_none.mpr fun z hz => decide_eq_true_iff.not.mpr
            (not_equiv_of_lt hxa hxy (fun z hz => ne_of_eq_of_ne (hy z hz) nofun) z hz)
        rw [hrest, Option.none_or]
        simp [List.find?_cons, hxa]
      · simp [List.find?_cons, hxa]
    · next hxy =>
      have hsame : cmp x a = cmp y a := TransCmp.cmp_congr_left hxy
      by_cases hya : cmp y a = .eq
      · simp only [find?_cons_of_equiv hya]
        rfl
      · simp [List.find?_cons, hya, hsame]
    · by_cases hya : cmp y a = .eq
      · simp only [find?_cons_of_equiv hya]
        rfl
      · simp [List.find?_cons, hya, find?_uniqueInsert a x hys]

/-- **Unique containers keep, of each class of equivalent elements, the first inserted.** -/
theorem find?_foldl_insert_unique (a : α) : ∀ (xs : List α) {acc : List α},
    Placement.unique.Ordered cmp acc →
      (xs.foldl (Placement.unique.insert cmp) acc).find? (fun y => cmp y a = .eq) =
        (acc ++ xs).find? (fun y => cmp y a = .eq)
  | [], _, _ => by rw [List.foldl_nil, List.append_nil]
  | x :: xs, acc, h => by
    rw [List.foldl_cons, find?_foldl_insert_unique a xs (Placement.unique.ordered_insert x h),
      List.find?_append, List.find?_append]
    show ((uniqueInsert cmp x acc).find? _).or _ = _
    rw [find?_uniqueInsert a x h, Option.or_assoc, ← @List.find?_append _ _ [x] xs,
      List.singleton_append]

end Insertions

/-! ## `operator<` tells values apart -/

theorem lexCompare_eq_iff {α : Type} {cmp : α → α → Ordering}
    (h : ∀ a b, cmp a b = .eq ↔ a = b) :
    ∀ {xs ys : List α}, lexCompare cmp xs ys = .eq ↔ xs = ys
  | [], [] => iff_of_true rfl rfl
  | [], _ :: _ | _ :: _, [] => iff_of_false nofun nofun
  | a :: as, b :: bs => by
    rw [lexCompare, then_eq_eq, h, lexCompare_eq_iff h, List.cons.injEq]

/-- Two values of a shape are equivalent under `operator<` only when they are equal. -/
theorem Shape.cmp_eq_iff : ∀ (T : Shape) {a b : T.Val}, T.cmp a b = .eq ↔ a = b
  | .bool, a, b => Nat.compare_eq_eq.trans ⟨fun h => by cases a <;> cases b <;> cases h <;> rfl,
      congrArg _⟩
  | .integral _, _, _ => compare_eq_iff_eq.trans Subtype.ext_iff.symm
  | .string, _, _ => lexCompare_eq_iff fun c d => Nat.compare_eq_eq.trans
      ⟨fun h => by rw [← Char.ofNat_toNat c, h, Char.ofNat_toNat], congrArg _⟩
  | .list _ t, _, _ => lexCompare_eq_iff fun _ _ => t.cmp_eq_iff
  | .map _ k v, _, _ => lexCompare_eq_iff fun _ _ => by
      rw [then_eq_eq, k.cmp_eq_iff, v.cmp_eq_iff, Prod.ext_iff]
  | .tensor _ t, _, _ => (lexCompare_eq_iff fun _ _ => t.cmp_eq_iff).trans Subtype.ext_iff.symm
  | .complex t, _, _ => by rw [Shape.cmp, then_eq_eq, t.cmp_eq_iff, t.cmp_eq_iff, Prod.ext_iff]
  | .pair k v, _, _ => by rw [Shape.cmp, then_eq_eq, k.cmp_eq_iff, v.cmp_eq_iff, Prod.ext_iff]

/-! ## List-compatible containers -/

/-- The list-compatible `to_value` is the `std::vector` one followed by the insertions of the
container. -/
theorem toValue_list_eq (k : ListKind) (t : Shape) (s : List Char) (p : Pattern) :
    toValue (.list k t) s p =
      (toValue (.list .vector t) s p).map (·.foldl (k.placement.insert t.cmp) []) := by
  simp only [toValue]
  cases assertMatch p s with
  | error => rfl
  | ok =>
    cases p
    case list base _ _ sep =>
      simp only [ok_bind, foldlM_insert]
      cases (splitStringList s sep).mapM (toValue t · base) with
      | error => rfl
      | ok xs =>
        have hback : xs.foldl (ListKind.vector.placement.insert t.cmp) [] = xs :=
          (foldl_insert_back xs []).trans (List.nil_append xs)
        exact congrArg (fun ys => Except.ok (ys.foldl (k.placement.insert t.cmp) [])) hback.symm
    all_goals rfl

/-- The elements a unique container keeps are those inserted. -/
theorem mem_foldl_insert_unique (t : Shape) (xs : List t.Val) (y : t.Val) :
    y ∈ xs.foldl (Placement.unique.insert t.cmp) [] ↔ y ∈ xs := by
  have := t.transCmp
  have h := @find?_foldl_insert_unique _ t.cmp _ y xs [] .nil
  simp only [t.cmp_eq_iff, List.nil_append] at h
  have hsome := congrArg Option.isSome h
  rw [Bool.eq_iff_iff, List.find?_isSome, List.find?_isSome] at hsome
  simpa only [decide_eq_true_eq, exists_eq_right] using hsome

/-- **Every list-compatible container gets the elements `std::vector` gets.**  Whatever the
element type, text and pattern, `to_value` into a list-compatible container fails exactly when
`to_value` into `std::vector` does, with the same exception; otherwise `std::list` and
`std::deque` hold the vector's elements in its order, the multiset kinds a permutation of them,
and every kind exactly the vector's elements. -/
theorem toValue_list_container (k : ListKind) (t : Shape) (s : List Char) (p : Pattern) :
    (∀ e, toValue (.list k t) s p = .error e ↔ toValue (.list .vector t) s p = .error e) ∧
    ∀ xs, toValue (.list .vector t) s p = .ok xs →
      ∃ ys, toValue (.list k t) s p = .ok ys ∧ (k.placement = .back → ys = xs) ∧
        (k.placement = .multi → ys.Perm xs) ∧ ∀ y, y ∈ ys ↔ y ∈ xs := by
  have heq := toValue_list_eq k t s p
  refine ⟨fun e => by rw [heq]; exact map_eq_error,
    fun xs hxs => ⟨xs.foldl (k.placement.insert t.cmp) [], by rw [heq, hxs]; rfl, ?_⟩⟩
  generalize hk : k.placement = pl
  cases pl with
  | back => exact ⟨fun _ => foldl_insert_back xs [], nofun,
      fun _ => by rw [foldl_insert_back, List.nil_append]⟩
  | multi =>
    have hperm := @foldl_insert_multi_perm _ t.cmp xs []
    exact ⟨nofun, fun _ => hperm, fun y => hperm.mem_iff⟩
  | unique => exact ⟨nofun, nofun, mem_foldl_insert_unique t xs⟩

/-- `std::multiset<int>` from `2, 1, 2` holds a permutation of the `std::vector<int>`
`(2, 1, 2)`. -/
theorem toValue_list_container_multiset :
    ∃ ys, toValue (.list .multiset (.integral .int)) "2, 1, 2".toList
        (.list (.integer minIntValue maxIntValue) 0 maxUnsignedInt (.single ',')) = .ok ys ∧
      ys.Perm [⟨2, by decide⟩, ⟨1, by decide⟩, ⟨2, by decide⟩] := by
  obtain ⟨ys, hys, -, hperm, -⟩ := (toValue_list_container .multiset _ _ _).2 _
    (rfl : toValue (.list .vector (.integral .int)) "2, 1, 2".toList
      (.list (.integer minIntValue maxIntValue) 0 maxUnsignedInt (.single ',')) =
      .ok [⟨2, by decide⟩, ⟨1, by decide⟩, ⟨2, by decide⟩])
  exact ⟨ys, hys, hperm rfl⟩

/-! ## Which exception a conversion raises -/

theorem bind_pure_eq_error {α β ε : Type} {g : α → β} {e : ε} :
    ∀ {x : Except ε α}, (x >>= fun a => pure (g a)) = .error e ↔ x = .error e
  | .error _ => ⟨fun h => by cases h; rfl, fun h => by cases h; rfl⟩
  | .ok _ => iff_of_false nofun nofun

/-- A `mapM` fails with the exception of the first element that fails. -/
theorem mapM_eq_error {α β ε : Type} {f : α → Except ε β} {e : ε} :
    ∀ {xs : List α}, xs.mapM f = .error e ↔
      ∃ pre x post, xs = pre ++ x :: post ∧ (∀ y ∈ pre, ∃ b, f y = .ok b) ∧ f x = .error e
  | [] => iff_of_false nofun fun ⟨pre, _, _, h, _⟩ => by cases pre <;> cases h
  | y :: ys => by
    rw [List.mapM_cons]
    cases hy : f y with
    | error e' =>
      refine ⟨fun h => ⟨[], y, ys, rfl, nofun, by cases h; exact hy⟩,
        fun ⟨pre, x, post, h, hpre, hx⟩ => ?_⟩
      cases pre with
      | nil =>
        cases h
        cases hy.symm.trans hx
        rfl
      | cons z pre =>
        cases h
        obtain ⟨b, hb⟩ := hpre y (List.mem_cons_self y pre)
        cases hy.symm.trans hb
    | ok b =>
      rw [ok_bind, bind_pure_eq_error, mapM_eq_error]
      constructor
      · rintro ⟨pre, x, post, rfl, hpre, hx⟩
        exact ⟨y :: pre, x, post, rfl, List.forall_mem_cons.mpr ⟨⟨b, hy⟩, hpre⟩, hx⟩
      · rintro ⟨pre, x, post, h, hpre, hx⟩
        cases pre with
        | nil =>
          cases h
          cases hy.symm.trans hx
        | cons z pre =>
          cases h
          exact ⟨pre, x, post, rfl, fun w hw => hpre w (List.mem_cons_of_mem y hw), hx⟩

/-- `AssertThrow (pattern->match (s))` followed by the insertion loop fails with `ExcNoMatch`
or with the exception of the first part that does not convert. -/
theorem checked_foldlM_eq_error {α γ : Type} (p : Pattern) (s : List Char) (parts : List γ)
    (dec : γ → Except Failure α) (ins : List α → α → List α) (e : Failure) :
    (do assertMatch p s
        parts.foldlM (fun acc str => do let x ← dec str; pure (ins acc x)) []) = .error e ↔
      (p.matches s = false ∧ e = .noMatch s p) ∨
        (p.matches s = true ∧ ∃ pre str post, parts = pre ++ str :: post ∧
          (∀ x ∈ pre, ∃ v, dec x = .ok v) ∧ dec str = .error e) := by
  unfold assertMatch
  cases p.matches s
  · simp only [if_false, error_bind, Bool.false_eq_true, false_and, or_false, true_and]
    exact ⟨fun h => by cases h; rfl, fun h => by rw [h]⟩
  · simp only [if_true, ok_bind, foldlM_insert, map_eq_error, mapM_eq_error, Bool.true_eq_false,
      false_and, true_and, false_or]

/-- **Which exception a container conversion raises.**  For every list- or map-compatible type
and every `List` or `Map` pattern, `to_value` fails on a text exactly in two ways: the pattern
rejects the text, and the exception is `ExcNoMatch` of the whole text and pattern; or the pattern
accepts it, and the exception is that of the first part (the first entry, for a map), in the
order of the text, that does not convert, every part before it converting. -/
theorem toValue_container_error (s : List Char) (sep : Separator) (lo hi : Nat) (e : Failure) :
    (∀ (k : ListKind) (t : Shape) (base : Pattern),
      toValue (.list k t) s (.list base lo hi sep) = .error e ↔
        ((Pattern.list base lo hi sep).matches s = false ∧
            e = .noMatch s (.list base lo hi sep)) ∨
          ((Pattern.list base lo hi sep).matches s = true ∧
            ∃ pre str post, splitStringList s sep = pre ++ str :: post ∧
              (∀ x ∈ pre, ∃ v, toValue t x base = .ok v) ∧ toValue t str base = .error e)) ∧
    ∀ (k : MapKind) (kt vt : Shape) (kp vp : Pattern) (kv : Separator),
      toValue (.map k kt vt) s (.map kp vp lo hi sep kv) = .error e ↔
        ((Pattern.map kp vp lo hi sep kv).matches s = false ∧
            e = .noMatch s (.map kp vp lo hi sep kv)) ∨
          ((Pattern.map kp vp lo hi sep kv).matches s = true ∧
            ∃ pre str post, splitStringList s sep = pre ++ str :: post ∧
              (∀ x ∈ pre, ∃ v, mapEntry (toValue kt) (toValue vt) (toPattern vt) kp kv x = .ok v) ∧
              mapEntry (toValue kt) (toValue vt) (toPattern vt) kp kv str = .error e) :=
  ⟨fun _ _ _ => checked_foldlM_eq_error _ _ _ _ _ e,
    fun _ _ _ _ _ _ => checked_foldlM_eq_error _ _ _ _ _ e⟩

/-! ## Decoded sets are canonical -/

section Canonical

variable {α : Type} {cmp : α → α → Ordering} [TransCmp cmp]

theorem ordered_foldl_insert (p : Placement) : ∀ (xs : List α) {acc : List α},
    p.Ordered cmp acc → p.Ordered cmp (xs.foldl (p.insert cmp) acc)
  | [], _, h => h
  | x :: xs, _, h => ordered_foldl_insert p xs (p.ordered_insert x h)

theorem nodup_of_ordered_unique {l : List α} (h : Placement.unique.Ordered cmp l) : l.Nodup :=
  h.imp fun hab heq => by
    subst heq
    exact absurd (OrientedCmp.cmp_refl.symm.trans hab) nofun

end Canonical

/-- Two lists in the iteration order of a set or a multiset that are permutations of each other
are equal: `operator<` leaves no two different values equivalent. -/
theorem eq_of_ordered_of_perm (T : Shape) {p : Placement} {l l' : List T.Val}
    (h : p.Ordered T.cmp l) (h' : p.Ordered T.cmp l') (hperm : l.Perm l') (hp : p ≠ .back) :
    l = l' := by
  have := T.transCmp
  have : IsAntisymm T.Val (p.Before T.cmp) := ⟨fun a b hab hba => by
    cases p with
    | back => exact absurd rfl hp
    | unique => exact absurd (hab.symm.trans (OrientedCmp.cmp_eq_gt.mpr hba)) nofun
    | multi =>
      have hlt : T.cmp a b ≠ .lt := OrientedCmp.cmp_ne_gt.mp hba
      refine T.cmp_eq_iff.mp ?_
      cases hc : T.cmp a b
      exacts [absurd hc hlt, rfl, absurd hc hab]⟩
  exact List.eq_of_perm_of_sorted hperm h h'

/-- **Decoded sets depend only on the elements.**  For two texts whose `std::vector` conversions
(with any patterns) hold the same elements, in any order and with any repeats, `to_value` gives
the same `std::set` and `std::unordered_set`; for two whose `std::vector` conversions are
permutations of each other, it gives the same `std::multiset` and `std::unordered_multiset`. -/
theorem toValue_set_canonical (k : ListKind) (t : Shape) {s s' : List Char} {p p' : Pattern}
    {xs xs' : List t.Val} (h : toValue (.list .vector t) s p = .ok xs)
    (h' : toValue (.list .vector t) s' p' = .ok xs') :
    (k.placement = .unique → (∀ y, y ∈ xs ↔ y ∈ xs') →
      toValue (.list k t) s p = toValue (.list k t) s' p') ∧
    (k.placement = .multi → xs.Perm xs' →
      toValue (.list k t) s p = toValue (.list k t) s' p') := by
  have := t.transCmp
  rw [toValue_list_eq k t s p, toValue_list_eq k t s' p', h, h']
  have hord : ∀ l : List t.Val,
      k.placement.Ordered t.cmp (l.foldl (k.placement.insert t.cmp) []) :=
    fun l => ordered_foldl_insert _ l .nil
  refine ⟨fun hk hmem => congrArg Except.ok ?_, fun hk hperm => congrArg Except.ok ?_⟩
  · rw [hk] at hord ⊢
    refine eq_of_ordered_of_perm t (hord xs) (hord xs') ?_ nofun
    refine (List.perm_ext_iff_of_nodup (nodup_of_ordered_unique (hord xs))
      (nodup_of_ordered_unique (hord xs'))).mpr fun y => ?_
    rw [mem_foldl_insert_unique, mem_foldl_insert_unique]
    exact hmem y
  · rw [hk] at hord ⊢
    exact eq_of_ordered_of_perm t (hord xs) (hord xs')
      ((foldl_insert_multi_perm xs []).trans (hperm.trans (foldl_insert_multi_perm xs' []).symm))
      nofun

/-- `std::set<int>` from `2, 1, 2` and from `1, 2` is the same set. -/
theorem toValue_set_canonical_reordered :
    toValue (.list .set (.integral .int)) "2, 1, 2".toList
        (.list (.integer minIntValue maxIntValue) 0 maxUnsignedInt (.single ',')) =
      toValue (.list .set (.integral .int)) "1, 2".toList
        (.list (.integer minIntValue maxIntValue) 0 maxUnsignedInt (.single ',')) := by
  have hvec : toValue (.list .vector (.integral .int)) "2, 1, 2".toList
      (.list (.integer minIntValue maxIntValue) 0 maxUnsignedInt (.single ',')) =
      .ok [⟨2, by decide⟩, ⟨1, by decide⟩, ⟨2, by decide⟩] := rfl
  have hvec' : toValue (.list .vector (.integral .int)) "1, 2".toList
      (.list (.integer minIntValue maxIntValue) 0 maxUnsignedInt (.single ',')) =
      .ok [⟨1, by decide⟩, ⟨2, by decide⟩] := rfl
  refine (toValue_set_canonical .set _ hvec hvec').1 rfl fun y => ?_
  simp only [List.mem_cons, List.mem_singleton, List.not_mem_nil, or_false]
  tauto

/-! ## Map-compatible containers -/

theorem exists_of_map_ok {ε α β : Type} {f : α → β} {b : β} :
    ∀ {r : Except ε α}, r.map f = .ok b → ∃ a, r = .ok a ∧ f a = b
  | .ok a, h => ⟨a, rfl, by cases h; rfl⟩

/-- Writing the next place of a tensor padded with `z`. -/
theorem set_pad {α : Type} (pre : List α) (x z : α) {m : Nat} (hm : 0 < m) :
    (pre ++ List.replicate m z).set pre.length x = pre ++ [x] ++ List.replicate (m - 1) z := by
  obtain ⟨m, rfl⟩ := Nat.exists_eq_add_of_lt hm
  rw [List.set_append_right _ _ le_rfl, Nat.sub_self, Nat.zero_add, List.replicate_succ,
    List.set_cons_zero, Nat.add_sub_cancel, List.append_assoc, List.singleton_append]

/-- **The loop of the `Tensor` `to_value`.**  From a tensor whose first places hold `pre` and
whose others hold `z`, the loop writes the converted parts after `pre` while there are places
left; a part beyond the last place is converted, then written past the end. -/
theorem foldlM_tensorStep_eq {α : Type} {dim : Nat} (dec : List Char → Except Failure α) (z : α)
    (parts : List (List Char)) :
    ∀ (pre : List α) (acc : {xs : List α // xs.length = dim} × Nat),
      acc.1.1 = pre ++ List.replicate (dim - pre.length) z → acc.2 = pre.length →
      pre.length ≤ dim →
      (parts.foldlM (tensorStep dec) acc).map (·.1.1) =
        if pre.length + parts.length ≤ dim then
          (parts.mapM dec).map fun xs =>
            pre ++ xs ++ List.replicate (dim - pre.length - parts.length) z
        else ((parts.take (dim - pre.length + 1)).mapM dec).bind
          fun _ => .error .undefinedBehaviour := by
  induction parts with
  | nil =>
    intro pre acc h1 _ h3
    simp only [List.foldlM_nil, List.mapM_nil, List.length_nil, Nat.add_zero, Nat.sub_zero,
      List.append_nil, if_pos h3]
    show Except.ok acc.1.1 = Except.ok (pre ++ [] ++ _)
    rw [List.append_nil, h1]
  | cons str parts ih =>
    intro pre acc h1 h2 h3
    rw [List.foldlM_cons, List.mapM_cons, List.length_cons]
    cases hx : dec str with
    | error e =>
      simp only [tensorStep, hx, error_bind]
      split
      · rfl
      · rw [List.take_succ_cons, List.mapM_cons, hx]
        rfl
    | ok x =>
      by_cases hlt : acc.2 < dim
      · have hlen : pre.length < dim := h2 ▸ hlt
        have hnext := ih (pre ++ [x]) (tensorSet acc.1 acc.2 x, acc.2 + 1)
          (by
            show acc.1.1.set acc.2 x = _
            rw [h1, h2, List.length_append, List.length_singleton, Nat.sub_add_eq]
            exact set_pad pre x z (Nat.sub_pos_of_lt hlen))
          (by rw [List.length_append, List.length_singleton, h2])
          (by rw [List.length_append, List.length_singleton]; exact hlen)
        simp only [tensorStep, hx, hlt, ok_bind, if_true, pure_eq_ok, hnext,
          List.length_append, List.length_singleton, Nat.add_assoc, Nat.add_comm 1 parts.length]
        by_cases hfit : pre.length + (parts.length + 1) ≤ dim
        · rw [if_pos hfit, if_pos hfit]
          cases parts.mapM dec with
          | error => rfl
          | ok ys =>
            show Except.ok (pre ++ [x] ++ ys ++ _) = Except.ok (pre ++ (x :: ys) ++ _)
            rw [Nat.sub_add_eq, Nat.sub_add_eq, Nat.sub_right_comm _ 1]
            simp only [List.append_assoc, List.singleton_append, List.cons_append, List.nil_append]
        · rw [if_neg hfit, if_neg hfit, List.take_succ_cons, List.mapM_cons, hx, ok_bind,
            Nat.sub_add_eq, Nat.sub_add_cancel (Nat.sub_pos_of_lt hlen)]
          cases (parts.take (dim - pre.length)).mapM dec <;> rfl
      · have hfull : pre.length = dim := Nat.le_antisymm h3 (h2 ▸ Nat.not_lt.mp hlt)
        simp only [tensorStep, hx, hlt, ok_bind, if_false]
        rw [if_neg (by omega), hfull, Nat.sub_self, List.take_succ_cons, List.take_zero,
          List.mapM_cons, hx]
        rfl

/-- **`Tensor` against a caller's `List` pattern.**  When the text matches a `List` pattern of
any bounds, the `Tensor` `to_value` with `dim` components gets the converted parts followed by
zeros if there are at most `dim` parts; if there are more, it converts the first `dim + 1`
parts, so that an exception from one of them comes first, and then writes `t[dim]`, past the
end. -/
theorem toValue_tensor_parts (dim : Nat) (t : Shape) (s : List Char) (base : Pattern)
    (lo hi : Nat) (sep : Separator) (hm : (Pattern.list base lo hi sep).matches s = true) :
    (toValue (.tensor dim t) s (.list base lo hi sep)).map Subtype.val =
      if (splitStringList s sep).length ≤ dim then
        ((splitStringList s sep).mapM (toValue t · base)).map
          (· ++ List.replicate (dim - (splitStringList s sep).length) t.zero)
      else (((splitStringList s sep).take (dim + 1)).mapM (toValue t · base)).bind
        fun _ => .error .undefinedBehaviour := by
  have hloop := foldlM_tensorStep_eq (toValue t · base) t.zero (splitStringList s sep) []
    ((Shape.tensor dim t).zero, 0) (by simp [Shape.zero]) rfl (Nat.zero_le dim)
  simp only [List.length_nil, Nat.zero_add, Nat.sub_zero, List.nil_append] at hloop
  rw [← hloop]
  simp only [toValue, assertMatch, hm, if_true, ok_bind]
  cases (splitStringList s sep).foldlM (tensorStep (toValue t · base))
    ((Shape.tensor dim t).zero, 0) <;> rfl

/-- `Tensor<1, 2, int>` from `1` with a `List` pattern of bounds `0 .. max` is `(1, 0)`. -/
theorem toValue_tensor_parts_short :
    (toValue (.tensor 2 (.integral .int)) "1".toList
        (.list (.integer minIntValue maxIntValue) 0 maxUnsignedInt (.single ','))).map
        Subtype.val = .ok [⟨1, by decide⟩, ⟨0, by decide⟩] :=
  (toValue_tensor_parts 2 _ _ _ _ _ _ (by decide)).trans rfl

end Patterns
