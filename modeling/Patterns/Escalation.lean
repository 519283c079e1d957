import Patterns.Convert

/-!
# Separator escalation

`to_pattern` picks the separators of a `List` or `Map` node from the two tables by the ranks of
its shape: position `list_rank - 1` (`list_rank` for a pair, which keeps the separator of the level
above) and `map_rank - 1`.  The tables hold four entries each.

* `toPattern_separator` — the node of `toPattern T` carries the table entries at
  `T.listSeparatorIndex` and `T.mapSeparatorIndex`, and its sub-patterns are those of the
  sub-shapes; `exists_subpattern_of_mem`, `exists_subshape_of_mem` — so the nodes below the root
  of `toPattern T` are the patterns of the proper sub-shapes of `T`.
* `separator_index_escalation` — the positions strictly decrease going down the shape, except
  for the list position of a pair node, which repeats the one above it.
* `separator_escalation` — the same, read off the nodes of the pattern `to_pattern` builds: the
  separators they split on sit at strictly smaller positions of the tables.
* `toPattern_isSome_iff` — `to_pattern` stays inside the tables exactly when every node's
  positions are below `4`.
* `toPattern_in_range` — for ranks at most `4`, that is when every pair node has list rank at
  most `3`; `toPattern_pair_rank_four` — a pair of list rank `4` reads past the end.
-/

set_option autoImplicit false

namespace Patterns

open RankInfo Tools

namespace Shape

/-- The position in `default_list_separator` that `to_pattern` reads for the node of `T`. -/
def listSeparatorIndex : Shape → Option Nat
  | .bool | .integral _ | .string => none
  | .list k t => some (listRank (.list k t) - 1)
  | .map k kt vt => some (listRank (.map k kt vt) - 1)
  | .tensor dim t => some (listRank (.tensor dim t) - 1)
  | .complex t => some (listRank (.complex t) - 1)
  | .pair kt vt => some (listRank (.pair kt vt))

/-- The position in `default_map_separator` that `to_pattern` reads for the node of `T`. -/
def mapSeparatorIndex : Shape → Option Nat
  | .bool | .integral _ | .string | .list _ _ | .tensor _ _ | .complex _ => none
  | .map k kt vt => some (mapRank (.map k kt vt) - 1)
  | .pair kt vt => some (mapRank (.pair kt vt) - 1)

/-- The immediate sub-shapes: `value_type`, or `key_type` and `mapped_type`. -/
def children : Shape → List Shape
  | .bool | .integral _ | .string => []
  | .list _ t | .tensor _ t | .complex t => [t]
  | .map _ k v | .pair k v => [k, v]

/-- The shapes strictly below `T`: the nodes of its pattern tree other than the root. -/
def properSubshapes : Shape → List Shape
  | .bool | .integral _ | .string => []
  | .list _ t | .tensor _ t | .complex t => t :: t.properSubshapes
  | .map _ k v | .pair k v => k :: v :: (k.properSubshapes ++ v.properSubshapes)

/-- `T` is a `std::pair`. -/
def isPair : Shape → Bool
  | .pair _ _ => true
  | _ => false

end Shape

/-- The root separator of a `List` or `Map` pattern. -/
def Pattern.separator? : Pattern → Option Separator
  | .list _ _ _ sep => some sep
  | .map _ _ _ _ sep _ => some sep
  | _ => none

/-- The key/value separator of a `Map` pattern. -/
def Pattern.keyValueSeparator? : Pattern → Option Separator
  | .map _ _ _ _ _ kv => some kv
  | _ => none

/-- The sub-patterns of a pattern. -/
def Pattern.children : Pattern → List Pattern
  | .list p _ _ _ => [p]
  | .map kp vp _ _ _ _ => [kp, vp]
  | _ => []

/-- The nodes of a pattern tree below its root. -/
def Pattern.properSubpatterns : Pattern → List Pattern
  | .list p _ _ _ => p :: p.properSubpatterns
  | .map kp vp _ _ _ _ => kp :: vp :: (kp.properSubpatterns ++ vp.properSubpatterns)
  | _ => []

/-! ## What `to_pattern` builds -/

/-- **The pattern tree follows the shape.**  When `to_pattern` returns, the root of its pattern
holds the table entries at the positions `listSeparatorIndex` and `mapSeparatorIndex` name, and
its sub-patterns are the patterns of the sub-shapes. -/
theorem toPattern_separator {T : Shape} {p : Pattern} (h : toPattern T = some p) :
    p.separator? = T.listSeparatorIndex.bind (defaultListSeparator[·]?) ∧
      p.keyValueSeparator? = T.mapSeparatorIndex.bind (defaultMapSeparator[·]?) ∧
      T.children.map toPattern = p.children.map some := by
  cases T with
  | bool | integral _ | string => cases h; exact ⟨rfl, rfl, rfl⟩
  | list k t =>
    obtain ⟨base, sep, hb, hs, rfl⟩ := toPattern_list.mp h
    exact ⟨hs.symm, rfl, by rw [Shape.children, List.map_singleton, hb]; rfl⟩
  | tensor dim t =>
    obtain ⟨base, sep, hb, hs, rfl⟩ := toPattern_tensor.mp h
    exact ⟨hs.symm, rfl, by rw [Shape.children, List.map_singleton, hb]; rfl⟩
  | complex t =>
    obtain ⟨base, sep, hb, hs, rfl⟩ := toPattern_complex.mp h
    exact ⟨hs.symm, rfl, by rw [Shape.children, List.map_singleton, hb]; rfl⟩
  | map k kt vt =>
    obtain ⟨kp, vp, sep, kv, hk, hv, hs, hkv, rfl⟩ := toPattern_map.mp h
    exact ⟨hs.symm, hkv.symm,
      by rw [Shape.children, List.map_cons, List.map_singleton, hk, hv]; rfl⟩
  | pair kt vt =>
    obtain ⟨kp, vp, sep, kv, hk, hv, hs, hkv, rfl⟩ := toPattern_pair.mp h
    exact ⟨hs.symm, hkv.symm,
      by rw [Shape.children, List.map_cons, List.map_singleton, hk, hv]; rfl⟩

/-! ## Ranks down the tree -/

/-- A sub-shape has a smaller list rank than its parent, except under a pair, and a smaller map
rank under a map or a pair. -/
theorem rank_child {N c : Shape} (hc : c ∈ N.children) :
    listRank c + (if N.isPair then 0 else 1) ≤ listRank N ∧
      mapRank c + (if N.mapSeparatorIndex.isSome then 1 else 0) ≤ mapRank N := by
  cases N <;> simp [Shape.children] at hc <;> rcases hc with rfl | rfl <;>
    simp only [Shape.isPair, Shape.mapSeparatorIndex, Option.isSome, listRank, mapRank,
      Bool.false_eq_true, ↓reduceIte] <;> omega

theorem sizeOf_lt_of_mem_children {N c : Shape} (hc : c ∈ N.children) : sizeOf c < sizeOf N := by
  cases N <;> simp [Shape.children] at hc <;> rcases hc with rfl | rfl <;>
    simp only [Shape.list.sizeOf_spec, Shape.map.sizeOf_spec, Shape.tensor.sizeOf_spec,
      Shape.complex.sizeOf_spec, Shape.pair.sizeOf_spec] <;> omega

theorem mem_properSubshapes {N M : Shape} :
    M ∈ N.properSubshapes ↔ ∃ c ∈ N.children, M = c ∨ M ∈ c.properSubshapes := by
  cases N <;> simp only [Shape.properSubshapes, Shape.children, List.mem_cons, List.mem_append,
    List.not_mem_nil, or_false, or_and_right, exists_or, exists_eq_left, false_and, exists_false,
    or_assoc, or_left_comm]

/-- Ranks never grow going down the tree. -/
theorem rank_le_of_mem : ∀ {N M : Shape}, M ∈ N.properSubshapes →
    listRank M ≤ listRank N ∧ mapRank M ≤ mapRank N
  | N, M, hM => by
    obtain ⟨c, hc, rfl | hMc⟩ := mem_properSubshapes.mp hM
    · have := rank_child hc
      constructor <;> split_ifs at this <;> omega
    · have := rank_child hc
      have ih := rank_le_of_mem hMc
      constructor <;> split_ifs at this <;> omega
termination_by N => N
decreasing_by exact sizeOf_lt_of_mem_children hc

/-- Below a node, the list rank drops unless the node is a pair, and the map rank drops under a
map or a pair. -/
theorem rank_lt_of_mem {N M : Shape} (hM : M ∈ N.properSubshapes) :
    listRank M + (if N.isPair then 0 else 1) ≤ listRank N ∧
      mapRank M + (if N.mapSeparatorIndex.isSome then 1 else 0) ≤ mapRank N := by
  obtain ⟨c, hc, rfl | hMc⟩ := mem_properSubshapes.mp hM
  · exact rank_child hc
  · obtain ⟨hl, hm⟩ := rank_child hc
    obtain ⟨hl', hm'⟩ := rank_le_of_mem hMc
    constructor <;> split_ifs at hl hm ⊢ <;> omega

theorem listSeparatorIndex_eq {N : Shape} {i : Nat} (h : N.listSeparatorIndex = some i) :
    i = (if N.isPair then listRank N else listRank N - 1) ∧
      (N.isPair = false → 1 ≤ listRank N) := by
  cases N <;> cases h
  case pair => exact ⟨rfl, nofun⟩
  all_goals exact ⟨rfl, fun _ => Nat.le_add_left 1 _⟩

theorem mapSeparatorIndex_eq {N : Shape} {a : Nat} (h : N.mapSeparatorIndex = some a) :
    a = mapRank N - 1 ∧ 1 ≤ mapRank N ∧ N.mapSeparatorIndex.isSome := by
  cases N <;> cases h <;> exact ⟨rfl, Nat.le_add_left 1 _, rfl⟩

/-- Below a `List` or `Map` node, every node other than a pair's reads its list separator at a
strictly smaller position, and every `Map` node reads its key/value separator at a strictly
smaller position. -/
theorem separator_index_escalation {N M : Shape} (hM : M ∈ N.properSubshapes) :
    (M.isPair = false → ∀ i j, N.listSeparatorIndex = some i → M.listSeparatorIndex = some j →
      j < i) ∧
      ∀ a b, N.mapSeparatorIndex = some a → M.mapSeparatorIndex = some b → b < a := by
  have hr := rank_lt_of_mem hM
  refine ⟨fun hp i j hi hj => ?_, fun a b ha hb => ?_⟩
  · obtain ⟨rfl, -⟩ := listSeparatorIndex_eq hi
    obtain ⟨rfl, hj1⟩ := listSeparatorIndex_eq hj
    have := hj1 hp
    simp only [hp, Bool.false_eq_true, if_false]
    split_ifs at hr ⊢ <;> omega
  · obtain ⟨rfl, -, hs⟩ := mapSeparatorIndex_eq ha
    obtain ⟨rfl, hb1, -⟩ := mapSeparatorIndex_eq hb
    simp only [hs, if_true] at hr
    omega

/-! ## The nodes of the pattern tree -/

theorem Pattern.mem_properSubpatterns {p q : Pattern} :
    q ∈ p.properSubpatterns ↔ ∃ c ∈ p.children, q = c ∨ q ∈ c.properSubpatterns := by
  cases p <;> simp only [Pattern.properSubpatterns, Pattern.children, List.mem_cons,
    List.mem_append, List.not_mem_nil, or_false, or_and_right, exists_or, exists_eq_left,
    false_and, exists_false, or_assoc, or_left_comm]

section Nodes

variable {N : Shape} {p : Pattern}

theorem toPattern_child (hp : toPattern N = some p) {c : Shape} (hc : c ∈ N.children) :
    ∃ q ∈ p.children, toPattern c = some q := by
  have h := List.mem_map_of_mem toPattern hc
  rw [(toPattern_separator hp).2.2, List.mem_map] at h
  obtain ⟨q, hq, he⟩ := h
  exact ⟨q, hq, he.symm⟩

theorem toPattern_child_inv (hp : toPattern N = some p) {q : Pattern} (hq : q ∈ p.children) :
    ∃ c ∈ N.children, toPattern c = some q := by
  have h := List.mem_map_of_mem some hq
  rwa [← (toPattern_separator hp).2.2, List.mem_map] at h

theorem indexOf_defaultListSeparator : ∀ {i : Nat} {sep : Separator},
    defaultListSeparator[i]? = some sep → defaultListSeparator.indexOf sep = i
  | 0, _, h | 1, _, h | 2, _, h | 3, _, h => by cases h; decide
  | _ + 4, _, h => by cases h

theorem indexOf_defaultMapSeparator : ∀ {a : Nat} {sep : Separator},
    defaultMapSeparator[a]? = some sep → defaultMapSeparator.indexOf sep = a
  | 0, _, h | 1, _, h | 2, _, h | 3, _, h => by cases h; decide
  | _ + 4, _, h => by cases h

/-- The position of the separator a node splits on is the one `to_pattern` read. -/
theorem listSeparatorIndex_of_separator (hp : toPattern N = some p) {sep : Separator}
    (h : p.separator? = some sep) :
    N.listSeparatorIndex = some (defaultListSeparator.indexOf sep) := by
  rw [(toPattern_separator hp).1, Option.bind_eq_some] at h
  obtain ⟨i, hi, hs⟩ := h
  rw [hi, indexOf_defaultListSeparator hs]

theorem mapSeparatorIndex_of_keyValueSeparator (hp : toPattern N = some p) {kv : Separator}
    (h : p.keyValueSeparator? = some kv) :
    N.mapSeparatorIndex = some (defaultMapSeparator.indexOf kv) := by
  rw [(toPattern_separator hp).2.1, Option.bind_eq_some] at h
  obtain ⟨a, ha, hs⟩ := h
  rw [ha, indexOf_defaultMapSeparator hs]

end Nodes

/-- The pattern of every proper sub-shape is a node of the pattern tree. -/
theorem exists_subpattern_of_mem {N : Shape} {p : Pattern} (hp : toPattern N = some p) {M : Shape}
    (hM : M ∈ N.properSubshapes) : ∃ q ∈ p.properSubpatterns, toPattern M = some q := by
  obtain ⟨c, hc, hMc⟩ := mem_properSubshapes.mp hM
  obtain ⟨c', hc', hcp⟩ := toPattern_child hp hc
  rcases hMc with rfl | hMc
  · exact ⟨c', Pattern.mem_properSubpatterns.mpr ⟨c', hc', .inl rfl⟩, hcp⟩
  · obtain ⟨q, hq, hMq⟩ := exists_subpattern_of_mem hcp hMc
    exact ⟨q, Pattern.mem_properSubpatterns.mpr ⟨c', hc', .inr hq⟩, hMq⟩
termination_by N
decreasing_by exact sizeOf_lt_of_mem_children hc

/-- Every node of the pattern tree below the root is the pattern of a proper sub-shape. -/
theorem exists_subshape_of_mem {N : Shape} {p : Pattern} (hp : toPattern N = some p) {q : Pattern}
    (hq : q ∈ p.properSubpatterns) : ∃ M ∈ N.properSubshapes, toPattern M = some q := by
  obtain ⟨c', hc', hqc⟩ := Pattern.mem_properSubpatterns.mp hq
  obtain ⟨c, hc, hcp⟩ := toPattern_child_inv hp hc'
  rcases hqc with rfl | hqc
  · exact ⟨c, mem_properSubshapes.mpr ⟨c, hc, .inl rfl⟩, hcp⟩
  · obtain ⟨M, hM, hMq⟩ := exists_subshape_of_mem hcp hqc
    exact ⟨M, mem_properSubshapes.mpr ⟨c, hc, .inr hM⟩, hMq⟩
termination_by N
decreasing_by exact sizeOf_lt_of_mem_children hc

/-- **Separator escalation.**  In the pattern `to_pattern` builds for `N`, the nodes below the
root are the patterns of the proper sub-shapes of `N`.  Where the root is a `List` or `Map`
node, each of them other than a pair's splits on a list separator at a strictly smaller position
of `default_list_separator`; where the root and the node are `Map` nodes, the node splits its
entries on a key/value separator at a strictly smaller position of `default_map_separator`. -/
theorem separator_escalation {N : Shape} {p : Pattern} (hp : toPattern N = some p) :
    (∀ q ∈ p.properSubpatterns, ∃ M ∈ N.properSubshapes, toPattern M = some q) ∧
    ∀ M ∈ N.properSubshapes, ∃ q ∈ p.properSubpatterns, toPattern M = some q ∧
      (M.isPair = false → ∀ s t, p.separator? = some s → q.separator? = some t →
        defaultListSeparator.indexOf t < defaultListSeparator.indexOf s) ∧
      ∀ s t, p.keyValueSeparator? = some s → q.keyValueSeparator? = some t →
        defaultMapSeparator.indexOf t < defaultMapSeparator.indexOf s := by
  refine ⟨fun q hq => exists_subshape_of_mem hp hq, fun M hM => ?_⟩
  obtain ⟨q, hq, hMq⟩ := exists_subpattern_of_mem hp hM
  have h := separator_index_escalation hM
  exact ⟨q, hq, hMq, fun hpair _ _ hs ht => h.1 hpair _ _ (listSeparatorIndex_of_separator hp hs)
      (listSeparatorIndex_of_separator hMq ht),
    fun _ _ hs ht => h.2 _ _ (mapSeparatorIndex_of_keyValueSeparator hp hs)
      (mapSeparatorIndex_of_keyValueSeparator hMq ht)⟩

/-- In `to_pattern` of `std::vector<std::pair<int, std::vector<int>>>`, the node of the inner
`std::vector<int>` splits on `,`, a position below the `;` of the root. -/
theorem separator_escalation_vector_in_pair :
    Pattern.list (.integer minIntValue maxIntValue) 0 maxUnsignedInt (.single ',') ∈
        (Pattern.list (.map (.integer minIntValue maxIntValue)
          (.list (.integer minIntValue maxIntValue) 0 maxUnsignedInt (.single ',')) 1 1
          (.single ';') (.single ':')) 0 maxUnsignedInt (.single ';')).properSubpatterns ∧
      defaultListSeparator.indexOf (.single ',') < defaultListSeparator.indexOf (.single ';') := by
  obtain ⟨q, hq, hMq, hl, -⟩ := (separator_escalation
    (N := .list .vector (.pair (.integral .int) (.list .vector (.integral .int)))) rfl).2
    (.list .vector (.integral .int)) (by decide)
  cases hMq
  exact ⟨hq, hl rfl _ _ rfl rfl⟩

/-! ## Inside the tables -/

theorem getElem?_defaultListSeparator {i : Nat} :
    (∃ sep, defaultListSeparator[i]? = some sep) ↔ i < 4 :=
  ⟨fun ⟨_, h⟩ => (List.getElem?_eq_some_iff.mp h).1,
    fun h => ⟨_, List.getElem?_eq_getElem (l := defaultListSeparator) h⟩⟩

theorem getElem?_defaultMapSeparator {i : Nat} :
    (∃ sep, defaultMapSeparator[i]? = some sep) ↔ i < 4 :=
  ⟨fun ⟨_, h⟩ => (List.getElem?_eq_some_iff.mp h).1,
    fun h => ⟨_, List.getElem?_eq_getElem (l := defaultMapSeparator) h⟩⟩

/-- The positions the node of `T` reads lie inside the tables. -/
def Shape.InTables (T : Shape) : Prop :=
  (∀ i ∈ T.listSeparatorIndex, i < 4) ∧ ∀ a ∈ T.mapSeparatorIndex, a < 4

/-- One call of `to_pattern` returns when the calls for the sub-shapes do and its own positions
are inside the tables. -/
theorem toPattern_isSome_node (T : Shape) :
    (∃ p, toPattern T = some p) ↔ (∀ c ∈ T.children, ∃ q, toPattern c = some q) ∧ T.InTables := by
  cases T with
  | bool | integral _ | string =>
    simp [toPattern, Shape.children, Shape.InTables, Shape.listSeparatorIndex,
      Shape.mapSeparatorIndex]
  | list _ t | tensor _ t | complex t =>
    simp only [toPattern_list, toPattern_tensor, toPattern_complex, Shape.children,
      Shape.InTables, Shape.listSeparatorIndex, Shape.mapSeparatorIndex, listRank, Option.mem_def,
      Option.some.injEq, forall_eq', Nat.add_sub_cancel, List.mem_singleton, forall_eq]
    constructor
    · rintro ⟨_, b, s, hb, hs, -⟩
      exact ⟨⟨b, hb⟩, getElem?_defaultListSeparator.mp ⟨s, hs⟩, nofun⟩
    · rintro ⟨⟨b, hb⟩, hl, -⟩
      obtain ⟨s, hs⟩ := getElem?_defaultListSeparator.mpr hl
      exact ⟨_, b, s, hb, hs, rfl⟩
  | map _ kt vt | pair kt vt =>
    simp only [toPattern_map, toPattern_pair, Shape.children, Shape.InTables,
      Shape.listSeparatorIndex, Shape.mapSeparatorIndex, listRank, mapRank, Option.mem_def,
      Option.some.injEq, forall_eq', Nat.add_sub_cancel, List.mem_cons, List.mem_singleton,
      forall_eq_or_imp, forall_eq, List.not_mem_nil, or_false]
    constructor
    · rintro ⟨_, kp, vp, s, kv, hk, hv, hs, hkv, -⟩
      exact ⟨⟨⟨kp, hk⟩, ⟨vp, hv⟩⟩, getElem?_defaultListSeparator.mp ⟨s, hs⟩,
        getElem?_defaultMapSeparator.mp ⟨kv, hkv⟩⟩
    · rintro ⟨⟨⟨kp, hk⟩, ⟨vp, hv⟩⟩, hl, hm⟩
      obtain ⟨s, hs⟩ := getElem?_defaultListSeparator.mpr hl
      obtain ⟨kv, hkv⟩ := getElem?_defaultMapSeparator.mpr hm
      exact ⟨_, kp, vp, s, kv, hk, hv, hs, hkv, rfl⟩

theorem forall_mem_properSubshapes {N : Shape} {P : Shape → Prop} :
    (∀ M ∈ N.properSubshapes, P M) ↔ ∀ c ∈ N.children, ∀ M ∈ c :: c.properSubshapes, P M :=
  ⟨fun h c hc M hM => h M (mem_properSubshapes.mpr ⟨c, hc, List.mem_cons.mp hM⟩),
    fun h M hM =>
      let ⟨c, hc, hMc⟩ := mem_properSubshapes.mp hM
      h c hc M (List.mem_cons.mpr hMc)⟩

/-- **`to_pattern` stays inside the tables** exactly when every node of the shape does. -/
theorem toPattern_isSome_iff (T : Shape) :
    (∃ p, toPattern T = some p) ↔ ∀ N ∈ T :: T.properSubshapes, N.InTables := by
  rw [toPattern_isSome_node, List.forall_mem_cons, forall_mem_properSubshapes, and_comm]
  exact and_congr Iff.rfl (forall₂_congr fun c hc => toPattern_isSome_iff c)
termination_by T
decreasing_by exact sizeOf_lt_of_mem_children hc

/-- Within ranks `4`, only the list position of a pair, its list rank itself, can reach `4`. -/
theorem inTables_iff {N : Shape} (hl : listRank N ≤ 4) (hm : mapRank N ≤ 4) :
    N.InTables ↔ (N.isPair → listRank N ≤ 3) := by
  cases N with
  | bool | integral _ | string => exact ⟨fun _ => nofun, fun _ => ⟨nofun, nofun⟩⟩
  | list _ t | tensor _ t | complex t =>
    refine ⟨fun _ => nofun, fun _ => ⟨fun i hi => ?_, nofun⟩⟩
    cases hi
    simp only [listRank] at hl ⊢
    omega
  | map _ k v =>
    refine ⟨fun _ => nofun, fun _ => ⟨fun i hi => ?_, fun a ha => ?_⟩⟩
    · cases hi; simp only [listRank] at hl ⊢; omega
    · cases ha; simp only [mapRank] at hm ⊢; omega
  | pair k v =>
    refine ⟨fun h _ => Nat.le_of_lt_succ (h.1 _ rfl), fun h => ⟨fun i hi => ?_, fun a ha => ?_⟩⟩
    · cases hi; exact Nat.lt_succ_of_le (h rfl)
    · cases ha; simp only [mapRank] at hm ⊢; omega

/-- **The four-level cap.**  For ranks at most `4`, `to_pattern` reads the tables only at
positions `0` to `3` exactly when every pair in the shape has list rank at most `3`. -/
theorem toPattern_in_range (T : Shape) (hl : listRank T ≤ 4) (hm : mapRank T ≤ 4) :
    (∃ p, toPattern T = some p) ↔ ∀ N ∈ T :: T.properSubshapes, N.isPair → listRank N ≤ 3 := by
  rw [toPattern_isSome_iff]
  refine forall₂_congr fun N hN => inTables_iff ?_ ?_ <;>
  · rcases List.mem_cons.mp hN with rfl | hN
    · assumption
    · have := rank_le_of_mem hN
      omega

theorem toPattern_in_range_pair :
    ∃ p, toPattern (.pair (.integral .int) (.list .vector (.integral .int))) = some p :=
  (toPattern_in_range _ (by decide) (by decide)).mpr (by decide)

/-- A pair whose mapped value is four lists deep has list rank `4`: `to_pattern` reads
`default_list_separator[4]`. -/
theorem toPattern_pair_rank_four :
    listRank (.pair (.integral .int)
        (.list .vector (.list .vector (.list .vector (.list .vector (.integral .int)))))) = 4 ∧
      mapRank (.pair (.integral .int)
        (.list .vector (.list .vector (.list .vector (.list .vector (.integral .int)))))) = 1 ∧
      toPattern (.pair (.integral .int)
        (.list .vector (.list .vector (.list .vector (.list .vector (.integral .int)))))) = none :=
  ⟨rfl, rfl, rfl⟩

end Patterns
