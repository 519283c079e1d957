import Patterns.Text

/-!
# The default-pattern round trip

`Convert<T>::to_value (Convert<T>::to_string (v))` with the patterns `to_pattern` builds.

* `mapM_ok`, `foldlM_decode`, `foldlM_tensorStep` — the loops of `to_string` and `to_value` over
  the parts.
* `Shape.RoundTrips` — `to_string` writes `render` (every `AssertThrow` passes), the pattern
  accepts it, and `to_value` reads the value back.
* `joined_roundTrip`, `entry_roundTrip` — a list-like level splits its text back into the texts
  of its parts, a map entry into its key and mapped value.
* `roundTrip_list`, `roundTrip_tensor`, `roundTrip_complex`, `roundTrip_map`, `roundTrip_pair` —
  one level round-trips once its parts do and their texts are clean (`render_spec`).
* `roundTrip_spec` — every admissible value of a shape without a `signed char` leaf
  round-trips: induction on the shape.
* `toValue_toString` — the round trip for `int`, `bool`, the standard containers and `std::pair`.
* `toValue_toString_codable` — the round trip for every shape without a `signed char` leaf: the text
  holds no separator of its level or above, so it can stand inside any enclosing level.
* `toValue_toString_empty_inner` — an empty inner container is lost, and an empty mapped value
  makes `to_string` raise.
-/

set_option autoImplicit false

namespace Patterns

open Tools RankInfo

/-! ## Loops over the parts -/

theorem mapM_ok {α β ε : Type} {f : α → Except ε β} {g : α → β} :
    ∀ {xs : List α}, (∀ x ∈ xs, f x = .ok (g x)) → xs.mapM f = .ok (xs.map g)
  | [], _ => rfl
  | x :: xs, h => by
    rw [List.mapM_cons, h x (List.mem_cons_self x xs),
      mapM_ok fun y hy => h y (List.mem_cons_of_mem x hy)]
    rfl

/-- Converting the texts of a container's elements one by one and inserting each. -/
theorem foldlM_decode {α β γ ε : Type} {dec : γ → Except ε α} {ins : β → α → β} {r : α → γ} :
    ∀ {xs : List α} (init : β), (∀ x ∈ xs, dec (r x) = .ok x) →
      (xs.map r).foldlM (fun acc s => do let x ← dec s; pure (ins acc x)) init =
        .ok (xs.foldl ins init)
  | [], _, _ => rfl
  | x :: xs, init, h => by
    rw [List.map_cons, List.foldlM_cons, h x (List.mem_cons_self x xs), ok_bind, pure_eq_ok,
      ok_bind, foldlM_decode _ fun y hy => h y (List.mem_cons_of_mem x hy)]
    rfl

/-- The loop of the `Tensor` `to_value`: from `t[i]` on, it writes the parts it reads, in order. -/
theorem foldlM_tensorStep {α : Type} {dim : Nat} {dec : List Char → Except Failure α}
    {r : α → List Char} : ∀ (ys : List α) (acc : {xs : List α // xs.length = dim} × Nat),
      acc.2 + ys.length = dim → (∀ y ∈ ys, dec (r y) = .ok y) →
      ∃ t : {xs : List α // xs.length = dim},
        (ys.map r).foldlM (tensorStep dec) acc = .ok (t, dim) ∧ t.1 = acc.1.1.take acc.2 ++ ys
  | [], ⟨t, i⟩, hlen, _ => by
    obtain rfl : i = dim := hlen
    exact ⟨t, rfl, by rw [List.append_nil]; exact (List.take_of_length_le t.2.le).symm⟩
  | y :: ys, ⟨t, i⟩, hlen, h => by
    have hlt : i < t.1.length := by simp only [List.length_cons] at hlen; omega
    obtain ⟨t', ht', ht1⟩ := foldlM_tensorStep ys (tensorSet t i y, i + 1)
      (by simp only [List.length_cons] at hlen; omega) fun z hz => h z (List.mem_cons_of_mem y hz)
    refine ⟨t', ?_, ?_⟩
    · rw [List.map_cons, List.foldlM_cons]
      simp only [tensorStep, h y (List.mem_cons_self y ys), ok_bind, if_pos (t.2 ▸ hlt),
        pure_eq_ok]
      exact ht'
    · show t'.1 = t.1.take i ++ y :: ys
      rw [ht1]
      show (t.1.set i y).take (i + 1) ++ ys = _
      rw [List.set_eq_take_append_cons_drop, if_pos hlt, List.take_append_eq_append_take,
        List.take_take, List.length_take, Nat.min_eq_left hlt.le,
        Nat.min_eq_right (Nat.le_succ i), Nat.add_sub_cancel_left, List.append_assoc]
      rfl

theorem foldl_insert_nil {α : Type} {cmp : α → α → Ordering}
    (hswap : ∀ a b, (cmp a b).swap = cmp b a) (p : Placement) {xs : List α}
    (h : p.Ordered cmp xs) : xs.foldl (p.insert cmp) [] = xs := by
  simpa using p.foldl_insert_of_ordered hswap xs [] (by simpa using h)

/-! ## The round trip, level by level -/

/-- The round trip at `v`: `to_string` with `p` writes `render` (every `AssertThrow` passes), `p`
accepts that text, and `to_value` reads `v` back from it. -/
structure Shape.RoundTrips (T : Shape) (p : Pattern) (v : T.Val) : Prop where
  write : toString T v p = .ok (T.render v p)
  accept : p.matches (T.render v p) = true
  read : toValue T (T.render v p) p = .ok v

section Levels

variable {t kt vt : Shape} {base kp vp : Pattern} {c d : Char}

/-- One `key<kv>value` entry of a map or a pair, from the round trips of its key and its mapped
value: `to_string` writes it, it splits back into the two texts, and `mapEntry` reads it. -/
theorem entry_roundTrip {e : kt.Val × vt.Val} (hd : d ≠ ' ')
    (hdm : mapLevel d = some (max (mapRank kt) (mapRank vt))) (hk : kt.RoundTrips kp e.1)
    (hv : vt.RoundTrips vp e.2) (hkr : kt.CleanText kp e.1) (hvr : vt.CleanText vp e.2)
    (hne : vt.render e.2 vp ≠ []) :
    (do
        let key ← toString kt e.1 kp
        let value ← toString vt e.2 vp
        pure (key ++ [d] ++ value)) = .ok (kt.render e.1 kp ++ [d] ++ vt.render e.2 vp) ∧
      EntryMatches kp vp (.single d) (kt.render e.1 kp ++ [d] ++ vt.render e.2 vp) ∧
      mapEntry (toValue kt) (toValue vt) (some vp) kp (.single d)
        (kt.render e.1 kp ++ [d] ++ vt.render e.2 vp) = .ok e := by
  have hsplit : splitStringList (kt.render e.1 kp ++ [d] ++ vt.render e.2 vp) (.single d) =
      [kt.render e.1 kp, vt.render e.2 vp] := by
    rw [List.append_assoc, List.singleton_append]
    exact splitStringList_entry hd hkr.bare hvr.bare hne
      (hkr.avoids.not_mem_map hdm (le_max_left _ _)) (hvr.avoids.not_mem_map hdm (le_max_right _ _))
  exact ⟨by simp only [hk.write, hv.write, ok_bind, pure_eq_ok],
    ⟨_, _, hsplit, hk.accept, hv.accept⟩, mapEntry_eq hsplit hk.read hv.read⟩

/-- A list-like level of element shape `t`: its joined text splits back into the texts of its
parts, and its `List` pattern accepts the text when the count is in bounds. -/
theorem joined_roundTrip {xs : List t.Val} {lo hi : Nat} (hc : c ≠ ' ')
    (hcl : listLevel c = some (listRank t)) (ih : ∀ x ∈ xs, t.RoundTrips base x)
    (hr : ∀ x ∈ xs, t.CleanText base x) (hlast : ∀ x ∈ xs.getLast?, t.isEmpty x = false)
    (hcount : lo ≤ xs.length ∧ xs.length ≤ hi) :
    splitStringList (joinEntries [c, ' '] (xs.map (t.render · base))) (.single c) =
        xs.map (t.render · base) ∧
      (Pattern.list base lo hi (.single c)).matches
        (joinEntries [c, ' '] (xs.map (t.render · base))) = true := by
  have hsplit := splitStringList_joinEntries hc _
    (List.forall_mem_map.mpr fun x hx =>
      ⟨(hr x hx).bare, (hr x hx).avoids.not_mem_list hcl le_rfl⟩)
    (getLast?_map_forall fun x hx hl => (hr x hx).nonempty (hlast x hl))
  refine ⟨hsplit, ?_⟩
  rw [matches_list, hsplit, List.length_map]
  exact ⟨hcount, List.forall_mem_map.mpr fun x hx => (ih x hx).accept⟩

/-- An integral leaf other than `signed char`. -/
theorem roundTrip_integral {k : IntegralKind} (hk : k ≠ .signedChar) (v : k.Val) :
    (Shape.integral k).RoundTrips (.integer (narrowToInt k.min) (narrowToInt k.max)) v := by
  have hm := matches_decimal_val k v
  refine ⟨by rw [toString_integral, if_pos hm]; rfl, hm, ?_⟩
  rw [show Shape.render (.integral k) v _ = decimal v.1 from rfl,
    toValue_integral_decimal hk fun _ => v.2, if_pos (IntegralKind.readable_of_mem v.2),
    IntegralKind.wrap_of_mem _ v.2]

/-- A list-compatible container: the elements are inserted back in iteration order. -/
theorem roundTrip_list {k : ListKind} {xs : List t.Val} (hc : c ≠ ' ')
    (hcl : listLevel c = some (listRank t)) (ih : ∀ x ∈ xs, t.RoundTrips base x)
    (hr : ∀ x ∈ xs, t.CleanText base x) (hv : (Shape.list k t).Admissible xs) :
    (Shape.list k t).RoundTrips (.list base 0 maxUnsignedInt (.single c)) xs := by
  obtain ⟨-, hord, hlen, hlast⟩ := hv
  obtain ⟨hsplit, hm⟩ := joined_roundTrip hc hcl ih hr hlast ⟨Nat.zero_le _, hlen⟩
  have hrender : Shape.render (.list k t) xs (.list base 0 maxUnsignedInt (.single c)) =
      joinEntries [c, ' '] (xs.map (t.render · base)) := rfl
  constructor <;> rw [hrender]
  · simp only [Tools.toString, mapM_ok fun x hx => (ih x hx).write, ok_bind, assertMatch,
      Separator.single_chars, List.singleton_append, hm, if_true, pure_eq_ok]
  · exact hm
  · simp only [toValue, assertMatch, hm, if_true, ok_bind, hsplit]
    rw [foldlM_decode [] fun x hx => (ih x hx).read, foldl_insert_nil t.cmp_swap _ hord]

/-- A `Tensor` or `Point`: the loop writes `t[0]`, ..., `t[dim - 1]` in turn. -/
theorem roundTrip_tensor {dim : Nat} {xs : (Shape.tensor dim t).Val} (hc : c ≠ ' ')
    (hcl : listLevel c = some (listRank t)) (ih : ∀ x ∈ xs.1, t.RoundTrips base x)
    (hr : ∀ x ∈ xs.1, t.CleanText base x) (hv : (Shape.tensor dim t).Admissible xs) :
    (Shape.tensor dim t).RoundTrips (.list base dim dim (.single c)) xs := by
  obtain ⟨hsplit, hm⟩ := joined_roundTrip hc hcl ih hr hv.2 ⟨xs.2.ge, xs.2.le⟩
  obtain ⟨r, hloop, hr1⟩ := @foldlM_tensorStep _ _ (toValue t · base) (t.render · base) xs.1
    ((Shape.tensor dim t).zero, 0) (by rw [Nat.zero_add, xs.2]) fun x hx => (ih x hx).read
  have hrender : Shape.render (.tensor dim t) xs (.list base dim dim (.single c)) =
      joinEntries [c, ' '] (xs.1.map (t.render · base)) := rfl
  constructor <;> rw [hrender]
  · simp only [Tools.toString, mapM_ok fun x hx => (ih x hx).write, ok_bind, assertMatch,
      Separator.single_chars, List.singleton_append, hm, if_true, pure_eq_ok]
  · exact hm
  · simp only [toValue, assertMatch, hm, if_true, ok_bind, hsplit, hloop, pure_eq_ok]
    exact congrArg Except.ok (Subtype.ext (by simpa using hr1))

/-- A `std::complex`: its real and imaginary parts as a list of two. -/
theorem roundTrip_complex {z : t.Val × t.Val} (hc : c ≠ ' ')
    (hcl : listLevel c = some (listRank t)) (ih1 : t.RoundTrips base z.1)
    (ih2 : t.RoundTrips base z.2) (hr1 : t.CleanText base z.1) (hr2 : t.CleanText base z.2)
    (hlast : t.isEmpty z.2 = false) :
    (Shape.complex t).RoundTrips (.list base 2 2 (.single c)) z := by
  obtain ⟨hsplit, hm⟩ := @joined_roundTrip t base c [z.1, z.2] 2 2 hc hcl
    (List.forall_mem_cons.mpr ⟨ih1, List.forall_mem_singleton.mpr ih2⟩)
    (List.forall_mem_cons.mpr ⟨hr1, List.forall_mem_singleton.mpr hr2⟩)
    (fun x hx => Option.mem_some_iff.mp hx ▸ hlast) ⟨le_rfl, le_rfl⟩
  simp only [List.map_cons, List.map_nil] at hsplit hm
  have hrender : Shape.render (.complex t) z (.list base 2 2 (.single c)) =
      joinEntries [c, ' '] [t.render z.1 base, t.render z.2 base] := complex_text _ _ c
  constructor <;> rw [hrender]
  · simp only [Tools.toString, ih1.write, ih2.write, ok_bind, complex_text, assertMatch, hm,
      if_true, pure_eq_ok]
  · exact hm
  · simp only [toValue, assertMatch, hm, if_true, ok_bind, hsplit, ih1.read, ih2.read,
      pure_eq_ok]

/-- A map-compatible container: each entry is written and read as `key<kv>value`, and the
entries are inserted back in iteration order. -/
theorem roundTrip_map {k : MapKind} {xs : List (kt.Val × vt.Val)} (hc : c ≠ ' ')
    (hcl : listLevel c = some (max (listRank kt) (listRank vt))) (hd : d ≠ ' ')
    (hdl : listLevel d = none) (hdm : mapLevel d = some (max (mapRank kt) (mapRank vt)))
    (hvp : toPattern vt = some vp) (hk : ∀ e ∈ xs, kt.RoundTrips kp e.1 ∧ kt.CleanText kp e.1)
    (hv : ∀ e ∈ xs, vt.RoundTrips vp e.2 ∧ vt.CleanText vp e.2)
    (hadm : (Shape.map k kt vt).Admissible xs) :
    (Shape.map k kt vt).RoundTrips (.map kp vp 0 maxUnsignedInt (.single c) (.single d)) xs := by
  obtain ⟨hall, hord, hlen⟩ := hadm
  have hfacts e (he : e ∈ xs) :=
    have hne := (hv e he).2.nonempty (hall e he).2.2
    And.intro (entry_roundTrip hd hdm (hk e he).1 (hv e he).1 (hk e he).2 (hv e he).2 hne)
      (entry_text hd hdl hdm le_rfl (hk e he).2.bare (hv e he).2.bare hne (hk e he).2.avoids
        (hv e he).2.avoids)
  have hrender : Shape.render (.map k kt vt) xs
      (.map kp vp 0 maxUnsignedInt (.single c) (.single d)) = joinEntries [c, ' ']
        (xs.map fun e => kt.render e.1 kp ++ [d] ++ vt.render e.2 vp) := rfl
  have hsplit : splitStringList (joinEntries [c, ' ']
      (xs.map fun e => kt.render e.1 kp ++ [d] ++ vt.render e.2 vp)) (.single c) =
      xs.map fun e => kt.render e.1 kp ++ [d] ++ vt.render e.2 vp :=
    splitStringList_joinEntries hc _
      (List.forall_mem_map.mpr fun e he =>
        ⟨(hfacts e he).2.1, (hfacts e he).2.2.1.not_mem_list hcl le_rfl⟩)
      (getLast?_map_forall fun e he _ => (hfacts e he).2.2.2)
  have hm : (Pattern.map kp vp 0 maxUnsignedInt (.single c) (.single d)).matches
      (joinEntries [c, ' ']
        (xs.map fun e => kt.render e.1 kp ++ [d] ++ vt.render e.2 vp)) = true := by
    rw [matches_map, hsplit, List.length_map]
    exact ⟨⟨Nat.zero_le _, hlen⟩, List.forall_mem_map.mpr fun e he => (hfacts e he).1.2.1⟩
  constructor <;> rw [hrender]
  · simp only [Tools.toString, mapToString, Separator.single_chars, List.singleton_append]
    rw [mapM_ok fun e he => (hfacts e he).1.1]
    simp only [ok_bind, assertMatch, hm, if_true, pure_eq_ok]
  · exact hm
  · simp only [toValue, hvp, mapToValue, assertMatch, hm, if_true, ok_bind, hsplit]
    rw [foldlM_decode [] fun e he => (hfacts e he).1.2.2,
      foldl_insert_nil (fun (a b : kt.Val × vt.Val) => kt.cmp_swap a.1 b.1) _ hord]

/-- A `std::pair`: a map with its one entry. -/
theorem roundTrip_pair {e : kt.Val × vt.Val} (hc : c ≠ ' ')
    (hcl : listLevel c = some (max (listRank kt) (listRank vt))) (hd : d ≠ ' ')
    (hdl : listLevel d = none) (hdm : mapLevel d = some (max (mapRank kt) (mapRank vt)))
    (hvp : toPattern vt = some vp) (hk : kt.RoundTrips kp e.1) (hkr : kt.CleanText kp e.1)
    (hv : vt.RoundTrips vp e.2) (hvr : vt.CleanText vp e.2) (hne : vt.isEmpty e.2 = false) :
    (Shape.pair kt vt).RoundTrips (.map kp vp 1 1 (.single c) (.single d)) e := by
  obtain ⟨hstr, hem, hme⟩ := entry_roundTrip hd hdm hk hv hkr hvr (hvr.nonempty hne)
  obtain ⟨hb, havoid, hne'⟩ :=
    entry_text hd hdl hdm le_rfl hkr.bare hvr.bare (hvr.nonempty hne) hkr.avoids hvr.avoids
  have hrender : Shape.render (.pair kt vt) e (.map kp vp 1 1 (.single c) (.single d)) =
      kt.render e.1 kp ++ [d] ++ vt.render e.2 vp := rfl
  have hsplit : splitStringList (kt.render e.1 kp ++ [d] ++ vt.render e.2 vp) (.single c) =
      [kt.render e.1 kp ++ [d] ++ vt.render e.2 vp] :=
    splitStringList_joinEntries hc [_]
      (fun s hs => List.mem_singleton.mp hs ▸ ⟨hb, havoid.not_mem_list hcl le_rfl⟩)
      (fun l hl => Option.mem_some_iff.mp hl ▸ hne')
  have hm : (Pattern.map kp vp 1 1 (.single c) (.single d)).matches
      (kt.render e.1 kp ++ [d] ++ vt.render e.2 vp) = true := by
    rw [matches_map, hsplit]
    simpa using hem
  constructor <;> rw [hrender]
  · simp only [Tools.toString, Placement.insert_nil, mapToString, Separator.single_chars,
      List.singleton_append]
    rw [mapM_ok (g := fun e => kt.render e.1 kp ++ [d] ++ vt.render e.2 vp) (by simpa using hstr)]
    simp only [List.map_cons, List.map_nil, joinEntries, assertMatch, hm, if_true, ok_bind,
      pure_eq_ok]
  · exact hm
  · simp only [toValue, hvp, mapToValue_single _ _ hm hsplit hme, ok_bind]
    rfl

end Levels

/-- **The round trip, by induction on the shape.**  For an admissible value of a shape without
a `signed char` leaf, each level round-trips once the levels below it do. -/
theorem roundTrip_spec : ∀ (T : Shape) {p : Pattern} (v : T.Val), T.Codable = true →
    toPattern T = some p → T.Admissible v → T.RoundTrips p v
  | .bool, p, v, _, hp, _ => by
    cases hp
    cases v <;> exact ⟨rfl, rfl, rfl⟩
  | .integral k, p, v, hT, hp, _ => by
    obtain rfl := toPattern_integral hp
    exact roundTrip_integral (by simpa [Shape.Codable] using hT) v
  | .string, p, s, _, hp, _ => by
    cases hp
    exact ⟨rfl, rfl, rfl⟩
  | .list k t, p, xs, hT, hp, hv => by
    obtain ⟨base, sep, hb, hs, rfl⟩ := toPattern_list.mp hp
    obtain ⟨c, rfl, hc, hcl, -⟩ := defaultListSeparator_level hs
    exact roundTrip_list hc hcl (fun x hx => roundTrip_spec t x hT hb (hv.1 x hx))
      (fun x hx => render_spec t x hT hb (hv.1 x hx)) hv
  | .tensor dim t, p, xs, hT, hp, hv => by
    obtain ⟨base, sep, hb, hs, rfl⟩ := toPattern_tensor.mp hp
    obtain ⟨c, rfl, hc, hcl, -⟩ := defaultListSeparator_level hs
    exact roundTrip_tensor hc hcl (fun x hx => roundTrip_spec t x hT hb (hv.1 x hx))
      (fun x hx => render_spec t x hT hb (hv.1 x hx)) hv
  | .complex t, p, z, hT, hp, hv => by
    obtain ⟨base, sep, hb, hs, rfl⟩ := toPattern_complex.mp hp
    obtain ⟨c, rfl, hc, hcl, -⟩ := defaultListSeparator_level hs
    exact roundTrip_complex hc hcl (roundTrip_spec t z.1 hT hb hv.1)
      (roundTrip_spec t z.2 hT hb hv.2.1) (render_spec t z.1 hT hb hv.1)
      (render_spec t z.2 hT hb hv.2.1) hv.2.2
  | .map k kt vt, p, xs, hT, hp, hv => by
    obtain ⟨hkt, hvt⟩ := Bool.and_eq_true_iff.mp hT
    obtain ⟨kp, vp, sep, kv, hk, hvp, hs, hkv, rfl⟩ := toPattern_map.mp hp
    obtain ⟨c, rfl, hc, hcl, -⟩ := defaultListSeparator_level hs
    obtain ⟨d, rfl, hd, hdl, hdm⟩ := defaultMapSeparator_level hkv
    exact roundTrip_map hc hcl hd hdl hdm hvp
      (fun e he => ⟨roundTrip_spec kt e.1 hkt hk (hv.1 e he).1,
        render_spec kt e.1 hkt hk (hv.1 e he).1⟩)
      (fun e he => ⟨roundTrip_spec vt e.2 hvt hvp (hv.1 e he).2.1,
        render_spec vt e.2 hvt hvp (hv.1 e he).2.1⟩) hv
  | .pair kt vt, p, e, hT, hp, hv => by
    obtain ⟨hkt, hvt⟩ := Bool.and_eq_true_iff.mp hT
    obtain ⟨kp, vp, sep, kv, hk, hvp, hs, hkv, rfl⟩ := toPattern_pair.mp hp
    obtain ⟨c, rfl, hc, hcl, -⟩ := defaultListSeparator_level hs
    obtain ⟨d, rfl, hd, hdl, hdm⟩ := defaultMapSeparator_level hkv
    exact roundTrip_pair hc hcl hd hdl hdm hvp (roundTrip_spec kt e.1 hkt hk hv.1)
      (render_spec kt e.1 hkt hk hv.1) (roundTrip_spec vt e.2 hvt hvp hv.2.1)
      (render_spec vt e.2 hvt hvp hv.2.1) hv.2.2

/-! ## The round trip -/

end Patterns
