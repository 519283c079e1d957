import Patterns.Decode

/-!
# The text of a value

What `to_string` writes for a value under the patterns `to_pattern` builds.  The separators of a
node come from the tables by rank, so the text of a value holds only separators of the levels
below its own (the escalation of `Patterns.Escalation`, seen from the text).

* `listLevel`, `mapLevel` — the position of a separator character in its table.
* `Avoids l m s` — every separator character of `s` is from a list level below `l` and a map
  level below `m`.
* `Shape.Plain` — a shape built from `int` and `bool` with the standard containers and
  `std::pair`; `Shape.Codable` — any shape without a `signed char` leaf.
* `Shape.render` — the text `to_string (v, p)` writes, its checks left out.
* `Shape.Admissible` — a value whose strings hold no separator and no blank at either end, whose
  containers iterate in the order of their kind, hold at most `max_elements` entries and do not
  end with an empty part, and whose mapped values are not empty.
* `joined_text` — the text of a list-like level, from the texts of its parts.
* `Shape.CleanText`, `render_spec` — the text of an admissible value is clean: it neither starts
  nor ends with a blank, avoids the separators of its own level and above, and is empty only for
  an empty value.
-/

set_option autoImplicit false

namespace Patterns

open Tools RankInfo

/-! ## Separator levels -/

/-- The position of `c` in `default_list_separator`. -/
def listLevel : Char → Option Nat
  | ',' => some 0
  | ';' => some 1
  | '|' => some 2
  | '%' => some 3
  | _ => none

/-- The position of `c` in `default_map_separator`. -/
def mapLevel : Char → Option Nat
  | ':' => some 0
  | '=' => some 1
  | '@' => some 2
  | '#' => some 3
  | _ => none

theorem defaultListSeparator_level : ∀ {i : Nat} {sep : Separator},
    defaultListSeparator[i]? = some sep →
      ∃ c, sep = .single c ∧ c ≠ ' ' ∧ listLevel c = some i ∧ mapLevel c = none
  | 0, _, h | 1, _, h | 2, _, h | 3, _, h => by cases h; exact ⟨_, rfl, by decide, rfl, rfl⟩
  | _ + 4, _, h => by cases h

theorem defaultMapSeparator_level : ∀ {a : Nat} {sep : Separator},
    defaultMapSeparator[a]? = some sep →
      ∃ c, sep = .single c ∧ c ≠ ' ' ∧ listLevel c = none ∧ mapLevel c = some a
  | 0, _, h | 1, _, h | 2, _, h | 3, _, h => by cases h; exact ⟨_, rfl, by decide, rfl, rfl⟩
  | _ + 4, _, h => by cases h

@[simp] theorem listLevel_blank : listLevel ' ' = none := rfl

@[simp] theorem mapLevel_blank : mapLevel ' ' = none := rfl

theorem level_of_isDigit {c : Char} (h : c.isDigit = true) :
    listLevel c = none ∧ mapLevel c = none := by
  constructor
  · unfold listLevel; split <;> first | rfl | exact absurd h (by decide)
  · unfold mapLevel; split <;> first | rfl | exact absurd h (by decide)

/-- Every separator character of `s` is from a list level below `l` and a map level below `m`. -/
def Avoids (l m : Nat) (s : List Char) : Prop :=
  ∀ c ∈ s, (listLevel c).all (· < l) = true ∧ (mapLevel c).all (· < m) = true

instance (l m : Nat) (s : List Char) : Decidable (Avoids l m s) :=
  inferInstanceAs (Decidable (∀ c ∈ s, _ ∧ _))

section Avoids

variable {l m l' m' : Nat} {s t : List Char}

theorem Avoids.mono (h : Avoids l m s) (hl : l ≤ l') (hm : m ≤ m') : Avoids l' m' s := by
  intro c hc
  obtain ⟨h1, h2⟩ := h c hc
  constructor
  · cases hi : listLevel c <;> simp_all; omega
  · cases ha : mapLevel c <;> simp_all; omega

theorem Avoids.append (hs : Avoids l m s) (ht : Avoids l m t) : Avoids l m (s ++ t) := by
  intro c hc
  rcases List.mem_append.mp hc with hc | hc
  · exact hs c hc
  · exact ht c hc

theorem Avoids.joinEntries {g : List Char} (hg : Avoids l m g) :
    ∀ {es : List (List Char)}, (∀ e ∈ es, Avoids l m e) → Avoids l m (joinEntries g es)
  | [], _ => nofun
  | [e], h => h e (by simp)
  | e :: e' :: es, h =>
    ((h e (by simp)).append hg).append
      (Avoids.joinEntries hg fun x hx => h x (List.mem_cons_of_mem e hx))

theorem avoids_singleton {c : Char} :
    Avoids l m [c] ↔ (listLevel c).all (· < l) = true ∧ (mapLevel c).all (· < m) = true := by
  simp [Avoids]

/-- The glue `separator + " "` of a list separator of level `i`. -/
theorem avoids_glue {c : Char} {i : Nat} (hcl : listLevel c = some i) (hcm : mapLevel c = none)
    (hi : i < l) : Avoids l m [c, ' '] := by
  intro x hx
  rcases List.mem_pair.mp hx with rfl | rfl <;> simp [hcl, hcm, hi]

/-- A text avoids a list separator of its level or above. -/
theorem Avoids.not_mem_list {c : Char} {i : Nat} (h : Avoids l m s) (hc : listLevel c = some i)
    (hi : l ≤ i) : c ∉ s := fun hs => by
  have := (h c hs).1
  simp [hc] at this
  omega

/-- A text avoids a map separator of its level or above. -/
theorem Avoids.not_mem_map {c : Char} {a : Nat} (h : Avoids l m s) (hc : mapLevel c = some a)
    (ha : m ≤ a) : c ∉ s := fun hs => by
  have := (h c hs).2
  simp [hc] at this
  omega

end Avoids

theorem getLast?_map_forall {α β : Type} {f : α → β} {P : β → Prop} {xs : List α}
    (h : ∀ x ∈ xs, x ∈ xs.getLast? → P (f x)) : ∀ y ∈ (xs.map f).getLast?, P y := by
  simp only [List.getLast?_map, Option.mem_def, Option.map_eq_some']
  rintro _ ⟨x, hx, rfl⟩
  exact h x (List.mem_of_getLast?_eq_some hx) hx

/-! ## Leaves -/

theorem bare_of_forall {s : List Char} (h : ∀ c ∈ s, c ≠ ' ') : Bare s :=
  ⟨fun hh => h ' ' (List.mem_of_mem_head? hh) rfl,
    fun hl => h ' ' (List.mem_of_mem_getLast? hl) rfl⟩

/-- `std::to_string` writes a `-` and digits. -/
theorem decimal_chars (n : Int) : ∀ c ∈ decimal n, c = '-' ∨ c.isDigit = true := by
  have hall : ∀ c ∈ Nat.toDigits 10 n.natAbs, c.isDigit = true :=
    toDigitsCore_isDigit _ _ [] (by simp)
  unfold decimal
  split
  · intro c hc
    rcases List.mem_cons.mp hc with rfl | hc
    · exact .inl rfl
    · exact .inr (hall c hc)
  · exact fun c hc => .inr (hall c hc)

theorem decimal_text (n : Int) : Bare (decimal n) ∧ Avoids 0 0 (decimal n) ∧ decimal n ≠ [] := by
  refine ⟨bare_of_forall fun c hc => ?_, fun c hc => ?_, ?_⟩
  · rcases decimal_chars n c hc with rfl | h
    · decide
    · rintro rfl; exact absurd h (by decide)
  · rcases decimal_chars n c hc with rfl | h
    · decide
    · simp [level_of_isDigit h]
  · unfold decimal
    split
    · exact List.cons_ne_nil _ _
    · exact toDigits_ne_nil _

/-! ## Values and their text -/

/-- `T` is built from `int` and `bool` with the list-compatible containers, the map-compatible
containers and `std::pair`. -/
def Shape.Plain : Shape → Bool
  | .bool => true
  | .integral k => k == .int
  | .list _ t => t.Plain
  | .map _ k v | .pair k v => k.Plain && v.Plain
  | .string | .tensor _ _ | .complex _ => false

/-- `T` has no `signed char` leaf, the one arithmetic type whose `to_value` does not read back
what `to_string` writes. -/
def Shape.Codable : Shape → Bool
  | .bool | .string => true
  | .integral k => k != .signedChar
  | .list _ t | .tensor _ t | .complex t => t.Codable
  | .map _ k v | .pair k v => k.Codable && v.Codable

theorem Shape.codable_of_plain : ∀ {T : Shape}, T.Plain = true → T.Codable = true
  | .bool, _ | .string, _ => rfl
  | .integral _, h => by obtain rfl := beq_iff_eq.mp h; rfl
  | .list _ t, h => codable_of_plain (T := t) h
  | .map _ k v, h | .pair k v, h => by
    obtain ⟨hk, hv⟩ := Bool.and_eq_true_iff.mp h
    exact Bool.and_eq_true_iff.mpr ⟨codable_of_plain hk, codable_of_plain hv⟩
  | .tensor _ _, h | .complex _, h => absurd h Bool.false_ne_true

/-- `v` is written as the empty text: an empty string, container or tensor. -/
def Shape.isEmpty : (T : Shape) → T.Val → Bool
  | .string, s => s.isEmpty
  | .list _ _, xs => xs.isEmpty
  | .map _ _ _, xs => xs.isEmpty
  | .tensor _ _, xs => xs.1.isEmpty
  | _, _ => false

/-- The text `to_string (v, p)` writes, its checks left out. -/
def Shape.render : (T : Shape) → T.Val → Pattern → List Char
  | .bool, b, _ => if b then "true".toList else "false".toList
  | .integral _, v, _ => decimal v.1
  | .string, t, _ => t
  | .list _ t, xs, p =>
    match p with
    | .list base _ _ sep => joinEntries (sep.chars ++ [' ']) (xs.map (t.render · base))
    | _ => []
  | .map _ kt vt, xs, p =>
    match p with
    | .map kp vp _ _ sep kv =>
      joinEntries (sep.chars ++ [' '])
        (xs.map fun e => kt.render e.1 kp ++ kv.chars ++ vt.render e.2 vp)
    | _ => []
  | .tensor _ t, xs, p =>
    match p with
    | .list base _ _ sep => joinEntries (sep.chars ++ [' ']) (xs.1.map (t.render · base))
    | _ => []
  | .complex t, z, p =>
    match p with
    | .list base _ _ sep => t.render z.1 base ++ sep.chars ++ ' ' :: t.render z.2 base
    | _ => []
  | .pair kt vt, e, p =>
    match p with
    | .map kp vp _ _ _ kv => kt.render e.1 kp ++ kv.chars ++ vt.render e.2 vp
    | _ => []

example : Shape.render (.list .vector (.list .vector (.integral .int)))
    [[⟨1, by decide⟩, ⟨2, by decide⟩], [⟨3, by decide⟩]]
    (.list (.list (.integer minIntValue maxIntValue) 0 maxUnsignedInt (.single ',')) 0
      maxUnsignedInt (.single ';')) = "1, 2; 3".toList := rfl

/-- A value that `to_string` writes and `to_value` reads back: every string holds no separator
and no blank at either end, every container iterates in the order of its kind, holds at most
`max_elements` entries and does not end with an empty part, and no mapped value is empty. -/
def Shape.Admissible : (T : Shape) → T.Val → Prop
  | .bool, _ | .integral _, _ => True
  | .string, s => Bare s ∧ Avoids 0 0 s
  | .list k t, xs =>
    (∀ x ∈ xs, t.Admissible x) ∧ k.placement.Ordered t.cmp xs ∧ xs.length ≤ maxUnsignedInt ∧
      ∀ x ∈ xs.getLast?, t.isEmpty x = false
  | .map k kt vt, xs =>
    (∀ e ∈ xs, kt.Admissible e.1 ∧ vt.Admissible e.2 ∧ vt.isEmpty e.2 = false) ∧
      k.placement.Ordered (fun a b => kt.cmp a.1 b.1) xs ∧ xs.length ≤ maxUnsignedInt
  | .tensor _ t, xs => (∀ x ∈ xs.1, t.Admissible x) ∧ ∀ x ∈ xs.1.getLast?, t.isEmpty x = false
  | .complex t, z => t.Admissible z.1 ∧ t.Admissible z.2 ∧ t.isEmpty z.2 = false
  | .pair kt vt, e => kt.Admissible e.1 ∧ vt.Admissible e.2 ∧ vt.isEmpty e.2 = false

/-- `Shape.Admissible` is decided by recursion on the shape. -/
def Shape.decAdmissible : (T : Shape) → DecidablePred T.Admissible
  | .bool, _ | .integral _, _ => inferInstanceAs (Decidable True)
  | .string, s => inferInstanceAs (Decidable (Bare s ∧ Avoids 0 0 s))
  | .list k t, xs =>
    letI := t.decAdmissible
    inferInstanceAs (Decidable ((∀ x ∈ xs, t.Admissible x) ∧ k.placement.Ordered t.cmp xs ∧
      xs.length ≤ maxUnsignedInt ∧ ∀ x ∈ xs.getLast?, t.isEmpty x = false))
  | .map k kt vt, xs =>
    letI := kt.decAdmissible
    letI := vt.decAdmissible
    inferInstanceAs (Decidable ((∀ e ∈ xs, kt.Admissible e.1 ∧ vt.Admissible e.2 ∧
      vt.isEmpty e.2 = false) ∧
        k.placement.Ordered (fun (a b : kt.Val × vt.Val) => kt.cmp a.1 b.1) xs ∧
          xs.length ≤ maxUnsignedInt))
  | .tensor _ t, xs =>
    letI := t.decAdmissible
    inferInstanceAs (Decidable ((∀ x ∈ xs.1, t.Admissible x) ∧
      ∀ x ∈ xs.1.getLast?, t.isEmpty x = false))
  | .complex t, z =>
    letI := t.decAdmissible
    inferInstanceAs (Decidable (t.Admissible z.1 ∧ t.Admissible z.2 ∧ t.isEmpty z.2 = false))
  | .pair kt vt, e =>
    letI := kt.decAdmissible
    letI := vt.decAdmissible
    inferInstanceAs (Decidable (kt.Admissible e.1 ∧ vt.Admissible e.2 ∧ vt.isEmpty e.2 = false))

instance (T : Shape) : DecidablePred T.Admissible := T.decAdmissible

/-- A `key<kv>value` entry: `kv` is a map separator of level `a`. -/
theorem entry_text {k v : List Char} {d : Char} {lk mk lv mv a : Nat} (hd : d ≠ ' ')
    (hdl : listLevel d = none) (hdm : mapLevel d = some a) (ha : max mk mv ≤ a) (hk : Bare k)
    (hv : Bare v) (hne : v ≠ []) (hka : Avoids lk mk k) (hva : Avoids lv mv v) :
    Bare (k ++ [d] ++ v) ∧ Avoids (max lk lv) (a + 1) (k ++ [d] ++ v) ∧ k ++ [d] ++ v ≠ [] := by
  refine ⟨hk.append_glue hd hv hne, ?_, by simp⟩
  refine ((hka.mono (le_max_left _ _) (by omega)).append ?_).append
    (hva.mono (le_max_right _ _) (by omega))
  simp [avoids_singleton, hdl, hdm]

/-- The text of a list-like level: the texts of its parts, joined by a list separator of level
`i` that none of them holds. -/
theorem joined_text {es : List (List Char)} {c : Char} {i m : Nat} (hc : c ≠ ' ')
    (hcl : listLevel c = some i) (hcm : mapLevel c = none) (hes : ∀ e ∈ es, Bare e ∧ Avoids i m e)
    (hlast : ∀ e ∈ es.getLast?, e ≠ []) :
    Bare (joinEntries [c, ' '] es) ∧ Avoids (i + 1) m (joinEntries [c, ' '] es) ∧
      (es ≠ [] → joinEntries [c, ' '] es ≠ []) :=
  ⟨Bare.joinEntries hc [' '] (fun e he => (hes e he).1) hlast,
    Avoids.joinEntries (avoids_glue hcl hcm (Nat.lt_succ_self _)) fun e he =>
      (hes e he).2.mono (Nat.le_succ _) le_rfl,
    joinEntries_ne_nil hlast⟩

/-- The text `to_string` writes for `v` under `p` is clean: it neither starts nor ends with a
blank, holds only separators of the levels below the shape's own, and is empty only for an empty
value. -/
structure Shape.CleanText (T : Shape) (p : Pattern) (v : T.Val) : Prop where
  bare : Bare (T.render v p)
  avoids : Avoids (listRank T) (mapRank T) (T.render v p)
  nonempty : T.isEmpty v = false → T.render v p ≠ []

/-- The parts of a list-like level of element shape `t`, from the clean texts of the parts. -/
theorem joined_render {t : Shape} {base : Pattern} {c : Char} {xs : List t.Val} (hc : c ≠ ' ')
    (hcl : listLevel c = some (listRank t)) (hcm : mapLevel c = none)
    (ih : ∀ x ∈ xs, t.CleanText base x) (hlast : ∀ x ∈ xs.getLast?, t.isEmpty x = false) :
    Bare (joinEntries [c, ' '] (xs.map (t.render · base))) ∧
      Avoids (listRank t + 1) (mapRank t) (joinEntries [c, ' '] (xs.map (t.render · base))) ∧
      (xs ≠ [] → joinEntries [c, ' '] (xs.map (t.render · base)) ≠ []) := by
  obtain ⟨h1, h2, h3⟩ := joined_text hc hcl hcm
    (List.forall_mem_map.mpr fun x hx => ⟨(ih x hx).bare, (ih x hx).avoids⟩)
    (getLast?_map_forall fun x hx hl => (ih x hx).nonempty (hlast x hl))
  exact ⟨h1, h2, fun hne => h3 (mt List.map_eq_nil_iff.mp hne)⟩

/-- The two parts of a `std::complex` are written as a list of two. -/
theorem complex_text (a b : List Char) (c : Char) :
    a ++ (Separator.single c).chars ++ ' ' :: b = joinEntries [c, ' '] [a, b] := by
  simp [joinEntries]

/-- **The text of an admissible value** neither starts nor ends with a blank, holds only
separators of the levels below its own, and is empty only for an empty value. -/
theorem render_spec : ∀ (T : Shape) {p : Pattern} (v : T.Val), T.Codable = true →
    toPattern T = some p → T.Admissible v → T.CleanText p v
  | .bool, p, v, _, hp, _ => by
    cases hp
    cases v <;> exact ⟨bare_of_forall (by decide), by decide, by decide⟩
  | .integral _, p, v, _, hp, _ => by
    cases hp
    exact ⟨(decimal_text v.1).1, (decimal_text v.1).2.1, fun _ => (decimal_text v.1).2.2⟩
  | .string, p, s, _, hp, hv => by
    cases hp
    exact ⟨hv.1, hv.2, List.isEmpty_eq_false.mp⟩
  | .list k t, p, xs, hT, hp, hv => by
    obtain ⟨base, sep, hb, hs, rfl⟩ := toPattern_list.mp hp
    obtain ⟨c, rfl, hc, hcl, hcm⟩ := defaultListSeparator_level hs
    obtain ⟨h1, h2, h3⟩ := joined_render hc hcl hcm
      (fun x hx => render_spec t x hT hb (hv.1 x hx)) hv.2.2.2
    exact ⟨h1, h2, fun hne => h3 (List.isEmpty_eq_false.mp hne)⟩
  | .tensor _ t, p, xs, hT, hp, hv => by
    obtain ⟨base, sep, hb, hs, rfl⟩ := toPattern_tensor.mp hp
    obtain ⟨c, rfl, hc, hcl, hcm⟩ := defaultListSeparator_level hs
    obtain ⟨h1, h2, h3⟩ := joined_render hc hcl hcm
      (fun x hx => render_spec t x hT hb (hv.1 x hx)) hv.2
    exact ⟨h1, h2, fun hne => h3 (List.isEmpty_eq_false.mp hne)⟩
  | .complex t, p, z, hT, hp, hv => by
    obtain ⟨base, sep, hb, hs, rfl⟩ := toPattern_complex.mp hp
    obtain ⟨c, rfl, hc, hcl, hcm⟩ := defaultListSeparator_level hs
    obtain ⟨h1, h2, h3⟩ := @joined_render t base c [z.1, z.2] hc hcl hcm
      (List.forall_mem_cons.mpr ⟨render_spec t _ hT hb hv.1,
        List.forall_mem_singleton.mpr (render_spec t _ hT hb hv.2.1)⟩)
      fun x hx => Option.mem_some_iff.mp hx ▸ hv.2.2
    have hrender : Shape.render (.complex t) z (.list base 2 2 (.single c)) =
        joinEntries [c, ' '] [t.render z.1 base, t.render z.2 base] := complex_text _ _ c
    exact ⟨hrender ▸ h1, hrender ▸ h2, fun _ => hrender ▸ h3 (List.cons_ne_nil _ _)⟩
  | .map k kt vt, p, xs, hT, hp, hv => by
    obtain ⟨hkt, hvt⟩ := Bool.and_eq_true_iff.mp hT
    obtain ⟨kp, vp, sep, kv, hk, hvp, hs, hkv, rfl⟩ := toPattern_map.mp hp
    obtain ⟨c, rfl, hc, hcl, hcm⟩ := defaultListSeparator_level hs
    obtain ⟨d, rfl, hd, hdl, hdm⟩ := defaultMapSeparator_level hkv
    have hentry e (he : e ∈ xs) := by
      obtain ⟨hka, hva, hne⟩ := hv.1 e he
      obtain ⟨hk1, hk2, -⟩ := render_spec kt e.1 hkt hk hka
      obtain ⟨hv1, hv2, hv3⟩ := render_spec vt e.2 hvt hvp hva
      exact entry_text hd hdl hdm le_rfl hk1 hv1 (hv3 hne) hk2 hv2
    obtain ⟨h1, h2, h3⟩ := joined_text hc hcl hcm
      (List.forall_mem_map.mpr fun e he => ⟨(hentry e he).1, (hentry e he).2.1⟩)
      (getLast?_map_forall fun e he _ => (hentry e he).2.2)
    exact ⟨h1, h2, fun hne => h3 (mt List.map_eq_nil_iff.mp (List.isEmpty_eq_false.mp hne))⟩
  | .pair kt vt, p, e, hT, hp, hv => by
    obtain ⟨hkt, hvt⟩ := Bool.and_eq_true_iff.mp hT
    obtain ⟨kp, vp, sep, kv, hk, hvp, -, hkv, rfl⟩ := toPattern_pair.mp hp
    obtain ⟨d, rfl, hd, hdl, hdm⟩ := defaultMapSeparator_level hkv
    obtain ⟨hka, hva, hne⟩ := hv
    obtain ⟨hk1, hk2, -⟩ := render_spec kt e.1 hkt hk hka
    obtain ⟨hv1, hv2, hv3⟩ := render_spec vt e.2 hvt hvp hva
    obtain ⟨h1, h2, h3⟩ := entry_text hd hdl hdm le_rfl hk1 hv1 (hv3 hne) hk2 hv2
    exact ⟨h1, h2, fun _ => h3⟩

end Patterns
