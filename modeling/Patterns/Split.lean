import Mathlib.Data.List.DropRight

/-!
# Splitting and joining texts

The conversion engine of `patterns.h` joins element texts with `separator + " "` and reads them
back with `Utilities::split_string_list`, which cuts at every occurrence of a delimiter and strips
the blanks around each piece.  `split_string_list` lives in `utilities.cc`, which is not part of
this header: it is modelled from the spec ("tokens are trimmed of surrounding whitespace at split
points", "an empty text … matches as zero elements"), with the loop of the library function.

* `splitStringList` — strip trailing blanks, then cut at the first delimiter until nothing is
  left, trimming each piece.  A trailing delimiter therefore gives no empty last piece.
* `joinEntries` — the `s = vec[0]; s += glue + vec[i]` loop of every `to_string`.
* `splitStringList_joinEntries` — splitting on a one-character separator undoes joining with it
  and a blank, provided no piece holds the separator or starts or ends with a blank, and the
  last piece is not empty.
* `splitStringList_entry` — the same for one `key<sep>value` entry.

Texts are `List Char`; the separators used here are ASCII, so a character is a byte.
-/

set_option autoImplicit false

namespace Patterns

/-- A separator of a `Patterns::List` or `Patterns::Map`.  `split_string_list` never leaves its
loop on an empty delimiter (the remaining text does not shrink), so separators are non-empty. -/
structure Separator where
  chars : List Char
  ne_nil : chars ≠ []
  deriving DecidableEq, Repr

/-- A one-character separator, as in `internal::default_list_separator`. -/
def Separator.single (c : Char) : Separator := ⟨[c], List.cons_ne_nil c []⟩

@[simp] theorem Separator.single_chars (c : Char) : (Separator.single c).chars = [c] := rfl

/-- Strip `' '` from both ends (the two `while` loops of `split_string_list`). -/
def trimSpaces (s : List Char) : List Char := (s.dropWhile (· == ' ')).rdropWhile (· == ' ')

/-- One pass of `split_string_list`'s loop: `tmp.find(delimiter)` gives the text before the first
occurrence and, if there is one, the text after it. -/
def cutAt (d : List Char) : List Char → List Char × Option (List Char)
  | [] => ([], none)
  | c :: cs =>
    if d.isPrefixOf (c :: cs) then ([], some ((c :: cs).drop d.length))
    else let r := cutAt d cs; (c :: r.1, r.2)

/-- The `while (tmp.length() != 0)` loop of `split_string_list`.  A pass removes at least one
character, so `fuel = tmp.length` passes suffice. -/
def splitLoop (d : Separator) : Nat → List Char → List (List Char)
  | 0, _ => []
  | fuel + 1, tmp =>
    if tmp = [] then [] else
    match cutAt d.chars tmp with
    | (name, some rest) => trimSpaces name :: splitLoop d fuel rest
    | (name, none) => [trimSpaces name]

/-- Modelled from the spec: `Utilities::split_string_list (s, delimiter)` of `utilities.cc`.
Trailing blanks of `s` are dropped first, so a text ending in the delimiter yields no empty last
piece, and a blank text yields no piece at all. -/
def splitStringList (s : List Char) (d : Separator) : List (List Char) :=
  let tmp := s.rdropWhile (· == ' ')
  splitLoop d tmp.length tmp

example : splitStringList "1 ,2, ".toList (.single ',') = ["1".toList, "2".toList] := rfl

example : splitStringList ";".toList (.single ';') = [[]] := rfl

/-- `s = vec[0]; for (i = 1; i < vec.size(); ++i) s += glue + vec[i]`. -/
def joinEntries (glue : List Char) : List (List Char) → List Char
  | [] => []
  | [e] => e
  | e :: e' :: es => e ++ glue ++ joinEntries glue (e' :: es)

/-- A text that neither starts nor ends with a blank; it may be empty. -/
structure Bare (s : List Char) : Prop where
  head : s.head? ≠ some ' '
  last : s.getLast? ≠ some ' '

instance (s : List Char) : Decidable (Bare s) :=
  decidable_of_iff (s.head? ≠ some ' ' ∧ s.getLast? ≠ some ' ')
    ⟨fun h => ⟨h.1, h.2⟩, fun h => ⟨h.1, h.2⟩⟩

/-! ## Trimming -/

theorem Bare.nil : Bare [] := ⟨nofun, nofun⟩

theorem trimSpaces_of_bare {s : List Char} (h : Bare s) : trimSpaces s = s := by
  have hd : s.dropWhile (· == ' ') = s := by
    cases s with
    | nil => rfl
    | cons c cs =>
      have hc : (c == ' ') = false := by simpa using h.head
      simp [List.dropWhile, hc]
  rw [trimSpaces, hd, List.rdropWhile_eq_self_iff]
  intro hs
  have hl := h.last
  rw [List.getLast?_eq_getLast s hs] at hl
  simpa using hl

theorem trimSpaces_blank_cons {s : List Char} (h : Bare s) : trimSpaces (' ' :: s) = s := by
  have : trimSpaces (' ' :: s) = trimSpaces s := by simp [trimSpaces, List.dropWhile]
  rw [this, trimSpaces_of_bare h]

/-- Two bare texts around a glue that starts with a character other than a blank stay bare,
when the right one is not empty. -/
theorem Bare.append_glue {a b g : List Char} {c : Char} (hc : c ≠ ' ') (ha : Bare a) (hb : Bare b)
    (hne : b ≠ []) : Bare (a ++ (c :: g) ++ b) := by
  constructor
  · cases a with
    | nil => simpa using hc
    | cons x xs => simpa using ha.head
  · obtain ⟨x, hx⟩ := Option.ne_none_iff_exists'.mp (mt List.getLast?_eq_none_iff.mp hne)
    have hl := hb.last
    rw [hx] at hl
    rw [List.getLast?_append, hx]
    simpa using hl

theorem joinEntries_ne_nil {g : List Char} :
    ∀ {es : List (List Char)}, (∀ l ∈ es.getLast?, l ≠ []) → es ≠ [] → joinEntries g es ≠ []
  | [], _, h => absurd rfl h
  | [e], hl, _ => hl e rfl
  | e :: e' :: es, hl, _ => by
    have : joinEntries g (e' :: es) ≠ [] :=
      joinEntries_ne_nil (by simpa using hl) (List.cons_ne_nil _ _)
    simp [joinEntries, this]

theorem Bare.joinEntries {c : Char} (hc : c ≠ ' ') (g : List Char) :
    ∀ {es : List (List Char)}, (∀ e ∈ es, Bare e) → (∀ l ∈ es.getLast?, l ≠ []) →
      Bare (joinEntries (c :: g) es)
  | [], _, _ => Bare.nil
  | [e], h, _ => h e (by simp)
  | e :: e' :: es, h, hl =>
    (h e (by simp)).append_glue hc
      (Bare.joinEntries hc g (fun x hx => h x (List.mem_cons_of_mem e hx)) (by simpa using hl))
      (joinEntries_ne_nil (by simpa using hl) (List.cons_ne_nil _ _))

/-! ## Cutting at a one-character delimiter -/

theorem cutAt_single_of_not_mem {c : Char} : ∀ {r : List Char}, c ∉ r → cutAt [c] r = (r, none)
  | [], _ => rfl
  | x :: xs, h => by
    have hx : x ≠ c := fun e => h (e ▸ List.mem_cons_self x xs)
    have ih := cutAt_single_of_not_mem (r := xs) (fun m => h (List.mem_cons_of_mem x m))
    simp [cutAt, List.isPrefixOf, Ne.symm hx, ih]

theorem cutAt_single_append {c : Char} (rest : List Char) :
    ∀ {r : List Char}, c ∉ r → cutAt [c] (r ++ c :: rest) = (r, some rest)
  | [], _ => by simp [cutAt]
  | x :: xs, h => by
    have hx : x ≠ c := fun e => h (e ▸ List.mem_cons_self x xs)
    have ih := cutAt_single_append rest (r := xs) (fun m => h (List.mem_cons_of_mem x m))
    simp [cutAt, List.isPrefixOf, Ne.symm hx, ih]

/-- The loop cuts a joined text back into its raw pieces, trimmed, as long as the last piece is
not empty (an empty last piece would leave the text ending in the delimiter). -/
theorem splitLoop_joinEntries {c : Char} :
    ∀ (raws : List (List Char)) (fuel : Nat), raws.length ≤ fuel → (∀ r ∈ raws, c ∉ r) →
      ∀ h : raws ≠ [], raws.getLast h ≠ [] →
      splitLoop (.single c) fuel (joinEntries [c] raws) = raws.map trimSpaces
  | [], _, _, _, h, _ => absurd rfl h
  | [r], fuel + 1, _, hc, _, hl => by
    have hr : r ≠ [] := by simpa using hl
    simp [splitLoop, joinEntries, hr, cutAt_single_of_not_mem (hc r (by simp))]
  | r :: r' :: rs, fuel + 1, hlen, hc, _, hl => by
    have ih := splitLoop_joinEntries (r' :: rs) fuel (by simp at hlen ⊢; omega)
      (fun x hx => hc x (List.mem_cons_of_mem r hx)) (List.cons_ne_nil r' rs)
      (by simpa using hl)
    have hcut := cutAt_single_append (joinEntries [c] (r' :: rs)) (hc r (by simp))
    simp only [joinEntries, List.append_assoc, List.singleton_append] at hcut ⊢
    simp [splitLoop, hcut, ih]

theorem joinEntries_cons_head (g : List Char) (x : Char) (e : List Char) :
    ∀ es : List (List Char), joinEntries g ((x :: e) :: es) = x :: joinEntries g (e :: es)
  | [] => rfl
  | _ :: _ => rfl

theorem length_le_joinEntries {g : List Char} (hg : g ≠ []) :
    ∀ (raws : List (List Char)) (h : raws ≠ []), raws.getLast h ≠ [] →
      raws.length ≤ (joinEntries g raws).length
  | [], h, _ => absurd rfl h
  | [r], _, hl => List.length_pos.mpr (by simpa using hl)
  | r :: r' :: rs, _, hl => by
    have ih := length_le_joinEntries hg (r' :: rs) (List.cons_ne_nil _ _) (by simpa using hl)
    have hg' := List.length_pos.mpr hg
    simp only [joinEntries, List.length_append, List.length_cons] at ih ⊢
    omega

/-- Joining with `c :: " "` is joining with `[c]` the pieces after the first, each led by a
blank. -/
theorem joinEntries_blank (c : Char) :
    ∀ (e : List Char) (es : List (List Char)),
      joinEntries [c, ' '] (e :: es) = joinEntries [c] (e :: es.map (' ' :: ·))
  | _, [] => rfl
  | e, e' :: es => by
    simp only [joinEntries, List.map_cons]
    rw [joinEntries_blank c e' es, joinEntries_cons_head]
    simp

theorem rdropWhile_blank_of_bare {s : List Char} (h : Bare s) : s.rdropWhile (· == ' ') = s := by
  rw [List.rdropWhile_eq_self_iff]
  intro hne
  have hl := h.last
  rw [List.getLast?_eq_getLast _ hne] at hl
  simpa using hl

/-- **Splitting undoes joining.**  Pieces that hold no separator character and are bare come back
unchanged from `split_string_list` after `to_string` joined them with `separator + " "`, as long
as the last one is not empty. -/
theorem splitStringList_joinEntries {c : Char} (hc : c ≠ ' ') :
    ∀ (es : List (List Char)), (∀ e ∈ es, Bare e ∧ c ∉ e) → (∀ l ∈ es.getLast?, l ≠ []) →
      splitStringList (joinEntries [c, ' '] es) (.single c) = es
  | [], _, _ => by simp [splitStringList, joinEntries, splitLoop]
  | e :: es, h, hl => by
    have hb : ∀ x ∈ e :: es, Bare x := fun x hx => (h x hx).1
    have hkeep := rdropWhile_blank_of_bare (Bare.joinEntries hc [' '] hb hl)
    have hraw : ∀ r ∈ e :: es.map (' ' :: ·), c ∉ r := by
      intro r hr
      simp only [List.mem_cons, List.mem_map] at hr
      rcases hr with rfl | ⟨x, hx, rfl⟩
      · exact (h r (by simp)).2
      · simp only [List.mem_cons, not_or]
        exact ⟨hc, (h x (by simp [hx])).2⟩
    have hlast : ∀ hne, (e :: es.map (' ' :: ·)).getLast hne ≠ [] := by
      intro hne
      cases es using List.reverseRecOn with
      | nil => simpa using hl
      | append_singleton xs x _ => simp [List.map_append]
    have hmap : es.map (trimSpaces ∘ (' ' :: ·)) = es := by
      conv_rhs => rw [← List.map_id es]
      exact List.map_congr_left fun x hx => trimSpaces_blank_cons (hb x (List.mem_cons_of_mem e hx))
    rw [splitStringList]
    simp only [hkeep]
    rw [joinEntries_blank, splitLoop_joinEntries _ _ (length_le_joinEntries (by simp) _ _
      (hlast (List.cons_ne_nil _ _))) hraw (List.cons_ne_nil _ _) (hlast (List.cons_ne_nil _ _))]
    simp only [List.map_cons, List.map_map, trimSpaces_of_bare (hb e (by simp)), hmap]

/-- One `key<sep>value` entry splits into its key and value text. -/
theorem splitStringList_entry {c : Char} {k v : List Char} (hc : c ≠ ' ') (hk : Bare k)
    (hv : Bare v) (hne : v ≠ []) (hck : c ∉ k) (hcv : c ∉ v) :
    splitStringList (k ++ c :: v) (.single c) = [k, v] := by
  have hj : joinEntries [c] [k, v] = k ++ c :: v := by simp [joinEntries]
  have hkv : Bare (joinEntries [c] [k, v]) :=
    Bare.joinEntries hc [] (by simp [hk, hv]) (by simpa using hne)
  have hkeep := rdropWhile_blank_of_bare hkv
  rw [splitStringList, ← hj]
  simp only [hkeep]
  rw [splitLoop_joinEntries [k, v] _ (length_le_joinEntries (by simp) [k, v] (by simp)
    (by simpa using hne)) (by simp [hck, hcv]) (by simp) (by simpa using hne)]
  simp [trimSpaces_of_bare hk, trimSpaces_of_bare hv]

end Patterns
