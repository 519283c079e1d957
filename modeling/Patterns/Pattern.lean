import Patterns.Split
import Patterns.Decimal

/-!
# The pattern variants

`Patterns::PatternBase` and the classes derived from it (`Integer`, `Selection`, `List`, `Map`,
`MultipleSelection`, `Bool`, `Anything`, `FileName`, `DirectoryName`) as one inductive type.
The header declares these classes; the bodies of their `match` functions are in `patterns.cc`,
which is not part of it, so `Pattern.matches` is modelled from the spec (§4.1): inclusive bounds,
inverted bounds meaning no bound, counted lists, maps whose entries split into exactly two parts.
`Patterns::Double` is left out with floating point.

* `Pattern.matches` — `PatternBase::match`.
* `Failure` — what a converter raises (`ExcNoMatch`, `ExcMessage`) or runs into (an access the
  C++ leaves undefined).
-/

set_option autoImplicit false

namespace Patterns

/-- `Patterns::FileName::FileType`. -/
inductive FileType where
  | input
  | output
  deriving DecidableEq, Repr

/-- A pattern object.  A container pattern owns clones of its sub-patterns, so a tree of values
models it; `selection` and `multipleSelection` hold the sequence passed to the constructor, whose
blanks around `|` `selectionOptions` removes. -/
inductive Pattern where
  | integer (lowerBound upperBound : Int)
  | selection (sequence : List Char)
  | list (pattern : Pattern) (minElements maxElements : Nat) (separator : Separator)
  | map (keyPattern valuePattern : Pattern) (minElements maxElements : Nat)
      (separator keyValueSeparator : Separator)
  | multipleSelection (sequence : List Char)
  | bool
  | anything
  | fileName (fileType : FileType)
  | directoryName
  deriving DecidableEq, Repr

/-- `Patterns::Integer::min_int_value`: `std::numeric_limits<int>::min()`. -/
def minIntValue : Int := -2147483648

/-- `Patterns::Integer::max_int_value`: `std::numeric_limits<int>::max()`. -/
def maxIntValue : Int := 2147483647

/-- `std::numeric_limits<unsigned int>::max()`, the default `max_elements` of `List` and `Map`. -/
def maxUnsignedInt : Nat := 4294967295

/-- Modelled from the spec: `Integer::match`.  The text is a decimal integer with an optional
sign, nothing but white space may follow, and the value must lie in `[lower_bound, upper_bound]`
unless `upper_bound < lower_bound`, which means no bound. -/
def integerMatch (lowerBound upperBound : Int) (s : List Char) : Bool :=
  match scanInteger s with
  | none => false
  | some (negative, magnitude, rest) =>
    let i := signedValue negative magnitude
    rest.all isSpace &&
      (decide (upperBound < lowerBound) || decide (lowerBound ≤ i ∧ i ≤ upperBound))

/-- Modelled from the spec: the options of a `Selection`, its sequence cut at `|`, without the
spaces on either side of each `|`, which the constructor removes. -/
def selectionOptions (sequence : List Char) : List (List Char) :=
  let pieces := sequence.splitOn '|'
  pieces.mapIdx fun i piece =>
    let piece := if i = 0 then piece else piece.dropWhile (· == ' ')
    if i + 1 = pieces.length then piece else piece.rdropWhile (· == ' ')

/-- Modelled from the spec: `Selection::match`, the text is one of the options exactly. -/
def selectionMatch (sequence s : List Char) : Bool := (selectionOptions sequence).contains s

example :
    selectionOptions " red | blue|black ".toList = [" red", "blue", "black "].map (·.toList) := by
  decide

/-- Modelled from the spec: `MultipleSelection::match`, a comma-separated list of options, each
trimmed; repeats are allowed and the blank text matches. -/
def multipleSelectionMatch (sequence s : List Char) : Bool :=
  s.all isSpace ||
    (s.splitOn ',').all fun pick => selectionMatch sequence (trimSpaces pick)

/-- Modelled from the spec: `PatternBase::match` of every variant. -/
def Pattern.matches : Pattern → List Char → Bool
  | .integer lo hi, s => integerMatch lo hi s
  | .selection sequence, s => selectionMatch sequence s
  | .list p minElements maxElements separator, s =>
    let parts := splitStringList s separator
    decide (minElements ≤ parts.length ∧ parts.length ≤ maxElements) && parts.all p.matches
  | .map kp vp minElements maxElements separator keyValueSeparator, s =>
    let parts := splitStringList s separator
    decide (minElements ≤ parts.length ∧ parts.length ≤ maxElements) &&
      parts.all fun entry =>
        match splitStringList entry keyValueSeparator with
        | [k, v] => kp.matches k && vp.matches v
        | _ => false
  | .multipleSelection sequence, s => multipleSelectionMatch sequence s
  | .bool, s => selectionMatch "true|false".toList s
  | .anything, _ => true
  | .fileName _, _ => true
  | .directoryName, _ => true

/-- What a converter of `Patterns::Tools` raises, or runs into. -/
inductive Failure where
  /-- `ExcNoMatch (string, pattern)`. -/
  | noMatch (string : List Char) (pattern : Pattern)
  /-- `ExcMessage (text)`. -/
  | message (text : String)
  /-- An access the C++ leaves undefined: past the end of a `std::vector` or a `Tensor`, or
  `*begin()` of an empty container. -/
  | undefinedBehaviour
  deriving DecidableEq, Repr

/-! ## Matching a list and a map -/

theorem matches_list (p : Pattern) (lo hi : Nat) (sep : Separator) (s : List Char) :
    (Pattern.list p lo hi sep).matches s = true ↔
      (lo ≤ (splitStringList s sep).length ∧ (splitStringList s sep).length ≤ hi) ∧
        ∀ x ∈ splitStringList s sep, p.matches x = true := by
  simp [Pattern.matches]

/-- An entry of a `Map` text that the map pattern accepts. -/
def EntryMatches (kp vp : Pattern) (kv : Separator) (entry : List Char) : Prop :=
  ∃ k v, splitStringList entry kv = [k, v] ∧ kp.matches k = true ∧ vp.matches v = true

theorem matches_map (kp vp : Pattern) (lo hi : Nat) (sep kv : Separator) (s : List Char) :
    (Pattern.map kp vp lo hi sep kv).matches s = true ↔
      (lo ≤ (splitStringList s sep).length ∧ (splitStringList s sep).length ≤ hi) ∧
        ∀ e ∈ splitStringList s sep, EntryMatches kp vp kv e := by
  simp only [Pattern.matches, Bool.and_eq_true, decide_eq_true_eq, List.all_eq_true]
  refine and_congr Iff.rfl (forall₂_congr fun e _ => ?_)
  unfold EntryMatches
  split
  · rename_i k v hkv
    simp only [hkv, List.cons.injEq, and_true, Bool.and_eq_true]
    exact ⟨fun h => ⟨k, v, ⟨rfl, rfl⟩, h⟩, fun ⟨_, _, ⟨hk, hv⟩, h⟩ => hk ▸ hv ▸ h⟩
  · rename_i hkv
    simp only [Bool.false_eq_true, false_iff, not_exists, not_and]
    exact fun k v h => absurd h (hkv k v)

end Patterns
