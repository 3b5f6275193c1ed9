import Mathlib.Data.List.Infix

/-!
# Feloxi.Lib.Regex

Regular expressions in the syntax of RE2, as far as sequences go: characters, escaped
metacharacters, `.`, a `*` after one of these, and the anchors. Everything else is refused.

An expression is searched for in a text: without anchors, an occurrence anywhere is enough.
-/

namespace Feloxi.Regex

/-- What matches one character. -/
inductive Atom where
  | char (c : Char)
  | any
  deriving Repr, DecidableEq

inductive Piece where
  | one (a : Atom)
  | star (a : Atom)
  | start
  | finish
  deriving Repr, DecidableEq

/-! ### Syntax -/

inductive Token where
  | atom (a : Atom)
  | star
  | start
  | finish
  deriving Repr, DecidableEq

/-- The characters that are not themselves unless they are escaped. -/
def metaChars : List Char :=
  ['.', '+', '*', '?', '(', ')', '[', ']', '{', '}', '^', '$', '|', '\\']

/-- A character without a backslash. -/
def plainToken (c : Char) : Option Token :=
  if c = '.' then some (.atom .any)
  else if c = '*' then some .star
  else if c = '^' then some .start
  else if c = '$' then some .finish
  else if c ∈ metaChars then none
  else some (.atom (.char c))

/-- A character after a backslash. -/
def escapedToken (c : Char) : Option Token :=
  if c ∈ metaChars then some (.atom (.char c)) else none

def tokens : List Char → Option (List Token)
  | [] => some []
  | c :: s =>
    if c = '\\' then
      match s with
      | [] => none
      | d :: s => (escapedToken d).bind fun t => (tokens s).map (t :: ·)
    else (plainToken c).bind fun t => (tokens s).map (t :: ·)

/-- A star belongs to the atom in front of it. -/
def pieces : List Token → Option (List Piece)
  | [] => some []
  | .start :: ts => (pieces ts).map (.start :: ·)
  | .finish :: ts => (pieces ts).map (.finish :: ·)
  | .atom a :: .star :: ts => (pieces ts).map (.star a :: ·)
  | .atom a :: ts => (pieces ts).map (.one a :: ·)
  | .star :: _ => none

def parse (re : List Char) : Option (List Piece) := (tokens re).bind pieces

/-! ### Matching -/

/-- A dot does not match the end of a line. -/
def Atom.accepts : Atom → Char → Bool
  | .char d, c => c == d
  | .any, c => c != '\n'

/-- Some characters that are accepted, and what comes after them. -/
def starThen (a : Atom) (next : Bool → List Char → Bool) : Bool → List Char → Bool
  | atStart, [] => next atStart []
  | atStart, c :: s => next atStart (c :: s) || (a.accepts c && starThen a next false s)

/-- The pieces match at the beginning of the rest of a text; `atStart` says whether that is the
whole of it. -/
def matchHere : List Piece → Bool → List Char → Bool
  | [], _, _ => true
  | .start :: ps, atStart, s => atStart && matchHere ps atStart s
  | .finish :: ps, atStart, s => s.isEmpty && matchHere ps atStart s
  | .star a :: ps, atStart, s => starThen a (matchHere ps) atStart s
  | .one _ :: _, _, [] => false
  | .one a :: ps, _, c :: s => a.accepts c && matchHere ps false s

/-- The pieces match somewhere. -/
def search (ps : List Piece) : Bool → List Char → Bool
  | atStart, [] => matchHere ps atStart []
  | atStart, c :: s => matchHere ps atStart (c :: s) || search ps false s

/-- Whether a text has a match of the expression. -/
def isMatch (re s : List Char) : Bool :=
  match parse re with
  | some ps => search ps true s
  | none => false

/-! ### Rules -/

theorem tokens_escaped {c : Char} (h : c ∈ metaChars) (s : List Char) :
    tokens ('\\' :: c :: s) = (tokens s).map (.atom (.char c) :: ·) := by
  simp [tokens, escapedToken, h]

theorem tokens_cons {c : Char} (h : c ≠ '\\') (s : List Char) :
    tokens (c :: s) = (plainToken c).bind fun t => (tokens s).map (t :: ·) := by
  conv => lhs; unfold tokens
  exact if_neg h

theorem tokens_plain {c : Char} (h : c ∉ metaChars) (s : List Char) :
    tokens (c :: s) = (tokens s).map (.atom (.char c) :: ·) := by
  have hslash : c ≠ '\\' := fun heq => h (by simp [heq, metaChars])
  have hplain : plainToken c = some (.atom (.char c)) := by
    have hnot := h
    simp only [metaChars, List.mem_cons, List.not_mem_nil, or_false, not_or] at hnot
    simp [plainToken, h, hnot]
  rw [tokens_cons hslash, hplain, Option.bind_some]

theorem tokens_dotStar (s : List Char) :
    tokens ('.' :: '*' :: s) = (tokens s).map fun ts => .atom .any :: .star :: ts := by
  have hdot : plainToken '.' = some (.atom .any) := rfl
  have hstar : plainToken '*' = some .star := rfl
  rw [tokens_cons (by decide), tokens_cons (by decide), hdot, hstar]
  cases tokens s <;> rfl

theorem starThen_eq_true {a : Atom} {next : Bool → List Char → Bool}
    (hnext : ∀ st st' s, next st s = next st' s) {st : Bool} {s : List Char} :
    starThen a next st s = true ↔
      ∃ u v, s = u ++ v ∧ (∀ c ∈ u, a.accepts c = true) ∧ next st v = true := by
  induction s generalizing st with
  | nil => simp [starThen]
  | cons c s ih =>
      rw [starThen, Bool.or_eq_true, Bool.and_eq_true, ih]
      constructor
      · intro h
        rcases h with h | ⟨hc, u, v, rfl, hu, hv⟩
        · exact ⟨[], c :: s, by simp, by simp, h⟩
        · exact ⟨c :: u, v, by simp, by simpa [hc] using hu, (hnext _ _ v).trans hv⟩
      · intro ⟨u, v, hs, hu, hv⟩
        cases u with
        | nil => exact .inl (by simpa [hs] using hv)
        | cons d u =>
            obtain ⟨rfl, rfl⟩ := List.cons.inj hs
            exact .inr ⟨hu c List.mem_cons_self, u, v, rfl,
              fun e he => hu e (List.mem_cons_of_mem _ he), (hnext _ _ v).trans hv⟩

/-- An expression that begins with an anchor matches at the beginning only. -/
theorem search_start (ps : List Piece) (st : Bool) (s : List Char) :
    search (.start :: ps) st s = (st && matchHere ps st s) := by
  induction s generalizing st with
  | nil => rfl
  | cons c s ih => simp [search, matchHere, ih]

end Feloxi.Regex
