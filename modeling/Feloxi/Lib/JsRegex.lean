import Feloxi.Lib.Text

/-!
# Feloxi.Lib.JsRegex

Regular expressions of JavaScript, matched by backtracking: sets of characters, greedy and lazy
repetition, groups and references to them, lookahead, word boundaries and the two anchors. A match
takes what stands in front of it into account, and goes on by what is to match behind.

Texts have no lone surrogates, and sets tell no part of a pair from another, so that a character
counts once here where JavaScript counts code units.
-/

namespace Feloxi.JsRegex

/-! ### Expressions -/

inductive Re where
  | empty
  /-- A character, or an escape or a class for one. -/
  | set (accepts : Char → Bool)
  | seq (a b : Re)
  | alt (a b : Re)
  /-- `a*`, or `a*?`. -/
  | star (greedy : Bool) (a : Re)
  /-- `(?=a)`. -/
  | look (a : Re)
  /-- `\b`. -/
  | edge
  | start
  | finish
  /-- `(a)`, by its number. -/
  | group (n : Nat) (a : Re)
  /-- `\n`. -/
  | back (n : Nat)

/-- Where a match has got to: what stands in front, backwards, what is left, and the groups. -/
structure Cursor where
  before : List Char
  rest : List Char
  groups : List (Nat × List Char)
  deriving Repr, DecidableEq

/-- `\w`. -/
def isWord (c : Char) : Bool := c.isAlphanum || c == '_'

/-- `\s`. -/
def isSpace (c : Char) : Bool := (isWhiteSpace c && c != '\u0085') || c == '\uFEFF'

def startsWithWord : List Char → Bool
  | [] => false
  | c :: _ => isWord c

/-- The next character is read. -/
def Cursor.advance (c : Cursor) (d : Char) (rest : List Char) : Cursor :=
  { c with before := d :: c.before, rest }

abbrev Continuation := Cursor → Option Cursor

/-- The rounds of a repetition; each has to take something, so that there are as many as characters
left. -/
def starLoop (one : Cursor → Continuation → Option Cursor) (greedy : Bool) :
    Nat → Cursor → Continuation → Option Cursor
  | 0, c, next => next c
  | rounds + 1, c, next =>
    let again := one c fun c' =>
      if c'.rest.length < c.rest.length then starLoop one greedy rounds c' next else none
    if greedy then again.or (next c) else (next c).or again

def Re.run : Re → Cursor → Continuation → Option Cursor
  | .empty, c, next => next c
  | .set accepts, c, next =>
    match c.rest with
    | [] => none
    | d :: rest => if accepts d then next (c.advance d rest) else none
  | .seq a b, c, next => a.run c fun c' => b.run c' next
  | .alt a b, c, next => (a.run c next).or (b.run c next)
  | .star greedy a, c, next => starLoop a.run greedy c.rest.length c next
  | .look a, c, next =>
    match a.run c some with
    | none => none
    | some found => next { c with groups := found.groups }
  | .edge, c, next =>
    if startsWithWord c.before != startsWithWord c.rest then next c else none
  | .start, c, next => if c.before.isEmpty then next c else none
  | .finish, c, next => if c.rest.isEmpty then next c else none
  | .group n a, c, next => a.run c fun c' =>
    next { c' with groups := (n, c.rest.take (c.rest.length - c'.rest.length)) :: c'.groups }
  | .back n, c, next =>
    match c.groups.lookup n with
    | none => next c
    | some text =>
      match c.rest.dropPrefix? text with
      | none => none
      | some rest => next { c with before := text.reverse ++ c.before, rest }

/-- A match at this place. -/
def Re.matchAt (re : Re) (before rest : List Char) : Option Cursor := re.run ⟨before, rest, []⟩ some

/-- `exec`: the first place with a match, as what is skipped in front of it, and the match. -/
def Re.exec (re : Re) (before : List Char) : List Char → Option (List Char × Cursor)
  | [] => (re.matchAt before []).map fun found => ([], found)
  | d :: rest =>
    match re.matchAt before (d :: rest) with
    | some found => some ([], found)
    | none => (re.exec (d :: before) rest).map fun found => (d :: found.1, found.2)

/-- `replace`, of every match that takes something. -/
def replaceLoop (re : Re) (sub : Cursor → List Char) : Nat → List Char → List Char → List Char
  | 0, _, rest => rest
  | rounds + 1, before, rest =>
    match re.exec before rest with
    | none => rest
    | some (skipped, found) =>
      if found.rest.length < rest.length then
        skipped ++ sub found ++ replaceLoop re sub rounds found.before found.rest
      else rest

def Re.replace (re : Re) (sub : Cursor → List Char) (text : List Char) : List Char :=
  replaceLoop re sub text.length [] text

/-! ### Abbreviations -/

def char (c : Char) : Re := .set (· == c)

/-- One after the other. -/
def all : List Re → Re
  | [] => .empty
  | [a] => a
  | a :: rest => .seq a (all rest)

def any : List Re → Re
  | [] => .set fun _ => false
  | [a] => a
  | a :: rest => .alt a (any rest)

def text (s : String) : Re := all (s.toList.map char)

/-- `a{n}`. -/
def times (n : Nat) (a : Re) : Re := all (List.replicate n a)

/-- `a{n,}`. -/
def atLeast (n : Nat) (a : Re) : Re := .seq (times n a) (.star true a)

/-- What a group has matched. -/
def Cursor.group (c : Cursor) (n : Nat) : List Char := (c.groups.lookup n).getD []

end Feloxi.JsRegex
