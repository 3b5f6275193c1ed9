import Feloxi.Lib.Regex

/-!
# Feloxi.Alerting.TaskGlobs

The task-name filter of the alert-scoped queries (`glob_to_regex` and `task_predicate` in
`crates/db/src/clickhouse/aggregations.rs`): no predicate, an equality, or a regular expression
that ClickHouse gives to RE2.
-/

namespace Feloxi.Alerting

open Regex (Piece isMatch)

/-! ### The filter -/

/-- One character of a glob; only `*` is special. -/
def globChar (ch : Char) : List Char :=
  match ch with
  | '*' => ['.', '*']
  | '.' | '+' | '?' | '(' | ')' | '[' | ']' | '{' | '}' | '^' | '$' | '|' | '\\' => ['\\', ch]
  | other => [other]

/-- Convert a task-name glob into an anchored RE2 pattern. -/
def globToRegex (glob : String) : String :=
  String.ofList ('^' :: (glob.toList.flatMap globChar ++ ['$']))

/-- The predicate of a pattern and its bind value; `none` when it matches everything. -/
def taskPredicate (taskPattern : String) : Option (String × String) :=
  if taskPattern.isEmpty || taskPattern == "*" then none
  else if taskPattern.toList.contains '*' then
    some ("match(CAST(task_name AS String), ?)", globToRegex taskPattern)
  else some ("CAST(task_name AS String) = ?", taskPattern)

/-- Whether a row of this task name passes a predicate. -/
def passes (predicate : String × String) (taskName : String) : Bool :=
  if predicate.1 = "match(CAST(task_name AS String), ?)" then
    isMatch predicate.2.toList taskName.toList
  else taskName == predicate.2

/-- Whether a query scoped to a pattern reads the rows of a task. -/
def selects (taskPattern taskName : String) : Bool :=
  match taskPredicate taskPattern with
  | none => true
  | some predicate => passes predicate taskName

/-! ### Globs -/

/-- A star stands for any text, every other character for itself. -/
inductive GlobMatches : List Char → List Char → Prop where
  | nil : GlobMatches [] []
  | star {glob text : List Char} (any : List Char) (rest : GlobMatches glob text) :
      GlobMatches ('*' :: glob) (any ++ text)
  | char {glob text : List Char} {c : Char} (plain : c ≠ '*') (rest : GlobMatches glob text) :
      GlobMatches (c :: glob) (c :: text)

theorem globMatches_nil {text : List Char} : GlobMatches [] text ↔ text = [] := by
  constructor
  · intro h
    cases h
    rfl
  · intro h
    exact h ▸ .nil

theorem globMatches_star {glob text : List Char} :
    GlobMatches ('*' :: glob) text ↔ ∃ any rest, text = any ++ rest ∧ GlobMatches glob rest := by
  constructor
  · intro h
    cases h with
    | star any rest => exact ⟨any, _, rfl, rest⟩
    | char plain rest => exact absurd rfl plain
  · intro ⟨any, rest, htext, h⟩
    exact htext ▸ .star any h

theorem globMatches_char {c : Char} (plain : c ≠ '*') {glob text : List Char} :
    GlobMatches (c :: glob) text ↔ ∃ rest, text = c :: rest ∧ GlobMatches glob rest := by
  constructor
  · intro h
    cases h with
    | star any rest => exact absurd rfl plain
    | char plain rest => exact ⟨_, rfl, rest⟩
  · intro ⟨rest, htext, h⟩
    exact htext ▸ .char plain h

/-- A star matches everything. -/
theorem globMatches_all (text : List Char) : GlobMatches ['*'] text :=
  globMatches_star.2 ⟨text, [], (List.append_nil text).symm, .nil⟩

/-- A glob without a star matches itself. -/
theorem globMatches_of_not_mem {glob text : List Char} (h : '*' ∉ glob) :
    GlobMatches glob text ↔ text = glob := by
  induction glob generalizing text with
  | nil => exact globMatches_nil
  | cons c glob ih =>
      rw [List.mem_cons, not_or] at h
      simp [globMatches_char (Ne.symm h.1), ih h.2]

/-! ### The regular expression -/

/-- What a character of a glob is read as. -/
def globPiece (c : Char) : Piece := if c = '*' then .star .any else .one (.char c)

theorem globChar_meta {c : Char} (h : c ∈ Regex.metaChars) (hstar : c ≠ '*') :
    globChar c = ['\\', c] := by
  simp only [Regex.metaChars, List.mem_cons, List.not_mem_nil, or_false] at h
  rcases h with h | h | h | h | h | h | h | h | h | h | h | h | h | h <;> subst h <;>
    first | rfl | exact absurd rfl hstar

theorem globChar_plain {c : Char} (h : c ∉ Regex.metaChars) : globChar c = [c] := by
  simp only [Regex.metaChars, List.mem_cons, List.not_mem_nil, or_false, not_or] at h
  unfold globChar
  split <;> first | rfl | simp at h

/-- The tokens of a character: the escape set is that of RE2. -/
def globTokens (c : Char) : List Regex.Token :=
  if c = '*' then [.atom .any, .star] else [.atom (.char c)]

theorem tokens_globChar (c : Char) (s : List Char) :
    Regex.tokens (globChar c ++ s) = (Regex.tokens s).map (globTokens c ++ ·) := by
  by_cases hstar : c = '*'
  · subst hstar
    exact Regex.tokens_dotStar s
  · have htokens : globTokens c = [.atom (.char c)] := if_neg hstar
    rw [htokens]
    by_cases hmeta : c ∈ Regex.metaChars
    · rw [globChar_meta hmeta hstar]
      exact Regex.tokens_escaped hmeta s
    · rw [globChar_plain hmeta]
      exact Regex.tokens_plain hmeta s

theorem tokens_glob (glob : List Char) :
    Regex.tokens (glob.flatMap globChar ++ ['$']) =
      some (glob.flatMap globTokens ++ [.finish]) := by
  induction glob with
  | nil => rfl
  | cons c glob ih => simp [tokens_globChar, ih]

theorem pieces_glob (glob : List Char) :
    Regex.pieces (glob.flatMap globTokens ++ [.finish]) =
      some (glob.map globPiece ++ [.finish]) := by
  induction glob with
  | nil => rfl
  | cons c glob ih =>
      rw [List.flatMap_cons, List.append_assoc]
      by_cases hstar : c = '*'
      · simp [globTokens, globPiece, hstar, Regex.pieces, ih]
      · have hnext : ∀ ts, glob.flatMap globTokens ++ [.finish] ≠ Regex.Token.star :: ts := by
          intro ts
          cases glob with
          | nil => simp
          | cons d glob =>
              by_cases hd : d = '*' <;> simp [globTokens, hd]
        have hone : Regex.pieces (.atom (.char c) :: (glob.flatMap globTokens ++ [.finish])) =
            (Regex.pieces (glob.flatMap globTokens ++ [.finish])).map (.one (.char c) :: ·) := by
          rw [Regex.pieces]
          exact hnext
        simp [globTokens, globPiece, hstar, hone, ih]

theorem parse_globToRegex (glob : String) :
    Regex.parse (globToRegex glob).toList =
      some (.start :: (glob.toList.map globPiece ++ [.finish])) := by
  have htokens : Regex.tokens ('^' :: (glob.toList.flatMap globChar ++ ['$'])) =
      some (.start :: (glob.toList.flatMap globTokens ++ [.finish])) := by
    have hstart : Regex.plainToken '^' = some .start := rfl
    rw [Regex.tokens_cons (by decide), hstart, tokens_glob]
    rfl
  rw [globToRegex, String.toList_ofList, Regex.parse, htokens, Option.bind_some, Regex.pieces,
    pieces_glob, Option.map_some]

/-- Behind the first anchor, it does not matter where the text begins. -/
theorem matchHere_glob_start (glob : List Char) (st st' : Bool) (s : List Char) :
    Regex.matchHere (glob.map globPiece ++ [.finish]) st s =
      Regex.matchHere (glob.map globPiece ++ [.finish]) st' s := by
  induction glob generalizing st st' s with
  | nil => rfl
  | cons c glob ih =>
      by_cases hstar : c = '*'
      · rw [List.map_cons, List.cons_append, globPiece, if_pos hstar]
        cases s with
        | nil => exact ih st st' []
        | cons d s =>
            simp only [Regex.matchHere, Regex.starThen]
            rw [ih st st']
      · cases s <;> simp [globPiece, hstar, Regex.matchHere]

theorem matchHere_glob {glob text : List Char} (htext : '\n' ∉ text) {st : Bool} :
    Regex.matchHere (glob.map globPiece ++ [.finish]) st text = true ↔ GlobMatches glob text := by
  induction glob generalizing st text with
  | nil => simp [Regex.matchHere, globMatches_nil]
  | cons c glob ih =>
      by_cases hstar : c = '*'
      · subst hstar
        rw [List.map_cons, List.cons_append, globPiece, if_pos rfl, Regex.matchHere,
          Regex.starThen_eq_true (matchHere_glob_start glob), globMatches_star]
        constructor
        · intro hmatch
          obtain ⟨any, rest, h, -, hrest⟩ := hmatch
          subst h
          exact ⟨any, rest, rfl, (ih fun hmem => htext (List.mem_append_right _ hmem)).1 hrest⟩
        · intro hmatch
          obtain ⟨any, rest, h, hrest⟩ := hmatch
          subst h
          refine ⟨any, rest, rfl, fun d hd => ?_,
            (ih fun hmem => htext (List.mem_append_right _ hmem)).2 hrest⟩
          -- the dot takes every character but a line feed
          have hline : d ≠ '\n' := fun heq => htext (heq ▸ List.mem_append_left _ hd)
          simp [Regex.Atom.accepts, hline]
      · rw [globMatches_char hstar]
        cases text with
        | nil => simp [globPiece, hstar, Regex.matchHere]
        | cons d text =>
            rw [List.mem_cons, not_or] at htext
            simp [globPiece, hstar, Regex.matchHere, Regex.Atom.accepts, ih htext.2]

theorem isMatch_globToRegex {glob name : String} (hname : '\n' ∉ name.toList) :
    isMatch (globToRegex glob).toList name.toList = true ↔
      GlobMatches glob.toList name.toList := by
  rw [isMatch, parse_globToRegex]
  dsimp only
  rw [Regex.search_start, Bool.true_and]
  exact matchHere_glob hname

/-- **The filter is the glob.** A query scoped to a pattern reads the rows of a task exactly if
the pattern is empty or its glob matches the whole name. -/
theorem selects_iff (taskPattern taskName : String) (hname : '\n' ∉ taskName.toList) :
    selects taskPattern taskName = true ↔
      taskPattern = "" ∨ GlobMatches taskPattern.toList taskName.toList := by
  by_cases hempty : taskPattern = ""
  · subst hempty
    simp [selects, taskPredicate]
  by_cases hall : taskPattern = "*"
  · subst hall
    have hmatch : GlobMatches ['*'] taskName.toList := globMatches_all _
    simp [selects, taskPredicate, hmatch]
  by_cases hstar : '*' ∈ taskPattern.toList
  · simp [selects, taskPredicate, passes, hempty, hall, hstar, isMatch_globToRegex hname]
  · have heq : taskName.toList = taskPattern.toList ↔ taskName = taskPattern :=
      String.toList_inj
    simp [selects, taskPredicate, passes, hempty, hall, hstar, globMatches_of_not_mem hstar, heq]

/-- A glob with metacharacters, a name that it matches and one that the dot would. -/
theorem selects_iff_sample :
    (selects "a.b(*)" "a.b(c)" = true ↔
      "a.b(*)" = "" ∨ GlobMatches "a.b(*)".toList "a.b(c)".toList) ∧
    (selects "a.b(*)" "axb(c)" = true ↔
      "a.b(*)" = "" ∨ GlobMatches "a.b(*)".toList "axb(c)".toList) :=
  ⟨selects_iff "a.b(*)" "a.b(c)" (by simp), selects_iff "a.b(*)" "axb(c)" (by simp)⟩

example : selects "a.b(*)" "a.b(c)" = true ∧ selects "a.b(*)" "axb(c)" = false := by
  decide +kernel

end Feloxi.Alerting
