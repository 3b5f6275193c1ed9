import Feloxi.Lib.Json

/-!
# Feloxi.Tasks.SafeRepr

What Celery records of a call: `saferepr(maxlen=1024)` of its arguments, for the values
that JSON can hold.

The budget is used up token by token. A string that does not fit is cut; once nothing is
left, `, ...` is printed in place of the next token and the open brackets are closed.
-/

namespace Feloxi.Tasks

/-- A Python value. -/
inductive PyValue where
  | none
  | bool (b : Bool)
  | int (n : Int)
  | str (s : String)
  | list (xs : List PyValue)
  | tuple (xs : List PyValue)
  | dict (entries : List (String × PyValue))

namespace PyValue

/-! ### The JSON form -/

mutual

def toJson : PyValue → Json
  | .none => .null
  | .bool b => .bool b
  | .int n => .int n
  | .str s => .str s
  | .list xs => .arr (toJsonItems xs)
  | .tuple xs => .arr (toJsonItems xs)
  | .dict entries => .ofEntries (toJsonEntries entries)

def toJsonItems : List PyValue → List Json
  | [] => []
  | x :: xs => x.toJson :: toJsonItems xs

def toJsonEntries : List (String × PyValue) → List (String × Json)
  | [] => []
  | (k, v) :: entries => (k, v.toJson) :: toJsonEntries entries

end

/-! ### Python's own text -/

def intText (n : Int) : List Char :=
  if n < 0 then '-' :: Nat.toDigits 10 n.natAbs else Nat.toDigits 10 n.natAbs

/-- A string between single quotes; only these are escaped. -/
def escape (s : List Char) : List Char := s.flatMap fun c => if c = '\'' then ['\\', '\''] else [c]

def quote (s : String) : List Char := '\'' :: (escape s.toList ++ ['\''])

/-- The end of a tuple of `n` elements. -/
def tupleEnd (n : Nat) : List Char := if n = 1 then [',', ')'] else [')']

mutual

def text : PyValue → List Char
  | .none => "None".toList
  | .bool b => if b then "True".toList else "False".toList
  | .int n => intText n
  | .str s => quote s
  | .list xs => '[' :: (textItems true xs ++ [']'])
  | .tuple xs => '(' :: (textItems true xs ++ tupleEnd xs.length)
  | .dict entries => '{' :: (textEntries true entries ++ ['}'])

/-- The elements, each but the first after a comma. -/
def textItems (first : Bool) : List PyValue → List Char
  | [] => []
  | x :: xs => (if first then [] else [',', ' ']) ++ (x.text ++ textItems false xs)

def textEntries (first : Bool) : List (String × PyValue) → List Char
  | [] => []
  | (k, v) :: entries =>
    (if first then [] else [',', ' ']) ++
      (quote k ++ (':' :: ' ' :: (v.text ++ textEntries false entries)))

end

/-! ### Within a budget -/

/-- `rsplit(' ', 1)[0]`. -/
def beforeLastSpace (s : List Char) : List Char :=
  if ' ' ∈ s then (s.reverse.dropWhile (· != ' ')).tail.reverse else s

/-- A string cut to a budget that it does not stay below. -/
def truncate (budget : Nat) (s : String) : String :=
  if budget ≤ s.length then String.ofList (beforeLastSpace (s.toList.take budget)) ++ "..." else s

/-- What stands in place of the token for which nothing is left. -/
def cutMark : List Char := [',', ' ', '.', '.', '.']

/-- A value as it was printed, and the budget left; or a text that was cut off. -/
inductive Printed (α : Type) where
  | done (shown : α) (budget : Nat)
  | cutOff (text : List Char)

namespace Printed

variable {α β : Type}

/-- Text in front of a text that was cut off. -/
def after (lead : List Char) : Printed α → Printed α
  | .done shown budget => .done shown budget
  | .cutOff text => .cutOff (lead ++ text)

def map (f : α → β) : Printed α → Printed β
  | .done shown budget => .done (f shown) budget
  | .cutOff text => .cutOff text

/-- A token, and what comes after it. -/
def token (lead : List Char) (next : Nat → Printed α) (budget : Nat) : Printed α :=
  if budget = 0 then .cutOff cutMark else (next (budget - lead.length)).after lead

/-- A part, and what comes after it. -/
def andThen (r : Printed α) (textOf : α → List Char) (next : α → Nat → Printed β) : Printed β :=
  match r with
  | .done shown budget => (next shown budget).after (textOf shown)
  | .cutOff text => .cutOff text

/-- A string, cut if it does not fit. -/
def string (s : String) (budget : Nat) : Printed String :=
  if budget = 0 then .cutOff cutMark
  else .done (truncate budget s) (budget - (quote (truncate budget s)).length)

/-- A part in brackets, which are closed in any case. -/
def bracketed (opening closing : List Char) (body : Nat → Printed α) (textOf : α → List Char) :
    Nat → Printed α :=
  token opening fun budget =>
    match body budget with
    | .done shown budget =>
      if budget = 0 then .cutOff (textOf shown ++ (cutMark ++ closing))
      else .done shown (budget - closing.length)
    | .cutOff text => .cutOff (text ++ closing)

/-! What is printed in whole. -/

theorem map_done {f : α → β} {r : Printed α} {x : β} {left : Nat} (h : r.map f = .done x left) :
    ∃ y, r = .done y left ∧ f y = x := by
  cases r with
  | done y b =>
      cases h
      exact ⟨y, rfl, rfl⟩
  | cutOff t => cases h

theorem after_done {lead : List Char} {r : Printed α} {x : α} {left : Nat}
    (h : r.after lead = .done x left) : r = .done x left := by
  cases r with
  | done y b => exact h
  | cutOff t => cases h

theorem token_done {lead : List Char} {next : Nat → Printed α} {budget left : Nat} {x : α}
    (h : token lead next budget = .done x left) :
    0 < budget ∧ next (budget - lead.length) = .done x left := by
  unfold token at h
  split at h
  · cases h
  · rename_i hbudget
    exact ⟨Nat.pos_of_ne_zero hbudget, after_done h⟩

theorem andThen_done {r : Printed α} {textOf : α → List Char} {next : α → Nat → Printed β}
    {x : β} {left : Nat} (h : r.andThen textOf next = .done x left) :
    ∃ y budget, r = .done y budget ∧ next y budget = .done x left := by
  cases r with
  | done y budget => exact ⟨y, budget, rfl, after_done h⟩
  | cutOff t => cases h

theorem string_done {s t : String} {budget left : Nat} (h : string s budget = .done t left) :
    0 < budget ∧ t = truncate budget s ∧ left = budget - (quote t).length := by
  unfold string at h
  split at h
  · cases h
  · rename_i hbudget
    cases h
    exact ⟨Nat.pos_of_ne_zero hbudget, rfl, rfl⟩

theorem bracketed_done {opening closing : List Char} {body : Nat → Printed α}
    {textOf : α → List Char} {budget left : Nat} {x : α}
    (h : bracketed opening closing body textOf budget = .done x left) :
    ∃ within, 0 < within ∧ body (budget - opening.length) = .done x within ∧
      left = within - closing.length := by
  obtain ⟨-, h⟩ := token_done h
  split at h
  · split at h
    · cases h
    · rename_i hwithin
      cases h
      exact ⟨_, Nat.pos_of_ne_zero hwithin, by assumption, rfl⟩
  · cases h

/-! What is cut off. -/

theorem map_cutOff {f : α → β} {r : Printed α} {t : List Char} (h : r.map f = .cutOff t) :
    r = .cutOff t := by
  cases r with
  | done y b => cases h
  | cutOff t' => exact congrArg _ (Printed.cutOff.inj h)

theorem after_cutOff {lead : List Char} {r : Printed α} {t : List Char}
    (h : r.after lead = .cutOff t) : ∃ t', r = .cutOff t' ∧ t = lead ++ t' := by
  cases r with
  | done y b => cases h
  | cutOff t' => exact ⟨t', rfl, (Printed.cutOff.inj h).symm⟩

theorem token_cutOff {lead : List Char} {next : Nat → Printed α} {budget : Nat} {t : List Char}
    (h : token lead next budget = .cutOff t) :
    t = cutMark ∨ ∃ t', next (budget - lead.length) = .cutOff t' ∧ t = lead ++ t' := by
  unfold token at h
  split at h
  · exact .inl (Printed.cutOff.inj h).symm
  · exact .inr (after_cutOff h)

theorem andThen_cutOff {r : Printed α} {textOf : α → List Char} {next : α → Nat → Printed β}
    {t : List Char} (h : r.andThen textOf next = .cutOff t) :
    r = .cutOff t ∨
      ∃ y budget t', r = .done y budget ∧ next y budget = .cutOff t' ∧ t = textOf y ++ t' := by
  cases r with
  | done y budget =>
      obtain ⟨t', hnext, ht⟩ := after_cutOff h
      exact .inr ⟨y, budget, t', rfl, hnext, ht⟩
  | cutOff t' => exact .inl (congrArg _ (Printed.cutOff.inj h))

theorem string_cutOff {s : String} {budget : Nat} {t : List Char}
    (h : string s budget = .cutOff t) : t = cutMark := by
  unfold string at h
  split at h
  · exact (Printed.cutOff.inj h).symm
  · cases h

theorem bracketed_cutOff {opening closing : List Char} {body : Nat → Printed α}
    {textOf : α → List Char} {budget : Nat} {t : List Char}
    (h : bracketed opening closing body textOf budget = .cutOff t) :
    t = cutMark ∨
      (∃ x, body (budget - opening.length) = .done x 0 ∧
        t = opening ++ (textOf x ++ (cutMark ++ closing))) ∨
      ∃ t', body (budget - opening.length) = .cutOff t' ∧ t = opening ++ (t' ++ closing) := by
  rcases token_cutOff h with ht | ⟨t', h, ht⟩
  · exact .inl ht
  · split at h
    · split at h
      · rename_i hwithin
        subst hwithin
        cases h
        exact .inr (.inl ⟨_, by assumption, ht⟩)
      · cases h
    · cases h
      exact .inr (.inr ⟨_, by assumption, ht⟩)

end Printed

mutual

/-- A value within a budget. -/
def print : PyValue → Nat → Printed PyValue
  | .none => Printed.token "None".toList (.done .none)
  | .bool b => Printed.token (text (.bool b)) (.done (.bool b))
  | .int n => Printed.token (intText n) (.done (.int n))
  | .str s => fun budget => (Printed.string s budget).map .str
  | .list xs => fun budget =>
    (Printed.bracketed ['['] [']'] (printItems true xs) (textItems true) budget).map .list
  | .tuple xs => fun budget =>
    (Printed.bracketed ['('] (tupleEnd xs.length) (printItems true xs) (textItems true) budget).map
      .tuple
  | .dict entries => fun budget =>
    (Printed.bracketed ['{'] ['}'] (printEntries true entries) (textEntries true) budget).map .dict

def printItems (first : Bool) : List PyValue → Nat → Printed (List PyValue)
  | [] => .done []
  | x :: xs =>
    let element : Nat → Printed (List PyValue) := fun budget =>
      (x.print budget).andThen text fun x budget => (printItems false xs budget).map (x :: ·)
    if first then element else Printed.token [',', ' '] element

def printEntries (first : Bool) :
    List (String × PyValue) → Nat → Printed (List (String × PyValue))
  | [] => .done []
  | (k, v) :: entries =>
    let entry : Nat → Printed (List (String × PyValue)) := fun budget =>
      (Printed.string k budget).andThen quote fun k =>
        Printed.token [':', ' '] fun budget =>
          (v.print budget).andThen text fun v budget =>
            (printEntries false entries budget).map ((k, v) :: ·)
    if first then entry else Printed.token [',', ' '] entry

end

theorem printItems_true (x : PyValue) (xs : List PyValue) (budget : Nat) :
    printItems true (x :: xs) budget = (x.print budget).andThen text fun x budget =>
      (printItems false xs budget).map (x :: ·) := by
  rw [printItems]
  rfl

theorem printItems_false (x : PyValue) (xs : List PyValue) :
    printItems false (x :: xs) = Printed.token [',', ' '] (printItems true (x :: xs)) := by
  rw [printItems, printItems]
  rfl

theorem printEntries_true (k : String) (v : PyValue) (entries : List (String × PyValue))
    (budget : Nat) :
    printEntries true ((k, v) :: entries) budget = (Printed.string k budget).andThen quote fun k =>
      Printed.token [':', ' '] fun budget => (v.print budget).andThen text fun v budget =>
        (printEntries false entries budget).map ((k, v) :: ·) := by
  rw [printEntries]
  rfl

theorem printEntries_false (entry : String × PyValue) (entries : List (String × PyValue)) :
    printEntries false (entry :: entries) =
      Printed.token [',', ' '] (printEntries true (entry :: entries)) := by
  obtain ⟨k, v⟩ := entry
  rw [printEntries, printEntries]
  rfl

/-- `saferepr(maxlen=1024)`. -/
def saferepr (v : PyValue) : List Char :=
  match v.print 1024 with
  | .done shown _ => shown.text
  | .cutOff text => text

end PyValue

end Feloxi.Tasks
