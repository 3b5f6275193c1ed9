import Feloxi.Tasks.Weights
import Feloxi.Lib.Text

/-!
# Feloxi.Tasks.Retry

What a retry makes of a recorded call (`normalize_call_value` in
`crates/api/src/routes/tasks.rs`), and when that is the call itself.
-/

namespace Feloxi.Tasks

open Pipeline (SerdeJson)
open PyValue (tupleEnd text textItems textEntries cutMark Printed print printItems printEntries
  saferepr)

/-! ### The normaliser -/

inductive CallPart where
  | args
  | kwargs
  deriving Repr, DecidableEq

/-- Why a retry is refused. -/
inductive CallError where
  | cutShort (part : CallPart)
  | unreadable (part : CallPart) (e : ReprError)
  | wrongShape (part : CallPart)
  deriving Repr, DecidableEq

/-- Celery's `saferepr` stops at this many characters and marks the cut with `...`. -/
def reprMax : Nat := 1024

/-- `contains("...")`. -/
def containsDots : List Char → Bool
  | [] => false
  | c :: s => ['.', '.', '.'].isPrefixOf (c :: s) || containsDots s

/-- A text that may have been cut short: long enough in bytes, and with dots in it. -/
def isCutShort (s : List Char) : Bool :=
  decide (reprMax - 4 ≤ (s.map Char.utf8Size).sum) && containsDots s

/-- A call of no arguments. -/
def emptyPart : CallPart → Json
  | .args => .arr []
  | .kwargs => .obj []

/-- The arguments are a list and the keyword arguments a mapping. -/
def checkPart : CallPart → Json → Except CallError Json
  | .args, .arr xs => .ok (.arr xs)
  | .kwargs, .obj entries => .ok (.obj entries)
  | part, _ => .error (.wrongShape part)

/-- Turns the stored args/kwargs into the JSON a Celery message needs. -/
def normalizeCallValue (serde : SerdeJson) (value : Json) (part : CallPart) :
    Except CallError Json :=
  match value with
  | .null => .ok (emptyPart part)
  | .str repr =>
    let trimmed := trim repr.toList
    if trimmed.isEmpty then .ok (emptyPart part)
    else if isCutShort trimmed then .error (.cutShort part)
    else
      match parse serde trimmed with
      | .error e => .error (.unreadable part e)
      | .ok v => checkPart part v
  | other => checkPart part other

/-! ### Recorded calls -/

/-- A `serde_json` that prints nothing and reads nothing. -/
def sampleSerde : SerdeJson := ⟨fun _ => "", fun _ => none⟩

/-- Arguments are recorded as a tuple, keyword arguments as a dict. -/
def IsCall : CallPart → PyValue → Prop
  | .args, .tuple _ => True
  | .kwargs, .dict _ => True
  | _, _ => False

/-- What Celery records of a part of a call. -/
def recorded (v : PyValue) : Json := .str (String.ofList (saferepr v))

/-- A text that neither begins nor ends with white space. -/
def Trimmed (s : List Char) : Prop :=
  ∃ c mid d, s = c :: (mid ++ [d]) ∧ isWhiteSpace c = false ∧ isWhiteSpace d = false

theorem trim_of_trimmed {s : List Char} (h : Trimmed s) : trim s = s := by
  obtain ⟨c, mid, d, rfl, hc, hd⟩ := h
  have hfront : (c :: (mid ++ [d])).dropWhile isWhiteSpace = c :: (mid ++ [d]) :=
    List.dropWhile_cons_of_neg (by rw [hc]; decide)
  have hback : (c :: (mid ++ [d])).reverse = d :: (mid.reverse ++ [c]) := by
    rw [List.reverse_cons, List.reverse_append]
    rfl
  rw [trim, hfront, hback, List.dropWhile_cons_of_neg (by rw [hd]; decide), ← hback,
    List.reverse_reverse]

theorem trimmed_tuple (s : List Char) (n : Nat) : Trimmed ('(' :: (s ++ tupleEnd n)) := by
  unfold tupleEnd
  split
  · exact ⟨'(', s ++ [','], ')', by rw [List.append_assoc]; rfl, rfl, rfl⟩
  · exact ⟨'(', s, ')', rfl, rfl, rfl⟩

theorem trimmed_dict (s : List Char) : Trimmed ('\x7b' :: (s ++ ['\x7d'])) :=
  ⟨_, s, _, rfl, rfl, rfl⟩

theorem trimmed_cutMark : Trimmed cutMark := ⟨',', [' ', '.', '.'], '.', rfl, rfl, rfl⟩

theorem trimmed_saferepr {part : CallPart} {v : PyValue} (h : IsCall part v) :
    Trimmed (saferepr v) := by
  unfold saferepr
  cases v with
  | tuple xs =>
      cases hprint : (PyValue.tuple xs).print 1024 with
      | done u left =>
          obtain ⟨us, -, rfl⟩ := Printed.map_done hprint
          exact trimmed_tuple (textItems true us) us.length
      | cutOff t =>
          rcases Printed.bracketed_cutOff (Printed.map_cutOff hprint) with rfl | ⟨us, -, rfl⟩ |
            ⟨t', -, rfl⟩
          · exact trimmed_cutMark
          · show Trimmed ('(' :: (textItems true us ++ (cutMark ++ tupleEnd xs.length)))
            rw [← List.append_assoc]
            exact trimmed_tuple _ xs.length
          · exact trimmed_tuple t' xs.length
  | dict entries =>
      cases hprint : (PyValue.dict entries).print 1024 with
      | done u left =>
          obtain ⟨us, -, rfl⟩ := Printed.map_done hprint
          exact trimmed_dict (textEntries true us)
      | cutOff t =>
          rcases Printed.bracketed_cutOff (Printed.map_cutOff hprint) with rfl | ⟨us, -, rfl⟩ |
            ⟨t', -, rfl⟩
          · exact trimmed_cutMark
          · have hdict := trimmed_dict (textEntries true us ++ cutMark)
            rw [List.append_assoc] at hdict
            exact hdict
          · exact trimmed_dict t'
  | none => cases part <;> cases h
  | bool b => cases part <;> cases h
  | int n => cases part <;> cases h
  | str s => cases part <;> cases h
  | list xs => cases part <;> cases h

/-! ### The parser on recorded texts -/

theorem follows_nil : Follows [] := ⟨nofun, .nil⟩

/-- A parser that is lost fails at the end of the text. -/
theorem parse_error_of_lost {serde : SerdeJson} {s : List Char}
    (h : Lost (value serde (2 * s.length + 2) s)) : ∃ e, parse serde s = .error e := by
  unfold parse
  cases hread : value serde (2 * s.length + 2) s with
  | error e => exact ⟨e, rfl⟩
  | ok p =>
      have hinside := (h p.1 p.2 hread).ws
      dsimp only
      cases hrest : ws p.2 with
      | nil =>
          rw [hrest] at hinside
          exact absurd hinside not_inside_nil
      | cons c rest => exact ⟨.unexpectedText, rfl⟩

theorem parse_text (serde : SerdeJson) (u : PyValue) :
    match readBack u with
    | some j => parse serde (text u) = .ok j
    | none => ∃ e, parse serde (text u) = .error e := by
  have hreads : Reads (value serde (2 * (text u).length + 2) (text u ++ [])) (readBack u) [] :=
    reads_value u _ follows_nil
  rw [List.append_nil] at hreads
  cases hback : readBack u with
  | none =>
      rw [hback] at hreads
      exact parse_error_of_lost hreads
  | some j =>
      rw [hback] at hreads
      rcases hreads with hfuel | hread
      · have hprogress := (progress serde (2 * (text u).length + 2)).1 (text u) (by omega)
        rw [hfuel] at hprogress
        exact absurd rfl hprogress
      · show parse serde (text u) = .ok j
        unfold parse
        rw [hread]
        rfl

theorem parse_cutOff (serde : SerdeJson) {v : PyValue} {budget : Nat} {t : List Char}
    (h : v.print budget = .cutOff t) : ∃ e, parse serde t = .error e := by
  have hcut : CutValue serde (t ++ []) := cutValue_print v h .nil
  rw [List.append_nil] at hcut
  exact parse_error_of_lost (hcut.lost _)

/-! ### When a retry is the call itself -/

/-- Brackets around a call are printed in whole only if something is left for their end, so
each of its strings that was cut was cut at a space. -/
theorem lighter_of_call {part : CallPart} {v u : PyValue} {budget left : Nat} (h : IsCall part v)
    (hprint : v.print budget = .done u left) : Lighter weight u v := by
  cases v with
  | tuple xs =>
      obtain ⟨us, hus, rfl⟩ := Printed.map_done hprint
      exact (shown_bracketed (g := weight) .tuple (fun _ => rfl) hus (shown_printItems xs)).2
  | dict entries =>
      obtain ⟨us, hus, rfl⟩ := Printed.map_done hprint
      exact (shown_bracketed (g := weight) .dict (fun _ => rfl) hus (shown_printEntries entries)).2
  | none => cases part <;> cases h
  | bool b => cases part <;> cases h
  | int n => cases part <;> cases h
  | str s => cases part <;> cases h
  | list xs => cases part <;> cases h

/-- What is read back of a call has the shape of the call. -/
theorem checkPart_readBack {part : CallPart} {v u : PyValue} {budget left : Nat} {j : Json}
    (h : IsCall part v) (hprint : v.print budget = .done u left) (hread : readBack u = some j) :
    checkPart part j = .ok j := by
  cases v with
  | tuple xs =>
      obtain ⟨us, -, rfl⟩ := Printed.map_done hprint
      obtain ⟨vs, -, rfl⟩ := Option.map_eq_some_iff.1 hread
      cases part with
      | args => rfl
      | kwargs => cases h
  | dict entries =>
      obtain ⟨us, -, rfl⟩ := Printed.map_done hprint
      obtain ⟨fields, -, rfl⟩ := Option.map_eq_some_iff.1 hread
      cases part with
      | args => cases h
      | kwargs => rfl
  | none => cases part <;> cases h
  | bool b => cases part <;> cases h
  | int n => cases part <;> cases h
  | str s => cases part <;> cases h
  | list xs => cases part <;> cases h

/-- The normaliser on what was recorded of a call. -/
theorem normalizeCallValue_recorded (serde : SerdeJson) {part : CallPart} {v : PyValue}
    (h : IsCall part v) :
    normalizeCallValue serde (recorded v) part =
      if isCutShort (saferepr v) then .error (.cutShort part)
      else
        match parse serde (saferepr v) with
        | .error e => .error (.unreadable part e)
        | .ok j => checkPart part j := by
  have htrim : trim (String.ofList (saferepr v)).toList = saferepr v := by
    rw [String.toList_ofList, trim_of_trimmed (trimmed_saferepr h)]
  have hne : (saferepr v).isEmpty = false := by
    obtain ⟨c, mid, d, heq, -, -⟩ := trimmed_saferepr h
    rw [heq]
    rfl
  unfold normalizeCallValue recorded
  dsimp only
  rw [htrim, hne]
  rfl

/-- The call was cut off, or will be refused, or was printed as it is and holds nothing
that would be read as something else. -/
def Unharmed (v : PyValue) : Prop :=
  match v.print reprMax with
  | .cutOff _ => True
  | .done shown _ =>
    isCutShort (text shown) = true ∨ readable shown = false ∨ (shown = v ∧ plain v = true)

/-- **A retry of a recorded call** never changes it, exactly if the call is unharmed. -/
theorem retryKeepsCall_iff (serde : SerdeJson) {part : CallPart} {v : PyValue}
    (hcall : IsCall part v) (hkeys : distinctKeys v = true) :
    (∀ j, normalizeCallValue serde (recorded v) part = .ok j → j = v.toJson) ↔ Unharmed v := by
  have hnormal := normalizeCallValue_recorded serde hcall
  unfold Unharmed reprMax
  cases hprint : v.print 1024 with
  | cutOff t =>
      -- a text that was cut off is refused
      have hsaferepr : saferepr v = t := by rw [saferepr, hprint]
      obtain ⟨e, hparse⟩ := parse_cutOff serde hprint
      rw [hsaferepr, hparse] at hnormal
      refine ⟨fun _ => trivial, fun _ j hj => ?_⟩
      rw [hnormal] at hj
      split at hj <;> cases hj
  | done u left =>
      have hsaferepr : saferepr v = text u := by rw [saferepr, hprint]
      have hlighter := lighter_of_call hcall hprint
      have hparse := parse_text serde u
      have hsome := readBack_isSome u
      rw [hsaferepr] at hnormal
      dsimp only
      cases hshort : isCutShort (text u) with
      | true =>
          rw [hshort, if_pos rfl] at hnormal
          refine ⟨fun _ => .inl rfl, fun _ j hj => ?_⟩
          rw [hnormal] at hj
          cases hj
      | false =>
          rw [hshort, if_neg Bool.false_ne_true] at hnormal
          cases hback : readBack u with
          | none =>
              rw [hback] at hparse hsome
              obtain ⟨e, hparse⟩ := hparse
              rw [hparse] at hnormal
              refine ⟨fun _ => .inr (.inl hsome.symm), fun _ j hj => ?_⟩
              rw [hnormal] at hj
              cases hj
          | some j =>
              rw [hback] at hparse hsome
              have hread : normalizeCallValue serde (recorded v) part = .ok j := by
                rw [hnormal, hparse]
                exact checkPart_readBack hcall hprint hback
              have hsame := readBack_eq_toJson_iff hlighter hkeys
              rw [hback] at hsame
              constructor
              · intro hkeeps
                exact .inr (.inr (hsame.1 (congrArg some (hkeeps j hread))))
              · intro hunharmed j' hj'
                rw [hread] at hj'
                rcases hunharmed with h | h | h
                · cases h
                · rw [← hsome] at h
                  cases h
                · rw [← Except.ok.inj hj']
                  exact Option.some.inj (hsame.2 h)

/-- A call of one argument. -/
theorem retryKeepsCall_iff_one :
    (∀ j, normalizeCallValue sampleSerde (recorded (.tuple [.int 1])) .args = .ok j →
      j = (PyValue.tuple [.int 1]).toJson) ↔ Unharmed (.tuple [.int 1]) :=
  retryKeepsCall_iff sampleSerde trivial rfl

/-- A backslash is printed as it is and read as an escape: a path comes back with a line
break in it. -/
theorem retry_changes_backslash :
    IsCall .args (.tuple [.str "C:\\new"]) ∧ distinctKeys (.tuple [.str "C:\\new"]) = true ∧
      normalizeCallValue sampleSerde (recorded (.tuple [.str "C:\\new"])) .args =
        .ok (.arr [.str "C:\new"]) ∧
      Json.arr [.str "C:\new"] ≠ (PyValue.tuple [.str "C:\\new"]).toJson := by
  refine ⟨trivial, rfl, ?_, by decide⟩
  decide +kernel

end Feloxi.Tasks
