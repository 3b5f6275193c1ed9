import Feloxi.Tasks.Deviations
import Feloxi.Tasks.DictDisplays
import Feloxi.Tasks.ReprBytes

/-!
# Feloxi.Tasks.Guesses

What the parser makes of a text is Python's value of it exactly if the text conforms: its numerals
and strings are proper, no brackets stand around one value without a comma, and the keys of a dict
display are one key exactly if they have one text (`parse_exact_iff`). Of a text that repeats a key
only one direction holds, since the entry that is overwritten may be read in any way.
-/

namespace Feloxi.Tasks

open Pipeline (SerdeJson)
open PyValue (intText)
open PyObject (asKey toJson toJsonItems toJsonEntries ofDisplay)

/-! ### The condition -/

/-- The keys of a display, as far as they are strings or numbers. -/
def LiteralEntries.keys : LiteralEntries → List PyKey
  | .done _ => []
  | .last _ k _ _ _ _ => (k.python.bind asKey).toList
  | .more _ k _ _ _ _ rest => (k.python.bind asKey).toList ++ rest.keys

section

variable (serde : SerdeJson)

mutual

/-- Everything in the literal is read as it is written. -/
def Literal.Conforms : Literal → Prop
  | .word _ => True
  | .num n => n.IsProper
  | .str t => properBody t.body = true
  | .seq true (.last _ _ _) => False
  | .seq _ items => items.Conforms
  | .dict entries => entries.Conforms ∧ KeysAgree serde entries.keys

def LiteralItems.Conforms : LiteralItems → Prop
  | .done _ => True
  | .last _ x _ => x.Conforms
  | .more _ x _ rest => x.Conforms ∧ rest.Conforms

def LiteralEntries.Conforms : LiteralEntries → Prop
  | .done _ => True
  | .last _ k _ _ x _ => k.Conforms ∧ x.Conforms
  | .more _ k _ _ x _ rest => k.Conforms ∧ x.Conforms ∧ rest.Conforms

end

end

mutual

/-- No dict display in the literal repeats a key. -/
def Literal.NoRepeats : Literal → Prop
  | .word _ => True
  | .num _ => True
  | .str _ => True
  | .seq _ items => items.NoRepeats
  | .dict entries => entries.NoRepeats ∧ DistinctKeys entries.keys

def LiteralItems.NoRepeats : LiteralItems → Prop
  | .done _ => True
  | .last _ x _ => x.NoRepeats
  | .more _ x _ rest => x.NoRepeats ∧ rest.NoRepeats

def LiteralEntries.NoRepeats : LiteralEntries → Prop
  | .done _ => True
  | .last _ k _ _ x _ => k.NoRepeats ∧ x.NoRepeats
  | .more _ k _ _ x _ rest => k.NoRepeats ∧ x.NoRepeats ∧ rest.NoRepeats

end

section

variable (serde : SerdeJson)

/-- The JSON form of what Python makes of a literal. -/
def Literal.json (x : Literal) : Option Json := x.python.bind (toJson serde)

def LiteralItems.json (items : LiteralItems) : Option (List Json) :=
  items.python.bind (toJsonItems serde)

def LiteralEntries.json (entries : LiteralEntries) : Option (List (String × Json)) :=
  entries.python.bind (toJsonEntries serde)

/-- The text of a key to Python. -/
def Literal.keyJson (k : Literal) : Option String :=
  (k.python.bind asKey).map fun key => key.text serde

variable {serde}

theorem json_list (items : LiteralItems) :
    (Literal.seq false items).json serde = (items.json serde).map .arr := by
  unfold Literal.json LiteralItems.json Literal.python
  cases items.python <;> rfl

/-- A tuple, which has a comma if it is of one element. -/
theorem json_tuple {items : LiteralItems} (h : ∀ b x b', items ≠ .last b x b') :
    (Literal.seq true items).json serde = (items.json serde).map .arr := by
  cases items with
  | done b => rfl
  | last b x b' => exact absurd rfl (h b x b')
  | more b x b' rest =>
      unfold Literal.json LiteralItems.json Literal.python
      cases (LiteralItems.more b x b' rest).python <;> rfl

theorem json_last (b : Blank) (x : Literal) (b' : Blank) :
    (LiteralItems.last b x b').json serde = (x.json serde).map fun v => [v] := by
  unfold LiteralItems.json Literal.json LiteralItems.python
  cases x.python with
  | none => rfl
  | some o => cases hx : toJson serde o <;> simp [toJsonItems, hx]

theorem json_more (b : Blank) (x : Literal) (b' : Blank) (rest : LiteralItems) :
    (LiteralItems.more b x b' rest).json serde =
      (x.json serde).bind fun v => (rest.json serde).map (v :: ·) := by
  unfold LiteralItems.json Literal.json
  rw [LiteralItems.python]
  cases x.python with
  | none => rfl
  | some o =>
      cases hx : toJson serde o <;> cases rest.python <;> simp [toJsonItems, hx]

theorem json_entries_last (b : Blank) (k : Literal) (b₁ b₂ : Blank) (x : Literal) (b' : Blank) :
    (LiteralEntries.last b k b₁ b₂ x b').json serde =
      (k.keyJson serde).bind fun t => (x.json serde).map fun v => [(t, v)] := by
  unfold LiteralEntries.json Literal.json Literal.keyJson LiteralEntries.python
  cases k.python.bind asKey with
  | none => rfl
  | some key =>
      cases x.python with
      | none => rfl
      | some o => cases hx : toJson serde o <;> simp [toJsonEntries, hx]

theorem json_entries_more (b : Blank) (k : Literal) (b₁ b₂ : Blank) (x : Literal) (b' : Blank)
    (rest : LiteralEntries) :
    (LiteralEntries.more b k b₁ b₂ x b' rest).json serde =
      (k.keyJson serde).bind fun t => (x.json serde).bind fun v =>
        (rest.json serde).map ((t, v) :: ·) := by
  unfold LiteralEntries.json Literal.json Literal.keyJson
  rw [LiteralEntries.python]
  cases k.python.bind asKey with
  | none => rfl
  | some key =>
      cases x.python with
      | none => rfl
      | some o =>
          cases hx : toJson serde o <;> cases rest.python <;> simp [toJsonEntries, hx]

theorem json_dict (entries : LiteralEntries) :
    (Literal.dict entries).json serde =
      entries.python.bind fun es => toJson serde (.dict (ofDisplay es)) := by
  unfold Literal.json Literal.python
  cases entries.python <;> rfl

theorem keys_of_python : ∀ {entries : LiteralEntries} {es : List (PyKey × PyObject)},
    entries.python = some es → es.map Prod.fst = entries.keys
  | .done _, es, h => by
      cases h
      rfl
  | .last _ k _ _ x _, es, h => by
      rw [LiteralEntries.python] at h
      obtain ⟨key, hkey, h⟩ := Option.bind_eq_some_iff.1 h
      obtain ⟨v, -, heq⟩ := Option.map_eq_some_iff.1 h
      rw [← heq, LiteralEntries.keys, hkey]
      rfl
  | .more _ k _ _ x _ rest, es, h => by
      rw [LiteralEntries.python] at h
      obtain ⟨key, hkey, h⟩ := Option.bind_eq_some_iff.1 h
      obtain ⟨v, -, h⟩ := Option.bind_eq_some_iff.1 h
      obtain ⟨es', hes', heq⟩ := Option.map_eq_some_iff.1 h
      rw [← heq, LiteralEntries.keys, hkey, List.map_cons, keys_of_python hes']
      rfl

/-! ### Tokens -/

theorem StrToken.compared {t : StrToken} {s : String} (h : t.value = some s) :
    ∃ u, s = String.ofList u ∧ Compared u t.body := by
  obtain ⟨u, hu, heq⟩ := Option.map_eq_some_iff.1 h
  have hspells := spells_of_readBody (quoteOf_cases t.double) t.isClosed hu
  exact ⟨u, heq.symm, compared_of_spells hspells⟩

theorem ofList_injective {s t : List Char} (h : String.ofList s = String.ofList t) : s = t := by
  rw [← String.toList_ofList (l := s), h, String.toList_ofList]

theorem str_exact_iff {t : StrToken} {s : String} (h : t.value = some s) :
    (Literal.str t).json serde = some (.str s) ↔ properBody t.body = true := by
  obtain ⟨u, hs, hcompared⟩ := t.compared h
  rw [← hcompared.2, Literal.json, Literal.python, StrToken.python, hs]
  cases hbody : pyBody 0 t.body with
  | none => simp
  | some w =>
      have hinj : String.ofList w = String.ofList u ↔ w = u :=
        ⟨ofList_injective, fun heq => by rw [heq]⟩
      simp [toJson, hinj]

/-- A numeral as a key: an integer beyond the range is read as a float. -/
theorem key_of_num (hserde : PrintsNumbers serde) {n : NumRun} {kv : Json} {t : String}
    {key : PyKey} (hvalue : (Literal.num n).value serde = some kv)
    (htext : keyText serde kv = some t) (hkey : (Literal.num n).python.bind asKey = some key) :
    KeyRead serde t (key.text serde) ∧
      (t = key.text serde → (Literal.num n).json serde = some kv) := by
  obtain ⟨o, ho, hasKey⟩ := Option.bind_eq_some_iff.1 hkey
  have hpython := ho
  rw [Literal.python, NumRun.python] at hpython
  split at hpython
  · rcases NumRun.value_cases hvalue with ⟨m, hm, -, hv⟩ | ⟨q, hq, hv, -⟩
    · rw [hm] at hpython
      dsimp only at hpython
      split at hpython
      · cases hpython
      · cases hpython
        cases hasKey
        rw [hv] at htext
        cases htext
        rw [hserde.int, hv]
        exact ⟨.same _, fun _ => by rw [Literal.json, ho]; rfl⟩
    · rw [hv] at htext
      cases htext
      cases hdigits : digits? n.digits with
      | some m =>
          -- an integer to Python, which prints no point
          rw [hdigits] at hpython
          dsimp only at hpython
          split at hpython
          · cases hpython
          · cases hpython
            cases hasKey
            exact ⟨.float _ q, fun heq => absurd heq (hserde.float_ne _ q)⟩
      | none =>
          rw [hdigits, hq] at hpython
          cases hpython
          cases hasKey
          exact ⟨.same _, fun _ => by rw [Literal.json, ho, hv]; rfl⟩
  · cases hpython

/-- A string as a key: to Python it is the same, or shorter by the digits behind a `\0`. -/
theorem key_of_str {tok : StrToken} {kv : Json} {t : String} {key : PyKey}
    (hvalue : (Literal.str tok).value serde = some kv) (htext : keyText serde kv = some t)
    (hkey : (Literal.str tok).python.bind asKey = some key) :
    KeyRead serde t (key.text serde) ∧
      (t = key.text serde → (Literal.str tok).json serde = some kv) := by
  obtain ⟨s, hs, hv⟩ := Option.map_eq_some_iff.1 hvalue
  obtain ⟨u, hu, hcompared⟩ := tok.compared hs
  obtain ⟨o, ho, hasKey⟩ := Option.bind_eq_some_iff.1 hkey
  have hpython := ho
  rw [Literal.python, StrToken.python] at hpython
  obtain ⟨s', hs', heq⟩ := Option.map_eq_some_iff.1 hpython
  obtain ⟨w, hw, hsw⟩ := Option.map_eq_some_iff.1 hs'
  rw [← heq] at hasKey
  cases hasKey
  rw [← hv] at htext
  have hst : s = t := Option.some.inj htext
  refine ⟨?_, fun hsame => ?_⟩
  · show KeyRead serde t s'
    rw [← hst, hu, ← hsw]
    rcases hcompared.1 w hw with hwu | ⟨hzero, hlt⟩
    · rw [hwu]
      exact .same _
    · exact .longer (by simpa using hzero) (by simpa using hlt)
  · have hsame' : s = s' := hst.trans hsame
    rw [Literal.json, ho, ← heq, ← hv, hsame']
    rfl

/-- What is read as a number or a string is one to Python, if anything. -/
theorem key_of_value (hserde : PrintsNumbers serde) {k : Literal} {kv : Json} {t : String}
    {key : PyKey} (hvalue : k.value serde = some kv) (htext : keyText serde kv = some t)
    (hkey : k.python.bind asKey = some key) :
    KeyRead serde t (key.text serde) ∧ (t = key.text serde → k.json serde = some kv) := by
  cases k with
  | word w =>
      cases hvalue
      cases w <;> cases htext
  | num n => exact key_of_num hserde hvalue htext hkey
  | str tok => exact key_of_str hvalue htext hkey
  | seq paren items =>
      obtain ⟨vs, -, hv⟩ := Option.map_eq_some_iff.1 hvalue
      rw [← hv] at htext
      cases htext
  | dict entries =>
      obtain ⟨es, -, hv⟩ := Option.map_eq_some_iff.1 hvalue
      rw [← hv] at htext
      cases htext

/-! ### Conforming texts -/

theorem keyJson_of_json (hserde : PrintsNumbers serde) {k : Literal} {kv : Json} {t : String}
    (hjson : k.json serde = some kv) (htext : keyText serde kv = some t) :
    k.keyJson serde = some t := by
  obtain ⟨o, ho, hkv⟩ := Option.bind_eq_some_iff.1 hjson
  rw [Literal.keyJson, ho, Option.bind_some]
  cases o with
  | none =>
      cases hkv
      cases htext
  | bool b =>
      cases hkv
      cases htext
  | int n =>
      cases hkv
      rw [← htext]
      exact congrArg some (hserde.int n).symm
  | float q =>
      cases hkv
      exact htext
  | str s =>
      cases hkv
      exact htext
  | list xs =>
      obtain ⟨vs, -, heq⟩ := Option.map_eq_some_iff.1 hkv
      rw [← heq] at htext
      cases htext
  | tuple xs =>
      obtain ⟨vs, -, heq⟩ := Option.map_eq_some_iff.1 hkv
      rw [← heq] at htext
      cases htext
  | dict entries =>
      obtain ⟨es, -, heq⟩ := Option.bind_eq_some_iff.1 hkv
      split at heq
      · cases heq
        cases htext
      · cases heq

mutual

/-- **What conforms is read as Python reads it.** -/
theorem json_of_conforms (hserde : PrintsNumbers serde) : ∀ (x : Literal) {v : Json},
    x.value serde = some v → x.Conforms serde → x.json serde = some v
  | .word w, v, hvalue, _ => by
      rw [← hvalue]
      cases w <;> rfl
  | .num n, v, hvalue, h => (NumRun.exact_iff serde hvalue).2 h
  | .str t, v, hvalue, h => by
      obtain ⟨s, hs, heq⟩ := Option.map_eq_some_iff.1 hvalue
      rw [← heq]
      exact (str_exact_iff hs).2 h
  | .seq false items, v, hvalue, h => by
      obtain ⟨vs, hvs, heq⟩ := Option.map_eq_some_iff.1 hvalue
      rw [json_list, jsonItems_of_conforms hserde items hvs h, ← heq]
      rfl
  | .seq true (.done b), v, hvalue, _ => hvalue
  | .seq true (.last _ _ _), v, _, h => h.elim
  | .seq true (.more b x b' rest), v, hvalue, h => by
      obtain ⟨vs, hvs, heq⟩ := Option.map_eq_some_iff.1 hvalue
      rw [json_tuple (fun _ _ _ hlast => by cases hlast),
        jsonItems_of_conforms hserde (.more b x b' rest) hvs h, ← heq]
      rfl
  | .dict entries, v, hvalue, h => by
      obtain ⟨es, hes, heq⟩ := Option.map_eq_some_iff.1 hvalue
      obtain ⟨o, ho, hjson⟩ :=
        Option.bind_eq_some_iff.1 (jsonEntries_of_conforms hserde entries hes h.1)
      rw [json_dict, ho, ← heq]
      exact toJson_display hjson (by rw [keys_of_python ho]; exact h.2)

theorem jsonItems_of_conforms (hserde : PrintsNumbers serde) : ∀ (items : LiteralItems)
    {vs : List Json}, items.value serde = some vs → items.Conforms serde →
      items.json serde = some vs
  | .done _, _, hvalue, _ => hvalue
  | .last b x b', vs, hvalue, h => by
      obtain ⟨v, hv, heq⟩ := Option.map_eq_some_iff.1 hvalue
      rw [json_last, json_of_conforms hserde x hv h, ← heq]
      rfl
  | .more b x b' rest, vs, hvalue, h => by
      obtain ⟨v, hv, hrest⟩ := Option.bind_eq_some_iff.1 hvalue
      obtain ⟨vs', hvs', heq⟩ := Option.map_eq_some_iff.1 hrest
      rw [json_more, json_of_conforms hserde x hv h.1,
        jsonItems_of_conforms hserde rest hvs' h.2, ← heq]
      rfl

theorem jsonEntries_of_conforms (hserde : PrintsNumbers serde) : ∀ (entries : LiteralEntries)
    {es : List (String × Json)}, entries.value serde = some es → entries.Conforms serde →
      entries.json serde = some es
  | .done _, _, hvalue, _ => hvalue
  | .last b k b₁ b₂ x b', es, hvalue, h => by
      obtain ⟨t, ht, hx⟩ := Option.bind_eq_some_iff.1 hvalue
      obtain ⟨kv, hkv, htext⟩ := Option.bind_eq_some_iff.1 ht
      obtain ⟨v, hv, heq⟩ := Option.map_eq_some_iff.1 hx
      rw [json_entries_last,
        keyJson_of_json hserde (json_of_conforms hserde k hkv h.1) htext,
        json_of_conforms hserde x hv h.2, ← heq]
      rfl
  | .more b k b₁ b₂ x b' rest, es, hvalue, h => by
      obtain ⟨t, ht, hx⟩ := Option.bind_eq_some_iff.1 hvalue
      obtain ⟨kv, hkv, htext⟩ := Option.bind_eq_some_iff.1 ht
      obtain ⟨v, hv, hrest⟩ := Option.bind_eq_some_iff.1 hx
      obtain ⟨es', hes', heq⟩ := Option.map_eq_some_iff.1 hrest
      rw [json_entries_more,
        keyJson_of_json hserde (json_of_conforms hserde k hkv h.1) htext,
        json_of_conforms hserde x hv h.2.1, jsonEntries_of_conforms hserde rest hes' h.2.2, ← heq]
      rfl

end

/-! ### Brackets around one value -/

/-- How many brackets stand around one value each. -/
def spine : Json → Nat
  | .arr [v] => spine v + 1
  | _ => 0

theorem spine_num {n : NumRun} {w : Json} (h : (Literal.num n).json serde = some w) :
    spine w = 0 := by
  obtain ⟨o, ho, hw⟩ := Option.bind_eq_some_iff.1 h
  rw [Literal.python, NumRun.python] at ho
  split at ho
  · split at ho
    · split at ho
      · cases ho
      · cases ho
        cases hw
        rfl
    · obtain ⟨q, -, heq⟩ := Option.map_eq_some_iff.1 ho
      rw [← heq] at hw
      cases hw
      rfl
  · cases ho

theorem spine_str {t : StrToken} {w : Json} (h : (Literal.str t).json serde = some w) :
    spine w = 0 := by
  obtain ⟨o, ho, hw⟩ := Option.bind_eq_some_iff.1 h
  obtain ⟨s, -, heq⟩ := Option.map_eq_some_iff.1 ho
  rw [← heq] at hw
  cases hw
  rfl

theorem spine_dict {entries : LiteralEntries} {w : Json}
    (h : (Literal.dict entries).json serde = some w) : spine w = 0 := by
  rw [json_dict] at h
  obtain ⟨es, -, hw⟩ := Option.bind_eq_some_iff.1 h
  obtain ⟨js, -, hw⟩ := Option.bind_eq_some_iff.1 hw
  split at hw
  · cases hw
    rfl
  · cases hw

/-- Elements behind a comma: there is one of them, or the brackets hold several. -/
theorem spine_more {b : Blank} {x : Literal} {b' : Blank} {rest : LiteralItems} {vs ws : List Json}
    (hvalue : (LiteralItems.more b x b' rest).value serde = some vs)
    (hjson : (LiteralItems.more b x b' rest).json serde = some ws) :
    (∃ v w, x.value serde = some v ∧ x.json serde = some w ∧ vs = [v] ∧ ws = [w]) ∨
      spine (.arr ws) = 0 := by
  rw [json_more] at hjson
  obtain ⟨v, hv, hvs⟩ := Option.bind_eq_some_iff.1 hvalue
  obtain ⟨w, hw, hws⟩ := Option.bind_eq_some_iff.1 hjson
  obtain ⟨vs', hvs', hveq⟩ := Option.map_eq_some_iff.1 hvs
  obtain ⟨ws', hws', hweq⟩ := Option.map_eq_some_iff.1 hws
  rw [← hveq, ← hweq]
  cases ws' with
  | cons w' ws' => exact .inr rfl
  | nil =>
      cases rest with
      | done _ =>
          cases hvs'
          exact .inl ⟨v, w, hv, hw, rfl, rfl⟩
      | last _ y _ =>
          rw [json_last] at hws'
          obtain ⟨w', -, heq⟩ := Option.map_eq_some_iff.1 hws'
          cases heq
      | more _ y _ rest =>
          rw [json_more] at hws'
          obtain ⟨w', -, hrest⟩ := Option.bind_eq_some_iff.1 hws'
          obtain ⟨ws', -, heq⟩ := Option.map_eq_some_iff.1 hrest
          cases heq

/-- Python sees no more brackets than the parser. -/
theorem spine_le : ∀ (x : Literal) {v w : Json}, x.value serde = some v →
    x.json serde = some w → spine w ≤ spine v
  | .word a, v, w, hvalue, hjson => by
      have heq : some w = some v := by
        rw [← hjson, ← hvalue]
        cases a <;> rfl
      rw [Option.some.inj heq]
  | .num _, _, _, _, hjson => by
      rw [spine_num hjson]
      exact Nat.zero_le _
  | .str _, _, _, _, hjson => by
      rw [spine_str hjson]
      exact Nat.zero_le _
  | .dict _, _, _, _, hjson => by
      rw [spine_dict hjson]
      exact Nat.zero_le _
  | .seq false (.done _), _, _, hvalue, hjson => by
      cases hvalue
      cases hjson
      exact le_rfl
  | .seq true (.done _), _, _, hvalue, hjson => by
      cases hvalue
      cases hjson
      exact le_rfl
  | .seq false (.last b x b'), v, w, hvalue, hjson => by
      obtain ⟨vs, hvs, hveq⟩ := Option.map_eq_some_iff.1 hvalue
      obtain ⟨v', hv', hvs'⟩ := Option.map_eq_some_iff.1 hvs
      rw [json_list, json_last] at hjson
      obtain ⟨ws, hws, hweq⟩ := Option.map_eq_some_iff.1 hjson
      obtain ⟨w', hw', hws'⟩ := Option.map_eq_some_iff.1 hws
      rw [← hveq, ← hweq, ← hvs', ← hws']
      exact Nat.succ_le_succ (spine_le x hv' hw')
  | .seq true (.last b x b'), v, w, hvalue, hjson => by
      obtain ⟨vs, hvs, hveq⟩ := Option.map_eq_some_iff.1 hvalue
      obtain ⟨v', hv', hvs'⟩ := Option.map_eq_some_iff.1 hvs
      rw [← hveq, ← hvs']
      exact Nat.le_succ_of_le (spine_le x hv' hjson)
  | .seq false (.more b x b' rest), v, w, hvalue, hjson => by
      obtain ⟨vs, hvs, hveq⟩ := Option.map_eq_some_iff.1 hvalue
      rw [json_list] at hjson
      obtain ⟨ws, hws, hweq⟩ := Option.map_eq_some_iff.1 hjson
      rw [← hveq, ← hweq]
      rcases spine_more hvs hws with ⟨v', w', hv', hw', hvs', hws'⟩ | hzero
      · rw [hvs', hws']
        exact Nat.succ_le_succ (spine_le x hv' hw')
      · rw [hzero]
        exact Nat.zero_le _
  | .seq true (.more b x b' rest), v, w, hvalue, hjson => by
      obtain ⟨vs, hvs, hveq⟩ := Option.map_eq_some_iff.1 hvalue
      rw [json_tuple (fun _ _ _ hlast => by cases hlast)] at hjson
      obtain ⟨ws, hws, hweq⟩ := Option.map_eq_some_iff.1 hjson
      rw [← hveq, ← hweq]
      rcases spine_more hvs hws with ⟨v', w', hv', hw', hvs', hws'⟩ | hzero
      · rw [hvs', hws']
        exact Nat.succ_le_succ (spine_le x hv' hw')
      · rw [hzero]
        exact Nat.zero_le _

/-- Brackets around a value without a comma are never read as Python reads them. -/
theorem json_ne_value (b : Blank) (x : Literal) (b' : Blank) {v : Json}
    (hvalue : (Literal.seq true (.last b x b')).value serde = some v) :
    (Literal.seq true (.last b x b')).json serde ≠ some v := by
  intro hjson
  obtain ⟨vs, hvs, hveq⟩ := Option.map_eq_some_iff.1 hvalue
  obtain ⟨v', hv', hvs'⟩ := Option.map_eq_some_iff.1 hvs
  rw [← hveq, ← hvs'] at hjson
  have hle := spine_le x hv' hjson
  exact absurd hle (Nat.not_succ_le_self _)

/-! ### Only conforming texts -/

/-- The keys of a display, as they are read. -/
theorem keysRead (hserde : PrintsNumbers serde) : ∀ (entries : LiteralEntries)
    {es : List (String × Json)} {os : List (PyKey × PyObject)}, entries.value serde = some es →
      entries.python = some os →
        List.Forall₂ (fun j e => KeyRead serde j.1 (e.1.text serde)) es os
  | .done _, _, _, hvalue, hpython => by
      cases hvalue
      cases hpython
      exact .nil
  | .last _ k _ _ x _, es, os, hvalue, hpython => by
      obtain ⟨t, ht, hx⟩ := Option.bind_eq_some_iff.1 hvalue
      obtain ⟨kv, hkv, htext⟩ := Option.bind_eq_some_iff.1 ht
      obtain ⟨v, -, heq⟩ := Option.map_eq_some_iff.1 hx
      rw [LiteralEntries.python] at hpython
      obtain ⟨key, hkey, hpython⟩ := Option.bind_eq_some_iff.1 hpython
      obtain ⟨o, -, heq'⟩ := Option.map_eq_some_iff.1 hpython
      rw [← heq, ← heq']
      exact .cons (key_of_value hserde hkv htext hkey).1 .nil
  | .more _ k _ _ x _ rest, es, os, hvalue, hpython => by
      obtain ⟨t, ht, hx⟩ := Option.bind_eq_some_iff.1 hvalue
      obtain ⟨kv, hkv, htext⟩ := Option.bind_eq_some_iff.1 ht
      obtain ⟨v, -, hrest⟩ := Option.bind_eq_some_iff.1 hx
      obtain ⟨es', hes', heq⟩ := Option.map_eq_some_iff.1 hrest
      rw [LiteralEntries.python] at hpython
      obtain ⟨key, hkey, hpython⟩ := Option.bind_eq_some_iff.1 hpython
      obtain ⟨o, -, hpython⟩ := Option.bind_eq_some_iff.1 hpython
      obtain ⟨os', hos', heq'⟩ := Option.map_eq_some_iff.1 hpython
      rw [← heq, ← heq']
      exact .cons (key_of_value hserde hkv htext hkey).1 (keysRead hserde rest hes' hos')

/-- A key whose text is Python's. -/
theorem key_json (hserde : PrintsNumbers serde) {k : Literal} {kv : Json} {t : String}
    (hvalue : k.value serde = some kv) (htext : keyText serde kv = some t)
    (hkey : k.keyJson serde = some t) : k.json serde = some kv := by
  obtain ⟨key, hkey, heq⟩ := Option.map_eq_some_iff.1 hkey
  exact (key_of_value hserde hvalue htext hkey).2 heq.symm

mutual

/-- **Only what conforms is read as Python reads it**, if no key is repeated. -/
theorem conforms_of_json (hserde : PrintsNumbers serde) : ∀ (x : Literal) {v : Json},
    x.value serde = some v → x.NoRepeats → x.json serde = some v → x.Conforms serde
  | .word _, _, _, _, _ => trivial
  | .num _, _, hvalue, _, hjson => (NumRun.exact_iff serde hvalue).1 hjson
  | .str t, v, hvalue, _, hjson => by
      obtain ⟨s, hs, heq⟩ := Option.map_eq_some_iff.1 hvalue
      rw [← heq] at hjson
      exact (str_exact_iff hs).1 hjson
  | .seq false items, v, hvalue, h, hjson => by
      obtain ⟨vs, hvs, heq⟩ := Option.map_eq_some_iff.1 hvalue
      rw [json_list, ← heq] at hjson
      obtain ⟨ws, hws, heq'⟩ := Option.map_eq_some_iff.1 hjson
      cases heq'
      exact conformsItems_of_json hserde items hvs h hws
  | .seq true (.done _), _, _, _, _ => trivial
  | .seq true (.last b x b'), v, hvalue, _, hjson => json_ne_value b x b' hvalue hjson
  | .seq true (.more b x b' rest), v, hvalue, h, hjson => by
      obtain ⟨vs, hvs, heq⟩ := Option.map_eq_some_iff.1 hvalue
      rw [json_tuple (fun _ _ _ hlast => by cases hlast), ← heq] at hjson
      obtain ⟨ws, hws, heq'⟩ := Option.map_eq_some_iff.1 hjson
      cases heq'
      exact conformsItems_of_json hserde (.more b x b' rest) hvs h hws
  | .dict entries, v, hvalue, h, hjson => by
      obtain ⟨es, hes, heq⟩ := Option.map_eq_some_iff.1 hvalue
      rw [json_dict, ← heq] at hjson
      obtain ⟨os, hos, hjson⟩ := Option.bind_eq_some_iff.1 hjson
      have hkeys := keys_of_python hos
      obtain ⟨hentries, hagree⟩ := eq_of_toJson_display hserde
        (keysRead hserde entries hes hos) (by rw [hkeys]; exact h.2) hjson
      refine ⟨conformsEntries_of_json hserde entries hes h.1 ?_, by rwa [hkeys] at hagree⟩
      rw [LiteralEntries.json, hos]
      exact hentries

theorem conformsItems_of_json (hserde : PrintsNumbers serde) : ∀ (items : LiteralItems)
    {vs : List Json}, items.value serde = some vs → items.NoRepeats →
      items.json serde = some vs → items.Conforms serde
  | .done _, _, _, _, _ => trivial
  | .last b x b', vs, hvalue, h, hjson => by
      obtain ⟨v, hv, heq⟩ := Option.map_eq_some_iff.1 hvalue
      rw [json_last, ← heq] at hjson
      obtain ⟨w, hw, heq'⟩ := Option.map_eq_some_iff.1 hjson
      cases heq'
      exact conforms_of_json hserde x hv h hw
  | .more b x b' rest, vs, hvalue, h, hjson => by
      obtain ⟨v, hv, hrest⟩ := Option.bind_eq_some_iff.1 hvalue
      obtain ⟨vs', hvs', heq⟩ := Option.map_eq_some_iff.1 hrest
      rw [json_more, ← heq] at hjson
      obtain ⟨w, hw, hjson⟩ := Option.bind_eq_some_iff.1 hjson
      obtain ⟨ws, hws, heq'⟩ := Option.map_eq_some_iff.1 hjson
      cases heq'
      exact ⟨conforms_of_json hserde x hv h.1 hw, conformsItems_of_json hserde rest hvs' h.2 hws⟩

theorem conformsEntries_of_json (hserde : PrintsNumbers serde) : ∀ (entries : LiteralEntries)
    {es : List (String × Json)}, entries.value serde = some es → entries.NoRepeats →
      entries.json serde = some es → entries.Conforms serde
  | .done _, _, _, _, _ => trivial
  | .last b k b₁ b₂ x b', es, hvalue, h, hjson => by
      obtain ⟨t, ht, hx⟩ := Option.bind_eq_some_iff.1 hvalue
      obtain ⟨kv, hkv, htext⟩ := Option.bind_eq_some_iff.1 ht
      obtain ⟨v, hv, heq⟩ := Option.map_eq_some_iff.1 hx
      rw [json_entries_last, ← heq] at hjson
      obtain ⟨t', ht', hjson⟩ := Option.bind_eq_some_iff.1 hjson
      obtain ⟨w, hw, heq'⟩ := Option.map_eq_some_iff.1 hjson
      cases heq'
      exact ⟨conforms_of_json hserde k hkv h.1 (key_json hserde hkv htext ht'),
        conforms_of_json hserde x hv h.2 hw⟩
  | .more b k b₁ b₂ x b' rest, es, hvalue, h, hjson => by
      obtain ⟨t, ht, hx⟩ := Option.bind_eq_some_iff.1 hvalue
      obtain ⟨kv, hkv, htext⟩ := Option.bind_eq_some_iff.1 ht
      obtain ⟨v, hv, hrest⟩ := Option.bind_eq_some_iff.1 hx
      obtain ⟨es', hes', heq⟩ := Option.map_eq_some_iff.1 hrest
      rw [json_entries_more, ← heq] at hjson
      obtain ⟨t', ht', hjson⟩ := Option.bind_eq_some_iff.1 hjson
      obtain ⟨w, hw, hjson⟩ := Option.bind_eq_some_iff.1 hjson
      obtain ⟨ws, hws, heq'⟩ := Option.map_eq_some_iff.1 hjson
      cases heq'
      exact ⟨conforms_of_json hserde k hkv h.1 (key_json hserde hkv htext ht'),
        conforms_of_json hserde x hv h.2.1 hw, conformsEntries_of_json hserde rest hes' h.2.2 hws⟩

end

/-! ### Texts -/

/-- A text is a Python literal of this value, between blanks. -/
def IsLiteralOf (serde : SerdeJson) (t : List Char) (v : Json) : Prop :=
  ∃ b x b', t = Blank.chars b ++ (Literal.text x ++ Blank.chars b') ∧
    ∃ o, x.python = some o ∧ o.toJson serde = some v

def Conforms (serde : SerdeJson) (t : List Char) : Prop :=
  ∃ b x b', t = Blank.chars b ++ (Literal.text x ++ Blank.chars b') ∧ x.Conforms serde

def NoRepeats (t : List Char) : Prop :=
  ∀ b x b', t = Blank.chars b ++ (Literal.text x ++ Blank.chars b') → x.NoRepeats

theorem isLiteralOf_iff {b b' : Blank} {x : Literal} {v : Json} :
    IsLiteralOf serde (b.chars ++ (x.text ++ b'.chars)) v ↔ x.json serde = some v := by
  constructor
  · intro ⟨b₁, x', b₂, heq, o, ho, hv⟩
    rw [literal_unique heq, Literal.json, ho]
    exact hv
  · intro h
    obtain ⟨o, ho, hv⟩ := Option.bind_eq_some_iff.1 h
    exact ⟨b, x, b', rfl, o, ho, hv⟩

theorem conforms_iff {b b' : Blank} {x : Literal} :
    Conforms serde (b.chars ++ (x.text ++ b'.chars)) ↔ x.Conforms serde := by
  constructor
  · intro ⟨b₁, x', b₂, heq, h⟩
    rw [literal_unique heq]
    exact h
  · exact fun h => ⟨b, x, b', rfl, h⟩

end

/-- Integers in decimal digits; every float is printed alike. -/
def decimalSerde : SerdeJson where
  toString
    | .int n => String.ofList (intText n)
    | .float _ => "0.5"
    | _ => ""
  fromStr _ := none

theorem decimalSerde_printsNumbers : PrintsNumbers decimalSerde where
  int _ := rfl
  float _ := ⟨'.', show '.' ∈ "0.5".toList by decide, by decide, rfl⟩

/-- `1`, as a tree. -/
def oneLiteral : Literal := .num ⟨'1', [], rfl, fun _ h => absurd h List.not_mem_nil⟩

end Feloxi.Tasks
