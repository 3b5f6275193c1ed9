import Feloxi.Tasks.PyLiterals
import Mathlib.Algebra.Order.BigOperators.Group.List

/-!
# Feloxi.Tasks.DictDisplays

Dict displays. Python merges the keys that are equal, and the parser those of one text. If the two
agree on the keys of a display, then the object is that of the dict (`toJson_display`). The other
way round, a display without repeated keys is read exactly only if every entry is
(`eq_of_toJson_display`).
-/

namespace Feloxi.Tasks

open Pipeline (SerdeJson)
open PyValue (intText)
open PyObject (toJson toJsonEntries insertKey ofDisplay)

section

variable (serde : SerdeJson)

/-- An entry, and what it is in the object. -/
def Entered (e : PyKey × PyObject) (j : String × Json) : Prop :=
  e.1.text serde = j.1 ∧ e.2.toJson serde = some j.2

/-- Keys are equal to Python exactly if they have one text. -/
def KeysAgree (keys : List PyKey) : Prop :=
  ∀ k ∈ keys, ∀ k' ∈ keys, k.text serde = k'.text serde ↔ k.ident = k'.ident

/-- No key is repeated. -/
def DistinctKeys (keys : List PyKey) : Prop := (keys.map PyKey.ident).Nodup

variable {serde}

theorem toJsonEntries_eq_some {entries : List (PyKey × PyObject)} {es : List (String × Json)} :
    toJsonEntries serde entries = some es ↔ List.Forall₂ (Entered serde) entries es := by
  induction entries generalizing es with
  | nil => cases es <;> simp [toJsonEntries]
  | cons e entries ih =>
      obtain ⟨k, x⟩ := e
      rw [toJsonEntries, Option.bind_eq_some_iff]
      constructor
      · intro ⟨v, hv, h⟩
        obtain ⟨es', hes', heq⟩ := Option.map_eq_some_iff.1 h
        rw [← heq]
        exact .cons ⟨rfl, hv⟩ (ih.1 hes')
      · intro h
        cases h with
        | cons hentered hrest =>
            rename_i j es
            obtain ⟨t, v⟩ := j
            obtain ⟨htext, hv⟩ := hentered
            exact ⟨v, hv, by rw [ih.2 hrest, htext]; rfl⟩

theorem texts_of_entered {entries : List (PyKey × PyObject)} {es : List (String × Json)}
    (h : List.Forall₂ (Entered serde) entries es) :
    es.map Prod.fst = (entries.map Prod.fst).map fun k => k.text serde := by
  induction h with
  | nil => rfl
  | cons hentered _ ih => simp [ih, hentered.1]

/-! ### Merging keys -/

theorem mem_keys_insertKey {key k : PyKey} {x : PyObject} {acc : List (PyKey × PyObject)}
    (h : k ∈ (insertKey key x acc).map Prod.fst) : k = key ∨ k ∈ acc.map Prod.fst := by
  induction acc with
  | nil => exact .inl (by simpa [insertKey] using h)
  | cons e acc ih =>
      obtain ⟨k', y⟩ := e
      unfold insertKey at h
      split at h
      · exact .inr (by simpa using h)
      · rcases List.mem_cons.1 h with heq | h
        · exact .inr (by simp [heq])
        · rcases ih h with heq | hmem
          · exact .inl heq
          · exact .inr (List.mem_cons_of_mem k' hmem)

theorem distinctKeys_insertKey {key : PyKey} {x : PyObject} {acc : List (PyKey × PyObject)}
    (h : DistinctKeys (acc.map Prod.fst)) : DistinctKeys ((insertKey key x acc).map Prod.fst) := by
  induction acc with
  | nil => exact List.nodup_singleton _
  | cons e acc ih =>
      obtain ⟨k, y⟩ := e
      obtain ⟨hk, hacc⟩ := List.nodup_cons.1 h
      unfold insertKey
      split
      · exact h
      · rename_i hne
        refine List.nodup_cons.2 ⟨fun hmem => ?_, ih hacc⟩
        obtain ⟨k', hk', hident⟩ := List.mem_map.1 hmem
        rcases mem_keys_insertKey hk' with heq | hk'
        · exact hne (by rw [← heq]; exact hident.symm)
        · exact hk (List.mem_map.2 ⟨k', hk', hident⟩)

theorem insertKey_of_not_mem {key : PyKey} {x : PyObject} {acc : List (PyKey × PyObject)}
    (h : ∀ k ∈ acc.map Prod.fst, k.ident ≠ key.ident) :
    insertKey key x acc = acc ++ [(key, x)] := by
  induction acc with
  | nil => rfl
  | cons e acc ih =>
      obtain ⟨hk, hacc⟩ := List.forall_mem_cons.1 h
      rw [insertKey, if_neg hk, ih hacc]
      rfl

/-- Distinct keys are all kept. -/
theorem ofDisplay_of_distinct {entries : List (PyKey × PyObject)}
    (h : DistinctKeys (entries.map Prod.fst)) : ofDisplay entries = entries := by
  -- by induction on the entries, behind the distinct ones inserted so far
  have hfold : ∀ (entries acc : List (PyKey × PyObject)),
      DistinctKeys ((acc ++ entries).map Prod.fst) →
        entries.foldl (fun acc e => insertKey e.1 e.2 acc) acc = acc ++ entries := by
    intro entries
    induction entries with
    | nil => simp
    | cons e entries ih =>
        intro acc hacc
        have hfresh : ∀ k ∈ acc.map Prod.fst, k.ident ≠ e.1.ident := by
          intro k hk heq
          unfold DistinctKeys at hacc
          rw [List.map_append, List.map_append, List.nodup_append] at hacc
          exact hacc.2.2 _ (List.mem_map_of_mem hk) e.1.ident (by simp) heq
        rw [List.foldl_cons, insertKey_of_not_mem hfresh, ih _ (by simpa using hacc)]
        simp
  exact hfold entries [] h

/-- An inserted entry is one of the object, at the place of its text. -/
theorem entered_insertKey {key : PyKey} {x : PyObject} {v : Json} (hx : x.toJson serde = some v)
    {acc : List (PyKey × PyObject)} {js : List (String × Json)}
    (hacc : List.Forall₂ (Entered serde) acc js) (hdistinct : DistinctKeys (acc.map Prod.fst))
    (hagree : KeysAgree serde (key :: acc.map Prod.fst)) :
    ∃ js', List.Forall₂ (Entered serde) (insertKey key x acc) js' ∧ ∀ m,
      js'.foldl (fun acc e => Json.insertEntry e.1 e.2 acc) m =
        Json.insertEntry (key.text serde) v
          (js.foldl (fun acc e => Json.insertEntry e.1 e.2 acc) m) := by
  induction hacc with
  | nil => exact ⟨[(key.text serde, v)], .cons ⟨rfl, hx⟩ .nil, fun m => rfl⟩
  | cons hentered hrest ih =>
      rename_i e j acc js
      obtain ⟨k, y⟩ := e
      obtain ⟨t, u⟩ := j
      have htext : k.text serde = t := hentered.1
      have hiff := hagree k (by simp) key (by simp)
      obtain ⟨hk, hdistinct'⟩ := List.nodup_cons.1 hdistinct
      unfold insertKey
      by_cases heq : k.ident = key.ident
      · -- the value of the entry is replaced, in the object too
        rw [if_pos heq]
        have ht : t = key.text serde := htext ▸ hiff.2 heq
        have hfresh : ∀ e ∈ js, e.1 ≠ t := by
          intro e he hkey
          have hmem : e.1 ∈ js.map Prod.fst := List.mem_map_of_mem he
          rw [texts_of_entered hrest] at hmem
          obtain ⟨k', hk', htext'⟩ := List.mem_map.1 hmem
          have hident := (hagree k (by simp) k' (by simp [hk'])).1 (by rw [htext', hkey, htext])
          exact hk (List.mem_map.2 ⟨k', hk', hident.symm⟩)
        refine ⟨(t, v) :: js, .cons ⟨htext, hx⟩ hrest, fun m => ?_⟩
        rw [List.foldl_cons, List.foldl_cons, Json.foldl_insertEntry_comm hfresh,
          Json.foldl_insertEntry_comm hfresh, ← ht, Json.insertEntry_insertEntry]
      · rw [if_neg heq]
        obtain ⟨js', hjs', hfold⟩ := ih hdistinct' fun a ha b hb =>
          hagree a (by simp at ha ⊢; tauto) b (by simp at hb ⊢; tauto)
        exact ⟨(t, u) :: js', .cons hentered hjs', fun m => hfold _⟩

/-- The dict of a display, and its object. -/
theorem entered_ofDisplay {entries : List (PyKey × PyObject)} {es : List (String × Json)}
    (h : List.Forall₂ (Entered serde) entries es)
    (hagree : KeysAgree serde (entries.map Prod.fst)) :
    ∃ js, List.Forall₂ (Entered serde) (ofDisplay entries) js ∧
      DistinctKeys ((ofDisplay entries).map Prod.fst) ∧
      (∀ k ∈ (ofDisplay entries).map Prod.fst, k ∈ entries.map Prod.fst) ∧
      Json.ofEntries js = Json.ofEntries es := by
  -- the two folds side by side, from dicts and objects of the same entries
  have hfold : ∀ {entries : List (PyKey × PyObject)} {es : List (String × Json)},
      List.Forall₂ (Entered serde) entries es → ∀ (acc : List (PyKey × PyObject))
        (js : List (String × Json)), List.Forall₂ (Entered serde) acc js →
        DistinctKeys (acc.map Prod.fst) →
        KeysAgree serde (acc.map Prod.fst ++ entries.map Prod.fst) →
          ∃ js', List.Forall₂ (Entered serde)
              (entries.foldl (fun acc e => insertKey e.1 e.2 acc) acc) js' ∧
            DistinctKeys ((entries.foldl (fun acc e => insertKey e.1 e.2 acc) acc).map Prod.fst) ∧
            (∀ k ∈ (entries.foldl (fun acc e => insertKey e.1 e.2 acc) acc).map Prod.fst,
              k ∈ acc.map Prod.fst ++ entries.map Prod.fst) ∧
            js'.foldl (fun acc e => Json.insertEntry e.1 e.2 acc) [] =
              es.foldl (fun acc e => Json.insertEntry e.1 e.2 acc)
                (js.foldl (fun acc e => Json.insertEntry e.1 e.2 acc) []) := by
    intro entries es h
    induction h with
    | nil => exact fun acc js hacc hdistinct _ => ⟨js, hacc, hdistinct, by simp, rfl⟩
    | cons hentered hrest ih =>
        rename_i e j entries es
        intro acc js hacc hdistinct hagree
        obtain ⟨js₁, hjs₁, hfirst⟩ := entered_insertKey hentered.2 hacc hdistinct
          fun a ha b hb => hagree a (by simp at ha ⊢; tauto) b (by simp at hb ⊢; tauto)
        have hkeys : ∀ k ∈ (insertKey e.1 e.2 acc).map Prod.fst ++ entries.map Prod.fst,
            k ∈ acc.map Prod.fst ++ (e :: entries).map Prod.fst := by
          intro k hk
          rcases List.mem_append.1 hk with hk | hk
          · rcases mem_keys_insertKey hk with heq | hmem
            · simp [heq]
            · exact List.mem_append_left _ hmem
          · exact List.mem_append_right _ (List.mem_cons_of_mem _ hk)
        obtain ⟨js', hjs', hdistinct', hmem, hrest⟩ := ih _ js₁ hjs₁
          (distinctKeys_insertKey hdistinct) fun a ha b hb =>
            hagree a (hkeys a ha) b (hkeys b hb)
        refine ⟨js', hjs', hdistinct', fun k hk => hkeys k (hmem k hk), ?_⟩
        rw [hrest, hfirst, hentered.1]
        rfl
  obtain ⟨js, hjs, hdistinct, hmem, heq⟩ := hfold h [] [] .nil (by simp [DistinctKeys]) hagree
  exact ⟨js, hjs, hdistinct, hmem, congrArg Json.obj heq⟩

/-- **A display whose keys agree is read as its dict**, if its entries are. -/
theorem toJson_display {entries : List (PyKey × PyObject)} {es : List (String × Json)}
    (h : toJsonEntries serde entries = some es)
    (hagree : KeysAgree serde (entries.map Prod.fst)) :
    toJson serde (.dict (ofDisplay entries)) = some (.ofEntries es) := by
  obtain ⟨js, hjs, hdistinct, hmem, heq⟩ := entered_ofDisplay (toJsonEntries_eq_some.1 h) hagree
  -- distinct keys that agree have distinct texts
  have htexts : (js.map Prod.fst).Nodup := by
    rw [texts_of_entered hjs]
    refine List.Nodup.map_on (fun k hk k' hk' htext => ?_) (List.Nodup.of_map _ hdistinct)
    exact List.inj_on_of_nodup_map hdistinct hk hk'
      ((hagree k (hmem k hk) k' (hmem k' hk')).1 htext)
  rw [toJson, toJsonEntries_eq_some.2 hjs, Option.bind_some, if_pos htexts, heq]

/-! ### A display that is read exactly -/

variable (serde)

/-- Integers are printed in decimal digits, and floats with a point or an exponent. -/
structure PrintsNumbers : Prop where
  int : ∀ n, serde.toString (.int n) = String.ofList (intText n)
  float : ∀ q, ∃ c ∈ (serde.toString (.float (.fin q))).toList, c ≠ '-' ∧ c.isDigit = false

/-- What the parser makes of a key, and its text in Python: the same, or longer by the digits
behind a zero character, or a float for an integer. -/
inductive KeyRead : String → String → Prop where
  | same (t : String) : KeyRead t t
  | longer {t x : String} (hzero : Char.ofNat 0 ∈ t.toList) (hlt : x.length < t.length) :
      KeyRead t x
  | float (n : Int) (q : ℚ) :
      KeyRead (serde.toString (.float (.fin q))) (String.ofList (intText n))

variable {serde}

theorem zero_not_mem_decimal (n : Int) : Char.ofNat 0 ∉ (String.ofList (intText n)).toList := by
  intro h
  rw [String.toList_ofList] at h
  rcases mem_intText h with heq | hdigit
  · cases heq
  · cases hdigit

theorem PrintsNumbers.float_ne (h : PrintsNumbers serde) (n : Int) (q : ℚ) :
    serde.toString (.float (.fin q)) ≠ String.ofList (intText n) := by
  intro heq
  obtain ⟨c, hc, hminus, hdigit⟩ := h.float q
  rw [heq, String.toList_ofList] at hc
  rcases mem_intText hc with hc | hc
  · exact hminus hc
  · rw [hdigit] at hc
    cases hc

/-- No two texts of a list sum up to the same length as what they are longer than. -/
theorem eq_of_perm_of_longer {pairs : List (String × String)}
    (hperm : (pairs.map Prod.fst).Perm (pairs.map Prod.snd))
    (h : ∀ p ∈ pairs, p.1 = p.2 ∨ p.2.length < p.1.length) : ∀ p ∈ pairs, p.1 = p.2 := by
  have hsum : (pairs.map fun p => p.1.length).sum = (pairs.map fun p => p.2.length).sum := by
    have := (hperm.map String.length).sum_eq
    simpa [List.map_map, Function.comp_def] using this
  intro p hp
  rcases h p hp with heq | hlt
  · exact heq
  · have hle : ∀ p ∈ pairs, p.2.length ≤ p.1.length := by
      intro p hp
      rcases h p hp with heq | hlt
      · rw [heq]
      · exact Nat.le_of_lt hlt
    have hstrict := List.sum_lt_sum (fun p : String × String => p.2.length)
      (fun p => p.1.length) hle ⟨p, hp, hlt⟩
    rw [hsum] at hstrict
    exact absurd hstrict (lt_irrefl _)

/-- Keys that make the same object as distinct ones are these. -/
theorem keys_eq_of_keyRead (hserde : PrintsNumbers serde) {pairs : List (String × String)}
    (hread : ∀ p ∈ pairs, KeyRead serde p.1 p.2) (hdistinct : (pairs.map Prod.snd).Nodup)
    (hsub : ∀ t ∈ pairs.map Prod.snd, t ∈ pairs.map Prod.fst) : ∀ p ∈ pairs, p.1 = p.2 := by
  have hperm : (pairs.map Prod.fst).Perm (pairs.map Prod.snd) :=
    ((hdistinct.subperm hsub).perm_of_length_le (by simp)).symm
  refine eq_of_perm_of_longer hperm fun p hp => ?_
  -- a float in place of an integer leaves the integer's text without a key
  have hfloat : ∀ n q, p.1 = serde.toString (.float (.fin q)) →
      p.2 = String.ofList (intText n) → False := by
    intro n q hfirst hsecond
    obtain ⟨p', hp', hkey⟩ := List.mem_map.1 (hsub p.2 (List.mem_map_of_mem hp))
    have hcases := hread p' hp'
    generalize ht : p'.1 = t at hcases
    generalize hx : p'.2 = x at hcases
    cases hcases with
    | same =>
        have hsame : p' = p :=
          List.inj_on_of_nodup_map hdistinct hp' hp (by rw [hx, ← ht, hkey])
        rw [hsame, hfirst, hsecond] at hkey
        exact hserde.float_ne n q hkey
    | longer hzero _ =>
        rw [← ht, hkey, hsecond] at hzero
        exact zero_not_mem_decimal n hzero
    | float m q' =>
        rw [hkey, hsecond] at ht
        exact hserde.float_ne n q' ht.symm
  have hcases := hread p hp
  generalize ht : p.1 = t at hcases hfloat
  generalize hx : p.2 = x at hcases hfloat
  cases hcases with
  | same => exact .inl rfl
  | longer _ hlt => exact .inr hlt
  | float n q => exact (hfloat n q rfl rfl).elim

/-- Entries of the same keys, all of them distinct, make the same object only if they are equal. -/
theorem eq_of_ofEntries {es es' : List (String × Json)} (hkeys : es.map Prod.fst = es'.map Prod.fst)
    (hdistinct : (es'.map Prod.fst).Nodup) (h : Json.ofEntries es = Json.ofEntries es') :
    es = es' := by
  have hvalue : ∀ e ∈ es, ∀ e' ∈ es', e.1 = e'.1 → e.2 = e'.2 := by
    intro e he e' he' hkey
    have hfirst := Json.get_ofEntries_of_mem (hkeys ▸ hdistinct) he
    have hsecond := Json.get_ofEntries_of_mem hdistinct he'
    rw [h, hkey, hsecond] at hfirst
    exact (Option.some.inj hfirst).symm
  clear h hdistinct
  induction es generalizing es' with
  | nil => exact (List.map_eq_nil_iff.1 hkeys.symm).symm
  | cons e es ih =>
      cases es' with
      | nil => cases hkeys
      | cons e' es' =>
          obtain ⟨hkey, hrest⟩ := List.cons.inj hkeys
          have hsnd := hvalue e (by simp) e' (by simp) hkey
          rw [Prod.ext hkey hsnd, ih hrest fun a ha b hb =>
            hvalue a (List.mem_cons_of_mem _ ha) b (List.mem_cons_of_mem _ hb)]

/-- **A display without repeated keys is read as its dict only if every entry is.** -/
theorem eq_of_toJson_display (hserde : PrintsNumbers serde)
    {entries : List (PyKey × PyObject)} {es : List (String × Json)}
    (hread : List.Forall₂ (fun j e => KeyRead serde j.1 (e.1.text serde)) es entries)
    (hdistinct : DistinctKeys (entries.map Prod.fst))
    (h : toJson serde (.dict (ofDisplay entries)) = some (.ofEntries es)) :
    toJsonEntries serde entries = some es ∧ KeysAgree serde (entries.map Prod.fst) := by
  rw [ofDisplay_of_distinct hdistinct, toJson] at h
  obtain ⟨js, hjs, hmap⟩ := Option.bind_eq_some_iff.1 h
  split at hmap
  · rename_i htexts
    have hobject := Option.some.inj hmap
    have hentered := toJsonEntries_eq_some.1 hjs
    have hfst := texts_of_entered hentered
    -- both lists of keys, side by side
    have hlength : es.length = js.length := hread.length_eq.trans hentered.length_eq
    have hzip : ∀ p ∈ (es.map Prod.fst).zip (js.map Prod.fst), KeyRead serde p.1 p.2 := by
      rw [hfst]
      have hboth : List.Forall₂ (KeyRead serde) (es.map Prod.fst)
          ((entries.map Prod.fst).map fun k => k.text serde) := by
        rw [List.map_map, List.forall₂_map_left_iff, List.forall₂_map_right_iff]
        exact hread
      exact fun p hp => (List.forall₂_iff_zip.1 hboth).2 hp
    have hfirst : ((es.map Prod.fst).zip (js.map Prod.fst)).map Prod.fst = es.map Prod.fst :=
      List.map_fst_zip (by simp [hlength])
    have hsecond : ((es.map Prod.fst).zip (js.map Prod.fst)).map Prod.snd = js.map Prod.fst :=
      List.map_snd_zip (by simp [hlength])
    have hkeys : es.map Prod.fst = js.map Prod.fst := by
      have heq := keys_eq_of_keyRead hserde hzip (by rwa [hsecond]) fun t ht => by
        rw [hfirst, ← Json.isSome_get_ofEntries, ← hobject, Json.isSome_get_ofEntries]
        rwa [hsecond] at ht
      exact hfirst.symm.trans ((List.map_congr_left heq).trans hsecond)
    have hes := eq_of_ofEntries hkeys htexts hobject.symm
    refine ⟨hes ▸ hjs, fun k hk k' hk' => ⟨fun htext => ?_, fun hident => ?_⟩⟩
    · rw [hfst] at htexts
      rw [List.inj_on_of_nodup_map htexts hk hk' htext]
    · rw [List.inj_on_of_nodup_map hdistinct hk hk' hident]
  · cases hmap

end

end Feloxi.Tasks
