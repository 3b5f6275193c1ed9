import Feloxi.Tasks.ReadBack

/-!
# Feloxi.Tasks.Cuts

What a budget does to a printed value. Either the text is cut off, and then the parser
never reads it; or the value is printed in whole, with some of its strings cut. Each cut
takes weight from the value, which no later cut or escape brings back.
-/

namespace Feloxi.Tasks

open Pipeline (SerdeJson)
open PyValue (intText escape quote tupleEnd text textItems textEntries cutMark Printed print
  printItems printEntries beforeLastSpace truncate)

/-! ### A text that was cut off -/

section

variable {serde : SerdeJson}

/-- The mark stands where no value can. -/
theorem lost_value_comma (fuel : Nat) (s : List Char) : Lost (value serde fuel (',' :: s)) := by
  cases fuel with
  | zero => exact lost_error _
  | succ fuel =>
      have hvalue : value serde (fuel + 1) (',' :: s) =
          (.error .unsupportedValue : Parsed Json) := by
        unfold value
        rfl
      rw [hvalue]
      exact lost_error _

/-- After a comma, it is not a number either. -/
theorem lost_value_dots (fuel : Nat) (s : List Char) :
    Lost (value serde fuel (' ' :: '.' :: '.' :: '.' :: s)) := by
  rw [value_space]
  cases fuel with
  | zero => exact lost_error _
  | succ fuel =>
      have hvalue : value serde (fuel + 1) ('.' :: '.' :: '.' :: s) =
          number ('.' :: '.' :: '.' :: s) := by
        unfold value
        rfl
      have hint : ∀ more, parseI64 ('.' :: '.' :: '.' :: more) = none := fun _ => rfl
      have hfloat : ∀ more, parseF64 ('.' :: '.' :: '.' :: more) = none := fun _ => rfl
      have htext : (('.' :: '.' :: '.' :: s).takeWhile isNumChar).filter (· != '_') =
          '.' :: '.' :: '.' :: (s.takeWhile isNumChar).filter (· != '_') := rfl
      rw [hvalue]
      unfold number
      rw [htext]
      dsimp only
      rw [hint, hfloat]
      dsimp only
      split <;> exact lost_error _

theorem lost_items_of_value {fuel : Nat} {close : Char} (hclose : close = ']' ∨ close = ')')
    {s : List Char} (hhead : (ws s).head? ≠ some close) (hv : ∀ fuel, Lost (value serde fuel s)) :
    Lost (items serde fuel close s) := by
  cases fuel with
  | zero => exact lost_error _
  | succ fuel =>
      have hquote : close ≠ '\'' ∧ close ≠ '\\' := by
        rcases hclose with rfl | rfl <;> decide
      rw [items_of_value serde fuel hhead]
      exact (hv fuel).bind fun v more hmore =>
        ((staysLost serde fuel).itemsTail hquote.1 hquote.2 hmore).map (v :: ·)

theorem lost_dict_of_key {fuel : Nat} {s : List Char} (hhead : (ws s).head? ≠ some '}')
    (hk : ∀ fuel, Lost (value serde fuel s)) : Lost (dict serde fuel s) := by
  cases fuel with
  | zero => exact lost_error _
  | succ fuel =>
      rw [dict_of_key serde fuel hhead]
      refine (hk fuel).bind fun v more hmore => ?_
      split
      · exact lost_error _
      · exact (staysLost serde fuel).entryTail _ hmore

theorem lost_entryTail_of_value {fuel : Nat} {key : String} {s : List Char}
    (hv : Lost (value serde fuel s)) : Lost (entryTail serde fuel key (':' :: ' ' :: s)) := by
  have hentry : entryTail serde fuel key (':' :: ' ' :: s) =
      (value serde fuel (' ' :: s)).bind fun p =>
        (dictTail serde fuel p.2).map fun q => ((key, p.1) :: q.1, q.2) := rfl
  rw [hentry, value_space]
  exact hv.bind fun v more hmore => ((staysLost serde fuel).dictTail hmore).map ((key, v) :: ·)

/-- A text that begins with a value that was cut off. -/
structure CutValue (serde : SerdeJson) (s : List Char) : Prop where
  lost : ∀ fuel, Lost (value serde fuel s)
  outside : Outside s
  head : ∃ c more, s = c :: more ∧ isEnding c = false

/-- A text that goes on with elements, and was cut off. -/
structure CutItems (serde : SerdeJson) (close : Char) (s : List Char) : Prop where
  lost : ∀ fuel, Lost (items serde fuel close s)
  outside : Outside s

structure CutItemsTail (serde : SerdeJson) (close : Char) (s : List Char) : Prop where
  lost : ∀ fuel, Lost (itemsTail serde fuel close s)
  follows : Follows s

structure CutDict (serde : SerdeJson) (s : List Char) : Prop where
  lost : ∀ fuel, Lost (dict serde fuel s)
  outside : Outside s

structure CutDictTail (serde : SerdeJson) (s : List Char) : Prop where
  lost : ∀ fuel, Lost (dictTail serde fuel s)
  follows : Follows s

theorem CutValue.head_ne {s : List Char} (h : CutValue serde s) {close : Char}
    (hclose : isEnding close = true) : (ws s).head? ≠ some close := by
  obtain ⟨c, more, hs, hc⟩ := h.head
  exact head_ne_of_head hs hc hclose

theorem outside_cutMark {tail : List Char} (h : Outside tail) : Outside (cutMark ++ tail) :=
  Outside.append (by decide) h

theorem cutValue_cutMark {tail : List Char} (h : Outside tail) : CutValue serde (cutMark ++ tail) :=
  ⟨fun fuel => lost_value_comma fuel _, outside_cutMark h, ',', _, rfl, rfl⟩

theorem cutItemsTail_cutMark {close : Char} (hclose : close = ']' ∨ close = ')')
    {tail : List Char} (h : Outside tail) : CutItemsTail serde close (cutMark ++ tail) := by
  refine ⟨fun fuel => ?_, stops_cons rfl rfl _, outside_cutMark h⟩
  refine lost_items_of_value (s := ' ' :: '.' :: '.' :: '.' :: tail) hclose ?_
    fun fuel => lost_value_dots fuel tail
  rcases hclose with rfl | rfl <;> exact fun h => nomatch h

theorem cutDictTail_cutMark {tail : List Char} (h : Outside tail) :
    CutDictTail serde (cutMark ++ tail) := by
  refine ⟨fun fuel => ?_, stops_cons rfl rfl _, outside_cutMark h⟩
  exact lost_dict_of_key (s := ' ' :: '.' :: '.' :: '.' :: tail) (fun h => nomatch h)
    fun fuel => lost_value_dots fuel tail

theorem cutItems_of_value {close : Char} (hclose : close = ']' ∨ close = ')') {s : List Char}
    (h : CutValue serde s) : CutItems serde close s := by
  refine ⟨fun fuel => lost_items_of_value hclose (h.head_ne ?_) h.lost, h.outside⟩
  rcases hclose with rfl | rfl <;> rfl

theorem cutDict_of_key {s : List Char} (h : CutValue serde s) : CutDict serde s :=
  ⟨fun _ => lost_dict_of_key (h.head_ne rfl) h.lost, h.outside⟩

theorem cutItemsTail_of_items {close : Char} {s : List Char} (h : CutItems serde close s) :
    CutItemsTail serde close (',' :: ' ' :: s) := by
  refine ⟨fun fuel => ?_, follows_cons rfl rfl rfl (.plain rfl h.outside)⟩
  show Lost (items serde fuel close (' ' :: s))
  rw [items_space]
  exact h.lost fuel

theorem cutDictTail_of_dict {s : List Char} (h : CutDict serde s) :
    CutDictTail serde (',' :: ' ' :: s) := by
  refine ⟨fun fuel => ?_, follows_cons rfl rfl rfl (.plain rfl h.outside)⟩
  show Lost (dict serde fuel (' ' :: s))
  rw [dict_space]
  exact h.lost fuel

/-- Elements printed in whole, and then a text that was cut off. -/
theorem cutItems_append {close : Char} (hclose : close = ']' ∨ close = ')') (xs : List PyValue)
    {s : List Char} (h : CutItemsTail serde close s) (hnil : xs = [] → CutItems serde close s) :
    CutItems serde close (textItems true xs ++ s) := by
  refine ⟨fun fuel => ?_, outside_textItems true h.follows.outside xs⟩
  -- nothing is expected of what comes after the elements
  have hend : ∀ fuel, Reads (itemsTail serde fuel close s) none [] := h.lost
  have hreads := reads_items hclose xs h.follows hend (fun heq => (hnil heq).lost) fuel
  cases hback : readBackItems xs with
  | none =>
      rw [hback] at hreads
      exact hreads
  | some vs =>
      rw [hback] at hreads
      exact hreads

theorem cutDict_append (entries : List (String × PyValue)) {s : List Char}
    (h : CutDictTail serde s) (hnil : entries = [] → CutDict serde s) :
    CutDict serde (textEntries true entries ++ s) := by
  refine ⟨fun fuel => ?_, outside_textEntries true h.follows.outside entries⟩
  have hend : ∀ fuel, Reads (dictTail serde fuel s) none [] := h.lost
  have hreads := reads_dict entries h.follows hend (fun heq => (hnil heq).lost) fuel
  cases hback : readBackEntries entries with
  | none =>
      rw [hback] at hreads
      exact hreads
  | some vs =>
      rw [hback] at hreads
      exact hreads

/-- A key printed in whole, and then a text that was cut off. -/
theorem cutDict_of_entry (k : String) {s : List Char} (hs : Outside s)
    (h : ∀ fuel key, Lost (entryTail serde fuel key s)) : CutDict serde (quote k ++ s) := by
  refine ⟨fun fuel => ?_, Outside.append_quote k hs⟩
  cases fuel with
  | zero => exact lost_error _
  | succ fuel =>
      have hreads : Reads (dict serde (fuel + 1) (quote k ++ s))
          ((readStr k).bind fun _ => none) [] :=
        reads_dict_of_key hs fun key _ => h fuel key
      cases hk : readStr k with
      | none =>
          rw [hk] at hreads
          exact hreads
      | some key =>
          rw [hk] at hreads
          exact hreads

/-- Brackets around elements that were cut off. -/
theorem cutValue_list {s : List Char} (h : CutItems serde ']' s) : CutValue serde ('[' :: s) := by
  refine ⟨fun fuel => ?_, .plain rfl h.outside, '[', s, rfl, rfl⟩
  cases fuel with
  | zero => exact lost_error _
  | succ fuel =>
      rw [value_list]
      exact (h.lost fuel).map Json.arr

theorem cutValue_tuple {s : List Char} (h : CutItems serde ')' s) : CutValue serde ('(' :: s) := by
  refine ⟨fun fuel => ?_, .plain rfl h.outside, '(', s, rfl, rfl⟩
  cases fuel with
  | zero => exact lost_error _
  | succ fuel =>
      rw [value_tuple]
      exact (h.lost fuel).map Json.arr

theorem cutValue_dict {s : List Char} (h : CutDict serde s) : CutValue serde ('{' :: s) := by
  refine ⟨fun fuel => ?_, .plain rfl h.outside, '{', s, rfl, rfl⟩
  cases fuel with
  | zero => exact lost_error _
  | succ fuel =>
      rw [value_dict]
      exact (h.lost fuel).map Json.ofEntries

/-- Elements after the first were cut off where those of a list of their own are, or at
the comma. -/
theorem cutItemsTail_print {close : Char} (hclose : close = ']' ∨ close = ')')
    {xs : List PyValue} {budget : Nat} {t tail : List Char}
    (h : printItems false xs budget = .cutOff t) (htail : Outside tail)
    (hitems : ∀ {budget t}, printItems true xs budget = .cutOff t →
      CutItems serde close (t ++ tail)) : CutItemsTail serde close (t ++ tail) := by
  cases xs with
  | nil => cases h
  | cons x xs =>
      rw [PyValue.printItems_false] at h
      rcases Printed.token_cutOff h with rfl | ⟨t', hxs, rfl⟩
      · exact cutItemsTail_cutMark hclose htail
      · exact cutItemsTail_of_items (hitems hxs)

theorem cutDictTail_print {entries : List (String × PyValue)} {budget : Nat} {t tail : List Char}
    (h : printEntries false entries budget = .cutOff t) (htail : Outside tail)
    (hdict : ∀ {budget t}, printEntries true entries budget = .cutOff t →
      CutDict serde (t ++ tail)) : CutDictTail serde (t ++ tail) := by
  cases entries with
  | nil => cases h
  | cons entry entries =>
      rw [PyValue.printEntries_false] at h
      rcases Printed.token_cutOff h with rfl | ⟨t', hentries, rfl⟩
      · exact cutDictTail_cutMark htail
      · exact cutDictTail_of_dict (hdict hentries)

mutual

/-- **A text that was cut off is never read.** -/
theorem cutValue_print : ∀ (v : PyValue) {budget : Nat} {t tail : List Char},
    v.print budget = .cutOff t → Outside tail → CutValue serde (t ++ tail)
  | .none, _, _, _, h, htail => by
      rcases Printed.token_cutOff h with rfl | ⟨t', h, -⟩
      · exact cutValue_cutMark htail
      · cases h
  | .bool b, _, _, _, h, htail => by
      rcases Printed.token_cutOff h with rfl | ⟨t', h, -⟩
      · exact cutValue_cutMark htail
      · cases h
  | .int n, _, _, _, h, htail => by
      rcases Printed.token_cutOff h with rfl | ⟨t', h, -⟩
      · exact cutValue_cutMark htail
      · cases h
  | .str s, _, _, _, h, htail => by
      rw [Printed.string_cutOff (Printed.map_cutOff h)]
      exact cutValue_cutMark htail
  | .list xs, _, _, tail, h, htail => by
      have hclosed : Outside ([']'] ++ tail) := .plain rfl htail
      rcases Printed.bracketed_cutOff (Printed.map_cutOff h) with rfl | ⟨shown, hbody, rfl⟩ |
        ⟨t', hbody, rfl⟩
      · exact cutValue_cutMark htail
      · rw [List.append_assoc, List.append_assoc, List.append_assoc]
        exact cutValue_list (cutItems_append (.inl rfl) shown
          (cutItemsTail_cutMark (.inl rfl) hclosed)
          fun _ => cutItems_of_value (.inl rfl) (cutValue_cutMark hclosed))
      · have hitems : CutItems serde ']' (t' ++ ([']'] ++ tail)) :=
          cutItems_print (.inl rfl) xs hbody hclosed
        rw [List.append_assoc, List.append_assoc]
        exact cutValue_list hitems
  | .tuple xs, _, _, tail, h, htail => by
      have hclosed : Outside (tupleEnd xs.length ++ tail) := outside_tupleEnd xs.length htail
      rcases Printed.bracketed_cutOff (Printed.map_cutOff h) with rfl | ⟨shown, hbody, rfl⟩ |
        ⟨t', hbody, rfl⟩
      · exact cutValue_cutMark htail
      · rw [List.append_assoc, List.append_assoc, List.append_assoc]
        exact cutValue_tuple (cutItems_append (.inr rfl) shown
          (cutItemsTail_cutMark (.inr rfl) hclosed)
          fun _ => cutItems_of_value (.inr rfl) (cutValue_cutMark hclosed))
      · have hitems : CutItems serde ')' (t' ++ (tupleEnd xs.length ++ tail)) :=
          cutItems_print (.inr rfl) xs hbody hclosed
        rw [List.append_assoc, List.append_assoc]
        exact cutValue_tuple hitems
  | .dict entries, _, _, tail, h, htail => by
      have hclosed : Outside (['\x7d'] ++ tail) := .plain rfl htail
      rcases Printed.bracketed_cutOff (Printed.map_cutOff h) with rfl | ⟨shown, hbody, rfl⟩ |
        ⟨t', hbody, rfl⟩
      · exact cutValue_cutMark htail
      · rw [List.append_assoc, List.append_assoc, List.append_assoc]
        exact cutValue_dict (cutDict_append shown (cutDictTail_cutMark hclosed)
          fun _ => cutDict_of_key (cutValue_cutMark hclosed))
      · have hdict : CutDict serde (t' ++ (['\x7d'] ++ tail)) :=
          cutDict_print entries hbody hclosed
        rw [List.append_assoc, List.append_assoc]
        exact cutValue_dict hdict

theorem cutItems_print {close : Char} (hclose : close = ']' ∨ close = ')') :
    ∀ (xs : List PyValue) {budget : Nat} {t tail : List Char},
      printItems true xs budget = .cutOff t → Outside tail → CutItems serde close (t ++ tail)
  | [], _, _, _, h, _ => nomatch h
  | x :: xs, budget, t, tail, h, htail => by
      rw [PyValue.printItems_true] at h
      rcases Printed.andThen_cutOff h with hx | ⟨x', left, t', -, hxs, rfl⟩
      · exact cutItems_of_value hclose (cutValue_print x hx htail)
      · have hothers := cutItemsTail_print hclose (Printed.map_cutOff hxs) htail
          fun h => cutItems_print hclose xs h htail
        have hone := cutItems_append hclose [x'] hothers fun h => nomatch h
        rwa [textItems, textItems, if_pos rfl, List.nil_append, List.append_nil,
          ← List.append_assoc] at hone

theorem cutDict_print : ∀ (entries : List (String × PyValue)) {budget : Nat} {t tail : List Char},
    printEntries true entries budget = .cutOff t → Outside tail → CutDict serde (t ++ tail)
  | [], _, _, _, h, _ => nomatch h
  | (k, x) :: entries, budget, t, tail, h, htail => by
      rw [PyValue.printEntries_true] at h
      rcases Printed.andThen_cutOff h with hk | ⟨k', left, t', -, hcolon, rfl⟩
      · rw [Printed.string_cutOff hk]
        exact cutDict_of_key (cutValue_cutMark htail)
      · rw [List.append_assoc]
        rcases Printed.token_cutOff hcolon with rfl | ⟨t', hentry, rfl⟩
        · exact cutDict_of_entry k' (outside_cutMark htail) fun fuel key => lost_error _
        · rcases Printed.andThen_cutOff hentry with hx | ⟨x', left', t', -, hentries, rfl⟩
          · have hvalue := cutValue_print x hx htail
            exact cutDict_of_entry k' (.plain rfl (.plain rfl hvalue.outside))
              fun fuel key => lost_entryTail_of_value (hvalue.lost fuel)
          · have hothers := cutDictTail_print (Printed.map_cutOff hentries) htail
              fun h => cutDict_print entries h htail
            have hone := cutDict_append [(k', x')] hothers fun h => nomatch h
            rw [textEntries, textEntries, if_pos rfl, List.nil_append, List.append_nil,
              List.append_assoc, List.cons_append, List.cons_append, ← List.append_assoc] at hone
            exact hone

end

end

end Feloxi.Tasks
