import Feloxi.Lib.Replacements

/-!
# Feloxi.Lib.Html

Reading markup: the texts of a page and its tags, in turn. A tag runs from `<` to the first `>`
that is not quoted, and is told apart from the others by all that is written in it, with its
attributes. Comments, scripts and styles are not read.

A page made of tags and of texts whose five special characters are entities is read as these tags
and texts (`read_render`).
-/

namespace Feloxi.Html

open Replacements

/-! ### Entities -/

def entities : List (Char × List Char) := [
  ('&', ['&', 'a', 'm', 'p', ';']),
  ('<', ['&', 'l', 't', ';']),
  ('>', ['&', 'g', 't', ';']),
  ('"', ['&', 'q', 'u', 'o', 't', ';']),
  ('\'', ['&', '#', '3', '9', ';'])]

/-- A text with entities in it. -/
def write (s : List Char) : List Char := s.flatMap (image entities)

/-- The five entities replaced, from the left. -/
def decode : List Char → List Char
  | '&' :: 'a' :: 'm' :: 'p' :: ';' :: s => '&' :: decode s
  | '&' :: 'l' :: 't' :: ';' :: s => '<' :: decode s
  | '&' :: 'g' :: 't' :: ';' :: s => '>' :: decode s
  | '&' :: 'q' :: 'u' :: 'o' :: 't' :: ';' :: s => '"' :: decode s
  | '&' :: '#' :: '3' :: '9' :: ';' :: s => '\'' :: decode s
  | c :: s => c :: decode s
  | [] => []

theorem decode_cons_of_ne {c : Char} (h : c ≠ '&') (s : List Char) :
    decode (c :: s) = c :: decode s := by
  rw [decode.eq_def]
  simp [h]

theorem decode_image (c : Char) (s : List Char) :
    decode (image entities c ++ s) = c :: decode s := by
  rcases image_cases entities c with ⟨hkept, hnone⟩ | hrule
  · have hc : c ≠ '&' := by
      rintro rfl
      exact hnone (by decide)
    rw [hkept]
    exact decode_cons_of_ne hc s
  · simp only [entities, List.mem_cons, Prod.mk.injEq, List.not_mem_nil, or_false] at hrule
    rcases hrule with ⟨rfl, -⟩ | ⟨rfl, -⟩ | ⟨rfl, -⟩ | ⟨rfl, -⟩ | ⟨rfl, -⟩ <;> rfl

/-- **Every text is decoded as it was**, whatever follows it. -/
theorem decode_write (s rest : List Char) : decode (write s ++ rest) = s ++ decode rest := by
  induction s with
  | nil => rfl
  | cons c s ih =>
      rw [write, List.flatMap_cons, List.append_assoc, decode_image]
      exact congrArg (c :: ·) ih

theorem not_mem_write (s : List Char) : '<' ∉ write s :=
  not_mem_flatMap_image (by decide) (by decide) s

/-! ### Reading -/

inductive Mode where
  | text
  /-- In a tag, and maybe in a quoted value. -/
  | tag (quote : Option Char)

/-- A `<` in front of this text starts a tag. -/
def opensTag : List Char → Bool
  | c :: _ => c.isAlpha || c == '/' || c == '!' || c == '?'
  | [] => false

def quoteStep : Option Char → Char → Option Char
  | none, c => if c = '"' ∨ c = '\'' then some c else none
  | some q, c => if c = q then none else some q

/-- A text in front of the first segment. -/
def lead (s : List Char) : List (List Char) → List (List Char)
  | [] => [s]
  | x :: xs => (s ++ x) :: xs

/-- Texts and tags in turn, a text first. -/
def scan : Mode → List Char → Option (List (List Char))
  | .text, [] => some [[]]
  | .tag _, [] => none
  | .text, c :: s =>
    if c = '<' ∧ opensTag s = true then (scan (.tag none) s).map ([] :: ·)
    else (scan .text s).map (lead [c])
  | .tag quote, c :: s =>
    if quote = none ∧ c = '>' then (scan .text s).map ([] :: ·)
    else (scan (.tag (quoteStep quote c)) s).map (lead [c])

def decodeTexts : List (List Char) → List (List Char)
  | x :: t :: rest => decode x :: t :: decodeTexts rest
  | [x] => [decode x]
  | [] => []

/-- The texts and tags of a page, the texts without entities. -/
def read (page : List Char) : Option (List (List Char)) := (scan .text page).map decodeTexts

def tags : List (List Char) → List (List Char)
  | _ :: t :: rest => t :: tags rest
  | _ => []

/-! ### Writing -/

inductive Part where
  | tag (t : List Char)
  | text (s : List Char)

def render : List Part → List Char
  | [] => []
  | .tag t :: parts => '<' :: (t ++ '>' :: render parts)
  | .text s :: parts => write s ++ render parts

/-- The texts and tags in turn. -/
def segments : List Part → List (List Char)
  | [] => [[]]
  | .tag t :: parts => [] :: t :: segments parts
  | .text s :: parts => lead s (segments parts)

def Part.tag? : Part → Option (List Char)
  | .tag t => some t
  | .text _ => none

def Part.written : Part → Part
  | .tag t => .tag t
  | .text s => .text (write s)

/-- The quote that is open behind a text in a tag; none if the tag ends in the text. -/
def quoteAfter : Option Char → List Char → Option (Option Char)
  | quote, [] => some quote
  | quote, c :: t => if quote = none ∧ c = '>' then none else quoteAfter (quoteStep quote c) t

/-- What can be written in a tag. -/
def Proper (t : List Char) : Prop := opensTag t = true ∧ quoteAfter none t = some none

instance (t : List Char) : Decidable (Proper t) := inferInstanceAs (Decidable (_ ∧ _))

theorem quoteAfter_append {quote quote' : Option Char} {s : List Char}
    (h : quoteAfter quote s = some quote') (t : List Char) :
    quoteAfter quote (s ++ t) = quoteAfter quote' t := by
  induction s generalizing quote with
  | nil =>
      cases h
      rfl
  | cons c s ih =>
      rw [quoteAfter] at h
      split at h
      · cases h
      · rename_i hgoes
        rw [List.cons_append, quoteAfter, if_neg hgoes, ih h]

theorem opensTag_append {t : List Char} (h : opensTag t = true) (s : List Char) :
    opensTag (t ++ s) = true := by
  cases t with
  | nil => cases h
  | cons c t => exact h

/-- A tag in two pieces. -/
theorem proper_append {quote : Option Char} {s t : List Char} (hopens : opensTag s = true)
    (hs : quoteAfter none s = some quote) (ht : quoteAfter quote t = some none) :
    Proper (s ++ t) :=
  ⟨opensTag_append hopens t, (quoteAfter_append hs t).trans ht⟩

def Part.Proper : Part → Prop
  | .tag t => Html.Proper t
  | .text _ => True

theorem lead_nil {xs : List (List Char)} (h : xs ≠ []) : lead [] xs = xs := by
  cases xs with
  | nil => exact absurd rfl h
  | cons x xs => rfl

theorem lead_cons (c : Char) (s : List Char) (xs : List (List Char)) :
    lead [c] (lead s xs) = lead (c :: s) xs := by
  cases xs <;> rfl

theorem segments_ne_nil (parts : List Part) : segments parts ≠ [] := by
  cases parts with
  | nil => exact List.cons_ne_nil _ _
  | cons p parts =>
      cases p with
      | tag t => exact List.cons_ne_nil _ _
      | text s =>
          show lead s (segments parts) ≠ []
          cases segments parts <;> exact List.cons_ne_nil _ _

/-! ### What is written is read -/

theorem scan_text {w : List Char} (h : '<' ∉ w) {rest : List Char} {xs : List (List Char)}
    (hxs : xs ≠ []) (hscan : scan .text rest = some xs) :
    scan .text (w ++ rest) = some (lead w xs) := by
  induction w with
  | nil => rw [lead_nil hxs, List.nil_append, hscan]
  | cons c w ih =>
      rw [List.mem_cons, not_or] at h
      have hc : ¬ (c = '<' ∧ opensTag (w ++ rest) = true) := fun hc => h.1 hc.1.symm
      rw [List.cons_append, scan, if_neg hc, ih h.2, Option.map_some, lead_cons]

theorem scan_tag {quote : Option Char} {t : List Char} (h : quoteAfter quote t = some none)
    {rest : List Char} {xs : List (List Char)} (hscan : scan .text rest = some xs) :
    scan (.tag quote) (t ++ '>' :: rest) = some (t :: xs) := by
  induction t generalizing quote with
  | nil =>
      rw [quoteAfter, Option.some.injEq] at h
      simp [scan, h, hscan]
  | cons c t ih =>
      rw [quoteAfter] at h
      split at h
      · cases h
      · rename_i hgoes
        rw [List.cons_append, scan, if_neg hgoes, ih h]
        rfl

/-- The scan takes the page apart as it was put together. -/
theorem scan_render {parts : List Part} (h : ∀ p ∈ parts, p.Proper) :
    scan .text (render parts) = some (segments (parts.map Part.written)) := by
  induction parts with
  | nil => rfl
  | cons p parts ih =>
      obtain ⟨hp, hparts⟩ := List.forall_mem_cons.1 h
      have hscan := ih hparts
      cases p with
      | text s => exact scan_text (not_mem_write s) (segments_ne_nil _) hscan
      | tag t =>
          rw [render, scan, if_pos ⟨rfl, opensTag_append hp.1 _⟩, scan_tag hp.2 hscan]
          rfl

theorem decodeTexts_lead (s : List Char) {xs : List (List Char)} (hxs : xs ≠ []) :
    decodeTexts (lead (write s) xs) = lead s (decodeTexts xs) := by
  rcases xs with _ | ⟨x, _ | ⟨t, rest⟩⟩
  · exact absurd rfl hxs
  · simp [lead, decodeTexts, decode_write]
  · simp [lead, decodeTexts, decode_write]

theorem decodeTexts_segments (parts : List Part) :
    decodeTexts (segments (parts.map Part.written)) = segments parts := by
  induction parts with
  | nil => rfl
  | cons p parts ih =>
      cases p with
      | tag t =>
          show decode [] :: t :: decodeTexts (segments (parts.map Part.written)) = _
          rw [ih]
          rfl
      | text s => exact (decodeTexts_lead s (segments_ne_nil _)).trans (congrArg (lead s) ih)

/-- **What is written is read as it was**, whatever the texts are. -/
theorem read_render {parts : List Part} (h : ∀ p ∈ parts, p.Proper) :
    read (render parts) = some (segments parts) := by
  rw [read, scan_render h, Option.map_some, decodeTexts_segments]

/-- The tags are those that were written. -/
theorem tags_segments (parts : List Part) : tags (segments parts) = parts.filterMap Part.tag? := by
  induction parts with
  | nil => rfl
  | cons p parts ih =>
      cases p with
      | tag t =>
          show t :: tags (segments parts) = t :: parts.filterMap Part.tag?
          rw [ih]
      | text s =>
          show tags (lead s (segments parts)) = parts.filterMap Part.tag?
          rw [← ih]
          rcases segments parts with _ | ⟨x, _ | ⟨t, rest⟩⟩ <;> rfl

theorem render_append (parts parts' : List Part) :
    render (parts ++ parts') = render parts ++ render parts' := by
  induction parts with
  | nil => rfl
  | cons p parts ih => cases p <;> simp [render, ih]

end Feloxi.Html
