import Mathlib.Data.List.Basic

/-!
# Feloxi.Lib.Csv

Comma-separated values: a reader, one character after the other, and the texts that it reads as
given fields. A field may be written as it stands, or in quotes with its own quotes doubled. Lines
end in a line feed, the last one in nothing.
-/

namespace Feloxi.Csv

/-! ### The reader -/

/-- Where the reader is in a field. -/
inductive Place where
  | start
  | plain
  | quoted
  /-- Behind a quote that ends the field, or is the first of two. -/
  | closing
  deriving Repr, DecidableEq

/-- What was read: whole rows, the fields of a row, and a part of a field. -/
structure Reader where
  rows : List (List String)
  fields : List String
  text : List Char
  place : Place
  deriving Repr, DecidableEq

namespace Reader

def endField (r : Reader) : Reader :=
  { r with fields := r.fields ++ [String.ofList r.text], text := [], place := .start }

def endRow (r : Reader) : Reader :=
  { rows := r.rows ++ [r.fields ++ [String.ofList r.text]], fields := [], text := [],
    place := .start }

/-- A character outside of quotes. -/
def outside (r : Reader) (c : Char) : Option Reader :=
  if c = ',' then some r.endField else if c = '\n' then some r.endRow else none

def step (r : Reader) (c : Char) : Option Reader :=
  match r.place with
  | .quoted =>
    some (if c = '"' then { r with place := .closing } else { r with text := r.text ++ [c] })
  | .closing =>
    if c = '"' then some { r with text := r.text ++ [c], place := .quoted } else r.outside c
  | .start =>
    if c = '"' then some { r with place := .quoted }
    else (r.outside c).orElse fun _ => some { r with text := r.text ++ [c], place := .plain }
  | .plain =>
    if c = '"' then none
    else (r.outside c).orElse fun _ => some { r with text := r.text ++ [c] }

def read (r : Reader) (text : List Char) : Option Reader := text.foldlM step r

theorem read_append (r : Reader) (x y : List Char) :
    r.read (x ++ y) = (r.read x).bind fun r' => r'.read y :=
  List.foldlM_append

theorem read_cons (r : Reader) (c : Char) (text : List Char) :
    r.read (c :: text) = (r.step c).bind fun r' => r'.read text := rfl

end Reader

/-- A reader before the first character. -/
def blank : Reader := ⟨[], [], [], .start⟩

/-- The rows of a text, if its quotes match. -/
def parse (text : String) : Option (List (List String)) :=
  match blank.read text.toList with
  | some r => if r.place = .quoted then none else some r.endRow.rows
  | none => none

/-! ### Fields -/

def double (text : List Char) : List Char := text.flatMap fun c => if c = '"' then ['"', '"'] else [c]

/-- The text in quotes. -/
def quote (field : String) : String := "\"" ++ String.ofList (double field.toList) ++ "\""

/-- The ways to write a field. -/
inductive Writes : List Char → String → Prop where
  | plain (field : String) (h : ∀ c ∈ field.toList, c ≠ '"' ∧ c ≠ ',' ∧ c ≠ '\n') :
      Writes field.toList field
  | quoted (field : String) : Writes (quote field).toList field

/-- The reader stands behind the text of a field. -/
structure Reader.Behind (r r' : Reader) (field : String) : Prop where
  rows : r'.rows = r.rows
  fields : r'.fields = r.fields
  text : r'.text = field.toList
  place : r'.place ≠ .quoted

theorem read_plain {r : Reader} {text : List Char} (hplace : r.place ≠ .quoted ∧ r.place ≠ .closing)
    (h : ∀ c ∈ text, c ≠ '"' ∧ c ≠ ',' ∧ c ≠ '\n') :
    ∃ place, place ≠ .quoted ∧
      r.read text = some { r with text := r.text ++ text, place } := by
  induction text generalizing r with
  | nil => exact ⟨r.place, hplace.1, by simp [Reader.read]⟩
  | cons c text ih =>
      obtain ⟨hquote, hcomma, hline⟩ := h c List.mem_cons_self
      have hstep : r.step c = some { r with text := r.text ++ [c], place := .plain } := by
        obtain ⟨rows, fields, text, place⟩ := r
        cases place with
        | start => simp [Reader.step, Reader.outside, hquote, hcomma, hline]
        | plain => simp [Reader.step, Reader.outside, hquote, hcomma, hline]
        | quoted => exact absurd rfl hplace.1
        | closing => exact absurd rfl hplace.2
      obtain ⟨place, hend, hread⟩ := ih (r := { r with text := r.text ++ [c], place := .plain })
        (by simp) fun d hd => h d (List.mem_cons_of_mem c hd)
      refine ⟨place, hend, ?_⟩
      rw [Reader.read_cons, hstep]
      simpa using hread

/-- Within quotes, the doubled text is read as the text. -/
theorem read_double {r : Reader} (hplace : r.place = .quoted) (text : List Char) :
    r.read (double text) = some { r with text := r.text ++ text } := by
  induction text generalizing r with
  | nil => simp [double, Reader.read]
  | cons c text ih =>
      have hrest := ih (r := { r with text := r.text ++ [c] }) hplace
      have hfirst : r.read (if c = '"' then ['"', '"'] else [c]) =
          some { r with text := r.text ++ [c] } := by
        by_cases hc : c = '"'
        · subst hc
          simp [Reader.read, Reader.step, hplace]
        · simp [Reader.read, Reader.step, hplace, hc]
      rw [double, List.flatMap_cons, Reader.read_append, hfirst]
      simpa [double] using hrest

/-- **A field is read back.** -/
theorem read_field {r : Reader} {text : List Char} {field : String} (h : Writes text field)
    (hplace : r.place = .start) (htext : r.text = []) :
    ∃ r', r.read text = some r' ∧ r.Behind r' field := by
  cases h with
  | plain field h =>
      obtain ⟨place, hend, hread⟩ := read_plain (r := r) (by simp [hplace]) h
      exact ⟨_, hread, rfl, rfl, by simp [htext], hend⟩
  | quoted field =>
      have hopen : r.read ['"'] = some { r with place := .quoted } := by
        simp [Reader.read, Reader.step, hplace]
      have hbody := read_double (r := { r with place := .quoted }) rfl field.toList
      refine ⟨{ r with text := field.toList, place := .closing }, ?_, rfl, rfl, rfl, by simp⟩
      have htexts : (quote field).toList = ['"'] ++ (double field.toList ++ ['"']) := by simp [quote]
      rw [htexts, Reader.read_append, hopen, Option.bind_some, Reader.read_append, hbody,
        Option.bind_some]
      simp [Reader.read, Reader.step, htext]

/-! ### Rows -/

/-- The fields of a row, with commas between. -/
inductive WritesRow : List Char → List String → Prop where
  | one {text : List Char} {field : String} (h : Writes text field) : WritesRow text [field]
  | cons {text rest : List Char} {field : String} {fields : List String} (h : Writes text field)
      (hrest : WritesRow rest fields) : WritesRow (text ++ ',' :: rest) (field :: fields)

/-- Rows, with line feeds between. -/
inductive WritesRows : List Char → List (List String) → Prop where
  | one {text : List Char} {row : List String} (h : WritesRow text row) : WritesRows text [row]
  | cons {text rest : List Char} {row : List String} {rows : List (List String)}
      (h : WritesRow text row) (hrest : WritesRows rest rows) :
      WritesRows (text ++ '\n' :: rest) (row :: rows)

theorem step_comma {r r' : Reader} {field : String} (h : r.Behind r' field) :
    r'.step ',' = some { r with fields := r.fields ++ [field], text := [], place := .start } := by
  obtain ⟨rows, fields, text, place⟩ := r'
  obtain ⟨rfl, rfl, rfl, hplace⟩ := h
  cases place with
  | quoted => exact absurd rfl hplace
  | _ => simp [Reader.step, Reader.outside, Reader.endField]

theorem step_line {r r' : Reader} {field : String} (h : r.Behind r' field) :
    r'.step '\n' = some ⟨r.rows ++ [r.fields ++ [field]], [], [], .start⟩ := by
  obtain ⟨rows, fields, text, place⟩ := r'
  obtain ⟨rfl, rfl, rfl, hplace⟩ := h
  cases place with
  | quoted => exact absurd rfl hplace
  | _ => simp [Reader.step, Reader.outside, Reader.endRow]

/-- Behind a row, its last field is yet to end. -/
theorem read_row {r : Reader} {text : List Char} {row : List String} (h : WritesRow text row)
    (hplace : r.place = .start) (htext : r.text = []) :
    ∃ (r' r'' : Reader) (field : String), r.read text = some r' ∧ r''.Behind r' field ∧
      r''.rows = r.rows ∧ r''.fields ++ [field] = r.fields ++ row := by
  induction h generalizing r with
  | one h =>
      obtain ⟨r', hread, hbehind⟩ := read_field h hplace htext
      exact ⟨r', r, _, hread, hbehind, rfl, rfl⟩
  | @cons text rest field fields h _ ih =>
      obtain ⟨r', hread, hbehind⟩ := read_field h hplace htext
      obtain ⟨r₁, r₂, last, hrest, hlast, hrows, hfields⟩ :=
        ih (r := { r with fields := r.fields ++ [field], text := [], place := .start }) rfl rfl
      refine ⟨r₁, r₂, last, ?_, hlast, hrows, by simpa using hfields⟩
      rw [Reader.read_append, hread, Option.bind_some, Reader.read_cons, step_comma hbehind]
      exact hrest

theorem read_rows {r : Reader} {text : List Char} {rows : List (List String)}
    (h : WritesRows text rows) (hplace : r.place = .start) (htext : r.text = [])
    (hfields : r.fields = []) :
    ∃ r', r.read text = some r' ∧ r'.place ≠ .quoted ∧ r'.endRow.rows = r.rows ++ rows := by
  induction h generalizing r with
  | @one text row h =>
      obtain ⟨r₁, r₂, last, hread, hbehind, hrows, hrow⟩ := read_row h hplace htext
      refine ⟨r₁, hread, hbehind.place, ?_⟩
      simp [Reader.endRow, hbehind.rows, hbehind.fields, hbehind.text, hrows, hrow, hfields]
  | @cons text rest row rows h _ ih =>
      obtain ⟨r₁, r₂, last, hread, hbehind, hrows, hrow⟩ := read_row h hplace htext
      obtain ⟨r₃, hrest, hend, hall⟩ := ih (r := ⟨r.rows ++ [row], [], [], .start⟩) rfl rfl rfl
      have hline := step_line hbehind
      rw [hrows, hrow, hfields, List.nil_append] at hline
      refine ⟨r₃, ?_, hend, by simpa using hall⟩
      rw [Reader.read_append, hread, Option.bind_some, Reader.read_cons, hline]
      exact hrest

/-- **What is written is read back.** -/
theorem parse_of_writes {text : String} {rows : List (List String)}
    (h : WritesRows text.toList rows) : parse text = some rows := by
  obtain ⟨r, hread, hplace, hrows⟩ := read_rows (r := blank) h rfl rfl rfl
  rw [parse, hread]
  simpa [hplace, blank] using hrows

/-! ### Joined texts -/

theorem writesRow_join {fields : List String} (write : String → String) (hne : fields ≠ [])
    (h : ∀ field ∈ fields, Writes (write field).toList field) :
    WritesRow (",".intercalate (fields.map write)).toList fields := by
  induction fields with
  | nil => exact absurd rfl hne
  | cons field fields ih =>
      have hfield := h field List.mem_cons_self
      cases fields with
      | nil => simpa using WritesRow.one hfield
      | cons next fields =>
          have hrest := ih (by simp) fun f hf => h f (List.mem_cons_of_mem field hf)
          simpa [String.intercalate_cons_cons] using WritesRow.cons hfield hrest

theorem writesRows_join (lines : List (String × List String)) (hne : lines ≠ [])
    (h : ∀ line ∈ lines, WritesRow line.1.toList line.2) :
    WritesRows ("\n".intercalate (lines.map Prod.fst)).toList (lines.map Prod.snd) := by
  induction lines with
  | nil => exact absurd rfl hne
  | cons line lines ih =>
      have hline := h line List.mem_cons_self
      cases lines with
      | nil => simpa using WritesRows.one hline
      | cons next lines =>
          have hrest := ih (by simp) fun l hl => h l (List.mem_cons_of_mem line hl)
          simpa [String.intercalate_cons_cons] using WritesRows.cons hline hrest

end Feloxi.Csv
