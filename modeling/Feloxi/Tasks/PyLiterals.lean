import Feloxi.Tasks.LiteralValues
import Feloxi.Lib.JsonValues

/-!
# Feloxi.Tasks.PyLiterals

What Python makes of a syntax tree, and the JSON form of the object.

This is not translated from the source. It is Python's own reading, which the parser's is compared
with: numerals, escapes, brackets around one value, and dicts whose keys are compared by value.
Floats are exact here too. Keys that are neither strings nor numbers have no JSON form, and a dict
with such a key is left out, as are the escapes by name (`\N{...}`).
-/

namespace Feloxi.Tasks

open Pipeline (SerdeJson)
open PyValue (intText)

/-! ### Objects -/

/-- A key of a dict. -/
inductive PyKey where
  | str (s : String)
  | int (n : Int)
  | float (q : ℚ)

/-- What a key is compared by: an integer and a float of one value are one key. -/
def PyKey.ident : PyKey → String ⊕ ℚ
  | .str s => .inl s
  | .int n => .inr n
  | .float q => .inr q

/-- A number as a key is its decimal string. -/
def PyKey.text (serde : SerdeJson) : PyKey → String
  | .str s => s
  | .int n => String.ofList (intText n)
  | .float q => serde.toString (.float (.fin q))

inductive PyObject where
  | none
  | bool (b : Bool)
  | int (n : Int)
  | float (q : ℚ)
  | str (s : String)
  | list (xs : List PyObject)
  | tuple (xs : List PyObject)
  | dict (entries : List (PyKey × PyObject))

namespace PyObject

def asKey : PyObject → Option PyKey
  | .str s => some (.str s)
  | .int n => some (.int n)
  | .float q => some (.float q)
  | _ => Option.none

/-- `d[key] = x`: the key that was there first stays. -/
def insertKey (key : PyKey) (x : PyObject) : List (PyKey × PyObject) → List (PyKey × PyObject)
  | [] => [(key, x)]
  | (k, y) :: rest =>
    if k.ident = key.ident then (k, x) :: rest else (k, y) :: insertKey key x rest

/-- The entries of a dict display, inserted one after the other. -/
def ofDisplay (entries : List (PyKey × PyObject)) : List (PyKey × PyObject) :=
  entries.foldl (fun acc e => insertKey e.1 e.2 acc) []

variable (serde : SerdeJson)

mutual

/-- The JSON form: tuples are arrays, and every entry of a dict is one of the object. -/
def toJson : PyObject → Option Json
  | .none => some .null
  | .bool b => some (.bool b)
  | .int n => some (.int n)
  | .float q => some (.float (.fin q))
  | .str s => some (.str s)
  | .list xs => (toJsonItems xs).map .arr
  | .tuple xs => (toJsonItems xs).map .arr
  | .dict entries =>
    (toJsonEntries entries).bind fun es =>
      if (es.map Prod.fst).Nodup then some (.ofEntries es) else Option.none

def toJsonItems : List PyObject → Option (List Json)
  | [] => some []
  | x :: xs => (toJson x).bind fun v => (toJsonItems xs).map (v :: ·)

def toJsonEntries : List (PyKey × PyObject) → Option (List (String × Json))
  | [] => some []
  | (k, x) :: entries =>
    (toJson x).bind fun v => (toJsonEntries entries).map ((k.text serde, v) :: ·)

end

end PyObject

/-! ### Numerals -/

/-- Every underscore stands between two digits. -/
def underscoresSeparate (afterDigit : Bool) : List Char → Bool
  | [] => true
  | c :: rest =>
    if c = '_' then afterDigit && rest.head?.any Char.isDigit && underscoresSeparate false rest
    else underscoresSeparate c.isDigit rest

namespace NumRun

variable (n : NumRun)

def plain : List Char := n.chars.filter (· != '_')

def digits : List Char := (splitSign n.plain).2

def signed (k : Nat) : Int := if (splitSign n.plain).1 then -k else k

/-- A numeral behind a sign at most. An integer other than zero begins with no zero; a float is
written as in Rust. -/
def python : Option PyObject :=
  if underscoresSeparate false n.chars then
    match digits? n.digits with
    | some k => if n.digits.head? = some '0' ∧ k ≠ 0 then none else some (.int (n.signed k))
    | none => (parseF64 n.plain).map .float
  else none

end NumRun

/-! ### Strings -/

def isOctal (c : Char) : Bool := '0' ≤ c && c ≤ '7'

/-- The escapes of one letter. -/
def pyLetter : Char → Option Char
  | '\\' => some '\\'
  | '\'' => some '\''
  | '"' => some '"'
  | 'a' => some (Char.ofNat 7)
  | 'b' => some (Char.ofNat 8)
  | 't' => some '\t'
  | 'n' => some '\n'
  | 'v' => some (Char.ofNat 11)
  | 'f' => some (Char.ofNat 12)
  | 'r' => some '\r'
  | _ => none

/-- An escape after its backslash: what it stands for, and how many characters it takes. -/
def pyEscape : List Char → Option (List Char × Nat)
  | [] => none
  | e :: rest =>
    if isOctal e then
      -- up to three octal digits
      let digits := ((e :: rest).takeWhile isOctal).take 3
      some ([Char.ofNat (Nat.ofDigitChars 8 digits 0)], digits.length)
    else
      match pyLetter e, hexLength e with
      | some d, _ => some ([d], 1)
      | none, some n =>
        if (rest.take n).length = n ∧ (rest.take n).all fun c => (hexVal c).isSome then
          (hexChar (rest.take n)).toOption.map fun d => ([d], n + 1)
        else none
      | none, none =>
        -- a line goes on behind a backslash; any other character keeps its backslash
        if e = '\n' then some ([], 1)
        else if e = '\r' then some ([], if rest.head? = some '\n' then 2 else 1)
        else if e = 'N' ∨ e.toNat = 0 then none
        else some (['\\', e], 1)

/-- What cannot stand in a string as it is. -/
def isRaw (c : Char) : Bool := c == '\n' || c == '\r' || c.toNat == 0

/-- The text between quotes, but for the characters that an escape has taken. -/
def pyBody : Nat → List Char → Option (List Char)
  | _, [] => some []
  | skip + 1, _ :: rest => pyBody skip rest
  | 0, c :: rest =>
    if c = '\\' then (pyEscape rest).bind fun p => (pyBody p.2 rest).map (p.1 ++ ·)
    else if isRaw c then none
    else (pyBody 0 rest).map (c :: ·)

def StrToken.python (t : StrToken) : Option String := (pyBody 0 t.body).map String.ofList

/-! ### Trees -/

def Word.python : Word → PyObject
  | .none => .none
  | .true => .bool Bool.true
  | .false => .bool Bool.false

mutual

def Literal.python : Literal → Option PyObject
  | .word w => some w.python
  | .num n => n.python
  | .str t => t.python.map .str
  | .seq false items => items.python.map .list
  | .seq true (.last _ x _) => x.python -- brackets around a value
  | .seq true items => items.python.map .tuple
  | .dict entries => entries.python.map fun es => .dict (PyObject.ofDisplay es)

def LiteralItems.python : LiteralItems → Option (List PyObject)
  | .done _ => some []
  | .last _ x _ => x.python.map fun v => [v]
  | .more _ x _ rest => x.python.bind fun v => rest.python.map (v :: ·)

def LiteralEntries.python : LiteralEntries → Option (List (PyKey × PyObject))
  | .done _ => some []
  | .last _ k _ _ x _ =>
    (k.python.bind PyObject.asKey).bind fun key => x.python.map fun v => [(key, v)]
  | .more _ k _ _ x _ rest =>
    (k.python.bind PyObject.asKey).bind fun key =>
      x.python.bind fun v => rest.python.map ((key, v) :: ·)

end

end Feloxi.Tasks
