import Feloxi.Lib.JsRegex

/-!
# Feloxi.Web.Fingerprint

What stays the same of an exception from one occurrence to the next
(`apps/web/src/lib/fingerprint.ts`): its class, and its message with placeholders for ids, URLs and
other values.
-/

namespace Feloxi.Web

open JsRegex

/-! ### Results -/

/-- A piece of a normalized exception message: literal text or a named placeholder that stood in
for a value (an ID, a URL…). -/
inductive MessagePart where
  | text (text : String)
  | param (name : String)
  deriving Repr, DecidableEq

structure ExceptionFingerprint where
  /-- Exception class, e.g. "ValueError". Empty when it can't be parsed. -/
  type : String
  /-- Message with volatile values replaced by placeholders. -/
  template : String
  parts : List MessagePart
  key : String
  deriving Repr, DecidableEq

/-! ### Expressions -/

/-- `[0-9a-f]`, with the flag `i`. -/
def isHex (c : Char) : Bool := c.isDigit || ('a' ≤ c && c ≤ 'f') || ('A' ≤ c && c ≤ 'F')

/-- `[a-f]`, with the flag `i`. -/
def isHexLetter (c : Char) : Bool := isHex c && !c.isDigit

def anyOf (s : String) (c : Char) : Bool := s.toList.contains c

/-- Exception class names: optional dotted module path, then a capitalised name. -/
def CLASS : Re :=
  .group 1 <| all
    [.star true (all [.set fun c => c.isAlpha || c == '_', .star true (.set isWord), char '.']),
     .set Char.isUpper, .star true (.set isWord)]

def REPR : Re :=
  all [.start, CLASS, char '(', .group 2 (.set (anyOf "'\"")),
    .group 3 (.star true (.set fun _ => true)), .back 2, char ')', .finish]

def REPR_EMPTY : Re := all [.start, CLASS, text "()", .finish]

def COLON : Re :=
  all [.start, CLASS, text ": ", .group 2 (.star true (.set fun _ => true)), .finish]

/-- `{name}`. -/
def placeholder (name : List Char) : List Char := '\x7b' :: (name ++ ['\x7d'])

def urlRule : Re :=
  all [.edge, any [.seq (text "http") (any [char 's', .empty]), text "s3", text "gs", text "ftp",
      text "file"], text "://",
    -- lazy, stopping before punctuation that ends the sentence
    .set (fun c => !isSpace c && !anyOf "'\"" c), .star false (.set fun c => !isSpace c &&
      !anyOf "'\"" c),
    .look (.seq (.star true (.set (anyOf ":,;.)]"))) (any [.set isSpace, .finish]))]

def uuidRule : Re :=
  let hex := Re.set isHex
  all [.edge, times 8 hex, char '-', times 4 hex, char '-', times 4 hex, char '-', times 4 hex,
    char '-', times 12 hex, .edge]

def emailRule : Re :=
  let host := atLeast 1 (.set fun c => isWord c || c == '-')
  all [.edge, atLeast 1 (.set fun c => isWord c || anyOf ".+-" c), char '@', host,
    atLeast 1 (.seq (char '.') host), .edge]

def idRule : Re :=
  all [.edge, .group 1 (.seq (.set Char.isAlpha) (.star true (.set Char.isAlphanum))), char '_',
    .look (.seq (.star true (.set isHex)) (.set Char.isDigit)), atLeast 6 (.set isHex), .edge]

def hexRule : Re :=
  all [.edge, .look (.seq (.star true (.set isHex)) (.set Char.isDigit)),
    .look (.seq (.star true (.set isHex)) (.set isHexLetter)), atLeast 8 (.set isHex), .edge]

def numberRule : Re := all [.edge, atLeast 4 (.set Char.isDigit), .edge]

/-- Order matters: URLs first so their paths aren't picked apart by later rules. -/
def RULES : List (Re × (Cursor → List Char)) :=
  [(urlRule, fun _ => placeholder "url".toList),
   (uuidRule, fun _ => placeholder "uuid".toList),
   (emailRule, fun _ => placeholder "email".toList),
   -- order_82bec913 becomes an order_id; needs a digit so words like send_welcome stay
   (idRule, fun found => placeholder ((found.group 1).map Char.toLower ++ "_id".toList)),
   (hexRule, fun _ => placeholder "hex".toList),
   (numberRule, fun _ => placeholder "n".toList)]

def paramRule : Re :=
  all [char '\x7b',
    .group 1 (atLeast 1 (.set fun c => c.isLower || c.isDigit || c == '_')), char '\x7d']

/-! ### Fingerprints -/

/-- `trim`. -/
def trimSpace (s : List Char) : List Char :=
  ((s.dropWhile isSpace).reverse.dropWhile isSpace).reverse

/-- Exception class and raw message from the first line of a stored exception: `ValueError('boom')`,
`ValueError()` or `ValueError: boom`. -/
def splitException (raw : String) : List Char × List Char :=
  let firstLine := trimSpace (raw.toList.takeWhile (· != '\n'))
  match REPR.exec [] firstLine with
  | some (_, found) => (found.group 1, found.group 3)
  | none =>
    match REPR_EMPTY.exec [] firstLine with
    | some (_, found) => (found.group 1, [])
    | none =>
      match COLON.exec [] firstLine with
      | some (_, found) => (found.group 1, found.group 2)
      | none => ([], firstLine)

/-- The loop over the placeholders of a template. -/
def messageParts : Nat → List Char → List Char → List MessagePart
  | 0, _, _ => []
  | rounds + 1, before, rest =>
    match paramRule.exec before rest with
    | none => if rest.isEmpty then [] else [.text (String.ofList rest)]
    | some (skipped, found) =>
      (if skipped.isEmpty then [] else [.text (String.ofList skipped)]) ++
        .param (String.ofList (found.group 1)) :: messageParts rounds found.before found.rest

def fingerprint (raw : String) : ExceptionFingerprint :=
  let (type, message) := splitException raw
  let template := RULES.foldl (fun template rule => rule.1.replace rule.2 template) message
  { type := String.ofList type, template := String.ofList template,
    parts := messageParts (template.length + 1) [] template,
    key := String.ofList (type ++ '\u0001' :: template) }


example : fingerprint "OSError('row 123456')" =
    { type := "OSError", template := "row \x7bn\x7d", parts := [.text "row ", .param "n"],
      key := "OSError\u0001row \x7bn\x7d" } := by decide +kernel

end Feloxi.Web
