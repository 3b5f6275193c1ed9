import Feloxi.Broker.Redact
import Feloxi.Lib.Slices

/-!
# Feloxi.Broker.RedactScan

The loop of `redact_url_credentials` with its byte indices. No slice is taken inside of a character,
and every round leaves a shorter text (`scan_eq`); text without credentials comes back as it is.
-/

namespace Feloxi.Broker

open Separators
open Slices

/-! ### The loop -/

/-- How the loop stops short: a slice that panics, or no more rounds. -/
inductive ScanError where
  | panic
  | outOfRounds
  deriving Repr, DecidableEq

/-- `split_at`, and the two slices `[..i]` and `[i..]`. -/
def cutAt (s : List Char) (i : Nat) : Except ScanError (List Char × List Char) :=
  match splitAt s i with
  | some cut => .ok cut
  | none => .error .panic

/-- What is pushed for the part in front of the last `@`. -/
def scanUserinfo (userinfo : List Char) : Except ScanError (List Char) :=
  match findChar (· == ':') userinfo with
  | some colon => do
    let (user, _) ← cutAt userinfo colon
    return user ++ ":***".toList
  -- A lone token (redis://secret@host) is the password.
  | none => .ok (if userinfo.isEmpty then [] else "***".toList)

/-- What is pushed for an authority. -/
def scanAuthority (authority : List Char) : Except ScanError (List Char) :=
  match rfindChar '@' authority with
  | some sign => do
    let (userinfo, host) ← cutAt authority sign
    let masked ← scanUserinfo userinfo
    return masked ++ host
  | none => .ok authority

/-- `while let Some(i) = rest.find("://")`. -/
def scan : Nat → List Char → List Char → Except ScanError (List Char)
  | 0, _, _ => .error .outOfRounds
  | rounds + 1, rest, out =>
    match findText schemeEnd rest with
    | none => .ok (out ++ rest)
    | some i => do
      let (head, tail) ← cutAt rest (i + 3)
      let (authority, behind) ← cutAt tail ((findChar isEnd tail).getD (size tail))
      let masked ← scanAuthority authority
      scan rounds behind (out ++ head ++ masked)

/-! ### Places to slice at -/

theorem cutAt_append (s t : List Char) : cutAt (s ++ t) (size s) = .ok (s, t) := by
  rw [cutAt, splitAt_append]

theorem scanUserinfo_eq (userinfo : List Char) :
    scanUserinfo userinfo = .ok (maskUserinfo userinfo) := by
  by_cases hcolon : ':' ∈ userinfo
  · obtain ⟨user, password, rfl, huser⟩ := List.eq_append_cons_of_mem hcolon
    have hne : ∀ c ∈ user, (c == ':') = false := by
      intro c hc
      exact beq_eq_false_iff_ne.2 fun heq => huser (heq ▸ hc)
    rw [scanUserinfo, findChar_append (by decide) hne, maskUserinfo_append huser]
    simp [cutAt_append]
  · have hnone : findChar (· == ':') userinfo = none := by simp [findChar, hcolon]
    rw [scanUserinfo, hnone, maskUserinfo_of_not_mem hcolon]
    simp

/-- The places of the last `@` and of the first colon in front of it. -/
theorem scanAuthority_eq (authority : List Char) :
    scanAuthority authority = .ok (maskAuthority authority) := by
  by_cases hat : '@' ∈ authority
  · obtain ⟨userinfo, host, rfl, hhost⟩ := exists_last hat
    have hlast : rfindChar '@' (userinfo ++ '@' :: host) = some (size userinfo) := by
      simp [rfindChar, splitLast_append userinfo hhost]
    rw [scanAuthority, hlast, maskAuthority_append hhost]
    simp [cutAt_append, scanUserinfo_eq, bind, pure, Except.bind, Except.pure]
  · have hnone : rfindChar '@' authority = none := by
      simp [rfindChar, splitLast_of_not_mem hat]
    rw [scanAuthority, hnone, maskAuthority_of_not_mem hat]

/-- The place behind the authority. -/
theorem cutAt_readAuthority (tail : List Char) :
    cutAt tail ((findChar isEnd tail).getD (size tail)) =
      .ok (readAuthority tail, readRest tail) := by
  have hcut := cutAt_append (readAuthority tail) (readRest tail)
  rw [readAuthority_append_readRest] at hcut
  rw [getD_findChar]
  exact hcut

/-- The loop comes to its end, without a panic, and pushes what `redact` gives. -/
theorem scan_eq {rounds : Nat} {rest : List Char} (h : rest.length < rounds) (out : List Char) :
    scan rounds rest out = .ok (out ++ redact rest) := by
  induction rounds generalizing rest out with
  | zero => omega
  | succ rounds ih =>
      cases hfirst : rest.dropInfix? schemeEnd with
      | none => simp [scan, findText, hfirst, redact_of_none hfirst]
      | some cut =>
          obtain ⟨head, tail⟩ := cut
          have hlt := length_readRest_lt hfirst
          have hplace : findText schemeEnd rest = some (size head) := by simp [findText, hfirst]
          have hcut : cutAt rest (size head + 3) = .ok (head ++ schemeEnd, tail) := by
            have hsize : size head + 3 = size (head ++ schemeEnd) := by
              rw [size_append]
              rfl
            rw [hsize, (dropInfix?_eq_some.1 hfirst).1, cutAt_append]
          rw [scan, hplace, redact_of_some hfirst]
          have hshorter : (readRest tail).length < rounds := by omega
          have hrest := ih hshorter
            (out ++ (head ++ schemeEnd) ++ maskAuthority (readAuthority tail))
          simpa [hcut, cutAt_readAuthority, scanAuthority_eq, bind, Except.bind] using hrest

/-! ### Text without credentials -/

/-- `text` shows no user in front of a host. -/
def NoCredentials (text : List Char) : Prop :=
  ∀ head tail userinfo host, text = head ++ schemeEnd ++ tail →
    readAuthority tail = userinfo ++ '@' :: host → userinfo = []

theorem maskAuthority_eq_self {authority : List Char}
    (h : ∀ userinfo host, authority = userinfo ++ '@' :: host → userinfo = []) :
    maskAuthority authority = authority := by
  by_cases hat : '@' ∈ authority
  · obtain ⟨userinfo, host, rfl, hhost⟩ := exists_last hat
    obtain rfl := h userinfo host rfl
    rw [maskAuthority_append hhost]
    rfl
  · exact maskAuthority_of_not_mem hat

theorem redact_eq_self {text : List Char} (h : NoCredentials text) : redact text = text := by
  induction text using scan_induction with
  | none text hfirst => exact redact_of_none hfirst
  | some text head tail hfirst ih =>
      have htext := (dropInfix?_eq_some.1 hfirst).1
      have hauthority : maskAuthority (readAuthority tail) = readAuthority tail :=
        maskAuthority_eq_self fun userinfo host => h head tail userinfo host htext
      -- what stands behind the authority stands in the text too
      have hrest : NoCredentials (readRest tail) := by
        intro head' tail' userinfo host hcut
        refine h (head ++ schemeEnd ++ readAuthority tail ++ head') tail' userinfo host ?_
        rw [htext]
        conv_lhs => rw [← readAuthority_append_readRest tail, hcut]
        simp
      rw [redact_of_some hfirst, hauthority, ih hrest, readAuthority_append_readRest, htext]

/-- Redaction is idempotent, leaves text without credentials alone, and ends without a panic. -/
theorem redactUrlCredentials_conservative (text : String) :
    redactUrlCredentials (redactUrlCredentials text) = redactUrlCredentials text ∧
      (NoCredentials text.toList → redactUrlCredentials text = text) ∧
      ∀ rounds, text.toList.length < rounds →
        scan rounds text.toList [] = .ok (redactUrlCredentials text).toList := by
  refine ⟨redactUrlCredentials_idem text, fun h => ?_, fun rounds h => ?_⟩
  · rw [redactUrlCredentials, redact_eq_self h, String.ofList_toList]
  · rw [scan_eq h, redactUrlCredentials, String.toList_ofList]
    rfl

end Feloxi.Broker
