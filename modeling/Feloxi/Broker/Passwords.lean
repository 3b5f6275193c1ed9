import Feloxi.Broker.Redact
import Feloxi.Lib.Sweeps
import Mathlib.Data.List.DropRight
import Mathlib.Data.List.Forall2

/-!
# Feloxi.Broker.Passwords

The URLs of a text and the passwords they show, and which of those a redacted text still
shows (`noPasswordLeft_redact_iff`): the ones whose `://` the scan does not stop at, and the
ones it does not catch.
-/

namespace Feloxi.Broker

open Separators

/-! ### URLs -/

/-- What follows each `://` of a text. -/
def urls (text : List Char) : List (List Char) := after schemeEnd text

/-- The characters of an authority: unreserved, percent-encoded, sub-delims, `:`, `@` and the
brackets of an IPv6 address. -/
def isAuthorityChar (c : Char) : Bool :=
  c.isAlphanum || "-._~%!$&'()*+,;=:@[]".toList.contains c

def urlAuthority (tail : List Char) : List Char := tail.takeWhile isAuthorityChar

/-- What is secret in `user:password@`, or in a lone `token@`. -/
def password (userinfo : List Char) : List Char :=
  if ':' ∈ userinfo then (userinfo.dropWhile (· != ':')).tail else userinfo

/-- A URL that goes on like this shows a password, as part of its `userinfo`. -/
structure Shows (tail userinfo : List Char) : Prop where
  authority : ∃ host, urlAuthority tail = userinfo ++ '@' :: host ∧ '@' ∉ host
  noAt : '@' ∉ userinfo
  nonempty : password userinfo ≠ []
  unmasked : password userinfo ≠ "***".toList

/-- No user information with a password is still there. -/
def Hidden (tail stored : List Char) : Prop :=
  ∀ userinfo, Shows tail userinfo → ¬ userinfo ++ ['@'] <+: stored

/-- None of the passwords that the URLs of `text` show is left in what is stored instead,
URL by URL. -/
def NoPasswordLeft (text stored : List Char) : Prop := List.Forall₂ Hidden (urls text) (urls stored)

/-! ### What the scan sees of them -/

/-- The scan stops at the `://` that `tail` follows: it is the first one, or the scan stops at it
in the rest behind the authority of the first one. -/
inductive Stops : List Char → List Char → Prop
  | here {text head tail : List Char} :
      text.dropInfix? schemeEnd = some (head, tail) → Stops text tail
  | later {text head tail tail' : List Char} :
      text.dropInfix? schemeEnd = some (head, tail) → Stops (readRest tail) tail' → Stops text tail'

/-- What the scan takes for the user information: all up to the last `@`. -/
def readUserinfo (tail : List Char) : List Char :=
  match splitLast '@' (readAuthority tail) with
  | some (userinfo, _) => userinfo
  | none => []

/-- The scan masks the password: no character of the `userinfo` ends the authority for it, and a
lone token is not followed by a `:` in what it takes for the user information. -/
def Caught (tail userinfo : List Char) : Prop :=
  (∀ c ∈ userinfo, isEnd c = false) ∧ (':' ∉ userinfo → ':' ∉ readUserinfo tail)

/-- A URL that goes on like this begins with a user information, or with a part of one. -/
structure Begins (tail userinfo : List Char) : Prop where
  isPrefix : userinfo ++ ['@'] <+: tail
  noAt : '@' ∉ userinfo
  noSlash : '/' ∉ userinfo

theorem Shows.begins {tail userinfo : List Char} (h : Shows tail userinfo) :
    Begins tail userinfo := by
  obtain ⟨host, hauthority, -⟩ := h.authority
  refine ⟨?_, h.noAt, fun hslash => ?_⟩
  · refine List.IsPrefix.trans ?_ (List.takeWhile_prefix isAuthorityChar)
    rw [← urlAuthority, hauthority]
    exact ⟨host, by simp⟩
  · have hmem : '/' ∈ urlAuthority tail := hauthority ▸ List.mem_append_left _ hslash
    have := List.all_eq_true.1 List.all_takeWhile '/' hmem
    exact absurd this (by decide)

namespace Begins

variable {tail userinfo : List Char}

/-- A password that the scan does not read to its end. -/
theorem not_mem_readAuthority (h : Begins tail userinfo) {c : Char} (hc : c ∈ userinfo)
    (hend : isEnd c = true) : '@' ∉ readAuthority tail := by
  have hnot : c ∉ readAuthority tail := by
    intro hmem
    rw [isEnd_of_mem_readAuthority hmem] at hend
    cases hend
  intro hat
  rcases List.prefix_or_prefix_of_prefix h.isPrefix (List.takeWhile_prefix _) with hlead | hlead
  · exact hnot (hlead.subset (List.mem_append_left _ hc))
  · rcases List.prefix_concat_iff.1 hlead with heq | hlead
    · exact hnot (by rw [readAuthority, heq]; exact List.mem_append_left _ hc)
    · exact h.noAt (hlead.subset hat)

/-- What it begins with is still there then. -/
theorem kept (h : Begins tail userinfo) {c : Char} (hc : c ∈ userinfo) (hend : isEnd c = true)
    {lead : List Char} (hslash : '/' ∉ lead) :
    lead <+: maskAuthority (readAuthority tail) ++ redact (readRest tail) ↔ lead <+: tail := by
  rw [maskAuthority_of_not_mem (h.not_mem_readAuthority hc hend), prefix_append_redact hslash,
    readAuthority_append_readRest]

/-- A password that it does read is part of what it takes for the user information. -/
theorem readAuthority_eq (h : Begins tail userinfo) (hread : ∀ c ∈ userinfo, isEnd c = false) :
    ∃ more host, readAuthority tail = (userinfo ++ more) ++ '@' :: host ∧ '@' ∉ host ∧
      readUserinfo tail = userinfo ++ more ∧ (more = [] ∨ more.head? = some '@') := by
  have hpos : ∀ c ∈ userinfo ++ ['@'], (!isEnd c) = true := by
    intro c hc
    rcases List.mem_append.1 hc with hc | hc
    · rw [hread c hc]
      rfl
    · rw [List.mem_singleton.1 hc]
      decide
  obtain ⟨rest, hrest⟩ := (prefix_takeWhile hpos).2 h.isPrefix
  rw [← readAuthority, List.append_assoc, List.singleton_append] at hrest
  have hread' : ∀ userinfo' host, readAuthority tail = userinfo' ++ '@' :: host → '@' ∉ host →
      readUserinfo tail = userinfo' := by
    intro userinfo' host heq hhost
    rw [readUserinfo, heq, splitLast_append userinfo' hhost]
  by_cases hat : '@' ∈ rest
  · obtain ⟨before, host, rfl, hhost⟩ := exists_last hat
    have heq : readAuthority tail = (userinfo ++ '@' :: before) ++ '@' :: host := by
      rw [← hrest]
      simp
    exact ⟨'@' :: before, host, heq, hhost, hread' _ _ heq hhost, .inr rfl⟩
  · exact ⟨[], rest, by simp [hrest], hat, by simpa using hread' _ _ hrest.symm hat, .inl rfl⟩

end Begins

/-! ### What is left -/

theorem password_append {user secret : List Char} (h : ':' ∉ user) :
    password (user ++ ':' :: secret) = secret := by
  have huser : ∀ c ∈ user, (c != ':') = true := by
    intro c hc
    have hne : c ≠ ':' := fun heq => h (heq ▸ hc)
    simpa using hne
  rw [password, if_pos (by simp), List.dropWhile_append_of_pos huser]
  rfl

theorem password_of_not_mem {userinfo : List Char} (h : ':' ∉ userinfo) :
    password userinfo = userinfo := if_neg h

section

variable {tail userinfo : List Char}

/-- A `user:password@` is masked if the scan reads all of it. -/
theorem Shows.masked_of_mem (h : Shows tail userinfo) (hread : ∀ c ∈ userinfo, isEnd c = false)
    (hcolon : ':' ∈ userinfo) (rest : List Char) :
    ¬ userinfo ++ ['@'] <+: maskAuthority (readAuthority tail) ++ rest := by
  obtain ⟨more, host, hauthority, hhost, -, -⟩ := h.begins.readAuthority_eq hread
  obtain ⟨user, secret, rfl, huser⟩ := List.eq_append_cons_of_mem hcolon
  have hat : '@' ∉ secret := fun hmem => h.noAt (by simp [hmem])
  have hmask : maskUserinfo (user ++ ':' :: secret ++ more) = user ++ ":***".toList := by
    rw [List.append_assoc, List.cons_append, maskUserinfo_append huser]
  rw [hauthority, maskAuthority_append hhost, hmask]
  intro hlead
  have hsecret : secret ++ ['@'] <+: "***".toList ++ '@' :: (host ++ rest) := by
    simpa [List.append_assoc] using hlead
  have := eq_of_append_prefix hat (by decide) hsecret
  exact h.unmasked (by rw [password_append huser, this])

/-- A `token@` is masked if the scan takes no part of it for a user name. -/
theorem Shows.masked_of_not_mem (h : Shows tail userinfo)
    (hread : ∀ c ∈ userinfo, isEnd c = false) (hcolon : ':' ∉ readUserinfo tail)
    (rest : List Char) : ¬ userinfo ++ ['@'] <+: maskAuthority (readAuthority tail) ++ rest := by
  obtain ⟨more, host, hauthority, hhost, huserinfo, -⟩ := h.begins.readAuthority_eq hread
  rw [huserinfo] at hcolon
  have htoken : password userinfo = userinfo :=
    password_of_not_mem fun hmem => hcolon (List.mem_append_left _ hmem)
  have hne : userinfo ++ more ≠ [] := by
    intro hnil
    exact h.nonempty (by rw [htoken, (List.append_eq_nil_iff.1 hnil).1])
  rw [hauthority, maskAuthority_append hhost, maskUserinfo_of_not_mem hcolon, if_neg hne,
    List.append_assoc, List.cons_append]
  intro hlead
  have := eq_of_append_prefix h.noAt (by decide) hlead
  exact h.unmasked (by rw [htoken, this])

/-- A `token@` that it takes for the beginning of a user name stays. -/
theorem Shows.kept_of_mem (h : Shows tail userinfo) (hread : ∀ c ∈ userinfo, isEnd c = false)
    (hcolon : ':' ∉ userinfo) (hname : ':' ∈ readUserinfo tail) (rest : List Char) :
    userinfo ++ ['@'] <+: maskAuthority (readAuthority tail) ++ rest := by
  obtain ⟨more, host, hauthority, hhost, huserinfo, hmore⟩ := h.begins.readAuthority_eq hread
  have hlead : userinfo ++ ['@'] <+: readUserinfo tail := by
    rw [huserinfo, List.prefix_append_right_inj]
    rcases hmore with rfl | hmore
    · rw [huserinfo, List.append_nil] at hname
      exact absurd hname hcolon
    · rcases more with _ | ⟨c, more⟩
      · cases hmore
      · cases hmore
        simp
  obtain ⟨user, secret, hsplit, huser⟩ := List.eq_append_cons_of_mem hname
  rw [hsplit] at hlead
  have := prefix_of_not_mem (by simpa using hcolon) hlead
  rw [hauthority, ← huserinfo, maskAuthority_append hhost, hsplit, maskUserinfo_append huser]
  simp only [List.append_assoc]
  exact this.trans (List.prefix_append user _)

/-- The mask hides what it catches, and nothing else. -/
theorem Shows.masked_iff (h : Shows tail userinfo) :
    ¬ userinfo ++ ['@'] <+: maskAuthority (readAuthority tail) ++ redact (readRest tail) ↔
      Caught tail userinfo := by
  by_cases hread : ∀ c ∈ userinfo, isEnd c = false
  · constructor
    · intro hmasked
      refine ⟨hread, fun hcolon hname => ?_⟩
      exact hmasked (h.kept_of_mem hread hcolon hname _)
    · intro hcaught
      by_cases hcolon : ':' ∈ userinfo
      · exact h.masked_of_mem hread hcolon _
      · exact h.masked_of_not_mem hread (hcaught.2 hcolon) _
  · refine iff_of_false (not_not_intro ?_) fun hcaught => hread hcaught.1
    simp only [not_forall, Bool.not_eq_false] at hread
    obtain ⟨c, hc, hend⟩ := hread
    exact (h.begins.kept hc hend (by simp [h.begins.noSlash])).2 h.begins.isPrefix

end

/-! ### URL by URL -/

/-- The `://` at which an authority ends that is followed by `//`, if it ends with `:`. -/
def glued (authority rest : List Char) : List (List Char) :=
  if authority.getLast? = some ':' ∧ ['/', '/'] <+: rest then [rest.drop 2] else []

theorem not_mem_of_isEnd {authority : List Char} (h : ∀ c ∈ authority, isEnd c = false) :
    '/' ∉ authority := by
  intro hslash
  exact absurd (h '/' hslash) (by decide)

theorem urls_append {authority : List Char} (h : ∀ c ∈ authority, isEnd c = false)
    (rest : List Char) : urls (authority ++ rest) = glued authority rest ++ urls rest :=
  after_append (not_mem_of_isEnd h) rest

theorem urls_of_none {text : List Char} (h : text.dropInfix? schemeEnd = none) : urls text = [] :=
  after_eq_nil schemeEnd_ne_nil h

theorem urls_eq_cons {text head tail : List Char}
    (h : text.dropInfix? schemeEnd = some (head, tail)) : urls text = tail :: urls tail :=
  after_of_dropInfix? (by decide) h

theorem urls_of_some {text head tail : List Char}
    (h : text.dropInfix? schemeEnd = some (head, tail)) :
    urls text = tail :: (glued (readAuthority tail) (readRest tail) ++ urls (readRest tail)) := by
  rw [← urls_append fun _ => isEnd_of_mem_readAuthority, readAuthority_append_readRest,
    urls_eq_cons h]

/-- The URLs of the redacted text, one for each of the text. -/
theorem urls_redact_of_some {text head tail : List Char}
    (h : text.dropInfix? schemeEnd = some (head, tail)) :
    urls (redact text) = (maskAuthority (readAuthority tail) ++ redact (readRest tail)) ::
      (glued (readAuthority tail) (redact (readRest tail)) ++ urls (redact (readRest tail))) := by
  have hfirst := dropInfix?_append ((dropInfix?_eq_some.1 h).1 ▸ h)
    (maskAuthority (readAuthority tail) ++ redact (readRest tail))
  have hmask : ∀ c ∈ maskAuthority (readAuthority tail), isEnd c = false :=
    fun _ => isEnd_of_mem_maskAuthority
  rw [redact_of_some h, urls_eq_cons hfirst, urls_append hmask, glued, getLast?_maskAuthority]
  rfl

theorem length_of_mem_urls {text tail : List Char} (h : tail ∈ urls text) :
    3 + tail.length ≤ text.length := length_le_of_mem_after h

theorem Stops.mem_urls {text tail : List Char} (h : Stops text tail) : tail ∈ urls text := by
  induction h with
  | here hfirst =>
      rw [urls_of_some hfirst]
      exact List.mem_cons_self
  | later hfirst _ ih =>
      rw [urls_of_some hfirst]
      exact List.mem_cons_of_mem _ (List.mem_append_right _ ih)

/-- Behind the first URL, the scan stops where it stops in the rest. -/
theorem stops_iff {text head tail tail' : List Char}
    (h : text.dropInfix? schemeEnd = some (head, tail)) :
    Stops text tail' ↔ tail' = tail ∨ Stops (readRest tail) tail' := by
  constructor
  · intro hstops
    cases hstops with
    | here hfirst =>
        rw [h] at hfirst
        cases hfirst
        exact .inl rfl
    | later hfirst hrest =>
        rw [h] at hfirst
        cases hfirst
        exact .inr hrest
  · rintro (rfl | hrest)
    · exact .here h
    · exact .later h hrest

section

variable {text head tail : List Char} (hfirst : text.dropInfix? schemeEnd = some (head, tail))
include hfirst

theorem stops_iff_of_mem {tail' : List Char} (h : tail' ∈ urls (readRest tail)) :
    Stops text tail' ↔ Stops (readRest tail) tail' := by
  have hne : tail' ≠ tail := by
    rintro rfl
    have hlt := length_of_mem_urls h
    have hle : (readRest tail').length ≤ tail'.length := List.length_dropWhile_le ..
    omega
  rw [stops_iff hfirst, or_iff_right hne]

theorem not_stops_glued {tail' : List Char} (h : readRest tail = '/' :: '/' :: tail') :
    ¬ Stops text tail' := by
  rw [stops_iff hfirst]
  rintro (rfl | hrest)
  · have hle : (readRest tail').length ≤ tail'.length := List.length_dropWhile_le ..
    rw [h, List.length_cons, List.length_cons] at hle
    omega
  · have hlt := length_of_mem_urls hrest.mem_urls
    rw [h, List.length_cons, List.length_cons] at hlt
    omega

end

/-- The glued URL, in the text and in the redacted one. -/
theorem glued_cases (authority rest : List Char) :
    (glued authority rest = [] ∧ glued authority (redact rest) = []) ∨
      ∃ tail, authority.getLast? = some ':' ∧ rest = '/' :: '/' :: tail ∧
        redact rest = '/' :: '/' :: redact tail ∧ glued authority rest = [tail] ∧
        glued authority (redact rest) = [redact tail] := by
  by_cases h : authority.getLast? = some ':' ∧ ['/', '/'] <+: rest
  · obtain ⟨hlast, tail, rfl⟩ := h
    have hredact : redact (['/', '/'] ++ tail) = '/' :: '/' :: redact tail := by
      rw [List.cons_append, List.singleton_append, redact_cons (by decide),
        redact_cons (by decide)]
    refine .inr ⟨tail, hlast, rfl, hredact, if_pos ⟨hlast, tail, rfl⟩, ?_⟩
    rw [hredact]
    exact if_pos ⟨hlast, redact tail, rfl⟩
  · refine .inl ⟨if_neg h, if_neg ?_⟩
    rwa [prefix_redact (by decide)]

/-! ### Schemes -/

def isSchemeChar (c : Char) : Bool := c.isAlphanum || c == '+' || c == '-' || c == '.'

theorem isEnd_of_isSchemeChar {c : Char} (h : isSchemeChar c = true) : isEnd c = false := by
  have halpha : c.isAlpha = (decide (c.val ≥ 'A'.val ∧ c.val ≤ 'Z'.val) ||
      (decide (c.val ≥ 'a'.val) && decide (c.val ≤ 'z'.val))) := rfl
  simp only [isSchemeChar, Char.isAlphanum, halpha, Char.isDigit,
    Bool.or_eq_true, Bool.and_eq_true, decide_eq_true_eq, beq_iff_eq, UInt32.le_iff_toNat_le,
    Char.ext_iff, ← UInt32.toNat_inj, ge_iff_le] at h
  simp only [isEnd, isWhiteSpace, Char.toNat, Bool.or_eq_false_iff, Bool.and_eq_false_iff,
    beq_eq_false_iff_ne, ne_eq, decide_eq_false_iff_not, Char.ext_iff, ← UInt32.toNat_inj]
  simp only [Char.reduceVal, UInt32.reduceToNat] at h ⊢
  omega

/-- The scheme that ends a text. -/
def readScheme (text : List Char) : List Char := text.rtakeWhile isSchemeChar

theorem readScheme_append {c : Char} (h : isSchemeChar c = false) (x y : List Char) :
    readScheme (x ++ c :: y) = readScheme y := by
  rw [readScheme, readScheme, List.rtakeWhile, List.rtakeWhile, List.reverse_append,
    List.reverse_cons, List.append_assoc, List.takeWhile_append, List.singleton_append,
    List.takeWhile_cons_of_neg (by simp [h]), List.append_nil]
  split
  · rename_i hlength
    rw [(List.takeWhile_prefix isSchemeChar).eq_of_length hlength]
  · rfl

theorem suffix_readScheme {scheme text : List Char} (h : ∀ c ∈ scheme, isSchemeChar c = true) :
    scheme <:+ readScheme text ↔ scheme <:+ text := by
  have hreverse : ∀ l : List Char, scheme <:+ l ↔ scheme.reverse <+: l.reverse :=
    fun l => List.reverse_prefix.symm
  rw [hreverse, hreverse text, readScheme, List.rtakeWhile, List.reverse_reverse]
  exact prefix_takeWhile fun c hc => h c (List.mem_reverse.1 hc)

/-- Two texts have a URL each, with the same scheme. -/
def SameScheme (text tail text' tail' : List Char) : Prop :=
  ∃ head head', text = head ++ schemeEnd ++ tail ∧ text' = head' ++ schemeEnd ++ tail' ∧
    readScheme head = readScheme head'

/-- Behind an authority, a scheme begins after the character that ends it. -/
theorem SameScheme.behind {tail tail₁ tail₂ : List Char}
    (h : SameScheme (readRest tail) tail₁ (redact (readRest tail)) tail₂) (x y : List Char) :
    SameScheme (x ++ readRest tail) tail₁ (y ++ redact (readRest tail)) tail₂ := by
  obtain ⟨head, head', hhead, hhead', hscheme⟩ := h
  rcases readRest_cases tail with hnil | ⟨c, rest, hcons, hc⟩
  · simp [hnil, schemeEnd] at hhead
  · have hcolon : c ≠ ':' := by
      rintro rfl
      exact absurd hc (by decide)
    have hnot : isSchemeChar c = false := by
      rw [← Bool.not_eq_true]
      intro hchar
      rw [isEnd_of_isSchemeChar hchar] at hc
      cases hc
    rw [hcons, redact_cons hcolon] at hhead'
    rw [hcons] at hhead
    rcases head with _ | ⟨d, head⟩
    · exact absurd (List.cons.inj hhead).1 hcolon
    rcases head' with _ | ⟨d', head'⟩
    · exact absurd (List.cons.inj hhead').1 hcolon
    obtain ⟨rfl, -⟩ := List.cons.inj hhead
    obtain ⟨rfl, -⟩ := List.cons.inj hhead'
    have hself : ∀ z, readScheme (c :: z) = readScheme z := readScheme_append hnot []
    rw [hcons, redact_cons hcolon, hhead, hhead']
    refine ⟨x ++ c :: head, y ++ c :: head', by simp, by simp, ?_⟩
    rw [readScheme_append hnot, readScheme_append hnot, ← hself, hscheme, hself]

/-- What is redacted of an authority is no part of a scheme behind it. -/
theorem readScheme_maskAuthority {authority : List Char} (h : authority.getLast? = some ':') :
    readScheme authority.dropLast = readScheme (maskAuthority authority).dropLast := by
  by_cases hat : '@' ∈ authority
  · obtain ⟨userinfo, host, rfl, hhost⟩ := exists_last hat
    rw [maskAuthority_append hhost]
    rcases host with _ | ⟨c, host⟩
    · simp at h
    · rw [List.dropLast_append_cons, List.dropLast_append_cons, List.dropLast_cons_cons,
        readScheme_append (by decide), readScheme_append (by decide)]
  · rw [maskAuthority_of_not_mem hat]

theorem readScheme_authority (head authority : List Char) :
    readScheme (head ++ schemeEnd ++ authority) = readScheme authority := by
  have hcut : head ++ schemeEnd ++ authority = (head ++ [':', '/']) ++ '/' :: authority := by
    simp [schemeEnd]
  rw [hcut, readScheme_append (by decide)]

theorem SameScheme.glued {authority : List Char} (h : authority.getLast? = some ':')
    (head tail tail' : List Char) :
    SameScheme (head ++ schemeEnd ++ authority ++ '/' :: '/' :: tail) tail
      (head ++ schemeEnd ++ maskAuthority authority ++ '/' :: '/' :: tail') tail' := by
  have hcut : ∀ {text : List Char} (rest : List Char), text.getLast? = some ':' →
      head ++ schemeEnd ++ text ++ '/' :: '/' :: rest =
        head ++ schemeEnd ++ text.dropLast ++ schemeEnd ++ rest := by
    intro text rest hlast
    conv => lhs; rw [← List.dropLast_append_getLast? ':' hlast]
    simp [schemeEnd]
  have hmask : (maskAuthority authority).getLast? = some ':' := by
    rw [getLast?_maskAuthority, h]
  refine ⟨_, _, hcut tail h, hcut tail' hmask, ?_⟩
  rw [readScheme_authority, readScheme_authority, readScheme_maskAuthority h]

/-- What becomes of the URL that goes on with `tail`. -/
structure Becomes (text tail tail' : List Char) : Prop where
  stopped : Stops text tail → tail' = maskAuthority (readAuthority tail) ++ redact (readRest tail)
  passed : ¬ Stops text tail → tail' = redact tail
  sameScheme : SameScheme text tail (redact text) tail'

/-- The URLs of the redacted text are those of the text, each masked or passed over. -/
theorem urls_redact (text : List Char) :
    List.Forall₂ (Becomes text) (urls text) (urls (redact text)) := by
  induction text using scan_induction with
  | none text hfirst =>
      rw [redact_of_none hfirst, urls_of_none hfirst]
      exact .nil
  | some text head tail hfirst ih =>
      have htext : text = (head ++ schemeEnd ++ readAuthority tail) ++ readRest tail := by
        rw [List.append_assoc, readAuthority_append_readRest]
        exact (dropInfix?_eq_some.1 hfirst).1
      have hredact : redact text =
          (head ++ schemeEnd ++ maskAuthority (readAuthority tail)) ++ redact (readRest tail) := by
        rw [redact_of_some hfirst, List.append_assoc _ (maskAuthority _)]
      have hrest : List.Forall₂ (Becomes text) (urls (readRest tail))
          (urls (redact (readRest tail))) := by
        refine ih.imp fun tail₁ tail₂ h => ?_
        obtain ⟨before, -, hbefore, -⟩ := h.sameScheme
        have hstops := stops_iff_of_mem hfirst (mem_after.2 ⟨before, hbefore⟩)
        refine ⟨fun hs => h.stopped (hstops.1 hs), fun hs => h.passed fun hs' => hs (hstops.2 hs'),
          ?_⟩
        have := h.sameScheme.behind (head ++ schemeEnd ++ readAuthority tail)
          (head ++ schemeEnd ++ maskAuthority (readAuthority tail))
        rwa [← htext, ← hredact] at this
      rw [urls_of_some hfirst, urls_redact_of_some hfirst]
      refine .cons ⟨fun _ => rfl, fun hs => absurd (.here hfirst) hs, ?_⟩ ?_
      · exact ⟨head, head, (dropInfix?_eq_some.1 hfirst).1, redact_of_some hfirst, rfl⟩
      rcases glued_cases (readAuthority tail) (readRest tail) with
        ⟨hnone, hnone'⟩ | ⟨tail', hlast, htail, htail', hone, hone'⟩
      · rw [hnone, hnone']
        exact hrest
      · rw [hone, hone']
        refine .cons ⟨fun hs => absurd hs (not_stops_glued hfirst htail), fun _ => rfl, ?_⟩ hrest
        have := SameScheme.glued hlast head tail' (redact tail')
        rwa [← htail, ← htext, ← htail', ← hredact] at this

/-- What is left of a URL that the scan passes over: all of it. -/
theorem hidden_redact_iff {tail : List Char} :
    Hidden tail (redact tail) ↔ ∀ userinfo, ¬ Shows tail userinfo := by
  refine forall_congr' fun userinfo => ?_
  refine ⟨fun h hshows => h hshows ?_, fun h hshows => absurd hshows h⟩
  have hslash : '/' ∉ userinfo ++ ['@'] := by simp [hshows.begins.noSlash]
  exact (prefix_append_redact hslash [] tail).2 hshows.begins.isPrefix

/-- No password is left exactly if the scan stops at every URL that shows one, and catches
it there. -/
theorem noPasswordLeft_redact_iff (text : List Char) :
    NoPasswordLeft text (redact text) ↔
      ∀ tail ∈ urls text, ∀ userinfo, Shows tail userinfo →
        Stops text tail ∧ Caught tail userinfo := by
  refine Sweeps.forall₂_iff_of_forall₂ (urls_redact text) fun tail _ tail' hbecomes => ?_
  by_cases hstops : Stops text tail
  · rw [hbecomes.stopped hstops]
    refine forall_congr' fun userinfo => forall_congr' fun hshows => ?_
    rw [hshows.masked_iff, and_iff_right hstops]
  · rw [hbecomes.passed hstops, hidden_redact_iff]
    exact ⟨fun hno userinfo hshows => absurd hshows (hno userinfo),
      fun h userinfo hshows => hstops (h userinfo hshows).1⟩

end Feloxi.Broker
