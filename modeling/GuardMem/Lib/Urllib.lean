import GuardMem.Lib.Sha256
import Mathlib.Data.List.TakeWhile
import Mathlib.Tactic.Common

/-! `urllib.parse`: text as UTF-8 bytes, bytes as percent-encoded text, and a URL taken apart.

    What was quoted is unquoted again (`unquote_quote`), and a URL whose parts hold no delimiter of theirs
    is taken apart into them (`urlsplit_parts`). -/

namespace Lib.Urllib

/-! ### UTF-8 -/

/-- `str.encode('utf-8')`. -/
def encode (text : List Char) : List UInt8 := text.flatMap String.utf8EncodeChar

/-- A byte that goes on with a character. -/
def isContinuation (b : UInt8) : Bool := 0x80 ≤ b && b ≤ 0xBF

/-- The byte may stand second in a character that starts with `lead`: nothing is written longer than it
    has to be, no surrogate and nothing beyond the last code point. -/
def continues (lead b : UInt8) : Bool :=
  isContinuation b &&
    if lead < 0xC2 then false
    else if lead = 0xE0 then 0xA0 ≤ b
    else if lead = 0xED then b ≤ 0x9F
    else if lead = 0xF0 then 0x90 ≤ b
    else if lead = 0xF4 then b ≤ 0x8F
    else lead < 0xF4

/-- How many bytes a character has that starts with this one. -/
def size (lead : UInt8) : ℕ := if lead < 0xE0 then 2 else if lead < 0xF0 then 3 else 4

/-- How many of the bytes behind `lead` belong to the character that breaks off there. -/
def broken (lead : UInt8) : List UInt8 → ℕ
  | [] => 0
  | b :: rest =>
      if continues lead b then 1 + ((rest.take (size lead - 2)).takeWhile isContinuation).length else 0

/-- `bytes.decode('utf-8', 'replace')`: what starts a character and breaks off becomes one U+FFFD. -/
def decode : List UInt8 → List Char
  | [] => []
  | b :: rest =>
      match (b :: rest).toByteArray.utf8DecodeChar? 0 with
      | some c => c :: decode (rest.drop (c.utf8Size - 1))
      | none => '\uFFFD' :: decode (rest.drop (broken b rest))
termination_by bytes => bytes.length
decreasing_by all_goals exact Nat.lt_succ_of_le (List.drop_sublist _ _).length_le

theorem decode_encode (text : List Char) : decode (encode text) = text := by
  induction text with
  | nil => simp [encode, decode]
  | cons c text ih =>
      obtain ⟨b, more, hc⟩ : ∃ b more, String.utf8EncodeChar c = b :: more := by
        cases hc : String.utf8EncodeChar c with
        | nil =>
            have hlength := String.length_utf8EncodeChar c
            have hpos := c.utf8Size_pos
            rw [hc, List.length_nil] at hlength
            omega
        | cons b more => exact ⟨b, more, rfl⟩
      have hsize : more.length = c.utf8Size - 1 := by
        have hlength := String.length_utf8EncodeChar c
        rw [hc, List.length_cons] at hlength
        omega
      have hread : (b :: (more ++ encode text)).toByteArray.utf8DecodeChar? 0 = some c := by
        have happend :=
          ByteArray.utf8DecodeChar?_utf8EncodeChar_append (b := (encode text).toByteArray) (c := c)
        rwa [← List.toByteArray_append, hc, List.cons_append] at happend
      have hencode : encode (c :: text) = b :: (more ++ encode text) := by
        simp [encode, hc]
      rw [hencode, decode, hread]
      simp only [← hsize, List.drop_left, ih]

/-! ### Percent-encoding -/

/-- `_ALWAYS_SAFE`, the unreserved characters. -/
def alwaysSafe (c : Char) : Bool := c.isAlphanum || c ∈ ['_', '.', '-', '~']

/-- A half of a byte as a capital hexadecimal digit. -/
def hexDigit (n : ℕ) : Char := (Nat.digitChar n).toUpper

/-- One byte of `quote`; of the characters that are to be safe only ASCII counts. -/
def quoter (safe : List Char) (b : UInt8) : List Char :=
  if b < 0x80 ∧ (alwaysSafe (Char.ofUInt8 b) ∨ Char.ofUInt8 b ∈ safe) then [Char.ofUInt8 b]
  else ['%', hexDigit (b.toNat / 16), hexDigit (b.toNat % 16)]

/-- `quote(text, safe)`. -/
def quote (safe text : List Char) : List Char := (encode text).flatMap (quoter safe)

/-- Every `%` with two hexadecimal digits behind it becomes a byte. -/
def unquoteToBytes : List Char → List UInt8
  | [] => []
  | [c] => String.utf8EncodeChar c
  | [c, d] => String.utf8EncodeChar c ++ String.utf8EncodeChar d
  | c :: hi :: lo :: rest =>
      if c = '%' then
        match Sha256.hexValue hi, Sha256.hexValue lo with
        | some h, some l => UInt8.ofNat (16 * h + l) :: unquoteToBytes rest
        | _, _ => String.utf8EncodeChar c ++ unquoteToBytes (hi :: lo :: rest)
      else String.utf8EncodeChar c ++ unquoteToBytes (hi :: lo :: rest)

/-- `str.isascii`, of one character. -/
def isAscii (c : Char) : Bool := c.toNat < 128

/-- The runs of ASCII characters are decoded, and what stands between them is kept. -/
def unquotedParts : List Char → List Char
  | [] => []
  | c :: rest =>
      if isAscii c then
        decode (unquoteToBytes (c :: rest.takeWhile isAscii)) ++ unquotedParts (rest.dropWhile isAscii)
      else c :: unquotedParts rest
termination_by text => text.length
decreasing_by
  · exact Nat.lt_succ_of_le (List.dropWhile_suffix isAscii).length_le
  · simp

/-- `unquote(text)`. -/
def unquote (text : List Char) : List Char := if '%' ∈ text then unquotedParts text else text

theorem encode_ascii : ∀ b < (0x80 : UInt8), String.utf8EncodeChar (Char.ofUInt8 b) = [b] := by
  intro b hb
  have hall : ∀ n < 128, String.utf8EncodeChar (Char.ofUInt8 (UInt8.ofNat n)) = [UInt8.ofNat n] := by
    decide +kernel
  have hn := hall b.toNat (UInt8.lt_iff_toNat_lt.mp hb)
  rwa [UInt8.ofNat_toNat] at hn

theorem hexValue_hexDigit : ∀ n < 16, Sha256.hexValue (hexDigit n) = some n ∧ isAscii (hexDigit n) = true ∧
    (hexDigit n).isAlphanum = true := by
  decide

/-- A character other than `%` is a byte as it stands. -/
theorem unquoteToBytes_cons {b : UInt8} (hb : b < 0x80) (hpercent : Char.ofUInt8 b ≠ '%')
    (rest : List Char) : unquoteToBytes (Char.ofUInt8 b :: rest) = b :: unquoteToBytes rest := by
  rcases rest with _ | ⟨c, _ | ⟨d, rest⟩⟩
  · simp [unquoteToBytes, encode_ascii b hb]
  · simp [unquoteToBytes, encode_ascii b hb]
  · rw [unquoteToBytes, if_neg hpercent, encode_ascii b hb]
    rfl

theorem unquoteToBytes_quoter {safe : List Char} (hsafe : '%' ∉ safe) (b : UInt8) (rest : List Char) :
    unquoteToBytes (quoter safe b ++ rest) = b :: unquoteToBytes rest := by
  rw [quoter]
  split
  · rename_i hkept
    refine unquoteToBytes_cons hkept.1 ?_ rest
    intro hpercent
    rw [hpercent] at hkept
    rcases hkept.2 with h | h
    · exact absurd h (by decide)
    · exact hsafe h
  · have hb : b.toNat < 256 := b.toNat_lt
    obtain ⟨hhi, -⟩ := hexValue_hexDigit (b.toNat / 16) (by omega)
    obtain ⟨hlo, -⟩ := hexValue_hexDigit (b.toNat % 16) (by omega)
    have hvalue : UInt8.ofNat (16 * (b.toNat / 16) + b.toNat % 16) = b := by
      rw [Nat.div_add_mod, UInt8.ofNat_toNat]
    simp only [List.cons_append, List.nil_append, unquoteToBytes, hhi, hlo, hvalue, if_true]

theorem unquoteToBytes_quote {safe : List Char} (hsafe : '%' ∉ safe) (text : List Char) :
    unquoteToBytes (quote safe text) = encode text := by
  rw [quote]
  induction encode text with
  | nil => rfl
  | cons b bs ih => rw [List.flatMap_cons, unquoteToBytes_quoter hsafe, ih]

/-- What `quote` writes: the unreserved and the safe characters as far as they are ASCII, and `%`. -/
theorem mem_quote {safe text : List Char} {c : Char} (h : c ∈ quote safe text) :
    isAscii c = true ∧ (alwaysSafe c = true ∨ c ∈ safe ∨ c = '%') := by
  obtain ⟨b, -, hc⟩ := List.mem_flatMap.mp h
  have hb : b.toNat < 256 := b.toNat_lt
  rw [quoter] at hc
  split at hc
  · rename_i hkept
    obtain rfl := List.mem_singleton.mp hc
    have hnat : (Char.ofUInt8 b).toNat = b.toNat := UInt8.toNat_toUInt32 b
    have hascii : isAscii (Char.ofUInt8 b) = true := by
      simpa [isAscii, hnat] using UInt8.lt_iff_toNat_lt.mp hkept.1
    rcases hkept.2 with hsafe | hsafe
    · exact ⟨hascii, .inl hsafe⟩
    · exact ⟨hascii, .inr (.inl hsafe)⟩
  · obtain ⟨-, hhi, hhi'⟩ := hexValue_hexDigit (b.toNat / 16) (by omega)
    obtain ⟨-, hlo, hlo'⟩ := hexValue_hexDigit (b.toNat % 16) (by omega)
    simp only [List.mem_cons, List.not_mem_nil, or_false] at hc
    rcases hc with rfl | rfl | rfl
    · exact ⟨rfl, .inr (.inr rfl)⟩
    · exact ⟨hhi, .inl (by simp [alwaysSafe, hhi'])⟩
    · exact ⟨hlo, .inl (by simp [alwaysSafe, hlo'])⟩

theorem unquotedParts_ascii {text : List Char} (h : ∀ c ∈ text, isAscii c = true) :
    unquotedParts text = decode (unquoteToBytes text) := by
  cases text with
  | nil => simp [unquotedParts, unquoteToBytes, decode]
  | cons c rest =>
      obtain ⟨hc, hrest⟩ := List.forall_mem_cons.mp h
      have hend : rest.dropWhile isAscii = [] := List.dropWhile_eq_nil_iff.mpr hrest
      have hrun : rest.takeWhile isAscii = rest := List.takeWhile_eq_self_iff.mpr hrest
      rw [unquotedParts, if_pos hc, hrun, hend, unquotedParts, List.append_nil]

/-- A text without `%` stands for its own bytes. -/
theorem unquoteToBytes_of_not_mem {text : List Char} (h : '%' ∉ text) :
    unquoteToBytes text = encode text := by
  fun_induction unquoteToBytes text with
  | case1 => rfl
  | case2 c => simp [encode]
  | case3 c d => simp [encode]
  | case4 hi lo rest => simp at h
  | case5 hi lo rest => simp at h
  | case6 c hi lo rest hc ih =>
      rw [ih fun hmem => h (List.mem_cons_of_mem _ hmem)]
      rfl

/-- CORRECT: what was quoted is unquoted again, as long as `%` is not safe. -/
theorem unquote_quote {safe : List Char} (hsafe : '%' ∉ safe) (text : List Char) :
    unquote (quote safe text) = text := by
  have hbytes := unquoteToBytes_quote hsafe text
  rw [unquote]
  split
  · rw [unquotedParts_ascii fun c hc => (mem_quote hc).1, hbytes, decode_encode]
  · rename_i hpercent
    rw [unquoteToBytes_of_not_mem hpercent] at hbytes
    rw [← decode_encode (quote safe text), hbytes, decode_encode]

/-! ### Taking a URL apart -/

/-- A `SplitResult`. -/
structure SplitResult where
  scheme : List Char
  netloc : List Char
  path : List Char
  query : List Char
  fragment : List Char
  deriving DecidableEq

/-- What the split asks of other modules: what `_check_bracketed_netloc` has against a network location,
    and `unicodedata.normalize('NFKC', _)`. -/
structure Checks where
  bracketed : List Char → Option String
  nfkc : List Char → List Char

/-- A C0 control or a space. -/
def isControlOrSpace (c : Char) : Bool := c.toNat ≤ 32

/-- Tabs and line ends are taken out of a URL wherever they stand. -/
def isRemoved (c : Char) : Bool := c ∈ ['\t', '\r', '\n']

def isSchemeChar (c : Char) : Bool := c.isAlphanum || c ∈ ['+', '-', '.']

/-- The scheme in small letters, if the text starts with one, and what stands behind its colon. -/
def splitScheme (url : List Char) : List Char × List Char :=
  let front := url.takeWhile (· != ':')
  if ':' ∈ url ∧ (front.head?.any fun c => c.isAlpha) ∧ front.all isSchemeChar then
    (front.map Char.toLower, url.drop (front.length + 1))
  else ([], url)

/-- A character that does not end a network location. -/
def inNetloc (c : Char) : Bool := c ∉ ['/', '?', '#']

/-- The network location behind two slashes, up to the path, the query or the fragment. -/
def splitNetloc : List Char → List Char × List Char
  | '/' :: '/' :: rest => (rest.takeWhile inNetloc, rest.dropWhile inNetloc)
  | url => ([], url)

/-- `text.split(sep, 1)`, with nothing behind a separator that does not occur. -/
def cut (sep : Char) (text : List Char) : List Char × List Char :=
  (text.takeWhile (· != sep), (text.dropWhile (· != sep)).drop 1)

/-- `_checknetloc`: a location must not get a delimiter from its normal form. -/
def checkNetloc (checks : Checks) (netloc : List Char) : Option String :=
  if netloc.all isAscii then none
  else
    let n := netloc.filter fun c => c ∉ ['@', ':', '#', '?']
    let normal := checks.nfkc n
    if n ≠ normal ∧ ['/', '?', '#', '@', ':'].any (· ∈ normal) then
      some ("netloc '" ++ String.ofList netloc ++ "' contains invalid characters under NFKC normalization")
    else none

/-- The bracket check of `urlsplit`. -/
def checkBrackets (checks : Checks) (netloc : List Char) : Option String :=
  if ('[' ∈ netloc) = (']' ∈ netloc) then
    if '[' ∈ netloc then checks.bracketed netloc else none
  else some "Invalid IPv6 URL"

/-- `urlsplit(url)`. -/
def urlsplit (checks : Checks) (url : List Char) : Except String SplitResult :=
  let url := (url.dropWhile isControlOrSpace).filter fun c => !isRemoved c
  let (scheme, url) := splitScheme url
  let (netloc, url) := splitNetloc url
  let (url, fragment) := cut '#' url
  let (path, query) := cut '?' url
  match checkBrackets checks netloc, checkNetloc checks netloc with
  | some message, _ => .error message
  | none, some message => .error message
  | none, none => .ok { scheme, netloc, path, query, fragment }

theorem bne_sep {text : List Char} {sep : Char} (h : sep ∉ text) : ∀ c ∈ text, (c != sep) = true := by
  intro c hc
  rw [bne_iff_ne]
  rintro rfl
  exact h hc

/-- A text free of a separator is cut at the first one behind it. -/
theorem takeWhile_append_sep {text rest : List Char} {sep : Char} (h : sep ∉ text) :
    (text ++ sep :: rest).takeWhile (· != sep) = text := by
  rw [List.takeWhile_append_of_pos (bne_sep h)]
  simp

theorem cut_of_not_mem {sep : Char} {text : List Char} (h : sep ∉ text) : cut sep text = (text, []) := by
  rw [cut, List.takeWhile_eq_self_iff.mpr (bne_sep h), List.dropWhile_eq_nil_iff.mpr (bne_sep h)]
  rfl

theorem isLower_range {c : Char} (h : c.isLower = true) : 97 ≤ c.toNat ∧ c.toNat ≤ 122 := by
  have hrange : (decide ('a'.val ≤ c.val) && decide (c.val ≤ 'z'.val)) = true := h
  simpa [UInt32.le_iff_toNat_le] using hrange

theorem toLower_of_isLower {c : Char} (h : c.isLower = true) : c.toLower = c := by
  have hrange := isLower_range h
  refine dif_neg ?_
  rintro ⟨-, hle⟩
  have hupper : c.toNat ≤ 90 := UInt32.le_iff_toNat_le.mp hle
  omega

theorem isRemoved_of_isLower {c : Char} (h : c.isLower = true) : isRemoved c = false := by
  have hrange := isLower_range h
  rw [isRemoved, decide_eq_false_iff_not]
  simp only [List.mem_cons, List.not_mem_nil, or_false]
  rintro (rfl | rfl | rfl) <;> exact absurd hrange (by decide)

theorem splitScheme_append {scheme rest : List Char} (hne : scheme ≠ [])
    (h : ∀ c ∈ scheme, c.isLower = true) : splitScheme (scheme ++ ':' :: rest) = (scheme, rest) := by
  have hletter : ∀ c ∈ scheme, c.isAlpha = true := by
    intro c hc
    have halpha : c.isAlpha = (c.isUpper || c.isLower) := rfl
    rw [halpha, h c hc, Bool.or_true]
  have hfront : (scheme ++ ':' :: rest).takeWhile (· != ':') = scheme :=
    takeWhile_append_sep fun hc => absurd (h ':' hc) (by decide)
  have hhead : scheme.head?.any (fun c => c.isAlpha) = true := by
    obtain ⟨c, more, rfl⟩ := List.exists_cons_of_ne_nil hne
    simpa using hletter c List.mem_cons_self
  have hall : scheme.all isSchemeChar = true := by
    rw [List.all_eq_true]
    intro c hc
    simp [isSchemeChar, Char.isAlphanum, hletter c hc]
  have hlower : scheme.map Char.toLower = scheme := by
    rw [List.map_congr_left fun c hc => toLower_of_isLower (h c hc), List.map_id']
  rw [splitScheme, hfront, if_pos ⟨by simp, hhead, hall⟩, hlower]
  simp

theorem splitNetloc_append {netloc rest : List Char} (h : ∀ c ∈ netloc, inNetloc c = true) :
    splitNetloc ('/' :: '/' :: (netloc ++ '/' :: rest)) = (netloc, '/' :: rest) := by
  have hslash : inNetloc '/' = false := rfl
  rw [splitNetloc, List.takeWhile_append_of_pos h, List.dropWhile_append_of_pos h]
  simp [hslash]

/-- CORRECT: a URL is taken apart into its scheme, its location and its path, where the scheme is of small
    letters, the location of ASCII and without brackets, and none holds a delimiter of what follows. -/
theorem urlsplit_parts (checks : Checks) {scheme netloc rest : List Char} (hne : scheme ≠ [])
    (hscheme : ∀ c ∈ scheme, c.isLower = true)
    (hnetloc : ∀ c ∈ netloc, isAscii c = true ∧ inNetloc c = true ∧ c ∉ ['[', ']'] ∧ isRemoved c = false)
    (hrest : ∀ c ∈ rest, c ∉ ['?', '#'] ∧ isRemoved c = false) :
    urlsplit checks (scheme ++ ':' :: '/' :: '/' :: (netloc ++ '/' :: rest)) =
      .ok { scheme, netloc, path := '/' :: rest, query := [], fragment := [] } := by
  have hstart : (scheme ++ ':' :: '/' :: '/' :: (netloc ++ '/' :: rest)).dropWhile isControlOrSpace =
      scheme ++ ':' :: '/' :: '/' :: (netloc ++ '/' :: rest) := by
    obtain ⟨c, more, rfl⟩ := List.exists_cons_of_ne_nil hne
    have hrange := isLower_range (hscheme c List.mem_cons_self)
    rw [List.cons_append, List.dropWhile_cons_of_neg]
    simp only [isControlOrSpace, decide_eq_true_eq]
    omega
  have hkept : (scheme ++ ':' :: '/' :: '/' :: (netloc ++ '/' :: rest)).filter (fun c => !isRemoved c) =
      scheme ++ ':' :: '/' :: '/' :: (netloc ++ '/' :: rest) := by
    rw [List.filter_eq_self]
    simp only [List.mem_append, List.mem_cons]
    rintro c (hc | rfl | rfl | rfl | hc | rfl | hc)
    · simp [isRemoved_of_isLower (hscheme c hc)]
    · rfl
    · rfl
    · rfl
    · simp [(hnetloc c hc).2.2.2]
    · rfl
    · simp [(hrest c hc).2]
  have hhash : '#' ∉ '/' :: rest := by
    simpa using fun hc => (hrest '#' hc).1 (by simp)
  have hquery : '?' ∉ '/' :: rest := by
    simpa using fun hc => (hrest '?' hc).1 (by simp)
  have hopen : '[' ∉ netloc := fun hc => (hnetloc '[' hc).2.2.1 (by simp)
  have hclose : ']' ∉ netloc := fun hc => (hnetloc ']' hc).2.2.1 (by simp)
  have hbrackets : checkBrackets checks netloc = none := by
    simp [checkBrackets, hopen, hclose]
  have hascii : checkNetloc checks netloc = none := by
    rw [checkNetloc, if_pos]
    exact List.all_eq_true.mpr fun c hc => (hnetloc c hc).1
  simp only [urlsplit, hstart, hkept, splitScheme_append hne hscheme,
    splitNetloc_append fun c hc => (hnetloc c hc).2.1, cut_of_not_mem hhash, cut_of_not_mem hquery,
    hbrackets, hascii]

end Lib.Urllib
