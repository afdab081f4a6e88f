import GuardMem.Lib.Lines
import GuardMem.Lib.Numeral
import GuardMem.Lib.Template
import GuardMem.Pipeline.Extractor
import GuardMem.Pipeline.SpanLinker
import Mathlib.Data.List.Sort

/-! Versioned prompt files: `prompts/loader.py`.

    A file is a fenced block of `key: value` lines and a body with placeholders. CORRECT: what a prompt of
    given frontmatter and body is written as loads back as that prompt (`load_dump`). -/

namespace GuardMem.Prompts

open Lib.Lines Lib.Template

/-! ### Python's texts -/

/-- `repr`, and what `str.isdigit` and `int` know of a character. -/
structure Builtins where
  repr : String → String
  isdigit : Char → Bool
  decimal : Char → Option ℕ
  isdigit_ascii : ∀ c, c.isDigit = true → isdigit c = true
  decimal_ascii : ∀ c, c.isDigit = true → decimal c = some (c.toNat - '0'.toNat)

/-- What ends a line for `str.splitlines`. -/
def breaks (c : Char) : Bool := c.toNat ∈ [10, 11, 12, 13, 28, 29, 30, 0x85, 0x2028, 0x2029]

/-- How a text file is read: `\r\n` and `\r` are `\n`. -/
def universal_newlines : List Char → List Char
  | '\r' :: '\n' :: cs => '\n' :: universal_newlines cs
  | '\r' :: cs => '\n' :: universal_newlines cs
  | c :: cs => c :: universal_newlines cs
  | [] => []

/-- `"\n".join(lines)`. -/
def join (lines : List (List Char)) : List Char := ['\n'].intercalate lines

/-- What loading or rendering a prompt raises. -/
inductive Raised where
  | ValueError (message : String)
  | FileNotFoundError (message : String)
  | ValidationError (field : String)
  deriving DecidableEq

/-! ### The patterns -/

/-- `[a-z_]`. -/
def begins_name (c : Char) : Bool := ('a' ≤ c && c ≤ 'z') || c == '_'

/-- `[a-z0-9_]`. -/
def in_name (c : Char) : Bool := begins_name c || c.isDigit

/-- `PLACEHOLDER` at the head of a text: its group, and its length. -/
def PLACEHOLDER : List Char → Option (String × ℕ)
  | '{' :: '{' :: cs =>
      let named := cs.dropWhile isspace
      let name := named.takeWhile in_name
      match named.head?, (named.dropWhile in_name).dropWhile isspace with
      | some c, '}' :: '}' :: rest =>
          if begins_name c then some (String.ofList name, (cs.length + 2) - rest.length) else none
      | _, _ => none
  | _ => none

/-- `FRONTMATTER_LINE` on a line: the key, and the value without the blanks at its ends. -/
def FRONTMATTER_LINE (line : List Char) : Option (List Char × List Char) :=
  match line.head?, line.dropWhile in_name with
  | some c, ':' :: value =>
      if begins_name c then
        some (line.takeWhile in_name, strip isspace (value.dropWhile fun c => c == ' ' || c == '\t'))
      else none
  | _, _ => none

/-- `[a-z_][a-z0-9_]*`. -/
def word (name : List Char) : Bool := name.head?.any begins_name && name.all in_name

/-- `[a-z][a-z0-9_]*`. -/
def segment (name : List Char) : Bool :=
  name.head?.any (fun c => 'a' ≤ c && c ≤ 'z') && name.all in_name

/-- `PROMPT_NAME`; its `$` lets one newline pass at the end. -/
def PROMPT_NAME (name : List Char) : Bool :=
  segment name || (name.getLast? == some '\n' && segment name.dropLast)

/-! ### The frontmatter -/

structure PromptSpec where
  name : String
  version : ℕ
  tier : Tier
  output_schema : String
  changelog : String
  name_length : 1 ≤ name.length
  version_ge : 1 ≤ version
  output_schema_length : 1 ≤ output_schema.length
  changelog_length : 1 ≤ changelog.length

def FRONTMATTER_FENCE : List Char := ['-', '-', '-']

variable (py : Builtins)

/-- The block between the fences, and the body. -/
def split_frontmatter (raw : List Char) (source : String) : Except Raised (List Char × List Char) :=
  match lines breaks raw with
  | [] => .error (.ValueError (source ++ ": a prompt file must open with a '---' frontmatter fence; " ++
      "RULES.md 3 requires tier, schema and changelog to travel with the prompt"))
  | first :: rest =>
      if strip isspace first ≠ FRONTMATTER_FENCE then
        .error (.ValueError (source ++ ": a prompt file must open with a '---' frontmatter fence; " ++
          "RULES.md 3 requires tier, schema and changelog to travel with the prompt"))
      else match rest.findIdx? fun line => strip isspace line == FRONTMATTER_FENCE with
        | some index => .ok (join (rest.take index), strip isspace (join (rest.drop (index + 1))))
        | none => .error (.ValueError (source ++ ": the frontmatter fence is never closed"))

/-- One layer of matching quotes taken off. -/
def unquote (value : List Char) : List Char :=
  if 2 ≤ value.length ∧ value.head? = value.getLast? ∧ (value.head? = some '"' ∨ value.head? = some '\'') then
    value.tail.dropLast
  else value

/-- The lines of the block, one after another, into the fields so far. -/
def parse_lines (source : String) : List (List Char) → List (String × String) →
    Except Raised (List (String × String))
  | [], fields => .ok fields
  | line :: rest, fields =>
      if strip isspace line = [] then parse_lines source rest fields
      else match FRONTMATTER_LINE line with
        | none => .error (.ValueError (source ++ ": frontmatter line " ++ py.repr (String.ofList line) ++
            " is not `key: value`. This parser is deliberately flat and refuses what it cannot " ++
            "represent exactly - nesting, lists and block scalars included."))
        | some (key, value) =>
            if String.ofList key ∈ fields.map Prod.fst then
              .error (.ValueError (source ++ ": duplicate frontmatter key " ++ py.repr (String.ofList key)))
            else parse_lines source rest (fields ++ [(String.ofList key, String.ofList (unquote value))])

def parse_frontmatter (block : List Char) (source : String) : Except Raised (List (String × String)) :=
  parse_lines py source (lines breaks block) []

/-- `int(text)` of a text of digits. -/
def int_digits (text : List Char) : Except Raised ℕ :=
  if 4300 < text.length then
    .error (.ValueError ("Exceeds the limit (4300 digits) for integer string conversion: value has " ++
      toString text.length ++ " digits; use sys.set_int_max_str_digits() to increase the limit"))
  else match text.mapM py.decimal with
    | some ds => .ok (ds.foldl (fun n d => 10 * n + d) 0)
    | none => .error (.ValueError ("invalid literal for int() with base 10: " ++ py.repr (String.ofList text)))

/-- `document["version"]`, where it is a number. -/
def version_of (fields : List (String × String)) : Except Raised (Option ℕ) :=
  match fields.lookup "version" with
  | some raw =>
      if raw.toList ≠ [] ∧ raw.toList.all py.isdigit = true then (int_digits py raw.toList).map some else .ok none
  | none => .ok none

def tier_of : String → Option Tier
  | "fast" => some .FAST
  | "balanced" => some .BALANCED
  | "frontier" => some .FRONTIER
  | _ => none

def PromptSpec.fields : List String := ["name", "version", "tier", "output_schema", "changelog"]

/-- `PromptSpec.model_validate_json`, of a document of texts and a version. -/
def model_validate (fields : List (String × String)) (version : Option ℕ) : Except Raised PromptSpec :=
  match fields.lookup "name", version, (fields.lookup "tier").bind tier_of, fields.lookup "output_schema",
      fields.lookup "changelog" with
  | some name, some version, some tier, some output_schema, some changelog =>
      if hname : 1 ≤ name.length then
        if hversion : 1 ≤ version then
          if houtput : 1 ≤ output_schema.length then
            if hchangelog : 1 ≤ changelog.length then
              match (fields.map Prod.fst).find? fun key => key ∉ PromptSpec.fields with
              | some key => .error (.ValidationError key)
              | none => .ok ⟨name, version, tier, output_schema, changelog, hname, hversion, houtput, hchangelog⟩
            else .error (.ValidationError "changelog")
          else .error (.ValidationError "output_schema")
        else .error (.ValidationError "version")
      else .error (.ValidationError "name")
  | none, _, _, _, _ => .error (.ValidationError "name")
  | _, none, _, _, _ => .error (.ValidationError "version")
  | _, _, none, _, _ => .error (.ValidationError "tier")
  | _, _, _, none, _ => .error (.ValidationError "output_schema")
  | _, _, _, _, none => .error (.ValidationError "changelog")

def spec_from (fields : List (String × String)) : Except Raised PromptSpec := do
  model_validate fields (← version_of py fields)

/-! ### A prompt file -/

/-- What a process finds on its disk: the text of each file, by its path. -/
abbrev Files := String → Option (List Char)

/-- `_PROMPT_ROOT / name / f"v{version}.md"`. -/
def source_of (root name : String) (version : ℤ) : String :=
  root ++ "/" ++ name ++ "/v" ++ toString version ++ ".md"

variable (root : String)

/-- Read and check one prompt file. -/
def load (files : Files) (name : String) (version : ℤ) : Except Raised (PromptSpec × List Char) :=
  if PROMPT_NAME name.toList = false then
    .error (.ValueError ("prompt name " ++ py.repr name ++ " is not a single lowercase path segment; " ++
      "a name is a directory under prompts/, never a path"))
  else if version < 1 then
    .error (.ValueError ("prompt version must be 1 or greater, got " ++ toString version))
  else
    let source := source_of root name version
    match files source with
    | none => .error (.FileNotFoundError ("no prompt at " ++ source ++ ". Prompts live in " ++
        "packages/guardmem-core/src/guardmem_core/prompts/<name>/v<N>.md (RULES.md 3)."))
    | some text => do
        let (frontmatter, body) ← split_frontmatter (universal_newlines text) source
        let spec ← spec_from py (← parse_frontmatter py frontmatter source)
        if spec.name ≠ name ∨ (spec.version : ℤ) ≠ version then
          .error (.ValueError (source ++ ": frontmatter declares " ++ spec.name ++ "@v" ++ toString spec.version ++
            " but the file is at " ++ name ++ "/v" ++ toString version ++ ".md. The path is the identity a call " ++
            "site uses, so the two may not disagree."))
        else if body = [] then .error (.ValueError (source ++ ": the prompt body is empty"))
        else .ok (spec, body)

/-! ### Rendering -/

structure RenderedPrompt where
  spec : PromptSpec
  text : List Char
  version_id : String

/-- `sorted` of a set of texts, as a message shows it. -/
def shown (names : List String) : String :=
  "[" ++ ", ".intercalate ((names.dedup.insertionSort (· ≤ ·)).map py.repr) ++ "]"

/-- What `render` does with a loaded prompt. -/
def rendered (name : String) (version : ℤ) («variables» : List (String × List Char))
    (loaded : PromptSpec × List Char) :
    Except Raised RenderedPrompt :=
  let expected := names PLACEHOLDER loaded.2
  let supplied := «variables».map Prod.fst
  if (∀ x ∈ expected, x ∈ supplied) ∧ ∀ x ∈ supplied, x ∈ expected then
    .ok ⟨loaded.1, substitute PLACEHOLDER (fun x => («variables».lookup x).getD []) loaded.2,
      name ++ "@v" ++ toString version⟩
  else .error (.ValueError (name ++ "@v" ++ toString version ++ ": template variables do not match. missing=" ++
    shown py (expected.filter fun x => x ∉ supplied) ++ " unexpected=" ++
    shown py (supplied.filter fun x => x ∉ expected)))

/-- `render`, with nothing in the cache. -/
def render (files : Files) (name : String) (version : ℤ) («variables» : List (String × List Char)) :
    Except Raised RenderedPrompt := do
  rendered py name version «variables» (← load py root files name version)

/-! ### Writing a prompt file -/

def tier_text : Tier → String
  | .FAST => "fast"
  | .BALANCED => "balanced"
  | .FRONTIER => "frontier"

/-- A line of the block. -/
def field_line (key value : List Char) : List Char := key ++ ':' :: ' ' :: value

def quote (text : List Char) : List Char := '"' :: (text ++ ['"'])

/-- The five lines of a prompt's frontmatter. -/
def field_lines (spec : PromptSpec) : List (List Char) :=
  [field_line "name".toList spec.name.toList, field_line "version".toList (Nat.toDigits 10 spec.version),
    field_line "tier".toList (tier_text spec.tier).toList,
    field_line "output_schema".toList (quote spec.output_schema.toList),
    field_line "changelog".toList (quote spec.changelog.toList)]

/-- The file a prompt is written as. -/
def dump (spec : PromptSpec) (body : List Char) : List Char :=
  join (FRONTMATTER_FENCE :: field_lines spec ++ [FRONTMATTER_FENCE]) ++ '\n' :: (body ++ ['\n'])

/-- A prompt that a file can hold: its name is a directory, its texts are of one line each, and its body is
    broken into lines by `\n` only and has no blank ends. -/
structure Writable (spec : PromptSpec) (body : List Char) : Prop where
  name : segment spec.name.toList = true
  version : (Nat.toDigits 10 spec.version).length ≤ 4300
  output_schema : ∀ c ∈ spec.output_schema.toList, breaks c = false
  changelog : ∀ c ∈ spec.changelog.toList, breaks c = false
  body_ne : body ≠ []
  body_lines : ∀ c ∈ body, breaks c = true → c = '\n'
  body_first : ∀ c ∈ body.head?, isspace c = false
  body_last : ∀ c ∈ body.getLast?, isspace c = false

variable {py root} {spec : PromptSpec} {body : List Char}

/-! ### Characters -/

theorem isspace_of_breaks {c : Char} (h : breaks c = true) : isspace c = true := by
  simp only [breaks, List.mem_cons, List.not_mem_nil, or_false, decide_eq_true_eq] at h
  unfold isspace
  rcases h with h | h | h | h | h | h | h | h | h | h <;> simp [h]

theorem isDigit_iff {c : Char} : c.isDigit = true ↔ 48 ≤ c.toNat ∧ c.toNat ≤ 57 := by
  have hrange : c.isDigit = (Decidable.decide ('0'.val ≤ c.val) && Decidable.decide (c.val ≤ '9'.val)) := rfl
  rw [hrange]
  simp [UInt32.le_iff_toNat_le]

theorem begins_name_iff {c : Char} :
    begins_name c = true ↔ (97 ≤ c.toNat ∧ c.toNat ≤ 122) ∨ c.toNat = 95 := by
  have hrange : begins_name c = (Decidable.decide ('a'.val ≤ c.val) && Decidable.decide (c.val ≤ 'z'.val) ||
      c == '_') := rfl
  have hunderscore : c = '_' ↔ c.toNat = 95 := ⟨(by rintro rfl; rfl), fun h => Char.toNat_inj.mp h⟩
  rw [hrange]
  simp [UInt32.le_iff_toNat_le, hunderscore]

theorem in_name_iff {c : Char} : in_name c = true ↔
    (97 ≤ c.toNat ∧ c.toNat ≤ 122) ∨ c.toNat = 95 ∨ (48 ≤ c.toNat ∧ c.toNat ≤ 57) := by
  rw [in_name, Bool.or_eq_true, begins_name_iff, isDigit_iff, or_assoc]

theorem isspace_iff {c : Char} : isspace c = true ↔ (9 ≤ c.toNat ∧ c.toNat ≤ 13) ∨ (28 ≤ c.toNat ∧ c.toNat ≤ 32) ∨
    c.toNat ∈ [0x85, 0xA0, 0x1680, 0x2028, 0x2029, 0x202F, 0x205F, 0x3000] ∨
      (0x2000 ≤ c.toNat ∧ c.toNat ≤ 0x200A) := by
  simp only [isspace, Bool.or_eq_true, Bool.and_eq_true, decide_eq_true_eq, beq_iff_eq, List.mem_cons,
    List.not_mem_nil, or_false]
  omega

theorem isspace_of_in_name {c : Char} (h : in_name c = true) : isspace c = false := by
  rw [in_name_iff] at h
  rw [Bool.eq_false_iff, Ne, isspace_iff]
  simp only [List.mem_cons, List.not_mem_nil, or_false]
  omega

theorem breaks_of_isspace {c : Char} (h : isspace c = false) : breaks c = false := by
  rw [Bool.eq_false_iff] at h ⊢
  exact fun hbreaks => h (isspace_of_breaks hbreaks)

theorem no_return {c : Char} (h : breaks c = false) : c ≠ '\r' := by
  rintro rfl
  cases h

theorem universal_newlines_of_free : ∀ {text : List Char}, '\r' ∉ text → universal_newlines text = text
  | [], _ => rfl
  | c :: text, h => by
      rw [List.mem_cons, not_or] at h
      obtain ⟨hc, htext⟩ := h
      rw [universal_newlines, universal_newlines_of_free htext]
      · exact fun cs hr => absurd hr.symm hc
      · exact fun hr => hc hr.symm

/-! ### Reading a prompt file back -/

/-- A value of which nothing is taken off: it begins and ends in no blank, and is in no quotes. -/
structure Bare (value : List Char) : Prop where
  first : ∃ c cs, value = c :: cs ∧ isspace c = false ∧ c ≠ '"' ∧ c ≠ '\''
  last : ∀ c ∈ value.getLast?, isspace c = false

theorem unquote_quote {text : List Char} : unquote (quote text) = text := by
  have hlast : (quote text).getLast? = some '"' := by
    rw [quote, ← List.cons_append, List.getLast?_concat]
  have hhead : (quote text).head? = some '"' := rfl
  have hlength : 2 ≤ (quote text).length := by simp [quote]
  rw [unquote, if_pos ⟨hlength, by rw [hlast, hhead], Or.inl hhead⟩, quote, List.tail_cons, List.dropLast_concat]

theorem unquote_of_bare {value : List Char} (h : Bare value) : unquote value = value := by
  obtain ⟨c, cs, rfl, -, hdouble, hsingle⟩ := h.first
  rw [unquote, if_neg]
  rintro ⟨-, -, hq | hq⟩
  · exact hdouble (Option.some.inj hq)
  · exact hsingle (Option.some.inj hq)

/-- What is of a name's characters is written in no quotes. -/
theorem bare_of_name {value : List Char} (hvalue : ∀ c ∈ value, in_name c = true) (hne : value ≠ []) :
    Bare value := by
  obtain ⟨c, cs, rfl⟩ := List.exists_cons_of_ne_nil hne
  have hc := hvalue c List.mem_cons_self
  refine ⟨⟨c, cs, rfl, isspace_of_in_name hc, ?_, ?_⟩, fun d hd => isspace_of_in_name (hvalue d ?_)⟩
  · rintro rfl
    cases hc
  · rintro rfl
    cases hc
  · exact List.mem_of_getLast? hd

theorem word_iff {key : List Char} : word key = true ↔
    (∃ c cs, key = c :: cs ∧ begins_name c = true) ∧ ∀ c ∈ key, in_name c = true := by
  cases key <;> simp [word]

/-- A line is read as the key and the value it was written from. -/
theorem frontmatter_line {key value : List Char} (hkey : word key = true)
    (hvalue : ∃ c cs, value = c :: cs ∧ isspace c = false) (hlast : ∀ c ∈ value.getLast?, isspace c = false) :
    FRONTMATTER_LINE (field_line key value) = some (key, value) := by
  obtain ⟨⟨c, cs, rfl, hc⟩, hkey⟩ := word_iff.mp hkey
  obtain ⟨d, ds, rfl, hd⟩ := hvalue
  have hcolon : in_name ':' = false := rfl
  have htake : (field_line (c :: cs) (d :: ds)).takeWhile in_name = c :: cs := by
    rw [field_line, List.takeWhile_append_of_pos hkey, List.takeWhile_cons_of_neg (by simp [hcolon]),
      List.append_nil]
  have hdrop : (field_line (c :: cs) (d :: ds)).dropWhile in_name = ':' :: ' ' :: d :: ds := by
    rw [field_line, List.dropWhile_append_of_pos hkey, List.dropWhile_cons_of_neg (by simp [hcolon])]
  have hblank : (d == ' ' || d == '\t') = false := by
    rw [Bool.or_eq_false_iff, beq_eq_false_iff_ne, beq_eq_false_iff_ne]
    exact ⟨(by rintro rfl; cases hd), by rintro rfl; cases hd⟩
  have hstrip : strip isspace ((' ' :: d :: ds).dropWhile fun c => c == ' ' || c == '\t') = d :: ds := by
    rw [List.dropWhile_cons_of_pos (by simp), List.dropWhile_cons_of_neg (by simp [hblank])]
    exact strip_of_trim (fun e he => Option.some.inj he ▸ hd) hlast
  unfold FRONTMATTER_LINE
  rw [hdrop, htake]
  simp only [field_line, List.cons_append, List.head?_cons, hc, if_true]
  rw [hstrip]

/-- One more line, of a new key. -/
theorem parse_lines_field {source : String} {key value : List Char} {rest : List (List Char)}
    {fields : List (String × String)} (hkey : word key = true)
    (hvalue : ∃ c cs, value = c :: cs ∧ isspace c = false) (hlast : ∀ c ∈ value.getLast?, isspace c = false)
    (hnew : String.ofList key ∉ fields.map Prod.fst) :
    parse_lines py source (field_line key value :: rest) fields =
      parse_lines py source rest (fields ++ [(String.ofList key, String.ofList (unquote value))]) := by
  have hline := frontmatter_line hkey hvalue hlast
  obtain ⟨⟨c, cs, rfl, hc⟩, hkey⟩ := word_iff.mp hkey
  obtain ⟨ds, hds⟩ : ∃ ds, strip isspace (field_line (c :: cs) value) = c :: ds :=
    strip_cons (isspace_of_in_name (hkey c List.mem_cons_self))
  rw [parse_lines, if_neg (by rw [hds]; simp), hline]
  simp only [if_neg hnew]

theorem parse_lines_bare {source : String} {key value : List Char} {rest : List (List Char)}
    {fields : List (String × String)} (hkey : word key = true) (hvalue : Bare value)
    (hnew : String.ofList key ∉ fields.map Prod.fst) :
    parse_lines py source (field_line key value :: rest) fields =
      parse_lines py source rest (fields ++ [(String.ofList key, String.ofList value)]) := by
  obtain ⟨c, cs, hcs, hc, -⟩ := hvalue.first
  rw [parse_lines_field hkey ⟨c, cs, hcs, hc⟩ hvalue.last hnew, unquote_of_bare hvalue]

theorem parse_lines_quoted {source : String} {key text : List Char} {rest : List (List Char)}
    {fields : List (String × String)} (hkey : word key = true)
    (hnew : String.ofList key ∉ fields.map Prod.fst) :
    parse_lines py source (field_line key (quote text) :: rest) fields =
      parse_lines py source rest (fields ++ [(String.ofList key, String.ofList text)]) := by
  have hlast : ∀ c ∈ (quote text).getLast?, isspace c = false := by
    intro c hc
    rw [quote, ← List.cons_append, List.getLast?_concat] at hc
    exact Option.some.inj hc ▸ rfl
  have hfirst : ∃ c cs, quote text = c :: cs ∧ isspace c = false := ⟨_, _, rfl, rfl⟩
  rw [parse_lines_field hkey hfirst hlast hnew, unquote_quote]

theorem mapM_decimal : ∀ {cs : List Char}, (∀ c ∈ cs, c.isDigit = true) →
    cs.mapM py.decimal = some (cs.map fun c => c.toNat - '0'.toNat)
  | [], _ => rfl
  | c :: cs, h => by
      obtain ⟨hc, h⟩ := List.forall_mem_cons.mp h
      rw [List.mapM_cons, py.decimal_ascii c hc, mapM_decimal h]
      rfl

theorem int_digits_toDigits {n : ℕ} (h : (Nat.toDigits 10 n).length ≤ 4300) :
    int_digits py (Nat.toDigits 10 n) = .ok n := by
  have hfold : ∀ (cs : List Char) (m : ℕ), (cs.map fun c => c.toNat - '0'.toNat).foldl (fun n d => 10 * n + d) m =
      Nat.ofDigitChars 10 cs m := fun cs m => List.foldl_map ..
  rw [int_digits, if_neg (Nat.not_lt.mpr h), mapM_decimal (Lib.Numeral.digits_toDigits n)]
  simp only [hfold]
  rw [Nat.ofDigitChars_toDigits (by decide) (by decide)]

theorem name_bare (h : Writable spec body) :
    ∃ c cs, spec.name.toList = c :: cs ∧ begins_name c = true ∧ ∀ d ∈ c :: cs, in_name d = true := by
  have hname := h.name
  rw [segment, Bool.and_eq_true, List.all_eq_true] at hname
  obtain ⟨hfirst, hall⟩ := hname
  cases hcs : spec.name.toList with
  | nil =>
      rw [hcs] at hfirst
      cases hfirst
  | cons c cs =>
      rw [hcs] at hfirst hall
      refine ⟨c, cs, rfl, ?_, hall⟩
      rw [begins_name, Bool.or_eq_true]
      exact Or.inl hfirst

theorem name_free {cs : List Char} (h : ∀ c ∈ cs, in_name c = true) : ∀ c ∈ cs, breaks c = false :=
  fun c hc => breaks_of_isspace (isspace_of_in_name (h c hc))

theorem quote_free {text : List Char} (h : ∀ c ∈ text, breaks c = false) :
    ∀ c ∈ quote text, breaks c = false := by
  intro c hc
  rcases List.mem_cons.mp hc with rfl | hc
  · rfl
  · rcases List.mem_append.mp hc with hc | hc
    · exact h c hc
    · obtain rfl := List.mem_singleton.mp hc
      rfl

theorem field_line_free {key value : List Char} (hkey : ∀ c ∈ key, in_name c = true)
    (hvalue : ∀ c ∈ value, breaks c = false) : ∀ c ∈ field_line key value, breaks c = false := by
  intro c hc
  rcases List.mem_append.mp hc with hc | hc
  · exact name_free hkey c hc
  · rcases List.mem_cons.mp hc with rfl | hc
    · rfl
    · rcases List.mem_cons.mp hc with rfl | hc
      · rfl
      · exact hvalue c hc

theorem version_named : ∀ c ∈ Nat.toDigits 10 spec.version, in_name c = true := fun c hc => by
  rw [in_name, Lib.Numeral.digits_toDigits _ c hc, Bool.or_true]

theorem tier_named : ∀ c ∈ (tier_text spec.tier).toList, in_name c = true := by
  cases spec.tier <;> exact List.all_eq_true.mp rfl

/-- No line of the block holds a break. -/
theorem field_lines_free (h : Writable spec body) : ∀ l ∈ field_lines spec, ∀ c ∈ l, breaks c = false := by
  obtain ⟨d, ds, hcs, -, hall⟩ := name_bare h
  intro l hl
  simp only [field_lines, List.mem_cons, List.not_mem_nil, or_false] at hl
  rcases hl with rfl | rfl | rfl | rfl | rfl
  · exact field_line_free (List.all_eq_true.mp rfl) (name_free (hcs ▸ hall))
  · exact field_line_free (List.all_eq_true.mp rfl) (name_free version_named)
  · exact field_line_free (List.all_eq_true.mp rfl) (name_free tier_named)
  · exact field_line_free (List.all_eq_true.mp rfl) (quote_free h.output_schema)
  · exact field_line_free (List.all_eq_true.mp rfl) (quote_free h.changelog)

/-- Nor is one of them a fence. -/
theorem field_lines_not_fence : ∀ l ∈ field_lines spec, (strip isspace l == FRONTMATTER_FENCE) = false := by
  intro l hl
  obtain ⟨c, cs, rfl, hc, hne⟩ : ∃ c cs, l = c :: cs ∧ isspace c = false ∧ c ≠ '-' := by
    simp only [field_lines, List.mem_cons, List.not_mem_nil, or_false] at hl
    rcases hl with rfl | rfl | rfl | rfl | rfl <;> exact ⟨_, _, rfl, rfl, by decide⟩
  obtain ⟨ds, hds⟩ : ∃ ds, strip isspace (c :: cs) = c :: ds := strip_cons hc
  rw [hds, beq_eq_false_iff_ne]
  exact fun heq => hne (List.cons.inj heq).1

theorem findIdx_first {α : Type} {p : α → Bool} {x : α} {rest : List α} (hx : p x = true) : ∀ {ls : List α},
    (∀ l ∈ ls, p l = false) → (ls ++ x :: rest).findIdx? p = some ls.length
  | [], _ => by
      rw [List.nil_append, List.findIdx?_cons, hx]
      rfl
  | l :: ls, h => by
      obtain ⟨hl, hls⟩ := List.forall_mem_cons.mp h
      rw [List.cons_append, List.findIdx?_cons, hl, findIdx_first hx hls]
      rfl

/-- No line before the body holds a break. -/
theorem head_free (h : Writable spec body) :
    ∀ l ∈ FRONTMATTER_FENCE :: field_lines spec ++ [FRONTMATTER_FENCE], ∀ c ∈ l, breaks c = false := by
  have hfence : ∀ c ∈ FRONTMATTER_FENCE, breaks c = false := by
    intro c hc
    rw [List.eq_of_mem_replicate (n := 3) hc]
    rfl
  intro l hl
  rcases List.mem_append.mp hl with hl | hl
  · rcases List.mem_cons.mp hl with rfl | hl
    · exact hfence
    · exact field_lines_free h l hl
  · exact List.mem_singleton.mp hl ▸ hfence

theorem dump_no_return (h : Writable spec body) : '\r' ∉ dump spec body := by
  intro hmem
  rcases List.mem_append.mp hmem with hmem | hmem
  · rcases mem_join hmem with hc | ⟨l, hl, hc⟩
    · cases hc
    · exact no_return (head_free h l hl _ hc) rfl
  · rcases List.mem_cons.mp hmem with hc | hmem
    · cases hc
    · rcases List.mem_append.mp hmem with hmem | hmem
      · cases h.body_lines _ hmem rfl
      · cases List.mem_singleton.mp hmem

/-- The written file is read into its block and its body. -/
theorem split_dump (h : Writable spec body) {source : String} :
    split_frontmatter (universal_newlines (dump spec body)) source = .ok (join (field_lines spec), body) := by
  have hlast : ∀ c ∈ body.getLast?, breaks c = false := fun c hc => breaks_of_isspace (h.body_last c hc)
  have hlines : lines breaks (dump spec body) =
      FRONTMATTER_FENCE :: (field_lines spec ++ FRONTMATTER_FENCE :: lines breaks body) := by
    rw [dump, join, lines_join_append rfl (by simp) (head_free h), lines_concat rfl h.body_ne hlast]
    simp only [List.cons_append, List.append_assoc, List.nil_append]
  have hbody : strip isspace (join (lines breaks body)) = body := by
    rw [join, join_lines h.body_lines hlast]
    exact strip_of_trim h.body_first h.body_last
  have hfence : (strip isspace FRONTMATTER_FENCE == FRONTMATTER_FENCE) = true := by decide
  have hindex : (field_lines spec ++ FRONTMATTER_FENCE :: lines breaks body).findIdx?
      (fun line => strip isspace line == FRONTMATTER_FENCE) = some (field_lines spec).length :=
    @findIdx_first _ (fun line => strip isspace line == FRONTMATTER_FENCE) _ _ hfence _ field_lines_not_fence
  rw [split_frontmatter, universal_newlines_of_free (dump_no_return h), hlines]
  simp only [if_neg (not_not.mpr (beq_iff_eq.mp hfence)), hindex]
  rw [List.take_left, List.drop_length_add_append, List.drop_one, List.tail_cons, hbody]

/-- The fields of a written block. -/
def written_fields (spec : PromptSpec) : List (String × String) :=
  [("name", spec.name), ("version", String.ofList (Nat.toDigits 10 spec.version)), ("tier", tier_text spec.tier),
    ("output_schema", spec.output_schema), ("changelog", spec.changelog)]

theorem parse_dump (h : Writable spec body) {source : String} :
    parse_frontmatter py (join (field_lines spec)) source = .ok (written_fields spec) := by
  have hlast : ∀ l ∈ (field_lines spec).getLast?, l ≠ [] := by
    rintro l hl rfl
    cases hl
  obtain ⟨c, cs, hname, -, hall⟩ := name_bare h
  have hname_bare : Bare spec.name.toList := bare_of_name (hname ▸ hall) (by simp [hname])
  have hversion_bare : Bare (Nat.toDigits 10 spec.version) := bare_of_name version_named Nat.toDigits_ne_nil
  have htier_bare : Bare (tier_text spec.tier).toList :=
    bare_of_name tier_named (by cases spec.tier <;> exact List.cons_ne_nil _ _)
  rw [parse_frontmatter, join, lines_join rfl (field_lines_free h) hlast, field_lines,
    parse_lines_bare rfl hname_bare (by simp), parse_lines_bare rfl hversion_bare (by simp),
    parse_lines_bare rfl htier_bare (by simp), parse_lines_quoted rfl (by simp),
    parse_lines_quoted rfl (by simp), parse_lines]
  simp [written_fields]

theorem tier_of_text (t : Tier) : tier_of (tier_text t) = some t := by
  cases t <;> rfl

theorem spec_from_dump (h : Writable spec body) : spec_from py (written_fields spec) = .ok spec := by
  have hall : (Nat.toDigits 10 spec.version).all py.isdigit = true :=
    List.all_eq_true.mpr fun c hc => py.isdigit_ascii c (Lib.Numeral.digits_toDigits _ c hc)
  have hname : (written_fields spec).lookup "name" = some spec.name := rfl
  have hversion : (written_fields spec).lookup "version" =
      some (String.ofList (Nat.toDigits 10 spec.version)) := rfl
  have htier : (written_fields spec).lookup "tier" = some (tier_text spec.tier) := rfl
  have houtput : (written_fields spec).lookup "output_schema" = some spec.output_schema := rfl
  have hchangelog : (written_fields spec).lookup "changelog" = some spec.changelog := rfl
  have hknown : ((written_fields spec).map Prod.fst).find? (fun key => key ∉ PromptSpec.fields) = none := rfl
  have hnumber : version_of py (written_fields spec) = .ok (some spec.version) := by
    simp only [version_of, hversion, String.toList_ofList]
    rw [if_pos ⟨Nat.toDigits_ne_nil, hall⟩, int_digits_toDigits h.version]
    rfl
  rw [spec_from, hnumber]
  change model_validate (written_fields spec) (some spec.version) = _
  simp only [model_validate, hname, htier, houtput, hchangelog, Option.bind_some, tier_of_text, hknown]
  rw [dif_pos spec.name_length, dif_pos spec.version_ge, dif_pos spec.output_schema_length,
    dif_pos spec.changelog_length]

/-- CORRECT: whatever else is on the disk, the file that a prompt is written as is loaded as that prompt,
    its frontmatter and its body. -/
theorem load_dump {files : Files} (h : Writable spec body)
    (hfile : files (source_of root spec.name spec.version) = some (dump spec body)) :
    load py root files spec.name spec.version = .ok (spec, body) := by
  have hname : ¬ PROMPT_NAME spec.name.toList = false := by simp [PROMPT_NAME, h.name]
  have hversion : ¬ (spec.version : ℤ) < 1 := by
    have hge := spec.version_ge
    omega
  rw [load, if_neg hname, if_neg hversion]
  simp only [hfile, split_dump h, bind, Except.bind, parse_dump h, spec_from_dump h]
  rw [if_neg (by simp), if_neg h.body_ne]

/-! ### A small prompt -/

/-- The digits of ASCII, and a `repr` with nothing to escape. -/
def ascii : Builtins where
  repr s := "'" ++ s ++ "'"
  isdigit := Char.isDigit
  decimal c := some (c.toNat - '0'.toNat)
  isdigit_ascii _ h := h
  decimal_ascii _ _ := rfl

def sample_spec : PromptSpec :=
  ⟨"greet", 1, .FAST, "Greeting", "Says 'hello'.", by decide, Nat.one_pos, by decide, by decide⟩

def sample_body : List Char := "Hello, \x7b\x7b who \x7d\x7d.".toList

def sample_files : Files := fun path =>
  if path = "prompts/greet/v1.md" then some (dump sample_spec sample_body) else none

theorem sample_writable : Writable sample_spec sample_body where
  name := rfl
  version := by decide
  output_schema c hc :=
    Bool.not_eq_true' _ ▸ List.all_eq_true.mp (rfl : List.all _ (fun c => !breaks c) = true) c hc
  changelog c hc :=
    Bool.not_eq_true' _ ▸ List.all_eq_true.mp (rfl : List.all _ (fun c => !breaks c) = true) c hc
  body_ne := List.cons_ne_nil _ _
  body_lines c hc hbreak := by
    have hfree := List.all_eq_true.mp (rfl : sample_body.all (fun c => !breaks c) = true) c hc
    rw [hbreak] at hfree
    cases hfree
  body_first c hc := Option.some.inj hc ▸ rfl
  body_last c hc := Option.some.inj hc ▸ rfl

theorem load_dump_sample : load ascii "prompts" sample_files "greet" 1 = .ok (sample_spec, sample_body) :=
  load_dump sample_writable rfl

example : String.ofList (dump sample_spec sample_body) =
    "---\nname: greet\nversion: 1\ntier: fast\noutput_schema: " ++
    "\"Greeting\"\nchangelog: \"Says 'hello'.\"\n---\nHello, \x7b\x7b who \x7d\x7d.\n" := by decide

end GuardMem.Prompts
