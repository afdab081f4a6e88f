import GuardMem.Lib.Binary64
import GuardMem.Lib.Json
import GuardMem.Lib.Sha256
import GuardMem.Schemas.Base

/-! An event's payload: `canonical_json`, and what the JSONB column gives back.

    CORRECT: the canonical text determines the payload up to the order of its dicts' entries
    (`canonical_json_inj`). -/

namespace GuardMem

open Lib Lib.Json

/-- A Python float. -/
inductive PyFloat where
  | finite (x : Binary64)
  | inf (neg : Bool)
  | nan
  deriving DecidableEq

/-- What stands at the leaves of a payload. `other` is any object that is not a JSON scalar. -/
inductive Scalar where
  | null
  | bool (b : Bool)
  | int (i : ℤ)
  | float (x : PyFloat)
  | str (s : String)
  | other (type_name : String)
  deriving DecidableEq

abbrev Value := Tree String Scalar

/-- `dict[str, object]`: a dict has one entry a key, at every level. -/
structure Payload where
  entries : List (String × Value)
  distinct : (Tree.obj entries).Distinct

def Payload.value (p : Payload) : Value := .obj p.entries

/-! ### `canonical_json` -/

mutual
/-- Refuse anything JSONB would not hand back unchanged, naming its path. -/
def reject_unserialisable : Value → String → Except Exc Unit
  | .leaf (.other type_name), path => .error (.TypeError
      (path ++ ": " ++ type_name ++ " is not JSON-safe. The digest is " ++
        "taken over canonical JSON and verified against what JSONB hands " ++
        "back, so a value that does not round-trip breaks every later link."))
  | .leaf _, _ => .ok ()
  | .arr xs, path => reject_items xs path 0
  | .obj kvs, path => reject_entries kvs path

def reject_items : List Value → String → ℕ → Except Exc Unit
  | [], _, _ => .ok ()
  | x :: xs, path, index =>
      match reject_unserialisable x (path ++ "[" ++ toString index ++ "]") with
      | .error exc => .error exc
      | .ok () => reject_items xs path (index + 1)

def reject_entries : List (String × Value) → String → Except Exc Unit
  | [], _ => .ok ()
  | (key, v) :: kvs, path =>
      match reject_unserialisable v (path ++ "." ++ key) with
      | .error exc => .error exc
      | .ok () => reject_entries kvs path
end

/-- What `json.dumps` raises at a scalar: `allow_nan=False`, and Python's limit on the digits of an
    integer. -/
def Scalar.refused : Scalar → Option Exc
  | .float (.finite _) => none
  | .float .nan => some (.ValueError "Out of range float values are not JSON compliant: nan")
  | .float (.inf neg) => some (.ValueError ("Out of range float values are not JSON compliant: " ++
      if neg then "-inf" else "inf"))
  | .int i => if 10 ^ 4300 ≤ i.natAbs then some (.ValueError ("Exceeds the limit (4300 digits) for " ++
      "integer string conversion; use sys.set_int_max_str_digits() to increase the limit")) else none
  | _ => none

/-- `\uXXXX`. -/
def unicode_escape (n : ℕ) : List Char :=
  ['\\', 'u', Nat.digitChar (n / 4096 % 16), Nat.digitChar (n / 256 % 16),
    Nat.digitChar (n / 16 % 16), Nat.digitChar (n % 16)]

/-- The escapes that have a letter. -/
def ESCAPE_DCT (c : Char) : Option Char :=
  if c = '\\' then some '\\' else if c = '"' then some '"' else if c = '\n' then some 'n'
  else if c = '\r' then some 'r' else if c = '\t' then some 't' else if c.toNat = 12 then some 'f'
  else if c.toNat = 8 then some 'b' else none

/-- One character under `ensure_ascii`; outside the basic plane it is a surrogate pair. -/
def escape_char (c : Char) : List Char :=
  match ESCAPE_DCT c with
  | some d => ['\\', d]
  | none =>
      if 32 ≤ c.toNat ∧ c.toNat ≤ 126 then [c]
      else if c.toNat < 0x10000 then unicode_escape c.toNat
      else unicode_escape (0xd800 + (c.toNat - 0x10000) / 1024) ++
        unicode_escape (0xdc00 + (c.toNat - 0x10000) % 1024)

/-- A string literal. -/
def quote (s : String) : List Char := '"' :: (s.toList.flatMap escape_char ++ ['"'])

/-- A scalar's text. -/
def Scalar.text : Scalar → List Char
  | .null => "null".toList
  | .bool true => "true".toList
  | .bool false => "false".toList
  | .int i => (Numeral.ofInt i).text
  | .float (.finite x) => x.repr.text
  | .float (.inf neg) => if neg then "-Infinity".toList else "Infinity".toList
  | .float .nan => "NaN".toList
  | .str s => quote s
  | .other _ => []

/-- Serialise a payload to the one form its digest is taken over. -/
def canonical_json (payload : Payload) : Except Exc String :=
  match reject_unserialisable payload.value "payload" with
  | .error exc => .error exc
  | .ok () =>
      match payload.value.canon.scalars.findSome? Scalar.refused with
      | some exc => .error exc
      | none => .ok (String.ofList (payload.value.canon.print Scalar.text quote))

/-! ### What is accepted -/

def Scalar.isOther : Scalar → Bool
  | .other _ => true
  | _ => false

/-- A scalar `canonical_json` has a text for. -/
def Scalar.Safe (s : Scalar) : Prop := s.isOther = false ∧ s.refused = none

theorem reject_items_ok {xs : List Value}
    (h : ∀ x ∈ xs, ∀ path, reject_unserialisable x path = .ok () ↔ x.All fun s => s.isOther = false) :
    ∀ path index, reject_items xs path index = .ok () ↔ ∀ x ∈ xs, x.All fun s => s.isOther = false := by
  induction xs with
  | nil => simp [reject_items]
  | cons x xs ih =>
      intro path index
      rw [reject_items, List.forall_mem_cons]
      generalize path ++ "[" ++ toString index ++ "]" = q
      rw [← h x List.mem_cons_self q,
        ← ih (fun y hy => h y (List.mem_cons_of_mem _ hy)) path (index + 1)]
      split
      · next heq => simp [heq]
      · next heq => simp [heq]

theorem reject_entries_ok {kvs : List (String × Value)}
    (h : ∀ kv ∈ kvs, ∀ path,
      reject_unserialisable kv.2 path = .ok () ↔ kv.2.All fun s => s.isOther = false) :
    ∀ path, reject_entries kvs path = .ok () ↔ ∀ kv ∈ kvs, kv.2.All fun s => s.isOther = false := by
  induction kvs with
  | nil => simp [reject_entries]
  | cons kv kvs ih =>
      intro path
      rw [reject_entries, List.forall_mem_cons, ← h kv List.mem_cons_self (path ++ "." ++ kv.1),
        ← ih (fun y hy => h y (List.mem_cons_of_mem _ hy)) path]
      split
      · next heq => simp [heq]
      · next heq => simp [heq]

/-- CORRECT: what is refused is an object that is not a JSON scalar, at whatever depth. -/
theorem reject_unserialisable_ok (v : Value) :
    ∀ path, reject_unserialisable v path = .ok () ↔ v.All fun s => s.isOther = false := by
  induction v using Tree.induction with
  | leaf s =>
      intro path
      cases s <;> simp [reject_unserialisable, Tree.All, Scalar.isOther]
  | arr xs ih =>
      intro path
      rw [reject_unserialisable, reject_items_ok ih, all_arr]
  | obj kvs ih =>
      intro path
      rw [reject_unserialisable, reject_entries_ok ih, all_obj]

theorem all_canon {good : Scalar → Prop} {v : Value} : v.canon.All good ↔ v.All good := by
  have hperm := scalars_sortKeys (· ≤ ·) v
  exact ⟨fun h s hs => h s (hperm.mem_iff.mpr hs), fun h s hs => h s (hperm.mem_iff.mp hs)⟩

/-- CORRECT: a payload has a canonical text exactly when each of its scalars has one. -/
theorem canonical_json_ok {p : Payload} {text : String} : canonical_json p = .ok text ↔
    p.value.All Scalar.Safe ∧ text = String.ofList (p.value.canon.print Scalar.text quote) := by
  have hsafe : p.value.All Scalar.Safe ↔ (p.value.All fun s => s.isOther = false) ∧
      p.value.canon.scalars.findSome? Scalar.refused = none := by
    rw [List.findSome?_eq_none_iff, ← Tree.All.eq_def (fun s => Scalar.refused s = none),
      all_canon]
    exact ⟨fun h => ⟨fun s hs => (h s hs).1, fun s hs => (h s hs).2⟩,
      fun h s hs => ⟨h.1 s hs, h.2 s hs⟩⟩
  rw [hsafe]
  unfold canonical_json
  split
  · next exc heq =>
      have hbad : ¬ p.value.All fun s => s.isOther = false := fun hall => by
        rw [(reject_unserialisable_ok p.value "payload").mpr hall] at heq
        cases heq
      simp [hbad]
  · next heq =>
      have hgood := (reject_unserialisable_ok p.value "payload").mp heq
      split
      · next exc hexc =>
          rw [hexc]
          exact ⟨fun h => (by cases h), fun h => (by cases h.1.2)⟩
      · next hnone =>
          rw [hnone, Except.ok.injEq]
          exact ⟨fun h => ⟨⟨hgood, rfl⟩, h.symm⟩, fun h => h.2.symm⟩

/-! ### The text determines the payload -/

/-- Four hexadecimal digits. -/
def hex4 : List Char → Option (ℕ × List Char)
  | a :: b :: c :: d :: rest => do
      let a ← Sha256.hexValue a
      let b ← Sha256.hexValue b
      let c ← Sha256.hexValue c
      let d ← Sha256.hexValue d
      return (4096 * a + 256 * b + 16 * c + d, rest)
  | _ => none

/-- The code point a text starts with, as a reader of string literals takes it. -/
def unescape : List Char → Option (ℕ × List Char)
  | '\\' :: 'u' :: rest => do
      let (hi, rest) ← hex4 rest
      if 0xd800 ≤ hi ∧ hi < 0xdc00 then
        match rest with
        | _ :: _ :: rest => do
            let (lo, rest) ← hex4 rest
            return (0x10000 + 1024 * (hi - 0xd800) + (lo - 0xdc00), rest)
        | _ => none
      else return (hi, rest)
  | '\\' :: d :: rest =>
      if d = 'n' then some (10, rest) else if d = 'r' then some (13, rest)
      else if d = 't' then some (9, rest) else if d = 'f' then some (12, rest)
      else if d = 'b' then some (8, rest) else some (d.toNat, rest)
  | c :: rest => some (c.toNat, rest)
  | [] => none

theorem hex4_escape {n : ℕ} (hn : n < 0x10000) (r : List Char) :
    hex4 ((unicode_escape n).drop 2 ++ r) = some (n, r) := by
  have hdigit : ∀ m < 16, Sha256.hexValue (Nat.digitChar m) = some m := fun m hm =>
    (Sha256.hexValue_digitChar m hm).1
  have hsum : 4096 * (n / 4096 % 16) + 256 * (n / 256 % 16) + 16 * (n / 16 % 16) + n % 16 = n := by
    omega
  simp only [unicode_escape, List.drop_succ_cons, List.drop_zero, List.cons_append, List.nil_append,
    hex4, hdigit _ (Nat.mod_lt _ (by decide : 16 > 0))]
  exact congrArg (fun m => some (m, r)) hsum

theorem unescape_plain {c : Char} (h : c ≠ '\\') (r : List Char) :
    unescape (c :: r) = some (c.toNat, r) := by
  unfold unescape
  split <;> simp_all

/-- A code unit outside the high surrogates stands for itself. -/
theorem unescape_unit {n : ℕ} (hn : n < 0x10000) (hs : ¬ (0xd800 ≤ n ∧ n < 0xdc00)) (r : List Char) :
    unescape (unicode_escape n ++ r) = some (n, r) := by
  have h : unicode_escape n ++ r = '\\' :: 'u' :: ((unicode_escape n).drop 2 ++ r) := rfl
  rw [h, unescape, hex4_escape hn]
  exact if_neg hs

/-- A surrogate pair stands for the code point it was made from. -/
theorem unescape_pair {hi lo : ℕ} (hhi : 0xd800 ≤ hi ∧ hi < 0xdc00) (hlo : lo < 0x10000)
    (r : List Char) : unescape (unicode_escape hi ++ unicode_escape lo ++ r) =
      some (0x10000 + 1024 * (hi - 0xd800) + (lo - 0xdc00), r) := by
  have h : unicode_escape hi ++ unicode_escape lo ++ r =
      '\\' :: 'u' :: ((unicode_escape hi).drop 2 ++ ('\\' :: 'u' ::
        ((unicode_escape lo).drop 2 ++ r))) := rfl
  rw [h, unescape, hex4_escape (by omega)]
  simp only [Option.bind_eq_bind, Option.bind_some, if_pos hhi, hex4_escape hlo]
  rfl

/-- A character is no surrogate. -/
theorem toNat_valid (c : Char) : c.toNat < 0xd800 ∨ 0xdfff < c.toNat ∧ c.toNat < 0x110000 := c.valid

/-- What was escaped is read back. -/
theorem unescape_escape_char (c : Char) (r : List Char) :
    unescape (escape_char c ++ r) = some (c.toNat, r) := by
  unfold escape_char
  split
  · next d hd =>
      unfold ESCAPE_DCT at hd
      split_ifs at hd with h1 h2 h3 h4 h5 h6 h7 <;> obtain rfl := Option.some.inj hd
      · rw [h1]; rfl
      · rw [h2]; rfl
      · rw [h3]; rfl
      · rw [h4]; rfl
      · rw [h5]; rfl
      · rw [h6]; rfl
      · rw [h7]; rfl
  · next hd =>
      have hslash : c ≠ '\\' := by
        rintro rfl
        cases hd
      split_ifs with hplain hbmp
      · exact unescape_plain hslash r
      · refine unescape_unit hbmp (fun hs => ?_) r
        have hvalid := toNat_valid c
        omega
      · have hvalid := toNat_valid c
        refine (unescape_pair ⟨?_, ?_⟩ ?_ r).trans ?_
        · omega
        · omega
        · omega
        · rw [Option.some.injEq, Prod.mk.injEq]
          exact ⟨by omega, rfl⟩

/-- The escapes are a prefix code. -/
theorem escape_char_append {c d : Char} {r r' : List Char}
    (h : escape_char c ++ r = escape_char d ++ r') : c = d ∧ r = r' := by
  have heq := congrArg unescape h
  rw [unescape_escape_char, unescape_escape_char, Option.some.injEq, Prod.mk.injEq] at heq
  exact ⟨Char.toNat_inj.mp heq.1, heq.2⟩

/-- No escape starts with the closing quote. -/
theorem escape_char_head (c : Char) : ∃ d ds, escape_char c = d :: ds ∧ d ≠ '"' := by
  unfold escape_char
  split
  · exact ⟨'\\', _, rfl, by decide⟩
  · next hd =>
      split_ifs
      · refine ⟨c, [], rfl, ?_⟩
        rintro rfl
        cases hd
      · exact ⟨'\\', _, rfl, by decide⟩
      · exact ⟨'\\', _, rfl, by decide⟩

theorem escaped_inj : ∀ {cs ds : List Char} {r r' : List Char},
    cs.flatMap escape_char ++ '"' :: r = ds.flatMap escape_char ++ '"' :: r' → cs = ds ∧ r = r'
  | [], [], _, _, h => ⟨rfl, List.tail_eq_of_cons_eq h⟩
  | [], d :: ds, _, _, h => by
      obtain ⟨e, es, he, hq⟩ := escape_char_head d
      rw [List.flatMap_cons, he] at h
      exact absurd (List.head_eq_of_cons_eq h).symm hq
  | c :: cs, [], _, _, h => by
      obtain ⟨e, es, he, hq⟩ := escape_char_head c
      rw [List.flatMap_cons, he] at h
      exact absurd (List.head_eq_of_cons_eq h) hq
  | c :: cs, d :: ds, _, _, h => by
      rw [List.flatMap_cons, List.flatMap_cons, List.append_assoc, List.append_assoc] at h
      obtain ⟨rfl, hrest⟩ := escape_char_append h
      obtain ⟨rfl, rfl⟩ := escaped_inj hrest
      exact ⟨rfl, rfl⟩

/-- A literal determines the string, and where it ends. -/
theorem quote_inj {s t : String} {r r' : List Char} (h : quote s ++ r = quote t ++ r') :
    s = t ∧ r = r' := by
  simp only [quote, List.cons_append, List.append_assoc, List.cons.injEq, true_and,
    List.nil_append] at h
  obtain ⟨hst, rfl⟩ := escaped_inj h
  exact ⟨String.toList_injective hst, rfl⟩

/-- The numeral a number is written as. -/
def Scalar.numeral : Scalar → Option Numeral
  | .int i => some (.ofInt i)
  | .float (.finite x) => some x.repr
  | _ => none

variable {s s' : Scalar} {n n' : Numeral}

theorem text_of_numeral (h : s.numeral = some n) : s.text = n.text := by
  unfold Scalar.numeral at h
  split at h
  · rw [← Option.some.inj h]; rfl
  · rw [← Option.some.inj h]; rfl
  · cases h

/-- The text of an integer has no fraction and the text of a double has. -/
theorem numeral_inj (h : s.numeral = some n) (h' : s'.numeral = some n) : s = s' := by
  have hint : ∀ (i : ℤ) (x : Binary64), Numeral.ofInt i ≠ x.repr := by
    intro i x heq
    have hpos := x.repr_fractional
    rw [← heq] at hpos
    exact absurd (hpos rfl) (lt_irrefl 0)
  cases s with
  | int i =>
      cases s' with
      | int j => rw [Numeral.ofInt_inj (Option.some.inj (h.trans h'.symm))]
      | float y =>
          cases y with
          | finite y => exact absurd (Option.some.inj (h.trans h'.symm)) (hint i y)
          | _ => cases h'
      | _ => cases h'
  | float x =>
      cases x with
      | finite x =>
          cases s' with
          | int j => exact absurd (Option.some.inj (h'.trans h.symm)) (hint j x)
          | float y =>
              cases y with
              | finite y => rw [Binary64.repr_injective (Option.some.inj (h.trans h'.symm))]
              | _ => cases h'
          | _ => cases h'
      | _ => cases h
  | _ => cases h

theorem safe_cases (h : s.Safe) :
    s = .null ∨ s = .bool true ∨ s = .bool false ∨ (∃ t, s = .str t) ∨ ∃ n, s.numeral = some n := by
  cases s with
  | null => simp
  | bool b => cases b <;> simp
  | int i => exact Or.inr (Or.inr (Or.inr (Or.inr ⟨_, rfl⟩)))
  | float x =>
      cases x with
      | finite x => exact Or.inr (Or.inr (Or.inr (Or.inr ⟨_, rfl⟩)))
      | inf neg => exact absurd h.2 (by simp [Scalar.refused])
      | nan => exact absurd h.2 (by simp [Scalar.refused])
  | str t => simp
  | other t => exact absurd h.1 (by simp [Scalar.isOther])

/-- What the text of a scalar of this kind starts with. -/
def Scalar.marks : Scalar → Char → Bool
  | .null, c => c == 'n'
  | .bool true, c => c == 't'
  | .bool false, c => c == 'f'
  | .str _, c => c == '"'
  | _, c => c == '-' || c.isDigit

theorem numeral_marks (h : s.numeral = some n) (c : Char) : s.marks c = (c == '-' || c.isDigit) := by
  unfold Scalar.numeral at h
  split at h
  · rfl
  · rfl
  · cases h

theorem text_head (h : s.Safe) : ∃ c cs, s.text = c :: cs ∧ s.marks c = true := by
  rcases safe_cases h with rfl | rfl | rfl | ⟨t, rfl⟩ | ⟨n, hn⟩
  · exact ⟨'n', _, rfl, rfl⟩
  · exact ⟨'t', _, rfl, rfl⟩
  · exact ⟨'f', _, rfl, rfl⟩
  · exact ⟨'"', _, rfl, rfl⟩
  · obtain ⟨c, cs, hc, hd⟩ := n.text_head
    refine ⟨c, cs, (text_of_numeral hn).trans hc, ?_⟩
    rw [numeral_marks hn, Bool.or_eq_true]
    exact hd.imp_left beq_iff_eq.mpr

/-- A first character tells two kinds of scalars apart. -/
theorem marks_told (h : s.Safe) (h' : s'.Safe) {c : Char} (hc : s.marks c = true)
    (hc' : s'.marks c = true) : s = s' ∨ (∃ t t', s = .str t ∧ s' = .str t') ∨
      ∃ n n', s.numeral = some n ∧ s'.numeral = some n' := by
  have hno : ∀ d, d ∈ ['n', 't', 'f', '"'] → (d == '-' || d.isDigit) = false := by
    intro d hd
    simp only [List.mem_cons, List.not_mem_nil, or_false] at hd
    rcases hd with rfl | rfl | rfl | rfl <;> rfl
  rcases safe_cases h with rfl | rfl | rfl | ⟨t, rfl⟩ | ⟨n, hn⟩ <;>
    rcases safe_cases h' with rfl | rfl | rfl | ⟨t', rfl⟩ | ⟨n', hn'⟩ <;>
    (try rw [numeral_marks hn] at hc) <;> (try rw [numeral_marks hn'] at hc')
  all_goals first
    | exact Or.inl rfl
    | exact Or.inr (Or.inl ⟨_, _, rfl, rfl⟩)
    | exact Or.inr (Or.inr ⟨_, _, hn, hn'⟩)
    | (simp only [Scalar.marks, beq_iff_eq] at hc hc'; subst hc; simp at hc')
    | (simp only [Scalar.marks, beq_iff_eq] at hc'; subst hc'; simp at hc)

theorem ends_of_stops {r : List Char} (h : Stops r) : Numeral.Ends r := by
  intro c hc
  have hmem := h c hc
  revert c
  simp only [List.mem_cons, List.not_mem_nil, or_false]
  rintro c - (rfl | rfl | rfl) <;> decide

/-- CORRECT: JSON text is legible: its scalars and keys tell themselves apart. -/
theorem legible : Legible Scalar.Safe Scalar.text quote where
  scalar_told := by
    intro s hs s' r r' hs' h hr hr'
    obtain ⟨c, cs, hc, hm⟩ := text_head hs
    obtain ⟨c', cs', hc', hm'⟩ := text_head hs'
    have hcc : c = c' := by
      rw [hc, hc'] at h
      exact List.head_eq_of_cons_eq h
    subst hcc
    rcases marks_told hs hs' hm hm' with rfl | ⟨t, t', rfl, rfl⟩ | ⟨n, n', hn, hn'⟩
    · exact ⟨rfl, List.append_cancel_left h⟩
    · obtain ⟨rfl, rfl⟩ := quote_inj h
      exact ⟨rfl, rfl⟩
    · rw [text_of_numeral hn, text_of_numeral hn'] at h
      obtain ⟨rfl, rfl⟩ := Numeral.text_inj (ends_of_stops hr) (ends_of_stops hr') h
      exact ⟨numeral_inj hn hn', rfl⟩
  scalar_head := by
    intro s hs
    obtain ⟨c, cs, hc, hm⟩ := text_head hs
    refine ⟨c, cs, hc, fun hmem => ?_⟩
    rcases safe_cases hs with rfl | rfl | rfl | ⟨t, rfl⟩ | ⟨n, hn⟩
    all_goals
      try rw [numeral_marks hn] at hm
      simp only [List.mem_cons, List.not_mem_nil, or_false] at hmem
      rcases hmem with rfl | rfl | rfl <;> simp [Scalar.marks] at hm
  key_told := fun _ _ _ _ => quote_inj
  key_head := fun k => ⟨'"', _, rfl, by decide⟩

/-- Equal up to the order of the entries of each dict. -/
def Payload.Same (p q : Payload) : Prop := p.value.canon = q.value.canon

/-- CORRECT: two payloads have one canonical text exactly when they are the same JSON value. -/
theorem canonical_json_inj {p q : Payload} {t : String} (hp : canonical_json p = .ok t) :
    canonical_json q = .ok t ↔ q.value.All Scalar.Safe ∧ p.Same q := by
  obtain ⟨hsafe, rfl⟩ := canonical_json_ok.mp hp
  rw [canonical_json_ok]
  refine and_congr_right fun hq => ?_
  constructor
  · intro h
    have htext : p.value.canon.print Scalar.text quote ++ [] =
        q.value.canon.print Scalar.text quote ++ [] := by
      rw [List.append_nil, List.append_nil]
      exact String.ofList_injective h
    exact (print_inj legible _ (all_canon.mpr hsafe) _ _ _ (all_canon.mpr hq) htext
      (by simp [Stops]) (by simp [Stops])).1
  · intro h
    rw [Payload.Same] at h
    rw [h]

/-- Next to a payload that has a text, the payloads with that text are the same JSON value. -/
theorem canonical_json_same {p q : Payload} {text : String} (h : canonical_json p = .ok text) :
    canonical_json q = .ok text ↔ p.Same q := by
  rw [canonical_json_inj h]
  refine and_iff_right_of_imp fun hsame => ?_
  have hsafe := (canonical_json_ok.mp h).1
  rw [← all_canon] at hsafe ⊢
  rwa [← hsame]

end GuardMem
