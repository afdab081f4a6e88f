import GuardMem.Lib.Rfc8259
import GuardMem.Observability.AuditStore

/-! The `object_json` column: `json.dumps`, JSONB and `json.loads` on every value an object can hold.

    JSONB takes the literals of RFC 8259 and no others, and `json.dumps` writes three more. CORRECT: a
    value is stored exactly when `canonical_json` has a text for each of its scalars (`storable_iff`), and
    it comes back equal, in Python's sense, exactly when each of its doubles from `1e16` up is the number
    its shortest decimal names (`loads_eq_iff`). -/

namespace GuardMem

open Lib Lib.Json Audit

/-- `str | float | bool | dict[str, object]`, with every float there is. -/
inductive PyObject where
  | str (s : String)
  | float (x : PyFloat)
  | bool (b : Bool)
  | dict (kvs : Payload)

def PyObject.value : PyObject → Value
  | .str s => .leaf (.str s)
  | .float x => .leaf (.float x)
  | .bool b => .leaf (.bool b)
  | .dict kvs => kvs.value

/-! ### What is stored -/

/-- What `json.dumps` raises at a scalar. It writes `NaN`, `Infinity` and `-Infinity`. -/
def Scalar.undumpable : Scalar → Option Exc
  | .other type_name => some (.TypeError ("Object of type " ++ type_name ++ " is not JSON serializable"))
  | .int i => (Scalar.int i).refused
  | _ => none

/-- `json.dumps` raises nothing, and the column takes every literal of the text. -/
def Storable (v : Value) : Prop := v.All fun s => s.undumpable = none ∧ Rfc8259.Scalar s.text

/-- `json.dumps` into the column, and `json.loads` of the column's text. -/
def dumps_loads (v : Value) : Value := ((v.sortKeys jsonb_le).map to_jsonb).map loads_scalar

theorem hex_digitChar : ∀ n < 16, Rfc8259.Hex (Nat.digitChar n) := by
  intro n hn
  have hall : ∀ n < 16, (Nat.digitChar n).isDigit = true ∨
      Nat.digitChar n ∈ ['a', 'b', 'c', 'd', 'e', 'f', 'A', 'B', 'C', 'D', 'E', 'F'] := by
    decide
  exact hall n hn

theorem pieces_unicode_escape (n : ℕ) : Rfc8259.Pieces (unicode_escape n) := by
  have hex : ∀ m, Rfc8259.Hex (Nat.digitChar (m % 16)) := fun m => hex_digitChar _ (Nat.mod_lt m (by decide))
  exact Rfc8259.pieces_of_piece (.unit (hex _) (hex _) (hex _) (hex _))

theorem pieces_escape_char (c : Char) : Rfc8259.Pieces (escape_char c) := by
  unfold escape_char
  split
  · next d hd =>
      refine Rfc8259.pieces_of_piece (.escaped ?_)
      unfold ESCAPE_DCT at hd
      split_ifs at hd <;> obtain rfl := Option.some.inj hd <;> decide
  · next hd =>
      split_ifs with hplain
      · refine Rfc8259.pieces_of_piece (.unescaped hplain.1 ?_ ?_) <;> rintro rfl <;> cases hd
      · exact pieces_unicode_escape _
      · exact Rfc8259.pieces_append (pieces_unicode_escape _) (pieces_unicode_escape _)

/-- A string literal is one of RFC 8259's, whatever the string. -/
theorem scalar_quote (s : String) : Rfc8259.Scalar (quote s) := by
  refine .string ?_
  generalize s.toList = cs
  induction cs with
  | nil => exact .nil
  | cons c cs ih => exact List.flatMap_cons ▸ Rfc8259.pieces_append (pieces_escape_char c) ih

/-- The three literals that `json.dumps` adds to the grammar are not in it. -/
theorem not_scalar_nonfinite : ¬ Rfc8259.Scalar "NaN".toList ∧ ¬ Rfc8259.Scalar "Infinity".toList ∧
    ¬ Rfc8259.Scalar "-Infinity".toList := by
  have hhead : ∀ {c : Char} {cs : List Char}, Rfc8259.Scalar (c :: cs) → c ∈ ['n', 't', 'f', '"'] ∨
      c.isDigit = true ∨ c = '-' ∧ ∃ d ds, cs = d :: ds ∧ d.isDigit = true := by
    intro c cs h
    obtain ⟨c', cs', heq, hc⟩ := Rfc8259.scalar_head h
    obtain ⟨rfl, rfl⟩ := List.cons.inj heq
    exact hc
  refine ⟨fun h => ?_, fun h => ?_, fun h => ?_⟩
  · rcases hhead h with h | h | ⟨h, -⟩ <;> revert h <;> decide
  · rcases hhead h with h | h | ⟨h, -⟩ <;> revert h <;> decide
  · rcases hhead h with h | h | ⟨-, d, ds, hcs, hd⟩
    · revert h; decide
    · revert h; decide
    · obtain ⟨rfl, -⟩ := List.cons.inj hcs
      revert hd
      decide

theorem storable_scalar (s : Scalar) : (s.undumpable = none ∧ Rfc8259.Scalar s.text) ↔ s.Safe := by
  have hnumeral : ∀ {n}, s.numeral = some n → Rfc8259.Scalar s.text := fun h => by
    rw [text_of_numeral h]
    exact .number (Rfc8259.number_text _)
  cases s with
  | null => exact iff_of_true ⟨rfl, .null⟩ ⟨rfl, rfl⟩
  | bool b => cases b with
    | false => exact iff_of_true ⟨rfl, .false⟩ ⟨rfl, rfl⟩
    | true => exact iff_of_true ⟨rfl, .true⟩ ⟨rfl, rfl⟩
  | int i => exact ⟨fun h => ⟨rfl, h.1⟩, fun h => ⟨h.2, hnumeral rfl⟩⟩
  | str s => exact iff_of_true ⟨rfl, scalar_quote s⟩ ⟨rfl, rfl⟩
  | other t => exact iff_of_false (fun h => by cases h.1) fun h => by cases h.1
  | float x =>
      obtain ⟨hnan, hinf, hneg⟩ := not_scalar_nonfinite
      cases x with
      | finite x => exact iff_of_true ⟨rfl, hnumeral rfl⟩ ⟨rfl, rfl⟩
      | nan => exact iff_of_false (fun h => hnan h.2) fun h => by cases h.2
      | inf neg =>
          refine iff_of_false (fun h => ?_) fun h => by cases h.2
          cases neg with
          | false => exact hinf h.2
          | true => exact hneg h.2

/-- CORRECT: what the column takes is what `canonical_json` takes. -/
theorem storable_iff {v : Value} : Storable v ↔ v.All Scalar.Safe :=
  forall₂_congr fun s _ => storable_scalar s

instance (s : Scalar) : Decidable s.Safe := inferInstanceAs (Decidable (_ ∧ _))

instance (v : Value) : Decidable (Storable v) :=
  have : Decidable (v.All Scalar.Safe) := inferInstanceAs (Decidable (∀ s ∈ v.scalars, s.Safe))
  decidable_of_iff' _ storable_iff

/-! ### What comes back -/

/-- What `==` looks at in a scalar: `1`, `1.0` and `True` are one number. -/
inductive Compared where
  | null
  | number (q : ℚ)
  | inf (neg : Bool)
  | nan
  | str (s : String)
  | other (type_name : String)
  deriving DecidableEq

/-- The number a double is. -/
def signed (x : Binary64) : ℚ := if x.neg then -x.magnitude else x.magnitude

def Scalar.compared : Scalar → Compared
  | .null => .null
  | .bool b => .number (if b then 1 else 0)
  | .int i => .number i
  | .float (.finite x) => .number (signed x)
  | .float (.inf neg) => .inf neg
  | .float .nan => .nan
  | .str s => .str s
  | .other type_name => .other type_name

/-- `left == right`: dicts compare without order. -/
def PyEq (left right : Value) : Prop :=
  (left.map Scalar.compared).canon = (right.map Scalar.compared).canon

/-- From `1e16` up, where `repr` writes no fraction: the shortest decimal is the double itself. -/
def ExactRepr (x : Binary64) : Prop := 10 ^ 16 ≤ x.magnitude → x.repr.magnitude = x.magnitude

instance (x : Binary64) : Decidable (ExactRepr x) := inferInstanceAs (Decidable (_ → _))

/-- Zero comes back as a zero, whatever its sign. -/
theorem zero_compared {x : Binary64} (h : x.mant = 0) :
    (loads_scalar (to_jsonb (.float (.finite x)))).compared = .number 0 := by
  have hzero : (Numeral.mk x.neg 0 1 none).positional = ⟨false, 0, 1, none⟩ := by
    simp [Numeral.positional]
  have hnearest : Binary64.nearest false (Numeral.mk false 0 1 none).magnitude =
      some ⟨false, 0, -1074, by decide⟩ := by
    simp [Numeral.magnitude, Binary64.nearest, Binary64.make, Representable]
  rw [loads_numeral rfl, Binary64.repr_zero h, hzero, loads_scalar, if_neg (by decide), hnearest]
  simp [Scalar.compared, signed, Binary64.magnitude]

/-- From `1e16` up an integer comes back, the one that the shortest decimal names. -/
theorem big_compared {x : Binary64} (h : 10 ^ 16 ≤ x.magnitude) :
    (loads_scalar (to_jsonb (.float (.finite x)))).compared =
      .number (if x.neg then -x.repr.magnitude else x.repr.magnitude) := by
  have hmant : x.mant ≠ 0 := fun h0 => by
    rw [Binary64.magnitude_eq_zero.mpr h0] at h
    norm_num at h
  have hplaces := x.repr_positional_places.mpr h
  obtain ⟨-, -, -, -, hneg, -⟩ := Binary64.repr_spec hmant
  have hsign : x.repr.positional.neg = x.neg := by
    have hdigits := Binary64.repr_neg (x := x) fun _ => hmant
    rw [hneg] at hdigits
    cases hx : x.neg <;> simp_all [Numeral.positional]
  have hvalue : (x.repr.positional.mant : ℚ) = x.repr.magnitude := by
    rw [← Numeral.positional_magnitude, Numeral.magnitude, hplaces]
    simp [Numeral.positional]
  rw [loads_numeral rfl, loads_scalar, if_pos hplaces, hsign, Scalar.compared, ← hvalue]
  split <;> push_cast <;> rfl

/-- CORRECT: a double comes back as an equal number exactly when it is below `1e16` or its shortest
    decimal is exact. -/
theorem float_compared_iff (x : Binary64) :
    (loads_scalar (to_jsonb (.float (.finite x)))).compared = (Scalar.float (.finite x)).compared ↔
      ExactRepr x := by
  by_cases hbig : 10 ^ 16 ≤ x.magnitude
  · rw [big_compared hbig, Scalar.compared, signed, Compared.number.injEq, ExactRepr]
    split <;> simp [hbig]
  · refine iff_of_true ?_ fun h => absurd h hbig
    by_cases hzero : x.mant = 0
    · rw [zero_compared hzero, Scalar.compared, signed, Binary64.magnitude_eq_zero.mpr hzero]
      simp
    · rw [(float_survives_iff x).mpr ⟨not_le.mp hbig, fun h => hzero h.2⟩]

/-- CORRECT: the only scalars to come back as something else are the doubles that are not round. -/
theorem scalar_compared_iff {s : Scalar} (h : s.Safe) :
    (loads_scalar (to_jsonb s)).compared = s.compared ↔ ∀ x, s = .float (.finite x) → ExactRepr x := by
  cases s with
  | int i => exact iff_of_true (congrArg _ (int_survives i)) fun x hx => by cases hx
  | float x =>
      cases x with
      | finite x =>
          rw [float_compared_iff]
          exact ⟨fun hround y hy => by cases hy; exact hround, fun hall => hall x rfl⟩
      | inf neg => cases h.2
      | nan => cases h.2
  | null => exact iff_of_true rfl fun x hx => by cases hx
  | bool b => exact iff_of_true rfl fun x hx => by cases hx
  | str t => exact iff_of_true rfl fun x hx => by cases hx
  | other t => cases h.1

/-- CORRECT: what is stored comes back equal exactly when its doubles are round. -/
theorem dumps_loads_eq_iff {v : Value} (hdistinct : v.Distinct) (h : Storable v) :
    PyEq (dumps_loads v) v ↔ ∀ x, .float (.finite x) ∈ v.scalars → ExactRepr x := by
  have hmap : (dumps_loads v).map Scalar.compared =
      (v.map (Scalar.compared ∘ loads_scalar ∘ to_jsonb)).sortKeys jsonb_le := by
    rw [dumps_loads, map_comp, map_comp, map_sortKeys]
    rfl
  rw [PyEq, hmap, canon_sortKeys (distinct_map hdistinct), Tree.canon, Tree.canon, ← map_sortKeys,
    ← map_sortKeys, map_eq_map]
  have hperm := scalars_sortKeys (· ≤ ·) v
  constructor
  · intro hall x hx
    exact (float_compared_iff x).mp (hall _ (hperm.mem_iff.mpr hx))
  · intro hround s hs
    have hs := hperm.mem_iff.mp hs
    exact (scalar_compared_iff ((storable_scalar s).mp (h s hs))).mpr fun x hx => hround x (hx ▸ hs)

/-- The column takes the value, and gives back an equal one. -/
def ReadsBack (v : Value) : Prop := Storable v ∧ PyEq (dumps_loads v) v

theorem storable_leaf {s : Scalar} : Storable (.leaf s) ↔ s.Safe := by
  simp [storable_iff, Tree.All]

theorem reads_back_leaf {s : Scalar} : ReadsBack (.leaf s) ↔
    s.Safe ∧ ∀ x, s = .float (.finite x) → ExactRepr x := by
  rw [ReadsBack, ← storable_leaf]
  refine and_congr_right fun h => ?_
  rw [dumps_loads_eq_iff (distinct_leaf s) h]
  simp [eq_comm]

end GuardMem
