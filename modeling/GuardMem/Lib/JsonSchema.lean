import GuardMem.Lib.Json
import GuardMem.Lib.Urllib
import Mathlib.Data.Rat.Lemmas

/-! What a JSON Schema accepts, for the keywords that only ever ask for more: types, properties, items,
    `anyOf`, `allOf`, references into `$defs`, `enum` and `const`, and bounds on numbers, lengths and
    counts.

    CORRECT: a rewriting that drops some of the bounds and rewrites the rest in place only relaxes
    (`Drops.relaxes`), and whatever it newly accepts violates a dropped bound somewhere (`Drops.only`). -/

namespace Lib.JsonSchema

open Json (Tree)

/-! ### Values -/

/-- A scalar, with the integers apart from the other numbers as a parser keeps them. -/
inductive Atom where
  | null
  | bool (b : Bool)
  | int (n : ℤ)
  | real (q : ℚ)
  | str (s : String)
  deriving DecidableEq

abbrev Value := Tree String Atom
abbrev Entries := List (String × Value)

def Atom.number : Atom → Option ℚ
  | .int n => some n
  | .real q => some q
  | _ => none

/-- Equality of scalars: of numbers by their value. -/
def Atom.same (a b : Atom) : Bool :=
  match a.number, b.number with
  | some x, some y => x == y
  | _, _ => a == b

mutual
/-- Equality of values; the order of an object's entries is no part of it. -/
def same : Value → Value → Bool
  | .leaf a, .leaf b => a.same b
  | .arr xs, .arr ys => sameArr xs ys
  | .obj kvs, .obj other => kvs.length == other.length && sameObj kvs other
  | _, _ => false

def sameArr : List Value → List Value → Bool
  | [], [] => true
  | x :: xs, y :: ys => same x y && sameArr xs ys
  | _, _ => false

def sameObj : Entries → Entries → Bool
  | [], _ => true
  | (k, v) :: kvs, other => (other.lookup k).elim false (same v) && sameObj kvs other
end

theorem sameArr_iff {xs ys : List Value} :
    sameArr xs ys = true ↔ List.Forall₂ (same · · = true) xs ys := by
  induction xs generalizing ys with
  | nil => cases ys <;> simp [sameArr]
  | cons x xs ih => cases ys <;> simp [sameArr, ih]

theorem sameObj_iff {kvs other : Entries} : sameObj kvs other = true ↔
    ∀ kv ∈ kvs, ∃ w, other.lookup kv.1 = some w ∧ same kv.2 w = true := by
  induction kvs with
  | nil => simp [sameObj]
  | cons kv kvs ih =>
      obtain ⟨k, v⟩ := kv
      rw [sameObj, Bool.and_eq_true, ih, List.forall_mem_cons]
      cases other.lookup k <;> simp

/-- An object has the value of an entry under the entry's key. -/
theorem lookup_of_mem {kvs : Entries} {k : String} {v : Value} (hkeys : (kvs.map Prod.fst).Nodup)
    (h : (k, v) ∈ kvs) : kvs.lookup k = some v := by
  induction kvs with
  | nil => cases h
  | cons kv kvs ih => grind

theorem mem_of_lookup {kvs : Entries} {k : String} {v : Value} (h : kvs.lookup k = some v) :
    (k, v) ∈ kvs := by
  obtain ⟨front, back, rfl, -⟩ := List.lookup_eq_some_iff.mp h
  simp

theorem lookup_map (f : Value → Value) (kvs : Entries) (k : String) :
    (kvs.map fun kv => (kv.1, f kv.2)).lookup k = (kvs.lookup k).map f := by
  induction kvs with
  | nil => rfl
  | cons kv kvs ih => grind

theorem Atom.same_self (a : Atom) : a.same a = true := by
  cases a <;> simp [Atom.same, Atom.number]

theorem same_refl {x : Value} (h : x.Distinct) : same x x = true := by
  induction x using Tree.induction with
  | leaf s => exact s.same_self
  | arr xs ih =>
      rw [same, sameArr_iff, List.forall₂_same]
      exact fun x hx => ih x hx (Json.distinct_arr.mp h x hx)
  | obj kvs ih =>
      obtain ⟨hkeys, hvalues⟩ := Json.distinct_obj.mp h
      rw [same, Bool.and_eq_true, sameObj_iff]
      refine ⟨by simp, fun kv hkv => ⟨kv.2, lookup_of_mem hkeys hkv, ih kv hkv (hvalues kv hkv)⟩⟩

/-! ### Keywords -/

/-- The bounds on a number. -/
inductive Bound where
  | minimum
  | maximum
  | exclusiveMinimum
  | exclusiveMaximum
  | multipleOf
  deriving DecidableEq

/-- The bounds on the length of a string or the number of an array's items. -/
inductive Size where
  | maxItems
  | maxLength
  | minItems
  | minLength
  deriving DecidableEq

inductive Keyword where
  | type
  | properties
  | required
  | additionalProperties
  | items
  | anyOf
  | allOf
  | ref
  | defs
  | enum
  | const
  | bound (b : Bound)
  | size (s : Size)
  deriving DecidableEq

/-- Any other name is an annotation. -/
def Keyword.ofName : String → Option Keyword
  | "type" => some .type
  | "properties" => some .properties
  | "required" => some .required
  | "additionalProperties" => some .additionalProperties
  | "items" => some .items
  | "anyOf" => some .anyOf
  | "allOf" => some .allOf
  | "$ref" => some .ref
  | "$defs" => some .defs
  | "enum" => some .enum
  | "const" => some .const
  | "minimum" => some (.bound .minimum)
  | "maximum" => some (.bound .maximum)
  | "exclusiveMinimum" => some (.bound .exclusiveMinimum)
  | "exclusiveMaximum" => some (.bound .exclusiveMaximum)
  | "multipleOf" => some (.bound .multipleOf)
  | "maxItems" => some (.size .maxItems)
  | "maxLength" => some (.size .maxLength)
  | "minItems" => some (.size .minItems)
  | "minLength" => some (.size .minLength)
  | _ => none

def Bound.holds : Bound → ℚ → ℚ → Bool
  | .minimum, limit, x => limit ≤ x
  | .maximum, limit, x => x ≤ limit
  | .exclusiveMinimum, limit, x => limit < x
  | .exclusiveMaximum, limit, x => x < limit
  | .multipleOf, limit, x => (x / limit).isInt

/-- What is counted, if the value is of the kind the bound is about. -/
def Size.count : Size → Value → Option ℕ
  | .maxItems, .arr xs | .minItems, .arr xs => some xs.length
  | .maxLength, .leaf (.str s) | .minLength, .leaf (.str s) => some s.length
  | _, _ => none

def Size.holds : Size → ℚ → ℕ → Bool
  | .maxItems, limit, n | .maxLength, limit, n => n ≤ limit
  | .minItems, limit, n | .minLength, limit, n => limit ≤ n

def hasType : String → Value → Bool
  | "null", .leaf .null => true
  | "boolean", .leaf (.bool _) => true
  | "integer", .leaf (.int _) => true
  | "integer", .leaf (.real q) => q.isInt
  | "number", .leaf (.int _) => true
  | "number", .leaf (.real _) => true
  | "string", .leaf (.str _) => true
  | "array", .arr _ => true
  | "object", .obj _ => true
  | _, _ => false

/-- What a keyword asks of the value itself. -/
def asserts : Keyword → Value → Value → Bool
  | .type, .leaf (.str name), v => hasType name v
  | .type, .arr names, v => names.any fun
      | .leaf (.str name) => hasType name v
      | _ => false
  | .required, .arr names, .obj vs => names.all fun
      | .leaf (.str name) => vs.any (·.1 == name)
      | _ => false
  | .enum, .arr xs, v => xs.any (same · v)
  | .const, x, v => same x v
  | .bound b, .leaf limit, .leaf x => (limit.number.bind fun q => x.number.map (b.holds q)).getD true
  | .size b, .leaf limit, v => (limit.number.bind fun q => (b.count v).map (b.holds q)).getD true
  | _, _, _ => true

/-! ### Acceptance -/

/-- `~1` and `~0` of a JSON pointer. -/
def unescape : List Char → List Char
  | '~' :: '1' :: rest => '/' :: unescape rest
  | '~' :: '0' :: rest => '~' :: unescape rest
  | c :: rest => c :: unescape rest
  | [] => []

/-- The definition that a reference `#/$defs/<name>` names; there is no pointer further into one. -/
def target (ref : String) : Option String := do
  let pointer ← ref.toList.dropPrefix? "#/$defs/".toList
  let name := Urllib.unquote pointer
  if '/' ∈ name then none else some (String.ofList (unescape name))

/-- A reference resolved in its document. -/
def resolve (document : Value) (ref : String) : Option Value :=
  match document with
  | .obj kvs =>
      match kvs.lookup "$defs" with
      | some (.obj defs) => (target ref).bind fun name => defs.lookup name
      | _ => none
  | _ => none

/-- The names the schema gives properties for. -/
def named (kvs : Entries) : List String :=
  match kvs.lookup "properties" with
  | some (.obj ps) => ps.map Prod.fst
  | _ => []

/-- The parts of a value that a keyword is about, each with the schema it applies there; `kvs` are the
    keywords beside it. -/
def visits (document : Value) (kvs : Entries) : Keyword → Value → Value → List (Value × Value)
  | .properties, .obj ps, .obj vs => vs.filterMap fun v => (ps.lookup v.1).map (·, v.2)
  | .additionalProperties, s, .obj vs => (vs.filter (·.1 ∉ named kvs)).map fun v => (s, v.2)
  | .items, s, .arr xs => xs.map (s, ·)
  | .anyOf, .arr ss, v => ss.map (·, v)
  | .allOf, .arr ss, v => ss.map (·, v)
  | .ref, .leaf (.str r), v => (resolve document r).toList.map (·, v)
  | _, _, _ => []

/-- Whether one of the parts has to be accepted rather than all: `anyOf`, and `$ref`, which accepts
    nothing where it does not resolve. -/
def Keyword.disjunctive (kw : Keyword) : Bool := kw = .anyOf || kw = .ref

/-- A keyword's verdict, given the verdicts on the parts. -/
def judges (document : Value) (kvs : Entries) (child : Value → Value → Bool) (kw : Keyword)
    (arg v : Value) : Bool :=
  asserts kw arg v &&
    if kw.disjunctive then (visits document kvs kw arg v).any fun p => child p.1 p.2
    else (visits document kvs kw arg v).all fun p => child p.1 p.2

/-- Acceptance by derivations of bounded height: a reference that only leads back to itself accepts
    nothing. -/
def acceptsWithin (document : Value) : ℕ → Value → Value → Bool
  | 0, _, _ => false
  | _ + 1, .leaf (.bool b), _ => b
  | n + 1, .obj kvs, v => kvs.all fun kv =>
      (Keyword.ofName kv.1).all fun kw => judges document kvs (acceptsWithin document n) kw kv.2 v
  | _ + 1, _, _ => false

theorem acceptsWithin_obj {document v : Value} {n : ℕ} {kvs : Entries} :
    acceptsWithin document (n + 1) (.obj kvs) v = true ↔ ∀ name arg kw, (name, arg) ∈ kvs →
      Keyword.ofName name = some kw → judges document kvs (acceptsWithin document n) kw arg v = true := by
  rw [acceptsWithin, List.all_eq_true]
  constructor
  · intro h name arg kw hmem hkw
    simpa [hkw] using h (name, arg) hmem
  · intro h kv hmem
    cases hkw : Keyword.ofName kv.1 with
    | none => rfl
    | some kw => exact h kv.1 kv.2 kw hmem hkw

theorem acceptsWithin_leaf {document document' v : Value} {n : ℕ} {a : Atom} :
    acceptsWithin document (n + 1) (.leaf a) v = acceptsWithin document' (n + 1) (.leaf a) v := by
  cases a <;> rfl

/-- The schema of a document accepts the value. -/
def Accepts (document v : Value) : Prop := ∃ n, acceptsWithin document n document v = true

/-- The value, or a part of it, does not keep one of the bounds dropped from the schema that applies
    there. -/
inductive Violates (document : Value) (dropped : String → Value → Bool) : Value → Value → Prop
  | here {kvs : Entries} {name : String} {arg v : Value} {b : Size} : (name, arg) ∈ kvs →
      dropped name arg = true → Keyword.ofName name = some (.size b) → asserts (.size b) arg v = false →
      Violates document dropped (.obj kvs) v
  | inside {kvs : Entries} {name : String} {arg v s w : Value} {kw : Keyword} : (name, arg) ∈ kvs →
      Keyword.ofName name = some kw → (s, w) ∈ visits document kvs kw arg v →
      Violates document dropped s w → Violates document dropped (.obj kvs) v

/-! ### Well-formed schemas -/

/-- The schemas a keyword is given. -/
def subschemas : Keyword → Value → List Value
  | .properties, .obj ps => ps.map Prod.snd
  | .defs, .obj ps => ps.map Prod.snd
  | .anyOf, .arr ss => ss
  | .allOf, .arr ss => ss
  | .items, s => [s]
  | .additionalProperties, s => [s]
  | _, _ => []

/-- The rest of what a keyword is given is of the right form, and the values of `enum` and `const` are
    literals of a kind. -/
def Shape (Literal : Value → Prop) : Keyword → Value → Prop
  | .type, .leaf a => ∃ name, a = .str name
  | .type, .arr names => ∀ x ∈ names, ∃ name, x = .leaf (.str name)
  | .required, .arr names => ∀ x ∈ names, ∃ name, x = .leaf (.str name)
  | .properties, .obj _ => True
  | .defs, .obj _ => True
  | .anyOf, .arr _ => True
  | .allOf, .arr _ => True
  | .items, _ => True
  | .additionalProperties, _ => True
  | .ref, .leaf a => ∃ r, a = .str r
  | .enum, .arr xs => ∀ x ∈ xs, x.Distinct ∧ Literal x
  | .const, x => x.Distinct ∧ Literal x
  | .bound _, .leaf a => a.number.isSome
  | .size _, .leaf a => a.number.isSome
  | _, _ => False

/-- A schema: a boolean, or keywords of the right form with schemas where they are given any. -/
inductive IsSchema (Literal : Value → Prop) : Value → Prop
  | bool (b : Bool) : IsSchema Literal (.leaf (.bool b))
  | obj {kvs : Entries} :
      (∀ name arg kw, (name, arg) ∈ kvs → Keyword.ofName name = some kw → Shape Literal kw arg) →
      (∀ name arg kw s, (name, arg) ∈ kvs → Keyword.ofName name = some kw → s ∈ subschemas kw arg →
        IsSchema Literal s) →
      IsSchema Literal (.obj kvs)

section
variable {Literal : Value → Prop} {document : Value} {kvs : Entries} {name : String} {arg v : Value}
  {kw : Keyword}

theorem IsSchema.shape (h : IsSchema Literal (.obj kvs)) (hmem : (name, arg) ∈ kvs)
    (hkw : Keyword.ofName name = some kw) : Shape Literal kw arg := by
  cases h with
  | obj hshape hsub => exact hshape name arg kw hmem hkw

theorem IsSchema.sub (h : IsSchema Literal (.obj kvs)) (hmem : (name, arg) ∈ kvs)
    (hkw : Keyword.ofName name = some kw) : ∀ s ∈ subschemas kw arg, IsSchema Literal s := by
  cases h with
  | obj hshape hsub => exact fun s => hsub name arg kw s hmem hkw

/-- Under a name that takes schemas by name stands an object of schemas. -/
theorem IsSchema.lookup (h : IsSchema Literal (.obj kvs)) (hkw : Keyword.ofName name = some kw)
    (hnames : kw = .properties ∨ kw = .defs) (harg : kvs.lookup name = some arg) :
    ∃ ps, arg = .obj ps ∧ ∀ p ∈ ps, IsSchema Literal p.2 := by
  have hshape := h.shape (mem_of_lookup harg) hkw
  have hsub := h.sub (mem_of_lookup harg) hkw
  rcases hnames with rfl | rfl <;>
    cases arg with
    | leaf a => exact hshape.elim
    | arr xs => exact hshape.elim
    | obj ps => exact ⟨ps, rfl, fun p hp => hsub p.2 (List.mem_map_of_mem hp)⟩

/-- A reference resolves to a schema. -/
theorem IsSchema.resolve (h : IsSchema Literal document) {r : String} {s : Value}
    (hr : JsonSchema.resolve document r = some s) : IsSchema Literal s := by
  cases document with
  | leaf a => cases hr
  | arr xs => cases hr
  | obj kvs =>
      rw [JsonSchema.resolve] at hr
      split at hr
      · rename_i defs hdefs
        obtain ⟨ps, hps, hschemas⟩ := h.lookup rfl (.inr rfl) hdefs
        cases hps
        obtain ⟨name, -, hname⟩ := Option.bind_eq_some_iff.mp hr
        exact hschemas (name, s) (mem_of_lookup hname)
      · cases hr

/-- The schemas a keyword applies are the ones it is given, or the one its reference names. -/
theorem mem_visits {p : Value × Value} (h : p ∈ visits document kvs kw arg v) :
    p.1 ∈ subschemas kw arg ∨ ∃ r, JsonSchema.resolve document r = some p.1 := by
  unfold visits at h
  split at h
  · rename_i ps vs
    obtain ⟨entry, -, hentry⟩ := List.mem_filterMap.mp h
    obtain ⟨s, hs, rfl⟩ := Option.map_eq_some_iff.mp hentry
    exact .inl (List.mem_map_of_mem (mem_of_lookup hs))
  · obtain ⟨entry, -, rfl⟩ := List.mem_map.mp h
    exact .inl List.mem_cons_self
  · obtain ⟨x, -, rfl⟩ := List.mem_map.mp h
    exact .inl List.mem_cons_self
  · obtain ⟨s, hs, rfl⟩ := List.mem_map.mp h
    exact .inl hs
  · obtain ⟨s, hs, rfl⟩ := List.mem_map.mp h
    exact .inl hs
  · rename_i r
    obtain ⟨s, hs, rfl⟩ := List.mem_map.mp h
    exact .inr ⟨r, Option.mem_toList.mp hs⟩
  · cases h

theorem IsSchema.visits (hdocument : IsSchema Literal document) (h : IsSchema Literal (.obj kvs))
    (hmem : (name, arg) ∈ kvs) (hkw : Keyword.ofName name = some kw) :
    ∀ p ∈ JsonSchema.visits document kvs kw arg v, IsSchema Literal p.1 := by
  intro p hp
  rcases mem_visits hp with hsub | ⟨r, hr⟩
  · exact h.sub hmem hkw p.1 hsub
  · exact hdocument.resolve hr

end

/-! ### Dropping bounds -/

variable (f : Value → Value) (dropped : String → Value → Bool)

/-- What `f` makes of the keywords of one schema: some bounds are dropped, and every other keyword asks the
    same of a value itself and applies the rewritten schemas to the same parts. -/
structure DropsAt (document : Value) (kvs kvs' : Entries) : Prop where
  mem_iff : ∀ name arg', (name, arg') ∈ kvs' ↔
    ∃ arg, (name, arg) ∈ kvs ∧ dropped name arg = false ∧ arg' = f arg
  size : ∀ name arg, (name, arg) ∈ kvs → dropped name arg = true →
    ∃ b, Keyword.ofName name = some (.size b)
  asserts : ∀ name arg kw v, (name, arg) ∈ kvs → dropped name arg = false → Keyword.ofName name = some kw →
    asserts kw (f arg) v = asserts kw arg v
  visits : ∀ name arg kw v, (name, arg) ∈ kvs → dropped name arg = false → Keyword.ofName name = some kw →
    visits (f document) kvs' kw (f arg) v = (visits document kvs kw arg v).map fun p => (f p.1, p.2)

/-- The rewriting does so at every schema of a kind that the parts' schemas are of again. -/
structure Drops (document : Value) (Schema : Value → Prop) : Prop where
  boolean : ∀ s, Schema (.leaf s) → f (.leaf s) = .leaf s
  array : ∀ xs, ¬ Schema (.arr xs)
  object : ∀ kvs, Schema (.obj kvs) →
    ∃ kvs', f (.obj kvs) = .obj kvs' ∧ DropsAt f dropped document kvs kvs'
  part : ∀ kvs, Schema (.obj kvs) → ∀ name arg kw v, (name, arg) ∈ kvs → Keyword.ofName name = some kw →
    ∀ p ∈ visits document kvs kw arg v, Schema p.1

variable {f dropped} {document : Value} {Schema : Value → Prop}

/-- A kept keyword judges by the verdicts on the same parts, and by the rewritten schemas. -/
theorem DropsAt.judges {kvs kvs' : Entries} (h : DropsAt f dropped document kvs kvs') {name : String}
    {arg v : Value} {kw : Keyword} (hmem : (name, arg) ∈ kvs) (hkept : dropped name arg = false)
    (hkw : Keyword.ofName name = some kw) (child : Value → Value → Bool) :
    judges (f document) kvs' child kw (f arg) v =
      judges document kvs (fun s w => child (f s) w) kw arg v := by
  rw [JsonSchema.judges, JsonSchema.judges, h.asserts name arg kw v hmem hkept hkw,
    h.visits name arg kw v hmem hkept hkw, List.any_map, List.all_map]
  rfl

/-- The verdict follows the verdicts on the parts. -/
theorem judges_mono {kvs : Entries} {child child' : Value → Value → Bool} {kw : Keyword} {arg v : Value}
    (hparts : ∀ p ∈ visits document kvs kw arg v, child p.1 p.2 = true → child' p.1 p.2 = true)
    (h : judges document kvs child kw arg v = true) : judges document kvs child' kw arg v = true := by
  rw [judges, Bool.and_eq_true] at h ⊢
  obtain ⟨hasserts, hverdicts⟩ := h
  refine ⟨hasserts, ?_⟩
  cases hkw : kw.disjunctive with
  | true =>
      rw [hkw, if_pos rfl, List.any_eq_true] at hverdicts
      obtain ⟨p, hp, hchild⟩ := hverdicts
      rw [if_pos rfl, List.any_eq_true]
      exact ⟨p, hp, hparts p hp hchild⟩
  | false =>
      rw [hkw, if_neg Bool.false_ne_true, List.all_eq_true] at hverdicts
      rw [if_neg Bool.false_ne_true, List.all_eq_true]
      exact fun p hp => hparts p hp (hverdicts p hp)

/-- CORRECT: dropping bounds only relaxes. -/
theorem Drops.relaxes (h : Drops f dropped document Schema) {n : ℕ} : ∀ {s v : Value}, Schema s →
    acceptsWithin document n s v = true → acceptsWithin (f document) n (f s) v = true := by
  induction n with
  | zero =>
      intro s v _ hacc
      simp [acceptsWithin] at hacc
  | succ n ih =>
      intro s v hs hacc
      cases s with
      | leaf a =>
          rw [h.boolean a hs]
          exact acceptsWithin_leaf.trans hacc
      | arr xs => exact absurd hs (h.array xs)
      | obj kvs =>
          obtain ⟨kvs', hobj, hdrops⟩ := h.object kvs hs
          rw [hobj, acceptsWithin_obj]
          intro name arg' kw hmem' hkw
          obtain ⟨arg, hmem, hkept, rfl⟩ := (hdrops.mem_iff name arg').mp hmem'
          rw [hdrops.judges hmem hkept hkw]
          refine judges_mono (fun p hp hchild => ih ?_ hchild)
            (acceptsWithin_obj.mp hacc name arg kw hmem hkw)
          exact h.part kvs hs name arg kw v hmem hkw p hp

/-- CORRECT: what is accepted only after bounds were dropped violates one of them. -/
theorem Drops.only (h : Drops f dropped document Schema) {n : ℕ} : ∀ {s v : Value}, Schema s →
    acceptsWithin (f document) n (f s) v = true → ¬ Violates document dropped s v →
      acceptsWithin document n s v = true := by
  induction n with
  | zero =>
      intro s v _ hacc
      simp [acceptsWithin] at hacc
  | succ n ih =>
      intro s v hs hacc hviolates
      cases s with
      | leaf a =>
          rw [h.boolean a hs] at hacc
          exact acceptsWithin_leaf.trans hacc
      | arr xs => exact absurd hs (h.array xs)
      | obj kvs =>
          obtain ⟨kvs', hobj, hdrops⟩ := h.object kvs hs
          rw [hobj, acceptsWithin_obj] at hacc
          rw [acceptsWithin_obj]
          intro name arg kw hmem hkw
          cases hdropped : dropped name arg with
          | true =>
              -- a dropped bound was kept by the value, and asks nothing of its parts
              obtain ⟨b, hb⟩ := hdrops.size name arg hmem hdropped
              obtain rfl : kw = .size b := Option.some.inj (hkw.symm.trans hb)
              have hasserts : asserts (.size b) arg v = true := by
                by_contra hfails
                exact hviolates (.here hmem hdropped hb (by simpa using hfails))
              simp [judges, hasserts, visits, Keyword.disjunctive]
          | false =>
              have hmem' := (hdrops.mem_iff name _).mpr ⟨arg, hmem, hdropped, rfl⟩
              have hjudges := hacc name (f arg) kw hmem' hkw
              rw [hdrops.judges hmem hdropped hkw] at hjudges
              refine judges_mono (fun p hp hchild => ih ?_ hchild ?_) hjudges
              · exact h.part kvs hs name arg kw v hmem hkw p hp
              · exact fun hinside => hviolates (.inside hmem hkw hp hinside)

end Lib.JsonSchema
