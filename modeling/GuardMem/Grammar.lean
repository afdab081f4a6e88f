import GuardMem.Lib.JsonSchema

/-! `grammar_safe`: the schema Ollama's grammar compiler is given.

    CORRECT: on a schema whose `enum` and `const` values hold no entry that looks like a long bound, the
    rewriting only relaxes, and only by the bounds it drops. It is keyed on names at every depth, though,
    and literals are not spared: those are all the schemas it can break (`relaxed_iff`). -/

namespace GuardMem.Grammar

open Lib.Json (Tree)
open Lib.JsonSchema

def GRAMMAR_REPETITION_LIMIT : ℤ := 2000

/-- The keywords that become repetitions. -/
def REPETITION_KEYWORDS : List String := ["maxItems", "maxLength", "minItems", "minLength"]

/-- An entry the copy leaves out. A `bool` is an `int` in Python too, but below the limit. -/
def long (key : String) : Value → Bool
  | .leaf (.int n) => key ∈ REPETITION_KEYWORDS && GRAMMAR_REPETITION_LIMIT ≤ n
  | _ => false

mutual
/-- Drop the schema keywords Ollama's grammar compiler cannot take. -/
def grammar_safe : Value → Value
  | .obj kvs => .obj (safe_entries kvs)
  | .arr xs => .arr (safe_items xs)
  | .leaf s => .leaf s

def safe_entries : Entries → Entries
  | [] => []
  | (key, value) :: rest =>
      if long key value then safe_entries rest else (key, grammar_safe value) :: safe_entries rest

def safe_items : List Value → List Value
  | [] => []
  | item :: rest => grammar_safe item :: safe_items rest
end

@[simp] theorem grammar_safe_leaf (s : Atom) : grammar_safe (.leaf s) = .leaf s := rfl

@[simp] theorem grammar_safe_arr (xs : List Value) :
    grammar_safe (.arr xs) = .arr (xs.map grammar_safe) := by
  have h : ∀ ys, safe_items ys = ys.map grammar_safe := by
    intro ys
    induction ys with
    | nil => rfl
    | cons y ys ih => rw [safe_items, ih, List.map_cons]
  rw [grammar_safe, h]

theorem safe_entries_eq (kvs : Entries) : safe_entries kvs =
    (kvs.filter fun kv => !long kv.1 kv.2).map fun kv => (kv.1, grammar_safe kv.2) := by
  induction kvs with
  | nil => rfl
  | cons kv kvs ih =>
      obtain ⟨key, value⟩ := kv
      rw [safe_entries, ih]
      cases hlong : long key value <;> simp [hlong]

theorem safe_entries_of_short {kvs : Entries} (h : ∀ kv ∈ kvs, long kv.1 kv.2 = false) :
    safe_entries kvs = kvs.map fun kv => (kv.1, grammar_safe kv.2) := by
  have hall : kvs.filter (fun kv => !long kv.1 kv.2) = kvs :=
    List.filter_eq_self.mpr fun kv hkv => by simp [h kv hkv]
  rw [safe_entries_eq, hall]

/-- Entries that are short, with values that are left as they are, are left as they are. -/
theorem safe_entries_eq_self {kvs : Entries} (hshort : ∀ kv ∈ kvs, long kv.1 kv.2 = false)
    (hvalue : ∀ kv ∈ kvs, grammar_safe kv.2 = kv.2) : safe_entries kvs = kvs := by
  rw [safe_entries_of_short hshort]
  calc kvs.map (fun kv => (kv.1, grammar_safe kv.2))
      = kvs.map id := List.map_congr_left fun kv hkv => by rw [hvalue kv hkv]; rfl
    _ = kvs := List.map_id kvs

/-! ### What is left -/

/-- An object in the value, at any depth, has the entry. -/
inductive Contains (key : String) (value : Value) : Value → Prop
  | entry {kvs : Entries} : (key, value) ∈ kvs → Contains key value (.obj kvs)
  | field {kvs : Entries} {k : String} {x : Value} : (k, x) ∈ kvs → Contains key value x →
      Contains key value (.obj kvs)
  | item {xs : List Value} {x : Value} : x ∈ xs → Contains key value x → Contains key value (.arr xs)

/-- None of the four keywords stands in it at an integer of the limit or more. -/
def Spared (x : Value) : Prop := ∀ key value, Contains key value x → long key value = false

theorem spared_leaf (s : Atom) : Spared (.leaf s) := by
  rintro key value ⟨⟩

theorem spared_arr {xs : List Value} : Spared (.arr xs) ↔ ∀ x ∈ xs, Spared x := by
  constructor
  · intro h x hx key value hin
    exact h key value (.item hx hin)
  · intro h key value hin
    cases hin with
    | item hmem hin => exact h _ hmem key value hin

theorem spared_obj {kvs : Entries} :
    Spared (.obj kvs) ↔ ∀ kv ∈ kvs, long kv.1 kv.2 = false ∧ Spared kv.2 := by
  constructor
  · intro h kv hkv
    exact ⟨h kv.1 kv.2 (.entry hkv), fun key value hin => h key value (.field hkv hin)⟩
  · rintro h key value hin
    cases hin with
    | entry hmem => exact (h (key, value) hmem).1
    | field hmem hin => exact (h _ hmem).2 key value hin

/-- A rewritten entry is long only where the entry was. -/
theorem long_grammar_safe (key : String) (value : Value) :
    long key (grammar_safe value) = long key value := by
  cases value with
  | leaf s => rfl
  | arr xs => rw [grammar_safe_arr]; rfl
  | obj kvs => rw [grammar_safe]; rfl

/-- CORRECT: nothing long is left, at any depth. -/
theorem spared_grammar_safe (x : Value) : Spared (grammar_safe x) := by
  induction x using Tree.induction with
  | leaf s => exact spared_leaf s
  | arr xs ih =>
      rw [grammar_safe_arr, spared_arr, List.forall_mem_map]
      exact ih
  | obj kvs ih =>
      rw [grammar_safe, safe_entries_eq, spared_obj, List.forall_mem_map]
      intro kv hkv
      obtain ⟨hmem, hkept⟩ := List.mem_filter.mp hkv
      refine ⟨?_, ih kv hmem⟩
      rw [long_grammar_safe]
      simpa using hkept

/-- A long bound on a property that is called like one: the property stays. -/
example : grammar_safe (.obj [("$defs", .obj [("Fact", .obj [("properties", .obj [("maxLength",
      .obj [("type", .leaf (.str "string")), ("maxLength", .leaf (.int 2000))])])])])]) =
    .obj [("$defs", .obj [("Fact", .obj [("properties", .obj [("maxLength",
      .obj [("type", .leaf (.str "string"))])])])])] := rfl

/-- What holds nothing long is left as it is. -/
theorem grammar_safe_of_spared {x : Value} (h : Spared x) : grammar_safe x = x := by
  induction x using Tree.induction with
  | leaf s => rfl
  | arr xs ih =>
      rw [grammar_safe_arr, List.map_congr_left fun x hx => ih x hx (spared_arr.mp h x hx), List.map_id']
  | obj kvs ih =>
      have hkeep := spared_obj.mp h
      rw [grammar_safe, safe_entries_eq_self (fun kv hkv => (hkeep kv hkv).1)
        fun kv hkv => ih kv hkv (hkeep kv hkv).2]

/-- What the rewriting leaves equal as JSON it leaves as it is. -/
theorem grammar_safe_of_same {x : Value} (hx : x.Distinct) (h : same (grammar_safe x) x = true) :
    grammar_safe x = x := by
  induction x using Tree.induction with
  | leaf s => rfl
  | arr xs ih =>
      rw [grammar_safe_arr, same, sameArr_iff, List.forall₂_map_left_iff, List.forall₂_same] at h
      have hvalues := Lib.Json.distinct_arr.mp hx
      have hsame : ∀ x ∈ xs, grammar_safe x = x := fun x hmem => ih x hmem (hvalues x hmem) (h x hmem)
      rw [grammar_safe_arr, List.map_congr_left hsame, List.map_id']
  | obj kvs ih =>
      obtain ⟨hkeys, hvalues⟩ := Lib.Json.distinct_obj.mp hx
      rw [grammar_safe, same, Bool.and_eq_true] at h
      -- as many entries as before: none was left out
      have hshort : ∀ kv ∈ kvs, long kv.1 kv.2 = false := by
        have hlength : (kvs.filter fun kv => !long kv.1 kv.2).length = kvs.length := by
          simpa [safe_entries_eq] using h.1
        intro kv hkv
        simpa using List.length_filter_eq_length_iff.mp hlength kv hkv
      rw [safe_entries_of_short hshort, sameObj_iff] at h
      rw [grammar_safe, safe_entries_eq_self hshort]
      intro kv hkv
      obtain ⟨w, hw, hvalue⟩ := h.2 (kv.1, grammar_safe kv.2) (List.mem_map_of_mem hkv)
      obtain rfl : kv.2 = w := Option.some.inj ((lookup_of_mem hkeys hkv).symm.trans hw)
      exact ih kv hkv (hvalues kv hkv) hvalue

/-! ### The rewriting keyword by keyword -/

variable {Literal : Value → Prop}

theorem mem_keywords {key : String} {value : Value} (h : long key value = true) :
    key ∈ REPETITION_KEYWORDS := by
  unfold long at h
  split at h
  · simp only [Bool.and_eq_true, decide_eq_true_eq] at h
    exact h.1
  · cases h

/-- The four keywords are the bounds on lengths and counts. -/
theorem size_of_mem {key : String} (h : key ∈ REPETITION_KEYWORDS) :
    ∃ b, Keyword.ofName key = some (.size b) := by
  simp only [REPETITION_KEYWORDS, List.mem_cons, List.not_mem_nil, or_false] at h
  rcases h with rfl | rfl | rfl | rfl
  · exact ⟨.maxItems, rfl⟩
  · exact ⟨.maxLength, rfl⟩
  · exact ⟨.minItems, rfl⟩
  · exact ⟨.minLength, rfl⟩

/-- A schema is no bound, whatever name it stands under. -/
theorem long_schema {s : Value} (h : IsSchema Literal s) (key : String) : long key s = false := by
  cases h <;> rfl

/-- So an object of schemas keeps them all, under their names. -/
theorem grammar_safe_schemas {ps : Entries} (h : ∀ p ∈ ps, IsSchema Literal p.2) :
    grammar_safe (.obj ps) = .obj (ps.map fun kv => (kv.1, grammar_safe kv.2)) := by
  rw [grammar_safe, safe_entries_of_short fun p hp => long_schema (h p hp) p.1]

/-- Another keyword is found where it was. -/
theorem lookup_safe_entries {key : String} (hkey : key ∉ REPETITION_KEYWORDS) (kvs : Entries) :
    (safe_entries kvs).lookup key = (kvs.lookup key).map grammar_safe := by
  induction kvs with
  | nil => rfl
  | cons kv kvs ih =>
      obtain ⟨name, value⟩ := kv
      have hother : long name value = true → key ≠ name := by
        rintro hlong rfl
        exact hkey (mem_keywords hlong)
      rw [safe_entries]
      cases hlong : long name value with
      | true =>
          have hskip : ((name, value) :: kvs).lookup key = kvs.lookup key := by
            rw [List.lookup_cons, beq_false_of_ne (hother hlong)]
          rw [if_pos rfl, ih, hskip]
      | false =>
          rw [if_neg Bool.false_ne_true, List.lookup_cons, List.lookup_cons, ih]
          cases key == name <;> rfl

theorem named_safe_entries {kvs : Entries} (h : IsSchema Literal (.obj kvs)) :
    named (safe_entries kvs) = named kvs := by
  rw [named, named, lookup_safe_entries (by decide)]
  cases hps : kvs.lookup "properties" with
  | none => rfl
  | some arg =>
      obtain ⟨ps, rfl, hschemas⟩ := h.lookup rfl (.inl rfl) hps
      rw [Option.map_some, grammar_safe_schemas hschemas]
      simp

/-- CORRECT: every reference still resolves, to the rewritten definition. -/
theorem resolve_grammar_safe {document : Value} (h : IsSchema Literal document) (r : String) :
    resolve (grammar_safe document) r = (resolve document r).map grammar_safe := by
  cases document with
  | leaf s => rfl
  | arr xs => cases h
  | obj kvs =>
      rw [grammar_safe, resolve, resolve, lookup_safe_entries (by decide)]
      cases hdefs : kvs.lookup "$defs" with
      | none => rfl
      | some arg =>
          obtain ⟨ps, rfl, hschemas⟩ := h.lookup rfl (.inr rfl) hdefs
          rw [Option.map_some, grammar_safe_schemas hschemas]
          simp only [lookup_map]
          cases target r <;> rfl

/-- A keyword asks the same of a value itself, where literals are spared. -/
theorem asserts_grammar_safe {kw : Keyword} {arg v : Value}
    (hspared : ∀ x, Literal x → x.Distinct → Spared x) (h : Shape Literal kw arg) :
    asserts kw (grammar_safe arg) v = asserts kw arg v := by
  have hnames : ∀ names : List Value, (∀ x ∈ names, ∃ name, x = .leaf (.str name)) →
      grammar_safe (.arr names) = .arr names := by
    intro names hnames
    refine grammar_safe_of_spared (spared_arr.mpr fun x hx => ?_)
    obtain ⟨name, rfl⟩ := hnames x hx
    exact spared_leaf _
  cases kw with
  | type =>
      cases arg with
      | leaf s => rfl
      | arr names => rw [hnames names h]
      | obj kvs => exact h.elim
  | required =>
      cases arg with
      | leaf s => exact h.elim
      | arr names => rw [hnames names h]
      | obj kvs => exact h.elim
  | enum =>
      cases arg with
      | leaf s => exact h.elim
      | arr xs =>
          have hxs : Spared (.arr xs) := spared_arr.mpr fun x hx => hspared x (h x hx).2 (h x hx).1
          rw [grammar_safe_of_spared hxs]
      | obj kvs => exact h.elim
  | const => rw [grammar_safe_of_spared (hspared arg h.2 h.1)]
  | bound b =>
      cases arg with
      | leaf s => rfl
      | arr xs => exact h.elim
      | obj kvs => exact h.elim
  | size b =>
      cases arg with
      | leaf s => rfl
      | arr xs => exact h.elim
      | obj kvs => exact h.elim
  | properties => rfl
  | additionalProperties => rfl
  | items => rfl
  | anyOf => rfl
  | allOf => rfl
  | ref => rfl
  | defs => rfl

/-- It applies the rewritten schemas to the parts of the value it applied the schemas to. -/
theorem visits_grammar_safe {document : Value} {kvs : Entries} {name : String} {arg v : Value}
    {kw : Keyword} (hdocument : IsSchema Literal document) (h : IsSchema Literal (.obj kvs))
    (hmem : (name, arg) ∈ kvs) (hkw : Keyword.ofName name = some kw) :
    visits (grammar_safe document) (safe_entries kvs) kw (grammar_safe arg) v =
      (visits document kvs kw arg v).map fun p => (grammar_safe p.1, p.2) := by
  have hshape := h.shape hmem hkw
  have hsub := h.sub hmem hkw
  cases kw with
  | properties =>
      cases arg with
      | leaf s => exact hshape.elim
      | arr xs => exact hshape.elim
      | obj ps =>
          rw [grammar_safe_schemas fun p hp => hsub p.2 (List.mem_map_of_mem hp)]
          cases v with
          | leaf s => rfl
          | arr xs => rfl
          | obj vs =>
              simp only [visits, List.map_filterMap, lookup_map, Option.map_map]
              rfl
  | additionalProperties =>
      cases v with
      | leaf s => rfl
      | arr xs => rfl
      | obj vs =>
          simp only [visits, named_safe_entries h, List.map_map]
          rfl
  | items =>
      cases v with
      | leaf s => rfl
      | arr xs =>
          simp only [visits, List.map_map]
          rfl
      | obj vs => rfl
  | anyOf =>
      cases arg with
      | leaf s => exact hshape.elim
      | arr ss =>
          simp only [grammar_safe_arr, visits, List.map_map]
          rfl
      | obj kvs => exact hshape.elim
  | allOf =>
      cases arg with
      | leaf s => exact hshape.elim
      | arr ss =>
          simp only [grammar_safe_arr, visits, List.map_map]
          rfl
      | obj kvs => exact hshape.elim
  | ref =>
      cases arg with
      | leaf s =>
          obtain ⟨r, rfl⟩ := hshape
          simp only [grammar_safe_leaf, visits, resolve_grammar_safe hdocument]
          cases resolve document r <;> rfl
      | arr xs => exact hshape.elim
      | obj kvs => exact hshape.elim
  | type => rfl
  | required => rfl
  | defs => rfl
  | enum => rfl
  | const => rfl
  | bound b => rfl
  | size b => rfl

/-- The rewriting drops long bounds and nothing else, where literals are spared. -/
theorem drops {document : Value} (hspared : ∀ x, Literal x → x.Distinct → Spared x)
    (hdocument : IsSchema Literal document) : Drops grammar_safe long document (IsSchema Literal) where
  boolean s _ := rfl
  array xs := by rintro ⟨⟩
  object kvs h := by
    refine ⟨safe_entries kvs, by rw [grammar_safe], ?_, ?_, ?_, ?_⟩
    · intro name arg'
      rw [safe_entries_eq, List.mem_map]
      constructor
      · rintro ⟨⟨key, arg⟩, hkv, hsame⟩
        obtain ⟨rfl, rfl⟩ := Prod.mk.inj hsame
        obtain ⟨hmem, hkept⟩ := List.mem_filter.mp hkv
        exact ⟨arg, hmem, by simpa using hkept, rfl⟩
      · rintro ⟨arg, hmem, hkept, rfl⟩
        exact ⟨(name, arg), List.mem_filter.mpr ⟨hmem, by simp [hkept]⟩, rfl⟩
    · exact fun name arg _ hlong => size_of_mem (mem_keywords hlong)
    · exact fun name arg kw v hmem _ hkw => asserts_grammar_safe hspared (h.shape hmem hkw)
    · exact fun name arg kw v hmem _ hkw => visits_grammar_safe hdocument h hmem hkw
  part kvs h name arg kw v hmem hkw := hdocument.visits h hmem hkw

/-! ### What the grammar accepts -/

/-- The rewritten schema has no long bound left, accepts whatever the schema accepts, beyond that only
    what violates a dropped bound, and its references resolve as before. -/
structure Relaxed (schema : Value) : Prop where
  spared : Spared (grammar_safe schema)
  accepts : ∀ v, Accepts schema v → Accepts (grammar_safe schema) v
  only : ∀ v, Accepts (grammar_safe schema) v → ¬ Accepts schema v → Violates schema long schema v
  resolves : ∀ r, resolve (grammar_safe schema) r = (resolve schema r).map grammar_safe

theorem relaxed_of_spared (hspared : ∀ x, Literal x → x.Distinct → Spared x) {schema : Value}
    (h : IsSchema Literal schema) : Relaxed schema where
  spared := spared_grammar_safe schema
  accepts v := by
    rintro ⟨n, hacc⟩
    exact ⟨n, (drops hspared h).relaxes h hacc⟩
  only v := by
    rintro ⟨n, hacc⟩ hrejects
    by_contra hviolates
    exact hrejects ⟨n, (drops hspared h).only h hacc hviolates⟩
  resolves := resolve_grammar_safe h

/-- The schema of one value. -/
def one_value (x : Value) : Value := .obj [("const", x)]

theorem isSchema_one_value {x : Value} (hx : Literal x) (hdistinct : x.Distinct) :
    IsSchema Literal (one_value x) := by
  refine .obj (fun name arg kw hmem hkw => ?_) (fun name arg kw s hmem hkw hs => ?_)
  · obtain ⟨rfl, rfl⟩ := Prod.mk.inj (List.mem_singleton.mp hmem)
    cases hkw
    exact ⟨hdistinct, hx⟩
  · obtain ⟨rfl, rfl⟩ := Prod.mk.inj (List.mem_singleton.mp hmem)
    cases hkw
    cases hs

theorem accepts_one_value {x v : Value} : Accepts (one_value x) v ↔ same x v = true := by
  have hjudges : ∀ child, judges (one_value x) [("const", x)] child .const x v = same x v := by
    simp [judges, asserts, visits, Keyword.disjunctive]
  constructor
  · rintro ⟨n, hacc⟩
    cases n with
    | zero => cases hacc
    | succ n =>
        rw [← hjudges]
        exact acceptsWithin_obj.mp hacc "const" x .const List.mem_cons_self rfl
  · intro hsame
    refine ⟨1, acceptsWithin_obj.mpr fun name arg kw hmem hkw => ?_⟩
    obtain ⟨rfl, rfl⟩ := Prod.mk.inj (List.mem_singleton.mp hmem)
    cases hkw
    rw [hjudges, hsame]

theorem grammar_safe_one_value (x : Value) : grammar_safe (one_value x) = one_value (grammar_safe x) := by
  have hkept : long "const" x = false := by
    by_contra hlong
    exact absurd (mem_keywords (by simpa using hlong)) (by decide)
  rw [one_value, one_value, grammar_safe, safe_entries_eq]
  simp [hkept]

/-- A literal that is still accepted after the rewriting holds nothing long. -/
theorem spared_of_relaxes {x : Value} (hdistinct : x.Distinct)
    (h : ∀ v, Accepts (one_value x) v → Accepts (grammar_safe (one_value x)) v) : Spared x := by
  have hsame := h x (accepts_one_value.mpr (same_refl hdistinct))
  rw [grammar_safe_one_value, accepts_one_value] at hsame
  rw [← grammar_safe_of_same hdistinct hsame]
  exact spared_grammar_safe x

/-- CORRECT: every schema with literals of a kind is only relaxed if and only if no literal of the kind
    holds, at any depth, an entry that looks like a long bound. -/
theorem relaxed_iff (Literal : Value → Prop) : (∀ schema, IsSchema Literal schema → Relaxed schema) ↔
    ∀ x, Literal x → x.Distinct → Spared x := by
  constructor
  · intro h x hx hdistinct
    exact spared_of_relaxes hdistinct (h _ (isSchema_one_value hx hdistinct)).accepts
  · intro hspared schema h
    exact relaxed_of_spared hspared h

/-- A constant that is itself written like a bound: the rewritten schema rejects it. -/
theorem constant_rewritten : ¬ ∀ schema, IsSchema (fun _ => True) schema →
    ∀ v, Accepts schema v → Accepts (grammar_safe schema) v := by
  intro h
  have hdistinct : Tree.Distinct (.obj [("maxLength", .leaf (.int 5000))] : Value) := by
    simp [Tree.Distinct, Lib.Json.DistinctObj]
  have hspared := spared_of_relaxes hdistinct (h _ (isSchema_one_value trivial hdistinct))
  exact absurd (hspared "maxLength" (.leaf (.int 5000)) (.entry List.mem_cons_self)) (by decide)

end GuardMem.Grammar
