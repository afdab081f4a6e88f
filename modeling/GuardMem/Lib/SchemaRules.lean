import GuardMem.Lib.JsonSchema

/-! Showing that a schema accepts a value: a rule for each keyword, put together schema by schema.

    A schema accepts what `Meets` each of its keywords (`admits_obj`). An object's entries that fill the
    properties in their order meet those (`Fills`), whichever optional ones are left out. -/

namespace Lib.JsonSchema

variable {document v : Value} {kvs ps vs : Entries}

/-- The schema accepts the value, references resolved in the document. -/
def Admits (document schema v : Value) : Prop := ∃ n, acceptsWithin document n schema v = true

/-! ### Heights -/

theorem acceptsWithin_succ {n : ℕ} : ∀ {s v : Value}, acceptsWithin document n s v = true →
    acceptsWithin document (n + 1) s v = true := by
  induction n with
  | zero =>
      intro s v h
      simp [acceptsWithin] at h
  | succ n ih =>
      intro s v h
      cases s with
      | leaf a => cases a <;> exact h
      | arr xs => simp [acceptsWithin] at h
      | obj kvs =>
          rw [acceptsWithin_obj] at h ⊢
          intro name arg kw hmem hkw
          exact judges_mono (fun _ _ => ih) (h name arg kw hmem hkw)

theorem acceptsWithin_mono {n m : ℕ} {s : Value} (hle : n ≤ m) (h : acceptsWithin document n s v = true) :
    acceptsWithin document m s v = true := by
  induction hle with
  | refl => exact h
  | step _ ih => exact acceptsWithin_succ ih

/-- One height is enough for finitely many derivations. -/
theorem exists_height : ∀ {parts : List (Value × Value)}, (∀ p ∈ parts, Admits document p.1 p.2) →
    ∃ n, ∀ p ∈ parts, acceptsWithin document n p.1 p.2 = true
  | [], _ => ⟨0, by simp⟩
  | part :: parts, h => by
      obtain ⟨hpart, hparts⟩ := List.forall_mem_cons.mp h
      obtain ⟨n, hn⟩ := hpart
      obtain ⟨m, hm⟩ := exists_height hparts
      refine ⟨max n m, List.forall_mem_cons.mpr ⟨?_, fun p hp => ?_⟩⟩
      · exact acceptsWithin_mono (le_max_left n m) hn
      · exact acceptsWithin_mono (le_max_right n m) (hm p hp)

/-! ### Keyword by keyword -/

/-- The value meets a keyword of a schema, one that asks of every part it is about. -/
def Meets (document : Value) (kvs : Entries) (kv : String × Value) (v : Value) : Prop :=
  ∀ kw, Keyword.ofName kv.1 = some kw → kw.disjunctive = false ∧ asserts kw kv.2 v = true ∧
    ∀ p ∈ visits document kvs kw kv.2 v, Admits document p.1 p.2

/-- CORRECT: what meets every keyword is accepted. -/
theorem admits_obj (h : ∀ kv ∈ kvs, Meets document kvs kv v) : Admits document (.obj kvs) v := by
  let parts := kvs.flatMap fun kv => (Keyword.ofName kv.1).toList.flatMap fun kw =>
    visits document kvs kw kv.2 v
  have hparts : ∀ p ∈ parts, Admits document p.1 p.2 := by
    intro p hp
    obtain ⟨kv, hkv, hp⟩ := List.mem_flatMap.mp hp
    obtain ⟨kw, hkw, hp⟩ := List.mem_flatMap.mp hp
    exact (h kv hkv kw (Option.mem_toList.mp hkw)).2.2 p hp
  obtain ⟨n, hn⟩ := exists_height hparts
  refine ⟨n + 1, acceptsWithin_obj.mpr fun name arg kw hmem hkw => ?_⟩
  obtain ⟨hall, hasserts, -⟩ := h (name, arg) hmem kw hkw
  rw [judges, hasserts, hall, Bool.true_and, if_neg Bool.false_ne_true, List.all_eq_true]
  intro p hp
  exact hn p (List.mem_flatMap.mpr ⟨(name, arg), hmem,
    List.mem_flatMap.mpr ⟨kw, Option.mem_toList.mpr hkw, hp⟩⟩)

/-- A keyword is met by what it asserts of the value and applies to the parts. -/
theorem meets_of {name : String} {arg : Value} {kw : Keyword} (hkw : Keyword.ofName name = some kw)
    (hall : kw.disjunctive = false) (hasserts : asserts kw arg v = true)
    (hparts : ∀ p ∈ visits document kvs kw arg v, Admits document p.1 p.2) :
    Meets document kvs (name, arg) v := by
  rintro kw' hkw'
  obtain rfl := Option.some.inj (hkw.symm.trans hkw')
  exact ⟨hall, hasserts, hparts⟩

theorem meets_remark {name : String} {arg : Value} (h : Keyword.ofName name = none) :
    Meets document kvs (name, arg) v := by
  intro kw hkw
  rw [h] at hkw
  cases hkw

theorem meets_type {name : String} (h : hasType name v = true) :
    Meets document kvs ("type", .leaf (.str name)) v :=
  meets_of rfl rfl h nofun

theorem meets_types {names : List String} {name : String} (hmem : name ∈ names)
    (h : hasType name v = true) :
    Meets document kvs ("type", .arr (names.map fun name => .leaf (.str name))) v := by
  refine meets_of rfl rfl ?_ nofun
  rw [asserts, List.any_map, List.any_eq_true]
  exact ⟨name, hmem, h⟩

theorem meets_required {names : List String} (h : ∀ name ∈ names, name ∈ vs.map Prod.fst) :
    Meets document kvs ("required", .arr (names.map fun name => .leaf (.str name))) (.obj vs) := by
  refine meets_of rfl rfl ?_ nofun
  rw [asserts, List.all_map, List.all_eq_true]
  intro name hname
  obtain ⟨entry, hentry, rfl⟩ := List.mem_map.mp (h name hname)
  exact List.any_eq_true.mpr ⟨entry, hentry, beq_self_eq_true _⟩

theorem meets_additionalProperties {s : Value}
    (h : ∀ entry ∈ vs, entry.1 ∉ named kvs → Admits document s entry.2) :
    Meets document kvs ("additionalProperties", s) (.obj vs) := by
  refine meets_of rfl rfl rfl fun p hp => ?_
  obtain ⟨entry, hentry, rfl⟩ := List.mem_map.mp hp
  obtain ⟨hmem, hother⟩ := List.mem_filter.mp hentry
  exact h entry hmem (of_decide_eq_true hother)

theorem meets_items {s : Value} {xs : List Value} (h : ∀ x ∈ xs, Admits document s x) :
    Meets document kvs ("items", s) (.arr xs) := by
  refine meets_of rfl rfl rfl fun p hp => ?_
  obtain ⟨x, hx, rfl⟩ := List.mem_map.mp hp
  exact h x hx

theorem meets_enum {xs : List Value} {x : Value} (hmem : x ∈ xs) (h : same x v = true) :
    Meets document kvs ("enum", .arr xs) v :=
  meets_of rfl rfl (List.any_eq_true.mpr ⟨x, hmem, h⟩) nofun

theorem meets_bound {name : String} {b : Bound} {limit : Atom} {a : Atom} {q x : ℚ}
    (hname : Keyword.ofName name = some (.bound b)) (hlimit : limit.number = some q)
    (ha : a.number = some x) (h : b.holds q x = true) :
    Meets document kvs (name, .leaf limit) (.leaf a) := by
  refine meets_of hname rfl ?_ nofun
  simp [asserts, hlimit, ha, h]

theorem meets_size {name : String} {b : Size} {limit : Atom} {q : ℚ} {n : ℕ}
    (hname : Keyword.ofName name = some (.size b)) (hlimit : limit.number = some q)
    (hcount : b.count v = some n) (h : b.holds q n = true) :
    Meets document kvs (name, .leaf limit) v := by
  refine meets_of hname rfl ?_ nofun
  simp [asserts, hlimit, hcount, h]

/-! ### Objects -/

/-- The entries fill the properties in their order, some of those perhaps left out. -/
inductive Fills (document : Value) : Entries → Entries → Prop
  | nil {ps : Entries} : Fills document ps []
  | keep {k : String} {s v : Value} {ps vs : Entries} : Admits document s v → Fills document ps vs →
      Fills document ((k, s) :: ps) ((k, v) :: vs)
  | skip {p : String × Value} {ps vs : Entries} : Fills document ps vs → Fills document (p :: ps) vs

theorem Fills.mem (h : Fills document ps vs) :
    ∀ entry ∈ vs, ∃ s, (entry.1, s) ∈ ps ∧ Admits document s entry.2 := by
  induction h with
  | nil => simp
  | @keep k s v ps vs hadmits hfills ih =>
      rintro entry hentry
      rcases List.mem_cons.mp hentry with rfl | hentry
      · exact ⟨s, List.mem_cons_self, hadmits⟩
      · obtain ⟨s', hs', hadmits'⟩ := ih entry hentry
        exact ⟨s', List.mem_cons_of_mem _ hs', hadmits'⟩
  | skip hfills ih =>
      intro entry hentry
      obtain ⟨s, hs, hadmits⟩ := ih entry hentry
      exact ⟨s, List.mem_cons_of_mem _ hs, hadmits⟩

theorem meets_properties (hkeys : (ps.map Prod.fst).Nodup) (h : Fills document ps vs) :
    Meets document kvs ("properties", .obj ps) (.obj vs) := by
  refine meets_of rfl rfl rfl fun p hp => ?_
  obtain ⟨entry, hentry, hp⟩ := List.mem_filterMap.mp hp
  obtain ⟨s, hs, rfl⟩ := Option.map_eq_some_iff.mp hp
  obtain ⟨s', hs', hadmits⟩ := h.mem entry hentry
  rw [lookup_of_mem hkeys hs'] at hs
  exact Option.some.inj hs ▸ hadmits

/-- The schema of an object by its required names and its properties. -/
def record (required : List String) (ps : Entries) : Value :=
  .obj [("type", .leaf (.str "object")), ("required", .arr (required.map fun name => .leaf (.str name))),
    ("properties", .obj ps)]

/-- The schema of an array by that of its items. -/
def array (items : Value) : Value := .obj [("type", .leaf (.str "array")), ("items", items)]

theorem admits_record {required : List String} (hkeys : (ps.map Prod.fst).Nodup)
    (hrequired : ∀ name ∈ required, name ∈ vs.map Prod.fst) (h : Fills document ps vs) :
    Admits document (record required ps) (.obj vs) :=
  admits_obj <| List.forall_mem_cons.mpr ⟨meets_type rfl, List.forall_mem_cons.mpr
    ⟨meets_required hrequired, List.forall_mem_singleton.mpr (meets_properties hkeys h)⟩⟩

theorem admits_array {items : Value} {xs : List Value} (h : ∀ x ∈ xs, Admits document items x) :
    Admits document (array items) (.arr xs) :=
  admits_obj <| List.forall_mem_cons.mpr
    ⟨meets_type rfl, List.forall_mem_singleton.mpr (meets_items h)⟩

theorem admits_any : Admits document (.obj []) v := admits_obj (by simp)

theorem admits_type {name : String} (h : hasType name v = true) :
    Admits document (.obj [("type", .leaf (.str name))]) v :=
  admits_obj (List.forall_mem_singleton.mpr (meets_type h))

end Lib.JsonSchema
