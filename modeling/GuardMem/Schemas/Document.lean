import GuardMem.Lib.JsonSchema

/-! What a pack's YAML says, and the JSON it is carried over by: `_StrictLoader` and `json.dumps`.

    CORRECT: the strict loader constructs what the text says wherever no mapping, at any depth, gives a
    key twice (`construct_iff`); and what came of JSON is carried over as it was (`dumps_plain`). -/

namespace GuardMem.Packs

open Lib.JsonSchema

abbrev Value := Lib.JsonSchema.Value

/-! ### YAML, constructed -/

/-- What a scalar node resolves to; `other` is a date, or what else JSON has no form for. -/
inductive Scalar where
  | null
  | bool (b : Bool)
  | int (n : ℤ)
  | float (q : ℚ)
  | str (s : String)
  | other (repr : String)
  deriving DecidableEq

def Scalar.number : Scalar → Option ℚ
  | .bool b => some (if b then 1 else 0)
  | .int n => some n
  | .float q => some q
  | _ => none

/-- Python's `==` on keys: numbers, the two truth values among them, by their value. -/
def Scalar.same (a b : Scalar) : Bool :=
  match a.number, b.number with
  | some x, some y => x == y
  | _, _ => a == b

/-- A composed node; a mapping's entries come with the line of the key. -/
inductive Node where
  | scalar (s : Scalar)
  | seq (items : List Node)
  | map (entries : List (ℕ × Node × Node))

/-- What is constructed of one. -/
inductive Data where
  | scalar (s : Scalar)
  | list (items : List Data)
  | dict (entries : List (Scalar × Data))

/-- What stops a pack; `Invalid` is a `ValidationError` over a field. -/
inductive Raised where
  | ValueError (message : String)
  | TypeError (message : String)
  | ValidationError (message : String)
  | Invalid
  | FileNotFoundError (message : String)
  deriving DecidableEq

/-- The third-party printers and readers a pack goes through. -/
structure Library where
  compose : String → Except String (Option Node)
  safe_dump : Data → String
  repr : Scalar → String
  repr_float : ℚ → String
  type_of : Data → String
  not_serializable : Scalar → String
  not_a_key : Scalar → String

variable (lib : Library)

mutual
/-- `construct_object` of the strict loader. -/
def construct : Node → Except Raised Data
  | .scalar s => .ok (.scalar s)
  | .seq items => (construct_items items).map .list
  | .map entries => do
      no_duplicate_keys [] entries
      (construct_pairs entries).map .dict

def construct_items : List Node → Except Raised (List Data)
  | [] => .ok []
  | item :: items => do
      let first ← construct item
      (construct_items items).map (first :: ·)

/-- The keys of a mapping, looked at before anything is constructed of it. -/
def no_duplicate_keys (seen : List Scalar) : List (ℕ × Node × Node) → Except Raised Unit
  | [] => .ok ()
  | (line, key, _) :: entries => do
      match ← construct key with
      | .scalar key =>
          if seen.any (Scalar.same key) then
            .error (.ValueError ("duplicate key " ++ lib.repr key ++ " at line " ++ toString (line + 1)))
          else no_duplicate_keys (key :: seen) entries
      | _ => .error (.TypeError "unhashable type")

def construct_pairs : List (ℕ × Node × Node) → Except Raised (List (Scalar × Data))
  | [] => .ok []
  | (_, key, value) :: entries => do
      match ← construct key with
      | .scalar key =>
          let value ← construct value
          (construct_pairs entries).map ((key, value) :: ·)
      | _ => .error (.TypeError "unhashable type")
end

/-! ### What the text says -/

mutual
/-- A node as data, whatever keys it repeats. -/
def read : Node → Option Data
  | .scalar s => some (.scalar s)
  | .seq items => (read_items items).map .list
  | .map entries => (read_pairs entries).map .dict

def read_items : List Node → Option (List Data)
  | [] => some []
  | item :: items => (read item).bind fun first => (read_items items).map (first :: ·)

def read_pairs : List (ℕ × Node × Node) → Option (List (Scalar × Data))
  | [] => some []
  | (_, key, value) :: entries =>
      match read key with
      | some (.scalar key) => (read value).bind fun value => (read_pairs entries).map ((key, value) :: ·)
      | _ => none
end

/-- No mapping gives a key twice, at any depth. -/
inductive Data.Distinct : Data → Prop
  | scalar (s : Scalar) : Distinct (.scalar s)
  | list {items : List Data} : (∀ d ∈ items, Distinct d) → Distinct (.list items)
  | dict {entries : List (Scalar × Data)} :
      entries.Pairwise (fun a b => b.1.same a.1 = false) → (∀ e ∈ entries, Distinct e.2) →
        Distinct (.dict entries)

theorem bind_ok {ε α β : Type} {x : Except ε α} {f : α → Except ε β} {b : β} :
    x.bind f = .ok b ↔ ∃ a, x = .ok a ∧ f a = .ok b := by
  cases x with
  | error e => simp [Except.bind]
  | ok a => simp [Except.bind]

theorem map_ok {ε α β : Type} {x : Except ε α} {f : α → β} {b : β} :
    x.map f = .ok b ↔ ∃ a, x = .ok a ∧ f a = b := by
  cases x <;> simp [Except.map]

@[simp] theorem distinct_scalar (s : Scalar) : (Data.scalar s).Distinct := .scalar s

theorem distinct_list {items : List Data} : (Data.list items).Distinct ↔ ∀ d ∈ items, d.Distinct :=
  ⟨fun h => by cases h; assumption, .list⟩

theorem distinct_dict {entries : List (Scalar × Data)} : (Data.dict entries).Distinct ↔
    entries.Pairwise (fun a b => b.1.same a.1 = false) ∧ ∀ e ∈ entries, e.2.Distinct :=
  ⟨fun h => by cases h; exact ⟨‹_›, ‹_›⟩, fun h => .dict h.1 h.2⟩

/-- What is looked for in the keys, once the entries are known to construct. -/
theorem no_duplicate_keys_ok {entries : List (ℕ × Node × Node)} {pairs : List (Scalar × Data)}
    (hpairs : construct_pairs lib entries = .ok pairs) {seen : List Scalar} :
    no_duplicate_keys lib seen entries = .ok () ↔
      (∀ p ∈ pairs, ∀ s ∈ seen, p.1.same s = false) ∧
        pairs.Pairwise (fun a b => b.1.same a.1 = false) := by
  induction entries generalizing pairs seen with
  | nil =>
      obtain rfl : [] = pairs := Except.ok.inj hpairs
      simp [no_duplicate_keys]
  | cons e entries ih =>
      obtain ⟨line, key, value⟩ := e
      obtain ⟨k, hk, hpairs⟩ := bind_ok.mp hpairs
      rcases k with k | _ | _
      · obtain ⟨v, -, hpairs⟩ := bind_ok.mp hpairs
        obtain ⟨rest, hrest, rfl⟩ := map_ok.mp hpairs
        rw [no_duplicate_keys, hk]
        by_cases hseen : seen.any (Scalar.same k)
        · obtain ⟨s, hs, hsame⟩ := List.any_eq_true.mp hseen
          have hno : ¬ (∀ p ∈ (k, v) :: rest, ∀ s ∈ seen, p.1.same s = false) := fun h =>
            absurd hsame (by simp [h (k, v) (by simp) s hs])
          simp only [bind, Except.bind, hseen, if_true, hno, false_and, reduceCtorEq]
        · have hk' : ∀ s ∈ seen, k.same s = false := by simpa using hseen
          simp only [bind, Except.bind, hseen, Bool.false_eq_true, if_false, ih hrest]
          simp only [List.forall_mem_cons, List.pairwise_cons]
          constructor
          · rintro ⟨hall, hpw⟩
            exact ⟨⟨hk', fun p hp => (hall p hp).2⟩, fun p hp => (hall p hp).1, hpw⟩
          · rintro ⟨⟨-, hall⟩, hfirst, hpw⟩
            exact ⟨fun p hp => ⟨hfirst p hp, hall p hp⟩, hpw⟩
      · cases hpairs
      · cases hpairs

mutual
/-- The strict loader constructs what the text says, wherever no key is given twice. -/
theorem construct_iff {node : Node} {d : Data} :
    construct lib node = .ok d ↔ read node = some d ∧ d.Distinct := by
  match node with
  | .scalar s => grind [construct, read, distinct_scalar]
  | .seq items =>
      rw [construct, map_ok, read, Option.map_eq_some_iff]
      constructor
      · rintro ⟨ds, hds, rfl⟩
        obtain ⟨hread, hall⟩ := construct_items_iff.mp hds
        exact ⟨⟨ds, hread, rfl⟩, distinct_list.mpr hall⟩
      · rintro ⟨⟨ds, hread, rfl⟩, hd⟩
        exact ⟨ds, construct_items_iff.mpr ⟨hread, distinct_list.mp hd⟩, rfl⟩
  | .map entries =>
      rw [construct, read, Option.map_eq_some_iff]
      constructor
      · intro h
        obtain ⟨⟨⟩, hkeys, h⟩ := bind_ok.mp h
        obtain ⟨pairs, hpairs, rfl⟩ := map_ok.mp h
        obtain ⟨hread, hall⟩ := construct_pairs_iff.mp hpairs
        exact ⟨⟨pairs, hread, rfl⟩, distinct_dict.mpr ⟨((no_duplicate_keys_ok lib hpairs).mp hkeys).2, hall⟩⟩
      · rintro ⟨⟨pairs, hread, rfl⟩, hd⟩
        obtain ⟨hpw, hall⟩ := distinct_dict.mp hd
        have hpairs : construct_pairs lib entries = .ok pairs := construct_pairs_iff.mpr ⟨hread, hall⟩
        have hkeys := (@no_duplicate_keys_ok lib _ _ hpairs []).mpr ⟨by simp, hpw⟩
        exact bind_ok.mpr ⟨(), hkeys, map_ok.mpr ⟨pairs, hpairs, rfl⟩⟩

theorem construct_items_iff {items : List Node} {ds : List Data} :
    construct_items lib items = .ok ds ↔ read_items items = some ds ∧ ∀ d ∈ ds, d.Distinct := by
  match items with
  | [] => grind [construct_items, read_items]
  | item :: items =>
      rw [read_items, Option.bind_eq_some_iff]
      constructor
      · intro h
        obtain ⟨first, hfirst, h⟩ := bind_ok.mp h
        obtain ⟨rest, hrest, rfl⟩ := map_ok.mp h
        obtain ⟨hread, hd⟩ := construct_iff.mp hfirst
        obtain ⟨hreads, hall⟩ := construct_items_iff.mp hrest
        exact ⟨⟨first, hread, by rw [hreads]; rfl⟩, List.forall_mem_cons.mpr ⟨hd, hall⟩⟩
      · rintro ⟨⟨first, hread, h⟩, hall⟩
        obtain ⟨rest, hreads, rfl⟩ := Option.map_eq_some_iff.mp h
        obtain ⟨hd, hall⟩ := List.forall_mem_cons.mp hall
        have hrest : construct_items lib items = .ok rest := construct_items_iff.mpr ⟨hreads, hall⟩
        exact bind_ok.mpr ⟨first, construct_iff.mpr ⟨hread, hd⟩, map_ok.mpr ⟨rest, hrest, rfl⟩⟩

theorem construct_pairs_iff {entries : List (ℕ × Node × Node)} {pairs : List (Scalar × Data)} :
    construct_pairs lib entries = .ok pairs ↔
      read_pairs entries = some pairs ∧ ∀ p ∈ pairs, p.2.Distinct := by
  match entries with
  | [] => grind [construct_pairs, read_pairs]
  | (line, key, value) :: entries =>
      constructor
      · intro h
        obtain ⟨k, hk, h⟩ := bind_ok.mp h
        rcases k with k | _ | _
        · obtain ⟨v, hv, h⟩ := bind_ok.mp h
          obtain ⟨rest, hrest, rfl⟩ := map_ok.mp h
          obtain ⟨hreadk, -⟩ := construct_iff.mp hk
          obtain ⟨hreadv, hd⟩ := construct_iff.mp hv
          obtain ⟨hreads, hall⟩ := construct_pairs_iff.mp hrest
          exact ⟨by simp [read_pairs, hreadk, hreadv, hreads], List.forall_mem_cons.mpr ⟨hd, hall⟩⟩
        · cases h
        · cases h
      · rintro ⟨h, hall⟩
        rw [read_pairs] at h
        rcases hreadk : read key with _ | k | _ | _ <;> rw [hreadk] at h
        · cases h
        · obtain ⟨v, hreadv, h⟩ := Option.bind_eq_some_iff.mp h
          obtain ⟨rest, hreads, rfl⟩ := Option.map_eq_some_iff.mp h
          obtain ⟨hd, hall⟩ := List.forall_mem_cons.mp hall
          have hk : construct lib key = .ok (.scalar k) := construct_iff.mpr ⟨hreadk, distinct_scalar k⟩
          have hrest : construct_pairs lib entries = .ok rest := construct_pairs_iff.mpr ⟨hreads, hall⟩
          refine bind_ok.mpr ⟨.scalar k, hk, bind_ok.mpr ⟨v, construct_iff.mpr ⟨hreadv, hd⟩, ?_⟩⟩
          exact map_ok.mpr ⟨rest, hrest, rfl⟩
        · cases h
        · cases h
end

/-! ### Through JSON -/

/-- The text of a key in JSON. -/
def Scalar.key : Scalar → Option String
  | .null => some "null"
  | .bool b => some (if b then "true" else "false")
  | .int n => some (toString n)
  | .float q => some (lib.repr_float q)
  | .str s => some s
  | .other _ => none

def Scalar.atom : Scalar → Option Atom
  | .null => some .null
  | .bool b => some (.bool b)
  | .int n => some (.int n)
  | .float q => some (.real q)
  | .str s => some (.str s)
  | .other _ => none

mutual
/-- `json.dumps`, read back: the error is the text of its `TypeError`. -/
def dumps : Data → Except String Value
  | .scalar s =>
      match s.atom with
      | some atom => .ok (.leaf atom)
      | none => .error (lib.not_serializable s)
  | .list items => (dumps_items items).map .arr
  | .dict entries => (dumps_entries entries).map .obj

def dumps_items : List Data → Except String (List Value)
  | [] => .ok []
  | item :: items => do
      let first ← dumps item
      (dumps_items items).map (first :: ·)

def dumps_entries : List (Scalar × Data) → Except String Entries
  | [] => .ok []
  | (key, value) :: entries =>
      match key.key lib with
      | some key => do
          let value ← dumps value
          (dumps_entries entries).map ((key, value) :: ·)
      | none => .error (lib.not_a_key key)
end

def plain_atom : Atom → Scalar
  | .null => .null
  | .bool b => .bool b
  | .int n => .int n
  | .real q => .float q
  | .str s => .str s

mutual
/-- JSON as the data it is read into. -/
def plain : Value → Data
  | .leaf a => .scalar (plain_atom a)
  | .arr items => .list (plain_items items)
  | .obj entries => .dict (plain_entries entries)

def plain_items : List Value → List Data
  | [] => []
  | item :: items => plain item :: plain_items items

def plain_entries : Entries → List (Scalar × Data)
  | [] => []
  | (key, value) :: entries => (.str key, plain value) :: plain_entries entries
end

theorem plain_items_eq (items : List Value) : plain_items items = items.map plain := by
  induction items with
  | nil => rfl
  | cons item items ih => rw [plain_items, ih, List.map_cons]

theorem plain_entries_eq (entries : Entries) :
    plain_entries entries = entries.map fun e => (.str e.1, plain e.2) := by
  induction entries with
  | nil => rfl
  | cons e entries ih => rw [plain_entries, ih, List.map_cons]

/-- What came of JSON is carried over as it was. -/
theorem dumps_plain (v : Value) : dumps lib (plain v) = .ok v := by
  induction v using Lib.Json.Tree.induction with
  | leaf a => cases a <;> rfl
  | arr items ih =>
      have h : dumps_items lib (plain_items items) = .ok items := by
        induction items with
        | nil => rfl
        | cons item items ihs =>
            obtain ⟨hitem, hitems⟩ := List.forall_mem_cons.mp ih
            exact bind_ok.mpr ⟨item, hitem, map_ok.mpr ⟨items, ihs hitems, rfl⟩⟩
      exact map_ok.mpr ⟨items, h, rfl⟩
  | obj entries ih =>
      have h : dumps_entries lib (plain_entries entries) = .ok entries := by
        induction entries with
        | nil => rfl
        | cons e entries ihs =>
            obtain ⟨hvalue, hvalues⟩ := List.forall_mem_cons.mp ih
            exact bind_ok.mpr ⟨e.2, hvalue, map_ok.mpr ⟨entries, ihs hvalues, rfl⟩⟩
      exact map_ok.mpr ⟨entries, h, rfl⟩

theorem same_str (a b : String) : (Scalar.str a).same (.str b) = (Decidable.decide (a = b)) := by
  simp only [Scalar.same, Scalar.number, beq_eq_decide, Scalar.str.injEq]

theorem plain_distinct {v : Value} (h : v.Distinct) : (plain v).Distinct := by
  induction v using Lib.Json.Tree.induction with
  | leaf a => exact distinct_scalar _
  | arr items ih =>
      rw [plain, plain_items_eq, distinct_list, List.forall_mem_map]
      exact fun v hv => ih v hv (Lib.Json.distinct_arr.mp h v hv)
  | obj entries ih =>
      obtain ⟨hkeys, hvalues⟩ := Lib.Json.distinct_obj.mp h
      rw [plain, plain_entries_eq, distinct_dict, List.forall_mem_map, List.pairwise_map]
      refine ⟨(List.pairwise_map.mp hkeys).imp fun hne => ?_, fun e he => ih e he (hvalues e he)⟩
      simp [same_str, Ne.symm hne]

end GuardMem.Packs
