import Mathlib.Data.Rat.Defs
import Mathlib.Algebra.Order.Ring.Rat
import Mathlib.Tactic.Common
import Mathlib.Tactic.NormNum

/-! Ids, JSON values and the exceptions of the program.

    Ids are strings, as the `NewType`s over `str` are. A datetime is an integer instant and a float a
    rational: nothing in this development rests on either's precision. -/

namespace GuardMem

abbrev TenantId := String
abbrev Namespace := String
abbrev EntityId := String
abbrev AssertionId := String
abbrev CandidateId := String
abbrev TraceId := String
abbrev Time := ℤ

/-- `Field(ge=0.0, le=1.0)`: a float the model will not hold outside the unit interval. -/
abbrev UnitFloat := { x : ℚ // 0 ≤ x ∧ x ≤ 1 }

/-- `Field(ge=-1.0, le=1.0)`. -/
abbrev Cosine := { x : ℚ // -1 ≤ x ∧ x ≤ 1 }

def UnitFloat.zero : UnitFloat := ⟨0, le_refl 0, zero_le_one⟩

def UnitFloat.one : UnitFloat := ⟨1, zero_le_one, le_refl 1⟩

def Cosine.zero : Cosine := ⟨0, by norm_num⟩

/-! ### JSON -/

mutual
/-- What `json.loads` can return. -/
inductive Json where
  | null
  | bool (b : Bool)
  | num (q : ℚ)
  | str (s : String)
  | arr (xs : JsonArr)
  | obj (kvs : JsonObj)
  deriving DecidableEq

inductive JsonArr where
  | nil
  | cons (x : Json) (xs : JsonArr)
  deriving DecidableEq

inductive JsonObj where
  | nil
  | cons (k : String) (v : Json) (kvs : JsonObj)
  deriving DecidableEq
end

/-- A dict literal. -/
def JsonObj.ofList : List (String × Json) → JsonObj
  | [] => .nil
  | (k, v) :: rest => .cons k v (ofList rest)

def JsonArr.ofList : List Json → JsonArr
  | [] => .nil
  | x :: rest => .cons x (ofList rest)

/-- `dict.get(key)`. -/
def JsonObj.lookup (key : String) : JsonObj → Option Json
  | .nil => none
  | .cons k v rest => if k = key then some v else rest.lookup key

/-- `len(dict)`. -/
def JsonObj.length : JsonObj → ℕ
  | .nil => 0
  | .cons _ _ rest => rest.length + 1

/-- Some entry of the dict satisfies `p`. -/
def JsonObj.any (p : String → Json → Bool) : JsonObj → Bool
  | .nil => false
  | .cons k v rest => p k v || rest.any p

mutual
/-- Python's `==`. A bool equals the number it stands for, and dicts compare without order. -/
def Json.pyEq : Json → Json → Bool
  | .null, .null => true
  | .bool a, .bool b => a == b
  | .bool a, .num q => (if a then 1 else 0) == q
  | .num q, .bool a => q == (if a then 1 else 0)
  | .num p, .num q => p == q
  | .str s, .str t => s == t
  | .arr xs, .arr ys => xs.pyEq ys
  | .obj a, .obj b => a.length == b.length && a.within b
  | _, _ => false

def JsonArr.pyEq : JsonArr → JsonArr → Bool
  | .nil, .nil => true
  | .cons x xs, .cons y ys => x.pyEq y && xs.pyEq ys
  | _, _ => false

/-- Every entry of the first dict has an equal one under its key in the second. -/
def JsonObj.within : JsonObj → JsonObj → Bool
  | .nil, _ => true
  | .cons k v rest, b => b.any (fun k' v' => k == k' && v.pyEq v') && rest.within b
end

/-- Dict `b` extends `a` at the front. -/
inductive JsonObj.Suffix : JsonObj → JsonObj → Prop where
  | refl (a) : Suffix a a
  | cons {a b} (k v) : Suffix a b → Suffix a (.cons k v b)

theorem JsonObj.Suffix.tail {k : String} {v : Json} {a b : JsonObj} (h : Suffix (.cons k v a) b) :
    Suffix a b := by
  induction h with
  | refl => exact .cons k v (.refl a)
  | cons k' v' _ ih => exact .cons k' v' ih

theorem JsonObj.any_of_suffix {p : String → Json → Bool} {k : String} {v : Json} {a b : JsonObj}
    (h : Suffix (.cons k v a) b) (hp : p k v = true) : b.any p = true := by
  induction h with
  | refl => simp [JsonObj.any, hp]
  | cons _ _ _ ih => simp [JsonObj.any, ih]

mutual
theorem Json.pyEq_refl : ∀ x : Json, x.pyEq x = true
  | .null => rfl
  | .bool b => by simp [Json.pyEq]
  | .num q => by simp [Json.pyEq]
  | .str s => by simp [Json.pyEq]
  | .arr xs => by simpa [Json.pyEq] using JsonArr.pyEq_refl xs
  | .obj a => by simpa [Json.pyEq] using JsonObj.within_of_suffix a a (.refl a)

theorem JsonArr.pyEq_refl : ∀ xs : JsonArr, xs.pyEq xs = true
  | .nil => rfl
  | .cons x xs => by simp [JsonArr.pyEq, Json.pyEq_refl x, JsonArr.pyEq_refl xs]

theorem JsonObj.within_of_suffix : ∀ a b : JsonObj, JsonObj.Suffix a b → a.within b = true
  | .nil, _, _ => rfl
  | .cons k v rest, b, h => by
      have hv : b.any (fun k' v' => k == k' && v.pyEq v') = true :=
        JsonObj.any_of_suffix h (by simp [Json.pyEq_refl v])
      simp [JsonObj.within, hv, JsonObj.within_of_suffix rest b h.tail]
end

/-- `str | float | bool | dict[str, object]`: a list is deliberately not a member. -/
inductive ObjectValue where
  | str (s : String)
  | num (q : ℚ)
  | bool (b : Bool)
  | dict (kvs : JsonObj)
  deriving DecidableEq

/-- `json.dumps` into the JSONB column. -/
def ObjectValue.toJson : ObjectValue → Json
  | .str s => .str s
  | .num q => .num q
  | .bool b => .bool b
  | .dict kvs => .obj kvs

/-- `json.loads` back out of it, as the model's field accepts it. -/
def ObjectValue.ofJson : Json → Option ObjectValue
  | .str s => some (.str s)
  | .num q => some (.num q)
  | .bool b => some (.bool b)
  | .obj kvs => some (.dict kvs)
  | .null => none
  | .arr _ => none

@[simp] theorem ObjectValue.ofJson_toJson (o : ObjectValue) : ofJson o.toJson = some o := by
  cases o <;> rfl

/-- `left == right` on two object values. -/
def ObjectValue.pyEq (a b : ObjectValue) : Bool := a.toJson.pyEq b.toJson

@[simp] theorem ObjectValue.pyEq_refl (o : ObjectValue) : o.pyEq o = true := Json.pyEq_refl _

/-! ### Exceptions -/

/-- What a call can raise. The last five are the database driver's. -/
inductive Exc where
  | StoreUnavailable
  | ProviderUnavailable
  | DeadlineExceeded
  | ConcurrencyConflict (message : String)
  | ValidationRejected (message : String)
  | PolicyDenied
  | InjectionDetected
  | BudgetExceeded
  | ValidationError (field : String)
  | ValueError (message : String)
  | TypeError (message : String)
  | KeyError (message : String)
  | DataError (value : String)
  | CheckViolation (constraint : String)
  | ForeignKeyViolation (column : String)
  | InsufficientPrivilege (table : String)
  | RaiseException (message : String)
  deriving DecidableEq

/-- `GuardMemError.code`, for the domain's own errors. -/
def Exc.code : Exc → Option String
  | .ValidationRejected _ => some "GM_VALIDATION"
  | .PolicyDenied => some "GM_POLICY"
  | .InjectionDetected => some "GM_INJECTION"
  | .BudgetExceeded => some "GM_BUDGET"
  | .ProviderUnavailable => some "GM_PROVIDER"
  | .DeadlineExceeded => some "GM_DEADLINE"
  | .StoreUnavailable => some "GM_STORE"
  | .ConcurrencyConflict _ => some "GM_CONFLICT"
  | _ => none

/-- `GuardMemError.retryable`; nothing else is. -/
def Exc.retryable : Exc → Bool
  | .ProviderUnavailable | .DeadlineExceeded | .StoreUnavailable | .ConcurrencyConflict _ => true
  | _ => false

/-- `uuid5(NAMESPACE_URL, name)` as text, taken to be injective. `valid` is what a `::uuid` cast
    accepts: hex digits and dashes, so never a slash. -/
structure Uuid5 where
  of : String → String
  injective : Function.Injective of
  valid : String → Bool
  valid_of : ∀ name, valid (of name) = true
  slashless : ∀ s, valid s = true → '/' ∉ s.toList

end GuardMem
