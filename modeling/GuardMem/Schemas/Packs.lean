import GuardMem.Pipeline.SchemaGate
import GuardMem.Schemas.Document

/-! Ontology packs: `schemas/ontology.py`, from a pack's document to the vocabulary the gate reads.

    CORRECT: the YAML that a prompt shows of a pack loads as that pack (`parse_shown`); and a pack that
    loads is the one its name names and says what its file says (`load_ontology_keeps`). -/

namespace GuardMem.Packs

open Lib.JsonSchema

variable (lib : Library)

/-! ### The pack -/

def Cardinality.value : Cardinality → String
  | .ONE => "one"
  | .MANY => "many"
  | .ONE_PER_TIME => "one_per_time"

def PiiClass.value : PiiClass → String
  | .NONE => "none"
  | .QUASI_IDENTIFIER => "quasi_identifier"
  | .DIRECT => "direct"
  | .SPECIAL_CATEGORY => "special_category"

def Irreversibility.value : Irreversibility → String
  | .REVERSIBLE => "reversible"
  | .PARTIAL => "partial"
  | .IRREVERSIBLE => "irreversible"

def ScalarType.value : ScalarType → String
  | .text => "text"
  | .boolean => "boolean"
  | .number => "number"

/-- A member of an enumeration, from its value in JSON. -/
def member {α : Type} (value : α → String) (members : List α) : Value → Option α
  | .leaf (.str s) => members.find? fun a => value a == s
  | _ => none

def cardinality : Value → Option Cardinality := member Cardinality.value [.ONE, .MANY, .ONE_PER_TIME]

def impact : Value → Option ImpactLevel := member ImpactLevel.value [.LOW, .MEDIUM, .HIGH, .CRITICAL]

def pii_class : Value → Option PiiClass :=
  member PiiClass.value [.NONE, .QUASI_IDENTIFIER, .DIRECT, .SPECIAL_CATEGORY]

def irreversibility : Value → Option Irreversibility :=
  member Irreversibility.value [.REVERSIBLE, .PARTIAL, .IRREVERSIBLE]

def min_source_tier : Value → Option SourceTier :=
  member SourceTier.value [.TRUSTED_SYSTEM, .VERIFIED_USER, .UNVERIFIED_USER, .TOOL_OUTPUT, .RETRIEVED_WEB]

/-- `str` with `min_length=1`. -/
def given : Value → Option String
  | .leaf (.str s) => if s = "" then none else some s
  | _ => none

/-- What an object has under a key, the last entry of it counting. -/
def field (entries : Entries) (key : String) : Option Value := entries.reverse.lookup key

/-- `extra="forbid"`. -/
def only (fields : List String) (entries : Entries) : Bool := entries.all fun e => e.1 ∈ fields

/-- `ObjectSpec`, discriminated on `type`. -/
def object_spec : Value → Option ObjectSpec
  | .obj entries =>
      match field entries "type" with
      | some (.leaf (.str "coded")) =>
          if only ["type", "system"] entries then
            ((field entries "system").bind given).map .coded
          else none
      | some (.leaf (.str "entity_ref")) =>
          if only ["type", "entity"] entries then
            ((field entries "entity").bind given).map .entity_ref
          else none
      | some type =>
          if only ["type"] entries then
            (member ScalarType.value [.text, .boolean, .number] type).map .scalar
          else none
      | none => none
  | _ => none

def requires_corroboration : Option Value → Option Bool
  | none => some false
  | some (.leaf (.bool b)) => some b
  | _ => none

def fields : List String :=
  ["subject", "object", "cardinality", "impact", "pii_class", "irreversibility", "min_source_tier",
    "requires_corroboration"]

def predicate_spec : Value → Option PredicateDecl
  | .obj entries =>
      if only fields entries then do
        let subject ← (field entries "subject").bind given
        let object ← (field entries "object").bind object_spec
        let cardinality ← (field entries "cardinality").bind cardinality
        let impact ← (field entries "impact").bind impact
        let pii_class ← (field entries "pii_class").bind pii_class
        let irreversibility ← (field entries "irreversibility").bind irreversibility
        let min_source_tier ← (field entries "min_source_tier").bind min_source_tier
        let requires_corroboration ← requires_corroboration (field entries "requires_corroboration")
        some ⟨⟨subject, cardinality, impact, requires_corroboration⟩, object, pii_class, irreversibility,
          min_source_tier⟩
      else none
  | _ => none

/-- The entity types a predicate refers to, each with the field that does. -/
def references (spec : PredicateDecl) : List (String × String) :=
  ("subject", spec.subject) ::
    match spec.object with
    | .entity_ref entity => [("object.entity", entity)]
    | _ => []

/-- No text of a predicate is empty. -/
structure Given (spec : PredicateDecl) : Prop where
  subject : spec.subject ≠ ""
  system : ∀ system, spec.object = .coded system → system ≠ ""
  entity : ∀ entity, spec.object = .entity_ref entity → entity ≠ ""

/-- A key of a dict assigned: a new one goes last. -/
def set {α : Type} (key : String) (value : α) : List (String × α) → List (String × α)
  | [] => [(key, value)]
  | (k, v) :: rest => if k = key then (k, value) :: rest else (k, v) :: set key value rest

/-- The fields of a pack. -/
structure Parts where
  name : String
  version : ℤ
  entities : List String
  predicates : List (String × PredicateDecl)

/-- What each field is held to. -/
structure Parts.Valid (p : Parts) : Prop where
  named : p.name ≠ ""
  versioned : 1 ≤ p.version
  peopled : p.entities ≠ []
  worded : p.predicates ≠ []
  keyed : (p.predicates.map Prod.fst).Nodup
  given : ∀ q ∈ p.predicates, Given q.2

/-- Every reference is to an entity type that is declared. -/
def Parts.Declared (p : Parts) : Prop :=
  ∀ q ∈ p.predicates, ∀ r ∈ references q.2, r.2 ∈ p.entities

instance (p : Parts) : Decidable p.Declared :=
  inferInstanceAs (Decidable (∀ q ∈ p.predicates, ∀ r ∈ references q.2, r.2 ∈ p.entities))

/-- One versioned pack: the entity types and the predicates on them. -/
structure Ontology extends Parts where
  valid : toParts.Valid
  declared : toParts.Declared

/-- Every reference to an entity type that is not declared, in the order of the texts. -/
def dangling (entities : List String) (predicates : List (String × PredicateDecl)) : List String :=
  (predicates.flatMap fun p => ((references p.2).filter fun r => r.2 ∉ entities).map fun r =>
    p.1 ++ "." ++ r.1 ++ " -> " ++ lib.repr (.str r.2)).insertionSort (· ≤ ·)

/-- A list of texts, printed. -/
def repr_list (texts : List String) : String :=
  "[" ++ ", ".intercalate (texts.map fun text => lib.repr (.str text)) ++ "]"

def undeclared (entities dangling : List String) : String :=
  "undeclared entity types: " ++ repr_list lib dangling ++ ". Declared: " ++
    repr_list lib (entities.dedup.insertionSort (· ≤ ·)) ++
    ". Every subject and every entity_ref target must name a type in " ++
    "`entities`, or it is a predicate nothing can ever match."

def texts : List Value → Option (List String)
  | [] => some []
  | .leaf (.str s) :: items => (texts items).map (s :: ·)
  | _ => none

def entities : Value → Option (List String)
  | .arr items => if items = [] then none else texts items
  | _ => none

def specs : Entries → Option (List (String × PredicateDecl))
  | [] => some []
  | (key, value) :: entries =>
      (predicate_spec value).bind fun spec => (specs entries).map ((key, spec) :: ·)

def predicates : Value → Option (List (String × PredicateDecl))
  | .obj entries =>
      if entries = [] then none
      else (specs entries).map fun pairs => pairs.foldl (fun dict p => set p.1 p.2 dict) []
  | _ => none

def version : Value → Option ℤ
  | .leaf (.int n) => if 1 ≤ n then some n else none
  | _ => none

def part_names : List String := ["name", "version", "entities", "predicates"]

def parts : Value → Option Parts
  | .obj entries_ =>
      if only part_names entries_ then do
        let name ← (field entries_ "name").bind given
        let version ← (field entries_ "version").bind version
        let entities ← (field entries_ "entities").bind entities
        let predicates ← (field entries_ "predicates").bind predicates
        some ⟨name, version, entities, predicates⟩
      else none
  | _ => none

/-! ### Valid fields -/

theorem given_ok {v : Value} {s : String} : given v = some s ↔ v = .leaf (.str s) ∧ s ≠ "" := by
  unfold given
  split
  · split <;> simp_all [eq_comm]
  · simp_all

theorem object_spec_given {v : Value} {spec : ObjectSpec} (h : object_spec v = some spec) :
    (∀ system, spec = .coded system → system ≠ "") ∧ ∀ entity, spec = .entity_ref entity → entity ≠ "" := by
  rcases v with _ | _ | entries
  · cases h
  · cases h
  · rw [object_spec] at h
    split at h
    · split at h
      · obtain ⟨system, hs, rfl⟩ := Option.map_eq_some_iff.mp h
        obtain ⟨w, -, hw⟩ := Option.bind_eq_some_iff.mp hs
        have hne := (given_ok.mp hw).2
        simp [hne]
      · cases h
    · split at h
      · obtain ⟨entity, hs, rfl⟩ := Option.map_eq_some_iff.mp h
        obtain ⟨w, -, hw⟩ := Option.bind_eq_some_iff.mp hs
        have hne := (given_ok.mp hw).2
        simp [hne]
      · cases h
    · split at h
      · obtain ⟨type, -, rfl⟩ := Option.map_eq_some_iff.mp h
        simp
      · cases h
    · cases h

theorem predicate_spec_given {v : Value} {spec : PredicateDecl} (h : predicate_spec v = some spec) :
    Given spec := by
  rcases v with _ | _ | entries
  · cases h
  · cases h
  · rw [predicate_spec] at h
    split at h
    · simp only [bind, Option.bind_eq_some_iff] at h
      obtain ⟨subject, ⟨u, -, hsubject⟩, object, ⟨w, -, hobject⟩, _, -, _, -, _, -, _, -, _, -, _, -, h⟩ := h
      obtain rfl := Option.some.inj h
      exact ⟨(given_ok.mp hsubject).2, (object_spec_given hobject).1, (object_spec_given hobject).2⟩
    · cases h

theorem mem_set {α : Type} {key : String} {value : α} {p : String × α} :
    ∀ {dict : List (String × α)}, p ∈ set key value dict → p = (key, value) ∨ p ∈ dict
  | [], h => .inl (List.mem_singleton.mp h)
  | (k, v) :: rest, h => by
      rw [set] at h
      split at h
      · rename_i hk
        rcases List.mem_cons.mp h with rfl | h
        · exact .inl (by rw [hk])
        · exact .inr (List.mem_cons_of_mem _ h)
      · rcases List.mem_cons.mp h with rfl | h
        · exact .inr List.mem_cons_self
        · exact (mem_set h).imp id (List.mem_cons_of_mem _)

theorem set_keys {α : Type} {key : String} {value : α} {dict : List (String × α)} :
    (set key value dict).map Prod.fst =
      if key ∈ dict.map Prod.fst then dict.map Prod.fst else dict.map Prod.fst ++ [key] := by
  induction dict with
  | nil => rfl
  | cons p rest ih =>
      obtain ⟨k, v⟩ := p
      rw [set]
      split
      · simp_all
      · rename_i hk
        have hk' : ¬ key = k := fun h => hk h.symm
        simp only [List.map_cons, ih, List.mem_cons, hk', false_or]
        split <;> simp

theorem set_nodup {α : Type} {key : String} {value : α} {dict : List (String × α)}
    (h : (dict.map Prod.fst).Nodup) : ((set key value dict).map Prod.fst).Nodup := by
  rw [set_keys]
  split
  · exact h
  · rename_i hkey
    exact List.nodup_append.mpr ⟨h, by simp, by simp; grind⟩

/-- A dict built of pairs holds some of them, each key once, and none only where there are none. -/
theorem dict_ok {α : Type} {pairs dict : List (String × α)} (hdict : (dict.map Prod.fst).Nodup) :
    let result := pairs.foldl (fun dict p => set p.1 p.2 dict) dict
    (result.map Prod.fst).Nodup ∧ (∀ p ∈ result, p ∈ dict ∨ p ∈ pairs) ∧
      (result = [] → dict = [] ∧ pairs = []) := by
  induction pairs generalizing dict with
  | nil => exact ⟨hdict, fun p hp => .inl hp, fun h => ⟨h, rfl⟩⟩
  | cons q pairs ih =>
      obtain ⟨hkeys, hmem, hnil⟩ := ih (@set_nodup α q.1 q.2 dict hdict)
      refine ⟨hkeys, fun p hp => ?_, fun h => ?_⟩
      · rcases hmem p hp with hp | hp
        · rcases mem_set hp with rfl | hp
          · exact .inr List.mem_cons_self
          · exact .inl hp
        · exact .inr (List.mem_cons_of_mem _ hp)
      · have hset := congrArg (List.map Prod.fst) (hnil h).1
        rw [set_keys] at hset
        split at hset <;> simp_all

theorem specs_given {entries : Entries} {pairs : List (String × PredicateDecl)}
    (h : specs entries = some pairs) : ∀ p ∈ pairs, Given p.2 := by
  induction entries generalizing pairs with
  | nil =>
      obtain rfl := Option.some.inj h
      simp
  | cons e entries ih =>
      obtain ⟨spec, hspec, h⟩ := Option.bind_eq_some_iff.mp h
      obtain ⟨rest, hrest, rfl⟩ := Option.map_eq_some_iff.mp h
      exact List.forall_mem_cons.mpr ⟨predicate_spec_given hspec, ih hrest⟩

theorem specs_ne_nil {entries : Entries} (hne : entries ≠ []) {pairs : List (String × PredicateDecl)}
    (h : specs entries = some pairs) : pairs ≠ [] := by
  rcases entries with _ | ⟨e, entries⟩
  · exact absurd rfl hne
  · obtain ⟨spec, -, h⟩ := Option.bind_eq_some_iff.mp h
    obtain ⟨rest, -, rfl⟩ := Option.map_eq_some_iff.mp h
    simp

theorem predicates_ok {v : Value} {dict : List (String × PredicateDecl)} (h : predicates v = some dict) :
    dict ≠ [] ∧ (dict.map Prod.fst).Nodup ∧ ∀ p ∈ dict, Given p.2 := by
  rcases v with _ | _ | entries
  · cases h
  · cases h
  · rw [predicates] at h
    split at h
    · cases h
    · rename_i hne
      obtain ⟨pairs, hpairs, rfl⟩ := Option.map_eq_some_iff.mp h
      obtain ⟨hkeys, hmem, hnil⟩ := @dict_ok _ pairs [] List.nodup_nil
      refine ⟨fun h => specs_ne_nil hne hpairs (hnil h).2, hkeys, fun p hp => ?_⟩
      exact specs_given hpairs p ((hmem p hp).resolve_left (by simp))

theorem texts_ok {items : List Value} {names : List String} :
    texts items = some names ↔ items = names.map fun name => .leaf (.str name) := by
  induction items generalizing names with
  | nil => cases names <;> simp [texts]
  | cons item items ih =>
      rcases item with s | _ | _
      · rcases s with _ | _ | _ | _ | s
        · cases names <;> simp [texts]
        · cases names <;> simp [texts]
        · cases names <;> simp [texts]
        · cases names <;> simp [texts]
        · rw [texts, Option.map_eq_some_iff]
          cases names with
          | nil => simp
          | cons name names => simp [ih, and_comm]
      · cases names <;> simp [texts]
      · cases names <;> simp [texts]

theorem entities_ok {v : Value} {names : List String} :
    entities v = some names ↔ v = .arr (names.map fun name => .leaf (.str name)) ∧ names ≠ [] := by
  rcases v with _ | items | _
  · simp [entities]
  · rw [entities]
    split
    · subst items
      cases names <;> simp
    · rw [texts_ok, Lib.Json.Tree.arr.injEq]
      refine ⟨fun h => ⟨h, ?_⟩, And.left⟩
      rintro rfl
      contradiction
  · simp [entities]

theorem version_ok {v : Value} {n : ℤ} : version v = some n ↔ v = .leaf (.int n) ∧ 1 ≤ n := by
  unfold version
  split
  · split <;> grind
  · simp_all

theorem parts_valid {document : Value} {p : Parts} (h : parts document = some p) : p.Valid := by
  rcases document with _ | _ | entries_
  · cases h
  · cases h
  · rw [parts] at h
    split at h
    · simp only [bind, Option.bind_eq_some_iff] at h
      obtain ⟨name, ⟨_, -, hn⟩, n, ⟨_, -, hv⟩, names, ⟨_, -, he⟩, dict, ⟨_, -, hp⟩, h⟩ := h
      obtain rfl := Option.some.inj h
      obtain ⟨hne, hkeys, hgiven⟩ := predicates_ok hp
      exact ⟨(given_ok.mp hn).2, (version_ok.mp hv).2, (entities_ok.mp he).2, hne, hkeys, hgiven⟩
    · cases h

/-! ### Loading -/

/-- `Ontology.model_validate_json`. -/
def model_validate_json (document : Value) : Except Raised Ontology :=
  match h : parts document with
  | some p =>
      if hd : p.Declared then .ok ⟨p, parts_valid h, hd⟩
      else .error (.ValidationError (undeclared lib p.entities (dangling lib p.entities p.predicates)))
  | none => .error .Invalid

/-- Validate one pack's YAML text. -/
def parse_ontology (raw source : String) : Except Raised Ontology :=
  match lib.compose raw with
  | .error text => .error (.ValueError (source ++ ": " ++ text))
  | .ok none => .error (.ValueError (not_a_mapping (.scalar .null)))
  | .ok (some node) =>
      match construct lib node with
      | .error (.ValueError text) => .error (.ValueError (source ++ ": " ++ text))
      | .error raised => .error raised
      | .ok (.dict entries) =>
          match dumps lib (.dict entries) with
          | .error text => .error (.ValueError (source ++ ": the pack holds a value JSON cannot carry (" ++
              text ++ "). An unquoted date is the usual cause - quote it."))
          | .ok document => model_validate_json lib document
      | .ok parsed => .error (.ValueError (not_a_mapping parsed))
where
  not_a_mapping (parsed : Data) : String :=
    source ++ ": an ontology pack must be a YAML mapping, got " ++ lib.type_of parsed

/-- The characters of a pack's name. -/
def PACK_NAME : List Char := "abcdefghijklmnopqrstuvwxyz0123456789_".toList

/-- The installed packs, by their names: what is in `ontology/<name>.yaml`. -/
structure Installed where
  root : String
  file : String → Option String

def Installed.path (packs : Installed) (name : String) : String := packs.root ++ "/" ++ name ++ ".yaml"

def load_ontology (packs : Installed) (name : String) : Except Raised Ontology :=
  if name = "" ∨ ¬ name.toList.all (· ∈ PACK_NAME) then
    .error (.ValueError ("ontology pack name " ++ lib.repr (.str name) ++
      " is not a single lowercase path segment; a name is a file under ontology/, never a path"))
  else
    let source := packs.path name
    match packs.file source with
    | none => .error (.FileNotFoundError ("no ontology pack at " ++ source ++ ". Packs live in " ++
        "packages/guardmem-core/src/guardmem_core/ontology/<name>.yaml (PROJECT_TREE.md)."))
    | some raw =>
        match parse_ontology lib raw source with
        | .error raised => .error raised
        | .ok ontology =>
            if ontology.name = name then .ok ontology
            else .error (.ValueError (source ++ ": the pack declares name " ++
              lib.repr (.str ontology.name) ++ " but sits at " ++ name ++ ".yaml. The filename is the " ++
              "identity a call site uses, so the two may not disagree."))

/-! ### Showing -/

def text (s : String) : Value := .leaf (.str s)

def object_dump : ObjectSpec → Value
  | .scalar type => .obj [("type", text (ScalarType.value type))]
  | .coded system => .obj [("type", text "coded"), ("system", text system)]
  | .entity_ref entity => .obj [("type", text "entity_ref"), ("entity", text entity)]

def predicate_dump (spec : PredicateDecl) : Value :=
  .obj [
    ("subject", text spec.subject),
    ("object", object_dump spec.object),
    ("cardinality", text (Cardinality.value spec.cardinality)),
    ("impact", text spec.impact.value),
    ("pii_class", text (PiiClass.value spec.pii_class)),
    ("irreversibility", text (Irreversibility.value spec.irreversibility)),
    ("min_source_tier", text spec.min_source_tier.value),
    ("requires_corroboration", .leaf (.bool spec.requires_corroboration))]

/-- `model_dump(mode="json")`. -/
def Parts.model_dump (p : Parts) : Value :=
  .obj [
    ("name", text p.name),
    ("version", .leaf (.int p.version)),
    ("entities", .arr (p.entities.map text)),
    ("predicates", .obj (p.predicates.map fun q => (q.1, predicate_dump q.2)))]

/-- Render a pack back to YAML, for the text a prompt is shown. -/
def Ontology.as_prompt_yaml (o : Ontology) : String := lib.safe_dump (plain o.model_dump)

/-- `Ontology.predicate`, of every name. -/
def Ontology.pack (o : Ontology) : Pack := fun name => o.predicates.lookup name

theorem distinct_object_dump (spec : ObjectSpec) : (object_dump spec).Distinct := by
  cases spec <;> simp [object_dump, text]

theorem distinct_model_dump {p : Parts} (hp : p.Valid) : p.model_dump.Distinct := by
  simp only [Parts.model_dump, Lib.Json.distinct_obj, List.map_cons, List.map_nil, List.forall_mem_cons,
    List.map_map]
  refine ⟨by simp, Lib.Json.distinct_leaf _, Lib.Json.distinct_leaf _, ?_, ?_, by simp⟩
  · simp [text]
  · refine ⟨hp.keyed, List.forall_mem_map.mpr fun q hq => ?_⟩
    simp [predicate_dump, distinct_object_dump, text]

@[simp] theorem given_text {s : String} (h : s ≠ "") : given (text s) = some s := given_ok.mpr ⟨rfl, h⟩

theorem object_spec_dump {spec : ObjectSpec} (hsystem : ∀ system, spec = .coded system → system ≠ "")
    (hentity : ∀ entity, spec = .entity_ref entity → entity ≠ "") :
    object_spec (object_dump spec) = some spec := by
  cases spec with
  | scalar type => cases type <;> rfl
  | coded system => exact congrArg (Option.map ObjectSpec.coded) (given_text (hsystem system rfl))
  | entity_ref entity => exact congrArg (Option.map ObjectSpec.entity_ref) (given_text (hentity entity rfl))

theorem predicate_spec_dump {spec : PredicateDecl} (h : Given spec) :
    predicate_spec (predicate_dump spec) = some spec := by
  obtain ⟨⟨subject, c, i, corroborated⟩, object, p, r, t⟩ := spec
  have hsubject : given (text subject) = some subject := given_text h.subject
  have hobject : object_spec (object_dump object) = some object := object_spec_dump h.system h.entity
  have hc : cardinality (text (Cardinality.value c)) = some c := by cases c <;> rfl
  have hi : impact (text i.value) = some i := by cases i <;> rfl
  have hp : pii_class (text (PiiClass.value p)) = some p := by cases p <;> rfl
  have hr : irreversibility (text (Irreversibility.value r)) = some r := by cases r <;> rfl
  have ht : min_source_tier (text t.value) = some t := by cases t <;> rfl
  simp [predicate_spec, predicate_dump, only, fields, field, hsubject, hobject, hc, hi, hp, hr, ht,
    requires_corroboration, List.lookup_cons]

theorem set_new {α : Type} {key : String} {value : α} {dict : List (String × α)}
    (h : key ∉ dict.map Prod.fst) : set key value dict = dict ++ [(key, value)] := by
  induction dict with
  | nil => rfl
  | cons p rest ih =>
      rw [List.map_cons, List.mem_cons, not_or] at h
      rw [set, if_neg (Ne.symm h.1), ih h.2, List.cons_append]

theorem foldl_set {α : Type} {pairs dict : List (String × α)}
    (h : ((dict ++ pairs).map Prod.fst).Nodup) :
    pairs.foldl (fun dict p => set p.1 p.2 dict) dict = dict ++ pairs := by
  induction pairs generalizing dict with
  | nil => simp
  | cons p pairs ih =>
      have hp : p.1 ∉ dict.map Prod.fst := by
        rw [List.map_append, List.map_cons] at h
        exact fun hmem => (List.nodup_append.mp h).2.2 p.1 hmem p.1 List.mem_cons_self rfl
      rw [List.foldl_cons, set_new hp, ih (by simpa using h), List.append_assoc, List.singleton_append]

theorem specs_dump {dict : List (String × PredicateDecl)} (h : ∀ q ∈ dict, Given q.2) :
    specs (dict.map fun q => (q.1, predicate_dump q.2)) = some dict := by
  induction dict with
  | nil => rfl
  | cons q dict ih =>
      obtain ⟨hq, hdict⟩ := List.forall_mem_cons.mp h
      simp [specs, predicate_spec_dump hq, ih hdict]

theorem parts_dump {p : Parts} (hp : p.Valid) : parts p.model_dump = some p := by
  have hname : given (text p.name) = some p.name := given_text hp.named
  have hversion : version (.leaf (.int p.version)) = some p.version := version_ok.mpr ⟨rfl, hp.versioned⟩
  have hentities : entities (.arr (p.entities.map text)) = some p.entities :=
    entities_ok.mpr ⟨rfl, hp.peopled⟩
  have hpredicates : predicates (.obj (p.predicates.map fun q => (q.1, predicate_dump q.2))) =
      some p.predicates := by
    rw [predicates, if_neg (by simpa using hp.worded), specs_dump hp.given]
    exact congrArg some (@foldl_set _ _ [] hp.keyed)
  simp [parts, Parts.model_dump, only, part_names, field, hname, hversion, hentities,
    hpredicates, List.lookup_cons]

theorem model_validate_json_ok {document : Value} {o : Ontology} :
    model_validate_json lib document = .ok o ↔ parts document = some o.toParts := by
  unfold model_validate_json
  split
  · rename_i p hp
    split
    · rw [Except.ok.injEq]
      refine ⟨fun h => h ▸ hp, fun h => ?_⟩
      obtain rfl := Option.some.inj (hp.symm.trans h)
      rfl
    · rename_i hd
      simp only [reduceCtorEq, false_iff, hp, Option.some.injEq]
      exact fun h => hd (h ▸ o.declared)
  · simp_all

/-! ### What a pack says -/

theorem field_of_nodup {entries : Entries} (h : (entries.map Prod.fst).Nodup) (key : String) :
    field entries key = entries.lookup key := by
  have hrev : (entries.reverse.map Prod.fst).Nodup := by
    rw [List.map_reverse]
    exact List.nodup_reverse.mpr h
  apply Option.ext
  intro v
  constructor
  · exact fun hv => lookup_of_mem h (List.mem_reverse.mp (mem_of_lookup hv))
  · exact fun hv => lookup_of_mem hrev (List.mem_reverse.mpr (mem_of_lookup hv))

/-- Two objects with the same keys are the same where their fields are. -/
theorem same_obj {entries other : Entries} (hkeys : (entries.map Prod.fst).Nodup)
    (hother : (other.map Prod.fst).Nodup) (honly : ∀ e ∈ entries, e.1 ∈ other.map Prod.fst)
    (h : ∀ e ∈ other, ∃ v, entries.lookup e.1 = some v ∧ same v e.2 = true) :
    same (.obj entries) (.obj other) = true := by
  have hperm : (entries.map Prod.fst).Perm (other.map Prod.fst) := by
    refine (List.perm_ext_iff_of_nodup hkeys hother).mpr fun key => ⟨fun hk => ?_, fun hk => ?_⟩
    · obtain ⟨e, he, rfl⟩ := List.mem_map.mp hk
      exact honly e he
    · obtain ⟨e, he, rfl⟩ := List.mem_map.mp hk
      obtain ⟨v, hv, -⟩ := h e he
      exact List.mem_map.mpr ⟨(e.1, v), mem_of_lookup hv, rfl⟩
  rw [same, Bool.and_eq_true, sameObj_iff]
  refine ⟨by simpa using hperm.length_eq, fun e he => ?_⟩
  obtain ⟨⟨key, w⟩, hw, hkey⟩ := List.mem_map.mp (honly e he)
  obtain rfl : key = e.1 := hkey
  obtain ⟨v, hv, hsame⟩ := h (e.1, w) hw
  obtain rfl : e.2 = v := Option.some.inj ((lookup_of_mem hkeys he).symm.trans hv)
  exact ⟨w, lookup_of_mem hother hw, hsame⟩

theorem same_leaf (a : Atom) : same (.leaf a) (.leaf a) = true := a.same_self

theorem member_ok {α : Type} {value : α → String} {members : List α} {v : Value} {a : α}
    (h : member value members v = some a) : v = text (value a) := by
  rcases v with s | _ | _
  · rcases s with _ | _ | _ | _ | s
    · cases h
    · cases h
    · cases h
    · cases h
    · have hvalue : (value a == s) = true := List.find?_some (p := fun a => value a == s) h
      rw [eq_of_beq hvalue, text]
  · cases h
  · cases h

theorem only_ok {names : List String} {entries : Entries} (h : only names entries = true) :
    ∀ e ∈ entries, e.1 ∈ names := by
  simpa [only] using h

/-- An object of a type and one more text, whatever the order of the two. -/
theorem reference_same {entries : Entries} {kind key name : String} (hkeys : (entries.map Prod.fst).Nodup)
    (hne : key ≠ "type") (honly : only ["type", key] entries = true)
    (htype : field entries "type" = some (text kind)) (hname : (field entries key).bind given = some name) :
    same (.obj entries) (.obj [("type", text kind), (key, text name)]) = true := by
  obtain ⟨w, hw, hgiven⟩ := Option.bind_eq_some_iff.mp hname
  obtain rfl := (given_ok.mp hgiven).1
  rw [field_of_nodup hkeys] at htype hw
  refine same_obj hkeys (by simp [hne.symm]) (only_ok honly) ?_
  simp [htype, hw, text, same_leaf]

theorem object_spec_same {v : Value} (hv : v.Distinct) {spec : ObjectSpec} (h : object_spec v = some spec) :
    same v (object_dump spec) = true := by
  rcases v with _ | _ | entries
  · cases h
  · cases h
  · have hkeys := (Lib.Json.distinct_obj.mp hv).1
    rw [object_spec] at h
    split at h
    · rename_i htype
      split at h
      · rename_i honly
        obtain ⟨system, hs, rfl⟩ := Option.map_eq_some_iff.mp h
        exact reference_same hkeys (by decide) honly htype hs
      · cases h
    · rename_i htype
      split at h
      · rename_i honly
        obtain ⟨entity, hs, rfl⟩ := Option.map_eq_some_iff.mp h
        exact reference_same hkeys (by decide) honly htype hs
      · cases h
    · rename_i htype
      split at h
      · rename_i honly
        obtain ⟨type, ht, rfl⟩ := Option.map_eq_some_iff.mp h
        obtain rfl := member_ok ht
        rw [field_of_nodup hkeys] at htype
        refine same_obj hkeys (by simp) (only_ok honly) ?_
        simp [htype, text, same_leaf]
      · cases h
    · cases h

/-- A predicate with its default filled in. -/
def settle_spec : Value → Value
  | .obj entries =>
      if (entries.lookup "requires_corroboration").isSome then .obj entries
      else .obj (entries ++ [("requires_corroboration", .leaf (.bool false))])
  | v => v

theorem requires_corroboration_ok {v : Option Value} {b : Bool} (h : requires_corroboration v = some b) :
    (v = none ∧ b = false) ∨ v = some (.leaf (.bool b)) := by
  unfold requires_corroboration at h
  split at h <;> simp_all

theorem predicate_spec_same {v : Value} (hv : v.Distinct) {spec : PredicateDecl}
    (h : predicate_spec v = some spec) : same (settle_spec v) (predicate_dump spec) = true := by
  rcases v with _ | _ | entries
  · cases h
  · cases h
  · obtain ⟨hkeys, hvalues⟩ := Lib.Json.distinct_obj.mp hv
    rw [predicate_spec] at h
    split at h
    · rename_i honly
      simp only [bind, Option.bind_eq_some_iff, field_of_nodup hkeys] at h
      obtain ⟨subject, ⟨_, hs, hs'⟩, object, ⟨w, ho, ho'⟩, c, ⟨_, hc, hc'⟩, i, ⟨_, hi, hi'⟩, p, ⟨_, hp, hp'⟩,
        r, ⟨_, hr, hr'⟩, t, ⟨_, ht, ht'⟩, b, hb, h⟩ := h
      obtain rfl := Option.some.inj h
      obtain rfl := (given_ok.mp hs').1
      obtain rfl := member_ok hc'
      obtain rfl := member_ok hi'
      obtain rfl := member_ok hp'
      obtain rfl := member_ok hr'
      obtain rfl := member_ok ht'
      have hobject := object_spec_same (hvalues _ (mem_of_lookup ho)) ho'
      rcases requires_corroboration_ok hb with ⟨hnone, rfl⟩ | hsome
      · have hfresh : "requires_corroboration" ∉ entries.map Prod.fst := by
          intro hmem
          obtain ⟨e, he, hkey⟩ := List.mem_map.mp hmem
          rw [← hkey, lookup_of_mem hkeys he] at hnone
          cases hnone
        rw [settle_spec, hnone]
        refine same_obj ?_ (by simp) ?_ ?_
        · rw [List.map_append]
          refine List.nodup_append.mpr ⟨hkeys, by simp, fun key hkey last hlast => ?_⟩
          obtain rfl := List.mem_singleton.mp hlast
          rintro rfl
          exact hfresh hkey
        · intro e he
          rcases List.mem_append.mp he with he | he
          · exact only_ok honly e he
          · obtain rfl := List.mem_singleton.mp he
            simp
        · simp [List.lookup_append, hs, ho, hc, hi, hp, hr, ht, hnone, hobject, text, same_leaf]
          exact fun key v hmem hkey => hfresh (List.mem_map.mpr ⟨(key, v), hmem, hkey.symm⟩)
      · rw [settle_spec, hsome]
        refine same_obj hkeys (by simp) (only_ok honly) ?_
        simp [hs, ho, hc, hi, hp, hr, ht, hsome, hobject, text, same_leaf]
    · cases h

/-- A pack's predicates with their defaults filled in. -/
def settle_specs : Value → Value
  | .obj entries => .obj (entries.map fun e => (e.1, settle_spec e.2))
  | v => v

/-- A pack's document with the defaults filled in. -/
def settle : Value → Value
  | .obj entries => .obj (entries.map fun e => (e.1, if e.1 = "predicates" then settle_specs e.2 else e.2))
  | v => v

theorem specs_keys {entries : Entries} {pairs : List (String × PredicateDecl)}
    (h : specs entries = some pairs) : pairs.map Prod.fst = entries.map Prod.fst := by
  induction entries generalizing pairs with
  | nil =>
      obtain rfl := Option.some.inj h
      rfl
  | cons e entries ih =>
      obtain ⟨spec, hspec, h⟩ := Option.bind_eq_some_iff.mp h
      obtain ⟨rest, hrest, rfl⟩ := Option.map_eq_some_iff.mp h
      simp [ih hrest]

theorem specs_same {entries : Entries} (hvalues : ∀ e ∈ entries, e.2.Distinct)
    {pairs : List (String × PredicateDecl)} (h : specs entries = some pairs) :
    ∀ q ∈ pairs, ∃ v, (q.1, v) ∈ entries ∧ same (settle_spec v) (predicate_dump q.2) = true := by
  induction entries generalizing pairs with
  | nil =>
      obtain rfl := Option.some.inj h
      simp
  | cons e entries ih =>
      obtain ⟨spec, hspec, h⟩ := Option.bind_eq_some_iff.mp h
      obtain ⟨rest, hrest, rfl⟩ := Option.map_eq_some_iff.mp h
      obtain ⟨hfirst, hvalues⟩ := List.forall_mem_cons.mp hvalues
      refine List.forall_mem_cons.mpr ⟨⟨e.2, List.mem_cons_self, predicate_spec_same hfirst hspec⟩, ?_⟩
      intro q hq
      obtain ⟨v, hv, hsame⟩ := ih hvalues hrest q hq
      exact ⟨v, List.mem_cons_of_mem _ hv, hsame⟩

/-- The predicates of a pack are those of its document, in the order they stand there. -/
theorem predicates_same {v : Value} (hv : v.Distinct) {dict : List (String × PredicateDecl)}
    (h : predicates v = some dict) :
    (∃ entries, v = .obj entries ∧ dict.map Prod.fst = entries.map Prod.fst) ∧
      same (settle_specs v) (.obj (dict.map fun q => (q.1, predicate_dump q.2))) = true := by
  rcases v with _ | _ | entries
  · cases h
  · cases h
  · obtain ⟨hkeys, hvalues⟩ := Lib.Json.distinct_obj.mp hv
    rw [predicates] at h
    split at h
    · cases h
    · obtain ⟨pairs, hpairs, rfl⟩ := Option.map_eq_some_iff.mp h
      have hnames := specs_keys hpairs
      have hdict : pairs.foldl (fun dict p => set p.1 p.2 dict) [] = pairs :=
        @foldl_set _ _ [] (by simpa [hnames] using hkeys)
      rw [hdict]
      refine ⟨⟨entries, rfl, hnames⟩, same_obj ?_ ?_ ?_ ?_⟩
      · simpa [Function.comp_def] using hkeys
      · simpa [Function.comp_def, hnames] using hkeys
      · intro e he
        obtain ⟨e', he', rfl⟩ := List.mem_map.mp he
        have hmem : e'.1 ∈ pairs.map Prod.fst := hnames ▸ List.mem_map_of_mem he'
        simpa [Function.comp_def] using hmem
      · rw [List.forall_mem_map]
        intro q hq
        obtain ⟨v, hv, hsame⟩ := specs_same hvalues hpairs q hq
        refine ⟨settle_spec v, ?_, hsame⟩
        rw [lookup_map, lookup_of_mem hkeys hv]
        rfl

theorem same_texts (names : List String) :
    same (.arr (names.map text)) (.arr (names.map text)) = true := by
  rw [same, sameArr_iff, List.forall₂_map_left_iff, List.forall₂_map_right_iff, List.forall₂_same]
  exact fun name _ => same_leaf (.str name)

/-- What a pack shows is what its document says. -/
theorem parts_same {document : Value} (hd : document.Distinct) {p : Parts} (h : parts document = some p) :
    same (settle document) p.model_dump = true := by
  rcases document with _ | _ | entries
  · cases h
  · cases h
  · obtain ⟨hkeys, hvalues⟩ := Lib.Json.distinct_obj.mp hd
    rw [parts] at h
    split at h
    · rename_i honly
      simp only [bind, Option.bind_eq_some_iff, field_of_nodup hkeys] at h
      obtain ⟨name, ⟨_, hn, hn'⟩, n, ⟨_, hv, hv'⟩, names, ⟨_, he, he'⟩, dict, ⟨w, hp, hp'⟩, h⟩ := h
      obtain rfl := Option.some.inj h
      obtain rfl := (given_ok.mp hn').1
      obtain rfl := (version_ok.mp hv').1
      obtain rfl := (entities_ok.mp he').1
      obtain ⟨-, hpredicates⟩ := predicates_same (hvalues _ (mem_of_lookup hp)) hp'
      have hlookup : ∀ key v, entries.lookup key = some v →
          (entries.map fun e => (e.1, if e.1 = "predicates" then settle_specs e.2 else e.2)).lookup key =
            some (if key = "predicates" then settle_specs v else v) := by
        intro key v hkey
        refine lookup_of_mem (by simpa [Function.comp_def] using hkeys) ?_
        exact List.mem_map.mpr ⟨(key, v), mem_of_lookup hkey, rfl⟩
      refine same_obj (by simpa [Function.comp_def] using hkeys) (by simp) ?_ ?_
      · intro e he
        obtain ⟨e', he', rfl⟩ := List.mem_map.mp he
        exact only_ok honly e' he'
      · simp [hlookup _ _ hn, hlookup _ _ hv, hlookup _ _ he, hlookup _ _ hp, hpredicates, text, same_leaf]
        exact same_texts names
    · cases h

/-- A text is a pack's exactly where what it says, with no key twice, is fields that hold together. -/
theorem parse_ontology_ok {raw source : String} {o : Ontology} :
    parse_ontology lib raw source = .ok o ↔ ∃ node entries document,
      lib.compose raw = .ok (some node) ∧ read node = some (.dict entries) ∧ (Data.dict entries).Distinct ∧
        dumps lib (.dict entries) = .ok document ∧ parts document = some o.toParts := by
  unfold parse_ontology
  rcases hcompose : lib.compose raw with e | _ | node
  · simp
  · simp
  · dsimp only
    rcases hconstruct : construct lib node with e | d
    · have hno : ∀ entries, read node = some (.dict entries) → ¬ (Data.dict entries).Distinct := by
        intro entries hread hd
        rw [(construct_iff lib).mpr ⟨hread, hd⟩] at hconstruct
        cases hconstruct
      have hfail : ¬ ∃ node' entries document, (Except.ok (some node) : Except String _) = .ok (some node') ∧
          read node' = some (.dict entries) ∧ (Data.dict entries).Distinct ∧
            dumps lib (.dict entries) = .ok document ∧ parts document = some o.toParts := by
        rintro ⟨node', entries, -, hnode, hread, hd, -⟩
        obtain rfl := Option.some.inj (Except.ok.inj hnode)
        exact hno entries hread hd
      cases e <;> simpa using hfail
    · obtain ⟨hread, hd⟩ := (construct_iff lib).mp hconstruct
      rcases d with s | items | entries
      · simp [hread]
      · simp [hread]
      · dsimp only
        rcases hdumps : dumps lib (.dict entries) with e | document
        · constructor
          · rintro ⟨⟩
          · rintro ⟨node', entries', document, hnode, hread', -, hdumps', -⟩
            obtain rfl := Option.some.inj (Except.ok.inj hnode)
            obtain rfl := Data.dict.inj (Option.some.inj (hread.symm.trans hread'))
            rw [hdumps] at hdumps'
            cases hdumps'
        · refine (model_validate_json_ok lib).trans ?_
          constructor
          · exact fun h => ⟨node, entries, document, rfl, hread, hd, hdumps, h⟩
          · rintro ⟨node', entries', document', hnode, hread', -, hdumps', h⟩
            obtain rfl := Option.some.inj (Except.ok.inj hnode)
            obtain rfl := Data.dict.inj (Option.some.inj (hread.symm.trans hread'))
            obtain rfl := Except.ok.inj (hdumps.symm.trans hdumps')
            exact h

/-- The YAML that a prompt shows of a pack loads as that pack. -/
theorem parse_shown (o : Ontology) (source : String)
    (hyaml : ∃ node, lib.compose (o.as_prompt_yaml lib) = .ok (some node) ∧
      read node = some (plain o.model_dump)) :
    parse_ontology lib (o.as_prompt_yaml lib) source = .ok o := by
  obtain ⟨node, hcompose, hread⟩ := hyaml
  refine (parse_ontology_ok lib).mpr ⟨node, _, o.model_dump, hcompose, hread, ?_, ?_, parts_dump o.valid⟩
  · exact plain_distinct (distinct_model_dump o.valid)
  · exact dumps_plain lib o.model_dump

/-! ### A small pack -/

def lab_yaml : String :=
  "name: lab\nversion: 1\nentities:\n- Patient\npredicates:\n  weight_kg:\n    subject: Patient\n" ++
  "    object:\n      type: number\n    cardinality: one\n    impact: low\n" ++
  "    pii_class: special_category\n    irreversibility: partial\n    min_source_tier: tool_output\n" ++
  "    requires_corroboration: false\n"

def word (s : String) : Node := .scalar (.str s)

def lab_node : Node := .map [
  (0, word "name", word "lab"), (1, word "version", .scalar (.int 1)),
  (2, word "entities", .seq [word "Patient"]),
  (4, word "predicates", .map [(5, word "weight_kg", .map [
    (6, word "subject", word "Patient"), (7, word "object", .map [(8, word "type", word "number")]),
    (9, word "cardinality", word "one"), (10, word "impact", word "low"),
    (11, word "pii_class", word "special_category"), (12, word "irreversibility", word "partial"),
    (13, word "min_source_tier", word "tool_output"),
    (14, word "requires_corroboration", .scalar (.bool false))])])]

def weight_kg : PredicateDecl :=
  ⟨⟨"Patient", .ONE, .LOW, false⟩, .scalar .number, .SPECIAL_CATEGORY, .PARTIAL, .TOOL_OUTPUT⟩

theorem patient_given : Given weight_kg := ⟨by decide, nofun, nofun⟩

def lab : Ontology where
  name := "lab"
  version := 1
  entities := ["Patient"]
  predicates := [("weight_kg", weight_kg)]
  valid := {
    named := by decide
    versioned := le_refl 1
    peopled := List.cons_ne_nil _ _
    worded := List.cons_ne_nil _ _
    keyed := List.nodup_singleton _
    given := List.forall_mem_singleton.mpr patient_given }
  declared := by decide

/-- Printers and readers that know the one pack. -/
def lab_library : Library where
  compose raw := if raw = lab_yaml then .ok (some lab_node) else .error "not read here"
  safe_dump _ := lab_yaml
  repr _ := ""
  repr_float _ := ""
  type_of _ := ""
  not_serializable _ := ""
  not_a_key _ := ""

theorem lab_composed : lab_library.compose lab_yaml = .ok (some lab_node) := by
  simp only [lab_library, if_true]

theorem lab_read : read lab_node = some (plain lab.model_dump) := rfl

theorem parse_shown_lab : parse_ontology lab_library (lab.as_prompt_yaml lab_library) "lab.yaml" = .ok lab :=
  parse_shown lab_library lab "lab.yaml" ⟨lab_node, lab_composed, lab_read⟩

/-- A pack that loads is the one its name names, has lost nothing on the way from its file but what
    JSON writes as one key, and says nothing that the file does not but the default. -/
theorem load_ontology_keeps {packs : Installed} {name : String} {o : Ontology}
    (h : load_ontology lib packs name = .ok o) :
    (name ≠ "" ∧ ∀ c ∈ name.toList, c ∈ PACK_NAME) ∧ o.name = name ∧
      ∃ raw node d document, packs.file (packs.path name) = some raw ∧
        lib.compose raw = .ok (some node) ∧ read node = some d ∧ d.Distinct ∧
        dumps lib d = .ok document ∧
        (document.Distinct → same (settle document) o.model_dump = true) := by
  unfold load_ontology at h
  split at h
  · cases h
  · rename_i hname
    rw [not_or, not_not, List.all_eq_true] at hname
    dsimp only at h
    split at h
    · cases h
    · rename_i raw hraw
      split at h
      · cases h
      · rename_i loaded hloaded
        split at h
        · rename_i hnamed
          obtain rfl := Except.ok.inj h
          obtain ⟨node, entries, document, hcompose, hread, hd, hdumps, hparts⟩ :=
            (parse_ontology_ok lib).mp hloaded
          refine ⟨⟨hname.1, by simpa using hname.2⟩, hnamed, raw, node, _, document, hraw, hcompose, hread,
            hd, hdumps, fun hdoc => parts_same hdoc hparts⟩
        · cases h

def installed : Installed where
  root := "ontology"
  file path := if path = "ontology/lab.yaml" then some lab_yaml else none

theorem lab_installed : installed.file (installed.path "lab") = some lab_yaml := by
  have hpath : installed.path "lab" = "ontology/lab.yaml" := rfl
  rw [hpath]
  simp only [installed, if_true]

theorem lab_parsed (source : String) : parse_ontology lab_library lab_yaml source = .ok lab :=
  (parse_ontology_ok lab_library).mpr ⟨lab_node, _, lab.model_dump, lab_composed, lab_read,
    plain_distinct (distinct_model_dump lab.valid), dumps_plain lab_library lab.model_dump,
    parts_dump lab.valid⟩

theorem lab_loads : load_ontology lab_library installed "lab" = .ok lab := by
  rw [load_ontology, if_neg (by decide)]
  simp only [lab_installed, lab_parsed]
  exact if_pos rfl

theorem load_ontology_keeps_lab :
    lab.name = "lab" ∧ ∃ raw node d document, installed.file (installed.path "lab") = some raw ∧
      lab_library.compose raw = .ok (some node) ∧ read node = some d ∧ d.Distinct ∧
      dumps lab_library d = .ok document ∧
      (document.Distinct → same (settle document) lab.model_dump = true) :=
  (load_ontology_keeps lab_library lab_loads).2

end GuardMem.Packs
