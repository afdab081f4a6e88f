import GuardMem.Lib.Binary64
import GuardMem.Lib.Urllib
import GuardMem.Pipeline.Orchestrator
import GuardMem.Runs

/-! One composition of the program: the clinical pack's `preferred_language` over the NetworkX graph
    with the default thresholds and relay settings.

    The hash is a stand-in that escapes slashes; like the real one it is injective on what the program
    feeds it and yields no slash (`escape_injective`, `slash_not_mem_escape`). -/

namespace GuardMem.Clinical

/-- One character of a name, so that no slash is left and nothing is lost. -/
def escapeChar (c : Char) : List Char :=
  if c = '/' then ['%', 's'] else if c = '%' then ['%', '%'] else [c]

def escape (cs : List Char) : List Char := cs.flatMap escapeChar

theorem escapeChar_cases (c : Char) :
    (c = '/' ∧ escapeChar c = ['%', 's']) ∨ (c = '%' ∧ escapeChar c = ['%', '%']) ∨
      (c ≠ '/' ∧ c ≠ '%' ∧ escapeChar c = [c]) := by
  unfold escapeChar
  by_cases hs : c = '/'
  · exact Or.inl ⟨hs, if_pos hs⟩
  · by_cases hp : c = '%'
    · exact Or.inr (Or.inl ⟨hp, by rw [if_neg hs, if_pos hp]⟩)
    · exact Or.inr (Or.inr ⟨hs, hp, by rw [if_neg hs, if_neg hp]⟩)

/-- The escape of a character is a prefix code. -/
theorem escapeChar_append {c d : Char} {xs ys : List Char}
    (h : escapeChar c ++ xs = escapeChar d ++ ys) : c = d ∧ xs = ys := by
  rcases escapeChar_cases c with ⟨rfl, hc⟩ | ⟨rfl, hc⟩ | ⟨hs, hp, hc⟩ <;>
    rcases escapeChar_cases d with ⟨rfl, hd⟩ | ⟨rfl, hd⟩ | ⟨hs', hp', hd⟩ <;>
    simp only [hc, hd, List.cons_append, List.nil_append, List.cons.injEq] at h <;> grind

theorem escape_injective : ∀ {xs ys : List Char}, escape xs = escape ys → xs = ys
  | [], [], _ => rfl
  | [], d :: _, h => by
      rcases escapeChar_cases d with ⟨-, hd⟩ | ⟨-, hd⟩ | ⟨-, -, hd⟩ <;> simp [escape, hd] at h
  | c :: _, [], h => by
      rcases escapeChar_cases c with ⟨-, hc⟩ | ⟨-, hc⟩ | ⟨-, -, hc⟩ <;> simp [escape, hc] at h
  | c :: xs, d :: ys, h => by
      simp only [escape, List.flatMap_cons] at h
      obtain ⟨rfl, hrest⟩ := escapeChar_append h
      rw [escape_injective hrest]

theorem slash_not_mem_escape (xs : List Char) : '/' ∉ escape xs := by
  intro h
  obtain ⟨c, -, hc⟩ := List.mem_flatMap.mp h
  rcases escapeChar_cases c with ⟨-, he⟩ | ⟨-, he⟩ | ⟨hs, -, he⟩ <;> rw [he] at hc
  · simp at hc
  · simp at hc
  · exact hs (List.mem_singleton.mp hc).symm

/-- The stand-in for `uuid5`. -/
def uuid : Uuid5 where
  of name := String.ofList (escape name.toList)
  injective x y h := by
    have h := congrArg String.toList h
    simp only [String.toList_ofList] at h
    exact String.toList_injective (escape_injective h)
  valid s := '/' ∉ s.toList
  valid_of name := by simpa using slash_not_mem_escape name.toList
  slashless s h := by simpa using h

/-! ### A hash of letters

    It works byte by byte and begins with a letter that depends on the whole name, so that runs over many
    rows can be evaluated. -/

/-- Two letters for a byte. -/
def letters (b : UInt8) : List UInt8 := [97 + b / 16, 97 + b % 16]

def lettered (name : String) : List UInt8 :=
  (97 + name.toByteArray.data.toList.foldl (· + ·) 0 % 26) :: name.toByteArray.data.toList.flatMap letters

theorem letter_range (b : UInt8) : (97 ≤ 97 + b % 26 ∧ 97 + b % 26 < 128) ∧
    (97 ≤ 97 + b / 16 ∧ 97 + b / 16 < 128) ∧ 97 ≤ 97 + b % 16 ∧ 97 + b % 16 < 128 := by
  have h := b.toNat_lt
  simp only [UInt8.le_iff_toNat_le, UInt8.lt_iff_toNat_lt, UInt8.toNat_add, UInt8.toNat_mod, UInt8.toNat_div,
    UInt8.reduceToNat]
  omega

theorem mem_lettered {name : String} {b : UInt8} (h : b ∈ lettered name) : 97 ≤ b ∧ b < 128 := by
  rcases List.mem_cons.mp h with rfl | h
  · exact (letter_range _).1
  · obtain ⟨a, -, hb⟩ := List.mem_flatMap.mp h
    simp only [letters, List.mem_cons, List.not_mem_nil, or_false] at hb
    rcases hb with rfl | rfl
    · exact (letter_range a).2.1
    · exact (letter_range a).2.2

theorem letters_injective {a b : UInt8} (h : letters a = letters b) : a = b := by
  simp only [letters, List.cons.injEq, and_true] at h
  obtain ⟨hhigh, hlow⟩ := h
  have hhigh := congrArg UInt8.toNat hhigh
  have hlow := congrArg UInt8.toNat hlow
  have ha := a.toNat_lt
  have hb := b.toNat_lt
  rw [← UInt8.toNat_inj]
  simp only [UInt8.toNat_add, UInt8.toNat_mod, UInt8.toNat_div, UInt8.reduceToNat] at hhigh hlow
  omega

theorem flatMap_letters_injective : ∀ {xs ys : List UInt8}, xs.flatMap letters = ys.flatMap letters → xs = ys
  | [], [], _ => rfl
  | [], _ :: _, h => by simp [letters] at h
  | _ :: _, [], h => by simp [letters] at h
  | x :: xs, y :: ys, h => by
      obtain ⟨hhead, hrest⟩ := List.append_inj (h : letters x ++ _ = letters y ++ _) rfl
      rw [letters_injective hhead, flatMap_letters_injective hrest]

/-- ASCII bytes encode themselves. -/
theorem encode_ascii : ∀ {bs : List UInt8}, (∀ b ∈ bs, b < 128) →
    (bs.map Char.ofUInt8).flatMap String.utf8EncodeChar = bs
  | [], _ => rfl
  | b :: bs, h => by
      have hone : String.utf8EncodeChar (Char.ofUInt8 b) = [b] :=
        Lib.Urllib.encode_ascii b (h b List.mem_cons_self)
      rw [List.map_cons, List.flatMap_cons, hone, encode_ascii fun c hc => h c (List.mem_cons_of_mem _ hc)]
      rfl

def lettered_text (name : String) : String :=
  ⟨⟨⟨lettered name⟩⟩, .intro ((lettered name).map Char.ofUInt8) (by
    rw [List.utf8Encode, encode_ascii fun b hb => (mem_lettered hb).2]
    exact ByteArray.ext List.data_toByteArray.symm)⟩

/-- A slash is a byte of the text that has one. -/
theorem slash_byte {s : String} (h : '/' ∈ s.toList) : 47 ∈ s.toByteArray.data.toList := by
  rw [← String.ofList_toList (s := s), String.toByteArray_ofList, List.utf8Encode, List.data_toByteArray]
  exact List.mem_flatMap.mpr ⟨'/', h, by decide⟩

/-- The stand-in for `uuid5` that is quick to evaluate. -/
def lettered_uuid : Uuid5 where
  of := lettered_text
  injective x y h := by
    have hbytes := congrArg (fun s : String => s.toByteArray.data.toList) h
    have hnames := flatMap_letters_injective (List.cons.inj hbytes).2
    exact String.toByteArray_inj.mp (ByteArray.ext (Array.toList_inj.mp hnames))
  valid s := s.toByteArray.data.toList.all (97 ≤ ·)
  valid_of name := List.all_eq_true.mpr fun b hb => decide_eq_true (mem_lettered hb).1
  slashless s h hslash := absurd (List.all_eq_true.mp h 47 (slash_byte hslash)) (by decide)

/-- A probability given in percent. -/
def percent (n : ℕ) : UnitFloat := by
  refine ⟨(min n 100 : ℕ) / 100, ?_, ?_⟩
  · have := Nat.cast_nonneg (α := ℚ) (min n 100)
    linarith
  · have : ((min n 100 : ℕ) : ℚ) ≤ 100 := by exact_mod_cast min_le_right n 100
    linarith

def thresholds : Thresholds where
  tau_lo := percent 45
  tau_mid := percent 60
  tau_hi := percent 78
  rho_lo := percent 35
  rho_hi := percent 70
  version := "default"
  taus_ordered := by simp only [percent]; norm_num
  rhos_ordered := by simp only [percent]; norm_num

def ontology : Ontology := fun predicate =>
  if predicate = "preferred_language" then
    some { subject := "Patient", cardinality := .ONE, impact := .LOW }
  else none

def deps : Deps where
  uuid := uuid
  ontology := ontology
  embedding _ _ := [1]
  distance u v := if u = v then ⟨0, by norm_num⟩ else ⟨1, by norm_num⟩
  digest_for _ prev_digest := prev_digest ++ "+"
  casefold s := String.ofList (s.toList.map Char.toLower)
  thresholds := thresholds
  policy_version := "v1"

/-- The backend's type: a graph that only upserts have touched. -/
abbrev Graph := { g : NetworkX.MultiDiGraph // NetworkX.Kept (fun _ => "") g }

def env : Env Graph := ⟨deps, {}, NetworkX.store fun _ => ""⟩

/-- A patient's stated language: candidate `id` of the proposal `trace`, said at `captured_at`. -/
def language (trace : TraceId) (id : CandidateId) (value : String) (captured_at : Time) :
    MemoryCandidate where
  candidate_id := id
  tenant_id := "clinic"
  «namespace» := "patient:1"
  subject := "the patient"
  predicate := "preferred_language"
  object := .str value
  provenance :=
    { source_hash := trace, source_span := (0, value.length + 1), source_tier := .VERIFIED_USER
      verbatim := "", alignment := percent 100, captured_at := captured_at
      verbatim_short := verbatim_empty, span_real := Nat.succ_pos _ }
  trace_id := trace
  interval_coherent := MemoryCandidate.undated

/-- A proposal arrives with these candidates. -/
def proposal (trace : TraceId) (cands : List MemoryCandidate) : Label :=
  .deliver "clinic" "patient:1" trace cands

/-- Scoring comes to a middling confidence and a low risk; `n` incumbents are judged unrelated. -/
def scored (d i : ℕ) (n : ℕ := 0) : Label :=
  .score d i
    { judgements := List.replicate n ⟨percent 0, percent 0, percent 0⟩
      confidence := ⟨percent 50, percent 70, percent 100, percent 50, percent 100, percent 69, "default"⟩
      risk := percent 32
      features := [] }

/-- Apply the next decision of delivery `d` at `t`. -/
def applied (d : ℕ) (t : Time) : Label := .apply d ⟨t, t, t⟩

/-- The id of candidate `id` of the proposal `trace`. -/
def row_id (trace : TraceId) (id : CandidateId) : AssertionId :=
  uuid.of ("guardmem/assertion/" ++ trace ++ "/" ++ id)

/-- Pass `p` claims the event of one assertion, loads it, writes it and completes it. -/
def dispatched (p : ℕ) (aid : AssertionId) (t : Time) : List Label :=
  [.claim [] [outbox_id uuid aid], .load p, .write p .answers, .complete p t]

/-! ### Scoring -/

/-- The double nearest to a number of this range. -/
def float (q : ℚ) : ℚ :=
  match Lib.Binary64.nearest (q.num < 0) |q| with
  | some x => (if x.neg then -1 else 1) * x.magnitude
  | none => 0

/-- The first terms of the exponential series. -/
def exp_series (z : ℚ) : ℚ :=
  ((List.range 24).foldl (fun (acc : ℚ × ℚ) k => (acc.1 + acc.2, acc.2 * z / (k + 1))) (0, 1)).1

/-- The language, with `log1p` at the two numbers a subject without edges needs and `exp` by its
    series. The texts are read by no predicate of this pack. -/
def python : Python where
  round := float
  exp z := float (exp_series z)
  log1p x := if x = 50 then float (39318256327243257 / 10 ^ 16) else 0
  str_float _ := ""
  float_str _ := none
  strip s := s
  round_zero := by decide +kernel
  exp_zero := by decide +kernel

theorem float_unit {q : ℚ} (h0 : 0 ≤ q) (h1 : q ≤ 1) :
    ∃ x : Lib.Binary64, float q = x.magnitude ∧ |x.magnitude - q| ≤ 1 / 2 ^ 53 ∧ x.magnitude ≤ 1 := by
  have hsign : ¬ q.num < 0 := not_lt.mpr (Rat.num_nonneg.mpr h0)
  obtain ⟨x, hx, hclose⟩ := @Lib.Binary64.nearest_unit false q h0 h1
  refine ⟨x, ?_, hclose, Lib.Binary64.nearest_le_one h1 hx⟩
  simp [float, hsign, abs_of_nonneg h0, hx, Lib.Binary64.nearest_neg hx]

theorem python_nearest : python.Nearest := by
  intro q h0 h1
  obtain ⟨x, hfloat, hclose, -⟩ := float_unit h0 h1
  exact (congrArg (fun y => |y - q|) hfloat).trans_le hclose

theorem python_keepsUnit : python.KeepsUnit := by
  intro q h0 h1
  obtain ⟨x, hfloat, -, hle⟩ := float_unit h0 h1
  constructor
  · exact x.magnitude_nonneg.trans_eq hfloat.symm
  · exact hfloat.trans_le hle

def V1_WEIGHTS : ConfidenceWeights python where
  uncertainty := ⟨float (35 / 100), by decide +kernel⟩
  grounding := ⟨float (25 / 100), by decide +kernel⟩
  schema_fit := ⟨float (10 / 100), by decide +kernel⟩
  corroboration := ⟨float (15 / 100), by decide +kernel⟩
  consistency := ⟨float (15 / 100), by decide +kernel⟩
  version := "v1"
  sum_to_one := by unfold isclose_one; decide +kernel

def V1_BETAS : RiskBetas where
  impact_declared := float (220 / 100)
  mutation_type := float (160 / 100)
  scope := float (130 / 100)
  graph_fanout := float (90 / 100)
  pii_class := float (110 / 100)
  irreversibility := float (140 / 100)
  source_tier_risk := 1
  novelty := 1 / 2
  bias := float (-340 / 100)
  version := "v1"

def clinical_pack : Pack := fun predicate =>
  if predicate = "preferred_language" then
    some { subject := "Patient", cardinality := .ONE, impact := .LOW, object := .scalar .text
           pii_class := .QUASI_IDENTIFIER, irreversibility := .REVERSIBLE
           min_source_tier := .UNVERIFIED_USER }
  else none

end GuardMem.Clinical
