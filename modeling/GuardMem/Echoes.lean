import GuardMem.ShownTurns

/-! What is lost with a turn that the rules take for an echo.

    The normal form keeps the letters `a` to `z` and the digits and drops the rest of the alphabet
    (`letters_eq_iff`), and the first of two turns with one normal form may itself be dropped. CORRECT:
    each turn dropped as a restatement has the like of it in the kept list exactly where an earlier turn
    spells the same normal form, has the same letters of other alphabets in the same places, and is kept
    by the rules and by the reply (`echo_kept_iff`). -/

namespace GuardMem

variable (lower : String → String) (isalnum : Char → Bool) (fz : Rapidfuzz) (llm : Llm)
  (ns : Namespace) (canary : String)

/-! ### What a normal form keeps of a text -/

/-- The letters and digits of a text in any script, without regard to case. -/
def letters (text : String) : List Char := (lower text).toList.filter isalnum

/-- A character that the normal form keeps. -/
def plain (c : Char) : Bool := ('a' ≤ c && c ≤ 'z') || ('0' ≤ c && c ≤ '9')

/-- A normal form without its spaces. -/
def spelling (normalised : String) : List Char := normalised.toList.filter (· ≠ ' ')

/-- The letters of other alphabets, each in its place among the plain ones. -/
def foreign (text : String) : List (Option Char) :=
  (letters lower isalnum text).map fun c => if plain c then none else some c

variable {lower isalnum} {p : Char → Bool} {cs : List Char} {text text' : String}

/-- The runs of the characters that satisfy `p`, one after another, are those characters. -/
theorem flatMap_runs : (runs p cs).flatMap String.toList = cs.filter p := by
  have hclose : ∀ (word : List Char) (closed : List String),
      (if word = [] then closed else String.ofList word :: closed).flatMap String.toList =
        word ++ closed.flatMap String.toList := by
    intro word closed
    split <;> simp_all
  have hscan : ∀ cs : List Char, ∀ scan, scan = cs.foldr (fun c (acc : List Char × List String) =>
      if p c then (c :: acc.1, acc.2)
      else ([], if acc.1 = [] then acc.2 else String.ofList acc.1 :: acc.2)) ([], []) →
        scan.1 ++ scan.2.flatMap String.toList = cs.filter p := by
    intro cs
    induction cs with
    | nil =>
        rintro scan rfl
        rfl
    | cons c cs ih =>
        rintro scan rfl
        rw [List.foldr_cons]
        split
        · next hc => rw [List.filter_cons_of_pos hc, List.cons_append, ih _ rfl]
        · next hc => rw [List.filter_cons_of_neg hc, List.nil_append, hclose, ih _ rfl]
  exact (hclose _ _).trans (hscan cs _ rfl)

theorem runs_eq_nil (h : cs.filter p = []) : runs p cs = [] := by
  have hscan : cs.foldr (fun c (acc : List Char × List String) =>
      if p c then (c :: acc.1, acc.2)
      else ([], if acc.1 = [] then acc.2 else String.ofList acc.1 :: acc.2)) ([], []) = ([], []) := by
    induction cs with
    | nil => rfl
    | cons c cs ih =>
        obtain ⟨hc, hcs⟩ : ¬ p c = true ∧ cs.filter p = [] := by
          by_cases hc : p c = true
          · rw [List.filter_cons_of_pos hc] at h
            cases h
          · exact ⟨hc, List.filter_cons_of_neg hc ▸ h⟩
        rw [List.foldr_cons, ih hcs, if_neg hc]
        rfl
  unfold runs
  dsimp only
  rw [hscan]
  rfl

/-- Words of plain characters with spaces between them spell the words. -/
theorem spelling_intercalate : ∀ {words : List String}, (∀ w ∈ words, ∀ c ∈ w.toList, c ≠ ' ') →
    spelling (" ".intercalate words) = words.flatMap String.toList
  | [], _ => by decide
  | [w], h => by
      rw [spelling, String.toList_intercalate]
      simpa using h w List.mem_cons_self
  | w :: v :: words, h => by
      obtain ⟨hw, hrest⟩ := List.forall_mem_cons.mp h
      have ih := spelling_intercalate hrest
      have hself : w.toList.filter (· ≠ ' ') = w.toList := List.filter_eq_self.mpr fun c hc => by
        simpa using hw c hc
      rw [spelling, String.toList_intercalate] at ih ⊢
      rw [List.map_cons, List.map_cons, List.intercalate_cons_cons, List.filter_append, List.filter_append,
        hself, ← List.map_cons, ih, List.flatMap_cons]
      simp

/-- The apostrophes that the normal form drops first are not plain. -/
theorem plain_bare : ((lower text).toList.filter fun c => c ≠ Char.ofNat 0x27 ∧ c ≠ Char.ofNat 0x2019).filter
    plain = (lower text).toList.filter plain := by
  rw [List.filter_filter]
  refine List.filter_congr fun c _ => ?_
  by_cases hc : plain c = true
  · have hapostrophe : c ≠ Char.ofNat 0x27 ∧ c ≠ Char.ofNat 0x2019 := by
      constructor <;> (rintro rfl; exact absurd hc (by decide))
    simp [hc, hapostrophe]
  · simp [hc]

/-- A normal form spells the plain characters of the text. -/
theorem spelling_normalise : spelling (normalise lower text) = (lower text).toList.filter plain := by
  have hwords : ∀ w ∈ runs plain ((lower text).toList.filter fun c => c ≠ Char.ofNat 0x27 ∧ c ≠ Char.ofNat 0x2019),
      ∀ c ∈ w.toList, c ≠ ' ' := by
    intro w hw c hc
    have hplain : plain c = true := (List.mem_filter.mp (flatMap_runs ▸ List.mem_flatMap.mpr ⟨w, hw, hc⟩)).2
    rintro rfl
    exact absurd hplain (by decide)
  exact ((spelling_intercalate hwords).trans flatMap_runs).trans plain_bare

theorem normalise_eq_empty (h : spelling (normalise lower text) = []) : normalise lower text = "" := by
  have hnone := runs_eq_nil (plain_bare.trans (spelling_normalise.symm.trans h))
  exact congrArg (" ".intercalate ·) hnone

/-- A list is known by the part that satisfies `p` and by the rest in its places. -/
theorem eq_iff_parts {xs ys : List Char} : xs = ys ↔ xs.filter p = ys.filter p ∧
    (xs.map fun c => if p c then none else some c) = ys.map fun c => if p c then none else some c := by
  refine ⟨fun h => h ▸ ⟨rfl, rfl⟩, fun h => ?_⟩
  induction xs generalizing ys with
  | nil => exact (List.map_eq_nil_iff.mp h.2.symm).symm
  | cons x xs ih =>
      obtain ⟨hkept, hrest⟩ := h
      obtain _ | ⟨y, ys⟩ := ys
      · cases hrest
      · obtain ⟨hhead, htail⟩ := List.cons.inj hrest
        by_cases hx : p x = true <;> by_cases hy : p y = true
        · rw [List.filter_cons_of_pos hx, List.filter_cons_of_pos hy] at hkept
          obtain ⟨rfl, hplain⟩ := List.cons.inj hkept
          rw [ih ⟨hplain, htail⟩]
        · simp [hx, hy] at hhead
        · simp [hx, hy] at hhead
        · rw [List.filter_cons_of_neg hx, List.filter_cons_of_neg hy] at hkept
          obtain rfl : x = y := by simpa [hx, hy] using hhead
          rw [ih ⟨hkept, htail⟩]

/-- Two texts have the same letters and digits exactly where their normal forms are spelled alike and
    their other letters stand in the same places. -/
theorem letters_eq_iff (halnum : ∀ c, plain c = true → isalnum c = true) :
    letters lower isalnum text = letters lower isalnum text' ↔
      spelling (normalise lower text) = spelling (normalise lower text') ∧
        foreign lower isalnum text = foreign lower isalnum text' := by
  have hplain : ∀ t, (letters lower isalnum t).filter plain = spelling (normalise lower t) := by
    intro t
    rw [spelling_normalise, letters, List.filter_filter]
    refine List.filter_congr fun c _ => ?_
    by_cases hc : plain c = true <;> simp [hc, halnum c]
  rw [← hplain, ← hplain]
  exact eq_iff_parts

/-! ### Echoes -/

variable (lower isalnum)

/-- Not filler, and not empty once normalised, but said before in that form. -/
def Repeats (turns : List Turn) (i : ℕ) (turn : Turn) : Prop :=
  is_ephemeral (split (normalise lower turn.text)) = false ∧ normalise lower turn.text ≠ "" ∧
    normalise lower turn.text ∈ history_at lower turns i

/-- Not filler, not an instruction to the assistant and not speculation. -/
def Substantive (turn : Turn) : Prop :=
  is_ephemeral (split (normalise lower turn.text)) = false ∧
    is_imperative (split (normalise lower turn.text)) = false ∧
    is_hypothetical (split (normalise lower turn.text)) = false

/-- Some earlier turn spells the same normal form, up to its spaces, with the same letters of other
    alphabets in the same places. It is the first of its own normal form and substantive, and the reply
    does not dismiss its id. -/
def Standing (turns : List Turn) (verdicts : List NoiseVerdict) (i : ℕ) (turn : Turn) : Prop :=
  ∃ (j : ℕ) (earlier : Turn), j < i ∧ turns[j]? = some earlier ∧
    spelling (normalise lower earlier.text) = spelling (normalise lower turn.text) ∧
    foreign lower isalnum earlier.text = foreign lower isalnum turn.text ∧
    normalise lower earlier.text ∉ history_at lower turns j ∧ Substantive lower earlier ∧
    ∀ reason, ¬ Dismissed lower fz turns verdicts earlier.turn_id reason

variable {lower isalnum} {history : TurnHistory} {turn : Turn}

theorem is_restatement_iff {normalised : String} :
    is_restatement normalised history = true ↔ normalised ≠ "" ∧ normalised ∈ history := by
  simp [is_restatement]

theorem rule_verdict_restatement : rule_verdict lower turn history = some .RESTATEMENT ↔
    is_ephemeral (split (normalise lower turn.text)) = false ∧ normalise lower turn.text ≠ "" ∧
      normalise lower turn.text ∈ history := by
  rw [← is_restatement_iff, rule_verdict]
  split_ifs <;> simp_all

theorem rule_verdict_none : rule_verdict lower turn history = none ↔
    (normalise lower turn.text = "" ∨ normalise lower turn.text ∉ history) ∧ Substantive lower turn := by
  have hecho : is_restatement (normalise lower turn.text) history = false ↔
      normalise lower turn.text = "" ∨ normalise lower turn.text ∉ history := by
    rw [← Bool.not_eq_true, is_restatement_iff, not_and_or, not_not]
  rw [← hecho, Substantive, rule_verdict]
  split_ifs <;> simp_all

variable (lower isalnum)

/-- CORRECT: an echo is dropped without loss exactly where an earlier turn stands for it, for every
    conversation and every reply of the classifier. -/
theorem echo_kept_iff (halnum : ∀ c, plain c = true → isalnum c = true) (turns : List Turn)
    (result : NoiseResult) (h : filter_noise lower fz llm ns canary turns = .ok result) :
    let verdicts := replied lower fz llm ns canary turns
    let settled : List TurnFate := fates lower fz turns verdicts
    (settled.map Prod.fst = turns ∧ result.kept = settled.filterMap TurnFate.survives ∧
      result.dropped = settled.filterMap (TurnFate.dropped_by .RULE) ++
        settled.filterMap (TurnFate.dropped_by .CLASSIFIER)) ∧
    ((∀ (i : ℕ) (turn : Turn), settled[i]? = some (turn, some (.RESTATEMENT, .RULE)) →
        ∃ (j : ℕ) (earlier : Turn), j < i ∧ settled[j]? = some (earlier, none) ∧
          letters lower isalnum earlier.text = letters lower isalnum turn.text) ↔
      ∀ (i : ℕ) (turn : Turn), turns[i]? = some turn → Repeats lower turns i turn →
        Standing lower isalnum fz turns verdicts i turn) := by
  intro verdicts settled
  refine ⟨⟨fates_map, filter_noise_eq h⟩, ?_⟩
  have hdropped : ∀ {i : ℕ} {turn : Turn}, settled[i]? = some (turn, some (.RESTATEMENT, .RULE)) ↔
      turns[i]? = some turn ∧ Repeats lower turns i turn := fun {i turn} => by
    rw [rule_dropped, rule_verdict_restatement, Repeats]
  have hkept : ∀ {j : ℕ} {earlier : Turn}, settled[j]? = some (earlier, none) ↔ turns[j]? = some earlier ∧
      ((normalise lower earlier.text = "" ∨ normalise lower earlier.text ∉ history_at lower turns j) ∧
        Substantive lower earlier) ∧
      ∀ reason, ¬ Dismissed lower fz turns verdicts earlier.turn_id reason := fun {j earlier} => by
    rw [survived, rule_verdict_none]
  constructor
  · intro hall i turn hturn hrepeats
    obtain ⟨j, earlier, hj, hsurvives, hletters⟩ := hall i turn (hdropped.mpr ⟨hturn, hrepeats⟩)
    obtain ⟨hearlier, ⟨hfirst, hsubstantive⟩, hdismissed⟩ := hkept.mp hsurvives
    obtain ⟨hspelled, hforeign⟩ := (letters_eq_iff halnum).mp hletters
    -- what is spelled as the repeat is has a normal form
    have hne : normalise lower earlier.text ≠ "" := fun hempty =>
      hrepeats.2.1 (normalise_eq_empty (hspelled ▸ hempty ▸ rfl))
    exact ⟨j, earlier, hj, hearlier, hspelled, hforeign, hfirst.resolve_left hne, hsubstantive, hdismissed⟩
  · intro hall i turn hsettled
    obtain ⟨hturn, hrepeats⟩ := hdropped.mp hsettled
    obtain ⟨j, earlier, hj, hearlier, hspelled, hforeign, hfirst, hsubstantive, hdismissed⟩ :=
      hall i turn hturn hrepeats
    exact ⟨j, earlier, hj, hkept.mpr ⟨hearlier, ⟨Or.inr hfirst, hsubstantive⟩, hdismissed⟩,
      (letters_eq_iff halnum).mpr ⟨hspelled, hforeign⟩⟩

namespace Clinical

/-- Two drugs in one dose, said one after the other. -/
def two_doses : List Turn :=
  [⟨"turn-0", .USER, "варфарин 5 мг", none⟩, ⟨"turn-1", .USER, "инсулин 5 мг", none⟩]

def restated : List Turn :=
  [⟨"turn-0", .USER, "warfarin 5 mg", none⟩, ⟨"turn-1", .USER, "warfarin, 5 mg!", none⟩]

/-- Letters and digits of the scripts that the examples use. -/
def latin_or_cyrillic (c : Char) : Bool := c.isAlphanum || ('а' ≤ c && c ≤ 'я')

theorem latin_or_cyrillic_plain (c : Char) (h : plain c = true) : latin_or_cyrillic c = true := by
  have hparts : latin_or_cyrillic c = (c.isUpper || ('a' ≤ c && c ≤ 'z') || ('0' ≤ c && c ≤ '9') ||
      ('а' ≤ c && c ≤ 'я')) := rfl
  rw [hparts, Bool.or_assoc c.isUpper]
  rw [plain] at h
  rw [h, Bool.or_true, Bool.true_or]

/-- The classifier drops nothing. -/
def lenient : Llm := model [] []

end Clinical

open Clinical in
/-- The second drug is dropped as an echo of the first. -/
theorem second_drug_lost : ¬ ∀ (i : ℕ) (turn : Turn),
    (fates id unalike two_doses (replied id unalike lenient "patient:1" "canary" two_doses))[i]? =
        some (turn, some (.RESTATEMENT, .RULE)) →
      ∃ (j : ℕ) (earlier : Turn), j < i ∧
        (fates id unalike two_doses (replied id unalike lenient "patient:1" "canary" two_doses))[j]? =
          some (earlier, none) ∧
        letters id latin_or_cyrillic earlier.text = letters id latin_or_cyrillic turn.text := by
  intro hall
  obtain ⟨j, earlier, hj, hkept, hletters⟩ := hall 1 ⟨"turn-1", .USER, "инсулин 5 мг", none⟩
    (by decide +kernel)
  obtain rfl : j = 0 := by omega
  obtain ⟨hearlier, -⟩ := survived.mp hkept
  obtain rfl : (⟨"turn-0", .USER, "варфарин 5 мг", none⟩ : Turn) = earlier := Option.some.inj hearlier
  revert hletters
  decide +kernel

open Clinical in
/-- Said again in the same letters, the dose is kept the first time. -/
theorem dose_kept : ∃ result,
    filter_noise id unalike lenient "patient:1" "canary" restated = .ok result ∧
      result.kept = restated.take 1 := by
  have hok : filter_noise id unalike lenient "patient:1" "canary" restated =
      .ok ⟨restated.take 1, (restated.drop 1).map fun turn => ⟨turn, .RESTATEMENT, .RULE⟩⟩ := by
    decide +kernel
  obtain ⟨⟨-, hkept, -⟩, -⟩ := echo_kept_iff id latin_or_cyrillic unalike lenient "patient:1" "canary"
    latin_or_cyrillic_plain restated _ hok
  exact ⟨_, hok, hkept.trans (by decide +kernel)⟩

end GuardMem
