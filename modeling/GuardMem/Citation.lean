import Mathlib.Data.List.MinMax
import GuardMem.Clinical
import GuardMem.Pipeline.Extractor

/-! What a citation of the source stands for, and when one can be made.

    The aligner lays the shorter of two texts over the longer one, so under a claim longer than its
    source it is the source that is found, and nobody asks what the rest of the claim rests on. CORRECT:
    a match accounts for the whole of its claim except where the two exchange their roles in that way
    (`citation_supported_iff`), and the facts of an extraction become valid citations or are counted
    exactly where each snapped span has some text and not too much of it (`citations_valid_iff`). -/

namespace GuardMem

variable {fz : Rapidfuzz} {py : Python} {verbatim source : String}

/-- Some window of the source accounts for the whole of the claim. -/
def Accounted (fz : Rapidfuzz) (verbatim source : String) : Prop :=
  ∃ start stop, start ≤ stop ∧ stop ≤ source.length ∧
    FUZZY_THRESHOLD ≤ fz.ratio verbatim (slice source start stop)

/-- Some window of the claim comes close to the whole of the source. -/
def Echoes (fz : Rapidfuzz) (verbatim source : String) : Prop :=
  ∃ start stop, Window source.length verbatim.length start stop ∧
    FUZZY_THRESHOLD ≤ fz.ratio source (slice verbatim start stop)

theorem Rapidfuzz.Aligned.accounted {x : ScoreAlignment} (h : fz.Aligned verbatim source x)
    (hx : FUZZY_THRESHOLD ≤ x.score) : Accounted fz verbatim source :=
  ⟨x.dest_start, x.dest_end, h.1.1, h.1.2.1, h.2.1 ▸ hx⟩

theorem Rapidfuzz.Exchanged.echoes {x : ScoreAlignment} (h : fz.Exchanged verbatim source x) :
    FUZZY_THRESHOLD ≤ x.score ↔ Echoes fz verbatim source := by
  obtain ⟨⟨hwindow, hscore, hbest⟩, -⟩ := h
  constructor
  · exact fun hx => ⟨x.src_start, x.src_end, hwindow, hscore ▸ hx⟩
  · rintro ⟨i, j, hij, hclose⟩
    exact hclose.trans (hbest i j hij)

/-- A quotation accounts for itself. -/
theorem Rapidfuzz.Documented.accounted_of_find (hfz : fz.Documented) {start : ℕ}
    (h : find verbatim source = some start) : Accounted fz verbatim source := by
  obtain ⟨hstop, hslice⟩ := find_some h
  refine ⟨start, start + verbatim.length, Nat.le_add_right _ _, hstop, ?_⟩
  rw [hslice, hfz.ratio_eq, Lib.Similarity.similarity_self]
  norm_num [FUZZY_THRESHOLD]

/-- Nothing accounts for a claim much longer than its source. -/
theorem Accounted.length_le (hfz : fz.Documented) (h : Accounted fz verbatim source) :
    23 * verbatim.length ≤ 27 * source.length := by
  obtain ⟨start, stop, -, -, hclose⟩ := h
  rw [hfz.ratio_eq, FUZZY_THRESHOLD] at hclose
  have hsimilar : 92 / 100 ≤ Lib.Similarity.similarity verbatim.toList (slice source start stop).toList := by
    linarith
  have hkept  := Lib.Similarity.length_le_of_similarity hsimilar
  have hslice : (slice source start stop).toList.length ≤ source.length := by
    rw [toList_slice, List.length_drop, List.length_take, String.length_toList]
    omega
  have hslice' : ((slice source start stop).toList.length : ℚ) ≤ source.length := by exact_mod_cast hslice
  rw [String.length_toList] at hkept
  have : (23 * verbatim.length : ℚ) ≤ 27 * source.length := by linarith
  exact_mod_cast this

/-- What clears the threshold accounts for the claim or, the roles exchanged, for the source. -/
theorem Rapidfuzz.Documented.clears (hfz : fz.Documented) (hverbatim : 0 < verbatim.length)
    (hsource : 0 < source.length) : ∃ x, fz.partial_ratio_alignment verbatim source = some x ∧
      (FUZZY_THRESHOLD ≤ x.score →
        Accounted fz verbatim source ∨ (source.length ≤ verbatim.length ∧ Echoes fz verbatim source)) ∧
      (source.length ≤ verbatim.length → Echoes fz verbatim source → FUZZY_THRESHOLD ≤ x.score) := by
  rcases lt_trichotomy verbatim.length source.length with hlt | heq | hgt
  · obtain ⟨x, hx, haligned⟩ := hfz.shorter verbatim source hverbatim hlt
    exact ⟨x, hx, fun hclose => Or.inl (haligned.accounted hclose), fun hle => by omega⟩
  · obtain ⟨x, y, haligned, hexchanged, hx⟩ := hfz.level verbatim source hverbatim heq
    refine ⟨_, hx, ?_, fun _ hechoes => ?_⟩
    · split_ifs
      · exact fun hclose => Or.inr ⟨heq.ge, hexchanged.echoes.mp hclose⟩
      · exact fun hclose => Or.inl (haligned.accounted hclose)
    · have hy := hexchanged.echoes.mpr hechoes
      split_ifs with hlt
      · exact hy
      · exact hy.trans (not_lt.mp hlt)
  · obtain ⟨x, hx, hexchanged⟩ := hfz.longer verbatim source hsource hgt
    exact ⟨x, hx, fun hclose => Or.inr ⟨hgt.le, hexchanged.echoes.mp hclose⟩,
      fun _ => hexchanged.echoes.mpr⟩

theorem length_pos_of_nonempty (h : source.isEmpty = false) : 0 < source.length := by
  rcases Nat.eq_zero_or_pos source.length with h0 | hpos
  · have : source = "" := String.length_eq_zero_iff.mp h0
    simp [this] at h
  · exact hpos

/-- CORRECT: whatever is matched is accounted for unless the claim is as long as the source or longer,
    contains something close to it, and is itself not close to any window of it. -/
theorem citation_supported_iff (fz : Rapidfuzz) (hfz : fz.Documented) (py : Python)
    (verbatim source : String) :
    (∀ m, link_span fz py verbatim source = some m → Accounted fz verbatim source) ↔
      verbatim.length < source.length ∨ blank verbatim = true ∨ source.isEmpty = true ∨
        ¬ Echoes fz verbatim source ∨
        (23 * verbatim.length ≤ 27 * source.length ∧ Accounted fz verbatim source) := by
  constructor
  · intro h
    by_contra hnot
    simp only [not_or, not_lt, Bool.not_eq_true, not_not] at hnot
    obtain ⟨hlen, hblank, hempty, hechoes, hunsupported⟩ := hnot
    have hmatch : ∃ m, link_span fz py verbatim source = some m := by
      cases hfind : find verbatim source with
      | some start => exact ⟨_, link_span_eq_some.mpr (Or.inl ⟨hblank, hempty, start, hfind, rfl⟩)⟩
      | none =>
          obtain ⟨x, hx, -, hclears⟩ :=
            hfz.clears (length_pos_of_nonblank hblank) (length_pos_of_nonempty hempty)
          exact ⟨_, link_span_eq_some.mpr
            (Or.inr ⟨x, ⟨hblank, hempty, hfind, hx, hclears hlen hechoes⟩, rfl⟩)⟩
    obtain ⟨m, hm⟩ := hmatch
    exact hunsupported ⟨(h m hm).length_le hfz, h m hm⟩
  · intro h m hm
    rcases link_span_eq_some.mp hm with ⟨-, -, start, hfind, -⟩ | ⟨x, hx, -⟩
    · exact hfz.accounted_of_find hfind
    · obtain ⟨x', hx', hclears, -⟩ :=
        hfz.clears (length_pos_of_nonblank hx.nonblank) (length_pos_of_nonempty hx.nonempty)
      obtain rfl : x' = x := Option.some.inj (hx'.symm.trans hx.aligned)
      rcases hclears hx.close with haccounted | ⟨hlong, hechoes⟩
      · exact haccounted
      · rcases h with hlt | hblank | hempty | hnone | ⟨-, haccounted⟩
        · omega
        · simp [hx.nonblank] at hblank
        · simp [hx.nonempty] at hempty
        · exact absurd hechoes hnone
        · exact haccounted

/-- CORRECT: an extraction ends, with every fact a valid citation or counted, exactly where each fact's
    snapped citation is in bounds. -/
theorem citations_valid_iff (fz : Rapidfuzz) (hfz : fz.InRange) (py : Python) (hpy : py.KeepsUnit)
    (content : String) (context : ExtractionContext) (facts : List ExtractedFact) :
    (∃ out, to_candidates fz py content context facts = .ok out ∧
        Accounts fz py content context facts out ∧ ∀ c ∈ out.1, Cites content c.provenance) ↔
      ∀ fact ∈ facts, Citable fz content fact := by
  rw [← to_candidates_isOk hfz hpy]
  constructor
  · rintro ⟨out, hout, -⟩
    exact ⟨out, hout⟩
  · rintro ⟨out, hout⟩
    exact ⟨out, hout, to_candidates_accounts hout, to_candidates_cites hfz hout⟩

/-! ### An aligner that tries every window -/

namespace Rapidfuzz

def indel_ratio (a b : String) : ℚ := 100 * Lib.Similarity.similarity a.toList b.toList

def windows (n m : ℕ) : List (ℕ × ℕ) :=
  ((List.range (m + 1)).product (List.range (m + 1))).filter fun w => Window n m w.1 w.2

/-- Lay the needle over its best window. -/
def lay (needle text : String) : ScoreAlignment :=
  match (windows needle.length text.length).argmax fun w => indel_ratio needle (slice text w.1 w.2) with
  | some w => ⟨indel_ratio needle (slice text w.1 w.2), 0, needle.length, w.1, w.2⟩
  | none => ⟨0, 0, 0, 0, 0⟩

def exchange (x : ScoreAlignment) : ScoreAlignment :=
  ⟨x.score, x.dest_start, x.dest_end, x.src_start, x.src_end⟩

def reference : Rapidfuzz where
  ratio := indel_ratio
  partial_ratio_alignment a b :=
    if a.length < b.length then some (lay a b)
    else if b.length < a.length then some (exchange (lay b a))
    else some (if (lay a b).score < (exchange (lay b a)).score then exchange (lay b a) else lay a b)

theorem mem_windows {n m : ℕ} {w : ℕ × ℕ} : w ∈ windows n m ↔ Window n m w.1 w.2 := by
  obtain ⟨i, j⟩ := w
  rw [windows, List.mem_filter, List.pair_mem_product, List.mem_range, List.mem_range,
    decide_eq_true_eq]
  constructor
  · exact And.right
  · intro h
    obtain ⟨hij, hj, -⟩ := id h
    exact ⟨⟨by omega, by omega⟩, h⟩

theorem lay_best {needle text : String} (h : needle.length ≤ text.length) :
    reference.Best needle text (lay needle text).score (lay needle text).dest_start
      (lay needle text).dest_end ∧
    (lay needle text).src_start = 0 ∧ (lay needle text).src_end = needle.length := by
  have hwhole : (0, needle.length) ∈ windows needle.length text.length :=
    mem_windows.mpr ⟨Nat.zero_le _, h, Or.inl (Nat.zero_add _).symm⟩
  unfold lay
  split
  · next w hw =>
      refine ⟨⟨mem_windows.mp (List.argmax_mem hw), rfl, fun i j hij => ?_⟩, rfl, rfl⟩
      exact @List.le_of_mem_argmax _ _ _ (fun w : ℕ × ℕ => indel_ratio needle (slice text w.1 w.2)) _ (i, j)
        _ (mem_windows.mpr hij) hw
  · next hnone =>
      rw [List.argmax_eq_none.mp hnone] at hwhole
      exact absurd hwhole List.not_mem_nil

theorem reference_documented : reference.Documented where
  ratio_eq _ _ := rfl
  shorter a b _ hlt := ⟨_, if_pos hlt, (lay_best hlt.le).1⟩
  longer a b _ hlt := by
    obtain ⟨hbest, hstart, hend⟩ := lay_best hlt.le
    exact ⟨_, (if_neg hlt.not_gt).trans (if_pos hlt), hbest, hstart, hend⟩
  level a b _ heq := by
    obtain ⟨hbest, hstart, hend⟩ := lay_best heq.ge
    exact ⟨_, _, (lay_best heq.le).1, ⟨hbest, hstart, hend⟩,
      (if_neg heq.not_lt).trans (if_neg heq.not_gt)⟩

theorem lay_range {needle text : String} (h : needle.length ≤ text.length) :
    (lay needle text).dest_start ≤ (lay needle text).dest_end ∧
      (lay needle text).dest_end ≤ text.length :=
  ⟨(lay_best h).1.1.1, (lay_best h).1.1.2.1⟩

theorem reference_inRange : reference.InRange where
  ratio_range a b := by
    obtain ⟨h0, h1⟩ := Lib.Similarity.similarity_unit a.toList b.toList
    constructor <;> simp only [reference, indel_ratio] <;> linarith
  window_range a b x hx := by
    simp only [reference] at hx
    split_ifs at hx with hshort hlong hbetter
    · obtain rfl := Option.some.inj hx
      exact lay_range hshort.le
    · obtain rfl := Option.some.inj hx
      obtain ⟨-, hstart, hend⟩ := lay_best hlong.le
      simp [exchange, hstart, hend]
    · obtain rfl := Option.some.inj hx
      obtain ⟨-, hstart, hend⟩ := lay_best (not_lt.mp hshort)
      simp [exchange, hstart, hend]
    · obtain rfl := Option.some.inj hx
      exact lay_range (not_lt.mp hlong)

end Rapidfuzz

/-- A claim that the source supports, in the words of the source. -/
theorem quoted_allergy : (link_span .reference Clinical.python "penicillin" "no penicillin").isSome ∧
    Accounted .reference "penicillin" "no penicillin" := by
  have hlinked : link_span .reference Clinical.python "penicillin" "no penicillin" =
      some ⟨(3, 13), "penicillin", 1⟩ :=
    link_span_eq_some.mpr (Or.inl ⟨by decide, by decide, 3, by decide +kernel, rfl⟩)
  exact ⟨Option.isSome_of_eq_some hlinked, (citation_supported_iff .reference
    Rapidfuzz.reference_documented Clinical.python "penicillin" "no penicillin").mpr
      (Or.inl (by decide)) _ hlinked⟩

/-- The source is `hives`, and what the model says of it is cited whole. -/
theorem invented_asthma : Rapidfuzz.reference.Documented ∧
    ∃ m, link_span .reference Clinical.python "hives and asthma" "hives" = some m ∧ m.text = "hives" ∧
      ¬ Accounted .reference "hives and asthma" "hives" := by
  have hx : Rapidfuzz.reference.partial_ratio_alignment "hives and asthma" "hives" =
      some ⟨100, 0, 5, 0, 5⟩ := by decide +kernel
  refine ⟨Rapidfuzz.reference_documented, _, link_span_eq_some.mpr (Or.inr ⟨_, ⟨by decide, by decide,
    by decide, hx, by decide +kernel⟩, rfl⟩), by decide, fun h => ?_⟩
  exact absurd (h.length_le Rapidfuzz.reference_documented) (by decide)

namespace Clinical

def intake : ExtractionContext where
  tenant_id := "clinic"
  «namespace» := "patient:1"
  trace_id := "trace"
  source_tier := .VERIFIED_USER
  captured_at := 0

/-- What a model makes of some text. -/
def allergy_fact (verbatim : String) (h : verbatim.length ≤ 2000 := by decide) : ExtractedFact where
  subject := "the patient"
  predicate := "allergy"
  object := .str "penicillin"
  verbatim := verbatim
  verbatim_short := h

end Clinical

open Clinical in
/-- One quotation that is in the document and one sentence that is not. -/
theorem intake_cited : ∃ out, to_candidates .reference python "no penicillin" intake
      [allergy_fact "penicillin", allergy_fact "hives"] = .ok out ∧
    Accounts .reference python "no penicillin" intake
      [allergy_fact "penicillin", allergy_fact "hives"] out ∧
    ∀ c ∈ out.1, Cites "no penicillin" c.provenance := by
  refine (citations_valid_iff .reference Rapidfuzz.reference_inRange python python_keepsUnit
    "no penicillin" intake [allergy_fact "penicillin", allergy_fact "hives"]).mpr ?_
  have hlow : ∀ x, Rapidfuzz.reference.partial_ratio_alignment "hives" "no penicillin" = some x →
      x.score < FUZZY_THRESHOLD := by decide +kernel
  intro fact hfact x hx
  rcases List.mem_cons.mp hfact with rfl | hfact
  · exact absurd hx.absent (by decide)
  · obtain rfl := List.mem_singleton.mp hfact
    exact absurd hx.close (not_le.mpr (hlow x hx.aligned))

open Clinical in
/-- The document is one space and the model quotes two words: the space between them is cited, trimmed to
    nothing, and the whole extraction is refused. -/
theorem blank_document_refused : Rapidfuzz.reference.Documented ∧ Rapidfuzz.reference.InRange ∧
    python.KeepsUnit ∧ to_candidates .reference python " " intake [allergy_fact "a b"] =
      .error (.ValidationError "source_span") :=
  ⟨Rapidfuzz.reference_documented, Rapidfuzz.reference_inRange, python_keepsUnit, by decide +kernel⟩

end GuardMem
