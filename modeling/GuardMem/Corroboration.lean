import GuardMem.Lib.Table
import GuardMem.Severest

/-! Folding duplicates into the fact they duplicate: `dedupe.merge`.

    A citation is a span of a document and a source is the document, so one document quoted twice is two
    citations and one source. CORRECT: however often and in whatever order duplicates are folded in, the
    count is of the sources, the citations are those of all of them, a replay changes nothing and no
    other field is touched (`sources_counted`). -/

namespace GuardMem

/-- What makes two citations the same: the document and the span of it. -/
def Provenance.cites (p : Provenance) : String × ℕ × ℕ := (p.source_hash, p.source_span)

def is_same_citation (left right : Provenance) : Bool :=
  left.source_hash == right.source_hash && left.source_span == right.source_span

namespace StoredAssertion

theorem sourced_append {ps : List Provenance} {citation : Provenance} : ps ++ [citation] ≠ [] := by simp

theorem corroborated_add {count : ℕ} (h : 1 ≤ count) (independent : Bool) :
    1 ≤ count + independent.toNat := Nat.le_add_right_of_le h

/-- Append the candidate's citation, and count it where no citation held is of its document. -/
def merge (incumbent : StoredAssertion) (candidate : MemoryCandidate) : StoredAssertion :=
  let citation := candidate.provenance
  if incumbent.provenance.any fun existing => is_same_citation existing citation then incumbent
  else
    let independent := incumbent.provenance.all fun existing => existing.source_hash != citation.source_hash
    { incumbent with
      provenance := incumbent.provenance ++ [citation]
      corroboration_count := incumbent.corroboration_count + independent.toNat
      sourced := sourced_append
      corroborated := corroborated_add incumbent.corroborated independent }

/-- The documents a fact rests on. -/
def sources (a : StoredAssertion) : Finset String := (a.provenance.map Provenance.source_hash).toFinset

/-- The spans a fact rests on. -/
def citations (a : StoredAssertion) : Finset (String × ℕ × ℕ) := (a.provenance.map Provenance.cites).toFinset

variable {incumbent : StoredAssertion} {candidate : MemoryCandidate} {candidates others : List MemoryCandidate}

/-! ### One duplicate -/

theorem is_same_citation_iff {left right : Provenance} :
    is_same_citation left right ↔ left.cites = right.cites := by
  simp [is_same_citation, Provenance.cites]

/-- The citations are a table under the span they are of. -/
theorem provenance_merge : (incumbent.merge candidate).provenance =
    Lib.Table.insertNew Provenance.cites candidate.provenance incumbent.provenance := by
  have hheld : (incumbent.provenance.any fun existing => is_same_citation existing candidate.provenance) ↔
      candidate.provenance.cites ∈ incumbent.provenance.map Provenance.cites := by
    simp [is_same_citation_iff]
  rw [merge, Lib.Table.insertNew]
  by_cases h : candidate.provenance.cites ∈ incumbent.provenance.map Provenance.cites
  · rw [if_pos (hheld.mpr h), if_pos h]
  · rw [if_neg (mt hheld.mp h), if_neg h]

theorem merge_held (h : candidate.provenance.cites ∈ incumbent.provenance.map Provenance.cites) :
    incumbent.merge candidate = incumbent := by
  obtain ⟨existing, hexisting, hsame⟩ := List.mem_map.mp h
  have hsame : is_same_citation existing candidate.provenance := is_same_citation_iff.mpr hsame
  exact if_pos (List.any_eq_true.mpr ⟨existing, hexisting, hsame⟩)

/-- The count grows by one exactly when the document is new. -/
theorem count_merge : (incumbent.merge candidate).corroboration_count = incumbent.corroboration_count +
    if candidate.provenance.source_hash ∈ incumbent.provenance.map Provenance.source_hash then 0 else 1 := by
  by_cases hcited : candidate.provenance.cites ∈ incumbent.provenance.map Provenance.cites
  · obtain ⟨existing, hexisting, hsame⟩ := List.mem_map.mp hcited
    rw [merge_held hcited, if_pos (List.mem_map.mpr ⟨existing, hexisting, congrArg Prod.fst hsame⟩),
      Nat.add_zero]
  · have hnew : ¬ incumbent.provenance.any fun existing => is_same_citation existing candidate.provenance := by
      simpa [is_same_citation_iff] using hcited
    rw [merge, if_neg hnew]
    by_cases hsource : candidate.provenance.source_hash ∈ incumbent.provenance.map Provenance.source_hash
    · have : (incumbent.provenance.all fun existing =>
          existing.source_hash != candidate.provenance.source_hash) = false := by
        simpa using hsource
      simp only [this, if_pos hsource, Bool.toNat_false]
    · have : (incumbent.provenance.all fun existing =>
          existing.source_hash != candidate.provenance.source_hash) = true := by
        simpa using hsource
      simp only [this, if_neg hsource, Bool.toNat_true]

/-- A fact that counts its sources goes on counting them. -/
theorem counted_merge (h : incumbent.corroboration_count = incumbent.sources.card) :
    (incumbent.merge candidate).corroboration_count = (incumbent.merge candidate).sources.card := by
  rw [count_merge, h, sources, sources, provenance_merge, Lib.Table.card_labels_insertNew]
  intro r hr
  exact congrArg Prod.fst hr

/-- Citations and count apart, the fact is what it was. -/
def Grown (incumbent merged : StoredAssertion) : Prop :=
  ∃ provenance corroboration_count sourced corroborated, merged =
    { incumbent with provenance, corroboration_count, sourced, corroborated }

theorem merge_grown : Grown incumbent (incumbent.merge candidate) := by
  rw [merge]
  split
  · exact ⟨_, _, incumbent.sourced, incumbent.corroborated, rfl⟩
  · exact ⟨_, _, _, _, rfl⟩

/-! ### Any number of duplicates -/

theorem counted_foldl : ∀ {candidates : List MemoryCandidate} {incumbent : StoredAssertion},
    incumbent.corroboration_count = incumbent.sources.card →
      (candidates.foldl merge incumbent).corroboration_count = (candidates.foldl merge incumbent).sources.card
  | [], _, h => h
  | _ :: _, _, h => by
      rw [List.foldl_cons]
      exact counted_foldl (counted_merge h)

theorem provenance_foldl : ∀ {candidates : List MemoryCandidate} {incumbent : StoredAssertion},
    (candidates.foldl merge incumbent).provenance = (candidates.map MemoryCandidate.provenance).foldl
      (fun ps p => Lib.Table.insertNew Provenance.cites p ps) incumbent.provenance
  | [], _ => rfl
  | candidate :: candidates, incumbent => by
      rw [List.foldl_cons, provenance_foldl, List.map_cons, List.foldl_cons, provenance_merge]

theorem citations_foldl : (candidates.foldl merge incumbent).citations =
    incumbent.citations ∪ (candidates.map fun c => c.provenance.cites).toFinset := by
  ext cited
  rw [citations, provenance_foldl, Finset.mem_union, citations, List.mem_toFinset, List.mem_toFinset,
    List.mem_toFinset, Lib.Table.keys_foldl_insertNew, List.map_map]
  rfl

/-- Duplicates whose citations are all held change nothing. -/
theorem foldl_held : ∀ {candidates : List MemoryCandidate},
    (∀ c ∈ candidates, c.provenance.cites ∈ incumbent.citations) → candidates.foldl merge incumbent = incumbent
  | [], _ => rfl
  | c :: cs, h => by
      rw [List.foldl_cons, merge_held (List.mem_toFinset.mp (h c List.mem_cons_self))]
      exact foldl_held fun d hd => h d (List.mem_cons_of_mem _ hd)

theorem foldl_grown : ∀ {candidates : List MemoryCandidate} {incumbent : StoredAssertion},
    Grown incumbent (candidates.foldl merge incumbent)
  | [], incumbent => ⟨_, _, incumbent.sourced, incumbent.corroborated, rfl⟩
  | candidate :: candidates, incumbent => by
      obtain ⟨ps, n, hps, hn, hfirst⟩ := @merge_grown incumbent candidate
      obtain ⟨ps', n', hps', hn', hrest⟩ := @foldl_grown candidates (incumbent.merge candidate)
      refine ⟨ps', n', hps', hn', hrest.trans ?_⟩
      rw [hfirst]

/-- The sources are the documents of the citations. -/
theorem sources_eq : incumbent.sources = incumbent.citations.image Prod.fst := by
  ext source
  simp [sources, citations, Provenance.cites]

end StoredAssertion

open StoredAssertion in
/-- A fact that counts its sources counts them after any run of duplicates. -/
theorem sources_counted (incumbent : StoredAssertion) (candidates : List MemoryCandidate)
    (hcounted : incumbent.corroboration_count = incumbent.sources.card) :
    let merged := candidates.foldl merge incumbent
    merged.corroboration_count = merged.sources.card ∧
    merged.citations = incumbent.citations ∪ (candidates.map fun c => c.provenance.cites).toFinset ∧
    candidates.foldl merge merged = merged ∧
    (∀ others : List MemoryCandidate, (∀ c, c ∈ others ↔ c ∈ candidates) →
      (others.foldl merge incumbent).corroboration_count = merged.corroboration_count ∧
      (others.foldl merge incumbent).citations = merged.citations) ∧
    merged = { incumbent with
      provenance := merged.provenance
      corroboration_count := merged.corroboration_count
      sourced := merged.sourced
      corroborated := merged.corroborated } := by
  intro merged
  have hunion : merged.citations =
      incumbent.citations ∪ (candidates.map fun c => c.provenance.cites).toFinset :=
    citations_foldl
  refine ⟨counted_foldl hcounted, hunion, foldl_held fun c hc => ?_, fun others hothers => ?_, ?_⟩
  · rw [hunion, Finset.mem_union, List.mem_toFinset]
    exact Or.inr (List.mem_map_of_mem hc)
  · have hsame : (others.foldl merge incumbent).citations = merged.citations := by
      rw [hunion, citations_foldl]
      congr 1
      ext cited
      simp [hothers]
    refine ⟨?_, hsame⟩
    rw [counted_foldl hcounted, counted_foldl hcounted, sources_eq, sources_eq, hsame]
  · obtain ⟨ps, n, hps, hn, h⟩ : Grown incumbent merged := foldl_grown
    rw [h]

namespace Clinical

/-- The note it was first taken from again, another passage of that note, and the chart twice. -/
def restatements : List MemoryCandidate :=
  [allergy "penicillin", allergy "penicillin V", language "chart" "3" "penicillin" 1,
    language "chart" "4" "penicillin" 2]

end Clinical

open Clinical StoredAssertion in
/-- Three citations are two sources. -/
theorem chart_corroborates :
    let merged := restatements.foldl merge (recorded "first" "penicillin")
    merged.corroboration_count = 2 ∧ merged.citations.card = 3 := by
  obtain ⟨hcount, hcitations, -⟩ := sources_counted (recorded "first" "penicillin") restatements (by decide)
  refine ⟨hcount.trans (by decide +kernel), ?_⟩
  rw [hcitations]
  decide +kernel

end GuardMem
