import GuardMem.Clinical
import GuardMem.Lib.Pointer

/-! Supersession: the graph of `superseded_by`, and who wins a race for an incumbent.

    An apply points the incumbent at an id derived from its trace and candidate id. A redelivered
    proposal derives the id of a row that may since have been superseded, so the pointer can close a
    cycle (`two_cycle`). CORRECT: the graph stays acyclic exactly in the runs where no superseding
    apply derives the id of a row that already leads to its incumbent (`acyclic_iff_forward`). -/

namespace GuardMem

open Lib.Transition Lib.Pointer

variable {G : Type} {env : Env G} {w w' : World G} {l : Label}

/-- Where `superseded_by` of the row under an id points. -/
def Db.next (db : Db) (aid : AssertionId) : Option AssertionId :=
  (db.assertions.find? fun r => r.id == aid).bind AssertionRow.superseded_by

theorem next_eq_some {uuid : Uuid5} {db : Db} (hwf : Wf uuid db) {a b : AssertionId} :
    db.next a = some b ↔ ∃ r ∈ db.assertions, r.id = a ∧ r.superseded_by = some b := by
  unfold Db.next
  constructor
  · intro h
    obtain ⟨r, hfind, hs⟩ := Option.bind_eq_some_iff.mp h
    exact ⟨r, List.mem_of_find?_eq_some hfind, by simpa using List.find?_some hfind, hs⟩
  · rintro ⟨r, hr, rfl, hs⟩
    cases hfind : db.assertions.find? fun q => q.id == r.id with
    | none => exact absurd (beq_self_eq_true r.id) (List.find?_eq_none.mp hfind r hr)
    | some q =>
        have hid : q.id = r.id := by simpa using List.find?_some hfind
        rw [hwf.eq_of_id (List.mem_of_find?_eq_some hfind) hr hid]
        exact hs

/-- A live row has no successor. -/
def Unretired (db : Db) : Prop :=
  ∀ r ∈ db.assertions, r.valid_to = none → r.superseded_by = none

/-- A landing apply sets the pointer of the row it retires, and no other. -/
theorem next_landed {deps : Deps} {db : Db} {p : Landing} (hwf : Wf deps.uuid db)
    (hl : Lands deps p.tenant p.clock p.governed db) :
    (landed deps p.tenant p.trace p.clock p.governed db).next =
      match retires p.governed with
      | some old => Function.update db.next old (some (assertion_id deps.uuid p.governed))
      | none => db.next := by
  have hwf' : Wf deps.uuid (landed deps p.tenant p.trace p.clock p.governed db) := hwf.landed hl
  funext a
  ext b
  rw [next_eq_some hwf']
  have hkept : (∃ r ∈ db.assertions, retires p.governed ≠ some r.id ∧ r.id = a ∧
      r.superseded_by = some b) ↔ retires p.governed ≠ some a ∧ db.next a = some b := by
    rw [next_eq_some hwf]
    constructor
    · rintro ⟨r, hr, hne, rfl, hs⟩
      exact ⟨hne, r, hr, rfl, hs⟩
    · rintro ⟨hne, r, hr, rfl, hs⟩
      exact ⟨r, hr, hne, rfl, hs⟩
  have hrows : (∃ r ∈ (landed deps p.tenant p.trace p.clock p.governed db).assertions, r.id = a ∧
      r.superseded_by = some b) ↔
      (retires p.governed ≠ some a ∧ db.next a = some b) ∨
        (retires p.governed = some a ∧ assertion_id deps.uuid p.governed = b) := by
    rw [← hkept]
    constructor
    · rintro ⟨r, hr, rfl, hs⟩
      rcases (mem_landed hwf hl).mp hr with ⟨hr, hne⟩ | hnew | ⟨-, hret, -, -⟩
      · exact Or.inl ⟨r, hr, hne, rfl, hs⟩
      · cases hs
      · exact Or.inr ⟨hret, Option.some.inj hs⟩
    · rintro (⟨r, hr, hne, rfl, hs⟩ | ⟨hret, rfl⟩)
      · exact ⟨r, (mem_landed hwf hl).mpr (.kept hr hne), rfl, hs⟩
      · obtain ⟨-, q, hq, hqs, -⟩ := hl.target a hret
        obtain ⟨rfl, hlive, ht⟩ := supersedes_iff.mp hqs
        exact ⟨_, (mem_landed hwf hl).mpr (.retired hq hret hlive ht), rfl, rfl⟩
  rw [hrows]
  cases hret : retires p.governed with
  | none => simp
  | some old =>
      by_cases ha : a = old
      · subst ha; simp
      · simp [ha, Ne.symm ha]

/-- An apply that supersedes derives an id from which `superseded_by` does not lead to its
    incumbent. -/
def Landing.Forward (deps : Deps) (db : Db) (p : Landing) : Prop :=
  ∀ old ∈ retires p.governed, ¬ Leads db.next (assertion_id deps.uuid p.governed) old

/-- The step lands no apply that is not forward. -/
def Forward (env : Env G) (w : World G) (l : Label) : Prop :=
  ∀ p ∈ landing env w l, p.Forward env.deps w.db

theorem Unretired.landed {deps : Deps} {db : Db} {p : Landing} (h : Unretired db)
    (hwf : Wf deps.uuid db) (hl : Lands deps p.tenant p.clock p.governed db) :
    Unretired (landed deps p.tenant p.trace p.clock p.governed db) := by
  intro r hr hlive
  rcases (mem_landed hwf hl).mp hr with ⟨hr, -⟩ | - | ⟨-, -, -, -⟩
  · exact h r hr hlive
  · rfl
  · cases hlive

theorem Unlanded.unretired (hu : Unlanded w w') (h : Unretired w.db) : Unretired w'.db := by
  obtain ⟨f, hrows, hf⟩ := hu.rows
  intro r hr hlive
  rw [hrows] at hr
  obtain ⟨q, hq, rfl⟩ := List.mem_map.mp hr
  rw [hf] at hlive ⊢
  exact h q hq hlive

theorem Unlanded.next (hu : Unlanded w w') : w'.db.next = w.db.next := by
  obtain ⟨f, hrows, hf⟩ := hu.rows
  have hid : ∀ r, (f r).id = r.id := fun r => by rw [hf]
  have hs : ∀ r, (f r).superseded_by = r.superseded_by := fun r => by rw [hf]
  funext a
  have hpred : (fun r : AssertionRow => r.id == a) ∘ f = fun r => r.id == a := by
    funext r
    simp [hid]
  simp only [Db.next, hrows, List.find?_map, hpred]
  cases w.db.assertions.find? fun r => r.id == a with
  | none => rfl
  | some r => exact hs r

theorem step_unretired (h : step_governed env w l = some w') (hi : Wf env.deps.uuid w.db)
    (hr : Unretired w.db) : Unretired w'.db := by
  cases hp : landing env w l with
  | none => exact (step_unlanded hp hi h).unretired hr
  | some p =>
      obtain ⟨_, _, _, -, -, -, -, -, hl⟩ := landing_some hp
      rw [(step_landing hp hi (step_of_governed h).1).1]
      exact hr.landed hi hl

/-- A step keeps the graph acyclic if and only if it is forward. -/
theorem step_acyclic_iff (h : step_governed env w l = some w') (hi : Wf env.deps.uuid w.db)
    (hr : Unretired w.db) (ha : Acyclic w.db.next) : Acyclic w'.db.next ↔ Forward env w l := by
  unfold Forward
  cases hp : landing env w l with
  | none =>
      rw [(step_unlanded hp hi h).next]
      simpa using ha
  | some p =>
      obtain ⟨_, _, _, -, -, -, -, -, hl⟩ := landing_some hp
      rw [(step_landing hp hi (step_of_governed h).1).1, next_landed hi hl]
      simp only [Option.mem_def, Option.some.injEq, forall_eq', Landing.Forward]
      cases hret : retires p.governed with
      | none => simpa using ha
      | some old =>
          -- the incumbent is live, so it was a dead end until now
          have hdead : w.db.next old = none := by
            obtain ⟨-, q, hq, hqs, -⟩ := hl.target old hret
            obtain ⟨rfl, hlive, -⟩ := supersedes_iff.mp hqs
            refine Option.eq_none_iff_forall_ne_some.mpr fun b hb => ?_
            obtain ⟨r, hr', hid, hs⟩ := (next_eq_some hi).mp hb
            rw [hi.eq_of_id hr' hq hid, hr q hq hlive] at hs
            cases hs
          simpa using acyclic_update_iff hdead ha

theorem acyclic_init : Acyclic (env.init).db.next := fun a h => by
  obtain ⟨b, hab, -⟩ := Relation.TransGen.head'_iff.mp h
  cases hab

/-- CORRECT: `superseded_by` is acyclic in every state of a run if and only if every superseding
    apply of it is forward. -/
theorem acyclic_iff_forward (env : Env G) (ls : List Label) :
    Always (step_governed env) (fun w => Acyclic w.db.next) env.init ls ↔
      Along (step_governed env) (Forward env) env.init ls := by
  refine always_iff_along (I := fun w => Wf env.deps.uuid w.db ∧ Unretired w.db) ?_ ?_ ?_
    ⟨.empty, fun _ hr => absurd hr List.not_mem_nil⟩ acyclic_init
  · rintro w l w' h ⟨hi, hr⟩
    exact ⟨step_wf (step_of_governed h).1 hi, step_unretired h hi hr⟩
  · intro w l h p hp
    rw [landing_of_disabled h] at hp
    cases hp
  · rintro w l w' h ⟨hi, hr⟩ ha
    exact step_acyclic_iff h hi hr ha

section Clinical

open GuardMem.Clinical

/-- French is revealed and superseded by German; then the first proposal is delivered again. -/
def redelivered : List Label :=
  [proposal "t" [language "t" "c_1" "French" 10], scored 0 0, applied 0 20] ++
    dispatched 0 (row_id "t" "c_1") 30 ++
  [proposal "u" [language "u" "c_1" "German" 35], scored 1 0, applied 1 40] ++
    dispatched 1 (row_id "u" "c_1") 50 ++
  [proposal "t" [language "t" "c_1" "French" 10], scored 2 0, applied 2 60]

/-- The replayed apply points German's row back at French's. -/
theorem two_cycle : ¬ Always (step_governed Clinical.env) (fun w => Acyclic w.db.next)
    Clinical.env.init redelivered := by
  intro h
  have hlast : (run (step_governed Clinical.env) Clinical.env.init redelivered).map (fun w =>
      (w.db.next (row_id "t" "c_1"), w.db.next (row_id "u" "c_1"))) =
      some (some (row_id "u" "c_1"), some (row_id "t" "c_1")) := by
    decide +kernel
  obtain ⟨w, hrun, hnext⟩ := Option.map_eq_some_iff.mp hlast
  obtain ⟨hfrom, hback⟩ := Prod.mk.inj hnext
  exact h.last hrun _ (.tail (.single hfrom) hback)

end Clinical

end GuardMem
