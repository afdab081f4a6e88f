import Mathlib.Data.List.Induction
import Mathlib.Logic.Relation
import Mathlib.Tactic.Common

/-! Labelled transition systems with a partial, deterministic step.

    Every choice the environment makes (who moves, what a call returned, what the clock read) is in
    the label, so a run is a list of labels and an interleaving is the order of that list. Four rules
    carry a fact about one step to a whole run: `inv_run` for an invariant, `rel_run` for a preorder
    between the states, `inv_along` for an invariant that only the steps meeting a guard keep, and
    `always_iff_along` when the guard is exact. -/

namespace Lib.Transition

variable {S L : Type*} (step : S → L → Option S)

/-- Run the labels in order; `none` as soon as one of them is not enabled. -/
def run : S → List L → Option S
  | s, [] => some s
  | s, l :: ls => (step s l).bind fun s' => run s' ls

/-- `Q` holds of every step of the run, seen from the state before it. -/
def Along (Q : S → L → Prop) : S → List L → Prop
  | _, [] => True
  | s, l :: ls => Q s l ∧ ∀ s', step s l = some s' → Along Q s' ls

/-- Run the labels in order, as long as each step meets `Q`. -/
def runWith (Q : S → L → Prop) [∀ s l, Decidable (Q s l)] : S → List L → Option S
  | s, [] => some s
  | s, l :: ls => if Q s l then (step s l).bind fun s' => runWith Q s' ls else none

/-- `P` holds in every state of the run, the first included. -/
def Always (P : S → Prop) : S → List L → Prop
  | s, [] => P s
  | s, l :: ls => P s ∧ ∀ s', step s l = some s' → Always P s' ls

/-- `t` can be reached from `s`. -/
def Reach (s t : S) : Prop := ∃ ls, run step s ls = some t

variable {step}

@[simp] theorem run_nil (s : S) : run step s [] = some s := rfl

theorem run_cons {s t : S} {l : L} {ls : List L} :
    run step s (l :: ls) = some t ↔ ∃ s', step s l = some s' ∧ run step s' ls = some t := by
  simp only [run, Option.bind_eq_some_iff]

theorem run_append {s t : S} : ∀ {ls ms : List L},
    run step s (ls ++ ms) = some t ↔ ∃ u, run step s ls = some u ∧ run step u ms = some t
  | [], ms => by simp
  | l :: ls, ms => by
      simp only [List.cons_append, run_cons]
      constructor
      · rintro ⟨s', hs, hr⟩
        obtain ⟨u, hu, hm⟩ := run_append.mp hr
        exact ⟨u, ⟨s', hs, hu⟩, hm⟩
      · rintro ⟨u, ⟨s', hs, hu⟩, hm⟩
        exact ⟨s', hs, run_append.mpr ⟨u, hu, hm⟩⟩

theorem run_of_runWith {Q : S → L → Prop} [∀ s l, Decidable (Q s l)] {t : S} :
    ∀ {ls : List L} {s : S}, runWith step Q s ls = some t → run step s ls = some t ∧ Along step Q s ls
  | [], s, h => ⟨h, trivial⟩
  | l :: ls, s, h => by
      rw [runWith] at h
      split at h
      · next hq =>
          obtain ⟨s', hs, hr⟩ := Option.bind_eq_some_iff.mp h
          obtain ⟨hrun, halong⟩ := run_of_runWith hr
          refine ⟨run_cons.mpr ⟨s', hs, hrun⟩, hq, fun u hu => ?_⟩
          obtain rfl := Option.some.inj (hs.symm.trans hu)
          exact halong
      · cases h

theorem Reach.refl (s : S) : Reach step s s := ⟨[], rfl⟩

theorem Reach.tail {s t u : S} {l : L} (h : Reach step s t) (hl : step t l = some u) :
    Reach step s u := by
  obtain ⟨ls, hls⟩ := h
  exact ⟨ls ++ [l], run_append.mpr ⟨t, hls, run_cons.mpr ⟨u, hl, rfl⟩⟩⟩

theorem Reach.trans {s t u : S} (h : Reach step s t) (k : Reach step t u) : Reach step s u := by
  obtain ⟨ls, hls⟩ := h
  obtain ⟨ms, hms⟩ := k
  exact ⟨ls ++ ms, run_append.mpr ⟨t, hls, hms⟩⟩

/-- What every step keeps, a run keeps. -/
theorem inv_run {I : S → Prop} (hstep : ∀ s l s', step s l = some s' → I s → I s') :
    ∀ {ls : List L} {s t : S}, run step s ls = some t → I s → I t
  | [], s, t, h, hi => by simp only [run_nil, Option.some.injEq] at h; exact h ▸ hi
  | l :: ls, s, t, h, hi => by
      obtain ⟨s', hs, hr⟩ := run_cons.mp h
      exact inv_run hstep hr (hstep s l s' hs hi)

/-- What holds of the empty run and is kept by a further step holds of every run from `s`, the labels
    taken included. -/
theorem run_induction {P : List L → S → Prop} {s : S} (hnil : P [] s)
    (hstep : ∀ ls t l u, run step s ls = some t → P ls t → step t l = some u → P (ls ++ [l]) u)
    {ls : List L} : ∀ {t : S}, run step s ls = some t → P ls t := by
  induction ls using List.reverseRecOn with
  | nil =>
      intro t h
      obtain rfl := Option.some.inj h
      exact hnil
  | append_singleton ls l ih =>
      intro t h
      obtain ⟨u, hu, hlast⟩ := run_append.mp h
      obtain ⟨t', hl, hnil⟩ := run_cons.mp hlast
      obtain rfl := Option.some.inj hnil
      exact hstep ls u l t' hu (ih hu) hl

/-- A preorder that every step respects relates the two ends of a run. `I` is an invariant the step
    lemma may use. -/
theorem rel_run {I : S → Prop} {R : S → S → Prop} (hrefl : ∀ s, R s s)
    (htrans : ∀ s t u, R s t → R t u → R s u)
    (hinv : ∀ s l s', step s l = some s' → I s → I s')
    (hstep : ∀ s l s', step s l = some s' → I s → R s s') :
    ∀ {ls : List L} {s t : S}, run step s ls = some t → I s → R s t
  | [], s, t, h, _ => by simp only [run_nil, Option.some.injEq] at h; exact h ▸ hrefl s
  | l :: ls, s, t, h, hi => by
      obtain ⟨s', hs, hr⟩ := run_cons.mp h
      exact htrans s s' t (hstep s l s' hs hi)
        (rel_run hrefl htrans hinv hstep hr (hinv s l s' hs hi))

/-- An invariant that the guarded steps keep holds in every state of a guarded run. -/
theorem always_of_along {I : S → Prop} {Q : S → L → Prop}
    (hstep : ∀ s l s', step s l = some s' → Q s l → I s → I s') :
    ∀ {ls : List L} {s : S}, Along step Q s ls → I s → Always step I s ls
  | [], _, _, hi => hi
  | _ :: _, _, ⟨hq, hr⟩, hi =>
      ⟨hi, fun s' hs => always_of_along hstep (hr s' hs) (hstep _ _ s' hs hq hi)⟩

theorem Always.mono {P P' : S → Prop} (h : ∀ s, P s → P' s) :
    ∀ {ls : List L} {s : S}, Always step P s ls → Always step P' s ls
  | [], _, hp => h _ hp
  | _ :: _, _, ⟨hp, hr⟩ => ⟨h _ hp, fun s' hs => (hr s' hs).mono h⟩

theorem Along.mono {Q Q' : S → L → Prop} (h : ∀ s l, Q s l → Q' s l) :
    ∀ {ls : List L} {s : S}, Along step Q s ls → Along step Q' s ls
  | [], _, _ => trivial
  | _ :: _, _, ⟨hq, hr⟩ => ⟨h _ _ hq, fun s' hs => (hr s' hs).mono h⟩

theorem along_of_forall {Q : S → L → Prop} (h : ∀ s l, Q s l) :
    ∀ {ls : List L} {s : S}, Along step Q s ls
  | [], _ => trivial
  | l :: _, s => ⟨h s l, fun _ _ => along_of_forall h⟩

/-- A guard that every label of the run meets from any state. -/
theorem along_of_labels {Q : S → L → Prop} : ∀ {ls : List L} {s : S}, (∀ l ∈ ls, ∀ s, Q s l) → Along step Q s ls
  | [], _, _ => trivial
  | _ :: _, s, h => by
      obtain ⟨hl, hls⟩ := List.forall_mem_cons.mp h
      exact ⟨hl s, fun _ _ => along_of_labels hls⟩

/-- Guards that agree in every state of the invariant agree along a run. -/
theorem along_congr {I : S → Prop} {Q Q' : S → L → Prop}
    (hinv : ∀ s l s', step s l = some s' → I s → I s') (h : ∀ s l, I s → (Q s l ↔ Q' s l)) :
    ∀ {ls : List L} {s : S}, I s → (Along step Q s ls ↔ Along step Q' s ls)
  | [], _, _ => Iff.rfl
  | l :: _, s, hi => and_congr (h s l hi) (forall₂_congr fun s' hs =>
      along_congr hinv h (hinv s l s' hs hi))

theorem Along.append {Q : S → L → Prop} :
    ∀ {ls ms : List L} {s : S}, Along step Q s (ls ++ ms) →
      Along step Q s ls ∧ ∀ t, run step s ls = some t → Along step Q t ms
  | [], _, s, h => ⟨trivial, fun t ht => by
      simp only [run_nil, Option.some.injEq] at ht; exact ht ▸ h⟩
  | _ :: _, _, _, ⟨hq, hr⟩ =>
      ⟨⟨hq, fun s' hs => (hr s' hs).append.1⟩, fun t ht => by
        obtain ⟨s', hs, hrun⟩ := run_cons.mp ht
        exact (hr s' hs).append.2 t hrun⟩

theorem Always.last {P : S → Prop} :
    ∀ {ls : List L} {s t : S}, Always step P s ls → run step s ls = some t → P t
  | [], s, t, h, hr => by simp only [run_nil, Option.some.injEq] at hr; exact hr ▸ h
  | _ :: _, _, t, ⟨_, hr⟩, hrun => by
      obtain ⟨s', hs, hrun'⟩ := run_cons.mp hrun
      exact (hr s' hs).last hrun'

theorem Always.head {P : S → Prop} : ∀ {ls : List L} {s : S}, Always step P s ls → P s
  | [], _, h => h
  | _ :: _, _, h => h.1

/-- A property of every state of a run is one of the state after every prefix of it. -/
theorem always_iff_prefix {P : S → Prop} : ∀ {ls : List L} {s : S},
    Always step P s ls ↔ ∀ pre post t, ls = pre ++ post → run step s pre = some t → P t
  | [], s => by
      constructor
      · rintro h pre post t heq hrun
        obtain ⟨rfl, -⟩ := List.append_eq_nil_iff.mp heq.symm
        obtain rfl := Option.some.inj hrun
        exact h
      · exact fun h => h [] [] s rfl rfl
  | l :: ls, s => by
      constructor
      · rintro ⟨hp, hr⟩ pre post t heq hrun
        cases pre with
        | nil => exact Option.some.inj hrun ▸ hp
        | cons k pre =>
            obtain ⟨rfl, rfl⟩ := List.cons.inj heq
            obtain ⟨s', hs, hrun⟩ := run_cons.mp hrun
            exact always_iff_prefix.mp (hr s' hs) pre post t rfl hrun
      · intro h
        refine ⟨h [] (l :: ls) s rfl rfl, fun s' hs => always_iff_prefix.mpr ?_⟩
        rintro pre post t rfl hrun
        exact h (l :: pre) post t rfl (run_cons.mpr ⟨s', hs, hrun⟩)

/-- An exact guard, for the runs that meet another one. -/
theorem always_iff_along_within {I P : S → Prop} {Q R : S → L → Prop}
    (hinv : ∀ s l s', step s l = some s' → R s l → I s → I s')
    (hidle : ∀ s l, step s l = none → Q s l)
    (hstep : ∀ s l s', step s l = some s' → R s l → I s → P s → (P s' ↔ Q s l)) :
    ∀ {ls : List L} {s : S}, Along step R s ls → I s → P s → (Always step P s ls ↔ Along step Q s ls)
  | [], _, _, _, hp => iff_of_true hp trivial
  | l :: ls, s, ⟨hr, hrs⟩, hi, hp => by
      cases hs : step s l with
      | none =>
          have hoff : ∀ s', step s l ≠ some s' := fun s' h => by rw [hs] at h; cases h
          exact iff_of_true ⟨hp, fun s' h => absurd h (hoff s')⟩
            ⟨hidle s l hs, fun s' h => absurd h (hoff s')⟩
      | some s' =>
          have key : Q s l → (Always step P s' ls ↔ Along step Q s' ls) := fun hq =>
            always_iff_along_within hinv hidle hstep (hrs s' hs) (hinv s l s' hs hr hi)
              ((hstep s l s' hs hr hi hp).mpr hq)
          have only : ∀ u, step s l = some u → u = s' := fun u hu =>
            (Option.some.inj (hs.symm.trans hu)).symm
          constructor
          · rintro ⟨_, hall⟩
            have hq : Q s l := (hstep s l s' hs hr hi hp).mp (hall s' hs).head
            exact ⟨hq, fun u hu => by rw [only u hu]; exact (key hq).mp (hall s' hs)⟩
          · rintro ⟨hq, hall⟩
            exact ⟨hp, fun u hu => by rw [only u hu]; exact (key hq).mpr (hall s' hs)⟩

/-- An exact guard: when each step from a good state lands in a good state if and only if it meets
    the guard, a run stays good throughout if and only if all its steps meet the guard. A label that
    is not enabled meets it for nothing. -/
theorem always_iff_along {I P : S → Prop} {Q : S → L → Prop}
    (hinv : ∀ s l s', step s l = some s' → I s → I s')
    (hidle : ∀ s l, step s l = none → Q s l)
    (hstep : ∀ s l s', step s l = some s' → I s → P s → (P s' ↔ Q s l)) {ls : List L} {s : S}
    (hi : I s) (hp : P s) : Always step P s ls ↔ Along step Q s ls :=
  always_iff_along_within (R := fun _ _ => True) (fun s l s' h _ => hinv s l s' h) hidle
    (fun s l s' h _ => hstep s l s' h) (along_of_forall fun _ _ => trivial) hi hp

/-! ### Deciding them on a given run -/

theorem along_cons {Q : S → L → Prop} {s s' : S} {l : L} {ls : List L} (h : step s l = some s') :
    Along step Q s (l :: ls) ↔ Q s l ∧ Along step Q s' ls := by
  simp [Along, h]

theorem always_cons {P : S → Prop} {s s' : S} {l : L} {ls : List L} (h : step s l = some s') :
    Always step P s (l :: ls) ↔ P s ∧ Always step P s' ls := by
  simp [Always, h]

instance decidableAlong {Q : S → L → Prop} [∀ s l, Decidable (Q s l)] :
    ∀ (s : S) (ls : List L), Decidable (Along step Q s ls)
  | _, [] => isTrue trivial
  | s, l :: ls =>
      match h : step s l with
      | none => decidable_of_iff (Q s l) (by simp [Along, h])
      | some s' =>
          have : Decidable (Along step Q s' ls) := decidableAlong s' ls
          decidable_of_iff' _ (along_cons h)

instance decidableAlways {P : S → Prop} [DecidablePred P] :
    ∀ (s : S) (ls : List L), Decidable (Always step P s ls)
  | s, [] => inferInstanceAs (Decidable (P s))
  | s, l :: ls =>
      match h : step s l with
      | none => decidable_of_iff (P s) (by simp [Always, h])
      | some s' =>
          have : Decidable (Always step P s' ls) := decidableAlways s' ls
          decidable_of_iff' _ (always_cons h)

end Lib.Transition
