import Mathlib.Data.List.Induction
import Mathlib.Tactic.Common

/-! Hash chains over any payloads and digests, with a hash that may refuse an input.

    CORRECT: where the hash does not collide on two intact chains, their last digests decide the whole
    chains (`eq_of_head`), so an intact rewrite changes every digest from the first change on
    (`digests_differ`), and no two links have one predecessor (`prev_inj`). -/

namespace Lib.HashChain

/-- What is hashed, the digest it names as its predecessor's, and its own. -/
structure Link (P D : Type) where
  payload : P
  prev : D
  digest : D
  deriving DecidableEq

variable {P D : Type} (H : P → D → Option D)

/-- The link's digest is the hash of its own content. -/
def Link.Sound (l : Link P D) : Prop := H l.payload l.prev = some l.digest

/-- The digest the next link has to name. -/
def head (g : D) (ls : List (Link P D)) : D := ls.foldl (fun _ l => l.digest) g

/-- Every link is sound and names the digest before it, `g` for the first. -/
def Intact (g : D) : List (Link P D) → Prop
  | [] => True
  | l :: ls => (l.prev = g ∧ l.Sound H) ∧ Intact l.digest ls

/-- The hash tells the two links' contents apart. -/
def Tells (l m : Link P D) : Prop :=
  l.digest = m.digest → l.payload = m.payload ∧ l.prev = m.prev

variable {H} {g : D}

@[simp] theorem head_nil : head g ([] : List (Link P D)) = g := rfl

@[simp] theorem head_cons (l : Link P D) (ls : List (Link P D)) : head g (l :: ls) = head l.digest ls :=
  rfl

theorem head_append (ls ms : List (Link P D)) : head g (ls ++ ms) = head (head g ls) ms :=
  List.foldl_append

theorem head_concat (ls : List (Link P D)) (l : Link P D) : head g (ls ++ [l]) = l.digest :=
  head_append ls [l]

theorem intact_append {ls ms : List (Link P D)} :
    Intact H g (ls ++ ms) ↔ Intact H g ls ∧ Intact H (head g ls) ms := by
  induction ls generalizing g with
  | nil => simp [Intact]
  | cons l ls ih => simp only [List.cons_append, Intact, ih, head_cons, and_assoc]

theorem intact_concat {ls : List (Link P D)} {l : Link P D} :
    Intact H g (ls ++ [l]) ↔ Intact H g ls ∧ l.prev = head g ls ∧ l.Sound H := by
  simp [intact_append, Intact]

theorem intact_take {ls : List (Link P D)} (h : Intact H g ls) (n : ℕ) : Intact H g (ls.take n) :=
  (intact_append.mp (by rwa [List.take_append_drop])).1

/-- The link at a position names what comes before it, and is sound. -/
theorem intact_getElem {ls : List (Link P D)} (h : Intact H g ls) {i : ℕ} {l : Link P D}
    (hi : ls[i]? = some l) : l.prev = head g (ls.take i) ∧ l.Sound H := by
  obtain ⟨hlt, rfl⟩ := List.getElem?_eq_some_iff.mp hi
  have htake := intact_take h (i + 1)
  rw [List.take_succ_eq_append_getElem hlt, intact_concat] at htake
  exact htake.2

/-! ### The first break -/

section Break

variable [DecidableEq D]

instance (l : Link P D) : Decidable (l.Sound H) :=
  inferInstanceAs (Decidable (H l.payload l.prev = some l.digest))

/-- The position of the first link that does not name the digest before it, or is not sound. -/
def firstBreak (H : P → D → Option D) : D → List (Link P D) → Option ℕ
  | _, [] => none
  | g, l :: ls =>
      if l.prev = g ∧ l.Sound H then (firstBreak H l.digest ls).map (· + 1) else some 0

/-- CORRECT: nothing breaks exactly when the chain is intact. -/
theorem firstBreak_eq_none {ls : List (Link P D)} : firstBreak H g ls = none ↔ Intact H g ls := by
  induction ls generalizing g with
  | nil => simp [firstBreak, Intact]
  | cons l ls ih =>
      rw [firstBreak, Intact]
      split
      · next h => simp [h, ih]
      · next h => simp [h]

/-- CORRECT: the break is at the first link that fails either test, after an intact prefix. -/
theorem firstBreak_eq_some {ls : List (Link P D)} {i : ℕ} : firstBreak H g ls = some i ↔
    ∃ l, ls[i]? = some l ∧ Intact H g (ls.take i) ∧
      ¬ (l.prev = head g (ls.take i) ∧ l.Sound H) := by
  induction ls generalizing g i with
  | nil => simp [firstBreak]
  | cons l ls ih =>
      rw [firstBreak]
      split
      · next h =>
          cases i with
          | zero => simp [h]
          | succ i =>
              simp only [Option.map_eq_some_iff, Nat.add_right_cancel_iff, exists_eq_right, ih,
                List.getElem?_cons_succ, List.take_succ_cons, head_cons, Intact, h, true_and]
      · next h =>
          cases i with
          | zero => simpa [Intact] using not_and.mp h
          | succ i => simp [Intact, h]

end Break

/-! ### What the digests determine -/

/-- CORRECT: chains of one length with one last digest are one chain, backwards from the head. -/
theorem eq_of_head {ls ms : List (Link P D)} (hls : Intact H g ls) (hms : Intact H g ms)
    (hlen : ls.length = ms.length) (htell : ∀ l ∈ ls, ∀ m ∈ ms, Tells l m)
    (hhead : head g ls = head g ms) : ls = ms := by
  induction ls using List.reverseRecOn generalizing ms with
  | nil => exact (List.length_eq_zero_iff.mp hlen.symm).symm
  | append_singleton ls l ih =>
      obtain ⟨ms, m, rfl⟩ : ∃ ns n, ms = ns ++ [n] := by
        rcases List.eq_nil_or_concat ms with rfl | ⟨ns, n, rfl⟩
        · simp at hlen
        · exact ⟨ns, n, List.concat_eq_append⟩
      rw [intact_concat] at hls hms
      rw [head_concat, head_concat] at hhead
      obtain ⟨hpayload, hprev⟩ := htell l (by simp) m (by simp) hhead
      have hrest : ls = ms := by
        refine ih hls.1 hms.1 (by simpa using hlen) (fun a ha b hb => ?_) ?_
        · exact htell a (List.mem_append_left _ ha) b (List.mem_append_left _ hb)
        · rw [← hls.2.1, ← hms.2.1, hprev]
      obtain ⟨lp, lq, ld⟩ := l
      obtain ⟨mp, mq, md⟩ := m
      obtain rfl : lp = mp := hpayload
      obtain rfl : lq = mq := hprev
      obtain rfl : ld = md := hhead
      rw [hrest]

/-- CORRECT: when both a chain and its rewrite are intact, every digest from the first rewritten link
    on has changed. -/
theorem digests_differ {ls ms : List (Link P D)} (hls : Intact H g ls) (hms : Intact H g ms)
    (htell : ∀ l ∈ ls, ∀ m ∈ ms, Tells l m) {i j : ℕ} (hij : i ≤ j)
    (hi : ls[i]? ≠ ms[i]?) {l m : Link P D} (hl : ls[j]? = some l) (hm : ms[j]? = some m) :
    l.digest ≠ m.digest := by
  intro hdig
  obtain ⟨hlt, rfl⟩ := List.getElem?_eq_some_iff.mp hl
  obtain ⟨hmt, rfl⟩ := List.getElem?_eq_some_iff.mp hm
  refine hi ?_
  have htake : ls.take (j + 1) = ms.take (j + 1) := by
    refine eq_of_head (intact_take hls _) (intact_take hms _) ?_
      (fun a ha b hb => htell a (List.mem_of_mem_take ha) b (List.mem_of_mem_take hb)) ?_
    · rw [List.length_take, List.length_take]
      omega
    · rw [List.take_succ_eq_append_getElem hlt, List.take_succ_eq_append_getElem hmt, head_concat,
        head_concat, hdig]
  rw [← List.getElem?_take_of_lt (l := ls) (show i < j + 1 by omega), htake,
    List.getElem?_take_of_lt (by omega)]

/-- The digests along a chain are pairwise different when the hash neither collides nor hits `g`. -/
theorem head_take_inj {ls : List (Link P D)} (h : Intact H g ls)
    (htell : ∀ l ∈ ls, ∀ m ∈ ls, Tells l m) (hg : ∀ l ∈ ls, l.digest ≠ g) :
    ∀ {i j : ℕ}, i ≤ ls.length → j ≤ ls.length → head g (ls.take i) = head g (ls.take j) → i = j := by
  have hsucc : ∀ {k : ℕ} (hk : k < ls.length), head g (ls.take (k + 1)) = ls[k].digest := by
    intro k hk
    rw [List.take_succ_eq_append_getElem hk, head_concat]
  intro i
  induction i with
  | zero =>
      intro j _ hj heq
      cases j with
      | zero => rfl
      | succ j =>
          rw [hsucc hj] at heq
          exact absurd heq.symm (hg _ (List.getElem_mem hj))
  | succ i ih =>
      intro j hi hj heq
      cases j with
      | zero =>
          rw [hsucc hi] at heq
          exact absurd heq (hg _ (List.getElem_mem hi))
      | succ j =>
          rw [hsucc hi, hsucc hj] at heq
          obtain ⟨-, hprev⟩ := htell _ (List.getElem_mem hi) _ (List.getElem_mem hj) heq
          rw [(intact_getElem h (List.getElem?_eq_getElem hi)).1,
            (intact_getElem h (List.getElem?_eq_getElem hj)).1] at hprev
          rw [ih (by omega) (by omega) hprev]

/-- CORRECT: then no two links name one predecessor. -/
theorem prev_inj {ls : List (Link P D)} (h : Intact H g ls)
    (htell : ∀ l ∈ ls, ∀ m ∈ ls, Tells l m) (hg : ∀ l ∈ ls, l.digest ≠ g) {i j : ℕ} {l m : Link P D}
    (hl : ls[i]? = some l) (hm : ls[j]? = some m) (hprev : l.prev = m.prev) : i = j := by
  have hi := (List.getElem?_eq_some_iff.mp hl).1
  have hj := (List.getElem?_eq_some_iff.mp hm).1
  refine head_take_inj h htell hg (Nat.le_of_lt hi) (Nat.le_of_lt hj) ?_
  rw [← (intact_getElem h hl).1, ← (intact_getElem h hm).1, hprev]

end Lib.HashChain
