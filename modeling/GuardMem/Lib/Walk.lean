import GuardMem.Lib.Table

/-! Breadth-first walks that collect arcs.

    A round visits the arcs that leave its frontier and collects each key once; where the new ones lead
    is the next frontier, and an empty one ends the walk. CORRECT: `n` rounds collect exactly the arcs
    within `n` hops of the start (`mem_rounds`), in whatever order a round visits. -/

namespace Lib

/-- What a walk has collected, and the frontier it is building. -/
structure Walk (κ α V : Type*) where
  seen : List κ := []
  found : List α := []
  following : List V := []

namespace Walk

variable {κ α V : Type*} [DecidableEq κ] [DecidableEq V] (key : α → κ) (next : α → Option V)

/-- Visit one arc: collect it, unless its key was seen, and mark where it leads. -/
def visit (w : Walk κ α V) (b : α) : Walk κ α V :=
  if key b ∈ w.seen then w
  else
    { seen := key b :: w.seen
      found := w.found ++ [b]
      following := match next b with
        | some v => if v ∈ w.following then w.following else w.following ++ [v]
        | none => w.following }

/-- `n` rounds, stopping early at an empty frontier. -/
def rounds (hop : List V → List α) : ℕ → List V → Walk κ α V → List α
  | 0, _, w => w.found
  | n + 1, frontier, w =>
      let w := (hop frontier).foldl (visit key next) { w with following := [] }
      if w.following = [] then w.found else rounds hop n w.following w

/-- `b` leaves a place that is `n` arcs from the start. -/
inductive Hops (live : α → Prop) (source : α → V) (start : V) : ℕ → α → Prop where
  | here {b} : live b → source b = start → Hops live source start 0 b
  | along {n a b} : Hops live source start n a → next a = some (source b) → live b →
      Hops live source start (n + 1) b

/-- Within `n` hops of the start. -/
def Within (live : α → Prop) (source : α → V) (start : V) (n : ℕ) (b : α) : Prop :=
  ∃ m < n, Hops next live source start m b

/-- No two of these have one key. -/
def Keyed (key : α → κ) (of : α → Prop) : Prop := ∀ a b, of a → of b → key a = key b → a = b

variable {key next} {live : α → Prop} {source : α → V} {start : V} {w : Walk κ α V} {b : α}

theorem visit_old (h : key b ∈ w.seen) : w.visit key next b = w := if_pos h

theorem visit_new (h : key b ∉ w.seen) : w.visit key next b =
    { seen := key b :: w.seen
      found := w.found ++ [b]
      following := match next b with
        | some v => if v ∈ w.following then w.following else w.following ++ [v]
        | none => w.following } := if_neg h

omit [DecidableEq V] in
theorem Hops.is_live {n : ℕ} (h : Hops next live source start n b) : live b := by
  cases h with
  | here h _ => exact h
  | along _ _ h => exact h

omit [DecidableEq V] in
theorem Within.is_live {n : ℕ} (h : Within next live source start n b) : live b := by
  obtain ⟨_, _, hb⟩ := h
  exact hb.is_live

omit [DecidableEq V] in
theorem Within.mono {m n : ℕ} (hle : m ≤ n) (h : Within next live source start m b) :
    Within next live source start n b := by
  obtain ⟨k, hk, hb⟩ := h
  exact ⟨k, by omega, hb⟩

omit [DecidableEq κ] in
theorem Keyed.mono {of of' : α → Prop} (h : Keyed key of) (hsub : ∀ b, of' b → of b) : Keyed key of' :=
  fun a b ha hb => h a b (hsub a ha) (hsub b hb)

/-! ### One round -/

/-- A walk has seen the keys of what it has found. -/
def Kept (key : α → κ) (w : Walk κ α V) : Prop := ∀ k, k ∈ w.seen ↔ k ∈ w.found.map key

omit [DecidableEq κ] [DecidableEq V] in
theorem Kept.empty : Kept key ({} : Walk κ α V) := by simp [Kept]

theorem Kept.visit (h : Kept key w) : Kept key (w.visit key next b) := by
  unfold Walk.visit
  split
  · exact h
  · intro k
    simp [h k, or_comm]

theorem Kept.foldl : ∀ {rows : List α} {w : Walk κ α V}, Kept key w →
    Kept key (rows.foldl (Walk.visit key next) w)
  | [], _, h => h
  | b :: rows, w, h => by
      rw [List.foldl_cons]
      exact Kept.foldl h.visit

theorem mem_found_visit (h : Kept key w) (hkey : ∀ a ∈ w.found, key a = key b → a = b) {x : α} :
    x ∈ (w.visit key next b).found ↔ x ∈ w.found ∨ x = b := by
  unfold Walk.visit
  split
  · next hseen =>
      obtain ⟨a, ha, hk⟩ := List.mem_map.mp ((h _).mp hseen)
      obtain rfl := hkey a ha hk
      exact ⟨Or.inl, fun hx => hx.elim id (fun e => e ▸ ha)⟩
  · simp

theorem mem_following_visit {v : V} : v ∈ (w.visit key next b).following ↔
    v ∈ w.following ∨ (key b ∉ w.seen ∧ next b = some v) := by
  unfold Walk.visit
  split
  · next hseen => simp [hseen]
  · next hseen =>
      cases hn : next b with
      | none => simp
      | some u =>
          by_cases hu : u ∈ w.following
          · simp only [hu, if_true, Option.some.injEq]
            exact ⟨Or.inl, fun hv => hv.elim id (fun e => e.2 ▸ hu)⟩
          · simp [hu, hseen, eq_comm]

/-- What visiting some rows collects, and where the new ones of them lead. -/
theorem foldl_visit : ∀ {rows : List α} {w : Walk κ α V}, Kept key w → (∀ b ∈ rows, live b) →
    (∀ b ∈ w.found, live b) → (∀ a b, live a → live b → key a = key b → a = b) →
    Kept key (rows.foldl (visit key next) w) ∧
      (∀ x, x ∈ (rows.foldl (visit key next) w).found ↔ x ∈ w.found ∨ x ∈ rows) ∧
      ∀ v, v ∈ (rows.foldl (visit key next) w).following ↔
        v ∈ w.following ∨ ∃ b ∈ rows, b ∉ w.found ∧ next b = some v
  | [], w, h, _, _, _ => ⟨h, by simp, by simp⟩
  | b :: rows, w, h, hrows, hfound, hkey => by
      have hb := hrows b List.mem_cons_self
      have hmem := fun x => @mem_found_visit κ α V _ _ key next w b h
        (fun a ha => hkey a b (hfound a ha) hb) x
      have hseen : key b ∈ w.seen ↔ b ∈ w.found := by
        rw [h (key b), List.mem_map]
        exact ⟨fun ⟨a, ha, hk⟩ => hkey a b (hfound a ha) hb hk ▸ ha, fun hin => ⟨b, hin, rfl⟩⟩
      obtain ⟨hkept, hcollected, hleads⟩ := foldl_visit h.visit
        (fun c hc => hrows c (List.mem_cons_of_mem _ hc))
        (fun c hc => ((hmem c).mp hc).elim (hfound c) (fun e => e ▸ hb)) hkey
      refine ⟨hkept, fun x => ?_, fun v => ?_⟩
      · rw [List.foldl_cons, hcollected, hmem, List.mem_cons, or_assoc]
      · rw [List.foldl_cons, hleads, mem_following_visit, hseen]
        constructor
        · rintro ((hv | ⟨hnew, hn⟩) | ⟨c, hc, hnew, hn⟩)
          · exact Or.inl hv
          · exact Or.inr ⟨b, List.mem_cons_self, hnew, hn⟩
          · exact Or.inr ⟨c, List.mem_cons_of_mem _ hc, fun hin => hnew ((hmem c).mpr (Or.inl hin)), hn⟩
        · rintro (hv | ⟨c, hc, hnew, hn⟩)
          · exact Or.inl (Or.inl hv)
          · by_cases hcb : c = b
            · exact Or.inl (Or.inr (hcb ▸ ⟨hnew, hn⟩))
            · refine Or.inr ⟨c, (List.mem_cons.mp hc).resolve_left hcb, fun hin => ?_, hn⟩
              exact ((hmem c).mp hin).elim hnew hcb

/-- In the order of the rows, what is collected is each key's first row. -/
theorem found_foldl_visit : ∀ {rows : List α} {w : Walk κ α V}, Kept key w →
    (rows.foldl (visit key next) w).found =
      rows.foldl (fun found b => Table.insertNew key b found) w.found
  | [], _, _ => rfl
  | b :: rows, w, h => by
      have hfound : (w.visit key next b).found = Table.insertNew key b w.found := by
        unfold Walk.visit
        split
        · next hseen => rw [Table.insertNew_old ((h _).mp hseen)]
        · next hseen => rw [Table.insertNew_new fun hin => hseen ((h _).mpr hin)]
      rw [List.foldl_cons, List.foldl_cons, found_foldl_visit h.visit, hfound]

/-- One round collects what its rows collect. -/
theorem rounds_one {hop : List V → List α} {frontier : List V} (h : Kept key w) :
    rounds key next hop 1 frontier w =
      (hop frontier).foldl (fun found b => Table.insertNew key b found) w.found := by
  have hkept : Kept key ({ w with following := [] } : Walk κ α V) := h
  simp only [rounds, ite_self]
  exact found_foldl_visit hkept

/-! ### The whole walk -/

/-- After `k` rounds: everything within `k` hops is found, and whatever is `k` hops away is found or
    leaves the frontier. -/
structure Round (next : α → Option V) (live : α → Prop) (source : α → V) (start : V) (k : ℕ)
    (frontier : List V) (w : Walk κ α V) : Prop where
  found : ∀ b, b ∈ w.found ↔ ∃ m < k, Hops next live source start m b
  ahead : ∀ b, Hops next live source start k b → b ∈ w.found ∨ source b ∈ frontier
  reached : ∀ b, live b → source b ∈ frontier → Hops next live source start k b

theorem Round.step {hop : List V → List α} {k : ℕ} {frontier : List V}
    (hhop : ∀ F b, b ∈ hop F ↔ live b ∧ source b ∈ F)
    (hkey : Keyed key (Within next live source start (k + 1))) (hkept : Kept key w)
    (h : Round next live source start k frontier w) :
    Kept key ((hop frontier).foldl (visit key next) { w with following := [] }) ∧
      Round next live source start (k + 1)
        ((hop frontier).foldl (visit key next) { w with following := [] }).following
        ((hop frontier).foldl (visit key next) { w with following := [] }) := by
  have hrows : ∀ b ∈ hop frontier, Within next live source start (k + 1) b := by
    intro b hb
    obtain ⟨hlive, hs⟩ := (hhop _ b).mp hb
    exact ⟨k, Nat.lt_succ_self k, h.reached b hlive hs⟩
  have hold : ∀ b ∈ w.found, Within next live source start (k + 1) b := by
    intro b hb
    obtain ⟨m, hm, hb⟩ := (h.found b).mp hb
    exact ⟨m, by omega, hb⟩
  obtain ⟨hkept', hfound, hleads⟩ := @foldl_visit κ α V _ _ key next _ (hop frontier)
    { w with following := [] } hkept hrows hold hkey
  -- the new round finds exactly what is `k` hops away
  have hmem : ∀ b, b ∈ ((hop frontier).foldl (visit key next) { w with following := [] }).found ↔
      ∃ m < k + 1, Hops next live source start m b := by
    intro b
    rw [hfound, hhop, h.found]
    constructor
    · rintro (⟨m, hm, hb⟩ | ⟨hb, hs⟩)
      · exact ⟨m, by omega, hb⟩
      · exact ⟨k, by omega, h.reached b hb hs⟩
    · rintro ⟨m, hm, hb⟩
      rcases Nat.lt_succ_iff_lt_or_eq.mp hm with hm | rfl
      · exact Or.inl ⟨m, hm, hb⟩
      · exact (h.ahead b hb).imp (h.found b).mp (fun hs => ⟨hb.is_live, hs⟩)
  refine ⟨hkept', hmem, ?_, ?_⟩
  · intro b hb
    cases hb with
    | along ha hn hb =>
        rename_i a
        by_cases hold : a ∈ w.found
        · obtain ⟨m, hm, ha'⟩ := (h.found a).mp hold
          exact Or.inl ((hmem b).mpr ⟨m + 1, by omega, .along ha' hn hb⟩)
        · have hs := (h.ahead a ha).resolve_left hold
          exact Or.inr ((hleads _).mpr (Or.inr ⟨a, (hhop _ a).mpr ⟨ha.is_live, hs⟩, hold, hn⟩))
  · intro b hb hs
    obtain hs | ⟨a, ha, -, hn⟩ := (hleads _).mp hs
    · cases hs
    · obtain ⟨ha, has⟩ := (hhop _ a).mp ha
      exact .along (h.reached a ha has) hn hb

omit [DecidableEq V] in
/-- Where nothing new is `k` hops away, nothing is further. -/
theorem hops_stop {k : ℕ}
    (h : ∀ b, Hops next live source start k b → ∃ m < k, Hops next live source start m b)
    {n : ℕ} (hn : Hops next live source start n b) : ∃ m < k, Hops next live source start m b := by
  induction hn with
  | here hb hs =>
      rcases Nat.eq_zero_or_pos k with rfl | hk
      · exact h _ (.here hb hs)
      · exact ⟨0, hk, .here hb hs⟩
  | along _ hnext hb ih =>
      obtain ⟨m, hm, ha⟩ := ih
      rcases Nat.lt_or_ge (m + 1) k with hlt | hge
      · exact ⟨m + 1, hlt, .along ha hnext hb⟩
      · obtain rfl : k = m + 1 := by omega
        exact h _ (.along ha hnext hb)

theorem Round.mem_rounds {hop : List V → List α} (hhop : ∀ F b, b ∈ hop F ↔ live b ∧ source b ∈ F) :
    ∀ {n k : ℕ} {frontier : List V} {w : Walk κ α V},
      Keyed key (Within next live source start (k + n)) → Kept key w →
      Round next live source start k frontier w →
      (b ∈ rounds key next hop n frontier w ↔ Within next live source start (k + n) b)
  | 0, k, frontier, w, _, _, h => h.found b
  | n + 1, k, frontier, w, hkey, hkept, h => by
      have hnear : Keyed key (Within next live source start (k + 1)) :=
        hkey.mono fun _ hb => hb.mono (by omega)
      obtain ⟨hkept', hround⟩ := h.step hhop hnear hkept
      simp only [rounds]
      split
      · next hempty =>
          rw [hround.found]
          constructor
          · rintro ⟨m, hm, hb⟩
            exact ⟨m, by omega, hb⟩
          · rintro ⟨m, -, hb⟩
            refine hops_stop (fun c hc => ?_) hb
            have hc := hround.ahead c hc
            rw [hempty, List.mem_nil_iff, or_false] at hc
            exact (hround.found c).mp hc
      · have hsum : k + (n + 1) = k + 1 + n := by omega
        rw [hsum] at hkey ⊢
        exact hround.mem_rounds hhop hkey hkept'

/-- Each key is collected once. -/
theorem nodup_rounds {hop : List V → List α} : ∀ {n : ℕ} {frontier : List V} {w : Walk κ α V},
    Kept key w → (w.found.map key).Nodup → ((rounds key next hop n frontier w).map key).Nodup
  | 0, _, _, _, hnodup => hnodup
  | n + 1, frontier, w, hkept, hnodup => by
      have hround := @found_foldl_visit κ α V _ _ key next (hop frontier) { w with following := [] } hkept
      have hnodup' :
          (((hop frontier).foldl (visit key next) { w with following := [] }).found.map key).Nodup := by
        rw [hround]
        exact Table.nodup_foldl_insertNew hnodup
      simp only [rounds]
      split
      · exact hnodup'
      · exact nodup_rounds (Kept.foldl hkept) hnodup'

section Start

variable {hop : List V → List α} {n : ℕ} (hhop : ∀ F b, b ∈ hop F ↔ live b ∧ source b ∈ F)

include hhop

/-- A walk of `n` rounds collects exactly the live arcs within `n` hops, where no two have one key. -/
theorem mem_rounds_of_keyed (hkey : Keyed key (Within next live source start n)) :
    b ∈ rounds key next hop n [start] {} ↔ Within next live source start n b := by
  have hround : Round next live source start 0 [start] ({} : Walk κ α V) := by
    refine ⟨by simp, fun c hc => ?_, fun c hc hs => .here hc (by simpa using hs)⟩
    cases hc with
    | here _ hs => exact Or.inr (by simpa using hs)
  have hn : 0 + n = n := Nat.zero_add n
  have h := @Round.mem_rounds κ α V _ _ key next live source start b hop hhop n 0 [start] {}
  rw [hn] at h
  exact h hkey Kept.empty hround

/-- CORRECT: a walk of `n` rounds collects exactly the live arcs within `n` hops. -/
theorem mem_rounds (hkey : ∀ a b, live a → live b → key a = key b → a = b) :
    b ∈ rounds key next hop n [start] {} ↔ ∃ m < n, Hops next live source start m b :=
  mem_rounds_of_keyed hhop (Keyed.mono hkey fun _ hb => hb.is_live)

/-- CORRECT: it collects exactly these, if and only if no two of them have one key. -/
theorem rounds_exact_iff :
    (∀ b, b ∈ rounds key next hop n [start] {} ↔ Within next live source start n b) ↔
      Keyed key (Within next live source start n) := by
  constructor
  · intro h a b ha hb hk
    have hnodup := @nodup_rounds κ α V _ _ key next hop n [start] {} Kept.empty List.nodup_nil
    exact List.inj_on_of_nodup_map hnodup ((h a).mpr ha) ((h b).mpr hb) hk
  · intro hkey b
    exact mem_rounds_of_keyed hhop hkey

end Start

end Walk

end Lib
