import GuardMem.Lib.Table

/-! Writes staged over a table and put to it together.

    A transaction sees the table with its own writes over it, and a commit makes that the table. Each
    write names one key: `put` sets the row under it and `drop` takes it away. A part of the table that
    the key decides is staged by itself (`filter_staged`), and a key no write names keeps its row
    (`mem_staged_of_unwritten`). -/

namespace Lib.Staged

open Lib.Table

variable {K R : Type*}

/-- One write of a transaction. -/
inductive Write (K R : Type*) where
  | put (row : R)
  | drop (key : K)

section

variable (key : R → K)

def Write.target : Write K R → K
  | .put row => key row
  | .drop k => k

variable [DecidableEq K]

def write (table : List R) : Write K R → List R
  | .put row => merge key row table
  | .drop k => table.filter fun row => decide (key row ≠ k)

/-- The table with the writes over it, first to last. -/
def staged (table : List R) (writes : List (Write K R)) : List R := writes.foldl (write key) table

end

variable [DecidableEq K] {key : R → K} {table : List R} {writes : List (Write K R)} {row : R} {k : K}

@[simp] theorem staged_nil : staged key table [] = table := rfl

theorem staged_cons {w : Write K R} :
    staged key table (w :: writes) = staged key (write key table w) writes := rfl

theorem staged_append {more : List (Write K R)} :
    staged key table (writes ++ more) = staged key (staged key table writes) more := List.foldl_append

/-! ### One write -/

theorem mem_write {w : Write K R} :
    row ∈ write key table w ↔ w = .put row ∨ (row ∈ table ∧ key row ≠ w.target key) := by
  cases w with
  | put x => simp [write, mem_merge, Write.target, eq_comm]
  | drop k => simp [write, Write.target]

theorem nodup_write (h : (table.map key).Nodup) {w : Write K R} :
    ((write key table w).map key).Nodup := by
  cases w with
  | put x => exact nodup_merge h
  | drop k => exact h.sublist (List.filter_sublist.map key)

/-! ### A list of them -/

theorem nodup_staged : ∀ {writes : List (Write K R)} {table : List R}, (table.map key).Nodup →
    ((staged key table writes).map key).Nodup
  | [], _, h => h
  | w :: writes, table, h => by
      rw [staged_cons]
      exact nodup_staged (nodup_write h)

/-- A row of the staged table was there, or is one of the writes. -/
theorem mem_of_staged : ∀ {writes : List (Write K R)} {table : List R}, row ∈ staged key table writes →
    row ∈ table ∨ .put row ∈ writes
  | [], _, h => Or.inl h
  | w :: writes, table, h => by
      rw [staged_cons] at h
      rcases mem_of_staged h with hrow | hrow
      · rcases mem_write.mp hrow with rfl | ⟨hrow, -⟩
        · exact Or.inr List.mem_cons_self
        · exact Or.inl hrow
      · exact Or.inr (List.mem_cons_of_mem _ hrow)

theorem mem_staged_of_unwritten : ∀ {writes : List (Write K R)} {table : List R},
    (∀ w ∈ writes, w.target key ≠ key row) → (row ∈ staged key table writes ↔ row ∈ table)
  | [], _, _ => Iff.rfl
  | w :: writes, table, h => by
      obtain ⟨hw, hwrites⟩ := List.forall_mem_cons.mp h
      rw [staged_cons, mem_staged_of_unwritten hwrites, mem_write]
      constructor
      · rintro (rfl | ⟨hrow, -⟩)
        · exact absurd rfl hw
        · exact hrow
      · exact fun hrow => Or.inr ⟨hrow, hw.symm⟩

/-- A key of the table is still there where no write drops it. -/
theorem key_mem_staged : ∀ {writes : List (Write K R)} {table : List R}, .drop k ∉ writes →
    k ∈ table.map key → k ∈ (staged key table writes).map key
  | [], _, _, hk => hk
  | w :: writes, table, hdrop, hk => by
      rw [staged_cons]
      refine key_mem_staged (fun hmem => hdrop (List.mem_cons_of_mem _ hmem)) ?_
      obtain ⟨row, hrow, rfl⟩ := List.mem_map.mp hk
      by_cases hw : key row = w.target key
      · cases w with
        | put x => exact List.mem_map.mpr ⟨x, mem_write.mpr (Or.inl rfl), hw.symm⟩
        | drop k => exact absurd (by rw [hw]; exact List.mem_cons_self) hdrop
      · exact List.mem_map_of_mem (mem_write.mpr (Or.inr ⟨hrow, hw⟩))

/-- A key a write put is there where no write drops it. -/
theorem key_put_staged : ∀ {writes : List (Write K R)} {table : List R}, .drop (key row) ∉ writes →
    .put row ∈ writes → key row ∈ (staged key table writes).map key
  | w :: writes, table, hdrop, hput => by
      rw [staged_cons]
      have hdrop' : .drop (key row) ∉ writes := fun hmem => hdrop (List.mem_cons_of_mem _ hmem)
      rcases List.mem_cons.mp hput with rfl | hput
      · exact key_mem_staged hdrop' (List.mem_map_of_mem (mem_write.mpr (Or.inl rfl)))
      · exact key_put_staged hdrop' hput

/-- A key of the staged table was there, or is one a write put. -/
theorem key_of_staged (h : k ∈ (staged key table writes).map key) :
    k ∈ table.map key ∨ ∃ row, .put row ∈ writes ∧ key row = k := by
  obtain ⟨row, hrow, rfl⟩ := List.mem_map.mp h
  rcases mem_of_staged hrow with hrow | hrow
  · exact Or.inl (List.mem_map_of_mem hrow)
  · exact Or.inr ⟨row, hrow, rfl⟩

/-- A part of the table that the key decides is staged by itself. -/
theorem filter_staged {p : R → Bool} {q : K → Bool} (hq : ∀ row, p row = q (key row)) :
    ∀ {writes : List (Write K R)} {table : List R},
      (staged key table writes).filter p = staged key (table.filter p) (writes.filter fun w => q (w.target key))
  | [], _ => rfl
  | w :: writes, table => by
      have hwrite : (write key table w).filter p =
          if q (w.target key) then write key (table.filter p) w else table.filter p := by
        cases w with
        | put x =>
            rw [write, filter_merge fun row _ hk => by rw [hq, hq, hk], hq]
            rfl
        | drop k =>
            simp only [write, Write.target, List.filter_filter]
            split
            · exact List.filter_congr fun row _ => Bool.and_comm _ _
            · next hk =>
                refine List.filter_congr fun row _ => ?_
                by_cases hrow : key row = k
                · rw [hq, hrow, Bool.eq_false_iff.mpr hk, Bool.false_and]
                · rw [decide_eq_true hrow, Bool.and_true]
      rw [staged_cons, filter_staged hq, hwrite, List.filter_cons]
      split <;> rfl

/-! ### An update -/

/-- Rows of the table put back rewritten, under the keys they had. -/
theorem staged_puts {set : R → R} (hset : ∀ row, key (set row) = key row) : ∀ {rows table : List R},
    (table.map key).Nodup → (rows.map key).Nodup → (∀ row ∈ rows, row ∈ table) →
      staged key table (rows.map fun row => .put (set row)) =
        updateWhere (fun row => decide (key row ∈ rows.map key)) set table
  | [], table, _, _, _ => by
      rw [List.map_nil, staged_nil]
      exact (updateWhere_false fun row _ => by simp).symm
  | x :: rows, table, hnd, hrows, hmem => by
      obtain ⟨hx, hrows⟩ := List.nodup_cons.mp hrows
      obtain ⟨hin, hmem⟩ := List.forall_mem_cons.mp hmem
      have hwrite : write key table (.put (set x)) =
          updateWhere (fun row => decide (key row = key x)) set table := by
        have hold : key (set x) ∈ table.map key := by
          rw [hset]
          exact List.mem_map_of_mem hin
        rw [write, merge, insertNew_old hold]
        refine List.map_congr_left fun row hrow => ?_
        by_cases hk : key row = key x
        · simp [hset, eq_of_key key hnd hrow hin hk]
        · simp [hset, hk]
      have hkeys : (updateWhere (fun row => decide (key row = key x)) set table).map key = table.map key :=
        map_updateWhere hset
      have hrest : ∀ row ∈ rows, row ∈ updateWhere (fun row => decide (key row = key x)) set table := by
        intro row hrow
        refine mem_updateWhere.mpr ⟨row, hmem row hrow, if_neg ?_⟩
        rw [decide_eq_true_eq]
        exact fun hk => hx (hk ▸ List.mem_map_of_mem hrow)
      rw [List.map_cons, staged_cons, hwrite, staged_puts hset (hkeys ▸ hnd) hrows hrest, updateWhere, updateWhere,
        updateWhere, List.map_map]
      refine List.map_congr_left fun row _ => ?_
      by_cases hk : key row = key x
      · simp only [Function.comp, hk, hset, decide_true, if_true, decide_eq_false hx, Bool.false_eq_true, if_false,
          List.map_cons, List.mem_cons, true_or]
      · simp [hk]

/-- `UPDATE ... SET set WHERE p`, staged row by row, is the update. -/
theorem staged_update {set : R → R} (hset : ∀ row, key (set row) = key row) {p : R → Bool}
    (hnd : (table.map key).Nodup) :
    staged key table ((table.filter p).map fun row => .put (set row)) = updateWhere p set table := by
  rw [staged_puts hset hnd (hnd.sublist (List.filter_sublist.map key)) fun row hrow => (List.mem_filter.mp hrow).1]
  refine List.map_congr_left fun row hrow => ?_
  have hiff : key row ∈ (table.filter p).map key ↔ p row = true := by
    constructor
    · intro hk
      obtain ⟨other, hother, hkey⟩ := List.mem_map.mp hk
      obtain ⟨hother, hp⟩ := List.mem_filter.mp hother
      rwa [← eq_of_key key hnd hother hrow hkey]
    · exact fun hp => List.mem_map_of_mem (List.mem_filter.mpr ⟨hrow, hp⟩)
  simp [hiff]

/-- A row with a new key goes in last. -/
theorem staged_insert (h : key row ∉ table.map key) : staged key table [.put row] = table ++ [row] :=
  merge_new h

/-! ### One kind of row -/

section

variable {C : Type*} {read : R → Option C} {p : R → Bool} {q : C → Bool}

/-- An update of the rows, read as rows of one kind, is an update of those. -/
theorem filterMap_update {f : R → R} {g : C → C}
    (h : ∀ row ∈ table, read (if p row then f row else row) = (read row).map fun c => if q c then g c else c) :
    (updateWhere p f table).filterMap read = updateWhere q g (table.filterMap read) := by
  rw [updateWhere, updateWhere, List.filterMap_map, List.map_filterMap]
  exact List.filterMap_congr fun row hrow => h row hrow

theorem length_filter_read : ∀ {table : List R}, (∀ row ∈ table, p row = (read row).any q) →
    (table.filter p).length = ((table.filterMap read).filter q).length
  | [], _ => rfl
  | row :: table, h => by
      obtain ⟨hrow, htable⟩ := List.forall_mem_cons.mp h
      have ih := length_filter_read htable
      rw [List.filter_cons, List.filterMap_cons, hrow]
      cases read row with
      | none => simpa using ih
      | some c =>
          rw [Option.any_some, List.filter_cons]
          split <;> simp [ih]

end

end Lib.Staged
