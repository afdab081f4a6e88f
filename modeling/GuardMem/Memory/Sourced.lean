import GuardMem.Memory.Sessions

/-! What no run of the application role can undo: `_provenance_invariant` and `_grants` of
    `0001_initial`, under any interleaving of transactions.

    The statements are any of the role but an UPDATE that sets a primary key, which the grants allow and
    the program never sends. `Locked` is the invariant: two open transactions have written different keys,
    and what one has put in an append-only table was not there. CORRECT: every committed assertion has a
    citation, a citation and an audit event stay as they were written, and no id is lost but an event's
    (`sourced_run`). -/

namespace GuardMem.Postgres

open Lib.Staged Lib.Transition

/-- A table the role may only add to. -/
def Table.append_only (t : Table) : Bool := Privilege.UPDATE ∉ granted t

/-- Every assertion has a citation. -/
def Sourced (rows : List Row) : Prop :=
  ∀ a, .assertion a ∈ rows → ∃ p, .provenance p ∈ rows ∧ p.assertion_id = a.id

/-- Nothing of an append-only table has changed or gone, and no id has gone from a table other than
    `outbox`. -/
structure Kept (rows rows' : List Row) : Prop where
  same : ∀ r ∈ rows, r.table.append_only = true → r ∈ rows'
  ids : ∀ k ∈ rows.map Row.key, k.table ≠ .outbox → k ∈ rows'.map Row.key

theorem Kept.refl (rows : List Row) : Kept rows rows := ⟨fun _ h _ => h, fun _ h _ => h⟩

theorem Kept.trans {a b c : List Row} (h : Kept a b) (k : Kept b c) : Kept a c :=
  ⟨fun r hr ht => k.same r (h.same r hr ht) ht, fun i hi ht => k.ids i (h.ids i hi ht) ht⟩

variable {server : Server} {max_size : ℕ} {s s' : State} {l : Label} {setting : Option String}
  {rows view : List Row} {statement : Statement} {reply : Reply} {writes : Writes}

/-! ### What a statement writes -/

/-- One write of a statement over what its transaction saw. -/
structure Lawful (view : List Row) (w : Write Key Row) : Prop where
  dropped : ∀ k, w = .drop k → k.table = .outbox
  added : (w.target Row.key).table.append_only = true → w.target Row.key ∉ view.map Row.key

theorem delete_granted {t : Table} (h : Privilege.DELETE ∈ granted t) : t = .outbox := by
  cases t <;> simp [granted] at h ⊢

theorem execute_lawful (h : execute server setting view statement = .ok (reply, writes)) :
    ∀ w ∈ writes, Lawful view w ∧ w.target Row.key ∈ locks server setting view statement := by
  intro w hw
  rcases written h w hw with @⟨row, do_nothing, -, habsent, -⟩ |
    @⟨t, where_, assignment, seen, r, hgrant, hsees, hhit, -⟩ | @⟨t, where_, seen, r, hgrant, hsees, hhit⟩
  · exact ⟨⟨(fun k hk => by cases hk), fun _ => habsent⟩, List.mem_singleton.mpr rfl⟩
  · have htable : r.key.table = t := (mem_hits.mp hhit).2.1
    have hkey : (Write.put (assignment.set r)).target Row.key = r.key := assignment.key_set r
    rw [hkey]
    refine ⟨⟨(fun k hk => by cases hk), fun happend => ?_⟩, ?_⟩
    · rw [hkey, htable] at happend
      exact absurd hgrant (of_decide_eq_true happend)
    · simp only [locks, hsees]
      exact List.mem_map_of_mem hhit
  · have htable : r.key.table = .outbox := ((mem_hits.mp hhit).2.1).trans (delete_granted hgrant)
    refine ⟨⟨fun k hk => ?_, fun happend => ?_⟩, ?_⟩
    · cases hk
      exact htable
    · rw [Write.target, htable] at happend
      cases happend
    · simp only [locks, hsees]
      exact List.mem_map_of_mem hhit

/-! ### What open transactions have written -/

/-- Each open transaction's writes are lawful over what is committed, and no two share a key. -/
structure Locked (max_size : ℕ) (s : State) : Prop where
  nodup : (s.rows.map Row.key).Nodup
  held : ∀ c session, (s.conns c).session = some session → c < max_size
  lawful : ∀ c session, (s.conns c).session = some session → ∀ w ∈ session.writes, Lawful s.rows w
  apart : ∀ c d session session', (s.conns c).session = some session →
    (s.conns d).session = some session' → c ≠ d →
      ∀ w ∈ session.writes, ∀ w' ∈ session'.writes, w.target Row.key ≠ w'.target Row.key

theorem unlocked_of {c : ℕ} {k : Key} (h : unlocked s max_size c k = true) {d : ℕ} {session : Session}
    (hd : d < max_size) (hne : d ≠ c) (hsession : (s.conns d).session = some session) :
    ∀ w ∈ session.writes, w.target Row.key ≠ k := by
  have hall := List.all_eq_true.mp h d (List.mem_range.mpr hd)
  rw [Bool.or_eq_true, decide_eq_true_eq, hsession] at hall
  intro w hw
  simpa using List.all_eq_true.mp (hall.resolve_left hne) w hw

/-- The connection `c` closes its block, or goes on with no more than it had written. -/
theorem locked_of_fewer {c : ℕ} {conn : Conn} (hs : Locked max_size s)
    (hfewer : ∀ session, conn.session = some session → c < max_size ∧ (session.writes = [] ∨
      ∃ old, (s.conns c).session = some old ∧ session.writes = old.writes)) :
    Locked max_size (s.set c conn) := by
  have hwrites : ∀ d session, ((s.set c conn).conns d).session = some session → ∀ w ∈ session.writes,
      ∃ old, (s.conns d).session = some old ∧ w ∈ old.writes := by
    intro d session hsession w hw
    rcases State.session_set hsession with ⟨rfl, hmoved⟩ | ⟨-, hother⟩
    · rcases (hfewer session hmoved).2 with hnone | ⟨old, hold, hsame⟩
      · rw [hnone] at hw
        cases hw
      · exact ⟨old, hold, hsame ▸ hw⟩
    · exact ⟨session, hother, hw⟩
  refine ⟨hs.nodup, ?_, ?_, ?_⟩
  · intro d session hsession
    rcases State.session_set hsession with ⟨rfl, hmoved⟩ | ⟨-, hother⟩
    · exact (hfewer session hmoved).1
    · exact hs.held d session hother
  · intro d session hsession w hw
    obtain ⟨old, hold, hw⟩ := hwrites d session hsession w hw
    exact hs.lawful d old hold w hw
  · intro d e session session' hsession hsession' hne w hw w' hw'
    obtain ⟨old, hold, hw⟩ := hwrites d session hsession w hw
    obtain ⟨old', hold', hw'⟩ := hwrites e session' hsession' w' hw'
    exact hs.apart d e old old' hold hold' hne w hw w' hw'

theorem lawful_of_view {session : Session} {w : Write Key Row} (hw : Lawful (session.view rows) w)
    (hsession : ∀ w ∈ session.writes, Lawful rows w) : Lawful rows w := by
  refine ⟨hw.dropped, fun happend hold => hw.added happend ?_⟩
  refine key_mem_staged (fun hdrop => ?_) hold
  have houtbox := (hsession _ hdrop).dropped _ rfl
  rw [houtbox] at happend
  cases happend

/-- The connection `c` goes on with writes that are lawful over what it sees, on keys it may lock. -/
theorem locked_of_more {c : ℕ} {conn : Conn} {session more : Session} {writes : Writes} (hs : Locked max_size s)
    (held : (s.conns c).session = some session) (hconn : conn.session = some more)
    (hmore : more.writes = session.writes ++ writes)
    (hwrites : ∀ w ∈ writes, Lawful (session.view s.rows) w ∧ unlocked s max_size c (w.target Row.key) = true) :
    Locked max_size (s.set c conn) := by
  have hold := hs.lawful c session held
  -- what is added is lawful, and another transaction's writes are off its locks
  have hmine : ∀ w ∈ more.writes, Lawful s.rows w := by
    intro w hw
    rcases List.mem_append.mp (hmore ▸ hw) with hw | hw
    · exact hold w hw
    · exact lawful_of_view (hwrites w hw).1 hold
  have hothers : ∀ d other, d ≠ c → (s.conns d).session = some other →
      ∀ w ∈ more.writes, ∀ w' ∈ other.writes, w.target Row.key ≠ w'.target Row.key := by
    intro d other hne hother w hw w' hw'
    rcases List.mem_append.mp (hmore ▸ hw) with hw | hw
    · exact hs.apart c d session other held hother (Ne.symm hne) w hw w' hw'
    · exact (unlocked_of (hwrites w hw).2 (hs.held d other hother) hne hother w' hw').symm
  refine ⟨hs.nodup, ?_, ?_, ?_⟩
  · intro d session' hsession
    rcases State.session_set hsession with ⟨rfl, -⟩ | ⟨-, hother⟩
    · exact hs.held d session held
    · exact hs.held d session' hother
  · intro d session' hsession w hw
    rcases State.session_set hsession with ⟨rfl, hmoved⟩ | ⟨-, hother⟩
    · obtain rfl := Option.some.inj (hconn.symm.trans hmoved)
      exact hmine w hw
    · exact hs.lawful d session' hother w hw
  · intro d e session₁ session₂ hd he hne w hw w' hw'
    rcases State.session_set hd with ⟨hdc, hd'⟩ | ⟨hdc, hd'⟩ <;>
      rcases State.session_set he with ⟨hec, he'⟩ | ⟨hec, he'⟩
    · exact absurd (hdc.trans hec.symm) hne
    · obtain rfl := Option.some.inj (hconn.symm.trans hd')
      exact hothers e session₂ hec he' w hw w' hw'
    · obtain rfl := Option.some.inj (hconn.symm.trans he')
      exact (hothers d session₁ hdc hd' w' hw' w hw).symm
    · exact hs.apart d e session₁ session₂ hd' he' hne w hw w' hw'

theorem locked_step (h : Stepped server max_size s l s') (hs : Locked max_size s) : Locked max_size s' := by
  cases h with
  | @acquire c tenant idle room =>
      refine locked_of_fewer hs fun session hsession => ⟨room, Or.inl ?_⟩
      rw [← Option.some.inj hsession]
  | @set_config c session tenant held wanted once =>
      refine locked_of_fewer hs fun session' hsession => ⟨hs.held c session held, Or.inr ⟨session, held, ?_⟩⟩
      rw [← Option.some.inj hsession]
  | @refused c statement session e held ready sound bad =>
      refine locked_of_fewer hs fun session' hsession => ⟨hs.held c session held, Or.inr ⟨session, held, ?_⟩⟩
      rw [← Option.some.inj hsession]
  | aborted held ready bad => exact locked_of_fewer hs fun session hsession => by cases hsession
  | undone held => exact locked_of_fewer hs fun session hsession => by cases hsession
  | lost => exact locked_of_fewer hs fun session hsession => by cases hsession
  | @answered c statement session reply writes held ready sound free done =>
      have hmore : Locked max_size
          (s.set c { s.conns c with session := some { session with writes := session.writes ++ writes } }) :=
        locked_of_more hs held rfl rfl fun w hw =>
          ⟨(execute_lawful done w hw).1, free _ (execute_lawful done w hw).2⟩
      exact ⟨hmore.nodup, hmore.held, hmore.lawful, hmore.apart⟩
  | @committed c reset session held ready sound sourced =>
      have hset : Locked max_size (s.set c ⟨session.released (s.conns c).setting reset, none⟩) :=
        locked_of_fewer hs fun session' hsession => by cases hsession
      refine ⟨nodup_staged hs.nodup, hset.held, ?_, hset.apart⟩
      intro d session' hsession w hw
      obtain ⟨hdc, hsession⟩ := (State.session_set hsession).resolve_left fun hclosed => by cases hclosed.2
      have hlawful := hs.lawful d session' hsession w hw
      refine ⟨hlawful.dropped, fun happend hmem => ?_⟩
      rcases key_of_staged hmem with hmem | ⟨row, hrow, hkey⟩
      · exact hlawful.added happend hmem
      · exact hs.apart c d session session' held hsession (Ne.symm hdc) _ hrow w hw hkey

/-! ### What a commit keeps -/

/-- The writes of a transaction keep what they are put over. -/
theorem kept_staged (h : ∀ w ∈ writes, Lawful rows w) : Kept rows (staged Row.key rows writes) := by
  constructor
  · intro r hr happend
    refine (mem_staged_of_unwritten fun w hw hkey => ?_).mpr hr
    exact (h w hw).added (by rw [hkey]; exact happend) (by rw [hkey]; exact List.mem_map_of_mem hr)
  · intro k hk hne
    exact key_mem_staged (fun hdrop => hne ((h _ hdrop).dropped k rfl)) hk

theorem sourced_of_kept (h : Kept rows view) (hs : Sourced rows) {a : AssertionRow}
    (ha : Key.assertion a.id ∈ rows.map Row.key) :
    ∃ p, .provenance p ∈ view ∧ p.assertion_id = a.id := by
  obtain ⟨r, hr, hkey⟩ := List.mem_map.mp ha
  cases r with
  | assertion b =>
      obtain ⟨p, hp, hpb⟩ := hs b hr
      exact ⟨p, h.same _ hp rfl, hpb.trans (Key.assertion.inj hkey)⟩
  | _ => cases hkey

/-- What the trigger lets through is cited. -/
theorem cited_of_sourced {a : AssertionRow} (h : unsourced server setting rows view (.assertion a) = false) :
    Key.assertion a.id ∈ rows.map Row.key ∨ ∃ p, .provenance p ∈ view ∧ p.assertion_id = a.id := by
  by_cases hold : Key.assertion a.id ∈ rows.map Row.key
  · exact Or.inl hold
  · right
    simp only [unsourced, hold, not_false_eq_true, decide_true, Bool.true_and] at h
    split at h
    · rw [Bool.not_eq_false', List.any_eq_true] at h
      obtain ⟨r, hr, hcites⟩ := h
      split at hcites
      · next p =>
          rw [Bool.and_eq_true, beq_iff_eq] at hcites
          exact ⟨p, hr, hcites.1⟩
      · cases hcites
    · cases h

/-- Every assertion is cited, and the open transactions are as the server left them. -/
structure Sound (max_size : ℕ) (s : State) : Prop where
  locked : Locked max_size s
  sourced : Sourced s.rows

theorem sound_step (h : step server max_size s l = some s') (hs : Sound max_size s) :
    Sound max_size s' ∧ Kept s.rows s'.rows := by
  have hstep := stepped h
  have hlocked := locked_step hstep hs.locked
  cases hstep with
  | @committed c reset session held ready sound sourced =>
      have hkept : Kept s.rows (session.view s.rows) := kept_staged (hs.locked.lawful c session held)
      refine ⟨⟨hlocked, fun a ha => ?_⟩, hkept⟩
      rcases cited_of_sourced (sourced _ ha) with hold | hnew
      · exact sourced_of_kept hkept hs.sourced hold
      · exact hnew
  | _ => exact ⟨⟨hlocked, hs.sourced⟩, Kept.refl _⟩

theorem sound_run {s t : State} {ls : List Label} (h : run (step server max_size) s ls = some t)
    (hs : Sound max_size s) : Sound max_size t ∧ Kept s.rows t.rows := by
  have hinv : ∀ s l s', step server max_size s l = some s' → Sound max_size s → Sound max_size s' :=
    fun _ _ _ h hs => (sound_step h hs).1
  refine ⟨inv_run hinv h hs, ?_⟩
  exact rel_run (R := fun s t => Kept s.rows t.rows) (fun s => Kept.refl s.rows)
    (fun _ _ _ => Kept.trans) hinv (fun _ _ _ h hs => (sound_step h hs).2) h hs

/-- CORRECT: from any database whose assertions are cited, whatever statements the application role sends
    that set no primary key, and however its transactions interleave, every state has a citation for each
    committed assertion; and from each state on, a committed citation or audit event stays as it is and no
    id is lost but one of `outbox`. -/
theorem sourced_run {rows : List Row} {pre post : List Label} {t : State}
    (hkeys : (rows.map Row.key).Nodup) (hsourced : Sourced rows)
    (hpre : run (step server max_size) (State.init rows) pre = some t)
    (hpost : run (step server max_size) t post = some s) :
    Sourced t.rows ∧ Kept t.rows s.rows := by
  have hinit : Sound max_size (State.init rows) :=
    ⟨⟨hkeys, by simp [State.init, Conn.fresh], by simp [State.init, Conn.fresh],
      by simp [State.init, Conn.fresh]⟩, hsourced⟩
  obtain ⟨ht, -⟩ := sound_run hpre hinit
  exact ⟨ht.sourced, (sound_run hpost ht).2⟩

/-- One tenant's write and its citation, committed; a second write that brings no citation; and attempts
    to take the first back. -/
def cited : List Label :=
  let a : AssertionRow := ⟨"a1", "north", "patient:1", "p1", "takes", .str "statin", 1, 0, 0, none, 0, none,
    none, 1, "t1", false, none⟩
  [.acquire 0 (some "north"), .set_config 0, .execute 0 (.insert (.assertion a) true),
   .execute 0 (.insert (.provenance ⟨"c1", "a1", "h", 0, 4, "verified_user", "text", 1, 0⟩) true),
   .commit 0 false]

def uncited : List Label :=
  let a : AssertionRow := ⟨"a2", "north", "patient:1", "p1", "takes", .str "none", 1, 0, 0, none, 0, none,
    none, 1, "t2", false, none⟩
  [.acquire 0 (some "north"), .set_config 0, .execute 0 (.insert (.assertion a) true), .commit 0 false,
   .acquire 0 (some "north"), .set_config 0, .execute 0 (.delete .provenance fun _ _ => true), .commit 0 false]

theorem sourced_run_cited : ∃ t s, run (step clinics 1) (State.init patients) cited = some t ∧
    run (step clinics 1) t uncited = some s ∧ Sourced t.rows ∧ Kept t.rows s.rows := by
  have hboth : (run (step clinics 1) (State.init patients) (cited ++ uncited)).isSome = true := rfl
  obtain ⟨s, hs⟩ := Option.isSome_iff_exists.mp hboth
  obtain ⟨t, ht, hpost⟩ := run_append.mp hs
  have hsourced : Sourced patients := fun a ha => by simp [patients] at ha
  exact ⟨t, s, ht, hpost, sourced_run (by decide) hsourced ht hpost⟩

example : (run (step clinics 1) (State.init patients) (cited ++ uncited)).map (fun s => s.rows.map Row.key) =
    some [.entity "p1", .entity "p2", .assertion "a1", .provenance "c1"] := rfl

end GuardMem.Postgres
