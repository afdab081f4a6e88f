import GuardMem.Lib.Noninterference
import GuardMem.Memory.Sourced

/-! Whether one tenant's blocks can tell what another's do, on one database behind one pool.

    Every id is taken to have one owner, and every row a statement writes to stand under an id of the tenant
    it names and to refer to that tenant's rows (`Careful`); the policies alone do not see to that. A
    tenant's statement then runs on the shared tables as it would on the tenant's own rows alone
    (`execute_own`). CORRECT: of two such runs in which a tenant's blocks took the same steps, in whatever
    interleaving with others', its statements on the secured tables were answered alike and its committed
    rows there are the same (`tenants_run`). -/

namespace GuardMem.Postgres

open Lib.Staged Lib.Transition Lib.Noninterference

variable (server : Server) (owner : Key → TenantId) (tenant : TenantId)

/-! ### Ids and what they belong to -/

/-- The row's id, and the assertion it cites, are of the row's tenant. -/
structure Row.Derived (r : Row) : Prop where
  column : ∀ t, r.tenant_id = some t → t = owner r.key
  cites : ∀ p, r = .provenance p → owner r.key = owner (.assertion p.assertion_id)

/-- What a statement writes has derived ids, and names rows of its own tenant. -/
def Statement.Derived : Statement → Prop
  | .insert row _ => row.Derived owner ∧ (row.table.secured = true → ∀ k ∈ row.references, owner k = owner row.key)
  | .update table _ assignment => table.secured = true →
      ∀ r k, k ∈ (assignment.set r).references → k ∈ r.references ∨ owner k = owner r.key
  | .select _ _ | .delete _ _ => True

/-- What a statement does to `outbox` cannot fail: an event goes in for an assertion the transaction
    sees, and an update leaves it that assertion's. -/
def Statement.Steady (view : List Row) : Statement → Prop
  | .insert row do_nothing => row.table = .outbox → do_nothing = true ∧
      ∀ k ∈ row.references, k ∈ view.map Row.key
  | .update table _ assignment => table = .outbox → ∀ r, (assignment.set r).references ⊆ r.references
  | .select _ _ | .delete _ _ => True

/-- A key of a secured table that the tenant owns. -/
def mine (k : Key) : Bool := k.table.secured && owner k == tenant

/-- The tenant's own rows. -/
def own (rows : List Row) : List Row := rows.filter fun r => mine owner tenant r.key

/-- The block of this raw tenant id speaks for the tenant. -/
def speaks : Option String → Bool
  | some raw => match current_tenant server (some raw) with
    | .ok (some t) => t == tenant
    | _ => false
  | none => false

variable {server owner tenant} {max_size : ℕ} {s s' : State} {l : Label} {setting : Option String}
  {rows view : List Row} {r : Row} {k : Key} {statement : Statement} {reply : Reply} {writes : Writes}

theorem mine_iff : mine owner tenant k = true ↔ k.table.secured = true ∧ owner k = tenant := by
  simp [mine]

theorem mem_own : r ∈ own owner tenant rows ↔ r ∈ rows ∧ r.table.secured = true ∧ owner r.key = tenant := by
  simp [own, mine_iff, Row.table]

theorem own_own : own owner tenant (own owner tenant rows) = own owner tenant rows := by
  simp [own]

theorem own_staged : own owner tenant (staged Row.key rows writes) =
    staged Row.key (own owner tenant rows) (writes.filter fun w => mine owner tenant (w.target Row.key)) :=
  @filter_staged Key Row _ Row.key _ (mine owner tenant) (fun _ => rfl) writes rows

/-- A key the tenant owns is there among its own rows. -/
theorem mem_keys_own (h : mine owner tenant k = true) :
    k ∈ (own owner tenant rows).map Row.key ↔ k ∈ rows.map Row.key := by
  constructor
  · intro hk
    obtain ⟨r, hr, rfl⟩ := List.mem_map.mp hk
    exact List.mem_map_of_mem (mem_own.mp hr).1
  · intro hk
    obtain ⟨r, hr, rfl⟩ := List.mem_map.mp hk
    exact List.mem_map_of_mem (mem_own.mpr ⟨hr, mine_iff.mp h⟩)

theorem references_secured (h : k ∈ r.references) : k.table.secured = true := by
  cases r with
  | assertion a =>
      simp only [Row.references, List.mem_cons, Option.mem_toList, Option.map_eq_some_iff] at h
      rcases h with rfl | ⟨s, -, rfl⟩ <;> rfl
  | provenance p => exact List.mem_singleton.mp h ▸ rfl
  | outbox o => exact List.mem_singleton.mp h ▸ rfl
  | _ => cases h

/-! ### The policies, by ids -/

/-- A table whose ids are derived and whose citations have their assertion. -/
structure Coded (owner : Key → TenantId) (rows : List Row) : Prop where
  derived : ∀ r ∈ rows, r.Derived owner
  cited : ∀ p, .provenance p ∈ rows → .assertion p.assertion_id ∈ rows.map Row.key

theorem coded_own (h : Coded owner rows) : Coded owner (own owner tenant rows) := by
  refine ⟨fun r hr => h.derived r (mem_own.mp hr).1, fun p hp => ?_⟩
  obtain ⟨hp, -, hown⟩ := mem_own.mp hp
  refine (mem_keys_own (mine_iff.mpr ⟨rfl, ?_⟩)).mpr (h.cited p hp)
  rw [← (h.derived _ hp).cites p rfl, hown]

theorem shows_assertion_iff {t : Option TenantId} {aid : AssertionId} :
    shows_assertion t rows aid = true ↔ ∃ a, .assertion a ∈ rows ∧ a.id = aid ∧ some a.tenant_id = t := by
  rw [shows_assertion, List.any_eq_true]
  constructor
  · rintro ⟨r, hr, hshows⟩
    split at hshows
    · next a =>
        rw [Bool.and_eq_true, beq_iff_eq, beq_iff_eq] at hshows
        exact ⟨a, hr, hshows⟩
    · cases hshows
  · rintro ⟨a, ha, rfl, rfl⟩
    exact ⟨_, ha, by simp⟩

theorem shows_assertion_own (h : Coded owner rows) {aid : AssertionId} :
    shows_assertion (some tenant) (own owner tenant rows) aid = shows_assertion (some tenant) rows aid := by
  rw [Bool.eq_iff_iff, shows_assertion_iff, shows_assertion_iff]
  constructor
  · rintro ⟨a, ha, hid⟩
    exact ⟨a, (mem_own.mp ha).1, hid⟩
  · rintro ⟨a, ha, hid, htenant⟩
    refine ⟨a, mem_own.mpr ⟨ha, rfl, ?_⟩, hid, htenant⟩
    rw [← (h.derived _ ha).column a.tenant_id rfl, Option.some.inj htenant]

theorem policy_own (h : Coded owner rows) :
    policy (some tenant) (own owner tenant rows) r = policy (some tenant) rows r := by
  cases r with
  | provenance p => exact shows_assertion_own h
  | _ => rfl

/-- A derived row the policy shows is the tenant's own. -/
theorem owner_of_policy (h : Coded owner rows) (hr : r.Derived owner) (hsecured : r.table.secured = true)
    (hpolicy : policy (some tenant) rows r = true) : owner r.key = tenant := by
  cases r with
  | provenance p =>
      obtain ⟨a, ha, hid, htenant⟩ := shows_assertion_iff.mp hpolicy
      rw [hr.cites p rfl, ← hid]
      exact ((h.derived _ ha).column a.tenant_id rfl).symm.trans (Option.some.inj htenant)
  | outbox o => cases hsecured
  | _ =>
      simp only [policy, Row.tenant_id, Option.isSome_some, Bool.true_and, beq_iff_eq, Option.some.injEq]
        at hpolicy
      exact ((hr.column _ rfl).symm).trans hpolicy

theorem policy_of_owner (h : Coded owner rows) (hr : r ∈ rows) (hsecured : r.table.secured = true)
    (hown : owner r.key = tenant) : policy (some tenant) rows r = true := by
  have hderived := h.derived r hr
  cases r with
  | provenance p =>
      obtain ⟨a, ha, hkey⟩ := List.mem_map.mp (h.cited p hr)
      cases a with
      | assertion a =>
          refine shows_assertion_iff.mpr ⟨a, ha, Key.assertion.inj hkey, congrArg some ?_⟩
          rw [(h.derived _ ha).column a.tenant_id rfl, hkey, ← hderived.cites p rfl, hown]
      | _ => cases hkey
  | outbox o => cases hsecured
  | _ => simp [policy, Row.tenant_id, hderived.column _ rfl, hown]

/-- Under the tenant's setting the policies show its own rows. -/
theorem visible_own (h : Coded owner view) (hset : current_tenant server setting = .ok (some tenant)) {t : Table}
    (ht : t.secured = true) : visible server setting view t = .ok (own owner tenant view) := by
  rw [visible, if_pos ht, hset]
  refine congrArg Except.ok (List.filter_congr fun r hr => ?_)
  rw [Bool.eq_iff_iff, Bool.and_eq_true, mine_iff]
  constructor
  · exact fun ⟨hsecured, hpolicy⟩ => ⟨hsecured, owner_of_policy h (h.derived r hr) hsecured hpolicy⟩
  · exact fun ⟨hsecured, hown⟩ => ⟨hsecured, policy_of_owner h hr hsecured hown⟩

/-! ### A tenant's statement, as on its own rows -/

theorem secure_own (h : Coded owner view) (hset : current_tenant server setting = .ok (some tenant)) :
    secure server setting (own owner tenant view) r = secure server setting view r := by
  unfold secure
  rw [hset]
  split
  · change require _ _ = require _ _
    rw [policy_own h]
  · rfl

theorem refer_own {held : Option Row}
    (h : ∀ k ∈ r.references, (∃ old ∈ held, k ∈ old.references) ∨ owner k = tenant) :
    refer server (own owner tenant view) held r = refer server view held r := by
  have hrefs : (∀ k ∈ r.references, (∃ old ∈ held, k ∈ old.references) ∨
      k ∈ (own owner tenant view).map Row.key) ↔
      ∀ k ∈ r.references, (∃ old ∈ held, k ∈ old.references) ∨ k ∈ view.map Row.key := by
    refine forall₂_congr fun k hk => ?_
    rcases h k hk with hold | hown
    · exact iff_of_true (Or.inl hold) (Or.inl hold)
    · rw [mem_keys_own (mine_iff.mpr ⟨references_secured hk, hown⟩)]
  unfold refer require
  simp only [hrefs]

theorem each_congr {f g : Row → Except ServerError Unit} : ∀ {rs : List Row}, (∀ r ∈ rs, f r = g r) →
    each f rs = each g rs
  | [], _ => rfl
  | r :: rs, h => by
      obtain ⟨hr, hrs⟩ := List.forall_mem_cons.mp h
      rw [each, each, hr, each_congr hrs]

/-- A tenant's statement on the shared tables runs as on the tenant's own rows alone. -/
theorem execute_own (h : Coded owner view) (hset : current_tenant server setting = .ok (some tenant))
    (hsecured : statement.table.secured = true) (hderived : statement.Derived owner) :
    execute server setting (own owner tenant view) statement = execute server setting view statement := by
  have hvisible : ∀ t : Table, t.secured = true → visible server setting (own owner tenant view) t =
      visible server setting view t := by
    intro t ht
    rw [visible_own h hset ht, visible_own (coded_own h) hset ht, own_own]
  unfold execute
  refine congrArg _ (funext fun _ => ?_)
  cases statement with
  | select t where_ => simp only [evaluate, hvisible t hsecured]
  | delete t where_ => simp only [evaluate, hvisible t hsecured]
  | update t where_ assignment =>
      have ht : t.secured = true := hsecured
      simp only [evaluate, hvisible t ht]
      rw [visible_own h hset ht]
      change (each _ _ >>= _) = (each _ _ >>= _)
      refine congrArg (· >>= _) (each_congr fun r hr => ?_)
      have hown := (mem_own.mp (mem_hits.mp hr).1).2.2
      unfold replace
      rw [secure_own h hset, refer_own fun k hk => ?_]
      rcases hderived hsecured r k hk with hold | hmine
      · exact Or.inl ⟨r, rfl, hold⟩
      · exact Or.inr (hmine.trans hown)
  | insert row do_nothing =>
      simp only [evaluate, secure_own h hset]
      cases hsecure : secure server setting view row with
      | error e => rfl
      | ok u =>
          -- past its policy, the row is the tenant's
          have hrow : owner row.key = tenant := by
            have hrow : row.table.secured = true := hsecured
            rw [secure, if_pos hrow, hset] at hsecure
            exact owner_of_policy h hderived.1 hrow (require_ok.mp hsecure)
          have hkeys : row.key ∈ (own owner tenant view).map Row.key ↔ row.key ∈ view.map Row.key :=
            mem_keys_own (mine_iff.mpr ⟨hsecured, hrow⟩)
          have hrefs : ∀ k ∈ row.references, (∃ old ∈ (none : Option Row), k ∈ old.references) ∨
              owner k = tenant := fun k hk => Or.inr ((hderived.2 hsecured k hk).trans hrow)
          simp only [hkeys, refer_own hrefs]

/-! ### Whose a block's writes are -/

theorem speaks_iff {who : Option String} :
    speaks server tenant who = true ↔ ∃ raw, who = some raw ∧
      current_tenant server (some raw) = .ok (some tenant) := by
  cases who with
  | none => simp [speaks]
  | some raw =>
      simp only [speaks, Option.some.injEq, exists_eq_left']
      cases current_tenant server (some raw) with
      | error e => simp
      | ok t => cases t <;> simp

theorem speaks_unique {who : Option String} {t : TenantId} (h : speaks server tenant who = true)
    (ht : speaks server t who = true) : t = tenant := by
  obtain ⟨raw, rfl, hraw⟩ := speaks_iff.mp h
  obtain ⟨raw', hsame, hraw'⟩ := speaks_iff.mp ht
  obtain rfl := Option.some.inj hsame
  exact Option.some.inj (Except.ok.inj (hraw'.symm.trans hraw))

/-- The policies read no other tenant than the one the block speaks for. -/
theorem speaks_of_current {conn : Conn} {session : Session} (h : Bound conn)
    (hheld : conn.session = some session) (hset : current_tenant server conn.setting = .ok (some tenant)) :
    speaks server tenant session.tenant = true := by
  cases hunset : session.tenant_set with
  | false =>
      rw [current_tenant_blank (h.unset session hheld hunset)] at hset
      cases hset
  | true =>
      obtain ⟨raw, hraw, hsetting⟩ := h.set session hheld hunset
      exact speaks_iff.mpr ⟨raw, hraw, hsetting ▸ hset⟩

/-- Once its body has begun, they read that one. -/
theorem setting_of_speaks {conn : Conn} {session : Session} (h : Bound conn)
    (hheld : conn.session = some session) (hready : session.ready = true)
    (hspeaks : speaks server tenant session.tenant = true) :
    conn.setting = session.tenant ∧ current_tenant server conn.setting = .ok (some tenant) := by
  obtain ⟨raw, hraw, hcurrent⟩ := speaks_iff.mp hspeaks
  rw [Session.ready, hraw, Option.isNone_some, Bool.false_or] at hready
  obtain ⟨raw', hraw', hsetting⟩ := h.set session hheld hready
  obtain rfl := Option.some.inj (hraw.symm.trans hraw')
  exact ⟨hsetting.trans hraw.symm, hsetting ▸ hcurrent⟩

theorem mem_of_visible {t : Table} {seen : List Row} (h : visible server setting view t = .ok seen)
    (hr : r ∈ seen) : r ∈ view := by
  unfold visible at h
  split at h
  · obtain ⟨_, -, h⟩ := bind_ok.mp h
    rw [← Except.ok.inj h] at hr
    exact (List.mem_filter.mp hr).1
  · rw [← Except.ok.inj h] at hr
    exact (List.mem_filter.mp hr).1

/-- A permitted row of a secured table is of the tenant that is set. -/
theorem current_of_permitted (h : Coded owner view) (hr : r.Derived owner)
    (hpermitted : Permitted server setting view r) (hsecured : r.table.secured = true) :
    current_tenant server setting = .ok (some (owner r.key)) := by
  rcases hpermitted with hpublic | ⟨t, ht, hpolicy⟩
  · rw [hpublic] at hsecured
    cases hsecured
  · rw [owner_of_policy h hr hsecured hpolicy, ht]

section

variable {w : Write Key Row}

theorem written_dropped (h : Written server setting view statement w) (hw : w = .drop k) : k.table = .outbox := by
  rcases h with - | - | ⟨hgrant, -, hhit⟩
  · cases hw
  · cases hw
  · cases hw
    exact ((mem_hits.mp hhit).2.1).trans (delete_granted hgrant)

/-- What is written to a secured table is the tenant's that is set. -/
theorem written_owner (hview : Coded owner view) (hderived : statement.Derived owner)
    (h : Written server setting view statement w) (hsecured : (w.target Row.key).table.secured = true) :
    current_tenant server setting = .ok (some (owner (w.target Row.key))) := by
  rcases h with ⟨hshown, -, -⟩ | @⟨t, where_, assignment, seen, r, -, hsees, hhit, -⟩ |
    @⟨t, where_, seen, r, hgrant, -, hhit⟩
  · exact current_of_permitted hview hderived.1 (permitted_of_secure hshown) hsecured
  · have hkey : (Write.put (assignment.set r)).target Row.key = r.key := assignment.key_set r
    have hr := (mem_hits.mp hhit).1
    rw [hkey] at hsecured ⊢
    exact current_of_permitted hview (hview.derived r (mem_of_visible hsees hr))
      (permitted_of_visible hsees hr) hsecured
  · have houtbox : r.key.table = .outbox := ((mem_hits.mp hhit).2.1).trans (delete_granted hgrant)
    rw [Write.target, houtbox] at hsecured
    cases hsecured

theorem tenant_of_policy {t t' : TenantId} (h : policy (some t) view r = true) (ht : r.tenant_id = some t') :
    t' = t := by
  cases r with
  | provenance p => cases ht
  | outbox o => cases ht
  | _ =>
      simp only [policy, ht, Option.isSome_some, Bool.true_and, beq_iff_eq, Option.some.injEq] at h
      exact h

/-- A row with a `tenant_id` is of a secured table, and so is one that cites. -/
theorem secured_of_column {t : TenantId} (h : r.tenant_id = some t) : r.table.secured = true := by
  cases r <;> first | rfl | cases h

/-- What goes in, or is put in a row's place, has derived ids. -/
theorem written_derived (hview : Coded owner view) (hderived : statement.Derived owner)
    (h : Written server setting view statement (.put r)) : r.Derived owner := by
  generalize hw : Write.put r = w at h
  rcases h with - | @⟨t, where_, assignment, seen, old, hgrant, hsees, hhit, hreplaced⟩ | -
  · cases hw
    exact hderived.1
  · cases hw
    have hold := (mem_hits.mp hhit).1
    have hkey := assignment.key_set old
    obtain ⟨_, hshown, -⟩ := bind_ok.mp hreplaced
    constructor
    · intro t' ht'
      have hsecured := secured_of_column ht'
      have hcurrent := current_of_permitted hview (hview.derived old (mem_of_visible hsees hold))
        (permitted_of_visible hsees hold) (by rw [Row.table, ← hkey]; exact hsecured)
      rcases permitted_of_secure hshown with hpublic | ⟨t₀, ht₀, hpolicy⟩
      · rw [hpublic] at hsecured
        cases hsecured
      · rw [hkey, tenant_of_policy hpolicy ht']
        exact Option.some.inj (Except.ok.inj (ht₀.symm.trans hcurrent))
    · intro p hp
      -- the role may not update `provenance`
      have htable : old.key.table = t := (mem_hits.mp hhit).2.1
      rw [← hkey, hp] at htable
      subst htable
      cases hgrant with | tail _ h => cases h with | tail _ h => cases h
  · cases hw

theorem written_cited {p : ProvenanceRow} (h : Written server setting view statement (.put (.provenance p))) :
    .assertion p.assertion_id ∈ view.map Row.key := by
  generalize hw : Write.put (Row.provenance p) = w at h
  rcases h with ⟨-, -, hcited⟩ | @⟨t, where_, assignment, seen, old, hgrant, hsees, hhit, -⟩ | -
  · cases hw
    obtain ⟨_, -, hrefs⟩ := bind_ok.mp hcited
    rcases require_ok.mp hrefs _ (List.mem_singleton.mpr rfl) with ⟨old, hold, -⟩ | hmem
    · cases hold
    · exact hmem
  · have htable : old.key.table = t := (mem_hits.mp hhit).2.1
    rw [← assignment.key_set old, ← Write.put.inj hw] at htable
    subst htable
    cases hgrant with | tail _ h => cases h with | tail _ h => cases h
  · cases hw

end

/-- What an open block has staged is of the tenant it speaks for. -/
structure Sealed (server : Server) (owner : Key → TenantId) (rows : List Row) (session : Session) : Prop where
  dropped : ∀ k, .drop k ∈ session.writes → k.table = .outbox
  owned : ∀ w ∈ session.writes, (w.target Row.key).table.secured = true →
    speaks server (owner (w.target Row.key)) session.tenant = true
  derived : ∀ r, .put r ∈ session.writes → r.Derived owner
  cited : ∀ p, .put (.provenance p) ∈ session.writes →
    .assertion p.assertion_id ∈ (session.view rows).map Row.key

section

variable {session : Session}

theorem Sealed.drop_notMem (h : Sealed server owner rows session) (hk : k.table ≠ .outbox) :
    .drop k ∉ session.writes := fun hdrop => hk (h.dropped k hdrop)

/-- A block's view is coded as the rows under it are. -/
theorem Sealed.coded (h : Sealed server owner rows session) (hrows : Coded owner rows) :
    Coded owner (session.view rows) := by
  constructor
  · intro r hr
    rcases mem_of_staged hr with hr | hr
    · exact hrows.derived r hr
    · exact h.derived r hr
  · intro p hp
    rcases mem_of_staged hp with hp | hp
    · exact key_mem_staged (h.drop_notMem (by simp [Key.table])) (hrows.cited p hp)
    · exact h.cited p hp

/-- Whatever another block commits under it. -/
theorem Sealed.under {rows' : List Row} (h : Sealed server owner rows session)
    (hkeys : ∀ k ∈ rows.map Row.key, k.table ≠ .outbox → k ∈ rows'.map Row.key) :
    Sealed server owner rows' session := by
  refine ⟨h.dropped, h.owned, h.derived, fun p hp => ?_⟩
  have hdrop := h.drop_notMem (k := .assertion p.assertion_id) (by simp [Key.table])
  rcases key_of_staged (h.cited p hp) with hk | ⟨r, hr, hk⟩
  · exact key_mem_staged hdrop (hkeys _ hk (by simp [Key.table]))
  · rw [← hk] at hdrop ⊢
    exact key_put_staged hdrop hr

theorem Sealed.append (h : Sealed server owner rows session)
    (hrows : Coded owner rows) {conn : Conn} (hbound : Bound conn) (hheld : conn.session = some session)
    (hderived : statement.Derived owner)
    (hw : ∀ w ∈ writes, Written server conn.setting (session.view rows) statement w) :
    Sealed server owner rows { session with writes := session.writes ++ writes } := by
  have hview := h.coded hrows
  have hdrop : ∀ k, .drop k ∈ session.writes ++ writes → k.table = .outbox := by
    intro k hk
    rcases List.mem_append.mp hk with hk | hk
    · exact h.dropped k hk
    · exact written_dropped (hw _ hk) rfl
  refine ⟨hdrop, ?_, ?_, ?_⟩
  · intro w hmem hsecured
    rcases List.mem_append.mp hmem with hmem | hmem
    · exact h.owned w hmem hsecured
    · have hspeaks := speaks_of_current hbound hheld (written_owner hview hderived (hw w hmem) hsecured)
      exact hspeaks
  · intro r hr
    rcases List.mem_append.mp hr with hr | hr
    · exact h.derived r hr
    · exact written_derived hview hderived (hw _ hr)
  · intro p hp
    have hcited : .assertion p.assertion_id ∈ (session.view rows).map Row.key := by
      rcases List.mem_append.mp hp with hp | hp
      · exact h.cited p hp
      · exact written_cited (hw _ hp)
    change _ ∈ (staged Row.key rows (session.writes ++ writes)).map Row.key
    rw [staged_append]
    refine key_mem_staged (fun hk => ?_) hcited
    cases hdrop _ (List.mem_append_right _ hk)

end

/-- Every block keeps to its tenant's ids, and so do the committed rows. -/
structure Isolated (server : Server) (owner : Key → TenantId) (s : State) : Prop where
  bound : ∀ c, Bound (s.conns c)
  coded : Coded owner s.rows
  blocks : ∀ c session, (s.conns c).session = some session → Sealed server owner s.rows session

theorem isolated_init (h : Coded owner rows) : Isolated server owner (State.init rows) :=
  ⟨fun _ => bound_fresh, h, fun c session hc => by cases hc⟩

theorem isolated_step (h : Stepped server max_size s l s') (hs : Isolated server owner s)
    (hderived : ∀ c statement session, l = .execute c statement → (s.conns c).session = some session →
      statement.Derived owner) :
    Isolated server owner s' := by
  have hbound := bound_step h hs.bound
  -- the blocks after one connection has moved and the rows have not
  have move : ∀ c conn, (∀ session, conn.session = some session → Sealed server owner s.rows session) →
      ∀ d session, ((s.set c conn).conns d).session = some session → Sealed server owner s.rows session := by
    intro c conn hconn d session hsession
    rcases State.session_set hsession with ⟨-, hmoved⟩ | ⟨-, hother⟩
    · exact hconn session hmoved
    · exact hs.blocks d session hother
  cases h with
  | acquire idle room =>
      refine ⟨hbound, hs.coded, move _ _ fun session hsession => ?_⟩
      obtain rfl := Option.some.inj hsession
      constructor <;> simp
  | @set_config c session tenant held wanted once =>
      refine ⟨hbound, hs.coded, move _ _ fun session' hsession => ?_⟩
      obtain rfl := Option.some.inj hsession
      exact ⟨(hs.blocks c session held).dropped, (hs.blocks c session held).owned,
        (hs.blocks c session held).derived, (hs.blocks c session held).cited⟩
  | @answered c statement session reply writes held ready sound free done =>
      refine ⟨hbound, hs.coded, move _ _ fun session' hsession => ?_⟩
      obtain rfl := Option.some.inj hsession
      exact (hs.blocks c session held).append hs.coded (hs.bound c) held (hderived c statement session rfl held)
        (written done)
  | @refused c statement session e held ready sound bad =>
      refine ⟨hbound, hs.coded, move _ _ fun session' hsession => ?_⟩
      obtain rfl := Option.some.inj hsession
      exact ⟨(hs.blocks c session held).dropped, (hs.blocks c session held).owned,
        (hs.blocks c session held).derived, (hs.blocks c session held).cited⟩
  | aborted held ready bad => exact ⟨hbound, hs.coded, move _ _ fun session hsession => by cases hsession⟩
  | undone held => exact ⟨hbound, hs.coded, move _ _ fun session hsession => by cases hsession⟩
  | lost => exact ⟨hbound, hs.coded, move _ _ fun session hsession => by cases hsession⟩
  | @committed c reset session held ready sound sourced =>
      have hblock := hs.blocks c session held
      refine ⟨hbound, hblock.coded hs.coded, fun d session' hsession => ?_⟩
      have hold := move c ⟨session.released (s.conns c).setting reset, none⟩ (fun _ h => by cases h) d session'
        hsession
      exact hold.under fun k hk hne => key_mem_staged (hblock.drop_notMem hne) hk

/-! ### What a tenant sees -/

/-- The tenant of the block a step is of. -/
def holder (s : State) : Label → Option String
  | .acquire _ tenant => tenant
  | .set_config c | .execute c _ | .commit c _ | .rollback c _ | .lose c =>
      (s.conns c).session.bind Session.tenant

/-- A step said with the tenant whose block takes it. -/
def attributed (server : Server) (max_size : ℕ) (s : State) (l : Option String × Label) : Option State :=
  if l.1 = holder s l.2 then step server max_size s l.2 else none

/-- Every statement has derived ids, and what it does to `outbox` cannot fail. -/
def Careful (owner : Key → TenantId) (s : State) (l : Option String × Label) : Prop :=
  ∀ c statement session, l.2 = .execute c statement → (s.conns c).session = some session →
    statement.Derived owner ∧ statement.Steady (session.view s.rows)

/-- An open block, to its tenant. -/
structure Glimpse where
  tenant : Option String
  tenant_set : Bool
  failed : Bool
  writes : Writes

variable (server owner tenant)

/-- What the tenant's blocks were answered, of the tables with a policy. -/
def replies (s : State) : List (Table × Reply) :=
  (s.log.filter fun e => speaks server tenant e.tenant && e.table.secured).map fun e => (e.table, e.reply)

def own_writes (writes : Writes) : Writes := writes.filter fun w => mine owner tenant (w.target Row.key)

def glimpse (session : Session) : Option Glimpse :=
  if speaks server tenant session.tenant then
    some ⟨session.tenant, session.tenant_set, session.failed, own_writes owner tenant session.writes⟩
  else none

def blocks (s : State) (c : ℕ) : Option Glimpse := (s.conns c).session.bind (glimpse server owner tenant)

/-- The tenant's rows, its replies and its open blocks. -/
def seen (s : State) : List Row × List (Table × Reply) × (ℕ → Option Glimpse) :=
  (own owner tenant s.rows, replies server tenant s, blocks server owner tenant s)

variable {server owner tenant} {session session' : Session}

theorem glimpse_of_others (h : speaks server tenant session.tenant = false) :
    glimpse server owner tenant session = none := by
  simp [glimpse, h]

theorem glimpse_of_speaks (h : speaks server tenant session.tenant = true) : glimpse server owner tenant session =
    some ⟨session.tenant, session.tenant_set, session.failed, own_writes owner tenant session.writes⟩ := by
  simp [glimpse, h]

theorem glimpse_congr (htenant : session.tenant = session'.tenant)
    (hset : session.tenant_set = session'.tenant_set) (hfailed : session.failed = session'.failed)
    (hwrites : own_writes owner tenant session.writes = own_writes owner tenant session'.writes) :
    glimpse server owner tenant session = glimpse server owner tenant session' := by
  rw [glimpse, glimpse, htenant, hset, hfailed, hwrites]

theorem own_writes_append {more : Writes} : own_writes owner tenant (writes ++ more) =
    own_writes owner tenant writes ++ own_writes owner tenant more := List.filter_append ..

theorem blocks_set {c : ℕ} {conn : Conn} : blocks server owner tenant (s.set c conn) =
    Function.update (blocks server owner tenant s) c (conn.session.bind (glimpse server owner tenant)) := by
  funext d
  by_cases hd : d = c
  · subst hd
    rw [Function.update_self, blocks, State.set_conns_self]
  · rw [Function.update_of_ne hd, blocks, blocks, State.set_conns_of_ne s conn hd]

theorem own_view : own owner tenant (session.view rows) =
    staged Row.key (own owner tenant rows) (own_writes owner tenant session.writes) := own_staged

/-- Of a block that speaks for another, nothing is the tenant's. -/
theorem own_writes_of_others (h : Sealed server owner rows session)
    (hothers : speaks server tenant session.tenant = false) : own_writes owner tenant session.writes = [] := by
  refine List.filter_eq_nil_iff.mpr fun w hw hmine => ?_
  obtain ⟨hsecured, hown⟩ := mine_iff.mp hmine
  have hspeaks := h.owned w hw hsecured
  rw [hown, hothers] at hspeaks
  cases hspeaks

/-! ### Others' steps -/

theorem seen_eq {t : State} (hrows : own owner tenant s.rows = own owner tenant t.rows)
    (hreplies : replies server tenant s = replies server tenant t)
    (hblocks : blocks server owner tenant s = blocks server owner tenant t) :
    seen server owner tenant s = seen server owner tenant t := by
  rw [seen, seen, hrows, hreplies, hblocks]

theorem blocks_of_others {c : ℕ} (hheld : (s.conns c).session = some session)
    (hothers : speaks server tenant session.tenant = false) : blocks server owner tenant s c = none := by
  rw [blocks, hheld]
  exact glimpse_of_others hothers

theorem holder_of_held {c : ℕ} (hheld : (s.conns c).session = some session) :
    (s.conns c).session.bind Session.tenant = session.tenant := by
  rw [hheld]
  rfl

/-- A connection that had nothing of the tenant's, and has nothing still. -/
theorem blocks_set_of_others {c : ℕ} {conn : Conn} (hold : blocks server owner tenant s c = none)
    (hnew : conn.session.bind (glimpse server owner tenant) = none) :
    blocks server owner tenant (s.set c conn) = blocks server owner tenant s := by
  rw [blocks_set, hnew, ← hold, Function.update_eq_self]

/-- A step of another tenant's block changes nothing the tenant sees. -/
theorem seen_of_others (h : Stepped server max_size s l s') (hs : Isolated server owner s)
    (hothers : speaks server tenant (holder s l) = false) :
    seen server owner tenant s' = seen server owner tenant s := by
  cases h with
  | acquire idle room =>
      refine seen_eq rfl rfl (blocks_set_of_others ?_ (glimpse_of_others hothers))
      rw [blocks, idle]
      rfl
  | @set_config c session t held wanted once =>
      rw [holder, holder_of_held held] at hothers
      refine seen_eq rfl rfl (blocks_set_of_others (blocks_of_others held hothers) ?_)
      exact glimpse_of_others hothers
  | @answered c statement session reply writes held ready sound free done =>
      rw [holder, holder_of_held held] at hothers
      refine seen_eq rfl ?_ (blocks_set_of_others (blocks_of_others held hothers) (glimpse_of_others hothers))
      change List.map _ (List.filter _ (_ ++ _)) = _
      rw [List.filter_append, List.filter_cons_of_neg (by simp [hothers]), List.filter_nil, List.append_nil]
      rfl
  | @refused c statement session e held ready sound bad =>
      rw [holder, holder_of_held held] at hothers
      refine seen_eq rfl rfl (blocks_set_of_others (blocks_of_others held hothers) ?_)
      exact glimpse_of_others hothers
  | @committed c reset session held ready sound sourced =>
      rw [holder, holder_of_held held] at hothers
      refine seen_eq ?_ rfl (blocks_set_of_others (blocks_of_others held hothers) rfl)
      change own owner tenant (session.view s.rows) = _
      rw [own_view, own_writes_of_others (hs.blocks c session held) hothers, staged_nil]
  | @aborted c reset session held ready bad =>
      rw [holder, holder_of_held held] at hothers
      exact seen_eq rfl rfl (blocks_set_of_others (blocks_of_others held hothers) rfl)
  | @undone c reset session held =>
      rw [holder, holder_of_held held] at hothers
      exact seen_eq rfl rfl (blocks_set_of_others (blocks_of_others held hothers) rfl)
  | @lost c =>
      refine seen_eq rfl rfl (blocks_set_of_others ?_ rfl)
      cases hsession : (s.conns c).session with
      | none =>
          rw [blocks, hsession]
          rfl
      | some session =>
          rw [holder, holder_of_held hsession] at hothers
          exact blocks_of_others hsession hothers

/-! ### The tenant's own steps -/

theorem outbox_of_table (h : r.table = .outbox) : ∃ o, r = .outbox o := by
  cases r with
  | outbox o => exact ⟨o, rfl⟩
  | _ => cases h

theorem written_table {w : Write Key Row} (h : Written server setting view statement w) :
    (w.target Row.key).table = statement.table := by
  rcases h with - | @⟨t, where_, assignment, seen, r, -, -, hhit, -⟩ | ⟨-, -, hhit⟩
  · rfl
  · change (assignment.set r).key.table = t
    rw [assignment.key_set]
    exact (mem_hits.mp hhit).2.1
  · exact (mem_hits.mp hhit).2.1

/-- A statement on `outbox` that cannot fail. -/
theorem execute_steady (htable : statement.table = .outbox) (h : statement.Steady view) :
    ∃ reply writes, execute server setting view statement = .ok (reply, writes) := by
  have hgrant : require (statement.privilege ∈ granted statement.table)
      (.insufficient_privilege statement.table) = .ok () := by
    rw [htable]
    cases statement <;> exact require_ok.mpr (by simp [Statement.privilege, granted])
  have hvisible : visible server setting view .outbox = .ok (view.filter fun r => !r.table.secured) := rfl
  -- a row of `outbox` meets no policy and no CHECK
  have hput : ∀ {r : Row}, r.table = .outbox → secure server setting view r = .ok () ∧ constrain r = .ok () := by
    intro r hr
    obtain ⟨o, rfl⟩ := outbox_of_table hr
    exact ⟨rfl, rfl⟩
  have hrefer : ∀ {r : Row} {held : Option Row}, r.table = .outbox →
      (∀ k ∈ r.references, (∃ old ∈ held, k ∈ old.references) ∨ k ∈ view.map Row.key) →
      refer server view held r = .ok () := by
    intro r held hr hrefs
    obtain ⟨o, rfl⟩ := outbox_of_table hr
    exact bind_ok.mpr ⟨(), require_ok.mpr (fun _ h => by cases h), require_ok.mpr hrefs⟩
  suffices hdone : ∃ result, evaluate server setting view statement = .ok result by
    obtain ⟨result, hresult⟩ := hdone
    exact ⟨result.1, result.2, bind_ok.mpr ⟨(), hgrant, hresult⟩⟩
  cases statement with
  | select t where_ =>
      obtain rfl : t = .outbox := htable
      exact ⟨_, bind_ok.mpr ⟨_, hvisible, rfl⟩⟩
  | delete t where_ =>
      obtain rfl : t = .outbox := htable
      exact ⟨_, bind_ok.mpr ⟨_, hvisible, rfl⟩⟩
  | update t where_ assignment =>
      obtain rfl : t = .outbox := htable
      refine ⟨_, bind_ok.mpr ⟨_, hvisible, bind_ok.mpr ⟨(), each_ok.mpr fun r hr => ?_, rfl⟩⟩⟩
      have hset : (assignment.set r).table = .outbox := by
        rw [Row.table, assignment.key_set]
        exact (mem_hits.mp hr).2.1
      exact bind_ok.mpr ⟨(), (hput hset).1, bind_ok.mpr ⟨(), (hput hset).2,
        hrefer hset fun k hk => Or.inl ⟨r, rfl, h rfl r hk⟩⟩⟩
  | insert row do_nothing =>
      obtain ⟨hnothing, hrefs⟩ := h htable
      have hput := @hput row htable
      by_cases hkey : row.key ∈ view.map Row.key
      · refine ⟨(⟨[], 0⟩, []), bind_ok.mpr ⟨(), hput.1, bind_ok.mpr ⟨(), hput.2, ?_⟩⟩⟩
        rw [if_pos hkey]
        exact bind_ok.mpr ⟨(), require_ok.mpr hnothing, rfl⟩
      · refine ⟨(⟨[], 1⟩, [.put row]), bind_ok.mpr ⟨(), hput.1, bind_ok.mpr ⟨(), hput.2, ?_⟩⟩⟩
        rw [if_neg hkey]
        exact bind_ok.mpr ⟨(), hrefer htable fun k hk => Or.inr (hrefs k hk), rfl⟩

theorem own_writes_outbox (htable : statement.table = .outbox)
    (h : ∀ w ∈ writes, Written server setting view statement w) : own_writes owner tenant writes = [] := by
  refine List.filter_eq_nil_iff.mpr fun w hw hmine => ?_
  have hsecured := (mine_iff.mp hmine).1
  rw [written_table (h w hw), htable] at hsecured
  cases hsecured

theorem unsourced_iff (hset : current_tenant server setting = .ok (some tenant)) :
    unsourced server setting rows view r = true ↔ ∃ a, r = .assertion a ∧ .assertion a.id ∉ rows.map Row.key ∧
      ∀ p, .provenance p ∈ view → p.assertion_id = a.id → policy (some tenant) view (.provenance p) = false := by
  cases r with
  | assertion a =>
      simp only [unsourced, hset, Bool.and_eq_true, decide_eq_true_eq, Bool.not_eq_true', List.any_eq_false]
      constructor
      · rintro ⟨hnew, hcited⟩
        refine ⟨a, rfl, hnew, fun p hp hid => ?_⟩
        have hnot := hcited _ hp
        simp only [hid, beq_self_eq_true, Bool.true_and, Bool.not_eq_true] at hnot
        exact hnot
      · rintro ⟨b, hb, hnew, hcited⟩
        obtain rfl := Row.assertion.inj hb
        refine ⟨hnew, fun x hx => ?_⟩
        split
        · next p =>
            rw [Bool.and_eq_true, beq_iff_eq]
            rintro ⟨hid, hpolicy⟩
            rw [hcited p hx hid] at hpolicy
            cases hpolicy
        · simp
  | _ => simp [unsourced]

/-- What the trigger finds in a tenant's block, it finds in the tenant's own rows. -/
theorem unsourced_own (h : Sealed server owner rows session) (hrows : Coded owner rows)
    (hspeaks : speaks server tenant session.tenant = true)
    (hset : current_tenant server setting = .ok (some tenant)) :
    (∃ r ∈ session.view rows, unsourced server setting rows (session.view rows) r = true) ↔
      ∃ r ∈ own owner tenant (session.view rows),
        unsourced server setting (own owner tenant rows) (own owner tenant (session.view rows)) r = true := by
  have hview := h.coded hrows
  constructor
  · rintro ⟨r, hr, hbad⟩
    obtain ⟨a, rfl, hnew, hcited⟩ := (unsourced_iff hset).mp hbad
    -- an assertion that was not there is one the block put
    have hput : .put (.assertion a) ∈ session.writes :=
      (mem_of_staged hr).resolve_left fun hold => hnew (List.mem_map_of_mem hold)
    have hown : owner (.assertion a.id) = tenant := speaks_unique hspeaks (h.owned _ hput rfl)
    refine ⟨_, mem_own.mpr ⟨hr, rfl, hown⟩, (unsourced_iff hset).mpr ⟨a, rfl, ?_, fun p hp hid => ?_⟩⟩
    · rw [mem_keys_own (mine_iff.mpr ⟨rfl, hown⟩)]
      exact hnew
    · rw [policy_own hview]
      exact hcited p (mem_own.mp hp).1 hid
  · rintro ⟨r, hr, hbad⟩
    obtain ⟨a, rfl, hnew, hcited⟩ := (unsourced_iff hset).mp hbad
    obtain ⟨hr, -, hown⟩ := mem_own.mp hr
    refine ⟨_, hr, (unsourced_iff hset).mpr ⟨a, rfl, ?_, fun p hp hid => ?_⟩⟩
    · exact fun hmem => hnew ((mem_keys_own (mine_iff.mpr ⟨rfl, hown⟩)).mpr hmem)
    · by_contra hshown
      rw [Bool.not_eq_false] at hshown
      have hmem := mem_own.mpr ⟨hp, rfl, owner_of_policy hview (hview.derived _ hp) rfl hshown⟩
      have hnot := hcited p hmem hid
      rw [policy_own hview, hshown] at hnot
      cases hnot

/-- Two blocks that look alike to their tenant. -/
theorem same_block {t : State} {c : ℕ} (hblocks : blocks server owner tenant s = blocks server owner tenant t)
    (hheld : (s.conns c).session = some session) (hheld' : (t.conns c).session = some session')
    (hspeaks : speaks server tenant session.tenant = true)
    (hspeaks' : speaks server tenant session'.tenant = true) :
    session.tenant = session'.tenant ∧ session.tenant_set = session'.tenant_set ∧
      session.failed = session'.failed ∧
      own_writes owner tenant session.writes = own_writes owner tenant session'.writes := by
  have h : (some session).bind (glimpse server owner tenant) =
      (some session').bind (glimpse server owner tenant) := by
    rw [← hheld, ← hheld']
    exact congrFun hblocks c
  rw [Option.bind_some, Option.bind_some, glimpse_of_speaks hspeaks, glimpse_of_speaks hspeaks'] at h
  obtain ⟨h₁, h₂, h₃, h₄⟩ := Glimpse.mk.inj (Option.some.inj h)
  exact ⟨h₁, h₂, h₃, h₄⟩

/-- And they go on alike. -/
theorem blocks_set_same {t : State} {c : ℕ} {conn conn' : Conn}
    (hblocks : blocks server owner tenant s = blocks server owner tenant t)
    (hnew : conn.session.bind (glimpse server owner tenant) = conn'.session.bind (glimpse server owner tenant)) :
    blocks server owner tenant (s.set c conn) = blocks server owner tenant (t.set c conn') := by
  rw [blocks_set, blocks_set, hblocks, hnew]

/-- A block of the tenant that has begun in two states which look alike to it. -/
structure Alike (server : Server) (owner : Key → TenantId) (tenant : TenantId) (s t : State) (c : ℕ)
    (session session' : Session) : Prop where
  left : Isolated server owner s
  right : Isolated server owner t
  own_rows : own owner tenant s.rows = own owner tenant t.rows
  open_blocks : blocks server owner tenant s = blocks server owner tenant t
  held : (s.conns c).session = some session
  held' : (t.conns c).session = some session'
  ready : session.ready = true
  ready' : session'.ready = true
  speaking : speaks server tenant session.tenant = true
  speaking' : speaks server tenant session'.tenant = true

namespace Alike

variable {t : State} {c : ℕ}

theorem symm (h : Alike server owner tenant s t c session session') :
    Alike server owner tenant t s c session' session :=
  ⟨h.right, h.left, h.own_rows.symm, h.open_blocks.symm, h.held', h.held, h.ready', h.ready, h.speaking',
    h.speaking⟩

variable (h : Alike server owner tenant s t c session session')

include h

theorem block : session.tenant = session'.tenant ∧ session.tenant_set = session'.tenant_set ∧
    session.failed = session'.failed ∧
      own_writes owner tenant session.writes = own_writes owner tenant session'.writes :=
  same_block h.open_blocks h.held h.held' h.speaking h.speaking'

/-- The policies read the tenant in both. -/
theorem same_setting : (s.conns c).setting = (t.conns c).setting ∧
    current_tenant server (s.conns c).setting = .ok (some tenant) := by
  obtain ⟨hsetting, hset⟩ := setting_of_speaks (h.left.bound c) h.held h.ready h.speaking
  obtain ⟨hsetting', -⟩ := setting_of_speaks (h.right.bound c) h.held' h.ready' h.speaking'
  exact ⟨hsetting.trans (h.block.1.trans hsetting'.symm), hset⟩

/-- A statement of the tenant on a table with a policy is answered alike in both. -/
theorem execute_same (hsecured : statement.table.secured = true) (hderived : statement.Derived owner) :
    execute server (s.conns c).setting (session.view s.rows) statement =
      execute server (t.conns c).setting (session'.view t.rows) statement := by
  obtain ⟨-, -, -, hwrites⟩ := h.block
  obtain ⟨hsetting, hset⟩ := h.same_setting
  rw [← execute_own ((h.left.blocks c session h.held).coded h.left.coded) hset hsecured hderived,
    ← execute_own ((h.right.blocks c session' h.held').coded h.right.coded) (hsetting ▸ hset) hsecured hderived,
    own_view, own_view, h.own_rows, hwrites, hsetting]

/-- What is answered in the one is not refused in the other. -/
theorem execute_not_refused {e : ServerError}
    (hcareful : statement.Derived owner ∧ statement.Steady (session'.view t.rows))
    (hdone : execute server (s.conns c).setting (session.view s.rows) statement = .ok (reply, writes)) :
    execute server (t.conns c).setting (session'.view t.rows) statement ≠ .error e := by
  cases hsecured : statement.table.secured with
  | true =>
      rw [← h.execute_same hsecured hcareful.1, hdone]
      exact fun h => by cases h
  | false =>
      obtain ⟨_, _, hok⟩ :=
        @execute_steady server (t.conns c).setting _ _ (secured_eq_false.mp hsecured) hcareful.2
      rw [hok]
      exact fun h => by cases h

/-- What commits in the one is not aborted in the other. -/
theorem commit_not_aborted (hsound : session.failed = false)
    (hsourced : ∀ r ∈ session.view s.rows,
      unsourced server (s.conns c).setting s.rows (session.view s.rows) r = false) :
    ¬ (session'.failed = true ∨ ∃ r ∈ session'.view t.rows,
      unsourced server (t.conns c).setting t.rows (session'.view t.rows) r = true) := by
  obtain ⟨-, -, hfailed, hwrites⟩ := h.block
  obtain ⟨hsetting, hset⟩ := h.same_setting
  rintro (hbad | hbad)
  · rw [← hfailed, hsound] at hbad
    cases hbad
  · rw [unsourced_own (h.right.blocks c session' h.held') h.right.coded h.speaking' (hsetting ▸ hset), own_view,
      ← h.own_rows, ← hwrites, ← own_view, ← hsetting,
      ← unsourced_own (h.left.blocks c session h.held) h.left.coded h.speaking hset] at hbad
    obtain ⟨r, hr, hbad⟩ := hbad
    rw [hsourced r hr] at hbad
    cases hbad

end Alike

/-- Two states that look alike to the tenant look alike after the same step of its own. -/
theorem seen_of_own {t t' : State} {who : Option String} (hs : Stepped server max_size s l s')
    (ht : Stepped server max_size t l t') (his : Isolated server owner s) (hit : Isolated server owner t)
    (hcs : Careful owner s (who, l)) (hct : Careful owner t (who, l))
    (hspeaks : speaks server tenant (holder s l) = true) (hspeaks' : speaks server tenant (holder t l) = true)
    (hseen : seen server owner tenant s = seen server owner tenant t) :
    seen server owner tenant s' = seen server owner tenant t' := by
  obtain ⟨hrows, hrest⟩ := Prod.mk.inj hseen
  obtain ⟨hreplies, hblocks⟩ := Prod.mk.inj hrest
  cases hs with
  | acquire idle room =>
      cases ht with
      | acquire idle' room' =>
          exact seen_eq hrows hreplies (blocks_set_same hblocks (glimpse_congr rfl rfl rfl rfl))
  | @set_config c session raw held wanted once =>
      cases ht with
      | @set_config _ session' raw' held' wanted' once' =>
          rw [holder, holder_of_held held] at hspeaks
          rw [holder, holder_of_held held'] at hspeaks'
          obtain ⟨hraw, -, hfailed, hwrites⟩ := same_block hblocks held held' hspeaks hspeaks'
          refine seen_eq hrows hreplies (blocks_set_same hblocks ?_)
          exact glimpse_congr hraw rfl hfailed hwrites
  | @answered c statement session reply writes held ready sound free done =>
      rw [holder, holder_of_held held] at hspeaks
      obtain ⟨hderived, hsteady⟩ := hcs c statement session rfl held
      cases ht with
      | @answered _ _ session' reply' writes' held' ready' sound' free' done' =>
          rw [holder, holder_of_held held'] at hspeaks'
          have halike : Alike server owner tenant s t c session session' :=
            ⟨his, hit, hrows, hblocks, held, held', ready, ready', hspeaks, hspeaks'⟩
          obtain ⟨hraw, hset, hfailed, hwrites⟩ := halike.block
          -- a secured statement is answered alike; one of `outbox` is not the tenant's to see
          have hanswer : (statement.table.secured = true → reply = reply') ∧
              own_writes owner tenant writes = own_writes owner tenant writes' := by
            cases hsecured : statement.table.secured with
            | true =>
                have hsame := halike.execute_same hsecured hderived
                rw [done, done'] at hsame
                obtain ⟨rfl, rfl⟩ := Prod.mk.inj (Except.ok.inj hsame)
                exact ⟨fun _ => rfl, rfl⟩
            | false =>
                have hpublic := secured_eq_false.mp hsecured
                refine ⟨(fun h => by cases h), ?_⟩
                rw [own_writes_outbox hpublic (written done), own_writes_outbox hpublic (written done')]
          refine seen_eq hrows ?_ (blocks_set_same hblocks ?_)
          · change List.map _ (List.filter _ (_ ++ _)) = List.map _ (List.filter _ (_ ++ _))
            rw [List.filter_append, List.map_append, List.filter_append, List.map_append]
            refine congr (congrArg _ hreplies) ?_
            cases hsecured : statement.table.secured with
            | true => simp [hspeaks, hspeaks', hsecured, hanswer.1 hsecured]
            | false => simp [hsecured]
          · refine glimpse_congr hraw hset hfailed ?_
            rw [own_writes_append, own_writes_append, hwrites, hanswer.2]
      | @refused _ _ session' e held' ready' sound' bad' =>
          rw [holder, holder_of_held held'] at hspeaks'
          have halike : Alike server owner tenant s t c session session' :=
            ⟨his, hit, hrows, hblocks, held, held', ready, ready', hspeaks, hspeaks'⟩
          exact absurd bad' (halike.execute_not_refused (hct c statement session' rfl held') done)
  | @refused c statement session e held ready sound bad =>
      rw [holder, holder_of_held held] at hspeaks
      cases ht with
      | @answered _ _ session' reply' writes' held' ready' sound' free' done' =>
          rw [holder, holder_of_held held'] at hspeaks'
          have halike : Alike server owner tenant s t c session session' :=
            ⟨his, hit, hrows, hblocks, held, held', ready, ready', hspeaks, hspeaks'⟩
          exact absurd bad (halike.symm.execute_not_refused (hcs c statement session rfl held) done')
      | @refused _ _ session' e' held' ready' sound' bad' =>
          rw [holder, holder_of_held held'] at hspeaks'
          obtain ⟨hraw, hset, -, hwrites⟩ := same_block hblocks held held' hspeaks hspeaks'
          refine seen_eq hrows hreplies (blocks_set_same hblocks ?_)
          exact glimpse_congr hraw hset rfl hwrites
  | @committed c reset session held ready sound sourced =>
      rw [holder, holder_of_held held] at hspeaks
      cases ht with
      | @committed _ _ session' held' ready' sound' sourced' =>
          rw [holder, holder_of_held held'] at hspeaks'
          obtain ⟨-, -, -, hwrites⟩ := same_block hblocks held held' hspeaks hspeaks'
          refine seen_eq ?_ hreplies (blocks_set_same hblocks rfl)
          change own owner tenant (session.view s.rows) = own owner tenant (session'.view t.rows)
          rw [own_view, own_view, hrows, hwrites]
      | @aborted _ _ session' held' ready' bad' =>
          rw [holder, holder_of_held held'] at hspeaks'
          have halike : Alike server owner tenant s t c session session' :=
            ⟨his, hit, hrows, hblocks, held, held', ready, ready', hspeaks, hspeaks'⟩
          exact absurd bad' (halike.commit_not_aborted sound sourced)
  | @aborted c reset session held ready bad =>
      rw [holder, holder_of_held held] at hspeaks
      cases ht with
      | @committed _ _ session' held' ready' sound' sourced' =>
          rw [holder, holder_of_held held'] at hspeaks'
          have halike : Alike server owner tenant s t c session session' :=
            ⟨his, hit, hrows, hblocks, held, held', ready, ready', hspeaks, hspeaks'⟩
          exact absurd bad (halike.symm.commit_not_aborted sound' sourced')
      | aborted held' ready' bad' => exact seen_eq hrows hreplies (blocks_set_same hblocks rfl)
  | undone held =>
      cases ht with
      | undone held' => exact seen_eq hrows hreplies (blocks_set_same hblocks rfl)
  | lost =>
      cases ht with
      | lost => exact seen_eq hrows hreplies (blocks_set_same hblocks rfl)

/-! ### Two runs -/

theorem attributed_ok {l : Option String × Label} :
    attributed server max_size s l = some s' ↔ l.1 = holder s l.2 ∧ step server max_size s l.2 = some s' := by
  unfold attributed
  split <;> simp [*]

/-- CORRECT: take two databases with the same rows of the tenant, whatever other tenants' rows are in them,
    and two runs of careful statements in which the tenant's blocks take the same steps on the same
    connections, whatever other tenants' blocks do in between. Off `outbox` the tenant is answered alike,
    and its committed rows end the same. -/
theorem tenants_run {rows₁ rows₂ : List Row} {ls ms : List (Option String × Label)} {s t : State}
    (h₁ : Coded owner rows₁) (h₂ : Coded owner rows₂)
    (hrows : own owner tenant rows₁ = own owner tenant rows₂)
    (hsame : Same (fun l => speaks server tenant l.1) ls ms)
    (hs : run (attributed server max_size) (State.init rows₁) ls = some s)
    (ht : run (attributed server max_size) (State.init rows₂) ms = some t)
    (hcs : Along (attributed server max_size) (Careful owner) (State.init rows₁) ls)
    (hct : Along (attributed server max_size) (Careful owner) (State.init rows₂) ms) :
    own owner tenant s.rows = own owner tenant t.rows ∧ replies server tenant s = replies server tenant t := by
  have hinit : seen server owner tenant (State.init rows₁) = seen server owner tenant (State.init rows₂) :=
    seen_eq hrows rfl rfl
  have hseen : seen server owner tenant s = seen server owner tenant t := by
    refine view_eq_of_unwinding (I := Isolated server owner) ?_ ?_ ?_ hsame rfl hs ht hcs hct
      (isolated_init h₁) (isolated_init h₂) hinit
    · intro s l s' hstep hcareful hi
      exact isolated_step (stepped (attributed_ok.mp hstep).2) hi fun c statement session hl hheld =>
        (hcareful c statement session hl hheld).1
    · intro s t l s' t' hstep hstep' hcareful hcareful' hi hi' hspeaks hv
      obtain ⟨hwho, hstep⟩ := attributed_ok.mp hstep
      obtain ⟨hwho', hstep'⟩ := attributed_ok.mp hstep'
      exact seen_of_own (stepped hstep) (stepped hstep') hi hi' hcareful hcareful' (hwho ▸ hspeaks)
        (hwho' ▸ hspeaks) hv
    · intro s l s' hstep hcareful hi hothers
      obtain ⟨hwho, hstep⟩ := attributed_ok.mp hstep
      exact seen_of_others (stepped hstep) hi (hwho ▸ hothers)
  obtain ⟨hrows, hrest⟩ := Prod.mk.inj hseen
  exact ⟨hrows, (Prod.mk.inj hrest).1⟩

/-! ### A tenant with a neighbour and without -/

def charted (id : String) (t : TenantId) (patient : EntityId) : Row :=
  .assertion ⟨id, t, "patient:1", patient, "takes", .str "statin", 1, 0, 0, none, 0, none, none, 1, "t1", false,
    none⟩

def quoted (id aid : String) : Row := .provenance ⟨id, aid, "h", 0, 4, "verified_user", "text", 1, 0⟩

/-- One write of a tenant with its citation, and a read. -/
def charting (c : ℕ) (t : TenantId) (patient aid cid : String) : List (Option String × Label) :=
  [.acquire c (some t), .set_config c, .execute c (.insert (charted aid t patient) true),
    .execute c (.insert (quoted cid aid) true), .execute c (.select .assertion fun _ _ => true),
    .commit c false].map fun l => (some t, l)

/-- The ids of `north`; all others are of `south`. -/
def clinic_of (k : Key) : TenantId :=
  if k ∈ [.entity "p1", .assertion "a1", .provenance "c1"] then "north" else "south"

theorem charting_careful {c : ℕ} {t patient aid cid : String} {s : State}
    (ht : clinic_of (.assertion aid) = t) (hpatient : clinic_of (.entity patient) = t)
    (hcid : clinic_of (.provenance cid) = t) : ∀ l ∈ charting c t patient aid cid, Careful clinic_of s l := by
  rintro l hl d statement session heq -
  simp only [charting, List.map_cons, List.map_nil, List.mem_cons, List.not_mem_nil, or_false] at hl
  rcases hl with rfl | rfl | rfl | rfl | rfl | rfl <;> cases heq
  · refine ⟨⟨⟨fun t' h => ?_, fun p hp => by cases hp⟩, fun _ k hk => ?_⟩, fun h => by cases h⟩
    · cases h
      exact ht.symm
    · obtain rfl := List.mem_singleton.mp hk
      exact hpatient.trans ht.symm
  · refine ⟨⟨⟨(fun t' h => by cases h), fun p hp => ?_⟩, fun _ k hk => ?_⟩, fun h => by cases h⟩
    · cases hp
      exact hcid.trans ht.symm
    · obtain rfl := List.mem_singleton.mp hk
      exact ht.trans hcid.symm
  · exact ⟨trivial, trivial⟩

theorem patients_coded : ∀ rows, rows.Sublist patients → Coded clinic_of rows := by
  intro rows hrows
  constructor
  · intro r hr
    have hr := hrows.subset hr
    simp only [patients, List.mem_cons, List.not_mem_nil, or_false] at hr
    rcases hr with rfl | rfl
    · exact ⟨(fun t h => by cases h; rfl), fun p h => by cases h⟩
    · exact ⟨(fun t h => by cases h; rfl), fun p h => by cases h⟩
  · intro p hp
    have hp := hrows.subset hp
    simp [patients] at hp

def alone : List (Option String × Label) := charting 0 "north" "p1" "a1" "c1"

/-- The two clinics' blocks, step by step in turn. -/
def together : List (Option String × Label) :=
  (alone.zip (charting 1 "south" "p2" "a2" "c2")).flatMap fun p => [p.1, p.2]

theorem tenants_run_neighbour : ∃ s t,
    run (attributed clinics 2) (State.init patients) together = some s ∧
    run (attributed clinics 2) (State.init (patients.take 1)) alone = some t ∧
    own clinic_of "north" s.rows = own clinic_of "north" t.rows ∧
      replies clinics "north" s = replies clinics "north" t := by
  have htogether : (run (attributed clinics 2) (State.init patients) together).isSome = true := rfl
  have halone : (run (attributed clinics 2) (State.init (patients.take 1)) alone).isSome = true := rfl
  obtain ⟨s, hs⟩ := Option.isSome_iff_exists.mp htogether
  obtain ⟨t, ht⟩ := Option.isSome_iff_exists.mp halone
  have hnorth : ∀ s, ∀ l ∈ alone, Careful clinic_of s l := fun s =>
    charting_careful (by decide) (by decide) (by decide)
  have hsouth : ∀ s, ∀ l ∈ charting 1 "south" "p2" "a2" "c2", Careful clinic_of s l :=
    fun s => charting_careful (by decide) (by decide) (by decide)
  have hrows : own clinic_of "north" patients = own clinic_of "north" (patients.take 1) := by decide
  have hsame : Same (fun l => speaks clinics "north" l.1) together alone := rfl
  refine ⟨s, t, hs, ht, tenants_run (patients_coded _ (List.Sublist.refl _))
    (patients_coded _ (List.take_sublist _ _)) hrows hsame hs ht (along_of_labels fun l hl s => ?_)
    (along_of_labels fun l hl s => hnorth s l hl)⟩
  obtain ⟨p, hp, hl⟩ := List.mem_flatMap.mp hl
  obtain ⟨hleft, hright⟩ := List.of_mem_zip (a := p.1) (b := p.2) hp
  rcases List.mem_cons.mp hl with rfl | hl
  · exact hnorth s _ hleft
  · obtain rfl := List.mem_singleton.mp hl
    exact hsouth s _ hright

example : (run (attributed clinics 2) (State.init patients) together).map (fun s => s.rows.map Row.key) =
    some [.entity "p1", .entity "p2", .assertion "a1", .provenance "c1", .assertion "a2", .provenance "c2"] := rfl

end GuardMem.Postgres
