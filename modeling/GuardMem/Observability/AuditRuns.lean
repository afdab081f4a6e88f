import GuardMem.Lib.Transition
import GuardMem.Observability.AuditStore
import GuardMem.Observability.Tamper

/-! Transactions that extend audit chains, statement by statement.

    A call of `append` is three statements: the advisory lock, the head, the insert. A statement sees
    what is committed when it starts and its own transaction's rows, and of these the rows of the
    transaction's tenant. The lock is taken on `hashtext` of the text the tenant was named by, and the
    rows are found by its `uuid`. CORRECT for the runs in which the transactions open at once name one
    tenant by texts of one `hashtext` (`never_forks`); two spellings of one id fork its chain
    (`two_spellings_fork`). -/

namespace GuardMem.Audit

open Lib Lib.HashChain Lib.Transition

variable {U : Type} [DecidableEq U] (pg : Postgres U)

/-! ### The statements -/

/-- The arguments of one call of `append`. -/
structure Append where
  tenant_id : TenantId
  trace_id : TraceId
  kind : AuditKind
  payload : Payload
  created_at : Time

/-- How far a transaction's call of `append` is. -/
inductive Call where
  | idle
  | locked (c : Append)
  | headed (c : Append) (head : Option String)

/-- An open transaction: `app.tenant_id`, the texts it locked, its call, and what it inserted. -/
structure Tx where
  pid : ℕ
  scope : TenantId
  locks : List TenantId := []
  call : Call := .idle
  own : List AuditEvent := []

/-- The committed links, the open transactions, and the next value of the sequence. -/
structure Chains where
  committed : List AuditEvent := []
  txs : List Tx := []
  nextval : ℕ := 1

def Chains.init : Chains := {}

inductive Stmt where
  | begin (pid : ℕ) (scope : TenantId)
  | lock (pid : ℕ) (c : Append)
  | select_head (pid : ℕ)
  | insert (pid : ℕ) (seq : ℕ)
  | abandon (pid : ℕ)
  | commit (pid : ℕ)
  | rollback (pid : ℕ)

def AuditEvent.at_seq (event : AuditEvent) : ℕ := event.seq.getD 0

/-- The links of one tenant, in the order they were inserted. -/
def links_of (u : U) (events : List AuditEvent) : List AuditEvent :=
  events.filter fun e => pg.uuid e.tenant_id = some u

/-- `SELECT_CHAIN`: the links of one tenant, `ORDER BY seq ASC`. -/
def SELECT_CHAIN (u : U) (events : List AuditEvent) : List AuditEvent :=
  (links_of pg u events).insertionSort fun a b => a.at_seq ≤ b.at_seq

/-- `SELECT_HEAD`: the digest of the last of them. -/
def SELECT_HEAD (u : U) (events : List AuditEvent) : Option String :=
  last_digest (SELECT_CHAIN pg u events)

/-- What the policy lets a transaction see. -/
def Tx.sees (tx : Tx) (events : List AuditEvent) : List AuditEvent :=
  match pg.uuid tx.scope with
  | some u => links_of pg u (events ++ tx.own)
  | none => []

def Chains.find (s : Chains) (pid : ℕ) : Option Tx := s.txs.find? fun tx => tx.pid = pid

/-- The other open transactions. -/
def Chains.others (s : Chains) (pid : ℕ) : List Tx := s.txs.filter fun tx => tx.pid ≠ pid

/-- No other transaction holds the key. -/
def Chains.free (s : Chains) (pid : ℕ) (text : TenantId) : Prop :=
  ∀ tx ∈ s.others pid, ∀ held ∈ tx.locks, pg.hashtext held ≠ pg.hashtext text

instance (s : Chains) (pid : ℕ) (text : TenantId) : Decidable (s.free pg pid text) :=
  inferInstanceAs (Decidable (∀ tx ∈ s.others pid, ∀ held ∈ tx.locks, _))

def Chains.put (s : Chains) (tx : Tx) : Chains := { s with txs := tx :: s.others tx.pid }

/-- The insert: `next_link` after the head that was read, the policy's check, the casts, and a value of
    the sequence. -/
def Tx.insert (tx : Tx) (nextval seq : ℕ) : Option Tx :=
  match tx.call with
  | .headed c head =>
      match next_link c.tenant_id c.trace_id c.kind c.payload (head.getD GENESIS) c.created_at with
      | .error _ => none
      | .ok link =>
          if pg.uuid c.tenant_id = pg.uuid tx.scope ∧ (INSERT_AUDIT pg link seq).isSome ∧ nextval ≤ seq
          then some { tx with call := .idle, own := tx.own ++ [{ link with seq := some seq }] }
          else none
  | _ => none

/-- One statement of one transaction; `none` where it waits or raises. -/
def step (s : Chains) : Stmt → Option Chains
  | .begin pid scope => if s.find pid = none then some (s.put { pid, scope }) else none
  | .lock pid c => do
      let tx ← s.find pid
      match tx.call with
      | .idle =>
          if s.free pg pid c.tenant_id then
            some (s.put { tx with locks := c.tenant_id :: tx.locks, call := .locked c })
          else none
      | _ => none
  | .select_head pid => do
      let tx ← s.find pid
      match tx.call with
      | .locked c => do
          let u ← pg.uuid c.tenant_id
          some (s.put { tx with call := .headed c (SELECT_HEAD pg u (tx.sees pg s.committed)) })
      | _ => none
  | .insert pid seq => do
      let tx ← s.find pid
      let tx ← tx.insert pg s.nextval seq
      some { s.put tx with nextval := seq + 1 }
  | .abandon pid => do
      let tx ← s.find pid
      some (s.put { tx with call := .idle })
  | .commit pid => do
      let tx ← s.find pid
      some { s with committed := s.committed ++ tx.own, txs := s.others pid }
  | .rollback pid => do
      let _ ← s.find pid
      some { s with txs := s.others pid }

/-! ### What every state keeps -/

/-- The links of one tenant that a transaction would leave if it committed now. -/
def Tx.view (committed : List AuditEvent) (tx : Tx) (u : U) : List AuditEvent :=
  links_of pg u (committed ++ tx.own)

/-- A chain as the table holds it: in the order of `seq`, and intact. -/
structure Ordered (events : List AuditEvent) : Prop where
  sorted : events.Pairwise fun a b => a.at_seq < b.at_seq
  chained : Chained events

/-- An open transaction holds a lock for whatever it inserted or is about to, and read the head that its
    next link will follow. -/
structure Tx.Sound (committed : List AuditEvent) (tx : Tx) : Prop where
  own : ∀ e ∈ tx.own, e.tenant_id ∈ tx.locks
  locked : ∀ c, tx.call = .locked c → c.tenant_id ∈ tx.locks
  headed : ∀ c head, tx.call = .headed c head → c.tenant_id ∈ tx.locks
  view : ∀ u, Ordered (tx.view pg committed u)
  head : ∀ c head u, tx.call = .headed c head → pg.uuid c.tenant_id = some u →
    pg.uuid tx.scope = some u → head = last_digest (tx.view pg committed u)

/-- No tenant is locked by both. -/
def Apart (tx tx' : Tx) : Prop :=
  ∀ t ∈ tx.locks, ∀ t' ∈ tx'.locks, ∀ u, pg.uuid t = some u → pg.uuid t' ≠ some u

structure Inv (s : Chains) : Prop where
  apart : ∀ tx ∈ s.txs, ∀ tx' ∈ s.txs, tx.pid ≠ tx'.pid → Apart pg tx tx'
  below : ∀ e ∈ s.committed, e.at_seq < s.nextval
  own_below : ∀ tx ∈ s.txs, ∀ e ∈ tx.own, e.at_seq < s.nextval
  ordered : ∀ u, Ordered (links_of pg u s.committed)
  sound : ∀ tx ∈ s.txs, tx.Sound pg s.committed

/-- A transaction that locks a tenant shares its `hashtext` with whoever has that tenant locked. -/
def OneKey (s : Chains) : Stmt → Prop
  | .lock pid c => ∀ tx ∈ s.others pid, ∀ held ∈ tx.locks, pg.uuid held ≠ none →
      pg.uuid held = pg.uuid c.tenant_id → pg.hashtext held = pg.hashtext c.tenant_id
  | _ => True

instance (s : Chains) : (l : Stmt) → Decidable (OneKey pg s l)
  | .lock pid c => inferInstanceAs (Decidable (∀ tx ∈ s.others pid, ∀ held ∈ tx.locks,
      pg.uuid held ≠ none → pg.uuid held = pg.uuid c.tenant_id →
        pg.hashtext held = pg.hashtext c.tenant_id))
  | .begin .. | .select_head _ | .insert .. | .abandon _ | .commit _ | .rollback _ => isTrue trivial

variable {pg} {s s' : Chains} {tx : Tx} {pid : ℕ}

theorem find_some (h : s.find pid = some tx) : tx ∈ s.txs ∧ tx.pid = pid :=
  ⟨List.mem_of_find?_eq_some h, by simpa using List.find?_some h⟩

theorem mem_others {o : Tx} : o ∈ s.others pid ↔ o ∈ s.txs ∧ o.pid ≠ pid := by
  simp [Chains.others]

omit [DecidableEq U] in
theorem apart_symm {tx tx' : Tx} (h : Apart pg tx tx') : Apart pg tx' tx :=
  fun t ht t' ht' u hu hu' => h t' ht' t ht u hu' hu

/-- A transaction moves on, and the table stays as it is. -/
theorem inv_put (hi : Inv pg s) (hsound : tx.Sound pg s.committed)
    (hapart : ∀ o ∈ s.others tx.pid, Apart pg tx o) (hbelow : ∀ e ∈ tx.own, e.at_seq < s.nextval) :
    Inv pg (s.put tx) where
  below := hi.below
  ordered := hi.ordered
  apart := by
    intro a ha b hb hne
    rcases List.mem_cons.mp ha with rfl | ha
    · rcases List.mem_cons.mp hb with rfl | hb
      · exact absurd rfl hne
      · exact hapart b hb
    · rcases List.mem_cons.mp hb with rfl | hb
      · exact apart_symm (hapart a ha)
      · exact hi.apart a (mem_others.mp ha).1 b (mem_others.mp hb).1 hne
  own_below := by
    intro a ha
    rcases List.mem_cons.mp ha with rfl | ha
    · exact hbelow
    · exact hi.own_below a (mem_others.mp ha).1
  sound := by
    intro a ha
    rcases List.mem_cons.mp ha with rfl | ha
    · exact hsound
    · exact hi.sound a (mem_others.mp ha).1

/-- The others' locks, from the invariant. -/
theorem Inv.apart_others (hi : Inv pg s) (h : s.find pid = some tx) :
    ∀ o ∈ s.others pid, Apart pg tx o := by
  intro o ho
  obtain ⟨hmem, rfl⟩ := find_some h
  obtain ⟨ho, hne⟩ := mem_others.mp ho
  exact hi.apart tx hmem o ho hne.symm

theorem SELECT_CHAIN_of_sorted {u : U} {events : List AuditEvent}
    (h : Ordered (links_of pg u events)) : SELECT_CHAIN pg u events = links_of pg u events :=
  List.Pairwise.insertionSort_eq (h.sorted.imp Nat.le_of_lt)

theorem links_of_append (u : U) (xs ys : List AuditEvent) :
    links_of pg u (xs ++ ys) = links_of pg u xs ++ links_of pg u ys :=
  List.filter_append xs ys

theorem links_of_idem (u : U) (events : List AuditEvent) :
    links_of pg u (links_of pg u events) = links_of pg u events := by
  simp [links_of]

/-- CORRECT: the head a transaction reads is the last digest it would commit. -/
theorem select_head_eq {u : U} (h : tx.Sound pg s.committed) (hscope : pg.uuid tx.scope = some u) :
    SELECT_HEAD pg u (tx.sees pg s.committed) = last_digest (tx.view pg s.committed u) := by
  have hsees : tx.sees pg s.committed = tx.view pg s.committed u := by rw [Tx.sees, hscope]; rfl
  have hview : Ordered (links_of pg u (tx.view pg s.committed u)) := by
    rw [Tx.view, links_of_idem]
    exact h.view u
  rw [SELECT_HEAD, hsees, SELECT_CHAIN_of_sorted hview, Tx.view, links_of_idem]

theorem ordered_concat {events : List AuditEvent} {e : AuditEvent} (h : Ordered events)
    (hseq : ∀ a ∈ events, a.at_seq < e.at_seq)
    (hprev : e.prev_digest = (last_digest events).getD GENESIS)
    (hdigest : digest_for e.payload e.prev_digest = .ok e.digest) : Ordered (events ++ [e]) where
  sorted := by
    refine List.pairwise_append.mpr ⟨h.sorted, List.pairwise_singleton _ _, fun a ha b hb => ?_⟩
    rw [List.mem_singleton.mp hb]
    exact hseq a ha
  chained := by
    rw [Chained, List.map_append, List.map_singleton, intact_concat, head_links]
    exact ⟨h.chained, hprev, sound_iff.mpr hdigest⟩

theorem next_link_ok {tenant_id : TenantId} {trace_id : TraceId} {kind : AuditKind} {payload : Payload}
    {prev_digest : String} {created_at : Time} {link : AuditEvent}
    (h : next_link tenant_id trace_id kind payload prev_digest created_at = .ok link) :
    ∃ digest, digest_for payload prev_digest = .ok digest ∧
      link = { tenant_id, trace_id, kind, payload, prev_digest, digest, created_at } := by
  simp only [next_link, bind_ok, Except.ok.injEq] at h
  obtain ⟨digest, hdigest, rfl⟩ := h
  exact ⟨digest, hdigest, rfl⟩

/-- What an insert does: one link more, after the head that was read. -/
theorem insert_some {nextval seq : ℕ} {tx' : Tx} (h : tx.insert pg nextval seq = some tx') :
    ∃ c head link, tx.call = .headed c head ∧ pg.uuid c.tenant_id = pg.uuid tx.scope ∧ nextval ≤ seq ∧
      link.at_seq = seq ∧ link.tenant_id = c.tenant_id ∧ link.prev_digest = head.getD GENESIS ∧
      digest_for link.payload link.prev_digest = .ok link.digest ∧ (pg.uuid c.tenant_id).isSome ∧
      tx' = { tx with call := .idle, own := tx.own ++ [link] } := by
  unfold Tx.insert at h
  split at h
  · next c head hcall =>
      split at h
      · cases h
      · next link hlink =>
          obtain ⟨digest, hdigest, rfl⟩ := next_link_ok hlink
          split at h
          · next hok =>
              obtain ⟨huuid, hrow, hseq⟩ := hok
              refine ⟨c, head, _, hcall, huuid, hseq, rfl, rfl, rfl, hdigest, ?_, (Option.some.inj h).symm⟩
              cases hu : pg.uuid c.tenant_id with
              | none => simp [INSERT_AUDIT, hu] at hrow
              | some u => rfl
          · cases h
  · cases h

/-- CORRECT: an insert extends the chain the transaction would commit. -/
theorem sound_insert {seq : ℕ} {tx' : Tx} (hi : Inv pg s) (hmem : tx ∈ s.txs)
    (h : tx.insert pg s.nextval seq = some tx') :
    tx'.pid = tx.pid ∧ tx'.locks = tx.locks ∧ tx'.Sound pg s.committed ∧
      ∀ e ∈ tx'.own, e.at_seq < seq + 1 := by
  obtain ⟨c, head, link, hcall, huuid, hseq, hat, htenant, hprev, hdigest, hsome, rfl⟩ := insert_some h
  have hsound := hi.sound tx hmem
  obtain ⟨u, hu⟩ := Option.isSome_iff_exists.mp hsome
  have hhead := hsound.head c head u hcall hu (huuid ▸ hu)
  have hbelow : ∀ e ∈ s.committed ++ tx.own, e.at_seq < link.at_seq := by
    intro e he
    rw [hat]
    rcases List.mem_append.mp he with he | he
    · exact Nat.lt_of_lt_of_le (hi.below e he) hseq
    · exact Nat.lt_of_lt_of_le (hi.own_below tx hmem e he) hseq
  refine ⟨rfl, rfl, ⟨?_, by simp, by simp, ?_, by simp⟩, ?_⟩
  · intro e he
    rcases List.mem_append.mp he with he | he
    · exact hsound.own e he
    · rw [List.mem_singleton.mp he, htenant]
      exact hsound.headed c head hcall
  · intro v
    have hview : Tx.view pg s.committed { tx with call := .idle, own := tx.own ++ [link] } v =
        tx.view pg s.committed v ++ links_of pg v [link] := by
      rw [Tx.view, Tx.view, ← links_of_append, List.append_assoc]
    rw [hview]
    by_cases hv : pg.uuid link.tenant_id = some v
    · obtain rfl : u = v := by rw [htenant, hu] at hv; exact Option.some.inj hv
      rw [show links_of pg u [link] = [link] by simp [links_of, hv]]
      refine ordered_concat (hsound.view u) (fun a ha => hbelow a (List.mem_of_mem_filter ha)) ?_ hdigest
      rw [hprev, hhead]
    · rw [show links_of pg v [link] = [] by simp [links_of, hv], List.append_nil]
      exact hsound.view v
  · intro e he
    rcases List.mem_append.mp he with he | he
    · have := hi.own_below tx hmem e he
      omega
    · rw [List.mem_singleton.mp he, hat]
      omega

/-- Only one of two transactions that are apart has links of a tenant. -/
theorem apart_links {o : Tx} (h : Apart pg tx o) (htx : ∀ e ∈ tx.own, e.tenant_id ∈ tx.locks)
    (ho : ∀ e ∈ o.own, e.tenant_id ∈ o.locks) (u : U) :
    links_of pg u tx.own = [] ∨ links_of pg u o.own = [] := by
  by_contra hboth
  rw [not_or] at hboth
  obtain ⟨e, he⟩ := List.exists_mem_of_ne_nil _ hboth.1
  obtain ⟨e', he'⟩ := List.exists_mem_of_ne_nil _ hboth.2
  simp only [links_of, List.mem_filter, decide_eq_true_eq] at he he'
  exact h _ (htx e he.1) _ (ho e' he'.1) u he.2 he'.2

/-- CORRECT: a commit leaves what the other transactions would commit in order. -/
theorem sound_commit {o : Tx} (h : tx.Sound pg s.committed) (ho : o.Sound pg s.committed)
    (hapart : Apart pg tx o) : o.Sound pg (s.committed ++ tx.own) := by
  have hviews : ∀ u, o.view pg (s.committed ++ tx.own) u = o.view pg s.committed u ∧
      links_of pg u tx.own = [] ∨
      o.view pg (s.committed ++ tx.own) u = tx.view pg s.committed u ∧ links_of pg u o.own = [] := by
    intro u
    rcases apart_links hapart h.own ho.own u with hnil | hnil
    · exact .inl ⟨by simp only [Tx.view, links_of_append, hnil, List.append_nil], hnil⟩
    · exact .inr ⟨by simp only [Tx.view, links_of_append, hnil, List.append_nil], hnil⟩
  refine ⟨ho.own, ho.locked, ho.headed, fun u => ?_, fun c head u hcall hu hscope => ?_⟩
  · rcases hviews u with ⟨hview, -⟩ | ⟨hview, -⟩
    · rw [hview]; exact ho.view u
    · rw [hview]; exact h.view u
  · have hnil : links_of pg u tx.own = [] := by
      by_contra hne
      obtain ⟨e, he⟩ := List.exists_mem_of_ne_nil _ hne
      simp only [links_of, List.mem_filter, decide_eq_true_eq] at he
      exact hapart _ (h.own e he.1) _ (ho.headed c head hcall) u he.2 hu
    rw [ho.head c head u hcall hu hscope]
    simp only [Tx.view, links_of_append, hnil, List.append_nil]

/-! ### Steps and runs -/

theorem inv_init : Inv pg Chains.init where
  apart _ h := by cases h
  below _ h := by cases h
  own_below _ h := by cases h
  ordered _ := ⟨.nil, trivial⟩
  sound _ h := by cases h

/-- CORRECT: a statement keeps the invariant, if a lock is taken under the key its tenant is locked by. -/
theorem inv_step (s : Chains) (l : Stmt) (s' : Chains) (h : step pg s l = some s')
    (hkey : OneKey pg s l) (hi : Inv pg s) : Inv pg s' := by
  cases l with
  | begin pid scope =>
      simp only [step, Option.ite_none_right_eq_some, Option.some.injEq] at h
      obtain ⟨-, rfl⟩ := h
      refine inv_put hi ⟨by simp, by simp, by simp, fun u => ?_, by simp⟩ ?_ (by simp)
      · rw [Tx.view, List.append_nil]
        exact hi.ordered u
      · intro o _ t ht
        cases ht
  | lock pid c =>
      simp only [step, Option.bind_eq_bind, Option.bind_eq_some_iff] at h
      obtain ⟨tx, htx, h⟩ := h
      obtain ⟨hmem, rfl⟩ := find_some htx
      have hs := hi.sound tx hmem
      split at h
      · split at h
        · next hfree =>
            obtain rfl := Option.some.inj h
            refine inv_put hi ⟨fun e he => List.mem_cons_of_mem _ (hs.own e he), ?_, by simp, hs.view,
              by simp⟩ ?_ (hi.own_below tx hmem)
            · rintro c' hc'
              obtain rfl := Call.locked.inj hc'
              exact List.mem_cons_self
            · intro o ho t ht t' ht' u hu hu'
              rcases List.mem_cons.mp ht with rfl | ht
              · exact hfree o ho t' ht' (hkey o ho t' ht' (by simp [hu']) (hu'.trans hu.symm))
              · exact hi.apart_others htx o ho t ht t' ht' u hu hu'
        · cases h
      · cases h
  | select_head pid =>
      simp only [step, Option.bind_eq_bind, Option.bind_eq_some_iff] at h
      obtain ⟨tx, htx, h⟩ := h
      obtain ⟨hmem, rfl⟩ := find_some htx
      have hs := hi.sound tx hmem
      split at h
      · next c hcall =>
          obtain ⟨u, hu, h⟩ := Option.bind_eq_some_iff.mp h
          obtain rfl := Option.some.inj h
          refine inv_put hi ⟨hs.own, by simp, ?_, hs.view, ?_⟩
            (fun o ho => hi.apart_others htx o ho) (hi.own_below tx hmem)
          · rintro c' head hc'
            obtain ⟨rfl, -⟩ := Call.headed.inj hc'
            exact hs.locked c hcall
          · rintro c' head v hc' hv hscope
            obtain ⟨rfl, rfl⟩ := Call.headed.inj hc'
            obtain rfl := Option.some.inj (hu.symm.trans hv)
            exact select_head_eq hs hscope
      · cases h
  | insert pid seq =>
      simp only [step, Option.bind_eq_bind, Option.bind_eq_some_iff, Option.some.injEq] at h
      obtain ⟨tx, htx, tx', hinsert, rfl⟩ := h
      obtain ⟨hmem, rfl⟩ := find_some htx
      obtain ⟨hpid, hlocks, hsound, hbelow⟩ := sound_insert hi hmem hinsert
      obtain ⟨-, -, -, -, -, hseq, -⟩ := insert_some hinsert
      have hraised : Inv pg { s with nextval := seq + 1 } :=
        { apart := hi.apart
          ordered := hi.ordered
          sound := hi.sound
          below := fun e he => Nat.lt_of_lt_of_le (hi.below e he) (Nat.le_succ_of_le hseq)
          own_below := fun o ho e he =>
            Nat.lt_of_lt_of_le (hi.own_below o ho e he) (Nat.le_succ_of_le hseq) }
      refine inv_put hraised hsound (fun o ho => ?_) hbelow
      have hother := hi.apart_others htx o (hpid ▸ ho)
      intro t ht
      exact hother t (hlocks ▸ ht)
  | abandon pid =>
      simp only [step, Option.bind_eq_bind, Option.bind_eq_some_iff, Option.some.injEq] at h
      obtain ⟨tx, htx, rfl⟩ := h
      obtain ⟨hmem, rfl⟩ := find_some htx
      have hs := hi.sound tx hmem
      exact inv_put hi ⟨hs.own, by simp, by simp, hs.view, by simp⟩
        (fun o ho => hi.apart_others htx o ho) (hi.own_below tx hmem)
  | commit pid =>
      simp only [step, Option.bind_eq_bind, Option.bind_eq_some_iff, Option.some.injEq] at h
      obtain ⟨tx, htx, rfl⟩ := h
      obtain ⟨hmem, rfl⟩ := find_some htx
      have hs := hi.sound tx hmem
      refine ⟨fun a ha b hb => hi.apart a (mem_others.mp ha).1 b (mem_others.mp hb).1, fun e he => ?_,
        fun a ha => hi.own_below a (mem_others.mp ha).1, hs.view, fun o ho => ?_⟩
      · rcases List.mem_append.mp he with he | he
        · exact hi.below e he
        · exact hi.own_below tx hmem e he
      · exact sound_commit hs (hi.sound o (mem_others.mp ho).1) (hi.apart_others htx o ho)
  | rollback pid =>
      simp only [step, Option.bind_eq_bind, Option.bind_eq_some_iff, Option.some.injEq] at h
      obtain ⟨tx, -, rfl⟩ := h
      exact ⟨fun a ha b hb => hi.apart a (mem_others.mp ha).1 b (mem_others.mp hb).1, hi.below,
        fun a ha => hi.own_below a (mem_others.mp ha).1, hi.ordered,
        fun o ho => hi.sound o (mem_others.mp ho).1⟩

/-- A tenant's committed links, in the order of `seq`, do not fork. -/
structure Unforked (pg : Postgres U) (events : List AuditEvent) : Prop where
  verified : Verified events
  genesis : ∀ e ∈ events.head?, e.prev_digest = GENESIS
  linear : CollisionFree events events → (∀ e ∈ events, e.digest ≠ GENESIS) →
    (events.map AuditEvent.prev_digest).Nodup
  stored : ∀ rows, List.Forall₂ (Inserted pg) events rows → (∀ e ∈ events, Survives e.payload) →
    Verified (rows.map (event_from_row pg))

omit [DecidableEq U] in
theorem unforked {events : List AuditEvent} (h : Chained events) : Unforked pg events where
  verified := verified_iff.mpr h
  genesis := by
    intro e he
    cases events with
    | nil => cases he
    | cons a es =>
        obtain rfl : a = e := Option.some.inj he
        exact h.1.1
  linear := by
    intro hfree hgenesis
    rw [List.nodup_iff_getElem?_ne_getElem?]
    intro i j hij hj heq
    rw [List.length_map] at hj
    rw [List.getElem?_map, List.getElem?_map, List.getElem?_eq_getElem (hij.trans hj),
      List.getElem?_eq_getElem hj] at heq
    have hlink : ∀ {k : ℕ} (hk : k < events.length),
        (events.map AuditEvent.link)[k]? = some events[k].link := by
      intro k hk
      rw [List.getElem?_map, List.getElem?_eq_getElem hk]
      rfl
    refine absurd (prev_inj h (chained_tells h h hfree) ?_ (hlink (hij.trans hj)) (hlink hj)
      (Option.some.inj heq)) (Nat.ne_of_lt hij)
    intro l hl
    obtain ⟨e, he, rfl⟩ := List.mem_map.mp hl
    exact hgenesis e he
  stored rows hrows hs := verified_read_back (verified_iff.mpr h) hrows hs

/-- CORRECT: after every statement of a run whose locks share their tenant's key, no tenant's chain has
    forked. -/
theorem never_forks (pg : Postgres U) {ls : List Stmt}
    (hkeys : Along (step pg) (OneKey pg) Chains.init ls) :
    Always (step pg) (fun s => ∀ u, Unforked pg (SELECT_CHAIN pg u s.committed)) Chains.init ls := by
  refine (always_of_along (fun s l s' h hq hi => inv_step s l s' h hq hi) hkeys inv_init).mono ?_
  intro s hi u
  rw [SELECT_CHAIN_of_sorted (hi.ordered u)]
  exact unforked (hi.ordered u).chained

/-! ### One tenant, spelled two ways -/

section Spellings

variable {a b : TenantId} {u : U} {digest : String}

def append_empty (tenant_id : TenantId) : Append :=
  { tenant_id, trace_id := "r", kind := .DECISION, payload := empty_payload, created_at := 0 }

/-- Two spellings: both transactions read the head before either inserts. -/
def two_spellings (a b : TenantId) : List Stmt :=
  [.begin 1 a, .begin 2 b, .lock 1 (append_empty a), .select_head 1, .lock 2 (append_empty b),
    .select_head 2, .insert 1 1, .insert 2 2, .commit 1, .commit 2]

/-- A link over `{}` that follows nothing. -/
def first_link (digest : String) (tenant_id : TenantId) (seq : ℕ) : AuditEvent :=
  { empty_link .DECISION GENESIS digest with tenant_id, seq := some seq }

/-- An insert after an empty chain. -/
theorem insert_first (hdigest : digest_for empty_payload GENESIS = .ok digest) {pid nextval seq : ℕ}
    {locks : List TenantId} (ha : pg.uuid a = some u) (hseq : nextval ≤ seq) :
    Tx.insert pg { pid, scope := a, locks, call := .headed (append_empty a) none } nextval seq =
      some { pid, scope := a, locks, own := [first_link digest a seq] } := by
  have hbytes : ∀ {digest : String}, IsDigest digest → (Sha256.fromhex digest.toList).isSome := by
    rintro digest ⟨bs, -, rfl⟩
    rw [fromhex_hexdigest]
    rfl
  obtain ⟨bs, hbs⟩ := Option.isSome_iff_exists.mp (hbytes isDigest_genesis)
  obtain ⟨ds, hds⟩ := Option.isSome_iff_exists.mp (hbytes (digest_for_isDigest hdigest))
  have hlink : next_link a "r" .DECISION empty_payload GENESIS 0 =
      .ok { empty_link .DECISION GENESIS digest with tenant_id := a } := by
    rw [next_link, hdigest]
    rfl
  have hrow : (INSERT_AUDIT pg { empty_link .DECISION GENESIS digest with tenant_id := a } seq).isSome := by
    simp only [INSERT_AUDIT, ha, empty_link, hds, hbs]
    rfl
  simp only [Tx.insert, append_empty, Option.getD_none, hlink, hrow, hseq, and_self, if_true]
  rfl

theorem run_two_spellings (ha : pg.uuid a = some u) (hb : pg.uuid b = some u)
    (hne : pg.hashtext a ≠ pg.hashtext b) (hdigest : digest_for empty_payload GENESIS = .ok digest) :
    run (step pg) Chains.init (two_spellings a b) =
      some { committed := [first_link digest a 1, first_link digest b 2], nextval := 3 } := by
  have hfirst : Tx.insert pg
      { pid := 1, scope := a, locks := [a], call := .headed (append_empty a) none } 1 1 =
        some { pid := 1, scope := a, locks := [a], own := [first_link digest a 1] } :=
    insert_first hdigest ha le_rfl
  have hsecond : Tx.insert pg
      { pid := 2, scope := b, locks := [b], call := .headed (append_empty b) none } 2 2 =
        some { pid := 2, scope := b, locks := [b], own := [first_link digest b 2] } :=
    insert_first hdigest hb le_rfl
  simp [two_spellings, run, step, Chains.init, Chains.find, Chains.put, Chains.others, Chains.free,
    SELECT_HEAD, SELECT_CHAIN, Tx.sees, ha, hb, hne, links_of, last_digest,
    show ∀ t, (append_empty t).tenant_id = t from fun _ => rfl, hfirst, hsecond]

/-- Two spellings of one id that are locked under different keys fork its chain. -/
theorem spellings_fork (ha : pg.uuid a = some u) (hb : pg.uuid b = some u)
    (hne : pg.hashtext a ≠ pg.hashtext b) :
    ¬ Always (step pg) (fun s => ∀ u, Verified (SELECT_CHAIN pg u s.committed)) Chains.init
      (two_spellings a b) := by
  intro hall
  have hdiffer := empty_digests_differ.1
  have hdigest := digest_for_empty isDigest_genesis
  generalize empty_digest GENESIS = digest at hdiffer hdigest
  have hverified := hall.last (run_two_spellings ha hb hne hdigest) u
  have hchain : SELECT_CHAIN pg u [first_link digest a 1, first_link digest b 2] =
      [first_link digest a 1, first_link digest b 2] := by
    simp [SELECT_CHAIN, links_of, first_link, ha, hb, AuditEvent.at_seq]
  rw [hchain, verified_iff] at hverified
  exact hdiffer hverified.2.1.1

end Spellings

/-- `::uuid`: sixteen bytes in hexadecimal of either case, hyphens skipped. -/
def uuid_in (text : TenantId) : Option (List UInt8) :=
  (Sha256.fromhex (text.toList.filter (· ≠ '-'))).filter fun bs => bs.length = 16

/-- The text of a `UUID`. -/
def uuid_out (bs : List UInt8) : TenantId :=
  "-".intercalate ([(0, 4), (4, 2), (6, 2), (8, 2), (10, 6)].map fun p =>
    hexdigest ((bs.drop p.1).take p.2))

def driver (hashtext : TenantId → ℤ) : Postgres (List UInt8) where
  uuid := uuid_in
  str := uuid_out
  hashtext

def upper : TenantId := "AAAAAAAA-AAAA-4AAA-8AAA-AAAAAAAAAAAA"

def lower : TenantId := "aaaaaaaa-aaaa-4aaa-8aaa-aaaaaaaaaaaa"

/-- Whatever hash tells two spellings of one id apart, a run forks the chain of that id. -/
theorem two_spellings_fork : ¬ ∃ hashtext : TenantId → ℤ, hashtext upper ≠ hashtext lower ∧
    ∀ ls, Always (step (driver hashtext))
      (fun s => ∀ u, Verified (SELECT_CHAIN (driver hashtext) u s.committed)) Chains.init ls := by
  rintro ⟨hashtext, hne, hall⟩
  have hspell : uuid_in upper = uuid_in lower ∧ (uuid_in upper).isSome := by decide +kernel
  obtain ⟨u, hu⟩ := Option.isSome_iff_exists.mp hspell.2
  have hupper : (driver hashtext).uuid upper = some u := hu
  have hlower : (driver hashtext).uuid lower = some u := hspell.1.symm.trans hu
  exact spellings_fork hupper hlower hne (hall (two_spellings upper lower))

/-- Two transactions of one spelling: the second appends when the first has rolled back. -/
def one_spelling : List Stmt :=
  [.begin 1 lower, .begin 2 lower, .lock 1 (append_empty lower), .select_head 1, .rollback 1,
    .lock 2 (append_empty lower), .select_head 2, .insert 2 1, .commit 2]

theorem never_forks_one_spelling :
    Always (step (driver fun text => text.length)) (fun s => ∀ u, Unforked (driver fun text => text.length)
      (SELECT_CHAIN (driver fun text => text.length) u s.committed)) Chains.init one_spelling :=
  never_forks _ (by decide +kernel)

end GuardMem.Audit
