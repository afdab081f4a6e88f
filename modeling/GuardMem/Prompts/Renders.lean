import GuardMem.Lib.Urllib
import GuardMem.Prompts.Loader

/-! Renders in one process: `prompts/loader.py`.

    The loader keeps what it loaded for the life of the process, so a file that is edited under it is not
    read again. CORRECT: a rendered text is its template with each placeholder replaced by the value
    supplied for it, read once (`render_reading`); and over any run of renders and edits the
    `version_id` of a render settles the prompt it was made from (`renders_run`). -/

namespace GuardMem.Prompts

open Lib.Lines Lib.Template Lib.Urllib

variable {py : Builtins} {root : String} {files : Files} {name : String} {version : ℤ} {spec : PromptSpec}
  {body : List Char} {«variables» : List (String × List Char)} {r : RenderedPrompt}

/-! ### The placeholders -/

/-- How a placeholder is written: its name between two pairs of braces, blanks beside it or not. -/
def Written (name : String) (written : List Char) : Prop :=
  ∃ c rest before after, name.toList = c :: rest ∧ begins_name c = true ∧ (∀ d ∈ rest, in_name d = true) ∧
    (∀ d ∈ before, isspace d = true) ∧ (∀ d ∈ after, isspace d = true) ∧
    written = '{' :: '{' :: (before ++ name.toList ++ after ++ ['}', '}'])

theorem blank_not_named {c : Char} (h : isspace c = true) : in_name c = false := by
  have hsmall : c.toNat ≤ 32 ∨ 122 < c.toNat := by
    simp only [isspace, Bool.or_eq_true, Bool.and_eq_true, decide_eq_true_eq, beq_iff_eq] at h
    omega
  refine Bool.eq_false_iff.mpr fun hname => ?_
  simp only [in_name, begins_name, Char.isDigit, Bool.or_eq_true, Bool.and_eq_true, decide_eq_true_eq,
    beq_iff_eq, Char.le_def, UInt32.le_iff_toNat_le] at hname
  rcases hname with (⟨hlo, hhi⟩ | rfl) | ⟨hlo, hhi⟩
  · change 97 ≤ c.toNat at hlo
    change c.toNat ≤ 122 at hhi
    omega
  · change (95 : ℕ) ≤ 32 ∨ 122 < 95 at hsmall
    omega
  · change 48 ≤ c.toNat at hlo
    change c.toNat ≤ 57 at hhi
    omega

/-- What the pattern finds at the head of a text is written there. -/
theorem placeholder_written {cs : List Char} {x : String} {n : ℕ} (h : PLACEHOLDER cs = some (x, n)) :
    ∃ written rest, cs = written ++ rest ∧ written.length = n ∧ Written x written := by
  unfold PLACEHOLDER at h
  split at h
  · next cs =>
      dsimp only at h
      split at h
      · next c rest hhead hafter =>
          split at h
          · next hbegins =>
              obtain ⟨rfl, rfl⟩ := Prod.mk.inj (Option.some.inj h)
              obtain ⟨tail, htail⟩ := List.head?_eq_some_iff.mp hhead
              have hnamed : (cs.dropWhile isspace).takeWhile in_name = c :: tail.takeWhile in_name := by
                rw [htail, List.takeWhile_cons_of_pos (by simp [in_name, hbegins])]
              have hcs : cs = cs.takeWhile isspace ++ (cs.dropWhile isspace).takeWhile in_name ++
                  ((cs.dropWhile isspace).dropWhile in_name).takeWhile isspace ++ ['}', '}'] ++ rest := by
                rw [List.append_assoc, List.append_assoc, List.append_assoc, List.cons_append,
                  List.cons_append, List.nil_append, ← hafter, List.takeWhile_append_dropWhile,
                  List.takeWhile_append_dropWhile, List.takeWhile_append_dropWhile]
              refine ⟨'{' :: '{' :: (cs.takeWhile isspace ++ (cs.dropWhile isspace).takeWhile in_name ++
                ((cs.dropWhile isspace).dropWhile in_name).takeWhile isspace ++ ['}', '}']), rest, ?_, ?_, c,
                tail.takeWhile in_name, cs.takeWhile isspace,
                ((cs.dropWhile isspace).dropWhile in_name).takeWhile isspace, ?_, hbegins,
                fun d => List.mem_takeWhile_imp, fun d => List.mem_takeWhile_imp,
                fun d => List.mem_takeWhile_imp, ?_⟩
              · rw [List.cons_append, List.cons_append, ← hcs]
              · have hlength := congrArg List.length hcs
                simp only [List.length_append, List.length_cons] at hlength ⊢
                omega
              · rw [String.toList_ofList, hnamed]
              · rw [String.toList_ofList]
          · cases h
      · cases h
  · cases h

/-- And what is written there it finds. -/
theorem written_placeholder {x : String} {written : List Char} (rest : List Char) (h : Written x written) :
    PLACEHOLDER (written ++ rest) = some (x, written.length) := by
  obtain ⟨c, tail, before, after, hname, hbegins, htail, hbefore, hafter, rfl⟩ := h
  have hc : in_name c = true := by simp [in_name, hbegins]
  have hcblank : isspace c = false := by
    refine Bool.eq_false_iff.mpr fun hblank => ?_
    rw [blank_not_named hblank] at hc
    cases hc
  have hall : ∀ d ∈ c :: tail, in_name d = true := List.forall_mem_cons.mpr ⟨hc, htail⟩
  have hnamed : (before ++ (c :: tail ++ (after ++ '}' :: '}' :: rest))).dropWhile isspace =
      c :: tail ++ (after ++ '}' :: '}' :: rest) := by
    rw [List.dropWhile_append_of_pos hbefore, List.cons_append, List.dropWhile_cons_of_neg (by simp [hcblank])]
  -- behind the name stands a blank or a brace, neither of which continues it
  have hstop : (after ++ '}' :: '}' :: rest).takeWhile in_name = [] ∧
      (after ++ '}' :: '}' :: rest).dropWhile in_name = after ++ '}' :: '}' :: rest := by
    cases after with
    | nil => exact ⟨rfl, rfl⟩
    | cons d after =>
        have hd := blank_not_named (hafter d List.mem_cons_self)
        exact ⟨by simp [hd], by simp [hd]⟩
  have hclosed : (after ++ '}' :: '}' :: rest).dropWhile isspace = '}' :: '}' :: rest := by
    rw [List.dropWhile_append_of_pos hafter]
    rfl
  have htext : before ++ x.toList ++ after ++ ['}', '}'] ++ rest =
      before ++ (c :: tail ++ (after ++ '}' :: '}' :: rest)) := by
    simp [hname]
  have hlength : before.length + x.toList.length + after.length + 2 + rest.length =
      (before ++ (c :: tail ++ (after ++ '}' :: '}' :: rest))).length := by
    rw [← htext]
    simp only [List.length_append, List.length_cons, List.length_nil]
  rw [List.cons_append, List.cons_append, htext, PLACEHOLDER, hnamed, List.takeWhile_append_of_pos hall,
    List.dropWhile_append_of_pos hall, hstop.1, hstop.2, hclosed, List.append_nil, ← hname,
    String.ofList_toList]
  simp only [hname, List.cons_append, List.head?_cons, hbegins, if_true]
  congr 2
  simp only [List.length_append, List.length_cons, List.length_nil] at hlength ⊢
  omega

theorem placeholder_pos (cs : List Char) (x : String) (n : ℕ) (h : PLACEHOLDER cs = some (x, n)) : 0 < n := by
  obtain ⟨_, _, _, rfl, _, _, _, _, _, _, _, _, _, rfl⟩ := placeholder_written h
  exact Nat.succ_pos _

theorem rendered_ok {loaded : PromptSpec × List Char} : rendered py name version «variables» loaded = .ok r ↔
    (∀ x, x ∈ names PLACEHOLDER loaded.2 ↔ x ∈ «variables».map Prod.fst) ∧
      r = ⟨loaded.1, substitute PLACEHOLDER (fun x => («variables».lookup x).getD []) loaded.2,
        name ++ "@v" ++ toString version⟩ := by
  unfold rendered
  dsimp only
  split
  · next hsame =>
      have hiff : ∀ x, x ∈ names PLACEHOLDER loaded.2 ↔ x ∈ «variables».map Prod.fst :=
        fun x => ⟨hsame.1 x, hsame.2 x⟩
      exact ⟨fun h => ⟨hiff, (Except.ok.inj h).symm⟩, fun h => congrArg Except.ok h.2.symm⟩
  · next hdiffer =>
      refine ⟨(fun h => by cases h), fun h => absurd ?_ hdiffer⟩
      exact ⟨fun x hx => (h.1 x).mp hx, fun x hx => (h.1 x).mpr hx⟩

theorem bind_ok {α β : Type} {x : Except Raised α} {f : α → Except Raised β} {b : β} :
    (x >>= f) = .ok b ↔ ∃ a, x = .ok a ∧ f a = .ok b := by
  cases x with
  | error e => simp [bind, Except.bind]
  | ok a => simp [bind, Except.bind]

/-- CORRECT: what is rendered is the body cut into characters and placeholders, each placeholder as it is
    written and none written from where a character is left on, with the value supplied for it in each
    placeholder's place; and the values are those of the placeholders there are. -/
theorem render_reading (h : render py root files name version «variables» = .ok r) :
    ∃ body, ∃ pieces : List (Piece Char String), load py root files name version = .ok (r.spec, body) ∧
      pieces.flatMap Piece.raw = body ∧
      (∀ x written, .hole x written ∈ pieces → Written x written) ∧
      (∀ front c back, pieces = front ++ .char c :: back → ∀ x written rest, Written x written →
        c :: back.flatMap Piece.raw ≠ written ++ rest) ∧
      (∀ x, x ∈ «variables».map Prod.fst ↔ ∃ p ∈ pieces, p.name? = some x) ∧
      r.text = pieces.flatMap (Piece.fill fun x => («variables».lookup x).getD []) := by
  obtain ⟨⟨spec, body⟩, hload, hrendered⟩ := bind_ok.mp h
  obtain ⟨hnames, rfl⟩ := rendered_ok.mp hrendered
  refine ⟨body, scan PLACEHOLDER 0 body, hload, raw_scan placeholder_pos, fun x written hmem => ?_,
    fun front c back hpieces x written rest hwritten htext => ?_, fun x => ?_, rfl⟩
  · obtain ⟨front, back, hpieces⟩ := List.append_of_mem hmem
    obtain ⟨n, hfound, htake⟩ := reads_scan placeholder_pos hpieces
    obtain ⟨found, rest, htext, rfl, hspelled⟩ := placeholder_written hfound
    rw [htake, htext, List.take_left]
    exact hspelled
  · have hfree : PLACEHOLDER (c :: back.flatMap Piece.raw) = none := reads_scan placeholder_pos hpieces
    rw [htext, written_placeholder rest hwritten] at hfree
    cases hfree
  · rw [← hnames x, names, List.mem_filterMap]

/-! ### What a loaded prompt is called -/

/-- No break. -/
def Free (text : List Char) : Prop := ∀ c ∈ text, breaks c = false

theorem Free.of_subset {text text' : List Char} (h : Free text) (hsub : text' ⊆ text) : Free text' :=
  fun c hc => h c (hsub hc)

theorem unquote_subset {value : List Char} : unquote value ⊆ value := by
  unfold unquote
  split
  · exact fun c hc => List.mem_of_mem_tail (List.mem_of_mem_dropLast hc)
  · exact fun c hc => hc

theorem strip_subset {text : List Char} : strip isspace text ⊆ text := fun _ hc =>
  (List.dropWhile_suffix _).subset ((List.rdropWhile_prefix _ _).subset hc)

theorem frontmatter_line_subset {line key value : List Char} (h : FRONTMATTER_LINE line = some (key, value)) :
    value ⊆ line := by
  unfold FRONTMATTER_LINE at h
  split at h
  · next c rest _ hrest =>
      split at h
      · obtain ⟨-, rfl⟩ := Prod.mk.inj (Option.some.inj h)
        intro d hd
        have hmem : d ∈ line.dropWhile in_name := by
          rw [hrest]
          exact List.mem_cons_of_mem _ ((List.dropWhile_suffix _).subset (strip_subset hd))
        exact (List.dropWhile_suffix _).subset hmem
      · cases h
  · cases h

/-- No value of the block holds a break. -/
theorem parse_lines_free {source : String} : ∀ {ls : List (List Char)} {fields fields' : List (String × String)},
    parse_lines py source ls fields = .ok fields' → (∀ l ∈ ls, Free l) → (∀ f ∈ fields, Free f.2.toList) →
      ∀ f ∈ fields', Free f.2.toList
  | [], fields, fields', h, _, hfields => by
      obtain rfl := Except.ok.inj h
      exact hfields
  | l :: ls, fields, fields', h, hls, hfields => by
      obtain ⟨hl, hls⟩ := List.forall_mem_cons.mp hls
      rw [parse_lines] at h
      split at h
      · exact parse_lines_free h hls hfields
      · split at h
        · cases h
        · next key value hline =>
            split at h
            · cases h
            · refine parse_lines_free h hls fun f hf => ?_
              rcases List.mem_append.mp hf with hf | hf
              · exact hfields f hf
              · obtain rfl := List.mem_singleton.mp hf
                rw [String.toList_ofList]
                exact hl.of_subset fun c hc => frontmatter_line_subset hline (unquote_subset hc)

theorem model_validate_name {fields : List (String × String)} {v : Option ℕ}
    (h : model_validate fields v = .ok spec) : fields.lookup "name" = some spec.name := by
  unfold model_validate at h
  split at h
  · next _ _ _ _ _ hname _ _ _ =>
      split at h
      · split at h
        · split at h
          · split at h
            · split at h
              · cases h
              · obtain rfl := Except.ok.inj h
                exact hname
            · cases h
          · cases h
        · cases h
      · cases h
  all_goals cases h

theorem segment_of_free {text : List Char} (h : PROMPT_NAME text = true) (hfree : Free text) :
    segment text = true := by
  rw [PROMPT_NAME, Bool.or_eq_true, Bool.and_eq_true, beq_iff_eq] at h
  rcases h with h | ⟨hlast, -⟩
  · exact h
  · -- the newline that `$` lets pass is no character of a name in the file
    have hbreak := hfree '\n' (List.mem_of_getLast? hlast)
    cases hbreak

/-- What a loaded prompt is called: its directory is one lowercase path segment, and its frontmatter says
    where it was found. -/
theorem load_ok (h : load py root files name version = .ok (spec, body)) :
    spec.name = name ∧ (spec.version : ℤ) = version ∧ segment name.toList = true := by
  unfold load at h
  split at h
  · cases h
  · next hpattern =>
      split at h
      · cases h
      · dsimp only at h
        split at h
        · cases h
        · next text hfile =>
            obtain ⟨⟨block, rest⟩, hsplit, h⟩ := bind_ok.mp h
            obtain ⟨fields, hparse, h⟩ := bind_ok.mp h
            obtain ⟨found, hspec, h⟩ := bind_ok.mp h
            split at h
            · cases h
            · next hsame =>
                rw [not_or, not_not, not_not] at hsame
                split at h
                · cases h
                · obtain ⟨rfl, rfl⟩ := Prod.mk.inj (Except.ok.inj h)
                  refine ⟨hsame.1, hsame.2, segment_of_free (Bool.not_eq_false _ ▸ hpattern) ?_⟩
                  obtain ⟨v, -, hvalid⟩ := bind_ok.mp hspec
                  obtain ⟨front, back, rfl, -⟩ := List.lookup_eq_some_iff.mp (model_validate_name hvalid)
                  rw [← hsame.1]
                  exact parse_lines_free hparse free_lines (fun f hf => by cases hf) ("name", found.name) (by simp)

/-! ### One process -/

/-- A render that was asked for, and what it came to. -/
structure Entry where
  name : String
  version : ℤ
  «variables» : List (String × List Char)
  result : Except Raised RenderedPrompt

/-- A process: the files it sees, what `cache` holds of the loads so far, and the renders so far. -/
structure Process where
  files : Files
  cache : List ((String × ℤ) × (PromptSpec × List Char))
  log : List Entry

inductive Event where
  | edit (path : String) (content : Option (List Char))
  | render (name : String) (version : ℤ) («variables» : List (String × List Char))

variable (py root) in
/-- `_load` under `functools.cache`, which keeps what was returned and nothing that was raised. -/
def cached_load (p : Process) (name : String) (version : ℤ) : Except Raised (PromptSpec × List Char) × Process :=
  match p.cache.lookup (name, version) with
  | some loaded => (.ok loaded, p)
  | none =>
      match load py root p.files name version with
      | .ok loaded => (.ok loaded, { p with cache := ((name, version), loaded) :: p.cache })
      | .error e => (.error e, p)

variable (py root) in
def Process.step (p : Process) : Event → Process
  | .edit path content => { p with files := fun path' => if path' = path then content else p.files path' }
  | .render name version «variables» =>
      let (loaded, p') := cached_load py root p name version
      { p' with log := p.log ++ [⟨name, version, «variables»,
          do rendered py name version «variables» (← loaded)⟩] }

/-- What is in the cache was loaded under its name, and every render was made of what is in the cache. -/
structure Remembered (py : Builtins) (p : Process) : Prop where
  cached : ∀ name version loaded, p.cache.lookup (name, version) = some loaded →
    loaded.1.name = name ∧ (loaded.1.version : ℤ) = version ∧ segment name.toList = true
  made : ∀ e ∈ p.log, ∀ r, e.result = .ok r → ∃ loaded, p.cache.lookup (e.name, e.version) = some loaded ∧
    rendered py e.name e.version e.variables loaded = .ok r

/-- A load gives what is in the cache from then on, and leaves in it what was there. -/
theorem cached_load_spec {p : Process} (h : Remembered py p) {name : String} {version : ℤ} :
    Remembered py (cached_load py root p name version).2 ∧
      (cached_load py root p name version).2.log = p.log ∧
      ∀ loaded, (cached_load py root p name version).1 = .ok loaded →
        (cached_load py root p name version).2.cache.lookup (name, version) = some loaded := by
  unfold cached_load
  split
  · next loaded hcached =>
      exact ⟨h, rfl, fun found hfound => by rw [← Except.ok.inj hfound]; exact hcached⟩
  · next habsent =>
      split
      · next loaded hload =>
          have hkept : ∀ key found, p.cache.lookup key = some found →
              (((name, version), loaded) :: p.cache).lookup key = some found := by
            intro key found hfound
            rw [List.lookup_cons, beq_false_of_ne]
            · exact hfound
            · rintro rfl
              rw [habsent] at hfound
              cases hfound
          refine ⟨⟨fun x v found hfound => ?_, fun e he r hr => ?_⟩, rfl, fun found hfound => ?_⟩
          · rw [List.lookup_cons] at hfound
            split at hfound
            · next hkey =>
                obtain rfl := Option.some.inj hfound
                obtain ⟨rfl, rfl⟩ := Prod.mk.inj (eq_of_beq hkey)
                exact load_ok hload
            · exact h.cached x v found hfound
          · obtain ⟨found, hfound, hmade⟩ := h.made e he r hr
            exact ⟨found, hkept _ _ hfound, hmade⟩
          · rw [List.lookup_cons, beq_self_eq_true, Except.ok.inj hfound]
      · exact ⟨h, rfl, fun found hfound => by cases hfound⟩

theorem remembered_step {p : Process} (h : Remembered py p) {e : Event} : Remembered py (p.step py root e) := by
  cases e with
  | edit path content => exact ⟨h.cached, h.made⟩
  | render name version vars =>
      obtain ⟨hkept, hlog, hloaded⟩ := @cached_load_spec py root p h name version
      refine ⟨hkept.cached, fun e he r hr => ?_⟩
      rcases List.mem_append.mp he with he | he
      · exact hkept.made e (hlog ▸ he) r hr
      · obtain rfl := List.mem_singleton.mp he
        obtain ⟨loaded, hfound, hmade⟩ := bind_ok.mp hr
        exact ⟨loaded, hloaded loaded hfound, hmade⟩

theorem remembered_run {p : Process} (h : Remembered py p) : ∀ {es : List Event},
    Remembered py (es.foldl (Process.step py root) p) := by
  intro es
  induction es generalizing p with
  | nil => exact h
  | cons e es ih => exact ih (remembered_step h)

/-- The `version_id` of two accepted prompts tells them apart. -/
theorem version_id_inj {name name' : String} {v v' : ℕ} (h : segment name.toList = true)
    (h' : segment name'.toList = true)
    (heq : name ++ "@v" ++ toString (v : ℤ) = name' ++ "@v" ++ toString (v' : ℤ)) : name = name' ∧ v = v' := by
  have hsign : ∀ {text : String}, segment text.toList = true → '@' ∉ text.toList := by
    intro text htext hmem
    rw [segment, Bool.and_eq_true, List.all_eq_true] at htext
    cases htext.2 '@' hmem
  have hlist := congrArg String.toList heq
  have hdigits : ∀ n : ℕ, (toString (n : ℤ)).toList = Nat.toDigits 10 n := fun n => String.toList_ofList
  rw [String.toList_append, String.toList_append, String.toList_append, String.toList_append, hdigits, hdigits,
    List.append_assoc, List.append_assoc] at hlist
  change name.toList ++ '@' :: 'v' :: _ = name'.toList ++ '@' :: 'v' :: _ at hlist
  have hname := congrArg (List.takeWhile (· != '@')) hlist
  rw [takeWhile_append_sep (hsign h), takeWhile_append_sep (hsign h')] at hname
  refine ⟨String.toList_injective hname, Lib.Numeral.toDigits_inj ?_⟩
  rw [hname] at hlist
  exact (List.cons.inj (List.cons.inj (List.append_cancel_left hlist)).2).2

/-- CORRECT: in one process, whatever happens to the prompt files, two renders with the same `version_id`
    come of one prompt: their frontmatter is the same, and their texts are of one body, filled in. -/
theorem renders_run {es : List Event} {e e' : Entry} {r r' : RenderedPrompt}
    (he : e ∈ (es.foldl (Process.step py root) ⟨files, [], []⟩).log)
    (he' : e' ∈ (es.foldl (Process.step py root) ⟨files, [], []⟩).log)
    (hr : e.result = .ok r) (hr' : e'.result = .ok r') (hid : r.version_id = r'.version_id) :
    e.name = e'.name ∧ e.version = e'.version ∧ r.spec = r'.spec ∧ ∃ body,
      r.text = substitute PLACEHOLDER (fun x => (e.variables.lookup x).getD []) body ∧
        r'.text = substitute PLACEHOLDER (fun x => (e'.variables.lookup x).getD []) body := by
  have hinit : Remembered py ⟨files, [], []⟩ := ⟨(fun _ _ _ h => by cases h), fun _ h => by cases h⟩
  have hrun : Remembered py (es.foldl (Process.step py root) ⟨files, [], []⟩) := remembered_run hinit
  obtain ⟨loaded, hcached, hmade⟩ := hrun.made e he r hr
  obtain ⟨loaded', hcached', hmade'⟩ := hrun.made e' he' r' hr'
  obtain ⟨-, rfl⟩ := rendered_ok.mp hmade
  obtain ⟨-, rfl⟩ := rendered_ok.mp hmade'
  obtain ⟨-, hversion, hsegment⟩ := hrun.cached _ _ _ hcached
  obtain ⟨-, hversion', hsegment'⟩ := hrun.cached _ _ _ hcached'
  rw [← hversion, ← hversion'] at hid
  obtain ⟨hname, hv⟩ := version_id_inj hsegment hsegment' hid
  have hsame : e.version = e'.version := by rw [← hversion, ← hversion', hv]
  rw [hname, hsame, hcached'] at hcached
  obtain rfl := Option.some.inj hcached
  exact ⟨hname, hsame, rfl, _, rfl, rfl⟩

/-! ### A prompt edited under a process -/

def sample_path : String := "prompts/greet/v1.md"

def sample_values (x : String) : List (String × List Char) := [("who", x.toList)]

/-- A render, an edit of the file, and a second render of a value that looks like a placeholder. -/
def sample_events : List Event :=
  [.render "greet" 1 (sample_values "Ann"), .edit sample_path none,
    .render "greet" 1 (sample_values "\x7b\x7bwho\x7d\x7d")]

theorem render_reading_sample : ∃ r, render ascii "prompts" sample_files "greet" 1 (sample_values "Ann") = .ok r ∧
    ∃ body, ∃ pieces : List (Piece Char String), load ascii "prompts" sample_files "greet" 1 = .ok (r.spec, body) ∧
      pieces.flatMap Piece.raw = body ∧
      (∀ x written, .hole x written ∈ pieces → Written x written) ∧
      (∀ front c back, pieces = front ++ .char c :: back → ∀ x written rest, Written x written →
        c :: back.flatMap Piece.raw ≠ written ++ rest) ∧
      (∀ x, x ∈ (sample_values "Ann").map Prod.fst ↔ ∃ p ∈ pieces, p.name? = some x) ∧
      r.text = pieces.flatMap (Piece.fill fun x => ((sample_values "Ann").lookup x).getD []) := by
  have hdone : (render ascii "prompts" sample_files "greet" 1 (sample_values "Ann")).isOk = true := rfl
  cases hr : render ascii "prompts" sample_files "greet" 1 (sample_values "Ann") with
  | error e =>
      rw [hr] at hdone
      cases hdone
  | ok r => exact ⟨r, rfl, render_reading hr⟩

def greeting (who : String) : RenderedPrompt := ⟨sample_spec, ("Hello, " ++ who ++ ".").toList, "greet@v1"⟩

theorem renders_run_edited : ∃ e e' : Entry, e.result = .ok (greeting "Ann") ∧
    e'.result = .ok (greeting "\x7b\x7bwho\x7d\x7d") ∧ e.name = e'.name ∧ e.version = e'.version ∧
    (greeting "Ann").spec = (greeting "\x7b\x7bwho\x7d\x7d").spec ∧ ∃ body,
      (greeting "Ann").text = substitute PLACEHOLDER (fun x => (e.variables.lookup x).getD []) body ∧
        (greeting "\x7b\x7bwho\x7d\x7d").text =
          substitute PLACEHOLDER (fun x => (e'.variables.lookup x).getD []) body := by
  have hlog : (sample_events.foldl (Process.step ascii "prompts") ⟨sample_files, [], []⟩).log =
      ["Ann", "\x7b\x7bwho\x7d\x7d"].map fun who => ⟨"greet", 1, sample_values who, .ok (greeting who)⟩ := rfl
  have hmem : ∀ who ∈ ["Ann", "\x7b\x7bwho\x7d\x7d"],
      (⟨"greet", 1, sample_values who, .ok (greeting who)⟩ : Entry) ∈
        (sample_events.foldl (Process.step ascii "prompts") ⟨sample_files, [], []⟩).log := by
    intro who hwho
    rw [hlog]
    exact List.mem_map_of_mem hwho
  exact ⟨_, _, rfl, rfl, renders_run (hmem _ List.mem_cons_self)
    (hmem _ (List.mem_cons_of_mem _ List.mem_cons_self)) rfl rfl rfl⟩

end GuardMem.Prompts
