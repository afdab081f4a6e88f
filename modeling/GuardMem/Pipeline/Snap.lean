import GuardMem.Pipeline.SpanLinker

/-! `span_linker._snap` loop by loop.

    Two loops strip the window of whitespace, two walk from its edges to the ends of the words they
    stand in and give up after `MAX_SNAP` characters. CORRECT: a window with anything but whitespace in
    it becomes whole words, or keeps the edge of a word that runs on too far (`snap_words`); a window of
    whitespace becomes what stands at its end, and is empty exactly where nothing does or only words that
    run on too far (`snap_blank`). The loops compute what the linker's `snap` describes (`snap_eq_snap`). -/

namespace GuardMem.Snap

/-- `source[i].isspace()`. -/
def space_at (source : String) (i : ℕ) : Bool := (source.toList[i]?).any isspace

/-- `while start < end and source[start].isspace(): start += 1` -/
def skip_spaces (source : String) (start stop : ℕ) : ℕ :=
  if start < stop ∧ space_at source start then skip_spaces source (start + 1) stop else start
termination_by stop - start

/-- `while end > start and source[end - 1].isspace(): end -= 1` -/
def drop_spaces (source : String) (start stop : ℕ) : ℕ :=
  if start < stop ∧ space_at source (stop - 1) then drop_spaces source start (stop - 1) else stop
termination_by stop

/-- `while limit > 0 and start - limit < _MAX_SNAP and not source[limit - 1].isspace(): limit -= 1` -/
def limit_before (source : String) (start limit : ℕ) : ℕ :=
  if 0 < limit ∧ start - limit < MAX_SNAP ∧ ¬ space_at source (limit - 1) then
    limit_before source start (limit - 1)
  else limit
termination_by limit

/-- `while limit < len(source) and limit - end < _MAX_SNAP and not source[limit].isspace(): limit += 1` -/
def limit_after (source : String) (stop limit : ℕ) : ℕ :=
  if limit < source.length ∧ limit - stop < MAX_SNAP ∧ ¬ space_at source limit then
    limit_after source stop (limit + 1)
  else limit
termination_by source.length - limit

/-- Where the snap leaves the left edge. -/
def widen_start (source : String) (start : ℕ) : ℕ :=
  let limit := limit_before source start start
  if start - limit < MAX_SNAP then limit else start

/-- Where it leaves the right edge. -/
def widen_stop (source : String) (stop : ℕ) : ℕ :=
  let limit := limit_after source stop stop
  if limit - stop < MAX_SNAP then limit else stop

/-- Trim a raw alignment to whole words. -/
def snap (source : String) (start stop : ℕ) : ℕ × ℕ :=
  let stop := min stop source.length
  let start := skip_spaces source start stop
  let stop := drop_spaces source start stop
  (widen_start source start, widen_stop source stop)

/-! ### The loops -/

/-- A character of a word stands there. -/
def InWord (source : String) (i : ℕ) : Prop := i < source.length ∧ space_at source i = false

instance (source : String) (i : ℕ) : Decidable (InWord source i) := inferInstanceAs (Decidable (_ ∧ _))

variable {source : String} {start stop limit : ℕ}

theorem skip_spaces_spec (hle : start ≤ stop) :
    start ≤ skip_spaces source start stop ∧ skip_spaces source start stop ≤ stop ∧
      (∀ i, start ≤ i → i < skip_spaces source start stop → space_at source i = true) ∧
      (skip_spaces source start stop < stop →
        space_at source (skip_spaces source start stop) = false) := by
  fun_induction skip_spaces source start stop with
  | case1 start hspace ih =>
      obtain ⟨hfrom, hto, hall, hend⟩ := ih (by omega)
      refine ⟨by omega, hto, fun i hi hlt => ?_, hend⟩
      rcases Nat.eq_or_lt_of_le hi with rfl | hi
      · exact hspace.2
      · exact hall i hi hlt
  | case2 start hstop =>
      refine ⟨le_refl _, hle, fun i hi hlt => by omega, fun hlt => ?_⟩
      simpa [hlt] using hstop

theorem drop_spaces_spec (hle : start ≤ stop) :
    start ≤ drop_spaces source start stop ∧ drop_spaces source start stop ≤ stop ∧
      (∀ i, drop_spaces source start stop ≤ i → i < stop → space_at source i = true) ∧
      (start < drop_spaces source start stop →
        space_at source (drop_spaces source start stop - 1) = false) := by
  fun_induction drop_spaces source start stop with
  | case1 stop hspace ih =>
      obtain ⟨hfrom, hto, hall, hend⟩ := ih (by omega)
      refine ⟨hfrom, by omega, fun i hi hlt => ?_, hend⟩
      rcases Nat.eq_or_lt_of_le (show i ≤ stop - 1 by omega) with rfl | hlt'
      · exact hspace.2
      · exact hall i hi hlt'
  | case2 stop hstop =>
      refine ⟨hle, le_refl _, fun i hi hlt => by omega, fun hlt => ?_⟩
      simpa [hlt] using hstop

/-- The walk to the left passes characters of one word, and ends at the word's start or `MAX_SNAP`
    characters away. -/
theorem limit_before_spec (hle : limit ≤ start) (hnear : start - limit ≤ MAX_SNAP) :
    limit_before source start limit ≤ limit ∧ start - limit_before source start limit ≤ MAX_SNAP ∧
      (∀ i, limit_before source start limit ≤ i → i < limit → space_at source i = false) ∧
      (start - limit_before source start limit < MAX_SNAP → 0 < limit_before source start limit →
        space_at source (limit_before source start limit - 1) = true) := by
  fun_induction limit_before source start limit with
  | case1 limit hgo ih =>
      obtain ⟨hpos, hlt, hword⟩ := hgo
      obtain ⟨hfrom, hfar, hall, hend⟩ := ih (by omega) (by omega)
      refine ⟨by omega, hfar, fun i hi hlt => ?_, hend⟩
      rcases Nat.eq_or_lt_of_le (show i ≤ limit - 1 by omega) with rfl | hlt'
      · simpa using hword
      · exact hall i hi hlt'
  | case2 limit hstop =>
      refine ⟨le_refl _, hnear, fun i hi hlt => by omega, fun hlt hpos => ?_⟩
      simpa [hpos, hlt] using hstop

/-- And the walk to the right. -/
theorem limit_after_spec (hle : stop ≤ limit) (hnear : limit - stop ≤ MAX_SNAP)
    (hlimit : limit ≤ source.length) :
    limit ≤ limit_after source stop limit ∧ limit_after source stop limit ≤ source.length ∧
      limit_after source stop limit - stop ≤ MAX_SNAP ∧
      (∀ i, limit ≤ i → i < limit_after source stop limit → space_at source i = false) ∧
      (limit_after source stop limit - stop < MAX_SNAP →
        limit_after source stop limit < source.length →
        space_at source (limit_after source stop limit) = true) := by
  fun_induction limit_after source stop limit with
  | case1 limit hgo ih =>
      obtain ⟨hpos, hlt, hword⟩ := hgo
      obtain ⟨hfrom, hto, hfar, hall, hend⟩ := ih (by omega) (by omega) (by omega)
      refine ⟨by omega, hto, hfar, fun i hi hlt => ?_, hend⟩
      rcases Nat.eq_or_lt_of_le hi with rfl | hi
      · simpa using hword
      · exact hall i hi hlt
  | case2 limit hstop =>
      refine ⟨le_refl _, hlimit, hnear, fun i hi hlt => by omega, fun hlt hpos => ?_⟩
      simpa [hpos, hlt] using hstop

/-! ### What the loops compute -/

theorem slice_first (hlt : start < stop) (hstop : stop ≤ source.length) :
    ∃ c, (slice source start stop).toList = c :: (slice source (start + 1) stop).toList ∧
      space_at source start = isspace c := by
  rw [← String.length_toList] at hstop
  have hget : start < (source.toList.take stop).length := by
    rw [List.length_take]
    omega
  refine ⟨(source.toList.take stop)[start], ?_, ?_⟩
  · rw [toList_slice, toList_slice, List.drop_eq_getElem_cons hget]
  · rw [space_at, List.getElem?_eq_getElem (by omega), List.getElem_take]
    rfl

theorem slice_last (hlt : start < stop) (hstop : stop ≤ source.length) :
    ∃ c, (slice source start stop).toList = (slice source start (stop - 1)).toList ++ [c] ∧
      space_at source (stop - 1) = isspace c := by
  rw [← String.length_toList] at hstop
  have hget : stop - 1 < source.toList.length := by omega
  refine ⟨source.toList[stop - 1], ?_, ?_⟩
  · have htake : source.toList.take stop = source.toList.take (stop - 1) ++ [source.toList[stop - 1]] := by
      rw [← List.take_succ_eq_append_getElem hget, Nat.sub_add_cancel (by omega)]
    have hle : start ≤ (source.toList.take (stop - 1)).length := by
      rw [List.length_take]
      omega
    rw [toList_slice, toList_slice, htake, List.drop_append_of_le_length hle]
  · rw [space_at, List.getElem?_eq_getElem hget]
    rfl

theorem slice_empty (hle : stop ≤ start) : (slice source start stop).toList = [] := by
  rw [toList_slice]
  refine List.drop_eq_nil_of_le ?_
  rw [List.length_take]
  omega

theorem skip_spaces_eq (hstop : stop ≤ source.length) : skip_spaces source start stop =
    start + ((slice source start stop).toList.takeWhile isspace).length := by
  fun_induction skip_spaces source start stop with
  | case1 start hspace ih =>
      obtain ⟨c, hslice, hc⟩ := slice_first hspace.1 hstop
      rw [ih, hslice, List.takeWhile_cons_of_pos (hc ▸ hspace.2), List.length_cons]
      omega
  | case2 start hend =>
      rcases Nat.lt_or_ge start stop with hlt | hge
      · obtain ⟨c, hslice, hc⟩ := slice_first hlt hstop
        have hword : ¬ isspace c = true := hc ▸ fun h => hend ⟨hlt, h⟩
        rw [hslice, List.takeWhile_cons_of_neg hword, List.length_nil, Nat.add_zero]
      · rw [slice_empty hge, List.takeWhile_nil, List.length_nil, Nat.add_zero]

theorem drop_spaces_eq (hstop : stop ≤ source.length) : drop_spaces source start stop =
    stop - ((slice source start stop).toList.reverse.takeWhile isspace).length := by
  fun_induction drop_spaces source start stop with
  | case1 stop hspace ih =>
      obtain ⟨c, hslice, hc⟩ := slice_last hspace.1 hstop
      rw [ih (by omega), hslice, List.reverse_concat, List.takeWhile_cons_of_pos (hc ▸ hspace.2),
        List.length_cons]
      omega
  | case2 stop hend =>
      rcases Nat.lt_or_ge start stop with hlt | hge
      · obtain ⟨c, hslice, hc⟩ := slice_last hlt hstop
        have hword : ¬ isspace c = true := hc ▸ fun h => hend ⟨hlt, h⟩
        rw [hslice, List.reverse_concat, List.takeWhile_cons_of_neg hword, List.length_nil, Nat.sub_zero]
      · rw [slice_empty hge, List.reverse_nil, List.takeWhile_nil, List.length_nil, Nat.sub_zero]

/-- The walk to the left, from where it has got to. -/
theorem limit_before_eq (hlimit : limit ≤ source.length) (hle : limit ≤ start) :
    limit_before source start limit = limit - (((source.toList.take limit).reverse.takeWhile
      (! isspace ·)).take (MAX_SNAP - (start - limit))).length := by
  fun_induction limit_before source start limit with
  | case1 limit hgo ih =>
      obtain ⟨hpos, hnear, hword⟩ := hgo
      obtain ⟨c, hslice, hc⟩ := @slice_last source 0 limit hpos hlimit
      simp only [toList_slice, List.drop_zero] at hslice
      have hfuel : MAX_SNAP - (start - limit) = MAX_SNAP - (start - (limit - 1)) + 1 := by omega
      rw [ih (by omega) (by omega), hslice, List.reverse_concat, hfuel,
        List.takeWhile_cons_of_pos (by simpa [hc] using hword), List.take_succ_cons, List.length_cons]
      omega
  | case2 limit hend =>
      rcases Nat.eq_zero_or_pos limit with rfl | hpos
      · rw [Nat.zero_sub]
      · rcases Nat.lt_or_ge (start - limit) MAX_SNAP with hnear | hfar
        · obtain ⟨c, hslice, hc⟩ := @slice_last source 0 limit hpos hlimit
          simp only [toList_slice, List.drop_zero] at hslice
          have hspace : isspace c = true := by simpa [hpos, hnear, hc] using hend
          rw [hslice, List.reverse_concat, List.takeWhile_cons_of_neg (by simp [hspace]), List.take_nil,
            List.length_nil, Nat.sub_zero]
        · rw [Nat.sub_eq_zero_of_le hfar, List.take_zero, List.length_nil, Nat.sub_zero]

/-- And the walk to the right. -/
theorem limit_after_eq (hle : stop ≤ limit) (hlimit : limit ≤ source.length) :
    limit_after source stop limit = limit + (((source.toList.drop limit).takeWhile
      (! isspace ·)).take (MAX_SNAP - (limit - stop))).length := by
  have htake : source.toList.take source.length = source.toList := by
    rw [← String.length_toList, List.take_length]
  fun_induction limit_after source stop limit with
  | case1 limit hgo ih =>
      obtain ⟨hlt, hnear, hword⟩ := hgo
      obtain ⟨c, hslice, hc⟩ := slice_first hlt (le_refl _)
      rw [toList_slice, toList_slice, htake] at hslice
      have hfuel : MAX_SNAP - (limit - stop) = MAX_SNAP - (limit + 1 - stop) + 1 := by omega
      rw [ih (by omega) (by omega), hslice, hfuel,
        List.takeWhile_cons_of_pos (by simpa [hc] using hword), List.take_succ_cons, List.length_cons]
      omega
  | case2 limit hend =>
      rcases Nat.lt_or_ge limit source.length with hlt | hge
      · rcases Nat.lt_or_ge (limit - stop) MAX_SNAP with hnear | hfar
        · obtain ⟨c, hslice, hc⟩ := slice_first hlt (le_refl _)
          rw [toList_slice, toList_slice, htake] at hslice
          have hspace : isspace c = true := by simpa [hlt, hnear, hc] using hend
          rw [hslice, List.takeWhile_cons_of_neg (by simp [hspace]), List.take_nil, List.length_nil,
            Nat.add_zero]
        · rw [Nat.sub_eq_zero_of_le hfar, List.take_zero, List.length_nil, Nat.add_zero]
      · have hnil : source.toList.drop limit = [] := List.drop_eq_nil_of_le (by rwa [String.length_toList])
        rw [hnil, List.takeWhile_nil, List.take_nil, List.length_nil, Nat.add_zero]

theorem widen_start_eq (hstart : start ≤ source.length) :
    widen_start source start = start - widening (source.toList.take start).reverse := by
  have hrun := List.length_take_le MAX_SNAP ((source.toList.take start).reverse.takeWhile (! isspace ·))
  have hwhole := (List.takeWhile_prefix (l := (source.toList.take start).reverse) (! isspace ·)).length_le
  have hlimit := @limit_before_eq source start start hstart (le_refl _)
  rw [Nat.sub_self, Nat.sub_zero] at hlimit
  simp only [widen_start, widening, hlimit]
  simp only [List.length_take, List.length_reverse, String.length_toList] at *
  split_ifs <;> omega

theorem widen_stop_eq (hstop : stop ≤ source.length) :
    widen_stop source stop = stop + widening (source.toList.drop stop) := by
  have hlimit := @limit_after_eq source stop stop (le_refl _) hstop
  rw [Nat.sub_self, Nat.sub_zero] at hlimit
  simp only [widen_stop, widening, hlimit, Nat.add_sub_cancel_left]
  split_ifs
  · rfl
  · rfl

/-- The loops compute what `snap` describes. -/
theorem snap_eq_snap (hle : start ≤ stop) (hstop : stop ≤ source.length) :
    snap source start stop = GuardMem.snap source start stop := by
  obtain ⟨-, hto, -, -⟩ := @skip_spaces_spec source start stop hle
  obtain ⟨-, hto', -, -⟩ := @drop_spaces_spec source (skip_spaces source start stop) stop hto
  simp only [snap, GuardMem.snap, Nat.min_eq_left hstop]
  rw [widen_start_eq (hto.trans hstop), widen_stop_eq (hto'.trans hstop), drop_spaces_eq hstop,
    skip_spaces_eq hstop]

/-! ### The edges -/

/-- A word runs on from the position to the left, over `MAX_SNAP` characters and perhaps more. -/
def RunsBefore (source : String) (start : ℕ) : Prop :=
  MAX_SNAP ≤ start ∧ ∀ i, start - MAX_SNAP ≤ i → i < start → InWord source i

/-- And to the right. -/
def RunsAfter (source : String) (stop : ℕ) : Prop := ∀ i, stop ≤ i → i < stop + MAX_SNAP → InWord source i

/-- The left edge is moved to the start of the word it stands in, or kept in one that runs on. -/
structure LeftEdge (source : String) (start s : ℕ) : Prop where
  le : s ≤ start
  near : start - s < MAX_SNAP
  word : ∀ i, s ≤ i → i < start → InWord source i
  boundary : (s = 0 ∨ ¬ InWord source (s - 1)) ∨ (s = start ∧ RunsBefore source start)

/-- The right edge is moved to the end of the word it stands in, or kept in one that runs on. -/
structure RightEdge (source : String) (stop e : ℕ) : Prop where
  le : stop ≤ e
  length : e ≤ source.length
  near : e - stop < MAX_SNAP
  word : ∀ i, stop ≤ i → i < e → InWord source i
  boundary : (e = source.length ∨ ¬ InWord source e) ∨ (e = stop ∧ RunsAfter source stop)

theorem widen_start_edge (hstart : start ≤ source.length) :
    LeftEdge source start (widen_start source start) := by
  obtain ⟨hle, hfar, hall, hend⟩ := @limit_before_spec source start start (le_refl _) (by simp)
  have hword : ∀ i, limit_before source start start ≤ i → i < start → InWord source i :=
    fun i hi hlt => ⟨by omega, hall i hi hlt⟩
  simp only [widen_start]
  split_ifs with hnear
  · refine ⟨hle, hnear, hword, Or.inl ?_⟩
    rcases Nat.eq_zero_or_pos (limit_before source start start) with h0 | hpos
    · exact Or.inl h0
    · right
      rintro ⟨-, hfalse⟩
      rw [hend hnear hpos] at hfalse
      cases hfalse
  · refine ⟨le_refl _, by simp [MAX_SNAP], fun i hi hlt => by omega, Or.inr ⟨rfl, by omega, ?_⟩⟩
    intro i hi hlt
    exact hword i (by omega) hlt

theorem widen_stop_edge (hstop : stop ≤ source.length) :
    RightEdge source stop (widen_stop source stop) := by
  obtain ⟨hle, hto, hfar, hall, hend⟩ := @limit_after_spec source stop stop (le_refl _) (by simp) hstop
  have hword : ∀ i, stop ≤ i → i < limit_after source stop stop → InWord source i :=
    fun i hi hlt => ⟨by omega, hall i hi hlt⟩
  simp only [widen_stop]
  split_ifs with hnear
  · refine ⟨hle, hto, hnear, hword, Or.inl ?_⟩
    rcases Nat.eq_or_lt_of_le hto with heq | hlt
    · exact Or.inl heq
    · right
      rintro ⟨-, hfalse⟩
      rw [hend hnear hlt] at hfalse
      cases hfalse
  · refine ⟨le_refl _, hstop, by simp [MAX_SNAP], fun i hi hlt => by omega, Or.inr ⟨rfl, ?_⟩⟩
    intro i hi hlt
    exact hword i hi (by omega)

/-- The left edge stays where no word ends at it, or one that runs on. -/
theorem LeftEdge.stays_iff {s : ℕ} (h : LeftEdge source start s) :
    s = start ↔ (start = 0 ∨ ¬ InWord source (start - 1)) ∨ RunsBefore source start := by
  constructor
  · rintro rfl
    exact h.boundary.imp_right And.right
  · intro hbare
    by_contra hne
    have hlt : s < start := Nat.lt_of_le_of_ne h.le hne
    have hnear := h.near
    have hword := h.word (start - 1) (by omega) (by omega)
    rcases hbare with (h0 | hspace) | ⟨hfar, hruns⟩
    · omega
    · exact hspace hword
    · -- the walk stopped inside the word that runs on
      rcases h.boundary with (h0 | hspace) | ⟨heq, -⟩
      · omega
      · exact hspace (hruns (s - 1) (by omega) (by omega))
      · exact hne heq

/-- The right edge stays where no word starts at it, or one that runs on. -/
theorem RightEdge.stays_iff {e : ℕ} (h : RightEdge source stop e) :
    e = stop ↔ ¬ InWord source stop ∨ RunsAfter source stop := by
  constructor
  · rintro rfl
    rcases h.boundary with (hend | hspace) | ⟨-, hruns⟩
    · exact Or.inl fun hword => by have := hword.1; omega
    · exact Or.inl hspace
    · exact Or.inr hruns
  · intro hbare
    by_contra hne
    have hlt : stop < e := Nat.lt_of_le_of_ne h.le (Ne.symm hne)
    have hnear := h.near
    have hword := h.word stop (le_refl _) hlt
    rcases hbare with hspace | hruns
    · exact hspace hword
    · have hnext := hruns e (by omega) (by omega)
      rcases h.boundary with (hend | hspace) | ⟨heq, -⟩
      · have := hnext.1
        omega
      · exact hspace hnext
      · exact hne heq

/-! ### The windows -/

/-- `a`, `b` is the window stripped of surrounding whitespace. -/
structure Stripped (source : String) (start stop a b : ℕ) : Prop where
  start_le : start ≤ a
  le_stop : b ≤ stop
  lt : a < b
  first : InWord source a
  last : InWord source (b - 1)
  words : ∀ i, start ≤ i → i < stop → InWord source i → a ≤ i ∧ i < b

/-- The span covers the stripped window and the rest of the words at its edges. -/
structure Whole (source : String) (a b : ℕ) (span : ℕ × ℕ) : Prop where
  lt : span.1 < span.2
  first : InWord source span.1
  last : InWord source (span.2 - 1)
  left : LeftEdge source a span.1
  right : RightEdge source b span.2

/-- Nothing stands at the position, or only words that run on. -/
def Bare (source : String) (stop : ℕ) : Prop :=
  ((stop = 0 ∨ ¬ InWord source (stop - 1)) ∨ RunsBefore source stop) ∧
    (¬ InWord source stop ∨ RunsAfter source stop)

variable (hle : start ≤ stop) (hstop : stop ≤ source.length)

include hle hstop

/-- CORRECT: a window with a character of a word in it becomes whole words. -/
theorem snap_words (hword : ∃ i, start ≤ i ∧ i < stop ∧ InWord source i) :
    ∃ a b, Stripped source start stop a b ∧ Whole source a b (snap source start stop) := by
  obtain ⟨i, hi, hlt, -, hink⟩ := hword
  obtain ⟨hfrom, hto, hskipped, hfirst⟩ := @skip_spaces_spec source start stop hle
  simp only [snap, Nat.min_eq_left hstop]
  generalize skip_spaces source start stop = a at *
  have hai : a ≤ i := by
    by_contra hia
    have hspace := hskipped i hi (by omega)
    rw [hink] at hspace
    cases hspace
  obtain ⟨hfrom', hto', hdropped, hlast⟩ := @drop_spaces_spec source a stop hto
  generalize drop_spaces source a stop = b at *
  have hib : i < b := by
    by_contra hbi
    have hspace := hdropped i (by omega) hlt
    rw [hink] at hspace
    cases hspace
  have hA : InWord source a := ⟨by omega, hfirst (by omega)⟩
  have hB : InWord source (b - 1) := ⟨by omega, hlast (by omega)⟩
  have hleft := @widen_start_edge source a (by omega)
  have hright := @widen_stop_edge source b (by omega)
  refine ⟨a, b, ⟨hfrom, hto', by omega, hA, hB, ?_⟩, ?_, ?_, ?_, hleft, hright⟩
  · rintro j hj hjlt ⟨-, hjink⟩
    constructor
    · by_contra hja
      have hspace := hskipped j hj (by omega)
      rw [hjink] at hspace
      cases hspace
    · by_contra hbj
      have hspace := hdropped j (by omega) hjlt
      rw [hjink] at hspace
      cases hspace
  · have := hleft.le
    have := hright.le
    omega
  · rcases Nat.eq_or_lt_of_le hleft.le with heq | hlt'
    · rwa [heq]
    · exact hleft.word _ (le_refl _) hlt'
  · rcases Nat.eq_or_lt_of_le hright.le with heq | hlt'
    · rwa [← heq]
    · exact hright.word _ (by omega) (by omega)

/-- CORRECT: a window of whitespace becomes what stands at its end. -/
theorem snap_blank (hblank : ∀ i, start ≤ i → i < stop → ¬ InWord source i) :
    (snap source start stop).1 = (snap source start stop).2 ↔ Bare source stop := by
  obtain ⟨hfrom, hto, -, hfirst⟩ := @skip_spaces_spec source start stop hle
  have hskip : skip_spaces source start stop = stop := by
    by_contra hne
    have hlt : skip_spaces source start stop < stop := Nat.lt_of_le_of_ne hto hne
    exact hblank _ hfrom hlt ⟨by omega, hfirst hlt⟩
  obtain ⟨hfrom', hto', -, -⟩ := @drop_spaces_spec source stop stop (le_refl _)
  have hdrop : drop_spaces source stop stop = stop := le_antisymm hto' hfrom'
  simp only [snap, Nat.min_eq_left hstop, hskip, hdrop]
  have hleft := @widen_start_edge source stop hstop
  have hright := @widen_stop_edge source stop hstop
  rw [Bare, ← hleft.stays_iff, ← hright.stays_iff]
  have hleft_le := hleft.le
  have hright_le := hright.le
  omega

/-- CORRECT: `_snap` widens to whole words within bounds, and of a window of whitespace leaves an empty
    span exactly where nothing stands at its end, or only words that run on. -/
theorem snap_whole_words :
    ((∃ i, start ≤ i ∧ i < stop ∧ InWord source i) →
      ∃ a b, Stripped source start stop a b ∧ Whole source a b (snap source start stop)) ∧
    ((∀ i, start ≤ i → i < stop → ¬ InWord source i) →
      ((snap source start stop).1 = (snap source start stop).2 ↔ Bare source stop)) :=
  ⟨snap_words hle hstop, snap_blank hle hstop⟩

omit hle hstop

/-- A window inside a word becomes the word. -/
theorem penicillin : ∃ a b, Stripped "to penicillin." 4 9 a b ∧
    Whole "to penicillin." a b (snap "to penicillin." 4 9) :=
  (snap_whole_words (by decide) (by decide +kernel)).1 ⟨4, by decide, by decide, by decide +kernel⟩

/-- A window of whitespace behind a word is left empty, though the word is adjacent to it. -/
theorem blank_left_empty : ¬ ∀ (source : String) (start stop : ℕ), start ≤ stop → stop ≤ source.length →
    (∀ i, start ≤ i → i < stop → ¬ InWord source i) →
      (snap source start stop).1 = (snap source start stop).2 →
        ¬ (0 < start ∧ InWord source (start - 1)) ∧ ¬ InWord source stop := by
  intro h
  have hblank : ∀ i, 1 ≤ i → i < 2 → ¬ InWord "x " i := by
    intro i hi hlt
    obtain rfl : i = 1 := by omega
    decide +kernel
  have hempty : (snap "x " 1 2).1 = (snap "x " 1 2).2 := by
    rw [snap_eq_snap (by decide) (by decide +kernel)]
    decide +kernel
  exact (h "x " 1 2 (by decide) (by decide +kernel) hblank hempty).1 ⟨by decide, by decide +kernel⟩

end GuardMem.Snap
