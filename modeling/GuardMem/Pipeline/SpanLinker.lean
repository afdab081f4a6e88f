import Mathlib.Data.List.DropRight
import GuardMem.Lib.Similarity
import GuardMem.Pipeline.Scoring

/-! Where a claim's supporting text is in the source: `span_linker.link_span`.

    The aligner is rapidfuzz's, taken with what its documentation says of it (`Rapidfuzz.Documented`).
    CORRECT: the snap trims a raw window of whitespace and then widens it by the rest of the word on
    either side, where that is shorter than `_MAX_SNAP` (`snap_eq`). -/

namespace GuardMem

/-! ### Python's texts -/

/-- `str.isspace` of one character. -/
def isspace (c : Char) : Bool :=
  let n := c.toNat
  (9 ≤ n && n ≤ 13) || (28 ≤ n && n ≤ 32) || n == 0x85 || n == 0xA0 || n == 0x1680 ||
    (0x2000 ≤ n && n ≤ 0x200A) || n == 0x2028 || n == 0x2029 || n == 0x202F || n == 0x205F || n == 0x3000

/-- `not text.strip()`. -/
def blank (text : String) : Bool := text.toList.all isspace

/-- `text[start:stop]`. -/
def slice (text : String) (start stop : ℕ) : String := String.ofList ((text.toList.take stop).drop start)

/-- `text.find(needle)`, with `none` for `-1`. -/
def find (needle text : String) : Option ℕ :=
  (List.range (text.length + 1)).find? fun start => needle.toList.isPrefixOf (text.toList.drop start)

/-! ### The aligner -/

/-- `rapidfuzz.ScoreAlignment`. -/
structure ScoreAlignment where
  score : ℚ
  src_start : ℕ
  src_end : ℕ
  dest_start : ℕ
  dest_end : ℕ
  deriving DecidableEq

/-- `rapidfuzz.fuzz`. -/
structure Rapidfuzz where
  ratio : String → String → ℚ
  partial_ratio_alignment : String → String → Option ScoreAlignment

/-- A window of a text of `m` characters for a needle of `n`: as long as the needle, or cut short by an
    end of the text. -/
def Window (n m start stop : ℕ) : Prop :=
  start ≤ stop ∧ stop ≤ m ∧ (stop = start + n ∨ (stop < start + n ∧ (start = 0 ∨ stop = m)))

instance (n m start stop : ℕ) : Decidable (Window n m start stop) := by
  unfold Window
  infer_instance

namespace Rapidfuzz

variable (fz : Rapidfuzz)

/-- `start`, `stop` is the window of `text` that `needle` scores best against. -/
def Best (needle text : String) (score : ℚ) (start stop : ℕ) : Prop :=
  Window needle.length text.length start stop ∧ score = fz.ratio needle (slice text start stop) ∧
    ∀ i j, Window needle.length text.length i j → fz.ratio needle (slice text i j) ≤ score

/-- The first text is laid over the second. -/
def Aligned (a b : String) (x : ScoreAlignment) : Prop := fz.Best a b x.score x.dest_start x.dest_end

/-- The two have exchanged their roles: the second text is laid over the first. -/
def Exchanged (a b : String) (x : ScoreAlignment) : Prop :=
  fz.Best b a x.score x.src_start x.src_end ∧ x.dest_start = 0 ∧ x.dest_end = b.length

/-- What the documentation says: `ratio` is the normalised indel similarity times a hundred, and of two
    texts that are not empty the shorter is laid over the longer; where they are as long as each other,
    the first is over the second unless the other way round scores better. -/
structure Documented : Prop where
  ratio_eq : ∀ a b, fz.ratio a b = 100 * Lib.Similarity.similarity a.toList b.toList
  shorter : ∀ a b, 0 < a.length → a.length < b.length →
    ∃ x, fz.partial_ratio_alignment a b = some x ∧ fz.Aligned a b x
  longer : ∀ a b, 0 < b.length → b.length < a.length →
    ∃ x, fz.partial_ratio_alignment a b = some x ∧ fz.Exchanged a b x
  level : ∀ a b, 0 < a.length → a.length = b.length → ∃ x y, fz.Aligned a b x ∧ fz.Exchanged a b y ∧
    fz.partial_ratio_alignment a b = some (if x.score < y.score then y else x)

/-- The least the linker relies on: a window of the text, and a ratio between 0 and 100. -/
structure InRange : Prop where
  ratio_range : ∀ a b, 0 ≤ fz.ratio a b ∧ fz.ratio a b ≤ 100
  window_range : ∀ a b x, fz.partial_ratio_alignment a b = some x →
    x.dest_start ≤ x.dest_end ∧ x.dest_end ≤ b.length

end Rapidfuzz

/-! ### The linker -/

/-- Where a claim was found, and how closely it was quoted. -/
structure SpanMatch where
  span : ℕ × ℕ
  text : String
  alignment : ℚ

def FUZZY_THRESHOLD : ℚ := 92

def MAX_SNAP : ℕ := 40

/-- How far a span is widened over these characters, nearest first: to the end of the word, unless the
    walk is given up. -/
def widening (chars : List Char) : ℕ :=
  let limit := ((chars.takeWhile (! isspace ·)).take MAX_SNAP).length
  if limit < MAX_SNAP then limit else 0

/-- Trim a raw alignment to whole words. -/
def snap (source : String) (start stop : ℕ) : ℕ × ℕ :=
  let stop := min stop source.length
  let start := start + ((slice source start stop).toList.takeWhile isspace).length
  let stop := stop - ((slice source start stop).toList.reverse.takeWhile isspace).length
  (start - widening (source.toList.take start).reverse, stop + widening (source.toList.drop stop))

variable (fz : Rapidfuzz) (py : Python)

/-- Locate `verbatim` in `source` and return the span that supports it. -/
def link_span (verbatim source : String) : Option SpanMatch :=
  if blank verbatim || source.isEmpty then none
  else match find verbatim source with
    | some start => some ⟨(start, start + verbatim.length), verbatim, 1⟩
    | none =>
        match fz.partial_ratio_alignment verbatim source with
        | none => none
        | some aligned =>
            if aligned.score < FUZZY_THRESHOLD then none
            else
              let snapped := snap source aligned.dest_start aligned.dest_end
              let text := slice source snapped.1 snapped.2
              some ⟨snapped, text, py.div (fz.ratio verbatim text) 100⟩

/-! ### What the linker finds -/

variable {fz py} {verbatim source text : String} {start stop : ℕ}

theorem toList_slice : (slice text start stop).toList = (text.toList.take stop).drop start :=
  String.toList_ofList

theorem find_some (h : find verbatim source = some start) :
    start + verbatim.length ≤ source.length ∧ slice source start (start + verbatim.length) = verbatim := by
  unfold find at h
  have hfound : verbatim.toList.isPrefixOf (source.toList.drop start) = true := by
    simpa using List.find?_some h
  have hprefix := List.isPrefixOf_iff_prefix.mp hfound
  have hstart := List.mem_range.mp (List.mem_of_find?_eq_some h)
  have hlen := hprefix.length_le
  simp only [List.length_drop, String.length_toList] at hlen
  refine ⟨by omega, String.toList_injective ?_⟩
  rw [toList_slice, List.drop_take, Nat.add_sub_cancel_left]
  exact (List.prefix_iff_eq_take.mp hprefix).symm

theorem widening_le (chars : List Char) : widening chars ≤ chars.length := by
  have htake := List.length_take_le MAX_SNAP (chars.takeWhile (! isspace ·))
  have hwhile := (List.takeWhile_prefix (l := chars) (! isspace ·)).length_le
  unfold widening
  dsimp only
  split_ifs
  · simp only [List.length_take]
    omega
  · omega

/-- The raw window without its outer whitespace. -/
def trimmed (source : String) (start stop : ℕ) : List Char :=
  ((slice source start stop).toList.dropWhile isspace).rdropWhile isspace

/-- Where the trimmed window starts. -/
def trim_start (source : String) (start stop : ℕ) : ℕ :=
  start + ((slice source start stop).toList.takeWhile isspace).length

/-- CORRECT: the snap is the trimmed window and the rest of the word on either side of it. -/
theorem snap_eq (hle : start ≤ stop) (hstop : stop ≤ source.length) :
    snap source start stop =
      (trim_start source start stop -
          widening (source.toList.take (trim_start source start stop)).reverse,
        trim_start source start stop + (trimmed source start stop).length +
          widening (source.toList.drop
            (trim_start source start stop + (trimmed source start stop).length))) := by
  have hwindow : (slice source start stop).toList.length = stop - start := by
    rw [toList_slice, List.length_drop, List.length_take, String.length_toList]
    omega
  have hsplit := @List.takeWhile_append_dropWhile _ isspace (slice source start stop).toList
  have hlength := congrArg List.length hsplit
  rw [List.length_append, hwindow] at hlength
  have hrest : (slice source (trim_start source start stop) stop).toList =
      (slice source start stop).toList.dropWhile isspace := by
    rw [toList_slice, trim_start, ← List.drop_drop, ← toList_slice]
    exact (congrArg (List.drop _) hsplit).symm.trans List.drop_left
  have hback := congrArg List.length (@List.takeWhile_append_dropWhile _ isspace
    ((slice source start stop).toList.dropWhile isspace).reverse)
  rw [List.length_append, List.length_reverse] at hback
  have htrim : (trimmed source start stop).length =
      (((slice source start stop).toList.dropWhile isspace).reverse.dropWhile isspace).length := by
    rw [trimmed, List.rdropWhile, List.length_reverse]
  have hstop' : stop - (((slice source (trim_start source start stop) stop).toList.reverse.takeWhile
      isspace).length) = trim_start source start stop + (trimmed source start stop).length := by
    rw [hrest, htrim, trim_start]
    omega
  simp only [snap, Nat.min_eq_left hstop, trim_start] at hstop' ⊢
  rw [hstop']

/-- How many characters the snapped span covers: the trimmed window and what it is widened by. -/
def cited_width (source : String) (start stop : ℕ) : ℕ :=
  widening (source.toList.take (trim_start source start stop)).reverse +
    (trimmed source start stop).length +
    widening (source.toList.drop (trim_start source start stop + (trimmed source start stop).length))

/-- The snapped span stays in the source. -/
theorem snap_range (hle : start ≤ stop) (hstop : stop ≤ source.length) :
    (snap source start stop).2 ≤ source.length ∧
      (snap source start stop).2 = (snap source start stop).1 + cited_width source start stop := by
  have hleft := widening_le (source.toList.take (trim_start source start stop)).reverse
  have hright := widening_le
    (source.toList.drop (trim_start source start stop + (trimmed source start stop).length))
  have hlength := congrArg List.length
    (@List.takeWhile_append_dropWhile _ isspace (slice source start stop).toList)
  have htrim := (List.rdropWhile_prefix isspace
    (l := (slice source start stop).toList.dropWhile isspace)).length_le
  simp only [List.length_append, toList_slice, List.length_drop, List.length_take, List.length_reverse,
    String.length_toList] at hleft hright hlength htrim
  rw [snap_eq hle hstop]
  simp only [cited_width, trim_start, trimmed, toList_slice] at *
  omega

variable (fz) in
/-- The source does not contain the claim, and its best alignment clears the threshold. -/
structure Fuzzy (verbatim source : String) (x : ScoreAlignment) : Prop where
  nonblank : blank verbatim = false
  nonempty : source.isEmpty = false
  absent : find verbatim source = none
  aligned : fz.partial_ratio_alignment verbatim source = some x
  close : FUZZY_THRESHOLD ≤ x.score

variable (fz py) in
/-- What an alignment is cited as. -/
def cited (verbatim source : String) (x : ScoreAlignment) : SpanMatch :=
  let span := snap source x.dest_start x.dest_end
  let text := slice source span.1 span.2
  ⟨span, text, py.div (fz.ratio verbatim text) 100⟩

/-- CORRECT: a claim is quoted where the source contains it and cited where it aligns, and has no span
    otherwise. -/
theorem link_span_eq_some {m : SpanMatch} : link_span fz py verbatim source = some m ↔
    (blank verbatim = false ∧ source.isEmpty = false ∧ ∃ start, find verbatim source = some start ∧
      m = ⟨(start, start + verbatim.length), verbatim, 1⟩) ∨
    ∃ x, Fuzzy fz verbatim source x ∧ m = cited fz py verbatim source x := by
  constructor
  · intro h
    unfold link_span at h
    split_ifs at h with hnone
    obtain ⟨hblank, hempty⟩ : blank verbatim = false ∧ source.isEmpty = false := by simpa using hnone
    cases hfind : find verbatim source with
    | some start =>
        rw [hfind] at h
        exact Or.inl ⟨hblank, hempty, start, rfl, (Option.some.inj h).symm⟩
    | none =>
        rw [hfind] at h
        cases hx : fz.partial_ratio_alignment verbatim source with
        | none => simp [hx] at h
        | some x =>
            simp only [hx] at h
            split_ifs at h with hlow
            exact Or.inr ⟨x, ⟨hblank, hempty, hfind, hx, not_lt.mp hlow⟩, (Option.some.inj h).symm⟩
  · rintro (⟨hblank, hempty, start, hfind, rfl⟩ | ⟨x, hx, rfl⟩)
    · simp [link_span, hblank, hempty, hfind]
    · simp [link_span, hx.nonblank, hx.nonempty, hx.absent, hx.aligned, not_lt.mpr hx.close, cited]

/-- What is cited is the source's own text at the span. -/
theorem link_span_slice (hfz : fz.InRange) {m : SpanMatch} (h : link_span fz py verbatim source = some m) :
    m.span.2 ≤ source.length ∧ slice source m.span.1 m.span.2 = m.text := by
  rcases link_span_eq_some.mp h with ⟨-, -, start, hfind, rfl⟩ | ⟨x, hx, rfl⟩
  · exact find_some hfind
  · obtain ⟨hle, hend⟩ := hfz.window_range _ _ _ hx.aligned
    exact ⟨(snap_range hle hend).1, rfl⟩

theorem length_slice (h : stop ≤ text.length) : (slice text start stop).length = stop - start := by
  rw [← String.length_toList, toList_slice, List.length_drop, List.length_take, String.length_toList,
    Nat.min_eq_left h]

/-- A claim that has a span is not empty. -/
theorem length_pos_of_nonblank (h : blank verbatim = false) : 0 < verbatim.length := by
  rcases Nat.eq_zero_or_pos verbatim.length with h0 | hpos
  · have hnil : verbatim.toList = [] := List.length_eq_zero_iff.mp (String.length_toList.trans h0)
    simp [blank, hnil] at h
  · exact hpos

end GuardMem
