import GuardMem.Lib.Urllib
import GuardMem.Tools.Context

/-! The resource URIs: `resources/uris.py`, and the `_split` of `resources/__init__.py`.

    CORRECT: what `uri_for` builds `_split` takes apart again, whatever the argument is
    (`split_uri_for`). Everything but a colon and the unreserved characters is encoded, so the argument
    is one path segment and no character of it is read as URL syntax. -/

namespace GuardMem.Resources

open Lib Lib.Urllib

def SCHEME : String := "guardmem"

/-- What `quote` leaves alone when a namespace is put into a path segment. -/
def SAFE : String := ":"

/-- Build a `guardmem://` URI, encoding the argument into one path segment. -/
def uri_for (kind argument : String) : String :=
  SCHEME ++ "://" ++ kind ++ "/" ++ String.ofList (Urllib.quote SAFE.toList argument.toList)

/-- The kinds `_READERS` has a reader for. -/
def READERS : List String := ["memory", "audit", "ontology"]

variable (py : Readers) (checks : Checks)

/-- Break a `guardmem://` URI into its kind and its one argument. -/
def split (uri : String) : Except ToolError (String × String) :=
  match urlsplit checks uri.toList with
  | .error message => .error (.raised (.ValueError message))
  | .ok parsed =>
      let scheme := String.ofList parsed.scheme
      if scheme ≠ SCHEME then .error (.ToolRefusedError
        (py.repr uri ++ " is not a GuardMem resource: expected the " ++ SCHEME ++ ":// scheme, " ++
          "got " ++ (if scheme = "" then "none" else scheme) ++ "://."))
      else
        match ((parsed.path.splitOn '/').filter (· ≠ [])).map unquote with
        | [] => .error (.ToolRefusedError
            (py.repr uri ++ " names a resource kind with no argument. " ++
              SCHEME ++ "://memory/ and " ++ SCHEME ++ "://ontology/ take a namespace, " ++
              SCHEME ++ "://audit/ takes a trace id."))
        | segment :: _ => .ok (String.ofList parsed.netloc, String.ofList segment)

/-- No character of a quoted argument ends a segment, a path or a query, and none is taken out of a URL. -/
theorem plain_quoted {argument : String} {c : Char} (h : c ∈ Urllib.quote SAFE.toList argument.toList) :
    c ∉ ['/', '?', '#', '\t', '\r', '\n'] := by
  obtain ⟨-, hsafe⟩ := mem_quote h
  simp only [List.mem_cons, List.not_mem_nil, or_false]
  rintro (rfl | rfl | rfl | rfl | rfl | rfl) <;> exact absurd hsafe (by decide)

theorem percent_unsafe : '%' ∉ SAFE.toList := by decide

theorem quote_ne_nil {argument : String} (h : argument ≠ "") :
    Urllib.quote SAFE.toList argument.toList ≠ [] := by
  intro hnil
  have htext := unquote_quote percent_unsafe argument.toList
  rw [hnil] at htext
  exact h (String.toList_injective htext.symm)

/-- The URI is taken apart where it was put together. -/
theorem urlsplit_uri_for {kind argument : String} (hkind : kind ∈ READERS) :
    urlsplit checks (uri_for kind argument).toList =
      .ok ⟨SCHEME.toList, kind.toList, '/' :: Urllib.quote SAFE.toList argument.toList, [], []⟩ := by
  have hparts : (uri_for kind argument).toList = SCHEME.toList ++ ':' :: '/' :: '/' ::
      (kind.toList ++ '/' :: Urllib.quote SAFE.toList argument.toList) := by
    simp [uri_for]
  have hkinds : ∀ kind ∈ READERS, (kind.toList.all fun c =>
      isAscii c && inNetloc c && !isRemoved c && !(['[', ']'].contains c)) = true := by
    decide
  have hnetloc : ∀ c ∈ kind.toList,
      isAscii c = true ∧ inNetloc c = true ∧ c ∉ ['[', ']'] ∧ isRemoved c = false := by
    intro c hc
    have hplain := List.all_eq_true.mp (hkinds kind hkind) c hc
    simp only [Bool.and_eq_true, Bool.not_eq_true'] at hplain
    exact ⟨hplain.1.1.1, hplain.1.1.2, by simpa using hplain.2, hplain.1.2⟩
  have hends : ['?', '#'] ⊆ ['/', '?', '#', '\t', '\r', '\n'] := by simp
  have hlines : ['\t', '\r', '\n'] ⊆ ['/', '?', '#', '\t', '\r', '\n'] := by simp
  have hscheme : ∀ c ∈ SCHEME.toList, c.isLower = true := List.all_eq_true.mp (by decide)
  rw [hparts]
  refine urlsplit_parts checks (by decide) hscheme hnetloc ?_
  intro c hc
  have hplain := plain_quoted hc
  refine ⟨fun hmem => hplain (hends hmem), ?_⟩
  rw [isRemoved, decide_eq_false_iff_not]
  exact fun hmem => hplain (hlines hmem)

/-- `_split` answers with the kind and the argument of the URI. -/
theorem split_built {kind argument : String} (hkind : kind ∈ READERS) (hne : argument ≠ "") :
    split py checks (uri_for kind argument) = .ok (kind, argument) := by
  have hslash : '/' ∉ Urllib.quote SAFE.toList argument.toList := fun hc => plain_quoted hc (by simp)
  have hsegments : (('/' :: Urllib.quote SAFE.toList argument.toList).splitOn '/').filter (· ≠ []) =
      [Urllib.quote SAFE.toList argument.toList] := by
    rw [List.splitOn_cons_eq_if_modifyHead, if_pos (by simp), List.splitOn_eq_singleton hslash]
    simp [quote_ne_nil hne]
  have hscheme : String.ofList SCHEME.toList = SCHEME := String.ofList_toList
  rw [split, urlsplit_uri_for checks hkind]
  simp only [hsegments, hscheme, List.map_cons, List.map_nil, unquote_quote percent_unsafe,
    ne_eq, not_true_eq_false, if_false, String.ofList_toList]

/-- CORRECT: resource URIs round-trip, so no two arguments share one. -/
theorem split_uri_for {kind argument : String} (hkind : kind ∈ READERS) (hne : argument ≠ "") :
    split py checks (uri_for kind argument) = .ok (kind, argument) ∧
      ∀ kind' argument', kind' ∈ READERS → argument' ≠ "" →
        uri_for kind' argument' = uri_for kind argument → kind' = kind ∧ argument' = argument := by
  refine ⟨split_built py checks hkind hne, fun kind' argument' hkind' hne' hsame => ?_⟩
  have hread := split_built py checks hkind' hne'
  rw [hsame, split_built py checks hkind hne] at hread
  simpa [eq_comm] using hread

/-- Enough of Python for a URI that is taken. -/
def python : Readers where
  UUID _ := false
  fromisoformat _ := none
  isoformat := toString
  repr text := "'" ++ text ++ "'"
  type_name _ := "str"

def ascii_only : Checks where
  bracketed _ := none
  nfkc := id

/-- A namespace that looks like URL syntax throughout. -/
theorem odd_namespace_read :
    split python ascii_only (uri_for "memory" "../a%2Fb?c#d\té") = .ok ("memory", "../a%2Fb?c#d\té") :=
  (split_uri_for python ascii_only (by decide) (by decide)).1

end GuardMem.Resources
