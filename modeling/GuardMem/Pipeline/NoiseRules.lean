import Mathlib.Data.List.Infix
import GuardMem.Pipeline.SpanLinker

/-! The deterministic half of the noise filter: `noise_rules`.

    A regular expression over a normalised text, which is words of `[a-z0-9]` with single spaces between
    them, is a run of words in it. Each rule is a strict subset of the class it detects; what they
    decline, `is_ambiguous` may send to a model. -/

namespace GuardMem

abbrev TurnId := String

inductive TurnRole where
  | USER
  | ASSISTANT
  | TOOL
  deriving DecidableEq

def TurnRole.value : TurnRole → String
  | .USER => "user"
  | .ASSISTANT => "assistant"
  | .TOOL => "tool"

/-- A `datetime`: an instant, and whether it names its offset from UTC. -/
structure Timestamp where
  instant : Time
  aware : Bool := true
  deriving DecidableEq

/-- One message in a proposal, before anything has been extracted from it. -/
structure Turn where
  turn_id : TurnId
  role : TurnRole
  text : String
  captured_at : Option Timestamp := none
  deriving DecidableEq

/-- Why Layer 1 dropped a turn. -/
inductive NoiseReason where
  | EPHEMERAL
  | IMPERATIVE
  | RESTATEMENT
  | HYPOTHETICAL
  | THIRD_PARTY
  deriving DecidableEq

/-! ### Words -/

/-- The maximal runs of characters that satisfy `p`. -/
def runs (p : Char → Bool) (cs : List Char) : List String :=
  let close (open_run : List Char) (closed : List String) : List String :=
    if open_run = [] then closed else String.ofList open_run :: closed
  let scan := cs.foldr (fun c acc => if p c then (c :: acc.1, acc.2) else ([], close acc.1 acc.2)) ([], [])
  close scan.1 scan.2

/-- `text.split()`. -/
def split (text : String) : List String := runs (! isspace ·) text.toList

def FILLER : List String :=
  ["a", "afternoon", "again", "ah", "alright", "and", "anyway", "bye", "certainly", "check",
    "checking", "cool", "evening", "excuse", "fine", "for", "give", "go", "good", "goodbye", "got",
    "great", "hang", "hello", "hey", "hi", "hmm", "hold", "is", "it", "just", "k", "let", "look",
    "looking", "me", "mhm", "minute", "moment", "morning", "nice", "np", "of", "ok", "okay", "on",
    "one", "perfect", "please", "problem", "roger", "sec", "second", "sorry", "sounds", "sure",
    "thank", "thanks", "that", "there", "thing", "u", "uh", "uhm", "um", "understood", "welcome",
    "while", "worries", "you", "your"]

def MAX_FILLER_TOKENS : ℕ := 6

def AGENT_VERBS : List String :=
  ["clarify", "continue", "delete", "explain", "forget", "ignore", "list", "read", "recap",
    "repeat", "rephrase", "reread", "restate", "say", "search", "show", "stop", "summarise",
    "summarize", "translate"]

/-- Politeness and modal scaffolding that can precede an agent verb. -/
def IMPERATIVE_PREFIXES : List (List String) :=
  [["can", "you"], ["could", "you"], ["would", "you"], ["will", "you"], ["go", "ahead", "and"],
    ["please"], ["just"], ["now"]]

def META : List String :=
  ["again", "all", "back", "everything", "for", "i", "it", "just", "last", "me", "my", "of", "one",
    "please", "point", "previous", "said", "that", "the", "them", "these", "this", "those", "to",
    "up", "what", "you", "your"]

/-- The alternatives of the speculation pattern, each a run of whole words. -/
def HYPOTHETICAL : List (List String) :=
  [["hypothetically"], ["theoretically"], ["in", "theory"], ["what", "if"], ["suppose"],
    ["supposing"], ["imagine"], ["lets", "say"], ["lets", "pretend"],
    ["for", "the", "sake", "of", "argument"]]

def COUNTERFACTUAL : List String := ["would", "might"]

def RELATIONS : List String :=
  ["aunt", "boss", "boyfriend", "brother", "colleague", "cousin", "coworker", "dad", "daughter",
    "father", "friend", "girlfriend", "grandfather", "grandma", "grandmother", "grandpa", "husband",
    "mom", "mother", "mum", "neighbor", "neighbour", "nephew", "niece", "partner", "roommate",
    "sister", "son", "uncle", "wife"]

def SHORT_TURN_TOKENS : ℕ := 6

def NEAR_DUPLICATE_RATIO : ℚ := 93

/-! ### The rules -/

variable (lower : String → String)

/-- Lowercase, drop apostrophes, and reduce everything else to single spaces. -/
def normalise (text : String) : String :=
  let bare := (lower text).toList.filter fun c => c ≠ Char.ofNat 0x27 ∧ c ≠ Char.ofNat 0x2019
  let word (c : Char) : Bool := ('a' ≤ c && c ≤ 'z') || ('0' ≤ c && c ≤ '9')
  " ".intercalate (runs word bare)

/-- What has already been said in this trace, normalised once. -/
abbrev TurnHistory := List String

/-- Is this turn an exact repeat of something already said in this trace? -/
def is_restatement (normalised : String) (history : TurnHistory) : Bool :=
  normalised ≠ "" && history.contains normalised

/-- Is the turn nothing but filler? -/
def is_ephemeral (tokens : List String) : Bool :=
  if tokens.isEmpty || MAX_FILLER_TOKENS < tokens.length then false
  else tokens.all FILLER.contains

/-- Remove one leading politeness or modal prefix, if present. -/
def strip_imperative_prefix (tokens : List String) : List String :=
  match IMPERATIVE_PREFIXES.find? fun words => words == tokens.take words.length with
  | some words => tokens.drop words.length
  | none => tokens

/-- Does the turn open with an instruction to the assistant? -/
def heads_an_agent_verb (tokens : List String) : Bool :=
  match strip_imperative_prefix tokens with
  | verb :: _ => AGENT_VERBS.contains verb
  | [] => false

/-- Is this an instruction to the assistant that states no fact? -/
def is_imperative (tokens : List String) : Bool :=
  heads_an_agent_verb tokens && ( strip_imperative_prefix tokens).tail.all META.contains

/-- Is this speculation rather than a claim? -/
def is_hypothetical (tokens : List String) : Bool :=
  HYPOTHETICAL.any (fun phrase => phrase <:+: tokens) ||
    (tokens.contains "if" && tokens.any COUNTERFACTUAL.contains)

/-- Decide a turn deterministically, or decline to. -/
def rule_verdict (turn : Turn) (history : TurnHistory) : Option NoiseReason :=
  let normalised := normalise lower turn.text
  let tokens := split normalised
  if is_ephemeral tokens then some .EPHEMERAL
  else if is_restatement normalised history then some .RESTATEMENT
  else if is_imperative tokens then some .IMPERATIVE
  else if is_hypothetical tokens then some .HYPOTHETICAL
  else none

variable (fz : Rapidfuzz)

/-- Is the turn lexically close to something already said, without matching it? -/
def near_duplicate (normalised : String) (history : TurnHistory) : Bool :=
  history.any fun earlier => NEAR_DUPLICATE_RATIO ≤ fz.ratio normalised earlier

/-- Is this turn worth spending a FAST-tier classifier call on? -/
def is_ambiguous (turn : Turn) (history : TurnHistory) : Bool :=
  let normalised := normalise lower turn.text
  let tokens := split normalised
  if tokens.isEmpty then false
  else tokens.any RELATIONS.contains || tokens.contains "if" || heads_an_agent_verb tokens ||
    tokens.length ≤ SHORT_TURN_TOKENS || near_duplicate fz normalised history

end GuardMem
