/-
# The query analyzer

`core/routing/query_analyzer.py`: the type of a query, by rules on its tokens.  Every rule is a
pattern, and leaves a signal when it fires.  The patterns are those of the source, read by the
matcher of `Text.Regex`: what `\w` matches is a table of the interpreter (`WordTable`), of which
the rules rely on the ASCII part and on that no blank is in it.
-/

import EvidenceLab.Retrieval.Hybrid
import EvidenceLab.Text.Regex
import EvidenceLab.Text.Split
import EvidenceLab.Text.Unicode
import Mathlib.Algebra.Order.Round
import Mathlib.Data.Rat.Floor

namespace EvidenceLab
namespace Routing

open Text Text.Regex Retrieval

/-! ### Characters -/

/-- The character is one of the range. -/
def within (first last : Char) (c : CodePoint) : Bool :=
  decide (ofChar first ≤ c) && decide (c ≤ ofChar last)

/-- `[A-Za-z]`. -/
def isLetter (c : CodePoint) : Bool := within 'A' 'Z' c || within 'a' 'z' c

/-- `[A-Z]`. -/
def isCapital (c : CodePoint) : Bool := within 'A' 'Z' c

/-- `\d`. -/
def isDecimal (c : CodePoint) : Bool := (decimalDigit c).isSome

/-- It is one of these characters. -/
def among (chars : List Char) (c : CodePoint) : Bool := (chars.map ofChar).contains c

/-- `\S`. -/
def isSolid (c : CodePoint) : Bool := !isSpace c

/-- The class of the first look ahead: a decimal digit, an underscore, a hyphen, a slash or a
full stop. -/
def isSpecial (c : CodePoint) : Bool := isDecimal c || among ['_', '-', '/', '.'] c

/-- `str.isalnum` of one character. -/
structure WordTable where
  isAlnum : CodePoint → Bool
  ascii : ∀ c : CodePoint, c.val < 0x80 → isAlnum c = (isLetter c || within '0' '9' c)
  solid : ∀ c, isSpace c = true → isAlnum c = false

/-- `\w`. -/
def WordTable.isWord (table : WordTable) (c : CodePoint) : Bool :=
  table.isAlnum c || c == ofChar '_'

/-- The ASCII letter that `re.IGNORECASE` takes the character for, if it does: the capitals, and
the four other characters that the tables of the interpreter fold to one. -/
def foldCase (c : CodePoint) : CodePoint :=
  if isCapital c then Fin.ofNat _ (c.val + 0x20)
  else if c.val = 0x130 ∨ c.val = 0x131 then ofChar 'i'
  else if c.val = 0x17F then ofChar 's'
  else if c.val = 0x212A then ofChar 'k'
  else c

/-! ### Patterns -/

/-- A character as it is. -/
def exact (x : Char) : Regex CodePoint := one (among [x])

/-- One of these lower case characters, under `re.IGNORECASE`. -/
def folded (chars : List Char) : Regex CodePoint := one fun c => among chars (foldCase c)

/-- A lower case text, under `re.IGNORECASE`. -/
def phrase (text : String) : Regex CodePoint :=
  text.toList.foldr (fun x r => seq (folded [x]) r) empty

/-- `_IDENTIFIER`: an identifier-shaped token. -/
def identifier : Regex CodePoint :=
  word (seq (ahead (seq (many (one isSolid)) (one isSpecial)))
    (seq (ahead (seq (many (one isSolid)) (one isLetter))) (atLeast 3 isSolid)))

/-- `_ACRONYM`: two or more capitals. -/
def acronym : Regex CodePoint := word (atLeast 2 isCapital)

/-- A text in these marks. -/
def inMarks (mark : Char) : Regex CodePoint :=
  seq (exact mark) (seq (atLeast 2 fun c => !among [mark] c) (exact mark))

/-- `_QUOTED`. -/
def quotation : Regex CodePoint := alt (inMarks '"') (inMarks '\'')

/-- `\d+`. -/
def digits : Regex CodePoint := plus (one isDecimal)

/-- `_NUMBER`. -/
def number : Regex CodePoint := word (seq digits (opt (seq (one (among ['.', ','])) digits)))

/-- `_YEAR`. -/
def year : Regex CodePoint :=
  word (alt (seq (exact '1') (seq (one (among ['8', '9'])) (exactly isDecimal 2 empty)))
    (seq (exact '2') (seq (exact '0') (exactly isDecimal 2 empty))))

/-- `_VERSION_OR_DECIMAL`. -/
def versionOrDecimal : Regex CodePoint :=
  word (seq digits (seq (exact '.') (seq digits (many (seq (exact '.') digits)))))

/-- `_COMPARATIVE`. -/
def comparative : Regex CodePoint :=
  word (oneOf [seq (phrase "vs") (opt (folded ['.'])), phrase "versus",
    seq (phrase "compare") (opt (folded ['d', 's'])), phrase "comparison",
    phrase "difference between", phrase "better than", phrase "worse than", phrase "rather than"])

/-- `_TEMPORAL`. -/
def temporal : Regex CodePoint :=
  word (oneOf (["before", "after", "since", "until", "during", "when", "latest", "current",
    "recent", "previously"].map phrase))

/-- `_MULTI_HOP`. -/
def multiHop : Regex CodePoint :=
  word (oneOf [phrase "and then", phrase "which also",
    seq (phrase "both ") (seq (plus (one fun c => c != lf)) (phrase " and")),
    phrase "as well as", phrase "in addition to", phrase "followed by"])

/-- `_NUMERIC_REASONING`. -/
def numericReasoning : Regex CodePoint :=
  word (oneOf (["how many", "how much", "average", "mean", "median", "total", "sum", "percent",
    "percentage", "rate", "ratio", "more than", "less than", "at least", "at most",
    "between"].map phrase))

/-- `_TECHNICAL`. -/
def technical : Regex CodePoint :=
  word (oneOf [phrase "error", phrase "exception",
    seq (phrase "stack") (seq (opt (folded [' '])) (phrase "trace")), phrase "endpoint",
    phrase "api", phrase "schema", phrase "migration", phrase "config", phrase "deploy",
    phrase "timeout", phrase "null", phrase "undefined", phrase "function", phrase "method",
    phrase "class", phrase "query", phrase "index"])

/-- `_QUESTION`. -/
def question : Regex CodePoint :=
  word (oneOf (["what", "why", "how", "when", "where", "who", "which", "explain",
    "describe"].map phrase))

/-! ### Signals -/

/-- The values of `QueryType`. -/
def queryTypeStr : QueryType → String
  | .conceptual => "conceptual"
  | .exactEntity => "exact_entity"
  | .technical => "technical"
  | .numeric => "numeric"
  | .multiHop => "multi_hop"
  | .comparative => "comparative"
  | .temporal => "temporal"
  | .ambiguous => "ambiguous"

/-- What a rule leaves when it fires. -/
inductive Signal
  | quotedPhrase | identifierToken | versionOrDecimal | acronym | numericReasoning | numericToken
  | comparativePhrase | temporalMarker | multiHopPhrase | technicalVocabulary | veryShort
  | noQuestionWord
  | type (queryType : QueryType)
  deriving DecidableEq, Repr

/-- The text of a signal. -/
def Signal.str : Signal → String
  | quotedPhrase => "quoted_phrase"
  | identifierToken => "identifier_token"
  | versionOrDecimal => "version_or_decimal"
  | acronym => "acronym"
  | numericReasoning => "numeric_reasoning"
  | numericToken => "numeric_token"
  | comparativePhrase => "comparative_phrase"
  | temporalMarker => "temporal_marker"
  | multiHopPhrase => "multi_hop_phrase"
  | technicalVocabulary => "technical_vocabulary"
  | veryShort => "very_short"
  | noQuestionWord => "no_question_word"
  | type queryType => "type:" ++ queryTypeStr queryType

/-- `QueryAnalysis`. -/
structure QueryAnalysis where
  queryType : QueryType
  difficulty : ℚ := 1 / 2
  ambiguity : ℚ := 0
  requiresExactMatch : Bool := false
  requiresMultihop : Bool := false
  requiresNumericReasoning : Bool := false
  entities : List Str := []
  signals : List String := []

/-! ### Rules -/

/-- The signal of a rule, if it fires. -/
def signalIf (fires : Bool) (signal : Signal) : List Signal := if fires then [signal] else []

section Rules

variable (table : WordTable) (text : Str)

/-- The texts in quotation marks: `match.group(1) or match.group(2)`, which is the match without
its marks. -/
def quotedPhrases : List Str :=
  (findAll table.isWord quotation text).map fun m => slice text (m.1 + 1) (m.2 - 1)

/-- The tokens that the identifier rule reports: a bare year is none. -/
def identifiers : List Str :=
  (findTexts table.isWord identifier text).filter fun token => !fullMatch table.isWord year token

/-- The versions and decimal figures. -/
def versions : List Str := findTexts table.isWord versionOrDecimal text

/-- The acronyms that are not part of an identifier. -/
def acronyms : List Str :=
  (findTexts table.isWord acronym text).filter fun token =>
    !(identifiers table text).any fun other => decide (token <:+: other)

/-- `_entities`: the tokens that must match literally, in order and each once. -/
def entities : List Str :=
  (quotedPhrases table text ++ identifiers table text ++ versions table text ++
    acronyms table text).eraseDups

theorem mem_entities {token : Str} : token ∈ entities table text ↔
    token ∈ quotedPhrases table text ∨ token ∈ identifiers table text ∨
      token ∈ versions table text ∨ token ∈ acronyms table text := by
  rw [entities, List.mem_eraseDups]
  simp only [List.mem_append, or_assoc]

/-- The signals of `_entities`. -/
def entitySignals : List Signal :=
  signalIf (quotedPhrases table text != []) .quotedPhrase ++
    signalIf (identifiers table text != []) .identifierToken ++
    signalIf (versions table text != []) .versionOrDecimal ++
    signalIf (acronyms table text != []) .acronym

/-- `[word for word in re.split(r"\s+", stripped) if word]`. -/
def wordsOf : List Str := (split (lead isSpace) text).filter (· ≠ [])

/-- The figures that are not years. -/
def nonYearNumbers : List Str :=
  (findTexts table.isWord number text).filter fun token => !fullMatch table.isWord year token

/-- `_AMBIGUOUS_WORD_COUNT`. -/
def ambiguousWordCount : ℕ := 2

/-- `_ambiguity`. -/
def ambiguityOf (words : List Str) : ℚ × List Signal :=
  if words.length ≤ ambiguousWordCount then (4 / 5, [.veryShort])
  else if !search table.isWord question text && decide (words.length ≤ 4) then
    (1 / 2, [.noQuestionWord])
  else (1 / 10, [])

end Rules

/-- `_difficulty`: rounded to thousandths, none of its values being a tie. -/
def difficultyOf (words : List Str) (multihop comparative : Bool) (ambiguity : ℚ) : ℚ :=
  let score : ℚ := 3 / 10 + (if multihop then 3 / 10 else 0) + (if comparative then 3 / 20 else 0) +
    (if 15 < words.length then 3 / 20 else 0) + ambiguity * (1 / 5)
  round (min 1 score * 1000) / 1000

/-- `_classify`: one type, most specific first. -/
def classify (words : List Str)
    (hasExact numeric numericReasoning comparative temporal multihop technical : Bool)
    (ambiguity : ℚ) : QueryType :=
  if words = [] then .ambiguous
  else if multihop then .multiHop
  else if numericReasoning then .numeric
  else if hasExact then .exactEntity
  else if comparative then .comparative
  else if numeric then .numeric
  else if temporal then .temporal
  else if technical then .technical
  else if 4 / 5 ≤ ambiguity then .ambiguous
  else .conceptual

/-- `analyze`. -/
def analyze (table : WordTable) (text : Str) : QueryAnalysis :=
  let stripped := strip isSpace text
  let words := wordsOf stripped
  let found := entities table stripped
  let hasExact := found != []
  let numericReasoning := search table.isWord numericReasoning stripped
  let numeric := numericReasoning || nonYearNumbers table stripped != []
  let comparative := search table.isWord comparative stripped
  let temporal := search table.isWord temporal stripped || search table.isWord year stripped
  let multihop :=
    search table.isWord multiHop stripped || decide (1 < stripped.count (ofChar '?'))
  let technical := search table.isWord technical stripped
  let ambiguity := ambiguityOf table stripped words
  let queryType := classify words hasExact numeric numericReasoning comparative temporal multihop
    technical ambiguity.1
  let signals := entitySignals table stripped ++
    signalIf numeric (if numericReasoning then .numericReasoning else .numericToken) ++
    signalIf comparative .comparativePhrase ++ signalIf temporal .temporalMarker ++
    signalIf multihop .multiHopPhrase ++ signalIf technical .technicalVocabulary ++
    ambiguity.2 ++ [.type queryType]
  { queryType
    difficulty := difficultyOf words multihop comparative ambiguity.1
    ambiguity := ambiguity.1
    requiresExactMatch := hasExact
    requiresMultihop := multihop
    requiresNumericReasoning := numericReasoning
    entities := found
    signals := signals.map Signal.str }

end Routing
end EvidenceLab
