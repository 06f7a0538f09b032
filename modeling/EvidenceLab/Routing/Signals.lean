/-
# What the signals explain

A rule of the analyzer leaves its signal iff it fires (`mem_fired_iff`), and whatever decides on
the type of a query leaves one: the type is a function of the signals (`queryType_eq_typeOf`), and
so are the three requirements.  Two queries with the same signals are therefore classified, and
searched, in the same way (`signals_explain`).
-/

import EvidenceLab.Routing.Characters
import EvidenceLab.Text.Stretches

namespace EvidenceLab
namespace Routing

open Text Text.Regex Retrieval

variable {table : WordTable}

/-! ### The texts of the signals -/

/-- All signals. -/
def Signal.all : List Signal :=
  [quotedPhrase, identifierToken, versionOrDecimal, acronym, numericReasoning, numericToken,
    comparativePhrase, temporalMarker, multiHopPhrase, technicalVocabulary, veryShort,
    noQuestionWord, type .conceptual, type .exactEntity, type .technical, type .numeric,
    type .multiHop, type .comparative, type .temporal, type .ambiguous]

theorem Signal.mem_all (signal : Signal) : signal ∈ Signal.all := by
  cases signal with
  | type queryType => cases queryType <;> decide
  | _ => decide

/-- No two signals have the same text. -/
theorem Signal.str_injective : Function.Injective Signal.str := by
  have hnodup : (Signal.all.map Signal.str).Nodup := by decide
  intro signal signal' h
  exact List.inj_on_of_nodup_map hnodup signal.mem_all signal'.mem_all h

/-- `s.startswith("type:")`. -/
def startsWithType (s : String) : Bool := "type:".toList.isPrefixOf s.toList

/-- The signals without the one that names the type. -/
def withoutType (signals : List String) : List String := signals.filter fun s => !startsWithType s

theorem startsWithType_str (signal : Signal) :
    startsWithType signal.str = true ↔ ∃ queryType, signal = .type queryType := by
  cases signal with
  | type queryType =>
      refine iff_of_true ?_ ⟨queryType, rfl⟩
      cases queryType <;> decide
  | _ => exact iff_of_false (by decide) (by rintro ⟨_, ⟨⟩⟩)

/-! ### The rules that fire -/

/-- The signals of the rules that fire on a stripped text, in order. -/
def fired (table : WordTable) (s : Str) : List Signal :=
  let numericReasoning := search table.isWord numericReasoning s
  entitySignals table s ++
    signalIf (numericReasoning || nonYearNumbers table s != [])
      (if numericReasoning then .numericReasoning else .numericToken) ++
    signalIf (search table.isWord comparative s) .comparativePhrase ++
    signalIf (search table.isWord temporal s || search table.isWord year s) .temporalMarker ++
    signalIf (search table.isWord multiHop s || decide (1 < s.count (ofChar '?')))
      .multiHopPhrase ++
    signalIf (search table.isWord technical s) .technicalVocabulary ++
    (ambiguityOf table s (wordsOf s)).2

theorem signals_analyze (text : Str) : (analyze table text).signals =
    (fired table (strip isSpace text)).map Signal.str ++
      [(Signal.type (analyze table text).queryType).str] := by
  rw [analyze]
  dsimp only
  rw [List.map_append, List.map_singleton, fired]

/-- When the rule of a signal fires. -/
def Fires (table : WordTable) (s : Str) : Signal → Prop
  | .quotedPhrase => quotedPhrases table s ≠ []
  | .identifierToken => identifiers table s ≠ []
  | .versionOrDecimal => versions table s ≠ []
  | .acronym => acronyms table s ≠ []
  | .numericReasoning => search table.isWord numericReasoning s = true
  | .numericToken =>
      search table.isWord numericReasoning s = false ∧ nonYearNumbers table s ≠ []
  | .comparativePhrase => search table.isWord comparative s = true
  | .temporalMarker => search table.isWord temporal s = true ∨ search table.isWord year s = true
  | .multiHopPhrase => search table.isWord multiHop s = true ∨ 1 < s.count (ofChar '?')
  | .technicalVocabulary => search table.isWord technical s = true
  | .veryShort => (wordsOf s).length ≤ ambiguousWordCount
  | .noQuestionWord => ambiguousWordCount < (wordsOf s).length ∧ (wordsOf s).length ≤ 4 ∧
      search table.isWord question s = false
  | .type _ => False

theorem mem_signalIf {fires : Bool} {signal signal' : Signal} :
    signal ∈ signalIf fires signal' ↔ fires = true ∧ signal = signal' := by
  rw [signalIf]
  split_ifs with h <;> simp [h]

theorem mem_ambiguityOf {s : Str} {signal : Signal} :
    signal ∈ (ambiguityOf table s (wordsOf s)).2 ↔
      (signal = .veryShort ∨ signal = .noQuestionWord) ∧ Fires table s signal := by
  have hcount : ∀ n, n < (wordsOf s).length → ¬ (wordsOf s).length ≤ n := fun _ => Nat.not_le.mpr
  rw [ambiguityOf]
  split_ifs with hshort hquestion
  · constructor
    · intro h
      obtain rfl := List.mem_singleton.mp h
      exact ⟨Or.inl rfl, hshort⟩
    · rintro ⟨rfl | rfl, hfires⟩
      · exact List.mem_singleton_self _
      · exact absurd hshort (hcount _ hfires.1)
  · obtain ⟨hquestion, hfour⟩ := Bool.and_eq_true_iff.mp hquestion
    have hfires : Fires table s .noQuestionWord :=
      ⟨Nat.not_le.mp hshort, of_decide_eq_true hfour, Bool.not_eq_true' _ ▸ hquestion⟩
    constructor
    · intro h
      obtain rfl := List.mem_singleton.mp h
      exact ⟨Or.inr rfl, hfires⟩
    · rintro ⟨rfl | rfl, hfires⟩
      · exact absurd hfires hshort
      · exact List.mem_singleton_self _
  · refine iff_of_false List.not_mem_nil ?_
    rintro ⟨rfl | rfl, hfires⟩
    · exact hshort hfires
    · obtain ⟨-, hfour, hquestion'⟩ := hfires
      exact hquestion (by rw [hquestion', decide_eq_true hfour]; rfl)

/-- **A signal is left iff its rule fires.** -/
theorem mem_fired_iff {s : Str} {signal : Signal} :
    signal ∈ fired table s ↔ Fires table s signal := by
  cases hnumeric : search table.isWord numericReasoning s <;> cases signal <;>
    simp [fired, entitySignals, mem_signalIf, mem_ambiguityOf, Fires, hnumeric]

/-! ### The type -/

/-- Some signal is that of an entity. -/
def NamesEntity (signals : List Signal) : Prop :=
  .quotedPhrase ∈ signals ∨ .identifierToken ∈ signals ∨ .versionOrDecimal ∈ signals ∨
    .acronym ∈ signals

instance (signals : List Signal) : Decidable (NamesEntity signals) :=
  inferInstanceAs (Decidable (_ ∨ _))

/-- The type of a query, read off its signals. -/
def typeOf (signals : List Signal) : QueryType :=
  if .multiHopPhrase ∈ signals then .multiHop
  else if .numericReasoning ∈ signals then .numeric
  else if NamesEntity signals then .exactEntity
  else if .comparativePhrase ∈ signals then .comparative
  else if .numericToken ∈ signals then .numeric
  else if .temporalMarker ∈ signals then .temporal
  else if .technicalVocabulary ∈ signals then .technical
  else if .veryShort ∈ signals then .ambiguous
  else .conceptual

theorem entities_ne_nil_iff {s : Str} : entities table s ≠ [] ↔ NamesEntity (fired table s) := by
  have hnil : entities table s = [] ↔ quotedPhrases table s = [] ∧ identifiers table s = [] ∧
      versions table s = [] ∧ acronyms table s = [] := by
    rw [List.eq_nil_iff_forall_not_mem]
    simp only [mem_entities, not_or, forall_and, ← List.eq_nil_iff_forall_not_mem]
  simp only [NamesEntity, mem_fired_iff, Fires]
  rw [ne_eq, hnil, not_and_or, not_and_or, not_and_or]

/-- Only a stripped text that is empty has no words. -/
theorem wordsOf_eq_nil {text : Str} (h : wordsOf (strip isSpace text) = []) :
    strip isSpace text = [] := by
  have hsep : Separates (lead isSpace) fun sep => ∀ c ∈ sep, isSpace c = true := by
    intro s
    refine ⟨Nat.sub_le .., fun _ c hc => ?_⟩
    rw [lead_eq_length_takeWhile,
      ← List.prefix_iff_eq_take.mp (List.takeWhile_prefix isSpace)] at hc
    exact List.mem_takeWhile_imp hc
  have hsolid := (cut_split hsep (strip isSpace text)).flatMap_solid fun _ h => h
  have hempty : ∀ piece ∈ split (lead isSpace) (strip isSpace text), piece = [] := by
    intro piece hpiece
    by_contra hne
    exact List.ne_nil_of_mem (List.mem_filter.mpr ⟨hpiece, decide_eq_true hne⟩) h
  have hblank : ∀ c ∈ strip isSpace text, isSpace c = true := by
    rw [← solid_eq_nil_iff, ← hsolid, List.flatMap_eq_nil_iff]
    intro piece hpiece
    rw [hempty piece hpiece]
    rfl
  by_contra hne
  have hhead := (stripped_strip isSpace text).1 _ (List.head?_eq_some_head hne)
  rw [hblank _ (List.head_mem hne)] at hhead
  cases hhead

theorem le_ambiguityOf {s : Str} {words : List Str} :
    4 / 5 ≤ (ambiguityOf table s words).1 ↔ words.length ≤ ambiguousWordCount := by
  rw [ambiguityOf]
  split_ifs with hshort
  · exact iff_of_true le_rfl hshort
  · exact iff_of_false (by norm_num) hshort
  · exact iff_of_false (by norm_num) hshort

/-- On the empty text no rule on patterns fires. -/
theorem fired_nil : fired table [] = [.veryShort] := by
  have hsearch : ∀ r, search table.isWord (word r) [] = false := fun _ => rfl
  have hentities : entitySignals table [] = [] := rfl
  have hfigures : nonYearNumbers table [] = [] := rfl
  have hshort : ambiguityOf table [] (wordsOf []) = (4 / 5, [.veryShort]) := rfl
  rw [fired, hentities, hfigures, hshort, numericReasoning, comparative, temporal, year, multiHop,
    technical]
  simp only [hsearch]
  rfl

/-- **The type is a function of the signals.** -/
theorem queryType_eq_typeOf (text : Str) :
    (analyze table text).queryType = typeOf (fired table (strip isSpace text)) := by
  rcases eq_or_ne (wordsOf (strip isSpace text)) [] with hnil | hne
  · -- Nothing fires on the empty text, and the last rule gives the same type.
    rw [analyze, classify, if_pos hnil, wordsOf_eq_nil hnil, fired_nil]
    rfl
  · rw [analyze, classify, if_neg hne, typeOf]
    simp only [← entities_ne_nil_iff, mem_fired_iff, Fires, le_ambiguityOf, Bool.or_eq_true,
      decide_eq_true_eq, bne_iff_ne]
    cases hnumeric : search table.isWord numericReasoning (strip isSpace text) with
    | true => simp only [if_true]
    | false => simp only [Bool.false_eq_true, false_or, true_and]

/-- The rules that come before the one for exact entities. -/
theorem typeOf_eq_exactEntity {signals : List Signal} : typeOf signals = .exactEntity ↔
    .multiHopPhrase ∉ signals ∧ .numericReasoning ∉ signals ∧ NamesEntity signals := by
  rw [typeOf]
  by_cases hhops : .multiHopPhrase ∈ signals
  · simp [hhops]
  · by_cases hnumeric : .numericReasoning ∈ signals
    · simp [hhops, hnumeric]
    · by_cases hnames : NamesEntity signals
      · simp [hhops, hnumeric, hnames]
      · -- No rule behind this one gives the type.
        rw [if_neg hhops, if_neg hnumeric, if_neg hnames]
        split_ifs <;> simp [hnames]

/-! ### Two queries -/

/-- Two texts of which the same rules fire, by the texts of their signals. -/
theorem fired_eq {text text' : Str}
    (h : withoutType (analyze table text).signals = withoutType (analyze table text').signals) :
    fired table (strip isSpace text) = fired table (strip isSpace text') := by
  have hdrop : ∀ text, withoutType (analyze table text).signals =
      (fired table (strip isSpace text)).map Signal.str := by
    intro text
    rw [signals_analyze, withoutType, List.filter_append]
    have hkept : ∀ s ∈ (fired table (strip isSpace text)).map Signal.str,
        (!startsWithType s) = true := by
      intro s hs
      obtain ⟨signal, hsignal, rfl⟩ := List.mem_map.mp hs
      rw [Bool.not_eq_true', Bool.eq_false_iff, ne_eq, startsWithType_str]
      rintro ⟨queryType, rfl⟩
      exact mem_fired_iff.mp hsignal
    have hdropped : (!startsWithType (Signal.type (analyze table text).queryType).str) = false := by
      rw [Bool.not_eq_false', startsWithType_str]
      exact ⟨_, rfl⟩
    rw [List.filter_eq_self.mpr hkept, List.filter_cons_of_neg (by rw [hdropped]; decide),
      List.filter_nil, List.append_nil]
  rw [hdrop, hdrop] at h
  exact List.map_injective_iff.mpr Signal.str_injective h

/-- **The signals explain the decision**: two queries with the same signals, but for the one that
names the type, have the same type and requirements, and are searched with the same profile. -/
theorem signals_explain (table : WordTable) (policy : RuleBasedRetrievalPolicy) (text text' : Str)
    (h : withoutType (analyze table text).signals = withoutType (analyze table text').signals) :
    (analyze table text).queryType = (analyze table text').queryType ∧
    (analyze table text).requiresExactMatch = (analyze table text').requiresExactMatch ∧
    (analyze table text).requiresMultihop = (analyze table text').requiresMultihop ∧
    (analyze table text).requiresNumericReasoning =
      (analyze table text').requiresNumericReasoning ∧
    policy.profileFor (analyze table text).queryType =
      policy.profileFor (analyze table text').queryType := by
  have hfired := fired_eq h
  have hsame : ∀ signal, Fires table (strip isSpace text) signal ↔
      Fires table (strip isSpace text') signal := by
    intro signal
    rw [← mem_fired_iff, ← mem_fired_iff, hfired]
  have htype : (analyze table text).queryType = (analyze table text').queryType := by
    rw [queryType_eq_typeOf, queryType_eq_typeOf, hfired]
  refine ⟨htype, ?_, ?_, ?_, congrArg policy.profileFor htype⟩
  · rw [Bool.eq_iff_iff, analyze, analyze, bne_iff_ne, bne_iff_ne, entities_ne_nil_iff,
      entities_ne_nil_iff, hfired]
  · rw [Bool.eq_iff_iff, analyze, analyze, Bool.or_eq_true, Bool.or_eq_true, decide_eq_true_eq,
      decide_eq_true_eq]
    exact hsame .multiHopPhrase
  · rw [Bool.eq_iff_iff]
    exact hsame .numericReasoning

/-- Two comparisons, each with a figure. -/
def catsVersus : Str := lit "cats vs 12 dogs".toList

def birdsVersus : Str := lit "345 birds versus fish".toList

theorem signals_explain_versus :
    withoutType (analyze asciiTable catsVersus).signals =
      withoutType (analyze asciiTable birdsVersus).signals ∧
    (analyze asciiTable catsVersus).queryType = (analyze asciiTable birdsVersus).queryType := by
  have hsame : withoutType (analyze asciiTable catsVersus).signals =
      withoutType (analyze asciiTable birdsVersus).signals := by decide +kernel
  exact ⟨hsame, (signals_explain asciiTable defaultPolicy catsVersus birdsVersus hsame).1⟩

end Routing
end EvidenceLab
