import Mathlib.Data.List.Forall2
import Sinnlos.Lib.Json
import Sinnlos.Lib.Text

/-! # Lesson quizzes

The strict reader, the lenient reader and the grader of a quiz, and the reader of
a list of selections (`packages/domain/src/training.ts`). A value that is
`undefined` is none; text is counted in UTF-16 code units.
-/

namespace Sinnlos.Domain

open Text (trim)

structure QuizQuestion where
  question : String
  options : List String
  correctIndex : Nat
deriving DecidableEq

def QUIZ_MAX_QUESTIONS : Nat := 20
def QUIZ_MAX_OPTIONS : Nat := 8
def QUIZ_MAX_TEXT : Nat := 500

/-! ## Lengths -/

/-- The code units of a text. -/
def codeUnits : List Char → Nat
  | [] => 0
  | c :: text => (if c.toNat < 0x10000 then 1 else 2) + codeUnits text

/-- `length` of a string. -/
def textLength (text : String) : Nat := codeUnits text.toList

theorem codeUnits_le_of_sublist {a b : List Char} (h : a.Sublist b) : codeUnits a ≤ codeUnits b := by
  induction h with
  | slnil => exact Nat.le_refl _
  | cons c _ ih | cons_cons c _ ih =>
      simp only [codeUnits]
      omega

theorem textLength_trim_le (text : String) : textLength (trim text) ≤ textLength text := by
  unfold textLength trim
  rw [String.toList_ofList]
  apply codeUnits_le_of_sublist
  have front := List.dropWhile_sublist Text.isTrimmed (l := text.toList)
  have back := (List.rdropWhile_prefix Text.isTrimmed
    (l := text.toList.dropWhile Text.isTrimmed)).sublist
  exact back.trans front

/-! ## Texts and indices -/

/-- The texts of an array in which every item is one that is `ok`. -/
def texts? (ok : String → Bool) : List Json → Option (List String)
  | [] => some []
  | .str text :: items => if ok text then (texts? ok items).map (text :: ·) else none
  | _ :: _ => none

variable {items : List Json} {item : Json} {q : QuizQuestion} {quiz : List QuizQuestion}
  {raw : Option Json}

theorem texts?_eq_some {ok : String → Bool} {texts : List String} :
    texts? ok items = some texts ↔ items = texts.map Json.str ∧ ∀ text ∈ texts, ok text = true := by
  induction items generalizing texts with
  | nil =>
      cases texts with
      | nil => simp [texts?]
      | cons text texts => simp [texts?]
  | cons item items ih =>
      cases item with
      | str text =>
          simp only [texts?]
          cases hok : ok text with
          | false =>
              simp only [Bool.false_eq_true, if_false, reduceCtorEq, false_iff, not_and]
              intro hitems hall
              cases texts with
              | nil => cases hitems
              | cons t texts =>
                  simp only [List.map_cons, List.cons.injEq, Json.str.injEq] at hitems
                  have ht := hall t List.mem_cons_self
                  rw [← hitems.1, hok] at ht
                  cases ht
          | true =>
              simp only [if_true, Option.map_eq_some_iff]
              constructor
              · rintro ⟨rest, hrest, rfl⟩
                obtain ⟨rfl, hall⟩ := ih.mp hrest
                refine ⟨rfl, ?_⟩
                rw [List.forall_mem_cons]
                exact ⟨hok, hall⟩
              · rintro ⟨hitems, hall⟩
                cases texts with
                | nil => cases hitems
                | cons t texts =>
                    simp only [List.map_cons, List.cons.injEq, Json.str.injEq] at hitems
                    obtain ⟨rfl, hitems⟩ := hitems
                    rw [List.forall_mem_cons] at hall
                    exact ⟨texts, ih.mpr ⟨hitems, hall.2⟩, rfl⟩
      | null | bool _ | num _ | arr _ | obj _ =>
          cases texts with
          | nil | cons text texts => simp [texts?]

/-- A number that is an integer from 0 and below `bound`. -/
def index? (bound : Nat) : Option Json → Option Nat
  | some (.num value) =>
      if value.den = 1 ∧ 0 ≤ value.num ∧ value.num < bound then some value.num.toNat else none
  | _ => none

theorem index?_eq_some {bound n : Nat} {value : Option Json} :
    index? bound value = some n ↔ value = some (.num n) ∧ n < bound := by
  constructor
  · intro h
    unfold index? at h
    split at h
    · rename_i r
      split at h
      · rename_i hr
        obtain ⟨hden, hpos, hlt⟩ := hr
        cases h
        have hcast : (r.num.toNat : Int) = r.num := Int.toNat_of_nonneg hpos
        refine ⟨?_, by omega⟩
        have hint : (r.num : Rat) = r := Rat.den_eq_one_iff r |>.mp hden
        congr 2
        rw [← hint]
        calc (r.num : Rat) = ((r.num.toNat : Int) : Rat) := by rw [hcast]
          _ = (r.num.toNat : Rat) := by push_cast; rfl
      · cases h
    · cases h
  · rintro ⟨rfl, hlt⟩
    have hden : ((n : Rat)).den = 1 := Rat.den_natCast n
    have hnum : ((n : Rat)).num = n := Rat.num_natCast n
    simp [index?, hden, hnum, hlt]

/-! ## The readers -/

/-- `quiz[i]`, read strictly and trimmed, or what is wrong with it. -/
def readQuestion (i : Nat) : Json → Except String QuizQuestion
  | .obj fields =>
      match Json.field? "question" fields with
      | some (.str question) =>
          if trim question = "" ∨ QUIZ_MAX_TEXT < textLength question then
            .error s!"quiz[{i}].question: nicht-leerer Text (max. {QUIZ_MAX_TEXT} Zeichen) erforderlich"
          else
            match Json.field? "options" fields with
            | some (.arr items) =>
                if items.length < 2 ∨ QUIZ_MAX_OPTIONS < items.length then
                  .error s!"quiz[{i}].options: 2–{QUIZ_MAX_OPTIONS} nicht-leere Texte erforderlich"
                else
                  match texts? (fun text =>
                    decide (trim text ≠ "") && decide (textLength text ≤ QUIZ_MAX_TEXT)) items with
                  | some options =>
                      match index? options.length (Json.field? "correctIndex" fields) with
                      | some correctIndex => .ok ⟨trim question, options.map trim, correctIndex⟩
                      | none =>
                          .error
                            s!"quiz[{i}].correctIndex: ganze Zahl zwischen 0 und {options.length - 1}"
                  | none =>
                      .error s!"quiz[{i}].options: 2–{QUIZ_MAX_OPTIONS} nicht-leere Texte erforderlich"
            | _ => .error s!"quiz[{i}].options: 2–{QUIZ_MAX_OPTIONS} nicht-leere Texte erforderlich"
      | _ => .error s!"quiz[{i}].question: nicht-leerer Text (max. {QUIZ_MAX_TEXT} Zeichen) erforderlich"
  | _ => .error s!"quiz[{i}]: Objekt erwartet"

/-- The loop of `validateQuiz` from index `i` on. -/
def readQuestions (i : Nat) : List Json → Except String (List QuizQuestion)
  | [] => .ok []
  | item :: items => do
      let question ← readQuestion i item
      let quiz ← readQuestions (i + 1) items
      return question :: quiz

def quizShapeError : String :=
  "quiz muss ein JSON-Array sein: [\x7b\"question\":\"…\",\"options\":[\"…\",\"…\"],\"correctIndex\":0\x7d]"

/-- The normalised quiz, or the message of the refusal. -/
def validateQuiz : Option Json → Except String (List QuizQuestion)
  | none | some .null => .ok []
  | some (.arr items) =>
      if QUIZ_MAX_QUESTIONS < items.length then .error s!"quiz: maximal {QUIZ_MAX_QUESTIONS} Fragen"
      else readQuestions 0 items
  | some _ => .error quizShapeError

/-- An entry of the lenient reader; none is dropped. -/
def parseQuestion : Json → Option QuizQuestion
  | .obj fields =>
      match Json.field? "question" fields, Json.field? "options" fields with
      | some (.str question), some (.arr items) =>
          if trim question = "" ∨ items.length < 2 then none
          else do
            let options ← texts? (fun text => decide (trim text ≠ "")) items
            let correctIndex ← index? options.length (Json.field? "correctIndex" fields)
            return ⟨question, options, correctIndex⟩
      | _, _ => none
  | _ => none

def parseQuiz : Option Json → List QuizQuestion
  | some (.arr items) => items.filterMap parseQuestion
  | _ => []

/-- The items of a value that is an array. -/
def items? : Option Json → Option (List (Option Json))
  | some (.arr items) => some (items.map some)
  | _ => none

/-- Every answer is the right one of its question, and there are no others. -/
def answersMatch : List QuizQuestion → List (Option Json) → Bool
  | [], [] => true
  | question :: quiz, answer :: answers =>
      decide (answer = some (.num question.correctIndex)) && answersMatch quiz answers
  | _, _ => false

/-- `answers` is none where it is no array. -/
def quizAnswersPass (quiz : List QuizQuestion) (answers : Option (List (Option Json))) : Bool :=
  match quiz, answers with
  | [], _ => true
  | quiz, some answers => answersMatch quiz answers
  | _, none => false

/-! ## Selections -/

structure QuizSelection where
  questionIndex : Nat
  optionIndex : Nat
deriving DecidableEq

/-- The keys of an object, each once. -/
def keys (fields : List (String × Json)) : List String := (fields.map Prod.fst).dedup

/-- A selection whose question is not among those `seen`. -/
def readSelection (seen : List Nat) : Json → Option QuizSelection
  | .obj fields => do
      let questionIndex ← index? QUIZ_MAX_QUESTIONS (Json.field? "questionIndex" fields)
      let optionIndex ← index? QUIZ_MAX_OPTIONS (Json.field? "optionIndex" fields)
      if (keys fields).length ≠ 2 ∨ questionIndex ∈ seen then none
      else some ⟨questionIndex, optionIndex⟩
  | _ => none

def readSelections (seen : List Nat) : List Json → Option (List QuizSelection)
  | [] => some []
  | item :: items => do
      let selection ← readSelection seen item
      let selections ← readSelections (selection.questionIndex :: seen) items
      return selection :: selections

/-- The list that a value is, where it is a list of selections. -/
def isQuizSelectionList : Json → Option (List QuizSelection)
  | .arr items => if QUIZ_MAX_QUESTIONS < items.length then none else readSelections [] items
  | _ => none

/-! ## What the strict reader accepts -/

/-- A text with more than white space, no longer than a quiz may store. -/
def okText (text : String) : Prop := trim text ≠ "" ∧ textLength text ≤ QUIZ_MAX_TEXT

theorem okText_trim {text : String} (h : okText text) : okText (trim text) := by
  refine ⟨?_, Nat.le_trans (textLength_trim_le text) h.2⟩
  rw [Text.trim_trim]
  exact h.1

/-- The question that the strict reader makes of an entry, before it is trimmed. -/
structure Reads (item : Json) (q : QuizQuestion) : Prop where
  fields : ∃ fields, item = .obj fields ∧
    Json.field? "question" fields = some (.str q.question) ∧
    Json.field? "options" fields = some (.arr (q.options.map Json.str)) ∧
    Json.field? "correctIndex" fields = some (.num q.correctIndex)
  question : okText q.question
  options : ∀ text ∈ q.options, okText text
  count : 2 ≤ q.options.length ∧ q.options.length ≤ QUIZ_MAX_OPTIONS
  correctIndex : q.correctIndex < q.options.length

def QuizQuestion.trimmed (q : QuizQuestion) : QuizQuestion :=
  ⟨trim q.question, q.options.map trim, q.correctIndex⟩

theorem Reads.strict (h : Reads item q) (i : Nat) : readQuestion i item = .ok q.trimmed := by
  obtain ⟨fields, rfl, hquestion, hoptions, hindex⟩ := h.fields
  have htexts : texts? (fun text => decide (trim text ≠ "") && decide (textLength text ≤ QUIZ_MAX_TEXT))
      (q.options.map Json.str) = some q.options := by
    refine texts?_eq_some.mpr ⟨rfl, ?_⟩
    intro text htext
    have hok := h.options text htext
    simp [hok.1, hok.2]
  have hcorrect : index? q.options.length (some (.num q.correctIndex)) = some q.correctIndex :=
    index?_eq_some.mpr ⟨rfl, h.correctIndex⟩
  have hnonempty : ¬ (trim q.question = "" ∨ QUIZ_MAX_TEXT < textLength q.question) := by
    have hok := h.question
    rintro (hempty | hlong)
    · exact hok.1 hempty
    · have hle := hok.2
      omega
  have hcount : ¬ ((q.options.map Json.str).length < 2 ∨
      QUIZ_MAX_OPTIONS < (q.options.map Json.str).length) := by
    have hcount := h.count
    rw [List.length_map]
    omega
  simp only [readQuestion, hquestion, hoptions, hindex, htexts, hcorrect, if_neg hnonempty,
    if_neg hcount]
  rfl

theorem reads_of_strict {i : Nat} {result : QuizQuestion} (h : readQuestion i item = .ok result) :
    ∃ q, Reads item q ∧ result = q.trimmed := by
  unfold readQuestion at h
  split at h
  · rename_i fields
    split at h
    · rename_i question hquestion
      split at h
      · cases h
      · rename_i hok
        split at h
        · rename_i items hoptions
          split at h
          · cases h
          · rename_i hcount
            split at h
            · rename_i options htexts
              split at h
              · rename_i correctIndex hindex
                cases h
                obtain ⟨rfl, hall⟩ := texts?_eq_some.mp htexts
                obtain ⟨hfield, hlt⟩ := index?_eq_some.mp hindex
                rw [List.length_map] at hcount
                refine ⟨⟨question, options, correctIndex⟩,
                  ⟨⟨fields, rfl, hquestion, hoptions, hfield⟩, ?_, ?_, ?_, hlt⟩, rfl⟩
                · exact ⟨fun hempty => hok (Or.inl hempty),
                    Nat.le_of_not_lt fun hlong => hok (Or.inr hlong)⟩
                · intro text htext
                  have hok := hall text htext
                  simp only [Bool.and_eq_true, decide_eq_true_eq] at hok
                  exact hok
                · show 2 ≤ options.length ∧ options.length ≤ QUIZ_MAX_OPTIONS
                  omega
              · cases h
            · cases h
        · cases h
    · cases h
  · cases h

/-- The lenient reader keeps such an entry as it is. -/
theorem Reads.lenient (h : Reads item q) : parseQuestion item = some q := by
  obtain ⟨fields, rfl, hquestion, hoptions, hindex⟩ := h.fields
  have htexts : texts? (fun text => decide (trim text ≠ "")) (q.options.map Json.str) =
      some q.options := by
    refine texts?_eq_some.mpr ⟨rfl, ?_⟩
    intro text htext
    simpa using (h.options text htext).1
  have hcorrect : index? q.options.length (some (.num q.correctIndex)) = some q.correctIndex :=
    index?_eq_some.mpr ⟨rfl, h.correctIndex⟩
  have hkept : ¬ (trim q.question = "" ∨ (q.options.map Json.str).length < 2) := by
    have hcount := h.count
    have hok := h.question.1
    rw [List.length_map]
    rintro (hempty | hfew)
    · exact hok hempty
    · omega
  simp only [parseQuestion, hquestion, hoptions, if_neg hkept, htexts, hindex, hcorrect,
    Option.bind_eq_bind, Option.bind_some, Option.pure_def]

theorem readQuestions_ok {i : Nat} :
    readQuestions i items = .ok quiz ↔
      ∃ raw, List.Forall₂ Reads items raw ∧ quiz = raw.map QuizQuestion.trimmed := by
  induction items generalizing i quiz with
  | nil =>
      constructor
      · intro h
        cases h
        exact ⟨[], .nil, rfl⟩
      · rintro ⟨raw, hraw, rfl⟩
        cases hraw
        rfl
  | cons item items ih =>
      simp only [readQuestions]
      constructor
      · intro h
        obtain ⟨question, hq, h⟩ := Text.bind_eq_ok.mp h
        obtain ⟨rest, hrest, h⟩ := Text.bind_eq_ok.mp h
        obtain rfl := Except.ok.inj h
        obtain ⟨q, hreads, rfl⟩ := reads_of_strict hq
        obtain ⟨raw, hraw, rfl⟩ := ih.mp hrest
        exact ⟨q :: raw, .cons hreads hraw, rfl⟩
      · rintro ⟨raw, hraw, rfl⟩
        cases hraw with
        | cons hreads hraw =>
            rw [hreads.strict i, ih.mpr ⟨_, hraw, rfl⟩]
            rfl

/-- The quiz of a value, before it is trimmed. -/
def ReadsQuiz (raw : Option Json) (quiz : List QuizQuestion) : Prop :=
  ((raw = none ∨ raw = some .null) ∧ quiz = []) ∨
    ∃ items, raw = some (.arr items) ∧ items.length ≤ QUIZ_MAX_QUESTIONS ∧
      List.Forall₂ Reads items quiz

theorem validateQuiz_ok {result : List QuizQuestion} :
    validateQuiz raw = .ok result ↔
      ∃ quiz, ReadsQuiz raw quiz ∧ result = quiz.map QuizQuestion.trimmed := by
  constructor
  · intro h
    unfold validateQuiz at h
    split at h
    · cases h
      exact ⟨[], Or.inl ⟨Or.inl rfl, rfl⟩, rfl⟩
    · cases h
      exact ⟨[], Or.inl ⟨Or.inr rfl, rfl⟩, rfl⟩
    · rename_i items
      split at h
      · cases h
      · rename_i hcount
        obtain ⟨quiz, hquiz, rfl⟩ := readQuestions_ok.mp h
        exact ⟨quiz, Or.inr ⟨items, rfl, Nat.le_of_not_lt hcount, hquiz⟩, rfl⟩
    · cases h
  · rintro ⟨quiz, ⟨hnull, rfl⟩ | ⟨items, rfl, hcount, hquiz⟩, rfl⟩
    · rcases hnull with rfl | rfl
      · rfl
      · rfl
    · have hnot : ¬ QUIZ_MAX_QUESTIONS < items.length := Nat.not_lt.mpr hcount
      simp only [validateQuiz, if_neg hnot]
      exact readQuestions_ok.mpr ⟨quiz, hquiz, rfl⟩

theorem exists_reads (h : List.Forall₂ Reads items quiz) (hq : q ∈ quiz) :
    ∃ item, Reads item q := by
  induction h with
  | nil => cases hq
  | cons hreads _ ih =>
      rcases List.mem_cons.mp hq with rfl | hrest
      · exact ⟨_, hreads⟩
      · exact ih hrest

theorem filterMap_of_reads (h : List.Forall₂ Reads items quiz) :
    items.filterMap parseQuestion = quiz := by
  induction h with
  | nil => rfl
  | cons hreads _ ih =>
      rw [List.filterMap_cons, hreads.lenient]
      exact congrArg _ ih

/-- What the strict reader accepts the lenient one reads entry by entry. -/
theorem parseQuiz_of_reads (h : ReadsQuiz raw quiz) : parseQuiz raw = quiz := by
  rcases h with ⟨rfl | rfl, rfl⟩ | ⟨items, rfl, _, hquiz⟩
  · rfl
  · rfl
  · exact filterMap_of_reads hquiz

/-! ## The stored form -/

def QuizQuestion.json (q : QuizQuestion) : Json :=
  .obj [("question", .str q.question), ("options", .arr (q.options.map Json.str)),
    ("correctIndex", .num q.correctIndex)]

def quizJson (quiz : List QuizQuestion) : Json := .arr (quiz.map QuizQuestion.json)

theorem Reads.stored (h : Reads item q) : Reads q.trimmed.json q.trimmed := by
  refine ⟨⟨_, rfl, rfl, rfl, rfl⟩, okText_trim h.question, ?_, ?_, ?_⟩
  · intro text htext
    obtain ⟨other, hother, rfl⟩ := List.mem_map.mp htext
    exact okText_trim (h.options other hother)
  · simpa [QuizQuestion.trimmed] using h.count
  · simpa [QuizQuestion.trimmed] using h.correctIndex

theorem QuizQuestion.trimmed_trimmed (q : QuizQuestion) : q.trimmed.trimmed = q.trimmed := by
  simp [QuizQuestion.trimmed, Function.comp_def]

theorem forall₂_stored (h : List.Forall₂ Reads items quiz) :
    List.Forall₂ Reads ((quiz.map QuizQuestion.trimmed).map QuizQuestion.json)
      (quiz.map QuizQuestion.trimmed) := by
  induction h with
  | nil => exact .nil
  | cons hreads _ ih => exact .cons hreads.stored ih

/-- The stored form of an accepted quiz is read as the quiz itself. -/
theorem readsQuiz_stored (h : ReadsQuiz raw quiz) :
    ReadsQuiz (some (quizJson (quiz.map QuizQuestion.trimmed))) (quiz.map QuizQuestion.trimmed) := by
  rcases h with ⟨_, rfl⟩ | ⟨items, _, hcount, hquiz⟩
  · exact Or.inr ⟨[], rfl, Nat.zero_le _, .nil⟩
  · refine Or.inr ⟨_, rfl, ?_, forall₂_stored hquiz⟩
    rw [List.length_map, List.length_map, ← hquiz.length_eq]
    exact hcount

/-- Trimming leaves the answers what they are. -/
theorem answersMatch_trimmed (quiz : List QuizQuestion) (answers : List (Option Json)) :
    answersMatch (quiz.map QuizQuestion.trimmed) answers = answersMatch quiz answers := by
  induction quiz generalizing answers with
  | nil => rfl
  | cons q quiz ih =>
      cases answers with
      | nil => rfl
      | cons answer answers =>
          simp only [List.map_cons, answersMatch, ih answers]
          rfl

theorem quizAnswersPass_trimmed (quiz : List QuizQuestion)
    (answers : Option (List (Option Json))) :
    quizAnswersPass (quiz.map QuizQuestion.trimmed) answers = quizAnswersPass quiz answers := by
  cases quiz with
  | nil => rfl
  | cons q quiz =>
      cases answers with
      | none => rfl
      | some answers => exact answersMatch_trimmed (q :: quiz) answers

end Sinnlos.Domain
