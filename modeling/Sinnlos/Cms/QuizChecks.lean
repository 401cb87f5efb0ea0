import Sinnlos.Cms.PollOptions
import Sinnlos.Domain.Quizzes

/-! # Checking a quiz

The lifecycle of a lesson and the check of stored quizzes
(`apps/cms/src/utils/training-validation.ts`), and the quiz gate of a completion
(`api/lesson-progress/controllers/lesson-progress.ts`). The check and the gate
read the same stored value, the lifecycle decides what is stored.
-/

namespace Sinnlos.Cms

open Domain Text

/-! ## What a lesson stores -/

structure Url where
  protocol : String
  hostname : String
  pathname : String
  /-- `searchParams.get("v")` -/
  v : Option String

/-- `JSON.parse` and `new URL`, none where they throw. -/
structure LessonPlatform where
  parse : String → Option Json
  url : String → Option Url

def YOUTUBE_HOSTS : List String :=
  ["www.youtube.com", "youtube.com", "m.youtube.com", "www.youtube-nocookie.com", "youtu.be"]

/-- `VIDEO_ID_RE` -/
def isVideoId (text : List Char) : Bool :=
  text.length = 11 && text.all fun c =>
    ('A' ≤ c && c ≤ 'Z') || ('a' ≤ c && c ≤ 'z') || ('0' ≤ c && c ≤ '9') || c = '_' || c = '-'

def videoCandidate (url : Url) : Option (List Char) :=
  if url.hostname = "youtu.be" then (split '/' (url.pathname.toList.drop 1)).head?
  else if url.pathname = "/watch" then url.v.map String.toList
  else if "/embed/".toList.isPrefixOf url.pathname.toList ||
      "/shorts/".toList.isPrefixOf url.pathname.toList ||
      "/live/".toList.isPrefixOf url.pathname.toList then
    (split '/' url.pathname.toList)[2]?
  else none

def youtubeVideoId (platform : LessonPlatform) : Json → Option (List Char)
  | .str rawUrl =>
      if trim rawUrl = "" then none
      else do
        let url ← platform.url (trim rawUrl)
        if url.protocol ≠ "https:" ∨ url.hostname ∉ YOUTUBE_HOSTS then none
        else (videoCandidate url).filter isVideoId
  | _ => none

structure LessonDataError where
  error : String
  field : String
  code : String

/-- The values that were normalised; none where the data had none. -/
structure NormalizedLessonData where
  quiz : Option (Option (List QuizQuestion))

def QUIZ_NOT_JSON_ERROR : String := "Quiz must be valid JSON."

def QUIZ_INVALID_ERROR : String :=
  s!"Quiz must be an array of at most {QUIZ_MAX_QUESTIONS} questions, each with question text, 2–{QUIZ_MAX_OPTIONS} options (at most {QUIZ_MAX_TEXT} characters each) and a valid correctIndex."

/-- The quiz of a payload, if it has one. -/
def normalizeQuiz (platform : LessonPlatform) (data : List (String × Json)) :
    Except LessonDataError (Option (Option (List QuizQuestion))) :=
  match Json.field? "quiz" data with
  | none => .ok none
  | some raw =>
      match parseAdminJsonField platform.parse raw with
      | none => .error ⟨QUIZ_NOT_JSON_ERROR, "quiz", "quizInvalid"⟩
      | some .null => .ok (some none)
      | some value =>
          match validateQuiz (some value) with
          | .error _ => .error ⟨QUIZ_INVALID_ERROR, "quiz", "quizInvalid"⟩
          | .ok quiz => .ok (some (some quiz))

/-- Neither missing nor null nor empty, and no video. -/
def badVideoUrl (platform : LessonPlatform) (data : List (String × Json)) : Bool :=
  match Json.field? "videoUrl" data with
  | none | some .null => false
  | some value => decide (value ≠ .str "") && (youtubeVideoId platform value).isNone

def badOrder (data : List (String × Json)) : Bool :=
  match Json.field? "order" data with
  | none | some .null => false
  | some value => (index? 10001 (some value)).isNone

def validateLessonData (platform : LessonPlatform) (data : List (String × Json)) :
    Except LessonDataError NormalizedLessonData :=
  if badVideoUrl platform data then
    .error ⟨"Video URL must be an HTTPS YouTube video link.", "videoUrl", "videoUrlNotYoutube"⟩
  else
    match normalizeQuiz platform data with
    | .error e => .error e
    | .ok quiz =>
        if badOrder data then
          .error ⟨"Lesson order must be an integer from 0 to 10000.", "order", "invalid"⟩
        else .ok ⟨quiz⟩

/-- `data.quiz = value`, where the data has a quiz. -/
def setQuiz (value : Json) (data : List (String × Json)) : List (String × Json) :=
  data.map fun field => if field.1 = "quiz" then (field.1, value) else field

/-- The column that a normalised quiz is stored as. -/
def storedQuiz (quiz : Option (List QuizQuestion)) : Json := quiz.elim .null quizJson

/-- The lifecycle before a create or an update: the data as they are written. -/
def assertValid (platform : LessonPlatform) (data : List (String × Json)) :
    Except LessonDataError (List (String × Json)) :=
  match validateLessonData platform data with
  | .error e => .error e
  | .ok normalized =>
      match normalized.quiz with
      | some quiz => .ok (setQuiz (storedQuiz quiz) data)
      | none => .ok data

/-! ## The check and the gate -/

inductive TrainingCompletionMode
  | confirm
  | quizGate
  | exam
deriving DecidableEq

structure QuizVerdict where
  questionIndex : Nat
  correct : Bool
deriving DecidableEq

structure QuizCheckData where
  completionMode : TrainingCompletionMode
  passed : Bool
  verdicts : Option (List QuizVerdict)
deriving DecidableEq

def QUIZ_CONTENT_INVALID : String := "quizContentInvalid"

def INVALID_QUIZ_ANSWERS : String := "Invalid quiz answers"

def validateStoredQuiz (raw : Option Json) : Except String (List QuizQuestion) :=
  match raw, validateQuiz raw with
  | some _, .ok quiz => .ok quiz
  | _, _ => .error QUIZ_CONTENT_INVALID

/-- The loop over the selections; none is a selection outside of the quiz. -/
def applySelections (quiz : List QuizQuestion) :
    List (Option Nat) → List QuizVerdict → List QuizSelection →
      Option (List (Option Nat) × List QuizVerdict)
  | answers, verdicts, [] => some (answers, verdicts)
  | answers, verdicts, s :: selections =>
      match quiz[s.questionIndex]? with
      | none => none
      | some question =>
          if question.options.length ≤ s.optionIndex then none
          else
            applySelections quiz (answers.set s.questionIndex (some s.optionIndex))
              (verdicts ++ [⟨s.questionIndex, s.optionIndex = question.correctIndex⟩]) selections

/-- Numbers with holes as JavaScript values. -/
def numbers (answers : List (Option Nat)) : List (Option Json) :=
  answers.map (Option.map fun (n : Nat) => Json.num n)

def checkStoredQuiz (raw : Option Json) (completionMode : TrainingCompletionMode)
    (selections : Json) : Except String QuizCheckData :=
  match validateStoredQuiz raw with
  | .error e => .error e
  | .ok quiz =>
      match isQuizSelectionList selections with
      | none => .error INVALID_QUIZ_ANSWERS
      | some selections =>
          if quiz.length < selections.length ∨
              completionMode ≠ .confirm ∧ selections.length ≠ quiz.length then
            .error INVALID_QUIZ_ANSWERS
          else
            match applySelections quiz (List.replicate quiz.length none) [] selections with
            | none => .error INVALID_QUIZ_ANSWERS
            | some (answers, verdicts) =>
                .ok
                  { completionMode
                    passed := quizAnswersPass quiz (some (numbers answers))
                    verdicts := if completionMode = .exam then none else some verdicts }

/-- The bound on the answers of a completion. -/
def boundedAnswers : Option Json → Bool
  | none => true
  | some (.arr answers) =>
      decide (answers.length ≤ QUIZ_MAX_QUESTIONS) &&
        answers.all fun answer => (index? QUIZ_MAX_OPTIONS (some answer)).isSome
  | some _ => false

/-- What a completion answers of its lesson's quiz. -/
def completionQuizGate (raw answers : Option Json) : Except String Unit :=
  match validateStoredQuiz raw with
  | .error _ => .error "Invalid quiz content"
  | .ok quiz =>
      if boundedAnswers answers && quizAnswersPass quiz (items? answers) then .ok ()
      else .error "Quiz not passed"

/-! ## The answers that selections spell -/

/-- `answers[i] = value`; an array grows up to the index. -/
def assign (answers : List (Option Nat)) (i value : Nat) : List (Option Nat) :=
  if i < answers.length then answers.set i (some value)
  else answers ++ List.replicate (i - answers.length) none ++ [some value]

def assignAll (answers : List (Option Nat)) (selections : List QuizSelection) : List (Option Nat) :=
  selections.foldl (fun answers s => assign answers s.questionIndex s.optionIndex) answers

/-- The answers list of the selections for a quiz of that many questions, as JSON. -/
def spelledAnswers (count : Nat) (selections : List QuizSelection) : Json :=
  .arr ((assignAll (List.replicate count none) selections).map fun answer =>
    answer.elim Json.null fun (n : Nat) => Json.num n)

theorem join_set (answers : List (Option Nat)) {i : Nat} (h : i < answers.length) (value j : Nat) :
    ((answers.set i (some value))[j]?).join = if j = i then some value else (answers[j]?).join := by
  by_cases heq : j = i
  · rw [heq, List.getElem?_set_self h, if_pos rfl]
    rfl
  · rw [List.getElem?_set_ne fun e => heq e.symm, if_neg heq]

theorem join_assign (answers : List (Option Nat)) (i value j : Nat) :
    ((assign answers i value)[j]?).join = if j = i then some value else (answers[j]?).join := by
  unfold assign
  split
  · rename_i h
    exact join_set answers h value j
  · rename_i h
    have hlength : (answers ++ List.replicate (i - answers.length) none).length = i := by
      rw [List.length_append, List.length_replicate]
      omega
    by_cases hlast : j = i
    · rw [hlast, if_pos rfl, List.getElem?_append_right (by omega), hlength, Nat.sub_self]
      rfl
    · rw [if_neg hlast]
      by_cases hin : j < answers.length
      · rw [List.append_assoc, List.getElem?_append_left hin]
      · have hnone : answers[j]? = none := List.getElem?_eq_none (by omega)
        rw [hnone]
        by_cases hgap : j < i
        · rw [List.getElem?_append_left (by omega), List.getElem?_append_right (by omega),
            List.getElem?_replicate, if_pos (by omega)]
          rfl
        · have hbound : (answers ++ List.replicate (i - answers.length) none ++ [some value]).length ≤
              j := by
            rw [List.length_append, hlength, List.length_singleton]
            omega
          rw [List.getElem?_eq_none hbound]

theorem length_assign (answers : List (Option Nat)) (i value : Nat) :
    answers.length ≤ (assign answers i value).length ∧ i < (assign answers i value).length := by
  unfold assign
  split
  · rename_i h
    rw [List.length_set]
    exact ⟨Nat.le_refl _, h⟩
  · simp only [List.length_append, List.length_replicate, List.length_singleton]
    omega

theorem length_assignAll (answers : List (Option Nat)) (selections : List QuizSelection) :
    answers.length ≤ (assignAll answers selections).length ∧
      ∀ s ∈ selections, s.questionIndex < (assignAll answers selections).length := by
  induction selections generalizing answers with
  | nil => exact ⟨Nat.le_refl _, by simp⟩
  | cons s selections ih =>
      have hassign := length_assign answers s.questionIndex s.optionIndex
      obtain ⟨hle, hall⟩ := ih (assign answers s.questionIndex s.optionIndex)
      refine ⟨Nat.le_trans hassign.1 hle, ?_⟩
      rw [List.forall_mem_cons]
      exact ⟨Nat.lt_of_lt_of_le hassign.2 hle, hall⟩

variable {answers : List (Option Nat)} {selections : List QuizSelection} {quiz : List QuizQuestion}
  {value : Json} {raw : Option Json} {platform : LessonPlatform} {data : List (String × Json)}

/-- What no selection is of stays as it was. -/
theorem join_assignAll_of_not_mem {j : Nat} (h : j ∉ selections.map QuizSelection.questionIndex) :
    ((assignAll answers selections)[j]?).join = (answers[j]?).join := by
  induction selections generalizing answers with
  | nil => rfl
  | cons s selections ih =>
      rw [List.map_cons, List.mem_cons, not_or] at h
      have hlater : ((assignAll (assign answers s.questionIndex s.optionIndex) selections)[j]?).join =
          ((assign answers s.questionIndex s.optionIndex)[j]?).join := ih h.2
      rw [join_assign, if_neg h.1] at hlater
      exact hlater

variable {s : QuizSelection} {seen : List Nat}

theorem join_assignAll_of_mem (distinct : (selections.map QuizSelection.questionIndex).Nodup)
    (h : s ∈ selections) :
    ((assignAll answers selections)[s.questionIndex]?).join =
      some s.optionIndex := by
  induction selections generalizing answers with
  | nil => cases h
  | cons first selections ih =>
      rw [List.map_cons, List.nodup_cons] at distinct
      rcases List.mem_cons.mp h with rfl | hrest
      · have hlater : ((assignAll (assign answers s.questionIndex s.optionIndex)
            selections)[s.questionIndex]?).join =
            ((assign answers s.questionIndex s.optionIndex)[s.questionIndex]?).join :=
          join_assignAll_of_not_mem distinct.1
        rw [join_assign, if_pos rfl] at hlater
        exact hlater
      · exact ih distinct.2 hrest

/-- The right answers of a quiz. -/
def rightAnswers (quiz : List QuizQuestion) : List (Option Nat) :=
  quiz.map fun question => some question.correctIndex

theorem answersMatch_iff {answers : List (Option Json)} :
    answersMatch quiz answers = true ↔
      answers = quiz.map fun question => some (Json.num question.correctIndex) := by
  induction quiz generalizing answers with
  | nil => cases answers <;> simp [answersMatch]
  | cons question quiz ih =>
      cases answers with
      | nil => simp [answersMatch]
      | cons answer answers => simp [answersMatch, ih]

/-- Each answer is written so that a number is told from none. -/
theorem written_eq_iff {write : Option Nat → Option Json}
    (hnone : ∀ n : Nat, write none ≠ some (Json.num n))
    (hsome : ∀ n : Nat, write (some n) = some (Json.num n)) :
    (answers.map write = quiz.map fun question => some (Json.num question.correctIndex)) ↔
      answers = rightAnswers quiz := by
  induction quiz generalizing answers with
  | nil => cases answers <;> simp [rightAnswers]
  | cons question quiz ih =>
      cases answers with
      | nil => simp [rightAnswers]
      | cons answer answers =>
          simp only [rightAnswers] at ih
          cases answer with
          | none => simp [rightAnswers, hnone]
          | some n => simp [rightAnswers, hsome, ih]

theorem quizAnswersPass_of_ne (h : quiz ≠ []) (answers : List (Option Json)) :
    quizAnswersPass quiz (some answers) = answersMatch quiz answers := by
  cases quiz with
  | nil => exact absurd rfl h
  | cons question quiz => rfl

/-! ## Selections that are read -/

theorem readSelection_ok {item : Json} (h : readSelection seen item = some s) :
    s.questionIndex ∉ seen ∧ s.questionIndex < QUIZ_MAX_QUESTIONS ∧
      s.optionIndex < QUIZ_MAX_OPTIONS := by
  cases item with
  | obj fields =>
      simp only [readSelection, Option.bind_eq_bind, Option.bind_eq_some_iff] at h
      obtain ⟨questionIndex, hquestion, optionIndex, hoption, h⟩ := h
      split at h
      · cases h
      · rename_i hnew
        cases h
        exact ⟨fun hseen => hnew (Or.inr hseen), (index?_eq_some.mp hquestion).2,
          (index?_eq_some.mp hoption).2⟩
  | null | bool _ | num _ | str _ | arr _ => cases h

theorem readSelections_ok {items : List Json} (h : readSelections seen items = some selections) :
    (selections.map QuizSelection.questionIndex).Nodup ∧
      (∀ s ∈ selections, s.questionIndex ∉ seen) ∧
      ∀ s ∈ selections, s.optionIndex < QUIZ_MAX_OPTIONS := by
  induction items generalizing seen selections with
  | nil =>
      cases h
      simp
  | cons item items ih =>
      simp only [readSelections, Option.bind_eq_bind, Option.bind_eq_some_iff, Option.pure_def,
        Option.some.injEq] at h
      obtain ⟨s, hs, rest, hrest, rfl⟩ := h
      obtain ⟨hnew, _, hoption⟩ := readSelection_ok hs
      obtain ⟨distinct, hseen, hoptions⟩ := ih hrest
      refine ⟨?_, ?_, ?_⟩
      · rw [List.map_cons, List.nodup_cons]
        refine ⟨?_, distinct⟩
        intro hmem
        obtain ⟨other, hother, heq⟩ := List.mem_map.mp hmem
        exact hseen other hother (by rw [heq]; exact List.mem_cons_self)
      · rw [List.forall_mem_cons]
        exact ⟨hnew, fun other hother hold => hseen other hother (List.mem_cons_of_mem _ hold)⟩
      · rw [List.forall_mem_cons]
        exact ⟨hoption, hoptions⟩

theorem isQuizSelectionList_ok (h : isQuizSelectionList value = some selections) :
    (selections.map QuizSelection.questionIndex).Nodup ∧
      ∀ s ∈ selections, s.optionIndex < QUIZ_MAX_OPTIONS := by
  cases value with
  | arr items =>
      simp only [isQuizSelectionList] at h
      split at h
      · cases h
      · obtain ⟨distinct, _, hoptions⟩ := readSelections_ok h
        exact ⟨distinct, hoptions⟩
  | null | bool _ | num _ | str _ | obj _ => cases h

/-- A selection of an option that the quiz has. -/
def InQuiz (quiz : List QuizQuestion) (s : QuizSelection) : Prop :=
  ∃ question, quiz[s.questionIndex]? = some question ∧ s.optionIndex < question.options.length

theorem applySelections_ok {answers' : List (Option Nat)} {verdicts verdicts' : List QuizVerdict}
    (hlength : answers.length = quiz.length)
    (h : applySelections quiz answers verdicts selections = some (answers', verdicts')) :
    answers' = assignAll answers selections := by
  induction selections generalizing answers verdicts with
  | nil =>
      cases h
      rfl
  | cons s selections ih =>
      simp only [applySelections] at h
      split at h
      · cases h
      · rename_i question hquestion
        split at h
        · cases h
        · have hindex : s.questionIndex < answers.length := by
            rw [hlength]
            exact (List.getElem?_eq_some_iff.mp hquestion).choose
          have hset : answers.set s.questionIndex (some s.optionIndex) =
              assign answers s.questionIndex s.optionIndex := by
            unfold assign
            rw [if_pos hindex]
          rw [ih (by rw [List.length_set]; exact hlength) h, hset]
          rfl

theorem applySelections_of_inQuiz (h : ∀ s ∈ selections, InQuiz quiz s)
    (answers : List (Option Nat)) (verdicts : List QuizVerdict) :
    ∃ result, applySelections quiz answers verdicts selections = some result := by
  induction selections generalizing answers verdicts with
  | nil => exact ⟨_, rfl⟩
  | cons s selections ih =>
      rw [List.forall_mem_cons] at h
      obtain ⟨⟨question, hquestion, hoption⟩, hrest⟩ := h
      simp only [applySelections, hquestion, if_neg (Nat.not_le.mpr hoption)]
      exact ih hrest _ _

/-- Selections that spell the right answers are one for each question, in the quiz. -/
theorem selections_of_right (distinct : (selections.map QuizSelection.questionIndex).Nodup)
    (hvalid : ∀ question ∈ quiz, question.correctIndex < question.options.length)
    (h : assignAll (List.replicate quiz.length none) selections = rightAnswers quiz) :
    selections.length = quiz.length ∧ ∀ s ∈ selections, InQuiz quiz s := by
  have hlength : (rightAnswers quiz).length = quiz.length := List.length_map ..
  have hbelow : ∀ s ∈ selections, s.questionIndex < quiz.length := by
    intro s hs
    have hlt := (length_assignAll (List.replicate quiz.length none) selections).2 s hs
    rw [h, hlength] at hlt
    exact hlt
  have hin : ∀ s ∈ selections, InQuiz quiz s := by
    intro s hs
    have hlt := hbelow s hs
    have hvalue : ((assignAll (List.replicate quiz.length none) selections)[s.questionIndex]?).join =
        some s.optionIndex := join_assignAll_of_mem distinct hs
    rw [h] at hvalue
    simp only [rightAnswers, List.getElem?_map, List.getElem?_eq_getElem hlt, Option.map_some,
      Option.join_some, Option.some.injEq] at hvalue
    refine ⟨quiz[s.questionIndex], List.getElem?_eq_getElem hlt, ?_⟩
    rw [← hvalue]
    exact hvalid _ (List.getElem_mem hlt)
  refine ⟨Nat.le_antisymm ?_ ?_, hin⟩
  · have hsub : selections.map QuizSelection.questionIndex ⊆ List.range quiz.length := by
      intro i hi
      obtain ⟨s, hs, rfl⟩ := List.mem_map.mp hi
      exact List.mem_range.mpr (hbelow s hs)
    have hle := distinct.length_le_of_subset hsub
    rwa [List.length_map, List.length_range] at hle
  · have hsub : List.range quiz.length ⊆ selections.map QuizSelection.questionIndex := by
      intro i hi
      have hlt := List.mem_range.mp hi
      by_contra hmissing
      have hvalue : ((assignAll (List.replicate quiz.length none) selections)[i]?).join =
          ((List.replicate quiz.length none)[i]?).join := join_assignAll_of_not_mem hmissing
      rw [h] at hvalue
      simp [rightAnswers, hlt] at hvalue
    have hle := List.nodup_range.length_le_of_subset hsub
    rwa [List.length_map, List.length_range] at hle

/-! ## The check and the gate agree -/

/-- What a valid stored quiz is made of. -/
theorem validateStoredQuiz_ok (h : validateStoredQuiz raw = .ok quiz) :
    quiz.length ≤ QUIZ_MAX_QUESTIONS ∧
      ∀ question ∈ quiz, question.correctIndex < question.options.length ∧
        question.options.length ≤ QUIZ_MAX_OPTIONS := by
  unfold validateStoredQuiz at h
  split at h
  · rename_i value result hvalidated
    cases h
    obtain ⟨read, hreads, rfl⟩ := validateQuiz_ok.mp hvalidated
    rcases hreads with ⟨_, rfl⟩ | ⟨items, _, hcount, hall⟩
    · simp
    · refine ⟨?_, ?_⟩
      · rw [List.length_map, ← hall.length_eq]
        exact hcount
      · intro question hquestion
        obtain ⟨q, hq, rfl⟩ := List.mem_map.mp hquestion
        obtain ⟨item, hread⟩ := exists_reads hall hq
        simp only [QuizQuestion.trimmed, List.length_map]
        exact ⟨hread.correctIndex, hread.count.2⟩
  · cases h

/-- The right answers are within the bound of a completion. -/
theorem boundedAnswers_right (hcount : quiz.length ≤ QUIZ_MAX_QUESTIONS)
    (hvalid : ∀ question ∈ quiz, question.correctIndex < question.options.length ∧
      question.options.length ≤ QUIZ_MAX_OPTIONS) :
    boundedAnswers (some (.arr ((rightAnswers quiz).map fun answer =>
      answer.elim Json.null fun (n : Nat) => Json.num n))) = true := by
  simp only [boundedAnswers, Bool.and_eq_true, decide_eq_true_eq, List.all_eq_true]
  refine ⟨?_, ?_⟩
  · rw [List.length_map, rightAnswers, List.length_map]
    exact hcount
  · intro answer hanswer
    simp only [rightAnswers, List.map_map, List.mem_map, Function.comp_apply] at hanswer
    obtain ⟨question, hquestion, rfl⟩ := hanswer
    obtain ⟨hindex, hoptions⟩ := hvalid question hquestion
    have hread : index? QUIZ_MAX_OPTIONS (some (Json.num question.correctIndex)) =
        some question.correctIndex := index?_eq_some.mpr ⟨rfl, by omega⟩
    exact Option.isSome_iff_exists.mpr ⟨_, hread⟩

/-- The gate of a quiz with questions lets the spelled answers pass where they are
the right ones. -/
theorem gate_spelled_iff (hne : quiz ≠ []) (h : validateStoredQuiz raw = .ok quiz)
    (selections : List QuizSelection) :
    completionQuizGate raw (some (spelledAnswers quiz.length selections)) = .ok () ↔
      assignAll (List.replicate quiz.length none) selections = rightAnswers quiz := by
  obtain ⟨hcount, hvalid⟩ := validateStoredQuiz_ok h
  have hpass : quizAnswersPass quiz (items? (some (spelledAnswers quiz.length selections))) = true ↔
      assignAll (List.replicate quiz.length none) selections = rightAnswers quiz := by
    rw [spelledAnswers, items?, quizAnswersPass_of_ne hne, answersMatch_iff, List.map_map]
    exact written_eq_iff (by simp) (by simp)
  simp only [completionQuizGate, h]
  constructor
  · intro hgate
    split at hgate
    · rename_i hboth
      rw [Bool.and_eq_true] at hboth
      exact hpass.mp hboth.2
    · cases hgate
  · intro hright
    have hbounded : boundedAnswers (some (spelledAnswers quiz.length selections)) = true := by
      rw [spelledAnswers, hright]
      exact boundedAnswers_right hcount hvalid
    rw [hbounded, hpass.mpr hright]
    rfl

/-- The check reports the selections of a quiz with questions as passed where they
spell the right answers. -/
theorem check_passed_iff (hne : quiz ≠ []) (h : validateStoredQuiz raw = .ok quiz)
    (mode : TrainingCompletionMode) (hlist : isQuizSelectionList value = some selections) :
    (∃ data, checkStoredQuiz raw mode value = .ok data ∧ data.passed = true) ↔
      assignAll (List.replicate quiz.length none) selections = rightAnswers quiz := by
  have hvalid := (validateStoredQuiz_ok h).2
  have distinct := (isQuizSelectionList_ok hlist).1
  have hpass : ∀ answers, quizAnswersPass quiz (some (numbers answers)) = true ↔
      answers = rightAnswers quiz := by
    intro answers
    rw [quizAnswersPass_of_ne hne, answersMatch_iff]
    exact written_eq_iff (by simp) (by simp)
  simp only [checkStoredQuiz, h, hlist]
  constructor
  · rintro ⟨data, hdata, hpassed⟩
    split at hdata
    · cases hdata
    · split at hdata
      · cases hdata
      · rename_i answers verdicts happly
        cases hdata
        rw [← applySelections_ok (List.length_replicate ..) happly]
        exact (hpass answers).mp hpassed
  · intro hright
    obtain ⟨hlength, hin⟩ := selections_of_right distinct (fun q hq => (hvalid q hq).1) hright
    have hcount : ¬ (quiz.length < selections.length ∨
        mode ≠ .confirm ∧ selections.length ≠ quiz.length) := by
      rw [hlength]
      simp
    obtain ⟨⟨answers, verdicts⟩, happly⟩ :=
      applySelections_of_inQuiz hin (List.replicate quiz.length none) []
    have hanswers := applySelections_ok (List.length_replicate ..) happly
    rw [if_neg hcount, happly]
    exact ⟨_, rfl, (hpass answers).mpr (hanswers.trans hright)⟩

/-! ## What is stored -/

theorem field?_setQuiz (value : Json) (data : List (String × Json)) (key : String) :
    Json.field? key (setQuiz value data) =
      if key = "quiz" then (Json.field? key data).map fun _ => value else Json.field? key data := by
  induction data with
  | nil => simp [setQuiz, Json.field?]
  | cons field data ih =>
      simp only [setQuiz] at ih
      simp only [setQuiz, List.map_cons, Json.field?, ih]
      by_cases hfield : field.1 = "quiz"
      · by_cases hkey : key = "quiz"
        · simp [hfield, hkey]
        · have hother : ¬ ("quiz" = key) := fun e => hkey e.symm
          simp [hfield, hkey, hother]
      · by_cases hkey : key = "quiz"
        · simp [hfield, hkey]
        · simp [hfield, hkey]

/-- The parsed quiz of a payload whose quiz is accepted. -/
theorem normalizeQuiz_some {quiz : Option (List QuizQuestion)}
    (h : normalizeQuiz platform data = .ok (some quiz)) :
    ∃ raw value, Json.field? "quiz" data = some raw ∧
      parseAdminJsonField platform.parse raw = some value ∧
      ((value = .null ∧ quiz = none) ∨
        value ≠ .null ∧ ∃ result, quiz = some result ∧ validateQuiz (some value) = .ok result) := by
  unfold normalizeQuiz at h
  split at h
  · cases h
  · rename_i raw hraw
    split at h
    · cases h
    · rename_i hvalue
      cases h
      exact ⟨raw, .null, hraw, hvalue, Or.inl ⟨rfl, rfl⟩⟩
    · rename_i value hnull hvalue
      split at h
      · cases h
      · rename_i result hresult
        cases h
        exact ⟨raw, value, hraw, hvalue, Or.inr ⟨hnull, result, rfl, hresult⟩⟩

/-- The stored form is accepted, and stays as it is. -/
theorem normalizeQuiz_stored {quiz : Option (List QuizQuestion)}
    (h : normalizeQuiz platform data = .ok (some quiz)) :
    normalizeQuiz platform (setQuiz (storedQuiz quiz) data) = .ok (some quiz) := by
  obtain ⟨raw, value, hraw, _, ⟨_, rfl⟩ | ⟨_, result, rfl, hresult⟩⟩ := normalizeQuiz_some h
  · simp only [normalizeQuiz, field?_setQuiz, if_true, hraw, Option.map_some]
    rfl
  · obtain ⟨read, hreads, rfl⟩ := validateQuiz_ok.mp hresult
    have hstored : validateQuiz (some (quizJson (read.map QuizQuestion.trimmed))) =
        .ok (read.map QuizQuestion.trimmed) := by
      refine validateQuiz_ok.mpr ⟨_, readsQuiz_stored hreads, ?_⟩
      simp [Function.comp_def, QuizQuestion.trimmed_trimmed]
    have hparsed : parseAdminJsonField platform.parse
        (storedQuiz (some (read.map QuizQuestion.trimmed))) =
          some (quizJson (read.map QuizQuestion.trimmed)) := rfl
    -- an array is not the null that clears the quiz
    rw [quizJson] at hstored hparsed
    simp only [normalizeQuiz, field?_setQuiz, if_true, hraw, Option.map_some, hparsed, hstored]

/-- Writing the quiz back changes nothing else that is checked. -/
theorem validateLessonData_setQuiz {normalized : NormalizedLessonData}
    {quiz : Option (List QuizQuestion)} (h : validateLessonData platform data = .ok normalized)
    (hquiz : normalized.quiz = some quiz) :
    validateLessonData platform (setQuiz (storedQuiz quiz) data) = .ok normalized := by
  have hvideo : badVideoUrl platform (setQuiz (storedQuiz quiz) data) = badVideoUrl platform data := by
    simp [badVideoUrl, field?_setQuiz]
  have horder : badOrder (setQuiz (storedQuiz quiz) data) = badOrder data := by
    simp [badOrder, field?_setQuiz]
  unfold validateLessonData at h ⊢
  rw [hvideo, horder]
  split at h
  · cases h
  · rename_i hgood
    rw [if_neg hgood]
    split at h
    · cases h
    · rename_i result hresult
      have hsome : result = some quiz := by
        split at h
        · cases h
        · cases h
          exact hquiz
      rw [hsome] at hresult
      rw [normalizeQuiz_stored hresult]
      rw [hsome] at h
      exact h

/-- How a quiz is stored that the lifecycle accepted: `raw` is what the writer sent. -/
structure StoredFaithfully (platform : LessonPlatform) (raw : Json) (data : List (String × Json)) :
    Prop where
  /-- The stored data are accepted and written as they are. -/
  again : assertValid platform data = .ok data
  stored : ∃ quiz value, parseAdminJsonField platform.parse raw = some value ∧
    Json.field? "quiz" data = some (storedQuiz quiz) ∧
    -- the strict reader takes the stored quiz for itself, the lenient one for the same
    validateQuiz (some (storedQuiz quiz)) = .ok (quiz.getD []) ∧
    parseQuiz (some (storedQuiz quiz)) = quiz.getD [] ∧
    -- every question is where the writer put it, and is graded alike
    quiz.getD [] = (parseQuiz (some value)).map QuizQuestion.trimmed ∧
    ∀ answers, quizAnswersPass (quiz.getD []) answers =
      quizAnswersPass (parseQuiz (some value)) answers

theorem assertValid_faithful {data' : List (String × Json)} {raw : Json}
    (hraw : Json.field? "quiz" data = some raw) (h : assertValid platform data = .ok data') :
    StoredFaithfully platform raw data' := by
  unfold assertValid at h
  split at h
  · cases h
  · rename_i normalized hvalid
    have hnormal : normalizeQuiz platform data = .ok normalized.quiz := by
      have hcopy := hvalid
      unfold validateLessonData at hcopy
      split at hcopy
      · cases hcopy
      · split at hcopy
        · cases hcopy
        · split at hcopy
          · cases hcopy
          · cases hcopy
            assumption
    split at h
    · rename_i quiz hquiz
      cases h
      rw [hquiz] at hnormal
      refine ⟨?_, ?_⟩
      · unfold assertValid
        simp only [validateLessonData_setQuiz hvalid hquiz, hquiz]
        have hidem : setQuiz (storedQuiz quiz) (setQuiz (storedQuiz quiz) data) =
            setQuiz (storedQuiz quiz) data := by
          simp only [setQuiz, List.map_map]
          apply List.map_congr_left
          intro field _
          by_cases hfield : field.1 = "quiz" <;> simp [hfield]
        rw [hidem]
      · obtain ⟨raw', value, hraw', hvalue, hcases⟩ := normalizeQuiz_some hnormal
        rw [hraw] at hraw'
        cases hraw'
        have hfield : Json.field? "quiz" (setQuiz (storedQuiz quiz) data) = some (storedQuiz quiz) := by
          rw [field?_setQuiz, if_pos rfl, hraw]
          rfl
        rcases hcases with ⟨rfl, rfl⟩ | ⟨_, result, rfl, hresult⟩
        · exact ⟨none, .null, hvalue, hfield, rfl, rfl, rfl, fun _ => rfl⟩
        · obtain ⟨read, hreads, rfl⟩ := validateQuiz_ok.mp hresult
          have hstored := readsQuiz_stored hreads
          have hparsed : parseQuiz (some value) = read := parseQuiz_of_reads hreads
          refine ⟨some (read.map QuizQuestion.trimmed), value, hvalue, hfield, ?_,
            parseQuiz_of_reads hstored, ?_, ?_⟩
          · refine validateQuiz_ok.mpr ⟨_, hstored, ?_⟩
            simp [Function.comp_def, QuizQuestion.trimmed_trimmed]
          · rw [hparsed]
            rfl
          · intro answers
            rw [hparsed]
            exact quizAnswersPass_trimmed read answers
    · rename_i hquiz
      rw [hquiz] at hnormal
      unfold normalizeQuiz at hnormal
      rw [hraw] at hnormal
      dsimp only at hnormal
      split at hnormal
      · cases hnormal
      · cases hnormal
      · split at hnormal
        · cases hnormal
        · cases hnormal

/-- An exam tells of its answers no more than whether they pass. -/
theorem exam_response {first second : Json} {a b : QuizCheckData}
    (ha : checkStoredQuiz raw .exam first = .ok a) (hb : checkStoredQuiz raw .exam second = .ok b)
    (hpassed : a.passed = b.passed) : a = b := by
  have shape : ∀ {value : Json} {data : QuizCheckData},
      checkStoredQuiz raw .exam value = .ok data → data = ⟨.exam, data.passed, none⟩ := by
    intro value data h
    unfold checkStoredQuiz at h
    split at h
    · cases h
    · split at h
      · cases h
      · split at h
        · cases h
        · split at h
          · cases h
          · cases h
            rfl
  rw [shape ha, shape hb, hpassed]

/-- Both refuse the same stored values for their content. -/
theorem content_refused_iff (raw : Option Json) (mode : TrainingCompletionMode) (value : Json)
    (answers : Option Json) : checkStoredQuiz raw mode value = .error QUIZ_CONTENT_INVALID ↔
      completionQuizGate raw answers = .error "Invalid quiz content" := by
  have hreason : ∀ e, validateStoredQuiz raw = .error e → e = QUIZ_CONTENT_INVALID := by
    intro e h
    unfold validateStoredQuiz at h
    split at h
    · cases h
    · cases h
      rfl
  have hother : INVALID_QUIZ_ANSWERS ≠ QUIZ_CONTENT_INVALID := by decide
  cases hquiz : validateStoredQuiz raw with
  | error e =>
      have heq := hreason e hquiz
      simp only [checkStoredQuiz, completionQuizGate, hquiz, heq]
  | ok quiz =>
      simp only [checkStoredQuiz, completionQuizGate, hquiz]
      constructor
      · intro h
        split at h
        · exact absurd (Except.error.inj h) hother
        · split at h
          · exact absurd (Except.error.inj h) hother
          · split at h
            · exact absurd (Except.error.inj h) hother
            · cases h
      · intro h
        split at h
        · cases h
        · exact absurd (Except.error.inj h) (by decide)

/-- A quiz without questions passes with the empty list of selections. -/
theorem empty_quiz_passes (h : validateStoredQuiz raw = .ok []) (mode : TrainingCompletionMode)
    (hlist : isQuizSelectionList value = some []) :
    (∃ data, checkStoredQuiz raw mode value = .ok data ∧ data.passed = true) ∧
      completionQuizGate raw (some (spelledAnswers 0 [])) = .ok () := by
  refine ⟨?_, ?_⟩
  · have hcount : ¬ (([] : List QuizQuestion).length < ([] : List QuizSelection).length ∨
        mode ≠ .confirm ∧ ([] : List QuizSelection).length ≠ ([] : List QuizQuestion).length) := by
      simp
    simp only [checkStoredQuiz, h, hlist, if_neg hcount, applySelections]
    exact ⟨_, rfl, rfl⟩
  · simp only [completionQuizGate, h]
    rfl

/-- For every stored value: the check reports a list of selections as passed exactly
where a completion with the answers they spell passes the gate, if the lesson has
questions or the list is empty; both refuse the same contents; what the lifecycle
accepts is stored in a form that every reader takes for the same quiz; and an exam
tells whether the selections pass and nothing else. -/
theorem quiz_readers_agree (platform : LessonPlatform) :
    (∀ raw mode value selections quiz, isQuizSelectionList value = some selections →
      validateStoredQuiz raw = .ok quiz → quiz ≠ [] ∨ selections = [] →
      ((∃ data, checkStoredQuiz raw mode value = .ok data ∧ data.passed = true) ↔
        completionQuizGate raw (some (spelledAnswers quiz.length selections)) = .ok ())) ∧
    (∀ raw mode value answers, checkStoredQuiz raw mode value = .error QUIZ_CONTENT_INVALID ↔
      completionQuizGate raw answers = .error "Invalid quiz content") ∧
    (∀ data data' raw, Json.field? "quiz" data = some raw →
      assertValid platform data = .ok data' → StoredFaithfully platform raw data') ∧
    (∀ raw first second a b, checkStoredQuiz raw .exam first = .ok a →
      checkStoredQuiz raw .exam second = .ok b → a.passed = b.passed → a = b) := by
  refine ⟨?_, content_refused_iff, ?_, ?_⟩
  · intro raw mode value selections quiz hlist hquiz hcase
    by_cases hne : quiz = []
    · subst hne
      have hempty : selections = [] := hcase.resolve_left fun h => h rfl
      subst hempty
      obtain ⟨hcheck, hgate⟩ := empty_quiz_passes hquiz mode hlist
      exact ⟨fun _ => hgate, fun _ => hcheck⟩
    · rw [check_passed_iff hne hquiz mode hlist, gate_spelled_iff hne hquiz selections]
  · intro data data' raw hraw h
    exact assertValid_faithful hraw h
  · intro raw first second a b ha hb hpassed
    exact exam_response ha hb hpassed

/-- The selection of a question that a lesson without questions does not have. -/
def strayAnswer : Json :=
  .arr [.obj [("questionIndex", .num 0), ("optionIndex", .num 0)]]

/-- A lesson without questions completes with any answers, and its check refuses them. -/
theorem stray_answer_completes :
    isQuizSelectionList strayAnswer = some [⟨0, 0⟩] ∧
      completionQuizGate (some (.arr [])) (some (spelledAnswers 0 [⟨0, 0⟩])) = .ok () ∧
      ∀ data, checkStoredQuiz (some (.arr [])) .confirm strayAnswer ≠ .ok data := by
  have hlist : isQuizSelectionList strayAnswer = some [⟨0, 0⟩] := by decide +kernel
  refine ⟨hlist, ?_, ?_⟩
  · have hbounded : boundedAnswers (some (spelledAnswers 0 [⟨0, 0⟩])) = true := by decide +kernel
    have hquiz : validateStoredQuiz (some (.arr [])) = .ok [] := rfl
    simp only [completionQuizGate, hquiz, hbounded]
    rfl
  · intro data h
    have hquiz : validateStoredQuiz (some (.arr [])) = .ok [] := rfl
    simp [checkStoredQuiz, hquiz, hlist] at h

end Sinnlos.Cms
