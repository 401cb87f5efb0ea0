import Sinnlos.Lib.Json
import Sinnlos.Lib.Text

/-! # Answer options of a poll

`packages/domain/src/authoring/poll-options.ts` and the admin JSON field of
`apps/cms/src/utils/json-field.ts`: the rule every writer of options meets, the
comparison of two lists, and the options a row can store.
-/

namespace Sinnlos.Cms

open Text

/-! ## The rule -/

def MIN_POLL_OPTIONS : Nat := 2
def MAX_POLL_OPTIONS : Nat := 20

/-- The loop of `validatePollOptions`, at index `i` with the texts read so far. -/
def readOptions (i : Nat) (options : List String) : List Json → Except String (List String)
  | [] => .ok options
  | .str value :: raw =>
      if trim value = "" then
        .error s!"options[{i}]: a non-empty text is required"
      else if trim value ∈ options then
        .error s!"options[{i}]: \"{trim value}\" repeats options[{options.idxOf (trim value)}]"
      else
        readOptions (i + 1) (options ++ [trim value]) raw
  | _ :: _ => .error s!"options[{i}]: a non-empty text is required"

def optionCountError : String :=
  s!"options: a JSON array of {MIN_POLL_OPTIONS} to {MAX_POLL_OPTIONS} answer texts is required, " ++
    "e.g. [\"Yes\",\"No\"]"

/-- The trimmed options, or the message of the refusal. -/
def validatePollOptions : Json → Except String (List String)
  | .arr raw =>
      if raw.length < MIN_POLL_OPTIONS ∨ MAX_POLL_OPTIONS < raw.length then
        .error optionCountError
      else readOptions 0 [] raw
  | _ => .error optionCountError

variable {texts : List String} {i : Nat} {options : List String} {raw : Json}

/-- What the loop accepts: texts that are new and not empty after trimming. -/
theorem readOptions_ok {raw : List Json} (h : readOptions i options raw = .ok texts) :
    ∃ values : List String, raw = values.map Json.str ∧ texts = options ++ values.map trim ∧
      (∀ value ∈ values, trim value ≠ "") := by
  induction raw generalizing i options with
  | nil =>
      cases h
      exact ⟨[], rfl, (List.append_nil _).symm, nofun⟩
  | cons value raw ih =>
      cases value with
      | str value =>
          simp only [readOptions] at h
          split at h
          · cases h
          · rename_i hne
            split at h
            · cases h
            · obtain ⟨values, rfl, rfl, hall⟩ := ih h
              refine ⟨value :: values, rfl, by simp, ?_⟩
              intro other hmem
              rcases List.mem_cons.mp hmem with rfl | hmem
              · exact hne
              · exact hall other hmem
      | null | bool _ | num _ | arr _ | obj _ => cases h

/-- Trimming the texts before the loop changes nothing it accepts. -/
theorem readOptions_trimmed {values : List String}
    (h : readOptions i options (values.map Json.str) = .ok texts) :
    readOptions i options ((values.map trim).map Json.str) = .ok texts := by
  induction values generalizing i options with
  | nil => exact h
  | cons value values ih =>
      simp only [List.map_cons, readOptions, trim_trim] at h ⊢
      split at h
      · cases h
      · rename_i hne
        split at h
        · cases h
        · rename_i hnew
          rw [if_neg hne, if_neg hnew]
          exact ih h

/-- The rule accepts what it returned, unchanged: publishing a stored list
writes that list. -/
theorem validatePollOptions_self (h : validatePollOptions raw = .ok texts) :
    validatePollOptions (.arr (texts.map Json.str)) = .ok texts := by
  cases raw with
  | arr raw =>
      simp only [validatePollOptions] at h ⊢
      split at h
      · cases h
      · rename_i hcount
        obtain ⟨values, rfl, rfl, -⟩ := readOptions_ok h
        simp only [List.nil_append, List.length_map] at hcount h ⊢
        rw [if_neg hcount]
        exact readOptions_trimmed h
  | null | bool _ | num _ | str _ | obj _ => cases h

/-- A list of options as a row stores it: the rule returned it. -/
structure PollOptions where
  texts : List String
  valid : validatePollOptions (.arr (texts.map Json.str)) = .ok texts
deriving DecidableEq

def PollOptions.json (options : PollOptions) : Json := .arr (options.texts.map Json.str)

/-- The options a value stands for, ready to be stored. -/
def storedOptions (value : Json) : Except String PollOptions :=
  match h : validatePollOptions value with
  | .error message => .error message
  | .ok texts => .ok ⟨texts, validatePollOptions_self h⟩

theorem storedOptions_ok {value : Json} {options : PollOptions}
    (h : storedOptions value = .ok options) : validatePollOptions value = .ok options.texts := by
  unfold storedOptions at h
  split at h
  · cases h
  · rename_i texts hvalid
    cases h
    exact hvalid

theorem PollOptions.stored (options : PollOptions) : storedOptions options.json = .ok options := by
  unfold storedOptions
  have hvalid := options.valid
  split
  · rename_i message h
    cases h.symm.trans hvalid
  · rename_i texts h
    cases h.symm.trans hvalid
    rfl

theorem validatePollOptions_texts (h : validatePollOptions raw = .ok texts) :
    ∃ values : List String, raw = .arr (values.map Json.str) ∧ texts = values.map trim := by
  cases raw with
  | arr raw =>
      simp only [validatePollOptions] at h
      split at h
      · cases h
      · obtain ⟨values, rfl, rfl, -⟩ := readOptions_ok h
        exact ⟨values, rfl, rfl⟩
  | null | bool _ | num _ | str _ | obj _ => cases h

/-- Stored texts are trimmed. -/
theorem PollOptions.trimmed (options : PollOptions) : options.texts.map trim = options.texts := by
  obtain ⟨values, hraw, htexts⟩ := validatePollOptions_texts options.valid
  have hvalues : options.texts = values :=
    List.map_injective_iff.mpr (fun _ _ h => Json.str.inj h) (Json.arr.inj hraw)
  rw [hvalues] at htexts ⊢
  exact htexts.symm

/-! ## Two lists that say the same -/

/-- `===` on values read from different places: two objects or arrays never are. -/
def strictEqual : Json → Json → Bool
  | .null, .null => true
  | .bool a, .bool b => a == b
  | .num a, .num b => a == b
  | .str a, .str b => a == b
  | _, _ => false

def sameOption : Json → Json → Bool
  | .str a, .str b => trim a == trim b
  | a, b => strictEqual a b

/-- Whether two option lists say the same to a voter; none is `undefined`. -/
def samePollOptions : Option Json → Option Json → Bool
  | some (.arr a), some (.arr b) =>
      a.length == b.length && (a.zip b).all fun pair => sameOption pair.1 pair.2
  | some a, some b => strictEqual a b
  | none, none => true
  | _, _ => false

theorem samePollOptions_texts (a b : List String) :
    samePollOptions (some (.arr (a.map Json.str))) (some (.arr (b.map Json.str))) = true ↔
      a.map trim = b.map trim := by
  simp only [samePollOptions, List.length_map, Bool.and_eq_true, beq_iff_eq]
  induction a generalizing b with
  | nil =>
      cases b with
      | nil => simp
      | cons b bs => simp
  | cons a as ih =>
      cases b with
      | nil => simp
      | cons b bs =>
          simp only [List.length_cons, Nat.add_right_cancel_iff, List.map_cons, List.zip_cons_cons,
            List.all_cons, sameOption, Bool.and_eq_true, beq_iff_eq, List.cons.injEq, ← ih bs]
          tauto

/-! ## The admin panel's JSON field -/

/-- The parsed value of a JSON attribute as a request sends it; none where the
text is not JSON. `parse` is `JSON.parse`. -/
def parseAdminJsonField (parse : String → Option Json) : Json → Option Json
  | .str value => if trim value = "" then some .null else parse value
  | value => some value

end Sinnlos.Cms
