import Sinnlos.Cms.PollOptions
import Sinnlos.Lib.Utf16

/-! # The code of refused poll options

`packages/domain/src/authoring/poll-options.ts`: the quick check of the allowlist and
the web form beside the rule of the lifecycle, and the comparison of two lists on the
values the rule accepts. A vote names an option by its index, so the two checks must
agree on what a list is and on where each answer stands.
-/

namespace Sinnlos.Cms

open Text

/-- Characters per answer, for content-API and web writes. -/
def MAX_POLL_OPTION_LENGTH : Nat := 200

/-- The field codes that refuse a value of options. -/
inductive PollOptionsFieldCode
  | invalid
  | optionCount
  | required
  | tooLong
  | optionDuplicate
deriving DecidableEq, Repr

/-- `text.length`, in 16-bit units. -/
def unitLength (text : String) : Nat := (Utf16.encode text.toList).length

/-- The loop of `pollOptionsCode` over the entries left, `seen` before them. -/
def optionsCode (maxLength : Option Nat) (seen : List String) :
    List Json → Option PollOptionsFieldCode
  | [] => none
  | .str value :: raw =>
      if trim value = "" then some .required
      else if ∃ limit ∈ maxLength, limit < unitLength (trim value) then some .tooLong
      else if trim value ∈ seen then some .optionDuplicate
      else optionsCode maxLength (seen ++ [trim value]) raw
  | _ :: _ => some .invalid

/-- The field code of a refused options value, none where it passes. -/
def pollOptionsCode (raw : Json) (maxLength : Option Nat) : Option PollOptionsFieldCode :=
  match raw with
  | .arr raw =>
      if raw.length < MIN_POLL_OPTIONS ∨ MAX_POLL_OPTIONS < raw.length then some .optionCount
      else optionsCode maxLength [] raw
  | _ => some .invalid

/-! ## The two loops -/

/-- The loops stop at the same entry: what the quick one has seen is what the full one
has read. -/
theorem optionsCode_none (maxLength : Option Nat) (i : Nat) (seen : List String)
    (raw : List Json) :
    optionsCode maxLength seen raw = none ↔
      ∃ texts, readOptions i seen raw = .ok (seen ++ texts) ∧
        ∀ limit ∈ maxLength, ∀ text ∈ texts, unitLength text ≤ limit := by
  induction raw generalizing i seen with
  | nil =>
      constructor
      · intro _
        exact ⟨[], by simp [readOptions], by simp⟩
      · intro _
        rfl
  | cons entry raw ih =>
      cases entry with
      | str value =>
          simp only [optionsCode, readOptions]
          by_cases hempty : trim value = ""
          · simp [hempty]
          by_cases hseen : trim value ∈ seen
          · simp only [if_neg hempty, if_pos hseen]
            constructor
            · intro h
              split at h <;> cases h
            · rintro ⟨texts, h, -⟩
              cases h
          simp only [if_neg hempty, if_neg hseen]
          by_cases hlong : ∃ limit ∈ maxLength, limit < unitLength (trim value)
          · rw [if_pos hlong]
            obtain ⟨limit, hlimit, hlt⟩ := hlong
            constructor
            · intro h
              cases h
            · rintro ⟨texts, h, hall⟩
              obtain ⟨values, -, htexts, -⟩ := readOptions_ok h
              have hmem : trim value ∈ texts := by
                rw [List.append_assoc] at htexts
                rw [List.append_cancel_left htexts]
                exact List.mem_cons_self
              have hle := hall limit hlimit _ hmem
              omega
          · rw [if_neg hlong, ih (i + 1) (seen ++ [trim value])]
            have hshort : ∀ limit ∈ maxLength, unitLength (trim value) ≤ limit := by
              intro limit hlimit
              by_contra hlt
              exact hlong ⟨limit, hlimit, by omega⟩
            constructor
            · rintro ⟨texts, h, hall⟩
              have happend : seen ++ trim value :: texts = seen ++ [trim value] ++ texts := by simp
              rw [← happend] at h
              have hcons : ∀ limit ∈ maxLength, ∀ text ∈ trim value :: texts,
                  unitLength text ≤ limit := by
                intro limit hlimit text hmem
                rcases List.mem_cons.mp hmem with rfl | hmem
                · exact hshort limit hlimit
                · exact hall limit hlimit text hmem
              exact ⟨trim value :: texts, h, hcons⟩
            · rintro ⟨texts, h, hall⟩
              obtain ⟨values, -, htexts, -⟩ := readOptions_ok h
              rw [List.append_assoc] at htexts
              have htail : texts = trim value :: values.map trim := List.append_cancel_left htexts
              have happend : seen ++ [trim value] ++ values.map trim = seen ++ texts := by
                rw [htail]
                simp
              rw [← happend] at h
              have hrest : ∀ limit ∈ maxLength, ∀ text ∈ values.map trim,
                  unitLength text ≤ limit := by
                intro limit hlimit text hmem
                have hin : text ∈ texts := by
                  rw [htail]
                  exact List.mem_cons_of_mem _ hmem
                exact hall limit hlimit text hin
              exact ⟨values.map trim, h, hrest⟩
      | null | bool _ | num _ | arr _ | obj _ =>
          constructor
          · intro h
            cases h
          · rintro ⟨texts, h, -⟩
            cases h

/-- With a limit the quick check accepts what the rule accepts and no text exceeds. -/
theorem pollOptionsCode_none (raw : Json) (maxLength : Option Nat) :
    pollOptionsCode raw maxLength = none ↔
      ∃ texts, validatePollOptions raw = .ok texts ∧
        ∀ limit ∈ maxLength, ∀ text ∈ texts, unitLength text ≤ limit := by
  cases raw with
  | arr raw =>
      simp only [pollOptionsCode, validatePollOptions]
      by_cases hcount : raw.length < MIN_POLL_OPTIONS ∨ MAX_POLL_OPTIONS < raw.length
      · simp [hcount]
      · rw [if_neg hcount, if_neg hcount]
        exact optionsCode_none maxLength 0 [] raw
  | null | bool _ | num _ | str _ | obj _ =>
      constructor
      · intro h
        cases h
      · rintro ⟨texts, h, -⟩
        cases h

/-! ## The comparison on accepted values -/

/-- On accepted values the comparison is that of the validated lists. -/
theorem samePollOptions_accepted {a b : Json} {as bs : List String}
    (ha : validatePollOptions a = .ok as) (hb : validatePollOptions b = .ok bs) :
    samePollOptions (some a) (some b) = true ↔ as = bs := by
  obtain ⟨_, rfl, rfl⟩ := validatePollOptions_texts ha
  obtain ⟨_, rfl, rfl⟩ := validatePollOptions_texts hb
  exact samePollOptions_texts _ _

/-- The values the rule accepts. -/
def AcceptedOptions : Type := { raw : Json // ∃ texts, validatePollOptions raw = .ok texts }

def AcceptedOptions.same (a b : AcceptedOptions) : Prop :=
  samePollOptions (some a.val) (some b.val) = true

theorem AcceptedOptions.same_equivalence : Equivalence AcceptedOptions.same := by
  constructor
  case refl =>
    intro a
    obtain ⟨texts, h⟩ := a.property
    exact (samePollOptions_accepted h h).mpr rfl
  case symm =>
    intro a b hab
    obtain ⟨as, ha⟩ := a.property
    obtain ⟨bs, hb⟩ := b.property
    have heq := (samePollOptions_accepted ha hb).mp hab
    exact (samePollOptions_accepted hb ha).mpr heq.symm
  case trans =>
    intro a b c hab hbc
    obtain ⟨as, ha⟩ := a.property
    obtain ⟨bs, hb⟩ := b.property
    obtain ⟨cs, hc⟩ := c.property
    have hfirst := (samePollOptions_accepted ha hb).mp hab
    have hsecond := (samePollOptions_accepted hb hc).mp hbc
    exact (samePollOptions_accepted ha hc).mpr (hfirst.trans hsecond)

/-- The two checks agree on every value; an accepted list keeps each answer at its index
and is its own validation; two accepted values are the same exactly when their validated
lists agree position by position. -/
theorem pollOptions_checks_agree :
    (∀ raw, pollOptionsCode raw none = none ↔ ∃ texts, validatePollOptions raw = .ok texts) ∧
      (∀ (raw : Json) (texts : List String), validatePollOptions raw = .ok texts →
        (∃ values : List String, raw = .arr (values.map Json.str) ∧
          texts.length = values.length ∧
            ∀ i : Nat, texts[i]? = values[i]?.map trim) ∧
          validatePollOptions (.arr (texts.map Json.str)) = .ok texts) ∧
      Equivalence AcceptedOptions.same ∧
      ∀ (a b : Json) (as bs : List String),
        validatePollOptions a = .ok as → validatePollOptions b = .ok bs →
        (samePollOptions (some a) (some b) = true ↔
          as.length = bs.length ∧ ∀ i : Nat, as[i]? = bs[i]?) := by
  constructor
  · intro raw
    simp [pollOptionsCode_none]
  constructor
  · intro raw texts h
    obtain ⟨values, hraw, rfl⟩ := validatePollOptions_texts h
    exact ⟨⟨values, hraw, by simp, by simp⟩, validatePollOptions_self h⟩
  constructor
  · exact AcceptedOptions.same_equivalence
  · intro a b as bs ha hb
    rw [samePollOptions_accepted ha hb]
    constructor
    · rintro rfl
      simp
    · rintro ⟨-, hall⟩
      exact List.ext_getElem? hall

theorem pollOptions_checks_agree_spaced :
    validatePollOptions (.arr [.str " Yes", .str "No "]) = .ok ["Yes", "No"] ∧
      pollOptionsCode (.arr [.str " Yes", .str "No "]) none = none ∧
      validatePollOptions (.arr [.str "Yes", .str "No"]) = .ok ["Yes", "No"] := by
  have hvalid : validatePollOptions (.arr [.str " Yes", .str "No "]) = .ok ["Yes", "No"] := by
    decide +kernel
  have hcode := (pollOptions_checks_agree.1 _).mpr ⟨_, hvalid⟩
  have hself := (pollOptions_checks_agree.2.1 _ _ hvalid).2
  exact ⟨hvalid, hcode, hself⟩

end Sinnlos.Cms
