import Sinnlos.Domain.Quizzes
import Sinnlos.Cms.UploadZip

/-!
# Attribute values

`decodeAttributeValue` of `apps/cms/src/utils/upload-ooxml.ts`: the predefined
entities and the character references of a raw attribute value. A value is cut from
decoded text, so it is a list of characters; lengths are those of its code units.
-/

namespace Sinnlos.Cms.Ooxml

open UploadZip (ZipRefusal)
open Text (bind_eq_ok)
open Domain (codeUnits)

def refuse {α : Type} (reason : String) : Except ZipRefusal α := .error ⟨reason⟩

/-- The entities that every document knows. -/
def PREDEFINED : List (String × Char) :=
  [("lt", '<'), ("gt", '>'), ("amp", '&'), ("apos", '\''), ("quot", '\"')]

/-- What every object has beside its own keys, as it reads when it is appended to a text. -/
def INHERITED : List (String × String) :=
  let function (name : String) : String := "function " ++ name ++ "() \x7b [native code] \x7d"
  [("__proto__", "[object Object]"), ("constructor", function "Object")] ++
    ["__defineGetter__", "__defineSetter__", "__lookupGetter__", "__lookupSetter__",
      "hasOwnProperty", "isPrototypeOf", "propertyIsEnumerable", "toLocaleString", "toString",
      "valueOf"].map fun name => (name, function name)

/-- `PREDEFINED[body]`, whose own keys stand before the inherited ones. -/
def predefined (body : List Char) : Option (List Char) :=
  match PREDEFINED.lookup (String.ofList body) with
  | some char => some [char]
  | none => (INHERITED.lookup (String.ofList body)).map String.toList

/-- A legal character of the document. -/
def isXmlChar (code : Nat) : Bool :=
  code = 0x9 || code = 0xa || code = 0xd || (0x20 ≤ code && code ≤ 0xd7ff) ||
    (0xe000 ≤ code && code ≤ 0xfffd) || (0x10000 ≤ code && code ≤ 0x10ffff)

def isHexDigit (c : Char) : Bool :=
  c.isDigit || ('A' ≤ c && c ≤ 'F') || ('a' ≤ c && c ≤ 'f')

def hexValue (c : Char) : Nat :=
  if c.isDigit then c.toNat - 48 else if c.toNat < 97 then c.toNat - 55 else c.toNat - 87

/-- `parseInt` of digits that passed the test. -/
def parseInt (radix : Nat) (digits : List Char) : Nat :=
  digits.foldl (fun value c => radix * value + hexValue c) 0

/-- The character of a code. -/
def fromCodePoint (code : Nat) : Except ZipRefusal (List Char) :=
  if isXmlChar code then .ok [Char.ofNat code]
  else refuse "character reference to a non-character"

/-- What a reference stands for, by what is between its `&` and its `;`. -/
def decodeReference (body : List Char) : Except ZipRefusal (List Char) :=
  match body with
  | '#' :: 'x' :: digits =>
      if 1 ≤ digits.length ∧ digits.length ≤ 6 ∧ digits.all isHexDigit then
        fromCodePoint (parseInt 16 digits)
      else refuse "malformed character reference"
  | '#' :: digits =>
      if 1 ≤ digits.length ∧ digits.length ≤ 7 ∧ digits.all Char.isDigit then
        fromCodePoint (parseInt 10 digits)
      else refuse "malformed character reference"
  | body =>
      match predefined body with
      | some decoded => .ok decoded
      | none => refuse ("unknown entity &" ++ String.ofList body ++ ";")

/-- What stands before the first semicolon, and after it. -/
def upToSemicolon : List Char → Option (List Char × List Char)
  | [] => none
  | c :: rest =>
      if c = ';' then some ([], rest)
      else (upToSemicolon rest).map fun parts => (c :: parts.1, parts.2)

variable {body out raw : List Char} {c char : Char} {name : String}

theorem upToSemicolon_eq_some {text rest : List Char} :
    upToSemicolon text = some (body, rest) ↔ text = body ++ ';' :: rest ∧ ';' ∉ body := by
  induction text generalizing body with
  | nil => simp [upToSemicolon]
  | cons c text ih =>
      rw [upToSemicolon]
      by_cases hc : c = ';'
      · subst hc
        rw [if_pos rfl]
        cases body with
        | nil => simp [eq_comm]
        | cons d body =>
            constructor
            · intro h
              cases h
            · intro h
              obtain ⟨hd, -⟩ := List.cons.inj h.1
              exact absurd (hd ▸ List.mem_cons_self) h.2
      · rw [if_neg hc]
        cases body with
        | nil =>
            constructor
            · intro h
              obtain ⟨parts, -, hparts⟩ := Option.map_eq_some_iff.mp h
              cases hparts
            · intro h
              exact absurd (List.cons.inj h.1).1 hc
        | cons d body =>
            constructor
            · intro h
              obtain ⟨parts, hrest, hparts⟩ := Option.map_eq_some_iff.mp h
              cases hparts
              obtain ⟨htext, hno⟩ := ih.mp hrest
              exact ⟨by rw [htext]; rfl, by simp [hno, Ne.symm hc]⟩
            · intro h
              obtain ⟨rfl, htext⟩ := List.cons.inj h.1
              rw [ih.mpr ⟨htext, fun hmem => h.2 (List.mem_cons_of_mem _ hmem)⟩]
              rfl

/-- Decodes the predefined entities and character references of an attribute value. -/
def decodeAttributeValue (raw : List Char) : Except ZipRefusal (List Char) :=
  match raw with
  | [] => .ok []
  | c :: rest =>
      if c = '<' then refuse "< in an attribute value"
      else if c ≠ '&' then do
        let out ← decodeAttributeValue rest
        return c :: out
      else
        match _h : upToSemicolon rest with
        | none => refuse "malformed reference"
        | some (body, rest') =>
            if 12 < codeUnits body + 1 then refuse "malformed reference"
            else do
              let decoded ← decodeReference body
              let out ← decodeAttributeValue rest'
              return decoded ++ out
termination_by raw.length
decreasing_by
  · simp
  · have hlength := congrArg List.length (upToSemicolon_eq_some.mp _h).1
    rw [List.length_append, List.length_cons] at hlength
    rw [List.length_cons]
    omega

/-! ## Legal references -/

/-- What is between the `&` and the `;` of a legal reference, and the character it stands for. -/
inductive Legal : List Char → Char → Prop
  | entity {name : String} {char : Char} (known : (name, char) ∈ PREDEFINED) :
      Legal name.toList char
  | decimal {digits : List Char} (some : digits ≠ []) (all : digits.all Char.isDigit = true)
      (legal : isXmlChar (parseInt 10 digits) = true) :
      Legal ('#' :: digits) (Char.ofNat (parseInt 10 digits))
  | hexadecimal {digits : List Char} (some : digits ≠ []) (all : digits.all isHexDigit = true)
      (legal : isXmlChar (parseInt 16 digits) = true) :
      Legal ('#' :: 'x' :: digits) (Char.ofNat (parseInt 16 digits))

/-- The longest body of a reference that is read: seven decimal or six hexadecimal digits. -/
def MAX_BODY : Nat := 8

/-- A legal reference that is not too long. -/
def Refers (body : List Char) (char : Char) : Prop := Legal body char ∧ body.length ≤ MAX_BODY

/-- Every reference replaced by its character, and everything else kept. -/
inductive Decodes : List Char → List Char → Prop
  | nil : Decodes [] []
  | plain {c : Char} {raw out : List Char} (text : c ≠ '<') (noReference : c ≠ '&')
      (rest : Decodes raw out) : Decodes (c :: raw) (c :: out)
  | reference {body raw out : List Char} {char : Char} (refers : Refers body char)
      (rest : Decodes raw out) : Decodes ('&' :: (body ++ ';' :: raw)) (char :: out)

/-- A value without `<` in which every `&` starts a reference. -/
def LegalValue (refers : List Char → Char → Prop) (raw : List Char) : Prop :=
  '<' ∉ raw ∧ ∀ front back, raw = front ++ '&' :: back →
    ∃ body char rest, refers body char ∧ back = body ++ ';' :: rest

/-- No reference names what every object has. -/
def NoInherited (raw : List Char) : Prop :=
  ∀ front body rest, raw = front ++ '&' :: (body ++ ';' :: rest) →
    INHERITED.lookup (String.ofList body) = none

/-! ## The characters of a reference -/

/-- Letters, digits and the hash. -/
def isBodyChar (c : Char) : Bool := c.isAlphanum || c = '#'

theorem isBodyChar_of_isDigit (h : c.isDigit = true) : isBodyChar c = true := by
  simp [isBodyChar, Char.isAlphanum, h]

theorem isBodyChar_iff : isBodyChar c = true ↔ c.isAlphanum = true ∨ c = '#' := by
  rw [isBodyChar, Bool.or_eq_true, decide_eq_true_eq]

theorem isBodyChar_of_isHexDigit (h : isHexDigit c = true) : isBodyChar c = true := by
  simp only [isHexDigit, Bool.or_eq_true, Bool.and_eq_true, decide_eq_true_eq] at h
  rcases h with (hdigit | ⟨hle, hge⟩) | ⟨hle, hge⟩
  · exact isBodyChar_of_isDigit hdigit
  · have hletter : c ≤ 'Z' := Char.le_trans hge (by decide)
    exact isBodyChar_iff.mpr (Or.inl (Text.isAlphanum_iff.mpr (Or.inl (Or.inl ⟨hle, hletter⟩))))
  · have hletter : c ≤ 'z' := Char.le_trans hge (by decide)
    exact isBodyChar_iff.mpr (Or.inl (Text.isAlphanum_iff.mpr (Or.inl (Or.inr ⟨hle, hletter⟩))))

theorem Legal.bodyChars (h : Legal body char) : body.all isBodyChar = true := by
  cases h with
  | entity known =>
      have hall : ∀ entry ∈ PREDEFINED, entry.1.toList.all isBodyChar = true := by decide
      exact hall _ known
  | decimal _ all _ =>
      rw [List.all_cons, Bool.and_eq_true, List.all_eq_true]
      exact ⟨rfl, fun c hc => isBodyChar_of_isDigit (List.all_eq_true.mp all c hc)⟩
  | hexadecimal _ all _ =>
      rw [List.all_cons, List.all_cons, Bool.and_eq_true, Bool.and_eq_true, List.all_eq_true]
      exact ⟨rfl, rfl, fun c hc => isBodyChar_of_isHexDigit (List.all_eq_true.mp all c hc)⟩

theorem Legal.not_mem (h : Legal body char) (hc : isBodyChar c = false) : c ∉ body := by
  intro hmem
  rw [List.all_eq_true.mp h.bodyChars c hmem] at hc
  cases hc

theorem toNat_lt_of_isBodyChar (h : isBodyChar c = true) : c.toNat < 128 := by
  rw [isBodyChar_iff, Text.isAlphanum_iff] at h
  rcases h with ((⟨_, hle⟩ | ⟨_, hle⟩) | ⟨_, hle⟩) | heq
  · exact Nat.lt_of_le_of_lt hle (by decide)
  · exact Nat.lt_of_le_of_lt hle (by decide)
  · exact Nat.lt_of_le_of_lt hle (by decide)
  · rw [heq]
    decide

theorem codeUnits_of_bodyChars (h : body.all isBodyChar = true) : codeUnits body = body.length := by
  induction body with
  | nil => rfl
  | cons c body ih =>
      rw [List.all_cons, Bool.and_eq_true] at h
      have hc := toNat_lt_of_isBodyChar h.1
      rw [codeUnits, ih h.2, if_pos (by omega), List.length_cons]
      omega

/-! ## One reference -/

theorem fromCodePoint_eq_ok {code : Nat} :
    fromCodePoint code = .ok out ↔ isXmlChar code = true ∧ out = [Char.ofNat code] := by
  unfold fromCodePoint refuse
  split
  · next h => simp [h, eq_comm]
  · next h => simp [h]

theorem lookup_eq_some_of_mem (h : (name, char) ∈ PREDEFINED) :
    PREDEFINED.lookup name = some char := by
  have hall : ∀ entry ∈ PREDEFINED, PREDEFINED.lookup entry.1 = some entry.2 := by decide
  exact hall _ h

theorem mem_of_lookup (h : PREDEFINED.lookup name = some char) : (name, char) ∈ PREDEFINED := by
  obtain ⟨front, back, hsplit, -⟩ := List.lookup_eq_some_iff.mp h
  rw [hsplit]
  exact List.mem_append_right _ List.mem_cons_self

theorem head_of_entity (h : (name, char) ∈ PREDEFINED) : name.toList.head? ≠ some '#' := by
  have hall : ∀ entry ∈ PREDEFINED, entry.1.toList.head? ≠ some '#' := by decide
  exact hall _ h

/-- A reference is decoded where it is legal, not too long and no inherited name. -/
theorem decodeReference_eq_ok (own : INHERITED.lookup (String.ofList body) = none) :
    decodeReference body = .ok out ↔ ∃ char, out = [char] ∧ Refers body char := by
  unfold Refers MAX_BODY
  constructor
  · intro h
    unfold decodeReference at h
    split at h
    · next digits =>
        split at h
        · next htest =>
            obtain ⟨hlegal, hout⟩ := fromCodePoint_eq_ok.mp h
            have hsome : digits ≠ [] := List.ne_nil_of_length_pos htest.1
            refine ⟨_, hout, .hexadecimal hsome htest.2.2 hlegal, ?_⟩
            simp only [List.length_cons]
            omega
        · cases h
    · next digits _ =>
        split at h
        · next htest =>
            obtain ⟨hlegal, hout⟩ := fromCodePoint_eq_ok.mp h
            have hsome : digits ≠ [] := List.ne_nil_of_length_pos htest.1
            refine ⟨_, hout, .decimal hsome htest.2.2 hlegal, ?_⟩
            simp only [List.length_cons]
            omega
        · cases h
    · unfold predefined at h
      rw [own] at h
      cases hlookup : PREDEFINED.lookup (String.ofList body) with
      | none =>
          rw [hlookup] at h
          cases h
      | some char =>
          rw [hlookup] at h
          have hmem := mem_of_lookup hlookup
          have hshort : ∀ entry ∈ PREDEFINED, entry.1.toList.length ≤ 8 := by decide
          have hlength := hshort _ hmem
          have hentity := Legal.entity hmem
          rw [String.toList_ofList] at hlength hentity
          exact ⟨char, (Except.ok.inj h).symm, hentity, hlength⟩
  · intro h
    obtain ⟨char, rfl, hlegal, hlength⟩ := h
    cases hlegal with
    | @entity name _ known =>
        have hhead := head_of_entity known
        unfold decodeReference
        split
        · next heq =>
            rw [heq] at hhead
            exact absurd rfl hhead
        · next heq =>
            rw [heq] at hhead
            exact absurd rfl hhead
        · rw [predefined, String.ofList_toList, lookup_eq_some_of_mem known]
    | @decimal digits some all legal =>
        have hpos := List.length_pos_iff.mpr some
        rw [List.length_cons] at hlength
        unfold decodeReference
        split
        · next heq =>
            rw [(List.cons.inj heq).2] at all
            cases all
        · next heq =>
            cases heq
            rw [if_pos ⟨hpos, by omega, all⟩]
            exact fromCodePoint_eq_ok.mpr ⟨legal, rfl⟩
        · next hno => exact absurd rfl (hno digits)
    | @hexadecimal digits some all legal =>
        have hpos := List.length_pos_iff.mpr some
        rw [List.length_cons, List.length_cons] at hlength
        show (if 1 ≤ digits.length ∧ digits.length ≤ 6 ∧ digits.all isHexDigit = true then
          fromCodePoint (parseInt 16 digits) else _) = _
        rw [if_pos ⟨hpos, by omega, all⟩]
        exact fromCodePoint_eq_ok.mpr ⟨legal, rfl⟩

/-! ## Whole values -/

theorem NoInherited.tail {c : Char} {raw : List Char} (own : NoInherited (c :: raw)) :
    NoInherited raw := by
  intro front body rest h
  exact own (c :: front) body rest (by rw [h]; rfl)

theorem NoInherited.after (own : NoInherited ('&' :: (body ++ ';' :: raw))) : NoInherited raw := by
  intro front inner rest h
  exact own ('&' :: (body ++ ';' :: front)) inner rest (by rw [h]; simp)

/-- A value decodes to a text where every reference of it is replaced. -/
theorem decodeAttributeValue_eq_ok (own : NoInherited raw) :
    decodeAttributeValue raw = .ok out ↔ Decodes raw out := by
  induction hlength : raw.length using Nat.strong_induction_on generalizing raw out with
  | _ length ih =>
      subst hlength
      unfold decodeAttributeValue
      cases raw with
      | nil =>
          constructor
          · intro h
            cases h
            exact .nil
          · intro h
            cases h
            rfl
      | cons c raw =>
          dsimp only
          have hrest (out : List Char) : decodeAttributeValue raw = .ok out ↔ Decodes raw out :=
            ih raw.length (by simp) own.tail rfl
          by_cases hless : c = '<'
          · rw [if_pos hless]
            constructor
            · intro h
              cases h
            · intro h
              cases h with
              | plain text _ _ => exact absurd hless text
              | reference _ _ => cases hless
          · rw [if_neg hless]
            by_cases hamp : c = '&'
            · subst hamp
              rw [if_neg (by simp)]
              split
              · next hnone =>
                  constructor
                  · intro h
                    cases h
                  · intro h
                    cases h with
                    | plain _ noReference _ => exact absurd rfl noReference
                    | @reference body rest _ _ refers _ =>
                        have hcut : upToSemicolon (body ++ ';' :: rest) = some (body, rest) :=
                          upToSemicolon_eq_some.mpr ⟨rfl, refers.1.not_mem (by decide)⟩
                        rw [hcut] at hnone
                        cases hnone
              · next body rest hcut =>
                  obtain ⟨htext, hno⟩ := upToSemicolon_eq_some.mp hcut
                  subst htext
                  have hown : INHERITED.lookup (String.ofList body) = none := own [] body rest rfl
                  have hafter (out : List Char) :
                      decodeAttributeValue rest = .ok out ↔ Decodes rest out := by
                    refine ih rest.length ?_ own.after rfl
                    simp only [List.length_cons, List.length_append]
                    omega
                  constructor
                  · intro h
                    split at h
                    · cases h
                    · obtain ⟨decoded, hdecoded, h⟩ := bind_eq_ok.mp h
                      obtain ⟨tail, htail, h⟩ := bind_eq_ok.mp h
                      obtain ⟨char, rfl, hrefers⟩ := (decodeReference_eq_ok hown).mp hdecoded
                      cases h
                      exact .reference hrefers ((hafter tail).mp htail)
                  · intro h
                    generalize hvalue : body ++ ';' :: rest = value at h
                    cases h with
                    | plain _ noReference _ => exact absurd rfl noReference
                    | @reference body' rest' out' char hrefers hrest' =>
                        obtain ⟨rfl, hsame⟩ := Text.join_injective hno
                          (hrefers.1.not_mem (by decide)) hvalue
                        subst hsame
                        have hunits := codeUnits_of_bodyChars hrefers.1.bodyChars
                        have hshort := hrefers.2
                        unfold MAX_BODY at hshort
                        rw [if_neg (by omega),
                          (decodeReference_eq_ok hown).mpr ⟨char, rfl, hrefers⟩,
                          (hafter out').mpr hrest']
                        rfl
            · rw [if_pos hamp]
              constructor
              · intro h
                obtain ⟨tail, htail, h⟩ := bind_eq_ok.mp h
                cases h
                exact .plain hless hamp ((hrest tail).mp htail)
              · intro h
                cases h with
                | @plain _ _ out' _ _ hrest' =>
                    rw [(hrest out').mpr hrest']
                    rfl
                | reference _ _ => exact absurd rfl hamp

/-- Some text is decoded where every reference is legal and not too long. -/
theorem exists_decodes_iff : (∃ out, Decodes raw out) ↔ LegalValue Refers raw := by
  constructor
  · intro h
    obtain ⟨out, h⟩ := h
    induction h with
    | nil => exact ⟨List.not_mem_nil, fun front back h => by cases front <;> cases h⟩
    | @plain c raw out text noReference _ ih =>
        constructor
        · intro hmem
          rcases List.mem_cons.mp hmem with heq | hmem
          · exact text heq.symm
          · exact ih.1 hmem
        · intro front back h
          cases front with
          | nil => exact absurd (List.cons.inj h).1 noReference
          | cons _ front => exact ih.2 front back (List.cons.inj h).2
    | @reference body raw out char refers _ ih =>
        have hno : '&' ∉ body := refers.1.not_mem (by decide)
        constructor
        · intro hmem
          rcases List.mem_cons.mp hmem with heq | hmem
          · cases heq
          · rcases List.mem_append.mp hmem with hbody | hmem
            · exact refers.1.not_mem (by decide) hbody
            · rcases List.mem_cons.mp hmem with heq | hmem
              · cases heq
              · exact ih.1 hmem
        · intro front back h
          cases front with
          | nil => exact ⟨body, char, raw, refers, (List.cons.inj h).2.symm⟩
          | cons first front =>
              have hsplit := (List.cons.inj h).2
              -- the next `&` stands behind this reference
              rcases List.append_eq_append_iff.mp hsplit with
                ⟨inner, hfront, hcons⟩ | ⟨inner, hbody, hcons⟩
              · cases inner with
                | nil => cases (List.cons.inj hcons).1
                | cons _ inner => exact ih.2 inner back (List.cons.inj hcons).2
              · cases inner with
                | nil => cases (List.cons.inj hcons).1
                | cons amp inner =>
                    have hamp := (List.cons.inj hcons).1
                    rw [hbody, ← hamp] at hno
                    exact absurd (List.mem_append_right _ List.mem_cons_self) hno
  · intro h
    induction hlength : raw.length using Nat.strong_induction_on generalizing raw with
    | _ length ih =>
        subst hlength
        cases raw with
        | nil => exact ⟨[], .nil⟩
        | cons c raw =>
            have htail : LegalValue Refers raw :=
              ⟨fun hmem => h.1 (List.mem_cons_of_mem _ hmem),
                fun front back heq => h.2 (c :: front) back (by rw [heq]; rfl)⟩
            by_cases hamp : c = '&'
            · subst hamp
              obtain ⟨body, char, rest, refers, hraw⟩ := h.2 [] raw rfl
              subst hraw
              have hrest : LegalValue Refers rest := by
                constructor
                · exact fun hmem => htail.1 (List.mem_append_right _ (List.mem_cons_of_mem _ hmem))
                · intro front back heq
                  exact htail.2 (body ++ ';' :: front) back (by rw [heq]; simp)
              have hshorter : rest.length < ('&' :: (body ++ ';' :: rest)).length := by
                simp only [List.length_cons, List.length_append]
                omega
              obtain ⟨out, hout⟩ := ih rest.length hshorter hrest rfl
              exact ⟨_, .reference refers hout⟩
            · have hless : c ≠ '<' := fun heq => h.1 (heq ▸ List.mem_cons_self)
              obtain ⟨out, hout⟩ := ih raw.length (by simp) htail rfl
              exact ⟨_, .plain hless hamp hout⟩

/-- A value without inherited names decodes where it has no `<` and all its references are legal,
and then to the text in which each is replaced. -/
theorem decodeAttributeValue_legal {raw : List Char} (own : NoInherited raw) :
    ((∃ out, decodeAttributeValue raw = .ok out) ↔ LegalValue Refers raw) ∧
      ∀ out, decodeAttributeValue raw = .ok out ↔ Decodes raw out := by
  refine ⟨?_, fun out => decodeAttributeValue_eq_ok own⟩
  rw [← exists_decodes_iff]
  exact exists_congr fun out => decodeAttributeValue_eq_ok own

/-- Letters and a reference by code. -/
def mixedValue : List Char := "a&lt;b&#x41;".toList

/-- Every inherited name has one of three characters. -/
theorem noInherited_of_chars (h : 'o' ∉ raw ∧ 'O' ∉ raw ∧ '_' ∉ raw) : NoInherited raw := by
  intro front body rest hraw
  have hbody (c : Char) (hc : c ∈ body) : c ∈ raw := by
    rw [hraw]
    simp [hc]
  by_contra hknown
  obtain ⟨text, hlookup⟩ := Option.ne_none_iff_exists'.mp hknown
  obtain ⟨before, after, hsplit, -⟩ := List.lookup_eq_some_iff.mp hlookup
  have hmem : (String.ofList body, text) ∈ INHERITED := by
    rw [hsplit]
    exact List.mem_append_right _ List.mem_cons_self
  have hall : ∀ entry ∈ INHERITED,
      'o' ∈ entry.1.toList ∨ 'O' ∈ entry.1.toList ∨ '_' ∈ entry.1.toList := by decide +kernel
  have hchars := hall _ hmem
  rw [String.toList_ofList] at hchars
  rcases hchars with ho | hO | hunderscore
  · exact h.1 (hbody _ ho)
  · exact h.2.1 (hbody _ hO)
  · exact h.2.2 (hbody _ hunderscore)

theorem decodeAttributeValue_legal_mixed :
    decodeAttributeValue mixedValue = .ok "a<bA".toList ↔ Decodes mixedValue "a<bA".toList :=
  (decodeAttributeValue_legal (noInherited_of_chars (by decide))).2 _

/-- The first reference of a value and what follows it. -/
theorem decodeAttributeValue_amp {rest rest' : List Char}
    (h : upToSemicolon rest = some (body, rest')) (short : codeUnits body + 1 ≤ 12) :
    decodeAttributeValue ('&' :: rest) = do
      let decoded ← decodeReference body
      let out ← decodeAttributeValue rest'
      return decoded ++ out := by
  rw [decodeAttributeValue, if_neg (by decide), if_neg (by simp)]
  split
  · next hnone =>
      rw [hnone] at h
      cases h
  · next body' rest'' hsome =>
      rw [hsome] at h
      cases h
      rw [if_neg (by omega)]

/-- An inherited name passes for an entity, and zeros make a legal reference too long. -/
theorem constructor_passes_for_an_entity :
    ((∃ out, decodeAttributeValue "&constructor;".toList = .ok out) ∧
      ¬ LegalValue Legal "&constructor;".toList) ∧
    ((¬ ∃ out, decodeAttributeValue "&#x0000041;".toList = .ok out) ∧
      LegalValue Legal "&#x0000041;".toList) := by
  have hempty : decodeAttributeValue [] = .ok [] := by rw [decodeAttributeValue]
  refine ⟨⟨?_, ?_⟩, ?_, ?_, ?_⟩
  · refine ⟨"function Object() \x7b [native code] \x7d".toList, ?_⟩
    have hreference : decodeReference "constructor".toList =
        .ok "function Object() \x7b [native code] \x7d".toList := by decide +kernel
    have hvalue : "&constructor;".toList = '&' :: ("constructor".toList ++ [';']) := by decide
    have hcut : upToSemicolon ("constructor".toList ++ [';']) = some ("constructor".toList, []) := by
      decide
    rw [hvalue, decodeAttributeValue_amp hcut (by decide), hreference, hempty]
    decide
  · intro h
    obtain ⟨body, char, rest, hlegal, hrest⟩ := h.2 [] "constructor;".toList (by decide)
    have hbody : body = "constructor".toList := by
      have hsplit : "constructor".toList ++ ';' :: [] = body ++ ';' :: rest := hrest
      exact (Text.join_injective (by decide) (hlegal.not_mem (by decide)) hsplit).1.symm
    generalize hname : "constructor".toList = name at hbody
    subst hbody
    cases hlegal with
    | entity known =>
        rw [← String.toList_inj.mp hname] at known
        have hno : ∀ entry ∈ PREDEFINED, entry.1 ≠ "constructor" := by decide
        exact hno _ known rfl
    | decimal _ _ _ => cases hname
    | hexadecimal _ _ _ => cases hname
  · intro h
    obtain ⟨out, h⟩ := h
    have hreference : decodeReference "#x0000041".toList =
        .error ⟨"malformed character reference"⟩ := by decide
    have hvalue : "&#x0000041;".toList = '&' :: ("#x0000041".toList ++ [';']) := by decide
    have hcut : upToSemicolon ("#x0000041".toList ++ [';']) = some ("#x0000041".toList, []) := by
      decide
    rw [hvalue, decodeAttributeValue_amp hcut (by decide), hreference] at h
    cases h
  · decide
  · intro front back hsplit
    have hvalue : "&#x0000041;".toList = '&' :: ("#x0000041".toList ++ [';']) := by decide
    have hrest : '&' ∉ "#x0000041".toList ++ [';'] := by decide
    have hlegal : Legal "#x0000041".toList (Char.ofNat (parseInt 16 "0000041".toList)) :=
      .hexadecimal (by decide) (by decide) (by decide)
    rw [hvalue] at hsplit
    cases front with
    | nil => exact ⟨_, _, [], hlegal, (List.cons.inj hsplit).2.symm⟩
    | cons first front =>
        rw [(List.cons.inj hsplit).2] at hrest
        exact absurd (List.mem_append_right _ List.mem_cons_self) hrest

end Sinnlos.Cms.Ooxml
