import Sinnlos.Cms.SecretBinding
import Sinnlos.Lib.Base64Url
import Sinnlos.Lib.Utf8
import Sinnlos.Lib.Utf16

/-!
# The envelope of a secret share

`sealEnvelope` and `openEnvelope` of `apps/cms/src/utils/secret-crypto.ts`, and the
texts that may be shared (`isSecretText` in `packages/domain/src/secret-share.ts`).
Texts are 16-bit units, as the language has them. The cipher is a parameter; it is
assumed to open exactly what was sealed.
-/

namespace Sinnlos.Cms.SecretCrypto

open Text

/-! ## Texts -/

def SECRET_TEXT_MAX_BYTES : Nat := 8192

/-- The octets of a text, as `TextEncoder` and `Buffer` write them. -/
def utf8Of (text : List UInt16) : List UInt8 := Utf8.encode (Utf16.decode text)

/-- `buffer.toString("utf8")`. -/
def textOf (octets : List UInt8) : List UInt16 := Utf16.encode (Utf8.toText octets)

def isSecretText (value : List UInt16) : Bool :=
  decide (trimChars (Utf16.decode value) ≠ []) && !Utf16.hasLoneSurrogate value &&
    decide ((utf8Of value).length ≤ SECRET_TEXT_MAX_BYTES)

/-- The units of a text. -/
def units (text : String) : List UInt16 := Utf16.encode text.toList

/-! ## Canonical base64url -/

/-- `/^[A-Za-z0-9_-]+$/` -/
def matchesBase64Url (part : List UInt16) : Bool :=
  !part.isEmpty && (Utf16.decode part).all fun c => (Base64Url.value c).isSome

/-- `buffer.toString("base64url")`. -/
def base64UrlOf (octets : List UInt8) : List UInt16 := Utf16.encode (Base64Url.encode octets)

/-- A text that writing its octets again does not give is refused. -/
def decode (part : List UInt16) : Option (List UInt8) :=
  if matchesBase64Url part then
    let bytes := Base64Url.decode (Utf16.decode part)
    if base64UrlOf bytes = part then some bytes else none
  else none

/-! ## The cipher -/

def NONCE_BYTES : Nat := 12

def TAG_BYTES : Nat := 16

def DOT : UInt16 := 46

/-- AES-256-GCM: a cipher text and a tag, and what they open to. -/
structure Gcm where
  encrypt : (key nonce additionalData plain : List UInt8) → List UInt8 × List UInt8
  decrypt : (key nonce additionalData ciphertext tag : List UInt8) → Option (List UInt8)

/-- The envelope of a text, sealed with a nonce that was drawn for it. -/
def sealEnvelope (gcm : Gcm) (key nonce : List UInt8) (text : List UInt16)
    (binding : SecretShareBinding) : Except String (List UInt16) :=
  match secretShareAdditionalData binding with
  | .error message => .error message
  | .ok additionalData =>
      let (ciphertext, tag) := gcm.encrypt key nonce (utf8Of (units additionalData)) (utf8Of text)
      .ok ([DOT].intercalate
        [units ENVELOPE_VERSION, base64UrlOf nonce, base64UrlOf (ciphertext ++ tag)])

/-- The text of an envelope; none for anything that does not open. -/
def openEnvelope (gcm : Gcm) (key : List UInt8) (envelope : List UInt16)
    (binding : SecretShareBinding) : Option (List UInt16) :=
  match envelope.splitOn DOT with
  | [version, noncePart, bodyPart] =>
      if version ≠ units ENVELOPE_VERSION then none
      else
        match decode noncePart, decode bodyPart with
        | some nonce, some body =>
            if nonce.length ≠ NONCE_BYTES ∨ body.length ≤ TAG_BYTES then none
            else
              match secretShareAdditionalData binding with
              | .error _ => none
              | .ok additionalData =>
                  (gcm.decrypt key nonce (utf8Of (units additionalData))
                    (body.take (body.length - TAG_BYTES))
                    (body.drop (body.length - TAG_BYTES))).map textOf
        | _, _ => none
  | _ => none

/-! ## Sealings -/

/-- A sealing of a text that may be shared, for a binding that is valid. -/
structure Sealing where
  key : List UInt8
  nonce : List UInt8
  text : List UInt16
  binding : SecretShareBinding
  nonce_length : nonce.length = NONCE_BYTES
  accepted : isSecretText text = true
  valid : binding.IsValid

/-- The additional data of a binding, in octets; none for a malformed one. -/
def additionalDataOf (binding : SecretShareBinding) : Option (List UInt8) :=
  (secretShareAdditionalData binding).toOption.map fun text => utf8Of (units text)

/-- An ideal authenticated cipher on the sealings there were: it opens those and nothing
else. -/
structure Gcm.IdealOn (gcm : Gcm) (sealings : Set Sealing) : Prop where
  lengths : ∀ s ∈ sealings, ∀ additionalData, additionalDataOf s.binding = some additionalData →
    (gcm.encrypt s.key s.nonce additionalData (utf8Of s.text)).1.length = (utf8Of s.text).length ∧
      (gcm.encrypt s.key s.nonce additionalData (utf8Of s.text)).2.length = TAG_BYTES
  opens : ∀ s ∈ sealings, ∀ additionalData, additionalDataOf s.binding = some additionalData →
    gcm.decrypt s.key s.nonce additionalData
      (gcm.encrypt s.key s.nonce additionalData (utf8Of s.text)).1
      (gcm.encrypt s.key s.nonce additionalData (utf8Of s.text)).2 = some (utf8Of s.text)
  only : ∀ key nonce additionalData ciphertext tag plain,
    gcm.decrypt key nonce additionalData ciphertext tag = some plain →
      ∃ s ∈ sealings, s.key = key ∧ s.nonce = nonce ∧
        additionalDataOf s.binding = some additionalData ∧ utf8Of s.text = plain ∧
        gcm.encrypt key nonce additionalData plain = (ciphertext, tag)

/-- No nonce is drawn twice for a key. -/
def FreshNonces (sealings : Set Sealing) : Prop :=
  ∀ s ∈ sealings, ∀ s' ∈ sealings, s.key = s'.key → s.nonce = s'.nonce → s = s'

variable {gcm : Gcm} {sealings : Set Sealing} {key nonce : List UInt8} {part : List UInt16}
  {bytes : List UInt8}

/-! ## Texts are read back -/

variable {text : List UInt16}

theorem decode_ne_nil (h : isSecretText text = true) : Utf16.decode text ≠ [] := by
  simp only [isSecretText, Bool.and_eq_true, decide_eq_true_eq] at h
  intro hnil
  rw [hnil] at h
  exact h.1.1 rfl

theorem textOf_utf8Of (h : isSecretText text = true) : textOf (utf8Of text) = text := by
  simp only [isSecretText, Bool.and_eq_true, Bool.not_eq_true'] at h
  rw [textOf, utf8Of, Utf8.toText_encode, Utf16.encode_decode h.1.2]

theorem utf8Of_ne_nil (h : isSecretText text = true) : utf8Of text ≠ [] := by
  intro hnil
  have hback := textOf_utf8Of h
  rw [hnil] at hback
  have hdecode := decode_ne_nil h
  rw [← hback] at hdecode
  exact hdecode rfl

theorem utf8Of_units (text : String) : utf8Of (units text) = Utf8.encode text.toList := by
  rw [utf8Of, units, Utf16.decode_encode]

theorem utf8_injective {a b : List Char} (h : Utf8.encode a = Utf8.encode b) : a = b := by
  have hdecode := congrArg Utf8.decode h
  rw [Utf8.decode_encode, Utf8.decode_encode] at hdecode
  exact Option.some.inj hdecode

/-! ## Parts of an envelope -/

/-- Only the canonical text of octets is read. -/
theorem eq_of_decode (h : decode part = some bytes) : part = base64UrlOf bytes := by
  unfold decode at h
  split at h
  · dsimp only at h
    split at h
    · rename_i hpart
      rw [← Option.some.inj h, hpart]
    · cases h
  · cases h

theorem decode_base64UrlOf (h : bytes ≠ []) : decode (base64UrlOf bytes) = some bytes := by
  have hchars : Utf16.decode (base64UrlOf bytes) = Base64Url.encode bytes :=
    Utf16.decode_encode _
  have hmatch : matchesBase64Url (base64UrlOf bytes) = true := by
    unfold matchesBase64Url
    rw [hchars, Bool.and_eq_true, Bool.not_eq_true', List.all_eq_true]
    constructor
    · cases hunits : base64UrlOf bytes with
      | nil =>
          rw [hunits] at hchars
          exact absurd (Base64Url.encode_eq_nil_iff.mp hchars.symm) h
      | cons unit rest => rfl
    · intro c hc
      obtain ⟨n, hlt, rfl⟩ := Base64Url.value_of_mem_encode hc
      rw [Base64Url.value_digit n hlt]
      rfl
  rw [decode, if_pos hmatch]
  dsimp only
  rw [hchars, Base64Url.decode_encode, if_pos rfl]

theorem base64UrlOf_injective {other : List UInt8} (h : base64UrlOf bytes = base64UrlOf other) :
    bytes = other := by
  have hchars := congrArg Utf16.decode h
  rw [base64UrlOf, base64UrlOf, Utf16.decode_encode, Utf16.decode_encode] at hchars
  exact Base64Url.encode_injective hchars

theorem dot_not_mem_base64UrlOf (bytes : List UInt8) : DOT ∉ base64UrlOf bytes := by
  have hdigits : ∀ n < 64, DOT ∉ Utf16.encodeChar (Base64Url.digit n) := by decide
  intro hmem
  obtain ⟨c, hc, hunit⟩ := List.mem_flatMap.mp hmem
  obtain ⟨n, hlt, rfl⟩ := Base64Url.value_of_mem_encode hc
  exact hdigits n hlt hunit

theorem splitOn_envelope (nonce body : List UInt8) :
    ([DOT].intercalate [units ENVELOPE_VERSION, base64UrlOf nonce, base64UrlOf body]).splitOn DOT =
      [units ENVELOPE_VERSION, base64UrlOf nonce, base64UrlOf body] := by
  apply List.splitOn_intercalate
  · intro part hpart
    simp only [List.mem_cons, List.not_mem_nil, or_false] at hpart
    rcases hpart with rfl | rfl | rfl
    · decide
    · exact dot_not_mem_base64UrlOf nonce
    · exact dot_not_mem_base64UrlOf body
  · exact List.cons_ne_nil _ _

variable {envelope : List UInt16}

/-- What opens has the form of an envelope, for a valid binding. -/
theorem openEnvelope_eq_some_iff {binding : SecretShareBinding} :
    openEnvelope gcm key envelope binding = some text ↔
      ∃ nonce body additionalData plain,
        envelope = [DOT].intercalate
          [units ENVELOPE_VERSION, base64UrlOf nonce, base64UrlOf body] ∧
        nonce.length = NONCE_BYTES ∧ TAG_BYTES < body.length ∧
        additionalDataOf binding = some additionalData ∧
        gcm.decrypt key nonce additionalData (body.take (body.length - TAG_BYTES))
          (body.drop (body.length - TAG_BYTES)) = some plain ∧ textOf plain = text := by
  constructor
  · intro h
    unfold openEnvelope at h
    split at h
    · rename_i version noncePart bodyPart hparts
      split at h
      · cases h
      · rename_i hversion
        split at h
        · rename_i nonce body hnonce hbody
          split at h
          · cases h
          · rename_i hlengths
            split at h
            · cases h
            · rename_i additionalData hdata
              obtain ⟨plain, hplain, htext⟩ := Option.map_eq_some_iff.mp h
              have henvelope : envelope = [DOT].intercalate
                  [units ENVELOPE_VERSION, base64UrlOf nonce, base64UrlOf body] := by
                have hback : [DOT].intercalate (envelope.splitOn DOT) = envelope :=
                  List.intercalate_splitOn DOT
                rw [← hback, hparts, eq_of_decode hnonce, eq_of_decode hbody,
                  not_not.mp hversion]
              have hbound : additionalDataOf binding = some (utf8Of (units additionalData)) := by
                rw [additionalDataOf, hdata]
                rfl
              exact ⟨nonce, body, _, plain, henvelope, by omega, by omega, hbound, hplain, htext⟩
        · cases h
    · cases h
  · rintro ⟨nonce, body, additionalData, plain, rfl, hnonce, hbody, hbound, hplain, htext⟩
    obtain ⟨text', hdata, rfl⟩ := Option.map_eq_some_iff.mp hbound
    have hok := eq_ok_of_toOption hdata
    have hnonceNil : nonce ≠ [] := by
      intro hnil
      rw [hnil] at hnonce
      cases hnonce
    have hbodyNil : body ≠ [] := by
      intro hnil
      rw [hnil] at hbody
      cases hbody
    unfold openEnvelope
    rw [splitOn_envelope]
    simp only [ne_eq, not_true_eq_false, if_false, decode_base64UrlOf hnonceNil,
      decode_base64UrlOf hbodyNil, hok]
    rw [if_neg (by omega), hplain, Option.map_some, htext]

theorem additionalDataOf_injective {a b : SecretShareBinding} {additionalData : List UInt8}
    (ha : additionalDataOf a = some additionalData) (hb : additionalDataOf b = some additionalData) :
    a = b := by
  obtain ⟨textA, hA, hutfA⟩ := Option.map_eq_some_iff.mp ha
  obtain ⟨textB, hB, hutfB⟩ := Option.map_eq_some_iff.mp hb
  rw [utf8Of_units] at hutfA hutfB
  have hsame : textA = textB := String.toList_inj.mp (utf8_injective (hutfA.trans hutfB.symm))
  exact additionalData_injective (eq_ok_of_toOption hA) (hsame ▸ eq_ok_of_toOption hB)

/-! ## Sealings and openings -/

theorem sealEnvelope_eq (gcm : Gcm) (s : Sealing) :
    ∃ additionalData, additionalDataOf s.binding = some additionalData ∧
      sealEnvelope gcm s.key s.nonce s.text s.binding =
        .ok ([DOT].intercalate [units ENVELOPE_VERSION, base64UrlOf s.nonce,
          base64UrlOf ((gcm.encrypt s.key s.nonce additionalData (utf8Of s.text)).1 ++
            (gcm.encrypt s.key s.nonce additionalData (utf8Of s.text)).2)]) := by
  obtain ⟨ms, -, hok⟩ := additionalData_of_valid s.valid
  obtain ⟨text, htext⟩ : ∃ text, secretShareAdditionalData s.binding = .ok text := ⟨_, hok⟩
  have hdata : additionalDataOf s.binding = some (utf8Of (units text)) := by
    rw [additionalDataOf, htext]
    rfl
  exact ⟨_, hdata, by rw [sealEnvelope, htext]⟩

/-- An envelope opens exactly for a key and a binding it was sealed with, to its text. -/
theorem openEnvelope_iff_sealed (ideal : gcm.IdealOn sealings) (key : List UInt8)
    (envelope text : List UInt16) (binding : SecretShareBinding) :
    openEnvelope gcm key envelope binding = some text ↔
      ∃ s ∈ sealings, s.key = key ∧ s.binding = binding ∧ s.text = text ∧
        sealEnvelope gcm s.key s.nonce s.text s.binding = .ok envelope := by
  rw [openEnvelope_eq_some_iff]
  constructor
  · rintro ⟨nonce, body, additionalData, plain, henvelope, -, -, hbound, hplain, htext⟩
    obtain ⟨s, hs, hkey, hnonce, hdata, hutf, hencrypt⟩ := ideal.only _ _ _ _ _ _ hplain
    obtain ⟨data, hdata', hseal⟩ := sealEnvelope_eq gcm s
    rw [hdata] at hdata'
    cases hdata'
    rw [hkey, hnonce, hutf, hencrypt, List.take_append_drop] at hseal
    have htext' : s.text = text := by rw [← htext, ← hutf, textOf_utf8Of s.accepted]
    refine ⟨s, hs, hkey, additionalDataOf_injective hdata hbound, htext', ?_⟩
    rw [hkey, hnonce, hseal, henvelope]
  · rintro ⟨s, hs, rfl, rfl, rfl, hseal⟩
    obtain ⟨additionalData, hdata, hseal'⟩ := sealEnvelope_eq gcm s
    obtain ⟨hlength, htag⟩ := ideal.lengths s hs additionalData hdata
    have hpositive : 0 < (utf8Of s.text).length :=
      List.length_pos_iff.mpr (utf8Of_ne_nil s.accepted)
    have henvelope := Except.ok.inj (hseal.symm.trans hseal')
    have hopens := ideal.opens s hs additionalData hdata
    generalize gcm.encrypt s.key s.nonce additionalData (utf8Of s.text) = sealed at *
    have hbody : TAG_BYTES < (sealed.1 ++ sealed.2).length := by
      rw [List.length_append]
      omega
    have hplain : gcm.decrypt s.key s.nonce additionalData
        ((sealed.1 ++ sealed.2).take ((sealed.1 ++ sealed.2).length - TAG_BYTES))
        ((sealed.1 ++ sealed.2).drop ((sealed.1 ++ sealed.2).length - TAG_BYTES)) =
          some (utf8Of s.text) := by
      rw [List.length_append, htag, Nat.add_sub_cancel, List.take_left, List.drop_left, hopens]
    exact ⟨s.nonce, sealed.1 ++ sealed.2, additionalData, utf8Of s.text, henvelope,
      s.nonce_length, hbody, hdata, hplain, textOf_utf8Of s.accepted⟩

/-- An envelope tells its nonce and what the cipher gave. -/
theorem nonce_of_envelope {a b : Sealing}
    (ha : sealEnvelope gcm a.key a.nonce a.text a.binding = .ok envelope)
    (hb : sealEnvelope gcm b.key b.nonce b.text b.binding = .ok envelope) : a.nonce = b.nonce := by
  obtain ⟨dataA, -, hsealA⟩ := sealEnvelope_eq gcm a
  obtain ⟨dataB, -, hsealB⟩ := sealEnvelope_eq gcm b
  have hsame := Except.ok.inj ((hsealA.symm.trans ha).trans (hb.symm.trans hsealB))
  have hsplit := congrArg (List.splitOn DOT) hsame
  rw [splitOn_envelope, splitOn_envelope] at hsplit
  exact base64UrlOf_injective (List.cons.inj (List.cons.inj hsplit).2).1

/-- A shared text opens for the binding it was sealed for and for no other; a changed
envelope opens only where another sealing gave it; and valid bindings are told apart by
their additional data. -/
theorem envelopes_open_where_sealed (ideal : gcm.IdealOn sealings)
    (fresh : FreshNonces sealings) :
    (∀ s ∈ sealings, ∃ envelope,
      sealEnvelope gcm s.key s.nonce s.text s.binding = .ok envelope ∧
        openEnvelope gcm s.key envelope s.binding = some s.text ∧
        (∀ binding, binding ≠ s.binding → openEnvelope gcm s.key envelope binding = none) ∧
        ∀ changed, changed ≠ envelope →
          (∀ other ∈ sealings, other ≠ s → other.key = s.key → other.binding = s.binding →
            sealEnvelope gcm other.key other.nonce other.text other.binding ≠ .ok changed) →
          openEnvelope gcm s.key changed s.binding = none) ∧
      (∀ key envelope text binding, openEnvelope gcm key envelope binding = some text ↔
        ∃ s ∈ sealings, s.key = key ∧ s.binding = binding ∧ s.text = text ∧
          sealEnvelope gcm s.key s.nonce s.text s.binding = .ok envelope) ∧
      ∀ a b : SecretShareBinding, a.IsValid → b.IsValid → a ≠ b →
        secretShareAdditionalData a ≠ secretShareAdditionalData b := by
  have hiff := openEnvelope_iff_sealed ideal
  constructor
  · intro s hs
    obtain ⟨additionalData, -, hseal⟩ := sealEnvelope_eq gcm s
    refine ⟨_, hseal, ?_, ?_, ?_⟩
    · exact (hiff _ _ _ _).mpr ⟨s, hs, rfl, rfl, rfl, hseal⟩
    · intro binding hother
      rw [Option.eq_none_iff_forall_ne_some]
      intro text hopen
      obtain ⟨s', hs', hkey, hbinding, -, hseal'⟩ := (hiff _ _ _ _).mp hopen
      have hsame := fresh s' hs' s hs hkey (nonce_of_envelope hseal' hseal)
      exact hother (by rw [← hbinding, hsame])
    · intro changed hchanged hnone
      rw [Option.eq_none_iff_forall_ne_some]
      intro text hopen
      obtain ⟨s', hs', hkey, hbinding, -, hseal'⟩ := (hiff _ _ _ _).mp hopen
      by_cases hsame : s' = s
      · rw [hsame, hseal] at hseal'
        exact hchanged (Except.ok.inj hseal').symm
      · exact hnone s' hs' hsame hkey hbinding hseal'
  constructor
  · exact hiff
  · intro a b validA validB hne hsame
    obtain ⟨ms, -, htext⟩ := additionalData_of_valid validA
    exact hne (additionalData_injective htext (hsame ▸ htext))

/-! ## One sealing -/

theorem newYear_within : ∀ ms ∈ some (1767225600000 : Int), -MAX_TIME ≤ ms ∧ ms ≤ MAX_TIME := by
  decide

def newYearBinding : SecretShareBinding where
  documentId := "abcdefghijklmnopqrstuvwx"
  senderId := 1
  recipientId := 2
  expiresAt := ⟨some 1767225600000, newYear_within⟩

theorem newYear_valid : newYearBinding.IsValid := by
  constructor <;> decide

theorem ok_accepted : isSecretText (units "ok") = true := by decide +kernel

def okSealing : Sealing where
  key := List.replicate 32 7
  nonce := [0, 1, 2, 3, 4, 5, 6, 7, 8, 9, 10, 11]
  text := units "ok"
  binding := newYearBinding
  nonce_length := rfl
  accepted := ok_accepted
  valid := newYear_valid

def newYearData : List UInt8 :=
  utf8Of (units "v1|abcdefghijklmnopqrstuvwx|1|2|2026-01-01T00:00:00.000Z")

theorem additionalDataOf_newYear : additionalDataOf newYearBinding = some newYearData := by
  have htext : secretShareAdditionalData newYearBinding =
      .ok "v1|abcdefghijklmnopqrstuvwx|1|2|2026-01-01T00:00:00.000Z" := by decide +kernel
  rw [additionalDataOf, htext]
  rfl

/-- What AES-256-GCM gives for the one sealing; it opens that and nothing else. -/
def okSealed : List UInt8 × List UInt8 :=
  ([119, 234], [101, 97, 190, 48, 99, 52, 50, 164, 164, 121, 175, 0, 141, 8, 171, 98])

def okGcm : Gcm where
  encrypt key nonce additionalData plain :=
    if key = okSealing.key ∧ nonce = okSealing.nonce ∧ additionalData = newYearData ∧
        plain = utf8Of okSealing.text then okSealed
    else (plain, List.replicate TAG_BYTES 0)
  decrypt key nonce additionalData ciphertext tag :=
    if key = okSealing.key ∧ nonce = okSealing.nonce ∧ additionalData = newYearData ∧
        (ciphertext, tag) = okSealed then some (utf8Of okSealing.text)
    else none

theorem okGcm_encrypt :
    okGcm.encrypt okSealing.key okSealing.nonce newYearData (utf8Of okSealing.text) =
      okSealed := by
  unfold okGcm
  dsimp only
  rw [if_pos ⟨rfl, rfl, rfl, rfl⟩]

theorem okGcm_ideal : okGcm.IdealOn {okSealing} := by
  constructor
  · rintro s rfl additionalData h
    obtain rfl : newYearData = additionalData :=
      Option.some.inj (additionalDataOf_newYear.symm.trans h)
    rw [okGcm_encrypt]
    decide +kernel
  · rintro s rfl additionalData h
    obtain rfl : newYearData = additionalData :=
      Option.some.inj (additionalDataOf_newYear.symm.trans h)
    rw [okGcm_encrypt]
    unfold okGcm
    dsimp only
    rw [if_pos ⟨rfl, rfl, rfl, rfl⟩]
  · intro key nonce additionalData ciphertext tag plain h
    have hcase := Option.ite_none_right_eq_some.mp h
    obtain ⟨⟨rfl, rfl, rfl, hsealed⟩, hplain⟩ := hcase
    refine ⟨okSealing, rfl, rfl, rfl, additionalDataOf_newYear, Option.some.inj hplain, ?_⟩
    rw [← Option.some.inj hplain, okGcm_encrypt, hsealed]

/-- Two characters, shared until New Year. -/
theorem envelopes_open_where_sealed_ok :
    ∃ envelope, sealEnvelope okGcm okSealing.key okSealing.nonce (units "ok") newYearBinding =
        .ok envelope ∧
      openEnvelope okGcm okSealing.key envelope newYearBinding = some (units "ok") ∧
      ∀ changed, changed ≠ envelope →
        openEnvelope okGcm okSealing.key changed newYearBinding = none := by
  have fresh : FreshNonces {okSealing} := by
    rintro s rfl s' rfl _ _
    rfl
  obtain ⟨envelope, hseal, hopen, -, hchanged⟩ :=
    (envelopes_open_where_sealed okGcm_ideal fresh).1 okSealing rfl
  refine ⟨envelope, hseal, hopen, ?_⟩
  intro changed hne
  apply hchanged changed hne
  rintro other rfl hother
  exact absurd rfl hother

end Sinnlos.Cms.SecretCrypto
