import Sinnlos.Cms.SecretShares
import Sinnlos.Cms.TrainingEvidence

/-!
# What an envelope is bound to

The additional data of a share's envelope (`secretShareAdditionalData` in
`packages/domain/src/secret-share.ts`): the row, both people and the expiry as one
text. Texts of different bindings differ.
-/

namespace Sinnlos.Cms.SecretCrypto

open Domain Calendar Text Evidence

/-- The farthest time of a `Date`. -/
def MAX_TIME : Int := 8640000000000000

/-- A `Date`; one without a time is invalid. -/
structure DateValue where
  time : Option Int
  within : ∀ ms ∈ time, -MAX_TIME ≤ ms ∧ ms ≤ MAX_TIME

/-- The fields the additional data binds an envelope to. -/
structure SecretShareBinding where
  documentId : String
  senderId : Nat
  recipientId : Nat
  expiresAt : DateValue

def ENVELOPE_VERSION : String := "v1"

/-- The additional data, or the message of the refusal of a malformed field. -/
def secretShareAdditionalData (binding : SecretShareBinding) : Except String String :=
  if !isDocumentId binding.documentId then .error "secret share: malformed documentId"
  else if !isRowId binding.senderId || !isRowId binding.recipientId then
    .error "secret share: malformed sender or recipient id"
  else
    match binding.expiresAt.time with
    | none => .error "secret share: malformed expiresAt"
    | some expiresAt =>
        .ok (ENVELOPE_VERSION ++ "|" ++ binding.documentId ++ "|" ++ toString binding.senderId ++
          "|" ++ toString binding.recipientId ++ "|" ++ isoOfMs expiresAt)

/-- A binding none of whose fields is malformed. -/
structure SecretShareBinding.IsValid (binding : SecretShareBinding) : Prop where
  documentId : isDocumentId binding.documentId = true
  senderId : isRowId binding.senderId = true
  recipientId : isRowId binding.recipientId = true
  expiresAt : binding.expiresAt.time.isSome = true

/-! ## Written times -/

variable {width n : Nat} {a b : Int} {text : String} {m : Nat} {ms : Int}
  {binding : SecretShareBinding}

theorem digits_injective (hm : m < 10 ^ width) (hn : n < 10 ^ width)
    (h : digits width m = digits width n) : m = n := by
  rw [← ofDigitChars_digits hm, h, ofDigitChars_digits hn]

theorem toList_pad {value : Int} (h : value = n) (hlt : n < 10 ^ (width + 1)) :
    (pad value (width + 1)).toList = digits (width + 1) n := by
  rw [h, pad_digits hlt, String.toList_ofList]

/-- The parts of a time that are written. -/
structure TimeParts where
  date : Date
  hour : Nat
  minute : Nat
  second : Nat
  milli : Nat

def partsOf (ms : Int) : TimeParts where
  date := ofDayNumber (EPOCH_DAY + ms / Domain.DAY_MS)
  hour := (ms % Domain.DAY_MS / 3600000).toNat
  minute := (ms % Domain.DAY_MS / 60000 % 60).toNat
  second := (ms % Domain.DAY_MS / 1000 % 60).toNat
  milli := (ms % Domain.DAY_MS % 1000).toNat

/-- What is written behind the year. -/
def TimeParts.tail (parts : TimeParts) : List Char :=
  '-' :: (digits 2 parts.date.month ++ '-' :: (digits 2 parts.date.day ++
    'T' :: (digits 2 parts.hour ++ ':' :: (digits 2 parts.minute ++
      ':' :: (digits 2 parts.second ++ '.' :: (digits 3 parts.milli ++ ['Z']))))))

def yearText (year : Int) : List Char :=
  if 0 ≤ year ∧ year ≤ 9999 then digits 4 year.toNat
  else if year < 0 then '-' :: digits 6 (-year).toNat
  else '+' :: digits 6 year.toNat

theorem partsOf_injective (h : partsOf a = partsOf b) : a = b := by
  have hday : EPOCH_DAY + a / Domain.DAY_MS = EPOCH_DAY + b / Domain.DAY_MS := by
    have hdate := congrArg (fun parts => parts.date.dayNumber) h
    dsimp only [partsOf] at hdate
    rwa [dayNumber_ofDayNumber, dayNumber_ofDayNumber] at hdate
  have hhour := congrArg TimeParts.hour h
  have hminute := congrArg TimeParts.minute h
  have hsecond := congrArg TimeParts.second h
  have hmilli := congrArg TimeParts.milli h
  dsimp only [partsOf, Domain.DAY_MS] at hhour hminute hsecond hmilli hday
  omega

theorem toList_isoYear {year : Int} (h : -400000 ≤ year ∧ year ≤ 400000) :
    (isoYear year).toList = yearText year := by
  unfold isoYear yearText
  split
  · rw [toList_pad (n := year.toNat) (by omega) (by omega)]
  · split
    · rw [String.toList_append, toList_pad (n := (-year).toNat) (by omega) (by omega)]
      rfl
    · rw [String.toList_append, toList_pad (n := year.toNat) (by omega) (by omega)]
      rfl

/-- A year from 0 to 9999 is written without a sign. -/
theorem yearText_cases (year : Int) :
    (0 ≤ year ∧ year ≤ 9999 ∧ yearText year = digits 4 year.toNat) ∨
      (year < 0 ∧ yearText year = '-' :: digits 6 (-year).toNat) ∨
      (9999 < year ∧ yearText year = '+' :: digits 6 year.toNat) := by
  unfold yearText
  split
  · rename_i hnear
    exact .inl ⟨hnear.1, hnear.2, rfl⟩
  · rename_i hnear
    split
    · rename_i hpast
      exact .inr (.inl ⟨hpast, rfl⟩)
    · rename_i hpast
      exact .inr (.inr ⟨by omega, rfl⟩)

theorem yearText_injective (ha : -400000 ≤ a ∧ a ≤ 400000) (hb : -400000 ≤ b ∧ b ≤ 400000)
    (h : yearText a = yearText b) : a = b := by
  have hlength := congrArg List.length h
  rcases yearText_cases a with haNear | haPast | haFar
  · rcases yearText_cases b with hbNear | hbPast | hbFar
    · rw [haNear.2.2, hbNear.2.2] at h
      have hsame := digits_injective (by omega) (by omega) h
      omega
    · rw [haNear.2.2, hbPast.2] at hlength
      simp at hlength
    · rw [haNear.2.2, hbFar.2] at hlength
      simp at hlength
  · rcases yearText_cases b with hbNear | hbPast | hbFar
    · rw [haPast.2, hbNear.2.2] at hlength
      simp at hlength
    · rw [haPast.2, hbPast.2] at h
      have hsame := digits_injective (by omega) (by omega) (List.cons.inj h).2
      omega
    · rw [haPast.2, hbFar.2] at h
      exact absurd (List.cons.inj h).1 (by decide)
  · rcases yearText_cases b with hbNear | hbPast | hbFar
    · rw [haFar.2, hbNear.2.2] at hlength
      simp at hlength
    · rw [haFar.2, hbPast.2] at h
      exact absurd (List.cons.inj h).1 (by decide)
    · rw [haFar.2, hbFar.2] at h
      have hsame := digits_injective (by omega) (by omega) (List.cons.inj h).2
      omega

/-- Times have years of six digits at most, and parts that fit their digits. -/
theorem partsOf_bounds (h : -MAX_TIME ≤ ms ∧ ms ≤ MAX_TIME) :
    (-400000 ≤ (partsOf ms).date.year ∧ (partsOf ms).date.year ≤ 400000) ∧
      (partsOf ms).date.month < 100 ∧ (partsOf ms).date.day < 100 ∧ (partsOf ms).hour < 100 ∧
      (partsOf ms).minute < 100 ∧ (partsOf ms).second < 100 ∧ (partsOf ms).milli < 1000 := by
  have hnumber : (partsOf ms).date.dayNumber = EPOCH_DAY + ms / Domain.DAY_MS :=
    dayNumber_ofDayNumber _
  have hwithin := (partsOf ms).date.dayNumber_within_year
  have hearly : daysBeforeYear (-400000) = -146097366 := by decide
  have hlate : daysBeforeYear 400001 = 146097000 := by decide
  have hyears : -400000 ≤ (partsOf ms).date.year ∧ (partsOf ms).date.year ≤ 400000 := by
    unfold MAX_TIME at h
    unfold EPOCH_DAY Domain.DAY_MS at hnumber
    constructor
    · by_contra hlt
      have hbefore := daysBeforeYear_le (a := (partsOf ms).date.year + 1) (b := -400000) (by omega)
      omega
    · by_contra hlt
      have hafter := daysBeforeYear_le (a := 400001) (b := (partsOf ms).date.year) (by omega)
      omega
  refine ⟨hyears, month_lt _, day_lt _, ?_, ?_, ?_, ?_⟩
  all_goals
    dsimp only [partsOf, Domain.DAY_MS]
    omega

theorem toList_isoOfMs (h : -MAX_TIME ≤ ms ∧ ms ≤ MAX_TIME) :
    (isoOfMs ms).toList = yearText (partsOf ms).date.year ++ (partsOf ms).tail := by
  obtain ⟨hyear, hmonth, hday, hhour, hminute, hsecond, hmilli⟩ := partsOf_bounds h
  have hdate : ofDayNumber (EPOCH_DAY + ms / Domain.DAY_MS) = (partsOf ms).date := rfl
  have hclock : ms % Domain.DAY_MS / 3600000 = (partsOf ms).hour ∧
      ms % Domain.DAY_MS / 60000 % 60 = (partsOf ms).minute ∧
      ms % Domain.DAY_MS / 1000 % 60 = (partsOf ms).second ∧
      ms % Domain.DAY_MS % 1000 = (partsOf ms).milli := by
    dsimp only [partsOf, Domain.DAY_MS]
    omega
  have htwo (n : Nat) (hlt : n < 100) : (pad n 2).toList = digits 2 n := toList_pad rfl hlt
  have hthree (n : Nat) (hlt : n < 1000) : (pad n 3).toList = digits 3 n := toList_pad rfl hlt
  unfold isoOfMs TimeParts.tail
  dsimp only
  rw [hdate, hclock.1, hclock.2.1, hclock.2.2.1, hclock.2.2.2]
  simp [toList_isoYear hyear, htwo _ hmonth, htwo _ hday, htwo _ hhour, htwo _ hminute,
    htwo _ hsecond, hthree _ hmilli]

/-- Digits of one width are split off alike. -/
theorem digits_append_inj {rest rest' : List Char} (hm : m < 10 ^ width) (hn : n < 10 ^ width)
    (h : digits width m ++ rest = digits width n ++ rest') : m = n ∧ rest = rest' := by
  have hparts := List.append_inj h (by simp)
  exact ⟨digits_injective hm hn hparts.1, hparts.2⟩

/-- Times that are written alike are the same. -/
theorem isoOfMs_injective (ha : -MAX_TIME ≤ a ∧ a ≤ MAX_TIME) (hb : -MAX_TIME ≤ b ∧ b ≤ MAX_TIME)
    (h : isoOfMs a = isoOfMs b) : a = b := by
  have hlist := congrArg String.toList h
  rw [toList_isoOfMs ha, toList_isoOfMs hb] at hlist
  obtain ⟨hyearA, hmonthA, hdayA, hhourA, hminuteA, hsecondA, hmilliA⟩ := partsOf_bounds ha
  obtain ⟨hyearB, hmonthB, hdayB, hhourB, hminuteB, hsecondB, hmilliB⟩ := partsOf_bounds hb
  obtain ⟨htext, htail⟩ := List.append_inj' hlist (by simp [TimeParts.tail])
  have hyear := yearText_injective hyearA hyearB htext
  unfold TimeParts.tail at htail
  obtain ⟨hmonth, htail⟩ := digits_append_inj hmonthA hmonthB (List.cons.inj htail).2
  obtain ⟨hday, htail⟩ := digits_append_inj hdayA hdayB (List.cons.inj htail).2
  obtain ⟨hhour, htail⟩ := digits_append_inj hhourA hhourB (List.cons.inj htail).2
  obtain ⟨hminute, htail⟩ := digits_append_inj hminuteA hminuteB (List.cons.inj htail).2
  obtain ⟨hsecond, htail⟩ := digits_append_inj hsecondA hsecondB (List.cons.inj htail).2
  obtain ⟨hmilli, -⟩ := digits_append_inj hmilliA hmilliB (List.cons.inj htail).2
  have hdate : (partsOf a).date = (partsOf b).date := Date.ext hyear hmonth hday
  have hparts : partsOf a = partsOf b := by
    cases hA : partsOf a
    cases hB : partsOf b
    simp only [hA, hB] at hdate hhour hminute hsecond hmilli
    rw [hdate, hhour, hminute, hsecond, hmilli]
  exact partsOf_injective hparts

/-! ## The text -/

/-- Neither a documentId nor a number nor a time holds the separator. -/
theorem not_mem_documentId (h : isDocumentId text = true) : '|' ∉ text.toList := by
  unfold isDocumentId at h
  intro hmem
  cases htext : text.toList with
  | nil => simp [htext] at hmem
  | cons first rest =>
      simp only [htext, Bool.and_eq_true, List.all_eq_true, Bool.or_eq_true] at h hmem
      rcases List.mem_cons.mp hmem with heq | hrest
      · rw [← heq] at h
        exact absurd h.1.1 (by decide)
      · exact absurd (h.2 '|' hrest) (by decide)

/-- The text of a valid binding. -/
theorem additionalData_of_valid (valid : binding.IsValid) :
    ∃ ms, binding.expiresAt.time = some ms ∧ secretShareAdditionalData binding =
      .ok ("v1" ++ "|" ++ binding.documentId ++ "|" ++ toString binding.senderId ++ "|" ++
        toString binding.recipientId ++ "|" ++ isoOfMs ms) := by
  obtain ⟨ms, hms⟩ := Option.isSome_iff_exists.mp valid.expiresAt
  refine ⟨ms, hms, ?_⟩
  unfold secretShareAdditionalData
  rw [valid.documentId, valid.senderId, valid.recipientId, hms]
  rfl

/-- A malformed field is refused. -/
theorem valid_of_additionalData (h : secretShareAdditionalData binding = .ok text) :
    binding.IsValid := by
  unfold secretShareAdditionalData at h
  by_cases hid : isDocumentId binding.documentId = true
  case neg => simp [hid] at h
  by_cases hsender : isRowId binding.senderId = true
  case neg => simp [hid, hsender] at h
  by_cases hrecipient : isRowId binding.recipientId = true
  case neg => simp [hid, hsender, hrecipient] at h
  cases hexpires : binding.expiresAt.time with
  | none => simp [hid, hsender, hrecipient, hexpires] at h
  | some ms => exact ⟨hid, hsender, hrecipient, by rw [hexpires]; rfl⟩

theorem DateValue.ext_time {a b : DateValue} (h : a.time = b.time) : a = b := by
  cases a
  cases b
  cases h
  rfl

/-- Different bindings have different texts. -/
theorem additionalData_injective {a b : SecretShareBinding}
    (ha : secretShareAdditionalData a = .ok text) (hb : secretShareAdditionalData b = .ok text) :
    a = b := by
  have validA := valid_of_additionalData ha
  have validB := valid_of_additionalData hb
  obtain ⟨msA, hmsA, htextA⟩ := additionalData_of_valid validA
  obtain ⟨msB, hmsB, htextB⟩ := additionalData_of_valid validB
  have hsame := Except.ok.inj (htextA.symm.trans (ha.trans (hb.symm.trans htextB)))
  have hlist := congrArg String.toList hsame
  have hnumber (n : Nat) : '|' ∉ (toString n).toList := not_mem_toString (by decide) n
  simp only [String.toList_append, List.append_assoc] at hlist
  have hbar : "|".toList = ['|'] := rfl
  simp only [hbar, List.singleton_append] at hlist
  have hrest := (join_injective (by decide) (by decide) hlist).2
  obtain ⟨hid, hrest⟩ := join_injective (not_mem_documentId validA.documentId)
    (not_mem_documentId validB.documentId) hrest
  obtain ⟨hsender, hrest⟩ := join_injective (hnumber _) (hnumber _) hrest
  obtain ⟨hrecipient, htime⟩ := join_injective (hnumber _) (hnumber _) hrest
  have hms := isoOfMs_injective (a.expiresAt.within msA hmsA) (b.expiresAt.within msB hmsB)
    (String.toList_inj.mp htime)
  have hexpires : a.expiresAt = b.expiresAt := DateValue.ext_time (by rw [hmsA, hmsB, hms])
  have hsenders := toString_injective (String.toList_inj.mp hsender)
  have hrecipients := toString_injective (String.toList_inj.mp hrecipient)
  cases a
  cases b
  simp only at hexpires hsenders hrecipients hid
  rw [hexpires, hsenders, hrecipients, String.toList_inj.mp hid]

end Sinnlos.Cms.SecretCrypto
