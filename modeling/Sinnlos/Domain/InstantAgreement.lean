import Sinnlos.Domain.Instants
import Sinnlos.Domain.InstantReaders

/-! # Where the instant readers agree

Two readers that both read a text read the same parts, so their times can differ by
what they count and what they refuse only. The engine counts whole milliseconds and
Temporal rounds down to them; the hour 24 is the one thing that passes the write check
and is no instant for Temporal.
-/

namespace Sinnlos.Domain

open Calendar Text

/-! ## Fractions -/

variable {digits : List Char}

theorem fractionTo_lt (h : digits.all Char.isDigit = true) (n : Nat) :
    fractionTo n digits < 10 ^ n := by
  induction n generalizing digits with
  | zero => exact Nat.one_pos
  | succ n ih =>
      cases digits with
      | nil => exact Nat.pow_pos (by decide)
      | cons c digits =>
          rw [List.all_cons, Bool.and_eq_true] at h
          have hc := (digitChar_of_isDigit h.1).2
          have hrest := ih h.2
          have hc' : c.toNat - 48 ≤ 9 := by
            have hzero : '0'.toNat = 48 := rfl
            omega
          have hmul := Nat.mul_le_mul_right (10 ^ n) hc'
          rw [fractionTo, Nat.pow_succ]
          omega

/-- The digits behind the first ones are what is cut off. -/
theorem fractionTo_add (h : digits.all Char.isDigit = true) (n k : Nat) :
    ∃ cut, cut < 10 ^ k ∧ fractionTo (n + k) digits = fractionTo n digits * 10 ^ k + cut := by
  induction n generalizing digits with
  | zero =>
      rw [Nat.zero_add]
      exact ⟨fractionTo k digits, fractionTo_lt h k, by simp [fractionTo]⟩
  | succ n ih =>
      cases digits with
      | nil =>
          refine ⟨0, Nat.pow_pos (by decide), ?_⟩
          have hnone : fractionTo (n + 1 + k) [] = 0 := by
            rw [Nat.add_right_comm]
            rfl
          rw [hnone, fractionTo, Nat.zero_mul]
      | cons c digits =>
          rw [List.all_cons, Bool.and_eq_true] at h
          obtain ⟨cut, hcut, heq⟩ := ih h.2
          refine ⟨cut, hcut, ?_⟩
          rw [Nat.add_right_comm, fractionTo, fractionTo, heq, Nat.pow_add, Nat.add_mul,
            Nat.mul_assoc, Nat.add_assoc]

/-! ## What is read -/

section Read

variable {g : Grammar} {text : List Char}

theorem digits_of_readFraction {fraction : List Char × List Char}
    (h : readFraction g text = some fraction) : fraction.1.all Char.isDigit = true := by
  cases text with
  | nil => cases h; rfl
  | cons mark rest =>
      rw [readFraction] at h
      split at h
      · split at h
        · cases h
          exact List.all_takeWhile
        · cases h
      · cases h
        rfl

variable {hour : Nat} {clock : Clock × List Char}

theorem digits_of_readSeconds {minute : Nat} (h : readSeconds g hour minute text = some clock) :
    clock.1.2.2.2.all Char.isDigit = true := by
  obtain ⟨second, -, h⟩ := Option.bind_eq_some_iff.mp h
  obtain ⟨fraction, hfraction, rfl⟩ := Option.map_eq_some_iff.mp h
  exact digits_of_readFraction hfraction

theorem digits_of_readMinutes (h : readMinutes g hour text = some clock) :
    clock.1.2.2.2.all Char.isDigit = true := by
  unfold readMinutes at h
  split at h
  · obtain ⟨minute, -, h⟩ := Option.bind_eq_some_iff.mp h
    unfold readColonSeconds at h
    split at h
    · exact digits_of_readSeconds h
    · cases h
      rfl
  · split at h
    · split at h
      · obtain ⟨minute, -, h⟩ := Option.bind_eq_some_iff.mp h
        unfold readBasicSeconds at h
        split at h
        · split at h
          · exact digits_of_readSeconds h
          · cases h
            rfl
        · cases h
          rfl
      · cases h
    · split at h
      · cases h
        rfl
      · cases h
  · cases h

/-- An offset without seconds. -/
theorem whole_minutes (plain : g.offsetSeconds = false) {offset : Offset}
    (h : readOffset g text = some offset) : offset.second = 0 ∧ offset.fraction = [] := by
  have seconds {west : Bool} {hour minute : Nat} {text : List Char} {offset : Offset}
      (h : readOffsetSeconds g west hour minute text = some offset) : False := by
    rw [readOffsetSeconds, plain, if_neg (by decide)] at h
    cases h
  have signed {west : Bool} {text : List Char} (h : readSigned g west text = some offset) :
      offset.second = 0 ∧ offset.fraction = [] := by
    obtain ⟨hour, -, h⟩ := Option.bind_eq_some_iff.mp h
    unfold readOffsetMinutes at h
    split at h
    · split at h
      · cases h
        exact ⟨rfl, rfl⟩
      · cases h
    · obtain ⟨minute, -, h⟩ := Option.bind_eq_some_iff.mp h
      unfold readColonOffset at h
      split at h
      · cases h
        exact ⟨rfl, rfl⟩
      · exact (seconds h).elim
      · cases h
    · split at h
      · obtain ⟨minute, -, h⟩ := Option.bind_eq_some_iff.mp h
        unfold readBasicOffset at h
        split at h
        · cases h
          exact ⟨rfl, rfl⟩
        · exact (seconds h).elim
      · cases h
  unfold readOffset at h
  split at h
  · exact signed h
  · exact signed h
  · split at h
    · cases h
      exact ⟨rfl, rfl⟩
    · cases h
  · cases h

theorem readInstant_spec {parts : InstantParts} (h : readInstant g text = some parts) :
    parts.fraction.all Char.isDigit = true ∧
      (g.offsetSeconds = false → parts.offset.second = 0 ∧ parts.offset.fraction = []) := by
  obtain ⟨year, -, h⟩ := Option.bind_eq_some_iff.mp h
  obtain ⟨day, -, h⟩ := Option.bind_eq_some_iff.mp h
  obtain ⟨rest, -, h⟩ := Option.bind_eq_some_iff.mp h
  obtain ⟨clock, hclock, h⟩ := Option.bind_eq_some_iff.mp h
  obtain ⟨offset, hoffset, rfl⟩ := Option.map_eq_some_iff.mp h
  obtain ⟨hour, -, hminutes⟩ := Option.bind_eq_some_iff.mp hclock
  exact ⟨digits_of_readMinutes hminutes, fun plain => whole_minutes plain hoffset⟩

end Read

/-- The reader that takes all notations. -/
def everyGrammar : Grammar where
  expandedYears := true
  shortDates := true
  basicDates := true
  separators := ['T', 't', ' ']
  hourAlone := true
  basicTimes := true
  marks := ['.', ',']
  fraction _ := true
  zulus := ['Z', 'z']
  offsetHourAlone := true
  basicOffsets := true
  offsetSeconds := true

theorem engine_le (engine : Engine) : engine.grammar.Le everyGrammar := by
  constructor
  case separators =>
    rw [Engine.grammar]
    dsimp only
    split <;> decide
  case zulus =>
    rw [Engine.grammar]
    dsimp only
    split <;> decide
  case marks => exact (by decide : ['.'] ⊆ ['.', ','])
  all_goals intros; rfl

theorem temporal_le : temporalGrammar.Le everyGrammar := by
  constructor
  case separators => exact List.Subset.refl _
  case zulus => exact List.Subset.refl _
  case marks => exact List.Subset.refl _
  all_goals intros; rfl

/-! ## The same parts, the same time -/

variable {parts : InstantParts} {text : List Char} {a : Int}

/-- Nanoseconds are the whole milliseconds and what is cut off. -/
theorem epochNs_div (digits : parts.fraction.all Char.isDigit = true)
    (plain : parts.offset.second = 0 ∧ parts.offset.fraction = []) (second : parts.second ≤ 59) :
    parts.epochNs / 1000000 = parts.timeValue ∧
      parts.timeValue * 1000000 ≤ parts.epochNs ∧
      parts.epochNs < parts.timeValue * 1000000 + 1000000 := by
  obtain ⟨cut, hcut, hfraction⟩ := fractionTo_add digits 3 6
  have hoffset : parts.offset.ns = parts.offset.ms * 1000000 := by
    rw [Offset.ns, Offset.ms, plain.1, plain.2]
    split <;> simp only [fractionTo] <;> omega
  have hmin : min parts.second 59 = parts.second := Nat.min_eq_left second
  have heq : parts.epochNs = parts.timeValue * 1000000 + cut := by
    rw [InstantParts.epochNs, InstantParts.timeValue, hoffset, hmin, hfraction]
    rw [DAY_MS]
    push_cast
    omega
  omega

variable {ms ns b : Int}

theorem parsed_some (h : parts.parsed = some ms) : parts.InFormat ∧ ms = parts.timeValue := by
  rw [InstantParts.parsed] at h
  split at h
  · next hformat => exact ⟨hformat.1, (Option.some.inj h).symm⟩
  · cases h

theorem instant_some (h : parts.instant = some ns) : parts.InTemporal ∧ ns = parts.epochNs := by
  rw [InstantParts.instant] at h
  split at h
  · next htemporal => exact ⟨htemporal.1, (Option.some.inj h).symm⟩
  · cases h

/-! ## How an instant ends -/

/-- A text that ends in `Z` or a digit. -/
def Closed (text : List Char) : Prop :=
  ∃ front last, text = front ++ [last] ∧ (last = 'Z' ∨ last = 'z' ∨ last.isDigit = true)

theorem Closed.cons {text : List Char} (h : Closed text) (c : Char) : Closed (c :: text) := by
  obtain ⟨front, last, rfl, hlast⟩ := h
  exact ⟨c :: front, last, rfl, hlast⟩

theorem Closed.append (h : Closed text) (front : List Char) : Closed (front ++ text) := by
  induction front with
  | nil => exact h
  | cons c front ih => exact ih.cons c

theorem closed_offsetAtEnd (h : offsetAtEnd text = true) : Closed text := by
  unfold offsetAtEnd at h
  split at h
  · next zulu =>
      have hzulu : zulu = 'Z' ∨ zulu = 'z' := by simpa using h
      exact ⟨[], zulu, rfl, hzulu.imp id Or.inl⟩
  · next sign h1 h2 minutes =>
      simp only [decide_eq_true_eq] at h
      obtain ⟨-, -, hdigit, hminutes⟩ := h
      unfold minutesAtEnd at hminutes
      split at hminutes
      · exact ⟨[sign, h1], h2, rfl, Or.inr (Or.inr hdigit)⟩
      · next m1 m2 =>
          simp only [decide_eq_true_eq] at hminutes
          exact ⟨[sign, h1, h2, m1], m2, rfl, Or.inr (Or.inr hminutes.2)⟩
      · next colon m1 m2 =>
          simp only [decide_eq_true_eq] at hminutes
          exact ⟨[sign, h1, h2, colon, m1], m2, rfl, Or.inr (Or.inr hminutes.2.2)⟩
      · cases hminutes
  · cases h

theorem closed_fraction (h : fractionThenOffset text = true) : Closed text := by
  unfold fractionThenOffset at h
  split at h
  · next digit rest =>
      simp only [decide_eq_true_eq] at h
      have hrest := (closed_offsetAtEnd h.2).append (rest.takeWhile Char.isDigit)
      rw [List.takeWhile_append_dropWhile] at hrest
      exact (hrest.cons digit).cons '.'
  · exact closed_offsetAtEnd h

theorem closed_time (h : timeAtEnd text = true) : Closed text := by
  unfold timeAtEnd at h
  split at h
  · next t h1 h2 colon m1 m2 rest =>
      simp only [decide_eq_true_eq] at h
      have hseconds := h.2.2.2.2.2.2
      have hrest : Closed rest := by
        unfold secondsThenOffset at hseconds
        split at hseconds
        · simp only [decide_eq_true_eq] at hseconds
          exact (((closed_fraction hseconds.2.2).cons _).cons _).cons _
        · exact closed_offsetAtEnd hseconds
      exact hrest.append [t, h1, h2, colon, m1, m2]
  · cases h

theorem closed_of_endsWithTime (h : endsWithTime text = true) : Closed text := by
  rw [endsWithTime, List.any_eq_true] at h
  obtain ⟨tail, htail, htime⟩ := h
  obtain ⟨front, rfl⟩ := (List.mem_tails tail text).mp htail
  exact (closed_time htime).append front

/-- No annotation follows. -/
theorem Closed.last_ne (h : Closed text) : text.getLast? ≠ some ']' := by
  obtain ⟨front, last, rfl, hlast⟩ := h
  rw [List.getLast?_concat]
  intro heq
  rw [Option.some.inj heq] at hlast
  exact absurd hlast (by decide)

/-! ## Two readers that both read -/

/-- Times that two readers give one text are equal. -/
theorem same_time (engine : Engine) (annotated : String → Option Int) {text : String}
    (hend : endsWithTime text.toList = true) (ha : engine.dateParse text = some a)
    (hns : instantFrom annotated text = some ns) : a = ns / 1000000 := by
  rw [Engine.dateParse, if_pos hend] at ha
  rw [instantFrom, if_neg (closed_of_endsWithTime hend).last_ne] at hns
  obtain ⟨p, hp, hparsed⟩ := Option.bind_eq_some_iff.mp ha
  obtain ⟨q, hq, hinstant⟩ := Option.bind_eq_some_iff.mp hns
  have hsame : p = q := Option.some.inj
    ((readInstant_mono (engine_le engine) hp).symm.trans (readInstant_mono temporal_le hq))
  subst hsame
  obtain ⟨digits, plain⟩ := readInstant_spec hp
  obtain ⟨hformat, rfl⟩ := parsed_some hparsed
  obtain ⟨-, rfl⟩ := instant_some hinstant
  exact (epochNs_div digits (plain rfl) hformat.2.2.2.2.2.2.1).1.symm

theorem instantMsOrNull_some {annotated : String → Option Int} {text : String}
    (h : instantMsOrNull annotated text = some b) :
    ∃ ns, instantFrom annotated (trim text) = some ns ∧ b = ns / 1000000 := by
  rw [instantMsOrNull] at h
  split at h
  · cases h
  · rw [toInstant] at h
    cases hfrom : instantFrom annotated (trim text) with
    | none => rw [hfrom] at h; cases h
    | some ns =>
        rw [hfrom] at h
        exact ⟨ns, rfl, (Option.some.inj h).symm⟩

theorem instantEpochMs_some {dateParse : String → Option Int} {text : String}
    (h : instantEpochMs dateParse text = some a) :
    endsWithTime (trim text).toList = true ∧ dateParse (trim text) = some a := by
  rw [instantEpochMs] at h
  split at h
  · cases h
  · next hboth =>
      simp only [Bool.or_eq_true, Bool.not_eq_true', not_or, Bool.not_eq_false] at hboth
      exact ⟨hboth.1, h⟩

theorem readers_equal (engine : Engine) (annotated : String → Option Int) {text : String}
    (ha : instantEpochMs engine.dateParse text = some a)
    (hb : instantMsOrNull annotated text = some b) : a = b := by
  obtain ⟨hend, hparse⟩ := instantEpochMs_some ha
  obtain ⟨ns, hns, rfl⟩ := instantMsOrNull_some hb
  exact same_time engine annotated hend hparse hns

/-! ## Texts of the write check -/

/-- What the write check takes. -/
def offsetGrammar : Grammar where
  expandedYears := false
  shortDates := false
  basicDates := false
  separators := ['T']
  hourAlone := false
  basicTimes := false
  marks := ['.']
  fraction n := n ≤ 9
  zulus := ['Z']
  offsetHourAlone := false
  basicOffsets := false
  offsetSeconds := false

theorem offset_le_temporal : offsetGrammar.Le temporalGrammar := by
  constructor
  case separators => exact (by decide : ['T'] ⊆ ['T', 't', ' '])
  case zulus => exact (by decide : ['Z'] ⊆ ['Z', 'z'])
  case marks => exact (by decide : ['.'] ⊆ ['.', ','])
  case fraction => exact fun _ h => h
  all_goals exact fun h => nomatch h

section Shape

variable {text : List Char}

theorem readNat_two {c d : Char} (hc : c.isDigit = true) (hd : d.isDigit = true) :
    ∃ n, readNat [c, d] = some n := by
  refine ⟨Nat.ofDigitChars 10 [c, d] 0, ?_⟩
  rw [readNat, if_pos]
  simp [hc, hd]

theorem offsetPart_spec (h : offsetPart text = true) :
    offsetAtEnd text = true ∧ ∃ offset, readOffset offsetGrammar text = some offset := by
  unfold offsetPart at h
  split at h
  · exact ⟨by decide, ⟨false, 0, 0, 0, []⟩, by decide⟩
  · next sign h1 h2 m1 m2 =>
      simp only [decide_eq_true_eq] at h
      obtain ⟨hsign, hh1, hh2, hm1, hm2⟩ := h
      obtain ⟨hour, hhour⟩ := readNat_two hh1 hh2
      obtain ⟨minute, hminute⟩ := readNat_two hm1 hm2
      constructor
      · simp [offsetAtEnd, minutesAtEnd, hsign, hh1, hh2, hm1, hm2]
      · rcases hsign with rfl | rfl
        · exact ⟨⟨false, hour, minute, 0, []⟩, by
            simp [readOffset, readSigned, readTwo, readOffsetMinutes, readColonOffset, hhour, hminute]⟩
        · exact ⟨⟨true, hour, minute, 0, []⟩, by
            simp [readOffset, readSigned, readTwo, readOffsetMinutes, readColonOffset, hhour, hminute]⟩
  · cases h

theorem offsetPart_head (h : offsetPart text = true) :
    ∃ c rest, text = c :: rest ∧ c ≠ ':' ∧ c ≠ '.' ∧ c ≠ ',' := by
  unfold offsetPart at h
  split at h
  · exact ⟨'Z', [], rfl, by decide, by decide, by decide⟩
  · next sign h1 h2 m1 m2 =>
      simp only [decide_eq_true_eq] at h
      rcases h.1 with rfl | rfl
      · exact ⟨_, _, rfl, by decide, by decide, by decide⟩
      · exact ⟨_, _, rfl, by decide, by decide, by decide⟩
  · cases h

theorem fractionPart_spec (h : fractionPart text = true) :
    fractionThenOffset text = true ∧ ∃ fraction rest,
      readFraction offsetGrammar text = some (fraction, rest) ∧ offsetPart rest = true := by
  unfold fractionPart at h
  split at h
  · next rest =>
      simp only [decide_eq_true_eq] at h
      obtain ⟨hone, hnine, hoffset⟩ := h
      constructor
      · cases rest with
        | nil => cases hone
        | cons digit rest =>
            by_cases hdigit : digit.isDigit = true
            · rw [List.dropWhile_cons_of_pos hdigit] at hoffset
              simp [fractionThenOffset, hdigit, (offsetPart_spec hoffset).1]
            · rw [List.takeWhile_cons_of_neg hdigit] at hone
              cases hone
      · refine ⟨rest.takeWhile Char.isDigit, rest.dropWhile Char.isDigit, ?_, hoffset⟩
        rw [readFraction, if_pos (Or.inl rfl), if_pos]
        exact ⟨by decide, hone, decide_eq_true hnine⟩
  · next hmark =>
      obtain ⟨c, rest, rfl, -, hpoint, hcomma⟩ := offsetPart_head h
      constructor
      · unfold fractionThenOffset
        split
        · next heq => exact absurd (List.cons.inj heq).1 hpoint
        · exact (offsetPart_spec h).1
      · refine ⟨[], c :: rest, ?_, h⟩
        rw [readFraction, if_neg (by simp [hpoint, hcomma])]

theorem secondsPart_spec (h : secondsPart text = true) (hour minute : Nat) :
    secondsThenOffset text = true ∧ ∃ second fraction rest,
      readColonSeconds offsetGrammar hour minute text =
        some ((hour, minute, second, fraction), rest) ∧ offsetPart rest = true := by
  unfold secondsPart at h
  split at h
  · next s1 s2 rest =>
      simp only [decide_eq_true_eq] at h
      obtain ⟨hs1, hs2, hfraction⟩ := h
      obtain ⟨second, hsecond⟩ := readNat_two hs1 hs2
      obtain ⟨hend, fraction, rest', hread, hoffset⟩ := fractionPart_spec hfraction
      constructor
      · simp [secondsThenOffset, hs1, hs2, hend]
      · refine ⟨second, fraction, rest', ?_, hoffset⟩
        simp [readColonSeconds, readSeconds, readTwo, hsecond, hread]
  · obtain ⟨c, rest, rfl, hcolon, -, -⟩ := offsetPart_head h
    constructor
    · unfold secondsThenOffset
      split
      · next heq => exact absurd (List.cons.inj heq).1 hcolon
      · exact (offsetPart_spec h).1
    · refine ⟨0, [], c :: rest, ?_, h⟩
      unfold readColonSeconds
      split
      · next heq => exact absurd (List.cons.inj heq).1 hcolon
      · rfl

/-- A text that the write check takes, as the readers see it. -/
structure Accepted (text : List Char) (parts : InstantParts) : Prop where
  read : readInstant offsetGrammar text = some parts
  day : dayPrefix text = some (parts.year, parts.month, parts.day)
  year : 0 ≤ parts.year ∧ parts.year ≤ 9999
  ends : endsWithTime text = true
  trimmed : trimChars text = text
  hour : parts.hour = 24 ↔ (text.drop 11).take 2 = ['2', '4']

theorem hour_is_24 {h1 h2 : Char} {hour : Nat} (h : readNat [h1, h2] = some hour) :
    hour = 24 ↔ [h1, h2] = ['2', '4'] := by
  have hdigits := (digits_of_readNat h).2
  have h24 : digits 2 24 = ['2', '4'] := by decide
  constructor
  · intro heq
    rw [← hdigits, heq]
    exact h24
  · intro heq
    rw [heq] at h
    exact (Option.some.inj h).symm

theorem exists_accepted (h : isOffsetInstantText text = true) : ∃ parts, Accepted text parts := by
  unfold isOffsetInstantText at h
  split at h
  · next y1 y2 y3 y4 m1 m2 d1 d2 h1 h2 n1 n2 rest =>
      simp only [List.all_cons, List.all_nil, Bool.and_true, Bool.and_eq_true, decide_eq_true_eq]
        at h
      obtain ⟨⟨hy1, hy2, hy3, hy4, hm1, hm2, hd1, hd2, hh1, hh2, hn1, hn2⟩, hseconds⟩ := h
      obtain ⟨month, hmonth⟩ := readNat_two hm1 hm2
      obtain ⟨day, hday⟩ := readNat_two hd1 hd2
      obtain ⟨hour, hhour⟩ := readNat_two hh1 hh2
      obtain ⟨minute, hminute⟩ := readNat_two hn1 hn2
      obtain ⟨hend, second, fraction, rest', hread, hoffset⟩ :=
        secondsPart_spec hseconds hour minute
      obtain ⟨offset, hoffset⟩ := (offsetPart_spec hoffset).2
      obtain ⟨year, hyear⟩ : ∃ year, readNat [y1, y2, y3, y4] = some year := by
        rw [readNat, if_pos]
        · exact ⟨_, rfl⟩
        · simp [hy1, hy2, hy3, hy4]
      have hyearText : ∀ rest, yearPrefix (y1 :: y2 :: y3 :: y4 :: rest) = some ((year : Int), rest) := by
        intro rest
        rw [yearPrefix_digits hy1, hyear]
        rfl
      have htime : timeAtEnd ('T' :: h1 :: h2 :: ':' :: n1 :: n2 :: rest) = true := by
        simp [timeAtEnd, hh1, hh2, hn1, hn2, hend]
      refine ⟨⟨year, month, day, hour, minute, second, fraction, offset⟩, ?_, ?_, ?_, ?_, ?_, ?_⟩
      · have hyears : readYear offsetGrammar (y1 :: y2 :: y3 :: y4 :: '-' :: m1 :: m2 :: '-' :: d1 ::
            d2 :: 'T' :: h1 :: h2 :: ':' :: n1 :: n2 :: rest) = some ((year : Int), '-' :: m1 :: m2 ::
              '-' :: d1 :: d2 :: 'T' :: h1 :: h2 :: ':' :: n1 :: n2 :: rest) := by
          unfold readYear
          split
          · next heq => rw [(List.cons.inj heq).1] at hy1; cases hy1
          · next heq => rw [(List.cons.inj heq).1] at hy1; cases hy1
          · exact hyearText _
        have hdays : ∀ rest, readMonthDay offsetGrammar ('-' :: m1 :: m2 :: '-' :: d1 :: d2 :: rest) =
            some (month, day, rest) := by
          intro rest
          simp [readMonthDay, readDay, readTwo, hmonth, hday]
        have hclock : readClock offsetGrammar (h1 :: h2 :: ':' :: n1 :: n2 :: rest) =
            some ((hour, minute, second, fraction), rest') := by
          simp [readClock, readTwo, hhour, readMinutes, hminute, hread]
        have hseparator : ∀ rest, readSeparator offsetGrammar ('T' :: rest) = some rest :=
          fun _ => rfl
        rw [readInstant, hyears, Option.bind_some, hdays, Option.bind_some, hseparator,
          Option.bind_some, hclock, Option.bind_some, hoffset]
        rfl
      · rw [dayPrefix, hyearText]
        simp only [hmonth, hday]
        rfl
      · have hlt := (digits_of_readNat hyear).1
        dsimp only [List.length_cons, List.length_nil] at hlt ⊢
        omega
      · exact endsWithTime_append [y1, y2, y3, y4, '-', m1, m2, '-', d1, d2] htime
      · obtain ⟨front, last, hlast, hcloses⟩ :=
          (closed_time htime).append [y2, y3, y4, '-', m1, m2, '-', d1, d2]
        have hopen : isTrimmed last = false := by
          rcases hcloses with rfl | rfl | hdigit
          · decide
          · decide
          · exact not_isTrimmed_of_isDigit hdigit
        have htrim := trimChars_eq_self front (not_isTrimmed_of_isDigit hy1) hopen
        rw [← hlast] at htrim
        exact htrim
      · exact hour_is_24 hhour
  · cases h

end Shape

/-! ## What passes the write check -/

/-- A real day is one of the calendar. -/
theorem day_of_startsWithRealDay {year : Int} {month day : Nat}
    (hday : dayPrefix text = some (year, month, day)) (h : startsWithRealDay text = true) :
    ∃ date : Date, date.year = year ∧ date.month = month ∧ date.day = day ∧
      makeDay year (month - 1) day = date.dayNumber := by
  rw [startsWithRealDay, hday] at h
  dsimp only at h
  split at h
  · cases h
  · simp only [decide_eq_true_eq] at h
    exact ⟨_, h.2.1, h.2.2.1, h.2.2.2, (dayNumber_ofDayNumber _).symm⟩

variable {date : Date}

/-- The days of the years 0 to 9999 are far within what an instant can hold. -/
theorem epochDay_bounds (year : 0 ≤ parts.year ∧ parts.year ≤ 9999)
    (hdate : date.year = parts.year)
    (hday : makeDay parts.year (parts.month - 1) parts.day = date.dayNumber) :
    -1000000 ≤ parts.epochDay ∧ parts.epochDay ≤ 3000000 := by
  have hwithin := date.dayNumber_within_year
  have hfirst := daysBeforeYear_le (a := 0) (b := date.year) (by omega)
  have hlast := daysBeforeYear_le (a := date.year + 1) (b := 10000) (by omega)
  have hzero : daysBeforeYear 0 = -366 := by decide
  have hlate : daysBeforeYear 10000 = 3652059 := by decide
  rw [InstantParts.epochDay, hday, EPOCH_DAY]
  omega

/-- What passes the write check with an hour below 24 is an instant for Temporal. -/
theorem instant_of_parsed (hparsed : parts.parsed = some ms)
    (plain : parts.offset.second = 0 ∧ parts.offset.fraction = [])
    (digits : parts.fraction.all Char.isDigit = true) (year : 0 ≤ parts.year ∧ parts.year ≤ 9999)
    (hdate : date.year = parts.year) (hmonth : date.month = parts.month)
    (hday : date.day = parts.day)
    (hnumber : makeDay parts.year (parts.month - 1) parts.day = date.dayNumber)
    (hour : parts.hour ≤ 23) : parts.instant = some parts.epochNs := by
  obtain ⟨hformat, -⟩ := parsed_some hparsed
  obtain ⟨-, -, -, -, -, hminute, hsecond, hoffsetHour, hoffsetMinute⟩ := hformat
  have hbounds := epochDay_bounds year hdate hnumber
  have hms := (epochNs_div digits plain hsecond).2
  have hfraction := fractionTo_lt digits 3
  have hoffset : -100000000 ≤ parts.offset.ms ∧ parts.offset.ms ≤ 100000000 := by
    rw [Offset.ms]
    split <;> omega
  have htime : -MAX_TIME_VALUE ≤ parts.timeValue ∧ parts.timeValue < MAX_TIME_VALUE := by
    rw [InstantParts.timeValue, MAX_TIME_VALUE, DAY_MS]
    omega
  rw [InstantParts.instant, if_pos]
  refine ⟨⟨hmonth ▸ date.month_pos, hmonth ▸ date.month_le, hday ▸ date.day_pos, ?_, hour, hminute,
    by omega, hoffsetHour, hoffsetMinute, by rw [plain.1]; decide⟩, ?_, ?_⟩
  · rw [← hday, ← hdate, ← hmonth]
    exact date.day_le
  · unfold MAX_TIME_VALUE at *
    omega
  · unfold MAX_TIME_VALUE at *
    omega

/-- What the cms reads from a text that passes the write check. -/
theorem instantMsOrNull_accepted (annotated : String → Option Int) {text : String}
    (h : Accepted text.toList parts) :
    instantMsOrNull annotated text = parts.instant.map fun ns => ns / 1000000 := by
  have htrim : trim text = text := by rw [trim, h.trimmed, String.ofList_toList]
  have hclosed := closed_of_endsWithTime h.ends
  have hne : text ≠ "" := by
    rintro rfl
    obtain ⟨front, last, heq, -⟩ := hclosed
    simp at heq
  have hfrom : instantFrom annotated text = parts.instant := by
    rw [instantFrom, if_neg hclosed.last_ne, readInstant_mono offset_le_temporal h.read,
      Option.bind_some]
  rw [instantMsOrNull, if_neg hne, toInstant, htrim, hfrom]
  cases parts.instant <;> rfl

/-- The three readers give an accepted text one time exactly where its hour is not 24. -/
theorem accepted_agree_iff (engine : Engine) (annotated : String → Option Int) {text : String}
    (h : isOffsetInstant engine.dateParse text = true) :
    (∃ ms, offsetInstantMs engine.dateParse text = some ms ∧
      instantEpochMs engine.dateParse text = some ms ∧ instantMsOrNull annotated text = some ms) ↔
      hourIs24 text = false := by
  have hoffset : offsetInstantMs engine.dateParse text = engine.dateParse text := if_pos h
  simp only [isOffsetInstant, Bool.and_eq_true] at h
  obtain ⟨⟨htext, hreal⟩, hsome⟩ := h
  obtain ⟨parts, haccepted⟩ := exists_accepted htext
  obtain ⟨ms, hms⟩ := Option.isSome_iff_exists.mp hsome
  have htrim : trim text = text := by rw [trim, haccepted.trimmed, String.ofList_toList]
  have hepoch : instantEpochMs engine.dateParse text = some ms := by
    rw [instantEpochMs, htrim, haccepted.ends, hreal]
    exact hms
  have hparse := hms
  rw [Engine.dateParse, if_pos haccepted.ends] at hparse
  obtain ⟨p, hp, hparsed⟩ := Option.bind_eq_some_iff.mp hparse
  have hsame : p = parts := Option.some.inj ((readInstant_mono (engine_le engine) hp).symm.trans
    (readInstant_mono temporal_le (readInstant_mono offset_le_temporal haccepted.read)))
  subst hsame
  obtain ⟨digits, plain⟩ := readInstant_spec hp
  obtain ⟨hformat, rfl⟩ := parsed_some hparsed
  have hhour : hourIs24 text = true ↔ p.hour = 24 := by
    rw [haccepted.hour, hourIs24, decide_eq_true_eq]
  rw [hoffset, hms, hepoch, instantMsOrNull_accepted annotated haccepted]
  constructor
  · intro hagree
    obtain ⟨ms, -, -, hcms⟩ := hagree
    obtain ⟨ns, hns, -⟩ := Option.map_eq_some_iff.mp hcms
    have hle := (instant_some hns).1.2.2.2.2.1
    rw [← Bool.not_eq_true, hhour]
    omega
  · intro hnot
    rw [← Bool.not_eq_true, hhour] at hnot
    obtain ⟨date, hyear, hmonth, hday, hnumber⟩ := day_of_startsWithRealDay haccepted.day hreal
    have hinstant := instant_of_parsed hparsed (plain rfl) digits haccepted.year hyear hmonth hday
      hnumber (by have := hformat.2.2.2.2.1; omega)
    refine ⟨p.timeValue, rfl, rfl, ?_⟩
    rw [hinstant, Option.map_some, (epochNs_div digits (plain rfl) hformat.2.2.2.2.2.2.1).1]

/-- The readers agree on a text, unless it is written with the hour 24. -/
theorem readersAgree_iff (engine : Engine) (annotated : String → Option Int) (text : String) :
    ReadersAgree engine annotated text ↔
      ¬ (isOffsetInstant engine.dateParse text = true ∧ hourIs24 text = true) := by
  constructor
  · intro h hboth
    have hnot := (accepted_agree_iff engine annotated hboth.1).mp (h.accepted hboth.1)
    rw [hboth.2] at hnot
    cases hnot
  · intro h
    constructor
    · intro haccepted
      apply (accepted_agree_iff engine annotated haccepted).mpr
      exact Bool.eq_false_iff.mpr fun hhour => h ⟨haccepted, hhour⟩
    · exact fun a b ha hb => readers_equal engine annotated ha hb

end Sinnlos.Domain
