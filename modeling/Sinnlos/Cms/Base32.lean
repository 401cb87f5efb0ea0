import Mathlib.Tactic.Ring
import Sinnlos.Cms.Totp
import Sinnlos.Lib.Positional

/-!
# The base32 text of a secret

What `base32Encode` writes is what `base32Decode` reads (`apps/cms/src/utils/totp.ts`).
Both keep the bits that are not written yet in a 32-bit accumulator that is never
masked: its low bits are right, whatever is left above them.
-/

namespace Sinnlos.Cms.Mfa

open Positional

def BASE32 : List Char := "ABCDEFGHIJKLMNOPQRSTUVWXYZ234567".toList

/-- `BASE32[i]`. -/
def base32Char (i : Nat) : Char := BASE32.getD i 'A'

/-- The inner loop of the writer: five bits at a time, and how many are left. -/
def base32Drain (value : UInt32) : Nat → List Nat × Nat
  | bits + 5 =>
      ((value >>> UInt32.ofNat bits &&& 31).toNat :: (base32Drain value bits).1,
        (base32Drain value bits).2)
  | bits => ([], bits)

/-- The loop over the bytes: `bits` bits of `value` are not written yet. -/
def base32Values : Nat → UInt32 → List UInt8 → List Nat
  | bits, value, [] => if bits > 0 then [(value <<< UInt32.ofNat (5 - bits) &&& 31).toNat] else []
  | bits, value, byte :: bytes =>
      let value := value <<< 8 ||| byte.toUInt32
      let drained := base32Drain value (bits + 8)
      drained.1 ++ base32Values drained.2 value bytes

def base32Encode (bytes : List UInt8) : String :=
  String.ofList ((base32Values 0 0 bytes).map base32Char)

/-! ## The operators -/

variable {value : UInt32} {bits n : Nat}

theorem toNat_mask (value : UInt32) : (value &&& 31).toNat = value.toNat % 32 := by
  rw [UInt32.toNat_and]
  exact Nat.and_two_pow_sub_one_eq_mod value.toNat 5

theorem toNat_shiftRight_mask (h : bits < 32) :
    (value >>> UInt32.ofNat bits &&& 31).toNat = value.toNat / 2 ^ bits % 32 := by
  have hbits : (UInt32.ofNat bits).toNat % 32 = bits := by
    rw [UInt32.toNat_ofNat_of_lt' (by show bits < 2 ^ 32; omega)]
    omega
  rw [toNat_mask, UInt32.toNat_shiftRight, hbits, Nat.shiftRight_eq_div_pow]

theorem toNat_shiftLeft_mask (h : bits < 27) :
    (value <<< UInt32.ofNat bits &&& 31).toNat = value.toNat * 2 ^ bits % 32 := by
  have hbits : (UInt32.ofNat bits).toNat % 32 = bits := by
    rw [UInt32.toNat_ofNat_of_lt' (by show bits < 2 ^ 32; omega)]
    omega
  rw [toNat_mask, UInt32.toNat_shiftLeft, hbits, Nat.shiftLeft_eq]
  exact Nat.mod_mod_of_dvd _ (by decide)

/-- `(value << 8) | byte` on 32 bits. -/
theorem toNat_push (value : UInt32) (byte : UInt8) :
    (value <<< 8 ||| byte.toUInt32).toNat = (value.toNat * 256 + byte.toNat) % 2 ^ 32 := by
  have hbyte : byte.toNat < 2 ^ 8 := byte.toNat_lt
  have hshift : value.toNat * 256 % 2 ^ 32 = (value.toNat % 2 ^ 24) <<< 8 := by
    rw [Nat.shiftLeft_eq]
    omega
  have height : (8 : UInt32).toNat % 32 = 8 := rfl
  rw [UInt32.toNat_or, UInt32.toNat_shiftLeft, height, Nat.shiftLeft_eq, UInt8.toNat_toUInt32,
    hshift, ← Nat.shiftLeft_add_eq_or_of_lt hbyte, ← hshift]
  omega

/-! ## Writing -/

/-- Digits without their last bits. -/
theorem mod_div_split (n left more : Nat) :
    n % 2 ^ (left + more) = n / 2 ^ left % 2 ^ more * 2 ^ left + n % 2 ^ left := by
  rw [Nat.pow_add, Nat.mod_mul, Nat.mul_comm, Nat.add_comm]

/-- Digits that are pushed in at the end leave the others as they were. -/
theorem mod_push {d width : Nat} (h : d < 2 ^ width) (n bits : Nat) :
    (n * 2 ^ width + d) % 2 ^ (bits + width) = n % 2 ^ bits * 2 ^ width + d := by
  have hsplit := mod_div_split (n * 2 ^ width + d) width bits
  have hpos : 0 < 2 ^ width := by omega
  rw [Nat.mul_comm n, Nat.mul_add_div hpos, Nat.div_eq_of_lt h, Nat.add_zero, Nat.mul_add_mod,
    Nat.mod_eq_of_lt h, Nat.mul_comm] at hsplit
  rw [Nat.add_comm bits, hsplit]

/-- What is drained has the low bits of the accumulator, and less than five are left. -/
theorem drain_spec (value : UInt32) (bits : Nat) (h : bits < 32) :
    (base32Drain value bits).2 < 5 ∧
      bits = 5 * (base32Drain value bits).1.length + (base32Drain value bits).2 ∧
      (∀ digit ∈ (base32Drain value bits).1, digit < 32) ∧
      number 32 (base32Drain value bits).1 * 2 ^ (base32Drain value bits).2 +
        value.toNat % 2 ^ (base32Drain value bits).2 = value.toNat % 2 ^ bits := by
  induction bits using Nat.strong_induction_on with
  | h bits ih =>
      by_cases hfew : bits < 5
      · have hnone : base32Drain value bits = ([], bits) := by
          unfold base32Drain
          split
          · omega
          · rfl
        rw [hnone]
        simp [hfew]
      · obtain ⟨rest, hrest⟩ : ∃ rest, bits = rest + 5 := ⟨bits - 5, by omega⟩
        subst hrest
        obtain ⟨hleft, hlength, hdigits, hnumber⟩ := ih rest (by omega) (by omega)
        have hcons : base32Drain value (rest + 5) =
            (value.toNat / 2 ^ rest % 32 :: (base32Drain value rest).1,
              (base32Drain value rest).2) := by
          rw [base32Drain, toNat_shiftRight_mask (by omega)]
        rw [hcons]
        refine ⟨hleft, ?_, ?_, ?_⟩
        · rw [List.length_cons]
          omega
        · intro digit hdigit
          rcases List.mem_cons.mp hdigit with heq | hmem
          · omega
          · exact hdigits digit hmem
        · have hpower : 32 ^ (base32Drain value rest).1.length *
              2 ^ (base32Drain value rest).2 = 2 ^ rest := by
            rw [show 32 = 2 ^ 5 from rfl, ← Nat.pow_mul, ← Nat.pow_add, ← hlength]
          have hsplit : value.toNat % 2 ^ (rest + 5) =
              value.toNat / 2 ^ rest % 32 * 2 ^ rest + value.toNat % 2 ^ rest :=
            mod_div_split value.toNat rest 5
          rw [number_cons, hsplit, ← hnumber, ← hpower]
          ring

/-- What is written is the number of the bytes, with less than five bits behind it. -/
theorem values_spec (bytes : List UInt8) (value : UInt32) (bits : Nat) (h : bits < 5) :
    (∀ digit ∈ base32Values bits value bytes, digit < 32) ∧
      ∃ padding < 5,
        5 * (base32Values bits value bytes).length = bits + 8 * bytes.length + padding ∧
        number 32 (base32Values bits value bytes) =
          (value.toNat % 2 ^ bits * 256 ^ bytes.length +
            number 256 (bytes.map UInt8.toNat)) * 2 ^ padding := by
  induction bytes generalizing value bits with
  | nil =>
      by_cases hbits : bits > 0
      · have hlast : base32Values bits value [] = [value.toNat * 2 ^ (5 - bits) % 32] := by
          rw [base32Values, if_pos hbits, toNat_shiftLeft_mask (by omega)]
        rw [hlast]
        refine ⟨?_, 5 - bits, by omega, ?_, ?_⟩
        · intro digit hdigit
          rw [List.mem_singleton.mp hdigit]
          exact Nat.mod_lt _ (by decide)
        · simp only [List.length_singleton, List.length_nil]
          omega
        · have hpower : 32 = 2 ^ bits * 2 ^ (5 - bits) := by
            rw [← Nat.pow_add, show bits + (5 - bits) = 5 by omega]
          rw [number_singleton, hpower, Nat.mul_mod_mul_right]
          simp
      · have hzero : bits = 0 := by omega
        subst hzero
        have hlast : base32Values 0 value [] = [] := rfl
        rw [hlast]
        exact ⟨fun digit hdigit => absurd hdigit List.not_mem_nil, 0, by decide, by simp,
          by simp [Nat.mod_one]⟩
  | cons byte bytes ih =>
      obtain ⟨next, hnext⟩ : ∃ next, next = value <<< 8 ||| byte.toUInt32 := ⟨_, rfl⟩
      obtain ⟨hleft, hlength, hdigits, hnumber⟩ := drain_spec next (bits + 8) (by omega)
      obtain ⟨hrest, padding, hpadding, hlengthRest, hnumberRest⟩ :=
        ih next (base32Drain next (bits + 8)).2 hleft
      have hvalues : base32Values bits value (byte :: bytes) =
          (base32Drain next (bits + 8)).1 ++
            base32Values (base32Drain next (bits + 8)).2 next bytes := by
        rw [base32Values, ← hnext]
      -- the low bits of the accumulator, however much stands above them
      have hlow : next.toNat % 2 ^ (bits + 8) = value.toNat % 2 ^ bits * 256 + byte.toNat := by
        have hbyte : byte.toNat < 2 ^ 8 := byte.toNat_lt
        rw [hnext, toNat_push, Nat.mod_mod_of_dvd _ (Nat.pow_dvd_pow 2 (by omega))]
        exact mod_push hbyte value.toNat bits
      have hpower : 32 ^ (base32Values (base32Drain next (bits + 8)).2 next bytes).length =
          2 ^ (base32Drain next (bits + 8)).2 * 256 ^ bytes.length * 2 ^ padding := by
        rw [show 32 = 2 ^ 5 from rfl, show 256 = 2 ^ 8 from rfl, ← Nat.pow_mul, ← Nat.pow_mul,
          ← Nat.pow_add, ← Nat.pow_add, hlengthRest]
      rw [hvalues]
      refine ⟨?_, padding, hpadding, ?_, ?_⟩
      · intro digit hdigit
        rcases List.mem_append.mp hdigit with hfirst | hlater
        · exact hdigits digit hfirst
        · exact hrest digit hlater
      · rw [List.length_append, List.length_cons]
        omega
      · rw [number_append, hnumberRest, hpower, List.map_cons, number_cons, List.length_map,
          List.length_cons, Nat.pow_succ]
        have hfront : number 32 (base32Drain next (bits + 8)).1 *
            2 ^ (base32Drain next (bits + 8)).2 +
              next.toNat % 2 ^ (base32Drain next (bits + 8)).2 =
            value.toNat % 2 ^ bits * 256 + byte.toNat := hnumber.trans hlow
        generalize number 32 (base32Drain next (bits + 8)).1 = front at *
        generalize next.toNat % 2 ^ (base32Drain next (bits + 8)).2 = low at *
        generalize 2 ^ (base32Drain next (bits + 8)).2 = size at *
        calc front * (size * 256 ^ bytes.length * 2 ^ padding) +
              (low * 256 ^ bytes.length + number 256 (bytes.map UInt8.toNat)) * 2 ^ padding
            = ((front * size + low) * 256 ^ bytes.length +
                number 256 (bytes.map UInt8.toNat)) * 2 ^ padding := by ring
          _ = _ := by
            rw [hfront]
            ring

/-! ## Reading -/

/-- The loop of the reader with the operators on 32 bits. -/
def base32Read : Nat → UInt32 → List Nat → List UInt8
  | _, _, [] => []
  | bits, value, v :: values =>
      let value := value <<< 5 ||| UInt32.ofNat v
      let bits := bits + 5
      if bits ≥ 8 then
        (value >>> UInt32.ofNat (bits - 8) &&& 255).toUInt8 :: base32Read (bits - 8) value values
      else base32Read bits value values

/-- `(value << 5) | v` on 32 bits. -/
theorem toNat_push_value {v : Nat} (h : v < 32) (value : UInt32) :
    (value <<< 5 ||| UInt32.ofNat v).toNat = (value.toNat * 32 + v) % 2 ^ 32 := by
  have hshift : value.toNat * 32 % 2 ^ 32 = (value.toNat % 2 ^ 27) <<< 5 := by
    rw [Nat.shiftLeft_eq]
    omega
  have hfive : (5 : UInt32).toNat % 32 = 5 := rfl
  rw [UInt32.toNat_or, UInt32.toNat_shiftLeft, hfive, Nat.shiftLeft_eq,
    UInt32.toNat_ofNat_of_lt' (by show v < 2 ^ 32; omega), hshift,
    ← Nat.shiftLeft_add_eq_or_of_lt (show v < 2 ^ 5 from h), ← hshift]
  omega

theorem shiftRight_byte (h : bits < 32) :
    (value >>> UInt32.ofNat bits &&& 255).toUInt8 = UInt8.ofNat (value.toNat / 2 ^ bits) := by
  have hbits : (UInt32.ofNat bits).toNat % 32 = bits := by
    rw [UInt32.toNat_ofNat_of_lt' (by show bits < 2 ^ 32; omega)]
    omega
  apply UInt8.toNat_inj.mp
  rw [UInt32.toNat_toUInt8, UInt32.toNat_and, UInt32.toNat_shiftRight, hbits,
    Nat.shiftRight_eq_div_pow, UInt8.toNat_ofNat']
  rw [show (255 : UInt32).toNat = 2 ^ 8 - 1 from rfl, Nat.and_two_pow_sub_one_eq_mod, Nat.mod_mod]

variable {values : List Nat}

/-- The reader's arithmetic is that of the operators. -/
theorem base32Bytes_eq_read (hvalues : ∀ v ∈ values, v < 32) (h : bits < 8) :
    base32Bytes bits value.toNat values = base32Read bits value values := by
  induction values generalizing bits value with
  | nil => rfl
  | cons v values ih =>
      have hv := hvalues v List.mem_cons_self
      have hothers : ∀ w ∈ values, w < 32 := fun w hw => hvalues w (List.mem_cons_of_mem v hw)
      rw [base32Bytes, base32Read, ← toNat_push_value hv]
      by_cases hfull : bits + 5 ≥ 8
      · rw [if_pos hfull, if_pos hfull, shiftRight_byte (by omega), ih hothers (by omega)]
      · rw [if_neg hfull, if_neg hfull, ih hothers (by omega)]

/-- What is read is the number of the values, without less than eight bits at the end. -/
theorem bytes_spec (values : List Nat) (bits value : Nat) (h : bits < 8)
    (hvalues : ∀ v ∈ values, v < 32) :
    ∃ left rest, left < 8 ∧ rest < 2 ^ left ∧
      8 * (base32Bytes bits value values).length + left = bits + 5 * values.length ∧
      number 256 ((base32Bytes bits value values).map UInt8.toNat) * 2 ^ left + rest =
        value % 2 ^ bits * 32 ^ values.length + number 32 values := by
  induction values generalizing bits value with
  | nil =>
      refine ⟨bits, value % 2 ^ bits, h, Nat.mod_lt _ (by positivity), ?_, ?_⟩
      · simp [base32Bytes]
      · simp [base32Bytes]
  | cons v values ih =>
      have hv := hvalues v List.mem_cons_self
      have hothers : ∀ w ∈ values, w < 32 := fun w hw => hvalues w (List.mem_cons_of_mem v hw)
      obtain ⟨next, hnext⟩ : ∃ next, next = (value * 32 + v) % 2 ^ 32 := ⟨_, rfl⟩
      have hlow : next % 2 ^ (bits + 5) = value % 2 ^ bits * 32 + v := by
        rw [hnext, Nat.mod_mod_of_dvd _ (Nat.pow_dvd_pow 2 (by omega))]
        exact mod_push (show v < 2 ^ 5 from hv) value bits
      by_cases hfull : bits + 5 ≥ 8
      · obtain ⟨left, rest, hleft, hrest, hlength, hnumber⟩ :=
          ih (bits + 5 - 8) next (by omega) hothers
        have hcons : base32Bytes bits value (v :: values) =
            UInt8.ofNat (next / 2 ^ (bits + 5 - 8)) :: base32Bytes (bits + 5 - 8) next values := by
          rw [base32Bytes, ← hnext, if_pos hfull]
        rw [hcons]
        refine ⟨left, rest, hleft, hrest, ?_, ?_⟩
        · rw [List.length_cons, List.length_cons]
          omega
        · have hsplit : next % 2 ^ (bits + 5) =
              next / 2 ^ (bits + 5 - 8) % 256 * 2 ^ (bits + 5 - 8) + next % 2 ^ (bits + 5 - 8) := by
            have hparts := mod_div_split next (bits + 5 - 8) 8
            rwa [show bits + 5 - 8 + 8 = bits + 5 by omega] at hparts
          have hpower : 256 ^ (base32Bytes (bits + 5 - 8) next values).length * 2 ^ left =
              2 ^ (bits + 5 - 8) * 32 ^ values.length := by
            rw [show 32 = 2 ^ 5 from rfl, show 256 = 2 ^ 8 from rfl, ← Nat.pow_mul,
              ← Nat.pow_mul, ← Nat.pow_add, ← Nat.pow_add, hlength]
          have htop : (UInt8.ofNat (next / 2 ^ (bits + 5 - 8))).toNat =
              next / 2 ^ (bits + 5 - 8) % 256 := UInt8.toNat_ofNat'
          rw [hlow] at hsplit
          rw [List.map_cons, number_cons, List.length_map, htop, List.length_cons, Nat.pow_succ,
            number_cons]
          generalize next / 2 ^ (bits + 5 - 8) % 256 = top at *
          generalize next % 2 ^ (bits + 5 - 8) = low at *
          generalize 2 ^ (bits + 5 - 8) = size at *
          generalize value % 2 ^ bits = before at *
          calc (top * 256 ^ (base32Bytes (bits + 5 - 8) next values).length +
                number 256 ((base32Bytes (bits + 5 - 8) next values).map UInt8.toNat)) * 2 ^ left +
                  rest
              = top * (256 ^ (base32Bytes (bits + 5 - 8) next values).length * 2 ^ left) +
                (number 256 ((base32Bytes (bits + 5 - 8) next values).map UInt8.toNat) * 2 ^ left +
                  rest) := by ring
            _ = (top * size + low) * 32 ^ values.length + number 32 values := by
              rw [hpower, hnumber]
              ring
            _ = before * (32 ^ values.length * 32) +
                (v * 32 ^ values.length + number 32 values) := by
              rw [← hsplit]
              ring
      · obtain ⟨left, rest, hleft, hrest, hlength, hnumber⟩ :=
          ih (bits + 5) next (by omega) hothers
        have hcons : base32Bytes bits value (v :: values) =
            base32Bytes (bits + 5) next values := by
          rw [base32Bytes, ← hnext, if_neg hfull]
        rw [hcons]
        refine ⟨left, rest, hleft, hrest, ?_, ?_⟩
        · rw [List.length_cons]
          omega
        · rw [hnumber, hlow, List.length_cons, Nat.pow_succ, number_cons]
          ring

/-! ## The round trip -/

theorem base32_alphabet : ∀ i < 32, base32Value (base32Char i) = some i ∧
    Text.isTrimmed (base32Char i) = false ∧ upperCase (base32Char i) = [base32Char i] := by
  decide

/-- A text of the alphabet is cleaned to itself. -/
theorem clean_alphabet (h : ∀ v ∈ values, v < 32) :
    ((values.map base32Char).filter fun c => !Text.isTrimmed c).flatMap upperCase =
        values.map base32Char ∧
      (values.map base32Char).mapM base32Value = some values := by
  induction values with
  | nil => exact ⟨rfl, rfl⟩
  | cons v values ih =>
      obtain ⟨hvalue, htrim, hupper⟩ := base32_alphabet v (h v List.mem_cons_self)
      obtain ⟨hclean, hread⟩ := ih fun w hw => h w (List.mem_cons_of_mem v hw)
      constructor
      · rw [List.map_cons, List.filter_cons_of_pos (by rw [htrim]; rfl), List.flatMap_cons, hupper,
          hclean, List.singleton_append]
      · rw [List.map_cons, List.mapM_cons, hvalue, hread]
        rfl

/-- The reader gives back the bytes that were written, however many; so does its loop with
the operators on 32 bits. -/
theorem base32Decode_base32Encode (bytes : List UInt8) (h : bytes ≠ []) :
    base32Decode (base32Encode bytes) = some bytes ∧
      base32Read 0 0 (base32Values 0 0 bytes) = bytes := by
  obtain ⟨hdigits, padding, hpadding, hlength, hnumber⟩ := values_spec bytes 0 0 (by decide)
  obtain ⟨left, rest, hleft, hrest, hlengthBytes, hnumberBytes⟩ :=
    bytes_spec (base32Values 0 0 bytes) 0 0 (by decide) hdigits
  obtain ⟨hclean, hread⟩ := clean_alphabet hdigits
  have hpos : 0 < bytes.length := List.length_pos_iff.mpr h
  have hsame : (base32Bytes 0 0 (base32Values 0 0 bytes)).length = bytes.length ∧
      left = padding := by omega
  rw [hsame.2] at hrest hnumberBytes
  have hvalue : number 256 ((base32Bytes 0 0 (base32Values 0 0 bytes)).map UInt8.toNat) =
      number 256 (bytes.map UInt8.toNat) := by
    rw [hnumber] at hnumberBytes
    simp only [Nat.pow_zero, Nat.mod_one, Nat.zero_mul, Nat.zero_add] at hnumberBytes
    have hunit : 0 < 2 ^ padding := by positivity
    have hfloor := congrArg (· / 2 ^ padding) hnumberBytes
    rwa [Nat.mul_comm, Nat.mul_add_div hunit, Nat.div_eq_of_lt hrest, Nat.add_zero,
      Nat.mul_div_cancel _ hunit] at hfloor
  have hbytes : base32Bytes 0 0 (base32Values 0 0 bytes) = bytes := by
    have hsmall (list : List UInt8) : ∀ n ∈ list.map UInt8.toNat, n < 256 := by
      intro n hn
      obtain ⟨byte, -, hbyte⟩ := List.mem_map.mp hn
      rw [← hbyte]
      exact byte.toNat_lt
    have hmap := number_injective (by decide) (by rw [List.length_map, List.length_map, hsame.1])
      (hsmall _) (hsmall _) hvalue
    exact List.map_injective_iff.mpr (fun _ _ => UInt8.toNat_inj.mp) hmap
  refine ⟨?_, (base32Bytes_eq_read hdigits (by decide)).symm.trans hbytes⟩
  have htext : (base32Encode bytes).toList = (base32Values 0 0 bytes).map base32Char := by
    rw [base32Encode, String.toList_ofList]
  unfold base32Decode
  rw [htext, hclean]
  dsimp only
  rw [hread]
  cases hvalues : base32Values 0 0 bytes with
  | nil =>
      rw [hvalues] at hlength
      simp only [List.length_nil] at hlength
      omega
  | cons v values =>
      rw [hvalues] at hbytes
      dsimp only
      rw [hbytes]

theorem base32Decode_base32Encode_foobar :
    base32Encode [102, 111, 111, 98, 97, 114] = "MZXW6YTBOI" ∧
      base32Decode (base32Encode [102, 111, 111, 98, 97, 114]) =
        some [102, 111, 111, 98, 97, 114] ∧
      base32Read 0 0 (base32Values 0 0 [102, 111, 111, 98, 97, 114]) =
        [102, 111, 111, 98, 97, 114] := by
  have hwritten : base32Encode [102, 111, 111, 98, 97, 114] = "MZXW6YTBOI" := by decide +kernel
  exact ⟨hwritten, base32Decode_base32Encode _ (List.cons_ne_nil _ _)⟩

end Sinnlos.Cms.Mfa
