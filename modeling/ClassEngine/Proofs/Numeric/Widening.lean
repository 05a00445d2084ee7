import Mathlib.Tactic.Common
import Mathlib.Tactic.Ring
import ClassEngine.Numeric.Ieee

/-!
Every single-precision number is a double-precision number, so writing a constant in the shorter
format and reading it back changes nothing but the payload of what is not a number.
-/

namespace ClassEngine

namespace Format

/-- The patterns of a format. -/
def size (f : Format) : Nat := 2 ^ (f.fracBits + f.expBits + 1)

theorem pow_bitLength_le {m : Nat} (h : m ≠ 0) : 2 ^ (bitLength m - 1) ≤ m := by
  rw [bitLength, if_neg h, Nat.add_sub_cancel]
  exact Nat.log2_self_le h

theorem lt_pow_bitLength (m : Nat) : m < 2 ^ bitLength m := by
  rw [bitLength]
  split
  · simp_all
  · exact Nat.lt_log2_self

theorem bitLength_le_iff {m k : Nat} : bitLength m ≤ k ↔ m < 2 ^ k := by
  constructor
  · intro h
    exact lt_of_lt_of_le (lt_pow_bitLength m) (Nat.pow_le_pow_right (by omega) h)
  · intro h
    rw [bitLength]
    split
    · omega
    · rename_i hm
      have := (Nat.log2_lt hm).mpr h
      omega

theorem bitLength_pos {m : Nat} (h : m ≠ 0) : 0 < bitLength m := by
  rw [bitLength, if_neg h]
  omega

/-- A number between two neighbouring powers has the length that these give. -/
theorem bitLength_eq {m k : Nat} (hlo : 2 ^ k ≤ m) (hhi : m < 2 ^ (k + 1)) :
    bitLength m = k + 1 := by
  apply Nat.le_antisymm
  · exact bitLength_le_iff.mpr hhi
  · by_contra h
    have : m < 2 ^ k := bitLength_le_iff.mp (by omega)
    omega

theorem bitLength_mul_pow {m : Nat} (h : m ≠ 0) (k : Nat) :
    bitLength (m * 2 ^ k) = bitLength m + k := by
  have hpos := bitLength_pos h
  have hk : 0 < 2 ^ k := Nat.two_pow_pos k
  have := bitLength_eq (m := m * 2 ^ k) (k := bitLength m - 1 + k)
    (by rw [pow_add]; exact Nat.mul_le_mul_right _ (pow_bitLength_le h))
    (by
      rw [show bitLength m - 1 + k + 1 = bitLength m + k by omega, pow_add]
      exact Nat.mul_lt_mul_of_pos_right (lt_pow_bitLength m) hk)
  omega

/-- Digits that are all zero are shifted out without rounding. -/
theorem shiftRound_mul_pow (m k j : Nat) : shiftRound (m * 2 ^ k) (k + j) = shiftRound m j := by
  have hk : 0 < 2 ^ k := Nat.two_pow_pos k
  have hsplit : 2 ^ (k + j) = 2 ^ k * 2 ^ j := pow_add 2 k j
  have hdiv : m * 2 ^ k / 2 ^ (k + j) = m / 2 ^ j := by
    rw [hsplit, Nat.mul_comm m, Nat.mul_div_mul_left _ _ hk]
  have hmod : m * 2 ^ k % 2 ^ (k + j) = m % 2 ^ j * 2 ^ k := by
    rw [hsplit, Nat.mul_comm m, Nat.mul_mod_mul_left, Nat.mul_comm]
  have hlt : 2 * (m % 2 ^ j * 2 ^ k) < 2 ^ (k + j) ↔ 2 * (m % 2 ^ j) < 2 ^ j := by
    rw [hsplit, ← Nat.mul_assoc, Nat.mul_comm (2 * (m % 2 ^ j)), Nat.mul_lt_mul_left hk]
  have heq : 2 * (m % 2 ^ j * 2 ^ k) = 2 ^ (k + j) ↔ 2 * (m % 2 ^ j) = 2 ^ j := by
    rw [hsplit, ← Nat.mul_assoc, Nat.mul_comm (2 * (m % 2 ^ j)), Nat.mul_right_inj (by omega)]
  simp only [shiftRound, hdiv, hmod, hlt, heq]

theorem shiftRound_zero (m : Nat) : shiftRound m 0 = m := by
  simp [shiftRound, Nat.mod_one]

/-- The digits kept of `m · 2 ^ e` when the last one kept has exponent `q`. -/
def digitsAt (m : Nat) (e q : Int) : Nat :=
  if e ≤ q then shiftRound m (q - e).toNat else m * 2 ^ (e - q).toNat

theorem digitsAt_mul_pow (m k : Nat) (e q : Int) :
    digitsAt (m * 2 ^ k) (e - k) q = digitsAt m e q := by
  unfold digitsAt
  by_cases hle : e ≤ q
  · rw [if_pos (by omega), if_pos hle, show (q - (e - k)).toNat = k + (q - e).toNat by omega,
      shiftRound_mul_pow]
  · rw [if_neg hle]
    by_cases hshift : e - k ≤ q
    · have hk : m * 2 ^ k = m * 2 ^ (e - q).toNat * 2 ^ (q - (e - k)).toNat := by
        rw [Nat.mul_assoc, ← pow_add]
        congr 2
        omega
      have := shiftRound_mul_pow (m * 2 ^ (e - q).toNat) (q - (e - k)).toNat 0
      rw [if_pos hshift, hk]
      rwa [Nat.add_zero, shiftRound_zero] at this
    · rw [if_neg hshift, Nat.mul_assoc, ← pow_add]
      congr 2
      omega

theorem encodeMagnitude_eq (f : Format) {m : Nat} (h : m ≠ 0) (e : Int) :
    f.encodeMagnitude m e =
      let q := max (e + bitLength m - (f.fracBits + 1)) f.minExponent
      let n := digitsAt m e q
      min (if n < 2 ^ f.fracBits then n
        else (q - f.minExponent + 1).toNat * 2 ^ f.fracBits + (n - 2 ^ f.fracBits))
        (f.maxField * 2 ^ f.fracBits) := by
  rw [encodeMagnitude, if_neg h]
  rfl

/-- A pattern depends on the number and not on how it is split into digits and exponent. -/
theorem encodeMagnitude_mul_pow (f : Format) (m k : Nat) (e : Int) :
    f.encodeMagnitude (m * 2 ^ k) (e - k) = f.encodeMagnitude m e := by
  by_cases h : m = 0
  · simp [h, encodeMagnitude]
  have hk : m * 2 ^ k ≠ 0 := Nat.mul_ne_zero h (Nat.two_pow_pos k).ne'
  rw [encodeMagnitude_eq f hk, encodeMagnitude_eq f h, bitLength_mul_pow h,
    show e - k + (bitLength m + k : Nat) - (f.fracBits + 1) = e + bitLength m - (f.fracBits + 1) by
      push_cast
      omega]
  simp only [digitsAt_mul_pow]

/-- The pattern of a sign, an exponent field and a fraction. -/
def pattern (f : Format) (negative : Bool) (field frac : Nat) : Nat :=
  f.signBit negative + field * 2 ^ f.fracBits + frac

/-- Every pattern has a sign, an exponent field and a fraction. -/
theorem exists_pattern (f : Format) {bits : Nat} (h : bits < f.size) :
    ∃ negative field frac, field ≤ f.maxField ∧ frac < 2 ^ f.fracBits ∧
      bits = f.pattern negative field frac := by
  have hexp : 0 < 2 ^ f.expBits := Nat.two_pow_pos _
  have hfrac : 0 < 2 ^ f.fracBits := Nat.two_pow_pos _
  have hdiv : bits / 2 ^ f.fracBits / 2 ^ f.expBits < 2 := by
    rw [Nat.div_div_eq_div_mul, ← pow_add, Nat.div_lt_iff_lt_mul (Nat.two_pow_pos _), ← pow_succ']
    exact h
  have hsign : f.signBit (bits / 2 ^ f.fracBits / 2 ^ f.expBits == 1) =
      2 ^ f.expBits * 2 ^ f.fracBits * (bits / 2 ^ f.fracBits / 2 ^ f.expBits) := by
    rw [signBit, Nat.add_comm, pow_add]
    obtain h0 | h1 := Nat.le_one_iff_eq_zero_or_eq_one.mp (Nat.lt_succ_iff.mp hdiv)
    · simp [h0]
    · simp [h1]
  refine ⟨bits / 2 ^ f.fracBits / 2 ^ f.expBits == 1, bits / 2 ^ f.fracBits % 2 ^ f.expBits,
    bits % 2 ^ f.fracBits, ?_, Nat.mod_lt _ hfrac, ?_⟩
  · have := Nat.mod_lt (bits / 2 ^ f.fracBits) hexp
    rw [maxField]
    omega
  · have hhigh := Nat.div_add_mod (bits / 2 ^ f.fracBits) (2 ^ f.expBits)
    have hlow := Nat.div_add_mod bits (2 ^ f.fracBits)
    rw [pattern, hsign]
    calc bits = 2 ^ f.fracBits * (bits / 2 ^ f.fracBits) + bits % 2 ^ f.fracBits := hlow.symm
      _ = 2 ^ f.fracBits * (2 ^ f.expBits * (bits / 2 ^ f.fracBits / 2 ^ f.expBits) +
            bits / 2 ^ f.fracBits % 2 ^ f.expBits) + bits % 2 ^ f.fracBits := by rw [hhigh]
      _ = _ := by ring

/-- What the parts of a pattern stand for. -/
theorem decode_pattern (f : Format) (negative : Bool) {field frac : Nat}
    (hfield : field ≤ f.maxField) (hfrac : frac < 2 ^ f.fracBits) :
    f.decode (f.pattern negative field frac) =
      if field = f.maxField then if frac = 0 then .infinite negative else .nan negative frac
      else if field = 0 then .finite negative frac f.minExponent
      else .finite negative (2 ^ f.fracBits + frac) (f.minExponent + field - 1) := by
  have hexp : field < 2 ^ f.expBits := by
    have : 0 < 2 ^ f.expBits := Nat.two_pow_pos _
    rw [maxField] at hfield
    omega
  have hpos : 0 < 2 ^ f.fracBits := Nat.two_pow_pos _
  have hbits : f.pattern negative field frac =
      frac + 2 ^ f.fracBits * (field + 2 ^ f.expBits * (if negative then 1 else 0)) := by
    rw [pattern, signBit, pow_add]
    split <;> ring
  have hlow : f.pattern negative field frac % 2 ^ f.fracBits = frac := by
    rw [hbits, Nat.add_mul_mod_self_left, Nat.mod_eq_of_lt hfrac]
  have hhigh : f.pattern negative field frac / 2 ^ f.fracBits =
      field + 2 ^ f.expBits * (if negative then 1 else 0) := by
    rw [hbits, Nat.add_mul_div_left _ _ hpos, Nat.div_eq_of_lt hfrac, Nat.zero_add]
  have hmid : f.pattern negative field frac / 2 ^ f.fracBits % 2 ^ f.expBits = field := by
    rw [hhigh, Nat.add_mul_mod_self_left, Nat.mod_eq_of_lt hexp]
  have htop : f.pattern negative field frac / 2 ^ (f.fracBits + f.expBits) =
      if negative then 1 else 0 := by
    rw [pow_add, ← Nat.div_div_eq_div_mul, hhigh,
      Nat.add_mul_div_left _ _ (Nat.two_pow_pos _), Nat.div_eq_of_lt hexp, Nat.zero_add]
  have hneg : (f.pattern negative field frac / 2 ^ (f.fracBits + f.expBits) % 2 == 1) =
      negative := by
    rw [htop]
    cases negative <;> rfl
  simp only [decode, hneg, hmid, hlow]

/-- A number with few enough digits and a large enough exponent is a number of the format: its
pattern has as fraction the digits shifted up to full length. -/
theorem encodeMagnitude_normal (f : Format) {m : Nat} (hm : m ≠ 0) {e : Int}
    (hdigits : bitLength m ≤ f.fracBits + 1)
    (hmin : f.minExponent ≤ e + bitLength m - (f.fracBits + 1))
    (hmax : e + bitLength m - (f.fracBits + 1) - f.minExponent + 1 < f.maxField) :
    f.encodeMagnitude m e =
      (e + bitLength m - (f.fracBits + 1) - f.minExponent + 1).toNat * 2 ^ f.fracBits +
        (m * 2 ^ (f.fracBits + 1 - bitLength m) - 2 ^ f.fracBits) := by
  have hpos := bitLength_pos hm
  have hq : max (e + bitLength m - (f.fracBits + 1)) f.minExponent =
      e + bitLength m - (f.fracBits + 1) := max_eq_left hmin
  have hn : digitsAt m e (e + bitLength m - (f.fracBits + 1)) =
      m * 2 ^ (f.fracBits + 1 - bitLength m) := by
    rw [digitsAt]
    split
    · have hfull : f.fracBits + 1 = bitLength m := by omega
      rw [hfull, show (e + bitLength m - ((f.fracBits : Int) + 1) - e).toNat = 0 by omega,
        shiftRound_zero]
      simp
    · congr 2
      omega
  have hlo : 2 ^ f.fracBits ≤ m * 2 ^ (f.fracBits + 1 - bitLength m) := by
    calc 2 ^ f.fracBits = 2 ^ (bitLength m - 1) * 2 ^ (f.fracBits + 1 - bitLength m) := by
          rw [← pow_add]
          congr 1
          omega
      _ ≤ _ := Nat.mul_le_mul_right _ (pow_bitLength_le hm)
  have hhi : m * 2 ^ (f.fracBits + 1 - bitLength m) < 2 * 2 ^ f.fracBits := by
    calc m * 2 ^ (f.fracBits + 1 - bitLength m) <
          2 ^ bitLength m * 2 ^ (f.fracBits + 1 - bitLength m) :=
          Nat.mul_lt_mul_of_pos_right (lt_pow_bitLength m) (Nat.two_pow_pos _)
      _ = 2 * 2 ^ f.fracBits := by
          rw [← pow_add, ← pow_succ']
          congr 1
          omega
  rw [encodeMagnitude_eq f hm]
  simp only [hq, hn]
  rw [if_neg (by omega), min_eq_left]
  have hfield : (e + bitLength m - (f.fracBits + 1) - f.minExponent + 1).toNat + 1 ≤
      f.maxField := by omega
  calc _ ≤ ((e + bitLength m - (f.fracBits + 1) - f.minExponent + 1).toNat + 1) *
        2 ^ f.fracBits := by rw [Nat.add_mul]; omega
    _ ≤ _ := Nat.mul_le_mul_right _ hfield

/-- Writing what a pattern stands for gives the pattern, unless it is not a number. -/
theorem encode_decode (f : Format) {bits : Nat} (h : bits < f.size)
    (hnan : ∀ negative payload, f.decode bits ≠ .nan negative payload) :
    f.encode (f.decode bits) = bits := by
  obtain ⟨negative, field, frac, hfield, hfrac, rfl⟩ := f.exists_pattern h
  rw [decode_pattern f negative hfield hfrac] at hnan ⊢
  by_cases hmax : field = f.maxField
  · by_cases hzero : frac = 0
    · simp [hmax, hzero, encode, pattern]
    · exact absurd (by simp [hmax, hzero]) (hnan negative frac)
  rw [if_neg hmax]
  by_cases hsub : field = 0
  · rw [if_pos hsub, encode, pattern, hsub]
    by_cases hzero : frac = 0
    · simp [hzero, encodeMagnitude]
    · have hlen : bitLength frac ≤ f.fracBits := bitLength_le_iff.mpr hfrac
      have hq : max (f.minExponent + bitLength frac - (f.fracBits + 1)) f.minExponent =
          f.minExponent := max_eq_right (by omega)
      have hone : 1 * 2 ^ f.fracBits ≤ f.maxField * 2 ^ f.fracBits :=
        Nat.mul_le_mul_right _ (by omega)
      rw [encodeMagnitude_eq f hzero]
      simp only [hq, digitsAt, le_refl, if_true, Int.sub_self, Int.toNat_zero, shiftRound_zero]
      rw [if_pos hfrac, min_eq_left (by omega)]
      omega
  · have hlen : bitLength (2 ^ f.fracBits + frac) = f.fracBits + 1 :=
      bitLength_eq (by omega) (by rw [pow_succ]; omega)
    have hpos : 0 < 2 ^ f.fracBits := Nat.two_pow_pos _
    rw [if_neg hsub, encode, pattern, encodeMagnitude_normal f (by omega) (by omega)
      (by rw [hlen]; omega) (by rw [hlen]; omega), hlen]
    have hshift : (2 ^ f.fracBits + frac) * 2 ^ (f.fracBits + 1 - (f.fracBits + 1)) -
        2 ^ f.fracBits = frac := by simp
    rw [hshift, show (f.minExponent + field - 1 + (f.fracBits + 1 : Nat) -
      (f.fracBits + 1) - f.minExponent + 1).toNat = field by omega, Nat.add_assoc]

theorem pattern_lt_size (f : Format) (negative : Bool) {field frac : Nat}
    (hfield : field ≤ f.maxField) (hfrac : frac < 2 ^ f.fracBits) :
    f.pattern negative field frac < f.size := by
  have hexp : 0 < 2 ^ f.expBits := Nat.two_pow_pos _
  have hsign : f.signBit negative ≤ 2 ^ (f.fracBits + f.expBits) := by
    have := Nat.two_pow_pos (f.fracBits + f.expBits)
    rw [signBit]
    split <;> omega
  have hbody : field * 2 ^ f.fracBits + frac < 2 ^ (f.fracBits + f.expBits) := by
    calc field * 2 ^ f.fracBits + frac < (field + 1) * 2 ^ f.fracBits := by
          rw [Nat.add_mul]
          omega
      _ ≤ 2 ^ f.expBits * 2 ^ f.fracBits := by
          rw [maxField] at hfield
          exact Nat.mul_le_mul_right _ (by omega)
      _ = 2 ^ (f.fracBits + f.expBits) := by rw [Nat.add_comm f.fracBits, pow_add]
  rw [pattern, size, pow_succ]
  omega

theorem encode_zero (f : Format) (negative : Bool) (e : Int) :
    f.encode (.finite negative 0 e) = f.pattern negative 0 0 := by
  simp [encode, encodeMagnitude, pattern]

theorem encode_infinite (f : Format) (negative : Bool) :
    f.encode (.infinite negative) = f.pattern negative f.maxField 0 := by
  simp [encode, pattern]

/-- No number is written beyond the pattern of an infinity. -/
theorem encodeMagnitude_le (f : Format) (m : Nat) (e : Int) :
    f.encodeMagnitude m e ≤ f.maxField * 2 ^ f.fracBits := by
  rw [encodeMagnitude]
  split
  · omega
  · exact min_le_right _ _

theorem encode_finite_lt_size (f : Format) (negative : Bool) (m : Nat) (e : Int) :
    f.encode (.finite negative m e) < f.size := by
  have hpos : 0 < 2 ^ f.fracBits := Nat.two_pow_pos _
  have hle := f.encodeMagnitude_le m e
  have := f.pattern_lt_size negative (le_refl f.maxField) hpos
  rw [pattern] at this
  rw [encode]
  omega

/-- The fraction written for what is not a number: its quiet bit is set. -/
def quietFraction (f : Format) (payload : Nat) : Nat :=
  if payload % 2 ^ f.fracBits / f.quietBit % 2 = 1 then payload % 2 ^ f.fracBits
  else payload % 2 ^ f.fracBits + f.quietBit

theorem encode_nan (f : Format) (negative : Bool) (payload : Nat) :
    f.encode (.nan negative payload) = f.pattern negative f.maxField (f.quietFraction payload) :=
  rfl

theorem quietFraction_bounds {f : Format} (h : 0 < f.fracBits) (payload : Nat) :
    f.quietFraction payload ≠ 0 ∧ f.quietFraction payload < 2 ^ f.fracBits := by
  have hquiet : 0 < f.quietBit := Nat.two_pow_pos _
  have hdouble : 2 ^ f.fracBits = 2 * f.quietBit := by
    rw [quietBit, ← pow_succ']
    congr 1
    omega
  have hlt : payload % 2 ^ f.fracBits < 2 * f.quietBit := by
    rw [← hdouble]
    exact Nat.mod_lt _ (Nat.two_pow_pos _)
  rw [quietFraction, hdouble] at *
  generalize payload % (2 * f.quietBit) = frac at *
  split
  · rename_i hset
    refine ⟨?_, hlt⟩
    rintro rfl
    simp at hset
  · rename_i hset
    have hdiv : frac / f.quietBit < 2 := Nat.div_lt_of_lt_mul (by omega)
    obtain hzero | hone := Nat.le_one_iff_eq_zero_or_eq_one.mp (Nat.lt_succ_iff.mp hdiv)
    · have := (Nat.div_eq_zero_iff_lt hquiet).mp hzero
      omega
    · simp [hone] at hset

/-- What is written in a format is a pattern of it. -/
theorem encode_lt_size {f : Format} (h : 0 < f.fracBits) (x : Number) : f.encode x < f.size := by
  cases x with
  | finite negative m e => exact f.encode_finite_lt_size negative m e
  | infinite negative =>
      rw [encode_infinite]
      exact f.pattern_lt_size negative (le_refl _) (Nat.two_pow_pos _)
  | nan negative payload =>
      rw [encode_nan]
      exact f.pattern_lt_size negative (le_refl _) (quietFraction_bounds h payload).2

/-- What is not a number stays so when it is written in any format. -/
theorem decode_encode_nan {f : Format} (h : 0 < f.fracBits) (negative : Bool) (payload : Nat) :
    f.decode (f.encode (.nan negative payload)) = .nan negative (f.quietFraction payload) := by
  obtain ⟨hne, hlt⟩ := quietFraction_bounds h payload
  rw [encode_nan, decode_pattern f negative (le_refl _) hlt, if_pos rfl, if_neg hne]

theorem signBit_add_mod (f : Format) (negative : Bool) (n : Nat) :
    (f.signBit negative + n) % 2 ^ (f.fracBits + f.expBits) = n % 2 ^ (f.fracBits + f.expBits) := by
  cases negative with
  | false => exact congrArg (· % _) (Nat.zero_add n)
  | true => exact Nat.add_mod_left _ n

/-- A pattern is no number when, without its sign, it lies beyond that of an infinity. -/
theorem decode_eq_nan_iff (f : Format) {bits : Nat} (h : bits < f.size) :
    (∃ negative payload, f.decode bits = .nan negative payload) ↔
      f.maxField * 2 ^ f.fracBits < bits % 2 ^ (f.fracBits + f.expBits) := by
  obtain ⟨negative, field, frac, hfield, hfrac, rfl⟩ := f.exists_pattern h
  have hexp : 0 < 2 ^ f.expBits := Nat.two_pow_pos _
  have hmagnitude : field * 2 ^ f.fracBits + frac < 2 ^ (f.fracBits + f.expBits) := by
    calc field * 2 ^ f.fracBits + frac < (field + 1) * 2 ^ f.fracBits := by
            rw [Nat.add_mul, Nat.one_mul]
            omega
      _ ≤ 2 ^ f.expBits * 2 ^ f.fracBits := by
            apply Nat.mul_le_mul_right
            rw [maxField] at hfield
            omega
      _ = 2 ^ (f.fracBits + f.expBits) := by rw [← pow_add, Nat.add_comm]
  have hmod : f.pattern negative field frac % 2 ^ (f.fracBits + f.expBits) =
      field * 2 ^ f.fracBits + frac := by
    rw [pattern, Nat.add_assoc, signBit_add_mod, Nat.mod_eq_of_lt hmagnitude]
  rw [hmod, decode_pattern f negative hfield hfrac]
  constructor
  · rintro ⟨sign, payload, hnan⟩
    split at hnan
    case isTrue hmax =>
      split at hnan
      case isTrue => cases hnan
      case isFalse hne => rw [hmax]; omega
    case isFalse =>
      split at hnan
      · cases hnan
      · cases hnan
  · intro hlt
    by_cases hmax : field = f.maxField
    · rw [if_pos hmax, if_neg (by rw [hmax] at hlt; omega)]
      exact ⟨negative, frac, rfl⟩
    · have hless : (field + 1) * 2 ^ f.fracBits ≤ f.maxField * 2 ^ f.fracBits :=
        Nat.mul_le_mul_right _ (by omega)
      rw [Nat.add_mul, Nat.one_mul] at hless
      omega

/-- Only what is not a number is written as what is not a number. -/
theorem decode_encode_eq_nan_iff {f : Format} (h : 0 < f.fracBits) (x : Number) :
    (∃ negative payload, f.decode (f.encode x) = .nan negative payload) ↔
      ∃ negative payload, x = .nan negative payload := by
  cases x with
  | nan negative payload =>
      exact ⟨fun _ => ⟨_, _, rfl⟩, fun _ => ⟨_, _, decode_encode_nan h negative payload⟩⟩
  | finite negative m e =>
      have hle := (Nat.mod_le _ (2 ^ (f.fracBits + f.expBits))).trans (f.encodeMagnitude_le m e)
      rw [f.decode_eq_nan_iff (encode_lt_size h _), encode, signBit_add_mod]
      simpa using hle
  | infinite negative =>
      have hle := Nat.mod_le (f.maxField * 2 ^ f.fracBits) (2 ^ (f.fracBits + f.expBits))
      rw [f.decode_eq_nan_iff (encode_lt_size h _), encode, signBit_add_mod]
      simpa using hle

end Format

namespace Ieee

open Format

theorem decode_single_finite {bits : Nat} (h : bits < single.size) {negative : Bool} {m : Nat}
    {e : Int} (hdec : single.decode bits = .finite negative m e) :
    m < 2 ^ 24 ∧ -149 ≤ e ∧ e ≤ 104 := by
  obtain ⟨sign, field, frac, hfield, hfrac, rfl⟩ := single.exists_pattern h
  have hmax : single.maxField = 255 := rfl
  have hmin : single.minExponent = -149 := rfl
  have hbits : single.fracBits = 23 := rfl
  rw [decode_pattern single sign hfield hfrac, hmax, hmin, hbits] at hdec
  rw [hbits] at hfrac
  rw [hmax] at hfield
  split at hdec
  · split at hdec <;> simp at hdec
  split at hdec
  · simp only [Number.finite.injEq] at hdec
    omega
  · simp only [Number.finite.injEq] at hdec
    omega

/-- The double of a single that is a number other than zero has the digits of the single, shifted. -/
theorem decode_encode_double {m : Nat} {e : Int} (negative : Bool) (hm : m ≠ 0)
    (hdigits : m < 2 ^ 24) (hlo : -149 ≤ e) (hhi : e ≤ 104) :
    ∃ k : Nat, double.decode (double.encode (.finite negative m e)) =
      .finite negative (m * 2 ^ k) (e - k) := by
  have hmax : double.maxField = 2047 := rfl
  have hmin : double.minExponent = -1074 := rfl
  have hbits : double.fracBits = 52 := rfl
  have hlen : bitLength m ≤ 24 := bitLength_le_iff.mpr hdigits
  have hpos := bitLength_pos hm
  have hshift : 2 ^ 52 ≤ m * 2 ^ (53 - bitLength m) ∧ m * 2 ^ (53 - bitLength m) < 2 ^ 53 := by
    constructor
    · calc 2 ^ 52 = 2 ^ (bitLength m - 1) * 2 ^ (53 - bitLength m) := by
            rw [← pow_add]
            congr 1
            omega
        _ ≤ _ := Nat.mul_le_mul_right _ (pow_bitLength_le hm)
    · calc m * 2 ^ (53 - bitLength m) < 2 ^ bitLength m * 2 ^ (53 - bitLength m) :=
            Nat.mul_lt_mul_of_pos_right (lt_pow_bitLength m) (Nat.two_pow_pos _)
        _ = 2 ^ 53 := by
            rw [← pow_add]
            congr 1
            omega
  have hpattern : double.encode (.finite negative m e) =
      double.pattern negative (e + bitLength m + 1022).toNat
        (m * 2 ^ (53 - bitLength m) - 2 ^ 52) := by
    rw [encode, encodeMagnitude_normal double hm (by omega) (by omega) (by omega), pattern, hmin,
      hbits, show e + bitLength m - ((52 : Nat) + 1) - -1074 + 1 = e + bitLength m + 1022 by omega,
      Nat.add_assoc]
  refine ⟨53 - bitLength m, ?_⟩
  rw [hpattern, decode_pattern double negative (by omega) (by rw [hbits]; omega),
    if_neg (by omega), if_neg (by omega), hbits, hmin,
    show 2 ^ 52 + (m * 2 ^ (53 - bitLength m) - 2 ^ 52) = m * 2 ^ (53 - bitLength m) by omega,
    show -1074 + ((e + bitLength m + 1022).toNat : Int) - 1 = e - (53 - bitLength m : Nat) by omega]

theorem decode_encode_double_zero (negative : Bool) (e : Int) :
    double.decode (double.encode (.finite negative 0 e)) =
      .finite negative 0 double.minExponent := by
  have hmax : double.maxField = 2047 := rfl
  rw [encode_zero, decode_pattern double negative (by omega) (Nat.two_pow_pos _),
    if_neg (by omega), if_pos rfl]

theorem decode_encode_double_infinite (negative : Bool) :
    double.decode (double.encode (.infinite negative)) = .infinite negative := by
  rw [encode_infinite, decode_pattern double negative (le_refl _) (Nat.two_pow_pos _),
    if_pos rfl, if_pos rfl]

/-- Narrowing undoes widening. -/
theorem convert_convert {bits : Nat} (h : bits < single.size)
    (hnan : ∀ negative payload, single.decode bits ≠ .nan negative payload) :
    convert double single (convert single double bits) = bits := by
  have hback := single.encode_decode h hnan
  cases hdec : single.decode bits with
  | nan negative payload => exact absurd hdec (hnan negative payload)
  | infinite negative =>
      rw [hdec] at hback
      simp only [convert, hdec, decode_encode_double_infinite, hback]
  | finite negative m e =>
      rw [hdec] at hback
      by_cases hm : m = 0
      · subst hm
        rw [encode_zero] at hback
        simp only [convert, hdec, decode_encode_double_zero, encode_zero single, hback]
      · obtain ⟨hdigits, hlo, hhi⟩ := decode_single_finite h hdec
        obtain ⟨k, hk⟩ := decode_encode_double negative hm hdigits hlo hhi
        rw [encode] at hback
        simp only [convert, hdec, hk]
        rw [encode, encodeMagnitude_mul_pow, hback]

theorem isNaN_iff (bits : UInt64) :
    isNaN bits = true ↔ ∃ negative payload, double.decode bits.toNat = .nan negative payload := by
  have hand : bits.toNat &&& (0x7FFFFFFFFFFFFFFF : UInt64).toNat = bits.toNat % 2 ^ 63 :=
    Nat.and_two_pow_sub_one_eq_mod _ 63
  have hnan := double.decode_eq_nan_iff (show bits.toNat < double.size from bits.toNat_lt)
  rw [hnan, isNaN, decide_eq_true_eq, gt_iff_lt, UInt64.lt_iff_toNat_lt, UInt64.toNat_and,
    hand]
  rfl

theorem isNaN32_iff (bits : UInt32) :
    isNaN32 bits = true ↔ ∃ negative payload, single.decode bits.toNat = .nan negative payload := by
  have hand : bits.toNat &&& (0x7FFFFFFF : UInt32).toNat = bits.toNat % 2 ^ 31 :=
    Nat.and_two_pow_sub_one_eq_mod _ 31
  have hnan := single.decode_eq_nan_iff (show bits.toNat < single.size from bits.toNat_lt)
  rw [hnan, isNaN32, decide_eq_true_eq, gt_iff_lt, UInt32.lt_iff_toNat_lt, UInt32.toNat_and,
    hand]
  rfl

theorem isZero_of_isNaN {bits : UInt64} (h : isNaN bits) : isZero bits = false := by
  rw [isNaN, decide_eq_true_eq] at h
  rw [isZero, beq_eq_false_iff_ne]
  intro hzero
  rw [hzero] at h
  exact absurd h (by decide)

theorem isZero_iff (bits : UInt64) : isZero bits ↔ bits = 0 ∨ bits = 0x8000000000000000 := by
  constructor
  · intro h
    rw [isZero, beq_iff_eq] at h
    have hand : bits.toNat &&& (0x7FFFFFFFFFFFFFFF : UInt64).toNat = bits.toNat % 2 ^ 63 :=
      Nat.and_two_pow_sub_one_eq_mod _ 63
    have hmod : bits.toNat % 2 ^ 63 = 0 := by rw [← hand, ← UInt64.toNat_and, h]; rfl
    have hlt := bits.toNat_lt
    rcases Nat.lt_or_ge bits.toNat (2 ^ 63) with hlow | hhigh
    · left
      apply UInt64.toNat_inj.mp
      rw [UInt64.toNat_zero]
      omega
    · right
      apply UInt64.toNat_inj.mp
      change bits.toNat = 2 ^ 63
      omega
  · rintro (rfl | rfl)
    · decide
    · decide

/-- Whether two doubles are the same number, all that is not a number counting as one. -/
def sameNumber (a b : UInt64) : Prop := a = b ∨ isNaN a ∧ isNaN b

theorem convert_lt_size {source : Format} (target : Format) (h : 0 < target.fracBits) (bits : Nat) :
    convert source target bits < target.size := by
  rw [convert]
  split <;> exact encode_lt_size h _

theorem toNat_widen (v : UInt32) : (widen v).toNat = convert single double v.toNat :=
  UInt64.toNat_ofNat_of_lt' (convert_lt_size double (by decide) _)

theorem toNat_narrow (bits : UInt64) : (narrow bits).toNat = convert double single bits.toNat :=
  UInt32.toNat_ofNat_of_lt' (convert_lt_size single (by decide) _)

/-- Converting gives what is not a number just when it was given that. -/
theorem decode_convert_eq_nan_iff (source : Format) {target : Format} (h : 0 < target.fracBits)
    (bits : Nat) :
    (∃ negative payload, target.decode (convert source target bits) = .nan negative payload) ↔
      ∃ negative payload, source.decode bits = .nan negative payload := by
  rw [convert]
  split
  case h_1 negative payload hdec =>
    rw [decode_encode_eq_nan_iff h, hdec]
    exact ⟨fun _ => ⟨_, _, rfl⟩, fun _ => ⟨_, _, rfl⟩⟩
  case h_2 => exact decode_encode_eq_nan_iff h _

@[simp] theorem isNaN_widen (v : UInt32) : isNaN (widen v) = isNaN32 v := by
  rw [Bool.eq_iff_iff, isNaN_iff, isNaN32_iff, toNat_widen]
  exact decode_convert_eq_nan_iff single (by decide) _

@[simp] theorem isNaN32_narrow (bits : UInt64) : isNaN32 (narrow bits) = isNaN bits := by
  rw [Bool.eq_iff_iff, isNaN_iff, isNaN32_iff, toNat_narrow]
  exact decode_convert_eq_nan_iff double (by decide) _

/-- A single that is a number survives the longer format. -/
theorem narrow_widen {v : UInt32} (h : ¬isNaN32 v) : narrow (widen v) = v := by
  have hv : ∀ negative payload, single.decode v.toNat ≠ .nan negative payload :=
    fun negative payload hdec => h ((isNaN32_iff v).mpr ⟨negative, payload, hdec⟩)
  apply UInt32.toNat_inj.mp
  rw [toNat_narrow, toNat_widen, convert_convert v.toNat_lt hv]

/-- A constant that a single can hold, or that is not a number, survives the shorter format. -/
theorem widen_narrow {bits : UInt64} (h : isNaN bits ∨ ∃ v, bits = widen v) :
    sameNumber (widen (narrow bits)) bits := by
  by_cases hnan : isNaN bits
  · exact Or.inr ⟨by simpa using hnan, hnan⟩
  · obtain ⟨v, rfl⟩ := h.resolve_left hnan
    rw [isNaN_widen] at hnan
    exact Or.inl (by rw [narrow_widen hnan])

end Ieee

end ClassEngine
