import Mathlib.Data.Int.Bitwise
import Mathlib.Data.Int.ModEq
import ClassEngine.Engine.Instruction.Arithmetic

/-!
The integer operators on words against arithmetic on whole numbers. A word of `w` bits stands for a number,
negative ones included; an operator gives the word that stands for its exact result, as far as that can be
told by `w` bits. Main results: `IntOp.onInt_word`, `IntOp.onLong_word`, `IntOp.shiftLong_word` and
`IntOp.isDivision_word`.
-/

namespace ClassEngine

namespace IntOp

/-- The exact result of an operator on the numbers that words of `w` bits stand for. Quotients are cut off
toward zero, and a remainder is what is then missing; a shift goes as far as its distance says modulo the
width, and the logical one to the right moves the word read without a sign. -/
def exact (w : Nat) (op : IntOp) (a b : Int) : Int :=
  match op with
  | add => a + b
  | sub => a - b
  | mul => a * b
  | div => a.tdiv b
  | rem => a.tmod b
  | shl => a * 2 ^ (b % w).toNat
  | shr => a / 2 ^ (b % w).toNat
  | ushr => a % 2 ^ w / 2 ^ (b % w).toNat
  | and => a.land b
  | or => a.lor b
  | xor => a.xor b

/-- The number of the word that stands for the exact result. -/
def word (w : Nat) (op : IntOp) (a b : Int) : Int :=
  (op.exact w a b).bmod (2 ^ w)

/-- Whether the operator has no result for a zero divisor. -/
def divides : IntOp → Bool
  | div | rem => true
  | _ => false

end IntOp

section Bits

variable {w : Nat}

theorem getLsbD_ofInt (n : Int) (i : Nat) :
    (BitVec.ofInt w n).getLsbD i = (decide (i < w) && n.testBit i) := by
  cases n with
  | ofNat n =>
      change (BitVec.ofInt w (n : Int)).getLsbD i = _
      rw [BitVec.ofInt_natCast, BitVec.getLsbD_ofNat]
      rfl
  | negSucc n =>
      rw [BitVec.ofInt_negSucc_eq_not_ofNat, BitVec.getLsbD_not, BitVec.getLsbD_ofNat]
      cases decide (i < w) <;> rfl

/-- An operator that works bit by bit. -/
theorem toInt_bitwise {op : BitVec w → BitVec w → BitVec w} {exact : Int → Int → Int}
    {f : Bool → Bool → Bool}
    (hop : ∀ x y i, (op x y).getLsbD i = f (x.getLsbD i) (y.getLsbD i))
    (hexact : ∀ a b i, (exact a b).testBit i = f (a.testBit i) (b.testBit i)) (x y : BitVec w) :
    (op x y).toInt = (exact x.toInt y.toInt).bmod (2 ^ w) := by
  have hbit : ∀ (z : BitVec w) (i : Nat), i < w → z.getLsbD i = z.toInt.testBit i := fun z i hi => by
    conv_lhs => rw [← BitVec.ofInt_toInt (x := z)]
    rw [getLsbD_ofInt, decide_eq_true hi, Bool.true_and]
  have hword : op x y = BitVec.ofInt w (exact x.toInt y.toInt) := by
    refine BitVec.eq_of_getLsbD_eq fun i hi => ?_
    rw [hop, getLsbD_ofInt, hexact, hbit x i hi, hbit y i hi, decide_eq_true hi, Bool.true_and]
  rw [hword, BitVec.toInt_ofInt]

theorem toInt_shiftLeft (x : BitVec w) (s : Nat) :
    (x <<< s).toInt = (x.toInt * 2 ^ s).bmod (2 ^ w) := by
  have hpower : BitVec.twoPow w s = BitVec.ofInt w (2 ^ s) := by
    apply BitVec.eq_of_toNat_eq
    rw [BitVec.toNat_twoPow, BitVec.toNat_ofInt]
    norm_cast
  rw [BitVec.shiftLeft_eq_mul_twoPow, BitVec.toInt_mul, hpower, BitVec.toInt_ofInt, Int.mul_bmod_bmod]

theorem toInt_sshiftRight (x : BitVec w) (s : Nat) :
    (x.sshiftRight s).toInt = (x.toInt / 2 ^ s).bmod (2 ^ w) := by
  have hexact : (x.sshiftRight s).toInt = x.toInt / 2 ^ s := by
    rw [BitVec.toInt_sshiftRight, Int.shiftRight_eq_div_pow]
    norm_cast
  rw [← hexact, BitVec.toInt_bmod_cancel]

theorem toInt_emod_size (x : BitVec w) : x.toInt % 2 ^ w = x.toNat := by
  have hsize : (2 : Int) ^ w = (2 ^ w : Nat) := by norm_cast
  rw [BitVec.toInt_eq_toNat_bmod, hsize, Int.bmod_emod, ← Int.natCast_emod, Nat.mod_eq_of_lt x.isLt]

theorem toInt_ushiftRight (x : BitVec w) (s : Nat) :
    (x >>> s).toInt = (x.toInt % 2 ^ w / 2 ^ s).bmod (2 ^ w) := by
  rw [toInt_emod_size, BitVec.toInt_eq_toNat_bmod, BitVec.toNat_ushiftRight, Nat.shiftRight_eq_div_pow]
  norm_cast

/-- The low bits of a word are its number modulo a power of two. -/
theorem toNat_and_mask (x : BitVec w) {k : Nat} (hk : k ≤ w) :
    (x &&& BitVec.ofNat w (2 ^ k - 1)).toNat = (x.toInt % (2 ^ k : Nat)).toNat := by
  have hle : 2 ^ k ≤ 2 ^ w := Nat.pow_le_pow_right (by decide) hk
  have hpos : 0 < 2 ^ k := Nat.two_pow_pos k
  have hdvd : ((2 ^ k : Nat) : Int) ∣ (2 ^ w : Nat) := Int.natCast_dvd_natCast.mpr (Nat.pow_dvd_pow 2 hk)
  have hlow : x.toInt % (2 ^ k : Nat) = x.toNat % (2 ^ k : Nat) := by
    rw [BitVec.toInt_eq_toNat_bmod, ← Int.emod_emod_of_dvd _ hdvd, Int.bmod_emod,
      Int.emod_emod_of_dvd _ hdvd]
  rw [BitVec.toNat_and, BitVec.toNat_ofNat, Nat.mod_eq_of_lt (by omega), Nat.and_two_pow_sub_one_eq_mod,
    hlow]
  norm_cast

/-- Both words are small enough to be read without a sign. -/
theorem smod_of_lt {x y : BitVec w} (hlt : x.toNat < y.toNat) (hsmall : 2 * y.toNat < 2 ^ w) :
    x.smod y = x := by
  have hnonneg : ∀ z : BitVec w, 2 * z.toNat < 2 ^ w → z.msb = false := fun z hz => by
    rw [BitVec.msb_eq_false_iff_two_mul_lt]
    exact hz
  apply BitVec.eq_of_toNat_eq
  rw [BitVec.toNat_smod, hnonneg x (by omega), hnonneg y hsmall]
  exact Nat.mod_eq_of_lt hlt

end Bits

section Distances

/-- How far a shift of an int goes. -/
theorem distance_int (b : Int32) : (b &&& 31).toBitVec.toNat = (b.toInt % 32).toNat :=
  toNat_and_mask (k := 5) b.toBitVec (by decide)

theorem distance_int_lt (b : Int32) : (b &&& 31).toBitVec.toNat < (32 : BitVec 32).toNat := by
  rw [distance_int]
  change _ < 32
  omega

/-- How far a shift of a long goes. -/
theorem distance_long (b : Int32) : (b &&& 63).toInt64.toBitVec.toNat = (b.toInt % 64).toNat := by
  have hmask : (b &&& 63).toBitVec.toNat = (b.toInt % 64).toNat :=
    toNat_and_mask (k := 6) b.toBitVec (by decide)
  have hnonneg : (b &&& 63).toBitVec.msb = false := by
    rw [BitVec.msb_eq_false_iff_two_mul_lt]
    omega
  rw [Int32.toBitVec_toInt64, BitVec.signExtend_eq_setWidth_of_msb_false hnonneg, BitVec.toNat_setWidth,
    hmask]
  omega

theorem distance_long_lt (b : Int32) :
    (b &&& 63).toInt64.toBitVec.toNat < (64 : BitVec 64).toNat := by
  rw [distance_long]
  change _ < 64
  omega

theorem toInt_shl_int (a b : Int32) :
    (a <<< (b &&& 31)).toInt = IntOp.shl.word 32 a.toInt b.toInt := by
  rw [← Int32.toInt_toBitVec, Int32.toBitVec_shiftLeft, smod_of_lt (distance_int_lt b) (by decide),
    BitVec.shiftLeft_eq', toInt_shiftLeft, distance_int]
  rfl

theorem toInt_shr_int (a b : Int32) :
    (a >>> (b &&& 31)).toInt = IntOp.shr.word 32 a.toInt b.toInt := by
  rw [← Int32.toInt_toBitVec, Int32.toBitVec_shiftRight, smod_of_lt (distance_int_lt b) (by decide),
    BitVec.sshiftRight_eq', toInt_sshiftRight, distance_int]
  rfl

theorem toInt_ushr_int (a b : Int32) :
    (a.toUInt32 >>> (b &&& 31).toUInt32).toInt32.toInt = IntOp.ushr.word 32 a.toInt b.toInt := by
  rw [← Int32.toInt_toBitVec, UInt32.toBitVec_toInt32, UInt32.toBitVec_shiftRight,
    Int32.toBitVec_toUInt32, Int32.toBitVec_toUInt32, BitVec.ushiftRight_eq', BitVec.toNat_umod,
    Nat.mod_eq_of_lt (distance_int_lt b), toInt_ushiftRight, distance_int]
  rfl

theorem toInt_shl_long (a : Int64) (b : Int32) :
    (a <<< (b &&& 63).toInt64).toInt = IntOp.shl.word 64 a.toInt b.toInt := by
  rw [← Int64.toInt_toBitVec, Int64.toBitVec_shiftLeft, smod_of_lt (distance_long_lt b) (by decide),
    BitVec.shiftLeft_eq', toInt_shiftLeft, distance_long]
  rfl

theorem toInt_shr_long (a : Int64) (b : Int32) :
    (a >>> (b &&& 63).toInt64).toInt = IntOp.shr.word 64 a.toInt b.toInt := by
  rw [← Int64.toInt_toBitVec, Int64.toBitVec_shiftRight, smod_of_lt (distance_long_lt b) (by decide),
    BitVec.sshiftRight_eq', toInt_sshiftRight, distance_long]
  rfl

theorem toInt_ushr_long (a : Int64) (b : Int32) :
    (a.toUInt64 >>> (b &&& 63).toInt64.toUInt64).toInt64.toInt =
      IntOp.ushr.word 64 a.toInt b.toInt := by
  rw [← Int64.toInt_toBitVec, UInt64.toBitVec_toInt64, UInt64.toBitVec_shiftRight,
    Int64.toBitVec_toUInt64, Int64.toBitVec_toUInt64, BitVec.ushiftRight_eq', BitVec.toNat_umod,
    Nat.mod_eq_of_lt (distance_long_lt b), toInt_ushiftRight, distance_long]
  rfl

end Distances

namespace IntOp

theorem toInt_rem_int (a b : Int32) : (a % b).toInt = rem.word 32 a.toInt b.toInt := by
  rw [word, exact, ← Int32.toInt_mod, ← Int32.toInt_toBitVec, BitVec.toInt_bmod_cancel]

theorem toInt_rem_long (a b : Int64) : (a % b).toInt = rem.word 64 a.toInt b.toInt := by
  rw [word, exact, ← Int64.toInt_mod, ← Int64.toInt_toBitVec, BitVec.toInt_bmod_cancel]

/-- On ints an operator that divides has no result for zero, and every other result is the word of the
exact one. -/
theorem onInt_word (op : IntOp) (a b : Int32) :
    (op.divides = true ∧ b = 0 → op.onInt a b = none) ∧
      (¬ (op.divides = true ∧ b = 0) →
        ∃ r, op.onInt a b = some r ∧ r.toInt = op.word 32 a.toInt b.toInt) := by
  refine ⟨fun ⟨hdivides, hb⟩ => ?_, fun h => ?_⟩
  · cases op <;> first | contradiction | exact if_pos hb
  · cases op with
    | add => exact ⟨_, rfl, Int32.toInt_add a b⟩
    | sub => exact ⟨_, rfl, Int32.toInt_sub a b⟩
    | mul => exact ⟨_, rfl, Int32.toInt_mul a b⟩
    | div => exact ⟨_, if_neg fun hb => h ⟨rfl, hb⟩, Int32.toInt_div a b⟩
    | rem => exact ⟨_, if_neg fun hb => h ⟨rfl, hb⟩, toInt_rem_int a b⟩
    | shl => exact ⟨_, rfl, toInt_shl_int a b⟩
    | shr => exact ⟨_, rfl, toInt_shr_int a b⟩
    | ushr => exact ⟨_, rfl, toInt_ushr_int a b⟩
    | and => exact ⟨_, rfl, toInt_bitwise (fun _ _ _ => BitVec.getLsbD_and) Int.testBit_land _ _⟩
    | or => exact ⟨_, rfl, toInt_bitwise (fun _ _ _ => BitVec.getLsbD_or) Int.testBit_lor _ _⟩
    | xor => exact ⟨_, rfl, toInt_bitwise (fun _ _ _ => BitVec.getLsbD_xor) Int.testBit_lxor _ _⟩

/-- On longs an operator that divides has no result for zero, and every other result is the word of the
exact one. -/
theorem onLong_word {op : IntOp} (hshift : op.isShift = false) (a b : Int64) :
    (op.divides = true ∧ b = 0 → op.onLong a b = none) ∧
      (¬ (op.divides = true ∧ b = 0) →
        ∃ r, op.onLong a b = some r ∧ r.toInt = op.word 64 a.toInt b.toInt) := by
  refine ⟨fun ⟨hdivides, hb⟩ => ?_, fun h => ?_⟩
  · cases op <;> first | contradiction | exact if_pos hb
  · cases op with
    | add => exact ⟨_, rfl, Int64.toInt_add a b⟩
    | sub => exact ⟨_, rfl, Int64.toInt_sub a b⟩
    | mul => exact ⟨_, rfl, Int64.toInt_mul a b⟩
    | div => exact ⟨_, if_neg fun hb => h ⟨rfl, hb⟩, Int64.toInt_div a b⟩
    | rem => exact ⟨_, if_neg fun hb => h ⟨rfl, hb⟩, toInt_rem_long a b⟩
    | shl | shr | ushr => contradiction
    | and => exact ⟨_, rfl, toInt_bitwise (fun _ _ _ => BitVec.getLsbD_and) Int.testBit_land _ _⟩
    | or => exact ⟨_, rfl, toInt_bitwise (fun _ _ _ => BitVec.getLsbD_or) Int.testBit_lor _ _⟩
    | xor => exact ⟨_, rfl, toInt_bitwise (fun _ _ _ => BitVec.getLsbD_xor) Int.testBit_lxor _ _⟩

/-- A long is shifted by an int. -/
theorem shiftLong_word {op : IntOp} (hshift : op.isShift = true) (a : Int64) (distance : Int32) :
    (op.shiftLong a distance).toInt = op.word 64 a.toInt distance.toInt := by
  cases op with
  | shl => exact toInt_shl_long a distance
  | shr => exact toInt_shr_long a distance
  | ushr => exact toInt_ushr_long a distance
  | add | sub | mul | div | rem | and | or | xor => contradiction

/-- A quotient and a remainder of words fit their dividend and their divisor. -/
structure IsDivision (w : Nat) (a b q r : Int) : Prop where
  small : |r| < |b|
  signed : r = 0 ∨ r.sign = a.sign
  total : q * b + r ≡ a [ZMOD 2 ^ w]

theorem abs_tmod_lt (a : Int) {b : Int} (hb : b ≠ 0) : |a.tmod b| < |b| := by
  have hlt : a.natAbs % b.natAbs < b.natAbs := Nat.mod_lt _ (Int.natAbs_pos.mpr hb)
  rw [Int.abs_eq_natAbs, Int.abs_eq_natAbs, Int.natAbs_tmod]
  exact_mod_cast hlt

variable {w : Nat} {a b : Int}

/-- A divisor that is a word leaves a remainder that is one. -/
theorem word_rem (hb : b ≠ 0) (hword : 2 * |b| ≤ 2 ^ w) : rem.word w a b = a.tmod b := by
  have hsmall := abs_lt.mp (abs_tmod_lt a hb)
  have hsize : ((2 ^ w : Nat) : Int) = 2 ^ w := by norm_cast
  rw [word, exact]
  exact Int.bmod_eq_of_le_mul_two (by omega) (by omega)

theorem isDivision_word (hb : b ≠ 0) (hword : 2 * |b| ≤ 2 ^ w) :
    IsDivision w a b (div.word w a b) (rem.word w a b) where
  small := by
    rw [word_rem hb hword]
    exact abs_tmod_lt a hb
  signed := by
    rw [word_rem hb hword, Int.sign_tmod]
    by_cases hdvd : b ∣ a
    · exact .inl (Int.tmod_eq_zero_of_dvd hdvd)
    · exact .inr (if_neg hdvd)
  total := by
    have hquotient : div.word w a b ≡ a.tdiv b [ZMOD 2 ^ w] := by
      have hsize : (2 : Int) ^ w = (2 ^ w : Nat) := by norm_cast
      rw [hsize]
      exact Int.bmod_emod
    rw [word_rem hb hword]
    calc div.word w a b * b + a.tmod b
        ≡ a.tdiv b * b + a.tmod b [ZMOD 2 ^ w] := (hquotient.mul_right b).add_right _
      _ = a := Int.tdiv_mul_add_tmod a b

end IntOp

end ClassEngine
