import ClassEngine.Proofs.Assembly.Pools
import ClassEngine.Proofs.Numeric.Widening

/-!
What stands in the pool at the index that was given for a constant. It is the constant itself, with
one exception: numbers are found under what they equal as numbers, so a zero for which the pool has
the zero of the other sign gets the entry of that one.

Main result: `InUse.interned`.
-/

namespace ClassEngine

/-- The zero of the other sign. -/
def Constant.oppositeZero? : Constant → Option Constant
  | .float bits => if Ieee.isZero bits then some (.float (bits ^^^ 0x8000000000000000)) else none
  | .double bits => if Ieee.isZero bits then some (.double (bits ^^^ 0x8000000000000000)) else none
  | _ => none

namespace Constant

variable {k k' key : Constant}

theorem internKey?_opposite (h : k.oppositeZero? = some k') :
    k' ≠ k ∧ k' ≠ .blank ∧ k'.internKey? = k.internKey? ∧ ∃ key, k.internKey? = some key := by
  cases k with
  | float bits | double bits =>
      simp only [oppositeZero?] at h
      split at h
      case isTrue hzero =>
        obtain rfl := Option.some.inj h
        obtain rfl | rfl := (Ieee.isZero_iff bits).mp hzero <;>
          exact ⟨by decide, nofun, rfl, _, rfl⟩
      case isFalse => contradiction
  | _ => contradiction

/-- Two doubles that are found under one key are the same, or the two zeros. -/
theorem sameKey_bits {bits bits' : UInt64}
    (h : (if Ieee.isZero bits then 0 else bits) = if Ieee.isZero bits' then 0 else bits') :
    bits' = bits ∨ Ieee.isZero bits ∧ bits' = bits ^^^ 0x8000000000000000 := by
  have hnull : ∀ b, Ieee.isZero b = false → b ≠ 0 := by
    rintro _ hb rfl
    exact absurd hb (by decide)
  cases hzero : Ieee.isZero bits with
  | false =>
      cases hzero' : Ieee.isZero bits' with
      | false =>
          rw [hzero, hzero'] at h
          exact .inl h.symm
      | true =>
          rw [hzero, hzero'] at h
          exact absurd h (hnull bits hzero)
  | true =>
      cases hzero' : Ieee.isZero bits' with
      | false =>
          rw [hzero, hzero'] at h
          exact absurd h.symm (hnull bits' hzero')
      | true =>
          obtain rfl | rfl := (Ieee.isZero_iff bits).mp hzero <;>
            obtain rfl | rfl := (Ieee.isZero_iff bits').mp hzero' <;> decide

theorem internKey?_float {bits : UInt64} (h : (Constant.float bits).internKey? = some key) :
    key = .float (if Ieee.isZero bits then 0 else bits) := by
  rw [internKey?] at h
  split at h
  · contradiction
  · exact (Option.some.inj h).symm

theorem internKey?_double {bits : UInt64} (h : (Constant.double bits).internKey? = some key) :
    key = .double (if Ieee.isZero bits then 0 else bits) := by
  rw [internKey?] at h
  split at h
  · contradiction
  · exact (Option.some.inj h).symm

/-- Constants that are found under one key are the same, or the two zeros of one kind. -/
theorem eq_or_opposite (hblank : k ≠ .blank) (hk : k.internKey? = some key)
    (hk' : k'.internKey? = some key) : k' = k ∨ k.oppositeZero? = some k' := by
  cases k with
  | blank => contradiction
  | float bits =>
      obtain rfl := internKey?_float hk
      cases k' with
      | float bits' =>
          obtain rfl | ⟨hzero, rfl⟩ := sameKey_bits (Constant.float.inj (internKey?_float hk'))
          · exact .inl rfl
          · exact .inr (if_pos hzero)
      | double bits' => exact absurd (internKey?_double hk') nofun
      | _ => exact absurd (Option.some.inj hk') nofun
  | double bits =>
      obtain rfl := internKey?_double hk
      cases k' with
      | float bits' => exact absurd (internKey?_float hk') nofun
      | double bits' =>
          obtain rfl | ⟨hzero, rfl⟩ := sameKey_bits (Constant.double.inj (internKey?_double hk'))
          · exact .inl rfl
          · exact .inr (if_pos hzero)
      | _ => exact absurd (Option.some.inj hk') nofun
  | _ =>
      obtain rfl := Option.some.inj hk
      exact .inl (Builder.internKey?_eq hk' trivial)

end Constant

namespace Builder

/-- What a constant is interned as: itself, unless the pool has the zero of the other sign. -/
def standIn (b : Builder) (k : Constant) : Constant :=
  match k.oppositeZero? with
  | some z => if z ∈ b.file.pool then z else k
  | none => k

section StandIn

variable {b : Builder} {k z key : Constant} {i : UInt16}

theorem standIn_eq (h : ∀ z, k.oppositeZero? = some z → z ∉ b.file.pool) : b.standIn k = k := by
  rw [standIn]
  split
  case h_1 z hz => exact if_neg (h z hz)
  case h_2 => rfl

theorem standIn_opposite (hz : k.oppositeZero? = some z) (hmem : z ∈ b.file.pool) :
    b.standIn k = z := by
  simp only [standIn, hz]
  exact if_pos hmem

/-- An entry of the pool that is found under the key of a constant is where the index says. -/
theorem Indexed.found_mem (h : b.Indexed) (hmem : z ∈ b.file.pool) (hblank : z ≠ .blank)
    (hz : z.internKey? = some key) : ∃ i, b.index[key]? = some i ∧ b.file.pool[i.toNat]? = some z := by
  obtain ⟨j, hj⟩ := Array.mem_iff_getElem?.mp hmem
  obtain ⟨i, hi, rfl⟩ := h.found hj hblank hz
  exact ⟨i, hi, hj⟩

/-- Behind the index that is given for a constant stands what it is interned as. -/
theorem Indexed.intern_entry (h : b.Indexed) (hblank : k ≠ .blank)
    (hroom : (intern k b).2.file.pool.size ≤ maxEntries) :
    (intern k b).2.file.pool[(intern k b).1.toNat]? = some (b.standIn k) := by
  cases hkey : k.internKey? with
  | none =>
      have hself : b.standIn k = k := standIn_eq fun z hz => by
        obtain ⟨-, -, -, key, hsome⟩ := Constant.internKey?_opposite hz
        rw [hkey] at hsome
        contradiction
      rw [intern_keyless hkey] at hroom ⊢
      rw [append_index hroom, hself]
      exact append_entry k b
  | some key =>
      cases hindex : b.index[key]? with
      | none =>
          have hself : b.standIn k = k := standIn_eq fun z hz hmem => by
            obtain ⟨-, hzblank, hsame, -⟩ := Constant.internKey?_opposite hz
            obtain ⟨i, hi, -⟩ := h.found_mem hmem hzblank (hsame.trans hkey)
            rw [hindex] at hi
            contradiction
          rw [intern_new hkey hindex] at hroom ⊢
          rw [hself]
          change (Builder.append k b).2.file.pool[(Builder.append k b).1.toNat]? = some k
          rw [append_index hroom]
          exact append_entry k b
      | some i =>
          rw [intern_known hkey hindex]
          obtain ⟨k', hk', hsame⟩ := h.holds hindex
          obtain rfl | hopposite := Constant.eq_or_opposite hblank hkey hsame
          · -- The constant itself is there, so its opposite is not.
            rw [standIn_eq fun z hz hmem => ?_]
            · exact hk'
            · obtain ⟨hne, hzblank, hzkey, -⟩ := Constant.internKey?_opposite hz
              obtain ⟨i', hi', hentry⟩ := h.found_mem hmem hzblank (hzkey.trans hkey)
              obtain rfl := Option.some.inj (hindex.symm.trans hi')
              exact hne (Option.some.inj (hentry.symm.trans hk'))
          · rw [standIn_opposite hopposite (Array.mem_of_getElem? hk')]
            exact hk'

end StandIn

/-- One class under construction comes from another by calls on it and by lines that are assembled
for it. -/
inductive Becomes (b : Builder) : Builder → Prop
  | refl : Becomes b b
  | call {b' : Builder} (h : Becomes b b') (c : Call) : Becomes b (c.make b').2
  | line {b' b'' : Builder} (h : Becomes b b') {d : Directive} {a a' : Assembler} {v : Unit}
      (hb' : a.pool = some b') (hrun : d.assemble a = .ok (v, a')) (hb'' : a'.pool = some b'') :
      Becomes b b''

/-- The class was started and has come to where it is by calls and lines. -/
def InUse (b : Builder) : Prop :=
  ∃ name superName flags, (start name superName flags).Becomes b

section Becomes

variable {b b' b'' : Builder} {k : Constant}

theorem Becomes.grows (h : b.Becomes b') : b.Grows b' := by
  induction h with
  | refl => exact .refl b
  | call _ c ih => exact ih.trans (interns_make c _).1
  | @line _ _ _ d a a' v hb' hrun hb'' ih =>
      obtain ⟨b₁, hb₁, hfills⟩ := d.assemble_fillsPool a v a' _ hrun hb'
      obtain rfl := Option.some.inj (hb₁.symm.trans hb'')
      exact ih.trans hfills.grows

theorem Becomes.indexed (h : b.Becomes b') (hroom : b'.file.pool.size ≤ maxEntries)
    (hb : b.Indexed) : b'.Indexed := by
  induction h with
  | refl => exact hb
  | @call b₁ _ c ih =>
      have hmade := interns_make c b₁
      exact hmade.2.1 hroom (ih (hmade.1.size_le.trans hroom))
  | @line b₁ _ _ d a a' v hb' hrun hb'' ih =>
      obtain ⟨b₂, hb₂, hfills⟩ := d.assemble_fillsPool a v a' _ hrun hb'
      obtain rfl := Option.some.inj (hb₂.symm.trans hb'')
      exact hfills.indexed hroom (ih (hfills.grows.size_le.trans hroom))

theorem InUse.indexed (h : b.InUse) (hroom : b.file.pool.size ≤ maxEntries) : b.Indexed := by
  obtain ⟨name, superName, flags, h⟩ := h
  exact h.indexed hroom (indexed_start name superName flags (h.grows.size_le.trans hroom))

/-- What is read, from then on, at the index that was given for a constant. -/
theorem InUse.interned (h : b.InUse) (hblank : k ≠ .blank) (hlater : (intern k b).2.Becomes b')
    (hroom : b'.file.pool.size ≤ maxEntries) :
    b'.file.constant (intern k b).1 = .ok (b.standIn k) := by
  obtain ⟨hgrows, hindexed, -⟩ := interns_intern k b
  have hroom' := hlater.grows.size_le.trans hroom
  have hb := h.indexed (hgrows.size_le.trans hroom')
  have hentry := hlater.grows.entry (hb.intern_entry hblank hroom')
  have hstands : b.standIn k ≠ .blank := by
    rw [standIn]
    split
    case h_1 z hz =>
      split
      · exact (Constant.internKey?_opposite hz).2.1
      · exact hblank
    case h_2 => exact hblank
  have hdone := hlater.indexed hroom (hindexed hroom' hb)
  exact ClassFile.constant_eq (hdone.ne_zero hentry hstands) hentry

end Becomes

end Builder

end ClassEngine
