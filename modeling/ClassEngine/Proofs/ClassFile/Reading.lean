import Mathlib.Tactic.Common
import ClassEngine.ClassFile.Decoder
import ClassEngine.ClassFile.Encoder

/-!
What it means that a decoder reads a value off bytes, and the rules by which decoders that read
parts make decoders that read the whole. Numbers are read as they were written.
-/

namespace ClassEngine

namespace ClassFile

namespace Decoder

variable {α β : Type}

/-- In front of any bytes, `d` consumes exactly `b` and gives `a`. -/
def Reads (d : Decoder α) (b : List UInt8) (a : α) : Prop :=
  ∀ offset rest, d ⟨offset, b ++ rest⟩ = .ok (a, ⟨offset + b.length, rest⟩)

theorem Reads.pure (a : α) : Reads (pure a) [] a := by
  intro offset rest
  rfl

theorem Reads.bind {d : Decoder α} {f : α → Decoder β} {b₁ b₂ : List UInt8} {a : α} {v : β}
    (hd : Reads d b₁ a) (hf : Reads (f a) b₂ v) : Reads (d >>= f) (b₁ ++ b₂) v := by
  intro offset rest
  change (d ⟨offset, b₁ ++ b₂ ++ rest⟩ >>= fun p => f p.1 p.2) = _
  rw [List.append_assoc, hd offset (b₂ ++ rest)]
  change f a ⟨offset + b₁.length, b₂ ++ rest⟩ = _
  rw [hf, List.length_append, Nat.add_assoc]

/-- A decoder that consumes nothing and is followed by another. -/
theorem Reads.bind_nil {d : Decoder α} {f : α → Decoder β} {b : List UInt8} {a : α} {v : β}
    (hd : Reads d [] a) (hf : Reads (f a) b v) : Reads (d >>= f) b v :=
  hd.bind hf

/-- The last decoder, which only makes a value of what was read. -/
theorem Reads.bind_pure {d : Decoder α} {f : α → Decoder β} {b : List UInt8} {a : α} {v : β}
    (hd : Reads d b a) (hf : Reads (f a) [] v) : Reads (d >>= f) b v := by
  have := hd.bind hf
  rwa [List.append_nil] at this

theorem Reads.inside {d : Decoder α} {b : List UInt8} {a : α} (h : Reads d b a) (place : Text) :
    Reads (Decoder.inside place d) b a := by
  intro offset rest
  rw [Decoder.inside, h offset rest]
  rfl

/-- A result that needs no bytes. -/
theorem Reads.lift {r : Except DecodeError α} {a : α} (h : r = .ok a) :
    Reads (liftM r : Decoder α) [] a := by
  subst h
  intro offset rest
  rfl

theorem Reads.lookup {r : Except PoolError α} {a : α} (h : r = .ok a) :
    Reads (Decoder.lookup r) [] a :=
  Reads.lift (by rw [h]; rfl)

theorem Reads.onBytes {d : Decoder α} {b : List UInt8} {a : α} (h : Reads d b a) :
    Decoder.onBytes b d = .ok a := by
  have := h 0 []
  rw [List.append_nil] at this
  rw [Decoder.onBytes, StateT.run, this]
  rfl

theorem reads_u1 (v : UInt8) : Reads u1 [v] v := by
  intro offset rest
  rfl

theorem toNat_toUInt8 (n : Nat) : n.toUInt8.toNat = n % 256 :=
  UInt8.toNat_ofNat

/-- The two bytes of a number make it again. -/
theorem word_of_bytes (v : UInt16) :
    ((v.toNat / 256).toUInt8.toNat * 256 + v.toNat.toUInt8.toNat).toUInt16 = v := by
  have hv := v.toNat_lt
  have hword : (v.toNat / 256).toUInt8.toNat * 256 + v.toNat.toUInt8.toNat = v.toNat := by
    rw [toNat_toUInt8, toNat_toUInt8]
    omega
  rw [hword]
  exact UInt16.ofNat_toNat

theorem reads_u2 (v : UInt16) : Reads u2 (u2Bytes v) v := by
  intro offset rest
  exact congrArg (fun w => Except.ok (w, _)) (word_of_bytes v)

theorem reads_u4 (v : UInt32) : Reads u4 (u4Bytes v) v := by
  intro offset rest
  have hv := v.toNat_lt
  have hword : ((((v.toNat / 16777216).toUInt8.toNat * 256 + (v.toNat / 65536).toUInt8.toNat) * 256 +
      (v.toNat / 256).toUInt8.toNat) * 256 + v.toNat.toUInt8.toNat) = v.toNat := by
    simp only [toNat_toUInt8]
    omega
  change Except.ok (((((v.toNat / 16777216).toUInt8.toNat * 256 +
    (v.toNat / 65536).toUInt8.toNat) * 256 + (v.toNat / 256).toUInt8.toNat) * 256 +
    v.toNat.toUInt8.toNat).toUInt32, _) = _
  rw [hword]
  exact congrArg (fun w => Except.ok (w, _)) UInt32.ofNat_toNat

theorem reads_u8 (v : UInt64) : Reads u8 (u8Bytes v) v := by
  have hv := v.toNat_lt
  have hword : (v.toNat / 4294967296).toUInt32.toUInt64 * 4294967296 +
      v.toNat.toUInt32.toUInt64 = v := by
    apply UInt64.toNat_inj.mp
    simp [UInt64.toNat_add, UInt64.toNat_mul]
    omega
  apply (reads_u4 _).bind
  apply (reads_u4 _).bind_pure
  rw [hword]
  exact Reads.pure v

/-- An index is read like any number when there are bytes for it. -/
theorem reads_index (v : UInt16) : Reads index (u2Bytes v) v := by
  intro offset rest
  rw [index, reads_u2 v offset rest]

theorem reads_bytes (b : List UInt8) : Reads (bytes b.length) b b := by
  intro offset rest
  simp [bytes]

/-- Items that are each read off their own part are read one after the other. -/
theorem reads_repeatedOnto {d : Nat → Decoder α} {items : List α} {parts : List (List UInt8)}
    (h : List.Forall₂ (fun a part => ∀ i, Reads (d i) part a) items parts) (acc : List α) (i : Nat) :
    Reads (repeatedOnto d acc items.length i) parts.flatten (acc.reverse ++ items) := by
  induction h generalizing acc i with
  | nil =>
      rw [List.append_nil]
      exact .pure _
  | @cons head part tail parts hhead _ ih =>
      have hrest := ih (head :: acc) (i + 1)
      rw [List.reverse_cons, List.append_assoc, List.singleton_append] at hrest
      exact (hhead i).bind hrest

theorem reads_repeated {d : Nat → Decoder α} {items : List α} {parts : List (List UInt8)}
    (h : List.Forall₂ (fun a part => ∀ i, Reads (d i) part a) items parts) (i : Nat) :
    Reads (repeated d items.length i) parts.flatten items :=
  reads_repeatedOnto h [] i

theorem toNat_toUInt16_of_le {n : Nat} (h : n ≤ 65535) : n.toUInt16.toNat = n :=
  UInt16.toNat_ofNat_of_lt' (Nat.lt_succ_of_le h)

/-- A list that a two-byte count can announce is read back. -/
theorem reads_counted {d : Nat → Decoder α} {items : List α} {parts : List (List UInt8)}
    (h : List.Forall₂ (fun a part => ∀ i, Reads (d i) part a) items parts)
    (hlength : items.length ≤ 65535) :
    Reads (counted d) (countBytes items.length ++ parts.flatten) items := by
  apply (reads_u2 _).bind
  rw [toNat_toUInt16_of_le hlength]
  exact reads_repeated h 0

end Decoder

end ClassFile

end ClassEngine
