import ClassEngine.Proofs.Bundle.Decoded
import ClassEngine.Proofs.Bundle.RoundTrip
import ClassEngine.Proofs.Engine.LoadedConstants

/-!
The numbers that a program loads from the pool of a class, when the class comes from its class file
and when it comes out of a bundle. They are the same but for the sign of a zero, which a bundle
loses. Main statement: `bundles_keep_numbers`.
-/

namespace ClassEngine

/-- The bits of a single as they come out of a bundle. -/
def Bundle.packedSingle (bits : UInt32) : UInt32 :=
  if Ieee.isNaN32 bits then 0x7FC00000 else if bits = 0x80000000 then 0 else bits

/-- A value as it comes out of a bundle: a zero has no sign, and what is not a number is of one
kind. -/
def Value.packed : Value → Value
  | .float bits => .float (Bundle.packedSingle bits)
  | .double bits => .double (Bundle.packedBits bits)
  | v => v

namespace Bundle

open Ieee

/-- A double that is neither a negative zero nor a strange kind of no number is kept. -/
theorem packedBits_eq_self {bits : UInt64} (hnan : ¬isNaN bits) (hzero : bits ≠ 0x8000000000000000) :
    packedBits bits = bits := by
  rw [packedBits, if_neg hnan]
  by_cases h : isZero bits
  · rw [if_pos h]
    exact (((isZero_iff bits).mp h).resolve_right hzero).symm
  · rw [if_neg h]

/-- A single goes through its bundled double as it should. -/
theorem narrow_packedBits {bits : UInt64} (h : isNaN bits ∨ ∃ v, bits = widen v) :
    narrow (packedBits bits) = packedSingle (narrow bits) := by
  by_cases hnan : isNaN bits
  · rw [packedBits, if_pos hnan, packedSingle, if_pos (by simpa using hnan)]
    decide +kernel
  obtain ⟨v, rfl⟩ := h.resolve_left hnan
  have hnumber : ¬isNaN32 v := by rwa [isNaN_widen] at hnan
  have hback : narrow (widen v) = v := narrow_widen hnumber
  rw [hback, packedSingle, if_neg hnumber]
  by_cases hneg : v = 0x80000000
  · rw [if_pos hneg, hneg]
    decide +kernel
  · have hwide : widen v ≠ 0x8000000000000000 := by
      intro heq
      apply hneg
      rw [← hback, heq]
      decide +kernel
    rw [if_neg hneg, packedBits_eq_self hnan hwide, hback]

end Bundle

/-- A number of a class file comes out of a bundle as the same number. -/
theorem Constant.number?_packed {k : Constant} {v : Value} (hk : k.Canonical)
    (hv : k.number? = some v) : k.packed.number? = some v.packed := by
  cases k with
  | integer n =>
      obtain rfl := Option.some.inj hv
      rfl
  | float bits =>
      obtain rfl := Option.some.inj hv
      exact congrArg (fun b => some (Value.float b)) (Bundle.narrow_packedBits hk)
  | long n =>
      obtain rfl := Option.some.inj hv
      rfl
  | double bits =>
      obtain rfl := Option.some.inj hv
      rfl
  | _ => cases hv

/-! Loading -/

theorem ClassFile.constant_packed {c : ClassFile} {i : UInt16} {k : Constant}
    (hk : c.constant i = .ok k) : c.packed.constant i = .ok k.packed := by
  rw [constant] at hk ⊢
  split at hk
  case isTrue => cases hk
  case isFalse hi =>
    rw [if_neg hi]
    split at hk
    case h_1 hget =>
      obtain rfl := Except.ok.inj hk
      rw [packed, Array.getElem?_map, hget]
      rfl
    case h_2 => cases hk

/-- The numbers of a class that was decoded, before and after it went through a bundle. -/
theorem ClassFile.loads_packed {data : List UInt8} {c : ClassFile} (hdecode : decode data = .ok c)
    {i : UInt16} {k : Constant} {v : Value} (hk : c.constant i = .ok k)
    (hv : k.number? = some v) : c.Loads i v ∧ c.packed.Loads i v.packed := by
  have hcanonical : k.Canonical := by
    rcases (decoded_of_decode hdecode).pool.entries k (mem_of_constant hk) with rfl | hentry
    · cases hv
    · exact hentry.1
  constructor
  · exact loads_of_constant hk hv
  · exact loads_of_constant (constant_packed hk) (Constant.number?_packed hcanonical hv)

namespace Bundle

/-- A number that is loaded from the pool of a class is the same whether the class was decoded from
its class file or read back out of a bundle, but for the sign of a zero. -/
theorem bundles_keep_numbers {classes : List ClassFile} (hlength : classes.length ≤ Cbor.maxElements)
    (hnodup : (classes.map ClassFile.name).Nodup) (hnamed : ∀ c ∈ classes, c.name ≠ [])
    (hdecoded : ∀ c ∈ classes, ∃ data, ClassFile.decode data = .ok c)
    (hbounded : ∀ c ∈ classes, ∀ m ∈ c.methods, m.Bounded) :
    ∃ bytes found, encodePlaces (classes.map some) = .ok bytes ∧ decode bytes = .ok found ∧
      ∀ c ∈ classes, ∃ d ∈ found, d.name = c.name ∧ ∀ i k v, c.constant i = .ok k →
        k.number? = some v → c.Loads i v ∧ d.Loads i v.packed := by
  have hpackable : ∀ c ∈ classes, c.Packable := by
    intro c hc
    obtain ⟨data, hdecode⟩ := hdecoded c hc
    exact ClassFile.packable_of_decode hdecode (hbounded c hc)
  obtain ⟨bytes, hencode, hdecode⟩ := decode_encodePlaces hlength hnodup hnamed hpackable
  refine ⟨bytes, _, hencode, hdecode, ?_⟩
  intro c hc
  obtain ⟨data, hdata⟩ := hdecoded c hc
  refine ⟨c.packed, List.mem_map_of_mem (List.mem_mergeSort.mpr hc), rfl, ?_⟩
  intro i k v hk hv
  exact ClassFile.loads_packed hdata hk hv

/-- A class whose pool holds a negative zero. -/
def zeroClass : ClassFile where
  minor := 0
  major := 52
  pool := #[.blank, .double 0x8000000000000000, .blank, .utf8 "Zero", .link .classRef 3 0]
  flags := ⟨0x21⟩
  name := "Zero"
  superName := []
  interfaces := []
  fields := []
  methods := []
  sourceFile := []

/-- The class file of `zeroClass`. -/
def zeroData : List UInt8 :=
  [0xCA, 0xFE, 0xBA, 0xBE, 0, 0, 0, 52, 0, 5, 6, 0x80, 0, 0, 0, 0, 0, 0, 0,
    1, 0, 4, 0x5A, 0x65, 0x72, 0x6F, 7, 0, 3, 0, 0x21, 0, 4, 0, 0, 0, 0, 0, 0, 0, 0, 0, 0]

theorem decode_zeroData : ClassFile.decode zeroData = .ok zeroClass := by
  decide +kernel

theorem bundles_keep_numbers_zero : ([zeroClass].length ≤ Cbor.maxElements ∧
      ([zeroClass].map ClassFile.name).Nodup ∧ (∀ c ∈ [zeroClass], c.name ≠ []) ∧
      (∀ c ∈ [zeroClass], ∃ data, ClassFile.decode data = .ok c) ∧
      ∀ c ∈ [zeroClass], ∀ m ∈ c.methods, m.Bounded) ∧
    ∃ bytes found, encodePlaces ([zeroClass].map some) = .ok bytes ∧ decode bytes = .ok found ∧
      ∀ c ∈ [zeroClass], ∃ d ∈ found, d.name = c.name ∧ ∀ i k v, c.constant i = .ok k →
        k.number? = some v → c.Loads i v ∧ d.Loads i v.packed := by
  have hlength : [zeroClass].length ≤ Cbor.maxElements := by decide
  have hnodup : ([zeroClass].map ClassFile.name).Nodup := by decide
  have hnamed : ∀ c ∈ [zeroClass], c.name ≠ [] := by decide
  have hdecoded : ∀ c ∈ [zeroClass], ∃ data, ClassFile.decode data = .ok c := by
    intro c hc
    obtain rfl := List.mem_singleton.mp hc
    exact ⟨zeroData, decode_zeroData⟩
  have hbounded : ∀ c ∈ [zeroClass], ∀ m ∈ c.methods, m.Bounded := by
    simp [zeroClass]
  exact ⟨⟨hlength, hnodup, hnamed, hdecoded, hbounded⟩,
    bundles_keep_numbers hlength hnodup hnamed hdecoded hbounded⟩

/-- A negative zero is loaded from a class file, but not from the bundle that is made of it. -/
theorem bundles_lose_negative_zero : ∃ bytes d, ClassFile.decode zeroData = .ok zeroClass ∧
    encodePlaces [some zeroClass] = .ok bytes ∧ decode bytes = .ok [d] ∧
    zeroClass.Loads 1 (.double 0x8000000000000000) ∧ ¬d.Loads 1 (.double 0x8000000000000000) := by
  have hpackable : ∀ c ∈ [zeroClass], c.Packable := by decide +kernel
  obtain ⟨bytes, hencode, hdecode⟩ :=
    decode_encodePlaces (by decide) (by decide) (by decide) hpackable
  have hsort : sortClasses [zeroClass] = [zeroClass] := List.mergeSort_singleton _
  rw [hsort] at hdecode
  obtain ⟨hloads, hpacked⟩ := ClassFile.loads_packed decode_zeroData (i := 1)
    (show zeroClass.constant 1 = .ok (.double 0x8000000000000000) from rfl) rfl
  refine ⟨bytes, zeroClass.packed, decode_zeroData, hencode, hdecode, hloads, fun h => ?_⟩
  exact absurd (hpacked.unique h) (by decide)

end Bundle

end ClassEngine
