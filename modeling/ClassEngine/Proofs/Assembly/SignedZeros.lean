import ClassEngine.Proofs.Assembly.ValueLines

/-!
Floating-point constants in the pool of a class, and the line that pushes a double. Whatever was
interned before, a constant keeps its value, with one exception: a zero gets the entry of the zero of
the other sign, if the pool has that one. So a negative zero is pushed as a positive one wherever the
class has loaded that from its pool.

Main results: `numbers_keep_value_but_zeros`, `zeros_share_an_entry`.
-/

namespace ClassEngine

open Assembler

namespace Builder

section Pool

variable {b : Builder} {k k' : Constant}

/-- What is interned adds nothing else to the pool. -/
theorem mem_intern (h : k' ∈ (intern k b).2.file.pool) : k' ∈ b.file.pool ∨ k' = k ∨ k' = .blank := by
  have happend : k' ∈ (append k b).2.file.pool → k' ∈ b.file.pool ∨ k' = k ∨ k' = .blank := by
    intro hmem
    by_cases hblank : k' = .blank
    · exact .inr (.inr hblank)
    obtain ⟨j, hj⟩ := Array.mem_iff_getElem?.mp hmem
    obtain hold | ⟨-, rfl⟩ := append_cases hj hblank
    · exact .inl (Array.mem_of_getElem? hold)
    · exact .inr (.inl rfl)
  cases hkey : k.internKey? with
  | none =>
      rw [intern_keyless hkey] at h
      exact happend h
  | some key =>
      cases hindex : b.index[key]? with
      | some i =>
          rw [intern_known hkey hindex] at h
          exact .inl h
      | none =>
          rw [intern_new hkey hindex] at h
          exact happend h

/-- A root class has no numbers in its pool when it is started. -/
theorem not_mem_start (name : Text) (flags : AccessFlags) (bits : UInt64) :
    .double bits ∉ (start name [] flags).file.pool := by
  intro h
  let bare : Builder := ⟨⟨0, ClassFile.defaultMajor, #[.blank], flags, name, [], [], [], [], []⟩, {}⟩
  obtain h | h | h :=
    mem_intern (b := (utf8 name bare).2) (k := .link .classRef (utf8 name bare).1 0) h
  · obtain h | h | h := mem_intern (b := bare) (k := .utf8 name) h
    · exact absurd (List.mem_singleton.mp (Array.mem_toList_iff.mpr h)) nofun
    · contradiction
    · contradiction
  · contradiction
  · contradiction

end Pool

/-- What a line that pushes a double pushes, in a class that has come so far. -/
def pushedDouble (b : Builder) (bits : UInt64) : UInt64 :=
  if bits = 0x8000000000000000 ∧ .double 0 ∈ b.file.pool then 0 else bits

/-- A class whose pool has a zero. -/
def withZero : Builder :=
  (doubleConst 0 (start "A" [] ⟨1⟩)).2

theorem withZero_inUse : withZero.InUse :=
  ⟨"A", [], ⟨1⟩, .call .refl (.constant (.double 0))⟩

theorem withZero_size : withZero.file.pool.size ≤ 11 := by
  have hstart : (start "A" [] ⟨1⟩).file.pool.size ≤ 9 := addsAtMost_enter "A" [] _
  have hadded : withZero.file.pool.size ≤ (start "A" [] ⟨1⟩).file.pool.size + 2 := addsAtMost_intern _ _
  omega

theorem zero_mem_withZero : .double 0 ∈ withZero.file.pool := by
  have hroom : withZero.file.pool.size ≤ maxEntries := withZero_size.trans (by decide)
  have hstart : (start "A" [] ⟨1⟩).InUse := ⟨_, _, _, .refl⟩
  have hindexed := hstart.indexed ((interns_intern (.double 0) _).1.size_le.trans hroom)
  have hentry := hindexed.intern_entry (k := .double 0) nofun hroom
  rw [standIn_eq fun z hz => ?_] at hentry
  · exact Array.mem_of_getElem? hentry
  · obtain rfl := Option.some.inj hz
    exact not_mem_start "A" ⟨1⟩ _

end Builder

theorem pushDouble_steps {a : Assembler} {b : Builder} (hb : a.pool = some b) (hinUse : b.InUse)
    (bits : UInt64) (stack : List Value) (locals : Array Value) :
    (Directive.pushDouble bits).StepsAs a (stack, locals)
      (.double (b.pushedDouble bits) :: stack, locals) := by
  have hassemble : (Directive.pushDouble bits).assemble = Assembler.pushDouble bits := rfl
  by_cases hzero : bits = 0
  · obtain rfl := hzero
    have hself : b.pushedDouble 0 = 0 := if_neg fun h => absurd h.1 (by decide)
    rw [hself]
    refine stepsAs_of_bytes .dconst0 [] (acts_push _) ?_ fun c => encodes_plain rfl
    rw [hassemble, Assembler.pushDouble, if_pos rfl, emit_eq]
  by_cases hone : bits = 0x3FF0000000000000
  · obtain rfl := hone
    have hself : b.pushedDouble 0x3FF0000000000000 = 0x3FF0000000000000 :=
      if_neg fun h => absurd h.1 (by decide)
    rw [hself]
    refine stepsAs_of_bytes .dconst1 [] (acts_push _) ?_ fun c => encodes_plain rfl
    rw [hassemble, Assembler.pushDouble, if_neg hzero, if_pos rfl, emit_eq]
  have hstandIn : b.standIn (.double bits) = .double (b.pushedDouble bits) := by
    by_cases hneg : bits = 0x8000000000000000
    · obtain rfl := hneg
      by_cases hmem : .double 0 ∈ b.file.pool
      · have hshared : b.pushedDouble 0x8000000000000000 = 0 := if_pos ⟨rfl, hmem⟩
        rw [hshared]
        exact Builder.standIn_opposite rfl hmem
      · have hself : b.pushedDouble 0x8000000000000000 = 0x8000000000000000 := if_neg fun h => hmem h.2
        rw [hself]
        refine Builder.standIn_eq fun z hz => ?_
        obtain rfl := Option.some.inj hz
        exact hmem
    · have hself : b.pushedDouble bits = bits := if_neg fun h => hneg h.1
      have hnumber : ¬Ieee.isZero bits := fun h => ((Ieee.isZero_iff bits).mp h).elim hzero hneg
      rw [hself]
      exact standIn_of_noZero (if_neg hnumber)
  have hblank : Constant.double bits ≠ .blank := by
    intro h
    cases h
  refine stepsAs_of_constant (decide_eq_true ⟨hzero, hone⟩) (fun b' hb' => ?_) hblank ?_
    (fun i => rfl) (fun i => List.cons_ne_nil _ _) fun c i k hk hv => encodes_wideConstant hk hv
  · obtain rfl := Option.some.inj (hb.symm.trans hb')
    exact ⟨hinUse, by rw [hstandIn]; rfl⟩
  · rw [hassemble, Assembler.pushDouble, if_neg hzero, if_neg hone]
    rfl

open Builder

/-- Whatever was interned before and comes later, as long as the pool has room: the entry at the
index of a single or a double holds that number, unless it is a zero and the pool had the zero of the
other sign, which it is found as; and a line that pushes a double pushes it, unless it is a negative
zero and the pool had the positive one. -/
theorem numbers_keep_value_but_zeros {b : Builder} (hinUse : b.InUse) :
    (∀ (bits : UInt32) b', (floatConst bits b).2.Becomes b' → b'.file.pool.size ≤ maxEntries →
      b'.file.constant (floatConst bits b).1 = .ok (b.standIn (.float (Ieee.widen bits)))) ∧
    (∀ (bits : UInt64) b', (doubleConst bits b).2.Becomes b' → b'.file.pool.size ≤ maxEntries →
      b'.file.constant (doubleConst bits b).1 = .ok (b.standIn (.double bits))) ∧
    ∀ (bits : UInt64) (a : Assembler) stack locals, a.pool = some b →
      (Directive.pushDouble bits).StepsAs a (stack, locals)
        (.double (b.pushedDouble bits) :: stack, locals) :=
  ⟨fun _ _ hlater hroom => hinUse.interned nofun hlater hroom,
    fun _ _ hlater hroom => hinUse.interned nofun hlater hroom,
    fun bits _ stack locals ha => pushDouble_steps ha hinUse bits stack locals⟩

/-- A negative zero is pushed as it is in a class that has no other zero. -/
theorem numbers_keep_value_but_zeros_alone :
    (Directive.pushDouble 0x8000000000000000).StepsAs (.start (some (start "A" [] ⟨1⟩))) ([], #[])
      ([.double 0x8000000000000000], #[]) := by
  have hsteps := (numbers_keep_value_but_zeros ⟨"A", [], ⟨1⟩, .refl⟩).2.2 0x8000000000000000
    (.start (some (start "A" [] ⟨1⟩))) [] #[] rfl
  have hself : (start "A" [] ⟨1⟩).pushedDouble 0x8000000000000000 = 0x8000000000000000 :=
    if_neg fun h => not_mem_start "A" ⟨1⟩ 0 h.2
  rwa [hself] at hsteps

/-- Behind a zero, a negative zero is interned as that zero, and pushed as it. -/
theorem zeros_share_an_entry : withZero.InUse ∧
    (doubleConst 0x8000000000000000 withZero).2.file.pool.size ≤ maxEntries ∧
    (doubleConst 0x8000000000000000 withZero).2.file.constant
      (doubleConst 0x8000000000000000 withZero).1 = .ok (.double 0) ∧
    (Directive.pushDouble 0x8000000000000000).StepsAs (.start (some withZero)) ([], #[])
      ([.double 0], #[]) := by
  have hroom : (doubleConst 0x8000000000000000 withZero).2.file.pool.size ≤ maxEntries := by
    have hadded : (doubleConst 0x8000000000000000 withZero).2.file.pool.size ≤
        withZero.file.pool.size + 2 := addsAtMost_intern _ _
    exact hadded.trans ((Nat.add_le_add_right withZero_size 2).trans (by decide))
  have hshared : withZero.standIn (.double 0x8000000000000000) = .double 0 :=
    standIn_opposite rfl zero_mem_withZero
  refine ⟨withZero_inUse, hroom, ?_, ?_⟩
  · rw [← hshared]
    exact withZero_inUse.interned nofun .refl hroom
  · have hpushed : withZero.pushedDouble 0x8000000000000000 = 0 := if_pos ⟨rfl, zero_mem_withZero⟩
    have hsteps := pushDouble_steps (a := .start (some withZero)) rfl withZero_inUse
      0x8000000000000000 [] #[]
    rwa [hpushed] at hsteps

end ClassEngine
