import ClassEngine.Proofs.Assembly.Branches
import ClassEngine.Proofs.Engine.Moments
import ClassEngine.Proofs.Engine.Throwing
import ClassEngine.Proofs.Numeric.Words

/-!
The integer instructions against arithmetic on whole numbers. Each of them takes two operands off the
stack, of which the one pushed earlier is the left one, and pushes the word of the exact result. Only a
zero divisor has no result; for it an exception is thrown.

Main result: `integer_instructions_are_exact`.
-/

namespace ClassEngine

open Machine Exec Interpreter Linking

/-- The sizes of integers on an operand stack. -/
inductive WordSize where
  | int
  | long

namespace WordSize

def bits : WordSize → Nat
  | int => 32
  | long => 64

/-- A value is an integer of a size, and stands for a number. -/
inductive Holds : WordSize → Value → Int → Prop
  | int (v : Int32) : Holds int (.int v) v.toInt
  | long (v : Int64) : Holds long (.long v) v.toInt

theorem Holds.fits {size : WordSize} {v : Value} {n : Int} (h : size.Holds v n) :
    2 * |n| ≤ 2 ^ size.bits := by
  rw [Int.abs_eq_natAbs]
  cases h with
  | int v =>
      have hlow := v.le_toInt
      have hhigh := v.toInt_lt
      rw [bits]
      omega
  | long v =>
      have hlow := v.le_toInt
      have hhigh := v.toInt_lt
      rw [bits]
      omega

end WordSize

namespace IntOp

/-- The instruction that applies an operator to integers of a size. -/
def opcode : IntOp → WordSize → Opcode
  | add, .int => .iadd
  | sub, .int => .isub
  | mul, .int => .imul
  | div, .int => .idiv
  | rem, .int => .irem
  | shl, .int => .ishl
  | shr, .int => .ishr
  | ushr, .int => .iushr
  | and, .int => .iand
  | or, .int => .ior
  | xor, .int => .ixor
  | add, .long => .ladd
  | sub, .long => .lsub
  | mul, .long => .lmul
  | div, .long => .ldiv
  | rem, .long => .lrem
  | shl, .long => .lshl
  | shr, .long => .lshr
  | ushr, .long => .lushr
  | and, .long => .land
  | or, .long => .lor
  | xor, .long => .lxor

/-- The size of the right operand: a shift goes as far as an int says. -/
def rightSize (op : IntOp) (size : WordSize) : WordSize :=
  if op.isShift then .int else size

theorem execute_int (op : IntOp) : Step.execute (op.opcode .int) = Step.intOp op := by
  cases op <;> rfl

theorem execute_long (op : IntOp) : Step.execute (op.opcode .long) = Step.longOp op := by
  cases op <;> rfl

/-- What an operator has to give for two numbers: nothing for a zero divisor, and otherwise the word of
the exact result. -/
structure Gives (op : IntOp) (size : WordSize) (a b : Int) (result : Option Value) : Prop where
  none : op.divides = true ∧ b = 0 → result = none
  some : ¬ (op.divides = true ∧ b = 0) → ∃ v, result = some v ∧ size.Holds v (op.word size.bits a b)

theorem gives_int (op : IntOp) (a b : Int32) :
    op.Gives .int a.toInt b.toInt ((op.onInt a b).map .int) := by
  have hzero : b.toInt = 0 ↔ b = 0 := Int32.toInt_inj (y := 0)
  obtain ⟨hnone, hsome⟩ := op.onInt_word a b
  refine ⟨fun h => ?_, fun h => ?_⟩
  · rw [hnone ⟨h.1, hzero.mp h.2⟩]
    rfl
  · obtain ⟨r, hr, hword⟩ := hsome fun hb => h ⟨hb.1, hzero.mpr hb.2⟩
    exact ⟨.int r, by rw [hr]; rfl, hword ▸ .int r⟩

theorem gives_long {op : IntOp} (hshift : op.isShift = false) (a b : Int64) :
    op.Gives .long a.toInt b.toInt ((op.onLong a b).map .long) := by
  have hzero : b.toInt = 0 ↔ b = 0 := Int64.toInt_inj (y := 0)
  obtain ⟨hnone, hsome⟩ := onLong_word hshift a b
  refine ⟨fun h => ?_, fun h => ?_⟩
  · rw [hnone ⟨h.1, hzero.mp h.2⟩]
    rfl
  · obtain ⟨r, hr, hword⟩ := hsome fun hb => h ⟨hb.1, hzero.mpr hb.2⟩
    exact ⟨.long r, by rw [hr]; rfl, hword ▸ .long r⟩

theorem gives_shift {op : IntOp} (hshift : op.isShift = true) (a : Int64) (distance : Int32) :
    op.Gives .long a.toInt distance.toInt (some (.long (op.shiftLong a distance))) where
  none h := by
    have hdivides := h.1
    cases op <;> contradiction
  some _ := ⟨_, rfl, shiftLong_word hshift a distance ▸ .long _⟩

end IntOp

section Execution

variable {ctx : Context} {m : Machine} {f : Frame} {callers : List Frame} {op : IntOp} {size : WordSize}
  {left right : Value} {a b : Int} {rest : List Value}

variable (ctx) in
/-- With both operands off the stack, the instruction pushes what its operator gives, or throws. -/
theorem execute_operands (hframes : m.frames = f :: callers) (hstack : f.stack = right :: left :: rest)
    (hleft : size.Holds left a) (hright : (op.rightSize size).Holds right b) :
    ∃ result, op.Gives size a b result ∧ Step.execute (op.opcode size) ctx m =
      Step.orDivisionByZero result ctx { m with frames := { f with stack := rest } :: callers } := by
  cases hleft with
  | int x =>
      rw [show op.rightSize .int = .int from ite_self _] at hright
      cases hright with
      | int y =>
          refine ⟨_, op.gives_int x y, ?_⟩
          rw [op.execute_int, Step.intOp, bind_of_ok (onFrame_of_ok hframes (FrameM.popInt_cons hstack)),
            bind_of_ok (onFrame_of_ok rfl (FrameM.popInt_cons rfl))]
  | long x =>
      rw [op.execute_long, Step.longOp]
      by_cases hshift : op.isShift = true
      · rw [IntOp.rightSize, if_pos hshift] at hright
        cases hright with
        | int y =>
            refine ⟨_, IntOp.gives_shift hshift x y, ?_⟩
            rw [if_pos hshift, bind_of_ok (onFrame_of_ok hframes (FrameM.popInt_cons hstack)),
              bind_of_ok (onFrame_of_ok rfl (FrameM.popLong_cons rfl))]
            rfl
      · rw [IntOp.rightSize, if_neg hshift] at hright
        rw [Bool.not_eq_true] at hshift
        cases hright with
        | long y =>
            refine ⟨_, IntOp.gives_long hshift x y, ?_⟩
            rw [if_neg (by rw [hshift]; decide),
              bind_of_ok (onFrame_of_ok hframes (FrameM.popLong_cons hstack)),
              bind_of_ok (onFrame_of_ok rfl (FrameM.popLong_cons rfl))]

end Execution

/-- An integer instruction whose operands stand for two numbers, the one pushed earlier for the left one.
Division and remainder by zero throw, once both operands are off the stack, and nothing else throws: in one
step any other pair of operands gives way to the word of the exact result, with all else left as it is. For
a divisor other than zero the words of quotient and remainder fit the operands. -/
theorem integer_instructions_are_exact {host : Host} {steps nesting : Nat} {ctx : Context}
    (hctx : ctx = Session.context host steps nesting) {m : Machine} {f : Frame} {callers : List Frame}
    {p : Nat} {op : IntOp} {size : WordSize} {left right : Value} {a b : Int} {rest : List Value}
    (hinv : m.Inv host) (hframes : m.frames = f :: callers) (hpc : f.pc = p)
    (hbyte : f.bytecode[p]? = some (op.opcode size).byte) (hstack : f.stack = right :: left :: rest)
    (hleft : size.Holds left a) (hright : (op.rightSize size).Holds right b) :
    (op.divides = true ∧ b = 0 → ∃ m₁, fetch ctx m = .ok (op.opcode size).byte m₁ ∧
      Throws ctx "java/lang/ArithmeticException" "/ by zero" (Step.run (op.opcode size).byte) m₁
        { m₁ with frames := { f with stack := rest, opPc := p, pc := p + 1 } :: callers }) ∧
    (¬ (op.divides = true ∧ b = 0) → ∃ v, size.Holds v (op.word size.bits a b) ∧
      advance ctx m = .ok .next { m.note (.executing f.method.owner) with
        frames := { f with stack := v :: rest, opPc := p, pc := p + 1 } :: callers }) ∧
    (op.divides = true ∧ b ≠ 0 → IntOp.IsDivision size.bits a b (IntOp.div.word size.bits a b)
      (IntOp.rem.word size.bits a b)) := by
  subst hctx
  let started : Machine := { m.note (.executing f.method.owner) with
    frames := Frame.readingAt { f with opPc := p } (p + 1) :: callers }
  have hfetch : fetch (Session.context host steps nesting) m = .ok (op.opcode size).byte started :=
    fetch_at hframes hpc hbyte
  have hstarted : started.frames = Frame.readingAt { f with opPc := p } (p + 1) :: callers := rfl
  obtain ⟨result, hgives, hrun⟩ :=
    execute_operands (Session.context host steps nesting) hstarted hstack hleft hright
  refine ⟨fun hzero => ⟨started, hfetch, ?_⟩, fun hsome => ?_, fun ⟨hdivides, hb⟩ => ?_⟩
  · obtain rfl := hgives.none hzero
    refine throws_of_eq ?_ (by rw [Step.run_byte]; exact hrun)
    rw [context_host]
    have howner : ∀ g ∈ f :: callers, m.classes.Started g.method.owner := hframes ▸ hinv.frames
    have hlawful : Event.Lawful m.history.val (.executing f.method.owner) := by
      rw [Event.Lawful, hinv.recorded.2]
      exact howner f List.mem_cons_self
    refine (hinv.note hlawful (by simp) (by simp)).withFrames fun g hg => ?_
    rcases List.mem_cons.mp hg with rfl | hg
    · exact howner f List.mem_cons_self
    · exact howner g (List.mem_cons_of_mem f hg)
  · obtain ⟨v, rfl, hv⟩ := hgives.some hsome
    exact ⟨v, hv, advance_execute hframes hpc hbyte hrun⟩
  · have hsize : op.rightSize size = size := by
      cases op <;> first | contradiction | rfl
    exact IntOp.isDivision_word hb (hsize ▸ hright).fits

/-- An activation that is about to divide the least int. -/
def dividing (divisor : Int32) : Frame :=
  { Frame.enter { rethrower with owner := Descriptor.object, code := some ⟨3, 0, #[0x6C], [], []⟩ } #[] []
    with stack := [.int divisor, .int Int32.minValue, .null] }

/-- The quotient of the least int and minus one is no int, and its word is the least int again; zero does
not divide it. -/
theorem integer_instructions_are_exact_least : ∃ m : Int32 → Machine,
    (∀ divisor, (m divisor).Inv rootHost ∧ (m divisor).frames = [dividing divisor]) ∧
    (∃ v m', WordSize.int.Holds v (-2147483648) ∧
      advance (Session.context rootHost 9 9) (m (-1)) = .ok .next m' ∧
      m'.frames = [{ dividing (-1) with stack := [v, .null], pc := 1 }]) ∧
    ∃ m₁ m₂, fetch (Session.context rootHost 9 9) (m 0) = .ok 0x6C m₁ ∧
      Throws (Session.context rootHost 9 9) "java/lang/ArithmeticException" "/ by zero" (Step.run 0x6C)
        m₁ m₂ ∧ m₂.frames = [{ dividing 0 with stack := [.null], pc := 1 }] := by
  have hdefine : define rootHost Descriptor.object = .ok _ := rfl
  obtain ⟨m, hused, hobject, _⟩ :=
    used_of_first (fun _ _ => True) ofInternal_object hdefine rfl rfl ⟨by simp, rfl⟩ trivial
  have hinv : ∀ divisor, Machine.Inv rootHost { m with frames := [dividing divisor] } := fun divisor =>
    hused.reachable.inv.withFrames fun g hg => by
      obtain rfl := List.mem_singleton.mp hg
      exact ⟨_, hobject, trivial⟩
  have hctx : Session.context rootHost 9 9 = Session.context rootHost 9 9 := rfl
  have hpc : ∀ divisor, (dividing divisor).pc = (0 : Nat) := fun _ => rfl
  have hbyte : ∀ divisor, (dividing divisor).bytecode[0]? = some (IntOp.div.opcode .int).byte :=
    fun _ => rfl
  have hleast : WordSize.int.Holds (.int Int32.minValue) (-2147483648) := .int Int32.minValue
  obtain ⟨_, hexact, _⟩ := integer_instructions_are_exact hctx (hinv (-1)) rfl (hpc _) (hbyte _) rfl
    hleast (.int (-1))
  obtain ⟨hthrows, _⟩ := integer_instructions_are_exact hctx (hinv 0) rfl (hpc _) (hbyte _) rfl
    hleast (.int 0)
  obtain ⟨v, hv, hadvance⟩ := hexact (by decide)
  obtain ⟨m₁, hfetch, hthrow⟩ := hthrows (by decide)
  exact ⟨_, fun divisor => ⟨hinv divisor, rfl⟩, ⟨v, _, hv, hadvance, rfl⟩, m₁, _, hfetch, hthrow, rfl⟩

end ClassEngine
