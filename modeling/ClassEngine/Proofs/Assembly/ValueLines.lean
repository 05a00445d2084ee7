import Mathlib.Tactic.IntervalCases
import ClassEngine.Proofs.Assembly.Branches
import ClassEngine.Proofs.Assembly.InternedNumbers
import ClassEngine.Proofs.Engine.LoadedConstants

/-!
The lines that push a number, load or store a local variable, or add to one. Each is assembled to one
of several instructions, by the number, the slot or the index in the pool; and whichever it is, the
engine takes one step over it that does what the line says.

Main result: `value_lines_step`.
-/

namespace ClassEngine

open Assembler Machine Exec Interpreter FrameM

/-- The bytes are one instruction with its operands, which does `x` to a frame that runs a method of
the class and has read them. -/
def Encodes (c : ClassFile) (bs : List UInt8) (x : FrameM Unit) : Prop :=
  ∃ op rest, bs = op.byte :: rest ∧ ∀ ctx (m : Machine) (f : Frame) callers p g, f.method.file = c →
    Stands f.bytecode (p + 1) rest → x (f.readingAt (p + bs.length)) = .ok ((), g) →
    Step.execute op ctx { m with frames := f.readingAt (p + 1) :: callers } =
      .ok .next { m with frames := g :: callers }

/-- What an operation makes of an operand stack and local variables. It leaves the rest of the frame
alone. -/
def Acts (x : FrameM Unit) (before after : List Value × Array Value) : Prop :=
  ∀ f : Frame, f.stack = before.1 → f.locals = before.2 →
    x f = .ok ((), { f with stack := after.1, locals := after.2 })

section Operands

variable {f : Frame} {p : Nat}

theorem s1_readingAt {v : Int8} (h : Stands f.bytecode p [v.toUInt8]) :
    s1 (f.readingAt p) = .ok (v, f.readingAt (p + 1)) := by
  unfold s1
  rw [bind_ok (u1_readingAt (stands_cons.mp h).1)]
  rfl

theorem s2_readingAt {v : Int16} (h : Stands f.bytecode p (twoBytes v.toUInt16)) :
    s2 (f.readingAt p) = .ok (v, f.readingAt (p + 2)) := by
  unfold s2
  rw [bind_ok (u2_readingAt h)]
  rfl

end Operands

section Encodes

variable {c : ClassFile} {op : Opcode} {rest : List UInt8} {x : FrameM Unit}

theorem encodes_inFrame {y : FrameM Unit} (hop : Step.execute op = Step.inFrame y)
    (hy : ∀ (f : Frame) p, Stands f.bytecode p rest →
      y (f.readingAt p) = x (f.readingAt (p + rest.length))) :
    Encodes c (op.byte :: rest) x := by
  refine ⟨op, rest, rfl, fun ctx m f callers p g _ hrest hx => ?_⟩
  rw [hop]
  refine inFrame_ok rfl ?_
  rw [hy f (p + 1) hrest, ← hx, List.length_cons, Nat.add_right_comm, Nat.add_assoc]

/-- An instruction without operands. -/
theorem encodes_plain (hop : Step.execute op = Step.inFrame x) : Encodes c [op.byte] x :=
  encodes_inFrame hop fun _ _ _ => rfl

/-- An instruction with one operand. -/
theorem encodes_operand {α : Type} {read : FrameM α} {y : α → FrameM Unit} {v : α}
    (hop : Step.execute op = Step.inFrame (do y (← read)))
    (hread : ∀ (f : Frame) p, Stands f.bytecode p rest →
      read (f.readingAt p) = .ok (v, f.readingAt (p + rest.length))) :
    Encodes c (op.byte :: rest) (y v) := by
  refine encodes_inFrame hop fun f p hrest => ?_
  rw [bind_ok (hread f p hrest)]

/-- An instruction that loads a number from the pool. -/
theorem encodes_constant {α : Type} {read : FrameM α} (index : α → UInt16) {i : α} {k : Constant}
    {v : Value}
    (hop : Step.execute op = Step.thenNext (do Reference.loadConstant (index (← onFrame read))))
    (hread : ∀ (f : Frame) p, Stands f.bytecode p rest →
      read (f.readingAt p) = .ok (i, f.readingAt (p + rest.length)))
    (hk : c.constant (index i) = .ok k) (hv : k.number? = some v) :
    Encodes c (op.byte :: rest) (push v) := by
  refine ⟨op, rest, rfl, fun ctx m f callers p g hfile hrest hx => ?_⟩
  have hindex : onFrame read ctx { m with frames := f.readingAt (p + 1) :: callers } =
      .ok i { m with frames := f.readingAt (p + 1 + rest.length) :: callers } := by
    unfold onFrame
    dsimp only
    rw [hread f (p + 1) hrest]
  have hload : Reference.loadConstant (index i) ctx
      { m with frames := f.readingAt (p + 1 + rest.length) :: callers } =
        .ok () { m with frames := g :: callers } := by
    rw [ClassFile.loads_of_constant hk hv ctx _ (f.readingAt (p + 1 + rest.length)) callers rfl hfile]
    rw [List.length_cons, ← Nat.add_assoc, Nat.add_right_comm] at hx
    obtain ⟨-, rfl⟩ := Prod.mk.inj (Except.ok.inj hx)
    rfl
  have hboth : (do Reference.loadConstant (index (← onFrame read)) : Exec Unit) ctx
      { m with frames := f.readingAt (p + 1) :: callers } = .ok () { m with frames := g :: callers } := by
    rw [bind_of_ok hindex]
    exact hload
  rw [hop, Step.thenNext, bind_of_ok hboth]
  rfl

end Encodes

/-! What the engine does at the bytes of an instruction -/

theorem Encodes.advance {ctx : Context} {m : Machine} {f g : Frame} {callers : List Frame} {p : Nat}
    {bs : List UInt8} {x : FrameM Unit} (h : Encodes f.method.file bs x)
    (hframes : m.frames = f :: callers) (hpc : f.pc = p) (hbytes : Stands f.bytecode p bs)
    (hx : x (Frame.readingAt { f with opPc := p } (p + bs.length)) = .ok ((), g)) :
    Interpreter.advance ctx m = .ok .next { m.note (.executing f.method.owner) with
      frames := g :: callers } := by
  obtain ⟨op, rest, rfl, hrun⟩ := h
  obtain ⟨hbyte, hrest⟩ := stands_cons.mp hbytes
  exact advance_execute hframes hpc hbyte
    (hrun ctx (m.note (.executing f.method.owner)) { f with opPc := p } callers p g rfl hrest hx)

/-- The class is one that a class under construction became, and its pool is not too large. -/
def Builder.Hosts (b : Builder) (c : ClassFile) : Prop :=
  ∃ b', b.Becomes b' ∧ c.pool = b'.file.pool ∧ c.pool.size ≤ maxEntries

/-- Whether a line has an operand that goes into the pool of its class. -/
def Directive.needsPool : Directive → Bool
  | pushInt v => ¬(-32768 ≤ v ∧ v ≤ 32767)
  | pushLong v => v ≠ 0 ∧ v ≠ 1
  | pushDouble bits => bits ≠ 0 ∧ bits ≠ 0x3FF0000000000000
  | pooled _ k => k.needsPool
  | pushFloat .. | loadString .. | loadClass .. | invoke .. | field .. | typeOp ..
  | multianewarray .. => true
  | _ => false

theorem internOr_without_pool {α : Type} {a : Assembler} (hnone : a.pool = none)
    (missing : AssemblyError) (k : Build UInt16) (f : UInt16 → Assemble α) :
    (internOr missing k >>= f) a = .error missing := by
  obtain ⟨pool, bytes, handlers, lines, labels⟩ := a
  obtain rfl : pool = none := hnone
  rfl

/-- Without a class, a line that needs one is refused. -/
theorem Directive.refused_without_pool {d : Directive} {a : Assembler} (hneeds : d.needsPool = true)
    (hnone : a.pool = none) : ∃ e, d.assemble a = .error e := by
  have hrefused {α : Type} {missing : AssemblyError} {k : Build UInt16} {f : UInt16 → Assemble α} :
      ∃ e, (internOr missing k >>= f) a = .error e := ⟨_, internOr_without_pool hnone missing k f⟩
  cases d with
  | pushInt v =>
      have hlarge : ¬(-32768 ≤ v ∧ v ≤ 32767) := of_decide_eq_true hneeds
      have hconst : ¬(-1 ≤ v ∧ v ≤ 5) := fun h =>
        hlarge ⟨Int32.le_trans (by decide) h.1, Int32.le_trans h.2 (by decide)⟩
      have hbyte : ¬(-128 ≤ v ∧ v ≤ 127) := fun h =>
        hlarge ⟨Int32.le_trans (by decide) h.1, Int32.le_trans h.2 (by decide)⟩
      rw [assemble, Assembler.pushInt, if_neg hconst, if_neg hbyte, if_neg hlarge]
      exact hrefused
  | pushLong v =>
      obtain ⟨hzero, hone⟩ := of_decide_eq_true hneeds
      rw [assemble, Assembler.pushLong, if_neg hzero, if_neg hone]
      exact hrefused
  | pushDouble bits =>
      obtain ⟨hzero, hone⟩ := of_decide_eq_true hneeds
      rw [assemble, Assembler.pushDouble, if_neg hzero, if_neg hone]
      exact hrefused
  | pooled op k =>
      cases k with
      | index i => contradiction
      | _ => exact hrefused
  | invoke op owner name descriptor =>
      rw [assemble, Assembler.invoke]
      split <;> exact hrefused
  | _ => first | contradiction | exact hrefused

/-- A line is assembled if there is a class or the line needs none, and only then; and whatever its
bytes are, the engine takes one step over them that makes the one operand stack and local variables of
the other. All else stays as it is. -/
def Directive.StepsAs (d : Directive) (a : Assembler) (before after : List Value × Array Value) :
    Prop :=
  ((∃ a', d.assemble a = .ok ((), a')) ↔ (d.needsPool = true → a.pool.isSome)) ∧
  ∀ a', d.assemble a = .ok ((), a') → ∃ bs, bs ≠ [] ∧ a'.bytes.toList = a.bytes.toList ++ bs ∧
    ∀ ctx (m : Machine) (f : Frame) callers (p : Nat), m.frames = f :: callers → f.pc = p →
      Stands f.bytecode p bs → (∀ b, a'.pool = some b → b.Hosts f.method.file) →
      f.stack = before.1 → f.locals = before.2 →
      advance ctx m = .ok .next { m.note (.executing f.method.owner) with
        frames := { f with
          stack := after.1
          locals := after.2
          opPc := p
          pc := p + bs.length } :: callers }

section StepsAs

variable {d : Directive} {a : Assembler} {before after : List Value × Array Value} {x : FrameM Unit}

theorem stepsAs_of_encodes (hx : Acts x before after)
    (hruns : (d.needsPool = true → a.pool.isSome) → ∃ a', d.assemble a = .ok ((), a'))
    (hcode : ∀ a', d.assemble a = .ok ((), a') → ∃ bs, a'.bytes.toList = a.bytes.toList ++ bs ∧
      bs ≠ [] ∧ ∀ c, (∀ b, a'.pool = some b → b.Hosts c) → Encodes c bs x) :
    d.StepsAs a before after := by
  refine ⟨⟨fun ⟨a', hrun⟩ hneeds => ?_, hruns⟩, fun a' hrun => ?_⟩
  · refine Option.isSome_iff_ne_none.mpr fun hnone => ?_
    obtain ⟨e, herror⟩ := Directive.refused_without_pool hneeds hnone
    exact absurd (hrun.symm.trans herror) nofun
  obtain ⟨bs, hbytes, hne, hencodes⟩ := hcode a' hrun
  refine ⟨bs, hne, hbytes, fun ctx m f callers p hframes hpc hstands hhosts hstack hlocals => ?_⟩
  exact (hencodes f.method.file hhosts).advance hframes hpc hstands (hx _ hstack hlocals)

/-- A line that needs no class. -/
theorem stepsAs_of_bytes (op : Opcode) (rest : List UInt8) (hx : Acts x before after)
    (hrun : d.assemble a = emitBytes (op.byte :: rest) a) (hcode : ∀ c, Encodes c (op.byte :: rest) x) :
    d.StepsAs a before after := by
  refine stepsAs_of_encodes hx (fun _ => ⟨_, hrun⟩) fun a' ha' => ?_
  obtain ⟨_, rfl⟩ := Prod.mk.inj (Except.ok.inj (hrun.symm.trans ha'))
  exact ⟨_, by simp, List.cons_ne_nil _ _, fun c _ => hcode c⟩

theorem intern_run {k : Constant} {b : Builder} (hb : a.pool = some b) :
    intern (Builder.intern k) a =
      .ok ((Builder.intern k b).1, { a with pool := some (Builder.intern k b).2 }) := by
  obtain ⟨pool, bytes, handlers, lines, labels⟩ := a
  obtain rfl : pool = some b := hb
  rfl

theorem ClassFile.constant_of_pool {c c' : ClassFile} {i : UInt16} {k : Constant}
    (h : c'.constant i = .ok k) (hpool : c.pool = c'.pool) : c.constant i = .ok k := by
  obtain ⟨hi, hk⟩ := ClassFile.holdsAt_of_constant h
  exact ClassFile.constant_eq hi (by rw [hpool]; exact hk)

theorem acts_push {stack : List Value} {locals : Array Value} (v : Value) :
    Acts (push v) (stack, locals) (v :: stack, locals) := by
  rintro f rfl rfl
  rfl

/-- A line that loads a number from the pool pushes what the number is interned as. -/
theorem stepsAs_of_constant {k : Constant} {load : UInt16 → Assemble Unit}
    {code : UInt16 → List UInt8} {stack : List Value} {locals : Array Value} {v : Value}
    (hneeds : d.needsPool = true)
    (hpool : ∀ b, a.pool = some b → b.InUse ∧ (b.standIn k).number? = some v)
    (hblank : k ≠ .blank) (hrun : d.assemble a = (do load (← intern (Builder.intern k))) a)
    (hload : ∀ i, load i = emitBytes (code i)) (hne : ∀ i, code i ≠ [])
    (hcode : ∀ c i k, c.constant i = .ok k → k.number? = some v → Encodes c (code i) (push v)) :
    d.StepsAs a (stack, locals) (v :: stack, locals) := by
  have hruns : ∀ b, a.pool = some b → d.assemble a = .ok ((), { a with
      pool := some (Builder.intern k b).2
      bytes := a.bytes ++ (code (Builder.intern k b).1).toArray }) := by
    intro b hb
    rw [hrun]
    change Except.bind (intern (Builder.intern k) a) (fun q => load q.1 q.2) = _
    rw [intern_run hb]
    change load _ _ = _
    rw [hload]
    rfl
  refine stepsAs_of_encodes (acts_push v) (fun hsome => ?_) fun a' ha' => ?_
  · obtain ⟨b, hb⟩ := Option.isSome_iff_exists.mp (hsome hneeds)
    exact ⟨_, hruns b hb⟩
  cases hb : a.pool with
  | none =>
      obtain ⟨e, herror⟩ := Directive.refused_without_pool hneeds hb
      exact absurd (ha'.symm.trans herror) nofun
  | some b =>
      obtain ⟨_, rfl⟩ := Prod.mk.inj (Except.ok.inj ((hruns b hb).symm.trans ha'))
      obtain ⟨hinUse, hnumber⟩ := hpool b hb
      refine ⟨code (Builder.intern k b).1, by simp, hne _, fun c hhosts => ?_⟩
      obtain ⟨b', hlater, hsame, hroom⟩ := hhosts _ rfl
      rw [hsame] at hroom
      have hentry := ClassFile.constant_of_pool (hinUse.interned hblank hlater hroom) hsame
      exact hcode c _ _ hentry hnumber

end StepsAs

/-! Numbers -/

section Numbers

variable {a : Assembler} {stack : List Value} {locals : Array Value} {c : ClassFile}

/-- The shorter of the two instructions that load the constant at an index. -/
def indexCode (i : UInt16) : List UInt8 :=
  if i ≤ 255 then [Opcode.ldc.byte, i.toUInt8] else Opcode.ldcW.byte :: twoBytes i

theorem loadIndex_eq (i : UInt16) : loadIndex i = emitBytes (indexCode i) := by
  unfold loadIndex indexCode
  split <;> rfl

theorem encodes_index {i : UInt16} {k : Constant} {v : Value} (hk : c.constant i = .ok k)
    (hv : k.number? = some v) : Encodes c (indexCode i) (push v) := by
  unfold indexCode
  split
  case isTrue hshort =>
    have hback : i.toUInt8.toUInt16 = i := by
      rw [UInt16.le_iff_toNat_le] at hshort
      apply UInt16.toNat_inj.mp
      rw [UInt8.toNat_toUInt16, UInt16.toNat_toUInt8]
      exact Nat.mod_eq_of_lt (Nat.lt_succ_of_le hshort)
    exact encodes_constant UInt8.toUInt16 rfl
      (fun f p hb => u1_readingAt (stands_cons.mp hb).1) (by rw [hback]; exact hk) hv
  case isFalse => exact encodes_constant id rfl (fun f p hw => u2_readingAt hw) hk hv

theorem encodes_wideConstant {i : UInt16} {k : Constant} {v : Value} (hk : c.constant i = .ok k)
    (hv : k.number? = some v) : Encodes c (Opcode.ldc2W.byte :: twoBytes i) (push v) :=
  encodes_constant id rfl (fun _ _ hw => u2_readingAt hw) hk hv

/-- Only a zero is interned as something else. -/
theorem standIn_of_noZero {b : Builder} {k : Constant} (h : k.oppositeZero? = none) :
    b.standIn k = k :=
  Builder.standIn_eq fun z hz => by rw [h] at hz; contradiction

/-- The seven ints that have instructions of their own. -/
theorem exists_iconst {v : Int32} (h : -1 ≤ v.toInt ∧ v.toInt ≤ 5) :
    ∃ op : Opcode, op.byte = Opcode.iconst0.byte + v.toInt8.toUInt8 ∧
      Step.execute op = Step.constant (.int v) := by
  obtain ⟨n, rfl, hlow, hhigh⟩ : ∃ n : Int, v = Int32.ofInt n ∧ -1 ≤ n ∧ n ≤ 5 :=
    ⟨v.toInt, (Int32.ofInt_toInt v).symm, h⟩
  interval_cases n
  · exact ⟨.iconstM1, rfl, rfl⟩
  · exact ⟨.iconst0, rfl, rfl⟩
  · exact ⟨.iconst1, rfl, rfl⟩
  · exact ⟨.iconst2, rfl, rfl⟩
  · exact ⟨.iconst3, rfl, rfl⟩
  · exact ⟨.iconst4, rfl, rfl⟩
  · exact ⟨.iconst5, rfl, rfl⟩

theorem toInt8_toInt32_of_le {v : Int32} (hlow : -128 ≤ v.toInt) (hhigh : v.toInt ≤ 127) :
    v.toInt8.toInt32 = v := by
  apply Int32.toInt_inj.mp
  rw [Int8.toInt_toInt32, Int32.toInt_toInt8, Int.bmod_eq_of_le] <;> omega

theorem toInt16_toInt32_of_le {v : Int32} (hlow : -32768 ≤ v.toInt) (hhigh : v.toInt ≤ 32767) :
    v.toInt16.toInt32 = v := by
  apply Int32.toInt_inj.mp
  rw [Int16.toInt_toInt32, Int32.toInt_toInt16, Int.bmod_eq_of_le] <;> omega

theorem pushInt_steps (hpool : ∀ b, a.pool = some b → b.InUse) (v : Int32) :
    (Directive.pushInt v).StepsAs a (stack, locals) (.int v :: stack, locals) := by
  have hassemble : (Directive.pushInt v).assemble = Assembler.pushInt v := rfl
  have hint : ∀ {low high : Int32},
      (low ≤ v ∧ v ≤ high ↔ low.toInt ≤ v.toInt ∧ v.toInt ≤ high.toInt) := by
    intros
    rw [Int32.le_iff_toInt_le, Int32.le_iff_toInt_le]
  by_cases hconst : -1 ≤ v ∧ v ≤ 5
  · obtain ⟨op, hop, hexecute⟩ := exists_iconst (hint.mp hconst)
    refine stepsAs_of_bytes op [] (acts_push (.int v)) ?_ fun c =>
      encodes_plain hexecute
    rw [hassemble, Assembler.pushInt, if_pos hconst, hop]
  by_cases hbyte : -128 ≤ v ∧ v ≤ 127
  · have hback : v.toInt8.toInt32 = v :=
      toInt8_toInt32_of_le (hint.mp hbyte).1 (hint.mp hbyte).2
    refine stepsAs_of_bytes .bipush [v.toInt8.toUInt8] (acts_push (.int v)) ?_ fun c => ?_
    · rw [hassemble, Assembler.pushInt, if_neg hconst, if_pos hbyte]
      rfl
    · have hcode : Encodes c [Opcode.bipush.byte, v.toInt8.toUInt8] (push (.int v.toInt8.toInt32)) :=
        encodes_operand (y := fun b => push (.int b.toInt32)) rfl fun _ _ => s1_readingAt
      rwa [hback] at hcode
  by_cases hshort : -32768 ≤ v ∧ v ≤ 32767
  · have hback : v.toInt16.toInt32 = v :=
      toInt16_toInt32_of_le (hint.mp hshort).1 (hint.mp hshort).2
    refine stepsAs_of_bytes .sipush (twoBytes v.toInt16.toUInt16) (acts_push (.int v)) ?_ fun c => ?_
    · rw [hassemble, Assembler.pushInt, if_neg hconst, if_neg hbyte, if_pos hshort]
      rfl
    · have hcode : Encodes c (Opcode.sipush.byte :: twoBytes v.toInt16.toUInt16)
          (push (.int v.toInt16.toInt32)) :=
        encodes_operand (y := fun w => push (.int w.toInt32)) rfl fun _ _ => s2_readingAt
      rwa [hback] at hcode
  · refine stepsAs_of_constant (k := .integer v.toInt64) (decide_eq_true hshort)
      (fun b hb => ⟨hpool b hb, ?_⟩) nofun ?_ loadIndex_eq (fun i => ?_)
      fun c i k hk hv => encodes_index hk hv
    · rw [standIn_of_noZero rfl]
      simp [Constant.number?]
    · rw [hassemble, Assembler.pushInt, if_neg hconst, if_neg hbyte, if_neg hshort]
      rfl
    · unfold indexCode
      split <;> exact List.cons_ne_nil _ _

theorem pushLong_steps (hpool : ∀ b, a.pool = some b → b.InUse) (v : Int64) :
    (Directive.pushLong v).StepsAs a (stack, locals) (.long v :: stack, locals) := by
  have hassemble : (Directive.pushLong v).assemble = Assembler.pushLong v := rfl
  by_cases hzero : v = 0
  · obtain rfl := hzero
    refine stepsAs_of_bytes .lconst0 [] (acts_push _) ?_ fun c => encodes_plain rfl
    rw [hassemble, Assembler.pushLong, if_pos rfl, emit_eq]
  by_cases hone : v = 1
  · obtain rfl := hone
    refine stepsAs_of_bytes .lconst1 [] (acts_push _) ?_ fun c => encodes_plain rfl
    rw [hassemble, Assembler.pushLong, if_neg hzero, if_pos rfl, emit_eq]
  refine stepsAs_of_constant (k := .long v) (decide_eq_true ⟨hzero, hone⟩)
    (fun b hb => ⟨hpool b hb, ?_⟩) nofun ?_ (fun i => rfl) (fun i => List.cons_ne_nil _ _)
    fun c i k hk hv => encodes_wideConstant hk hv
  · rw [standIn_of_noZero rfl]
    rfl
  · rw [hassemble, Assembler.pushLong, if_neg hzero, if_neg hone]
    rfl

end Numbers

/-! Local variables -/

/-- The instructions that load a local variable of each kind. -/
def Opcode.loads : List Opcode := [.iload, .lload, .fload, .dload, .aload]

/-- The instructions that store into a local variable of each kind. -/
def Opcode.stores : List Opcode := [.istore, .lstore, .fstore, .dstore, .astore]

/-- The instructions that load or store slots 0 to 3 without an operand. -/
def Opcode.compactForms : Opcode → List Opcode
  | .iload => [.iload0, .iload1, .iload2, .iload3]
  | .lload => [.lload0, .lload1, .lload2, .lload3]
  | .fload => [.fload0, .fload1, .fload2, .fload3]
  | .dload => [.dload0, .dload1, .dload2, .dload3]
  | .aload => [.aload0, .aload1, .aload2, .aload3]
  | .istore => [.istore0, .istore1, .istore2, .istore3]
  | .lstore => [.lstore0, .lstore1, .lstore2, .lstore3]
  | .fstore => [.fstore0, .fstore1, .fstore2, .fstore3]
  | .dstore => [.dstore0, .dstore1, .dstore2, .dstore3]
  | .astore => [.astore0, .astore1, .astore2, .astore3]
  | _ => []

section Locals

variable {c : ClassFile} {f : Frame} {p : Nat} {a : Assembler} {d : Directive}
  {before after : List Value × Array Value} {stack : List Value} {locals : Array Value}

theorem toNat_toUInt8_of_le {n : Nat} (h : n ≤ 255) : n.toUInt8.toNat = n := by
  rw [Nat.toUInt8_eq, UInt8.toNat_ofNat']
  exact Nat.mod_eq_of_lt (Nat.lt_succ_of_le h)

theorem lowByte_nat (n : Nat) : ((n : Int) % 256).toNat.toUInt8 = n.toUInt8 := by
  apply UInt8.toNat_inj.mp
  simp
  omega

/-- An integer in two bytes. -/
theorem twoBytes_int (n : Int) : [(n / 256 % 256).toNat.toUInt8, (n % 256).toNat.toUInt8] =
    twoBytes (n % 65536).toNat.toUInt16 := by
  simp only [twoBytes, List.cons.injEq, and_true]
  refine ⟨?_, ?_⟩ <;> apply UInt8.toNat_inj.mp <;> simp <;> omega

theorem twoBytes_nat {n : Nat} (h : n ≤ 65535) :
    [((n : Int) / 256 % 256).toNat.toUInt8, ((n : Int) % 256).toNat.toUInt8] =
      twoBytes n.toUInt16 := by
  rw [twoBytes_int, show ((n : Int) % 65536).toNat = n by omega]

/-- What the wide form of an instruction does to a slot. -/
def wideForm (base : Opcode) (slot : Nat) : FrameM Unit :=
  match base with
  | .iload | .lload | .fload | .dload | .aload => do push (← FrameM.load slot)
  | .istore | .lstore | .fstore | .dstore | .astore => storeTop slot
  | .iinc => do
    let delta ← s2
    increment slot delta.toInt32
  | _ => fail (.noWideForm base.byte)

theorem wide_readingAt {base : Opcode} {slot : UInt16}
    (h : Stands f.bytecode p (base.byte :: twoBytes slot)) :
    wide (f.readingAt p) = wideForm base slot.toNat (f.readingAt (p + 3)) := by
  obtain ⟨hbyte, hslot⟩ := stands_cons.mp h
  unfold wide
  rw [bind_ok (u1_readingAt hbyte), bind_ok (u2_readingAt hslot), Opcode.ofByte?_byte]
  cases base <;> rfl

/-- A local variable instruction, whichever of its three forms is taken. -/
theorem localAccess_steps {base : Opcode} {compactByte : UInt8} {x : Nat → FrameM Unit} {slot : Nat}
    (hslot : slot ≤ 65535) (hassemble : d.assemble = localAccess base compactByte slot)
    (hcompact : slot < 4 → ∃ op : Opcode, op.byte = compactByte + slot.toUInt8 ∧
      Step.execute op = Step.inFrame (x slot))
    (hbase : Step.execute base = Step.inFrame (do x (← u1).toNat))
    (hwide : wideForm base slot = x slot)
    (hx : Acts (x slot) before after) : d.StepsAs a before after := by
  by_cases hsmall : (slot : Int) < 4
  · obtain ⟨op, hop, hexecute⟩ := hcompact (by omega)
    refine stepsAs_of_bytes op [] hx ?_ fun c => encodes_plain hexecute
    rw [hassemble, localAccess, if_pos hsmall, hop, lowByte_nat]
  by_cases hbyte : (slot : Int) ≤ 255
  · have hback : slot.toUInt8.toNat = slot := toNat_toUInt8_of_le (by omega)
    refine stepsAs_of_bytes base [slot.toUInt8] hx ?_ fun c => ?_
    · rw [hassemble, localAccess, if_neg hsmall, if_pos hbyte, lowByte_nat]
      rfl
    · have hcode : Encodes c [base.byte, slot.toUInt8] (x slot.toUInt8.toNat) :=
        encodes_operand (y := fun b : UInt8 => x b.toNat) hbase fun f p hb =>
          u1_readingAt (stands_cons.mp hb).1
      rwa [hback] at hcode
  · have hback : slot.toUInt16.toNat = slot := Utf16.toNat_toUInt16_of_lt (Nat.lt_succ_of_le hslot)
    refine stepsAs_of_bytes .wide (base.byte :: twoBytes slot.toUInt16) hx ?_ fun c => ?_
    · rw [hassemble, localAccess, if_neg hsmall, if_neg hbyte, twoBytes_nat hslot]
    · refine encodes_inFrame rfl fun f p hstands => ?_
      rw [wide_readingAt hstands, hback, hwide]
      rfl

/-- The forms of an instruction that loads a local variable. -/
theorem load_forms {base : Opcode} (hbase : base ∈ Opcode.loads) :
    (∀ slot < 4, ∃ op : Opcode, op.byte = compact .iload0 .iload base + slot.toUInt8 ∧
      Step.execute op = Step.inFrame (do push (← FrameM.load slot))) ∧
    Step.execute base = Step.inFrame (do push (← FrameM.load (← u1).toNat)) ∧
    ∀ slot, wideForm base slot = (do push (← FrameM.load slot)) := by
  simp only [Opcode.loads, List.mem_cons, List.not_mem_nil, or_false] at hbase
  refine ⟨fun slot hslot => ⟨(base.compactForms[slot]?).getD .nop, ?_⟩, ?_, fun slot => ?_⟩
  · obtain rfl | rfl | rfl | rfl | rfl := hbase <;> interval_cases slot <;> exact ⟨rfl, rfl⟩
  · obtain rfl | rfl | rfl | rfl | rfl := hbase <;> rfl
  · obtain rfl | rfl | rfl | rfl | rfl := hbase <;> rfl

/-- The forms of an instruction that stores into a local variable. -/
theorem store_forms {base : Opcode} (hbase : base ∈ Opcode.stores) :
    (∀ slot < 4, ∃ op : Opcode, op.byte = compact .istore0 .istore base + slot.toUInt8 ∧
      Step.execute op = Step.inFrame (storeTop slot)) ∧
    Step.execute base = Step.inFrame (do storeTop (← u1).toNat) ∧
    ∀ slot, wideForm base slot = storeTop slot := by
  simp only [Opcode.stores, List.mem_cons, List.not_mem_nil, or_false] at hbase
  refine ⟨fun slot hslot => ⟨(base.compactForms[slot]?).getD .nop, ?_⟩, ?_, fun slot => ?_⟩
  · obtain rfl | rfl | rfl | rfl | rfl := hbase <;> interval_cases slot <;> exact ⟨rfl, rfl⟩
  · obtain rfl | rfl | rfl | rfl | rfl := hbase <;> rfl
  · obtain rfl | rfl | rfl | rfl | rfl := hbase <;> rfl

theorem acts_load {slot : Nat} {v : Value} (hv : locals[slot]? = some v) :
    Acts (do push (← FrameM.load slot)) (stack, locals) (v :: stack, locals) := by
  rintro f rfl rfl
  have hload : FrameM.load slot f = .ok (v, f) := by
    rw [FrameM.load, hv]
  rw [bind_ok hload]
  rfl

theorem acts_storeTop {slot : Nat} {v : Value} (hv : v.isWide = false) (hin : slot < locals.size) :
    Acts (storeTop slot) (v :: stack, locals) (stack, locals.setIfInBounds slot v) := by
  rintro f hstack rfl
  rw [storeTop, bind_ok (pop_cons hstack), FrameM.store, hv]
  exact if_neg (Nat.not_lt.mpr hin)

theorem acts_storeTop_wide {slot : Nat} {v : Value} (hv : v.isWide = true)
    (hin : slot + 1 < locals.size) : Acts (storeTop slot) (v :: stack, locals)
      (stack, (locals.setIfInBounds slot v).setIfInBounds (slot + 1) v) := by
  rintro f hstack rfl
  rw [storeTop, bind_ok (pop_cons hstack), FrameM.store, hv]
  exact if_neg (Nat.not_lt.mpr hin)

theorem acts_increment {slot : Nat} {v delta : Int32} (hv : locals[slot]? = some (.int v)) :
    Acts (increment slot delta) (stack, locals)
      (stack, locals.setIfInBounds slot (.int (v + delta))) := by
  rintro f rfl rfl
  have hload : FrameM.load slot f = .ok (.int v, f) := by
    rw [FrameM.load, hv]
  have hin : slot < f.locals.size := (Array.getElem?_eq_some_iff.mp hv).1
  rw [increment, bind_ok hload]
  exact if_neg (Nat.not_lt.mpr hin)

/-- A small number in one byte is read as it was written. -/
theorem s1_operand {n : Int} (h : Stands f.bytecode p [(n % 256).toNat.toUInt8]) (hlow : -128 ≤ n)
    (hhigh : n ≤ 127) : ∃ w : Int8, w.toInt = n ∧ s1 (f.readingAt p) = .ok (w, f.readingAt (p + 1)) := by
  refine ⟨(n % 256).toNat.toUInt8.toInt8, ?_, s1_readingAt (by rwa [UInt8.toUInt8_toInt8])⟩
  have hnat : ((n % 256).toNat : Int) = n % 256 := Int.toNat_of_nonneg (by omega)
  change (BitVec.ofNat 8 (n % 256).toNat).toInt = n
  rw [BitVec.toInt_ofNat', hnat, Int.bmod_eq_emod]
  split <;> omega

/-- Both forms read the slot and the number as they were written. -/
theorem iinc_steps {slot : Nat} (hslot : slot ≤ 65535) {delta : Int} (hlow : -32768 ≤ delta)
    (hhigh : delta ≤ 32767) {v : Int32} (hv : locals[slot]? = some (.int v)) :
    (Directive.iinc slot delta).StepsAs a (stack, locals)
      (stack, locals.setIfInBounds slot (.int (v + Int32.ofInt delta))) := by
  have hassemble : (Directive.iinc slot delta).assemble = Assembler.iinc slot delta := rfl
  have hsame : ∀ n : Int32, n.toInt = delta → n = Int32.ofInt delta := by
    rintro n rfl
    exact (Int32.ofInt_toInt n).symm
  by_cases hshort : (slot : Int) ≤ 255 ∧ -128 ≤ delta ∧ delta ≤ 127
  · refine stepsAs_of_bytes .iinc [slot.toUInt8, (delta % 256).toNat.toUInt8]
      (acts_increment hv) ?_ fun c => ?_
    · rw [hassemble, Assembler.iinc]
      dsimp only
      rw [if_pos hshort, lowByte_nat]
    · refine encodes_inFrame rfl fun f p h => ?_
      obtain ⟨hfirst, hsecond⟩ := stands_cons.mp h
      obtain ⟨w, hw, hread⟩ := s1_operand hsecond hshort.2.1 hshort.2.2
      have hback : slot.toUInt8.toNat = slot := toNat_toUInt8_of_le (by omega)
      rw [FrameM.iinc, bind_ok (u1_readingAt hfirst), bind_ok hread, hback,
        hsame w.toInt32 (by rw [Int8.toInt_toInt32, hw])]
      rfl
  · refine stepsAs_of_bytes .wide (Opcode.iinc.byte :: (twoBytes slot.toUInt16 ++ operand false delta))
      (acts_increment hv) ?_ fun c => ?_
    · rw [hassemble, Assembler.iinc]
      dsimp only
      rw [if_neg hshort, ← twoBytes_nat hslot, operand, if_neg (by decide), ← twoBytes_int]
      rfl
    · refine encodes_inFrame rfl fun f p h => ?_
      rw [← List.cons_append, stands_append] at h
      have hoperand : Stands f.bytecode (p + 3) (operand false delta) := h.2
      obtain ⟨w, hw, hread⟩ := s2_operand hoperand hlow hhigh
      have hback : slot.toUInt16.toNat = slot := Utf16.toNat_toUInt16_of_lt (Nat.lt_succ_of_le hslot)
      have hwide : wide (f.readingAt p) = (do
          let delta ← s2
          increment slot.toUInt16.toNat delta.toInt32) (f.readingAt (p + 3)) := wide_readingAt h.1
      rw [hwide, bind_ok hread, hback, hsame w.toInt32 (by rw [Int16.toInt_toInt32, hw])]
      rfl

end Locals

/-- What a line that pushes a number, loads or stores a local variable or adds to one says: what it
makes of an operand stack and local variables. -/
inductive Directive.Means : Directive → List Value × Array Value → List Value × Array Value → Prop
  | pushInt (v : Int32) {stack : List Value} {locals : Array Value} :
      Means (.pushInt v) (stack, locals) (.int v :: stack, locals)
  | pushLong (v : Int64) {stack : List Value} {locals : Array Value} :
      Means (.pushLong v) (stack, locals) (.long v :: stack, locals)
  | load {base : Opcode} {slot : Nat} {v : Value} {stack : List Value} {locals : Array Value}
      (hbase : base ∈ Opcode.loads) (hslot : slot ≤ 65535) (hv : locals[slot]? = some v) :
      Means (.load base slot) (stack, locals) (v :: stack, locals)
  | store {base : Opcode} {slot : Nat} {v : Value} {stack : List Value} {locals : Array Value}
      (hbase : base ∈ Opcode.stores) (hslot : slot ≤ 65535) (hv : v.isWide = false)
      (hin : slot < locals.size) :
      Means (.store base slot) (v :: stack, locals) (stack, locals.setIfInBounds slot v)
  | storeWide {base : Opcode} {slot : Nat} {v : Value} {stack : List Value} {locals : Array Value}
      (hbase : base ∈ Opcode.stores) (hslot : slot ≤ 65535) (hv : v.isWide = true)
      (hin : slot + 1 < locals.size) : Means (.store base slot) (v :: stack, locals)
        (stack, (locals.setIfInBounds slot v).setIfInBounds (slot + 1) v)
  | iinc {slot : Nat} {delta : Int} {v : Int32} {stack : List Value} {locals : Array Value}
      (hslot : slot ≤ 65535) (hlow : -32768 ≤ delta) (hhigh : delta ≤ 32767)
      (hv : locals[slot]? = some (.int v)) : Means (.iinc slot delta) (stack, locals)
        (stack, locals.setIfInBounds slot (.int (Int32.ofInt (v.toInt + delta))))

/-- Whatever class a body is assembled for, and whatever was interned in it before or comes to it
later: a line that pushes a number, loads or stores a local variable or adds to one is assembled to
bytes over which the engine takes one step, in every frame that they stand in, and that step does what
the line says. -/
theorem value_lines_step {d : Directive} {a : Assembler} {before after : List Value × Array Value}
    (hpool : ∀ b, a.pool = some b → b.InUse) (hmeans : d.Means before after) :
    d.StepsAs a before after := by
  cases hmeans with
  | pushInt v => exact pushInt_steps hpool v
  | pushLong v => exact pushLong_steps hpool v
  | load hbase hslot hv =>
      obtain ⟨hcompact, hexecute, hwide⟩ := load_forms hbase
      exact localAccess_steps (x := fun slot => do push (← FrameM.load slot)) hslot rfl
        (hcompact _) hexecute (hwide _) (acts_load hv)
  | store hbase hslot hv hin =>
      obtain ⟨hcompact, hexecute, hwide⟩ := store_forms hbase
      exact localAccess_steps hslot rfl (hcompact _) hexecute (hwide _) (acts_storeTop hv hin)
  | storeWide hbase hslot hv hin =>
      obtain ⟨hcompact, hexecute, hwide⟩ := store_forms hbase
      exact localAccess_steps hslot rfl (hcompact _) hexecute (hwide _) (acts_storeTop_wide hv hin)
  | @iinc slot delta v stack locals hslot hlow hhigh hv =>
      have hsum : v + Int32.ofInt delta = Int32.ofInt (v.toInt + delta) := by
        rw [Int32.ofInt_add, Int32.ofInt_toInt]
      rw [← hsum]
      exact iinc_steps hslot hlow hhigh hv

/-- An engine that is about to execute bytes that were assembled for a class. -/
def runningOn (b : Builder) (bytes : Array UInt8) : Machine :=
  { Session.fresh with
    frames := [.enter { rethrower with code := some ⟨1, 0, bytes, [], []⟩, file := b.file } #[] []] }

theorem stands_whole {bytes : Array UInt8} {bs : List UInt8} (h : bytes.toList = bs) :
    Stands bytes 0 bs := by
  subst h
  intro k b hb
  rwa [Nat.zero_add, ← Array.getElem?_toList]

/-- A number that only fits into the pool, and a long that is stored behind 255 other slots. -/
theorem value_lines_step_large :
    (∃ a b, (Directive.pushInt 100000).assemble (.start (some (.start "A" [] ⟨1⟩))) = .ok ((), a) ∧
      a.pool = some b ∧ ∀ ctx, ∃ m f, advance ctx (runningOn b a.bytes) = .ok .next m ∧
        m.frames = [f] ∧ f.stack = [.int 100000] ∧ f.pc = a.bytes.size) ∧
    (Directive.store .lstore 256).StepsAs (.start none) ([.long 7], Array.replicate 258 .null)
      ([], ((Array.replicate 258 .null).setIfInBounds 256 (.long 7)).setIfInBounds 257 (.long 7)) := by
  constructor
  · have hpool : ∀ b, (Assembler.start (some (.start "A" [] ⟨1⟩))).pool = some b → b.InUse := by
      intro b hb
      obtain rfl := Option.some.inj hb
      exact ⟨_, _, _, .refl⟩
    obtain ⟨hruns, hsteps⟩ := value_lines_step hpool
      (.pushInt 100000 : (Directive.pushInt 100000).Means ([], #[]) ([.int 100000], #[]))
    obtain ⟨a, ha⟩ := hruns.mpr fun _ => rfl
    obtain ⟨b, hb, hfills⟩ := (Directive.pushInt 100000).assemble_fillsPool _ _ _ _ ha rfl
    have hroom : b.file.pool.size ≤ Builder.maxEntries := by
      have hstart : (Builder.start "A" [] ⟨1⟩).file.pool.size ≤ 9 := Builder.addsAtMost_enter "A" [] _
      have hmore := hfills.size
      rw [Builder.maxEntries]
      omega
    obtain ⟨bs, -, hbytes, hstep⟩ := hsteps a ha
    have hsize : a.bytes.size = bs.length := by
      rw [← Array.length_toList, hbytes]
      rfl
    refine ⟨a, b, ha, hb, fun ctx => ⟨_, _, hstep ctx (runningOn b a.bytes) _ [] 0 rfl rfl
      (stands_whole hbytes) (fun b' hb' => ?_) rfl rfl, rfl, rfl, ?_⟩⟩
    · obtain rfl := Option.some.inj (hb.symm.trans hb')
      exact ⟨b, .refl, rfl, hroom⟩
    · rw [hsize]
      exact Int.zero_add _
  · exact value_lines_step nofun
      (.storeWide (by decide) (by decide) rfl (by rw [Array.size_replicate]; decide))

end ClassEngine
