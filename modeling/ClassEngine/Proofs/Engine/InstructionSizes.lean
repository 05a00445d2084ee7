import ClassEngine.Proofs.Assembly.Branches
import ClassEngine.Proofs.Bytecode.Listings
import ClassEngine.Proofs.Engine.CallChain

/-!
How far an instruction moves its activation. Each instruction reads the operands that belong to its
opcode, one byte after the other, whatever else it runs on the way; so unless it jumps, it leaves its
activation behind the bytes that the size of the instruction counts. Main result:
`instruction_sizes_agree`.
-/

namespace ClassEngine

open Machine Exec Linking Resolution Allocation Interpreter

/-- An instruction goes on somewhere else: it is a switch, or a branch that is taken. -/
def Opcode.Jumps (op : Opcode) (stack : List Value) : Prop :=
  op = .tableswitch ∨ op = .lookupswitch ∨ ∃ rest, op.decision stack = some (true, rest)

/-- An activation after it has read `n` bytes of its code. The operands and the local variables may
be others. -/
structure Frame.Past (n : Nat) (f g : Frame) : Prop where
  kept : FrameRel.position.rel f g
  pc : g.pc = f.pc + n
  within : f.pc ≤ f.bytecode.size → g.pc ≤ f.bytecode.size

namespace Frame.Past

variable {n k : Nat} {f g h : Frame}

theorem refl (f : Frame) : f.Past 0 f where
  kept := FrameRel.position.refl f
  pc := by simp
  within h := h

theorem method (hg : f.Past n g) : g.method = f.method :=
  FrameRel.position.method hg.kept

theorem bytecode (hg : f.Past n g) : g.bytecode = f.bytecode := by
  rw [Frame.bytecode, Frame.bytecode, hg.method]

theorem opPc (hg : f.Past n g) : g.opPc = f.opPc := by
  have hkept : g = { f with stack := g.stack, locals := g.locals, pc := g.pc } := hg.kept
  rw [hkept]

theorem trans (hg : f.Past n g) (hh : g.Past k h) : f.Past (n + k) h where
  kept := FrameRel.position.trans hg.kept hh.kept
  pc := by rw [hh.pc, hg.pc, Int.natCast_add, Int.add_assoc]
  within hf := by
    rw [← hg.bytecode] at hf ⊢
    exact hh.within (hg.bytecode ▸ hg.within (hg.bytecode ▸ hf))

/-- Nothing has moved but operands and local variables. -/
theorem of_place (hg : FrameRel.place.rel f g) : f.Past 0 g where
  kept := by
    change g = _
    rw [show g = { f with stack := g.stack, locals := g.locals } from hg]
  pc := by
    rw [show g = { f with stack := g.stack, locals := g.locals } from hg]
    simp
  within := by
    rw [show g = { f with stack := g.stack, locals := g.locals } from hg]
    exact id

theorem withStack (hg : f.Past n g) (vs : List Value) : f.Past n { g with stack := vs } := by
  have hstack : FrameRel.place.rel g { g with stack := vs } := rfl
  exact hg.trans (of_place hstack)

end Frame.Past

namespace FrameM

variable {α β : Type} {n k : Nat}

/-- An operation that reads `n` bytes of the code whenever it comes to its end. -/
def Passes (n : Nat) (x : FrameM α) : Prop :=
  ∀ ⦃f g : Frame⦄ ⦃a : α⦄, x f = .ok (a, g) → f.Past n g

theorem Passes.of_keeps {x : FrameM α} (h : x.Keeps .place) : x.Passes 0 :=
  fun _ _ _ hx => .of_place (h hx)

theorem Passes.bind {x : FrameM α} {y : α → FrameM β} (hx : x.Passes n)
    (hy : ∀ a, (y a).Passes k) : (x >>= y).Passes (n + k) := by
  intro f g b h
  obtain ⟨a, f', hx', hy'⟩ := of_bind_ok h
  exact (hx hx').trans (hy a hy')

theorem Passes.pure (a : α) : Passes 0 (pure a : FrameM α) :=
  .of_keeps (.pure a)

theorem Passes.fail (e : Fault) : Passes n (fail e : FrameM α) := by
  intro f g a h
  contradiction

theorem passes_u1 : u1.Passes 1 := by
  intro f g b h
  obtain ⟨hpc, hb, rfl⟩ := of_u1_ok h
  have hlt := (Array.getElem?_eq_some_iff.mp hb).1
  refine ⟨rfl, rfl, fun _ => ?_⟩
  dsimp only
  omega

theorem passes_s1 : s1.Passes 1 :=
  passes_u1.bind fun _ => .pure _

theorem passes_u2 : u2.Passes 2 :=
  passes_u1.bind fun _ => passes_u1.bind fun _ => .pure _

theorem passes_s2 : s2.Passes 2 :=
  passes_u2.bind fun _ => .pure _

theorem passes_increment (slot : Nat) (delta : Int32) : (increment slot delta).Passes 0 :=
  .of_keeps (keeps_increment slot delta)

theorem passes_iinc : iinc.Passes 2 :=
  passes_u1.bind fun _ => passes_s1.bind fun _ => passes_increment _ _

/-- How many operand bytes follow the wide prefix, by the instruction that it widens: one that adds to
a local variable has the distance besides. -/
def wideOperands (widened : Option Opcode) : Nat :=
  if widened = some .iinc then 5 else 3

theorem wide_past {f g : Frame} (h : wide f = .ok ((), g)) :
    ∃ b, f.bytecode[f.pc.toNat]? = some b ∧ f.Past (wideOperands (Opcode.ofByte? b)) g := by
  obtain ⟨b, f₁, hb, h⟩ := of_bind_ok h
  obtain ⟨slot, f₂, hslot, h⟩ := of_bind_ok h
  have hread : f.Past 3 f₂ := (passes_u1 hb).trans (passes_u2 hslot)
  have hrest : ∀ {x : FrameM Unit}, x f₂ = .ok ((), g) →
      x.Passes (wideOperands (Opcode.ofByte? b) - 3) →
      f.Past (wideOperands (Opcode.ofByte? b)) g := by
    intro x hx hpasses
    have hle : 3 ≤ wideOperands (Opcode.ofByte? b) := by
      rw [wideOperands]
      split <;> omega
    have hpast := hread.trans (hpasses hx)
    rwa [Nat.add_sub_cancel' hle] at hpast
  have hload : (do push (← load slot.toNat) : FrameM Unit).Passes 0 :=
    .of_keeps (.bind (keeps_load _) keeps_push)
  have hstore : (storeTop slot.toNat).Passes 0 := .of_keeps (keeps_storeTop _)
  have hadd : (do
      let delta ← s2
      increment slot.toNat delta.toInt32 : FrameM Unit).Passes 2 :=
    passes_s2.bind fun _ => passes_increment _ _
  refine ⟨b, (of_u1_ok hb).2.1, hrest h ?_⟩
  split
  case h_12 => exact .fail _
  case h_11 hop =>
    rw [hop]
    exact hadd
  all_goals
    rename_i hop
    rw [hop]
    first | exact hload | exact hstore

section Branches

/-- A branch whose test fails is over once its operands are read. -/
theorem of_untaken {f g : Frame} {offset : Int16} {taken : Prop} [Decidable taken]
    (h : (if taken then branch offset.toInt else pure () : FrameM Unit) f = .ok ((), g))
    (hnot : ¬taken) : g = f := by
  rw [if_neg hnot] at h
  exact (Prod.mk.inj (Except.ok.inj h)).2.symm

theorem reference?_elim (r : Option Ref) : (r.elim Value.null .ref).reference? = some r := by
  cases r <;> rfl

variable {f g : Frame} {op : Opcode}

/-- The distance of a branch is read, and the operands on the stack are the same. -/
theorem of_s2_ok {offset : Int16} (h : s2 f = .ok (offset, g)) : f.Past 2 g ∧ g.stack = f.stack := by
  have hkept : FrameRel.reading.rel f g := keeps_s2 h
  refine ⟨passes_s2 h, ?_⟩
  rw [show g = { f with pc := g.pc } from hkept]

/-- A conditional branch on one int. -/
theorem branchInt_past {c : Condition} {test : Int32 → Bool} (htest : ∀ a, c.holds a 0 = test a)
    (h : branchInt c f = .ok ((), g)) (hnot : ∀ rest, decideInt test f.stack ≠ some (true, rest)) :
    f.Past 2 g := by
  obtain ⟨offset, f₁, hoffset, h⟩ := of_bind_ok h
  obtain ⟨a, f₂, hpop, h⟩ := of_bind_ok h
  obtain ⟨hpast, hstack⟩ := of_s2_ok hoffset
  obtain ⟨rest, hints, rfl⟩ := of_popInt_ok hpop
  have huntaken : ¬c.holds a 0 = true := by
    intro hholds
    refine hnot rest ?_
    rw [← hstack, hints, decideInt, ← htest, hholds]
  rw [of_untaken h huntaken]
  exact hpast.withStack _

/-- A conditional branch on two ints. -/
theorem branchInts_past {c : Condition} {test : Int32 → Int32 → Bool}
    (htest : ∀ a b, c.holds a b = test a b) (h : branchInts c f = .ok ((), g))
    (hnot : ∀ rest, decideInts test f.stack ≠ some (true, rest)) : f.Past 2 g := by
  obtain ⟨offset, f₁, hoffset, h⟩ := of_bind_ok h
  obtain ⟨b, f₂, hpop, h⟩ := of_bind_ok h
  obtain ⟨a, f₃, hpop', h⟩ := of_bind_ok h
  obtain ⟨hpast, hstack⟩ := of_s2_ok hoffset
  obtain ⟨rest, hints, rfl⟩ := of_popInt_ok hpop
  obtain ⟨rest', hints', rfl⟩ := of_popInt_ok hpop'
  have huntaken : ¬c.holds a b = true := by
    intro hholds
    refine hnot rest' ?_
    rw [← hstack, hints, show rest = .int a :: rest' from hints', decideInts, ← htest, hholds]
  rw [of_untaken h huntaken]
  exact hpast.withStack _

/-- A conditional branch on one reference. -/
theorem branchNull_past {isNull : Bool} {test : Option Ref → Bool}
    (htest : ∀ r : Option Ref, (r.isNone == isNull) = test r)
    (h : branchNull isNull f = .ok ((), g))
    (hnot : ∀ rest, decideRef test f.stack ≠ some (true, rest)) : f.Past 2 g := by
  obtain ⟨offset, f₁, hoffset, h⟩ := of_bind_ok h
  obtain ⟨r, f₂, hpop, h⟩ := of_bind_ok h
  obtain ⟨hpast, hstack⟩ := of_s2_ok hoffset
  obtain ⟨rest, hrefs, rfl⟩ := of_popRef_ok hpop
  have huntaken : ¬(r.isNone == isNull) = true := by
    intro hholds
    refine hnot rest ?_
    rw [← hstack, hrefs, decideRef, reference?_elim, Option.map_some, ← htest, hholds]
  rw [of_untaken h huntaken]
  exact hpast.withStack _

/-- A conditional branch on two references. -/
theorem branchRefs_past {same : Bool} {test : Option Ref → Option Ref → Bool}
    (htest : ∀ r s : Option Ref, ((r == s) == same) = test r s)
    (h : branchRefs same f = .ok ((), g))
    (hnot : ∀ rest, decideRefs test f.stack ≠ some (true, rest)) : f.Past 2 g := by
  obtain ⟨offset, f₁, hoffset, h⟩ := of_bind_ok h
  obtain ⟨s, f₂, hpop, h⟩ := of_bind_ok h
  obtain ⟨r, f₃, hpop', h⟩ := of_bind_ok h
  obtain ⟨hpast, hstack⟩ := of_s2_ok hoffset
  obtain ⟨rest, hrefs, rfl⟩ := of_popRef_ok hpop
  obtain ⟨rest', hrefs', rfl⟩ := of_popRef_ok hpop'
  have huntaken : ¬((r == s) == same) = true := by
    intro hholds
    refine hnot rest' ?_
    rw [← hstack, hrefs, show rest = r.elim .null .ref :: rest' from hrefs', decideRefs,
      reference?_elim, reference?_elim]
    exact congrArg (fun taken => some (taken, rest')) ((htest r s).symm.trans hholds)
  rw [of_untaken h huntaken]
  exact hpast.withStack _

end Branches

end FrameM

variable {α β : Type} {ctx : Context} {n k : Nat}

/-- A computation that, whenever it comes to its end, leaves the innermost activation `n` bytes
further on in its code, on top of the same callers. -/
def Passes (ctx : Context) (n : Nat) (x : Exec α) : Prop :=
  ∀ ⦃m m' : Machine⦄ ⦃a : α⦄, x ctx m = .ok a m' → ∀ ⦃f : Frame⦄ ⦃callers : List Frame⦄,
    m.frames = f :: callers → ∃ g, m'.frames = g :: callers ∧ f.Past n g

section Rules

theorem frames_of_respects {x : Exec α} {m m' : Machine} {a : α} {frames : List Frame}
    (hx : Respects .sameFrames ctx x) (h : x ctx m = .ok a m') (hframes : m.frames = frames) :
    m'.frames = frames := by
  have hsame : (endOf (x ctx m)).frames = m.frames := hx m
  rw [h] at hsame
  exact hsame.trans hframes

@[grind ←] theorem Passes.of_sameFrames {x : Exec α} (hx : Respects .sameFrames ctx x) :
    Passes ctx 0 x :=
  fun _ _ _ h f _ hframes => ⟨f, frames_of_respects hx h hframes, .refl f⟩

theorem Passes.pure (a : α) : Passes ctx 0 (pure a) :=
  .of_sameFrames (.pure a)

theorem Passes.bind {x : Exec α} {y : α → Exec β} (hx : Passes ctx n x)
    (hy : ∀ a, Passes ctx k (y a)) : Passes ctx (n + k) (x >>= y) := by
  intro m m' b h f callers hframes
  obtain ⟨a, m₁, hx', hy'⟩ := of_bind_ok h
  obtain ⟨f₁, hframes₁, hpast₁⟩ := hx hx' hframes
  obtain ⟨g, hframes', hpast⟩ := hy a hy' hframes₁
  exact ⟨g, hframes', hpast₁.trans hpast⟩

/-- The operands are read first. -/
theorem Passes.operand {x : Exec α} {y : α → Exec β} (hx : Passes ctx n x)
    (hy : ∀ a, Passes ctx 0 (y a)) : Passes ctx n (x >>= y) :=
  hx.bind hy

@[grind ←] theorem Passes.rest {x : Exec α} {y : α → Exec β} (hx : Passes ctx 0 x)
    (hy : ∀ a, Passes ctx 0 (y a)) : Passes ctx 0 (x >>= y) :=
  hx.bind hy

theorem passes_onFrame {x : FrameM α} (hx : x.Passes n) : Passes ctx n (onFrame x) := by
  intro m m' a h f callers hframes
  unfold onFrame at h
  rw [hframes] at h
  dsimp only at h
  split at h
  case h_1 g hrun =>
    obtain ⟨rfl, rfl⟩ := EStateM.Result.ok.inj h
    exact ⟨g, rfl, hx hrun⟩
  case h_2 => contradiction

@[grind ←] theorem passes_keeping {x : FrameM α} (hx : x.Keeps .place) : Passes ctx 0 (onFrame x) :=
  passes_onFrame (.of_keeps hx)

end Rules

section References

open Reference

@[grind ←] theorem passes_push (v : Value) : Passes ctx 0 (push v) :=
  passes_keeping (FrameM.keeps_push v)

theorem passes_memberRef : Passes ctx 2 memberRef := by
  refine (passes_onFrame FrameM.passes_u2).operand fun index => ?_
  grind

theorem passes_classRef : Passes ctx 2 classRef := by
  refine (passes_onFrame FrameM.passes_u2).operand fun index => ?_
  grind

variable [RespectingContext .sameFrames ctx]

@[grind ←] theorem passes_loadConstant (index : UInt16) : Passes ctx 0 (loadConstant index) := by
  refine .rest (.of_sameFrames respects_currentFile) fun file => ?_
  refine .rest (.of_sameFrames (respects_orMalformed _)) fun k => ?_
  split <;> grind

theorem passes_getStatic : Passes ctx 2 getStatic := by
  refine passes_memberRef.operand fun ref => ?_
  grind

theorem passes_putStatic : Passes ctx 2 putStatic := by
  refine passes_memberRef.operand fun ref => ?_
  grind

@[grind ←] theorem passes_popOwner (ref : MemberRef) : Passes ctx 0 (popOwner ref) := by
  unfold popOwner
  grind

theorem passes_getField : Passes ctx 2 getField := by
  refine passes_memberRef.operand fun ref => .rest (passes_popOwner ref) fun r => ?_
  refine .rest (.of_sameFrames (respects_fieldOwner ref)) fun owner => ?_
  refine .rest (.of_sameFrames (respects_readField _)) fun v => ?_
  grind

theorem passes_putField : Passes ctx 2 putField := by
  refine passes_memberRef.operand fun ref => ?_
  grind

@[grind ←] theorem passes_popCall (ref : MemberRef) : Passes ctx 0 (popCall ref) := by
  unfold popCall
  grind

theorem passes_staticCall : Passes ctx 2 staticCall := by
  refine passes_memberRef.operand fun ref => ?_
  grind

theorem passes_receiverCall (ref : MemberRef) : Passes ctx 0 (receiverCall ref) := by
  unfold receiverCall
  grind

theorem passes_virtualCall : Passes ctx 2 virtualCall :=
  passes_memberRef.operand passes_receiverCall

/-- The two bytes that carry nothing are read as well. -/
theorem passes_interfaceCall : Passes ctx 4 interfaceCall :=
  passes_memberRef.bind fun ref => (passes_onFrame FrameM.passes_u1).bind fun _ =>
    (passes_onFrame FrameM.passes_u1).operand fun _ => passes_receiverCall ref

theorem passes_specialCall : Passes ctx 2 specialCall := by
  refine passes_memberRef.operand fun ref => ?_
  grind

/-- A call leaves its activation where it was once the operands are read, whatever it runs. -/
theorem passes_invoke {target : Exec Call} (h : Passes ctx n target) :
    Passes ctx n (Reference.invoke target) := by
  refine h.operand fun call => ?_
  grind

theorem passes_newInstance : Passes ctx 2 newInstance := by
  refine passes_classRef.operand fun name => ?_
  grind

@[grind ←] theorem passes_newArrayWithLength (element : Descriptor) :
    Passes ctx 0 (newArrayWithLength element) := by
  unfold newArrayWithLength
  grind

theorem passes_newPrimitiveArray : Passes ctx 1 newPrimitiveArray := by
  refine (passes_onFrame FrameM.passes_u1).operand fun code => ?_
  grind

theorem passes_newReferenceArray : Passes ctx 2 newReferenceArray :=
  passes_classRef.operand fun _ => passes_newArrayWithLength _

theorem passes_newMultiArray : Passes ctx 3 newMultiArray := by
  refine passes_classRef.bind fun name => (passes_onFrame FrameM.passes_u1).operand fun dims => ?_
  grind

@[grind ←] theorem passes_arrayLength : Passes ctx 0 arrayLength := by
  unfold arrayLength
  grind

@[grind ←] theorem passes_throwTop : Passes ctx 0 throwTop := by
  unfold throwTop
  grind

@[grind ←] theorem passes_monitor : Passes ctx 0 monitor := by
  unfold monitor
  grind

theorem passes_checkCast : Passes ctx 2 checkCast := by
  refine passes_classRef.operand fun name => ?_
  grind

theorem passes_instanceTest : Passes ctx 2 instanceTest := by
  refine passes_classRef.operand fun name => ?_
  grind

@[grind ←] theorem passes_popElement : Passes ctx 0 Arrays.popElement := by
  unfold Arrays.popElement
  grind

@[grind ←] theorem passes_load : Passes ctx 0 Arrays.load := by
  unfold Arrays.load
  grind

@[grind ←] theorem passes_store : Passes ctx 0 Arrays.store := by
  unfold Arrays.store
  grind

end References

section Steps

open Step

@[grind ←] theorem passes_thenNext {x : Exec Unit} (hx : Passes ctx n x) :
    Passes ctx n (thenNext x) :=
  hx.operand fun _ => .pure Outcome.next

theorem passes_inFrame {x : FrameM Unit} (hx : x.Passes n) : Passes ctx n (inFrame x) :=
  (passes_onFrame hx).operand fun _ => .pure Outcome.next

@[grind ←] theorem passes_inPlace {x : FrameM Unit} (hx : x.Keeps .place) :
    Passes ctx 0 (inFrame x) :=
  passes_inFrame (.of_keeps hx)

@[grind ←] theorem passes_constant (v : Value) : Passes ctx 0 (Step.constant v) :=
  passes_inPlace (FrameM.keeps_push v)

@[grind ←] theorem passes_loadLocal (slot : Nat) : Passes ctx 0 (Step.load slot) :=
  passes_inPlace (.bind (FrameM.keeps_load slot) FrameM.keeps_push)

@[grind ←] theorem passes_storeLocal (slot : Nat) : Passes ctx 0 (Step.store slot) :=
  passes_inPlace (FrameM.keeps_storeTop slot)

theorem malformed_ne_ok {reason : Text} {m m' : Machine} {a : α} :
    malformed reason ctx m ≠ .ok a m' := by
  intro h
  obtain ⟨f, m₁, _, hthrow⟩ := of_bind_ok h
  contradiction

theorem unsupported_ne_ok {name : Text} {m m' : Machine} {o : Outcome} :
    unsupported name ctx m ≠ .ok o m' :=
  malformed_ne_ok

theorem passes_unsupported (name : Text) : Passes ctx n (unsupported name) :=
  fun _ _ _ h => absurd h unsupported_ne_ok

variable [RespectingContext .sameFrames ctx]

@[grind ←] theorem passes_orDivisionByZero (r : Option Value) :
    Passes ctx 0 (orDivisionByZero r) := by
  unfold orDivisionByZero
  grind

@[grind ←] theorem passes_intOp (op : IntOp) : Passes ctx 0 (intOp op) := by
  unfold intOp
  grind

@[grind ←] theorem passes_longOp (op : IntOp) : Passes ctx 0 (longOp op) := by
  unfold longOp
  grind

/-- The operands of the opcode table are those that the engine reads. -/
theorem passes_execute {op : Opcode} (hop : op.operands = .fixed n) (hbranch : op.isBranch = false) :
    Passes ctx n (Step.execute op) := by
  have hload : FrameM.Passes 1 (do FrameM.push (← FrameM.load (← FrameM.u1).toNat)) :=
    FrameM.passes_u1.bind fun slot =>
      .of_keeps (.bind (FrameM.keeps_load slot.toNat) FrameM.keeps_push)
  have hstore : FrameM.Passes 1 (do FrameM.storeTop (← FrameM.u1).toNat) :=
    FrameM.passes_u1.bind fun slot => .of_keeps (FrameM.keeps_storeTop slot.toNat)
  cases op
  case bipush =>
    cases hop
    exact passes_inFrame (FrameM.passes_s1.bind fun _ => .of_keeps (FrameM.keeps_push _))
  case sipush =>
    cases hop
    exact passes_inFrame (FrameM.passes_s2.bind fun _ => .of_keeps (FrameM.keeps_push _))
  case ldc =>
    cases hop
    exact passes_thenNext ((passes_onFrame FrameM.passes_u1).operand fun _ => passes_loadConstant _)
  case ldcW | ldc2W =>
    cases hop
    exact passes_thenNext ((passes_onFrame FrameM.passes_u2).operand fun _ => passes_loadConstant _)
  case iload | lload | fload | dload | aload =>
    cases hop
    exact passes_inFrame hload
  case istore | lstore | fstore | dstore | astore =>
    cases hop
    exact passes_inFrame hstore
  case iinc =>
    cases hop
    exact passes_inFrame FrameM.passes_iinc
  case getstatic =>
    cases hop
    exact passes_thenNext passes_getStatic
  case putstatic =>
    cases hop
    exact passes_thenNext passes_putStatic
  case getfield =>
    cases hop
    exact passes_thenNext passes_getField
  case putfield =>
    cases hop
    exact passes_thenNext passes_putField
  case invokevirtual =>
    cases hop
    exact passes_thenNext (passes_invoke passes_virtualCall)
  case invokespecial =>
    cases hop
    exact passes_thenNext (passes_invoke passes_specialCall)
  case invokestatic =>
    cases hop
    exact passes_thenNext (passes_invoke passes_staticCall)
  case invokeinterface =>
    cases hop
    exact passes_thenNext (passes_invoke passes_interfaceCall)
  case newObject =>
    cases hop
    exact passes_thenNext passes_newInstance
  case newarray =>
    cases hop
    exact passes_thenNext passes_newPrimitiveArray
  case anewarray =>
    cases hop
    exact passes_thenNext passes_newReferenceArray
  case multianewarray =>
    cases hop
    exact passes_thenNext passes_newMultiArray
  case checkcast =>
    cases hop
    exact passes_thenNext passes_checkCast
  case instanceof =>
    cases hop
    exact passes_thenNext passes_instanceTest
  case ret | invokedynamic => exact passes_unsupported _
  all_goals first | contradiction | (cases hop; unfold Step.execute; grind)

omit [RespectingContext .sameFrames ctx] in
theorem of_inFrame_ok {x : FrameM Unit} {m m' : Machine} {o : Outcome} {f : Frame}
    {callers : List Frame} (h : inFrame x ctx m = .ok o m') (hframes : m.frames = f :: callers) :
    ∃ g, x f = .ok ((), g) ∧ m'.frames = g :: callers := by
  obtain ⟨_, m₁, hrun, hpure⟩ := of_bind_ok h
  obtain ⟨rfl, rfl⟩ := EStateM.Result.ok.inj hpure
  unfold onFrame at hrun
  rw [hframes] at hrun
  dsimp only at hrun
  split at hrun
  case h_1 g hx =>
    obtain ⟨_, rfl⟩ := EStateM.Result.ok.inj hrun
    exact ⟨g, hx, rfl⟩
  case h_2 => contradiction

omit [RespectingContext .sameFrames ctx] in
/-- A branch that is not taken. -/
theorem untaken_past {op : Opcode} {m m' : Machine} {o : Outcome} {f : Frame} {callers : List Frame}
    (hbranch : op.isBranch = true) (hrun : Step.execute op ctx m = .ok o m')
    (hframes : m.frames = f :: callers) (hnot : ¬op.Jumps f.stack) :
    op.operands = .fixed 2 ∧ ∃ g, m'.frames = g :: callers ∧ f.Past 2 g := by
  have huntaken : ∀ rest, op.decision f.stack ≠ some (true, rest) := fun rest h =>
    hnot (.inr (.inr ⟨rest, h⟩))
  have hpast : ∀ {x : FrameM Unit}, inFrame x ctx m = .ok o m' →
      (∀ {g}, x f = .ok ((), g) → f.Past 2 g) → ∃ g, m'.frames = g :: callers ∧ f.Past 2 g := by
    intro x hx hg
    obtain ⟨g, hrun, hframes'⟩ := of_inFrame_ok hx hframes
    exact ⟨g, hframes', hg hrun⟩
  cases op
  case ifeq | ifne | iflt | ifge | ifgt | ifle =>
    exact ⟨rfl, hpast hrun fun hx => FrameM.branchInt_past
      (fun a => by rw [Bool.eq_iff_iff]; simp [FrameM.Condition.holds]) hx huntaken⟩
  case ifIcmpeq | ifIcmpne | ifIcmplt | ifIcmpge | ifIcmpgt | ifIcmple =>
    exact ⟨rfl, hpast hrun fun hx => FrameM.branchInts_past
      (fun a b => by rw [Bool.eq_iff_iff]; simp [FrameM.Condition.holds]) hx huntaken⟩
  case ifAcmpeq | ifAcmpne =>
    exact ⟨rfl, hpast hrun fun hx => FrameM.branchRefs_past
      (fun r s => by by_cases hrs : r = s <;> simp [hrs]) hx huntaken⟩
  case ifnull | ifnonnull =>
    exact ⟨rfl, hpast hrun fun hx => FrameM.branchNull_past (fun r => by cases r <;> rfl) hx huntaken⟩
  case goto | gotoW => exact absurd rfl (huntaken f.stack)
  case jsr | jsrW =>
    obtain ⟨_, _, _, hthrow⟩ := of_bind_ok hrun
    contradiction
  all_goals contradiction

end Steps

section Sizes

variable {ctx : Context} {m m' : Machine} {f : Frame} {callers : List Frame} {b : UInt8}

theorem Opcode.byte_of_ofByte? {op : Opcode} (h : Opcode.ofByte? b = some op) : op.byte = b := by
  -- one pass over the table; looking up each of the bytes takes much longer
  have hall : Opcode.all.toList.map (fun op => op.byte.toNat) = List.range Opcode.all.size := by
    decide +kernel
  have hop : Opcode.all.toList[b.toNat]? = some op := by
    rw [Array.getElem?_toList]
    exact h
  have hb : (Opcode.all.toList.map fun op => op.byte.toNat)[b.toNat]? = some op.byte.toNat := by
    rw [List.getElem?_map, hop, Option.map_some]
  rw [hall, List.getElem?_eq_some_iff] at hb
  obtain ⟨_, hb⟩ := hb
  rw [List.getElem_range] at hb
  exact UInt8.toNat_inj.mp hb.symm

/-- What is counted for a widened instruction is what the engine reads of it. -/
theorem claimedLength_wide {code : Array UInt8} {pc : Nat} (h : code[pc + 1]? = some b) :
    Bytecode.claimedLength code pc .wide =
      .ok (1 + FrameM.wideOperands (Opcode.ofByte? b)) := by
  have hiinc : Opcode.ofByte? b = some .iinc ↔ b = Opcode.iinc.byte :=
    ⟨fun hop => (Opcode.byte_of_ofByte? hop).symm, fun hb => hb ▸ Opcode.ofByte?_byte .iinc⟩
  rw [Bytecode.claimedLength, Bytecode.byteAt?, h, FrameM.wideOperands]
  dsimp only
  by_cases hb : b = Opcode.iinc.byte
  · rw [if_pos hb, if_pos (hiinc.mpr hb)]
  · rw [if_neg hb, if_neg (mt hiinc.mp hb)]

/-- A size that is claimed for an instruction is its size, if the code has all its bytes. -/
theorem length_ok {code : Array UInt8} {pc : Int} {op : Opcode} {n : Nat} (hpc : 0 ≤ pc)
    (hb : code[pc.toNat]? = some b) (hop : Opcode.ofByte? b = some op)
    (hclaim : Bytecode.claimedLength code pc.toNat op = .ok n) (hfits : pc + n ≤ code.size) :
    Bytecode.length code pc = .ok n := by
  rw [Bytecode.length, if_neg (by omega), Bytecode.byteAt?, hb]
  dsimp only
  rw [hop]
  dsimp only
  rw [hclaim]
  exact if_neg (by omega)

/-- An instruction that does not jump leaves its activation behind the operands that are counted for
it. -/
theorem execute_past [RespectingContext .sameFrames ctx] {op : Opcode} {pc : Nat} {o : Outcome}
    (hrun : Step.execute op ctx m = .ok o m') (hframes : m.frames = f :: callers)
    (hpc : f.pc = (pc + 1 : Nat)) (hnot : ¬op.Jumps f.stack) :
    ∃ n g, Bytecode.claimedLength f.bytecode pc op = .ok (1 + n) ∧ m'.frames = g :: callers ∧
      f.Past n g := by
  cases hop : op.operands with
  | fixed n =>
      by_cases hbranch : op.isBranch = true
      · obtain ⟨htwo, g, hg, hpast⟩ := untaken_past hbranch hrun hframes hnot
        exact ⟨2, g, claimedLength_fixed htwo, hg, hpast⟩
      · rw [Bool.not_eq_true] at hbranch
        obtain ⟨g, hg, hpast⟩ := passes_execute hop hbranch hrun hframes
        exact ⟨n, g, claimedLength_fixed hop, hg, hpast⟩
  | varying =>
      cases op
      case tableswitch => exact absurd (.inl rfl) hnot
      case lookupswitch => exact absurd (.inr (.inl rfl)) hnot
      case wide =>
        obtain ⟨g, hwide, hg⟩ := of_inFrame_ok hrun hframes
        obtain ⟨b, hb, hpast⟩ := FrameM.wide_past hwide
        rw [hpc, Int.toNat_natCast] at hb
        exact ⟨_, g, claimedLength_wide hb, hg, hpast⟩
      all_goals contradiction

/-- The engine executes the instruction that comes next; it ends well, and the activation goes on. -/
def Instructed (ctx : Context) (m m' : Machine) : Prop :=
  (do Step.run (← fetch) : Exec Outcome) ctx m = .ok .next m'

/-- The instruction that comes next is not a jump. -/
def Frame.IsStraight (f : Frame) : Prop :=
  ∀ b ∈ f.bytecode[f.pc.toNat]?, ∀ op ∈ Opcode.ofByte? b, ¬op.Jumps f.stack

theorem Instructed.past [RespectingContext .sameFrames ctx] (h : Instructed ctx m m')
    (hframes : m.frames = f :: callers) (hstraight : f.IsStraight) :
    ∃ n g, Bytecode.length f.bytecode f.pc = .ok n ∧ m'.frames = g :: callers ∧
      g.method = f.method ∧ g.opPc = f.pc ∧ g.pc = f.pc + n := by
  obtain ⟨b, m₁, hfetch, hrun⟩ := of_bind_ok h
  obtain ⟨hpc, hb, -⟩ := of_fetch_ok hframes hfetch
  have hframes₁ := fetch_frames hframes hfetch
  unfold Step.run at hrun
  cases hop : Opcode.ofByte? b with
  | none =>
      rw [hop] at hrun
      exact absurd hrun unsupported_ne_ok
  | some op =>
      rw [hop] at hrun
      have hnext : f.pc + 1 = (f.pc.toNat + 1 : Nat) := by omega
      obtain ⟨n, g, hclaim, hg, hpast⟩ := execute_past hrun hframes₁ hnext (hstraight b hb op hop)
      have hinside : f.pc.toNat < f.bytecode.size := (Array.getElem?_eq_some_iff.mp hb).1
      have hgpc : g.pc = f.pc + 1 + n := hpast.pc
      have hfits : g.pc ≤ f.bytecode.size := by
        rw [← show g.bytecode = f.bytecode from hpast.bytecode]
        exact hpast.bytecode ▸ hpast.within (show f.pc + 1 ≤ f.bytecode.size by omega)
      refine ⟨1 + n, g, length_ok hpc hb hop hclaim ?_, hg, hpast.method, hpast.opPc, ?_⟩
      · omega
      · omega

end Sizes

/-- An instruction that ends well, and is no jump, has a size, and leaves its activation exactly
behind its bytes: whatever it has run in between, the activation is the innermost one again. -/
theorem instruction_sizes_agree (host : Host) (steps nesting : Nat) {m m' : Machine} {f : Frame}
    {callers : List Frame} (h : Instructed (Session.context host steps nesting) m m')
    (hframes : m.frames = f :: callers) (hstraight : f.IsStraight) :
    ∃ n g, Bytecode.length f.bytecode f.pc = .ok n ∧ m'.frames = g :: callers ∧
      g.method = f.method ∧ g.opPc = f.pc ∧ g.pc = f.pc + n :=
  h.past hframes hstraight

/-- A method that pushes a small number and then returns. -/
def pushing : Method :=
  { rethrower with name := "push", code := some ⟨1, 0, #[0x10, 0x07, 0xB1], [], []⟩ }

/-- An engine that is about to execute this method. -/
def beforePush : Machine :=
  { Session.fresh with frames := [Frame.enter pushing #[] []] }

/-- The first instruction of the method has two bytes. -/
theorem instruction_sizes_agree_pushing :
    ∃ m' n g, Instructed (Session.context ringHost 9 9) beforePush m' ∧
      (Frame.enter pushing #[] []).IsStraight ∧
      Bytecode.length (Frame.enter pushing #[] []).bytecode 0 = .ok n ∧ m'.frames = [g] ∧
      g.pc = n ∧ n = 2 := by
  let ctx := Session.context ringHost 9 9
  have hop : Opcode.ofByte? 0x10 = some .bipush := by decide +kernel
  have hfetch : fetch ctx beforePush = .ok 0x10 (endOf (fetch ctx beforePush)) := rfl
  have hrun : Step.run 0x10 ctx (endOf (fetch ctx beforePush)) =
      .ok .next (endOf (Step.execute .bipush ctx (endOf (fetch ctx beforePush)))) := by
    unfold Step.run
    rw [hop]
    rfl
  have hentered : beforePush.frames = [Frame.enter pushing #[] []] := rfl
  have hstraight : (Frame.enter pushing #[] []).IsStraight := by
    intro b hb op hb'
    obtain rfl : b = 0x10 := (Option.some.inj hb).symm
    obtain rfl : op = .bipush := Option.some.inj (hb'.symm.trans hop)
    rintro (h | h | ⟨rest, h⟩) <;> cases h
  obtain ⟨m', hinstructed⟩ : ∃ m', Instructed ctx beforePush m' :=
    ⟨_, (bind_of_ok hfetch).trans hrun⟩
  obtain ⟨n, g, hlength, hframes, _, _, hpc⟩ :=
    instruction_sizes_agree ringHost 9 9 hinstructed hentered hstraight
  have htwo : Bytecode.length (Frame.enter pushing #[] []).bytecode 0 = .ok 2 :=
    length_ok (by decide) rfl hop rfl (by decide)
  have hn : n = 2 := Except.ok.inj (hlength.symm.trans htwo)
  exact ⟨m', n, g, hinstructed, hstraight, hlength, hframes, hpc.trans (Int.zero_add _), hn⟩

section Runs

variable {ctx : Context} [RespectingContext .sameFrames ctx] {m m' : Machine} {f : Frame}
  {callers : List Frame}

/-- However many instructions are executed, as long as none of them jumps the activation stands where
the sizes of the instructions lead, one after the other. -/
theorem straight_run_follows
    (h : Relation.ReflTransGen (fun m m' => Instructed ctx m m' ∧
      ∀ f ∈ m.frames.head?, f.IsStraight) m m') (hframes : m.frames = f :: callers) :
    ∃ g, m'.frames = g :: callers ∧ g.method = f.method ∧
      Relation.ReflTransGen (Bytecode.Follows f.bytecode) f.pc g.pc := by
  induction h with
  | refl => exact ⟨f, hframes, rfl, .refl⟩
  | @tail m₁ m₂ _ hstep ih =>
      obtain ⟨g, hg, hmethod, hwalk⟩ := ih
      obtain ⟨hinstructed, hstraight⟩ := hstep
      obtain ⟨n, k, hlength, hk, hmethod', _, hpc⟩ :=
        hinstructed.past hg (hstraight g (by rw [hg]; rfl))
      have hbytecode : g.bytecode = f.bytecode := by
        rw [Frame.bytecode, Frame.bytecode, hmethod]
      rw [hbytecode] at hlength
      exact ⟨k, hk, hmethod'.trans hmethod, hwalk.tail ⟨n, hlength, hpc⟩⟩

end Runs

end ClassEngine
