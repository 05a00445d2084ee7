import ClassEngine.Proofs.Assembly.Branches
import ClassEngine.Proofs.Engine.StringClasses

/-!
Bodies of plain lines, which are executed one after the other. What a line does is said of the
operand stack, the locals and the objects; the rest of the engine stays as it is. Main result:
`invokeMethod_of_lines`.
-/

namespace ClassEngine

open Machine Exec Interpreter Assembler

/-- What a method works on. -/
structure Stage where
  stack : List Value
  locals : Array Value
  heap : Array Object

/-- The bytecode of a method. -/
def Method.bytecode (method : Method) : Array UInt8 :=
  match method.code with
  | some c => c.bytecode
  | none => #[]

namespace Machine

/-- The engine in a method that it has called: the instruction that it executes and the byte that it
reads next. -/
def inside (m₀ : Machine) (method : Method) (s : Stage) (opPc pc : Int) : Machine :=
  { m₀ with
    heap := s.heap
    frames := ⟨method, depthOf m₀.frames + 1, s.stack, s.locals, pc, opPc⟩ :: m₀.frames }

/-- The engine has called a method and comes to the instruction at an address. -/
def ComesTo (m₀ : Machine) (method : Method) (s : Stage) (p : Nat) (m : Machine) : Prop :=
  ∃ opPc, (m₀.inside method s opPc p).Resembles m

end Machine

section Instructions

variable {ctx : Context} {m₀ m : Machine} {method : Method} {s s' : Stage} {p q : Nat} {op : Opcode}

theorem Machine.HasStrings.inside {opPc pc : Int} (h : m₀.HasStrings)
    (hm : (m₀.inside method s opPc pc).Resembles m) : m.HasStrings :=
  hm.strings (h.of_eq rfl rfl)

/-- An operation on the frame. -/
theorem onFrame_inside {α : Type} {x : FrameM α} {v : α} {opPc pc pc' : Int}
    (hm : (m₀.inside method s opPc pc).Resembles m)
    (hx : x ⟨method, depthOf m₀.frames + 1, s.stack, s.locals, pc, opPc⟩ =
      .ok (v, ⟨method, depthOf m₀.frames + 1, s'.stack, s'.locals, pc', opPc⟩))
    (hheap : s'.heap = s.heap) :
    ∃ m', onFrame x ctx m = .ok v m' ∧ (m₀.inside method s' opPc pc').Resembles m' := by
  have hframes : m.frames = ⟨method, depthOf m₀.frames + 1, s.stack, s.locals, pc, opPc⟩ ::
      m₀.frames := hm.frames
  refine ⟨{ m with frames := ⟨method, depthOf m₀.frames + 1, s'.stack, s'.locals, pc', opPc⟩ ::
    m₀.frames }, ?_, ?_⟩
  · unfold onFrame
    rw [hframes]
    dsimp only
    rw [hx]
  · have hsame := hm.withFrames (⟨method, depthOf m₀.frames + 1, s'.stack, s'.locals, pc', opPc⟩ ::
      m₀.frames)
    rw [inside, hheap]
    exact hsame

/-- An operand is read. -/
theorem u1_inside {b : UInt8} {opPc : Int} (hm : (m₀.inside method s opPc p).Resembles m)
    (hb : method.bytecode[p]? = some b) :
    ∃ m', onFrame FrameM.u1 ctx m = .ok b m' ∧
      (m₀.inside method s opPc (p + 1 : Nat)).Resembles m' := by
  let f : Frame := ⟨method, depthOf m₀.frames + 1, s.stack, s.locals, p, opPc⟩
  have hread : FrameM.u1 (f.readingAt p) = .ok (b, f.readingAt (p + 1)) := FrameM.u1_readingAt hb
  exact onFrame_inside hm hread rfl

theorem u2_inside {i : UInt16} {opPc : Int} (hm : (m₀.inside method s opPc p).Resembles m)
    (hi : Stands method.bytecode p (twoBytes i)) :
    ∃ m', onFrame FrameM.u2 ctx m = .ok i m' ∧
      (m₀.inside method s opPc (p + 2 : Nat)).Resembles m' := by
  let f : Frame := ⟨method, depthOf m₀.frames + 1, s.stack, s.locals, p, opPc⟩
  have hread : FrameM.u2 (f.readingAt p) = .ok (i, f.readingAt (p + 2)) := FrameM.u2_readingAt hi
  exact onFrame_inside hm hread rfl

/-- The member that an operand names is read. -/
theorem memberRef_inside {i : UInt16} {kind : LinkKind} {owner name descriptor : Text} {opPc : Int}
    (hm : (m₀.inside method s opPc p).Resembles m) (hi : Stands method.bytecode p (twoBytes i))
    (hread : (ConstantSource.member kind owner name descriptor).ReadAt method.file i) :
    ∃ m', Reference.memberRef ctx m = .ok ⟨owner, name, descriptor⟩ m' ∧
      (m₀.inside method s opPc (p + 2 : Nat)).Resembles m' := by
  obtain ⟨m', hindex, hm'⟩ : ∃ m', onFrame FrameM.u2 ctx m = .ok i m' ∧ _ := u2_inside hm hi
  have hfile : Reference.currentFile ctx m' = .ok method.file m' := by
    rw [Reference.currentFile, bind_of_ok (currentFrame_ok hm'.frames)]
    rfl
  have hmember : Reference.orMalformed (method.file.memberRef i) ctx m' =
      .ok (owner, name, descriptor) m' := by
    rw [hread.2]
    rfl
  refine ⟨m', ?_, hm'⟩
  rw [Reference.memberRef, bind_of_ok hindex, bind_of_ok hfile, bind_of_ok hmember]
  rfl

/-- The opcode at an address is read. -/
theorem fetch_inside {b : UInt8} (hm : m₀.ComesTo method s p m)
    (hbyte : method.bytecode[p]? = some b) :
    ∃ m₁, fetch ctx m = .ok b m₁ ∧ (m₀.inside method s p (p + 1 : Nat)).Resembles m₁ := by
  obtain ⟨opPc, hm⟩ := hm
  refine ⟨_, fetch_at hm.frames rfl hbyte, ?_⟩
  exact (hm.trans (resembles_note m (.executing method.owner))).withFrames
    (⟨method, depthOf m₀.frames + 1, s.stack, s.locals, (p + 1 : Nat), p⟩ :: m₀.frames)

/-- The instruction at an address is executed. -/
theorem advance_inside {outcome : Outcome} (hm : m₀.ComesTo method s p m)
    (hbyte : method.bytecode[p]? = some op.byte)
    (hexecute : ∀ m₁, (m₀.inside method s p (p + 1 : Nat)).Resembles m₁ →
      ∃ m', Step.execute op ctx m₁ = .ok outcome m' ∧ (m₀.inside method s' p q).Resembles m') :
    ∃ m', advance ctx m = .ok outcome m' ∧ m₀.ComesTo method s' q m' := by
  obtain ⟨m₁, hfetch, hm₁⟩ := fetch_inside hm hbyte
  obtain ⟨m', hrun, hm'⟩ := hexecute m₁ hm₁
  have hstep : Step.run op.byte ctx m₁ = .ok outcome m' := by
    unfold Step.run
    rw [Opcode.ofByte?_byte]
    exact hrun
  refine ⟨m', ?_, p, hm'⟩
  rw [advance, bind_of_ok hfetch, attempt_bind_ok hstep]
  rfl

end Instructions

namespace Directive

section Lines

variable (ctx : Context) (m₀ : Machine) (method : Method)

/-- A line of a method that `m₀` has called takes what the method works on from one stage to the
next, wherever in the code it stands. -/
def Does (d : Directive) (s : Stage) (outcome : Outcome) (s' : Stage) : Prop :=
  ∀ (p : Nat) (bs : List UInt8) (m : Machine), d.Emits (fun k i => k.ReadAt method.file i) bs →
    Stands method.bytecode p bs → m₀.ComesTo method s p m →
      ∃ m', advance ctx m = .ok outcome m' ∧ m₀.ComesTo method s' (p + bs.length) m'

/-- Lines that are executed one after the other, up to the one that ends the method with a value. -/
inductive DoAll : List Directive → Stage → Value → Stage → Prop
  | last {d : Directive} {s s' : Stage} {v : Value} (hd : d.Does ctx m₀ method s (.result v) s') :
      DoAll [d] s v s'
  | cons {d : Directive} {ds : List Directive} {s s₁ s' : Stage} {v : Value}
      (hd : d.Does ctx m₀ method s .next s₁) (hrest : DoAll ds s₁ v s') : DoAll (d :: ds) s v s'

end Lines

variable {ctx : Context} {m₀ m : Machine} {method : Method} {s s' : Stage} {op : Opcode}
  {outcome : Outcome} {v : Value}

/-- The method ends with the value. -/
theorem DoAll.returns {ds : List Directive} (h : DoAll ctx m₀ method ds s v s') {p : Nat}
    {bs : List UInt8} (hemits : EmitsAll (fun k i => k.ReadAt method.file i) ds bs)
    (hstands : Stands method.bytecode p bs) (hm : m₀.ComesTo method s p m) :
    ∃ n m₁ m' q, Runs ctx n m m₁ ∧ n < ds.length ∧ advance ctx m₁ = .ok (.result v) m' ∧
      m₀.ComesTo method s' q m' := by
  obtain ⟨chunks, hchunks, rfl⟩ := hemits
  induction h generalizing p m chunks with
  | last hd =>
      cases hchunks with
      | @cons _ chunk _ chunks hemit _ =>
          obtain ⟨m', hadvance, hm'⟩ := hd p chunk m hemit (stands_append.mp hstands).1 hm
          exact ⟨0, m, m', _, .refl m, Nat.zero_lt_one, hadvance, hm'⟩
  | cons hd _ ih =>
      cases hchunks with
      | @cons _ chunk _ chunks hemit hchunks =>
          obtain ⟨hfirst, hrest⟩ := stands_append.mp hstands
          obtain ⟨m₁, hadvance, hm₁⟩ := hd p chunk m hemit hfirst hm
          obtain ⟨n, m₂, m', q, hruns, hn, hreturn, hm'⟩ := ih hm₁ chunks hchunks hrest
          exact ⟨n + 1, m₂, m', q, .step hadvance hruns, Nat.succ_lt_succ hn, hreturn, hm'⟩

section Kinds

/-- A line with nothing behind its opcode. -/
theorem does_plain (hexecute : ∀ (p : Nat) (m : Machine),
    (m₀.inside method s p (p + 1 : Nat)).Resembles m → ∃ m',
      Step.execute op ctx m = .ok outcome m' ∧ (m₀.inside method s' p (p + 1 : Nat)).Resembles m') :
    (plain op).Does ctx m₀ method s outcome s' := by
  rintro p _ m ⟨⟩ hstands hm
  exact advance_inside hm (stands_cons.mp hstands).1 (hexecute p)

/-- A line that works on its frame alone. -/
theorem does_inFrame {x : FrameM Unit} (hop : Step.execute op = Step.inFrame x)
    (hheap : s'.heap = s.heap)
    (hx : ∀ opPc pc, x ⟨method, depthOf m₀.frames + 1, s.stack, s.locals, pc, opPc⟩ =
      .ok ((), ⟨method, depthOf m₀.frames + 1, s'.stack, s'.locals, pc, opPc⟩)) :
    (plain op).Does ctx m₀ method s .next s' := by
  refine does_plain fun p m hm => ?_
  obtain ⟨m', hrun, hm'⟩ := onFrame_inside hm (hx _ _) hheap
  refine ⟨m', ?_, hm'⟩
  rw [hop, Step.inFrame, bind_of_ok hrun]
  rfl

theorem does_constant (hop : Step.execute op = Step.constant v) :
    (plain op).Does ctx m₀ method s .next { s with stack := v :: s.stack } :=
  does_inFrame hop rfl fun _ _ => rfl

theorem does_load {slot : Nat} (hop : Step.execute op = Step.load slot)
    (hv : s.locals[slot]? = some v) :
    (plain op).Does ctx m₀ method s .next { s with stack := v :: s.stack } := by
  refine does_inFrame hop rfl fun opPc pc => ?_
  have hload : FrameM.load slot ⟨method, depthOf m₀.frames + 1, s.stack, s.locals, pc, opPc⟩ =
      .ok (v, ⟨method, depthOf m₀.frames + 1, s.stack, s.locals, pc, opPc⟩) := by
    unfold FrameM.load
    dsimp only
    rw [hv]
  rw [FrameM.bind_ok hload]
  rfl

theorem does_store {slot : Nat} {stack : List Value} {locals : Array Value} {heap : Array Object}
    (hop : Step.execute op = Step.store slot) (hnarrow : v.isWide = false)
    (hslot : slot < locals.size) :
    (plain op).Does ctx m₀ method ⟨v :: stack, locals, heap⟩ .next
      ⟨stack, locals.setIfInBounds slot v, heap⟩ := by
  refine does_inFrame hop rfl fun opPc pc => ?_
  have hpop : FrameM.pop ⟨method, depthOf m₀.frames + 1, v :: stack, locals, pc, opPc⟩ =
      .ok (v, ⟨method, depthOf m₀.frames + 1, stack, locals, pc, opPc⟩) := rfl
  rw [FrameM.storeTop, FrameM.bind_ok hpop]
  unfold FrameM.store
  simp only [hnarrow]
  exact if_neg (Nat.not_lt.mpr hslot)

/-- The method ends with the value on top of the stack, -/
theorem does_return {stack : List Value} {locals : Array Value} {heap : Array Object}
    (hop : Step.execute op = onFrame FrameM.pop >>= fun v => pure (.result v)) :
    (plain op).Does ctx m₀ method ⟨v :: stack, locals, heap⟩ (.result v) ⟨stack, locals, heap⟩ := by
  refine does_plain fun p m hm => ?_
  obtain ⟨m', hrun, hm'⟩ : ∃ m', onFrame FrameM.pop ctx m = .ok v m' ∧
      (m₀.inside method ⟨stack, locals, heap⟩ p (p + 1 : Nat)).Resembles m' :=
    onFrame_inside hm rfl rfl
  refine ⟨m', ?_, hm'⟩
  rw [hop]
  exact bind_of_ok hrun

/-- or with nothing. -/
theorem does_returnVoid : (plain .returnVoid).Does ctx m₀ method s (.result .null) s :=
  does_plain fun _ m hm => ⟨m, rfl, hm⟩

theorem objectAt_inside {r : Ref} {o : Object} {opPc pc : Int}
    (hm : (m₀.inside method s opPc pc).Resembles m) (ho : s.heap[r.number - 1]? = some o) :
    objectAt r ctx m = .ok o m := by
  have hget : (get : Exec Machine) ctx m = .ok m m := rfl
  have hheap : m.heap = s.heap := hm.heap
  rw [objectAt, bind_of_ok hget, hheap, ho]
  rfl

theorem push_inside {stack : List Value} {locals : Array Value} {heap : Array Object} {opPc pc : Int}
    (hm : (m₀.inside method ⟨stack, locals, heap⟩ opPc pc).Resembles m) :
    ∃ m', Reference.push v ctx m = .ok () m' ∧
      (m₀.inside method ⟨v :: stack, locals, heap⟩ opPc pc).Resembles m' :=
  onFrame_inside hm rfl rfl

theorem does_arraylength {r : Ref} {o : Object} {stack : List Value} {locals : Array Value}
    {heap : Array Object} (ho : heap[r.number - 1]? = some o) :
    (plain .arraylength).Does ctx m₀ method ⟨.ref r :: stack, locals, heap⟩ .next
      ⟨.int (Int32.ofNat o.elements.size) :: stack, locals, heap⟩ := by
  refine does_plain fun p m hm => ?_
  obtain ⟨m₁, hpop, hm₁⟩ : ∃ m', onFrame FrameM.popRef ctx m = .ok (some r) m' ∧
      (m₀.inside method ⟨stack, locals, heap⟩ p (p + 1 : Nat)).Resembles m' :=
    onFrame_inside hm rfl rfl
  have hobject : objectAt r ctx m₁ = .ok o m₁ := objectAt_inside hm₁ ho
  obtain ⟨m', hpush, hm'⟩ : ∃ m', Reference.push (.int (Int32.ofNat o.elements.size)) ctx m₁ =
      .ok () m' ∧ _ := push_inside hm₁
  have hlength : Reference.arrayLength ctx m = .ok () m' := by
    rw [Reference.arrayLength, bind_of_ok hpop]
    exact (bind_of_ok hobject).trans hpush
  exact ⟨m', bind_of_ok hlength, hm'⟩

/-- An array of bytes is made. -/
theorem does_newBytes {host : Host} {steps nesting : Nat} {n : Int32} {stack : List Value}
    {locals : Array Value} {heap : Array Object} (hstrings : m₀.HasStrings) (hn : 0 ≤ n) :
    (u1 .newarray 8).Does (Session.context host (steps + 2) (nesting + 2)) m₀ method
      ⟨.int n :: stack, locals, heap⟩ .next ⟨.ref ⟨heap.size + 1⟩ :: stack, locals,
        heap.push (.array "[B" (Array.replicate n.toInt.toNat (.int 0)))⟩ := by
  let ctx := Session.context host (steps + 2) (nesting + 2)
  rintro p _ m ⟨⟩ hstands hm
  obtain ⟨hop, hcode⟩ := stands_cons.mp hstands
  refine advance_inside hm hop fun m₁ hm₁ => ?_
  obtain ⟨m₂, hread, hm₂⟩ : ∃ m', onFrame FrameM.u1 ctx m₁ = .ok 8 m' ∧
      (m₀.inside method ⟨.int n :: stack, locals, heap⟩ p (p + 2 : Nat)).Resembles m' :=
    u1_inside hm₁ (stands_cons.mp hcode).1
  obtain ⟨k, m₃, hclass, hdescriptor, hm₃⟩ := (hstrings.inside hm₂).classFor_bytes host steps nesting
  obtain ⟨m₄, hpop, hm₄⟩ : ∃ m', onFrame FrameM.popInt ctx m₃ = .ok n m' ∧
      (m₀.inside method ⟨stack, locals, heap⟩ p (p + 2 : Nat)).Resembles m' :=
    onFrame_inside (hm₂.trans hm₃) rfl rfl
  let bytes : Object := .array "[B" (Array.replicate n.toInt.toNat (.int 0))
  have hheap : m₄.heap = heap := hm₄.heap
  have halloc : Arrays.alloc k.descriptor [n] ctx m₄ =
      .ok ⟨heap.size + 1⟩ { m₄ with heap := heap.push bytes } := by
    rw [Arrays.alloc, List.find?_cons_of_neg (by simpa using hn), hdescriptor, ← hheap]
    rfl
  obtain ⟨m', hpush, hm'⟩ : ∃ m', Reference.push (.ref ⟨heap.size + 1⟩) ctx
      { m₄ with heap := heap.push bytes } = .ok () m' ∧
      (m₀.inside method ⟨.ref ⟨heap.size + 1⟩ :: stack, locals, heap.push bytes⟩ p
        (p + 2 : Nat)).Resembles m' :=
    push_inside (hm₄.withHeap (heap.push bytes))
  refine ⟨m', ?_, hm'⟩
  have hnew : Reference.newPrimitiveArray ctx m₁ = .ok () m' := by
    rw [Reference.newPrimitiveArray, bind_of_ok hread]
    change Reference.newArrayWithLength "B" ctx m₂ = _
    rw [Reference.newArrayWithLength]
    exact (bind_of_ok hclass).trans ((bind_of_ok hpop).trans ((bind_of_ok halloc).trans hpush))
  exact bind_of_ok hnew

/-- A small number is pushed. -/
theorem does_bipush (b : UInt8) : (u1 .bipush b).Does ctx m₀ method s .next
    { s with stack := .int b.toInt8.toInt32 :: s.stack } := by
  rintro p _ m ⟨⟩ hstands hm
  obtain ⟨hop, hcode⟩ := stands_cons.mp hstands
  refine advance_inside hm hop fun m₁ hm₁ => ?_
  let f : Frame := ⟨method, depthOf m₀.frames + 1, s.stack, s.locals, p, p⟩
  have hread : FrameM.u1 (f.readingAt (p + 1)) = .ok (b, f.readingAt (p + 2)) :=
    FrameM.u1_readingAt (stands_cons.mp hcode).1
  have hnumber : FrameM.s1 (f.readingAt (p + 1)) = .ok (b.toInt8, f.readingAt (p + 2)) := by
    rw [FrameM.s1, FrameM.bind_ok hread]
    rfl
  obtain ⟨m', hpush, hm'⟩ : ∃ m', onFrame (do FrameM.push (.int (← FrameM.s1).toInt32)) ctx m₁ =
      .ok () m' ∧ (m₀.inside method { s with stack := .int b.toInt8.toInt32 :: s.stack } p
        (p + 2 : Nat)).Resembles m' :=
    onFrame_inside hm₁ ((FrameM.bind_ok hnumber).trans rfl) rfl
  exact ⟨m', bind_of_ok hpush, hm'⟩

/-- A byte of an array is overwritten. -/
theorem does_bastore {r : Ref} {o : Object} {i x : Int32} {stack : List Value} {locals : Array Value}
    {heap : Array Object} (ho : heap[r.number - 1]? = some o) (htype : o.type = "[B") (hi : 0 ≤ i)
    (hsize : i.toInt < o.elements.size) :
    (plain .bastore).Does ctx m₀ method ⟨.int x :: .int i :: .ref r :: stack, locals, heap⟩ .next
      ⟨stack, locals, heap.modify (r.number - 1) fun o => { o with
        elements := o.elements.setIfInBounds i.toInt.toNat (.int x.toInt8.toInt32) }⟩ := by
  refine does_plain fun p m hm => ?_
  obtain ⟨m₁, hvalue, hm₁⟩ : ∃ m', onFrame FrameM.pop ctx m = .ok (.int x) m' ∧
      (m₀.inside method ⟨.int i :: .ref r :: stack, locals, heap⟩ p (p + 1 : Nat)).Resembles m' :=
    onFrame_inside hm rfl rfl
  obtain ⟨m₂, hindex, hm₂⟩ : ∃ m', onFrame FrameM.popInt ctx m₁ = .ok i m' ∧
      (m₀.inside method ⟨.ref r :: stack, locals, heap⟩ p (p + 1 : Nat)).Resembles m' :=
    onFrame_inside hm₁ rfl rfl
  obtain ⟨m₃, harray, hm₃⟩ : ∃ m', onFrame FrameM.popRef ctx m₂ = .ok (some r) m' ∧
      (m₀.inside method ⟨stack, locals, heap⟩ p (p + 1 : Nat)).Resembles m' :=
    onFrame_inside hm₂ rfl rfl
  have hobject : objectAt r ctx m₃ = .ok o m₃ := objectAt_inside hm₃ ho
  have hrange : ¬(i < 0 ∨ (o.elements.size : Int) ≤ i.toInt) :=
    not_or.mpr ⟨Int32.not_lt.mpr hi, by omega⟩
  have helement : Arrays.popElement ctx m₁ = .ok (r, i.toInt.toNat) m₃ := by
    rw [Arrays.popElement, bind_of_ok hindex, bind_of_ok harray]
    refine (bind_of_ok hobject).trans ?_
    rw [Object.isArray, htype, if_neg (by exact Bool.false_ne_true), if_neg hrange]
    rfl
  let stored : Array Object := heap.modify (r.number - 1) fun o => { o with
    elements := o.elements.setIfInBounds i.toInt.toNat (.int x.toInt8.toInt32) }
  have hheap : m₃.heap = heap := hm₃.heap
  refine ⟨{ m₃ with heap := stored }, ?_, hm₃.withHeap stored⟩
  have hstore : Arrays.store ctx m = .ok () { m₃ with heap := stored } := by
    rw [Arrays.store, bind_of_ok hvalue, bind_of_ok helement]
    refine (bind_of_ok hobject).trans ?_
    rw [htype, if_neg (by exact Bool.false_ne_true)]
    change EStateM.Result.ok () { m₃ with heap := m₃.heap.modify _ _ } = _
    rw [hheap]
    rfl
  exact bind_of_ok hstore

theorem emits_field {R : ConstantSource → UInt16 → Prop} {owner name descriptor : Text}
    {bs : List UInt8} (h : (field op owner name descriptor).Emits R bs) :
    ∃ i, bs = op.byte :: twoBytes i ∧ R (.member .fieldref owner name descriptor) i := by
  cases h with
  | field op hi => exact ⟨_, rfl, hi⟩

theorem emits_invoke {R : ConstantSource → UInt16 → Prop} {owner name descriptor : Text}
    {bs : List UInt8} (h : (invoke op owner name descriptor).Emits R bs) :
    ∃ i, bs = op.byte :: twoBytes i ∧ R (.member .methodref owner name descriptor) i := by
  cases h with
  | invoke op hi => exact ⟨_, rfl, hi⟩

/-- A line that names a member. -/
theorem does_member {d : Directive} {kind : LinkKind} {owner name descriptor : Text} {x : Exec Unit}
    {k : MemberRef → Exec Unit}
    (hemits : ∀ {R : ConstantSource → UInt16 → Prop} {bs : List UInt8}, d.Emits R bs →
      ∃ i, bs = op.byte :: twoBytes i ∧ R (.member kind owner name descriptor) i)
    (hop : Step.execute op = Step.thenNext x) (hx : x = Reference.memberRef >>= k)
    (hk : ∀ (p : Nat) (m : Machine), (m₀.inside method s p (p + 3 : Nat)).Resembles m → ∃ m',
      k ⟨owner, name, descriptor⟩ ctx m = .ok () m' ∧
        (m₀.inside method s' p (p + 3 : Nat)).Resembles m') :
    d.Does ctx m₀ method s .next s' := by
  rintro p bs m hd hstands hm
  obtain ⟨i, rfl, hi⟩ := hemits hd
  obtain ⟨hbyte, hindex⟩ := stands_cons.mp hstands
  refine advance_inside hm hbyte fun m₁ hm₁ => ?_
  obtain ⟨m₂, hread, hm₂⟩ : ∃ m', Reference.memberRef ctx m₁ = .ok _ m' ∧ _ :=
    memberRef_inside hm₁ hindex hi
  obtain ⟨m', hrun, hm'⟩ := hk p m₂ hm₂
  refine ⟨m', ?_, hm'⟩
  have hmember : x ctx m₁ = .ok () m' := by
    rw [hx, bind_of_ok hread, hrun]
  rw [hop, Step.thenNext, bind_of_ok hmember]
  rfl

section Fields

variable {host : Host} {steps nesting : Nat} {k : ClassSource} {f : FieldSource} {r : Ref}
  {stack : List Value} {locals : Array Value} {heap : Array Object}

/-- The reference of a field access is popped. -/
theorem popOwner_inside {ref : MemberRef} {opPc pc : Int}
    (hm : (m₀.inside method ⟨.ref r :: stack, locals, heap⟩ opPc pc).Resembles m) :
    ∃ m', Reference.popOwner ref ctx m = .ok r m' ∧
      (m₀.inside method ⟨stack, locals, heap⟩ opPc pc).Resembles m' := by
  obtain ⟨m', hpop, hm'⟩ : ∃ m', onFrame FrameM.popRef ctx m = .ok (some r) m' ∧
      (m₀.inside method ⟨stack, locals, heap⟩ opPc pc).Resembles m' := onFrame_inside hm rfl rfl
  exact ⟨m', bind_of_ok hpop, hm'⟩

/-- A value is stored in a field of the library. -/
theorem does_putfield (hstrings : m₀.HasStrings) (hk : ∀ {m : Machine}, m.HasStrings → m.HasIntact k)
    (hbelow : k.IsBelowRoot) (hf : f ∈ k.fields) :
    (field .putfield k.name f.name f.descriptor).Does (Session.context host (steps + 2) (nesting + 1))
      m₀ method ⟨v :: .ref r :: stack, locals, heap⟩ .next ⟨stack, locals,
        heap.modify (r.number - 1) fun o => o.setField
          (Descriptor.className (Descriptor.ofInternal k.name)) f.name (Value.coerce f.descriptor v)⟩ := by
  let ctx := Session.context host (steps + 2) (nesting + 1)
  let ref : MemberRef := ⟨k.name, f.name, f.descriptor⟩
  have hop : Step.execute .putfield = Step.thenNext Reference.putField := rfl
  refine does_member emits_field hop rfl fun p m hm => ?_
  obtain ⟨m₁, hpop, hm₁⟩ : ∃ m', onFrame FrameM.pop ctx m = .ok v m' ∧
      (m₀.inside method ⟨.ref r :: stack, locals, heap⟩ p (p + 3 : Nat)).Resembles m' :=
    onFrame_inside hm rfl rfl
  obtain ⟨m₂, howner, hm₂⟩ : ∃ m', Reference.popOwner ref ctx m₁ = .ok r m' ∧ _ :=
    popOwner_inside hm₁
  obtain ⟨o, m₃, hfield, hname, hm₃⟩ := (hstrings.inside hm₂).resolveField host steps nesting
    (hk (hstrings.inside hm₂)) hbelow hf
  have hheap : m₃.heap = heap := (hm₂.trans hm₃).heap
  let stored : Array Object := heap.modify (r.number - 1) fun o => o.setField
    (Descriptor.className (Descriptor.ofInternal k.name)) f.name (Value.coerce f.descriptor v)
  let m₄ := m₃.markAccess (.stored ⟨r, o, ref⟩ v)
  refine ⟨{ m₄ with heap := stored }, (bind_of_ok hpop).trans ((bind_of_ok howner).trans
    ((bind_of_ok hfield).trans ?_)),
    (hm₂.trans (hm₃.trans (resembles_markAccess m₃ _))).withHeap stored⟩
  dsimp only [stored]
  rw [← hname, ← hheap]
  rfl

/-- A field of the library is read. -/
theorem does_getfield {o : Object} (hstrings : m₀.HasStrings)
    (hk : ∀ {m : Machine}, m.HasStrings → m.HasIntact k) (hbelow : k.IsBelowRoot)
    (hf : f ∈ k.fields) (ho : heap[r.number - 1]? = some o) :
    (field .getfield k.name f.name f.descriptor).Does (Session.context host (steps + 2) (nesting + 1))
      m₀ method ⟨.ref r :: stack, locals, heap⟩ .next
      ⟨o.getField (Descriptor.className (Descriptor.ofInternal k.name)) f.name :: stack, locals, heap⟩ := by
  let ctx := Session.context host (steps + 2) (nesting + 1)
  let ref : MemberRef := ⟨k.name, f.name, f.descriptor⟩
  have hop : Step.execute .getfield = Step.thenNext Reference.getField := rfl
  refine does_member emits_field hop rfl fun p m hm => ?_
  obtain ⟨m₁, hpop, hm₁⟩ : ∃ m', Reference.popOwner ref ctx m = .ok r m' ∧ _ := popOwner_inside hm
  obtain ⟨owner, m₂, hfield, hname, hm₂⟩ := (hstrings.inside hm₁).resolveField host steps nesting
    (hk (hstrings.inside hm₁)) hbelow hf
  have hobject : objectAt r ctx m₂ = .ok o m₂ := objectAt_inside (hm₁.trans hm₂) ho
  let m₃ := m₂.markAccess (.read ⟨r, owner, ref⟩ (o.getField owner.name f.name))
  have hread : Reference.readField ⟨r, owner, ref⟩ ctx m₂ = .ok (o.getField owner.name f.name) m₃ :=
    bind_of_ok hobject
  obtain ⟨m', hpush, hm'⟩ : ∃ m', Reference.push (o.getField owner.name f.name) ctx m₃ = .ok () m' ∧
      _ := push_inside (hm₁.trans (hm₂.trans (resembles_markAccess m₂ _)))
  rw [hname] at hm'
  exact ⟨m', (bind_of_ok hpop).trans ((bind_of_ok hfield).trans ((bind_of_ok hread).trans hpush)), hm'⟩

end Fields

end Kinds

end Directive

section Calling

variable {host : Host} {steps nesting : Nat} {m : Machine} {method : Method} {k : ClassSource}
  {source : MethodSource} {maxStack maxLocals : UInt16} {lines : List Directive} {args : List Value}
  {locals : Array Value} {v : Value} {s : Stage}

theorem emitsAll_ne_nil {R : ConstantSource → UInt16 → Prop} {ds : List Directive} {bs : List UInt8}
    (h : Directive.EmitsAll R ds bs) (hds : ds ≠ []) : bs ≠ [] := by
  obtain ⟨chunks, hchunks, rfl⟩ := h
  cases hchunks with
  | nil => contradiction
  | cons hd _ =>
      cases hd with
      | plain _ | u1 _ _ | field _ _ | invoke _ _ => exact List.cons_ne_nil _ _

theorem stands_self (bytes : Array UInt8) : Stands bytes 0 bytes.toList := by
  intro k b hb
  simpa using hb

/-- A method with a body of plain lines does what these do, one after the other, and leaves the
engine as it was but for the objects. -/
theorem invokeMethod_of_lines (hdescribed : method.IsDescribedBy k source)
    (hbody : source.body = .code maxStack maxLocals lines) (hplain : ∀ d ∈ lines, d.IsPlain)
    (hnative : source.flags.isNative = false) (habstract : source.flags.isAbstract = false)
    (hlocals : layoutLocals method args = some locals)
    (hroom : ((depthOf m.frames + 1 : Nat) : Int) ≤ m.maxDepth) (hsteps : lines.length ≤ steps)
    (hlines : Directive.DoAll (Session.context host steps nesting) m method lines
      ⟨[], locals, m.heap⟩ v s) :
    ∃ m', invokeMethod method args (Session.context host steps (nesting + 1)) m = .ok v m' ∧
      ({ m with heap := s.heap } : Machine).Resembles m' := by
  let ctx := Session.context host steps nesting
  have hflags : method.flags = source.flags := by
    rw [hdescribed.flags, MethodSource.declaredFlags, hbody]
  have hgives := hdescribed.body
  rw [hbody] at hgives
  obtain ⟨c, hcode, hemits⟩ : ∃ c, method.code = some c ∧
      Directive.EmitsAll (fun k i => k.ReadAt method.file i) lines c.bytecode.toList := by
    generalize method.code = code at hgives
    cases hgives with
    | code _ hemits => exact ⟨_, rfl, hemits hplain⟩
  have hbytes : method.bytecode = c.bytecode := by
    rw [Method.bytecode, hcode]
  have hnonempty : (method.code.elim 0 fun c => c.bytecode.size) ≠ 0 := by
    rw [hcode]
    intro hzero
    have hnil : c.bytecode = #[] := Array.eq_empty_of_size_eq_zero hzero
    refine emitsAll_ne_nil hemits ?_ (by rw [hnil])
    rintro rfl
    contradiction
  let entered : Machine := m.inside method ⟨[], locals, m.heap⟩ 0 0
  obtain ⟨m₁, hprofile, hm₁⟩ := resembles_profile entered method ctx
  have hstands : Stands method.bytecode 0 c.bytecode.toList := by
    rw [hbytes]
    exact stands_self c.bytecode
  obtain ⟨n, m₂, m', q, hruns, hn, hreturn, opPc, hm'⟩ := hlines.returns hemits hstands ⟨0, hm₁⟩
  have hrun : runBody method locals ctx entered = .ok v m' := by
    rw [runBody_of_code (by rw [Method.isNative, hflags, hnative]) hnonempty hprofile]
    refine execute_returns hruns ?_ hreturn
    rw [context_fuel]
    omega
  exact ⟨{ m' with frames := m.frames },
    invokeMethod_of_body (hflags ▸ habstract) hroom hlocals hrun, hm'.withFrames m.frames⟩

/-- How many locals a body asks for. -/
def MethodBody.localCount : MethodBody → Nat
  | .code _ maxLocals _ => maxLocals.toNat
  | _ => 0

/-- The locals at the start of a method: the receiver, the arguments, and nulls. -/
theorem layoutLocals_described {signature : Signature} {receiver : Nat}
    (hdescribed : method.IsDescribedBy k source)
    (hsignature : Signature.parse source.descriptor = .ok signature)
    (hreceiver : receiver = if source.declaredFlags.isStatic then 0 else 1)
    (hargs : args.length = signature.arguments.length + receiver) :
    layoutLocals method args = some (List.toArray
      (args.take receiver ++ argumentSlots signature.arguments (args.drop receiver) ++
        List.replicate (source.body.localCount -
          (args.take receiver ++ argumentSlots signature.arguments (args.drop receiver)).length)
          .null)) := by
  have hsame : method.signature = signature :=
    Except.ok.inj (hdescribed.signature.symm.trans hsignature)
  have hcount : (method.code.elim 0 fun c => c.maxLocals.toNat) = source.body.localCount := by
    have hgives := hdescribed.body
    generalize method.code = code at hgives
    generalize source.body = body at hgives
    cases hgives with
    | code hlocals _ => exact congrArg UInt16.toNat hlocals
    | native | abstract | missing => rfl
  have hinstance : (if method.isStatic then 0 else 1) = receiver := by
    rw [Method.isStatic, hdescribed.flags, hreceiver]
  unfold layoutLocals
  dsimp only
  rw [hinstance, hsame, hcount, if_neg (not_not.mpr hargs)]

/-- A call whose method gives no value. -/
theorem invoke_void {ctx : Context} {target : Exec Reference.Call} {m₁ m₂ : Machine}
    (htarget : target ctx m = .ok (method, args) m₁)
    (hcall : invokeMethod method args ctx m₁ = .ok v m₂)
    (hvoid : method.signature.returnsValue = false) :
    Reference.invoke target ctx m = .ok () m₂ := by
  rw [Reference.invoke, bind_of_ok htarget]
  dsimp only
  rw [bind_of_ok hcall, hvoid]
  rfl

/-- A call whose method gives a value. -/
theorem invoke_value {ctx : Context} {target : Exec Reference.Call} {m₁ m₂ : Machine}
    (htarget : target ctx m = .ok (method, args) m₁)
    (hcall : invokeMethod method args ctx m₁ = .ok v m₂)
    (hvalue : method.signature.returnsValue = true) :
    Reference.invoke target ctx m = Reference.push v ctx m₂ := by
  rw [Reference.invoke, bind_of_ok htarget]
  dsimp only
  rw [bind_of_ok hcall, hvalue]
  rfl

end Calling

end ClassEngine
