import ClassEngine.Proofs.Engine.Moments
import ClassEngine.Proofs.Engine.Respecting

/-!
What execution respects. A relation that leaves the frames free is respected by instructions and
natives, and hence by methods and initializers, however deep they nest, and by every request.
-/

namespace ClassEngine

open Machine Exec Linking Resolution Allocation Initialization

variable {R : MachineRel} {α β : Type} {ctx : Context}

section Values

open Display

variable [R.Attentive]

omit [R.Attentive] in
@[grind ←] theorem respects_asLong (v : Value) : Respects R ctx (asLong v) := by
  unfold asLong
  grind

omit [R.Attentive] in
@[grind ←] theorem respects_asFloat (v : Value) : Respects R ctx (asFloat v) := by
  unfold asFloat
  grind

omit [R.Attentive] in
@[grind ←] theorem respects_asDouble (v : Value) : Respects R ctx (asDouble v) := by
  unfold asDouble
  grind

variable [RespectingContext R ctx]

@[grind ←] theorem respects_objectText (r : Ref) : Respects R ctx (objectText r) := by
  unfold objectText
  grind

@[grind ←] theorem respects_valueText (t : Descriptor) (v : Value) :
    Respects R ctx (valueText t v) := by
  unfold valueText
  grind

end Values

section Traces

open Trace

variable [R.Attentive]

@[grind ←] theorem respects_writeError (t : Text) : Respects R ctx (writeError t) :=
  fun _ => MachineRel.Attentive.aside rfl rfl rfl rfl rfl

variable [RespectingContext R ctx]

@[grind ←] theorem respects_element (c : RuntimeClass) (f : Frame) :
    Respects R ctx (element c f) := by
  unfold element
  grind

@[grind ←] theorem respects_record (throwable : Option Ref) : Respects R ctx (record throwable) := by
  refine .bind respects_get fun m => .bind (respects_loadClass _) fun c => ?_
  refine .bind (respects_mapM (respects_element c)) fun elements => ?_
  grind

@[grind ←] theorem respects_describe (throwable : Option Ref) :
    Respects R ctx (describe throwable) := by
  unfold describe
  grind

@[grind ←] theorem respects_elementField (o : Object) (name : Text) :
    Respects R ctx (elementField o name) := by
  unfold elementField
  grind

@[grind ←] theorem respects_elementText (v : Value) : Respects R ctx (elementText v) := by
  refine .bind (respects_check _) fun r => ?_
  grind

@[grind ←] theorem respects_elementLines (vs : List Value) : Respects R ctx (elementLines vs) := by
  induction vs with
  | nil => exact .pure []
  | cons v vs ih =>
      unfold elementLines
      grind

@[grind ←] theorem respects_print (throwable : Option Ref) : Respects R ctx (print throwable) := by
  refine .bind (respects_describe _) fun head => ?_
  split
  · exact respects_panic _
  · refine .bind (respects_objectAt _) fun o => .bind (respects_invokeNamed _ _ _ _) fun trace => ?_
    grind

end Traces

section Natives

open Builtin

variable [R.Attentive]

omit [R.Attentive] in
@[grind ←] theorem respects_arg (locals : Array Value) (i : Nat) :
    Respects R ctx (arg locals i) := by
  unfold arg
  grind

omit [R.Attentive] in
@[grind ←] theorem respects_argInt (locals : Array Value) (i : Nat) :
    Respects R ctx (argInt locals i) := by
  unfold argInt
  grind

omit [R.Attentive] in
@[grind ←] theorem respects_argRef (locals : Array Value) (i : Nat) :
    Respects R ctx (argRef locals i) := by
  unfold argRef
  grind

omit [R.Attentive] in
@[grind ←] theorem respects_argLong (locals : Array Value) (i : Nat) :
    Respects R ctx (argLong locals i) := by
  unfold argLong
  grind

omit [R.Attentive] in
@[grind ←] theorem respects_argDouble (locals : Array Value) (i : Nat) :
    Respects R ctx (argDouble locals i) := by
  unfold argDouble
  grind

omit [R.Attentive] in
@[grind ←] theorem respects_argObject (locals : Array Value) (i : Nat) :
    Respects R ctx (argObject locals i) := by
  unfold argObject
  grind

@[grind ←] theorem respects_bufferOf (r : Ref) : Respects R ctx (bufferOf r) := by
  have hgrow : Respects R ctx (modify fun m => { m with buffers := m.buffers.push [] }) :=
    fun _ => MachineRel.Attentive.aside rfl rfl rfl rfl rfl
  unfold bufferOf
  grind

@[grind ←] theorem respects_appendTo (r : Ref) (t : Text) : Respects R ctx (appendTo r t) :=
  .bind (respects_bufferOf r) fun _ _ => MachineRel.Attentive.aside rfl rfl rfl rfl rfl

@[grind ←] theorem respects_bufferText (r : Ref) : Respects R ctx (bufferText r) := by
  unfold bufferText
  grind

@[grind ←] theorem respects_writeTo (stream : Ref) (t : Text) :
    Respects R ctx (writeTo stream t) := by
  have hwrite : Respects R ctx (modify fun m => { m with output := m.output ++ t }) :=
    fun _ => MachineRel.Attentive.aside rfl rfl rfl rfl rfl
  unfold writeTo
  grind

@[grind ←] theorem respects_noteDown (n : Note) : Respects R ctx (Native.note n) :=
  fun _ => MachineRel.Attentive.aside rfl rfl rfl rfl rfl

variable [RespectingContext R ctx]

@[grind ←] theorem respects_stringResult (t : Text) : Respects R ctx (stringResult t) := by
  unfold stringResult
  grind

@[grind ←] theorem respects_objectString (r : Ref) : Respects R ctx (objectString r) := by
  unfold objectString
  grind

@[grind ←] theorem respects_classString (c : RuntimeClass) : Respects R ctx (classString c) := by
  unfold classString
  grind

@[grind ←] theorem respects_parseIntOf (v : Value) : Respects R ctx (parseIntOf v) := by
  unfold parseIntOf
  grind

@[grind ←] theorem respects_stringsEqual (self other : Option Ref) :
    Respects R ctx (stringsEqual self other) := by
  unfold stringsEqual
  grind

@[grind ←] theorem respects_charAt (t : Text) (i : Int32) : Respects R ctx (charAt t i) := by
  unfold charAt
  grind

/-- The one native that writes to arrays is apart. -/
theorem respects_builtin {b : Builtin} (hb : b ≠ .arraycopy) (locals : Array Value) :
    Respects R ctx (b.run locals) := by
  cases b <;> unfold Builtin.run <;> grind

theorem respects_native {n : Native} (hn : n ≠ .builtin .arraycopy) (locals : Array Value) :
    Respects R ctx (n.run locals) := by
  cases n with
  | builtin b => exact respects_builtin (fun hb => hn (congrArg Native.builtin hb)) locals
  | constant v => exact .pure v
  | noteLocals v => exact .bind respects_get fun _ => .bind (respects_noteDown _) fun _ => .pure v
  | noteFrames v => exact .bind respects_get fun _ => .bind (respects_noteDown _) fun _ => .pure v
  | fail message => exact .throw _
  | forward owner name descriptor => exact respects_invokeNamed _ _ _ _
  | throwNew owner =>
      exact .bind (respects_loadClass owner) fun c => .bind (respects_construct c _ _) fun r =>
        .throw _

omit [R.Attentive] [RespectingContext R ctx] in
theorem rel_argRef {locals : Array Value} {i : Nat} {f : Option Ref → Exec α} {m : Machine}
    (hf : ∀ r : Option Ref, locals[i]? = some (r.elim .null .ref) → R.rel m (endOf (f r ctx m))) :
    R.rel m (endOf ((argRef locals i >>= f) ctx m)) := by
  unfold argRef arg
  cases hv : locals[i]? with
  | none => exact R.refl m
  | some v =>
      cases v with
      | null => exact hf none hv
      | ref r => exact hf (some r) hv
      | _ => exact R.refl m

omit [R.Attentive] [RespectingContext R ctx] in
theorem rel_argInt {locals : Array Value} {i : Nat} {f : Int32 → Exec α} {m : Machine}
    (hf : ∀ n, R.rel m (endOf (f n ctx m))) : R.rel m (endOf ((argInt locals i >>= f) ctx m)) := by
  unfold argInt arg
  cases hv : locals[i]? with
  | none => exact R.refl m
  | some v =>
      cases v with
      | int n => exact hf n
      | _ => exact R.refl m

/-- The array that is written to is the third argument. -/
theorem rel_arraycopy {m : Machine} {locals : Array Value}
    (hput : ∀ {d o} (f : Object → Object), locals[2]? = some (.ref d) →
      m.heap[d.number - 1]? = some o → o.HoldsPrimitives →
      (∀ o, f o = { o with elements := (f o).elements }) →
      R.rel m { m with heap := m.heap.modify (d.number - 1) f }) :
    R.rel m (endOf (Builtin.arraycopy.run locals ctx m)) := by
  refine rel_argRef fun src _ => rel_argInt fun srcPos => rel_argRef fun dst hdst => ?_
  refine rel_argInt fun dstPos => rel_argInt fun length => ?_
  refine rel_bind (rel_copy fun f hd => hput f ?_) fun _ hm => hm
  rw [hdst, hd]
  rfl

/-- A native begins with a moment that is kept. -/
theorem rel_nativeCall {m : Machine} {locals : Array Value}
    (hput : ∀ {d o} (f : Object → Object), locals[2]? = some (.ref d) →
      m.heap[d.number - 1]? = some o → o.HoldsPrimitives →
      (∀ o, f o = { o with elements := (f o).elements }) →
      R.rel m.mark { m.mark with heap := m.heap.modify (d.number - 1) f }) (method : Method) :
    R.rel m (endOf (Native.call method locals ctx m)) := by
  have hmark : Exec.mark ctx m = .ok () m.mark := rfl
  have hget : (get : Exec Machine) ctx m.mark = .ok m.mark m.mark := rfl
  have hmarked : R.rel m m.mark := MachineRel.Attentive.mark m
  refine R.trans hmarked ?_
  rw [Native.call, bind_of_ok hmark, bind_of_ok hget]
  cases m.mark.natives.find? method.ownerName method.name method.descriptor with
  | none => exact R.breakDown _ _
  | some native =>
      have hrun : R.rel m.mark (endOf (native.run locals ctx m.mark)) := by
        by_cases hcopy : native = .builtin .arraycopy
        · subst hcopy
          exact rel_arraycopy hput
        · exact respects_native hcopy locals _
      refine rel_bind hrun fun _ hm => ?_
      split <;> exact hm

end Natives

section Instructions

variable [R.Attentive] [R.FreesFrames]

omit [R.Attentive] in
@[grind ←] theorem respects_onFrame (x : FrameM α) : Respects R ctx (onFrame x) := by
  intro m
  unfold onFrame
  split
  · exact R.refl m
  · split
    · exact MachineRel.FreesFrames.frames m _
    · exact R.refl m

section References

open Reference

omit [R.Attentive] in
@[grind ←] theorem respects_memberRef : Respects R ctx memberRef := by
  unfold memberRef
  grind

omit [R.Attentive] in
@[grind ←] theorem respects_classRef : Respects R ctx classRef := by
  unfold classRef
  grind

omit [R.Attentive] in
@[grind ←] theorem respects_push (v : Value) : Respects R ctx (push v) :=
  respects_onFrame _

variable [RespectingContext R ctx]

@[grind ←] theorem respects_loadConstant (index : UInt16) :
    Respects R ctx (loadConstant index) := by
  refine .bind respects_currentFile fun file => .bind (respects_orMalformed _) fun k => ?_
  split <;> grind

omit [R.Attentive] [R.FreesFrames] [RespectingContext R ctx] in
theorem staticsOf_ok {c : RuntimeClass} {r : Ref} {m m' : Machine}
    (h : staticsOf c ctx m = .ok r m') : c.statics = some r := by
  cases hc : c.statics with
  | none =>
      rw [staticsOf, hc] at h
      contradiction
  | some r' =>
      rw [staticsOf, hc] at h
      obtain ⟨rfl, rfl⟩ := EStateM.Result.ok.inj h
      rfl

omit [R.Attentive] [R.FreesFrames] [RespectingContext R ctx] in
/-- The class that a field has been found in has a record in the table. -/
theorem fieldOwner_ok {ref : MemberRef} {c : RuntimeClass} {m m' : Machine}
    (h : Reference.fieldOwner ref ctx m = .ok c m') : ∃ d : Descriptor, m'.classes[d]? = some c := by
  obtain ⟨k, m₁, -, h⟩ := of_bind_ok h
  obtain ⟨k', m₂, -, h⟩ := of_bind_ok h
  cases hcached : k'.resolved[ref]? with
  | some o =>
      rw [hcached] at h
      exact ⟨o, (classAt_ok h).1 ▸ (classAt_ok h).2⟩
  | none =>
      rw [hcached] at h
      obtain ⟨found, m₃, -, h⟩ := of_bind_ok h
      cases found with
      | none => contradiction
      | some o =>
          obtain ⟨-, m₄, -, h⟩ := of_bind_ok h
          exact ⟨o, (classAt_ok h).1 ▸ (classAt_ok h).2⟩

@[grind ←] theorem respects_getStatic : Respects R ctx getStatic := by
  unfold getStatic
  grind

/-- The static storage that is written is that of a class in the table. -/
@[grind ←] theorem respects_putStatic : Respects R ctx putStatic := by
  refine .bind respects_memberRef fun ref => .bind_found (respects_fieldOwner ref) fun hrun => ?_
  obtain ⟨d, hd⟩ := fieldOwner_ok hrun
  refine (respects_staticsOf _).leads.bind_found fun hfound => ?_
  exact (respects_onFrame _).leads.bind fun value => (respects_note _).leads.bind fun _ =>
    leads_modifyStatics hd (staticsOf_ok hfound) fun _ => rfl

@[grind ←] theorem respects_popOwner (ref : MemberRef) : Respects R ctx (popOwner ref) := by
  unfold popOwner
  grind

@[grind ←] theorem respects_getField : Respects R ctx getField := by
  unfold getField
  grind

@[grind ←] theorem respects_putField : Respects R ctx putField := by
  unfold putField
  grind

@[grind ←] theorem respects_staticCall : Respects R ctx staticCall := by
  unfold staticCall
  grind

@[grind ←] theorem respects_popCall (ref : MemberRef) : Respects R ctx (popCall ref) := by
  unfold popCall
  grind

@[grind ←] theorem respects_receiverCall (ref : MemberRef) :
    Respects R ctx (receiverCall ref) := by
  unfold receiverCall
  grind

@[grind ←] theorem respects_virtualCall : Respects R ctx virtualCall := by
  unfold virtualCall
  grind

@[grind ←] theorem respects_interfaceCall : Respects R ctx interfaceCall := by
  unfold interfaceCall
  grind

@[grind ←] theorem respects_specialCall : Respects R ctx specialCall := by
  unfold specialCall
  grind

omit [R.Attentive] in
@[grind ←] theorem respects_invokeTarget {target : Exec Call} (h : Respects R ctx target) :
    Respects R ctx (Reference.invoke target) := by
  unfold Reference.invoke
  grind

@[grind ←] theorem respects_newInstance : Respects R ctx newInstance := by
  unfold newInstance
  grind

@[grind ←] theorem respects_newArrayWithLength (element : Descriptor) :
    Respects R ctx (newArrayWithLength element) := by
  refine .bind (respects_classFor _) fun c => .bind (respects_onFrame _) fun n => ?_
  exact .bind (respects_alloc _ [n] (.inl (Nat.le_refl 1))) fun r => respects_push _

@[grind ←] theorem respects_newPrimitiveArray : Respects R ctx newPrimitiveArray := by
  unfold newPrimitiveArray
  grind

@[grind ←] theorem respects_newReferenceArray : Respects R ctx newReferenceArray := by
  unfold newReferenceArray
  grind

@[grind ←] theorem respects_newMultiArray : Respects R ctx newMultiArray := by
  refine .bind respects_classRef fun name => .bind (respects_onFrame _) fun dims => ?_
  refine .bind (respects_loadClass name) fun c => ?_
  split
  · exact respects_malformed_bind _ _
  · next hdims =>
      refine .bind_found (respects_onFrame _) fun {values _ _} hpop => ?_
      obtain ⟨_, _, _, _, hpop, _⟩ := of_onFrame_ok hpop
      refine (respects_check _).leads.bind_found fun {counts _ _} hcounts => Respects.leads ?_
      have hlength : counts.length ≤ Descriptor.dimensions c.descriptor := by
        rw [RuntimeClass.mapM_ok_length (check_ok hcounts).2, FrameM.of_popN_ok hpop]
        exact Nat.not_lt.mp fun hlt => hdims (.inr hlt)
      exact .bind (respects_alloc _ _ (.inr hlength)) fun r => respects_push _

@[grind ←] theorem respects_arrayLength : Respects R ctx arrayLength := by
  unfold arrayLength
  grind

@[grind ←] theorem respects_throwTop : Respects R ctx throwTop := by
  unfold throwTop
  grind

@[grind ←] theorem respects_monitor : Respects R ctx monitor := by
  unfold monitor
  grind

@[grind ←] theorem respects_checkCast : Respects R ctx checkCast := by
  unfold checkCast
  grind

@[grind ←] theorem respects_instanceTest : Respects R ctx instanceTest := by
  unfold instanceTest
  grind

@[grind ←] theorem respects_popElement : Respects R ctx Arrays.popElement := by
  unfold Arrays.popElement
  grind

@[grind ←] theorem respects_loadElement : Respects R ctx Arrays.load := by
  unfold Arrays.load
  grind

omit [R.Attentive] [R.FreesFrames] [RespectingContext R ctx] in
theorem of_popElement_ok {p : Ref × Nat} {m m' : Machine} (h : Arrays.popElement ctx m = .ok p m') :
    ∃ f callers index rest, m.frames = f :: callers ∧ f.stack = .int index :: .ref p.1 :: rest ∧
      m' = { m with frames := { f with stack := rest } :: callers } := by
  obtain ⟨index, m₁, hindex, h⟩ := of_bind_ok h
  obtain ⟨f, g, callers, hframes, hpop, rfl⟩ := of_onFrame_ok hindex
  obtain ⟨rest, hstack, rfl⟩ := FrameM.of_popInt_ok hpop
  obtain ⟨r, m₂, hr, h⟩ := of_bind_ok h
  obtain ⟨f', g', callers', hframes', hpop', rfl⟩ := of_onFrame_ok hr
  obtain ⟨rfl, rfl⟩ := List.cons.inj hframes'
  obtain ⟨rest', hstack', rfl⟩ := FrameM.of_popRef_ok hpop'
  cases r with
  | none => exact absurd h (throwNew_ne_ok _ _ _ _ _)
  | some r =>
      obtain ⟨o, m₃, hread, h⟩ := of_bind_ok h
      obtain ⟨rfl, -⟩ := objectAt_ok hread
      dsimp only at h
      split at h
      · obtain ⟨_, _, hpanic, -⟩ := of_bind_ok h
        contradiction
      · split at h
        · obtain ⟨_, _, hthrow, -⟩ := of_bind_ok h
          exact absurd hthrow (throwNew_ne_ok _ _ _ _ _)
        · obtain ⟨rfl, rfl⟩ := EStateM.Result.ok.inj h
          exact ⟨f, callers, index, rest', hframes, hstack.trans (congrArg _ hstack'), rfl⟩

/-- In an array of primitive values a value is stored at once. -/
theorem rel_store {m : Machine}
    (hput : ∀ {f callers v index r rest o} (g : Object → Object), m.frames = f :: callers →
      f.stack = v :: .int index :: .ref r :: rest → m.heap[r.number - 1]? = some o →
      o.HoldsPrimitives → (∀ o, g o = { o with elements := (g o).elements }) →
      R.rel m { m with
        frames := { f with stack := rest } :: callers, heap := m.heap.modify (r.number - 1) g }) :
    R.rel m (endOf (Arrays.store ctx m)) := by
  refine rel_bind (respects_onFrame _ m) fun {v m₁} hvalue hm₁ => ?_
  refine rel_bind (R.trans hm₁ (respects_popElement m₁)) fun {p m₂} helement hm₂ => ?_
  refine rel_bind (R.trans hm₂ (respects_objectAt _ m₂)) fun {o m₃} hread _ => ?_
  obtain ⟨hsame, ho⟩ := objectAt_ok hread
  subst m₃
  obtain ⟨f, g, callers, hframes, hpop, rfl⟩ := of_onFrame_ok hvalue
  obtain ⟨rest, hstack, rfl⟩ := FrameM.of_pop_ok hpop
  obtain ⟨f', callers', index, rest', hframes', hstack', rfl⟩ := of_popElement_ok helement
  obtain ⟨rfl, rfl⟩ := List.cons.inj hframes'
  dsimp only
  by_cases hprimitive : o.HoldsPrimitives
  · rw [hprimitive.isPrimitive]
    exact hput _ hframes (hstack.trans (congrArg _ hstack')) ho hprimitive fun _ => rfl
  · have hfill : Leads R ctx m (modifyObject p.1 fun a => { a with
        elements := a.elements.setIfInBounds p.2 (Value.coerce (Descriptor.component o.type) v) }) :=
      leads_modifyElements (fun _ => ⟨o, ho, hprimitive⟩) fun _ => rfl
    split
    · exact ((respects_check _).leads.bind fun r => (respects_checkStore _ r).leads.bind fun _ =>
        hfill) _ hm₂
    · exact hfill _ hm₂

end References

section Steps

open Step

/-- The instruction stores a value in an array. -/
def Opcode.storesElement : Opcode → Bool
  | .iastore | .lastore | .fastore | .dastore | .aastore | .bastore | .castore | .sastore => true
  | _ => false

omit [R.Attentive] [R.FreesFrames] in
theorem execute_of_storesElement {op : Opcode} (h : op.storesElement = true) :
    Step.execute op = thenNext Arrays.store := by
  cases op <;> first | rfl | contradiction

omit [R.Attentive] [R.FreesFrames] in
@[grind ←] theorem respects_thenNext {x : Exec Unit} (hx : Respects R ctx x) :
    Respects R ctx (thenNext x) :=
  .bind hx fun _ => .pure _

omit [R.Attentive] in
@[grind ←] theorem respects_inFrame (x : FrameM Unit) : Respects R ctx (inFrame x) :=
  respects_thenNext (respects_onFrame x)

omit [R.Attentive] [R.FreesFrames] in
@[grind ←] theorem respects_unsupported (name : Text) : Respects R ctx (unsupported name) :=
  respects_malformed _

omit [R.Attentive] in
@[grind ←] theorem respects_constant (v : Value) : Respects R ctx (Step.constant v) :=
  respects_inFrame _

omit [R.Attentive] in
@[grind ←] theorem respects_loadLocal (slot : Nat) : Respects R ctx (Step.load slot) :=
  respects_inFrame _

omit [R.Attentive] in
@[grind ←] theorem respects_storeLocal (slot : Nat) : Respects R ctx (Step.store slot) :=
  respects_inFrame _

variable [RespectingContext R ctx]

@[grind ←] theorem respects_orDivisionByZero (r : Option Value) :
    Respects R ctx (orDivisionByZero r) := by
  unfold orDivisionByZero
  grind

@[grind ←] theorem respects_intOp (op : IntOp) : Respects R ctx (intOp op) := by
  unfold intOp
  grind

@[grind ←] theorem respects_longOp (op : IntOp) : Respects R ctx (longOp op) := by
  unfold longOp
  grind

/-- The instructions that write to arrays are apart. -/
theorem respects_step {op : Opcode} (hop : op.storesElement = false) :
    Respects R ctx (Step.execute op) := by
  cases op <;> first | contradiction | (unfold Step.execute; grind)

theorem rel_run {m : Machine} {byte : UInt8}
    (hstore : ∀ op, Opcode.ofByte? byte = some op → op.storesElement = true →
      R.rel m (endOf (Arrays.store ctx m))) : R.rel m (endOf (Step.run byte ctx m)) := by
  unfold Step.run
  cases hop : Opcode.ofByte? byte with
  | none => exact respects_unsupported _ m
  | some op =>
      dsimp only
      cases hstores : op.storesElement with
      | false => exact respects_step hstores m
      | true =>
          rw [execute_of_storesElement hstores]
          exact rel_bind (hstore op hop hstores) fun _ hm => hm

end Steps

end Instructions

section Execution

open Interpreter

variable [R.Attentive] [R.FreesFrames]

@[grind ←] theorem respects_fetch : Respects R ctx fetch := by
  unfold fetch
  grind

@[grind ←] theorem respects_resume (r : Ref) (h : Option Handler) : Respects R ctx (resume r h) := by
  unfold resume
  grind

omit [R.Attentive] [R.FreesFrames] in
@[grind ←] theorem respects_blame (f : Fault) : Respects R ctx (blame f) := by
  unfold blame
  grind

omit [R.FreesFrames] in
theorem respects_profile (m : Method) : Respects R ctx (profile m) := by
  intro s
  change R.rel s (endOf (.ok () _))
  dsimp only [endOf]
  split
  · exact R.refl s
  · exact MachineRel.Attentive.aside rfl rfl rfl rfl rfl

variable [RespectingContext R ctx]

omit [R.FreesFrames] in
@[grind ←] theorem respects_findHandler (pc : Int) (type : Descriptor) (handlers : List Handler) :
    Respects R ctx (findHandler pc type handlers) := by
  induction handlers with
  | nil => exact .pure none
  | cons h rest ih =>
      unfold findHandler
      grind

@[grind ←] theorem respects_dispatch (r : Ref) : Respects R ctx (dispatch r) := by
  refine .bind respects_currentFrame fun f => .bind (respects_objectAt r) fun o => ?_
  refine .bind (.attempt (respects_findHandler _ _ _)) fun found => ?_
  split <;> grind

@[grind ←] theorem respects_handle (r : Ref) : Respects R ctx (handle r) := by
  unfold handle
  grind

end Execution

section Activations

open Interpreter

theorem respects_execute (hloop : ∀ fuel, Respects R ctx (loop fuel)) :
    Respects R ctx Interpreter.execute := by
  refine .bind respects_read fun c => .bind (.attempt (hloop _)) fun done => ?_
  split <;> grind

/-- The natives are run in their frames. -/
theorem rel_runBody {m : Machine} {f : Frame} {callers : List Frame} (hframes : m.frames = f :: callers)
    (hprofile : Respects R ctx (profile f.method))
    (hnative : ∀ {m}, m.frames = f :: callers → f.method.isNative = true →
      R.rel m (endOf (Native.call f.method f.locals ctx m)))
    (hloop : ∀ fuel, Respects R ctx (loop fuel)) :
    R.rel m (endOf (runBody f.method f.locals ctx m)) := by
  refine rel_bind (hprofile m) fun {_ m₁} hrun hm₁ => R.trans hm₁ ?_
  have hframes₁ := (profile_frames hrun).trans hframes
  split
  case isTrue hflag => exact hnative hframes₁ hflag
  case isFalse =>
    split
    · exact R.breakDown m₁ _
    · exact respects_execute hloop m₁

variable [R.Tolerant] [R.FreesFrames]

/-- A frame comes and goes. -/
theorem rel_withFrame {x : Exec α} {f : Frame} {m : Machine}
    (hx : R.rel { m with frames := f :: m.frames } (endOf (x ctx { m with frames := f :: m.frames }))) :
    R.rel m (endOf (withFrame f x ctx m)) := by
  have hentered : R.rel m { m with frames := f :: m.frames } := MachineRel.FreesFrames.frames m _
  have hrun := R.trans hentered hx
  have hleft : ∀ m' : Machine, R.rel m' { m' with frames := m.frames } := fun m' =>
    MachineRel.FreesFrames.frames m' _
  unfold Interpreter.withFrame
  dsimp only
  split
  case h_1 hx' =>
    rw [hx'] at hrun
    exact R.trans hrun (hleft _)
  case h_2 hx' =>
    rw [hx'] at hrun
    exact R.trans (R.trans hrun (hleft _)) (MachineRel.Tolerant.note _ _)
  case h_3 hx' =>
    rw [hx'] at hrun
    exact R.trans hrun (hleft _)

/-- An activation respects what natives do in their frames, and methods however many of their
instructions are executed. -/
theorem respects_activate {method : Method} (hprofile : Respects R ctx (profile method))
    (hnative : ∀ {m f callers}, m.frames = f :: callers → f.method = method →
      method.isNative = true → R.rel m (endOf (Native.call method f.locals ctx m)))
    (hloop : ∀ fuel, Respects R ctx (loop fuel)) (args : List Value) :
    Respects R ctx (activate method args) := by
  unfold activate
  split
  · exact .throw _
  · refine .bind respects_get fun caller m => rel_withFrame ?_
    exact rel_runBody (f := Frame.enter method _ caller.frames) rfl hprofile
      (fun hframes hflag => hnative hframes rfl hflag) hloop

end Activations

/-- A relation that also covers what the code of methods writes to arrays: the instructions that do so,
once they are fetched, and the natives, in their frames. -/
class MachineRel.CoversWrites (R : MachineRel) : Prop extends R.Attentive, R.FreesFrames where
  storeElement : ∀ {ctx : Context} [RespectingContext R ctx] {m m' : Machine} {byte : UInt8}
    {op : Opcode}, Interpreter.fetch ctx m = .ok byte m' → Opcode.ofByte? byte = some op →
    op.storesElement = true → R.rel m' (endOf (Arrays.store ctx m'))
  nativeCall : ∀ {ctx : Context} [RespectingContext R ctx] {m : Machine} {f : Frame}
    {callers : List Frame}, m.frames = f :: callers → f.method.isNative = true →
    R.rel m (endOf (Native.call f.method f.locals ctx m))

section AllArrays

variable [R.Regular] [RespectingContext R ctx]

theorem respects_nativeCall (method : Method) (locals : Array Value) :
    Respects R ctx (Native.call method locals) :=
  fun m => rel_nativeCall (fun f _ _ _ hf => MachineRel.Regular.contents m.mark _ f hf) method

variable [R.FreesFrames]

theorem respects_storeElement : Respects R ctx Arrays.store := by
  refine fun m => rel_store fun {f callers _ _ _ rest _} g _ _ _ _ hg => ?_
  have hpopped := MachineRel.FreesFrames.frames (R := R) m ({ f with stack := rest } :: callers)
  exact R.trans hpopped (MachineRel.Regular.contents _ _ g hg)

theorem respects_run (byte : UInt8) : Respects R ctx (Step.run byte) :=
  fun m => rel_run fun _ _ _ => respects_storeElement m

omit [RespectingContext R ctx] in
instance : R.CoversWrites where
  storeElement _ _ _ := respects_storeElement _
  nativeCall _ _ := respects_nativeCall _ _ _

end AllArrays

section Engine

open Interpreter

variable [R.CoversWrites]

theorem respects_advance [RespectingContext R ctx] : Respects R ctx advance := by
  refine fun m => rel_bind (respects_fetch m) fun {byte m₁} hfetch hm₁ => ?_
  have hrun : R.rel m₁ (endOf (Step.run byte ctx m₁)) :=
    rel_run fun op hop hstores => MachineRel.CoversWrites.storeElement hfetch hop hstores
  refine rel_bind (R.trans hm₁ (rel_attempt hrun)) fun {done m₂} _ hm₂ => R.trans hm₂ ?_
  split
  · exact R.refl m₂
  · exact respects_handle _ m₂
  · exact R.refl m₂

/-- However many instructions are executed, the relation is respected as by each. -/
theorem respects_loop [RespectingContext R ctx] (fuel : Nat) : Respects R ctx (loop fuel) := by
  induction fuel with
  | zero => exact .throw _
  | succ fuel ih =>
      intro m
      have hstep : Respects R ctx advance := respects_advance
      have hm := hstep m
      unfold loop
      split
      case h_1 hrun =>
        rw [hrun] at hm
        exact R.trans hm (ih _)
      case h_2 hrun =>
        rw [hrun] at hm
        exact hm
      case h_3 hrun =>
        rw [hrun] at hm
        exact hm

/-- So it is in the engine, at whatever depth. -/
instance respectingContext (host : Host) (steps nesting : Nat) :
    RespectingContext R (Session.context host steps nesting) := by
  induction nesting with
  | zero => exact ⟨fun _ _ m => R.refl m, fun _ m => R.refl m⟩
  | succ nesting ih =>
      refine ⟨fun method args => respects_invoke ?_, respects_initializeOnce⟩
      refine respects_activate (respects_profile method) (fun hframes hmethod hnative => ?_)
        respects_loop args
      subst hmethod
      exact MachineRel.CoversWrites.nativeCall hframes hnative

end Engine

section Requests

theorem Respects.discard {x : Exec α} (hx : Respects R ctx x) : Respects R ctx (discard x) := by
  intro m
  rw [endOf_discard]
  exact hx m

variable [R.Attentive] [RespectingContext R ctx]

theorem respects_invokeOn (receiver : Ref) (name descriptor : Text) (args : List Value) :
    Respects R ctx (Session.invokeOn receiver name descriptor args) := by
  unfold Session.invokeOn
  grind

theorem respects_runEntry (name : Text) (args : List Text) :
    Respects R ctx (Session.runEntry name args) := by
  unfold Session.runEntry
  grind

theorem respects_runMain (className : Text) (args : List Text) :
    Respects R ctx (Session.runMain className args) := by
  refine .bind (.attempt (respects_runEntry _ _)) fun done => ?_
  split
  · exact .pure ()
  · refine .bind respects_get fun m => .bind (respects_note _) fun _ => ?_
    refine .bind (respects_objectAt _) fun o => ?_
    refine .bind (.attempt (respects_invokeNamed _ _ _ _)) fun reported => ?_
    split <;> grind
  · exact .throw _

theorem respects_callerClass (caller : Option Text) :
    Respects R ctx (Request.callerClass caller) := by
  cases caller with
  | none => exact .pure none
  | some name => exact .bind (respects_loadClass name) fun c => .pure (some c)

/-- What a request asks for respects every such relation, unless it sets a field or an element. -/
theorem respects_perform {request : Request}
    (hfield : ∀ object owner name v, request = .setField object owner name v →
      Respects R ctx request.perform)
    (helement : ∀ object i v, request = .setElement object i v → Respects R ctx request.perform) :
    Respects R ctx request.perform := by
  cases request with
  | link d => exact respects_link d
  | classFor d => exact .discard (respects_classFor d)
  | loadClass name => exact .discard (respects_loadClass name)
  | invoke owner name descriptor args => exact .discard (respects_invokeNamed _ _ _ _)
  | invokeDeclared owner name descriptor args =>
      refine .bind (respects_loadClass owner) fun c => ?_
      split
      · exact respects_unresolved _ _ _
      · exact .discard (respects_invokeMethod _ _)
  | invokeOn receiver name descriptor args => exact .discard (respects_invokeOn _ _ _ _)
  | runMain className args => exact respects_runMain _ _
  | resolveField start ref =>
      exact .bind (respects_loadClass start) fun c => .discard (respects_resolveField _ ref)
  | resolveMethod start ref =>
      exact .bind (respects_loadClass start) fun c => .discard (respects_resolveMethod _ ref)
  | resolveSpecial caller ref =>
      exact .bind (respects_callerClass caller) fun c => .discard (respects_resolveSpecial c ref)
  | assignable a b =>
      exact .bind (respects_loadClass a) fun ca => .bind (respects_loadClass b) fun cb =>
        .discard (respects_assignable _ _)
  | newObject className =>
      exact .bind (respects_loadClass className) fun c => .discard (respects_newObject _)
  | construct className descriptor args =>
      exact .bind (respects_loadClass className) fun c => .discard (respects_construct c _ _)
  | newArray className counts =>
      exact .bind (respects_loadClass className) fun c => .discard (respects_newArray c counts)
  | newArrayOf element values => exact .discard (respects_newArrayOf _ _)
  | clone object => exact .discard (respects_clone object)
  | newString text => exact .discard (respects_newString text)
  | hostText v => exact .discard (respects_hostText v)
  | intern v => exact .discard (respects_intern v)
  | internText text => exact .discard (respects_internText text)
  | stringArray texts => exact .discard (respects_stringArray texts)
  | classMirror className =>
      exact .bind (respects_loadClass className) fun c => .discard (respects_classMirror _)
  | setField object owner name v => exact hfield object owner name v rfl
  | setElement object i v => exact helement object i v rfl

end Requests

end ClassEngine
