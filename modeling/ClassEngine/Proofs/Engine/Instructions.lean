import ClassEngine.Engine.Step
import ClassEngine.Proofs.Engine.Allocation

/-!
Every instruction is sound. An instruction that only works on its frame may write local variables,
but it throws nothing; all others leave the local variables alone.
-/

namespace ClassEngine

open Machine Exec Linking Resolution Allocation

variable {α : Type} {ctx : Context}

section References

open Reference

@[grind ←] theorem safe_orMalformed (r : Except PoolError α) : Safe ctx (orMalformed r) := by
  unfold orMalformed
  grind

@[grind ←] theorem safe_currentFile : Safe ctx currentFile := by
  unfold currentFile
  grind

@[grind ←] theorem safe_memberRef : Safe ctx memberRef := by
  unfold memberRef
  grind

@[grind ←] theorem safe_classRef : Safe ctx classRef := by
  unfold classRef
  grind

@[grind ←] theorem safe_push (v : Value) : Safe ctx (push v) :=
  safe_onFrame (FrameM.keeps_push v)

@[grind ←] theorem safe_staticsOf (c : RuntimeClass) : Safe ctx (staticsOf c) := by
  unfold staticsOf
  grind

theorem sound_found (found : Option Method) :
    Sound ctx (MethodStarted found) (Reference.found found) fun method m =>
      m.classes.Started method.owner := by
  cases found with
  | none => exact .throw rfl
  | some method => exact .pure fun m _ h => h method rfl

/-- An access to static storage, with what it does before and after it is noted. -/
theorem sound_noteStatics {x : Exec α} (hx : Safe ctx x) (c : RuntimeClass) :
    Sound ctx c.Known (do note (.statics c.descriptor); x) fun _ _ => True :=
  .seq ((sound_note_statics c.descriptor).pre fun _ _ h => h.started) fun _ => hx

variable [SoundContext ctx]

@[grind ←] theorem safe_loadConstant (index : UInt16) : Safe ctx (loadConstant index) := by
  unfold loadConstant
  grind

/-- The class that declares a field is looked for from the class that the reference names. -/
theorem sound_resolvedOwner (ref : MemberRef) :
    Sound ctx (fun _ => True) (fieldOwner ref) (Resolved (Descriptor.ofInternal ref.owner) ref) := by
  refine .seq (sound_loadClass ref.owner) fun c => ?_
  have hstable : Stable fun m => c.descriptor = Descriptor.ofInternal ref.owner ∧ c.Known m :=
    (stable_const _).and (stable_known c)
  have hresolve : Sound ctx (fun m => c.descriptor = Descriptor.ofInternal ref.owner ∧ c.Known m)
      (resolveField c.descriptor ref) (Resolved c.descriptor ref) :=
    (sound_resolveField c.descriptor ref).pre fun _ _ h => h.2.started
  exact SoundBy.post (hresolve.keep hstable) fun owner m _ h => h.1.1 ▸ h.2

/-- The class that declares a field has begun to be initialized. -/
theorem sound_fieldOwner (ref : MemberRef) :
    Sound ctx (fun _ => True) (fieldOwner ref) fun c m => c.Known m :=
  (sound_resolvedOwner ref).post fun _ _ _ h => h.known

@[grind ←] theorem safe_getStatic : Safe ctx getStatic := by
  refine Safe.bind safe_memberRef fun ref => ?_
  refine SoundBy.seq (sound_fieldOwner ref) fun owner => ?_
  refine Safe.then (stable_known owner) (safe_staticsOf owner) fun r => ?_
  refine sound_noteStatics ?_ owner
  grind

@[grind ←] theorem safe_putStatic : Safe ctx putStatic := by
  refine Safe.bind safe_memberRef fun ref => ?_
  refine SoundBy.seq (sound_fieldOwner ref) fun owner => ?_
  refine Safe.then (stable_known owner) (safe_staticsOf owner) fun storage => ?_
  refine Safe.then (stable_known owner) (safe_onFrame FrameM.keeps_pop) fun value => ?_
  refine sound_noteStatics ?_ owner
  grind

@[grind ←] theorem safe_popOwner (ref : MemberRef) : Safe ctx (popOwner ref) := by
  unfold popOwner
  grind

omit [SoundContext ctx] in
theorem Resolved.isFound {f : FieldAccess} {m : Machine}
    (h : Resolved (Descriptor.ofInternal f.ref.owner) f.ref f.owner m) (hinv : m.Inv ctx.host)
    (hrecalls : m.classes.Recalls) : f.IsFound m.classes :=
  ⟨⟨_, hinv.table⟩, h.record, h.finds hrecalls⟩

omit [SoundContext ctx] in
theorem sound_readField (f : FieldAccess) :
    Sound ctx (Resolved (Descriptor.ofInternal f.ref.owner) f.ref f.owner) (readField f)
      fun _ _ => True := by
  refine .seq (sound_objectAt f.object) fun o => ?_
  refine .seq ((sound_markAccess stable_true ?_).pre fun _ _ h => ⟨h, trivial⟩) fun _ =>
    .pure fun _ _ _ => trivial
  rintro m hinv ⟨hresolved, ho⟩ _ hrecalls
  exact ⟨hresolved.isFound hinv hrecalls, o, ho, rfl⟩

omit [SoundContext ctx] in
theorem sound_storeField (f : FieldAccess) (v : Value) :
    Sound ctx (Resolved (Descriptor.ofInternal f.ref.owner) f.ref f.owner) (storeField f v)
      fun _ _ => True := by
  refine .seq ((sound_markAccess stable_true ?_).pre fun _ _ h => ⟨h, trivial⟩) fun _ => ?_
  · exact fun m hinv hresolved _ hrecalls => hresolved.isFound hinv hrecalls
  · exact safe_modifyObject (fun _ => rfl) (fun _ => rfl) fun _ => rfl

@[grind ←] theorem safe_getField : Safe ctx getField := by
  refine Safe.bind safe_memberRef fun ref => Safe.bind (safe_popOwner ref) fun r => ?_
  refine SoundBy.seq (sound_resolvedOwner ref) fun owner => ?_
  exact .seq (sound_readField ⟨r, owner, ref⟩) fun v => safe_push v

@[grind ←] theorem safe_putField : Safe ctx putField := by
  refine Safe.bind safe_memberRef fun ref => ?_
  refine Safe.bind (safe_onFrame FrameM.keeps_pop) fun value => ?_
  refine Safe.bind (safe_popOwner ref) fun r => ?_
  refine SoundBy.seq (sound_resolvedOwner ref) fun owner => ?_
  exact sound_storeField ⟨r, owner, ref⟩ value

@[grind ←] theorem safe_popCall (ref : MemberRef) : Safe ctx (popCall ref) := by
  unfold popCall
  grind

/-- What is called is a method of a class whose initialization has begun. -/
def CallStarted (call : Call) (m : Machine) : Prop :=
  m.classes.Started call.1.owner

theorem sound_staticCall : Sound ctx (fun _ => True) staticCall CallStarted := by
  refine .seq safe_memberRef fun ref => ?_
  refine .seq (sound_loadClass ref.owner) fun c => ?_
  refine .seq ((sound_resolveMethod c.descriptor ref).pre fun _ _ h => h.2.started) fun found => ?_
  refine .seq (sound_found found) fun method => ?_
  split
  · refine Safe.then (stable_started method.owner) (safe_onFrame (FrameM.keeps_popN _)) fun args => ?_
    exact .pure fun _ _ h => h
  · exact sound_malformed _

theorem sound_receiverCall (ref : MemberRef) :
    Sound ctx (fun _ => True) (receiverCall ref) CallStarted := by
  refine .seq (safe_popCall ref) fun p => ?_
  refine .seq (sound_receiverType p.1) fun type => ?_
  refine .seq (sound_resolveMethod type ref) fun found => ?_
  refine .seq (sound_found found) fun method => ?_
  exact .pure fun _ _ h => h

theorem sound_virtualCall : Sound ctx (fun _ => True) virtualCall CallStarted :=
  .seq safe_memberRef fun ref => sound_receiverCall ref

theorem sound_interfaceCall : Sound ctx (fun _ => True) interfaceCall CallStarted := by
  refine .seq safe_memberRef fun ref => ?_
  refine .seq (safe_onFrame FrameM.keeps_u1) fun _ => ?_
  exact .seq (safe_onFrame FrameM.keeps_u1) fun _ => sound_receiverCall ref

theorem sound_specialCall : Sound ctx (fun _ => True) specialCall CallStarted := by
  refine .seq safe_memberRef fun ref => ?_
  refine .seq (safe_popCall ref) fun p => ?_
  refine .seq soundBy_currentFrame fun f => ?_
  refine .seq (sound_classAt f.method.owner) fun caller => ?_
  refine .seq ((sound_resolveSpecial (some caller) ref).pre fun m _ h => ?_) fun found => ?_
  · rintro c hc
    obtain rfl := Option.some.inj hc
    exact h.2
  · refine .seq (sound_found found) fun method => ?_
    exact .pure fun _ _ h => h

/-- A call runs a method whose class has begun to be initialized. -/
theorem safe_call {target : Exec Call} (h : Sound ctx (fun _ => True) target CallStarted) :
    Safe ctx (Reference.invoke target) := by
  refine SoundBy.seq h fun call => ?_
  refine .seq (sound_invokeMethod call.1 call.2) fun result => ?_
  split
  · exact safe_push result
  · exact Safe.pure ()

@[grind ←] theorem safe_newInstance : Safe ctx newInstance := by
  refine Safe.bind safe_classRef fun name => ?_
  refine SoundBy.seq (sound_loadClass name) fun c => ?_
  refine .pre (P := c.Known) ?_ fun _ _ h => h.2
  have hmake : Sound ctx c.Known (do push (.ref (← newObject c.descriptor))) fun _ _ => True :=
    .seq ((sound_newObject _).pre fun _ _ h => h.started) fun r => (safe_push _).sound
  split
  · exact .seq (sound_malformed _) fun _ => hmake
  · exact hmake

@[grind ←] theorem safe_newArrayWithLength (element : Descriptor) :
    Safe ctx (newArrayWithLength element) := by
  refine SoundBy.seq (sound_classFor _) fun c => ?_
  refine .pre (P := c.Known) ?_ fun _ _ h => h.2
  refine Safe.then (stable_known c) (safe_onFrame FrameM.keeps_popInt) fun n => ?_
  exact .seq ((sound_alloc _ _).pre fun _ _ h => h.started) fun r => safe_push _

@[grind ←] theorem safe_newPrimitiveArray : Safe ctx newPrimitiveArray := by
  unfold newPrimitiveArray
  grind

@[grind ←] theorem safe_newReferenceArray : Safe ctx newReferenceArray := by
  unfold newReferenceArray
  grind

@[grind ←] theorem safe_newMultiArray : Safe ctx newMultiArray := by
  refine Safe.bind safe_classRef fun name => Safe.bind (safe_onFrame FrameM.keeps_u1) fun dims => ?_
  refine SoundBy.seq (sound_loadClass name) fun c => ?_
  refine .pre (P := c.Known) ?_ fun _ _ h => h.2
  have hmake : Sound ctx c.Known (do
      let values ← onFrame (FrameM.popN dims.toNat)
      let counts ← check (values.mapM FrameM.asInt)
      push (.ref (← Arrays.alloc c.descriptor counts))) fun _ _ => True := by
    refine Safe.then (stable_known c) (safe_onFrame (FrameM.keeps_popN _)) fun values => ?_
    refine Safe.then (stable_known c) (safe_check _) fun counts => ?_
    exact .seq ((sound_alloc _ _).pre fun _ _ h => h.started) fun r => safe_push _
  split
  · exact .seq (sound_malformed _) fun _ => hmake
  · exact hmake

@[grind ←] theorem safe_arrayLength : Safe ctx arrayLength := by
  unfold arrayLength
  grind

@[grind ←] theorem safe_throwTop : Safe ctx throwTop := by
  unfold throwTop
  grind

@[grind ←] theorem safe_monitor : Safe ctx monitor := by
  unfold monitor
  grind

@[grind ←] theorem safe_checkCast : Safe ctx checkCast := by
  unfold checkCast
  grind

@[grind ←] theorem safe_instanceTest : Safe ctx instanceTest := by
  unfold instanceTest
  grind

end References

section Steps

open Step

@[grind ←] theorem safe_thenNext {x : Exec Unit} (hx : Safe ctx x) : Safe ctx (thenNext x) :=
  Safe.bind hx fun _ => Safe.pure Outcome.next

@[grind ←] theorem safe_inFrame {x : FrameM Unit} (hx : x.Keeps .instruction) :
    Safe ctx (inFrame x) :=
  Safe.bind (safe_onFrame hx) fun _ => Safe.pure Outcome.next

@[grind ←] theorem safe_constant (v : Value) : Safe ctx (Step.constant v) :=
  safe_inFrame (FrameM.keeps_push v)

@[grind ←] theorem safe_loadLocal (slot : Nat) : Safe ctx (Step.load slot) :=
  safe_inFrame (.bind (FrameM.keeps_load slot) FrameM.keeps_push)

@[grind ←] theorem safe_unsupported (name : Text) : Safe ctx (unsupported name) :=
  safe_malformed _

variable [SoundContext ctx]

@[grind ←] theorem safe_orDivisionByZero (r : Option Value) : Safe ctx (orDivisionByZero r) := by
  unfold orDivisionByZero
  grind

@[grind ←] theorem safe_intOp (op : IntOp) : Safe ctx (intOp op) := by
  unfold intOp
  grind

@[grind ←] theorem safe_longOp (op : IntOp) : Safe ctx (longOp op) := by
  unfold longOp
  grind

/-- An instruction works on its frame alone, or it leaves the local variables as they are. -/
theorem execute_inFrame_or_safe (op : Opcode) :
    (∃ x : FrameM Unit, x.Keeps .position ∧ Step.execute op = inFrame x) ∨
      Safe ctx (Step.execute op) := by
  have hoperand : FrameM.Keeps .position (do FrameM.storeTop (← FrameM.u1).toNat) :=
    .bind FrameM.keeps_u1 fun slot => FrameM.keeps_storeTop slot.toNat
  cases op
  case istore | lstore | fstore | dstore | astore => exact .inl ⟨_, hoperand, rfl⟩
  case istore0 | lstore0 | fstore0 | dstore0 | astore0 | istore1 | lstore1 | fstore1 | dstore1 |
      astore1 | istore2 | lstore2 | fstore2 | dstore2 | astore2 | istore3 | lstore3 | fstore3 |
      dstore3 | astore3 => exact .inl ⟨_, FrameM.keeps_storeTop _, rfl⟩
  case iinc => exact .inl ⟨_, FrameM.keeps_iinc, rfl⟩
  case wide => exact .inl ⟨_, FrameM.keeps_wide, rfl⟩
  case invokestatic => exact .inr (safe_thenNext (safe_call sound_staticCall))
  case invokevirtual => exact .inr (safe_thenNext (safe_call sound_virtualCall))
  case invokeinterface => exact .inr (safe_thenNext (safe_call sound_interfaceCall))
  case invokespecial => exact .inr (safe_thenNext (safe_call sound_specialCall))
  all_goals
    right
    unfold Step.execute
    grind

end Steps

end ClassEngine
