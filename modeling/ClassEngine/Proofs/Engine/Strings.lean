import ClassEngine.Proofs.Engine.Canonical
import ClassEngine.Proofs.Engine.SpecialCalls
import ClassEngine.Proofs.Engine.StraightLines

/-!
Strings between the program and its surroundings. A string is made by the constructor of its class,
which copies the bytes it is given, and read by its own accessor. Main result:
`strings_are_read_back`.
-/

namespace ClassEngine

open Machine Exec Linking Resolution Allocation Interpreter

section Constructor

variable {host : Host} {steps nesting : Nat} {m₀ m : Machine} {method : Method} {k : ClassSource}
  {stack : List Value} {locals : Array Value} {heap : Array Object}

/-- The constructor of the root class. -/
def rootConstructor : MethodSource :=
  Library.method Library.publicFlag "<init>" "()V" 0 1 [.plain .returnVoid]

/-- The constructor of the root class does nothing. -/
theorem rootConstructor_runs (hdescribed : method.IsDescribedBy Library.objectClass rootConstructor)
    (hroom : ((depthOf m.frames + 1 : Nat) : Int) ≤ m.maxDepth) (r : Ref) :
    ∃ m', invokeMethod method [.ref r] (Session.context host (steps + 1) (nesting + 1)) m =
      .ok .null m' ∧ m.Resembles m' := by
  have hlocals : layoutLocals method [.ref r] = some #[.ref r] :=
    layoutLocals_described hdescribed rfl rfl rfl
  exact invokeMethod_of_lines hdescribed rfl (by decide) rfl rfl hlocals hroom (by simp)
    (.last Directive.does_returnVoid)

/-- There is room for one more frame on top of one for which there was room for two. -/
theorem room_inside {s : Stage} {opPc pc : Int}
    (hroom : ((depthOf m₀.frames + 2 : Nat) : Int) ≤ m₀.maxDepth)
    (hm : (m₀.inside method s opPc pc).Resembles m) :
    ((depthOf m.frames + 1 : Nat) : Int) ≤ m.maxDepth := by
  rw [hm.frames, hm.maxDepth]
  exact hroom

/-- A constructor of a class of the library calls that of the root class. -/
theorem does_superInit {r : Ref} (hstrings : m₀.HasStrings)
    (hk : ∀ {m : Machine}, m.HasStrings → m.HasIntact k)
    (howner : method.owner = Descriptor.ofInternal k.name)
    (hroom : ((depthOf m₀.frames + 2 : Nat) : Int) ≤ m₀.maxDepth) :
    (Directive.invoke .invokespecial Library.objectName "<init>" "()V").Does
      (Session.context host (steps + 1) (nesting + 1)) m₀ method
      ⟨.ref r :: stack, locals, heap⟩ .next ⟨stack, locals, heap⟩ := by
  let ctx := Session.context host (steps + 1) (nesting + 1)
  let ref : MemberRef := ⟨Library.objectName, "<init>", "()V"⟩
  have hop : Step.execute .invokespecial = Step.thenNext (Reference.invoke Reference.specialCall) :=
    rfl
  refine Directive.does_member Directive.emits_invoke hop (bind_assoc _ _ _) fun p m hm => ?_
  obtain ⟨m₁, hpop, hm₁⟩ : ∃ m', onFrame (FrameM.popN 1) ctx m = .ok [.ref r] m' ∧
      (m₀.inside method ⟨stack, locals, heap⟩ p (p + 3 : Nat)).Resembles m' :=
    onFrame_inside hm (if_neg (by simp)) rfl
  have hcall : Reference.popCall ref ctx m = .ok (r, [.ref r]) m₁ := by
    have hsignature : Signature.parse ref.descriptor = .ok ⟨[], "V", "()V"⟩ := rfl
    rw [Reference.popCall, hsignature]
    exact bind_of_ok hpop
  obtain ⟨c, hc, -⟩ := hk (hstrings.inside hm₁)
  obtain ⟨o, hintact, ho, hload⟩ := (hstrings.inside hm₁).object.loadClass host steps nesting
  obtain ⟨init, hinit, hdescribed⟩ := hintact.built.declaredMethod? Library.objectClass_isOrderly
    (m := rootConstructor) List.mem_cons_self
  have hcaller : classAt method.owner ctx m₁ = .ok c m₁ := classAt_eq_ok (howner ▸ hc)
  have habove : startsAbove (some c) ref o.descriptor ctx m₁ = .ok none m₁ :=
    startsAbove_none _ _ fun _ _ => .inl rfl
  have hspecial : resolveSpecial (some c) ref ctx m₁ = .ok (some init) m₁ := by
    rw [resolveSpecial]
    refine (bind_of_ok hload).trans ((bind_of_ok habove).trans ?_)
    have hfound : o.declaredMethod? ref.name ref.descriptor = some init := hinit
    rw [hfound]
    rfl
  obtain ⟨m', hrun, hm'⟩ : ∃ m', invokeMethod init [.ref r] ctx m₁ = .ok .null m' ∧ m₁.Resembles m' :=
    rootConstructor_runs hdescribed (room_inside hroom hm₁) r
  refine ⟨m', ?_, hm₁.trans hm'⟩
  have htarget : (do
      let call ← Reference.popCall ref
      let caller ← classAt (← currentFrame).method.owner
      let m ← Reference.found (← resolveSpecial (some caller) ref)
      pure (m, call.2) : Exec Reference.Call) ctx m = .ok (init, [.ref r]) m₁ :=
    (bind_of_ok hcall).trans ((bind_of_ok (currentFrame_ok hm₁.frames)).trans
      ((bind_of_ok hcaller).trans (bind_of_ok hspecial)))
  have hvoid : init.signature.returnsValue = false := by
    rw [← Except.ok.inj hdescribed.signature]
    rfl
  exact invoke_void htarget hrun hvoid

end Constructor

section Copying

variable {host : Host} {steps nesting : Nat} {ctx : Context} {m₀ m : Machine} {method : Method}
  {stack : List Value} {locals : Array Value} {heap : Array Object} {elements old : Array Value}

theorem foldl_overwrite (vs : List Value) (done rest : List Value) (hlength : rest.length = vs.length) :
    (vs.foldl (fun (p : Nat × Array Value) v => (p.1 + 1, p.2.setIfInBounds p.1 v))
      (done.length, (done ++ rest).toArray)).2 = (done ++ vs).toArray := by
  induction vs generalizing done rest with
  | nil => rw [List.length_eq_zero_iff.mp hlength, List.foldl_nil]
  | cons v vs ih =>
      cases rest with
      | nil => contradiction
      | cons w rest =>
          have hset : (done ++ w :: rest).toArray.setIfInBounds done.length v =
              ((done ++ [v]) ++ rest).toArray := by simp
          have hlength' : done.length + 1 = (done ++ [v]).length := by simp
          rw [List.foldl_cons, hset, hlength', ih (done ++ [v]) rest (Nat.succ.inj hlength)]
          simp

/-- All elements are overwritten by as many others. -/
theorem overwrite_all (h : old.size = elements.size) :
    Arrays.overwrite 0 elements.toList old = elements := by
  have hfold := foldl_overwrite elements.toList [] old.toList (by simpa using h)
  simpa [Arrays.overwrite] using hfold

theorem modify_push {α : Type} (xs : Array α) (x : α) (f : α → α) :
    (xs.push x).modify xs.size f = xs.push (f x) := by
  grind

theorem modify_push_of_lt {α : Type} {xs : Array α} {i : Nat} (hi : i < xs.size) (x : α)
    (f : α → α) : (xs.push x).modify i f = (xs.modify i f).push x := by
  grind

/-- An array of bytes is copied into the array of as many bytes that was made last. -/
theorem copy_bytes {r : Ref} {o : Object} (ho : heap[r.number - 1]? = some o) (htype : o.type = "[B")
    (hsmall : o.elements.size < 2147483648) (hsize : old.size = o.elements.size)
    (hheap : m.heap = heap.push (.array "[B" old)) :
    Arrays.copy (some r) 0 (some ⟨heap.size + 1⟩) 0 (Int32.ofNat o.elements.size) ctx m =
      .ok () { m with heap := heap.push (.array "[B" o.elements) } := by
  have hget : (get : Exec Machine) ctx m = .ok m m := rfl
  have hr : r.number - 1 < heap.size := (Array.getElem?_eq_some_iff.mp ho).1
  have hsource : objectAt r ctx m = .ok o m := by
    rw [objectAt, bind_of_ok hget, hheap, Array.getElem?_push, if_neg (Nat.ne_of_lt hr), ho]
    rfl
  have htarget : objectAt ⟨heap.size + 1⟩ ctx m = .ok (.array "[B" old) m := by
    rw [objectAt, bind_of_ok hget, hheap, Nat.add_sub_cancel, Array.getElem?_push_size]
    rfl
  have hn : (Int32.ofNat o.elements.size).toInt = o.elements.size :=
    Int32.toInt_ofNat_of_lt hsmall
  have hrange : ¬((0 : Int32).toInt < 0 ∨ (0 : Int32).toInt < 0 ∨
      (Int32.ofNat o.elements.size).toInt < 0 ∨
      (o.elements.size : Int) < (0 : Int32).toInt + (Int32.ofNat o.elements.size).toInt ∨
      ((Object.array "[B" old).elements.size : Int) <
        (0 : Int32).toInt + (Int32.ofNat o.elements.size).toInt) := by
    rw [hn, Int32.toInt_zero, Object.array, hsize]
    omega
  have hpart : (o.elements.extract (0 : Int32).toInt.toNat
      ((0 : Int32).toInt + (Int32.ofNat o.elements.size).toInt).toNat).toList = o.elements.toList := by
    rw [hn, Int32.toInt_zero, Int.zero_add, Int.toNat_natCast, Int.toNat_zero, Array.extract_size]
  have hstored : modifyObject ⟨heap.size + 1⟩ (fun t => { t with
      elements := Arrays.overwrite 0 o.elements.toList t.elements }) ctx m =
      .ok () { m with heap := heap.push (.array "[B" o.elements) } := by
    have hmodify := modify_push heap (.array "[B" old) fun t => { t with
      elements := Arrays.overwrite 0 o.elements.toList t.elements }
    have hall : Arrays.overwrite 0 o.elements.toList (Object.array "[B" old).elements = o.elements :=
      overwrite_all hsize
    rw [hall] at hmodify
    change EStateM.Result.ok () { m with heap := m.heap.modify heap.size _ } = _
    rw [hheap, hmodify]
    rfl
  unfold Arrays.copy
  dsimp only
  rw [bind_of_ok hsource, bind_of_ok htarget, Object.isArray, htype]
  -- Both are arrays, of the same primitive type.
  rw [if_neg (by exact Bool.false_ne_true), if_neg (by exact Bool.false_ne_true), if_neg hrange,
    if_neg (by exact Bool.false_ne_true), hpart]
  exact hstored

/-- The native that copies between arrays. -/
def arraycopySource : MethodSource :=
  Library.native Library.publicStatic "arraycopy" Library.arraycopyType

/-- A call of the native copies all bytes into the array that was made last. -/
theorem arraycopy_runs {r : Ref} {o : Object}
    (hdescribed : method.IsDescribedBy Library.systemClass arraycopySource) (hstrings : m.HasStrings)
    (hroom : ((depthOf m.frames + 1 : Nat) : Int) ≤ m.maxDepth)
    (ho : heap[r.number - 1]? = some o) (htype : o.type = "[B")
    (hsmall : o.elements.size < 2147483648) (hsize : old.size = o.elements.size)
    (hheap : m.heap = heap.push (.array "[B" old)) :
    ∃ m', invokeMethod method
        [.ref r, .int 0, .ref ⟨heap.size + 1⟩, .int 0, .int (Int32.ofNat o.elements.size)]
        (Session.context host steps (nesting + 1)) m = .ok .null m' ∧
      ({ m with heap := heap.push (.array "[B" o.elements) } : Machine).Resembles m' := by
  let ctx := Session.context host steps nesting
  let args : List Value :=
    [.ref r, .int 0, .ref ⟨heap.size + 1⟩, .int 0, .int (Int32.ofNat o.elements.size)]
  have hlocals : layoutLocals method args = some args.toArray :=
    layoutLocals_described hdescribed rfl rfl rfl
  let entered : Machine := m.inside method ⟨[], args.toArray, m.heap⟩ 0 0
  obtain ⟨m₁, hprofile, hm₁⟩ := resembles_profile entered method ctx
  let m₂ := m₁.mark
  have hm₂ : entered.Resembles m₂ := hm₁.trans (resembles_mark m₁)
  have hmark : Exec.mark ctx m₁ = .ok () m₂ := rfl
  have hget : (get : Exec Machine) ctx m₂ = .ok m₂ m₂ := rfl
  have hflags : method.flags = arraycopySource.declaredFlags := hdescribed.flags
  have hfind : m₂.natives.find? method.ownerName method.name method.descriptor =
      some (.builtin .arraycopy) := by
    have hbound := (HasStrings.inside hstrings hm₂).arraycopy
    rw [hdescribed.ownerName, hdescribed.name, hdescribed.descriptor]
    exact hbound
  have hcopy : Arrays.copy (some r) 0 (some ⟨heap.size + 1⟩) 0 (Int32.ofNat o.elements.size) ctx m₂ =
      .ok () { m₂ with heap := heap.push (.array "[B" o.elements) } :=
    copy_bytes ho htype hsmall hsize (hm₂.heap.trans hheap)
  have hnative : Builtin.arraycopy.run args.toArray ctx m₂ =
      .ok .null { m₂ with heap := heap.push (.array "[B" o.elements) } := bind_of_ok hcopy
  have hvoid : Descriptor.isVoid method.signature.result = true := by
    rw [← Except.ok.inj hdescribed.signature]
    rfl
  have hcall : Native.call method args.toArray ctx m₁ =
      .ok .null { m₂ with heap := heap.push (.array "[B" o.elements) } := by
    rw [Native.call, bind_of_ok hmark, bind_of_ok hget, hfind]
    refine (bind_of_ok hnative).trans ?_
    rw [hvoid]
    rfl
  have hbody : runBody method args.toArray ctx entered =
      .ok .null { m₂ with heap := heap.push (.array "[B" o.elements) } := by
    rw [runBody, bind_of_ok hprofile, Method.isNative, hflags]
    exact hcall
  refine ⟨_, invokeMethod_of_body (by rw [hflags]; rfl) hroom hlocals hbody, ?_⟩
  exact (hm₂.withHeap (heap.push (.array "[B" o.elements))).withFrames m.frames

/-- The line that calls it. -/
theorem does_arraycopy {r : Ref} {o : Object} (hstrings : m₀.HasStrings)
    (hroom : ((depthOf m₀.frames + 2 : Nat) : Int) ≤ m₀.maxDepth)
    (ho : heap[r.number - 1]? = some o) (htype : o.type = "[B")
    (hsmall : o.elements.size < 2147483648) (hsize : old.size = o.elements.size) :
    (Directive.invoke .invokestatic Library.systemName "arraycopy" Library.arraycopyType).Does
      (Session.context host (steps + 2) (nesting + 1)) m₀ method
      ⟨.int (Int32.ofNat o.elements.size) :: .int 0 :: .ref ⟨heap.size + 1⟩ :: .int 0 :: .ref r :: stack,
        locals, heap.push (.array "[B" old)⟩ .next
      ⟨stack, locals, heap.push (.array "[B" o.elements)⟩ := by
  let ctx := Session.context host (steps + 2) (nesting + 1)
  let args : List Value :=
    [.ref r, .int 0, .ref ⟨heap.size + 1⟩, .int 0, .int (Int32.ofNat o.elements.size)]
  let ref : MemberRef := ⟨Library.systemName, "arraycopy", Library.arraycopyType⟩
  have hop : Step.execute .invokestatic = Step.thenNext (Reference.invoke Reference.staticCall) := rfl
  refine Directive.does_member Directive.emits_invoke hop (bind_assoc _ _ _) fun p m hm => ?_
  have hhere := hstrings.inside hm
  have hsource : arraycopySource ∈ Library.systemClass.methods :=
    List.mem_cons_of_mem _ List.mem_cons_self
  obtain ⟨c, callee, m₁, hload, hresolve, hdescribed, hm₁⟩ :=
    hhere.resolveMethod host steps nesting hhere.system Library.systemClass_isBelowRoot hsource
  have hsignature := Except.ok.inj hdescribed.signature
  obtain ⟨m₂, hpop, hm₂⟩ : ∃ m', onFrame (FrameM.popN callee.signature.arguments.length) ctx m₁ =
      .ok args m' ∧ (m₀.inside method ⟨stack, locals, heap.push (.array "[B" old)⟩ p
        (p + 3 : Nat)).Resembles m' := by
    rw [← hsignature]
    exact onFrame_inside (hm.trans hm₁) (if_neg (by simp)) rfl
  have hstatic : callee.isStatic = true := by
    rw [Method.isStatic, hdescribed.flags]
    rfl
  have htarget : (do
      let c ← loadClass ref.owner
      let m ← Reference.found (← resolveMethod c.descriptor ref)
      if m.isStatic then do
        let args ← onFrame (FrameM.popN m.signature.arguments.length)
        pure (m, args)
      else malformed ("invokestatic of instance method " ++ m.text) : Exec Reference.Call) ctx m =
      .ok (callee, args) m₂ := by
    refine (bind_of_ok hload).trans ((bind_of_ok hresolve).trans ?_)
    change (if callee.isStatic = true then _ else _ : Exec Reference.Call) ctx m₁ = _
    rw [hstatic]
    exact bind_of_ok hpop
  obtain ⟨m', hrun, hm'⟩ : ∃ m', invokeMethod callee args ctx m₂ = .ok .null m' ∧
      ({ m₂ with heap := heap.push (.array "[B" o.elements) } : Machine).Resembles m' :=
    arraycopy_runs hdescribed (hstrings.inside hm₂) (room_inside hroom hm₂) ho htype hsmall hsize
      hm₂.heap
  have hvoid : callee.signature.returnsValue = false := by
    rw [← hsignature]
    rfl
  exact ⟨m', invoke_void htarget hrun hvoid, (hm₂.withHeap _).trans hm'⟩

end Copying

section Strings

variable {host : Host} {steps nesting : Nat} {m : Machine} {method : Method} {heap : Array Object}

/-- The constructor of strings, and the accessor of their bytes. -/
def stringConstructor : MethodSource :=
  Library.stringClass.methods.get ⟨0, by decide⟩

def stringAccessor : MethodSource :=
  Library.stringClass.methods.get ⟨1, by decide⟩

/-- The field that holds the bytes. -/
def valueField : FieldSource :=
  Library.stringClass.fields.get ⟨0, by decide⟩

/-- The objects once an array of its own is made for a string and stored in it. -/
def storeContents (heap : Array Object) (r : Ref) (elements : Array Value) : Array Object :=
  (heap.push (.array "[B" elements)).modify (r.number - 1) fun o =>
    o.setField (Descriptor.className (Descriptor.ofInternal Library.stringName)) valueField.name
      (.ref ⟨heap.size + 1⟩)

/-- The constructor makes another array of the same bytes and stores it in the new string. -/
theorem stringConstructor_runs {r b : Ref} {o : Object}
    (hdescribed : method.IsDescribedBy Library.stringClass stringConstructor)
    (hstrings : m.HasStrings) (hroom : ((depthOf m.frames + 2 : Nat) : Int) ≤ m.maxDepth)
    (ho : m.heap[b.number - 1]? = some o) (htype : o.type = "[B")
    (hsmall : o.elements.size < 2147483648) :
    ∃ m', invokeMethod method [.ref r, .ref b]
        (Session.context host (steps + 18) (nesting + 3)) m = .ok .null m' ∧
      ({ m with heap := storeContents m.heap r o.elements } : Machine).Resembles m' := by
  have hlocals : layoutLocals method [.ref r, .ref b] = some #[.ref r, .ref b, .null] :=
    layoutLocals_described hdescribed rfl rfl rfl
  have hn : 0 ≤ Int32.ofNat o.elements.size := by
    rw [Int32.le_iff_toInt_le, Int32.toInt_ofNat_of_lt hsmall]
    exact Int.natCast_nonneg _
  have hcount : (Int32.ofNat o.elements.size).toInt.toNat = o.elements.size := by
    rw [Int32.toInt_ofNat_of_lt hsmall, Int.toNat_natCast]
  have howner : method.owner = Descriptor.ofInternal Library.stringClass.name := hdescribed.owner
  have hroom' : ((depthOf m.frames + 1 : Nat) : Int) ≤ m.maxDepth :=
    Int.le_trans (Int.ofNat_le.mpr (Nat.le_succ _)) hroom
  let ctx := Session.context host (steps + 18) (nesting + 2)
  let zeros : Array Value := Array.replicate o.elements.size (.int 0)
  let made : Array Object := m.heap.push (.array "[B" zeros)
  let copied : Array Object := m.heap.push (.array "[B" o.elements)
  let locals : Array Value := #[.ref r, .ref b, .ref ⟨m.heap.size + 1⟩]
  have hzeros : zeros.size = o.elements.size := Array.size_replicate
  have hlast : made[(⟨m.heap.size + 1⟩ : Ref).number - 1]? = some (.array "[B" zeros) :=
    Array.getElem?_push_size
  have hlength : Directive.Does ctx m method (.plain .arraylength)
      ⟨[.ref ⟨m.heap.size + 1⟩, .int 0, .ref ⟨m.heap.size + 1⟩, .int 0, .ref b], locals, made⟩ .next
      ⟨[.int (Int32.ofNat o.elements.size), .int 0, .ref ⟨m.heap.size + 1⟩, .int 0, .ref b], locals,
        made⟩ := by
    rw [← hzeros]
    exact Directive.does_arraylength hlast
  have hnew : Directive.Does ctx m method (.u1 .newarray 8)
      ⟨[.int (Int32.ofNat o.elements.size)], #[.ref r, .ref b, .null], m.heap⟩ .next
      ⟨[.ref ⟨m.heap.size + 1⟩], #[.ref r, .ref b, .null], made⟩ := by
    have hmade : Directive.Does ctx m method (.u1 .newarray 8)
        ⟨[.int (Int32.ofNat o.elements.size)], #[.ref r, .ref b, .null], m.heap⟩ .next _ :=
      Directive.does_newBytes hstrings hn
    rwa [hcount] at hmade
  have hkeep : Directive.Does ctx m method (.plain .astore2)
      ⟨[.ref ⟨m.heap.size + 1⟩], #[.ref r, .ref b, .null], made⟩ .next _ :=
    Directive.does_store rfl rfl (Nat.lt_succ_self 2)
  have hstore : Directive.Does ctx m method (.field .putfield Library.stringName "value" "[B")
      ⟨[.ref ⟨m.heap.size + 1⟩, .ref r], locals, copied⟩ .next
      ⟨[], locals, storeContents m.heap r o.elements⟩ :=
    Directive.does_putfield (f := valueField) hstrings HasStrings.string Library.stringClass_isBelowRoot
      List.mem_cons_self
  refine invokeMethod_of_lines (s := ⟨[], locals, storeContents m.heap r o.elements⟩) hdescribed rfl
    (by decide) rfl rfl hlocals hroom' (Nat.le_add_left _ _) ?_
  refine .cons (Directive.does_load rfl rfl) ?_
  refine .cons (does_superInit hstrings HasStrings.string howner hroom) ?_
  refine .cons (Directive.does_load rfl rfl) ?_
  refine .cons (Directive.does_arraylength ho) ?_
  refine .cons hnew ?_
  refine .cons hkeep ?_
  refine .cons (Directive.does_load rfl rfl) ?_
  refine .cons (Directive.does_constant rfl) ?_
  refine .cons (Directive.does_load rfl rfl) ?_
  refine .cons (Directive.does_constant rfl) ?_
  refine .cons (Directive.does_load rfl rfl) ?_
  refine .cons hlength ?_
  refine .cons (does_arraycopy hstrings hroom ho htype hsmall hzeros) ?_
  refine .cons (Directive.does_load rfl rfl) ?_
  refine .cons (Directive.does_load rfl rfl) ?_
  exact .cons hstore (.last Directive.does_returnVoid)

variable (host steps nesting)

/-- The objects once a string is added, with an array of its own. -/
def addString (heap : Array Object) (slots : List (FieldKey × Value)) (elements : Array Value) :
    Array Object :=
  let made := heap.push { Object.empty Descriptor.string with fields := slots }
  storeContents made ⟨heap.size + 1⟩ elements

/-- A string is made of the bytes in an array. -/
theorem construct_string {b : Ref} {o : Object} (hstrings : m.HasStrings)
    (hroom : ((depthOf m.frames + 2 : Nat) : Int) ≤ m.maxDepth)
    (ho : m.heap[b.number - 1]? = some o) (htype : o.type = "[B")
    (hsmall : o.elements.size < 2147483648) :
    ∃ c slots m', loadClass "java/lang/String" (Session.context host (steps + 18) (nesting + 3)) m =
        .ok c m ∧
      construct c "([B)V" [.ref b] (Session.context host (steps + 18) (nesting + 3)) m =
        .ok ⟨m.heap.size + 1⟩ m' ∧
      ({ m with heap := addString m.heap slots o.elements } : Machine).Resembles m' := by
  let ctx := Session.context host (steps + 18) (nesting + 3)
  obtain ⟨c, hintact, hc, hload⟩ := hstrings.string.loadClass host (steps + 17) (nesting + 2)
  obtain ⟨init, hinit, hdescribed⟩ := hintact.built.declaredMethod?
    Library.stringClass_isBelowRoot.orderly (m := stringConstructor) List.mem_cons_self
  have hmethod : c.declaredMethod? MemberRef.constructorName "([B)V" = some init := hinit
  have hdescriptor : c.descriptor = Descriptor.string := hintact.built.descriptor
  obtain ⟨names, hchain⟩ := hstrings.ancestry hstrings.string Library.stringClass_isBelowRoot
  obtain ⟨rest, hancestry⟩ : ∃ rest, ancestry Descriptor.string ctx m = .ok (c :: rest) m :=
    ancestry_self hc hchain (by simp [ctx])
  obtain ⟨slots, hinstance⟩ := instanceOfChain_eq Descriptor.string (c :: rest)
  let made : Object := { Object.empty Descriptor.string with fields := slots }
  let m₁ : Machine :=
    Machine.markAccess (.made ⟨m.heap.size + 1⟩ Descriptor.string) { m with heap := m.heap.push made }
  have hnew : newObject c.descriptor ctx m = .ok ⟨m.heap.size + 1⟩ m₁ := by
    rw [hdescriptor, newObject_of_ancestry hancestry, hinstance]
  have hthere : b.number - 1 < m.heap.size := (Array.getElem?_eq_some_iff.mp ho).1
  have ho₁ : m₁.heap[b.number - 1]? = some o := by
    show (m.heap.push made)[b.number - 1]? = some o
    rw [Array.getElem?_push, if_neg (Nat.ne_of_lt hthere), ho]
  obtain ⟨m', hrun, hm'⟩ : ∃ m', invokeMethod init [.ref ⟨m.heap.size + 1⟩, .ref b] ctx m₁ =
      .ok .null m' ∧ ({ m₁ with heap := storeContents m₁.heap ⟨m.heap.size + 1⟩ o.elements } :
        Machine).Resembles m' :=
    stringConstructor_runs hdescribed (hstrings.of_eq rfl rfl) hroom ho₁ htype hsmall
  refine ⟨c, slots, m', hload, ?_, (resembles_of_same rfl).trans hm'⟩
  rw [construct, hmethod]
  dsimp only
  rw [bind_of_ok hnew, bind_of_ok hrun]
  rfl

/-- An object is a string of the library, which keeps a text in an array of bytes. -/
structure Machine.IsString (m : Machine) (r a : Ref) (t : Text) : Prop where
  string : ∃ o, m.heap[r.number - 1]? = some o ∧ o.type = Descriptor.string ∧
    o.getField Library.stringName "value" = .ref a
  bytes : ∃ o, m.heap[a.number - 1]? = some o ∧ o.type = "[B" ∧ o.bytes = t

/-- The accessor gives what is in the field. -/
theorem stringAccessor_runs {r : Ref} {o : Object}
    (hdescribed : method.IsDescribedBy Library.stringClass stringAccessor)
    (hstrings : m.HasStrings) (hroom : ((depthOf m.frames + 1 : Nat) : Int) ≤ m.maxDepth)
    (ho : m.heap[r.number - 1]? = some o) :
    ∃ m', invokeMethod method [.ref r] (Session.context host (steps + 3) (nesting + 2)) m =
      .ok (o.getField Library.stringName "value") m' ∧ m.Resembles m' := by
  have hlocals : layoutLocals method [.ref r] = some #[.ref r] :=
    layoutLocals_described hdescribed rfl rfl rfl
  have hfield : Directive.Does (Session.context host (steps + 3) (nesting + 1)) m method
      (.field .getfield Library.stringName "value" "[B") ⟨[.ref r], #[.ref r], m.heap⟩ .next
      ⟨[o.getField Library.stringName "value"], #[.ref r], m.heap⟩ :=
    Directive.does_getfield (f := valueField) hstrings HasStrings.string
      Library.stringClass_isBelowRoot List.mem_cons_self ho
  refine invokeMethod_of_lines (s := ⟨[], #[.ref r], m.heap⟩) hdescribed rfl (by decide) rfl rfl
    hlocals hroom (Nat.le_add_left _ _) ?_
  refine .cons (Directive.does_load rfl rfl) ?_
  exact .cons hfield (.last (Directive.does_return rfl))

/-- The line that calls it. -/
theorem does_getBytes {m₀ : Machine} {r : Ref} {o : Object} {stack : List Value} {locals : Array Value}
    (hstrings : m₀.HasStrings) (hroom : ((depthOf m₀.frames + 2 : Nat) : Int) ≤ m₀.maxDepth)
    (ho : heap[r.number - 1]? = some o) (htype : o.type = Descriptor.string)
    (hinstance : o.storage = false) :
    (Directive.invoke .invokevirtual Library.stringName "getBytes" "()[B").Does
      (Session.context host (steps + 3) (nesting + 2)) m₀ method ⟨.ref r :: stack, locals, heap⟩ .next
      ⟨o.getField Library.stringName "value" :: stack, locals, heap⟩ := by
  let ctx := Session.context host (steps + 3) (nesting + 2)
  let ref : MemberRef := ⟨Library.stringName, "getBytes", "()[B"⟩
  have hop : Step.execute .invokevirtual = Step.thenNext (Reference.invoke Reference.virtualCall) := rfl
  refine Directive.does_member Directive.emits_invoke hop (bind_assoc _ _ _) fun p m hm => ?_
  obtain ⟨m₁, hpop, hm₁⟩ : ∃ m', onFrame (FrameM.popN 1) ctx m = .ok [.ref r] m' ∧
      (m₀.inside method ⟨stack, locals, heap⟩ p (p + 3 : Nat)).Resembles m' :=
    onFrame_inside hm (if_neg (by simp)) rfl
  have hcall : Reference.popCall ref ctx m = .ok (r, [.ref r]) m₁ := by
    have hsignature : Signature.parse ref.descriptor = .ok ⟨[], "[B", "()[B"⟩ := rfl
    rw [Reference.popCall, hsignature]
    exact bind_of_ok hpop
  have hobject : objectAt r ctx m₁ = .ok o m₁ := Directive.objectAt_inside hm₁ ho
  have hreceiver : receiverType r ctx m₁ = .ok Descriptor.string m₁ := by
    rw [receiverType, bind_of_ok hobject, hinstance, htype]
    rfl
  have hhere := hstrings.inside hm₁
  have haccessor : stringAccessor ∈ Library.stringClass.methods :=
    List.mem_cons_of_mem _ List.mem_cons_self
  obtain ⟨c, callee, m₂, hload, hresolve, hdescribed, hm₂⟩ := hhere.resolveMethod host (steps + 1)
    (nesting + 1) hhere.string Library.stringClass_isBelowRoot haccessor
  obtain ⟨_, hintact, -, hload'⟩ := hhere.string.loadClass host (steps + 2) (nesting + 1)
  obtain ⟨rfl, -⟩ := EStateM.Result.ok.inj (hload.symm.trans hload')
  rw [hintact.built.descriptor] at hresolve
  have ho₂ : m₂.heap[r.number - 1]? = some o := (hm₁.trans hm₂).heap ▸ ho
  obtain ⟨m₃, hrun, hm₃⟩ : ∃ m', invokeMethod callee [.ref r] ctx m₂ = .ok _ m' ∧ m₂.Resembles m' :=
    stringAccessor_runs host steps nesting hdescribed (hm₂.strings hhere)
      (room_inside hroom (hm₁.trans hm₂)) ho₂
  have hsame := hm₁.trans (hm₂.trans hm₃)
  obtain ⟨m', hpush, hm'⟩ : ∃ m', Reference.push (o.getField Library.stringName "value") ctx m₃ =
      .ok () m' ∧ _ := Directive.push_inside hsame
  have hvalue : callee.signature.returnsValue = true := by
    rw [← Except.ok.inj hdescribed.signature]
    rfl
  have htarget : Reference.receiverCall ref ctx m = .ok (callee, [.ref r]) m₂ := by
    rw [Reference.receiverCall, bind_of_ok hcall]
    exact (bind_of_ok hreceiver).trans (bind_of_ok hresolve)
  exact ⟨m', (invoke_value htarget hrun hvalue).trans hpush, hm'⟩

/-- The text of a string is read. -/
theorem hostText_of_isString {r a : Ref} {t : Text} (hstrings : m.HasStrings)
    (hroom : ((depthOf m.frames + 1 : Nat) : Int) ≤ m.maxDepth) (h : m.IsString r a t) :
    ∃ m', hostText (.ref r) (Session.context host (steps + 3) (nesting + 2)) m = .ok t m' ∧
      m.Resembles m' := by
  let ctx := Session.context host (steps + 3) (nesting + 2)
  obtain ⟨o, ho, htype, hvalue⟩ := h.string
  obtain ⟨bytes, hbytes, -, rfl⟩ := h.bytes
  have hget : (get : Exec Machine) ctx m = .ok m m := rfl
  have hobject : objectAt r ctx m = .ok o m := by
    rw [objectAt, bind_of_ok hget, ho]
    rfl
  have hname : Descriptor.className o.type = Library.stringName := by
    rw [htype]
    decide
  have haccessor : stringAccessor ∈ Library.stringClass.methods :=
    List.mem_cons_of_mem _ List.mem_cons_self
  obtain ⟨c, method, m₁, hload, hresolve, hdescribed, hm₁⟩ := hstrings.resolveMethod host (steps + 1)
    (nesting + 1) hstrings.string Library.stringClass_isBelowRoot haccessor
  have hroom₁ : ((depthOf m₁.frames + 1 : Nat) : Int) ≤ m₁.maxDepth := by
    rw [hm₁.frames, hm₁.maxDepth]
    exact hroom
  have ho₁ : m₁.heap[r.number - 1]? = some o := hm₁.heap ▸ ho
  obtain ⟨m', hrun, hm'⟩ : ∃ m', invokeMethod method [.ref r] ctx m₁ = .ok _ m' ∧ m₁.Resembles m' :=
    stringAccessor_runs host steps nesting hdescribed (hm₁.strings hstrings) hroom₁ ho₁
  have hinvoke : Resolution.invoke (Descriptor.className o.type) "getBytes" "()[B" [.ref r] ctx m =
      .ok (.ref a) m' := by
    rw [hname, ← hvalue, Resolution.invoke]
    exact (bind_of_ok hload).trans ((bind_of_ok hresolve).trans hrun)
  have hsame := hm₁.trans hm'
  have hget' : (get : Exec Machine) ctx m' = .ok m' m' := rfl
  have hread : objectAt a ctx m' = .ok bytes m' := by
    rw [objectAt, bind_of_ok hget', hsame.heap, hbytes]
    rfl
  refine ⟨m', ?_, hsame⟩
  exact (bind_of_ok hobject).trans ((bind_of_ok hinvoke).trans (bind_of_ok hread))

theorem setSlot_lookup (key : FieldKey) (v : Value) (slots : List (FieldKey × Value)) :
    (Object.setSlot key v slots).lookup key = some v := by
  induction slots with
  | nil => simp [Object.setSlot]
  | cons slot rest ih =>
      obtain ⟨k, w⟩ := slot
      rw [Object.setSlot]
      split
      · simp
      · next hne =>
          have hother : (key == k) = false := beq_false_of_ne (Ne.symm hne)
          rw [List.lookup_cons, hother, ih]

@[simp] theorem Object.getField_setField (o : Object) (owner name : Text) (v : Value) :
    (o.setField owner name v).getField owner name = v := by
  rw [Object.getField, Object.setField, setSlot_lookup]
  rfl

/-- A byte is the same again after it has been a number. -/
theorem byte_back (b : UInt8) : b.toInt8.toInt32.toInt8.toInt32.toUInt32.toUInt8 = b := by
  have hbits : BitVec.setWidth 8 (BitVec.signExtend 32 b.toBitVec) = b.toBitVec := by grind
  rw [Int8.toInt8_toInt32]
  apply UInt8.eq_of_toBitVec_eq
  simpa using hbits

/-- The bytes of a text are those of the array that is made for it. -/
theorem byteArray_bytes (k : RuntimeClass) (t : Text) : (byteArray k t).bytes = t := by
  rw [Object.bytes, byteArray, Object.array, List.map_map, List.map_map]
  exact (List.map_congr_left (g := id) fun b _ => byte_back b).trans (List.map_id t)

section Adding

variable {heap : Array Object} {slots : List (FieldKey × Value)} {elements : Array Value}

/-- The string and its array come after the others, which stay as they are. -/
theorem addString_eq : addString heap slots elements =
    (heap.push (({ Object.empty Descriptor.string with fields := slots }).setField Library.stringName
      "value" (.ref ⟨heap.size + 2⟩))).push (.array "[B" elements) := by
  have hname : Descriptor.className (Descriptor.ofInternal Library.stringName) = Library.stringName := by
    decide
  have hlt : heap.size < (heap.push { Object.empty Descriptor.string with fields := slots }).size := by
    simp
  dsimp only [addString, storeContents]
  rw [Nat.add_sub_cancel, modify_push_of_lt hlt, modify_push, hname, Array.size_push]
  rfl

/-- The string itself. -/
theorem addString_string : (addString heap slots elements)[heap.size]? =
    some (({ Object.empty Descriptor.string with fields := slots }).setField Library.stringName
      "value" (.ref ⟨heap.size + 2⟩)) := by
  rw [addString_eq, Array.getElem?_push, if_neg (by simp)]
  exact Array.getElem?_push_size

theorem addString_bytes : (addString heap slots elements)[heap.size + 1]? =
    some (.array "[B" elements) := by
  rw [addString_eq, Array.getElem?_push, if_pos (by simp)]

theorem isString_addString (hheap : m.heap = addString heap slots elements) :
    m.IsString ⟨heap.size + 1⟩ ⟨heap.size + 2⟩ (Object.array "[B" elements).bytes :=
  ⟨⟨_, hheap ▸ addString_string, rfl, Object.getField_setField _ _ _ _⟩,
    ⟨_, hheap ▸ addString_bytes, rfl, rfl⟩⟩

theorem addString_of_lt {i : Nat} (hi : i < heap.size) :
    (addString heap slots elements)[i]? = heap[i]? := by
  rw [addString_eq]
  grind

end Adding

/-- Two objects are made for a text: the array of its bytes, and then the string with an array of its
own. -/
theorem newString_runs (t : Text) (hstrings : m.HasStrings)
    (hroom : ((depthOf m.frames + 2 : Nat) : Int) ≤ m.maxDepth) (hsmall : t.length < 2147483648) :
    ∃ bytes slots m', newString t (Session.context host (steps + 18) (nesting + 3)) m =
        .ok ⟨m.heap.size + 2⟩ m' ∧ bytes.bytes = t ∧
      ({ m with heap := addString (m.heap.push bytes) slots bytes.elements } : Machine).Resembles
        m' := by
  let ctx := Session.context host (steps + 18) (nesting + 3)
  obtain ⟨k, m₁, hclass, hdescriptor, hm₁⟩ := hstrings.classFor_bytes host (steps + 16) (nesting + 1)
  let bytes := byteArray k t
  let m₂ : Machine := { m₁ with heap := m₁.heap.push bytes }
  have hbytes : newArrayOf Descriptor.byte (t.map fun b => .int b.toInt8.toInt32) ctx m =
      .ok ⟨m₁.heap.size + 1⟩ m₂ := newArrayOf_bytes t hclass
  have hstrings₂ : m₂.HasStrings := (hm₁.strings hstrings).of_eq rfl rfl
  have hroom₂ : ((depthOf m₂.frames + 2 : Nat) : Int) ≤ m₂.maxDepth := by
    change ((depthOf m₁.frames + 2 : Nat) : Int) ≤ m₁.maxDepth
    rw [hm₁.frames, hm₁.maxDepth]
    exact hroom
  have hlast : m₂.heap[(⟨m₁.heap.size + 1⟩ : Ref).number - 1]? = some bytes :=
    Array.getElem?_push_size
  have hsize : bytes.elements.size = t.length := by simp [bytes, byteArray, Object.array]
  obtain ⟨c, slots, m', hload, hconstruct, hm'⟩ := construct_string host steps nesting
    hstrings₂ hroom₂ hlast hdescriptor (hsize ▸ hsmall)
  have hheap : m₂.heap = m.heap.push bytes := by
    rw [← hm₁.heap]
  have hr : m₂.heap.size + 1 = m.heap.size + 2 := by
    rw [hheap, Array.size_push]
  refine ⟨bytes, slots, m', ?_, byteArray_bytes k t, ?_⟩
  · rw [← hr, newString, bind_of_ok hbytes, bind_of_ok hload]
    exact hconstruct
  · have hsame := hm₁.withHeap (addString (m.heap.push bytes) slots bytes.elements)
    rw [hheap] at hm'
    exact hsame.trans hm'

/-- The string that is made for a text is a new object, with a new array of bytes. The other objects
stay as they are. -/
theorem newString_isNew (t : Text) (hstrings : m.HasStrings)
    (hroom : ((depthOf m.frames + 2 : Nat) : Int) ≤ m.maxDepth) (hsmall : t.length < 2147483648) :
    ∃ r a heap m', newString t (Session.context host (steps + 18) (nesting + 3)) m = .ok r m' ∧
      m'.IsString r a t ∧ m.heap.size < r.number ∧ m.heap.size < a.number ∧
      (∀ i < m.heap.size, m'.heap[i]? = m.heap[i]?) ∧ ({ m with heap } : Machine).Resembles m' := by
  obtain ⟨bytes, slots, m', hnew, rfl, hm'⟩ := newString_runs host steps nesting t
    hstrings hroom hsmall
  have hheap : m'.heap = addString (m.heap.push bytes) slots bytes.elements := hm'.heap
  have hsize : (m.heap.push bytes).size = m.heap.size + 1 := Array.size_push bytes
  have hstring := isString_addString hheap
  rw [hsize] at hstring
  refine ⟨_, _, _, m', hnew, hstring, by simp, by simp; omega, fun i hi => ?_, hm'⟩
  rw [hheap, addString_of_lt (hsize ▸ Nat.lt_succ_of_lt hi), Array.getElem?_push, if_neg hi.ne]

/-- A string that is made for a text is a new object, with a new array of bytes. What is read from
it is the text. -/
theorem strings_are_read_back (t : Text) (hstrings : m.HasStrings)
    (hroom : ((depthOf m.frames + 2 : Nat) : Int) ≤ m.maxDepth) (hsmall : t.length < 2147483648) :
    ∃ r a m' m'', newString t (Session.context host (steps + 18) (nesting + 3)) m = .ok r m' ∧
      m'.IsString r a t ∧ m.heap.size < r.number ∧ m.heap.size < a.number ∧
      (∀ i < m.heap.size, m'.heap[i]? = m.heap[i]?) ∧
      hostText (.ref r) (Session.context host (steps + 18) (nesting + 3)) m' = .ok t m'' := by
  obtain ⟨r, a, heap, m', hnew, hstring, hr, ha, hkept, hm'⟩ := newString_isNew host steps
    nesting t hstrings hroom hsmall
  have hroom' : ((depthOf m'.frames + 1 : Nat) : Int) ≤ m'.maxDepth := by
    rw [hm'.frames, hm'.maxDepth]
    exact Int.le_trans (Int.ofNat_le.mpr (Nat.le_succ _)) hroom
  obtain ⟨m'', hread, -⟩ := hostText_of_isString host (steps + 15) (nesting + 1)
    (hm'.strings (hstrings.of_eq rfl rfl)) hroom' hstring
  exact ⟨r, a, m', m'', hnew, hstring, hr, ha, hkept, hread⟩

/-- A letter with an accent takes two bytes, which are negative as numbers. -/
theorem strings_are_read_back_accent : ∃ (host : Host) (m : Machine), m.HasStrings ∧
    ∃ r a m' m'', newString "né" (Session.context host 18 3) m = .ok r m' ∧ m'.IsString r a "né" ∧
      m.heap.size < r.number ∧ m.heap.size < a.number ∧
      (∀ i < m.heap.size, m'.heap[i]? = m.heap[i]?) ∧
      hostText (.ref r) (Session.context host 18 3) m' = .ok "né" m'' := by
  obtain ⟨classes, hstrings⟩ := exists_hasStrings
  have hroom : ((depthOf Session.fresh.frames + 2 : Nat) : Int) ≤ Session.fresh.maxDepth := by decide
  exact ⟨⟨none, 0, 0⟩, { Session.fresh with classes }, hstrings,
    strings_are_read_back _ 0 0 "né" hstrings hroom (by decide)⟩

end Strings

end ClassEngine
