import ClassEngine.Proofs.Engine.CallChain
import ClassEngine.Proofs.Engine.CallConvention
import ClassEngine.Proofs.Numeric.Words

/-!
Ints of narrow types at the ends of a call. The arguments of a call are cut down to their types, and so is
what a native gives; bytecode gives what its return takes off the operand stack, as it is.

Main result: `natives_narrow_results`.
-/

namespace ClassEngine

open Machine Exec Interpreter Linking Resolution

namespace Descriptor

/-- The least and the greatest int of a narrow type. -/
def narrowRange? (t : Descriptor) : Option (Int × Int) :=
  match primitive? t with
  | some .boolean => some (0, 1)
  | some .byte => some (-128, 127)
  | some .char => some (0, 65535)
  | some .short => some (-32768, 32767)
  | _ => none

/-- A type keeps an int as it is: every type but a narrow one does. -/
def Keeps (t : Descriptor) (v : Int32) : Prop :=
  ∀ range ∈ t.narrowRange?, range.1 ≤ v.toInt ∧ v.toInt ≤ range.2

end Descriptor

theorem toInt_char (v : UInt16) : v.toUInt32.toInt32.toInt = v.toNat := by
  have hlt := v.toNat_lt
  have hnat : v.toUInt32.toInt32.toBitVec.toNat = v.toNat := by
    rw [UInt32.toBitVec_toInt32, UInt32.toNat_toBitVec, UInt16.toNat_toUInt32]
  rw [← Int32.toInt_toBitVec, BitVec.toInt_eq_toNat_of_lt (by omega), hnat]

theorem toInt_boolean (v : Int32) : (v &&& 1).toInt = v.toInt % 2 := by
  have hnat : (v &&& 1).toBitVec.toNat = (v.toInt % 2).toNat :=
    toNat_and_mask (k := 1) v.toBitVec (by decide)
  rw [← Int32.toInt_toBitVec, BitVec.toInt_eq_toNat_of_lt (by omega), hnat]
  omega

/-- What is cut down to a type is kept by it. -/
theorem Value.keeps_coerce {t : Descriptor} {v : Value} {x : Int32} (h : Value.coerce t v = .int x) :
    t.Keeps x := by
  intro range hrange
  cases v with
  | int y =>
      unfold coerce at h
      unfold Descriptor.narrowRange? at hrange
      cases ht : Descriptor.primitive? t with
      | none =>
          rw [ht] at hrange
          contradiction
      | some p =>
          rw [ht] at h hrange
          cases p with
          | boolean =>
              obtain rfl := Value.int.inj h
              obtain rfl := Option.some.inj hrange
              rw [toInt_boolean]
              omega
          | byte =>
              obtain rfl := Value.int.inj h
              obtain rfl := Option.some.inj hrange
              rw [Int8.toInt_toInt32]
              exact ⟨y.toInt8.le_toInt, Int.le_of_lt_add_one y.toInt8.toInt_lt⟩
          | char =>
              obtain rfl := Value.int.inj h
              obtain rfl := Option.some.inj hrange
              have hhigh := y.toUInt32.toUInt16.toNat_lt
              rw [toInt_char]
              omega
          | short =>
              obtain rfl := Value.int.inj h
              obtain rfl := Option.some.inj hrange
              rw [Int16.toInt_toInt32]
              exact ⟨y.toInt16.le_toInt, Int.le_of_lt_add_one y.toInt16.toInt_lt⟩
          | _ => contradiction
  | _ => contradiction

/-- The instructions that return the top of the operand stack. -/
def Opcode.returnsTop : Opcode → Bool
  | .ireturn | .lreturn | .freturn | .dreturn | .areturn => true
  | _ => false

/-- An activation is about to return a value: the one on top of its operand stack, or none. -/
inductive Frame.Returns (f : Frame) : Value → Prop
  | top {b : UInt8} {op : Opcode} {v : Value} {rest : List Value}
      (hbyte : f.bytecode[f.pc.toNat]? = some b) (hop : Opcode.ofByte? b = some op)
      (hreturns : op.returnsTop = true) (hstack : f.stack = v :: rest) : Returns f v
  | nothing {b : UInt8} (hbyte : f.bytecode[f.pc.toNat]? = some b)
      (hop : Opcode.ofByte? b = some .returnVoid) : Returns f .null

section Returns

open Step

variable {ctx : Context} {m m' : Machine} {v : Value} {f : Frame} {callers : List Frame}

/-- A computation with which an activation never ends well. -/
def GoesOn (ctx : Context) (x : Exec Outcome) : Prop :=
  ∀ ⦃m v m'⦄, x ctx m ≠ .ok (.result v) m'

@[grind ←] theorem GoesOn.bind {α : Type} {x : Exec α} {f : α → Exec Outcome}
    (hf : ∀ a, GoesOn ctx (f a)) : GoesOn ctx (x >>= f) := by
  intro m v m' h
  obtain ⟨a, m₁, _, h⟩ := of_bind_ok h
  exact hf a h

@[grind ←] theorem GoesOn.next : GoesOn ctx (pure .next) := by
  intro m v m' h
  obtain ⟨hnext, _⟩ := EStateM.Result.ok.inj h
  contradiction

theorem GoesOn.throw (e : Raise) : GoesOn ctx (throw e) := by
  intro m v m' h
  contradiction

@[grind ←] theorem goesOn_throwNew (className message : Text) :
    GoesOn ctx (Allocation.throwNew className message) :=
  fun m _ m' => throwNew_ne_ok className message m _ m'

@[grind ←] theorem goesOn_unsupported (name : Text) : GoesOn ctx (unsupported name) :=
  fun _ _ _ => unsupported_ne_ok

@[grind ←] theorem goesOn_thenNext (x : Exec Unit) : GoesOn ctx (thenNext x) := by
  unfold thenNext
  grind

@[grind ←] theorem goesOn_inFrame (x : FrameM Unit) : GoesOn ctx (inFrame x) := by
  unfold inFrame
  grind

@[grind ←] theorem goesOn_constant (v : Value) : GoesOn ctx (Step.constant v) :=
  goesOn_inFrame _

@[grind ←] theorem goesOn_loadLocal (slot : Nat) : GoesOn ctx (Step.load slot) :=
  goesOn_inFrame _

@[grind ←] theorem goesOn_storeLocal (slot : Nat) : GoesOn ctx (Step.store slot) :=
  goesOn_inFrame _

@[grind ←] theorem goesOn_intOp (op : IntOp) : GoesOn ctx (intOp op) := by
  unfold intOp orDivisionByZero
  grind

@[grind ←] theorem goesOn_longOp (op : IntOp) : GoesOn ctx (longOp op) := by
  unfold longOp orDivisionByZero
  grind

/-- Only a return ends an activation well. -/
theorem goesOn_execute {op : Opcode} (hreturns : op.returnsTop = false) (hvoid : op ≠ .returnVoid) :
    GoesOn ctx (Step.execute op) := by
  cases op <;> first | contradiction | (dsimp only [Step.execute]; grind)

theorem goesOn_handle (r : Ref) : GoesOn ctx (handle r) := by
  refine .bind fun _ => .bind fun _ => .bind fun f => .bind fun o => .bind fun res => ?_
  cases res with
  | ok found =>
      cases found with
      | none => exact .throw _
      | some h => exact .bind fun _ => .bind fun _ => .next
  | error e =>
      cases e with
      | thrown other => exact .bind fun _ => .bind fun _ => .throw _
      | _ => exact .throw _

theorem execute_returnsTop {op : Opcode} (hreturns : op.returnsTop = true) :
    Step.execute op = onFrame FrameM.pop >>= fun v => pure (.result v) := by
  cases op <;> first | contradiction | rfl

theorem advance_returnsTop {op : Opcode} {p : Nat} {rest : List Value}
    (hframes : m.frames = f :: callers) (hpc : f.pc = p) (hbyte : f.bytecode[p]? = some op.byte)
    (hreturns : op.returnsTop = true) (hstack : f.stack = v :: rest) :
    advance ctx m = .ok (.result v) { m.note (.executing f.method.owner) with
      frames := { f with stack := rest, opPc := p, pc := p + 1 } :: callers } := by
  refine advance_execute hframes hpc hbyte ?_
  rw [execute_returnsTop hreturns]
  exact bind_of_ok (onFrame_of_ok rfl (FrameM.pop_cons hstack))

/-- The instruction that ends an activation returns the top of the operand stack, or nothing. -/
theorem execute_result {op : Opcode} (h : Step.execute op ctx m = .ok (.result v) m')
    (hframes : m.frames = f :: callers) :
    (op.returnsTop = true ∧ ∃ rest, f.stack = v :: rest) ∨ (op = .returnVoid ∧ v = .null) := by
  by_cases hvoid : op = .returnVoid
  · subst hvoid
    obtain ⟨hv, _⟩ := EStateM.Result.ok.inj h
    exact .inr ⟨rfl, (Outcome.result.inj hv).symm⟩
  cases hreturns : op.returnsTop with
  | false => exact (goesOn_execute hreturns hvoid h).elim
  | true =>
      rw [execute_returnsTop hreturns] at h
      obtain ⟨a, m₁, hrun, h⟩ := of_bind_ok h
      obtain ⟨hv, _⟩ := EStateM.Result.ok.inj h
      obtain rfl := Outcome.result.inj hv
      obtain ⟨g, hg, _⟩ := onFrame_ok hframes hrun
      unfold FrameM.pop at hg
      split at hg
      case h_1 top rest hstack =>
        obtain ⟨rfl, _⟩ := Prod.mk.inj (Except.ok.inj hg)
        exact .inl ⟨rfl, rest, hstack⟩
      case h_2 => contradiction

theorem advance_result (h : advance ctx m = .ok (.result v) m') (hframes : m.frames = f :: callers) :
    f.Returns v := by
  obtain ⟨b, m₁, hfetch, h⟩ := of_bind_ok h
  obtain ⟨_, hb, _⟩ := of_fetch_ok hframes hfetch
  have hframes₁ := fetch_frames hframes hfetch
  cases hstep : Step.run b ctx m₁ with
  | ok o m₂ =>
      rw [attempt_bind_ok hstep] at h
      obtain ⟨rfl, _⟩ := EStateM.Result.ok.inj h
      unfold Step.run at hstep
      cases hop : Opcode.ofByte? b with
      | none =>
          rw [hop] at hstep
          exact absurd hstep unsupported_ne_ok
      | some op =>
          rw [hop] at hstep
          rcases execute_result hstep hframes₁ with ⟨hreturns, rest, hstack⟩ | ⟨rfl, rfl⟩
          · exact .top hb hop hreturns hstack
          · exact .nothing hb hop
  | error e m₂ =>
      rw [attempt_bind_error hstep] at h
      cases e with
      | thrown r => exact (goesOn_handle r h).elim
      | _ => contradiction

/-- A run of instructions that gives a value gives it with its last instruction. -/
theorem of_loop_ok {fuel : Nat} (h : loop fuel ctx m = .ok v m') :
    ∃ n m₁, n < fuel ∧ Runs ctx n m m₁ ∧ advance ctx m₁ = .ok (.result v) m' := by
  induction fuel generalizing m with
  | zero => contradiction
  | succ fuel ih =>
      rw [loop_succ] at h
      split at h
      case h_1 m₂ hstep =>
        obtain ⟨n, m₁, hn, hruns, hlast⟩ := ih h
        exact ⟨n + 1, m₁, by omega, .step hstep hruns, hlast⟩
      case h_2 w m₂ hstep =>
        obtain ⟨rfl, rfl⟩ := EStateM.Result.ok.inj h
        exact ⟨0, m, by omega, .refl m, hstep⟩
      case h_3 => contradiction

theorem of_execute_ok (h : Interpreter.execute ctx m = .ok v m') :
    ∃ n m₁, n < ctx.fuel ∧ Runs ctx n m m₁ ∧ advance ctx m₁ = .ok (.result v) m' := by
  have hread : (read : Exec Context) ctx m = .ok ctx m := rfl
  rw [Interpreter.execute, bind_of_ok hread] at h
  cases hloop : loop ctx.fuel ctx m with
  | ok w m₁ =>
      rw [attempt_bind_ok hloop] at h
      obtain ⟨rfl, rfl⟩ := EStateM.Result.ok.inj h
      exact of_loop_ok hloop
  | error e m₁ =>
      rw [attempt_bind_error hloop] at h
      cases e with
      | panic fault =>
          obtain ⟨g, m₂, _, h⟩ := of_bind_ok h
          contradiction
      | _ => contradiction

theorem Runs.steps {n : Nat} {m₁ : Machine} (h : Runs ctx n m m₁) :
    Relation.ReflTransGen (fun m m' => advance ctx m = .ok .next m') m m₁ := by
  induction h with
  | refl m => exact .refl
  | step hstep _ ih => exact .head hstep ih

end Returns

section Calls

variable {ctx : Context} {m m' : Machine} {method : Method} {args : List Value} {locals : Array Value}
  {v : Value}

/-- A call that comes to its end has as many arguments as its method asks for. -/
theorem invoke_lays (h : Interpreter.invoke method args ctx m = .ok v m') :
    ∃ locals, layoutLocals method args = some locals ∧ method.LaysOut args locals := by
  by_cases hcount : args.length = method.receivers + method.signature.arguments.length
  · exact layoutLocals_lays hcount
  · have hnone : layoutLocals method args = none := by
      rw [layoutLocals]
      refine if_pos fun hlength => hcount ?_
      rw [hlength, Nat.add_comm]
      rfl
    rw [Interpreter.invoke] at h
    split at h
    · contradiction
    · rw [bind_of_ok (atLimit_eq m)] at h
      split at h
      · exact absurd h stackOverflow_ne_ok
      · rw [activate, hnone] at h
        contradiction

/-- What a native gives is cut down to the result of its method. -/
theorem nativeCall_keeps {x : Int32} (h : Native.call method locals ctx m = .ok (.int x) m') :
    method.signature.result.Keeps x := by
  obtain ⟨_, m₁, _, h⟩ := of_bind_ok h
  obtain ⟨s, m₂, _, h⟩ := of_bind_ok h
  cases hbound : s.natives.find? method.ownerName method.name method.descriptor with
  | none =>
      rw [hbound] at h
      contradiction
  | some n =>
      rw [hbound] at h
      obtain ⟨result, m₃, _, h⟩ := of_bind_ok h
      split at h
      · obtain ⟨hnull, _⟩ := EStateM.Result.ok.inj h
        contradiction
      · obtain ⟨hcoerce, _⟩ := EStateM.Result.ok.inj h
        exact Value.keeps_coerce hcoerce

theorem Method.LaysOut.keeps (h : method.LaysOut args locals) {i : Nat} {T : Descriptor} {x : Int32}
    (hT : method.signature.arguments[i]? = some T) (hx : locals[method.slot i]? = some (.int x)) :
    T.Keeps x := by
  obtain ⟨a, _, ha, _⟩ := h.argument hT
  exact Value.keeps_coerce (Option.some.inj (ha.symm.trans hx))

end Calls

/-- A call that comes to its end. Its arguments are laid out as ints that their types keep, and an int
that a native gives is one that the declared result keeps. Bytecode gives what its return finds on top of
the operand stack, as it is: an int is kept by the declared result only if the code has seen to it. -/
theorem natives_narrow_results {host : Host} {steps nesting : Nat} {method : Method}
    {args : List Value} {m m' : Machine} {v : Value}
    (hended : invokeMethod method args (Session.context host steps (nesting + 1)) m = .ok v m') :
    ∃ locals, method.LaysOut args locals ∧
      (∀ i T x, method.signature.arguments[i]? = some T → locals[method.slot i]? = some (.int x) →
        T.Keeps x) ∧
      (method.isNative = true → ∀ x, v = .int x → method.signature.result.Keeps x) ∧
      (method.isNative = false → ∃ n m₁ m₂ f, n < steps ∧
        profile method (Session.context host steps nesting)
          { m with frames := Frame.enter method locals m.frames :: m.frames } = .ok () m₁ ∧
        Runs (Session.context host steps nesting) n m₁ m₂ ∧ m₂.frames = f :: m.frames ∧
        f.method = method ∧ f.Returns v) := by
  have hcall : Interpreter.invoke method args (Session.context host steps nesting) m = .ok v m' := hended
  obtain ⟨locals, hlocals, hlays⟩ := invoke_lays hcall
  obtain ⟨habstract, henters⟩ : method.flags.isAbstract = false ∧
      (Frame.enter method locals m.frames).Enters m := invoke_enters hcall
  rw [invoke_of_enters hlocals habstract henters, withFrame_ok_iff] at hcall
  obtain ⟨m₃, hbody, rfl⟩ := hcall
  obtain ⟨_, m₁, hprofile, hbody⟩ := of_bind_ok hbody
  refine ⟨locals, hlays, fun i T x => hlays.keeps, fun hnative x hx => ?_, fun hbytecode => ?_⟩
  · subst hx
    rw [if_pos hnative] at hbody
    exact nativeCall_keeps hbody
  · rw [hbytecode, if_neg Bool.false_ne_true] at hbody
    split at hbody
    · contradiction
    · obtain ⟨n, m₂, hn, hruns, hlast⟩ := of_execute_ok hbody
      rw [context_fuel] at hn
      have hframes₁ := profile_frames hprofile
      obtain ⟨f, hframes, hmethod, _⟩ := instructions_frames hruns.steps hframes₁
      exact ⟨n, m₁, m₂, f, hn, hprofile, hruns, hframes, hmethod, advance_result hlast hframes⟩

/-- A class with a method that returns two as a boolean. -/
def narrowFile : ClassFile where
  minor := 0
  major := 52
  pool := #[.blank]
  flags := ⟨0x21⟩
  name := "Narrow"
  superName := []
  interfaces := []
  fields := []
  methods := [⟨"two", "()Z", ⟨9⟩, some ⟨1, 0, #[0x05, 0xAC], [], []⟩, []⟩]
  sourceFile := []

/-- A host with that class only. -/
def narrowHost : Host where
  provider := some fun name => if name = "Narrow" then .ok narrowFile else .error "not found"
  currentTimeMillis := 0
  nanoTime := 0

def narrowTwo : Method :=
  ⟨"LNarrow;", "Narrow", "two", "()Z", ⟨9⟩, some ⟨1, 0, #[0x05, 0xAC], [], []⟩, ⟨[], "Z", "()Z"⟩,
    narrowFile⟩

/-- The record of the class once it is loaded. -/
def narrowLinked : RuntimeClass :=
  { RuntimeClass.bare "LNarrow;" with
    flags := ⟨0x21⟩
    file := some narrowFile
    methods := [narrowTwo]
    statics := some ⟨1⟩
    state := .initialized }

theorem narrowTwo_runs (host : Host) (steps nesting : Nat) {m : Machine}
    (hprofiler : m.profiler = none) (hroom : ((depthOf m.frames + 1 : Nat) : Int) ≤ m.maxDepth) :
    ∃ m', invokeMethod narrowTwo [] (Session.context host (steps + 2) (nesting + 1)) m =
      .ok (.int 2) m' := by
  let ctx := Session.context host (steps + 2) nesting
  let f : Frame := Frame.enter narrowTwo #[] m.frames
  let entered : Machine := { m with frames := f :: m.frames }
  let g : Frame := { f with stack := [.int 2], pc := 1 }
  let pushed : Machine := { entered.note (.executing "LNarrow;") with frames := g :: m.frames }
  have hentered : entered.frames = f :: m.frames := rfl
  have hpushed : pushed.frames = g :: m.frames := rfl
  have hconstant : f.bytecode[0]? = some Opcode.iconst2.byte := rfl
  have hreturns : g.bytecode[1]? = some Opcode.ireturn.byte := rfl
  have hpush : advance ctx entered = .ok .next pushed :=
    advance_inFrame hentered rfl hconstant rfl rfl
  have hreturn : advance ctx pushed = .ok (.result (.int 2)) _ :=
    advance_returnsTop hpushed rfl hreturns rfl rfl
  have hruns : Runs ctx 1 entered pushed := .step hpush (.refl _)
  have hfuel : 1 < ctx.fuel := by
    rw [context_fuel]
    omega
  have hprofile : profile narrowTwo ctx entered = .ok () entered := profile_off hprofiler
  have hbody : runBody narrowTwo #[] ctx entered = .ok (.int 2) _ :=
    (runBody_of_code rfl (by decide) hprofile).trans (execute_returns hruns hfuel hreturn)
  have hlocals : layoutLocals narrowTwo [] = some #[] := rfl
  have hcall : invokeMethod narrowTwo [] (Session.context host (steps + 2) (nesting + 1)) m =
      withFrame f (runBody narrowTwo #[]) ctx m :=
    invoke_of_enters hlocals (by decide) ⟨rfl, fun _ => hroom⟩
  exact ⟨_, hcall.trans (withFrame_ok_iff.mpr ⟨_, hbody, rfl⟩)⟩

/-- A native that is to return a byte. -/
def narrowNative : Method :=
  ⟨"LNarrow;", "Narrow", "small", "()B", ⟨0x109⟩, none, ⟨[], "B", "()B"⟩, narrowFile⟩

/-- An engine in which that native gives 300. -/
def narrowing : Machine :=
  { Session.fresh with
    natives := Session.fresh.natives.register "Narrow" "small" "()B" (.constant (.int 300)) }

theorem NativeTable.find?_register {α : Type} (t : NativeTable α) (owner name descriptor : Text) (n : α) :
    (t.register owner name descriptor n).find? owner name descriptor = some n := by
  rw [find?, register, Std.HashMap.getElem?_insert_self]

theorem narrowNative_runs : ∃ m', invokeMethod narrowNative [] (Session.context narrowHost 9 9) narrowing =
    .ok (.int 44) m' := by
  let ctx := Session.context narrowHost 9 8
  let f : Frame := Frame.enter narrowNative #[] []
  let entered : Machine := { narrowing with frames := [f] }
  have hbound : entered.mark.natives.find? narrowNative.ownerName narrowNative.name
      narrowNative.descriptor = some (.constant (.int 300)) :=
    NativeTable.find?_register _ _ _ _ _
  have hprofile : profile narrowNative ctx entered = .ok () entered := profile_off rfl
  have hget : (get : Exec Machine) ctx entered.mark = .ok entered.mark entered.mark := rfl
  have hnative : Native.call narrowNative #[] ctx entered = .ok (.int 44) entered.mark := by
    have hmark : Exec.mark ctx entered = .ok () entered.mark := rfl
    rw [Native.call, bind_of_ok hmark, bind_of_ok hget, hbound]
    rfl
  have hbody : runBody narrowNative #[] ctx entered = .ok (.int 44) entered.mark := by
    rw [runBody, bind_of_ok hprofile, if_pos (by decide), hnative]
  have hlocals : layoutLocals narrowNative [] = some #[] := rfl
  have hcall : invokeMethod narrowNative [] (Session.context narrowHost 9 9) narrowing =
      withFrame f (runBody narrowNative #[]) ctx narrowing :=
    invoke_of_enters hlocals (by decide) ⟨rfl, fun _ => by decide⟩
  exact ⟨_, hcall.trans (withFrame_ok_iff.mpr ⟨_, hbody, rfl⟩)⟩

/-- A native gives 44 for 300 as a byte, and two comes off the stack where a boolean is to be returned. -/
theorem natives_narrow_results_both :
    (∃ m', invokeMethod narrowNative [] (Session.context narrowHost 9 9) narrowing = .ok (.int 44) m' ∧
      Descriptor.byte.Keeps 44) ∧
    ∃ (m' : Machine) (f : Frame),
      invokeMethod narrowTwo [] (Session.context narrowHost 9 9) Session.fresh = .ok (.int 2) m' ∧
        f.method = narrowTwo ∧ f.Returns (.int 2) := by
  obtain ⟨m₁, hnative⟩ := narrowNative_runs
  obtain ⟨m₂, hbytecode⟩ := narrowTwo_runs narrowHost 7 8 (m := Session.fresh) rfl (by decide)
  obtain ⟨_, _, _, hkeeps, _⟩ := natives_narrow_results hnative
  obtain ⟨_, _, _, _, hreturns⟩ := natives_narrow_results hbytecode
  obtain ⟨_, _, _, f, _, _, _, _, hmethod, htop⟩ := hreturns rfl
  exact ⟨⟨m₁, hnative, hkeeps rfl 44 rfl⟩, m₂, f, hbytecode, hmethod, htop⟩

theorem narrowHost_loads : ∃ m : Machine, Reachable narrowHost m ∧ m.frames = [] ∧
    m.profiler = none ∧ m.maxDepth = Session.defaultDepth ∧
    m.classes[narrowLinked.descriptor]? = some narrowLinked := by
  have hname : Descriptor.ofInternal "Narrow" = narrowLinked.descriptor := by decide +kernel
  have hdefine : define narrowHost narrowLinked.descriptor =
      .ok { narrowLinked with statics := none, state := .linking } := rfl
  have hquiet : RuntimeClass.IsQuiet { narrowLinked with statics := none, state := .linking } := by
    refine ⟨fun file hfile => ?_, rfl⟩
    obtain rfl := Option.some.inj hfile
    simp [narrowFile]
  obtain ⟨m, hused, hnarrow, _, hfresh⟩ :=
    used_of_first (fun _ _ => True) hname hdefine rfl rfl hquiet trivial
  exact ⟨m, hused.reachable, by rw [hfresh]; rfl, by rw [hfresh]; rfl, by rw [hfresh]; rfl, hnarrow⟩

/-- A method of bytecode that is to return a boolean returns two. -/
theorem bytecode_returns_no_boolean : ∃ m m', Reachable narrowHost m ∧
    Resolution.invoke "Narrow" "two" "()Z" [] (Session.context narrowHost 9 9) m = .ok (.int 2) m' ∧
    narrowTwo.signature.result = Descriptor.boolean ∧ ¬ Descriptor.boolean.Keeps 2 := by
  obtain ⟨m, hreachable, hframes, hprofiler, hdepth, hnarrow⟩ := narrowHost_loads
  let ref : MemberRef := ⟨"Narrow", "two", "()Z"⟩
  have hload : loadClass "Narrow" (Session.context narrowHost 9 9) m = .ok narrowLinked m :=
    classFor_initialized narrowHost 8 8 hnarrow rfl
  have hfind : resolveMethod narrowLinked.descriptor ref (Session.context narrowHost 9 9) m =
      .ok (some narrowTwo) (m.remembering narrowLinked.descriptor ref) :=
    resolveMethod_own narrowHost hnarrow rfl rfl rfl Std.HashMap.getElem?_empty rfl 8 9
  have hroom : ((depthOf m.frames + 1 : Nat) : Int) ≤ m.maxDepth := by
    rw [hframes, hdepth]
    decide
  obtain ⟨m', hcall⟩ :=
    narrowTwo_runs narrowHost 7 8 (m := m.remembering narrowLinked.descriptor ref) hprofiler hroom
  refine ⟨m, m', hreachable, ?_, rfl, fun hkeeps => absurd (hkeeps (0, 1) rfl).2 (by decide)⟩
  rw [Resolution.invoke, bind_of_ok hload, bind_of_ok hfind]
  exact hcall

end ClassEngine
