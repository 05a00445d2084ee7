import ClassEngine.Engine.Native.Call
import ClassEngine.Proofs.Engine.Allocation

/-!
The natives are sound, whatever guest code they run.
-/

namespace ClassEngine

open Machine Exec Linking Resolution Allocation

variable {α : Type} {ctx : Context}

section Values

open Display

@[grind ←] theorem safe_asLong (v : Value) : Safe ctx (asLong v) := by
  unfold asLong
  grind

@[grind ←] theorem safe_asFloat (v : Value) : Safe ctx (asFloat v) := by
  unfold asFloat
  grind

@[grind ←] theorem safe_asDouble (v : Value) : Safe ctx (asDouble v) := by
  unfold asDouble
  grind

variable [SoundContext ctx]

@[grind ←] theorem safe_objectText (r : Ref) : Safe ctx (objectText r) := by
  unfold objectText
  grind

@[grind ←] theorem safe_valueText (t : Descriptor) (v : Value) : Safe ctx (valueText t v) := by
  unfold valueText
  grind

end Values

section Traces

open Trace

@[grind ←] theorem safe_writeError (t : Text) : Safe ctx (writeError t) :=
  safe_modify rfl rfl rfl rfl rfl rfl rfl rfl

variable [SoundContext ctx]

theorem sound_element (c : RuntimeClass) (f : Frame) :
    Sound ctx c.Known (element c f) fun v m => m.moment.Fits c.descriptor v := by
  have hmake : ∀ (descriptor : Text) (args : List Value), Sound ctx c.Known (do
      let r ← construct c descriptor args
      pure (.ref r) : Exec Value) fun v m => m.moment.Fits c.descriptor v :=
    fun descriptor args => .seq (sound_construct c _ _) fun r => .pure fun _ _ h => h.fits
  refine Safe.then (stable_known c) (safe_newString _) fun owner => ?_
  refine Safe.then (stable_known c) (safe_newString _) fun method => ?_
  refine Safe.then (stable_known c) (safe_classAt _) fun declaring => ?_
  dsimp only
  split
  · exact hmake _ _
  · exact Safe.then (stable_known c) (safe_newString _) fun s => hmake _ _

@[grind ←] theorem safe_record (throwable : Option Ref) : Safe ctx (record throwable) := by
  refine Safe.bind safe_get fun s => ?_
  refine SoundBy.seq (sound_loadClass _) fun c => ?_
  have hstable : Stable fun m => c.descriptor = Descriptor.ofInternal elementClass ∧ c.Known m :=
    (stable_const _).and (stable_known c)
  refine .bind hstable ((sound_mapM (stable_known c) (fun v => stable_fits c.descriptor v)
    (sound_element c)).pre fun _ _ h => h.2) fun elements => ?_
  refine .seq ((sound_newArrayOf _ _).pre fun m _ h _ => h.1.1 ▸ h.2) fun trace => ?_
  refine Safe.sound ?_
  grind

@[grind ←] theorem safe_describe (throwable : Option Ref) : Safe ctx (describe throwable) := by
  unfold describe
  grind

@[grind ←] theorem safe_elementField (o : Object) (name : Text) :
    Safe ctx (elementField o name) := by
  unfold elementField
  grind

@[grind ←] theorem safe_elementText (v : Value) : Safe ctx (elementText v) := by
  refine Safe.bind (safe_check _) fun r => ?_
  grind

@[grind ←] theorem safe_elementLines (vs : List Value) : Safe ctx (elementLines vs) := by
  induction vs with
  | nil => exact Safe.pure []
  | cons v vs ih =>
      unfold elementLines
      grind

@[grind ←] theorem safe_print (throwable : Option Ref) : Safe ctx (print throwable) := by
  refine Safe.bind (safe_describe _) fun head => ?_
  split
  · exact safe_panic _
  · refine Safe.bind (safe_objectAt _) fun o => Safe.bind (safe_invoke _ _ _ _) fun trace => ?_
    grind

end Traces

section Builtins

open Builtin

@[grind ←] theorem safe_arg (locals : Array Value) (i : Nat) : Safe ctx (arg locals i) := by
  unfold arg
  grind

@[grind ←] theorem safe_argInt (locals : Array Value) (i : Nat) : Safe ctx (argInt locals i) := by
  unfold argInt
  grind

@[grind ←] theorem safe_argRef (locals : Array Value) (i : Nat) : Safe ctx (argRef locals i) := by
  unfold argRef
  grind

@[grind ←] theorem safe_argLong (locals : Array Value) (i : Nat) :
    Safe ctx (argLong locals i) := by
  unfold argLong
  grind

@[grind ←] theorem safe_argDouble (locals : Array Value) (i : Nat) :
    Safe ctx (argDouble locals i) := by
  unfold argDouble
  grind

@[grind ←] theorem safe_argObject (locals : Array Value) (i : Nat) :
    Safe ctx (argObject locals i) := by
  unfold argObject
  grind

@[grind ←] theorem safe_bufferOf (r : Ref) : Safe ctx (bufferOf r) := by
  unfold bufferOf
  grind

@[grind ←] theorem safe_appendTo (r : Ref) (t : Text) : Safe ctx (appendTo r t) := by
  unfold appendTo
  grind

@[grind ←] theorem safe_bufferText (r : Ref) : Safe ctx (bufferText r) := by
  unfold bufferText
  grind

@[grind ←] theorem safe_writeTo (stream : Ref) (t : Text) : Safe ctx (writeTo stream t) := by
  unfold writeTo
  grind

variable [SoundContext ctx]

@[grind ←] theorem safe_stringResult (t : Text) : Safe ctx (stringResult t) := by
  unfold stringResult
  grind

@[grind ←] theorem safe_objectString (r : Ref) : Safe ctx (objectString r) := by
  unfold objectString
  grind

@[grind ←] theorem safe_classString (c : RuntimeClass) : Safe ctx (classString c) := by
  unfold classString
  grind

@[grind ←] theorem safe_parseIntOf (v : Value) : Safe ctx (parseIntOf v) := by
  unfold parseIntOf
  grind

@[grind ←] theorem safe_stringsEqual (self other : Option Ref) :
    Safe ctx (stringsEqual self other) := by
  unfold stringsEqual
  grind

@[grind ←] theorem safe_charAt (t : Text) (i : Int32) : Safe ctx (charAt t i) := by
  unfold charAt
  grind

/-- Every built-in native is sound. -/
@[grind ←] theorem safe_builtin (b : Builtin) (locals : Array Value) : Safe ctx (b.run locals) := by
  cases b <;> unfold Builtin.run <;> grind

end Builtins

section Natives

@[grind ←] theorem safe_noteDown (n : Note) : Safe ctx (Native.note n) :=
  safe_modify rfl rfl rfl rfl rfl rfl rfl rfl

variable [SoundContext ctx]

@[grind ←] theorem safe_native (n : Native) (locals : Array Value) : Safe ctx (n.run locals) := by
  cases n with
  | builtin b => exact safe_builtin b locals
  | constant v => exact Safe.pure v
  | noteLocals v => exact Safe.bind safe_get fun _ => Safe.bind (safe_noteDown _) fun _ => Safe.pure v
  | noteFrames v => exact Safe.bind safe_get fun _ => Safe.bind (safe_noteDown _) fun _ => Safe.pure v
  | fail message => exact Safe.throw rfl
  | forward owner name descriptor => exact safe_invoke _ _ _ _
  | throwNew owner =>
      refine SoundBy.seq (sound_loadClass owner) fun c => ?_
      exact .seq ((sound_construct c _ _).pre fun _ _ h => h.2) fun r => .throw rfl

@[grind ←] theorem safe_nativeCall (method : Method) (locals : Array Value) :
    Safe ctx (Native.call method locals) := by
  unfold Native.call
  grind

end Natives

end ClassEngine
