import ClassEngine.Engine.Session
import ClassEngine.Proofs.Engine.Exceptions

/-!
What an instruction that loads a number from the pool of the running class leaves on the operand
stack.
-/

namespace ClassEngine

/-- The value that a numeric constant stands for on the operand stack. -/
def Constant.number? : Constant → Option Value
  | .integer v => some (.int v.toInt32)
  | .float bits => some (.float (Ieee.narrow bits))
  | .long v => some (.long v)
  | .double bits => some (.double bits)
  | _ => none

/-- Loading the constant at an index pushes a value, whatever method of the class is running. -/
def ClassFile.Loads (c : ClassFile) (i : UInt16) (v : Value) : Prop :=
  ∀ ctx (m : Machine) f callers, m.frames = f :: callers → f.method.file = c →
    Reference.loadConstant i ctx m =
      .ok () { m with frames := { f with stack := v :: f.stack } :: callers }

open Exec in
theorem ClassFile.loads_of_constant {c : ClassFile} {i : UInt16} {k : Constant} {v : Value}
    (hk : c.constant i = .ok k) (hv : k.number? = some v) : c.Loads i v := by
  intro ctx m f callers hframes hfile
  have hcurrent : Reference.currentFile ctx m = .ok c m := by
    rw [Reference.currentFile, bind_of_ok (currentFrame_ok hframes), hfile]
    rfl
  have hentry : Reference.orMalformed (c.constant i) ctx m = .ok k m := by
    rw [hk]
    rfl
  have hpush (w : Value) : Reference.push w ctx m =
      .ok () { m with frames := { f with stack := w :: f.stack } :: callers } := by
    rw [Reference.push, onFrame, hframes]
    rfl
  rw [Reference.loadConstant, bind_of_ok hcurrent, bind_of_ok hentry]
  cases k with
  | integer n =>
      obtain rfl := Option.some.inj hv
      exact hpush _
  | float bits =>
      obtain rfl := Option.some.inj hv
      exact hpush _
  | long n =>
      obtain rfl := Option.some.inj hv
      exact hpush _
  | double bits =>
      obtain rfl := Option.some.inj hv
      exact hpush _
  | _ => cases hv

/-- There is at most one value that is loaded from an index. -/
theorem ClassFile.Loads.unique {c : ClassFile} {i : UInt16} {v w : Value} (hv : c.Loads i v)
    (hw : c.Loads i w) : v = w := by
  let running : Method := ⟨[], [], [], [], ⟨0⟩, none, ⟨[], [], []⟩, c⟩
  let f : Frame := ⟨running, 1, [], #[], 0, 0⟩
  let m : Machine := { Session.fresh with frames := [f] }
  have hsame := (hv (Session.context ⟨none, 0, 0⟩ 0 0) m f [] rfl rfl).symm.trans
    (hw (Session.context ⟨none, 0, 0⟩ 0 0) m f [] rfl rfl)
  have hframes := congrArg Machine.frames (EStateM.Result.ok.inj hsame).2
  have hstack := congrArg Frame.stack (List.cons.inj hframes).1
  exact (List.cons.inj hstack).1

end ClassEngine
