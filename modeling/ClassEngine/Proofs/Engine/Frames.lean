import ClassEngine.Engine.Step
import ClassEngine.Proofs.Engine.Soundness

/-!
What the operations on a frame keep of it. Only those that write a local variable touch more than the
operand stack and the address of the next instruction.
-/

namespace ClassEngine

namespace FrameRel

/-- All but the operand stack and the local variables. -/
def place : FrameRel where
  rel f g := g = { f with stack := g.stack, locals := g.locals }
  refl _ := rfl
  trans {f g h} hg hh := by rw [hh, hg]
  method h := by rw [h]
  depth h := by rw [h]

/-- All but the address of the next instruction. -/
def reading : FrameRel where
  rel f g := g = { f with pc := g.pc }
  refl _ := rfl
  trans {f g h} hg hh := by rw [hh, hg]
  method h := by rw [h]
  depth h := by rw [h]

/-- A relation that says nothing about the operand stack. -/
class FreesStack (F : FrameRel) : Prop where
  stack : ∀ (f : Frame) (vs : List Value), F.rel f { f with stack := vs }

/-- A relation that says nothing about the local variables. -/
class FreesLocals (F : FrameRel) : Prop where
  locals : ∀ (f : Frame) (vs : Array Value), F.rel f { f with locals := vs }

/-- A relation that says nothing about the address of the next instruction. -/
class FreesAddress (F : FrameRel) : Prop where
  pc : ∀ (f : Frame) (p : Int), F.rel f { f with pc := p }

instance : FreesStack instruction := ⟨fun _ _ => rfl⟩
instance : FreesStack position := ⟨fun _ _ => rfl⟩
instance : FreesStack place := ⟨fun _ _ => rfl⟩
instance : FreesLocals position := ⟨fun _ _ => rfl⟩
instance : FreesLocals place := ⟨fun _ _ => rfl⟩
instance : FreesAddress instruction := ⟨fun _ _ => rfl⟩
instance : FreesAddress position := ⟨fun _ _ => rfl⟩
instance : FreesAddress reading := ⟨fun _ _ => rfl⟩

end FrameRel

namespace FrameM

variable {α β : Type} {F : FrameRel}

/-- What gives a result in the end has given one on the way. -/
theorem of_bind_ok {x : FrameM α} {k : α → FrameM β} {f g : Frame} {b : β}
    (h : (x >>= k) f = .ok (b, g)) : ∃ a f', x f = .ok (a, f') ∧ k a f' = .ok (b, g) := by
  cases hr : x f with
  | error e => simp [Bind.bind, StateT.bind, Except.bind, hr] at h
  | ok p =>
      obtain ⟨a, f'⟩ := p
      exact ⟨a, f', rfl, by simpa [Bind.bind, StateT.bind, Except.bind, hr] using h⟩

section Results

variable {f g : Frame}

/-- A byte that is read stands where the activation was. -/
theorem of_u1_ok {b : UInt8} (h : u1 f = .ok (b, g)) :
    0 ≤ f.pc ∧ f.bytecode[f.pc.toNat]? = some b ∧ g = { f with pc := f.pc + 1 } := by
  unfold u1 at h
  split at h
  · contradiction
  case isFalse hpc =>
    split at h
    case h_1 b' hb =>
      obtain ⟨rfl, rfl⟩ := Prod.mk.inj (Except.ok.inj h)
      exact ⟨Int.not_lt.mp hpc, hb, rfl⟩
    case h_2 => contradiction

theorem of_pop_ok {v : Value} (h : pop f = .ok (v, g)) :
    ∃ rest, f.stack = v :: rest ∧ g = { f with stack := rest } := by
  unfold pop at h
  split at h
  case h_1 rest hstack =>
    obtain ⟨rfl, rfl⟩ := Prod.mk.inj (Except.ok.inj h)
    exact ⟨rest, hstack, rfl⟩
  case h_2 => contradiction

theorem of_popInt_ok {v : Int32} (h : popInt f = .ok (v, g)) :
    ∃ rest, f.stack = .int v :: rest ∧ g = { f with stack := rest } := by
  obtain ⟨w, f₁, hpop, h⟩ := of_bind_ok h
  obtain ⟨rest, hstack, rfl⟩ := of_pop_ok hpop
  cases w with
  | int v' =>
      obtain ⟨rfl, rfl⟩ := Prod.mk.inj (Except.ok.inj h)
      exact ⟨rest, hstack, rfl⟩
  | _ => contradiction

theorem of_popRef_ok {r : Option Ref} (h : popRef f = .ok (r, g)) :
    ∃ rest, f.stack = r.elim .null .ref :: rest ∧ g = { f with stack := rest } := by
  obtain ⟨w, f₁, hpop, h⟩ := of_bind_ok h
  obtain ⟨rest, hstack, rfl⟩ := of_pop_ok hpop
  cases w with
  | null | ref =>
      obtain ⟨rfl, rfl⟩ := Prod.mk.inj (Except.ok.inj h)
      exact ⟨rest, hstack, rfl⟩
  | _ => contradiction

theorem of_popN_ok {n : Nat} {vs : List Value} (h : popN n f = .ok (vs, g)) : vs.length = n := by
  unfold popN at h
  split at h
  · contradiction
  · next hstack =>
      obtain ⟨rfl, -⟩ := Prod.mk.inj (Except.ok.inj h)
      rw [List.length_reverse, List.length_take, Nat.min_eq_left (Nat.not_lt.mp hstack)]

end Results

@[grind ←] theorem Keeps.pure (a : α) : Keeps F (pure a : FrameM α) := by
  intro f a' f' h
  obtain ⟨_, rfl⟩ := Prod.mk.inj (Except.ok.inj h)
  exact F.refl f

@[grind ←] theorem Keeps.bind {x : FrameM α} {k : α → FrameM β} (hx : x.Keeps F)
    (hk : ∀ a, (k a).Keeps F) : (x >>= k).Keeps F := by
  intro f b f' h
  obtain ⟨a, g, hr, h'⟩ := of_bind_ok h
  exact F.trans (hx hr) (hk a h')

theorem Keeps.mono {G : FrameRel} {x : FrameM α} (h : x.Keeps F) (hle : F.le G) : x.Keeps G :=
  fun _ _ _ hr => hle (h hr)

@[grind ←] theorem keeps_fail (e : Fault) : Keeps F (fail e : FrameM α) := by
  intro f a f' h
  contradiction

@[grind ←] theorem keeps_liftM (r : Except Fault α) : Keeps F (liftM r : FrameM α) := by
  intro f a f' h
  cases r with
  | error e => contradiction
  | ok b =>
      obtain ⟨_, rfl⟩ := Prod.mk.inj (Except.ok.inj h)
      exact F.refl f

theorem keeps_modify {g : Frame → Frame} (hg : ∀ f, F.rel f (g f)) :
    Keeps F (modify g : FrameM Unit) := by
  intro f a f' h
  obtain ⟨_, rfl⟩ := Prod.mk.inj (Except.ok.inj h)
  exact hg f

section Address

variable [F.FreesAddress]

@[grind ←] theorem keeps_branch (offset : Int) : Keeps F (branch offset) :=
  keeps_modify fun f => FrameRel.FreesAddress.pc f _

@[grind ←] theorem keeps_skip (distance : Int) : Keeps F (skip distance) :=
  keeps_modify fun f => FrameRel.FreesAddress.pc f _

@[grind ←] theorem keeps_align : Keeps F align :=
  keeps_modify fun f => FrameRel.FreesAddress.pc f _

@[grind ←] theorem keeps_u1 : Keeps F u1 := by
  intro f a f' h
  unfold u1 at h
  split at h
  · contradiction
  split at h
  · obtain ⟨_, rfl⟩ := Prod.mk.inj (Except.ok.inj h)
    exact FrameRel.FreesAddress.pc f _
  · contradiction

@[grind ←] theorem keeps_s1 : Keeps F s1 := by unfold s1; grind
@[grind ←] theorem keeps_u2 : Keeps F u2 := by unfold u2; grind
@[grind ←] theorem keeps_s2 : Keeps F s2 := by unfold s2; grind
@[grind ←] theorem keeps_s4 : Keeps F s4 := by unfold s4; grind

end Address

@[grind ←] theorem keeps_load (slot : Nat) : Keeps F (load slot) := by
  intro f a f' h
  unfold load at h
  split at h
  · obtain ⟨_, rfl⟩ := Prod.mk.inj (Except.ok.inj h)
    exact F.refl f
  · contradiction

@[grind ←] theorem keeps_peek : Keeps F peek := by
  intro f a f' h
  unfold peek at h
  split at h
  · obtain ⟨_, rfl⟩ := Prod.mk.inj (Except.ok.inj h)
    exact F.refl f
  · contradiction

/-- Writing a local variable keeps the rest of the frame. -/
theorem keeps_store [F.FreesLocals] (slot : Nat) (v : Value) : Keeps F (store slot v) := by
  intro f a f' h
  unfold store at h
  dsimp only at h
  split at h <;> split at h
  · contradiction
  · obtain ⟨_, rfl⟩ := Prod.mk.inj (Except.ok.inj h)
    exact FrameRel.FreesLocals.locals f _
  · contradiction
  · obtain ⟨_, rfl⟩ := Prod.mk.inj (Except.ok.inj h)
    exact FrameRel.FreesLocals.locals f _

section Stack

variable [F.FreesStack]

@[grind ←] theorem keeps_push (v : Value) : Keeps F (push v) :=
  keeps_modify fun f => FrameRel.FreesStack.stack f _

@[grind ←] theorem keeps_pushAll (vs : List Value) : Keeps F (pushAll vs) :=
  keeps_modify fun f => FrameRel.FreesStack.stack f _

@[grind ←] theorem keeps_pop : Keeps F pop := by
  intro f a f' h
  unfold pop at h
  split at h
  · obtain ⟨_, rfl⟩ := Prod.mk.inj (Except.ok.inj h)
    exact FrameRel.FreesStack.stack f _
  · contradiction

@[grind ←] theorem keeps_popN (n : Nat) : Keeps F (popN n) := by
  intro f a f' h
  unfold popN at h
  split at h
  · contradiction
  · obtain ⟨_, rfl⟩ := Prod.mk.inj (Except.ok.inj h)
    exact FrameRel.FreesStack.stack f _

@[grind ←] theorem keeps_popInt : Keeps F popInt := by unfold popInt; grind
@[grind ←] theorem keeps_popLong : Keeps F popLong := by unfold popLong; grind
@[grind ←] theorem keeps_popFloat : Keeps F popFloat := by unfold popFloat; grind
@[grind ←] theorem keeps_popDouble : Keeps F popDouble := by unfold popDouble; grind
@[grind ←] theorem keeps_popRef : Keeps F popRef := by unfold popRef; grind

@[grind ←] theorem keeps_stackOp (op : StackOp) : Keeps F (stackOp op) := by
  cases op <;> unfold stackOp <;> grind

@[grind ←] theorem keeps_convert (c : Conversion) : Keeps F (convert c) := by
  cases c <;> unfold convert <;> grind

@[grind ←] theorem keeps_compareLongs : Keeps F compareLongs := by
  unfold compareLongs
  grind

@[grind ←] theorem keeps_compareFloats (nanGreater : Bool) : Keeps F (compareFloats nanGreater) := by
  unfold compareFloats
  grind

@[grind ←] theorem keeps_compareDoubles (nanGreater : Bool) :
    Keeps F (compareDoubles nanGreater) := by
  unfold compareDoubles
  grind

@[grind ←] theorem keeps_floatOp (op : FloatOp) : Keeps F (floatOp op) := by
  unfold floatOp
  grind

@[grind ←] theorem keeps_doubleOp (op : FloatOp) : Keeps F (doubleOp op) := by
  unfold doubleOp
  grind

@[grind ←] theorem keeps_negateInt : Keeps F negateInt := by
  unfold negateInt
  grind

@[grind ←] theorem keeps_negateLong : Keeps F negateLong := by
  unfold negateLong
  grind

@[grind ←] theorem keeps_negateFloat : Keeps F negateFloat := by
  unfold negateFloat
  grind

@[grind ←] theorem keeps_negateDouble : Keeps F negateDouble := by
  unfold negateDouble
  grind

end Stack

@[grind ←] theorem keeps_branchInt (c : Condition) : Keeps .instruction (branchInt c) := by
  unfold branchInt
  grind

@[grind ←] theorem keeps_branchInts (c : Condition) : Keeps .instruction (branchInts c) := by
  unfold branchInts
  grind

@[grind ←] theorem keeps_branchRefs (same : Bool) : Keeps .instruction (branchRefs same) := by
  unfold branchRefs
  grind

@[grind ←] theorem keeps_branchNull (isNull : Bool) : Keeps .instruction (branchNull isNull) := by
  unfold branchNull
  grind

@[grind ←] theorem keeps_goto : Keeps .instruction goto := by unfold goto; grind
@[grind ←] theorem keeps_gotoWide : Keeps .instruction gotoWide := by unfold gotoWide; grind

@[grind ←] theorem keeps_tableswitch : Keeps .instruction tableswitch := by
  refine Keeps.bind keeps_align fun _ => Keeps.bind keeps_s4 fun dflt => ?_
  refine Keeps.bind keeps_s4 fun low => Keeps.bind keeps_s4 fun high => ?_
  grind

@[grind ←] theorem keeps_lookupPairs (key : Int32) (dflt : Int) (n : Nat) :
    Keeps .instruction (lookupPairs key dflt n) := by
  induction n with
  | zero => exact keeps_branch dflt
  | succ n ih =>
      unfold lookupPairs
      grind

@[grind ←] theorem keeps_lookupswitch : Keeps .instruction lookupswitch := by
  unfold lookupswitch
  have hpairs := keeps_lookupPairs
  grind

theorem keeps_storeTop [F.FreesStack] [F.FreesLocals] (slot : Nat) : Keeps F (storeTop slot) :=
  Keeps.bind keeps_pop fun v => keeps_store slot v

theorem keeps_increment [F.FreesLocals] (slot : Nat) (delta : Int32) :
    Keeps F (increment slot delta) := by
  refine Keeps.bind (keeps_load slot) fun v => ?_
  exact Keeps.bind (keeps_liftM _) fun n => keeps_store slot _

theorem keeps_iinc : Keeps .position iinc := by
  refine Keeps.bind keeps_u1 fun slot => Keeps.bind keeps_s1 fun delta => ?_
  exact keeps_increment _ _

theorem keeps_wide : Keeps .position wide := by
  have hload : ∀ slot, Keeps .position (load slot >>= push) := fun slot =>
    Keeps.bind (keeps_load slot) keeps_push
  refine Keeps.bind keeps_u1 fun byte => Keeps.bind keeps_u2 fun slot => ?_
  split
  case h_11 => exact Keeps.bind keeps_s2 fun delta => keeps_increment _ _
  case h_12 => exact keeps_fail _
  all_goals first | exact hload _ | exact keeps_storeTop _

end FrameM

/-- What is done to the innermost frame leaves all else as it was. -/
theorem Exec.of_onFrame_ok {α : Type} {ctx : Context} {m m' : Machine} {x : FrameM α} {a : α}
    (h : onFrame x ctx m = .ok a m') : ∃ f g callers, m.frames = f :: callers ∧ x f = .ok (a, g) ∧
      m' = { m with frames := g :: callers } := by
  unfold onFrame at h
  split at h
  case h_1 => contradiction
  case h_2 f callers hframes =>
    split at h
    case h_1 g hrun =>
      obtain ⟨rfl, rfl⟩ := EStateM.Result.ok.inj h
      exact ⟨f, g, callers, hframes, hrun, rfl⟩
    case h_2 => contradiction

end ClassEngine
