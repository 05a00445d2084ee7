import Mathlib.Data.List.Chain
import ClassEngine.Proofs.Engine.Exceptions
import ClassEngine.Proofs.Engine.RespectingExecution

/-!
The elements of arrays of primitive values from one moment to the next. Unless a program around an engine
sets elements by itself, the only arrays of this kind that change are those that an instruction or a
native writes to, and which these may be can be seen from the activation that is about to do so. Main
result: an array that no moment of such a run writes to holds what it held (`elements_of_chain`).
-/

namespace ClassEngine

open Machine Exec Linking Interpreter

/-- The array is one that an activation may be about to write to. -/
inductive Frame.WritesTo (f : Frame) (a : Ref) : Prop
  /-- An instruction that stores in an array finds it below the value and the index. -/
  | instruction {byte : UInt8} {op : Opcode} (hbyte : f.bytecode[f.pc.toNat]? = some byte)
      (hop : Opcode.ofByte? byte = some op) (hstores : op.storesElement = true)
      (hstack : f.stack[2]? = some (.ref a))
  /-- A native that copies into an array is given it as its third argument. -/
  | native (hnative : f.method.isNative = true) (hargument : f.locals[2]? = some (.ref a))

/-- At the moment the object at a place of the heap may be about to be written to. -/
def Moment.WritesTo (s : Moment) (i : Nat) : Prop :=
  s.access = none ∧ ∃ f a, s.frames.head? = some f ∧ f.WritesTo a ∧ a.number - 1 = i

/-- The one heap comes after the other: objects are of the same types, and arrays of primitive values have
the same elements, unless they were written to. -/
def HeapKeeps (written : Nat → Prop) (h h' : Array Object) : Prop :=
  ∀ ⦃i : Nat⦄ ⦃o : Object⦄, h[i]? = some o → ∃ o', h'[i]? = some o' ∧ o'.type = o.type ∧
    (o.HoldsPrimitives → ¬written i → o'.elements = o.elements)

/-- At each moment of an engine, up to the present one, the heap comes after that at the moment before, of
which it is known what may have been written to. -/
structure Machine.TracesWrites (m : Machine) : Prop where
  filed : m.classes.Filed
  moments : (m.moment :: m.moments.val).IsChain fun later earlier =>
    HeapKeeps earlier.WritesTo earlier.heap later.heap

section Heaps

variable {written : Nat → Prop} {h h' h'' : Array Object}

theorem HeapKeeps.refl (written : Nat → Prop) (h : Array Object) : HeapKeeps written h h :=
  fun _ o ho => ⟨o, ho, rfl, fun _ _ => rfl⟩

theorem HeapKeeps.trans (hh : HeapKeeps written h h') (hh' : HeapKeeps written h' h'') :
    HeapKeeps written h h'' := by
  intro i o ho
  obtain ⟨o', ho', htype, helements⟩ := hh ho
  obtain ⟨o'', ho'', htype', helements'⟩ := hh' ho'
  refine ⟨o'', ho'', htype'.trans htype, fun hprimitive hnot => ?_⟩
  have hprimitive' : o'.HoldsPrimitives := by rwa [Object.HoldsPrimitives, htype]
  exact (helements' hprimitive' hnot).trans (helements hprimitive hnot)

theorem heapKeeps_push (h : Array Object) (o : Object) : HeapKeeps written h (h.push o) := by
  intro i o' ho'
  obtain ⟨hlt, rfl⟩ := Array.getElem?_eq_some_iff.mp ho'
  exact ⟨_, Array.getElem?_push_lt hlt, rfl, fun _ _ => rfl⟩

/-- An object is changed that is written to, or that is not an array of primitive values, or that keeps
its elements. -/
theorem heapKeeps_modify {i : Nat} {f : Object → Object} (htype : ∀ o, (f o).type = o.type)
    (hf : ∀ o, h[i]? = some o → o.HoldsPrimitives → ¬written i → (f o).elements = o.elements) :
    HeapKeeps written h (h.modify i f) := by
  intro j o ho
  rw [Array.getElem?_modify]
  by_cases hj : i = j
  · subst hj
    rw [if_pos rfl, ho]
    exact ⟨f o, rfl, htype o, hf o ho⟩
  · rw [if_neg hj]
    exact ⟨o, ho, rfl, fun _ _ => rfl⟩

end Heaps

section Tables

variable {t : ClassTable}

theorem ClassTable.Filed.insert (ht : t.Filed) (c : RuntimeClass) :
    ClassTable.Filed (t.insert c.descriptor c) := by
  intro d c' hc'
  rw [ClassTable.getElem?_insert] at hc'
  split at hc'
  · next hd =>
      obtain rfl := Option.some.inj hc'
      exact hd
  · exact ht hc'

theorem ClassTable.Filed.modify (ht : t.Filed) {k : Descriptor} {f : RuntimeClass → RuntimeClass}
    (hf : ∀ c, (f c).descriptor = c.descriptor) : ClassTable.Filed (t.modify k f) := by
  intro d c' hc'
  rw [ClassTable.getElem?_modify] at hc'
  split at hc'
  · next hd =>
      obtain ⟨c, hc, rfl⟩ := Option.map_eq_some_iff.mp hc'
      subst hd
      exact (hf c).trans (ht hc)
  · exact ht hc'

end Tables

namespace Machine

variable {m m' : Machine}

/-- Objects change as the last moment has it, and the classes are still filed. -/
theorem TracesWrites.change (h : m.TracesWrites) (hmoments : m'.moments = m.moments)
    (hheap : ∀ s ∈ m.moments.val.head?, HeapKeeps s.WritesTo m.heap m'.heap)
    (hfiled : m'.classes.Filed) : m'.TracesWrites where
  filed := hfiled
  moments := by
    obtain ⟨hlast, hbefore⟩ := List.isChain_cons.mp h.moments
    rw [hmoments]
    exact List.isChain_cons.mpr ⟨fun s hs => (hlast s hs).trans (hheap s hs), hbefore⟩

theorem TracesWrites.of_eq (h : m.TracesWrites) (hclasses : m'.classes = m.classes)
    (hheap : m'.heap = m.heap) (hmoments : m'.moments = m.moments) : m'.TracesWrites :=
  h.change hmoments (fun _ _ => hheap ▸ .refl _ _) (hclasses ▸ h.filed)

/-- One more moment is kept, and no array has changed since. -/
theorem TracesWrites.keep (h : m.TracesWrites) {s : Moment} (hs : s.heap = m.heap)
    (hclasses : m'.classes = m.classes) (hmoments : m'.moments.val = s :: m.moments.val)
    (hheap : HeapKeeps s.WritesTo m.heap m'.heap) : m'.TracesWrites where
  filed := by
    rw [hclasses]
    exact h.filed
  moments := by
    obtain ⟨hlast, hbefore⟩ := List.isChain_cons.mp h.moments
    rw [hmoments]
    refine List.isChain_cons_cons.mpr ⟨?_, List.isChain_cons.mpr ⟨fun e he => ?_, hbefore⟩⟩
    · rw [hs]
      exact hheap
    · rw [hs]
      exact hlast e he

theorem TracesWrites.mark (h : m.TracesWrites) : m.mark.TracesWrites :=
  h.keep rfl rfl (mark_moments m) (.refl _ _)

theorem TracesWrites.note (h : m.TracesWrites) (e : Event) : (m.note e).TracesWrites :=
  h.keep rfl rfl (note_moments e m) (.refl _ _)

theorem TracesWrites.markAccess (h : m.TracesWrites) (a : Access) : (m.markAccess a).TracesWrites :=
  h.keep rfl rfl (markAccess_moments a m) (.refl _ _)

theorem IsNew.tracesWrites (h : m.IsNew) (hmoments : m.moments = .of []) : m.TracesWrites where
  filed := by
    intro d c hc
    simp [h.classes] at hc
  moments := by
    rw [hmoments, Ghost.val_of]
    exact .singleton _

end Machine

/-- Objects stay what they are, and what is written to arrays of primitive values goes on being told by the
moments. -/
def MachineRel.tracesWrites : MachineRel where
  rel m m' := HeapEvolves m.heap m'.heap ∧ (m.TracesWrites → m'.TracesWrites)
  refl _ := ⟨.refl _, id⟩
  breakDown _ _ := ⟨.refl _, fun h => h.of_eq rfl rfl rfl⟩
  trans h h' := ⟨h.1.trans h'.1, h'.2 ∘ h.2⟩

section Changes

variable {m m' : Machine} {i : Nat} {f : Object → Object}

/-- An object is changed that keeps its elements. -/
theorem tracesWrites_modify (m : Machine) (i : Nat)
    (hf : ∀ o, (f o).type = o.type ∧ (f o).storage = o.storage ∧ (f o).elements = o.elements) :
    MachineRel.tracesWrites.rel m { m with heap := m.heap.modify i f } :=
  ⟨heapEvolves_modify _ _ fun o => ⟨(hf o).1, (hf o).2.1⟩, fun h =>
    h.change rfl (fun _ _ => heapKeeps_modify (fun o => (hf o).1) fun o _ _ _ => (hf o).2.2) h.filed⟩

/-- An array is written to as the last moment has it. -/
theorem tracesWrites_put {s : Moment} {before : List Moment} (hlast : m.moments.val = s :: before)
    (hwrites : s.WritesTo i) (hf : ∀ o, f o = { o with elements := (f o).elements }) :
    MachineRel.tracesWrites.rel m { m with heap := m.heap.modify i f } := by
  have htype : ∀ o, (f o).type = o.type := fun o => by rw [hf o]
  refine ⟨heapEvolves_modify _ _ fun o => ⟨htype o, by rw [hf o]⟩, fun h => ?_⟩
  refine h.change rfl (fun s' hs' => heapKeeps_modify htype fun _ _ _ hnot => ?_) h.filed
  rw [hlast] at hs'
  obtain rfl := Option.some.inj hs'
  exact absurd hwrites hnot

end Changes

instance : MachineRel.tracesWrites.Attentive where
  note _ e := ⟨.refl _, fun h => h.note e⟩
  access _ a _ := ⟨.refl _, fun h => h.markAccess a⟩
  guard _ _ := ⟨.refl _, fun h => h.of_eq rfl rfl rfl⟩
  allocate _ _ := ⟨heapEvolves_push _ _, fun h => h.change rfl (fun _ _ => heapKeeps_push _ _) h.filed⟩
  payload m i f hf := tracesWrites_modify m i fun o => by
    rw [hf o]
    exact ⟨rfl, rfl, rfl⟩
  statics {m m' _ _ r} f h _ _ hf := by
    refine MachineRel.trans _ h (tracesWrites_modify m' _ fun o => ?_)
    rw [hf o]
    exact ⟨rfl, rfl, rfl⟩
  insert _ c _ _ :=
    ⟨.refl _, fun h => h.change rfl (fun _ _ => .refl _ _) (h.filed.insert c)⟩
  modify _ _ f hf :=
    ⟨.refl _, fun h => h.change rfl (fun _ _ => .refl _ _) (h.filed.modify fun c => by rw [(hf c).1])⟩
  string _ _ h _ := ⟨h.1, fun htraces => (h.2 htraces).of_eq rfl rfl rfl⟩
  mirror _ h _ _ :=
    ⟨h.1, fun htraces => (h.2 htraces).change rfl (fun _ _ => .refl _ _)
      ((h.2 htraces).filed.modify fun _ => rfl)⟩
  aside _ hclasses hheap _ hmoments := ⟨hheap ▸ .refl _, fun h => h.of_eq hclasses hheap hmoments⟩
  mark _ := ⟨.refl _, fun h => h.mark⟩
  store m ctx f v := by
    have hmarked : MachineRel.tracesWrites.rel m (m.markAccess (.stored f v)) :=
      ⟨.refl _, fun h => h.markAccess _⟩
    exact MachineRel.trans _ hmarked (tracesWrites_modify _ _ fun _ => ⟨rfl, rfl, rfl⟩)
  fill {m m'} i f h hfilled hf := by
    have htype : ∀ o, (f o).type = o.type := fun o => by rw [hf o]
    refine ⟨h.1.trans (heapEvolves_modify _ _ fun o => ⟨htype o, by rw [hf o]⟩), fun htraces => ?_⟩
    obtain ⟨o, ho, hprimitive⟩ := hfilled htraces.filed
    obtain ⟨o', ho', htype', -⟩ := h.1 ho
    refine (h.2 htraces).change rfl (fun _ _ => heapKeeps_modify htype fun a ha hholds _ => ?_)
      (h.2 htraces).filed
    obtain rfl := Option.some.inj (ho'.symm.trans ha)
    rw [Object.HoldsPrimitives, htype'] at hholds
    exact absurd hholds hprimitive

instance : MachineRel.tracesWrites.FreesFrames where
  frames _ _ := ⟨.refl _, fun h => h.of_eq rfl rfl rfl⟩

/-- The moment at which an instruction is fetched, or a native begins, tells what it writes to. -/
instance : MachineRel.tracesWrites.CoversWrites where
  storeElement {ctx _ m m' byte op} hfetch hop hstores := by
    obtain ⟨f, callers, hframes⟩ := frames_of_fetch hfetch
    obtain ⟨-, hbyte, rfl⟩ := of_fetch_ok hframes hfetch
    refine rel_store fun {f' callers' v index r rest o} g hframes' hstack _ _ hg => ?_
    obtain ⟨rfl, rfl⟩ := List.cons.inj hframes'
    have hwrites : f.WritesTo r := .instruction hbyte hop hstores (congrArg (·[2]?) hstack)
    refine MachineRel.trans _ (MachineRel.FreesFrames.frames _
      ({ f with opPc := f.pc, pc := f.pc + 1, stack := rest } :: callers)) ?_
    exact tracesWrites_put (note_moments (.executing f.method.owner) m)
      ⟨rfl, f, r, congrArg List.head? hframes, hwrites, rfl⟩ hg
  nativeCall {ctx _ m f callers} hframes hnative := by
    refine rel_nativeCall (fun g hargument _ _ hg => ?_) f.method
    refine tracesWrites_put (mark_moments m) ⟨rfl, f, _, ?_, .native hnative hargument, rfl⟩ hg
    exact congrArg List.head? hframes

/-- The request sets an element from outside, past the instructions. -/
def Request.SetsElement : Request → Prop
  | .setElement _ _ _ => True
  | _ => False

section Runs

variable {host : Host} {m : Machine}

theorem perform_tracesWrites {ctx : Context} [RespectingContext .tracesWrites ctx] (request : Request)
    (hmay : ¬request.SetsElement) (h : m.TracesWrites) :
    (endOf (request.perform ctx m)).TracesWrites := by
  have hrespects : Respects .tracesWrites ctx request.perform :=
    respects_perform
      (fun _ _ _ _ hset => hset ▸ fun m => tracesWrites_modify m _ fun _ => ⟨rfl, rfl, rfl⟩)
      fun _ _ _ hset => absurd (hset ▸ trivial) hmay
  exact (hrespects m).2 h

/-- The moments of every run tell what is written to arrays, if no request sets an element. -/
theorem Watched.tracesWrites (h : Watched host (fun request _ => ¬request.SetsElement) m) :
    m.TracesWrites :=
  h.holds (fun hnew hmoments => hnew.tracesWrites hmoments)
    (fun hclasses hheap hmoments hm => hm.of_eq hclasses hheap hmoments) (fun e hm => hm.note e)
    fun hmay hm => perform_tracesWrites _ hmay hm

end Runs

/-- Along moments that tell what is written, an array of primitive values has the elements that it had, if
no moment writes to it. -/
theorem elements_of_chain {s s₀ : Moment} {between : List Moment} {i : Nat} {o₀ : Object}
    (hchain : (s :: (between ++ [s₀])).IsChain fun later earlier =>
      HeapKeeps earlier.WritesTo earlier.heap later.heap)
    (ho₀ : s₀.heap[i]? = some o₀) :
    ∃ o, s.heap[i]? = some o ∧ o.type = o₀.type ∧
      (o₀.HoldsPrimitives → (∀ e ∈ between ++ [s₀], ¬e.WritesTo i) → o.elements = o₀.elements) := by
  induction between generalizing s with
  | nil =>
      obtain ⟨o, ho, htype, hkept⟩ := (List.isChain_cons_cons.mp hchain).1 ho₀
      exact ⟨o, ho, htype, fun hprimitive hnone => hkept hprimitive (hnone s₀ (.head _))⟩
  | cons t between ih =>
      obtain ⟨hkeeps, hrest⟩ := List.isChain_cons_cons.mp hchain
      obtain ⟨o', ho', htype', helements'⟩ := ih hrest
      obtain ⟨o, ho, htype, helements⟩ := hkeeps ho'
      refine ⟨o, ho, htype.trans htype', fun hprimitive hnone => ?_⟩
      have hprimitive' : o'.HoldsPrimitives := by rwa [Object.HoldsPrimitives, htype']
      rw [helements hprimitive' (hnone t (.head _)),
        helements' hprimitive fun e he => hnone e (.tail _ he)]

end ClassEngine
