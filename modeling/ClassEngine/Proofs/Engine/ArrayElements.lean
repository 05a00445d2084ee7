import ClassEngine.Proofs.Engine.RespectingExecution

/-!
Arrays change only where code is run. Each instruction, each initializer and each native starts with a
moment that is kept. So a computation around the code of methods, say the loading of a class or a
subtype test, in the course of which no moment has passed, has left every array as it was. Main result:
`Respects.keepsElements`, for the computations that respect `MachineRel.sparesArrays`.
-/

namespace ClassEngine

open Machine Exec Linking Resolution Allocation Interpreter Initialization

namespace Machine

/-- The objects there were are there still, of the same classes and with the same elements. -/
def KeepsElements (m m' : Machine) : Prop :=
  ∀ ⦃i : Nat⦄ ⦃o : Object⦄, m.heap[i]? = some o →
    ∃ o', m'.heap[i]? = some o' ∧ o'.type = o.type ∧ o'.elements = o.elements

/-- How many moments are kept. -/
noncomputable def age (m : Machine) : Nat :=
  m.moments.val.length

variable {m m' m'' : Machine}

theorem KeepsElements.of_heap (h : m'.heap = m.heap) : m.KeepsElements m' :=
  fun _ o ho => ⟨o, h ▸ ho, rfl, rfl⟩

theorem KeepsElements.trans (h : m.KeepsElements m') (h' : m'.KeepsElements m'') :
    m.KeepsElements m'' := by
  intro i o ho
  obtain ⟨o', ho', htype, helements⟩ := h ho
  obtain ⟨o'', ho'', htype', helements'⟩ := h' ho'
  exact ⟨o'', ho'', htype'.trans htype, helements'.trans helements⟩

theorem keepsElements_push (m : Machine) (o : Object) :
    m.KeepsElements { m with heap := m.heap.push o } := by
  intro i o' ho'
  obtain ⟨hi, rfl⟩ := Array.getElem?_eq_some_iff.mp ho'
  exact ⟨_, Array.getElem?_push_lt hi, rfl, rfl⟩

theorem keepsElements_modify (m : Machine) (i : Nat) {f : Object → Object}
    (hf : ∀ o, (f o).type = o.type ∧ (f o).elements = o.elements) :
    m.KeepsElements { m with heap := m.heap.modify i f } := by
  intro j o ho
  show ∃ o', (m.heap.modify i f)[j]? = some o' ∧ _
  rw [Array.getElem?_modify, ho]
  split
  · exact ⟨f o, rfl, hf o⟩
  · exact ⟨o, rfl, rfl, rfl⟩

@[simp] theorem age_mark (m : Machine) : m.mark.age = m.age + 1 := by
  rw [age, mark_moments, List.length_cons, age]

@[simp] theorem age_note (e : Event) (m : Machine) : (m.note e).age = m.age + 1 :=
  age_mark m

@[simp] theorem age_markAccess (a : Access) (m : Machine) : (m.markAccess a).age = m.age + 1 := by
  rw [age, markAccess_moments, List.length_cons, age]

theorem age_of_moments (h : m'.moments = m.moments) : m'.age = m.age := by
  rw [age, h, age]

end Machine

/-- Kept moments stay. -/
def MachineRel.ages : MachineRel where
  rel m m' := m.age ≤ m'.age
  refl _ := Nat.le_refl _
  breakDown _ _ := Nat.le_refl _
  trans := Nat.le_trans

/-- Kept moments stay, and unless a moment has passed, no array has changed. -/
def MachineRel.sparesArrays : MachineRel where
  rel m m' := m.age ≤ m'.age ∧ (m'.age = m.age → m.KeepsElements m')
  refl m := ⟨Nat.le_refl _, fun _ => .of_heap rfl⟩
  breakDown m _ := ⟨Nat.le_refl _, fun _ => .of_heap rfl⟩
  trans h h' := by
    refine ⟨Nat.le_trans h.1 h'.1, fun hage => ?_⟩
    have hage₁ := Nat.le_antisymm (hage ▸ h'.1) h.1
    exact (h.2 hage₁).trans (h'.2 (hage.trans hage₁.symm))

section Relations

variable {m m' : Machine}

theorem sparesArrays_of_lt (h : m.age < m'.age) : MachineRel.sparesArrays.rel m m' :=
  ⟨Nat.le_of_lt h, fun hage => absurd hage (Nat.ne_of_gt h)⟩

theorem sparesArrays_of_keeps (hmoments : m'.moments = m.moments) (h : m.KeepsElements m') :
    MachineRel.sparesArrays.rel m m' :=
  ⟨Nat.le_of_eq (age_of_moments hmoments).symm, fun _ => h⟩

instance : MachineRel.ages.Tolerant where
  note m e := Nat.le_of_lt (by rw [age_note]; exact Nat.lt_succ_self _)
  guard _ _ := Nat.le_refl _
  access m a _ := Nat.le_of_lt (by rw [age_markAccess]; exact Nat.lt_succ_self _)
  allocate _ _ := Nat.le_refl _
  payload _ _ _ _ := Nat.le_refl _
  statics _ h _ _ _ := h
  insert _ _ _ _ := Nat.le_refl _
  modify _ _ _ _ := Nat.le_refl _
  string _ _ h _ := h
  mirror _ h _ _ := h

instance : MachineRel.sparesArrays.Tolerant where
  note m e := sparesArrays_of_lt (by rw [age_note]; exact Nat.lt_succ_self _)
  guard _ _ := sparesArrays_of_keeps rfl (.of_heap rfl)
  access m a _ := sparesArrays_of_lt (by rw [age_markAccess]; exact Nat.lt_succ_self _)
  allocate m o := sparesArrays_of_keeps rfl (keepsElements_push m o)
  payload m i f hf := sparesArrays_of_keeps rfl <| keepsElements_modify m i fun o => by
    rw [hf o]
    exact ⟨rfl, rfl⟩
  statics {m m' d c r} f h _ _ hf := by
    refine ⟨h.1, fun hage => (h.2 hage).trans (keepsElements_modify m' _ fun o => ?_)⟩
    rw [hf o]
    exact ⟨rfl, rfl⟩
  insert _ _ _ _ := sparesArrays_of_keeps rfl (.of_heap rfl)
  modify _ _ _ _ := sparesArrays_of_keeps rfl (.of_heap rfl)
  string _ _ h _ := h
  mirror _ h _ _ := h

instance : MachineRel.sparesArrays.FreesFrames where
  frames _ _ := sparesArrays_of_keeps rfl (.of_heap rfl)

end Relations

variable {α β : Type} {ctx : Context}

theorem SoundBy.ages {F : FrameRel} {P : Machine → Prop} {x : Exec α} {Q : α → Machine → Prop}
    (h : SoundBy F ctx P x Q) : Respects .ages ctx x := by
  intro m
  obtain ⟨passed, hmoments, _⟩ := (h.meets m).evolves.moments
  show m.age ≤ _
  rw [age, age, hmoments, List.length_append]
  exact Nat.le_add_left _ _

/-- No array is changed before a moment has passed, and without that the computation gives no result. -/
structure Marks (ctx : Context) (x : Exec α) : Prop where
  respects : Respects .sparesArrays ctx x
  passes : ∀ {m m' : Machine} {a : α}, x ctx m = .ok a m' → m.age < m'.age

namespace Marks

theorem of_mark {x : Exec α} {f : Machine → Machine} (hf : ∀ m, m.age < (f m).age)
    (hx : ∀ m, ∃ a, x ctx m = .ok a (f m)) : Marks ctx x where
  respects m := by
    obtain ⟨a, hrun⟩ := hx m
    rw [hrun]
    exact sparesArrays_of_lt (hf m)
  passes {m m' a} h := by
    obtain ⟨b, hrun⟩ := hx m
    obtain ⟨_, rfl⟩ := EStateM.Result.ok.inj (hrun.symm.trans h)
    exact hf m

theorem note (e : Event) : Marks ctx (note e) :=
  of_mark (fun m => by rw [age_note]; exact Nat.lt_succ_self _) fun m => ⟨(), rfl⟩

theorem mark : Marks ctx mark :=
  of_mark (fun m => by rw [age_mark]; exact Nat.lt_succ_self _) fun m => ⟨(), rfl⟩

theorem giveUp_bind (e : Raise) (f : β → Exec α) : Marks ctx (giveUp e >>= f) where
  respects m := MachineRel.sparesArrays.breakDown m e
  passes h := by contradiction

/-- Once a moment has passed, anything may follow. -/
theorem bind {x : Exec α} {f : α → Exec β} (hx : Marks ctx x)
    (hf : ∀ a, Respects .ages ctx (f a)) : Marks ctx (x >>= f) where
  respects m := by
    cases hrun : x ctx m with
    | ok a m₁ =>
        rw [bind_of_ok hrun]
        exact sparesArrays_of_lt (Nat.lt_of_lt_of_le (hx.passes hrun) (hf a m₁))
    | error e m₁ =>
        have hend := hx.respects m
        rw [hrun] at hend
        rw [bind_of_error hrun]
        exact hend
  passes h := by
    obtain ⟨a, m₁, hrun, hrest⟩ := of_bind_ok h
    have hend := hf a m₁
    rw [hrest] at hend
    exact Nat.lt_of_lt_of_le (hx.passes hrun) hend

/-- What comes before may be anything that spares arrays. -/
theorem after {x : Exec α} {f : α → Exec β} (hx : Respects .sparesArrays ctx x)
    (hf : ∀ a, Marks ctx (f a)) : Marks ctx (x >>= f) where
  respects := .bind hx fun a => (hf a).respects
  passes {m _ _} h := by
    obtain ⟨a, m₁, hrun, hrest⟩ := of_bind_ok h
    have hstart := hx m
    rw [hrun] at hstart
    exact Nat.lt_of_le_of_lt hstart.1 ((hf a).passes hrest)

end Marks

section Execution

theorem marks_fetch : Marks ctx fetch := by
  refine .after respects_currentFrame fun f => ?_
  split
  · exact .giveUp_bind _ _
  · refine (Marks.note _).bind fun _ => SoundBy.ages ?_ (F := .activation) (P := fun _ => True)
      (Q := fun _ _ => True)
    refine .seq (soundBy_onFrame (FrameM.keeps_modify fun _ => rfl)) fun _ => ?_
    exact soundBy_onFrame (FrameM.keeps_u1.mono FrameRel.instruction_le_activation)

variable [SoundContext ctx]

/-- An instruction is fetched before anything is done. -/
theorem marks_advance : Marks ctx advance := by
  refine marks_fetch.bind fun byte => ?_
  have hstep : SoundBy .position ctx (fun _ => True) (Step.run byte) fun _ _ => True :=
    soundBy_step byte
  refine .bind (.attempt hstep.ages) fun done => ?_
  split
  · exact .pure _
  · exact .bind respects_get fun m => .bind (respects_note _) fun _ => SoundBy.ages (safe_dispatch _)
  · exact .throw _

theorem loop_sparesArrays (fuel : Nat) : Respects .sparesArrays ctx (loop fuel) := by
  cases fuel with
  | zero => exact .throw _
  | succ fuel =>
      intro m
      have hadvance : Marks ctx advance := marks_advance
      have hrest : Respects .ages ctx (loop fuel) := (soundBy_loop fuel).ages
      have hstep := hadvance.respects m
      unfold loop
      split
      case h_1 m₁ hrun =>
        exact sparesArrays_of_lt (Nat.lt_of_lt_of_le (hadvance.passes hrun) (hrest m₁))
      case h_2 v m₁ hrun =>
        rw [hrun] at hstep
        exact hstep
      case h_3 e m₁ hrun =>
        rw [hrun] at hstep
        exact hstep

theorem nativeCall_sparesArrays (method : Method) (locals : Array Value) :
    Respects .sparesArrays ctx (Native.call method locals) := by
  refine (Marks.mark.bind fun _ => .bind respects_get fun s => ?_).respects
  split
  · exact respects_unresolved _ _ _
  · next n _ =>
      have hnative : Safe ctx (n.run locals) := safe_native n locals
      refine .bind hnative.ages fun result => ?_
      split <;> exact .pure _

theorem activate_sparesArrays (method : Method) (args : List Value) :
    Respects .sparesArrays ctx (activate method args) := by
  have hprofile : Respects .sparesArrays ctx (profile method) := by
    intro m
    rw [profile, endOf_modify]
    split <;> exact sparesArrays_of_keeps rfl (.of_heap rfl)
  exact respects_activate hprofile (fun _ _ _ => nativeCall_sparesArrays method _ _)
    loop_sparesArrays args

end Execution

/-- Methods and initializers change arrays only once a moment has passed, however deep they nest. -/
instance sparingContext (host : Host) (steps nesting : Nat) :
    RespectingContext .sparesArrays (Session.context host steps nesting) := by
  induction nesting with
  | zero => exact ⟨fun _ _ m => MachineRel.refl _ m, fun _ m => MachineRel.refl _ m⟩
  | succ nesting ih =>
      refine ⟨fun method args => ?_, respects_initializeOnce⟩
      exact respects_invoke (activate_sparesArrays method args)

/-- If no moment has passed, no array has changed. -/
theorem Respects.keepsElements {x : Exec α} {m : Machine} (hx : Respects .sparesArrays ctx x)
    (hmoments : (endOf (x ctx m)).moments = m.moments) : m.KeepsElements (endOf (x ctx m)) :=
  (hx m).2 (age_of_moments hmoments)

end ClassEngine
