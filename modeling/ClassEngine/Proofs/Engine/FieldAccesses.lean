import Mathlib.Data.List.Chain
import ClassEngine.Proofs.Engine.RespectingExecution

/-!
The slots of instances from one moment to the next. Unless a program around an engine sets fields by
itself, the only ones that change are those in which an instruction stores a value. Main result: at
every moment of such a run, a slot holds what was last stored in it, or else what it held earlier
(`slot_of_chain`).
-/

namespace ClassEngine

open Machine Exec

section Slots

theorem lookup_cons_slot (key k : FieldKey) (v : Value) (slots : List (FieldKey × Value)) :
    ((key, v) :: slots).lookup k = if key = k then some v else slots.lookup k := by
  rw [List.lookup_cons]
  by_cases hk : key = k
  · rw [if_pos hk, hk, beq_self_eq_true]
  · rw [if_neg hk, beq_false_of_ne (Ne.symm hk)]

theorem lookup_setSlot (key k : FieldKey) (v : Value) (slots : List (FieldKey × Value)) :
    (Object.setSlot key v slots).lookup k = if key = k then some v else slots.lookup k := by
  induction slots with
  | nil => exact lookup_cons_slot key k v []
  | cons slot slots ih =>
      obtain ⟨key', w⟩ := slot
      rw [Object.setSlot]
      by_cases hkey : key' = key
      · rw [if_pos hkey, lookup_cons_slot, lookup_cons_slot, hkey]
        split <;> rfl
      · rw [if_neg hkey, lookup_cons_slot, ih, lookup_cons_slot]
        by_cases hk : key = k
        · rw [if_neg (hk ▸ hkey), if_pos hk, if_pos hk]
        · rw [if_neg hk, if_neg hk]

theorem lookup_setField (o : Object) (owner name : Text) (v : Value) (k : FieldKey) :
    (o.setField owner name v).fields.lookup k =
      if ⟨owner, name⟩ = k then some v else o.fields.lookup k :=
  lookup_setSlot _ k v _

end Slots

/-- The slot of the field, in whatever object. -/
def FieldAccess.key (f : FieldAccess) : FieldKey :=
  ⟨f.owner.name, f.ref.name⟩

/-- What an instruction stores in a slot of the object at a place of the heap: the value, cut down to
the type that the instruction names. -/
def Access.storedIn (i : Nat) (key : FieldKey) : Access → Option Value
  | .stored f v =>
    if f.object.number - 1 = i ∧ f.key = key then some (Value.coerce f.ref.descriptor v) else none
  | _ => none

def Moment.storedIn (s : Moment) (i : Nat) (key : FieldKey) : Option Value :=
  s.access.bind (Access.storedIn i key)

/-- What was last stored in a slot of the object at a place of the heap. The moments are given latest
first. -/
def lastStored (moments : List Moment) (i : Nat) (key : FieldKey) : Option Value :=
  moments.findSome? fun s => s.storedIn i key

/-- The one heap comes after the other: each instance is there still, and a slot that is to be
written, as `stored` says, has been written, while all others are as they were. -/
def HeapFollows (stored : Nat → FieldKey → Option Value) (h h' : Array Object) : Prop :=
  ∀ ⦃i : Nat⦄ ⦃o : Object⦄, h[i]? = some o → o.storage = false →
    ∃ o', h'[i]? = some o' ∧ o'.storage = false ∧
      ∀ key, o'.fields.lookup key = (stored i key).or (o.fields.lookup key)

/-- Every record of the one table is found again in the other, of the same class. -/
def ClassTable.CarriesOn (t t' : ClassTable) : Prop :=
  ∀ ⦃d : Descriptor⦄ ⦃c : RuntimeClass⦄, t[d]? = some c → ∃ c', t'[d]? = some c' ∧ c.SameClass c'

/-- From the one moment to the other at most the slot is written that is stored in at the first, and
no class is lost. -/
structure Moment.LeadsTo (s s' : Moment) : Prop where
  heap : HeapFollows s.storedIn s.heap s'.heap
  classes : s.classes.CarriesOn s'.classes

/-- The static storage of each class is an object of that kind. -/
def ClassTable.StoresIn (t : ClassTable) (h : Array Object) : Prop :=
  ∀ ⦃d : Descriptor⦄ ⦃c : RuntimeClass⦄ ⦃r : Ref⦄, t[d]? = some c → c.statics = some r →
    ∃ o, h[r.number - 1]? = some o ∧ o.storage = true

/-- The moments of an engine, up to the present one, lead from each to the next. -/
structure Machine.IsTraced (m : Machine) : Prop where
  statics : m.classes.StoresIn m.heap
  moments : (m.moment :: m.moments.val).IsChain fun later earlier => earlier.LeadsTo later

section Heaps

variable {stored : Nat → FieldKey → Option Value} {h h' h'' : Array Object} {t : ClassTable}

/-- Nothing is written. -/
abbrev HeapSpares (h h' : Array Object) : Prop :=
  HeapFollows (fun _ _ => none) h h'

theorem HeapSpares.refl (h : Array Object) : HeapSpares h h :=
  fun _ o ho hinstance => ⟨o, ho, hinstance, fun _ => rfl⟩

theorem HeapFollows.spares (hh : HeapFollows stored h h') (hspares : HeapSpares h' h'') :
    HeapFollows stored h h'' := by
  intro i o ho hinstance
  obtain ⟨o', ho', hinstance', hslots⟩ := hh ho hinstance
  obtain ⟨o'', ho'', hinstance'', hslots'⟩ := hspares ho' hinstance'
  exact ⟨o'', ho'', hinstance'', fun key => (hslots' key).trans (hslots key)⟩

theorem heapSpares_push (h : Array Object) (o : Object) : HeapSpares h (h.push o) := by
  intro i o' ho' hinstance
  obtain ⟨hlt, rfl⟩ := Array.getElem?_eq_some_iff.mp ho'
  exact ⟨_, Array.getElem?_push_lt hlt, hinstance, fun _ => rfl⟩

/-- An object is changed, but its slots only as they are to be written. -/
theorem heapFollows_modify {i : Nat} {f : Object → Object}
    (hf : ∀ o, h[i]? = some o → o.storage = false → (f o).storage = false ∧
      ∀ key, (f o).fields.lookup key = (stored i key).or (o.fields.lookup key))
    (hother : ∀ j, j ≠ i → ∀ key, stored j key = none) : HeapFollows stored h (h.modify i f) := by
  intro j o ho hinstance
  rw [Array.getElem?_modify]
  by_cases hj : i = j
  · subst hj
    rw [if_pos rfl, ho]
    exact ⟨f o, rfl, hf o ho hinstance⟩
  · rw [if_neg hj]
    exact ⟨o, ho, hinstance, fun key => by rw [hother j (Ne.symm hj) key, Option.none_or]⟩

theorem heapSpares_modify (i : Nat) {f : Object → Object}
    (hf : ∀ o, (f o).storage = o.storage ∧ (f o).fields = o.fields) :
    HeapSpares h (h.modify i f) :=
  heapFollows_modify (fun o _ hinstance => ⟨(hf o).1.trans hinstance, fun _ => by rw [(hf o).2]; rfl⟩)
    fun _ _ _ => rfl

/-- What is no instance may be changed. -/
theorem heapSpares_modify_storage {i : Nat} {o : Object} {f : Object → Object} (ho : h[i]? = some o)
    (hstorage : o.storage = true) : HeapSpares h (h.modify i f) := by
  refine heapFollows_modify (fun o' ho' hinstance => ?_) fun _ _ _ => rfl
  obtain rfl := Option.some.inj (ho.symm.trans ho')
  rw [hstorage] at hinstance
  contradiction

theorem ClassTable.StoresIn.mono (ht : t.StoresIn h) (hh : HeapEvolves h h') : t.StoresIn h' := by
  intro d c r hc hr
  obtain ⟨o, ho, hstorage⟩ := ht hc hr
  obtain ⟨o', ho', _, hstorage'⟩ := hh ho
  exact ⟨o', ho', hstorage'.trans hstorage⟩

theorem ClassTable.StoresIn.insert (ht : t.StoresIn h) {c : RuntimeClass}
    (hc : ∀ r, c.statics = some r → ∃ o, h[r.number - 1]? = some o ∧ o.storage = true) :
    ClassTable.StoresIn (t.insert c.descriptor c) h := by
  intro d c' r hc' hr
  rw [ClassTable.getElem?_insert] at hc'
  split at hc'
  · obtain rfl := Option.some.inj hc'
    exact hc r hr
  · exact ht hc' hr

theorem ClassTable.StoresIn.modify (ht : t.StoresIn h) {d : Descriptor}
    {f : RuntimeClass → RuntimeClass} (hf : ∀ c, (f c).statics = c.statics) :
    ClassTable.StoresIn (t.modify d f) h := by
  intro k c' r hc' hr
  rw [ClassTable.getElem?_modify] at hc'
  split at hc'
  · obtain ⟨c, hc, rfl⟩ := Option.map_eq_some_iff.mp hc'
    exact ht hc ((hf c).symm.trans hr)
  · exact ht hc' hr

end Heaps

section Classes

variable {t t' t'' : ClassTable}

theorem RuntimeClass.SameClass.trans {c c' c'' : RuntimeClass} (h : c.SameClass c')
    (h' : c'.SameClass c'') : c.SameClass c'' := by
  rw [SameClass] at *
  rw [h', h]

theorem ClassTable.CarriesOn.refl (t : ClassTable) : t.CarriesOn t :=
  fun _ c hc => ⟨c, hc, .refl c⟩

theorem ClassTable.CarriesOn.trans (h : t.CarriesOn t') (h' : t'.CarriesOn t'') :
    t.CarriesOn t'' := by
  intro d c hc
  obtain ⟨c', hc', hsame⟩ := h hc
  obtain ⟨c'', hc'', hsame'⟩ := h' hc'
  exact ⟨c'', hc'', hsame.trans hsame'⟩

theorem ClassTable.carriesOn_insert {c : RuntimeClass} (hnew : t[c.descriptor]? = none) :
    t.CarriesOn (t.insert c.descriptor c) := by
  intro d c' hc'
  rw [getElem?_insert]
  by_cases hd : c.descriptor = d
  · rw [← hd, hnew] at hc'
    contradiction
  · rw [if_neg hd]
    exact ⟨c', hc', .refl c'⟩

theorem ClassTable.carriesOn_modify {k : Descriptor} {f : RuntimeClass → RuntimeClass}
    (hf : ∀ c : RuntimeClass, c.SameClass (f c)) : t.CarriesOn (t.modify k f) := by
  intro d c hc
  rw [getElem?_modify]
  by_cases hd : k = d
  · subst hd
    rw [if_pos rfl, hc]
    exact ⟨f c, rfl, hf c⟩
  · rw [if_neg hd]
    exact ⟨c, hc, .refl c⟩

end Classes

namespace Machine

variable {m m' : Machine}

/-- Some objects change otherwise than in their slots, or other classes are there. -/
theorem IsTraced.change (h : m.IsTraced) (hmoments : m'.moments = m.moments)
    (hheap : HeapSpares m.heap m'.heap) (hclasses : m.classes.CarriesOn m'.classes)
    (hstatics : m'.classes.StoresIn m'.heap) : m'.IsTraced where
  statics := hstatics
  moments := by
    obtain ⟨hlast, hbefore⟩ := List.isChain_cons.mp h.moments
    rw [hmoments]
    exact List.isChain_cons.mpr ⟨fun s hs =>
      ⟨(hlast s hs).heap.spares hheap, (hlast s hs).classes.trans hclasses⟩, hbefore⟩

theorem IsTraced.of_eq (h : m.IsTraced) (hclasses : m'.classes = m.classes)
    (hheap : m'.heap = m.heap) (hmoments : m'.moments = m.moments) : m'.IsTraced :=
  h.change hmoments (hheap ▸ .refl _) (hclasses ▸ .refl _) (by rw [hclasses, hheap]; exact h.statics)

/-- One more moment is kept, and what is stored at it has been written. -/
theorem IsTraced.keep (h : m.IsTraced) {s : Moment} (hs : s.heap = m.heap)
    (hs' : s.classes = m.classes) (hclasses : m'.classes = m.classes)
    (hmoments : m'.moments.val = s :: m.moments.val) (hheap : HeapEvolves m.heap m'.heap)
    (hleads : HeapFollows s.storedIn s.heap m'.heap) : m'.IsTraced where
  statics := by
    rw [hclasses]
    exact h.statics.mono hheap
  moments := by
    obtain ⟨hlast, hbefore⟩ := List.isChain_cons.mp h.moments
    rw [hmoments]
    have hpresent : s.LeadsTo m'.moment := by
      refine ⟨hleads, ?_⟩
      change s.classes.CarriesOn m'.classes
      rw [hs', hclasses]
      exact .refl _
    refine List.isChain_cons_cons.mpr ⟨hpresent, List.isChain_cons.mpr ⟨fun e he => ?_, hbefore⟩⟩
    obtain ⟨hheap', hclasses'⟩ := hlast e he
    exact ⟨by rw [hs]; exact hheap', by rw [hs']; exact hclasses'⟩

theorem IsTraced.mark (h : m.IsTraced) : m.mark.IsTraced :=
  h.keep rfl rfl rfl (mark_moments m) (.refl _) (HeapSpares.refl _)

theorem IsTraced.note (h : m.IsTraced) (e : Event) : (m.note e).IsTraced :=
  h.keep rfl rfl rfl (note_moments e m) (.refl _) (HeapSpares.refl _)

theorem IsTraced.markAccess (h : m.IsTraced) {a : Access} (ha : ∀ f v, a ≠ .stored f v) :
    (m.markAccess a).IsTraced := by
  refine h.keep rfl rfl rfl (markAccess_moments a m) (.refl _) ?_
  cases a with
  | stored f v => exact absurd rfl (ha f v)
  | made r d => exact HeapSpares.refl _
  | read f v => exact HeapSpares.refl _

/-- A value is stored in the slot of the field that the moment tells of. -/
theorem storeField_follows (m : Machine) (f : FieldAccess) (v : Value) :
    HeapFollows (m.moment.during (.stored f v)).storedIn m.heap
      (m.heap.modify (f.object.number - 1) fun o =>
        o.setField f.owner.name f.ref.name (Value.coerce f.ref.descriptor v)) := by
  refine heapFollows_modify (fun o _ hinstance => ⟨hinstance, fun key => ?_⟩) fun j hj key => ?_
  · rw [lookup_setField, ← FieldAccess.key]
    by_cases hkey : f.key = key
    · have hstored : (m.moment.during (.stored f v)).storedIn (f.object.number - 1) key =
          some (Value.coerce f.ref.descriptor v) := if_pos ⟨rfl, hkey⟩
      rw [hstored, if_pos hkey, Option.some_or]
    · have hnone : (m.moment.during (.stored f v)).storedIn (f.object.number - 1) key = none :=
        if_neg fun h => hkey h.2
      rw [hnone, if_neg hkey, Option.none_or]
  · exact if_neg fun h => hj h.1.symm

theorem IsTraced.storeField (h : m.IsTraced) (ctx : Context) (f : FieldAccess) (v : Value) :
    (endOf (Reference.storeField f v ctx m)).IsTraced :=
  h.keep rfl rfl rfl (markAccess_moments _ m) (heapEvolves_modify _ _ fun _ => ⟨rfl, rfl⟩)
    (storeField_follows m f v)

theorem IsNew.isTraced (h : m.IsNew) (hmoments : m.moments = .of []) : m.IsTraced where
  statics := by
    intro d c r hc
    simp [h.classes] at hc
  moments := by
    rw [hmoments, Ghost.val_of]
    exact .singleton _

end Machine

/-- Objects stay what they are, and traced engines stay traced. -/
def MachineRel.traces : MachineRel where
  rel m m' := HeapEvolves m.heap m'.heap ∧ (m.IsTraced → m'.IsTraced)
  refl _ := ⟨.refl _, id⟩
  breakDown _ _ := ⟨.refl _, fun h => h.of_eq rfl rfl rfl⟩
  trans h h' := ⟨h.1.trans h'.1, h'.2 ∘ h.2⟩

/-- An object is changed that keeps its slots. -/
theorem traces_modify (m : Machine) (i : Nat) {f : Object → Object}
    (hf : ∀ o, (f o).type = o.type ∧ (f o).storage = o.storage ∧ (f o).fields = o.fields) :
    MachineRel.traces.rel m { m with heap := m.heap.modify i f } := by
  have hheap : HeapEvolves m.heap (m.heap.modify i f) :=
    heapEvolves_modify _ _ fun o => ⟨(hf o).1, (hf o).2.1⟩
  exact ⟨hheap, fun h =>
    h.change rfl (heapSpares_modify i fun o => (hf o).2) (.refl _) (h.statics.mono hheap)⟩

instance : MachineRel.traces.Regular where
  note _ e := ⟨.refl _, fun h => h.note e⟩
  access _ _ ha := ⟨.refl _, fun h => h.markAccess ha⟩
  guard _ _ := ⟨.refl _, fun h => h.of_eq rfl rfl rfl⟩
  allocate m o :=
    ⟨heapEvolves_push _ _, fun h =>
      h.change rfl (heapSpares_push _ _) (.refl _) (h.statics.mono (heapEvolves_push _ _))⟩
  payload m i f hf := traces_modify m i fun o => by
    rw [hf o]
    exact ⟨rfl, rfl, rfl⟩
  statics {m m' d c r} f h hc hr hf := by
    have hheap : HeapEvolves m'.heap (m'.heap.modify (r.number - 1) f) :=
      heapEvolves_modify _ _ fun o => by
        rw [hf o]
        exact ⟨rfl, rfl⟩
    refine ⟨h.1.trans hheap, fun htraced => ?_⟩
    obtain ⟨o, ho, hstorage⟩ := htraced.statics hc hr
    obtain ⟨o', ho', _, hstorage'⟩ := h.1 ho
    exact (h.2 htraced).change rfl (heapSpares_modify_storage ho' (hstorage'.trans hstorage))
      (.refl _) ((h.2 htraced).statics.mono hheap)
  insert _ _ hnew hc :=
    ⟨.refl _, fun h =>
      h.change rfl (.refl _) (ClassTable.carriesOn_insert hnew) (h.statics.insert hc)⟩
  modify m d f hf :=
    ⟨.refl _, fun h => h.change rfl (.refl _) (ClassTable.carriesOn_modify fun c => (hf c).1)
      (h.statics.modify fun c => by rw [(hf c).1])⟩
  string _ _ h _ := ⟨h.1, fun htraced => (h.2 htraced).of_eq rfl rfl rfl⟩
  mirror _ h _ _ :=
    ⟨h.1, fun htraced => (h.2 htraced).change rfl (.refl _)
      (ClassTable.carriesOn_modify fun _ => rfl) ((h.2 htraced).statics.modify fun _ => rfl)⟩
  aside _ hclasses hheap _ hmoments :=
    ⟨hheap ▸ .refl _, fun h => h.of_eq hclasses hheap hmoments⟩
  mark _ := ⟨.refl _, fun h => h.mark⟩
  contents m i f hf := traces_modify m i fun o => by
    rw [hf o]
    exact ⟨rfl, rfl, rfl⟩
  store m ctx f v := ⟨heapEvolves_modify _ _ fun _ => ⟨rfl, rfl⟩, fun h => h.storeField ctx f v⟩

instance : MachineRel.traces.FreesFrames where
  frames _ _ := ⟨.refl _, fun h => h.of_eq rfl rfl rfl⟩

/-- The request sets a field from outside, past the instructions. -/
def Request.SetsField : Request → Prop
  | .setField _ _ _ _ => True
  | _ => False

section Runs

variable {host : Host} {m m' : Machine}

theorem perform_traced {ctx : Context} [RespectingContext .traces ctx] (request : Request)
    (hmay : ¬request.SetsField) (h : m.IsTraced) : (endOf (request.perform ctx m)).IsTraced := by
  have hrespects : Respects .traces ctx request.perform :=
    respects_perform (fun _ _ _ _ hset => absurd (hset ▸ trivial) hmay)
      fun object _ _ hset => hset ▸ respects_modifyElements object fun _ => rfl
  exact (hrespects m).2 h

/-- The moments of every run lead from each to the next, if no request sets a field. -/
theorem Watched.traced (h : Watched host (fun request _ => ¬request.SetsField) m) : m.IsTraced :=
  h.holds (fun hnew hmoments => hnew.isTraced hmoments)
    (fun hclasses hheap hmoments hm => hm.of_eq hclasses hheap hmoments) (fun e hm => hm.note e)
    fun hmay hm => perform_traced _ hmay hm

end Runs

/-- Along moments that lead from each to the next, no class is lost. -/
theorem classes_of_chain {s s₀ : Moment} {between : List Moment}
    (hchain : (s :: (between ++ [s₀])).IsChain fun later earlier => earlier.LeadsTo later) :
    s₀.classes.CarriesOn s.classes := by
  induction between generalizing s with
  | nil => exact (List.isChain_cons_cons.mp hchain).1.classes
  | cons t between ih =>
      obtain ⟨hleads, hrest⟩ := List.isChain_cons_cons.mp hchain
      exact (ih hrest).trans hleads.classes

/-- Along moments that lead from each to the next, a slot comes to hold what is last stored in it. -/
theorem slot_of_chain {s s₀ : Moment} {between : List Moment} {i : Nat} {o₀ : Object}
    (hchain : (s :: (between ++ [s₀])).IsChain fun later earlier => earlier.LeadsTo later)
    (ho₀ : s₀.heap[i]? = some o₀) (hinstance : o₀.storage = false) :
    ∃ o, s.heap[i]? = some o ∧ o.storage = false ∧ ∀ key,
      o.fields.lookup key = (lastStored (between ++ [s₀]) i key).or (o₀.fields.lookup key) := by
  induction between generalizing s with
  | nil =>
      obtain ⟨o, ho, hinstance', hslots⟩ :=
        (List.isChain_cons_cons.mp hchain).1.heap ho₀ hinstance
      refine ⟨o, ho, hinstance', fun key => ?_⟩
      rw [hslots key, lastStored, List.nil_append, List.findSome?_singleton]
  | cons t between ih =>
      obtain ⟨hleads, hrest⟩ := List.isChain_cons_cons.mp hchain
      obtain ⟨o', ho', hinstance', hslots'⟩ := ih hrest
      obtain ⟨o, ho, hinstance'', hslots⟩ := hleads.heap ho' hinstance'
      refine ⟨o, ho, hinstance'', fun key => ?_⟩
      rw [hslots key, hslots' key, ← Option.or_assoc]
      congr 1
      rw [lastStored, lastStored, List.cons_append, List.findSome?_cons]
      cases t.storedIn i key <;> rfl

end ClassEngine
