import ClassEngine.Proofs.Descriptor.Grammar
import ClassEngine.Proofs.Engine.Assignability
import ClassEngine.Proofs.Engine.Throwing

/-!
New arrays with a length for each of several dimensions. They form a complete tree, in which every
array is new and none is shared. Making them runs no code: all that can fail is loading the types of
the inner arrays. Main result: `new_arrays_are_trees`.
-/

namespace ClassEngine

open Machine Exec Linking Initialization Allocation

section ArrayTypes

variable {host : Host} {steps nesting : Nat} {d s : Descriptor} {c k : RuntimeClass} {m m' : Machine}

/-- Loading an array type cannot fail: it has not failed before, and unless it is ready, the root class
is. -/
structure ClassTable.Loadable (t : ClassTable) (d : Descriptor) : Prop where
  intact : ∀ c, t[d]? = some c → ∀ e, c.state ≠ .failed e
  root : t.Ready Descriptor.object ∨ t.Ready d

/-- A type has been loaded: it is ready, and nothing else is different. -/
structure Machine.Loads (m : Machine) (d : Descriptor) (m' : Machine) : Prop where
  heap : m'.heap = m.heap
  ready : m'.classes.Ready d
  others : ∀ k, k ≠ d → m'.classes[k]? = m.classes[k]?

theorem Machine.Loads.loadable (h : m.Loads d m') (hd : d ≠ Descriptor.object) {k : Descriptor}
    (hk : m.classes.Loadable k) : m'.classes.Loadable k := by
  have hother : ∀ {s}, s ≠ d → m.classes.Ready s → m'.classes.Ready s := by
    intro s hs hready
    rwa [ClassTable.Ready, h.others s hs]
  by_cases hkd : k = d
  · subst hkd
    refine ⟨fun c hc e hstate => ?_, .inr h.ready⟩
    have hready := h.ready.state hc
    rw [hstate] at hready
    rcases hready with h | h <;> contradiction
  · refine ⟨fun c hc => hk.intact c (by rwa [← h.others k hkd]), ?_⟩
    exact hk.root.imp (hother hd.symm) (hother hkd)

/-- A class whose initializer failed is not initialized again. -/
theorem initializeOnce_failed (ctx : Context) (hc : m.classes[d]? = some c)
    (hstate : c.state = .failed none) : ∃ e m', initializeOnce d ctx m = .error e m' := by
  rw [initializeOnce, bind_of_ok (classAt_eq_ok hc), hstate]
  dsimp only
  cases hthrow : (throwNew "java/lang/NoClassDefFoundError"
      ("Could not initialize class " ++ Descriptor.sourceName d) : Exec Unit) ctx m with
  | ok a m' => exact absurd hthrow (throwNew_ne_ok _ _ _ _ _)
  | error e m' => exact ⟨e, m', rfl⟩

/-- Nor is a class below it initialized. -/
theorem initializeClass_fails (host : Host) (steps nesting : Nat) (hc : m.classes[d]? = some c)
    (hstate : c.state = .linked) (hs : c.superclass = some s) (hk : m.classes[s]? = some k)
    (hfailed : k.state = .failed none) :
    ∃ e m', initializeClass d (Session.context host steps (nesting + 2)) m = .error e m' := by
  let m₁ := m.withClasses (m.classes.moved d .initializing)
  have hne : s ≠ d := by
    rintro rfl
    obtain rfl := Option.some.inj (hc.symm.trans hk)
    rw [hstate] at hfailed
    contradiction
  have hk₁ : m₁.classes[s]? = some k := by
    rw [withClasses_classes, ClassTable.getElem?_modify_of_ne hne, hk]
  obtain ⟨e, m₂, hsuper⟩ := initializeOnce_failed (Session.context host steps nesting) hk₁ hfailed
  have hup : initializeSuper c (Session.context host steps (nesting + 1)) m₁ = .error e m₂ := by
    rw [initializeSuper, hs]
    exact hsuper
  have hrun : runInitializers d c (Session.context host steps (nesting + 1)) m₁ = .error e m₂ := by
    rw [runInitializers, bind_of_error hup]
  change ∃ e m', initializeOnce d (Session.context host steps (nesting + 1)) m = .error e m'
  rw [initializeOnce, bind_of_ok (classAt_eq_ok hc), hstate]
  dsimp only
  rw [bind_of_ok (setState_ok d .initializing m), attempt_bind_error hrun]
  dsimp only
  split
  · exact ⟨_, _, rfl⟩
  · exact ⟨_, _, rfl⟩

/-- A type that has failed does not load any more. -/
theorem classFor_failed (host : Host) (steps nesting : Nat) {e : Option Raise}
    (hc : m.classes[d]? = some c) (hstate : c.state = .failed e) :
    ∃ e m', classFor d (Session.context host (steps + 1) (nesting + 1)) m = .error e m' := by
  cases e with
  | some e =>
      have hlink : link d (Session.context host (steps + 1) (nesting + 1)) m =
          .error e (m.breakDown e) := by
        rw [link_eq, context_fuel, linkWithin_registered hc, hstate]
      exact ⟨e, _, by rw [classFor, bind_of_error hlink]⟩
  | none =>
      have hlink : link d (Session.context host (steps + 1) (nesting + 1)) m = .ok () m := by
        rw [link_eq, context_fuel, linkWithin_registered hc, hstate]
      obtain ⟨e, m', hinit⟩ :=
        initializeOnce_failed (Session.context host (steps + 1) nesting) hc hstate
      have hclass : initializeClass d (Session.context host (steps + 1) (nesting + 1)) m =
          .error e m' := hinit
      exact ⟨e, m', by rw [classFor, bind_of_ok hlink, bind_of_error hclass]⟩

/-- An array type that can be read has a component type that can be read. -/
theorem Descriptor.IsFieldType.of_array {d : Descriptor} (h : IsFieldType d) (hd : isArray d = true) :
    ∃ t, d = arrayOf t ∧ t ≠ [] ∧ IsFieldType t := by
  obtain ⟨n, e, he, rfl⟩ := h
  obtain ⟨b, tail, rfl, hb⟩ := he.head
  cases n with
  | zero =>
      have hbracket : (b == Text.ofAscii '[') = true := by simpa [isArray] using hd
      rw [hb] at hbracket
      contradiction
  | succ n => exact ⟨_, rfl, by simp, n, _, he, rfl⟩

/-- The array types that there are, but for the bracket alone, are the ones that can be read. -/
theorem define_arrayOf {t : Descriptor} (hne : t ≠ []) :
    define host (Descriptor.arrayOf t) = .ok (.bare (Descriptor.arrayOf t)) ↔
      Descriptor.IsFieldType (Descriptor.arrayOf t) := by
  have hlong : ¬Descriptor.isPrimitive (Descriptor.arrayOf t) = true := by
    simp [Descriptor.isPrimitive, Descriptor.arrayOf, hne]
  rw [define, if_neg hlong, if_pos (isArray_arrayOf t)]
  constructor
  · intro h
    split at h
    case h_1 => contradiction
    case h_2 hparse => exact (Descriptor.parseType_eq_ok.mp hparse).2
  · intro h
    rw [Descriptor.parseType_eq_ok.mpr ⟨rfl, h⟩]

/-- The component type of an array of arrays is an array type like any other. -/
theorem define_component {c : RuntimeClass} (h : define host d = .ok c)
    (hd : Descriptor.isArray d = true)
    (hcomponent : Descriptor.isArray (Descriptor.component d) = true) :
    define host (Descriptor.component d) = .ok (.bare (Descriptor.component d)) := by
  obtain rfl := define_array hd h
  obtain ⟨t, rfl⟩ : ∃ t, d = Descriptor.arrayOf t := ⟨_, (arrayOf_component hd).symm⟩
  rw [component_arrayOf] at hcomponent ⊢
  have hne : t ≠ [] := by
    rintro rfl
    contradiction
  obtain ⟨s, hs, _, hfield⟩ := ((define_arrayOf hne).mp h).of_array hd
  obtain rfl : t = s := (List.cons.inj hs).2
  obtain ⟨u, rfl, hu, _⟩ := hfield.of_array hcomponent
  exact (define_arrayOf hu).mpr hfield

/-- What comes of loading a linked type for which no code is run depends on the class above it. -/
theorem classFor_linked (host : Host) (steps nesting : Nat) {m₁ : Machine}
    (hlink : link d (Session.context host (steps + 2) (nesting + 2)) m = .ok () m₁)
    (hc : m₁.classes[d]? = some c) (hstate : c.state = .linked) (hquiet : c.IsQuiet)
    (hs : c.superclass = some s) (hstarted : m₁.classes.Started s) :
    (m₁.classes.Ready s ∧
      ∃ c' m', classFor d (Session.context host (steps + 2) (nesting + 2)) m = .ok c' m' ∧
        c'.descriptor = c.descriptor ∧ m₁.Loads d m') ∨
    (¬m₁.classes.Ready s ∧
      ∃ e m', classFor d (Session.context host (steps + 2) (nesting + 2)) m = .error e m') := by
  by_cases hready : m₁.classes.Ready s
  · have hsuper : m₁.classes.SuperReady c := by
      intro s' hs'
      obtain rfl := Option.some.inj (hs.symm.trans hs')
      exact hready
    obtain ⟨m', hinit, hchanges, hc', hother⟩ :=
      initializeClass_quiet host (steps + 2) nesting hc hstate hquiet hsuper
    refine .inl ⟨hready, { c with state := .initialized }, m', ?_, rfl, hchanges.heap,
      ⟨_, hc', .inr rfl⟩, hother⟩
    rw [classFor, bind_of_ok hlink, bind_of_ok hinit]
    exact classAt_eq_ok hc'
  · obtain ⟨k, hk, hkstate⟩ := hstarted
    have hfailed : k.state = .failed none := by
      cases hstate' : k.state with
      | initializing => exact absurd ⟨k, hk, .inl hstate'⟩ hready
      | initialized => exact absurd ⟨k, hk, .inr hstate'⟩ hready
      | failed e =>
          cases e with
          | none => rfl
          | some e => rw [hstate'] at hkstate; exact hkstate.elim
      | _ => rw [hstate'] at hkstate; exact hkstate.elim
    obtain ⟨e, m', hinit⟩ := initializeClass_fails host (steps + 2) nesting hc hstate hs hk hfailed
    exact .inr ⟨hready, e, m', by rw [classFor, bind_of_ok hlink, bind_of_error hinit]⟩

/-- The superclass of an array type is the root class. -/
theorem superName_array (hd : Descriptor.isArray d = true) :
    (RuntimeClass.bare d).superName ≠ [] ∧
      Descriptor.ofInternal (RuntimeClass.bare d).superName = Descriptor.object := by
  have hname : (RuntimeClass.bare d).superName = "java/lang/Object" := if_pos hd
  rw [hname, ofInternal_object]
  exact ⟨by decide, rfl⟩

/-- A new array type is linked at once when the root class is. -/
theorem link_newArrayType (host : Host) (steps nesting : Nat) (hnone : m.classes[d]? = none)
    (harray : Descriptor.isArray d = true) (hdefine : define host d = .ok (.bare d))
    (hroot : m.classes.Linked Descriptor.object) :
    ∃ m₁, link d (Session.context host (steps + 2) nesting) m = .ok () m₁ ∧ m₁.heap = m.heap ∧
      (∀ k, k ≠ d → m₁.classes[k]? = m.classes[k]?) ∧ m₁.classes[d]? =
        some { RuntimeClass.bare d with superclass := some Descriptor.object, state := .linked } := by
  obtain ⟨hne, habove⟩ := superName_array harray
  let entered := m.withClasses (m.classes.insert d (.bare d))
  have hentered : ∀ k, k ≠ d → entered.classes[k]? = m.classes[k]? := by
    intro k hk
    rw [withClasses_classes, ClassTable.getElem?_insert, if_neg hk.symm]
  have hsuper : entered.classes.Linked (Descriptor.ofInternal (RuntimeClass.bare d).superName) := by
    obtain ⟨k, hk, hlinked⟩ := hroot
    refine ⟨k, ?_, hlinked⟩
    rw [habove, hentered, hk]
    rintro rfl
    contradiction
  have henter : enter d (.bare d) (Session.context host (steps + 2) nesting) m = .ok () entered := rfl
  have hlink := link_new hnone hdefine henter fun _ => hsuper
  rw [habove, if_neg hne] at hlink
  refine ⟨_, hlink, rfl, fun k hk => ?_, ?_⟩
  · rw [withClasses_classes, ClassTable.getElem?_modify_of_ne hk, hentered k hk]
  · rw [withClasses_classes, ClassTable.getElem?_modify, if_pos rfl, withClasses_classes,
      ClassTable.getElem?_insert, if_pos rfl]
    rfl

/-- Once the initialization of the root class has begun, an array type loads at once, unless loading it
could fail. -/
theorem classFor_arrayType (host : Host) (steps nesting : Nat) (hinv : m.Inv host)
    (harray : Descriptor.isArray d = true) (hdefine : define host d = .ok (.bare d))
    (hroot : m.classes.Started Descriptor.object) :
    (∃ c m', classFor d (Session.context host (steps + 2) (nesting + 2)) m = .ok c m' ∧
      c.descriptor = d ∧ m.Loads d m') ∨
    ¬m.classes.Loadable d ∧
      ∃ e m', classFor d (Session.context host (steps + 2) (nesting + 2)) m = .error e m' := by
  cases hd : m.classes[d]? with
  | none =>
      have hobject : Descriptor.object ≠ d := by
        rintro rfl
        contradiction
      obtain ⟨m₁, hlink, hheap, hkept, hc₁⟩ :=
        link_newArrayType host steps (nesting + 2) hd harray hdefine hroot.linked
      have hroot₁ : m₁.classes.Started Descriptor.object := by
        rwa [ClassTable.Started, hkept _ hobject]
      rcases classFor_linked host steps nesting hlink hc₁ rfl (isQuiet_of_bare rfl) rfl hroot₁ with
        ⟨_, c, m', hrun, hc, hloads⟩ | ⟨hunready, hrun⟩
      · exact .inl ⟨c, m', hrun, hc, hloads.heap.trans hheap, hloads.ready,
          fun k hk => (hloads.others k hk).trans (hkept k hk)⟩
      · refine .inr ⟨fun h => ?_, hrun⟩
        rcases h.root with hready | ⟨k, hk, _⟩
        · rw [ClassTable.Ready, hkept _ hobject] at hunready
          exact hunready hready
        · rw [hd] at hk
          contradiction
  | some c =>
      have hdescriptor := hinv.table.descriptor hd
      by_cases hready : c.state = .initializing ∨ c.state = .initialized
      · exact .inl ⟨c, m, classFor_ready host (steps + 1) (nesting + 1) hd hready, hdescriptor,
          rfl, ⟨c, hd, hready⟩, fun _ _ => rfl⟩
      have hunready : ¬m.classes.Ready d := fun h => hready (h.state hd)
      cases hstate : c.state with
      | linking => exact absurd hstate (hinv.table.not_linking hd)
      | initializing => exact absurd (.inl hstate) hready
      | initialized => exact absurd (.inr hstate) hready
      | linked =>
          have hlinked : c.state.IsLinked := by
            rw [hstate]
            trivial
          obtain ⟨hne, habove⟩ := superName_array harray
          have hsuper := hinv.table.superclass hd hlinked hdefine
          rw [if_neg hne, habove] at hsuper
          obtain ⟨c₀, hc₀, hdefined⟩ := hinv.table.defined hd
          obtain rfl := Except.ok.inj (hdefine.symm.trans hc₀)
          have hlink : link d (Session.context host (steps + 2) (nesting + 2)) m = .ok () m := by
            rw [link_eq, context_fuel, linkWithin_linked hd hlinked]
          rcases classFor_linked host steps nesting hlink hd hstate (isQuiet_of_bare hdefined) hsuper
            hroot with ⟨_, c', m', hrun, hc', hloads⟩ | ⟨hfailed, hrun⟩
          · exact .inl ⟨c', m', hrun, hc'.trans hdescriptor, hloads⟩
          · exact .inr ⟨fun h => h.root.elim hfailed hunready, hrun⟩
      | failed e =>
          refine .inr ⟨fun h => h.intact c hd e hstate, ?_⟩
          exact classFor_failed host (steps + 1) (nesting + 1) hd hstate

/-- The initialization of an array type begins with that of the root class. -/
theorem Machine.Inv.root_started (hinv : m.Inv host) (hd : m.classes.Started d)
    (harray : Descriptor.isArray d = true) : m.classes.Started Descriptor.object := by
  obtain ⟨c, hc, hstate⟩ := hd
  obtain ⟨c₀, hdefine, _⟩ := hinv.table.defined hc
  have hsuper := hinv.table.superclass hc hstate.isLinked hdefine
  obtain ⟨hne, habove⟩ := superName_array harray
  rw [define_array harray hdefine, if_neg hne, habove] at hsuper
  exact (hinv.supers hc hstate hsuper).resolve_right nofun

end ArrayTypes

namespace Arrays

/-- `r` is an array of type `d` at the root of a complete tree of arrays: it is as long as the first
count. If that is the last one, its elements are defaults, and otherwise each refers to a tree for the
component type and the other counts. The arrays of the tree are listed, outer ones first. -/
def IsTree (heap : Array Object) : Descriptor → List Nat → Ref → List Ref → Prop
  | _, [], _, _ => False
  | d, [n], r, refs => refs = [r] ∧ heap[r.number - 1]? =
      some (.array d (.replicate n (Value.default (Descriptor.component d))))
  | d, n :: n' :: inner, r, refs => ∃ (parts : List Ref) (below : List (List Ref)),
      parts.length = n ∧ heap[r.number - 1]? = some (.array d (parts.map Value.ref).toArray) ∧
      List.Forall₂ (IsTree heap (Descriptor.component d) (n' :: inner)) parts below ∧
      refs = r :: below.flatten

/-- A heap has grown: the objects are as they were, and the listed ones are new and different. -/
structure Grown (heap heap' : Array Object) (refs : List Ref) : Prop where
  kept : ∀ {i : Nat} {o : Object}, heap[i]? = some o → heap'[i]? = some o
  new : ∀ r ∈ refs, heap.size < r.number ∧ r.number ≤ heap'.size
  nodup : refs.Nodup

section Trees

variable {heap heap' heap'' : Array Object} {d : Descriptor} {counts : List Nat} {r : Ref}
  {refs refs' : List Ref}

theorem Grown.size_le (h : Grown heap heap' refs) : heap.size ≤ heap'.size := by
  by_contra hlt
  rw [Nat.not_le] at hlt
  have hkept := h.kept (Array.getElem?_eq_getElem hlt)
  simp at hkept

theorem Grown.refl (heap : Array Object) : Grown heap heap [] :=
  ⟨id, nofun, .nil⟩

theorem Grown.append (h : Grown heap heap' refs) (h' : Grown heap' heap'' refs') :
    Grown heap heap'' (refs ++ refs') where
  kept ho := h'.kept (h.kept ho)
  new r hr := by
    have hle := h.size_le
    have hle' := h'.size_le
    rcases List.mem_append.mp hr with hr | hr
    · have hnew := h.new r hr
      omega
    · have hnew := h'.new r hr
      omega
  nodup := by
    refine h.nodup.append h'.nodup fun r hr hr' => ?_
    have hold := h.new r hr
    have hnew := h'.new r hr'
    omega

/-- What is new in the first place is not touched later. -/
theorem Grown.same (h : Grown heap heap' refs) (h' : Grown heap' heap'' refs') (hr : r ∈ refs) :
    heap''[r.number - 1]? = heap'[r.number - 1]? := by
  have hnew := h.new r hr
  have hlt : r.number - 1 < heap'.size := by omega
  rw [Array.getElem?_eq_getElem hlt]
  exact h'.kept (Array.getElem?_eq_getElem hlt)

/-- What is true of all the references below is true of those below each part. -/
theorem forall₂_of_flatten {R S : Ref → List Ref → Prop} {P : Ref → Prop} {parts : List Ref}
    {below : List (List Ref)} (h : List.Forall₂ R parts below) (hP : ∀ x ∈ below.flatten, P x)
    (himp : ∀ r refs, R r refs → (∀ x ∈ refs, P x) → S r refs) : List.Forall₂ S parts below := by
  induction h with
  | nil => exact .nil
  | cons hpart _ ih =>
      rw [List.flatten_cons] at hP
      exact .cons (himp _ _ hpart fun x hx => hP x (List.mem_append_left _ hx))
        (ih fun x hx => hP x (List.mem_append_right _ hx))

/-- A tree depends on nothing but its arrays. -/
theorem IsTree.congr (h : IsTree heap d counts r refs)
    (hsame : ∀ x ∈ refs, heap'[x.number - 1]? = heap[x.number - 1]?) :
    IsTree heap' d counts r refs := by
  induction counts generalizing d r refs with
  | nil => exact h
  | cons n inner ih =>
      cases inner with
      | nil =>
          obtain ⟨rfl, hr⟩ := h
          exact ⟨rfl, (hsame r List.mem_cons_self).trans hr⟩
      | cons n' inner =>
          obtain ⟨parts, below, hlength, hr, hparts, rfl⟩ := h
          have hbelow : ∀ x ∈ below.flatten, heap'[x.number - 1]? = heap[x.number - 1]? :=
            fun x hx => hsame x (List.mem_cons_of_mem r hx)
          exact ⟨parts, below, hlength, (hsame r List.mem_cons_self).trans hr,
            forall₂_of_flatten hparts hbelow fun _ _ => ih, rfl⟩

theorem grown_push (heap : Array Object) (o : Object) : Grown heap (heap.push o) [⟨heap.size + 1⟩] where
  kept {i _} ho := by
    obtain ⟨hi, _⟩ := Array.getElem?_eq_some_iff.mp ho
    rw [Array.getElem?_push_lt hi, ← Array.getElem?_eq_getElem hi, ho]
  new r hr := by
    obtain rfl := List.mem_singleton.mp hr
    simp
  nodup := List.nodup_singleton _

/-- What is new may still be changed. -/
theorem Grown.modify {i : Nat} (h : Grown heap heap' refs) (hi : heap.size ≤ i) (f : Object → Object) :
    Grown heap (heap'.modify i f) refs where
  kept {j _} ho := by
    obtain ⟨hj, _⟩ := Array.getElem?_eq_some_iff.mp ho
    rw [Array.getElem?_modify, if_neg (by omega), h.kept ho]
  new r hr := by
    rw [Array.size_modify]
    exact h.new r hr
  nodup := h.nodup

/-- The outer array is filled when the trees below it are there. -/
theorem isTree_filled {n' i : Nat} {inner : List Nat} {elements : Array Value} {parts : List Ref}
    {below : List (List Ref)} (ho : heap[i]? = some (.array d elements))
    (htrees : List.Forall₂ (IsTree heap (Descriptor.component d) (n' :: inner)) parts below)
    (hafter : ∀ x ∈ below.flatten, i + 1 < x.number) :
    IsTree (heap.modify i fun o => { o with elements := (parts.map Value.ref).toArray }) d
      (parts.length :: n' :: inner) ⟨i + 1⟩ (⟨i + 1⟩ :: below.flatten) := by
  refine ⟨parts, below, rfl, ?_, ?_, rfl⟩
  · rw [Nat.add_sub_cancel, Array.getElem?_modify, if_pos rfl, ho]
    rfl
  · refine forall₂_of_flatten htrees hafter fun r refs htree hrefs => htree.congr fun x hx => ?_
    have hlt := hrefs x hx
    rw [Array.getElem?_modify, if_neg (by omega)]

end Trees

section Building

variable {host : Host} {steps nesting : Nat} {d : Descriptor} {counts : List Nat} {levels : Nat}
  {e : Raise} {m m' m'' : Machine} {refs refs' : List Ref}

/-- An engine in which there are new objects and classes have been loaded. -/
structure Planted (host : Host) (m m' : Machine) (refs : List Ref) : Prop where
  grown : Grown m.heap m'.heap refs
  inv : m'.Inv host
  classes : m.classes.Evolves m'.classes
  loadable : ∀ {d : Descriptor}, m.classes.Loadable d → m'.classes.Loadable d

theorem Planted.refl (hinv : m.Inv host) : Planted host m m [] :=
  ⟨.refl m.heap, hinv, .refl m.classes, id⟩

theorem Planted.trans (h : Planted host m m' refs) (h' : Planted host m' m'' refs') :
    Planted host m m'' (refs ++ refs') :=
  ⟨h.grown.append h'.grown, h'.inv, h.classes.trans h'.classes, fun hd => h'.loadable (h.loadable hd)⟩

/-- The failure to load the type of an inner array, `k` levels below the outermost one. It is a type
for which that could be told from the start. -/
def Unloaded (ctx : Context) (d : Descriptor) (levels : Nat) (m : Machine) (e : Raise) (m' : Machine) :
    Prop :=
  ∃ k, 0 < k ∧ k < levels ∧ ¬m.classes.Loadable (d.drop k) ∧
    ∃ m₁, classFor (d.drop k) ctx m₁ = .error e m'

theorem Unloaded.after {ctx : Context} (h : Unloaded ctx d levels m' e m'')
    (hplanted : Planted host m m' refs) : Unloaded ctx d levels m e m'' := by
  obtain ⟨k, hpos, hlt, hunloadable, hfails⟩ := h
  exact ⟨k, hpos, hlt, fun hd => hunloadable (hplanted.loadable hd), hfails⟩

theorem Unloaded.below {ctx : Context} (h : Unloaded ctx (Descriptor.component d) levels m e m')
    (hd : Descriptor.isArray d = true) : Unloaded ctx d (levels + 1) m e m' := by
  obtain ⟨k, _, hlt, hk⟩ := h
  refine ⟨k + 1, by omega, by omega, ?_⟩
  rwa [Descriptor.component, if_pos hd, List.drop_drop, Nat.add_comm] at hk

/-- Making an array of arrays gives a new tree, unless the type of an inner array fails to load. -/
def Plants (host : Host) (ctx : Context) (d : Descriptor) (counts : List Nat) (m : Machine) : Prop :=
  (∃ r m' refs, build d counts ctx m = .ok r m' ∧ IsTree m'.heap d counts r refs ∧
    Planted host m m' refs) ∨
  ∃ e m', build d counts ctx m = .error e m' ∧ Unloaded ctx d counts.length m e m'

/-- The same for a number of arrays, one after the other. -/
theorem replicateOnto_plants {ctx : Context}
    (hbuild : ∀ m, m.Inv host → m.classes.Started d → Plants host ctx d counts m)
    (hinv : m.Inv host) (hd : m.classes.Started d) (acc : Array Value) (n : Nat) :
    (∃ (parts : List Ref) (below : List (List Ref)) (m' : Machine),
      replicateOnto (do pure (.ref (← build d counts))) acc n ctx m =
        .ok (acc ++ (parts.map Value.ref).toArray) m' ∧
      parts.length = n ∧ List.Forall₂ (IsTree m'.heap d counts) parts below ∧
      Planted host m m' below.flatten) ∨
    ∃ e m', replicateOnto (do pure (.ref (← build d counts))) acc n ctx m = .error e m' ∧
      Unloaded ctx d counts.length m e m' := by
  induction n generalizing m acc with
  | zero => exact .inl ⟨[], [], m, by simp [replicateOnto]; rfl, rfl, .nil, .refl hinv⟩
  | succ n ih =>
      rcases hbuild m hinv hd with ⟨r, m₁, refs, hrun, htree, hplanted⟩ | ⟨e, m', hrun, hfails⟩
      · have hpart : (do pure (.ref (← build d counts)) : Exec Value) ctx m = .ok (.ref r) m₁ := by
          rw [bind_of_ok hrun]
          rfl
        rcases ih hplanted.inv (hplanted.classes.started hd) (acc.push (.ref r)) with
          ⟨parts, below, m', hrest, hlength, hparts, hplanted'⟩ | ⟨e, m', hrest, hfails⟩
        · refine .inl ⟨r :: parts, refs :: below, m', ?_, by simp [hlength], .cons ?_ hparts,
            hplanted.trans hplanted'⟩
          · rw [replicateOnto, bind_of_ok hpart, hrest]
            simp
          · exact htree.congr fun x hx => hplanted.grown.same hplanted'.grown hx
        · exact .inr ⟨e, m', by rw [replicateOnto, bind_of_ok hpart, hrest], hfails.after hplanted⟩
      · have hpart : (do pure (.ref (← build d counts)) : Exec Value) ctx m = .error e m' :=
          bind_of_error hrun
        exact .inr ⟨e, m', by rw [replicateOnto, bind_of_error hpart], hfails⟩

/-- Loading the type of the components makes no object. -/
theorem classFor_component (host : Host) (steps nesting : Nat) (hinv : m.Inv host)
    (hd : m.classes.Started d) (harray : Descriptor.isArray d = true)
    (hcomponent : Descriptor.isArray (Descriptor.component d) = true) :
    (∃ c m', classFor (Descriptor.component d) (Session.context host (steps + 2) (nesting + 2)) m =
        .ok c m' ∧
      c.descriptor = Descriptor.component d ∧ m'.classes.Started (Descriptor.component d) ∧
      Planted host m m' []) ∨
    ∃ e m', classFor (Descriptor.component d) (Session.context host (steps + 2) (nesting + 2)) m =
        .error e m' ∧
      ∀ levels, 1 < levels →
        Unloaded (Session.context host (steps + 2) (nesting + 2)) d levels m e m' := by
  have hroot := hinv.root_started hd harray
  obtain ⟨c₀, hc₀, _⟩ := hd
  obtain ⟨_, hdefine, _⟩ := hinv.table.defined hc₀
  have hinner := define_component hdefine harray hcomponent
  have hsound : Sound (Session.context host (steps + 2) (nesting + 2)) (fun _ => True)
      (classFor (Descriptor.component d)) _ := sound_classFor _
  rcases classFor_arrayType host steps nesting hinv hcomponent hinner hroot with
    ⟨c, m', hrun, hc, hloads⟩ | ⟨hunloadable, e, m', hrun⟩
  · have hobject : Descriptor.component d ≠ Descriptor.object := by
      intro hobject
      rw [hobject] at hcomponent
      contradiction
    exact .inl ⟨c, m', hrun, hc, hloads.ready.started, hloads.heap ▸ .refl m.heap,
      (hsound.of_ok hinv trivial hrun).1, (hsound.evolves_of_ok hrun).classes, hloads.loadable hobject⟩
  · refine .inr ⟨e, m', hrun, fun levels hlevels => ⟨1, by omega, hlevels, ?_⟩⟩
    have hdrop : d.drop 1 = Descriptor.component d := by
      rw [Descriptor.component, if_pos harray]
    rw [hdrop]
    exact ⟨hunloadable, m, hrun⟩

/-- An array of arrays is there before its components, and is filled when they are. -/
theorem build_node {n n' : Nat} {inner : List Nat} (hinv : m.Inv host) (hd : m.classes.Started d)
    (harray : Descriptor.isArray d = true)
    (hcomponent : Descriptor.isArray (Descriptor.component d) = true)
    (hbuild : ∀ m, m.Inv host → m.classes.Started (Descriptor.component d) →
      Plants host (Session.context host (steps + 2) (nesting + 2)) (Descriptor.component d)
        (n' :: inner) m) :
    Plants host (Session.context host (steps + 2) (nesting + 2)) d (n :: n' :: inner) m := by
  let o : Object := .array d (.replicate n .null)
  let m₁ : Machine := { m with heap := m.heap.push o }
  have hallocate : allocate o (Session.context host (steps + 2) (nesting + 2)) m =
      .ok ⟨m.heap.size + 1⟩ m₁ := rfl
  have hnulls : ∀ v ∈ (Array.replicate n Value.null), m.moment.Fits (Descriptor.component d) v := by
    intro v hv
    rw [(Array.mem_replicate.mp hv).2]
    exact .null
  have hallocates : Sound (Session.context host (steps + 2) (nesting + 2)) _ (allocate o) _ :=
    sound_allocateArray (.replicate n .null)
  have hinv₁ : m₁.Inv host := (hallocates.of_ok hinv ⟨hd, fun _ => hnulls⟩ hallocate).1
  have hfirst : Planted host m m₁ [⟨m.heap.size + 1⟩] := ⟨grown_push m.heap o, hinv₁, .refl _, id⟩
  have hd₁ : m₁.classes.Started d := hd
  rcases classFor_component host steps nesting hinv₁ hd₁ harray hcomponent with
    ⟨c, m₂, hclass, hc, hd₂, hsecond⟩ | ⟨e, m', hclass, hfails⟩
  case inr =>
    refine .inr ⟨e, m', ?_, (hfails _ (by simp)).after hfirst⟩
    unfold build
    rw [bind_of_ok hallocate, bind_of_error hclass]
  have hbuilt : Planted host m m₂ [⟨m.heap.size + 1⟩] := hfirst.trans hsecond
  rcases replicateOnto_plants hbuild hsecond.inv hd₂ #[] n with
    ⟨parts, below, m₃, hparts, hlength, htrees, hthird⟩ | ⟨e, m', hparts, hfails⟩
  case inr =>
    refine .inr ⟨e, m', ?_, (hfails.after hbuilt).below harray⟩
    unfold build
    rw [bind_of_ok hallocate, bind_of_ok hclass, hc, bind_of_error hparts]
  rw [Array.empty_append] at hparts
  subst hlength
  let fill : Object → Object := fun o => { o with elements := (parts.map Value.ref).toArray }
  have hrun : build d (parts.length :: n' :: inner)
      (Session.context host (steps + 2) (nesting + 2)) m =
      .ok ⟨m.heap.size + 1⟩ { m₃ with heap := m₃.heap.modify m.heap.size fill } := by
    unfold build
    rw [bind_of_ok hallocate, bind_of_ok hclass, hc, bind_of_ok hparts]
    rfl
  have hall : Planted host m m₃ (⟨m.heap.size + 1⟩ :: below.flatten) := hbuilt.trans hthird
  have hsound : Sound (Session.context host (steps + 2) (nesting + 2))
      (fun m => m.classes.Started d) (build d (parts.length :: n' :: inner)) _ := sound_build _ _
  have ho : m₃.heap[m.heap.size]? = some o :=
    hthird.grown.kept (hsecond.grown.kept Array.getElem?_push_size)
  have hafter : ∀ x ∈ below.flatten, m.heap.size + 1 < x.number := by
    intro x hx
    have hold := (hbuilt.grown.new _ List.mem_cons_self).2
    exact Nat.lt_of_le_of_lt hold (hthird.grown.new x hx).1
  exact .inl ⟨_, _, _, hrun, isTree_filled ho htrees hafter, hall.grown.modify (Nat.le_refl _) fill,
    (hsound.of_ok hinv hd hrun).1, hall.classes, hall.loadable⟩

/-- Making an array with a length for each of its outer dimensions gives a new tree, unless the type of
an inner array fails to load. -/
theorem build_plants (hinv : m.Inv host) (hd : m.classes.Started d) (hcounts : counts ≠ [])
    (hdimensions : counts.length ≤ Descriptor.dimensions d) :
    Plants host (Session.context host (steps + 2) (nesting + 2)) d counts m := by
  induction counts generalizing d m with
  | nil => contradiction
  | cons n inner ih =>
      have harray : Descriptor.isArray d = true := by
        rw [List.length_cons] at hdimensions
        exact isArray_of_dimensions (by omega)
      rw [dimensions_component harray, List.length_cons, Nat.add_le_add_iff_right] at hdimensions
      cases inner with
      | nil =>
          let o : Object := .array d (.replicate n (Value.default (Descriptor.component d)))
          have hrun : build d [n] (Session.context host (steps + 2) (nesting + 2)) m =
              .ok ⟨m.heap.size + 1⟩ { m with heap := m.heap.push o } := rfl
          have hsound : Sound (Session.context host (steps + 2) (nesting + 2))
              (fun m => m.classes.Started d) (build d [n]) _ := sound_build _ _
          exact .inl ⟨_, _, _, hrun, ⟨rfl, Array.getElem?_push_size⟩, grown_push m.heap o,
            (hsound.of_ok hinv hd hrun).1, .refl _, id⟩
      | cons n' inner =>
          have hcomponent : Descriptor.isArray (Descriptor.component d) = true := by
            rw [List.length_cons] at hdimensions
            exact isArray_of_dimensions (by omega)
          exact build_node hinv hd harray hcomponent fun m hinv hd => ih hinv hd nofun hdimensions

end Building

section Counts

variable {d : Descriptor} {counts before after : List Int32} {n : Int32}

/-- The first negative count is complained about, and nothing is done before. -/
theorem alloc_negative (hcounts : counts = before ++ n :: after) (hbefore : ∀ k ∈ before, 0 ≤ k)
    (hn : n < 0) : alloc d counts =
      throwNew "java/lang/NegativeArraySizeException" (Text.ofInt n.toInt) := by
  have hfirst : counts.find? (· < 0) = some n := by
    rw [List.find?_eq_some_iff_append]
    refine ⟨by simpa using hn, before, after, hcounts, fun k hk => ?_⟩
    simpa using hbefore k hk
  rw [alloc, hfirst]

theorem alloc_of_nonneg (h : ∀ n ∈ counts, 0 ≤ n) :
    alloc d counts = build d (counts.map fun n => n.toInt.toNat) := by
  have hnone : counts.find? (· < 0) = none := by
    rw [List.find?_eq_none]
    intro n hn
    simpa using h n hn
  rw [alloc, hnone]

end Counts

/-- A new array of a class, whose initialization has begun as that of every class in use, with a length
for each of its outer dimensions. If some length is negative, the exception for the first such length is
thrown, and nothing is allocated before. Otherwise what is made is a complete tree of arrays, which are
all different and new, while older objects stay as they are; at the ends are default values, which are
null for references. It is made unless the type of an inner array fails to load, and that only happens
if that type, or the root class, had failed before. -/
theorem new_arrays_are_trees {host : Host} {steps nesting : Nat} {m : Machine} {d : Descriptor}
    (hinv : m.Inv host) (hd : m.classes.Started d) {counts : List Int32} (hcounts : counts ≠ [])
    (hdimensions : counts.length ≤ Descriptor.dimensions d) :
    let ctx := Session.context host (steps + 2) (nesting + 2)
    (∀ before n after, counts = before ++ n :: after → (∀ k ∈ before, 0 ≤ k) → n < 0 →
      Throws ctx "java/lang/NegativeArraySizeException" (Text.ofInt n.toInt) (alloc d counts) m m) ∧
    ((∀ n ∈ counts, 0 ≤ n) →
      (∀ r m', alloc d counts ctx m = .ok r m' →
        ∃ refs, IsTree m'.heap d (counts.map fun n => n.toInt.toNat) r refs ∧
          Grown m.heap m'.heap refs) ∧
      (∀ e m', alloc d counts ctx m = .error e m' → Unloaded ctx d counts.length m e m') ∧
      ((∀ k, 0 < k → k < counts.length → m.classes.Loadable (d.drop k)) →
        ∃ r m', alloc d counts ctx m = .ok r m')) ∧
    (Descriptor.isPrimitive (d.drop counts.length) = false →
      Value.default (d.drop counts.length) = .null) := by
  intro ctx
  refine ⟨fun before n after hsplit hbefore hn => ?_, fun hnonneg => ?_, Value.default_of_reference⟩
  · exact throws_of_eq hinv (by rw [alloc_negative hsplit hbefore hn])
  rw [alloc_of_nonneg hnonneg]
  have hplants : Plants host ctx d (counts.map fun n => n.toInt.toNat) m :=
    build_plants hinv hd (by simpa using hcounts) (by simpa using hdimensions)
  rcases hplants with ⟨r, m', refs, hrun, htree, hplanted⟩ | ⟨e, m', hrun, hfails⟩
  · rw [hrun]
    refine ⟨fun r' m'' hsame => ?_, fun _ _ h => by contradiction, fun _ => ⟨r, m', rfl⟩⟩
    obtain ⟨rfl, rfl⟩ := EStateM.Result.ok.inj hsame
    exact ⟨refs, htree, hplanted.grown⟩
  · rw [List.length_map] at hfails
    rw [hrun]
    refine ⟨fun _ _ h => by contradiction, fun e' m'' hsame => ?_, fun hloadable => ?_⟩
    · obtain ⟨rfl, rfl⟩ := EStateM.Result.error.inj hsame
      exact hfails
    · obtain ⟨k, hpos, hlt, hunloadable, _⟩ := hfails
      exact absurd (hloadable k hpos hlt) hunloadable

/-- An array of two empty rows, and a row of negative length in an array without rows. -/
theorem new_arrays_are_trees_grid : ∃ m : Machine, m.Inv rootHost ∧ m.classes.Started "[[I" ∧
    (∃ r m' refs, alloc "[[I" [2, 0] (Session.context rootHost 9 9) m = .ok r m' ∧
      IsTree m'.heap "[[I" [2, 0] r refs ∧ Grown m.heap m'.heap refs) ∧
    Throws (Session.context rootHost 9 9) "java/lang/NegativeArraySizeException" "-1"
      (alloc "[[I" [0, -1]) m m := by
  have hgrid : Descriptor.ofInternal "[[I" = "[[I" := by decide
  obtain ⟨m₁, hm₁, hholds₁⟩ := (used_fresh rootHost fun _ _ => True).load holds_fresh ofInternal_object
    (by simp) rfl ⟨by simp, rfl⟩ (.inl rfl) trivial
  obtain ⟨m, hm, hholds⟩ := hm₁.load hholds₁ hgrid (by decide) rfl ⟨nofun, rfl⟩ (.inr (by decide))
    trivial
  have hinv := hm.reachable.inv
  have hstarted : m.classes.Started "[[I" := by
    obtain ⟨c, hc, hstate⟩ := hholds.initialized "[[I" (by decide)
    exact ⟨c, hc, by rw [hstate]; trivial⟩
  have hrow : m.classes.Loadable "[I" := by
    obtain ⟨c, hc, hstate⟩ := hholds.initialized Descriptor.object (by decide)
    refine ⟨fun c hc => ?_, .inl ⟨c, hc, .inr hstate⟩⟩
    rw [hholds.others _ (by decide)] at hc
    contradiction
  refine ⟨m, hinv, hstarted, ?_, ?_⟩
  · obtain ⟨_, hmade, _⟩ :=
      @new_arrays_are_trees rootHost 7 7 m "[[I" hinv hstarted [2, 0] nofun (by decide)
    obtain ⟨htree, _, hsucceeds⟩ :=
      hmade (List.forall_mem_cons.mpr ⟨by decide, List.forall_mem_singleton.mpr (by decide)⟩)
    obtain ⟨r, m', hrun⟩ := hsucceeds fun k hpos hlt => by
      obtain rfl : k = 1 := by
        rw [List.length_cons, List.length_singleton] at hlt
        omega
      exact hrow
    obtain ⟨refs, hrefs⟩ := htree r m' hrun
    exact ⟨r, m', refs, hrun, hrefs⟩
  · obtain ⟨hnegative, _⟩ :=
      @new_arrays_are_trees rootHost 7 7 m "[[I" hinv hstarted [0, -1] nofun (by decide)
    exact hnegative [0] (-1) [] rfl (List.forall_mem_singleton.mpr (by decide)) (by decide)

end Arrays

end ClassEngine
