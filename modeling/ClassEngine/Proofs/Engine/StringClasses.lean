import ClassEngine.Library.Lang
import ClassEngine.Proofs.Engine.BuiltClasses
import ClassEngine.Proofs.Engine.Reporting

/-!
The classes that strings are made with, as the library has them. They load at once, their members
are found in them, and using them changes nothing but what they remember and what is recorded.
-/

namespace ClassEngine

open Machine Exec Linking Resolution

/-- The class is initialized, and what is remembered of its members is right. -/
structure RuntimeClass.IsIntact (c : RuntimeClass) (s : ClassSource) : Prop where
  built : c.IsBuiltFrom s
  superclass : c.superclass =
    if s.superName = [] then none else some (Descriptor.ofInternal s.superName)
  initialized : c.state = .initialized
  remembered : ∀ {ref : MemberRef} {owner : Descriptor}, c.resolved[ref]? = some owner →
    ref.methodIn c = true ∨ ref.fieldIn c = true → owner = c.descriptor

/-- The array type is linked, and has not failed since. -/
structure RuntimeClass.IsUsableArray (c : RuntimeClass) (d : Descriptor) : Prop where
  defined : c.DefinedBy (.bare d)
  superclass : c.superclass = some Descriptor.object
  usable : c.state = .linked ∨ c.state = .initializing ∨ c.state = .initialized

theorem RuntimeClass.IsUsableArray.descriptor {c : RuntimeClass} {d : Descriptor}
    (h : c.IsUsableArray d) : c.descriptor = d := by
  rw [h.defined]
  rfl

namespace Machine

/-- A class of the library is there as it is described. -/
def HasIntact (m : Machine) (s : ClassSource) : Prop :=
  ∃ c, m.classes[Descriptor.ofInternal s.name]? = some c ∧ c.IsIntact s

/-- The classes that strings are made with are those of the library, they are initialized, and
nothing has changed them. -/
structure HasStrings (m : Machine) : Prop where
  object : m.HasIntact Library.objectClass
  string : m.HasIntact Library.stringClass
  system : m.HasIntact Library.systemClass
  bytes : ∀ c, m.classes[("[B" : Text)]? = some c → c.IsUsableArray "[B"
  arraycopy : m.natives.find? Library.systemName "arraycopy" Library.arraycopyType =
    some (.builtin .arraycopy)

/-- An engine is as it was, but for what classes remember and what is counted or recorded. -/
structure Resembles (m m' : Machine) : Prop where
  rest : m' = { m with
    classes := m'.classes
    profiler := m'.profiler
    becameHot := m'.becameHot
    history := m'.history
    moments := m'.moments }
  strings : m.HasStrings → m'.HasStrings

section Resembles

variable {m m' m'' : Machine}

theorem Resembles.refl (m : Machine) : m.Resembles m :=
  ⟨rfl, id⟩

theorem Resembles.trans (h : m.Resembles m') (h' : m'.Resembles m'') : m.Resembles m'' where
  rest := by rw [h'.rest, h.rest]
  strings hm := h'.strings (h.strings hm)

/-- The classes that strings are made with have nothing to do with objects and frames. -/
theorem HasStrings.of_eq (h : m.HasStrings) (hclasses : m'.classes = m.classes)
    (hnatives : m'.natives = m.natives) : m'.HasStrings := by
  refine ⟨?_, ?_, ?_, ?_, hnatives ▸ h.arraycopy⟩
  · rw [HasIntact, hclasses]
    exact h.object
  · rw [HasIntact, hclasses]
    exact h.string
  · rw [HasIntact, hclasses]
    exact h.system
  · rw [hclasses]
    exact h.bytes

/-- Other frames are put in place in both. -/
theorem Resembles.withFrames (h : m.Resembles m') (frames : List Frame) :
    Resembles { m with frames } { m' with frames } where
  rest := by rw [h.rest]
  strings hm := (h.strings (hm.of_eq rfl rfl)).of_eq rfl rfl

theorem Resembles.withHeap (h : m.Resembles m') (heap : Array Object) :
    Resembles { m with heap } { m' with heap } where
  rest := by rw [h.rest]
  strings hm := (h.strings (hm.of_eq rfl rfl)).of_eq rfl rfl

theorem Resembles.withInterned (h : m.Resembles m') (interned : Std.HashMap Text Value) :
    Resembles { m with interned } { m' with interned } where
  rest := by rw [h.rest]
  strings hm := (h.strings (hm.of_eq rfl rfl)).of_eq rfl rfl

theorem Resembles.heap (h : m.Resembles m') : m'.heap = m.heap := by
  rw [h.rest]

theorem Resembles.interned (h : m.Resembles m') : m'.interned = m.interned := by
  rw [h.rest]

theorem Resembles.frames (h : m.Resembles m') : m'.frames = m.frames := by
  rw [h.rest]

theorem Resembles.maxDepth (h : m.Resembles m') : m'.maxDepth = m.maxDepth := by
  rw [h.rest]

/-- What is recorded is of no matter, and neither is what is counted. -/
theorem resembles_of_same (hrest : m' = { m with
    profiler := m'.profiler
    becameHot := m'.becameHot
    history := m'.history
    moments := m'.moments }) : m.Resembles m' where
  rest := by
    rw [hrest]
  strings hm := by
    rw [hrest]
    exact hm.of_eq rfl rfl

theorem resembles_note (m : Machine) (e : Event) : m.Resembles (m.note e) :=
  resembles_of_same rfl

theorem resembles_markAccess (m : Machine) (a : Access) : m.Resembles (m.markAccess a) :=
  resembles_of_same rfl

theorem resembles_mark (m : Machine) : m.Resembles m.mark :=
  resembles_of_same rfl

theorem resembles_profile (m : Machine) (method : Method) (ctx : Context) :
    ∃ m', Interpreter.profile method ctx m = .ok () m' ∧ m.Resembles m' := by
  cases hprofiler : m.profiler with
  | none => exact ⟨m, profile_off hprofiler, .refl m⟩
  | some p =>
      refine ⟨_, rfl, resembles_of_same ?_⟩
      dsimp only
      rw [hprofiler]

end Resembles

section Remembering

variable {m : Machine} {s : ClassSource}

/-- What a class remembers of its own members does not spoil a class. -/
theorem HasIntact.remembering (h : m.HasIntact s) (d : Descriptor) (ref : MemberRef) :
    (m.remembering d ref).HasIntact s := by
  obtain ⟨c, hc, hintact⟩ := h
  by_cases hd : d = Descriptor.ofInternal s.name
  · have hkeeps : c.Keeps { c with resolved := c.resolved.insert ref d } := rfl
    obtain ⟨file, c₀, hbuild, hfile, hdefined⟩ := hintact.built
    refine ⟨_, hd ▸ remembering_self (hd ▸ hc), ⟨file, c₀, hbuild, hfile, hdefined.of_keeps hkeeps⟩,
      hintact.superclass, hintact.initialized, fun howner hdeclares => ?_⟩
    rw [Std.HashMap.getElem?_insert] at howner
    split at howner
    · exact (Option.some.inj howner).symm.trans (hd.trans hintact.built.descriptor.symm)
    · exact hintact.remembered howner hdeclares
  · refine ⟨c, ?_, hintact⟩
    rw [Machine.remembering, withClasses_classes, ClassTable.getElem?_modify, if_neg hd, hc]

theorem resembles_remembering (m : Machine) (d : Descriptor) (ref : MemberRef) :
    m.Resembles (m.remembering d ref) where
  rest := rfl
  strings hm := by
    refine ⟨hm.object.remembering d ref, hm.string.remembering d ref, hm.system.remembering d ref,
      fun c hc => ?_, hm.arraycopy⟩
    rw [Machine.remembering, withClasses_classes, ClassTable.getElem?_modify] at hc
    split at hc
    case isTrue hd =>
      obtain ⟨c₀, hc₀, rfl⟩ := Option.map_eq_some_iff.mp hc
      obtain ⟨hdefined, hsuper, husable⟩ := hm.bytes c₀ (hd ▸ hc₀)
      have hkeeps : c₀.Keeps { c₀ with resolved := c₀.resolved.insert ref d } := rfl
      exact ⟨hdefined.of_keeps hkeeps, hsuper, husable⟩
    case isFalse => exact hm.bytes c hc

end Remembering

section Loading

variable {m m' : Machine} {s : ClassSource} (host : Host) (steps nesting : Nat)

theorem HasIntact.loadClass (h : m.HasIntact s) :
    ∃ c, c.IsIntact s ∧ m.classes[Descriptor.ofInternal s.name]? = some c ∧
      loadClass s.name (Session.context host (steps + 1) (nesting + 1)) m = .ok c m := by
  obtain ⟨c, hc, hintact⟩ := h
  exact ⟨c, hintact, hc, classFor_initialized host steps nesting hc hintact.initialized⟩

/-- A change of another class. -/
theorem HasIntact.of_same (h : m.HasIntact s) (hsame :
    m'.classes[Descriptor.ofInternal s.name]? = m.classes[Descriptor.ofInternal s.name]?) :
    m'.HasIntact s := by
  rwa [HasIntact, hsame]

/-- The array type of bytes comes to be initialized. -/
theorem HasStrings.of_bytes (h : m.HasStrings) {c : RuntimeClass} (hnatives : m'.natives = m.natives)
    (hc : m'.classes[("[B" : Text)]? = some c) (husable : c.IsUsableArray "[B")
    (hother : ∀ k : Descriptor, k ≠ "[B" → m'.classes[k]? = m.classes[k]?) : m'.HasStrings where
  object := h.object.of_same (hother _ (by decide))
  string := h.string.of_same (hother _ (by decide))
  system := h.system.of_same (hother _ (by decide))
  bytes c' hc' := by
    obtain rfl := Option.some.inj (hc.symm.trans hc')
    exact husable
  arraycopy := hnatives ▸ h.arraycopy

/-- The array type of bytes loads at once. -/
theorem HasStrings.classFor_bytes (h : m.HasStrings) :
    ∃ k m', classFor "[B" (Session.context host (steps + 2) (nesting + 2)) m = .ok k m' ∧
      k.descriptor = "[B" ∧ m.Resembles m' := by
  obtain ⟨o, ho, hintact⟩ := h.object
  have hroot : m.classes[Descriptor.object]? = some o := ho
  cases hk : m.classes[("[B" : Text)]? with
  | some k =>
      have husable := h.bytes k hk
      rcases husable.usable with hlinked | hready
      · have hsuper : m.classes.SuperReady k := by
          intro s hs
          obtain rfl := Option.some.inj (husable.superclass.symm.trans hs)
          exact ⟨o, hroot, .inr hintact.initialized⟩
        obtain ⟨m', hinit, hchanges, hk', hother⟩ := initializeClass_quiet host (steps + 2) nesting
          hk hlinked (isQuiet_of_bare husable.defined) hsuper
        have hlink : link "[B" (Session.context host (steps + 2) (nesting + 2)) m = .ok () m := by
          rw [link_eq, context_fuel, linkWithin_registered hk, hlinked]
        have hkeeps : k.Keeps { k with state := .initialized } := rfl
        refine ⟨{ k with state := .initialized }, m', ?_, husable.descriptor, ?_,
          fun hm => hm.of_bytes ?_ hk'
            ⟨husable.defined.of_keeps hkeeps, husable.superclass, .inr (.inr rfl)⟩ hother⟩
        · rw [classFor, bind_of_ok hlink, bind_of_ok hinit, classAt_eq_ok hk']
        · rw [hchanges]
        · rw [hchanges]
      · exact ⟨k, m, classFor_ready host (steps + 1) (nesting + 1) hk hready, husable.descriptor,
          .refl m⟩
  | none =>
      let m₁ := m.withClasses (m.classes.insert "[B" (.bare "[B"))
      have hother : ∀ k : Descriptor, k ≠ "[B" → m₁.classes[k]? = m.classes[k]? := by
        intro k hk
        rw [withClasses_classes, ClassTable.getElem?_insert, if_neg hk.symm]
      have hdefine : define host "[B" = .ok (.bare "[B") := rfl
      have henter : enter "[B" (.bare "[B") (Session.context host (steps + 2) (nesting + 2)) m =
          .ok () m₁ := rfl
      obtain ⟨k, m', hrun, rfl, hchanges, hk', hother'⟩ := classFor_quiet hk hdefine henter
        Std.HashMap.getElem?_insert_self rfl (isQuiet_of_bare rfl)
        fun _ => ⟨o, (hother _ (by decide)).trans hroot, .inr hintact.initialized⟩
      refine ⟨_, m', hrun, rfl, ?_, fun hm => hm.of_bytes ?_ hk' ⟨rfl, rfl, .inr (.inr rfl)⟩
        fun k hk => (hother' k hk).trans (hother k hk)⟩
      · rw [hchanges]
        rfl
      · rw [hchanges]
        rfl

end Loading

section Resolving

variable {m : Machine} {s : ClassSource} {c : RuntimeClass} {d : Descriptor}
  {chain : List Descriptor} {names : List Text} {ref : MemberRef} {ctx : Context}

/-- The records of a class and its superclasses begin with its own. -/
theorem ancestry_self (hc : m.classes[d]? = some c) (hchain : m.classes.Ancestry d chain names)
    (hfuel : chain.length ≤ ctx.fuel) : ∃ rest, ancestry d ctx m = .ok (c :: rest) m := by
  have hread : (read : Exec Context) ctx m = .ok ctx m := rfl
  obtain ⟨records, hrun, hrecords, _⟩ :
      ∃ records, ancestryWithin ctx.fuel d ctx m = .ok records m ∧ _ :=
    ancestryWithin_of_ancestry hchain hfuel
  obtain ⟨above, rfl⟩ : ∃ above, chain = d :: above := by
    cases hchain with
    | root _ _ => exact ⟨[], rfl⟩
    | super _ _ _ => exact ⟨_, rfl⟩
  cases hrecords with
  | @cons _ c' _ rest hc' _ =>
      obtain rfl := Option.some.inj (hc.symm.trans hc')
      refine ⟨rest, ?_⟩
      rw [ancestry, bind_of_ok hread, hrun]

/-- A class that satisfies `p` is found by itself. -/
theorem findDeclaring_self {p : RuntimeClass → Bool} (hc : m.classes[d]? = some c)
    (hchain : m.classes.Ancestry d chain names) (hfuel : chain.length ≤ ctx.fuel)
    (hp : p c = true) : findDeclaring d p ctx m = .ok (some c.descriptor) m := by
  obtain ⟨rest, hrun⟩ := ancestry_self hc hchain hfuel
  rw [findDeclaring, bind_of_ok hrun, List.find?_cons_of_pos hp]
  rfl

/-- A method of the class itself is resolved to itself, remembered or not. -/
theorem resolveMethod_intact (hc : m.classes[d]? = some c) (hintact : c.IsIntact s)
    (hdescriptor : c.descriptor = d) (hbare : (c.isArray || c.isPrimitive) = false)
    (hchain : m.classes.Ancestry d chain names) (hfuel : chain.length ≤ ctx.fuel) {method : Method}
    (hmethod : c.declaredMethod? ref.name ref.descriptor = some method) :
    ∃ m', resolveMethod d ref ctx m = .ok (some method) m' ∧ m.Resembles m' := by
  have hdeclares : ref.methodIn c = true := Option.isSome_iff_exists.mpr ⟨method, hmethod⟩
  cases hcached : c.resolved[ref]? with
  | some owner =>
      obtain rfl := (hintact.remembered hcached (.inl hdeclares)).trans hdescriptor
      refine ⟨m, ?_, .refl m⟩
      rw [resolveMethod, bind_of_ok (classAt_eq_ok hc), hcached]
      dsimp only
      rw [bind_of_ok (classAt_eq_ok hc), hmethod]
      rfl
  | none =>
      have hfind := findDeclaring_self hc hchain hfuel hdeclares
      have hremember : remember d ref d ctx m = .ok () (m.remembering d ref) := rfl
      rw [hdescriptor] at hfind
      refine ⟨_, ?_, resembles_remembering m d ref⟩
      rw [resolveMethod, bind_of_ok (classAt_eq_ok hc), hcached]
      dsimp only
      rw [hbare, if_neg (by simp), pure_bind]
      refine (bind_of_ok hfind).trans ?_
      dsimp only
      rw [bind_of_ok hremember, bind_of_ok (classAt_eq_ok (remembering_self hc)), ← hmethod]
      rfl

/-- A field of the class itself is resolved to the class. -/
theorem resolveField_intact (hc : m.classes[d]? = some c) (hintact : c.IsIntact s)
    (hdescriptor : c.descriptor = d) (hchain : m.classes.Ancestry d chain names)
    (hfuel : chain.length ≤ ctx.fuel) (hdeclares : ref.fieldIn c = true) :
    ∃ owner m', resolveField d ref ctx m = .ok owner m' ∧ owner.name = c.name ∧ m.Resembles m' := by
  cases hcached : c.resolved[ref]? with
  | some owner =>
      obtain rfl := (hintact.remembered hcached (.inr hdeclares)).trans hdescriptor
      refine ⟨c, m, ?_, rfl, .refl m⟩
      rw [resolveField, bind_of_ok (classAt_eq_ok hc), hcached]
      exact classAt_eq_ok hc
  | none =>
      have hfind := findDeclaring_self hc hchain hfuel hdeclares
      have hremember : remember d ref d ctx m = .ok () (m.remembering d ref) := rfl
      rw [hdescriptor] at hfind
      refine ⟨{ c with resolved := c.resolved.insert ref d }, _, ?_, rfl,
        resembles_remembering m d ref⟩
      rw [resolveField, bind_of_ok (classAt_eq_ok hc), hcached]
      refine (bind_of_ok hfind).trans ?_
      dsimp only
      rw [bind_of_ok hremember]
      exact classAt_eq_ok (remembering_self hc)

end Resolving

end Machine

/-- A class directly below the root class, with a name that no other kind of type has. -/
structure ClassSource.IsBelowRoot (s : ClassSource) : Prop where
  orderly : s.IsOrderly
  superName : s.superName = Library.objectName
  notArray : Descriptor.isArray (Descriptor.ofInternal s.name) = false
  notPrimitive : Descriptor.isPrimitive (Descriptor.ofInternal s.name) = false

theorem Library.stringClass_isBelowRoot : Library.stringClass.IsBelowRoot :=
  ⟨⟨by decide +kernel, by decide +kernel, by decide +kernel⟩, rfl, by decide, by decide⟩

theorem Library.systemClass_isBelowRoot : Library.systemClass.IsBelowRoot :=
  ⟨⟨by decide +kernel, by decide +kernel, by decide +kernel⟩, rfl, by decide, by decide⟩

theorem Library.objectClass_isOrderly : Library.objectClass.IsOrderly :=
  ⟨by decide +kernel, by decide +kernel, by decide +kernel⟩

/-- A class that can be built has a record that nothing has changed. -/
theorem ClassSource.exists_intact {s : ClassSource} (hbuild : ∃ file, s.build = .ok file)
    (hroom : s.weight ≤ Builder.maxEntries)
    (hfields : ∀ f ∈ s.fields, (Descriptor.parseType f.descriptor).isOk = true)
    (hmethods : ∀ m ∈ s.methods, (Signature.parse m.descriptor).isOk = true) :
    ∃ c : RuntimeClass, c.IsIntact s := by
  obtain ⟨file, hbuild⟩ := hbuild
  obtain ⟨c, hfile⟩ := RuntimeClass.exists_ofFile hbuild hroom (Descriptor.ofInternal s.name) hfields
    hmethods
  let above := if s.superName = [] then none else some (Descriptor.ofInternal s.superName)
  refine ⟨{ c with superclass := above, resolved := {}, state := .initialized },
    ⟨file, c, hbuild, hfile, rfl⟩, rfl, rfl, fun howner => ?_⟩
  simp at howner

theorem Library.exists_object : ∃ c : RuntimeClass, c.IsIntact objectClass :=
  ClassSource.exists_intact (RuntimeClass.exists_of_isOk (by decide +kernel)) (by decide +kernel)
    (by decide +kernel) (by decide +kernel)

theorem Library.exists_string : ∃ c : RuntimeClass, c.IsIntact stringClass := by
  have hstraight : ∀ m ∈ stringClass.methods, m.body.isStraight = true := by decide +kernel
  exact ClassSource.exists_intact
    (ClassSource.build_succeeds fun m hm => ClassSource.addMethod_succeeds (hstraight m hm))
    (by decide +kernel) (by decide +kernel) (by decide +kernel)

theorem Library.exists_system : ∃ c : RuntimeClass, c.IsIntact systemClass := by
  have hstraight : ∀ m ∈ systemClass.methods, m.body.isStraight = true := by decide +kernel
  exact ClassSource.exists_intact
    (ClassSource.build_succeeds fun m hm => ClassSource.addMethod_succeeds (hstraight m hm))
    (by decide +kernel) (by decide +kernel) (by decide +kernel)

section Natives

namespace NativeTable

variable {α β : Type} {bs : List β} {t : NativeTable α} {add : NativeTable α → β → NativeTable α}

/-- Bindings of other classes leave those of a class alone. -/
theorem exact_foldl {k : NativeKey} (h : ∀ b ∈ bs, ∀ t, ∃ owner name descriptor f,
      add t b = t.register owner name descriptor f ∧ owner ≠ k.owner) :
    (bs.foldl add t).exact[k]? = t.exact[k]? := by
  induction bs generalizing t with
  | nil => rfl
  | cons b bs ih =>
      obtain ⟨owner, name, descriptor, f, hadd, howner⟩ := h b List.mem_cons_self t
      have hne : (NativeKey.mk owner name descriptor == k) = false :=
        beq_false_of_ne fun hk => howner (congrArg NativeKey.owner hk)
      rw [List.foldl_cons, ih fun b' hb' => h b' (List.mem_cons_of_mem b hb'), hadd, register,
        Std.HashMap.getElem?_insert, hne]
      rfl

/-- Bindings by mangled name leave those of single methods alone. -/
theorem exact_foldl_mangled (h : ∀ t b, ∃ symbol f, add t b = t.registerMangled symbol f) :
    (bs.foldl add t).exact = t.exact := by
  induction bs generalizing t with
  | nil => rfl
  | cons b bs ih =>
      obtain ⟨symbol, f, hadd⟩ := h t b
      rw [List.foldl_cons, ih, hadd]
      rfl

end NativeTable

theorem mangle_injective {owner a b : Text} (h : mangle owner a = mangle owner b) : a = b := by
  unfold mangle at h
  exact List.append_cancel_left h

/-- The copying native is bound in a fresh engine. -/
theorem Builtin.table_arraycopy :
    table.find? Library.systemName "arraycopy" Library.arraycopyType = some (.builtin .arraycopy) := by
  let k : NativeKey := ⟨Library.systemName, "arraycopy", Library.arraycopyType⟩
  have hsingle : ∀ b ∈ singleBindings, (b.1 : Text) ≠ Library.systemName := by decide +kernel
  have hoverload : ∀ b ∈ overloadBindings, (b.1 : Text) ≠ Library.systemName := by decide +kernel
  have hnone : table.exact[k]? = none := by
    rw [table, NativeTable.exact_foldl_mangled fun _ b => ⟨_, _, rfl⟩,
      NativeTable.exact_foldl fun b hb _ => ⟨_, _, _, _, rfl, hoverload b hb⟩,
      NativeTable.exact_foldl fun b hb _ => ⟨_, _, _, _, rfl, hsingle b hb⟩]
    exact Std.HashMap.getElem?_empty
  have hother : ∀ {name : Text}, name ≠ "arraycopy" →
      ¬(mangle "java/lang/System" name == mangle "java/lang/System" "arraycopy") = true :=
    fun hne h => hne (mangle_injective (eq_of_beq h))
  rw [NativeTable.find?, hnone]
  dsimp only
  rw [table]
  simp only [mangledBindings, List.foldl_cons, List.foldl_nil, NativeTable.registerMangled,
    Library.systemName]
  rw [Std.HashMap.getElem?_insert, if_neg (hother (by decide)), Std.HashMap.getElem?_insert,
    if_neg (hother (by decide)), Std.HashMap.getElem?_insert, if_neg (hother (by decide)),
    Std.HashMap.getElem?_insert_self]

end Natives

namespace Machine

/-- There is an engine with the classes that strings are made with, in which nothing else has
happened. -/
theorem exists_hasStrings : ∃ classes : ClassTable,
    HasStrings { Session.fresh with classes } := by
  obtain ⟨object, hobject⟩ := Library.exists_object
  obtain ⟨string, hstring⟩ := Library.exists_string
  obtain ⟨system, hsystem⟩ := Library.exists_system
  let name (s : ClassSource) : Descriptor := Descriptor.ofInternal s.name
  let classes : ClassTable := ((({} : ClassTable).insert (name Library.objectClass) object).insert
    (name Library.stringClass) string).insert (name Library.systemClass) system
  have hstring' : classes[name Library.stringClass]? = some string := by
    rw [ClassTable.getElem?_insert, if_neg (by decide), Std.HashMap.getElem?_insert_self]
  have hobject' : classes[name Library.objectClass]? = some object := by
    rw [ClassTable.getElem?_insert, if_neg (by decide), ClassTable.getElem?_insert,
      if_neg (by decide), Std.HashMap.getElem?_insert_self]
  have hbytes : classes[("[B" : Text)]? = none := by
    rw [ClassTable.getElem?_insert, if_neg (by decide), ClassTable.getElem?_insert,
      if_neg (by decide), ClassTable.getElem?_insert, if_neg (by decide), Std.HashMap.getElem?_empty]
  exact ⟨classes, ⟨object, hobject', hobject⟩, ⟨string, hstring', hstring⟩,
    ⟨system, Std.HashMap.getElem?_insert_self, hsystem⟩,
    fun c hc => absurd (hbytes.symm.trans hc) nofun, Builtin.table_arraycopy⟩

end Machine

namespace Machine

section Members

variable {m : Machine} {s : ClassSource} (host : Host) (steps nesting : Nat)

/-- The superclasses of a class below the root. -/
theorem HasStrings.ancestry (h : m.HasStrings) (hs : m.HasIntact s) (hbelow : s.IsBelowRoot) :
    ∃ names, m.classes.Ancestry (Descriptor.ofInternal s.name)
      [Descriptor.ofInternal s.name, Descriptor.object] names := by
  obtain ⟨o, ho, hroot⟩ := h.object
  obtain ⟨c, hc, hintact⟩ := hs
  have habove : c.superclass = some Descriptor.object := by
    rw [hintact.superclass, hbelow.superName]
    decide
  exact ⟨_, .super hc habove (.root ho hroot.superclass)⟩

/-- The class of a method loads, and the method is found there. -/
theorem HasStrings.resolveMethod (h : m.HasStrings) (hs : m.HasIntact s) (hbelow : s.IsBelowRoot)
    {source : MethodSource} (hsource : source ∈ s.methods) :
    ∃ c method m', loadClass s.name (Session.context host (steps + 2) (nesting + 1)) m = .ok c m ∧
      Resolution.resolveMethod c.descriptor ⟨s.name, source.name, source.descriptor⟩
        (Session.context host (steps + 2) (nesting + 1)) m = .ok (some method) m' ∧
      method.IsDescribedBy s source ∧ m.Resembles m' := by
  obtain ⟨names, hchain⟩ := h.ancestry hs hbelow
  obtain ⟨c, hintact, hc, hload⟩ := hs.loadClass host (steps + 1) nesting
  obtain ⟨method, hmethod, hdescribed⟩ := hintact.built.declaredMethod? hbelow.orderly hsource
  have hbare : (c.isArray || c.isPrimitive) = false := by
    rw [RuntimeClass.isArray, RuntimeClass.isPrimitive, hintact.built.descriptor, hbelow.notArray,
      hbelow.notPrimitive]
    rfl
  have hfuel : [Descriptor.ofInternal s.name, Descriptor.object].length ≤
      (Session.context host (steps + 2) (nesting + 1)).fuel := by simp
  let ref : MemberRef := ⟨s.name, source.name, source.descriptor⟩
  have hfound : c.declaredMethod? ref.name ref.descriptor = some method := hmethod
  obtain ⟨m', hrun, hresembles⟩ := resolveMethod_intact hc hintact hintact.built.descriptor hbare
    hchain hfuel hfound
  exact ⟨c, method, m', hload, hintact.built.descriptor ▸ hrun, hdescribed, hresembles⟩

/-- The class of a field loads, and the field is found there. -/
theorem HasStrings.resolveField (h : m.HasStrings) (hs : m.HasIntact s) (hbelow : s.IsBelowRoot)
    {source : FieldSource} (hsource : source ∈ s.fields) :
    ∃ owner m', Reference.fieldOwner ⟨s.name, source.name, source.descriptor⟩
        (Session.context host (steps + 2) (nesting + 1)) m = .ok owner m' ∧
      owner.name = Descriptor.className (Descriptor.ofInternal s.name) ∧ m.Resembles m' := by
  obtain ⟨names, hchain⟩ := h.ancestry hs hbelow
  obtain ⟨c, hintact, hc, hload⟩ := hs.loadClass host (steps + 1) nesting
  obtain ⟨field, hfield, -⟩ := hintact.built.declaredField? hbelow.orderly hsource
  have hfuel : [Descriptor.ofInternal s.name, Descriptor.object].length ≤
      (Session.context host (steps + 2) (nesting + 1)).fuel := by simp
  let ref : MemberRef := ⟨s.name, source.name, source.descriptor⟩
  have hdeclares : ref.fieldIn c = true := Option.isSome_iff_exists.mpr ⟨field, hfield⟩
  obtain ⟨owner, m', hrun, hname, hresembles⟩ := resolveField_intact hc hintact
    hintact.built.descriptor hchain hfuel hdeclares
  refine ⟨owner, m', ?_, hname.trans hintact.built.name, hresembles⟩
  rw [Reference.fieldOwner, bind_of_ok hload, hintact.built.descriptor]
  exact hrun

end Members

end Machine

end ClassEngine
