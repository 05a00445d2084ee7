import ClassEngine.Proofs.Engine.Moments

/-!
What is remembered of searches for members. Each class remembers fields and methods in one table, by
reference alone. Main results: the order of a search determines the class it finds, and a resolution
gives the member of that class, remembered or not, unless what is remembered under the reference is the
class of a member of the other kind.
-/

namespace ClassEngine

open Machine Exec Linking Resolution Interpreter

namespace ClassTable

variable {t : ClassTable} {d : Descriptor}

/-- Of two walks through the same interfaces one goes on where the other stops. -/
theorem Visits.comparable {names seen : List Text} {order order' : List Descriptor}
    (h : t.Visits names seen order) (h' : t.Visits names seen order') :
    order <+: order' ∨ order' <+: order := by
  induction h generalizing order' with
  | stop => exact .inl List.nil_prefix
  | again hseen _ ih =>
      cases h' with
      | stop => exact .inr List.nil_prefix
      | again _ hrest' => exact ih hrest'
      | visit hnew _ _ => exact absurd hseen hnew
  | visit hnew hc _ ih =>
      cases h' with
      | stop => exact .inr List.nil_prefix
      | again hseen _ => exact absurd hseen hnew
      | visit _ hc' hrest' =>
          obtain rfl := Option.some.inj (hc.symm.trans hc')
          rcases ih hrest' with h | h
          · exact .inl ((List.prefix_cons_inj _).mpr h)
          · exact .inr ((List.prefix_cons_inj _).mpr h)

/-- Of two searches from one class one goes on where the other stops. -/
theorem SearchOrder.comparable {order order' : List Descriptor} (h : t.SearchOrder d order)
    (h' : t.SearchOrder d order') : order <+: order' ∨ order' <+: order := by
  cases h with
  | supers hchain horder =>
      cases h' with
      | supers hchain' horder' =>
          obtain ⟨rfl, rfl⟩ := hchain.unique hchain'
          exact List.prefix_or_prefix_of_prefix horder horder'
      | interfaces hchain' _ =>
          obtain ⟨rfl, rfl⟩ := hchain.unique hchain'
          exact .inl (horder.trans (List.prefix_append _ _))
  | interfaces hchain hvisits =>
      cases h' with
      | supers hchain' horder' =>
          obtain ⟨rfl, rfl⟩ := hchain.unique hchain'
          exact .inr (horder'.trans (List.prefix_append _ _))
      | interfaces hchain' hvisits' =>
          obtain ⟨rfl, rfl⟩ := hchain.unique hchain'
          rcases hvisits.comparable hvisits' with h | h
          · exact .inl ((List.prefix_append_right_inj _).mpr h)
          · exact .inr ((List.prefix_append_right_inj _).mpr h)

/-- A class that satisfies `p` is not passed over. -/
theorem FirstAfter.eq_of_prefix {p : RuntimeClass → Bool} {before before' : List Descriptor}
    {owner owner' : Descriptor} (h : t.FirstAfter p before owner)
    (h' : t.FirstAfter p before' owner') (hle : before ++ [owner] <+: before' ++ [owner']) :
    owner = owner' := by
  rcases List.prefix_concat_iff.mp hle with heq | hle
  · exact List.singleton_injective (List.append_inj' heq rfl).2
  · obtain ⟨c, hc, htrue⟩ := h.here
    have hmem : owner ∈ before' := hle.subset (by simp)
    obtain ⟨c', hc', hfalse⟩ := h'.before owner hmem
    obtain rfl := Option.some.inj (hc.symm.trans hc')
    rw [htrue] at hfalse
    contradiction

/-- There is one first class at most. -/
theorem IsFirst.unique {p : RuntimeClass → Bool} {owner owner' : Descriptor}
    (h : t.IsFirst d p owner) (h' : t.IsFirst d p owner') : owner = owner' := by
  obtain ⟨before, horder, hfirst⟩ := h
  obtain ⟨before', horder', hfirst'⟩ := h'
  rcases horder.comparable horder' with hle | hle
  · exact hfirst.eq_of_prefix hfirst' hle
  · exact (hfirst'.eq_of_prefix hfirst hle).symm

theorem IsFirst.holds {p : RuntimeClass → Bool} {owner : Descriptor} {c : RuntimeClass}
    (h : t.IsFirst d p owner) (hc : t[owner]? = some c) : p c = true := by
  obtain ⟨_, _, hfirst⟩ := h
  obtain ⟨c', hc', hpc'⟩ := hfirst.here
  obtain rfl := Option.some.inj (hc.symm.trans hc')
  exact hpc'

/-- A class remembers a field under the reference of a method, in a class where no search for the
method ends. -/
def RemembersField (t : ClassTable) (d : Descriptor) (ref : MemberRef) : Prop :=
  ∃ c owner, t[d]? = some c ∧ c.resolved[ref]? = some owner ∧ t.IsFirst d ref.fieldIn owner ∧
    ¬t.IsFirst (methodStart d) ref.methodIn owner

/-- The other way round: a method is remembered under the reference of a field, in a class where no
search for the field ends. -/
def RemembersMethod (t : ClassTable) (d : Descriptor) (ref : MemberRef) : Prop :=
  ∃ c owner, t[d]? = some c ∧ c.resolved[ref]? = some owner ∧
    t.IsFirst (methodStart d) ref.methodIn owner ∧ ¬t.IsFirst d ref.fieldIn owner

/-- A root class that satisfies `p` is the first one from itself on. -/
theorem isFirst_root {c : RuntimeClass} {p : RuntimeClass → Bool}
    (hc : t[d]? = some c) (hsuper : c.superclass = none) (hp : p c = true) : t.IsFirst d p d :=
  ⟨[], .supers (.root hc hsuper) ⟨_, rfl⟩, ⟨c, hc, hp⟩, by simp⟩

end ClassTable

/-- The method that a class declares for a reference has its name and descriptor. -/
theorem RuntimeClass.OwnsMethods.declaredMethod {c : RuntimeClass} (h : c.OwnsMethods)
    {ref : MemberRef} (hdeclares : ref.methodIn c = true) :
    ∃ method, c.declaredMethod? ref.name ref.descriptor = some method ∧ method.name = ref.name ∧
      method.descriptor = ref.descriptor ∧ method.owner = c.descriptor := by
  obtain ⟨method, hmethod⟩ := Option.isSome_iff_exists.mp hdeclares
  have hsame := List.find?_some hmethod
  simp only [Bool.and_eq_true, beq_iff_eq] at hsame
  exact ⟨method, hmethod, hsame.1, hsame.2, h method (List.mem_of_find?_eq_some hmethod)⟩

section Resolving

variable {ctx : Context} {m m' : Machine} {d : Descriptor} {ref : MemberRef}

/-- How a resolution from a class comes to the class `owner`: it was remembered, or nothing was, and it
is the first one in the order of a search, and is remembered now. -/
inductive ComesTo (d : Descriptor) (ref : MemberRef) (start : Descriptor) (p : RuntimeClass → Bool)
    (m m' : Machine) (owner : Descriptor) : Prop
  | remembered {k : RuntimeClass} (hk : m.classes[d]? = some k)
      (howner : k.resolved[ref]? = some owner) (hsame : m' = m) : ComesTo d ref start p m m' owner
  | searched {k₀ k : RuntimeClass} (hk₀ : m.classes[d]? = some k₀) (hnew : k₀.resolved[ref]? = none)
      (hk : m'.classes[d]? = some k) (howner : k.resolved[ref]? = some owner)
      (hfirst : m'.classes.IsFirst start p owner) : ComesTo d ref start p m m' owner

namespace ComesTo

variable {start owner : Descriptor} {p : RuntimeClass → Bool}

theorem remembers (h : ComesTo d ref start p m m' owner) :
    ∃ k, m'.classes[d]? = some k ∧ k.resolved[ref]? = some owner := by
  cases h with
  | remembered hk howner hsame => exact ⟨_, hsame ▸ hk, howner⟩
  | searched _ _ hk howner _ => exact ⟨_, hk, howner⟩

/-- The class that is come to is the first one, unless another one was remembered. -/
theorem isFirst (h : ComesTo d ref start p m m' owner)
    (hremembered : ∀ k, m.classes[d]? = some k → k.resolved[ref]? = some owner →
      m.classes.IsFirst start p owner) : m'.classes.IsFirst start p owner := by
  cases h with
  | remembered hk howner hsame => exact hsame ▸ hremembered _ hk howner
  | searched _ _ _ _ hfirst => exact hfirst

/-- Where something was remembered, that is what is come to, and nothing happens. -/
theorem of_remembered {k : RuntimeClass} {owner' : Descriptor} (h : ComesTo d ref start p m m' owner)
    (hk : m.classes[d]? = some k) (howner' : k.resolved[ref]? = some owner') :
    m' = m ∧ owner = owner' := by
  cases h with
  | remembered hk' howner hsame =>
      obtain rfl := Option.some.inj (hk.symm.trans hk')
      exact ⟨hsame, Option.some.inj (howner.symm.trans howner')⟩
  | searched hk' hnew =>
      obtain rfl := Option.some.inj (hk.symm.trans hk')
      rw [hnew] at howner'
      contradiction

variable [SoundContext ctx]

/-- A search whose answer is remembered. -/
theorem of_search {m₀ m₁ : Machine} {k₀ k : RuntimeClass} (hp : Lasting p)
    (hk₀ : m₀.classes[d]? = some k₀) (hnew : k₀.resolved[ref]? = none) (hinv : m.Inv ctx.host)
    (hstart : m.classes.Started start) (hk : m.classes[d]? = some k)
    (hfind : findDeclaring start p ctx m = .ok (some owner) m₁)
    (hremember : remember d ref owner ctx m₁ = .ok () m') : ComesTo d ref start p m₀ m' owner := by
  have hsound : Sound ctx _ (findDeclaring start p) _ := sound_findDeclaring hp start
  obtain ⟨_, hfound⟩ := hsound.of_ok hinv hstart hfind
  obtain ⟨_, hfirst⟩ := hfound owner rfl
  have hmeets := hsound.meets m
  rw [hfind] at hmeets
  obtain ⟨k₁, hk₁, _⟩ := hmeets.1.classes hk
  obtain ⟨_, rfl⟩ := EStateM.Result.ok.inj hremember
  refine .searched hk₀ hnew (k := { k₁ with resolved := k₁.resolved.insert ref owner }) ?_ ?_ ?_
  · rw [withClasses_classes, ClassTable.getElem?_modify, if_pos rfl, hk₁]
    rfl
  · exact Std.HashMap.getElem?_insert_self
  · exact hfirst.retained hp (ClassTable.retains_modify fun _ => rfl)

end ComesTo

variable [SoundContext ctx]

theorem resolveField_comesTo {c : RuntimeClass} (hinv : m.Inv ctx.host) (hd : m.classes.Started d)
    (hrun : resolveField d ref ctx m = .ok c m') :
    ∃ owner, ComesTo d ref d ref.fieldIn m m' owner ∧ m'.classes[owner]? = some c := by
  have hrecord := hd
  obtain ⟨k, hk, _⟩ := hrecord
  rw [resolveField, bind_of_ok (classAt_eq_ok hk)] at hrun
  cases hcached : k.resolved[ref]? with
  | some owner =>
      rw [hcached] at hrun
      obtain ⟨rfl, hc⟩ := classAt_ok hrun
      exact ⟨owner, .remembered hk hcached rfl, hc⟩
  | none =>
      rw [hcached] at hrun
      obtain ⟨found, m₁, hfind, hrest⟩ := of_bind_ok hrun
      cases found with
      | none => contradiction
      | some owner =>
          obtain ⟨_, m₂, hremember, hclass⟩ := of_bind_ok hrest
          obtain ⟨rfl, hc⟩ := classAt_ok hclass
          exact ⟨owner, .of_search (lasting_fieldIn ref) hk hcached hinv hd hk hfind hremember, hc⟩

/-- A search for a method, from where it has to start. -/
theorem searchMethod_comesTo {m₀ : Machine} {k₀ k : RuntimeClass} {start : Descriptor}
    {found : Option Method} (hk₀ : m₀.classes[d]? = some k₀) (hnew : k₀.resolved[ref]? = none)
    (hinv : m.Inv ctx.host) (hstart : m.classes.Started start) (hk : m.classes[d]? = some k)
    (hrun : (do
        match ← findDeclaring start fun k =>
          (k.declaredMethod? ref.name ref.descriptor).isSome with
        | none => unresolved .method ref.text none
        | some owner => do
          remember d ref owner
          let o ← classAt owner
          pure (o.declaredMethod? ref.name ref.descriptor) : Exec (Option Method)) ctx m =
      .ok found m') :
    ∃ owner c, ComesTo d ref start ref.methodIn m₀ m' owner ∧ m'.classes[owner]? = some c ∧
      found = c.declaredMethod? ref.name ref.descriptor := by
  obtain ⟨first, m₁, hfind, hrest⟩ := of_bind_ok hrun
  cases first with
  | none => contradiction
  | some owner =>
      obtain ⟨_, m₂, hremember, hlast⟩ := of_bind_ok hrest
      obtain ⟨c, m₃, hclass, hpure⟩ := of_bind_ok hlast
      obtain ⟨rfl, hc⟩ := classAt_ok hclass
      obtain ⟨rfl, rfl⟩ := EStateM.Result.ok.inj hpure
      exact ⟨owner, c, .of_search (lasting_methodIn ref) hk₀ hnew hinv hstart hk hfind hremember, hc,
        rfl⟩

theorem resolveMethod_comesTo {found : Option Method} (hinv : m.Inv ctx.host)
    (hd : m.classes.Started d) (hrun : resolveMethod d ref ctx m = .ok found m') :
    ∃ owner c, ComesTo d ref (ClassTable.methodStart d) ref.methodIn m m' owner ∧
      m'.classes[owner]? = some c ∧ found = c.declaredMethod? ref.name ref.descriptor := by
  have hrecord := hd
  obtain ⟨k, hk, _⟩ := hrecord
  have hdescriptor : k.descriptor = d := hinv.table.descriptor hk
  rw [resolveMethod, bind_of_ok (classAt_eq_ok hk)] at hrun
  cases hcached : k.resolved[ref]? with
  | some owner =>
      rw [hcached] at hrun
      obtain ⟨c, m₁, hclass, hpure⟩ := of_bind_ok hrun
      obtain ⟨rfl, hc⟩ := classAt_ok hclass
      obtain ⟨rfl, rfl⟩ := EStateM.Result.ok.inj hpure
      exact ⟨owner, c, .remembered hk hcached rfl, hc, rfl⟩
  | none =>
      rw [hcached] at hrun
      dsimp only at hrun
      by_cases hbare : (k.isArray || k.isPrimitive) = true
      · rw [if_pos hbare] at hrun
        obtain ⟨root, m₁, hload, hsearch⟩ := of_bind_ok hrun
        obtain ⟨k₁, hk₁, _⟩ := (Safe.evolves (safe_loadClass _) hload).classes hk
        obtain ⟨hinv₁, hroot, hknown⟩ :=
          (sound_loadClass (P := fun _ => True) _).of_ok hinv trivial hload
        have hstart : ClassTable.methodStart d = root.descriptor :=
          (if_pos (hdescriptor ▸ hbare)).trans hroot.symm
        rw [hstart]
        exact searchMethod_comesTo hk hcached hinv₁ hknown.started hk₁ hsearch
      · rw [if_neg hbare] at hrun
        have hstart : ClassTable.methodStart d = d := if_neg (hdescriptor ▸ hbare)
        rw [hstart]
        exact searchMethod_comesTo hk hcached hinv hd hk hrun

/-- Once the class of a field is remembered, a method of the same reference is looked for in that
class alone. -/
theorem resolveMethod_of_resolveField {c : RuntimeClass} (hinv : m.Inv ctx.host)
    (hd : m.classes.Started d) (hrun : resolveField d ref ctx m = .ok c m') :
    resolveMethod d ref ctx m' = .ok (c.declaredMethod? ref.name ref.descriptor) m' := by
  obtain ⟨owner, hcomes, hc⟩ := resolveField_comesTo hinv hd hrun
  obtain ⟨k, hk, howner⟩ := hcomes.remembers
  rw [resolveMethod, bind_of_ok (classAt_eq_ok hk), howner]
  dsimp only
  rw [bind_of_ok (classAt_eq_ok hc)]
  rfl

end Resolving

/-- At every moment of every run, what is remembered of searches is what a search finds. The engine is
in order between requests, and every instruction that is executed leaves it so. Wherever it is, a
resolution from a class whose initialization has begun gives, when it gives anything, the member of the
first class in the order of the search, unless the class has remembered a member of the other kind under
the reference. If it has, the class of that member is taken as it is, and what it declares is the
answer. -/
theorem resolutions_find_first_class (host : Host) :
    (∀ m s, Watched host (fun _ _ => True) m → m.Passed s →
      ∀ (d : Descriptor) (c : RuntimeClass) (ref : MemberRef) (owner : Descriptor),
        s.classes[d]? = some c → c.resolved[ref]? = some owner → s.classes.Finds d ref owner) ∧
    (∀ m, Used host (fun _ _ => True) m → m.Inv host ∧ m.Coherent .caches) ∧
    ∀ m now steps nesting, now.provider = host.provider → m.Inv host → m.Coherent .caches →
      (∀ outcome m', advance (Session.context now steps nesting) m = .ok outcome m' →
        m'.Inv host ∧ m'.Coherent .caches) ∧
      ∀ d ref, m.classes.Started d →
        (∀ found m', resolveMethod d ref (Session.context now steps nesting) m = .ok found m' →
          (¬m.classes.RemembersField d ref →
            ∃ method, found = some method ∧ method.name = ref.name ∧
              method.descriptor = ref.descriptor ∧
              m'.classes.IsFirst (ClassTable.methodStart d) ref.methodIn method.owner) ∧
          (m.classes.RemembersField d ref →
            m' = m ∧ ∃ owner c, m.classes.IsFirst d ref.fieldIn owner ∧ m.classes[owner]? = some c ∧
              found = c.declaredMethod? ref.name ref.descriptor)) ∧
        ∀ c m', resolveField d ref (Session.context now steps nesting) m = .ok c m' →
          (¬m.classes.RemembersMethod d ref →
            (c.declaredField? ref.name).isSome ∧ m'.classes.IsFirst d ref.fieldIn c.descriptor) ∧
          (m.classes.RemembersMethod d ref →
            m' = m ∧ m.classes.IsFirst (ClassTable.methodStart d) ref.methodIn c.descriptor) := by
  refine ⟨?_, fun m hm => ⟨hm.reachable.inv, hm.coherent fun _ _ _ h => by contradiction⟩, ?_⟩
  · intro m s hm hs d c ref owner hc howner
    have hcoherent : m.Coherent .caches := hm.coherent fun _ _ _ h => by contradiction
    exact hcoherent.passed hs hc howner
  · intro m now steps nesting hnow hm hcoherent
    have hinv : m.Inv (Session.context now steps nesting).host := by
      rw [context_host]
      exact hm.of_provider hnow
    refine ⟨fun outcome m' hrun => ?_, fun d ref hd => ⟨?_, ?_⟩⟩
    · have hend := soundBy_advance.coherent m hinv trivial hcoherent
      have hinv' := (soundBy_advance.of_ok hinv trivial hrun).1
      rw [hrun] at hend
      rw [context_host] at hinv'
      exact ⟨hinv'.of_provider hnow.symm, hend⟩
    · intro found m' hrun
      obtain ⟨owner, c, hcomes, hc, hfound⟩ := resolveMethod_comesTo hinv hd hrun
      refine ⟨fun hnofield => ?_, ?_⟩
      · have hfirst := hcomes.isFirst fun k hk howner => (hcoherent.now hk howner).elim
          (fun hfield => not_not.mp fun hnone => hnofield ⟨k, owner, hk, howner, hfield, hnone⟩) id
        have htable := ((sound_resolveMethod d ref).of_ok hinv hd hrun).1.table
        obtain ⟨method, hmethod, hname, hdescriptor, howner⟩ :=
          (htable.ownsMethods hc).declaredMethod (hfirst.holds hc)
        rw [htable.descriptor hc] at howner
        exact ⟨method, hfound.trans hmethod, hname, hdescriptor, howner ▸ hfirst⟩
      · rintro ⟨k, owner', hk, howner', hfield, _⟩
        obtain ⟨rfl, rfl⟩ := hcomes.of_remembered hk howner'
        exact ⟨rfl, owner, c, hfield, hc, hfound⟩
    · intro c m' hrun
      obtain ⟨owner, hcomes, hc⟩ := resolveField_comesTo hinv hd hrun
      have htable := ((sound_resolveField d ref).of_ok hinv hd hrun).1.table
      rw [htable.descriptor hc]
      refine ⟨fun hnomethod => ?_, ?_⟩
      · have hfirst := hcomes.isFirst fun k hk howner => (hcoherent.now hk howner).elim id
          fun hmethod => not_not.mp fun hnone => hnomethod ⟨k, owner, hk, howner, hmethod, hnone⟩
        exact ⟨hfirst.holds hc, hfirst⟩
      · rintro ⟨k, owner', hk, howner', hmethod, _⟩
        obtain ⟨rfl, rfl⟩ := hcomes.of_remembered hk howner'
        exact ⟨rfl, hmethod⟩

section Own

variable (host : Host) {m : Machine} {d : Descriptor} {c : RuntimeClass} {ref : MemberRef}

/-- A root class that satisfies `p` itself is found at once. -/
theorem findDeclaring_own {p : RuntimeClass → Bool} (hc : m.classes[d]? = some c)
    (hdescriptor : c.descriptor = d) (hsuper : c.superclass = none) (hp : p c = true)
    (steps nesting : Nat) :
    findDeclaring d p (Session.context host (steps + 1) nesting) m = .ok (some d) m := by
  have hread : (read : Exec Context) (Session.context host (steps + 1) nesting) m =
    .ok (Session.context host (steps + 1) nesting) m := rfl
  have hchain : ancestry d (Session.context host (steps + 1) nesting) m = .ok [c] m := by
    rw [ancestry, bind_of_ok hread, context_fuel, ancestryWithin, bind_of_ok (classAt_eq_ok hc),
      hsuper]
    rfl
  rw [findDeclaring, bind_of_ok hchain, List.find?_cons_of_pos hp, ← hdescriptor]
  rfl

/-- The engine once a class has remembered that a member is its own. -/
def Machine.remembering (m : Machine) (d : Descriptor) (ref : MemberRef) : Machine :=
  m.withClasses (m.classes.modify d fun c => { c with resolved := c.resolved.insert ref d })

theorem remembering_self (hc : m.classes[d]? = some c) :
    (m.remembering d ref).classes[d]? = some { c with resolved := c.resolved.insert ref d } := by
  rw [remembering, withClasses_classes, ClassTable.getElem?_modify, if_pos rfl, hc]
  rfl

theorem resolveField_own (hc : m.classes[d]? = some c) (hdescriptor : c.descriptor = d)
    (hsuper : c.superclass = none) (hnew : c.resolved[ref]? = none)
    (hdeclares : ref.fieldIn c = true) (steps nesting : Nat) :
    resolveField d ref (Session.context host (steps + 1) nesting) m =
      .ok { c with resolved := c.resolved.insert ref d } (m.remembering d ref) := by
  have hfind := findDeclaring_own host hc hdescriptor hsuper hdeclares steps nesting
  have hremember : remember d ref d (Session.context host (steps + 1) nesting) m =
      .ok () (m.remembering d ref) := rfl
  rw [resolveField, bind_of_ok (classAt_eq_ok hc), hnew]
  refine (bind_of_ok hfind).trans ?_
  dsimp only
  rw [bind_of_ok hremember]
  exact classAt_eq_ok (remembering_self hc)

theorem resolveMethod_own (hc : m.classes[d]? = some c) (hdescriptor : c.descriptor = d)
    (hplain : (c.isArray || c.isPrimitive) = false) (hsuper : c.superclass = none)
    (hnew : c.resolved[ref]? = none) (hdeclares : ref.methodIn c = true) (steps nesting : Nat) :
    resolveMethod d ref (Session.context host (steps + 1) nesting) m =
      .ok (c.declaredMethod? ref.name ref.descriptor) (m.remembering d ref) := by
  have hfind := findDeclaring_own host hc hdescriptor hsuper hdeclares steps nesting
  have hremember : remember d ref d (Session.context host (steps + 1) nesting) m =
      .ok () (m.remembering d ref) := rfl
  rw [resolveMethod, bind_of_ok (classAt_eq_ok hc), hnew]
  dsimp only
  rw [if_neg (Bool.eq_false_iff.mp hplain), pure_bind]
  refine (bind_of_ok hfind).trans ?_
  dsimp only
  rw [bind_of_ok hremember, bind_of_ok (classAt_eq_ok (remembering_self hc))]
  rfl

end Own

/-- A class with two methods, and with a field that is named like one of them. -/
def shelfFile : ClassFile where
  minor := 0
  major := 52
  pool := #[]
  flags := ⟨0x21⟩
  name := "Shelf"
  superName := []
  interfaces := []
  fields := [⟨"size", "I", ⟨1⟩, 0⟩]
  methods := [⟨"count", "()I", ⟨0x401⟩, none, []⟩, ⟨"size", "()I", ⟨0x401⟩, none, []⟩]
  sourceFile := []

/-- A host with that class only. -/
def shelfHost : Host where
  provider := some fun name => if name = "Shelf" then .ok shelfFile else .error "not found"
  currentTimeMillis := 0
  nanoTime := 0

/-- The record of the class once it is loaded. -/
def shelf : RuntimeClass :=
  { RuntimeClass.bare "LShelf;" with
    flags := ⟨0x21⟩
    file := some shelfFile
    fields := [⟨"size", "I", ⟨1⟩, 0⟩]
    methods := [⟨"LShelf;", "Shelf", "count", "()I", ⟨0x401⟩, none, ⟨[], "I", "()I"⟩, shelfFile⟩,
      ⟨"LShelf;", "Shelf", "size", "()I", ⟨0x401⟩, none, ⟨[], "I", "()I"⟩, shelfFile⟩]
    statics := some ⟨1⟩
    state := .initialized }

theorem shelfHost_loads : ∃ m : Machine, Used shelfHost (fun _ _ => True) m ∧
    m.classes[shelf.descriptor]? = some shelf ∧ ∀ k, k ≠ shelf.descriptor → m.classes[k]? = none := by
  have hname : Descriptor.ofInternal "Shelf" = shelf.descriptor := by decide +kernel
  have hdefine : define shelfHost shelf.descriptor =
      .ok { shelf with statics := none, state := .linking } := rfl
  have hquiet : RuntimeClass.IsQuiet { shelf with statics := none, state := .linking } := by
    refine ⟨fun file hfile => ?_, rfl⟩
    obtain rfl := Option.some.inj hfile
    simp [shelfFile]
  obtain ⟨m, hused, hshelf, hnone, _⟩ :=
    used_of_first (fun _ _ => True) hname hdefine rfl rfl hquiet trivial
  exact ⟨m, hused, hshelf, hnone⟩

/-- References to the methods of that class, and to its field. -/
def countRef : MemberRef := ⟨"Shelf", "count", "()I"⟩

def sizeCallRef : MemberRef := ⟨"Shelf", "size", "()I"⟩

def sizeRef : MemberRef := ⟨"Shelf", "size", "I"⟩

theorem shelf_resolved (ref : MemberRef) : shelf.resolved[ref]? = none :=
  Std.HashMap.getElem?_empty

/-- What the class remembers at first is nothing. -/
theorem shelf_remembers_nothing {m : Machine} (ref : MemberRef)
    (hshelf : m.classes[shelf.descriptor]? = some shelf) :
    ¬m.classes.RemembersField shelf.descriptor ref ∧ ¬m.classes.RemembersMethod shelf.descriptor ref := by
  have hnothing : ∀ c owner, m.classes[shelf.descriptor]? = some c → c.resolved[ref]? ≠ some owner := by
    intro c owner hc
    obtain rfl := Option.some.inj (hshelf.symm.trans hc)
    rw [shelf_resolved]
    exact nofun
  constructor
  · rintro ⟨c, owner, hc, howner, -⟩
    exact hnothing c owner hc howner
  · rintro ⟨c, owner, hc, howner, -⟩
    exact hnothing c owner hc howner

/-- A method of that class that does nothing. -/
def resting : Method :=
  ⟨"LShelf;", "Shelf", "rest", "()V", ⟨8⟩, some ⟨0, 0, #[0], [], []⟩, ⟨[], "V", "()V"⟩, shelfFile⟩

/-- A method is found beside a field of its name, and the field beside the method. A field that is
remembered hides that there is no method, and a method that there is no field. The first instruction of
a method leaves the engine in order. -/
theorem resolutions_find_first_class_shelf : ∃ m m₁ m₂ : Machine,
    (Used shelfHost (fun _ _ => True) m ∧ Used shelfHost (fun _ _ => True) m₁ ∧
      Used shelfHost (fun _ _ => True) m₂) ∧
    (∃ method m', resolveMethod shelf.descriptor sizeCallRef (Session.context shelfHost 9 9) m =
        .ok (some method) m' ∧ method.name = sizeCallRef.name ∧
      m'.classes.IsFirst shelf.descriptor sizeCallRef.methodIn method.owner) ∧
    (∃ c m', resolveField shelf.descriptor sizeRef (Session.context shelfHost 9 9) m = .ok c m' ∧
      m'.classes.IsFirst shelf.descriptor sizeRef.fieldIn c.descriptor) ∧
    (m₁.classes.RemembersField shelf.descriptor sizeRef ∧ ∃ owner,
      m₁.classes.IsFirst shelf.descriptor sizeRef.fieldIn owner ∧
      ¬m₁.classes.IsFirst shelf.descriptor sizeRef.methodIn owner) ∧
    (m₂.classes.RemembersMethod shelf.descriptor countRef ∧ ∃ c,
      resolveField shelf.descriptor countRef (Session.context shelfHost 9 9) m₂ = .ok c m₂ ∧
      m₂.classes.IsFirst shelf.descriptor countRef.methodIn c.descriptor) ∧
    ∃ m', advance (Session.context shelfHost 9 9) { m with frames := [.enter resting #[] []] } =
      .ok .next m' ∧ m'.Inv shelfHost ∧ m'.Coherent .caches := by
  obtain ⟨m, hused, hshelf, _⟩ := shelfHost_loads
  obtain ⟨_, hidle, hresolutions⟩ := resolutions_find_first_class shelfHost
  let m₁ := m.remembering shelf.descriptor sizeRef
  let m₂ := m.remembering shelf.descriptor countRef
  have hload : loadClass "Shelf" (Session.context shelfHost 9 9) m = .ok shelf m :=
    classFor_initialized shelfHost 8 8 hshelf rfl
  have hcall := resolveMethod_own shelfHost hshelf rfl rfl rfl (shelf_resolved sizeCallRef) rfl 8 9
  have hfield := resolveField_own shelfHost hshelf rfl rfl (shelf_resolved sizeRef) rfl 8 9
  have hcount := resolveMethod_own shelfHost hshelf rfl rfl rfl (shelf_resolved countRef) rfl 8 9
  have hrun₁ : Session.runWithin shelfHost 9 9 (Request.perform (.resolveField "Shelf" sizeRef)) m =
      .ok () m₁ := by
    rw [Session.runWithin, Request.perform, bind_of_ok hload, discard_of_ok hfield]
  have hrun₂ : Session.runWithin shelfHost 9 9 (Request.perform (.resolveMethod "Shelf" countRef)) m =
      .ok () m₂ := by
    rw [Session.runWithin, Request.perform, bind_of_ok hload, discard_of_ok hcount]
  have hused₁ : Used shelfHost (fun _ _ => True) m₁ := hused.ask _ trivial hrun₁
  have hused₂ : Used shelfHost (fun _ _ => True) m₂ := hused.ask _ trivial hrun₂
  have hself₁ : m₁.classes[shelf.descriptor]? =
      some { shelf with resolved := shelf.resolved.insert sizeRef shelf.descriptor } :=
    remembering_self hshelf
  have hself₂ : m₂.classes[shelf.descriptor]? =
      some { shelf with resolved := shelf.resolved.insert countRef shelf.descriptor } :=
    remembering_self hshelf
  have hfield₁ : m₁.classes.RemembersField shelf.descriptor sizeRef := by
    refine ⟨_, _, hself₁, Std.HashMap.getElem?_insert_self, ClassTable.isFirst_root hself₁ rfl rfl, ?_⟩
    exact fun hfirst => absurd (hfirst.holds hself₁) (by decide)
  have hmethod₂ : m₂.classes.RemembersMethod shelf.descriptor countRef := by
    refine ⟨_, _, hself₂, Std.HashMap.getElem?_insert_self, ClassTable.isFirst_root hself₂ rfl rfl, ?_⟩
    exact fun hfirst => absurd (hfirst.holds hself₂) (by decide)
  have hremembered : resolveField shelf.descriptor countRef (Session.context shelfHost 9 9) m₂ =
      .ok { shelf with resolved := shelf.resolved.insert countRef shelf.descriptor } m₂ := by
    rw [resolveField, bind_of_ok (classAt_eq_ok hself₂), Std.HashMap.getElem?_insert_self]
    exact classAt_eq_ok hself₂
  have hstarted : ∀ {k : Machine} {c : RuntimeClass}, k.classes[shelf.descriptor]? = some c →
      c.state = shelf.state → k.classes.Started shelf.descriptor := by
    intro k c hc hstate
    refine ⟨c, hc, ?_⟩
    rw [hstate]
    trivial
  obtain ⟨hinv, hcoherent⟩ := hidle m hused
  obtain ⟨hinv₁, hcoherent₁⟩ := hidle m₁ hused₁
  obtain ⟨hinv₂, hcoherent₂⟩ := hidle m₂ hused₂
  obtain ⟨_, hresolve⟩ := hresolutions m shelfHost 9 9 rfl hinv hcoherent
  obtain ⟨_, hresolve₁⟩ := hresolutions m₁ shelfHost 9 9 rfl hinv₁ hcoherent₁
  obtain ⟨_, hresolve₂⟩ := hresolutions m₂ shelfHost 9 9 rfl hinv₂ hcoherent₂
  refine ⟨m, m₁, m₂, ⟨hused, hused₁, hused₂⟩, ?_, ?_, ⟨hfield₁, ?_⟩, ⟨hmethod₂, ?_⟩, ?_⟩
  · obtain ⟨method, hmethod, hname, _, hfirst⟩ := ((hresolve _ sizeCallRef (hstarted hshelf rfl)).1
      _ _ hcall).1 (shelf_remembers_nothing sizeCallRef hshelf).1
    exact ⟨method, _, hmethod ▸ hcall, hname, hfirst⟩
  · obtain ⟨_, hfirst⟩ := ((hresolve _ sizeRef (hstarted hshelf rfl)).2 _ _ hfield).1
      (shelf_remembers_nothing sizeRef hshelf).2
    exact ⟨_, _, hfield, hfirst⟩
  · have hinv : m.Inv (Session.context shelfHost 9 9).host := hinv
    have hhidden := resolveMethod_of_resolveField hinv (hstarted hshelf rfl) hfield
    obtain ⟨_, owner, c, hfirst, hc, hnone⟩ :=
      ((hresolve₁ _ sizeRef (hstarted hself₁ rfl)).1 _ _ hhidden).2 hfield₁
    refine ⟨owner, hfirst, fun hmethod => ?_⟩
    have hdeclares := hmethod.holds hc
    rw [MemberRef.methodIn, ← hnone] at hdeclares
    contradiction
  · obtain ⟨_, hfirst⟩ :=
      ((hresolve₂ _ countRef (hstarted hself₂ rfl)).2 _ _ hremembered).2 hmethod₂
    exact ⟨_, hremembered, hfirst⟩
  · let running : Machine := { m with frames := [.enter resting #[] []] }
    have howners : ∀ f ∈ running.frames, m.classes.Started f.method.owner := by
      intro f hf
      obtain rfl := List.mem_singleton.mp hf
      exact hstarted hshelf rfl
    have hrunning : running.Inv shelfHost := hinv.withFrames howners
    have hop : Opcode.ofByte? 0 = some .nop := by decide +kernel
    have hfetch : fetch (Session.context shelfHost 9 9) running =
        .ok 0 (endOf (fetch (Session.context shelfHost 9 9) running)) := rfl
    have hrun : advance (Session.context shelfHost 9 9) running =
        .ok .next (endOf (fetch (Session.context shelfHost 9 9) running)) := by
      rw [advance, bind_of_ok hfetch]
      refine (attempt_bind_ok ?_).trans rfl
      unfold Step.run
      rw [hop]
      rfl
    obtain ⟨hkeeps, _⟩ := hresolutions running shelfHost 9 9 rfl hrunning (hcoherent.of_eq rfl rfl rfl)
    exact ⟨_, hrun, hkeeps _ _ hrun⟩

/-- The class has no such method, and yet the search for it does not fail. -/
theorem resolution_of_field_hides_missing_method : ∃ m : Machine,
    Used shelfHost (fun _ _ => True) m ∧ sizeRef.methodIn shelf = false ∧
    resolveMethod shelf.descriptor sizeRef (Session.context shelfHost 9 9) m = .ok none m := by
  obtain ⟨m, hused, hshelf, _⟩ := shelfHost_loads
  have hload : loadClass "Shelf" (Session.context shelfHost 9 9) m = .ok shelf m :=
    classFor_initialized shelfHost 8 8 hshelf rfl
  have hfield := resolveField_own shelfHost hshelf rfl rfl (shelf_resolved sizeRef) rfl 8 9
  have hrun : Session.runWithin shelfHost 9 9 (Request.perform (.resolveField "Shelf" sizeRef)) m =
      .ok () (m.remembering shelf.descriptor sizeRef) := by
    rw [Session.runWithin, Request.perform, bind_of_ok hload, discard_of_ok hfield]
  have hinv : m.Inv (Session.context shelfHost 9 9).host := hused.reachable.inv
  refine ⟨_, hused.ask _ trivial hrun, rfl, ?_⟩
  exact resolveMethod_of_resolveField hinv ⟨_, hshelf, trivial⟩ hfield

end ClassEngine
