import Mathlib.Algebra.Order.BigOperators.Group.Finset
import ClassEngine.Proofs.Engine.MemberSearch

/-!
Special calls: those of constructors, which bind in the class that is named, and those of what the
superclass of a class has, which start there. A call that names an interface also starts at the
superclass. Main results: `special_calls_bind` and `special_calls_of_interfaces_start_above`.
-/

namespace ClassEngine

open Machine Exec Linking Resolution

section Remembered

variable {host : Host} {t : ClassTable} {path : List Descriptor} {p : RuntimeClass → Bool}
  {d owner : Descriptor} {chain before : List Descriptor} {names seen : List Text}

theorem ClassTable.Tells.eq {b : Bool} (h : t.Tells p d b) (ht : t.Sound host path)
    (hp : Defining p) : satisfies host p d = b := by
  obtain ⟨c, hc, hb⟩ := h
  rw [← ht.holds_eq hp hc, hb]

/-- The interfaces that were visited up to one that satisfies `p` are those of a search. -/
theorem ClassTable.Visits.searches {order : List Descriptor} (h : t.Visits names seen order)
    (ht : t.Sound host path) (hp : Defining p) (horder : order = before ++ [owner])
    (hfirst : t.FirstAfter p before owner) : Searches host p names seen (some owner) := by
  induction h generalizing before with
  | stop => simp at horder
  | again hseen _ ih => exact .again hseen (ih horder hfirst)
  | @visit name names seen order c hnew hc _ ih =>
      cases before with
      | nil =>
          obtain ⟨rfl, _⟩ := List.cons.inj horder
          exact .here hnew (hfirst.here.eq ht hp)
      | cons k before =>
          obtain ⟨rfl, hrest⟩ := List.cons.inj horder
          have hnot := (hfirst.before _ List.mem_cons_self).eq ht hp
          have hsearch := ih hrest
            ⟨hfirst.here, fun k hk => hfirst.before k (List.mem_cons_of_mem _ hk)⟩
          rw [ht.interfaces hc] at hsearch
          exact .on hnew hnot hsearch

/-- The first class in the order of a search is the one that the search finds. -/
theorem ClassTable.IsFirst.locates (h : t.IsFirst d p owner) (ht : t.Sound host path)
    (hp : Defining p) (hancestry : t.Ancestry d chain names) :
    Locates host p chain names (some owner) := by
  obtain ⟨before, horder, hfirst⟩ := h
  have hhere := hfirst.here.eq ht hp
  have hbefore : ∀ k ∈ before, satisfies host p k = false :=
    fun k hk => (hfirst.before k hk).eq ht hp
  have hsuper : ∀ after, chain = before ++ owner :: after →
      chain.find? (satisfies host p) = some owner := by
    intro after hchain
    rw [List.find?_eq_some_iff_append]
    exact ⟨hhere, before, after, hchain, fun k hk => by simp [hbefore k hk]⟩
  generalize hwhole : before ++ [owner] = order at horder
  cases horder with
  | supers hchain hprefix =>
      obtain ⟨rfl, _⟩ := hancestry.unique hchain
      obtain ⟨after, hafter⟩ := hprefix
      refine .super (hsuper after ?_)
      rw [← hafter, ← hwhole, List.append_assoc, List.singleton_append]
  | @interfaces _ order _ hchain hvisits =>
      obtain ⟨rfl, rfl⟩ := hancestry.unique hchain
      rcases List.eq_nil_or_concat order with rfl | ⟨init, last, rfl⟩
      · rw [List.append_nil] at hwhole
        exact .super (hsuper [] hwhole.symm)
      · rw [List.concat_eq_append, ← List.append_assoc] at hwhole
        obtain ⟨rfl, hlast⟩ := List.append_inj' hwhole rfl
        obtain rfl := List.singleton_injective hlast
        have hnone : chain.find? (satisfies host p) = none := by
          rw [List.find?_eq_none]
          intro k hk
          rw [hbefore k (List.mem_append_left _ hk)]
          exact Bool.false_ne_true
        refine .interface hnone (hvisits.searches ht hp List.concat_eq_append ?_)
        exact ⟨hfirst.here, fun k hk => hfirst.before k (List.mem_append_right _ hk)⟩

end Remembered

section Hierarchies

variable {host : Host} {types : Finset Descriptor} {t : ClassTable} {d k : Descriptor}
  {chain : List Descriptor} {names : List Text}

/-- A finite set of classes and interfaces with everything that they name above them, of which none
is above itself. -/
structure IsClassHierarchy (host : Host) (types : Finset Descriptor) : Prop where
  shape : ∀ {d}, d ∈ types → ∃ name : Text, d = "L" ++ name ++ ";"
  above : ∀ {d s}, d ∈ types → Above host d s → s ∈ types
  acyclic : ∀ {d}, d ∈ types → ¬Relation.TransGen (Above host) d d

/-- How many steps a special call in a hierarchy takes at most until its method is found. -/
def hierarchyBound (host : Host) (types : Finset Descriptor) : Nat :=
  types.card + 2 * ∑ d ∈ types, (interfacesOf host d).length + 2

/-- The interfaces that some types declare. -/
def interfaceTypes (host : Host) (types : Finset Descriptor) : Finset Descriptor :=
  types.biUnion fun d => ((interfacesOf host d).map Descriptor.ofInternal).toFinset

theorem mem_interfaceTypes : k ∈ interfaceTypes host types ↔ ∃ d ∈ types, Implements host d k := by
  simp [interfaceTypes, implements_iff, eq_comm]

/-- The type of a class is neither that of an array nor primitive, and has no brackets. -/
theorem IsClassHierarchy.ofClass (h : IsClassHierarchy host types) (hd : d ∈ types) :
    Descriptor.isArray d = false ∧ Descriptor.isPrimitive d = false ∧
      Descriptor.dimensions d = 0 := by
  obtain ⟨name, rfl⟩ := h.shape hd
  have hlength : ("L" ++ name ++ ";" : Text).length = name.length + 2 := by
    change ([_] ++ name ++ [_] : Text).length = _
    simp
  refine ⟨rfl, ?_, rfl⟩
  rw [Descriptor.isPrimitive, hlength]
  simp

theorem IsClassHierarchy.reaches (h : IsClassHierarchy host types) (hd : d ∈ types)
    (hk : Relation.ReflTransGen (Above host) d k) : k ∈ types := by
  induction hk with
  | refl => exact hd
  | tail _ hstep ih => exact h.above ih hstep

theorem IsClassHierarchy.isFamily (h : IsClassHierarchy host types) : IsFamily host types where
  shape hd := .inl (h.shape hd)
  above := h.above
  component hd harray := by
    rw [(h.ofClass hd).1] at harray
    contradiction
  acyclic hd := by
    rintro ⟨k, hk, hlast⟩
    exact h.acyclic hd (.tail' hk (.inr hlast))

/-- A class may be used for what is above it. -/
theorem IsClassHierarchy.descends (h : IsClassHierarchy host types) (hd : d ∈ types)
    (hk : Relation.TransGen (Above host) d k) : Descends host d k := by
  induction hk using Relation.TransGen.head_induction_on with
  | single hstep => exact .up (h.ofClass hd).1 hstep (.refl k)
  | head hstep _ ih => exact .up (h.ofClass hd).1 hstep (ih (h.above hd hstep))

/-- The interfaces of the hierarchy are a graph for each chain in it. -/
theorem IsClassHierarchy.interfaceGraph (h : IsClassHierarchy host types)
    (hchain : ∀ k ∈ chain, k ∈ types) : IsInterfaceGraph host chain (interfaceTypes host types) where
  root hk hi := mem_interfaceTypes.mpr ⟨_, hchain _ hk, hi⟩
  closed hi hj := by
    obtain ⟨d, hd, hdi⟩ := mem_interfaceTypes.mp hi
    exact mem_interfaceTypes.mpr ⟨_, h.above hd (.inr hdi), hj⟩

/-- The superclass of a linked class is the one that its definition names. -/
theorem ClassTable.Sound.superclass_iff {c : RuntimeClass} {s : Descriptor} (ht : t.Sound host [])
    (hc : t[d]? = some c) (hlinked : c.state.IsLinked) :
    c.superclass = some s ↔ Follows host d s := by
  obtain ⟨c₀, hc₀, _⟩ := ht.defined hc
  rw [ht.superclass hc hlinked hc₀]
  by_cases hname : c₀.superName = []
  · rw [if_pos hname]
    refine ⟨nofun, ?_⟩
    rintro ⟨c₁, hc₁, hne, _⟩
    obtain rfl := Except.ok.inj (hc₀.symm.trans hc₁)
    exact absurd hname hne
  · rw [if_neg hname]
    constructor
    · exact fun hs => ⟨c₀, hc₀, hname, (Option.some.inj hs).symm⟩
    · rintro ⟨c₁, hc₁, _, rfl⟩
      obtain rfl := Except.ok.inj (hc₀.symm.trans hc₁)
      rfl

/-- The superclasses of a linked class are those that its definition leads to. -/
theorem ClassTable.Ancestry.follows (h : t.Ancestry d chain names) (ht : t.Sound host [])
    (hlinked : t.Linked d) (hk : k ∈ chain) : Relation.ReflTransGen (Follows host) d k := by
  induction h with
  | root => rw [List.mem_singleton.mp hk]
  | super hc hs _ ih =>
      rcases List.mem_cons.mp hk with rfl | hk
      · exact .refl
      obtain ⟨c, hc', hstate⟩ := hlinked
      obtain rfl := Option.some.inj (hc.symm.trans hc')
      have hsuper := (ht.linked hc hstate).super hc hs
      exact .head ((ht.superclass_iff hc hstate).mp hs) (ih hsuper hk)

/-- No class is twice among its superclasses. -/
theorem ClassTable.Ancestry.nodup (h : t.Ancestry d chain names) (ht : t.Sound host [])
    (hlinked : t.Linked d) : chain.Nodup := by
  induction h with
  | root => exact List.nodup_singleton _
  | super hc hs hrest ih =>
      obtain ⟨c, hc', hstate⟩ := hlinked
      obtain rfl := Option.some.inj (hc.symm.trans hc')
      have hchain := ht.linked hc hstate
      have hsuper := hchain.super hc hs
      refine List.nodup_cons.mpr ⟨fun hmem => ?_, ih hsuper⟩
      have hcycle := Relation.TransGen.head' ((ht.superclass_iff hc hstate).mp hs)
        (hrest.follows ht hsuper hmem)
      exact ht.not_leadsIntoCycle hchain ⟨_, .refl, hcycle⟩

theorem ClassTable.Ancestry.names_eq {path : List Descriptor} (h : t.Ancestry d chain names)
    (ht : t.Sound host path) : names = chain.flatMap (interfacesOf host) := by
  induction h with
  | root hc _ => rw [List.flatMap_singleton, ht.interfaces hc]
  | super hc _ _ ih => rw [List.flatMap_cons, ← ih, ht.interfaces hc]

theorem IsClassHierarchy.interfaceTypes_subset (h : IsClassHierarchy host types) :
    interfaceTypes host types ⊆ types := by
  intro k hk
  obtain ⟨d, hd, hdk⟩ := mem_interfaceTypes.mp hk
  exact h.above hd (.inr hdk)

/-- The superclasses of a class of the hierarchy belong to it. -/
theorem IsClassHierarchy.ancestry (h : IsClassHierarchy host types)
    (hancestry : t.Ancestry d chain names) (ht : t.Sound host []) (hlinked : t.Linked d)
    (hd : d ∈ types) : ∀ k ∈ chain, k ∈ types := by
  intro k hk
  have hup := hancestry.follows ht hlinked hk
  exact h.reaches hd (Relation.ReflTransGen.mono (fun _ _ => .inl) _ _ hup)

/-- A search in a hierarchy takes no more steps than the bound of the hierarchy. -/
theorem IsClassHierarchy.searchBound_le (h : IsClassHierarchy host types)
    (hancestry : t.Ancestry d chain names) (ht : t.Sound host []) (hlinked : t.Linked d)
    (hd : d ∈ types) :
    searchBound host chain names (interfaceTypes host types) ≤ hierarchyBound host types := by
  have hnodup := hancestry.nodup ht hlinked
  have hsubset : chain.toFinset ⊆ types :=
    fun k hk => h.ancestry hancestry ht hlinked hd k (List.mem_toFinset.mp hk)
  have hchain : chain.length ≤ types.card := by
    rw [← List.toFinset_card_of_nodup hnodup]
    exact Finset.card_le_card hsubset
  have hnames : names.length ≤ ∑ k ∈ types, (interfacesOf host k).length := by
    rw [hancestry.names_eq ht, List.length_flatMap, ← List.sum_toFinset _ hnodup]
    exact Finset.sum_le_sum_of_subset hsubset
  have hgraph : ∑ i ∈ interfaceTypes host types, (interfacesOf host i).length ≤
      ∑ k ∈ types, (interfacesOf host k).length :=
    Finset.sum_le_sum_of_subset h.interfaceTypes_subset
  rw [searchBound, hierarchyBound]
  omega

end Hierarchies

section Binding

/-- A call gets the method of its reference from the class that is found, or it fails because none
is. -/
def Binds (ref : MemberRef) (finds : Option Descriptor → Prop) :
    EStateM.Result Raise Machine (Option Method) → Prop
  | .ok (some method) m =>
      (∃ c, m.classes[method.owner]? = some c ∧ method ∈ c.methods) ∧ method.name = ref.name ∧
        method.descriptor = ref.descriptor ∧ finds (some method.owner)
  | .ok none _ => False
  | .error e _ => e = .unresolved ⟨.method, ref.text, none⟩ ∧ finds none

variable {host : Host} {m : Machine} {ref : MemberRef} {finds : Option Descriptor → Prop}
  {chain : List Descriptor} {names : List Text} {d owner : Descriptor} {c c₀ : RuntimeClass}

theorem Binds.found {res : EStateM.Result Raise Machine (Option Method)} {owner : Descriptor}
    (h : Binds ref finds res) (hfinds : ∀ {found}, finds found → found = some owner) :
    ∃ method m, res = .ok (some method) m ∧ method.owner = owner ∧ method.name = ref.name ∧
      method.descriptor = ref.descriptor := by
  cases res with
  | error e m => exact absurd (hfinds h.2) nofun
  | ok found m =>
      cases found with
      | none => exact h.elim
      | some method =>
          obtain ⟨_, hname, hdescriptor, howner⟩ := h
          exact ⟨method, m, rfl, Option.some.inj (hfinds howner), hname, hdescriptor⟩

theorem Binds.unresolved {res : EStateM.Result Raise Machine (Option Method)} (h : Binds ref finds res)
    (hfinds : ∀ {found}, finds found → found = none) :
    ∃ m, res = .error (.unresolved ⟨.method, ref.text, none⟩) m := by
  cases res with
  | error e m => exact ⟨m, by rw [h.1]⟩
  | ok found m =>
      cases found with
      | none => exact h.elim
      | some method => exact absurd (hfinds h.2.2.2) nofun

/-- The method of a class that declares it. -/
theorem binds_declared (hc : m.classes[owner]? = some c) (hdefine : define host owner = .ok c₀)
    (hdefined : c.DefinedBy c₀) (hdeclares : ref.methodIn c = true) (hfinds : finds (some owner)) :
    Binds ref finds (.ok (c.declaredMethod? ref.name ref.descriptor) m) := by
  have hnew := isNew_define hdefine
  obtain ⟨method, hmethod, hname, hdescriptor, howner⟩ :=
    (hdefined.ownsMethods hnew.ownsMethods).declaredMethod hdeclares
  have hhere : method.owner = owner := howner.trans (hdefined.descriptor.trans hnew.descriptor)
  rw [hmethod]
  refine ⟨⟨c, hhere ▸ hc, List.mem_of_find?_eq_some hmethod⟩, hname, hdescriptor, ?_⟩
  rwa [hhere]

variable {ctx : Context} {graph : Finset Descriptor}

/-- What is remembered of a method is what the search finds. -/
theorem resolveMethod_remembered (hinv : m.Inv ctx.host) (hcaches : m.Coherent .caches)
    (hclass : Descriptor.isArray d = false ∧ Descriptor.isPrimitive d = false)
    (hancestry : m.classes.Ancestry d chain names) (hc : m.classes[d]? = some c)
    (howner : c.resolved[ref]? = some owner) (hnofield : ¬m.classes.RemembersField d ref) :
    Binds ref (Locates ctx.host ref.methodIn chain names) (resolveMethod d ref ctx m) := by
  obtain ⟨o, ho, _⟩ := hinv.resolved hc howner
  obtain ⟨o₀, ho₀, hdefined⟩ := hinv.table.defined ho
  have hstart : ClassTable.methodStart d = d := by simp [ClassTable.methodStart, hclass]
  have hmethod : m.classes.IsFirst (ClassTable.methodStart d) ref.methodIn owner := by
    by_contra hnot
    have hfield := (hcaches.now hc howner).resolve_right hnot
    exact hnofield ⟨c, owner, hc, howner, hfield, hnot⟩
  rw [resolveMethod, bind_of_ok (classAt_eq_ok hc), howner]
  dsimp only
  rw [bind_of_ok (classAt_eq_ok ho)]
  refine binds_declared ho ho₀ hdefined (hmethod.holds ho) ?_
  exact (hstart ▸ hmethod).locates hinv.table (defining_methodIn ref) hancestry

variable [SoundContext ctx]

/-- A search that is not remembered yet binds the method that it finds. -/
theorem resolveMethod_searched {L : Machine → Prop} (hsupply : Supplies ctx graph L)
    (hgraph : IsInterfaceGraph ctx.host chain graph) (hm : L m)
    (hclass : Descriptor.isArray d = false ∧ Descriptor.isPrimitive d = false)
    (hancestry : m.classes.Ancestry d chain names) (hc : m.classes[d]? = some c)
    (hnew : c.resolved[ref]? = none)
    (hsteps : searchBound ctx.host chain names graph ≤ ctx.fuel) :
    Binds ref (Locates ctx.host ref.methodIn chain names) (resolveMethod d ref ctx m) := by
  obtain ⟨found, m', hfind, hm', hlocates, htells⟩ :=
    findDeclaring_locates hsupply hgraph (defining_methodIn ref) hm hancestry hsteps
  have hdescriptor := (hsupply.inv hm).table.descriptor hc
  have hbare : ¬(c.isArray || c.isPrimitive) = true := by
    simp [RuntimeClass.isArray, RuntimeClass.isPrimitive, hdescriptor, hclass]
  rw [resolveMethod, bind_of_ok (classAt_eq_ok hc), hnew]
  dsimp only
  rw [if_neg hbare, pure_bind]
  refine (bind_of_ok hfind).symm ▸ ?_
  cases found with
  | none => exact ⟨rfl, hlocates⟩
  | some owner =>
      obtain ⟨o, ho, hdeclares⟩ := htells owner rfl
      obtain ⟨o₀, ho₀, hdefined⟩ := (hsupply.inv hm').table.defined ho
      let t := m'.classes.modify d fun c => { c with resolved := c.resolved.insert ref owner }
      have hremember : remember d ref owner ctx m' = .ok () (m'.withClasses t) := rfl
      have hretains : m'.classes.Retains t := ClassTable.retains_modify fun _ => rfl
      obtain ⟨o', ho', hkeeps⟩ := hretains ho
      have hfound : (m'.withClasses t).classes[owner]? = some o' := ho'
      dsimp only
      rw [bind_of_ok hremember, bind_of_ok (classAt_eq_ok hfound)]
      refine binds_declared hfound ho₀ (hdefined.of_keeps hkeeps) ?_ hlocates
      rw [lasting_methodIn ref hkeeps, hdeclares]

/-- A method is bound by the search from the class on, unless a field is remembered in its place. -/
theorem resolveMethod_binds {L : Machine → Prop} (hsupply : Supplies ctx graph L)
    (hgraph : IsInterfaceGraph ctx.host chain graph) (hm : L m) (hcaches : m.Coherent .caches)
    (hclass : Descriptor.isArray d = false ∧ Descriptor.isPrimitive d = false)
    (hancestry : m.classes.Ancestry d chain names)
    (hsteps : searchBound ctx.host chain names graph ≤ ctx.fuel)
    (hnofield : ¬m.classes.RemembersField d ref) :
    Binds ref (Locates ctx.host ref.methodIn chain names) (resolveMethod d ref ctx m) := by
  obtain ⟨c, hc⟩ : ∃ c, m.classes[d]? = some c := by
    cases hancestry with
    | root hc _ => exact ⟨_, hc⟩
    | super hc _ _ => exact ⟨_, hc⟩
  cases hcached : c.resolved[ref]? with
  | none => exact resolveMethod_searched hsupply hgraph hm hclass hancestry hc hcached hsteps
  | some owner =>
      exact resolveMethod_remembered (hsupply.inv hm) hcaches hclass hancestry hc hcached hnofield

end Binding

section Calls

variable {ctx : Context} {types : Finset Descriptor} {m m' : Machine} {c : RuntimeClass}
  {d above owner : Descriptor} {ref : MemberRef}

/-- What a search from a class on finds is the class itself or above it. -/
theorem Locates.reached {host : Host} {t : ClassTable} {p : RuntimeClass → Bool}
    {chain : List Descriptor} {names : List Text} (h : Locates host p chain names (some owner))
    (hancestry : t.Ancestry d chain names) (ht : t.Sound host []) (hlinked : t.Linked d) :
    Relation.ReflTransGen (Above host) d owner := by
  have hchain : ∀ {k}, k ∈ chain → Relation.ReflTransGen (Above host) d k := fun hk =>
    Relation.ReflTransGen.mono (fun _ _ => .inl) _ _ (hancestry.follows ht hlinked hk)
  cases h with
  | super hfind => exact hchain (List.mem_of_find?_eq_some hfind)
  | interface _ hsearch =>
      obtain ⟨hreach, _⟩ := hsearch.sound rfl
      obtain ⟨k, hk, hinterface⟩ := (hancestry.reaches_iff ht).mp hreach
      have hup : Relation.TransGen (Above host) k owner :=
        Relation.TransGen.mono (fun _ _ => .inr) _ _ hinterface
      exact (hchain hk).trans hup.to_reflTransGen

/-- Where no class declares a field of that name, none is remembered. -/
theorem not_remembersField {host : Host} {t : ClassTable} (htypes : IsClassHierarchy host types)
    (ht : t.Sound host []) (hlinked : t.Linked d) (hd : d ∈ types)
    (hnone : ∀ k ∈ types, satisfies host ref.fieldIn k = false) : ¬t.RemembersField d ref := by
  rintro ⟨_, owner, _, _, hfield, _⟩
  obtain ⟨chain, names, hancestry⟩ := hlinked.ancestry ht
  have hlocates := hfield.locates ht (defining_fieldIn ref) hancestry
  have hin := htypes.reaches hd (hlocates.reached hancestry ht hlinked)
  obtain ⟨_, _, hfirst⟩ := hfield
  have htrue := hfirst.here.eq ht (defining_fieldIn ref)
  rw [hnone owner hin] at htrue
  contradiction

/-- A call of a constructor, or from a class without the flag or without a superclass, does not start
at the superclass. -/
theorem startsAbove_none (caller : Option RuntimeClass) (named : Descriptor)
    (h : ∀ c, caller = some c →
      ref.isConstructor = true ∨ c.flags.isSuper = false ∨ c.superclass = none) :
    startsAbove caller ref named ctx m = .ok none m := by
  unfold startsAbove
  cases caller with
  | none => rfl
  | some c =>
      dsimp only
      cases hsuper : c.superclass with
      | none => rfl
      | some above =>
          have hcondition :
              (c.flags.isSuper && !ref.isConstructor && c.descriptor != named) = false := by
            rcases h c rfl with hconstructor | hflag | hnone
            · simp [hconstructor]
            · simp [hflag]
            · rw [hsuper] at hnone
              contradiction
          dsimp only
          rw [hcondition]
          rfl

/-- Where all types load, the subtype test gets all it asks for. -/
theorem LoadsEach.prepared (h : LoadsEach ctx types m) (htypes : IsClassHierarchy ctx.host types)
    (hinv : m.Inv ctx.host) : Prepared ctx types m := by
  have hneeds : ∀ {x}, Needs ctx.host types x →
      ∃ name, Descriptor.ofInternal name ∈ types ∧ x = discard (loadClass name) := by
    intro x hx
    cases hx with
    | interface hd hc hname => exact ⟨_, htypes.above hd (.inr ⟨_, hc, _, hname, rfl⟩), rfl⟩
    | component hd harray =>
        rw [(htypes.ofClass hd).1] at harray
        contradiction
  refine ⟨hinv, fun m' hreach x hx => ?_⟩
  obtain ⟨name, hname, rfl⟩ := hneeds hx
  have hsteps : Relation.ReflTransGen
      (fun k k' => ∃ d ∈ types, ∃ c, classFor d ctx k = .ok c k') m m' := by
    refine Relation.ReflTransGen.mono (fun k k' hstep => ?_) _ _ hreach
    obtain ⟨y, hy, hrun⟩ := hstep
    obtain ⟨n, hn, rfl⟩ := hneeds hy
    obtain ⟨c, hload⟩ := ok_of_discard hrun
    exact ⟨_, hn, c, hload⟩
  obtain ⟨c, m'', hrun⟩ := h hsteps hname
  exact ⟨m'', discard_of_ok hrun⟩

variable [SoundContext ctx]

/-- A call that starts at the class that is named binds the method of this class. -/
theorem resolveSpecial_named (caller : Option RuntimeClass) {named : RuntimeClass} {host : Host}
    (hhost : ctx.host = host) (hinv : m.Inv host) (hload : loadClass ref.owner ctx m = .ok named m')
    (hstart : startsAbove caller ref named.descriptor ctx m' = .ok none m')
    (hown : ref.isConstructor = true ∨
      satisfies host ref.methodIn (Descriptor.ofInternal ref.owner) = true) :
    Binds ref (· = if satisfies host ref.methodIn (Descriptor.ofInternal ref.owner) = true then
      some (Descriptor.ofInternal ref.owner) else none) (resolveSpecial caller ref ctx m) := by
  subst hhost
  have hnamed := classFor_found hload
  have hinv' := ((sound_loadClass (P := fun _ => True) _).of_ok hinv trivial hload).1
  obtain ⟨c₀, hc₀, hdefined⟩ := hinv'.table.defined hnamed
  have hdeclares := hinv'.table.holds_eq (defining_methodIn ref) hnamed
  rw [resolveSpecial, bind_of_ok hload, bind_of_ok hstart]
  dsimp only
  by_cases hmethod : ref.methodIn named = true
  · have hbinds : Binds ref (· = some (Descriptor.ofInternal ref.owner)) (.ok _ m') :=
      binds_declared hnamed hc₀ hdefined hmethod rfl
    obtain ⟨method, hfound⟩ := Option.isSome_iff_exists.mp hmethod
    rw [hfound] at hbinds ⊢
    rw [if_pos (hdeclares ▸ hmethod)]
    exact hbinds
  · have hnone : named.declaredMethod? ref.name ref.descriptor = none :=
      Option.not_isSome_iff_eq_none.mp hmethod
    rw [hdeclares] at hmethod
    rw [hnone]
    dsimp only
    rw [if_pos (hown.resolve_right hmethod), if_neg hmethod]
    exact ⟨rfl, rfl⟩

/-- What the subtype test asks for are the interfaces that a search visits. -/
theorem Prepared.supplies :
    Supplies ctx (interfaceTypes ctx.host types) (Prepared ctx types) where
  inv h := h.inv
  loads {m name} h hname := by
    obtain ⟨d, hd, c, hc, other, hother, hsame⟩ := mem_interfaceTypes.mp hname
    obtain rfl := Descriptor.ofInternal_injective hsame
    obtain ⟨m', hask, hm', _⟩ := h.ask (.interface hd hc hother)
    obtain ⟨k, hload⟩ := ok_of_discard hask
    exact ⟨k, m', hload, hm'⟩

section Upwards

variable {host : Host} (hhost : ctx.host = host) (htypes : IsClassHierarchy host types)
  (hsteps : hierarchyBound host types ≤ ctx.fuel) (hinv : m.Inv host)
  (hcaches : m.Coherent .caches) (hloads : LoadsEach ctx types m) (hd : d ∈ types)
  (hc : m.classes[d]? = some c) (hlinked : c.state.IsLinked) (hsuper : c.superclass = some above)
  (hflag : c.flags.isSuper = true) (hname : ref.isConstructor = false)
  (habove : Relation.TransGen (Above host) d (Descriptor.ofInternal ref.owner))
include hhost htypes hsteps hinv hcaches hloads hd hc hlinked hsuper hflag hname habove

/-- A call for what is above a class goes on as a search from its superclass. -/
theorem resolveSpecial_above :
    ∃ m', resolveSpecial (some c) ref ctx m = resolveMethod above ref ctx m' ∧
      Prepared ctx types m' ∧ m'.Coherent .caches ∧ m.classes.Evolves m'.classes := by
  subst hhost
  have hnamed := htypes.reaches hd habove.to_reflTransGen
  obtain ⟨named, m₁, hload⟩ : ∃ named m₁, loadClass ref.owner ctx m = .ok named m₁ :=
    hloads .refl hnamed
  have hsound : Sound ctx (fun _ => True) (loadClass ref.owner) _ := sound_loadClass _
  obtain ⟨hinv₁, hdescriptor, _⟩ := hsound.of_ok hinv trivial hload
  have hcaches₁ := hsound.coherent m hinv trivial hcaches
  rw [hload] at hcaches₁
  have hevolves₁ := ((safe_loadClass _).evolves hload).classes
  have hprepared₁ := (hloads.after hnamed hload).prepared htypes hinv₁
  have htest : testSteps ctx.host types d (Descriptor.ofInternal ref.owner) ≤ ctx.fuel := by
    have hle := testSteps_le ctx.host types d (Descriptor.ofInternal ref.owner)
    rw [(htypes.ofClass hnamed).2.2] at hle
    rw [hierarchyBound] at hsteps
    omega
  obtain ⟨res, m₂, hrun, hprepared₂, hevolves₂, hres⟩ := decides_assignableWithin htypes.isFamily hd
    hnamed (hevolves₁.linked ⟨c, hc, hlinked⟩) hprepared₁ htest
  obtain rfl : res = true := hres.mpr (htypes.descends hd habove)
  have hassignable : assignable c.descriptor named.descriptor ctx m₁ = .ok true m₂ := by
    rw [hinv.table.descriptor hc, hdescriptor]
    exact hrun
  have hself : c.descriptor ≠ named.descriptor := by
    rw [hinv.table.descriptor hc, hdescriptor]
    intro hsame
    rw [← hsame] at habove
    exact htypes.acyclic hd habove
  have hstart : startsAbove (some c) ref named.descriptor ctx m₁ = .ok (some above) m₂ := by
    unfold startsAbove
    dsimp only
    rw [hsuper]
    dsimp only
    rw [if_pos (by simp [hflag, hname, hself]), bind_of_ok hassignable]
    rfl
  have hcaches₂ := (safe_assignable c.descriptor named.descriptor).coherent m₁ hinv₁ trivial hcaches₁
  rw [hassignable] at hcaches₂
  refine ⟨m₂, ?_, hprepared₂, hcaches₂, hevolves₁.trans hevolves₂⟩
  rw [resolveSpecial, bind_of_ok hload, bind_of_ok hstart]

/-- That search binds what it finds, unless a field is remembered in its place, and what it finds is
never below the superclass. -/
theorem binds_above :
    ∃ m' chain names, resolveSpecial (some c) ref ctx m = resolveMethod above ref ctx m' ∧
      m'.Inv host ∧ m.classes.Evolves m'.classes ∧ m.classes.Ancestry above chain names ∧
      (¬m'.classes.RemembersField above ref →
        Binds ref (Locates host ref.methodIn chain names) (resolveSpecial (some c) ref ctx m) ∧
        ∀ method m'', resolveSpecial (some c) ref ctx m = .ok (some method) m'' →
          Relation.ReflTransGen (Above host) above method.owner) := by
  obtain ⟨m', hres, hprepared, hcaches', hevolves⟩ := resolveSpecial_above hhost htypes hsteps hinv
    hcaches hloads hd hc hlinked hsuper hflag hname habove
  subst hhost
  have hup : m.classes.Linked above := (hinv.table.linked hc hlinked).super hc hsuper
  have hin : above ∈ types := htypes.above hd (.inl ((hinv.table.superclass_iff hc hlinked).mp hsuper))
  obtain ⟨chain, names, hancestry⟩ := hup.ancestry hinv.table
  have hgraph := htypes.interfaceGraph (htypes.ancestry hancestry hinv.table hup hin)
  have hbound := htypes.searchBound_le hancestry hinv.table hup hin
  obtain ⟨harray, hprimitive, _⟩ := htypes.ofClass hin
  refine ⟨m', chain, names, hres, hprepared.inv, hevolves, hancestry, fun hnofield => ?_⟩
  have hbinds := resolveMethod_binds Prepared.supplies hgraph hprepared hcaches' ⟨harray, hprimitive⟩
    (hancestry.retained hevolves.retains) (hbound.trans hsteps) hnofield
  rw [← hres] at hbinds
  refine ⟨hbinds, fun method m'' hmethod => ?_⟩
  rw [hmethod] at hbinds
  obtain ⟨_, _, _, hlocates⟩ := hbinds
  exact hlocates.reached hancestry hinv.table hup

end Upwards

end Calls

/-- Special calls in a hierarchy without circles, all of which loads. A call of a constructor, whoever
calls, binds the constructor that the class that is named declares, or it fails. Any other call from a
class with the flag for a class above it goes on as a search from its superclass, in an engine that has
loaded what is named, and binds what this search finds, unless a field is remembered there under the
same reference. So it never binds a method of the class itself or of one below it. -/
theorem special_calls_bind {host : Host} {types : Finset Descriptor} {steps nesting : Nat}
    {m : Machine} (htypes : IsClassHierarchy host types) (hsteps : hierarchyBound host types ≤ steps)
    (hinv : m.Inv host) (hcaches : m.Coherent .caches)
    (hloads : LoadsEach (Session.context host steps nesting) types m) :
    let ctx := Session.context host steps nesting
    (∀ (caller : Option RuntimeClass) (ref : MemberRef), ref.isConstructor = true →
      Descriptor.ofInternal ref.owner ∈ types →
      Binds ref (· = if satisfies host ref.methodIn (Descriptor.ofInternal ref.owner) = true then
        some (Descriptor.ofInternal ref.owner) else none) (resolveSpecial caller ref ctx m)) ∧
    ∀ (d : Descriptor) (c : RuntimeClass) (ref : MemberRef), d ∈ types → m.classes[d]? = some c →
      c.state.IsLinked → c.flags.isSuper = true → ref.isConstructor = false →
      Relation.TransGen (Follows host) d (Descriptor.ofInternal ref.owner) →
      ∃ above m' chain names, c.superclass = some above ∧
        resolveSpecial (some c) ref ctx m = resolveMethod above ref ctx m' ∧
        m'.Inv host ∧ m.classes.Evolves m'.classes ∧ m.classes.Ancestry above chain names ∧
        (¬m'.classes.RemembersField above ref →
          Binds ref (Locates host ref.methodIn chain names) (resolveSpecial (some c) ref ctx m) ∧
          ∀ method m'', resolveSpecial (some c) ref ctx m = .ok (some method) m'' →
            ¬Relation.ReflTransGen (Above host) method.owner d) := by
  intro ctx
  have hhost : ctx.host = host := context_host host steps nesting
  rw [← context_fuel host steps nesting] at hsteps
  constructor
  · intro caller ref hconstructor hnamed
    obtain ⟨named, m', hload⟩ : ∃ named m', loadClass ref.owner ctx m = .ok named m' :=
      hloads .refl hnamed
    exact resolveSpecial_named caller hhost hinv hload
      (startsAbove_none caller _ fun c _ => .inl hconstructor) (.inl hconstructor)
  · intro d c ref hd hc hlinked hflag hname hsupers
    have hup : Relation.TransGen (Above host) d (Descriptor.ofInternal ref.owner) :=
      Relation.TransGen.mono (fun _ _ => .inl) _ _ hsupers
    obtain ⟨above, hfollows, _⟩ := Relation.TransGen.head'_iff.mp hsupers
    have hsuper := (hinv.table.superclass_iff hc hlinked).mpr hfollows
    obtain ⟨m', chain, names, hres, hinv', hevolves, hancestry, hbinds⟩ := binds_above hhost htypes
      hsteps hinv hcaches hloads hd hc hlinked hsuper hflag hname hup
    refine ⟨above, m', chain, names, hsuper, hres, hinv', hevolves, hancestry, fun hnofield => ?_⟩
    obtain ⟨hbound, hreached⟩ := hbinds hnofield
    refine ⟨hbound, fun method m'' hmethod hback => ?_⟩
    have hcycle : Relation.TransGen (Above host) d d :=
      .head' (.inl hfollows) ((hreached method m'' hmethod).trans hback)
    exact htypes.acyclic hd hcycle

section Pond

theorem pond_hierarchy : IsClassHierarchy pondHost pond.toFinset where
  shape hd := by
    have hall : pond = ["Drake", "Duck", "Bird", "Swims", "Walks", "Moves", "java/lang/Object"].map
        fun name : Text => "L" ++ name ++ ";" := by decide
    rw [List.mem_toFinset, hall] at hd
    obtain ⟨name, _, rfl⟩ := List.mem_map.mp hd
    exact ⟨name, rfl⟩
  above hd hs := List.mem_toFinset.mpr (pond_above (List.mem_toFinset.mp hd) hs).1
  acyclic hd := pond_acyclic (List.mem_toFinset.mp hd)

/-- A class of that host, with what its definition says. -/
theorem pond_record {m : Machine} {d : Descriptor} (hinv : m.Inv pondHost) (hholds : m.Holds pond)
    (hd : d ∈ pond) (hflag : satisfies pondHost (·.flags.isSuper) d = true) :
    d ∈ pond.toFinset ∧ ∃ c, m.classes[d]? = some c ∧ c.state.IsLinked ∧ c.flags.isSuper = true := by
  obtain ⟨c, hc, hstate⟩ := hholds.linked hd
  have hdefining : Defining (·.flags.isSuper) := fun _ _ hdefined => by rw [hdefined]
  exact ⟨List.mem_toFinset.mpr hd, c, hc, hstate, (hinv.table.holds_eq hdefining hc).trans hflag⟩

/-- An engine in which all of them are loaded. -/
theorem pond_ready : ∃ m : Machine, Used pondHost (fun _ _ => True) m ∧ m.Holds pond ∧
    m.Inv pondHost ∧ m.Coherent .caches ∧
    LoadsEach (Session.context pondHost 20 9) pond.toFinset m := by
  obtain ⟨m, hused, hholds⟩ := pondHost_loads
  have hinitialized : ∀ d ∈ pond.toFinset, ∃ c, m.classes[d]? = some c ∧ c.state = .initialized :=
    fun d hd => hholds.initialized d (List.mem_toFinset.mp hd)
  exact ⟨m, hused, hholds, hused.reachable.inv, hused.coherent fun _ _ _ h => by contradiction,
    loadsEach_of_initialized hinitialized 19 8⟩

theorem drake_follows : Follows pondHost "LDrake;" "LDuck;" :=
  ⟨_, rfl, by decide, by decide⟩

/-- A reference to a method that a class of that host declares and its subclasses override. -/
def callRef : MemberRef := ⟨"Bird", "call", "()I"⟩

/-- The call from the last of these binds the method of the one in between. -/
theorem special_calls_bind_drake : ∃ (m m' : Machine) (c : RuntimeClass) (method : Method),
    Used pondHost (fun _ _ => True) m ∧ m.classes[("LDrake;" : Text)]? = some c ∧
    resolveSpecial (some c) callRef (Session.context pondHost 20 9) m = .ok (some method) m' ∧
    method.name = callRef.name ∧ method.owner = "LDuck;" := by
  obtain ⟨m, hused, hholds, hinv, hcaches, hloads⟩ := pond_ready
  obtain ⟨hdrake, c, hc, hstate, hflag⟩ :=
    pond_record hinv hholds (by decide : ("LDrake;" : Text) ∈ pond) (by decide)
  have hsupers : Relation.TransGen (Follows pondHost) "LDrake;" (Descriptor.ofInternal "Bird") :=
    .head drake_follows (.single ⟨_, rfl, by decide, rfl⟩)
  obtain ⟨above, m₁, chain, names, habove, _, hinv₁, hevolves, hancestry, hbinds⟩ :=
    (special_calls_bind pond_hierarchy (by decide) hinv hcaches hloads).2
      _ c callRef hdrake hc hstate hflag rfl hsupers
  rw [(hinv.table.superclass_iff hc hstate).mpr drake_follows] at habove
  obtain rfl := Option.some.inj habove
  obtain ⟨rfl, rfl⟩ := hancestry.unique (duck_ancestry hinv hholds)
  have hduck : m.classes.Linked "LDuck;" := hholds.linked (by decide)
  obtain ⟨hbound, _⟩ := hbinds (not_remembersField pond_hierarchy hinv₁.table (hevolves.linked hduck)
    (by decide) (by decide))
  have hfind : duckChain.find? (satisfies pondHost callRef.methodIn) = some ("LDuck;" : Text) := by
    decide
  obtain ⟨method, m', hrun, howner, hname, _⟩ :=
    hbound.found fun hlocates => hlocates.eq_super hfind
  exact ⟨m, m', c, method, hused, hc, hrun, hname, howner⟩

end Pond

/-- Special calls that name an interface, which the class of the caller has. With the flag they go on
as a search from the superclass like all others, and so they never bind the method of the interface,
unless the superclass has the interface too. Only without the flag or without a superclass do they bind
the method that the interface declares. -/
theorem special_calls_of_interfaces_start_above {host : Host} {types : Finset Descriptor}
    {steps nesting : Nat} {m : Machine} (htypes : IsClassHierarchy host types)
    (hsteps : hierarchyBound host types ≤ steps) (hinv : m.Inv host) (hcaches : m.Coherent .caches)
    (hloads : LoadsEach (Session.context host steps nesting) types m) :
    let ctx := Session.context host steps nesting
    ∀ (d : Descriptor) (c : RuntimeClass) (ref : MemberRef), d ∈ types → m.classes[d]? = some c →
      c.state.IsLinked → ref.isConstructor = false →
      Superinterface host d (Descriptor.ofInternal ref.owner) →
      (∀ above, c.flags.isSuper = true → c.superclass = some above →
        ∃ m' chain names, resolveSpecial (some c) ref ctx m = resolveMethod above ref ctx m' ∧
          m'.Inv host ∧ m.classes.Evolves m'.classes ∧ m.classes.Ancestry above chain names ∧
          (¬m'.classes.RemembersField above ref →
            Binds ref (Locates host ref.methodIn chain names) (resolveSpecial (some c) ref ctx m) ∧
            ∀ method m'', resolveSpecial (some c) ref ctx m = .ok (some method) m'' →
              Relation.ReflTransGen (Above host) above method.owner)) ∧
      (c.flags.isSuper = false ∨ c.superclass = none →
        satisfies host ref.methodIn (Descriptor.ofInternal ref.owner) = true →
        Binds ref (· = some (Descriptor.ofInternal ref.owner)) (resolveSpecial (some c) ref ctx m)) := by
  intro ctx d c ref hd hc hlinked hname hinterface
  have hhost : ctx.host = host := context_host host steps nesting
  rw [← context_fuel host steps nesting] at hsteps
  have hup : Relation.TransGen (Above host) d (Descriptor.ofInternal ref.owner) := by
    obtain ⟨k, hk, hlast⟩ := hinterface
    exact .tail' hk (.inr hlast)
  constructor
  · intro above hflag hsuper
    exact binds_above hhost htypes hsteps hinv hcaches hloads hd hc hlinked hsuper hflag hname hup
  · intro hplain hdeclares
    obtain ⟨named, m', hload⟩ : ∃ named m', loadClass ref.owner ctx m = .ok named m' :=
      hloads .refl (htypes.reaches hd hup.to_reflTransGen)
    have hstart : ∀ k, some c = some k →
        ref.isConstructor = true ∨ k.flags.isSuper = false ∨ k.superclass = none := by
      intro k hk
      obtain rfl := Option.some.inj hk
      exact .inr hplain
    have hbinds := resolveSpecial_named (some c) hhost hinv hload
      (startsAbove_none (some c) _ hstart) (.inr hdeclares)
    rwa [if_pos hdeclares] at hbinds

section Diving

/-- A reference to a method that only an interface of that host declares. -/
def diveRef : MemberRef := ⟨"Swims", "dive", "()I"⟩

/-- The superclass of the class has the interface, and so the search finds it there. -/
theorem special_calls_of_interfaces_start_above_drake :
    ∃ (m m' : Machine) (c : RuntimeClass) (method : Method), Used pondHost (fun _ _ => True) m ∧
      m.classes[("LDrake;" : Text)]? = some c ∧
      resolveSpecial (some c) diveRef (Session.context pondHost 20 9) m = .ok (some method) m' ∧
      method.name = diveRef.name ∧ method.owner = "LSwims;" := by
  obtain ⟨m, hused, hholds, hinv, hcaches, hloads⟩ := pond_ready
  obtain ⟨hdrake, c, hc, hstate, hflag⟩ :=
    pond_record hinv hholds (by decide : ("LDrake;" : Text) ∈ pond) (by decide)
  have hinterface : Superinterface pondHost "LDrake;" (Descriptor.ofInternal "Swims") :=
    ⟨"LDuck;", .single (.inl drake_follows), _, rfl, _, by decide, rfl⟩
  obtain ⟨m₁, chain, names, _, hinv₁, hevolves, hancestry, hbinds⟩ :=
    (special_calls_of_interfaces_start_above pond_hierarchy (by decide) hinv hcaches
      hloads _ c diveRef hdrake hc hstate rfl hinterface).1 _ hflag
      ((hinv.table.superclass_iff hc hstate).mpr drake_follows)
  obtain ⟨rfl, rfl⟩ := hancestry.unique (duck_ancestry hinv hholds)
  have hduck : m.classes.Linked "LDuck;" := hholds.linked (by decide)
  obtain ⟨hbound, _⟩ := hbinds (not_remembersField pond_hierarchy hinv₁.table (hevolves.linked hduck)
    (by decide) (by decide))
  have hacyclic : ∀ i, Reaches pondHost ["Walks", "Swims"] i →
      ¬Relation.TransGen (Implements pondHost) i i := by
    intro i hi hcycle
    have hinterfaces : ∀ i ∈ pondInterfaces.toFinset, i ∈ pond.toFinset := by decide
    have hin := hinterfaces i (duck_interfaceGraph.mem_of_reaches hancestry hinv.table hi)
    exact pond_hierarchy.acyclic hin (Relation.TransGen.mono (fun _ _ => .inr) _ _ hcycle)
  have hfirst : duckWalk.find? (satisfies pondHost diveRef.methodIn) = some ("LSwims;" : Text) := by
    decide
  obtain ⟨method, m', hrun, howner, hname, _⟩ := hbound.found fun {found} hlocates => by
    rw [← hfirst]
    exact (hlocates.searches (by decide)).eq_find? duck_traversal hacyclic
  exact ⟨m, m', c, method, hused, hc, hrun, hname, howner⟩

/-- The class itself has the interface and its superclass has not, and so the call fails, although the
interface declares the method. -/
theorem special_call_of_interface_fails : ∃ (m m' : Machine) (c : RuntimeClass),
    Used pondHost (fun _ _ => True) m ∧ m.classes[("LDuck;" : Text)]? = some c ∧
    c.flags.isSuper = true ∧ Implements pondHost "LDuck;" (Descriptor.ofInternal diveRef.owner) ∧
    satisfies pondHost diveRef.methodIn (Descriptor.ofInternal diveRef.owner) = true ∧
    resolveSpecial (some c) diveRef (Session.context pondHost 20 9) m =
      .error (.unresolved ⟨.method, diveRef.text, none⟩) m' := by
  obtain ⟨m, hused, hholds, hinv, hcaches, hloads⟩ := pond_ready
  obtain ⟨hduck, c, hc, hstate, hflag⟩ :=
    pond_record hinv hholds (by decide : ("LDuck;" : Text) ∈ pond) (by decide)
  have hsuper : Follows pondHost "LDuck;" "LBird;" := ⟨_, rfl, by decide, by decide⟩
  have hinterface : Implements pondHost "LDuck;" (Descriptor.ofInternal diveRef.owner) :=
    ⟨_, rfl, _, by decide, rfl⟩
  obtain ⟨m₁, chain, names, _, hinv₁, hevolves, hancestry, hbinds⟩ :=
    binds_above (context_host pondHost 20 9) pond_hierarchy (by decide) hinv hcaches
      hloads hduck hc hstate ((hinv.table.superclass_iff hc hstate).mpr hsuper) hflag
      rfl (.single (.inr hinterface))
  obtain ⟨rfl, rfl⟩ := hancestry.unique (bird_ancestry hinv hholds)
  have hbird : m.classes.Linked "LBird;" := hholds.linked (by decide)
  obtain ⟨hbound, _⟩ := hbinds (not_remembersField pond_hierarchy hinv₁.table (hevolves.linked hbird)
    (by decide) (by decide))
  obtain ⟨m', hrun⟩ := hbound.unresolved fun {found} hlocates => by
    cases hlocates.searches (by decide) with
    | done => rfl
  exact ⟨m, m', c, hused, hc, hflag, hinterface, by decide, hrun⟩

end Diving

end ClassEngine
