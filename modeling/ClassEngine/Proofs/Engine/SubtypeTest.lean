import Mathlib.Data.Finset.Union
import ClassEngine.Proofs.Engine.Assignability

/-!
The subtype test comes to an end. Where no type is among its own interfaces, it ends as soon as the
initializers do that it sets off. Main result: `subtype_tests_end`.
-/

namespace ClassEngine

open Machine Exec Linking Resolution

section Served

variable {host : Host} {names : Finset Text} {d s : Descriptor}

/-- The types that the file of a class names above it. -/
def namedBy (host : Host) (name : Text) : List Descriptor :=
  match host.provider with
  | none => []
  | some provider =>
      match provider name with
      | .error _ => []
      | .ok file => (file.superName :: file.interfaces).map Descriptor.ofInternal

/-- The types that can stand above another one: the root class, and what the files served name. -/
def Host.namedAbove (host : Host) (names : Finset Text) : Finset Descriptor :=
  insert Descriptor.object (names.biUnion fun name => (namedBy host name).toFinset)

theorem Host.Serves.mem_namedAbove (h : host.Serves names) (habove : Above host d s) :
    s ∈ host.namedAbove names := by
  have hdefined : ∃ c, define host d = .ok c ∧
      (c.superName ≠ [] ∧ s = Descriptor.ofInternal c.superName ∨
        ∃ name ∈ c.interfaces, s = Descriptor.ofInternal name) := by
    rcases habove with ⟨c, hc, hsuper⟩ | ⟨c, hc, hinterface⟩
    · exact ⟨c, hc, .inl hsuper⟩
    · exact ⟨c, hc, .inr hinterface⟩
  obtain ⟨c, hc, hs⟩ := hdefined
  rw [Host.namedAbove, Finset.mem_insert, Finset.mem_biUnion]
  rcases define_eq_ok hc with rfl | ⟨provider, file, hprovider, hserved, hfile⟩
  · rcases hs with ⟨hne, rfl⟩ | ⟨name, hname, _⟩
    · exact .inl (by rw [bare_superName hne, ofInternal_object])
    · contradiction
  · refine .inr ⟨_, h hprovider hserved, ?_⟩
    obtain ⟨_, _, _, rfl⟩ := RuntimeClass.ofFile_eq_ok hfile
    rw [namedBy, hprovider]
    dsimp only
    rw [hserved, List.mem_toFinset, List.mem_map]
    rcases hs with ⟨_, rfl⟩ | ⟨i, hi, rfl⟩
    · exact ⟨_, List.mem_cons_self, rfl⟩
    · exact ⟨i, List.mem_cons_of_mem _ hi, rfl⟩

/-- A set of types with everything that they name above them and all that arrays are made of. The
interfaces that they name are among those that are loaded. -/
structure IsHierarchy (host : Host) (types loaded : Set Descriptor) : Prop where
  subset : loaded ⊆ types
  above : ∀ {d s}, d ∈ types → Above host d s → s ∈ types
  interface : ∀ {d i}, d ∈ types → Implements host d i → i ∈ loaded
  component : ∀ {d}, d ∈ types → Descriptor.isArray d = true →
    Descriptor.isPrimitive (Descriptor.component d) = false → Descriptor.component d ∈ types

variable {types loaded : Set Descriptor}

theorem IsHierarchy.reaches (h : IsHierarchy host types loaded) (hd : d ∈ types)
    (hs : Relation.ReflTransGen (Above host) d s) : s ∈ types := by
  induction hs with
  | refl => exact hd
  | tail _ hstep ih => exact h.above ih hstep

/-- There are steps enough for a test, and no interfaces on its way that lead back to themselves. -/
structure Affords (host : Host) (types : Set Descriptor) (named : Finset Descriptor) (fuel : Nat)
    (a b : Descriptor) : Prop where
  covers : ∀ {d s}, Above host d s → s ∈ named
  acyclic : ∀ {d}, d ∈ types → ¬Superinterface host d d
  steps : testSteps host named a b ≤ fuel

variable {named : Finset Descriptor} {fuel : Nat} {a b : Descriptor}

theorem Affords.above (h : Affords host types named (fuel + 1) a b)
    (hclosed : IsHierarchy host types loaded) {t : ClassTable} (ht : t.Sound host [])
    (ha : a ∈ types) (harray : Descriptor.isArray a = false) (habove : Above host a s)
    (hlinked : t.Linked s) :
    Affords host types named fuel s b where
  covers := h.covers
  acyclic := h.acyclic
  steps := by
    have hcycle := hlinked.not_cycle ht fun k hk =>
      h.acyclic (hclosed.reaches (hclosed.above ha habove) hk)
    have hshorter := testSteps_above (b := b) harray (h.covers habove) habove hcycle
    have hsteps := h.steps
    omega

theorem Affords.component (h : Affords host types named (fuel + 1) a b)
    (hb : Descriptor.isArray b = true) :
    Affords host types named fuel (Descriptor.component a) (Descriptor.component b) where
  covers := h.covers
  acyclic := h.acyclic
  steps := by
    have hshorter : testSteps host named (Descriptor.component a) (Descriptor.component b) <
        testSteps host named a b := testSteps_component hb
    have hsteps := h.steps
    omega

theorem not_affords_zero : ¬Affords host types named 0 a b := by
  intro h
  have hsteps := h.steps
  rw [testSteps] at hsteps
  omega

end Served

section Traversal

variable {α β : Type} {E : Raise → Prop} {ctx : Context} {types loaded : Set Descriptor}
  {m m' : Machine}

/-- What a subtype test asks for on its way through a set of types: that one of them be linked, and
that one be initialized which is to be loaded and is linked. -/
inductive Asks (types loaded : Set Descriptor) (m : Machine) : Exec Unit → Prop
  | link {d : Descriptor} (hd : d ∈ types) : Asks types loaded m (link d)
  | start {d : Descriptor} (hd : d ∈ loaded) (hlinked : m.classes.Linked d) :
      Asks types loaded m (initializeClass d)

/-- The engines that such questions lead to, one after the other. -/
def LeadsTo (ctx : Context) (types loaded : Set Descriptor) : Machine → Machine → Prop :=
  Relation.ReflTransGen fun m m' => ∃ x, Asks types loaded m x ∧ x ctx m = .ok () m'

/-- An engine in which no such question is answered by an error, but for errors of one kind. -/
structure Serving (E : Raise → Prop) (ctx : Context) (types loaded : Set Descriptor)
    (m : Machine) : Prop where
  inv : m.Inv ctx.host
  failing : ∀ {m' x e m''}, LeadsTo ctx types loaded m m' → Asks types loaded m' x →
    x ctx m' = .error e m'' → E e

/-- A computation that leaves such an engine behind, or fails with an error of that kind. -/
structure Proceeds (E : Raise → Prop) (ctx : Context) (types loaded : Set Descriptor)
    (m : Machine) (x : Exec α) : Prop where
  serving : ∀ {v m'}, x ctx m = .ok v m' → Serving E ctx types loaded m'
  failing : ∀ {e m'}, x ctx m = .error e m' → E e

theorem Serving.pure (h : Serving E ctx types loaded m) (v : α) :
    Proceeds E ctx types loaded m (Pure.pure v : Exec α) where
  serving hrun := by
    obtain ⟨_, rfl⟩ := EStateM.Result.ok.inj hrun
    exact h
  failing hrun := by contradiction

theorem Proceeds.bind {x : Exec α} {f : α → Exec β} (hx : Proceeds E ctx types loaded m x)
    (hf : ∀ {v m'}, x ctx m = .ok v m' → Serving E ctx types loaded m' →
      Proceeds E ctx types loaded m' (f v)) :
    Proceeds E ctx types loaded m (x >>= f) := by
  cases hrun : x ctx m with
  | error e m' =>
      refine ⟨fun h => ?_, fun h => ?_⟩
      · rw [bind_of_error hrun] at h
        contradiction
      · rw [bind_of_error hrun] at h
        obtain ⟨rfl, _⟩ := EStateM.Result.error.inj h
        exact hx.failing hrun
  | ok v m' =>
      have hrest := hf hrun (hx.serving hrun)
      refine ⟨fun h => ?_, fun h => ?_⟩
      · rw [bind_of_ok hrun] at h
        exact hrest.serving h
      · rw [bind_of_ok hrun] at h
        exact hrest.failing h

/-- The first of some names for which a test says yes. -/
theorem Serving.anyM {names : List Text} {f : Text → Exec Bool} (hm : Serving E ctx types loaded m)
    (hf : ∀ name ∈ names, ∀ {m}, Serving E ctx types loaded m →
      Proceeds E ctx types loaded m (f name)) :
    Proceeds E ctx types loaded m (names.anyM f) := by
  induction names generalizing m with
  | nil => exact hm.pure false
  | cons name names ih =>
      rw [List.anyM]
      refine (hf name List.mem_cons_self hm).bind fun {here _} _ hm' => ?_
      cases here with
      | true => exact hm'.pure true
      | false => exact ih hm' fun k hk => hf k (List.mem_cons_of_mem name hk)

/-- What a linked class has above it: a superclass that is linked, and its interfaces. -/
theorem above_of_linked {a : Descriptor} (hinv : m.Inv ctx.host) (hlinked : m.classes.Linked a) :
    ∃ c, m.classes[a]? = some c ∧
      (∀ {s}, c.superclass = some s → Above ctx.host a s ∧ m.classes.Linked s) ∧
      (∀ {name}, name ∈ c.interfaces → Implements ctx.host a (Descriptor.ofInternal name)) ∧
      ∀ {s}, Above ctx.host a s →
        c.superclass = some s ∨ ∃ name ∈ c.interfaces, s = Descriptor.ofInternal name := by
  obtain ⟨c, hc, hstate⟩ := hlinked
  obtain ⟨c₀, hc₀, hdefined⟩ := hinv.table.defined hc
  refine ⟨c, hc, fun hs => ⟨?_, (hinv.table.linked hc hstate).super hc hs⟩, fun hname => ?_, ?_⟩
  · exact (hinv.table.above_iff hc hstate).mpr (.inl hs)
  · rw [hdefined] at hname
    exact ⟨c₀, hc₀, _, hname, rfl⟩
  · exact fun habove => (hinv.table.above_iff hc hstate).mp habove

variable [SoundContext ctx]

theorem Asks.inv {x : Exec Unit} (hx : Asks types loaded m x) (hinv : m.Inv ctx.host)
    (hrun : x ctx m = .ok () m') : m'.Inv ctx.host := by
  cases hx with
  | link => exact ((sound_link (P := fun _ => True) _).of_ok hinv trivial hrun).1
  | start _ hlinked => exact ((sound_initializeClass _).of_ok hinv hlinked hrun).1

theorem LeadsTo.inv (h : LeadsTo ctx types loaded m m') (hinv : m.Inv ctx.host) :
    m'.Inv ctx.host := by
  induction h with
  | refl => exact hinv
  | tail _ hstep ih =>
      obtain ⟨x, hx, hrun⟩ := hstep
      exact hx.inv ih hrun

theorem Serving.ask (hm : Serving E ctx types loaded m) {x : Exec Unit}
    (hx : Asks types loaded m x) : Proceeds E ctx types loaded m x where
  serving hrun := by
    refine ⟨hx.inv hm.inv hrun, fun hreach => ?_⟩
    exact hm.failing (.head ⟨x, hx, hrun⟩ hreach)
  failing hrun := hm.failing .refl hx hrun

theorem Serving.loadClass (hm : Serving E ctx types loaded m) (hsubset : loaded ⊆ types)
    {name : Text} (hname : Descriptor.ofInternal name ∈ loaded) :
    Proceeds E ctx types loaded m (loadClass name) := by
  refine (hm.ask (.link (hsubset hname))).bind fun {_ m₁} hlink hm₁ => ?_
  have hlinked : m₁.classes.Linked (Descriptor.ofInternal name) :=
    ((sound_link (P := fun _ => True) _).of_ok hm.inv trivial hlink).2
  refine (hm₁.ask (.start hname hlinked)).bind fun {_ m₂} hinit hm₂ => ?_
  -- The class has been there since it was linked, so looking it up cannot fail.
  obtain ⟨c, hc, _⟩ := ((sound_initializeClass _).of_ok hm₁.inv hlinked hinit).2.started
  have hfound : classAt (Descriptor.ofInternal name) ctx m₂ = .ok c m₂ := classAt_eq_ok hc
  refine ⟨fun h => ?_, fun h => ?_⟩
  · rw [hfound] at h
    obtain ⟨_, rfl⟩ := EStateM.Result.ok.inj h
    exact hm₂
  · rw [hfound] at h
    contradiction

/-- A class is linked once it has been loaded. -/
theorem linked_of_loadClass {name : Text} {c : RuntimeClass} (hinv : m.Inv ctx.host)
    (h : loadClass name ctx m = .ok c m') : m'.classes.Linked (Descriptor.ofInternal name) := by
  have hknown := ((sound_loadClass (P := fun _ => True) name).of_ok hinv trivial h).2
  obtain ⟨k, hk, hstarted⟩ := hknown.1 ▸ hknown.2.started
  exact ⟨k, hk, hstarted.isLinked⟩

section Steps

variable {named : Finset Descriptor} {fuel : Nat} {a b : Descriptor}
  (hclosed : IsHierarchy ctx.host types loaded)
  (ih : ∀ {a b : Descriptor} {m : Machine}, a ∈ types → b ∈ types → m.classes.Linked a →
    Serving E ctx types loaded m → (E .exhausted ∨ Affords ctx.host types named fuel a b) →
    Proceeds E ctx types loaded m (assignableWithin fuel a b))
include hclosed ih

/-- A test of two arrays goes on with what they are made of. -/
theorem proceeds_components (ha : a ∈ types) (hb : b ∈ types) (hm : Serving E ctx types loaded m)
    (hbudget : E .exhausted ∨ Affords ctx.host types named (fuel + 1) a b) (hne : a ≠ b)
    (harray : Descriptor.isArray a = true) (hbarray : Descriptor.isArray b = true) :
    Proceeds E ctx types loaded m (assignableWithin (fuel + 1) a b) := by
  rw [assignableWithin, if_neg hne, if_pos harray, if_neg (by simp [hbarray])]
  by_cases hprimitive : (Descriptor.isPrimitive (Descriptor.component a) ||
      Descriptor.isPrimitive (Descriptor.component b)) = true
  · rw [if_pos hprimitive]
    exact hm.pure _
  · rw [if_neg hprimitive]
    rw [Bool.or_eq_true, not_or, Bool.not_eq_true, Bool.not_eq_true] at hprimitive
    have hca := hclosed.component ha harray hprimitive.1
    have hcb := hclosed.component hb hbarray hprimitive.2
    refine (hm.ask (.link hca)).bind fun {_ m₁} hlinka hm₁ => ?_
    refine (hm₁.ask (.link hcb)).bind fun {_ m₂} hlinkb hm₂ => ?_
    have hlinked : m₁.classes.Linked (Descriptor.component a) :=
      ((sound_link (P := fun _ => True) _).of_ok hm.inv trivial hlinka).2
    exact ih hca hcb (((safe_link _).evolves hlinkb).classes.linked hlinked) hm₂
      (hbudget.imp_right fun h => h.component hbarray)

/-- A test of a class goes on with its superclass and then with its interfaces. -/
theorem proceeds_class (ha : a ∈ types) (hb : b ∈ types) (hlinked : m.classes.Linked a)
    (hm : Serving E ctx types loaded m)
    (hbudget : E .exhausted ∨ Affords ctx.host types named (fuel + 1) a b) (hne : a ≠ b)
    (harray : Descriptor.isArray a = false) :
    Proceeds E ctx types loaded m (assignableWithin (fuel + 1) a b) := by
  have hup : ∀ {s m'}, Above ctx.host a s → m'.classes.Linked s → Serving E ctx types loaded m' →
      Proceeds E ctx types loaded m' (assignableWithin fuel s b) := fun habove hlinked hm' =>
    ih (hclosed.above ha habove) hb hlinked hm'
      (hbudget.imp_right fun h => h.above hclosed hm'.inv.table ha harray habove hlinked)
  obtain ⟨c, hc, hsuper, hinterface, _⟩ := above_of_linked hm.inv hlinked
  rw [assignableWithin, if_neg hne, if_neg (by simp [harray])]
  have hfound : Proceeds E ctx types loaded m (classAt a) := by
    constructor
    · intro v m' h
      obtain ⟨rfl, _⟩ := classAt_ok h
      exact hm
    · intro e m' h
      rw [classAt_eq_ok hc] at h
      contradiction
  refine hfound.bind fun {c' m₁} hrun hm₁ => ?_
  obtain ⟨rfl, hc'⟩ := classAt_ok hrun
  obtain rfl := Option.some.inj (hc.symm.trans hc')
  have habove : Proceeds E ctx types loaded m₁
      (c.superclass.elim (pure false) fun s => assignableWithin fuel s b) := by
    cases hs : c.superclass with
    | none => exact hm₁.pure false
    | some s => exact hup (hsuper hs).1 (hsuper hs).2 hm₁
  refine habove.bind fun {above m₂} _ hm₂ => ?_
  cases above with
  | true => exact hm₂.pure true
  | false =>
      refine hm₂.anyM fun name hname {m₃} hm₃ => ?_
      have hmem := hclosed.interface ha (hinterface hname)
      refine (hm₃.loadClass hclosed.subset hmem).bind fun {k m₄} hload hm₄ => ?_
      exact hup (.inr (hinterface hname)) (linked_of_loadClass hm₃.inv hload) hm₄

end Steps

/-- A test fails only with errors of the given kind, if there are steps enough or running out of
steps is of that kind. -/
theorem proceeds_assignableWithin (hclosed : IsHierarchy ctx.host types loaded)
    {named : Finset Descriptor} {fuel : Nat} {a b : Descriptor} (ha : a ∈ types) (hb : b ∈ types)
    (hlinked : m.classes.Linked a) (hm : Serving E ctx types loaded m)
    (hbudget : E .exhausted ∨ Affords ctx.host types named fuel a b) :
    Proceeds E ctx types loaded m (assignableWithin fuel a b) := by
  induction fuel generalizing a b m with
  | zero =>
      refine ⟨fun h => ?_, fun h => ?_⟩
      · contradiction
      · obtain ⟨rfl, _⟩ := EStateM.Result.error.inj h
        exact hbudget.resolve_right not_affords_zero
  | succ fuel ih =>
      by_cases hne : a = b
      · rw [assignableWithin, if_pos hne]
        exact hm.pure true
      cases harray : Descriptor.isArray a with
      | false => exact proceeds_class hclosed ih ha hb hlinked hm hbudget hne harray
      | true =>
          cases hbarray : Descriptor.isArray b with
          | true => exact proceeds_components hclosed ih ha hb hm hbudget hne harray hbarray
          | false =>
              rw [assignableWithin, if_neg hne, if_pos harray, if_pos (by simp [hbarray])]
              exact hm.pure _

theorem proceeds_assignable (hclosed : IsHierarchy ctx.host types loaded)
    {named : Finset Descriptor} {a b : Descriptor} (ha : a ∈ types) (hb : b ∈ types)
    (hlinked : m.classes.Linked a) (hm : Serving E ctx types loaded m)
    (hbudget : E .exhausted ∨ Affords ctx.host types named ctx.fuel a b) :
    Proceeds E ctx types loaded m (assignable a b) := by
  have hproceeds := proceeds_assignableWithin hclosed ha hb hlinked hm hbudget
  exact ⟨fun h => hproceeds.serving h, fun h => hproceeds.failing h⟩

end Traversal

section Termination

variable {α : Type} {ctx : Context} {types loaded : Set Descriptor} {names : Finset Text}
  {m : Machine}

/-- A computation comes to an end, with a result or with an error. -/
def Ends (ctx : Context) (m : Machine) (x : Exec α) : Prop :=
  ∀ m', x ctx m ≠ .error .exhausted m'

/-- The initializers come to an end that a test in a set of types sets off. -/
def InitializersEnd (ctx : Context) (types loaded : Set Descriptor) (m : Machine) :
    Prop :=
  ∀ ⦃m' : Machine⦄, LeadsTo ctx types loaded m m' → ∀ d ∈ loaded, m'.classes.Linked d →
    Ends ctx m' (initializeClass d)

/-- How many steps a test may take. -/
def Host.testBound (host : Host) (names : Finset Text) (b : Descriptor) : Nat :=
  (Descriptor.dimensions b + 1) * ((host.namedAbove names).card + 2)

/-- There are steps enough for the tests against a type. -/
def Suffices (ctx : Context) (names : Finset Text) (b : Descriptor) : Prop :=
  ctx.host.testBound names b ≤ ctx.fuel

theorem Proceeds.ends {x : Exec α} (h : Proceeds (· ≠ .exhausted) ctx types loaded m x) :
    Ends ctx m x :=
  fun _ hrun => h.failing hrun rfl

variable [SoundContext ctx]

/-- Linking comes to an end by itself. -/
theorem serving_of_initializersEnd (hserves : ctx.host.Serves names)
    (hlinking : names.card + 3 ≤ ctx.fuel) (hinv : m.Inv ctx.host)
    (hends : InitializersEnd ctx types loaded m) : Serving (· ≠ .exhausted) ctx types loaded m := by
  refine ⟨hinv, fun {m' x e m''} hreach hx hrun => ?_⟩
  rintro rfl
  cases hx with
  | link => exact link_terminates hserves hlinking (hreach.inv hinv).table _ hrun
  | start hd hlinked => exact hends hreach _ hd hlinked m'' hrun

section Tests

variable {a : Descriptor} (htest : ∀ {b : Descriptor} {m : Machine}, b ∈ types →
    Suffices ctx names b → m.classes.Linked a → Serving (· ≠ .exhausted) ctx types loaded m →
    Proceeds (· ≠ .exhausted) ctx types loaded m (assignable a b))
include htest

theorem proceeds_loaded (hsubset : loaded ⊆ types) {name : Text}
    (hname : Descriptor.ofInternal name ∈ loaded)
    (hsteps : Suffices ctx names (Descriptor.ofInternal name)) (hlinked : m.classes.Linked a)
    (hm : Serving (· ≠ .exhausted) ctx types loaded m) :
    Proceeds (· ≠ .exhausted) ctx types loaded m (do
      let _ ← loadClass name
      assignable a (Descriptor.ofInternal name)) := by
  refine (hm.loadClass hsubset hname).bind fun {c m₁} hload hm₁ => ?_
  have hlinked₁ := ((safe_loadClass name).evolves hload).classes.linked hlinked
  exact htest (hsubset hname) hsteps hlinked₁ hm₁

theorem proceeds_stored {component : Descriptor} (hcomponent : component ∈ types)
    (hsteps : Suffices ctx names component) (hlinked : m.classes.Linked a)
    (hm : Serving (· ≠ .exhausted) ctx types loaded m) :
    Proceeds (· ≠ .exhausted) ctx types loaded m (do
      link component
      assignable a component) := by
  refine (hm.ask (.link hcomponent)).bind fun {_ m₁} hlink hm₁ => ?_
  have hlinked₁ := ((safe_link component).evolves hlink).classes.linked hlinked
  exact htest hcomponent hsteps hlinked₁ hm₁

/-- Looking for a handler tries one class after the other. -/
theorem proceeds_findHandler (hsubset : loaded ⊆ types) (pc : Int) {handlers : List Handler}
    (hcaught : ∀ h ∈ handlers, h.catchType ≠ [] → Descriptor.ofInternal h.catchType ∈ loaded ∧
      Suffices ctx names (Descriptor.ofInternal h.catchType))
    (hlinked : m.classes.Linked a) (hm : Serving (· ≠ .exhausted) ctx types loaded m) :
    Proceeds (· ≠ .exhausted) ctx types loaded m (Interpreter.findHandler pc a handlers) := by
  induction handlers generalizing m with
  | nil => exact hm.pure none
  | cons h rest ih =>
      have hrest := fun k hk => hcaught k (List.mem_cons_of_mem h hk)
      rw [Interpreter.findHandler]
      by_cases hcovers : (!h.covers pc) = true
      · rw [if_pos hcovers]
        exact ih hrest hlinked hm
      rw [if_neg hcovers]
      by_cases hany : h.catchType.isEmpty = true
      · rw [if_pos hany]
        exact hm.pure (some h)
      rw [if_neg hany]
      have hne : h.catchType ≠ [] := fun hnil => hany (by rw [hnil]; rfl)
      obtain ⟨hmem, hsteps⟩ := hcaught h List.mem_cons_self hne
      refine (hm.loadClass hsubset hmem).bind fun {c m₁} hload hm₁ => ?_
      have hlinked₁ := ((safe_loadClass h.catchType).evolves hload).classes.linked hlinked
      refine (htest (hsubset hmem) hsteps hlinked₁ hm₁).bind fun {accepts m₂} htested hm₂ => ?_
      cases accepts with
      | true => exact hm₂.pure (some h)
      | false =>
          have hlinked₂ := ((safe_assignable a _).evolves htested).classes.linked hlinked₁
          exact ih hrest hlinked₂ hm₂

end Tests

end Termination

/-- Subtype tests end. Let the provider serve finitely many classes, and let a set of types hold all
that stands above its types and all that its arrays are made of. If none of the types is among its
own interfaces, and the initializers of those end that are loaded (the interfaces, and the classes
that are named to test against), then every test of a linked type against another one ends, also for
the sake of a cast, a handler or a store in an array. -/
theorem subtype_tests_end {host : Host} {steps nesting : Nat} {names : Finset Text}
    {types loaded : Set Descriptor} {m : Machine} (hserves : host.Serves names)
    (hclosed : IsHierarchy host types loaded) (hacyclic : ∀ d ∈ types, ¬Superinterface host d d)
    (hinv : m.Inv host) (hlinking : names.card + 3 ≤ steps)
    (hends : InitializersEnd (Session.context host steps nesting) types loaded m) :
    let ctx := Session.context host steps nesting
    let Enough := fun b => host.testBound names b ≤ steps
    ∀ a ∈ types, m.classes.Linked a →
      (∀ b ∈ types, Enough b → Ends ctx m (assignable a b)) ∧
      (∀ (o : Object) (name : Text), o.type = a → Descriptor.ofInternal name ∈ loaded →
        Enough (Descriptor.ofInternal name) → Ends ctx m (instanceOf o name)) ∧
      (∀ (pc : Int) (handlers : List Handler),
        (∀ h ∈ handlers, h.catchType ≠ [] → Descriptor.ofInternal h.catchType ∈ loaded ∧
          Enough (Descriptor.ofInternal h.catchType)) →
        Ends ctx m (Interpreter.findHandler pc a handlers)) ∧
      ∀ component ∈ types, Enough component → Ends ctx m (do
        link component
        assignable a component) := by
  intro ctx Enough a ha hlinked
  have hhost : ctx.host = host := context_host host steps nesting
  have hfuel : ctx.fuel = steps := context_fuel host steps nesting
  rw [← hhost] at hserves hclosed hacyclic hinv
  rw [← hfuel] at hlinking
  have hm := serving_of_initializersEnd hserves hlinking hinv hends
  have hsuffices : ∀ {b}, Enough b → Suffices ctx names b := fun hb => by
    rw [Suffices, hhost, hfuel]
    exact hb
  have htest : ∀ {b : Descriptor} {m : Machine}, b ∈ types → Suffices ctx names b →
      m.classes.Linked a → Serving (· ≠ .exhausted) ctx types loaded m →
      Proceeds (· ≠ .exhausted) ctx types loaded m (assignable a b) := by
    intro b m hb hsteps hlinked hm
    refine proceeds_assignable hclosed ha hb hlinked hm (.inr ⟨hserves.mem_namedAbove, ?_, ?_⟩)
    · exact fun hd => hacyclic _ hd
    · exact (testSteps_le _ _ a b).trans hsteps
  refine ⟨?_, ?_, ?_, ?_⟩
  · exact fun b hb hsteps => (htest hb (hsuffices hsteps) hlinked hm).ends
  · rintro o name rfl hname hsteps
    exact (proceeds_loaded htest hclosed.subset hname (hsuffices hsteps) hlinked hm).ends
  · intro pc handlers hcaught
    refine (proceeds_findHandler htest hclosed.subset pc (fun h hh hne => ?_) hlinked hm).ends
    exact (hcaught h hh hne).imp_right hsuffices
  · intro component hcomponent hsteps
    exact (proceeds_stored htest hcomponent (hsuffices hsteps) hlinked hm).ends

section Loaded

variable {host : Host} {types loaded : Set Descriptor} {m m' : Machine} {steps nesting : Nat}

/-- Where all types are initialized, asking for them changes nothing. -/
theorem Asks.same (hsubset : loaded ⊆ types)
    (hm : ∀ d ∈ types, ∃ c, m.classes[d]? = some c ∧ c.state = .initialized)
    {x : Exec Unit} (hx : Asks types loaded m x) :
    x (Session.context host (steps + 1) (nesting + 1)) m = .ok () m := by
  cases hx with
  | link hd =>
      obtain ⟨c, hc, hstate⟩ := hm _ hd
      rw [link_eq, context_fuel, linkWithin_registered hc, hstate]
  | start hd =>
      obtain ⟨c, hc, hstate⟩ := hm _ (hsubset hd)
      exact initializeOnce_ready hc (.inr hstate)

theorem LeadsTo.same (hsubset : loaded ⊆ types)
    (hm : ∀ d ∈ types, ∃ c, m.classes[d]? = some c ∧ c.state = .initialized)
    (h : LeadsTo (Session.context host (steps + 1) (nesting + 1)) types loaded m m') : m' = m := by
  induction h with
  | refl => rfl
  | tail _ hstep ih =>
      obtain ⟨x, hx, hrun⟩ := hstep
      rw [ih] at hx hrun
      rw [hx.same hsubset hm] at hrun
      exact (EStateM.Result.ok.inj hrun).2.symm

theorem serving_of_initialized {E : Raise → Prop} (hsubset : loaded ⊆ types) (hinv : m.Inv host)
    (hm : ∀ d ∈ types, ∃ c, m.classes[d]? = some c ∧ c.state = .initialized) :
    Serving E (Session.context host (steps + 1) (nesting + 1)) types loaded m where
  inv := by rwa [context_host]
  failing hreach hx hrun := by
    rw [hreach.same hsubset hm] at hx hrun
    rw [hx.same hsubset hm] at hrun
    contradiction

theorem initializersEnd_of_initialized (hsubset : loaded ⊆ types)
    (hm : ∀ d ∈ types, ∃ c, m.classes[d]? = some c ∧ c.state = .initialized) :
    InitializersEnd (Session.context host (steps + 1) (nesting + 1)) types loaded m := by
  intro m' hreach d hd hlinked m'' hrun
  rw [hreach.same hsubset hm] at hlinked hrun
  rw [(Asks.start hd hlinked).same hsubset hm] at hrun
  contradiction

/-- A family is a hierarchy, of which any type may be loaded. -/
theorem IsFamily.isHierarchy {types : Finset Descriptor} (h : IsFamily host types) :
    IsHierarchy host (types : Set Descriptor) types where
  subset := subset_rfl
  above := h.above
  interface hd himplements := h.above hd (.inr himplements)
  component := h.component

theorem shapesHost_serves : shapesHost.Serves
    {("java/lang/Object" : Text), ("java/lang/Cloneable" : Text), ("java/io/Serializable" : Text),
      ("Shape" : Text), ("Disc" : Text)} := by
  intro provider name file hprovider hfile
  obtain rfl := Option.some.inj hprovider
  dsimp only at hfile
  split at hfile
  · simp [*]
  split at hfile
  · simp [*]
  split at hfile
  · simp [*]
  split at hfile
  · simp [*]
  split at hfile
  · simp [*]
  · contradiction

theorem subtype_tests_end_shapes : ∃ m, Used shapesHost (fun _ _ => True) m ∧
    InitializersEnd (Session.context shapesHost 20 1) shapes.toFinset shapes.toFinset m ∧
    Ends (Session.context shapesHost 20 1) m (assignable "[LDisc;" "[LShape;") := by
  obtain ⟨m, hm, hholds⟩ := shapesHost_loads
  have hinitialized : ∀ d ∈ (shapes.toFinset : Set Descriptor),
      ∃ c, m.classes[d]? = some c ∧ c.state = .initialized :=
    fun d hd => hholds.initialized d (List.mem_toFinset.mp hd)
  have hends : InitializersEnd (Session.context shapesHost 20 1) shapes.toFinset shapes.toFinset
      m := initializersEnd_of_initialized subset_rfl hinitialized
  have hdiscs : ("[LDisc;" : Text) ∈ shapes := by decide +kernel
  have hshapes : ("[LShape;" : Text) ∈ shapes := by decide +kernel
  have hmem : ∀ {d}, d ∈ shapes → d ∈ (shapes.toFinset : Set Descriptor) := by simp
  have htests := subtype_tests_end shapesHost_serves shapes_family.isHierarchy
    (fun d hd => shapes_family.acyclic hd) hm.reachable.inv (by decide +kernel) hends
    "[LDisc;" (hmem hdiscs) (hholds.linked hdiscs)
  exact ⟨m, hm, hends, htests.1 "[LShape;" (hmem hshapes) (by decide +kernel)⟩

end Loaded

end ClassEngine
