import ClassEngine.Proofs.Engine.Moments

/-!
The subtype test is the subtype order. For a finite set of types whose superclasses and interfaces
load, and in which no type is among its own interfaces, the test comes to an answer, and the answer
is whether the one type can be reached from the other by the declared supertypes and the rules for
arrays. Main result: `assignability_is_subtyping`.
-/

namespace ClassEngine

open Machine Exec Linking Resolution

section Supertypes

/-- A type declares another one among its interfaces. -/
def Implements (host : Host) (d i : Descriptor) : Prop :=
  ∃ c, define host d = .ok c ∧ ∃ name ∈ c.interfaces, i = Descriptor.ofInternal name

/-- A type names another one as its superclass or among its interfaces. -/
def Above (host : Host) (d s : Descriptor) : Prop :=
  Follows host d s ∨ Implements host d s

/-- A type has an interface: it declares it, or something above it does. -/
def Superinterface (host : Host) (d i : Descriptor) : Prop :=
  ∃ k, Relation.ReflTransGen (Above host) d k ∧ Implements host k i

/-- The types that every array may be used for. -/
def arraySupers : List Descriptor :=
  [Descriptor.object, "Ljava/lang/Cloneable;", "Ljava/io/Serializable;"]

/-- The least reflexive and transitive relation with the superclasses, the declared interfaces, the
supertypes of all arrays, and the arrays of related types that are not primitive. -/
inductive Widens (host : Host) : Descriptor → Descriptor → Prop
  | refl (a : Descriptor) : Widens host a a
  | trans {a b c : Descriptor} (hab : Widens host a b) (hbc : Widens host b c) : Widens host a c
  | super {a s : Descriptor} (h : Follows host a s) : Widens host a s
  | interface {a i : Descriptor} (h : Implements host a i) : Widens host a i
  | array {a b : Descriptor} (ha : Descriptor.isArray a = true) (hb : b ∈ arraySupers) :
      Widens host a b
  | component {s t : Descriptor} (hs : Descriptor.isPrimitive s = false)
      (ht : Descriptor.isPrimitive t = false) (h : Widens host s t) :
      Widens host (Descriptor.arrayOf s) (Descriptor.arrayOf t)

/-- The root class has nothing above it, and the other two types that arrays may be used for have
only the root class. -/
structure HasRootTypes (host : Host) : Prop where
  object : ∀ {c}, define host Descriptor.object = .ok c → c.superName = [] ∧ c.interfaces = []
  marker : ∀ {d c}, d ∈ arraySupers → d ≠ Descriptor.object → define host d = .ok c →
    c.superName = "java/lang/Object" ∧ c.interfaces = []

/-- The same relation, one step at a time: up from a class, and for arrays by their components. -/
inductive Descends (host : Host) : Descriptor → Descriptor → Prop
  | refl (a : Descriptor) : Descends host a a
  | up {a s b : Descriptor} (ha : Descriptor.isArray a = false) (hs : Above host a s)
      (hrest : Descends host s b) : Descends host a b
  | array {a b : Descriptor} (ha : Descriptor.isArray a = true) (hb : b ∈ arraySupers) :
      Descends host a b
  | component {a b : Descriptor} (ha : Descriptor.isArray a = true)
      (hb : Descriptor.isArray b = true)
      (hca : Descriptor.isPrimitive (Descriptor.component a) = false)
      (hcb : Descriptor.isPrimitive (Descriptor.component b) = false)
      (hrest : Descends host (Descriptor.component a) (Descriptor.component b)) :
      Descends host a b

variable {host : Host} {a b c : Descriptor}

theorem not_isArray_of_mem_arraySupers (h : b ∈ arraySupers) : Descriptor.isArray b = false := by
  have hall : ∀ d ∈ arraySupers, Descriptor.isArray d = false := by decide
  exact hall b h

/-- The definition of an array is that of its shape. -/
theorem define_array {r : RuntimeClass} (ha : Descriptor.isArray a = true)
    (h : define host a = .ok r) : r = .bare a := by
  rw [define] at h
  split at h
  · exact (Except.ok.inj h).symm
  · split at h
    · contradiction
    · exact (Except.ok.inj h).symm

/-- Above an array there is only the root class. -/
theorem Above.eq_object {s : Descriptor} (ha : Descriptor.isArray a = true) (h : Above host a s) :
    s = Descriptor.object := by
  rcases h with ⟨r, hr, _, rfl⟩ | ⟨r, hr, name, hname, rfl⟩
  · obtain rfl := define_array ha hr
    have hsuper : (RuntimeClass.bare a).superName = "java/lang/Object" := if_pos ha
    rw [hsuper, ofInternal_object]
  · obtain rfl := define_array ha hr
    contradiction

theorem HasRootTypes.not_above_object (h : HasRootTypes host) {s : Descriptor} :
    ¬Above host Descriptor.object s := by
  rintro (⟨r, hr, hne, _⟩ | ⟨r, hr, name, hname, _⟩)
  · exact hne (h.object hr).1
  · rw [(h.object hr).2] at hname
    contradiction

theorem HasRootTypes.above_marker (h : HasRootTypes host) {s : Descriptor} (hb : b ∈ arraySupers)
    (hne : b ≠ Descriptor.object) (habove : Above host b s) : s = Descriptor.object := by
  rcases habove with ⟨r, hr, _, rfl⟩ | ⟨r, hr, name, hname, _⟩
  · rw [(h.marker hb hne hr).1, ofInternal_object]
  · rw [(h.marker hb hne hr).2] at hname
    contradiction

/-- What the root class may be used for. -/
theorem HasRootTypes.eq_object (h : HasRootTypes host) (hb : Descends host Descriptor.object b) :
    b = Descriptor.object := by
  cases hb with
  | refl => rfl
  | up _ hs => exact absurd hs h.not_above_object
  | array ha => contradiction
  | component ha => contradiction

/-- What arrays may be used for leads to nothing else. -/
theorem HasRootTypes.mem_arraySupers (h : HasRootTypes host) (hb : b ∈ arraySupers)
    (hbc : Descends host b c) : c ∈ arraySupers := by
  have hnot := not_isArray_of_mem_arraySupers hb
  cases hbc with
  | refl => exact hb
  | up _ hs hrest =>
      by_cases hobject : b = Descriptor.object
      · rw [hobject] at hs
        exact absurd hs h.not_above_object
      · rw [h.above_marker hb hobject hs] at hrest
        rw [h.eq_object hrest]
        exact List.mem_cons_self
  | array ha => rw [hnot] at ha; contradiction
  | component ha => rw [hnot] at ha; contradiction

theorem Descends.trans (hroots : HasRootTypes host) (hab : Descends host a b)
    (hbc : Descends host b c) : Descends host a c := by
  induction hab generalizing c with
  | refl => exact hbc
  | up ha hs _ ih => exact .up ha hs (ih hbc)
  | array ha hb => exact .array ha (hroots.mem_arraySupers hb hbc)
  | component ha hb hca _ _ ih =>
      cases hbc with
      | refl => exact .component ha hb hca ‹_› ‹_›
      | up hb' => rw [hb] at hb'; contradiction
      | array _ hc => exact .array ha hc
      | component _ hc _ hcc hrest => exact .component ha hc hca hcc (ih hrest)

/-- What an array may be used for where no array is expected. -/
theorem descends_array_iff (hne : a ≠ b) (ha : Descriptor.isArray a = true)
    (hb : Descriptor.isArray b = false) : Descends host a b ↔ b ∈ arraySupers := by
  constructor
  · intro h
    cases h with
    | refl => exact absurd rfl hne
    | up ha' => rw [ha] at ha'; contradiction
    | array _ hmem => exact hmem
    | component _ hb' => rw [hb] at hb'; contradiction
  · exact .array ha

/-- What an array may be used for where an array is expected. -/
theorem descends_component_iff (hne : a ≠ b) (ha : Descriptor.isArray a = true)
    (hb : Descriptor.isArray b = true) :
    Descends host a b ↔ Descriptor.isPrimitive (Descriptor.component a) = false ∧
      Descriptor.isPrimitive (Descriptor.component b) = false ∧
      Descends host (Descriptor.component a) (Descriptor.component b) := by
  constructor
  · intro h
    cases h with
    | refl => exact absurd rfl hne
    | up ha' => rw [ha] at ha'; contradiction
    | array _ hmem => rw [not_isArray_of_mem_arraySupers hmem] at hb; contradiction
    | component _ _ hca hcb hrest => exact ⟨hca, hcb, hrest⟩
  · rintro ⟨hca, hcb, hrest⟩
    exact .component ha hb hca hcb hrest

/-- What a class may be used for. -/
theorem descends_class_iff (hne : a ≠ b) (ha : Descriptor.isArray a = false) :
    Descends host a b ↔ ∃ s, Above host a s ∧ Descends host s b := by
  constructor
  · intro h
    cases h with
    | refl => exact absurd rfl hne
    | up _ hs hrest => exact ⟨_, hs, hrest⟩
    | array ha' => rw [ha] at ha'; contradiction
    | component ha' => rw [ha] at ha'; contradiction
  · rintro ⟨s, hs, hrest⟩
    exact .up ha hs hrest

/-- The record of a linked class tells what is above it. -/
theorem ClassTable.Sound.above_iff {t : ClassTable} {r : RuntimeClass} {s : Descriptor}
    (ht : t.Sound host []) (hr : t[a]? = some r) (hlinked : r.state.IsLinked) :
    Above host a s ↔
      r.superclass = some s ∨ ∃ name ∈ r.interfaces, s = Descriptor.ofInternal name := by
  obtain ⟨r₀, hr₀, hdefined⟩ := ht.defined hr
  have hname : r.superName = r₀.superName := hdefined.superName
  have hinterfaces : r.interfaces = r₀.interfaces := by rw [hdefined]
  have hfollows : Follows host a s ↔ r.superclass = some s := by
    have hunique : Follows host a s ↔ r.superName ≠ [] ∧ s = Descriptor.ofInternal r.superName := by
      rw [hname]
      constructor
      · rintro ⟨r₁, hr₁, hne, rfl⟩
        obtain rfl := Except.ok.inj (hr₀.symm.trans hr₁)
        exact ⟨hne, rfl⟩
      · rintro ⟨hne, rfl⟩
        exact ⟨r₀, hr₀, hne, rfl⟩
    rw [hunique]
    cases ht.linked hr hlinked with
    | root hr' _ hnone hsuper =>
        obtain rfl := Option.some.inj (hr.symm.trans hr')
        simp [hnone, hsuper]
    | up hr' _ hsome hsuper _ =>
        obtain rfl := Option.some.inj (hr.symm.trans hr')
        simp [hsome, hsuper, eq_comm]
  have himplements :
      Implements host a s ↔ ∃ name ∈ r.interfaces, s = Descriptor.ofInternal name := by
    rw [hinterfaces]
    constructor
    · rintro ⟨r₁, hr₁, hmem⟩
      obtain rfl := Except.ok.inj (hr₀.symm.trans hr₁)
      exact hmem
    · exact fun hmem => ⟨r₀, hr₀, hmem⟩
  rw [Above, hfollows, himplements]

theorem Descends.of_above {s : Descriptor} (h : Above host a s) : Descends host a s := by
  cases ha : Descriptor.isArray a with
  | false => exact .up ha h (.refl s)
  | true =>
      rw [h.eq_object ha]
      exact .array ha List.mem_cons_self

/-- Going one step at a time loses nothing. -/
theorem widens_iff_descends (hroots : HasRootTypes host) :
    Widens host a b ↔ Descends host a b := by
  constructor
  · intro h
    induction h with
    | refl a => exact .refl a
    | trans _ _ hab hbc => exact hab.trans hroots hbc
    | super h => exact .of_above (.inl h)
    | interface h => exact .of_above (.inr h)
    | array ha hb => exact .array ha hb
    | component hs ht _ ih =>
        refine .component (isArray_arrayOf _) (isArray_arrayOf _) ?_ ?_ ?_
        all_goals simpa only [component_arrayOf]
  · intro h
    induction h with
    | refl a => exact .refl a
    | up _ hs _ ih =>
        rcases hs with hs | hs
        · exact .trans (.super hs) ih
        · exact .trans (.interface hs) ih
    | array ha hb => exact .array ha hb
    | component ha hb hca hcb _ ih =>
        rw [← arrayOf_component ha, ← arrayOf_component hb]
        exact .component hca hcb ih

end Supertypes

section Families

/-- A finite set of classes and arrays with everything that they name above them and all that arrays
are made of. None of their names stands for a primitive type. -/
structure IsFamily (host : Host) (types : Finset Descriptor) : Prop where
  shape : ∀ {d}, d ∈ types → (∃ name : Text, d = "L" ++ name ++ ";") ∨
    Descriptor.isArray d = true ∧ Descriptor.isPrimitive d = false
  above : ∀ {d s}, d ∈ types → Above host d s → s ∈ types
  component : ∀ {d}, d ∈ types → Descriptor.isArray d = true →
    Descriptor.isPrimitive (Descriptor.component d) = false → Descriptor.component d ∈ types
  acyclic : ∀ {d}, d ∈ types → ¬Superinterface host d d

variable {host : Host} {types : Finset Descriptor} {d s : Descriptor}

theorem IsFamily.reaches (h : IsFamily host types) (hd : d ∈ types)
    (hs : Relation.ReflTransGen (Above host) d s) : s ∈ types := by
  induction hs with
  | refl => exact hd
  | tail _ hstep ih => exact h.above ih hstep

/-- A way up goes by superclasses alone, or it takes an interface. -/
theorem above_cases (h : Relation.TransGen (Above host) d s) :
    Relation.TransGen (Follows host) d s ∨
      ∃ i, Superinterface host d i ∧ Relation.ReflTransGen (Above host) i s := by
  induction h with
  | single hstep =>
      rcases hstep with hstep | hstep
      · exact .inl (.single hstep)
      · exact .inr ⟨_, ⟨_, .refl, hstep⟩, .refl⟩
  | tail hbefore hstep ih =>
      rcases ih with hsupers | ⟨i, hi, hrest⟩
      · rcases hstep with hstep | hstep
        · exact .inl (hsupers.tail hstep)
        · exact .inr ⟨_, ⟨_, hbefore.to_reflTransGen, hstep⟩, .refl⟩
      · exact .inr ⟨i, hi, hrest.tail hstep⟩

/-- No way up from a linked type leads back to it, unless something on the way is among its own
interfaces. -/
theorem ClassTable.Linked.not_cycle {t : ClassTable} (hlinked : t.Linked d) (ht : t.Sound host [])
    (hacyclic : ∀ k, Relation.ReflTransGen (Above host) d k → ¬Superinterface host k k) :
    ¬Relation.TransGen (Above host) d d := by
  intro hcycle
  rcases above_cases hcycle with hsupers | ⟨i, ⟨k, hk, hki⟩, hback⟩
  · obtain ⟨c, hc, hstate⟩ := hlinked
    exact ht.not_leadsIntoCycle (ht.linked hc hstate) ⟨d, .refl, hsupers⟩
  · exact hacyclic i (hk.tail (.inr hki)) ⟨k, hback.trans hk, hki⟩

/-- In a family no way up from a linked type leads back to it. -/
theorem IsFamily.not_cycle (h : IsFamily host types) {t : ClassTable} (ht : t.Sound host [])
    (hd : d ∈ types) (hlinked : t.Linked d) : ¬Relation.TransGen (Above host) d d :=
  hlinked.not_cycle ht fun _ hk => h.acyclic (h.reaches hd hk)

open Classical in
/-- How many types of the set can still be met on the way up from a class. -/
noncomputable def rank (host : Host) (types : Finset Descriptor) (d : Descriptor) : Nat :=
  if Descriptor.isArray d then 0
  else (types.filter fun k => Relation.TransGen (Above host) d k).card + 1

theorem rank_le (host : Host) (types : Finset Descriptor) (d : Descriptor) :
    rank host types d ≤ types.card + 1 := by
  classical
  unfold rank
  split
  · omega
  · exact Nat.add_le_add_right (Finset.card_filter_le _ _) 1

theorem rank_lt_of_above (hd : Descriptor.isArray d = false) (hs : s ∈ types)
    (habove : Above host d s) (hcycle : ¬Relation.TransGen (Above host) s s) :
    rank host types s < rank host types d := by
  classical
  rw [rank, rank, if_neg (by simp [hd] : ¬Descriptor.isArray d = true)]
  split
  · omega
  · refine Nat.add_lt_add_right (Finset.card_lt_card ?_) 1
    rw [Finset.ssubset_iff_of_subset]
    · refine ⟨s, Finset.mem_filter.mpr ⟨hs, .single habove⟩, fun h => ?_⟩
      exact hcycle (Finset.mem_filter.mp h).2
    · intro k hk
      obtain ⟨hk, hreach⟩ := Finset.mem_filter.mp hk
      exact Finset.mem_filter.mpr ⟨hk, .head habove hreach⟩

/-- How many steps the subtype test takes at most. -/
noncomputable def testSteps (host : Host) (types : Finset Descriptor) (a b : Descriptor) : Nat :=
  Descriptor.dimensions b * (types.card + 2) + rank host types a + 1

theorem testSteps_le (host : Host) (types : Finset Descriptor) (a b : Descriptor) :
    testSteps host types a b ≤ (Descriptor.dimensions b + 1) * (types.card + 2) := by
  have hrank := rank_le host types a
  rw [testSteps, Nat.add_mul]
  omega

theorem testSteps_above {b : Descriptor} (hd : Descriptor.isArray d = false) (hs : s ∈ types)
    (habove : Above host d s) (hcycle : ¬Relation.TransGen (Above host) s s) :
    testSteps host types s b < testSteps host types d b := by
  have hrank := rank_lt_of_above hd hs habove hcycle
  rw [testSteps, testSteps]
  omega

theorem testSteps_component {a b : Descriptor} (hb : Descriptor.isArray b = true) :
    testSteps host types (Descriptor.component a) (Descriptor.component b) <
      testSteps host types a b := by
  have hle := testSteps_le host types (Descriptor.component a) (Descriptor.component b)
  have hdimensions := dimensions_component hb
  rw [← hdimensions] at hle
  refine Nat.lt_of_le_of_lt hle ?_
  rw [testSteps]
  omega

end Families

section Test

/-- What the subtype test asks for on its way through a set of types. -/
inductive Needs (host : Host) (types : Finset Descriptor) : Exec Unit → Prop
  | interface {d : Descriptor} {c : RuntimeClass} {name : Text} (hd : d ∈ types)
      (hc : define host d = .ok c) (hname : name ∈ c.interfaces) :
      Needs host types (discard (loadClass name))
  | component {d : Descriptor} (hd : d ∈ types) (harray : Descriptor.isArray d = true)
      (hreference : Descriptor.isPrimitive (Descriptor.component d) = false) :
      Needs host types (link (Descriptor.component d))

/-- The interfaces and components of the types load without error, in whatever order they are asked
for. -/
def LoadsAll (ctx : Context) (types : Finset Descriptor) (m : Machine) : Prop :=
  ∀ ⦃m' : Machine⦄,
    Relation.ReflTransGen (fun k k' => ∃ x, Needs ctx.host types x ∧ x ctx k = .ok () k') m m' →
    ∀ ⦃x⦄, Needs ctx.host types x → ∃ m'', x ctx m' = .ok () m''

/-- An engine in which the subtype test gets all it asks for. -/
structure Prepared (ctx : Context) (types : Finset Descriptor) (m : Machine) : Prop where
  inv : m.Inv ctx.host
  loads : LoadsAll ctx types m

variable {ctx : Context} {types : Finset Descriptor} {m : Machine}

/-- A test comes to an answer, and the answer is right. -/
def Decides (ctx : Context) (types : Finset Descriptor) (m : Machine) (x : Exec Bool) (p : Prop) :
    Prop :=
  ∃ res m', x ctx m = .ok res m' ∧ Prepared ctx types m' ∧ m.classes.Evolves m'.classes ∧
    (res = true ↔ p)

theorem Decides.answer (h : Prepared ctx types m) {res : Bool} {p : Prop} (hp : res = true ↔ p) :
    Decides ctx types m (pure res) p :=
  ⟨res, m, rfl, h, .refl _, hp⟩

/-- What is asked for first changes nothing about the answer. -/
theorem Decides.after {α : Type} {x : Exec α} {f : α → Exec Bool} {v : α} {m' : Machine} {p : Prop}
    (hx : x ctx m = .ok v m') (hevolves : m.classes.Evolves m'.classes)
    (h : Decides ctx types m' (f v) p) : Decides ctx types m (x >>= f) p := by
  obtain ⟨res, m'', hrun, hprepared, hevolves', hp⟩ := h
  exact ⟨res, m'', (bind_of_ok hx).trans hrun, hprepared, hevolves.trans hevolves', hp⟩

/-- One test, and then another if the first one fails. -/
theorem Decides.or {x y : Exec Bool} {f : Bool → Exec Bool} {p q : Prop}
    (hx : Decides ctx types m x p) (htrue : f true = pure true) (hfalse : f false = y)
    (hy : ∀ {m'}, Prepared ctx types m' → m.classes.Evolves m'.classes →
      Decides ctx types m' y q) : Decides ctx types m (x >>= f) (p ∨ q) := by
  obtain ⟨res, m', hrun, hprepared, hevolves, hp⟩ := hx
  refine .after hrun hevolves ?_
  cases res with
  | true =>
      rw [htrue]
      exact .answer hprepared (by simp [hp.mp rfl])
  | false =>
      have hnot : ¬p := fun h => Bool.false_ne_true (hp.mpr h)
      rw [hfalse, or_iff_right hnot]
      exact hy hprepared hevolves

/-- Asking for each interface whether it will do. -/
theorem decides_interfaces {fuel : Nat} {b : Descriptor} {names : List Text}
    (h : ∀ name ∈ names, ∀ {m}, Prepared ctx types m → Decides ctx types m (do
      let _ ← loadClass name
      assignableWithin fuel (Descriptor.ofInternal name) b)
      (Descends ctx.host (Descriptor.ofInternal name) b)) (hm : Prepared ctx types m) :
    Decides ctx types m (names.anyM fun name => do
      let _ ← loadClass name
      assignableWithin fuel (Descriptor.ofInternal name) b)
      (∃ name ∈ names, Descends ctx.host (Descriptor.ofInternal name) b) := by
  induction names generalizing m with
  | nil => exact .answer hm (by simp)
  | cons name names ih =>
      simp only [List.mem_cons, exists_eq_or_imp]
      refine .or (h name List.mem_cons_self hm) rfl rfl fun hm' _ => ?_
      exact ih (fun k hk => h k (List.mem_cons_of_mem name hk)) hm'

/-- The subtype test comes to an answer. -/
def TestAnswers (ctx : Context) (m : Machine) (a b : Descriptor) (res : Bool) : Prop :=
  ∃ m', assignable a b ctx m = .ok res m'

theorem TestAnswers.unique {a b : Descriptor} {res res' : Bool} (h : TestAnswers ctx m a b res)
    (h' : TestAnswers ctx m a b res') : res = res' := by
  obtain ⟨_, h⟩ := h
  obtain ⟨_, h'⟩ := h'
  exact (EStateM.Result.ok.inj (h.symm.trans h')).1

theorem ok_of_discard {α : Type} {x : Exec α} {m' : Machine}
    (h : discard x ctx m = .ok () m') : ∃ v, x ctx m = .ok v m' := by
  obtain ⟨v, m₁, hx, hend⟩ := of_bind_ok (f := fun _ => pure ()) h
  obtain ⟨-, rfl⟩ := EStateM.Result.ok.inj hend
  exact ⟨v, hx⟩

/-- The name of a class stands between the first letter and the last. -/
theorem className_of_shape {name : Text} (hname : name ≠ []) :
    Descriptor.className ("L" ++ name ++ ";") = name := by
  have hlength : 0 < name.length := List.length_pos_iff.mpr hname
  rw [Descriptor.className, if_pos]
  · change (([_] ++ name ++ [_] : Text).drop 1).dropLast = name
    simp
  · change (decide (2 < ([_] ++ name ++ [_] : Text).length) && _) = true
    simp only [List.length_append, List.length_cons, List.length_nil, Bool.and_eq_true,
      decide_eq_true_eq]
    exact ⟨by omega, rfl⟩

/-- Whether a class is one of those that every array may be used for is told by its name. -/
theorem mem_arraySupers_iff {b : Descriptor} (hshape : ∃ name : Text, b = "L" ++ name ++ ";") :
    b ∈ arraySupers ↔ isArraySuper (Descriptor.className b) = true := by
  obtain ⟨name, rfl⟩ := hshape
  by_cases hname : name = []
  · subst hname
    decide
  · have hsupers : arraySupers = [("java/lang/Object" : Text), "java/lang/Cloneable",
        "java/io/Serializable"].map fun n : Text => "L" ++ n ++ ";" := by decide
    have hinjective : ∀ n : Text, ("L" ++ name ++ ";" : Text) = "L" ++ n ++ ";" ↔ name = n := by
      intro n
      rw [List.append_left_inj, List.append_right_inj]
    rw [className_of_shape hname, hsupers, isArraySuper]
    simp only [List.map_cons, List.map_nil, List.mem_cons, List.not_mem_nil, or_false, hinjective,
      Bool.or_eq_true, beq_iff_eq, or_assoc]

variable [SoundContext ctx]

theorem Needs.safe {x : Exec Unit} (h : Needs ctx.host types x) : Safe ctx x := by
  cases h with
  | interface => exact Safe.bind (safe_loadClass _) fun _ => Safe.pure ()
  | component => exact safe_link _

/-- What the test asks for is there, and afterwards the rest is. -/
theorem Prepared.ask (h : Prepared ctx types m) {x : Exec Unit} (hx : Needs ctx.host types x) :
    ∃ m', x ctx m = .ok () m' ∧ Prepared ctx types m' ∧ m.classes.Evolves m'.classes := by
  obtain ⟨m', hrun⟩ := h.loads .refl hx
  have hinv := (SoundBy.of_ok hx.safe h.inv trivial hrun).1
  have hloads : LoadsAll ctx types m' := fun _ hk => h.loads (.head ⟨x, hx, hrun⟩ hk)
  exact ⟨m', hrun, ⟨hinv, hloads⟩, (hx.safe.evolves hrun).classes⟩

section Steps

variable {fuel : Nat} {a b : Descriptor} (hfamily : IsFamily ctx.host types)
  (ih : ∀ {a b : Descriptor} {m : Machine}, a ∈ types → b ∈ types → m.classes.Linked a →
    Prepared ctx types m → testSteps ctx.host types a b ≤ fuel →
    Decides ctx types m (assignableWithin fuel a b) (Descends ctx.host a b))
include hfamily ih

/-- Asking for the components of two arrays whether the one will do for the other. -/
theorem decides_components (ha : a ∈ types) (hb : b ∈ types) (hm : Prepared ctx types m)
    (hsteps : testSteps ctx.host types a b ≤ fuel + 1) (hne : a ≠ b)
    (harray : Descriptor.isArray a = true) (hbarray : Descriptor.isArray b = true) :
    Decides ctx types m (assignableWithin (fuel + 1) a b) (Descends ctx.host a b) := by
  have hcomponents := mt (Descriptor.eq_of_component harray hbarray) hne
  rw [assignableWithin, if_neg hne, if_pos harray, if_neg (by simp [hbarray]),
    descends_component_iff hne harray hbarray]
  by_cases hca : Descriptor.isPrimitive (Descriptor.component a) = true
  · rw [if_pos (by simp [hca])]
    exact .answer hm (by simp [hcomponents, hca])
  by_cases hcb : Descriptor.isPrimitive (Descriptor.component b) = true
  · rw [if_pos (by simp [hcb])]
    exact .answer hm (by simp [hcomponents, hcb])
  rw [Bool.not_eq_true] at hca hcb
  rw [if_neg (by simp [hca, hcb]), hca, hcb]
  obtain ⟨m₁, hlinka, hm₁, hevolves₁⟩ := hm.ask (.component ha harray hca)
  obtain ⟨m₂, hlinkb, hm₂, hevolves₂⟩ := hm₁.ask (.component hb hbarray hcb)
  have hlinked : m₂.classes.Linked (Descriptor.component a) :=
    hevolves₂.linked ((sound_link (P := fun _ => True) _).of_ok hm.inv trivial hlinka).2
  have hshorter : testSteps ctx.host types (Descriptor.component a) (Descriptor.component b) <
      testSteps ctx.host types a b := testSteps_component hbarray
  refine .after hlinka hevolves₁ (.after hlinkb hevolves₂ ?_)
  simpa using ih (hfamily.component ha harray hca) (hfamily.component hb hbarray hcb) hlinked hm₂
    (by omega)

omit [SoundContext ctx] in
/-- Asking for what stands above a class. -/
theorem decides_above {s : Descriptor} (ha : a ∈ types) (hb : b ∈ types)
    (harray : Descriptor.isArray a = false) (habove : Above ctx.host a s)
    (hsteps : testSteps ctx.host types a b ≤ fuel + 1) (hlinked : m.classes.Linked s)
    (hm : Prepared ctx types m) :
    Decides ctx types m (assignableWithin fuel s b) (Descends ctx.host s b) := by
  have hs := hfamily.above ha habove
  have hcycle := hfamily.not_cycle hm.inv.table hs hlinked
  have hshorter := testSteps_above (b := b) harray hs habove hcycle
  exact ih hs hb hlinked hm (by omega)

/-- Asking for the superclass of a class and then for its interfaces. -/
theorem decides_class (ha : a ∈ types) (hb : b ∈ types) (hlinked : m.classes.Linked a)
    (hm : Prepared ctx types m) (hsteps : testSteps ctx.host types a b ≤ fuel + 1) (hne : a ≠ b)
    (harray : Descriptor.isArray a = false) :
    Decides ctx types m (assignableWithin (fuel + 1) a b) (Descends ctx.host a b) := by
  obtain ⟨c, hc, hstate⟩ := hlinked
  have habove : ∀ {s}, Above ctx.host a s ↔ _ := hm.inv.table.above_iff hc hstate
  have hcases : Descends ctx.host a b ↔ (∃ s, c.superclass = some s ∧ Descends ctx.host s b) ∨
      ∃ name ∈ c.interfaces, Descends ctx.host (Descriptor.ofInternal name) b := by
    rw [descends_class_iff hne harray]
    constructor
    · rintro ⟨s, hs, hrest⟩
      rcases habove.mp hs with hs | ⟨name, hname, rfl⟩
      · exact .inl ⟨s, hs, hrest⟩
      · exact .inr ⟨name, hname, hrest⟩
    · rintro (⟨s, hs, hrest⟩ | ⟨name, hname, hrest⟩)
      · exact ⟨s, habove.mpr (.inl hs), hrest⟩
      · exact ⟨_, habove.mpr (.inr ⟨name, hname, rfl⟩), hrest⟩
  rw [assignableWithin, if_neg hne, if_neg (by simp [harray]), hcases]
  refine .after (classAt_eq_ok hc) (.refl _) (.or ?_ rfl rfl fun hm' _ => ?_)
  · cases hs : c.superclass with
    | none => exact .answer hm (by simp)
    | some s =>
        have hsuper : m.classes.Linked s := (hm.inv.table.linked hc hstate).super hc hs
        simpa using decides_above hfamily ih ha hb harray (habove.mpr (.inl hs)) hsteps hsuper hm
  · refine decides_interfaces (fun name hname m₁ hm₁ => ?_) hm'
    obtain ⟨c₀, hc₀, hdefined⟩ := hm.inv.table.defined hc
    have hneeds : Needs ctx.host types (discard (loadClass name)) :=
      .interface ha hc₀ (by rw [hdefined] at hname; exact hname)
    obtain ⟨m₂, hask, hm₂, hevolves⟩ := hm₁.ask hneeds
    obtain ⟨k, hload⟩ := ok_of_discard hask
    have hknown := ((sound_loadClass (P := fun _ => True) name).of_ok hm₁.inv trivial hload).2
    obtain ⟨k', hk', hstarted⟩ := hknown.1 ▸ hknown.2.started
    refine .after hload hevolves (decides_above hfamily ih ha hb harray ?_ hsteps ?_ hm₂)
    · exact habove.mpr (.inr ⟨name, hname, rfl⟩)
    · exact ⟨k', hk', hstarted.isLinked⟩

end Steps

/-- The subtype test decides, if it has steps enough. -/
theorem decides_assignableWithin (hfamily : IsFamily ctx.host types) {fuel : Nat} {a b : Descriptor}
    (ha : a ∈ types) (hb : b ∈ types) (hlinked : m.classes.Linked a) (hm : Prepared ctx types m)
    (hsteps : testSteps ctx.host types a b ≤ fuel) :
    Decides ctx types m (assignableWithin fuel a b) (Descends ctx.host a b) := by
  induction fuel generalizing a b m with
  | zero =>
      rw [testSteps] at hsteps
      omega
  | succ fuel ih =>
      by_cases hne : a = b
      · rw [assignableWithin, if_pos hne]
        exact .answer hm (by simp [hne, Descends.refl])
      cases harray : Descriptor.isArray a with
      | false => exact decides_class hfamily ih ha hb hlinked hm hsteps hne harray
      | true =>
          cases hbarray : Descriptor.isArray b with
          | true => exact decides_components hfamily ih ha hb hm hsteps hne harray hbarray
          | false =>
              have hshape := (hfamily.shape hb).resolve_right (by simp [hbarray])
              rw [assignableWithin, if_neg hne, if_pos harray, if_pos (by simp [hbarray]),
                descends_array_iff hne harray hbarray]
              exact .answer hm (mem_arraySupers_iff hshape).symm

theorem testAnswers_widens (hroots : HasRootTypes ctx.host) (hfamily : IsFamily ctx.host types)
    (hm : Prepared ctx types m) {a b : Descriptor} (ha : a ∈ types) (hlinked : m.classes.Linked a)
    (hb : b ∈ types) (hsteps : (Descriptor.dimensions b + 1) * (types.card + 2) ≤ ctx.fuel) :
    ∃ res, TestAnswers ctx m a b res ∧ (res = true ↔ Widens ctx.host a b) := by
  have hfuel := (testSteps_le ctx.host types a b).trans hsteps
  obtain ⟨res, m', hrun, _, _, hres⟩ := decides_assignableWithin hfamily ha hb hlinked hm hfuel
  exact ⟨res, ⟨m', hrun⟩, hres.trans (widens_iff_descends hroots).symm⟩

end Test

/-- In a family of types whose interfaces and components load, the subtype test always answers, and
its answer is whether the one type widens to the other. So it is reflexive and transitive, and
arrays of primitive types may be used for no other arrays. -/
theorem assignability_is_subtyping {host : Host} {steps nesting : Nat} {types : Finset Descriptor}
    {m : Machine} (hroots : HasRootTypes host) (hfamily : IsFamily host types) (hinv : m.Inv host)
    (hloads : LoadsAll (Session.context host steps nesting) types m)
    (hsteps : ∀ d ∈ types, (Descriptor.dimensions d + 1) * (types.card + 2) ≤ steps) :
    let Says := TestAnswers (Session.context host steps nesting) m
    (∀ a ∈ types, m.classes.Linked a → ∀ b ∈ types,
      ∃ res, Says a b res ∧ (res = true ↔ Widens host a b)) ∧
    (∀ a ∈ types, m.classes.Linked a → Says a a true) ∧
    (∀ a ∈ types, m.classes.Linked a → ∀ b ∈ types, m.classes.Linked b → ∀ c ∈ types,
      Says a b true → Says b c true → Says a c true) ∧
    ∀ a ∈ types, m.classes.Linked a → ∀ b ∈ types, Descriptor.isArray a = true →
      Descriptor.isArray b = true → Descriptor.isPrimitive (Descriptor.component a) = true ∨
        Descriptor.isPrimitive (Descriptor.component b) = true → Says a b true → a = b := by
  intro Says
  have hanswer : ∀ a ∈ types, m.classes.Linked a → ∀ b ∈ types,
      ∃ res, Says a b res ∧ (res = true ↔ Widens host a b) := by
    intro a ha hlinked b hb
    have hhost := context_host host steps nesting
    have hm : Prepared (Session.context host steps nesting) types m := ⟨hhost.symm ▸ hinv, hloads⟩
    have hfuel := hsteps b hb
    rw [← context_fuel host steps nesting] at hfuel
    rw [← hhost] at hroots hfamily ⊢
    exact testAnswers_widens hroots hfamily hm ha hlinked hb hfuel
  have hiff : ∀ a ∈ types, m.classes.Linked a → ∀ b ∈ types, (Says a b true ↔ Widens host a b) := by
    intro a ha hlinked b hb
    obtain ⟨res, hgives, hres⟩ := hanswer a ha hlinked b hb
    exact ⟨fun h => hres.mp (hgives.unique h), fun h => hres.mpr h ▸ hgives⟩
  refine ⟨hanswer, fun a ha hlinked => (hiff a ha hlinked a ha).mpr (.refl a), ?_, ?_⟩
  · intro a ha hlinked b hb hlinked' c hc hab hbc
    rw [hiff a ha hlinked b hb] at hab
    rw [hiff b hb hlinked' c hc] at hbc
    exact (hiff a ha hlinked c hc).mpr (hab.trans hbc)
  · intro a ha hlinked b hb harray hbarray hprimitive hab
    rw [hiff a ha hlinked b hb, widens_iff_descends hroots] at hab
    by_contra hne
    obtain ⟨hca, hcb, _⟩ := (descends_component_iff hne harray hbarray).mp hab
    simp [hca, hcb] at hprimitive

section Shapes

/-- What a type names above it. -/
def aboveOf (host : Host) (d : Descriptor) : List Descriptor :=
  match define host d with
  | .error _ => []
  | .ok c => (if c.superName = [] then [] else [Descriptor.ofInternal c.superName]) ++
      c.interfaces.map Descriptor.ofInternal

theorem above_iff_mem_aboveOf {host : Host} {d s : Descriptor} :
    Above host d s ↔ s ∈ aboveOf host d := by
  unfold Above Follows Implements aboveOf
  cases hd : define host d with
  | error e => simp
  | ok c => by_cases hname : c.superName = [] <;> simp [hname, eq_comm]

/-- Where all types are initialized, they load without further ado. -/
theorem loadsAll_of_initialized {host : Host} {types : Finset Descriptor} {m : Machine}
    (hfamily : IsFamily host types)
    (hm : ∀ d ∈ types, ∃ c, m.classes[d]? = some c ∧ c.state = .initialized) (steps nesting : Nat) :
    LoadsAll (Session.context host (steps + 1) (nesting + 1)) types m := by
  have hsame : ∀ x, Needs host types x →
      x (Session.context host (steps + 1) (nesting + 1)) m = .ok () m := by
    intro x hx
    cases hx with
    | interface hd hc hname =>
        obtain ⟨c, hc, hstate⟩ := hm _ (hfamily.above hd (.inr ⟨_, hc, _, hname, rfl⟩))
        exact discard_of_ok (classFor_initialized host steps nesting hc hstate)
    | component hd harray hreference =>
        obtain ⟨c, hc, hstate⟩ := hm _ (hfamily.component hd harray hreference)
        rw [link_eq, context_fuel, linkWithin_registered hc, hstate]
  intro m' hreach
  have hkept : m' = m := by
    induction hreach with
    | refl => rfl
    | tail _ hstep ih =>
        obtain ⟨x, hx, hrun⟩ := hstep
        rw [ih, hsame x hx] at hrun
        exact (EStateM.Result.ok.inj hrun).2.symm
  rw [hkept]
  exact fun x hx => ⟨m, hsame x hx⟩

/-- A class without members. -/
def plainClass (name superName : Text) (interfaces : List Text) : ClassFile :=
  ⟨0, 52, #[], ⟨0x21⟩, name, superName, interfaces, [], [], []⟩

/-- A host with the root types, an interface and a class that implements it. -/
def shapesHost : Host where
  provider := some fun name =>
    if name = "java/lang/Object" then .ok (plainClass name [] [])
    else if name = "java/lang/Cloneable" then .ok (plainClass name "java/lang/Object" [])
    else if name = "java/io/Serializable" then .ok (plainClass name "java/lang/Object" [])
    else if name = "Shape" then .ok (plainClass name "java/lang/Object" [])
    else if name = "Disc" then .ok (plainClass name "java/lang/Object" ["Shape"])
    else .error "not found"
  currentTimeMillis := 0
  nanoTime := 0

/-- The types of that host, and the arrays of two of them. -/
def shapes : List Descriptor :=
  ["[LDisc;", "[LShape;", "LDisc;", "LShape;", Descriptor.object]

theorem shapesHost_rootTypes : HasRootTypes shapesHost where
  object hc := by
    obtain rfl := Except.ok.inj hc
    exact ⟨rfl, rfl⟩
  marker hd hne hc := by
    simp only [arraySupers, List.mem_cons, List.not_mem_nil, or_false] at hd
    rcases hd with rfl | rfl | rfl
    · contradiction
    · obtain rfl := Except.ok.inj hc
      exact ⟨rfl, rfl⟩
    · obtain rfl := Except.ok.inj hc
      exact ⟨rfl, rfl⟩

/-- What stands above the types is among them, and its descriptor happens to be longer. -/
theorem shapes_above {d s : Descriptor} (hd : d ∈ shapes) (hs : Above shapesHost d s) :
    s ∈ shapes ∧ d.length < s.length := by
  have hall : ∀ d ∈ shapes, ∀ s ∈ aboveOf shapesHost d, s ∈ shapes ∧ d.length < s.length := by
    decide
  exact hall d hd s (above_iff_mem_aboveOf.mp hs)

theorem shapes_family : IsFamily shapesHost shapes.toFinset where
  shape hd := by
    rw [List.mem_toFinset] at hd
    simp only [shapes, List.mem_cons, List.not_mem_nil, or_false] at hd
    rcases hd with rfl | rfl | rfl | rfl | rfl
    · exact .inr ⟨rfl, rfl⟩
    · exact .inr ⟨rfl, rfl⟩
    · exact .inl ⟨"Disc", rfl⟩
    · exact .inl ⟨"Shape", rfl⟩
    · exact .inl ⟨"java/lang/Object", rfl⟩
  above hd hs := by
    rw [List.mem_toFinset] at hd ⊢
    exact (shapes_above hd hs).1
  component {d} hd harray hreference := by
    have hclosed : ∀ d ∈ shapes, Descriptor.isArray d = true → Descriptor.component d ∈ shapes := by
      decide
    rw [List.mem_toFinset] at hd ⊢
    exact hclosed d hd harray
  acyclic {d} hd := by
    rw [List.mem_toFinset] at hd
    have hreach : ∀ {k}, Relation.ReflTransGen (Above shapesHost) d k →
        k ∈ shapes ∧ d.length ≤ k.length := by
      intro k hreach
      induction hreach with
      | refl => exact ⟨hd, Nat.le_refl _⟩
      | tail _ hstep ih =>
          obtain ⟨hmem, hlt⟩ := shapes_above ih.1 hstep
          exact ⟨hmem, ih.2.trans hlt.le⟩
    rintro ⟨k, hk, hlast⟩
    have hlt := (shapes_above (hreach hk).1 (.inr hlast)).2
    have hle := (hreach hk).2
    omega

theorem plainClass_quiet {d : Descriptor} {c : RuntimeClass} {name superName : Text}
    {interfaces : List Text}
    (h : RuntimeClass.ofFile d (plainClass name superName interfaces) = .ok c) :
    c.IsQuiet := by
  obtain rfl := Except.ok.inj h
  refine ⟨fun file hfile => ?_, rfl⟩
  obtain rfl := Option.some.inj hfile
  simp [plainClass]

theorem shapesHost_loads : ∃ m, Used shapesHost (fun _ _ => True) m ∧ m.Holds shapes := by
  have hobject : Descriptor.ofInternal "java/lang/Object" = Descriptor.object := ofInternal_object
  have hshape : Descriptor.ofInternal "Shape" = "LShape;" := by decide
  have hdisc : Descriptor.ofInternal "Disc" = "LDisc;" := by decide
  have hshapes : Descriptor.ofInternal "[LShape;" = "[LShape;" := by decide
  have hdiscs : Descriptor.ofInternal "[LDisc;" = "[LDisc;" := by decide
  obtain ⟨m₁, hm₁, hholds₁⟩ := (used_fresh shapesHost fun _ _ => True).load holds_fresh hobject
    (by simp) rfl (plainClass_quiet rfl) (.inl rfl) trivial
  obtain ⟨m₂, hm₂, hholds₂⟩ := hm₁.load hholds₁ hshape (by decide) rfl
    (plainClass_quiet rfl) (.inr (by decide)) trivial
  obtain ⟨m₃, hm₃, hholds₃⟩ := hm₂.load hholds₂ hdisc (by decide) rfl
    (plainClass_quiet rfl) (.inr (by decide)) trivial
  obtain ⟨m₄, hm₄, hholds₄⟩ := hm₃.load hholds₃ hshapes (by decide) rfl ⟨nofun, rfl⟩
    (.inr (by decide)) trivial
  obtain ⟨m₅, hm₅, hholds₅⟩ := hm₄.load hholds₄ hdiscs (by decide) rfl ⟨nofun, rfl⟩
    (.inr (by decide)) trivial
  exact ⟨m₅, hm₅, hholds₅⟩

theorem assignability_is_subtyping_shapes : ∃ m, Used shapesHost (fun _ _ => True) m ∧
    LoadsAll (Session.context shapesHost 14 9) shapes.toFinset m ∧
    TestAnswers (Session.context shapesHost 14 9) m "[LDisc;" "[LShape;" true := by
  obtain ⟨m, hm, hholds⟩ := shapesHost_loads
  have hinitialized : ∀ d ∈ shapes.toFinset, ∃ c, m.classes[d]? = some c ∧ c.state = .initialized :=
    fun d hd => hholds.initialized d (List.mem_toFinset.mp hd)
  have hloads := loadsAll_of_initialized shapes_family hinitialized 13 8
  have hsteps : ∀ d ∈ shapes.toFinset,
      (Descriptor.dimensions d + 1) * (shapes.toFinset.card + 2) ≤ 14 := by decide +kernel
  have htest := (assignability_is_subtyping shapesHost_rootTypes shapes_family hm.reachable.inv
    hloads hsteps).1
  have hdiscs : ("[LDisc;" : Text) ∈ shapes.toFinset := by decide +kernel
  have hshapes : ("[LShape;" : Text) ∈ shapes.toFinset := by decide +kernel
  obtain ⟨c, hc, hstate⟩ := hinitialized _ hdiscs
  have hlinked : m.classes.Linked "[LDisc;" := ⟨c, hc, by rw [hstate]; trivial⟩
  obtain ⟨res, hgives, hres⟩ := htest "[LDisc;" hdiscs hlinked "[LShape;" hshapes
  have hwidens : Widens shapesHost "[LDisc;" "[LShape;" :=
    .component rfl rfl (.interface ⟨_, rfl, "Shape", by simp [plainClass], by decide +kernel⟩)
  exact ⟨m, hm, hloads, hres.mpr hwidens ▸ hgives⟩

end Shapes

end ClassEngine
