import ClassEngine.Proofs.Engine.ClassTable

/-!
Coherent engines: arrays hold what their component type allows, and what is remembered of searches
for members is what a search finds. Both are said of the classes and objects at one moment, and stay
true however classes and objects are added.
-/

namespace ClassEngine

open Resolution

namespace ClassTable

variable {t t' : ClassTable}

/-- Every record of the one table is found again in the other, but for what may still change once a
class is linked. -/
def Retains (t t' : ClassTable) : Prop :=
  ∀ ⦃d : Descriptor⦄ ⦃c : RuntimeClass⦄, t[d]? = some c → ∃ c', t'[d]? = some c' ∧ c.Keeps c'

theorem Retains.refl (t : ClassTable) : t.Retains t :=
  fun _ c hc => ⟨c, hc, rfl⟩

theorem Evolves.retains (h : t.Evolves t') : t.Retains t' := by
  intro d c hc
  obtain ⟨c', hc', hbecame⟩ := h hc
  exact ⟨c', hc', hbecame.keeps⟩

theorem retains_modify {d : Descriptor} {f : RuntimeClass → RuntimeClass}
    (h : ∀ c : RuntimeClass, c.Keeps (f c)) : t.Retains (t.modify d f) := by
  intro k c hc
  rw [getElem?_modify]
  by_cases hk : d = k
  · subst hk
    rw [if_pos rfl, hc]
    exact ⟨f c, rfl, h c⟩
  · rw [if_neg hk]
    exact ⟨c, hc, rfl⟩

/-- A value of the one type may be used where the other is expected: the type itself, its
superclasses, the interfaces of these and theirs; for an array, the types that all arrays have, and
the arrays of what its component may be used for. -/
inductive IsSubtype (t : ClassTable) : Descriptor → Descriptor → Prop
  | refl (a : Descriptor) : IsSubtype t a a
  | super {a b s : Descriptor} {c : RuntimeClass} (ha : Descriptor.isArray a = false)
      (hc : t[a]? = some c) (hs : c.superclass = some s) (hrest : IsSubtype t s b) : IsSubtype t a b
  | interface {a b : Descriptor} {c : RuntimeClass} {name : Text}
      (ha : Descriptor.isArray a = false) (hc : t[a]? = some c) (hname : name ∈ c.interfaces)
      (hrest : IsSubtype t (Descriptor.ofInternal name) b) : IsSubtype t a b
  | array {a b : Descriptor} (ha : Descriptor.isArray a = true) (hb : Descriptor.isArray b = false)
      (hsuper : isArraySuper (Descriptor.className b) = true) : IsSubtype t a b
  | component {a b : Descriptor} (ha : Descriptor.isArray a = true)
      (hb : Descriptor.isArray b = true)
      (hca : Descriptor.isPrimitive (Descriptor.component a) = false)
      (hcb : Descriptor.isPrimitive (Descriptor.component b) = false)
      (hrest : IsSubtype t (Descriptor.component a) (Descriptor.component b)) : IsSubtype t a b

theorem IsSubtype.retained {a b : Descriptor} (hsub : t.IsSubtype a b) (h : t.Retains t') :
    t'.IsSubtype a b := by
  induction hsub with
  | refl a => exact .refl a
  | super ha hc hs _ ih =>
      obtain ⟨c', hc', hkeeps⟩ := h hc
      exact .super ha hc' (hkeeps.superclass.trans hs) ih
  | interface ha hc hname _ ih =>
      obtain ⟨c', hc', hkeeps⟩ := h hc
      exact .interface ha hc' (hkeeps.interfaces ▸ hname) ih
  | array ha hb hsuper => exact .array ha hb hsuper
  | component ha hb hca hcb _ ih => exact .component ha hb hca hcb ih

end ClassTable

section Arrays

namespace Moment

variable {s s' : Moment}

/-- The class of the object behind a reference. -/
def HasType (s : Moment) (r : Ref) (d : Descriptor) : Prop :=
  ∃ o, s.heap[r.number - 1]? = some o ∧ o.type = d

/-- The values that may stand where a reference type is expected: null, and the references to
objects whose class is a subtype. -/
inductive Fits (s : Moment) (d : Descriptor) : Value → Prop
  | null : Fits s d .null
  | ref {r : Ref} {o : Object} (ho : s.heap[r.number - 1]? = some o)
      (hsub : s.classes.IsSubtype o.type d) : Fits s d (.ref r)

/-- If the object is an array of references, its elements may stand there. -/
def Admits (s : Moment) (o : Object) : Prop :=
  o.isArray = true → Descriptor.isPrimitive (Descriptor.component o.type) = false →
    ∀ v ∈ o.elements, s.Fits (Descriptor.component o.type) v

theorem HasType.fits {r : Ref} {d : Descriptor} (h : s.HasType r d) : s.Fits d (.ref r) := by
  obtain ⟨o, ho, rfl⟩ := h
  exact .ref ho (.refl _)

theorem HasType.mono {r : Ref} {d : Descriptor} (h : s.HasType r d)
    (hheap : HeapEvolves s.heap s'.heap) : s'.HasType r d := by
  obtain ⟨o, ho, rfl⟩ := h
  obtain ⟨o', ho', htype, _⟩ := hheap ho
  exact ⟨o', ho', htype⟩

theorem Fits.mono {d : Descriptor} {v : Value} (h : s.Fits d v)
    (hclasses : s.classes.Retains s'.classes) (hheap : HeapEvolves s.heap s'.heap) :
    s'.Fits d v := by
  cases h with
  | null => exact .null
  | ref ho hsub =>
      obtain ⟨o', ho', htype, _⟩ := hheap ho
      exact .ref ho' (htype.symm ▸ hsub.retained hclasses)

theorem Admits.mono {o : Object} (h : s.Admits o) (hclasses : s.classes.Retains s'.classes)
    (hheap : HeapEvolves s.heap s'.heap) : s'.Admits o :=
  fun harray hreference v hv => (h harray hreference v hv).mono hclasses hheap

theorem Admits.of_eq {o o' : Object} (h : s.Admits o) (htype : o'.type = o.type)
    (helements : o'.elements = o.elements) : s.Admits o' := by
  rw [Admits, Object.isArray, htype, helements]
  exact h

/-- An object without elements is no matter. -/
theorem admits_of_empty {o : Object} (h : o.elements = #[]) : s.Admits o := by
  intro _ _ v hv
  simp [h] at hv

end Moment

end Arrays

section Searches

/-- Whether a class declares the field of a reference; fields are known by their names. -/
def MemberRef.fieldIn (ref : MemberRef) (c : RuntimeClass) : Bool :=
  (c.declaredField? ref.name).isSome

/-- Whether a class declares the method of a reference. -/
def MemberRef.methodIn (ref : MemberRef) (c : RuntimeClass) : Bool :=
  (c.declaredMethod? ref.name ref.descriptor).isSome

/-- A property of classes that does not depend on how far they have come. -/
def Lasting (p : RuntimeClass → Bool) : Prop :=
  ∀ ⦃c c' : RuntimeClass⦄, c.Keeps c' → p c' = p c

theorem lasting_fieldIn (ref : MemberRef) : Lasting ref.fieldIn := by
  intro c c' h
  rw [h]
  rfl

theorem lasting_methodIn (ref : MemberRef) : Lasting ref.methodIn := by
  intro c c' h
  rw [h]
  rfl

namespace ClassTable

variable {t t' : ClassTable} {d : Descriptor}

/-- A class and its superclasses, nearest first, and the names of their interfaces in order. -/
inductive Ancestry (t : ClassTable) : Descriptor → List Descriptor → List Text → Prop
  | root {d : Descriptor} {c : RuntimeClass} (hc : t[d]? = some c) (hs : c.superclass = none) :
      Ancestry t d [d] c.interfaces
  | super {d s : Descriptor} {c : RuntimeClass} {chain : List Descriptor} {names : List Text}
      (hc : t[d]? = some c) (hs : c.superclass = some s) (hrest : Ancestry t s chain names) :
      Ancestry t d (d :: chain) (c.interfaces ++ names)

/-- The interfaces that one comes to from a list of names on, depth first and each name once, as far
as one goes. Those in `seen` were visited before. -/
inductive Visits (t : ClassTable) : List Text → List Text → List Descriptor → Prop
  | stop (names seen : List Text) : Visits t names seen []
  | again {name : Text} {names seen : List Text} {order : List Descriptor} (hseen : name ∈ seen)
      (hrest : Visits t names seen order) : Visits t (name :: names) seen order
  | visit {name : Text} {names seen : List Text} {order : List Descriptor} {c : RuntimeClass}
      (hseen : name ∉ seen) (hc : t[Descriptor.ofInternal name]? = some c)
      (hrest : Visits t (c.interfaces ++ names) (name :: seen) order) :
      Visits t (name :: names) seen (Descriptor.ofInternal name :: order)

/-- The order in which a search from a class on looks at classes, as far as it goes: the class, its
superclasses, and then the interfaces of all of these. -/
inductive SearchOrder (t : ClassTable) (d : Descriptor) : List Descriptor → Prop
  | supers {chain order : List Descriptor} {names : List Text} (hchain : t.Ancestry d chain names)
      (horder : order <+: chain) : SearchOrder t d order
  | interfaces {chain order : List Descriptor} {names : List Text}
      (hchain : t.Ancestry d chain names) (horder : t.Visits names [] order) :
      SearchOrder t d (chain ++ order)

/-- Whether a class of the table satisfies `p`. -/
def Tells (t : ClassTable) (p : RuntimeClass → Bool) (d : Descriptor) (b : Bool) : Prop :=
  ∃ c, t[d]? = some c ∧ p c = b

/-- A class that satisfies `p`, after others that do not. -/
structure FirstAfter (t : ClassTable) (p : RuntimeClass → Bool) (before : List Descriptor)
    (owner : Descriptor) : Prop where
  here : t.Tells p owner true
  before : ∀ k ∈ before, t.Tells p k false

/-- The first class in the order of a search from `d` on that satisfies `p`. -/
def IsFirst (t : ClassTable) (d : Descriptor) (p : RuntimeClass → Bool) (owner : Descriptor) : Prop :=
  ∃ before, t.SearchOrder d (before ++ [owner]) ∧ t.FirstAfter p before owner

/-- Where a search for a method starts: arrays and primitive types have the methods of the root
class. -/
def methodStart (d : Descriptor) : Descriptor :=
  if Descriptor.isArray d || Descriptor.isPrimitive d then Descriptor.object else d

/-- A class that a search for the member of a reference finds, be it a field or a method. -/
def Finds (t : ClassTable) (d : Descriptor) (ref : MemberRef) (owner : Descriptor) : Prop :=
  t.IsFirst d ref.fieldIn owner ∨ t.IsFirst (methodStart d) ref.methodIn owner

theorem Ancestry.retained {chain : List Descriptor} {names : List Text}
    (hchain : t.Ancestry d chain names) (h : t.Retains t') : t'.Ancestry d chain names := by
  induction hchain with
  | root hc hs =>
      obtain ⟨c', hc', hkeeps⟩ := h hc
      rw [← hkeeps.interfaces]
      exact .root hc' (hkeeps.superclass.trans hs)
  | super hc hs _ ih =>
      obtain ⟨c', hc', hkeeps⟩ := h hc
      rw [← hkeeps.interfaces]
      exact .super hc' (hkeeps.superclass.trans hs) ih

theorem Ancestry.unique {chain chain' : List Descriptor} {names names' : List Text}
    (h : t.Ancestry d chain names) (h' : t.Ancestry d chain' names') :
    chain = chain' ∧ names = names' := by
  induction h generalizing chain' names' with
  | root hc hs =>
      cases h' with
      | root hc' _ =>
          obtain rfl := Option.some.inj (hc.symm.trans hc')
          exact ⟨rfl, rfl⟩
      | super hc' hs' _ =>
          obtain rfl := Option.some.inj (hc.symm.trans hc')
          rw [hs] at hs'
          contradiction
  | super hc hs _ ih =>
      cases h' with
      | root hc' hs' =>
          obtain rfl := Option.some.inj (hc.symm.trans hc')
          rw [hs] at hs'
          contradiction
      | super hc' hs' hrest' =>
          obtain rfl := Option.some.inj (hc.symm.trans hc')
          obtain rfl := Option.some.inj (hs.symm.trans hs')
          obtain ⟨rfl, rfl⟩ := ih hrest'
          exact ⟨rfl, rfl⟩

theorem Chain.ancestry (h : t.Chain d) : ∃ chain names, t.Ancestry d chain names := by
  induction h with
  | root hc _ _ hsuper => exact ⟨_, _, .root hc hsuper⟩
  | up hc _ _ hsuper _ ih =>
      obtain ⟨chain, names, hrest⟩ := ih
      exact ⟨_, _, .super hc hsuper hrest⟩

theorem Linked.ancestry {host : Host} {path : List Descriptor} (h : t.Linked d)
    (ht : t.Sound host path) : ∃ chain names, t.Ancestry d chain names := by
  obtain ⟨c, hc, hstate⟩ := h
  exact (ht.linked hc hstate).ancestry

/-- What is above a class among those above another is all that is above it. -/
theorem Ancestry.above {k : Descriptor} {chain : List Descriptor} {names : List Text}
    (h : t.Ancestry d chain names) (hk : k ∈ chain) :
    ∃ before after names', chain = before ++ k :: after ∧ t.Ancestry k (k :: after) names' := by
  induction h with
  | root hc hs =>
      obtain rfl := List.mem_singleton.mp hk
      exact ⟨[], [], _, rfl, .root hc hs⟩
  | @super d _ _ chain _ hc hs hrest ih =>
      rcases List.mem_cons.mp hk with rfl | hk
      · exact ⟨[], chain, _, rfl, .super hc hs hrest⟩
      · obtain ⟨before, after, names', rfl, habove⟩ := ih hk
        exact ⟨d :: before, after, names', rfl, habove⟩

theorem Visits.retained {names seen : List Text} {order : List Descriptor}
    (horder : t.Visits names seen order) (h : t.Retains t') : t'.Visits names seen order := by
  induction horder with
  | stop names seen => exact .stop names seen
  | again hseen _ ih => exact .again hseen ih
  | visit hseen hc _ ih =>
      obtain ⟨c', hc', hkeeps⟩ := h hc
      exact .visit hseen hc' (hkeeps.interfaces ▸ ih)

theorem SearchOrder.retained {order : List Descriptor} (horder : t.SearchOrder d order)
    (h : t.Retains t') : t'.SearchOrder d order := by
  cases horder with
  | supers hchain horder => exact .supers (hchain.retained h) horder
  | interfaces hchain horder => exact .interfaces (hchain.retained h) (horder.retained h)

theorem Tells.retained {p : RuntimeClass → Bool} {b : Bool} (htells : t.Tells p d b)
    (hp : Lasting p) (h : t.Retains t') : t'.Tells p d b := by
  obtain ⟨c, hc, hpc⟩ := htells
  obtain ⟨c', hc', hkeeps⟩ := h hc
  exact ⟨c', hc', (hp hkeeps).trans hpc⟩

theorem FirstAfter.retained {p : RuntimeClass → Bool} {before : List Descriptor} {owner : Descriptor}
    (hfirst : t.FirstAfter p before owner) (hp : Lasting p) (h : t.Retains t') :
    t'.FirstAfter p before owner :=
  ⟨hfirst.here.retained hp h, fun k hk => (hfirst.before k hk).retained hp h⟩

theorem IsFirst.retained {p : RuntimeClass → Bool} {owner : Descriptor} (hfirst : t.IsFirst d p owner)
    (hp : Lasting p) (h : t.Retains t') : t'.IsFirst d p owner := by
  obtain ⟨before, horder, hafter⟩ := hfirst
  exact ⟨before, horder.retained h, hafter.retained hp h⟩

theorem Finds.retained {ref : MemberRef} {owner : Descriptor} (hfinds : t.Finds d ref owner)
    (h : t.Retains t') : t'.Finds d ref owner :=
  hfinds.imp (fun hfirst => hfirst.retained (lasting_fieldIn ref) h)
    fun hfirst => hfirst.retained (lasting_methodIn ref) h

end ClassTable

end Searches

section Accesses

/-- Every class that is remembered with a reference is one that a search finds. -/
def ClassTable.Recalls (t : ClassTable) : Prop :=
  ∀ {d : Descriptor} {c : RuntimeClass} {ref : MemberRef} {owner : Descriptor},
    t[d]? = some c → c.resolved[ref]? = some owner → t.Finds d ref owner

/-- The class with the field is as it is in the table, and one that a search for it finds. -/
structure FieldAccess.IsFound (f : FieldAccess) (t : ClassTable) : Prop where
  sound : ∃ host, t.Sound host []
  record : t[f.owner.descriptor]? = some f.owner
  finds : t.Finds (Descriptor.ofInternal f.ref.owner) f.ref f.owner.descriptor

/-- If the classes come from files, they have different names. -/
def RuntimeClass.NamedApart (c c' : RuntimeClass) : Prop :=
  c.file.isSome = true → c'.file.isSome = true → c.name ≠ c'.name

/-- An object is as it is made of a class and its superclasses, nearest first. -/
structure Object.IsNew (o : Object) (t : ClassTable) (d : Descriptor) (records : List RuntimeClass) :
    Prop where
  sound : ∃ host, t.Sound host []
  order : t.Ancestry d (records.map (·.descriptor)) (records.flatMap (·.interfaces))
  kept : ∀ c ∈ records, ∃ c', t[c.descriptor]? = some c' ∧ c.Keeps c'
  apart : records.Pairwise RuntimeClass.NamedApart
  slots : o = Allocation.instanceOfChain d records

/-- What is so at a moment at which an instance is made or its fields are used. -/
def Moment.Bears (s : Moment) : Access → Prop
  | .made r d => ∃ o records, s.heap[r.number - 1]? = some o ∧ o.IsNew s.classes d records
  | .read f v => f.IsFound s.classes ∧
      ∃ o, s.heap[f.object.number - 1]? = some o ∧ v = o.getField f.owner.name f.ref.name
  | .stored f _ => f.IsFound s.classes

end Accesses

/-- What coherence is about: the elements of arrays, what is remembered of searches, and the uses of
fields. -/
inductive Aspect where
  | arrays
  | caches
  | accesses

/-- Every array holds what its component type allows; every class that is remembered with a
reference is one that a search finds; and as long as this is so, instances and their fields are used
as they are recorded to be. -/
def Moment.Coherent (s : Moment) : Aspect → Prop
  | .arrays => ∀ {i : Nat} {o : Object}, s.heap[i]? = some o → s.Admits o
  | .caches => s.classes.Recalls
  | .accesses => s.classes.Recalls → ∀ a, s.access = some a → s.Bears a

/-- Coherence is about classes, objects and their uses only. -/
theorem Moment.Coherent.of_eq {a : Aspect} {s s' : Moment} (h : s.Coherent a)
    (hclasses : s'.classes = s.classes) (hheap : s'.heap = s.heap) (haccess : s'.access = s.access) :
    s'.Coherent a := by
  cases a with
  | arrays =>
      intro i o ho
      rw [hheap] at ho
      refine (h ho).mono ?_ ?_
      · rw [hclasses]
        exact .refl _
      · rw [hheap]
        exact .refl _
  | caches =>
      intro d c ref owner hc howner
      rw [hclasses] at hc ⊢
      exact h hc howner
  | accesses =>
      intro hrecalls access hmade
      rw [hclasses] at hrecalls
      rw [haccess] at hmade
      have hbears := h hrecalls access hmade
      cases access with
      | made r d =>
          obtain ⟨o, records, ho, hnew⟩ := hbears
          exact ⟨o, records, hheap ▸ ho, hclasses ▸ hnew⟩
      | read f v =>
          obtain ⟨hfound, o, ho, hv⟩ := hbears
          exact ⟨hclasses ▸ hfound, o, hheap ▸ ho, hv⟩
      | stored f v =>
          rw [Bears, hclasses]
          exact hbears

namespace Machine

/-- The engine is coherent, and was so at every moment. -/
structure Coherent (a : Aspect) (m : Machine) : Prop where
  now : m.moment.Coherent a
  before : ∀ s ∈ m.moments.val, s.Coherent a

variable {a : Aspect} {m m' : Machine}

theorem Coherent.of_eq (h : m.Coherent a) (hclasses : m'.classes = m.classes)
    (hheap : m'.heap = m.heap) (hmoments : m'.moments = m.moments) : m'.Coherent a where
  now := h.now.of_eq hclasses hheap rfl
  before := by rw [hmoments]; exact h.before

theorem Coherent.mark (h : m.Coherent a) : m.mark.Coherent a where
  now := h.now
  before s hs := by
    rw [mark_moments] at hs
    rcases List.mem_cons.mp hs with rfl | hs
    · exact h.now
    · exact h.before s hs

/-- What becomes of an instance is kept, if it is so. -/
theorem Coherent.markAccess (h : m.Coherent a) {access : Access}
    (hbears : a = .accesses → m.classes.Recalls → m.moment.Bears access) :
    (m.markAccess access).Coherent a where
  now := h.now
  before s hs := by
    rw [markAccess_moments] at hs
    rcases List.mem_cons.mp hs with rfl | hs
    · cases a with
      | arrays => exact fun ho => (h.now ho).mono (.refl _) (.refl _)
      | caches => exact h.now
      | accesses =>
          intro hrecalls access' haccess
          obtain rfl := Option.some.inj haccess
          exact hbears rfl hrecalls
    · exact h.before s hs

theorem Coherent.note (h : m.Coherent a) (e : Event) : (m.note e).Coherent a :=
  h.mark.of_eq rfl rfl rfl

/-- The heap may be another as long as it continues this one, and its arrays hold what they may. -/
theorem Coherent.withHeap (h : m.Coherent a) {heap : Array Object} (hheap : HeapEvolves m.heap heap)
    (harrays : a = .arrays → ∀ {i : Nat} {o : Object}, heap[i]? = some o → m.moment.Admits o) :
    Coherent a { m with heap := heap } where
  now := by
    cases a with
    | arrays => exact fun ho => (harrays rfl ho).mono (.refl _) hheap
    | caches => exact h.now
    | accesses => exact fun _ _ => nofun
  before := h.before

theorem Coherent.push (h : m.Coherent a) {o : Object}
    (ho : a = .arrays → m.moment.Admits o) :
    Coherent a { m with heap := m.heap.push o } := by
  refine h.withHeap (heapEvolves_push _ _) ?_
  rintro rfl i o' ho'
  rw [Array.getElem?_push] at ho'
  split at ho'
  · obtain rfl := Option.some.inj ho'
    exact ho rfl
  · exact h.now ho'

theorem Coherent.modify (h : m.Coherent a) {i : Nat} {f : Object → Object}
    (hkeeps : ∀ o, (f o).type = o.type ∧ (f o).storage = o.storage)
    (hf : a = .arrays → ∀ o, m.heap[i]? = some o → m.moment.Admits (f o)) :
    Coherent a { m with heap := m.heap.modify i f } := by
  refine h.withHeap (heapEvolves_modify _ _ hkeeps) ?_
  rintro rfl j o' ho'
  rw [Array.getElem?_modify] at ho'
  split at ho'
  case isTrue hij =>
    obtain ⟨o, ho, rfl⟩ := Option.map_eq_some_iff.mp ho'
    exact hf rfl o (hij ▸ ho)
  case isFalse => exact h.now ho'

/-- The class table may be another as long as it continues this one, and what is newly remembered is
what a search finds. -/
theorem Coherent.withClasses (h : m.Coherent a) {t : ClassTable} (ht : m.classes.Retains t)
    (hcaches : ∀ {d : Descriptor} {c' : RuntimeClass} {ref : MemberRef} {owner : Descriptor},
      t[d]? = some c' → c'.resolved[ref]? = some owner →
        (∃ c, m.classes[d]? = some c ∧ c.resolved[ref]? = some owner) ∨
          m.classes.Finds d ref owner) : (m.withClasses t).Coherent a where
  now := by
    cases a with
    | arrays => exact fun ho => (h.now ho).mono ht (.refl _)
    | caches =>
        intro d c' ref owner hc' howner
        rcases hcaches hc' howner with ⟨c, hc, hold⟩ | hfinds
        · exact (h.now hc hold).retained ht
        · exact hfinds.retained ht
    | accesses => exact fun _ _ => nofun
  before := h.before

end Machine

end ClassEngine
