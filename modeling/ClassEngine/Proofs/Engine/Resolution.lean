import Mathlib.Data.List.Forall2
import ClassEngine.Proofs.Engine.Linking

/-!
Finding and making things is sound. A class that is asked for by name has begun to be initialized,
and so has the class that declares what a search finds. This is why methods only run, and instances
are only made, of such classes.
-/

namespace ClassEngine

open Machine Exec Linking Resolution Allocation

variable {α : Type} {ctx : Context} {P : Machine → Prop}

section Ancestors

/-- A record of the table tells of the class as it is in the table. -/
theorem RuntimeClass.Known.tells {c : RuntimeClass} {m : Machine} (h : c.Known m)
    {p : RuntimeClass → Bool} (hp : Lasting p) : m.classes.Tells p c.descriptor (p c) := by
  obtain ⟨c', hc', hkeeps⟩ := h.record
  exact ⟨c', hc', hp hkeeps⟩

/-- The records of a class and of its superclasses, nearest first. -/
structure AncestorsOf (d : Descriptor) (chain : List RuntimeClass) (m : Machine) : Prop where
  known : ∀ c ∈ chain, c.Known m
  order : m.classes.Ancestry d (chain.map (·.descriptor)) (chain.flatMap (·.interfaces))

theorem stable_ancestorsOf (d : Descriptor) (chain : List RuntimeClass) :
    Stable (AncestorsOf d chain) :=
  fun _ _ hclasses hheap h => ⟨fun c hc => stable_known c hclasses hheap (h.known c hc),
    h.order.retained hclasses.retains⟩

theorem RuntimeClass.Known.ancestorsOf {c : RuntimeClass} {m : Machine} (h : c.Known m)
    (hsuper : c.superclass = none) : AncestorsOf c.descriptor [c] m := by
  obtain ⟨c', hc', hkeeps⟩ := h.record
  refine ⟨fun k hk => List.mem_singleton.mp hk ▸ h, ?_⟩
  have horder := ClassTable.Ancestry.root hc' (hkeeps.superclass.trans hsuper)
  rw [hkeeps.interfaces] at horder
  simpa using horder

theorem AncestorsOf.cons {c : RuntimeClass} {s : Descriptor} {chain : List RuntimeClass} {m : Machine}
    (h : AncestorsOf s chain m) (hc : c.Known m) (hsuper : c.superclass = some s) :
    AncestorsOf c.descriptor (c :: chain) m := by
  obtain ⟨c', hc', hkeeps⟩ := hc.record
  constructor
  · intro k hk
    rcases List.mem_cons.mp hk with rfl | hk
    · exact hc
    · exact h.known k hk
  · have horder := ClassTable.Ancestry.super hc' (hkeeps.superclass.trans hsuper) h.order
    rwa [hkeeps.interfaces] at horder

/-- The superclasses of a class have begun to be initialized when it has. -/
theorem sound_ancestryWithin (fuel : Nat) (d : Descriptor) :
    Sound ctx (fun m => m.classes.Started d) (ancestryWithin fuel d) (AncestorsOf d) := by
  induction fuel generalizing d with
  | zero => exact .throw rfl
  | succ fuel ih =>
      refine .seq (sound_classAt d) fun c => ?_
      split
      case h_1 hs =>
        refine .pure fun m _ hc => ?_
        exact hc.1 ▸ hc.2.ancestorsOf hs
      case h_2 s hs =>
        have hstable : Stable fun m => c.descriptor = d ∧ c.Known m :=
          (stable_const _).and (stable_known c)
        refine .bind hstable ((ih s).pre fun m _ hc => hc.2.superclass s hs) fun rest => ?_
        exact .pure fun m _ h => h.1.1 ▸ h.2.cons h.1.2 hs

theorem sound_ancestry (d : Descriptor) :
    Sound ctx (fun m => m.classes.Started d) (ancestry d) (AncestorsOf d) :=
  Safe.then (stable_started d) safe_read fun c => sound_ancestryWithin c.fuel d

/-- The records of these classes, in the same order. -/
abbrev ClassTable.RecordsOf (t : ClassTable) (chain : List Descriptor)
    (records : List RuntimeClass) : Prop :=
  List.Forall₂ (fun k c => t[k]? = some c) chain records

section Records

variable {t : ClassTable} {chain : List Descriptor} {records : List RuntimeClass}

theorem ClassTable.RecordsOf.mem (h : t.RecordsOf chain records) {k : Descriptor} {c : RuntimeClass}
    (hk : k ∈ chain) (hc : t[k]? = some c) : c ∈ records := by
  induction h with
  | nil => contradiction
  | cons hhere _ ih =>
      rcases List.mem_cons.mp hk with rfl | hk
      · obtain rfl := Option.some.inj (hc.symm.trans hhere)
        exact List.mem_cons_self
      · exact List.mem_cons_of_mem _ (ih hk)

theorem ClassTable.RecordsOf.descriptors {host : Host} {path : List Descriptor}
    (h : t.RecordsOf chain records) (ht : t.Sound host path) :
    records.map (·.descriptor) = chain := by
  induction h with
  | nil => rfl
  | cons hhere _ ih => rw [List.map_cons, ht.descriptor hhere, ih]

theorem ClassTable.RecordsOf.record {host : Host} {path : List Descriptor}
    (h : t.RecordsOf chain records) (ht : t.Sound host path) {c : RuntimeClass} (hc : c ∈ records) :
    t[c.descriptor]? = some c := by
  induction h with
  | nil => contradiction
  | cons hhere _ ih =>
      rcases List.mem_cons.mp hc with rfl | hc
      · rwa [ht.descriptor hhere]
      · exact ih hc

/-- The records of a class and its superclasses are found within as many steps as there are. -/
theorem ancestryWithin_of_ancestry {m : Machine} {d : Descriptor} {names : List Text}
    (h : m.classes.Ancestry d chain names) {fuel : Nat} (hfuel : chain.length ≤ fuel) :
    ∃ records, ancestryWithin fuel d ctx m = .ok records m ∧ m.classes.RecordsOf chain records ∧
      records.flatMap (·.interfaces) = names := by
  induction h generalizing fuel with
  | @root d c hc hs =>
      obtain ⟨fuel, rfl⟩ := Nat.exists_eq_add_of_le' hfuel
      refine ⟨[c], ?_, .cons hc .nil, by simp⟩
      rw [List.length_singleton, ancestryWithin, bind_of_ok (classAt_eq_ok hc), hs]
      rfl
  | @super d s c chain names hc hs _ ih =>
      obtain ⟨fuel, rfl⟩ : ∃ n, fuel = n + 1 :=
        Nat.exists_eq_add_of_le' (Nat.le_of_add_left_le hfuel)
      obtain ⟨records, hrun, hrecords, hnames⟩ := ih (Nat.le_of_succ_le_succ hfuel)
      refine ⟨c :: records, ?_, .cons hc hrecords, by simp [hnames]⟩
      rw [ancestryWithin, bind_of_ok (classAt_eq_ok hc), hs]
      exact bind_of_ok hrun

end Records

/-- One of two linked classes that is above the other has another name, if both come from files. Else
there would be the same classes above both. -/
theorem ClassTable.Ancestry.namedApart {host : Host} {t : ClassTable} {path : List Descriptor}
    {d : Descriptor} {chain : List Descriptor} {names : List Text} (h : t.Ancestry d chain names)
    (ht : t.Sound host path) (hlinked : ∀ k ∈ chain, t.Linked k) :
    chain.Pairwise fun k k' => ∀ c c', t[k]? = some c → t[k']? = some c' → c.NamedApart c' := by
  induction h with
  | root _ _ => exact List.pairwise_singleton _ _
  | @super d s c chain names hc hs hrest ih =>
      refine List.pairwise_cons.mpr ⟨?_, ih fun k hk => hlinked k (List.mem_cons_of_mem d hk)⟩
      rintro k hk c₁ c' hc₁ hc' hfile hfile' hname
      obtain ⟨c₂, hc₂, hstate⟩ := hlinked d List.mem_cons_self
      obtain ⟨c₃, hc₃, hstate'⟩ := hlinked k (List.mem_cons_of_mem d hk)
      obtain rfl := Option.some.inj (hc.symm.trans hc₁)
      obtain rfl := Option.some.inj (hc.symm.trans hc₂)
      obtain rfl := Option.some.inj (hc'.symm.trans hc₃)
      have hsuper := ht.superclass_eq hc hc' hstate hstate' hname hfile hfile'
      obtain ⟨before, after, names', rfl, habove⟩ := hrest.above hk
      cases habove with
      | root hk' hs' =>
          obtain rfl := Option.some.inj (hc'.symm.trans hk')
          rw [hsuper, hs'] at hs
          contradiction
      | super hk' hs' hrest' =>
          obtain rfl := Option.some.inj (hc'.symm.trans hk')
          rw [hsuper] at hs
          obtain rfl := Option.some.inj (hs.symm.trans hs')
          have hlength := congrArg List.length (hrest.unique hrest').1
          simp at hlength
          omega

theorem AncestorsOf.namedApart {host : Host} {d : Descriptor} {records : List RuntimeClass}
    {m : Machine} (h : AncestorsOf d records m) (hinv : m.Inv host) :
    records.Pairwise RuntimeClass.NamedApart := by
  have hlinked : ∀ k ∈ records.map (·.descriptor), m.classes.Linked k := by
    intro k hk
    obtain ⟨c, hc, rfl⟩ := List.mem_map.mp hk
    exact (h.known c hc).started.linked
  refine (List.pairwise_map.mp (h.order.namedApart hinv.table hlinked)).imp_of_mem ?_
  intro c c' hc hc' hapart
  obtain ⟨k, hk, hkeeps⟩ := (h.known c hc).record
  obtain ⟨k', hk', hkeeps'⟩ := (h.known c' hc').record
  have hnamed := hapart k k' hk hk'
  rwa [RuntimeClass.NamedApart, hkeeps, hkeeps'] at hnamed

end Ancestors

/-- What is remembered of a search keeps the invariant. -/
theorem sound_remember (d : Descriptor) (ref : MemberRef) (owner : Descriptor) :
    Sound ctx (fun m => m.classes.Started owner ∧ m.classes.Finds d ref owner)
      (remember d ref owner) fun _ _ => True := by
  refine sound_modifyClass (fun _ => rfl) (fun _ => rfl) ?_
  intro m hinv howner c ref' owner' hc hresolved
  rw [Std.HashMap.getElem?_insert] at hresolved
  split at hresolved
  case isTrue hsame =>
    obtain rfl := Option.some.inj hresolved
    obtain rfl : ref = ref' := by simpa using hsame
    exact .inr howner
  case isFalse => exact .inl hresolved

/-- What a search for a method gives: a method of a class whose initialization has begun, if any. -/
def MethodStarted (found : Option Method) (m : Machine) : Prop :=
  ∀ method, found = some method → m.classes.Started method.owner

/-- The method that a class declares, once its initialization has begun. -/
theorem sound_declaredMethod (owner : Descriptor) (name descriptor : Text) :
    Sound ctx (fun m => m.classes.Started owner)
      (do let c ← classAt owner; pure (c.declaredMethod? name descriptor)) MethodStarted := by
  refine .seq (sound_classAt owner) fun c => ?_
  exact .pure fun m _ hc method hmethod => hc.2.declaredMethod hmethod

/-- What a resolution gives: the record of a class whose initialization has begun. As long as what is
remembered is right, it is one that a search finds. -/
structure Resolved (d : Descriptor) (ref : MemberRef) (c : RuntimeClass) (m : Machine) : Prop where
  known : c.Known m
  record : m.classes[c.descriptor]? = some c
  finds : m.classes.Recalls → m.classes.Finds d ref c.descriptor

theorem Machine.InvExcept.resolvedAt {m : Machine} {d owner : Descriptor} {ref : MemberRef}
    {c : RuntimeClass} (h : m.Inv ctx.host) (howner : m.classes.Started owner)
    (hc : m.classes[owner]? = some c)
    (hfinds : m.classes.Recalls → m.classes.Finds d ref owner) : Resolved d ref c m := by
  obtain rfl := h.table.descriptor hc
  exact ⟨h.known howner hc, hc, hfinds⟩

variable [SoundContext ctx]

theorem sound_classFor (d : Descriptor) :
    Sound ctx P (classFor d) fun c m => c.descriptor = d ∧ c.Known m := by
  refine .seq (sound_link d) fun _ => ?_
  refine .seq (sound_initializeClass d) fun _ => ?_
  exact (sound_classAt d).pre fun _ _ hready => hready.started

theorem sound_loadClass (name : Text) :
    Sound ctx P (loadClass name) fun c m => c.descriptor = Descriptor.ofInternal name ∧ c.Known m :=
  sound_classFor _

@[grind ←] theorem safe_classFor (d : Descriptor) : Safe ctx (classFor d) :=
  (sound_classFor d).safe

@[grind ←] theorem safe_loadClass (name : Text) : Safe ctx (loadClass name) :=
  safe_classFor _

/-- A class that was loaded, where what was known before is known still. -/
theorem sound_loaded (hP : Stable P) (name : Text) {f : RuntimeClass → Exec α}
    {Q : α → Machine → Prop} (hf : ∀ c, Sound ctx (fun m => P m ∧ c.Known m) (f c) Q) :
    Sound ctx P (loadClass name >>= f) Q :=
  .bind hP (sound_loadClass name) fun c => (hf c).pre fun _ _ h => ⟨h.1, h.2.2⟩

/-- What a search gives: a class whose initialization has begun, if any. -/
def FoundStarted (found : Option Descriptor) (m : Machine) : Prop :=
  ∀ owner, found = some owner → m.classes.Started owner

/-- What a search among interfaces gives: the first of those it comes to that satisfies `p`. -/
def FoundAmong (p : RuntimeClass → Bool) (names seen : List Text) (found : Option Descriptor)
    (m : Machine) : Prop :=
  ∀ owner, found = some owner → m.classes.Started owner ∧
    ∃ before, m.classes.Visits names seen (before ++ [owner]) ∧ m.classes.FirstAfter p before owner

/-- What a search gives: the first class in its order that satisfies `p`, of which the initialization
has begun. -/
def FoundFirst (d : Descriptor) (p : RuntimeClass → Bool) (found : Option Descriptor) (m : Machine) :
    Prop :=
  ∀ owner, found = some owner → m.classes.Started owner ∧ m.classes.IsFirst d p owner

theorem sound_searchInterfaces {p : RuntimeClass → Bool} (hp : Lasting p) (fuel : Nat)
    (names seen : List Text) :
    Sound ctx P (searchInterfaces p fuel names seen) (FoundAmong p names seen) := by
  induction fuel generalizing names seen P with
  | zero => exact .throw rfl
  | succ fuel ih =>
      cases names with
      | nil => exact .pure fun _ _ _ _ h => by contradiction
      | cons name names =>
          unfold searchInterfaces
          split
          case isTrue hseen =>
            refine SoundBy.post (ih names seen) fun found m _ h owner howner => ?_
            obtain ⟨hstarted, before, hvisits, hfirst⟩ := h owner howner
            exact ⟨hstarted, before, .again (by simpa using hseen) hvisits, hfirst⟩
          case isFalse hseen =>
            have hseen : name ∉ seen := by simpa using hseen
            refine .seq (sound_loadClass name) fun c => ?_
            split
            case isTrue hdeclares =>
              refine .pure fun m _ hc owner howner => ?_
              obtain rfl := Option.some.inj howner
              obtain ⟨hname, hc⟩ := hc
              obtain ⟨c', hc', _⟩ := hc.record
              refine ⟨hc.started, [], ?_, hdeclares ▸ hc.tells hp, by simp⟩
              rw [hname] at hc' ⊢
              exact .visit hseen hc' (.stop _ _)
            case isFalse hdeclares =>
              -- The class that was passed over comes first in the order of the rest.
              have hstable : Stable fun m =>
                  c.descriptor = Descriptor.ofInternal name ∧ c.Known m :=
                (stable_const _).and (stable_known c)
              refine SoundBy.post ((ih (c.interfaces ++ names) (name :: seen)).keep hstable) ?_
              rintro found m _ ⟨⟨hname, hc⟩, h⟩ owner howner
              obtain ⟨hstarted, before, hvisits, hfirst⟩ := h owner howner
              obtain ⟨c', hc', hkeeps⟩ := hc.record
              have hpassed : m.classes.Tells p (Descriptor.ofInternal name) false := by
                have htells := hc.tells hp
                rwa [hname, Bool.eq_false_iff.mpr hdeclares] at htells
              rw [hname] at hc'
              rw [← hkeeps.interfaces] at hvisits
              refine ⟨hstarted, Descriptor.ofInternal name :: before, .visit hseen hc' hvisits,
                hfirst.here, ?_⟩
              intro k hk
              rcases List.mem_cons.mp hk with rfl | hk
              · exact hpassed
              · exact hfirst.before k hk

/-- A class among the superclasses comes before all interfaces. -/
theorem AncestorsOf.isFirst {d : Descriptor} {p : RuntimeClass → Bool} {chain : List RuntimeClass}
    {c : RuntimeClass} {m : Machine} (h : AncestorsOf d chain m) (hp : Lasting p)
    (hfind : chain.find? p = some c) : m.classes.IsFirst d p c.descriptor := by
  obtain ⟨hpc, before, after, rfl, hbefore⟩ := List.find?_eq_some_iff_append.mp hfind
  have hc : c.Known m := h.known c (by simp)
  refine ⟨before.map (·.descriptor), .supers h.order ?_, hpc ▸ hc.tells hp, ?_⟩
  · exact ⟨after.map (·.descriptor), by simp⟩
  · intro k hk
    obtain ⟨c', hc', rfl⟩ := List.mem_map.mp hk
    have htells := (h.known c' (by simp [hc'])).tells hp
    have hpc' : p c' = false := by simpa using hbefore c' hc'
    rwa [hpc'] at htells

/-- An interface comes after all superclasses. -/
theorem AncestorsOf.isFirst_of_among {d owner : Descriptor} {p : RuntimeClass → Bool}
    {chain : List RuntimeClass} {before : List Descriptor} {m : Machine} (h : AncestorsOf d chain m)
    (hp : Lasting p) (hnone : chain.find? p = none)
    (hvisits : m.classes.Visits (chain.flatMap (·.interfaces)) [] (before ++ [owner]))
    (hfirst : m.classes.FirstAfter p before owner) : m.classes.IsFirst d p owner := by
  refine ⟨chain.map (·.descriptor) ++ before, ?_, hfirst.here, ?_⟩
  · rw [List.append_assoc]
    exact .interfaces h.order hvisits
  · intro k hk
    rcases List.mem_append.mp hk with hk | hk
    · obtain ⟨c, hc, rfl⟩ := List.mem_map.mp hk
      have htells := (h.known c hc).tells hp
      have hpc : p c = false := by simpa using List.find?_eq_none.mp hnone c hc
      rwa [hpc] at htells
    · exact hfirst.before k hk

theorem sound_findDeclaring {p : RuntimeClass → Bool} (hp : Lasting p) (d : Descriptor) :
    Sound ctx (fun m => m.classes.Started d) (findDeclaring d p) (FoundFirst d p) := by
  refine .seq (sound_ancestry d) fun chain => ?_
  split
  case h_1 c hfind =>
    refine .pure fun m _ hchain owner howner => ?_
    obtain rfl := Option.some.inj howner
    exact ⟨(hchain.known c (List.mem_of_find?_eq_some hfind)).started, hchain.isFirst hp hfind⟩
  case h_2 hnone =>
    have hstable := stable_ancestorsOf d chain
    refine Safe.then hstable safe_read fun c => ?_
    refine SoundBy.post ((sound_searchInterfaces hp _ _ _).keep hstable) ?_
    rintro found m _ ⟨hchain, hamong⟩ owner howner
    obtain ⟨hstarted, before, hvisits, hfirst⟩ := hamong owner howner
    exact ⟨hstarted, hchain.isFirst_of_among hp hnone hvisits hfirst⟩

theorem sound_resolveField (d : Descriptor) (ref : MemberRef) :
    Sound ctx (fun m => m.classes.Started d) (resolveField d ref) (Resolved d ref) := by
  refine .seq (sound_recordAt d) fun c => ?_
  split
  case h_1 owner howner =>
    refine SoundBy.post (sound_recordAt owner) fun c' m hinv h => ?_
    obtain ⟨⟨_, hc⟩, hc'⟩ := h
    exact hinv.resolvedAt (hinv.resolved hc howner) hc' fun hrecalls => hrecalls hc howner
  case h_2 =>
    refine .seq ((sound_findDeclaring (lasting_fieldIn ref) d).pre fun m _ h => h.1) fun found => ?_
    cases found with
    | none => exact .giveUp rfl
    | some owner =>
        refine .pre (P := fun m => m.classes.Started owner ∧ m.classes.Finds d ref owner) ?_
          fun m _ h => (h owner rfl).imp_right .inl
        refine .bind ((stable_started owner).and (stable_finds d ref owner))
          (sound_remember d ref owner) fun _ => ?_
        refine SoundBy.post (sound_recordAt owner) fun c' m hinv h => ?_
        obtain ⟨⟨⟨howner, hfinds⟩, _⟩, hc'⟩ := h
        exact hinv.resolvedAt howner hc' fun _ => hfinds

/-- A search for a method, from where it has to start, whose answer is remembered. -/
theorem sound_searchMethod (start d : Descriptor) (ref : MemberRef) :
    Sound ctx (fun m => m.classes.Started start ∧ start = ClassTable.methodStart d)
      (do
        match ← findDeclaring start fun k =>
          (k.declaredMethod? ref.name ref.descriptor).isSome with
        | none => unresolved .method ref.text none
        | some owner => do
          remember d ref owner
          let o ← classAt owner
          pure (o.declaredMethod? ref.name ref.descriptor)) MethodStarted := by
  refine .bind ((stable_started start).and (stable_const _))
    ((sound_findDeclaring (lasting_methodIn ref) start).pre fun m _ h => h.1) fun found => ?_
  cases found with
  | none => exact .giveUp rfl
  | some owner =>
      refine .pre (P := fun m => m.classes.Started owner ∧ m.classes.Finds d ref owner) ?_ ?_
      · refine .bind ((stable_started owner).and (stable_finds d ref owner))
          (sound_remember d ref owner) fun _ => ?_
        exact (sound_declaredMethod owner _ _).pre fun m _ h => h.1.1
      · rintro m _ ⟨⟨_, rfl⟩, h⟩
        exact (h owner rfl).imp_right .inr

theorem sound_resolveMethod (d : Descriptor) (ref : MemberRef) :
    Sound ctx (fun m => m.classes.Started d) (resolveMethod d ref) MethodStarted := by
  refine .bind (stable_started d) (sound_classAt d) fun c => ?_
  split
  case h_1 owner howner =>
    refine (sound_declaredMethod owner _ _).pre fun m _ h => ?_
    exact h.2.2.resolved ref owner howner
  case h_2 =>
    split
    case isTrue hbare =>
      refine .bind ((stable_started d).and ((stable_const _).and (stable_known c)))
        (sound_loadClass _) fun root => ?_
      refine (sound_searchMethod root.descriptor d ref).pre fun m _ h => ⟨h.2.2.started, ?_⟩
      obtain ⟨⟨_, rfl, _⟩, hroot, _⟩ := h
      rw [hroot, ClassTable.methodStart]
      exact (if_pos hbare).symm
    case isFalse hbare =>
      refine (sound_searchMethod d d ref).pre fun m _ h => ⟨h.1, ?_⟩
      obtain ⟨_, rfl, _⟩ := h
      rw [ClassTable.methodStart]
      exact (if_neg hbare).symm

@[grind ←] theorem safe_assignableWithin (fuel : Nat) (a b : Descriptor) :
    Safe ctx (assignableWithin fuel a b) := by
  induction fuel generalizing a b with
  | zero => exact Safe.throw rfl
  | succ fuel ih =>
      have hinterfaces : ∀ names : List Text, Safe ctx (names.anyM fun name => do
          let _ ← loadClass name
          assignableWithin fuel (Descriptor.ofInternal name) b) := fun names =>
        safe_anyM fun name => Safe.bind (safe_loadClass name) fun _ => ih _ _
      have hsuper : ∀ s : Option Descriptor,
          Safe ctx (s.elim (pure false) fun s => assignableWithin fuel s b) := by
        intro s
        cases s with
        | none => exact Safe.pure false
        | some s => exact ih s b
      unfold assignableWithin
      grind

@[grind ←] theorem safe_assignable (a b : Descriptor) : Safe ctx (assignable a b) := by
  unfold assignable
  grind

@[grind ←] theorem safe_instanceOf (o : Object) (name : Text) : Safe ctx (instanceOf o name) := by
  unfold instanceOf
  grind

theorem sound_startsAbove (caller : Option RuntimeClass) (ref : MemberRef) (named : Descriptor) :
    Sound ctx (fun m => ∀ c, caller = some c → c.Known m) (startsAbove caller ref named)
      FoundStarted := by
  unfold startsAbove
  cases caller with
  | none => exact .pure fun _ _ _ _ h => by contradiction
  | some c =>
      refine .pre (P := c.Known) ?_ fun m _ h => h c rfl
      dsimp only
      split
      case h_1 => exact .pure fun _ _ _ _ h => by contradiction
      case h_2 above habove =>
        split
        · refine Safe.then (stable_known c) (safe_assignable _ _) fun b => ?_
          split
          · refine .pure fun m _ hc owner howner => ?_
            obtain rfl := Option.some.inj howner
            exact hc.superclass above habove
          · exact .pure fun _ _ _ _ h => by contradiction
        · exact .pure fun _ _ _ _ h => by contradiction

theorem sound_resolveSpecial (caller : Option RuntimeClass) (ref : MemberRef) :
    Sound ctx (fun m => ∀ c, caller = some c → c.Known m) (resolveSpecial caller ref)
      MethodStarted := by
  have hcaller : Stable fun m => ∀ c, caller = some c → c.Known m :=
    stable_all fun c => stable_imp fun _ => stable_known c
  refine sound_loaded hcaller ref.owner fun named => ?_
  refine .bind (hcaller.and (stable_known named))
    ((sound_startsAbove caller ref named.descriptor).pre fun m _ h => h.1) fun above => ?_
  split
  case h_1 above => exact (sound_resolveMethod above ref).pre fun m _ h => h.2 above rfl
  case h_2 =>
    split
    case h_1 method hmethod =>
      refine .pure fun m _ h method' hmethod' => ?_
      obtain rfl := Option.some.inj hmethod'
      exact h.1.2.declaredMethod hmethod
    case h_2 =>
      split
      · exact .giveUp rfl
      · exact (sound_resolveMethod named.descriptor ref).pre fun m _ h => h.1.2.started

/-- A method that was found is run. -/
theorem sound_invokeFound {found : Option Method} {method : Method} (hfound : found = some method)
    (args : List Value) :
    Sound ctx (MethodStarted found) (invokeMethod method args) fun _ _ => True :=
  (sound_invokeMethod method args).pre fun _ _ h => h method hfound

@[grind ←] theorem safe_invoke (owner name descriptor : Text) (args : List Value) :
    Safe ctx (Resolution.invoke owner name descriptor args) := by
  refine SoundBy.seq (sound_loadClass owner) fun c => ?_
  refine .seq ((sound_resolveMethod c.descriptor _).pre fun m _ h => h.2.started) fun found => ?_
  cases found with
  | none => exact .throw rfl
  | some method => exact sound_invokeFound rfl args

section Making

omit [SoundContext ctx]

@[simp, grind =] theorem setField_type (o : Object) (owner name : Text) (v : Value) :
    (o.setField owner name v).type = o.type := rfl

@[simp, grind =] theorem setField_elements (o : Object) (owner name : Text) (v : Value) :
    (o.setField owner name v).elements = o.elements := rfl

@[simp, grind =] theorem setField_storage (o : Object) (owner name : Text) (v : Value) :
    (o.setField owner name v).storage = o.storage := rfl

/-- Only the fields of an instance depend on its superclasses. -/
theorem instanceOfChain_eq (d : Descriptor) (chain : List RuntimeClass) :
    ∃ slots, instanceOfChain d chain = { Object.empty d with fields := slots } := by
  have hfields : ∀ (owner : Text) (fields : List Field) (o : Object), ∃ slots,
      fields.foldl (fun o f => o.setField owner f.name (Value.default f.descriptor)) o =
        { o with fields := slots } := by
    intro owner fields
    induction fields with
    | nil => exact fun o => ⟨o.fields, rfl⟩
    | cons f fields ih => exact fun o => ih _
  unfold instanceOfChain
  generalize Object.empty d = o
  induction chain generalizing o with
  | nil => exact ⟨o.fields, rfl⟩
  | cons k chain ih =>
      rw [List.foldl_cons]
      split
      · exact ih o
      · obtain ⟨slots, hslots⟩ := hfields k.name _ o
        rw [hslots]
        exact ih _

/-- An object is found where it was placed. -/
theorem allocate_found {o : Object} {m m' : Machine} {r : Ref} (h : allocate o ctx m = .ok r m') :
    m'.heap[r.number - 1]? = some o := by
  obtain ⟨rfl, rfl⟩ := EStateM.Result.ok.inj h
  show (m.heap.push o)[m.heap.size + 1 - 1]? = some o
  simp

/-- With its superclasses at hand, an instance is made in any case. -/
theorem newObject_of_ancestry {d : Descriptor} {m : Machine} {chain : List RuntimeClass}
    (h : ancestry d ctx m = .ok chain m) : newObject d ctx m = .ok ⟨m.heap.size + 1⟩
      (Machine.markAccess (.made ⟨m.heap.size + 1⟩ d)
        { m with heap := m.heap.push (instanceOfChain d chain) }) := by
  rw [newObject, bind_of_ok h]
  rfl

theorem sound_newObject (d : Descriptor) :
    Sound ctx (fun m => m.classes.Started d) (newObject d) fun r m => m.moment.HasType r d := by
  refine .bind (stable_started d) (sound_ancestry d) fun chain => ?_
  obtain ⟨slots, hinstance⟩ := instanceOfChain_eq d chain
  have htype : (instanceOfChain d chain).type = d := by rw [hinstance]; rfl
  have helements : (instanceOfChain d chain).elements = #[] := by rw [hinstance]; rfl
  have hallocate : Sound ctx (fun m => m.classes.Started d ∧ AncestorsOf d chain m)
      (allocate (instanceOfChain d chain)) fun r m => m.moment.HasType r d :=
    SoundBy.conseq (sound_allocate _)
      (fun _ _ h => ⟨fun _ => htype.symm ▸ h.1, fun _ => Moment.admits_of_empty helements⟩)
      fun _ _ _ hplaced => htype ▸ hplaced
  have hstable := (stable_started d).and (stable_ancestorsOf d chain)
  refine SoundBy.seq ((hallocate.keep hstable).ensures fun _ _ _ => allocate_found) fun r => ?_
  refine SoundBy.seq (Q := fun _ m => m.moment.HasType r d) ?_ fun _ => .pure fun _ _ h => h
  refine SoundBy.pre (sound_markAccess (P := fun m => AncestorsOf d chain m ∧
    m.heap[r.number - 1]? = some (instanceOfChain d chain)) (stable_hasType r d) ?_) ?_
  · rintro m hinv ⟨hchain, ho⟩ _ _
    exact ⟨_, chain, ho, ⟨_, hinv.table⟩, hchain.order, fun c hc => (hchain.known c hc).record,
      hchain.namedApart hinv, rfl⟩
  · rintro m _ ⟨⟨⟨_, hchain⟩, htype⟩, ho⟩
    exact ⟨⟨hchain, ho⟩, htype⟩

end Making

theorem sound_construct (c : RuntimeClass) (descriptor : Text) (args : List Value) :
    Sound ctx c.Known (construct c descriptor args) fun r m => m.moment.HasType r c.descriptor := by
  unfold construct
  split
  case h_1 => exact .giveUp rfl
  case h_2 method hmethod =>
    refine .bind (stable_known c) ((sound_newObject c.descriptor).pre fun m _ h => h.started)
      fun r => ?_
    have hinvoke : Sound ctx (fun m => c.Known m ∧ m.moment.HasType r c.descriptor)
        (invokeMethod method (.ref r :: args)) fun _ _ => True :=
      (sound_invokeMethod method _).pre fun m _ h => h.1.declaredMethod hmethod
    refine .bind ((stable_known c).and (stable_hasType r c.descriptor)) hinvoke fun _ => ?_
    exact .pure fun _ _ h => h.1.2

end ClassEngine
