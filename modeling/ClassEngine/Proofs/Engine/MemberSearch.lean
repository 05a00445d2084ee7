import Mathlib.Algebra.BigOperators.Group.Finset.Basic
import Mathlib.Data.Fintype.EquivFin
import Mathlib.Data.Fintype.Sets
import ClassEngine.Proofs.Engine.ClassNames
import ClassEngine.Proofs.Engine.SubtypeTest

/-!
The search for the class that declares a member. It goes up the superclasses and then through all
their interfaces, each of which it visits once, so it comes to an end also where interfaces go round
in a circle. Without circles it finds what a walk would find that remembers nothing. Main result:
`member_search_finds_nearest`.
-/

namespace ClassEngine

open Machine Exec Linking Resolution

section Declared

/-- The names of the interfaces that a type declares. -/
def interfacesOf (host : Host) (d : Descriptor) : List Text :=
  match define host d with
  | .error _ => []
  | .ok c => c.interfaces

/-- Whether a type is defined as a class that satisfies `p`. -/
def satisfies (host : Host) (p : RuntimeClass → Bool) (d : Descriptor) : Bool :=
  match define host d with
  | .error _ => false
  | .ok c => p c

/-- A property of what classes declare. -/
def Defining (p : RuntimeClass → Bool) : Prop :=
  ∀ ⦃c c₀ : RuntimeClass⦄, c.DefinedBy c₀ → p c = p c₀

theorem defining_fieldIn (ref : MemberRef) : Defining ref.fieldIn := by
  intro c c₀ h
  rw [h]
  rfl

theorem defining_methodIn (ref : MemberRef) : Defining ref.methodIn := by
  intro c c₀ h
  rw [h]
  rfl

theorem Defining.lasting {p : RuntimeClass → Bool} (hp : Defining p) : Lasting p := by
  intro c c' hkeeps
  have hself : c.DefinedBy c := rfl
  exact hp (hself.of_keeps hkeeps)

/-- One comes to a type from the names of some interfaces by declared interfaces. -/
def Reaches (host : Host) (names : List Text) (i : Descriptor) : Prop :=
  ∃ name ∈ names, Relation.ReflTransGen (Implements host) (Descriptor.ofInternal name) i

variable {host : Host} {p : RuntimeClass → Bool} {d i : Descriptor} {name : Text} {names : List Text}

theorem implements_iff : Implements host d i ↔
    ∃ name ∈ interfacesOf host d, i = Descriptor.ofInternal name := by
  unfold Implements interfacesOf
  cases define host d with
  | error e => simp
  | ok c => simp

theorem reaches_interfacesOf :
    Reaches host (interfacesOf host d) i ↔ Relation.TransGen (Implements host) d i := by
  rw [Relation.TransGen.head'_iff]
  constructor
  · rintro ⟨name, hname, hrest⟩
    exact ⟨_, implements_iff.mpr ⟨name, hname, rfl⟩, hrest⟩
  · rintro ⟨k, hk, hrest⟩
    obtain ⟨name, hname, rfl⟩ := implements_iff.mp hk
    exact ⟨name, hname, hrest⟩

theorem Reaches.tail {j : Descriptor} (h : Reaches host names i)
    (hrest : Relation.ReflTransGen (Implements host) i j) : Reaches host names j := by
  obtain ⟨name, hname, hreach⟩ := h
  exact ⟨name, hname, hreach.trans hrest⟩

theorem Reaches.self (hname : name ∈ names) : Reaches host names (Descriptor.ofInternal name) :=
  ⟨name, hname, .refl⟩

theorem Reaches.mono {more : List Text} (h : Reaches host names i) (hsubset : names ⊆ more) :
    Reaches host more i := by
  obtain ⟨name, hname, hreach⟩ := h
  exact ⟨name, hsubset hname, hreach⟩

/-- From a list one comes to its first interface, to what that one leads to, and to what the others
lead to. -/
theorem reaches_cons_iff : Reaches host (name :: names) i ↔
    i = Descriptor.ofInternal name ∨
      Reaches host (interfacesOf host (Descriptor.ofInternal name)) i ∨ Reaches host names i := by
  have hfirst : Relation.ReflTransGen (Implements host) (Descriptor.ofInternal name) i ↔
      i = Descriptor.ofInternal name ∨
        Reaches host (interfacesOf host (Descriptor.ofInternal name)) i := by
    rw [reaches_interfacesOf, Relation.reflTransGen_iff_eq_or_transGen]
  constructor
  · rintro ⟨k, hk, hreach⟩
    rcases List.mem_cons.mp hk with rfl | hk
    · rcases hfirst.mp hreach with h | h
      · exact .inl h
      · exact .inr (.inl h)
    · exact .inr (.inr ⟨k, hk, hreach⟩)
  · rintro (h | h | h)
    · exact ⟨name, List.mem_cons_self, hfirst.mpr (.inl h)⟩
    · exact ⟨name, List.mem_cons_self, hfirst.mpr (.inr h)⟩
    · exact h.mono (List.subset_cons_self name names)

/-- A record of the table satisfies `p` if its definition does. -/
theorem ClassTable.Sound.holds_eq {t : ClassTable} {path : List Descriptor} {c : RuntimeClass}
    (ht : t.Sound host path) (hp : Defining p) (hc : t[d]? = some c) :
    p c = satisfies host p d := by
  obtain ⟨c₀, hc₀, hdefined⟩ := ht.defined hc
  rw [satisfies, hc₀]
  exact hp hdefined

theorem ClassTable.Sound.interfaces {t : ClassTable} {path : List Descriptor} {c : RuntimeClass}
    (ht : t.Sound host path) (hc : t[d]? = some c) : c.interfaces = interfacesOf host d := by
  obtain ⟨c₀, hc₀, hdefined⟩ := ht.defined hc
  rw [interfacesOf, hc₀, hdefined]

end Declared

section Walks

variable {host : Host} {p : RuntimeClass → Bool} {names seen : List Text} {order : List Descriptor}

/-- The walk through interfaces in the order of declaration, each followed at once by its own. It
remembers nothing, so an interface comes as often as there are ways to it. -/
inductive Traversal (host : Host) : List Text → List Descriptor → Prop
  | nil : Traversal host [] []
  | cons {name : Text} {names : List Text} {below rest : List Descriptor}
      (hbelow : Traversal host (interfacesOf host (Descriptor.ofInternal name)) below)
      (hrest : Traversal host names rest) :
      Traversal host (name :: names) (Descriptor.ofInternal name :: (below ++ rest))

/-- The same walk that passes over what it has seen, up to the first interface that satisfies `p`. -/
inductive Searches (host : Host) (p : RuntimeClass → Bool) :
    List Text → List Text → Option Descriptor → Prop
  | done (seen : List Text) : Searches host p [] seen none
  | again {name : Text} {names seen : List Text} {found : Option Descriptor} (hseen : name ∈ seen)
      (hrest : Searches host p names seen found) : Searches host p (name :: names) seen found
  | here {name : Text} {names seen : List Text} (hnew : name ∉ seen)
      (hsat : satisfies host p (Descriptor.ofInternal name) = true) :
      Searches host p (name :: names) seen (some (Descriptor.ofInternal name))
  | on {name : Text} {names seen : List Text} {found : Option Descriptor} (hnew : name ∉ seen)
      (hnot : satisfies host p (Descriptor.ofInternal name) = false)
      (hrest : Searches host p (interfacesOf host (Descriptor.ofInternal name) ++ names)
        (name :: seen) found) : Searches host p (name :: names) seen found

theorem Traversal.mem_iff (h : Traversal host names order) {i : Descriptor} :
    i ∈ order ↔ Reaches host names i := by
  induction h with
  | nil => simp [Reaches]
  | cons _ _ ihbelow ihrest => rw [reaches_cons_iff, List.mem_cons, List.mem_append, ihbelow, ihrest]

/-- A walk that finds nothing has nothing to find. -/
theorem Traversal.find?_eq_none (h : Traversal host names order)
    (hnot : ∀ i, Reaches host names i → satisfies host p i = false) :
    order.find? (satisfies host p) = none := by
  rw [List.find?_eq_none]
  intro i hi
  rw [hnot i (h.mem_iff.mp hi)]
  exact Bool.false_ne_true

/-- What a search finds can be reached, and satisfies `p`. -/
theorem Searches.sound {found : Option Descriptor} (h : Searches host p names seen found)
    {owner : Descriptor} (howner : found = some owner) :
    Reaches host names owner ∧ satisfies host p owner = true := by
  induction h with
  | done => contradiction
  | again _ _ ih =>
      obtain ⟨hreach, hsat⟩ := ih howner
      exact ⟨hreach.mono (List.subset_cons_self _ _), hsat⟩
  | here _ hsat =>
      obtain rfl := Option.some.inj howner
      exact ⟨.self List.mem_cons_self, hsat⟩
  | on _ _ _ ih =>
      obtain ⟨⟨k, hk, hreach⟩, hsat⟩ := ih howner
      refine ⟨reaches_cons_iff.mpr (.inr ?_), hsat⟩
      rcases List.mem_append.mp hk with hk | hk
      · exact .inl ⟨k, hk, hreach⟩
      · exact .inr ⟨k, hk, hreach⟩

/-- A search that ends without a result has visited, with each interface, all that it declares. -/
theorem Searches.closed (h : Searches host p names seen none) :
    ∃ visited : Set Text, (∀ k ∈ names, k ∈ visited) ∧ (∀ k ∈ seen, k ∈ visited) ∧
      ∀ k ∈ visited, k ∉ seen → satisfies host p (Descriptor.ofInternal k) = false ∧
        ∀ i ∈ interfacesOf host (Descriptor.ofInternal k), i ∈ visited := by
  generalize hnone : (none : Option Descriptor) = found at h
  induction h with
  | done seen => exact ⟨{k | k ∈ seen}, by simp, fun _ hk => hk, fun k hk hnew => absurd hk hnew⟩
  | again hseen _ ih =>
      obtain ⟨visited, hnames, hold, hrest⟩ := ih hnone
      refine ⟨visited, fun k hk => ?_, hold, hrest⟩
      rcases List.mem_cons.mp hk with rfl | hk
      · exact hold k hseen
      · exact hnames k hk
  | here => contradiction
  | @on name names seen _ hnew hnot _ ih =>
      obtain ⟨visited, hnames, hold, hrest⟩ := ih hnone
      have hname : name ∈ visited := hold name List.mem_cons_self
      refine ⟨visited, fun k hk => ?_, fun k hk => hold k (List.mem_cons_of_mem name hk), ?_⟩
      · rcases List.mem_cons.mp hk with rfl | hk
        · exact hname
        · exact hnames k (List.mem_append_right _ hk)
      · intro k hk hk'
        by_cases hsame : k = name
        · rw [hsame]
          exact ⟨hnot, fun i hi => hnames i (List.mem_append_left _ hi)⟩
        · exact hrest k hk (by simp [hsame, hk'])

/-- Passing over what was seen loses nothing, circles or not. -/
theorem Searches.complete (h : Searches host p names [] none) {i : Descriptor}
    (hi : Reaches host names i) : satisfies host p i = false := by
  obtain ⟨visited, hnames, _, hrest⟩ := h.closed
  obtain ⟨name, hname, hreach⟩ := hi
  have hvisited : ∃ k ∈ visited, i = Descriptor.ofInternal k := by
    induction hreach with
    | refl => exact ⟨name, hnames name hname, rfl⟩
    | tail _ hstep ih =>
        obtain ⟨k, hk, rfl⟩ := ih
        obtain ⟨j, hj, rfl⟩ := implements_iff.mp hstep
        exact ⟨j, (hrest k hk (by simp)).2 j hj, rfl⟩
  obtain ⟨k, hk, rfl⟩ := hvisited
  exact (hrest k hk (by simp)).1

/-- Nothing that one comes to from an interface satisfies `p`. -/
def Cleared (host : Host) (p : RuntimeClass → Bool) (name : Text) : Prop :=
  ∀ i, Relation.ReflTransGen (Implements host) (Descriptor.ofInternal name) i →
    satisfies host p i = false

theorem Cleared.of_below {name : Text} (hnot : satisfies host p (Descriptor.ofInternal name) = false)
    (hbelow : ∀ i, Reaches host (interfacesOf host (Descriptor.ofInternal name)) i →
      satisfies host p i = false) : Cleared host p name := by
  intro i hi
  rcases Relation.reflTransGen_iff_eq_or_transGen.mp hi with rfl | hi
  · exact hnot
  · exact hbelow i (reaches_interfacesOf.mpr hi)

theorem Reaches.cleared {name : Text} (h : Reaches host names (Descriptor.ofInternal name))
    (hnot : ∀ i, Reaches host names i → satisfies host p i = false) : Cleared host p name :=
  fun i hi => hnot i (h.tail hi)

/-- Where nothing leads back to itself, a search of the first names finds what the walk finds, or it
goes on with the other names and has seen nothing but what the first ones lead to. What was seen
before must not matter: it is cleared, if the first names lead to it at all. -/
theorem Traversal.searches (h : Traversal host names order)
    (hacyclic : ∀ i, Reaches host names i → ¬Relation.TransGen (Implements host) i i)
    {work : List Text} {found : Option Descriptor}
    (hseen : ∀ k ∈ seen, Reaches host names (Descriptor.ofInternal k) → Cleared host p k)
    (hsearch : Searches host p (names ++ work) seen found) :
    (∃ owner, order.find? (satisfies host p) = some owner ∧ found = some owner) ∨
      order.find? (satisfies host p) = none ∧ ∃ seen', Searches host p work seen' found ∧
        ∀ k ∈ seen', k ∈ seen ∨ Reaches host names (Descriptor.ofInternal k) := by
  induction h generalizing work seen with
  | nil => exact .inr ⟨rfl, seen, hsearch, fun k hk => .inl hk⟩
  | @cons name names below rest hbelow hrest ihbelow ihrest =>
      have hself : Reaches host (name :: names) (Descriptor.ofInternal name) :=
        .self List.mem_cons_self
      have hdown : ∀ {i}, Reaches host (interfacesOf host (Descriptor.ofInternal name)) i →
          Reaches host (name :: names) i := fun hi => reaches_cons_iff.mpr (.inr (.inl hi))
      have hon : ∀ {i}, Reaches host names i → Reaches host (name :: names) i :=
        fun hi => reaches_cons_iff.mpr (.inr (.inr hi))
      cases hsearch with
      | again hmem hagain =>
          have hclear := hseen name hmem hself
          have hskip : below.find? (satisfies host p) = none := hbelow.find?_eq_none fun i hi =>
            hclear i (reaches_interfacesOf.mp hi).to_reflTransGen
          rw [List.find?_cons_of_neg (by simp [hclear _ .refl]), List.find?_append, hskip,
            Option.none_or]
          refine (ihrest (fun i hi => hacyclic i (hon hi)) (fun k hk hi => hseen k hk (hon hi))
            hagain).imp_right ?_
          rintro ⟨hnone, seen', hsearch', hsub⟩
          exact ⟨hnone, seen', hsearch', fun k hk => (hsub k hk).imp_right hon⟩
      | here _ hsat => exact .inl ⟨_, List.find?_cons_of_pos hsat, rfl⟩
      | on hnew hnot hdeeper =>
          rw [List.find?_cons_of_neg (by simp [hnot]), List.find?_append]
          have hseen' : ∀ k ∈ name :: seen,
              Reaches host (interfacesOf host (Descriptor.ofInternal name))
                (Descriptor.ofInternal k) → Cleared host p k := by
            intro k hk hreach
            rcases List.mem_cons.mp hk with rfl | hk
            · exact absurd (reaches_interfacesOf.mp hreach) (hacyclic _ hself)
            · exact hseen k hk (hdown hreach)
          rcases ihbelow (fun i hi => hacyclic i (hdown hi)) hseen' hdeeper with
            ⟨owner, hfind, hfound⟩ | ⟨hnone, seen₁, hsearch₁, hsub₁⟩
          · exact .inl ⟨owner, by rw [hfind, Option.some_or], hfound⟩
          -- All that was seen below is cleared by now, and so is the interface itself.
          have hbelow' : ∀ i, Reaches host (interfacesOf host (Descriptor.ofInternal name)) i →
              satisfies host p i = false := fun i hi =>
            Bool.eq_false_iff.mpr (List.find?_eq_none.mp hnone i (hbelow.mem_iff.mpr hi))
          have hcleared : ∀ k ∈ seen₁, Reaches host names (Descriptor.ofInternal k) →
              Cleared host p k := by
            intro k hk hreach
            rcases hsub₁ k hk with hk | hk
            · rcases List.mem_cons.mp hk with rfl | hk
              · exact .of_below hnot hbelow'
              · exact hseen k hk (hon hreach)
            · exact hk.cleared hbelow'
          rw [hnone, Option.none_or]
          refine (ihrest (fun i hi => hacyclic i (hon hi)) hcleared hsearch₁).imp_right ?_
          rintro ⟨hnone', seen', hsearch', hsub⟩
          refine ⟨hnone', seen', hsearch', fun k hk => ?_⟩
          rcases hsub k hk with hk | hk
          · rcases hsub₁ k hk with hk | hk
            · rcases List.mem_cons.mp hk with rfl | hk
              · exact .inr hself
              · exact .inl hk
            · exact .inr (hdown hk)
          · exact .inr (hon hk)

/-- Without circles the search finds what the walk finds. -/
theorem Searches.eq_find? {found : Option Descriptor} (h : Searches host p names [] found)
    (horder : Traversal host names order)
    (hacyclic : ∀ i, Reaches host names i → ¬Relation.TransGen (Implements host) i i) :
    found = order.find? (satisfies host p) := by
  have hwhole : Searches host p (names ++ []) [] found := by rwa [List.append_nil]
  rcases horder.searches hacyclic (by simp) hwhole with ⟨owner, hfind, hfound⟩ | ⟨hnone, _, hrest, _⟩
  · rw [hfind, hfound]
  · cases hrest with
    | done => exact hnone.symm

theorem exists_traversal_of_each
    (h : ∀ k ∈ names, ∃ below, Traversal host (interfacesOf host (Descriptor.ofInternal k)) below) :
    ∃ order, Traversal host names order := by
  induction names with
  | nil => exact ⟨[], .nil⟩
  | cons name names ih =>
      obtain ⟨below, hbelow⟩ := h name List.mem_cons_self
      obtain ⟨rest, hrest⟩ := ih fun k hk => h k (List.mem_cons_of_mem name hk)
      exact ⟨_, .cons hbelow hrest⟩

/-- In a finite graph without circles the walk comes to an end. -/
theorem exists_traversal {graph : Finset Descriptor}
    (hclosed : ∀ i ∈ graph, ∀ j, Implements host i j → j ∈ graph)
    (hacyclic : ∀ i ∈ graph, ¬Relation.TransGen (Implements host) i i)
    (hnames : ∀ k ∈ names, Descriptor.ofInternal k ∈ graph) : ∃ order, Traversal host names order := by
  let Below : graph → graph → Prop := fun j i => Relation.TransGen (Implements host) i.1 j.1
  have htrans : IsTrans graph Below := ⟨fun _ _ _ h h' => h'.trans h⟩
  have hirrefl : Std.Irrefl Below := ⟨fun i => hacyclic i.1 i.2⟩
  have hwf : WellFounded Below := Finite.wellFounded_of_trans_of_irrefl Below
  have heach : ∀ i : graph, ∃ below, Traversal host (interfacesOf host i.1) below := by
    intro i
    induction i using hwf.induction with
    | _ i ih =>
        refine exists_traversal_of_each fun k hk => ?_
        have hstep : Implements host i.1 (Descriptor.ofInternal k) := implements_iff.mpr ⟨k, hk, rfl⟩
        exact ih ⟨_, hclosed i.1 i.2 _ hstep⟩ (.single hstep)
  exact exists_traversal_of_each fun k hk => heach ⟨_, hnames k hk⟩

end Walks

section Runs

variable {ctx : Context} {p : RuntimeClass → Bool} {m m' : Machine} {d : Descriptor}
  {types graph : Finset Descriptor}

/-- The types load without error, in whatever order they are asked for. -/
def LoadsEach (ctx : Context) (types : Finset Descriptor) (m : Machine) : Prop :=
  ∀ ⦃m' : Machine⦄,
    Relation.ReflTransGen (fun k k' => ∃ d ∈ types, ∃ c, classFor d ctx k = .ok c k') m m' →
    ∀ ⦃d⦄, d ∈ types → ∃ c m'', classFor d ctx m' = .ok c m''

theorem LoadsEach.after {c : RuntimeClass} (h : LoadsEach ctx types m) (hd : d ∈ types)
    (hrun : classFor d ctx m = .ok c m') : LoadsEach ctx types m' :=
  fun _ hreach => h (.head ⟨d, hd, c, hrun⟩ hreach)

/-- Where all types are initialized, they load without further ado. -/
theorem loadsEach_of_initialized {host : Host}
    (hm : ∀ d ∈ types, ∃ c, m.classes[d]? = some c ∧ c.state = .initialized) (steps nesting : Nat) :
    LoadsEach (Session.context host (steps + 1) (nesting + 1)) types m := by
  have hsame : ∀ d ∈ types, ∃ c,
      classFor d (Session.context host (steps + 1) (nesting + 1)) m = .ok c m := by
    intro d hd
    obtain ⟨c, hc, hstate⟩ := hm d hd
    exact ⟨c, classFor_initialized host steps nesting hc hstate⟩
  intro m' hreach
  have hkept : m' = m := by
    induction hreach with
    | refl => rfl
    | tail _ hstep ih =>
        obtain ⟨d, hd, c, hrun⟩ := hstep
        obtain ⟨c', hload⟩ := hsame d hd
        rw [ih, hload] at hrun
        exact (EStateM.Result.ok.inj hrun).2.symm
  intro d hd
  obtain ⟨c, hload⟩ := hsame d hd
  exact ⟨c, m, hkept ▸ hload⟩

/-- In engines that satisfy `L` the types load, and the engine satisfies `L` again. -/
structure Supplies (ctx : Context) (types : Finset Descriptor) (L : Machine → Prop) : Prop where
  inv : ∀ {m}, L m → m.Inv ctx.host
  loads : ∀ {m name}, L m → Descriptor.ofInternal name ∈ types →
    ∃ c m', loadClass name ctx m = .ok c m' ∧ L m'

/-- How many interfaces those of the graph declare that were not seen yet. -/
def unseen (host : Host) (graph : Finset Descriptor) (seen : List Text) : Nat :=
  ∑ i ∈ graph.filter (· ∉ seen.map Descriptor.ofInternal), (interfacesOf host i).length

theorem unseen_nil (host : Host) :
    unseen host graph [] = ∑ i ∈ graph, (interfacesOf host i).length := by
  simp [unseen]

/-- Visiting an interface adds to the work what it declares, and that is counted no longer. -/
theorem unseen_cons {host : Host} {name : Text} {seen : List Text}
    (hmem : Descriptor.ofInternal name ∈ graph) (hnew : name ∉ seen) :
    (interfacesOf host (Descriptor.ofInternal name)).length + unseen host graph (name :: seen) =
      unseen host graph seen := by
  have hnew' : Descriptor.ofInternal name ∉ seen.map Descriptor.ofInternal := by
    intro hin
    obtain ⟨k, hk, hsame⟩ := List.mem_map.mp hin
    exact hnew (Descriptor.ofInternal_injective hsame ▸ hk)
  have hsplit : graph.filter (· ∉ seen.map Descriptor.ofInternal) =
      insert (Descriptor.ofInternal name)
        (graph.filter (· ∉ (name :: seen).map Descriptor.ofInternal)) := by
    ext i
    rw [Finset.mem_insert, Finset.mem_filter, Finset.mem_filter, List.map_cons, List.mem_cons]
    by_cases hi : i = Descriptor.ofInternal name
    · rw [hi]
      exact ⟨fun _ => .inl rfl, fun _ => ⟨hmem, hnew'⟩⟩
    · simp only [hi, false_or]
  rw [unseen, unseen, hsplit, Finset.sum_insert (by simp)]

variable [SoundContext ctx]

theorem LoadsEach.supplies :
    Supplies ctx types fun m => m.Inv ctx.host ∧ LoadsEach ctx types m where
  inv h := h.1
  loads {m name} h hname := by
    obtain ⟨c, m', hrun⟩ := h.2 .refl hname
    have hinv := ((sound_classFor (P := fun _ => True) _).of_ok h.1 trivial hrun).1
    exact ⟨c, m', hrun, hinv, h.2.after hname hrun⟩

/-- The record of a loaded class tells what its definition does. -/
theorem satisfies_of_loadClass {name : Text} {c : RuntimeClass} (hp : Defining p)
    (hinv : m.Inv ctx.host) (hrun : loadClass name ctx m = .ok c m') :
    c.descriptor = Descriptor.ofInternal name ∧
      p c = satisfies ctx.host p (Descriptor.ofInternal name) ∧
      c.interfaces = interfacesOf ctx.host (Descriptor.ofInternal name) := by
  obtain ⟨hinv', hname, hknown⟩ :=
    (sound_loadClass (P := fun _ => True) name).of_ok hinv trivial hrun
  obtain ⟨c', hc', hkeeps⟩ := hknown.record
  rw [hname] at hc'
  refine ⟨hname, ?_, ?_⟩
  · rw [← hp.lasting hkeeps]
    exact hinv'.table.holds_eq hp hc'
  · rw [← hkeeps.interfaces]
    exact hinv'.table.interfaces hc'

/-- Where the interfaces load, the search among them comes to an end, and goes as it should. -/
theorem searchInterfaces_searches {L : Machine → Prop} (hsupply : Supplies ctx graph L)
    (hclosed : ∀ i ∈ graph, ∀ j, Implements ctx.host i j → j ∈ graph) (hp : Defining p)
    {fuel : Nat} {names seen : List Text} (hm : L m)
    (hnames : ∀ k ∈ names, Descriptor.ofInternal k ∈ graph)
    (hfuel : names.length + unseen ctx.host graph seen < fuel) :
    ∃ found m', searchInterfaces p fuel names seen ctx m = .ok found m' ∧ L m' ∧
      Searches ctx.host p names seen found := by
  induction fuel generalizing names seen m with
  | zero => omega
  | succ fuel ih =>
      cases names with
      | nil => exact ⟨none, m, rfl, hm, .done seen⟩
      | cons name names =>
          have hrest : ∀ k ∈ names, Descriptor.ofInternal k ∈ graph :=
            fun k hk => hnames k (List.mem_cons_of_mem name hk)
          rw [List.length_cons] at hfuel
          rw [searchInterfaces]
          by_cases hseen : name ∈ seen
          · rw [if_pos (by simpa using hseen)]
            have hfuel' : names.length + unseen ctx.host graph seen < fuel := by omega
            obtain ⟨found, m', hrun, hm', hsearch⟩ := ih hm hrest hfuel'
            exact ⟨found, m', hrun, hm', .again hseen hsearch⟩
          rw [if_neg (by simpa using hseen)]
          have hname := hnames name List.mem_cons_self
          obtain ⟨c, m₁, hload, hm₁⟩ := hsupply.loads hm hname
          obtain ⟨hdescriptor, hsat, hinterfaces⟩ :=
            satisfies_of_loadClass hp (hsupply.inv hm) hload
          rw [bind_of_ok hload]
          by_cases hdeclares : p c = true
          · rw [if_pos hdeclares, hdescriptor]
            exact ⟨_, m₁, rfl, hm₁, .here hseen (hsat ▸ hdeclares)⟩
          rw [if_neg hdeclares, hinterfaces]
          have hnames' : ∀ k ∈ interfacesOf ctx.host (Descriptor.ofInternal name) ++ names,
              Descriptor.ofInternal k ∈ graph := by
            intro k hk
            rcases List.mem_append.mp hk with hk | hk
            · exact hclosed _ hname _ (implements_iff.mpr ⟨k, hk, rfl⟩)
            · exact hrest k hk
          have hcount : _ + unseen ctx.host graph (name :: seen) = _ := unseen_cons hname hseen
          have hfuel' : (interfacesOf ctx.host (Descriptor.ofInternal name) ++ names).length +
              unseen ctx.host graph (name :: seen) < fuel := by
            rw [List.length_append]
            omega
          obtain ⟨found, m', hrun, hm', hsearch⟩ := ih hm₁ hnames' hfuel'
          exact ⟨found, m', hrun, hm', .on hseen (hsat ▸ Bool.eq_false_iff.mpr hdeclares) hsearch⟩

end Runs

section Supers

variable {host : Host} {t : ClassTable} {p : RuntimeClass → Bool} {d : Descriptor}
  {chain : List Descriptor} {names : List Text}

theorem ClassTable.Sound.ancestry_root {c : RuntimeClass} (ht : t.Sound host [])
    (hlinked : t.Linked d) (hdefine : define host d = .ok c) (hname : c.superName = []) :
    t.Ancestry d [d] c.interfaces := by
  obtain ⟨k, hk, hstate⟩ := hlinked
  have hsuper := ht.superclass hk hstate hdefine
  rw [if_pos hname] at hsuper
  have hinterfaces : k.interfaces = c.interfaces := by
    rw [ht.interfaces hk, interfacesOf, hdefine]
  exact hinterfaces ▸ .root hk hsuper

theorem ClassTable.Sound.ancestry_super {c : RuntimeClass} (ht : t.Sound host [])
    (hlinked : t.Linked d) (hdefine : define host d = .ok c) (hname : c.superName ≠ [])
    (hrest : t.Ancestry (Descriptor.ofInternal c.superName) chain names) :
    t.Ancestry d (d :: chain) (c.interfaces ++ names) := by
  obtain ⟨k, hk, hstate⟩ := hlinked
  have hsuper := ht.superclass hk hstate hdefine
  rw [if_neg hname] at hsuper
  have hinterfaces : k.interfaces = c.interfaces := by
    rw [ht.interfaces hk, interfacesOf, hdefine]
  exact hinterfaces ▸ .super hk hsuper hrest

/-- The names are those of the interfaces that the class and its superclasses declare. -/
theorem ClassTable.Ancestry.mem_names_iff {path : List Descriptor} (h : t.Ancestry d chain names)
    (ht : t.Sound host path) {name : Text} :
    name ∈ names ↔ ∃ k ∈ chain, name ∈ interfacesOf host k := by
  induction h with
  | root hc _ => simp [ht.interfaces hc]
  | super hc _ _ ih => simp [ht.interfaces hc, ih]

theorem ClassTable.Ancestry.reaches_iff {path : List Descriptor} (h : t.Ancestry d chain names)
    (ht : t.Sound host path) {i : Descriptor} :
    Reaches host names i ↔ ∃ k ∈ chain, Relation.TransGen (Implements host) k i := by
  constructor
  · rintro ⟨name, hname, hreach⟩
    obtain ⟨k, hk, hdeclared⟩ := (h.mem_names_iff ht).mp hname
    exact ⟨k, hk, reaches_interfacesOf.mp ⟨name, hdeclared, hreach⟩⟩
  · rintro ⟨k, hk, hreach⟩
    obtain ⟨name, hdeclared, hrest⟩ := reaches_interfacesOf.mpr hreach
    exact ⟨name, (h.mem_names_iff ht).mpr ⟨k, hk, hdeclared⟩, hrest⟩

/-- Going up from a class finds it and its superclasses as they are in the table. -/
theorem ancestryWithin_ok {ctx : Context} {m : Machine} (h : m.classes.Ancestry d chain names)
    {path : List Descriptor} (ht : m.classes.Sound host path) {fuel : Nat}
    (hfuel : chain.length ≤ fuel) :
    ∃ records, ancestryWithin fuel d ctx m = .ok records m ∧
      records.map (·.descriptor) = chain ∧ records.flatMap (·.interfaces) = names ∧
      ∀ c ∈ records, m.classes[c.descriptor]? = some c := by
  obtain ⟨records, hrun, hrecords, hnames⟩ := ancestryWithin_of_ancestry h hfuel
  exact ⟨records, hrun, hrecords.descriptors ht, hnames, fun c hc => hrecords.record ht hc⟩

end Supers

section Search

variable {host : Host} {p : RuntimeClass → Bool} {d : Descriptor} {chain : List Descriptor}
  {names : List Text} {graph : Finset Descriptor}

/-- What a search finds that goes through the superclasses and then through these interfaces. -/
inductive Locates (host : Host) (p : RuntimeClass → Bool) (chain : List Descriptor)
    (names : List Text) : Option Descriptor → Prop
  | super {owner : Descriptor} (h : chain.find? (satisfies host p) = some owner) :
      Locates host p chain names (some owner)
  | interface {found : Option Descriptor} (hnone : chain.find? (satisfies host p) = none)
      (h : Searches host p names [] found) : Locates host p chain names found

theorem Locates.eq_super {found : Option Descriptor} {owner : Descriptor}
    (h : Locates host p chain names found)
    (hfind : chain.find? (satisfies host p) = some owner) : found = some owner := by
  cases h with
  | super hfound => exact hfound.symm.trans hfind
  | interface hnone => exact absurd (hfind.symm.trans hnone) nofun

theorem Locates.searches {found : Option Descriptor} (h : Locates host p chain names found)
    (hnone : chain.find? (satisfies host p) = none) : Searches host p names [] found := by
  cases h with
  | super hfound => exact absurd (hfound.symm.trans hnone) nofun
  | interface _ hsearch => exact hsearch

/-- A finite graph of interfaces: those of the classes, and with each one those that it declares. -/
structure IsInterfaceGraph (host : Host) (chain : List Descriptor) (graph : Finset Descriptor) :
    Prop where
  root : ∀ {k i}, k ∈ chain → Implements host k i → i ∈ graph
  closed : ∀ {i j}, i ∈ graph → Implements host i j → j ∈ graph

section Graphs

variable {t : ClassTable} {path : List Descriptor} (hgraph : IsInterfaceGraph host chain graph)
  (hancestry : t.Ancestry d chain names) (ht : t.Sound host path)
include hgraph hancestry ht

theorem IsInterfaceGraph.mem_of_names {name : Text} (hname : name ∈ names) :
    Descriptor.ofInternal name ∈ graph := by
  obtain ⟨k, hk, hdeclared⟩ := (hancestry.mem_names_iff ht).mp hname
  exact hgraph.root hk (implements_iff.mpr ⟨name, hdeclared, rfl⟩)

theorem IsInterfaceGraph.mem_of_reaches {i : Descriptor} (hi : Reaches host names i) :
    i ∈ graph := by
  obtain ⟨name, hname, hreach⟩ := hi
  induction hreach with
  | refl => exact hgraph.mem_of_names hancestry ht hname
  | tail _ hstep ih => exact hgraph.closed ih hstep

end Graphs

/-- How many steps a search takes at most. -/
def searchBound (host : Host) (chain : List Descriptor) (names : List Text)
    (graph : Finset Descriptor) : Nat :=
  chain.length + names.length + ∑ i ∈ graph, (interfacesOf host i).length + 1

theorem find?_records {records : List RuntimeClass}
    (h : ∀ c ∈ records, p c = satisfies host p c.descriptor) :
    (records.map (·.descriptor)).find? (satisfies host p) =
      (records.find? p).map (·.descriptor) := by
  induction records with
  | nil => rfl
  | cons c records ih =>
      have hc := h c List.mem_cons_self
      have hrest := ih fun k hk => h k (List.mem_cons_of_mem c hk)
      rw [List.map_cons, List.find?_cons, List.find?_cons, hc, hrest]
      cases satisfies host p c.descriptor <;> rfl

variable {ctx : Context} [SoundContext ctx] {m : Machine}

/-- The search comes to an end where the interfaces load, and the class that it finds is in the
table. -/
theorem findDeclaring_locates {L : Machine → Prop} (hsupply : Supplies ctx graph L)
    (hgraph : IsInterfaceGraph ctx.host chain graph) (hp : Defining p) (hm : L m)
    (hancestry : m.classes.Ancestry d chain names)
    (hsteps : searchBound ctx.host chain names graph ≤ ctx.fuel) :
    ∃ found m', findDeclaring d p ctx m = .ok found m' ∧ L m' ∧
      Locates ctx.host p chain names found ∧
      ∀ owner, found = some owner → m'.classes.Tells p owner true := by
  have hinv := hsupply.inv hm
  have hread : (read : Exec Context) ctx m = .ok ctx m := rfl
  rw [searchBound] at hsteps
  have hup : chain.length ≤ ctx.fuel := by omega
  obtain ⟨records, hrun, rfl, rfl, hrecords⟩ :
      ∃ records, ancestryWithin ctx.fuel d ctx m = .ok records m ∧ _ :=
    ancestryWithin_ok hancestry hinv.table hup
  have hchain : ancestry d ctx m = .ok records m := by rw [ancestry, bind_of_ok hread, hrun]
  have hfind : _ = (records.find? p).map _ :=
    find?_records fun c hc => hinv.table.holds_eq hp (hrecords c hc)
  rw [findDeclaring, bind_of_ok hchain]
  cases hsuper : records.find? p with
  | some c =>
      rw [hsuper] at hfind
      refine ⟨_, m, rfl, hm, .super hfind, fun owner howner => ?_⟩
      obtain rfl := Option.some.inj howner
      exact ⟨c, hrecords c (List.mem_of_find?_eq_some hsuper), List.find?_some hsuper⟩
  | none =>
      rw [hsuper] at hfind
      dsimp only
      rw [bind_of_ok hread]
      have hclosed : ∀ i ∈ graph, ∀ j, Implements ctx.host i j → j ∈ graph :=
        fun _ hi _ hij => hgraph.closed hi hij
      have hnames : ∀ name ∈ records.flatMap (·.interfaces), Descriptor.ofInternal name ∈ graph :=
        fun _ hname => hgraph.mem_of_names hancestry hinv.table hname
      have hfuel : (records.flatMap (·.interfaces)).length + unseen ctx.host graph [] < ctx.fuel := by
        rw [unseen_nil]
        omega
      obtain ⟨found, m', hsearch, hm', hsearches⟩ :=
        searchInterfaces_searches hsupply hclosed hp hm hnames hfuel
      refine ⟨found, m', hsearch, hm', .interface hfind hsearches, fun owner howner => ?_⟩
      have hsound : Sound ctx (fun _ => True) (searchInterfaces p ctx.fuel _ []) _ :=
        sound_searchInterfaces hp.lasting ctx.fuel (records.flatMap (·.interfaces)) []
      obtain ⟨_, _, _, hfirst⟩ := (hsound.of_ok hinv trivial hsearch).2 owner howner
      exact hfirst.here

end Search

/-- The search from a linked class on. Let the interfaces form a finite graph, with circles or
without, and load without error. Then the search comes to an end. It finds the nearest class among the
class and its superclasses that satisfies `p`, if there is one. If there is none, it finds an
interface that satisfies `p` as soon as there is one above the class and its superclasses; without
circles that is the first one on the walk that starts with the interfaces of the class and goes on
with those of each superclass in turn. Otherwise it finds nothing. -/
theorem member_search_finds_nearest {host : Host} {m : Machine} {d : Descriptor}
    (hinv : m.Inv host) (hlinked : m.classes.Linked d) :
    ∃ chain names, m.classes.Ancestry d chain names ∧
      ∀ (p : RuntimeClass → Bool) (graph : Finset Descriptor) (steps nesting : Nat), Defining p →
        IsInterfaceGraph host chain graph → searchBound host chain names graph ≤ steps →
        LoadsEach (Session.context host steps nesting) graph m →
        let Reached := fun i => ∃ k ∈ chain, Relation.TransGen (Implements host) k i
        ∃ found m', findDeclaring d p (Session.context host steps nesting) m = .ok found m' ∧
          (∀ owner, chain.find? (satisfies host p) = some owner → found = some owner) ∧
          (chain.find? (satisfies host p) = none →
            ((∃ i, Reached i ∧ satisfies host p i = true) →
              ∃ owner, found = some owner ∧ Reached owner ∧ satisfies host p owner = true) ∧
            ((∀ i, Reached i → satisfies host p i = false) → found = none) ∧
            ((∀ i ∈ graph, ¬Relation.TransGen (Implements host) i i) →
              (∃ order, Traversal host names order) ∧
              ∀ order, Traversal host names order → found = order.find? (satisfies host p))) := by
  obtain ⟨chain, names, hancestry⟩ := hlinked.ancestry hinv.table
  refine ⟨chain, names, hancestry, ?_⟩
  intro p graph steps nesting hp hgraph hsteps hloads Reached
  have hreached : ∀ {i}, Reaches host names i ↔ Reached i := hancestry.reaches_iff hinv.table
  have hhost : (Session.context host steps nesting).host = host := context_host host steps nesting
  have hfuel := (context_fuel host steps nesting).symm
  obtain ⟨found, m', hrun, _, hlocates, _⟩ :=
    findDeclaring_locates LoadsEach.supplies (hhost.symm ▸ hgraph) hp ⟨hhost.symm ▸ hinv, hloads⟩
      hancestry (by rwa [hhost, ← hfuel])
  rw [hhost] at hlocates
  refine ⟨found, m', hrun, fun owner hfind => hlocates.eq_super hfind, fun hnone => ?_⟩
  have hsearch := hlocates.searches hnone
  refine ⟨?_, ?_, ?_⟩
  · rintro ⟨i, hi, hsat⟩
    cases hfound : found with
    | none =>
        rw [hfound] at hsearch
        rw [hsearch.complete (hreached.mpr hi)] at hsat
        contradiction
    | some owner =>
        obtain ⟨hreach, howner⟩ := hsearch.sound hfound
        exact ⟨owner, rfl, hreached.mp hreach, howner⟩
  · intro hnot
    by_contra hfound
    obtain ⟨owner, howner⟩ := Option.ne_none_iff_exists'.mp hfound
    obtain ⟨hreach, hsat⟩ := hsearch.sound howner
    rw [hnot owner (hreached.mp hreach)] at hsat
    contradiction
  · intro hacyclic
    have hnames : ∀ name ∈ names, Descriptor.ofInternal name ∈ graph :=
      fun _ hname => hgraph.mem_of_names hancestry hinv.table hname
    refine ⟨exists_traversal (fun _ hi _ hij => hgraph.closed hi hij) hacyclic hnames, ?_⟩
    exact fun order horder => hsearch.eq_find? horder fun i hi =>
      hacyclic i (hgraph.mem_of_reaches hancestry hinv.table hi)

section Pond

/-- A class or interface with some methods, each of which gives the same number, and some fields. -/
def pondFile (name superName : Text) (flags : UInt16) (interfaces methods fields : List Text) :
    ClassFile where
  minor := 0
  major := 52
  pool := #[]
  flags := ⟨flags⟩
  name := name
  superName := superName
  interfaces := interfaces
  fields := fields.map fun f => ⟨f, "I", ⟨0x19⟩, 0⟩
  methods := methods.map fun f => ⟨f, "()I", ⟨1⟩, some ⟨1, 1, #[4, 172], [], []⟩, []⟩
  sourceFile := []

/-- A host with the root class, three interfaces of which two extend the third, and a class that
implements these two, with a superclass and a subclass. -/
def pondHost : Host where
  provider := some fun name =>
    if name = "java/lang/Object" then .ok (pondFile name [] 0x21 [] [] [])
    else if name = "Moves" then .ok (pondFile name "java/lang/Object" 0x601 [] ["move"] [])
    else if name = "Walks" then .ok (pondFile name "java/lang/Object" 0x601 ["Moves"] [] [])
    else if name = "Swims" then
      .ok (pondFile name "java/lang/Object" 0x601 ["Moves"] ["dive"] ["depth"])
    else if name = "Bird" then .ok (pondFile name "java/lang/Object" 0x21 [] ["call"] [])
    else if name = "Duck" then .ok (pondFile name "Bird" 0x21 ["Walks", "Swims"] ["call"] [])
    else if name = "Drake" then .ok (pondFile name "Duck" 0x21 [] ["call"] [])
    else .error "not found"
  currentTimeMillis := 0
  nanoTime := 0

/-- The types of that host, each before those above it. -/
def pond : List Descriptor :=
  ["LDrake;", "LDuck;", "LBird;", "LSwims;", "LWalks;", "LMoves;", Descriptor.object]

theorem pond_above {d s : Descriptor} (hd : d ∈ pond) (hs : Above pondHost d s) :
    s ∈ pond ∧ pond.idxOf d < pond.idxOf s := by
  have hall : ∀ d ∈ pond, ∀ s ∈ aboveOf pondHost d, s ∈ pond ∧ pond.idxOf d < pond.idxOf s := by
    decide
  exact hall d hd s (above_iff_mem_aboveOf.mp hs)

theorem pond_acyclic {d : Descriptor} (hd : d ∈ pond) :
    ¬Relation.TransGen (Above pondHost) d d := by
  have hup : ∀ {s}, Relation.TransGen (Above pondHost) d s →
      s ∈ pond ∧ pond.idxOf d < pond.idxOf s := by
    intro s hs
    induction hs with
    | single hstep => exact pond_above hd hstep
    | tail _ hstep ih =>
        obtain ⟨hmem, hlt⟩ := pond_above ih.1 hstep
        exact ⟨hmem, ih.2.trans hlt⟩
  exact fun hcycle => Nat.lt_irrefl _ (hup hcycle).2

theorem pondFile_quiet {c : RuntimeClass} {name superName : Text} {flags : UInt16}
    {interfaces methods fields : List Text}
    (hfile : c.file = some (pondFile name superName flags interfaces methods fields))
    (hinitializer : c.declaredMethod? "<clinit>" "()V" = none) : c.IsQuiet := by
  refine ⟨fun file hsame => ?_, hinitializer⟩
  obtain rfl := Option.some.inj (hfile.symm.trans hsame)
  simp [pondFile]

theorem pondHost_loads : ∃ m, Used pondHost (fun _ _ => True) m ∧ m.Holds pond := by
  have hmoves : Descriptor.ofInternal "Moves" = "LMoves;" := by decide
  have hwalks : Descriptor.ofInternal "Walks" = "LWalks;" := by decide
  have hswims : Descriptor.ofInternal "Swims" = "LSwims;" := by decide
  have hbird : Descriptor.ofInternal "Bird" = "LBird;" := by decide
  have hduck : Descriptor.ofInternal "Duck" = "LDuck;" := by decide
  have hdrake : Descriptor.ofInternal "Drake" = "LDrake;" := by decide
  obtain ⟨m₁, hm₁, hholds₁⟩ := (used_fresh pondHost fun _ _ => True).load holds_fresh
    ofInternal_object (by simp) rfl (pondFile_quiet rfl rfl) (.inl rfl) trivial
  obtain ⟨m₂, hm₂, hholds₂⟩ := hm₁.load hholds₁ hmoves (by decide) rfl
    (pondFile_quiet rfl rfl) (.inr (by decide)) trivial
  obtain ⟨m₃, hm₃, hholds₃⟩ := hm₂.load hholds₂ hwalks (by decide) rfl
    (pondFile_quiet rfl rfl) (.inr (by decide)) trivial
  obtain ⟨m₄, hm₄, hholds₄⟩ := hm₃.load hholds₃ hswims (by decide) rfl
    (pondFile_quiet rfl rfl) (.inr (by decide)) trivial
  obtain ⟨m₅, hm₅, hholds₅⟩ := hm₄.load hholds₄ hbird (by decide) rfl
    (pondFile_quiet rfl rfl) (.inr (by decide)) trivial
  obtain ⟨m₆, hm₆, hholds₆⟩ := hm₅.load hholds₅ hduck (by decide) rfl
    (pondFile_quiet rfl rfl) (.inr (by decide)) trivial
  obtain ⟨m₇, hm₇, hholds₇⟩ := hm₆.load hholds₆ hdrake (by decide) rfl
    (pondFile_quiet rfl rfl) (.inr (by decide)) trivial
  exact ⟨m₇, hm₇, hholds₇⟩

/-- The interfaces of that host. -/
def pondInterfaces : List Descriptor :=
  ["LSwims;", "LWalks;", "LMoves;"]

/-- The class with its superclasses. -/
def duckChain : List Descriptor :=
  ["LDuck;", "LBird;", Descriptor.object]

/-- The walk through its interfaces. -/
def duckWalk : List Descriptor :=
  ["LWalks;", "LMoves;", "LSwims;", "LMoves;"]

theorem duck_traversal : Traversal pondHost ["Walks", "Swims"] duckWalk := by
  have hmoves : Traversal pondHost (interfacesOf pondHost (Descriptor.ofInternal "Moves")) [] := by
    have hnone : interfacesOf pondHost (Descriptor.ofInternal "Moves") = [] := by decide
    rw [hnone]
    exact .nil
  have hshared : Traversal pondHost ["Moves"] [Descriptor.ofInternal "Moves"] := .cons hmoves .nil
  have hwalks : interfacesOf pondHost (Descriptor.ofInternal "Walks") = [("Moves" : Text)] := by
    decide
  have hswims : interfacesOf pondHost (Descriptor.ofInternal "Swims") = [("Moves" : Text)] := by
    decide
  have hwhole := Traversal.cons (hwalks.symm ▸ hshared) (.cons (hswims.symm ▸ hshared) .nil)
  have horder : duckWalk = [("Walks" : Text), "Moves", "Swims", "Moves"].map Descriptor.ofInternal := by
    decide
  rw [horder]
  exact hwhole

theorem bird_ancestry {m : Machine} (hinv : m.Inv pondHost) (hholds : m.Holds pond) :
    m.classes.Ancestry "LBird;" ["LBird;", Descriptor.object] [] := by
  have hobject : m.classes.Ancestry Descriptor.object _ _ :=
    hinv.table.ancestry_root (hholds.linked (by decide)) rfl rfl
  have hbird : m.classes.Ancestry "LBird;" _ _ := hinv.table.ancestry_super
    (hholds.linked (by decide)) rfl (by decide) (ofInternal_object.symm ▸ hobject)
  rw [ofInternal_object] at hbird
  exact hbird

theorem duck_ancestry {m : Machine} (hinv : m.Inv pondHost) (hholds : m.Holds pond) :
    m.classes.Ancestry "LDuck;" duckChain ["Walks", "Swims"] := by
  have hname : Descriptor.ofInternal "Bird" = "LBird;" := by decide
  have hduck : m.classes.Ancestry "LDuck;" _ _ := hinv.table.ancestry_super
    (hholds.linked (by decide)) rfl (by decide)
    (hname.symm ▸ bird_ancestry hinv hholds)
  rw [hname] at hduck
  exact hduck

theorem duck_interfaceGraph : IsInterfaceGraph pondHost duckChain pondInterfaces.toFinset where
  root {k i} hk hi := by
    have hall : ∀ k ∈ duckChain, ∀ name ∈ interfacesOf pondHost k,
        Descriptor.ofInternal name ∈ pondInterfaces := by decide
    obtain ⟨name, hname, rfl⟩ := implements_iff.mp hi
    exact List.mem_toFinset.mpr (hall k hk name hname)
  closed {i j} hi hj := by
    have hall : ∀ i ∈ pondInterfaces, ∀ name ∈ interfacesOf pondHost i,
        Descriptor.ofInternal name ∈ pondInterfaces := by decide
    obtain ⟨name, hname, rfl⟩ := implements_iff.mp hj
    exact List.mem_toFinset.mpr (hall i (List.mem_toFinset.mp hi) name hname)

/-- A reference to a field that one of the interfaces declares. -/
def depthRef : MemberRef := ⟨"Duck", "depth", "I"⟩

theorem member_search_finds_nearest_duck : ∃ m m', Used pondHost (fun _ _ => True) m ∧
    LoadsEach (Session.context pondHost 9 9) pondInterfaces.toFinset m ∧
    findDeclaring "LDuck;" depthRef.fieldIn (Session.context pondHost 9 9) m =
      .ok (some "LSwims;") m' := by
  obtain ⟨m, hused, hholds⟩ := pondHost_loads
  have hinv := hused.reachable.inv
  have hduck : ("LDuck;" : Text) ∈ pond := by decide
  have hsubset : ∀ d ∈ pondInterfaces, d ∈ pond := by decide
  have hloads : LoadsEach (Session.context pondHost 9 9) pondInterfaces.toFinset m :=
    loadsEach_of_initialized
      (fun d hd => hholds.initialized d (hsubset d (List.mem_toFinset.mp hd))) 8 8
  have hacyclic : ∀ i ∈ pondInterfaces.toFinset, ¬Relation.TransGen (Implements pondHost) i i :=
    fun i hi hcycle => pond_acyclic (hsubset i (List.mem_toFinset.mp hi))
      (Relation.TransGen.mono (fun _ _ => .inr) _ _ hcycle)
  obtain ⟨chain, names, hancestry, hsearch⟩ :=
    member_search_finds_nearest hinv (hholds.linked hduck)
  obtain ⟨rfl, rfl⟩ := hancestry.unique (duck_ancestry hinv hholds)
  obtain ⟨found, m', hrun, _, hinterfaces⟩ := hsearch depthRef.fieldIn pondInterfaces.toFinset 9 9
    (defining_fieldIn depthRef) duck_interfaceGraph (by decide) hloads
  obtain ⟨_, _, hfirst⟩ := hinterfaces (by decide)
  have hfound := (hfirst hacyclic).2 duckWalk duck_traversal
  have hswims : duckWalk.find? (satisfies pondHost depthRef.fieldIn) = some ("LSwims;" : Text) := by
    decide
  exact ⟨m, m', hused, hloads, by rw [hrun, hfound, hswims]⟩

end Pond

end ClassEngine
