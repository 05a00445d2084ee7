import Mathlib.Data.Finset.Card
import Mathlib.Logic.Relation
import ClassEngine.Manifest.Dependencies
import ClassEngine.Proofs.Manifest.Loading
import ClassEngine.Proofs.Manifest.Traversal

/-!
The dependencies of a project. They are collected by a depth-first visit of the places that the
project and the projects below it link to, and the visit comes to an end on every tree, for a project
that is gone into is new. Main statement: `resolve_visits_once`.
-/

namespace ClassEngine

namespace Manifest

/-! Projects and what they depend on -/

/-- Where a dependency of a project is, as an absolute path. -/
def target (cwd : Text) (m : Manifest) (path : Text) : Text :=
  Path.absolute cwd (m.resolvePath path)

/-- The project at a place, when that is a directory with a manifest. -/
def projectAt (t : FileTree) (cwd place : Text) : Option Manifest :=
  match t.entryAt cwd place with
  | .ok .directory =>
    if t.pathExists cwd (Path.join [place, fileName]) then (load t cwd place).toOption else none
  | _ => none

/-- A dependency that cannot be used: it has no path, is not there, or is a directory whose manifest
cannot be loaded. -/
inductive Faulty (t : FileTree) (cwd : Text) (m : Manifest) (path : Text) : Prop
  | pathless (h : path = [])
  | missing (h : t.pathExists cwd (target cwd m path) = false)
  | unloadable (hplace : t.entryAt cwd (target cwd m path) = .ok .directory)
      (hfile : t.pathExists cwd (Path.join [target cwd m path, fileName]))
      (e : Error) (h : load t cwd (target cwd m path) = .error e)

/-- One project declares a dependency on another. -/
def Requires (t : FileTree) (cwd : Text) (m m' : Manifest) : Prop :=
  ∃ d ∈ m.dependencies, projectAt t cwd (target cwd m d.2) = some m'

/-- A project, or one that it depends on through others. -/
def Involves (t : FileTree) (cwd : Text) : Manifest → Manifest → Prop :=
  Relation.ReflTransGen (Requires t cwd)

/-- The project, or one that it depends on through others, declares a dependency on what is at the
place. -/
def Reaches (t : FileTree) (cwd : Text) (m : Manifest) (place : Text) : Prop :=
  ∃ m', Involves t cwd m m' ∧ ∃ d ∈ m'.dependencies, place = target cwd m' d.2

/-- The places that declared dependencies lead to, with their names. -/
def linksOf (cwd : Text) (m : Manifest) (dependencies : List (Text × Text)) : List (Text × Text) :=
  dependencies.map fun d => (d.1, target cwd m d.2)

/-- The links of the project at a place, by name. -/
def linksAt (t : FileTree) (cwd place : Text) : List (Text × Text) :=
  match projectAt t cwd place with
  | some m => linksOf cwd m m.sortedDependencies
  | none => []

section Links

variable {t : FileTree} {cwd : Text} {m : Manifest}

theorem perm_sortedDependencies (m : Manifest) : m.sortedDependencies.Perm m.dependencies :=
  List.mergeSort_perm _ _

theorem mem_linksOf {link : Text × Text} :
    link ∈ linksOf cwd m m.sortedDependencies ↔
      ∃ d ∈ m.dependencies, link = (d.1, target cwd m d.2) := by
  simp only [linksOf, List.mem_map, (perm_sortedDependencies m).mem_iff]
  grind

theorem load_of_projectAt {place : Text} (h : projectAt t cwd place = some m) :
    load t cwd place = .ok m := by
  rw [projectAt] at h
  split at h
  case h_1 =>
    split at h
    case isTrue =>
      cases hload : load t cwd place with
      | ok m' =>
          rw [hload] at h
          cases h
          rfl
      | error e =>
          rw [hload] at h
          cases h
    case isFalse => cases h
  case h_2 => cases h

theorem ordered_linksOf (h : m.Distinct) : Ordered (linksOf cwd m m.sortedDependencies) :=
  List.pairwise_map.mpr (Text.pairwise_mergeSort_blt Prod.fst h)

theorem ordered_linksAt (place : Text) : Ordered (linksAt t cwd place) := by
  rw [linksAt]
  cases hproject : projectAt t cwd place with
  | none => exact List.Pairwise.nil
  | some m => exact ordered_linksOf (distinct_of_load (load_of_projectAt hproject))

end Links

/-! One dependency -/

section Finding

variable {t : FileTree} {cwd : Text} {m : Manifest} {name path : Text}

theorem pathExists_of_entryAt {place : Text} {e : Entry} (h : t.entryAt cwd place = .ok e) :
    t.pathExists cwd place = true := by
  rw [FileTree.pathExists, h]
  rfl

/-- The dependency that an entry at a place is. -/
def ofEntry (t : FileTree) (cwd name place : Text) : Entry → Except Error Dependency
  | .file _ => .ok ⟨name, place, none⟩
  | .directory =>
    if t.pathExists cwd (Path.join [place, fileName]) then
      (load t cwd place).map fun m => ⟨name, place, some m⟩
    else .ok ⟨name, place, none⟩

theorem findDependency_eq (hpath : path ≠ []) : findDependency t cwd m name path =
    ((t.stat "stat" cwd (target cwd m path)).mapError
      (.notFound name (target cwd m path))).bind (ofEntry t cwd name (target cwd m path)) := by
  have hsome : path.isEmpty = false := List.isEmpty_eq_false_iff.mpr hpath
  simp only [findDependency, hsome, target, Bind.bind, Except.bind]
  cases t.stat "stat" cwd (Path.absolute cwd (m.resolvePath path)) with
  | error e => rfl
  | ok entry => cases entry <;> rfl

theorem not_faulty {entry : Entry} (hpath : path ≠ [])
    (hentry : t.entryAt cwd (target cwd m path) = .ok entry)
    (hload : entry = .directory →
      t.pathExists cwd (Path.join [target cwd m path, fileName]) = true →
      ∃ m', load t cwd (target cwd m path) = .ok m') : ¬Faulty t cwd m path := by
  rintro (h | h | ⟨hplace, hfile, e, h⟩)
  · exact hpath h
  · rw [pathExists_of_entryAt hentry] at h
    cases h
  · rw [hentry] at hplace
    cases hplace
    obtain ⟨m', hok⟩ := hload rfl hfile
    rw [hok] at h
    cases h

/-- A dependency is found unless it is faulty. -/
theorem findDependency_cases (t : FileTree) (cwd : Text) (m : Manifest) (name path : Text) :
    (Faulty t cwd m path ∧ ∃ e, findDependency t cwd m name path = .error e) ∨
    (¬Faulty t cwd m path ∧ findDependency t cwd m name path =
      .ok ⟨name, target cwd m path, projectAt t cwd (target cwd m path)⟩) := by
  by_cases hpath : path = []
  · exact .inl ⟨.pathless hpath, .pathless name, by rw [findDependency, hpath]; rfl⟩
  cases hentry : t.entryAt cwd (target cwd m path) with
  | error fault =>
      refine .inl ⟨.missing (by rw [FileTree.pathExists, hentry]; rfl), ?_⟩
      rw [findDependency_eq hpath, FileTree.stat, hentry]
      exact ⟨_, rfl⟩
  | ok entry =>
      have hfind : findDependency t cwd m name path = ofEntry t cwd name (target cwd m path) entry := by
        rw [findDependency_eq hpath, FileTree.stat, hentry]
        rfl
      rw [hfind, projectAt, hentry]
      cases entry with
      | file contents => exact .inr ⟨not_faulty hpath hentry (fun h => nomatch h), rfl⟩
      | directory =>
          rw [ofEntry]
          cases hfile : t.pathExists cwd (Path.join [target cwd m path, fileName]) with
          | false =>
              refine .inr ⟨not_faulty hpath hentry fun _ h => ?_, rfl⟩
              rw [hfile] at h
              cases h
          | true =>
              cases hload : load t cwd (target cwd m path) with
              | error e => exact .inl ⟨.unloadable hentry hfile e hload, e, rfl⟩
              | ok m' => exact .inr ⟨not_faulty hpath hentry fun _ _ => ⟨m', hload⟩, rfl⟩

end Finding

/-! The run -/

/-- Collecting, where `stop` stands for what is done at the depth that is not gone beyond. -/
def collectWithin (t : FileTree) (cwd : Text) (stop : Manifest → Found → Except Error Found) :
    Nat → Manifest → Found → Except Error Found
  | 0, m, found => stop m found
  | depth + 1, m, found =>
    m.sortedDependencies.foldlM (appendDependency t cwd (collectWithin t cwd stop depth) m) found

theorem collectFrom_eq_collectWithin (t : FileTree) (cwd : Text) (depth : Nat) :
    collectFrom t cwd depth = collectWithin t cwd (fun _ found => .ok found) depth := by
  induction depth with
  | zero => rfl
  | succ depth ih =>
      funext m found
      rw [collectFrom, collectWithin, ih]

/-- The directories that hold an entry of the tree, as absolute paths. -/
def directories (t : FileTree) : List Text :=
  t.entries.map fun entry => Path.slash :: Text.join "/" entry.1.dropLast

/-- How many directories are not among those seen. -/
def unseen (t : FileTree) (seen : List Text) : Nat :=
  ((directories t).toFinset \ seen.toFinset).card

/-- Some dependency of the project, or of one below it, is faulty. -/
def Broken (t : FileTree) (cwd : Text) (m : Manifest) : Prop :=
  ∃ m', Involves t cwd m m' ∧ ∃ d ∈ m'.dependencies, Faulty t cwd m' d.2

/-- The project at a place, if there is one, has no faulty dependencies. -/
def SoundAt (t : FileTree) (cwd place : Text) : Prop :=
  ∀ m, projectAt t cwd place = some m → ∀ d ∈ m.dependencies, ¬Faulty t cwd m d.2

/-- How the collection of some dependencies of a project may end: with the places that a visit finds,
where neither these dependencies nor those of the projects found are faulty, or with a failure. -/
def Outcome (t : FileTree) (cwd : Text) (seen : List Text) (m : Manifest)
    (dependencies : List (Text × Text)) : Except Error (List Dependency) → Prop
  | .ok new =>
    Visits (linksAt t cwd) seen (linksOf cwd m dependencies) (new.map Dependency.path) ∧
    (∀ d ∈ dependencies, ¬Faulty t cwd m d.2) ∧ ∀ place ∈ new.map Dependency.path, SoundAt t cwd place
  | .error _ => Broken t cwd m

/-- How the collection below a new place may end. -/
def OutcomeBelow (t : FileTree) (cwd : Text) (seen : List Text) (place : Text) :
    Except Error (List Dependency) → Prop
  | .ok below =>
    Visits (linksAt t cwd) seen (linksAt t cwd place) (below.map Dependency.path) ∧
    SoundAt t cwd place ∧ ∀ place' ∈ below.map Dependency.path, SoundAt t cwd place'
  | .error _ => ∃ m, projectAt t cwd place = some m ∧ Broken t cwd m

/-- What was found before, and new dependencies after it. -/
def extend (seen : List Text) (order new : List Dependency) : Found :=
  ((new.map Dependency.path).reverse ++ seen, order ++ new)

section Running

variable {t : FileTree} {cwd : Text} {m : Manifest} {seen : List Text}

theorem sdiff_subset_of_subset {seen' : List Text} (h : seen ⊆ seen') :
    (directories t).toFinset \ seen'.toFinset ⊆ (directories t).toFinset \ seen.toFinset := by
  refine Finset.sdiff_subset_sdiff (Finset.Subset.refl _) fun p hp => ?_
  rw [List.mem_toFinset] at *
  exact h hp

theorem unseen_le_of_subset {seen' : List Text} (h : seen ⊆ seen') : unseen t seen' ≤ unseen t seen :=
  Finset.card_le_card (sdiff_subset_of_subset h)

theorem unseen_cons_lt {place : Text} (hplace : place ∈ directories t) (hnew : place ∉ seen) :
    unseen t (place :: seen) < unseen t seen := by
  have hsubset := sdiff_subset_of_subset (t := t) (List.subset_cons_self place seen)
  refine Finset.card_lt_card ((Finset.ssubset_iff_of_subset hsubset).mpr ⟨place, ?_, ?_⟩)
  · simp [hplace, hnew]
  · simp

theorem unseen_le (t : FileTree) (seen : List Text) : unseen t seen ≤ t.entries.length := by
  calc unseen t seen ≤ (directories t).toFinset.card := Finset.card_le_card Finset.sdiff_subset
    _ ≤ (directories t).length := List.toFinset_card_le _
    _ = t.entries.length := List.length_map _

theorem mem_directories_of_projectAt (hcwd : Path.isAbsolute cwd) {path : Text} {m' : Manifest}
    (h : projectAt t cwd (target cwd m path) = some m') : target cwd m path ∈ directories t := by
  obtain ⟨entry, hentry, hpath⟩ := exists_entry_of_load hcwd (load_of_projectAt h)
  rw [target, Path.absolute_absolute hcwd] at hpath
  exact List.mem_map.mpr ⟨entry, hentry, hpath.symm⟩

/-- The collection below a new place. -/
def enter (t : FileTree) (cwd place : Text) (below : Manifest → Found → Except Error Found)
    (found : Found) : Except Error Found :=
  match projectAt t cwd place with
  | none => .ok found
  | some m => below m found

/-- One step of the collection, for a dependency that can be used. -/
theorem appendDependency_of_sound {path : Text} (h : ¬Faulty t cwd m path) (name : Text)
    (seen : List Text) (below : Manifest → Found → Except Error Found) (order : List Dependency) :
    appendDependency t cwd below m (seen, order) (name, path) =
      if target cwd m path ∈ seen then .ok (seen, order)
      else enter t cwd (target cwd m path) below
        (extend seen order [⟨name, target cwd m path, projectAt t cwd (target cwd m path)⟩]) := by
  have hfind := (findDependency_cases t cwd m name path).resolve_left fun hfaulty => h hfaulty.1
  simp only [appendDependency, hfind.2, Except.mapError, Bind.bind, Except.bind, List.contains_eq_mem,
    decide_eq_true_eq]
  rfl

theorem appendDependency_of_faulty {path : Text} (h : Faulty t cwd m path) (name : Text) :
    ∃ e, ∀ below found, appendDependency t cwd below m found (name, path) = .error e := by
  obtain ⟨-, e, hfind⟩ := (findDependency_cases t cwd m name path).resolve_right
    fun hsound => hsound.1 h
  refine ⟨.resolving name e, fun below found => ?_⟩
  simp only [appendDependency, hfind, Except.mapError, Bind.bind, Except.bind]

/-- A run comes to one result at all depths from `depth` on, whatever is done at the depth that is
not gone beyond, and whatever was found before. -/
def ComesTo (run : (Manifest → Found → Except Error Found) → Found → Except Error Found)
    (t : FileTree) (cwd : Text) (depth : Nat) (seen : List Text)
    (result : Except Error (List Dependency)) : Prop :=
  ∀ stop deeper order, depth ≤ deeper →
    run (collectWithin t cwd stop deeper) (seen, order) = result.map (extend seen order)

/-- The collection for whole projects comes to a result where fewer than `depth` directories are
unseen. -/
def Settled (t : FileTree) (cwd : Text) (depth : Nat) : Prop :=
  ∀ seen m, unseen t seen < depth → ∃ result, Outcome t cwd seen m m.sortedDependencies result ∧
    ComesTo (fun below => below m) t cwd depth seen result

/-- Below a new place at most as many directories are unseen as before, and one less when there is a
project. -/
theorem enter_comesTo {depth : Nat} {path : Text} (hcwd : Path.isAbsolute cwd)
    (hsettled : Settled t cwd depth) (hseen : unseen t seen ≤ depth)
    (hnew : target cwd m path ∉ seen) : ∃ result,
      OutcomeBelow t cwd (target cwd m path :: seen) (target cwd m path) result ∧
      ComesTo (enter t cwd (target cwd m path)) t cwd depth (target cwd m path :: seen) result := by
  cases hproject : projectAt t cwd (target cwd m path) with
  | none =>
      refine ⟨.ok [], ⟨?_, ?_, ?_⟩, fun stop deeper order _ => ?_⟩
      · rw [linksAt, hproject]
        exact .none
      · intro m' hm'
        rw [hproject] at hm'
        cases hm'
      · simp
      · rw [enter, hproject]
        simp [extend, Except.map]
  | some m' =>
      have hless := unseen_cons_lt (mem_directories_of_projectAt hcwd hproject) hnew
      obtain ⟨result, houtcome, hrun⟩ := hsettled (target cwd m path :: seen) m' (by omega)
      refine ⟨result, ?_, fun stop deeper order hdeeper => ?_⟩
      · cases result with
        | error e => exact ⟨m', hproject, houtcome⟩
        | ok new =>
            obtain ⟨hvisits, hsound, hbelow⟩ := houtcome
            refine ⟨?_, ?_, hbelow⟩
            · rwa [linksAt, hproject]
            · intro m'' hm''
              rw [hproject] at hm''
              cases hm''
              exact fun d hd => hsound d ((perm_sortedDependencies m').mem_iff.mpr hd)
      · rw [enter, hproject]
        exact hrun stop deeper order hdeeper

/-- The collection of some dependencies of a project, one after the other. -/
def appendAll (t : FileTree) (cwd : Text) (m : Manifest) (dependencies : List (Text × Text))
    (below : Manifest → Found → Except Error Found) (found : Found) : Except Error Found :=
  dependencies.foldlM (appendDependency t cwd below m) found

theorem appendAll_cons (d : Text × Text) (rest : List (Text × Text))
    (below : Manifest → Found → Except Error Found) (found : Found) :
    appendAll t cwd m (d :: rest) below found =
      (appendDependency t cwd below m found d).bind (appendAll t cwd m rest below) := rfl

theorem Outcome.known {name path : Text} {rest : List (Text × Text)}
    {result : Except Error (List Dependency)} (h : Outcome t cwd seen m rest result)
    (hsound : ¬Faulty t cwd m path) (hseen : target cwd m path ∈ seen) :
    Outcome t cwd seen m ((name, path) :: rest) result := by
  cases result with
  | error e => exact h
  | ok new =>
      obtain ⟨hvisits, hrest, hbelow⟩ := h
      exact ⟨.known hseen hvisits, List.forall_mem_cons.mpr ⟨hsound, hrest⟩, hbelow⟩

theorem Outcome.fresh {name path : Text} {rest : List (Text × Text)} {below : List Dependency}
    {result : Except Error (List Dependency)} (hsound : ¬Faulty t cwd m path)
    (hnew : target cwd m path ∉ seen)
    (hbelow : OutcomeBelow t cwd (target cwd m path :: seen) (target cwd m path) (.ok below))
    (h : Outcome t cwd ((below.map Dependency.path).reverse ++ target cwd m path :: seen) m rest result)
    (project : Option Manifest) : Outcome t cwd seen m ((name, path) :: rest)
      (result.map fun new => ⟨name, target cwd m path, project⟩ :: (below ++ new)) := by
  cases result with
  | error e => exact h
  | ok new =>
      obtain ⟨hinner, hplace, hinside⟩ := hbelow
      obtain ⟨hvisits, hrest, houtside⟩ := h
      refine ⟨?_, List.forall_mem_cons.mpr ⟨hsound, hrest⟩, ?_⟩
      · rw [List.map_cons, List.map_append]
        exact .fresh hnew hinner hvisits
      · rw [List.map_cons, List.map_append]
        exact List.forall_mem_cons.mpr ⟨hplace, List.forall_mem_append.mpr ⟨hinside, houtside⟩⟩

theorem appendAll_comesTo {depth : Nat} (hcwd : Path.isAbsolute cwd) (hsettled : Settled t cwd depth)
    {dependencies : List (Text × Text)} (hdeclared : dependencies ⊆ m.dependencies)
    (hseen : unseen t seen ≤ depth) : ∃ result, Outcome t cwd seen m dependencies result ∧
      ComesTo (appendAll t cwd m dependencies) t cwd depth seen result := by
  induction dependencies generalizing seen with
  | nil =>
      refine ⟨.ok [], ⟨.none, by simp, by simp⟩, fun stop deeper order _ => ?_⟩
      simp [appendAll, extend, Except.map, Pure.pure, Except.pure]
  | cons d rest ih =>
      obtain ⟨name, path⟩ := d
      obtain ⟨hmem, hrest⟩ := List.cons_subset.mp hdeclared
      by_cases hfaulty : Faulty t cwd m path
      · obtain ⟨e, hstep⟩ := appendDependency_of_faulty hfaulty name
        refine ⟨.error e, ⟨m, .refl, _, hmem, hfaulty⟩, fun stop deeper order _ => ?_⟩
        rw [appendAll_cons, hstep]
        rfl
      have hstep := appendDependency_of_sound hfaulty name seen
      by_cases hknown : target cwd m path ∈ seen
      · obtain ⟨result, houtcome, hrun⟩ := ih hrest hseen
        refine ⟨result, houtcome.known hfaulty hknown, fun stop deeper order hdeeper => ?_⟩
        rw [appendAll_cons, hstep, if_pos hknown]
        exact hrun stop deeper order hdeeper
      obtain ⟨entered, hbelow, henter⟩ := enter_comesTo hcwd hsettled hseen hknown
      let found : Dependency := ⟨name, target cwd m path, projectAt t cwd (target cwd m path)⟩
      cases entered with
      | error e =>
          obtain ⟨m', hproject, m'', hinvolves, hbroken⟩ := hbelow
          have hrequires : Requires t cwd m m' := ⟨_, hmem, hproject⟩
          refine ⟨.error e, ⟨m'', .head hrequires hinvolves, hbroken⟩, ?_⟩
          intro stop deeper order hdeeper
          have herror : enter t cwd (target cwd m path) (collectWithin t cwd stop deeper)
            (extend seen order [found]) = .error e := henter stop deeper (order ++ [found]) hdeeper
          rw [appendAll_cons, hstep, if_neg hknown, herror]
          rfl
      | ok below =>
          have hmore : unseen t ((below.map Dependency.path).reverse ++ target cwd m path :: seen) ≤
              depth := le_trans (unseen_le_of_subset (by simp)) hseen
          obtain ⟨result, houtcome, hrun⟩ := ih hrest hmore
          refine ⟨_, houtcome.fresh hfaulty hknown hbelow found.project, ?_⟩
          intro stop deeper order hdeeper
          have hok : enter t cwd (target cwd m path) (collectWithin t cwd stop deeper)
              (extend seen order [found]) =
                .ok (extend (target cwd m path :: seen) (order ++ [found]) below) :=
            henter stop deeper (order ++ [found]) hdeeper
          have hlater := hrun stop deeper (order ++ [found] ++ below) hdeeper
          rw [appendAll_cons, hstep, if_neg hknown, hok]
          refine hlater.trans ?_
          cases result with
          | error e => rfl
          | ok new => simp [Except.map, extend, found]

/-- A run that may go as deep as there are directories left to see is settled: the bound stops
nothing. -/
theorem settled (hcwd : Path.isAbsolute cwd) (depth : Nat) : Settled t cwd depth := by
  induction depth with
  | zero => exact fun seen m h => absurd h (Nat.not_lt_zero _)
  | succ depth ih =>
      intro seen m hseen
      obtain ⟨result, houtcome, hrun⟩ := appendAll_comesTo hcwd ih
        (perm_sortedDependencies m).subset (Nat.le_of_lt_succ hseen)
      refine ⟨result, houtcome, fun stop deeper order hdeeper => ?_⟩
      cases deeper with
      | zero => omega
      | succ deeper => exact hrun stop deeper order (by omega)

end Running

/-! The dependencies of a loaded project -/

section Resolving

variable {t : FileTree} {cwd dir : Text} {m : Manifest}

theorem linksAt_of_projectAt {place : Text} (h : projectAt t cwd place = some m) :
    linksAt t cwd place = linksOf cwd m m.sortedDependencies := by
  rw [linksAt, h]

/-- A route passes through places that the project reaches. -/
theorem reaches_of_route {avoided names : List Text} {links : List (Text × Text)} {place : Text}
    (h : Route (linksAt t cwd) avoided links names place)
    (hlinks : links = linksOf cwd m m.sortedDependencies) : Reaches t cwd m place := by
  induction h generalizing m with
  | here hmem _ =>
      obtain ⟨d, hd, heq⟩ := mem_linksOf.mp (hlinks ▸ hmem)
      cases heq
      exact ⟨m, .refl, d, hd, rfl⟩
  | @there _ _ _ via _ _ hmem _ rest ih =>
      obtain ⟨d, hd, heq⟩ := mem_linksOf.mp (hlinks ▸ hmem)
      cases heq
      cases hproject : projectAt t cwd (target cwd m d.2) with
      | none =>
          obtain ⟨link, hlink, -⟩ := rest.exists_head
          rw [linksAt, hproject] at hlink
          exact absurd hlink List.not_mem_nil
      | some m' =>
          obtain ⟨m'', hinvolves, hdeclares⟩ := ih (linksAt_of_projectAt hproject)
          exact ⟨m'', .head ⟨d, hd, hproject⟩ hinvolves, hdeclares⟩

section Found

variable {new : List Text} (hcwd : Path.isAbsolute cwd) (hload : load t cwd dir = .ok m)
  (h : Visits (linksAt t cwd) [m.directory] (linksOf cwd m m.sortedDependencies) new)

include h in
/-- Everything that the project, or one that is found, depends on is found. -/
theorem known_of_found {m' : Manifest}
    (hfound : m' = m ∨ ∃ place ∈ new, projectAt t cwd place = some m') {d : Text × Text}
    (hd : d ∈ m'.dependencies) : target cwd m' d.2 = m.directory ∨ target cwd m' d.2 ∈ new := by
  have hlink : (d.1, target cwd m' d.2) ∈ linksOf cwd m' m'.sortedDependencies :=
    mem_linksOf.mpr ⟨d, hd, rfl⟩
  refine Or.imp_left (fun hself => List.mem_singleton.mp hself) ?_
  obtain rfl | ⟨place, hplace, hproject⟩ := hfound
  · exact h.closedOff.1 _ hlink
  · exact h.closedOff.2 place hplace _ (linksAt_of_projectAt hproject ▸ hlink)

include hcwd hload h

/-- All projects involved are found. The one at the directory of the project itself is the project:
a dependency that leads back to it is not gone into, and adds nothing. -/
theorem found_of_involves {m' : Manifest} (hinvolves : Involves t cwd m m') :
    m' = m ∨ ∃ place ∈ new, projectAt t cwd place = some m' := by
  induction hinvolves with
  | refl => exact .inl rfl
  | @tail b c _ hrequires ih =>
      obtain ⟨d, hd, hproject⟩ := hrequires
      cases known_of_found h ih hd with
      | inr hnew => exact .inr ⟨_, hnew, hproject⟩
      | inl hself =>
          rw [hself] at hproject
          exact .inl (load_directory hcwd hload (load_of_projectAt hproject))

theorem mem_of_reaches {place : Text} (hreaches : Reaches t cwd m place)
    (hother : place ≠ m.directory) : place ∈ new := by
  obtain ⟨m', hinvolves, d, hd, rfl⟩ := hreaches
  exact (known_of_found h (found_of_involves hcwd hload h hinvolves) hd).resolve_left hother

end Found

/-- What the collection for a loaded project comes to, at any bound that the tree allows for. -/
theorem resolve_outcome (hcwd : Path.isAbsolute cwd) (m : Manifest) :
    Outcome t cwd [m.directory] m m.sortedDependencies (resolve t cwd m) ∧
    ∀ stop depth, t.entries.length + 2 ≤ depth →
      (collectWithin t cwd stop depth m ([m.directory], [])).map (·.2) = resolve t cwd m := by
  have hseen : unseen t [m.directory] < t.entries.length + 2 := by
    have hle := unseen_le t [m.directory]
    omega
  obtain ⟨result, houtcome, hrun⟩ := settled hcwd (t.entries.length + 2) [m.directory] m hseen
  have hall (stop : Manifest → Found → Except Error Found) (depth : Nat)
      (hdepth : t.entries.length + 2 ≤ depth) :
      (collectWithin t cwd stop depth m ([m.directory], [])).map (·.2) = result := by
    have hstop : collectWithin t cwd stop depth m ([m.directory], []) =
        result.map (extend [m.directory] []) := hrun stop depth [] hdepth
    rw [hstop]
    cases result <;> rfl
  have hresolve : resolve t cwd m = result := by
    rw [resolve, collectFrom_eq_collectWithin, hall _ _ (le_refl _)]
  rw [hresolve]
  exact ⟨houtcome, hall⟩

/-- The dependencies of a loaded project. The search for them comes to an end, whatever the projects
depend on: the bound on its depth is never reached. It fails exactly when some declared dependency is
faulty. Otherwise it finds each place that is reached, but the project's own, once, and in the order
of a depth-first visit by name, which is that of the first routes. -/
theorem resolve_visits_once (hcwd : Path.isAbsolute cwd) (hload : load t cwd dir = .ok m) :
    (∀ stop depth, t.entries.length + 2 ≤ depth →
      (collectWithin t cwd stop depth m ([m.directory], [])).map (·.2) = resolve t cwd m) ∧
    ((∃ e, resolve t cwd m = .error e) ↔
      ∃ m', Involves t cwd m m' ∧ ∃ d ∈ m'.dependencies, Faulty t cwd m' d.2) ∧
    ∀ found, resolve t cwd m = .ok found →
      (∀ place, place ∈ found.map Dependency.path ↔
        Reaches t cwd m place ∧ place ≠ m.directory) ∧
      (found.map Dependency.path).Nodup ∧
      Visits (linksAt t cwd) [m.directory] (linksOf cwd m m.sortedDependencies)
        (found.map Dependency.path) ∧
      (found.map Dependency.path).Pairwise
        (Before (linksAt t cwd) [m.directory] (linksOf cwd m m.sortedDependencies)) := by
  obtain ⟨houtcome, hbound⟩ := resolve_outcome (t := t) hcwd m
  refine ⟨hbound, ⟨?_, ?_⟩, fun found hfound => ?_⟩
  · rintro ⟨e, herror⟩
    rw [herror] at houtcome
    exact houtcome
  · rintro ⟨m', hinvolves, d, hd, hfaulty⟩
    cases hresult : resolve t cwd m with
    | error e => exact ⟨e, rfl⟩
    | ok found =>
        rw [hresult] at houtcome
        obtain ⟨hvisits, hsound, hbelow⟩ := houtcome
        obtain rfl | ⟨place, hplace, hproject⟩ := found_of_involves hcwd hload hvisits hinvolves
        · exact absurd hfaulty (hsound d ((perm_sortedDependencies m').mem_iff.mpr hd))
        · exact absurd hfaulty (hbelow place hplace m' hproject d hd)
  · rw [hfound] at houtcome
    obtain ⟨hvisits, -, -⟩ := houtcome
    refine ⟨fun place => ⟨fun hplace => ⟨?_, ?_⟩, fun hreaches => ?_⟩, hvisits.nodup, hvisits, ?_⟩
    · obtain ⟨names, hroute⟩ := hvisits.exists_route hplace
      exact reaches_of_route hroute rfl
    · exact fun hself => hvisits.not_mem_seen place hplace (List.mem_singleton.mpr hself)
    · exact mem_of_reaches hcwd hload hvisits hreaches.1 hreaches.2
    · exact hvisits.before (ordered_linksOf (distinct_of_load hload)) ordered_linksAt

end Resolving

/-- Two libraries that need one archive, of which one leads back to the program that needs both. -/
def cyclicTree : FileTree :=
  ⟨[(["app"], .directory),
    (["app", "javelin.toml"], .file
      "[dependencies.right]\npath = \"../right\"\n[dependencies.left]\npath = \"../left\"\n"),
    (["left"], .directory),
    (["left", "javelin.toml"], .file "[dependencies.shared]\npath = \"/shared.jar\"\n"),
    (["right"], .directory),
    (["right", "javelin.toml"], .file
      "[dependencies.back]\npath = \"../app\"\n[dependencies.shared]\npath = \"../shared.jar\"\n"),
    (["shared.jar"], .file [])]⟩

def cyclicProgram : Manifest :=
  { blank with
    entries := defaultEntries
    dependencies := [("right", "../right"), ("left", "../left")]
    directory := "/app" }

theorem load_cyclicProgram : load cyclicTree "/" "app" = .ok cyclicProgram := by
  have hload : (load cyclicTree "/" "app").toOption = some cyclicProgram := by decide +kernel
  cases hresult : load cyclicTree "/" "app" with
  | error e =>
      rw [hresult] at hload
      cases hload
  | ok m =>
      rw [hresult] at hload
      exact congrArg Except.ok (Option.some.inj hload)

theorem resolve_visits_once_cyclic :
    (Path.isAbsolute "/" ∧ load cyclicTree "/" "app" = .ok cyclicProgram) ∧
    (∀ stop depth, cyclicTree.entries.length + 2 ≤ depth →
      (collectWithin cyclicTree "/" stop depth cyclicProgram (["/app"], [])).map (·.2) =
        resolve cyclicTree "/" cyclicProgram) ∧
    ((∃ e, resolve cyclicTree "/" cyclicProgram = .error e) ↔
      ∃ m', Involves cyclicTree "/" cyclicProgram m' ∧
        ∃ d ∈ m'.dependencies, Faulty cyclicTree "/" m' d.2) ∧
    ∀ found, resolve cyclicTree "/" cyclicProgram = .ok found →
      (∀ place, place ∈ found.map Dependency.path ↔
        Reaches cyclicTree "/" cyclicProgram place ∧ place ≠ "/app") ∧
      (found.map Dependency.path).Nodup ∧
      Visits (linksAt cyclicTree "/") ["/app"]
        (linksOf "/" cyclicProgram cyclicProgram.sortedDependencies) (found.map Dependency.path) ∧
      (found.map Dependency.path).Pairwise (Before (linksAt cyclicTree "/") ["/app"]
        (linksOf "/" cyclicProgram cyclicProgram.sortedDependencies)) :=
  have hroot : Path.isAbsolute "/" := by decide
  ⟨⟨hroot, load_cyclicProgram⟩, resolve_visits_once hroot load_cyclicProgram⟩

end Manifest

end ClassEngine
