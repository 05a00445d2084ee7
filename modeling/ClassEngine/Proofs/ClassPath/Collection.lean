import Mathlib.Data.List.Nodup
import ClassEngine.ClassPath.Basic
import ClassEngine.Proofs.Bundle.RoundTrip
import ClassEngine.Proofs.FileTree.Places

/-!
The classes that are collected from a class path, and what the path answers for their names. Main
statements: `collected_classes_are_found`, for paths whose archives hold each class under its name,
and `misnamed_class_is_not_found`, for an archive that does not.
-/

namespace ClassEngine

namespace Source

variable {t : FileTree} {cwd name : Text}

/-- A source lists a name. -/
def Lists (t : FileTree) (cwd : Text) (s : Source) (name : Text) : Prop :=
  ∃ names, s.names t cwd = .ok names ∧ name ∈ names

/-! What is not listed is not held -/

theorem mem_sort {names : List Text} : name ∈ Text.sort names ↔ name ∈ names :=
  (List.mergeSort_perm _ _).mem_iff

theorem load_memory_of_unlisted {label : Text} {classes : List ClassFile}
    (h : ¬(memory label classes).Lists t cwd name) :
    (memory label classes).load t cwd name = .ok none := by
  rw [load]
  refine congrArg Except.ok (List.find?_eq_none.mpr fun c hc hname => h ⟨_, rfl, ?_⟩)
  rw [mem_sort, List.mem_eraseDups]
  exact List.mem_map.mpr ⟨c, List.mem_reverse.mp hc, eq_of_beq hname⟩

theorem load_archive_of_unlisted {a : ClassArchive} (h : ¬(archive a).Lists t cwd name) :
    (archive a).load t cwd name = .ok none := by
  have hlookup : a.index.lookup name = none := by
    rw [List.lookup_eq_none_iff]
    intro entry hentry
    rw [bne_iff_ne] 
    rintro rfl
    exact h ⟨_, rfl, mem_sort.mpr (List.mem_map_of_mem hentry)⟩
  rw [load, ClassArchive.load, hlookup]

/-- The file of a class is found by names alone. -/
def IsPlainName (name : Text) : Prop :=
  ∀ part ∈ Text.splitByte Path.slash (name ++ ClassArchive.classEnding), Path.Plain part

/-- A directory answers for a name by a file or by the lack of one: nothing else stands where the
file, or a directory on the way to it, should be. -/
def Unobstructed (t : FileTree) (cwd root name : Text) : Prop :=
  ∀ e, t.readFile cwd (Path.join [root, name ++ ClassArchive.classEnding]) = .error e →
    e.fault = .missing

/-- Looks for the file of a name in a directory. -/
def isUnobstructed (t : FileTree) (cwd name : Text) : Source → Bool
  | directory root =>
    match t.readFile cwd (Path.join [root, name ++ ClassArchive.classEnding]) with
    | .ok _ => true
    | .error e => e.fault = .missing
  | _ => true

theorem unobstructed_of_all {sources : List Source} {root : Text}
    (h : sources.all (isUnobstructed t cwd name)) (hroot : directory root ∈ sources) :
    Unobstructed t cwd root name := by
  intro e he
  have hclear := List.all_eq_true.mp h _ hroot
  rw [isUnobstructed, he] at hclear
  exact of_decide_eq_true hclear

theorem dropEnd_append (stop a : Text) : Text.dropEnd stop (a ++ stop) = a := by
  have hends : Text.endsWith stop (a ++ stop) = true := by
    rw [Text.endsWith, List.isSuffixOf_iff_suffix]
    exact List.suffix_append a stop
  rw [Text.dropEnd, if_pos hends, List.length_append, Nat.add_sub_cancel, List.take_left]

/-- A class file that can be read is listed. -/
theorem lists_of_readFile {root contents : Text} (hname : IsPlainName name)
    (hnames : ∃ names, (directory root).names t cwd = .ok names)
    (h : t.readFile cwd (Path.join [root, name ++ ClassArchive.classEnding]) = .ok contents) :
    (directory root).Lists t cwd name := by
  obtain ⟨names, hnames⟩ := hnames
  refine ⟨names, hnames, ?_⟩
  rw [Source.names, namesBelow] at hnames
  cases hresolve : t.resolve cwd root with
  | error fault =>
      rw [hresolve] at hnames
      cases hnames
  | ok place =>
      rw [hresolve] at hnames
      cases hnames
      have hfind := FileTree.find?_of_entryAt (FileTree.entryAt_of_readFile h)
      have hne : Text.splitByte Path.slash (name ++ ClassArchive.classEnding) ≠ [] :=
        Text.splitByte_ne_nil _
      rw [Path.place_join_plain cwd root hname, ← FileTree.resolve_eq_place hresolve] at hfind
      have hbelow := FileTree.mem_filesBelow (FileTree.mem_of_find? (by simp [hne]) hfind)
      rw [mem_sort]
      refine List.mem_map.mpr ⟨name ++ ClassArchive.classEnding, ?_, dropEnd_append _ _⟩
      rw [List.mem_filter]
      refine ⟨List.mem_map.mpr ⟨_, hbelow, Path.join_splitByte _⟩, ?_⟩
      rw [Text.endsWith, List.isSuffixOf_iff_suffix]
      exact List.suffix_append _ _

theorem load_directory_of_unlisted {root : Text} (hname : IsPlainName name)
    (hclear : Unobstructed t cwd root name)
    (hnames : ∃ names, (directory root).names t cwd = .ok names)
    (h : ¬(directory root).Lists t cwd name) : (directory root).load t cwd name = .ok none := by
  rw [load, loadFrom]
  cases hread : t.readFile cwd (Path.join [root, name ++ ClassArchive.classEnding]) with
  | ok contents => exact absurd (lists_of_readFile hname hnames hread) h
  | error e => simp only [hclear e hread, if_true]

end Source

namespace ClassPath

variable {t : FileTree} {cwd : Text}

/-- The first of the sources that list a name holds this class under it. -/
def FirstHeld (t : FileTree) (cwd : Text) (sources : List Source) (name : Text) (c : ClassFile) :
    Prop :=
  ∃ before s after, sources = before ++ s :: after ∧ (∀ s' ∈ before, ¬s'.Lists t cwd name) ∧
    s.Lists t cwd name ∧ s.load t cwd name = .ok (some c)

theorem FirstHeld.append {sources : List Source} {name : Text} {c : ClassFile}
    (h : FirstHeld t cwd sources name c) (more : List Source) :
    FirstHeld t cwd (sources ++ more) name c := by
  obtain ⟨before, s, after, rfl, hothers, hlists, hload⟩ := h
  exact ⟨before, s, after ++ more, by simp, hothers, hlists, hload⟩

/-- A source stands before all that list a name: a search for the name comes to it before one that
has it. -/
def StandsBefore (t : FileTree) (cwd : Text) (sources : List Source) (name : Text) (s : Source) :
    Prop :=
  ∃ before after, sources = before ++ after ∧ s ∈ before ∧ ∀ s' ∈ before, ¬s'.Lists t cwd name

theorem StandsBefore.mem {sources : List Source} {name : Text} {s : Source}
    (h : StandsBefore t cwd sources name s) : s ∈ sources := by
  obtain ⟨before, after, rfl, hs, -⟩ := h
  exact List.mem_append_left after hs

theorem StandsBefore.not_lists {sources : List Source} {name : Text} {s : Source}
    (h : StandsBefore t cwd sources name s) : ¬s.Lists t cwd name := by
  obtain ⟨before, after, -, hs, hothers⟩ := h
  exact hothers s hs

/-- The names that were seen, each once and with the class that the first source to list it
holds. -/
structure Collects (t : FileTree) (cwd : Text) (sources : List Source)
    (found : List Text × List ClassFile) : Prop where
  different : found.1.Nodup
  held : List.Forall₂ (FirstHeld t cwd sources) found.1 found.2

/-- Everything that some sources list was seen. -/
def Complete (t : FileTree) (cwd : Text) (sources : List Source)
    (found : List Text × List ClassFile) : Prop :=
  ∀ s ∈ sources, ∃ names, s.names t cwd = .ok names ∧ names ⊆ found.1

section Collecting

variable {before : List Source} {s : Source} {found found' : List Text × List ClassFile}

theorem Complete.not_lists {sources : List Source} {name : Text}
    (h : Complete t cwd sources found) (hnew : name ∉ found.1) :
    ∀ s ∈ sources, ¬s.Lists t cwd name := by
  rintro s hs ⟨names, hnames, hname⟩
  obtain ⟨names', hnames', hseen⟩ := h s hs
  rw [hnames] at hnames'
  cases hnames'
  exact hnew (hseen hname)

theorem Complete.mono {sources : List Source} (h : Complete t cwd sources found)
    (hmore : found.1 ⊆ found'.1) : Complete t cwd sources found' := by
  intro s hs
  obtain ⟨names, hnames, hseen⟩ := h s hs
  exact ⟨names, hnames, List.Subset.trans hseen hmore⟩

theorem collectName_collects {name : Text} (hcomplete : Complete t cwd before found)
    (hfound : Collects t cwd (before ++ [s]) found) (hlists : s.Lists t cwd name)
    (h : collectName t cwd s found name = .ok found') :
    Collects t cwd (before ++ [s]) found' ∧ found.1 ⊆ found'.1 ∧ name ∈ found'.1 := by
  rw [collectName] at h
  by_cases hseen : name ∈ found.1
  · rw [if_pos (by simpa using hseen)] at h
    cases h
    exact ⟨hfound, List.Subset.refl _, hseen⟩
  · rw [if_neg (by simpa using hseen)] at h
    cases hload : s.load t cwd name with
    | error e => simp [hload, Bind.bind, Except.bind] at h
    | ok c? =>
        cases c? with
        | none => simp [hload, Bind.bind, Except.bind, throw, throwThe, MonadExceptOf.throw] at h
        | some c =>
            simp only [hload, Bind.bind, Except.bind] at h
            cases h
            have hfirst : FirstHeld t cwd (before ++ [s]) name c :=
              ⟨before, s, [], rfl, hcomplete.not_lists hseen, hlists, hload⟩
            exact ⟨⟨List.nodup_cons.mpr ⟨hseen, hfound.different⟩, .cons hfirst hfound.held⟩,
              List.subset_cons_self _ _, List.mem_cons_self⟩

theorem collectNames_collects {names : List Text} (hcomplete : Complete t cwd before found)
    (hfound : Collects t cwd (before ++ [s]) found) (hlists : ∀ name ∈ names, s.Lists t cwd name)
    (h : names.foldlM (collectName t cwd s) found = .ok found') :
    Collects t cwd (before ++ [s]) found' ∧ found.1 ⊆ found'.1 ∧ names ⊆ found'.1 := by
  induction names generalizing found with
  | nil =>
      cases h
      exact ⟨hfound, List.Subset.refl _, List.nil_subset _⟩
  | cons name rest ih =>
      rw [List.foldlM_cons] at h
      cases hstep : collectName t cwd s found name with
      | error e =>
          rw [hstep] at h
          cases h
      | ok next =>
          rw [hstep] at h
          obtain ⟨hname, hrest⟩ := List.forall_mem_cons.mp hlists
          obtain ⟨hnext, hmore, hin⟩ := collectName_collects hcomplete hfound hname hstep
          obtain ⟨hfound', hgrown, hseen⟩ := ih (hcomplete.mono hmore) hnext hrest h
          exact ⟨hfound', List.Subset.trans hmore hgrown,
            List.cons_subset.mpr ⟨hgrown hin, hseen⟩⟩

theorem collectFrom_collects (hcomplete : Complete t cwd before found)
    (hfound : Collects t cwd before found) (h : collectFrom t cwd found s = .ok found') :
    Complete t cwd (before ++ [s]) found' ∧ Collects t cwd (before ++ [s]) found' := by
  rw [collectFrom] at h
  cases hnames : s.names t cwd with
  | error e =>
      rw [hnames] at h
      cases h
  | ok names =>
      rw [hnames] at h
      have hstart : Collects t cwd (before ++ [s]) found :=
        ⟨hfound.different, hfound.held.imp fun _ _ hheld => hheld.append [s]⟩
      obtain ⟨hfound', hgrown, hseen⟩ := collectNames_collects hcomplete hstart
        (fun name hname => ⟨names, hnames, hname⟩) h
      exact ⟨List.forall_mem_append.mpr ⟨hcomplete.mono hgrown,
        List.forall_mem_singleton.mpr ⟨names, hnames, hseen⟩⟩, hfound'⟩

theorem collectAll_collects {rest : List Source} (hcomplete : Complete t cwd before found)
    (hfound : Collects t cwd before found)
    (h : rest.foldlM (collectFrom t cwd) found = .ok found') :
    Complete t cwd (before ++ rest) found' ∧ Collects t cwd (before ++ rest) found' := by
  induction rest generalizing before found with
  | nil =>
      cases h
      rw [List.append_nil]
      exact ⟨hcomplete, hfound⟩
  | cons s rest ih =>
      rw [List.foldlM_cons] at h
      cases hstep : collectFrom t cwd found s with
      | error e =>
          rw [hstep] at h
          cases h
      | ok next =>
          rw [hstep] at h
          obtain ⟨hcomplete', hnext⟩ := collectFrom_collects hcomplete hfound hstep
          rw [← List.singleton_append, ← List.append_assoc]
          exact ih hcomplete' hnext h

end Collecting

/-- What is collected from a whole class path. -/
theorem collect_eq_ok {p : ClassPath} {classes : List ClassFile}
    (h : p.collect t cwd = .ok classes) : ∃ found, Complete t cwd p.sources found ∧
      Collects t cwd p.sources found ∧ classes = Bundle.sortClasses found.2.reverse := by
  rw [collect] at h
  cases hall : p.sources.foldlM (collectFrom t cwd) ([], []) with
  | error e =>
      rw [hall] at h
      cases h
  | ok found =>
      rw [hall] at h
      cases h
      have hnone : Complete t cwd [] ([], []) := fun s hs => absurd hs List.not_mem_nil
      obtain ⟨hcomplete, hfound⟩ := collectAll_collects hnone ⟨List.nodup_nil, .nil⟩ hall
      exact ⟨found, hcomplete, hfound, rfl⟩

/-! Names that are those of the classes -/

/-- No archive holds a class under another name than its own. -/
def Faithful (p : ClassPath) : Prop :=
  ∀ a, .archive a ∈ p.sources → ∀ name c, a.load name = .ok (some c) → c.name = name

/-- Looks through the index of an archive. -/
def holdsOwnNames : Source → Bool
  | .archive a => a.index.all fun entry =>
    match a.load entry.1 with
    | .ok (some c) => c.name == entry.1
    | _ => true
  | _ => true

theorem faithful_of_all {p : ClassPath} (h : p.sources.all holdsOwnNames) : p.Faithful := by
  intro a ha name c hload
  have hall : holdsOwnNames (.archive a) = true := List.all_eq_true.mp h _ ha
  rw [holdsOwnNames, List.all_eq_true] at hall
  cases hlookup : a.index.lookup name with
  | none =>
      rw [ClassArchive.load, hlookup] at hload
      cases hload
  | some m =>
      obtain ⟨_, _, hindex, -⟩ := List.lookup_eq_some_iff.mp hlookup
      have hentry := hall (name, m) (hindex ▸ List.mem_append_right _ List.mem_cons_self)
      rw [hload] at hentry
      exact eq_of_beq hentry

section Agreement

variable {p : ClassPath} {name : Text} {c : ClassFile}

theorem name_of_load {s : Source} (hfaithful : p.Faithful) (hs : s ∈ p.sources)
    (h : s.load t cwd name = .ok (some c)) : c.name = name := by
  cases s with
  | directory root =>
      rw [Source.load, Source.loadFrom] at h
      split at h
      · split at h <;> cases h
      split at h
      · cases h
      split at h
      case isTrue heq =>
        cases h
        exact heq
      case isFalse => cases h
  | archive a => exact hfaithful a hs name c h
  | memory label classes =>
      have hfind : classes.reverse.find? (fun d => d.name == name) = some c := Except.ok.inj h
      have hname := List.find?_some hfind
      exact eq_of_beq hname

theorem FirstHeld.name_eq (hfaithful : p.Faithful) (h : FirstHeld t cwd p.sources name c) :
    c.name = name := by
  obtain ⟨before, s, after, hsources, -, -, hload⟩ := h
  exact name_of_load hfaithful (hsources ▸ List.mem_append_right before List.mem_cons_self) hload

/-- The names seen are those of the classes. -/
theorem Collects.names {found : List Text × List ClassFile} (hfaithful : p.Faithful)
    (h : Collects t cwd p.sources found) : found.2.map ClassFile.name = found.1 := by
  have hnames : List.Forall₂ (fun n c => c.name = n) found.1 found.2 :=
    h.held.imp fun _ _ hheld => hheld.name_eq hfaithful
  rw [← List.forall₂_eq_eq_eq, List.forall₂_map_left_iff]
  exact hnames.flip

theorem Collects.firstHeld {sources : List Source} {found : List Text × List ClassFile}
    (h : Collects t cwd sources found) (hc : c ∈ found.2) : ∃ n, FirstHeld t cwd sources n c := by
  obtain ⟨seen, classes⟩ := found
  have hheld : List.Forall₂ (FirstHeld t cwd sources) seen classes := h.held
  clear h
  induction hheld with
  | nil => exact absurd hc List.not_mem_nil
  | cons hfirst _ ih =>
      cases List.mem_cons.mp hc with
      | inl heq => exact ⟨_, heq ▸ hfirst⟩
      | inr hlater => exact ih hlater

theorem search_append {before rest : List Source}
    (h : ∀ s ∈ before, s.load t cwd name = .ok none) :
    search t cwd name (before ++ rest) = search t cwd name rest := by
  induction before with
  | nil => rfl
  | cons s more ih =>
      obtain ⟨hs, hmore⟩ := List.forall_mem_cons.mp h
      rw [List.cons_append, search, hs]
      exact ih hmore

/-- The path answers with the class of the first source that lists a name, where those before it
hold nothing under it. -/
theorem FirstHeld.load (h : FirstHeld t cwd p.sources name c)
    (hnothing : ∀ s, StandsBefore t cwd p.sources name s → s.load t cwd name = .ok none) :
    p.load t cwd name = .ok c := by
  obtain ⟨before, s, after, hsources, hothers, -, hload⟩ := h
  have hbefore : ∀ s' ∈ before, s'.load t cwd name = .ok none := fun s' hs' =>
    hnothing s' ⟨before, s :: after, hsources, hs', hothers⟩
  have hsearch : search t cwd name p.sources = .ok (some c) := by
    rw [hsources, search_append hbefore, search, hload]
  rw [ClassPath.load, hsearch]
  rfl

theorem load_of_unlisted {s : Source} (hclear : ∀ root, s = .directory root →
      Source.IsPlainName name ∧ Source.Unobstructed t cwd root name)
    (hnames : ∃ names, s.names t cwd = .ok names) (h : ¬s.Lists t cwd name) :
    s.load t cwd name = .ok none := by
  cases s with
  | directory root =>
      obtain ⟨hname, hthere⟩ := hclear root rfl
      exact Source.load_directory_of_unlisted hname hthere hnames h
  | archive a => exact Source.load_archive_of_unlisted h
  | memory label classes => exact Source.load_memory_of_unlisted h

/-- Of classes with different names, a source in memory answers with the one of the name. -/
theorem load_memory {classes : List ClassFile} (label : Text)
    (h : (classes.map ClassFile.name).Nodup) (hc : c ∈ classes) :
    (Source.memory label classes).load t cwd c.name = .ok (some c) := by
  rw [Source.load]
  cases hfind : classes.reverse.find? fun d => d.name == c.name with
  | none =>
      have hmissed := List.find?_eq_none.mp hfind c (List.mem_reverse.mpr hc)
      exact absurd (beq_self_eq_true c.name) hmissed
  | some d =>
      have hname := List.find?_some hfind
      have hd := List.mem_reverse.mp (List.mem_of_find?_eq_some hfind)
      rw [List.inj_on_of_nodup_map h hd hc (eq_of_beq hname)]

/-- The classes collected from a path whose archives are faithful have different names, in order. The
path answers with each of them for its name, unless a directory that the search comes to first fails
for it; and they make a bundle, which has them up to what is packed. -/
theorem collected_classes_are_found {classes : List ClassFile}
    (h : p.collect t cwd = .ok classes) (hfaithful : p.Faithful) :
    classes.Pairwise (fun c d => Text.blt c.name d.name) ∧
    (∀ c ∈ classes, (∀ root, StandsBefore t cwd p.sources c.name (.directory root) →
      Source.IsPlainName c.name ∧ Source.Unobstructed t cwd root c.name) →
      p.load t cwd c.name = .ok c) ∧
    ∃ bytes, Bundle.encodePlaces (classes.map some) = .ok bytes ∧
      (classes.length ≤ Cbor.maxElements → (∀ c ∈ classes, c.name ≠ []) →
        (∀ c ∈ classes, c.Packable) → ∃ packed, Bundle.decode bytes = .ok packed ∧
          ∀ label, ∀ c ∈ classes, ∃ d, c.Alike d ∧
            (Source.memory label packed).load t cwd c.name = .ok (some d)) := by
  obtain ⟨found, hcomplete, hcollects, rfl⟩ := collect_eq_ok h
  have hperm : (Bundle.sortClasses found.2.reverse).Perm found.2 :=
    (List.mergeSort_perm _ _).trans (List.reverse_perm _)
  have hreverse : (found.2.reverse.map ClassFile.name).Nodup := by
    rw [((List.reverse_perm _).map _).nodup_iff, hcollects.names hfaithful]
    exact hcollects.different
  have hsorted : (Bundle.sortClasses found.2.reverse).Pairwise
      fun c d => Text.blt c.name d.name := Text.pairwise_mergeSort_blt ClassFile.name hreverse
  have hnodup : ((Bundle.sortClasses found.2.reverse).map ClassFile.name).Nodup :=
    List.pairwise_map.mpr (hsorted.imp Text.ne_of_blt)
  refine ⟨hsorted, fun c hc hclear => ?_, ?_⟩
  · obtain ⟨name, hfirst⟩ := hcollects.firstHeld (hperm.mem_iff.mp hc)
    rw [hfirst.name_eq hfaithful] at *
    refine hfirst.load fun s hbefore => load_of_unlisted ?_ ?_ hbefore.not_lists
    · rintro root rfl
      exact hclear root hbefore
    · obtain ⟨names, hnames, -⟩ := hcomplete s hbefore.mem
      exact ⟨names, hnames⟩
  · obtain ⟨bytes, hencode⟩ : ∃ bytes, Bundle.encodePlaces
        ((Bundle.sortClasses found.2.reverse).map some) = .ok bytes :=
      ⟨_, (Bundle.encodePlaces_some _).trans (Bundle.encode_ok hnodup)⟩
    refine ⟨bytes, hencode, fun hlength hnamed hpackable => ?_⟩
    obtain ⟨bytes', hencode', hdecode⟩ :=
      Bundle.decode_encodePlaces hlength hnodup hnamed hpackable
    rw [hencode] at hencode'
    cases hencode'
    refine ⟨_, hdecode, fun label c hc => ⟨c.packed, c.alike_packed, ?_⟩⟩
    have hstays : Bundle.sortClasses (Bundle.sortClasses found.2.reverse) =
        Bundle.sortClasses found.2.reverse := Text.mergeSort_of_blt ClassFile.name hsorted
    rw [hstays]
    refine load_memory (c := c.packed) label ?_ (List.mem_map_of_mem hc)
    rw [List.map_map]
    exact hnodup

end Agreement

/-! An overlapping path, and an archive that is not faithful -/

/-- The file of a class without members, whose name is one letter. -/
def letterFile (letter flags : UInt8) : Text :=
  [0xCA, 0xFE, 0xBA, 0xBE, 0, 0, 0, 52, 0, 3, 7, 0, 2, 1, 0, 1, letter, 0, flags, 0, 1, 0, 0, 0, 0,
    0, 0, 0, 0, 0, 0]

/-- An archive that holds a file of that size as `A.class`. -/
def letterArchive (file : Text) : Text :=
  [0x50, 0x4B, 3, 4, 20, 0, 0, 0, 0, 0, 0, 0, 0x21, 0, 0, 0, 0, 0, 31, 0, 0, 0, 31, 0, 0, 0, 7, 0, 0,
    0] ++ ("A.class" : Text) ++ file ++
  [0x50, 0x4B, 1, 2, 20, 3, 20, 0, 0, 0, 0, 0, 0, 0, 0x21, 0, 0, 0, 0, 0, 31, 0, 0, 0, 31, 0, 0, 0, 7,
    0, 0, 0, 0, 0, 0, 0, 0, 0, 0, 0, 0x80, 1, 0, 0, 0, 0] ++ ("A.class" : Text) ++
  [0x50, 0x4B, 5, 6, 0, 0, 0, 0, 1, 0, 1, 0, 53, 0, 0, 0, 68, 0, 0, 0, 0, 0]

/-- An empty directory, another directory and two archives, of which the second directory and the first
archive hold different classes of the name `A`, and the second archive has a class `B` in the place of
`A`. -/
def letterTree : FileTree :=
  ⟨[(["e"], .directory), (["d"], .directory), (["d", "A.class"], .file (letterFile 65 0x21)),
    (["a.jar"], .file (letterArchive (letterFile 65 0x31))),
    (["b.jar"], .file (letterArchive (letterFile 66 0x21)))]⟩

/-- The path of some entries of this tree, without the library. -/
def letterPath (entries : List Text) : ClassPath :=
  match openAll letterTree "/" entries with
  | .ok p => { p with withLibrary := false }
  | .error _ => ⟨[], false⟩

def letterClass : ClassFile :=
  { minor := 0, major := 52, flags := ⟨0x21⟩, name := "A", superName := []
    pool := #[.blank, .link .classRef 2 0, .utf8 "A"], interfaces := [], fields := [], methods := []
    sourceFile := [] }

theorem collect_letterPath :
    (letterPath ["e", "d", "a.jar"]).collect letterTree "/" = .ok [letterClass] := by
  have hcollect : ((letterPath ["e", "d", "a.jar"]).collect letterTree "/").toOption =
      some [letterClass] := by decide +kernel
  cases hresult : (letterPath ["e", "d", "a.jar"]).collect letterTree "/" with
  | error e =>
      rw [hresult] at hcollect
      cases hcollect
  | ok classes =>
      rw [hresult] at hcollect
      rw [Option.some.inj hcollect]

theorem faithful_letterPath : (letterPath ["e", "d", "a.jar"]).Faithful :=
  faithful_of_all (by decide +kernel)

/-- Neither directory has anything but a file in the place of the class. -/
theorem clear_letterPath {root : Text}
    (h : .directory root ∈ (letterPath ["e", "d", "a.jar"]).sources) :
    Source.IsPlainName "A" ∧ Source.Unobstructed letterTree "/" root "A" := by
  have hparts : Text.splitByte Path.slash ("A" ++ ClassArchive.classEnding) = [("A.class" : Text)] := by
    decide
  constructor
  · intro part hpart
    rw [hparts, List.mem_singleton] at hpart
    obtain rfl := hpart
    exact ⟨by decide, by decide, by decide, by decide⟩
  · exact Source.unobstructed_of_all (by decide +kernel) h

/-- The class is found behind the empty directory, and in the bundle. -/
theorem collected_classes_are_found_letters :
    (letterPath ["e", "d", "a.jar"]).load letterTree "/" "A" = .ok letterClass ∧
    ∃ bytes packed, Bundle.encodePlaces [some letterClass] = .ok bytes ∧
      Bundle.decode bytes = .ok packed ∧ ∀ label, ∃ d, letterClass.Alike d ∧
        (Source.memory label packed).load letterTree "/" "A" = .ok (some d) := by
  obtain ⟨-, hfound, bytes, hencode, hdecode⟩ :=
    collected_classes_are_found collect_letterPath faithful_letterPath
  have hpackable : ∀ c ∈ [letterClass], c.Packable := by decide +kernel
  obtain ⟨packed, hpacked, hheld⟩ := hdecode (by decide) (by decide) hpackable
  refine ⟨hfound letterClass List.mem_cons_self fun root hbefore => clear_letterPath hbefore.mem,
    bytes, packed, hencode, hpacked, fun label => hheld label letterClass List.mem_cons_self⟩

/-- An archive may hold a class in the place of another. The class is collected, and the path does
not find it. -/
theorem misnamed_class_is_not_found : ¬∀ p t cwd classes, collect p t cwd = .ok classes →
    ∀ c ∈ classes, p.load t cwd c.name = .ok c := by
  intro h
  have hcollect : ((letterPath ["b.jar"]).collect letterTree "/").toOption.map
      (·.map ClassFile.name) = some (["B"] : List Text) := by decide +kernel
  have hload : ((letterPath ["b.jar"]).load letterTree "/" "B").toOption = none := by
    decide +kernel
  cases hresult : (letterPath ["b.jar"]).collect letterTree "/" with
  | error e =>
      rw [hresult] at hcollect
      cases hcollect
  | ok classes =>
      rw [hresult] at hcollect
      obtain ⟨c, rfl, hname⟩ := List.map_eq_singleton_iff.mp (Option.some.inj hcollect)
      have hfound := h _ _ _ _ hresult c List.mem_cons_self
      rw [hname] at hfound
      rw [hfound] at hload
      cases hload

end ClassPath

end ClassEngine
