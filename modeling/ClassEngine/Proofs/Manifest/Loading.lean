import Mathlib.Data.List.Nodup
import ClassEngine.Manifest.Load
import ClassEngine.Proofs.FileTree.Places

/-!
What is known of a manifest that was loaded: it names each dependency once, its file is at the place
of its directory, and it is found again at the directory's absolute path.
-/

namespace ClassEngine

/-- A setting that keeps a property of the record. -/
def Setting.Keeps {α : Type} (P : α → Prop) (s : Setting α) : Prop :=
  ∀ v a b, s.apply v a = some b → P a → P b

namespace Setting

variable {α : Type} {P : α → Prop}

theorem keeps_string {name : Text} {set : Text → α → α} (h : ∀ t a, P a → P (set t a)) :
    (string name set).Keeps P := by
  intro v a b hb ha
  cases v <;> cases hb
  exact h _ a ha

theorem keeps_integer {name : Text} {set : Int → α → α} (h : ∀ n a, P a → P (set n a)) :
    (integer name set).Keeps P := by
  intro v a b hb ha
  cases v <;> cases hb
  exact h _ a ha

theorem keeps_strings {name : Text} {set : List Text → α → α} (h : ∀ ts a, P a → P (set ts a)) :
    (strings name set).Keeps P := by
  intro v a b hb ha
  rw [strings] at hb
  dsimp only at hb
  split at hb
  case h_1 items =>
    obtain ⟨ts, -, rfl⟩ := Option.map_eq_some_iff.mp hb
    exact h ts a ha
  case h_2 => cases hb

theorem applyAll_keeps {settings : List (Setting α)} (h : ∀ s ∈ settings, s.Keeps P)
    {t : Toml.Table} {a b : α} (hb : applyAll settings t a = some b) (ha : P a) : P b := by
  induction t generalizing a with
  | nil =>
      cases hb
      exact ha
  | cons pair rest ih =>
      obtain ⟨key, v⟩ := pair
      rw [applyAll, List.foldlM_cons] at hb
      obtain ⟨a', hstep, hrest⟩ := Option.bind_eq_some_iff.mp hb
      refine ih hrest ?_
      dsimp only at hstep
      split at hstep
      case h_1 s hfind => exact h s (List.mem_of_find?_eq_some hfind) v a a' hstep ha
      case h_2 =>
        cases hstep
        exact ha

theorem keeps_group {name : Text} {settings : List (Setting α)} (h : ∀ s ∈ settings, s.Keeps P) :
    (group name settings).Keeps P := by
  intro v a b hb ha
  cases v <;> first | cases hb | exact applyAll_keeps h hb ha

end Setting

namespace Manifest

/-- No two dependencies of one name. -/
def Distinct (m : Manifest) : Prop :=
  (m.dependencies.map Prod.fst).Nodup

theorem distinct_addDependency {m : Manifest} (h : m.Distinct) (name path : Text) :
    (m.addDependency name path).Distinct := by
  have hothers : (m.dependencies.filter fun d => d.1 != name).Sublist m.dependencies :=
    List.filter_sublist
  rw [Distinct, addDependency, List.map_append, List.nodup_append]
  refine ⟨h.sublist (hothers.map Prod.fst), List.nodup_singleton _, ?_⟩
  intro other hother last hlast heq
  obtain ⟨d, hd, rfl⟩ := List.mem_map.mp hother
  have hne : d.1 ≠ name := bne_iff_ne.mp (List.mem_filter.mp hd).2
  exact hne (heq.trans (List.mem_singleton.mp hlast))

theorem keeps_dependencySetting : dependencySetting.Keeps Distinct := by
  intro v m m' h hm
  rw [dependencySetting] at h
  dsimp only at h
  split at h
  case h_1 table =>
    induction table generalizing m with
    | nil =>
        cases h
        exact hm
    | cons pair rest ih =>
        rw [List.foldlM_cons] at h
        obtain ⟨next, hstep, hrest⟩ := Option.bind_eq_some_iff.mp h
        obtain ⟨path, -, rfl⟩ := Option.map_eq_some_iff.mp hstep
        exact ih _ (distinct_addDependency hm pair.1 path) hrest
  case h_2 =>
    cases h
    exact hm

theorem keeps_settings : ∀ s ∈ settings, s.Keeps Distinct := by
  have hset {m : Manifest} {a : Manifest} (hsame : a.dependencies = m.dependencies)
      (hm : m.Distinct) : a.Distinct := by rwa [Distinct, hsame]
  intro s hs
  rw [settings] at hs
  simp only [List.mem_cons, List.not_mem_nil, or_false] at hs
  obtain rfl | rfl | rfl | rfl | rfl := hs
  · refine Setting.keeps_group (List.forall_mem_cons.mpr ⟨?_, List.forall_mem_singleton.mpr ?_⟩) <;>
      exact Setting.keeps_string fun _ _ => hset rfl
  · refine Setting.keeps_group (List.forall_mem_cons.mpr ⟨?_, List.forall_mem_singleton.mpr ?_⟩)
    · exact Setting.keeps_string fun _ _ => hset rfl
    · exact Setting.keeps_integer fun _ _ => hset rfl
  · exact Setting.keeps_group (List.forall_mem_singleton.mpr
      (Setting.keeps_strings fun _ _ => hset rfl))
  · exact keeps_dependencySetting
  · refine Setting.keeps_group (List.forall_mem_cons.mpr ⟨?_, List.forall_mem_singleton.mpr ?_⟩)
    · exact Setting.keeps_integer fun _ _ => hset rfl
    · exact Setting.keeps_string fun _ _ => hset rfl

section Loading

variable {t : FileTree} {cwd dir : Text} {m : Manifest}

/-- A loaded manifest is what the file in the directory says, with the directory's absolute path. -/
theorem load_eq_ok (h : load t cwd dir = .ok m) : ∃ contents read,
    t.readFile cwd (Path.join [dir, fileName]) = .ok contents ∧
    (Toml.parse contents).bind ofTable = some read ∧
    m = { read with
      directory := Path.absolute cwd dir
      entries := if read.entries.isEmpty then defaultEntries else read.entries } := by
  rw [load] at h
  cases hfile : t.readFile cwd (Path.join [dir, fileName]) with
  | error e => simp [hfile, Except.mapError, Bind.bind, Except.bind] at h
  | ok contents =>
      cases hread : (Toml.parse contents).bind ofTable with
      | none => simp [hfile, hread, Except.mapError, Bind.bind, Except.bind, throw, throwThe,
          MonadExceptOf.throw] at h
      | some read =>
          simp only [hfile, hread, Except.mapError, Bind.bind, Except.bind] at h
          split at h
          · cases h
          · cases h
            exact ⟨contents, read, rfl, hread, rfl⟩

theorem distinct_of_load (h : load t cwd dir = .ok m) : m.Distinct := by
  obtain ⟨contents, read, -, hread, rfl⟩ := load_eq_ok h
  obtain ⟨table, -, htable⟩ := Option.bind_eq_some_iff.mp hread
  have hdistinct : read.Distinct := Setting.applyAll_keeps keeps_settings htable List.nodup_nil
  exact hdistinct

theorem plain_fileName : Path.Plain fileName :=
  ⟨by decide, by decide, by decide, by decide⟩

/-- The manifest of a directory is a file at the place below it. -/
theorem find?_of_load (h : load t cwd dir = .ok m) : ∃ contents,
    t.readFile cwd (Path.join [dir, fileName]) = .ok contents ∧
    t.find? (Path.place cwd dir ++ [fileName]) = some (.file contents) := by
  obtain ⟨contents, -, hfile, -⟩ := load_eq_ok h
  have hentry := FileTree.find?_of_entryAt (FileTree.entryAt_of_readFile hfile)
  rw [Path.place_join_name cwd dir plain_fileName] at hentry
  exact ⟨contents, hfile, hentry⟩

/-- The directory of a project, as an absolute path, can be told from the entries of the tree. -/
theorem exists_entry_of_load (hcwd : Path.isAbsolute cwd) (h : load t cwd dir = .ok m) :
    ∃ entry ∈ t.entries, Path.absolute cwd dir = Path.slash :: Text.join "/" entry.1.dropLast := by
  obtain ⟨contents, -, hfind⟩ := find?_of_load h
  refine ⟨_, FileTree.mem_of_find? (by simp) hfind, ?_⟩
  rw [List.dropLast_concat, Path.absolute_eq hcwd]

/-- A project is the same at its own absolute path. -/
theorem load_directory {m' : Manifest} (hcwd : Path.isAbsolute cwd) (h : load t cwd dir = .ok m)
    (h' : load t cwd m.directory = .ok m') : m' = m := by
  obtain ⟨contents, read, hfile, hread, rfl⟩ := load_eq_ok h
  obtain ⟨contents', read', hfile', hread', rfl⟩ := load_eq_ok h'
  obtain ⟨_, hagain, hfind⟩ := find?_of_load h
  obtain ⟨_, hagain', hfind'⟩ := find?_of_load h'
  rw [hfile] at hagain
  rw [hfile'] at hagain'
  cases hagain
  cases hagain'
  rw [Path.place_absolute hcwd, hfind] at hfind'
  cases hfind'
  rw [hread] at hread'
  cases hread'
  rw [Path.absolute_absolute hcwd]

end Loading

end Manifest

end ClassEngine
