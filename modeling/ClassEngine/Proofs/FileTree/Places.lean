import Mathlib.Tactic.Common
import ClassEngine.FileTree.Basic

/-!
The place that a path names, read off its parts alone. Cleaning a path, joining paths and making
them absolute keep it, and a path that can be followed leads there.
-/

namespace ClassEngine

namespace Text

/-! Splitting -/

section Splitting

variable {sep : UInt8}

theorem splitByte_ne_nil (t : Text) : splitByte sep t ≠ [] := by
  cases t with
  | nil => exact List.cons_ne_nil _ _
  | cons b rest =>
      rw [splitByte]
      split
      · exact List.cons_ne_nil _ _
      · split <;> exact List.cons_ne_nil _ _

theorem splitByte_cons_self (t : Text) : splitByte sep (sep :: t) = [] :: splitByte sep t := by
  cases hsplit : splitByte sep t with
  | nil => exact absurd hsplit (splitByte_ne_nil t)
  | cons piece pieces => simp only [splitByte, hsplit, if_true]

theorem splitByte_append (a b : Text) :
    splitByte sep (a ++ sep :: b) = splitByte sep a ++ splitByte sep b := by
  induction a with
  | nil => exact splitByte_cons_self b
  | cons c rest ih =>
      cases hsplit : splitByte sep rest with
      | nil => exact absurd hsplit (splitByte_ne_nil rest)
      | cons piece pieces =>
          rw [hsplit, List.cons_append] at ih
          rw [List.cons_append, splitByte, ih, splitByte, hsplit]
          dsimp only
          split <;> rfl

theorem splitByte_of_not_mem {t : Text} (h : sep ∉ t) : splitByte sep t = [t] := by
  induction t with
  | nil => rfl
  | cons b rest ih =>
      rw [List.mem_cons, not_or] at h
      rw [splitByte, ih h.2]
      exact if_neg (Ne.symm h.1)

theorem not_mem_of_mem_splitByte {t piece : Text} (h : piece ∈ splitByte sep t) : sep ∉ piece := by
  induction t generalizing piece with
  | nil =>
      rw [splitByte, List.mem_singleton] at h
      exact h ▸ List.not_mem_nil
  | cons b rest ih =>
      cases hsplit : splitByte sep rest with
      | nil => exact absurd hsplit (splitByte_ne_nil rest)
      | cons first others =>
          rw [hsplit] at ih
          rw [splitByte, hsplit] at h
          dsimp only at h
          split at h
          case isTrue =>
            cases List.mem_cons.mp h with
            | inl heq => exact heq ▸ List.not_mem_nil
            | inr hlater => exact ih hlater
          case isFalse hne =>
            cases List.mem_cons.mp h with
            | inl heq =>
                rw [heq, List.mem_cons, not_or]
                exact ⟨Ne.symm hne, ih List.mem_cons_self⟩
            | inr hlater => exact ih (List.mem_cons_of_mem first hlater)

end Splitting

end Text

namespace Path

/-- A part of a path that names something in a directory. -/
structure Plain (part : Text) : Prop where
  nonempty : part ≠ []
  noSlash : slash ∉ part
  notDot : part ≠ dot
  notDotDot : part ≠ dotDot

/-- One part of a path further on, whatever stands there. -/
def step (place : List Text) (part : Text) : List Text :=
  if part.isEmpty || part == dot then place
  else if part == dotDot then place.dropLast
  else place ++ [part]

/-- The place that a path names in a working directory. -/
def place (cwd p : Text) : List Text :=
  (Text.splitByte slash p).foldl step (if isAbsolute p then [] else parts cwd)

theorem step_plain {part : Text} (h : Plain part) (place : List Text) :
    step place part = place ++ [part] := by
  simp [step, h.nonempty, h.notDot, h.notDotDot]

theorem foldl_step_plain {ps : List Text} (h : ∀ part ∈ ps, Plain part) (place : List Text) :
    ps.foldl step place = place ++ ps := by
  induction ps generalizing place with
  | nil => rw [List.foldl_nil, List.append_nil]
  | cons part rest ih =>
      rw [List.foldl_cons, step_plain (h part List.mem_cons_self),
        ih fun p hp => h p (List.mem_cons_of_mem part hp), List.append_assoc, List.singleton_append]

/-! Cleaning -/

theorem join_slash_cons (part : Text) {ps : List Text} (h : ps ≠ []) :
    Text.join "/" (part :: ps) = part ++ slash :: Text.join "/" ps := by
  cases ps with
  | nil => exact absurd rfl h
  | cons next rest =>
      rw [Text.join, List.append_assoc]
      · rfl
      · exact h

theorem splitByte_join {ps : List Text} (hne : ps ≠ []) (h : ∀ part ∈ ps, slash ∉ part) :
    Text.splitByte slash (Text.join "/" ps) = ps := by
  induction ps with
  | nil => exact absurd rfl hne
  | cons part rest ih =>
      have hpart := Text.splitByte_of_not_mem (h part List.mem_cons_self)
      by_cases hrest : rest = []
      · rw [hrest]
        exact hpart
      · rw [join_slash_cons part hrest, Text.splitByte_append, hpart,
          ih hrest fun p hp => h p (List.mem_cons_of_mem part hp), List.singleton_append]

/-- Taken apart and joined again, a path is as it was. -/
theorem join_splitByte (p : Text) : Text.join "/" (Text.splitByte slash p) = p := by
  induction p with
  | nil => rfl
  | cons b rest ih =>
      have hne : Text.splitByte slash rest ≠ [] := Text.splitByte_ne_nil rest
      by_cases hb : b = slash
      · rw [hb, Text.splitByte_cons_self, join_slash_cons [] hne, ih, List.nil_append]
      · cases hsplit : Text.splitByte slash rest with
        | nil => exact absurd hsplit hne
        | cons piece pieces =>
            rw [hsplit] at ih
            rw [Text.splitByte, hsplit]
            dsimp only
            rw [if_neg hb, ← ih]
            cases pieces <;> rfl

theorem foldl_step_join {ps : List Text} (h : ∀ part ∈ ps, slash ∉ part) (place : List Text) :
    (Text.splitByte slash (Text.join "/" ps)).foldl step place = ps.foldl step place := by
  by_cases hne : ps = []
  · rw [hne]
    rfl
  · rw [splitByte_join hne h]

/-- What cleaning keeps at `..`. -/
def keepAbove (rooted : Bool) : List Text → List Text
  | top :: below => if top == dotDot then dotDot :: top :: below else below
  | [] => if rooted then [] else [dotDot]

/-- What cleaning keeps when it has come to one more part. -/
def keep (rooted : Bool) (kept : List Text) (part : Text) : List Text :=
  if part.isEmpty || part == dot then kept
  else if part == dotDot then keepAbove rooted kept
  else part :: kept

section Reducing

variable {rooted : Bool} {kept rest : List Text} {part : Text}

theorem reduce_cons :
    reduce rooted kept (part :: rest) = reduce rooted (keep rooted kept part) rest := by
  rw [keep]
  cases kept with
  | nil =>
      rw [reduce, keepAbove]
      split
      · rfl
      split
      · cases rooted <;> rfl
      · rfl
  | cons top below =>
      rw [reduce, keepAbove]
      split
      · rfl
      split
      · split <;> rfl
      · rfl

/-- A name before `..` may go with it, for it leads one place down. -/
theorem foldl_step_keepAbove {place : List Text} (hroot : rooted → place = [])
    (hkept : ∀ p ∈ kept, p ≠ [] ∧ p ≠ dot) :
    (keepAbove rooted kept).reverse.foldl step place = (kept.reverse.foldl step place).dropLast := by
  have hback (q : List Text) : step q dotDot = q.dropLast := rfl
  cases kept with
  | nil =>
      cases rooted with
      | true => simp [keepAbove, hroot rfl]
      | false => simp [keepAbove, hback]
  | cons top below =>
      rw [keepAbove]
      split
      case isTrue => simp [hback]
      case isFalse htop =>
        have hname := hkept top List.mem_cons_self
        have hup : top ≠ dotDot := by simpa using htop
        simp [step, hname, hup]

theorem foldl_step_keep {place : List Text} (hroot : rooted → place = [])
    (hkept : ∀ p ∈ kept, p ≠ [] ∧ p ≠ dot) :
    (keep rooted kept part).reverse.foldl step place = step (kept.reverse.foldl step place) part := by
  rw [keep, step]
  split
  case isTrue => rfl
  case isFalse hskip =>
    split
    case isTrue => exact foldl_step_keepAbove hroot hkept
    case isFalse hup => simp [step, hskip, hup]

/-- What holds of all parts kept so far and of the next one, and of `..` where it may be kept. -/
theorem forall_mem_keep {P : Text → Prop} (hkept : ∀ p ∈ kept, P p)
    (hpart : part ≠ [] → part ≠ dot → part ≠ dotDot → P part) (hup : rooted ∨ P dotDot) :
    ∀ p ∈ keep rooted kept part, P p := by
  rw [keep]
  split
  case isTrue => exact hkept
  case isFalse hskip =>
    have hsolid : part ≠ [] ∧ part ≠ dot := by simpa using hskip
    split
    case isTrue =>
      cases kept <;> rw [keepAbove] <;> grind
    case isFalse hname =>
      exact List.forall_mem_cons.mpr ⟨hpart hsolid.1 hsolid.2 (by simpa using hname), hkept⟩

theorem forall_mem_reduce {P : Text → Prop} (hkept : ∀ p ∈ kept, P p)
    (hrest : ∀ p ∈ rest, p ≠ [] → p ≠ dot → p ≠ dotDot → P p) (hup : rooted ∨ P dotDot) :
    ∀ p ∈ reduce rooted kept rest, P p := by
  induction rest generalizing kept with
  | nil => simpa [reduce] using hkept
  | cons part rest ih =>
      obtain ⟨hpart, hlater⟩ := List.forall_mem_cons.mp hrest
      rw [reduce_cons]
      exact ih (forall_mem_keep hkept hpart hup) hlater

/-- What is left of a path after cleaning holds the same steps. -/
theorem foldl_step_reduce {place : List Text} (hroot : rooted → place = [])
    (hkept : ∀ p ∈ kept, p ≠ [] ∧ p ≠ dot) :
    (reduce rooted kept rest).foldl step place = rest.foldl step (kept.reverse.foldl step place) := by
  induction rest generalizing kept with
  | nil => rw [reduce, List.foldl_nil]
  | cons part rest ih =>
      have hkeep : ∀ p ∈ keep rooted kept part, p ≠ [] ∧ p ≠ dot :=
        forall_mem_keep hkept (fun hsolid hdot _ => ⟨hsolid, hdot⟩) (.inr (by decide))
      rw [reduce_cons, ih hkeep, foldl_step_keep hroot hkept, List.foldl_cons]

end Reducing

theorem noSlash_parts (p : Text) : ∀ part ∈ parts p, slash ∉ part :=
  forall_mem_reduce (by simp) (fun _ hpart _ _ _ => Text.not_mem_of_mem_splitByte hpart)
    (.inr (by decide))

/-- Below the root only names remain. -/
theorem plain_parts {p : Text} (h : isAbsolute p) : ∀ part ∈ parts p, Plain part :=
  forall_mem_reduce (by simp)
    (fun _ hpart hsolid hdot hup => ⟨hsolid, Text.not_mem_of_mem_splitByte hpart, hdot, hup⟩) (.inl h)

theorem foldl_step_parts {p : Text} {start : List Text} (hroot : isAbsolute p → start = []) :
    (parts p).foldl step start = (Text.splitByte slash p).foldl step start :=
  foldl_step_reduce hroot (by simp)

/-- An absolute path is cleaned to its place. -/
theorem parts_eq_place {p : Text} (h : isAbsolute p) (cwd : Text) : parts p = place cwd p := by
  calc parts p = (parts p).foldl step [] := (foldl_step_plain (plain_parts h) []).symm
    _ = (Text.splitByte slash p).foldl step [] := foldl_step_parts fun _ => rfl
    _ = place cwd p := by rw [place, if_pos h]

theorem isAbsolute_slash (p : Text) : isAbsolute (slash :: p) := by
  rw [isAbsolute, List.head?_cons]
  exact beq_self_eq_true _

theorem clean_of_absolute {p : Text} (h : isAbsolute p) :
    clean p = slash :: Text.join "/" (parts p) := by
  rw [clean, if_pos h]

theorem solid_parts (p : Text) : ∀ part ∈ parts p, part ≠ [] ∧ part ≠ dot :=
  forall_mem_reduce (by simp) (fun _ _ hsolid hdot _ => ⟨hsolid, hdot⟩) (.inr (by decide))

theorem isAbsolute_join_parts (p : Text) : isAbsolute (Text.join "/" (parts p)) = false := by
  cases hparts : parts p with
  | nil => rfl
  | cons part rest =>
      have hmem : part ∈ parts p := hparts ▸ List.mem_cons_self
      have hsolid := (solid_parts p part hmem).1
      have hslash := noSlash_parts p part hmem
      have hhead : (Text.join "/" (part :: rest)).head? = part.head? := by
        cases rest with
        | nil => rfl
        | cons next rest => simp [Text.join, List.head?_append, List.head?_eq_some_head hsolid]
      rw [isAbsolute, hhead, beq_eq_false_iff_ne]
      exact fun heq => hslash (List.mem_of_mem_head? heq)

theorem isAbsolute_clean (p : Text) : isAbsolute (clean p) = isAbsolute p := by
  rw [clean]
  split
  case isTrue h => rw [isAbsolute_slash, h]
  case isFalse h =>
    rw [Bool.not_eq_true] at h
    split
    · rw [h]
      rfl
    · rw [isAbsolute_join_parts, h]

/-- A clean path names the same place. -/
theorem place_clean (cwd p : Text) : place cwd (clean p) = place cwd p := by
  rw [place, place, isAbsolute_clean, clean]
  split
  case isTrue h =>
    rw [Text.splitByte_cons_self, List.foldl_cons, foldl_step_join (noSlash_parts p)]
    exact foldl_step_parts fun _ => rfl
  case isFalse h =>
    have hjoin := foldl_step_join (noSlash_parts p)
    have hstart : (parts p).foldl step (parts cwd) = _ :=
      foldl_step_parts fun habsolute => absurd habsolute h
    split
    case isTrue hempty =>
      rw [List.isEmpty_iff] at hempty
      rw [← hstart, ← hjoin, hempty]
      rfl
    case isFalse => rw [hjoin, hstart]

theorem isAbsolute_append {a : Text} (h : isAbsolute a) (b : Text) : isAbsolute (a ++ b) := by
  cases a with
  | nil => cases h
  | cons c rest => exact h

theorem place_append (cwd a b : Text) (h : a ≠ []) :
    place cwd (a ++ slash :: b) = (Text.splitByte slash b).foldl step (place cwd a) := by
  have hhead : isAbsolute (a ++ slash :: b) = isAbsolute a := by
    rw [isAbsolute, isAbsolute, List.head?_append, List.head?_eq_some_head h]
    rfl
  rw [place, place, hhead, Text.splitByte_append, List.foldl_append]

/-- Joined to a directory, a path goes on from its place. -/
theorem place_join (cwd dir p : Text) (hp : isAbsolute p = false) :
    place cwd (join [dir, p]) = (Text.splitByte slash p).foldl step (place cwd dir) := by
  have hempty (q : List Text) : q = (Text.splitByte slash []).foldl step q := rfl
  by_cases hdir : dir = []
  · by_cases hname : p = []
    · rw [hdir, hname]
      rfl
    · have hjoin : join [dir, p] = clean p := by simp [join, hdir, hname, Text.join]
      rw [hjoin, place_clean, hdir, place, hp]
      rfl
  · by_cases hname : p = []
    · have hjoin : join [dir, p] = clean dir := by simp [join, hdir, hname, Text.join]
      rw [hjoin, place_clean, hname, ← hempty]
    · have hjoin : join [dir, p] = clean (dir ++ slash :: p) := by
        simp [join, hdir, hname, Text.join]
        rfl
      rw [hjoin, place_clean, place_append cwd dir p hdir]

theorem isAbsolute_of_plain {p : Text} (h : ∀ part ∈ Text.splitByte slash p, Plain part) :
    isAbsolute p = false := by
  cases p with
  | nil => rfl
  | cons b rest =>
      rw [isAbsolute, List.head?_cons, beq_eq_false_iff_ne]
      rintro heq
      rw [Option.some.inj heq, Text.splitByte_cons_self] at h
      exact (h [] List.mem_cons_self).nonempty rfl

/-- Joined to a directory, a path of names leads down from it. -/
theorem place_join_plain (cwd dir : Text) {p : Text}
    (h : ∀ part ∈ Text.splitByte slash p, Plain part) :
    place cwd (join [dir, p]) = place cwd dir ++ Text.splitByte slash p := by
  rw [place_join cwd dir p (isAbsolute_of_plain h), foldl_step_plain h]

/-- A name in a directory. -/
theorem place_join_name (cwd dir : Text) {name : Text} (h : Plain name) :
    place cwd (join [dir, name]) = place cwd dir ++ [name] := by
  have hsplit := Text.splitByte_of_not_mem h.noSlash
  rw [place_join_plain, hsplit]
  rwa [hsplit, List.forall_mem_singleton]

section Absolute

variable {cwd : Text}

/-- To make a path absolute is to clean an absolute path to its place. -/
theorem absolute_eq_clean (hcwd : isAbsolute cwd) (p : Text) :
    ∃ q, isAbsolute q ∧ absolute cwd p = clean q ∧ place cwd q = place cwd p := by
  rw [absolute]
  split
  case isTrue h => exact ⟨p, h, rfl, rfl⟩
  case isFalse h =>
    rw [Bool.not_eq_true] at h
    have hdir : cwd ≠ [] := by
      rintro rfl
      cases hcwd
    have hstart : place cwd cwd = parts cwd := (parts_eq_place hcwd cwd).symm
    by_cases hp : p = []
    · refine ⟨cwd, hcwd, by simp [join, hdir, hp, Text.join], ?_⟩
      rw [hstart, hp]
      rfl
    · refine ⟨cwd ++ slash :: p, isAbsolute_append hcwd _, ?_, ?_⟩
      · simp [join, hdir, hp, Text.join]
        rfl
      · rw [place_append cwd cwd p hdir, hstart, place, h]
        rfl

/-- Made absolute, a path is written by its place. -/
theorem absolute_eq (hcwd : isAbsolute cwd) (p : Text) :
    absolute cwd p = slash :: Text.join "/" (place cwd p) := by
  obtain ⟨q, hq, hclean, hplace⟩ := absolute_eq_clean hcwd p
  rw [hclean, clean_of_absolute hq, parts_eq_place hq cwd, hplace]

theorem place_absolute (hcwd : isAbsolute cwd) (p : Text) :
    place cwd (absolute cwd p) = place cwd p := by
  obtain ⟨q, -, hclean, hplace⟩ := absolute_eq_clean hcwd p
  rw [hclean, place_clean, hplace]

theorem absolute_absolute (hcwd : isAbsolute cwd) (p : Text) :
    absolute cwd (absolute cwd p) = absolute cwd p := by
  rw [absolute_eq hcwd, place_absolute hcwd, absolute_eq hcwd]

end Absolute

end Path

namespace FileTree

variable {t : FileTree} {cwd p : Text} {q : List Text}

theorem follow_eq_foldl {place rest : List Text} (h : t.follow place rest = .ok q) :
    q = rest.foldl Path.step place := by
  induction rest generalizing place with
  | nil =>
      rw [follow] at h
      cases h
      rfl
  | cons part rest ih =>
      rw [List.foldl_cons, Path.step]
      rw [follow] at h
      split at h
      · cases h
      · cases h
      split at h
      case isTrue hskip => rw [if_pos hskip, ih h]
      case isFalse hskip =>
        rw [if_neg hskip]
        split at h
        case isTrue hup => rw [if_pos hup, ih h]
        case isFalse hup =>
          rw [if_neg hup]
          split at h
          · cases h
          split at h
          · exact ih h
          · cases h

/-- A path that can be followed leads to its place. -/
theorem resolve_eq_place (h : t.resolve cwd p = .ok q) : q = Path.place cwd p := by
  rw [resolve] at h
  split at h
  · cases h
  split at h
  · cases h
  split at h
  · cases h
  exact follow_eq_foldl h

/-- What a path leads to is what stands at its place. -/
theorem find?_of_entryAt {e : Entry} (h : t.entryAt cwd p = .ok e) :
    t.find? (Path.place cwd p) = some e := by
  rw [entryAt] at h
  cases hresolve : t.resolve cwd p with
  | error fault =>
      rw [hresolve] at h
      cases h
  | ok q =>
      simp only [hresolve, Bind.bind, Except.bind] at h
      rw [← resolve_eq_place hresolve]
      split at h
      case h_1 e' hfind =>
        cases h
        exact hfind
      case h_2 => cases h

theorem entryAt_of_readFile {contents : Text} (h : t.readFile cwd p = .ok contents) :
    t.entryAt cwd p = .ok (.file contents) := by
  rw [readFile] at h
  split at h
  · cases h
  · cases h
  case h_3 contents' hentry =>
    cases h
    exact hentry

/-- What stands in a tree below its root is one of its entries. -/
theorem mem_of_find? {e : Entry} (hne : q ≠ []) (h : t.find? q = some e) : (q, e) ∈ t.entries := by
  rw [find?, List.isEmpty_eq_false_iff.mpr hne] at h
  obtain ⟨before, after, hentries, -⟩ := List.lookup_eq_some_iff.mp h
  rw [hentries]
  exact List.mem_append_right before List.mem_cons_self

theorem mem_filesBelow {below rest : List Text} {contents : Text}
    (h : (below ++ rest, .file contents) ∈ t.entries) : rest ∈ t.filesBelow below := by
  refine List.mem_filterMap.mpr ⟨_, h, ?_⟩
  simp

end FileTree

end ClassEngine
