import Mathlib.Data.List.Nodup
import ClassEngine.Proofs.Text.Order

/-!
Depth-first visits of named links. From a place, the links are taken in the order of their names; a
new place is followed by the places that are found from it, and a known one is passed over. Main
statements: `Visits.mem_of_route` and `Visits.before`, which give the visited places, and their
order, by routes alone.
-/

namespace ClassEngine

namespace Manifest

/-- Links by name, no two of one name. -/
def Ordered (links : List (Text × Text)) : Prop :=
  links.Pairwise fun a b => Text.blt a.1 b.1

section Traversal

variable (next : Text → List (Text × Text))

/-- The places that a visit of the links finds when some are known before, in the order in which it
finds them. -/
inductive Visits : List Text → List (Text × Text) → List Text → Prop
  | none {seen : List Text} : Visits seen [] []
  | known {seen new : List Text} {name place : Text} {links : List (Text × Text)}
      (h : place ∈ seen) (rest : Visits seen links new) : Visits seen ((name, place) :: links) new
  | fresh {seen below new : List Text} {name place : Text} {links : List (Text × Text)}
      (h : place ∉ seen) (inner : Visits (place :: seen) (next place) below)
      (rest : Visits (below.reverse ++ place :: seen) links new) :
      Visits seen ((name, place) :: links) (place :: (below ++ new))

/-- The names on a way to a place that starts with one of the links. No place comes twice, and none
that is to be avoided comes at all. -/
inductive Route : List Text → List (Text × Text) → List Text → Text → Prop
  | here {avoided : List Text} {name place : Text} {links : List (Text × Text)}
      (h : (name, place) ∈ links) (hnew : place ∉ avoided) : Route avoided links [name] place
  | there {avoided names : List Text} {name place stop : Text} {links : List (Text × Text)}
      (h : (name, place) ∈ links) (hnew : place ∉ avoided)
      (rest : Route (place :: avoided) (next place) names stop) :
      Route avoided links (name :: names) stop

/-- Some route to the one place comes before all routes to the other: at the first name that is
different the smaller one decides, and a route comes before those that go on from it. -/
def Before (avoided : List Text) (links : List (Text × Text)) (place other : Text) : Prop :=
  ∃ names, Route next avoided links names place ∧
    ∀ names', Route next avoided links names' other → names < names'

variable {next} {seen avoided new names : List Text} {links : List (Text × Text)} {place : Text}

/-- More links and fewer places to avoid leave a route as it is. -/
theorem Route.mono {avoided' : List Text} {links' : List (Text × Text)}
    (h : Route next avoided links names place) (havoided : avoided' ⊆ avoided)
    (hlinks : links ⊆ links') : Route next avoided' links' names place := by
  induction h generalizing avoided' links' with
  | here hmem hnew => exact .here (hlinks hmem) fun hold => hnew (havoided hold)
  | there hmem hnew _ ih =>
      exact .there (hlinks hmem) (fun hold => hnew (havoided hold))
        (ih (List.cons_subset_cons _ havoided) (List.Subset.refl _))

/-- Places whose links lead back to them or to what is avoided. -/
def ClosedOff (next : Text → List (Text × Text)) (avoided places : List Text) : Prop :=
  ∀ place ∈ places, ∀ link ∈ next place, link.2 ∈ avoided ∨ link.2 ∈ places

theorem ClosedOff.cons {places : List Text} (h : ClosedOff next avoided places) (via : Text) :
    ClosedOff next (via :: avoided) places :=
  fun place hplace link hlink => (h place hplace link hlink).imp_left (List.mem_cons_of_mem via)

/-- No route leaves places that are closed off. -/
theorem Route.mem_of_closedOff {places : List Text} (h : Route next avoided links names place)
    (hclosed : ClosedOff next avoided places)
    (hlinks : ∀ link ∈ links, link.2 ∈ avoided ∨ link.2 ∈ places) : place ∈ places := by
  induction h with
  | here hmem hnew => exact (hlinks _ hmem).resolve_left hnew
  | @there avoided _ _ via _ _ hmem hnew _ ih =>
      have hvia : via ∈ places := (hlinks _ hmem).resolve_left hnew
      exact ih (hclosed.cons via) (hclosed.cons via via hvia)

/-- A route to elsewhere goes around places that are closed off. -/
theorem Route.avoiding {places : List Text} (h : Route next avoided links names place)
    (hclosed : ClosedOff next avoided places) (hplace : place ∉ places) :
    Route next (places ++ avoided) links names place := by
  induction h with
  | here hmem hnew => exact .here hmem (by simp [hplace, hnew])
  | @there avoided _ _ via _ _ hmem hnew rest ih =>
      have hmore := hclosed.cons via
      have hvia : via ∉ places := fun hin => hplace (rest.mem_of_closedOff hmore (hmore via hin))
      refine .there hmem (by simp [hvia, hnew]) ((ih hmore hplace).mono ?_ (List.Subset.refl _))
      exact List.cons_subset.mpr ⟨by simp, by grind⟩

/-! What a visit finds -/

theorem Visits.not_mem_seen (h : Visits next seen links new) : ∀ place ∈ new, place ∉ seen := by
  induction h with
  | none => exact fun _ hmem => absurd hmem List.not_mem_nil
  | known _ _ ih => exact ih
  | fresh hnew _ _ ihinner ihrest => grind

theorem Visits.nodup (h : Visits next seen links new) : new.Nodup := by
  induction h with
  | none => exact List.nodup_nil
  | known _ _ ih => exact ih
  | fresh hnew inner rest ihinner ihrest =>
      have hinner := inner.not_mem_seen
      have hrest := rest.not_mem_seen
      rw [List.nodup_cons, List.nodup_append]
      refine ⟨by grind, ihinner, ihrest, by grind⟩

/-- Everything that the links and the places found lead to is known in the end. -/
theorem Visits.closedOff (h : Visits next seen links new) :
    (∀ link ∈ links, link.2 ∈ seen ∨ link.2 ∈ new) ∧ ClosedOff next seen new := by
  induction h with
  | none => exact ⟨by simp, by simp [ClosedOff]⟩
  | known hseen _ ih => exact ⟨List.forall_mem_cons.mpr ⟨.inl hseen, ih.1⟩, ih.2⟩
  | fresh hnew _ _ ihinner ihrest =>
      unfold ClosedOff at *
      grind

/-- All places that a route leads to are found. -/
theorem Visits.mem_of_route (h : Visits next seen links new) (hroute : Route next seen links names place) :
    place ∈ new :=
  hroute.mem_of_closedOff h.closedOff.2 h.closedOff.1

/-- And a route leads to all that are found. -/
theorem Visits.exists_route (h : Visits next seen links new) (hplace : place ∈ new) :
    ∃ names, Route next seen links names place := by
  induction h with
  | none => exact absurd hplace List.not_mem_nil
  | known _ _ ih =>
      obtain ⟨names, hroute⟩ := ih hplace
      exact ⟨names, hroute.mono (List.Subset.refl _) (List.subset_cons_self _ _)⟩
  | fresh hnew _ _ ihinner ihrest =>
      rw [List.mem_cons, List.mem_append] at hplace
      obtain rfl | hbelow | hlater := hplace
      · exact ⟨_, .here List.mem_cons_self hnew⟩
      · obtain ⟨names, hroute⟩ := ihinner hbelow
        exact ⟨_, .there List.mem_cons_self hnew hroute⟩
      · obtain ⟨names, hroute⟩ := ihrest hlater
        exact ⟨names, hroute.mono (by grind) (List.subset_cons_self _ _)⟩

/-! The order of what is found -/

/-- A route starts with the first link or with a later one. -/
theorem Route.cons_cases {name via : Text}
    (h : Route next avoided ((name, via) :: links) names place) :
    (via ∉ avoided ∧ (names = [name] ∧ place = via ∨
      ∃ names', names = name :: names' ∧ Route next (via :: avoided) (next via) names' place)) ∨
    Route next avoided links names place := by
  cases h with
  | here hmem hnew =>
      cases List.mem_cons.mp hmem with
      | inl heq =>
          cases heq
          exact .inl ⟨hnew, .inl ⟨rfl, rfl⟩⟩
      | inr hlater => exact .inr (.here hlater hnew)
  | there hmem hnew rest =>
      cases List.mem_cons.mp hmem with
      | inl heq =>
          cases heq
          exact .inl ⟨hnew, .inr ⟨_, rfl, rest⟩⟩
      | inr hlater => exact .inr (.there hlater hnew rest)

theorem Route.exists_head (h : Route next avoided links names place) :
    ∃ link ∈ links, ∃ names', names = link.1 :: names' := by
  cases h with
  | here hmem _ => exact ⟨_, hmem, _, rfl⟩
  | there hmem _ _ => exact ⟨_, hmem, _, rfl⟩

/-- A route that starts with the first link comes before all that start with later ones. -/
theorem Ordered.lt_of_route {name via : Text} (h : Ordered ((name, via) :: links))
    (hroute : Route next avoided links names place) (names' : List Text) : name :: names' < names := by
  obtain ⟨link, hmem, rest, rfl⟩ := hroute.exists_head
  have hlt : Text.blt name link.1 := (List.pairwise_cons.mp h).1 link hmem
  exact List.cons_lt_cons_iff.mpr (.inl (Text.blt_iff_lt.mp hlt))

/-- Links to places that are known make no difference to the order. -/
theorem Before.cons_known {name via other : Text} (h : Before next avoided links place other)
    (hvia : via ∈ avoided) : Before next avoided ((name, via) :: links) place other := by
  obtain ⟨names, hroute, hfirst⟩ := h
  refine ⟨names, hroute.mono (List.Subset.refl _) (List.subset_cons_self _ _), ?_⟩
  intro names' hroute'
  cases hroute'.cons_cases with
  | inl hstart => exact absurd hvia hstart.1
  | inr hlater => exact hfirst names' hlater

/-- A route that starts with the first link has only those to beat that start with it too. -/
theorem Before.of_first_link {name via other : Text} (hlinks : Ordered ((name, via) :: links))
    (hroute : Route next avoided ((name, via) :: links) (name :: names) place) (hother : other ≠ via)
    (hfirst : ∀ names', Route next (via :: avoided) (next via) names' other → names < names') :
    Before next avoided ((name, via) :: links) place other := by
  refine ⟨name :: names, hroute, fun names' hroute' => ?_⟩
  obtain ⟨-, ⟨-, heq⟩ | ⟨rest, rfl, hrest⟩⟩ | hlater := hroute'.cons_cases
  · exact absurd heq hother
  · exact List.cons_lt_cons_iff.mpr (.inr ⟨rfl, hfirst rest hrest⟩)
  · exact hlinks.lt_of_route hlater names

/-- Between places that the first link does not lead to, the routes around what it does lead to
decide. -/
theorem Before.around {name via other : Text} {found avoided' : List Text}
    (h : Before next avoided' links place other) (hfound : via ∈ found) (hother : other ∉ found)
    (hclosed : ClosedOff next avoided found) (hold : avoided ⊆ avoided')
    (hnew : avoided' ⊆ found ++ avoided) : Before next avoided ((name, via) :: links) place other := by
  obtain ⟨names, hroute, hfirst⟩ := h
  refine ⟨names, hroute.mono hold (List.subset_cons_self _ _), fun names' hroute' => ?_⟩
  obtain ⟨-, ⟨-, heq⟩ | ⟨rest, rfl, hrest⟩⟩ | hlater := hroute'.cons_cases
  · exact absurd (heq ▸ hfound) hother
  · have hmore := hclosed.cons via
    exact absurd (hrest.mem_of_closedOff hmore (hmore via hfound)) hother
  · exact hfirst names' ((hlater.avoiding hclosed hother).mono hnew (List.Subset.refl _))

/-- What is found comes in the order of the routes to it. -/
theorem Visits.before (h : Visits next seen links new) (hlinks : Ordered links)
    (hnext : ∀ place, Ordered (next place)) : new.Pairwise (Before next seen links) := by
  induction h with
  | none => exact List.Pairwise.nil
  | known hseen _ ih => exact (ih hlinks.of_cons).imp fun hbefore => hbefore.cons_known hseen
  | @fresh seen below new name via links hnew inner rest ihinner ihrest =>
      have hinner := inner.not_mem_seen
      have hrest := rest.not_mem_seen
      have hfirst : (name, via) ∈ (name, via) :: links := List.mem_cons_self
      have hclosed : ClosedOff next seen (via :: below) := by
        have hclosed := inner.closedOff
        unfold ClosedOff at *
        grind
      have hbelow : ∀ p ∈ below, p ≠ via := fun p hp heq =>
        hinner p hp (heq ▸ List.mem_cons_self)
      have hlater : ∀ p ∈ new, p ≠ via ∧ p ∉ below := by grind
      refine List.pairwise_cons.mpr ⟨?_, List.pairwise_append.mpr ⟨?_, ?_, ?_⟩⟩
      · intro other hother
        have hne : other ≠ via :=
          (List.mem_append.mp hother).elim (hbelow other) fun hlate => (hlater other hlate).1
        refine .of_first_link hlinks (.here hfirst hnew) hne fun names' hroute' => ?_
        obtain ⟨link, -, rest, rfl⟩ := hroute'.exists_head
        exact List.nil_lt_cons _ _
      · refine (ihinner (hnext via)).imp_of_mem fun _ hother hbefore => ?_
        obtain ⟨names, hroute, hleast⟩ := hbefore
        exact .of_first_link hlinks (.there hfirst hnew hroute) (hbelow _ hother) hleast
      · refine (ihrest hlinks.of_cons).imp_of_mem fun _ hother hbefore => ?_
        refine hbefore.around List.mem_cons_self ?_ hclosed (by grind) (by grind)
        grind
      · intro place hplace other hother
        obtain ⟨names, hroute⟩ := inner.exists_route hplace
        refine .of_first_link hlinks (.there hfirst hnew hroute) (hlater other hother).1 ?_
        exact fun names' hroute' => absurd (inner.mem_of_route hroute') (hlater other hother).2

end Traversal

end Manifest

end ClassEngine
