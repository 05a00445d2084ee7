import Mathlib.Data.List.Duplicate
import Mathlib.Data.List.Perm.Subperm
import ClassEngine.Proofs.Bundle.RoundTrip

/-!
A bundle is a matter of which classes it holds. Whatever order they come in, and however the sort
leaves those of one name, the bytes are the same, and so is the refusal. Main statement:
`bundles_ignore_order`.
-/

namespace ClassEngine

namespace Bundle

/-- An order of the classes by name, as any sort may leave it. -/
structure Arranges (arranged classes : List ClassFile) : Prop where
  perm : arranged.Perm classes
  sorted : arranged.Pairwise fun a b => Text.ble a.name b.name

/-- The bytes of a bundle whose classes are in order. -/
def encodeArranged (arranged : List ClassFile) : Except WriteError Text :=
  match duplicate? arranged with
  | some name => .error (.duplicate name)
  | none => .ok (frame (payloadItem (arranged.map some)))

theorem encode_eq_encodeArranged (classes : List ClassFile) :
    encode classes = encodeArranged (sortClasses classes) := rfl

theorem arranges_sortClasses (classes : List ClassFile) : Arranges (sortClasses classes) classes :=
  ⟨List.mergeSort_perm _ _, Text.pairwise_mergeSort_ble ClassFile.name classes⟩

/-- The first of the names that several classes have. -/
def FirstShared (classes : List ClassFile) (name : Text) : Prop :=
  (classes.map ClassFile.name).Duplicate name ∧
    ∀ other, (classes.map ClassFile.name).Duplicate other → Text.ble name other

theorem duplicate_of_perm {names others : List Text} {name : Text} (h : names.Duplicate name)
    (hperm : names.Perm others) : others.Duplicate name := by
  rw [List.duplicate_iff_sublist] at *
  obtain ⟨pair, hpair, hsublist⟩ := h.subperm.trans hperm.subperm
  have htwice : pair = List.replicate 2 name := List.perm_replicate.mp hpair
  rwa [htwice] at hsublist

theorem FirstShared.perm {classes others : List ClassFile} {name : Text}
    (h : FirstShared classes name) (hperm : classes.Perm others) : FirstShared others name :=
  ⟨duplicate_of_perm h.1 (hperm.map ClassFile.name),
    fun other hother => h.2 other (duplicate_of_perm hother (hperm.map ClassFile.name).symm)⟩

theorem FirstShared.unique {classes : List ClassFile} {name other : Text}
    (h : FirstShared classes name) (h' : FirstShared classes other) : name = other := by
  have hle := (Text.ble_iff_le _ _).mp (h.2 other h'.1)
  have hge := (Text.ble_iff_le _ _).mp (h'.2 name h.1)
  exact List.le_antisymm hle hge

section Arranged

variable {arranged classes : List ClassFile}

/-- In order, a class whose name comes again is followed by one of that name. -/
theorem next_name {a b : ClassFile} {rest : List ClassFile}
    (hsorted : (a :: b :: rest).Pairwise fun a b => Text.ble a.name b.name)
    (h : a.name ∈ (b :: rest).map ClassFile.name) : a.name = b.name := by
  obtain ⟨hhead, htail⟩ := List.pairwise_cons.mp hsorted
  have hab : a.name ≤ b.name := (Text.ble_iff_le _ _).mp (hhead b List.mem_cons_self)
  rw [List.map_cons, List.mem_cons] at h
  cases h with
  | inl heq => exact heq
  | inr hlater =>
      obtain ⟨c, hc, hname⟩ := List.mem_map.mp hlater
      have hbc : b.name ≤ c.name := (Text.ble_iff_le _ _).mp ((List.pairwise_cons.mp htail).1 c hc)
      exact List.le_antisymm hab (hname ▸ hbc)

theorem nodup_of_duplicate?_eq_none (hsorted : arranged.Pairwise fun a b => Text.ble a.name b.name)
    (h : duplicate? arranged = none) : (arranged.map ClassFile.name).Nodup := by
  induction arranged with
  | nil => exact List.nodup_nil
  | cons a rest ih =>
      cases rest with
      | nil => exact List.nodup_singleton _
      | cons b rest =>
          rw [duplicate?] at h
          split at h
          case isTrue => cases h
          case isFalse hne =>
            rw [List.map_cons, List.nodup_cons]
            exact ⟨fun hmem => hne (next_name hsorted hmem), ih hsorted.of_cons h⟩

/-- In order, the first neighbours of one name show the first name that is shared. -/
theorem firstShared_of_duplicate? {name : Text}
    (hsorted : arranged.Pairwise fun a b => Text.ble a.name b.name)
    (h : duplicate? arranged = some name) : FirstShared arranged name := by
  induction arranged with
  | nil => cases h
  | cons a rest ih =>
      cases rest with
      | nil => cases h
      | cons b rest =>
          rw [duplicate?] at h
          split at h
          case isTrue heq =>
            cases h
            constructor
            · rw [List.map_cons, heq]
              exact List.Mem.duplicate_cons_self (List.mem_map_of_mem List.mem_cons_self)
            · intro other hother
              have hlater : other ∈ (b :: rest).map ClassFile.name :=
                (List.duplicate_cons_iff.mp hother).elim (fun hhead => hhead.2) (fun htail => htail.mem)
              obtain ⟨c, hc, rfl⟩ := List.mem_map.mp hlater
              exact heq ▸ (List.pairwise_cons.mp hsorted).1 c hc
          case isFalse hne =>
            obtain ⟨hshared, hfirst⟩ := ih hsorted.of_cons h
            refine ⟨hshared.duplicate_cons _, fun other hother => ?_⟩
            cases List.duplicate_cons_iff.mp hother with
            | inr hlater => exact hfirst other hlater
            | inl hhead => exact absurd (next_name hsorted (hhead.1 ▸ hhead.2)) hne

/-- A refusal names the first name that is shared. -/
theorem encodeArranged_eq_error (h : Arranges arranged classes) (e : WriteError) :
    encodeArranged arranged = .error e ↔ ∃ name, e = .duplicate name ∧ FirstShared classes name := by
  rw [encodeArranged]
  cases hduplicate : duplicate? arranged with
  | none =>
      have hnodup := nodup_of_duplicate?_eq_none h.sorted hduplicate
      refine ⟨fun herror => (nomatch herror), ?_⟩
      rintro ⟨name, -, hshared⟩
      exact absurd hnodup (hshared.perm h.perm.symm).1.not_nodup
  | some found =>
      have hfound := firstShared_of_duplicate? h.sorted hduplicate
      constructor
      · intro herror
        cases herror
        exact ⟨found, rfl, hfound.perm h.perm⟩
      · rintro ⟨name, rfl, hshared⟩
        rw [hfound.unique (hshared.perm h.perm.symm)]

/-- Classes of different names have one order, and so one bundle. -/
theorem encodeArranged_of_nodup (h : Arranges arranged classes)
    (hnodup : (classes.map ClassFile.name).Nodup) :
    encodeArranged arranged = .ok (frame (payloadItem ((sortClasses classes).map some))) := by
  have hnames := (h.perm.map ClassFile.name).nodup_iff.mpr hnodup
  have hinjective : ∀ a ∈ arranged, ∀ b ∈ sortClasses classes, Text.ble a.name b.name →
      Text.ble b.name a.name → a = b := by
    intro a ha b hb hab hba
    rw [Text.ble_iff_le] at hab hba
    have hb' := h.perm.mem_iff.mpr ((arranges_sortClasses classes).perm.mem_iff.mp hb)
    exact List.inj_on_of_nodup_map hnames ha hb' (List.le_antisymm hab hba)
  have hone : arranged = sortClasses classes :=
    List.Perm.eq_of_pairwise (fun a b ha hb => hinjective a ha b hb) h.sorted
      (arranges_sortClasses classes).sorted (h.perm.trans (arranges_sortClasses classes).perm.symm)
  rw [encodeArranged, duplicate?_eq_none hnames, hone]

/-- Nothing else is refused. -/
theorem encodeArranged_eq_ok (h : Arranges arranged classes) :
    (∃ bytes, encodeArranged arranged = .ok bytes) ↔ (classes.map ClassFile.name).Nodup := by
  constructor
  · rintro ⟨bytes, hok⟩
    rw [encodeArranged] at hok
    cases hduplicate : duplicate? arranged with
    | some name => rw [hduplicate] at hok; cases hok
    | none =>
        exact (h.perm.map ClassFile.name).nodup_iff.mp
          (nodup_of_duplicate?_eq_none h.sorted hduplicate)
  · exact fun hnodup => ⟨_, encodeArranged_of_nodup h hnodup⟩

/-- All orders of the classes by name, also those that differ in the order of equal names, come to
one result. -/
theorem encodeArranged_eq_encode (h : Arranges arranged classes) :
    encodeArranged arranged = encode classes := by
  have hsorted := arranges_sortClasses classes
  rw [encode_eq_encodeArranged]
  by_cases hnodup : (classes.map ClassFile.name).Nodup
  · rw [encodeArranged_of_nodup h hnodup, encodeArranged_of_nodup hsorted hnodup]
  · cases hresult : encodeArranged arranged with
    | ok bytes => exact absurd ((encodeArranged_eq_ok h).mp ⟨bytes, hresult⟩) hnodup
    | error e =>
        have hshared := (encodeArranged_eq_error h e).mp hresult
        exact ((encodeArranged_eq_error hsorted e).mpr hshared).symm

end Arranged

/-- Some two places of the list hold classes of one name. -/
def SharesName (classes : List ClassFile) : Prop :=
  ∃ (i j : Nat) (c d : ClassFile), i < j ∧ classes[i]? = some c ∧ classes[j]? = some d ∧ c.name = d.name

theorem nodup_names_iff (classes : List ClassFile) :
    (classes.map ClassFile.name).Nodup ↔ ¬SharesName classes := by
  rw [List.Nodup, List.pairwise_map, List.pairwise_iff_getElem]
  constructor
  · rintro hnodup ⟨i, j, c, d, hij, hc, hd, heq⟩
    obtain ⟨hi, rfl⟩ := List.getElem?_eq_some_iff.mp hc
    obtain ⟨hj, rfl⟩ := List.getElem?_eq_some_iff.mp hd
    exact hnodup i j hi hj hij heq
  · intro hnone i j hi hj hij heq
    exact hnone ⟨i, j, _, _, hij, List.getElem?_eq_getElem hi, List.getElem?_eq_getElem hj, heq⟩

/-- Classes in any order come to the same bytes or to the same refusal, and any sort by name comes
to them as well. They are refused exactly when two of them share a name, for the first such name. -/
theorem bundles_ignore_order {classes others : List ClassFile} (h : others.Perm classes) :
    encodePlaces (others.map some) = encodePlaces (classes.map some) ∧
    (∀ arranged, Arranges arranged others →
      encodeArranged arranged = encodePlaces (classes.map some)) ∧
    ((∃ bytes, encodePlaces (classes.map some) = .ok bytes) ↔ ¬SharesName classes) ∧
    ((∃ name, encodePlaces (classes.map some) = .error (.duplicate name)) ↔ SharesName classes) ∧
    ∀ e, encodePlaces (classes.map some) = .error e ↔
      ∃ name, e = .duplicate name ∧ FirstShared classes name := by
  rw [encodePlaces_some, encodePlaces_some]
  have hsorted := arranges_sortClasses classes
  have hany (arranged : List ClassFile) (harranged : Arranges arranged others) :
      encodeArranged arranged = encode classes :=
    encodeArranged_eq_encode ⟨harranged.perm.trans h, harranged.sorted⟩
  have hok : (∃ bytes, encode classes = .ok bytes) ↔ ¬SharesName classes :=
    (encodeArranged_eq_ok hsorted).trans (nodup_names_iff classes)
  have herror (e : WriteError) : encode classes = .error e ↔
      ∃ name, e = .duplicate name ∧ FirstShared classes name :=
    encodeArranged_eq_error hsorted e
  refine ⟨hany _ (arranges_sortClasses others), hany, hok, ?_, herror⟩
  constructor
  · rintro ⟨name, hname⟩
    by_contra hnone
    obtain ⟨bytes, hbytes⟩ := hok.mpr hnone
    rw [hbytes] at hname
    cases hname
  · intro hshares
    cases hresult : encode classes with
    | ok bytes => exact absurd hshares (hok.mp ⟨bytes, hresult⟩)
    | error e =>
        obtain ⟨name, rfl, -⟩ := (herror e).mp hresult
        exact ⟨name, rfl⟩

/-- Two interfaces of one name, of which only one has a method, and a class between them. -/
def rivalClasses : List ClassFile :=
  shapeClasses.reverse ++ shapeClasses.tail.map fun c => { c with methods := [] }

theorem bundles_ignore_order_rivals : rivalClasses.reverse.Perm rivalClasses ∧
    encodePlaces (rivalClasses.reverse.map some) = encodePlaces (rivalClasses.map some) ∧
    (∀ arranged, Arranges arranged rivalClasses.reverse →
      encodeArranged arranged = encodePlaces (rivalClasses.map some)) ∧
    ((∃ bytes, encodePlaces (rivalClasses.map some) = .ok bytes) ↔ ¬SharesName rivalClasses) ∧
    ((∃ name, encodePlaces (rivalClasses.map some) = .error (.duplicate name)) ↔
      SharesName rivalClasses) ∧
    ∀ e, encodePlaces (rivalClasses.map some) = .error e ↔
      ∃ name, e = .duplicate name ∧ FirstShared rivalClasses name :=
  have h : rivalClasses.reverse.Perm rivalClasses := List.reverse_perm _
  ⟨h, bundles_ignore_order h⟩

end Bundle

end ClassEngine
