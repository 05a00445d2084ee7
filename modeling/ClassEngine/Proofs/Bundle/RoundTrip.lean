import Mathlib.Data.List.Forall2
import ClassEngine.Bundle.File
import ClassEngine.ClassPath.Source
import ClassEngine.Proofs.Bundle.Format
import ClassEngine.Proofs.Text.Order

/-!
Bundles hold the classes that are written to them. What is read back are the same classes by name,
up to the sign of a zero and the kind of what is not a number. Main statement:
`bundles_hold_classes`.
-/

namespace ClassEngine

/-! Equal up to what numbers cannot tell apart -/

/-- The same number, or no number on either side. -/
def Ieee.EqualValue (a b : UInt64) : Prop :=
  numEq a b ∨ isNaN a ∧ isNaN b

/-- The same constant, where floats count as the same when their numbers do. -/
inductive Constant.Alike : Constant → Constant → Prop
  | refl (k : Constant) : Alike k k
  | float {a b : UInt64} (h : Ieee.EqualValue a b) : Alike (.float a) (.float b)
  | double {a b : UInt64} (h : Ieee.EqualValue a b) : Alike (.double a) (.double b)

/-- The same class, entry for entry and field for field. -/
structure ClassFile.Alike (c d : ClassFile) : Prop where
  pool : List.Forall₂ Constant.Alike c.pool.toList d.pool.toList
  others : d = { c with pool := d.pool }

theorem Ieee.equalValue_packedBits (bits : UInt64) : EqualValue bits (Bundle.packedBits bits) := by
  rw [Bundle.packedBits]
  by_cases hnan : isNaN bits
  · rw [if_pos hnan]
    exact .inr ⟨hnan, by decide⟩
  · rw [if_neg hnan]
    by_cases hzero : isZero bits
    · rw [if_pos hzero]
      have hnone : isNaN 0 = false := by decide
      have hnull : isZero 0 = true := by decide
      exact .inl (by simp only [numEq, hnan, hzero, hnone, hnull, Bool.not_false, Bool.and_self,
        Bool.or_true])
    · rw [if_neg hzero]
      exact .inl (by simp [numEq, hnan])

theorem Constant.alike_packed (k : Constant) : Alike k k.packed := by
  cases k with
  | float bits => exact .float (Ieee.equalValue_packedBits bits)
  | double bits => exact .double (Ieee.equalValue_packedBits bits)
  | _ => exact .refl _

theorem ClassFile.alike_packed (c : ClassFile) : Alike c c.packed := by
  constructor
  · rw [ClassFile.packed, Array.toList_map, List.forall₂_map_right_iff]
    exact List.forall₂_same.mpr fun k _ => k.alike_packed
  · rfl

namespace Bundle

/-! The header -/

theorem length_littleEndian (width n : Nat) : (littleEndian width n).length = width := by
  induction width generalizing n with
  | zero => rfl
  | succ width ih => rw [littleEndian, List.length_cons, ih]

/-- A framed item is taken out of its frame. -/
theorem decode_frame {i : Cbor.Item} {places : List (Option ClassFile)}
    (h : (Cbor.decode i.encode).bind readPayload = some places) : decode (frame i) =
      (places.mapM named).map fun classes => sortClasses (classes.foldl addClass []) := by
  have hlength : ¬(frame i).length < 8 := by
    have hmagic : magic.length = 4 := rfl
    rw [frame, List.length_append, List.length_append, length_littleEndian, hmagic]
    omega
  have hmagic : (frame i).take 4 = magic := rfl
  have hversion : ofLittleEndian (((frame i).drop 4).take 4) = version := rfl
  have hitem : (frame i).drop 8 = i.encode := rfl
  rw [decode, if_neg hlength, hmagic, if_neg (by simp), hversion, if_neg (by simp), hitem, h]

/-! Sets of classes -/

section Classes

variable {classes : List ClassFile}

theorem duplicate?_eq_none (h : (classes.map ClassFile.name).Nodup) : duplicate? classes = none := by
  induction classes with
  | nil => rfl
  | cons a rest ih =>
      cases rest with
      | nil => rfl
      | cons b rest =>
          rw [List.map_cons, List.nodup_cons] at h
          have hne : a.name ≠ b.name := by
            intro heq
            exact h.1 (heq ▸ List.mem_cons_self)
          rw [duplicate?, if_neg hne, ih h.2]

/-- Classes with different names are all kept. -/
theorem foldl_addClass (found : List ClassFile) (h : ((found ++ classes).map ClassFile.name).Nodup) :
    classes.foldl addClass found = found ++ classes := by
  induction classes generalizing found with
  | nil => rw [List.foldl_nil, List.append_nil]
  | cons c rest ih =>
      have hnew : found.filter (fun d => d.name != c.name) = found := by
        rw [List.filter_eq_self]
        intro d hd
        rw [List.map_append, List.nodup_append] at h
        exact bne_iff_ne.mpr (h.2.2 _ (List.mem_map_of_mem hd) _ (by simp))
      rw [List.foldl_cons, addClass, hnew, ih _ (by simpa using h), List.append_assoc,
        List.singleton_append]

theorem mapM_named (h : ∀ c ∈ classes, c.name ≠ []) :
    (classes.map some).mapM named = .ok classes := by
  induction classes with
  | nil => rfl
  | cons c rest ih =>
      have hc : named (some c) = .ok c := by
        rw [named, if_neg (by simpa using h c List.mem_cons_self)]
      rw [List.map_cons, List.mapM_cons, hc, ih fun d hd => h d (List.mem_cons_of_mem c hd)]
      rfl

theorem encodePlaces_some (classes : List ClassFile) :
    encodePlaces (classes.map some) = encode classes := by
  have hall : (classes.map some).mapM id = some classes := by
    induction classes with
    | nil => rfl
    | cons c rest ih =>
        rw [List.map_cons, List.mapM_cons, ih]
        rfl
  rw [encodePlaces, hall]
  intro hnone
  cases classes <;> simp at hnone

/-- A set of classes has a bundle. -/
theorem encode_ok (h : (classes.map ClassFile.name).Nodup) :
    encode classes = .ok (frame (payloadItem ((sortClasses classes).map some))) := by
  have hnodup : ((sortClasses classes).map ClassFile.name).Nodup :=
    ((List.mergeSort_perm classes _).map ClassFile.name).nodup_iff.mpr h
  rw [encode, duplicate?_eq_none hnodup]

/-- What is read back of a sorted set of classes. -/
theorem decode_payload (hlength : classes.length ≤ Cbor.maxElements)
    (hsorted : classes.Pairwise fun a b => Text.blt a.name b.name)
    (hnodup : (classes.map ClassFile.name).Nodup) (hnamed : ∀ c ∈ classes, c.name ≠ [])
    (hpackable : ∀ c ∈ classes, c.Packable) :
    decode (frame (payloadItem (classes.map some))) = .ok (classes.map ClassFile.packed) := by
  have hitem : Cbor.decode (payloadItem (classes.map some)).encode =
      some (payloadItem (classes.map some)).settled :=
    Cbor.decode_encode (fits_payloadItem hlength hpackable : Cbor.Item.Fits (0 + 8) _) (by decide)
  have hread : (Cbor.decode (payloadItem (classes.map some)).encode).bind readPayload =
      some ((classes.map ClassFile.packed).map some) := by
    rw [hitem]
    exact readPayload_payloadItem hpackable
  have hpacked : ∀ c ∈ classes.map ClassFile.packed, c.name ≠ [] := by
    intro d hd
    obtain ⟨c, hc, rfl⟩ := List.mem_map.mp hd
    exact hnamed c hc
  have hnames : (classes.map ClassFile.packed).map ClassFile.name = classes.map ClassFile.name := by
    rw [List.map_map]
    rfl
  have hkept := foldl_addClass [] (show (([] ++ classes.map ClassFile.packed).map
    ClassFile.name).Nodup by rwa [List.nil_append, hnames])
  have hstays : sortClasses (classes.map ClassFile.packed) = classes.map ClassFile.packed :=
    Text.mergeSort_of_blt ClassFile.name (List.pairwise_map.mpr hsorted)
  rw [decode_frame hread, mapM_named hpacked]
  simp only [Except.map, hkept, List.nil_append, hstays]

end Classes

theorem eraseDups_of_nodup {names : List Text} (h : names.Nodup) : names.eraseDups = names := by
  induction names with
  | nil => rfl
  | cons n rest ih =>
      rw [List.nodup_cons] at h
      have hkept : rest.filter (fun m => !m == n) = rest := by
        rw [List.filter_eq_self]
        intro m hm
        exact bne_iff_ne.mpr fun heq => h.1 (heq ▸ hm)
      rw [List.eraseDups_cons, hkept, ih h.2]

/-- The names of strictly sorted classes are listed as they stand. -/
theorem names_memory {classes : List ClassFile} (label : Text) (t : FileTree) (cwd : Text)
    (h : classes.Pairwise fun a b => Text.blt a.name b.name) :
    (Source.memory label classes).names t cwd = .ok (classes.map ClassFile.name) := by
  have hnodup : (classes.map ClassFile.name).Nodup :=
    List.pairwise_map.mpr (h.imp Text.ne_of_blt)
  have hsorted : Text.sort (classes.map ClassFile.name) = classes.map ClassFile.name :=
    Text.mergeSort_of_blt id (List.pairwise_map.mpr h)
  rw [Source.names, eraseDups_of_nodup hnodup, hsorted]

/-- A set of classes comes out of its bundle in the order of the names. -/
theorem decode_encodePlaces {classes : List ClassFile} (hlength : classes.length ≤ Cbor.maxElements)
    (hnodup : (classes.map ClassFile.name).Nodup) (hnamed : ∀ c ∈ classes, c.name ≠ [])
    (hpackable : ∀ c ∈ classes, c.Packable) : ∃ bytes, encodePlaces (classes.map some) = .ok bytes ∧
      decode bytes = .ok ((sortClasses classes).map ClassFile.packed) := by
  have hperm : (sortClasses classes).Perm classes := List.mergeSort_perm _ _
  refine ⟨_, (encodePlaces_some classes).trans (encode_ok hnodup), ?_⟩
  apply decode_payload
  · rwa [hperm.length_eq]
  · exact Text.pairwise_mergeSort_blt ClassFile.name hnodup
  · exact (hperm.map _).nodup_iff.mpr hnodup
  · exact fun c hc => hnamed c (hperm.mem_iff.mp hc)
  · exact fun c hc => hpackable c (hperm.mem_iff.mp hc)

/-- What is written for classes with different names is read back as these classes, in the order of
their names. -/
theorem bundles_hold_classes (label : Text) {classes : List ClassFile}
    (hlength : classes.length ≤ Cbor.maxElements) (hnodup : (classes.map ClassFile.name).Nodup)
    (hnamed : ∀ c ∈ classes, c.name ≠ []) (hpackable : ∀ c ∈ classes, c.Packable) :
    ∃ bytes found, encodePlaces (classes.map some) = .ok bytes ∧ decode bytes = .ok found ∧
      (∃ sorted, sorted.Perm classes ∧ List.Forall₂ ClassFile.Alike sorted found) ∧
      found.Pairwise (fun a b => Text.blt a.name b.name) ∧
      ∀ t cwd, (Source.memory label found).names t cwd = .ok (found.map ClassFile.name) := by
  obtain ⟨bytes, hencode, hdecode⟩ := decode_encodePlaces hlength hnodup hnamed hpackable
  have hperm : (sortClasses classes).Perm classes := List.mergeSort_perm _ _
  have hsorted : ((sortClasses classes).map ClassFile.packed).Pairwise
      fun a b => Text.blt a.name b.name :=
    List.pairwise_map.mpr (Text.pairwise_mergeSort_blt ClassFile.name hnodup)
  have halike : List.Forall₂ ClassFile.Alike (sortClasses classes)
      ((sortClasses classes).map ClassFile.packed) := by
    rw [List.forall₂_map_right_iff]
    exact List.forall₂_same.mpr fun c _ => c.alike_packed
  refine ⟨bytes, _, hencode, hdecode, ?_, hsorted, ?_⟩
  · exact ⟨_, hperm, halike⟩
  · exact fun t cwd => names_memory label t cwd hsorted

/-- An interface, and a class with a body and with numbers that a bundle does not tell apart. -/
def shapeClasses : List ClassFile :=
  [{ minor := 0, major := 52, flags := ⟨0x21⟩, name := "Square", superName := "java/lang/Object"
     pool := #[.blank, .double 0x8000000000000000, .blank, .float 0x7FF0000000000001, .long (-7),
       .blank, .utf8 "side", .link .string 6 0, .foreign 2 1 1]
     interfaces := ["Shape"], fields := [⟨"side", "D", ⟨1⟩, 0⟩]
     methods := [⟨"area", "()D", ⟨1⟩, some ⟨2, 1, #[0x14, 0, 1, 0xAF], [⟨0, 3, 3, "Fault"⟩], [⟨0, 7⟩]⟩,
       ["Fault"]⟩]
     sourceFile := "Square.java" },
   { minor := 0, major := 52, flags := ⟨0x601⟩, name := "Shape", superName := "java/lang/Object"
     pool := #[], interfaces := [], fields := [], sourceFile := []
     methods := [⟨"area", "()D", ⟨0x401⟩, none, []⟩] }]

theorem shapeClasses_packable : ∀ c ∈ shapeClasses, c.Packable := by
  decide +kernel

theorem bundles_hold_classes_shapes : (shapeClasses.length ≤ Cbor.maxElements ∧
      (shapeClasses.map ClassFile.name).Nodup ∧ (∀ c ∈ shapeClasses, c.name ≠ []) ∧
      ∀ c ∈ shapeClasses, c.Packable) ∧
    ∃ bytes found, encodePlaces (shapeClasses.map some) = .ok bytes ∧ decode bytes = .ok found ∧
      (∃ sorted, sorted.Perm shapeClasses ∧ List.Forall₂ ClassFile.Alike sorted found) ∧
      found.Pairwise (fun a b => Text.blt a.name b.name) ∧
      ∀ t cwd, (Source.memory "shapes" found).names t cwd = .ok (found.map ClassFile.name) := by
  have hlength : shapeClasses.length ≤ Cbor.maxElements := by decide
  have hnodup : (shapeClasses.map ClassFile.name).Nodup := by decide
  have hnamed : ∀ c ∈ shapeClasses, c.name ≠ [] := by decide
  exact ⟨⟨hlength, hnodup, hnamed, shapeClasses_packable⟩,
    bundles_hold_classes "shapes" hlength hnodup hnamed shapeClasses_packable⟩

end Bundle

end ClassEngine
