import ClassEngine.Cbor.Reader
import ClassEngine.Proofs.Cbor.RoundTrip
import ClassEngine.Proofs.Text.Transcoding

/-!
Records: maps from names to items. They are written with their keys in canonical order, which a
reader of named fields does not notice, and a field that was left out reads as null.
-/

namespace ClassEngine

namespace Cbor

open Item

/-- What comes back of a record is the record of what comes back of its fields. -/
theorem settled_record (fields : List (Text × Item)) :
    (record fields).settled = record (fields.map fun p => (p.1, p.2.settled)) := by
  have hsort := List.map_mergeSort (r := fun a b : Text × Item => keyBle a.1 b.1)
    (s := fun a b : Text × Item => keyBle a.1 b.1) (f := fun p => (p.1, p.2.settled)) (l := fields)
    (fun _ _ _ _ => rfl)
  rw [record, settled, settledPairs_eq, record, ← hsort, List.map_map, List.map_map]
  rfl

theorem fits_record {room : Nat} {fields : List (Text × Item)}
    (hlength : fields.length ≤ maxElements) (hkeys : ∀ p ∈ fields, p.1.length < 2 ^ 64)
    (hvalues : ∀ p ∈ fields, p.2.Fits room) : (record fields).Fits (room + 1) := by
  refine .map (by simpa using hlength) ?_ ?_
  · intro p hp
    obtain ⟨q, hq, rfl⟩ := List.mem_map.mp hp
    exact .string (hkeys q (List.mem_mergeSort.mp hq))
  · intro p hp
    obtain ⟨q, hq, rfl⟩ := List.mem_map.mp hp
    exact hvalues q (List.mem_mergeSort.mp hq)

/-- Where no key occurs twice, the order of the fields makes no difference. -/
theorem lookup_of_perm {fields fields' : List (Text × Item)} (h : fields.Perm fields')
    (hnodup : (fields.map Prod.fst).Nodup) (name : Text) :
    fields.lookup name = fields'.lookup name := by
  induction h with
  | nil => rfl
  | cons p _ ih =>
      rw [List.map_cons, List.nodup_cons] at hnodup
      rw [List.lookup_cons, List.lookup_cons, ih hnodup.2]
  | swap p q rest =>
      simp only [List.map_cons, List.nodup_cons, List.mem_cons, not_or] at hnodup
      rw [List.lookup_cons, List.lookup_cons, List.lookup_cons, List.lookup_cons]
      by_cases hp : name = p.1
      · have hq : name ≠ q.1 := hp ▸ Ne.symm hnodup.1.1
        simp [hp, beq_eq_false_iff_ne.mpr (hp ▸ hq)]
      · simp [beq_eq_false_iff_ne.mpr hp]
  | trans h₁ _ ih₁ ih₂ =>
      rw [ih₁ hnodup, ih₂ ((h₁.map Prod.fst).nodup_iff.mp hnodup)]

theorem lookup_eq_none_of_not_mem {fields : List (Text × Item)} {name : Text}
    (h : name ∉ fields.map Prod.fst) : fields.lookup name = none := by
  rw [List.lookup_eq_none_iff]
  intro p hp
  exact bne_iff_ne.mpr fun heq => h (List.mem_map.mpr ⟨p, hp, heq.symm⟩)

/-- A new key that names a field is added under that name. -/
theorem addField_new {names : List Text} {found : List (Text × Item)} {key : Text} (value : Item)
    (hkey : key ∈ names) (hvalid : Utf8.isValid key) (hnew : key ∉ found.map Prod.fst) :
    addField names found (string key) value = some ((key, value) :: found) := by
  have hfree : key ∈ names.filter fun n => (found.lookup n).isNone :=
    List.mem_filter.mpr ⟨hkey, by rw [lookup_eq_none_of_not_mem hnew]; rfl⟩
  have hfind : (names.filter fun n => (found.lookup n).isNone).find? (· == key) = some key := by
    cases h : (names.filter fun n => (found.lookup n).isNone).find? (· == key) with
    | none => exact absurd (List.find?_eq_none.mp h key hfree) (by simp)
    | some n =>
        have hn := List.find?_some h
        rw [beq_iff_eq.mp hn]
  simp [addField, string, hvalid, hfind]

/-- Fields with different names are all found. -/
theorem foldlM_addField {names : List Text} {fields : List (Text × Item)}
    (hnames : ∀ p ∈ fields, p.1 ∈ names ∧ Utf8.isValid p.1)
    (hnodup : (fields.map Prod.fst).Nodup) (found : List (Text × Item))
    (hnew : ∀ p ∈ fields, p.1 ∉ found.map Prod.fst) :
    (fields.map fun p => (string p.1, p.2)).foldlM (fun found (k, v) => addField names found k v)
      found = some (fields.reverse ++ found) := by
  induction fields generalizing found with
  | nil => rfl
  | cons p fields ih =>
      rw [List.map_cons, List.nodup_cons] at hnodup
      obtain ⟨hname, hvalid⟩ := hnames p List.mem_cons_self
      have hstep := addField_new p.2 hname hvalid (hnew p List.mem_cons_self)
      have hnew' : ∀ q ∈ fields, q.1 ∉ ((p.1, p.2) :: found).map Prod.fst := by
        intro q hq
        rw [List.map_cons, List.mem_cons, not_or]
        refine ⟨?_, hnew q (List.mem_cons_of_mem p hq)⟩
        rintro (heq : q.1 = p.1)
        exact hnodup.1 (heq ▸ List.mem_map_of_mem hq)
      rw [List.map_cons, List.foldlM_cons]
      simp only [hstep, Option.bind_eq_bind, Option.bind_some,
        ih (fun q hq => hnames q (List.mem_cons_of_mem p hq)) hnodup.2 _ hnew', List.reverse_cons,
        List.append_assoc, List.singleton_append]

/-- The fields of a record are found by name, and those that were left out are null. -/
theorem toFields?_record {names : List Text} {fields : List (Text × Item)}
    (hkeys : (fields.map Prod.fst).Sublist names) (hnodup : names.Nodup)
    (hvalid : ∀ n ∈ names, Utf8.isValid n) :
    ∃ found, (record fields).toFields? names = some found ∧
      ∀ name, field found name = field fields name := by
  let sorted := fields.mergeSort fun a b => keyBle a.1 b.1
  have hperm : sorted.Perm fields := List.mergeSort_perm _ _
  have hfields : (fields.map Prod.fst).Nodup := hnodup.sublist hkeys
  have hsorted : (sorted.map Prod.fst).Nodup := (hperm.map Prod.fst).nodup_iff.mpr hfields
  have hnames : ∀ p ∈ sorted, p.1 ∈ names ∧ Utf8.isValid p.1 := by
    intro p hp
    have hmem := hkeys.subset (List.mem_map_of_mem (hperm.mem_iff.mp hp))
    exact ⟨hmem, hvalid _ hmem⟩
  have hfold := foldlM_addField hnames hsorted [] (by simp)
  refine ⟨sorted.reverse ++ [], hfold, ?_⟩
  intro name
  have hreverse : sorted.reverse.Perm fields := sorted.reverse_perm.trans hperm
  rw [List.append_nil, field, field, lookup_of_perm hreverse
    ((hreverse.map Prod.fst).nodup_iff.mpr hfields)]

/-! Typed values -/

section Values

@[simp] theorem isNull_null : null.isNull = true := rfl

@[simp] theorem toText?_string {t : Text} (h : Utf8.isValid t) : (string t).toText? = some t := by
  simp [toText?, content?, string, h]

@[simp] theorem toText?_null : null.toText? = some [] := rfl

theorem toIntWithin?_uint {lo hi : Int} {n : Nat} (hlo : lo ≤ 0) (hhi : n ≤ hi) :
    (uint n).toIntWithin? lo hi = some (n : Int) := by
  have hint : (uint n).toInt? = some (n : Int) := rfl
  rw [toIntWithin?, hint]
  exact if_pos ⟨by omega, hhi⟩

@[simp] theorem toUInt8?_uint (v : UInt8) : (uint v.toNat).toUInt8? = some v := by
  have hv := v.toNat_lt
  rw [toUInt8?, toIntWithin?_uint (by decide) (by omega)]
  exact congrArg some UInt8.ofNat_toNat

@[simp] theorem toUInt16?_uint (v : UInt16) : (uint v.toNat).toUInt16? = some v := by
  have hv := v.toNat_lt
  rw [toUInt16?, toIntWithin?_uint (by decide) (by omega)]
  exact congrArg some UInt16.ofNat_toNat

@[simp] theorem toUInt16?_null : null.toUInt16? = some 0 := rfl

@[simp] theorem toInt64?_ofInt (v : Int64) : (ofInt v.toInt).toInt64? = some v := by
  have hlo := v.minValue_le_toInt
  have hhi := v.toInt_le
  have hint : (ofInt v.toInt).toInt? = some v.toInt := by
    cases hv : v.toInt with
    | ofNat n => rfl
    | negSucc n =>
        have hsmall : n < 0x8000000000000000 := by
          rw [hv] at hlo
          simp at hlo
          omega
        rw [ofInt, toInt?]
        simp only [content?, Option.bind_eq_bind, Option.bind_some, if_pos hsmall]
        rw [Int.negSucc_eq]
        congr 1
        omega
  rw [toInt64?, toIntWithin?, hint]
  simp only [Option.bind_eq_bind, Option.bind_some]
  rw [if_pos ⟨hlo, hhi⟩, Option.bind_some, Int64.ofInt_toInt]

@[simp] theorem toInt64?_null : null.toInt64? = some 0 := rfl

@[simp] theorem toDouble?_float (bits : UInt64) : (float bits).toDouble? = some bits := rfl

@[simp] theorem toDouble?_null : null.toDouble? = some 0 := by
  decide +kernel

@[simp] theorem toBytes?_bytes (bs : Text) : (bytes bs).toBytes? = some bs := rfl

theorem mapM_map {α : Type} {f : Item → Option α} {g : α → Item} {values : List α}
    (h : ∀ a ∈ values, f (g a) = some a) : (values.map g).mapM f = some values := by
  induction values with
  | nil => rfl
  | cons a values ih =>
      rw [List.map_cons, List.mapM_cons, h a List.mem_cons_self,
        ih fun b hb => h b (List.mem_cons_of_mem a hb)]
      rfl

/-- A sequence of values is read back value by value. -/
theorem toList?_array {α : Type} {f : Item → Option α} {g : α → Item} {values : List α}
    (h : ∀ a ∈ values, f (g a) = some a) : (array (values.map g)).toList? f = some values :=
  mapM_map h

@[simp] theorem toList?_null {α : Type} (f : Item → Option α) : null.toList? f = some [] := rfl

end Values

end Cbor

end ClassEngine
