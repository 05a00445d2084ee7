import Mathlib.Data.List.Nodup
import ClassEngine.Proofs.Engine.BuiltClasses
import ClassEngine.Proofs.Engine.Resolution

/-!
Instances as they are made: one slot for each instance field of the class and its superclasses, at
the default of its type. The slots go by the names of the declaring class and of the field, and so
fields that hide each other have slots of their own. Main result: `newObject_slots`.
-/

namespace ClassEngine

open Machine Exec Linking Allocation

namespace RuntimeClass

/-- The fields in the file of a class. -/
def fileFields (c : RuntimeClass) : List Field :=
  c.file.elim [] ClassFile.fields

/-- The instance fields that a class declares. -/
def instanceFields (c : RuntimeClass) : List Field :=
  c.fileFields.filter fun f => !f.isStatic

/-- Their slots in a new instance. -/
def slots (c : RuntimeClass) : List (FieldKey × Value) :=
  c.instanceFields.map fun f => (⟨c.name, f.name⟩, Value.default f.descriptor)

/-- No two fields that a class declares have the same name. -/
def DeclaresOnce (c : RuntimeClass) : Prop :=
  (c.fileFields.map Field.name).Nodup

end RuntimeClass

section Slots

variable {slots : List (FieldKey × Value)} {key : FieldKey} {v : Value} {c : RuntimeClass}
  {records : List RuntimeClass}

theorem setSlot_of_new (h : key ∉ slots.map Prod.fst) :
    Object.setSlot key v slots = slots ++ [(key, v)] := by
  induction slots with
  | nil => rfl
  | cons slot slots ih =>
      rw [List.map_cons, List.mem_cons, not_or] at h
      rw [Object.setSlot, if_neg (Ne.symm h.1), ih h.2]
      rfl

/-- Slots with keys of their own are added as they are. -/
theorem foldl_setSlot {added : List (FieldKey × Value)}
    (h : ((slots ++ added).map Prod.fst).Nodup) :
    added.foldl (fun slots slot => Object.setSlot slot.1 slot.2 slots) slots = slots ++ added := by
  induction added generalizing slots with
  | nil => exact (List.append_nil slots).symm
  | cons slot added ih =>
      have hnew : slot.1 ∉ slots.map Prod.fst := by
        rw [List.map_append, List.nodup_append] at h
        exact fun hmem => h.2.2 _ hmem _ List.mem_cons_self rfl
      rw [List.foldl_cons, setSlot_of_new hnew, ih (by rwa [List.append_assoc]), List.append_assoc]
      rfl

theorem instanceOfChain_fields (d : Descriptor) (records : List RuntimeClass) :
    (instanceOfChain d records).fields = (records.flatMap RuntimeClass.slots).foldl
      (fun slots slot => Object.setSlot slot.1 slot.2 slots) [] := by
  have hclass : ∀ (owner : Text) (fields : List Field) (o : Object),
      (fields.foldl (fun o f => o.setField owner f.name (Value.default f.descriptor)) o).fields =
        (fields.map fun f => ((⟨owner, f.name⟩ : FieldKey), Value.default f.descriptor)).foldl
          (fun slots slot => Object.setSlot slot.1 slot.2 slots) o.fields := by
    intro owner fields
    induction fields with
    | nil => exact fun o => rfl
    | cons f fields ih => exact fun o => ih _
  change _ = List.foldl _ (Object.empty d).fields _
  unfold instanceOfChain
  generalize Object.empty d = o
  induction records generalizing o with
  | nil => rfl
  | cons c records ih =>
      rw [List.foldl_cons, List.flatMap_cons, List.foldl_append, ih]
      congr 1
      rw [RuntimeClass.slots, RuntimeClass.instanceFields, RuntimeClass.fileFields]
      cases c.file with
      | none => rfl
      | some file => exact hclass c.name _ o

theorem nodup_slots (honce : c.DeclaresOnce) : (c.slots.map Prod.fst).Nodup := by
  have hnames : (c.instanceFields.map Field.name).Nodup :=
    honce.sublist (List.filter_sublist.map _)
  rw [RuntimeClass.slots, List.map_map]
  refine List.Nodup.of_map FieldKey.name ?_
  rwa [List.map_map]

theorem of_mem_slots {slot : FieldKey × Value} (h : slot ∈ c.slots) :
    slot.1.owner = c.name ∧ c.file.isSome = true := by
  obtain ⟨f, hf, rfl⟩ := List.mem_map.mp h
  refine ⟨rfl, ?_⟩
  rw [RuntimeClass.instanceFields, RuntimeClass.fileFields] at hf
  cases hfile : c.file with
  | none => simp [hfile] at hf
  | some file => rfl

/-- Classes with different names have slots with different keys. -/
theorem nodup_flatMap_slots (hapart : records.Pairwise RuntimeClass.NamedApart)
    (honce : ∀ c ∈ records, c.DeclaresOnce) :
    ((records.flatMap RuntimeClass.slots).map Prod.fst).Nodup := by
  rw [List.map_flatMap, List.nodup_flatMap]
  refine ⟨fun c hc => nodup_slots (honce c hc), hapart.imp fun {c c'} h => ?_⟩
  intro key hkey hkey'
  obtain ⟨slot, hslot, rfl⟩ := List.mem_map.mp hkey
  obtain ⟨slot', hslot', heq⟩ := List.mem_map.mp hkey'
  obtain ⟨hname, hfile⟩ := of_mem_slots hslot
  obtain ⟨hname', hfile'⟩ := of_mem_slots hslot'
  exact h hfile hfile' (by rw [← hname, ← hname', heq])

theorem instanceOfChain_slots (d : Descriptor) (hapart : records.Pairwise RuntimeClass.NamedApart)
    (honce : ∀ c ∈ records, c.DeclaresOnce) :
    (instanceOfChain d records).fields = records.flatMap RuntimeClass.slots := by
  rw [instanceOfChain_fields, foldl_setSlot (nodup_flatMap_slots hapart honce), List.nil_append]

theorem lookup_of_mem (hnodup : (slots.map Prod.fst).Nodup) (h : (key, v) ∈ slots) :
    slots.lookup key = some v := by
  obtain ⟨before, after, rfl⟩ := List.append_of_mem h
  refine List.lookup_eq_some_iff.mpr ⟨before, after, rfl, fun slot hslot => ?_⟩
  rw [List.map_append, List.nodup_append] at hnodup
  rw [bne_iff_ne]
  exact Ne.symm (hnodup.2.2 _ (List.mem_map_of_mem hslot) _ List.mem_cons_self)

/-- An instance field of the class or of a superclass has its own slot, with the default of its
type. -/
theorem lookup_instanceOfChain {d : Descriptor} {f : Field}
    (hapart : records.Pairwise RuntimeClass.NamedApart) (honce : ∀ c ∈ records, c.DeclaresOnce)
    (hc : c ∈ records) (hf : f ∈ c.instanceFields) :
    (instanceOfChain d records).fields.lookup ⟨c.name, f.name⟩ =
      some (Value.default f.descriptor) := by
  rw [instanceOfChain_slots d hapart honce]
  exact lookup_of_mem (nodup_flatMap_slots hapart honce)
    (List.mem_flatMap_of_mem hc (List.mem_map_of_mem hf))

end Slots

section Making

variable {host : Host} {ctx : Context} {m : Machine} {t : ClassTable} {path : List Descriptor}
  {d : Descriptor} {c : RuntimeClass}

/-- All that is above a linked class is linked. -/
theorem ClassTable.Ancestry.linked {chain : List Descriptor} {names : List Text}
    (h : t.Ancestry d chain names) (ht : t.Sound host path) (hd : t.Linked d) :
    ∀ k ∈ chain, t.Linked k := by
  induction h with
  | root _ _ => exact fun k hk => List.mem_singleton.mp hk ▸ hd
  | @super d s c chain names hc hs hrest ih =>
      refine List.forall_mem_cons.mpr ⟨hd, ih ?_⟩
      obtain ⟨c', hc', hstate⟩ := hd
      exact (ht.linked hc' hstate).super hc hs

/-- A class that declares the names of its fields once has its fields from its file. -/
theorem ClassTable.Sound.fields (h : t.Sound host path) (hc : t[d]? = some c)
    (honce : c.DeclaresOnce) : c.fields = c.fileFields := by
  obtain ⟨c₀, hc₀, hdefined⟩ := h.defined hc
  have hfile : c.file = c₀.file := by rw [hdefined]
  have hfields : c.fields = c₀.fields := by rw [hdefined]
  rw [RuntimeClass.DeclaresOnce, RuntimeClass.fileFields, hfile] at honce
  rw [hfields, RuntimeClass.fileFields, hfile]
  rcases define_eq_ok hc₀ with rfl | ⟨_, file, _, _, hof⟩
  · rfl
  · have hsome : c₀.file = some file := by
      obtain ⟨_, _, _, rfl⟩ := RuntimeClass.ofFile_eq_ok hof
      rfl
    rw [hsome] at honce ⊢
    exact (RuntimeClass.ofFile_fields hof).trans (RuntimeClass.foldl_declare_of_nodup honce fun a b hab => eq_of_beq hab)

/-- An instance of a linked class is made, unless there is not enough fuel to look at all its
superclasses: it has one slot for each instance field, and no others. -/
theorem newObject_slots {chain : List Descriptor} {names : List Text} (hinv : m.Inv host)
    (hd : m.classes.Linked d) (hchain : m.classes.Ancestry d chain names)
    (hfuel : chain.length ≤ ctx.fuel)
    (honce : ∀ k ∈ chain, ∀ c, m.classes[k]? = some c → c.DeclaresOnce) :
    ∃ records o m', m.classes.RecordsOf chain records ∧
      newObject d ctx m = .ok ⟨m.heap.size + 1⟩ m' ∧ m'.heap = m.heap.push o ∧ o.type = d ∧
      o.fields = records.flatMap RuntimeClass.slots ∧ (o.fields.map Prod.fst).Nodup := by
  obtain ⟨records, hancestry, hrecords, _⟩ : ∃ records, ancestry d ctx m = .ok records m ∧
      m.classes.RecordsOf chain records ∧ _ := ancestryWithin_of_ancestry hchain hfuel
  have hapart : records.Pairwise RuntimeClass.NamedApart := by
    have hnamed := hchain.namedApart hinv.table (hchain.linked hinv.table hd)
    rw [← hrecords.descriptors hinv.table, List.pairwise_map] at hnamed
    exact hnamed.imp_of_mem fun hc hc' h =>
      h _ _ (hrecords.record hinv.table hc) (hrecords.record hinv.table hc')
  have hdeclared : ∀ c ∈ records, c.DeclaresOnce := by
    intro c hc
    refine honce c.descriptor ?_ c (hrecords.record hinv.table hc)
    rw [← hrecords.descriptors hinv.table]
    exact List.mem_map_of_mem hc
  have hslots := instanceOfChain_slots d hapart hdeclared
  obtain ⟨slots, hinstance⟩ := instanceOfChain_eq d records
  refine ⟨records, instanceOfChain d records, _, hrecords, newObject_of_ancestry hancestry, rfl,
    by rw [hinstance]; rfl, hslots, ?_⟩
  rw [hslots]
  exact nodup_flatMap_slots hapart hdeclared

end Making

end ClassEngine
