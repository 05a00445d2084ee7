import ClassEngine.Proofs.Assembly.ControlFlow
import ClassEngine.Proofs.Assembly.Sources
import ClassEngine.Proofs.Engine.ClassTable

/-!
The records of classes that are built from a description. As long as no two members have the same
name, each is found in the record as it is described.
-/

namespace ClassEngine

namespace RuntimeClass

section Declaring

variable {α : Type} {same : α → α → Bool} {as items : List α}

/-- Items of different keys are all kept, in order. -/
theorem foldl_declare (h : (items ++ as).Pairwise fun a b => same b a = false) :
    as.foldl (declare same) items = items ++ as := by
  induction as generalizing items with
  | nil => simp
  | cons a as ih =>
      have hkept : declare same items a = items ++ [a] := by
        have hall : ∀ b ∈ items, !same a b := by
          intro b hb
          simpa using (List.pairwise_append.mp h).2.2 b hb a List.mem_cons_self
        rw [declare, List.filter_eq_self.mpr hall]
      rw [List.foldl_cons, hkept, ih (by simpa using h), List.append_assoc, List.singleton_append]

/-- What has a key of its own is found by its key. -/
theorem find?_of_nodup {κ : Type} {key : α → κ} {p : α → Bool} {a : α}
    (h : (items.map key).Nodup) (ha : a ∈ items) (hp : ∀ b, p b = true ↔ key b = key a) :
    items.find? p = some a := by
  obtain ⟨b, hb⟩ := Option.isSome_iff_exists.mp (List.find?_isSome.mpr ⟨a, ha, (hp a).mpr rfl⟩)
  have hkey := (hp b).mp (List.find?_some hb)
  rw [hb, List.inj_on_of_nodup_map h (List.mem_of_find?_eq_some hb) ha hkey]

/-- What comes from items with keys of their own is declared as it is. -/
theorem foldl_declare_of_nodup {κ : Type} {key : α → κ} (h : (as.map key).Nodup)
    (hsame : ∀ a b, same a b = true → key a = key b) : as.foldl (declare same) [] = as := by
  refine foldl_declare ((List.pairwise_map.mp h).imp fun {a b} hne => ?_)
  cases hba : same b a with
  | false => rfl
  | true => exact absurd (hsame b a hba).symm hne

end Declaring

section Related

variable {α β κ : Type} {R : α → β → Prop} {as : List α} {bs : List β}

theorem map_eq_of_forall₂ {f : α → κ} {g : β → κ} (h : List.Forall₂ R as bs)
    (hR : ∀ a b, R a b → g b = f a) : bs.map g = as.map f := by
  induction h with
  | nil => rfl
  | cons hab _ ih => rw [List.map_cons, List.map_cons, hR _ _ hab, ih]

theorem exists_of_forall₂ (h : List.Forall₂ R as bs) {a : α} (ha : a ∈ as) : ∃ b ∈ bs, R a b := by
  induction h with
  | nil => contradiction
  | @cons a' b' as bs hab _ ih =>
      rcases List.mem_cons.mp ha with rfl | ha
      · exact ⟨b', List.mem_cons_self, hab⟩
      · obtain ⟨b, hb, hR⟩ := ih ha
        exact ⟨b, List.mem_cons_of_mem b' hb, hR⟩

end Related

/-- The record is that of a class which is built from a description. -/
def IsBuiltFrom (c : RuntimeClass) (s : ClassSource) : Prop :=
  ∃ file c₀, s.build = .ok file ∧ ofFile (Descriptor.ofInternal s.name) file = .ok c₀ ∧
    c.DefinedBy c₀

end RuntimeClass

/-- No two fields have the same name, no two methods the same name and descriptor, and the pool has
room for everything. -/
structure ClassSource.IsOrderly (s : ClassSource) : Prop where
  fields : (s.fields.map (·.name)).Nodup
  methods : (s.methods.map fun m => (m.name, m.descriptor)).Nodup
  weight : s.weight ≤ Builder.maxEntries

/-- The method is the one that a class is described with. -/
structure Method.IsDescribedBy (method : Method) (s : ClassSource) (m : MethodSource) : Prop where
  owner : method.owner = Descriptor.ofInternal s.name
  ownerName : method.ownerName = Descriptor.className (Descriptor.ofInternal s.name)
  name : method.name = m.name
  descriptor : method.descriptor = m.descriptor
  flags : method.flags = m.declaredFlags
  body : m.body.Gives (fun k i => k.ReadAt method.file i) method.code
  signature : Signature.parse m.descriptor = .ok method.signature

namespace RuntimeClass

variable {c : RuntimeClass} {s : ClassSource}

theorem IsBuiltFrom.descriptor (h : c.IsBuiltFrom s) :
    c.descriptor = Descriptor.ofInternal s.name := by
  obtain ⟨file, c₀, -, hfile, hdefined⟩ := h
  rw [hdefined.descriptor, (isNew_ofFile hfile).descriptor]

theorem IsBuiltFrom.name (h : c.IsBuiltFrom s) :
    c.name = Descriptor.className (Descriptor.ofInternal s.name) := by
  obtain ⟨file, c₀, -, hfile, hdefined⟩ := h
  obtain ⟨_, _, -, rfl⟩ := ofFile_eq_ok hfile
  rw [hdefined]
  rfl

theorem bindMethod_eq_ok {d : Descriptor} {file : ClassFile} {info : MethodInfo} {m : Method}
    (h : bindMethod d file info = .ok m) :
    ∃ signature, Signature.parse info.descriptor = .ok signature ∧
      m = ⟨d, Descriptor.className d, info.name, info.descriptor, info.flags, info.code, signature,
        file⟩ := by
  rw [bindMethod] at h
  split at h
  case h_1 signature hparse => exact ⟨signature, hparse, (Except.ok.inj h).symm⟩
  case h_2 => contradiction

/-- A method is found by its name and descriptor. -/
theorem IsBuiltFrom.declaredMethod? (h : c.IsBuiltFrom s) (hs : s.IsOrderly) {m : MethodSource}
    (hm : m ∈ s.methods) :
    ∃ method, c.declaredMethod? m.name m.descriptor = some method ∧ method.IsDescribedBy s m := by
  obtain ⟨file, c₀, hbuild, hfile, hdefined⟩ := h
  obtain ⟨fields, methods, hmethods, rfl⟩ := ofFile_eq_ok hfile
  have hdeclares := (ClassSource.build_declares hbuild hs.weight).2
  have hbound : List.Forall₂ (fun info m => bindMethod (Descriptor.ofInternal s.name) file info = .ok m)
      file.methods methods := Directive.mapM_forall₂ (fun _ _ _ h => h) hmethods
  obtain ⟨info, hinfo, hname, hdescriptor, hflags, hbody⟩ := exists_of_forall₂ hdeclares hm
  obtain ⟨method, hmethod, hbind⟩ := exists_of_forall₂ hbound hinfo
  have hkeys : methods.map (fun m => (m.name, m.descriptor)) =
      s.methods.map fun m => (m.name, m.descriptor) := by
    refine (map_eq_of_forall₂ (f := fun info => (info.name, info.descriptor)) hbound ?_).trans
      (map_eq_of_forall₂ hdeclares fun m info hm => by rw [hm.name, hm.descriptor])
    intro info m hm
    obtain ⟨signature, -, rfl⟩ := bindMethod_eq_ok hm
    rfl
  have hnodup : (methods.map fun m => (m.name, m.descriptor)).Nodup := hkeys ▸ hs.methods
  have hall : methods.foldl (declare Method.same) [] = methods := by
    refine foldl_declare_of_nodup hnodup fun a b hab => ?_
    simp only [Method.same, Bool.and_eq_true, beq_iff_eq] at hab
    rw [hab.1.1, hab.1.2]
  obtain ⟨signature, hsignature, rfl⟩ := bindMethod_eq_ok hbind
  rw [hdescriptor] at hsignature
  refine ⟨⟨_, _, info.name, info.descriptor, info.flags, info.code, signature, file⟩, ?_,
    ⟨rfl, rfl, hname, hdescriptor, hflags, hbody, hsignature⟩⟩
  rw [RuntimeClass.declaredMethod?, hdefined]
  change (methods.foldl (declare Method.same) []).find? _ = _
  rw [hall]
  exact find?_of_nodup hnodup hmethod fun b => by simp [hname, hdescriptor]

/-- The fields of a record are those of its file. -/
theorem ofFile_fields {d : Descriptor} {file : ClassFile} {c : RuntimeClass}
    (h : ofFile d file = .ok c) :
    c.fields = file.fields.foldl (declare fun a b => a.name == b.name) [] := by
  obtain ⟨fields, hfields, h⟩ := Assemble.of_except_bind_ok h
  obtain ⟨methods, -, h⟩ := Assemble.of_except_bind_ok h
  have hsame : List.Forall₂ Eq file.fields fields := by
    refine Directive.mapM_forall₂ (fun f _ g hg => ?_) hfields
    rw [checkField] at hg
    split at hg
    · exact Except.ok.inj hg
    · contradiction
  rw [List.forall₂_eq_eq_eq] at hsame
  rw [← Except.ok.inj h, hsame]

/-- A field is found by its name. -/
theorem IsBuiltFrom.declaredField? (h : c.IsBuiltFrom s) (hs : s.IsOrderly) {f : FieldSource}
    (hf : f ∈ s.fields) :
    ∃ field, c.declaredField? f.name = some field ∧ field.descriptor = f.descriptor := by
  obtain ⟨file, c₀, hbuild, hfile, hdefined⟩ := h
  have hdeclares := (ClassSource.build_declares hbuild hs.weight).1
  obtain ⟨field, hfield, hname, hdescriptor⟩ := exists_of_forall₂ hdeclares hf
  have hnodup : (file.fields.map (·.name)).Nodup := by
    rw [map_eq_of_forall₂ (f := fun s : FieldSource => s.name) hdeclares fun _ _ hf => hf.1]
    exact hs.fields
  have hfields : c.fields = file.fields := by
    rw [hdefined]
    refine (ofFile_fields hfile).trans (foldl_declare_of_nodup hnodup fun a b hab => ?_)
    exact eq_of_beq hab
  refine ⟨field, ?_, hdescriptor⟩
  rw [RuntimeClass.declaredField?, hfields]
  exact find?_of_nodup hnodup hfield fun b => by simp [hname]

theorem exists_of_isOk {ε α : Type} {x : Except ε α} (h : x.isOk = true) : ∃ a, x = .ok a := by
  cases x with
  | ok a => exact ⟨a, rfl⟩
  | error e => contradiction

theorem mapM_succeeds {ε α β : Type} {f : α → Except ε β} {as : List α}
    (h : ∀ a ∈ as, ∃ b, f a = .ok b) : ∃ bs, as.mapM f = .ok bs := by
  induction as with
  | nil => exact ⟨[], rfl⟩
  | cons a as ih =>
      obtain ⟨b, hb⟩ := h a List.mem_cons_self
      obtain ⟨bs, hbs⟩ := ih fun a' ha' => h a' (List.mem_cons_of_mem a ha')
      refine ⟨b :: bs, ?_⟩
      rw [List.mapM_cons, hb, Assemble.except_bind_of_ok rfl, hbs]
      rfl

/-- A class that is built from a description has a record if the types of its members are well
formed. -/
theorem exists_ofFile {s : ClassSource} {file : ClassFile} (hbuild : s.build = .ok file)
    (hroom : s.weight ≤ Builder.maxEntries) (d : Descriptor)
    (hfields : ∀ f ∈ s.fields, (Descriptor.parseType f.descriptor).isOk = true)
    (hmethods : ∀ m ∈ s.methods, (Signature.parse m.descriptor).isOk = true) :
    ∃ c, ofFile d file = .ok c := by
  obtain ⟨hfieldsAre, hmethodsAre⟩ := ClassSource.build_declares hbuild hroom
  obtain ⟨fields, hfields⟩ : ∃ fields, file.fields.mapM (checkField d) = .ok fields := by
    refine mapM_succeeds fun f hf => ?_
    obtain ⟨source, hsource, -, hdescriptor⟩ := exists_of_forall₂ hfieldsAre.flip hf
    obtain ⟨t, ht⟩ := exists_of_isOk (hfields source hsource)
    exact ⟨f, by rw [checkField, hdescriptor, ht]⟩
  obtain ⟨methods, hmethods⟩ : ∃ methods, file.methods.mapM (bindMethod d file) = .ok methods := by
    refine mapM_succeeds fun info hinfo => ?_
    obtain ⟨source, hsource, hdeclares⟩ := exists_of_forall₂ hmethodsAre.flip hinfo
    obtain ⟨signature, hsignature⟩ := exists_of_isOk (hmethods source hsource)
    exact ⟨_, by rw [bindMethod, hdeclares.descriptor, hsignature]⟩
  exact ⟨_, (Assemble.except_bind_of_ok hfields).trans (Assemble.except_bind_of_ok hmethods)⟩

end RuntimeClass

end ClassEngine
