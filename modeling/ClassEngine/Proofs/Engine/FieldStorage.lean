import ClassEngine.Proofs.Engine.CallConvention
import ClassEngine.Proofs.Engine.FieldAccesses
import ClassEngine.Proofs.Engine.Instances
import ClassEngine.Proofs.Engine.NarrowResults
import ClassEngine.Proofs.Engine.Reporting

/-!
Storage of instance fields. A field instruction records which field of which object it uses, and the
class that the search for the field has found. Main result: `fields_hold_last_stored`, what is read
of a field of an instance is what was last stored in it, by whatever reference that leads to the same
class, or else the default of its type.
-/

namespace ClassEngine

open Machine Exec Linking Resolution Allocation

section Instructions

open Reference

variable {ctx : Context} {m m' : Machine} {g : Frame} {callers : List Frame}

theorem of_popOwner_ok {ref : MemberRef} {r : Ref} (h : popOwner ref ctx m = .ok r m')
    (hframes : m.frames = g :: callers) :
    ∃ rest, g.stack = .ref r :: rest ∧ m'.frames = { g with stack := rest } :: callers := by
  obtain ⟨popped, m₁, hpop, h⟩ := of_bind_ok h
  obtain ⟨g₁, hpopRef, hframes₁⟩ := onFrame_ok hframes hpop
  obtain ⟨rest, hstack, rfl⟩ := FrameM.of_popRef_ok hpopRef
  cases popped with
  | none => exact absurd h (throwNew_ne_ok _ _ _ _ _)
  | some r' =>
      obtain ⟨rfl, rfl⟩ := EStateM.Result.ok.inj h
      exact ⟨rest, hstack, hframes₁⟩

theorem onFrame_moments {α : Type} {x : FrameM α} {a : α} (h : onFrame x ctx m = .ok a m') :
    m'.moments = m.moments := by
  obtain ⟨_, _, _, _, _, rfl⟩ := of_onFrame_ok h
  rfl

variable (ctx) in
/-- A field instruction has come to its end: the search from the class that it names has found the
class with the field, and of what it did last a record was kept. -/
structure Machine.HasUsed (m : Machine) (f : FieldAccess) (a : Access) : Prop where
  found : ∃ m₁ m₂, fieldOwner f.ref ctx m₁ = .ok f.owner m₂
  recorded : ∃ s, m.moments.val.head? = some s ∧ s.access = some a

variable [RespectingContext .sameFrames ctx]

/-- What is pushed by an instruction that reads a field of the object on top of its stack. -/
theorem getField_reads (h : getField ctx m = .ok () m') (hframes : m.frames = g :: callers) :
    ∃ f v rest, g.stack = .ref f.object :: rest ∧
      m'.frames = { g with stack := v :: rest, pc := g.pc + 2 } :: callers ∧
      m'.HasUsed ctx f (.read f v) := by
  obtain ⟨ref, m₁, href, h⟩ := of_bind_ok h
  obtain ⟨r, m₂, hpop, h⟩ := of_bind_ok h
  obtain ⟨owner, m₃, howner, h⟩ := of_bind_ok h
  obtain ⟨v, m₄, hread, hpush⟩ := of_bind_ok h
  obtain ⟨rest, hstack, hframes₂⟩ := of_popOwner_ok hpop (memberRef_frames href hframes)
  have hframes₃ := frames_of_respects (respects_fieldOwner ref) howner hframes₂
  obtain ⟨o, m₅, hobject, hmark⟩ := of_bind_ok hread
  have hframes₅ := frames_of_respects (respects_objectAt r) hobject hframes₃
  obtain ⟨rfl, rfl⟩ := EStateM.Result.ok.inj hmark
  let f : FieldAccess := ⟨r, owner, ref⟩
  let v := o.getField owner.name ref.name
  have hframes₆ : (m₅.markAccess (.read f v)).frames = _ := hframes₅
  obtain ⟨g', hpushed, hframes'⟩ := onFrame_ok hframes₆ hpush
  obtain ⟨-, rfl⟩ := Prod.mk.inj (Except.ok.inj hpushed)
  refine ⟨f, v, rest, hstack, hframes', ⟨m₂, m₃, howner⟩, m₅.moment.during (.read f v), ?_, rfl⟩
  rw [onFrame_moments hpush, markAccess_moments]
  rfl

/-- What is stored by an instruction that writes a field of the object below the top of its stack. -/
theorem putField_stores (h : putField ctx m = .ok () m') (hframes : m.frames = g :: callers) :
    ∃ f v rest, g.stack = v :: .ref f.object :: rest ∧
      m'.frames = { g with stack := rest, pc := g.pc + 2 } :: callers ∧
      m'.HasUsed ctx f (.stored f v) := by
  obtain ⟨ref, m₁, href, h⟩ := of_bind_ok h
  obtain ⟨v, m₂, hvalue, h⟩ := of_bind_ok h
  obtain ⟨r, m₃, hpop, h⟩ := of_bind_ok h
  obtain ⟨owner, m₄, howner, hstore⟩ := of_bind_ok h
  obtain ⟨g₂, hvalue, hframes₂⟩ := onFrame_ok (memberRef_frames href hframes) hvalue
  obtain ⟨rest₂, hstack₂, rfl⟩ := FrameM.of_pop_ok hvalue
  obtain ⟨rest, hstack, hframes₃⟩ := of_popOwner_ok hpop hframes₂
  have hframes₄ := frames_of_respects (respects_fieldOwner ref) howner hframes₃
  obtain ⟨-, rfl⟩ := EStateM.Result.ok.inj hstore
  let f : FieldAccess := ⟨r, owner, ref⟩
  refine ⟨f, v, rest, ?_, hframes₄, ⟨m₃, m₄, howner⟩, m₄.moment.during (.stored f v), ?_, rfl⟩
  · rw [hstack₂]
    exact congrArg (v :: ·) hstack
  · exact congrArg List.head? (markAccess_moments _ m₄)

end Instructions

section Found

variable {t : ClassTable} {f f' : FieldAccess}

/-- A type is not the descriptor of a method. -/
theorem not_fieldType_of_parse {d : Text} {signature : Signature}
    (h : Signature.parse d = .ok signature) : ¬Descriptor.IsFieldType d := by
  obtain ⟨rest, rfl⟩ : ∃ rest, d = Text.ofAscii '(' :: rest := by
    unfold Signature.parse at h
    split at h
    · split at h
      case isTrue => contradiction
      case isFalse b rest hb =>
        rw [not_or, not_not] at hb
        exact ⟨rest, by rw [hb.2]⟩
    · contradiction
  rintro ⟨n, e, he, heq⟩
  cases n with
  | zero =>
      cases he with
      | primitive p =>
          have hletter := (List.cons.inj heq).1
          revert hletter
          cases p <;> decide
      | reference name _ _ => exact absurd (List.cons.inj heq).1 (by decide)
  | succ n => exact absurd (List.cons.inj heq).1 (by decide)

/-- A reference with the type of a field has led to the first class that declares a field of its
name. -/
theorem FieldAccess.IsFound.isFirst (h : f.IsFound t)
    (htype : Descriptor.IsFieldType f.ref.descriptor) :
    t.IsFirst (Descriptor.ofInternal f.ref.owner) f.ref.fieldIn f.owner.descriptor := by
  obtain ⟨host, hsound⟩ := h.sound
  obtain hfirst | ⟨before, -, hafter⟩ := h.finds
  · exact hfirst
  · obtain ⟨c, hc, hdeclares⟩ := hafter.here
    obtain ⟨method, hmethod⟩ := Option.isSome_iff_exists.mp hdeclares
    have hsame := List.find?_some hmethod
    simp only [Bool.and_eq_true, beq_iff_eq] at hsame
    exact absurd (hsame.2 ▸ htype)
      (not_fieldType_of_parse (hsound.signature hc (List.mem_of_find?_eq_some hmethod)))

/-- The class that declares the member was not defined without any. -/
theorem FieldAccess.IsFound.defined (h : f.IsFound t) :
    ∃ host c₀, define host f.owner.descriptor = .ok c₀ ∧ f.owner.DefinedBy c₀ ∧
      c₀ ≠ .bare f.owner.descriptor := by
  obtain ⟨host, hsound⟩ := h.sound
  obtain ⟨c₀, hdefine, hdefined⟩ := hsound.defined h.record
  refine ⟨host, c₀, hdefine, hdefined, ?_⟩
  rintro rfl
  have hnone : f.ref.fieldIn f.owner = false ∧ f.ref.methodIn f.owner = false := by
    rw [hdefined]
    exact ⟨rfl, rfl⟩
  obtain ⟨before, -, hafter⟩ | ⟨before, -, hafter⟩ := h.finds
  all_goals
    obtain ⟨c, hc, hdeclares⟩ := hafter.here
    obtain rfl := Option.some.inj (h.record.symm.trans hc)
  · rw [hnone.1] at hdeclares
    contradiction
  · rw [hnone.2] at hdeclares
    contradiction

theorem FieldAccess.IsFound.hasFile (h : f.IsFound t) : f.owner.file.isSome = true := by
  obtain ⟨host, c₀, hdefine, hdefined, hnotBare⟩ := h.defined
  obtain hbare | ⟨_, file, _, _, hfile⟩ := define_eq_ok hdefine
  · exact absurd hbare hnotBare
  · obtain ⟨_, _, _, rfl⟩ := RuntimeClass.ofFile_eq_ok hfile
    rw [hdefined]
    rfl

/-- Only classes have members. -/
theorem FieldAccess.IsFound.isClass (h : f.IsFound t) :
    Descriptor.isPrimitive f.owner.descriptor = false ∧
      Descriptor.isArray f.owner.descriptor = false := by
  obtain ⟨host, c₀, hdefine, -, hnotBare⟩ := h.defined
  rw [define] at hdefine
  split at hdefine
  case isTrue => exact absurd (Except.ok.inj hdefine).symm hnotBare
  case isFalse hprimitive =>
    split at hdefine
    case isTrue =>
      split at hdefine
      · contradiction
      · exact absurd (Except.ok.inj hdefine).symm hnotBare
    case isFalse harray => exact ⟨Bool.eq_false_iff.mpr hprimitive, Bool.eq_false_iff.mpr harray⟩

/-- The descriptor of a class with a proper name is made of that name. -/
theorem descriptor_eq_of_fieldType {d : Descriptor} (h : Descriptor.IsFieldType d)
    (hprimitive : Descriptor.isPrimitive d = false) (harray : Descriptor.isArray d = false) :
    d = Text.ofAscii 'L' :: Descriptor.className d ++ [Text.ofAscii ';'] := by
  obtain ⟨n, e, he, rfl⟩ := h
  cases n with
  | succ n => exact absurd harray (by simp [Descriptor.isArray, List.replicate_succ])
  | zero =>
      cases he with
      | primitive p =>
          have hletter : Descriptor.isPrimitive [p.letter] = true := by cases p <;> decide
          rw [List.replicate_zero, List.nil_append, hletter] at hprimitive
          contradiction
      | reference name hne _ =>
          have hlong : 0 < name.length := List.length_pos_iff.mpr hne
          simp [Descriptor.className, hlong]

/-- Classes with proper names are told apart by them, and so are the slots of their fields. -/
theorem FieldAccess.IsFound.key_eq_iff {t' : ClassTable} (h : f.IsFound t) (h' : f'.IsFound t')
    (htype : Descriptor.IsFieldType f.owner.descriptor)
    (htype' : Descriptor.IsFieldType f'.owner.descriptor) :
    f'.key = f.key ↔ f'.owner.descriptor = f.owner.descriptor ∧ f'.ref.name = f.ref.name := by
  obtain ⟨host, hsound⟩ := h.sound
  obtain ⟨host', hsound'⟩ := h'.sound
  have howner : f'.owner.name = f.owner.name ↔ f'.owner.descriptor = f.owner.descriptor := by
    rw [hsound.name h.record, hsound'.name h'.record]
    refine ⟨fun hname => ?_, congrArg Descriptor.className⟩
    rw [descriptor_eq_of_fieldType htype' h'.isClass.1 h'.isClass.2, hname,
      ← descriptor_eq_of_fieldType htype h.isClass.1 h.isClass.2]
  rw [FieldAccess.key, FieldAccess.key, FieldKey.mk.injEq, howner]

end Found

section Runs

variable {host : Host} {m : Machine} {s s₀ : Moment} {f : FieldAccess} {v : Value} {d : Descriptor}
  {chain : List Descriptor} {names : List Text}

/-- What is recorded of an instance or its fields is so. -/
theorem Watched.bears {may : Request → Machine → Prop} (hm : Watched host may m)
    (hs : s ∈ m.moments.val) {a : Access} (ha : s.access = some a) : s.Bears a := by
  have hrecalls : s.classes.Recalls :=
    (hm.coherent (a := .caches) fun _ _ _ => nofun).before s hs
  exact (hm.coherent (a := .accesses) fun _ _ _ => nofun).before s hs hrecalls a ha

variable {o : Object} {records : List RuntimeClass}

/-- The class of an access, if it is above the class of a new instance, is one that the instance was
made of. -/
theorem record_of_isNew (hnew : o.IsNew s₀.classes d records)
    (hcarries : s₀.classes.CarriesOn s.classes) (hfound : f.IsFound s.classes)
    (howner : f.owner.descriptor ∈ records.map (·.descriptor)) :
    ∃ k ∈ records, k.descriptor = f.owner.descriptor ∧ k.SameClass f.owner := by
  obtain ⟨k, hk, hdescriptor⟩ := List.mem_map.mp howner
  obtain ⟨k', hk', hkeeps⟩ := hnew.kept k hk
  obtain ⟨owner, howner', hsame⟩ := hcarries hk'
  rw [hdescriptor] at howner'
  obtain rfl := Option.some.inj (hfound.record.symm.trans howner')
  exact ⟨k, hk, hdescriptor, hkeeps.sameClass.trans hsame⟩

theorem declaresOnce_of_isNew (hnew : o.IsNew s₀.classes d records)
    (honce : ∀ k ∈ records.map (·.descriptor), ∀ c, s₀.classes[k]? = some c → c.DeclaresOnce) :
    ∀ c ∈ records, c.DeclaresOnce := by
  intro c hc
  obtain ⟨c', hc', hkeeps⟩ := hnew.kept c hc
  have honce' := honce c.descriptor (List.mem_map_of_mem hc) c' hc'
  rw [RuntimeClass.DeclaresOnce, RuntimeClass.fileFields, hkeeps] at honce'
  exact honce'

/-- A field that the class of an access declares has a slot in a new instance, if the class is above
that of the instance. -/
theorem slot_of_isNew (hnew : o.IsNew s₀.classes d records)
    (hcarries : s₀.classes.CarriesOn s.classes) (hfound : f.IsFound s.classes)
    (howner : f.owner.descriptor ∈ records.map (·.descriptor))
    (honce : ∀ k ∈ records.map (·.descriptor), ∀ c, s₀.classes[k]? = some c → c.DeclaresOnce)
    {field : Field} (hfield : f.owner.declaredField? f.ref.name = some field)
    (hinstance : field.isStatic = false) :
    o.fields.lookup f.key = some (Value.default field.descriptor) := by
  obtain ⟨k, hk, -, hsame⟩ := record_of_isNew hnew hcarries hfound howner
  have hdeclared := declaresOnce_of_isNew hnew honce
  have hname : f.owner.name = k.name := by rw [hsame]
  have hfile : f.owner.fileFields = k.fileFields := by
    rw [RuntimeClass.fileFields, RuntimeClass.fileFields, hsame]
  obtain ⟨host, hsound⟩ := hfound.sound
  have hfields : f.owner.fields = f.owner.fileFields := by
    refine hsound.fields hfound.record ?_
    rw [RuntimeClass.DeclaresOnce, hfile]
    exact hdeclared k hk
  have hmem : field ∈ k.instanceFields := by
    refine List.mem_filter.mpr ⟨?_, by rw [hinstance]; rfl⟩
    rw [← hfile, ← hfields]
    exact List.mem_of_find?_eq_some hfield
  have hfieldName : field.name = f.ref.name :=
    eq_of_beq (List.find?_some (p := fun g : Field => g.name == f.ref.name) hfield)
  rw [hnew.slots, FieldAccess.key, hname, ← hfieldName]
  exact lookup_instanceOfChain hnew.apart hdeclared hk hmem

/-- An instance is made at one moment of a run, and a field of it is read at a later one. The class
that was found to declare the field is the class of the instance or above it, and none of these
classes declares a field name twice. -/
structure Machine.ReadsLater (m : Machine) (s₀ : Moment) (between : List Moment) (s : Moment)
    (d : Descriptor) (chain : List Descriptor) (f : FieldAccess) (v : Value) : Prop where
  moments : ∃ later earlier, m.moments.val = later ++ s :: (between ++ s₀ :: earlier)
  made : s₀.access = some (.made f.object d)
  read : s.access = some (.read f v)
  above : ∃ names, s₀.classes.Ancestry d chain names
  owner : f.owner.descriptor ∈ chain
  once : ∀ k ∈ chain, ∀ c, s₀.classes[k]? = some c → c.DeclaresOnce

section Reading

variable {between : List Moment} (hm : Watched host (fun request _ => ¬request.SetsField) m)
  (h : m.ReadsLater s₀ between s d chain f v)
include hm h

theorem Machine.ReadsLater.isTraced :
    (s :: (between ++ [s₀])).IsChain fun later earlier => earlier.LeadsTo later := by
  obtain ⟨later, earlier, hmoments⟩ := h.moments
  have hall := (List.isChain_cons.mp hm.traced.moments).2
  rw [hmoments] at hall
  refine hall.infix ⟨later, earlier, ?_⟩
  simp

/-- What is read of an instance field is what was last stored in it since the object was made, or
else the default of its type. -/
theorem Machine.ReadsLater.value {field : Field}
    (hfield : f.owner.declaredField? f.ref.name = some field)
    (hinstance : field.isStatic = false) :
    v = (lastStored between (f.object.number - 1) f.key).getD (Value.default field.descriptor) := by
  obtain ⟨later, earlier, hmoments⟩ := h.moments
  obtain ⟨names, hchain⟩ := h.above
  obtain ⟨hfound, o, ho, rfl⟩ := hm.bears (by rw [hmoments]; simp) h.read
  obtain ⟨o₀, records, ho₀, hnew⟩ := hm.bears (by rw [hmoments]; simp) h.made
  obtain ⟨hclasses, -⟩ := hchain.unique hnew.order
  have hslot := slot_of_isNew hnew (classes_of_chain (h.isTraced hm)) hfound (hclasses ▸ h.owner)
    (hclasses ▸ h.once) hfield hinstance
  have hstorage : o₀.storage = false := by
    obtain ⟨slots, hmade⟩ := instanceOfChain_eq d records
    rw [hnew.slots, hmade]
    rfl
  obtain ⟨o', ho', -, hslots⟩ := slot_of_chain (h.isTraced hm) ho₀ hstorage
  obtain rfl := Option.some.inj (ho.symm.trans ho')
  -- making the instance stores nothing
  have hnothing : s₀.storedIn (f.object.number - 1) f.key = none := by
    rw [Moment.storedIn, h.made]
    rfl
  have hlast : lastStored (between ++ [s₀]) (f.object.number - 1) f.key =
      lastStored between (f.object.number - 1) f.key := by
    rw [lastStored, List.findSome?_append, List.findSome?_singleton, hnothing, Option.or_none]
    rfl
  have hvalue : o.fields.lookup f.key = (lastStored between (f.object.number - 1) f.key).or
      (some (Value.default field.descriptor)) := by
    rw [hslots, hlast, hslot]
  rw [Object.getField, ← FieldAccess.key, hvalue]
  cases lastStored between (f.object.number - 1) f.key <;> rfl

/-- The other classes of the object that come from files have other names, and so other slots. -/
theorem Machine.ReadsLater.named {k : Descriptor} {c : RuntimeClass} (hk : k ∈ chain)
    (hc : s₀.classes[k]? = some c) (hfile : c.file.isSome = true) (hname : c.name = f.owner.name) :
    k = f.owner.descriptor := by
  obtain ⟨later, earlier, hmoments⟩ := h.moments
  obtain ⟨names, hchain⟩ := h.above
  obtain ⟨hfound, -⟩ := hm.bears (by rw [hmoments]; simp) h.read
  obtain ⟨o₀, records, -, hnew⟩ := hm.bears (by rw [hmoments]; simp) h.made
  obtain ⟨rfl, -⟩ := hchain.unique hnew.order
  obtain ⟨owner, howner, hdescriptor, hsame⟩ :=
    record_of_isNew hnew (classes_of_chain (h.isTraced hm)) hfound h.owner
  obtain ⟨c₀, hc₀, rfl⟩ := List.mem_map.mp hk
  obtain ⟨c', hc', hkeeps⟩ := hnew.kept c₀ hc₀
  obtain rfl := Option.some.inj (hc.symm.trans hc')
  by_contra hne
  have hsymm : Std.Symm RuntimeClass.NamedApart :=
    ⟨fun a b hab hb ha heq => hab ha hb heq.symm⟩
  have hapart : c₀.NamedApart owner :=
    hnew.apart.forall hc₀ howner fun heq => hne (heq ▸ hdescriptor)
  rw [RuntimeClass.NamedApart] at hapart
  have hownerFile := hfound.hasFile
  rw [hsame] at hownerFile hname
  rw [hkeeps] at hfile hname
  exact hapart hfile hownerFile hname

/-- What is stored by a reference that leads to another class, or to a field of another name, is
stored in another slot. -/
theorem Machine.ReadsLater.apart {e : Moment} (he : e ∈ between) {f' : FieldAccess} {v' : Value}
    (hstored : e.access = some (.stored f' v'))
    (htype : Descriptor.IsFieldType f.owner.descriptor)
    (htype' : Descriptor.IsFieldType f'.owner.descriptor) :
    f'.key = f.key ↔ f'.owner.descriptor = f.owner.descriptor ∧ f'.ref.name = f.ref.name := by
  obtain ⟨later, earlier, hmoments⟩ := h.moments
  have hfound' : f'.IsFound e.classes := hm.bears (by rw [hmoments]; simp [he]) hstored
  exact (hm.bears (by rw [hmoments]; simp) h.read).1.key_eq_iff hfound' htype htype'

/-- The reference has led to the first class that declares a field of its name. -/
theorem Machine.ReadsLater.resolved (htype : Descriptor.IsFieldType f.ref.descriptor) :
    s.classes.IsFirst (Descriptor.ofInternal f.ref.owner) f.ref.fieldIn f.owner.descriptor ∧
      ∃ field, f.owner.declaredField? f.ref.name = some field := by
  obtain ⟨later, earlier, hmoments⟩ := h.moments
  have hfound : f.IsFound s.classes := (hm.bears (by rw [hmoments]; simp) h.read).1
  obtain ⟨before, horder, hafter⟩ := hfound.isFirst htype
  obtain ⟨c, hc, hdeclares⟩ := hafter.here
  obtain rfl := Option.some.inj (hfound.record.symm.trans hc)
  exact ⟨⟨before, horder, hafter⟩, Option.isSome_iff_exists.mp hdeclares⟩

end Reading

end Runs

open Interpreter

section Own

variable {ctx : Context} {m : Machine} {f : Frame} {callers : List Frame} {p : Nat} {i : UInt16}
  {ref : MemberRef}

/-- The member that an instruction names is read. -/
theorem memberRef_readingAt (hframes : m.frames = f.readingAt p :: callers)
    (hi : Stands f.bytecode p (Assembler.twoBytes i))
    (hmember : f.method.file.memberRef i = .ok (ref.owner, ref.name, ref.descriptor)) :
    Reference.memberRef ctx m = .ok ref { m with frames := f.readingAt (p + 2) :: callers } := by
  let m' : Machine := { m with frames := f.readingAt (p + 2) :: callers }
  have hindex : onFrame FrameM.u2 ctx m = .ok i m' := onFrame_of_ok hframes (FrameM.u2_readingAt hi)
  have hfile : Reference.currentFile ctx m' = .ok f.method.file m' := rfl
  rw [Reference.memberRef, bind_of_ok hindex, bind_of_ok hfile, hmember]
  rfl

/-- The engine once a value is stored in a field that the class of an instance declares itself, which the
class remembers. -/
def Machine.storingOwn (m : Machine) (c : RuntimeClass) (ref : MemberRef) (r : Ref) (v : Value) :
    Machine :=
  let found := m.remembering c.descriptor ref
  { found.markAccess (.stored ⟨r, { c with resolved := c.resolved.insert ref c.descriptor }, ref⟩ v) with
    heap := m.heap.modify (r.number - 1) fun o =>
      o.setField c.name ref.name (Value.coerce ref.descriptor v) }

theorem storingOwn_heap (m : Machine) (c : RuntimeClass) (ref : MemberRef) (r : Ref) (v : Value) :
    (m.storingOwn c ref r v).heap = m.heap.modify (r.number - 1) fun o =>
      o.setField c.name ref.name (Value.coerce ref.descriptor v) :=
  rfl

/-- A value is stored in a field of an instance that its class, a root class, declares itself. -/
theorem advance_putField {host : Host} {steps nesting : Nat} {c : RuntimeClass} {v : Value} {r : Ref}
    {rest : List Value} (hframes : m.frames = f :: callers) (hpc : f.pc = p)
    (hbytes : Stands f.bytecode p (Opcode.putfield.byte :: Assembler.twoBytes i))
    (hstack : f.stack = v :: .ref r :: rest)
    (hmember : f.method.file.memberRef i = .ok (ref.owner, ref.name, ref.descriptor))
    (hc : m.classes[Descriptor.ofInternal ref.owner]? = some c) (hstate : c.state = .initialized)
    (howner : c.descriptor = Descriptor.ofInternal ref.owner) (hsuper : c.superclass = none)
    (hnew : c.resolved[ref]? = none) (hdeclares : ref.fieldIn c = true) :
    advance (Session.context host (steps + 1) (nesting + 1)) m =
      .ok .next (Machine.storingOwn { m.note (.executing f.method.owner) with
        frames := { f with stack := rest, opPc := p, pc := p + 3 } :: callers } c ref r v) := by
  let ctx := Session.context host (steps + 1) (nesting + 1)
  obtain ⟨hop, hindex⟩ := stands_cons.mp hbytes
  let g : Frame := { f with opPc := p }
  let started : Machine := { m.note (.executing f.method.owner) with
    frames := g.readingAt (p + 1) :: callers }
  let named : Machine := { started with frames := g.readingAt (p + 3) :: callers }
  let popped : Machine := { started with frames := { g with stack := rest, pc := p + 3 } :: callers }
  have href : Reference.memberRef ctx started = .ok ref named := memberRef_readingAt rfl hindex hmember
  have hvalue : onFrame FrameM.pop ctx named = .ok v { started with
      frames := { g with stack := .ref r :: rest, pc := p + 3 } :: callers } :=
    onFrame_of_ok rfl (FrameM.pop_cons hstack)
  have hobject : Reference.popOwner ref ctx { started with
      frames := { g with stack := .ref r :: rest, pc := p + 3 } :: callers } = .ok r popped := rfl
  have hload : loadClass ref.owner ctx popped = .ok c popped :=
    classFor_initialized host steps nesting hc hstate
  have hown : popped.classes[c.descriptor]? = some c := howner ▸ hc
  let c' : RuntimeClass := { c with resolved := c.resolved.insert ref c.descriptor }
  have hfind : resolveField c.descriptor ref ctx popped = .ok c' (popped.remembering c.descriptor ref) :=
    resolveField_own host hown rfl hsuper hnew hdeclares steps (nesting + 1)
  have hfield : Reference.fieldOwner ref ctx popped = .ok c' (popped.remembering c.descriptor ref) := by
    rw [Reference.fieldOwner, bind_of_ok hload]
    exact hfind
  refine advance_execute hframes hpc hop (bind_of_ok (?_ : Reference.putField ctx started = .ok () _))
  rw [Reference.putField, bind_of_ok href, bind_of_ok hvalue, bind_of_ok hobject, bind_of_ok hfield]
  rfl

end Own

/-- A class with a field for a character, and a method that stores -1 in it and reads it again. -/
def boxFile : ClassFile where
  minor := 0
  major := 52
  pool := #[.blank, .utf8 "Box", .link .classRef 1 0, .utf8 "size", .utf8 "C",
    .link .nameAndType 3 4, .link .fieldref 2 5]
  flags := ⟨0x21⟩
  name := "Box"
  superName := []
  interfaces := []
  fields := [⟨"size", "C", ⟨1⟩, 0⟩]
  methods := [⟨"fill", "(LBox;)I", ⟨9⟩, some ⟨2, 1,
    #[0x2A, 0x02, 0xB5, 0, 6, 0x2A, 0xB4, 0, 6, 0xAC], [], []⟩, []⟩]
  sourceFile := []

/-- A host with that class only. -/
def boxHost : Host where
  provider := some fun name => if name = "Box" then .ok boxFile else .error "not found"
  currentTimeMillis := 0
  nanoTime := 0

def fill : Method :=
  ⟨"LBox;", "Box", "fill", "(LBox;)I", ⟨9⟩, some ⟨2, 1,
    #[0x2A, 0x02, 0xB5, 0, 6, 0x2A, 0xB4, 0, 6, 0xAC], [], []⟩,
    ⟨["LBox;"], "I", "(LBox;)I"⟩, boxFile⟩

/-- The record of the class once it is loaded. -/
def box : RuntimeClass :=
  { RuntimeClass.bare "LBox;" with
    flags := ⟨0x21⟩
    file := some boxFile
    fields := [⟨"size", "C", ⟨1⟩, 0⟩]
    methods := [fill]
    statics := some ⟨1⟩
    state := .initialized }

def sizeOfBox : MemberRef := ⟨"Box", "size", "C"⟩

theorem boxHost_loads : ∃ m : Machine, Used boxHost (fun request _ => ¬request.SetsField) m ∧
    m.frames = [] ∧ m.classes[box.descriptor]? = some box ∧ m.profiler = none ∧
    m.maxDepth = Session.defaultDepth := by
  have hname : Descriptor.ofInternal "Box" = box.descriptor := by decide +kernel
  have hdefine : define boxHost box.descriptor =
      .ok { box with statics := none, state := .linking } := rfl
  have hquiet : RuntimeClass.IsQuiet { box with statics := none, state := .linking } := by
    refine ⟨fun file hfile => ?_, rfl⟩
    obtain rfl := Option.some.inj hfile
    simp [boxFile]
  obtain ⟨m, hused, hbox, _, hfresh⟩ := used_of_first (fun request _ => ¬request.SetsField) hname
    hdefine rfl rfl hquiet not_false
  exact ⟨m, hused, by rw [hfresh]; rfl, hbox, by rw [hfresh]; rfl, by rw [hfresh]; rfl⟩

/-- The record once it is remembered that the field is the class's own. -/
def searchedBox : RuntimeClass :=
  { box with resolved := box.resolved.insert sizeOfBox box.descriptor }

/-- An activation of the method in which the instruction at an address comes next. -/
def filling (r : Ref) (stack : List Value) (pc opPc : Int) : Frame :=
  ⟨fill, 1, stack, #[.ref r], pc, opPc⟩

/-- The engine once an instruction of the method has done its work on the frame. -/
def Machine.fillingBox (m : Machine) (g : Frame) : Machine :=
  { m.note (.executing "LBox;") with frames := [g] }

section Filling

variable {m : Machine} {r : Ref} {opPc : Int}

theorem fillingBox_moments (m : Machine) (g : Frame) :
    (m.fillingBox g).moments.val = m.moment :: m.moments.val :=
  note_moments (.executing "LBox;") m

@[simp] theorem fillingBox_heap (m : Machine) (g : Frame) : (m.fillingBox g).heap = m.heap := by
  dsimp only [Machine.fillingBox, Machine.note, Machine.mark]

@[simp] theorem fillingBox_classes (m : Machine) (g : Frame) : (m.fillingBox g).classes = m.classes := by
  dsimp only [Machine.fillingBox, Machine.note, Machine.mark]

/-- The first search for the field is remembered with the class. -/
theorem putfield_fills (hm : m.frames = [filling r [.int (-1), .ref r] 2 opPc])
    (hc : m.classes[box.descriptor]? = some box) :
    ∃ m' s, advance (Session.context boxHost 9 9) m = .ok .next m' ∧
      m'.frames = [filling r [] 5 2] ∧ m'.heap.size = m.heap.size ∧
      m'.classes[box.descriptor]? = some searchedBox ∧
      s.access = some (.stored ⟨r, searchedBox, sizeOfBox⟩ (.int (-1))) ∧
      m'.moments.val = s :: m.moment :: m.moments.val := by
  let popped : Machine := m.fillingBox (filling r [] 5 2)
  let found : Machine := popped.remembering box.descriptor sizeOfBox
  have hbytes : Stands (filling r [] 2 opPc).bytecode 2 [0xB5, 0, 6] :=
    stands_cons.mpr ⟨rfl, stands_cons.mpr ⟨rfl, stands_cons.mpr ⟨rfl, stands_nil⟩⟩⟩
  have hmember : (filling r [] 2 opPc).method.file.memberRef 6 =
      .ok (sizeOfBox.owner, sizeOfBox.name, sizeOfBox.descriptor) := rfl
  have hput : advance (Session.context boxHost 9 9) m =
      .ok .next (popped.storingOwn box sizeOfBox r (.int (-1))) :=
    (advance_putField (i := 6) hm rfl hbytes rfl hmember hc rfl rfl rfl Std.HashMap.getElem?_empty
      rfl).trans rfl
  have hsize : (popped.storingOwn box sizeOfBox r (.int (-1))).heap.size = m.heap.size := by
    rw [storingOwn_heap, fillingBox_heap, Array.size_modify]
  have hpopped : popped.classes[box.descriptor]? = some box := by rw [fillingBox_classes, hc]
  refine ⟨_, found.moment.during (.stored ⟨r, searchedBox, sizeOfBox⟩ (.int (-1))), hput, rfl, hsize,
    remembering_self hpopped, rfl, ?_⟩
  exact (markAccess_moments _ found).trans
    (congrArg (_ :: ·) (fillingBox_moments m (filling r [] 5 2)))

theorem getfield_fills {o : Object} (hm : m.frames = [filling r [.ref r] 6 opPc])
    (hc : m.classes[box.descriptor]? = some searchedBox) (ho : m.heap[r.number - 1]? = some o) :
    ∃ v m' s, advance (Session.context boxHost 9 9) m = .ok .next m' ∧
      m'.frames = [filling r [v] 9 6] ∧ s.access = some (.read ⟨r, searchedBox, sizeOfBox⟩ v) ∧
      m'.moments.val = s :: m.moment :: m.moments.val := by
  let ctx := Session.context boxHost 9 9
  let started : Machine := m.fillingBox (filling r [.ref r] (7 : Nat) 6)
  let popped : Machine := m.fillingBox (filling r [] 9 6)
  let v : Value := o.getField searchedBox.name sizeOfBox.name
  let access : Access := .read ⟨r, searchedBox, sizeOfBox⟩ v
  have hindex : Stands (filling r [] 6 6).bytecode 7 [0, 6] :=
    stands_cons.mpr ⟨rfl, stands_cons.mpr ⟨rfl, stands_nil⟩⟩
  have href : Reference.memberRef ctx started =
      .ok sizeOfBox (m.fillingBox (filling r [.ref r] 9 6)) :=
    memberRef_readingAt (f := filling r [.ref r] 6 6) (i := 6) rfl hindex rfl
  have hpop : Reference.popOwner sizeOfBox ctx (m.fillingBox (filling r [.ref r] 9 6)) =
      .ok r popped := rfl
  have hload : loadClass sizeOfBox.owner ctx popped = .ok searchedBox popped :=
    classFor_initialized boxHost 8 8 hc rfl
  have hknown : searchedBox.resolved[sizeOfBox]? = some box.descriptor :=
    Std.HashMap.getElem?_insert_self
  have howner : Reference.fieldOwner sizeOfBox ctx popped = .ok searchedBox popped := by
    have hat : classAt searchedBox.descriptor ctx popped = .ok searchedBox popped :=
      classAt_eq_ok hc
    rw [Reference.fieldOwner, bind_of_ok hload, resolveField, bind_of_ok hat, hknown]
    exact hat
  have hread : Reference.readField ⟨r, searchedBox, sizeOfBox⟩ ctx popped =
      .ok v (popped.markAccess access) := bind_of_ok (objectAt_eq_ok ho)
  let pushed : Machine := { popped.markAccess access with frames := [filling r [v] 9 6] }
  have hget : Reference.getField ctx started = .ok () pushed := by
    rw [Reference.getField, bind_of_ok href, bind_of_ok hpop, bind_of_ok howner, bind_of_ok hread]
    rfl
  have hexecute : Step.execute .getfield ctx started = .ok .next pushed := bind_of_ok hget
  refine ⟨v, pushed, popped.moment.during access, advance_execute (p := 6) hm rfl rfl hexecute, rfl,
    rfl, ?_⟩
  exact (markAccess_moments _ popped).trans
    (congrArg (_ :: ·) (fillingBox_moments m (filling r [] 9 6)))

/-- The method in full. -/
theorem fill_runs {o : Object} (hm : m.frames = [filling r [] 0 0])
    (hc : m.classes[box.descriptor]? = some box) (ho : m.heap[r.number - 1]? = some o) :
    ∃ v m' last s between, execute (Session.context boxHost 9 9) m = .ok v m' ∧
      m'.moments.val = last :: s :: (between ++ m.moments.val) ∧
      s.access = some (.read ⟨r, searchedBox, sizeOfBox⟩ v) ∧
      lastStored between (r.number - 1) ⟨"Box", "size"⟩ = some (.int 65535) := by
  let ctx := Session.context boxHost 9 9
  have haload : Step.execute .aload0 = Step.load 0 := rfl
  have hconstant : Step.execute .iconstM1 = Step.constant (.int (-1)) := rfl
  let m₁ : Machine := m.fillingBox (filling r [.ref r] 1 0)
  let m₂ : Machine := m₁.fillingBox (filling r [.int (-1), .ref r] 2 1)
  have hfirst : advance ctx m = .ok .next m₁ :=
    advance_inFrame (p := 0) hm rfl rfl haload rfl
  have hframes₁ : m₁.frames = [filling r [.ref r] 1 0] := rfl
  have hsecond : advance ctx m₁ = .ok .next m₂ :=
    advance_inFrame (p := 1) hframes₁ rfl rfl hconstant rfl
  have hc₂ : m₂.classes[box.descriptor]? = some box := by
    rw [fillingBox_classes, fillingBox_classes, hc]
  have hframes₂ : m₂.frames = [filling r [.int (-1), .ref r] 2 1] := rfl
  obtain ⟨m₃, stored, hthird, hframes₃, hsize, hc₃, hstored, hmoments₃⟩ := putfield_fills hframes₂ hc₂
  let m₄ : Machine := m₃.fillingBox (filling r [.ref r] 6 5)
  have hfourth : advance ctx m₃ = .ok .next m₄ :=
    advance_inFrame (p := 5) hframes₃ rfl rfl haload rfl
  have hlt : r.number - 1 < m₄.heap.size := by
    rw [fillingBox_heap, hsize, fillingBox_heap, fillingBox_heap]
    exact (Array.getElem?_eq_some_iff.mp ho).1
  obtain ⟨v, m₅, s, hfifth, hframes₅, hread, hmoments₅⟩ :=
    getfield_fills (m := m₄) rfl hc₃ (Array.getElem?_eq_getElem hlt)
  have hreturns : Opcode.ireturn.returnsTop = true := rfl
  have hsixth : advance ctx m₅ = .ok (.result v) (m₅.fillingBox (filling r [] 10 9)) :=
    advance_returnsTop (p := 9) hframes₅ rfl rfl hreturns rfl
  have hruns : Runs ctx 5 m m₅ :=
    .step hfirst (.step hsecond (.step hthird (.step hfourth (.step hfifth (.refl _)))))
  refine ⟨v, _, m₅.moment, s, [m₄.moment, m₃.moment, stored, m₂.moment, m₁.moment, m.moment],
    execute_returns hruns (by decide) hsixth, ?_, hread, ?_⟩
  · rw [fillingBox_moments, hmoments₅, fillingBox_moments, hmoments₃, fillingBox_moments, fillingBox_moments]
    rfl
  · have hnone : ∀ (m : Machine) (i : Nat) (key : FieldKey), m.moment.storedIn i key = none :=
      fun _ _ _ => rfl
    have hlast : stored.storedIn (r.number - 1) ⟨"Box", "size"⟩ = some (.int 65535) := by
      rw [Moment.storedIn, hstored]
      exact if_pos ⟨rfl, rfl⟩
    rw [lastStored, List.findSome?_cons, hnone, List.findSome?_cons, hnone, List.findSome?_cons,
      hlast]

end Filling

/-- The whole of a call of the method. -/
theorem fill_called {m : Machine} {r : Ref} {o : Object} (hframes : m.frames = [])
    (hprofiler : m.profiler = none) (hdepth : m.maxDepth = Session.defaultDepth)
    (hc : m.classes[box.descriptor]? = some box) (ho : m.heap[r.number - 1]? = some o) :
    ∃ v m' last s between, Session.runWithin boxHost 9 10
        (Request.perform (.invokeDeclared "Box" "fill" "(LBox;)I" [.ref r])) m = .ok () m' ∧
      m'.moments.val = last :: s :: (between ++ m.moments.val) ∧
      s.access = some (.read ⟨r, searchedBox, sizeOfBox⟩ v) ∧
      lastStored between (r.number - 1) ⟨"Box", "size"⟩ = some (.int 65535) := by
  let entered : Machine := { m with frames := [filling r [] 0 0] }
  obtain ⟨v, m', last, s, between, hexecute, hmoments, hread, hlast⟩ :=
    fill_runs (m := entered) rfl hc ho
  have hroom : ((depthOf m.frames + 1 : Nat) : Int) ≤ m.maxDepth := by
    rw [hframes, hdepth]
    decide
  have hcode : (fill.code.elim 0 fun c => c.bytecode.size) ≠ 0 := by decide
  have hprofile : profile fill (Session.context boxHost 9 9) entered = .ok () entered :=
    profile_off hprofiler
  have hbody : runBody fill #[.ref r] (Session.context boxHost 9 9)
      { m with frames := Frame.enter fill #[.ref r] m.frames :: m.frames } = .ok v m' := by
    rw [hframes]
    exact (runBody_of_code rfl hcode hprofile).trans hexecute
  let ended : Machine := { m' with frames := m.frames }
  have hcall : invokeMethod fill [.ref r] (Session.context boxHost 9 10) m = .ok v ended :=
    invokeMethod_of_body rfl hroom rfl hbody
  have hload : loadClass "Box" (Session.context boxHost 9 10) m = .ok box m :=
    classFor_initialized boxHost 8 9 hc rfl
  have hperform : Request.perform (.invokeDeclared "Box" "fill" "(LBox;)I" [.ref r])
      (Session.context boxHost 9 10) m = .ok () ended :=
    (bind_of_ok hload).trans (discard_of_ok hcall)
  refine ⟨v, ended, last, s, between, ?_, hmoments, hread, hlast⟩
  rw [Session.runWithin, hperform]

/-- An instance is made. -/
theorem boxHost_makes : ∃ (m : Machine) (s₀ : Moment) (earlier : List Moment) (r : Ref) (o : Object),
    Used boxHost (fun request _ => ¬request.SetsField) m ∧ m.frames = [] ∧ m.profiler = none ∧
    m.maxDepth = Session.defaultDepth ∧ m.classes[box.descriptor]? = some box ∧
    m.heap[r.number - 1]? = some o ∧ m.moments.val = s₀ :: earlier ∧ s₀.classes = m.classes ∧
    s₀.access = some (.made r box.descriptor) := by
  obtain ⟨m, hused, hframes, hbox, hprofiler, hdepth⟩ := boxHost_loads
  have hchain : m.classes.Ancestry box.descriptor [box.descriptor] box.interfaces := .root hbox rfl
  obtain ⟨records, hrecords, -⟩ : ∃ records, ancestry box.descriptor (Session.context boxHost 9 9) m =
      .ok records m ∧ _ := ancestryWithin_of_ancestry hchain (by decide)
  let r : Ref := ⟨m.heap.size + 1⟩
  let grown : Machine := { m with heap := m.heap.push (instanceOfChain box.descriptor records) }
  let made : Machine := grown.markAccess (.made r box.descriptor)
  have hload : loadClass "Box" (Session.context boxHost 9 9) m = .ok box m :=
    classFor_initialized boxHost 8 8 hbox rfl
  have hmade : Session.runWithin boxHost 9 9 (Request.perform (.newObject "Box")) m = .ok () made := by
    rw [Session.runWithin, Request.perform, bind_of_ok hload,
      discard_of_ok (newObject_of_ancestry hrecords)]
  exact ⟨made, grown.moment.during (.made r box.descriptor), m.moments.val, r, _,
    hused.ask (.newObject "Box") not_false hmade, hframes, hprofiler, hdepth, hbox,
    Array.getElem?_push_size, markAccess_moments _ grown, rfl, rfl⟩

/-- The field is read after something was stored in it. -/
theorem boxHost_fills : ∃ (m : Machine) (s₀ s : Moment) (between : List Moment) (r : Ref) (v : Value),
    Watched boxHost (fun request _ => ¬request.SetsField) m ∧
    m.ReadsLater s₀ between s box.descriptor [box.descriptor] ⟨r, searchedBox, sizeOfBox⟩ v ∧
    lastStored between (r.number - 1) ⟨"Box", "size"⟩ = some (.int 65535) := by
  obtain ⟨m, s₀, earlier, r, o, hused, hframes, hprofiler, hdepth, hbox, ho, hearlier, hclasses, hmade⟩ :=
    boxHost_makes
  obtain ⟨v, m', last, s, between, hrun, hmoments, hread, hlast⟩ :=
    fill_called hframes hprofiler hdepth hbox ho
  have hwatched := Watched.busy hused (rfl : boxHost.provider = boxHost.provider)
    (.invokeDeclared "Box" "fill" "(LBox;)I" [.ref r]) not_false 9 10
  rw [hrun] at hwatched
  rw [hearlier] at hmoments
  have hbox₀ : s₀.classes[box.descriptor]? = some box := by rwa [hclasses]
  refine ⟨m', s₀, s, between, r, v, hwatched, ⟨⟨[last], earlier, hmoments⟩, hmade, hread,
    ⟨_, .root hbox₀ rfl⟩, List.mem_singleton_self _, fun k hk c hc => ?_⟩, hlast⟩
  obtain rfl := List.mem_singleton.mp hk
  obtain rfl := Option.some.inj (hbox₀.symm.trans hc)
  exact List.nodup_singleton _

end ClassEngine
