import ClassEngine.Bundle.Format
import ClassEngine.Proofs.Cbor.Records

/-!
The items of classes are read back as the classes they were made from. A bundle keeps all of a class
but the sign of a zero and the kind of what is not a number, so the constants of a class come back
`packed`. Main statement: `readPayload_payloadItem`.
-/

namespace ClassEngine

/-- The bits of a float as a bundle holds them: there is one zero, and one of what is no number. -/
def Bundle.packedBits (bits : UInt64) : UInt64 :=
  if Ieee.isNaN bits then Cbor.quietNaN else if Ieee.isZero bits then 0 else bits

/-- A constant as a bundle holds it. -/
def Constant.packed : Constant → Constant
  | .float bits => .float (Bundle.packedBits bits)
  | .double bits => .double (Bundle.packedBits bits)
  | k => k

/-- A class as a bundle holds it. -/
def ClassFile.packed (c : ClassFile) : ClassFile :=
  { c with pool := c.pool.map Constant.packed }

namespace Bundle

/-- A text that an item can hold. -/
def HoldsText (t : Text) : Prop := Utf8.isValid t ∧ t.length < 2 ^ 64

end Bundle

open ClassEngine.Bundle (HoldsText)

/-- A constant that an item can hold. What no class file may hold has a tag of its own. -/
def Constant.Packable : Constant → Prop
  | .utf8 t => HoldsText t
  | .foreign tag _ _ => tag ∉ [0, 1, 3, 4, 5, 6] ∧ LinkKind.ofTag? tag = none
  | _ => True

instance (t : Text) : Decidable (HoldsText t) := inferInstanceAs (Decidable (_ ∧ _))

instance : (k : Constant) → Decidable k.Packable
  | .utf8 t => inferInstanceAs (Decidable (HoldsText t))
  | .foreign _ _ _ => inferInstanceAs (Decidable (_ ∧ _))
  | .blank | .integer _ | .float _ | .long _ | .double _ | .link _ _ _ => .isTrue trivial

/-- A body that an item can hold, with lists of a length that is read. -/
@[mk_iff] structure Code.Packable (c : Code) : Prop where
  bytecode : c.bytecode.size < 2 ^ 64
  handlers : c.handlers.length ≤ Cbor.maxElements
  catchTypes : ∀ h ∈ c.handlers, HoldsText h.catchType
  lines : c.lines.length ≤ Cbor.maxElements

instance (c : Code) : Decidable c.Packable := decidable_of_iff' _ (Code.packable_iff c)

@[mk_iff] structure MethodInfo.Packable (m : MethodInfo) : Prop where
  name : HoldsText m.name
  descriptor : HoldsText m.descriptor
  code : ∀ body ∈ m.code, body.Packable
  throws : m.throws.length ≤ Cbor.maxElements
  throws_texts : ∀ name ∈ m.throws, HoldsText name

instance (m : MethodInfo) : Decidable m.Packable := decidable_of_iff' _ (MethodInfo.packable_iff m)

/-- A class that an item can hold: its texts are valid, and its lists are no longer than a reader
allows. -/
@[mk_iff] structure ClassFile.Packable (c : ClassFile) : Prop where
  pool : c.pool.size ≤ Cbor.maxElements
  constants : ∀ k ∈ c.pool, k.Packable
  name : HoldsText c.name
  superName : HoldsText c.superName
  interfaces : c.interfaces.length ≤ Cbor.maxElements
  interfaces_texts : ∀ name ∈ c.interfaces, HoldsText name
  fields : c.fields.length ≤ Cbor.maxElements
  fields_texts : ∀ f ∈ c.fields, HoldsText f.name ∧ HoldsText f.descriptor
  methods : c.methods.length ≤ Cbor.maxElements
  methods_packable : ∀ m ∈ c.methods, m.Packable
  sourceFile : HoldsText c.sourceFile

instance (c : ClassFile) : Decidable c.Packable := decidable_of_iff' _ (ClassFile.packable_iff c)

namespace Bundle

open Cbor (Item field)
open Cbor.Item

/-! Fields of records -/

/-- The fields have these names, in this order, though some may be left out. -/
def Keyed (fields : List (Text × Item)) (names : List Text) : Prop :=
  (fields.map Prod.fst).Sublist names

section Fields

variable {fields rest : List (Text × Item)} {names more : List Text} (m n : Text)

theorem Keyed.append (h : Keyed fields names) (h' : Keyed rest more) :
    Keyed (fields ++ rest) (names ++ more) := by
  rw [Keyed, List.map_append]
  exact List.Sublist.append h h'

theorem Keyed.widen (h : Keyed fields names) (hmore : names.Sublist more) : Keyed fields more :=
  h.trans hmore

theorem keyed_nil (names : List Text) : Keyed [] names := List.nil_sublist names

theorem keyed_always (i : Item) : Keyed (always m i) [m] := List.Sublist.refl _

theorem keyed_omitWhen (absent : Bool) (i : Item) : Keyed (omitWhen absent m i) [m] := by
  cases absent with
  | true => exact keyed_nil _
  | false => exact keyed_always m i

theorem keyed_optionalText (t : Text) : Keyed (optionalText m t) [m] := keyed_omitWhen m _ _

theorem keyed_optionalList (items : List Item) : Keyed (optionalList m items) [m] :=
  keyed_omitWhen m _ _

theorem keyed_optionalWord (v : UInt16) : Keyed (optionalWord m v) [m] := keyed_omitWhen m _ _

theorem field_cons (i : Item) : field ((m, i) :: rest) n = if n = m then i else field rest n := by
  rw [field, List.lookup_cons]
  by_cases h : n = m
  · simp [h]
  · simp [h, field, beq_eq_false_iff_ne.mpr h]

theorem field_always (i : Item) : field (always m i ++ rest) n = if n = m then i else field rest n :=
  field_cons m n i

theorem field_omitWhen (absent : Bool) (i : Item) : field (omitWhen absent m i ++ rest) n =
    if n = m then (if absent then field rest n else i) else field rest n := by
  cases absent with
  | true => simp [omitWhen]
  | false => exact field_cons m n i

/-- The last field of a record. -/
theorem field_omitWhen_last (absent : Bool) (i : Item) :
    field (omitWhen absent m i) n = if n = m then (if absent then null else i) else null := by
  have h : field (omitWhen absent m i ++ []) n =
      if n = m then (if absent then field [] n else i) else field [] n :=
    field_omitWhen m n absent i
  rwa [List.append_nil] at h

end Fields

/-! Values that are left out when they say nothing -/

@[simp] theorem toUInt16?_word (v : UInt16) : (word v).toUInt16? = some v := Cbor.toUInt16?_uint v

@[simp] theorem toUInt16?_optional (v : UInt16) :
    (if v = 0 then null else word v).toUInt16? = some v := by
  split
  case isTrue h => rw [h, Cbor.toUInt16?_null]
  case isFalse => exact toUInt16?_word v

@[simp] theorem toText?_optional {t : Text} (h : Utf8.isValid t) :
    (if t = [] then null else string t).toText? = some t := by
  split
  case isTrue hempty => rw [hempty, Cbor.toText?_null]
  case isFalse => exact Cbor.toText?_string h

@[simp] theorem toInt64?_optional (v : Int64) :
    (if v = 0 then null else ofInt v.toInt).toInt64? = some v := by
  split
  case isTrue h => rw [h, Cbor.toInt64?_null]
  case isFalse => exact Cbor.toInt64?_ofInt v

/-- A sequence that is null or left out when it is empty. -/
theorem toList?_optional {α : Type} {f : Item → Option α} {g : α → Item} {values : List α}
    (h : ∀ a ∈ values, f (g a) = some a) :
    (if values = [] then null else array (values.map g)).toList? f = some values := by
  split
  case isTrue hempty => rw [hempty, Cbor.toList?_null]
  case isFalse => exact Cbor.toList?_array h

/-- A record is read by reading its fields. -/
theorem read_record {α : Type} {fields : List (Text × Item)} {names : List Text} {a : α}
    {read : List (Text × Item) → Option α} (hkeys : Keyed fields names) (hnodup : names.Nodup)
    (hvalid : ∀ n ∈ names, Utf8.isValid n)
    (h : ∀ found, (∀ name, field found name = field fields name) → read found = some a) :
    ((record fields).toFields? names >>= read) = some a := by
  obtain ⟨found, hfound, hfield⟩ := Cbor.toFields?_record hkeys hnodup hvalid
  rw [hfound]
  exact h found hfield

/-! Members -/

theorem readField_fieldItem {f : Field} (hname : Utf8.isValid f.name)
    (hdescriptor : Utf8.isValid f.descriptor) : readField (fieldItem f) = some f := by
  refine read_record ((((keyed_always _ _).append (keyed_always _ _)).append
    (keyed_always _ _)).append (keyed_optionalWord _ _)) (by decide) (by simp [Text.isValid_ofString])
    fun found hfield => ?_
  simp only [hfield, List.append_assoc, field_always, optionalWord, field_omitWhen_last]
  simp [hname, hdescriptor]

theorem readHandler_handlerItem {h : Handler} (hcatch : Utf8.isValid h.catchType) :
    readHandler (handlerItem h) = some h := by
  refine read_record ((((keyed_always _ _).append (keyed_always _ _)).append
    (keyed_always _ _)).append (keyed_optionalText _ _)) (by decide) (by simp [Text.isValid_ofString])
    fun found hfield => ?_
  simp only [hfield, List.append_assoc, field_always, optionalText, field_omitWhen_last]
  simp [hcatch]

theorem readLine_lineItem (l : LineNumber) : readLine (lineItem l) = some l := by
  refine read_record ((keyed_always _ _).append (keyed_always _ _)) (by decide)
    (by simp [Text.isValid_ofString]) fun found hfield => ?_
  simp only [hfield, field_always]
  simp [always, field_cons]

theorem readCode_codeItem {c : Code} (hc : c.Packable) : readCode (codeItem c) = some c := by
  have hhandlers : ∀ h ∈ c.handlers, readHandler (handlerItem h) = some h := fun h hh =>
    readHandler_handlerItem (hc.catchTypes h hh).1
  have hlines : ∀ l ∈ c.lines, readLine (lineItem l) = some l := fun l _ => readLine_lineItem l
  refine read_record (((((keyed_always _ _).append (keyed_always _ _)).append
    (keyed_always _ _)).append (keyed_optionalList _ _)).append (keyed_optionalList _ _)) (by decide)
    (by simp [Text.isValid_ofString]) fun found hfield => ?_
  simp only [hfield, List.append_assoc, field_always, optionalList, field_omitWhen,
    field_omitWhen_last]
  simp [toList?_optional hhandlers, toList?_optional hlines]

theorem readMethod_methodItem {m : MethodInfo} (hm : m.Packable) :
    readMethod (methodItem m) = some m := by
  obtain ⟨name, descriptor, flags, code, throws⟩ := m
  have hname := hm.name.1
  have hdescriptor := hm.descriptor.1
  have hthrows : ∀ n ∈ throws, (string n).toText? = some n := fun n h =>
    Cbor.toText?_string (hm.throws_texts n h).1
  cases code with
  | none =>
      refine read_record (((((keyed_always _ _).append (keyed_always _ _)).append
        (keyed_always _ _)).append (keyed_nil ["code"])).append (keyed_optionalList _ _))
        (by decide) (by simp [Text.isValid_ofString]) fun found hfield => ?_
      simp only [hfield, List.append_assoc, List.nil_append, field_always, optionalList,
        field_omitWhen_last]
      simp [hname, hdescriptor, toList?_optional hthrows]
  | some c =>
      have hbody : (codeItem c).isNull = false := rfl
      refine read_record (((((keyed_always _ _).append (keyed_always _ _)).append
        (keyed_always _ _)).append (keyed_always _ _)).append (keyed_optionalList _ _))
        (by decide) (by simp [Text.isValid_ofString]) fun found hfield => ?_
      simp only [hfield, List.append_assoc, field_always, optionalList, field_omitWhen_last]
      simp [hname, hdescriptor, toList?_optional hthrows, hbody, readCode_codeItem (hm.code c rfl)]

/-! Constants -/

theorem constantOf_link (kind : LinkKind) (text : Text) (number : Int64) (bits : UInt64)
    (a b : UInt16) : constantOf kind.tag text number bits a b = .link kind a b := by
  cases kind <;> rfl

theorem constantOf_foreign {tag : UInt8} (htag : tag ∉ [0, 1, 3, 4, 5, 6])
    (hkind : LinkKind.ofTag? tag = none) (text : Text) (number : Int64) (bits : UInt64)
    (a b : UInt16) : constantOf tag text number bits a b = .foreign tag a b := by
  simp only [List.mem_cons, List.not_mem_nil, or_false, not_or] at htag
  simp [constantOf, Constant.ofTag, htag, hkind]

/-- A float that is left out when it is zero comes back as the one zero there is. -/
theorem toDouble?_packedBits (bits : UInt64) :
    (if Ieee.isZero (packedBits bits) then null else float (packedBits bits)).toDouble? =
      some (packedBits bits) := by
  rw [packedBits]
  split
  case isTrue => rfl
  split
  case isTrue => exact Cbor.toDouble?_null
  case isFalse => rfl

/-- A constant is read by reading what stands behind its tag. -/
theorem readConstant_record {tag : UInt8} {fields : List (Text × Item)} {text : Text}
    {number : Int64} {bits : UInt64} {a b : UInt16} (hkeys : Keyed fields ["s", "i", "f", "a", "b"])
    (htext : (field fields "s").toText? = some text)
    (hnumber : (field fields "i").toInt64? = some number)
    (hbits : (field fields "f").toDouble? = some bits)
    (ha : (field fields "a").toUInt16? = some a) (hb : (field fields "b").toUInt16? = some b) :
    readConstant (record (always "t" (.uint tag.toNat) ++ fields)) =
      some (constantOf tag text number bits a b) := by
  refine read_record ((keyed_always _ _).append hkeys) (by decide) (by simp [Text.isValid_ofString])
    fun found hfield => ?_
  simp only [hfield, field_always]
  simp [htext, hnumber, hbits, ha, hb]

/-! Each kind of constant says one thing, and the rest is left out. -/

theorem readConstant_nil (tag : UInt8) :
    readConstant (record (always "t" (.uint tag.toNat) ++ [])) =
      some (constantOf tag [] 0 0 0 0) :=
  readConstant_record (keyed_nil _) rfl rfl Cbor.toDouble?_null rfl rfl

theorem readConstant_text (tag : UInt8) {t : Text} (ht : Utf8.isValid t) :
    readConstant (record (always "t" (.uint tag.toNat) ++ optionalText "s" t)) =
      some (constantOf tag t 0 0 0 0) := by
  refine readConstant_record ((keyed_optionalText "s" t).widen (by decide)) ?_ ?_ ?_ ?_ ?_
  all_goals simp [optionalText, field_omitWhen_last, ht]

theorem readConstant_number (tag : UInt8) (v : Int64) :
    readConstant (record (always "t" (.uint tag.toNat) ++ omitWhen (v == 0) "i" (.ofInt v.toInt))) =
      some (constantOf tag [] v 0 0 0) := by
  refine readConstant_record ((keyed_omitWhen "i" _ _).widen (by decide)) ?_ ?_ ?_ ?_ ?_
  all_goals simp [field_omitWhen_last]

theorem readConstant_bits (tag : UInt8) (bits : UInt64) :
    readConstant (record (always "t" (.uint tag.toNat) ++
        omitWhen (Ieee.isZero (packedBits bits)) "f" (.float (packedBits bits)))) =
      some (constantOf tag [] 0 (packedBits bits) 0 0) := by
  refine readConstant_record ((keyed_omitWhen "f" _ _).widen (by decide)) ?_ ?_ ?_ ?_ ?_
  all_goals simp [field_omitWhen_last, toDouble?_packedBits]

theorem readConstant_words (tag : UInt8) (a b : UInt16) :
    readConstant (record (always "t" (.uint tag.toNat) ++ (optionalWord "a" a ++ optionalWord "b" b)))
      = some (constantOf tag [] 0 0 a b) := by
  have hkeys := (keyed_optionalWord "a" a).append (keyed_optionalWord "b" b)
  refine readConstant_record (hkeys.widen (by decide)) ?_ ?_ ?_ ?_ ?_
  all_goals simp [optionalWord, field_omitWhen, field_omitWhen_last]

theorem readConstant_constantItem {k : Constant} (hk : k.Packable) :
    readConstant (constantItem k.packed) = some k.packed := by
  cases k with
  | blank => exact readConstant_nil 0
  | utf8 t => exact readConstant_text 1 hk.1
  | integer v => exact readConstant_number 3 v
  | float bits => exact readConstant_bits 4 bits
  | long v => exact readConstant_number 5 v
  | double bits => exact readConstant_bits 6 bits
  | link kind a b =>
      exact (readConstant_words kind.tag a b).trans
        (congrArg some (constantOf_link kind _ _ _ a b))
  | foreign tag a b =>
      exact (readConstant_words tag a b).trans
        (congrArg some (constantOf_foreign hk.1 hk.2 _ _ _ a b))

/-! Classes -/

/-- A sequence that is written as null when it is empty. -/
theorem toList?_listOrNull {α : Type} {f : Item → Option α} {g : α → Item} {values : List α}
    (h : ∀ a ∈ values, f (g a) = some a) : (listOrNull (values.map g)).toList? f = some values := by
  have hread := toList?_optional h
  simpa [listOrNull] using hread

theorem readClass_classItem {c : ClassFile} (hc : c.Packable) :
    readClass (classItem c.packed) = some c.packed := by
  have hpool : ∀ k ∈ c.packed.pool.toList, readConstant (constantItem k) = some k := by
    intro k hk
    obtain ⟨k, hmem, rfl⟩ := Array.mem_map.mp (Array.mem_toList_iff.mp hk)
    exact readConstant_constantItem (hc.constants k hmem)
  have hname : Utf8.isValid c.packed.name := hc.name.1
  have hsuper : Utf8.isValid c.packed.superName := hc.superName.1
  have hinterfaces : ∀ n ∈ c.packed.interfaces, (string n).toText? = some n := fun n h =>
    Cbor.toText?_string (hc.interfaces_texts n h).1
  have hfields : ∀ f ∈ c.packed.fields, readField (fieldItem f) = some f := fun f h =>
    readField_fieldItem (hc.fields_texts f h).1.1 (hc.fields_texts f h).2.1
  have hmethods : ∀ m ∈ c.packed.methods, readMethod (methodItem m) = some m := fun m h =>
    readMethod_methodItem (hc.methods_packable m h)
  have hsource : Utf8.isValid c.packed.sourceFile := hc.sourceFile.1
  refine read_record ((((((((((keyed_always _ _).append (keyed_always _ _)).append
    (keyed_always _ _)).append (keyed_always _ _)).append (keyed_always _ _)).append
    (keyed_optionalText _ _)).append (keyed_optionalList _ _)).append
    (keyed_optionalList _ _)).append (keyed_optionalList _ _)).append (keyed_optionalText _ _))
    (by decide) (by simp [Text.isValid_ofString]) fun found hfield => ?_
  simp only [hfield, List.append_assoc, field_always, optionalText, optionalList, field_omitWhen,
    field_omitWhen_last]
  simp [toList?_listOrNull hpool, toList?_optional hinterfaces, toList?_optional hfields,
    toList?_optional hmethods, hname, hsuper, hsource]

/-! What comes back of an item -/

/-- The fields with their values as they come back. -/
def settle (fields : List (Text × Item)) : List (Text × Item) :=
  fields.map fun p => (p.1, p.2.settled)

section Settle

variable (fields rest : List (Text × Item)) (n : Text)

@[simp] theorem settle_append : settle (fields ++ rest) = settle fields ++ settle rest :=
  List.map_append

@[simp] theorem settle_nil : settle [] = [] := rfl

@[simp] theorem settle_always (i : Item) : settle (always n i) = always n i.settled := rfl

@[simp] theorem settle_omitWhen (absent : Bool) (i : Item) :
    settle (omitWhen absent n i) = omitWhen absent n i.settled := by
  cases absent <;> rfl

@[simp] theorem settle_optionalText (t : Text) : settle (optionalText n t) = optionalText n t :=
  settle_omitWhen n _ _

@[simp] theorem settle_optionalWord (v : UInt16) : settle (optionalWord n v) = optionalWord n v :=
  settle_omitWhen n _ _

@[simp] theorem settle_optionalList (items : List Item) :
    settle (optionalList n items) = optionalList n (items.map settled) := by
  cases items <;> simp [optionalList, settled]

@[simp] theorem settled_word (v : UInt16) : (word v).settled = word v := rfl

@[simp] theorem settled_string (t : Text) : (string t).settled = string t := rfl

@[simp] theorem settled_ofInt (n : Int) : (ofInt n).settled = ofInt n := by
  cases n <;> rfl

theorem settled_listOrNull (items : List Item) :
    (listOrNull items).settled = listOrNull (items.map settled) := by
  cases items with
  | nil => rfl
  | cons i items => simp [listOrNull, settled]

theorem settled_fieldItem (f : Field) : (fieldItem f).settled = fieldItem f := by
  rw [fieldItem, Cbor.settled_record, ← settle]
  simp

theorem settled_handlerItem (h : Handler) : (handlerItem h).settled = handlerItem h := by
  rw [handlerItem, Cbor.settled_record, ← settle]
  simp

theorem settled_lineItem (l : LineNumber) : (lineItem l).settled = lineItem l := by
  rw [lineItem, Cbor.settled_record, ← settle]
  simp

theorem settled_codeItem (c : Code) : (codeItem c).settled = codeItem c := by
  rw [codeItem, Cbor.settled_record, ← settle]
  simp [Function.comp_def, settled_handlerItem, settled_lineItem, settled]

theorem settled_methodItem (m : MethodInfo) : (methodItem m).settled = methodItem m := by
  rw [methodItem, Cbor.settled_record, ← settle]
  cases m.code with
  | none => simp [Function.comp_def]
  | some c => simp [Function.comp_def, settled_codeItem]

/-- The sign of a zero is not written, since a zero is not. -/
theorem settle_float (bits : UInt64) : settle (omitWhen (Ieee.isZero bits) n (.float bits)) =
    omitWhen (Ieee.isZero (packedBits bits)) n (.float (packedBits bits)) := by
  rw [settle_omitWhen, settled, packedBits]
  split
  case isTrue hnan => rw [Ieee.isZero_of_isNaN hnan, Ieee.isZero_of_isNaN (by decide)]
  split
  case isTrue hzero => rw [hzero]; rfl
  case isFalse => rfl

theorem settled_constantItem (k : Constant) : (constantItem k).settled = constantItem k.packed := by
  rw [constantItem.eq_def, Cbor.settled_record, ← settle, settle_append]
  cases k with
  | float bits => rw [settle_float]; rfl
  | double bits => rw [settle_float]; rfl
  | _ => simp [Constant.packed, constantItem, settled]

theorem settled_classItem (c : ClassFile) : (classItem c).settled = classItem c.packed := by
  rw [classItem, Cbor.settled_record, ← settle]
  simp [Function.comp_def, settled_listOrNull, settled_constantItem, settled_fieldItem,
    settled_methodItem, classItem, ClassFile.packed]

theorem settled_payloadItem (classes : List ClassFile) :
    (payloadItem (classes.map some)).settled =
      payloadItem ((classes.map ClassFile.packed).map some) := by
  rw [payloadItem, Cbor.settled_record, ← settle]
  simp [Function.comp_def, settled_listOrNull, settled_classItem, payloadItem]

end Settle

/-! Items that a reader takes -/

/-- At most `count` fields, whose values leave a reader `room` to nest. -/
def Fitting (room count : Nat) (fields : List (Text × Item)) : Prop :=
  fields.length ≤ count ∧ ∀ p ∈ fields, p.1.length < 2 ^ 64 ∧ p.2.Fits room

section Fitting

variable {room count count' : Nat} {fields rest : List (Text × Item)} {n : Text}

theorem Fitting.append (h : Fitting room count fields) (h' : Fitting room count' rest) :
    Fitting room (count + count') (fields ++ rest) := by
  refine ⟨?_, fun p hp => (List.mem_append.mp hp).elim (h.2 p) (h'.2 p)⟩
  rw [List.length_append]
  exact Nat.add_le_add h.1 h'.1

theorem fitting_nil : Fitting room 0 [] := ⟨Nat.le_refl 0, by simp⟩

theorem fitting_always {i : Item} (hn : n.length < 2 ^ 64) (hi : i.Fits room) :
    Fitting room 1 (always n i) := by
  refine ⟨Nat.le_refl 1, fun p hp => ?_⟩
  rw [always, List.mem_singleton] at hp
  exact hp ▸ ⟨hn, hi⟩

theorem fitting_omitWhen {absent : Bool} {i : Item} (hn : n.length < 2 ^ 64) (hi : i.Fits room) :
    Fitting room 1 (omitWhen absent n i) := by
  cases absent with
  | true => exact ⟨Nat.zero_le 1, by simp [omitWhen]⟩
  | false => exact fitting_always hn hi

theorem Fitting.record (h : Fitting room count fields) (hcount : count ≤ Cbor.maxElements) :
    (record fields).Fits (room + 1) :=
  Cbor.fits_record (h.1.trans hcount) (fun p hp => (h.2 p hp).1) fun p hp => (h.2 p hp).2

theorem fits_word (v : UInt16) : (word v).Fits room := .uint (by have := v.toNat_lt; omega)

theorem fits_string {t : Text} (h : HoldsText t) : (string t).Fits room := .string h.2

theorem fits_array {α : Type} {g : α → Item} {values : List α}
    (hlength : values.length ≤ Cbor.maxElements) (h : ∀ a ∈ values, (g a).Fits room) :
    (array (values.map g)).Fits (room + 1) :=
  .array (by rwa [List.length_map]) fun i hi => by
    obtain ⟨a, ha, rfl⟩ := List.mem_map.mp hi
    exact h a ha

theorem fits_listOrNull {α : Type} {g : α → Item} {values : List α}
    (hlength : values.length ≤ Cbor.maxElements) (h : ∀ a ∈ values, (g a).Fits room) :
    (listOrNull (values.map g)).Fits (room + 1) := by
  rw [listOrNull]
  split
  case isTrue => exact .null
  case isFalse => exact fits_array hlength h

theorem fits_ofInt (v : Int64) : (ofInt v.toInt).Fits room := by
  have hlo := v.le_toInt
  have hhi := v.toInt_lt
  cases hv : v.toInt with
  | ofNat n =>
      rw [hv, Int.ofNat_eq_natCast] at hhi
      exact .uint (by omega)
  | negSucc n => exact .negint (by omega)

theorem fits_fieldItem {f : Field} (hname : HoldsText f.name) (hdescriptor : HoldsText f.descriptor) :
    (fieldItem f).Fits (room + 1) :=
  ((((fitting_always (by decide) (fits_string hname)).append
    (fitting_always (by decide) (fits_string hdescriptor))).append
    (fitting_always (by decide) (fits_word _))).append
    (fitting_omitWhen (by decide) (fits_word _))).record (by decide)

theorem fits_handlerItem {h : Handler} (hcatch : HoldsText h.catchType) :
    (handlerItem h).Fits (room + 1) :=
  ((((fitting_always (by decide) (fits_word _)).append
    (fitting_always (by decide) (fits_word _))).append
    (fitting_always (by decide) (fits_word _))).append
    (fitting_omitWhen (by decide) (fits_string hcatch))).record (by decide)

theorem fits_lineItem (l : LineNumber) : (lineItem l).Fits (room + 1) :=
  ((fitting_always (by decide) (fits_word _)).append
    (fitting_always (by decide) (fits_word _))).record (by decide)

theorem fits_codeItem {c : Code} (hc : c.Packable) : (codeItem c).Fits (room + 3) :=
  (((((fitting_always (by decide) (fits_word _)).append
    (fitting_always (by decide) (fits_word _))).append
    (fitting_always (by decide) (.bytes hc.bytecode))).append
    (fitting_omitWhen (by decide) (fits_array hc.handlers fun h hh =>
      fits_handlerItem (hc.catchTypes h hh)))).append
    (fitting_omitWhen (by decide) (fits_array hc.lines fun l _ => fits_lineItem l))).record
    (by decide)

theorem fits_methodItem {m : MethodInfo} (hm : m.Packable) : (methodItem m).Fits (room + 4) := by
  refine (((((fitting_always (by decide) (fits_string hm.name)).append
    (fitting_always (by decide) (fits_string hm.descriptor))).append
    (fitting_always (by decide) (fits_word _))).append (show Fitting (room + 3) 1 _ from ?_)).append
    (fitting_omitWhen (by decide) (fits_array hm.throws fun n hn =>
      fits_string (hm.throws_texts n hn)))).record (by decide)
  cases h : m.code with
  | none => exact ⟨Nat.zero_le 1, by simp⟩
  | some c => exact fitting_always (by decide) (fits_codeItem (hm.code c h))

theorem fits_constantItem {k : Constant} (hk : k.Packable) :
    (constantItem k).Fits (room + 1) := by
  have htag : Fitting room 1 (always "t" (.uint k.tag.toNat)) :=
    fitting_always (by decide) (.uint (by have := k.tag.toNat_lt; omega))
  have hnumber (v : Int64) : Fitting room 1 (omitWhen (v == 0) "i" (.ofInt v.toInt)) :=
    fitting_omitWhen (by decide) (fits_ofInt v)
  have hbits (bits : UInt64) : Fitting room 1 (omitWhen (Ieee.isZero bits) "f" (.float bits)) :=
    fitting_omitWhen (by decide) (.float bits)
  have hwords (a b : UInt16) : Fitting room 2 (optionalWord "a" a ++ optionalWord "b" b) :=
    (fitting_omitWhen (by decide) (fits_word a)).append (fitting_omitWhen (by decide) (fits_word b))
  rw [constantItem.eq_def]
  cases k with
  | blank => exact (htag.append fitting_nil).record (by decide)
  | utf8 t => exact (htag.append (fitting_omitWhen (by decide) (fits_string hk))).record (by decide)
  | integer v => exact (htag.append (hnumber v)).record (by decide)
  | float bits => exact (htag.append (hbits bits)).record (by decide)
  | long v => exact (htag.append (hnumber v)).record (by decide)
  | double bits => exact (htag.append (hbits bits)).record (by decide)
  | link kind a b => exact (htag.append (hwords a b)).record (by decide)
  | foreign tag a b => exact (htag.append (hwords a b)).record (by decide)

theorem fits_classItem {c : ClassFile} (hc : c.Packable) : (classItem c).Fits (room + 6) :=
  ((((((((((fitting_always (by decide) (fits_word _)).append
    (fitting_always (by decide) (fits_word _))).append
    (fitting_always (by decide) (fits_listOrNull (by simpa using hc.pool) fun k hk =>
      fits_constantItem (hc.constants k (by simpa using hk))))).append
    (fitting_always (by decide) (fits_word _))).append
    (fitting_always (by decide) (fits_string hc.name))).append
    (fitting_omitWhen (by decide) (fits_string hc.superName))).append
    (fitting_omitWhen (by decide) (fits_array hc.interfaces fun n hn =>
      fits_string (hc.interfaces_texts n hn)))).append
    (fitting_omitWhen (by decide) (fits_array hc.fields fun f hf =>
      fits_fieldItem (hc.fields_texts f hf).1 (hc.fields_texts f hf).2))).append
    (fitting_omitWhen (by decide) (fits_array hc.methods fun m hm =>
      fits_methodItem (hc.methods_packable m hm)))).append
    (fitting_omitWhen (by decide) (fits_string hc.sourceFile))).record (by decide)

theorem fits_payloadItem {classes : List ClassFile} (hlength : classes.length ≤ Cbor.maxElements)
    (h : ∀ c ∈ classes, c.Packable) : (payloadItem (classes.map some)).Fits (room + 8) := by
  have hclasses : (listOrNull ((classes.map some).map fun c => c.elim null classItem)).Fits
      (room + 7) := by
    rw [List.map_map]
    exact fits_listOrNull hlength fun c hc => fits_classItem (h c hc)
  exact (fitting_always (by decide) hclasses).record (by decide)

end Fitting

/-- The classes of a bundle are read back from their item. -/
theorem readPayload_payloadItem {classes : List ClassFile} (h : ∀ c ∈ classes, c.Packable) :
    readPayload (payloadItem (classes.map some)).settled =
      some ((classes.map ClassFile.packed).map some) := by
  rw [settled_payloadItem]
  have hplaces : ∀ place ∈ (classes.map ClassFile.packed).map some,
      (if (place.elim null classItem).isNull then some none
        else (readClass (place.elim null classItem)).map some) = some place := by
    intro place hplace
    obtain ⟨d, hd, rfl⟩ := List.mem_map.mp hplace
    obtain ⟨c, hc, rfl⟩ := List.mem_map.mp hd
    have hnull : (classItem c.packed).isNull = false := rfl
    simp [hnull, readClass_classItem (h c hc)]
  refine read_record (keyed_always _ _) (by decide) (by simp [Text.isValid_ofString])
    fun found hfield => ?_
  rw [hfield, always, field_cons, if_pos rfl]
  exact toList?_listOrNull hplaces

end Bundle

end ClassEngine
