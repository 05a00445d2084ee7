import ClassEngine.Proofs.ClassFile.PoolRoundTrip

/-!
What is written for the fields and methods of a class is read back. Each statement says what one
step of encoding yields: bytes that the matching decoder reads, whatever pool serves for the one
that was grown so far.
-/

namespace ClassEngine

/-- The lists of a body can be counted, and its catch types are valid texts. -/
structure Code.Canonical (c : Code) : Prop where
  handlers : c.handlers.length ≤ 65535
  lines : c.lines.length ≤ 65535
  catchTypes : ∀ h ∈ c.handlers, Utf8.isValid h.catchType

/-- The texts of a method are valid, its declared exceptions have names and can be counted, and so
with its body. -/
structure MethodInfo.Canonical (m : MethodInfo) : Prop where
  name : Utf8.isValid m.name
  descriptor : Utf8.isValid m.descriptor
  code : ∀ body, m.code = some body → body.Canonical
  throws : m.throws.length ≤ 65535
  throws_valid : ∀ name ∈ m.throws, Utf8.isValid name
  throws_ne : ∀ name ∈ m.throws, name ≠ []

namespace ClassFile

open Decoder

/-- The bytes in which an attribute is written. -/
def WritesAttribute (c : ClassFile) (a : Attribute) (part : List UInt8) : Prop :=
  ∃ (i : UInt16) (size : UInt32), c.utf8 i = .ok a.name ∧ size.toNat = a.data.length ∧
    part = u2Bytes i ++ (u4Bytes size ++ a.data)

theorem reads_decodeAttributes {c : ClassFile} {attrs : List Attribute}
    {parts : List (List UInt8)} (h : List.Forall₂ (WritesAttribute c) attrs parts)
    (hlength : attrs.length ≤ 65535) :
    Reads (decodeAttributes c) (countBytes attrs.length ++ parts.flatten) attrs := by
  refine reads_counted (h.imp ?_) hlength
  rintro a part ⟨i, size, hname, hsize, rfl⟩ _
  apply (reads_index i).bind
  apply ((Reads.lookup hname).inside _).bind_nil
  apply (reads_u4 size).bind
  rw [hsize]
  exact (reads_bytes a.data).bind_pure (.pure _)

/-- The attributes of a member that has none. -/
theorem reads_noAttributes (c : ClassFile) : Reads (decodeAttributes c) (u2Bytes 0) [] := by
  have h := reads_decodeAttributes (c := c) .nil (by simp)
  rwa [List.flatten_nil, List.append_nil] at h

/-- The attributes of a member that has one. -/
theorem reads_oneAttribute {c : ClassFile} {a : Attribute} {i : UInt16} {size : UInt32}
    (hname : c.utf8 i = .ok a.name) (hsize : size.toNat = a.data.length) :
    Reads (decodeAttributes c) (u2Bytes 1 ++ (u2Bytes i ++ (u4Bytes size ++ a.data))) [a] := by
  have h := reads_decodeAttributes (.cons ⟨i, size, hname, hsize, rfl⟩ .nil) (by simp)
  rwa [List.flatten_cons, List.flatten_nil, List.append_nil] at h

theorem Attribute.leading?_word (name : Text) (v : UInt16) (rest : List UInt8) :
    Attribute.leading? ⟨name, u2Bytes v ++ rest⟩ = some v :=
  congrArg some (word_of_bytes v)

/-- What a list of items yields is the parts of its items in order. -/
theorem yields_encodeAll {α : Type} {f : α → Encoder (List UInt8)}
    {P : ClassFile → α → List UInt8 → Prop} {items : List α}
    (h : ∀ a ∈ items, Yields (f a) fun c b => P c a b) :
    Yields (encodeAll f items) fun c b =>
      ∃ parts : List (List UInt8), b = parts.flatten ∧ List.Forall₂ (P c) items parts := by
  apply (Yields.mapM h).bind
  intro parts
  exact .pure fun c hparts => ⟨parts, rfl, hparts⟩

/-- The empty name has index 0 and every other name the index of its class. -/
theorem yields_optionalClassIndex {name : Text} (hvalid : Utf8.isValid name) :
    Yields (optionalClassIndex name) fun c i =>
      ∀ place, Reads (optionalClassName c place i) [] name := by
  rw [optionalClassIndex]
  split
  case isTrue hempty =>
    obtain rfl : name = [] := by simpa using hempty
    exact .pure fun c place => .pure _
  case isFalse hne =>
    apply (yields_classIndex hvalid (by simpa using hne)).mono
    rintro c i ⟨hi, hname⟩ place
    rw [optionalClassName, if_neg hi]
    exact (Reads.lookup hname).inside place

theorem reads_decodeField {c : ClassFile} {f : Field} {n d : UInt16} (hn : c.utf8 n = .ok f.name)
    (hd : c.utf8 d = .ok f.descriptor) {b : List UInt8} {attrs : List Attribute}
    (hattrs : Reads (decodeAttributes c) b attrs)
    (hvalue : ((attrs.filter fun a => a.name == ("ConstantValue" : Text)).filterMap
      Attribute.leading?).getLast?.getD 0 = f.constantValue) (i : Nat) :
    Reads (decodeField c i)
      (u2Bytes f.flags.bits ++ (u2Bytes n ++ (u2Bytes d ++ b))) f := by
  apply (reads_index _).bind
  apply (reads_index n).bind
  apply ((Reads.lookup hn).inside _).bind_nil
  apply (reads_index d).bind
  apply ((Reads.lookup hd).inside _).bind_nil
  apply (hattrs.inside _).bind_pure
  dsimp only
  rw [hvalue]
  exact .pure _

theorem yields_encodeField {f : Field} (hname : Utf8.isValid f.name)
    (hdescriptor : Utf8.isValid f.descriptor) :
    Yields (encodeField f) fun c b => ∀ i, Reads (decodeField c i) b f := by
  apply (yields_textIndex hname).bind
  intro n
  apply (yields_textIndex hdescriptor).bind
  intro d
  by_cases hzero : f.constantValue = 0
  · rw [if_pos hzero]
    apply Yields.pure
    intro c hd hn
    simp only [List.append_assoc]
    exact reads_decodeField hn.2 hd.2 (reads_noAttributes c) hzero.symm
  · rw [if_neg hzero]
    have hvalid : Utf8.isValid ("ConstantValue" : Text) :=
      ModifiedUtf8.isValid_of_isPlain (by decide)
    apply (yields_textIndex hvalid).bind
    intro attr
    apply Yields.pure
    intro c hattr hd hn
    have hsize : (2 : UInt32).toNat = (u2Bytes f.constantValue).length := rfl
    have hattrs := reads_oneAttribute (a := ⟨"ConstantValue", u2Bytes f.constantValue⟩)
      hattr.2 hsize
    have hword := Attribute.leading?_word "ConstantValue" f.constantValue []
    rw [List.append_nil] at hword
    simp only [List.append_assoc]
    exact reads_decodeField hn.2 hd.2 hattrs (by simp [hword])

/-- An entry of an exception table takes eight bytes. -/
theorem yields_encodeHandler {method : Text} {h : Handler} (hcatch : Utf8.isValid h.catchType) :
    Yields (encodeHandler method h) fun c b =>
      b.length = 8 ∧ ∀ i, Reads (decodeHandler c i) b h := by
  rw [encodeHandler]
  split
  case isTrue => exact .throw
  case isFalse =>
    apply (yields_optionalClassIndex hcatch).bind
    intro catchIndex
    apply Yields.pure
    intro c hclass
    refine ⟨rfl, fun i => ?_⟩
    simp only [List.append_assoc]
    apply (reads_u2 _).bind
    apply (reads_u2 _).bind
    apply (reads_u2 _).bind
    apply (reads_u2 _).bind_pure
    exact (hclass _).bind_pure (.pure _)

theorem length_flatten_of_forall {α : Type} {n : Nat} {P : α → List UInt8 → Prop} {items : List α}
    {parts : List (List UInt8)} (h : List.Forall₂ (fun a b => b.length = n ∧ P a b) items parts) :
    parts.flatten.length = n * items.length := by
  induction h with
  | nil => rfl
  | cons hhead _ ih =>
      rw [List.flatten_cons, List.length_append, ih, hhead.1, List.length_cons, Nat.mul_succ,
        Nat.add_comm]

/-- The number of bytes that the line table of a body takes, its count of attributes included. -/
def linesLength (lines : List LineNumber) : Nat :=
  if lines.isEmpty then 2 else 10 + 4 * lines.length

/-- The number of bytes that the body of a method takes in a class file. -/
def codeLength (c : Code) : Nat :=
  10 + c.bytecode.size + 8 * c.handlers.length + linesLength c.lines

theorem reads_decodeLine (l : LineNumber) :
    Reads decodeLine (u2Bytes l.start ++ u2Bytes l.line) l :=
  (reads_u2 _).bind ((reads_u2 _).bind_pure (.pure _))

/-- The bytes of a line table. -/
def lineBytes (lines : List LineNumber) : List UInt8 :=
  countBytes lines.length ++ lines.flatMap fun l => u2Bytes l.start ++ u2Bytes l.line

theorem length_lineBytes (lines : List LineNumber) :
    (lineBytes lines).length = 2 + 4 * lines.length := by
  have h : ((lines.map fun l => u2Bytes l.start ++ u2Bytes l.line).flatten).length =
      4 * lines.length := by
    apply length_flatten_of_forall (P := fun _ _ => True)
    rw [List.forall₂_map_right_iff, List.forall₂_same]
    exact fun l _ => ⟨rfl, trivial⟩
  rw [lineBytes, List.length_append, List.flatMap_def, h]
  rfl

theorem reads_lineBytes {lines : List LineNumber} (hlength : lines.length ≤ 65535) :
    Reads (counted fun _ => decodeLine) (lineBytes lines) lines := by
  rw [lineBytes, List.flatMap_def]
  refine reads_counted ?_ hlength
  rw [List.forall₂_map_right_iff, List.forall₂_same]
  exact fun l _ _ => reads_decodeLine l

theorem toNat_toUInt32_of_lt {n : Nat} (h : n < 4294967296) : n.toUInt32.toNat = n :=
  UInt32.toNat_ofNat_of_lt' h

theorem yields_encodeLines {lines : List LineNumber} (hlength : lines.length ≤ 65535) :
    Yields (encodeLines lines) fun c b => b.length = linesLength lines ∧
      ∃ attrs, Reads (decodeAttributes c) b attrs ∧ decodeLineTables attrs = .ok lines := by
  rw [encodeLines, linesLength]
  split
  case isTrue hempty =>
    obtain rfl : lines = [] := by simpa using hempty
    exact .pure fun c => ⟨rfl, [], reads_noAttributes c, rfl⟩
  case isFalse =>
    have hvalid : Utf8.isValid ("LineNumberTable" : Text) :=
      ModifiedUtf8.isValid_of_isPlain (by decide)
    apply (yields_textIndex hvalid).bind
    intro attr
    apply Yields.pure
    intro c hattr
    have hsize : (2 + 4 * lines.length).toUInt32.toNat = (lineBytes lines).length := by
      rw [length_lineBytes, toNat_toUInt32_of_lt (by omega)]
    have hattrs := reads_oneAttribute (a := ⟨"LineNumberTable", lineBytes lines⟩) hattr.2 hsize
    have hbytes : ∀ size : UInt32, u2Bytes 1 ++ u2Bytes attr ++ u4Bytes size ++
        countBytes lines.length ++ (lines.flatMap fun l => u2Bytes l.start ++ u2Bytes l.line) =
        u2Bytes 1 ++ (u2Bytes attr ++ (u4Bytes size ++ lineBytes lines)) := by
      intro size
      simp only [lineBytes, List.append_assoc]
    rw [hbytes]
    refine ⟨?_, _, hattrs, ?_⟩
    · simp only [List.length_append, length_lineBytes]
      simp only [u2Bytes, u4Bytes, List.length_cons, List.length_nil]
      omega
    · rw [decodeLineTables, if_pos (by simp), (reads_lineBytes hlength).onBytes]
      change Except.ok (lines ++ []) = _
      rw [List.append_nil]

/-- The body of a method is read back, and takes the bytes that `codeLength` counts. -/
theorem yields_encodeCode {method : Text} {code : Code} (hcode : code.Canonical)
    (hlength : codeLength code < 4294967296) :
    Yields (encodeCode method code) fun c b =>
      b.length = codeLength code ∧ Reads (decodeCode c) b code := by
  apply (yields_encodeAll fun h hh => yields_encodeHandler (hcode.catchTypes h hh)).bind
  intro handlers
  apply (yields_encodeLines hcode.lines).bind
  intro lines
  apply Yields.pure
  rintro c ⟨hlineLength, attrs, hattrs, htables⟩ ⟨parts, rfl, hparts⟩
  rw [codeLength] at hlength
  constructor
  · have hparts' := length_flatten_of_forall hparts
    simp only [List.length_append, hlineLength, hparts', codeLength, Array.length_toList]
    simp only [countBytes, u2Bytes, u4Bytes, List.length_cons, List.length_nil]
    omega
  · simp only [List.append_assoc]
    apply (reads_u2 _).bind
    apply (reads_u2 _).bind
    apply (reads_u4 _).bind
    rw [toNat_toUInt32_of_lt (by omega), ← Array.length_toList]
    apply (reads_bytes _).bind
    rw [← List.append_assoc]
    apply (reads_counted (hparts.imp fun _ _ h => h.2) hcode.handlers).bind
    apply hattrs.bind_pure
    exact (Reads.lift htables).bind_pure (.pure _)

/-- Attributes that are written as `b` and say of a method what `change` does to it. -/
def WritesMethodAttributes (c : ClassFile) (n : Nat) (change : MethodInfo → MethodInfo)
    (b : List UInt8) : Prop :=
  ∃ (attrs : List Attribute) (parts : List (List UInt8)), b = parts.flatten ∧ attrs.length = n ∧
    List.Forall₂ (WritesAttribute c) attrs parts ∧
    ∀ m, attrs.foldlM (applyMethodAttribute c) m = .ok (change m)

/-- The body of a method is one attribute, and a method without a body has none for it. -/
theorem yields_encodeBody {method : Text} {code : Option Code}
    (hcode : ∀ body, code = some body → body.Canonical)
    (hlength : ∀ body, code = some body → codeLength body < 4294967296) :
    Yields (encodeBody method code) fun c b =>
      WritesMethodAttributes c (if code.isSome then 1 else 0)
        (fun m => { m with code := code.or m.code }) b := by
  cases code with
  | none =>
      refine .pure fun c => ⟨[], [], rfl, rfl, .nil, ?_⟩
      intro m
      simp only [Option.none_or]
      rfl
  | some body =>
      have hvalid : Utf8.isValid ("Code" : Text) := ModifiedUtf8.isValid_of_isPlain (by decide)
      apply (yields_encodeCode (hcode body rfl) (hlength body rfl)).bind
      intro b
      apply (yields_textIndex hvalid).bind
      intro attr
      apply Yields.pure
      rintro c ⟨_, hattr⟩ ⟨hb, hread⟩
      have hsize : b.length.toUInt32.toNat = b.length :=
        toNat_toUInt32_of_lt (hb ▸ hlength body rfl)
      refine ⟨[⟨"Code", b⟩], [u2Bytes attr ++ (u4Bytes b.length.toUInt32 ++ b)], by simp, rfl,
        .cons ⟨attr, _, hattr, hsize, rfl⟩ .nil, ?_⟩
      intro m
      rw [List.foldlM_cons, applyMethodAttribute, if_pos (by simp), hread.onBytes]
      rfl

/-- The index of a class name is two bytes under which the name is found. -/
theorem yields_className {name : Text} (hvalid : Utf8.isValid name) (hne : name ≠ []) :
    Yields (do pure (u2Bytes (← classIndex name))) fun c b =>
      b.length = 2 ∧ ∃ i, b = u2Bytes i ∧ c.className i = .ok name := by
  apply (yields_classIndex hvalid hne).bind
  intro i
  exact .pure fun c hi => ⟨rfl, i, rfl, hi.2⟩

theorem decodeThrows_eq {c : ClassFile} {names : List Text} {parts : List (List UInt8)}
    (hlength : names.length ≤ 65535)
    (h : List.Forall₂ (fun name b => b.length = 2 ∧ ∃ i, b = u2Bytes i ∧ c.className i = .ok name)
      names parts) :
    decodeThrows c ⟨"Exceptions", countBytes names.length ++ parts.flatten⟩ = .ok names := by
  rw [decodeThrows, countBytes, Attribute.leading?_word]
  have hread : Reads (repeated (fun _ => do
      let i ← index
      lookup (c.className i)) names.length 0) parts.flatten names := by
    refine reads_repeated (h.imp ?_) 0
    rintro name part ⟨_, i, rfl, hname⟩ _
    exact (reads_index i).bind_pure (.lookup hname)
  change onBytes parts.flatten (repeated _ names.length.toUInt16.toNat 0) = _
  rw [toNat_toUInt16_of_le hlength, hread.onBytes]

/-- Declared exceptions are one attribute, and a method without any has none for them. -/
theorem yields_encodeThrows {names : List Text} (hvalid : ∀ name ∈ names, Utf8.isValid name)
    (hne : ∀ name ∈ names, name ≠ []) (hlength : names.length ≤ 65535) :
    Yields (encodeThrows names) fun c b =>
      WritesMethodAttributes c (if names.isEmpty then 0 else 1)
        (fun m => { m with throws := m.throws ++ names }) b := by
  rw [encodeThrows]
  split
  case isTrue hempty =>
    obtain rfl : names = [] := by simpa using hempty
    refine .pure fun c => ⟨[], [], rfl, rfl, .nil, ?_⟩
    intro m
    simp only [List.append_nil]
    rfl
  case isFalse =>
    have hname : Utf8.isValid ("Exceptions" : Text) := ModifiedUtf8.isValid_of_isPlain (by decide)
    apply (yields_textIndex hname).bind
    intro attr
    apply (yields_encodeAll fun name h => yields_className (hvalid name h) (hne name h)).bind
    intro indices
    apply Yields.pure
    rintro c ⟨parts, rfl, hparts⟩ ⟨_, hattr⟩
    have hsize : (2 + 2 * names.length).toUInt32.toNat =
        (countBytes names.length ++ parts.flatten).length := by
      rw [toNat_toUInt32_of_lt (by omega), List.length_append, length_flatten_of_forall hparts]
      rfl
    refine ⟨[⟨"Exceptions", countBytes names.length ++ parts.flatten⟩], [_], ?_, rfl,
      .cons ⟨attr, _, hattr, hsize, rfl⟩ .nil, ?_⟩
    · simp only [List.flatten_cons, List.flatten_nil, List.append_nil, List.append_assoc]
    · intro m
      have hother : (("Exceptions" : Text) == ("Code" : Text)) = false := by decide
      rw [List.foldlM_cons, applyMethodAttribute, if_neg (Bool.eq_false_iff.mp hother),
        if_pos (by simp), decodeThrows_eq hlength hparts]
      rfl

/-- A method is read back with its body and its declared exceptions. -/
theorem yields_encodeMethod {owner : Text} {m : MethodInfo} (hm : m.Canonical)
    (hlength : ∀ body, m.code = some body → codeLength body < 4294967296) :
    Yields (encodeMethod owner m) fun c b => ∀ i, Reads (decodeMethod c i) b m := by
  apply (yields_textIndex hm.name).bind
  intro n
  apply (yields_textIndex hm.descriptor).bind
  intro d
  apply (yields_encodeBody hm.code hlength).bind
  intro body
  apply (yields_encodeThrows hm.throws_valid hm.throws_ne hm.throws).bind
  intro declared
  apply Yields.pure
  rintro c ⟨attrs', parts', rfl, hcount', hattrs', hdeclared⟩
    ⟨attrs, parts, rfl, hcount, hattrs, hbody⟩ ⟨_, hd⟩ ⟨_, hn⟩ i
  have hlist : Reads (decodeAttributes c)
      (countBytes (attrs ++ attrs').length ++ (parts ++ parts').flatten) (attrs ++ attrs') := by
    apply reads_decodeAttributes (List.rel_append hattrs hattrs')
    rw [List.length_append, hcount, hcount']
    split <;> split <;> decide
  have hfold : (attrs ++ attrs').foldlM (applyMethodAttribute c)
      ⟨m.name, m.descriptor, ⟨m.flags.bits⟩, none, []⟩ = .ok m := by
    rw [List.foldlM_append, hbody]
    change attrs'.foldlM (applyMethodAttribute c) _ = _
    simp only [hdeclared, Option.or_none, List.nil_append]
  rw [List.length_append, hcount, hcount', List.flatten_append] at hlist
  simp only [List.append_assoc]
  apply (reads_index _).bind
  apply (reads_index n).bind
  apply ((Reads.lookup hn).inside _).bind_nil
  apply (reads_index d).bind
  apply ((Reads.lookup hd).inside _).bind_nil
  exact (hlist.inside _).bind_pure (.lift hfold)

end ClassFile

end ClassEngine
