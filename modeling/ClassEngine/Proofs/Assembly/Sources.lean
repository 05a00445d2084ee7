import ClassEngine.Proofs.Assembly.Pools

/-!
What is built from the description of a class: its fields and methods are declared in order, and a
body of plain lines has an index behind each line that names a member, at which the class is read as
that member. Only labels can keep a class from being built. Main results: `build_declares`,
`build_succeeds`.
-/

namespace ClassEngine

open Assembler Assemble

/-- The flags that a method is declared with. -/
def MethodSource.declaredFlags (m : MethodSource) : AccessFlags :=
  match m.body with
  | .native => m.flags.adding AccessFlags.nativeBit
  | .abstract => m.flags.adding AccessFlags.abstractBit
  | .missing | .code _ _ _ => m.flags

/-- How many entries the declaration of a method adds to the pool at most. -/
def MethodSource.weight (m : MethodSource) : Nat :=
  match m.body with
  | .code _ _ lines => 4 + 12 * lines.length
  | _ => 4

/-- How many entries the pool of a class has at most. -/
def ClassSource.weight (c : ClassSource) : Nat :=
  9 + 4 * c.interfaces.length + 2 * c.filler + 16 * c.fields.length +
    (c.methods.map MethodSource.weight).sum

/-- The code of a method, if the indices of members are given by `R`. -/
inductive MethodBody.Gives (R : ConstantSource → UInt16 → Prop) : MethodBody → Option Code → Prop
  | native : Gives R .native none
  | abstract : Gives R .abstract none
  | missing : Gives R .missing none
  | code {maxStack maxLocals : UInt16} {lines : List Directive} {c : Code}
      (hlocals : c.maxLocals = maxLocals)
      (hplain : (∀ d ∈ lines, d.IsPlain) → Directive.EmitsAll R lines c.bytecode.toList) :
      Gives R (.code maxStack maxLocals lines) (some c)

/-- A method is declared as it is described. -/
structure MethodSource.Declares (R : ConstantSource → UInt16 → Prop) (m : MethodSource)
    (info : MethodInfo) : Prop where
  name : info.name = m.name
  descriptor : info.descriptor = m.descriptor
  flags : info.flags = m.declaredFlags
  body : m.body.Gives R info.code

/-- A field is declared as it is described. -/
def FieldSource.Declares (s : FieldSource) (f : Field) : Prop :=
  f.name = s.name ∧ f.descriptor = s.descriptor

section Mono

variable {R R' : ConstantSource → UInt16 → Prop}

theorem MethodBody.Gives.mono {body : MethodBody} {code : Option Code} (h : body.Gives R code)
    (hle : ∀ k i, k.IsSymbol → R k i → R' k i) : body.Gives R' code := by
  cases h with
  | native => exact .native
  | abstract => exact .abstract
  | missing => exact .missing
  | code hlocals hplain => exact .code hlocals fun hd => (hplain hd).mono hle

theorem MethodSource.Declares.mono {m : MethodSource} {info : MethodInfo} (h : m.Declares R info)
    (hle : ∀ k i, k.IsSymbol → R k i → R' k i) : m.Declares R' info :=
  ⟨h.name, h.descriptor, h.flags, h.body.mono hle⟩

end Mono

namespace Builder

/-- The names of a member are interned before it is declared. -/
theorem continues_member (name descriptor : Text) {f : ClassFile → ClassFile}
    (hf : ∀ c, (f c).pool = c.pool) (b : Builder) :
    ∃ b₁, b.Fills 4 b₁ ∧ b.Continues 4 { b₁ with file := f b₁.file } ∧
      (do let _ ← utf8 name; let _ ← utf8 descriptor; modifyFile f : Build Unit) b =
        ((), { b₁ with file := f b₁.file }) := by
  have hnames : Interns (do let _ ← utf8 name; utf8 descriptor) fun _ _ => True :=
    (interns_utf8 name).then fun _ => (interns_utf8 descriptor).mono fun _ _ _ => trivial
  have hfills : b.Fills 4 ((do let _ ← utf8 name; utf8 descriptor : Build UInt16) b).2 :=
    hnames.fills ((addsAtMost_intern _).bind fun _ => addsAtMost_intern _)
      ((keepsMembers_intern _).bind fun _ => keepsMembers_intern _) b
  have hdeclared := interns_member name descriptor hf b
  refine ⟨_, hfills, ⟨hdeclared.1, hdeclared.2.1, ?_⟩, rfl⟩
  rw [hf]
  exact hfills.size

theorem addMethod_ok (flags : AccessFlags) (name descriptor : Text) (code : Option Code)
    (throws : List Text) (b : Builder) :
    ∃ b', (addMethod flags name descriptor code throws).run b = ((), b') ∧ b.Continues 4 b' ∧
      b'.file.fields = b.file.fields ∧
      b'.file.methods = b.file.methods ++ [⟨name, descriptor, flags, code, throws⟩] := by
  obtain ⟨b₁, hfills, hcontinues, hrun⟩ := continues_member name descriptor
    (f := fun c => { c with methods := c.methods ++ [⟨name, descriptor, flags, code, throws⟩] })
    (by intro c; rfl) b
  exact ⟨_, hrun, hcontinues, hfills.fields, congrArg (· ++ _) hfills.methods⟩

theorem addField_ok (flags : AccessFlags) (name descriptor : Text) (constantValue : UInt16)
    (b : Builder) :
    ∃ b', addField flags name descriptor constantValue b = ((), b') ∧ b.Continues 4 b' ∧
      b'.file.methods = b.file.methods ∧
      b'.file.fields = b.file.fields ++ [⟨name, descriptor, flags, constantValue⟩] := by
  obtain ⟨b₁, hfills, hcontinues, hrun⟩ := continues_member name descriptor
    (f := fun c => { c with fields := c.fields ++ [⟨name, descriptor, flags, constantValue⟩] })
    (by intro c; rfl) b
  exact ⟨_, hrun, hcontinues, hfills.methods, congrArg (· ++ _) hfills.fields⟩

/-- The computation declares no member, and adds at most `n` entries. -/
def Filling {α : Type} (n : Nat) (x : Build α) : Prop :=
  ∀ b : Builder, b.Fills n (x b).2

theorem Filling.bind {α β : Type} {x : Build α} {f : α → Build β} {m n : Nat} (hx : Filling m x)
    (hf : ∀ a, Filling n (f a)) : Filling (m + n) (x >>= f) :=
  fun b => (hx b).trans (hf _ _)

theorem filling_pure {α : Type} (a : α) : Filling 0 (pure a : Build α) :=
  fun b => .refl b

theorem filling_classRef (name : Text) : Filling 4 (classRef name) :=
  (interns_classRef name).fills (addsAtMost_classRef name) (keepsMembers_classRef name)

theorem filling_modifyFile {f : ClassFile → ClassFile} (hpool : ∀ c, (f c).pool = c.pool)
    (hfields : ∀ c, (f c).fields = c.fields) (hmethods : ∀ c, (f c).methods = c.methods) :
    Filling 0 (modifyFile f) := by
  intro b
  have hinterns := interns_modifyFile hpool b
  exact ⟨⟨hinterns.1, hinterns.2.1, (congrArg Array.size (hpool b.file)).le⟩, hfields _, hmethods _⟩

/-- A class that was only started has no members. -/
theorem start_fills (name superName : Text) (flags : AccessFlags) :
    ∃ b : Builder, b.Indexed ∧ b.file.pool.size = 1 ∧ b.file.fields = [] ∧ b.file.methods = [] ∧
      b.Fills 8 (start name superName flags) := by
  refine ⟨⟨⟨0, ClassFile.defaultMajor, #[.blank], flags, name, superName, [], [], [], []⟩, {}⟩,
    indexed_bare _ rfl, rfl, rfl, rfl, ?_⟩
  refine (interns_enter name superName).fills (addsAtMost_enter name superName) ?_ _
  refine (keepsMembers_classRef name).bind fun _ => ?_
  split
  · exact fun _ => ⟨rfl, rfl⟩
  · exact (keepsMembers_classRef superName).bind fun _ _ => ⟨rfl, rfl⟩

end Builder

namespace ClassSource

open Builder (Filling filling_pure filling_classRef filling_modifyFile)

variable {b b' : Builder}

/-- A method is declared behind the others. -/
theorem addMethod_ok {m : MethodSource} (h : addMethod m b = .ok b') :
    b.Continues m.weight b' ∧ b'.file.fields = b.file.fields ∧
      ∃ info, b'.file.methods = b.file.methods ++ [info] ∧
        (b'.file.pool.size ≤ Builder.maxEntries → ∀ b'', b'.Grows b'' →
          m.Declares (fun k i => b''.symbol? k = some i) info) := by
  have hdeclare := fun flags code => Builder.addMethod_ok flags m.name m.descriptor code m.throws
  obtain ⟨name, descriptor, flags, body, throws⟩ := m
  cases body with
  | native =>
      obtain ⟨b₁, hrun, hcontinues, hfields, hmethods⟩ :=
        hdeclare (flags.adding AccessFlags.nativeBit) none b
      obtain rfl : b₁ = b' := (congrArg Prod.snd hrun).symm.trans (Except.ok.inj h)
      exact ⟨hcontinues, hfields, _, hmethods, fun _ _ _ => ⟨rfl, rfl, rfl, .native⟩⟩
  | abstract =>
      obtain ⟨b₁, hrun, hcontinues, hfields, hmethods⟩ :=
        hdeclare (flags.adding AccessFlags.abstractBit) none b
      obtain rfl : b₁ = b' := (congrArg Prod.snd hrun).symm.trans (Except.ok.inj h)
      exact ⟨hcontinues, hfields, _, hmethods, fun _ _ _ => ⟨rfl, rfl, rfl, .abstract⟩⟩
  | missing =>
      obtain ⟨b₁, hrun, hcontinues, hfields, hmethods⟩ := hdeclare flags none b
      obtain rfl : b₁ = b' := (congrArg Prod.snd hrun).symm.trans (Except.ok.inj h)
      exact ⟨hcontinues, hfields, _, hmethods, fun _ _ _ => ⟨rfl, rfl, rfl, .missing⟩⟩
  | code maxStack maxLocals lines =>
      obtain ⟨a, hassembled, hrest⟩ := of_except_bind_ok h
      obtain ⟨code, hfinish, hdone⟩ := of_except_bind_ok hrest
      obtain ⟨handlers, -, hcode⟩ := of_except_bind_ok hfinish
      obtain ⟨b₁, hb₁, hfills⟩ := Directive.assembleAll_fillsPool hassembled rfl
      obtain ⟨b₂, hrun, hcontinues, hfields, hmethods⟩ := hdeclare flags (some code) b₁
      obtain rfl : b₂ = b' := by
        rw [hb₁] at hdone
        exact (congrArg Prod.snd hrun).symm.trans (Except.ok.inj hdone)
      refine ⟨(hfills.toContinues.trans hcontinues).mono (Nat.add_comm _ _).le,
        hfields.trans hfills.fields, _, hmethods.trans (by rw [hfills.methods]), fun hroom b'' hle => ?_⟩
      obtain rfl := Except.ok.inj hcode
      refine ⟨rfl, rfl, rfl, .code rfl fun hplain => ?_⟩
      obtain ⟨b₀, bs, hb₀, -, hbytes, hemits⟩ := Directive.assembleAll_emits hplain hassembled rfl
      obtain rfl := Option.some.inj (hb₁.symm.trans hb₀)
      rw [hbytes]
      exact hemits (hcontinues.grows.size_le.trans hroom) b'' (hcontinues.grows.trans hle)

/-- Methods are declared in order. -/
theorem addMethods_ok {methods : List MethodSource}
    (h : methods.foldlM (fun b m => addMethod m b) b = .ok b') :
    b.Continues (methods.map MethodSource.weight).sum b' ∧ b'.file.fields = b.file.fields ∧
      ∃ infos, b'.file.methods = b.file.methods ++ infos ∧
        (b'.file.pool.size ≤ Builder.maxEntries → ∀ b'', b'.Grows b'' →
          List.Forall₂ (MethodSource.Declares fun k i => b''.symbol? k = some i) methods infos) := by
  induction methods generalizing b with
  | nil =>
      obtain rfl := Except.ok.inj h
      exact ⟨(Builder.Fills.refl b).toContinues, rfl, [], by simp, fun _ _ _ => .nil⟩
  | cons m methods ih =>
      rw [List.foldlM_cons] at h
      obtain ⟨b₁, hfirst, hrest⟩ := of_except_bind_ok h
      obtain ⟨hone, hfields, info, hinfo, hdeclares⟩ := addMethod_ok hfirst
      obtain ⟨hmany, hfields', infos, hinfos, hdeclares'⟩ := ih hrest
      refine ⟨hone.trans hmany, hfields'.trans hfields, info :: infos, ?_, fun hroom b'' hle => ?_⟩
      · rw [hinfos, hinfo, List.append_assoc, List.singleton_append]
      · have hgrows := hmany.grows
        exact .cons (hdeclares (hgrows.size_le.trans hroom) b'' (hgrows.trans hle))
          (hdeclares' hroom b'' hle)

theorem filling_implement (names : List Text) :
    Filling (4 * names.length) (Builder.implement names) := by
  induction names with
  | nil => exact filling_pure ()
  | cons name names ih =>
      have hfirst : Filling 4 (do
          let _ ← Builder.classRef name
          Builder.modifyFile fun c => { c with interfaces := c.interfaces ++ [name] }) :=
        (filling_classRef name).bind (n := 0) fun _ =>
          filling_modifyFile (by intro c; rfl) (by intro c; rfl) (by intro c; rfl)
      intro b
      refine (hfirst.bind (fun _ => ih) b).mono ?_
      rw [List.length_cons, Nat.mul_succ, Nat.add_comm]

theorem filling_addFiller (first : Int32) (n : Nat) : Filling (2 * n) (addFiller first n) := by
  induction n generalizing first with
  | zero => exact filling_pure ()
  | succ n ih =>
      have hint : Filling 2 (Builder.intConst first) := fun b =>
        ((Builder.interns_intern _).fills (Builder.addsAtMost_intern _)
          (Builder.keepsMembers_intern _) b)
      intro b
      refine (hint.bind (fun _ => ih (first + 1)) b).mono ?_
      rw [Nat.mul_succ, Nat.add_comm]

/-- A field is declared behind the others. -/
theorem addField_ok (s : FieldSource) (b : Builder) :
    ∃ b', addField s b = ((), b') ∧ b.Continues 16 b' ∧ b'.file.methods = b.file.methods ∧
      ∃ f, b'.file.fields = b.file.fields ++ [f] ∧ s.Declares f := by
  obtain ⟨name, descriptor, flags, value⟩ := s
  cases value with
  | none =>
      obtain ⟨b', hrun, hcontinues, hmethods, hfields⟩ :=
        Builder.addField_ok flags name descriptor 0 b
      exact ⟨b', hrun, hcontinues.mono (by decide), hmethods, _, hfields, rfl, rfl⟩
  | some k =>
      have hfills : b.Fills 12 (k.intern b).2 := (Builder.interns_symbol k).fills
        (Builder.addsAtMost_constant k) (Builder.keepsMembers_constant k) b
      obtain ⟨b', hrun, hcontinues, hmethods, hfields⟩ := Builder.addField_ok
        (flags.adding AccessFlags.staticBit) name descriptor (k.intern b).1 (k.intern b).2
      refine ⟨b', hrun, hfills.toContinues.trans hcontinues, hmethods.trans hfills.methods, _,
        hfields.trans (by rw [hfills.fields]), rfl, rfl⟩

theorem addFields_ok (ss : List FieldSource) (b : Builder) :
    ∃ b', ss.forM addField b = ((), b') ∧ b.Continues (16 * ss.length) b' ∧
      b'.file.methods = b.file.methods ∧
      ∃ fs, b'.file.fields = b.file.fields ++ fs ∧ List.Forall₂ FieldSource.Declares ss fs := by
  induction ss generalizing b with
  | nil => exact ⟨b, rfl, (Builder.Fills.refl b).toContinues, rfl, [], by simp, .nil⟩
  | cons s ss ih =>
      obtain ⟨b₁, hfirst, hone, hmethods, f, hf, hdeclares⟩ := addField_ok s b
      obtain ⟨b', hrest, hmany, hmethods', fs, hfs, hdeclares'⟩ := ih b₁
      refine ⟨b', ?_, (hone.trans hmany).mono ?_, hmethods'.trans hmethods, f :: fs, ?_,
        .cons hdeclares hdeclares'⟩
      · change ss.forM addField (addField s b).2 = _
        rw [hfirst]
        exact hrest
      · rw [List.length_cons, Nat.mul_succ, Nat.add_comm]
      · rw [hfs, hf, List.append_assoc, List.singleton_append]

/-- The part of a class before its methods. -/
theorem header_ok (c : ClassSource) :
    c.header.file.pool.size ≤ 9 + 4 * c.interfaces.length + 2 * c.filler + 16 * c.fields.length ∧
      (c.header.file.pool.size ≤ Builder.maxEntries → c.header.Indexed) ∧
      c.header.file.methods = [] ∧ List.Forall₂ FieldSource.Declares c.fields c.header.file.fields := by
  have hfront : Filling (4 * c.interfaces.length + (0 + 2 * c.filler)) (do
      Builder.implement c.interfaces
      Builder.sourceFile c.sourceFile
      addFiller 1000000 c.filler) :=
    (filling_implement c.interfaces).bind fun _ => (filling_modifyFile (by intro c; rfl)
      (by intro c; rfl) (by intro c; rfl)).bind fun _ => filling_addFiller _ _
  let b₀ := Builder.start c.name c.superName c.flags
  have hfills := hfront b₀
  obtain ⟨b', hrun, hcontinues, hmethods, fs, hfs, hdeclares⟩ := addFields_ok c.fields
    ((do
      Builder.implement c.interfaces
      Builder.sourceFile c.sourceFile
      addFiller 1000000 c.filler : Build Unit) b₀).2
  obtain ⟨bare, hindexed, hsize, hnone, hnone', hstart⟩ :=
    Builder.start_fills c.name c.superName c.flags
  have hall := hstart.toContinues.trans (hfills.toContinues.trans hcontinues)
  have hheader : c.header = b' := congrArg Prod.snd hrun
  rw [hheader]
  refine ⟨?_, fun hroom => hall.indexed hroom hindexed, ?_, ?_⟩
  · have hle := hall.size
    omega
  · rw [hmethods, hfills.methods, hstart.methods, hnone']
  · rw [hfs, hfills.fields, hstart.fields, hnone]
    exact hdeclares

/-- A built class has the fields and methods of its description, and each plain body has indices
behind its lines at which the members are found. -/
theorem build_declares {c : ClassSource} {file : ClassFile} (h : c.build = .ok file)
    (hroom : c.weight ≤ Builder.maxEntries) :
    List.Forall₂ FieldSource.Declares c.fields file.fields ∧
      List.Forall₂ (MethodSource.Declares fun k i => k.ReadAt file i) c.methods file.methods := by
  obtain ⟨b, hmethods, hfile⟩ := of_except_bind_ok h
  obtain rfl := Except.ok.inj hfile
  obtain ⟨hsize, hindexed, hnone, hfields⟩ := header_ok c
  obtain ⟨hcontinues, hsame, infos, hinfos, hdeclares⟩ := addMethods_ok hmethods
  have hsmall : b.file.pool.size ≤ Builder.maxEntries := by
    have hle := hcontinues.size
    unfold weight at hroom
    omega
  have hdone := hcontinues.indexed hsmall (hindexed (hcontinues.grows.size_le.trans hsmall))
  rw [hinfos, hnone, hsame]
  refine ⟨hfields, (hdeclares hsmall b (.refl b)).imp fun _ _ hm => ?_⟩
  exact hm.mono fun k i hsymbol hi => hdone.readAt hsymbol hi

end ClassSource

theorem Assemble.except_bind_of_ok {ε α β : Type} {x : Except ε α} {f : α → Except ε β} {a : α}
    (h : x = .ok a) : (x >>= f) = f a := by
  rw [h]
  rfl

section Succeeding

variable {α β : Type} {x : Assemble α}

/-- Where there is a pool the step cannot fail. It leaves one, and the exception table as it is. -/
def Assemble.Succeeds (x : Assemble α) : Prop :=
  ∀ (a : Assembler) (b : Builder), a.pool = some b →
    ∃ v a' b', x a = .ok (v, a') ∧ a'.pool = some b' ∧ a'.handlers = a.handlers

theorem Assemble.Succeeds.bind {f : α → Assemble β} (hx : Succeeds x) (hf : ∀ v, Succeeds (f v)) :
    Succeeds (x >>= f) := by
  intro a b hb
  obtain ⟨v, a₁, b₁, hrun, hb₁, hsame⟩ := hx a b hb
  obtain ⟨w, a₂, b₂, hrun', hb₂, hsame'⟩ := hf v a₁ b₁ hb₁
  refine ⟨w, a₂, b₂, ?_, hb₂, hsame'.trans hsame⟩
  change (x a >>= fun p => f p.1 p.2) = _
  rw [hrun]
  exact hrun'

theorem Assemble.succeeds_ite {c : Prop} [Decidable c] {y : Assemble α} (hx : Succeeds x)
    (hy : Succeeds y) : Succeeds (if c then x else y) := by
  split
  · exact hx
  · exact hy

theorem succeeds_emitBytes (bs : List UInt8) : Succeeds (emitBytes bs) :=
  fun _ b hb => ⟨_, _, b, rfl, hb, rfl⟩

theorem succeeds_emit (op : Opcode) : Succeeds (emit op) :=
  fun _ b hb => ⟨_, _, b, rfl, hb, rfl⟩

theorem succeeds_line (n : UInt16) : Succeeds (Assembler.line n) :=
  fun _ b hb => ⟨_, _, b, rfl, hb, rfl⟩

theorem succeeds_internOr (missing : AssemblyError) (k : Build UInt16) :
    Succeeds (internOr missing k) := by
  intro a b hb
  obtain ⟨pool, bytes, handlers, lines, labels⟩ := a
  obtain rfl : pool = some b := hb
  exact ⟨_, _, _, rfl, rfl, rfl⟩

theorem succeeds_loadIndex (i : UInt16) : Succeeds (loadIndex i) :=
  succeeds_ite (succeeds_emitBytes _) (succeeds_emitBytes _)

/-- Whether a line uses no labels. -/
def Directive.isStraight : Directive → Bool
  | .label _ | .jump _ _ | .tableswitch _ _ _ | .lookupswitch _ _ _ | .handler _ => false
  | _ => true

/-- A line without labels can be assembled. -/
theorem Directive.succeeds_assemble {d : Directive} (hd : d.isStraight = true) : Succeeds d.assemble := by
  have hpooled : ∀ missing op k, Succeeds (internOr missing k >>= emitU2 op) := fun missing op k =>
    (succeeds_internOr missing k).bind fun _ => succeeds_emitBytes _
  have hload : ∀ k, Succeeds (Assembler.intern k >>= loadIndex) := fun k =>
    (succeeds_internOr _ k).bind succeeds_loadIndex
  cases d with
  | label | jump | tableswitch | lookupswitch | handler => contradiction
  | plain op => exact succeeds_emit op
  | raw | pad | u1 | u2 => exact succeeds_emitBytes _
  | line n => exact succeeds_line n
  | pushInt v =>
      exact succeeds_ite (succeeds_emitBytes _) (succeeds_ite (succeeds_emitBytes _)
        (succeeds_ite (succeeds_emitBytes _) (hload _)))
  | pushLong v | pushDouble v =>
      exact succeeds_ite (succeeds_emit _) (succeeds_ite (succeeds_emit _) (hpooled _ _ _))
  | pushFloat bits => exact hpooled _ _ _
  | loadString t | loadClass t => exact hload _
  | pooled op k =>
      cases k with
      | index i => exact succeeds_emitBytes _
      | _ => exact hpooled _ _ _
  | load base slot | store base slot =>
      exact succeeds_ite (succeeds_emitBytes _) (succeeds_ite (succeeds_emitBytes _)
        (succeeds_emitBytes _))
  | iinc slot delta => exact succeeds_ite (succeeds_emitBytes _) (succeeds_emitBytes _)
  | invoke op owner name descriptor =>
      exact succeeds_ite ((succeeds_internOr _ _).bind fun _ =>
        (succeeds_emitBytes _).bind fun _ => succeeds_emitBytes _) (hpooled _ _ _)
  | field op owner name descriptor | typeOp op name => exact hpooled _ _ _
  | multianewarray descriptor dims =>
      exact (succeeds_internOr _ _).bind fun _ =>
        (succeeds_emitBytes _).bind fun _ => succeeds_emitBytes _

theorem Directive.succeeds_assembleAll {ds : List Directive} (hds : ∀ d ∈ ds, d.isStraight = true) :
    Succeeds (ds.forM assemble) := by
  induction ds with
  | nil => exact fun a b hb => ⟨(), a, b, rfl, hb, rfl⟩
  | cons d ds ih =>
      change Succeeds (d.assemble >>= fun _ => ds.forM assemble)
      exact (succeeds_assemble (hds d List.mem_cons_self)).bind fun _ =>
        ih fun d' hd' => hds d' (List.mem_cons_of_mem d hd')

/-- Whether a body has no labels. -/
def MethodBody.isStraight : MethodBody → Bool
  | .code _ _ lines => lines.all Directive.isStraight
  | _ => true

end Succeeding

namespace ClassSource

/-- A method whose body has no labels can be declared, whatever was declared before it. -/
theorem addMethod_succeeds {m : MethodSource} (h : m.body.isStraight = true) (b : Builder) :
    ∃ b', addMethod m b = .ok b' := by
  obtain ⟨name, descriptor, flags, body, throws⟩ := m
  cases body with
  | native | abstract | missing => exact ⟨_, rfl⟩
  | code maxStack maxLocals lines =>
      obtain ⟨v, a, b', hrun, hb', hhandlers⟩ :=
        Directive.succeeds_assembleAll (List.all_eq_true.mp h) (.start (some b)) b rfl
      have hassembled : Directive.assembleAll lines (.start (some b)) = .ok a := by
        change (lines.forM Directive.assemble (.start (some b)) >>= fun p => pure p.2) = _
        rw [hrun]
        rfl
      have hfinish : a.finish maxStack maxLocals = .ok ⟨maxStack, maxLocals, a.bytes, [], a.lines⟩ := by
        rw [finish, hhandlers]
        rfl
      exact ⟨_, (except_bind_of_ok hassembled).trans ((except_bind_of_ok hfinish).trans rfl)⟩

/-- A class can be built if each of its methods can be declared. -/
theorem build_succeeds {c : ClassSource}
    (h : ∀ m ∈ c.methods, ∀ b, ∃ b', addMethod m b = .ok b') : ∃ file, c.build = .ok file := by
  have hall : ∀ (methods : List MethodSource), (∀ m ∈ methods, ∀ b, ∃ b', addMethod m b = .ok b') →
      ∀ b, ∃ b', methods.foldlM (fun b m => addMethod m b) b = .ok b' := by
    intro methods hmethods
    induction methods with
    | nil => exact fun b => ⟨b, rfl⟩
    | cons m methods ih =>
        intro b
        obtain ⟨b₁, hb₁⟩ := hmethods m List.mem_cons_self b
        obtain ⟨b', hb'⟩ := ih (fun m' hm' => hmethods m' (List.mem_cons_of_mem m hm')) b₁
        refine ⟨b', ?_⟩
        rw [List.foldlM_cons, hb₁]
        exact hb'
  obtain ⟨b, hb⟩ := hall c.methods h c.header
  refine ⟨b.file, ?_⟩
  rw [build, hb]
  rfl

end ClassSource

end ClassEngine
