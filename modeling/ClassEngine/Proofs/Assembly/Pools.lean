import ClassEngine.Proofs.Assembly.Layout
import ClassEngine.Proofs.ClassFile.Building

/-!
The pool of a class while bodies are assembled for it. It only grows, by the entries of at most one
constant a line; and a line that names a member leaves an index at which the member is found from
then on.
-/

namespace ClassEngine

open Assembler Assemble

namespace Builder

/-- One class under construction comes from another, with at most `n` more entries. -/
structure Continues (n : Nat) (b b' : Builder) : Prop where
  grows : b.Grows b'
  indexed : b'.file.pool.size ≤ maxEntries → b.Indexed → b'.Indexed
  size : b'.file.pool.size ≤ b.file.pool.size + n

/-- No member is declared on the way. -/
structure Fills (n : Nat) (b b' : Builder) : Prop extends Continues n b b' where
  fields : b'.file.fields = b.file.fields
  methods : b'.file.methods = b.file.methods

section Fills

variable {α β : Type} {m n : Nat} {b b' b'' : Builder}

theorem Continues.trans (h : Continues m b b') (h' : Continues n b' b'') :
    Continues (m + n) b b'' where
  grows := h.grows.trans h'.grows
  indexed hroom hb := h'.indexed hroom (h.indexed (h'.grows.size_le.trans hroom) hb)
  size := by
    have hfirst := h.size
    have hsecond := h'.size
    omega

theorem Continues.mono (h : Continues m b b') (hle : m ≤ n) : Continues n b b' :=
  ⟨h.grows, h.indexed, h.size.trans (Nat.add_le_add_left hle _)⟩

theorem Fills.refl (b : Builder) : Fills 0 b b :=
  ⟨⟨.refl b, fun _ h => h, le_rfl⟩, rfl, rfl⟩

theorem Fills.trans (h : Fills m b b') (h' : Fills n b' b'') : Fills (m + n) b b'' :=
  ⟨h.toContinues.trans h'.toContinues, h'.fields.trans h.fields, h'.methods.trans h.methods⟩

theorem Fills.mono (h : Fills m b b') (hle : m ≤ n) : Fills n b b' :=
  ⟨h.toContinues.mono hle, h.fields, h.methods⟩

/-- The computation declares no member. -/
def KeepsMembers (x : Build α) : Prop :=
  ∀ b, (x b).2.file.fields = b.file.fields ∧ (x b).2.file.methods = b.file.methods

theorem KeepsMembers.bind {x : Build α} {f : α → Build β} (hx : KeepsMembers x)
    (hf : ∀ a, KeepsMembers (f a)) : KeepsMembers (x >>= f) := by
  intro b
  obtain ⟨hfields, hmethods⟩ := hx b
  obtain ⟨hfields', hmethods'⟩ := hf (x b).1 (x b).2
  exact ⟨hfields'.trans hfields, hmethods'.trans hmethods⟩

theorem keepsMembers_intern (k : Constant) : KeepsMembers (intern k) := by
  unfold intern
  split
  · exact fun _ => ⟨rfl, rfl⟩
  · refine KeepsMembers.bind (fun _ => ⟨rfl, rfl⟩) fun b => ?_
    split
    · exact fun _ => ⟨rfl, rfl⟩
    · exact KeepsMembers.bind (fun _ => ⟨rfl, rfl⟩) fun _ _ => ⟨rfl, rfl⟩

theorem keepsMembers_classRef (name : Text) : KeepsMembers (classRef name) :=
  (keepsMembers_intern _).bind fun _ => keepsMembers_intern _

theorem keepsMembers_nameAndType (name descriptor : Text) :
    KeepsMembers (nameAndType name descriptor) :=
  (keepsMembers_intern _).bind fun _ => (keepsMembers_intern _).bind fun _ => keepsMembers_intern _

theorem keepsMembers_constant (k : ConstantSource) : KeepsMembers k.intern := by
  cases k with
  | string t => exact (keepsMembers_intern _).bind fun _ => keepsMembers_intern _
  | classRef name => exact keepsMembers_classRef name
  | nameAndType name descriptor => exact keepsMembers_nameAndType name descriptor
  | member kind owner name descriptor =>
      exact (keepsMembers_classRef owner).bind fun _ =>
        (keepsMembers_nameAndType name descriptor).bind fun _ => keepsMembers_intern _
  | index i => exact fun _ => ⟨rfl, rfl⟩
  | int _ | long _ | float _ | double _ | utf8 _ => exact keepsMembers_intern _

theorem Interns.continues {x : Build α} {Q : Builder → α → Prop} (hx : Interns x Q)
    (hn : AddsAtMost n x) (b : Builder) : Continues n b (x b).2 :=
  ⟨(hx b).1, (hx b).2.1, hn b⟩

theorem Interns.fills {x : Build α} {Q : Builder → α → Prop} (hx : Interns x Q)
    (hn : AddsAtMost n x) (hkeeps : KeepsMembers x) (b : Builder) : Fills n b (x b).2 :=
  ⟨hx.continues hn b, (hkeeps b).1, (hkeeps b).2⟩

end Fills

end Builder

namespace Assembler

/-- The class behind a body only grows, by at most `n` entries. -/
def FillsPool {α : Type} (n : Nat) (x : Assemble α) : Prop :=
  ∀ a v a' b, x a = .ok (v, a') → a.pool = some b → ∃ b', a'.pool = some b' ∧ b.Fills n b'

section FillsPool

variable {α β : Type} {m n : Nat}

theorem FillsPool.bind {x : Assemble α} {f : α → Assemble β} (hx : FillsPool m x)
    (hf : ∀ v, FillsPool n (f v)) : FillsPool (m + n) (x >>= f) := by
  intro a v a' b hrun hb
  obtain ⟨u, a₁, hfirst, hrest⟩ := of_bind_ok hrun
  obtain ⟨b₁, hb₁, hone⟩ := hx a u a₁ b hfirst hb
  obtain ⟨b', hb', htwo⟩ := hf u a₁ v a' b₁ hrest hb₁
  exact ⟨b', hb', hone.trans htwo⟩

theorem FillsPool.mono {x : Assemble α} (h : FillsPool m x) (hle : m ≤ n) : FillsPool n x := by
  intro a v a' b hrun hb
  obtain ⟨b', hb', hfills⟩ := h a v a' b hrun hb
  exact ⟨b', hb', hfills.mono hle⟩

/-- A step that has nothing to do with the pool. -/
theorem fillsPool_of_same {x : Assemble α} (h : ∀ a v a', x a = .ok (v, a') → a'.pool = a.pool) :
    FillsPool 0 x :=
  fun a v a' b hrun hb => ⟨b, (h a v a' hrun).trans hb, .refl b⟩

theorem fillsPool_pure (v : α) : FillsPool 0 (pure v : Assemble α) :=
  fillsPool_of_same fun _ _ _ hrun => by
    obtain ⟨_, rfl⟩ := of_pure_ok hrun
    rfl

theorem fillsPool_get : FillsPool 0 (get : Assemble Assembler) :=
  fillsPool_of_same fun _ _ _ hrun => by
    obtain ⟨_, rfl⟩ := of_pure_ok hrun
    rfl

theorem fillsPool_modify {f : Assembler → Assembler} (hf : ∀ a, (f a).pool = a.pool) :
    FillsPool 0 (modify f : Assemble Unit) :=
  fillsPool_of_same fun a _ _ hrun => by
    obtain ⟨_, rfl⟩ := Prod.mk.inj (Except.ok.inj hrun)
    exact hf a

/-- What is refused gives no class at all. -/
theorem fillsPool_throw_bind (e : AssemblyError) (f : α → Assemble β) :
    FillsPool n ((throw e : Assemble α) >>= f) := by
  intro a v a' b hrun
  contradiction

theorem fillsPool_forM {f : β → Assemble Unit} (hf : ∀ i, FillsPool 0 (f i)) (xs : List β) :
    FillsPool 0 (xs.forM f) := by
  induction xs with
  | nil => exact fillsPool_pure ()
  | cons x xs ih => exact (hf x).bind fun _ => ih

theorem fillsPool_emitBytes (bs : List UInt8) : FillsPool 0 (emitBytes bs) :=
  fillsPool_modify fun _ => rfl

theorem fillsPool_emit (op : Opcode) : FillsPool 0 (emit op) :=
  fillsPool_modify fun _ => rfl

theorem fillsPool_emitU2 (op : Opcode) (operand : UInt16) : FillsPool 0 (emitU2 op operand) :=
  fillsPool_emitBytes _

theorem fillsPool_loadIndex (index : UInt16) : FillsPool 0 (loadIndex index) := by
  unfold loadIndex
  split
  · exact fillsPool_emitBytes _
  · exact fillsPool_emitBytes _

/-- The index of a symbol is found again in every class that comes from this one. -/
theorem internOr_ok {missing : AssemblyError} {k : ConstantSource} {a a' : Assembler} {i : UInt16}
    {b : Builder} (hrun : internOr missing k.intern a = .ok (i, a')) (hb : a.pool = some b) :
    ∃ b', a' = { a with pool := some b' } ∧ b.Fills 12 b' ∧
      (b'.file.pool.size ≤ Builder.maxEntries → ∀ b'', b'.Grows b'' → k.IsSymbol →
        b''.symbol? k = some i) := by
  have hk := Builder.interns_symbol k
  obtain ⟨_, a₀, hget, hrun⟩ := of_bind_ok hrun
  obtain ⟨rfl, rfl⟩ := of_pure_ok hget
  rw [hb] at hrun
  obtain ⟨rfl, rfl⟩ := Prod.mk.inj (Except.ok.inj hrun)
  refine ⟨_, rfl, hk.fills (Builder.addsAtMost_constant k) (Builder.keepsMembers_constant k) b, ?_⟩
  exact fun hroom b'' hle => (hk b).2.2 b'' hroom hle

/-- An instruction with a constant as its operand. -/
theorem fillsPool_pooled (missing : AssemblyError) (k : ConstantSource)
    {f : UInt16 → Assemble Unit} (hf : ∀ i, FillsPool 0 (f i)) :
    FillsPool 12 (internOr missing k.intern >>= f) := by
  refine FillsPool.bind (n := 0) ?_ hf
  intro a i a' b hrun hb
  obtain ⟨b', rfl, hfills, -⟩ := internOr_ok hrun hb
  exact ⟨b', rfl, hfills⟩

theorem fillsPool_setLabel (name : Text) (l : Label) : FillsPool 0 (setLabel name l) :=
  fillsPool_modify fun _ => rfl

theorem fillsPool_fill (g : Gap) (target : Nat) : FillsPool 0 (fill g target) :=
  fillsPool_of_same fun a _ _ hrun => by
    obtain ⟨rfl, -⟩ := fill_ok hrun
    rfl

theorem fillsPool_mark (name : Text) : FillsPool 0 (mark name) := by
  refine fillsPool_get.bind (n := 0) fun a => ?_
  dsimp only
  split
  · exact fillsPool_throw_bind _ _
  · exact (fillsPool_forM (fun g => fillsPool_fill g _) _).bind fun _ => fillsPool_setLabel _ _

theorem fillsPool_reference (name : Text) (base : Nat) (wide : Bool) :
    FillsPool 0 (reference name base wide) := by
  refine fillsPool_get.bind (n := 0) fun a => (fillsPool_emitBytes _).bind (n := 0) fun _ => ?_
  dsimp only
  split
  · exact fillsPool_fill _ _
  · exact fillsPool_setLabel _ _

theorem fillsPool_jump (op : Opcode) (name : Text) : FillsPool 0 (jump op name) :=
  fillsPool_get.bind fun _ => (fillsPool_emit op).bind fun _ => fillsPool_reference _ _ _

theorem fillsPool_pad : FillsPool 0 pad :=
  fillsPool_modify (by intro a; rfl)

theorem fillsPool_tableswitch (low : Int32) (dflt : Text) (targets : List Text) :
    FillsPool 0 (tableswitch low dflt targets) := by
  refine fillsPool_get.bind (n := 0) fun a => (fillsPool_emit _).bind (n := 0) fun _ => ?_
  refine fillsPool_pad.bind (n := 0) fun _ => (fillsPool_reference _ _ _).bind (n := 0) fun _ => ?_
  refine (fillsPool_emitBytes _).bind (n := 0) fun _ => (fillsPool_emitBytes _).bind (n := 0) fun _ => ?_
  exact fillsPool_forM (fun _ => fillsPool_reference _ _ _) targets

theorem fillsPool_lookupswitch (dflt : Text) (keys : List Int32) (targets : List Text) :
    FillsPool 0 (lookupswitch dflt keys targets) := by
  unfold lookupswitch
  split
  · exact fillsPool_throw_bind _ _
  refine fillsPool_get.bind (n := 0) fun a => (fillsPool_emit _).bind (n := 0) fun _ => ?_
  refine fillsPool_pad.bind (n := 0) fun _ => (fillsPool_reference _ _ _).bind (n := 0) fun _ => ?_
  refine (fillsPool_emitBytes _).bind (n := 0) fun _ => fillsPool_forM (fun _ => ?_) _
  exact (fillsPool_emitBytes _).bind fun _ => fillsPool_reference _ _ _

theorem fillsPool_localAccess (base : Opcode) (compactByte : UInt8) (slot : Int) :
    FillsPool 0 (localAccess base compactByte slot) := by
  unfold localAccess
  split
  · exact fillsPool_emitBytes _
  split
  · exact fillsPool_emitBytes _
  · exact fillsPool_emitBytes _

theorem fillsPool_iinc (slot delta : Int) : FillsPool 0 (iinc slot delta) := by
  unfold iinc
  dsimp only
  split
  · exact fillsPool_emitBytes _
  · exact fillsPool_emitBytes _

theorem fillsPool_pushInt (v : Int32) : FillsPool 12 (pushInt v) := by
  unfold pushInt
  split
  · exact (fillsPool_emitBytes _).mono (Nat.zero_le _)
  split
  · exact (fillsPool_emitBytes _).mono (Nat.zero_le _)
  split
  · exact (fillsPool_emitBytes _).mono (Nat.zero_le _)
  · exact fillsPool_pooled _ (.int v) fillsPool_loadIndex

theorem fillsPool_pushLong (v : Int64) : FillsPool 12 (pushLong v) := by
  unfold pushLong
  split
  · exact (fillsPool_emit _).mono (Nat.zero_le _)
  split
  · exact (fillsPool_emit _).mono (Nat.zero_le _)
  · exact fillsPool_pooled _ (.long v) (fillsPool_emitU2 _)

theorem fillsPool_pushDouble (bits : UInt64) : FillsPool 12 (pushDouble bits) := by
  unfold pushDouble
  split
  · exact (fillsPool_emit _).mono (Nat.zero_le _)
  split
  · exact (fillsPool_emit _).mono (Nat.zero_le _)
  · exact fillsPool_pooled _ (.double bits) (fillsPool_emitU2 _)

theorem fillsPool_invoke (op : Opcode) (owner name descriptor : Text) :
    FillsPool 12 (invoke op owner name descriptor) := by
  unfold invoke
  split
  · exact fillsPool_pooled _ (.member .interfaceMethodref owner name descriptor) fun i =>
      (fillsPool_emitU2 _ i).bind fun _ => fillsPool_emitBytes _
  · exact fillsPool_pooled _ (.member .methodref owner name descriptor) (fillsPool_emitU2 _)

theorem fillsPool_handler (entry : PendingHandler) : FillsPool 12 (handler entry) := by
  refine fillsPool_get.bind (n := 12) fun a => ?_
  dsimp only
  split
  · exact (fillsPool_modify (by intro a; rfl)).mono (Nat.zero_le _)
  · exact fillsPool_pooled _ (.classRef entry.catchType) fun _ => fillsPool_modify (by intro a; rfl)

end FillsPool

end Assembler

namespace Directive

/-- A line adds at most the entries of one constant. -/
theorem assemble_fillsPool (d : Directive) : FillsPool 12 d.assemble := by
  cases d with
  | plain op => exact (fillsPool_emit op).mono (Nat.zero_le _)
  | raw bytes => exact (fillsPool_emitBytes bytes).mono (Nat.zero_le _)
  | pad n => exact (fillsPool_emitBytes _).mono (Nat.zero_le _)
  | u1 op operand => exact (fillsPool_emitBytes _).mono (Nat.zero_le _)
  | u2 op operand => exact (fillsPool_emitBytes _).mono (Nat.zero_le _)
  | pushInt v => exact fillsPool_pushInt v
  | pushLong v => exact fillsPool_pushLong v
  | pushFloat bits => exact fillsPool_pooled _ (.float bits) (fillsPool_emitU2 _)
  | pushDouble bits => exact fillsPool_pushDouble bits
  | loadString t => exact fillsPool_pooled _ (.string t) fillsPool_loadIndex
  | loadClass name => exact fillsPool_pooled _ (.classRef name) fillsPool_loadIndex
  | pooled op k =>
      cases k with
      | index i => exact (fillsPool_emitU2 op i).mono (Nat.zero_le _)
      | _ => exact fillsPool_pooled _ _ (fillsPool_emitU2 op)
  | load base slot => exact (fillsPool_localAccess _ _ _).mono (Nat.zero_le _)
  | store base slot => exact (fillsPool_localAccess _ _ _).mono (Nat.zero_le _)
  | iinc slot delta => exact (fillsPool_iinc slot delta).mono (Nat.zero_le _)
  | invoke op owner name descriptor => exact fillsPool_invoke op owner name descriptor
  | field op owner name descriptor =>
      exact fillsPool_pooled _ (.member .fieldref owner name descriptor) (fillsPool_emitU2 op)
  | typeOp op name => exact fillsPool_pooled _ (.classRef name) (fillsPool_emitU2 op)
  | multianewarray descriptor dims =>
      exact fillsPool_pooled _ (.classRef descriptor) fun i => (fillsPool_emitU2 _ i).bind fun _ =>
        fillsPool_emitBytes _
  | line n => exact (fillsPool_modify (by intro a; rfl)).mono (Nat.zero_le _)
  | label name => exact (fillsPool_mark name).mono (Nat.zero_le _)
  | jump op name => exact (fillsPool_jump op name).mono (Nat.zero_le _)
  | tableswitch low dflt targets => exact (fillsPool_tableswitch low dflt targets).mono (Nat.zero_le _)
  | lookupswitch dflt keys targets =>
      exact (fillsPool_lookupswitch dflt keys targets).mono (Nat.zero_le _)
  | handler entry => exact fillsPool_handler entry

theorem assembleAll_fillsPool {ds : List Directive} {a a' : Assembler} {b : Builder}
    (hrun : assembleAll ds a = .ok a') (hb : a.pool = some b) :
    ∃ b', a'.pool = some b' ∧ b.Fills (12 * ds.length) b' := by
  induction ds generalizing a b with
  | nil =>
      obtain rfl := Except.ok.inj hrun
      exact ⟨b, hb, .refl b⟩
  | cons d ds ih =>
      rw [assembleAll_cons] at hrun
      obtain ⟨⟨v, a₁⟩, hfirst, hrest⟩ := of_except_bind_ok hrun
      obtain ⟨b₁, hb₁, hone⟩ := d.assemble_fillsPool a v a₁ b hfirst hb
      obtain ⟨b', hb', hmany⟩ := ih hrest hb₁
      refine ⟨b', hb', (hone.trans hmany).mono ?_⟩
      rw [List.length_cons, Nat.mul_succ, Nat.add_comm]

/-- Whether a line is an opcode with nothing, a byte or a member behind it. -/
def IsPlain : Directive → Prop
  | plain _ | u1 _ _ | field _ _ _ _ => True
  | invoke op _ _ _ => op ≠ .invokeinterface
  | _ => False

instance (d : Directive) : Decidable d.IsPlain := by
  cases d <;> unfold IsPlain <;> infer_instance

/-- The bytes of such a line, if the indices of members are given by `R`. -/
inductive Emits (R : ConstantSource → UInt16 → Prop) : Directive → List UInt8 → Prop
  | plain (op : Opcode) : Emits R (.plain op) [op.byte]
  | u1 (op : Opcode) (operand : UInt8) : Emits R (.u1 op operand) [op.byte, operand]
  | field (op : Opcode) {owner name descriptor : Text} {i : UInt16}
      (hi : R (.member .fieldref owner name descriptor) i) :
      Emits R (.field op owner name descriptor) (op.byte :: twoBytes i)
  | invoke (op : Opcode) {owner name descriptor : Text} {i : UInt16}
      (hi : R (.member .methodref owner name descriptor) i) :
      Emits R (.invoke op owner name descriptor) (op.byte :: twoBytes i)

/-- The bytes of a row of lines. -/
def EmitsAll (R : ConstantSource → UInt16 → Prop) (ds : List Directive) (bs : List UInt8) : Prop :=
  ∃ chunks, List.Forall₂ (Emits R) ds chunks ∧ bs = chunks.flatten

theorem Emits.mono {R R' : ConstantSource → UInt16 → Prop} {d : Directive} {bs : List UInt8}
    (h : Emits R d bs) (hle : ∀ k i, k.IsSymbol → R k i → R' k i) : Emits R' d bs := by
  cases h with
  | plain op => exact .plain op
  | u1 op operand => exact .u1 op operand
  | field op hi => exact .field op (hle _ _ rfl hi)
  | invoke op hi => exact .invoke op (hle _ _ rfl hi)

theorem EmitsAll.mono {R R' : ConstantSource → UInt16 → Prop} {ds : List Directive}
    {bs : List UInt8} (h : EmitsAll R ds bs) (hle : ∀ k i, k.IsSymbol → R k i → R' k i) :
    EmitsAll R' ds bs := by
  obtain ⟨chunks, hchunks, rfl⟩ := h
  exact ⟨chunks, hchunks.imp fun _ _ hd => hd.mono hle, rfl⟩

/-- An instruction on a member. -/
theorem pooled_emits {op : Opcode} {kind : LinkKind} {owner name descriptor : Text}
    {missing : AssemblyError} {a a' : Assembler} {b : Builder} {v : Unit}
    (hkind : kind.isMember = true)
    (hrun : (internOr missing (ConstantSource.member kind owner name descriptor).intern >>=
      emitU2 op) a = .ok (v, a')) (hb : a.pool = some b) :
    ∃ b' i, a'.pool = some b' ∧ b.Fills 12 b' ∧
      a'.bytes.toList = a.bytes.toList ++ op.byte :: twoBytes i ∧
      (b'.file.pool.size ≤ Builder.maxEntries → ∀ b'', b'.Grows b'' →
        b''.symbol? (.member kind owner name descriptor) = some i) := by
  obtain ⟨i, a₁, hintern, hemit⟩ := of_bind_ok hrun
  obtain ⟨b', rfl, hfills, hfound⟩ := internOr_ok hintern hb
  obtain ⟨_, rfl⟩ := Prod.mk.inj (Except.ok.inj hemit)
  exact ⟨b', i, rfl, hfills, by simp, fun hroom b'' hle => hfound hroom b'' hle hkind⟩

theorem assemble_emits {d : Directive} {a a' : Assembler} {b : Builder} {v : Unit}
    (hd : d.IsPlain) (hrun : d.assemble a = .ok (v, a')) (hb : a.pool = some b) :
    ∃ b' bs, a'.pool = some b' ∧ b.Fills 12 b' ∧ a'.bytes.toList = a.bytes.toList ++ bs ∧
      (b'.file.pool.size ≤ Builder.maxEntries → ∀ b'', b'.Grows b'' →
        Emits (fun k i => b''.symbol? k = some i) d bs) := by
  cases d with
  | plain op =>
      obtain ⟨_, rfl⟩ := Prod.mk.inj (Except.ok.inj hrun)
      exact ⟨b, _, hb, (Builder.Fills.refl b).mono (Nat.zero_le _), by simp, fun _ _ _ => .plain op⟩
  | u1 op operand =>
      obtain ⟨_, rfl⟩ := Prod.mk.inj (Except.ok.inj hrun)
      exact ⟨b, _, hb, (Builder.Fills.refl b).mono (Nat.zero_le _), by simp,
        fun _ _ _ => .u1 op operand⟩
  | field op owner name descriptor =>
      obtain ⟨b', i, hb', hfills, hbytes, hfound⟩ := pooled_emits rfl hrun hb
      exact ⟨b', _, hb', hfills, hbytes, fun hroom b'' hle => .field op (hfound hroom b'' hle)⟩
  | invoke op owner name descriptor =>
      change Assembler.invoke op owner name descriptor a = _ at hrun
      rw [Assembler.invoke, if_neg hd] at hrun
      obtain ⟨b', i, hb', hfills, hbytes, hfound⟩ := pooled_emits rfl hrun hb
      exact ⟨b', _, hb', hfills, hbytes, fun hroom b'' hle => .invoke op (hfound hroom b'' hle)⟩
  | _ => contradiction

theorem assembleAll_emits {ds : List Directive} {a a' : Assembler} {b : Builder}
    (hds : ∀ d ∈ ds, d.IsPlain) (hrun : assembleAll ds a = .ok a') (hb : a.pool = some b) :
    ∃ b' bs, a'.pool = some b' ∧ b.Fills (12 * ds.length) b' ∧
      a'.bytes.toList = a.bytes.toList ++ bs ∧
      (b'.file.pool.size ≤ Builder.maxEntries → ∀ b'', b'.Grows b'' →
        EmitsAll (fun k i => b''.symbol? k = some i) ds bs) := by
  induction ds generalizing a b with
  | nil =>
      obtain rfl := Except.ok.inj hrun
      exact ⟨b, [], hb, .refl b, by simp, fun _ _ _ => ⟨[], .nil, rfl⟩⟩
  | cons d ds ih =>
      rw [assembleAll_cons] at hrun
      obtain ⟨⟨v, a₁⟩, hfirst, hrest⟩ := of_except_bind_ok hrun
      obtain ⟨b₁, bs, hb₁, hone, hbytes, hemits⟩ := assemble_emits (hds d List.mem_cons_self) hfirst hb
      obtain ⟨b', cs, hb', hmany, hbytes', hemits'⟩ :=
        ih (fun d' hd' => hds d' (List.mem_cons_of_mem d hd')) hrest hb₁
      refine ⟨b', bs ++ cs, hb', (hone.trans hmany).mono ?_, ?_, fun hroom b'' hle => ?_⟩
      · rw [List.length_cons, Nat.mul_succ, Nat.add_comm]
      · rw [hbytes', hbytes, List.append_assoc]
      · have hgrows : b₁.Grows b' := hmany.grows
        obtain ⟨chunks, hchunks, rfl⟩ := hemits' hroom b'' hle
        have hd := hemits (hgrows.size_le.trans hroom) b'' (hgrows.trans hle)
        exact ⟨bs :: chunks, .cons hd hchunks, rfl⟩

end Directive

end ClassEngine
