import ClassEngine.Proofs.Assembly.Gaps
import ClassEngine.Bytecode.Length

/-!
How a body grows while it is assembled. It is a row of pieces: bytes, and gaps for the distance to a
label. What is assembled later leaves the bytes alone and fills each gap with the distance to the
address at which its label is marked, whether that address comes before the gap or after it.
-/

namespace ClassEngine

open Assembler Assemble

namespace Assembler

/-- A byte of a body that no gap covers. -/
structure Fixed (a : Assembler) (uses : List (Text × Gap)) (i : Nat) (b : UInt8) : Prop where
  byte : a.bytes[i]? = some b
  outside : ∀ u ∈ uses, ¬u.2.Covers i

theorem Fixed.lt_size {a : Assembler} {uses : List (Text × Gap)} {i : Nat} {b : UInt8}
    (h : a.Fixed uses i b) : i < a.bytes.size :=
  (Array.getElem?_eq_some_iff.mp h.byte).1

end Assembler

/-- Whether the distance of a branch has four bytes. -/
def Opcode.hasWideOffset (op : Opcode) : Bool :=
  op = .gotoW ∨ op = .jsrW

/-- A part of a body: a byte, or the distance from an address to a label. -/
inductive Piece where
  | byte (b : UInt8)
  | use (name : Text) (base : Nat) (wide : Bool)

namespace Piece

def size : Piece → Nat
  | byte _ => 1
  | use _ _ wide => operandSize wide

/-- The bytes of a piece, once every label has a position. -/
def encode (position : Text → Nat) : Piece → List UInt8
  | byte b => [b]
  | use name base wide => operand wide (position name - base)

theorem encode_length (position : Text → Nat) (p : Piece) : (p.encode position).length = p.size := by
  cases p with
  | byte b => rfl
  | use name base wide => exact operand_length wide _

/-- The size of a row of pieces. -/
def total : List Piece → Nat
  | [] => 0
  | p :: ps => p.size + total ps

@[simp] theorem total_nil : total [] = 0 :=
  rfl

@[simp] theorem total_cons (p : Piece) (ps : List Piece) : total (p :: ps) = p.size + total ps :=
  rfl

@[simp] theorem total_append (ps qs : List Piece) : total (ps ++ qs) = total ps + total qs := by
  induction ps with
  | nil => simp
  | cons p ps ih => simp [ih, Nat.add_assoc]

@[simp] theorem total_bytes (bs : List UInt8) : total (bs.map byte) = bs.length := by
  induction bs with
  | nil => rfl
  | cons b bs ih =>
      rw [List.map_cons, total_cons, ih, List.length_cons, Nat.add_comm]
      rfl

end Piece

namespace Assembler

/-- A piece stands at an address. -/
def Holds (a : Assembler) (uses : List (Text × Gap)) (i : Nat) : Piece → Prop
  | .byte b => a.Fixed uses i b
  | .use name base wide => (name, ⟨i, base, wide⟩) ∈ uses

/-- Pieces stand in a row from an address on. -/
def Lays (a : Assembler) (uses : List (Text × Gap)) : Nat → List Piece → Prop
  | _, [] => True
  | i, p :: ps => a.Holds uses i p ∧ Lays a uses (i + p.size) ps

section Lays

variable {a a' : Assembler} {uses uses' : List (Text × Gap)} {i : Nat} {ps qs : List Piece}

theorem lays_append :
    a.Lays uses i (ps ++ qs) ↔ a.Lays uses i ps ∧ a.Lays uses (i + Piece.total ps) qs := by
  induction ps generalizing i with
  | nil => simp [Lays]
  | cons p ps ih => simp [Lays, ih, and_assoc, Nat.add_assoc]

theorem Lays.mono (h : a.Lays uses i ps) (huses : ∀ u ∈ uses, u ∈ uses')
    (hfixed : ∀ i b, a.Fixed uses i b → a'.Fixed uses' i b) : a'.Lays uses' i ps := by
  induction ps generalizing i with
  | nil => trivial
  | cons p ps ih =>
      refine ⟨?_, ih h.2⟩
      cases p with
      | byte b => exact hfixed i b h.1
      | use name base wide => exact huses _ h.1

/-- Once every label that is used has a position, the bytes of the pieces stand in a row. -/
theorem Lays.stands (position : Text → Nat) (hrecords : a.Records uses) (h : a.Lays uses i ps)
    (hmarked : ∀ name base wide, .use name base wide ∈ ps →
      (a.label name).position = some (position name)) :
    Stands a.bytes i (ps.flatMap (Piece.encode position)) := by
  induction ps generalizing i with
  | nil => exact stands_nil
  | cons p ps ih =>
      rw [List.flatMap_cons, stands_append, Piece.encode_length]
      refine ⟨?_, ih h.2 fun name base wide hmem => hmarked name base wide (List.mem_cons_of_mem p hmem)⟩
      cases p with
      | byte b => exact stands_cons.mpr ⟨h.1.byte, stands_nil⟩
      | use name base wide =>
          have hposition := hmarked name base wide List.mem_cons_self
          exact (hrecords.leads name _ _ h.1 hposition).stands

end Lays

/-- A body grows by some pieces and entries of the exception table; all else stays. -/
structure Extends (a : Assembler) (uses : List (Text × Gap)) (a' : Assembler)
    (uses' : List (Text × Gap)) (pieces : List Piece) (entries : List PendingHandler) : Prop where
  records : a'.Records uses'
  used : ∀ u ∈ uses, u ∈ uses'
  fixed : ∀ i b, a.Fixed uses i b → a'.Fixed uses' i b
  marked : ∀ name p, (a.label name).position = some p → (a'.label name).position = some p
  size : a'.bytes.size = a.bytes.size + Piece.total pieces
  lays : a'.Lays uses' a.bytes.size pieces
  handlers : a'.handlers = a.handlers ++ entries

section Extends

variable {a a' a'' : Assembler} {uses uses' uses'' : List (Text × Gap)} {ps qs : List Piece}
  {hs ks : List PendingHandler}

theorem Extends.trans (h : Extends a uses a' uses' ps hs) (h' : Extends a' uses' a'' uses'' qs ks) :
    Extends a uses a'' uses'' (ps ++ qs) (hs ++ ks) where
  records := h'.records
  used u hu := h'.used u (h.used u hu)
  fixed i b hb := h'.fixed i b (h.fixed i b hb)
  marked name p hp := h'.marked name p (h.marked name p hp)
  size := by rw [h'.size, h.size, Piece.total_append, Nat.add_assoc]
  lays := by
    rw [lays_append, ← h.size]
    exact ⟨h.lays.mono h'.used h'.fixed, h'.lays⟩
  handlers := by rw [h'.handlers, h.handlers, List.append_assoc]

/-- A change that leaves bytes and labels alone. -/
theorem Records.extends_of_eq (h : a.Records uses) (hbytes : a'.bytes = a.bytes)
    (hlabels : a'.labels = a.labels) (hhandlers : a'.handlers = a.handlers ++ hs) :
    Extends a uses a' uses [] hs := by
  have hlabel : a'.label = a.label := by
    funext name
    rw [label, hlabels, label]
  refine ⟨⟨?_, h.apart, ?_, ?_, ?_⟩, fun u hu => hu, ?_, ?_, ?_, trivial, hhandlers⟩
  · rw [hbytes]
    exact h.inside
  · rw [hlabel]
    exact h.known
  · rw [hlabel]
    exact h.waits
  · rw [hlabel, hbytes]
    exact h.leads
  · intro i b hb
    exact ⟨by rw [hbytes, hb.byte], hb.outside⟩
  · rw [hlabel]
    exact fun name p hp => hp
  · rw [hbytes]
    rfl

theorem Records.extends_refl (h : a.Records uses) : Extends a uses a uses [] [] :=
  h.extends_of_eq rfl rfl (by simp)

/-- Appending bytes. -/
theorem Records.extends_append (h : a.Records uses) (bs : List UInt8) :
    Extends a uses { a with bytes := a.bytes ++ bs.toArray } uses (bs.map .byte) [] := by
  have hold : ∀ i, i < a.bytes.size → (a.bytes ++ bs.toArray)[i]? = a.bytes[i]? :=
    fun i hi => Array.getElem?_append_left hi
  have hcovered : ∀ u ∈ uses, ∀ i, u.2.Covers i → i < a.bytes.size :=
    fun u hu i hi => Nat.lt_of_lt_of_le hi.2 (h.inside u hu)
  constructor
  case records =>
    refine ⟨fun u hu => ?_, h.apart, h.known, h.waits, fun name g target hu hposition => ?_⟩
    · have hsize : a.bytes.size ≤ (a.bytes ++ bs.toArray).size := by simp
      exact Nat.le_trans (h.inside u hu) hsize
    · exact (h.leads name g target hu hposition).congr fun i hi => hold i (hcovered _ hu i hi)
  case used => exact fun u hu => hu
  case fixed => exact fun i b hb => ⟨(hold i hb.lt_size).trans hb.byte, hb.outside⟩
  case marked => exact fun name p hp => hp
  case size => simp
  case lays =>
    have hnew : Stands (a.bytes ++ bs.toArray) a.bytes.size bs := by
      intro k b hb
      rw [Array.getElem?_append_right (Nat.le_add_right _ _), Nat.add_sub_cancel_left]
      simpa using hb
    have hlays : ∀ (cs : List UInt8) (i : Nat), a.bytes.size ≤ i →
        Stands (a.bytes ++ bs.toArray) i cs →
        Lays { a with bytes := a.bytes ++ bs.toArray } uses i (cs.map .byte) := by
      intro cs
      induction cs with
      | nil => exact fun _ _ _ => trivial
      | cons c cs ih =>
          intro i hi hstands
          obtain ⟨hc, hcs⟩ := stands_cons.mp hstands
          refine ⟨⟨hc, fun u hu hcover => ?_⟩, ih (i + 1) (by omega) hcs⟩
          exact absurd (hcovered u hu i hcover) (by omega)
    exact hlays bs _ (Nat.le_refl _) hnew
  case handlers => simp

end Extends

section Operations

variable {a a' : Assembler} {uses : List (Text × Gap)} {v : Unit} {name : Text} {base : Nat}
  {wide : Bool}

theorem emitBytes_extends {bs : List UInt8} (h : a.Records uses)
    (hrun : emitBytes bs a = .ok (v, a')) : Extends a uses a' uses (bs.map .byte) [] := by
  obtain ⟨_, rfl⟩ := Prod.mk.inj (Except.ok.inj hrun)
  exact h.extends_append bs

theorem emit_eq (op : Opcode) : emit op = emitBytes [op.byte] := by
  funext a
  simp [emit, emitBytes, modify, modifyGet, MonadStateOf.modifyGet, StateT.modifyGet]

/-- Padding goes on to the address from which the engine reads the operands of a switch. -/
theorem pad_eq (a : Assembler) :
    pad a = emitBytes (List.replicate (Bytecode.align a.bytes.size - a.bytes.size) 0) a := by
  have hcount : Bytecode.align a.bytes.size - a.bytes.size = (4 - a.bytes.size % 4) % 4 := by
    unfold Bytecode.align
    omega
  rw [hcount]
  simp [pad, emitBytes, modify, modifyGet, MonadStateOf.modifyGet, StateT.modifyGet]

/-- Marking a label fills the gaps that wait for it. -/
theorem mark_extends (h : a.Records uses) (hrun : mark name a = .ok (v, a')) :
    Extends a uses a' uses [] [] ∧ (a'.label name).position = some a.bytes.size := by
  obtain ⟨hfree, a₁, hfill, rfl⟩ := mark_ok hrun
  have hmem : ∀ g ∈ (a.label name).gaps.reverse, (name, g) ∈ uses :=
    fun g hg => h.known name g (List.mem_reverse.mp hg)
  have hfills : Fills (a.label name).gaps.reverse a.bytes.size a a₁ := by
    refine fillAll_fills (fun g hg => h.inside _ (hmem g hg)) (fun g hg g' hg' => ?_) hfill
    rcases h.apart _ (hmem g hg) _ (hmem g' hg') with heq | hapart
    · exact .inl (Prod.mk.inj heq).2
    · exact .inr hapart
  refine ⟨⟨h.mark hfree hfills, fun u hu => hu, ?_, ?_, hfills.size, trivial, ?_⟩, ?_⟩
  · intro i b hb
    refine ⟨?_, hb.outside⟩
    exact (hfills.kept i fun g hg => hb.outside _ (hmem g hg)).trans hb.byte
  · intro other p hp
    have hother : other ≠ name := by
      rintro rfl
      rw [hfree] at hp
      contradiction
    rw [label_withLabel_of_ne hother, hfills.rest]
    exact hp
  · change a₁.handlers = a.handlers ++ []
    rw [hfills.rest, List.append_nil]
  · rw [label_withLabel_self]

/-- A use of a label leaves a gap, which leads to the label at once or later. -/
theorem reference_extends (h : a.Records uses) (hrun : reference name base wide a = .ok (v, a')) :
    Extends a uses a' ((name, ⟨a.bytes.size, base, wide⟩) :: uses) [.use name base wide] [] := by
  obtain ⟨a₁, ha₁, hcases⟩ := reference_ok hrun
  have hzeros := h.extends_append (List.replicate (operandSize wide) 0)
  rw [← ha₁] at hzeros
  have hsize : a₁.bytes.size = a.bytes.size + operandSize wide := by
    rw [hzeros.size, Piece.total_bytes, List.length_replicate]
  have hapart : ∀ u ∈ uses, u.2.Apart ⟨a.bytes.size, base, wide⟩ := fun u hu => .inl (h.inside u hu)
  have hinside : (⟨a.bytes.size, base, wide⟩ : Gap).stop ≤ a₁.bytes.size := Nat.le_of_eq hsize.symm
  have hlabel : a₁.label name = a.label name := by rw [ha₁]; rfl
  -- The new gap is behind the bytes that stood before.
  have hfixed : ∀ i b, a.Fixed uses i b → ∀ u ∈ (name, ⟨a.bytes.size, base, wide⟩) :: uses,
      ¬u.2.Covers i := by
    intro i b hb
    refine List.forall_mem_cons.mpr ⟨fun hcover => ?_, hb.outside⟩
    exact absurd hb.lt_size (Nat.not_lt.mpr hcover.1)
  have hlays : ∀ a' : Assembler, a'.Lays ((name, ⟨a.bytes.size, base, wide⟩) :: uses)
      a.bytes.size [.use name base wide] := fun a' => ⟨List.mem_cons_self, trivial⟩
  rcases hcases with ⟨target, hmarked, hfill⟩ | ⟨hfree, rfl⟩
  · rw [← hlabel] at hmarked
    have hfills := fill_fills hinside hfill
    refine ⟨hzeros.records.direct hinside hapart hmarked hfills,
      fun u hu => List.mem_cons_of_mem _ hu, fun i b hb => ⟨?_, hfixed i b hb⟩, ?_, ?_, hlays a', ?_⟩
    · rw [hfills.kept i fun g hg => ?_, (hzeros.fixed i b hb).byte]
      rw [List.mem_singleton.mp hg]
      exact hfixed i b hb _ List.mem_cons_self
    · intro other p hp
      rw [hfills.rest]
      exact hzeros.marked other p hp
    · rw [hfills.size, hsize]
      rfl
    · rw [hfills.rest]
      exact hzeros.handlers
  · rw [← hlabel] at hfree ⊢
    refine ⟨hzeros.records.wait hinside hapart hfree,
      fun u hu => List.mem_cons_of_mem _ hu,
      fun i b hb => ⟨(hzeros.fixed i b hb).byte, hfixed i b hb⟩, ?_, hsize, hlays _, hzeros.handlers⟩
    intro other p hp
    have hother : other ≠ name := by
      rintro rfl
      rw [← hlabel, hfree] at hp
      contradiction
    rw [label_withLabel_of_ne hother]
    exact hzeros.marked other p hp

/-- A branch is its opcode and the distance to its label. -/
def jumpPieces (op : Opcode) (name : Text) (base : Nat) : List Piece :=
  [.byte op.byte, .use name base op.hasWideOffset]

theorem jump_extends {op : Opcode} (h : a.Records uses) (hrun : jump op name a = .ok (v, a')) :
    ∃ uses', Extends a uses a' uses' (jumpPieces op name a.bytes.size) [] := by
  obtain ⟨_, a₀, hget, hrun⟩ := of_bind_ok hrun
  obtain ⟨rfl, rfl⟩ := of_pure_ok hget
  obtain ⟨_, a₁, hemit, hrun⟩ := of_bind_ok hrun
  rw [emit_eq] at hemit
  have hop := emitBytes_extends h hemit
  exact ⟨_, hop.trans (reference_extends hop.records hrun)⟩

theorem forM_extends {β : Type} {f : β → Assemble Unit} {pieces : β → List Piece} {xs : List β}
    (hf : ∀ x a uses v a', Records a uses → f x a = .ok (v, a') →
      ∃ uses', Extends a uses a' uses' (pieces x) [])
    (h : a.Records uses) (hrun : xs.forM f a = .ok (v, a')) :
    ∃ uses', Extends a uses a' uses' (xs.flatMap pieces) [] := by
  induction xs generalizing a uses with
  | nil =>
      obtain ⟨_, rfl⟩ := of_pure_ok hrun
      exact ⟨uses, h.extends_refl⟩
  | cons x xs ih =>
      obtain ⟨_, a₁, hfirst, hrest⟩ := of_bind_ok hrun
      obtain ⟨uses₁, hone⟩ := hf x a uses _ a₁ h hfirst
      obtain ⟨uses', hmany⟩ := ih hone.records hrest
      exact ⟨uses', hone.trans hmany⟩

/-- The part that the two switches have in common: the opcode, the padding and the default. -/
def switchHead (op : Opcode) (base : Nat) (dflt : Text) : List Piece :=
  (op.byte :: List.replicate (Bytecode.align (base + 1) - (base + 1)) 0).map .byte ++
    [.use dflt base true]

theorem switchHead_extends {a₁ a₂ a₃ : Assembler} {op : Opcode} {dflt : Text} {u v w : Unit}
    (h : a.Records uses) (hemit : emit op a = .ok (u, a₁)) (hpad : pad a₁ = .ok (v, a₂))
    (hdflt : reference dflt a.bytes.size true a₂ = .ok (w, a₃)) :
    ∃ uses', Extends a uses a₃ uses' (switchHead op a.bytes.size dflt) [] := by
  rw [emit_eq] at hemit
  have hop := emitBytes_extends h hemit
  rw [pad_eq] at hpad
  have hzeros := hop.trans (emitBytes_extends hop.records hpad)
  rw [hop.size, ← List.map_append] at hzeros
  exact ⟨_, hzeros.trans (reference_extends hzeros.records hdflt)⟩

/-- A switch over a range: its head, the bounds of the range and the targets. -/
def tablePieces (low : Int32) (dflt : Text) (targets : List Text) (base : Nat) : List Piece :=
  switchHead .tableswitch base dflt ++ (fourBytes low.toUInt32).map .byte ++
    (fourBytes (low + Int32.ofNat targets.length - 1).toUInt32).map .byte ++
    targets.flatMap fun t => [.use t base true]

theorem tableswitch_extends {low : Int32} {dflt : Text} {targets : List Text} (h : a.Records uses)
    (hrun : tableswitch low dflt targets a = .ok (v, a')) :
    ∃ uses', Extends a uses a' uses' (tablePieces low dflt targets a.bytes.size) [] := by
  obtain ⟨_, a₀, hget, hrun⟩ := of_bind_ok hrun
  obtain ⟨rfl, rfl⟩ := of_pure_ok hget
  obtain ⟨_, a₁, hemit, hrun⟩ := of_bind_ok hrun
  obtain ⟨_, a₂, hpad, hrun⟩ := of_bind_ok hrun
  obtain ⟨_, a₃, hdflt, hrun⟩ := of_bind_ok hrun
  obtain ⟨_, a₄, hlow, hrun⟩ := of_bind_ok hrun
  obtain ⟨_, a₅, hhigh, hrun⟩ := of_bind_ok hrun
  obtain ⟨uses₃, hhead⟩ := switchHead_extends h hemit hpad hdflt
  have hlows := hhead.trans (emitBytes_extends hhead.records hlow)
  have hhighs := hlows.trans (emitBytes_extends hlows.records hhigh)
  obtain ⟨uses', htargets⟩ := forM_extends
    (fun t a uses v a' h hrun => ⟨_, reference_extends h hrun⟩) hhighs.records hrun
  exact ⟨uses', hhighs.trans htargets⟩

/-- A switch over listed keys: its head, the number of pairs and the pairs. -/
def lookupPieces (dflt : Text) (pairs : List (Int32 × Text)) (base : Nat) : List Piece :=
  switchHead .lookupswitch base dflt ++ (fourBytes pairs.length.toUInt32).map .byte ++
    pairs.flatMap fun pair => (fourBytes pair.1.toUInt32).map .byte ++ [.use pair.2 base true]

theorem lookupswitch_extends {dflt : Text} {keys : List Int32} {targets : List Text}
    (h : a.Records uses) (hrun : lookupswitch dflt keys targets a = .ok (v, a')) :
    ∃ uses', Extends a uses a' uses' (lookupPieces dflt (keys.zip targets) a.bytes.size) [] := by
  unfold lookupswitch at hrun
  split at hrun
  · contradiction
  case isFalse hlength =>
    have hpairs : (keys.zip targets).length = keys.length := by
      rw [List.length_zip, Decidable.of_not_not hlength, Nat.min_self]
    unfold lookupPieces
    rw [hpairs]
    obtain ⟨_, a₀, hget, hrun⟩ := of_bind_ok hrun
    obtain ⟨rfl, rfl⟩ := of_pure_ok hget
    obtain ⟨_, a₁, hemit, hrun⟩ := of_bind_ok hrun
    obtain ⟨_, a₂, hpad, hrun⟩ := of_bind_ok hrun
    obtain ⟨_, a₃, hdflt, hrun⟩ := of_bind_ok hrun
    obtain ⟨_, a₄, hcount, hrun⟩ := of_bind_ok hrun
    obtain ⟨uses₃, hhead⟩ := switchHead_extends h hemit hpad hdflt
    have hcounts := hhead.trans (emitBytes_extends hhead.records hcount)
    obtain ⟨uses', hrest⟩ := forM_extends (fun p a uses v a' h hrun => by
      obtain ⟨_, a₁, hkey, hrun⟩ := of_bind_ok hrun
      have hkeys := emitBytes_extends h hkey
      exact ⟨_, hkeys.trans (reference_extends hkeys.records hrun)⟩) hcounts.records hrun
    exact ⟨uses', hcounts.trans hrest⟩

end Operations

/-- Assembling by `x` extends the body, with these entries of the exception table. -/
def Grows {α : Type} (x : Assemble α) (entries : List PendingHandler) : Prop :=
  ∀ a uses v a', Records a uses → x a = .ok (v, a') →
    ∃ uses' pieces, Extends a uses a' uses' pieces entries

section Grows

variable {α β : Type}

theorem grows_pure (v : α) : Grows (pure v : Assemble α) [] := by
  intro a uses _ a' h hrun
  obtain ⟨_, rfl⟩ := of_pure_ok hrun
  exact ⟨uses, [], h.extends_refl⟩

theorem Grows.bind {x : Assemble α} {f : α → Assemble β} {hs ks : List PendingHandler}
    (hx : Grows x hs) (hf : ∀ v, Grows (f v) ks) : Grows (x >>= f) (hs ++ ks) := by
  intro a uses v a' h hrun
  obtain ⟨u, a₁, hfirst, hrest⟩ := of_bind_ok hrun
  obtain ⟨uses₁, ps, hone⟩ := hx a uses u a₁ h hfirst
  obtain ⟨uses', qs, htwo⟩ := hf u a₁ uses₁ v a' hone.records hrest
  exact ⟨uses', ps ++ qs, hone.trans htwo⟩

theorem grows_emitBytes (bs : List UInt8) : Grows (emitBytes bs) [] :=
  fun _ uses _ _ h hrun => ⟨uses, _, emitBytes_extends h hrun⟩

theorem grows_emit (op : Opcode) : Grows (emit op) [] := by
  rw [emit_eq]
  exact grows_emitBytes _

theorem grows_emitU2 (op : Opcode) (operand : UInt16) : Grows (emitU2 op operand) [] :=
  grows_emitBytes _

theorem grows_internOr (missing : AssemblyError) (k : Build UInt16) :
    Grows (internOr missing k) [] := by
  intro a uses v a' h hrun
  obtain ⟨_, a₀, hget, hrun⟩ := of_bind_ok hrun
  obtain ⟨rfl, rfl⟩ := of_pure_ok hget
  cases hpool : a.pool with
  | none =>
      rw [hpool] at hrun
      contradiction
  | some b =>
      rw [hpool] at hrun
      obtain ⟨_, rfl⟩ := Prod.mk.inj (Except.ok.inj hrun)
      exact ⟨uses, [], h.extends_of_eq rfl rfl (by simp)⟩

/-- An instruction with an interned operand. -/
theorem grows_pooled (missing : AssemblyError) (k : Build UInt16) {f : UInt16 → Assemble Unit}
    (hf : ∀ i, Grows (f i) []) : Grows (internOr missing k >>= f) [] :=
  (grows_internOr missing k).bind hf

theorem grows_loadIndex (index : UInt16) : Grows (loadIndex index) [] := by
  unfold loadIndex
  split
  · exact grows_emitBytes _
  · exact grows_emitBytes _

theorem grows_pushInt (v : Int32) : Grows (pushInt v) [] := by
  unfold pushInt
  split
  · exact grows_emitBytes _
  split
  · exact grows_emitBytes _
  split
  · exact grows_emitBytes _
  · exact grows_pooled _ _ grows_loadIndex

theorem grows_pushLong (v : Int64) : Grows (pushLong v) [] := by
  unfold pushLong
  split
  · exact grows_emit _
  split
  · exact grows_emit _
  · exact grows_pooled _ _ (grows_emitU2 _)

theorem grows_pushDouble (bits : UInt64) : Grows (pushDouble bits) [] := by
  unfold pushDouble
  split
  · exact grows_emit _
  split
  · exact grows_emit _
  · exact grows_pooled _ _ (grows_emitU2 _)

theorem grows_localAccess (base : Opcode) (compactByte : UInt8) (slot : Int) :
    Grows (localAccess base compactByte slot) [] := by
  unfold localAccess
  split
  · exact grows_emitBytes _
  split
  · exact grows_emitBytes _
  · exact grows_emitBytes _

theorem grows_iinc (slot delta : Int) : Grows (iinc slot delta) [] := by
  unfold iinc
  dsimp only
  split
  · exact grows_emitBytes _
  · exact grows_emitBytes _

theorem grows_invoke (op : Opcode) (owner name descriptor : Text) :
    Grows (invoke op owner name descriptor) [] := by
  unfold invoke
  split
  · exact grows_pooled _ _ fun i => (grows_emitU2 _ i).bind fun _ => grows_emitBytes _
  · exact grows_pooled _ _ (grows_emitU2 _)

theorem grows_line (n : UInt16) : Grows (line n) [] := by
  intro a uses v a' h hrun
  obtain ⟨_, rfl⟩ := Prod.mk.inj (Except.ok.inj hrun)
  exact ⟨uses, [], h.extends_of_eq rfl rfl (by simp)⟩

theorem grows_handler (entry : PendingHandler) : Grows (handler entry) [entry] := by
  have hadd : Grows (modify fun a => { a with handlers := a.handlers ++ [entry] }) [entry] := by
    intro a uses v a' h hrun
    obtain ⟨_, rfl⟩ := Prod.mk.inj (Except.ok.inj hrun)
    exact ⟨uses, [], h.extends_of_eq rfl rfl rfl⟩
  intro a uses v a' h hrun
  obtain ⟨_, a₀, hget, hrun⟩ := of_bind_ok hrun
  obtain ⟨rfl, rfl⟩ := of_pure_ok hget
  dsimp only at hrun
  split at hrun
  · exact (grows_pure ()).bind (fun _ => hadd) a uses v a' h hrun
  · exact (grows_internOr _ _).bind (fun _ => hadd) a uses v a' h hrun

end Grows

end Assembler

namespace Directive

/-- The entries of the exception table that a line adds. -/
def entries : Directive → List PendingHandler
  | handler h => [h]
  | _ => []

theorem assemble_grows (d : Directive) : Grows d.assemble d.entries := by
  cases d with
  | plain op => exact grows_emit op
  | raw bytes => exact grows_emitBytes bytes
  | pad n => exact grows_emitBytes _
  | u1 op operand => exact grows_emitBytes _
  | u2 op operand => exact grows_emitBytes _
  | pushInt v => exact grows_pushInt v
  | pushLong v => exact grows_pushLong v
  | pushFloat bits => exact grows_pooled _ _ (grows_emitU2 _)
  | pushDouble bits => exact grows_pushDouble bits
  | loadString t => exact grows_pooled _ _ grows_loadIndex
  | loadClass name => exact grows_pooled _ _ grows_loadIndex
  | pooled op k =>
      cases k with
      | index i => exact grows_emitU2 op i
      | _ => exact grows_pooled _ _ (grows_emitU2 op)
  | load base slot => exact grows_localAccess _ _ _
  | store base slot => exact grows_localAccess _ _ _
  | iinc slot delta => exact grows_iinc slot delta
  | invoke op owner name descriptor => exact grows_invoke op owner name descriptor
  | field op owner name descriptor => exact grows_pooled _ _ (grows_emitU2 op)
  | typeOp op name => exact grows_pooled _ _ (grows_emitU2 op)
  | multianewarray descriptor dims =>
      exact grows_pooled _ _ fun i => (grows_emitU2 _ i).bind fun _ => grows_emitBytes _
  | line n => exact grows_line n
  | label name => exact fun a uses v a' h hrun => ⟨uses, [], (mark_extends h hrun).1⟩
  | jump op name =>
      intro a uses v a' h hrun
      obtain ⟨uses', hjump⟩ := jump_extends h hrun
      exact ⟨uses', _, hjump⟩
  | tableswitch low dflt targets =>
      intro a uses v a' h hrun
      obtain ⟨uses', hswitch⟩ := tableswitch_extends h hrun
      exact ⟨uses', _, hswitch⟩
  | lookupswitch dflt keys targets =>
      intro a uses v a' h hrun
      obtain ⟨uses', hswitch⟩ := lookupswitch_extends h hrun
      exact ⟨uses', _, hswitch⟩
  | handler entry => exact grows_handler entry

theorem assembleAll_cons (d : Directive) (ds : List Directive) (a : Assembler) :
    assembleAll (d :: ds) a = (d.assemble a).bind fun p => assembleAll ds p.2 := by
  change ((d.assemble a >>= fun p => ds.forM assemble p.2) >>= fun p => pure p.2) = _
  cases d.assemble a with
  | error e => rfl
  | ok p => rfl

theorem assembleAll_append (ds es : List Directive) (a : Assembler) :
    assembleAll (ds ++ es) a = (assembleAll ds a).bind (assembleAll es) := by
  induction ds generalizing a with
  | nil => rfl
  | cons d ds ih =>
      rw [List.cons_append, assembleAll_cons, assembleAll_cons]
      cases d.assemble a with
      | error e => rfl
      | ok p => exact ih p.2

theorem assembleAll_grows {ds : List Directive} {a a' : Assembler} {uses : List (Text × Gap)}
    (h : a.Records uses) (hrun : assembleAll ds a = .ok a') :
    ∃ uses' pieces, Extends a uses a' uses' pieces (ds.flatMap entries) := by
  induction ds generalizing a uses with
  | nil =>
      obtain rfl := Except.ok.inj hrun
      exact ⟨uses, [], h.extends_refl⟩
  | cons d ds ih =>
      rw [assembleAll_cons] at hrun
      obtain ⟨⟨v, a₁⟩, hfirst, hrest⟩ := of_except_bind_ok hrun
      obtain ⟨uses₁, ps, hone⟩ := assemble_grows d a uses v a₁ h hfirst
      obtain ⟨uses', qs, hmany⟩ := ih hone.records hrest
      exact ⟨uses', ps ++ qs, hone.trans hmany⟩

end Directive

end ClassEngine
