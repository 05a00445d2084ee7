import ClassEngine.Proofs.Assembly.Layout
import ClassEngine.Proofs.Engine.Exceptions

/-!
What the engine does at a branch or a switch whose operands stand in the code: it reads each distance
as it was written, and goes where the operand stack and the distances say.
-/

namespace ClassEngine

open Assembler Machine Exec Interpreter

/-- An activation that reads on at an address. -/
def Frame.readingAt (f : Frame) (p : Nat) : Frame :=
  { f with pc := p }

namespace FrameM

variable {f : Frame} {p : Nat} {α β : Type}

theorem bind_ok {x : FrameM α} {k : α → FrameM β} {v : α} {g : Frame} (h : x f = .ok (v, g)) :
    (x >>= k) f = k v g := by
  change (x f >>= fun q => k q.1 q.2) = _
  rw [h]
  rfl

section Operands

theorem u1_readingAt {b : UInt8} (hb : f.bytecode[p]? = some b) :
    u1 (f.readingAt p) = .ok (b, f.readingAt (p + 1)) := by
  have hread : (f.readingAt p).bytecode[(p : Int).toNat]? = some b := hb
  unfold u1
  rw [show (f.readingAt p).pc = p from rfl, if_neg (by omega), hread]
  rfl

theorem u2_readingAt {v : UInt16} (h : Stands f.bytecode p (twoBytes v)) :
    u2 (f.readingAt p) = .ok (v, f.readingAt (p + 2)) := by
  obtain ⟨hhi, h⟩ := stands_cons.mp h
  obtain ⟨hlo, _⟩ := stands_cons.mp h
  have hv : ((v.toNat / 256).toUInt8.toNat * 256 + v.toNat.toUInt8.toNat).toUInt16 = v := by
    apply UInt16.toNat_inj.mp
    have := v.toNat_lt
    simp
    omega
  unfold u2
  rw [bind_ok (u1_readingAt hhi), bind_ok (u1_readingAt hlo), hv]
  rfl

theorem fourBytes_eq (v : UInt32) :
    fourBytes v = twoBytes (v.toNat / 65536).toUInt16 ++ twoBytes v.toNat.toUInt16 := by
  have := v.toNat_lt
  simp only [fourBytes, twoBytes, List.cons_append, List.nil_append, List.cons.injEq, and_true]
  refine ⟨?_, ?_, ?_, ?_⟩ <;> apply UInt8.toNat_inj.mp <;> simp <;> omega

theorem s4_readingAt {v : UInt32} (h : Stands f.bytecode p (fourBytes v)) :
    s4 (f.readingAt p) = .ok (v.toInt32, f.readingAt (p + 4)) := by
  rw [fourBytes_eq, stands_append] at h
  have hlo : Stands f.bytecode (p + 2) (twoBytes v.toNat.toUInt16) := h.2
  have hv : ((v.toNat / 65536).toUInt16.toNat * 65536 + v.toNat.toUInt16.toNat).toUInt32 = v := by
    apply UInt32.toNat_inj.mp
    have := v.toNat_lt
    simp
    omega
  unfold s4
  rw [bind_ok (u2_readingAt h.1), bind_ok (u2_readingAt hlo), hv]
  rfl

theorem s4_int {v : Int32} (h : Stands f.bytecode p (fourBytes v.toUInt32)) :
    s4 (f.readingAt p) = .ok (v, f.readingAt (p + 4)) := by
  rw [s4_readingAt h, Int32.toInt32_toUInt32]

/-- A distance of two bytes is read as it was written. -/
theorem s2_operand {offset : Int} (h : Stands f.bytecode p (operand false offset))
    (hlow : -32768 ≤ offset) (hhigh : offset ≤ 32767) :
    ∃ w : Int16, w.toInt = offset ∧ s2 (f.readingAt p) = .ok (w, f.readingAt (p + 2)) := by
  refine ⟨(offset % 65536).toNat.toUInt16.toInt16, ?_, ?_⟩
  · have hnat : ((offset % 65536).toNat : Int) = offset % 65536 := Int.toNat_of_nonneg (by omega)
    change (BitVec.ofNat 16 (offset % 65536).toNat).toInt = offset
    rw [BitVec.toInt_ofNat', hnat, Int.bmod_eq_emod]
    split <;> omega
  · unfold s2
    rw [bind_ok (u2_readingAt h)]
    rfl

/-- A distance of four bytes is read as it was written. -/
theorem s4_operand {offset : Int} (h : Stands f.bytecode p (operand true offset))
    (hlow : -65535 ≤ offset) (hhigh : offset ≤ 65535) :
    ∃ w : Int32, w.toInt = offset ∧ s4 (f.readingAt p) = .ok (w, f.readingAt (p + 4)) := by
  refine ⟨(offset % 4294967296).toNat.toUInt32.toInt32, ?_, s4_readingAt h⟩
  have hnat : ((offset % 4294967296).toNat : Int) = offset % 4294967296 :=
    Int.toNat_of_nonneg (by omega)
  change (BitVec.ofNat 32 (offset % 4294967296).toNat).toInt = offset
  rw [BitVec.toInt_ofNat', hnat, Int.bmod_eq_emod]
  split <;> omega

end Operands

end FrameM

/-- What a branch decides on one int. -/
def decideInt (test : Int32 → Bool) : List Value → Option (Bool × List Value)
  | .int a :: rest => some (test a, rest)
  | _ => none

/-- What a branch decides on two ints. -/
def decideInts (test : Int32 → Int32 → Bool) : List Value → Option (Bool × List Value)
  | .int b :: .int a :: rest => some (test a b, rest)
  | _ => none

/-- The reference in a value, if it is one. -/
def Value.reference? : Value → Option (Option Ref)
  | .null => some none
  | .ref r => some (some r)
  | _ => none

/-- What a branch decides on one reference. -/
def decideRef (test : Option Ref → Bool) : List Value → Option (Bool × List Value)
  | a :: rest => a.reference?.map fun r => (test r, rest)
  | _ => none

/-- What a branch decides on two references. -/
def decideRefs (test : Option Ref → Option Ref → Bool) : List Value → Option (Bool × List Value)
  | b :: a :: rest => do
    let r ← a.reference?
    let s ← b.reference?
    pure (test r s, rest)
  | _ => none

/-- Whether a branch is taken, by the operands on the stack, and what is left of the stack; `none` for
operands that it cannot have, and for all that is no branch of the engine. -/
def Opcode.decision : Opcode → List Value → Option (Bool × List Value)
  | .ifeq => decideInt fun a => a = 0
  | .ifne => decideInt fun a => a ≠ 0
  | .iflt => decideInt fun a => a < 0
  | .ifge => decideInt fun a => 0 ≤ a
  | .ifgt => decideInt fun a => 0 < a
  | .ifle => decideInt fun a => a ≤ 0
  | .ifIcmpeq => decideInts fun a b => a = b
  | .ifIcmpne => decideInts fun a b => a ≠ b
  | .ifIcmplt => decideInts fun a b => a < b
  | .ifIcmpge => decideInts fun a b => b ≤ a
  | .ifIcmpgt => decideInts fun a b => b < a
  | .ifIcmple => decideInts fun a b => a ≤ b
  | .ifAcmpeq => decideRefs fun r s => r = s
  | .ifAcmpne => decideRefs fun r s => r ≠ s
  | .ifnull => decideRef fun r => r = none
  | .ifnonnull => decideRef fun r => r ≠ none
  | .goto | .gotoW => fun stack => some (true, stack)
  | _ => fun _ => none

namespace FrameM

section Branches

variable {f : Frame} {p : Nat} {offset : Int} {taken : Bool} {rest : List Value}

/-- The frame after a branch. -/
def afterBranch (f : Frame) (rest : List Value) (taken : Bool) (offset : Int) (next : Nat) : Frame :=
  { f with stack := rest, pc := if taken then f.opPc + offset else next }

theorem pop_cons {v : Value} (hstack : f.stack = v :: rest) :
    pop f = .ok (v, { f with stack := rest }) := by
  rw [pop, hstack]

theorem popInt_cons {a : Int32} (hstack : f.stack = .int a :: rest) :
    popInt f = .ok (a, { f with stack := rest }) := by
  unfold popInt
  rw [bind_ok (pop_cons hstack)]
  rfl

theorem popLong_cons {a : Int64} (hstack : f.stack = .long a :: rest) :
    popLong f = .ok (a, { f with stack := rest }) := by
  unfold popLong
  rw [bind_ok (pop_cons hstack)]
  rfl

theorem popRef_cons {v : Value} {r : Option Ref} (hstack : f.stack = v :: rest)
    (hv : v.reference? = some r) : popRef f = .ok (r, { f with stack := rest }) := by
  have hasRef : asRef v = .ok r := by
    cases v with
    | null => exact congrArg Except.ok (Option.some.inj hv)
    | ref s => exact congrArg Except.ok (Option.some.inj hv)
    | _ => contradiction
  unfold popRef
  rw [bind_ok (pop_cons hstack), hasRef]
  rfl

variable {w : Int16}

theorem branchInt_run {c : Condition} {test : Int32 → Bool} (htest : ∀ a, c.holds a 0 = test a)
    (hoffset : s2 (f.readingAt p) = .ok (w, f.readingAt (p + 2)))
    (hdecision : decideInt test f.stack = some (taken, rest)) :
    branchInt c (f.readingAt p) = .ok ((), afterBranch f rest taken w.toInt (p + 2)) := by
  unfold decideInt at hdecision
  split at hdecision
  case h_1 a stack hstack =>
    obtain ⟨rfl, rfl⟩ := Prod.mk.inj (Option.some.inj hdecision)
    have hpop : popInt (f.readingAt (p + 2)) = .ok (a, _) := popInt_cons hstack
    unfold branchInt
    rw [bind_ok hoffset, bind_ok hpop, htest]
    cases test a <;> rfl
  case h_2 => contradiction

theorem branchInts_run {c : Condition} {test : Int32 → Int32 → Bool}
    (htest : ∀ a b, c.holds a b = test a b)
    (hoffset : s2 (f.readingAt p) = .ok (w, f.readingAt (p + 2)))
    (hdecision : decideInts test f.stack = some (taken, rest)) :
    branchInts c (f.readingAt p) = .ok ((), afterBranch f rest taken w.toInt (p + 2)) := by
  unfold decideInts at hdecision
  split at hdecision
  case h_1 b a stack hstack =>
    obtain ⟨rfl, rfl⟩ := Prod.mk.inj (Option.some.inj hdecision)
    have hpop : popInt (f.readingAt (p + 2)) = .ok (b, _) := popInt_cons hstack
    unfold branchInts
    rw [bind_ok hoffset, bind_ok hpop, bind_ok (popInt_cons rfl), htest]
    cases test a b <;> rfl
  case h_2 => contradiction

theorem branchNull_run {isNull : Bool} {test : Option Ref → Bool}
    (htest : ∀ r : Option Ref, (r.isNone == isNull) = test r)
    (hoffset : s2 (f.readingAt p) = .ok (w, f.readingAt (p + 2)))
    (hdecision : decideRef test f.stack = some (taken, rest)) :
    branchNull isNull (f.readingAt p) = .ok ((), afterBranch f rest taken w.toInt (p + 2)) := by
  unfold decideRef at hdecision
  split at hdecision
  case h_1 a stack hstack =>
    obtain ⟨r, hr, hdecision⟩ := Option.map_eq_some_iff.mp hdecision
    obtain ⟨rfl, rfl⟩ := Prod.mk.inj hdecision
    have hpop : popRef (f.readingAt (p + 2)) = .ok (r, _) := popRef_cons hstack hr
    unfold branchNull
    rw [bind_ok hoffset, bind_ok hpop, htest]
    cases test r <;> rfl
  case h_2 => contradiction

theorem branchRefs_run {same : Bool} {test : Option Ref → Option Ref → Bool}
    (htest : ∀ r s : Option Ref, ((r == s) == same) = test r s)
    (hoffset : s2 (f.readingAt p) = .ok (w, f.readingAt (p + 2)))
    (hdecision : decideRefs test f.stack = some (taken, rest)) :
    branchRefs same (f.readingAt p) = .ok ((), afterBranch f rest taken w.toInt (p + 2)) := by
  unfold decideRefs at hdecision
  split at hdecision
  case h_1 b a stack hstack =>
    obtain ⟨r, hr, hdecision⟩ := Option.bind_eq_some_iff.mp hdecision
    obtain ⟨s, hs, hdecision⟩ := Option.bind_eq_some_iff.mp hdecision
    obtain ⟨rfl, rfl⟩ := Prod.mk.inj (Option.some.inj hdecision)
    have hpop : popRef (f.readingAt (p + 2)) = .ok (s, _) := popRef_cons hstack hs
    unfold branchRefs
    rw [bind_ok hoffset, bind_ok hpop, bind_ok (popRef_cons rfl hr), htest]
    cases test r s <;> rfl
  case h_2 => contradiction

theorem goto_run (hoffset : s2 (f.readingAt p) = .ok (w, f.readingAt (p + 2))) :
    goto (f.readingAt p) = .ok ((), afterBranch f f.stack true w.toInt (p + 2)) := by
  unfold goto
  rw [bind_ok hoffset]
  rfl

theorem gotoWide_run {w : Int32} (hoffset : s4 (f.readingAt p) = .ok (w, f.readingAt (p + 4))) :
    gotoWide (f.readingAt p) = .ok ((), afterBranch f f.stack true w.toInt (p + 4)) := by
  unfold gotoWide
  rw [bind_ok hoffset]
  rfl

theorem narrow_run {op : Opcode} {x : FrameM Unit}
    (h : Stands f.bytecode p (operand op.hasWideOffset offset))
    (hfits : op.hasWideOffset = false → -32768 ≤ offset ∧ offset ≤ 32767)
    (hnarrow : op.hasWideOffset = false) (hop : Step.execute op = Step.inFrame x)
    (hx : ∀ w : Int16, s2 (f.readingAt p) = .ok (w, f.readingAt (p + 2)) →
      x (f.readingAt p) = .ok ((), afterBranch f rest taken w.toInt (p + 2))) :
    ∃ x : FrameM Unit, Step.execute op = Step.inFrame x ∧ x (f.readingAt p) =
      .ok ((), afterBranch f rest taken offset (p + operandSize op.hasWideOffset)) := by
  rw [hnarrow] at h
  obtain ⟨hlow, hhigh⟩ := hfits hnarrow
  obtain ⟨w, rfl, hw⟩ := s2_operand h hlow hhigh
  rw [hnarrow]
  exact ⟨x, hop, hx w hw⟩

/-- A branch does what is decided by the operands on the stack. -/
theorem branch_run {op : Opcode} (hdecision : op.decision f.stack = some (taken, rest))
    (h : Stands f.bytecode p (operand op.hasWideOffset offset)) (hlow : -65535 ≤ offset)
    (hhigh : offset ≤ 65535)
    (hfits : op.hasWideOffset = false → -32768 ≤ offset ∧ offset ≤ 32767) :
    ∃ x : FrameM Unit, Step.execute op = Step.inFrame x ∧ x (f.readingAt p) =
      .ok ((), afterBranch f rest taken offset (p + operandSize op.hasWideOffset)) := by
  cases op with
  | ifeq | ifne | iflt | ifge | ifgt | ifle =>
      exact narrow_run h hfits rfl rfl fun w hw =>
        branchInt_run (fun a => by rw [Bool.eq_iff_iff]; simp [Condition.holds]) hw hdecision
  | ifIcmpeq | ifIcmpne | ifIcmplt | ifIcmpge | ifIcmpgt | ifIcmple =>
      exact narrow_run h hfits rfl rfl fun w hw =>
        branchInts_run (fun a b => by rw [Bool.eq_iff_iff]; simp [Condition.holds]) hw hdecision
  | ifAcmpeq | ifAcmpne =>
      exact narrow_run h hfits rfl rfl fun w hw =>
        branchRefs_run (fun r s => by by_cases hrs : r = s <;> simp [hrs]) hw hdecision
  | ifnull | ifnonnull =>
      exact narrow_run h hfits rfl rfl fun w hw =>
        branchNull_run (fun r => by cases r <;> rfl) hw hdecision
  | goto =>
      obtain ⟨rfl, rfl⟩ := Prod.mk.inj (Option.some.inj hdecision)
      exact narrow_run h hfits rfl rfl fun w hw => goto_run hw
  | gotoW =>
      obtain ⟨rfl, rfl⟩ := Prod.mk.inj (Option.some.inj hdecision)
      obtain ⟨w, rfl, hw⟩ := s4_operand h hlow hhigh
      exact ⟨gotoWide, rfl, gotoWide_run hw⟩
  | _ => contradiction

end Branches

section Switches

variable {f : Frame} {p : Nat} {key : Int32} {rest : List Value}

/-- One of many things that are equally long and stand in a row. -/
theorem stands_flatMap {α : Type} {bytes : Array UInt8} {i width k : Nat} {xs : List α} {x : α}
    {encode : α → List UInt8} (hwidth : ∀ x, (encode x).length = width)
    (h : Stands bytes i (xs.flatMap encode)) (hk : xs[k]? = some x) :
    Stands bytes (i + width * k) (encode x) := by
  induction xs generalizing i k with
  | nil => simp at hk
  | cons y xs ih =>
      rw [List.flatMap_cons, stands_append, hwidth] at h
      cases k with
      | zero =>
          obtain rfl : y = x := by simpa using hk
          exact h.1
      | succ k =>
          have hstands := ih h.2 (by simpa using hk)
          rwa [Nat.add_assoc, Nat.add_comm width, ← Nat.mul_succ] at hstands

/-- The distance that a table of targets gives for a key. -/
def tableOffset (low : Int32) (dflt : Int) (offsets : List Int) (key : Int32) : Int :=
  if key < low then dflt else (offsets[(key.toInt - low.toInt).toNat]?).getD dflt

/-- An entry of a table is read behind those before it. -/
theorem tableEntry_run {k : Nat} {offset : Int} {offsets : List Int}
    (h : Stands f.bytecode p (offsets.flatMap (operand true))) (hoffset : offsets[k]? = some offset)
    (hbounds : -65535 ≤ offset ∧ offset ≤ 65535) :
    (do skip (4 * (k : Int)); let w ← s4; branch w.toInt : FrameM Unit) (f.readingAt p) =
      .ok ((), afterBranch f f.stack true offset 0) := by
  have hskip : skip (4 * (k : Int)) (f.readingAt p) = .ok ((), f.readingAt (p + 4 * k)) := rfl
  have hentry : Stands f.bytecode (p + 4 * k) (operand true offset) :=
    stands_flatMap (operand_length true) h hoffset
  obtain ⟨w, rfl, hw⟩ := s4_operand hentry hbounds.1 hbounds.2
  rw [bind_ok hskip, bind_ok hw]
  rfl

/-- A switch over a table goes where the table says, whatever the key is. -/
theorem tableswitch_run {low high : Int32} {dflt : Int} {offsets : List Int}
    (hstack : f.stack = .int key :: rest) (hne : offsets ≠ [])
    (hhigh : high.toInt = low.toInt + offsets.length - 1) (hlength : offsets.length ≤ 65535)
    (hbounds : ∀ offset ∈ dflt :: offsets, -65535 ≤ offset ∧ offset ≤ 65535)
    (h : Stands f.bytecode (Bytecode.align p) (operand true dflt ++ (fourBytes low.toUInt32 ++
      (fourBytes high.toUInt32 ++ offsets.flatMap (operand true))))) :
    tableswitch (f.readingAt p) =
      .ok ((), afterBranch f rest true (tableOffset low dflt offsets key) 0) := by
  rw [stands_append, stands_append, stands_append] at h
  obtain ⟨hdflt, hlow, hhighs, hoffsets⟩ := h
  obtain ⟨d, rfl, hd⟩ := s4_operand hdflt (hbounds dflt List.mem_cons_self).1
    (hbounds dflt List.mem_cons_self).2
  have halign : align (f.readingAt p) = .ok ((), f.readingAt (Bytecode.align p)) := rfl
  have hl : s4 (f.readingAt (Bytecode.align p + 4)) =
      .ok (low, f.readingAt (Bytecode.align p + 8)) := s4_int hlow
  have hh : s4 (f.readingAt (Bytecode.align p + 8)) =
      .ok (high, f.readingAt (Bytecode.align p + 12)) := s4_int hhighs
  have hpop : popInt (f.readingAt (Bytecode.align p + 12)) = .ok (key, _) := popInt_cons hstack
  have hpositive : 0 < offsets.length := List.length_pos_iff.mpr hne
  have hordered : ¬high < low := by
    rw [Int32.lt_iff_toInt_lt]
    omega
  unfold tableswitch
  rw [bind_ok halign, bind_ok hd, bind_ok hl, bind_ok hh]
  dsimp only
  rw [if_neg hordered, bind_ok hpop]
  by_cases hbelow : key < low
  · rw [if_pos (.inl hbelow), tableOffset, if_pos hbelow]
    rfl
  have hge : low.toInt ≤ key.toInt := by
    rw [Int32.lt_iff_toInt_lt] at hbelow
    omega
  by_cases habove : high < key
  · rw [if_pos (.inr habove), tableOffset, if_neg hbelow, List.getElem?_eq_none]
    · rfl
    · rw [Int32.lt_iff_toInt_lt] at habove
      omega
  rw [if_neg (by simp [hbelow, habove]), tableOffset, if_neg hbelow]
  rw [Int32.lt_iff_toInt_lt] at habove
  have hindex : (key.toInt - low.toInt).toNat < offsets.length := by omega
  obtain ⟨offset, hoffset⟩ : ∃ offset, offsets[(key.toInt - low.toInt).toNat]? = some offset :=
    ⟨_, List.getElem?_eq_getElem hindex⟩
  have hmem := hbounds offset (List.mem_cons_of_mem _ (List.mem_of_getElem? hoffset))
  have hdifference : (key - low).toInt = ((key.toInt - low.toInt).toNat : Int) := by
    rw [Int32.toInt_sub, Int.bmod_eq_of_le] <;> omega
  rw [hdifference, hoffset]
  exact tableEntry_run (f := { f with stack := rest }) hoffsets hoffset hmem

theorem lookupPairs_run {dflt : Int} {pairs : List (Int32 × Int)}
    (hbounds : ∀ pair ∈ pairs, -65535 ≤ pair.2 ∧ pair.2 ≤ 65535)
    (h : Stands f.bytecode p (pairs.flatMap fun pair =>
      fourBytes pair.1.toUInt32 ++ operand true pair.2)) :
    lookupPairs key dflt pairs.length (f.readingAt p) =
      .ok ((), afterBranch f f.stack true ((pairs.lookup key).getD dflt) 0) := by
  induction pairs generalizing p with
  | nil => rfl
  | cons pair pairs ih =>
      obtain ⟨candidate, offset⟩ := pair
      rw [List.flatMap_cons, stands_append, stands_append] at h
      obtain ⟨⟨hcandidate, hoffset⟩, hrest⟩ := h
      have hpair := hbounds _ List.mem_cons_self
      obtain ⟨w, hw, hs4⟩ := s4_operand hoffset hpair.1 hpair.2
      dsimp only at hw
      subst hw
      have hw : s4 (f.readingAt (p + 4)) = .ok (w, f.readingAt (p + 8)) := hs4
      rw [List.length_cons, lookupPairs, bind_ok (s4_int hcandidate), bind_ok hw]
      by_cases hfound : candidate = key
      · subst hfound
        rw [if_pos rfl, List.lookup_cons_self]
        rfl
      · have hbeq : (key == candidate) = false := beq_false_of_ne (Ne.symm hfound)
        rw [if_neg hfound, List.lookup_cons, hbeq]
        exact ih (fun pair hmem => hbounds pair (List.mem_cons_of_mem _ hmem)) hrest

/-- A switch over listed keys goes where the first pair with the key says. -/
theorem lookupswitch_run {dflt : Int} {pairs : List (Int32 × Int)}
    (hstack : f.stack = .int key :: rest) (hlength : pairs.length ≤ 65535)
    (hdflt : -65535 ≤ dflt ∧ dflt ≤ 65535)
    (hbounds : ∀ pair ∈ pairs, -65535 ≤ pair.2 ∧ pair.2 ≤ 65535)
    (h : Stands f.bytecode (Bytecode.align p) (operand true dflt ++
      (fourBytes pairs.length.toUInt32 ++ pairs.flatMap fun pair =>
        fourBytes pair.1.toUInt32 ++ operand true pair.2))) :
    lookupswitch (f.readingAt p) =
      .ok ((), afterBranch f rest true ((pairs.lookup key).getD dflt) 0) := by
  rw [stands_append, stands_append] at h
  obtain ⟨hdefault, hcount, hpairs⟩ := h
  obtain ⟨d, rfl, hd⟩ := s4_operand hdefault hdflt.1 hdflt.2
  have halign : align (f.readingAt p) = .ok ((), f.readingAt (Bytecode.align p)) := rfl
  have hn : pairs.length.toUInt32.toInt32.toInt = pairs.length := by
    change (BitVec.ofNat 32 pairs.length).toInt = pairs.length
    rw [BitVec.toInt_ofNat', Int.bmod_eq_of_le] <;> omega
  have hc : s4 (f.readingAt (Bytecode.align p + 4)) =
      .ok (pairs.length.toUInt32.toInt32, f.readingAt (Bytecode.align p + 8)) :=
    s4_readingAt hcount
  have hpop : popInt (f.readingAt (Bytecode.align p + 8)) = .ok (key, _) := popInt_cons hstack
  have hpositive : ¬pairs.length.toUInt32.toInt32 < 0 := by
    rw [Int32.lt_iff_toInt_lt, hn]
    exact Int.not_lt.mpr (Int.natCast_nonneg _)
  unfold lookupswitch
  rw [bind_ok halign, bind_ok hd, bind_ok hc]
  dsimp only
  rw [if_neg hpositive, bind_ok hpop, hn]
  exact lookupPairs_run (f := { f with stack := rest }) hbounds hpairs

end Switches

end FrameM

theorem Opcode.ofByte?_byte (op : Opcode) : Opcode.ofByte? op.byte = some op := by
  cases op <;> decide +kernel

/-- The engine is about to execute the instruction at an address of a code, with this stack. -/
def Machine.IsAt (m : Machine) (code : Code) (p : Nat) (stack : List Value) : Prop :=
  ∃ f callers, m.frames = f :: callers ∧ f.method.code = some code ∧ f.pc = p ∧ f.stack = stack

/-- The next instruction takes the innermost frame to an address and leaves it a stack. Nothing else
changes. -/
def Moves (ctx : Context) (m : Machine) (stack : List Value) (target : Nat) : Prop :=
  ∃ f callers, m.frames = f :: callers ∧ advance ctx m = .ok .next
    { m.note (.executing f.method.owner) with
      frames := { f with stack, opPc := f.pc, pc := target } :: callers }

section Execution

variable {ctx : Context} {m : Machine} {f : Frame} {callers : List Frame} {p : Nat} {op : Opcode}

theorem fetch_at {b : UInt8} (hframes : m.frames = f :: callers) (hpc : f.pc = p)
    (hbyte : f.bytecode[p]? = some b) : fetch ctx m = .ok b { m.note (.executing f.method.owner) with
      frames := Frame.readingAt { f with opPc := p } (p + 1) :: callers } := by
  have hlt : p < f.bytecode.size := (Array.getElem?_eq_some_iff.mp hbyte).1
  have hnote : Exec.note (.executing f.method.owner) ctx m =
      .ok () (m.note (.executing f.method.owner)) := rfl
  have hmark : onFrame (modify fun f => { f with opPc := f.pc }) ctx
      (m.note (.executing f.method.owner)) = .ok () { m.note (.executing f.method.owner) with
        frames := Frame.readingAt { f with opPc := p } p :: callers } := by
    unfold onFrame
    rw [note_frames, hframes]
    change EStateM.Result.ok () { m.note _ with frames := { f with opPc := f.pc } :: callers } = _
    rw [hpc, Frame.readingAt, ← hpc]
  have hread : FrameM.u1 (Frame.readingAt { f with opPc := p } p) = .ok (b, _) :=
    FrameM.u1_readingAt hbyte
  rw [fetch, bind_of_ok (currentFrame_ok hframes)]
  dsimp only
  rw [if_neg (by omega), bind_of_ok hnote, bind_of_ok hmark]
  unfold onFrame
  dsimp only
  rw [hread]

theorem Step.run_byte (op : Opcode) : Step.run op.byte = Step.execute op := by
  unfold Step.run
  rw [Opcode.ofByte?_byte]

/-- An instruction that has been read is executed. -/
theorem advance_execute {m' : Machine} {o : Outcome} (hframes : m.frames = f :: callers)
    (hpc : f.pc = p) (hbyte : f.bytecode[p]? = some op.byte)
    (hop : Step.execute op ctx { m.note (.executing f.method.owner) with
      frames := Frame.readingAt { f with opPc := p } (p + 1) :: callers } = .ok o m') :
    advance ctx m = .ok o m' := by
  have hstep : (Step.run op.byte).attempt ctx { m.note (.executing f.method.owner) with
      frames := Frame.readingAt { f with opPc := p } (p + 1) :: callers } = .ok (.ok o) m' := by
    rw [Step.run_byte, attempt, hop]
  rw [advance, bind_of_ok (fetch_at hframes hpc hbyte), bind_of_ok hstep]
  rfl

theorem onFrame_of_ok {α : Type} {x : FrameM α} {v : α} {g : Frame} (hframes : m.frames = f :: callers)
    (hx : x f = .ok (v, g)) : onFrame x ctx m = .ok v { m with frames := g :: callers } := by
  unfold onFrame
  rw [hframes]
  dsimp only
  rw [hx]

theorem inFrame_ok {x : FrameM Unit} {g : Frame} (hframes : m.frames = f :: callers)
    (hx : x f = .ok ((), g)) : Step.inFrame x ctx m = .ok .next { m with frames := g :: callers } := by
  rw [Step.inFrame, bind_of_ok (onFrame_of_ok hframes hx)]
  rfl

/-- An instruction that works on its frame alone. -/
theorem advance_inFrame {x : FrameM Unit} {g : Frame} (hframes : m.frames = f :: callers)
    (hpc : f.pc = p) (hbyte : f.bytecode[p]? = some op.byte)
    (hop : Step.execute op = Step.inFrame x)
    (hx : x (Frame.readingAt { f with opPc := p } (p + 1)) = .ok ((), g)) :
    advance ctx m = .ok .next { m.note (.executing f.method.owner) with frames := g :: callers } := by
  refine advance_execute hframes hpc hbyte ?_
  rw [hop]
  exact inFrame_ok rfl hx

end Execution

end ClassEngine
