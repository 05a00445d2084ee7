import Mathlib.Logic.Relation
import Mathlib.Tactic.Common
import ClassEngine.Bytecode.Listing

/-!
Listings of method bodies. An instruction that has a size is there as a whole, and its line is made
of its own bytes only. So a listing has one line for each instruction from the first on, without a
gap between them, and one more for the fault where an instruction is reached that is not whole. Main
result: `listings_tile_code`.
-/

namespace ClassEngine

theorem claimedLength_fixed {code : Array UInt8} {pc n : Nat} {op : Opcode}
    (hop : op.operands = .fixed n) : Bytecode.claimedLength code pc op = .ok (1 + n) := by
  unfold Bytecode.claimedLength
  split
  case h_4 =>
    rw [hop]
  all_goals contradiction

namespace Bytecode

/-- One address follows the other when the instruction at the first ends at the second. -/
def Follows (code : Array UInt8) (p q : Int) : Prop :=
  ∃ n : Nat, Bytecode.length code p = .ok n ∧ q = p + n

/-! Reading a part of the code -/

/-- Two codes have the same bytes from one address up to another one. -/
def Agree (low high : Nat) (code code' : Array UInt8) : Prop :=
  ∀ i, low ≤ i → i < high → code'[i]? = code[i]?

/-- Something that is read of a code is there, and depends only on the bytes from one address up to
another one: codes that agree on them, shorter ones too, give the same. -/
def ReadsWithin {α : Type} (code : Array UInt8) (low high : Nat)
    (read : Array UInt8 → Option α) : Prop :=
  ∃ a, ∀ code', Agree low high code code' → read code' = some a

section Reading

variable {α β : Type} {code : Array UInt8} {low high i : Nat}

theorem ReadsWithin.pure (a : α) : ReadsWithin code low high fun _ => some a :=
  ⟨a, fun _ _ => rfl⟩

/-- What is read next may depend on what the code itself gave. -/
theorem ReadsWithin.bind {x : Array UInt8 → Option α} {y : Array UInt8 → α → Option β}
    (hx : ReadsWithin code low high x)
    (hy : ∀ a, x code = some a → ReadsWithin code low high fun code' => y code' a) :
    ReadsWithin code low high fun code' => x code' >>= y code' := by
  obtain ⟨a, ha⟩ := hx
  obtain ⟨b, hb⟩ := hy a (ha code fun _ _ _ => rfl)
  refine ⟨b, fun code' hagree => ?_⟩
  change x code' >>= y code' = _
  rw [ha code' hagree]
  exact hb code' hagree

theorem ReadsWithin.map {x : Array UInt8 → Option α} (hx : ReadsWithin code low high x)
    (g : α → β) : ReadsWithin code low high fun code' => (x code').map g := by
  obtain ⟨a, ha⟩ := hx
  refine ⟨g a, fun code' hagree => ?_⟩
  change (x code').map g = _
  rw [ha code' hagree]
  rfl

variable (hsize : high ≤ code.size) (hlow : low ≤ i)
include hsize hlow

theorem byteAt?_within (hhigh : i < high) :
    ReadsWithin code low high fun code' => byteAt? code' i := by
  refine ⟨code[i], fun code' hagree => ?_⟩
  change code'[i]? = _
  rw [hagree i hlow hhigh]
  exact Array.getElem?_eq_getElem (by omega)

theorem u2At?_within (hhigh : i + 2 ≤ high) :
    ReadsWithin code low high fun code' => u2At? code' i :=
  (byteAt?_within hsize hlow (by omega)).bind fun _ _ =>
    (byteAt?_within hsize (by omega) (by omega)).bind fun _ _ => .pure _

theorem s2At?_within (hhigh : i + 2 ≤ high) :
    ReadsWithin code low high fun code' => s2At? code' i :=
  (u2At?_within hsize hlow hhigh).map _

theorem s4At?_within (hhigh : i + 4 ≤ high) :
    ReadsWithin code low high fun code' => s4At? code' i :=
  (u2At?_within hsize hlow (by omega)).bind fun _ _ =>
    (u2At?_within hsize (by omega) (by omega)).bind fun _ _ => .pure _

/-- The cases of a table switch take four bytes each. -/
theorem tableCases_within (pc : Nat) (acc : List Text) {n : Nat} (key : Int)
    (hhigh : i + 4 * n ≤ high) :
    ReadsWithin code low high fun code' => Listing.tableCases code' pc acc n key i := by
  induction n generalizing acc key i with
  | zero => exact .pure _
  | succ n ih =>
      exact (s4At?_within hsize hlow (by omega)).bind fun _ _ =>
        ih (i := i + 4) (by omega) _ _ (by omega)

/-- The cases of a look-up switch take eight bytes each. -/
theorem lookupCases_within (pc : Nat) (acc : List Text) {n : Nat} (hhigh : i + 8 * n ≤ high) :
    ReadsWithin code low high fun code' => Listing.lookupCases code' pc acc n i := by
  induction n generalizing acc i with
  | zero => exact .pure _
  | succ n ih =>
      exact (s4At?_within hsize hlow (by omega)).bind fun _ _ =>
        (s4At?_within hsize (by omega) (by omega)).bind fun _ _ =>
          ih (i := i + 8) (by omega) _ (by omega)

end Reading

/-! One instruction -/

/-- An instruction that has a size is there as a whole. -/
theorem of_length_ok {code : Array UInt8} {pc : Int} {n : Nat} (h : length code pc = .ok n) :
    0 ≤ pc ∧ ∃ b op, byteAt? code pc.toNat = some b ∧ Opcode.ofByte? b = some op ∧
      claimedLength code pc.toNat op = .ok n ∧ pc.toNat + n ≤ code.size := by
  rw [length] at h
  split at h
  case isTrue => cases h
  case isFalse hpc =>
    split at h
    · cases h
    · rename_i b hb
      split at h
      · cases h
      · rename_i op hop
        cases hclaim : claimedLength code pc.toNat op with
        | error e => rw [hclaim] at h; cases h
        | ok k =>
            rw [hclaim] at h
            change (if code.size < pc.toNat + k then _ else _) = _ at h
            split at h
            case isTrue => cases h
            case isFalse hfits =>
              cases h
              exact ⟨by omega, b, op, hb, hop, hclaim, by omega⟩

theorem le_align (p : Nat) : p ≤ align p := by
  rw [align]
  omega

section Operands

variable {code : Array UInt8} {pc n : Nat}

theorem claimedLength_wide_cases (h : claimedLength code pc .wide = .ok n) :
    ∃ b, byteAt? code (pc + 1) = some b ∧ n = if b = Opcode.iinc.byte then 6 else 4 := by
  rw [claimedLength] at h
  split at h
  · cases h
  · rename_i b hb
    cases h
    exact ⟨b, hb, rfl⟩

theorem claimedLength_tableswitch_cases (h : claimedLength code pc .tableswitch = .ok n) :
    ∃ low high, s4At? code (align (pc + 1) + 4) = some low ∧
      s4At? code (align (pc + 1) + 8) = some high ∧
      pc + n = align (pc + 1) + 12 + 4 * (high.toInt - low.toInt + 1).toNat := by
  have halign := le_align (pc + 1)
  rw [claimedLength] at h
  split at h
  · rename_i low high hlow hhigh
    split at h
    · cases h
    · cases h
      exact ⟨low, high, hlow, hhigh, by omega⟩
  · cases h

theorem claimedLength_lookupswitch_cases (h : claimedLength code pc .lookupswitch = .ok n) :
    ∃ pairs, s4At? code (align (pc + 1) + 4) = some pairs ∧
      pc + n = align (pc + 1) + 8 + 8 * pairs.toInt.toNat := by
  have halign := le_align (pc + 1)
  rw [claimedLength] at h
  split at h
  · rename_i pairs hpairs
    split at h
    · cases h
    · cases h
      exact ⟨pairs, hpairs, by omega⟩
  · cases h

/-- An instruction has at least its opcode. -/
theorem one_le_of_claimedLength {op : Opcode} (h : claimedLength code pc op = .ok n) : 1 ≤ n := by
  have halign := le_align (pc + 1)
  cases hop : op.operands with
  | fixed k =>
      rw [claimedLength_fixed hop] at h
      cases h
      omega
  | varying =>
      -- three instructions have operands of varying size
      obtain rfl | rfl | rfl : op = .tableswitch ∨ op = .lookupswitch ∨ op = .wide := by
        cases op <;> first | contradiction | decide
      · obtain ⟨_, _, -, -, hn⟩ := claimedLength_tableswitch_cases h
        omega
      · obtain ⟨_, -, hn⟩ := claimedLength_lookupswitch_cases h
        omega
      · obtain ⟨_, -, rfl⟩ := claimedLength_wide_cases h
        split <;> omega

/-- Most instructions show nothing but the target of a branch, or a byte that follows alone. -/
theorem plain_operands_within {op : Opcode} {k : Nat} {c : Option ClassFile}
    (hplain : ∀ code', Listing.operands code' pc c op =
      if op.isBranch then do
        let offset ← s2At? code' (pc + 1)
        pure (Listing.spaced [Text.ofInt (pc + offset.toInt)])
      else if op.operands = .fixed 1 then do
        pure (Listing.spaced [← (byteAt? code' (pc + 1)).map fun b => Text.ofNat b.toNat])
      else some [])
    (hop : op.operands = .fixed k) (hbranch : op.isBranch → 2 ≤ k)
    (hsize : pc + (1 + k) ≤ code.size) :
    ReadsWithin code pc (pc + (1 + k)) fun code' => Listing.operands code' pc c op := by
  simp only [hplain]
  split
  case isTrue htrue =>
    have hk := hbranch htrue
    exact (s2At?_within hsize (by omega) (by omega)).bind fun _ _ => .pure _
  split
  case isTrue hone =>
    obtain rfl : k = 1 := by rw [hop] at hone; cases hone; rfl
    exact ((byteAt?_within hsize (by omega) (by omega)).map _).bind fun _ _ => .pure _
  case isFalse => exact .pure _

/-- The operands of an instruction are written from the bytes that its size counts. -/
theorem operands_within {op : Opcode} (c : Option ClassFile)
    (h : claimedLength code pc op = .ok n) (hsize : pc + n ≤ code.size) :
    ReadsWithin code pc (pc + n) fun code' => Listing.operands code' pc c op := by
  have hfixed : ∀ {k : Nat}, op.operands = .fixed k → n = 1 + k := fun hop => by
    rw [claimedLength_fixed hop] at h
    cases h
    rfl
  have halign := le_align (pc + 1)
  -- the instructions whose operands have a form of their own, and then all others
  cases op with
  | gotoW | jsrW =>
      obtain rfl := hfixed rfl
      exact (s4At?_within hsize (by omega) (by omega)).bind fun _ _ => .pure _
  | ldc | newarray =>
      obtain rfl := hfixed rfl
      exact (byteAt?_within hsize (by omega) (by omega)).bind fun _ _ => .pure _
  | bipush =>
      obtain rfl := hfixed rfl
      exact ((byteAt?_within hsize (by omega) (by omega)).map _).bind fun _ _ => .pure _
  | sipush =>
      obtain rfl := hfixed rfl
      exact ((s2At?_within hsize (by omega) (by omega)).map _).bind fun _ _ => .pure _
  | ldcW | ldc2W | getstatic | putstatic | getfield | putfield | invokevirtual | invokespecial
  | invokestatic | invokeinterface | invokedynamic | newObject | anewarray | checkcast
  | instanceof =>
      obtain rfl := hfixed rfl
      exact ((u2At?_within hsize (by omega) (by omega)).map _).bind fun _ _ => .pure _
  | multianewarray =>
      obtain rfl := hfixed rfl
      exact ((u2At?_within hsize (by omega) (by omega)).map _).bind fun _ _ =>
        ((byteAt?_within hsize (by omega) (by omega)).map _).bind fun _ _ => .pure _
  | iinc =>
      obtain rfl := hfixed rfl
      exact ((byteAt?_within hsize (by omega) (by omega)).map _).bind fun _ _ =>
        ((byteAt?_within hsize (by omega) (by omega)).map _).bind fun _ _ => .pure _
  | wide =>
      obtain ⟨b, hb, rfl⟩ := claimedLength_wide_cases h
      have hfour : 4 ≤ if b = Opcode.iinc.byte then 6 else 4 := by split <;> omega
      refine (byteAt?_within hsize (by omega) (by omega)).bind fun inner hinner =>
        ((u2At?_within hsize (by omega) (by omega)).map _).bind fun _ _ => ?_
      obtain rfl : b = inner := Option.some.inj (hb.symm.trans hinner)
      split
      case isTrue hiinc =>
        rw [if_pos hiinc] at hsize
        exact ((s2At?_within hsize (by omega) (by omega)).map _).bind fun _ _ => .pure _
      case isFalse => exact .pure _
  | tableswitch =>
      obtain ⟨low, high, hlow, hhigh, hn⟩ := claimedLength_tableswitch_cases h
      refine (s4At?_within hsize (by omega) (by omega)).bind fun low' hlow' =>
        (s4At?_within hsize (by omega) (by omega)).bind fun high' hhigh' =>
          (s4At?_within hsize (by omega) (by omega)).bind fun _ _ => ?_
      obtain rfl : low = low' := Option.some.inj (hlow.symm.trans hlow')
      obtain rfl : high = high' := Option.some.inj (hhigh.symm.trans hhigh')
      exact tableCases_within hsize (by omega) _ _ _ (by omega)
  | lookupswitch =>
      obtain ⟨pairs, hpairs, hn⟩ := claimedLength_lookupswitch_cases h
      refine (s4At?_within hsize (by omega) (by omega)).bind fun pairs' hpairs' =>
        (s4At?_within hsize (by omega) (by omega)).bind fun _ _ => ?_
      obtain rfl : pairs = pairs' := Option.some.inj (hpairs.symm.trans hpairs')
      exact lookupCases_within hsize (by omega) _ _ (by omega)
  | _ =>
      obtain rfl := hfixed rfl
      exact plain_operands_within (fun _ => rfl) rfl (by decide) hsize

end Operands

/-- An instruction that has a size has a line, which is written from the bytes that its size
counts. -/
theorem instruction_within {code : Array UInt8} {pc : Int} {n : Nat} (c : Option ClassFile)
    (h : length code pc = .ok n) :
    ReadsWithin code pc.toNat (pc.toNat + n) fun code' => Listing.instruction code' pc c := by
  obtain ⟨hpc, b, op, hb, hop, hclaim, hsize⟩ := of_length_ok h
  have hone := one_le_of_claimedLength hclaim
  simp only [Listing.instruction, if_neg (Int.not_lt.mpr hpc)]
  refine (byteAt?_within hsize (by omega) (by omega)).bind fun b' hb' => ?_
  obtain rfl : b = b' := Option.some.inj (hb.symm.trans hb')
  simp only [hop]
  exact (operands_within c hclaim hsize).bind fun _ _ => .pure _

theorem length_bounds {code : Array UInt8} {pc : Int} {n : Nat} (h : length code pc = .ok n) :
    0 ≤ pc ∧ 1 ≤ n ∧ pc + n ≤ code.size := by
  obtain ⟨hpc, b, op, -, -, hclaim, hsize⟩ := of_length_ok h
  exact ⟨hpc, one_le_of_claimedLength hclaim, by omega⟩

end Bytecode

namespace Listing

open Bytecode

/-! A whole body -/

/-- Instructions that stand one behind the other, given by their addresses and sizes, from one
address up to another one. -/
inductive Tiles (code : Array UInt8) : Nat → List (Nat × Nat) → Nat → Prop where
  | nil (p : Nat) : Tiles code p [] p
  | cons {p n q : Nat} {tiles : List (Nat × Nat)} (here : length code p = .ok n)
      (rest : Tiles code (p + n) tiles q) : Tiles code p ((p, n) :: tiles) q

/-- What stands in a listing for an address without a whole instruction. -/
def faultLine (p : Nat) (e : LengthError) : Text :=
  address p ++ "<" ++ e.message ++ ">"

/-- Where the instructions end, and the lines that follow theirs: none at the end of the code, and
one where an instruction is reached that is not whole. -/
def EndsAt (code : Array UInt8) (q : Nat) (fault : List Text) : Prop :=
  q = code.size ∧ fault = [] ∨
    q < code.size ∧ ∃ e, length code q = .error e ∧ fault = [faultLine q e]

section Lines

variable {code : Array UInt8}

/-- The lines from an address on are those of the instructions that stand there, and of the fault
behind them. -/
theorem linesFrom_tiles (code : Array UInt8) (c : Option ClassFile) (acc : List Text)
    {fuel p : Nat} (hp : p ≤ code.size) (hfuel : code.size ≤ p + fuel) :
    ∃ tiles q lines fault, Tiles code p tiles q ∧
      tiles.map (fun t => instruction code t.1 c) = lines.map some ∧
      linesFrom code c acc fuel p = acc.reverse ++ (lines ++ fault) ∧ EndsAt code q fault := by
  induction fuel generalizing acc p with
  | zero =>
      refine ⟨[], p, [], [], .nil p, rfl, (List.append_nil _).symm, .inl ⟨by omega, rfl⟩⟩
  | succ fuel ih =>
      rw [linesFrom]
      split
      case isTrue hend =>
        exact ⟨[], p, [], [], .nil p, rfl, (List.append_nil _).symm, .inl ⟨by omega, rfl⟩⟩
      case isFalse hinside =>
        cases hlength : length code p with
        | error e =>
            refine ⟨[], p, [], [faultLine p e], .nil p, rfl, ?_, .inr ⟨by omega, e, hlength, rfl⟩⟩
            exact List.reverse_cons
        | ok n =>
            obtain ⟨-, hn, hfits⟩ := length_bounds hlength
            obtain ⟨line, hline⟩ := instruction_within c hlength
            have hline : instruction code p c = some line := hline code fun _ _ _ => rfl
            obtain ⟨tiles, q, lines, fault, htiles, hlines, heq, hends⟩ :=
              ih (line :: acc) (p := p + n) (by omega) (by omega)
            refine ⟨(p, n) :: tiles, q, line :: lines, fault, .cons hlength htiles, ?_, ?_, hends⟩
            · rw [List.map_cons, hline, hlines, List.map_cons]
            · rw [hline]
              change linesFrom code c (line :: acc) fuel (p + n) = _
              rw [heq, List.reverse_cons, List.append_assoc]
              rfl

/-- An address that is reached from the first instruction of a tiling is one of its addresses, or
nothing stands between it and the end. -/
theorem Tiles.reached {p q : Nat} {tiles : List (Nat × Nat)} (h : Tiles code p tiles q) {r : Int}
    (hr : Relation.ReflTransGen (Follows code) p r) :
    (∃ t ∈ tiles, r = t.1) ∨ Relation.ReflTransGen (Follows code) q r := by
  induction h with
  | nil => exact .inr hr
  | @cons p n q tiles here rest ih =>
      obtain rfl | ⟨s, ⟨k, hk, rfl⟩, hrest⟩ := Relation.ReflTransGen.cases_head hr
      · exact .inl ⟨_, List.mem_cons_self, rfl⟩
      · rw [here] at hk
        cases hk
        rw [← Int.natCast_add] at hrest
        exact (ih hrest).imp_left fun ⟨t, ht, heq⟩ => ⟨t, List.mem_cons_of_mem _ ht, heq⟩

theorem Tiles.follows {p q : Nat} {tiles : List (Nat × Nat)} (h : Tiles code p tiles q) :
    Relation.ReflTransGen (Follows code) p q := by
  induction h with
  | nil => exact .refl
  | cons here _ ih => exact .head ⟨_, here, by omega⟩ ih

theorem Tiles.length_of_mem {p q : Nat} {tiles : List (Nat × Nat)} (h : Tiles code p tiles q)
    {t : Nat × Nat} (ht : t ∈ tiles) : length code t.1 = .ok t.2 := by
  induction h with
  | nil => exact absurd ht List.not_mem_nil
  | cons here _ ih =>
      obtain rfl | ht := List.mem_cons.mp ht
      · exact here
      · exact ih ht

/-- There is a line for a fault exactly if some address is reached where no whole instruction
stands. -/
theorem fault_iff {p q : Nat} {tiles : List (Nat × Nat)} {fault : List Text}
    (h : Tiles code p tiles q) (hends : EndsAt code q fault) :
    fault ≠ [] ↔ ∃ r : Int, Relation.ReflTransGen (Follows code) p r ∧ r < code.size ∧
      ∃ e, length code r = .error e := by
  constructor
  · intro hfault
    obtain ⟨-, hnil⟩ | ⟨hinside, e, he, -⟩ := hends
    · exact absurd hnil hfault
    · exact ⟨q, h.follows, by omega, e, he⟩
  · rintro ⟨r, hr, hinside, e, he⟩ rfl
    obtain ⟨rfl, -⟩ | ⟨-, _, -, hcons⟩ := hends
    · obtain ⟨t, ht, rfl⟩ | hr := h.reached hr
      · rw [h.length_of_mem ht] at he
        cases he
      · -- nothing follows the end of the code
        obtain rfl | ⟨s, ⟨k, hk, -⟩, -⟩ := Relation.ReflTransGen.cases_head hr
        · omega
        · have hbounds := length_bounds hk
          omega
    · cases hcons

end Lines

/-- Whatever bytes a code is made of: where the instruction at an address has a size, it is there as
a whole, and it has a line that every code with the same bytes there gives too. The listing of the
code consists of the lines of the instructions from the first on, without a gap, and then of one
line for a fault, exactly if some instruction is reached that is not whole. -/
theorem listings_tile_code (code : Array UInt8) (c : Option ClassFile) :
    (∀ (pc : Int) (n : Nat), length code pc = .ok n →
      0 ≤ pc ∧ 1 ≤ n ∧ pc + n ≤ code.size ∧ ∃ line, instruction code pc c = some line ∧
        ∀ code', Agree pc.toNat (pc.toNat + n) code code' → instruction code' pc c = some line) ∧
    ∃ tiles q lines fault, Tiles code 0 tiles q ∧
      tiles.map (fun t => instruction code t.1 c) = lines.map some ∧
      listing code c = Text.join [10] (lines ++ fault) ∧ EndsAt code q fault ∧
      (fault ≠ [] ↔ ∃ r : Int, Relation.ReflTransGen (Follows code) 0 r ∧ r < code.size ∧
        ∃ e, length code r = .error e) := by
  constructor
  · intro pc n h
    obtain ⟨hpc, hn, hfits⟩ := length_bounds h
    obtain ⟨line, hline⟩ := instruction_within c h
    exact ⟨hpc, hn, hfits, line, hline code fun _ _ _ => rfl, hline⟩
  · obtain ⟨tiles, q, lines, fault, htiles, hlines, hlisting, hends⟩ :=
      linesFrom_tiles code c [] (Nat.zero_le _) (Nat.le_add_left _ _)
    exact ⟨tiles, q, lines, fault, htiles, hlines, congrArg (Text.join [10]) hlisting, hends,
      fault_iff htiles hends⟩

/-- A jump to itself, and then a switch that the code ends within. -/
example : listing #[0xA7, 0x00, 0x00, 0xAA, 0x00] none =
    "0000  goto 0\n0003  <truncated tableswitch at pc 3>" := by
  decide +kernel

end Listing

end ClassEngine
