import ClassEngine.Proofs.Assembly.Branches

/-!
Where the branches and switches of an assembled body go. Main result: `assembled_code_goes_to_labels`.
-/

namespace ClassEngine

open Assembler Machine Exec Interpreter

namespace Directive

/-- The labels that a line refers to. -/
def mentions : Directive → List Text
  | jump _ name => [name]
  | tableswitch _ dflt targets => dflt :: targets
  | lookupswitch dflt _ targets => dflt :: targets
  | handler h => [h.start, h.stop, h.target]
  | _ => []

/-- A line of a body begins at an address of its code. -/
def PlacedAt (pool : Option Builder) (ds : List Directive) (d : Directive) (p : Nat) : Prop :=
  ∃ before after a, ds = before ++ d :: after ∧ assembleAll before (.start pool) = .ok a ∧
    a.bytes.size = p

section Placement

variable {pool : Option Builder} {ds : List Directive} {a : Assembler} {d : Directive} {p : Nat}

theorem exists_placedAt (hassembled : assembleAll ds (.start pool) = .ok a) (hd : d ∈ ds) :
    ∃ p, PlacedAt pool ds d p := by
  obtain ⟨before, after, rfl⟩ := List.append_of_mem hd
  rw [assembleAll_append] at hassembled
  obtain ⟨a₀, hbefore, _⟩ := Assemble.of_except_bind_ok hassembled
  exact ⟨a₀.bytes.size, before, after, a₀, rfl, hbefore, rfl⟩

/-- The line at an address, and all that is assembled before and after it. -/
theorem PlacedAt.split (hplaced : PlacedAt pool ds d p)
    (hassembled : assembleAll ds (.start pool) = .ok a) :
    ∃ a₀ uses₀ a₁, a₀.Records uses₀ ∧ a₀.bytes.size = p ∧ d.assemble a₀ = .ok ((), a₁) ∧
      ∀ uses₁, a₁.Records uses₁ → ∃ uses pieces entries, Extends a₁ uses₁ a uses pieces entries := by
  obtain ⟨before, after, a₀, rfl, hbefore, hsize⟩ := hplaced
  rw [assembleAll_append, hbefore] at hassembled
  change assembleAll (d :: after) a₀ = _ at hassembled
  rw [assembleAll_cons] at hassembled
  obtain ⟨⟨_, a₁⟩, hd, hafter⟩ := Assemble.of_except_bind_ok hassembled
  obtain ⟨uses₀, _, hgrown⟩ := assembleAll_grows (records_start pool) hbefore
  refine ⟨a₀, uses₀, a₁, hgrown.records, hsize, hd, fun uses₁ hrecords => ?_⟩
  obtain ⟨uses, pieces, hrest⟩ := assembleAll_grows hrecords hafter
  exact ⟨uses, pieces, _, hrest⟩

/-- The pieces of a line stand in the finished body from its address on. -/
theorem PlacedAt.lays {pieces : Nat → List Piece} (hplaced : PlacedAt pool ds d p)
    (hassembled : assembleAll ds (.start pool) = .ok a)
    (hd : ∀ a uses a', a.Records uses → d.assemble a = .ok ((), a') →
      ∃ uses', Extends a uses a' uses' (pieces a.bytes.size) []) :
    ∃ uses, a.Records uses ∧ a.Lays uses p (pieces p) ∧
      p + Piece.total (pieces p) ≤ a.bytes.size := by
  obtain ⟨a₀, uses₀, a₁, hrecords, rfl, hrun, hafter⟩ := hplaced.split hassembled
  obtain ⟨uses₁, hline⟩ := hd a₀ uses₀ a₁ hrecords hrun
  obtain ⟨uses, ps, entries, hrest⟩ := hafter uses₁ hline.records
  refine ⟨uses, hrest.records, hline.lays.mono hrest.used hrest.fixed, ?_⟩
  rw [hrest.size, hline.size]
  exact Nat.le_add_right _ _

/-- A label has the position of the line that marks it. -/
theorem PlacedAt.position {name : Text} (hplaced : PlacedAt pool ds (.label name) p)
    (hassembled : assembleAll ds (.start pool) = .ok a) :
    (a.label name).position = some p ∧ p ≤ a.bytes.size := by
  obtain ⟨a₀, uses₀, a₁, hrecords, rfl, hrun, hafter⟩ := hplaced.split hassembled
  obtain ⟨hline, hposition⟩ := mark_extends hrecords hrun
  obtain ⟨uses, ps, entries, hrest⟩ := hafter uses₀ hline.records
  refine ⟨hrest.marked name _ hposition, ?_⟩
  rw [hrest.size, hline.size]
  simp

end Placement

section Targets

variable {pool : Option Builder} {ds : List Directive} {a : Assembler} {p : Nat} {ctx : Context}
  {m : Machine} {code : Code} {stack rest : List Value} {target : Nat}

/-- Every label that a line of the body refers to is marked by a line of the body. -/
def AllMarked (ds : List Directive) : Prop :=
  ∀ d ∈ ds, ∀ name ∈ d.mentions, label name ∈ ds

/-- The address of a label in a body. -/
def addressOf (a : Assembler) (name : Text) : Nat :=
  ((a.label name).position).getD 0

theorem PlacedAt.mem {d : Directive} (h : PlacedAt pool ds d p) : d ∈ ds := by
  obtain ⟨before, after, _, rfl, _, _⟩ := h
  simp

theorem addressOf_eq {name : Text} (hassembled : assembleAll ds (.start pool) = .ok a)
    (hmarked : label name ∈ ds) : PlacedAt pool ds (.label name) (addressOf a name) ∧
      (a.label name).position = some (addressOf a name) ∧ addressOf a name ≤ a.bytes.size := by
  obtain ⟨p, hplaced⟩ := exists_placedAt hassembled hmarked
  obtain ⟨hposition, hle⟩ := hplaced.position hassembled
  have haddress : addressOf a name = p := by rw [addressOf, hposition, Option.getD_some]
  rw [haddress]
  exact ⟨hplaced, hposition, hle⟩

theorem PlacedAt.eq_addressOf {name : Text} (hassembled : assembleAll ds (.start pool) = .ok a)
    (h : PlacedAt pool ds (.label name) target) : addressOf a name = target := by
  rw [addressOf, (h.position hassembled).1, Option.getD_some]

/-- The target of a switch over the keys from `low` on. -/
def tableTarget (low : Int32) (dflt : Text) (targets : List Text) (key : Int32) : Text :=
  if key < low then dflt else (targets[(key.toInt - low.toInt).toNat]?).getD dflt

theorem toInt_high {low : Int32} {targets : List Text} (hne : targets ≠ [])
    (hhigh : low.toInt + targets.length - 1 ≤ 2147483647) :
    (low + Int32.ofNat targets.length - 1).toInt = low.toInt + targets.length - 1 := by
  have hpositive : 0 < targets.length := List.length_pos_iff.mpr hne
  have hlow := low.le_toInt
  have hlt := low.toInt_lt
  have hsize : Int32.size = 4294967296 := rfl
  rw [Int32.toInt_sub, Int32.toInt_add, Int32.toInt_ofNat']
  simp
  rw [Int.bmod_eq_of_le (by omega) (by omega)]

/-- The target of a switch over listed keys. -/
def lookupTarget (dflt : Text) (keys : List Int32) (targets : List Text) (key : Int32) : Text :=
  ((keys.zip targets).lookup key).getD dflt

/-- What an instruction that works on its frame alone does when it ends in a branch. -/
theorem moves_of_branch {f : Frame} {callers : List Frame} {op : Opcode} {x : FrameM Unit}
    {taken : Bool} {next : Nat} (hframes : m.frames = f :: callers) (hpc : f.pc = p)
    (hbyte : f.bytecode[p]? = some op.byte) (hop : Step.execute op = Step.inFrame x)
    (hx : x (Frame.readingAt { f with opPc := p } (p + 1)) =
      .ok ((), FrameM.afterBranch { f with opPc := p } rest taken (target - p) next)) :
    Moves ctx m rest (if taken then target else next) := by
  have hafter : FrameM.afterBranch { f with opPc := p } rest taken (target - p) next =
      { f with stack := rest, opPc := f.pc, pc := (if taken then target else next : Nat) } := by
    rw [FrameM.afterBranch, hpc]
    cases taken with
    | true =>
        congr 1
        change (p : Int) + (target - p) = target
        omega
    | false => rfl
  refine ⟨f, callers, hframes, ?_⟩
  rw [advance_inFrame hframes hpc hbyte hop hx, hafter]

theorem jump_moves {op : Opcode} {name : Text} {taken : Bool}
    (hassembled : assembleAll ds (.start pool) = .ok a) (hmarked : AllMarked ds)
    (hsize : a.bytes.size ≤ 65535) (hcode : code.bytecode = a.bytes)
    (hplaced : PlacedAt pool ds (.jump op name) p) (hm : m.IsAt code p stack)
    (hdecision : op.decision stack = some (taken, rest)) :
    Moves ctx m rest
      (if taken then addressOf a name else p + 1 + operandSize op.hasWideOffset) := by
  obtain ⟨f, callers, hframes, hmethod, hpc, rfl⟩ := hm
  have hbytes : f.bytecode = a.bytes := by rw [Frame.bytecode, hmethod, ← hcode]
  have hname := hmarked _ hplaced.mem name (by simp [mentions])
  obtain ⟨_, hposition, hle⟩ := addressOf_eq hassembled hname
  obtain ⟨uses, hrecords, hlays, hend⟩ :=
    hplaced.lays hassembled fun a uses a' h hrun => jump_extends h hrun
  have hleads := hrecords.leads name _ _ hlays.2.1 hposition
  have hop : f.bytecode[p]? = some op.byte := by rw [hbytes, hlays.1.byte]
  have hstands : Stands f.bytecode (p + 1) (operand op.hasWideOffset (addressOf a name - p)) := by
    rw [hbytes]
    exact hleads.stands
  have hstart : p ≤ a.bytes.size := Nat.le_trans (Nat.le_add_right p _) hend
  obtain ⟨x, hx, hrun⟩ := FrameM.branch_run (f := { f with opPc := p }) (p := p + 1) hdecision
    hstands (by omega) (by omega) hleads.fits
  exact moves_of_branch hframes hpc hop hx hrun

/-- The pieces of a line stand in the body with the addresses of the labels they refer to, and all of
these lie within reach. -/
theorem PlacedAt.stands {d : Directive} {pieces : Nat → List Piece} (hplaced : PlacedAt pool ds d p)
    (hassembled : assembleAll ds (.start pool) = .ok a) (hmarked : AllMarked ds)
    (hsize : a.bytes.size ≤ 65535)
    (hd : ∀ a uses a', a.Records uses → d.assemble a = .ok ((), a') →
      ∃ uses', Extends a uses a' uses' (pieces a.bytes.size) [])
    (huses : ∀ name base wide, .use name base wide ∈ pieces p → name ∈ d.mentions) :
    Stands a.bytes p ((pieces p).flatMap (Piece.encode (addressOf a))) ∧
      Piece.total (pieces p) ≤ 65535 ∧
      ∀ name ∈ d.mentions, -65535 ≤ (addressOf a name - p : Int) ∧
        (addressOf a name - p : Int) ≤ 65535 := by
  have hname : ∀ name ∈ d.mentions, (a.label name).position = some (addressOf a name) ∧
      addressOf a name ≤ a.bytes.size :=
    fun name hmem => (addressOf_eq hassembled (hmarked _ hplaced.mem name hmem)).2
  obtain ⟨uses, hrecords, hlays, hend⟩ := hplaced.lays hassembled hd
  refine ⟨hlays.stands (addressOf a) hrecords fun name base wide hmem =>
    (hname name (huses name base wide hmem)).1, by omega, fun name hmem => ?_⟩
  have hle := (hname name hmem).2
  omega

theorem encode_bytes (position : Text → Nat) (bs : List UInt8) :
    (bs.map Piece.byte).flatMap (Piece.encode position) = bs := by
  induction bs with
  | nil => rfl
  | cons b bs ih => rw [List.map_cons, List.flatMap_cons, ih]; rfl

/-- The head of a switch: its opcode, and its default at the next multiple of four. -/
theorem stands_switchHead {bytes : Array UInt8} {position : Text → Nat} {op : Opcode} {dflt : Text}
    {tail : List Piece}
    (h : Stands bytes p ((switchHead op p dflt ++ tail).flatMap (Piece.encode position))) :
    bytes[p]? = some op.byte ∧ Stands bytes (Bytecode.align (p + 1))
      (operand true (position dflt - p) ++ tail.flatMap (Piece.encode position)) := by
  have hpad : p + (op.byte :: List.replicate (Bytecode.align (p + 1) - (p + 1)) 0).length =
      Bytecode.align (p + 1) := by
    rw [List.length_cons, List.length_replicate]
    unfold Bytecode.align
    omega
  rw [switchHead, List.append_assoc, List.flatMap_append, encode_bytes, stands_append, hpad,
    List.flatMap_append] at h
  refine ⟨(stands_cons.mp h.1).1, ?_⟩
  simpa [Piece.encode] using h.2

theorem uses_tablePieces {low : Int32} {name dflt : Text} {targets : List Text} {base q : Nat}
    {wide : Bool} (h : .use name q wide ∈ tablePieces low dflt targets base) :
    name ∈ dflt :: targets := by
  simp only [tablePieces, switchHead, List.mem_append, List.mem_map, List.mem_flatMap,
    List.mem_singleton, reduceCtorEq, and_false, exists_false, false_or, or_false,
    Piece.use.injEq] at h
  rcases h with ⟨rfl, _⟩ | ⟨t, ht, rfl, _⟩
  · exact List.mem_cons_self
  · exact List.mem_cons_of_mem _ ht

theorem uses_lookupPieces {name dflt : Text} {keys : List Int32} {targets : List Text} {base q : Nat}
    {wide : Bool} (h : .use name q wide ∈ lookupPieces dflt (keys.zip targets) base) :
    name ∈ dflt :: targets := by
  simp only [lookupPieces, switchHead, List.mem_append, List.mem_map, List.mem_flatMap,
    List.mem_singleton, reduceCtorEq, and_false, exists_false, false_or, or_false,
    Piece.use.injEq] at h
  rcases h with ⟨rfl, _⟩ | ⟨pair, hpair, rfl, _⟩
  · exact List.mem_cons_self
  · exact List.mem_cons_of_mem _ (List.of_mem_zip hpair).2

theorem total_flatMap {α : Type} {pieces : α → List Piece} {n : Nat}
    (h : ∀ x, Piece.total (pieces x) = n) (xs : List α) :
    Piece.total (xs.flatMap pieces) = n * xs.length := by
  induction xs with
  | nil => rfl
  | cons x xs ih =>
      rw [List.flatMap_cons, Piece.total_append, h, ih, List.length_cons, Nat.mul_succ, Nat.add_comm]

theorem length_le_tablePieces (low : Int32) (dflt : Text) (targets : List Text) (base : Nat) :
    4 * targets.length ≤ Piece.total (tablePieces low dflt targets base) := by
  have htargets := total_flatMap (n := 4) (fun t => (rfl : Piece.total [.use t base true] = 4)) targets
  rw [tablePieces, Piece.total_append, htargets]
  exact Nat.le_add_left _ _

theorem length_le_lookupPieces (dflt : Text) (pairs : List (Int32 × Text)) (base : Nat) :
    8 * pairs.length ≤ Piece.total (lookupPieces dflt pairs base) := by
  have hpairs := total_flatMap (n := 8) (fun pair : Int32 × Text => (rfl : Piece.total
    ((fourBytes pair.1.toUInt32).map .byte ++ [.use pair.2 base true]) = 8)) pairs
  rw [lookupPieces, Piece.total_append, hpairs]
  exact Nat.le_add_left _ _

theorem tableOffset_map {position : Text → Nat} {low key : Int32} {dflt : Text}
    {targets : List Text} : FrameM.tableOffset low (position dflt - p)
      (targets.map fun t => (position t - p : Int)) key =
      position (tableTarget low dflt targets key) - p := by
  rw [FrameM.tableOffset, tableTarget]
  split
  · rfl
  · rw [List.getElem?_map]
    cases targets[(key.toInt - low.toInt).toNat]? <;> rfl

theorem lookup_map {position : Text → Nat} {key : Int32} {dflt : Text}
    {pairs : List (Int32 × Text)} :
    ((pairs.map fun pair => (pair.1, (position pair.2 - p : Int))).lookup key).getD
      (position dflt - p) = position ((pairs.lookup key).getD dflt) - p := by
  induction pairs with
  | nil => rfl
  | cons pair pairs ih =>
      rw [List.map_cons, List.lookup_cons, List.lookup_cons]
      cases key == pair.1 with
      | true => rfl
      | false => exact ih

theorem tableswitch_moves {low key : Int32} {dflt : Text} {targets : List Text}
    (hassembled : assembleAll ds (.start pool) = .ok a) (hmarked : AllMarked ds)
    (hsize : a.bytes.size ≤ 65535) (hcode : code.bytecode = a.bytes)
    (hplaced : PlacedAt pool ds (.tableswitch low dflt targets) p)
    (hne : targets ≠ []) (hhigh : low.toInt + targets.length - 1 ≤ 2147483647)
    (hm : m.IsAt code p (.int key :: rest)) :
    Moves ctx m rest (addressOf a (tableTarget low dflt targets key)) := by
  obtain ⟨f, callers, hframes, hmethod, hpc, hstack⟩ := hm
  have hbytes : f.bytecode = a.bytes := by rw [Frame.bytecode, hmethod, ← hcode]
  obtain ⟨hstands, htotal, hoffset⟩ := hplaced.stands hassembled hmarked hsize
    (fun a uses a' h hrun => tableswitch_extends h hrun) fun name base wide => uses_tablePieces
  rw [tablePieces, List.append_assoc, List.append_assoc, ← hbytes] at hstands
  obtain ⟨hop, htail⟩ := stands_switchHead hstands
  have htargets : (targets.flatMap fun t => [Piece.use t p true]).flatMap
      (Piece.encode (addressOf a)) =
      (targets.map fun t => (addressOf a t - p : Int)).flatMap (operand true) := by
    rw [List.flatMap_assoc, List.flatMap_map]
    simp [Piece.encode]
  rw [List.flatMap_append, List.flatMap_append, encode_bytes, encode_bytes, htargets] at htail
  have hlength := length_le_tablePieces low dflt targets p
  have hrun := FrameM.tableswitch_run (f := { f with opPc := p }) (p := p + 1) hstack
    (by simpa using hne) (by rw [List.length_map]; exact toInt_high hne hhigh)
    (by rw [List.length_map]; omega) (by simpa [mentions] using hoffset) htail
  rw [tableOffset_map] at hrun
  exact moves_of_branch hframes hpc hop rfl hrun

theorem lookupswitch_moves {key : Int32} {dflt : Text} {keys : List Int32} {targets : List Text}
    (hassembled : assembleAll ds (.start pool) = .ok a) (hmarked : AllMarked ds)
    (hsize : a.bytes.size ≤ 65535) (hcode : code.bytecode = a.bytes)
    (hplaced : PlacedAt pool ds (.lookupswitch dflt keys targets) p)
    (hm : m.IsAt code p (.int key :: rest)) :
    Moves ctx m rest (addressOf a (lookupTarget dflt keys targets key)) := by
  obtain ⟨f, callers, hframes, hmethod, hpc, hstack⟩ := hm
  have hbytes : f.bytecode = a.bytes := by rw [Frame.bytecode, hmethod, ← hcode]
  obtain ⟨hstands, htotal, hoffset⟩ := hplaced.stands hassembled hmarked hsize
    (fun a uses a' h hrun => lookupswitch_extends h hrun) fun name base wide => uses_lookupPieces
  rw [lookupPieces, List.append_assoc, ← hbytes] at hstands
  obtain ⟨hop, htail⟩ := stands_switchHead hstands
  have hpairs : ((keys.zip targets).flatMap fun pair =>
      (fourBytes pair.1.toUInt32).map .byte ++ [.use pair.2 p true]).flatMap
      (Piece.encode (addressOf a)) =
      ((keys.zip targets).map fun pair => (pair.1, (addressOf a pair.2 - p : Int))).flatMap
        fun pair => fourBytes pair.1.toUInt32 ++ operand true pair.2 := by
    rw [List.flatMap_assoc, List.flatMap_map]
    simp [Piece.encode, encode_bytes]
  rw [List.flatMap_append, encode_bytes, hpairs] at htail
  have hlength := length_le_lookupPieces dflt (keys.zip targets) p
  have hbounds : ∀ pair ∈ (keys.zip targets).map fun pair => (pair.1, (addressOf a pair.2 - p : Int)),
      -65535 ≤ pair.2 ∧ pair.2 ≤ 65535 := by
    intro pair hmem
    obtain ⟨entry, hentry, rfl⟩ := List.mem_map.mp hmem
    exact hoffset entry.2 (List.mem_cons_of_mem _ (List.of_mem_zip hentry).2)
  have hrun := FrameM.lookupswitch_run (f := { f with opPc := p }) (p := p + 1) hstack
    (by rw [List.length_map]; omega) (hoffset dflt List.mem_cons_self) hbounds
    (by rw [List.length_map]; exact htail)
  rw [lookup_map] at hrun
  exact moves_of_branch hframes hpc hop rfl hrun

theorem mapM_forall₂ {α β ε : Type} {f : α → Except ε β} {R : α → β → Prop} {xs : List α}
    {ys : List β} (hR : ∀ x ∈ xs, ∀ y, f x = .ok y → R x y) (h : xs.mapM f = .ok ys) :
    List.Forall₂ R xs ys := by
  induction xs generalizing ys with
  | nil =>
      obtain rfl := Except.ok.inj h
      exact .nil
  | cons x xs ih =>
      rw [List.mapM_cons] at h
      obtain ⟨y, hx, h⟩ := Assemble.of_except_bind_ok h
      obtain ⟨zs, hxs, h⟩ := Assemble.of_except_bind_ok h
      obtain rfl := Except.ok.inj h
      obtain ⟨hhead, htail⟩ := List.forall_mem_cons.mp hR
      exact .cons (hhead y hx) (ih htail hxs)

/-- An entry of the exception table that has the addresses of its labels. -/
structure Resolves (pool : Option Builder) (ds : List Directive) (entry : PendingHandler)
    (handler : Handler) : Prop where
  start : PlacedAt pool ds (.label entry.start) handler.start.toNat
  stop : PlacedAt pool ds (.label entry.stop) handler.stop.toNat
  target : PlacedAt pool ds (.label entry.target) handler.target.toNat
  catchType : handler.catchType = entry.catchType

theorem resolves_of_ok {entry : PendingHandler} {handler : Handler}
    (hassembled : assembleAll ds (.start pool) = .ok a) (hmarked : AllMarked ds)
    (hsize : a.bytes.size ≤ 65535) (hentry : .handler entry ∈ ds)
    (h : a.resolveHandler entry = .ok handler) : Resolves pool ds entry handler := by
  have hname : ∀ name ∈ [entry.start, entry.stop, entry.target], ∃ p,
      PlacedAt pool ds (.label name) p.toUInt16.toNat ∧ (a.label name).position = some p := by
    intro name hmem
    obtain ⟨hplaced, hposition, hle⟩ := addressOf_eq hassembled (hmarked _ hentry name hmem)
    refine ⟨addressOf a name, ?_, hposition⟩
    rwa [UInt16.toNat_ofNat_of_lt' (Nat.lt_succ_of_le (Nat.le_trans hle hsize))]
  obtain ⟨s, hs, hstart⟩ := hname entry.start (by simp)
  obtain ⟨e, he, hstop⟩ := hname entry.stop (by simp)
  obtain ⟨t, ht, htarget⟩ := hname entry.target (by simp)
  rw [resolveHandler, hstart, hstop, htarget] at h
  obtain rfl := Except.ok.inj h
  exact ⟨hs, he, ht, rfl⟩

/-- The entries of the exception table are those of the body, in its order. -/
theorem handlers_resolved {maxStack maxLocals : UInt16}
    (hassembled : assembleAll ds (.start pool) = .ok a) (hmarked : AllMarked ds)
    (hsize : a.bytes.size ≤ 65535) (hfinished : a.finish maxStack maxLocals = .ok code) :
    List.Forall₂ (Resolves pool ds) (ds.flatMap entries) code.handlers := by
  obtain ⟨uses, pieces, hgrown⟩ := assembleAll_grows (records_start pool) hassembled
  have hhandlers : a.handlers = ds.flatMap entries := hgrown.handlers
  obtain ⟨handlers, hresolved, h⟩ := Assemble.of_except_bind_ok hfinished
  obtain rfl := Except.ok.inj h
  rw [hhandlers] at hresolved
  refine mapM_forall₂ (fun entry hentry handler => ?_) hresolved
  refine resolves_of_ok hassembled hmarked hsize ?_
  obtain ⟨d, hd, hmem⟩ := List.mem_flatMap.mp hentry
  cases d with
  | handler h =>
      obtain rfl := List.mem_singleton.mp hmem
      exact hd
  | _ => exact absurd hmem List.not_mem_nil

end Targets

end Directive

open Directive

/-- The branches and switches of an assembled body go where its lines say. In a body of at most 65535
bytes, all of whose labels are marked, and whose tables are not empty and end within the range of an
int, every label has one address; a branch that is taken goes to the address of its label, and one
that is not goes on behind it; a switch goes to the address of the label it has for the key; and the
exception table has the addresses of the labels of its entries. -/
theorem assembled_code_goes_to_labels {pool : Option Builder} {ds : List Directive} {a : Assembler}
    {code : Code} {maxStack maxLocals : UInt16}
    (hassembled : assembleAll ds (.start pool) = .ok a)
    (hfinished : a.finish maxStack maxLocals = .ok code) (hmarked : AllMarked ds)
    (hsize : code.bytecode.size ≤ 65535)
    (htables : ∀ (low : Int32) (dflt : Text) (targets : List Text),
      .tableswitch low dflt targets ∈ ds → targets ≠ [] ∧ low.toInt + targets.length - 1 ≤ 2147483647) :
    (∀ d ∈ ds, ∀ name ∈ d.mentions, ∃! p, PlacedAt pool ds (.label name) p) ∧
    (∀ op name p target ctx m stack taken rest, PlacedAt pool ds (.jump op name) p →
      PlacedAt pool ds (.label name) target → Machine.IsAt m code p stack →
      op.decision stack = some (taken, rest) →
      Moves ctx m rest (if taken then target else p + 1 + operandSize op.hasWideOffset)) ∧
    (∀ low dflt targets p target ctx m key rest,
      PlacedAt pool ds (.tableswitch low dflt targets) p →
      PlacedAt pool ds (.label (tableTarget low dflt targets key)) target →
      Machine.IsAt m code p (.int key :: rest) → Moves ctx m rest target) ∧
    (∀ dflt keys targets p target ctx m key rest,
      PlacedAt pool ds (.lookupswitch dflt keys targets) p →
      PlacedAt pool ds (.label (lookupTarget dflt keys targets key)) target →
      Machine.IsAt m code p (.int key :: rest) → Moves ctx m rest target) ∧
    List.Forall₂ (Resolves pool ds) (ds.flatMap entries) code.handlers := by
  have hcode : code.bytecode = a.bytes := by
    obtain ⟨handlers, _, h⟩ := Assemble.of_except_bind_ok hfinished
    obtain rfl := Except.ok.inj h
    rfl
  rw [hcode] at hsize
  refine ⟨?_, ?_, ?_, ?_, handlers_resolved hassembled hmarked hsize hfinished⟩
  · intro d hd name hname
    refine ⟨addressOf a name, (addressOf_eq hassembled (hmarked d hd name hname)).1, ?_⟩
    intro p hp
    exact (hp.eq_addressOf hassembled).symm
  · intro op name p target ctx m stack taken rest hplaced htarget hm hdecision
    obtain rfl := htarget.eq_addressOf hassembled
    exact jump_moves hassembled hmarked hsize hcode hplaced hm hdecision
  · intro low dflt targets p target ctx m key rest hplaced htarget hm
    obtain ⟨hne, hhigh⟩ := htables low dflt targets hplaced.mem
    obtain rfl := htarget.eq_addressOf hassembled
    exact tableswitch_moves hassembled hmarked hsize hcode hplaced hne hhigh hm
  · intro dflt keys targets p target ctx m key rest hplaced htarget hm
    obtain rfl := htarget.eq_addressOf hassembled
    exact lookupswitch_moves hassembled hmarked hsize hcode hplaced hm

/-- A loop that a switch leaves: the targets lie before and behind the switch. -/
def countdown : List Directive :=
  [.label "again", .iinc 0 (-1), .load .iload 0,
    .tableswitch 0 "again" ["done", "failed"], .label "done", .plain .returnVoid,
    .label "failed", .handler ⟨"again", "done", "failed", []⟩, .jump .goto "done"]

def countdownCode : Code where
  maxStack := 1
  maxLocals := 1
  bytecode := #[0x84, 0, 0xFF, 0x1A, 0xAA, 0, 0, 0, 0xFF, 0xFF, 0xFF, 0xFC, 0, 0, 0, 0, 0, 0, 0, 1,
    0, 0, 0, 24, 0, 0, 0, 25, 0xB1, 0xA7, 0xFF, 0xFF]
  handlers := [⟨0, 28, 29, []⟩]
  lines := []

/-- An engine that is about to execute the switch. -/
def countingDown (key : Int32) : Machine :=
  { Session.fresh with
    frames := [{ Frame.enter { rethrower with code := some countdownCode } #[.int key] [] with
      stack := [.int key], pc := 4 }] }

theorem assembled_code_goes_to_labels_countdown :
    Moves (Session.context ⟨none, 0, 0⟩ 9 9) (countingDown 1) [] 29 ∧
      Moves (Session.context ⟨none, 0, 0⟩ 9 9) (countingDown 2) [] 0 := by
  obtain ⟨a, hassembled, hfinished⟩ : ∃ a, assembleAll countdown (.start none) = .ok a ∧
      a.finish 1 1 = .ok countdownCode := ⟨_, rfl, rfl⟩
  have hmarked : AllMarked countdown := by
    simp [AllMarked, countdown, mentions]
  have htables : ∀ (low : Int32) (dflt : Text) (targets : List Text),
      .tableswitch low dflt targets ∈ countdown →
      targets ≠ [] ∧ low.toInt + targets.length - 1 ≤ 2147483647 := by
    simp only [countdown, List.mem_cons, Directive.tableswitch.injEq, reduceCtorEq, false_or,
      List.not_mem_nil, or_false]
    rintro _ _ _ ⟨rfl, rfl, rfl⟩
    decide
  have hmoves := (assembled_code_goes_to_labels hassembled hfinished hmarked (by decide) htables).2.2.1
    0 "again" ["done", "failed"] 4
  have hplaced : PlacedAt none countdown (.tableswitch 0 "again" ["done", "failed"]) 4 :=
    ⟨countdown.take 3, countdown.drop 4, _, rfl, rfl, rfl⟩
  have hfailed : PlacedAt none countdown (.label "failed") 29 :=
    ⟨countdown.take 6, countdown.drop 7, _, rfl, rfl, rfl⟩
  have hagain : PlacedAt none countdown (.label "again") 0 :=
    ⟨[], countdown.drop 1, _, rfl, rfl, rfl⟩
  exact ⟨hmoves 29 _ _ 1 [] hplaced hfailed ⟨_, _, rfl, rfl, rfl, rfl⟩,
    hmoves 0 _ _ 2 [] hplaced hagain ⟨_, _, rfl, rfl, rfl, rfl⟩⟩

end ClassEngine
