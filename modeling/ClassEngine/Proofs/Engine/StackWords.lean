import ClassEngine.Proofs.Assembly.Branches

/-!
The stack instructions against the words of the machine that they are described for. There a long or
double is two words, and each of these instructions moves words whatever values they belong to; the
engine keeps one entry for every value and picks a form by the sizes that it meets. The two agree
wherever no long or double is split.

Main result: `stack_instructions_move_words`.
-/

namespace ClassEngine

open Machine Exec Interpreter

/-- A word of an operand stack. -/
inductive Word where
  /-- A value of one word. -/
  | whole (v : Value)
  /-- The upper half of a long or double. -/
  | upper (v : Value)
  /-- The lower half of a long or double. -/
  | lower (v : Value)
  deriving DecidableEq

/-- The words of a value, top first. -/
def Value.words (v : Value) : List Word :=
  if v.isWide then [.upper v, .lower v] else [.whole v]

/-- An operand stack as words, top first. -/
def words (stack : List Value) : List Word :=
  stack.flatMap Value.words

@[simp] theorem words_nil : words [] = [] := rfl

@[simp] theorem words_append (vs ws : List Value) : words (vs ++ ws) = words vs ++ words ws :=
  List.flatMap_append

theorem words_cons (v : Value) (vs : List Value) : words (v :: vs) = v.words ++ words vs :=
  List.flatMap_cons

theorem Value.words_narrow {v : Value} (hv : v.isWide = false) : v.words = [.whole v] := by
  simp [words, hv]

theorem Value.words_wide {v : Value} (hv : v.isWide = true) : v.words = [.upper v, .lower v] := by
  simp [words, hv]

/-- Values without words are none. -/
theorem values_of_zero {vs : List Value} (h : (words vs).length = 0) : vs = [] := by
  cases vs with
  | nil => rfl
  | cons v vs =>
      rw [words_cons] at h
      cases hv : v.isWide <;> simp [Value.words, hv] at h

/-- One word is one value of one word. -/
theorem values_of_one {vs : List Value} (h : (words vs).length = 1) :
    ∃ v, vs = [v] ∧ v.isWide = false := by
  cases vs with
  | nil => simp at h
  | cons v vs =>
      rw [words_cons, List.length_append] at h
      cases hv : v.isWide with
      | true =>
          rw [Value.words_wide hv, List.length_cons, List.length_singleton] at h
          omega
      | false =>
          rw [Value.words_narrow hv] at h
          have hvs : vs = [] := values_of_zero (by simpa using h)
          exact ⟨v, by rw [hvs], hv⟩

/-- Two words are a long or double, or two values of one word. -/
theorem values_of_two {vs : List Value} (h : (words vs).length = 2) :
    (∃ v, vs = [v] ∧ v.isWide = true) ∨
      ∃ v w, vs = [v, w] ∧ v.isWide = false ∧ w.isWide = false := by
  cases vs with
  | nil => simp at h
  | cons v vs =>
      rw [words_cons, List.length_append] at h
      cases hv : v.isWide with
      | true =>
          rw [Value.words_wide hv] at h
          have hvs : vs = [] := values_of_zero (by simpa using h)
          exact .inl ⟨v, by rw [hvs], hv⟩
      | false =>
          rw [Value.words_narrow hv, List.length_singleton] at h
          have hone : (words vs).length = 1 := by omega
          obtain ⟨w, hvs, hw⟩ := values_of_one hone
          exact .inr ⟨v, w, by rw [hvs], hv, hw⟩

namespace FrameM

namespace StackOp

/-- What a stack instruction does to words, top first; `none` where there are too few of them. -/
def onWords {α : Type} : StackOp → List α → Option (List α)
  | .pop, _ :: rest => some rest
  | .pop2, _ :: _ :: rest => some rest
  | .dup, a :: rest => some (a :: a :: rest)
  | .dupX1, a :: b :: rest => some (a :: b :: a :: rest)
  | .dupX2, a :: b :: c :: rest => some (a :: b :: c :: a :: rest)
  | .dup2, a :: b :: rest => some (a :: b :: a :: b :: rest)
  | .dup2X1, a :: b :: c :: rest => some (a :: b :: c :: a :: b :: rest)
  | .dup2X2, a :: b :: c :: d :: rest => some (a :: b :: c :: d :: a :: b :: rest)
  | .swap, a :: b :: rest => some (b :: a :: rest)
  | _, _ => none

/-- How many words an instruction takes from the top, and how many under them it gets past. -/
def span : StackOp → Nat × Nat
  | .pop | .dup => (1, 0)
  | .pop2 | .dup2 => (2, 0)
  | .dupX1 | .swap => (1, 1)
  | .dupX2 => (1, 2)
  | .dup2X1 => (2, 1)
  | .dup2X2 => (2, 2)

/-- What an instruction makes of what it takes from the top and what is under it. -/
def rearrange {α : Type} (top under : List α) : StackOp → List α
  | .pop | .pop2 => under
  | .swap => under ++ top
  | _ => top ++ (under ++ top)

/-- The byte of a stack instruction. -/
def opcode : StackOp → Opcode
  | .pop => .pop
  | .pop2 => .pop2
  | .dup => .dup
  | .dupX1 => .dupX1
  | .dupX2 => .dupX2
  | .dup2 => .dup2
  | .dup2X1 => .dup2X1
  | .dup2X2 => .dup2X2
  | .swap => .swap

theorem execute_opcode (op : StackOp) : Step.execute op.opcode = Step.inFrame (stackOp op) := by
  cases op <;> rfl

/-- A stack that the instruction is permitted on: what it takes from the top and what it gets past
are whole values. -/
structure Permitted (op : StackOp) (stack top under rest : List Value) : Prop where
  divides : stack = top ++ (under ++ rest)
  taken : (words top).length = op.span.1
  passed : (words under).length = op.span.2

theorem words_rearrange (op : StackOp) (top under : List Value) :
    words (op.rearrange top under) = op.rearrange (words top) (words under) := by
  cases op <;> simp [rearrange]

/-- The instruction treats as many words as it spans like blocks. -/
theorem onWords_blocks {α : Type} (op : StackOp) {top under : List α} (rest : List α)
    (htop : top.length = op.span.1) (hunder : under.length = op.span.2) :
    op.onWords (top ++ (under ++ rest)) = some (op.rearrange top under ++ rest) := by
  cases op with
  | pop | dup =>
      obtain ⟨a, rfl⟩ := List.length_eq_one_iff.mp htop
      obtain rfl := List.length_eq_zero_iff.mp hunder
      rfl
  | pop2 | dup2 =>
      obtain ⟨a, b, rfl⟩ := List.length_eq_two.mp htop
      obtain rfl := List.length_eq_zero_iff.mp hunder
      rfl
  | dupX1 | swap =>
      obtain ⟨a, rfl⟩ := List.length_eq_one_iff.mp htop
      obtain ⟨b, rfl⟩ := List.length_eq_one_iff.mp hunder
      rfl
  | dupX2 =>
      obtain ⟨a, rfl⟩ := List.length_eq_one_iff.mp htop
      obtain ⟨b, c, rfl⟩ := List.length_eq_two.mp hunder
      rfl
  | dup2X1 =>
      obtain ⟨a, b, rfl⟩ := List.length_eq_two.mp htop
      obtain ⟨c, rfl⟩ := List.length_eq_one_iff.mp hunder
      rfl
  | dup2X2 =>
      obtain ⟨a, b, rfl⟩ := List.length_eq_two.mp htop
      obtain ⟨c, d, rfl⟩ := List.length_eq_two.mp hunder
      rfl

end StackOp

section Forms

variable {f : Frame} {v : Value} {rest : List Value}

theorem peek_cons (hstack : f.stack = v :: rest) : peek f = .ok (v, f) := by
  rw [peek, hstack]

/-- On a permitted stack the engine picks the form that keeps the blocks together. -/
theorem stackOp_blocks {op : StackOp} {top under : List Value}
    (h : op.Permitted f.stack top under rest) :
    stackOp op f = .ok ((), { f with stack := op.rearrange top under ++ rest }) := by
  obtain ⟨hstack, htop, hunder⟩ := h
  cases op with
  | pop =>
      obtain ⟨a, rfl, ha⟩ := values_of_one htop
      obtain rfl := values_of_zero hunder
      rw [stackOp, bind_ok (pop_cons hstack)]
      rfl
  | pop2 =>
      obtain rfl := values_of_zero hunder
      obtain ⟨a, rfl, ha⟩ | ⟨a, b, rfl, ha, hb⟩ := values_of_two htop
      all_goals
        rw [stackOp, bind_ok (pop_cons hstack), ha]
        rfl
  | dup =>
      obtain ⟨a, rfl, ha⟩ := values_of_one htop
      obtain rfl := values_of_zero hunder
      rw [stackOp, bind_ok (peek_cons hstack)]
      simp only [StackOp.rearrange, List.nil_append, List.cons_append]
      rw [← show f.stack = a :: rest from hstack]
      rfl
  | dupX1 | swap =>
      obtain ⟨a, rfl, ha⟩ := values_of_one htop
      obtain ⟨b, rfl, hb⟩ := values_of_one hunder
      rw [stackOp, bind_ok (pop_cons hstack)]
      rfl
  | dupX2 =>
      obtain ⟨a, rfl, ha⟩ := values_of_one htop
      obtain ⟨b, rfl, hb⟩ | ⟨b, c, rfl, hb, hc⟩ := values_of_two hunder
      all_goals
        rw [stackOp, bind_ok (pop_cons hstack), bind_ok (pop_cons rfl), hb]
        rfl
  | dup2 =>
      obtain rfl := values_of_zero hunder
      obtain ⟨a, rfl, ha⟩ | ⟨a, b, rfl, ha, hb⟩ := values_of_two htop
      all_goals
        rw [stackOp, bind_ok (pop_cons hstack), ha]
        rfl
  | dup2X1 =>
      obtain ⟨c, rfl, hc⟩ := values_of_one hunder
      obtain ⟨a, rfl, ha⟩ | ⟨a, b, rfl, ha, hb⟩ := values_of_two htop
      all_goals
        rw [stackOp, bind_ok (pop_cons hstack), bind_ok (pop_cons rfl), ha]
        rfl
  | dup2X2 =>
      obtain ⟨a, rfl, ha⟩ | ⟨a, b, rfl, ha, hb⟩ := values_of_two htop
      · obtain ⟨c, rfl, hc⟩ | ⟨c, d, rfl, hc, hd⟩ := values_of_two hunder
        all_goals
          rw [stackOp, bind_ok (pop_cons hstack), bind_ok (pop_cons rfl), ha]
          dsimp only
          rw [if_pos rfl, hc]
          rfl
      · obtain ⟨c, rfl, hc⟩ | ⟨c, d, rfl, hc, hd⟩ := values_of_two hunder
        all_goals
          rw [stackOp, bind_ok (pop_cons hstack), bind_ok (pop_cons rfl), ha]
          dsimp only
          rw [if_neg (by decide), bind_ok (pop_cons rfl), hc]
          rfl

end Forms

end FrameM

open FrameM

/-- A stack instruction does to the words of a stack that it is permitted on what it is described to
do, in one step that leaves the values under those that it takes or gets past, and all else, as it
is. -/
theorem stack_instructions_move_words {op : StackOp} (ctx : Context) {m : Machine} {f : Frame}
    {callers : List Frame} {p : Nat} {top under rest : List Value} (hframes : m.frames = f :: callers)
    (hpc : f.pc = p) (hbyte : f.bytecode[p]? = some op.opcode.byte)
    (hpermitted : op.Permitted f.stack top under rest) :
    ∃ vs, op.onWords (words f.stack) = some (words (vs ++ rest)) ∧
      stackOp op f = .ok ((), { f with stack := vs ++ rest }) ∧
      advance ctx m = .ok .next { m.note (.executing f.method.owner) with
        frames := { f with stack := vs ++ rest, opPc := p, pc := p + 1 } :: callers } := by
  refine ⟨op.rearrange top under, ?_, stackOp_blocks hpermitted, ?_⟩
  · rw [hpermitted.divides, words_append, words_append, words_append, StackOp.words_rearrange]
    exact op.onWords_blocks _ hpermitted.taken hpermitted.passed
  · exact advance_inFrame hframes hpc hbyte op.execute_opcode (stackOp_blocks hpermitted)

/-- An activation that is about to copy two ints under a long. -/
def copyingUnder : Frame :=
  { Frame.enter { rethrower with code := some ⟨8, 0, #[0x5E], [], []⟩ } #[] [] with
    stack := [.int 2, .int 1, .long 7, .null] }

theorem stack_instructions_move_words_mixed :
    words [.int 2, .int 1, .long 7, .null] =
        [.whole (.int 2), .whole (.int 1), .upper (.long 7), .lower (.long 7), .whole .null] ∧
      ∃ vs, words (vs ++ [.null]) =
          [.whole (.int 2), .whole (.int 1), .upper (.long 7), .lower (.long 7), .whole (.int 2),
            .whole (.int 1), .whole .null] ∧
        stackOp .dup2X2 copyingUnder = .ok ((), { copyingUnder with stack := vs ++ [.null] }) := by
  have hpermitted : StackOp.dup2X2.Permitted copyingUnder.stack [.int 2, .int 1] [.long 7] [.null] :=
    ⟨rfl, rfl, rfl⟩
  obtain ⟨vs, hwords, hvalues, _⟩ := stack_instructions_move_words
    (Session.context ⟨none, 0, 0⟩ 9 9) (m := { Session.fresh with frames := [copyingUnder] }) (p := 0)
    rfl rfl rfl hpermitted
  exact ⟨rfl, vs, (Option.some.inj hwords).symm, hvalues⟩

end ClassEngine
