import ClassEngine.Engine.Interpreter
import ClassEngine.Proofs.Descriptor.Grammar

/-!
The local variables with which a method starts. The receiver comes first, then the arguments, each cut
down to its type and a long or double twice, and nulls up to what the method asks for; so an argument
stands where the types of those before it say. Main result: `layoutLocals_lays`.
-/

namespace ClassEngine

open Interpreter

/-- Where the argument at a position starts among the local variables of the arguments, by their types:
after one for each argument before it, and one more for each long or double. -/
def Descriptor.slotOf (ts : List Descriptor) (i : Nat) : Nat :=
  i + (ts.take i).countP Descriptor.isWide

namespace Method

/-- How many objects a method is called on: one, unless it is static. -/
def receivers (m : Method) : Nat :=
  if m.isStatic then 0 else 1

/-- Where an argument starts among the local variables of a method. -/
def slot (m : Method) (i : Nat) : Nat :=
  m.receivers + Descriptor.slotOf m.signature.arguments i

/-- A local variable that a call gives a value: the one of the receiver, the one at which an argument
starts, or the one after it if the argument is a long or double. -/
def Fills (m : Method) (j : Nat) : Prop :=
  j < m.receivers ∨ ∃ i T, m.signature.arguments[i]? = some T ∧
    (j = m.slot i ∨ Descriptor.isWide T = true ∧ j = m.slot i + 1)

/-- The local variables with which a call of a method starts on a receiver, if it has one, and
arguments. -/
structure LaysOut (m : Method) (args : List Value) (locals : Array Value) : Prop where
  count : args.length = m.receivers + m.signature.arguments.length
  size : locals.size = max (m.code.elim 0 fun c => c.maxLocals.toNat)
    (m.receivers + m.signature.argumentSlots)
  receiver : m.isStatic = false → ∃ v, args[0]? = some v ∧ locals[0]? = some v
  argument : ∀ ⦃i : Nat⦄ ⦃T : Descriptor⦄, m.signature.arguments[i]? = some T →
    ∃ a, args[m.receivers + i]? = some a ∧ locals[m.slot i]? = some (Value.coerce T a) ∧
      (Descriptor.isWide T = true → locals[m.slot i + 1]? = some (Value.coerce T a))
  others : ∀ ⦃j : Nat⦄, j < locals.size → ¬m.Fills j → locals[j]? = some .null

end Method

variable {ts : List Descriptor} {vs : List Value}

theorem Descriptor.slotOf_succ (t : Descriptor) (i : Nat) :
    slotOf (t :: ts) (i + 1) = (if isWide t then 2 else 1) + slotOf ts i := by
  rw [slotOf, slotOf, List.take_succ_cons, List.countP_cons]
  split <;> omega

theorem Descriptor.countP_isWide (ts : List Descriptor) :
    ts.countP isWide = ts.count long + ts.count double := by
  induction ts with
  | nil => rfl
  | cons t ts ih =>
      rw [List.countP_cons, List.count_cons, List.count_cons, ih, isWide]
      by_cases hlong : t = long
      · subst hlong
        have hne : (long == double) = false := by decide
        simp [hne]
        omega
      · simp [hlong]
        omega

theorem Signature.argumentSlots_eq_countP (g : Signature) :
    g.argumentSlots = g.arguments.length + g.arguments.countP Descriptor.isWide := by
  rw [g.argumentSlots_eq, Descriptor.countP_isWide]

theorem argumentSlots_length (h : vs.length = ts.length) :
    (argumentSlots ts vs).length = ts.length + ts.countP Descriptor.isWide := by
  induction ts generalizing vs with
  | nil => rw [argumentSlots] <;> simp
  | cons t ts ih =>
      cases vs with
      | nil => contradiction
      | cons v vs =>
          rw [argumentSlots, List.length_append, ih (Nat.succ.inj h), List.length_cons,
            List.countP_cons]
          split <;> simp <;> omega

/-- An argument stands where those before it leave off, a long or double twice. -/
theorem argumentSlots_at {i : Nat} {T : Descriptor} {a : Value} (hT : ts[i]? = some T)
    (ha : vs[i]? = some a) :
    (argumentSlots ts vs)[Descriptor.slotOf ts i]? = some (Value.coerce T a) ∧
    (Descriptor.isWide T = true →
      (argumentSlots ts vs)[Descriptor.slotOf ts i + 1]? = some (Value.coerce T a)) := by
  induction ts generalizing i vs with
  | nil => contradiction
  | cons t ts ih =>
      cases vs with
      | nil => contradiction
      | cons v vs =>
          have hwidth : (if Descriptor.isWide t then [Value.coerce t v, Value.coerce t v]
              else [Value.coerce t v]).length = if Descriptor.isWide t then 2 else 1 := by
            split <;> rfl
          cases i with
          | zero =>
              obtain rfl := Option.some.inj hT
              obtain rfl := Option.some.inj ha
              rw [argumentSlots, Descriptor.slotOf]
              split <;> simp_all
          | succ i =>
              rw [argumentSlots, Descriptor.slotOf_succ, ← hwidth, Nat.add_assoc,
                List.getElem?_append_right (Nat.le_add_right _ _), Nat.add_sub_cancel_left,
                List.getElem?_append_right (Nat.le_add_right _ _), Nat.add_sub_cancel_left]
              exact ih hT ha

/-- The arguments leave no gap. -/
theorem argument_of_slot {j : Nat} (hj : j < ts.length + ts.countP Descriptor.isWide) :
    ∃ i T, ts[i]? = some T ∧
      (j = Descriptor.slotOf ts i ∨ Descriptor.isWide T = true ∧ j = Descriptor.slotOf ts i + 1) := by
  induction ts generalizing j with
  | nil => contradiction
  | cons t ts ih =>
      rw [List.length_cons, List.countP_cons] at hj
      by_cases hfirst : j < if Descriptor.isWide t then 2 else 1
      · refine ⟨0, t, rfl, ?_⟩
        split at hfirst
        case isTrue hwide =>
          have hfew : j = 0 ∨ j = 1 := by omega
          exact hfew.imp id fun h => ⟨hwide, h⟩
        case isFalse => exact .inl (Nat.lt_one_iff.mp hfirst)
      · obtain ⟨k, rfl⟩ := Nat.exists_eq_add_of_le (Nat.not_lt.mp hfirst)
        have hrest : k < ts.length + ts.countP Descriptor.isWide := by
          split at hj <;> simp_all <;> omega
        obtain ⟨i, T, hT, hplace⟩ := ih hrest
        refine ⟨i + 1, T, hT, ?_⟩
        rw [Descriptor.slotOf_succ]
        rcases hplace with rfl | ⟨hwide, rfl⟩
        · exact .inl rfl
        · exact .inr ⟨hwide, (Nat.add_assoc _ _ _).symm⟩

section Given

variable {m : Method} {args : List Value}

/-- The receiver and the arguments take the first local variables, all of them. -/
theorem Method.fills_of_lt {j : Nat} (hj : j < m.receivers + m.signature.argumentSlots) :
    m.Fills j := by
  rw [Signature.argumentSlots_eq_countP] at hj
  refine (Nat.lt_or_ge j m.receivers).imp id fun hle => ?_
  obtain ⟨k, rfl⟩ := Nat.exists_eq_add_of_le hle
  obtain ⟨i, T, hT, hplace⟩ := argument_of_slot (Nat.add_lt_add_iff_left.mp hj)
  refine ⟨i, T, hT, hplace.imp (fun h => ?_) fun h => ⟨h.1, ?_⟩⟩
  · rw [h, Method.slot]
  · rw [h.2, Method.slot, Nat.add_assoc]

/-- The local variables that a call gives a value, in order. -/
def Method.given (m : Method) (args : List Value) : List Value :=
  args.take m.receivers ++ argumentSlots m.signature.arguments (args.drop m.receivers)

theorem layoutLocals_eq (hcount : args.length = m.receivers + m.signature.arguments.length) :
    layoutLocals m args = some (m.given args ++ List.replicate
      ((m.code.elim 0 fun c => c.maxLocals.toNat) - (m.given args).length) Value.null).toArray := by
  have hwanted : ¬args.length ≠ m.signature.arguments.length + m.receivers := by omega
  exact if_neg hwanted

theorem given_taken (hcount : args.length = m.receivers + m.signature.arguments.length) :
    (args.take m.receivers).length = m.receivers := by
  rw [List.length_take]
  omega

theorem given_length (hcount : args.length = m.receivers + m.signature.arguments.length) :
    (m.given args).length = m.receivers + m.signature.argumentSlots := by
  have hleft : (args.drop m.receivers).length = m.signature.arguments.length := by
    rw [List.length_drop]
    omega
  rw [Method.given, List.length_append, given_taken hcount, argumentSlots_length hleft,
    Signature.argumentSlots_eq_countP]

theorem given_at (hcount : args.length = m.receivers + m.signature.arguments.length) (k : Nat) :
    (m.given args)[m.receivers + k]? =
      (argumentSlots m.signature.arguments (args.drop m.receivers))[k]? := by
  have htaken := given_taken hcount
  rw [Method.given, List.getElem?_append_right (by omega), htaken, Nat.add_sub_cancel_left]

/-- With the right number of arguments a call is laid out. -/
theorem layoutLocals_lays (hcount : args.length = m.receivers + m.signature.arguments.length) :
    ∃ locals, layoutLocals m args = some locals ∧ m.LaysOut args locals := by
  refine ⟨_, layoutLocals_eq hcount, ?_⟩
  have hlength := given_length hcount
  have hgiven : ∀ {j : Nat} {v : Value} (rest : List Value), (m.given args)[j]? = some v →
      (m.given args ++ rest).toArray[j]? = some v := by
    intro j v rest hj
    have hlt := (List.getElem?_eq_some_iff.mp hj).1
    rw [List.getElem?_toArray, List.getElem?_append_left hlt, hj]
  refine ⟨hcount, ?_, fun hstatic => ?_, fun i T hT => ?_, fun j hj hfills => ?_⟩
  · rw [List.size_toArray, List.length_append, List.length_replicate, hlength]
    omega
  · have hone : m.receivers = 1 := by rw [Method.receivers, hstatic, if_neg Bool.false_ne_true]
    cases args with
    | nil =>
        rw [hone, List.length_nil] at hcount
        omega
    | cons v rest => exact ⟨v, rfl, hgiven _ (by rw [Method.given, hone]; rfl)⟩
  · have hi := (List.getElem?_eq_some_iff.mp hT).1
    obtain ⟨a, ha⟩ : ∃ a, args[m.receivers + i]? = some a :=
      ⟨_, List.getElem?_eq_getElem (by omega)⟩
    obtain ⟨hfirst, hsecond⟩ := argumentSlots_at hT (List.getElem?_drop.trans ha)
    exact ⟨a, ha, hgiven _ ((given_at hcount _).trans hfirst),
      fun hwide => hgiven _ ((given_at hcount _).trans (hsecond hwide))⟩
  · have hpast : (m.given args).length ≤ j := by
      rw [hlength]
      exact Nat.not_lt.mp fun hlt => hfills (Method.fills_of_lt hlt)
    rw [List.size_toArray, List.length_append, List.length_replicate] at hj
    rw [List.getElem?_toArray, List.getElem?_append_right hpast, List.getElem?_replicate,
      if_pos (by omega)]

end Given

end ClassEngine
