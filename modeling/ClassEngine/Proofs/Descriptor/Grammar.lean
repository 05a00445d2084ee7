import Mathlib.Data.List.TakeWhile
import Mathlib.Tactic.Common
import ClassEngine.Descriptor.Signature

/-!
The readers of descriptors accept exactly the grammar. Reading one type takes a type off the front
of any text, so no type is the beginning of another; the closing parenthesis of a method descriptor
is therefore found by reading, also where class names hold parentheses or brackets.
-/

namespace ClassEngine

namespace Descriptor

/-- A type without brackets: the letter of a primitive type, or `L`, a name and `;`, where the name
is not empty and has no semicolon. -/
inductive IsElement : Descriptor → Prop
  | primitive (p : Primitive) : IsElement [p.letter]
  | reference (name : Text) (hne : name ≠ []) (hfree : Text.ofAscii ';' ∉ name) :
      IsElement (Text.ofAscii 'L' :: name ++ [Text.ofAscii ';'])

/-- A field type: any number of brackets and a type without brackets. -/
def IsFieldType (t : Descriptor) : Prop :=
  ∃ (n : Nat) (e : Descriptor), IsElement e ∧ t = List.replicate n (Text.ofAscii '[') ++ e

theorem letter_mem_primitives (p : Primitive) : p ∈ primitives := by
  cases p <;> decide

theorem any_letter_eq {b : UInt8} :
    (primitives.any fun p => p.letter == b) = true ↔ ∃ p : Primitive, p.letter = b := by
  rw [List.any_eq_true]
  constructor
  · rintro ⟨p, -, h⟩
    exact ⟨p, by simpa using h⟩
  · rintro ⟨p, rfl⟩
    exact ⟨p, letter_mem_primitives p, by simp⟩

theorem not_letter {b : UInt8} (h : ∀ p : Primitive, p.letter ≠ b) :
    (primitives.any fun p => p.letter == b) = false := by
  rw [← Bool.not_eq_true, any_letter_eq]
  rintro ⟨p, hp⟩
  exact h p hp

theorem void_eq : void = [Text.ofAscii 'V'] := by
  decide

theorem IsElement.not_void {e : Descriptor} (h : IsElement e) : e ≠ void := by
  cases h with
  | primitive p => cases p <;> decide
  | reference name hne hfree => simp [void_eq]

/-- The first byte of a type without brackets is no bracket. -/
theorem IsElement.head {e : Descriptor} (h : IsElement e) :
    ∃ b tail, e = b :: tail ∧ (b == Text.ofAscii '[') = false := by
  cases h with
  | primitive p => exact ⟨p.letter, [], rfl, by cases p <;> decide⟩
  | reference name hne hfree => exact ⟨_, _, rfl, by decide⟩

section Brackets

variable {n : Nat} {b : UInt8} {rest : Text}

theorem takeWhile_brackets (hb : (b == Text.ofAscii '[') = false) :
    (List.replicate n (Text.ofAscii '[') ++ b :: rest).takeWhile (· == Text.ofAscii '[') =
      List.replicate n (Text.ofAscii '[') := by
  rw [List.takeWhile_append_of_pos (by simp), List.takeWhile_cons_of_neg (by simp [hb]),
    List.append_nil]

theorem dropWhile_brackets (hb : (b == Text.ofAscii '[') = false) :
    (List.replicate n (Text.ofAscii '[') ++ b :: rest).dropWhile (· == Text.ofAscii '[') =
      b :: rest := by
  rw [List.dropWhile_append_of_pos (by simp), List.dropWhile_cons_of_neg (by simp [hb])]

end Brackets

/-- What stands in front of the first other byte is brackets. -/
theorem IsElement.inBrackets {e : Descriptor} (he : IsElement e) (s : Text) :
    IsFieldType (s.takeWhile (· == Text.ofAscii '[') ++ e) := by
  have hbrackets : s.takeWhile (· == Text.ofAscii '[') =
      List.replicate (s.takeWhile (· == Text.ofAscii '[')).length (Text.ofAscii '[') := by
    apply List.eq_replicate_of_mem
    intro b hb
    simpa using List.mem_takeWhile_imp hb
  exact ⟨_, e, he, congrArg (· ++ e) hbrackets⟩

section Names

variable {name rest : Text}

theorem takeWhile_name (hfree : Text.ofAscii ';' ∉ name) :
    (name ++ Text.ofAscii ';' :: rest).takeWhile (· != Text.ofAscii ';') = name := by
  rw [List.takeWhile_append_of_pos, List.takeWhile_cons_of_neg (by simp), List.append_nil]
  intro b hb
  simpa using ne_of_mem_of_not_mem hb hfree

theorem dropWhile_name (hfree : Text.ofAscii ';' ∉ name) :
    (name ++ Text.ofAscii ';' :: rest).dropWhile (· != Text.ofAscii ';') =
      Text.ofAscii ';' :: rest := by
  rw [List.dropWhile_append_of_pos, List.dropWhile_cons_of_neg (by simp)]
  intro b hb
  simpa using ne_of_mem_of_not_mem hb hfree

end Names

section Reading

variable {whole rest s : Text} {position : Nat} {t : Descriptor}

/-- A field type is read off the front of whatever follows it. -/
theorem nextType_fieldType (h : IsFieldType t) :
    nextType whole position (t ++ rest) = .ok (t, rest) := by
  obtain ⟨n, e, he, rfl⟩ := h
  cases he with
  | primitive p =>
      have hb : (p.letter == Text.ofAscii '[') = false := by cases p <;> decide
      simp only [nextType, List.append_assoc, List.cons_append, List.nil_append,
        takeWhile_brackets hb, dropWhile_brackets hb, any_letter_eq.mpr ⟨p, rfl⟩, if_true]
  | reference name hne hfree =>
      have hb : (Text.ofAscii 'L' == Text.ofAscii '[') = false := by decide
      have hletter : (primitives.any fun p => p.letter == Text.ofAscii 'L') = false :=
        not_letter fun p => by cases p <;> decide
      have hvoid : Text.ofAscii 'L' ≠ Text.ofAscii 'V' := by decide
      have hempty : name.isEmpty = false := by simpa using hne
      simp [nextType, takeWhile_brackets hb, dropWhile_brackets hb, hletter, hvoid,
        takeWhile_name hfree, dropWhile_name hfree, hne]

theorem nextType_void : nextType whole position (void ++ rest) = .ok (void, rest) := by
  have hb : (Text.ofAscii 'V' == Text.ofAscii '[') = false := by decide
  have hletter : (primitives.any fun p => p.letter == Text.ofAscii 'V') = false :=
    not_letter fun p => by cases p <;> decide
  simp [void_eq, nextType, List.takeWhile_cons_of_neg, List.dropWhile_cons_of_neg, hb, hletter]

/-- What is read is a field type or void, and stands in front of what is left. -/
theorem of_nextType (h : nextType whole position s = .ok (t, rest)) :
    s = t ++ rest ∧ (IsFieldType t ∨ t = void) := by
  have hs := List.takeWhile_append_dropWhile (p := (· == Text.ofAscii '[')) (l := s)
  simp only [nextType] at h
  split at h
  case h_1 => cases h
  case h_2 b after hdrop =>
    rw [hdrop] at hs
    split at h
    case isTrue hletter =>
      obtain ⟨p, rfl⟩ := any_letter_eq.mp hletter
      cases h
      exact ⟨by simpa using hs.symm, .inl ((IsElement.primitive p).inBrackets s)⟩
    split at h
    case isTrue hb =>
      split at h
      case isFalse => cases h
      case isTrue hempty =>
        cases h
        rw [List.isEmpty_iff.mp hempty] at hs
        exact ⟨hs.symm, .inr (by rw [hb]; decide)⟩
    split at h
    case isFalse => cases h
    case isTrue hb =>
      have hafter := List.takeWhile_append_dropWhile (p := (· != Text.ofAscii ';')) (l := after)
      split at h
      case h_2 => cases h
      case h_1 semicolon after' hname =>
        rw [hname] at hafter
        split at h
        case isTrue => cases h
        case isFalse hempty =>
          cases h
          rw [List.isEmpty_iff] at hempty
          have hsemicolon : semicolon = Text.ofAscii ';' := by
            have := List.head?_dropWhile_not (· != Text.ofAscii ';') after
            rw [hname] at this
            simpa using this
          have hfree : Text.ofAscii ';' ∉ after.takeWhile (· != Text.ofAscii ';') := by
            intro hmem
            simpa using List.mem_takeWhile_imp hmem
          have htype := (IsElement.reference _ hempty hfree).inBrackets s
          subst hb hsemicolon
          refine ⟨?_, .inl ?_⟩
          · conv_lhs => rw [← hs, ← hafter]
            simp
          · simpa using htype

/-- Reading a type succeeds exactly on what begins with one. -/
theorem nextType_eq_ok :
    nextType whole position s = .ok (t, rest) ↔ s = t ++ rest ∧ (IsFieldType t ∨ t = void) := by
  constructor
  · exact of_nextType
  · rintro ⟨rfl, h | rfl⟩
    · exact nextType_fieldType h
    · exact nextType_void

end Reading

theorem IsFieldType.not_void {t : Descriptor} (h : IsFieldType t) : t ≠ void := by
  obtain ⟨n, e, he, rfl⟩ := h
  cases n with
  | zero => simpa using he.not_void
  | succ n =>
      rw [List.replicate_succ, List.cons_append, void_eq]
      intro hvoid
      exact absurd (List.cons.inj hvoid).1 (by decide)

/-- No field type begins with a closing parenthesis. -/
theorem IsFieldType.head {t : Descriptor} (h : IsFieldType t) :
    ∃ b tail, t = b :: tail ∧ b ≠ Text.ofAscii ')' := by
  obtain ⟨n, e, he, rfl⟩ := h
  cases n with
  | zero =>
      cases he with
      | primitive p => exact ⟨p.letter, [], rfl, by cases p <;> decide⟩
      | reference name hne hfree => exact ⟨_, _, rfl, by decide⟩
  | succ n => exact ⟨Text.ofAscii '[', _, rfl, by decide⟩

/-- The readers of single types accept the field types and give them back whole. -/
theorem parseType_eq_ok {s : Text} {t : Descriptor} :
    parseType s = .ok t ↔ t = s ∧ IsFieldType s := by
  constructor
  · intro h
    unfold parseType at h
    cases hnext : nextType s 0 s with
    | error e => rw [hnext] at h; cases h
    | ok read =>
        obtain ⟨t', rest⟩ := read
        simp only [hnext, bind, Except.bind] at h
        obtain ⟨hs, htype⟩ := of_nextType hnext
        split at h
        case isTrue => cases h
        case isFalse hrest =>
          split at h
          case isTrue => cases h
          case isFalse hvoid =>
            cases h
            have hnil : rest = [] := by simpa using hrest
            rw [hnil, List.append_nil] at hs
            exact ⟨hs.symm, hs ▸ htype.resolve_right (by simpa using hvoid)⟩
  · rintro ⟨rfl, h⟩
    have hnext : nextType t 0 t = .ok (t, []) := nextType_eq_ok.mpr ⟨by simp, .inl h⟩
    simp [parseType, hnext, bind, Except.bind, h.not_void]

end Descriptor

namespace Signature

open Descriptor

/-- A method descriptor: field types in parentheses, then a field type or void. -/
structure Spells (arguments : List Descriptor) (result : Descriptor) (s : Text) : Prop where
  ofArguments : ∀ t ∈ arguments, IsFieldType t
  ofResult : IsFieldType result ∨ result = void
  text : s = Text.ofAscii '(' :: arguments.flatten ++ Text.ofAscii ')' :: result

section Arguments

variable {whole s after : Text} {acc arguments : List Descriptor} {fuel : Nat}

theorem nextArguments_flatten (h : ∀ t ∈ arguments, IsFieldType t) (hfuel : arguments.length < fuel) :
    nextArguments whole acc fuel (arguments.flatten ++ Text.ofAscii ')' :: after) =
      .ok (acc.reverse ++ arguments, after) := by
  induction arguments generalizing acc fuel with
  | nil =>
      cases fuel with
      | zero => simp at hfuel
      | succ fuel => simp [nextArguments]
  | cons t arguments ih =>
      cases fuel with
      | zero => simp at hfuel
      | succ fuel =>
          have ht := h t List.mem_cons_self
          obtain ⟨b, tail, heq, hb⟩ := ht.head
          have hnext : ∀ position, nextType whole position
              (b :: (tail ++ (arguments.flatten ++ Text.ofAscii ')' :: after))) =
                .ok (t, arguments.flatten ++ Text.ofAscii ')' :: after) := by
            intro position
            rw [← List.cons_append, ← heq]
            exact nextType_fieldType ht
          have hrest : nextArguments whole (t :: acc) fuel
              (arguments.flatten ++ Text.ofAscii ')' :: after) =
                .ok ((t :: acc).reverse ++ arguments, after) :=
            ih (fun t' ht' => h t' (List.mem_cons_of_mem t ht')) (by simpa using hfuel)
          rw [List.flatten_cons, List.append_assoc]
          nth_rewrite 1 [heq]
          simp [nextArguments, hb, hnext, bind, Except.bind, ht.not_void, hrest]

/-- The arguments that are read stand in front of a closing parenthesis. -/
theorem of_nextArguments {read : List Descriptor}
    (h : nextArguments whole acc fuel s = .ok (read, after)) :
    ∃ arguments, read = acc.reverse ++ arguments ∧ (∀ t ∈ arguments, IsFieldType t) ∧
      s = arguments.flatten ++ Text.ofAscii ')' :: after := by
  induction fuel generalizing acc s with
  | zero => cases h
  | succ fuel ih =>
      cases s with
      | nil => cases h
      | cons b rest =>
          rw [nextArguments] at h
          split at h
          case isTrue hb =>
            cases h
            exact ⟨[], by simp, by simp, by simp [hb]⟩
          case isFalse =>
            cases hnext : nextType whole (whole.length - (rest.length + 1)) (b :: rest) with
            | error e => rw [hnext] at h; cases h
            | ok found =>
                obtain ⟨t, left⟩ := found
                simp only [hnext, bind, Except.bind] at h
                obtain ⟨hs, htype⟩ := of_nextType hnext
                split at h
                case isTrue => cases h
                case isFalse hvoid =>
                  have ht := htype.resolve_right (by simpa using hvoid)
                  obtain ⟨arguments, hread, hall, hleft⟩ := ih h
                  refine ⟨t :: arguments, by simp [hread], ?_, by simp [hs, hleft]⟩
                  intro t' ht'
                  cases ht' with
                  | head => exact ht
                  | tail _ hmem => exact hall t' hmem

theorem length_le_flatten (h : ∀ t ∈ arguments, IsFieldType t) :
    arguments.length ≤ arguments.flatten.length := by
  induction arguments with
  | nil => simp
  | cons t arguments ih =>
      obtain ⟨b, tail, rfl, -⟩ := (h t List.mem_cons_self).head
      have := ih fun t' ht' => h t' (List.mem_cons_of_mem _ ht')
      simp only [List.flatten_cons, List.length_append, List.length_cons]
      omega

end Arguments

variable {s : Text} {arguments arguments' : List Descriptor} {result result' : Descriptor}

/-- A spelled method descriptor is read into its parts. -/
theorem Spells.parse (h : Spells arguments result s) : parse s = .ok ⟨arguments, result, s⟩ := by
  obtain ⟨hargs, hresult, hs⟩ := h
  have hlength : s.length = 1 + arguments.flatten.length + 1 + result.length := by
    rw [hs]
    simp only [List.length_append, List.length_cons]
    omega
  have hpos : 0 < result.length := by
    rcases hresult with h | rfl
    · obtain ⟨b, tail, rfl, -⟩ := h.head
      simp
    · decide
  have hfuel : arguments.length < s.length := by
    have := length_le_flatten hargs
    omega
  have hnext : ∀ position, nextType s position result = .ok (result, []) := by
    intro position
    rw [nextType_eq_ok]
    exact ⟨by simp, hresult⟩
  have hshort : ¬ s.length < 3 := by omega
  have hread : nextArguments s [] s.length (arguments.flatten ++ Text.ofAscii ')' :: result) =
      .ok ([].reverse ++ arguments, result) := nextArguments_flatten hargs hfuel
  rw [List.cons_append] at hs
  unfold Signature.parse
  cases s with
  | nil => cases hs
  | cons b rest =>
      obtain ⟨rfl, hrest⟩ := List.cons.inj hs
      rw [← hrest] at hread
      have hopen : ¬ ((Text.ofAscii '(' :: rest).length < 3 ∨ Text.ofAscii '(' ≠ Text.ofAscii '(') := by
        simpa using hshort
      simp only [hopen, if_false, hread, bind, Except.bind, hnext]
      rfl

/-- What is read is spelled by its parts. -/
theorem spells_of_parse {g : Signature} (h : parse s = .ok g) :
    g.text = s ∧ Spells g.arguments g.result s := by
  unfold Signature.parse at h
  cases s with
  | nil => cases h
  | cons b rest =>
      simp only at h
      split at h
      case isTrue => cases h
      case isFalse hopen =>
        have hb : b = Text.ofAscii '(' := by
          by_contra hne
          exact hopen (.inr hne)
        cases hargs : nextArguments (b :: rest) [] (b :: rest).length rest with
        | error e => rw [hargs] at h; cases h
        | ok read =>
            obtain ⟨arguments, after⟩ := read
            obtain ⟨arguments', hread, hall, hrest⟩ := of_nextArguments hargs
            cases hresult : nextType (b :: rest) ((b :: rest).length - after.length) after with
            | error e =>
                simp only [hargs, bind, Except.bind, hresult] at h
                cases h
            | ok found =>
                obtain ⟨result, left⟩ := found
                obtain ⟨hafter, htype⟩ := of_nextType hresult
                simp only [hargs, bind, Except.bind, hresult] at h
                split at h
                case isTrue => cases h
                case isFalse hleft =>
                  cases h
                  have hnil : left = [] := by simpa using hleft
                  rw [hnil, List.append_nil] at hafter
                  have heq : arguments = arguments' := by simpa using hread
                  subst heq hafter
                  exact ⟨rfl, hall, htype, by simp [hb, hrest]⟩

/-- A text has at most one decomposition. -/
theorem Spells.unique (h : Spells arguments result s) (h' : Spells arguments' result' s) :
    arguments = arguments' ∧ result = result' := by
  have heq := h.parse.symm.trans h'.parse
  cases heq
  exact ⟨rfl, rfl⟩

theorem parse_eq_ok {g : Signature} :
    parse s = .ok g ↔ g.text = s ∧ Spells g.arguments g.result s := by
  constructor
  · exact spells_of_parse
  · rintro ⟨rfl, h⟩
    exact h.parse

theorem foldl_slots (n : Nat) :
    arguments.foldl (fun n t => n + if isWide t then 2 else 1) n =
      n + arguments.length + (arguments.count long + arguments.count double) := by
  induction arguments generalizing n with
  | nil => rfl
  | cons t arguments ih =>
      have hne : long ≠ double := by decide
      rw [List.foldl_cons, ih, List.length_cons, List.count_cons, List.count_cons, isWide]
      by_cases hlong : t = long
      · simp [hlong, hne]
        omega
      · by_cases hdouble : t = double
        · simp [hdouble, hne.symm]
          omega
        · simp [hlong, hdouble]
          omega

/-- A slot for each argument, and a second one for each that is a long or a double. -/
theorem argumentSlots_eq (g : Signature) :
    g.argumentSlots =
      g.arguments.length + (g.arguments.count long + g.arguments.count double) := by
  rw [argumentSlots, foldl_slots, Nat.zero_add]

/-- The grammar of descriptors. A text is read as a field type exactly when it is one, and is given
back as it is. It is read as a method descriptor exactly when it has a decomposition; it has only
one, which is what the reader gives, and the slots of the arguments are counted from it. -/
theorem descriptor_grammar (s : Text) :
    (∀ t, parseType s = .ok t ↔ t = s ∧ IsFieldType s) ∧
      ((∃ g, parse s = .ok g) ↔ ∃ arguments result, Spells arguments result s) ∧
      (∀ g, parse s = .ok g ↔ g.text = s ∧ Spells g.arguments g.result s) ∧
      (∀ arguments result arguments' result', Spells arguments result s →
        Spells arguments' result' s → arguments = arguments' ∧ result = result') ∧
      ∀ g, parse s = .ok g → g.argumentSlots =
        g.arguments.length + (g.arguments.count long + g.arguments.count double) := by
  refine ⟨fun t => parseType_eq_ok, ?_, fun g => parse_eq_ok, ?_, fun g _ => argumentSlots_eq g⟩
  · constructor
    · rintro ⟨g, h⟩
      exact ⟨g.arguments, g.result, (spells_of_parse h).2⟩
    · rintro ⟨arguments, result, h⟩
      exact ⟨_, h.parse⟩
  · intro arguments result arguments' result' h h'
    exact h.unique h'

/-- Class names may hold parentheses and brackets. -/
example : (parse "(JLa)[b;[D)V").map (fun g => (g.arguments, g.argumentSlots)) =
    .ok (["J", "La)[b;", "[D"], 4) := by decide

end Signature

end ClassEngine
