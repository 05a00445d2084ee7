import Mathlib.Data.List.Infix
import ClassEngine.Proofs.ClassFile.Reading
import ClassEngine.Proofs.ClassFile.Reencoding

/-!
Truncated class files. A decoder that gives a value has read it off certain bytes at the front: it
gives the same value whatever follows these, and fails when any of them are missing. Main result:
`classes_are_read_off_front`.
-/

namespace ClassEngine

namespace ClassFile

namespace Decoder

variable {α β : Type} {d : Decoder α} {f : α → Decoder β} {s s' : Cursor} {a : α}
  {b b₁ b₂ : List UInt8}

/-- There is no value at this place. -/
def Fails (d : Decoder α) (s : Cursor) : Prop :=
  ∃ e, d s = .error e

/-- There is no value in the bytes once some are missing at their end. -/
def Starves (d : Decoder α) (b : List UInt8) : Prop :=
  ∀ p, p <+: b → p ≠ b → ∀ offset, Fails d ⟨offset, p⟩

/-- Whatever `d` gives, it has read off bytes of which it needs all and beyond which it does not
look. -/
def Exact (d : Decoder α) : Prop :=
  ∀ ⦃s a s'⦄, d s = .ok (a, s') → ∃ b, s.rest = b ++ s'.rest ∧ Reads d b a ∧ Starves d b

section Rules

theorem Fails.bind (h : Fails d s) : Fails (d >>= f) s := by
  obtain ⟨e, he⟩ := h
  refine ⟨e, ?_⟩
  change (d s >>= fun p => f p.1 p.2) = _
  rw [he]
  rfl

/-- The failure of the second part is that of the whole. -/
theorem Fails.after (h : Fails (f a) s') (hd : d s = .ok (a, s')) : Fails (d >>= f) s := by
  obtain ⟨e, he⟩ := h
  refine ⟨e, ?_⟩
  change (d s >>= fun p => f p.1 p.2) = _
  rw [hd]
  exact he

theorem Fails.inside (h : Fails d s) (place : Text) : Fails (Decoder.inside place d) s := by
  obtain ⟨e, he⟩ := h
  refine ⟨.within place e, ?_⟩
  rw [Decoder.inside, he]
  rfl

/-- Where nothing is read, nothing can be missing. -/
theorem starves_nil : Starves d [] :=
  fun _ hp hne => absurd (List.prefix_nil.mp hp) hne

/-- Bytes in two parts break off in the first part or in the second. -/
theorem Starves.append (hfirst : Starves (d >>= f) b₁) (hreads : Reads d b₁ a)
    (hsecond : Starves (f a) b₂) : Starves (d >>= f) (b₁ ++ b₂) := by
  intro p hp hne offset
  have hbehind : ∀ q, q <+: b₂ → q ≠ b₂ → Fails (d >>= f) ⟨offset, b₁ ++ q⟩ :=
    fun q hq hne => (hsecond q hq hne _).after (hreads offset q)
  rcases List.prefix_or_prefix_of_prefix hp (List.prefix_append b₁ b₂) with hle | ⟨q, rfl⟩
  · by_cases hwhole : p = b₁
    · subst hwhole
      have hnil : [] ≠ b₂ := fun h => hne (by rw [← h, List.append_nil])
      have hfails := hbehind [] List.nil_prefix hnil
      rwa [List.append_nil] at hfails
    · exact hfirst p hle hwhole offset
  · exact hbehind q ((List.prefix_append_right_inj b₁).mp hp) fun h => hne (h ▸ rfl)

theorem Exact.pure (a : α) : Exact (pure a : Decoder α) := by
  intro s a' s' hrun
  obtain ⟨rfl, rfl⟩ := Prod.mk.inj (Except.ok.inj hrun)
  exact ⟨[], rfl, .pure a, starves_nil⟩

theorem Exact.throw (e : DecodeError) : Exact (throw e : Decoder α) :=
  fun _ _ _ hrun => nomatch hrun

/-- The first part may also give a value without bytes for it, if the second part then fails. -/
theorem Exact.seq (hf : ∀ a, Exact (f a))
    (hd : ∀ ⦃s a s'⦄, d s = .ok (a, s') → Fails (f a) s' ∨
      ∃ b, s.rest = b ++ s'.rest ∧ Reads d b a ∧ Starves (d >>= f) b) : Exact (d >>= f) := by
  intro s v s'' hrun
  change (d s >>= fun p => f p.1 p.2) = .ok (v, s'') at hrun
  cases hstep : d s with
  | error e =>
      rw [hstep] at hrun
      cases hrun
  | ok p =>
      obtain ⟨a, s'⟩ := p
      rw [hstep] at hrun
      change f a s' = .ok (v, s'') at hrun
      rcases hd hstep with ⟨e, he⟩ | ⟨b₁, hb₁, hreads₁, hstarves₁⟩
      · cases he.symm.trans hrun
      · obtain ⟨b₂, hb₂, hreads₂, hstarves₂⟩ := hf a hrun
        refine ⟨b₁ ++ b₂, ?_, hreads₁.bind hreads₂, hstarves₁.append hreads₁ hstarves₂⟩
        rw [hb₁, hb₂, List.append_assoc]

theorem Exact.bind (hd : Exact d) (hf : ∀ a, Exact (f a)) : Exact (d >>= f) := by
  refine .seq hf fun s a s' hrun => .inr ?_
  obtain ⟨b, hb, hreads, hstarves⟩ := hd hrun
  exact ⟨b, hb, hreads, fun p hp hne offset => (hstarves p hp hne offset).bind⟩

theorem Exact.inside (h : Exact d) (place : Text) : Exact (Decoder.inside place d) := by
  intro s a s' hrun
  rw [Decoder.inside] at hrun
  cases hstep : d s with
  | error e =>
      rw [hstep] at hrun
      cases hrun
  | ok p =>
      rw [hstep] at hrun
      obtain rfl := Except.ok.inj hrun
      obtain ⟨b, hb, hreads, hstarves⟩ := h hstep
      exact ⟨b, hb, hreads.inside place, fun p hp hne offset => (hstarves p hp hne offset).inside place⟩

/-- A result that needs no bytes. -/
theorem Exact.lift (r : Except DecodeError α) : Exact (liftM r : Decoder α) := by
  cases r with
  | error e => exact .throw e
  | ok a => exact .pure a

theorem Exact.lookup (r : Except PoolError α) : Exact (Decoder.lookup r) :=
  .lift _

end Rules

section Numbers

/-- What needs `n` bytes finds nothing in part of them. -/
theorem starves_of_length (h : ∀ s : Cursor, s.rest.length < b.length → Fails d s) :
    Starves d b := by
  intro p hp hne offset
  exact h _ (lt_of_le_of_ne hp.length_le fun heq => hne (hp.eq_of_length heq))

theorem exact_u1 : Exact u1 := by
  intro s v s' hrun
  rw [u1] at hrun
  split at hrun
  case h_1 a rest hrest =>
    obtain ⟨rfl, rfl⟩ := Prod.mk.inj (Except.ok.inj hrun)
    refine ⟨[a], hrest, reads_u1 a, starves_of_length fun t ht => ⟨.truncated t.offset 1, ?_⟩⟩
    rw [u1, List.eq_nil_of_length_eq_zero (Nat.lt_one_iff.mp ht)]
  case h_2 => cases hrun

theorem u2_fails (h : s.rest.length < 2) : Fails u2 s := by
  refine ⟨.truncated s.offset 2, ?_⟩
  rw [u2]
  split
  case h_1 a b rest hrest =>
    simp only [hrest, List.length_cons] at h
    omega
  case h_2 => rfl

theorem exact_u2 : Exact u2 := by
  intro s v s' hrun
  rw [u2] at hrun
  split at hrun
  case h_1 a b rest hrest =>
    obtain ⟨rfl, rfl⟩ := Prod.mk.inj (Except.ok.inj hrun)
    exact ⟨[a, b], hrest, fun _ _ => rfl, starves_of_length fun _ => u2_fails⟩
  case h_2 => cases hrun

theorem u4_fails (h : s.rest.length < 4) : Fails u4 s := by
  refine ⟨.truncated s.offset 4, ?_⟩
  rw [u4]
  split
  case h_1 a b c e rest hrest =>
    simp only [hrest, List.length_cons] at h
    omega
  case h_2 => rfl

theorem exact_u4 : Exact u4 := by
  intro s v s' hrun
  rw [u4] at hrun
  split at hrun
  case h_1 a b c e rest hrest =>
    obtain ⟨rfl, rfl⟩ := Prod.mk.inj (Except.ok.inj hrun)
    exact ⟨[a, b, c, e], hrest, fun _ _ => rfl, starves_of_length fun _ => u4_fails⟩
  case h_2 => cases hrun

theorem exact_u8 : Exact u8 :=
  exact_u4.bind fun _ => exact_u4.bind fun _ => .pure _

theorem exact_bytes (n : Nat) : Exact (bytes n) := by
  intro s bs s' hrun
  rw [bytes] at hrun
  split at hrun
  case isTrue hlength =>
    obtain ⟨rfl, rfl⟩ := Prod.mk.inj (Except.ok.inj hrun)
    have hreads := reads_bytes (s.rest.take n)
    rw [hlength] at hreads
    refine ⟨s.rest.take n, (List.take_append_drop n s.rest).symm, hreads, ?_⟩
    refine starves_of_length fun t ht => ⟨.truncated t.offset n, ?_⟩
    rw [hlength] at ht
    rw [bytes, if_neg]
    rw [List.length_take]
    omega
  case isFalse => cases hrun

theorem index_short (h : s.rest.length < 2) : index s = .ok (0, s) := by
  obtain ⟨e, he⟩ := u2_fails h
  rw [index, he]

/-- Where the bytes have run out an index reads as 0, so what is done with it has to fail there. -/
theorem exact_index {f : UInt16 → Decoder β} (hf : ∀ i, Exact (f i))
    (hzero : ∀ s : Cursor, s.rest.length < 2 → Fails (f 0) s) : Exact (index >>= f) := by
  have hshort : ∀ s : Cursor, s.rest.length < 2 → Fails (index >>= f) s :=
    fun s hs => (hzero s hs).after (index_short hs)
  refine .seq hf fun s i s' hrun => ?_
  match hrest : s.rest with
  | x :: y :: rest =>
      rw [index, u2, hrest] at hrun
      obtain ⟨rfl, rfl⟩ := Prod.mk.inj (Except.ok.inj hrun)
      exact .inr ⟨[x, y], rfl, fun _ _ => rfl, starves_of_length hshort⟩
  | [] | [_] =>
      have hs : s.rest.length < 2 := by simp [hrest]
      rw [index_short hs] at hrun
      obtain ⟨rfl, rfl⟩ := Prod.mk.inj (Except.ok.inj hrun)
      exact .inl (hzero s hs)

theorem exact_repeatedOnto {d : Nat → Decoder α} (h : ∀ i, Exact (d i)) (acc : List α) (n i : Nat) :
    Exact (repeatedOnto d acc n i) := by
  induction n generalizing acc i with
  | zero => exact .pure _
  | succ n ih => exact (h i).bind fun a => ih (a :: acc) (i + 1)

theorem exact_counted {d : Nat → Decoder α} (h : ∀ i, Exact (d i)) : Exact (counted d) :=
  exact_u2.bind fun _ => exact_repeatedOnto h [] _ _

end Numbers

end Decoder

open Decoder

variable {c : ClassFile}

/-! No look-up finds anything at index 0 -/

theorem lookup_zero_fails {α : Type} {r : Except PoolError α} {e : PoolError} (h : r = .error e)
    (place : Text) (s : Cursor) : Fails (inside place (lookup r)) s := by
  subst h
  exact Fails.inside ⟨.pool e, rfl⟩ place

/-- A symbol that is looked up by an index and put to use. -/
theorem exact_symbol {α β : Type} {find : UInt16 → Except PoolError α} {place : Text}
    {f : α → Decoder β} (hzero : ∃ e, find 0 = .error e) (hf : ∀ a, Exact (f a)) :
    Exact (do let i ← index; let a ← inside place (lookup (find i)); f a) := by
  obtain ⟨e, he⟩ := hzero
  exact exact_index (fun i => ((Exact.lookup _).inside _).bind hf)
    fun s _ => (lookup_zero_fails he place s).bind

theorem utf8_zero (c : ClassFile) : ∃ e, c.utf8 0 = .error e :=
  ⟨.outOfRange c.name 0, rfl⟩

theorem className_zero (c : ClassFile) : ∃ e, c.className 0 = .error e :=
  ⟨.outOfRange c.name 0, rfl⟩

theorem exact_decodeLink (kind : LinkKind) : Exact (decodeLink kind) := by
  rw [decodeLink]
  split
  case h_1 => exact exact_u2.bind fun _ => .pure _
  case h_2 => exact exact_u2.bind fun _ => exact_u2.bind fun _ => .pure _
  case h_3 => exact exact_u1.bind fun _ => exact_u2.bind fun _ => .pure _

theorem exact_decodeConstant (i : Nat) : Exact (decodeConstant i) := by
  refine (exact_u1.inside _).bind fun tag => ?_
  split
  case h_1 kind _ => exact (exact_decodeLink kind).inside _
  case h_2 =>
    split
    case isFalse => exact .throw _
    case isTrue =>
      refine Exact.inside ?_ _
      split
      · exact exact_u2.bind fun _ => (exact_bytes _).bind fun _ => .pure _
      split
      · exact exact_u4.bind fun _ => .pure _
      split
      · exact exact_u4.bind fun _ => .pure _
      split
      · exact exact_u8.bind fun _ => .pure _
      · exact exact_u8.bind fun _ => .pure _

theorem exact_decodeEntriesOnto (acc : List Constant) (n i : Nat) :
    Exact (decodeEntriesOnto acc n i) := by
  induction n using Nat.strongRecOn generalizing acc i with
  | ind n ih =>
      cases n with
      | zero => exact .pure _
      | succ n =>
          rw [decodeEntriesOnto]
          refine (exact_decodeConstant i).bind fun k => ?_
          split
          case isTrue =>
            cases n with
            | zero => exact .pure _
            | succ n => exact ih n (by omega) _ _
          case isFalse => exact ih n (by omega) _ _

theorem exact_decodePool : Exact decodePool := by
  refine exact_u2.bind fun count => ?_
  split
  case isTrue => exact .pure _
  case isFalse => exact (exact_decodeEntriesOnto [] _ _).bind fun _ => .pure _

theorem exact_decodeAttributes (c : ClassFile) : Exact (decodeAttributes c) := by
  refine exact_counted fun _ => exact_symbol (utf8_zero c) fun name => ?_
  exact exact_u4.bind fun _ => (exact_bytes _).bind fun _ => .pure _

/-- The flags, the name and the descriptor of a field or method, and its attributes. -/
theorem exact_member {β : Type} {f : UInt16 → Text → Text → List Attribute → Decoder β}
    (place : Text) (hf : ∀ flags name descriptor attrs, Exact (f flags name descriptor attrs)) :
    Exact (do
      let flags ← index
      let nameIndex ← index
      let name ← inside place (lookup (c.utf8 nameIndex))
      let descIndex ← index
      let descriptor ← inside (c.name ++ "." ++ name ++ ": descriptor") (lookup (c.utf8 descIndex))
      let attrs ← inside (c.name ++ "." ++ name) (decodeAttributes c)
      f flags name descriptor attrs) := by
  refine exact_index (fun flags => exact_symbol (utf8_zero c) fun name => ?_) fun s hs => ?_
  · refine exact_symbol (utf8_zero c) fun descriptor => ?_
    exact ((exact_decodeAttributes c).inside _).bind fun attrs => hf flags name descriptor attrs
  · -- Where there are no flags there is no index of a name either.
    obtain ⟨e, he⟩ := utf8_zero c
    exact Fails.after (d := index) (lookup_zero_fails he place s).bind (index_short hs)

theorem exact_decodeField (i : Nat) : Exact (decodeField c i) :=
  exact_member _ fun _ _ _ _ => .pure _

theorem exact_decodeMethod (i : Nat) : Exact (decodeMethod c i) :=
  exact_member _ fun _ _ _ _ => .lift _

theorem exact_decodeInterface (i : Nat) : Exact (decodeInterface c i) := by
  obtain ⟨e, he⟩ := className_zero c
  exact exact_index (fun _ => (Exact.lookup _).inside _) fun s _ => lookup_zero_fails he _ s

theorem exact_optionalClassName (place : Text) (i : UInt16) :
    Exact (optionalClassName c place i) := by
  rw [optionalClassName]
  split
  case isTrue => exact .pure _
  case isFalse => exact (Exact.lookup _).inside _

theorem exact_decodeRest (minor major : UInt16) (pool : Array Constant) :
    Exact (decodeRest minor major pool) := by
  refine exact_u2.bind fun flags => exact_u2.bind fun thisIndex => exact_u2.bind fun superIndex => ?_
  refine ((Exact.lookup _).inside _).bind fun name => ?_
  refine (exact_optionalClassName _ _).bind fun superName => ?_
  refine (exact_counted exact_decodeInterface).bind fun interfaces => ?_
  refine (exact_counted exact_decodeField).bind fun fields => ?_
  refine (exact_counted exact_decodeMethod).bind fun methods => ?_
  exact ((exact_decodeAttributes _).inside _).bind fun attrs => .lift _

theorem exact_decoder : Exact decoder := by
  refine exact_u4.bind fun magicValue => ?_
  split
  case isTrue => exact .throw _
  case isFalse =>
    refine exact_u2.bind fun minor => exact_u2.bind fun major => ?_
    exact exact_decodePool.bind fun pool => exact_decodeRest minor major pool

/-- Bytes that are a class file have a front that alone decides about it: with anything behind it,
it is a class file of the same class, and nothing shorter is a class file at all. -/
theorem classes_are_read_off_front {data : List UInt8} {c : ClassFile} (h : decode data = .ok c) :
    ∃ n ≤ data.length, (∀ more, decode (data.take n ++ more) = .ok c) ∧
      ∀ m < n, ∃ e, decode (data.take m) = .error e := by
  rw [decode, onBytes, StateT.run] at h
  cases hrun : decoder ⟨0, data⟩ with
  | error e =>
      rw [hrun] at h
      cases h
  | ok p =>
      obtain ⟨c', s'⟩ := p
      rw [hrun] at h
      obtain rfl := Except.ok.inj h
      obtain ⟨b, hb, hreads, hstarves⟩ := exact_decoder hrun
      obtain rfl : data = b ++ s'.rest := hb
      refine ⟨b.length, by simp, fun more => ?_, fun m hm => ?_⟩
      · rw [List.take_left', decode, onBytes, StateT.run, hreads 0 more]
        · rfl
        · rfl
      · rw [List.take_append_of_le_length hm.le]
        have hshort : b.take m ≠ b := fun heq => by
          have hlength := congrArg List.length heq
          rw [List.length_take] at hlength
          omega
        obtain ⟨e, he⟩ := hstarves (b.take m) (List.take_prefix m b) hshort 0
        exact ⟨e, by rw [decode, onBytes, StateT.run, he]; rfl⟩

theorem classes_are_read_off_front_loose : decode (looseBytes ++ [7, 7]) = .ok looseClass ∧
    ∃ n ≤ (looseBytes ++ [7, 7]).length,
      (∀ more, decode ((looseBytes ++ [7, 7]).take n ++ more) = .ok looseClass) ∧
      ∀ m < n, ∃ e, decode ((looseBytes ++ [7, 7]).take m) = .error e := by
  have hread : decode (looseBytes ++ [7, 7]) = .ok looseClass := by decide +kernel
  exact ⟨hread, classes_are_read_off_front hread⟩

end ClassFile

end ClassEngine
