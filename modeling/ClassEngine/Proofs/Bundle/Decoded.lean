import ClassEngine.Proofs.Bundle.Format
import ClassEngine.Proofs.ClassFile.Interning

/-!
Classes that were decoded can be bundled: their texts come out of the pool, where they are valid and
short, and their lists were counted in two bytes. Only lists that several attributes add up to can be
too long. Main statement: `packable_of_decode`.
-/

namespace ClassEngine

open ClassEngine.Bundle (HoldsText)

/-- The lists of a method that no count bounds are short enough for a bundle. -/
structure MethodInfo.Bounded (m : MethodInfo) : Prop where
  lines : ∀ body ∈ m.code, body.lines.length ≤ Cbor.maxElements
  throws : m.throws.length ≤ Cbor.maxElements

namespace ClassFile

/-! What a decoder gives -/

namespace Decoder

variable {α β : Type}

/-- Whatever `d` reads, what it gives has the property `P`. -/
def Gives (d : Decoder α) (P : α → Prop) : Prop :=
  ∀ ⦃s a s'⦄, d s = .ok (a, s') → P a

section Rules

variable {d : Decoder α} {P Q : α → Prop} {R : β → Prop}

theorem Gives.any (d : Decoder α) : Gives d fun _ => True := fun _ _ _ _ => trivial

theorem Gives.mono (h : Gives d P) (hPQ : ∀ a, P a → Q a) : Gives d Q :=
  fun _ _ _ hrun => hPQ _ (h hrun)

theorem Gives.pure {a : α} (h : P a) : Gives (pure a) P := by
  intro s b s' hrun
  obtain ⟨rfl, -⟩ := Prod.mk.inj (Except.ok.inj hrun)
  exact h

theorem Gives.throw {e : DecodeError} : Gives (throw e : Decoder α) P := by
  intro s a s' hrun
  cases hrun

theorem Gives.bind {f : α → Decoder β} (hd : Gives d P) (hf : ∀ a, P a → Gives (f a) R) :
    Gives (d >>= f) R := by
  intro s b s'' hrun
  change (d s >>= fun p => f p.1 p.2) = .ok (b, s'') at hrun
  cases hstep : d s with
  | error e =>
      rw [hstep] at hrun
      cases hrun
  | ok p =>
      rw [hstep] at hrun
      exact hf p.1 (hd hstep) hrun

/-- A decoder of which nothing need be known is followed by another. -/
theorem Gives.after {f : α → Decoder β} (hf : ∀ a, Gives (f a) R) : Gives (d >>= f) R :=
  (Gives.any d).bind fun a _ => hf a

theorem Gives.inside (h : Gives d P) (place : Text) : Gives (Decoder.inside place d) P := by
  intro s a s' hrun
  rw [Decoder.inside] at hrun
  cases hstep : d s with
  | error e =>
      rw [hstep] at hrun
      cases hrun
  | ok p =>
      rw [hstep] at hrun
      obtain rfl := Except.ok.inj hrun
      exact h hstep

theorem Gives.lift {r : Except DecodeError α} (h : ∀ a, r = .ok a → P a) :
    Gives (liftM r : Decoder α) P := by
  intro s a s' hrun
  cases r with
  | error e => cases hrun
  | ok b =>
      obtain ⟨rfl, -⟩ := Prod.mk.inj (Except.ok.inj hrun)
      exact h b rfl

theorem Gives.lookup {r : Except PoolError α} (h : ∀ a, r = .ok a → P a) :
    Gives (Decoder.lookup r) P := by
  apply Gives.lift
  intro a ha
  cases r with
  | error e => cases ha
  | ok b =>
      obtain rfl := Except.ok.inj ha
      exact h b rfl

theorem Gives.onBytes (h : Gives d P) {bytes : List UInt8} {a : α}
    (hrun : Decoder.onBytes bytes d = .ok a) : P a := by
  rw [Decoder.onBytes, StateT.run] at hrun
  cases hstep : d ⟨0, bytes⟩ with
  | error e =>
      rw [hstep] at hrun
      cases hrun
  | ok p =>
      rw [hstep] at hrun
      obtain rfl := Except.ok.inj hrun
      exact h hstep

theorem gives_repeatedOnto {d : Nat → Decoder α} (h : ∀ i, Gives (d i) P) {acc : List α}
    (hacc : ∀ a ∈ acc, P a) (n i : Nat) : Gives (repeatedOnto d acc n i) fun as =>
      as.length = acc.length + n ∧ ∀ a ∈ as, P a := by
  induction n generalizing acc i with
  | zero => exact .pure ⟨by simp, by simpa using hacc⟩
  | succ n ih =>
      rw [repeatedOnto]
      refine (h i).bind fun a ha => ?_
      have hall : ∀ b ∈ a :: acc, P b := by simpa using ⟨ha, hacc⟩
      refine (ih hall (i + 1)).mono ?_
      rintro as ⟨hlength, has⟩
      rw [List.length_cons] at hlength
      exact ⟨by omega, has⟩

theorem gives_repeated {d : Nat → Decoder α} (h : ∀ i, Gives (d i) P) (n i : Nat) :
    Gives (repeated d n i) fun as => ∀ a ∈ as, P a :=
  (gives_repeatedOnto h (by simp) n i).mono fun _ has => has.2

/-- A list that is counted in two bytes is short. -/
theorem gives_counted {d : Nat → Decoder α} (h : ∀ i, Gives (d i) P) :
    Gives (counted d) fun as => as.length ≤ 65535 ∧ ∀ a ∈ as, P a := by
  apply Gives.after
  intro n
  refine (gives_repeatedOnto h (by simp) n.toNat 0).mono ?_
  rintro as ⟨hlength, has⟩
  have hn := n.toNat_lt
  rw [List.length_nil] at hlength
  exact ⟨by omega, has⟩

theorem gives_bytes (n : Nat) : Gives (bytes n) fun bs => bs.length = n := by
  intro s bs s' hrun
  rw [bytes] at hrun
  split at hrun
  case isTrue hlength =>
    obtain ⟨rfl, -⟩ := Prod.mk.inj (Except.ok.inj hrun)
    exact hlength
  case isFalse => cases hrun

end Rules

end Decoder

open Decoder

/-! The pool -/

/-- An entry as it is decoded: one that its written form determines and that a bundle can hold. -/
def DecodedEntry (k : Constant) : Prop :=
  k.Canonical ∧ k.Packable

theorem gives_decodeLink (kind : LinkKind) : Gives (decodeLink kind) DecodedEntry := by
  rw [decodeLink]
  cases hshape : kind.shape with
  | one =>
      apply Gives.after
      intro first
      apply Gives.pure
      simp [DecodedEntry, Constant.Canonical, Constant.Packable, hshape]
  | two =>
      apply Gives.after
      intro first
      apply Gives.after
      intro second
      apply Gives.pure
      simp [DecodedEntry, Constant.Canonical, Constant.Packable, hshape]
  | handle =>
      apply Gives.after
      intro first
      apply Gives.after
      intro second
      apply Gives.pure
      have hfirst := first.toNat_lt
      simp [DecodedEntry, Constant.Canonical, Constant.Packable, hshape]
      omega

theorem gives_text (n : UInt16) : Gives (do
    let bs ← bytes n.toNat
    pure (.utf8 (ModifiedUtf8.decode bs))) DecodedEntry := by
  refine (gives_bytes n.toNat).bind fun bs hbs => .pure ?_
  have hn := n.toNat_lt
  have hlength := ModifiedUtf8.length_decode_le bs
  have hvalid := ModifiedUtf8.isValid_decode bs
  exact ⟨hvalid, hvalid, by omega⟩

theorem gives_decodeConstant (i : Nat) : Gives (decodeConstant i) DecodedEntry := by
  rw [decodeConstant]
  apply Gives.after
  intro tag
  cases LinkKind.ofTag? tag with
  | some kind => exact (gives_decodeLink kind).inside _
  | none =>
      dsimp only
      split
      case isFalse => exact .throw
      apply Gives.inside
      split
      case isTrue => exact .after fun n => gives_text n
      split
      case isTrue =>
        have hback (v : UInt32) : v.toInt32.toInt64.toInt32.toInt64 = v.toInt32.toInt64 := by simp
        exact .after fun v => .pure ⟨hback v, trivial⟩
      split
      case isTrue => exact .after fun v => .pure ⟨.inr ⟨v, rfl⟩, trivial⟩
      split
      case isTrue => exact .after fun v => .pure ⟨trivial, trivial⟩
      case isFalse => exact .after fun v => .pure ⟨trivial, trivial⟩

/-- A long or double takes up two of the slots that were announced, unless it is in the last. -/
theorem gives_decodeEntriesOnto (acc : List Constant) (n i : Nat) :
    Gives (decodeEntriesOnto acc n i) fun ks => ∃ new, ks = acc.reverse ++ new ∧ new.length = n ∧
      RestorableEntries new ∧ ∀ k ∈ new, k = .blank ∨ DecodedEntry k := by
  induction n using Nat.strongRecOn generalizing acc i with
  | _ n ih =>
      cases n with
      | zero =>
          rw [decodeEntriesOnto]
          exact .pure ⟨[], by simp, rfl, .nil, by simp⟩
      | succ n =>
          rw [decodeEntriesOnto]
          refine (gives_decodeConstant i).bind fun k hk => ?_
          split
          case isFalse hwide =>
            refine (ih n (by omega) (k :: acc) (i + 1)).mono ?_
            rintro ks ⟨new, rfl, rfl, hentries, hnew⟩
            exact ⟨k :: new, by simp, by simp, .narrow hk.1 (by simpa using hwide) hentries,
              by simpa using ⟨.inr hk, hnew⟩⟩
          case isTrue hwide =>
            cases n with
            | zero => exact .pure ⟨[k], by simp, rfl, .last hk.1 hwide, by simpa using .inr hk⟩
            | succ n =>
                refine (ih n (by omega) (.blank :: k :: acc) (i + 2)).mono ?_
                rintro ks ⟨new, rfl, rfl, hentries, hnew⟩
                exact ⟨k :: .blank :: new, by simp, by simp, .wide hk.1 hwide hentries,
                  by simpa using ⟨.inr hk, hnew⟩⟩

/-- A pool as it is decoded. -/
structure DecodedPool (pool : Array Constant) : Prop where
  size : pool.size ≤ 65535
  entries : ∀ k ∈ pool, k = .blank ∨ DecodedEntry k
  slots : pool = #[] ∨ RestorablePool pool

theorem gives_decodePool : Gives decodePool DecodedPool := by
  rw [decodePool]
  refine .after fun count => ?_
  split
  case isTrue => exact .pure ⟨by simp, by simp, .inl rfl⟩
  case isFalse =>
    refine (gives_decodeEntriesOnto [] _ _).bind ?_
    rintro entries ⟨_, rfl, hlength, hentries, hall⟩
    have hcount := count.toNat_lt
    refine .pure ⟨?_, by simpa using hall, .inr ⟨entries, rfl, hentries⟩⟩
    rw [List.size_toArray, List.length_cons]
    omega

/-! Names -/

section Names

variable {c : ClassFile} {i : UInt16} {t : Text}

theorem mem_of_constant {k : Constant} (h : c.constant i = .ok k) : k ∈ c.pool :=
  Array.mem_of_getElem? (holdsAt_of_constant h).2

/-- A text is found in the pool. -/
theorem mem_of_utf8 (h : c.utf8 i = .ok t) : .utf8 t ∈ c.pool :=
  Array.mem_of_getElem? (holdsAt_of_utf8 h).2

theorem mem_of_className (h : c.className i = .ok t) : .utf8 t ∈ c.pool := by
  obtain ⟨first, second, _, htext⟩ := holdsClass_of_className h
  exact Array.mem_of_getElem? htext

theorem DecodedPool.holdsText (hpool : DecodedPool c.pool) (h : .utf8 t ∈ c.pool) :
    HoldsText t := by
  rcases hpool.entries _ h with hblank | hentry
  · cases hblank
  · exact hentry.2

theorem holdsText_nil : HoldsText [] := by decide +kernel

theorem gives_utf8 (hpool : DecodedPool c.pool) (i : UInt16) :
    Gives (lookup (c.utf8 i)) HoldsText :=
  .lookup fun _ h => hpool.holdsText (mem_of_utf8 h)

theorem gives_className (hpool : DecodedPool c.pool) (i : UInt16) :
    Gives (lookup (c.className i)) HoldsText :=
  .lookup fun _ h => hpool.holdsText (mem_of_className h)

theorem gives_optionalClassName (hpool : DecodedPool c.pool) (place : Text) (i : UInt16) :
    Gives (optionalClassName c place i) HoldsText := by
  rw [optionalClassName]
  split
  case isTrue => exact .pure holdsText_nil
  case isFalse => exact (gives_className hpool i).inside place

/-! Members -/

theorem gives_decodeField (hpool : DecodedPool c.pool) (i : Nat) :
    Gives (decodeField c i) fun f => HoldsText f.name ∧ HoldsText f.descriptor := by
  refine .after fun flags => .after fun nameIndex => ?_
  refine ((gives_utf8 hpool nameIndex).inside _).bind fun name hname => .after fun descIndex => ?_
  refine ((gives_utf8 hpool descIndex).inside _).bind fun descriptor hdescriptor => ?_
  exact .after fun attrs => .pure ⟨hname, hdescriptor⟩

theorem gives_decodeHandler (hpool : DecodedPool c.pool) (i : Nat) :
    Gives (decodeHandler c i) fun h => HoldsText h.catchType := by
  refine .after fun start => .after fun stop => .after fun target => .after fun catchIndex => ?_
  exact (gives_optionalClassName hpool _ catchIndex).bind fun catchType hcatch => .pure hcatch

/-- A body is short but for its lines. -/
theorem gives_decodeCode (hpool : DecodedPool c.pool) : Gives (decodeCode c) fun body =>
    body.lines.length ≤ Cbor.maxElements → body.Packable := by
  refine .after fun maxStack => .after fun maxLocals => .after fun size => ?_
  refine (gives_bytes size.toNat).bind fun bytecode hbytecode => ?_
  refine (gives_counted fun i => gives_decodeHandler hpool i).bind fun handlers hhandlers => ?_
  refine .after fun attrs => .after fun lines => .pure fun hlines => ?_
  have hsize := size.toNat_lt
  constructor
  · rw [List.size_toArray, hbytecode]
    omega
  · exact hhandlers.1.trans (by decide)
  · exact hhandlers.2
  · exact hlines

theorem decodeThrows_holdsText (hpool : DecodedPool c.pool) {a : Attribute} {names : List Text}
    (h : decodeThrows c a = .ok names) : ∀ name ∈ names, HoldsText name := by
  rw [decodeThrows] at h
  split at h
  case h_1 =>
    obtain rfl := Except.ok.inj h
    simp
  case h_2 =>
    exact (gives_repeated (fun _ => .after fun i => gives_className hpool i) _ _).onBytes h

/-- A method as it is decoded, where its attributes have been read so far. -/
structure DecodedMethod (m : MethodInfo) : Prop where
  name : HoldsText m.name
  descriptor : HoldsText m.descriptor
  code : ∀ body ∈ m.code, body.lines.length ≤ Cbor.maxElements → body.Packable
  throws : ∀ name ∈ m.throws, HoldsText name

theorem DecodedMethod.apply (hpool : DecodedPool c.pool) {m m' : MethodInfo} {a : Attribute}
    (hm : DecodedMethod m) (h : applyMethodAttribute c m a = .ok m') : DecodedMethod m' := by
  rw [applyMethodAttribute] at h
  split at h
  case isTrue =>
    cases hcode : onBytes a.data (decodeCode c) with
    | error e =>
        rw [hcode] at h
        cases h
    | ok body =>
        rw [hcode] at h
        obtain rfl := Except.ok.inj h
        have hbody := (gives_decodeCode hpool).onBytes hcode
        refine ⟨hm.name, hm.descriptor, ?_, hm.throws⟩
        intro other hother
        obtain rfl := Option.some.inj hother
        exact hbody
  split at h
  case isTrue =>
    cases hthrows : decodeThrows c a with
    | error e =>
        rw [hthrows] at h
        cases h
    | ok names =>
        rw [hthrows] at h
        obtain rfl := Except.ok.inj h
        have hnames := decodeThrows_holdsText hpool hthrows
        refine ⟨hm.name, hm.descriptor, hm.code, ?_⟩
        intro name hname
        exact (List.mem_append.mp hname).elim (hm.throws name) (hnames name)
  case isFalse =>
    obtain rfl := Except.ok.inj h
    exact hm

theorem DecodedMethod.applyAll (hpool : DecodedPool c.pool) {attrs : List Attribute}
    {m m' : MethodInfo} (hm : DecodedMethod m)
    (h : attrs.foldlM (applyMethodAttribute c) m = .ok m') : DecodedMethod m' := by
  induction attrs generalizing m with
  | nil =>
      obtain rfl := Except.ok.inj h
      exact hm
  | cons a attrs ih =>
      rw [List.foldlM_cons] at h
      cases hstep : applyMethodAttribute c m a with
      | error e =>
          rw [hstep] at h
          cases h
      | ok m₁ =>
          rw [hstep] at h
          exact ih (hm.apply hpool hstep) h

theorem gives_decodeMethod (hpool : DecodedPool c.pool) (i : Nat) :
    Gives (decodeMethod c i) DecodedMethod := by
  refine .after fun flags => .after fun nameIndex => ?_
  refine ((gives_utf8 hpool nameIndex).inside _).bind fun name hname => .after fun descIndex => ?_
  refine ((gives_utf8 hpool descIndex).inside _).bind fun descriptor hdescriptor => ?_
  refine .after fun attrs => .lift fun m hm => ?_
  have hstart : DecodedMethod ⟨name, descriptor, ⟨flags⟩, none, []⟩ :=
    ⟨hname, hdescriptor, by simp, by simp⟩
  exact hstart.applyAll hpool hm

theorem DecodedMethod.packable {m : MethodInfo} (h : DecodedMethod m) (hm : m.Bounded) :
    m.Packable where
  name := h.name
  descriptor := h.descriptor
  code body hbody := h.code body hbody (hm.lines body hbody)
  throws := hm.throws
  throws_texts := h.throws

end Names

/-! The class -/

/-- A class as it is decoded, where its attributes have been read so far. -/
structure Decoded (c : ClassFile) : Prop where
  pool : DecodedPool c.pool
  name : HoldsText c.name
  superName : HoldsText c.superName
  interfaces : c.interfaces.length ≤ 65535 ∧ ∀ name ∈ c.interfaces, HoldsText name
  fields : c.fields.length ≤ 65535 ∧ ∀ f ∈ c.fields, HoldsText f.name ∧ HoldsText f.descriptor
  methods : c.methods.length ≤ 65535 ∧ ∀ m ∈ c.methods, DecodedMethod m
  sourceFile : HoldsText c.sourceFile

theorem Decoded.apply {c c' : ClassFile} {a : Attribute} (hc : Decoded c)
    (h : applyClassAttribute c a = .ok c') : Decoded c' := by
  rw [applyClassAttribute] at h
  split at h
  case isFalse =>
    obtain rfl := Except.ok.inj h
    exact hc
  split at h
  case h_2 =>
    obtain rfl := Except.ok.inj h
    exact hc
  case h_1 i _ =>
    cases hsource : c.utf8 i with
    | error e =>
        rw [hsource] at h
        cases h
    | ok source =>
        rw [hsource] at h
        obtain rfl := Except.ok.inj h
        exact { hc with sourceFile := hc.pool.holdsText (mem_of_utf8 hsource) }

theorem Decoded.applyAll {attrs : List Attribute} {c c' : ClassFile} (hc : Decoded c)
    (h : attrs.foldlM applyClassAttribute c = .ok c') : Decoded c' := by
  induction attrs generalizing c with
  | nil =>
      obtain rfl := Except.ok.inj h
      exact hc
  | cons a attrs ih =>
      rw [List.foldlM_cons] at h
      cases hstep : applyClassAttribute c a with
      | error e =>
          rw [hstep] at h
          cases h
      | ok c₁ =>
          rw [hstep] at h
          exact ih (hc.apply hstep) h

theorem gives_decodeRest (minor major : UInt16) {pool : Array Constant} (hpool : DecodedPool pool) :
    Gives (decodeRest minor major pool) Decoded := by
  refine .after fun flags => .after fun thisIndex => .after fun superIndex => ?_
  refine ((gives_className hpool thisIndex).inside _).bind fun name hname => ?_
  refine (gives_optionalClassName hpool _ superIndex).bind fun superName hsuper => ?_
  refine (gives_counted fun i => .after fun k => (gives_className hpool k).inside _).bind
    fun interfaces hinterfaces => ?_
  refine (gives_counted fun i => gives_decodeField hpool i).bind fun fields hfields => ?_
  refine (gives_counted fun i => gives_decodeMethod hpool i).bind fun methods hmethods => ?_
  refine .after fun attrs => .lift fun c hc => ?_
  exact Decoded.applyAll ⟨hpool, hname, hsuper, hinterfaces, hfields, hmethods, holdsText_nil⟩ hc

theorem decoded_of_decode {data : List UInt8} {c : ClassFile} (h : decode data = .ok c) :
    Decoded c := by
  have hdecoder : Gives decoder Decoded := by
    refine .after fun magicValue => ?_
    split
    case isTrue => exact .throw
    case isFalse =>
      refine .after fun minor => .after fun major => ?_
      exact gives_decodePool.bind fun pool hpool => gives_decodeRest minor major hpool
  exact hdecoder.onBytes h

/-- What was decoded can be bundled, unless a method has too many lines or declared exceptions. -/
theorem packable_of_decode {data : List UInt8} {c : ClassFile} (h : decode data = .ok c)
    (hmethods : ∀ m ∈ c.methods, m.Bounded) : c.Packable := by
  have hc := decoded_of_decode h
  have hlimit : 65535 ≤ Cbor.maxElements := by decide
  constructor
  · exact hc.pool.size.trans hlimit
  · intro k hk
    rcases hc.pool.entries k hk with rfl | hentry
    · trivial
    · exact hentry.2
  · exact hc.name
  · exact hc.superName
  · exact hc.interfaces.1.trans hlimit
  · exact hc.interfaces.2
  · exact hc.fields.1.trans hlimit
  · exact hc.fields.2
  · exact hc.methods.1.trans hlimit
  · exact fun m hm => (hc.methods.2 m hm).packable (hmethods m hm)
  · exact hc.sourceFile

end ClassFile

end ClassEngine
