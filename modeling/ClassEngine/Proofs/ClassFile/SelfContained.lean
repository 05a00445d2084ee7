import ClassEngine.Proofs.Bundle.Decoded
import ClassEngine.Proofs.ClassFile.Members

/-!
A class that was decoded took every name from its pool, so the pool holds each name that writing the
class asks for, those of the attributes with them. Its bodies were announced in four bytes, so their
written form can be. Main statement: `readClass_of_decode`.
-/

namespace ClassEngine

/-! What a pool lists -/

namespace ClassFile

def HasText (pool : Array Constant) (t : Text) : Prop :=
  ∃ i, HoldsAt pool i (.utf8 t)

/-- Some class entry of the pool has the name. -/
def HasClass (pool : Array Constant) (name : Text) : Prop :=
  ∃ i, HoldsClass pool i name

end ClassFile

open ClassFile (HasText HasClass)

/-- The pool lists all that a field is written with. -/
structure Field.ListedIn (pool : Array Constant) (f : Field) : Prop where
  name : HasText pool f.name
  descriptor : HasText pool f.descriptor
  value : f.constantValue ≠ 0 → HasText pool "ConstantValue"

/-- The pool lists all that a body is written with. -/
structure Code.ListedIn (pool : Array Constant) (c : Code) : Prop where
  catchTypes : ∀ h ∈ c.handlers, h.catchType = [] ∨ HasClass pool h.catchType
  lines : c.lines ≠ [] → HasText pool "LineNumberTable"

/-- The pool lists all that a method is written with. -/
structure MethodInfo.ListedIn (pool : Array Constant) (m : MethodInfo) : Prop where
  name : HasText pool m.name
  descriptor : HasText pool m.descriptor
  code : ∀ body ∈ m.code, HasText pool "Code" ∧ body.ListedIn pool
  throws : m.throws ≠ [] → HasText pool "Exceptions"
  throws_classes : ∀ name ∈ m.throws, HasClass pool name

namespace ClassFile

/-- The pool of a class lists all that the class is written with. -/
structure SelfContained (c : ClassFile) : Prop where
  name : HasClass c.pool c.name
  superName : c.superName = [] ∨ HasClass c.pool c.superName
  interfaces : ∀ name ∈ c.interfaces, HasClass c.pool name
  fields : ∀ f ∈ c.fields, f.ListedIn c.pool
  methods : ∀ m ∈ c.methods, m.ListedIn c.pool
  sourceFile : c.sourceFile ≠ [] → HasText c.pool "SourceFile" ∧ HasText c.pool c.sourceFile

/-! How many bytes a decoder takes -/

namespace Decoder

variable {α β : Type}

/-- Whatever `d` reads, the number of bytes that it takes stands in `P` to what it gives. -/
def Takes (d : Decoder α) (P : Nat → α → Prop) : Prop :=
  ∀ ⦃s a s'⦄, d s = .ok (a, s') → ∃ n, s.rest.length = n + s'.rest.length ∧ P n a

section Rules

variable {d : Decoder α} {P Q : Nat → α → Prop} {R : Nat → β → Prop}

theorem Takes.mono (h : Takes d P) (hPQ : ∀ n a, P n a → Q n a) : Takes d Q := by
  intro s a s' hrun
  obtain ⟨n, hn, ha⟩ := h hrun
  exact ⟨n, hn, hPQ n a ha⟩

theorem Takes.pure {a : α} (h : P 0 a) : Takes (pure a) P := by
  intro s b s' hrun
  obtain ⟨rfl, rfl⟩ := Prod.mk.inj (Except.ok.inj hrun)
  exact ⟨0, by simp, h⟩

theorem Takes.bind {f : α → Decoder β} (hd : Takes d P)
    (hf : ∀ n a, P n a → Takes (f a) fun k b => R (n + k) b) : Takes (d >>= f) R := by
  intro s b s'' hrun
  change (d s >>= fun p => f p.1 p.2) = .ok (b, s'') at hrun
  cases hstep : d s with
  | error e =>
      rw [hstep] at hrun
      cases hrun
  | ok p =>
      obtain ⟨a, s'⟩ := p
      rw [hstep] at hrun
      obtain ⟨n, hn, ha⟩ := hd hstep
      obtain ⟨k, hk, hb⟩ := hf n a ha hrun
      dsimp only at hk
      exact ⟨n + k, by omega, hb⟩

theorem Takes.inside (h : Takes d P) (place : Text) : Takes (Decoder.inside place d) P := by
  intro s a s' hrun
  rw [Decoder.inside] at hrun
  cases hstep : d s with
  | error e =>
      rw [hstep] at hrun
      cases hrun
  | ok p =>
      rw [hstep] at hrun
      obtain rfl := Except.ok.inj hrun
      exact h hstep

theorem Takes.lift {r : Except DecodeError α} (h : ∀ a, r = .ok a → P 0 a) :
    Takes (liftM r : Decoder α) P := by
  intro s a s' hrun
  cases r with
  | error e => cases hrun
  | ok b =>
      obtain ⟨rfl, rfl⟩ := Prod.mk.inj (Except.ok.inj hrun)
      exact ⟨0, by simp, h b rfl⟩

theorem Takes.lookup {r : Except PoolError α} (h : ∀ a, r = .ok a → P 0 a) :
    Takes (Decoder.lookup r) P := by
  apply Takes.lift
  intro a ha
  cases r with
  | error e => cases ha
  | ok b =>
      obtain rfl := Except.ok.inj ha
      exact h b rfl

theorem Takes.onBytes (h : Takes d P) {bytes : List UInt8} {a : α}
    (hrun : Decoder.onBytes bytes d = .ok a) : ∃ n ≤ bytes.length, P n a := by
  rw [Decoder.onBytes, StateT.run] at hrun
  cases hstep : d ⟨0, bytes⟩ with
  | error e =>
      rw [hstep] at hrun
      cases hrun
  | ok p =>
      obtain ⟨b, s'⟩ := p
      rw [hstep] at hrun
      obtain rfl := Except.ok.inj hrun
      obtain ⟨n, hn, ha⟩ := h hstep
      dsimp only at hn
      exact ⟨n, by omega, ha⟩

theorem takes_u2 : Takes u2 fun n _ => n = 2 := by
  intro s v s' hrun
  rw [u2] at hrun
  split at hrun
  case h_1 a b rest hrest =>
    obtain ⟨-, rfl⟩ := Prod.mk.inj (Except.ok.inj hrun)
    refine ⟨2, ?_, rfl⟩
    simp only [hrest, List.length_cons]
    omega
  case h_2 => cases hrun

theorem takes_u4 : Takes u4 fun n _ => n = 4 := by
  intro s v s' hrun
  rw [u4] at hrun
  split at hrun
  case h_1 a b c d rest hrest =>
    obtain ⟨-, rfl⟩ := Prod.mk.inj (Except.ok.inj hrun)
    refine ⟨4, ?_, rfl⟩
    simp only [hrest, List.length_cons]
    omega
  case h_2 => cases hrun

theorem takes_bytes (size : Nat) : Takes (bytes size) fun n bs => n = size ∧ bs.length = size := by
  intro s bs s' hrun
  rw [bytes] at hrun
  split at hrun
  case isTrue hlength =>
    obtain ⟨rfl, rfl⟩ := Prod.mk.inj (Except.ok.inj hrun)
    rw [List.length_take] at hlength
    refine ⟨size, ?_, rfl, by rw [List.length_take, hlength]⟩
    rw [List.length_drop]
    omega
  case isFalse => cases hrun

/-- An index takes two bytes, or there are none and it is no index. -/
theorem takes_index : Takes index fun n i => n = 2 ∨ i = 0 := by
  intro s i s' hrun
  rw [index] at hrun
  cases hstep : u2 s with
  | ok r =>
      rw [hstep] at hrun
      obtain rfl := Except.ok.inj hrun
      obtain ⟨n, hn, htwo⟩ := takes_u2 hstep
      exact ⟨n, hn, .inl htwo⟩
  | error e =>
      rw [hstep] at hrun
      obtain ⟨rfl, rfl⟩ := Prod.mk.inj (Except.ok.inj hrun)
      exact ⟨0, by simp, .inr rfl⟩

/-- Items of known sizes take their sizes together. -/
theorem takes_repeatedOnto {d : Nat → Decoder α} {size : α → Nat}
    (h : ∀ i, Takes (d i) fun n a => size a ≤ n) (acc : List α) (k i : Nat) :
    Takes (repeatedOnto d acc k i) fun n as =>
      ∃ new, as = acc.reverse ++ new ∧ (new.map size).sum ≤ n := by
  induction k generalizing acc i with
  | zero => exact .pure ⟨[], by simp, by simp⟩
  | succ k ih =>
      rw [repeatedOnto]
      refine (h i).bind fun n a hn => (ih (a :: acc) (i + 1)).mono ?_
      rintro m as ⟨new, rfl, hnew⟩
      refine ⟨a :: new, by simp, ?_⟩
      rw [List.map_cons, List.sum_cons]
      omega

theorem takes_counted {d : Nat → Decoder α} {size : α → Nat}
    (h : ∀ i, Takes (d i) fun n a => size a ≤ n) :
    Takes (counted d) fun n as => 2 + (as.map size).sum ≤ n := by
  refine takes_u2.bind fun n count hn => (takes_repeatedOnto h [] _ _).mono ?_
  rintro m as ⟨_, rfl, hsum⟩
  omega

end Rules

end Decoder

open Decoder

/-! The length of a body -/

/-- The number of bytes that an attribute takes. -/
def Attribute.length (a : Attribute) : Nat := 6 + a.data.length

variable {c : ClassFile}

theorem takes_decodeAttributes : Takes (decodeAttributes c) fun n attrs =>
    2 + (attrs.map Attribute.length).sum ≤ n := by
  apply takes_counted
  intro _
  refine takes_index.bind fun n i hi => ?_
  have hname : Takes (lookup (c.utf8 i)) fun k _ => k = 0 ∧ n = 2 := by
    refine .lookup fun name h => ⟨rfl, hi.resolve_right ?_⟩
    exact (holdsAt_of_utf8 h).1
  refine (hname.inside _).bind fun k name hk => takes_u4.bind fun l size hl => ?_
  refine (takes_bytes _).bind fun l' data hdata => .pure ?_
  simp only [Attribute.length]
  omega

theorem takes_decodeHandler (i : Nat) : Takes (decodeHandler c i) fun n _ => 8 ≤ n := by
  refine takes_u2.bind fun n₁ start h₁ => takes_u2.bind fun n₂ stop h₂ => ?_
  refine takes_u2.bind fun n₃ target h₃ => takes_u2.bind fun n₄ catchIndex h₄ => ?_
  have hcatch : ∀ place, Takes (optionalClassName c place catchIndex) fun k _ => k = 0 := by
    intro place
    rw [optionalClassName]
    split
    case isTrue => exact .pure rfl
    case isFalse => exact (Takes.lookup fun _ _ => rfl).inside _
  refine (hcatch _).bind fun k catchType hk => .pure ?_
  omega

theorem takes_decodeLine : Takes decodeLine fun n _ => 4 ≤ n := by
  refine takes_u2.bind fun n₁ start h₁ => takes_u2.bind fun n₂ line h₂ => .pure ?_
  omega

/-- The lines of a body were in its attributes, and no attribute of lines is without a head. -/
theorem length_lines_le {attrs : List Attribute} {lines : List LineNumber}
    (h : decodeLineTables attrs = .ok lines) :
    lines = [] ∨ 8 + 4 * lines.length ≤ (attrs.map Attribute.length).sum := by
  induction attrs generalizing lines with
  | nil =>
      obtain rfl := Except.ok.inj h
      exact .inl rfl
  | cons a attrs ih =>
      rw [decodeLineTables] at h
      rw [List.map_cons, List.sum_cons]
      split at h
      case isFalse => exact (ih h).imp_right fun hle => by omega
      cases htable : onBytes a.data (counted fun _ => decodeLine) with
      | error e =>
          rw [htable] at h
          cases h
      | ok front =>
          cases hback : decodeLineTables attrs with
          | error e =>
              rw [htable, hback] at h
              cases h
          | ok back =>
              rw [htable, hback] at h
              obtain rfl : front ++ back = lines := Except.ok.inj h
              obtain ⟨n, hn, hfront⟩ := (takes_counted fun _ => takes_decodeLine).onBytes htable
              rw [List.map_const', List.sum_replicate_nat] at hfront
              right
              rw [Attribute.length, List.length_append]
              rcases ih hback with rfl | hle
              · simp only [List.length_nil]
                omega
              · omega

/-- A body takes at least the bytes in which it is written. -/
theorem takes_decodeCode : Takes (decodeCode c) fun n body => codeLength body ≤ n := by
  refine takes_u2.bind fun n₁ maxStack h₁ => takes_u2.bind fun n₂ maxLocals h₂ => ?_
  refine takes_u4.bind fun n₃ size h₃ => (takes_bytes _).bind fun n₄ bytecode h₄ => ?_
  refine (takes_counted takes_decodeHandler).bind fun n₅ handlers h₅ => ?_
  refine takes_decodeAttributes.bind fun n₆ attrs h₆ => ?_
  have htables : Takes (liftM (decodeLineTables attrs)) fun n lines =>
      n = 0 ∧ linesLength lines ≤ n₆ := by
    refine .lift fun lines hlines => ⟨rfl, ?_⟩
    rw [linesLength]
    rcases length_lines_le hlines with rfl | hle
    · simp only [List.isEmpty_nil, if_true]
      omega
    · split
      case isTrue => omega
      case isFalse => omega
  refine htables.bind fun n₇ lines h₇ => .pure ?_
  rw [List.map_const', List.sum_replicate_nat] at h₅
  simp only [codeLength, List.size_toArray]
  omega

/-! Where names come from -/

theorem gives_utf8_listed (i : UInt16) : Gives (lookup (c.utf8 i)) (HasText c.pool) :=
  .lookup fun _ h => ⟨i, (holdsAt_of_utf8 h).2⟩

theorem gives_className_listed (i : UInt16) : Gives (lookup (c.className i)) (HasClass c.pool) :=
  .lookup fun _ h => ⟨i, holdsClass_of_className h⟩

theorem gives_optionalClassName_listed (place : Text) (i : UInt16) :
    Gives (optionalClassName c place i) fun name => name = [] ∨ HasClass c.pool name := by
  rw [optionalClassName]
  split
  case isTrue => exact .pure (.inl rfl)
  case isFalse => exact ((gives_className_listed i).inside _).mono fun _ h => .inr h

/-- An attribute as it is decoded: its name is listed, and its length was given in four bytes. -/
structure DecodedAttribute (pool : Array Constant) (a : Attribute) : Prop where
  name : HasText pool a.name
  data : a.data.length < 4294967296

theorem gives_decodeAttributes : Gives (decodeAttributes c) fun attrs =>
    ∀ a ∈ attrs, DecodedAttribute c.pool a := by
  refine (gives_counted fun _ => ?_).mono fun _ h => h.2
  refine .after fun i => ((gives_utf8_listed i).inside _).bind fun name hname => ?_
  refine .after fun size => (gives_bytes _).bind fun data hdata => .pure ⟨hname, ?_⟩
  have hsize := size.toNat_lt
  dsimp only
  omega

/-- An attribute whose name is the one that is looked for is listed under that name. -/
theorem DecodedAttribute.listed {pool : Array Constant} {a : Attribute} {name : Text}
    (ha : DecodedAttribute pool a) (hname : (a.name == name) = true) : HasText pool name :=
  beq_iff_eq.mp hname ▸ ha.name

theorem gives_decodeField_listed (i : Nat) : Gives (decodeField c i) (Field.ListedIn c.pool) := by
  refine .after fun flags => .after fun nameIndex => ?_
  refine ((gives_utf8_listed nameIndex).inside _).bind fun name hname => .after fun descIndex => ?_
  refine ((gives_utf8_listed descIndex).inside _).bind fun descriptor hdescriptor => ?_
  refine (gives_decodeAttributes.inside _).bind fun attrs hattrs => .pure ⟨hname, hdescriptor, ?_⟩
  -- a value that is not 0 was given by some attribute
  intro hvalue
  cases hnamed : attrs.filter fun a => a.name == ("ConstantValue" : Text) with
  | nil =>
      rw [hnamed] at hvalue
      exact absurd rfl hvalue
  | cons a rest =>
      have ha : a ∈ attrs.filter fun a => a.name == ("ConstantValue" : Text) := by simp [hnamed]
      obtain ⟨hin, hname⟩ := List.mem_filter.mp ha
      exact (hattrs a hin).listed hname

theorem decodeLineTables_listed {attrs : List Attribute} {lines : List LineNumber}
    (hattrs : ∀ a ∈ attrs, DecodedAttribute c.pool a) (h : decodeLineTables attrs = .ok lines)
    (hne : lines ≠ []) : HasText c.pool "LineNumberTable" := by
  induction attrs generalizing lines with
  | nil => exact absurd (Except.ok.inj h).symm hne
  | cons a attrs ih =>
      rw [decodeLineTables] at h
      split at h
      case isTrue hname => exact (hattrs a List.mem_cons_self).listed hname
      case isFalse => exact ih (fun b hb => hattrs b (List.mem_cons_of_mem a hb)) h hne

theorem gives_decodeHandler_listed (i : Nat) : Gives (decodeHandler c i) fun h =>
    h.catchType = [] ∨ HasClass c.pool h.catchType := by
  refine .after fun start => .after fun stop => .after fun target => .after fun catchIndex => ?_
  exact (gives_optionalClassName_listed _ catchIndex).bind fun catchType hcatch => .pure hcatch

theorem gives_decodeCode_listed : Gives (decodeCode c) fun body =>
    body.handlers.length ≤ 65535 ∧ body.ListedIn c.pool := by
  refine .after fun maxStack => .after fun maxLocals => .after fun size => .after fun bytecode => ?_
  refine (gives_counted gives_decodeHandler_listed).bind fun handlers hhandlers => ?_
  refine gives_decodeAttributes.bind fun attrs hattrs => ?_
  have htables : Gives (liftM (decodeLineTables attrs)) fun lines =>
      lines ≠ [] → HasText c.pool "LineNumberTable" :=
    .lift fun lines hlines => decodeLineTables_listed hattrs hlines
  exact htables.bind fun lines hlines => .pure ⟨hhandlers.1, hhandlers.2, hlines⟩

theorem decodeThrows_listed {a : Attribute} {names : List Text} (h : decodeThrows c a = .ok names) :
    ∀ name ∈ names, HasClass c.pool name := by
  rw [decodeThrows] at h
  split at h
  case h_1 =>
    obtain rfl := Except.ok.inj h
    simp
  case h_2 => exact (gives_repeated (fun _ => .after gives_className_listed) _ _).onBytes h

/-- The handlers of a body can be counted in two bytes, and its length can be given in four. -/
structure Measurable (body : Code) : Prop where
  handlers : body.handlers.length ≤ 65535
  length : codeLength body < 4294967296

/-- A method whose attributes have been read so far. -/
structure ReadMethod (pool : Array Constant) (m : MethodInfo) : Prop where
  listed : m.ListedIn pool
  body : ∀ body ∈ m.code, Measurable body

theorem ReadMethod.apply {m m' : MethodInfo} {a : Attribute} (hm : ReadMethod c.pool m)
    (ha : DecodedAttribute c.pool a) (h : applyMethodAttribute c m a = .ok m') :
    ReadMethod c.pool m' := by
  rw [applyMethodAttribute] at h
  split at h
  case isTrue hname =>
    cases hcode : onBytes a.data (decodeCode c) with
    | error e =>
        rw [hcode] at h
        cases h
    | ok body =>
        rw [hcode] at h
        obtain rfl := Except.ok.inj h
        obtain ⟨n, hn, hlength⟩ := takes_decodeCode.onBytes hcode
        obtain ⟨hhandlers, hlisted⟩ := gives_decodeCode_listed.onBytes hcode
        constructor
        · refine { hm.listed with code := ?_ }
          intro other hother
          obtain rfl := Option.some.inj hother
          exact ⟨ha.listed hname, hlisted⟩
        · intro other hother
          obtain rfl := Option.some.inj hother
          exact ⟨hhandlers, hlength.trans_lt (hn.trans_lt ha.data)⟩
  split at h
  case isTrue hname =>
    cases hthrows : decodeThrows c a with
    | error e =>
        rw [hthrows] at h
        cases h
    | ok names =>
        rw [hthrows] at h
        obtain rfl := Except.ok.inj h
        have hnames := decodeThrows_listed hthrows
        refine ⟨{ hm.listed with throws := fun _ => ha.listed hname, throws_classes := ?_ }, hm.body⟩
        intro name hin
        exact (List.mem_append.mp hin).elim (hm.listed.throws_classes name) (hnames name)
  case isFalse =>
    obtain rfl := Except.ok.inj h
    exact hm

theorem ReadMethod.applyAll {attrs : List Attribute} {m m' : MethodInfo}
    (hm : ReadMethod c.pool m) (hattrs : ∀ a ∈ attrs, DecodedAttribute c.pool a)
    (h : attrs.foldlM (applyMethodAttribute c) m = .ok m') : ReadMethod c.pool m' := by
  induction attrs generalizing m with
  | nil =>
      obtain rfl := Except.ok.inj h
      exact hm
  | cons a attrs ih =>
      rw [List.foldlM_cons] at h
      cases hstep : applyMethodAttribute c m a with
      | error e =>
          rw [hstep] at h
          cases h
      | ok m₁ =>
          rw [hstep] at h
          have hm₁ := hm.apply (hattrs a List.mem_cons_self) hstep
          exact ih hm₁ (fun b hb => hattrs b (List.mem_cons_of_mem a hb)) h

theorem gives_decodeMethod_read (i : Nat) : Gives (decodeMethod c i) (ReadMethod c.pool) := by
  refine .after fun flags => .after fun nameIndex => ?_
  refine ((gives_utf8_listed nameIndex).inside _).bind fun name hname => .after fun descIndex => ?_
  refine ((gives_utf8_listed descIndex).inside _).bind fun descriptor hdescriptor => ?_
  refine (gives_decodeAttributes.inside _).bind fun attrs hattrs => .lift fun m hm => ?_
  have hlisted : MethodInfo.ListedIn c.pool ⟨name, descriptor, ⟨flags⟩, none, []⟩ :=
    ⟨hname, hdescriptor, by simp, by simp, by simp⟩
  have hstart : ReadMethod c.pool ⟨name, descriptor, ⟨flags⟩, none, []⟩ := ⟨hlisted, by simp⟩
  exact hstart.applyAll hattrs hm

/-- A class whose attributes have been read so far. -/
structure ReadClass (c : ClassFile) : Prop where
  selfContained : c.SelfContained
  bodies : ∀ m ∈ c.methods, ∀ body ∈ m.code, Measurable body

theorem ReadClass.apply {c c' : ClassFile} {a : Attribute} (hc : ReadClass c)
    (ha : DecodedAttribute c.pool a) (h : applyClassAttribute c a = .ok c') :
    ReadClass c' ∧ c'.pool = c.pool := by
  rw [applyClassAttribute] at h
  split at h
  case isFalse =>
    obtain rfl := Except.ok.inj h
    exact ⟨hc, rfl⟩
  case isTrue hname =>
    split at h
    case h_2 =>
      obtain rfl := Except.ok.inj h
      exact ⟨hc, rfl⟩
    case h_1 i _ =>
      cases hsource : c.utf8 i with
      | error e =>
          rw [hsource] at h
          cases h
      | ok source =>
          rw [hsource] at h
          obtain rfl := Except.ok.inj h
          have hlisted : HasText c.pool source := ⟨i, (holdsAt_of_utf8 hsource).2⟩
          exact ⟨⟨{ hc.selfContained with sourceFile := fun _ => ⟨ha.listed hname, hlisted⟩ },
            hc.bodies⟩, rfl⟩

theorem ReadClass.applyAll {attrs : List Attribute} {c c' : ClassFile} (hc : ReadClass c)
    (hattrs : ∀ a ∈ attrs, DecodedAttribute c.pool a)
    (h : attrs.foldlM applyClassAttribute c = .ok c') : ReadClass c' := by
  induction attrs generalizing c with
  | nil =>
      obtain rfl := Except.ok.inj h
      exact hc
  | cons a attrs ih =>
      rw [List.foldlM_cons] at h
      cases hstep : applyClassAttribute c a with
      | error e =>
          rw [hstep] at h
          cases h
      | ok c₁ =>
          rw [hstep] at h
          obtain ⟨hc₁, hpool⟩ := hc.apply (hattrs a List.mem_cons_self) hstep
          exact ih hc₁ (fun b hb => hpool ▸ hattrs b (List.mem_cons_of_mem a hb)) h

theorem gives_decodeRest_read (minor major : UInt16) (pool : Array Constant) :
    Gives (decodeRest minor major pool) ReadClass := by
  refine .after fun flags => .after fun thisIndex => .after fun superIndex => ?_
  refine ((gives_className_listed thisIndex).inside _).bind fun name hname => ?_
  refine (gives_optionalClassName_listed _ superIndex).bind fun superName hsuper => ?_
  refine (gives_counted fun i => .after fun k => (gives_className_listed k).inside _).bind
    fun interfaces hinterfaces => ?_
  refine (gives_counted gives_decodeField_listed).bind fun fields hfields => ?_
  refine (gives_counted gives_decodeMethod_read).bind fun methods hmethods => ?_
  refine (gives_decodeAttributes.inside _).bind fun attrs hattrs => .lift fun c hc => ?_
  have hstart : ReadClass
      ⟨minor, major, pool, ⟨flags⟩, name, superName, interfaces, fields, methods, []⟩ := by
    refine ⟨⟨hname, hsuper, hinterfaces.2, hfields.2, ?_, by simp⟩, ?_⟩
    · exact fun m hm => (hmethods.2 m hm).listed
    · exact fun m hm => (hmethods.2 m hm).body
  exact hstart.applyAll hattrs hc

/-- What was decoded can be written with the names of its own pool. -/
theorem readClass_of_decode {data : List UInt8} {c : ClassFile} (h : decode data = .ok c) :
    ReadClass c := by
  have hdecoder : Gives decoder ReadClass := by
    refine .after fun magicValue => ?_
    split
    case isTrue => exact .throw
    case isFalse =>
      refine .after fun minor => .after fun major => .after fun pool => ?_
      exact gives_decodeRest_read minor major pool
  exact hdecoder.onBytes h

end ClassFile

end ClassEngine
