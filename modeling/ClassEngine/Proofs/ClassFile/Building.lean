import Mathlib.Data.List.Forall2
import ClassEngine.Assembly.Source
import ClassEngine.Proofs.ClassFile.Interning

/-!
Classes that are built call by call. Entries are only added to the pool, and what was interned keeps
its index; so each index that a call has given leads back to what the call asked for, and to nothing
else. Main result: `interned_constants_are_faithful`.
-/

namespace ClassEngine

/-- A call on a class under construction. -/
inductive Builder.Call where
  | constant (k : ConstantSource)
  | implement (names : List Text)
  | sourceFile (name : Text)
  | addField (flags : AccessFlags) (name descriptor : Text)
  | addConstantField (flags : AccessFlags) (name descriptor : Text) (value : UInt16)
  | addMethod (flags : AccessFlags) (name descriptor : Text) (code : Option Code)
      (throws : List Text)

namespace Builder

/-- Makes a call. One for a constant gives an index. -/
def Call.make : Call → Build (Option UInt16)
  | .constant k => do
    let i ← k.intern
    pure (some i)
  | .implement names => do
    Builder.implement names
    pure none
  | .sourceFile name => do
    Builder.sourceFile name
    pure none
  | .addField flags name descriptor => do
    Builder.addField flags name descriptor 0
    pure none
  | .addConstantField flags name descriptor value => do
    Builder.addConstantField flags name descriptor value
    pure none
  | .addMethod flags name descriptor code throws => do
    Builder.addMethod flags name descriptor code throws
    pure none

/-- What the calls give, one after the other, and the class that they build. -/
def makeAll (name superName : Text) (flags : AccessFlags) (calls : List Call) :
    List (Option UInt16) × ClassFile :=
  let (answers, b) := (calls.mapM Call.make) (start name superName flags)
  (answers, b.file)

end Builder

/-- The entry at an index consists of indices, in the way of this kind. -/
def ClassFile.IsLink (c : ClassFile) (i : UInt16) (kind : LinkKind) : Prop :=
  ∃ first second, c.constant i = .ok (.link kind first second)

namespace ConstantSource

/-- The constants that are texts, integers, or names made up of texts. -/
def IsSymbol : ConstantSource → Prop
  | int _ | long _ | string _ | classRef _ | utf8 _ | nameAndType _ _ => True
  | member kind _ _ _ => kind.isMember = true
  | float _ | double _ | index _ => False

/-- The entry at an index is of the kind of this constant, and is read as it. -/
def ReadAt (c : ClassFile) (i : UInt16) : ConstantSource → Prop
  | int v => c.constant i = .ok (.integer v.toInt64)
  | long v => c.constant i = .ok (.long v)
  | string t => c.IsLink i .string ∧ c.stringValue i = .ok t
  | classRef name => c.IsLink i .classRef ∧ c.className i = .ok name
  | utf8 t => c.constant i = .ok (.utf8 t) ∧ c.utf8 i = .ok t
  | nameAndType name descriptor =>
    c.IsLink i .nameAndType ∧ c.nameAndType i = .ok (name, descriptor)
  | member kind owner name descriptor =>
    c.IsLink i kind ∧ c.memberRef i = .ok (owner, name, descriptor)
  | float _ | double _ | index _ => False

end ConstantSource

/-- An index is that of the slot behind a long or double. -/
def ClassFile.IsSecondSlot (c : ClassFile) (i : UInt16) : Prop :=
  ∃ j k, c.pool[j]? = some k ∧ k.isWide = true ∧ i.toNat = j + 1

namespace Builder

/-- The most entries that indices of two bytes can tell apart, entry 0 included. -/
def maxEntries : Nat := 65536

/-- One class under construction continues another. -/
structure Grows (b b' : Builder) : Prop where
  pool : b.file.pool.toList <+: b'.file.pool.toList
  index : ∀ ⦃key : Constant⦄ ⦃i : UInt16⦄, b.index[key]? = some i → b'.index[key]? = some i

/-- Entry 0 is empty, and so is the slot behind each long or double; what was interned stands where
the index says; and every entry that is found under some key is where the index says. -/
structure Indexed (b : Builder) : Prop where
  front : b.file.pool[0]? = some .blank
  slot : ∀ ⦃j : Nat⦄ ⦃k : Constant⦄, b.file.pool[j]? = some k → k.isWide = true → b.file.pool[j + 1]? = some .blank
  holds : ∀ ⦃key : Constant⦄ ⦃i : UInt16⦄, b.index[key]? = some i →
    ∃ k, b.file.pool[i.toNat]? = some k ∧ k.internKey? = some key
  found : ∀ ⦃j : Nat⦄ ⦃k key : Constant⦄, b.file.pool[j]? = some k → k ≠ .blank →
    k.internKey? = some key → ∃ i, b.index[key]? = some i ∧ i.toNat = j

theorem Grows.refl (b : Builder) : b.Grows b :=
  ⟨List.prefix_refl _, fun _ _ h => h⟩

theorem Grows.trans {b b' b'' : Builder} (h : b.Grows b') (h' : b'.Grows b'') : b.Grows b'' :=
  ⟨h.pool.trans h'.pool, fun _ _ hk => h'.index (h.index hk)⟩

theorem Grows.size_le {b b' : Builder} (h : b.Grows b') :
    b.file.pool.size ≤ b'.file.pool.size := by
  simpa using h.pool.length_le

/-- The computation only adds to a class under construction, which stays indexed as long as there is
room; and its result stands in `Q` to every class that continues the one it leaves. -/
def Interns {α : Type} (x : Build α) (Q : Builder → α → Prop) : Prop :=
  ∀ b, b.Grows (x b).2 ∧ ((x b).2.file.pool.size ≤ maxEntries → b.Indexed → (x b).2.Indexed) ∧
    ∀ b', (x b).2.file.pool.size ≤ maxEntries → (x b).2.Grows b' → Q b' (x b).1

section Rules

variable {α β : Type} {x : Build α} {Q : Builder → α → Prop} {R : Builder → β → Prop}

theorem Interns.mono {Q' : Builder → α → Prop} (h : Interns x Q) (hQ : ∀ b a, Q b a → Q' b a) :
    Interns x Q' := by
  intro b
  obtain ⟨hgrows, hindexed, hresult⟩ := h b
  exact ⟨hgrows, hindexed, fun b' hroom hle => hQ b' _ (hresult b' hroom hle)⟩

theorem Interns.pure {a : α} (h : ∀ b, Q b a) : Interns (pure a) Q :=
  fun b => ⟨.refl b, fun _ hb => hb, fun b' _ _ => h b'⟩

theorem Interns.bind {f : α → Build β} (hx : Interns x Q)
    (hf : ∀ a, Interns (f a) fun b v => Q b a → R b v) : Interns (x >>= f) R := by
  intro b
  obtain ⟨hgrows, hindexed, hQ⟩ := hx b
  obtain ⟨hgrows', hindexed', hR⟩ := hf (x b).1 (x b).2
  have hfits : ((x >>= f) b).2.file.pool.size ≤ maxEntries →
      (x b).2.file.pool.size ≤ maxEntries := fun hroom => hgrows'.size_le.trans hroom
  refine ⟨hgrows.trans hgrows', fun hroom hb => hindexed' hroom (hindexed (hfits hroom) hb), ?_⟩
  exact fun b' hroom hle => hR b' hroom hle (hQ b' (hfits hroom) (hgrows'.trans hle))

/-- What went before does not matter. -/
theorem Interns.then {f : α → Build β} (hx : Interns x Q) (hf : ∀ a, Interns (f a) R) :
    Interns (x >>= f) R :=
  hx.bind fun a => (hf a).mono fun _ _ h _ => h

/-- What every item of a list interns, the whole list interns. -/
theorem Interns.mapM {f : α → Build β} {P : Builder → α → β → Prop}
    (h : ∀ a, Interns (f a) fun b v => P b a v) (items : List α) :
    Interns (items.mapM f) fun b vs => List.Forall₂ (P b) items vs := by
  induction items with
  | nil => exact .pure fun _ => .nil
  | cons head tail ih =>
      rw [List.mapM_cons]
      refine (h head).bind fun v => ih.bind fun vs => .pure fun b htail hhead => ?_
      exact .cons hhead htail

/-- A step that leaves the pool and the index alone. -/
theorem interns_modifyFile {f : ClassFile → ClassFile} (hf : ∀ c, (f c).pool = c.pool) :
    Interns (modifyFile f) fun _ _ => True := by
  intro b
  change b.Grows { b with file := f b.file } ∧ _
  refine ⟨⟨⟨[], by rw [hf, List.append_nil]⟩, fun _ _ h => h⟩, fun _ hb => ?_, fun _ _ _ => trivial⟩
  change Indexed { b with file := f b.file }
  exact ⟨by rw [hf]; exact hb.front, by rw [hf]; exact hb.slot, by rw [hf]; exact hb.holds,
    by rw [hf]; exact hb.found⟩

end Rules

section Entries

variable {b b' : Builder} {k key : Constant} {i : UInt16}

theorem Grows.entry (h : b.Grows b') {j : Nat} (hj : b.file.pool[j]? = some k) :
    b'.file.pool[j]? = some k := by
  obtain ⟨more, hmore⟩ := h.pool
  rw [← Array.getElem?_toList] at hj ⊢
  obtain ⟨hlt, _⟩ := List.getElem?_eq_some_iff.mp hj
  rw [← hmore, List.getElem?_append_left hlt, hj]

/-- The slots that an entry takes. -/
def slotsOf (k : Constant) : List Constant :=
  if k.isWide then [k, .blank] else [k]

theorem pool_append (k : Constant) (b : Builder) :
    (append k b).2.file.pool.toList = b.file.pool.toList ++ slotsOf k := by
  rw [append, slotsOf]
  dsimp only
  split <;> simp

theorem grows_append (k : Constant) (b : Builder) : b.Grows (append k b).2 :=
  ⟨⟨slotsOf k, (pool_append k b).symm⟩, fun _ _ h => h⟩

/-- Behind the entries that there were stand those that were added. -/
theorem append_slot (k : Constant) (b : Builder) (n : Nat) :
    (append k b).2.file.pool[b.file.pool.size + n]? = (slotsOf k)[n]? := by
  rw [← Array.getElem?_toList, pool_append, ← Array.length_toList,
    List.getElem?_append_right (Nat.le_add_right _ _), Nat.add_sub_cancel_left]

theorem append_entry (k : Constant) (b : Builder) :
    (append k b).2.file.pool[b.file.pool.size]? = some k := by
  have hslot := append_slot k b 0
  rw [Nat.add_zero] at hslot
  rw [hslot, slotsOf]
  split <;> rfl

/-- The index of an appended entry, as long as there is room for it. -/
theorem append_index (hroom : (append k b).2.file.pool.size ≤ maxEntries) :
    (append k b).1.toNat = b.file.pool.size := by
  have hentry := append_entry k b
  obtain ⟨hlt, _⟩ := Array.getElem?_eq_some_iff.mp hentry
  exact Utf16.toNat_toUInt16_of_lt (hlt.trans_le hroom)

theorem slotsOf_second {j : Nat} {k' : Constant} (hj : (slotsOf k)[j]? = some k')
    (hwide : k'.isWide = true) : (slotsOf k)[j + 1]? = some .blank := by
  unfold slotsOf at hj ⊢
  split at hj
  case isTrue hk =>
    rw [if_pos hk]
    match j with
    | 0 => rfl
    | 1 =>
        obtain rfl := Option.some.inj hj
        contradiction
    | j + 2 => simp at hj
  case isFalse hk =>
    match j with
    | 0 =>
        obtain rfl := Option.some.inj hj
        contradiction
    | j + 1 => simp at hj

/-- What stands in the pool with one more constant stood there before, is the constant, or is empty. -/
theorem append_cases {j : Nat} {k' : Constant} (hj : (append k b).2.file.pool[j]? = some k')
    (hblank : k' ≠ .blank) : b.file.pool[j]? = some k' ∨ j = b.file.pool.size ∧ k' = k := by
  by_cases hold : j < b.file.pool.size
  · obtain ⟨k₀, hk₀⟩ : ∃ k₀, b.file.pool[j]? = some k₀ := ⟨_, Array.getElem?_eq_getElem hold⟩
    obtain rfl := Option.some.inj (((grows_append k b).entry hk₀).symm.trans hj)
    exact .inl hk₀
  · obtain ⟨n, rfl⟩ := Nat.exists_eq_add_of_le (not_lt.mp hold)
    rw [append_slot] at hj
    right
    unfold slotsOf at hj
    match n with
    | 0 =>
        refine ⟨rfl, ?_⟩
        split at hj <;> exact (Option.some.inj hj).symm
    | 1 =>
        split at hj
        · exact absurd (Option.some.inj hj).symm hblank
        · contradiction
    | n + 2 => split at hj <;> simp at hj

theorem Indexed.slot_append (h : b.Indexed) {j : Nat} {k' : Constant}
    (hj : (append k b).2.file.pool[j]? = some k') (hwide : k'.isWide = true) :
    (append k b).2.file.pool[j + 1]? = some .blank := by
  by_cases hold : j < b.file.pool.size
  · obtain ⟨k₀, hk₀⟩ : ∃ k₀, b.file.pool[j]? = some k₀ := ⟨_, Array.getElem?_eq_getElem hold⟩
    obtain rfl := Option.some.inj (((grows_append k b).entry hk₀).symm.trans hj)
    exact (grows_append k b).entry (h.slot hk₀ hwide)
  · obtain ⟨n, rfl⟩ := Nat.exists_eq_add_of_le (not_lt.mp hold)
    rw [append_slot] at hj
    rw [Nat.add_assoc, append_slot]
    exact slotsOf_second hj hwide

theorem Indexed.holds_append (h : b.Indexed) {i : UInt16} (hi : b.index[key]? = some i) :
    ∃ k', (append k b).2.file.pool[i.toNat]? = some k' ∧ k'.internKey? = some key := by
  obtain ⟨k', hk', hkey⟩ := h.holds hi
  exact ⟨k', (grows_append k b).entry hk', hkey⟩

/-- A number that is found under no key is only added. -/
theorem Indexed.append (h : b.Indexed) (hkey : k.internKey? = none) : Indexed (append k b).2 where
  front := (grows_append k b).entry h.front
  slot _ _ := h.slot_append
  holds _ _ := h.holds_append
  found j k' key hj hblank hkey' := by
    obtain hold | ⟨-, rfl⟩ := append_cases hj hblank
    · exact h.found hold hblank hkey'
    · rw [hkey] at hkey'
      contradiction

/-- A constant that is new is added and remembered. -/
theorem Indexed.remember (h : b.Indexed) (hkey : k.internKey? = some key)
    (hnew : b.index[key]? = none) (hroom : (Builder.append k b).2.file.pool.size ≤ maxEntries) :
    Indexed { (Builder.append k b).2 with
      index := (Builder.append k b).2.index.insert key (Builder.append k b).1 } where
  front := (grows_append k b).entry h.front
  slot _ _ := h.slot_append
  holds key' i hi := by
    rw [Std.HashMap.getElem?_insert] at hi
    split at hi
    case isTrue hsame =>
      obtain rfl := Option.some.inj hi
      refine ⟨k, ?_, by rw [hkey, eq_of_beq hsame]⟩
      rw [append_index hroom]
      exact append_entry k b
    case isFalse => exact h.holds_append hi
  found j k' key' hj hblank hkey' := by
    obtain hold | ⟨rfl, rfl⟩ := append_cases hj hblank
    · obtain ⟨i, hi, hij⟩ := h.found hold hblank hkey'
      have hother : (key == key') = false := by
        refine beq_false_of_ne ?_
        rintro rfl
        rw [hnew] at hi
        contradiction
      refine ⟨i, ?_, hij⟩
      rw [Std.HashMap.getElem?_insert, hother]
      exact hi
    · obtain rfl := Option.some.inj (hkey.symm.trans hkey')
      exact ⟨_, Std.HashMap.getElem?_insert_self, append_index hroom⟩

theorem Grows.remember (h : b.Grows b') (hnew : b.index[key]? = none) (i : UInt16) :
    b.Grows { b' with index := b'.index.insert key i } where
  pool := h.pool
  index key' i' hi' := by
    rw [Std.HashMap.getElem?_insert]
    split
    case isTrue hsame =>
      rw [← eq_of_beq hsame, hnew] at hi'
      contradiction
    case isFalse => exact h.index hi'

theorem bind_get {α : Type} (b : Builder) (f : Builder → Build α) : (get >>= f) b = f b b :=
  rfl

theorem intern_keyless (hkey : k.internKey? = none) : intern k b = append k b := by
  rw [intern, hkey]

theorem intern_known (hkey : k.internKey? = some key) (hfound : b.index[key]? = some i) :
    intern k b = (i, b) := by
  rw [intern, hkey]
  exact (bind_get b _).trans (by rw [hfound]; rfl)

theorem intern_new (hkey : k.internKey? = some key) (hfound : b.index[key]? = none) :
    intern k b = ((append k b).1, { (append k b).2 with
      index := (append k b).2.index.insert key (append k b).1 }) := by
  rw [intern, hkey]
  exact (bind_get b _).trans (by rw [hfound]; rfl)

/-- A constant is found in the index from the time on at which it was interned. -/
theorem interns_intern (k : Constant) :
    Interns (intern k) fun b i => ∀ key, k.internKey? = some key → b.index[key]? = some i := by
  intro b
  cases hkey : k.internKey? with
  | none =>
      rw [intern_keyless hkey]
      exact ⟨grows_append k b, fun _ hb => hb.append hkey, fun _ _ _ => nofun⟩
  | some key =>
      cases hfound : b.index[key]? with
      | some i =>
          rw [intern_known hkey hfound]
          refine ⟨.refl b, fun _ hb => hb, fun b' _ hle key' hkey' => ?_⟩
          obtain rfl := Option.some.inj hkey'
          exact hle.index hfound
      | none =>
          rw [intern_new hkey hfound]
          refine ⟨(grows_append k b).remember hfound _, fun hroom hb =>
            hb.remember hkey hfound hroom, ?_⟩
          intro b' _ hle key' hkey'
          obtain rfl := Option.some.inj hkey'
          exact hle.index Std.HashMap.getElem?_insert_self

end Entries

/-! Where a symbol is found -/

/-- The entry under which a link to indexed entries is found. -/
def link? (b : Builder) (kind : LinkKind) (first second : UInt16) : Option UInt16 :=
  b.index[Constant.link kind first second]?

def text? (b : Builder) (t : Text) : Option UInt16 :=
  b.index[Constant.utf8 t]?

def class? (b : Builder) (name : Text) : Option UInt16 := do
  b.link? .classRef (← b.text? name) 0

def nameAndType? (b : Builder) (name descriptor : Text) : Option UInt16 := do
  b.link? .nameAndType (← b.text? name) (← b.text? descriptor)

/-- The index of a symbol, if it was interned. -/
def symbol? (b : Builder) : ConstantSource → Option UInt16
  | .int v => b.index[Constant.integer v.toInt64]?
  | .long v => b.index[Constant.long v]?
  | .string t => do b.link? .string (← b.text? t) 0
  | .classRef name => b.class? name
  | .utf8 t => b.text? t
  | .nameAndType name descriptor => b.nameAndType? name descriptor
  | .member kind owner name descriptor => do
    b.link? kind (← b.class? owner) (← b.nameAndType? name descriptor)
  | .float _ | .double _ | .index _ => none

theorem interns_utf8 (t : Text) : Interns (utf8 t) fun b i => b.text? t = some i :=
  (interns_intern _).mono fun _ _ h => h _ rfl

theorem interns_link (kind : LinkKind) (first second : UInt16) :
    Interns (intern (.link kind first second)) fun b i => b.link? kind first second = some i :=
  (interns_intern _).mono fun _ _ h => h _ rfl

theorem interns_classRef (name : Text) :
    Interns (classRef name) fun b i => b.class? name = some i := by
  refine (interns_utf8 name).bind fun n => (interns_link _ _ _).mono fun b i hlink hname => ?_
  rw [class?, hname]
  exact hlink

theorem interns_nameAndType (name descriptor : Text) :
    Interns (nameAndType name descriptor) fun b i => b.nameAndType? name descriptor = some i := by
  refine (interns_utf8 name).bind fun n => (interns_utf8 descriptor).bind fun d => ?_
  refine (interns_link _ _ _).mono fun b i hlink hdescriptor hname => ?_
  rw [nameAndType?, hname, hdescriptor]
  exact hlink

/-- A symbol that is asked for is found from then on. -/
theorem interns_symbol (k : ConstantSource) :
    Interns k.intern fun b i => k.IsSymbol → b.symbol? k = some i := by
  cases k with
  | int v => exact (interns_intern _).mono fun _ _ h _ => h (.integer v.toInt64) rfl
  | long v => exact (interns_intern _).mono fun _ _ h _ => h (.long v) rfl
  | string t =>
      refine (interns_utf8 t).bind fun n => (interns_link _ _ _).mono fun b i hlink htext _ => ?_
      rw [symbol?, htext]
      exact hlink
  | classRef name => exact (interns_classRef name).mono fun _ _ h _ => h
  | utf8 t => exact (interns_utf8 t).mono fun _ _ h _ => h
  | nameAndType name descriptor => exact (interns_nameAndType name descriptor).mono fun _ _ h _ => h
  | member kind owner name descriptor =>
      refine (interns_classRef owner).bind fun c => (interns_nameAndType name descriptor).bind fun n => ?_
      refine (interns_link _ _ _).mono fun b i hlink hname howner _ => ?_
      rw [symbol?, howner, hname]
      exact hlink
  | float bits => exact (interns_intern _).mono fun _ _ _ => nofun
  | double bits => exact (interns_intern _).mono fun _ _ _ => nofun
  | index i => exact .pure fun _ => nofun

/-! The calls -/

theorem interns_implement (names : List Text) : Interns (implement names) fun _ _ => True := by
  induction names with
  | nil => exact .pure fun _ => trivial
  | cons name names ih =>
      exact Interns.then ((interns_classRef name).then fun _ => interns_modifyFile fun _ => rfl)
        fun _ => ih

/-- The declaration of a member interns its name and its descriptor. -/
theorem interns_member (name descriptor : Text) {f : ClassFile → ClassFile}
    (hf : ∀ c, (f c).pool = c.pool) :
    Interns (do let _ ← utf8 name; let _ ← utf8 descriptor; modifyFile f) fun _ _ => True :=
  (interns_utf8 name).then fun _ => (interns_utf8 descriptor).then fun _ => interns_modifyFile hf

/-- What a call has asked for is found from then on. -/
theorem interns_make (call : Call) : Interns call.make fun b answer =>
    ∀ k, call = .constant k → k.IsSymbol → ∃ i, answer = some i ∧ b.symbol? k = some i := by
  cases call with
  | constant k =>
      refine (interns_symbol k).bind fun i => .pure fun b hfound k' hk' hsymbol => ?_
      obtain rfl := Call.constant.inj hk'
      exact ⟨i, rfl, hfound hsymbol⟩
  | implement names => exact (interns_implement names).then fun _ => .pure fun _ => nofun
  | sourceFile name =>
      refine Interns.then (Q := fun _ _ => True) ?_ fun _ => .pure fun _ => nofun
      exact interns_modifyFile fun _ => rfl
  | addField flags name descriptor =>
      refine Interns.then (Q := fun _ _ => True) ?_ fun _ => .pure fun _ => nofun
      exact interns_member name descriptor fun _ => rfl
  | addConstantField flags name descriptor value =>
      refine Interns.then (Q := fun _ _ => True) ?_ fun _ => .pure fun _ => nofun
      exact interns_member name descriptor fun _ => rfl
  | addMethod flags name descriptor code throws =>
      refine Interns.then (Q := fun _ _ => True) ?_ fun _ => .pure fun _ => nofun
      exact interns_member name descriptor fun _ => rfl

/-- A class with nothing in its pool. -/
theorem indexed_bare (file : ClassFile) (hpool : file.pool = #[.blank]) : Indexed ⟨file, {}⟩ where
  front := by rw [hpool]; rfl
  slot j k hj hwide := by
    rw [hpool] at hj
    match j with
    | 0 =>
        obtain rfl := Option.some.inj hj
        contradiction
    | j + 1 => simp at hj
  holds key i hi := by simp at hi
  found j k key hj hblank := by
    rw [hpool] at hj
    match j with
    | 0 => exact absurd (Option.some.inj hj).symm hblank
    | j + 1 => simp at hj

theorem interns_enter (name superName : Text) : Interns (do
    let _ ← classRef name
    if superName.isEmpty then pure ()
    else do
      let _ ← classRef superName
      pure ()) fun _ _ => True := by
  refine (interns_classRef name).bind fun _ => ?_
  split
  · exact .pure fun _ _ => trivial
  · exact (interns_classRef superName).bind fun _ => .pure fun _ _ _ => trivial

theorem indexed_start (name superName : Text) (flags : AccessFlags)
    (hroom : (start name superName flags).file.pool.size ≤ maxEntries) :
    (start name superName flags).Indexed :=
  (interns_enter name superName _).2.1 hroom (indexed_bare _ rfl)

/-! What is read at the index of a symbol -/

section Reading

variable {b : Builder} {i : UInt16} {kind : LinkKind} {first second : UInt16}

theorem Indexed.ne_zero (h : b.Indexed) {k : Constant} (hk : b.file.pool[i.toNat]? = some k)
    (hblank : k ≠ .blank) : i ≠ 0 := by
  rintro rfl
  rw [UInt16.toNat_zero, h.front] at hk
  exact hblank (Option.some.inj hk).symm

/-- The entries that are found under nothing but themselves: all but floating-point numbers. -/
def IsExact : Constant → Prop
  | .blank | .float _ | .double _ => False
  | _ => True

theorem internKey?_eq {k key : Constant} (h : k.internKey? = some key) (hkey : IsExact key) :
    k = key := by
  cases k with
  | float bits =>
      simp only [Constant.internKey?] at h
      split at h
      · contradiction
      · obtain rfl := Option.some.inj h
        contradiction
  | double bits =>
      simp only [Constant.internKey?] at h
      split at h
      · contradiction
      · obtain rfl := Option.some.inj h
        contradiction
  | _ => exact Option.some.inj h

/-- What was interned is read at its index. -/
theorem Indexed.constant (h : b.Indexed) {key : Constant} (hkey : IsExact key)
    (hi : b.index[key]? = some i) : b.file.constant i = .ok key := by
  obtain ⟨k, hk, hsame⟩ := h.holds hi
  obtain rfl := internKey?_eq hsame hkey
  have hblank : k ≠ .blank := by
    rintro rfl
    contradiction
  exact ClassFile.constant_eq (h.ne_zero hk hblank) hk

theorem Indexed.link (h : b.Indexed) (hi : b.link? kind first second = some i) :
    b.file.constant i = .ok (.link kind first second) :=
  h.constant trivial hi

theorem Indexed.utf8 (h : b.Indexed) {t : Text} (hi : b.text? t = some i) :
    b.file.constant i = .ok (.utf8 t) ∧ b.file.utf8 i = .ok t := by
  have hentry : b.file.constant i = .ok (.utf8 t) := h.constant trivial hi
  refine ⟨hentry, ?_⟩
  rw [ClassFile.utf8, hentry]
  rfl

theorem Indexed.className (h : b.Indexed) {name : Text} (hi : b.class? name = some i) :
    b.file.IsLink i .classRef ∧ b.file.className i = .ok name := by
  obtain ⟨n, hn, hlink⟩ := Option.bind_eq_some_iff.mp hi
  refine ⟨⟨n, 0, h.link hlink⟩, ?_⟩
  rw [ClassFile.className, h.link hlink]
  exact (h.utf8 hn).2

theorem Indexed.nameAndType (h : b.Indexed) {name descriptor : Text}
    (hi : b.nameAndType? name descriptor = some i) :
    b.file.IsLink i .nameAndType ∧ b.file.nameAndType i = .ok (name, descriptor) := by
  obtain ⟨n, hn, hrest⟩ := Option.bind_eq_some_iff.mp hi
  obtain ⟨d, hd, hlink⟩ := Option.bind_eq_some_iff.mp hrest
  refine ⟨⟨n, d, h.link hlink⟩, ?_⟩
  rw [ClassFile.nameAndType, h.link hlink]
  change (do
    let name ← b.file.utf8 n
    let descriptor ← b.file.utf8 d
    pure (name, descriptor)) = _
  rw [(h.utf8 hn).2, (h.utf8 hd).2]
  rfl

theorem memberRef_eq {c : ClassFile} {owner name descriptor : Text} (hkind : kind.isMember = true)
    (hi : c.constant i = .ok (.link kind first second)) (howner : c.className first = .ok owner)
    (hname : c.nameAndType second = .ok (name, descriptor)) :
    c.memberRef i = .ok (owner, name, descriptor) := by
  rw [ClassFile.memberRef, hi]
  change (if kind.isMember = true then _ else _) = _
  rw [if_pos hkind, howner, hname]
  rfl

/-- A symbol is read at its index. -/
theorem Indexed.readAt (h : b.Indexed) {k : ConstantSource} (hsymbol : k.IsSymbol)
    (hi : b.symbol? k = some i) : k.ReadAt b.file i := by
  cases k with
  | int v => exact h.constant trivial hi
  | long v => exact h.constant trivial hi
  | string t =>
      obtain ⟨n, hn, hlink⟩ := Option.bind_eq_some_iff.mp hi
      refine ⟨⟨n, 0, h.link hlink⟩, ?_⟩
      rw [ClassFile.stringValue, h.link hlink]
      exact (h.utf8 hn).2
  | classRef name => exact h.className hi
  | utf8 t => exact h.utf8 hi
  | nameAndType name descriptor => exact h.nameAndType hi
  | member kind owner name descriptor =>
      obtain ⟨c, hc, hrest⟩ := Option.bind_eq_some_iff.mp hi
      obtain ⟨n, hn, hlink⟩ := Option.bind_eq_some_iff.mp hrest
      refine ⟨⟨c, n, h.link hlink⟩, ?_⟩
      exact memberRef_eq hsymbol (h.link hlink) (h.className hc).2 (h.nameAndType hn).2
  | float bits => contradiction
  | double bits => contradiction
  | index i => contradiction

/-- The slot behind a long or double is empty, so no symbol is read there. -/
theorem Indexed.not_secondSlot (h : b.Indexed) {k : Constant} (hi : b.file.constant i = .ok k)
    (hblank : k ≠ .blank) : ¬b.file.IsSecondSlot i := by
  rintro ⟨j, wide, hj, hwide, hnext⟩
  have hk := (ClassFile.holdsAt_of_constant hi).2
  rw [ClassFile.HoldsAt, hnext, h.slot hj hwide] at hk
  exact hblank (Option.some.inj hk).symm

end Reading

end Builder

namespace ConstantSource

variable {c : ClassFile} {i : UInt16} {k k' : ConstantSource}

theorem ReadAt.entry (h : k.ReadAt c i) : ∃ e, c.constant i = .ok e ∧ e ≠ .blank := by
  cases k with
  | int v => exact ⟨_, h, nofun⟩
  | long v => exact ⟨_, h, nofun⟩
  | utf8 t => exact ⟨_, h.1, nofun⟩
  | string _ | classRef _ | nameAndType _ _ | member _ _ _ _ =>
      obtain ⟨⟨first, second, he⟩, -⟩ := h
      exact ⟨_, he, nofun⟩
  | float _ | double _ | index _ => contradiction

/-- The symbol at an index. -/
def symbolAt? (c : ClassFile) (i : UInt16) : Option ConstantSource :=
  match c.constant i with
  | .ok (.integer v) => some (.int v.toInt32)
  | .ok (.long v) => some (.long v)
  | .ok (.utf8 t) => some (.utf8 t)
  | .ok (.link kind _ _) =>
    if kind = .string then (c.stringValue i).toOption.map .string
    else if kind = .classRef then (c.className i).toOption.map .classRef
    else if kind = .nameAndType then (c.nameAndType i).toOption.map fun p => .nameAndType p.1 p.2
    else (c.memberRef i).toOption.map fun p => .member kind p.1 p.2.1 p.2.2
  | _ => none

theorem ReadAt.symbolAt? (h : k.ReadAt c i) (hsymbol : k.IsSymbol) :
    ConstantSource.symbolAt? c i = some k := by
  unfold ConstantSource.symbolAt?
  cases k with
  | int v =>
      rw [h]
      simp
  | long v => rw [h]
  | utf8 t => rw [h.1]
  | string t =>
      obtain ⟨⟨first, second, he⟩, hvalue⟩ := h
      rw [he]
      dsimp only
      rw [if_pos rfl, hvalue]
      rfl
  | classRef name =>
      obtain ⟨⟨first, second, he⟩, hvalue⟩ := h
      rw [he]
      dsimp only
      rw [if_neg nofun, if_pos rfl, hvalue]
      rfl
  | nameAndType name descriptor =>
      obtain ⟨⟨first, second, he⟩, hvalue⟩ := h
      rw [he]
      dsimp only
      rw [if_neg nofun, if_neg nofun, if_pos rfl, hvalue]
      rfl
  | member kind owner name descriptor =>
      obtain ⟨⟨first, second, he⟩, hvalue⟩ := h
      have hkind : ∀ other : LinkKind, other.isMember = false → kind ≠ other := by
        rintro other hother rfl
        exact absurd (hsymbol.symm.trans hother) nofun
      rw [he]
      dsimp only
      rw [if_neg (hkind _ rfl), if_neg (hkind _ rfl), if_neg (hkind _ rfl), hvalue]
      rfl
  | float _ | double _ | index _ => contradiction

end ConstantSource

namespace Builder

/-! How fast a pool grows -/

/-- The computation adds at most so many entries to the pool. -/
def AddsAtMost {α : Type} (n : Nat) (x : Build α) : Prop :=
  ∀ b, (x b).2.file.pool.size ≤ b.file.pool.size + n

theorem AddsAtMost.bind {α β : Type} {x : Build α} {f : α → Build β} {m n : Nat}
    (hx : AddsAtMost m x) (hf : ∀ a, AddsAtMost n (f a)) : AddsAtMost (m + n) (x >>= f) := by
  intro b
  calc ((f (x b).1) (x b).2).2.file.pool.size
      ≤ (x b).2.file.pool.size + n := hf _ _
    _ ≤ b.file.pool.size + m + n := Nat.add_le_add_right (hx b) n
    _ = b.file.pool.size + (m + n) := Nat.add_assoc ..

theorem AddsAtMost.mono {α : Type} {x : Build α} {m n : Nat} (hx : AddsAtMost m x) (h : m ≤ n) :
    AddsAtMost n x :=
  fun b => (hx b).trans (Nat.add_le_add_left h _)

theorem addsAtMost_pure {α : Type} (a : α) : AddsAtMost 0 (pure a : Build α) :=
  fun _ => le_rfl

theorem addsAtMost_mapM {α β : Type} {f : α → Build β} {n : Nat} (h : ∀ a, AddsAtMost n (f a))
    (items : List α) : AddsAtMost (n * items.length) (items.mapM f) := by
  induction items with
  | nil => exact addsAtMost_pure _
  | cons head tail ih =>
      rw [List.mapM_cons]
      refine ((h head).bind fun v => ih.bind fun vs => addsAtMost_pure _).mono ?_
      rw [List.length_cons, Nat.mul_succ]
      omega

/-- A long or double takes two slots. -/
theorem addsAtMost_intern (k : Constant) : AddsAtMost 2 (intern k) := by
  have happend : AddsAtMost 2 (append k) := fun b => by
    have hlen := congrArg List.length (pool_append k b)
    rw [List.length_append, Array.length_toList, Array.length_toList] at hlen
    have hslots : (slotsOf k).length ≤ 2 := by
      unfold slotsOf
      split <;> simp
    omega
  unfold intern
  split
  · exact happend
  · refine AddsAtMost.bind (m := 0) (n := 2) (fun _ => le_rfl) fun b => ?_
    split
    · exact (addsAtMost_pure _).mono (Nat.zero_le 2)
    · refine happend.bind (n := 0) fun i => ?_
      exact AddsAtMost.bind (m := 0) (fun _ => le_rfl) fun _ => addsAtMost_pure i

theorem addsAtMost_classRef (name : Text) : AddsAtMost 4 (classRef name) :=
  (addsAtMost_intern _).bind fun _ => addsAtMost_intern _

theorem addsAtMost_nameAndType (name descriptor : Text) :
    AddsAtMost 6 (nameAndType name descriptor) :=
  (addsAtMost_intern _).bind fun _ => (addsAtMost_intern _).bind fun _ => addsAtMost_intern _

theorem addsAtMost_constant (k : ConstantSource) : AddsAtMost 12 k.intern := by
  cases k with
  | classRef name => exact (addsAtMost_classRef name).mono (by decide)
  | string t =>
      exact ((addsAtMost_intern _).bind fun _ => addsAtMost_intern _).mono (by decide)
  | nameAndType name descriptor => exact (addsAtMost_nameAndType name descriptor).mono (by decide)
  | member kind owner name descriptor =>
      exact (addsAtMost_classRef owner).bind fun _ =>
        (addsAtMost_nameAndType name descriptor).bind fun _ => addsAtMost_intern _
  | index i => exact (addsAtMost_pure i).mono (by decide)
  | int _ | long _ | float _ | double _ | utf8 _ => exact (addsAtMost_intern _).mono (by decide)

theorem addsAtMost_enter (name superName : Text) : AddsAtMost 8 (do
    let _ ← classRef name
    if superName.isEmpty then pure ()
    else do
      let _ ← classRef superName
      pure ()) := by
  refine (addsAtMost_classRef name).bind (n := 4) fun _ => ?_
  split
  · exact (addsAtMost_pure _).mono (by decide)
  · exact (addsAtMost_classRef superName).bind fun _ => addsAtMost_pure _

/-- A class has at most 9 entries when it is started, and 12 more for each constant. -/
theorem pool_size_of_constants (name superName : Text) (flags : AccessFlags)
    (constants : List ConstantSource) :
    (makeAll name superName flags (constants.map .constant)).2.pool.size ≤
      9 + 12 * constants.length := by
  have hstart : (start name superName flags).file.pool.size ≤ 9 := addsAtMost_enter name superName _
  have hcalls : AddsAtMost (12 * constants.length) ((constants.map Call.constant).mapM Call.make) := by
    rw [List.mapM_map]
    exact addsAtMost_mapM (fun k => (addsAtMost_constant k).bind fun i => addsAtMost_pure _) constants
  exact (hcalls _).trans (Nat.add_le_add_right hstart _)

/-! The result -/

/-- Whatever calls a class is built by, as long as its pool has room: each index that was given for a
symbol is read as that symbol, is not 0 and is not that of the slot behind a long or double; and two
indices are the same exactly if the symbols are. -/
theorem interned_constants_are_faithful {name superName : Text} {flags : AccessFlags}
    {calls : List Call} {answers : List (Option UInt16)} {c : ClassFile}
    (hmade : makeAll name superName flags calls = (answers, c)) (hroom : c.pool.size ≤ maxEntries) :
    answers.length = calls.length ∧
    (∀ k answer, (Call.constant k, answer) ∈ calls.zip answers → k.IsSymbol →
      ∃ i, answer = some i ∧ k.ReadAt c i ∧ i ≠ 0 ∧ ¬c.IsSecondSlot i) ∧
    ∀ k k' i i', (Call.constant k, some i) ∈ calls.zip answers →
      (Call.constant k', some i') ∈ calls.zip answers → k.IsSymbol → k'.IsSymbol →
      (i = i' ↔ k = k') := by
  obtain ⟨hgrows, hindexed, hfound⟩ := Interns.mapM interns_make calls (start name superName flags)
  cases hrun : calls.mapM Call.make (start name superName flags) with
  | mk vs b =>
  rw [hrun] at hgrows hindexed hfound
  rw [makeAll, hrun] at hmade
  obtain ⟨rfl, rfl⟩ := Prod.mk.inj hmade
  have hdone := hindexed hroom (indexed_start name superName flags (hgrows.size_le.trans hroom))
  have hanswers := hfound b hroom (.refl b)
  have hsymbol : ∀ k answer, (Call.constant k, answer) ∈ calls.zip vs → k.IsSymbol →
      ∃ i, answer = some i ∧ b.symbol? k = some i :=
    fun k answer hmem hk => List.forall₂_zip hanswers hmem k rfl hk
  refine ⟨hanswers.length_eq.symm, fun k answer hmem hk => ?_, ?_⟩
  · obtain ⟨i, rfl, hi⟩ := hsymbol k answer hmem hk
    have hread := hdone.readAt hk hi
    obtain ⟨e, he, hblank⟩ := hread.entry
    exact ⟨i, rfl, hread, (ClassFile.holdsAt_of_constant he).1, hdone.not_secondSlot he hblank⟩
  · intro k k' i i' hmem hmem' hk hk'
    obtain ⟨_, hj, hi⟩ := hsymbol k (some i) hmem hk
    obtain ⟨_, hj', hi'⟩ := hsymbol k' (some i') hmem' hk'
    obtain rfl := Option.some.inj hj
    obtain rfl := Option.some.inj hj'
    constructor
    · rintro rfl
      have hread := (hdone.readAt hk hi).symbolAt? hk
      exact Option.some.inj (hread.symm.trans ((hdone.readAt hk' hi').symbolAt? hk'))
    · rintro rfl
      exact Option.some.inj (hi.symm.trans hi')

/-- The same method twice, with a long in between, and a field of its name. -/
def mixedConstants : List ConstantSource :=
  [.member .methodref "A" "f" "()V", .long 5, .member .methodref "A" "f" "()V",
    .member .fieldref "A" "f" "()V"]

theorem interned_constants_are_faithful_mixed :
    ∃ answers c, makeAll "A" [] ⟨1⟩ (mixedConstants.map .constant) = (answers, c) ∧
      c.pool.size ≤ maxEntries ∧
      ∃ method number field, answers = [some method, some number, some method, some field] ∧
        method ≠ field ∧ c.memberRef method = .ok ("A", "f", "()V") ∧
        c.constant number = .ok (.long 5) ∧ ¬c.IsSecondSlot field := by
  have hroom := (pool_size_of_constants "A" [] ⟨1⟩ mixedConstants).trans (by decide : _ ≤ maxEntries)
  cases hmade : makeAll "A" [] ⟨1⟩ (mixedConstants.map .constant) with
  | mk answers c =>
  rw [hmade] at hroom
  obtain ⟨hlength, hfound, hsame⟩ := interned_constants_are_faithful hmade hroom
  obtain ⟨first, second, third, fourth, rfl⟩ := List.length_eq_four.mp hlength
  obtain ⟨method, rfl, hmethod, -, -⟩ := hfound _ first (.head _) rfl
  obtain ⟨number, rfl, hnumber, -, -⟩ := hfound _ second (.tail _ (.head _)) trivial
  obtain ⟨again, rfl, -, -, -⟩ := hfound _ third (.tail _ (.tail _ (.head _))) rfl
  obtain ⟨field, rfl, -, -, hslot⟩ := hfound _ fourth (.tail _ (.tail _ (.tail _ (.head _)))) rfl
  obtain rfl := (hsame _ _ method again (.head _) (.tail _ (.tail _ (.head _))) rfl rfl).mpr rfl
  have hdiffer := hsame _ _ method field (.head _) (.tail _ (.tail _ (.tail _ (.head _)))) rfl rfl
  refine ⟨_, c, rfl, hroom, method, number, field, rfl, fun h => ?_, hmethod.2, hnumber, hslot⟩
  exact absurd (hdiffer.mp h) nofun

end Builder

end ClassEngine
