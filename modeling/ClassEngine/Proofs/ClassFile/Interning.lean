import ClassEngine.Proofs.ClassFile.Reading
import ClassEngine.Proofs.Text.Transcoding
import ClassEngine.Proofs.Numeric.Widening

/-!
The pool that grows while a class is encoded. Entries are only added, so an index that the encoder
has handed out names the same text or class in the finished pool; `Yields` carries this through
every step of encoding.
-/

namespace ClassEngine

/-- Whether the written form of an entry says all about it: a text is valid, and a number or index
fits the width in which it is written. -/
def Constant.Canonical : Constant → Prop
  | .utf8 t => Utf8.isValid t
  | .integer v => v.toInt32.toInt64 = v
  | .float bits => Ieee.isNaN bits ∨ ∃ v, bits = Ieee.widen v
  | .long _ | .double _ => True
  | .link kind first second =>
    match kind.shape with
    | .one => second = 0
    | .two => True
    | .handle => first.toNat ≤ 255
  | .blank | .foreign _ _ _ => False

namespace ClassFile

/-- The entries of a pool behind entry 0: each is canonical, and a long or double is followed by an
empty slot. -/
inductive CanonicalEntries : List Constant → Prop
  | nil : CanonicalEntries []
  | narrow {k : Constant} {rest : List Constant} (hk : k.Canonical) (hwide : k.isWide = false)
      (hrest : CanonicalEntries rest) : CanonicalEntries (k :: rest)
  | wide {k : Constant} {rest : List Constant} (hk : k.Canonical) (hwide : k.isWide = true)
      (hrest : CanonicalEntries rest) : CanonicalEntries (k :: .blank :: rest)

theorem CanonicalEntries.append {ks : List Constant} (h : CanonicalEntries ks) {k : Constant}
    (hk : k.Canonical) (hwide : k.isWide = false) : CanonicalEntries (ks ++ [k]) := by
  induction h with
  | nil => exact .narrow hk hwide .nil
  | narrow hk' hwide' _ ih => exact .narrow hk' hwide' ih
  | wide hk' hwide' _ ih => exact .wide hk' hwide' ih

/-- A pool with its empty entry 0 and canonical entries behind it. -/
def CanonicalPool (pool : Array Constant) : Prop :=
  ∃ entries, pool.toList = .blank :: entries ∧ CanonicalEntries entries

theorem CanonicalPool.push {pool : Array Constant} (h : CanonicalPool pool) {k : Constant}
    (hk : k.Canonical) (hwide : k.isWide = false) : CanonicalPool (pool.push k) := by
  obtain ⟨entries, hpool, hentries⟩ := h
  exact ⟨entries ++ [k], by simp [hpool], hentries.append hk hwide⟩

theorem CanonicalPool.entry_zero {pool : Array Constant} (h : CanonicalPool pool) :
    pool[0]? = some .blank := by
  obtain ⟨entries, hpool, _⟩ := h
  rw [← Array.getElem?_toList, hpool]
  rfl

/-- Entries that their written form determines: each is canonical, and a long or double is followed
by an empty slot unless it is the last. -/
inductive RestorableEntries : List Constant → Prop
  | nil : RestorableEntries []
  | narrow {k : Constant} {rest : List Constant} (hk : k.Canonical) (hwide : k.isWide = false)
      (hrest : RestorableEntries rest) : RestorableEntries (k :: rest)
  | wide {k : Constant} {rest : List Constant} (hk : k.Canonical) (hwide : k.isWide = true)
      (hrest : RestorableEntries rest) : RestorableEntries (k :: .blank :: rest)
  | last {k : Constant} (hk : k.Canonical) (hwide : k.isWide = true) : RestorableEntries [k]

/-- A pool with its empty entry 0 and restorable entries behind it. -/
def RestorablePool (pool : Array Constant) : Prop :=
  ∃ entries, pool.toList = .blank :: entries ∧ RestorableEntries entries

theorem CanonicalEntries.restorable {ks : List Constant} (h : CanonicalEntries ks) :
    RestorableEntries ks := by
  induction h with
  | nil => exact .nil
  | narrow hk hwide _ ih => exact .narrow hk hwide ih
  | wide hk hwide _ ih => exact .wide hk hwide ih

/-- Only a long or double at the end keeps restorable entries from being canonical. -/
theorem RestorableEntries.split {ks : List Constant} (h : RestorableEntries ks) :
    ∃ front back, ks = front ++ back ∧ CanonicalEntries front ∧ ∀ k ∈ back, k.isWide = true := by
  induction h with
  | nil => exact ⟨[], [], rfl, .nil, by simp⟩
  | narrow hk hwide _ ih =>
      obtain ⟨front, back, rfl, hfront, hback⟩ := ih
      exact ⟨_ :: front, back, rfl, .narrow hk hwide hfront, hback⟩
  | wide hk hwide _ ih =>
      obtain ⟨front, back, rfl, hfront, hback⟩ := ih
      exact ⟨_ :: .blank :: front, back, rfl, .wide hk hwide hfront, hback⟩
  | @last k _ hwide => exact ⟨[], [k], rfl, .nil, by simpa using hwide⟩

/-- The most entries a pool may have. -/
def poolLimit : Nat := 65535

/-- The pool holds an entry at an index. -/
def HoldsAt (pool : Array Constant) (i : UInt16) (k : Constant) : Prop :=
  pool[i.toNat]? = some k

/-- A class entry that points at a text. -/
def HoldsClass (pool : Array Constant) (i : UInt16) (name : Text) : Prop :=
  ∃ k second, HoldsAt pool i (.link .classRef k second) ∧ HoldsAt pool k (.utf8 name)

/-- The pool is canonical, and the indices remembered for texts and class names are theirs. A pool
that is too large remembers nothing of use. -/
structure PoolState.Sound (s : PoolState) : Prop where
  canonical : CanonicalPool s.pool
  texts : ∀ {t i}, s.pool.size ≤ poolLimit → s.texts.lookup t = some i → HoldsAt s.pool i (.utf8 t)
  classes : ∀ {name i}, s.pool.size ≤ poolLimit → name ≠ [] → s.classes.lookup name = some i →
    HoldsClass s.pool i name

/-- One pool continues another. -/
def PoolState.Grows (s s' : PoolState) : Prop :=
  s.pool.toList <+: s'.pool.toList

theorem PoolState.Grows.refl (s : PoolState) : s.Grows s := List.prefix_refl _

theorem PoolState.Grows.trans {s s' s'' : PoolState} (h : s.Grows s') (h' : s'.Grows s'') :
    s.Grows s'' := List.IsPrefix.trans h h'

theorem PoolState.Grows.size_le {s s' : PoolState} (h : s.Grows s') :
    s.pool.size ≤ s'.pool.size := by
  simpa using h.length_le

theorem PoolState.Grows.holdsAt {s s' : PoolState} (h : s.Grows s') {i : UInt16} {k : Constant}
    (hk : HoldsAt s.pool i k) : HoldsAt s'.pool i k := by
  obtain ⟨more, hmore⟩ := h
  rw [HoldsAt, ← Array.getElem?_toList] at hk ⊢
  obtain ⟨hlt, _⟩ := List.getElem?_eq_some_iff.mp hk
  rw [← hmore, List.getElem?_append_left hlt, hk]

theorem PoolState.Grows.holdsClass {s s' : PoolState} (h : s.Grows s') {i : UInt16} {name : Text}
    (hi : HoldsClass s.pool i name) : HoldsClass s'.pool i name := by
  obtain ⟨k, second, hk, htext⟩ := hi
  exact ⟨k, second, h.holdsAt hk, h.holdsAt htext⟩

theorem PoolState.grows_push (s : PoolState) (k : Constant) (texts classes) :
    s.Grows ⟨s.pool.push k, texts, classes⟩ := by
  simp [PoolState.Grows]

theorem toNat_toUInt16_size {pool : Array Constant} (h : pool.size ≤ poolLimit) :
    pool.size.toUInt16.toNat = pool.size :=
  Utf16.toNat_toUInt16_of_lt (by rw [poolLimit] at h; omega)

/-- A pushed entry is found at the index that the old size gives. -/
theorem holdsAt_push {pool : Array Constant} (h : pool.size ≤ poolLimit) (k : Constant) :
    HoldsAt (pool.push k) pool.size.toUInt16 k := by
  rw [HoldsAt, toNat_toUInt16_size h, Array.getElem?_push_size]

/-- The texts and class references of a pool stand at the same places in that of a class. -/
structure Serves (pool : Array Constant) (c : ClassFile) : Prop where
  size : pool.size ≤ poolLimit
  utf8 : ∀ {i t}, HoldsAt pool i (.utf8 t) → HoldsAt c.pool i (.utf8 t)
  classRef : ∀ {i first second}, HoldsAt pool i (.link .classRef first second) →
    HoldsAt c.pool i (.link .classRef first second)

theorem Serves.of_grows {s s' : PoolState} {c : ClassFile} (h : s.Grows s')
    (hserves : Serves s'.pool c) : Serves s.pool c where
  size := le_trans h.size_le hserves.size
  utf8 hk := hserves.utf8 (h.holdsAt hk)
  classRef hk := hserves.classRef (h.holdsAt hk)

theorem index_ne_zero {pool : Array Constant} (h : CanonicalPool pool) {i : UInt16} {k : Constant}
    (hk : HoldsAt pool i k) (hblank : k ≠ .blank) : i ≠ 0 := by
  rintro rfl
  rw [HoldsAt, UInt16.toNat_zero, h.entry_zero] at hk
  exact hblank (Option.some.inj hk).symm

theorem constant_eq {c : ClassFile} {i : UInt16} {k : Constant} (hi : i ≠ 0)
    (h : HoldsAt c.pool i k) : c.constant i = .ok k := by
  rw [HoldsAt] at h
  rw [constant, if_neg hi, h]

theorem utf8_eq {c : ClassFile} {i : UInt16} {t : Text} (hi : i ≠ 0)
    (h : HoldsAt c.pool i (.utf8 t)) : c.utf8 i = .ok t := by
  rw [utf8, constant_eq hi h]
  rfl

theorem className_eq {c : ClassFile} {i first second : UInt16} {name : Text} (hi : i ≠ 0)
    (h : HoldsAt c.pool i (.link .classRef first second)) (hname : c.utf8 first = .ok name) :
    c.className i = .ok name := by
  rw [className, constant_eq hi h]
  exact hname

theorem holdsAt_of_constant {c : ClassFile} {i : UInt16} {k : Constant} (h : c.constant i = .ok k) :
    i ≠ 0 ∧ HoldsAt c.pool i k := by
  rw [constant] at h
  split at h
  case isTrue => cases h
  case isFalse hi =>
    split at h
    case h_1 hk =>
      obtain rfl := Except.ok.inj h
      exact ⟨hi, hk⟩
    case h_2 => cases h

theorem holdsAt_of_utf8 {c : ClassFile} {i : UInt16} {t : Text} (h : c.utf8 i = .ok t) :
    i ≠ 0 ∧ HoldsAt c.pool i (.utf8 t) := by
  rw [utf8] at h
  cases hk : c.constant i with
  | error e =>
      rw [hk] at h
      cases h
  | ok k =>
      rw [hk] at h
      cases k with
      | utf8 t' =>
          obtain rfl := Except.ok.inj h
          exact holdsAt_of_constant hk
      | _ => cases h

theorem holdsClass_of_className {c : ClassFile} {i : UInt16} {name : Text}
    (h : c.className i = .ok name) : HoldsClass c.pool i name := by
  rw [className] at h
  cases hk : c.constant i with
  | error e =>
      rw [hk] at h
      cases h
  | ok k =>
      rw [hk] at h
      cases k with
      | link kind first second =>
          cases kind with
          | classRef => exact ⟨first, second, (holdsAt_of_constant hk).2, (holdsAt_of_utf8 h).2⟩
          | _ => cases h
      | _ => cases h

/-- Encoding with `e` keeps the pool sound and only adds to it, and what it yields stands in `Q` to
every class whose pool serves for the pool reached. -/
def Yields {α : Type} (e : Encoder α) (Q : ClassFile → α → Prop) : Prop :=
  ∀ ⦃s a s'⦄, s.Sound → e s = .ok (a, s') →
    s.Grows s' ∧ s'.Sound ∧ ∀ c, Serves s'.pool c → Q c a

section Rules

variable {α β : Type} {Q : ClassFile → α → Prop} {R : ClassFile → β → Prop}

theorem Yields.pure {a : α} (h : ∀ c, Q c a) : Yields (pure a) Q := by
  intro s b s' hs heq
  obtain ⟨rfl, rfl⟩ : a = b ∧ s = s' := Prod.mk.inj (Except.ok.inj heq)
  exact ⟨.refl s, hs, fun c _ => h c⟩

theorem Yields.bind {e : Encoder α} {f : α → Encoder β} (he : Yields e Q)
    (hf : ∀ a, Yields (f a) fun c b => Q c a → R c b) : Yields (e >>= f) R := by
  intro s b s'' hs heq
  change (e s >>= fun p => f p.1 p.2) = .ok (b, s'') at heq
  cases hstep : e s with
  | error err => simp [hstep, Bind.bind, Except.bind] at heq
  | ok p =>
      obtain ⟨a, s'⟩ := p
      rw [hstep] at heq
      obtain ⟨hgrows, hsound, hQ⟩ := he hs hstep
      obtain ⟨hgrows', hsound', hR⟩ := hf a hsound heq
      refine ⟨hgrows.trans hgrows', hsound', ?_⟩
      intro c hc
      exact hR c hc (hQ c (.of_grows hgrows' hc))

theorem Yields.mono {e : Encoder α} {Q' : ClassFile → α → Prop} (h : Yields e Q)
    (hQ : ∀ c a, Q c a → Q' c a) : Yields e Q' := by
  intro s a s' hs heq
  obtain ⟨hgrows, hsound, hQa⟩ := h hs heq
  exact ⟨hgrows, hsound, fun c hc => hQ c a (hQa c hc)⟩

theorem Yields.throw {err : EncodeError} : Yields (throw err : Encoder α) Q := by
  intro s a s' _ heq
  change Except.error err = .ok (a, s') at heq
  contradiction

/-- What is yielded depends on the class only through its pool. -/
theorem Yields.forPool {e : Encoder α} (h : Yields e Q) :
    Yields e fun c a => ∀ c', c'.pool = c.pool → Q c' a := by
  intro s a s' hs heq
  obtain ⟨hgrows, hsound, hQ⟩ := h hs heq
  refine ⟨hgrows, hsound, ?_⟩
  intro c hc c' hpool
  apply hQ c'
  obtain ⟨hsize, hutf8, hclassRef⟩ := hc
  rw [← hpool] at hutf8 hclassRef
  exact ⟨hsize, hutf8, hclassRef⟩

/-- What every item of a list yields, the whole list yields. -/
theorem Yields.mapM {f : α → Encoder β} {P : ClassFile → α → β → Prop} {items : List α}
    (h : ∀ a ∈ items, Yields (f a) fun c b => P c a b) :
    Yields (items.mapM f) fun c bs => List.Forall₂ (P c) items bs := by
  induction items with
  | nil => exact .pure fun c => .nil
  | cons head tail ih =>
      rw [List.mapM_cons]
      apply (h head List.mem_cons_self).bind
      intro b
      apply (ih fun a ha => h a (List.mem_cons_of_mem head ha)).bind
      intro bs
      exact .pure fun c htail hhead => .cons hhead htail

end Rules

/-- The index of a text is that of an entry which holds it, old or new. -/
theorem textIndex_holds {t : Text} (ht : Utf8.isValid t) {s s' : PoolState} {i : UInt16}
    (hs : s.Sound) (heq : textIndex t s = .ok (i, s')) :
    s.Grows s' ∧ s'.Sound ∧ (s'.pool.size ≤ poolLimit → HoldsAt s'.pool i (.utf8 t)) := by
  rw [textIndex] at heq
  cases hlookup : s.texts.lookup t with
  | some j =>
      obtain ⟨rfl, rfl⟩ : j = i ∧ s = s' := by simpa [hlookup] using heq
      exact ⟨.refl s, hs, fun hsize => hs.texts hsize hlookup⟩
  | none =>
      obtain ⟨rfl, rfl⟩ := by simpa [hlookup] using heq
      have hgrows := s.grows_push (.utf8 t) ((t, s.pool.size.toUInt16) :: s.texts) s.classes
      have hsize : (s.pool.push (.utf8 t)).size ≤ poolLimit → s.pool.size ≤ poolLimit :=
        le_trans hgrows.size_le
      refine ⟨hgrows, ⟨hs.canonical.push ht rfl, ?_, ?_⟩, fun hle => holdsAt_push (hsize hle) _⟩
      · intro t' j hle hj
        rw [List.lookup_cons] at hj
        by_cases hsame : t' = t
        · subst hsame
          obtain rfl : s.pool.size.toUInt16 = j := by simpa using hj
          exact holdsAt_push (hsize hle) _
        · rw [beq_eq_false_iff_ne.mpr hsame] at hj
          exact hgrows.holdsAt (hs.texts (hsize hle) hj)
      · intro name j hle hname hj
        exact hgrows.holdsClass (hs.classes (hsize hle) hname hj)

/-- A text is found again under the index it is given. -/
theorem yields_textIndex {t : Text} (ht : Utf8.isValid t) :
    Yields (textIndex t) fun c i => i ≠ 0 ∧ c.utf8 i = .ok t := by
  intro s i s' hs heq
  obtain ⟨hgrows, hsound, hholds⟩ := textIndex_holds ht hs heq
  refine ⟨hgrows, hsound, ?_⟩
  intro c hc
  have hi : i ≠ 0 := index_ne_zero hsound.canonical (hholds hc.size) (by simp)
  exact ⟨hi, utf8_eq hi (hc.utf8 (hholds hc.size))⟩

theorem HoldsClass.className_eq {s : PoolState} (hs : s.Sound) {i : UInt16} {name : Text}
    (hi : HoldsClass s.pool i name) {c : ClassFile} (hc : Serves s.pool c) :
    i ≠ 0 ∧ c.className i = .ok name := by
  obtain ⟨k, second, hk, htext⟩ := hi
  have hi0 : i ≠ 0 := index_ne_zero hs.canonical hk (by simp)
  have hk0 : k ≠ 0 := index_ne_zero hs.canonical htext (by simp)
  exact ⟨hi0, ClassFile.className_eq hi0 (hc.classRef hk) (utf8_eq hk0 (hc.utf8 htext))⟩

theorem Encoder.get_bind {α : Type} (f : PoolState → Encoder α) (s : PoolState) :
    (get >>= f) s = f s s :=
  rfl

theorem classIndex_known {s : PoolState} {name : Text} {i : UInt16}
    (h : s.classes.lookup name = some i) : classIndex name s = .ok (i, s) := by
  rw [classIndex, Encoder.get_bind, h]
  rfl

theorem classIndex_new {s : PoolState} {name : Text} (h : s.classes.lookup name = none) :
    classIndex name s = textIndex name s >>= fun p =>
      .ok (p.2.pool.size.toUInt16, ⟨p.2.pool.push (.link .classRef p.1 0), p.2.texts,
        (name, p.2.pool.size.toUInt16) :: p.2.classes⟩) := by
  rw [classIndex, Encoder.get_bind, h]
  rfl

/-- A class entry pushed for a text that the pool holds is remembered rightly. -/
theorem PoolState.Sound.pushClass {s : PoolState} (hs : s.Sound) {name : Text} {k : UInt16}
    (hk : s.pool.size ≤ poolLimit → HoldsAt s.pool k (.utf8 name)) :
    PoolState.Sound ⟨s.pool.push (.link .classRef k 0), s.texts,
      (name, s.pool.size.toUInt16) :: s.classes⟩ := by
  have hgrows := s.grows_push (.link .classRef k 0) s.texts
    ((name, s.pool.size.toUInt16) :: s.classes)
  have hsize : (s.pool.push (.link .classRef k 0)).size ≤ poolLimit → s.pool.size ≤ poolLimit :=
    le_trans hgrows.size_le
  refine ⟨hs.canonical.push rfl rfl, ?_, ?_⟩
  · intro t j hle hj
    exact hgrows.holdsAt (hs.texts (hsize hle) hj)
  · intro name' j hle hname hj
    rw [List.lookup_cons] at hj
    by_cases hsame : name' = name
    · subst hsame
      obtain rfl : s.pool.size.toUInt16 = j := by simpa using hj
      exact ⟨k, 0, holdsAt_push (hsize hle) _, hgrows.holdsAt (hk (hsize hle))⟩
    · rw [beq_eq_false_iff_ne.mpr hsame] at hj
      exact hgrows.holdsClass (hs.classes (hsize hle) hname hj)

/-- A class name is found again under the index it is given. -/
theorem yields_classIndex {name : Text} (hvalid : Utf8.isValid name) (hne : name ≠ []) :
    Yields (classIndex name) fun c i => i ≠ 0 ∧ c.className i = .ok name := by
  intro s i s' hs heq
  cases hlookup : s.classes.lookup name with
  | some j =>
      rw [classIndex_known hlookup] at heq
      obtain ⟨rfl, rfl⟩ : j = i ∧ s = s' := by simpa using heq
      refine ⟨.refl s, hs, ?_⟩
      intro c hc
      exact HoldsClass.className_eq hs (hs.classes hc.size hne hlookup) hc
  | none =>
      rw [classIndex_new hlookup] at heq
      cases htext : textIndex name s with
      | error err => simp [htext, Bind.bind, Except.bind] at heq
      | ok p =>
          obtain ⟨k, s₁⟩ := p
          obtain ⟨hgrows, hsound, hk⟩ := textIndex_holds hvalid hs htext
          rw [htext] at heq
          obtain ⟨rfl, rfl⟩ := by simpa [Bind.bind, Except.bind] using heq
          have hpush := s₁.grows_push (.link .classRef k 0) s₁.texts
            ((name, s₁.pool.size.toUInt16) :: s₁.classes)
          refine ⟨hgrows.trans hpush, hsound.pushClass hk, ?_⟩
          intro c hc
          have hsize : s₁.pool.size ≤ poolLimit := le_trans hpush.size_le hc.size
          exact HoldsClass.className_eq (hsound.pushClass hk)
            ⟨k, 0, holdsAt_push hsize _, hpush.holdsAt (hk hsize)⟩ hc

/-- An entry listed for a key is one that `key?` picks for it. -/
theorem PoolState.indexed_lookup {key? : Constant → Option Text} {pool : Array Constant}
    (hsize : pool.size ≤ poolLimit) {t : Text} {i : UInt16}
    (h : (indexed key? pool).lookup t = some i) : ∃ k, HoldsAt pool i k ∧ key? k = some t := by
  obtain ⟨before, after, hsplit, _⟩ := List.lookup_eq_some_iff.mp h
  have hmem : (t, i) ∈ indexed key? pool := by simp [hsplit]
  rw [indexed, List.mem_filterMap] at hmem
  obtain ⟨⟨k, n⟩, hentry, hkey⟩ := hmem
  obtain ⟨t', ht', hpair⟩ := Option.map_eq_some_iff.mp hkey
  obtain ⟨rfl, rfl⟩ := Prod.mk.inj hpair
  have hn : pool[n]? = some k := by simpa using List.mem_zipIdx_iff_getElem?.mp hentry
  obtain ⟨hlt, _⟩ := Array.getElem?_eq_some_iff.mp hn
  have hindex : n.toUInt16.toNat = n := Utf16.toNat_toUInt16_of_lt (by rw [poolLimit] at hsize; omega)
  exact ⟨k, by rw [HoldsAt, hindex, hn], ht'⟩

/-- The pool that encoding starts from: an empty one gets its entry 0. -/
theorem PoolState.ofPool_pool (pool : Array Constant) :
    (PoolState.ofPool pool).pool = if pool.isEmpty then #[.blank] else pool := rfl

theorem PoolState.ofPool_texts (pool : Array Constant) : (PoolState.ofPool pool).texts =
    indexed (fun | .utf8 t => some t | _ => none) (PoolState.ofPool pool).pool := rfl

theorem PoolState.ofPool_classes (pool : Array Constant) : (PoolState.ofPool pool).classes =
    indexed (fun
      | .link .classRef first _ =>
        ((PoolState.ofPool pool).pool[first.toNat]?).map Constant.textOf
      | _ => none) (PoolState.ofPool pool).pool := rfl

theorem PoolState.canonical_ofPool {pool : Array Constant} (h : pool = #[] ∨ CanonicalPool pool) :
    CanonicalPool (PoolState.ofPool pool).pool := by
  rw [ofPool_pool]
  split
  case isTrue => exact ⟨[], rfl, .nil⟩
  case isFalse hne => exact h.resolve_left fun hempty => hne (by simp [hempty])

/-- The indices that are remembered of a pool for its texts are theirs. -/
theorem PoolState.ofPool_texts_hold {pool : Array Constant} {t : Text} {i : UInt16}
    (hsize : (ofPool pool).pool.size ≤ poolLimit)
    (h : (ofPool pool).texts.lookup t = some i) : HoldsAt (ofPool pool).pool i (.utf8 t) := by
  rw [ofPool_texts] at h
  obtain ⟨k, hk, hkey⟩ := indexed_lookup hsize h
  cases k with
  | utf8 t' =>
      obtain rfl : t' = t := by simpa using hkey
      exact hk
  | _ => simp at hkey

/-- So are those that are remembered for its class names. -/
theorem PoolState.ofPool_classes_hold {pool : Array Constant} {name : Text} {i : UInt16}
    (hsize : (ofPool pool).pool.size ≤ poolLimit) (hne : name ≠ [])
    (h : (ofPool pool).classes.lookup name = some i) : HoldsClass (ofPool pool).pool i name := by
  rw [ofPool_classes] at h
  obtain ⟨k, hk, hkey⟩ := indexed_lookup hsize h
  -- a class entry that points at anything but a text is listed under the empty name
  split at hkey
  case h_2 => simp at hkey
  case h_1 first second =>
    obtain ⟨target, htarget, htext⟩ := Option.map_eq_some_iff.mp hkey
    cases target with
    | utf8 t =>
        obtain rfl : t = name := htext
        exact ⟨first, second, hk, htarget⟩
    | _ => exact absurd htext.symm hne

/-- The pool of a class is a sound one to start from. -/
theorem PoolState.sound_ofPool {pool : Array Constant} (h : pool = #[] ∨ CanonicalPool pool) :
    (PoolState.ofPool pool).Sound where
  canonical := canonical_ofPool h
  texts := ofPool_texts_hold
  classes := ofPool_classes_hold

end ClassFile

end ClassEngine
