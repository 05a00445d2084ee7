import ClassEngine.Proofs.ClassFile.RoundTrip

/-!
Classes whose constants do not fit their written form. Writing cuts numbers and indices down to the
width of the format, so a class is written like the one whose constants are cut down beforehand, and
that one is read back. What is left to ask of a class is that its lists can be counted and that the
slot behind every long and double is empty. Main statement: `written_classes_are_read`.
-/

namespace ClassEngine

/-- A constant as its written form has it. -/
def Constant.narrowed : Constant → Constant
  | .integer v => .integer v.toInt32.toInt64
  | .float bits => if Ieee.isNaN bits then .float bits else .float (Ieee.widen (Ieee.narrow bits))
  | .link kind first second =>
    match kind.shape with
    | .one => .link kind first 0
    | .two => .link kind first second
    | .handle => .link kind first.toUInt8.toUInt16 second
  | k => k

namespace Constant

theorem narrowed_float (bits : UInt64) : ∃ bits', narrowed (.float bits) = .float bits' := by
  by_cases h : Ieee.isNaN bits
  · exact ⟨_, if_pos h⟩
  · exact ⟨_, if_neg h⟩

theorem narrowed_link (kind : LinkKind) (first second : UInt16) :
    ∃ first' second', narrowed (.link kind first second) = .link kind first' second' := by
  rw [narrowed]
  cases kind.shape with
  | one => exact ⟨_, _, rfl⟩
  | two => exact ⟨_, _, rfl⟩
  | handle => exact ⟨_, _, rfl⟩

variable (k : Constant)

@[simp] theorem isWide_narrowed : k.narrowed.isWide = k.isWide := by
  cases k with
  | float bits =>
      obtain ⟨bits', hbits⟩ := narrowed_float bits
      rw [hbits]
      rfl
  | link kind first second =>
      obtain ⟨first', second', hlink⟩ := narrowed_link kind first second
      rw [hlink]
      rfl
  | _ => rfl

@[simp] theorem textOf_narrowed : k.narrowed.textOf = k.textOf := by
  cases k with
  | float bits =>
      obtain ⟨bits', hbits⟩ := narrowed_float bits
      rw [hbits]
      rfl
  | link kind first second =>
      obtain ⟨first', second', hlink⟩ := narrowed_link kind first second
      rw [hlink]
      rfl
  | _ => rfl

@[simp] theorem narrowed_utf8 (t : Text) : narrowed (.utf8 t) = .utf8 t := rfl

@[simp] theorem narrowed_blank : narrowed .blank = .blank := rfl

@[simp] theorem narrowed_classRef (first : UInt16) :
    narrowed (.link .classRef first 0) = .link .classRef first 0 := rfl

/-- Entries that have a written form are canonical once they are cut down. -/
theorem canonical_narrowed {k : Constant} (hvalid : ∀ t, k = .utf8 t → Utf8.isValid t)
    {owner : Text} {i : Nat} {part : List UInt8} (h : ClassFile.encodeConstant owner i k = .ok part) :
    k.narrowed.Canonical := by
  cases k with
  | blank => cases h
  | foreign tag first second => cases h
  | utf8 t => exact hvalid t rfl
  | integer v => simp [narrowed, Canonical]
  | float bits =>
      rw [narrowed]
      split
      case isTrue hnan => exact .inl hnan
      case isFalse => exact .inr ⟨_, rfl⟩
  | long v => trivial
  | double bits => trivial
  | link kind first second =>
      rw [narrowed]
      cases hshape : kind.shape with
      | one => simp [Canonical, hshape]
      | two => simp [Canonical, hshape]
      | handle =>
          have hfirst := first.toUInt8.toNat_lt
          simp only [Canonical, hshape, UInt8.toNat_toUInt16]
          omega

end Constant

namespace ClassFile

/-- A constant is written as it is cut down. -/
theorem encodeConstant_narrowed (owner : Text) (i : Nat) (k : Constant) :
    encodeConstant owner i k.narrowed = encodeConstant owner i k := by
  cases k with
  | integer v => simp [Constant.narrowed, encodeConstant]
  | float bits =>
      rw [Constant.narrowed]
      split
      case isTrue => rfl
      case isFalse hnan =>
        have hnumber : ¬Ieee.isNaN32 (Ieee.narrow bits) := by rwa [Ieee.isNaN32_narrow]
        rw [encodeConstant, encodeConstant, Ieee.narrow_widen hnumber]
  | link kind first second =>
      rw [Constant.narrowed]
      cases hshape : kind.shape with
      | one => simp [encodeConstant, hshape]
      | two => rfl
      | handle =>
          have hbyte : first.toUInt8.toUInt16.toUInt8 = first.toUInt8 := UInt8.toUInt8_toUInt16 _
          simp only [encodeConstant, hshape, hbyte]
  | _ => rfl

theorem encodeEntriesOnto_narrowed (owner : Text) (ks : List Constant) (acc : List (List UInt8))
    (i : Nat) : encodeEntriesOnto owner acc i (ks.map Constant.narrowed) =
      encodeEntriesOnto owner acc i ks := by
  induction hn : ks.length using Nat.strongRecOn generalizing ks acc i with
  | _ n ih =>
      match ks with
      | [] => rfl
      | [k] => simp only [List.map_cons, List.map_nil, encodeEntriesOnto, encodeConstant_narrowed]
      | k :: next :: rest =>
          simp only [List.length_cons] at hn
          have hskip := fun acc i => ih _ (by omega) rest acc i rfl
          have hnext := fun acc i => ih _ (by simp; omega) (next :: rest) acc i rfl
          simp only [List.map_cons] at hnext ⊢
          simp only [encodeEntriesOnto, encodeConstant_narrowed, Constant.isWide_narrowed, hskip,
            hnext]

theorem encodePool_narrowed (owner : Text) (pool : Array Constant) :
    encodePool owner (pool.map Constant.narrowed) = encodePool owner pool := by
  rw [encodePool, encodePool, Array.toList_map, ← List.map_drop, encodeEntriesOnto_narrowed,
    Array.size_map]

/-! Encoding looks at the indices it remembers and at the number of entries, but at no entry. -/

/-- From pools of one size, `e` fails alike, or it gives the same and adds the same entries, none of
which is cut down. -/
def Parallel {α : Type} (e : Encoder α) : Prop :=
  ∀ pool pool' texts classes, pool.size = pool'.size →
    (∃ err, e ⟨pool, texts, classes⟩ = .error err ∧ e ⟨pool', texts, classes⟩ = .error err) ∨
    ∃ a added texts' classes', e ⟨pool, texts, classes⟩ = .ok (a, ⟨pool ++ added, texts', classes'⟩) ∧
      e ⟨pool', texts, classes⟩ = .ok (a, ⟨pool' ++ added, texts', classes'⟩) ∧
      added.map Constant.narrowed = added

section Parallel

variable {α β : Type}

theorem Parallel.pure (a : α) : Parallel (pure a) := by
  intro pool pool' texts classes _
  exact .inr ⟨a, #[], texts, classes, by rw [Array.append_empty]; rfl,
    by rw [Array.append_empty]; rfl, by simp⟩

theorem Parallel.throw (err : EncodeError) : Parallel (throw err : Encoder α) :=
  fun _ _ _ _ _ => .inl ⟨err, rfl, rfl⟩

theorem Parallel.bind {e : Encoder α} {f : α → Encoder β} (he : Parallel e)
    (hf : ∀ a, Parallel (f a)) : Parallel (e >>= f) := by
  intro pool pool' texts classes hsize
  have hstep (s : PoolState) : (e >>= f) s = e s >>= fun p => f p.1 p.2 := rfl
  rw [hstep, hstep]
  rcases he pool pool' texts classes hsize with ⟨err, h, h'⟩ | ⟨a, added, texts₁, classes₁, h, h', hadded⟩
  · exact .inl ⟨err, by rw [h]; rfl, by rw [h']; rfl⟩
  · have hsize₁ : (pool ++ added).size = (pool' ++ added).size := by simp [hsize]
    rw [h, h']
    rcases hf a (pool ++ added) (pool' ++ added) texts₁ classes₁ hsize₁ with
      ⟨err, h₁, h₁'⟩ | ⟨b, more, texts₂, classes₂, h₁, h₁', hmore⟩
    · exact .inl ⟨err, h₁, h₁'⟩
    · refine .inr ⟨b, added ++ more, texts₂, classes₂, ?_, ?_, ?_⟩
      · rw [← Array.append_assoc]
        exact h₁
      · rw [← Array.append_assoc]
        exact h₁'
      · rw [Array.map_append, hadded, hmore]

theorem Parallel.mapM {f : α → Encoder β} (h : ∀ a, Parallel (f a)) (items : List α) :
    Parallel (items.mapM f) := by
  induction items with
  | nil => exact .pure []
  | cons a items ih =>
      rw [List.mapM_cons]
      exact (h a).bind fun b => ih.bind fun bs => .pure _

theorem parallel_textIndex (t : Text) : Parallel (textIndex t) := by
  intro pool pool' texts classes hsize
  simp only [textIndex, hsize]
  cases texts.lookup t with
  | some i => exact .inr ⟨i, #[], texts, classes, by simp, by simp, by simp⟩
  | none => exact .inr ⟨_, #[.utf8 t], _, classes, rfl, rfl, by simp⟩

theorem parallel_classIndex (name : Text) : Parallel (classIndex name) := by
  intro pool pool' texts classes hsize
  cases hlookup : classes.lookup name with
  | some i =>
      rw [classIndex_known hlookup, classIndex_known hlookup]
      exact .inr ⟨i, #[], texts, classes, by simp, by simp, by simp⟩
  | none =>
      rw [classIndex_new hlookup, classIndex_new hlookup]
      rcases parallel_textIndex name pool pool' texts classes hsize with
        ⟨err, h, h'⟩ | ⟨i, added, texts₁, classes₁, h, h', hadded⟩
      · exact .inl ⟨err, by rw [h]; rfl, by rw [h']; rfl⟩
      · have hsize₁ : (pool ++ added).size = (pool' ++ added).size := by simp [hsize]
        rw [h, h']
        refine .inr ⟨(pool ++ added).size.toUInt16, added.push (.link .classRef i 0), texts₁,
          (name, (pool ++ added).size.toUInt16) :: classes₁, ?_, ?_, ?_⟩
        · rw [← Array.push_append]
          rfl
        · rw [← Array.push_append, hsize₁]
          rfl
        · simp [hadded]

theorem parallel_optionalClassIndex (name : Text) : Parallel (optionalClassIndex name) := by
  rw [optionalClassIndex]
  split
  case isTrue => exact .pure 0
  case isFalse => exact parallel_classIndex name

theorem parallel_encodeAll {f : α → Encoder (List UInt8)} (h : ∀ a, Parallel (f a))
    (items : List α) : Parallel (encodeAll f items) :=
  (Parallel.mapM h items).bind fun _ => .pure _

theorem parallel_encodeField (f : Field) : Parallel (encodeField f) := by
  refine (parallel_textIndex _).bind fun n => (parallel_textIndex _).bind fun d => ?_
  split
  case isTrue => exact .pure _
  case isFalse => exact (parallel_textIndex _).bind fun _ => .pure _

theorem parallel_encodeHandler (method : Text) (h : Handler) : Parallel (encodeHandler method h) := by
  rw [encodeHandler]
  split
  case isTrue => exact .throw _
  case isFalse => exact (parallel_optionalClassIndex _).bind fun _ => .pure _

theorem parallel_encodeLines (lines : List LineNumber) : Parallel (encodeLines lines) := by
  rw [encodeLines]
  split
  case isTrue => exact .pure _
  case isFalse => exact (parallel_textIndex _).bind fun _ => .pure _

theorem parallel_encodeBody (method : Text) (code : Option Code) :
    Parallel (encodeBody method code) := by
  cases code with
  | none => exact .pure _
  | some c =>
      have hcode : Parallel (encodeCode method c) :=
        (parallel_encodeAll (parallel_encodeHandler method) c.handlers).bind fun _ =>
          (parallel_encodeLines c.lines).bind fun _ => .pure _
      exact hcode.bind fun _ => (parallel_textIndex _).bind fun _ => .pure _

theorem parallel_encodeNames (names : List Text) :
    Parallel (encodeAll (fun n => do pure (u2Bytes (← classIndex n))) names) :=
  parallel_encodeAll (fun n => (parallel_classIndex n).bind fun _ => .pure _) names

theorem parallel_encodeThrows (names : List Text) : Parallel (encodeThrows names) := by
  rw [encodeThrows]
  split
  case isTrue => exact .pure _
  case isFalse =>
    exact (parallel_textIndex _).bind fun _ => (parallel_encodeNames names).bind fun _ => .pure _

theorem parallel_encodeMethod (owner : Text) (m : MethodInfo) : Parallel (encodeMethod owner m) :=
  (parallel_textIndex _).bind fun _ => (parallel_textIndex _).bind fun _ =>
    (parallel_encodeBody _ _).bind fun _ => (parallel_encodeThrows _).bind fun _ => .pure _

theorem parallel_encodeSource (source : Text) : Parallel (encodeSource source) := by
  rw [encodeSource]
  split
  case isTrue => exact .pure _
  case isFalse =>
    exact (parallel_textIndex _).bind fun _ => (parallel_textIndex _).bind fun _ => .pure _

theorem parallel_encodeRest (c : ClassFile) : Parallel (encodeRest c) :=
  (parallel_classIndex _).bind fun _ => (parallel_optionalClassIndex _).bind fun _ =>
    (parallel_encodeNames _).bind fun _ => (parallel_encodeAll parallel_encodeField _).bind fun _ =>
      (parallel_encodeAll (parallel_encodeMethod _) _).bind fun _ =>
        (parallel_encodeSource _).bind fun _ => .pure _

end Parallel

/-! The class as it is written -/

theorem indexed_map (key? : Constant → Option Text) (f : Constant → Constant)
    (pool : Array Constant) :
    PoolState.indexed key? (pool.map f) = PoolState.indexed (fun k => key? (f k)) pool := by
  rw [PoolState.indexed, PoolState.indexed, Array.toList_map, List.zipIdx_map, List.filterMap_map]
  rfl

/-- Cutting down the entries of a pool leaves what is remembered of it. -/
theorem ofPool_narrowed (pool : Array Constant) : PoolState.ofPool (pool.map Constant.narrowed) =
    ⟨(PoolState.ofPool pool).pool.map Constant.narrowed, (PoolState.ofPool pool).texts,
      (PoolState.ofPool pool).classes⟩ := by
  have hpool : (PoolState.ofPool (pool.map Constant.narrowed)).pool =
      (PoolState.ofPool pool).pool.map Constant.narrowed := by
    rw [PoolState.ofPool_pool, PoolState.ofPool_pool]
    by_cases hempty : pool = #[]
    · simp [hempty]
    · simp [hempty]
  have htexts : (PoolState.ofPool (pool.map Constant.narrowed)).texts =
      (PoolState.ofPool pool).texts := by
    rw [PoolState.ofPool_texts, PoolState.ofPool_texts, hpool, indexed_map]
    congr 1
    funext k
    cases k with
    | float bits =>
        obtain ⟨bits', hbits⟩ := Constant.narrowed_float bits
        rw [hbits]
    | link kind first second =>
        obtain ⟨first', second', hlink⟩ := Constant.narrowed_link kind first second
        rw [hlink]
    | _ => rfl
  have hclasses : (PoolState.ofPool (pool.map Constant.narrowed)).classes =
      (PoolState.ofPool pool).classes := by
    rw [PoolState.ofPool_classes, PoolState.ofPool_classes, hpool, indexed_map]
    congr 1
    funext k
    cases k with
    | float bits =>
        obtain ⟨bits', hbits⟩ := Constant.narrowed_float bits
        rw [hbits]
    | link kind first second =>
        cases kind with
        | classRef =>
            change ((Array.map Constant.narrowed _)[first.toNat]?).map Constant.textOf = _
            rw [Array.getElem?_map, Option.map_map]
            congr 1
            funext k'
            exact k'.textOf_narrowed
        | _ => rfl
    | _ => rfl
  rw [← hpool, ← htexts, ← hclasses]

/-- A class as its written form has it: with its constants cut down, and never without a version. -/
def written (c : ClassFile) : ClassFile :=
  { c with
    minor := if c.major = 0 then 0 else c.minor
    major := if c.major = 0 then defaultMajor else c.major
    pool := c.pool.map Constant.narrowed }

theorem major_written (c : ClassFile) : c.written.major ≠ 0 := by
  rw [written]
  split
  case isTrue =>
    have hdefault : defaultMajor ≠ 0 := by decide
    exact hdefault
  case isFalse hmajor => exact hmajor

theorem versionBytes_written (c : ClassFile) : versionBytes c.written = versionBytes c := by
  rw [versionBytes, if_neg c.major_written, versionBytes, written]
  split
  case isTrue => rfl
  case isFalse => rfl

theorem encode_written (c : ClassFile) : encode c.written = encode c := by
  have hrest : encodeRest c.written = encodeRest c := rfl
  have hpool : c.written.pool = c.pool.map Constant.narrowed := rfl
  have hname : c.written.name = c.name := rfl
  rw [encode, encode, hrest, hpool, hname, versionBytes_written, ofPool_narrowed]
  rcases parallel_encodeRest c (PoolState.ofPool c.pool).pool
    ((PoolState.ofPool c.pool).pool.map Constant.narrowed) (PoolState.ofPool c.pool).texts
    (PoolState.ofPool c.pool).classes (Array.size_map ..).symm with
    ⟨err, h, h'⟩ | ⟨rest, added, texts, classes, h, h', hadded⟩
  · rw [StateT.run, StateT.run, h', h]
  · have hpool : (PoolState.ofPool c.pool).pool.map Constant.narrowed ++ added =
        ((PoolState.ofPool c.pool).pool ++ added).map Constant.narrowed := by
      rw [Array.map_append, hadded]
    rw [StateT.run, StateT.run, h', h, hpool]
    simp only [Bind.bind, Except.bind, Array.size_map, encodePool_narrowed]

/-! Classes that the format can hold -/

/-- The entries of a pool behind entry 0, where a long or double is followed by an empty slot. -/
inductive SlottedEntries : List Constant → Prop
  | nil : SlottedEntries []
  | narrow {k : Constant} {rest : List Constant} (hwide : k.isWide = false)
      (hrest : SlottedEntries rest) : SlottedEntries (k :: rest)
  | wide {k : Constant} {rest : List Constant} (hwide : k.isWide = true)
      (hrest : SlottedEntries rest) : SlottedEntries (k :: .blank :: rest)

/-- A pool with its empty entry 0 and an empty slot behind every long and double. -/
def SlottedPool (pool : Array Constant) : Prop :=
  ∃ entries, pool.toList = .blank :: entries ∧ SlottedEntries entries

/-- Entries that are written are canonical once they are cut down, whatever is written behind. -/
theorem SlottedEntries.canonical {ks more : List Constant} (hks : SlottedEntries ks)
    (hvalid : ∀ t, .utf8 t ∈ ks → Utf8.isValid t) {owner : Text} {acc parts : List (List UInt8)}
    {i : Nat} (h : encodeEntriesOnto owner acc i (ks ++ more) = .ok parts) :
    CanonicalEntries (ks.map Constant.narrowed) := by
  induction hks generalizing acc i with
  | nil => exact .nil
  | @narrow k rest hwide _ ih =>
      have hrest : ∀ t, .utf8 t ∈ rest → Utf8.isValid t :=
        fun t ht => hvalid t (List.mem_cons_of_mem k ht)
      have hk : ∀ t, k = .utf8 t → Utf8.isValid t := by
        rintro t rfl
        exact hvalid t List.mem_cons_self
      rw [List.cons_append, encodeEntriesOnto_narrow owner acc i hwide] at h
      cases hpart : encodeConstant owner i k with
      | error err => simp [hpart, Bind.bind, Except.bind] at h
      | ok part =>
          rw [hpart] at h
          exact .narrow (Constant.canonical_narrowed hk hpart) (by simpa using hwide) (ih hrest h)
  | @wide k rest hwide _ ih =>
      have hrest : ∀ t, .utf8 t ∈ rest → Utf8.isValid t :=
        fun t ht => hvalid t (List.mem_cons_of_mem k (List.mem_cons_of_mem _ ht))
      have hk : ∀ t, k = .utf8 t → Utf8.isValid t := by
        rintro t rfl
        cases hwide
      rw [List.cons_append, List.cons_append, encodeEntriesOnto_wide owner acc i hwide] at h
      cases hpart : encodeConstant owner i k with
      | error err => simp [hpart, Bind.bind, Except.bind] at h
      | ok part =>
          rw [hpart] at h
          exact .wide (Constant.canonical_narrowed hk hpart) (by simpa using hwide) (ih hrest h)

/-- A class whose lists two bytes can count and whose bodies four bytes can measure, whose names are
not empty where a name is required, and whose pool has its empty slots. Its constants may be any. -/
structure Countable (c : ClassFile) : Prop where
  pool : c.pool = #[] ∨ SlottedPool c.pool
  texts : ∀ t, .utf8 t ∈ c.pool → Utf8.isValid t
  others : Canonical { c with pool := #[], major := defaultMajor }
  bodies : ∀ m ∈ c.methods, ∀ body, m.code = some body → codeLength body < 4294967296

/-- A class that is written has a pool that is canonical once it is cut down. -/
theorem Countable.canonicalPool {c : ClassFile} (hc : c.Countable) {b : List UInt8}
    (hb : encode c = .ok b) : c.written.pool = #[] ∨ CanonicalPool c.written.pool := by
  rcases hc.pool with hempty | ⟨entries, hentries, hslotted⟩
  · left
    rw [written, hempty, Array.map_empty]
  right
  obtain ⟨rest, s, parts, hrest, -, hpool, -⟩ := encode_ok hb
  have hstart : (PoolState.ofPool c.pool).pool = c.pool := by
    rw [PoolState.ofPool_pool, if_neg]
    intro hempty
    rw [Array.isEmpty_iff.mp hempty] at hentries
    cases hentries
  rcases parallel_encodeRest c (PoolState.ofPool c.pool).pool (PoolState.ofPool c.pool).pool
    (PoolState.ofPool c.pool).texts (PoolState.ofPool c.pool).classes rfl with
    ⟨err, h, -⟩ | ⟨a, added, texts, classes, h, -, -⟩
  · cases h.symm.trans hrest
  obtain ⟨-, rfl⟩ := Prod.mk.inj (Except.ok.inj (h.symm.trans hrest))
  -- the entries of the class stand in front of those that were added
  have hall : (c.pool ++ added).toList = .blank :: (entries ++ added.toList) := by
    rw [Array.toList_append, hentries, List.cons_append]
  rw [hstart, encodePool, hall, List.drop_one, List.tail_cons] at hpool
  cases hentriesOf : encodeEntriesOnto c.name [] 1 (entries ++ added.toList) with
  | error err => simp [hentriesOf, Bind.bind, Except.bind] at hpool
  | ok written =>
      have hvalid : ∀ t, .utf8 t ∈ entries → Utf8.isValid t := by
        intro t ht
        apply hc.texts t
        rw [← Array.mem_toList_iff, hentries]
        exact List.mem_cons_of_mem _ ht
      refine ⟨entries.map Constant.narrowed, ?_, hslotted.canonical hvalid hentriesOf⟩
      rw [ClassFile.written, Array.toList_map, hentries]
      rfl

theorem Countable.canonical_written {c : ClassFile} (hc : c.Countable) {b : List UInt8}
    (hb : encode c = .ok b) : c.written.Canonical :=
  { hc.others with
    pool := hc.canonicalPool hb
    major := c.major_written }

/-- A canonical class is read back up to its pool. -/
theorem decode_canonical {c : ClassFile} (hc : c.Canonical)
    (hbodies : ∀ m ∈ c.methods, ∀ body, m.code = some body → codeLength body < 4294967296)
    {b : List UInt8} (hb : encode c = .ok b) : ∃ pool, decode b = .ok { c with pool } := by
  obtain ⟨rest, s, parts, hrest, hsize, hparts, rfl⟩ := encode_ok hb
  obtain ⟨-, hsound, hreads⟩ := yields_encodeRest hc hbodies (PoolState.sound_ofPool hc.pool) hrest
  obtain ⟨pool, hagrees, hreadPool⟩ := reads_decodePool hsound.canonical hsize hparts
  have hread := hreads { c with pool } (serves_of_agrees hsize hagrees) c.minor c.major
  exact ⟨pool, decode_parts hc.major hreadPool hread⟩

/-- A class that can be counted is refused, or it is written and read back with all that it has but
its version and its pool. -/
theorem written_classes_are_read {c : ClassFile} (hc : c.Countable) :
    (∃ err, encode c = .error err) ∨ ∃ b c', encode c = .ok b ∧ decode b = .ok c' ∧
      { c' with minor := c.minor, major := c.major, pool := c.pool } = c := by
  cases hb : encode c with
  | error err => exact .inl ⟨err, rfl⟩
  | ok b =>
      have hbodies : ∀ m ∈ c.written.methods, ∀ body, m.code = some body →
          codeLength body < 4294967296 := hc.bodies
      obtain ⟨pool, hdecode⟩ := decode_canonical (hc.canonical_written hb) hbodies
        ((encode_written c).trans hb)
      exact .inr ⟨b, _, rfl, hdecode, rfl⟩

/-- A class without a version, some of whose constants are wider than their written form. -/
def wideClass : ClassFile where
  minor := 3
  major := 0
  pool := #[.blank, .utf8 "Wide", .integer 4294967296, .long 5, .blank, .float 0x3FB999999999999A,
    .link .string 1 9, .link .methodHandle 262 1]
  flags := ⟨0x21⟩
  name := "Wide"
  superName := "java/lang/Object"
  interfaces := ["Shape"]
  fields := [⟨"n", "J", ⟨8⟩, 3⟩]
  methods := [⟨"run", "()V", ⟨1⟩, some ⟨2, 1, #[0xB1], [⟨0, 1, 1, "Fault"⟩], [⟨0, 7⟩]⟩, ["Fault"]⟩]
  sourceFile := []

theorem countable_wideClass : wideClass.Countable where
  pool := .inr ⟨_, rfl, .narrow rfl (.narrow rfl (.wide rfl (.narrow rfl (.narrow rfl
    (.narrow rfl .nil)))))⟩
  texts := by
    intro t ht
    have hname : Utf8.isValid ("Wide" : Text) := by decide +kernel
    simp only [wideClass, List.mem_toArray, List.mem_cons, Constant.utf8.injEq, reduceCtorEq,
      List.not_mem_nil, or_false, false_or] at ht
    rwa [ht]
  others := by
    refine ⟨.inl rfl, by decide, by decide +kernel, by decide, by decide +kernel, by decide +kernel,
      by decide, by decide +kernel, by decide, by decide, by decide +kernel, by decide, ?_⟩
    intro m hm
    obtain rfl := List.mem_singleton.mp hm
    refine ⟨by decide +kernel, by decide +kernel, ?_, by decide, by decide +kernel, by decide⟩
    intro body hbody
    obtain rfl := Option.some.inj hbody
    exact ⟨by decide, by decide, by decide +kernel⟩
  bodies := by
    intro m hm body hbody
    obtain rfl := List.mem_singleton.mp hm
    obtain rfl := Option.some.inj hbody
    decide

theorem written_classes_are_read_wide : wideClass.Countable ∧ ((∃ err, encode wideClass = .error err) ∨
    ∃ b c', encode wideClass = .ok b ∧ decode b = .ok c' ∧
      { c' with minor := wideClass.minor, major := wideClass.major, pool := wideClass.pool } =
        wideClass) :=
  ⟨countable_wideClass, written_classes_are_read countable_wideClass⟩

/-- A class whose long has no slot behind it. -/
def slotlessClass : ClassFile :=
  ⟨0, 52, #[.blank, .long 1], ⟨0x21⟩, "A", [], [], [], [], []⟩

/-- Where a long has no slot behind it, the first entry that is added gets lost in that slot. -/
theorem slotless_class_is_not_read :
    ∃ b err, encode slotlessClass = .ok b ∧ decode b = .error err := by
  let written : List UInt8 :=
    [0xCA, 0xFE, 0xBA, 0xBE, 0, 0, 0, 52, 0, 4, 5, 0, 0, 0, 0, 0, 0, 0, 1, 7, 0, 2, 0, 0x21, 0, 3,
      0, 0, 0, 0, 0, 0, 0, 0, 0, 0]
  have hencode : encode slotlessClass = .ok written := by decide +kernel
  have hdecode : decode written =
      .error (.within "this_class" (.pool (.wrongKind [] 2 0 "Utf8"))) := by decide +kernel
  exact ⟨written, _, hencode, hdecode⟩

end ClassFile

end ClassEngine
