import ClassEngine.Proofs.ClassFile.RoundTrip
import ClassEngine.Proofs.ClassFile.SelfContained

/-!
Writing a class that was read. The pool lists every name that is asked for, so encoding looks indices
up and adds no entry, and what is written is read back as the same class with the same pool. Main
statement: `written_again_is_same`.
-/

namespace ClassEngine

namespace ClassFile

/-! Encoding without a new entry -/

/-- The indices that are remembered of a pool. -/
structure Memory where
  texts : List (Text × UInt16)
  classes : List (Text × UInt16)

/-- Encoding from what is remembered of a pool. -/
def Memory.of (memory : Memory) (pool : Array Constant) : PoolState :=
  ⟨pool, memory.texts, memory.classes⟩

/-- With what is remembered, `e` gives the same or fails alike whatever the pool is, and adds nothing
to it. -/
def AddsNothing {α : Type} (memory : Memory) (e : Encoder α) : Prop :=
  ∃ r : Except EncodeError α, ∀ pool, e (memory.of pool) = r.map fun a => (a, memory.of pool)

section Rules

variable {α β : Type} {memory : Memory}

theorem AddsNothing.pure (a : α) : AddsNothing memory (pure a) :=
  ⟨.ok a, fun _ => rfl⟩

theorem AddsNothing.throw (err : EncodeError) : AddsNothing memory (throw err : Encoder α) :=
  ⟨.error err, fun _ => rfl⟩

theorem AddsNothing.bind {e : Encoder α} {f : α → Encoder β} (he : AddsNothing memory e)
    (hf : ∀ a, AddsNothing memory (f a)) : AddsNothing memory (e >>= f) := by
  obtain ⟨r, hr⟩ := he
  have hstep (s : PoolState) : (e >>= f) s = e s >>= fun p => f p.1 p.2 := rfl
  cases r with
  | error err =>
      refine ⟨.error err, fun pool => ?_⟩
      rw [hstep, hr]
      rfl
  | ok a =>
      obtain ⟨r', hr'⟩ := hf a
      refine ⟨r', fun pool => ?_⟩
      rw [hstep, hr]
      exact hr' pool

theorem AddsNothing.mapM {f : α → Encoder β} {items : List α}
    (h : ∀ a ∈ items, AddsNothing memory (f a)) : AddsNothing memory (items.mapM f) := by
  induction items with
  | nil => exact .pure []
  | cons a items ih =>
      rw [List.mapM_cons]
      refine (h a List.mem_cons_self).bind fun b => ?_
      refine (ih fun b hb => h b (List.mem_cons_of_mem a hb)).bind fun bs => ?_
      exact .pure _

theorem addsNothing_encodeAll {f : α → Encoder (List UInt8)} {items : List α}
    (h : ∀ a ∈ items, AddsNothing memory (f a)) : AddsNothing memory (encodeAll f items) :=
  (AddsNothing.mapM h).bind fun _ => .pure _

end Rules

/-- What is remembered of a pool covers all that it lists. -/
structure Memory.Covers (memory : Memory) (pool : Array Constant) : Prop where
  texts : ∀ {t}, HasText pool t → ∃ i, memory.texts.lookup t = some i
  classes : ∀ {name}, HasClass pool name → ∃ i, memory.classes.lookup name = some i

section Steps

variable {memory : Memory} {listed : Array Constant} (hmemory : memory.Covers listed)
include hmemory

theorem addsNothing_textIndex {t : Text} (h : HasText listed t) :
    AddsNothing memory (textIndex t) := by
  obtain ⟨i, hi⟩ := hmemory.texts h
  refine ⟨.ok i, fun pool => ?_⟩
  rw [textIndex, Memory.of, hi]
  rfl

theorem addsNothing_classIndex {name : Text} (h : HasClass listed name) :
    AddsNothing memory (classIndex name) := by
  obtain ⟨i, hi⟩ := hmemory.classes h
  exact ⟨.ok i, fun pool => classIndex_known hi⟩

theorem addsNothing_optionalClassIndex {name : Text} (h : name = [] ∨ HasClass listed name) :
    AddsNothing memory (optionalClassIndex name) := by
  rw [optionalClassIndex]
  rcases h with rfl | hlisted
  · exact .pure 0
  · split
    case isTrue => exact .pure 0
    case isFalse => exact addsNothing_classIndex hmemory hlisted

theorem addsNothing_encodeNames {names : List Text} (h : ∀ name ∈ names, HasClass listed name) :
    AddsNothing memory (encodeAll (fun n => do pure (u2Bytes (← classIndex n))) names) :=
  addsNothing_encodeAll fun name hin =>
    (addsNothing_classIndex hmemory (h name hin)).bind fun _ => .pure _

theorem addsNothing_encodeField {f : Field} (h : f.ListedIn listed) :
    AddsNothing memory (encodeField f) := by
  refine (addsNothing_textIndex hmemory h.name).bind fun n => ?_
  refine (addsNothing_textIndex hmemory h.descriptor).bind fun d => ?_
  split
  case isTrue => exact .pure _
  case isFalse hne => exact (addsNothing_textIndex hmemory (h.value hne)).bind fun _ => .pure _

theorem addsNothing_encodeHandler (method : Text) {h : Handler}
    (hcatch : h.catchType = [] ∨ HasClass listed h.catchType) :
    AddsNothing memory (encodeHandler method h) := by
  rw [encodeHandler]
  split
  case isTrue => exact .throw _
  case isFalse => exact (addsNothing_optionalClassIndex hmemory hcatch).bind fun _ => .pure _

theorem addsNothing_encodeLines {lines : List LineNumber}
    (h : lines ≠ [] → HasText listed "LineNumberTable") :
    AddsNothing memory (encodeLines lines) := by
  rw [encodeLines]
  split
  case isTrue => exact .pure _
  case isFalse hne =>
    have hlisted := h (by simpa using hne)
    exact (addsNothing_textIndex hmemory hlisted).bind fun _ => .pure _

theorem addsNothing_encodeBody (method : Text) {code : Option Code}
    (h : ∀ body ∈ code, HasText listed "Code" ∧ body.ListedIn listed) :
    AddsNothing memory (encodeBody method code) := by
  cases code with
  | none => exact .pure _
  | some body =>
      obtain ⟨hname, hbody⟩ := h body rfl
      have hcode : AddsNothing memory (encodeCode method body) := by
        refine (addsNothing_encodeAll fun handler hin =>
          addsNothing_encodeHandler hmemory method (hbody.catchTypes handler hin)).bind fun _ => ?_
        exact (addsNothing_encodeLines hmemory hbody.lines).bind fun _ => .pure _
      exact hcode.bind fun _ => (addsNothing_textIndex hmemory hname).bind fun _ => .pure _

theorem addsNothing_encodeThrows {names : List Text} (h : names ≠ [] → HasText listed "Exceptions")
    (hnames : ∀ name ∈ names, HasClass listed name) : AddsNothing memory (encodeThrows names) := by
  rw [encodeThrows]
  split
  case isTrue => exact .pure _
  case isFalse hne =>
    refine (addsNothing_textIndex hmemory (h (by simpa using hne))).bind fun _ => ?_
    exact (addsNothing_encodeNames hmemory hnames).bind fun _ => .pure _

theorem addsNothing_encodeMethod (owner : Text) {m : MethodInfo} (h : m.ListedIn listed) :
    AddsNothing memory (encodeMethod owner m) := by
  refine (addsNothing_textIndex hmemory h.name).bind fun _ => ?_
  refine (addsNothing_textIndex hmemory h.descriptor).bind fun _ => ?_
  refine (addsNothing_encodeBody hmemory _ h.code).bind fun _ => ?_
  exact (addsNothing_encodeThrows hmemory h.throws h.throws_classes).bind fun _ => .pure _

theorem addsNothing_encodeSource {source : Text}
    (h : source ≠ [] → HasText listed "SourceFile" ∧ HasText listed source) :
    AddsNothing memory (encodeSource source) := by
  rw [encodeSource]
  split
  case isTrue => exact .pure _
  case isFalse hne =>
    obtain ⟨hname, hsource⟩ := h (by simpa using hne)
    refine (addsNothing_textIndex hmemory hname).bind fun _ => ?_
    exact (addsNothing_textIndex hmemory hsource).bind fun _ => .pure _

end Steps

theorem addsNothing_encodeRest {c : ClassFile} {memory : Memory} (hmemory : memory.Covers c.pool)
    (hc : c.SelfContained) : AddsNothing memory (encodeRest c) := by
  refine (addsNothing_classIndex hmemory hc.name).bind fun _ => ?_
  refine (addsNothing_optionalClassIndex hmemory hc.superName).bind fun _ => ?_
  refine (addsNothing_encodeNames hmemory hc.interfaces).bind fun _ => ?_
  refine (addsNothing_encodeAll fun f hf =>
    addsNothing_encodeField hmemory (hc.fields f hf)).bind fun _ => ?_
  refine (addsNothing_encodeAll fun m hm =>
    addsNothing_encodeMethod hmemory c.name (hc.methods m hm)).bind fun _ => ?_
  exact (addsNothing_encodeSource hmemory hc.sourceFile).bind fun _ => .pure _

/-! What is remembered of a pool -/

/-- What is remembered of the pool of a class. -/
def Memory.ofPool (pool : Array Constant) : Memory :=
  ⟨(PoolState.ofPool pool).texts, (PoolState.ofPool pool).classes⟩

theorem PoolState.ofPool_of_ne {pool : Array Constant} (h : pool ≠ #[]) :
    PoolState.ofPool pool = (Memory.ofPool pool).of pool := by
  have hpool : (PoolState.ofPool pool).pool = pool := by
    rw [ofPool_pool, if_neg (by simpa using h)]
  have hparts : PoolState.ofPool pool =
      (Memory.ofPool pool).of (PoolState.ofPool pool).pool := rfl
  rw [hparts, hpool]

/-- An entry that `key?` picks is listed for its key. -/
theorem PoolState.lookup_indexed (key? : Constant → Option Text) {pool : Array Constant}
    {i : UInt16} {k : Constant} {t : Text} (hk : HoldsAt pool i k) (hkey : key? k = some t) :
    ∃ j, (indexed key? pool).lookup t = some j := by
  have hentry : (k, i.toNat) ∈ pool.toList.zipIdx := by
    rw [List.mem_zipIdx_iff_getElem?, Array.getElem?_toList]
    exact hk
  have hmem : (t, i.toNat.toUInt16) ∈ indexed key? pool :=
    List.mem_filterMap.mpr
      ⟨_, hentry, congrArg (Option.map fun t => (t, i.toNat.toUInt16)) hkey⟩
  cases hlookup : (indexed key? pool).lookup t with
  | some j => exact ⟨j, rfl⟩
  | none =>
      have hother := List.lookup_eq_none_iff.mp hlookup _ hmem
      simp at hother

theorem Memory.covers_ofPool {pool : Array Constant} (hne : pool ≠ #[]) :
    (Memory.ofPool pool).Covers pool where
  texts := by
    rintro t ⟨i, hi⟩
    rw [ofPool, PoolState.ofPool_texts, PoolState.ofPool_of_ne hne]
    dsimp only [Memory.of]
    exact PoolState.lookup_indexed _ hi rfl
  classes := by
    rintro name ⟨i, first, second, hi, htext⟩
    rw [ofPool, PoolState.ofPool_classes, PoolState.ofPool_of_ne hne]
    dsimp only [Memory.of]
    refine PoolState.lookup_indexed _ hi ?_
    change (pool[first.toNat]?).map Constant.textOf = some name
    rw [htext]
    rfl

/-- What is remembered of a pool that was read is right for it, also without a long or double at its
end that has no slot behind it. -/
theorem sound_front {pool : Array Constant} (hpool : RestorablePool pool) (hne : pool ≠ #[])
    (hsize : pool.size ≤ poolLimit) :
    ∃ front : Array Constant,
      front.toList <+: pool.toList ∧ ((Memory.ofPool pool).of front).Sound := by
  obtain ⟨entries, hentries, hrestorable⟩ := hpool
  obtain ⟨kept, back, rfl, hkept, hback⟩ := hrestorable.split
  have hfront : pool.toList = .blank :: kept ++ back := hentries
  have hholds : ∀ {i : UInt16} {k : Constant}, k.isWide = false → HoldsAt pool i k →
      HoldsAt (Constant.blank :: kept).toArray i k := by
    intro i k hwide hk
    rw [HoldsAt, ← Array.getElem?_toList, hfront] at hk
    rw [HoldsAt, List.getElem?_toArray]
    rcases Nat.lt_or_ge i.toNat (Constant.blank :: kept).length with hlt | hge
    · rwa [List.getElem?_append_left hlt] at hk
    · rw [List.getElem?_append_right hge] at hk
      have hk' := hback k (List.mem_of_getElem? hk)
      rw [hwide] at hk'
      contradiction
  have hstart := PoolState.ofPool_of_ne hne
  have hlimit : (PoolState.ofPool pool).pool.size ≤ poolLimit := by
    rw [hstart]
    exact hsize
  refine ⟨(Constant.blank :: kept).toArray, ⟨back, hfront.symm⟩, ⟨kept, rfl, hkept⟩, ?_, ?_⟩
  · intro t i _ hlookup
    have htext := PoolState.ofPool_texts_hold hlimit hlookup
    rw [hstart] at htext
    exact hholds rfl htext
  · intro name i _ hname hlookup
    have hclass := PoolState.ofPool_classes_hold hlimit hname hlookup
    rw [hstart] at hclass
    obtain ⟨first, second, hi, htext⟩ := hclass
    exact ⟨first, second, hholds rfl hi, hholds rfl htext⟩

/-! The class -/

/-- Every text of the class is valid. -/
structure Valid (c : ClassFile) : Prop where
  pool : ∀ t, .utf8 t ∈ c.pool → Utf8.isValid t
  name : Utf8.isValid c.name
  superName : Utf8.isValid c.superName
  interfaces : ∀ name ∈ c.interfaces, Utf8.isValid name
  fields : ∀ f ∈ c.fields, Utf8.isValid f.name ∧ Utf8.isValid f.descriptor
  methods : ∀ m ∈ c.methods, Utf8.isValid m.name ∧ Utf8.isValid m.descriptor
  catchTypes : ∀ m ∈ c.methods, ∀ body ∈ m.code, ∀ h ∈ body.handlers, Utf8.isValid h.catchType
  throws : ∀ m ∈ c.methods, ∀ name ∈ m.throws, Utf8.isValid name
  sourceFile : Utf8.isValid c.sourceFile

/-- The texts of a class that takes them from its pool are as valid as those of the pool. -/
theorem SelfContained.valid {c : ClassFile} (hc : c.SelfContained)
    (hpool : ∀ t, .utf8 t ∈ c.pool → Utf8.isValid t) : c.Valid := by
  have hnil : Utf8.isValid [] := holdsText_nil.1
  have htext : ∀ {t}, HasText c.pool t → Utf8.isValid t := by
    rintro t ⟨i, hi⟩
    exact hpool t (Array.mem_of_getElem? hi)
  have hclass : ∀ {name}, HasClass c.pool name → Utf8.isValid name := by
    rintro name ⟨i, first, second, _, hi⟩
    exact hpool name (Array.mem_of_getElem? hi)
  have hoptional : ∀ {name}, name = [] ∨ HasClass c.pool name → Utf8.isValid name := by
    rintro name (rfl | hname)
    · exact hnil
    · exact hclass hname
  constructor
  · exact hpool
  · exact hclass hc.name
  · exact hoptional hc.superName
  · exact fun name h => hclass (hc.interfaces name h)
  · exact fun f hf => ⟨htext (hc.fields f hf).name, htext (hc.fields f hf).descriptor⟩
  · exact fun m hm => ⟨htext (hc.methods m hm).name, htext (hc.methods m hm).descriptor⟩
  · intro m hm body hbody h hin
    exact hoptional (((hc.methods m hm).code body hbody).2.catchTypes h hin)
  · exact fun m hm name hin => hclass ((hc.methods m hm).throws_classes name hin)
  · by_cases hempty : c.sourceFile = []
    · rw [hempty]
      exact hnil
    · exact htext (hc.sourceFile hempty).2

/-- What is asked of a class to be written again: a version, names where a name is required, and no
more lines and declared exceptions of a method than one attribute can count. -/
structure Rewritable (c : ClassFile) : Prop where
  major : c.major ≠ 0
  name : c.name ≠ []
  interfaces : ∀ name ∈ c.interfaces, name ≠ []
  throws_ne : ∀ m ∈ c.methods, ∀ name ∈ m.throws, name ≠ []
  throws : ∀ m ∈ c.methods, m.throws.length ≤ 65535
  lines : ∀ m ∈ c.methods, ∀ body ∈ m.code, body.lines.length ≤ 65535

/-- A class that was read is canonical but for its pool. -/
theorem Rewritable.canonical {data : List UInt8} {c : ClassFile} (hc : c.Rewritable)
    (h : decode data = .ok c) (hvalid : c.Valid) {pool : Array Constant}
    (hpool : CanonicalPool pool) : Canonical { c with pool := pool } := by
  have hdecoded := decoded_of_decode h
  have hbodies := (readClass_of_decode h).bodies
  constructor
  · exact .inr hpool
  · exact hc.major
  · exact hvalid.name
  · exact hc.name
  · exact hvalid.superName
  · exact hvalid.sourceFile
  · exact hdecoded.interfaces.1
  · exact hvalid.interfaces
  · exact hc.interfaces
  · exact hdecoded.fields.1
  · exact hvalid.fields
  · exact hdecoded.methods.1
  · intro m hm
    obtain ⟨hname, hdescriptor⟩ := hvalid.methods m hm
    refine ⟨hname, hdescriptor, fun body hbody => ?_, hc.throws m hm, hvalid.throws m hm,
      hc.throws_ne m hm⟩
    exact ⟨(hbodies m hm body hbody).handlers, hc.lines m hm body hbody,
      hvalid.catchTypes m hm body hbody⟩

/-- A class that was read holds valid texts only and constants that fit their written form. If it is
written again, no entry is added to its pool, and it is read back as it is, with its whole pool; but
a float that is no number may come back as another one. -/
theorem written_again_is_same {data : List UInt8} {c : ClassFile} (h : decode data = .ok c)
    (hc : c.Rewritable) : c.Valid ∧ RestorablePool c.pool ∧ ∀ b, encode c = .ok b →
      (∃ rest s, (encodeRest c).run (.ofPool c.pool) = .ok (rest, s) ∧ s.pool = c.pool) ∧
      ∃ c', decode b = .ok c' ∧ List.Forall₂ Constant.Agrees c.pool.toList c'.pool.toList ∧
        { c' with pool := c.pool } = c := by
  have hdecoded := decoded_of_decode h
  have hread := readClass_of_decode h
  have hne : c.pool ≠ #[] := by
    intro hempty
    obtain ⟨i, first, second, hi, _⟩ := hread.selfContained.name
    rw [HoldsAt, hempty] at hi
    contradiction
  have hpool : RestorablePool c.pool := hdecoded.pool.slots.resolve_left hne
  have hvalid : c.Valid :=
    hread.selfContained.valid fun t ht => (hdecoded.pool.holdsText ht).1
  refine ⟨hvalid, hpool, fun b hb => ?_⟩
  obtain ⟨rest, s, poolBytes, hrest, hsize, hpoolBytes, rfl⟩ := encode_ok hb
  rw [PoolState.ofPool_of_ne hne] at hrest ⊢
  -- the rest is written alike from the whole pool and from the part that a sound one can have
  obtain ⟨r, hr⟩ := addsNothing_encodeRest (Memory.covers_ofPool hne) hread.selfContained
  obtain ⟨rfl, rfl⟩ : r = .ok rest ∧ s = (Memory.ofPool c.pool).of c.pool := by
    rw [StateT.run, hr] at hrest
    cases r with
    | error err => contradiction
    | ok rest' =>
        obtain ⟨rfl, rfl⟩ := Prod.mk.inj (Except.ok.inj hrest)
        exact ⟨rfl, rfl⟩
  obtain ⟨front, hfront, hsound⟩ := sound_front hpool hne hsize
  obtain ⟨-, -, hreads⟩ := yields_encodeRest (hc.canonical h hvalid hsound.canonical)
    (fun m hm body hbody => (hread.bodies m hm body hbody).length) hsound (hr front)
  obtain ⟨pool', hagrees, hreadPool⟩ := reads_restorablePool hpool hsize hpoolBytes
  let c' : ClassFile := { c with pool := pool' }
  have hgrows : ((Memory.ofPool c.pool).of front).Grows ((Memory.ofPool c.pool).of c.pool) := hfront
  have hserves : Serves front c' := .of_grows hgrows (serves_of_agrees hsize hagrees)
  have hreadRest := hreads c' hserves c.minor c.major
  exact ⟨⟨rest, _, hrest, rfl⟩, c', decode_parts hc.major hreadPool hreadRest, hagrees, rfl⟩

/-- A class file with entries of the same contents, a text that is malformed, a string of an entry
that is not there, a long without its empty slot, an unknown attribute and two source files. -/
def looseBytes : List UInt8 :=
  [0xCA, 0xFE, 0xBA, 0xBE, 0, 0, 0, 52,
    0, 10, 1, 0, 1, 0x41, 1, 0, 1, 0x41, 7, 0, 2, 7, 0, 1, 8, 0, 99,
    1, 0, 10, 0x53, 0x6F, 0x75, 0x72, 0x63, 0x65, 0x46, 0x69, 0x6C, 0x65,
    1, 0, 3, 0x4F, 0x64, 0x64, 1, 0, 1, 0xFF, 5, 0, 0, 0, 0, 0, 0, 0, 1,
    0, 0x21, 0, 4, 0, 0, 0, 0, 0, 0, 0, 0,
    0, 3, 0, 7, 0, 0, 0, 1, 9, 0, 6, 0, 0, 0, 2, 0, 1, 0, 6, 0, 0, 0, 3, 0, 8, 0]

/-- The class in it. -/
def looseClass : ClassFile where
  minor := 0
  major := 52
  pool := #[.blank, .utf8 "A", .utf8 "A", .link .classRef 2 0, .link .classRef 1 0,
    .link .string 99 0, .utf8 "SourceFile", .utf8 "Odd", .utf8 [0xEF, 0xBF, 0xBD], .long 1]
  flags := ⟨0x21⟩
  name := "A"
  superName := []
  interfaces := []
  fields := []
  methods := []
  sourceFile := [0xEF, 0xBF, 0xBD]

theorem written_again_is_same_loose : ∃ b c', decode looseBytes = .ok looseClass ∧
    encode looseClass = .ok b ∧ decode b = .ok c' ∧
    List.Forall₂ Constant.Agrees looseClass.pool.toList c'.pool.toList ∧
    { c' with pool := looseClass.pool } = looseClass := by
  have hread : decode looseBytes = .ok looseClass := by decide +kernel
  have hrewritable : looseClass.Rewritable :=
    ⟨by decide, by decide, by decide, by decide, by decide, by decide⟩
  have hok : (encode looseClass).isOk = true := by decide +kernel
  cases hb : encode looseClass with
  | error err =>
      rw [hb] at hok
      contradiction
  | ok b =>
      obtain ⟨-, -, hagain⟩ := written_again_is_same hread hrewritable
      obtain ⟨-, c', hdecode, hagrees, hsame⟩ := hagain b hb
      exact ⟨b, c', hread, rfl, hdecode, hagrees, hsame⟩

end ClassFile

end ClassEngine
