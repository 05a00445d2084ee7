import ClassEngine.Proofs.ClassFile.Members

/-!
Class files round trip: what is written for a canonical class is read back as the same class, but
for entries that the encoder added to the pool. Main statement: `decode_of_encode`.
-/

namespace ClassEngine

namespace ClassFile

open Decoder

/-- A class that its written form determines: its texts are valid, its names are not empty where a
name is required, its lists can be counted, and the entries of its pool fit their written form. -/
structure Canonical (c : ClassFile) : Prop where
  pool : c.pool = #[] ∨ CanonicalPool c.pool
  major : c.major ≠ 0
  name : Utf8.isValid c.name
  name_ne : c.name ≠ []
  superName : Utf8.isValid c.superName
  sourceFile : Utf8.isValid c.sourceFile
  interfaces : c.interfaces.length ≤ 65535
  interfaces_valid : ∀ name ∈ c.interfaces, Utf8.isValid name
  interfaces_ne : ∀ name ∈ c.interfaces, name ≠ []
  fields : c.fields.length ≤ 65535
  fields_valid : ∀ f ∈ c.fields, Utf8.isValid f.name ∧ Utf8.isValid f.descriptor
  methods : c.methods.length ≤ 65535
  methods_canonical : ∀ m ∈ c.methods, m.Canonical

/-- The source file is at most one attribute of the class. -/
theorem yields_encodeSource {source : Text} (hvalid : Utf8.isValid source) :
    Yields (encodeSource source) fun c b => ∃ attrs, Reads (decodeAttributes c) b attrs ∧
      ∀ full : ClassFile, full.pool = c.pool → full.sourceFile = [] →
        attrs.foldlM applyClassAttribute full = .ok { full with sourceFile := source } := by
  rw [encodeSource]
  split
  case isTrue hempty =>
    obtain rfl : source = [] := by simpa using hempty
    refine .pure fun c => ⟨[], reads_noAttributes c, ?_⟩
    rintro ⟨⟩ _ rfl
    rfl
  case isFalse =>
    have hname : Utf8.isValid ("SourceFile" : Text) := ModifiedUtf8.isValid_of_isPlain (by decide)
    apply (yields_textIndex hname).bind
    intro attr
    apply (yields_textIndex hvalid).forPool.bind
    intro value
    apply Yields.pure
    intro c hvalue hattr
    have hsize : (2 : UInt32).toNat = (u2Bytes value).length := rfl
    have hattrs := reads_oneAttribute (a := ⟨"SourceFile", u2Bytes value⟩) hattr.2 hsize
    have hword := Attribute.leading?_word "SourceFile" value []
    rw [List.append_nil] at hword
    refine ⟨_, by simpa only [List.append_assoc] using hattrs, ?_⟩
    intro full hpool _
    rw [List.foldlM_cons, applyClassAttribute, if_pos (by simp), hword]
    simp only [(hvalue full hpool).2]
    rfl

theorem reads_decodeInterface {c : ClassFile} {i : UInt16} {name : Text}
    (h : c.className i = .ok name) (j : Nat) : Reads (decodeInterface c j) (u2Bytes i) name :=
  (reads_index i).bind_pure ((Reads.lookup h).inside _)

/-- All that follows the pool is read back, whatever the version and the pool in front of it. -/
theorem yields_encodeRest {c : ClassFile} (hc : c.Canonical)
    (hbodies : ∀ m ∈ c.methods, ∀ body, m.code = some body → codeLength body < 4294967296) :
    Yields (encodeRest c) fun s b => ∀ minor major,
      Reads (decodeRest minor major s.pool) b { c with minor, major, pool := s.pool } := by
  apply (yields_classIndex hc.name hc.name_ne).forPool.bind
  intro this
  apply (yields_optionalClassIndex hc.superName).forPool.bind
  intro superIndex
  apply (yields_encodeAll fun name h =>
    yields_className (hc.interfaces_valid name h) (hc.interfaces_ne name h)).forPool.bind
  intro interfaces
  apply (yields_encodeAll fun f h =>
    yields_encodeField (hc.fields_valid f h).1 (hc.fields_valid f h).2).forPool.bind
  intro fields
  apply (yields_encodeAll fun m h =>
    yields_encodeMethod (hc.methods_canonical m h) (hbodies m h)).forPool.bind
  intro methods
  apply (yields_encodeSource hc.sourceFile).forPool.bind
  intro source
  apply Yields.pure
  intro s hsourceOf hmethodsOf hfieldsOf hinterfacesOf hsuper hthis minor major
  -- the class as it is known before and after its own name has been read
  let bare : ClassFile := ⟨minor, major, s.pool, ⟨c.flags.bits⟩, [], [], [], [], [], []⟩
  let named : ClassFile := { bare with name := c.name }
  obtain ⟨interfaceParts, rfl, hinterfaces⟩ := hinterfacesOf named rfl
  obtain ⟨fieldParts, rfl, hfields⟩ := hfieldsOf named rfl
  obtain ⟨methodParts, rfl, hmethods⟩ := hmethodsOf named rfl
  obtain ⟨attrs, hattrs, hsource⟩ := hsourceOf named rfl
  have hnames : List.Forall₂ (fun name part => ∀ j, Reads (decodeInterface named j) part name)
      c.interfaces interfaceParts := by
    refine hinterfaces.imp ?_
    rintro name part ⟨_, i, rfl, hname⟩ j
    exact reads_decodeInterface hname j
  simp only [List.append_assoc]
  apply (reads_u2 _).bind
  apply (reads_u2 _).bind
  apply (reads_u2 _).bind
  apply ((Reads.lookup (hthis bare rfl).2).inside _).bind_nil
  apply (hsuper named rfl _).bind_nil
  rw [← List.append_assoc]
  apply (reads_counted hnames hc.interfaces).bind
  rw [← List.append_assoc]
  apply (reads_counted hfields hc.fields).bind
  rw [← List.append_assoc]
  apply (reads_counted hmethods hc.methods).bind
  apply (hattrs.inside _).bind_pure
  exact .lift (hsource _ rfl rfl)

/-- The pool of a class that was read back: entry by entry like the one that was written, with
further entries behind it. -/
def PoolRestored (pool pool' : Array Constant) : Prop :=
  ∃ kept added, pool'.toList = kept ++ added ∧ List.Forall₂ Constant.Agrees pool.toList kept

theorem poolRestored_of_grows {pool pool' : Array Constant} {s : PoolState}
    (hgrows : (PoolState.ofPool pool).Grows s)
    (hagrees : List.Forall₂ Constant.Agrees s.pool.toList pool'.toList) :
    PoolRestored pool pool' := by
  have hstart : pool.toList <+: s.pool.toList := by
    rw [PoolState.Grows, PoolState.ofPool_pool] at hgrows
    split at hgrows
    case isTrue hempty => simp [Array.isEmpty_iff.mp hempty]
    case isFalse => exact hgrows
  obtain ⟨more, hmore⟩ := hstart
  have htake := List.forall₂_take pool.toList.length hagrees
  rw [← hmore, List.take_left] at htake
  exact ⟨_, _, (List.take_append_drop pool.toList.length pool'.toList).symm, htake⟩

/-- What encoding has written when it succeeds: magic number, version, pool and the rest. -/
theorem encode_ok {c : ClassFile} {b : List UInt8} (h : encode c = .ok b) :
    ∃ rest s pool, (encodeRest c).run (.ofPool c.pool) = .ok (rest, s) ∧
      s.pool.size ≤ poolLimit ∧ encodePool c.name s.pool = .ok pool ∧
      b = u4Bytes magic ++ versionBytes c ++ pool ++ rest := by
  rw [encode] at h
  cases hrest : (encodeRest c).run (.ofPool c.pool) with
  | error err => simp [hrest, Bind.bind, Except.bind] at h
  | ok p =>
      obtain ⟨rest, s⟩ := p
      rw [hrest] at h
      change (if 65535 < s.pool.size then _ else _) = _ at h
      split at h
      case isTrue => contradiction
      case isFalse hsize =>
        cases hpool : encodePool c.name s.pool with
        | error err => simp [hpool, Bind.bind, Except.bind] at h
        | ok pool =>
            rw [hpool] at h
            exact ⟨rest, s, pool, rfl, Nat.le_of_not_lt hsize, hpool, (Except.ok.inj h).symm⟩

/-- A class is read off its parts. -/
theorem decode_parts {c c' : ClassFile} (hmajor : c.major ≠ 0) {pool rest : List UInt8}
    (hpool : Reads decodePool pool c'.pool)
    (hrest : Reads (decodeRest c.minor c.major c'.pool) rest c') :
    decode (u4Bytes magic ++ versionBytes c ++ pool ++ rest) = .ok c' := by
  apply Reads.onBytes
  rw [versionBytes, if_neg hmajor]
  simp only [List.append_assoc]
  apply (reads_u4 magic).bind
  rw [if_neg (by simp)]
  apply (reads_u2 c.minor).bind
  apply (reads_u2 c.major).bind
  exact hpool.bind hrest

/-- A canonical class whose bodies are shorter than 4 GiB, the limit of their written length, is
read back from its written form field by field, except that entries may have been added to its
pool. -/
theorem decode_of_encode {c : ClassFile} (hc : c.Canonical)
    (hbodies : ∀ m ∈ c.methods, ∀ body, m.code = some body → codeLength body < 4294967296)
    {b : List UInt8} (hb : encode c = .ok b) :
    ∃ c', decode b = .ok c' ∧ PoolRestored c.pool c'.pool ∧ { c' with pool := c.pool } = c := by
  obtain ⟨rest, s, pool, hrest, hsize, hpool, rfl⟩ := encode_ok hb
  obtain ⟨hgrows, hsound, hreads⟩ :=
    yields_encodeRest hc hbodies (PoolState.sound_ofPool hc.pool) hrest
  obtain ⟨pool', hagrees, hreadPool⟩ := reads_decodePool hsound.canonical hsize hpool
  let c' : ClassFile := { c with pool := pool' }
  have hread := hreads c' (serves_of_agrees hsize hagrees) c.minor c.major
  have hdecode : Reads decoder (u4Bytes magic ++ versionBytes c ++ pool ++ rest) c' := by
    rw [versionBytes, if_neg hc.major]
    simp only [List.append_assoc]
    apply (reads_u4 magic).bind
    rw [if_neg (by simp)]
    apply (reads_u2 c.minor).bind
    apply (reads_u2 c.major).bind
    exact hreadPool.bind hread
  exact ⟨c', hdecode.onBytes, poolRestored_of_grows hgrows hagrees, rfl⟩

/-- A class with a wide entry, an infinite float and a text outside the basic plane in its pool,
whose other names the encoder has to add. -/
def counterClass : ClassFile where
  minor := 3
  major := 52
  pool := #[.blank, .utf8 "n", .long (-7), .blank, .float (Ieee.widen 0x7F800000),
    .link .string 6 0, .utf8 [0xF0, 0x9F, 0x98, 0x80, 0]]
  flags := ⟨0x21⟩
  name := "Counter"
  superName := "java/lang/Object"
  interfaces := ["Runnable"]
  fields := [⟨"n", "J", ⟨8⟩, 2⟩]
  methods := [⟨"run", "()V", ⟨1⟩, some ⟨2, 1, #[0x14, 0, 2, 0x58, 0xB1],
    [⟨0, 4, 4, "Fault"⟩, ⟨0, 4, 4, []⟩], [⟨0, 7⟩]⟩, ["Fault"]⟩]
  sourceFile := "Counter.java"

theorem canonical_counterClass : counterClass.Canonical where
  pool := by
    have hlast : Utf8.isValid [0xF0, 0x9F, 0x98, 0x80, 0] := by decide +kernel
    have hfirst : Utf8.isValid ("n" : Text) := by decide +kernel
    exact .inr ⟨_, rfl, .narrow hfirst rfl (.wide trivial rfl
      (.narrow (.inr ⟨_, rfl⟩) rfl (.narrow rfl rfl (.narrow hlast rfl .nil))))⟩
  major := by decide
  name := by decide +kernel
  name_ne := by decide
  superName := by decide +kernel
  sourceFile := by decide +kernel
  interfaces := by decide
  interfaces_valid := by decide +kernel
  interfaces_ne := by decide
  fields := by decide
  fields_valid := by decide +kernel
  methods := by decide
  methods_canonical := by
    rintro m hm
    obtain rfl := List.mem_singleton.mp hm
    refine ⟨by decide +kernel, by decide +kernel, ?_, by decide, by decide +kernel, by decide⟩
    rintro body hbody
    obtain rfl := Option.some.inj hbody
    exact ⟨by decide, by decide, by decide +kernel⟩

theorem decode_of_encode_counterClass : counterClass.Canonical ∧ ∃ b, encode counterClass = .ok b ∧
    ∃ c', decode b = .ok c' ∧ PoolRestored counterClass.pool c'.pool ∧
      { c' with pool := counterClass.pool } = counterClass := by
  refine ⟨canonical_counterClass, ?_⟩
  have hok : (encode counterClass).isOk = true := by decide +kernel
  cases hb : encode counterClass with
  | error err => simp [hb, Except.isOk, Except.toBool] at hok
  | ok b =>
      refine ⟨b, rfl, decode_of_encode canonical_counterClass ?_ hb⟩
      intro m hm body hbody
      obtain rfl := List.mem_singleton.mp hm
      obtain rfl := Option.some.inj hbody
      decide

end ClassFile

end ClassEngine
