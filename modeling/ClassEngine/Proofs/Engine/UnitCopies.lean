import ClassEngine.Proofs.Engine.Strings
import ClassEngine.Proofs.Text.Transcoding

/-!
Strings that are copied unit by unit. A string builder renders each unit it is given for itself, so
a copy has every character that is one unit, and two replacement characters for each that is two.
Main result: `strings_are_copied_by_unit`.
-/

namespace ClassEngine

namespace Utf16

/-- The text of units that are each rendered for itself. -/
def apart (us : List UInt16) : Text :=
  Utf8.encode (us.map single)

theorem apart_append (us vs : List UInt16) : apart (us ++ vs) = apart us ++ apart vs := by
  simp [apart, Utf8.encode]

/-- What becomes of a character: it stays if it is one unit. -/
def copied (c : Char) : List Char :=
  if c.toNat < 0x10000 then [c] else [Utf8.replacement, Utf8.replacement]

theorem single_of_surrogate {u : UInt16} (h : 0xD800 ≤ u.toNat ∧ u.toNat < 0xE000) :
    single u = Utf8.replacement := by
  refine if_pos ?_
  rw [Bool.or_eq_true, isHigh_iff, isLow_iff]
  omega

theorem map_single_unitsOf (c : Char) : (unitsOf c).map single = copied c := by
  have hscalar := toNat_scalar c
  by_cases h : c.toNat < 0x10000
  · have hdecode := decode_unitsOf_append_of_lt h []
    rw [List.append_nil, unitsOf, if_pos h, decode_singleton] at hdecode
    rw [unitsOf, if_pos h, copied, if_pos h]
    exact hdecode
  · have hhi : ((0xD800 + (c.toNat - 0x10000) / 1024).toUInt16).toNat =
        0xD800 + (c.toNat - 0x10000) / 1024 := toNat_toUInt16_of_lt (by omega)
    have hlo : ((0xDC00 + (c.toNat - 0x10000) % 1024).toUInt16).toNat =
        0xDC00 + (c.toNat - 0x10000) % 1024 := toNat_toUInt16_of_lt (by omega)
    rw [unitsOf, if_neg h, copied, if_neg h, List.map_cons, List.map_cons, List.map_nil,
      single_of_surrogate (by omega), single_of_surrogate (by omega)]

theorem map_single_encode (cs : List Char) : (encode cs).map single = cs.flatMap copied := by
  rw [encode, List.map_flatMap]
  exact List.flatMap_congr fun c _ => map_single_unitsOf c

/-- The characters of a copy. -/
theorem apart_units (t : Text) : apart (units t) = Utf8.encode ((Utf8.chars t).flatMap copied) := by
  rw [apart, units, map_single_encode]

theorem toNat_single_lt (u : UInt16) : (single u).toNat < 0x10000 := by
  have hu := u.toNat_lt
  rw [single]
  split
  case isTrue => decide
  case isFalse h =>
    rw [Bool.or_eq_true, isHigh_iff, isLow_iff] at h
    rw [toNat_ofNat_of_isScalar (by omega)]
    exact hu

/-- Rendering units one by one keeps their number. -/
theorem length_units_apart (us : List UInt16) : (units (apart us)).length = us.length := by
  have hone : ∀ u, (unitsOf (single u)).length = 1 := fun u => by
    rw [unitsOf, if_pos (toNat_single_lt u)]
    rfl
  rw [units, apart, chars_encode, encode, List.flatMap_map, List.length_flatMap]
  simp [hone]

/-- Characters stay if and only if each of them is one unit. -/
theorem flatMap_copied_eq {cs : List Char} :
    cs.flatMap copied = cs ↔ ∀ c ∈ cs, c.toNat < 0x10000 := by
  induction cs with
  | nil => simp
  | cons c cs ih =>
      rw [List.flatMap_cons, List.forall_mem_cons]
      by_cases h : c.toNat < 0x10000
      · rw [copied, if_pos h, List.singleton_append, List.cons_inj_right, ih]
        exact (and_iff_right h).symm
      · rw [copied, if_neg h]
        refine iff_of_false (fun hsame => h ?_) fun hall => h hall.1
        rw [← (List.cons.inj hsame).1]
        decide

/-- Each unit becomes at least one byte. -/
theorem length_le_apart (us : List UInt16) : us.length ≤ (apart us).length := by
  have hone : ∀ u ∈ us, 1 ≤ (String.utf8EncodeChar (single u)).length := fun u _ => by
    rw [String.length_utf8EncodeChar]
    exact (single u).utf8Size_pos
  rw [apart, Utf8.encode, List.flatMap_map, List.length_flatMap]
  simpa using List.card_nsmul_le_sum (us.map fun u => (String.utf8EncodeChar (single u)).length) 1
    (by simpa using hone)

theorem apart_units_eq {t : Text} (h : Utf8.isValid t = true) :
    apart (units t) = t ↔ ∀ c ∈ Utf8.chars t, c.toNat < 0x10000 := by
  rw [apart_units, ← flatMap_copied_eq]
  refine ⟨fun hsame => Utf8.encode_injective (hsame.trans (Utf8.encode_chars h).symm), fun hsame => ?_⟩
  rw [hsame, Utf8.encode_chars h]

end Utf16

open Machine Exec Allocation

/-- Appends `count` units of a string to a string builder, from the one at `i` on. -/
def appendUnits (s b : Ref) : (count i : Nat) → Exec Unit
  | 0, _ => pure ()
  | count + 1, i => do
    let unit ← Builtin.stringCharAt.run #[.ref s, .int (Int32.ofNat i)]
    let _ ← (Builtin.builderAppend Descriptor.char).run #[.ref b, unit]
    appendUnits s b count (i + 1)

/-- Copies a string unit by unit with a string builder. -/
def copyString (s b : Ref) : Exec Value := do
  match ← Builtin.stringLength.run #[.ref s] with
  | .int n => do
    appendUnits s b n.toInt.toNat 0
    Builtin.builderToString.run #[.ref b]
  | v => pure v

/-- An object is a string builder with a text in its buffer. -/
def Machine.HasBuffer (m : Machine) (b : Ref) (t : Text) : Prop :=
  ∃ o n, m.heap[b.number - 1]? = some o ∧ o.payload = .buffer n ∧ m.buffers[n]? = some t

/-- A string can be read, and others can be made: an engine with a string and room for two frames. -/
structure Machine.Reads (m : Machine) (s a : Ref) (t : Text) : Prop where
  strings : m.HasStrings
  room : ((depthOf m.frames + 2 : Nat) : Int) ≤ m.maxDepth
  string : m.IsString s a t

section Copying

variable (host : Host) (steps nesting : Nat) {m : Machine} {s a b : Ref} {t text : Text}

/-- An engine in which the text of a string builder has grown, and nothing else is different. -/
structure Machine.Grows (m : Machine) (b : Ref) (text : Text) (m' : Machine) : Prop where
  same : ∃ buffers, ({ m with buffers } : Machine).Resembles m'
  buffer : m'.HasBuffer b text

theorem Machine.Reads.hostText (h : m.Reads s a t) :
    ∃ m', Allocation.hostText (.ref s) (Session.context host (steps + 3) (nesting + 2)) m = .ok t m' ∧
      m.Resembles m' :=
  hostText_of_isString host steps nesting h.strings
    (Int.le_trans (Int.ofNat_le.mpr (Nat.le_succ _)) h.room) h.string

theorem stringLength_runs (h : m.Reads s a t) :
    ∃ m', Builtin.stringLength.run #[.ref s] (Session.context host (steps + 3) (nesting + 2)) m =
      .ok (.int (Int32.ofNat (Utf16.units t).length)) m' ∧ m.Resembles m' := by
  obtain ⟨m', hread, hm'⟩ := h.hostText host steps nesting
  exact ⟨m', bind_of_ok hread, hm'⟩

theorem stringCharAt_runs {i : Nat} {u : UInt16} (h : m.Reads s a t) (hi : i < 2147483648)
    (hu : (Utf16.units t)[i]? = some u) :
    ∃ m', Builtin.stringCharAt.run #[.ref s, .int (Int32.ofNat i)]
        (Session.context host (steps + 3) (nesting + 2)) m = .ok (.int (Int32.ofNat u.toNat)) m' ∧
      m.Resembles m' := by
  obtain ⟨m', hread, hm'⟩ := h.hostText host steps nesting
  have hindex : (Int32.ofNat i).toInt = i := Int32.toInt_ofNat_of_lt hi
  have hpositive : ¬Int32.ofNat i < 0 := by
    rw [Int32.lt_iff_toInt_lt, hindex]
    exact Int.not_lt.mpr (Int.natCast_nonneg i)
  have hunit : Builtin.charAt t (Int32.ofNat i) (Session.context host (steps + 3) (nesting + 2)) m' =
      .ok (.int (Int32.ofNat u.toNat)) m' := by
    unfold Builtin.charAt
    rw [if_neg hpositive, hindex, Int.toNat_natCast, hu]
    rfl
  exact ⟨m', (bind_of_ok hread).trans hunit, hm'⟩

theorem unit_back (u : UInt16) : (Int32.ofNat u.toNat).toUInt32.toUInt16 = u := by
  apply UInt16.toNat_inj.mp
  simp

theorem bufferOf_ok {ctx : Context} {o : Object} {n : Nat} (ho : m.heap[b.number - 1]? = some o)
    (hn : o.payload = .buffer n) : Builtin.bufferOf b ctx m = .ok n m := by
  have hget : (get : Exec Machine) ctx m = .ok m m := rfl
  have hobject : objectAt b ctx m = .ok o m := by
    rw [objectAt, bind_of_ok hget, ho]
    rfl
  rw [Builtin.bufferOf, bind_of_ok hobject, hn]
  rfl

/-- A unit is appended as it is rendered for itself. -/
theorem builderAppend_runs (ctx : Context) (u : UInt16) (h : m.HasBuffer b text) :
    ∃ m', (Builtin.builderAppend Descriptor.char).run #[.ref b, .int (Int32.ofNat u.toNat)] ctx m =
      .ok (.ref b) m' ∧ m.Grows b (text ++ Utf16.apart [u]) m' := by
  obtain ⟨o, n, ho, hn, htext⟩ := h
  have hbuffer : Builtin.bufferOf b ctx m = .ok n m := bufferOf_ok ho hn
  let m' : Machine := { m with buffers := m.buffers.modify n (· ++ Utf16.apart [u]) }
  have happend : Builtin.appendTo b (Utf16.apart [u]) ctx m = .ok () m' := by
    rw [Builtin.appendTo, bind_of_ok hbuffer]
    rfl
  have hvalue : Display.valueText Descriptor.char (.int (Int32.ofNat u.toNat)) ctx m =
      .ok (Utf16.apart [u]) m := by
    change EStateM.Result.ok (Utf8.encode [Utf16.single (Int32.ofNat u.toNat).toUInt32.toUInt16]) m = _
    rw [unit_back]
    rfl
  let locals : Array Value := #[.ref b, .int (Int32.ofNat u.toNat)]
  have hself : Builtin.argRef locals 0 ctx m = .ok (some b) m := rfl
  have hunit : Builtin.arg locals 1 ctx m = .ok (.int (Int32.ofNat u.toNat)) m := rfl
  refine ⟨m', (bind_of_ok hself).trans ((bind_of_ok hunit).trans ((bind_of_ok hvalue).trans
    (bind_of_ok happend))), ⟨⟨_, .refl m'⟩, o, n, ho, hn, ?_⟩⟩
  rw [Array.getElem?_modify, if_pos rfl, htext]
  rfl

theorem Machine.Resembles.withBuffers {m' : Machine} (h : m.Resembles m') (buffers : Array Text) :
    Machine.Resembles { m with buffers } { m' with buffers } where
  rest := by rw [h.rest]
  strings hm := (h.strings (hm.of_eq rfl rfl)).of_eq rfl rfl

theorem Machine.Grows.trans {m₁ m₂ : Machine} {text' : Text} (h : m.Grows b text m₁)
    (h' : m₁.Grows b text' m₂) : m.Grows b text' m₂ := by
  obtain ⟨⟨buffers, hsame⟩, -⟩ := h
  obtain ⟨⟨buffers', hsame'⟩, hbuffer⟩ := h'
  exact ⟨⟨buffers', (hsame.withBuffers buffers').trans hsame'⟩, hbuffer⟩

theorem Machine.Resembles.grows {m' : Machine} (h : m.Resembles m') (hbuffer : m.HasBuffer b text) :
    m.Grows b text m' := by
  obtain ⟨o, n, ho, hn, htext⟩ := hbuffer
  have hbuffers : m'.buffers = m.buffers := by rw [h.rest]
  exact ⟨⟨m.buffers, h⟩, o, n, h.heap ▸ ho, hn, hbuffers ▸ htext⟩

theorem Machine.Grows.reads {m' : Machine} (h : m.Grows b text m') (hs : m.Reads s a t) :
    m'.Reads s a t := by
  obtain ⟨⟨buffers, hsame⟩, -⟩ := h
  refine ⟨hsame.strings (hs.strings.of_eq rfl rfl), ?_, ?_, ?_⟩
  · rw [hsame.frames, hsame.maxDepth]
    exact hs.room
  · rw [hsame.heap]
    exact hs.string.string
  · rw [hsame.heap]
    exact hs.string.bytes

/-- The units are appended one after the other. -/
theorem appendUnits_runs {count i : Nat} (hs : m.Reads s a t) (hb : m.HasBuffer b text)
    (hcount : i + count = (Utf16.units t).length) (hsmall : (Utf16.units t).length < 2147483648) :
    ∃ m', appendUnits s b count i (Session.context host (steps + 3) (nesting + 2)) m = .ok () m' ∧
      m.Grows b (text ++ Utf16.apart ((Utf16.units t).drop i)) m' := by
  induction count generalizing m text i with
  | zero =>
      refine ⟨m, rfl, ?_⟩
      rw [List.drop_eq_nil_of_le (by omega), show Utf16.apart [] = [] from rfl, List.append_nil]
      exact (Machine.Resembles.refl m).grows hb
  | succ count ih =>
      have hlt : i < (Utf16.units t).length := by omega
      let u := (Utf16.units t)[i]
      obtain ⟨m₁, hchar, hm₁⟩ := stringCharAt_runs host steps nesting hs
        (hlt.trans hsmall) (List.getElem?_eq_getElem hlt)
      have hread := hm₁.grows hb
      obtain ⟨m₂, happend, hm₂⟩ := builderAppend_runs
        (Session.context host (steps + 3) (nesting + 2)) u hread.buffer
      have hone := hread.trans hm₂
      obtain ⟨m', hrest, hm'⟩ := ih (i := i + 1) (hone.reads hs) hone.buffer (by omega)
      refine ⟨m', (bind_of_ok hchar).trans ((bind_of_ok happend).trans hrest), ?_⟩
      have hunits : (Utf16.units t).drop i = [u] ++ (Utf16.units t).drop (i + 1) :=
        List.drop_eq_getElem_cons hlt
      rw [hunits, Utf16.apart_append, ← List.append_assoc]
      exact hone.trans hm'

/-- A copy has the units of the string, each rendered for itself. -/
theorem copyString_runs (hs : m.Reads s a t) (hb : m.HasBuffer b [])
    (hsmall : (Utf16.apart (Utf16.units t)).length < 2147483648) :
    ∃ r a' m', copyString s b (Session.context host (steps + 18) (nesting + 3)) m = .ok (.ref r) m' ∧
      m'.IsString r a' (Utf16.apart (Utf16.units t)) := by
  let ctx := Session.context host (steps + 18) (nesting + 3)
  have hcount : (Utf16.units t).length < 2147483648 :=
    (Utf16.length_le_apart _).trans_lt hsmall
  have hn : (Int32.ofNat (Utf16.units t).length).toInt.toNat = (Utf16.units t).length := by
    rw [Int32.toInt_ofNat_of_lt hcount, Int.toNat_natCast]
  obtain ⟨m₁, hlength, hm₁⟩ := stringLength_runs host (steps + 15) (nesting + 1) hs
  have hread := hm₁.grows hb
  obtain ⟨m₂, happend, hm₂⟩ := appendUnits_runs host (steps + 15) (nesting + 1)
    (hread.reads hs) hread.buffer (Nat.zero_add _) hcount
  have hs₂ := hm₂.reads (hread.reads hs)
  obtain ⟨o, n, ho, hpayload, htext⟩ := hm₂.buffer
  have hbuffer : Builtin.bufferOf b ctx m₂ = .ok n m₂ := bufferOf_ok ho hpayload
  have hget : (get : Exec Machine) ctx m₂ = .ok m₂ m₂ := rfl
  rw [List.drop_zero, List.nil_append] at htext
  have hcontents : Builtin.bufferText b ctx m₂ = .ok (Utf16.apart (Utf16.units t)) m₂ := by
    rw [Builtin.bufferText, bind_of_ok hbuffer, bind_of_ok hget, htext]
    rfl
  obtain ⟨r, a', heap, m', hnew, hstring, -⟩ := newString_isNew host steps nesting
    (Utf16.apart (Utf16.units t)) hs₂.strings hs₂.room hsmall
  refine ⟨r, a', m', (bind_of_ok hlength).trans ?_, hstring⟩
  dsimp only
  rw [hn, bind_of_ok happend]
  exact (bind_of_ok hcontents).trans (bind_of_ok hnew)

/-- There is an engine with a string of a given text and an empty string builder. -/
theorem exists_reads (t : Text) (hsmall : t.length < 2147483648) :
    ∃ (m : Machine) (s a b : Ref), m.Reads s a t ∧ m.HasBuffer b [] := by
  obtain ⟨classes, hstrings⟩ := exists_hasStrings
  let builder : Object :=
    { Object.empty (Descriptor.ofInternal Library.stringBuilderName) with payload := .buffer 0 }
  let m₀ : Machine := { Session.fresh with classes, heap := #[builder], buffers := #[[]] }
  have hroom : ((depthOf m₀.frames + 2 : Nat) : Int) ≤ m₀.maxDepth := by
    change ((depthOf Session.fresh.frames + 2 : Nat) : Int) ≤ Session.fresh.maxDepth
    decide
  obtain ⟨s, a, heap, m, -, hstring, -, -, hkept, hm⟩ := newString_isNew ⟨none, 0, 0⟩ 0 0
    (m := m₀) t (hstrings.of_eq rfl rfl) hroom hsmall
  have hbuffers : m.buffers = #[[]] := by rw [hm.rest]
  refine ⟨m, s, a, ⟨1⟩, ⟨hm.strings (hstrings.of_eq rfl rfl), ?_, hstring⟩, builder, 0, ?_, rfl, ?_⟩
  · rw [hm.frames, hm.maxDepth]
    exact hroom
  · exact hkept 0 Nat.zero_lt_one
  · rw [hbuffers]
    rfl

/-- A string that is copied unit by unit keeps its length and its characters, but for those that are
two units: each of these becomes two replacement characters. -/
theorem strings_are_copied_by_unit (hvalid : Utf8.isValid t = true) (hs : m.Reads s a t)
    (hb : m.HasBuffer b []) (hsmall : (Utf16.apart (Utf16.units t)).length < 2147483648) :
    ∃ r a' t' m', copyString s b (Session.context host (steps + 18) (nesting + 3)) m =
        .ok (.ref r) m' ∧
      m'.IsString r a' t' ∧ t' = Utf8.encode ((Utf8.chars t).flatMap Utf16.copied) ∧
      (Utf16.units t').length = (Utf16.units t).length ∧
      (t' = t ↔ ∀ c ∈ Utf8.chars t, c.toNat < 0x10000) := by
  obtain ⟨r, a', m', hrun, hstring⟩ := copyString_runs host steps nesting hs hb hsmall
  exact ⟨r, a', _, m', hrun, hstring, Utf16.apart_units t, Utf16.length_units_apart _,
    Utf16.apart_units_eq hvalid⟩

end Copying

/-- A letter that is one unit is kept, and a face that is two is not. -/
theorem strings_are_copied_by_unit_face : ∃ (host : Host) (m m' : Machine) (s a b r a' : Ref),
    m.Reads s a "a😀" ∧ m.HasBuffer b [] ∧
      copyString s b (Session.context host 18 3) m = .ok (.ref r) m' ∧
      m'.IsString r a' "a\uFFFD\uFFFD" := by
  let host : Host := ⟨none, 0, 0⟩
  obtain ⟨m, s, a, b, hs, hb⟩ := exists_reads "a😀" (by decide)
  have hchars : Utf8.chars "a😀" = ['a', '😀'] := Utf16.chars_encode ['a', '😀']
  have hsmall : (Utf16.apart (Utf16.units "a😀")).length < 2147483648 := by
    rw [Utf16.units, hchars]
    decide
  obtain ⟨r, a', t', m', hrun, hstring, rfl, -⟩ := strings_are_copied_by_unit host 0 0
    (Text.isValid_ofString "a😀") hs hb hsmall
  rw [hchars] at hstring
  exact ⟨host, m, m', s, a, b, r, a', hs, hb, hrun, hstring⟩

/-- A copy need not be the same. -/
theorem copy_of_face_differs : ∃ (host : Host) (m m' : Machine) (s a b r a' : Ref) (t : Text),
    m.Reads s a "😀" ∧ m.HasBuffer b [] ∧
      copyString s b (Session.context host 18 3) m = .ok (.ref r) m' ∧ m'.IsString r a' t ∧ t ≠ "😀" := by
  let host : Host := ⟨none, 0, 0⟩
  obtain ⟨m, s, a, b, hs, hb⟩ := exists_reads "😀" (by decide)
  have hchars : Utf8.chars "😀" = ['😀'] := Utf16.chars_encode ['😀']
  have hsmall : (Utf16.apart (Utf16.units "😀")).length < 2147483648 := by
    rw [Utf16.units, hchars]
    decide
  have hdiffers : Utf16.apart (Utf16.units "😀") ≠ "😀" := by
    rw [Utf16.units, hchars]
    decide
  obtain ⟨r, a', m', hrun, hstring⟩ := copyString_runs host 0 0 hs hb hsmall
  exact ⟨host, m, m', s, a, b, r, a', _, hs, hb, hrun, hstring, hdiffers⟩

end ClassEngine
