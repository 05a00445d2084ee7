import Mathlib.Tactic.Common
import ClassEngine.Text.ModifiedUtf8

/-!
Changing the encoding of a text loses nothing: a valid text is the UTF-8 of its characters and the
UTF-8 of characters is valid, the UTF-16 units of characters give the characters back, and class-file
bytes, none of them zero, give back the text they were made from.
-/

namespace ClassEngine

/-! Characters and code points -/

theorem toNat_ofNat_of_isScalar {n : Nat} (h : n < 0xD800 ∨ 0xDFFF < n ∧ n < 0x110000) :
    (Char.ofNat n).toNat = n := by
  rw [Char.ofNat, dif_pos h]
  rfl

theorem toNat_scalar (c : Char) : c.toNat < 0xD800 ∨ 0xDFFF < c.toNat ∧ c.toNat < 0x110000 :=
  c.valid

theorem uInt8_eq_ofNat {b : UInt8} {n : Nat} (h : b.toNat = n) : b = UInt8.ofNat n := by
  rw [← h, UInt8.ofNat_toNat]

namespace Utf8

theorem isContinuation_iff (b : UInt8) :
    isContinuation b = true ↔ 128 ≤ b.toNat ∧ b.toNat < 192 := by
  simp [isContinuation, UInt8.le_iff_toNat_le, UInt8.lt_iff_toNat_lt]

theorem utf8EncodeChar_of_toNat {c : Char} {n : Nat} (h : c.toNat = n) :
    String.utf8EncodeChar c =
      if n ≤ 0x7F then [UInt8.ofNat n]
      else if n ≤ 0x7FF then [UInt8.ofNat (n / 64 % 32 + 0xC0), UInt8.ofNat (n % 64 + 0x80)]
      else if n ≤ 0xFFFF then
        [UInt8.ofNat (n / 4096 % 16 + 0xE0), UInt8.ofNat (n / 64 % 64 + 0x80),
          UInt8.ofNat (n % 64 + 0x80)]
      else
        [UInt8.ofNat (n / 262144 % 8 + 0xF0), UInt8.ofNat (n / 4096 % 64 + 0x80),
          UInt8.ofNat (n / 64 % 64 + 0x80), UInt8.ofNat (n % 64 + 0x80)] := by
  subst h
  rfl

theorem utf8EncodeChar_two {a b : UInt8} (ha : 0xC2 ≤ a.toNat ∧ a.toNat < 0xE0)
    (hb : isContinuation b) :
    String.utf8EncodeChar (Char.ofNat ((a.toNat - 0xC0) * 64 + low6 b)) = [a, b] := by
  rw [isContinuation_iff] at hb
  simp only [low6]
  rw [utf8EncodeChar_of_toNat (toNat_ofNat_of_isScalar (by omega)), if_neg (by omega),
    if_pos (by omega), ← uInt8_eq_ofNat (b := a) (by omega), ← uInt8_eq_ofNat (b := b) (by omega)]

theorem utf8EncodeChar_three {a b c : UInt8} (ha : 0xE0 ≤ a.toNat ∧ a.toNat < 0xF0)
    (hb : isContinuation b) (hc : isContinuation c) {n : Nat}
    (hn : n = (a.toNat - 0xE0) * 4096 + low6 b * 64 + low6 c) (hmin : 0x800 ≤ n)
    (hscalar : ¬(0xD800 ≤ n ∧ n < 0xE000)) :
    String.utf8EncodeChar (Char.ofNat n) = [a, b, c] := by
  rw [isContinuation_iff] at hb hc
  simp only [low6] at hn
  rw [utf8EncodeChar_of_toNat (toNat_ofNat_of_isScalar (by omega)), if_neg (by omega),
    if_neg (by omega), if_pos (by omega), ← uInt8_eq_ofNat (b := a) (by omega),
    ← uInt8_eq_ofNat (b := b) (by omega), ← uInt8_eq_ofNat (b := c) (by omega)]

theorem utf8EncodeChar_four {a b c d : UInt8} (ha : 0xF0 ≤ a.toNat ∧ a.toNat < 0xF5)
    (hb : isContinuation b) (hc : isContinuation c) (hd : isContinuation d) {n : Nat}
    (hn : n = (a.toNat - 0xF0) * 262144 + low6 b * 4096 + low6 c * 64 + low6 d)
    (hmin : 0x10000 ≤ n) (hmax : n < 0x110000) :
    String.utf8EncodeChar (Char.ofNat n) = [a, b, c, d] := by
  rw [isContinuation_iff] at hb hc hd
  simp only [low6] at hn
  rw [utf8EncodeChar_of_toNat (toNat_ofNat_of_isScalar (by omega)), if_neg (by omega),
    if_neg (by omega), if_neg (by omega), ← uInt8_eq_ofNat (b := a) (by omega),
    ← uInt8_eq_ofNat (b := b) (by omega), ← uInt8_eq_ofNat (b := c) (by omega),
    ← uInt8_eq_ofNat (b := d) (by omega)]

/-- A character that `next` finds is spelled by exactly the bytes it consumes. -/
theorem next_char_bytes {a : UInt8} {rest tail : Text} {c : Char}
    (h : next a rest = (.char c, tail)) : a :: rest = String.utf8EncodeChar c ++ tail := by
  simp only [next, UInt8.lt_iff_toNat_lt, UInt8.reduceToNat] at h
  -- one case for each number of bytes that the first byte announces
  split at h
  · rename_i h1
    obtain ⟨rfl, rfl⟩ : Char.ofNat a.toNat = c ∧ rest = tail := by simpa using h
    rw [utf8EncodeChar_of_toNat (toNat_ofNat_of_isScalar (by omega)), if_pos (by omega)]
    simp
  split at h
  · simp at h
  split at h
  · split at h
    · rename_i b rest'
      split at h
      · obtain ⟨rfl, rfl⟩ : Char.ofNat ((a.toNat - 0xC0) * 64 + low6 b) = c ∧ rest' = tail := by
          simpa using h
        rw [utf8EncodeChar_two ⟨by omega, by omega⟩ ‹_›]
        rfl
      · simp at h
    · simp at h
  split at h
  · split at h
    · rename_i b d rest'
      split at h
      · rename_i hcond
        obtain ⟨rfl, rfl⟩ :
            Char.ofNat ((a.toNat - 0xE0) * 4096 + low6 b * 64 + low6 d) = c ∧ rest' = tail := by
          simpa using h
        simp only [Bool.and_eq_true, Bool.not_eq_true', decide_eq_true_eq,
          Bool.and_eq_false_iff, decide_eq_false_iff_not] at hcond
        obtain ⟨⟨⟨hb, hd⟩, hmin⟩, hscalar⟩ := hcond
        rw [utf8EncodeChar_three ⟨by omega, by omega⟩ hb hd rfl hmin (by omega)]
        rfl
      · simp at h
    · simp at h
  split at h
  · split at h
    · rename_i b d e rest'
      split at h
      · rename_i hcond
        obtain ⟨rfl, rfl⟩ : Char.ofNat ((a.toNat - 0xF0) * 262144 + low6 b * 4096 + low6 d * 64 +
            low6 e) = c ∧ rest' = tail := by
          simpa using h
        simp only [Bool.and_eq_true, decide_eq_true_eq] at hcond
        obtain ⟨⟨⟨⟨hb, hd⟩, he⟩, hmin⟩, hmax⟩ := hcond
        rw [utf8EncodeChar_four ⟨by omega, by omega⟩ hb hd he rfl hmin hmax]
        rfl
      · simp at h
    · simp at h
  · simp at h

/-- A valid text is the UTF-8 of its characters. -/
theorem encode_chars {t : Text} (h : isValid t) : encode (chars t) = t := by
  induction hn : t.length using Nat.strongRecOn generalizing t with
  | _ n ih =>
      match t with
      | [] => simp [chars, encode]
      | a :: rest =>
          have hlen := next_length_le a rest
          rw [isValid, pieces_cons, List.all_cons, Bool.and_eq_true] at h
          rcases hnext : next a rest with ⟨piece, tail⟩
          rw [hnext] at h hlen
          cases piece with
          | stray b => simp at h
          | char c =>
              have htail : encode (chars tail) = tail :=
                ih tail.length (by simp at hn hlen; omega) h.2 rfl
              rw [chars, pieces_cons, hnext, next_char_bytes hnext]
              change String.utf8EncodeChar c ++ encode (chars tail) = _
              rw [htail]

/-- The bytes of a character are one piece, whatever follows them. -/
theorem next_utf8EncodeChar (c : Char) (tail : Text) :
    ∃ b rest, String.utf8EncodeChar c = b :: rest ∧ next b (rest ++ tail) = (.char c, tail) := by
  have hscalar := toNat_scalar c
  have hback : Char.ofNat c.toNat = c := Char.ofNat_toNat c
  have hbyte : ∀ {n}, n < 256 → (UInt8.ofNat n).toNat = n := fun h => UInt8.toNat_ofNat_of_lt' h
  rw [utf8EncodeChar_of_toNat rfl]
  split
  case isTrue h1 =>
    refine ⟨_, _, rfl, ?_⟩
    simp only [next, UInt8.lt_iff_toNat_lt, UInt8.reduceToNat, hbyte (n := c.toNat) (by omega), hback]
    rw [if_pos (by omega)]
    rfl
  split
  case isTrue h2 =>
    have ha : (UInt8.ofNat (c.toNat / 64 % 32 + 0xC0)).toNat = c.toNat / 64 % 32 + 0xC0 :=
      hbyte (by omega)
    have hb : (UInt8.ofNat (c.toNat % 64 + 0x80)).toNat = c.toNat % 64 + 0x80 := hbyte (by omega)
    refine ⟨_, _, rfl, ?_⟩
    simp only [next, UInt8.lt_iff_toNat_lt, UInt8.reduceToNat, ha, isContinuation_iff, hb, low6,
      List.cons_append, List.nil_append]
    rw [if_neg (by omega), if_neg (by omega), if_pos (by omega), if_pos (by omega),
      show (c.toNat / 64 % 32 + 192 - 192) * 64 + (c.toNat % 64 + 128) % 64 = c.toNat by omega, hback]
  split
  case isTrue h3 =>
    have ha : (UInt8.ofNat (c.toNat / 4096 % 16 + 0xE0)).toNat = c.toNat / 4096 % 16 + 0xE0 :=
      hbyte (by omega)
    have hb : (UInt8.ofNat (c.toNat / 64 % 64 + 0x80)).toNat = c.toNat / 64 % 64 + 0x80 :=
      hbyte (by omega)
    have hd : (UInt8.ofNat (c.toNat % 64 + 0x80)).toNat = c.toNat % 64 + 0x80 := hbyte (by omega)
    refine ⟨_, _, rfl, ?_⟩
    simp only [next, UInt8.lt_iff_toNat_lt, UInt8.reduceToNat, ha, isContinuation_iff, hb, hd, low6,
      List.cons_append, List.nil_append, Bool.and_eq_true, Bool.not_eq_true', decide_eq_true_eq,
      Bool.and_eq_false_iff, decide_eq_false_iff_not]
    rw [if_neg (by omega), if_neg (by omega), if_neg (by omega), if_pos (by omega),
      show (c.toNat / 4096 % 16 + 224 - 224) * 4096 + (c.toNat / 64 % 64 + 128) % 64 * 64 +
        (c.toNat % 64 + 128) % 64 = c.toNat by omega, if_pos (by omega), hback]
  case isFalse h3 =>
    have ha : (UInt8.ofNat (c.toNat / 262144 % 8 + 0xF0)).toNat = c.toNat / 262144 % 8 + 0xF0 :=
      hbyte (by omega)
    have hb : (UInt8.ofNat (c.toNat / 4096 % 64 + 0x80)).toNat = c.toNat / 4096 % 64 + 0x80 :=
      hbyte (by omega)
    have hd : (UInt8.ofNat (c.toNat / 64 % 64 + 0x80)).toNat = c.toNat / 64 % 64 + 0x80 :=
      hbyte (by omega)
    have he : (UInt8.ofNat (c.toNat % 64 + 0x80)).toNat = c.toNat % 64 + 0x80 := hbyte (by omega)
    refine ⟨_, _, rfl, ?_⟩
    simp only [next, UInt8.lt_iff_toNat_lt, UInt8.reduceToNat, ha, isContinuation_iff, hb, hd, he,
      low6, List.cons_append, List.nil_append, Bool.and_eq_true, decide_eq_true_eq]
    rw [if_neg (by omega), if_neg (by omega), if_neg (by omega), if_neg (by omega),
      if_pos (by omega),
      show (c.toNat / 262144 % 8 + 240 - 240) * 262144 + (c.toNat / 4096 % 64 + 128) % 64 * 4096 +
        (c.toNat / 64 % 64 + 128) % 64 * 64 + (c.toNat % 64 + 128) % 64 = c.toNat by omega,
      if_pos (by omega), hback]

/-- The UTF-8 of characters has those characters for its pieces. -/
theorem pieces_encode (cs : List Char) : pieces (encode cs) = cs.map .char := by
  induction cs with
  | nil => exact pieces_nil
  | cons c cs ih =>
      obtain ⟨b, rest, hbytes, hnext⟩ := next_utf8EncodeChar c (encode cs)
      rw [encode, List.flatMap_cons, hbytes, List.cons_append, pieces_cons]
      change (next b (rest ++ encode cs)).1 :: pieces (next b (rest ++ encode cs)).2 = _
      rw [hnext, ih, List.map_cons]

theorem isValid_encode (cs : List Char) : isValid (encode cs) := by
  rw [isValid, pieces_encode]
  simp

theorem encode_injective {cs ds : List Char} (h : encode cs = encode ds) : cs = ds := by
  have hpieces := congrArg pieces h
  rw [pieces_encode, pieces_encode] at hpieces
  exact (List.map_inj_right fun _ _ => Piece.char.inj).mp hpieces

theorem length_encode_le (cs : List Char) : (encode cs).length ≤ 4 * cs.length := by
  induction cs with
  | nil => simp [encode]
  | cons c cs ih =>
      have hc : (String.utf8EncodeChar c).length ≤ 4 := by
        rw [String.length_utf8EncodeChar]
        exact c.utf8Size_le_four
      rw [encode, List.flatMap_cons, List.length_append, List.length_cons, ← encode]
      omega

end Utf8

/-- Different strings are different texts. -/
@[simp] theorem Text.ofString_inj {s t : String} : Text.ofString s = Text.ofString t ↔ s = t :=
  ⟨fun h => String.toList_inj.mp (Utf8.encode_injective h), fun h => h ▸ rfl⟩

theorem Text.isValid_ofString (s : String) : Utf8.isValid (Text.ofString s) :=
  Utf8.isValid_encode s.toList

namespace Utf16

theorem chars_encode (cs : List Char) : Utf8.chars (Utf8.encode cs) = cs := by
  rw [Utf8.chars, Utf8.pieces_encode, List.map_map]
  exact List.map_id cs

theorem isHigh_iff (u : UInt16) : isHigh u = true ↔ 0xD800 ≤ u.toNat ∧ u.toNat < 0xDC00 := by
  simp [isHigh, UInt16.le_iff_toNat_le, UInt16.lt_iff_toNat_lt]

theorem isLow_iff (u : UInt16) : isLow u = true ↔ 0xDC00 ≤ u.toNat ∧ u.toNat < 0xE000 := by
  simp [isLow, UInt16.le_iff_toNat_le, UInt16.lt_iff_toNat_lt]

theorem toNat_toUInt16_of_lt {n : Nat} (h : n < 65536) : n.toUInt16.toNat = n :=
  UInt16.toNat_ofNat_of_lt' h

/-- Below the supplementary planes a character is one unit, which is no surrogate. -/
theorem decode_unitsOf_append_of_lt {c : Char} (h : c.toNat < 0x10000) (us : List UInt16) :
    decode (unitsOf c ++ us) = c :: decode us := by
  have hscalar := toNat_scalar c
  have hunit : (c.toNat.toUInt16).toNat = c.toNat := toNat_toUInt16_of_lt h
  have hhigh : isHigh c.toNat.toUInt16 = false := by
    rw [← Bool.not_eq_true, isHigh_iff]
    omega
  have hlow : isLow c.toNat.toUInt16 = false := by
    rw [← Bool.not_eq_true, isLow_iff]
    omega
  have hsingle : single c.toNat.toUInt16 = c := by
    rw [single, hhigh, hlow, hunit]
    simp
  rw [unitsOf, if_pos h]
  cases us with
  | nil => simp [hsingle]
  | cons v us => simp [decode_cons_cons, hhigh, hsingle]

/-- A supplementary character is a high and a low surrogate, which form a pair whatever follows. -/
theorem decode_unitsOf_append_of_ge {c : Char} (h : ¬c.toNat < 0x10000) (us : List UInt16) :
    decode (unitsOf c ++ us) = c :: decode us := by
  have hscalar := toNat_scalar c
  have hhi : ((0xD800 + (c.toNat - 0x10000) / 1024).toUInt16).toNat =
      0xD800 + (c.toNat - 0x10000) / 1024 := toNat_toUInt16_of_lt (by omega)
  have hlo : ((0xDC00 + (c.toNat - 0x10000) % 1024).toUInt16).toNat =
      0xDC00 + (c.toNat - 0x10000) % 1024 := toNat_toUInt16_of_lt (by omega)
  rw [unitsOf, if_neg h]
  simp only [List.cons_append, List.nil_append, decode_cons_cons]
  rw [if_pos (by rw [Bool.and_eq_true, isHigh_iff, isLow_iff]; omega)]
  have hpoint : 0x10000 + (0xD800 + (c.toNat - 0x10000) / 1024 - 0xD800) * 1024 +
      (0xDC00 + (c.toNat - 0x10000) % 1024 - 0xDC00) = c.toNat := by
    omega
  rw [pair, hhi, hlo, hpoint, Char.ofNat_toNat]

/-- The units of characters give the characters back. -/
theorem decode_encode (cs : List Char) : decode (encode cs) = cs := by
  induction cs with
  | nil => simp [encode]
  | cons c cs ih =>
      change decode (unitsOf c ++ encode cs) = c :: cs
      by_cases h : c.toNat < 0x10000
      · rw [decode_unitsOf_append_of_lt h, ih]
      · rw [decode_unitsOf_append_of_ge h, ih]

theorem length_decode_le (us : List UInt16) : (decode us).length ≤ us.length := by
  induction hn : us.length using Nat.strongRecOn generalizing us with
  | _ n ih =>
      match us with
      | [] => simp
      | [u] => simp [← hn]
      | u :: v :: rest =>
          simp only [List.length_cons] at hn
          have hpair := ih _ (by omega) rest rfl
          have hsingle := ih _ (by simp; omega) (v :: rest) rfl
          simp only [List.length_cons] at hsingle
          rw [decode_cons_cons]
          split
          case isTrue => rw [List.length_cons]; omega
          case isFalse => rw [List.length_cons]; omega

end Utf16

namespace ModifiedUtf8

theorem toNat_toUInt8_of_lt {n : Nat} (h : n < 256) : n.toUInt8.toNat = n :=
  UInt8.toNat_ofNat_of_lt' h

theorem uInt16_eq_toUInt16 {u : UInt16} {n : Nat} (h : n = u.toNat) : n.toUInt16 = u := by
  rw [h]
  exact UInt16.ofNat_toNat

theorem nextUnit_one {a : UInt8} (h : a.toNat < 0x80) (bs : List UInt8) :
    nextUnit a bs = (a.toUInt16, bs) := by
  rw [nextUnit.eq_def, if_pos (by rw [UInt8.lt_iff_toNat_lt]; exact h)]

theorem nextUnit_two {a : UInt8} (h : 0xC0 ≤ a.toNat ∧ a.toNat < 0xE0) (b : UInt8)
    (bs : List UInt8) :
    nextUnit a (b :: bs) = ((a.toNat % 32 * 64 + b.toNat % 64).toUInt16, bs) := by
  simp only [nextUnit, UInt8.lt_iff_toNat_lt, UInt8.le_iff_toNat_le, UInt8.reduceToNat]
  rw [if_neg (by omega), if_pos h]

theorem nextUnit_three {a : UInt8} (h : 0xE0 ≤ a.toNat ∧ a.toNat < 0xF0) (b c : UInt8)
    (bs : List UInt8) :
    nextUnit a (b :: c :: bs) =
      ((a.toNat % 16 * 4096 + b.toNat % 64 * 64 + c.toNat % 64).toUInt16, bs) := by
  simp only [nextUnit, UInt8.lt_iff_toNat_lt, UInt8.le_iff_toNat_le, UInt8.reduceToNat]
  rw [if_neg (by omega), if_neg (by omega), if_pos h]

/-- The bytes of a unit are read back as that unit, whatever follows. -/
theorem decodeUnits_encodeUnit_append (u : UInt16) (bs : List UInt8) :
    decodeUnits (encodeUnit u ++ bs) = u :: decodeUnits bs := by
  have hu := u.toNat_lt
  by_cases h1 : u.toNat ≠ 0 ∧ u.toNat < 0x80
  · have ha : u.toNat.toUInt8.toNat = u.toNat := toNat_toUInt8_of_lt (by omega)
    have hunit : u.toNat.toUInt8.toUInt16 = u := UInt16.toNat_inj.mp (by simpa using ha)
    simp only [encodeUnit, if_pos h1, List.cons_append, List.nil_append, decodeUnits_cons]
    rw [nextUnit_one (by omega), hunit]
  by_cases h2 : u.toNat < 0x800
  · have ha : (0xC0 + u.toNat / 64).toUInt8.toNat = 0xC0 + u.toNat / 64 :=
      toNat_toUInt8_of_lt (by omega)
    have hb : (0x80 + u.toNat % 64).toUInt8.toNat = 0x80 + u.toNat % 64 :=
      toNat_toUInt8_of_lt (by omega)
    simp only [encodeUnit, if_neg h1, if_pos h2, List.cons_append, List.nil_append,
      decodeUnits_cons]
    rw [nextUnit_two (by omega), ha, hb, uInt16_eq_toUInt16 (u := u) (by omega)]
  · have ha : (0xE0 + u.toNat / 4096).toUInt8.toNat = 0xE0 + u.toNat / 4096 :=
      toNat_toUInt8_of_lt (by omega)
    have hb : (0x80 + u.toNat / 64 % 64).toUInt8.toNat = 0x80 + u.toNat / 64 % 64 :=
      toNat_toUInt8_of_lt (by omega)
    have hc : (0x80 + u.toNat % 64).toUInt8.toNat = 0x80 + u.toNat % 64 :=
      toNat_toUInt8_of_lt (by omega)
    simp only [encodeUnit, if_neg h1, if_neg h2, List.cons_append, List.nil_append,
      decodeUnits_cons]
    rw [nextUnit_three (by omega), ha, hb, hc, uInt16_eq_toUInt16 (u := u) (by omega)]

theorem decodeUnits_encodeUnits (us : List UInt16) :
    decodeUnits (us.flatMap encodeUnit) = us := by
  induction us with
  | nil => simp
  | cons u us ih => rw [List.flatMap_cons, decodeUnits_encodeUnit_append, ih]

/-- Plain bytes are units that are characters that are the same bytes again. -/
theorem decodeGeneral_of_isPlain {bs : List UInt8} (h : isPlain bs) : decodeGeneral bs = bs := by
  induction bs with
  | nil => simp [decodeGeneral, Utf8.encode]
  | cons b bs ih =>
      simp only [isPlain, List.all_cons, Bool.and_eq_true, decide_eq_true_eq] at h
      have hb : b.toNat < 0x80 := UInt8.lt_iff_toNat_lt.mp h.1.2
      have hunit : b.toUInt16 :: decodeUnits bs =
          Utf16.unitsOf (Char.ofNat b.toNat) ++ decodeUnits bs := by
        have hchar : (Char.ofNat b.toNat).toNat = b.toNat :=
          toNat_ofNat_of_isScalar (by omega)
        rw [Utf16.unitsOf, if_pos (by omega), hchar,
          uInt16_eq_toUInt16 (n := b.toNat) (u := b.toUInt16) (by simp)]
        rfl
      have hrest := ih h.2
      rw [decodeGeneral] at hrest ⊢
      rw [decodeUnits_cons, nextUnit_one hb, hunit, Utf16.decode_unitsOf_append_of_lt (by
        rw [toNat_ofNat_of_isScalar (by omega)]
        omega)]
      change String.utf8EncodeChar (Char.ofNat b.toNat) ++ Utf8.encode _ = _
      rw [hrest, Utf8.utf8EncodeChar_of_toNat (toNat_ofNat_of_isScalar (by omega)),
        if_pos (by omega)]
      simp

theorem isValid_of_isPlain {t : Text} (h : isPlain t) : Utf8.isValid t := by
  induction t with
  | nil => simp [Utf8.isValid]
  | cons b rest ih =>
      simp only [isPlain, List.all_cons, Bool.and_eq_true, decide_eq_true_eq] at h
      have hnext : Utf8.next b rest = (.char (Char.ofNat b.toNat), rest) :=
        if_pos h.1.2
      rw [Utf8.isValid, Utf8.pieces_cons, hnext]
      exact ih h.2

/-- Both readings of class-file bytes agree wherever both apply. -/
theorem decode_eq_decodeGeneral (bs : List UInt8) : decode bs = decodeGeneral bs := by
  by_cases h : isPlain bs
  · rw [decode, if_pos h, decodeGeneral_of_isPlain h]
  · rw [decode, if_neg h]

/-- Class-file bytes give back the valid text they were made from. -/
theorem decode_encode {t : Text} (h : Utf8.isValid t) : decode (encode t) = t := by
  rw [decode_eq_decodeGeneral, decodeGeneral, encode, decodeUnits_encodeUnits, Utf16.units,
    Utf16.decode_encode, Utf8.encode_chars h]

/-- Whatever class-file bytes are taken for is valid. -/
theorem isValid_decode (bs : List UInt8) : Utf8.isValid (decode bs) := by
  rw [decode_eq_decodeGeneral]
  exact Utf8.isValid_encode _

/-- A byte that a unit is written as has a mark, or is a character other than NUL. -/
theorem ne_zero_of_mem_encodeUnit {u : UInt16} {b : UInt8} (h : b ∈ encodeUnit u) : b ≠ 0 := by
  have hu := u.toNat_lt
  have hbyte : ∀ {n : Nat}, n < 256 → n ≠ 0 → n.toUInt8 ≠ 0 := fun hlt hne hzero =>
    hne (by rw [← toNat_toUInt8_of_lt hlt, hzero]; rfl)
  simp only [encodeUnit] at h
  -- one case for each number of bytes
  split at h
  case isTrue hone =>
    obtain rfl := List.mem_singleton.mp h
    exact hbyte (by omega) hone.1
  split at h
  case isTrue =>
    obtain rfl | rfl : b = (0xC0 + u.toNat / 64).toUInt8 ∨ b = (0x80 + u.toNat % 64).toUInt8 := by
      simpa using h
    · exact hbyte (by omega) (by omega)
    · exact hbyte (by omega) (by omega)
  case isFalse =>
    obtain rfl | rfl | rfl : b = (0xE0 + u.toNat / 4096).toUInt8 ∨
        b = (0x80 + u.toNat / 64 % 64).toUInt8 ∨ b = (0x80 + u.toNat % 64).toUInt8 := by
      simpa using h
    · exact hbyte (by omega) (by omega)
    · exact hbyte (by omega) (by omega)
    · exact hbyte (by omega) (by omega)

theorem ne_zero_of_mem_encode {t : Text} {b : UInt8} (h : b ∈ encode t) : b ≠ 0 := by
  obtain ⟨u, -, hb⟩ := List.mem_flatMap.mp h
  exact ne_zero_of_mem_encodeUnit hb

theorem isPlain_iff (bs : List UInt8) :
    isPlain bs ↔ ∀ b ∈ bs, 1 ≤ b.toNat ∧ b.toNat ≤ 127 := by
  rw [isPlain, List.all_eq_true]
  refine forall₂_congr fun b _ => ?_
  have hzero : b ≠ 0 ↔ 1 ≤ b.toNat := by
    rw [Nat.one_le_iff_ne_zero, ne_eq, ne_eq, ← UInt8.toNat_inj]
    rfl
  have hlt : b < 0x80 ↔ b.toNat ≤ 127 := by
    rw [UInt8.lt_iff_toNat_lt, Nat.lt_iff_add_one_le]
    exact Nat.succ_le_succ_iff
  rw [Bool.and_eq_true, decide_eq_true_iff, decide_eq_true_iff, hzero, hlt]

/-- A valid text goes into class-file bytes without a zero byte, whose units are the units of the
text and which are read as that text again. Bytes that the fast reading takes as they are are their
own text by the general reading as well. -/
theorem class_file_texts_are_read_back :
    (∀ t : Text, Utf8.isValid t →
      decode (encode t) = t ∧ decodeUnits (encode t) = Utf16.units t ∧ ∀ b ∈ encode t, b ≠ 0) ∧
    ∀ bs : List UInt8, (∀ b ∈ bs, 1 ≤ b.toNat ∧ b.toNat ≤ 127) →
      isPlain bs ∧ decode bs = bs ∧ decodeGeneral bs = bs := by
  refine ⟨fun t ht => ⟨decode_encode ht, ?_, fun b => ne_zero_of_mem_encode⟩, fun bs hbs => ?_⟩
  · rw [encode, decodeUnits_encodeUnits]
  · have hplain : isPlain bs := (isPlain_iff bs).mpr hbs
    exact ⟨hplain, if_pos hplain, decodeGeneral_of_isPlain hplain⟩

/-- Characters of all four lengths, NUL among them, and plain bytes. -/
theorem class_file_text_of_all_lengths :
    Utf8.isValid (Text.ofString "a\x00é€🙂") ∧
    encode (Text.ofString "a\x00é€🙂") =
      [97, 0xC0, 0x80, 0xC3, 0xA9, 0xE2, 0x82, 0xAC, 0xED, 0xA0, 0xBD, 0xED, 0xB9, 0x82] ∧
    decode [97, 0xC0, 0x80, 0xC3, 0xA9, 0xE2, 0x82, 0xAC, 0xED, 0xA0, 0xBD, 0xED, 0xB9, 0x82] =
      Text.ofString "a\x00é€🙂" ∧
    decodeGeneral [1, 97, 127] = [1, 97, 127] := by
  have hvalid : Utf8.isValid (Text.ofString "a\x00é€🙂") := Text.isValid_ofString _
  have hencode : encode (Text.ofString "a\x00é€🙂") =
      [97, 0xC0, 0x80, 0xC3, 0xA9, 0xE2, 0x82, 0xAC, 0xED, 0xA0, 0xBD, 0xED, 0xB9, 0x82] := by
    rw [encode, Utf16.units, Text.ofString, ← Utf8.encode, Utf16.chars_encode]
    decide
  refine ⟨hvalid, hencode, ?_, (class_file_texts_are_read_back.2 [1, 97, 127] (by simp)).2.2⟩
  rw [← hencode]
  exact (class_file_texts_are_read_back.1 _ hvalid).1

theorem length_decodeUnits_le (bs : List UInt8) : (decodeUnits bs).length ≤ bs.length := by
  induction hn : bs.length using Nat.strongRecOn generalizing bs with
  | _ n ih =>
      cases bs with
      | nil => simp
      | cons a rest =>
          have hnext := nextUnit_length_le a rest
          rw [List.length_cons] at hn
          have hrest := ih _ (by omega) (nextUnit a rest).2 rfl
          rw [decodeUnits_cons, List.length_cons]
          omega

/-- A text is at most four times as long as the class-file bytes it was made of. -/
theorem length_decode_le (bs : List UInt8) : (decode bs).length ≤ 4 * bs.length := by
  have hunits := length_decodeUnits_le bs
  have hchars := Utf16.length_decode_le (decodeUnits bs)
  have hbytes := Utf8.length_encode_le (Utf16.decode (decodeUnits bs))
  rw [decode_eq_decodeGeneral, decodeGeneral]
  omega

end ModifiedUtf8

end ClassEngine
