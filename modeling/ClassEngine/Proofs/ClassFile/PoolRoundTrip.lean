import Mathlib.Data.List.Forall2
import ClassEngine.Proofs.ClassFile.Interning

/-!
A written constant pool is read back entry by entry. Only a float that is no number may come back
with other bits.
-/

namespace ClassEngine

/-- The same entry, or two floats neither of which is a number. -/
def Constant.Agrees (k k' : Constant) : Prop :=
  k = k' ∨ ∃ bits bits', k = .float bits ∧ k' = .float bits' ∧ Ieee.isNaN bits ∧ Ieee.isNaN bits'

theorem Constant.Agrees.refl (k : Constant) : k.Agrees k := .inl rfl

theorem Constant.Agrees.isWide_eq {k k' : Constant} (h : k.Agrees k') : k'.isWide = k.isWide := by
  obtain rfl | ⟨bits, bits', rfl, rfl, _⟩ := h
  · rfl
  · rfl

theorem LinkKind.ofTag?_tag (kind : LinkKind) : LinkKind.ofTag? kind.tag = some kind := by
  cases kind <;> rfl

namespace ClassFile

open Decoder

theorem toUInt16_toUInt8_of_le {v : UInt16} (h : v.toNat ≤ 255) : v.toUInt8.toUInt16 = v := by
  apply UInt16.toNat_inj.mp
  simp
  omega

theorem reads_decodeLink {kind : LinkKind} {first second : UInt16}
    (h : (Constant.link kind first second).Canonical) :
    Reads (decodeLink kind)
      (match kind.shape with
        | .one => u2Bytes first
        | .two => u2Bytes first ++ u2Bytes second
        | .handle => first.toUInt8 :: u2Bytes second)
      (.link kind first second) := by
  simp only [Constant.Canonical] at h
  rw [decodeLink]
  cases hshape : kind.shape with
  | one =>
      rw [hshape] at h
      obtain rfl : second = 0 := h
      exact (reads_u2 first).bind_pure (.pure _)
  | two => exact (reads_u2 first).bind ((reads_u2 second).bind_pure (.pure _))
  | handle =>
      rw [hshape] at h
      have hread : Reads (pure (.link kind first.toUInt8.toUInt16 second) : Decoder Constant) []
          (.link kind first second) := by
        rw [toUInt16_toUInt8_of_le h]
        exact .pure _
      exact (reads_u1 first.toUInt8).bind ((reads_u2 second).bind_pure hread)

/-- What is written for a canonical entry is read back as one that agrees with it. -/
theorem reads_decodeConstant {owner : Text} {i : Nat} {k : Constant} {part : List UInt8}
    (hk : k.Canonical) (hpart : encodeConstant owner i k = .ok part) :
    ∃ k', k.Agrees k' ∧ ∀ j, Reads (decodeConstant j) part k' := by
  cases k with
  | blank => exact hk.elim
  | foreign => exact hk.elim
  | link kind first second =>
      obtain rfl := Except.ok.inj hpart
      refine ⟨_, .refl _, fun j => ((reads_u1 kind.tag).inside _).bind ?_⟩
      rw [LinkKind.ofTag?_tag]
      exact (reads_decodeLink hk).inside _
  | utf8 t =>
      rw [encodeConstant] at hpart
      split at hpart
      case isTrue => contradiction
      case isFalse hlength =>
        obtain rfl := Except.ok.inj hpart
        refine ⟨_, .refl _, fun j => ((reads_u1 1).inside _).bind (Reads.inside ?_ _)⟩
        apply (reads_u2 _).bind
        rw [toNat_toUInt16_of_le (by omega)]
        apply (reads_bytes _).bind_pure
        rw [ModifiedUtf8.decode_encode hk]
        exact .pure _
  | integer v =>
      obtain rfl := Except.ok.inj hpart
      refine ⟨_, .refl _, fun j => ((reads_u1 3).inside _).bind (Reads.inside ?_ _)⟩
      apply (reads_u4 _).bind_pure
      rw [show v.toInt32.toUInt32.toInt32.toInt64 = v from hk]
      exact .pure _
  | float bits =>
      obtain rfl := Except.ok.inj hpart
      refine ⟨.float (Ieee.widen (Ieee.narrow bits)), ?_,
        fun j => ((reads_u1 4).inside _).bind (Reads.inside ?_ _)⟩
      · rcases Ieee.widen_narrow hk with hsame | ⟨hwide, hbits⟩
        · exact .inl (by rw [hsame])
        · exact .inr ⟨_, _, rfl, rfl, hbits, hwide⟩
      · exact (reads_u4 _).bind_pure (.pure _)
  | long v =>
      obtain rfl := Except.ok.inj hpart
      refine ⟨_, .refl _, fun j => ((reads_u1 5).inside _).bind (Reads.inside ?_ _)⟩
      exact (reads_u8 _).bind_pure (.pure _)
  | double bits =>
      obtain rfl := Except.ok.inj hpart
      refine ⟨_, .refl _, fun j => ((reads_u1 6).inside _).bind (Reads.inside ?_ _)⟩
      exact (reads_u8 _).bind_pure (.pure _)

/-- The first of several entries, when it takes one slot. -/
theorem encodeEntriesOnto_narrow (owner : Text) (acc : List (List UInt8)) (i : Nat) {k : Constant}
    (hwide : k.isWide = false) (rest : List Constant) :
    encodeEntriesOnto owner acc i (k :: rest) =
      (do
        let part ← encodeConstant owner i k
        encodeEntriesOnto owner (part :: acc) (i + 1) rest) := by
  cases rest with
  | nil => rfl
  | cons next rest => simp [encodeEntriesOnto, hwide]

theorem encodeEntriesOnto_wide (owner : Text) (acc : List (List UInt8)) (i : Nat) {k : Constant}
    (hwide : k.isWide = true) (next : Constant) (rest : List Constant) :
    encodeEntriesOnto owner acc i (k :: next :: rest) =
      (do
        let part ← encodeConstant owner i k
        encodeEntriesOnto owner (part :: acc) (i + 2) rest) := by
  simp [encodeEntriesOnto, hwide]

/-- What is written for entries is read back slot by slot. -/
theorem reads_decodeEntriesOnto {owner : Text} {ks : List Constant} (hks : RestorableEntries ks)
    {acc parts : List (List UInt8)} {i : Nat}
    (hparts : encodeEntriesOnto owner acc i ks = .ok parts) :
    ∃ new kept, parts = acc.reverse ++ new ∧ List.Forall₂ Constant.Agrees ks kept ∧
      ∀ before j, Reads (decodeEntriesOnto before ks.length j) new.flatten
        (before.reverse ++ kept) := by
  induction hks generalizing acc i with
  | nil =>
      obtain rfl := Except.ok.inj hparts
      refine ⟨[], [], by simp, .nil, ?_⟩
      intro before j
      rw [List.append_nil]
      exact .pure _
  | @narrow k rest hk hwide _ ih =>
      rw [encodeEntriesOnto_narrow owner acc i hwide] at hparts
      cases hpart : encodeConstant owner i k with
      | error err => simp [hpart, Bind.bind, Except.bind] at hparts
      | ok part =>
          rw [hpart] at hparts
          obtain ⟨new, kept, rfl, hkept, hreads⟩ := ih hparts
          obtain ⟨k', hagrees, hread⟩ := reads_decodeConstant hk hpart
          refine ⟨part :: new, k' :: kept, by simp, .cons hagrees hkept, ?_⟩
          intro before j
          have hrest := hreads (k' :: before) (j + 1)
          rw [List.reverse_cons, List.append_assoc, List.singleton_append] at hrest
          rw [List.length_cons, decodeEntriesOnto, List.flatten_cons]
          apply (hread j).bind
          rw [if_neg (by rw [hagrees.isWide_eq, hwide]; simp)]
          exact hrest
  | @wide k rest hk hwide _ ih =>
      rw [encodeEntriesOnto_wide owner acc i hwide] at hparts
      cases hpart : encodeConstant owner i k with
      | error err => simp [hpart, Bind.bind, Except.bind] at hparts
      | ok part =>
          rw [hpart] at hparts
          obtain ⟨new, kept, rfl, hkept, hreads⟩ := ih hparts
          obtain ⟨k', hagrees, hread⟩ := reads_decodeConstant hk hpart
          refine ⟨part :: new, k' :: .blank :: kept, by simp,
            .cons hagrees (.cons (.refl _) hkept), ?_⟩
          intro before j
          have hrest := hreads (.blank :: k' :: before) (j + 2)
          rw [List.reverse_cons, List.reverse_cons, List.append_assoc, List.append_assoc,
            List.singleton_append, List.singleton_append] at hrest
          rw [List.length_cons, decodeEntriesOnto, List.flatten_cons]
          apply (hread j).bind
          rw [if_pos (by rw [hagrees.isWide_eq, hwide])]
          exact hrest
  | @last k hk hwide =>
      rw [encodeEntriesOnto] at hparts
      cases hpart : encodeConstant owner i k with
      | error err => simp [hpart, Bind.bind, Except.bind] at hparts
      | ok part =>
          rw [hpart] at hparts
          obtain rfl := Except.ok.inj hparts
          obtain ⟨k', hagrees, hread⟩ := reads_decodeConstant hk hpart
          refine ⟨[part], [k'], by simp, .cons hagrees .nil, ?_⟩
          intro before j
          rw [List.length_singleton, decodeEntriesOnto, List.flatten_singleton]
          apply (hread j).bind_pure
          rw [if_pos (by rw [hagrees.isWide_eq, hwide]), List.reverse_cons]
          exact .pure _

/-- A written pool is read back entry by entry, also if it ends with a long or double. -/
theorem reads_restorablePool {owner : Text} {pool : Array Constant} (hpool : RestorablePool pool)
    (hsize : pool.size ≤ poolLimit) {b : List UInt8} (hb : encodePool owner pool = .ok b) :
    ∃ pool', List.Forall₂ Constant.Agrees pool.toList pool'.toList ∧ Reads decodePool b pool' := by
  obtain ⟨entries, hentries, hrestorable⟩ := hpool
  have hlength : pool.size = entries.length + 1 := by
    rw [← Array.length_toList, hentries, List.length_cons]
  rw [encodePool, hentries] at hb
  cases hparts : encodeEntriesOnto owner [] 1 entries with
  | error err => simp [hparts, Bind.bind, Except.bind] at hb
  | ok parts =>
      obtain rfl : countBytes pool.size ++ parts.flatten = b := by
        simpa [hparts, Bind.bind, Except.bind, Pure.pure, Except.pure] using hb
      obtain ⟨new, kept, rfl, hkept, hreads⟩ := reads_decodeEntriesOnto hrestorable hparts
      refine ⟨(.blank :: kept).toArray, by simpa [hentries] using ⟨.refl _, hkept⟩, ?_⟩
      apply (reads_u2 _).bind
      have hnat : pool.size.toUInt16.toNat = pool.size := toNat_toUInt16_size hsize
      have hne : pool.size.toUInt16 ≠ 0 := by
        intro hzero
        rw [hzero] at hnat
        simp at hnat
        omega
      rw [if_neg hne, hnat, hlength, Nat.add_sub_cancel]
      exact (hreads [] 1).bind_pure (.pure _)

theorem reads_decodePool {owner : Text} {pool : Array Constant} (hpool : CanonicalPool pool)
    (hsize : pool.size ≤ poolLimit) {b : List UInt8} (hb : encodePool owner pool = .ok b) :
    ∃ pool', List.Forall₂ Constant.Agrees pool.toList pool'.toList ∧ Reads decodePool b pool' := by
  obtain ⟨entries, hentries, hcanonical⟩ := hpool
  exact reads_restorablePool ⟨entries, hentries, hcanonical.restorable⟩ hsize hb

/-- A pool serves for one that is like it entry by entry. -/
theorem serves_of_agrees {pool : Array Constant} (hsize : pool.size ≤ poolLimit) {c : ClassFile}
    (h : List.Forall₂ Constant.Agrees pool.toList c.pool.toList) : Serves pool c := by
  have hholds : ∀ {i : UInt16} {k : Constant}, HoldsAt pool i k →
      ∃ k', HoldsAt c.pool i k' ∧ k.Agrees k' := by
    intro i k hk
    rw [HoldsAt, ← Array.getElem?_toList] at hk
    obtain ⟨hlt, hget⟩ := List.getElem?_eq_some_iff.mp hk
    have hlt' : i.toNat < c.pool.toList.length := h.length_eq ▸ hlt
    refine ⟨c.pool.toList.get ⟨i.toNat, hlt'⟩, ?_, ?_⟩
    · rw [HoldsAt, ← Array.getElem?_toList]
      exact List.getElem?_eq_getElem hlt'
    · rw [← hget]
      exact h.get hlt hlt'
  refine ⟨hsize, ?_, ?_⟩
  · intro i t hk
    obtain ⟨k', hk', rfl | ⟨_, _, hfloat, _⟩⟩ := hholds hk
    · exact hk'
    · contradiction
  · intro i first second hk
    obtain ⟨k', hk', rfl | ⟨_, _, hfloat, _⟩⟩ := hholds hk
    · exact hk'
    · contradiction

end ClassFile

end ClassEngine
