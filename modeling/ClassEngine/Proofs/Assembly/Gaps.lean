import Mathlib.Tactic.Common
import ClassEngine.Assembly.Source

/-!
The gaps that uses of labels leave in a body. No two overlap, each waits for its label as long as the
label is not marked, and afterwards it holds the distance to the marked address (`Records`).
-/

namespace ClassEngine

/-- Some bytes stand in a row from an address on. -/
def Stands (bytes : Array UInt8) (i : Nat) (bs : List UInt8) : Prop :=
  ∀ k b, bs[k]? = some b → bytes[i + k]? = some b

section Stands

variable {bytes bytes' : Array UInt8} {i : Nat} {b : UInt8} {bs xs ys : List UInt8}

theorem stands_nil : Stands bytes i [] := by
  intro k b hb
  simp at hb

theorem stands_append :
    Stands bytes i (xs ++ ys) ↔ Stands bytes i xs ∧ Stands bytes (i + xs.length) ys := by
  constructor
  · intro h
    constructor
    · intro k b hb
      obtain ⟨hk, _⟩ := List.getElem?_eq_some_iff.mp hb
      exact h k b (by rwa [List.getElem?_append_left hk])
    · intro k b hb
      rw [Nat.add_assoc]
      refine h _ b ?_
      rwa [List.getElem?_append_right (Nat.le_add_right _ _), Nat.add_sub_cancel_left]
  · rintro ⟨hxs, hys⟩ k b hb
    by_cases hk : k < xs.length
    · exact hxs k b (by rwa [List.getElem?_append_left hk] at hb)
    · rw [List.getElem?_append_right (Nat.le_of_not_lt hk)] at hb
      have hat := hys _ b hb
      rwa [Nat.add_assoc, Nat.add_sub_cancel' (Nat.le_of_not_lt hk)] at hat

theorem stands_cons : Stands bytes i (b :: bs) ↔ bytes[i]? = some b ∧ Stands bytes (i + 1) bs := by
  rw [← List.singleton_append, stands_append]
  constructor
  · rintro ⟨hb, hbs⟩
    exact ⟨hb 0 b rfl, hbs⟩
  · rintro ⟨hb, hbs⟩
    refine ⟨fun k c hc => ?_, hbs⟩
    obtain ⟨rfl, rfl⟩ : k = 0 ∧ b = c := by
      cases k with
      | zero => simpa using hc
      | succ k => simp at hc
    exact hb

theorem Stands.congr (h : Stands bytes i bs)
    (hsame : ∀ j, i ≤ j → j < i + bs.length → bytes'[j]? = bytes[j]?) : Stands bytes' i bs := by
  intro k b hb
  obtain ⟨hk, _⟩ := List.getElem?_eq_some_iff.mp hb
  rw [hsame (i + k) (Nat.le_add_right i k) (Nat.add_lt_add_left hk i)]
  exact h k b hb

end Stands

namespace Assembler

section Overwrite

variable {bytes : Array UInt8} {i j : Nat} {bs : List UInt8}

theorem overwrite_cons (b : UInt8) :
    overwrite i (b :: bs) bytes = overwrite (i + 1) bs (bytes.setIfInBounds i b) :=
  rfl

theorem overwrite_size : (overwrite i bs bytes).size = bytes.size := by
  induction bs generalizing i bytes with
  | nil => rfl
  | cons b bs ih => rw [overwrite_cons, ih, Array.size_setIfInBounds]

/-- Overwriting leaves what is outside of the new bytes. -/
theorem overwrite_outside (hj : j < i ∨ i + bs.length ≤ j) :
    (overwrite i bs bytes)[j]? = bytes[j]? := by
  induction bs generalizing i bytes with
  | nil => rfl
  | cons b bs ih =>
      rw [List.length_cons] at hj
      rw [overwrite_cons, ih (by omega), Array.getElem?_setIfInBounds_ne (by omega)]

theorem overwrite_stands (h : i + bs.length ≤ bytes.size) : Stands (overwrite i bs bytes) i bs := by
  induction bs generalizing i bytes with
  | nil => exact stands_nil
  | cons b bs ih =>
      rw [List.length_cons] at h
      rw [overwrite_cons, stands_cons]
      constructor
      · rw [overwrite_outside (by omega), Array.getElem?_setIfInBounds_self_of_lt (by omega)]
      · exact ih (by rw [Array.size_setIfInBounds]; omega)

end Overwrite

/-- The bytes of a distance. -/
def operand (wide : Bool) (offset : Int) : List UInt8 :=
  if wide then fourBytes (offset % 4294967296).toNat.toUInt32
  else twoBytes (offset % 65536).toNat.toUInt16

/-- How many bytes a distance takes. -/
def operandSize (wide : Bool) : Nat :=
  if wide then 4 else 2

theorem operand_length (wide : Bool) (offset : Int) :
    (operand wide offset).length = operandSize wide := by
  cases wide <;> rfl

end Assembler

open Assembler

namespace Gap

/-- The address after a gap. -/
def stop (g : Gap) : Nat :=
  g.address + operandSize g.wide

/-- Whether an address is inside a gap. -/
def Covers (g : Gap) (i : Nat) : Prop :=
  g.address ≤ i ∧ i < g.stop

/-- Two gaps have no address in common. -/
def Apart (g h : Gap) : Prop :=
  g.stop ≤ h.address ∨ h.stop ≤ g.address

/-- A gap holds the distance to an address, which fits into it. -/
structure Leads (bytes : Array UInt8) (g : Gap) (target : Nat) : Prop where
  stands : Stands bytes g.address (operand g.wide (target - g.base))
  fits : g.wide = false → -32768 ≤ (target - g.base : Int) ∧ (target - g.base : Int) ≤ 32767

theorem Leads.congr {bytes bytes' : Array UInt8} {g : Gap} {target : Nat}
    (h : g.Leads bytes target) (hsame : ∀ i, g.Covers i → bytes'[i]? = bytes[i]?) :
    g.Leads bytes' target := by
  refine ⟨h.stands.congr fun j hle hlt => hsame j ⟨hle, ?_⟩, h.fits⟩
  rwa [operand_length] at hlt

theorem Apart.symm {g h : Gap} (hgh : g.Apart h) : h.Apart g :=
  Or.symm hgh

theorem Apart.not_covers {g h : Gap} {i : Nat} (hgh : g.Apart h) (hi : g.Covers i) :
    ¬h.Covers i := by
  unfold Apart Covers at *
  omega

end Gap

namespace Assemble

variable {α β : Type}

theorem of_except_bind_ok {ε : Type} {x : Except ε α} {f : α → Except ε β} {v : β}
    (h : x.bind f = .ok v) : ∃ u, x = .ok u ∧ f u = .ok v := by
  cases x with
  | error e => contradiction
  | ok u => exact ⟨u, rfl, h⟩

theorem of_bind_ok {x : Assemble α} {f : α → Assemble β} {a a'' : Assembler} {v : β}
    (h : (x >>= f) a = .ok (v, a'')) : ∃ u a', x a = .ok (u, a') ∧ f u a' = .ok (v, a'') := by
  change (x a).bind (fun p => f p.1 p.2) = _ at h
  obtain ⟨⟨u, a'⟩, hx, hf⟩ := of_except_bind_ok h
  exact ⟨u, a', hx, hf⟩

theorem of_pure_ok {a a' : Assembler} {u v : α} (h : (pure u : Assemble α) a = .ok (v, a')) :
    u = v ∧ a = a' :=
  Prod.mk.inj (Except.ok.inj h)

end Assemble

open Assemble

namespace Assembler

section Filling

variable {a a' : Assembler} {v : Unit} {g : Gap} {target : Nat}

theorem fill_ok (h : fill g target a = .ok (v, a')) :
    a' = { a with bytes := overwrite g.address (operand g.wide (target - g.base)) a.bytes } ∧
      (g.wide = false → -32768 ≤ (target - g.base : Int) ∧ (target - g.base : Int) ≤ 32767) := by
  unfold fill at h
  split at h
  case isTrue hwide =>
    obtain ⟨_, rfl⟩ := Prod.mk.inj (Except.ok.inj h)
    simp [operand, hwide]
  case isFalse hwide =>
    split at h
    · contradiction
    case isFalse hrange =>
      obtain ⟨_, rfl⟩ := Prod.mk.inj (Except.ok.inj h)
      refine ⟨by simp [operand, hwide], fun _ => ?_⟩
      omega

/-- What filling some gaps with the distance to one address does. -/
structure Fills (gaps : List Gap) (target : Nat) (a a' : Assembler) : Prop where
  rest : a' = { a with bytes := a'.bytes }
  size : a'.bytes.size = a.bytes.size
  kept : ∀ i, (∀ g ∈ gaps, ¬g.Covers i) → a'.bytes[i]? = a.bytes[i]?
  leads : ∀ g ∈ gaps, g.Leads a'.bytes target

theorem fill_fills (hinside : g.stop ≤ a.bytes.size) (h : fill g target a = .ok (v, a')) :
    Fills [g] target a a' := by
  obtain ⟨rfl, hfits⟩ := fill_ok h
  refine ⟨rfl, overwrite_size, fun i hi => ?_, fun g' hg' => ?_⟩
  · have hnot : ¬g.Covers i := hi g List.mem_cons_self
    refine overwrite_outside ?_
    rw [operand_length]
    unfold Gap.Covers Gap.stop at hnot
    omega
  · obtain rfl := List.mem_singleton.mp hg'
    refine ⟨overwrite_stands ?_, hfits⟩
    rwa [operand_length]

/-- Gaps that are filled one after the other all lead to the address, as they do not overlap. -/
theorem fillAll_fills {gaps : List Gap} (hinside : ∀ g ∈ gaps, g.stop ≤ a.bytes.size)
    (hapart : ∀ g ∈ gaps, ∀ h ∈ gaps, g = h ∨ g.Apart h)
    (h : (gaps.forM fun g => fill g target) a = .ok (v, a')) : Fills gaps target a a' := by
  induction gaps generalizing a with
  | nil =>
      obtain ⟨_, rfl⟩ := of_pure_ok h
      exact ⟨rfl, rfl, fun _ _ => rfl, by simp⟩
  | cons g gaps ih =>
      obtain ⟨_, a₁, hfirst, hrest⟩ := of_bind_ok h
      have hone := fill_fills (hinside g List.mem_cons_self) hfirst
      have hmany : Fills gaps target a₁ a' := by
        refine ih (fun g' hg' => ?_) (fun g' hg' h' hh' => ?_) hrest
        · rw [hone.size]
          exact hinside g' (List.mem_cons_of_mem g hg')
        · exact hapart g' (List.mem_cons_of_mem g hg') h' (List.mem_cons_of_mem g hh')
      refine ⟨?_, hmany.size.trans hone.size, fun i hi => ?_, fun g' hg' => ?_⟩
      · rw [hmany.rest, hone.rest]
      · rw [hmany.kept i fun g' hg' => hi g' (List.mem_cons_of_mem g hg')]
        refine hone.kept i fun g' hg' => ?_
        exact hi g' (by simpa using Or.inl (List.mem_singleton.mp hg'))
      · by_cases hlater : g' ∈ gaps
        · exact hmany.leads g' hlater
        · obtain rfl : g' = g := (List.mem_cons.mp hg').resolve_right hlater
          refine (hone.leads g' List.mem_cons_self).congr fun i hi => ?_
          refine hmany.kept i fun h' hh' => ?_
          rcases hapart g' List.mem_cons_self h' (List.mem_cons_of_mem g' hh') with rfl | happ
          · exact absurd hh' hlater
          · exact happ.not_covers hi

end Filling

section Labels

variable {a : Assembler} {name other : Text} {l : Label}

/-- A body in which a label is replaced. -/
def withLabel (a : Assembler) (name : Text) (l : Label) : Assembler :=
  { a with labels := (name, l) :: a.labels.filter (·.1 != name) }

theorem label_withLabel_self : (a.withLabel name l).label name = l := by
  simp [withLabel, label]

theorem label_withLabel_of_ne (hne : other ≠ name) :
    (a.withLabel name l).label other = a.label other := by
  have hbeq : (other == name) = false := beq_false_of_ne hne
  have hlookup : ∀ labels : List (Text × Label),
      (labels.filter (·.1 != name)).lookup other = labels.lookup other := by
    intro labels
    induction labels with
    | nil => rfl
    | cons entry labels ih =>
        obtain ⟨key, value⟩ := entry
        by_cases hkey : key = name
        · subst hkey
          simp [ih, List.lookup_cons, hbeq]
        · simp [ih, List.lookup_cons, hkey]
  simp [withLabel, label, List.lookup_cons, hbeq, hlookup]

end Labels

/-- The uses of labels in a body: their gaps are apart, each waits for its label as long as the label
is not marked, and leads to the marked address afterwards. -/
structure Records (a : Assembler) (uses : List (Text × Gap)) : Prop where
  inside : ∀ u ∈ uses, u.2.stop ≤ a.bytes.size
  apart : ∀ u ∈ uses, ∀ v ∈ uses, u = v ∨ u.2.Apart v.2
  known : ∀ name, ∀ g ∈ (a.label name).gaps, (name, g) ∈ uses
  waits : ∀ name g, (name, g) ∈ uses → (a.label name).position = none → g ∈ (a.label name).gaps
  leads : ∀ name g target, (name, g) ∈ uses → (a.label name).position = some target →
    g.Leads a.bytes target

theorem apart_cons {uses : List (Text × Gap)} {name : Text} {g : Gap}
    (h : ∀ u ∈ uses, ∀ v ∈ uses, u = v ∨ u.2.Apart v.2) (hg : ∀ u ∈ uses, u.2.Apart g) :
    ∀ u ∈ (name, g) :: uses, ∀ v ∈ (name, g) :: uses, u = v ∨ u.2.Apart v.2 := by
  intro u hu v hv
  rcases List.mem_cons.mp hu with rfl | hu
  · rcases List.mem_cons.mp hv with rfl | hv
    · exact .inl rfl
    · exact .inr (hg v hv).symm
  · rcases List.mem_cons.mp hv with rfl | hv
    · exact .inr (hg u hu)
    · exact h u hu v hv

theorem records_start (pool : Option Builder) : (start pool).Records [] := by
  constructor <;> simp [start, label]

section Changes

variable {a a' : Assembler} {uses : List (Text × Gap)} {v : Unit} {name : Text} {base : Nat}
  {wide : Bool}

theorem mark_ok (hrun : mark name a = .ok (v, a')) : (a.label name).position = none ∧
    ∃ a₁, ((a.label name).gaps.reverse.forM fun g => fill g a.bytes.size) a = .ok ((), a₁) ∧
      a' = a₁.withLabel name ⟨some a.bytes.size, []⟩ := by
  obtain ⟨_, a₀, hget, hrun⟩ := of_bind_ok hrun
  obtain ⟨rfl, rfl⟩ := of_pure_ok hget
  dsimp only at hrun
  split at hrun
  · contradiction
  case isFalse hsome =>
    obtain ⟨_, a₁, hfill, hrun⟩ := of_bind_ok hrun
    obtain ⟨_, rfl⟩ := Prod.mk.inj (Except.ok.inj hrun)
    exact ⟨by simpa using hsome, a₁, hfill, rfl⟩

/-- Filling the gaps that wait for a label leaves those of the other labels. -/
theorem Fills.kept_others {a₁ : Assembler} {target : Nat} (h : a.Records uses)
    (hfills : Fills (a.label name).gaps.reverse target a a₁) {other : Text} {g : Gap}
    (hu : (other, g) ∈ uses) (hne : other ≠ name) {i : Nat} (hi : g.Covers i) :
    a₁.bytes[i]? = a.bytes[i]? := by
  refine hfills.kept i fun g' hg' => ?_
  have hknown := h.known name g' (List.mem_reverse.mp hg')
  rcases h.apart _ hu _ hknown with heq | hapart
  · exact absurd (Prod.mk.inj heq).1 hne
  · exact hapart.not_covers hi

theorem Records.mark {a₁ : Assembler} (h : a.Records uses) (hfree : (a.label name).position = none)
    (hfills : Fills (a.label name).gaps.reverse a.bytes.size a a₁) :
    (a₁.withLabel name ⟨some a.bytes.size, []⟩).Records uses := by
  have hlabel : ∀ other, other ≠ name →
      (a₁.withLabel name ⟨some a.bytes.size, []⟩).label other = a.label other := by
    intro other hne
    rw [label_withLabel_of_ne hne, hfills.rest]
    rfl
  refine ⟨fun u hu => ?_, h.apart, ?_, ?_, ?_⟩
  · change u.2.stop ≤ a₁.bytes.size
    rw [hfills.size]
    exact h.inside u hu
  · intro other g hg
    by_cases hother : other = name
    · subst hother
      rw [label_withLabel_self] at hg
      contradiction
    · rw [hlabel other hother] at hg
      exact h.known other g hg
  · intro other g hu hposition
    by_cases hother : other = name
    · subst hother
      rw [label_withLabel_self] at hposition
      contradiction
    · rw [hlabel other hother] at hposition ⊢
      exact h.waits other g hu hposition
  · intro other g target hu hposition
    by_cases hother : other = name
    · subst hother
      rw [label_withLabel_self] at hposition
      obtain rfl := Option.some.inj hposition
      exact hfills.leads g (List.mem_reverse.mpr (h.waits _ g hu hfree))
    · rw [hlabel other hother] at hposition
      exact (h.leads other g target hu hposition).congr fun i hi => hfills.kept_others h hu hother hi

/-- A new gap behind all others that waits for its label. -/
theorem Records.wait {g : Gap} (h : a.Records uses) (hinside : g.stop ≤ a.bytes.size)
    (hapart : ∀ u ∈ uses, u.2.Apart g) (hfree : (a.label name).position = none) :
    (a.withLabel name ⟨none, g :: (a.label name).gaps⟩).Records ((name, g) :: uses) := by
  have hlabel : ∀ other, other ≠ name →
      (a.withLabel name ⟨none, g :: (a.label name).gaps⟩).label other = a.label other :=
    fun other hne => label_withLabel_of_ne hne
  refine ⟨List.forall_mem_cons.mpr ⟨hinside, h.inside⟩, apart_cons h.apart hapart, ?_, ?_, ?_⟩
  · intro other g' hg'
    by_cases hother : other = name
    · subst hother
      rw [label_withLabel_self] at hg'
      rcases List.mem_cons.mp hg' with rfl | hg'
      · exact List.mem_cons_self
      · exact List.mem_cons_of_mem _ (h.known other g' hg')
    · rw [hlabel other hother] at hg'
      exact List.mem_cons_of_mem _ (h.known other g' hg')
  · intro other g' hu hposition
    by_cases hother : other = name
    · subst hother
      rw [label_withLabel_self]
      rcases List.mem_cons.mp hu with heq | hu
      · obtain ⟨_, rfl⟩ := Prod.mk.inj heq
        exact List.mem_cons_self
      · exact List.mem_cons_of_mem _ (h.waits other g' hu hfree)
    · rw [hlabel other hother] at hposition ⊢
      rcases List.mem_cons.mp hu with heq | hu
      · exact absurd (Prod.mk.inj heq).1 hother
      · exact h.waits other g' hu hposition
  · intro other g' target hu hposition
    have hother : other ≠ name := by
      rintro rfl
      rw [label_withLabel_self] at hposition
      contradiction
    rw [hlabel other hother] at hposition
    rcases List.mem_cons.mp hu with heq | hu
    · exact absurd (Prod.mk.inj heq).1 hother
    · exact h.leads other g' target hu hposition

/-- A new gap behind all others that is filled at once. -/
theorem Records.direct {g : Gap} {target : Nat} (h : a.Records uses)
    (hinside : g.stop ≤ a.bytes.size) (hapart : ∀ u ∈ uses, u.2.Apart g)
    (hmarked : (a.label name).position = some target) (hfills : Fills [g] target a a') :
    a'.Records ((name, g) :: uses) := by
  have hlabel : a'.label = a.label := by
    funext other
    rw [hfills.rest]
    rfl
  refine ⟨?_, apart_cons h.apart hapart, ?_, ?_, ?_⟩
  · rw [hfills.size]
    exact List.forall_mem_cons.mpr ⟨hinside, h.inside⟩
  · intro other g' hg'
    rw [hlabel] at hg'
    exact List.mem_cons_of_mem _ (h.known other g' hg')
  · intro other g' hu hposition
    rw [hlabel] at hposition ⊢
    rcases List.mem_cons.mp hu with heq | hu
    · obtain ⟨rfl, _⟩ := Prod.mk.inj heq
      rw [hmarked] at hposition
      contradiction
    · exact h.waits other g' hu hposition
  · intro other g' target' hu hposition
    rw [hlabel] at hposition
    rcases List.mem_cons.mp hu with heq | hold
    · obtain ⟨rfl, rfl⟩ := Prod.mk.inj heq
      obtain rfl := Option.some.inj (hmarked.symm.trans hposition)
      exact hfills.leads g' List.mem_cons_self
    · refine (h.leads other g' target' hold hposition).congr fun i hi => ?_
      refine hfills.kept i fun g'' hg'' => ?_
      obtain rfl := List.mem_singleton.mp hg''
      exact (hapart (other, g') hold).not_covers hi

theorem reference_ok (hrun : reference name base wide a = .ok (v, a')) :
    ∃ a₁, a₁ = { a with bytes := a.bytes ++ (List.replicate (operandSize wide) 0).toArray } ∧
      ((∃ target, (a.label name).position = some target ∧
        fill ⟨a.bytes.size, base, wide⟩ target a₁ = .ok (v, a')) ∨
      (a.label name).position = none ∧
        a' = a₁.withLabel name ⟨none, ⟨a.bytes.size, base, wide⟩ :: (a.label name).gaps⟩) := by
  obtain ⟨_, a₀, hget, hrun⟩ := of_bind_ok hrun
  obtain ⟨rfl, rfl⟩ := of_pure_ok hget
  obtain ⟨_, a₁, hemit, hrun⟩ := of_bind_ok hrun
  obtain ⟨_, rfl⟩ := Prod.mk.inj (Except.ok.inj hemit)
  have hzeros : (if wide then [0, 0, 0, 0] else [0, 0] : List UInt8) =
      List.replicate (operandSize wide) 0 := by
    cases wide <;> rfl
  rw [hzeros] at hrun
  refine ⟨_, rfl, ?_⟩
  dsimp only at hrun
  cases hposition : (a.label name).position with
  | some target =>
      rw [hposition] at hrun
      exact .inl ⟨target, rfl, hrun⟩
  | none =>
      rw [hposition] at hrun
      obtain ⟨_, rfl⟩ := Prod.mk.inj (Except.ok.inj hrun)
      exact .inr ⟨rfl, rfl⟩

end Changes

end Assembler

end ClassEngine
