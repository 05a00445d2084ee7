import ClassEngine.Proofs.Descriptor.Grammar
import ClassEngine.Proofs.Engine.Assignability
import ClassEngine.Proofs.Engine.ResolutionCache

/-!
Names of classes and the types that they are looked up as. A type is looked up again by its internal
name, unless it is a class whose name reads as a descriptor: then the name stands for another type.
Main result: `class_names_denote_classes`.
-/

namespace ClassEngine

open Machine Exec Linking

namespace Descriptor

/-- A name that reads as a descriptor: that of an array, or the letter of a primitive type or of
void. -/
inductive IsTaken : Text → Prop
  | array {name : Text} (h : isArray name = true) : IsTaken name
  | primitive (p : Primitive) : IsTaken [p.letter]
  | void : IsTaken void

/-- The type of a class whose name reads as a descriptor. -/
def IsHidden (t : Descriptor) : Prop :=
  ∃ name : Text, t = "L" ++ name ++ ";" ∧ IsTaken name

variable {t : Descriptor} {name : Text}

theorem primitive?_isSome_iff : (primitive? name).isSome = true ↔ ∃ p : Primitive, name = [p.letter] := by
  rw [primitive?, List.find?_isSome]
  constructor
  · rintro ⟨p, _, h⟩
    exact ⟨p, by simpa using h⟩
  · rintro ⟨p, rfl⟩
    exact ⟨p, letter_mem_primitives p, by simp⟩

/-- A name that reads as a descriptor is taken for one. -/
theorem IsTaken.ofInternal (h : IsTaken name) : ofInternal name = name := by
  unfold Descriptor.ofInternal
  cases h with
  | array h => rw [if_pos h]
  | primitive p =>
      have hletter : (primitive? [p.letter]).isSome = true := primitive?_isSome_iff.mpr ⟨p, rfl⟩
      rw [hletter, Bool.true_or, if_pos rfl, ite_self]
  | void => decide

/-- Any other name is that of a class. -/
theorem ofInternal_of_not_isTaken (h : ¬IsTaken name) : ofInternal name = "L" ++ name ++ ";" := by
  have harray : ¬isArray name = true := fun harray => h (.array harray)
  have hletter : ¬(primitive? name).isSome = true := by
    rw [primitive?_isSome_iff]
    rintro ⟨p, rfl⟩
    exact h (.primitive p)
  have hvoid : name ≠ void := fun hvoid => h (hvoid ▸ .void)
  rw [ofInternal, if_neg harray, if_neg]
  simp [hletter, hvoid]

theorem IsTaken.ne_nil (h : IsTaken name) : name ≠ [] := by
  rintro rfl
  cases h with
  | array h => simp [isArray] at h

/-- No such name is the type of a class. -/
theorem IsTaken.ne_class (h : IsTaken name) (other : Text) : name ≠ "L" ++ other ++ ";" := by
  intro hsame
  have hlength : name.length = other.length + 2 := by
    rw [hsame]
    change ([_] ++ other ++ [_] : Text).length = _
    simp
  cases h with
  | array h =>
      rw [hsame] at h
      contradiction
  | primitive p => simp at hlength
  | void =>
      have hvoid : Descriptor.void.length = 1 := by decide
      omega

/-- Different names are looked up as different types. -/
theorem ofInternal_injective {name other : Text} (h : ofInternal name = ofInternal other) :
    name = other := by
  by_cases hname : IsTaken name
  · by_cases hother : IsTaken other
    · rwa [hname.ofInternal, hother.ofInternal] at h
    · rw [hname.ofInternal, ofInternal_of_not_isTaken hother] at h
      exact absurd h (hname.ne_class other)
  · by_cases hother : IsTaken other
    · rw [hother.ofInternal, ofInternal_of_not_isTaken hname] at h
      exact absurd h.symm (hother.ne_class name)
    · rw [ofInternal_of_not_isTaken hname, ofInternal_of_not_isTaken hother] at h
      exact List.append_cancel_left (List.append_cancel_right h)

/-- The internal name of what is no class is its descriptor. -/
theorem className_of_head {b : UInt8} {rest : Text} (hb : b ≠ Text.ofAscii 'L') :
    className (b :: rest) = b :: rest := by
  rw [className, if_neg]
  simp [hb]

/-- The internal name of a type leads back to it, unless it is a class whose name reads as a
descriptor. -/
theorem ofInternal_className_iff (h : IsFieldType t) :
    ofInternal (className t) = t ↔ ¬IsHidden t := by
  constructor
  · rintro hback ⟨name, rfl, htaken⟩
    rw [className_of_shape htaken.ne_nil, htaken.ofInternal] at hback
    exact htaken.ne_class name hback
  · intro hvisible
    obtain ⟨n, e, he, rfl⟩ := h
    cases n with
    | succ n =>
        have harray : isArray (List.replicate (n + 1) (Text.ofAscii '[') ++ e) = true := by
          simp [isArray, List.replicate_succ]
        rw [List.replicate_succ, List.cons_append, className_of_head (by decide)]
        exact (IsTaken.array harray).ofInternal
    | zero =>
        cases he with
        | primitive p =>
            have hletter : p.letter ≠ Text.ofAscii 'L' := by cases p <;> decide
            rw [List.replicate_zero, List.nil_append, className_of_head hletter]
            exact (IsTaken.primitive p).ofInternal
        | reference name hne _ =>
            have hname : className (Text.ofAscii 'L' :: name ++ [Text.ofAscii ';']) = name :=
              className_of_shape hne
            have hfree : ¬IsTaken name := fun htaken => hvisible ⟨name, rfl, htaken⟩
            rw [List.replicate_zero, List.nil_append, hname, ofInternal_of_not_isTaken hfree]
            rfl

end Descriptor

section Records

variable {host : Host} {d : Descriptor} {c : RuntimeClass}

/-- What a type is loaded as is its record. -/
theorem classFor_found {ctx : Context} {m m' : Machine} (hrun : classFor d ctx m = .ok c m') :
    m'.classes[d]? = some c := by
  obtain ⟨_, _, _, hrest⟩ := of_bind_ok hrun
  obtain ⟨_, _, _, hlast⟩ := of_bind_ok hrest
  obtain ⟨rfl, hc⟩ := classAt_ok hlast
  exact hc

/-- The record is the one that was there before. -/
theorem classFor_same {ctx : Context} [SoundContext ctx] {m m' : Machine} {c' : RuntimeClass}
    (hc : m.classes[d]? = some c) (hrun : classFor d ctx m = .ok c' m') :
    m'.classes[d]? = some c' ∧ c.Became c' := by
  have hevolves : Evolves m m' := (safe_classFor d).evolves hrun
  have hc' := classFor_found hrun
  obtain ⟨c'', hc'', hbecame⟩ := hevolves.classes hc
  obtain rfl := Option.some.inj (hc''.symm.trans hc')
  exact ⟨hc', hbecame⟩

end Records

/-- The internal name of a type is looked up as that type exactly if the type is not a class whose name
reads as a descriptor. So the name of a record leads to that record: it is given at once when its
initialization is under way or done, and whatever comes of loading the name is the record of the type
again. But the name of a class that reads as a descriptor always leads to another record. -/
theorem class_names_denote_classes (host : Host) :
    (∀ s t : Text, Descriptor.parseType s = .ok t →
      (Descriptor.ofInternal (Descriptor.className t) = t ↔ ¬Descriptor.IsHidden t)) ∧
    ∀ (m : Machine) (s : Text) (d : Descriptor) (c : RuntimeClass), m.Inv host →
      Descriptor.parseType s = .ok d → m.classes[d]? = some c →
      c.name = Descriptor.className d ∧
      ∀ (now : Host) (steps nesting : Nat), now.provider = host.provider →
        let ctx := Session.context now (steps + 1) (nesting + 1)
        (¬Descriptor.IsHidden d →
          (c.state = .initializing ∨ c.state = .initialized → loadClass c.name ctx m = .ok c m) ∧
          loadClass c.name ctx m = classFor d ctx m ∧
          ∀ c' m', loadClass c.name ctx m = .ok c' m' →
            c'.descriptor = d ∧ m'.classes[d]? = some c' ∧ c.Became c') ∧
        (Descriptor.IsHidden d → ∀ c' m', loadClass c.name ctx m = .ok c' m' →
          c'.descriptor = c.name ∧ c.name ≠ d) := by
  constructor
  · intro s t h
    obtain ⟨rfl, htype⟩ := Descriptor.parseType_eq_ok.mp h
    exact Descriptor.ofInternal_className_iff htype
  intro m s d c hinv hparse hc
  obtain ⟨rfl, htype⟩ := Descriptor.parseType_eq_ok.mp hparse
  have hname : c.name = Descriptor.className d := hinv.table.name hc
  refine ⟨hname, ?_⟩
  intro now steps nesting hnow ctx
  refine ⟨fun hvisible => ?_, ?_⟩
  · have hback : Descriptor.ofInternal c.name = d := by
      rw [hname]
      exact (Descriptor.ofInternal_className_iff htype).mpr hvisible
    have hload : loadClass c.name ctx m = classFor d ctx m := by rw [loadClass, hback]
    rw [hload]
    refine ⟨classFor_ready now steps nesting hc, rfl, fun c' m' hrun => ?_⟩
    obtain ⟨hc', hbecame⟩ := classFor_same hc hrun
    have hsame : c'.descriptor = c.descriptor := by rw [hbecame.keeps]
    exact ⟨hsame.trans (hinv.table.descriptor hc), hc', hbecame⟩
  · rintro ⟨name, rfl, htaken⟩ c' m' hrun
    rw [className_of_shape htaken.ne_nil] at hname
    rw [hname] at hrun ⊢
    have hinv' : m.Inv ctx.host := by
      rw [context_host]
      exact hinv.of_provider hnow
    have hloaded := (sound_loadClass (P := fun _ => True) name).of_ok hinv' trivial hrun
    exact ⟨hloaded.2.1.trans htaken.ofInternal, htaken.ne_class name⟩

theorem class_names_denote_classes_shelf : ∃ m : Machine, Used shelfHost (fun _ _ => True) m ∧
    m.classes[shelf.descriptor]? = some shelf ∧ ¬Descriptor.IsHidden shelf.descriptor ∧
    shelf.name = Descriptor.className shelf.descriptor ∧
    loadClass shelf.name (Session.context shelfHost 9 9) m = .ok shelf m := by
  obtain ⟨m, hused, hshelf, _⟩ := shelfHost_loads
  obtain ⟨htypes, hrecords⟩ := class_names_denote_classes shelfHost
  have hparse : Descriptor.parseType shelf.descriptor = .ok shelf.descriptor := by decide
  have hvisible := (htypes _ _ hparse).mp (by decide)
  obtain ⟨hname, hlookup⟩ := hrecords m _ _ shelf hused.reachable.inv hparse hshelf
  exact ⟨m, hused, hshelf, hvisible, hname, ((hlookup shelfHost 8 8 rfl).1 hvisible).1 (.inr rfl)⟩

/-- A host with a class whose name is the letter of a primitive type. -/
def letterHost : Host where
  provider := some fun name => if name = "I" then .ok (plainClass name [] []) else .error "not found"
  currentTimeMillis := 0
  nanoTime := 0

/-- That class is looked up by its type, and its name leads to the primitive type instead. -/
theorem class_name_denotes_primitive_type : ∃ (m m' : Machine) (c c' : RuntimeClass),
    Used letterHost (fun _ _ => True) m ∧ Descriptor.parseType "LI;" = .ok "LI;" ∧
    m.classes[("LI;" : Text)]? = some c ∧ c.isInitialized = true ∧
    Descriptor.ofInternal (Descriptor.className "LI;") ≠ "LI;" ∧
    loadClass c.name (Session.context letterHost 9 9) m = .ok c' m' ∧ c'.descriptor = "I" := by
  have hdefine : define letterHost "LI;" = .ok _ := rfl
  obtain ⟨c, m, hrun, rfl, hc, hnone, _⟩ :=
    classFor_first hdefine rfl rfl (plainClass_quiet rfl)
  have hask : Session.runWithin letterHost 2 2 (Request.perform (.classFor "LI;")) Session.fresh =
      .ok () m := by
    rw [Session.runWithin, Request.perform, discard_of_ok hrun]
  have hletter : define letterHost "I" = .ok (.bare "I") := rfl
  obtain ⟨c', m', hload, rfl, _⟩ :
      ∃ c' m', classFor "I" (Session.context letterHost 9 9) m = .ok c' m' ∧ _ :=
    classFor_quiet (hnone "I" (by decide)) hletter rfl Std.HashMap.getElem?_insert_self rfl
      ⟨fun _ hfile => (Option.some_ne_none _ hfile.symm).elim, rfl⟩ (absurd rfl)
  refine ⟨m, m', _, _, (used_fresh letterHost _).ask _ trivial hask, by decide, hc, rfl,
    by decide, hload, rfl⟩

end ClassEngine
