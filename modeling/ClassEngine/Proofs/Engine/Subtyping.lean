import ClassEngine.Proofs.Engine.Resolution

/-!
The subtype test decides what the class table says about superclasses and interfaces. Main result:
`assignable_iff`.
-/

namespace ClassEngine

open Machine Exec Linking Resolution

/-- Arrays of the same component are the same. -/
theorem Descriptor.eq_of_component {a b : Descriptor} (ha : isArray a = true)
    (hb : isArray b = true) (h : component a = component b) : a = b := by
  rw [component, if_pos ha, component, if_pos hb] at h
  cases a with
  | nil => simp [isArray] at ha
  | cons x xs =>
      cases b with
      | nil => simp [isArray] at hb
      | cons y ys =>
          have hx : x = Text.ofAscii '[' := by simpa [isArray] using ha
          have hy : y = Text.ofAscii '[' := by simpa [isArray] using hb
          have hrest : xs = ys := by simpa using h
          rw [hx, hy, hrest]

section Brackets

variable {d : Descriptor}

theorem isArray_arrayOf (t : Descriptor) : Descriptor.isArray (Descriptor.arrayOf t) = true := by
  simp [Descriptor.isArray, Descriptor.arrayOf]

theorem component_arrayOf (t : Descriptor) :
    Descriptor.component (Descriptor.arrayOf t) = t := by
  rw [Descriptor.component, if_pos (isArray_arrayOf t)]
  rfl

theorem arrayOf_component (hd : Descriptor.isArray d = true) :
    Descriptor.arrayOf (Descriptor.component d) = d :=
  Descriptor.eq_of_component (isArray_arrayOf _) hd (component_arrayOf _)

theorem dimensions_component (hd : Descriptor.isArray d = true) :
    Descriptor.dimensions d = Descriptor.dimensions (Descriptor.component d) + 1 := by
  conv_lhs => rw [← arrayOf_component hd]
  simp [Descriptor.dimensions, Descriptor.arrayOf]

theorem isArray_of_dimensions (h : 0 < Descriptor.dimensions d) : Descriptor.isArray d = true := by
  cases d with
  | nil => contradiction
  | cons b t =>
      by_contra hb
      simp [Descriptor.isArray] at hb
      simp [Descriptor.dimensions, hb] at h

end Brackets

section Inversion

variable {t : ClassTable} {a b : Descriptor}

/-- What an array may be used for where no array is expected. -/
theorem ClassTable.isSubtype_array_iff (hne : a ≠ b) (ha : Descriptor.isArray a = true)
    (hb : Descriptor.isArray b = false) :
    t.IsSubtype a b ↔ isArraySuper (Descriptor.className b) = true := by
  constructor
  · intro h
    cases h with
    | refl => exact absurd rfl hne
    | super ha' => rw [ha] at ha'; contradiction
    | interface ha' => rw [ha] at ha'; contradiction
    | array _ _ hsuper => exact hsuper
    | component _ hb' => rw [hb] at hb'; contradiction
  · exact .array ha hb

/-- What an array may be used for where an array is expected. -/
theorem ClassTable.isSubtype_component_iff (hne : a ≠ b) (ha : Descriptor.isArray a = true)
    (hb : Descriptor.isArray b = true) :
    t.IsSubtype a b ↔ Descriptor.isPrimitive (Descriptor.component a) = false ∧
      Descriptor.isPrimitive (Descriptor.component b) = false ∧
      t.IsSubtype (Descriptor.component a) (Descriptor.component b) := by
  constructor
  · intro h
    cases h with
    | refl => exact absurd rfl hne
    | super ha' => rw [ha] at ha'; contradiction
    | interface ha' => rw [ha] at ha'; contradiction
    | array _ hb' => rw [hb] at hb'; contradiction
    | component _ _ hca hcb hrest => exact ⟨hca, hcb, hrest⟩
  · rintro ⟨hca, hcb, hrest⟩
    exact .component ha hb hca hcb hrest

/-- What a class may be used for. -/
theorem ClassTable.isSubtype_class_iff {c : RuntimeClass} (hne : a ≠ b)
    (ha : Descriptor.isArray a = false) (hc : t[a]? = some c) :
    t.IsSubtype a b ↔ (∃ s, c.superclass = some s ∧ t.IsSubtype s b) ∨
      ∃ name ∈ c.interfaces, t.IsSubtype (Descriptor.ofInternal name) b := by
  constructor
  · intro h
    cases h with
    | refl => exact absurd rfl hne
    | super _ hc' hs hrest =>
        obtain rfl := Option.some.inj (hc.symm.trans hc')
        exact .inl ⟨_, hs, hrest⟩
    | interface _ hc' hname hrest =>
        obtain rfl := Option.some.inj (hc.symm.trans hc')
        exact .inr ⟨_, hname, hrest⟩
    | array ha' => rw [ha] at ha'; contradiction
    | component ha' => rw [ha] at ha'; contradiction
  · rintro (⟨s, hs, hrest⟩ | ⟨name, hname, hrest⟩)
    · exact .super ha hc hs hrest
    · exact .interface ha hc hname hrest

end Inversion

variable {ctx : Context} {m m' : Machine} {res : Bool}

/-- The answer of a computation is right for every class table from then on. -/
def Answers (ctx : Context) (x : Exec Bool) (p : ClassTable → Prop) : Prop :=
  ∀ ⦃m res m'⦄, x ctx m = .ok res m' → ∀ ⦃t⦄, m'.classes.Evolves t → (res = true ↔ p t)

section Answering

variable [SoundContext ctx]

/-- Asking for each interface whether it will do. -/
theorem answers_interfaces {fuel : Nat} {b : Descriptor} {names : List Text}
    (ih : ∀ a, Answers ctx (assignableWithin fuel a b) fun t => t.IsSubtype a b) :
    Answers ctx (names.anyM fun name => do
      let _ ← loadClass name
      assignableWithin fuel (Descriptor.ofInternal name) b)
      fun t => ∃ name ∈ names, t.IsSubtype (Descriptor.ofInternal name) b := by
  intro m res m' h t ht
  induction names generalizing m with
  | nil =>
      obtain ⟨rfl, rfl⟩ := EStateM.Result.ok.inj h
      simp
  | cons name names ihnames =>
      have hasked : ∀ name, Safe ctx (do
          let _ ← loadClass name
          assignableWithin fuel (Descriptor.ofInternal name) b) := fun name =>
        Safe.bind (safe_loadClass name) fun _ => safe_assignableWithin _ _ _
      obtain ⟨here, m₁, hhere, h⟩ := of_bind_ok h
      obtain ⟨c, m₂, hload, hanswer⟩ := of_bind_ok hhere
      have hname := ih (Descriptor.ofInternal name) hanswer
      cases here with
      | true =>
          obtain ⟨rfl, rfl⟩ := EStateM.Result.ok.inj h
          have hsub := (hname ht).mp rfl
          exact ⟨fun _ => ⟨name, List.mem_cons_self, hsub⟩, fun _ => rfl⟩
      | false =>
          have hevolves := (safe_anyM hasked).evolves h
          have hnot : ¬t.IsSubtype (Descriptor.ofInternal name) b := fun hsub =>
            Bool.false_ne_true ((hname (hevolves.classes.trans ht)).mpr hsub)
          refine (ihnames h).trans ⟨?_, ?_⟩
          · rintro ⟨k, hk, hsub⟩
            exact ⟨k, List.mem_cons_of_mem name hk, hsub⟩
          · rintro ⟨k, hk, hsub⟩
            rcases List.mem_cons.mp hk with rfl | hk
            · exact absurd hsub hnot
            · exact ⟨k, hk, hsub⟩

omit [SoundContext ctx] in
/-- Asking for the components of two arrays whether the one will do for the other. -/
theorem answers_components {fuel : Nat} {a b : Descriptor} (hne : a ≠ b)
    (ha : Descriptor.isArray a = true) (hb : Descriptor.isArray b = true)
    (ih : ∀ a b, Answers ctx (assignableWithin fuel a b) fun t => t.IsSubtype a b) :
    Answers ctx (assignableWithin (fuel + 1) a b) fun t => t.IsSubtype a b := by
  intro m res m' h t ht
  rw [assignableWithin, if_neg hne, if_pos ha, if_neg (by simp [hb])] at h
  refine Iff.trans ?_ (ClassTable.isSubtype_component_iff hne ha hb).symm
  split at h
  case isTrue hprimitive =>
    obtain ⟨rfl, rfl⟩ := EStateM.Result.ok.inj h
    -- Equal components would make equal arrays.
    have hcomponents : Descriptor.component a ≠ Descriptor.component b := fun heq =>
      hne (Descriptor.eq_of_component ha hb heq)
    simp only [beq_iff_eq, hcomponents, false_iff]
    rintro ⟨hca, hcb, _⟩
    simp [hca, hcb] at hprimitive
  case isFalse hprimitive =>
    obtain ⟨_, m₁, _, h⟩ := of_bind_ok h
    obtain ⟨_, m₂, _, h⟩ := of_bind_ok h
    have hca : Descriptor.isPrimitive (Descriptor.component a) = false := by
      cases hca : Descriptor.isPrimitive (Descriptor.component a) <;> simp [hca] at hprimitive ⊢
    have hcb : Descriptor.isPrimitive (Descriptor.component b) = false := by
      cases hcb : Descriptor.isPrimitive (Descriptor.component b) <;> simp [hcb] at hprimitive ⊢
    exact (ih _ _ h ht).trans ⟨fun hsub => ⟨hca, hcb, hsub⟩, fun hsub => hsub.2.2⟩

/-- Asking for the superclass of a class and then for its interfaces. -/
theorem answers_class {fuel : Nat} {a b : Descriptor} (hne : a ≠ b)
    (ha : Descriptor.isArray a = false)
    (ih : ∀ a b, Answers ctx (assignableWithin fuel a b) fun t => t.IsSubtype a b) :
    Answers ctx (assignableWithin (fuel + 1) a b) fun t => t.IsSubtype a b := by
  intro m res m' h t ht
  have hwhole : Safe ctx (assignableWithin (fuel + 1) a b) := safe_assignableWithin _ _ _
  have hevolves := hwhole.evolves h
  rw [assignableWithin, if_neg hne, if_neg (by simp [ha])] at h
  obtain ⟨c, m₁, hclass, hrest⟩ := of_bind_ok h
  obtain ⟨rfl, hc⟩ := classAt_ok hclass
  obtain ⟨above, m₂, habove, hend⟩ := of_bind_ok hrest
  -- The record that was looked at is still there, with the same superclass and interfaces.
  obtain ⟨c', hc', hbecame⟩ := (hevolves.classes.trans ht) hc
  refine Iff.trans ?_ (ClassTable.isSubtype_class_iff hne ha hc').symm
  rw [hbecame.keeps.superclass, hbecame.keeps.interfaces]
  have hsuper : ∀ {t}, m₂.classes.Evolves t →
      (above = true ↔ ∃ s, c.superclass = some s ∧ t.IsSubtype s b) := by
    intro t ht
    cases hs : c.superclass with
    | none =>
        rw [hs] at habove
        obtain ⟨rfl, rfl⟩ := EStateM.Result.ok.inj habove
        simp
    | some s =>
        rw [hs] at habove
        simpa using ih s b habove ht
  cases habove' : above with
  | true =>
      rw [habove'] at hend
      obtain ⟨rfl, rfl⟩ := EStateM.Result.ok.inj hend
      exact ⟨fun _ => .inl ((hsuper ht).mp habove'), fun _ => rfl⟩
  | false =>
      rw [habove'] at hend
      have hasked : Safe ctx (c.interfaces.anyM fun name => do
          let _ ← loadClass name
          assignableWithin fuel (Descriptor.ofInternal name) b) :=
        safe_anyM fun name => Safe.bind (safe_loadClass name) fun _ => safe_assignableWithin _ _ _
      have hafter := (hasked.evolves hend).classes.trans ht
      refine (answers_interfaces (fun a => ih a b) hend ht).trans ⟨.inr, fun hor => ?_⟩
      refine hor.resolve_left fun hs => ?_
      rw [(hsuper hafter).mpr hs] at habove'
      contradiction

theorem answers_assignableWithin (fuel : Nat) (a b : Descriptor) :
    Answers ctx (assignableWithin fuel a b) fun t => t.IsSubtype a b := by
  induction fuel generalizing a b with
  | zero =>
      intro m res m' h
      contradiction
  | succ fuel ih =>
      by_cases hne : a = b
      · intro m res m' h t ht
        rw [assignableWithin, if_pos hne] at h
        obtain ⟨rfl, rfl⟩ := EStateM.Result.ok.inj h
        exact ⟨fun _ => hne ▸ .refl a, fun _ => rfl⟩
      cases ha : Descriptor.isArray a with
      | false => exact answers_class hne ha ih
      | true =>
          cases hb : Descriptor.isArray b with
          | true => exact answers_components hne ha hb ih
          | false =>
              intro m res m' h t ht
              rw [assignableWithin, if_neg hne, if_pos ha, if_pos (by simp [hb])] at h
              obtain ⟨rfl, rfl⟩ := EStateM.Result.ok.inj h
              exact (ClassTable.isSubtype_array_iff hne ha hb).symm

/-- The subtype test decides the subtype relation, if it comes to a decision. -/
theorem assignable_iff {a b : Descriptor} (h : assignable a b ctx m = .ok res m') {t : ClassTable}
    (ht : m'.classes.Evolves t) : res = true ↔ t.IsSubtype a b :=
  answers_assignableWithin ctx.fuel a b h ht

theorem sound_assignable {P : Machine → Prop} (a b : Descriptor) :
    Sound ctx P (assignable a b) fun res m => res = true → m.classes.IsSubtype a b := by
  have hassignable : Sound ctx P (assignable a b) fun _ _ => True := (safe_assignable a b).sound
  refine (hassignable.ensures fun m res m' h => ?_).post fun _ _ _ h => h.2
  exact (assignable_iff h (.refl _)).mp

end Answering

end ClassEngine
