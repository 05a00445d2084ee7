import ClassEngine.Proofs.Engine.SubtypeTest

/-!
The subtype test and cycles of interfaces. A test that says no has followed every way up to its end.
So below a cycle it can only say yes, and where there is nothing to say yes to it goes round for as
long as it may. Main result: `exhausted_below_cycle`.
-/

namespace ClassEngine

open Machine Exec Linking Resolution

section Cycles

variable {host : Host} {ctx : Context} {m m' : Machine} {fuel : Nat} {a b : Descriptor} {res : Bool}

/-- Somewhere a test with so many steps left comes to an answer. -/
def Told (ctx : Context) (fuel : Nat) (a b : Descriptor) (res : Bool) : Prop :=
  ∃ m m', m.Inv ctx.host ∧ m.classes.Linked a ∧ assignableWithin fuel a b ctx m = .ok res m'

/-- Going up from a type one can come to a type above itself. -/
def LeadsUpIntoCycle (host : Host) (a : Descriptor) : Prop :=
  ∃ d, Relation.ReflTransGen (Above host) a d ∧ Relation.TransGen (Above host) d d

/-- Some first step leads on to the cycle. -/
theorem LeadsUpIntoCycle.above (h : LeadsUpIntoCycle host a) :
    ∃ s, Above host a s ∧ LeadsUpIntoCycle host s := by
  obtain ⟨d, hreach, hcycle⟩ := h
  rcases hreach.cases_head with rfl | ⟨s, habove, hrest⟩
  · obtain ⟨s, habove, hback⟩ := Relation.TransGen.head'_iff.mp hcycle
    exact ⟨s, habove, a, hback, hcycle⟩
  · exact ⟨s, habove, d, hrest, hcycle⟩

theorem not_told_zero : ¬Told ctx 0 a b res := by
  rintro ⟨m, m', _, _, hrun⟩
  contradiction

theorem not_told_no_self : ¬Told ctx fuel a a false := by
  rintro ⟨m, m', _, _, hrun⟩
  cases fuel with
  | zero => contradiction
  | succ fuel =>
      rw [assignableWithin, if_pos rfl] at hrun
      exact absurd (EStateM.Result.ok.inj hrun).1 (by simp)

variable [SoundContext ctx]

/-- Among some interfaces one says yes, or all of them say no. -/
theorem told_interfaces {names : List Text} (hinv : m.Inv ctx.host)
    (hrun : (names.anyM fun name => do
      let _ ← loadClass name
      assignableWithin fuel (Descriptor.ofInternal name) b) ctx m = .ok res m') :
    if res then ∃ name ∈ names, Told ctx fuel (Descriptor.ofInternal name) b true
    else ∀ name ∈ names, Told ctx fuel (Descriptor.ofInternal name) b false := by
  induction names generalizing m with
  | nil =>
      obtain ⟨rfl, _⟩ := EStateM.Result.ok.inj hrun
      simp
  | cons name names ih =>
      obtain ⟨here, m₁, hhere, hrest⟩ := of_bind_ok hrun
      obtain ⟨c, m₂, hload, htest⟩ := of_bind_ok hhere
      have hinv₂ := ((safe_loadClass name).of_ok hinv trivial hload).1
      have htold : Told ctx fuel (Descriptor.ofInternal name) b here :=
        ⟨m₂, m₁, hinv₂, linked_of_loadClass hinv hload, htest⟩
      cases here with
      | true =>
          obtain ⟨rfl, _⟩ := EStateM.Result.ok.inj hrest
          exact ⟨name, List.mem_cons_self, htold⟩
      | false =>
          have hinv₁ := ((safe_assignableWithin _ _ _).of_ok hinv₂ trivial htest).1
          have hothers := ih hinv₁ hrest
          cases res with
          | true =>
              obtain ⟨k, hk, hyes⟩ := hothers
              exact ⟨k, List.mem_cons_of_mem name hk, hyes⟩
          | false =>
              intro k hk
              rcases List.mem_cons.mp hk with rfl | hk
              · exact htold
              · exact hothers k hk

/-- Above a class some test says yes, or all of them say no. -/
theorem Told.above (h : Told ctx (fuel + 1) a b res) (hne : a ≠ b)
    (harray : Descriptor.isArray a = false) :
    if res then ∃ s, Above ctx.host a s ∧ Told ctx fuel s b true
    else ∀ s, Above ctx.host a s → Told ctx fuel s b false := by
  obtain ⟨m, m', hinv, hlinked, hrun⟩ := h
  obtain ⟨c, hc, hsuper, hinterface, hcases⟩ := above_of_linked hinv hlinked
  rw [assignableWithin, if_neg hne, if_neg (by simp [harray]),
    bind_of_ok (classAt_eq_ok hc)] at hrun
  obtain ⟨above, m₁, habove, hend⟩ := of_bind_ok hrun
  have hsafe : Safe ctx (c.superclass.elim (pure false) fun s => assignableWithin fuel s b) := by
    cases c.superclass with
    | none => exact .pure false
    | some s => exact safe_assignableWithin _ _ _
  have htold : ∀ s, c.superclass = some s → Told ctx fuel s b above := by
    intro s hs
    rw [hs] at habove
    exact ⟨m, m₁, hinv, (hsuper hs).2, habove⟩
  cases above with
  | true =>
      obtain ⟨rfl, _⟩ := EStateM.Result.ok.inj hend
      cases hs : c.superclass with
      | none =>
          rw [hs] at habove
          exact absurd (EStateM.Result.ok.inj habove).1 (by simp)
      | some s => exact ⟨s, (hsuper hs).1, htold s hs⟩
  | false =>
      have hothers := told_interfaces (hsafe.of_ok hinv trivial habove).1 hend
      cases res with
      | true =>
          obtain ⟨name, hname, hyes⟩ := hothers
          exact ⟨_, .inr (hinterface hname), hyes⟩
      | false =>
          intro s hs
          rcases hcases hs with hs | ⟨name, hname, rfl⟩
          · exact htold s hs
          · exact hothers name hname

/-- A test says yes to what it has come to, unless it was arrays that it has come to. -/
theorem Told.yes (h : Told ctx fuel a b true) :
    ∃ s, Relation.ReflTransGen (Above ctx.host) a s ∧ (s = b ∨ Descriptor.isArray s = true) := by
  induction fuel generalizing a with
  | zero => exact absurd h not_told_zero
  | succ fuel ih =>
      by_cases hne : a = b
      · exact ⟨a, .refl, .inl hne⟩
      cases harray : Descriptor.isArray a with
      | true => exact ⟨a, .refl, .inr harray⟩
      | false =>
          obtain ⟨s, habove, hyes⟩ := h.above hne harray
          obtain ⟨k, hreach, hk⟩ := ih hyes
          exact ⟨k, .head habove hreach, hk⟩

/-- A test that says no has followed every way up to its end. -/
theorem Told.no (h : Told ctx fuel a b false)
    (harray : ∀ s, Relation.ReflTransGen (Above ctx.host) a s → Descriptor.isArray s = false) :
    ¬LeadsUpIntoCycle ctx.host a := by
  induction fuel generalizing a with
  | zero => exact absurd h not_told_zero
  | succ fuel ih =>
      intro hcycle
      obtain ⟨s, habove, hcycle⟩ := hcycle.above
      have hne : a ≠ b := by
        rintro rfl
        exact not_told_no_self h
      have hno := h.above hne (harray a .refl) s habove
      exact ih hno (fun k hk => harray k (.head habove hk)) hcycle

/-- Below a cycle a test does not end if there is nothing above that it could say yes to: it goes on
through the cycle for as many steps as it is given. -/
theorem exhausted_below_cycle {types loaded : Set Descriptor}
    (hclosed : IsHierarchy ctx.host types loaded)
    (ha : a ∈ types) (hb : b ∈ types) (hlinked : m.classes.Linked a)
    (hm : Serving (· = .exhausted) ctx types loaded m) (hcycle : LeadsUpIntoCycle ctx.host a)
    (hother : ∀ s, Relation.ReflTransGen (Above ctx.host) a s →
      s ≠ b ∧ Descriptor.isArray s = false) :
    ∃ m', assignable a b ctx m = .error .exhausted m' := by
  have hbudget : Raise.exhausted = .exhausted ∨ Affords ctx.host types ∅ ctx.fuel a b := .inl rfl
  have hproceeds := proceeds_assignable hclosed ha hb hlinked hm hbudget
  cases hrun : assignable a b ctx m with
  | error e m' =>
      obtain rfl := hproceeds.failing hrun
      exact ⟨m', rfl⟩
  | ok res m' =>
      have htold : Told ctx ctx.fuel a b res := ⟨m, m', hm.inv, hlinked, hrun⟩
      cases res with
      | true =>
          obtain ⟨s, hreach, hs⟩ := htold.yes
          obtain ⟨hne, harray⟩ := hother s hreach
          simp [hne, harray] at hs
      | false => exact absurd hcycle (htold.no fun s hs => (hother s hs).2)

end Cycles

section Rings

/-- An interface without members. -/
def plainInterface (name : Text) (interfaces : List Text) : ClassFile :=
  { plainClass name "java/lang/Object" interfaces with flags := ⟨0x601⟩ }

theorem plainInterface_quiet {d : Descriptor} {c : RuntimeClass} {name : Text}
    {interfaces : List Text} (h : RuntimeClass.ofFile d (plainInterface name interfaces) = .ok c) :
    c.IsQuiet := by
  obtain rfl := Except.ok.inj h
  refine ⟨fun file hfile => ?_, rfl⟩
  obtain rfl := Option.some.inj hfile
  simp [plainInterface, plainClass]

/-- A host with the root class, two interfaces that extend each other, and one besides. -/
def facingHost : Host where
  provider := some fun name =>
    if name = "java/lang/Object" then .ok (plainClass name [] [])
    else if name = "Left" then .ok (plainInterface name ["Right"])
    else if name = "Right" then .ok (plainInterface name ["Left"])
    else if name = "Other" then .ok (plainInterface name [])
    else .error "not found"
  currentTimeMillis := 0
  nanoTime := 0

/-- The types of that host. -/
def facing : List Descriptor :=
  ["LOther;", "LRight;", "LLeft;", Descriptor.object]

theorem facing_above {d s : Descriptor} (hd : d ∈ facing) (hs : Above facingHost d s) :
    s ∈ facing := by
  have hall : ∀ d ∈ facing, ∀ s ∈ aboveOf facingHost d, s ∈ facing := by decide
  exact hall d hd s (above_iff_mem_aboveOf.mp hs)

theorem facing_isHierarchy : IsHierarchy facingHost {d | d ∈ facing} {d | d ∈ facing} where
  subset := subset_rfl
  interface hd himplements := facing_above hd (.inr himplements)
  above := facing_above
  component {d} hd harray _ := by
    have hnone : ∀ d ∈ facing, Descriptor.isArray d = false := by decide
    rw [hnone d hd] at harray
    contradiction

/-- The two interfaces and what is above them. -/
def facingPair : List Descriptor :=
  ["LRight;", "LLeft;", Descriptor.object]

/-- Nothing leads from the two interfaces to the third, or to an array. -/
theorem facing_left {s : Descriptor} (hs : Relation.ReflTransGen (Above facingHost) "LLeft;" s) :
    s ≠ "LOther;" ∧ Descriptor.isArray s = false := by
  have hstep : ∀ d ∈ facingPair, ∀ s ∈ aboveOf facingHost d, s ∈ facingPair := by decide
  have hothers : ∀ s ∈ facingPair, s ≠ "LOther;" ∧ Descriptor.isArray s = false := by
    decide
  have hreached : s ∈ facingPair := by
    induction hs with
    | refl => decide
    | tail _ hlast ih => exact hstep _ ih _ (above_iff_mem_aboveOf.mp hlast)
  exact hothers s hreached

theorem facing_leadsUpIntoCycle : LeadsUpIntoCycle facingHost "LLeft;" := by
  have hleft : Above facingHost "LLeft;" "LRight;" := above_iff_mem_aboveOf.mpr (by decide)
  have hright : Above facingHost "LRight;" "LLeft;" := above_iff_mem_aboveOf.mpr (by decide)
  exact ⟨"LLeft;", .refl, .tail (.single hleft) hright⟩

theorem facingHost_serves : facingHost.Serves
    {("java/lang/Object" : Text), ("Left" : Text), ("Right" : Text), ("Other" : Text)} := by
  intro provider name file hprovider hfile
  obtain rfl := Option.some.inj hprovider
  dsimp only at hfile
  split at hfile
  · simp [*]
  split at hfile
  · simp [*]
  split at hfile
  · simp [*]
  split at hfile
  · simp [*]
  · contradiction

theorem facingHost_loads : ∃ m, Used facingHost (fun _ _ => True) m ∧ m.Holds facing := by
  have hleft : Descriptor.ofInternal "Left" = "LLeft;" := by decide
  have hright : Descriptor.ofInternal "Right" = "LRight;" := by decide
  have hother : Descriptor.ofInternal "Other" = "LOther;" := by decide
  obtain ⟨m₁, hm₁, hholds₁⟩ := (used_fresh facingHost fun _ _ => True).load holds_fresh
    ofInternal_object (by simp) rfl (plainClass_quiet rfl) (.inl rfl) trivial
  obtain ⟨m₂, hm₂, hholds₂⟩ := hm₁.load hholds₁ hleft (by decide) rfl
    (plainInterface_quiet rfl) (.inr (by decide)) trivial
  obtain ⟨m₃, hm₃, hholds₃⟩ := hm₂.load hholds₂ hright (by decide) rfl
    (plainInterface_quiet rfl) (.inr (by decide)) trivial
  obtain ⟨m₄, hm₄, hholds₄⟩ := hm₃.load hholds₃ hother (by decide) rfl
    (plainInterface_quiet rfl) (.inr (by decide)) trivial
  exact ⟨m₄, hm₄, hholds₄⟩

/-- Two interfaces that extend each other are loaded and initialized like any others. But no number
of steps is enough to tell that one of them may not be used for a third. -/
theorem facing_interfaces_are_endless :
    facingHost.Serves
      {("java/lang/Object" : Text), ("Left" : Text), ("Right" : Text), ("Other" : Text)} ∧
    ∃ m, Used facingHost (fun _ _ => True) m ∧ m.classes.Linked "LLeft;" ∧
      m.classes.Linked "LOther;" ∧ ∀ steps nesting : Nat,
        let ctx := Session.context facingHost (steps + 1) (nesting + 1)
        InitializersEnd ctx {d | d ∈ facing} {d | d ∈ facing} m ∧
          ∃ m', assignable "LLeft;" "LOther;" ctx m = .error .exhausted m' := by
  obtain ⟨m, hm, hholds⟩ := facingHost_loads
  have hinitialized : ∀ d ∈ {d | d ∈ facing},
      ∃ c, m.classes[d]? = some c ∧ c.state = .initialized := hholds.initialized
  have hleft : ("LLeft;" : Text) ∈ facing := by decide +kernel
  have hother : ("LOther;" : Text) ∈ facing := by decide +kernel
  refine ⟨facingHost_serves, m, hm, hholds.linked hleft, hholds.linked hother, ?_⟩
  intro steps nesting ctx
  have hhost : ctx.host = facingHost := context_host facingHost (steps + 1) (nesting + 1)
  refine ⟨initializersEnd_of_initialized subset_rfl hinitialized, ?_⟩
  have hserving : Serving (· = .exhausted) ctx {d | d ∈ facing} {d | d ∈ facing} m :=
    serving_of_initialized subset_rfl hm.reachable.inv hinitialized
  refine exhausted_below_cycle (hhost.symm ▸ facing_isHierarchy) hleft hother (hholds.linked hleft)
    hserving ?_ ?_
  · rw [hhost]
    exact facing_leadsUpIntoCycle
  · rw [hhost]
    exact fun s hs => facing_left hs

end Rings

end ClassEngine
