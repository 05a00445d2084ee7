import ClassEngine.Engine.Session
import ClassEngine.Proofs.Engine.Running

/-!
Initializing a class is sound. Between the moment at which a class is marked as being initialized and
the start of its initializer its superclass is initialized, so that no code runs in between while the
superclass is still behind. Main result: every context of an engine is sound.
-/

namespace ClassEngine

open Machine Exec Linking Allocation Initialization

variable {host : Host} {ctx : Context} {m : Machine} {d : Descriptor} {a : Aspect}

section States

/-- The table in which a class has moved on. -/
abbrev ClassTable.moved (t : ClassTable) (d : Descriptor) (state : ClassState) : ClassTable :=
  t.modify d fun c => { c with state := state }

theorem setState_ok (d : Descriptor) (state : ClassState) (m : Machine) :
    setState d state ctx m = .ok () (m.withClasses (m.classes.moved d state)) :=
  rfl

/-- Every record of the table afterwards is one of those before. -/
theorem ClassTable.of_moved {t : ClassTable} {state : ClassState} {k : Descriptor}
    {c' : RuntimeClass} (hc' : (t.moved d state)[k]? = some c') : ∃ c, t[k]? = some c ∧
      c.Keeps c' ∧ c'.resolved = c.resolved ∧ (d = k ∧ c'.state = state ∨ c' = c) := by
  rw [getElem?_modify] at hc'
  split at hc'
  case isTrue hk =>
    obtain ⟨c, hc, rfl⟩ := Option.map_eq_some_iff.mp hc'
    exact ⟨c, hk ▸ hc, rfl, rfl, .inl ⟨hk, rfl⟩⟩
  case isFalse => exact ⟨c', hc', rfl, rfl, .inr rfl⟩

theorem ClassTable.moved_self {t : ClassTable} {c : RuntimeClass} (hc : t[d]? = some c)
    (state : ClassState) : (t.moved d state)[d]? = some { c with state := state } := by
  rw [getElem?_modify, if_pos rfl, hc]
  rfl

/-- Classes that have begun to be initialized still have when one more moves on. -/
theorem ClassTable.Started.moved {t : ClassTable} {state : ClassState} {k : Descriptor}
    (h : t.Started k) (hstate : state.HasStarted) : ClassTable.Started (t.moved d state) k := by
  obtain ⟨c, hc, hstarted⟩ := h
  by_cases hk : d = k
  · subst hk
    exact ⟨_, ClassTable.moved_self hc state, hstate⟩
  · refine ⟨c, ?_, hstarted⟩
    rw [getElem?_modify_of_ne (Ne.symm hk)]
    exact hc

theorem ClassTable.advances_moved {t : ClassTable} {c : RuntimeClass} {state : ClassState}
    (hc : t[d]? = some c) (hnext : c.state.Next state) : t.Advances (t.moved d state) := by
  refine advances_modify fun c' hc' => ⟨rfl, .inr ?_⟩
  obtain rfl := Option.some.inj (hc.symm.trans hc')
  exact hnext

/-- A table in which a linked class has moved on is sound. -/
theorem ClassTable.Sound.moved {t : ClassTable} {c : RuntimeClass} {state : ClassState}
    (h : t.Sound host []) (hc : t[d]? = some c) (hlinked : c.state.IsLinked)
    (hstate : state.IsLinked) : (t.moved d state).Sound host [] := by
  refine h.of_persists ?_ ?_
  · intro k c' hc' hlinked'
    by_cases hk : d = k
    · subst hk
      exact ⟨_, ClassTable.moved_self hc' state, rfl, hstate⟩
    · refine ⟨c', ?_, rfl, hlinked'⟩
      rw [getElem?_modify_of_ne (Ne.symm hk)]
      exact hc'
  · intro k c' hc'
    obtain ⟨c₁, hc₁, hkeeps, _, ⟨rfl, hstate'⟩ | rfl⟩ := ClassTable.of_moved hc'
    · obtain rfl := Option.some.inj (hc.symm.trans hc₁)
      exact ⟨c, hc, hkeeps, .inr ⟨hlinked, hstate' ▸ hstate⟩⟩
    · exact ⟨c', hc₁, hkeeps, .inl rfl⟩

/-- The invariant when a class moves on. Before, it may have been the superclass that was behind;
after, its own superclass may be. -/
theorem Machine.InvExcept.moved {c : RuntimeClass} {state : ClassState} {hole : Option Descriptor}
    (h : InvExcept host (some d) m) (hc : m.classes[d]? = some c) (hlinked : c.state.IsLinked)
    (hnext : c.state.Next state) (hstate : state.HasStarted)
    (hsuper : ∀ s, c.superclass = some s → m.classes.Started s ∨ hole = some s) :
    InvExcept host hole (m.withClasses (m.classes.moved d state)) := by
  have hstarted : ∀ {k}, m.classes.Started k → ClassTable.Started (m.classes.moved d state) k :=
    fun hk => hk.moved hstate
  refine h.withClasses (ClassTable.advances_moved hc hnext)
    (h.table.moved hc hlinked hstate.isLinked) hstarted ?_ ?_
  · intro k c' s hc' hstarted' hs
    obtain ⟨c₁, hc₁, hkeeps, _, ⟨rfl, _⟩ | rfl⟩ := ClassTable.of_moved hc'
    · obtain rfl := Option.some.inj (hc.symm.trans hc₁)
      exact (hsuper s (hkeeps.superclass ▸ hs)).imp_left hstarted
    · rcases h.supers hc₁ hstarted' hs with hbegun | hd
      · exact .inl (hstarted hbegun)
      · obtain rfl := Option.some.inj hd
        exact .inl ⟨_, ClassTable.moved_self hc state, hstate⟩
  · intro k c' ref owner hc' howner
    obtain ⟨c₁, hc₁, _, hresolved, _⟩ := ClassTable.of_moved hc'
    rw [hresolved] at howner
    exact hstarted (h.resolved hc₁ howner)

/-- A class that moves on remembers what it did. -/
theorem Machine.Coherent.moved (h : m.Coherent a) (d : Descriptor) (state : ClassState) :
    (m.withClasses (m.classes.moved d state)).Coherent a := by
  refine h.withClasses (ClassTable.retains_modify fun _ => rfl) ?_
  intro k c' ref owner hc' howner
  obtain ⟨c, hc, _, hresolved, _⟩ := ClassTable.of_moved hc'
  exact .inl ⟨c, hc, hresolved ▸ howner⟩

/-- Once the class in question has begun to be initialized, nothing is behind. -/
theorem Machine.InvExcept.close (h : InvExcept host (some d) m) (hd : m.classes.Started d) :
    m.Inv host where
  table := h.table
  supers hc hstarted hs := by
    rcases h.supers hc hstarted hs with hbegun | hs
    · exact .inl hbegun
    · exact .inl (Option.some.inj hs ▸ hd)
  resolved := h.resolved
  heap := h.heap
  frames := h.frames
  recorded := h.recorded
  initializers := h.initializers

/-- A class that was not being initialized before may be in any later state at the end. -/
theorem ClassTable.Evolves.moved {t t' : ClassTable} {c : RuntimeClass} {state : ClassState}
    (h : t.Evolves t') (hc : t[d]? = some c) (hbefore : c.state = .linking ∨ c.state = .linked)
    (hstate : state.IsLinked) : t.Evolves (t'.moved d state) := by
  intro k c₁ hc₁
  obtain ⟨c', hc', hbecame⟩ := h hc₁
  by_cases hk : d = k
  · subst hk
    obtain rfl := Option.some.inj (hc.symm.trans hc₁)
    refine ⟨_, ClassTable.moved_self hc' state, hbecame.keeps.trans rfl, ?_⟩
    rcases hbefore with hbefore | hbefore <;> rw [hbefore]
    · trivial
    · exact hstate
  · refine ⟨c', ?_, hbecame⟩
    rw [getElem?_modify_of_ne (Ne.symm hk)]
    exact hc'

end States

section Initializers

/-- A class, known by the record `c`, that is being initialized and whose initializer has not been
started. -/
structure Initializing (d : Descriptor) (c : RuntimeClass) (m : Machine) : Prop where
  record : ∃ c', m.classes[d]? = some c' ∧ c'.state = .initializing ∧ c'.superclass = c.superclass
  fresh : .initializer d ∉ m.history.val

theorem Initializing.started {c : RuntimeClass} (h : Initializing d c m) : m.classes.Started d := by
  obtain ⟨c', hc', hstate, _⟩ := h.record
  exact ⟨c', hc', by rw [hstate]; trivial⟩

/-- Whatever runs in between, only the computation that began to initialize a class goes on with
it. -/
theorem Initializing.evolves {c : RuntimeClass} {F : FrameRel} {m' : Machine}
    (h : Initializing d c m) (hevolves : EvolvesBy F m m') : Initializing d c m' where
  record := by
    obtain ⟨c', hc', hstate, hsuper⟩ := h.record
    obtain ⟨c'', hc'', hbecame⟩ := hevolves.classes hc'
    refine ⟨c'', hc'', ?_, hbecame.keeps.superclass.trans hsuper⟩
    rw [hbecame.state.eq_of_hasStarted (by rw [hstate]; trivial), hstate]
  fresh hin := h.fresh (hevolves.starts h.started hin)

/-- The mark that a class gets when its initializers have run, `m` being the state before it was
marked for the first time. -/
theorem marked (host : Host) {c c₂ : RuntimeClass} {m₂ : Machine} {state : ClassState}
    (hevolves : Evolves m m₂) (hc : m.classes[d]? = some c)
    (hbefore : c.state = .linking ∨ c.state = .linked) (hc₂ : m₂.classes[d]? = some c₂)
    (hc₂state : c₂.state = .initializing) (hnext : ClassState.initializing.Next state)
    (hstate : state.HasStarted) :
    Evolves m (m₂.withClasses (m₂.classes.moved d state)) ∧
      (m₂.Recorded host → (m₂.withClasses (m₂.classes.moved d state)).Recorded host) ∧
      (m₂.Inv host → (m₂.withClasses (m₂.classes.moved d state)).Inv host) := by
  refine ⟨⟨?_, hevolves.heap, hevolves.frames, ?_, hevolves.limit, hevolves.guard, hevolves.moments⟩,
    fun hrecorded => ?_, fun hinv => ?_⟩
  · exact hevolves.classes.moved hc hbefore hstate.isLinked
  · intro k hk hin
    exact hevolves.starts hk (by simpa using hin)
  · exact hrecorded.withClasses (ClassTable.advances_moved hc₂ (hc₂state ▸ hnext))
  · have hstarted : c₂.state.HasStarted := by rw [hc₂state]; trivial
    exact (hinv.weaken _).moved hc₂ hstarted.isLinked (hc₂state ▸ hnext) hstate
      fun s hs => hinv.supers hc₂ hstarted hs

variable [SoundContext ctx]

@[grind ←] theorem safe_constantValue (owner : Text) (file : ClassFile) (f : Field) :
    Safe ctx (constantValue owner file f) := by
  unfold constantValue
  grind

@[grind ←] theorem safe_applyConstants (owner : Text) (statics : Ref) (file : ClassFile)
    (fields : List Field) : Safe ctx (applyConstants owner statics file fields) := by
  induction fields with
  | nil => exact Safe.pure ()
  | cons f rest ih =>
      unfold applyConstants
      grind

omit [SoundContext ctx] in
/-- The start of an initializer is noted where it may be. -/
theorem initializer_noted {c : RuntimeClass} {method : Method} (hinv : m.Inv host)
    (hinit : Initializing d c m) (hready : ∀ s, c.superclass = some s → m.classes.Ready s)
    (hdescriptor : c.descriptor = d) (howns : c.OwnsMethods)
    (hmethod : c.declaredMethod? "<clinit>" "()V" = some method) :
    (m.note (.initializer d)).Inv host ∧
      (m.note (.initializer d)).classes.Started method.owner := by
  obtain ⟨c', hc', hstate, hsuper⟩ := hinit.record
  refine ⟨hinv.note ?_ (by simp) ?_, ?_⟩
  · refine ⟨hinit.fresh, ?_⟩
    rw [hinv.recorded.2]
    exact ⟨c', hc', hstate, fun s hs => hready s (hsuper ▸ hs)⟩
  · rintro k hk
    obtain rfl := Event.initializer.inj hk
    exact hinit.started
  · change m.classes.Started method.owner
    rw [howns method (List.mem_of_find?_eq_some hmethod), hdescriptor]
    exact hinit.started

theorem sound_callInitializer (method : Method) :
    Sound ctx (fun m => m.classes.Started method.owner) (do let _ ← invokeMethod method [])
      fun _ _ => True :=
  .seq (sound_invokeMethod method []) fun _ => .pure fun _ _ _ => trivial

/-- The initializer of a class is started once, when its superclass is ready. What was before the
class began to be initialized is `m₀`. -/
theorem runInitializer_meets {m₀ : Machine} {c : RuntimeClass} {pre : Prop}
    (hevolves : Evolves m₀ m) (hsettled : m₀.Settled → m.Settled)
    (hbefore : m₀.classes.Started d → .initializer d ∈ m₀.history.val)
    (hpre : pre → m.Inv ctx.host ∧ Initializing d c m ∧
      (∀ s, c.superclass = some s → m.classes.Ready s) ∧ c.descriptor = d ∧ c.OwnsMethods) :
    Meets .instruction ctx.host m₀ pre (fun _ _ => True) (runInitializer d c ctx m) := by
  unfold runInitializer
  cases hmethod : c.declaredMethod? "<clinit>" "()V" with
  | none => exact ⟨hevolves, hsettled, fun hp => ⟨(hpre hp).1, trivial⟩⟩
  | some method =>
      have hnote : Exec.note (.initializer d) ctx m = .ok () (m.note (.initializer d)) := rfl
      dsimp only
      rw [bind_of_ok hnote]
      refine ((sound_callInitializer method).meets _).after ?_
        (fun hs => (hsettled hs).note (by simp)) ?_
      · have hmarked : Evolves m₀ m.mark := hevolves.trans (evolvesBy_mark m)
        refine ⟨hmarked.classes, hmarked.heap, hmarked.frames, ?_, hmarked.limit, hmarked.guard,
          hmarked.moments⟩
        intro k hk hin
        rw [note_history] at hin
        rcases List.mem_cons.mp hin with hin | hin
        · obtain rfl := Event.initializer.inj hin
          exact hbefore hk
        · exact hevolves.starts hk hin
      · intro hp
        obtain ⟨hinv, hinit, hready, hdescriptor, howns⟩ := hpre hp
        exact initializer_noted hinv hinit hready hdescriptor howns hmethod

theorem runInitializer_coherent {c : RuntimeClass} (hinv : m.Inv ctx.host)
    (hinit : Initializing d c m) (hready : ∀ s, c.superclass = some s → m.classes.Ready s)
    (hdescriptor : c.descriptor = d) (howns : c.OwnsMethods) (hm : m.Coherent a) :
    (endOf (runInitializer d c ctx m)).Coherent a := by
  unfold runInitializer
  cases hmethod : c.declaredMethod? "<clinit>" "()V" with
  | none => exact hm
  | some method =>
      have hnote : Exec.note (.initializer d) ctx m = .ok () (m.note (.initializer d)) := rfl
      obtain ⟨hinv', hstarted⟩ := initializer_noted hinv hinit hready hdescriptor howns hmethod
      dsimp only
      rw [bind_of_ok hnote]
      exact (sound_callInitializer method).coherent _ hinv' hstarted (hm.note _)

/-- The superclass of a class is initialized first. -/
theorem initializeSuper_meets (c : RuntimeClass) (m : Machine) :
    Meets .instruction ctx.host m (m.InvExcept ctx.host c.superclass ∧
        ∀ s, c.superclass = some s → m.classes.Linked s)
      (fun _ m' => ∀ s, c.superclass = some s → m'.classes.Ready s) (initializeSuper c ctx m) := by
  unfold initializeSuper
  cases hsuper : c.superclass with
  | none => exact ⟨.refl m, id, fun hpre => ⟨hpre.1, fun s hs => by contradiction⟩⟩
  | some s =>
      dsimp only
      have hs : Meets _ ctx.host m _ _ (initializeClass s ctx m) := SoundContext.initClass s m
      cases hrun : initializeClass s ctx m with
      | ok _ m' =>
          rw [hrun] at hs
          refine ⟨hs.1, hs.2.1, fun hpre => ?_⟩
          obtain ⟨hinv, hready⟩ := hs.2.2 ⟨hpre.1, hpre.2 s rfl⟩
          exact ⟨hinv, fun s' hs' => Option.some.inj hs' ▸ hready⟩
      | error e m' =>
          rw [hrun] at hs
          exact ⟨hs.1, hs.2.1, fun hpre => hs.2.2 ⟨hpre.1, hpre.2 s rfl⟩⟩

theorem initializeSuper_coherent {c : RuntimeClass} (hinv : m.InvExcept ctx.host c.superclass)
    (hlinked : ∀ s, c.superclass = some s → m.classes.Linked s) (hm : m.Coherent a) :
    (endOf (initializeSuper c ctx m)).Coherent a := by
  unfold initializeSuper
  cases hsuper : c.superclass with
  | none => exact hm
  | some s => exact SoundContext.initClass_coherent s m (hsuper ▸ hinv) (hlinked s hsuper) hm

theorem runInitializers_meets {m₀ : Machine} {c : RuntimeClass} {pre : Prop}
    (hevolves : Evolves m₀ m) (hsettled : m₀.Settled → m.Settled)
    (hbefore : m₀.classes.Started d → .initializer d ∈ m₀.history.val)
    (hpre : pre → m.InvExcept ctx.host c.superclass ∧
      (∀ s, c.superclass = some s → m.classes.Linked s) ∧ Initializing d c m ∧
      c.descriptor = d ∧ c.OwnsMethods) :
    Meets .instruction ctx.host m₀ pre (fun _ _ => True) (runInitializers d c ctx m) := by
  have hsuper : Meets _ ctx.host m _ _ (initializeSuper c ctx m) := initializeSuper_meets c m
  have hready : pre → m.InvExcept ctx.host c.superclass ∧
      ∀ s, c.superclass = some s → m.classes.Linked s := fun hp => ⟨(hpre hp).1, (hpre hp).2.1⟩
  unfold runInitializers
  cases hrun : initializeSuper c ctx m with
  | error e m₁ =>
      rw [bind_of_error hrun]
      rw [hrun] at hsuper
      exact hsuper.after hevolves hsettled hready
  | ok _ m₁ =>
      rw [bind_of_ok hrun]
      rw [hrun] at hsuper
      have hevolves₁ := hevolves.trans hsuper.1
      have hsettled₁ : m₀.Settled → m₁.Settled := fun h => hsuper.2.1 (hsettled h)
      have hdone : Meets .instruction ctx.host m₀ pre (fun _ _ => True)
          ((pure () : Exec Unit) ctx m₁) :=
        ⟨hevolves₁, hsettled₁, fun hp => ⟨(hsuper.2.2 (hready hp)).1, trivial⟩⟩
      cases c.file with
      | none => exact hdone
      | some file =>
      cases c.statics with
      | none => exact hdone
      | some statics =>
        have hconstants : Safe ctx (applyConstants c.name statics file file.fields) :=
          safe_applyConstants _ _ _ _
        have hconstants := hconstants.toUpholds.meets m₁
        cases hrun₁ : applyConstants c.name statics file file.fields ctx m₁ with
        | error e m₂ =>
            dsimp only
            rw [bind_of_error hrun₁]
            rw [hrun₁] at hconstants
            exact hconstants.after hevolves₁ hsettled₁ fun hp =>
              ⟨(hsuper.2.2 (hready hp)).1, trivial⟩
        | ok _ m₂ =>
            dsimp only
            rw [bind_of_ok hrun₁]
            rw [hrun₁] at hconstants
            refine runInitializer_meets (hevolves₁.trans hconstants.1)
              (fun h => hconstants.2.1 (hsettled₁ h)) hbefore fun hp => ?_
            obtain ⟨hinv₁, hready₁⟩ := hsuper.2.2 (hready hp)
            obtain ⟨_, _, hinit, hclass⟩ := hpre hp
            refine ⟨(hconstants.2.2 ⟨hinv₁, trivial⟩).1,
              (hinit.evolves hsuper.1).evolves hconstants.1, ?_, hclass⟩
            intro s hs
            exact hconstants.1.classes.ready (hready₁ s hs)

theorem runInitializers_coherent {c : RuntimeClass} (hinv : m.InvExcept ctx.host c.superclass)
    (hlinked : ∀ s, c.superclass = some s → m.classes.Linked s) (hinit : Initializing d c m)
    (hclass : c.descriptor = d ∧ c.OwnsMethods) (hm : m.Coherent a) :
    (endOf (runInitializers d c ctx m)).Coherent a := by
  have hsuper : Meets _ ctx.host m _ _ (initializeSuper c ctx m) := initializeSuper_meets c m
  have hend : (endOf (initializeSuper c ctx m)).Coherent a := initializeSuper_coherent hinv hlinked hm
  unfold runInitializers
  cases hrun : initializeSuper c ctx m with
  | error e m₁ =>
      rw [bind_of_error hrun]
      rw [hrun] at hend
      exact hend
  | ok _ m₁ =>
      rw [bind_of_ok hrun]
      rw [hrun] at hsuper hend
      obtain ⟨hinv₁, hready₁⟩ := hsuper.2.2 ⟨hinv, hlinked⟩
      cases c.file with
      | none => exact hend
      | some file =>
      cases c.statics with
      | none => exact hend
      | some statics =>
        have hconstants : Safe ctx (applyConstants c.name statics file file.fields) :=
          safe_applyConstants _ _ _ _
        have hmeets := hconstants.toUpholds.meets m₁
        have hend₁ := hconstants.toUpholds.coherent m₁ hinv₁ trivial hend
        cases hrun₁ : applyConstants c.name statics file file.fields ctx m₁ with
        | error e m₂ =>
            dsimp only
            rw [bind_of_error hrun₁]
            rw [hrun₁] at hend₁
            exact hend₁
        | ok _ m₂ =>
            dsimp only
            rw [bind_of_ok hrun₁]
            rw [hrun₁] at hmeets hend₁
            exact runInitializer_coherent (hmeets.2.2 ⟨hinv₁, trivial⟩).1
              ((hinit.evolves hsuper.1).evolves hmeets.1)
              (fun s hs => hmeets.1.classes.ready (hready₁ s hs)) hclass.1 hclass.2 hend₁

/-- Once initialization has begun, the class stays as it is until all initializers have run. -/
theorem runInitializers_keeps (d : Descriptor) (c : RuntimeClass) (m : Machine) :
    match runInitializers d c ctx m with
    | .ok _ m' => m.classes.Evolves m'.classes
    | .error _ m' => m.classes.Evolves m'.classes := by
  -- Seen from a state that tells of the start of the initializer already, and in which something is
  -- left to be taken up, there is nothing to show but what becomes of the table.
  let m₀ : Machine :=
    { m with history := .of (.unwound ⟨0⟩ [] :: .initializer d :: m.history.val) }
  have hhistory : m₀.history.val = .unwound ⟨0⟩ [] :: .initializer d :: m.history.val := Ghost.val_of _
  have hevolves : Evolves m₀ m :=
    evolvesBy_of_same (.refl _) (.refl _) (FrameRel.onTop_refl _ _)
      (fun hin => by simp [hhistory, hin]) rfl rfl rfl
  have hsettled : ¬m₀.Settled := fun h => by
    have hpending := h.2
    rw [hhistory] at hpending
    contradiction
  have hrun : Meets .instruction ctx.host m₀ False (fun _ _ => True) (runInitializers d c ctx m) :=
    runInitializers_meets hevolves hsettled.elim (fun _ => by simp [hhistory]) False.elim
  cases hres : runInitializers d c ctx m with
  | ok _ m' =>
      rw [hres] at hrun
      exact hrun.1.classes
  | error e m' =>
      rw [hres] at hrun
      exact hrun.1.classes

omit [SoundContext ctx] in
/-- What is known when a class is marked as being initialized. -/
theorem Machine.InvExcept.begun {c : RuntimeClass} (hinv : m.InvExcept host (some d))
    (hd : m.classes.Linked d) (hc : m.classes[d]? = some c)
    (hbefore : c.state = .linking ∨ c.state = .linked) :
    let m₁ := m.withClasses (m.classes.moved d .initializing)
    m₁.InvExcept host c.superclass ∧ (∀ s, c.superclass = some s → m₁.classes.Linked s) ∧
      Initializing d c m₁ ∧ c.descriptor = d ∧ c.OwnsMethods := by
  have hlinked : c.state.IsLinked := by
    obtain ⟨c', hc', hlinked⟩ := hd
    obtain rfl := Option.some.inj (hc.symm.trans hc')
    exact hlinked
  have hstate : c.state = .linked := by
    rcases hbefore with hstate | hstate
    · rw [hstate] at hlinked
      exact hlinked.elim
    · exact hstate
  have hevolves : m.classes.Evolves (m.classes.moved d .initializing) :=
    (ClassTable.Evolves.refl _).moved hc (.inr hstate) trivial
  refine ⟨hinv.moved hc hlinked (hstate ▸ .start) trivial fun s hs => .inr hs, ?_, ⟨?_, ?_⟩,
    hinv.table.descriptor hc, hinv.table.ownsMethods hc⟩
  · intro s hs
    exact hevolves.linked ((hinv.table.linked hc hlinked).super hc hs)
  · exact ⟨_, ClassTable.moved_self hc _, rfl, rfl⟩
  · intro hin
    obtain ⟨c', hc', hstarted⟩ := hinv.initializers (by simpa using hin)
    obtain rfl := Option.some.inj (hc.symm.trans hc')
    rw [hstate] at hstarted
    exact hstarted

/-- A class that has not begun to be initialized is marked, initialized, and marked again. -/
theorem initializeNew_meets {c : RuntimeClass} (hc : m.classes[d]? = some c)
    (hstate : c.state = .linking ∨ c.state = .linked) :
    Meets .instruction ctx.host m (m.InvExcept ctx.host (some d) ∧ m.classes.Linked d)
      (fun _ m' => m'.classes.Ready d) ((do
        setState d .initializing
        match ← attempt (runInitializers d c) with
        | .ok () => setState d .initialized
        | .error e => do
          if !e.isAbrupt then setState d (.failed none)
          throw e : Exec Unit) ctx m) := by
  let m₁ := m.withClasses (m.classes.moved d .initializing)
  have hnot : ¬m.classes.Started d := by
    rintro ⟨c', hc', hstarted⟩
    obtain rfl := Option.some.inj (hc.symm.trans hc')
    rcases hstate with hstate | hstate <;> rw [hstate] at hstarted <;> exact hstarted
  have hevolves₁ : Evolves m m₁ :=
    evolvesBy_withClasses ((ClassTable.Evolves.refl _).moved hc hstate trivial)
  have hc₁ : m₁.classes[d]? = some { c with state := .initializing } :=
    ClassTable.moved_self hc _
  have hrun : Meets .instruction ctx.host m (m.InvExcept ctx.host (some d) ∧ m.classes.Linked d)
      (fun _ _ => True) (runInitializers d c ctx m₁) := by
    refine runInitializers_meets hevolves₁ (fun h => h.withClasses _) (absurd · hnot) ?_
    rintro ⟨hinv, hlinked⟩
    exact hinv.begun hlinked hc hstate
  have hkeeps : match runInitializers d c ctx m₁ with
      | .ok _ m₂ => m₁.classes.Evolves m₂.classes
      | .error _ m₂ => m₁.classes.Evolves m₂.classes := runInitializers_keeps d c m₁
  have hrecord : ∀ {m₂ : Machine}, m₁.classes.Evolves m₂.classes →
      ∃ c₂, m₂.classes[d]? = some c₂ ∧ c₂.state = .initializing := by
    intro m₂ hclasses
    obtain ⟨c₂, hc₂, hbecame⟩ := hclasses hc₁
    exact ⟨c₂, hc₂, hbecame.state.eq_of_hasStarted trivial⟩
  rw [bind_of_ok (setState_ok d .initializing m)]
  cases hres : runInitializers d c ctx m₁ with
  | ok _ m₂ =>
      rw [hres] at hrun hkeeps
      rw [attempt_bind_ok hres]
      obtain ⟨c₂, hc₂, hc₂state⟩ := hrecord hkeeps
      obtain ⟨hevolves, _, hinv⟩ := marked ctx.host hrun.1 hc hstate hc₂ hc₂state .complete trivial
      refine ⟨hevolves, fun hs => (hrun.2.1 hs).withClasses _, fun hpre => ?_⟩
      exact ⟨hinv (hrun.2.2 hpre).1, _, ClassTable.moved_self hc₂ _, .inr rfl⟩
  | error e m₂ =>
      rw [hres] at hrun hkeeps
      rw [attempt_bind_error hres]
      dsimp only
      cases habrupt : e.isAbrupt with
      | true => exact hrun
      | false =>
          obtain ⟨c₂, hc₂, hc₂state⟩ := hrecord hkeeps
          obtain ⟨hevolves, hrecorded, hinv⟩ := marked ctx.host hrun.1 hc hstate hc₂ hc₂state .fail
            trivial
          refine ⟨hevolves, fun hs => (hrun.2.1 hs).withClasses _, fun hpre => ?_⟩
          obtain ⟨hrecorded₂, hinv₂⟩ := hrun.2.2 hpre
          exact ⟨hrecorded hrecorded₂, fun hne => hinv (hinv₂ hne)⟩

theorem initializeNew_coherent {c : RuntimeClass} (hinv : m.InvExcept ctx.host (some d))
    (hlinked : m.classes.Linked d) (hc : m.classes[d]? = some c)
    (hstate : c.state = .linking ∨ c.state = .linked) (hm : m.Coherent a) :
    (endOf ((do
      setState d .initializing
      match ← attempt (runInitializers d c) with
      | .ok () => setState d .initialized
      | .error e => do
        if !e.isAbrupt then setState d (.failed none)
        throw e : Exec Unit) ctx m)).Coherent a := by
  obtain ⟨hinv₁, hsupers, hinit, hclass⟩ := hinv.begun hlinked hc hstate
  have hend : (endOf (runInitializers d c ctx _)).Coherent a :=
    runInitializers_coherent hinv₁ hsupers hinit hclass (hm.moved d .initializing)
  rw [bind_of_ok (setState_ok d .initializing m)]
  cases hres : runInitializers d c ctx (m.withClasses (m.classes.moved d .initializing)) with
  | ok _ m₂ =>
      rw [hres] at hend
      rw [attempt_bind_ok hres]
      exact hend.moved d .initialized
  | error e m₂ =>
      rw [hres] at hend
      rw [attempt_bind_error hres]
      dsimp only
      cases habrupt : e.isAbrupt with
      | true => exact hend
      | false => exact hend.moved d (.failed none)

/-- Initializing a class leaves it ready, or says why not. -/
theorem initializeOnce_meets (d : Descriptor) (m : Machine) :
    Meets .instruction ctx.host m (m.InvExcept ctx.host (some d) ∧ m.classes.Linked d)
      (fun _ m' => m'.classes.Ready d) (initializeOnce d ctx m) := by
  cases hc : m.classes[d]? with
  | none =>
      have hget : (get : Exec Machine) ctx m = .ok m m := rfl
      have hrun : initializeOnce d ctx m = .error (.panic .broken) m := by
        rw [initializeOnce]
        apply bind_of_error
        rw [classAt, bind_of_ok hget, hc]
        rfl
      rw [hrun]
      refine ⟨.refl m, fun hs => hs.raises _, ?_⟩
      rintro ⟨_, c, hc', _⟩
      rw [hc] at hc'
      contradiction
  | some c =>
      have hready : c.state = .initializing ∨ c.state = .initialized → Meets .instruction ctx.host m
          (m.InvExcept ctx.host (some d) ∧ m.classes.Linked d) (fun _ m' => m'.classes.Ready d)
          ((pure () : Exec Unit) ctx m) := by
        intro hstate
        have hd : m.classes.Ready d := ⟨c, hc, hstate⟩
        exact ⟨.refl m, id, fun hpre => ⟨hpre.1.close hd.started, hd⟩⟩
      rw [initializeOnce, bind_of_ok (classAt_eq_ok hc)]
      cases hstate : c.state with
      | linking => exact initializeNew_meets hc (.inl hstate)
      | linked => exact initializeNew_meets hc (.inr hstate)
      | initializing => exact hready (.inl hstate)
      | initialized => exact hready (.inr hstate)
      | failed cause =>
          cases cause with
          | some e =>
              refine ⟨evolvesBy_of_eq rfl rfl rfl rfl rfl rfl rfl, fun hs => (hs.of_eq rfl).raises e, ?_⟩
              rintro ⟨_, c', hc', hlinked⟩
              obtain rfl := Option.some.inj (hc.symm.trans hc')
              rw [hstate] at hlinked
              exact hlinked.elim
          | none =>
              have hthrow : Sound ctx (fun _ => True) (throwNew "java/lang/NoClassDefFoundError"
                  ("Could not initialize class " ++ Descriptor.sourceName d))
                  fun (_ : Unit) m => m.classes.Ready d := sound_throwNew _ _
              have hd : m.classes.Started d := ⟨c, hc, by rw [hstate]; trivial⟩
              exact (hthrow.meets m).after (.refl m) id fun hpre => ⟨hpre.1.close hd, trivial⟩

theorem initializeOnce_coherent (hinv : m.InvExcept ctx.host (some d)) (hlinked : m.classes.Linked d)
    (hm : m.Coherent a) : (endOf (initializeOnce d ctx m)).Coherent a := by
  have hrecord := hlinked
  obtain ⟨c, hc, _⟩ := hrecord
  rw [initializeOnce, bind_of_ok (classAt_eq_ok hc)]
  cases hstate : c.state with
  | linking => exact initializeNew_coherent hinv hlinked hc (.inl hstate) hm
  | linked => exact initializeNew_coherent hinv hlinked hc (.inr hstate) hm
  | initializing => exact hm
  | initialized => exact hm
  | failed cause =>
      cases cause with
      | some e => exact hm.of_eq rfl rfl rfl
      | none =>
          have hthrow : Safe ctx (throwNew "java/lang/NoClassDefFoundError"
            ("Could not initialize class " ++ Descriptor.sourceName d) : Exec Unit) :=
              safe_throwNew _ _
          have hd : m.classes.Started d := ⟨c, hc, by rw [hstate]; trivial⟩
          exact hthrow.toUpholds.coherent m (hinv.close hd) trivial hm

theorem surfacing_runInitializers (d : Descriptor) (c : RuntimeClass) :
    Surfacing ctx (runInitializers d c) := by
  have hsuper : Surfacing ctx (initializeSuper c) := by
    unfold initializeSuper
    split
    · exact .pure ()
    · exact SoundContext.initClass_surfaces _
  unfold runInitializers
  refine .bind hsuper fun _ => ?_
  split
  case h_1 file statics _ _ =>
    have hconstants : Safe ctx (applyConstants c.name statics file file.fields) :=
      safe_applyConstants _ _ _ _
    refine .bind hconstants.surfaces fun _ => ?_
    unfold runInitializer
    split
    · exact .pure ()
    · refine .bind (.modify fun _ => rfl) fun _ => ?_
      exact .bind (sound_invokeMethod _ []).surfaces fun _ => .pure ()
  case h_2 => exact .pure ()

/-- A class that fails to be initialized is marked, and the failure passed on. -/
theorem surfacing_initializeOnce (d : Descriptor) : Surfacing ctx (initializeOnce d) := by
  refine .bind (safe_classAt d).surfaces fun c => ?_
  split
  · exact .pure ()
  · exact .pure ()
  · exact .giveUp _
  · exact (safe_throwNew _ _).surfaces
  all_goals
    refine .bind (.modify fun _ => rfl) fun _ => ?_
    refine .attempt (surfacing_runInitializers d c) (fun _ => .modify fun _ => rfl) (fun e he => ?_)
      fun e he => ?_
    · obtain ⟨u, rfl⟩ | ⟨c, rfl⟩ := Raise.fatal_cases he
      · exact passesOn_modifyClass _ d _
      · exact passesOn_modifyClass _ d _
    · dsimp only
      split
      · exact .bind (.modify fun _ => rfl) fun _ => .throw he
      · exact .throw he

end Initializers

@[simp] theorem context_host (host : Host) (steps nesting : Nat) :
    (Session.context host steps nesting).host = host := by
  cases nesting <;> rfl

@[simp] theorem context_fuel (host : Host) (steps nesting : Nat) :
    (Session.context host steps nesting).fuel = steps := by
  cases nesting <;> rfl

/-- Every context of an engine is sound, however deep methods and initializers nest. -/
instance soundContext (host : Host) (steps nesting : Nat) :
    SoundContext (Session.context host steps nesting) := by
  induction nesting with
  | zero =>
      have hends : ∀ {β : Type} (m : Machine),
          Surfaces m (.error .exhausted m : EStateM.Result Raise Machine β) :=
        fun _ => ⟨nofun, fun _ => rfl⟩
      refine ⟨fun method args => ⟨⟨fun m => ?_, fun m _ _ hm => hm⟩, hends⟩, fun d m => ?_,
        fun d m _ _ hm => hm, fun _ => hends⟩
      · exact ⟨.refl m, fun hs => hs.raises _, fun hpre => ⟨hpre.1.recorded, fun _ => hpre.1⟩⟩
      · exact ⟨.refl m, fun hs => hs.raises _, fun hpre => ⟨hpre.1.recorded, absurd rfl⟩⟩
  | succ n ih =>
      have hhost : (Session.context host steps (n + 1)).host = (Session.context host steps n).host := by
        rw [context_host, context_host]
      have hinvoke : ∀ (method : Method) (args : List Value), Sound (Session.context host steps n)
          (fun m => m.classes.Started method.owner) (Interpreter.invoke method args)
          fun _ _ => True := sound_invoke
      refine ⟨fun method args => ⟨⟨fun m => ?_, fun m hinv => ?_⟩, (hinvoke method args).surfaces⟩,
        fun d m => ?_, fun d m hinv => ?_, fun d => ?_⟩
      · rw [hhost]
        exact (hinvoke method args).meets m
      · rw [hhost] at hinv
        exact (hinvoke method args).coherent m hinv
      · rw [hhost]
        change Meets _ _ m _ _ (initializeOnce d (Session.context host steps n) m)
        exact initializeOnce_meets d m
      · intro hlinked hm
        rw [hhost] at hinv
        change (endOf (initializeOnce d (Session.context host steps n) m)).Coherent _
        exact initializeOnce_coherent hinv hlinked hm
      · have honce : Surfacing (Session.context host steps n) (initializeOnce d) :=
          surfacing_initializeOnce d
        exact honce

section Quiet

variable {steps nesting : Nat} {c : RuntimeClass}

/-- Initializing the class itself runs no code: it has neither constants nor an initializer. -/
structure RuntimeClass.IsQuiet (c : RuntimeClass) : Prop where
  constants : ∀ file, c.file = some file → ∀ f ∈ file.fields, f.constantValue = 0
  initializer : c.declaredMethod? "<clinit>" "()V" = none

theorem isQuiet_of_bare {d : Descriptor} (h : c.DefinedBy (.bare d)) : c.IsQuiet := by
  rw [h]
  exact ⟨nofun, rfl⟩

/-- The classes are others, and the rest is the same, but for what is recorded of a run. -/
def Machine.ChangesClasses (m m' : Machine) : Prop :=
  m' = { m with classes := m'.classes, history := m'.history, moments := m'.moments }

theorem Machine.ChangesClasses.trans {m m' m'' : Machine} (h : m.ChangesClasses m')
    (h' : m'.ChangesClasses m'') : m.ChangesClasses m'' := by
  rw [ChangesClasses, h', h]

theorem Machine.ChangesClasses.heap {m m' : Machine} (h : m.ChangesClasses m') :
    m'.heap = m.heap := by
  rw [h]

/-- The superclass of a class, if it has one, is being initialized or is initialized. -/
def ClassTable.SuperReady (t : ClassTable) (c : RuntimeClass) : Prop :=
  ∀ s, c.superclass = some s → t.Ready s

theorem applyConstants_quiet {fields : List Field} (h : ∀ f ∈ fields, f.constantValue = 0)
    (owner : Text) (statics : Ref) (file : ClassFile) (m : Machine) :
    applyConstants owner statics file fields ctx m = .ok () m := by
  induction fields with
  | nil => rfl
  | cons f fields ih =>
      have hf : (f.isStatic && f.constantValue != 0) = false := by
        simp [h f List.mem_cons_self]
      have hrest := ih fun g hg => h g (List.mem_cons_of_mem f hg)
      unfold applyConstants
      rw [hf]
      exact hrest

/-- A class whose initialization comes to its end is initialized. -/
theorem initializeOnce_ends {m₁ : Machine} (hc : m.classes[d]? = some c)
    (hstate : c.state = .linking ∨ c.state = .linked)
    (hrun : runInitializers d c ctx (m.withClasses (m.classes.moved d .initializing)) = .ok () m₁) :
    initializeOnce d ctx m = .ok () (m₁.withClasses (m₁.classes.moved d .initialized)) := by
  have hmarked : (do
      setState d .initializing
      match ← attempt (runInitializers d c) with
      | .ok () => setState d .initialized
      | .error e => do
        if !e.isAbrupt then setState d (.failed none)
        throw e : Exec Unit) ctx m =
      .ok () (m₁.withClasses (m₁.classes.moved d .initialized)) := by
    rw [bind_of_ok (setState_ok d .initializing m), attempt_bind_ok hrun]
    rfl
  rw [initializeOnce, bind_of_ok (classAt_eq_ok hc)]
  rcases hstate with hstate | hstate
  · rw [hstate]
    exact hmarked
  · rw [hstate]
    exact hmarked

/-- A class whose initialization fails is marked as failed. -/
theorem initializeOnce_fails {e : Raise} {m₁ : Machine} (hc : m.classes[d]? = some c)
    (hstate : c.state = .linking ∨ c.state = .linked)
    (hrun : runInitializers d c ctx (m.withClasses (m.classes.moved d .initializing)) = .error e m₁)
    (habrupt : e.isAbrupt = false) :
    initializeOnce d ctx m = .error e (m₁.withClasses (m₁.classes.moved d (.failed none))) := by
  have hmarked : (do
      setState d .initializing
      match ← attempt (runInitializers d c) with
      | .ok () => setState d .initialized
      | .error e => do
        if !e.isAbrupt then setState d (.failed none)
        throw e : Exec Unit) ctx m =
      .error e (m₁.withClasses (m₁.classes.moved d (.failed none))) := by
    rw [bind_of_ok (setState_ok d .initializing m), attempt_bind_error hrun]
    dsimp only
    rw [habrupt]
    rfl
  rw [initializeOnce, bind_of_ok (classAt_eq_ok hc)]
  rcases hstate with hstate | hstate
  · rw [hstate]
    exact hmarked
  · rw [hstate]
    exact hmarked

theorem initializeOnce_ready (hc : m.classes[d]? = some c)
    (hstate : c.state = .initializing ∨ c.state = .initialized) :
    initializeOnce d ctx m = .ok () m := by
  rw [initializeOnce, bind_of_ok (classAt_eq_ok hc)]
  rcases hstate with hstate | hstate
  · rw [hstate]
    rfl
  · rw [hstate]
    rfl

/-- A class that is initialized, or is being initialized, is there at once. -/
theorem classFor_ready (host : Host) (steps nesting : Nat) (hc : m.classes[d]? = some c)
    (hstate : c.state = .initializing ∨ c.state = .initialized) :
    classFor d (Session.context host (steps + 1) (nesting + 1)) m = .ok c m := by
  have hlink : link d (Session.context host (steps + 1) (nesting + 1)) m = .ok () m := by
    rw [link_eq, context_fuel, linkWithin_registered hc]
    rcases hstate with hstate | hstate
    · rw [hstate]
    · rw [hstate]
  have hinit : initializeClass d (Session.context host (steps + 1) (nesting + 1)) m = .ok () m :=
    initializeOnce_ready hc hstate
  rw [classFor, bind_of_ok hlink, bind_of_ok hinit]
  exact classAt_eq_ok hc

theorem classFor_initialized (host : Host) (steps nesting : Nat) (hc : m.classes[d]? = some c)
    (hstate : c.state = .initialized) :
    classFor d (Session.context host (steps + 1) (nesting + 1)) m = .ok c m :=
  classFor_ready host steps nesting hc (.inr hstate)

theorem runInitializers_quiet (hquiet : c.IsQuiet) (hsuper : m.classes.SuperReady c) :
    runInitializers d c (Session.context host steps (nesting + 1)) m = .ok () m := by
  have hup : initializeSuper c (Session.context host steps (nesting + 1)) m = .ok () m := by
    unfold initializeSuper
    cases hs : c.superclass with
    | none => rfl
    | some s =>
        obtain ⟨k, hk, hready⟩ := hsuper s hs
        exact initializeOnce_ready hk hready
  rw [runInitializers, bind_of_ok hup]
  cases hfile : c.file with
  | none => rfl
  | some file =>
      cases c.statics with
      | none => rfl
      | some statics =>
          have hnone := hquiet.constants file hfile
          dsimp only
          rw [bind_of_ok (applyConstants_quiet hnone _ _ _ m), runInitializer, hquiet.initializer]
          rfl

/-- No class but the one changes when no code is run for it, and that only in its state. -/
theorem initializeClass_quiet (host : Host) (steps nesting : Nat) (hc : m.classes[d]? = some c)
    (hstate : c.state = .linked) (hquiet : c.IsQuiet) (hsuper : m.classes.SuperReady c) :
    ∃ m', initializeClass d (Session.context host steps (nesting + 2)) m = .ok () m' ∧
      m.ChangesClasses m' ∧ m'.classes[d]? = some { c with state := .initialized } ∧
      ∀ k, k ≠ d → m'.classes[k]? = m.classes[k]? := by
  let m₁ := m.withClasses (m.classes.moved d .initializing)
  have hother : ∀ k, k ≠ d → m₁.classes[k]? = m.classes[k]? := fun k hk => by
    rw [withClasses_classes, ClassTable.getElem?_modify_of_ne hk]
  have hsuper₁ : m₁.classes.SuperReady c := by
    intro s hs
    have hready := hsuper s hs
    rwa [ClassTable.Ready, hother s (hready.ne hc (by simp [hstate]))]
  have hrun : initializeOnce d (Session.context host steps (nesting + 1)) m =
      .ok () (m₁.withClasses (m₁.classes.moved d .initialized)) :=
    initializeOnce_ends hc (.inr hstate) (runInitializers_quiet hquiet hsuper₁)
  refine ⟨_, hrun, rfl, ClassTable.moved_self (ClassTable.moved_self hc _) _, fun k hk => ?_⟩
  rw [withClasses_classes, ClassTable.getElem?_modify_of_ne hk, hother k hk]

/-- A class whose superclass is linked is linked at once. -/
theorem link_new {m₁ : Machine} (hd : m.classes[d]? = none) (hdefine : define host d = .ok c)
    (henter : enter d c (Session.context host (steps + 2) nesting) m = .ok () m₁)
    (hsuper : c.superName ≠ [] → m₁.classes.Linked (Descriptor.ofInternal c.superName)) :
    link d (Session.context host (steps + 2) nesting) m = .ok () (m₁.withClasses
      (m₁.classes.modify d fun k => { k with
        superclass := if c.superName = [] then none else some (Descriptor.ofInternal c.superName)
        state := .linked })) := by
  rw [link_eq, context_fuel, linkWithin_new hd ((context_host _ _ _).symm ▸ hdefine) henter]
  by_cases hname : c.superName = []
  · rw [if_pos hname]
    simp only [if_pos hname]
  · obtain ⟨k, hk, hlinked⟩ := hsuper hname
    rw [if_neg hname, linkWithin_linked hk hlinked]
    simp only [if_neg hname]

/-- A class for which no code is run, and whose superclass is ready, loads at once. -/
theorem classFor_quiet {m₁ : Machine} {c₁ : RuntimeClass} (hd : m.classes[d]? = none)
    (hdefine : define host d = .ok c)
    (henter : enter d c (Session.context host (steps + 2) (nesting + 2)) m = .ok () m₁)
    (hc₁ : m₁.classes[d]? = some c₁) (hstate : c₁.state = .linking) (hquiet : c₁.IsQuiet)
    (hsuper : c.superName ≠ [] → m₁.classes.Ready (Descriptor.ofInternal c.superName)) :
    ∃ c' m', classFor d (Session.context host (steps + 2) (nesting + 2)) m = .ok c' m' ∧
      c' = { c₁ with
        superclass := if c.superName = [] then none else some (Descriptor.ofInternal c.superName)
        state := .initialized } ∧
      m₁.ChangesClasses m' ∧ m'.classes[d]? = some c' ∧
      ∀ k, k ≠ d → m'.classes[k]? = m₁.classes[k]? := by
  let above := if c.superName = [] then none else some (Descriptor.ofInternal c.superName)
  let m₂ := m₁.withClasses (m₁.classes.modify d fun c =>
    { c with superclass := above, state := .linked })
  have hlink : link d (Session.context host (steps + 2) (nesting + 2)) m = .ok () m₂ :=
    link_new hd hdefine henter fun hname => (hsuper hname).started.linked
  have hother : ∀ k, k ≠ d → m₂.classes[k]? = m₁.classes[k]? := fun k hk => by
    rw [withClasses_classes, ClassTable.getElem?_modify_of_ne hk]
  have hc₂ : m₂.classes[d]? = some { c₁ with superclass := above, state := .linked } := by
    rw [withClasses_classes, ClassTable.getElem?_modify, if_pos rfl, hc₁]
    rfl
  have hsuper₂ : m₂.classes.SuperReady { c₁ with superclass := above, state := .linked } := by
    intro s hs
    by_cases hname : c.superName = []
    · simp [above, hname] at hs
    · have hready := hsuper hname
      obtain rfl : Descriptor.ofInternal c.superName = s := by simpa [above, hname] using hs
      rwa [ClassTable.Ready, hother _ (hready.ne hc₁ (by simp [hstate]))]
  obtain ⟨m₃, hinit, hrest, hc₃, hother₃⟩ := initializeClass_quiet host (steps + 2) nesting hc₂ rfl
    ⟨hquiet.constants, hquiet.initializer⟩ hsuper₂
  have hlinked : m₁.ChangesClasses m₂ := rfl
  refine ⟨_, m₃, ?_, rfl, hlinked.trans hrest, hc₃, fun k hk => (hother₃ k hk).trans (hother k hk)⟩
  rw [classFor, bind_of_ok hlink, bind_of_ok hinit]
  exact classAt_eq_ok hc₃

end Quiet

end ClassEngine
