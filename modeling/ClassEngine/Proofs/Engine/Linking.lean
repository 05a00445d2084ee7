import Mathlib.Data.Finset.Card
import Mathlib.Data.Finset.Image
import ClassEngine.Proofs.Engine.Soundness

/-!
Linking keeps to itself: it only adds records, of classes that are new, and their static storage.
It leaves the class table sound, and it complains about a circularity exactly for a class whose
superclasses lead into a cycle.
-/

namespace ClassEngine

open Machine Linking

variable {α : Type} {host : Host} {path : List Descriptor}

/-- All that linking does to an engine. -/
structure Links (m m' : Machine) : Prop where
  kept : ∀ {d : Descriptor} {c : RuntimeClass}, m.classes[d]? = some c → m'.classes[d]? = some c
  added : ∀ {d : Descriptor} {c : RuntimeClass}, m'.classes[d]? = some c →
    m.classes[d]? = some c ∨ m.classes[d]? = none ∧ c.resolved = {} ∧ ¬c.state.HasStarted
  heap : ∃ statics : List Object, (∀ o ∈ statics, o.storage = true ∧ o.elements = #[]) ∧
    m'.heap = m.heap ++ statics.toArray
  frames : m'.frames = m.frames
  limit : m'.maxDepth = m.maxDepth
  guard : m'.handlingOverflow = m.handlingOverflow
  moments : m'.moments = m.moments
  history : ∃ tables : List ClassTable, m'.history.val = tables.map .changed ++ m.history.val

namespace Links

variable {F : FrameRel} {m m' m'' : Machine}

theorem refl (m : Machine) : Links m m where
  kept h := h
  added h := .inl h
  heap := ⟨[], by simp, by simp⟩
  frames := rfl
  limit := rfl
  guard := rfl
  moments := rfl
  history := ⟨[], rfl⟩

/-- A failure to link is recorded. -/
theorem breakDown (m : Machine) (e : Raise) : Links m (m.breakDown e) where
  kept h := h
  added h := .inl h
  heap := ⟨[], by simp, by simp [Machine.breakDown]⟩
  frames := rfl
  limit := rfl
  guard := rfl
  moments := rfl
  history := ⟨[], rfl⟩

theorem trans (h : Links m m') (h' : Links m' m'') : Links m m'' where
  kept hc := h'.kept (h.kept hc)
  added {d c} hc := by
    rcases h'.added hc with hc' | ⟨hnone, hnew⟩
    · exact h.added hc'
    · refine .inr ⟨?_, hnew⟩
      cases hd : m.classes[d]? with
      | none => rfl
      | some c' =>
          rw [h.kept hd] at hnone
          contradiction
  heap := by
    obtain ⟨os, hos, hheap⟩ := h.heap
    obtain ⟨os', hos', hheap'⟩ := h'.heap
    refine ⟨os ++ os', ?_, by simp [hheap', hheap]⟩
    intro o ho
    rcases List.mem_append.mp ho with ho | ho
    · exact hos o ho
    · exact hos' o ho
  frames := h'.frames.trans h.frames
  limit := h'.limit.trans h.limit
  guard := h'.guard.trans h.guard
  moments := h'.moments.trans h.moments
  history := by
    obtain ⟨ts, hts⟩ := h.history
    obtain ⟨ts', hts'⟩ := h'.history
    exact ⟨ts' ++ ts, by simp [hts', hts]⟩

theorem evolves (h : Links m m') : m.classes.Evolves m'.classes :=
  fun _ c hc => ⟨c, h.kept hc, .refl c⟩

theorem mem_history {e : Event} (h : Links m m') (he : ∀ t, e ≠ .changed t)
    (hin : e ∈ m'.history.val) : e ∈ m.history.val := by
  obtain ⟨ts, hts⟩ := h.history
  rw [hts, List.mem_append, List.mem_map] at hin
  rcases hin with ⟨t, _, ht⟩ | hin
  · exact absurd ht.symm (he t)
  · exact hin

theorem evolvesBy (h : Links m m') : EvolvesBy F m m' := by
  refine evolvesBy_of_same h.evolves ?_ ?_ (h.mem_history (by simp)) h.limit h.guard h.moments
  · intro i o ho
    obtain ⟨os, _, hheap⟩ := h.heap
    refine ⟨o, ?_, rfl, rfl⟩
    rw [hheap, Array.getElem?_append_left (Array.getElem?_eq_some_iff.mp ho).1]
    exact ho
  · rw [h.frames]
    exact F.onTop_refl _

theorem settled (h : Links m m') (hm : m.Settled) : m'.Settled := by
  obtain ⟨ts, hts⟩ := h.history
  rw [Settled, hts]
  clear hts
  induction ts with
  | nil => exact hm
  | cons t ts ih =>
      rw [List.map_cons, List.cons_append, Orderly, ih.2]
      exact ⟨⟨trivial, ih.1⟩, ih.2⟩

/-- The invariant speaks of nothing that linking does, but for the class table and the history. -/
theorem inv (h : Links m m') {hole : Option Descriptor} (hm : InvExcept host hole m)
    (htable : m'.classes.Sound host []) (hrecorded : m'.Recorded host) : InvExcept host hole m' where
  table := htable
  supers hc hstate hs := by
    rcases h.added hc with hc | ⟨_, _, hnew⟩
    · exact (hm.supers hc hstate hs).imp_left h.evolves.started
    · exact absurd hstate hnew
  resolved hc howner := by
    rcases h.added hc with hc | ⟨_, hnew, _⟩
    · exact h.evolves.started (hm.resolved hc howner)
    · simp [hnew] at howner
  heap {i o} ho hstorage := by
    obtain ⟨os, hos, hheap⟩ := h.heap
    rw [hheap, Array.getElem?_append] at ho
    split at ho
    · exact h.evolves.started (hm.heap ho hstorage)
    · rw [List.getElem?_toArray] at ho
      rw [(hos o (List.mem_of_getElem? ho)).1] at hstorage
      contradiction
  frames f hf := by
    rw [h.frames] at hf
    exact h.evolves.started (hm.frames f hf)
  recorded := hrecorded
  initializers hin := h.evolves.started (hm.initializers (h.mem_history (by simp) hin))

/-- New records remember nothing, and static storage has no elements. -/
theorem coherent (h : Links m m') {a : Aspect} (hm : m.Coherent a) : m'.Coherent a where
  now := by
    cases a with
    | arrays =>
        intro i o ho
        obtain ⟨os, hos, hheap⟩ := h.heap
        change m'.heap[i]? = some o at ho
        rw [hheap, Array.getElem?_append] at ho
        split at ho
        · exact (hm.now ho).mono h.evolves.retains (h.evolvesBy (F := .instruction)).heap
        · rw [List.getElem?_toArray] at ho
          exact Moment.admits_of_empty (hos o (List.mem_of_getElem? ho)).2
    | caches =>
        intro d c ref owner hc howner
        rcases h.added hc with hold | ⟨_, hnew, _⟩
        · exact (hm.now hold howner).retained h.evolves.retains
        · simp [hnew] at howner
    | accesses => exact fun _ _ => nofun
  before := by
    rw [h.moments]
    exact hm.before

/-- A record that linking has added is changed once more. -/
theorem modify {d : Descriptor} {f : RuntimeClass → RuntimeClass} (h : Links m m')
    (hd : m.classes[d]? = none) (hresolved : ∀ c, (f c).resolved = c.resolved)
    (hstate : ∀ c, ¬(f c).state.HasStarted) :
    Links m (m'.withClasses (m'.classes.modify d f)) where
  kept {k c} hc := by
    rw [withClasses_classes, ClassTable.getElem?_modify]
    by_cases hk : d = k
    · rw [← hk, hd] at hc
      contradiction
    · rw [if_neg hk]
      exact h.kept hc
  added {k c} hc := by
    rw [withClasses_classes, ClassTable.getElem?_modify] at hc
    by_cases hk : d = k
    · rw [if_pos hk] at hc
      obtain ⟨c', hc', rfl⟩ := Option.map_eq_some_iff.mp hc
      rw [← hk]
      rcases h.added hc' with hold | ⟨_, hnew, _⟩
      · rw [hd] at hold
        contradiction
      · exact .inr ⟨hd, by rw [hresolved, hnew], hstate c'⟩
    · rw [if_neg hk] at hc
      exact h.added hc
  heap := h.heap
  frames := h.frames
  limit := h.limit
  guard := h.guard
  moments := h.moments
  history := by
    obtain ⟨ts, hts⟩ := h.history
    exact ⟨m'.classes.modify d f :: ts, by rw [withClasses_history, hts]; rfl⟩

/-- A record of a class that had none. -/
theorem insert {d : Descriptor} {c : RuntimeClass} (h : Links m m') (hd : m'.classes[d]? = none)
    (hresolved : c.resolved = {}) (hstate : ¬c.state.HasStarted) :
    Links m (m'.withClasses (m'.classes.insert d c)) := by
  have hnone : m.classes[d]? = none := by
    cases hc : m.classes[d]? with
    | none => rfl
    | some c' =>
        rw [h.kept hc] at hd
        contradiction
  refine ⟨?_, ?_, h.heap, h.frames, h.limit, h.guard, h.moments, ?_⟩
  · intro k c' hc'
    rw [withClasses_classes, ClassTable.getElem?_insert]
    by_cases hk : d = k
    · rw [← hk, hnone] at hc'
      contradiction
    · rw [if_neg hk]
      exact h.kept hc'
  · intro k c' hc'
    rw [withClasses_classes, ClassTable.getElem?_insert] at hc'
    by_cases hk : d = k
    · rw [if_pos hk] at hc'
      obtain rfl := Option.some.inj hc'
      exact .inr ⟨hk ▸ hnone, hresolved, hstate⟩
    · rw [if_neg hk] at hc'
      exact h.added hc'
  · obtain ⟨ts, hts⟩ := h.history
    exact ⟨m'.classes.insert d c :: ts, by rw [withClasses_history, hts]; rfl⟩

/-- Static storage is placed on the heap. -/
theorem push (m : Machine) {o : Object} (ho : o.storage = true ∧ o.elements = #[]) :
    Links m { m with heap := m.heap.push o } where
  kept h := h
  added h := .inl h
  heap := ⟨[o], by simpa using ho, by simp⟩
  frames := rfl
  limit := rfl
  guard := rfl
  moments := rfl
  history := ⟨[], rfl⟩

end Links

theorem staticStorage_isStorage (d : Descriptor) (file : ClassFile) :
    (staticStorage d file).storage = true ∧ (staticStorage d file).elements = #[] := by
  rw [staticStorage]
  have hfold : ∀ (fields : List Field) (o : Object), o.storage = true ∧ o.elements = #[] →
      (fields.foldl (fun o f => o.setField (Descriptor.className d) f.name
        (Value.default f.descriptor)) o).storage = true ∧
      (fields.foldl (fun o f => o.setField (Descriptor.className d) f.name
        (Value.default f.descriptor)) o).elements = #[] := by
    intro fields
    induction fields with
    | nil => exact fun _ ho => ho
    | cons f fields ih => exact fun o ho => ih _ ho
  exact hfold _ _ ⟨rfl, rfl⟩

section LinkWithin

variable {ctx : Context} {m : Machine} {d : Descriptor}

/-- The record of a class that was loaded from a file is entered with its static storage. -/
theorem enter_of_file {c : RuntimeClass} {file : ClassFile} (hfile : c.file = some file) :
    enter d c = (do
      let r ← Exec.allocate (staticStorage d file)
      Exec.setClass { c with statics := some r }) := by
  unfold enter
  split
  case h_1 hnone =>
    rw [hfile] at hnone
    contradiction
  case h_2 file' hsome =>
    obtain rfl := Option.some.inj (hfile.symm.trans hsome)
    rfl

/-- A new class is entered in the table. -/
theorem enter_ok {c : RuntimeClass} (hc : define ctx.host d = .ok c)
    (hd : m.classes[d]? = none) : ∃ c' m', enter d c ctx m = .ok () m' ∧
      m'.classes = m.classes.insert d c' ∧ c'.DefinedBy c ∧ c'.state = .linking ∧
      Links m m' ∧ (m.Recorded ctx.host → m'.Recorded ctx.host) := by
  have hnew := isNew_define hc
  have hstarted : ¬c.state.HasStarted := by rw [hnew.state]; exact id
  obtain rfl := hnew.descriptor
  cases hfile : c.file with
  | none =>
      refine ⟨c, m.withClasses (m.classes.insert c.descriptor c), ?_, rfl, rfl, hnew.state,
        (Links.refl m).insert hd hnew.resolved hstarted, ?_⟩
      · rw [enter, hfile]
        rfl
      · intro hrecorded
        exact hrecorded.withClasses (ClassTable.advances_insert hd hnew.state)
  | some file =>
      let statics := staticStorage c.descriptor file
      let m₁ : Machine := { m with heap := m.heap.push statics }
      let c' : RuntimeClass := { c with statics := some ⟨m.heap.size + 1⟩ }
      refine ⟨c', m₁.withClasses (m₁.classes.insert c.descriptor c'), ?_, rfl, rfl, hnew.state,
        (Links.push m (staticStorage_isStorage _ _)).insert hd hnew.resolved hstarted, ?_⟩
      · rw [enter_of_file hfile]
        rfl
      · intro hrecorded
        have hrecorded₁ : m₁.Recorded ctx.host := hrecorded.of_eq rfl rfl rfl
        exact hrecorded₁.withClasses (ClassTable.advances_insert hd hnew.state)

/-- What linking a class has to leave, if the classes on the way are `path`. -/
def LinkMeets (host : Host) (path : List Descriptor) (d : Descriptor) (m : Machine) :
    EStateM.Result Raise Machine Unit → Prop
  | .ok _ m' => Links m m' ∧ (m.Recorded host → m'.Recorded host) ∧
      (m.classes.Sound host path → m'.classes.Sound host path ∧ m'.classes.Linked d)
  | .error e m' => Links m m' ∧
      (m.Recorded host → m.classes.Sound host path → m'.Recorded host) ∧
      (m.classes.Sound host path → e ≠ .exhausted →
        m'.classes.Sound host path ∧ e.IsLinkError host d)

/-- A failure to define a class is about neither a circularity nor a guest object. -/
theorem define_error {u : Unresolved} (h : define host d = .error u) :
    u.cause ≠ some .circularity ∧ (Raise.unresolved u).object? = none := by
  rw [define] at h
  split at h
  · contradiction
  split at h
  · split at h
    · obtain rfl := Except.error.inj h
      exact ⟨by simp, rfl⟩
    · contradiction
  split at h
  · rw [defineInstance] at h
    dsimp only at h
    repeat' split at h
    all_goals first | contradiction | (obtain rfl := Except.error.inj h; exact ⟨by simp, rfl⟩)
  · obtain rfl := Except.error.inj h
    exact ⟨by simp, rfl⟩

/-- Linking a class that is in the table gives back what is known of it. -/
theorem linkWithin_registered {c : RuntimeClass} (hc : m.classes[d]? = some c) (fuel : Nat) :
    linkWithin (fuel + 1) d ctx m = match c.state with
      | .failed (some e) => .error e (m.breakDown e)
      | .linking =>
          let e := .unresolved ⟨.type, c.name, some .circularity⟩
          .error e (m.breakDown e)
      | _ => .ok () m := by
  have hget : (get : Exec Machine) ctx m = .ok m m := rfl
  rw [linkWithin, Exec.bind_of_ok hget, hc]
  dsimp only
  cases c.state with
  | failed e => cases e <;> rfl
  | _ => rfl

/-- A class that is linked stays as it is. -/
theorem linkWithin_linked {c : RuntimeClass} (hc : m.classes[d]? = some c) (hlinked : c.state.IsLinked)
    (fuel : Nat) : linkWithin (fuel + 1) d ctx m = .ok () m := by
  rw [linkWithin_registered hc]
  split
  case h_1 hstate => rw [hstate] at hlinked; exact hlinked.elim
  case h_2 hstate => rw [hstate] at hlinked; exact hlinked.elim
  case h_3 => rfl

theorem linkWithin_undefined {u : Unresolved} (hd : m.classes[d]? = none)
    (hu : define ctx.host d = .error u) (fuel : Nat) :
    linkWithin (fuel + 1) d ctx m = .error (.unresolved u) (m.breakDown (.unresolved u)) := by
  have hget : (get : Exec Machine) ctx m = .ok m m := rfl
  have hread : (read : Exec Context) ctx m = .ok ctx m := rfl
  rw [linkWithin, Exec.bind_of_ok hget, hd]
  dsimp only
  rw [Exec.bind_of_ok hread, hu]
  rfl

/-- Linking a new class: enter its record, link its superclass, if it has one, and complete the
record. -/
theorem linkWithin_new {c : RuntimeClass} {m₁ : Machine} (hd : m.classes[d]? = none)
    (hc : define ctx.host d = .ok c) (henter : enter d c ctx m = .ok () m₁) (fuel : Nat) :
    linkWithin (fuel + 1) d ctx m =
      if c.superName = [] then .ok () (m₁.withClasses (m₁.classes.modify d fun c =>
        { c with superclass := none, state := .linked }))
      else match linkWithin fuel (Descriptor.ofInternal c.superName) ctx m₁ with
        | .error e m₂ => .error e (m₂.withClasses (m₂.classes.modify d fun c =>
            { c with state := .failed (some e) }))
        | .ok _ m₂ => .ok () (m₂.withClasses (m₂.classes.modify d fun c' =>
            { c' with superclass := some (Descriptor.ofInternal c.superName), state := .linked })) := by
  have hget : (get : Exec Machine) ctx m = .ok m m := rfl
  have hread : (read : Exec Context) ctx m = .ok ctx m := rfl
  rw [linkWithin, Exec.bind_of_ok hget, hd]
  dsimp only
  rw [Exec.bind_of_ok hread, hc]
  dsimp only
  rw [Exec.bind_of_ok henter]
  by_cases hname : c.superName = []
  · rw [if_pos hname, if_pos (List.isEmpty_iff.mpr hname)]
    rfl
  · rw [if_neg hname, if_neg (fun h => hname (List.isEmpty_iff.mp h))]
    cases hrun : linkWithin fuel (Descriptor.ofInternal c.superName) ctx m₁ with
    | error e m₂ =>
        have hattempt : (linkWithin fuel (Descriptor.ofInternal c.superName)).attempt ctx m₁ =
            .ok (.error e) m₂ := by rw [Exec.attempt, hrun]
        rw [Exec.bind_of_ok hattempt]
        rfl
    | ok _ m₂ =>
        have hattempt : (linkWithin fuel (Descriptor.ofInternal c.superName)).attempt ctx m₁ =
            .ok (.ok ()) m₂ := by rw [Exec.attempt, hrun]
        rw [Exec.bind_of_ok hattempt]
        rfl

/-- A class that is already in the table. -/
theorem linkMeets_registered {c : RuntimeClass} (hc : m.classes[d]? = some c) (fuel : Nat)
    (hpath : ∀ p ∈ path, Relation.TransGen (Follows ctx.host) p d) :
    LinkMeets ctx.host path d m (linkWithin (fuel + 1) d ctx m) := by
  have hok : c.state.IsLinked → LinkMeets ctx.host path d m (.ok () m) := fun hlinked =>
    ⟨.refl m, id, fun hsound => ⟨hsound, c, hc, hlinked⟩⟩
  rw [linkWithin_registered hc]
  cases hstate : c.state with
  | linking =>
      refine ⟨.breakDown m _, fun h _ => h.breakDown rfl, fun hsound _ =>
        ⟨hsound, ⟨_, rfl⟩, ⟨fun _ => ?_, fun _ => rfl⟩, rfl⟩⟩
      -- An unfinished record is on the way to itself.
      exact ⟨d, .refl, hpath d (hsound.linking hc hstate)⟩
  | linked => exact hok (by rw [hstate]; trivial)
  | initializing => exact hok (by rw [hstate]; trivial)
  | initialized => exact hok (by rw [hstate]; trivial)
  | failed cause =>
      cases cause with
      | none => exact hok (by rw [hstate]; trivial)
      | some e =>
          exact ⟨.breakDown m e, fun h hsound => h.breakDown (hsound.failed hc hstate).bare,
            fun hsound _ => ⟨hsound, hsound.failed hc hstate⟩⟩

/-- A class without a definition. -/
theorem linkMeets_undefined {u : Unresolved} (hd : m.classes[d]? = none)
    (hu : define ctx.host d = .error u) (fuel : Nat) :
    LinkMeets ctx.host path d m (linkWithin (fuel + 1) d ctx m) := by
  rw [linkWithin_undefined hd hu]
  obtain ⟨hcircular, hbare⟩ := define_error hu
  refine ⟨.breakDown m _, fun h _ => h.breakDown hbare, fun hsound _ =>
    ⟨hsound, ⟨u, rfl⟩, ⟨fun hcause => ?_, fun hcycle => ?_⟩, hbare⟩⟩
  · exact absurd hcause hcircular
  · refine absurd hcycle (not_leadsIntoCycle ?_)
    rintro s ⟨c, hc, _⟩
    rw [hu] at hc
    contradiction

/-- Completing the record of a class leaves the table sound, and the class is linked. -/
theorem ClassTable.Sound.finish {t : ClassTable} {c c₀ : RuntimeClass} {s : Option Descriptor}
    (h : t.Sound host (d :: path)) (hc : t[d]? = some c) (hstate : c.state = .linking)
    (hdefined : c.DefinedBy c₀)
    (hs : c₀.superName = [] ∧ s = none ∨ c₀.superName ≠ [] ∧
      s = some (Descriptor.ofInternal c₀.superName) ∧ t.Chain (Descriptor.ofInternal c₀.superName)) :
    ClassTable.Sound host path (t.modify d fun c => { c with superclass := s, state := .linked }) ∧
      ClassTable.Linked (t.modify d fun c => { c with superclass := s, state := .linked }) d := by
  let c' : RuntimeClass := { c with superclass := s, state := .linked }
  have hc' : (t.modify d fun c => { c with superclass := s, state := .linked })[d]? = some c' := by
    rw [ClassTable.getElem?_modify, if_pos rfl, hc]
    rfl
  have hname : c'.superName = c₀.superName := hdefined.superName
  refine ⟨h.leave hc hstate ?_ (by simp) ?_ (by simp), c', hc', trivial⟩
  · intro c₁ hc₁
    change c' = _
    rw [RuntimeClass.DefinedBy] at hc₁
    change { c with superclass := s, state := .linked } = _
    rw [hc₁]
  · intro _
    rcases hs with ⟨hnone, rfl⟩ | ⟨hsome, rfl, hchain⟩
    · exact .root hc' trivial (hname.trans hnone) rfl
    · refine .up hc' trivial (hname ▸ hsome) (by rw [hname]) ?_
      rw [hname]
      exact hchain.persists (ClassTable.persists_modify hc (by rw [hstate]; exact id) _)

/-- The record that was entered is completed, one way or the other. -/
theorem Recorded.complete {c : RuntimeClass} {f : RuntimeClass → RuntimeClass} (h : m.Recorded host)
    (hc : m.classes[d]? = some c) (hstate : c.state = .linking) (hsame : c.SameClass (f c))
    (hnext : ClassState.linking.Next (f c).state) :
    (m.withClasses (m.classes.modify d f)).Recorded host := by
  refine h.withClasses (ClassTable.advances_modify ?_)
  intro c' hc'
  obtain rfl := Option.some.inj (hc.symm.trans hc')
  exact ⟨hsame, .inr (hstate ▸ hnext)⟩

/-- A new class, if linking its superclass does what it has to. -/
theorem linkMeets_new {c : RuntimeClass} (hd : m.classes[d]? = none)
    (hc : define ctx.host d = .ok c) {fuel : Nat}
    (hpath : ∀ p ∈ path, Relation.TransGen (Follows ctx.host) p d)
    (ih : ∀ {d : Descriptor} {path : List Descriptor} {m : Machine},
      (∀ p ∈ path, Relation.TransGen (Follows ctx.host) p d) →
      LinkMeets ctx.host path d m (linkWithin fuel d ctx m)) :
    LinkMeets ctx.host path d m (linkWithin (fuel + 1) d ctx m) := by
  obtain ⟨c', m₁, henter, hclasses, hdefined, hstate, hlinks, hrecorded⟩ := enter_ok hc hd
  have hc' : m₁.classes[d]? = some c' := by
    rw [hclasses, ClassTable.getElem?_insert, if_pos rfl]
  have hsound₁ : m.classes.Sound ctx.host path → m₁.classes.Sound ctx.host (d :: path) := by
    intro hsound
    rw [hclasses]
    exact hsound.enter hd hc hdefined hstate
  rw [linkWithin_new hd hc henter]
  by_cases hname : c.superName = []
  · rw [if_pos hname]
    refine ⟨hlinks.modify hd (fun _ => rfl) fun _ => id, fun h => ?_, fun hsound => ?_⟩
    · exact Recorded.complete (hrecorded h) hc' hstate rfl .link
    · exact (hsound₁ hsound).finish hc' hstate hdefined (.inl ⟨hname, rfl⟩)
  · rw [if_neg hname]
    have hfollows : Follows ctx.host d (Descriptor.ofInternal c.superName) := ⟨c, hc, hname, rfl⟩
    have hpath₁ : ∀ p ∈ d :: path,
        Relation.TransGen (Follows ctx.host) p (Descriptor.ofInternal c.superName) := by
      intro p hp
      rcases List.mem_cons.mp hp with rfl | hp
      · exact .single hfollows
      · exact (hpath p hp).tail hfollows
    have hsuper := ih (m := m₁) hpath₁
    cases hrun : linkWithin fuel (Descriptor.ofInternal c.superName) ctx m₁ with
    | ok _ m₂ =>
        rw [hrun] at hsuper
        obtain ⟨hlinks₂, hrecorded₂, hsound₂⟩ := hsuper
        have hc₂ := hlinks₂.kept hc'
        refine ⟨(hlinks.trans hlinks₂).modify hd (fun _ => rfl) fun _ => id, fun h => ?_,
          fun hsound => ?_⟩
        · exact Recorded.complete (hrecorded₂ (hrecorded h)) hc₂ hstate rfl .link
        · obtain ⟨htable, k, hk, hlinked⟩ := hsound₂ (hsound₁ hsound)
          exact htable.finish hc₂ hstate hdefined (.inr ⟨hname, rfl, htable.linked hk hlinked⟩)
    | error e m₂ =>
        rw [hrun] at hsuper
        obtain ⟨hlinks₂, hrecorded₂, hsound₂⟩ := hsuper
        have hc₂ := hlinks₂.kept hc'
        refine ⟨(hlinks.trans hlinks₂).modify hd (fun _ => rfl) fun _ => id, fun h hsound => ?_,
          fun hsound hne => ?_⟩
        · exact Recorded.complete (hrecorded₂ (hrecorded h) (hsound₁ hsound)) hc₂ hstate rfl (.refuse e)
        · obtain ⟨htable, hcause⟩ := hsound₂ (hsound₁ hsound) hne
          have hcause : e.IsLinkError ctx.host d :=
            ⟨hcause.unresolved, hcause.circularity.trans hfollows.leadsIntoCycle_iff.symm,
              hcause.bare⟩
          refine ⟨htable.leave hc₂ hstate ?_ (by simp) False.elim ?_, hcause⟩
          · intro c₁ hc₁
            rw [RuntimeClass.DefinedBy] at hc₁ ⊢
            rw [hc₁]
          · rintro e' he'
            obtain rfl : e = e' := by simpa using he'
            exact hcause

/-- Linking does what it has to, whatever it finds. -/
theorem linkWithin_meets {fuel : Nat} : ∀ {d : Descriptor} {path : List Descriptor} {m : Machine},
    (∀ p ∈ path, Relation.TransGen (Follows ctx.host) p d) →
      LinkMeets ctx.host path d m (linkWithin fuel d ctx m) := by
  induction fuel with
  | zero =>
      intro d path m _
      exact ⟨.refl m, fun h _ => h, fun _ hne => absurd rfl hne⟩
  | succ fuel ih =>
      intro d path m hpath
      cases hd : m.classes[d]? with
      | some c => exact linkMeets_registered hd fuel hpath
      | none =>
          cases hc : define ctx.host d with
          | error u => exact linkMeets_undefined hd hc fuel
          | ok c => exact linkMeets_new hd hc hpath ih

theorem link_eq (d : Descriptor) (m : Machine) : link d ctx m = linkWithin ctx.fuel d ctx m :=
  rfl

theorem link_meets (d : Descriptor) (m : Machine) :
    LinkMeets ctx.host [] d m (link d ctx m) :=
  linkWithin_meets (by simp)

/-- A class that cannot be linked stays in the table with the reason, if it is in the table at all. -/
theorem link_failed {e : Raise} {m' : Machine} {c : RuntimeClass}
    (hsound : m.classes.Sound ctx.host []) (h : link d ctx m = .error e m') (hne : e ≠ .exhausted)
    (hc : m'.classes[d]? = some c) : c.state = .failed (some e) := by
  rw [link_eq] at h
  cases hfuel : ctx.fuel with
  | zero =>
      rw [hfuel] at h
      exact absurd (EStateM.Result.error.inj h).1.symm hne
  | succ fuel =>
  rw [hfuel] at h
  cases hd : m.classes[d]? with
  | some c₀ =>
      rw [linkWithin_registered hd] at h
      split at h
      case h_1 e₀ hstate =>
        obtain ⟨rfl, rfl⟩ := EStateM.Result.error.inj h
        obtain rfl := Option.some.inj (hd.symm.trans hc)
        exact hstate
      case h_2 hstate => exact absurd hstate (hsound.not_linking hd)
      case h_3 => contradiction
  | none =>
      cases hdefine : define ctx.host d with
      | error u =>
          rw [linkWithin_undefined hd hdefine] at h
          obtain ⟨rfl, rfl⟩ := EStateM.Result.error.inj h
          change m.classes[d]? = some c at hc
          rw [hd] at hc
          contradiction
      | ok c₀ =>
          obtain ⟨c', m₁, henter, _⟩ := enter_ok hdefine hd
          rw [linkWithin_new hd hdefine henter] at h
          split at h
          case isTrue => contradiction
          case isFalse =>
            split at h
            case h_2 => contradiction
            case h_1 e₀ m₂ _ =>
              obtain ⟨rfl, rfl⟩ := EStateM.Result.error.inj h
              rw [withClasses_classes, ClassTable.getElem?_modify, if_pos rfl] at hc
              obtain ⟨c₂, _, rfl⟩ := Option.map_eq_some_iff.mp hc
              rfl

theorem surfacing_enter (d : Descriptor) (c : RuntimeClass) : Surfacing ctx (enter d c) := by
  unfold enter
  split
  · exact .modify fun _ => rfl
  · exact .bind (fun _ => rfl) fun _ => .modify fun _ => rfl

/-- What a superclass fails with is the failure of the class. -/
theorem surfacing_linkWithin (fuel : Nat) (d : Descriptor) : Surfacing ctx (linkWithin fuel d) := by
  induction fuel generalizing d with
  | zero => exact .throw rfl
  | succ fuel ih =>
      refine .bind .get fun m => ?_
      split
      · split
        · exact .giveUp _
        · exact .giveUp _
        · exact .pure _
      · refine .bind .read fun ctx => ?_
        split
        · exact .giveUp _
        · refine .bind (surfacing_enter d _) fun _ => ?_
          split
          · exact .modify fun _ => rfl
          · refine .attempt (ih _) (fun _ => .modify fun _ => rfl)
              (fun e _ => passesOn_modifyClass e d _) fun e he => ?_
            exact .bind (.modify fun _ => rfl) fun _ => .throw he

theorem surfacing_link (d : Descriptor) : Surfacing ctx (link d) :=
  .bind .read fun _ => surfacing_linkWithin _ d

/-- Linking is sound, and what it ends with is linked. -/
theorem sound_link {P : Machine → Prop} (d : Descriptor) :
    Sound ctx P (link d) fun _ m => m.classes.Linked d := by
  refine ⟨⟨fun m => ?_, fun m _ _ hm => ?_⟩, surfacing_link d⟩
  case refine_2 =>
    have hmeets : LinkMeets ctx.host [] d m (link d ctx m) := link_meets d m
    cases hrun : link d ctx m with
    | ok _ m' =>
        rw [hrun] at hmeets
        exact hmeets.1.coherent hm
    | error e m' =>
        rw [hrun] at hmeets
        exact hmeets.1.coherent hm
  have hmeets : LinkMeets ctx.host [] d m (link d ctx m) := link_meets d m
  cases hrun : link d ctx m with
  | ok _ m' =>
      rw [hrun] at hmeets
      obtain ⟨hlinks, hrecorded, hsound⟩ := hmeets
      refine ⟨hlinks.evolvesBy, hlinks.settled, ?_⟩
      rintro ⟨hinv, _⟩
      obtain ⟨htable, hlinked⟩ := hsound hinv.table
      exact ⟨hlinks.inv hinv htable (hrecorded hinv.recorded), hlinked⟩
  | error e m' =>
      rw [hrun] at hmeets
      obtain ⟨hlinks, hrecorded, hsound⟩ := hmeets
      refine ⟨hlinks.evolvesBy, fun hsettled => (hlinks.settled hsettled).raises e, ?_⟩
      rintro ⟨hinv, _⟩
      have hrecorded' := hrecorded hinv.recorded hinv.table
      exact ⟨hrecorded', fun hne => hlinks.inv hinv (hsound hinv.table hne).1 hrecorded'⟩

@[grind ←] theorem safe_link (d : Descriptor) : Safe ctx (link d) :=
  (sound_link d).safe

end LinkWithin

section Termination

variable {ctx : Context} {m : Machine} {d : Descriptor} {names : Finset Text}

/-- The types of a finite set that are not in the table. -/
def ClassTable.missing (t : ClassTable) (types : Finset Descriptor) : Finset Descriptor :=
  types.filter fun k => t[k]? = none

/-- Each class that is entered is one fewer that can still be met. -/
theorem ClassTable.missing_insert_lt {t : ClassTable} {types : Finset Descriptor}
    (hd : t[d]? = none) (hmem : d ∈ types) (c : RuntimeClass) :
    (ClassTable.missing (t.insert d c) types).card < (t.missing types).card := by
  apply Finset.card_lt_card
  rw [Finset.ssubset_iff_of_subset]
  · refine ⟨d, Finset.mem_filter.mpr ⟨hmem, hd⟩, fun h => ?_⟩
    have hnone := (Finset.mem_filter.mp h).2
    rw [getElem?_insert, if_pos rfl] at hnone
    contradiction
  · intro k hk
    obtain ⟨hk, hnone⟩ := Finset.mem_filter.mp hk
    rw [getElem?_insert] at hnone
    split at hnone
    · contradiction
    · exact Finset.mem_filter.mpr ⟨hk, hnone⟩

/-- Following superclasses inside a finite set of types, linking comes to an end. -/
theorem linkWithin_terminates {types : Finset Descriptor}
    (hclosed : ∀ k ∈ types, ∀ s, Follows ctx.host k s → s ∈ types) {fuel : Nat} :
    ∀ {d : Descriptor} {path : List Descriptor} {m m' : Machine}, d ∈ types →
      m.classes.Sound ctx.host path → (m.classes.missing types).card < fuel →
      linkWithin fuel d ctx m ≠ .error .exhausted m' := by
  induction fuel with
  | zero => intro d path m m' _ _ hfuel; omega
  | succ fuel ih =>
      intro d path m m' hmem hsound hfuel
      cases hd : m.classes[d]? with
      | some c =>
          rw [linkWithin_registered hd]
          split
          case h_1 e hstate =>
            intro h
            exact (hsound.failed hd hstate).ne_exhausted (EStateM.Result.error.inj h).1
          case h_2 => simp
          case h_3 => simp
      | none =>
          cases hc : define ctx.host d with
          | error u =>
              rw [linkWithin_undefined hd hc]
              simp
          | ok c =>
              obtain ⟨c', m₁, henter, hclasses, hdefined, hstate, _⟩ := enter_ok hc hd
              rw [linkWithin_new hd hc henter]
              by_cases hname : c.superName = []
              · rw [if_pos hname]
                simp
              · rw [if_neg hname]
                have hsuper : Descriptor.ofInternal c.superName ∈ types :=
                  hclosed d hmem _ ⟨c, hc, hname, rfl⟩
                have hsound₁ : m₁.classes.Sound ctx.host (d :: path) := by
                  rw [hclasses]
                  exact hsound.enter hd hc hdefined hstate
                have hfewer := ClassTable.missing_insert_lt hd hmem c'
                rw [← hclasses] at hfewer
                split
                case h_1 e m₂ hrun =>
                  intro h
                  obtain ⟨rfl, _⟩ := EStateM.Result.error.inj h
                  exact ih hsuper hsound₁ (by omega) hrun
                case h_2 => simp

/-- The provider of an engine serves only classes of these names. -/
def Host.Serves (host : Host) (names : Finset Text) : Prop :=
  ∀ {provider name file}, host.provider = some provider → provider name = .ok file → name ∈ names

/-- The name of the superclass in the file of a class. -/
def superNameOf (host : Host) (name : Text) : Text :=
  match host.provider with
  | none => []
  | some provider =>
      match provider name with
      | .error _ => []
      | .ok file => file.superName

theorem bare_superName (h : (RuntimeClass.bare d).superName ≠ []) :
    (RuntimeClass.bare d).superName = "java/lang/Object" := by
  unfold RuntimeClass.bare at h ⊢
  split at h
  · rw [if_pos (by assumption)]
  · contradiction

theorem ofFile_superName {file : ClassFile} {c : RuntimeClass}
    (h : RuntimeClass.ofFile d file = .ok c) : c.superName = file.superName := by
  rw [RuntimeClass.ofFile] at h
  cases hfields : file.fields.mapM (RuntimeClass.checkField d) with
  | error e => simp [hfields, Bind.bind, Except.bind] at h
  | ok fields =>
      cases hmethods : file.methods.mapM (RuntimeClass.bindMethod d file) with
      | error e => simp [hfields, hmethods, Bind.bind, Except.bind] at h
      | ok methods =>
          rw [hfields, hmethods] at h
          obtain rfl := Except.ok.inj h
          rfl

/-- The superclass of a type is the root class, or it is named in one of the files served. -/
theorem define_superName {c : RuntimeClass} (hserves : host.Serves names)
    (h : define host d = .ok c) (hname : c.superName ≠ []) :
    c.superName = "java/lang/Object" ∨ ∃ name ∈ names, c.superName = superNameOf host name := by
  rcases define_eq_ok h with rfl | ⟨provider, file, hprovider, hserved, hfile⟩
  · exact .inl (bare_superName hname)
  · refine .inr ⟨_, hserves hprovider hserved, ?_⟩
    rw [ofFile_superName hfile, superNameOf, hprovider]
    dsimp only
    rw [hserved]

/-- With finitely many classes, linking always comes to an end: there are no more steps than classes
served, but for the class asked for, the root class, and the step in which it finds nothing new. -/
theorem link_terminates {m' : Machine} (hserves : ctx.host.Serves names)
    (hfuel : names.card + 3 ≤ ctx.fuel) (hsound : m.classes.Sound ctx.host []) (d : Descriptor) :
    link d ctx m ≠ .error .exhausted m' := by
  let supers := names.image fun name => Descriptor.ofInternal (superNameOf ctx.host name)
  let types := insert d (insert (Descriptor.ofInternal "java/lang/Object") supers)
  have hclosed : ∀ k ∈ types, ∀ s, Follows ctx.host k s → s ∈ types := by
    rintro k _ s ⟨c, hc, hname, rfl⟩
    apply Finset.mem_insert_of_mem
    rcases define_superName hserves hc hname with h | ⟨name, hmem, h⟩
    · rw [h]
      exact Finset.mem_insert_self _ _
    · rw [h]
      exact Finset.mem_insert_of_mem (Finset.mem_image_of_mem _ hmem)
  have hcard : (m.classes.missing types).card < ctx.fuel := by
    have hsupers : supers.card ≤ names.card := Finset.card_image_le
    calc (m.classes.missing types).card ≤ types.card := Finset.card_filter_le _ _
      _ ≤ supers.card + 1 + 1 := (Finset.card_insert_le _ _).trans
          (Nat.add_le_add_right (Finset.card_insert_le _ _) 1)
      _ < ctx.fuel := by omega
  rw [link_eq]
  exact linkWithin_terminates hclosed (Finset.mem_insert_self d _) hsound hcard

end Termination

end ClassEngine
