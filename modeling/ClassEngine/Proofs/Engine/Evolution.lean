import Mathlib.Tactic.Common
import ClassEngine.Engine.Session

/-!
What any computation of the engine leaves as it was, whatever state it starts from. Records of
classes stay in the table as they were linked, a class that is being initialized goes on being
initialized, objects keep their classes, and the frames below the innermost one are not touched.
-/

namespace ClassEngine

namespace ClassState

/-- Linked, or further on the way. A class that could not be linked is not. -/
def IsLinked : ClassState → Prop
  | .linked | .initializing | .initialized | .failed none => True
  | .linking | .failed (some _) => False

/-- Past the linked state: initialization has begun. -/
def HasStarted : ClassState → Prop
  | .initializing | .initialized | .failed none => True
  | .linked | .linking | .failed (some _) => False

/-- What has become of a state at the end of a computation. What is done in between to a class that
was found initializing is left to the computation that began to initialize it. -/
def Settles : ClassState → ClassState → Prop
  | .linking, _ => True
  | .linked, s => s.IsLinked
  | s, s' => s' = s

theorem HasStarted.isLinked {s : ClassState} (h : s.HasStarted) : s.IsLinked := by
  match s, h with
  | .initializing, _ => trivial
  | .initialized, _ => trivial
  | .failed none, _ => trivial

theorem Settles.refl (s : ClassState) : s.Settles s := by
  match s with
  | .linking => trivial
  | .linked => trivial
  | .initializing => rfl
  | .initialized => rfl
  | .failed _ => rfl

theorem Settles.isLinked {s s' : ClassState} (h : s.Settles s') (hs : s.IsLinked) :
    s'.IsLinked := by
  match s, h with
  | .linked, h => exact h
  | .initializing, rfl => trivial
  | .initialized, rfl => trivial
  | .failed none, rfl => trivial

/-- A state in which initialization has begun is not left. -/
theorem Settles.eq_of_hasStarted {s s' : ClassState} (h : s.Settles s') (hs : s.HasStarted) :
    s' = s := by
  match s, h with
  | .initializing, h => exact h
  | .initialized, h => exact h
  | .failed none, h => exact h

theorem Settles.trans {s s' s'' : ClassState} (h : s.Settles s') (h' : s'.Settles s'') :
    s.Settles s'' := by
  match s with
  | .linking => trivial
  | .linked => exact h'.isLinked h
  | .initializing => obtain rfl : s' = _ := h; exact h'
  | .initialized => obtain rfl : s' = _ := h; exact h'
  | .failed _ => obtain rfl : s' = _ := h; exact h'

end ClassState

namespace RuntimeClass

/-- The same record but for what may still change once a class is linked. -/
def Keeps (c c' : RuntimeClass) : Prop :=
  c' = { c with mirror := c'.mirror, resolved := c'.resolved, state := c'.state }

/-- What has become of a record at the end of a computation. -/
structure Became (c c' : RuntimeClass) : Prop where
  keeps : c.Keeps c'
  state : c.state.Settles c'.state

theorem Became.refl (c : RuntimeClass) : c.Became c :=
  ⟨rfl, .refl _⟩

theorem Keeps.trans {c c' c'' : RuntimeClass} (h : c.Keeps c') (h' : c'.Keeps c'') :
    c.Keeps c'' := by
  rw [Keeps] at *
  rw [h', h]

theorem Became.trans {c c' c'' : RuntimeClass} (h : c.Became c') (h' : c'.Became c'') :
    c.Became c'' :=
  ⟨h.keeps.trans h'.keeps, h.state.trans h'.state⟩

theorem Keeps.superclass {c c' : RuntimeClass} (h : c.Keeps c') : c'.superclass = c.superclass := by
  rw [h]

theorem Keeps.superName {c c' : RuntimeClass} (h : c.Keeps c') : c'.superName = c.superName := by
  rw [h]

theorem Keeps.interfaces {c c' : RuntimeClass} (h : c.Keeps c') : c'.interfaces = c.interfaces := by
  rw [h]

end RuntimeClass

namespace ClassTable

/-- The class is linked. -/
def Linked (t : ClassTable) (d : Descriptor) : Prop :=
  ∃ c, t[d]? = some c ∧ c.state.IsLinked

/-- The initialization of the class has begun. -/
def Started (t : ClassTable) (d : Descriptor) : Prop :=
  ∃ c, t[d]? = some c ∧ c.state.HasStarted

/-- The class is being initialized, or it is initialized. -/
def Ready (t : ClassTable) (d : Descriptor) : Prop :=
  ∃ c, t[d]? = some c ∧ (c.state = .initializing ∨ c.state = .initialized)

theorem Ready.started {t : ClassTable} {d : Descriptor} (h : t.Ready d) : t.Started d := by
  obtain ⟨c, hc, hstate | hstate⟩ := h
  · exact ⟨c, hc, by rw [hstate]; trivial⟩
  · exact ⟨c, hc, by rw [hstate]; trivial⟩

theorem Ready.state {t : ClassTable} {d : Descriptor} {c : RuntimeClass} (h : t.Ready d)
    (hc : t[d]? = some c) : c.state = .initializing ∨ c.state = .initialized := by
  obtain ⟨c', hc', hstate⟩ := h
  obtain rfl := Option.some.inj (hc.symm.trans hc')
  exact hstate

theorem Ready.ne {t : ClassTable} {d s : Descriptor} {c : RuntimeClass} (h : t.Ready s)
    (hc : t[d]? = some c) (hstate : ¬(c.state = .initializing ∨ c.state = .initialized)) : s ≠ d := by
  rintro rfl
  exact hstate (h.state hc)

theorem Started.linked {t : ClassTable} {d : Descriptor} (h : t.Started d) : t.Linked d := by
  obtain ⟨c, hc, hstate⟩ := h
  exact ⟨c, hc, hstate.isLinked⟩

/-- Every record of the one table is found again in the other. -/
def Evolves (t t' : ClassTable) : Prop :=
  ∀ ⦃d : Descriptor⦄ ⦃c : RuntimeClass⦄, t[d]? = some c → ∃ c', t'[d]? = some c' ∧ c.Became c'

theorem Evolves.refl (t : ClassTable) : t.Evolves t :=
  fun _ c hc => ⟨c, hc, .refl c⟩

theorem Evolves.trans {t t' t'' : ClassTable} (h : t.Evolves t') (h' : t'.Evolves t'') :
    t.Evolves t'' := by
  intro d c hc
  obtain ⟨c', hc', hbecame⟩ := h hc
  obtain ⟨c'', hc'', hbecame'⟩ := h' hc'
  exact ⟨c'', hc'', hbecame.trans hbecame'⟩

theorem Evolves.linked {t t' : ClassTable} (h : t.Evolves t') {d : Descriptor}
    (hd : t.Linked d) : t'.Linked d := by
  obtain ⟨c, hc, hstate⟩ := hd
  obtain ⟨c', hc', hbecame⟩ := h hc
  exact ⟨c', hc', hbecame.state.isLinked hstate⟩

theorem Evolves.started {t t' : ClassTable} (h : t.Evolves t') {d : Descriptor}
    (hd : t.Started d) : t'.Started d := by
  obtain ⟨c, hc, hstate⟩ := hd
  obtain ⟨c', hc', hbecame⟩ := h hc
  exact ⟨c', hc', by rwa [hbecame.state.eq_of_hasStarted hstate]⟩

theorem Evolves.ready {t t' : ClassTable} (h : t.Evolves t') {d : Descriptor}
    (hd : t.Ready d) : t'.Ready d := by
  obtain ⟨c, hc, hstate⟩ := hd
  obtain ⟨c', hc', hbecame⟩ := h hc
  have hstarted : c.state.HasStarted := by
    rcases hstate with hstate | hstate <;> rw [hstate] <;> trivial
  exact ⟨c', hc', by rwa [hbecame.state.eq_of_hasStarted hstarted]⟩

theorem getElem?_insert (t : ClassTable) (d k : Descriptor) (c : RuntimeClass) :
    (t.insert d c)[k]? = if d = k then some c else t[k]? := by
  rw [Std.HashMap.getElem?_insert]
  simp

theorem getElem?_modify (t : ClassTable) (d k : Descriptor) (f : RuntimeClass → RuntimeClass) :
    (t.modify d f)[k]? = if d = k then t[d]?.map f else t[k]? := by
  rw [Std.HashMap.getElem?_modify]
  simp

/-- The other records stay. -/
theorem getElem?_modify_of_ne {t : ClassTable} {d k : Descriptor} (h : k ≠ d)
    (f : RuntimeClass → RuntimeClass) : (t.modify d f)[k]? = t[k]? := by
  rw [getElem?_modify, if_neg h.symm]

/-- A record that is changed in ways that do not matter here. -/
theorem evolves_modify {t : ClassTable} {d : Descriptor} {f : RuntimeClass → RuntimeClass}
    (h : ∀ c, t[d]? = some c → c.Became (f c)) : t.Evolves (t.modify d f) := by
  intro k c hc
  rw [getElem?_modify]
  by_cases hk : d = k
  · subst hk
    rw [if_pos rfl, hc]
    exact ⟨f c, rfl, h c hc⟩
  · rw [if_neg hk]
    exact ⟨c, hc, .refl c⟩

/-- A record for a class that had none. -/
theorem evolves_insert {t : ClassTable} {d : Descriptor} (h : t[d]? = none) (c : RuntimeClass) :
    t.Evolves (t.insert d c) := by
  intro k c' hc'
  rw [getElem?_insert]
  by_cases hk : d = k
  · subst hk
    rw [h] at hc'
    contradiction
  · rw [if_neg hk]
    exact ⟨c', hc', .refl c'⟩

end ClassTable

/-- What is kept of a frame while it is worked on. -/
structure FrameRel where
  rel : Frame → Frame → Prop
  refl : ∀ f, rel f f
  trans : ∀ {f g h}, rel f g → rel g h → rel f h
  method : ∀ {f g}, rel f g → g.method = f.method
  depth : ∀ {f g}, rel f g → g.depth = f.depth

namespace FrameRel

/-- All but the operand stack and the address of the next instruction. -/
def instruction : FrameRel where
  rel f g := g = { f with stack := g.stack, pc := g.pc }
  refl _ := rfl
  trans {f g h} hg hh := by rw [hh, hg]
  method h := by rw [h]
  depth h := by rw [h]

/-- The method and the address of the current instruction. -/
def position : FrameRel where
  rel f g := g = { f with stack := g.stack, locals := g.locals, pc := g.pc }
  refl _ := rfl
  trans {f g h} hg hh := by rw [hh, hg]
  method h := by rw [h]
  depth h := by rw [h]

/-- The method. -/
def activation : FrameRel where
  rel f g := g = { f with stack := g.stack, locals := g.locals, pc := g.pc, opPc := g.opPc }
  refl _ := rfl
  trans {f g h} hg hh := by rw [hh, hg]
  method h := by rw [h]
  depth h := by rw [h]

/-- One relation asks for more than another. -/
protected def le (F G : FrameRel) : Prop :=
  ∀ ⦃f g⦄, F.rel f g → G.rel f g

theorem instruction_le_position : instruction.le position := by
  intro f g h
  change g = _
  rw [h]

theorem position_le_activation : position.le activation := by
  intro f g h
  change g = _
  rw [h]

theorem instruction_le_activation : instruction.le activation :=
  fun _ _ h => position_le_activation (instruction_le_position h)

/-- The innermost frame is related, and the others are the same. -/
def onTop (F : FrameRel) : List Frame → List Frame → Prop
  | [], [] => True
  | f :: fs, g :: gs => F.rel f g ∧ gs = fs
  | _, _ => False

theorem onTop_refl (F : FrameRel) (fs : List Frame) : F.onTop fs fs := by
  cases fs with
  | nil => trivial
  | cons f fs => exact ⟨F.refl f, rfl⟩

theorem onTop_trans (F : FrameRel) {fs gs hs : List Frame} (h : F.onTop fs gs)
    (h' : F.onTop gs hs) : F.onTop fs hs := by
  match fs, gs, hs, h, h' with
  | [], [], [], _, _ => trivial
  | f :: fs, g :: gs, k :: hs, ⟨hg, hgs⟩, ⟨hk, hhs⟩ =>
      exact ⟨F.trans hg hk, hhs.trans hgs⟩

theorem le.onTop {F G : FrameRel} (h : F.le G) {fs gs : List Frame} (hon : F.onTop fs gs) :
    G.onTop fs gs := by
  match fs, gs, hon with
  | [], [], _ => trivial
  | f :: fs, g :: gs, ⟨hg, hgs⟩ => exact ⟨h hg, hgs⟩

theorem onTop_cons (F : FrameRel) {f : Frame} {fs gs : List Frame} (h : F.onTop (f :: fs) gs) :
    ∃ g, gs = g :: fs ∧ F.rel f g := by
  match gs, h with
  | g :: gs, h =>
      obtain ⟨hg, rfl⟩ := h
      exact ⟨g, rfl, hg⟩

end FrameRel

/-- The depth of the innermost frame. -/
def depthOf (frames : List Frame) : Nat :=
  frames.head?.elim 0 Frame.depth

/-- Frames on top of others, each one deeper than the next. -/
def Stacked (base : List Frame) : List Frame → Prop
  | [] => True
  | f :: fs => f.depth = depthOf (fs ++ base) + 1 ∧ Stacked base fs

theorem stacked_append {base upper lower : List Frame} (hupper : Stacked (lower ++ base) upper)
    (hlower : Stacked base lower) : Stacked base (upper ++ lower) := by
  induction upper with
  | nil => exact hlower
  | cons f fs ih =>
      refine ⟨hupper.1.trans ?_, ih hupper.2⟩
      rw [← List.append_assoc]
      rfl

/-- A moment in the course of a computation that was started on an engine. Further frames stand on
those of the engine, each one deeper than the next, and within the limit unless the guard is
lifted. -/
structure Moment.StandsOn (F : FrameRel) (m : Machine) (s : Moment) : Prop where
  frames : ∃ above base, s.frames = above ++ base ∧ F.onTop m.frames base ∧ Stacked base above ∧
    (s.lifted = false → ∀ f ∈ above, (f.depth : Int) ≤ s.limit)
  limit : s.limit = m.maxDepth
  guard : m.handlingOverflow = true → s.lifted = true

theorem Moment.standsOn_moment (F : FrameRel) (m : Machine) : m.moment.StandsOn F m where
  frames := ⟨[], m.frames, rfl, F.onTop_refl _, trivial, by simp⟩
  limit := rfl
  guard h := h

/-- Every object of the one heap is found again in the other, with its class. -/
def HeapEvolves (h h' : Array Object) : Prop :=
  ∀ ⦃i : Nat⦄ ⦃o : Object⦄, h[i]? = some o →
    ∃ o', h'[i]? = some o' ∧ o'.type = o.type ∧ o'.storage = o.storage

theorem HeapEvolves.refl (h : Array Object) : HeapEvolves h h :=
  fun _ o ho => ⟨o, ho, rfl, rfl⟩

theorem HeapEvolves.trans {h h' h'' : Array Object} (hh : HeapEvolves h h')
    (hh' : HeapEvolves h' h'') : HeapEvolves h h'' := by
  intro i o ho
  obtain ⟨o', ho', htype, hstorage⟩ := hh ho
  obtain ⟨o'', ho'', htype', hstorage'⟩ := hh' ho'
  exact ⟨o'', ho'', htype'.trans htype, hstorage'.trans hstorage⟩

theorem heapEvolves_push (h : Array Object) (o : Object) : HeapEvolves h (h.push o) := by
  intro i o' ho'
  obtain ⟨hlt, _⟩ := Array.getElem?_eq_some_iff.mp ho'
  refine ⟨o', ?_, rfl, rfl⟩
  rw [Array.getElem?_push, if_neg (Nat.ne_of_lt hlt), ho']

theorem heapEvolves_modify (h : Array Object) (i : Nat) {f : Object → Object}
    (hf : ∀ o, (f o).type = o.type ∧ (f o).storage = o.storage) :
    HeapEvolves h (h.modify i f) := by
  intro j o ho
  rw [Array.getElem?_modify, ho]
  by_cases hij : i = j
  · rw [if_pos hij]
    exact ⟨f o, rfl, hf o⟩
  · rw [if_neg hij]
    exact ⟨o, rfl, rfl, rfl⟩

namespace Machine

/-- What has become of an engine at the end of a computation. -/
structure EvolvesBy (F : FrameRel) (m m' : Machine) : Prop where
  classes : m.classes.Evolves m'.classes
  heap : HeapEvolves m.heap m'.heap
  frames : F.onTop m.frames m'.frames
  /-- No initializer starts of a class whose initialization had begun before. -/
  starts : ∀ {d}, m.classes.Started d → .initializer d ∈ m'.history.val →
    .initializer d ∈ m.history.val
  limit : m'.maxDepth = m.maxDepth
  guard : m'.handlingOverflow = m.handlingOverflow
  moments : ∃ passed : List Moment, m'.moments.val = passed ++ m.moments.val ∧
    ∀ s ∈ passed, s.StandsOn F m

/-- What has become of an engine at the end of a computation that is not a whole instruction. -/
abbrev Evolves (m m' : Machine) : Prop :=
  EvolvesBy .instruction m m'

variable {F : FrameRel} {m m' m'' : Machine}

/-- A moment seen from further back. -/
theorem EvolvesBy.standsOn (h : EvolvesBy F m m') {s : Moment} (hs : s.StandsOn F m') :
    s.StandsOn F m where
  frames := by
    obtain ⟨above, base, hframes, hbase, hstacked, hwithin⟩ := hs.frames
    exact ⟨above, base, hframes, F.onTop_trans h.frames hbase, hstacked, hwithin⟩
  limit := hs.limit.trans h.limit
  guard hguard := hs.guard (h.guard.trans hguard)

/-- No frame is left where there was none. -/
theorem EvolvesBy.frames_nil (h : EvolvesBy F m m') (hm : m.frames = []) : m'.frames = [] := by
  have hframes := h.frames
  rw [hm] at hframes
  cases hend : m'.frames with
  | nil => rfl
  | cons f rest =>
      rw [hend] at hframes
      exact hframes.elim

theorem EvolvesBy.trans (h : EvolvesBy F m m') (h' : EvolvesBy F m' m'') : EvolvesBy F m m'' where
  classes := h.classes.trans h'.classes
  heap := h.heap.trans h'.heap
  frames := F.onTop_trans h.frames h'.frames
  starts hd hin := h.starts hd (h'.starts (h.classes.started hd) hin)
  limit := h'.limit.trans h.limit
  guard := h'.guard.trans h.guard
  moments := by
    obtain ⟨passed, hpassed, hstands⟩ := h.moments
    obtain ⟨passed', hpassed', hstands'⟩ := h'.moments
    refine ⟨passed' ++ passed, by rw [hpassed', hpassed, List.append_assoc], fun s hs => ?_⟩
    rcases List.mem_append.mp hs with hs | hs
    · exact h.standsOn (hstands' s hs)
    · exact hstands s hs

/-- What matters here of an engine has not changed, but for its classes, objects and frames. -/
theorem evolvesBy_of_same (hclasses : m.classes.Evolves m'.classes)
    (hheap : HeapEvolves m.heap m'.heap) (hframes : F.onTop m.frames m'.frames)
    (hstarts : ∀ {d}, .initializer d ∈ m'.history.val → .initializer d ∈ m.history.val)
    (hlimit : m'.maxDepth = m.maxDepth) (hguard : m'.handlingOverflow = m.handlingOverflow)
    (hmoments : m'.moments = m.moments) : EvolvesBy F m m' where
  classes := hclasses
  heap := hheap
  frames := hframes
  starts _ := hstarts
  limit := hlimit
  guard := hguard
  moments := ⟨[], by rw [hmoments]; rfl, by simp⟩

/-- An engine of which nothing has changed that matters here. -/
theorem evolvesBy_of_eq (hclasses : m'.classes = m.classes) (hheap : m'.heap = m.heap)
    (hframes : m'.frames = m.frames) (hhistory : m'.history = m.history)
    (hlimit : m'.maxDepth = m.maxDepth) (hguard : m'.handlingOverflow = m.handlingOverflow)
    (hmoments : m'.moments = m.moments) : EvolvesBy F m m' := by
  refine evolvesBy_of_same ?_ ?_ ?_ ?_ hlimit hguard hmoments
  · rw [hclasses]
    exact .refl _
  · rw [hheap]
    exact .refl _
  · rw [hframes]
    exact F.onTop_refl _
  · rw [hhistory]
    exact id

theorem EvolvesBy.refl (m : Machine) : EvolvesBy F m m :=
  evolvesBy_of_eq rfl rfl rfl rfl rfl rfl rfl

theorem EvolvesBy.mono {G : FrameRel} (h : EvolvesBy F m m') (hle : F.le G) : EvolvesBy G m m' where
  classes := h.classes
  heap := h.heap
  frames := hle.onTop h.frames
  starts := h.starts
  limit := h.limit
  guard := h.guard
  moments := by
    obtain ⟨passed, hpassed, hstands⟩ := h.moments
    refine ⟨passed, hpassed, fun s hs => ⟨?_, (hstands s hs).limit, (hstands s hs).guard⟩⟩
    obtain ⟨above, base, hframes, hbase, hstacked⟩ := (hstands s hs).frames
    exact ⟨above, base, hframes, hle.onTop hbase, hstacked⟩

@[simp] theorem note_classes (e : Event) (m : Machine) : (m.note e).classes = m.classes := rfl

@[simp] theorem note_frames (e : Event) (m : Machine) : (m.note e).frames = m.frames := rfl

@[simp] theorem note_history (e : Event) (m : Machine) :
    (m.note e).history.val = e :: m.history.val :=
  Ghost.val_map _ _

@[simp] theorem withClasses_classes (m : Machine) (t : ClassTable) :
    (m.withClasses t).classes = t := rfl

@[simp] theorem withClasses_history (m : Machine) (t : ClassTable) :
    (m.withClasses t).history.val = .changed t :: m.history.val :=
  Ghost.val_map _ _

@[simp] theorem mark_moments (m : Machine) : m.mark.moments.val = m.moment :: m.moments.val :=
  Ghost.val_map _ _

@[simp] theorem markAccess_moments (a : Access) (m : Machine) :
    (m.markAccess a).moments.val = m.moment.during a :: m.moments.val :=
  Ghost.val_map _ _

@[simp] theorem note_moments (e : Event) (m : Machine) :
    (m.note e).moments.val = m.moment :: m.moments.val :=
  mark_moments m

theorem breakDown_fatal {e : Raise} (he : e.isFatal = true) (m : Machine) :
    (m.breakDown e).breakdowns.val = ⟨e, m.history.val, m.moments.val⟩ :: m.breakdowns.val := by
  simp [breakDown, he]

theorem breakDown_other {e : Raise} (he : e.isFatal = false) (m : Machine) :
    (m.breakDown e).breakdowns.val = m.breakdowns.val := by
  simp [breakDown, he]

theorem evolvesBy_mark (m : Machine) : EvolvesBy F m m.mark where
  classes := .refl _
  heap := .refl _
  frames := F.onTop_refl _
  starts _ hin := hin
  limit := rfl
  guard := rfl
  moments := ⟨[m.moment], mark_moments m, by simpa using Moment.standsOn_moment F m⟩

theorem evolvesBy_markAccess (a : Access) (m : Machine) : EvolvesBy F m (m.markAccess a) where
  classes := .refl _
  heap := .refl _
  frames := F.onTop_refl _
  starts _ hin := hin
  limit := rfl
  guard := rfl
  moments := by
    refine ⟨[m.moment.during a], markAccess_moments a m, fun s hs => ?_⟩
    obtain rfl := List.mem_singleton.mp hs
    exact ⟨(Moment.standsOn_moment F m).frames, rfl, id⟩

theorem evolvesBy_note {e : Event} (he : ∀ d, e ≠ .initializer d) (m : Machine) :
    EvolvesBy F m (m.note e) := by
  refine (evolvesBy_mark m).trans (evolvesBy_of_same (.refl _) (.refl _) (F.onTop_refl _) ?_ rfl rfl
    rfl)
  intro d hin
  rw [note_history] at hin
  exact (List.mem_cons.mp hin).resolve_left fun h => he _ h.symm

theorem evolvesBy_withClasses {t : ClassTable} (h : m.classes.Evolves t) :
    EvolvesBy F m (m.withClasses t) := by
  refine evolvesBy_of_same h (.refl _) (F.onTop_refl _) ?_ rfl rfl rfl
  intro d hin
  simpa using hin

theorem evolvesBy_withHeap {heap : Array Object} (h : HeapEvolves m.heap heap) :
    EvolvesBy F m { m with heap := heap } :=
  evolvesBy_of_same (.refl _) h (F.onTop_refl _) id rfl rfl rfl

theorem evolvesBy_withFrames {frames : List Frame} (h : F.onTop m.frames frames) :
    EvolvesBy F m { m with frames := frames } :=
  evolvesBy_of_same (.refl _) (.refl _) h id rfl rfl rfl

end Machine

/-- The object with which the last activation has ended, and the frames that are left, as long as
nothing has taken the object up. -/
def pendingIn : List Event → Option (Ref × List Frame)
  | .unwound r callers :: _ => some (r, callers)
  | .changed _ :: earlier => pendingIn earlier
  | _ => none

/-- What may happen next to an object with which an activation has ended: it arrives at the frames
that are left, or ends the search for a handler in the innermost of these, or that is a native frame
and ends with it too. -/
def Event.TakesUp : Option (Ref × List Frame) → Event → Prop
  | none, _ => True
  | some _, .changed _ => True
  | some (r, frames), .arrived r' frames' => r' = r ∧ frames' = frames
  | some (r, frames), .abandoned r' frames' => r' = r ∧ frames' = frames
  | some (r, frames), .unwound r' callers =>
      r' = r ∧ ∃ f, frames = f :: callers ∧ f.method.isNative = true
  | some _, _ => False

/-- A history in which every object with which an activation ends is taken up before anything else
happens. -/
def Orderly : List Event → Prop
  | [] => True
  | e :: earlier => e.TakesUp (pendingIn earlier) ∧ Orderly earlier

namespace Machine

variable {m m' : Machine}

/-- Every object with which an activation has ended was taken up. -/
def Settled (m : Machine) : Prop :=
  Orderly m.history.val ∧ pendingIn m.history.val = none

/-- An object with which an activation has ended and that was not taken up is the one raised. -/
def Raises (e : Raise) (m : Machine) : Prop :=
  Orderly m.history.val ∧ ∀ {r : Ref} {frames : List Frame},
    pendingIn m.history.val = some (r, frames) → e = .thrown r ∧ m.frames = frames

theorem Settled.raises (h : m.Settled) (e : Raise) : m.Raises e :=
  ⟨h.1, fun hpending => by rw [h.2] at hpending; contradiction⟩

theorem Settled.of_eq (h : m.Settled) (hhistory : m'.history = m.history) : m'.Settled := by
  rwa [Settled, hhistory]

theorem Settled.withClasses (h : m.Settled) (t : ClassTable) : (m.withClasses t).Settled := by
  rw [Settled, withClasses_history, Orderly, h.2]
  exact ⟨⟨trivial, h.1⟩, h.2⟩

theorem Raises.withClasses {e : Raise} (h : m.Raises e) (t : ClassTable) :
    (m.withClasses t).Raises e := by
  rw [Raises, withClasses_history, Orderly]
  refine ⟨⟨?_, h.1⟩, h.2⟩
  cases pendingIn m.history.val with
  | none => trivial
  | some _ => trivial

/-- An event other than the end of an activation, while nothing is to be taken up. -/
theorem Settled.note {e : Event} (h : m.Settled) (he : ∀ r callers, e ≠ .unwound r callers) :
    (m.note e).Settled := by
  rw [Settled, note_history, Orderly, h.2]
  refine ⟨⟨trivial, h.1⟩, ?_⟩
  cases e with
  | unwound r callers => exact absurd rfl (he r callers)
  | changed _ => exact h.2
  | _ => rfl

/-- What was raised comes to the innermost frame, one way or the other. -/
theorem Raises.takenUp {r : Ref} {e : Event} (h : m.Raises (.thrown r))
    (he : e = .arrived r m.frames ∨ e = .abandoned r m.frames) : (m.note e).Settled := by
  rw [Settled, note_history, Orderly]
  have hpending : pendingIn (e :: m.history.val) = none := by
    rcases he with rfl | rfl <;> rfl
  refine ⟨⟨?_, h.1⟩, hpending⟩
  cases hleft : pendingIn m.history.val with
  | none => trivial
  | some left =>
      obtain ⟨hr, hframes⟩ := h.2 hleft
      obtain rfl := Raise.thrown.inj hr
      rcases he with rfl | rfl
      · exact ⟨rfl, hframes⟩
      · exact ⟨rfl, hframes⟩

/-- An activation ends with what was raised in it. -/
theorem Raises.unwound {r : Ref} (h : m.Raises (.thrown r)) {f : Frame} {callers : List Frame}
    (hframes : m.frames = f :: callers) (hnative : f.method.isNative = false → m.Settled) :
    ({ m with frames := callers }.note (.unwound r callers)).Raises (.thrown r) := by
  rw [Raises, note_history, Orderly]
  refine ⟨⟨?_, h.1⟩, ?_⟩
  · change Event.TakesUp (pendingIn m.history.val) _
    cases hpending : pendingIn m.history.val with
    | none => trivial
    | some pending =>
        obtain ⟨hr, hpendingFrames⟩ := h.2 hpending
        refine ⟨Raise.thrown.inj hr, f, hpendingFrames.symm.trans hframes, ?_⟩
        cases hcode : f.method.isNative with
        | true => rfl
        | false =>
            rw [(hnative hcode).2] at hpending
            contradiction
  · intro r' frames hpending
    obtain ⟨rfl, rfl⟩ := Prod.mk.inj (Option.some.inj hpending)
    exact ⟨rfl, rfl⟩

/-- An error other than a thrown object leaves nothing to be taken up. -/
theorem Raises.settled {e : Raise} (h : m.Raises e) (he : ∀ r, e ≠ .thrown r) : m.Settled := by
  refine ⟨h.1, ?_⟩
  cases hpending : pendingIn m.history.val with
  | none => rfl
  | some pending => exact absurd (h.2 hpending).1 (he _)

end Machine

end ClassEngine
