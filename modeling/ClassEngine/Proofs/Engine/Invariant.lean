import ClassEngine.Proofs.Engine.ClassTable

/-!
The invariant of an engine whenever code may run, and what its history may tell. Main notions:
`Lawful` histories, in which classes only move forward, and `Machine.Inv`.
-/

namespace ClassEngine

/-- The steps on the way of a class. -/
inductive ClassState.Next : ClassState → ClassState → Prop
  | link : Next .linking .linked
  | refuse (e : Raise) : Next .linking (.failed (some e))
  | start : Next .linked .initializing
  | complete : Next .initializing .initialized
  | fail : Next .initializing (.failed none)

/-- Two states of the record of one class. -/
def RuntimeClass.SameClass (c c' : RuntimeClass) : Prop :=
  c' = { c with
    superclass := c'.superclass
    mirror := c'.mirror
    resolved := c'.resolved
    state := c'.state }

theorem RuntimeClass.Keeps.sameClass {c c' : RuntimeClass} (h : c.Keeps c') : c.SameClass c' := by
  rw [SameClass]
  rw [h]

/-- One change of a class table: every record stays, no class goes back, and a new record is that of
a class that is still to be linked. -/
structure ClassTable.Advances (t t' : ClassTable) : Prop where
  forward : ∀ {d : Descriptor} {c : RuntimeClass}, t[d]? = some c → ∃ c', t'[d]? = some c' ∧
    c.SameClass c' ∧ (c'.state = c.state ∨ c.state.Next c'.state)
  fresh : ∀ {d : Descriptor} {c' : RuntimeClass}, t'[d]? = some c' → t[d]? = none →
    c'.state = .linking

theorem RuntimeClass.SameClass.refl (c : RuntimeClass) : c.SameClass c :=
  rfl

theorem ClassTable.advances_insert {t : ClassTable} {d : Descriptor} {c : RuntimeClass}
    (hd : t[d]? = none) (hstate : c.state = .linking) :
    ClassTable.Advances t (t.insert d c) where
  forward {k c'} hc' := by
    rw [getElem?_insert]
    by_cases hk : d = k
    · rw [← hk, hd] at hc'
      contradiction
    · rw [if_neg hk]
      exact ⟨c', hc', .refl c', .inl rfl⟩
  fresh {k c'} hc' hnone := by
    rw [getElem?_insert] at hc'
    split at hc'
    · obtain rfl := Option.some.inj hc'
      exact hstate
    · rw [hnone] at hc'
      contradiction

theorem ClassTable.advances_modify {t : ClassTable} {d : Descriptor}
    {f : RuntimeClass → RuntimeClass}
    (h : ∀ c, t[d]? = some c → c.SameClass (f c) ∧ ((f c).state = c.state ∨ c.state.Next (f c).state)) :
    ClassTable.Advances t (t.modify d f) where
  forward {k c'} hc' := by
    rw [getElem?_modify]
    by_cases hk : d = k
    · subst hk
      rw [if_pos rfl, hc']
      exact ⟨f c', rfl, h c' hc'⟩
    · rw [if_neg hk]
      exact ⟨c', hc', .refl c', .inl rfl⟩
  fresh {k c'} hc' hnone := by
    rw [getElem?_modify] at hc'
    split at hc'
    case isTrue hk =>
      rw [hk, hnone] at hc'
      contradiction
    case isFalse =>
      rw [hnone] at hc'
      contradiction

/-- The class table at the end of a history, which starts without classes. -/
def tableAfter : List Event → ClassTable
  | [] => {}
  | .changed t :: _ => t
  | _ :: earlier => tableAfter earlier

/-- A class is ready for its initializer: it is being initialized, and its superclass is being
initialized or is initialized. -/
def ClassTable.Begins (t : ClassTable) (d : Descriptor) : Prop :=
  ∃ c, t[d]? = some c ∧ c.state = .initializing ∧ ∀ s, c.superclass = some s → t.Ready s

/-- What an event may be after the earlier ones. -/
def Event.Lawful (earlier : List Event) : Event → Prop
  | .changed t => (tableAfter earlier).Advances t
  | .initializer d => .initializer d ∉ earlier ∧ (tableAfter earlier).Begins d
  | .executing d | .statics d => (tableAfter earlier).Started d
  | .unwound _ _ | .arrived _ _ | .abandoned _ _ => True

/-- A history in which every event is as it may be, and in which nothing but a change of the class
table happens while a class is being linked. -/
def Lawful (host : Host) : List Event → Prop
  | [] => True
  | e :: earlier => e.Lawful earlier ∧
      ((∀ t, e ≠ .changed t) → (tableAfter earlier).Sound host []) ∧ Lawful host earlier

namespace Machine

/-- The history is lawful and tells of the class table as it is, and no fatal error that came up
carries a guest object. -/
structure Recorded (host : Host) (m : Machine) : Prop where
  lawful : Lawful host m.history.val
  table : tableAfter m.history.val = m.classes
  bare : ∀ b ∈ m.breakdowns.val, b.error.object? = none

/-- The invariant, except that the superclass `hole` of a class whose initialization has begun may
itself still have to begin. -/
structure InvExcept (host : Host) (hole : Option Descriptor) (m : Machine) : Prop where
  table : m.classes.Sound host []
  supers : ∀ {d : Descriptor} {c : RuntimeClass} {s : Descriptor}, m.classes[d]? = some c →
    c.state.HasStarted → c.superclass = some s → m.classes.Started s ∨ hole = some s
  resolved : ∀ {d : Descriptor} {c : RuntimeClass} {ref : MemberRef} {owner : Descriptor},
    m.classes[d]? = some c → c.resolved[ref]? = some owner → m.classes.Started owner
  heap : ∀ {i : Nat} {o : Object}, m.heap[i]? = some o → o.storage = false →
    m.classes.Started o.type
  frames : ∀ f ∈ m.frames, m.classes.Started f.method.owner
  recorded : m.Recorded host
  initializers : ∀ {d : Descriptor}, .initializer d ∈ m.history.val → m.classes.Started d

/-- The invariant of an engine whenever code may run. -/
abbrev Inv (host : Host) (m : Machine) : Prop :=
  InvExcept host none m

variable {host : Host} {hole : Option Descriptor} {m m' : Machine}

theorem Recorded.of_eq (h : m.Recorded host) (hclasses : m'.classes = m.classes)
    (hhistory : m'.history = m.history) (hbreakdowns : m'.breakdowns = m.breakdowns) :
    m'.Recorded host where
  lawful := by rw [hhistory]; exact h.lawful
  table := by rw [hclasses, hhistory]; exact h.table
  bare := by rw [hbreakdowns]; exact h.bare

theorem Recorded.note (h : m.Recorded host) {e : Event} (he : e.Lawful m.history.val)
    (htable : m.classes.Sound host []) (hchanged : ∀ t, e ≠ .changed t) :
    (m.note e).Recorded host where
  lawful := by
    rw [note_history]
    exact ⟨he, fun _ => h.table ▸ htable, h.lawful⟩
  table := by
    rw [note_history, note_classes]
    cases e with
    | changed t => exact absurd rfl (hchanged t)
    | _ => exact h.table
  bare := h.bare

theorem Recorded.withClasses (h : m.Recorded host) {t : ClassTable} (ht : m.classes.Advances t) :
    (m.withClasses t).Recorded host where
  lawful := by
    have hlawful : Event.Lawful m.history.val (.changed t) := by
      rw [Event.Lawful, h.table]
      exact ht
    rw [withClasses_history]
    exact ⟨hlawful, fun hne => absurd rfl (hne t), h.lawful⟩
  table := by
    rw [withClasses_history]
    rfl
  bare := h.bare

theorem Recorded.breakDown {e : Raise} (h : m.Recorded host) (he : e.object? = none) :
    (m.breakDown e).Recorded host where
  lawful := h.lawful
  table := h.table
  bare b hb := by
    cases hfatal : e.isFatal with
    | false =>
        rw [breakDown_other hfatal] at hb
        exact h.bare b hb
    | true =>
        rw [breakDown_fatal hfatal] at hb
        rcases List.mem_cons.mp hb with rfl | hb
        · exact he
        · exact h.bare b hb

/-- The invariant speaks of classes, heap, frames and what is recorded only. -/
theorem InvExcept.of_eq (h : InvExcept host hole m) (hclasses : m'.classes = m.classes)
    (hheap : m'.heap = m.heap) (hframes : m'.frames = m.frames)
    (hhistory : m'.history = m.history) (hbreakdowns : m'.breakdowns = m.breakdowns) :
    InvExcept host hole m' where
  table := hclasses ▸ h.table
  supers := by rw [hclasses]; exact h.supers
  resolved := by rw [hclasses]; exact h.resolved
  heap := by rw [hclasses, hheap]; exact h.heap
  frames := by rw [hclasses, hframes]; exact h.frames
  recorded := h.recorded.of_eq hclasses hhistory hbreakdowns
  initializers := by rw [hclasses, hhistory]; exact h.initializers

/-- An event that is recorded where it may be. -/
theorem InvExcept.note (h : InvExcept host hole m) {e : Event} (he : e.Lawful m.history.val)
    (hchanged : ∀ t, e ≠ .changed t) (hstarts : ∀ d, e = .initializer d → m.classes.Started d) :
    InvExcept host hole (m.note e) where
  table := h.table
  supers := h.supers
  resolved := h.resolved
  heap := h.heap
  frames := h.frames
  recorded := h.recorded.note he h.table hchanged
  initializers hin := by
    rw [note_history] at hin
    rcases List.mem_cons.mp hin with hin | hin
    · exact hstarts _ hin.symm
    · exact h.initializers hin

/-- A fatal error that comes up carries no guest object. -/
theorem InvExcept.breakDown (h : InvExcept host hole m) {e : Raise} (he : e.object? = none) :
    InvExcept host hole (m.breakDown e) where
  table := h.table
  supers := h.supers
  resolved := h.resolved
  heap := h.heap
  frames := h.frames
  recorded := h.recorded.breakDown he
  initializers := h.initializers

/-- The frames may be others as long as their methods belong to classes whose initialization has
begun. -/
theorem InvExcept.withFrames (h : InvExcept host hole m) {frames : List Frame}
    (hframes : ∀ f ∈ frames, m.classes.Started f.method.owner) :
    InvExcept host hole { m with frames := frames } where
  table := h.table
  supers := h.supers
  resolved := h.resolved
  heap := h.heap
  frames := hframes
  recorded := h.recorded.of_eq rfl rfl rfl
  initializers := h.initializers

/-- The heap may be another as long as its instances are of classes whose initialization has
begun. -/
theorem InvExcept.withHeap (h : InvExcept host hole m) {heap : Array Object}
    (hheap : ∀ {i : Nat} {o : Object}, heap[i]? = some o → o.storage = false →
      m.classes.Started o.type) : InvExcept host hole { m with heap := heap } where
  table := h.table
  supers := h.supers
  resolved := h.resolved
  heap := hheap
  frames := h.frames
  recorded := h.recorded.of_eq rfl rfl rfl
  initializers := h.initializers

/-- A change of the class table by which linked classes at most move on. -/
theorem InvExcept.withClasses (h : InvExcept host hole m) {hole' : Option Descriptor}
    {t : ClassTable} (hadvances : m.classes.Advances t) (htable : t.Sound host [])
    (hstarted : ∀ {d}, m.classes.Started d → t.Started d)
    (hsupers : ∀ {d : Descriptor} {c : RuntimeClass} {s : Descriptor}, t[d]? = some c →
      c.state.HasStarted → c.superclass = some s → t.Started s ∨ hole' = some s)
    (hresolved : ∀ {d : Descriptor} {c : RuntimeClass} {ref : MemberRef} {owner : Descriptor},
      t[d]? = some c → c.resolved[ref]? = some owner → t.Started owner) :
    InvExcept host hole' (m.withClasses t) where
  table := htable
  supers := hsupers
  resolved := hresolved
  heap ho hstorage := hstarted (h.heap ho hstorage)
  frames f hf := hstarted (h.frames f hf)
  recorded := h.recorded.withClasses hadvances
  initializers hin := by
    rw [withClasses_history] at hin
    exact hstarted (h.initializers (by simpa using hin))

end Machine

end ClassEngine
