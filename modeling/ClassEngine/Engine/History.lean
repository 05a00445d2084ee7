import ClassEngine.Engine.Frame
import ClassEngine.Engine.Object

/-!
The history of an engine: what its statements about whole runs speak of. A history is recorded, but
it takes no part in a run and is not kept at run time.
-/

namespace ClassEngine

/-- A value that statements speak of and no run computes: only which value it is. -/
structure Ghost (α : Type) where
  holds : α → Prop
  determined : ∃ a, holds = Eq a

namespace Ghost

variable {α β : Type}

@[inline] def of (a : α) : Ghost α :=
  ⟨Eq a, a, rfl⟩

/-- The value that is meant. -/
noncomputable def val (g : Ghost α) : α :=
  Classical.choose g.determined

theorem holds_eq (g : Ghost α) : g.holds = Eq g.val :=
  Classical.choose_spec g.determined

@[simp] theorem val_of (a : α) : (of a).val = a := by
  have h : (of a).holds (of a).val := by rw [holds_eq]
  exact h.symm

/-- Applies a function to the value that is meant. -/
@[inline] def map (f : α → β) (g : Ghost α) : Ghost β where
  holds b := ∃ a, g.holds a ∧ f a = b
  determined := by
    refine ⟨f g.val, funext fun b => propext ?_⟩
    rw [holds_eq]
    constructor
    · rintro ⟨_, rfl, rfl⟩
      rfl
    · rintro rfl
      exact ⟨_, rfl, rfl⟩

@[simp] theorem val_map (f : α → β) (g : Ghost α) : (g.map f).val = f g.val := by
  have h : (g.map f).holds (g.map f).val := by rw [holds_eq (g.map f)]
  obtain ⟨a, ha, hfa⟩ := h
  rw [holds_eq] at ha
  rw [← hfa, ha]

/-- Two values that are meant, as a pair. -/
@[inline] def and (g : Ghost α) (h : Ghost β) : Ghost (α × β) where
  holds p := g.holds p.1 ∧ h.holds p.2
  determined := by
    refine ⟨(g.val, h.val), funext fun p => propext ?_⟩
    rw [holds_eq, holds_eq, Prod.ext_iff]

@[simp] theorem val_and (g : Ghost α) (h : Ghost β) : (g.and h).val = (g.val, h.val) := by
  have hpair : (g.and h).holds (g.and h).val := by rw [holds_eq (g.and h)]
  obtain ⟨hg, hh⟩ := hpair
  rw [holds_eq] at hg hh
  exact Prod.ext hg.symm hh.symm

end Ghost

/-- What a history tells of. -/
inductive Event where
  /-- The class table was changed to this one. -/
  | changed (classes : ClassTable)
  /-- The initializer that a class declares is about to run. -/
  | initializer (type : Descriptor)
  /-- An instruction of a method of a class is about to be executed. -/
  | executing (type : Descriptor)
  /-- An instruction reads or writes the static fields that a class declares. -/
  | statics (type : Descriptor)
  /-- An activation has ended by raising an object, and these frames are left. -/
  | unwound (object : Ref) (callers : List Frame)
  /-- A raised object has come to the current instruction of the innermost of these frames, or,
  without frames, to the program around the engine. -/
  | arrived (object : Ref) (frames : List Frame)
  /-- The search for a handler in the innermost of these frames has itself raised an object, with
  which the activation is going to end. -/
  | abandoned (object : Ref) (frames : List Frame)

/-- The events so far, latest first. -/
abbrev History := Ghost (List Event)

/-- Adds an event. -/
@[inline] def History.add (e : Event) (h : History) : History :=
  h.map (e :: ·)

/-- The field of an object that an instruction has to do with: how the instruction names it, and the
class that was found to declare it. -/
structure FieldAccess where
  object : Ref
  owner : RuntimeClass
  ref : MemberRef

/-- What becomes of instances and their fields. -/
inductive Access where
  /-- An instance of a class has been made. -/
  | made (object : Ref) (type : Descriptor)
  /-- A value has been read from a field. -/
  | read (field : FieldAccess) (value : Value)
  /-- A value is about to be stored in a field. -/
  | stored (field : FieldAccess) (value : Value)

/-- The classes, objects and calls of an engine at one moment. -/
structure Moment where
  classes : ClassTable
  heap : Array Object
  /-- The active frames, innermost first. -/
  frames : List Frame
  /-- The deepest permitted call chain, and whether the guard on it is lifted. -/
  limit : Int
  lifted : Bool
  /-- What becomes of an instance just now. -/
  access : Option Access

/-- The same moment, at which something becomes of an instance. -/
@[inline] def Moment.during (a : Access) (s : Moment) : Moment :=
  { s with access := some a }

/-- The breakdown of a run: a fatal error, and the events and moments up to where it came up. -/
structure Breakdown where
  error : Raise
  history : List Event
  moments : List Moment

end ClassEngine
