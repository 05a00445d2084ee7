import ClassEngine.Proofs.Engine.Reporting
import ClassEngine.Proofs.Engine.RespectingExecution

/-!
Canonical objects: the strings of the same contents are to be one object, and the mirrors of a type
are. An evaluation gives the canonical object that is there, and whatever it gives is canonical from
then on, until an evaluation for the same is over that had begun before there was one. Main result:
`canonical_objects_last`.
-/

namespace ClassEngine

open Machine Exec Linking Resolution Allocation

/-- What there is to be one object for: the strings of the same contents, or the mirrors of a
type. -/
inductive Canonical where
  | string (contents : Text)
  | mirror (type : Descriptor)
  deriving DecidableEq

/-- The canonical object, once there is one. -/
def Machine.canonical? (m : Machine) : Canonical → Option Value
  | .string t => m.interned[t]?
  | .mirror d => (m.classes[d]?.bind RuntimeClass.mirror).map Value.ref

/-- The canonical object that there is stays. -/
def MachineRel.keeps (k : Canonical) : MachineRel where
  rel m m' := ∀ v, m.canonical? k = some v → m'.canonical? k = some v
  refl _ _ hv := hv
  breakDown _ _ _ hv := hv
  trans h h' v hv := h' v (h v hv)

section Changes

variable {k : Canonical} {m m' : Machine}

theorem canonical?_congr (hclasses : m'.classes = m.classes)
    (hinterned : m'.interned = m.interned) :
    m'.canonical? k = m.canonical? k := by
  cases k with
  | string t => rw [canonical?, canonical?, hinterned]
  | mirror d => rw [canonical?, canonical?, hclasses]

/-- A string becomes the canonical one of its contents. -/
theorem canonical?_setInterned (t : Text) (v : Value) :
    ({ m with interned := m.interned.insert t v } : Machine).canonical? k =
      if k = .string t then some v else m.canonical? k := by
  cases k with
  | string s =>
      rw [canonical?, canonical?, Std.HashMap.getElem?_insert]
      by_cases hs : s = t
      · rw [if_pos (beq_iff_eq.mpr hs.symm), if_pos (congrArg Canonical.string hs)]
      · have hne : Canonical.string s ≠ .string t := fun h => hs (Canonical.string.inj h)
        rw [if_neg (by simpa using Ne.symm hs), if_neg hne]
  | mirror d => rw [if_neg nofun, canonical?, canonical?]

/-- A record is changed. -/
theorem canonical?_modify (d : Descriptor) (f : RuntimeClass → RuntimeClass)
    (h : k ≠ .mirror d ∨ ∀ c, (f c).mirror = c.mirror) :
    (m.withClasses (m.classes.modify d f)).canonical? k = m.canonical? k := by
  cases k with
  | string t => rfl
  | mirror e =>
      rw [canonical?, canonical?, withClasses_classes, ClassTable.getElem?_modify]
      by_cases he : d = e
      · subst he
        have hf := h.resolve_left fun hne => hne rfl
        rw [if_pos rfl]
        cases m.classes[d]? with
        | none => rfl
        | some c => exact congrArg (Option.map Value.ref) (hf c)
      · rw [if_neg he]

end Changes

instance (k : Canonical) : (MachineRel.keeps k).Lenient where
  same _ hclasses hinterned v hv := by rwa [canonical?_congr hclasses hinterned]
  insert m c hnew v hv := by
    cases k with
    | string t => exact hv
    | mirror d =>
        rw [canonical?] at hv
        rw [canonical?, withClasses_classes, ClassTable.getElem?_insert]
        by_cases hd : c.descriptor = d
        · rw [← hd, hnew] at hv
          contradiction
        · rwa [if_neg hd]
  modify m d f hf v hv := by rwa [canonical?_modify d f (.inr hf)]
  string t w h hnew v hv := by
    rw [canonical?_setInterned]
    by_cases hk : k = .string t
    · subst hk
      rw [canonical?, hnew] at hv
      contradiction
    · rw [if_neg hk]
      exact h v hv
  mirror {m m' d c} r h hc hnew v hv := by
    by_cases hk : k = .mirror d
    · subst hk
      rw [canonical?, hc, Option.bind_some, hnew] at hv
      contradiction
    · rw [canonical?_modify d _ (.inl hk)]
      exact h v hv

instance (k : Canonical) : (MachineRel.keeps k).FreesFrames where
  frames _ _ _ hv := hv

/-- An evaluation of what is to be one object gives a value, from a state of the engine to
another. -/
inductive Evaluates : Canonical → Machine → Value → Machine → Prop
  /-- The canonical string of a text. -/
  | text {host : Host} {steps nesting : Nat} {t : Text} {v : Value} {m m' : Machine}
      (h : internText t (Session.context host steps nesting) m = .ok v m') :
      Evaluates (.string t) m v m'
  /-- The canonical one of the strings with the contents of a given one. -/
  | string {host : Host} {steps nesting : Nat} {s v : Value} {t : Text} {m m₁ m' : Machine}
      (ht : hostText s (Session.context host steps nesting) m = .ok t m₁)
      (h : intern s (Session.context host steps nesting) m = .ok v m') :
      Evaluates (.string t) m v m'
  /-- A literal, which is left on the stack. -/
  | literal {host : Host} {steps nesting : Nat} {index a b : UInt16} {file : ClassFile} {t : Text}
      {f : Frame} {callers : List Frame} {v : Value} {rest : List Value} {m m' : Machine}
      (hfile : Reference.currentFile (Session.context host steps nesting) m = .ok file m)
      (hconstant : file.constant index = .ok (.link .string a b))
      (ht : file.stringValue index = .ok t)
      (h : Reference.loadConstant index (Session.context host steps nesting) m = .ok () m')
      (hframes : m'.frames = f :: callers) (hstack : f.stack = v :: rest) :
      Evaluates (.string t) m v m'
  | mirror {host : Host} {steps nesting : Nat} {d : Descriptor} {r : Ref} {m m' : Machine}
      (h : classMirror d (Session.context host steps nesting) m = .ok r m') :
      Evaluates (.mirror d) m (.ref r) m'

section Evaluations

variable {host : Host} {steps nesting : Nat} {k : Canonical} {m m' : Machine} {v w : Value}

/-- What has been given is canonical, and what was canonical has been given. -/
structure Settles (k : Canonical) (m : Machine) (v : Value) (m' : Machine) : Prop where
  canonical : m'.canonical? k = some v
  same : ∀ w, m.canonical? k = some w → v = w

theorem settles_internText {t : Text}
    (h : internText t (Session.context host steps nesting) m = .ok v m') :
    Settles (.string t) m v m' := by
  have hget : (get : Exec Machine) (Session.context host steps nesting) m = .ok m m := rfl
  rw [internText, bind_of_ok hget] at h
  cases ht : m.interned[t]? with
  | some w =>
      rw [ht] at h
      obtain ⟨rfl, rfl⟩ := EStateM.Result.ok.inj h
      exact ⟨ht, fun w hw => Option.some.inj (ht.symm.trans hw)⟩
  | none =>
      rw [ht] at h
      obtain ⟨r, m₁, _, h⟩ := of_bind_ok h
      obtain ⟨rfl, rfl⟩ := EStateM.Result.ok.inj h
      refine ⟨?_, fun w hw => ?_⟩
      · rw [canonical?_setInterned, if_pos rfl]
      · rw [canonical?, ht] at hw
        contradiction

theorem settles_intern {s : Value} {t : Text} {m₁ : Machine}
    (ht : hostText s (Session.context host steps nesting) m = .ok t m₁)
    (h : intern s (Session.context host steps nesting) m = .ok v m') :
    Settles (.string t) m v m' := by
  have hread : Respects (.keeps (.string t)) (Session.context host steps nesting) (hostText s) :=
    respects_hostText s
  have hkept := hread m
  have hget : (get : Exec Machine) (Session.context host steps nesting) m₁ = .ok m₁ m₁ := rfl
  rw [intern, bind_of_ok ht, bind_of_ok hget] at h
  rw [ht] at hkept
  cases hs : m₁.interned[t]? with
  | some w =>
      rw [hs] at h
      obtain ⟨rfl, rfl⟩ := EStateM.Result.ok.inj h
      exact ⟨hs, fun w hw => Option.some.inj (hs.symm.trans (hkept w hw))⟩
  | none =>
      rw [hs] at h
      obtain ⟨rfl, rfl⟩ := EStateM.Result.ok.inj h
      refine ⟨?_, fun w hw => ?_⟩
      · rw [canonical?_setInterned, if_pos rfl]
      · have hw₁ := hkept w hw
        change m₁.interned[t]? = some w at hw₁
        rw [hs] at hw₁
        contradiction

/-- A string literal is the canonical string of its text. -/
theorem loadConstant_literal {ctx : Context} {index a b : UInt16} {file : ClassFile} {t : Text}
    (hfile : Reference.currentFile ctx m = .ok file m)
    (hconstant : file.constant index = .ok (.link .string a b))
    (ht : file.stringValue index = .ok t) :
    Reference.loadConstant index ctx m = (internText t >>= Reference.push) ctx m := by
  have hread : Reference.orMalformed (file.constant index) ctx m = .ok (.link .string a b) m := by
    rw [hconstant]
    rfl
  have htext : Reference.orMalformed (file.stringValue index) ctx m = .ok t m := by
    rw [ht]
    rfl
  rw [Reference.loadConstant, bind_of_ok hfile, bind_of_ok hread]
  exact bind_of_ok htext

theorem settles_literal {index a b : UInt16} {file : ClassFile} {t : Text} {f : Frame}
    {callers : List Frame} {rest : List Value}
    (hfile : Reference.currentFile (Session.context host steps nesting) m = .ok file m)
    (hconstant : file.constant index = .ok (.link .string a b))
    (ht : file.stringValue index = .ok t)
    (h : Reference.loadConstant index (Session.context host steps nesting) m = .ok () m')
    (hframes : m'.frames = f :: callers) (hstack : f.stack = v :: rest) :
    Settles (.string t) m v m' := by
  rw [loadConstant_literal hfile hconstant ht] at h
  obtain ⟨w, m₁, hintern, hpush⟩ := of_bind_ok h
  have hsettles : Settles (.string t) m w m₁ := settles_internText hintern
  have hpushed : Respects (.keeps (.string t)) (Session.context host steps nesting)
      (Reference.push w) := respects_push w
  have hkept := hpushed m₁
  rw [hpush] at hkept
  -- The value that is pushed is the one on top.
  obtain rfl : w = v := by
    rw [Reference.push, onFrame] at hpush
    cases hcallers : m₁.frames with
    | nil =>
        rw [hcallers] at hpush
        contradiction
    | cons g frames =>
        rw [hcallers] at hpush
        obtain ⟨_, rfl⟩ := EStateM.Result.ok.inj hpush
        obtain ⟨rfl, _⟩ := List.cons.inj hframes
        exact (List.cons.inj hstack).1
  exact ⟨hkept w hsettles.canonical, hsettles.same⟩

theorem settles_classMirror {d : Descriptor} {r : Ref}
    (h : classMirror d (Session.context host steps nesting) m = .ok r m') :
    Settles (.mirror d) m (.ref r) m' := by
  obtain ⟨c, m₀, hclass, hrest⟩ := of_bind_ok h
  obtain ⟨rfl, hc⟩ := classAt_ok hclass
  have hmirror : m₀.canonical? (.mirror d) = c.mirror.map Value.ref := by
    rw [canonical?, hc, Option.bind_some]
  cases hr : c.mirror with
  | some r' =>
      rw [hr] at hrest
      obtain ⟨rfl, rfl⟩ := EStateM.Result.ok.inj hrest
      rw [hr] at hmirror
      exact ⟨hmirror, fun w hw => Option.some.inj (hmirror.symm.trans hw)⟩
  | none =>
      rw [hr] at hrest
      obtain ⟨mirrorClass, m₁, hload, hrest⟩ := of_bind_ok hrest
      obtain ⟨name, m₂, hname, hrest⟩ := of_bind_ok hrest
      obtain ⟨r', m₃, hconstruct, hrest⟩ := of_bind_ok hrest
      obtain ⟨_, m₄, hobject, hrest⟩ := of_bind_ok hrest
      obtain ⟨rfl, rfl⟩ := EStateM.Result.ok.inj hrest
      obtain ⟨_, rfl⟩ := EStateM.Result.ok.inj hobject
      -- The record of the class is still there, as it is never dropped.
      have hevolves : m₀.classes.Evolves m₃.classes := by
        have hloaded := (sound_loadClass (P := fun _ => True) _).evolves_of_ok hload
        have hnamed := (safe_newString _).evolves_of_ok hname
        have hconstructed := (sound_construct _ _ _).evolves_of_ok hconstruct
        exact (hloaded.trans (hnamed.trans hconstructed)).classes
      obtain ⟨c', hc', _⟩ := hevolves hc
      refine ⟨?_, fun w hw => ?_⟩
      · rw [canonical?, withClasses_classes, ClassTable.getElem?_modify, if_pos rfl]
        dsimp only
        rw [hc']
        rfl
      · rw [hmirror, hr] at hw
        contradiction

/-- Every evaluation does. -/
theorem Evaluates.settles (h : Evaluates k m v m') : Settles k m v m' := by
  cases h with
  | text h => exact settles_internText h
  | string ht h => exact settles_intern ht h
  | literal hfile hconstant ht h hframes hstack =>
      exact settles_literal hfile hconstant ht h hframes hstack
  | mirror h => exact settles_classMirror h

end Evaluations

/-- What an engine does from a start to an end: requests, calls of methods, initializations of
classes, natives, and instructions, with or without the search for a handler. -/
inductive Operation : {α : Type} → Exec α → Prop
  | request (request : Request) : Operation request.perform
  | call (method : Method) (args : List Value) : Operation (invokeMethod method args)
  | initialization (d : Descriptor) : Operation (initializeClass d)
  | native (method : Method) (locals : Array Value) : Operation (Native.call method locals)
  | execution (byte : UInt8) : Operation (Step.run byte)
  | instruction : Operation Interpreter.advance

theorem Operation.respects {R : MachineRel} [R.Lenient] [R.FreesFrames] {α : Type} {x : Exec α}
    {ctx : Context} [RespectingContext R ctx] (h : Operation x) : Respects R ctx x := by
  cases h with
  | request request =>
      refine respects_perform (fun object _ _ _ h => ?_) fun object _ _ h => ?_
      · subst h
        exact respects_modifyObject object _
      · subst h
        exact respects_modifyObject object _
  | call method args => exact respects_invokeMethod method args
  | initialization d => exact respects_initializeClass d
  | native method locals => exact respects_nativeCall method locals
  | execution byte => exact respects_run byte
  | instruction => exact respects_advance

/-- An engine gets from one state to the next: by a whole operation, however it ends; or by a part
of one, be it at the end of an operation that had begun earlier. An evaluation for the same that had
begun earlier is not over by this. -/
inductive Machine.Proceeds (k : Canonical) (m : Machine) : Machine → Prop
  | operation {host : Host} {steps nesting : Nat} {α : Type} {x : Exec α} (hx : Operation x) :
      Proceeds k m (endOf (x (Session.context host steps nesting) m))
  /-- Frames come and go, objects are made and changed, something is written or recorded. -/
  | aside {m' : Machine} (hclasses : m'.classes = m.classes)
      (hinterned : m'.interned = m.interned) : Proceeds k m m'
  /-- A class comes into the table, or its record changes. -/
  | entered (c : RuntimeClass) (hnew : m.classes[c.descriptor]? = none) :
      Proceeds k m (m.withClasses (m.classes.insert c.descriptor c))
  | changed (d : Descriptor) (f : RuntimeClass → RuntimeClass) (hf : ∀ c, (f c).mirror = c.mirror) :
      Proceeds k m (m.withClasses (m.classes.modify d f))
  /-- An evaluation for something else is over. -/
  | string (t : Text) (v : Value) (hother : k ≠ .string t) :
      Proceeds k m { m with interned := m.interned.insert t v }
  | mirror (d : Descriptor) (r : Ref) (hother : k ≠ .mirror d) :
      Proceeds k m (m.withClasses (m.classes.modify d fun c => { c with mirror := some r }))

section Runs

variable {k : Canonical} {m m' : Machine} {v : Value}

/-- The canonical object stays with each step, -/
theorem Machine.Proceeds.keeps (h : m.Proceeds k m') : (MachineRel.keeps k).rel m m' := by
  cases h with
  | operation hx => exact hx.respects m
  | aside hclasses hinterned =>
      intro v hv
      rwa [canonical?_congr hclasses hinterned]
  | entered c hnew => exact MachineRel.Lenient.insert m c hnew
  | changed d f hf => exact MachineRel.Lenient.modify m d f hf
  | string t v hother =>
      intro w hw
      rwa [canonical?_setInterned, if_neg hother]
  | mirror d r hother =>
      intro w hw
      rwa [canonical?_modify d _ (.inl hother)]

/-- and so with any number of them. -/
theorem keeps_run (h : Relation.ReflTransGen (Machine.Proceeds k) m m') :
    (MachineRel.keeps k).rel m m' := by
  induction h with
  | refl => exact (MachineRel.keeps k).refl m
  | tail _ hstep ih => exact (MachineRel.keeps k).trans ih hstep.keeps

end Runs

section Nested

open Interpreter Initialization

/-- A computation, the nesting level at which it is run, and the engine on which it is run. -/
structure Part (α : Type) where
  level : Nat
  run : Exec α
  start : Machine

/-- A part comes up in the course of a computation that is run at a level on an engine. -/
inductive Performs (host : Host) (steps : Nat) {β : Type} (part : Part β) :
    {α : Type} → Nat → Exec α → Machine → Prop
  | whole : Performs host steps part part.level part.run part.start
  /-- In the first of two computations, or in the second once the first has given a result. -/
  | first {α γ : Type} {n : Nat} {x : Exec α} {f : α → Exec γ} {m : Machine}
      (h : Performs host steps part n x m) : Performs host steps part n (x >>= f) m
  | next {α γ : Type} {n : Nat} {x : Exec α} {f : α → Exec γ} {m m' : Machine} {a : α}
      (hx : x (Session.context host steps n) m = .ok a m')
      (h : Performs host steps part n (f a) m') : Performs host steps part n (x >>= f) m
  /-- In the method that is called, or in the class that is initialized. -/
  | call {n : Nat} {method : Method} {args : List Value} {m : Machine}
      (h : Performs host steps part n (Interpreter.invoke method args) m) :
      Performs host steps part (n + 1) (invokeMethod method args) m
  | initialization {n : Nat} {d : Descriptor} {m : Machine}
      (h : Performs host steps part n (initializeOnce d) m) :
      Performs host steps part (n + 1) (initializeClass d) m
  /-- In an activation, once its frame is there. -/
  | activation {α : Type} {n : Nat} {f : Frame} {x : Exec α} {m : Machine}
      (h : Performs host steps part n x { m with frames := f :: m.frames }) :
      Performs host steps part n (withFrame f x) m
  | overflow {α : Type} {n : Nat} {m : Machine}
      (h : Performs host steps part n
        (Allocation.throwNew "java/lang/StackOverflowError" "" : Exec α)
        { m with handlingOverflow := true }) :
      Performs host steps part n (stackOverflow : Exec α) m
  /-- In one of the instructions of a body. -/
  | body {n : Nat} {m : Machine} (h : Performs host steps part n (loop steps) m) :
      Performs host steps part n execute m
  | here {n fuel : Nat} {m : Machine} (h : Performs host steps part n advance m) :
      Performs host steps part n (loop (fuel + 1)) m
  | later {n fuel : Nat} {m m' : Machine}
      (hstep : advance (Session.context host steps n) m = .ok .next m')
      (h : Performs host steps part n (loop fuel) m') :
      Performs host steps part n (loop (fuel + 1)) m
  | instruction {n : Nat} {byte : UInt8} {m m' : Machine}
      (hfetch : fetch (Session.context host steps n) m = .ok byte m')
      (h : Performs host steps part n (Step.run byte) m') : Performs host steps part n advance m
  /-- In the search for a handler of what an instruction has thrown. -/
  | handling {n : Nat} {byte : UInt8} {r : Ref} {m m₁ m₂ : Machine}
      (hfetch : fetch (Session.context host steps n) m = .ok byte m₁)
      (hstep : Step.run byte (Session.context host steps n) m₁ = .error (.thrown r) m₂)
      (h : Performs host steps part n (dispatch r) (m₂.note (.arrived r m₂.frames))) :
      Performs host steps part n advance m
  | search {n : Nat} {r : Ref} {o : Object} {f : Frame} {callers : List Frame} {m : Machine}
      (hframes : m.frames = f :: callers) (hobject : m.heap[r.number - 1]? = some o)
      (h : Performs host steps part n
        (findHandler f.opPc o.type (f.method.code.elim [] Code.handlers)) m) :
      Performs host steps part n (dispatch r) m
  /-- In the initializers of a class and its superclasses. -/
  | initializers {n : Nat} {d : Descriptor} {c : RuntimeClass} {m : Machine}
      (hc : m.classes[d]? = some c) (hstate : c.state = .linking ∨ c.state = .linked)
      (h : Performs host steps part n (runInitializers d c)
        (m.withClasses (m.classes.moved d .initializing))) :
      Performs host steps part n (initializeOnce d) m
  /-- In the linking of the superclass of a class. -/
  | superclass {n fuel : Nat} {d : Descriptor} {c : RuntimeClass} {m m₁ : Machine}
      (hd : m.classes[d]? = none) (hc : define host d = .ok c)
      (henter : enter d c (Session.context host steps n) m = .ok () m₁) (hname : c.superName ≠ [])
      (h : Performs host steps part n (linkWithin fuel (Descriptor.ofInternal c.superName)) m₁) :
      Performs host steps part n (linkWithin (fuel + 1) d) m

/-- What comes up in the body of a method comes up in a call of it. -/
theorem Performs.of_body {β : Type} {host : Host} {steps n : Nat} {part : Part β} {method : Method}
    {args : List Value} {locals : Array Value} {m m₁ : Machine}
    (habstract : method.flags.isAbstract = false)
    (hlimit : atLimit (Session.context host steps n) m = .ok false m)
    (hlocals : layoutLocals method args = some locals) (hnative : method.isNative = false)
    (hcode : (method.code.elim 0 fun c => c.bytecode.size) ≠ 0)
    (hprofile : profile method (Session.context host steps n)
      { m with frames := Frame.enter method locals m.frames :: m.frames } = .ok () m₁)
    (h : Performs host steps part n Interpreter.execute m₁) :
    Performs host steps part (n + 1) (invokeMethod method args) m := by
  refine .call ?_
  rw [Interpreter.invoke, habstract, if_neg (by simp)]
  refine .next hlimit ?_
  rw [if_neg (by simp), activate, hlocals]
  refine .next (a := m) rfl (.activation (.next hprofile ?_))
  rw [hnative, if_neg (by simp), if_neg hcode]
  exact h

/-- A class of strings whose initializer evaluates a string literal, and whose constructor does
nothing. -/
def echoFile : ClassFile where
  minor := 0
  major := 52
  pool := #[.blank, .utf8 "a", .link .string 1 0]
  flags := ⟨0x21⟩
  name := "java/lang/String"
  superName := "java/lang/Object"
  interfaces := []
  fields := []
  methods := [⟨"<clinit>", "()V", ⟨8⟩, some ⟨1, 0, #[0x12, 0x02, 0xB1], [], []⟩, []⟩,
    ⟨"<init>", "([B)V", ⟨1⟩, some ⟨0, 2, #[0xB1], [], []⟩, []⟩]
  sourceFile := []

/-- A host with a root class and this class of strings. -/
def echoHost : Host where
  provider := some fun name =>
    if name = "java/lang/Object" then .ok objectFile
    else if name = "java/lang/String" then .ok echoFile
    else .error "not found"
  currentTimeMillis := 0
  nanoTime := 0

def echoInit : Method :=
  ⟨Descriptor.string, "java/lang/String", "<clinit>", "()V", ⟨8⟩,
    some ⟨1, 0, #[0x12, 0x02, 0xB1], [], []⟩, ⟨[], "V", "()V"⟩, echoFile⟩

def echoConstructor : Method :=
  ⟨Descriptor.string, "java/lang/String", "<init>", "([B)V", ⟨1⟩, some ⟨0, 2, #[0xB1], [], []⟩,
    ⟨["[B"], "V", "([B)V"⟩, echoFile⟩

/-- The record of the class as it is defined. -/
def echoClass : RuntimeClass :=
  { RuntimeClass.bare Descriptor.string with
    superName := "java/lang/Object"
    flags := ⟨0x21⟩
    file := some echoFile
    methods := [echoInit, echoConstructor] }

theorem define_echo : define echoHost Descriptor.string = .ok echoClass := rfl

theorem ofInternal_string : Descriptor.ofInternal "java/lang/String" = Descriptor.string := by
  decide

theorem define_echo_object : define echoHost Descriptor.object = .ok objectClass := rfl

variable {ctx : Context} {m : Machine} {steps nesting : Nat}

/-- The constructor leaves everything as it is. -/
theorem echoConstructor_runs (hprofiler : m.profiler = none)
    (hlimit : ((depthOf m.frames + 1 : Nat) : Int) ≤ m.maxDepth) (r b : Ref) :
    ∃ history moments, invokeMethod echoConstructor [.ref r, .ref b]
      (Session.context echoHost (steps + 1) (nesting + 1)) m =
        .ok .null { m with history, moments } := by
  let ctx := Session.context echoHost (steps + 1) nesting
  have hlocals : layoutLocals echoConstructor [.ref r, .ref b] = some #[.ref r, .ref b] := by
    rw [layoutLocals, show echoConstructor.isStatic = false by decide]
    rfl
  let entered : Machine :=
    { m with frames := Frame.enter echoConstructor #[.ref r, .ref b] m.frames :: m.frames }
  have hfetch : fetch ctx entered = .ok 0xB1 (endOf (fetch ctx entered)) := rfl
  have hop : Opcode.ofByte? 0xB1 = some .returnVoid := by decide +kernel
  have hrun : Step.run 0xB1 ctx (endOf (fetch ctx entered)) =
      .ok (.result .null) (endOf (fetch ctx entered)) := by
    unfold Step.run
    rw [hop]
    rfl
  have hreturn : advance ctx entered = .ok (.result .null) (endOf (fetch ctx entered)) := by
    rw [advance, bind_of_ok hfetch, attempt_bind_ok hrun]
    rfl
  have hfuel : 0 < ctx.fuel := by
    rw [context_fuel]
    omega
  have hprofile : profile echoConstructor ctx entered = .ok () entered := profile_off hprofiler
  have hbody : runBody echoConstructor #[.ref r, .ref b] ctx entered =
      .ok .null (endOf (fetch ctx entered)) := by
    rw [runBody_of_code (by decide) (by decide) hprofile]
    exact execute_returns (.refl entered) hfuel hreturn
  have hinvoke := invokeMethod_of_body (by decide) hlimit hlocals hbody
  exact ⟨_, _, hinvoke⟩

/-- A record of the class of strings that may be used. -/
structure RuntimeClass.IsEcho (c : RuntimeClass) : Prop where
  defined : c.DefinedBy echoClass
  superclass : c.superclass = some Descriptor.object
  ready : c.state = .initializing ∨ c.state = .initialized

/-- The class of strings may be used, and there is room for one more call. -/
structure Machine.Echoes (m : Machine) (c : RuntimeClass) : Prop where
  object : ∃ c, m.classes[Descriptor.object]? = some c ∧ c.superclass = none
  string : m.classes[Descriptor.string]? = some c
  isEcho : c.IsEcho
  profiler : m.profiler = none
  room : ((depthOf m.frames + 1 : Nat) : Int) ≤ m.maxDepth

theorem construct_echo {c : RuntimeClass} (h : m.Echoes c) (b : Ref) :
    ∃ slots history moments, construct c "([B)V" [.ref b]
        (Session.context echoHost (steps + 2) (nesting + 1)) m =
      .ok ⟨m.heap.size + 1⟩ { m with
        heap := m.heap.push { Object.empty Descriptor.string with fields := slots }
        history, moments } := by
  let ctx := Session.context echoHost (steps + 2) (nesting + 1)
  obtain ⟨o, ho, hosuper⟩ := h.object
  have hdescriptor : c.descriptor = Descriptor.string := by
    rw [h.isEcho.defined]
    rfl
  have hmethod : c.declaredMethod? MemberRef.constructorName "([B)V" = some echoConstructor := by
    rw [h.isEcho.defined]
    rfl
  have hlength : [Descriptor.string, Descriptor.object].length ≤ steps + 2 := by simp
  obtain ⟨records, hancestry, _⟩ : ∃ records, ancestryWithin (steps + 2) Descriptor.string ctx m =
      .ok records m ∧ _ :=
    ancestryWithin_of_ancestry (.super h.string h.isEcho.superclass (.root ho hosuper)) hlength
  obtain ⟨slots, hinstance⟩ := instanceOfChain_eq Descriptor.string records
  let m₁ : Machine := Machine.markAccess (.made ⟨m.heap.size + 1⟩ Descriptor.string) { m with
    heap := m.heap.push { Object.empty Descriptor.string with fields := slots } }
  have hcontext : (read : Exec Context) ctx m = .ok ctx m := rfl
  have hnew : newObject c.descriptor ctx m = .ok ⟨m.heap.size + 1⟩ m₁ := by
    have hchain : ancestry Descriptor.string ctx m = .ok records m := by
      rw [ancestry, bind_of_ok hcontext, context_fuel, hancestry]
    rw [hdescriptor, newObject_of_ancestry hchain, hinstance]
  have hprofiler : m₁.profiler = none := h.profiler
  have hroom : ((depthOf m₁.frames + 1 : Nat) : Int) ≤ m₁.maxDepth := h.room
  obtain ⟨history, moments, hinvoke⟩ : ∃ history moments, invokeMethod echoConstructor
      [.ref ⟨m.heap.size + 1⟩, .ref b] ctx m₁ = .ok .null { m₁ with history, moments } :=
    echoConstructor_runs hprofiler hroom _ _
  refine ⟨slots, history, moments, ?_⟩
  rw [construct, hmethod]
  dsimp only
  rw [bind_of_ok hnew, bind_of_ok hinvoke]
  rfl

/-- The array that is made for the bytes of a string. -/
def byteArray (k : RuntimeClass) (t : Text) : Object :=
  .array k.descriptor ((t.map fun b => Value.int b.toInt8.toInt32).map
    (Value.coerce Descriptor.byte)).toArray

theorem newArrayOf_bytes {k : RuntimeClass} {m₁ : Machine} (t : Text)
    (hbytes : classFor "[B" ctx m = .ok k m₁) :
    newArrayOf Descriptor.byte (t.map fun b => .int b.toInt8.toInt32) ctx m =
      .ok ⟨m₁.heap.size + 1⟩ { m₁ with heap := m₁.heap.push (byteArray k t) } := by
  have hclass : classFor (Descriptor.arrayOf Descriptor.byte) ctx m = .ok k m₁ := hbytes
  rw [newArrayOf, bind_of_ok hclass]
  rfl

/-- Two objects are made for a string: the array of its bytes, once the class of that is there, and
the string itself, once the class of strings is. -/
theorem newString_echo {t : Text} {k c : RuntimeClass} {m₁ m₂ : Machine}
    (hbytes : classFor "[B" (Session.context echoHost (steps + 2) (nesting + 1)) m = .ok k m₁)
    (hload : loadClass "java/lang/String" (Session.context echoHost (steps + 2) (nesting + 1))
      { m₁ with heap := m₁.heap.push (byteArray k t) } = .ok c m₂) (h : m₂.Echoes c) :
    ∃ slots history moments, newString t (Session.context echoHost (steps + 2) (nesting + 1)) m =
      .ok ⟨m₂.heap.size + 1⟩ { m₂ with
        heap := m₂.heap.push { Object.empty Descriptor.string with fields := slots }
        history, moments } := by
  rw [newString, bind_of_ok (newArrayOf_bytes t hbytes), bind_of_ok hload]
  exact construct_echo h _

/-- A string is made, and becomes the canonical one. -/
theorem internText_of_newString {t : Text} {r : Ref} {m' : Machine} (hnone : m.interned[t]? = none)
    (hstring : newString t ctx m = .ok r m') : internText t ctx m =
      .ok (.ref r) { m' with interned := m'.interned.insert t (.ref r) } := by
  have hget : (get : Exec Machine) ctx m = .ok m m := rfl
  rw [internText, bind_of_ok hget, hnone]
  exact bind_of_ok hstring

theorem internText_again {t : Text} {v : Value} (h : m.interned[t]? = some v) :
    internText t ctx m = .ok v m := by
  have hget : (get : Exec Machine) ctx m = .ok m m := rfl
  rw [internText, bind_of_ok hget, h]
  rfl

/-- A string is made for a text that is evaluated for the first time. -/
theorem internText_echo {t : Text} {k c : RuntimeClass} (h : m.Echoes c)
    (hk : m.classes[("[B" : Text)]? = some k) (hkstate : k.state = .initialized)
    (hnone : m.interned[t]? = none) :
    ∃ r heap history moments, internText t (Session.context echoHost (steps + 2) (nesting + 1)) m =
        .ok (.ref r) { m with
          heap, history, moments
          interned := m.interned.insert t (.ref r) } ∧
      r.number = heap.size := by
  let ctx := Session.context echoHost (steps + 2) (nesting + 1)
  let grown : Machine := { m with heap := m.heap.push (byteArray k t) }
  have hgrown : grown.Echoes c := ⟨h.object, h.string, h.isEcho, h.profiler, h.room⟩
  have hbytes : classFor "[B" ctx m = .ok k m :=
    classFor_initialized echoHost (steps + 1) nesting hk hkstate
  have hload : loadClass "java/lang/String" ctx grown = .ok c grown := by
    rw [loadClass, ofInternal_string]
    exact classFor_ready echoHost (steps + 1) nesting h.string h.isEcho.ready
  obtain ⟨slots, history, moments, hstring⟩ := newString_echo hbytes hload hgrown
  exact ⟨⟨grown.heap.size + 1⟩, _, history, moments, internText_of_newString hnone hstring,
    (Array.size_push _).symm⟩

/-- The initializer evaluates its literal, and a string is made for it. -/
theorem echoInit_runs {k c : RuntimeClass} (h : m.Echoes c)
    (hk : m.classes[("[B" : Text)]? = some k) (hkstate : k.state = .initialized)
    (hnone : m.interned[("a" : Text)]? = none)
    (hroom : ((depthOf m.frames + 2 : Nat) : Int) ≤ m.maxDepth) :
    ∃ m₁ m₂ r heap history moments,
      Performs echoHost (steps + 2) ⟨nesting + 1, internText "a", m₁⟩ (nesting + 2)
        (invokeMethod echoInit []) m ∧
      internText "a" (Session.context echoHost (steps + 2) (nesting + 1)) m₁ = .ok (.ref r) m₂ ∧
      invokeMethod echoInit [] (Session.context echoHost (steps + 2) (nesting + 2)) m =
        .ok .null { m with
          heap, history, moments
          interned := m.interned.insert "a" (.ref r) } ∧
      r.number = heap.size := by
  let ctx := Session.context echoHost (steps + 2) (nesting + 1)
  have hlocals : layoutLocals echoInit [] = some #[] := by
    rw [layoutLocals, show echoInit.isStatic = true by decide]
    rfl
  let entered : Machine := { m with frames := Frame.enter echoInit #[] m.frames :: m.frames }
  let noted : Machine := entered.note (.executing Descriptor.string)
  let fetched : Machine := { noted with
    frames := { Frame.enter echoInit #[] m.frames with pc := 1 } :: m.frames }
  let f : Frame := { Frame.enter echoInit #[] m.frames with pc := 2 }
  let m₁ : Machine := { noted with frames := f :: m.frames }
  have hfetch : fetch ctx entered = .ok 0x12 fetched := rfl
  have hindex : onFrame FrameM.u1 ctx fetched = .ok 0x02 m₁ := rfl
  have hfile : Reference.currentFile ctx m₁ = .ok echoFile m₁ := rfl
  have hconstant : echoFile.constant 2 = .ok (.link .string 1 0) := rfl
  have htext : echoFile.stringValue 2 = .ok "a" := rfl
  have hread : Reference.orMalformed (echoFile.constant 2) ctx m₁ = .ok (.link .string 1 0) m₁ :=
    rfl
  have hvalue : Reference.orMalformed (echoFile.stringValue 2) ctx m₁ = .ok "a" m₁ := rfl
  have hop : Opcode.ofByte? 0x12 = some .ldc := by decide +kernel
  have hechoes : m₁.Echoes c := ⟨h.object, h.string, h.isEcho, h.profiler, hroom⟩
  obtain ⟨r, heap, history, moments, hintern, hr⟩ : ∃ r heap history moments,
      internText "a" ctx m₁ = .ok (.ref r) { m₁ with
        heap, history, moments
        interned := m₁.interned.insert "a" (.ref r) } ∧
      r.number = heap.size :=
    internText_echo hechoes hk hkstate hnone
  let v : Value := .ref r
  let m₃ : Machine := { m₁ with
    heap, history, moments
    interned := m₁.interned.insert "a" v }
  let m₄ : Machine := { m₃ with frames := { f with stack := [v] } :: m.frames }
  have hpush : Reference.push v ctx m₃ = .ok () m₄ := rfl
  have hload : Reference.loadConstant 2 ctx m₁ = .ok () m₄ := by
    rw [loadConstant_literal hfile hconstant htext, bind_of_ok hintern]
    exact hpush
  have hliteral : Step.run 0x12 ctx fetched = .ok .next m₄ := by
    unfold Step.run
    rw [hop]
    exact bind_of_ok ((bind_of_ok hindex).trans hload)
  have hfirst : advance ctx entered = .ok .next m₄ := by
    rw [advance, bind_of_ok hfetch, attempt_bind_ok hliteral]
    rfl
  let m₅ : Machine := endOf (fetch ctx m₄)
  have hsecond : advance ctx m₄ = .ok (.result .null) m₅ := by
    have hfetch' : fetch ctx m₄ = .ok 0xB1 m₅ := rfl
    have hop' : Opcode.ofByte? 0xB1 = some .returnVoid := by decide +kernel
    have hreturn : Step.run 0xB1 ctx m₅ = .ok (.result .null) m₅ := by
      unfold Step.run
      rw [hop']
      rfl
    rw [advance, bind_of_ok hfetch', attempt_bind_ok hreturn]
    rfl
  have hfuel : 1 < ctx.fuel := by
    rw [context_fuel]
    omega
  have hprofile : profile echoInit ctx entered = .ok () entered := profile_off h.profiler
  have hbody : runBody echoInit #[] ctx entered = .ok .null m₅ := by
    rw [runBody_of_code (by decide) (by decide) hprofile]
    exact execute_returns (.step hfirst (.refl m₄)) hfuel hsecond
  have hrun := invokeMethod_of_body (by decide) h.room hlocals hbody
  refine ⟨m₁, m₃, r, heap, _, _, ?_, hintern, hrun, hr⟩
  have hlimit : atLimit ctx m = .ok false m := by
    rw [atLimit_eq, decide_eq_false (Int.not_lt.mpr h.room)]
    rfl
  refine .of_body (by decide) hlimit hlocals (by decide) (by decide) hprofile ?_
  refine .body (.here (.instruction hfetch ?_))
  unfold Step.run
  rw [hop]
  exact .first (.next hindex (.next hfile (.next hread (.next hvalue (.first .whole)))))

/-- The initialization of the class of strings evaluates a literal on the way. -/
theorem echo_initialization {k c : RuntimeClass} {statics : Ref}
    (ho : ∃ c, m.classes[Descriptor.object]? = some c ∧ c.superclass = none ∧
      c.state = .initialized)
    (hk : m.classes[("[B" : Text)]? = some k) (hkstate : k.state = .initialized)
    (hc : m.classes[Descriptor.string]? = some c) (hdefined : c.DefinedBy echoClass)
    (hstatics : c.statics = some statics) (hsuper : c.superclass = some Descriptor.object)
    (hstate : c.state = .linked) (hnone : m.interned[("a" : Text)]? = none)
    (hframes : m.frames = []) (hprofiler : m.profiler = none) (hlimit : 2 ≤ m.maxDepth) :
    ∃ m₁ m₂ r heap history moments,
      Performs echoHost 9 ⟨7, internText "a", m₁⟩ 9 (initializeClass Descriptor.string) m ∧
      internText "a" (Session.context echoHost 9 7) m₁ = .ok (.ref r) m₂ ∧
      initializeClass Descriptor.string (Session.context echoHost 9 9) m = .ok () { m with
        classes := (m.classes.moved Descriptor.string .initializing).moved Descriptor.string
          .initialized
        heap, history, moments
        interned := m.interned.insert "a" (.ref r) } ∧
      r.number = heap.size := by
  let ctx := Session.context echoHost 9 8
  let moved : Machine := m.withClasses (m.classes.moved Descriptor.string .initializing)
  let started : Machine := moved.note (.initializer Descriptor.string)
  have hkept : ∀ d, d ≠ Descriptor.string → moved.classes[d]? = m.classes[d]? := fun d hd => by
    exact ClassTable.getElem?_modify_of_ne hd _
  obtain ⟨o, ho, hosuper, hostate⟩ := ho
  have ho' : moved.classes[Descriptor.object]? = some o := by
    rw [hkept _ (by decide), ho]
  have hk' : started.classes[("[B" : Text)]? = some k := (hkept _ (by decide)).trans hk
  have hechoes : started.Echoes { c with state := .initializing } := by
    refine ⟨⟨o, ho', hosuper⟩, ClassTable.moved_self hc _, ⟨?_, hsuper, .inl rfl⟩, hprofiler, ?_⟩
    · rw [RuntimeClass.DefinedBy, hdefined]
    · change ((depthOf m.frames + 1 : Nat) : Int) ≤ m.maxDepth
      rw [hframes]
      exact Int.le_trans (by decide) hlimit
  have hroom : ((depthOf started.frames + 2 : Nat) : Int) ≤ started.maxDepth := by
    change ((depthOf m.frames + 2 : Nat) : Int) ≤ m.maxDepth
    rw [hframes]
    exact hlimit
  obtain ⟨m₁, m₂, r, heap, history, moments, hperforms, hintern, hinvoke, hr⟩ :
      ∃ m₁ m₂ r heap history moments,
        Performs echoHost 9 ⟨7, internText "a", m₁⟩ 8 (invokeMethod echoInit []) started ∧
        internText "a" (Session.context echoHost 9 7) m₁ = .ok (.ref r) m₂ ∧
        invokeMethod echoInit [] ctx started = .ok .null { started with
          heap, history, moments
          interned := started.interned.insert "a" (.ref r) } ∧
        r.number = heap.size :=
    echoInit_runs hechoes hk' hkstate hnone hroom
  have hup : initializeSuper c ctx moved = .ok () moved := by
    rw [initializeSuper, hsuper]
    exact initializeOnce_ready ho' (.inr hostate)
  have hfile : c.file = some echoFile := by
    rw [hdefined]
    rfl
  have hmethod : c.declaredMethod? "<clinit>" "()V" = some echoInit := by
    rw [hdefined]
    rfl
  have hconstants : applyConstants c.name statics echoFile echoFile.fields ctx moved =
      .ok () moved := rfl
  have hnote : note (.initializer Descriptor.string) ctx moved = .ok () started := rfl
  have hinit : runInitializers Descriptor.string c ctx moved = .ok () { started with
      heap, history, moments
      interned := started.interned.insert "a" (.ref r) } := by
    rw [runInitializers, bind_of_ok hup, hfile, hstatics]
    dsimp only
    rw [bind_of_ok hconstants, runInitializer, hmethod]
    dsimp only
    rw [bind_of_ok hnote, bind_of_ok hinvoke]
    rfl
  have hends := initializeOnce_ends hc (.inr hstate) hinit
  refine ⟨m₁, m₂, r, heap, _, moments, ?_, hintern, hends, hr⟩
  refine .initialization (.initializers hc (.inr hstate) (.next hup ?_))
  rw [hfile, hstatics]
  refine .next hconstants ?_
  rw [runInitializer, hmethod]
  exact .next hnote (.first hperforms)

/-- The class of strings is linked to the root class. -/
theorem echo_links {o : RuntimeClass} (ho : m.classes[Descriptor.object]? = some o)
    (hostate : o.state = .initialized) (hnone : m.classes[Descriptor.string]? = none) :
    ∃ c statics m', link Descriptor.string (Session.context echoHost 9 9) m = .ok () m' ∧
      m'.classes[Descriptor.string]? = some c ∧ c.DefinedBy echoClass ∧ c.statics = some statics ∧
      c.superclass = some Descriptor.object ∧ c.state = .linked ∧
      (∀ d, d ≠ Descriptor.string → m'.classes[d]? = m.classes[d]?) ∧
      ({ m with heap := m'.heap } : Machine).ChangesClasses m' := by
  let ctx := Session.context echoHost 9 9
  let c : RuntimeClass := { echoClass with statics := some ⟨m.heap.size + 1⟩ }
  let m₁ : Machine := Machine.withClasses
    { m with heap := m.heap.push (staticStorage Descriptor.string echoFile) }
    (m.classes.insert Descriptor.string c)
  have henter : enter Descriptor.string echoClass ctx m = .ok () m₁ := by
    rw [enter_of_file rfl]
    rfl
  have hkept : ∀ d, d ≠ Descriptor.string → m₁.classes[d]? = m.classes[d]? := fun d hd => by
    rw [withClasses_classes, ClassTable.getElem?_insert, if_neg hd.symm]
  have habove : Descriptor.ofInternal echoClass.superName = Descriptor.object := ofInternal_object
  have hsuper : m₁.classes[Descriptor.ofInternal echoClass.superName]? = some o := by
    rw [habove, hkept _ (by decide), ho]
  have hlink := link_new hnone define_echo henter fun _ => ⟨o, hsuper, by rw [hostate]; trivial⟩
  rw [habove, if_neg nofun] at hlink
  refine ⟨{ c with superclass := some Descriptor.object, state := .linked }, _, _, hlink, ?_, rfl,
    rfl, rfl, rfl, fun d hd => ?_, rfl⟩
  · rw [withClasses_classes, ClassTable.getElem?_modify, if_pos rfl, withClasses_classes,
      ClassTable.getElem?_insert, if_pos rfl]
    rfl
  · rw [withClasses_classes, ClassTable.getElem?_modify_of_ne hd, hkept d hd]

/-- The class of strings is loaded, and its initializer evaluates a literal. -/
theorem echo_loads {o k : RuntimeClass} (ho : m.classes[Descriptor.object]? = some o)
    (hosuper : o.superclass = none) (hostate : o.state = .initialized)
    (hk : m.classes[("[B" : Text)]? = some k) (hkstate : k.state = .initialized)
    (hnone : m.classes[Descriptor.string]? = none) (hinterned : m.interned[("a" : Text)]? = none)
    (hframes : m.frames = []) (hprofiler : m.profiler = none) (hlimit : 2 ≤ m.maxDepth) :
    ∃ m₁ m₂ r c m',
      Performs echoHost 9 ⟨7, internText "a", m₁⟩ 9 (loadClass "java/lang/String") m ∧
      internText "a" (Session.context echoHost 9 7) m₁ = .ok (.ref r) m₂ ∧
      loadClass "java/lang/String" (Session.context echoHost 9 9) m = .ok c m' ∧
      m'.Echoes c ∧ r.number = m'.heap.size := by
  let ctx := Session.context echoHost 9 9
  obtain ⟨c, statics, m₁, hlink, hc, hdefined, hstatics, hsuper, hstate, hkept, hrest⟩ :=
    echo_links ho hostate hnone
  have ho₁ : m₁.classes[Descriptor.object]? = some o := by
    rw [hkept _ (by decide), ho]
  have hk₁ : m₁.classes[("[B" : Text)]? = some k := by
    rw [hkept _ (by decide), hk]
  have hsame : m₁.interned = m.interned ∧ m₁.frames = m.frames ∧ m₁.profiler = m.profiler ∧
      m₁.maxDepth = m.maxDepth := by
    rw [hrest]
    exact ⟨rfl, rfl, rfl, rfl⟩
  obtain ⟨hinterned₁, hframes₁, hprofiler₁, hlimit₁⟩ := hsame
  rw [← hinterned₁] at hinterned
  rw [← hframes₁] at hframes
  rw [← hprofiler₁] at hprofiler
  rw [← hlimit₁] at hlimit
  obtain ⟨m₂, m₃, r, heap, history, moments, hperforms, hintern, hinit, hr⟩ :=
    echo_initialization ⟨o, ho₁, hosuper, hostate⟩ hk₁ hkstate hc hdefined hstatics hsuper hstate
      hinterned hframes hprofiler hlimit
  let t := (m₁.classes.moved Descriptor.string .initializing).moved Descriptor.string .initialized
  let m' : Machine := { m₁ with
    classes := t, heap, history, moments
    interned := m₁.interned.insert "a" (.ref r) }
  let c' : RuntimeClass := { c with state := .initialized }
  have hc' : m'.classes[Descriptor.string]? = some c' :=
    ClassTable.moved_self (ClassTable.moved_self hc .initializing) .initialized
  have hroot : ∀ (t : ClassTable) state,
      (t.moved Descriptor.string state)[Descriptor.object]? = t[Descriptor.object]? := by
    intro t state
    exact ClassTable.getElem?_modify_of_ne (by decide) _
  have ho' : m'.classes[Descriptor.object]? = some o := by
    change t[Descriptor.object]? = some o
    rw [hroot, hroot, ho₁]
  have hdefined' : c'.DefinedBy echoClass := by
    change RuntimeClass.DefinedBy { c with state := .initialized } echoClass
    rw [RuntimeClass.DefinedBy, hdefined]
  have hroom : ((depthOf m'.frames + 1 : Nat) : Int) ≤ m'.maxDepth := by
    change ((depthOf m₁.frames + 1 : Nat) : Int) ≤ m₁.maxDepth
    rw [hframes]
    exact Int.le_trans (by decide) hlimit
  have hechoes : m'.Echoes c' :=
    ⟨⟨o, ho', hosuper⟩, hc', ⟨hdefined', hsuper, .inr rfl⟩, hprofiler, hroom⟩
  refine ⟨m₂, m₃, r, c', m', ?_, hintern, ?_, hechoes, hr⟩
  · rw [loadClass, ofInternal_string]
    exact .next hlink (.first hperforms)
  · rw [loadClass, ofInternal_string, classFor, bind_of_ok hlink, bind_of_ok hinit]
    exact classAt_eq_ok hc'

/-- An evaluation, in the course of which another one for the same comes to its end, gives a
different object. -/
theorem echo_nested : ∃ m m₁ m₂ m' r r',
    Used echoHost (fun _ _ => True) m ∧
      Performs echoHost 9 ⟨7, internText "a", m₁⟩ 9 (internText "a") m ∧
      internText "a" (Session.context echoHost 9 7) m₁ = .ok (.ref r) m₂ ∧
      internText "a" (Session.context echoHost 9 9) m = .ok (.ref r') m' ∧
      m'.interned[("a" : Text)]? = some (.ref r') ∧ r' ≠ r := by
  obtain ⟨m, hused, hobject, hnone, hfresh⟩ := used_of_first (fun _ _ => True) ofInternal_object
    define_echo_object rfl rfl objectClass_isQuiet trivial
  obtain ⟨k, m₀, hbytes, hk, hkstate, hk₀, hrest, hkept⟩ := classFor_array echoHost "[B"
    ⟨_, hobject, rfl⟩ (hnone "[B" (by decide)) rfl rfl 7 7
  have hsame : m.interned = ∅ ∧ m.frames = [] ∧ m.profiler = none ∧
      m.maxDepth = Session.defaultDepth := by
    rw [hfresh]
    exact ⟨rfl, rfl, rfl, rfl⟩
  obtain ⟨hinterned, hframes, hprofiler, hlimit⟩ := hsame
  have hnone₁ : m.interned[("a" : Text)]? = none := by
    rw [hinterned]
    exact Std.HashMap.getElem?_empty
  let m₁ : Machine := { m₀ with heap := m₀.heap.push (byteArray k "a") }
  have hobject₁ : m₁.classes[Descriptor.object]? = _ :=
    (hkept _ (by decide)).trans hobject
  have hstring₁ : m₁.classes[Descriptor.string]? = none :=
    (hkept _ (by decide)).trans (hnone _ (by decide))
  have hsame₁ : m₁.interned = m.interned ∧ m₁.frames = m.frames ∧ m₁.profiler = m.profiler ∧
      m₁.maxDepth = m.maxDepth := by
    change m₀.interned = _ ∧ m₀.frames = _ ∧ m₀.profiler = _ ∧ m₀.maxDepth = _
    rw [hrest]
    exact ⟨rfl, rfl, rfl, rfl⟩
  obtain ⟨hinterned₁, hframes₁, hprofiler₁, hlimit₁⟩ := hsame₁
  obtain ⟨m₂, m₃, r, c, m₄, hperforms, hintern, hload, hechoes, hr⟩ := echo_loads hobject₁ rfl rfl
    hk₀ hkstate hstring₁ (hinterned₁ ▸ hnone₁) (hframes₁ ▸ hframes) (hprofiler₁ ▸ hprofiler)
    (by rw [hlimit₁, hlimit]; decide)
  obtain ⟨slots, history, moments, hnew⟩ := newString_echo hbytes hload hechoes
  have houter := internText_of_newString hnone₁ hnew
  refine ⟨m, m₂, m₃, _, r, ⟨m₄.heap.size + 1⟩, hused, ?_, hintern, houter, ?_, ?_⟩
  · have hget : (get : Exec Machine) (Session.context echoHost 9 9) m = .ok m m := rfl
    rw [internText]
    refine .next hget ?_
    rw [hnone₁, newString]
    exact .first (.next (newArrayOf_bytes "a" hbytes) (.first hperforms))
  · exact Std.HashMap.getElem?_insert_self
  · intro hsame
    have hnumber : m₄.heap.size + 1 = r.number := congrArg Ref.number hsame
    omega

end Nested

end ClassEngine
