import ClassEngine.Engine.Native.Call
import ClassEngine.Engine.Session
import ClassEngine.Proofs.Engine.Initialization
import ClassEngine.Proofs.Engine.Subtyping

/-!
Relations between the states of an engine that every computation respects, however it ends. A
computation respects a relation if it leads from its start to its end; this follows from what its
parts do, so it is enough to know it of the few primitive changes of a state.
-/

namespace ClassEngine

open Machine Exec Linking Resolution Allocation Initialization

/-- A relation between an earlier and a later state. It does not look at the fatal errors that come
up. -/
structure MachineRel where
  rel : Machine → Machine → Prop
  refl : ∀ m, rel m m
  breakDown : ∀ (m : Machine) (e : Raise), rel m (m.breakDown e)
  trans : ∀ {m m' m''}, rel m m' → rel m' m'' → rel m m''

/-- Each record is filed under its own descriptor. -/
def ClassTable.Filed (t : ClassTable) : Prop :=
  ∀ ⦃d : Descriptor⦄ ⦃c : RuntimeClass⦄, t[d]? = some c → c.descriptor = d

/-- The object is an array of values of a primitive type. -/
def Object.HoldsPrimitives (o : Object) : Prop :=
  ∃ p : Descriptor.Primitive, o.type = Descriptor.arrayOf [p.letter]

namespace MachineRel

/-- A relation that lets classes, strings and objects come, and what is remembered of them change: all
that is done around the code of methods. It may still ask that arrays keep their elements and instances
their fields, and that the static storage of a class is not an object of any other kind. -/
class Tolerant (R : MachineRel) : Prop where
  note : ∀ (m : Machine) (e : Event), R.rel m (m.note e)
  access : ∀ (m : Machine) (a : Access), (∀ f v, a ≠ .stored f v) → R.rel m (m.markAccess a)
  guard : ∀ (m : Machine) (guard : Bool), R.rel m { m with handlingOverflow := guard }
  allocate : ∀ (m : Machine) (o : Object), R.rel m { m with heap := m.heap.push o }
  payload : ∀ (m : Machine) (i : Nat) (f : Object → Object),
    (∀ o, f o = { o with payload := (f o).payload }) → R.rel m { m with heap := m.heap.modify i f }
  statics : ∀ {m m' : Machine} {d : Descriptor} {c : RuntimeClass} {r : Ref} (f : Object → Object),
    R.rel m m' → m.classes[d]? = some c → c.statics = some r →
    (∀ o, f o = { o with fields := (f o).fields }) →
    R.rel m { m' with heap := m'.heap.modify (r.number - 1) f }
  insert : ∀ (m : Machine) (c : RuntimeClass), m.classes[c.descriptor]? = none →
    (∀ r, c.statics = some r → ∃ o, m.heap[r.number - 1]? = some o ∧ o.storage = true) →
    R.rel m (m.withClasses (m.classes.insert c.descriptor c))
  modify : ∀ (m : Machine) (d : Descriptor) (f : RuntimeClass → RuntimeClass),
    (∀ c, c.SameClass (f c) ∧ (f c).mirror = c.mirror) →
    R.rel m (m.withClasses (m.classes.modify d f))
  string : ∀ {m m' : Machine} (t : Text) (v : Value), R.rel m m' → m.interned[t]? = none →
    R.rel m { m' with interned := m'.interned.insert t v }
  mirror : ∀ {m m' : Machine} {d : Descriptor} {c : RuntimeClass} (r : Ref), R.rel m m' →
    m.classes[d]? = some c → c.mirror = none →
    R.rel m (m'.withClasses (m'.classes.modify d fun c => { c with mirror := some r }))

/-- A relation that also lets the code of methods have its way with arrays of references and with
output. It may still ask that the fields of an instance change only as values are stored in them, and
arrays of primitive types only as they are written to. In a table whose records are not filed, new arrays
need not be of the types that were asked for, so that they may be any. -/
class Attentive (R : MachineRel) : Prop extends R.Tolerant where
  aside : ∀ {m m' : Machine}, m'.frames = m.frames → m'.classes = m.classes → m'.heap = m.heap →
    m'.interned = m.interned → m'.moments = m.moments → R.rel m m'
  mark : ∀ (m : Machine), R.rel m m.mark
  store : ∀ (m : Machine) (ctx : Context) (f : FieldAccess) (v : Value),
    R.rel m (endOf (Reference.storeField f v ctx m))
  fill : ∀ {m m' : Machine} (i : Nat) (f : Object → Object), R.rel m m' →
    (m.classes.Filed → ∃ o, m.heap[i]? = some o ∧ ¬o.HoldsPrimitives) →
    (∀ o, f o = { o with elements := (f o).elements }) →
    R.rel m { m' with heap := m'.heap.modify i f }

/-- A relation that lets the code of methods have its way with all arrays. It may still ask that the
fields of an instance change only as values are stored in them. -/
class Regular (R : MachineRel) : Prop extends R.Attentive where
  contents : ∀ (m : Machine) (i : Nat) (f : Object → Object),
    (∀ o, f o = { o with elements := (f o).elements }) → R.rel m { m with heap := m.heap.modify i f }
  fill {_ m'} i f h _ hf := R.trans h (contents m' i f hf)

/-- A relation that asks for no more than that the frames, canonical strings and class mirrors there
are stay: new ones may come, and all the rest may change. -/
class Lenient (R : MachineRel) : Prop where
  same : ∀ {m m' : Machine}, m'.frames = m.frames → m'.classes = m.classes →
    m'.interned = m.interned → R.rel m m'
  insert : ∀ (m : Machine) (c : RuntimeClass), m.classes[c.descriptor]? = none →
    R.rel m (m.withClasses (m.classes.insert c.descriptor c))
  modify : ∀ (m : Machine) (d : Descriptor) (f : RuntimeClass → RuntimeClass),
    (∀ c, (f c).mirror = c.mirror) → R.rel m (m.withClasses (m.classes.modify d f))
  string : ∀ {m m' : Machine} (t : Text) (v : Value), R.rel m m' → m.interned[t]? = none →
    R.rel m { m' with interned := m'.interned.insert t v }
  mirror : ∀ {m m' : Machine} {d : Descriptor} {c : RuntimeClass} (r : Ref), R.rel m m' →
    m.classes[d]? = some c → c.mirror = none →
    R.rel m (m'.withClasses (m'.classes.modify d fun c => { c with mirror := some r }))

instance (R : MachineRel) [R.Lenient] : R.Regular where
  note _ _ := Lenient.same rfl rfl rfl
  access _ _ _ := Lenient.same rfl rfl rfl
  guard _ _ := Lenient.same rfl rfl rfl
  allocate _ _ := Lenient.same rfl rfl rfl
  payload _ _ _ _ := Lenient.same rfl rfl rfl
  statics _ h _ _ _ := R.trans h (Lenient.same rfl rfl rfl)
  insert m c hnew _ := Lenient.insert m c hnew
  modify m d f hf := Lenient.modify m d f fun c => (hf c).2
  string := Lenient.string
  mirror := Lenient.mirror
  aside hframes hclasses _ hinterned _ := Lenient.same hframes hclasses hinterned
  mark _ := Lenient.same rfl rfl rfl
  contents _ _ _ _ := Lenient.same rfl rfl rfl
  store _ _ _ _ := Lenient.same rfl rfl rfl

/-- A relation that says nothing about the frames. -/
class FreesFrames (R : MachineRel) : Prop where
  frames : ∀ (m : Machine) (fs : List Frame), R.rel m { m with frames := fs }

end MachineRel

variable {R : MachineRel} {α β : Type} {ctx : Context}

/-- However it ends, the computation leads from its start to its end. -/
def Respects (R : MachineRel) (ctx : Context) (x : Exec α) : Prop :=
  ∀ m, R.rel m (endOf (x ctx m))

/-- However it ends, the computation leads on from where a state has led to. -/
def Leads (R : MachineRel) (ctx : Context) (m : Machine) (x : Exec α) : Prop :=
  ∀ m₀, R.rel m m₀ → R.rel m (endOf (x ctx m₀))

section Rules

@[grind ←] theorem Respects.pure (a : α) : Respects R ctx (pure a) :=
  fun m => R.refl m

@[grind ←] theorem Respects.throw (e : Raise) : Respects R ctx (throw e : Exec α) :=
  fun m => R.refl m

theorem Respects.leads {x : Exec α} {m : Machine} (hx : Respects R ctx x) : Leads R ctx m x :=
  fun m₀ hm => R.trans hm (hx m₀)

/-- What follows goes on from where the first part has led to, and may rest on what it has found. -/
theorem rel_bind {x : Exec α} {f : α → Exec β} {m m₀ : Machine} (hx : R.rel m (endOf (x ctx m₀)))
    (hf : ∀ {a m₁}, x ctx m₀ = .ok a m₁ → R.rel m m₁ → R.rel m (endOf (f a ctx m₁))) :
    R.rel m (endOf ((x >>= f) ctx m₀)) := by
  cases hrun : x ctx m₀ with
  | ok a m₁ =>
      rw [hrun] at hx
      rw [bind_of_ok hrun]
      exact hf hrun hx
  | error e m₁ =>
      rw [hrun] at hx
      rw [bind_of_error hrun]
      exact hx

theorem rel_attempt {x : Exec α} {m m₀ : Machine} (hx : R.rel m (endOf (x ctx m₀))) :
    R.rel m (endOf (attempt x ctx m₀)) := by
  unfold Exec.attempt
  cases hrun : x ctx m₀ with
  | ok a m' =>
      rw [hrun] at hx
      exact hx
  | error e m' =>
      rw [hrun] at hx
      exact hx

/-- What is known from further back on is handed on by each part. -/
theorem Leads.bind_found {x : Exec α} {f : α → Exec β} {m : Machine} (hx : Leads R ctx m x)
    (hf : ∀ {a m₁ m₂}, x ctx m₁ = .ok a m₂ → Leads R ctx m (f a)) : Leads R ctx m (x >>= f) :=
  fun m₀ hm => rel_bind (hx m₀ hm) fun hrun hstep => hf hrun _ hstep

theorem Leads.bind {x : Exec α} {f : α → Exec β} {m : Machine} (hx : Leads R ctx m x)
    (hf : ∀ a, Leads R ctx m (f a)) : Leads R ctx m (x >>= f) :=
  hx.bind_found fun {a _ _} _ => hf a

theorem Leads.attempt {x : Exec α} {m : Machine} (hx : Leads R ctx m x) :
    Leads R ctx m (attempt x) :=
  fun m₀ hm => rel_attempt (hx m₀ hm)

theorem Respects.seq {x : Exec α} {f : α → Exec β} {m m₀ : Machine} (hx : Respects R ctx x)
    (hm : R.rel m m₀) (hf : ∀ a, Leads R ctx m (f a)) : R.rel m (endOf ((x >>= f) ctx m₀)) :=
  hx.leads.bind hf m₀ hm

@[grind ←] theorem Respects.bind {x : Exec α} {f : α → Exec β} (hx : Respects R ctx x)
    (hf : ∀ a, Respects R ctx (f a)) : Respects R ctx (x >>= f) :=
  fun m => hx.seq (R.refl m) fun a => (hf a).leads

/-- What comes after a failure does not matter. -/
@[grind ←] theorem Respects.throw_bind (e : Raise) (f : β → Exec α) :
    Respects R ctx ((MonadExcept.throw e : Exec β) >>= f) :=
  fun m => R.refl m

/-- What follows may rest on what the first part has found. -/
theorem Respects.bind_found {x : Exec α} {f : α → Exec β} (hx : Respects R ctx x)
    (hf : ∀ {a m m'}, x ctx m = .ok a m' → Leads R ctx m' (f a)) : Respects R ctx (x >>= f) :=
  fun m => rel_bind (hx m) fun hrun hend => R.trans hend (hf hrun _ (R.refl _))

@[grind ←] theorem Respects.attempt {x : Exec α} (hx : Respects R ctx x) :
    Respects R ctx (attempt x) :=
  fun m => hx.leads.attempt m (R.refl m)

@[grind ←] theorem respects_get : Respects R ctx (get : Exec Machine) :=
  fun m => R.refl m

@[grind ←] theorem respects_read : Respects R ctx (read : Exec Context) :=
  fun m => R.refl m

@[grind ←] theorem respects_giveUp (e : Raise) : Respects R ctx (giveUp e : Exec α) :=
  fun m => R.breakDown m e

/-- What would come after giving up does not matter. -/
@[grind ←] theorem respects_giveUp_bind (e : Raise) (f : β → Exec α) :
    Respects R ctx (giveUp e >>= f) :=
  fun m => R.breakDown m e

@[grind ←] theorem respects_unresolved (kind : SymbolKind) (symbol : Text) (cause : Option Cause) :
    Respects R ctx (unresolved kind symbol cause : Exec α) :=
  respects_giveUp _

@[grind ←] theorem respects_panic (f : Fault) : Respects R ctx (panic f : Exec α) :=
  .throw _

theorem objectAt_ok {r : Ref} {o : Object} {m m' : Machine} (h : objectAt r ctx m = .ok o m') :
    m' = m ∧ m.heap[r.number - 1]? = some o := by
  have hget : (get : Exec Machine) ctx m = .ok m m := rfl
  rw [objectAt, bind_of_ok hget] at h
  cases ho : m.heap[r.number - 1]? with
  | none =>
      rw [ho] at h
      contradiction
  | some o' =>
      rw [ho] at h
      obtain ⟨rfl, rfl⟩ := EStateM.Result.ok.inj h
      exact ⟨rfl, rfl⟩

@[grind ←] theorem respects_check (r : Except Fault α) : Respects R ctx (check r) := by
  unfold check
  grind

theorem check_ok {r : Except Fault α} {a : α} {m m' : Machine} (h : check r ctx m = .ok a m') :
    m' = m ∧ r = .ok a := by
  cases r with
  | error e => contradiction
  | ok b =>
      obtain ⟨rfl, rfl⟩ := EStateM.Result.ok.inj h
      exact ⟨rfl, rfl⟩

@[grind ←] theorem respects_classAt (d : Descriptor) : Respects R ctx (classAt d) := by
  unfold classAt
  grind

@[grind ←] theorem respects_objectAt (r : Ref) : Respects R ctx (objectAt r) := by
  unfold objectAt
  grind

@[grind ←] theorem respects_objectOf (r : Option Ref) : Respects R ctx (objectOf r) := by
  unfold objectOf
  grind

@[grind ←] theorem respects_receiverType (r : Ref) : Respects R ctx (receiverType r) := by
  unfold receiverType
  grind

@[grind ←] theorem respects_currentFrame : Respects R ctx currentFrame := by
  unfold currentFrame
  grind

@[grind ←] theorem respects_malformed (reason : Text) :
    Respects R ctx (malformed reason : Exec α) := by
  unfold malformed
  grind

@[grind ←] theorem respects_malformed_bind (reason : Text) (f : β → Exec α) :
    Respects R ctx (malformed reason >>= f) := by
  rw [malformed, bind_assoc]
  exact .bind respects_currentFrame fun _ => respects_giveUp_bind _ _

@[grind ←] theorem respects_mapM {ι : Type} {f : ι → Exec α} {is : List ι}
    (hf : ∀ i, Respects R ctx (f i)) : Respects R ctx (is.mapM f) := by
  induction is with
  | nil => exact .pure []
  | cons i is ih =>
      rw [List.mapM_cons]
      exact .bind (hf i) fun a => .bind ih fun as => .pure (a :: as)

theorem respects_anyM {ι : Type} {f : ι → Exec Bool} {is : List ι}
    (hf : ∀ i, Respects R ctx (f i)) : Respects R ctx (is.anyM f) := by
  induction is with
  | nil => exact .pure false
  | cons i is ih =>
      refine .bind (hf i) fun b => ?_
      cases b with
      | false => exact ih
      | true => exact .pure true

end Rules

section Changes

@[grind ←] theorem respects_modifyObject [R.Lenient] (r : Ref) (f : Object → Object) :
    Respects R ctx (modifyObject r f) :=
  fun _ => MachineRel.Lenient.same rfl rfl rfl

theorem respects_modifyElements [R.Regular] (r : Ref) {f : Object → Object}
    (hf : ∀ o, f o = { o with elements := (f o).elements }) : Respects R ctx (modifyObject r f) :=
  fun m => MachineRel.Regular.contents m _ f hf

end Changes

section Marks

variable [R.Attentive]

@[grind ←] theorem respects_mark : Respects R ctx mark :=
  fun m => MachineRel.Attentive.mark m

@[grind ←] theorem respects_storeField (f : FieldAccess) (v : Value) :
    Respects R ctx (Reference.storeField f v) :=
  fun m => MachineRel.Attentive.store m ctx f v

/-- Elements are written into an array of references of which there was a record further back. -/
theorem leads_modifyElements {m : Machine} {r : Ref} {f : Object → Object}
    (hr : m.classes.Filed → ∃ o, m.heap[r.number - 1]? = some o ∧ ¬o.HoldsPrimitives)
    (hf : ∀ o, f o = { o with elements := (f o).elements }) : Leads R ctx m (modifyObject r f) :=
  fun _ hm => MachineRel.Attentive.fill _ f hm hr hf

end Marks

section Primitives

variable [R.Tolerant]

@[grind ←] theorem respects_note (e : Event) : Respects R ctx (note e) :=
  fun m => MachineRel.Tolerant.note m e

@[grind ←] theorem respects_markAccess {a : Access} (ha : ∀ f v, a ≠ .stored f v) :
    Respects R ctx (markAccess a) :=
  fun m => MachineRel.Tolerant.access m a ha

@[grind ←] theorem respects_modifyPayload (r : Ref) {f : Object → Object}
    (hf : f = fun o => { o with payload := (f o).payload }) : Respects R ctx (modifyObject r f) :=
  fun m => MachineRel.Tolerant.payload m _ f (congrFun hf)

/-- The static storage of a class is changed of which there was a record further back. -/
theorem leads_modifyStatics {m : Machine} {d : Descriptor} {c : RuntimeClass} {r : Ref}
    {f : Object → Object} (hc : m.classes[d]? = some c) (hr : c.statics = some r)
    (hf : ∀ o, f o = { o with fields := (f o).fields }) : Leads R ctx m (modifyObject r f) :=
  fun _ hm => MachineRel.Tolerant.statics f hm hc hr hf

@[grind ←] theorem respects_readField (f : FieldAccess) :
    Respects R ctx (Reference.readField f) :=
  .bind (respects_objectAt _) fun _ => .bind (respects_markAccess fun _ _ => Access.noConfusion)
    fun _ => .pure _

@[grind ←] theorem respects_allocate (o : Object) : Respects R ctx (allocate o) :=
  fun m => MachineRel.Tolerant.allocate m o

@[grind ←] theorem respects_remember (d : Descriptor) (ref : MemberRef) (owner : Descriptor) :
    Respects R ctx (remember d ref owner) :=
  fun m => MachineRel.Tolerant.modify m d _ fun _ => ⟨rfl, rfl⟩

@[grind ←] theorem respects_setState (d : Descriptor) (state : ClassState) :
    Respects R ctx (setState d state) :=
  fun m => MachineRel.Tolerant.modify m d _ fun _ => ⟨rfl, rfl⟩

/-- The record of a class that has none. -/
theorem respects_enter {m : Machine} {d : Descriptor} {c : RuntimeClass}
    (hc : c.descriptor = d) (hstatics : c.statics = none) (hd : m.classes[d]? = none) :
    R.rel m (endOf (enter d c ctx m)) := by
  subst hc
  cases hfile : c.file with
  | none =>
      rw [enter, hfile]
      refine MachineRel.Tolerant.insert m c hd fun r hr => ?_
      rw [hstatics] at hr
      contradiction
  | some file =>
      rw [enter_of_file hfile]
      have hplaced : R.rel m { m with heap := m.heap.push (staticStorage c.descriptor file) } :=
        MachineRel.Tolerant.allocate m _
      refine R.trans hplaced (MachineRel.Tolerant.insert _ _ hd fun r hr => ?_)
      obtain rfl := Option.some.inj hr
      exact ⟨_, Array.getElem?_push_size, (staticStorage_isStorage _ _).1⟩

theorem respects_linkWithin (fuel : Nat) (d : Descriptor) : Respects R ctx (linkWithin fuel d) := by
  induction fuel generalizing d with
  | zero => exact .throw _
  | succ fuel ih =>
      intro m
      have hget : (get : Exec Machine) ctx m = .ok m m := rfl
      cases hd : m.classes[d]? with
      | some c =>
          rw [linkWithin, bind_of_ok hget, hd]
          refine (show Respects R ctx _ from ?_) m
          grind
      | none =>
          cases hdefine : define ctx.host d with
          | error u =>
              rw [linkWithin_undefined hd hdefine]
              exact R.breakDown m _
          | ok c =>
              obtain ⟨_, m₁, henter, _⟩ := enter_ok hdefine hd
              have hentered : R.rel m (endOf (enter d c ctx m)) :=
                respects_enter (isNew_define hdefine).descriptor (define_statics hdefine) hd
              rw [henter] at hentered
              rw [linkWithin_new hd hdefine henter]
              split
              · exact R.trans hentered (MachineRel.Tolerant.modify m₁ d _ fun _ => ⟨rfl, rfl⟩)
              · have hsuper := ih (Descriptor.ofInternal c.superName) m₁
                split
                case h_1 e m₂ hrun =>
                  rw [hrun] at hsuper
                  exact R.trans (R.trans hentered hsuper)
                    (MachineRel.Tolerant.modify m₂ d _ fun _ => ⟨rfl, rfl⟩)
                case h_2 m₂ hrun =>
                  rw [hrun] at hsuper
                  exact R.trans (R.trans hentered hsuper)
                    (MachineRel.Tolerant.modify m₂ d _ fun _ => ⟨rfl, rfl⟩)

@[grind ←] theorem respects_link (d : Descriptor) : Respects R ctx (link d) :=
  .bind respects_read fun _ => respects_linkWithin _ d

omit [R.Tolerant] in
@[grind ←] theorem respects_ancestryWithin (fuel : Nat) (d : Descriptor) :
    Respects R ctx (ancestryWithin fuel d) := by
  induction fuel generalizing d with
  | zero => exact .throw _
  | succ fuel ih =>
      unfold ancestryWithin
      grind

omit [R.Tolerant] in
@[grind ←] theorem respects_ancestry (d : Descriptor) : Respects R ctx (ancestry d) := by
  unfold ancestry
  grind

@[grind ←] theorem respects_newObject (d : Descriptor) : Respects R ctx (newObject d) :=
  .bind (respects_ancestry d) fun _ => .bind (respects_allocate _) fun r =>
    .bind (respects_markAccess fun _ _ => Access.noConfusion) fun _ => .pure r

end Primitives

section Reading

open Reference

@[grind ←] theorem respects_orMalformed (r : Except PoolError α) :
    Respects R ctx (orMalformed r) := by
  unfold orMalformed
  grind

@[grind ←] theorem respects_currentFile : Respects R ctx currentFile := by
  unfold currentFile
  grind

@[grind ←] theorem respects_staticsOf (c : RuntimeClass) : Respects R ctx (staticsOf c) := by
  unfold staticsOf
  grind

@[grind ←] theorem respects_found (m : Option Method) : Respects R ctx (found m) := by
  unfold found
  grind

end Reading

/-- A context whose ways back into the engine respect the relation. -/
class RespectingContext (R : MachineRel) (ctx : Context) : Prop where
  invoke : ∀ (method : Method) (args : List Value), Respects R ctx (invokeMethod method args)
  initClass : ∀ d : Descriptor, Respects R ctx (initializeClass d)

section Computations

variable [R.Tolerant] [RespectingContext R ctx]

omit [R.Tolerant] in
@[grind ←] theorem respects_invokeMethod (method : Method) (args : List Value) :
    Respects R ctx (invokeMethod method args) :=
  RespectingContext.invoke method args

omit [R.Tolerant] in
@[grind ←] theorem respects_initializeClass (d : Descriptor) :
    Respects R ctx (initializeClass d) :=
  RespectingContext.initClass d

section Resolving

@[grind ←] theorem respects_classFor (d : Descriptor) : Respects R ctx (classFor d) := by
  unfold classFor
  grind

@[grind ←] theorem respects_loadClass (name : Text) : Respects R ctx (loadClass name) :=
  respects_classFor _

@[grind ←] theorem respects_searchInterfaces (declares : RuntimeClass → Bool) (fuel : Nat)
    (work seen : List Text) : Respects R ctx (searchInterfaces declares fuel work seen) := by
  induction fuel generalizing work seen with
  | zero => exact .throw _
  | succ fuel ih =>
      cases work with
      | nil => exact .pure none
      | cons name work =>
          unfold searchInterfaces
          grind

@[grind ←] theorem respects_findDeclaring (d : Descriptor) (declares : RuntimeClass → Bool) :
    Respects R ctx (findDeclaring d declares) := by
  unfold findDeclaring
  grind

@[grind ←] theorem respects_resolveField (d : Descriptor) (ref : MemberRef) :
    Respects R ctx (resolveField d ref) := by
  unfold resolveField
  grind

@[grind ←] theorem respects_resolveMethod (d : Descriptor) (ref : MemberRef) :
    Respects R ctx (resolveMethod d ref) := by
  refine .bind (respects_classAt d) fun c => ?_
  split
  · grind
  · split
    · refine .bind (respects_loadClass _) fun root => .bind (.pure root.descriptor) fun start => ?_
      grind
    · exact .bind (.pure d) fun start => by grind

theorem respects_assignableWithin (fuel : Nat) (a b : Descriptor) :
    Respects R ctx (assignableWithin fuel a b) := by
  induction fuel generalizing a b with
  | zero => exact .throw _
  | succ fuel ih =>
      have hinterfaces : ∀ c : RuntimeClass, Respects R ctx (c.interfaces.anyM fun name => do
          let _ ← loadClass name
          assignableWithin fuel (Descriptor.ofInternal name) b) := fun c =>
        respects_anyM fun name => .bind (respects_loadClass name) fun _ => ih _ b
      have hsuper : ∀ c : RuntimeClass, Respects R ctx
          (c.superclass.elim (pure false) fun s => assignableWithin fuel s b) := by
        intro c
        cases c.superclass with
        | none => exact .pure false
        | some s => exact ih s b
      unfold assignableWithin
      grind

@[grind ←] theorem respects_assignable (a b : Descriptor) : Respects R ctx (assignable a b) :=
  .bind respects_read fun _ => respects_assignableWithin _ a b

@[grind ←] theorem respects_instanceOf (o : Object) (name : Text) :
    Respects R ctx (instanceOf o name) := by
  unfold instanceOf
  grind

@[grind ←] theorem respects_startsAbove (caller : Option RuntimeClass) (ref : MemberRef)
    (named : Descriptor) : Respects R ctx (startsAbove caller ref named) := by
  unfold startsAbove
  grind

@[grind ←] theorem respects_resolveSpecial (caller : Option RuntimeClass) (ref : MemberRef) :
    Respects R ctx (resolveSpecial caller ref) := by
  unfold resolveSpecial
  grind

@[grind ←] theorem respects_invokeNamed (owner name descriptor : Text) (args : List Value) :
    Respects R ctx (Resolution.invoke owner name descriptor args) := by
  unfold Resolution.invoke
  grind

@[grind ←] theorem respects_fieldOwner (ref : MemberRef) :
    Respects R ctx (Reference.fieldOwner ref) := by
  unfold Reference.fieldOwner
  grind

end Resolving

section Allocating

@[grind ←] theorem respects_construct (c : RuntimeClass) (descriptor : Text) (args : List Value) :
    Respects R ctx (construct c descriptor args) := by
  unfold construct
  grind

@[grind ←] theorem respects_newArrayOf (element : Descriptor) (values : List Value) :
    Respects R ctx (newArrayOf element values) := by
  unfold newArrayOf
  grind

@[grind ←] theorem respects_newString (t : Text) : Respects R ctx (newString t) := by
  unfold newString
  grind

@[grind ←] theorem respects_hostText (v : Value) : Respects R ctx (hostText v) := by
  refine .bind (respects_check _) fun r => ?_
  split
  · exact .pure _
  · refine .bind (respects_objectAt _) fun o => .bind (respects_invokeNamed _ _ _ _) fun result => ?_
    grind

/-- A string becomes the canonical one at once, if there is none. -/
@[grind ←] theorem respects_intern (v : Value) : Respects R ctx (intern v) := by
  refine .bind (respects_hostText v) fun t m => ?_
  have hget : (get : Exec Machine) ctx m = .ok m m := rfl
  rw [bind_of_ok hget]
  cases ht : m.interned[t]? with
  | some canonical => exact R.refl m
  | none => exact MachineRel.Tolerant.string t v (R.refl m) ht

/-- Between the look into the table and the change of it a string is made, so the relation is known
to hold from the look on only. -/
@[grind ←] theorem respects_internText (t : Text) : Respects R ctx (internText t) := by
  intro m
  have hget : (get : Exec Machine) ctx m = .ok m m := rfl
  unfold internText
  rw [bind_of_ok hget]
  cases ht : m.interned[t]? with
  | some canonical => exact R.refl m
  | none =>
      exact (respects_newString t).seq (R.refl m) fun r m₁ hm =>
        MachineRel.Tolerant.string t (.ref r) hm ht

@[grind ←] theorem respects_stringArray (ts : List Text) : Respects R ctx (stringArray ts) := by
  unfold stringArray
  grind

/-- So it is with the mirror of a class. -/
@[grind ←] theorem respects_classMirror (d : Descriptor) : Respects R ctx (classMirror d) := by
  refine .bind_found (respects_classAt d) fun {c _ m} hrun => ?_
  have hc : m.classes[d]? = some c := by
    obtain ⟨rfl, hc⟩ := classAt_ok hrun
    exact hc
  cases hmirror : c.mirror with
  | some r => exact (Respects.pure r).leads
  | none =>
      refine (respects_loadClass _).leads.bind fun mirrorClass => ?_
      refine (respects_newString _).leads.bind fun name => ?_
      refine (respects_construct _ _ _).leads.bind fun r => ?_
      have hpayload : Respects R ctx (modifyObject r fun o => { o with payload := .mirror d }) :=
        respects_modifyPayload r rfl
      exact hpayload.leads.bind fun _ _ hm => MachineRel.Tolerant.mirror r hm hc hmirror

@[grind ←] theorem respects_mirroredClass (mirror : Option Ref) :
    Respects R ctx (mirroredClass mirror) := by
  unfold mirroredClass
  grind

@[grind ←] theorem respects_throwNew (className message : Text) :
    Respects R ctx (throwNew className message : Exec α) := by
  unfold throwNew
  grind

/-- What would come after an exception does not matter. -/
@[grind ←] theorem respects_throwNew_bind (className message : Text) (f : β → Exec α) :
    Respects R ctx (throwNew className message >>= f) :=
  .bind_found (respects_throwNew _ _) fun h => absurd h (throwNew_ne_ok _ _ _ _ _)

end Allocating

section Initializing

@[grind ←] theorem respects_constantValue (owner : Text) (file : ClassFile) (f : Field) :
    Respects R ctx (constantValue owner file f) := by
  unfold constantValue
  grind

/-- The values go into the static storage of a class of which there was a record further back. -/
theorem leads_applyConstants {m : Machine} {d : Descriptor} {c : RuntimeClass} {statics : Ref}
    (hc : m.classes[d]? = some c) (hstatics : c.statics = some statics) (owner : Text)
    (file : ClassFile) (fields : List Field) :
    Leads R ctx m (applyConstants owner statics file fields) := by
  induction fields with
  | nil => exact fun _ hm => hm
  | cons f rest ih =>
      unfold applyConstants
      split
      · exact (respects_constantValue _ _ _).leads.bind fun v =>
          (leads_modifyStatics hc hstatics fun _ => rfl).bind fun _ => ih
      · exact ih

omit [R.Tolerant] in
@[grind ←] theorem respects_initializeSuper (c : RuntimeClass) :
    Respects R ctx (initializeSuper c) := by
  unfold initializeSuper
  grind

@[grind ←] theorem respects_runInitializer (d : Descriptor) (c : RuntimeClass) :
    Respects R ctx (runInitializer d c) := by
  unfold runInitializer
  split
  · exact .pure ()
  · exact .bind (respects_note _) fun _ => .bind (respects_invokeMethod _ _) fun _ => .pure ()

theorem leads_runInitializers {m : Machine} {d : Descriptor} {c : RuntimeClass}
    (hc : m.classes[d]? = some c) : Leads R ctx m (runInitializers d c) := by
  refine (respects_initializeSuper c).leads.bind fun _ => ?_
  split
  case h_1 hstatics =>
    exact (leads_applyConstants hc hstatics _ _ _).bind fun _ => (respects_runInitializer d c).leads
  case h_2 => exact (Respects.pure ()).leads

theorem respects_initializeOnce (d : Descriptor) : Respects R ctx (initializeOnce d) := by
  refine .bind_found (respects_classAt d) fun {c _ m} hrun => ?_
  have hc : m.classes[d]? = some c := by
    obtain ⟨rfl, hc⟩ := classAt_ok hrun
    exact hc
  split
  case h_1 | h_2 => exact (Respects.pure ()).leads
  case h_3 e _ => exact (respects_giveUp e).leads
  case h_4 => exact (respects_throwNew _ _).leads
  case h_5 | h_6 =>
    refine (respects_setState d _).leads.bind fun _ => ?_
    refine (leads_runInitializers hc).attempt.bind fun done => Respects.leads ?_
    split <;> grind

end Initializing

section Calling

open Interpreter

theorem respects_stackOverflow : Respects R ctx (stackOverflow : Exec α) := by
  intro m
  have hlifted : R.rel m { m with handlingOverflow := true } := MachineRel.Tolerant.guard m true
  have hthrow : Respects R ctx (throwNew "java/lang/StackOverflowError" "" : Exec α) :=
    respects_throwNew _ _
  have hm := R.trans hlifted (hthrow { m with handlingOverflow := true })
  unfold stackOverflow
  split
  case h_1 hrun =>
    rw [hrun] at hm
    exact R.trans hm (MachineRel.Tolerant.guard _ false)
  case h_2 hrun =>
    rw [hrun] at hm
    exact R.trans hm (MachineRel.Tolerant.guard _ false)

/-- A call respects what the activation of its method does. -/
theorem respects_invoke {method : Method} {args : List Value}
    (hactivate : Respects R ctx (activate method args)) :
    Respects R ctx (Interpreter.invoke method args) := by
  have hlimit : Respects R ctx atLimit := fun m => R.refl m
  unfold Interpreter.invoke
  split
  · exact respects_unresolved _ _ _
  · refine .bind hlimit fun deep => ?_
    split
    · exact respects_stackOverflow
    · exact hactivate

end Calling

end Computations

section OnArrays

open Arrays

theorem classFor_ok {d : Descriptor} {c : RuntimeClass} {m m' : Machine}
    (h : classFor d ctx m = .ok c m') : m'.classes[d]? = some c := by
  obtain ⟨_, _, -, h⟩ := of_bind_ok h
  obtain ⟨_, _, -, h⟩ := of_bind_ok h
  exact (classAt_ok h).1 ▸ (classAt_ok h).2

theorem Leads.replicateOnto {x : Exec Value} {m : Machine} (hx : Leads R ctx m x) (acc : Array Value)
    (n : Nat) : Leads R ctx m (replicateOnto x acc n) := by
  induction n generalizing acc with
  | zero => exact (Respects.pure acc).leads
  | succ n ih => exact hx.bind fun v => ih (acc.push v)

/-- An array of several dimensions holds references. -/
theorem not_holdsPrimitives {d : Descriptor} {elements : Array Value}
    (hd : 1 < Descriptor.dimensions d) : ¬(Object.array d elements).HoldsPrimitives := by
  rintro ⟨p, rfl : d = _⟩
  cases p <;> contradiction

variable [R.Attentive] [RespectingContext R ctx]

omit [R.Attentive] in
/-- Where any array may be filled, it does not matter which ones are. -/
theorem leads_build [R.Tolerant] {m : Machine} (hfill : ∀ (r : Ref) {f : Object → Object},
      (∀ o, f o = { o with elements := (f o).elements }) → Leads R ctx m (modifyObject r f))
    (d : Descriptor) (counts : List Nat) : Leads R ctx m (build d counts) := by
  induction counts generalizing d with
  | nil => exact (Respects.throw _).leads
  | cons n inner ih =>
      cases inner with
      | nil => exact (respects_allocate _).leads
      | cons k rest =>
          refine (respects_allocate _).leads.bind fun r => (respects_classFor _).leads.bind fun c => ?_
          refine Leads.bind (.replicateOnto ?_ _ _) fun parts => ?_
          · exact (ih c.descriptor).bind fun part => (Respects.pure _).leads
          · exact (hfill r fun _ => rfl).bind fun _ => (Respects.pure r).leads

/-- The arrays that are filled are those of the outer dimensions. -/
theorem respects_build (d : Descriptor) (counts : List Nat)
    (hcounts : counts.length ≤ 1 ∨ counts.length ≤ Descriptor.dimensions d) :
    Respects R ctx (build d counts) := by
  induction counts generalizing d with
  | nil => exact .throw _
  | cons n inner ih =>
      cases inner with
      | nil => exact respects_allocate _
      | cons k rest =>
          replace hcounts := hcounts.resolve_left (by simp)
          have hdepth : 1 < Descriptor.dimensions d :=
            Nat.lt_of_lt_of_le (Nat.le_add_left 2 rest.length) hcounts
          have hinner : (k :: rest).length ≤ Descriptor.dimensions (Descriptor.component d) := by
            rw [dimensions_component (isArray_of_dimensions (Nat.zero_lt_of_lt hdepth))] at hcounts
            exact Nat.le_of_succ_le_succ hcounts
          refine .bind_found (respects_allocate _) fun {r _ m₁} hmade => ?_
          have hr : m₁.heap[r.number - 1]? = some (.array d (Array.replicate n .null)) := by
            obtain ⟨rfl, rfl⟩ := EStateM.Result.ok.inj hmade
            exact Array.getElem?_push_size
          have hfill : ∀ {m' : Machine} (parts : Array Value),
              (m'.classes.Filed → ∃ o, m'.heap[r.number - 1]? = some o ∧ ¬o.HoldsPrimitives) →
              Leads R ctx m' (do
                modifyObject r fun o => { o with elements := parts }
                pure r) := fun parts hm' =>
            (leads_modifyElements hm' fun _ => rfl).bind fun _ => (Respects.pure r).leads
          intro m₀ hm
          refine rel_bind (R.trans hm (respects_classFor _ m₀)) fun {c m₂} hclass hm₂ => ?_
          by_cases hc : c.descriptor = Descriptor.component d
          · refine Leads.bind (.replicateOnto ?_ _ _) (fun parts => hfill parts fun _ => ?_) m₂ hm₂
            · rw [hc]
              exact (ih _ (.inr hinner)).leads.bind fun part => (Respects.pure _).leads
            · exact ⟨_, hr, not_holdsPrimitives hdepth⟩
          · have hstray : ¬m₂.classes.Filed := fun h => hc (h (classFor_ok hclass))
            refine R.trans hm₂ (Leads.bind (.replicateOnto ?_ _ _) (fun parts => hfill parts
              (absurd · hstray)) m₂ (R.refl m₂))
            exact (leads_build (fun _ _ hf => leads_modifyElements (absurd · hstray) hf) _ _).bind
              fun part => (Respects.pure _).leads

@[grind ←] theorem respects_alloc (d : Descriptor) (counts : List Int32)
    (hcounts : counts.length ≤ 1 ∨ counts.length ≤ Descriptor.dimensions d) :
    Respects R ctx (alloc d counts) := by
  have hbuild : Respects R ctx (build d (counts.map fun n => n.toInt.toNat)) :=
    respects_build d _ (by rwa [List.length_map])
  unfold alloc
  grind

omit [R.Attentive] in
@[grind ←] theorem respects_alloc_any [R.Regular] (d : Descriptor) (counts : List Int32) :
    Respects R ctx (alloc d counts) := by
  have hbuild : Respects R ctx (build d (counts.map fun n => n.toInt.toNat)) := fun m =>
    leads_build (fun r _ hf => (respects_modifyElements r hf).leads) d _ m (R.refl m)
  unfold alloc
  grind

@[grind ←] theorem respects_newArray (c : RuntimeClass) (counts : List Int32) :
    Respects R ctx (newArray c counts) := by
  unfold newArray
  grind

@[grind ←] theorem respects_clone (r : Option Ref) : Respects R ctx (clone r) := by
  unfold clone
  grind

@[grind ←] theorem respects_checkStore (component : Descriptor) (r : Option Ref) :
    Respects R ctx (checkStore component r) := by
  unfold checkStore
  grind

/-- Elements are stored one by one into an array of references of which there was a record. -/
theorem leads_storeEach {m : Machine} {dst : Ref}
    (hdst : m.classes.Filed → ∃ o, m.heap[dst.number - 1]? = some o ∧ ¬o.HoldsPrimitives)
    (component : Descriptor) (i : Nat) (vs : List Value) :
    Leads R ctx m (storeEach component dst i vs) := by
  induction vs generalizing i with
  | nil => exact (Respects.pure ()).leads
  | cons v vs ih =>
      refine (respects_check _).leads.bind fun r => (respects_checkStore component r).leads.bind fun _ => ?_
      exact (leads_modifyElements hdst fun _ => rfl).bind fun _ => ih (i + 1)

theorem Object.HoldsPrimitives.isPrimitive {o : Object} (h : o.HoldsPrimitives) :
    Descriptor.isPrimitive (Descriptor.component o.type) = true := by
  obtain ⟨p, hp⟩ := h
  rw [hp, component_arrayOf]
  cases p <;> rfl

/-- An array of primitive values is copied at once. -/
theorem rel_copy {m : Machine} {src dst : Option Ref} {srcPos dstPos length : Int32}
    (hput : ∀ {d o} (f : Object → Object), dst = some d → m.heap[d.number - 1]? = some o →
      o.HoldsPrimitives → (∀ o, f o = { o with elements := (f o).elements }) →
      R.rel m { m with heap := m.heap.modify (d.number - 1) f }) :
    R.rel m (endOf (copy src srcPos dst dstPos length ctx m)) := by
  unfold copy
  split
  case h_2 => exact respects_throwNew _ _ m
  case h_1 s d =>
    refine rel_bind (respects_objectAt s m) fun {_ m₁} hsource _ => ?_
    obtain ⟨hsame, -⟩ := objectAt_ok hsource
    subst m₁
    refine rel_bind (respects_objectAt d m) fun {target m₁} hread _ => ?_
    obtain ⟨hsame, htarget⟩ := objectAt_ok hread
    subst m₁
    dsimp only
    split
    · exact respects_throwNew_bind _ _ _ _
    split
    · exact respects_throwNew_bind _ _ _ _
    split
    · exact respects_throwNew_bind _ _ _ _
    by_cases hprimitive : target.HoldsPrimitives
    · rw [hprimitive.isPrimitive]
      exact hput _ rfl htarget hprimitive fun _ => rfl
    · have hd : m.classes.Filed → ∃ o, m.heap[d.number - 1]? = some o ∧ ¬o.HoldsPrimitives :=
        fun _ => ⟨target, htarget, hprimitive⟩
      split
      · exact leads_storeEach hd _ _ _ _ (R.refl _)
      · exact leads_modifyElements hd (fun _ => rfl) _ (R.refl _)

end OnArrays

end ClassEngine
