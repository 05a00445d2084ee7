import ClassEngine.Proofs.Engine.Initialization

/-!
Engines as the program around them uses them: one request after the other. Main result: the invariant
of every engine that can be reached this way.
-/

namespace ClassEngine

open Machine Exec Linking Resolution Allocation

/-- What can be asked of an engine. A class is asked for by its name. -/
inductive Request where
  | link (type : Descriptor)
  | classFor (type : Descriptor)
  | loadClass (name : Text)
  | invoke (owner name descriptor : Text) (args : List Value)
  /-- The call of a method that a class itself declares. -/
  | invokeDeclared (owner name descriptor : Text) (args : List Value)
  | invokeOn (receiver : Ref) (name descriptor : Text) (args : List Value)
  | runMain (className : Text) (args : List Text)
  | resolveField (start : Text) (ref : MemberRef)
  | resolveMethod (start : Text) (ref : MemberRef)
  | resolveSpecial (caller : Option Text) (ref : MemberRef)
  | assignable (a b : Text)
  | newObject (className : Text)
  | construct (className descriptor : Text) (args : List Value)
  | newArray (className : Text) (counts : List Int32)
  | newArrayOf (element : Descriptor) (values : List Value)
  | clone (object : Option Ref)
  | newString (text : Text)
  | hostText (v : Value)
  | intern (v : Value)
  | internText (text : Text)
  | stringArray (texts : List Text)
  | classMirror (className : Text)
  | setField (object : Ref) (owner name : Text) (v : Value)
  | setElement (object : Ref) (i : Nat) (v : Value)

namespace Request

/-- The class of a caller, if there is one. -/
def callerClass : Option Text → Exec (Option RuntimeClass)
  | none => pure none
  | some name => do
    let c ← Linking.loadClass name
    pure (some c)

/-- Does what is asked for, and gives nothing back. -/
def perform : Request → Exec Unit
  | link d => Linking.link d
  | classFor d => discard (Linking.classFor d)
  | loadClass name => discard (Linking.loadClass name)
  | invoke owner name descriptor args => discard (Resolution.invoke owner name descriptor args)
  | invokeDeclared owner name descriptor args => do
    let c ← Linking.loadClass owner
    match c.declaredMethod? name descriptor with
    | none => unresolved .method (owner ++ "." ++ name ++ descriptor) none
    | some m => discard (invokeMethod m args)
  | invokeOn receiver name descriptor args =>
    discard (Session.invokeOn receiver name descriptor args)
  | runMain className args => Session.runMain className args
  | resolveField start ref => do
    let c ← Linking.loadClass start
    discard (Resolution.resolveField c.descriptor ref)
  | resolveMethod start ref => do
    let c ← Linking.loadClass start
    discard (Resolution.resolveMethod c.descriptor ref)
  | resolveSpecial caller ref => do
    discard (Resolution.resolveSpecial (← callerClass caller) ref)
  | assignable a b => do
    let ca ← Linking.loadClass a
    let cb ← Linking.loadClass b
    discard (Resolution.assignable ca.descriptor cb.descriptor)
  | newObject className => do
    let c ← Linking.loadClass className
    discard (Allocation.newObject c.descriptor)
  | construct className descriptor args => do
    let c ← Linking.loadClass className
    discard (Allocation.construct c descriptor args)
  | newArray className counts => do
    let c ← Linking.loadClass className
    discard (Arrays.newArray c counts)
  | newArrayOf element values => discard (Allocation.newArrayOf element values)
  | clone object => discard (Arrays.clone object)
  | newString text => discard (Allocation.newString text)
  | hostText v => discard (Allocation.hostText v)
  | intern v => discard (Allocation.intern v)
  | internText text => discard (Allocation.internText text)
  | stringArray texts => discard (Allocation.stringArray texts)
  | classMirror className => do
    let c ← Linking.loadClass className
    discard (Allocation.classMirror c.descriptor)
  | setField object owner name v => modifyObject object fun o => o.setField owner name v
  | setElement object i v => modifyObject object fun o => o.setElement i v

/-- What the program around an engine is asked to see to when it puts values into arrays itself: that
they may stand there. -/
def Fits : Request → Machine → Prop
  | newArrayOf element values, m => Descriptor.isPrimitive element = false →
      ∀ v ∈ values, m.moment.Fits element v
  | setElement object _ v, m => ∀ d, m.moment.HasType object d →
      Descriptor.isPrimitive (Descriptor.component d) = false →
        m.moment.Fits (Descriptor.component d) v
  | _, _ => True

end Request

section Safety

variable {α : Type} {ctx : Context} {P : Machine → Prop}

theorem sound_discard {x : Exec α} {Q : α → Machine → Prop} (hx : Sound ctx P x Q) :
    Sound ctx P (discard x) fun _ _ => True :=
  .seq hx fun _ => .pure fun _ _ _ => trivial

@[grind ←] theorem safe_discard {x : Exec α} (hx : Safe ctx x) : Safe ctx (discard x) :=
  sound_discard hx

variable [SoundContext ctx]

/-- What is asked of a class is asked once it is loaded. -/
theorem safe_loaded {f : RuntimeClass → Exec α} {Q : RuntimeClass → α → Machine → Prop}
    (hf : ∀ c, Sound ctx c.Known (f c) (Q c)) (name : Text) :
    Safe ctx (do let c ← loadClass name; discard (f c)) :=
  SoundBy.seq (sound_loadClass name) fun c =>
    sound_discard ((hf c).pre fun _ _ h => h.2)

theorem safe_invokeDeclared (owner name descriptor : Text) (args : List Value) :
    Safe ctx (Request.perform (.invokeDeclared owner name descriptor args)) := by
  refine SoundBy.seq (sound_loadClass owner) fun c => ?_
  split
  case h_1 => exact .giveUp rfl
  case h_2 method hmethod =>
    refine sound_discard ((sound_invokeMethod method args).pre fun m _ h => ?_)
    exact h.2.declaredMethod hmethod

theorem safe_invokeOn (receiver : Ref) (name descriptor : Text) (args : List Value) :
    Safe ctx (Session.invokeOn receiver name descriptor args) := by
  refine SoundBy.seq (sound_receiverType receiver) fun type => ?_
  refine .seq (sound_resolveMethod type _) fun found => ?_
  cases found with
  | none => exact .throw rfl
  | some method => exact sound_invokeFound rfl args

theorem safe_runEntry (name : Text) (args : List Text) : Safe ctx (Session.runEntry name args) := by
  refine SoundBy.seq (sound_loadClass name) fun c => ?_
  split
  case h_1 => exact .giveUp rfl
  case h_2 method hmethod =>
    have hstarted : ∀ m : Machine, m.Inv ctx.host →
        c.descriptor = Descriptor.ofInternal name ∧ c.Known m → m.classes.Started method.owner :=
      fun m _ h => h.2.declaredMethod hmethod
    have hmain : Sound ctx (fun m => m.classes.Started method.owner) (do
        let argv ← stringArray args
        let _ ← invokeMethod method [.ref argv]) fun _ _ => True := by
      refine Safe.then (stable_started method.owner) (safe_stringArray args) fun argv => ?_
      exact .seq (sound_invokeMethod method _) fun _ => .pure fun _ _ _ => trivial
    split
    · exact .giveUp_bind rfl _
    · exact hmain.pre hstarted

/-- What a program throws comes to the one who runs it, and so does what the printing of it
throws. Any other failure of the printing is lost, also a fatal one. -/
theorem upholds_runMain (className : Text) (args : List Text) :
    Upholds .instruction ctx (fun _ => True) (Session.runMain className args) fun _ _ => True := by
  unfold Session.runMain
  refine upholds_attempt (SoundBy.toUpholds (safe_runEntry _ args))
    (fun _ => SoundBy.toUpholds (Safe.pure ())) fun e => ?_
  cases e with
  | thrown r =>
      refine .takesUp ⟨.arrived r, _, fun _ => .inl rfl, rfl, ?_⟩
      refine Upholds.seq (SoundBy.toUpholds (safe_objectAt r)) fun o => ?_
      refine upholds_attempt (SoundBy.toUpholds (safe_invoke _ _ _ _)) (fun _ => .throw _) fun e => ?_
      cases e with
      | thrown other => exact .takesUp ⟨.arrived other, _, fun _ => .inl rfl, rfl, .throw _⟩
      | exhausted => exact .passes _
      | _ => exact .answers (by simp) (by simp) (.throw _)
  | _ => exact .passes _

theorem sound_callerClass (caller : Option Text) :
    Sound ctx P (Request.callerClass caller) fun found m => ∀ c, found = some c → c.Known m := by
  cases caller with
  | none => exact .pure fun _ _ _ c hc => by contradiction
  | some name =>
      refine .seq (sound_loadClass name) fun c => .pure fun m _ h c' hc' => ?_
      obtain rfl := Option.some.inj hc'
      exact h.2

omit [SoundContext ctx] in
/-- An element that is put into an array from outside. -/
theorem sound_setElement (object : Ref) (i : Nat) (v : Value) :
    Sound ctx (Request.setElement object i v).Fits
      (modifyObject object fun o => o.setElement i v) fun _ _ => True := by
  refine .pre (sound_modifyObject (fun _ => rfl) fun _ => rfl) fun m _ hfits hm o ho => ?_
  intro harray hreference w hw
  rcases Array.mem_or_eq_of_mem_setIfInBounds hw with hw | rfl
  · exact hm.now ho harray hreference w hw
  · exact hfits o.type ⟨o, ho, rfl⟩ hreference

/-- Every request is sound, save the run of a program, where the printing of what it has thrown may
fail unseen. -/
theorem sound_perform (request : Request) (hmain : ∀ name args, request ≠ .runMain name args) :
    Sound ctx request.Fits request.perform fun _ _ => True := by
  have hstarted : ∀ (c : RuntimeClass) (m : Machine), m.Inv ctx.host → c.Known m →
      m.classes.Started c.descriptor := fun _ _ _ h => h.started
  cases request with
  | link d => exact safe_link d
  | invokeDeclared owner name descriptor args => exact safe_invokeDeclared owner name descriptor args
  | invokeOn receiver name descriptor args =>
      exact safe_discard (safe_invokeOn receiver name descriptor args)
  | runMain className args => exact absurd rfl (hmain className args)
  | resolveField start ref =>
      exact safe_loaded (fun c => (sound_resolveField c.descriptor ref).pre (hstarted c)) start
  | resolveMethod start ref =>
      exact safe_loaded (fun c => (sound_resolveMethod c.descriptor ref).pre (hstarted c)) start
  | resolveSpecial caller ref =>
      exact SoundBy.seq (sound_callerClass caller) fun c => sound_discard (sound_resolveSpecial c ref)
  | assignable a b =>
      refine Safe.bind (safe_loadClass a) fun ca => Safe.bind (safe_loadClass b) fun cb => ?_
      exact safe_discard (safe_assignable _ _)
  | newObject className =>
      exact safe_loaded (fun c => (sound_newObject c.descriptor).pre (hstarted c)) className
  | construct className descriptor args =>
      exact safe_loaded (fun c => sound_construct c descriptor args) className
  | newArray className counts => exact safe_loaded (fun c => sound_newArray c counts) className
  | newArrayOf element values => exact sound_discard (sound_newArrayOf element values)
  | classMirror className =>
      exact Safe.bind (safe_loadClass className) fun c => safe_discard (safe_classMirror _)
  | setField object owner name v =>
      exact safe_modifyObject (fun _ => rfl) (fun _ => rfl) fun _ => rfl
  | setElement object i v => exact sound_setElement object i v
  | classFor d => exact safe_discard (safe_classFor d)
  | loadClass name => exact safe_discard (safe_loadClass name)
  | invoke owner name descriptor args => exact safe_discard (safe_invoke owner name descriptor args)
  | clone object => exact safe_discard (safe_clone object)
  | newString text => exact safe_discard (safe_newString text)
  | hostText v => exact safe_discard (safe_hostText v)
  | intern v => exact safe_discard (safe_intern v)
  | internText text => exact safe_discard (safe_internText text)
  | stringArray texts => exact safe_discard (safe_stringArray texts)

/-- Every request keeps the invariant and coherence. -/
theorem upholds_perform (request : Request) :
    Upholds .instruction ctx request.Fits request.perform fun _ _ => True := by
  cases request with
  | runMain className args => exact upholds_runMain className args
  | _ => exact (sound_perform _ (by simp)).toUpholds

/-- From every state the computation ends as it has to. Nothing is said of coherence, which the
program around an engine may destroy. -/
def Meeting (ctx : Context) (x : Exec α) : Prop :=
  ∀ m, Meets .instruction ctx.host m (m.Inv ctx.host ∧ True) (fun _ _ => True) (x ctx m)

omit [SoundContext ctx] in
theorem Meeting.discard {x : Exec α} (hx : Meeting ctx x) : Meeting ctx (discard x) := by
  intro m
  have hm := hx m
  change Meets _ _ _ _ _ ((x >>= fun _ => pure ()) ctx m)
  cases hrun : x ctx m with
  | ok a m' =>
      rw [hrun] at hm
      rw [bind_of_ok hrun]
      exact hm
  | error e m' =>
      rw [hrun] at hm
      rw [bind_of_error hrun]
      exact hm

/-- An array whose elements need not fit. -/
theorem meeting_newArrayOf (element : Descriptor) (values : List Value) :
    Meeting ctx (newArrayOf element values) := by
  intro m
  have hclass : Sound ctx (fun _ => True) (Linking.classFor (Descriptor.arrayOf element)) _ :=
    sound_classFor _
  have hm := hclass.meets m
  unfold newArrayOf
  cases hrun : Linking.classFor (Descriptor.arrayOf element) ctx m with
  | error e m' =>
      rw [hrun] at hm
      rw [bind_of_error hrun]
      exact hm
  | ok c m' =>
      rw [hrun] at hm
      rw [bind_of_ok hrun]
      obtain ⟨hevolves, hsettled, hinv⟩ : Meets .instruction ctx.host m' _ _ (allocate _ ctx m') :=
        allocate_meets _ m'
      refine ⟨hm.1.trans hevolves, fun hs => hsettled (hm.2.1 hs), fun hpre => ?_⟩
      obtain ⟨hinv', _, hknown⟩ := hm.2.2 hpre
      exact ⟨(hinv ⟨hinv', fun _ => hknown.started⟩).1, trivial⟩

/-- Every request ends as it has to. -/
theorem meeting_perform (request : Request) : Meeting ctx request.perform := by
  have hupholds : Upholds .instruction ctx request.Fits request.perform _ := upholds_perform request
  cases request with
  | newArrayOf element values => exact (meeting_newArrayOf element values).discard
  | setElement object i v =>
      exact modifyObject_meets (P := fun _ => True) (fun _ => rfl) fun _ => rfl
  | _ => exact hupholds.meets

end Safety

section Runs

variable {α : Type} {host : Host} {steps nesting : Nat} {x : Exec α} {m : Machine}

/-- What a computation leaves behind when the program around the engine asks for it. -/
theorem runWithin_evolves (hx : Meeting (Session.context host steps nesting) x) (m : Machine) :
    Evolves m (endOf (Session.runWithin host steps nesting x m)) := by
  have hm := hx m
  unfold Session.runWithin
  split
  case h_1 hrun =>
    rw [hrun] at hm
    exact hm.1
  case h_2 hrun =>
    rw [hrun] at hm
    exact hm.1.trans (evolvesBy_note (by simp) _)
  case h_3 hrun =>
    rw [hrun] at hm
    exact hm.1

/-- What is thrown comes to the program around the engine, so nothing is left to be taken up. -/
theorem runWithin_settled (hx : Meeting (Session.context host steps nesting) x) (hm : m.Settled) :
    (endOf (Session.runWithin host steps nesting x m)).Settled := by
  have hmeets := hx m
  unfold Session.runWithin
  split
  case h_1 hrun =>
    rw [hrun] at hmeets
    exact hmeets.2.1 hm
  case h_2 hrun =>
    rw [hrun] at hmeets
    exact (hmeets.2.1 hm).takenUp (.inl rfl)
  case h_3 hthrown hrun =>
    rw [hrun] at hmeets
    exact (hmeets.2.1 hm).settled hthrown

/-- The history stays true to the class table even where the bound on steps is reached. -/
theorem runWithin_inv (hx : Meeting (Session.context host steps nesting) x) (hm : m.Inv host) :
    (endOf (Session.runWithin host steps nesting x m)).Recorded host ∧
      ((∀ m', Session.runWithin host steps nesting x m ≠ .error .exhausted m') →
        (endOf (Session.runWithin host steps nesting x m)).Inv host) := by
  have hmeets := hx m
  rw [context_host] at hmeets
  unfold Session.runWithin
  split
  case h_1 hrun =>
    rw [hrun] at hmeets
    obtain ⟨hinv, _⟩ := hmeets.2.2 ⟨hm, trivial⟩
    exact ⟨hinv.recorded, fun _ => hinv⟩
  case h_2 r m' hrun =>
    rw [hrun] at hmeets
    obtain ⟨_, hkept⟩ := hmeets.2.2 ⟨hm, trivial⟩
    have hinv := (hkept (by simp)).note (e := .arrived r m'.frames) trivial (by simp) (by simp)
    exact ⟨hinv.recorded, fun _ => hinv⟩
  case h_3 e m' _ hrun =>
    rw [hrun] at hmeets
    obtain ⟨hrecorded, hkept⟩ := hmeets.2.2 ⟨hm, trivial⟩
    refine ⟨hrecorded, fun hdone => hkept ?_⟩
    rintro rfl
    exact hdone m' rfl

end Runs

/-- Which classes there are depends on the class provider alone. -/
theorem define_congr {host now : Host} (h : now.provider = host.provider) :
    define now = define host := by
  funext d
  unfold define defineInstance
  rw [h]

theorem follows_congr {host now : Host} (h : now.provider = host.provider) :
    Follows now = Follows host := by
  funext d s
  rw [Follows, Follows, define_congr h]

theorem leadsIntoCycle_congr {host now : Host} (h : now.provider = host.provider)
    (d : Descriptor) : LeadsIntoCycle now d ↔ LeadsIntoCycle host d := by
  rw [LeadsIntoCycle, LeadsIntoCycle, follows_congr h]

section Providers

variable {host now : Host} (h : now.provider = host.provider)
include h

theorem ClassTable.Sound.of_provider {t : ClassTable} {path : List Descriptor}
    (ht : t.Sound host path) : t.Sound now path where
  defined := by rw [define_congr h]; exact ht.defined
  linking := ht.linking
  linked := ht.linked
  failed hc hstate := by
    obtain ⟨hunresolved, hcircularity, hbare⟩ := ht.failed hc hstate
    exact ⟨hunresolved, hcircularity.trans (leadsIntoCycle_congr h _).symm, hbare⟩

theorem Lawful.of_provider {history : List Event} (hlawful : Lawful host history) :
    Lawful now history := by
  induction history with
  | nil => trivial
  | cons e earlier ih =>
      obtain ⟨he, htable, hearlier⟩ := hlawful
      exact ⟨he, fun hchanged => (htable hchanged).of_provider h, ih hearlier⟩

theorem Machine.Recorded.of_provider {m : Machine} (hm : m.Recorded host) : m.Recorded now where
  lawful := hm.lawful.of_provider h
  table := hm.table
  bare := hm.bare

theorem Machine.Inv.of_provider {m : Machine} (hm : m.Inv host) : m.Inv now where
  table := hm.table.of_provider h
  supers := hm.supers
  resolved := hm.resolved
  heap := hm.heap
  frames := hm.frames
  recorded := hm.recorded.of_provider h
  initializers := hm.initializers

end Providers

/-- An engine that has not done anything. -/
structure Machine.IsNew (m : Machine) : Prop where
  classes : m.classes = {}
  heap : m.heap = #[]
  frames : m.frames = []
  history : m.history = .of []
  breakdowns : m.breakdowns = .of []

/-- What the program around an engine does with it. The surroundings may be others each time, as long
as they provide the same classes. A request that goes on for ever leaves nothing to go on with. -/
inductive Transition (host : Host) (m : Machine) : Machine → Prop
  | ask {now : Host} (hnow : now.provider = host.provider) (request : Request) {steps nesting : Nat}
      (hdone : ∀ m', Session.runWithin now steps nesting request.perform m ≠ .error .exhausted m') :
      Transition host m (endOf (Session.runWithin now steps nesting request.perform m))
  /-- Limits, natives and output are changed from outside. -/
  | adjust {m' : Machine} (hclasses : m'.classes = m.classes) (hheap : m'.heap = m.heap)
      (hframes : m'.frames = m.frames) (hhistory : m'.history = m.history)
      (hbreakdowns : m'.breakdowns = m.breakdowns) : Transition host m m'

/-- An engine as the program around it finds it between two requests. -/
def Reachable (host : Host) (m : Machine) : Prop :=
  ∃ m₀ : Machine, m₀.IsNew ∧ Relation.ReflTransGen (Transition host) m₀ m

section Reachability

variable {host : Host} {m m' : Machine}

theorem Machine.IsNew.inv (h : m.IsNew) (host : Host) : m.Inv host where
  table := h.classes ▸ ClassTable.sound_empty host
  supers hc := by simp [h.classes] at hc
  resolved hc := by simp [h.classes] at hc
  heap ho := by simp [h.heap] at ho
  frames f hf := by simp [h.frames] at hf
  recorded := {
    lawful := by rw [h.history, Ghost.val_of]; trivial
    table := by rw [h.history, h.classes, Ghost.val_of]; rfl
    bare b hb := by simp [h.breakdowns] at hb }
  initializers hin := by simp [h.history] at hin

theorem Machine.IsNew.settled (h : m.IsNew) : m.Settled := by
  rw [Settled, h.history, Ghost.val_of]
  exact ⟨trivial, rfl⟩

/-- A request leaves no frame behind. -/
theorem runWithin_frames {α : Type} {steps nesting : Nat} {x : Exec α}
    (hx : Meeting (Session.context host steps nesting) x) (hm : m.frames = []) :
    (endOf (Session.runWithin host steps nesting x m)).frames = [] :=
  (runWithin_evolves hx m).frames_nil hm

theorem Transition.frames (h : Transition host m m') (hm : m.frames = []) : m'.frames = [] := by
  cases h with
  | ask _ request _ => exact runWithin_frames (meeting_perform request) hm
  | adjust _ _ hframes _ _ => exact hframes.trans hm

theorem Transition.settled (h : Transition host m m') (hm : m.Settled) : m'.Settled := by
  cases h with
  | ask _ request _ => exact runWithin_settled (meeting_perform request) hm
  | adjust _ _ _ hhistory _ => exact hm.of_eq hhistory

theorem Transition.inv (h : Transition host m m') (hm : m.Inv host) : m'.Inv host := by
  cases h with
  | ask hnow request hdone =>
      exact ((runWithin_inv (meeting_perform request) (hm.of_provider hnow)).2 hdone).of_provider
        hnow.symm
  | adjust hclasses hheap hframes hhistory hbreakdowns =>
      exact hm.of_eq hclasses hheap hframes hhistory hbreakdowns

/-- The invariant of every engine between two requests. -/
theorem Reachable.inv (h : Reachable host m) : m.Inv host := by
  obtain ⟨m₀, hnew, hruns⟩ := h
  induction hruns with
  | refl => exact hnew.inv host
  | tail _ hstep ih => exact hstep.inv ih

theorem Reachable.settled (h : Reachable host m) : m.Settled := by
  obtain ⟨m₀, hnew, hruns⟩ := h
  induction hruns with
  | refl => exact hnew.settled
  | tail _ hstep ih => exact hstep.settled ih

/-- Between two requests no frame is active. -/
theorem Reachable.frames (h : Reachable host m) : m.frames = [] := by
  obtain ⟨m₀, hnew, hruns⟩ := h
  induction hruns with
  | refl => exact hnew.frames
  | tail _ hstep ih => exact hstep.frames ih

/-- An engine between two requests, or at the end of one, also of one that was cut off somewhere on
the way. -/
inductive Observed (host : Host) : Machine → Prop
  | idle {m : Machine} (hm : Reachable host m) : Observed host m
  | busy {m : Machine} {now : Host} (hm : Reachable host m) (hnow : now.provider = host.provider)
      (request : Request) (steps nesting : Nat) :
      Observed host (endOf (Session.runWithin now steps nesting request.perform m))

/-- The history of an engine is lawful at every moment. -/
theorem Observed.recorded (h : Observed host m) : m.Recorded host := by
  cases h with
  | idle hm => exact hm.inv.recorded
  | busy hm hnow request steps nesting =>
      obtain ⟨hrecorded, _⟩ := runWithin_inv (meeting_perform request) (hm.inv.of_provider hnow)
      exact hrecorded.of_provider hnow.symm

theorem Observed.settled (h : Observed host m) : m.Settled := by
  cases h with
  | idle hm => exact hm.settled
  | busy hm _ request _ _ => exact runWithin_settled (meeting_perform request) hm.settled

theorem reachable_fresh (host : Host) : Reachable host Session.fresh :=
  ⟨Session.fresh, ⟨rfl, rfl, rfl, rfl, rfl⟩, .refl⟩

end Reachability

end ClassEngine
