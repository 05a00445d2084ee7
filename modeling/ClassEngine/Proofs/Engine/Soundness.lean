import ClassEngine.Proofs.Engine.Coherence
import ClassEngine.Proofs.Engine.Invariant
import ClassEngine.Proofs.Engine.Surfacing

/-!
Sound computations: they leave the engine evolved, never lose an object that an activation has
raised, keep the invariant, and keep the engine coherent. The rules here follow how computations are
put together, so that each part of the engine needs only one statement about itself.
-/

namespace ClassEngine

open Machine

variable {α β : Type} {F : FrameRel} {host : Host} {ctx : Context}

/-- What the end of a computation that started in `m` has to be like. The last part of each case is
promised under `pre` only. -/
def Meets (F : FrameRel) (host : Host) (m : Machine) (pre : Prop) (Q : α → Machine → Prop) :
    EStateM.Result Raise Machine α → Prop
  | .ok a m' => EvolvesBy F m m' ∧ (m.Settled → m'.Settled) ∧ (pre → m'.Inv host ∧ Q a m')
  | .error e m' => EvolvesBy F m m' ∧ (m.Settled → m'.Raises e) ∧
      (pre → m'.Recorded host ∧ (e ≠ .exhausted → m'.Inv host))

theorem Meets.evolves {m : Machine} {pre : Prop} {Q : α → Machine → Prop}
    {res : EStateM.Result Raise Machine α} (h : Meets F host m pre Q res) :
    EvolvesBy F m (endOf res) := by
  cases res with
  | ok _ _ => exact h.1
  | error _ _ => exact h.1

/-- The same end, of which less is promised. -/
theorem Meets.imp {m : Machine} {pre pre' : Prop} {Q Q' : α → Machine → Prop}
    {res : EStateM.Result Raise Machine α} (h : Meets F host m pre Q res) (hpre : pre' → pre)
    (hQ : ∀ a m', res = .ok a m' → pre' → EvolvesBy F m m' → m'.Inv host → Q a m' → Q' a m') :
    Meets F host m pre' Q' res := by
  cases res with
  | ok a m' =>
      refine ⟨h.1, h.2.1, fun hp => ?_⟩
      obtain ⟨hinv, hqa⟩ := h.2.2 (hpre hp)
      exact ⟨hinv, hQ a m' rfl hp h.1 hinv hqa⟩
  | error e m' => exact ⟨h.1, h.2.1, fun hp => h.2.2 (hpre hp)⟩

/-- The end of a computation seen from further back. -/
theorem Meets.after {m m' : Machine} {pre pre' : Prop} {Q : α → Machine → Prop}
    {res : EStateM.Result Raise Machine α} (h : Meets F host m' pre' Q res)
    (hevolves : EvolvesBy F m m') (hsettled : m.Settled → m'.Settled) (hpre : pre → pre') :
    Meets F host m pre Q res := by
  cases res with
  | ok a m'' =>
      exact ⟨hevolves.trans h.1, fun hm => h.2.1 (hsettled hm), fun hp => h.2.2 (hpre hp)⟩
  | error e m'' =>
      exact ⟨hevolves.trans h.1, fun hm => h.2.1 (hsettled hm), fun hp => h.2.2 (hpre hp)⟩

/-- From every state the computation ends as it has to, and from one that satisfies the invariant
and `P` it keeps the invariant, gives a result that satisfies `Q`, and leaves a coherent engine
coherent, even where it fails. -/
structure Upholds (F : FrameRel) (ctx : Context) (P : Machine → Prop) (x : Exec α)
    (Q : α → Machine → Prop) : Prop where
  meets : ∀ m, Meets F ctx.host m (m.Inv ctx.host ∧ P m) Q (x ctx m)
  coherent : ∀ {a} m, m.Inv ctx.host → P m → m.Coherent a → (endOf (x ctx m)).Coherent a

/-- The computation does all that, and no fatal error is lost in it. -/
structure SoundBy (F : FrameRel) (ctx : Context) (P : Machine → Prop) (x : Exec α)
    (Q : α → Machine → Prop) : Prop extends Upholds F ctx P x Q where
  surfaces : Surfacing ctx x

theorem SoundBy.evolves_of_ok {P : Machine → Prop} {x : Exec α} {Q : α → Machine → Prop}
    {m m' : Machine} {a : α} (hx : SoundBy F ctx P x Q) (h : x ctx m = .ok a m') :
    EvolvesBy F m m' := by
  have hevolves := (hx.meets m).evolves
  rwa [h] at hevolves

/-- A sound computation that is not a whole instruction. -/
abbrev Sound (ctx : Context) (P : Machine → Prop) (x : Exec α) (Q : α → Machine → Prop) : Prop :=
  SoundBy .instruction ctx P x Q

/-- A sound computation of which nothing more is asked or said. -/
def Safe (ctx : Context) (x : Exec α) : Prop :=
  Sound ctx (fun _ => True) x fun _ _ => True

/-- What stays true however the engine evolves. -/
def Stable (P : Machine → Prop) : Prop :=
  ∀ ⦃m m'⦄, m.classes.Evolves m'.classes → HeapEvolves m.heap m'.heap → P m → P m'

theorem stable_true : Stable fun _ => True :=
  fun _ _ _ _ h => h

theorem stable_const (p : Prop) : Stable fun _ => p :=
  fun _ _ _ _ h => h

theorem stable_started (d : Descriptor) : Stable fun m => m.classes.Started d :=
  fun _ _ hclasses _ hd => hclasses.started hd

theorem stable_hasType (r : Ref) (d : Descriptor) : Stable fun m => m.moment.HasType r d :=
  fun _ _ _ hheap h => h.mono hheap

theorem stable_fits (d : Descriptor) (v : Value) : Stable fun m => m.moment.Fits d v :=
  fun _ _ hclasses hheap h => h.mono hclasses.retains hheap

theorem stable_finds (d : Descriptor) (ref : MemberRef) (owner : Descriptor) :
    Stable fun m => m.classes.Finds d ref owner :=
  fun _ _ hclasses _ h => h.retained hclasses.retains

theorem Stable.and {P Q : Machine → Prop} (hP : Stable P) (hQ : Stable Q) :
    Stable fun m => P m ∧ Q m :=
  fun _ _ hclasses hheap hm => ⟨hP hclasses hheap hm.1, hQ hclasses hheap hm.2⟩

theorem stable_all {ι : Type} {P : ι → Machine → Prop} (h : ∀ i, Stable (P i)) :
    Stable fun m => ∀ i, P i m :=
  fun _ _ hclasses hheap hm i => h i hclasses hheap (hm i)

theorem stable_imp {p : Prop} {P : Machine → Prop} (h : p → Stable P) : Stable fun m => p → P m :=
  fun _ _ hclasses hheap hm hp => h hp hclasses hheap (hm hp)

section Rules

variable {P P' : Machine → Prop} {Q Q' : α → Machine → Prop} {R : β → Machine → Prop}

/-- What is known at the start may be more than is needed, and what is known at the end less than
is given. -/
theorem SoundBy.conseq {x : Exec α} (h : SoundBy F ctx P x Q)
    (hP : ∀ m, m.Inv ctx.host → P' m → P m) (hQ : ∀ a m, m.Inv ctx.host → Q a m → Q' a m) :
    SoundBy F ctx P' x Q' := by
  refine ⟨⟨fun m => ?_, fun m hinv hpre => h.coherent m hinv (hP m hinv hpre)⟩, h.surfaces⟩
  refine (h.meets m).imp (fun hpre => ⟨hpre.1, hP m hpre.1 hpre.2⟩) ?_
  exact fun a m' _ _ _ hinv hqa => hQ a m' hinv hqa

theorem SoundBy.pre {x : Exec α} (h : SoundBy F ctx P x Q)
    (hP : ∀ m, m.Inv ctx.host → P' m → P m) : SoundBy F ctx P' x Q :=
  h.conseq hP fun _ _ _ hq => hq

theorem SoundBy.post {x : Exec α} (h : SoundBy F ctx P x Q)
    (hQ : ∀ a m, m.Inv ctx.host → Q a m → Q' a m) : SoundBy F ctx P x Q' :=
  h.conseq (fun _ _ hp => hp) hQ

theorem SoundBy.mono {G : FrameRel} {x : Exec α} (h : SoundBy F ctx P x Q) (hle : F.le G) :
    SoundBy G ctx P x Q := by
  refine ⟨⟨fun m => ?_, h.coherent⟩, h.surfaces⟩
  have hm := h.meets m
  cases hx : x ctx m with
  | ok a m' =>
      rw [hx] at hm
      exact ⟨hm.1.mono hle, hm.2⟩
  | error e m' =>
      rw [hx] at hm
      exact ⟨hm.1.mono hle, hm.2⟩

/-- What is stable is still true at the end. -/
theorem SoundBy.keep {x : Exec α} (h : SoundBy F ctx P x Q) (hP : Stable P) :
    SoundBy F ctx P x fun a m => P m ∧ Q a m := by
  refine ⟨⟨fun m => (h.meets m).imp id ?_, h.coherent⟩, h.surfaces⟩
  exact fun a m' _ hpre hevolves _ hqa => ⟨hP hevolves.classes hevolves.heap hpre.2, hqa⟩

/-- What every result satisfies may be used. -/
theorem SoundBy.ensures {x : Exec α} (h : SoundBy F ctx P x Q)
    (hx : ∀ ⦃m a m'⦄, x ctx m = .ok a m' → Q' a m') :
    SoundBy F ctx P x fun a m => Q a m ∧ Q' a m :=
  ⟨⟨fun m => (h.meets m).imp id fun _ _ hres _ _ _ hqa => ⟨hqa, hx hres⟩, h.coherent⟩, h.surfaces⟩

/-- What is known of a result. -/
theorem SoundBy.of_ok {x : Exec α} (h : SoundBy F ctx P x Q) {m m' : Machine} {a : α}
    (hinv : m.Inv ctx.host) (hpre : P m) (hx : x ctx m = .ok a m') :
    m'.Inv ctx.host ∧ Q a m' := by
  have hm := h.meets m
  rw [hx] at hm
  exact hm.2.2 ⟨hinv, hpre⟩

theorem SoundBy.pure {a : α} (h : ∀ m, m.Inv ctx.host → P m → Q a m) :
    SoundBy F ctx P (pure a) Q :=
  ⟨⟨fun m => ⟨.refl m, id, fun hpre => ⟨hpre.1, h m hpre.1 hpre.2⟩⟩, fun _ _ _ hm => hm⟩, .pure a⟩

theorem Upholds.throw (e : Raise) : Upholds F ctx P (throw e : Exec α) Q :=
  ⟨fun m => ⟨.refl m, fun h => h.raises e, fun hpre => ⟨hpre.1.recorded, fun _ => hpre.1⟩⟩,
    fun _ _ _ hm => hm⟩

theorem SoundBy.throw {e : Raise} (he : e.isFatal = false) :
    SoundBy F ctx P (throw e : Exec α) Q :=
  ⟨.throw e, .throw he⟩

/-- A failure that carries no guest object comes up. -/
theorem SoundBy.giveUp {e : Raise} (he : e.object? = none) :
    SoundBy F ctx P (Exec.giveUp e : Exec α) Q := by
  refine ⟨⟨fun m => ?_, fun m _ _ hm => hm.of_eq rfl rfl rfl⟩, .giveUp e⟩
  have hbroken : m.Inv ctx.host → (m.breakDown e).Inv ctx.host := fun hinv => hinv.breakDown he
  refine ⟨evolvesBy_of_eq rfl rfl rfl rfl rfl rfl rfl, fun h => (h.of_eq rfl).raises e, fun hpre => ?_⟩
  exact ⟨(hbroken hpre.1).recorded, fun _ => hbroken hpre.1⟩

/-- What comes after a failure does not matter. -/
theorem SoundBy.fails_bind {x : Exec β} {Q' : β → Machine → Prop} (hx : SoundBy F ctx P x Q')
    (hfails : ∀ m b m', x ctx m ≠ .ok b m') (f : β → Exec α) : SoundBy F ctx P (x >>= f) Q := by
  refine ⟨⟨fun m => ?_, fun m hinv hpre hm => ?_⟩, fun m => ?_⟩
  · have hmeets := hx.meets m
    cases hres : x ctx m with
    | ok b m' => exact absurd hres (hfails m b m')
    | error e m' =>
        rw [hres] at hmeets
        rw [Exec.bind_of_error hres]
        exact hmeets
  · have hend := hx.coherent m hinv hpre hm
    cases hres : x ctx m with
    | ok b m' => exact absurd hres (hfails m b m')
    | error e m' =>
        rw [hres] at hend
        rw [Exec.bind_of_error hres]
        exact hend
  · have hend := hx.surfaces m
    cases hres : x ctx m with
    | ok b m' => exact absurd hres (hfails m b m')
    | error e m' =>
        rw [hres] at hend
        rw [Exec.bind_of_error hres]
        exact hend

theorem SoundBy.throw_bind {e : Raise} (he : e.isFatal = false) (f : β → Exec α) :
    SoundBy F ctx P (MonadExcept.throw e >>= f) Q :=
  (SoundBy.throw (Q := fun _ _ => True) he).fails_bind (fun m b m' h => by contradiction) f

theorem SoundBy.giveUp_bind {e : Raise} (he : e.object? = none) (f : β → Exec α) :
    SoundBy F ctx P (Exec.giveUp e >>= f) Q :=
  (SoundBy.giveUp (Q := fun _ _ => True) he).fails_bind (fun m b m' h => by contradiction) f

/-- One computation after the other. -/
theorem Upholds.seq {x : Exec α} {f : α → Exec β} (hx : Upholds F ctx P x Q)
    (hf : ∀ a, Upholds F ctx (Q a) (f a) R) : Upholds F ctx P (x >>= f) R := by
  refine ⟨fun m => ?_, fun m hinv hpre hcoherent => ?_⟩
  case refine_2 =>
    have hm := hx.meets m
    have hend := hx.coherent m hinv hpre hcoherent
    cases hres : x ctx m with
    | error e m' =>
        rw [hres] at hend
        rw [Exec.bind_of_error hres]
        exact hend
    | ok a m' =>
        rw [hres] at hm hend
        obtain ⟨hinv', hqa⟩ := hm.2.2 ⟨hinv, hpre⟩
        rw [Exec.bind_of_ok hres]
        exact (hf a).coherent m' hinv' hqa hend
  have hm := hx.meets m
  cases hres : x ctx m with
  | error e m' =>
      rw [hres] at hm
      rw [Exec.bind_of_error hres]
      exact hm
  | ok a m' =>
      rw [hres] at hm
      rw [Exec.bind_of_ok hres]
      exact ((hf a).meets m').after hm.1 hm.2.1 hm.2.2

theorem SoundBy.seq {x : Exec α} {f : α → Exec β} (hx : SoundBy F ctx P x Q)
    (hf : ∀ a, SoundBy F ctx (Q a) (f a) R) : SoundBy F ctx P (x >>= f) R :=
  ⟨hx.toUpholds.seq fun a => (hf a).toUpholds, hx.surfaces.bind fun a => (hf a).surfaces⟩

/-- One computation after the other, where what is known at the start stays known. -/
theorem SoundBy.bind {x : Exec α} {f : α → Exec β} (hP : Stable P) (hx : SoundBy F ctx P x Q)
    (hf : ∀ a, SoundBy F ctx (fun m => P m ∧ Q a m) (f a) R) : SoundBy F ctx P (x >>= f) R :=
  (hx.keep hP).seq hf

/-- A computation that looks at the state first. -/
theorem SoundBy.get {f : Machine → Exec α}
    (h : ∀ s, SoundBy F ctx (fun m => P m ∧ m = s) (f s) Q) : SoundBy F ctx P (get >>= f) Q := by
  have hget : ∀ m, (MonadState.get >>= f) ctx m = f m ctx m := fun m => Exec.bind_of_ok rfl
  refine ⟨⟨fun m => ?_, fun m hinv hpre => hget m ▸ (h m).coherent m hinv ⟨hpre, rfl⟩⟩,
    Surfacing.get.bind fun s => (h s).surfaces⟩
  rw [hget]
  exact ((h m).meets m).imp (fun hpre => ⟨hpre.1, hpre.2, rfl⟩) fun _ _ _ _ _ _ hqa => hqa

theorem SoundBy.safe {x : Exec α} (h : Sound ctx (fun _ => True) x Q) : Safe ctx x :=
  h.post fun _ _ _ _ => trivial

theorem Safe.sound {x : Exec α} (h : Safe ctx x) : Sound ctx P x fun _ _ => True :=
  SoundBy.pre h fun _ _ _ => trivial

theorem Safe.soundBy {x : Exec α} (h : Safe ctx x) (hle : FrameRel.instruction.le F) :
    SoundBy F ctx (fun _ => True) x fun _ _ => True :=
  SoundBy.mono h hle

theorem Safe.evolves {x : Exec α} (h : Safe ctx x) {m m' : Machine} {a : α}
    (hx : x ctx m = .ok a m') : Evolves m m' := by
  have hm := h.toUpholds.meets m
  rw [hx] at hm
  exact hm.1

/-- A safe computation after which one goes on with what was known before. -/
theorem Safe.then {x : Exec α} {f : α → Exec β} (hP : Stable P) (hx : Safe ctx x)
    (hf : ∀ a, Sound ctx P (f a) R) : Sound ctx P (x >>= f) R :=
  SoundBy.bind hP hx.sound fun a => (hf a).pre fun _ _ h => h.1

@[grind ←] theorem Safe.bind {x : Exec α} {f : α → Exec β} (hx : Safe ctx x)
    (hf : ∀ a, Safe ctx (f a)) : Safe ctx (x >>= f) :=
  SoundBy.seq hx hf

@[grind ←] theorem Safe.pure (a : α) : Safe ctx (pure a) :=
  SoundBy.pure fun _ _ _ => trivial

@[grind ←] theorem Safe.throw {e : Raise} (he : e.isFatal = false) :
    Safe ctx (throw e : Exec α) :=
  SoundBy.throw he

end Rules

section Primitives

variable {P : Machine → Prop}

@[grind ←] theorem safe_get : Safe ctx (get : Exec Machine) :=
  ⟨⟨fun m => ⟨.refl m, id, fun hpre => ⟨hpre.1, trivial⟩⟩, fun _ _ _ hm => hm⟩, .get⟩

@[grind ←] theorem safe_read : Safe ctx (read : Exec Context) :=
  ⟨⟨fun m => ⟨.refl m, id, fun hpre => ⟨hpre.1, trivial⟩⟩, fun _ _ _ hm => hm⟩, .read⟩

/-- A change of what the invariant does not speak of. -/
@[grind ←] theorem safe_modify {f : Machine → Machine}
    (hclasses : (fun m => (f m).classes) = Machine.classes)
    (hheap : (fun m => (f m).heap) = Machine.heap)
    (hframes : (fun m => (f m).frames) = Machine.frames)
    (hhistory : (fun m => (f m).history) = Machine.history)
    (hlimit : (fun m => (f m).maxDepth) = Machine.maxDepth)
    (hguard : (fun m => (f m).handlingOverflow) = Machine.handlingOverflow)
    (hmoments : (fun m => (f m).moments) = Machine.moments)
    (hbreakdowns : (fun m => (f m).breakdowns) = Machine.breakdowns) :
    Safe ctx (modify f : Exec Unit) := by
  refine ⟨⟨fun m => ?_, fun m _ _ hm => hm.of_eq (congrFun hclasses m) (congrFun hheap m)
    (congrFun hmoments m)⟩, .modify (congrFun hbreakdowns)⟩
  have hclasses := congrFun hclasses m
  have hheap := congrFun hheap m
  have hframes := congrFun hframes m
  have hhistory := congrFun hhistory m
  refine ⟨evolvesBy_of_eq hclasses hheap hframes hhistory (congrFun hlimit m) (congrFun hguard m)
    (congrFun hmoments m), ?_, ?_⟩
  · intro hsettled
    exact hsettled.of_eq hhistory
  · intro hpre
    exact ⟨hpre.1.of_eq hclasses hheap hframes hhistory (congrFun hbreakdowns m), trivial⟩

@[grind ←] theorem safe_mark : Safe ctx Exec.mark :=
  ⟨⟨fun m => ⟨evolvesBy_mark m, fun hsettled => hsettled.of_eq rfl,
    fun hpre => ⟨hpre.1.of_eq rfl rfl rfl rfl rfl, trivial⟩⟩, fun _ _ _ hm => hm.mark⟩,
    .modify fun _ => rfl⟩

@[grind ←] theorem safe_panic (f : Fault) : Safe ctx (Exec.panic f : Exec α) :=
  SoundBy.throw rfl

theorem sound_check (r : Except Fault α) :
    Sound ctx P (Exec.check r) fun a m => P m ∧ r = .ok a := by
  cases r with
  | ok a => exact .pure fun _ _ h => ⟨h, rfl⟩
  | error f => exact .throw rfl

@[grind ←] theorem safe_check (r : Except Fault α) : Safe ctx (Exec.check r) :=
  (sound_check r).safe

/-- A symbol cannot be bound, and no guest object is the cause. -/
theorem soundBy_unresolved (kind : SymbolKind) (symbol : Text) {cause : Option Cause}
    {Q : α → Machine → Prop} (hcause : cause.bind Cause.object? = none) :
    SoundBy F ctx P (Exec.unresolved kind symbol cause) Q :=
  .giveUp hcause

@[grind ←] theorem safe_unresolved (kind : SymbolKind) (symbol : Text) :
    Safe ctx (Exec.unresolved kind symbol none : Exec α) :=
  soundBy_unresolved kind symbol rfl

@[grind ←] theorem safe_giveUp (method : Text) (pc : Int) (reason : Text) :
    Safe ctx (Exec.giveUp (.malformed ⟨method, pc, reason, none⟩) : Exec α) :=
  SoundBy.giveUp rfl

/-- An event that may happen and that neither ends an activation nor starts an initializer. -/
theorem soundBy_note {e : Event} (hchanged : ∀ t, e ≠ .changed t)
    (hstarts : ∀ d, e ≠ .initializer d) (hends : ∀ r callers, e ≠ .unwound r callers)
    (hlawful : ∀ m, m.Inv ctx.host → P m → e.Lawful m.history.val) :
    SoundBy F ctx P (Exec.note e) fun _ _ => True := by
  refine ⟨⟨fun m => ?_, fun m _ _ hm => hm.note e⟩, .modify fun _ => rfl⟩
  refine ⟨evolvesBy_note hstarts m, fun hsettled => hsettled.note hends, ?_⟩
  intro hpre
  refine ⟨hpre.1.note (hlawful m hpre.1 hpre.2) hchanged ?_, trivial⟩
  intro d hd
  exact absurd hd (hstarts d)

/-- What becomes of an instance is kept. What is stable stays known. -/
theorem sound_markAccess {a : Access} {S : Machine → Prop} (hS : Stable S)
    (h : ∀ m, m.Inv ctx.host → P m → S m → m.classes.Recalls → m.moment.Bears a) :
    Sound ctx (fun m => P m ∧ S m) (Exec.markAccess a) fun _ m => S m := by
  refine ⟨⟨fun m => ?_, fun m hinv hpre hm => hm.markAccess fun _ => h m hinv hpre.1 hpre.2⟩,
    .modify fun _ => rfl⟩
  refine ⟨evolvesBy_markAccess a m, fun hsettled => hsettled.of_eq rfl, fun hpre => ?_⟩
  have hevolves : Evolves m (m.markAccess a) := evolvesBy_markAccess a m
  exact ⟨hpre.1.of_eq rfl rfl rfl rfl rfl, hS hevolves.classes hevolves.heap hpre.2.2⟩

theorem sound_note_statics (d : Descriptor) :
    Sound ctx (fun m => m.classes.Started d) (Exec.note (.statics d)) fun _ _ => True := by
  refine soundBy_note (by simp) (by simp) (by simp) ?_
  intro m hinv hd
  rw [Event.Lawful, hinv.recorded.table]
  exact hd

theorem soundBy_note_executing (d : Descriptor) :
    SoundBy F ctx (fun m => m.classes.Started d) (Exec.note (.executing d)) fun _ _ => True := by
  refine soundBy_note (by simp) (by simp) (by simp) ?_
  intro m hinv hd
  rw [Event.Lawful, hinv.recorded.table]
  exact hd

theorem allocate_meets (o : Object) (m : Machine) :
    Meets F ctx.host m (m.Inv ctx.host ∧ (o.storage = false → m.classes.Started o.type))
      (fun r m' => m'.moment.HasType r o.type) (Exec.allocate o ctx m) := by
  refine ⟨evolvesBy_withHeap (heapEvolves_push _ _), fun hsettled => hsettled.of_eq rfl, ?_⟩
  intro hpre
  refine ⟨hpre.1.withHeap ?_, o, ?_, rfl⟩
  · intro i o' ho' hstorage
    rw [Array.getElem?_push] at ho'
    split at ho'
    · obtain rfl := Option.some.inj ho'
      exact hpre.2 hstorage
    · exact hpre.1.heap ho' hstorage
  · change (m.heap.push o)[m.heap.size + 1 - 1]? = some o
    simp

/-- An object whose elements may stand there. -/
theorem sound_allocate (o : Object) :
    Sound ctx (fun m => (o.storage = false → m.classes.Started o.type) ∧
      (m.Coherent .arrays → m.moment.Admits o)) (Exec.allocate o)
      fun r m => m.moment.HasType r o.type := by
  refine ⟨⟨fun m => ?_, fun m _ hpre hm => hm.push fun ha => hpre.2 (ha ▸ hm)⟩, fun _ => rfl⟩
  exact (allocate_meets o m).imp (fun hpre => ⟨hpre.1, hpre.2.1⟩) fun _ _ _ _ _ _ htype => htype

/-- A change of an object that keeps its class. -/
theorem modifyObject_meets {r : Ref} {f : Object → Object} (htype : ∀ o, (f o).type = o.type)
    (hstorage : ∀ o, (f o).storage = o.storage) (m : Machine) :
    Meets F ctx.host m (m.Inv ctx.host ∧ P m) (fun _ _ => True) (Exec.modifyObject r f ctx m) := by
  refine ⟨evolvesBy_withHeap (heapEvolves_modify _ _ fun o => ⟨htype o, hstorage o⟩),
    fun hsettled => hsettled.of_eq rfl, ?_⟩
  intro hpre
  refine ⟨hpre.1.withHeap ?_, trivial⟩
  intro i o' ho' hfalse
  rw [Array.getElem?_modify] at ho'
  split at ho'
  · obtain ⟨o, ho, rfl⟩ := Option.map_eq_some_iff.mp ho'
    rw [htype]
    exact hpre.1.heap ho (hstorage o ▸ hfalse)
  · exact hpre.1.heap ho' hfalse

/-- A change of an object that keeps its class and gives it elements that may stand there. -/
theorem sound_modifyObject {r : Ref} {f : Object → Object} (htype : ∀ o, (f o).type = o.type)
    (hstorage : ∀ o, (f o).storage = o.storage) :
    Sound ctx (fun m => m.Coherent .arrays →
        ∀ o, m.heap[r.number - 1]? = some o → m.moment.Admits (f o))
      (Exec.modifyObject r f) fun _ _ => True := by
  refine ⟨⟨modifyObject_meets htype hstorage, fun m _ hpre hm => ?_⟩, .modify fun _ => rfl⟩
  exact hm.modify (fun o => ⟨htype o, hstorage o⟩) fun ha => hpre (ha ▸ hm)

/-- A change of an object that keeps its class and its elements. -/
@[grind ←] theorem safe_modifyObject {r : Ref} {f : Object → Object}
    (htype : ∀ o, (f o).type = o.type) (hstorage : ∀ o, (f o).storage = o.storage)
    (helements : ∀ o, (f o).elements = o.elements) : Safe ctx (Exec.modifyObject r f) := by
  refine .pre (sound_modifyObject htype hstorage) fun m _ _ hm o ho => ?_
  exact (hm.now ho).of_eq (htype o) (helements o)

/-- The same, for a change that is a record update. -/
@[grind ←] theorem safe_updateObject {r : Ref} {f : Object → Object}
    (htype : (fun o => (f o).type) = Object.type)
    (hstorage : (fun o => (f o).storage) = Object.storage)
    (helements : (fun o => (f o).elements) = Object.elements) : Safe ctx (Exec.modifyObject r f) :=
  safe_modifyObject (congrFun htype) (congrFun hstorage) (congrFun helements)

theorem sound_objectAt (r : Ref) :
    Sound ctx P (Exec.objectAt r) fun o m => P m ∧ m.heap[r.number - 1]? = some o := by
  refine .get fun s => ?_
  cases ho : s.heap[r.number - 1]? with
  | none => exact .throw rfl
  | some o =>
      refine .pure ?_
      rintro m hinv ⟨hm, rfl⟩
      exact ⟨hm, ho⟩

@[grind ←] theorem safe_objectAt (r : Ref) : Safe ctx (Exec.objectAt r) :=
  (sound_objectAt r).safe

@[grind ←] theorem safe_objectOf (r : Option Ref) : Safe ctx (Exec.objectOf r) := by
  unfold Exec.objectOf
  grind

theorem sound_receiverType (r : Ref) :
    Sound ctx P (Exec.receiverType r) fun d m => m.classes.Started d := by
  refine .seq (sound_objectAt r) fun o => ?_
  split
  · exact .throw rfl
  · rename_i hstorage
    refine .pure ?_
    intro m hinv ho
    exact hinv.heap ho.2 (by simpa using hstorage)

theorem soundBy_currentFrame :
    SoundBy F ctx P Exec.currentFrame fun f m => m.classes.Started f.method.owner := by
  refine .get fun s => ?_
  cases hframes : s.frames with
  | nil => exact .throw rfl
  | cons f rest =>
      refine .pure ?_
      rintro m hinv ⟨_, rfl⟩
      exact hinv.frames f (by rw [hframes]; exact List.mem_cons_self)

@[grind ←] theorem safe_currentFrame : Safe ctx Exec.currentFrame :=
  soundBy_currentFrame.safe

/-- Giving up promises anything. -/
theorem sound_malformed {Q : α → Machine → Prop} (reason : Text) :
    Sound ctx P (Exec.malformed reason) Q :=
  .seq soundBy_currentFrame fun _ => .giveUp rfl

@[grind ←] theorem safe_malformed (reason : Text) : Safe ctx (Exec.malformed reason : Exec α) :=
  sound_malformed reason

/-- What is known of a class whose initialization has begun. -/
structure RuntimeClass.Known (c : RuntimeClass) (m : Machine) : Prop where
  record : ∃ c', m.classes[c.descriptor]? = some c' ∧ c.Keeps c'
  started : m.classes.Started c.descriptor
  ownsMethods : c.OwnsMethods
  superclass : ∀ s, c.superclass = some s → m.classes.Started s
  resolved : ∀ (ref : MemberRef) owner, c.resolved[ref]? = some owner → m.classes.Started owner

theorem stable_known (c : RuntimeClass) : Stable c.Known := by
  intro m m' hevolves _ h
  obtain ⟨c₁, hc₁, hkeeps⟩ := h.record
  obtain ⟨c₂, hc₂, hbecame⟩ := hevolves hc₁
  exact ⟨⟨c₂, hc₂, hkeeps.trans hbecame.keeps⟩, hevolves.started h.started, h.ownsMethods,
    fun s hs => hevolves.started (h.superclass s hs),
    fun ref owner howner => hevolves.started (h.resolved ref owner howner)⟩

/-- A record of the table, once the initialization of its class has begun. -/
theorem Machine.InvExcept.known {m : Machine} {d : Descriptor} {c : RuntimeClass} (h : m.Inv host)
    (hd : m.classes.Started d) (hc : m.classes[d]? = some c) : c.Known m := by
  obtain ⟨c', hc', hstarted⟩ := hd
  obtain rfl : c = c' := Option.some.inj (hc.symm.trans hc')
  have hrecord : m.classes[c.descriptor]? = some c := (h.table.descriptor hc).symm ▸ hc
  refine ⟨⟨c, hrecord, rfl⟩, ⟨c, hrecord, hstarted⟩, h.table.ownsMethods hc, ?_, ?_⟩
  · intro s hs
    exact (h.supers hc hstarted hs).resolve_right (by simp)
  · intro ref owner howner
    exact h.resolved hc howner

theorem sound_recordAt (d : Descriptor) :
    Sound ctx P (Exec.classAt d) fun c m => P m ∧ m.classes[d]? = some c := by
  refine .get fun s => ?_
  cases hc : s.classes[d]? with
  | none => exact .throw rfl
  | some c =>
      refine .pure ?_
      rintro m _ ⟨hm, rfl⟩
      exact ⟨hm, hc⟩

theorem sound_classAt (d : Descriptor) :
    Sound ctx (fun m => m.classes.Started d) (Exec.classAt d) fun c m =>
      c.descriptor = d ∧ c.Known m :=
  SoundBy.post (sound_recordAt d) fun _ _ hinv h => ⟨hinv.table.descriptor h.2, hinv.known h.1 h.2⟩

@[grind ←] theorem safe_classAt (d : Descriptor) : Safe ctx (Exec.classAt d) := by
  unfold Exec.classAt
  grind

/-- The method that a class declares belongs to it. -/
theorem RuntimeClass.Known.declaredMethod {c : RuntimeClass} {m : Machine} (h : c.Known m)
    {name descriptor : Text} {method : Method}
    (hmethod : c.declaredMethod? name descriptor = some method) :
    m.classes.Started method.owner := by
  rw [h.ownsMethods method (List.mem_of_find?_eq_some hmethod)]
  exact h.started

/-- A change of a record that leaves the class and its state as they are. What it remembers anew is
a class that a search finds. -/
theorem sound_modifyClass {d : Descriptor} {f : RuntimeClass → RuntimeClass}
    (hkeeps : ∀ c : RuntimeClass, c.Keeps (f c)) (hstate : ∀ c, (f c).state = c.state)
    (hresolved : ∀ m, m.Inv ctx.host → P m → ∀ (c : RuntimeClass) (ref : MemberRef) owner,
      m.classes[d]? = some c → (f c).resolved[ref]? = some owner →
        c.resolved[ref]? = some owner ∨
          m.classes.Started owner ∧ m.classes.Finds d ref owner) :
    Sound ctx P (Exec.modifyClass d f) fun _ _ => True := by
  have hold : ∀ {t : ClassTable} {k : Descriptor} {c' : RuntimeClass},
      (t.modify d f)[k]? = some c' →
        ∃ c, t[k]? = some c ∧ c.Keeps c' ∧ c'.state = c.state ∧ (c' = c ∨ d = k ∧ c' = f c) := by
    intro t k c' hc'
    rw [ClassTable.getElem?_modify] at hc'
    split at hc'
    case isTrue hk =>
      obtain ⟨c, hc, rfl⟩ := Option.map_eq_some_iff.mp hc'
      exact ⟨c, hk ▸ hc, hkeeps c, hstate c, .inr ⟨hk, rfl⟩⟩
    case isFalse => exact ⟨c', hc', rfl, rfl, .inl rfl⟩
  refine ⟨⟨fun m => ?_, fun m hinv hm hcoherent => ?_⟩, .modify fun _ => rfl⟩
  case refine_2 =>
    refine hcoherent.withClasses (ClassTable.retains_modify hkeeps) ?_
    intro k c' ref owner hc' howner
    obtain ⟨c, hc, _, _, rfl | ⟨rfl, rfl⟩⟩ := hold hc'
    · exact .inl ⟨c', hc, howner⟩
    · rcases hresolved m hinv hm c ref owner hc howner with hbefore | ⟨_, hfinds⟩
      · exact .inl ⟨c, hc, hbefore⟩
      · exact .inr hfinds
  have hevolves : ClassTable.Evolves m.classes (m.classes.modify d f) :=
    ClassTable.evolves_modify fun c _ => ⟨hkeeps c, (hstate c).symm ▸ .refl c.state⟩
  refine ⟨evolvesBy_withClasses hevolves, fun hsettled => hsettled.withClasses _, ?_⟩
  rintro ⟨hinv, hm⟩
  refine ⟨hinv.withClasses ?_ ?_ hevolves.started ?_ ?_, trivial⟩
  · exact ClassTable.advances_modify fun c _ => ⟨(hkeeps c).sameClass, .inl (hstate c)⟩
  · refine hinv.table.of_persists hevolves.persists fun hc' => ?_
    obtain ⟨c, hc, hkeeps', hstate', _⟩ := hold hc'
    exact ⟨c, hc, hkeeps', .inl hstate'⟩
  · intro k c' s hc' hstarted hs
    obtain ⟨c, hc, hkeeps', hstate', _⟩ := hold hc'
    rw [hstate'] at hstarted
    rw [hkeeps'.superclass] at hs
    exact (hinv.supers hc hstarted hs).imp_left hevolves.started
  · intro k c' ref owner hc' howner
    obtain ⟨c, hc, _, _, rfl | ⟨rfl, rfl⟩⟩ := hold hc'
    · exact hevolves.started (hinv.resolved hc howner)
    · rcases hresolved m hinv hm c ref owner hc howner with hbefore | ⟨hstarted, _⟩
      · exact hevolves.started (hinv.resolved hc hbefore)
      · exact hevolves.started hstarted

/-- An operation on a frame that keeps what it has to. -/
def FrameM.Keeps (F : FrameRel) (x : FrameM α) : Prop :=
  ∀ ⦃f a f'⦄, x f = .ok (a, f') → F.rel f f'

/-- A fault in a frame is not yet a fatal error. -/
theorem surfacing_onFrame (x : FrameM α) : Surfacing ctx (Exec.onFrame x) := by
  intro m
  unfold Exec.onFrame
  split
  · exact ⟨nofun, fun _ => rfl⟩
  · split
    · rfl
    · exact ⟨nofun, fun _ => rfl⟩

theorem soundBy_onFrame {x : FrameM α} (hx : x.Keeps F) :
    SoundBy F ctx P (Exec.onFrame x) fun _ _ => True := by
  refine ⟨⟨fun m => ?_, fun m _ _ hm => ?_⟩, surfacing_onFrame x⟩
  case refine_2 =>
    unfold Exec.onFrame
    split
    · exact hm
    · split
      · exact hm.of_eq rfl rfl rfl
      · exact hm
  unfold Exec.onFrame
  split
  case h_1 => exact (Upholds.throw _).meets m
  case h_2 f rest hframes =>
    split
    case h_2 => exact (Upholds.throw _).meets m
    case h_1 a f' hrun =>
      refine ⟨evolvesBy_withFrames ?_, fun hsettled => hsettled.of_eq rfl, ?_⟩
      · rw [hframes]
        exact ⟨hx hrun, rfl⟩
      · rintro ⟨hinv, _⟩
        refine ⟨hinv.withFrames ?_, trivial⟩
        have hframe : ∀ g ∈ f :: rest, m.classes.Started g.method.owner := hframes ▸ hinv.frames
        intro g hg
        rcases List.mem_cons.mp hg with rfl | hg
        · rw [F.method (hx hrun)]
          exact hframe f List.mem_cons_self
        · exact hframe g (List.mem_cons_of_mem f hg)

@[grind ←] theorem safe_onFrame {x : FrameM α} (hx : x.Keeps .instruction) :
    Safe ctx (Exec.onFrame x) :=
  soundBy_onFrame hx

end Primitives

section Lists

variable {P : Machine → Prop} {ι : Type}

/-- What is stable of each result is true of all of them in the end. -/
theorem sound_mapM {f : ι → Exec α} {is : List ι} {Q : α → Machine → Prop} (hP : Stable P)
    (hQ : ∀ a, Stable (Q a)) (hf : ∀ i, Sound ctx P (f i) Q) :
    Sound ctx P (is.mapM f) fun as m => ∀ a ∈ as, Q a m := by
  induction is with
  | nil => exact .pure fun _ _ _ => by simp
  | cons i is ih =>
      rw [List.mapM_cons]
      refine .bind hP (hf i) fun a => ?_
      refine .bind (hP.and (hQ a)) (ih.pre fun _ _ h => h.1) fun as => ?_
      refine .pure fun m _ h a' ha' => ?_
      rcases List.mem_cons.mp ha' with rfl | ha'
      · exact h.1.2
      · exact h.2 a' ha'

theorem safe_anyM {f : ι → Exec Bool} {is : List ι} (hf : ∀ i, Safe ctx (f i)) :
    Safe ctx (is.anyM f) := by
  induction is with
  | nil => exact Safe.pure false
  | cons i is ih =>
      refine Safe.bind (hf i) fun b => ?_
      cases b with
      | false => exact ih
      | true => exact Safe.pure true

end Lists

/-- A context whose ways back into the engine are sound. A class is initialized from a state in which
it may be the superclass of one that is already being initialized. -/
class SoundContext (ctx : Context) : Prop where
  invoke : ∀ (method : Method) (args : List Value),
    Sound ctx (fun m => m.classes.Started method.owner) (Exec.invokeMethod method args)
      fun _ _ => True
  initClass : ∀ (d : Descriptor) (m : Machine), Meets .instruction ctx.host m
    (m.InvExcept ctx.host (some d) ∧ m.classes.Linked d) (fun _ m' => m'.classes.Ready d)
    (Exec.initializeClass d ctx m)
  initClass_coherent : ∀ {a} (d : Descriptor) (m : Machine), m.InvExcept ctx.host (some d) →
    m.classes.Linked d → m.Coherent a → (endOf (Exec.initializeClass d ctx m)).Coherent a
  initClass_surfaces : ∀ d : Descriptor, Surfacing ctx (Exec.initializeClass d)

/-- The invariant with a hole asks for less. -/
theorem Machine.InvExcept.weaken {m : Machine} (h : m.Inv host) (hole : Option Descriptor) :
    m.InvExcept host hole where
  table := h.table
  supers hc hstarted hs := .inl ((h.supers hc hstarted hs).resolve_right (by simp))
  resolved := h.resolved
  heap := h.heap
  frames := h.frames
  recorded := h.recorded
  initializers := h.initializers

theorem sound_initializeClass [SoundContext ctx] (d : Descriptor) :
    Sound ctx (fun m => m.classes.Linked d) (Exec.initializeClass d) fun _ m =>
      m.classes.Ready d := by
  refine ⟨⟨fun m => ?_, fun m hinv => SoundContext.initClass_coherent d m (hinv.weaken _)⟩,
    SoundContext.initClass_surfaces d⟩
  exact (SoundContext.initClass d m).imp (fun hpre => ⟨hpre.1.weaken _, hpre.2⟩)
    fun _ _ _ _ _ _ hready => hready

theorem sound_invokeMethod [SoundContext ctx] (method : Method) (args : List Value) :
    Sound ctx (fun m => m.classes.Started method.owner) (Exec.invokeMethod method args)
      fun _ _ => True :=
  SoundContext.invoke method args

end ClassEngine
