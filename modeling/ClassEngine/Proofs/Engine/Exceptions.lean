import ClassEngine.Proofs.Engine.Requests
import ClassEngine.Proofs.Engine.Subtyping

/-!
What becomes of a thrown object: the first handler of the frame that accepts it, or else the frame
below, and so on. Main result: `exceptions_are_dispatched`.
-/

namespace ClassEngine

open Machine Exec Interpreter

/-- A handler covers an instruction and catches objects of a class. -/
structure Handler.Accepts (t : ClassTable) (pc : Int) (type : Descriptor) (h : Handler) : Prop where
  start : h.start.toNat ≤ pc
  stop : pc < h.stop.toNat
  catches : h.catchType = [] ∨ t.IsSubtype type (Descriptor.ofInternal h.catchType)

/-- The first handler, in the order of the table, that accepts an object thrown by an instruction. -/
def IsFirstHandler (t : ClassTable) (pc : Int) (type : Descriptor) (handlers : List Handler) :
    Option Handler → Prop
  | none => ∀ h ∈ handlers, ¬h.Accepts t pc type
  | some h => ∃ before after, handlers = before ++ h :: after ∧ h.Accepts t pc type ∧
      ∀ h' ∈ before, ¬h'.Accepts t pc type

section Search

variable {t : ClassTable} {pc : Int} {type : Descriptor} {h : Handler} {rest : List Handler}

theorem IsFirstHandler.here (haccepts : h.Accepts t pc type) :
    IsFirstHandler t pc type (h :: rest) (some h) :=
  ⟨[], rest, rfl, haccepts, by simp⟩

theorem IsFirstHandler.later {found : Option Handler} (hnot : ¬h.Accepts t pc type)
    (hrest : IsFirstHandler t pc type rest found) : IsFirstHandler t pc type (h :: rest) found := by
  cases found with
  | none =>
      intro h' hh'
      rcases List.mem_cons.mp hh' with rfl | hh'
      · exact hnot
      · exact hrest h' hh'
  | some k =>
      obtain ⟨before, after, rfl, haccepts, hbefore⟩ := hrest
      refine ⟨h :: before, after, rfl, haccepts, fun h' hh' => ?_⟩
      rcases List.mem_cons.mp hh' with rfl | hh'
      · exact hnot
      · exact hbefore h' hh'

variable {ctx : Context} [SoundContext ctx]

/-- The search for a handler finds the first that accepts, if it comes to an end. -/
theorem findHandler_isFirst {handlers : List Handler} {found : Option Handler} {m m' : Machine}
    (hfind : findHandler pc type handlers ctx m = .ok found m') (ht : m'.classes.Evolves t) :
    IsFirstHandler t pc type handlers found := by
  induction handlers generalizing m with
  | nil =>
      obtain ⟨rfl, rfl⟩ := EStateM.Result.ok.inj hfind
      intro h hh
      contradiction
  | cons h rest ih =>
      rw [findHandler] at hfind
      split at hfind
      case isTrue hcovers =>
        refine .later (fun haccepts => ?_) (ih hfind)
        simp [Handler.covers, haccepts.start, haccepts.stop] at hcovers
      case isFalse hcovers =>
        have hrange : h.start.toNat ≤ pc ∧ pc < h.stop.toNat := by
          simpa [Handler.covers] using hcovers
        split at hfind
        case isTrue hempty =>
          obtain ⟨rfl, rfl⟩ := EStateM.Result.ok.inj hfind
          exact .here ⟨hrange.1, hrange.2, .inl (List.isEmpty_iff.mp hempty)⟩
        case isFalse hempty =>
          obtain ⟨_, m₁, _, hfind⟩ := of_bind_ok hfind
          obtain ⟨accepted, m₂, hassignable, hfind⟩ := of_bind_ok hfind
          cases accepted with
          | true =>
              obtain ⟨rfl, rfl⟩ := EStateM.Result.ok.inj hfind
              have hsub := (assignable_iff hassignable ht).mp rfl
              exact .here ⟨hrange.1, hrange.2, .inr hsub⟩
          | false =>
              have hrest : findHandler pc type rest ctx m₂ = .ok found m' := hfind
              have hevolves := (safe_findHandler pc type rest).evolves hrest
              refine .later (fun haccepts => ?_) (ih hrest)
              rcases haccepts.catches with hnone | hsub
              · exact hempty (List.isEmpty_iff.mpr hnone)
              · exact Bool.false_ne_true
                  ((assignable_iff hassignable (hevolves.classes.trans ht)).mpr hsub)

end Search

section Dispatch

variable {ctx : Context} {m m₁ m₂ m₃ : Machine} {f : Frame} {callers : List Frame} {byte : UInt8}
  {r : Ref}

theorem currentFrame_ok (hframes : m.frames = f :: callers) : currentFrame ctx m = .ok f m := by
  have hget : (get : Exec Machine) ctx m = .ok m m := rfl
  rw [currentFrame, bind_of_ok hget, hframes]
  rfl

theorem onFrame_ok {α : Type} {x : FrameM α} {a : α} (hframes : m.frames = f :: callers)
    (h : onFrame x ctx m = .ok a m₁) : ∃ g, x f = .ok (a, g) ∧ m₁.frames = g :: callers := by
  obtain ⟨f', g, callers', hframes', hrun, rfl⟩ := of_onFrame_ok h
  obtain ⟨rfl, rfl⟩ := List.cons.inj (hframes.symm.trans hframes')
  exact ⟨g, hrun, rfl⟩

/-- An instruction is only fetched in an activation. -/
theorem frames_of_fetch (hfetch : fetch ctx m = .ok byte m₁) : ∃ f callers, m.frames = f :: callers := by
  obtain ⟨_, _, hcurrent, -⟩ := of_bind_ok hfetch
  have hget : (get : Exec Machine) ctx m = .ok m m := rfl
  rw [currentFrame, bind_of_ok hget] at hcurrent
  cases hframes : m.frames with
  | nil =>
      rw [hframes] at hcurrent
      contradiction
  | cons f callers => exact ⟨f, callers, rfl⟩

/-- The byte that is fetched is the one at the address of the activation. The moment before is kept, and
the address of the instruction is marked. -/
theorem of_fetch_ok (hframes : m.frames = f :: callers) (hfetch : fetch ctx m = .ok byte m₁) :
    0 ≤ f.pc ∧ f.bytecode[f.pc.toNat]? = some byte ∧
      m₁ = { m.note (.executing f.method.owner) with
        frames := { f with opPc := f.pc, pc := f.pc + 1 } :: callers } := by
  rw [fetch, bind_of_ok (currentFrame_ok hframes)] at hfetch
  split at hfetch
  · contradiction
  obtain ⟨_, m₂, hnote, hfetch⟩ := of_bind_ok hfetch
  obtain ⟨_, rfl⟩ := EStateM.Result.ok.inj hnote
  obtain ⟨_, m₃, hmark, hread⟩ := of_bind_ok hfetch
  obtain ⟨f', g, callers', hframes', hg, rfl⟩ := of_onFrame_ok hmark
  obtain ⟨rfl, rfl⟩ := List.cons.inj (hframes.symm.trans hframes')
  obtain ⟨_, rfl⟩ := Prod.mk.inj (Except.ok.inj hg)
  obtain ⟨f', g, callers', hframes', hg, rfl⟩ := of_onFrame_ok hread
  obtain ⟨rfl, rfl⟩ := List.cons.inj hframes'
  obtain ⟨hpc, hb, rfl⟩ := FrameM.of_u1_ok hg
  exact ⟨hpc, hb, rfl⟩

theorem fetch_frames (hframes : m.frames = f :: callers) (hfetch : fetch ctx m = .ok byte m₁) :
    m₁.frames = { f with opPc := f.pc, pc := f.pc + 1 } :: callers := by
  rw [(of_fetch_ok hframes hfetch).2.2]

/-- An object that an instruction throws is looked after in the frame of the instruction. -/
theorem advance_of_thrown (hfetch : fetch ctx m = .ok byte m₁)
    (hstep : Step.run byte ctx m₁ = .error (.thrown r) m₂) :
    advance ctx m = dispatch r ctx (m₂.note (.arrived r m₂.frames)) := by
  have hattempt : (Step.run byte).attempt ctx m₁ = .ok (.error (.thrown r)) m₂ := by
    rw [attempt, hstep]
  rw [advance, bind_of_ok hfetch, bind_of_ok hattempt]
  rfl

theorem dispatch_of_found {o : Object} {found : Option Handler} (hframes : m.frames = f :: callers)
    (hobject : m.heap[r.number - 1]? = some o)
    (hfind : findHandler f.opPc o.type (f.method.code.elim [] Code.handlers) ctx m = .ok found m₁) :
    dispatch r ctx m = resume r found ctx m₁ := by
  have hattempt : (findHandler f.opPc o.type (f.method.code.elim [] Code.handlers)).attempt ctx m =
      .ok (.ok found) m₁ := by
    rw [attempt, hfind]
  rw [dispatch, bind_of_ok (currentFrame_ok hframes), bind_of_ok (objectAt_eq_ok hobject),
    bind_of_ok hattempt]

variable [SoundContext ctx]

/-- An object that an instruction throws makes the frame go on at the first handler that accepts it,
with the object as the whole stack, or leaves it thrown. -/
theorem advance_thrown {o : Object} {found : Option Handler} (hframes : m.frames = f :: callers)
    (hfetch : fetch ctx m = .ok byte m₁) (hstep : Step.run byte ctx m₁ = .error (.thrown r) m₂)
    (hobject : m₂.heap[r.number - 1]? = some o)
    (hfind : findHandler f.pc o.type (f.method.code.elim [] Code.handlers) ctx
      (m₂.note (.arrived r m₂.frames)) = .ok found m₃) :
    IsFirstHandler m₃.classes f.pc o.type (f.method.code.elim [] Code.handlers) found ∧
    (∀ h, found = some h → ∃ m', advance ctx m = .ok .next m' ∧ m'.frames =
      { f with opPc := f.pc, stack := [.ref r], pc := h.target.toNat } :: callers) ∧
    (found = none → advance ctx m = .error (.thrown r) m₃) := by
  -- The instruction and the search leave the frame as it is, but for its stack and position.
  have hevolves₂ := (step_error hstep).frames
  rw [fetch_frames hframes hfetch] at hevolves₂
  obtain ⟨g, hframes₂, hg⟩ := FrameRel.onTop_cons _ hevolves₂
  have hevolves₃ := ((safe_findHandler _ _ _).evolves hfind).frames
  rw [note_frames, hframes₂] at hevolves₃
  obtain ⟨g', hframes₃, hg'⟩ := FrameRel.onTop_cons _ hevolves₃
  have hadvance : advance ctx m = resume r found ctx m₃ := by
    rw [advance_of_thrown hfetch hstep]
    have hsearch : findHandler g.opPc o.type (g.method.code.elim [] Code.handlers) ctx
        (m₂.note (.arrived r m₂.frames)) = .ok found m₃ := by rwa [hg]
    exact dispatch_of_found hframes₂ hobject hsearch
  refine ⟨findHandler_isFirst hfind (.refl _), ?_, ?_⟩
  · rintro h rfl
    refine ⟨{ m₃.mark with
      frames := { g' with stack := [.ref r], pc := h.target.toNat } :: callers }, ?_, ?_⟩
    · have hmark : Exec.mark ctx m₃ = .ok () m₃.mark := rfl
      have hset : onFrame (modify fun f => { f with stack := [.ref r], pc := h.target.toNat }) ctx
          m₃.mark = .ok () { m₃.mark with
            frames := { g' with stack := [.ref r], pc := h.target.toNat } :: callers } := by
        have hframes : m₃.mark.frames = g' :: callers := hframes₃
        unfold onFrame
        rw [hframes]
        rfl
      rw [hadvance, resume, bind_of_ok hmark, bind_of_ok hset]
      rfl
    · rw [hg', hg]
  · rintro rfl
    rw [hadvance]
    rfl

end Dispatch

section Unwinding

variable {ctx : Context} {m m₁ m₂ m₃ : Machine} {r : Ref}

/-- Some instructions of an activation, one after the other. -/
inductive Runs (ctx : Context) : Nat → Machine → Machine → Prop
  | refl (m : Machine) : Runs ctx 0 m m
  | step {n : Nat} {m m' m'' : Machine} (hstep : advance ctx m = .ok .next m')
      (hrest : Runs ctx n m' m'') : Runs ctx (n + 1) m m''

theorem loop_succ (fuel : Nat) (m : Machine) : loop (fuel + 1) ctx m = match advance ctx m with
    | .ok .next m' => loop fuel ctx m'
    | .ok (.result v) m' => .ok v m'
    | .error e m' => .error e m' :=
  rfl

theorem Runs.loop {n : Nat} (h : Runs ctx n m m₁) (fuel : Nat) :
    loop (n + fuel) ctx m = loop fuel ctx m₁ := by
  induction h with
  | refl m => rw [Nat.zero_add]
  | step hstep _ ih =>
      rw [Nat.succ_add, loop_succ, hstep]
      exact ih

/-- An activation of bytecode ends where an instruction leaves an object thrown. -/
theorem execute_thrown {n : Nat} (hruns : Runs ctx n m m₁) (hfuel : n < ctx.fuel)
    (hthrown : advance ctx m₁ = .error (.thrown r) m₂) :
    Interpreter.execute ctx m = .error (.thrown r) m₂ := by
  obtain ⟨k, hk⟩ := Nat.exists_eq_add_of_lt hfuel
  have hloop : loop ctx.fuel ctx m = .error (.thrown r) m₂ := by
    rw [hk, Nat.add_assoc, hruns.loop, loop_succ, hthrown]
  have hread : (read : Exec Context) ctx m = .ok ctx m := rfl
  have hattempt : (loop ctx.fuel).attempt ctx m = .ok (.error (.thrown r)) m₂ := by
    rw [attempt, hloop]
  rw [Interpreter.execute, bind_of_ok hread, bind_of_ok hattempt]
  rfl

/-- An activation of bytecode ends where an instruction returns a value. -/
theorem execute_returns {n : Nat} {v : Value} (hruns : Runs ctx n m m₁) (hfuel : n < ctx.fuel)
    (hreturn : advance ctx m₁ = .ok (.result v) m₂) : Interpreter.execute ctx m = .ok v m₂ := by
  obtain ⟨k, hk⟩ := Nat.exists_eq_add_of_lt hfuel
  have hloop : loop ctx.fuel ctx m = .ok v m₂ := by
    rw [hk, Nat.add_assoc, hruns.loop, loop_succ, hreturn]
  have hread : (read : Exec Context) ctx m = .ok ctx m := rfl
  rw [Interpreter.execute, bind_of_ok hread, attempt_bind_ok hloop]
  rfl

theorem profile_off {method : Method} (h : m.profiler = none) : profile method ctx m = .ok () m := by
  change EStateM.Result.ok () _ = _
  dsimp only
  rw [h]

theorem runBody_of_code {method : Method} {locals : Array Value} (hnative : method.isNative = false)
    (hcode : (method.code.elim 0 fun c => c.bytecode.size) ≠ 0)
    (hprofile : profile method ctx m = .ok () m₁) :
    runBody method locals ctx m = Interpreter.execute ctx m₁ := by
  rw [runBody, bind_of_ok hprofile, hnative, if_neg (by simp), if_neg hcode]

/-- The frame of an activation that ends with an object is gone, and the object is thrown where the
activation was begun. -/
theorem activate_thrown {method : Method} {args : List Value} {locals : Array Value}
    (hlocals : layoutLocals method args = some locals)
    (hbody : runBody method locals ctx
      { m with frames := Frame.enter method locals m.frames :: m.frames } = .error (.thrown r) m₁) :
    activate method args ctx m =
      .error (.thrown r) ({ m₁ with frames := m.frames }.note (.unwound r m.frames)) := by
  have hget : (get : Exec Machine) ctx m = .ok m m := rfl
  rw [activate, hlocals]
  dsimp only
  rw [bind_of_ok hget, withFrame, hbody]

theorem invoke_thrown {method : Method} {args : List Value}
    (habstract : method.flags.isAbstract = false) (hlimit : atLimit ctx m = .ok false m)
    (hactivate : activate method args ctx m = .error (.thrown r) m₁) :
    Interpreter.invoke method args ctx m = .error (.thrown r) m₁ := by
  rw [Interpreter.invoke, habstract, if_neg (by simp), bind_of_ok hlimit, if_neg (by simp)]
  exact hactivate

theorem Orderly.of_append {later earlier : List Event} (h : Orderly (later ++ earlier)) :
    Orderly earlier := by
  induction later with
  | nil => exact h
  | cons e later ih => exact ih h.2

/-- An object with which an activation has ended is raised again at once, at the first frame that is
not native, or, without such a frame, in the program around the engine. -/
theorem Orderly.raised_again {later base : List Event} {callers : List Frame}
    (horderly : Orderly (later ++ base)) (hpending : pendingIn base = some (r, callers))
    (hsettled : pendingIn (later ++ base) = none) :
    ∃ newer event between natives frames, later = newer ++ event :: between ∧
      callers = natives ++ frames ∧ (∀ f ∈ natives, f.method.isNative = true) ∧
      (event = .arrived r frames ∨ event = .abandoned r frames) ∧
      ∀ e ∈ between, (∃ t, e = .changed t) ∨ ∃ left, e = .unwound r left := by
  induction later using List.reverseRecOn generalizing base callers with
  | nil =>
      rw [List.nil_append, hpending] at hsettled
      contradiction
  | append_singleton later e ih =>
      rw [List.append_assoc] at horderly hsettled
      have htakes : e.TakesUp (pendingIn base) := (Orderly.of_append horderly).1
      rw [hpending] at htakes
      cases e with
      | changed t =>
          obtain ⟨newer, event, between, natives, frames, rfl, hcallers, hnatives, hevent, hbetween⟩ :=
            ih horderly hpending hsettled
          refine ⟨newer, event, between ++ [.changed t], natives, frames, by simp, hcallers, hnatives,
            hevent, fun e he => ?_⟩
          rcases List.mem_append.mp he with he | he
          · exact hbetween e he
          · exact .inl ⟨t, List.mem_singleton.mp he⟩
      | unwound r' left =>
          obtain ⟨rfl, f, rfl, hnative⟩ := htakes
          obtain ⟨newer, event, between, natives, frames, rfl, rfl, hnatives, hevent, hbetween⟩ :=
            ih horderly rfl hsettled
          refine ⟨newer, event, between ++ [.unwound r' (natives ++ frames)], f :: natives, frames,
            by simp, rfl, fun g hg => ?_, hevent, fun e he => ?_⟩
          · rcases List.mem_cons.mp hg with rfl | hg
            · exact hnative
            · exact hnatives g hg
          · rcases List.mem_append.mp he with he | he
            · exact hbetween e he
            · exact .inr ⟨_, List.mem_singleton.mp he⟩
      | arrived r' frames =>
          obtain ⟨rfl, rfl⟩ := htakes
          exact ⟨later, _, [], [], frames, rfl, rfl, by simp, .inl rfl, by simp⟩
      | abandoned r' frames =>
          obtain ⟨rfl, rfl⟩ := htakes
          exact ⟨later, _, [], [], frames, rfl, rfl, by simp, .inr rfl, by simp⟩
      | initializer d => exact htakes.elim
      | executing d => exact htakes.elim
      | statics d => exact htakes.elim

/-- The request during which nothing has caught an object gives it to the program around the
engine. -/
theorem runWithin_thrown {host now : Host} {steps nesting : Nat} {request : Request}
    (hm : Reachable host m)
    (hrun : Session.runWithin now steps nesting request.perform m = .error (.thrown r) m₁) :
    ∃ earlier, m₁.history.val = .arrived r [] :: earlier := by
  have hrequest : Meeting (Session.context now steps nesting) request.perform :=
    meeting_perform request
  have hmeets := hrequest m
  unfold Session.runWithin at hrun
  split at hrun
  case h_1 => contradiction
  case h_2 r' m' hrun' =>
    rw [hrun'] at hmeets
    obtain ⟨hr, rfl⟩ := EStateM.Result.error.inj hrun
    obtain rfl := Raise.thrown.inj hr
    have hframes := hmeets.1.frames
    rw [hm.frames] at hframes
    cases hm' : m'.frames with
    | nil => exact ⟨_, note_history _ _⟩
    | cons f rest =>
        rw [hm'] at hframes
        exact hframes.elim
  case h_3 e m' hthrown _ => exact absurd (EStateM.Result.error.inj hrun).1 (hthrown r)

end Unwinding

/-- An object that an instruction throws makes its frame go on at the first handler, in the order of
the table, that covers the instruction and catches the class of the object, with the object as the
whole stack and the local variables as they were. Without such a handler the activation ends and the
object is raised again in the frame below, past native frames, and so on until the request gives it
to the program around the engine. -/
theorem exceptions_are_dispatched {host : Host} {steps nesting : Nat} {ctx : Context}
    (hctx : ctx = Session.context host steps nesting) :
    (∀ m m₁ m₂ m₃ f callers byte r o found, m.frames = f :: callers →
      fetch ctx m = .ok byte m₁ → Step.run byte ctx m₁ = .error (.thrown r) m₂ →
      m₂.heap[r.number - 1]? = some o →
      findHandler f.pc o.type (f.method.code.elim [] Code.handlers) ctx
        (m₂.note (.arrived r m₂.frames)) = .ok found m₃ →
      IsFirstHandler m₃.classes f.pc o.type (f.method.code.elim [] Code.handlers) found ∧
      (∀ h, found = some h → ∃ m', advance ctx m = .ok .next m' ∧ m'.frames =
        { f with opPc := f.pc, stack := [.ref r], pc := h.target.toNat } :: callers) ∧
      (found = none → advance ctx m = .error (.thrown r) m₃)) ∧
    (∀ m m₁ m₂ m₃ method args locals n r, method.flags.isAbstract = false →
      method.isNative = false → (method.code.elim 0 fun c => c.bytecode.size) ≠ 0 →
      layoutLocals method args = some locals → atLimit ctx m = .ok false m →
      profile method ctx { m with frames := Frame.enter method locals m.frames :: m.frames } =
        .ok () m₁ →
      Runs ctx n m₁ m₂ → n < steps → advance ctx m₂ = .error (.thrown r) m₃ →
      invokeMethod method args (Session.context host steps (nesting + 1)) m =
        .error (.thrown r) ({ m₃ with frames := m.frames }.note (.unwound r m.frames))) ∧
    (∀ m later r callers earlier, Observed host m →
      m.history.val = later ++ .unwound r callers :: earlier →
      ∃ newer event between natives frames, later = newer ++ event :: between ∧
        callers = natives ++ frames ∧ (∀ f ∈ natives, f.method.isNative = true) ∧
        (event = .arrived r frames ∨ event = .abandoned r frames) ∧
        ∀ e ∈ between, (∃ t, e = .changed t) ∨ ∃ left, e = .unwound r left) ∧
    ∀ m m' request r, Reachable host m →
      Session.runWithin host steps nesting (Request.perform request) m = .error (.thrown r) m' →
      ∃ earlier, m'.history.val = .arrived r [] :: earlier := by
  subst hctx
  refine ⟨?_, ?_, ?_, ?_⟩
  · intro m m₁ m₂ m₃ f callers byte r o found hframes hfetch hstep hobject hfind
    exact advance_thrown hframes hfetch hstep hobject hfind
  · intro m m₁ m₂ m₃ method args locals n r habstract hnative hcode hlocals hlimit hprofile hruns
      hfuel hthrown
    rw [← context_fuel host steps nesting] at hfuel
    have hexecute := execute_thrown hruns hfuel hthrown
    refine invoke_thrown habstract hlimit (activate_thrown hlocals ?_)
    rwa [runBody_of_code hnative hcode hprofile]
  · intro m later r callers earlier hm hhistory
    obtain ⟨horderly, hsettled⟩ := hm.settled
    rw [hhistory] at horderly hsettled
    exact horderly.raised_again rfl hsettled
  · intro m m' request r hm hrun
    exact runWithin_thrown hm hrun

/-- A method that throws what is on its stack and catches it, with the second of its handlers. -/
def rethrower : Method where
  owner := "LRoot;"
  ownerName := "Root"
  name := "rethrow"
  descriptor := "()V"
  flags := ⟨8⟩
  code := some ⟨1, 0, #[0xBF, 0xB1], [⟨1, 2, 0, []⟩, ⟨0, 1, 1, []⟩], []⟩
  signature := ⟨[], "V", "()V"⟩
  file := ⟨0, 52, #[], ⟨0x21⟩, "Root", [], [], [], [], []⟩

/-- An engine that is about to throw its only object. -/
def throwing : Machine :=
  { Session.fresh with
    heap := #[Object.empty "LRoot;"]
    frames := [{ Frame.enter rethrower #[] [] with stack := [.ref ⟨1⟩] }] }

theorem exceptions_are_dispatched_rethrower :
    ∃ m', advance (Session.context ⟨none, 0, 0⟩ 9 9) throwing = .ok .next m' ∧
      m'.frames = [{ Frame.enter rethrower #[] [] with stack := [.ref ⟨1⟩], pc := 1 }] := by
  have hop : Opcode.ofByte? 0xBF = some .athrow := by decide +kernel
  have hstep : ∀ m₁, m₁ = endOf (fetch (Session.context ⟨none, 0, 0⟩ 9 9) throwing) →
      ∃ m₂, Step.run 0xBF (Session.context ⟨none, 0, 0⟩ 9 9) m₁ = .error (.thrown ⟨1⟩) m₂ ∧
        m₂.heap[0]? = some (Object.empty "LRoot;") := by
    rintro m₁ rfl
    unfold Step.run
    rw [hop]
    exact ⟨_, rfl, rfl⟩
  obtain ⟨m₂, hthrown, hobject⟩ := hstep _ rfl
  have hdispatched := (exceptions_are_dispatched rfl).1 throwing _ m₂ _ _ [] 0xBF ⟨1⟩ _
    (some ⟨0, 1, 1, []⟩) rfl rfl hthrown hobject rfl
  exact hdispatched.2.1 _ rfl

end ClassEngine
