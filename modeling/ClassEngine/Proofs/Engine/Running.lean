import ClassEngine.Proofs.Engine.Instructions
import ClassEngine.Proofs.Engine.Natives

/-!
Running methods is sound. An object that an instruction throws arrives at the frame of that
instruction, and an activation that ends with it leaves it to the frame below.
-/

namespace ClassEngine

open Machine Exec Linking Resolution Allocation Interpreter

variable {α : Type} {F : FrameRel} {host : Host} {ctx : Context}

/-- An object is taken up where it may be. -/
theorem Machine.InvExcept.takenUp {hole : Option Descriptor} {m : Machine} {r : Ref} {e : Event}
    (h : InvExcept host hole m) (he : e = .arrived r m.frames ∨ e = .abandoned r m.frames) :
    InvExcept host hole (m.note e) := by
  rcases he with rfl | rfl
  · exact h.note trivial (by simp) (by simp)
  · exact h.note trivial (by simp) (by simp)

/-- A computation that takes an object up, as one that has come to the innermost frame, and goes
on. -/
def TakesUpFirst {β : Type} (r : Ref) (x : Exec β) (R : Exec β → Prop) : Prop :=
  ∃ (event : List Frame → Event) (y : Exec β),
    (∀ frames, event frames = .arrived r frames ∨ event frames = .abandoned r frames) ∧
    x = (do note (event (← get).frames); y) ∧ R y

/-- What may be done about a failure: it is passed on; one that is neither an object nor the end of
all steps is answered; an object is taken up. -/
inductive Treats {β : Type} (R : Exec β → Prop) : Raise → Exec β → Prop
  | passes (e : Raise) : Treats R e (throw e)
  | answers {e : Raise} {x : Exec β} (hthrown : ∀ r, e ≠ .thrown r) (hexhausted : e ≠ .exhausted)
      (hx : R x) : Treats R e x
  | takesUp {r : Ref} {x : Exec β} (hx : TakesUpFirst r x R) : Treats R (.thrown r) x

theorem Treats.imp {β : Type} {R R' : Exec β → Prop} {e : Raise} {x : Exec β} (h : Treats R e x)
    (hR : ∀ y, R y → R' y) : Treats R' e x := by
  cases h with
  | passes => exact .passes e
  | answers hthrown hexhausted hx => exact .answers hthrown hexhausted (hR x hx)
  | takesUp hx =>
      obtain ⟨event, y, hevent, hxy, hy⟩ := hx
      exact .takesUp ⟨event, y, hevent, hxy, hR y hy⟩

section Attempts

variable {β : Type} {Q : α → Machine → Prop} {R : β → Machine → Prop}

theorem Treats.meets {e : Raise} {y : Exec β} {m m' : Machine} {pre : Prop}
    (h : Treats (fun y => Upholds F ctx (fun _ => True) y R) e y)
    (hm : Meets F ctx.host m pre Q (.error e m')) : Meets F ctx.host m pre R (y ctx m') := by
  cases h with
  | passes => exact hm
  | answers hthrown hexhausted hy =>
      refine (hy.meets m').after hm.1 ?_ fun hpre => ⟨(hm.2.2 hpre).2 hexhausted, trivial⟩
      exact fun hs => (hm.2.1 hs).settled hthrown
  | takesUp h =>
      obtain ⟨event, y, hevent, rfl, hy⟩ := h
      have hframes := hevent m'.frames
      -- The object is taken up, and from then on all is settled again.
      refine (hy.meets (m'.note (event m'.frames))).after
        (hm.1.trans (evolvesBy_note ?_ m')) (fun hs => (hm.2.1 hs).takenUp hframes) ?_
      · rcases hframes with hevent | hevent <;> simp [hevent]
      · exact fun hpre => ⟨((hm.2.2 hpre).2 (by simp)).takenUp hframes, trivial⟩

theorem Treats.coherent {a : Aspect} {e : Raise} {y : Exec β} {m : Machine}
    (h : Treats (fun y => Upholds F ctx (fun _ => True) y R) e y)
    (hinv : e ≠ .exhausted → m.Inv ctx.host) (hm : m.Coherent a) :
    (endOf (y ctx m)).Coherent a := by
  cases h with
  | passes => exact hm
  | answers _ hexhausted hy => exact hy.coherent m (hinv hexhausted) trivial hm
  | takesUp h =>
      obtain ⟨event, y, hevent, rfl, hy⟩ := h
      exact hy.coherent _ ((hinv (by simp)).takenUp (hevent m.frames)) trivial (hm.note _)

theorem Treats.surfaces {e : Raise} {y : Exec β}
    (h : Treats (fun y => SoundBy F ctx (fun _ => True) y R) e y) (he : e.isFatal = false) :
    Surfacing ctx y := by
  cases h with
  | passes => exact .throw he
  | answers _ _ hy => exact hy.surfaces
  | takesUp h =>
      obtain ⟨event, y, _, rfl, hy⟩ := h
      exact .bind .get fun _ => .bind (.modify fun _ => rfl) fun _ => hy.surfaces

/-- A computation whose failure is looked at. -/
theorem upholds_attempt {x : Exec α} {k : Except Raise α → Exec β}
    (hx : Upholds F ctx (fun _ => True) x fun _ _ => True)
    (hok : ∀ a, Upholds F ctx (fun _ => True) (k (.ok a)) R)
    (herror : ∀ e, Treats (fun y => Upholds F ctx (fun _ => True) y R) e (k (.error e))) :
    Upholds F ctx (fun _ => True) (attempt x >>= k) R := by
  refine ⟨fun m => ?_, fun m hinv _ hcoherent => ?_⟩
  · have hm := hx.meets m
    cases hrun : x ctx m with
    | ok a m' =>
        rw [hrun] at hm
        rw [attempt_bind_ok hrun]
        exact ((hok a).meets m').after hm.1 hm.2.1 hm.2.2
    | error e m' =>
        rw [hrun] at hm
        rw [attempt_bind_error hrun]
        exact (herror e).meets hm
  · have hm := hx.meets m
    have hend := hx.coherent m hinv trivial hcoherent
    cases hrun : x ctx m with
    | ok a m' =>
        rw [hrun] at hm hend
        rw [attempt_bind_ok hrun]
        exact (hok a).coherent m' (hm.2.2 ⟨hinv, trivial⟩).1 trivial hend
    | error e m' =>
        rw [hrun] at hm hend
        rw [attempt_bind_error hrun]
        exact (herror e).coherent (hm.2.2 ⟨hinv, trivial⟩).2 hend

/-- A computation whose failure is looked at, and passed on if it is fatal. -/
theorem soundBy_attempt {x : Exec α} {k : Except Raise α → Exec β}
    (hx : SoundBy F ctx (fun _ => True) x fun _ _ => True)
    (hok : ∀ a, SoundBy F ctx (fun _ => True) (k (.ok a)) R)
    (herror : ∀ e, Treats (fun y => SoundBy F ctx (fun _ => True) y R) e (k (.error e)))
    (hunresolved : ∀ u, k (.error (.unresolved u)) = throw (.unresolved u))
    (hmalformed : ∀ c, k (.error (.malformed c)) = throw (.malformed c)) :
    SoundBy F ctx (fun _ => True) (attempt x >>= k) R := by
  refine ⟨upholds_attempt hx.toUpholds (fun a => (hok a).toUpholds) fun e =>
    (herror e).imp fun _ hy => hy.toUpholds, ?_⟩
  refine .attempt hx.surfaces (fun a => (hok a).surfaces) (fun e he => ?_) fun e he =>
    (herror e).surfaces he
  obtain ⟨u, rfl⟩ | ⟨c, rfl⟩ := Raise.fatal_cases he
  · exact hunresolved u ▸ passesOn_throw _
  · exact hmalformed c ▸ passesOn_throw _

end Attempts

/-- A computation after which nothing is left to be taken up, even if it throws an object. -/
def Settling (ctx : Context) (x : Exec α) : Prop :=
  ∀ ⦃m⦄, m.Settled → (endOf (x ctx m)).Settled

namespace Settling

variable {β : Type} {P : Machine → Prop} {Q : α → Machine → Prop}

theorem pure (a : α) : Settling ctx (pure a) :=
  fun _ hm => hm

theorem throw (e : Raise) : Settling ctx (throw e : Exec α) :=
  fun _ hm => hm

theorem giveUp (e : Raise) : Settling ctx (giveUp e : Exec α) :=
  fun _ hm => hm.of_eq rfl

theorem bind {x : Exec α} {f : α → Exec β} (hx : Settling ctx x) (hf : ∀ a, Settling ctx (f a)) :
    Settling ctx (x >>= f) := by
  intro m hm
  have hm' := hx hm
  cases hrun : x ctx m with
  | ok a m' =>
      rw [hrun] at hm'
      rw [bind_of_ok hrun]
      exact hf a hm'
  | error e m' =>
      rw [hrun] at hm'
      rw [bind_of_error hrun]
      exact hm'

/-- A computation whose failure is looked at. -/
theorem attempt {x : Exec α} {k : Except Raise α → Exec β} (hx : Settling ctx x)
    (hk : ∀ res, Settling ctx (k res)) : Settling ctx (attempt x >>= k) := by
  refine .bind ?_ hk
  intro m hm
  have hm' := hx hm
  unfold Exec.attempt
  split
  case h_1 hrun =>
    rw [hrun] at hm'
    exact hm'
  case h_2 hrun =>
    rw [hrun] at hm'
    exact hm'

/-- A computation whose failure is looked at, where an object that it throws is taken up. -/
theorem attempt_takesUp {x : Exec α} {k : Except Raise α → Exec β} (hx : SoundBy F ctx P x Q)
    (hok : ∀ a, Settling ctx (k (.ok a)))
    (hthrown : ∀ r, TakesUpFirst r (k (.error (.thrown r))) (Settling ctx))
    (hother : ∀ e, (∀ r, e ≠ .thrown r) → Settling ctx (k (.error e))) :
    Settling ctx (Exec.attempt x >>= k) := by
  intro m hm
  have hmeets := hx.meets m
  cases hrun : x ctx m with
  | ok a m' =>
      rw [hrun] at hmeets
      rw [attempt_bind_ok hrun]
      exact hok a (hmeets.2.1 hm)
  | error e m' =>
      rw [hrun] at hmeets
      have hraises := hmeets.2.1 hm
      rw [attempt_bind_error hrun]
      cases e with
      | thrown r =>
          obtain ⟨event, y, hevent, hk, hy⟩ := hthrown r
          rw [hk]
          exact hy (hraises.takenUp (hevent m'.frames))
      | _ => exact hother _ (by simp) (hraises.settled (by simp))

theorem currentFrame : Settling ctx currentFrame := by
  refine .bind (fun _ hm => hm) fun s => ?_
  split
  · exact .pure _
  · exact .throw _

theorem objectAt (r : Ref) : Settling ctx (objectAt r) := by
  refine .bind (fun _ hm => hm) fun s => ?_
  split
  · exact .pure _
  · exact .throw _

theorem onFrame (x : FrameM α) : Settling ctx (onFrame x) := by
  intro m hm
  unfold Exec.onFrame
  split
  · exact hm
  · split
    · exact hm.of_eq rfl
    · exact hm

end Settling

section Steps

/-- An instruction that works on its frame alone fails without having done anything. -/
theorem inFrame_error {x : FrameM Unit} {m m' : Machine} {e : Raise}
    (h : Step.inFrame x ctx m = .error e m') : m' = m ∧ ∀ r, e ≠ .thrown r := by
  cases hrun : onFrame x ctx m with
  | ok a m₁ =>
      rw [Step.inFrame, bind_of_ok hrun] at h
      contradiction
  | error e₁ m₁ =>
      rw [Step.inFrame, bind_of_error hrun] at h
      obtain ⟨rfl, rfl⟩ := EStateM.Result.error.inj h
      unfold onFrame at hrun
      split at hrun
      · obtain ⟨rfl, rfl⟩ := EStateM.Result.error.inj hrun
        exact ⟨rfl, fun r => by simp⟩
      · split at hrun
        · contradiction
        · obtain ⟨rfl, rfl⟩ := EStateM.Result.error.inj hrun
          exact ⟨rfl, fun r => by simp⟩

variable [SoundContext ctx]

theorem step_inFrame_or_safe (byte : UInt8) :
    (∃ x : FrameM Unit, x.Keeps .position ∧ Step.run byte = Step.inFrame x) ∨
      Safe ctx (Step.run byte) := by
  unfold Step.run
  split
  · exact execute_inFrame_or_safe _
  · exact .inr (safe_unsupported _)

theorem soundBy_step (byte : UInt8) :
    SoundBy .position ctx (fun _ => True) (Step.run byte) fun _ _ => True := by
  have hcases : _ ∨ Safe ctx (Step.run byte) := step_inFrame_or_safe byte
  rcases hcases with ⟨x, hx, hrun⟩ | hsafe
  · rw [hrun]
    exact .seq (soundBy_onFrame hx) fun _ => .pure fun _ _ _ => trivial
  · exact hsafe.soundBy FrameRel.instruction_le_position

/-- An instruction that fails leaves the local variables as they are. -/
theorem step_error {byte : UInt8} {m m' : Machine} {e : Raise}
    (h : Step.run byte ctx m = .error e m') : Evolves m m' := by
  have hcases : _ ∨ Safe ctx (Step.run byte) := step_inFrame_or_safe byte
  rcases hcases with ⟨x, _, hrun⟩ | hsafe
  · rw [hrun] at h
    rw [(inFrame_error h).1]
    exact .refl m
  · have hm := hsafe.toUpholds.meets m
    rw [h] at hm
    exact hm.1

end Steps

section Activations

theorem soundBy_fetch : SoundBy .activation ctx (fun _ => True) fetch fun _ _ => True := by
  refine .seq soundBy_currentFrame fun f => ?_
  split
  · exact .giveUp_bind rfl _
  · refine .seq (soundBy_note_executing f.method.owner) fun _ => ?_
    refine .seq (soundBy_onFrame (FrameM.keeps_modify fun _ => rfl)) fun _ => ?_
    exact soundBy_onFrame (FrameM.keeps_u1.mono FrameRel.instruction_le_activation)

theorem settling_fetch : Settling ctx fetch := by
  refine .bind .currentFrame fun f => ?_
  split
  · exact .bind (.giveUp _) fun _ => .bind (fun _ hm => hm.note (by simp)) fun _ =>
      .bind (.onFrame _) fun _ => .onFrame _
  · refine .bind (fun _ hm => hm.note (by simp)) fun _ => ?_
    exact .bind (.onFrame _) fun _ => .onFrame _

section Frames

variable {f : Frame} {m m' : Machine}

theorem Machine.InvExcept.pushFrame (hinv : m.Inv host)
    (hstarted : m.classes.Started f.method.owner) : Machine.Inv host { m with frames := f :: m.frames } := by
  refine hinv.withFrames fun g hg => ?_
  rcases List.mem_cons.mp hg with rfl | hg
  · exact hstarted
  · exact hinv.frames g hg

/-- A frame may be put on top: it is one deeper than the innermost one, and within the limit unless
the guard is lifted. -/
structure Frame.Enters (f : Frame) (m : Machine) : Prop where
  depth : f.depth = depthOf m.frames + 1
  within : m.handlingOverflow = false → (f.depth : Int) ≤ m.maxDepth

/-- What stands on an activation, seen from outside, stands on its callers together with its frame. -/
theorem Frame.Enters.standsOn (hf : f.Enters m) {s : Moment}
    (h : s.StandsOn .activation { m with frames := f :: m.frames }) : s.StandsOn .instruction m where
  frames := by
    obtain ⟨above, base, hframes, hbase, hstacked, hwithin⟩ := h.frames
    obtain ⟨g, rfl, hg⟩ := FrameRel.onTop_cons _ hbase
    have hdepth : g.depth = f.depth := FrameRel.activation.depth hg
    refine ⟨above ++ [g], m.frames, by simp [hframes], FrameRel.onTop_refl _ _,
      stacked_append hstacked ⟨hdepth.trans hf.depth, trivial⟩, fun hlifted k hk => ?_⟩
    rcases List.mem_append.mp hk with hk | hk
    · exact hwithin hlifted k hk
    · obtain rfl := List.mem_singleton.mp hk
      have hguard : m.handlingOverflow = false := by
        by_contra hne
        rw [h.guard (Bool.eq_true_of_not_eq_false hne)] at hlifted
        contradiction
      have hlimit : s.limit = m.maxDepth := h.limit
      rw [hdepth, hlimit]
      exact hf.within hguard
  limit := h.limit
  guard := h.guard

/-- An activation, seen from outside, leaves the frames as they were. -/
theorem Machine.EvolvesBy.popFrame (hf : f.Enters m)
    (h : EvolvesBy .activation { m with frames := f :: m.frames } m') :
    Evolves m { m' with frames := m.frames } where
  classes := h.classes
  heap := h.heap
  frames := FrameRel.onTop_refl _ _
  starts := h.starts
  limit := h.limit
  guard := h.guard
  moments := by
    obtain ⟨passed, hpassed, hstands⟩ := h.moments
    exact ⟨passed, hpassed, fun s hs => hf.standsOn (hstands s hs)⟩

theorem Machine.InvExcept.popFrame (hinv : m.Inv host) (hinv' : m'.Inv host)
    (h : EvolvesBy .activation { m with frames := f :: m.frames } m') :
    Machine.Inv host { m' with frames := m.frames } :=
  hinv'.withFrames fun g hg => h.classes.started (hinv.frames g hg)

theorem withFrame_coherent {a : Aspect} {x : Exec α}
    (hx : (endOf (x ctx { m with frames := f :: m.frames })).Coherent a) :
    (endOf (withFrame f x ctx m)).Coherent a := by
  unfold withFrame
  dsimp only
  split
  case h_1 hrun =>
    rw [hrun] at hx
    exact hx.of_eq rfl rfl rfl
  case h_2 r m' hrun =>
    rw [hrun] at hx
    have hrestored : Coherent _ { m' with frames := m.frames } := hx.of_eq rfl rfl rfl
    exact hrestored.note _
  case h_3 hrun =>
    rw [hrun] at hx
    exact hx.of_eq rfl rfl rfl

/-- The frame of an activation is gone afterwards, and an object with which the activation ends is
left to the frames below. -/
theorem withFrame_meets {x : Exec α} (hx : SoundBy .activation ctx (fun _ => True) x fun _ _ => True)
    (hsettling : f.method.isNative = false → Settling ctx x) (hf : f.Enters m) :
    Meets .instruction ctx.host m (m.Inv ctx.host ∧ m.classes.Started f.method.owner)
      (fun _ _ => True) (withFrame f x ctx m) := by
  have hm := hx.meets { m with frames := f :: m.frames }
  unfold withFrame
  dsimp only
  split
  case h_1 a m' hrun =>
    rw [hrun] at hm
    refine ⟨hm.1.popFrame hf, fun hsettled => (hm.2.1 (hsettled.of_eq rfl)).of_eq rfl, ?_⟩
    rintro ⟨hinv, hstarted⟩
    exact ⟨hinv.popFrame (hm.2.2 ⟨hinv.pushFrame hstarted, trivial⟩).1 hm.1, trivial⟩
  case h_2 r m' hrun =>
    rw [hrun] at hm
    refine ⟨(hm.1.popFrame hf).trans (evolvesBy_note (by simp) _), ?_, ?_⟩
    · intro hsettled
      have hsettled₀ : Settled { m with frames := f :: m.frames } := hsettled.of_eq rfl
      obtain ⟨g, hframes, hg⟩ := FrameRel.onTop_cons _ hm.1.frames
      refine (hm.2.1 hsettled₀).unwound hframes fun hnative => ?_
      rw [FrameRel.activation.method hg] at hnative
      have hend := hsettling hnative hsettled₀
      rwa [hrun] at hend
    · rintro ⟨hinv, hstarted⟩
      have hinv' := (hm.2.2 ⟨hinv.pushFrame hstarted, trivial⟩).2 (by simp)
      have hnoted := (hinv.popFrame hinv' hm.1).note (e := .unwound r m.frames) trivial (by simp)
        (by simp)
      exact ⟨hnoted.recorded, fun _ => hnoted⟩
  case h_3 e m' hthrown hrun =>
    rw [hrun] at hm
    refine ⟨hm.1.popFrame hf, ?_, ?_⟩
    · intro hsettled
      have hsettled' := (hm.2.1 (hsettled.of_eq rfl)).settled hthrown
      have hrestored : Settled { m' with frames := m.frames } := hsettled'.of_eq rfl
      exact hrestored.raises e
    · rintro ⟨hinv, hstarted⟩
      obtain ⟨hrecorded, hkept⟩ := hm.2.2 ⟨hinv.pushFrame hstarted, trivial⟩
      exact ⟨hrecorded.of_eq rfl rfl rfl, fun hne => hinv.popFrame (hkept hne) hm.1⟩

end Frames

/-- Frames are dropped on the way out, and of this only thrown objects are recorded. -/
theorem surfacing_withFrame {x : Exec α} (hx : Surfacing ctx x) (f : Frame) :
    Surfacing ctx (withFrame f x) := by
  intro m
  have hm : Surfaces m (x ctx { m with frames := f :: m.frames }) := (hx _).after rfl
  unfold withFrame
  dsimp only
  split
  case h_1 a m' hrun =>
    rw [hrun] at hm
    exact hm
  case h_2 r m' hrun =>
    rw [hrun] at hm
    exact ⟨nofun, fun _ => hm.2 rfl⟩
  case h_3 e m' _ hrun =>
    rw [hrun] at hm
    exact hm.unwinds (.of_eq rfl rfl rfl)

theorem profile_frames {method : Method} {m m' : Machine} (h : profile method ctx m = .ok () m') :
    m'.frames = m.frames := by
  obtain ⟨_, rfl⟩ := EStateM.Result.ok.inj h
  dsimp only
  split <;> rfl

@[grind ←] theorem safe_profile (method : Method) : Safe ctx (profile method) := by
  refine safe_modify ?_ ?_ ?_ ?_ ?_ ?_ ?_ ?_
  all_goals
    funext m
    split <;> rfl

theorem safe_resume (r : Ref) (found : Option Handler) : Safe ctx (resume r found) := by
  cases found with
  | none => exact Safe.throw rfl
  | some h =>
      refine Safe.bind safe_mark fun _ => Safe.bind (safe_onFrame (FrameM.keeps_modify fun _ => rfl)) fun _ => ?_
      exact Safe.pure Outcome.next

variable [SoundContext ctx]

@[grind ←] theorem safe_findHandler (pc : Int) (type : Descriptor) (handlers : List Handler) :
    Safe ctx (findHandler pc type handlers) := by
  induction handlers with
  | nil => exact Safe.pure none
  | cons h rest ih =>
      unfold findHandler
      grind

theorem safe_dispatch (r : Ref) : Safe ctx (dispatch r) := by
  refine Safe.bind safe_currentFrame fun f => Safe.bind (safe_objectAt r) fun o => ?_
  refine soundBy_attempt (safe_findHandler _ _ _) (safe_resume r) (fun e => ?_) (fun _ => rfl)
    fun _ => rfl
  cases e with
  | thrown other => exact .takesUp ⟨.abandoned other, _, fun _ => .inr rfl, rfl, Safe.throw rfl⟩
  | _ => exact .passes _

theorem settling_dispatch (r : Ref) : Settling ctx (dispatch r) := by
  refine .bind .currentFrame fun f => .bind (.objectAt r) fun o => ?_
  refine .attempt_takesUp (safe_findHandler _ _ _) ?_ ?_ ?_
  · intro found
    cases found with
    | none => exact .throw _
    | some h => exact .bind (fun _ hm => hm.of_eq rfl) fun _ => .bind (.onFrame _) fun _ => .pure _
  · exact fun other => ⟨.abandoned other, _, fun _ => .inr rfl, rfl, .throw _⟩
  · intro e hthrown
    cases e with
    | thrown other => exact absurd rfl (hthrown other)
    | _ => exact .throw _

/-- One instruction, with what becomes of an object that it throws. -/
theorem soundBy_advance : SoundBy .activation ctx (fun _ => True) advance fun _ _ => True := by
  refine .seq soundBy_fetch fun byte => ?_
  refine soundBy_attempt ((soundBy_step byte).mono FrameRel.position_le_activation)
    (fun o => .pure fun _ _ _ => trivial) (fun e => ?_) (fun _ => rfl) fun _ => rfl
  cases e with
  | thrown r =>
      exact .takesUp ⟨.arrived r, _, fun _ => .inl rfl, rfl,
        (safe_dispatch r).soundBy FrameRel.instruction_le_activation⟩
  | _ => exact .passes _

/-- An object that an instruction throws is taken up in its frame, whatever comes of it. -/
theorem settling_advance : Settling ctx advance := by
  refine .bind settling_fetch fun byte => ?_
  refine .attempt_takesUp (soundBy_step byte) (fun o => .pure o) ?_ ?_
  · exact fun r => ⟨.arrived r, _, fun _ => .inl rfl, rfl, settling_dispatch r⟩
  · intro e hthrown
    cases e with
    | thrown r => exact absurd rfl (hthrown r)
    | _ => exact .throw _

/-- The body of a method ends with the first fatal error of an instruction. -/
theorem surfacing_loop (fuel : Nat) : Surfacing ctx (loop fuel) := by
  induction fuel with
  | zero => exact .throw rfl
  | succ fuel ih =>
      intro m
      have hstep : Surfaces m (advance ctx m) := soundBy_advance.surfaces m
      unfold loop
      split
      case h_1 m' hrun =>
        rw [hrun] at hstep
        exact (ih m').after hstep
      case h_2 v m' hrun =>
        rw [hrun] at hstep
        exact hstep
      case h_3 e m' hrun =>
        rw [hrun] at hstep
        exact hstep

/-- A run of instructions. -/
theorem soundBy_loop (fuel : Nat) :
    SoundBy .activation ctx (fun _ => True) (loop fuel) fun _ _ => True := by
  induction fuel with
  | zero => exact .throw rfl
  | succ fuel ih =>
      refine ⟨⟨fun m => ?_, fun m hinv _ hm => ?_⟩, surfacing_loop _⟩
      case refine_2 =>
        have hstep : Meets .activation ctx.host m _ _ (advance ctx m) := soundBy_advance.meets m
        have hend : (endOf (advance ctx m)).Coherent _ := soundBy_advance.coherent m hinv trivial hm
        unfold loop
        split
        case h_1 m' hrun =>
          rw [hrun] at hstep hend
          exact ih.coherent m' (hstep.2.2 ⟨hinv, trivial⟩).1 trivial hend
        case h_2 v m' hrun =>
          rw [hrun] at hend
          exact hend
        case h_3 e m' hrun =>
          rw [hrun] at hend
          exact hend
      have hstep : Meets .activation ctx.host m _ _ (advance ctx m) := soundBy_advance.meets m
      unfold loop
      split
      case h_1 m' hrun =>
        rw [hrun] at hstep
        exact (ih.meets m').after hstep.1 hstep.2.1 fun hpre => ⟨(hstep.2.2 hpre).1, trivial⟩
      case h_2 v m' hrun =>
        rw [hrun] at hstep
        exact ⟨hstep.1, hstep.2.1, fun hpre => ⟨(hstep.2.2 hpre).1, trivial⟩⟩
      case h_3 e m' hrun =>
        rw [hrun] at hstep
        exact hstep

theorem settling_loop (fuel : Nat) : Settling ctx (loop fuel) := by
  induction fuel with
  | zero => exact .throw _
  | succ fuel ih =>
      intro m hm
      have hstep : (endOf (advance ctx m)).Settled := settling_advance hm
      unfold loop
      split
      case h_1 m' hrun =>
        rw [hrun] at hstep
        exact ih hstep
      case h_2 v m' hrun =>
        rw [hrun] at hstep
        exact hstep
      case h_3 e m' hrun =>
        rw [hrun] at hstep
        exact hstep

/-- What a fault is blamed on. -/
theorem bare_blame (frame : Frame) (f : Fault) : (Raise.malformed ⟨frame.method.text, frame.opPc,
    f.message, if f = .stackUnderflow then some .underflow else none⟩).object? = none := by
  unfold Raise.object?
  dsimp only
  split <;> rfl

theorem soundBy_execute : SoundBy .activation ctx (fun _ => True) Interpreter.execute
    fun _ _ => True := by
  have hblame : ∀ f, SoundBy .activation ctx (fun _ => True) (blame f) fun _ _ => True := fun _ =>
    .seq soundBy_currentFrame fun frame => .giveUp (bare_blame frame _)
  refine .seq (safe_read.soundBy FrameRel.instruction_le_activation) fun c => ?_
  refine soundBy_attempt (soundBy_loop c.fuel) (fun v => .pure fun _ _ _ => trivial) (fun e => ?_)
    (fun _ => rfl) fun _ => rfl
  cases e with
  | panic f => exact .answers (by simp) (by simp) (hblame f)
  | _ => exact .passes _

theorem settling_execute : Settling ctx Interpreter.execute := by
  refine .bind (fun _ hm => hm) fun c => ?_
  refine .attempt (settling_loop c.fuel) fun res => ?_
  split
  · exact .pure _
  · exact .bind .currentFrame fun _ => .giveUp _
  · exact .throw _

/-- What is done while the guard is lifted, seen from where it was not. -/
theorem Machine.EvolvesBy.lowerGuard {m m' : Machine} (hguard : m.handlingOverflow = false)
    (h : EvolvesBy .instruction { m with handlingOverflow := true } m') :
    Evolves m { m' with handlingOverflow := false } where
  classes := h.classes
  heap := h.heap
  frames := h.frames
  starts := h.starts
  limit := h.limit
  guard := hguard.symm
  moments := by
    obtain ⟨passed, hpassed, hstands⟩ := h.moments
    refine ⟨passed, hpassed, fun s hs => ⟨(hstands s hs).frames, (hstands s hs).limit, fun h => ?_⟩⟩
    rw [hguard] at h
    contradiction

/-- The guard on the depth of calls is lifted while the error is made. -/
theorem stackOverflow_meets {m : Machine} {P : Prop} {Q : α → Machine → Prop}
    (hguard : m.handlingOverflow = false) :
    Meets .instruction ctx.host m (m.Inv ctx.host ∧ P) Q (stackOverflow ctx m) := by
  have hthrow : Sound ctx (fun _ => True)
      (throwNew "java/lang/StackOverflowError" "") fun (_ : α) _ => False := sound_throwNew _ _
  let m₀ : Machine := { m with handlingOverflow := true }
  have hm := hthrow.meets m₀
  unfold stackOverflow
  split
  case h_1 a m' hrun =>
    rw [hrun] at hm
    refine ⟨hm.1.lowerGuard hguard, fun hsettled => (hm.2.1 (hsettled.of_eq rfl)).of_eq rfl, ?_⟩
    intro hpre
    have hinv₀ : m₀.Inv ctx.host := hpre.1.of_eq rfl rfl rfl rfl rfl
    exact (hm.2.2 ⟨hinv₀, trivial⟩).2.elim
  case h_2 e m' hrun =>
    rw [hrun] at hm
    refine ⟨hm.1.lowerGuard hguard, fun hsettled => hm.2.1 (hsettled.of_eq rfl), ?_⟩
    intro hpre
    have hinv₀ : m₀.Inv ctx.host := hpre.1.of_eq rfl rfl rfl rfl rfl
    obtain ⟨hrecorded, hkept⟩ := hm.2.2 ⟨hinv₀, trivial⟩
    exact ⟨hrecorded.of_eq rfl rfl rfl, fun hne => (hkept hne).of_eq rfl rfl rfl rfl rfl⟩

theorem surfacing_stackOverflow : Surfacing ctx (stackOverflow : Exec α) := by
  intro m
  have hthrow : Sound ctx (fun _ => True)
      (throwNew "java/lang/StackOverflowError" "") fun (_ : α) _ => True := sound_throwNew _ _
  have hm : Surfaces m (throwNew "java/lang/StackOverflowError" "" ctx
      { m with handlingOverflow := true } : EStateM.Result Raise Machine α) :=
    (hthrow.surfaces _).after rfl
  unfold stackOverflow
  split
  case h_1 hrun =>
    rw [hrun] at hm
    exact hm
  case h_2 hrun =>
    rw [hrun] at hm
    exact hm.unwinds (.of_eq rfl rfl rfl)

theorem stackOverflow_coherent {a : Aspect} {m : Machine} (hinv : m.Inv ctx.host)
    (hm : m.Coherent a) : (endOf ((stackOverflow : Exec α) ctx m)).Coherent a := by
  have hthrow : Sound ctx (fun _ => True)
      (throwNew "java/lang/StackOverflowError" "") fun (_ : α) _ => False := sound_throwNew _ _
  have hend := hthrow.coherent { m with handlingOverflow := true } (hinv.of_eq rfl rfl rfl rfl rfl)
    trivial (hm.of_eq rfl rfl rfl)
  unfold stackOverflow
  split
  case h_1 hrun =>
    rw [hrun] at hend
    exact hend.of_eq rfl rfl rfl
  case h_2 hrun =>
    rw [hrun] at hend
    exact hend.of_eq rfl rfl rfl

theorem soundBy_runBody (method : Method) (locals : Array Value) :
    SoundBy .activation ctx (fun _ => True) (runBody method locals) fun _ _ => True := by
  refine .seq ((safe_profile method).soundBy FrameRel.instruction_le_activation) fun _ => ?_
  split
  · exact (safe_nativeCall method locals).soundBy FrameRel.instruction_le_activation
  · split
    · exact .giveUp rfl
    · exact soundBy_execute

theorem endOf_modify (f : Machine → Machine) (ctx : Context) (m : Machine) :
    endOf ((modify f : Exec Unit) ctx m) = f m :=
  rfl

/-- Bytecode leaves nothing to be taken up. -/
theorem settling_runBody {method : Method} (hnative : method.isNative = false)
    (locals : Array Value) : Settling ctx (runBody method locals) := by
  have hprofile : Settling ctx (profile method) := by
    intro m hm
    refine hm.of_eq ?_
    rw [profile, endOf_modify]
    split <;> rfl
  refine .bind hprofile fun _ => ?_
  rw [hnative, if_neg (by simp)]
  split
  · exact .giveUp _
  · exact settling_execute

omit [SoundContext ctx] in
theorem activate_eq {method : Method} {args : List Value} {locals : Array Value}
    (hlocals : layoutLocals method args = some locals) (m : Machine) :
    activate method args ctx m =
      withFrame (Frame.enter method locals m.frames) (runBody method locals) ctx m := by
  have hget : (get : Exec Machine) ctx m = .ok m m := rfl
  rw [activate, hlocals]
  dsimp only
  rw [bind_of_ok hget]

theorem activate_meets {method : Method} {args : List Value} {m : Machine}
    (hlimit : m.handlingOverflow = false → ((depthOf m.frames + 1 : Nat) : Int) ≤ m.maxDepth) :
    Meets .instruction ctx.host m (m.Inv ctx.host ∧ m.classes.Started method.owner)
      (fun _ _ => True) (activate method args ctx m) := by
  cases hlocals : layoutLocals method args with
  | none =>
      have hthrow : Sound ctx (fun m => m.classes.Started method.owner) (activate method args)
          fun _ _ => True := by
        rw [activate, hlocals]
        exact .throw rfl
      exact hthrow.meets m
  | some locals =>
      rw [activate_eq hlocals]
      exact withFrame_meets (soundBy_runBody method locals)
        (fun hnative => settling_runBody hnative locals) ⟨rfl, hlimit⟩

theorem activate_coherent {a : Aspect} {method : Method} {args : List Value} {m : Machine}
    (hinv : m.Inv ctx.host) (hstarted : m.classes.Started method.owner) (hm : m.Coherent a) :
    (endOf (activate method args ctx m)).Coherent a := by
  cases hlocals : layoutLocals method args with
  | none =>
      rw [activate, hlocals]
      exact hm
  | some locals =>
      rw [activate_eq hlocals]
      refine withFrame_coherent ((soundBy_runBody method locals).coherent _ ?_ trivial ?_)
      · exact hinv.pushFrame hstarted
      · exact hm.of_eq rfl rfl rfl

omit [SoundContext ctx] in
theorem atLimit_eq (m : Machine) : atLimit ctx m =
    .ok (decide (m.maxDepth < ((depthOf m.frames + 1 : Nat) : Int)) && !m.handlingOverflow) m :=
  rfl

theorem surfacing_activate (method : Method) (args : List Value) :
    Surfacing ctx (activate method args) := by
  unfold activate
  split
  case h_1 => exact .throw rfl
  case h_2 locals _ =>
    have hbody : SoundBy .activation ctx _ (runBody method locals) _ := soundBy_runBody method locals
    exact .bind .get fun _ => surfacing_withFrame hbody.surfaces _

/-- Calling a method of a class whose initialization has begun is sound. -/
theorem sound_invoke (method : Method) (args : List Value) :
    Sound ctx (fun m => m.classes.Started method.owner) (Interpreter.invoke method args)
      fun _ _ => True := by
  unfold Interpreter.invoke
  split
  · exact .giveUp rfl
  refine ⟨⟨fun m => ?_, fun m hinv hstarted hm => ?_⟩, ?_⟩
  · rw [bind_of_ok (atLimit_eq m)]
    split
    case isTrue hdeep =>
      rw [Bool.and_eq_true, Bool.not_eq_true'] at hdeep
      exact stackOverflow_meets hdeep.2
    case isFalse hdeep =>
      refine activate_meets fun hguard => ?_
      rw [hguard, Bool.not_false, Bool.and_true, decide_eq_true_eq] at hdeep
      exact Int.not_lt.mp hdeep
  · rw [bind_of_ok (atLimit_eq m)]
    split
    · exact stackOverflow_coherent hinv hm
    · exact activate_coherent hinv hstarted hm
  · refine .bind (fun _ => rfl) fun deep => ?_
    split
    · exact surfacing_stackOverflow
    · exact surfacing_activate method args

end Activations

end ClassEngine
