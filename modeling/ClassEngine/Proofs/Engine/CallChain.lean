import ClassEngine.Proofs.Engine.Exceptions
import ClassEngine.Proofs.Engine.Lifecycle
import ClassEngine.Proofs.Engine.Moments
import ClassEngine.Proofs.Engine.Respecting

/-!
The chain of calls. The active frames are stacked one on the other, each one deeper than its caller;
none is deeper than the limit unless the guard is lifted; and every call leaves the frames and the
guard as it has found them, however it ends. Main result: `call_chain_is_kept`.
-/

namespace ClassEngine

open Machine Exec Linking Resolution Allocation Interpreter Initialization

/-- The frames are exactly what they were. -/
def MachineRel.sameFrames : MachineRel where
  rel m m' := m'.frames = m.frames
  refl _ := rfl
  breakDown _ _ := rfl
  trans h h' := h'.trans h

instance : MachineRel.sameFrames.Lenient where
  same hframes _ _ := hframes
  insert _ _ _ := rfl
  modify _ _ _ _ := rfl
  string _ _ h _ := h
  mirror _ h _ _ := h

section Activation

variable {α : Type} {ctx : Context}

/-- The frame of an activation is gone afterwards. -/
theorem withFrame_sameFrames (f : Frame) (x : Exec α) :
    Respects .sameFrames ctx (withFrame f x) := by
  intro m
  unfold withFrame
  dsimp only
  split <;> rfl

theorem activate_sameFrames (method : Method) (args : List Value) :
    Respects .sameFrames ctx (activate method args) := by
  unfold activate
  split
  · exact .throw _
  · exact .bind respects_get fun _ => withFrame_sameFrames _ _

end Activation

instance sameFramesContext (host : Host) (steps nesting : Nat) :
    RespectingContext .sameFrames (Session.context host steps nesting) := by
  induction nesting with
  | zero => exact ⟨fun _ _ _ => rfl, fun _ _ => rfl⟩
  | succ nesting ih =>
      refine ⟨fun method args => ?_, respects_initializeOnce⟩
      exact respects_invoke (activate_sameFrames method args)

/-- The two ways in which a method is called: by the name of a class on, or as the method it is. -/
inductive IsCall : Exec Value → Prop
  | named (owner name descriptor : Text) (args : List Value) :
      IsCall (Resolution.invoke owner name descriptor args)
  | direct (method : Method) (args : List Value) : IsCall (invokeMethod method args)

namespace IsCall

variable {ctx : Context} {call : Exec Value}

theorem sameFrames [RespectingContext .sameFrames ctx] (h : IsCall call) :
    Respects .sameFrames ctx call := by
  cases h with
  | named owner name descriptor args => exact respects_invokeNamed owner name descriptor args
  | direct method args => exact respects_invokeMethod method args

/-- The guard is afterwards what it was, whatever was done about it in between. -/
theorem guard [SoundContext ctx] (h : IsCall call) (m : Machine) :
    (endOf (call ctx m)).handlingOverflow = m.handlingOverflow := by
  have hevolves : ∀ {P : Machine → Prop} {Q : Value → Machine → Prop}, Sound ctx P call Q →
      Evolves m (endOf (call ctx m)) := fun hsound => (hsound.meets m).evolves
  cases h with
  | named owner name descriptor args =>
      exact (hevolves (safe_invoke owner name descriptor args)).guard
  | direct method args => exact (hevolves (sound_invokeMethod method args)).guard

end IsCall

/-- The frames of a moment are a chain of calls: each frame knows how many there are from it on
outwards, and that is within the limit unless the guard is lifted. -/
structure Moment.IsChain (s : Moment) : Prop where
  depth : ∀ {above callers : List Frame} {f : Frame}, s.frames = above ++ f :: callers →
    f.depth = callers.length + 1
  within : s.lifted = false → ∀ f ∈ s.frames, (f.depth : Int) ≤ s.limit

section Chains

theorem depthOf_stacked {frames : List Frame} (h : Stacked [] frames) :
    depthOf frames = frames.length := by
  induction frames with
  | nil => rfl
  | cons f callers ih =>
      have hf : f.depth = depthOf (callers ++ []) + 1 := h.1
      rw [List.append_nil, ih h.2] at hf
      exact hf

theorem Stacked.of_append {base above frames : List Frame} (h : Stacked base (above ++ frames)) :
    Stacked base frames := by
  induction above with
  | nil => exact h
  | cons _ _ ih => exact ih h.2

theorem Moment.IsChain.of_empty {s : Moment} (h : s.frames = []) : s.IsChain where
  depth hframes := by simp [h] at hframes
  within _ f hf := by simp [h] at hf

/-- What stands on no frame is a chain of its own. -/
theorem Moment.StandsOn.isChain {F : FrameRel} {m : Machine} {s : Moment} (h : s.StandsOn F m)
    (hm : m.frames = []) : s.IsChain := by
  obtain ⟨above, base, hframes, hbase, hstacked, hwithin⟩ := h.frames
  rw [hm] at hbase
  obtain rfl : base = [] := by
    cases base with
    | nil => rfl
    | cons _ _ => exact hbase.elim
  rw [List.append_nil] at hframes
  subst hframes
  refine ⟨fun {outer callers f} hsplit => ?_, hwithin⟩
  rw [hsplit] at hstacked
  exact depthOf_stacked hstacked.of_append

variable {host : Host} {may : Request → Machine → Prop} {m : Machine}

/-- The step of a whole history: one request. -/
theorem runWithin_chains {now : Host} {steps nesting : Nat} (request : Request)
    (hframes : m.frames = []) (hm : ∀ s ∈ m.moments.val, s.IsChain) {s : Moment}
    (hs : s ∈ (endOf (Session.runWithin now steps nesting request.perform m)).moments.val) :
    s.IsChain := by
  obtain ⟨passed, hpassed, hstands⟩ := (runWithin_evolves (meeting_perform request) m).moments
  rw [hpassed] at hs
  rcases List.mem_append.mp hs with hs | hs
  · exact (hstands s hs).isChain hframes
  · exact hm s hs

theorem Used.chains (h : Used host may m) : ∀ s ∈ m.moments.val, s.IsChain := by
  obtain ⟨m₀, hnew, hmoments, huses⟩ := h
  induction huses with
  | refl => simp [hmoments]
  | tail huses huse ih =>
      have hused : Used host may _ := ⟨m₀, hnew, hmoments, huses⟩
      cases huse with
      | ask _ request _ _ => exact fun s hs => runWithin_chains request hused.reachable.frames ih hs
      | adjust _ _ _ _ hkept => rwa [hkept]

/-- At every moment of every run the frames are a chain of calls. -/
theorem Watched.chains (h : Watched host may m) {s : Moment} (hs : m.Passed s) : s.IsChain := by
  cases h with
  | idle hm =>
      rcases hs with rfl | hs
      · exact .of_empty hm.reachable.frames
      · exact hm.chains s hs
  | busy hm _ request _ _ _ =>
      rcases hs with rfl | hs
      · exact .of_empty (runWithin_frames (meeting_perform request) hm.reachable.frames)
      · exact runWithin_chains request hm.reachable.frames hm.chains hs

end Chains

section Activations

variable {ctx : Context} [SoundContext ctx]

/-- While a method runs, its frame stands on exactly those of its callers. -/
theorem runBody_frames (method : Method) (locals : Array Value) (callers : List Frame)
    (m : Machine) :
    ∃ passed : List Moment,
      (endOf (runBody method locals ctx
        { m with frames := Frame.enter method locals callers :: callers })).moments.val =
        passed ++ m.moments.val ∧
      ∀ s ∈ passed, ∃ above g, s.frames = above ++ g :: callers ∧ g.method = method := by
  let entered : Machine := { m with frames := Frame.enter method locals callers :: callers }
  have hbody : SoundBy .activation ctx _ (runBody method locals) _ := soundBy_runBody method locals
  obtain ⟨passed, hpassed, hstands⟩ := (hbody.meets entered).evolves.moments
  refine ⟨passed, hpassed, fun s hs => ?_⟩
  obtain ⟨above, base, hframes, hbase, _⟩ := (hstands s hs).frames
  obtain ⟨g, rfl, hg⟩ := FrameRel.onTop_cons _ hbase
  exact ⟨above, g, hframes, FrameRel.method _ hg⟩

/-- However many instructions are executed, the frame that executes them is the innermost. -/
theorem instructions_frames {m m' : Machine} {f : Frame} {callers : List Frame}
    (h : Relation.ReflTransGen (fun m m' => advance ctx m = .ok .next m') m m')
    (hframes : m.frames = f :: callers) :
    ∃ g, m'.frames = g :: callers ∧ g.method = f.method ∧ g.depth = f.depth := by
  induction h with
  | refl => exact ⟨f, hframes, rfl, rfl⟩
  | @tail m₁ m₂ _ hstep ih =>
      obtain ⟨g, hg, hmethod, hdepth⟩ := ih
      have hadvance : SoundBy .activation ctx _ advance _ := soundBy_advance
      have hmeets := hadvance.meets m₁
      rw [hstep] at hmeets
      have hafter := hmeets.1.frames
      rw [hg] at hafter
      obtain ⟨k, hk, hrel⟩ := FrameRel.onTop_cons _ hafter
      exact ⟨k, hk, (FrameRel.method _ hrel).trans hmethod, (FrameRel.depth _ hrel).trans hdepth⟩

end Activations

/-- At every moment of every run the frames are a chain of calls, in which each frame has the depth
at which it stands, within the limit unless the guard is lifted. While a method runs, its frame
stands on exactly those of its callers, and while it executes its own instructions it is the
innermost. Every call leaves the frames and the guard as it has found them, however it ends. -/
theorem call_chain_is_kept (host : Host) (may : Request → Machine → Prop) (steps n : Nat) :
    (∀ m s, Watched host may m → m.Passed s → s.IsChain) ∧
    (∀ (method : Method) (locals : Array Value) (m : Machine), ∃ passed : List Moment,
      (endOf (runBody method locals (Session.context host steps n)
        { m with frames := Frame.enter method locals m.frames :: m.frames })).moments.val =
        passed ++ m.moments.val ∧
      ∀ s ∈ passed, ∃ above g, s.frames = above ++ g :: m.frames ∧ g.method = method) ∧
    (∀ (m m' : Machine) (f : Frame) (callers : List Frame), m.frames = f :: callers →
      Relation.ReflTransGen (fun m m' => advance (Session.context host steps n) m = .ok .next m')
        m m' →
      ∃ g, m'.frames = g :: callers ∧ g.method = f.method ∧ g.depth = f.depth) ∧
    ∀ (call : Exec Value) (m : Machine), IsCall call →
      ∀ m', (m' = endOf (call (Session.context host steps n) m) ∨
        m' = endOf (Session.runWithin host steps n call m)) →
      m'.frames = m.frames ∧ m'.handlingOverflow = m.handlingOverflow := by
  refine ⟨fun m s hm hs => hm.chains hs, fun method locals m => runBody_frames method locals _ m,
    fun m m' f callers hframes hsteps => instructions_frames hsteps hframes, ?_⟩
  intro call m hcall m' hm'
  have hframes : (endOf (call (Session.context host steps n) m)).frames = _ := hcall.sameFrames m
  have hguard : (endOf (call (Session.context host steps n) m)).handlingOverflow = _ :=
    hcall.guard m
  rcases hm' with rfl | rfl
  · exact ⟨hframes, hguard⟩
  · rw [Session.runWithin]
    cases hrun : call (Session.context host steps n) m with
    | ok _ _ =>
        rw [hrun] at hframes hguard
        exact ⟨hframes, hguard⟩
    | error e _ =>
        rw [hrun] at hframes hguard
        cases e <;> exact ⟨hframes, hguard⟩

/-- A method that does nothing for one instruction and then returns. -/
def pausing : Method :=
  { rethrower with name := "pause", code := some ⟨0, 0, #[0x00, 0xB1], [], []⟩ }

/-- An engine that is about to execute this method. -/
def beforePause : Machine :=
  { Session.fresh with frames := [Frame.enter pausing #[] []] }

/-- A class that was initialized, one instruction of a method, and a call of the method. -/
theorem call_chain_is_kept_pausing :
    (∀ s, rootLoaded.Passed s → s.IsChain) ∧
    (∃ m' g, advance (Session.context ringHost 9 9) beforePause = .ok .next m' ∧
      m'.frames = [g] ∧ g.method = pausing ∧ g.depth = 1) ∧
    (endOf (invokeMethod pausing [] (Session.context ringHost 9 9) Session.fresh)).frames = [] := by
  let ctx := Session.context ringHost 9 9
  obtain ⟨hchains, _, hinstructions, hcalls⟩ := call_chain_is_kept ringHost (fun _ _ => True) 9 9
  refine ⟨fun s => ?_, ?_, ?_⟩
  · exact hchains rootLoaded s (.busy (used_fresh _ _) rfl (.loadClass "Root") trivial 9 9)
  · have hop : Opcode.ofByte? 0x00 = some .nop := by decide +kernel
    have hfetch : fetch ctx beforePause = .ok 0x00 (endOf (fetch ctx beforePause)) := rfl
    have hrun : ∀ m, Step.run 0x00 ctx m = .ok .next m := by
      intro m
      unfold Step.run
      rw [hop]
      rfl
    have hstep : ∃ m', advance ctx beforePause = .ok .next m' :=
      ⟨_, by rw [advance, bind_of_ok hfetch, attempt_bind_ok (hrun _)]; rfl⟩
    obtain ⟨m', hstep⟩ := hstep
    obtain ⟨g, hframes, hmethod, hdepth⟩ := hinstructions beforePause m' _ [] rfl (.single hstep)
    exact ⟨m', g, hstep, hframes, hmethod, hdepth⟩
  · exact (hcalls _ _ (.direct pausing []) _ (.inl rfl)).1

end ClassEngine
