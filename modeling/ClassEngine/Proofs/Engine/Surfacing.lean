import ClassEngine.Proofs.Engine.Computations
import ClassEngine.Proofs.Engine.Evolution

/-!
Fatal errors come to the surface. A computation in the course of which one comes up ends with it, at
once: from there on nothing is recorded but changes of the class table. The rules here follow how
computations are put together. The one that matters is about looking at the failure of a computation:
a fatal one has to be passed on.
-/

namespace ClassEngine

open Machine Exec

variable {α β : Type} {ctx : Context} {e : Raise}

theorem Raise.fatal_cases (h : e.isFatal = true) :
    (∃ u, e = .unresolved u) ∨ ∃ c, e = .malformed c := by
  cases e with
  | unresolved u => exact .inl ⟨u, rfl⟩
  | malformed c => exact .inr ⟨c, rfl⟩
  | _ => contradiction

@[grind =] theorem Raise.isFatal_thrown (r : Ref) : (Raise.thrown r).isFatal = false := rfl

@[grind =] theorem Raise.isFatal_failure (message : Text) : (Raise.failure message).isFatal = false :=
  rfl

/-- Since the breakdown nothing was recorded but changes of the class table. -/
structure Breakdown.LeadsTo (b : Breakdown) (m : Machine) : Prop where
  moments : m.moments.val = b.moments
  history : ∃ tables : List ClassTable, m.history.val = tables.map .changed ++ b.history

namespace Machine

variable {m m' m'' : Machine}

/-- Nothing is recorded between the two states but changes of the class table. -/
structure Unwinds (m m' : Machine) : Prop where
  breakdowns : m'.breakdowns.val = m.breakdowns.val
  moments : m'.moments.val = m.moments.val
  history : ∃ tables : List ClassTable, m'.history.val = tables.map .changed ++ m.history.val

theorem Unwinds.of_eq (hbreakdowns : m'.breakdowns = m.breakdowns) (hmoments : m'.moments = m.moments)
    (hhistory : m'.history = m.history) : m.Unwinds m' :=
  ⟨by rw [hbreakdowns], by rw [hmoments], [], by rw [hhistory]; rfl⟩

theorem unwinds_withClasses (m : Machine) (t : ClassTable) : m.Unwinds (m.withClasses t) :=
  ⟨rfl, rfl, [t], withClasses_history m t⟩

/-- A fatal error has come up on the way from one state to the other, and has led there. -/
def BreaksDown (e : Raise) (m m' : Machine) : Prop :=
  ∃ b : Breakdown, b.error = e ∧ m'.breakdowns.val = b :: m.breakdowns.val ∧ b.LeadsTo m'

theorem breaksDown_breakDown (he : e.isFatal = true) (m : Machine) :
    BreaksDown e m (m.breakDown e) :=
  ⟨_, rfl, breakDown_fatal he m, rfl, [], rfl⟩

theorem BreaksDown.unwinds (h : BreaksDown e m m') (hunwinds : m'.Unwinds m'') :
    BreaksDown e m m'' := by
  obtain ⟨b, hb, hbreakdowns, hmoments, tables, hhistory⟩ := h
  obtain ⟨tables', hhistory'⟩ := hunwinds.history
  refine ⟨b, hb, hunwinds.breakdowns.trans hbreakdowns, hunwinds.moments.trans hmoments,
    tables' ++ tables, ?_⟩
  rw [hhistory', hhistory, List.map_append, List.append_assoc]

end Machine

/-- How a computation ends that started in `m`: with the fatal error that came up in its course, if one
did. -/
def Surfaces (m : Machine) : EStateM.Result Raise Machine α → Prop
  | .ok _ m' => m'.breakdowns.val = m.breakdowns.val
  | .error e m' => (e.isFatal = true → BreaksDown e m m') ∧
      (e.isFatal = false → m'.breakdowns.val = m.breakdowns.val)

/-- From every state, the computation ends with the fatal error that comes up in its course, if one
does. -/
def Surfacing (ctx : Context) (x : Exec α) : Prop :=
  ∀ m, Surfaces m (x ctx m)

/-- From every state, the computation does no more than to fail with that error. -/
def PassesOn (ctx : Context) (e : Raise) (x : Exec α) : Prop :=
  ∀ m, ∃ m', x ctx m = .error e m' ∧ m.Unwinds m'

namespace Surfaces

variable {m m' m'' : Machine} {res : EStateM.Result Raise Machine α}

/-- The end of a computation seen from further back. -/
theorem after (h : Surfaces m' res) (hm : m'.breakdowns.val = m.breakdowns.val) :
    Surfaces m res := by
  cases res with
  | ok a m'' => exact h.trans hm
  | error e m'' =>
      refine ⟨fun he => ?_, fun he => (h.2 he).trans hm⟩
      obtain ⟨b, hb, hbreakdowns, hleads⟩ := h.1 he
      exact ⟨b, hb, hm ▸ hbreakdowns, hleads⟩

/-- A failure seen from further out. -/
theorem unwinds (h : Surfaces m (.error e m' : EStateM.Result Raise Machine α))
    (hunwinds : m'.Unwinds m'') : Surfaces m (.error e m'' : EStateM.Result Raise Machine β) :=
  ⟨fun he => (h.1 he).unwinds hunwinds, fun he => hunwinds.breakdowns.trans (h.2 he)⟩

end Surfaces

theorem passesOn_throw (e : Raise) : PassesOn ctx e (throw e : Exec α) :=
  fun m => ⟨m, rfl, .of_eq rfl rfl rfl⟩

/-- A class may be marked before the failure is passed on. -/
theorem passesOn_modifyClass (e : Raise) (d : Descriptor) (f : RuntimeClass → RuntimeClass) :
    PassesOn ctx e (do modifyClass d f; throw e : Exec α) :=
  fun m => ⟨_, rfl, unwinds_withClasses m _⟩

namespace Surfacing

theorem pure (a : α) : Surfacing ctx (pure a) :=
  fun _ => rfl

theorem throw (he : e.isFatal = false) : Surfacing ctx (throw e : Exec α) :=
  fun _ => ⟨fun hfatal => by rw [he] at hfatal; contradiction, fun _ => rfl⟩

/-- A failure is recorded where it comes up. -/
theorem giveUp (e : Raise) : Surfacing ctx (giveUp e : Exec α) :=
  fun m => ⟨fun he => breaksDown_breakDown he m, fun he => breakDown_other he m⟩

theorem bind {x : Exec α} {f : α → Exec β} (hx : Surfacing ctx x) (hf : ∀ a, Surfacing ctx (f a)) :
    Surfacing ctx (x >>= f) := by
  intro m
  have hm := hx m
  cases hrun : x ctx m with
  | ok a m' =>
      rw [hrun] at hm
      rw [bind_of_ok hrun]
      exact (hf a m').after hm
  | error e m' =>
      rw [hrun] at hm
      rw [bind_of_error hrun]
      exact hm

/-- A computation whose failure is looked at. A fatal one has to be passed on. -/
theorem attempt {x : Exec α} {k : Except Raise α → Exec β} (hx : Surfacing ctx x)
    (hok : ∀ a, Surfacing ctx (k (.ok a)))
    (hfatal : ∀ e, e.isFatal = true → PassesOn ctx e (k (.error e)))
    (hother : ∀ e, e.isFatal = false → Surfacing ctx (k (.error e))) :
    Surfacing ctx (attempt x >>= k) := by
  intro m
  have hm := hx m
  cases hrun : x ctx m with
  | ok a m' =>
      rw [hrun] at hm
      rw [attempt_bind_ok hrun]
      exact (hok a m').after hm
  | error e m' =>
      rw [hrun] at hm
      rw [attempt_bind_error hrun]
      cases he : e.isFatal with
      | true =>
          obtain ⟨m'', hpassed, hunwinds⟩ := hfatal e he m'
          rw [hpassed]
          exact hm.unwinds hunwinds
      | false => exact (hother e he m').after (hm.2 he)

theorem get : Surfacing ctx (get : Exec Machine) :=
  fun _ => rfl

theorem read : Surfacing ctx (read : Exec Context) :=
  fun _ => rfl

theorem modify {f : Machine → Machine} (hf : ∀ m, (f m).breakdowns = m.breakdowns) :
    Surfacing ctx (modify f : Exec Unit) :=
  fun m => congrArg Ghost.val (hf m)

end Surfacing

end ClassEngine
