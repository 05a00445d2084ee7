import ClassEngine.Engine.Machine

/-!
How computations of the engine go on, one step after the other: with the result of the step before, or
not at all.
-/

namespace ClassEngine

variable {α β : Type} {ctx : Context}

namespace Exec

/-- A computation that goes on with the result of another. -/
theorem bind_of_ok {x : Exec α} {f : α → Exec β} {m m' : Machine} {a : α}
    (h : x ctx m = .ok a m') : (x >>= f) ctx m = f a ctx m' := by
  change EStateM.bind (x ctx) (fun a => f a ctx) m = _
  rw [EStateM.bind, h]

/-- A computation that ends where another fails. -/
theorem bind_of_error {x : Exec α} {f : α → Exec β} {m m' : Machine} {e : Raise}
    (h : x ctx m = .error e m') : (x >>= f) ctx m = .error e m' := by
  change EStateM.bind (x ctx) (fun a => f a ctx) m = _
  rw [EStateM.bind, h]

/-- What gives a result in the end has given one on the way. -/
theorem of_bind_ok {x : Exec α} {f : α → Exec β} {m m'' : Machine} {b : β}
    (h : (x >>= f) ctx m = .ok b m'') : ∃ a m', x ctx m = .ok a m' ∧ f a ctx m' = .ok b m'' := by
  cases hx : x ctx m with
  | ok a m' =>
      rw [bind_of_ok hx] at h
      exact ⟨a, m', rfl, h⟩
  | error e m' =>
      rw [bind_of_error hx] at h
      contradiction

variable {m m' : Machine}

theorem classAt_ok {d : Descriptor} {c : RuntimeClass} (h : classAt d ctx m = .ok c m') :
    m' = m ∧ m.classes[d]? = some c := by
  have hget : (get : Exec Machine) ctx m = .ok m m := rfl
  rw [classAt, bind_of_ok hget] at h
  cases hc : m.classes[d]? with
  | none =>
      rw [hc] at h
      contradiction
  | some c' =>
      rw [hc] at h
      obtain ⟨rfl, rfl⟩ := EStateM.Result.ok.inj h
      exact ⟨rfl, rfl⟩

theorem classAt_eq_ok {d : Descriptor} {c : RuntimeClass} (hc : m.classes[d]? = some c) :
    classAt d ctx m = .ok c m := by
  have hget : (get : Exec Machine) ctx m = .ok m m := rfl
  rw [classAt, bind_of_ok hget, hc]
  rfl

theorem objectAt_eq_ok {r : Ref} {o : Object} (hobject : m.heap[r.number - 1]? = some o) :
    objectAt r ctx m = .ok o m := by
  have hget : (get : Exec Machine) ctx m = .ok m m := rfl
  rw [objectAt, bind_of_ok hget, hobject]
  rfl

end Exec

open Exec

/-- A computation whose result is looked at. -/
theorem attempt_bind_ok {x : Exec α} {k : Except Raise α → Exec β} {m m' : Machine} {a : α}
    (h : x ctx m = .ok a m') : (attempt x >>= k) ctx m = k (.ok a) ctx m' :=
  bind_of_ok (by rw [attempt, h])

/-- A computation whose failure is looked at. -/
theorem attempt_bind_error {x : Exec α} {k : Except Raise α → Exec β} {m m' : Machine} {e : Raise}
    (h : x ctx m = .error e m') : (attempt x >>= k) ctx m = k (.error e) ctx m' :=
  bind_of_ok (by rw [attempt, h])

/-- The engine at the end of a computation, whether it gives a result or fails. -/
def endOf : EStateM.Result Raise Machine α → Machine
  | .ok _ m => m
  | .error _ m => m

end ClassEngine
