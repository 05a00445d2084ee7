import ClassEngine.Proofs.Engine.Allocation

/-!
Exceptions that the engine throws itself. Such an exception is made first, which runs the constructor of
its class, and thrown once it is there. Main notion: `Throws`.
-/

namespace ClassEngine

open Machine Exec Linking Resolution Allocation

/-- Makes a new exception of a class, as it is done before it is thrown. -/
def makeException (className message : Text) : Exec Ref := do
  let c ← loadClass className
  if message.isEmpty && (c.declaredMethod? MemberRef.constructorName "()V").isSome then
    construct c "()V" []
  else do
    let text : Value ← if message.isEmpty then pure Value.null else do
      let s ← newString message
      pure (Value.ref s)
    construct c "(Ljava/lang/String;)V" [text]

/-- A computation on one engine fails as throwing a new exception fails on another, on which nothing of
the exception is made yet. If it can be made, it is an instance of its class, and what is thrown. -/
structure Throws {α : Type} (ctx : Context) (className message : Text) (x : Exec α) (m m₀ : Machine) :
    Prop where
  fails : x ctx m = throwNew className message ctx m₀
  thrown : ∀ {r m₁}, makeException className message ctx m₀ = .ok r m₁ →
    x ctx m = .error (.thrown r) m₁ ∧ m₁.moment.HasType r (Descriptor.ofInternal className)

variable {α : Type} {ctx : Context} {className message : Text} {m m₀ m₁ : Machine} {r : Ref}

/-- What is made is thrown. -/
theorem throwNew_eq (className message : Text) : (throwNew className message : Exec α) =
    makeException className message >>= fun r => throw (.thrown r) := by
  unfold throwNew makeException
  rw [bind_assoc]
  congr 1
  funext c
  split
  · rfl
  · split <;> simp only [pure_bind, bind_assoc]

theorem throwNew_thrown (h : makeException className message ctx m₀ = .ok r m₁) :
    (throwNew className message : Exec α) ctx m₀ = .error (.thrown r) m₁ := by
  rw [throwNew_eq, bind_of_ok h]
  rfl

variable [SoundContext ctx]

theorem sound_makeException {P : Machine → Prop} (className message : Text) :
    Sound ctx P (makeException className message) fun r m =>
      m.moment.HasType r (Descriptor.ofInternal className) := by
  have hmake : ∀ (c : RuntimeClass) (descriptor : Text) (args : List Value),
      Sound ctx (fun m => c.descriptor = Descriptor.ofInternal className ∧ c.Known m)
        (construct c descriptor args) fun r m =>
          m.moment.HasType r (Descriptor.ofInternal className) := by
    intro c descriptor args
    have hconstruct : Sound ctx
        (fun m => c.descriptor = Descriptor.ofInternal className ∧ c.Known m)
        (construct c descriptor args) fun r m => m.moment.HasType r c.descriptor :=
      (sound_construct c descriptor args).pre fun _ _ h => h.2
    refine (hconstruct.keep ((stable_const _).and (stable_known c))).post fun r m _ h => ?_
    exact h.1.1 ▸ h.2
  refine .seq (sound_loadClass className) fun c => ?_
  have hstable : Stable fun m => c.descriptor = Descriptor.ofInternal className ∧ c.Known m :=
    (stable_const _).and (stable_known c)
  split
  · exact hmake c _ _
  · split
    · exact Safe.then hstable (Safe.pure _) fun text => hmake c _ _
    · exact Safe.then hstable (safe_newString message) fun s =>
        Safe.then hstable (Safe.pure _) fun text => hmake c _ _

theorem throws_of_eq {x : Exec α} (hinv : m₀.Inv ctx.host)
    (h : x ctx m = throwNew className message ctx m₀) : Throws ctx className message x m m₀ where
  fails := h
  thrown hmade :=
    ⟨h.trans (throwNew_thrown hmade),
      ((sound_makeException (P := fun _ => True) className message).of_ok hinv trivial hmade).2⟩

end ClassEngine
