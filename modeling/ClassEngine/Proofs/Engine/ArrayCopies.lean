import ClassEngine.Proofs.Engine.ArrayElements
import ClassEngine.Proofs.Engine.Exceptions
import ClassEngine.Proofs.Engine.Throwing

/-!
Copying a range of one array to another, or to itself. The checks come before any write, and elements of
another reference type are checked one by one. Main result: `arrays_are_copied`.
-/

namespace ClassEngine

open Machine Exec Linking Resolution Allocation

/-- An exception that is thrown where a result is asked for takes its place. -/
theorem throwNew_bind {α β : Type} (className message : Text) (f : α → Exec β) :
    (throwNew className message >>= f) = throwNew className message := by
  rw [throwNew_eq, throwNew_eq, bind_assoc]
  rfl

/-- What a computation gives is all that matters for what follows it. -/
theorem bind_of_eq {α β : Type} {ctx : Context} {m m' : Machine} {x y : Exec α} {f : α → Exec β}
    (h : x ctx m = y ctx m') : (x >>= f) ctx m = (y >>= f) ctx m' := by
  change EStateM.bind (x ctx) (fun a => f a ctx) m = EStateM.bind (y ctx) (fun a => f a ctx) m'
  rw [EStateM.bind, EStateM.bind, h]

namespace Arrays

/-- The native of `System.arraycopy` with its five arguments. -/
def copyCall (src : Option Ref) (srcPos : Int32) (dst : Option Ref) (dstPos length : Int32) :
    Exec Value :=
  Native.run (.builtin .arraycopy)
    #[src.elim .null .ref, .int srcPos, dst.elim .null .ref, .int dstPos, .int length]

/-- Two arrays of the same primitive type, or two arrays of references. -/
def Alike (source target : Object) : Prop :=
  source.isArray = true ∧ target.isArray = true ∧
    (Descriptor.isPrimitive (Descriptor.component source.type) = true ∧
        Descriptor.component source.type = Descriptor.component target.type ∨
      Descriptor.isPrimitive (Descriptor.component source.type) = false ∧
        Descriptor.isPrimitive (Descriptor.component target.type) = false)

/-- Both ranges lie in their arrays. The sums are sums of integers, so they do not overflow. -/
structure InRange (source target : Array Value) (srcPos dstPos length : Int32) : Prop where
  fromStart : 0 ≤ srcPos.toInt
  toStart : 0 ≤ dstPos.toInt
  count : 0 ≤ length.toInt
  fromEnd : srcPos.toInt + length.toInt ≤ source.size
  toEnd : dstPos.toInt + length.toInt ≤ target.size

/-- A range of an array. -/
def range (source : Array Value) (fromPos count : Nat) : List Value :=
  (source.extract fromPos (fromPos + count)).toList

/-- The test whether objects of a class may be stored in an array with the given component type. -/
def admits (component type : Descriptor) : Exec Bool := do
  link component
  assignable type component

/-- When values are stored in an array one by one, each test of one that is a reference comes to an
answer, and code that changes an array is not run for it. -/
def Tested (ctx : Context) (component : Descriptor) (dst : Ref) (i : Nat) (vs : List Value)
    (m : Machine) : Prop :=
  ∀ (k : Nat) (r : Ref) (o : Object) (m₁ : Machine),
    storeEach component dst i (vs.take k) ctx m = .ok () m₁ → vs[k]? = some (.ref r) →
    m₁.heap[r.number - 1]? = some o →
    ∃ b m₂, admits component o.type ctx m₁ = .ok b m₂ ∧
      (m₂.moments = m₁.moments ∨ m₁.KeepsElements m₂)

/-- What a copy writes once its checks are done. -/
def write (source target : Object) (dst : Ref) (fromPos toPos count : Nat) : Exec Unit :=
  let vs := range source.elements fromPos count
  if Descriptor.isPrimitive (Descriptor.component target.type) = false ∧ source.type ≠ target.type then
    storeEach (Descriptor.component target.type) dst toPos vs
  else modifyObject dst fun o => { o with elements := overwrite toPos vs o.elements }

end Arrays

/-- What has become of the objects: in one array a range of elements has been overwritten by elements of
another array, and no other elements have changed. -/
def Machine.Copied (m : Machine) (source : Array Value) (fromPos : Nat) (dst : Ref) (toPos count : Nat)
    (m' : Machine) : Prop :=
  ∀ ⦃i : Nat⦄ ⦃o : Object⦄, m.heap[i]? = some o → ∃ o', m'.heap[i]? = some o' ∧ o'.type = o.type ∧
    ∀ e : Nat, o'.elements[e]? =
      if i = dst.number - 1 ∧ toPos ≤ e ∧ e < toPos + count then source[fromPos + (e - toPos)]?
      else o.elements[e]?

/-- The same, with the new elements as a list. -/
def Machine.Overwritten (m : Machine) (dst : Ref) (i : Nat) (vs : List Value) (m' : Machine) : Prop :=
  ∀ ⦃j : Nat⦄ ⦃o : Object⦄, m.heap[j]? = some o → ∃ o', m'.heap[j]? = some o' ∧ o'.type = o.type ∧
    o'.elements = if j = dst.number - 1 then Arrays.overwrite i vs o.elements else o.elements

namespace Arrays

section Overwriting

variable {i j : Nat} {v : Value} {vs : List Value} {elements : Array Value}

theorem overwrite_cons : overwrite i (v :: vs) elements =
    overwrite (i + 1) vs (elements.setIfInBounds i v) :=
  rfl

/-- What stands in an array after a part of it was overwritten, place by place. -/
theorem overwrite_getElem? (hroom : i + vs.length ≤ elements.size) :
    (overwrite i vs elements)[j]? =
      if i ≤ j ∧ j < i + vs.length then vs[j - i]? else elements[j]? := by
  induction vs generalizing i elements with
  | nil =>
      rw [if_neg (by rw [List.length_nil]; omega)]
      rfl
  | cons v vs ih =>
      rw [List.length_cons] at hroom ⊢
      rw [overwrite_cons, ih (by rw [Array.size_setIfInBounds]; omega)]
      by_cases hj : j = i
      · subst hj
        rw [if_neg (by omega), if_pos (by omega), Array.getElem?_setIfInBounds_self_of_lt (by omega),
          Nat.sub_self]
        rfl
      · rw [Array.getElem?_setIfInBounds_ne (Ne.symm hj)]
        by_cases hin : i + 1 ≤ j ∧ j < i + 1 + vs.length
        · rw [if_pos hin, if_pos (by omega), show j - i = (j - (i + 1)) + 1 by omega,
            List.getElem?_cons_succ]
        · rw [if_neg hin, if_neg (by omega)]

end Overwriting

section Ranges

variable {source : Array Value} {fromPos count : Nat}

theorem range_length (h : fromPos + count ≤ source.size) :
    (range source fromPos count).length = count := by
  rw [range, Array.length_toList, Array.size_extract]
  omega

theorem range_getElem? {j : Nat} (hj : j < count) :
    (range source fromPos count)[j]? = source[fromPos + j]? := by
  rw [range, Array.getElem?_toList, Array.getElem?_extract]
  split
  · rfl
  · rw [Array.getElem?_eq_none (by omega)]

end Ranges

section Checks

variable {ctx : Context} {m : Machine} {s d : Ref} {so target : Object} {srcPos dstPos length : Int32}

theorem copyCall_eq (src dst : Option Ref) (srcPos dstPos length : Int32) :
    copyCall src srcPos dst dstPos length =
      copy src srcPos dst dstPos length >>= fun _ => pure .null := by
  cases src <;> cases dst <;> rfl

theorem copy_null {src dst : Option Ref} (h : src = none ∨ dst = none) :
    copy src srcPos dst dstPos length =
      throwNew "java/lang/NullPointerException" "arraycopy of null array" := by
  rcases h with rfl | rfl
  · rfl
  · cases src <;> rfl

variable (ctx srcPos dstPos length) in
/-- The checks come before anything is written. -/
theorem copy_checks (hs : m.heap[s.number - 1]? = some so) (hd : m.heap[d.number - 1]? = some target) :
    ¬Alike so target ∧ (∃ message, copy (some s) srcPos (some d) dstPos length ctx m =
        throwNew "java/lang/ArrayStoreException" message ctx m) ∨
      Alike so target ∧ ¬InRange so.elements target.elements srcPos dstPos length ∧
        (∃ message, copy (some s) srcPos (some d) dstPos length ctx m =
          throwNew "java/lang/ArrayIndexOutOfBoundsException" message ctx m) ∨
      Alike so target ∧ InRange so.elements target.elements srcPos dstPos length ∧
        copy (some s) srcPos (some d) dstPos length ctx m =
          write so target d srcPos.toInt.toNat dstPos.toInt.toNat length.toInt.toNat ctx m := by
  unfold copy
  dsimp only
  rw [bind_of_ok (objectAt_eq_ok hs), bind_of_ok (objectAt_eq_ok hd)]
  by_cases harrays : (!so.isArray || !target.isArray) = true
  · rw [if_pos harrays, throwNew_bind]
    refine .inl ⟨fun halike => ?_, _, rfl⟩
    simp [halike.1, halike.2.1] at harrays
  rw [if_neg harrays]
  rw [Bool.or_eq_true, not_or, Bool.not_eq_true, Bool.not_eq_true, Bool.not_eq_false',
    Bool.not_eq_false'] at harrays
  by_cases hmismatch : ((Descriptor.isPrimitive (Descriptor.component so.type) ||
      Descriptor.isPrimitive (Descriptor.component target.type)) &&
      Descriptor.component so.type != Descriptor.component target.type) = true
  · rw [if_pos hmismatch, throwNew_bind]
    refine .inl ⟨?_, _, rfl⟩
    rintro ⟨_, _, ⟨_, hsame⟩ | ⟨hse, hte⟩⟩
    · simp [hsame] at hmismatch
    · simp [hse, hte] at hmismatch
  rw [if_neg hmismatch]
  have halike : Alike so target := by
    refine ⟨harrays.1, harrays.2, ?_⟩
    rw [Bool.and_eq_true, not_and', bne_iff_ne, Bool.or_eq_true] at hmismatch
    cases hse : Descriptor.isPrimitive (Descriptor.component so.type) with
    | true => exact .inl ⟨rfl, by_contra fun hne => hmismatch hne (.inl hse)⟩
    | false =>
        refine .inr ⟨rfl, Bool.not_eq_true _ ▸ fun hte => ?_⟩
        have hsame := by_contra fun hne => hmismatch hne (.inr hte)
        rw [hsame, hte] at hse
        contradiction
  refine .inr ?_
  by_cases hrange : srcPos.toInt < 0 ∨ dstPos.toInt < 0 ∨ length.toInt < 0 ∨
      (so.elements.size : Int) < srcPos.toInt + length.toInt ∨
      (target.elements.size : Int) < dstPos.toInt + length.toInt
  · rw [if_pos hrange, throwNew_bind]
    refine .inl ⟨halike, ?_, _, rfl⟩
    rintro ⟨hfrom, hto, hcount, hfromEnd, htoEnd⟩
    omega
  · rw [if_neg hrange]
    have hin : InRange so.elements target.elements srcPos dstPos length :=
      ⟨by omega, by omega, by omega, by omega, by omega⟩
    refine .inr ⟨halike, hin, ?_⟩
    simp only [write, range, Bool.and_eq_true, Bool.not_eq_true', bne_iff_ne,
      Int.toNat_add hin.fromStart hin.count]

end Checks

section Storing

variable {ctx : Context} [SoundContext ctx] [RespectingContext .sparesArrays ctx]
  {component : Descriptor} {dst : Ref} {i : Nat} {v : Value} {vs : List Value} {m m₁ m₂ : Machine}

/-- The check of a value before it is stored. -/
def allow (component : Descriptor) (v : Value) : Exec Unit := do
  checkStore component (← check (FrameM.asRef v))

omit [SoundContext ctx] [RespectingContext .sparesArrays ctx] in
theorem storeEach_cons : storeEach component dst i (v :: vs) = allow component v >>= fun _ =>
    modifyObject dst (fun o => { o with elements := o.elements.setIfInBounds i v }) >>= fun _ =>
      storeEach component dst (i + 1) vs := by
  rw [allow, bind_assoc]
  rfl

omit [SoundContext ctx] in
theorem admits_keepsElements {type : Descriptor} {b : Bool}
    (h : admits component type ctx m = .ok b m₂)
    (hquiet : m₂.moments = m.moments ∨ m.KeepsElements m₂) : m.KeepsElements m₂ := by
  have hadmits : Respects .sparesArrays ctx (admits component type) :=
    .bind (respects_link component) fun _ => respects_assignable type component
  refine hquiet.elim (fun hmoments => ?_) id
  have hend := hadmits.keepsElements (m := m)
  rw [h] at hend
  exact hend hmoments

omit [RespectingContext .sparesArrays ctx] in
variable (ctx) in
theorem safe_admits (component type : Descriptor) : Safe ctx (admits component type) :=
  Safe.bind (safe_link component) fun _ => safe_assignable type component

omit [RespectingContext .sparesArrays ctx] in
/-- The answer of a test is whether the object fits. -/
theorem admits_iff {r : Ref} {o : Object} {b : Bool} (ho : m.heap[r.number - 1]? = some o)
    (h : admits component o.type ctx m = .ok b m₂) :
    b = true ↔ m₂.moment.Fits component (.ref r) := by
  obtain ⟨_, m₁, hlink, hassignable⟩ := of_bind_ok h
  have hsubtype : b = true ↔ m₂.classes.IsSubtype o.type component :=
    assignable_iff hassignable (.refl _)
  obtain ⟨o', ho', htype, _⟩ := ((safe_admits ctx component o.type).evolves h).heap ho
  rw [hsubtype]
  constructor
  · exact fun hsub => .ref ho' (htype.symm ▸ hsub)
  · intro hfits
    cases hfits with
    | ref ho'' hsub =>
        obtain rfl := Option.some.inj (ho'.symm.trans ho'')
        exact htype ▸ hsub

omit [SoundContext ctx] [RespectingContext .sparesArrays ctx] in
theorem allow_ref {r : Ref} {o : Object} {b : Bool} (ho : m.heap[r.number - 1]? = some o)
    (h : admits component o.type ctx m = .ok b m₂) :
    allow component (.ref r) ctx m = if b = true then .ok () m₂
      else throwNew "java/lang/ArrayStoreException" (Descriptor.sourceName o.type) ctx m₂ := by
  have hallow : allow component (.ref r) = objectAt r >>= fun o => admits component o.type >>= fun b =>
      if !b then throwNew "java/lang/ArrayStoreException" (Descriptor.sourceName o.type)
      else pure () := by
    simp only [admits, bind_assoc]
    rfl
  rw [hallow, bind_of_ok (objectAt_eq_ok ho), bind_of_ok h]
  cases b <;> rfl

omit [RespectingContext .sparesArrays ctx] in
/-- What is allowed fits. -/
theorem allow_ok (hinv : m.Inv ctx.host) (h : allow component v ctx m = .ok () m₂) :
    m.Evolves m₂ ∧ m₂.Inv ctx.host ∧ m₂.moment.Fits component v := by
  have hcheck : ∀ r, checkStore component r ctx m = .ok () m₂ →
      m.Evolves m₂ ∧ m₂.Inv ctx.host ∧ m₂.moment.Fits component (r.elim .null .ref) := by
    intro r hrun
    have hsound : Sound ctx (fun _ => True) (checkStore component r) fun _ m =>
      m.moment.Fits component (r.elim .null .ref) := sound_checkStore component r
    exact ⟨hsound.evolves_of_ok hrun, hsound.of_ok hinv trivial hrun⟩
  cases v with
  | null => exact hcheck none h
  | ref r => exact hcheck (some r) h
  | _ => contradiction

/-- How far a run of stores has come: these values are in the array from a place on, and are allowed
there, and no other elements have changed. -/
structure Reaches (ctx : Context) (component : Descriptor) (dst : Ref) (i : Nat) (vs : List Value)
    (m m₁ : Machine) : Prop where
  inv : m₁.Inv ctx.host
  evolves : m.Evolves m₁
  elements : m.Overwritten dst i vs m₁
  fits : ∀ v ∈ vs, m₁.moment.Fits component v

omit [SoundContext ctx] [RespectingContext .sparesArrays ctx] in
theorem reaches_none (hinv : m₁.Inv ctx.host) (hevolves : m.Evolves m₁) (hkeeps : m.KeepsElements m₁) :
    Reaches ctx component dst i [] m m₁ where
  inv := hinv
  evolves := hevolves
  elements j o ho := by
    obtain ⟨o', ho', htype, helements⟩ := hkeeps ho
    exact ⟨o', ho', htype, helements.trans (ite_self o.elements).symm⟩
  fits := by simp

/-- The array after one more store. -/
def stored (dst : Ref) (i : Nat) (v : Value) (m : Machine) : Machine :=
  { m with heap := m.heap.modify (dst.number - 1) fun o =>
      { o with elements := o.elements.setIfInBounds i v } }

omit [SoundContext ctx] [RespectingContext .sparesArrays ctx] in
theorem stored_evolves (dst : Ref) (i : Nat) (v : Value) (m : Machine) :
    m.Evolves (stored dst i v m) :=
  evolvesBy_withHeap (heapEvolves_modify _ _ fun _ => ⟨rfl, rfl⟩)

omit [SoundContext ctx] [RespectingContext .sparesArrays ctx] in
theorem stored_inv (hinv : m.Inv ctx.host) : (stored dst i v m).Inv ctx.host := by
  let f : Object → Object := fun o => { o with elements := o.elements.setIfInBounds i v }
  have htype : ∀ o, (f o).type = o.type := fun _ => rfl
  have hstorage : ∀ o, (f o).storage = o.storage := fun _ => rfl
  have hmeets : Meets .instruction ctx.host m _ _ (modifyObject dst f ctx m) :=
    modifyObject_meets (P := fun _ => True) htype hstorage m
  exact (hmeets.2.2 ⟨hinv, trivial⟩).1

omit [RespectingContext .sparesArrays ctx] in
/-- One more value at the front. -/
theorem Reaches.cons (hinv : m.Inv ctx.host) (hallow : allow component v ctx m = .ok () m₂)
    (hkeeps : m.KeepsElements m₂)
    (h : Reaches ctx component dst (i + 1) vs (stored dst i v m₂) m₁) :
    Reaches ctx component dst i (v :: vs) m m₁ := by
  obtain ⟨hchecked, _, hfits⟩ := allow_ok hinv hallow
  have hrest : m₂.Evolves m₁ := (stored_evolves dst i v m₂).trans h.evolves
  refine ⟨h.inv, hchecked.trans hrest, fun j o ho => ?_, fun w hw => ?_⟩
  · obtain ⟨o₂, ho₂, htype₂, helements₂⟩ := hkeeps ho
    have ho₃ : (stored dst i v m₂).heap[j]? = some (if dst.number - 1 = j then
        { o₂ with elements := o₂.elements.setIfInBounds i v } else o₂) := by
      rw [stored, Array.getElem?_modify, ho₂]
      split <;> rfl
    obtain ⟨o₁, ho₁, htype₁, helements₁⟩ := h.elements ho₃
    refine ⟨o₁, ho₁, ?_, ?_⟩
    · rw [htype₁, ← htype₂]
      split <;> rfl
    · rw [helements₁, ← helements₂]
      by_cases hj : j = dst.number - 1
      · rw [if_pos hj, if_pos hj, if_pos hj.symm, overwrite_cons]
      · rw [if_neg hj, if_neg hj, if_neg (Ne.symm hj)]
  · rcases List.mem_cons.mp hw with rfl | hw
    · exact hfits.mono hrest.classes.retains hrest.heap
    · exact h.fits w hw

/-- Values are stored until one of them does not fit. -/
theorem storeEach_runs (hinv : m.Inv ctx.host)
    (hvs : ∀ v ∈ vs, v = .null ∨ ∃ r o, v = .ref r ∧ m.heap[r.number - 1]? = some o)
    (htested : Tested ctx component dst i vs m) :
    ∃ k m₁, Reaches ctx component dst i (vs.take k) m m₁ ∧
      (k = vs.length ∧ storeEach component dst i vs ctx m = .ok () m₁ ∨
        ∃ v message, vs[k]? = some v ∧ ¬m₁.moment.Fits component v ∧
          storeEach component dst i vs ctx m =
            throwNew "java/lang/ArrayStoreException" message ctx m₁) := by
  induction vs generalizing i m with
  | nil => exact ⟨0, m, reaches_none hinv (.refl m) (.of_heap rfl), .inl ⟨rfl, rfl⟩⟩
  | cons v vs ih =>
      -- A value that is allowed is stored, and the run goes on behind it.
      have hgo : ∀ m₂, allow component v ctx m = .ok () m₂ → m.KeepsElements m₂ →
          ∃ k m₁, Reaches ctx component dst i ((v :: vs).take k) m m₁ ∧
            (k = (v :: vs).length ∧ storeEach component dst i (v :: vs) ctx m = .ok () m₁ ∨
              ∃ w message, (v :: vs)[k]? = some w ∧ ¬m₁.moment.Fits component w ∧
                storeEach component dst i (v :: vs) ctx m =
                  throwNew "java/lang/ArrayStoreException" message ctx m₁) := by
        intro m₂ hallow hkeeps
        obtain ⟨hchecked, hinv₂, _⟩ := allow_ok hinv hallow
        have hevolves := hchecked.trans (stored_evolves dst i v m₂)
        have hnext : ∀ ws, storeEach component dst i (v :: ws) ctx m =
            storeEach component dst (i + 1) ws ctx (stored dst i v m₂) := by
          intro ws
          rw [storeEach_cons, bind_of_ok hallow]
          rfl
        have hvs' : ∀ w ∈ vs, w = .null ∨
            ∃ r o, w = .ref r ∧ (stored dst i v m₂).heap[r.number - 1]? = some o := by
          intro w hw
          refine (hvs w (List.mem_cons_of_mem v hw)).imp_right ?_
          rintro ⟨r, o, rfl, ho⟩
          obtain ⟨o', ho', _⟩ := hevolves.heap ho
          exact ⟨r, o', rfl, ho'⟩
        obtain ⟨k, m₁, hreaches, hend⟩ := ih (stored_inv hinv₂) hvs' fun k r o m₁ hrun hk ho =>
          htested (k + 1) r o m₁ ((hnext _).trans hrun) hk ho
        refine ⟨k + 1, m₁, hreaches.cons hinv hallow hkeeps, ?_⟩
        rw [hnext, List.length_cons, Nat.succ_inj]
        exact hend
      rcases hvs v List.mem_cons_self with rfl | ⟨r, o, rfl, ho⟩
      · exact hgo m rfl (.of_heap rfl)
      · obtain ⟨b, m₂, hadmits, hquiet⟩ := htested 0 r o m rfl rfl ho
        have hkeeps := admits_keepsElements hadmits hquiet
        have hallow := allow_ref ho hadmits
        cases b with
        | true => exact hgo m₂ hallow hkeeps
        | false =>
            have hsafe := safe_admits ctx component o.type
            refine ⟨0, m₂, reaches_none (hsafe.of_ok hinv trivial hadmits).1 (hsafe.evolves hadmits)
              hkeeps, .inr ⟨.ref r, Descriptor.sourceName o.type, rfl, ?_, ?_⟩⟩
            · rw [← admits_iff ho hadmits]
              exact Bool.false_ne_true
            · rw [if_neg Bool.false_ne_true] at hallow
              rw [storeEach_cons, bind_of_eq hallow, throwNew_bind]

end Storing

section Results

variable {ctx : Context} {className message : Text} {m m₁ : Machine} {source : Array Value}
  {dst : Ref} {target : Object} {i fromPos toPos count k : Nat} {vs : List Value}

theorem range_take (hk : k ≤ count) (hsource : fromPos + count ≤ source.size) :
    (range source fromPos count).take k = range source fromPos k := by
  refine List.ext_getElem? fun j => ?_
  rw [List.getElem?_take]
  split
  case isTrue hj => rw [range_getElem? (by omega), range_getElem? hj]
  case isFalse hj => rw [List.getElem?_eq_none (by rw [range_length (by omega)]; omega)]

theorem overwritten_modify (m : Machine) (dst : Ref) (i : Nat) (vs : List Value) :
    m.Overwritten dst i vs { m with heap := m.heap.modify (dst.number - 1) fun o =>
      { o with elements := overwrite i vs o.elements } } := by
  intro j o ho
  refine ⟨if dst.number - 1 = j then { o with elements := overwrite i vs o.elements } else o, ?_, ?_, ?_⟩
  · show (m.heap.modify _ _)[j]? = _
    rw [Array.getElem?_modify, ho]
    split <;> rfl
  · split <;> rfl
  · by_cases hj : j = dst.number - 1
    · rw [if_pos hj, if_pos hj.symm]
    · rw [if_neg hj, if_neg (Ne.symm hj)]

/-- What was overwritten by a range of an array, element by element. -/
theorem copied_of_overwritten (hd : m.heap[dst.number - 1]? = some target)
    (hsource : fromPos + k ≤ source.size) (htarget : toPos + k ≤ target.elements.size)
    (h : m.Overwritten dst toPos (range source fromPos k) m₁) :
    m.Copied source fromPos dst toPos k m₁ := by
  intro i o ho
  obtain ⟨o', ho', htype, helements⟩ := h ho
  refine ⟨o', ho', htype, fun e => ?_⟩
  rw [helements]
  by_cases hi : i = dst.number - 1
  · subst hi
    obtain rfl := Option.some.inj (hd.symm.trans ho)
    have hlength := range_length hsource
    rw [if_pos rfl, overwrite_getElem? (by rw [hlength]; exact htarget), hlength]
    by_cases he : toPos ≤ e ∧ e < toPos + k
    · rw [if_pos he, if_pos ⟨rfl, he⟩, range_getElem? (by omega)]
    · rw [if_neg he, if_neg fun h => he h.2]
  · rw [if_neg hi, if_neg fun h => hi h.1]

theorem copyCall_throws {src dst : Option Ref} {srcPos dstPos length : Int32}
    [SoundContext ctx] (hinv : m₁.Inv ctx.host)
    (h : copy src srcPos dst dstPos length ctx m = throwNew className message ctx m₁) :
    Throws ctx className message (copyCall src srcPos dst dstPos length) m m₁ := by
  refine throws_of_eq hinv ?_
  rw [copyCall_eq, bind_of_eq h, throwNew_bind]

end Results

section Writing

variable {ctx : Context} [SoundContext ctx] {m : Machine} {s d : Ref} {source target : Object}
  {fromPos toPos count : Nat} (hfrom : fromPos + count ≤ source.elements.size)
  (hto : toPos + count ≤ target.elements.size) (hd : m.heap[d.number - 1]? = some target)
include hfrom hto hd

omit [SoundContext ctx] in
/-- Where no checks of the elements are needed, the range is written at once. -/
theorem write_at_once (h : Descriptor.isPrimitive (Descriptor.component target.type) = true ∨
      source.type = target.type) :
    ∃ m', write source target d fromPos toPos count ctx m = .ok () m' ∧ m.Evolves m' ∧
      m.Copied source.elements fromPos d toPos count m' := by
  have hchecked : ¬(Descriptor.isPrimitive (Descriptor.component target.type) = false ∧
      source.type ≠ target.type) := by
    rintro ⟨hreference, hne⟩
    exact h.elim (fun hprimitive => Bool.false_ne_true (hreference.symm.trans hprimitive)) hne
  refine ⟨_, by rw [write, if_neg hchecked]; rfl, ?_, ?_⟩
  · exact evolvesBy_withHeap (heapEvolves_modify _ _ fun _ => ⟨rfl, rfl⟩)
  · exact copied_of_overwritten hd hfrom hto (overwritten_modify m d _ _)

/-- Between arrays of different reference types the elements are written as far as they fit. -/
theorem write_one_by_one [RespectingContext .sparesArrays ctx] (hinv : m.Inv ctx.host)
    (hreference : Descriptor.isPrimitive (Descriptor.component target.type) = false)
    (hne : source.type ≠ target.type)
    (hsource : ∀ v ∈ source.elements, m.moment.Fits (Descriptor.component source.type) v)
    (htested : Tested ctx (Descriptor.component target.type) d toPos
      (range source.elements fromPos count) m) :
    ∃ k m₁, m₁.Inv ctx.host ∧ m.Copied source.elements fromPos d toPos k m₁ ∧
      (∀ j < k, ∀ v, source.elements[fromPos + j]? = some v →
        m₁.moment.Fits (Descriptor.component target.type) v) ∧
      (k = count ∧ write source target d fromPos toPos count ctx m = .ok () m₁ ∨
        k < count ∧ (∃ v, source.elements[fromPos + k]? = some v ∧
          ¬m₁.moment.Fits (Descriptor.component target.type) v) ∧
        ∃ message, write source target d fromPos toPos count ctx m =
          throwNew "java/lang/ArrayStoreException" message ctx m₁) := by
  have hvs : ∀ v ∈ range source.elements fromPos count,
      v = .null ∨ ∃ r o, v = .ref r ∧ m.heap[r.number - 1]? = some o := by
    intro v hv
    obtain ⟨j, hj⟩ := List.mem_iff_getElem?.mp hv
    have hlt := (List.getElem?_eq_some_iff.mp hj).1
    rw [range_length hfrom] at hlt
    rw [range_getElem? hlt] at hj
    cases hsource v (Array.mem_of_getElem? hj) with
    | null => exact .inl rfl
    | ref ho => exact .inr ⟨_, _, rfl, ho⟩
  obtain ⟨k, m₁, hreaches, hend⟩ := storeEach_runs hinv hvs htested
  rw [write, if_pos ⟨hreference, hne⟩]
  have hlength := range_length hfrom
  have hk : k ≤ count := by
    rcases hend with ⟨rfl, _⟩ | ⟨v, _, hv, _⟩
    · exact hlength.le
    · have hlt := (List.getElem?_eq_some_iff.mp hv).1
      omega
  have hwritten := hreaches.elements
  have hfits := hreaches.fits
  rw [range_take hk hfrom] at hwritten hfits
  refine ⟨k, m₁, hreaches.inv, copied_of_overwritten hd (by omega) (by omega) hwritten, ?_, ?_⟩
  · intro j hj v hv
    rw [← range_getElem? hj] at hv
    exact hfits v (List.mem_of_getElem? hv)
  · rcases hend with ⟨rfl, hrun⟩ | ⟨v, message, hv, hnot, hrun⟩
    · exact .inl ⟨hlength, hrun⟩
    · have hlt := (List.getElem?_eq_some_iff.mp hv).1
      rw [hlength] at hlt
      rw [range_getElem? hlt] at hv
      exact .inr ⟨hlt, ⟨v, hv, hnot⟩, message, hrun⟩

end Writing

end Arrays

open Arrays

/-- Copying a range of one array to another, or to itself. Null, arguments that are not alike and ranges
that do not lie in their arrays are refused before anything is written. Of arrays of a primitive type all
is copied as it was before. Of arrays of references as much is copied as fits, up to the first element that
does not, if there is one; for this one an exception is thrown. -/
theorem arrays_are_copied {host : Host} {steps nesting : Nat} {ctx : Context}
    (hctx : ctx = Session.context host steps nesting) {m : Machine} (hinv : m.Inv host)
    (src dst : Option Ref) (srcPos dstPos length : Int32) :
    (src = none ∨ dst = none → ∃ message, Throws ctx "java/lang/NullPointerException" message
      (copyCall src srcPos dst dstPos length) m m) ∧
    ∀ (s d : Ref) (source target : Object), src = some s → dst = some d →
      m.heap[s.number - 1]? = some source → m.heap[d.number - 1]? = some target →
      (¬Alike source target → ∃ message, Throws ctx "java/lang/ArrayStoreException" message
        (copyCall src srcPos dst dstPos length) m m) ∧
      (Alike source target → ¬InRange source.elements target.elements srcPos dstPos length →
        ∃ message, Throws ctx "java/lang/ArrayIndexOutOfBoundsException" message
          (copyCall src srcPos dst dstPos length) m m) ∧
      (Alike source target → InRange source.elements target.elements srcPos dstPos length →
        ∀ fromPos toPos count : Nat, (fromPos : Int) = srcPos.toInt → (toPos : Int) = dstPos.toInt →
        (count : Int) = length.toInt →
        (Descriptor.isPrimitive (Descriptor.component target.type) = true →
          ∃ m', copyCall src srcPos dst dstPos length ctx m = .ok .null m' ∧
            m.Copied source.elements fromPos d toPos count m') ∧
        (Descriptor.isPrimitive (Descriptor.component target.type) = false → m.moment.Admits source →
          (source.type ≠ target.type → Tested ctx (Descriptor.component target.type) d toPos
            (range source.elements fromPos count) m) →
          ∃ k m₁, m.Copied source.elements fromPos d toPos k m₁ ∧
            (∀ j < k, ∀ v, source.elements[fromPos + j]? = some v →
              m₁.moment.Fits (Descriptor.component target.type) v) ∧
            (k = count ∧ copyCall src srcPos dst dstPos length ctx m = .ok .null m₁ ∨
              k < count ∧ (∃ v, source.elements[fromPos + k]? = some v ∧
                ¬m₁.moment.Fits (Descriptor.component target.type) v) ∧
              ∃ message, Throws ctx "java/lang/ArrayStoreException" message
                (copyCall src srcPos dst dstPos length) m m₁))) := by
  subst hctx
  have hinv' : m.Inv (Session.context host steps nesting).host := by rwa [context_host]
  refine ⟨fun hnull => ⟨_, copyCall_throws hinv' (by rw [copy_null hnull])⟩, ?_⟩
  rintro s d source target rfl rfl hs hd
  have hchecks := copy_checks (Session.context host steps nesting) srcPos dstPos length hs hd
  refine ⟨fun hunlike => ?_, fun halike hout => ?_, ?_⟩
  · obtain ⟨_, message, hrun⟩ | ⟨halike, _⟩ | ⟨halike, _⟩ := hchecks
    · exact ⟨message, copyCall_throws hinv' hrun⟩
    · exact absurd halike hunlike
    · exact absurd halike hunlike
  · obtain ⟨hunlike, _⟩ | ⟨_, _, message, hrun⟩ | ⟨_, hin, _⟩ := hchecks
    · exact absurd halike hunlike
    · exact ⟨message, copyCall_throws hinv' hrun⟩
    · exact absurd hin hout
  · intro halike hin fromPos toPos count hfrom hto hcount
    obtain ⟨hunlike, _⟩ | ⟨_, hout, _⟩ | ⟨_, _, hrun⟩ := hchecks
    · exact absurd halike hunlike
    · exact absurd hin hout
    have hcount₀ := hin.count
    have hfromEnd : fromPos + count ≤ source.elements.size := by
      have hend := hin.fromEnd
      omega
    have htoEnd : toPos + count ≤ target.elements.size := by
      have hend := hin.toEnd
      omega
    rw [← hfrom, ← hto, ← hcount, Int.toNat_natCast, Int.toNat_natCast, Int.toNat_natCast] at hrun
    have hreturns : ∀ {m₁}, write source target d fromPos toPos count
        (Session.context host steps nesting) m = .ok () m₁ →
        copyCall (some s) srcPos (some d) dstPos length (Session.context host steps nesting) m =
          .ok .null m₁ := by
      intro m₁ hwrite
      rw [copyCall_eq, bind_of_ok (hrun.trans hwrite)]
      rfl
    refine ⟨fun hprimitive => ?_, fun hreference hadmits htested => ?_⟩
    · obtain ⟨m', hwrite, _, hcopied⟩ := write_at_once hfromEnd htoEnd hd (.inl hprimitive)
      exact ⟨m', hreturns hwrite, hcopied⟩
    have hsource : Descriptor.isPrimitive (Descriptor.component source.type) = false := by
      rcases halike.2.2 with ⟨_, hsame⟩ | ⟨hse, _⟩
      · rw [hsame, hreference]
      · exact hse
    by_cases hsame : source.type = target.type
    · obtain ⟨m', hwrite, hevolves, hcopied⟩ := write_at_once hfromEnd htoEnd hd (.inr hsame)
      refine ⟨count, m', hcopied, fun j _ v hv => ?_, .inl ⟨rfl, hreturns hwrite⟩⟩
      have hfits := hadmits halike.1 hsource v (Array.mem_of_getElem? hv)
      rw [hsame] at hfits
      exact hfits.mono hevolves.classes.retains hevolves.heap
    · obtain ⟨k, m₁, hinv₁, hcopied, hfits, hend⟩ := write_one_by_one hfromEnd htoEnd hd hinv'
        hreference hsame (hadmits halike.1 hsource) (htested hsame)
      refine ⟨k, m₁, hcopied, hfits, ?_⟩
      rcases hend with ⟨hk, hwrite⟩ | ⟨hk, hnot, message, hwrite⟩
      · exact .inl ⟨hk, hreturns hwrite⟩
      · exact .inr ⟨hk, hnot, message, copyCall_throws hinv₁ (hrun.trans hwrite)⟩

/-- An array of numbers, an array of such arrays, and an array of arrays of these. -/
def copyHeap : Array Object :=
  #[.array "[I" #[.int 1, .int 2, .int 3, .int 4], .array "[[I" #[.ref ⟨1⟩, .ref ⟨1⟩],
    .array "[[[I" #[.null, .ref ⟨2⟩]]

theorem copyHeap_stands : ∃ m : Machine, m.Inv rootHost ∧ m.heap = copyHeap ∧
    ∃ c, m.classes[("[I" : Text)]? = some c ∧ c.state = .initialized := by
  have hrow : Descriptor.ofInternal "[I" = "[I" := by decide
  have hgrid : Descriptor.ofInternal "[[I" = "[[I" := by decide
  have hcube : Descriptor.ofInternal "[[[I" = "[[[I" := by decide
  obtain ⟨m₁, hm₁, hholds₁⟩ := (used_fresh rootHost fun _ _ => True).load holds_fresh ofInternal_object
    (by simp) rfl ⟨by simp, rfl⟩ (.inl rfl) trivial
  obtain ⟨m₂, hm₂, hholds₂⟩ := hm₁.load hholds₁ hrow (by decide) rfl ⟨nofun, rfl⟩
    (.inr (by decide)) trivial
  obtain ⟨m₃, hm₃, hholds₃⟩ := hm₂.load hholds₂ hgrid (by decide) rfl ⟨nofun, rfl⟩
    (.inr (by decide)) trivial
  obtain ⟨m₄, hm₄, hholds₄⟩ := hm₃.load hholds₃ hcube (by decide) rfl ⟨nofun, rfl⟩
    (.inr (by decide)) trivial
  refine ⟨{ m₄ with heap := copyHeap }, hm₄.reachable.inv.withHeap ?_, rfl, ?_⟩
  · intro i o ho _
    have htype : o.type = "[I" ∨ o.type = "[[I" ∨ o.type = "[[[I" := by
      have hmem : o ∈ copyHeap := Array.mem_of_getElem? ho
      simp only [copyHeap, List.mem_toArray, List.mem_cons, List.not_mem_nil, or_false] at hmem
      rcases hmem with rfl | rfl | rfl
      · exact .inl rfl
      · exact .inr (.inl rfl)
      · exact .inr (.inr rfl)
    obtain ⟨c, hc, hstate⟩ := hholds₄.initialized o.type (by
      rcases htype with h | h | h <;> rw [h] <;> decide)
    exact ⟨c, hc, by rw [hstate]; trivial⟩
  · exact hholds₄.initialized _ (by decide)

/-- An array of rows is no row. -/
theorem grid_unfit {m : Machine} (h : m.moment.HasType ⟨2⟩ "[[I") :
    ¬m.moment.Fits "[I" (.ref ⟨2⟩) := by
  intro hfits
  obtain ⟨o, ho, htype⟩ := h
  cases hfits with
  | ref ho' hsub =>
      obtain rfl := Option.some.inj (ho.symm.trans ho')
      rw [htype, ClassTable.isSubtype_component_iff (by decide) rfl rfl] at hsub
      exact absurd hsub.2.1 (by decide)

/-- The one reference that is to be copied is tested and found not to fit. -/
theorem copyHeap_tested {m : Machine} {c : RuntimeClass} (hheap : m.heap = copyHeap)
    (hc : m.classes[("[I" : Text)]? = some c) (hstate : c.state = .initialized) :
    Tested (Session.context rootHost 9 9) "[I" ⟨2⟩ 0 (range #[.null, .ref ⟨2⟩] 0 2) m := by
  intro k r o m₁ hrun hk ho
  match k with
  | 0 =>
      have hnull : Value.null = .ref r := Option.some.inj hk
      contradiction
  | 1 =>
      obtain rfl : Ref.mk 2 = r := Value.ref.inj (Option.some.inj hk)
      obtain ⟨_, rfl⟩ : () = () ∧ stored ⟨2⟩ 0 .null m = m₁ := EStateM.Result.ok.inj hrun
      have htype : o.type = "[[I" := by
        rw [stored, hheap] at ho
        obtain rfl := Option.some.inj ho
        rfl
      have hrow : (stored ⟨2⟩ 0 .null m).classes[("[I" : Text)]? = some c := hc
      have hlink : link "[I" (Session.context rootHost 9 9) (stored ⟨2⟩ 0 .null m) =
          .ok () (stored ⟨2⟩ 0 .null m) := by
        rw [link_eq, context_fuel, linkWithin_registered hrow, hstate]
      refine ⟨false, stored ⟨2⟩ 0 .null m, ?_, .inl rfl⟩
      rw [admits, htype, bind_of_ok hlink]
      rfl
  | k + 2 =>
      have hnone : (none : Option Value) = some (.ref r) := hk
      contradiction

/-- A row of numbers is copied within itself, one place up. Of null and an array of rows, null is copied
to where rows stand, and the other is refused. A range whose end would not be an int is refused. -/
theorem arrays_are_copied_partly : ∃ m : Machine, m.heap = copyHeap ∧
    (∃ m' o, copyCall (some ⟨1⟩) 0 (some ⟨1⟩) 1 3 (Session.context rootHost 9 9) m = .ok .null m' ∧
      m'.heap[0]? = some o ∧ o.elements = #[.int 1, .int 1, .int 2, .int 3]) ∧
    (∃ m₁ o message, Throws (Session.context rootHost 9 9) "java/lang/ArrayStoreException" message
        (copyCall (some ⟨3⟩) 0 (some ⟨2⟩) 0 2) m m₁ ∧
      m₁.heap[1]? = some o ∧ o.elements = #[.null, .ref ⟨1⟩]) ∧
    ∃ message, Throws (Session.context rootHost 9 9) "java/lang/ArrayIndexOutOfBoundsException" message
      (copyCall (some ⟨1⟩) 2147483647 (some ⟨1⟩) 0 2147483647) m m := by
  obtain ⟨m, hinv, hheap, c, hc, hstate⟩ := copyHeap_stands
  have hrow : m.heap[0]? = some (.array "[I" #[.int 1, .int 2, .int 3, .int 4]) := by rw [hheap]; rfl
  have hgrid : m.heap[1]? = some (.array "[[I" #[.ref ⟨1⟩, .ref ⟨1⟩]) := by rw [hheap]; rfl
  have hcube : m.heap[2]? = some (.array "[[[I" #[.null, .ref ⟨2⟩]) := by rw [hheap]; rfl
  have halike : Alike (.array "[I" #[.int 1, .int 2, .int 3, .int 4])
      (.array "[I" #[.int 1, .int 2, .int 3, .int 4]) := ⟨rfl, rfl, .inl ⟨rfl, rfl⟩⟩
  refine ⟨m, hheap, ?_, ?_, ?_⟩
  · obtain ⟨_, hcopies⟩ := arrays_are_copied rfl hinv (some ⟨1⟩) (some ⟨1⟩) 0 1 3
    obtain ⟨_, _, hcopied⟩ := hcopies _ _ _ _ rfl rfl hrow hrow
    obtain ⟨hprimitive, _⟩ := hcopied halike ⟨by decide, by decide, by decide, by decide, by decide⟩
      0 1 3 rfl rfl rfl
    obtain ⟨m', hrun, hcopy⟩ := hprimitive rfl
    obtain ⟨o, ho, _, helements⟩ := hcopy hrow
    refine ⟨m', o, hrun, ho, Array.ext_getElem? fun e => ?_⟩
    rw [helements]
    rcases Nat.lt_or_ge e 4 with he | he
    · obtain rfl | rfl | rfl | rfl : e = 0 ∨ e = 1 ∨ e = 2 ∨ e = 3 := by omega
      all_goals rfl
    · rw [if_neg (by omega), Array.getElem?_eq_none (by simpa [Object.array] using he),
        Array.getElem?_eq_none (by simpa using he)]
  · obtain ⟨_, hcopies⟩ := arrays_are_copied rfl hinv (some ⟨3⟩) (some ⟨2⟩) 0 0 2
    obtain ⟨_, _, hcopied⟩ := hcopies _ _ _ _ rfl rfl hcube hgrid
    obtain ⟨_, hreferences⟩ := hcopied ⟨rfl, rfl, .inr ⟨rfl, rfl⟩⟩
      ⟨by decide, by decide, by decide, by decide, by decide⟩ 0 0 2 rfl rfl rfl
    have hadmits : m.moment.Admits (.array "[[[I" #[.null, .ref ⟨2⟩]) := by
      intro _ _ v hv
      simp only [Object.array, List.mem_toArray, List.mem_cons, List.not_mem_nil, or_false] at hv
      rcases hv with rfl | rfl
      · exact .null
      · exact .ref hgrid (.refl _)
    obtain ⟨k, m₁, hcopy, hfits, hend⟩ :=
      hreferences rfl hadmits fun _ => copyHeap_tested hheap hc hstate
    obtain ⟨o, ho, htype, helements⟩ := hcopy hgrid
    have hunfit := grid_unfit ⟨o, ho, htype⟩
    rcases hend with ⟨rfl, _⟩ | ⟨hk, ⟨v, hv, hnot⟩, message, hthrows⟩
    · exact absurd (hfits 1 (by decide) (.ref ⟨2⟩) rfl) hunfit
    obtain rfl | rfl : k = 0 ∨ k = 1 := by omega
    · obtain rfl := Option.some.inj hv
      exact absurd .null hnot
    · refine ⟨m₁, o, message, hthrows, ho, Array.ext_getElem? fun e => ?_⟩
      rw [helements]
      rcases Nat.lt_or_ge e 2 with he | he
      · obtain rfl | rfl : e = 0 ∨ e = 1 := by omega
        all_goals rfl
      · rw [if_neg (by omega), Array.getElem?_eq_none (by simpa [Object.array] using he),
          Array.getElem?_eq_none (by simpa using he)]
  · obtain ⟨_, hcopies⟩ := arrays_are_copied rfl hinv (some ⟨1⟩) (some ⟨1⟩) 2147483647 0 2147483647
    obtain ⟨_, hranges, _⟩ := hcopies _ _ _ _ rfl rfl hrow hrow
    exact hranges halike fun hin => absurd hin.fromEnd (by decide)

end ClassEngine
