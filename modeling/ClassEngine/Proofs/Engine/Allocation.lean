import ClassEngine.Engine.Arrays
import ClassEngine.Proofs.Engine.Frames
import ClassEngine.Proofs.Engine.Subtyping

/-!
Making strings, mirrors, exceptions and arrays is sound, though it runs guest code. What comes to
stand in an array is known to fit: it was made for it, it stood in an array of the same type, or it
was checked.
-/

namespace ClassEngine

open Machine Exec Linking Resolution Allocation Arrays

variable {α : Type} {ctx : Context}

/-- What is expected where a reference type is expected stays as it is. -/
theorem Moment.Fits.coerce {s : Moment} {d : Descriptor} {v : Value} (h : s.Fits d v)
    (t : Descriptor) : Value.coerce t v = v := by
  cases h with
  | null => rfl
  | ref => rfl

theorem Value.default_of_reference {t : Descriptor} (h : Descriptor.isPrimitive t = false) :
    Value.default t = .null := by
  unfold Value.default
  cases hp : Descriptor.primitive? t with
  | none => rfl
  | some p =>
      have hletter : t = [p.letter] := by simpa using List.find?_some hp
      subst hletter
      cases p <;> simp [Descriptor.isPrimitive, Descriptor.Primitive.letter, Descriptor.void] at h
      all_goals revert h; decide

theorem FrameM.asRef_eq_ok {v : Value} {r : Option Ref} (h : FrameM.asRef v = .ok r) :
    v = r.elim .null .ref := by
  cases v with
  | null => obtain rfl := Except.ok.inj h; rfl
  | ref r' => obtain rfl := Except.ok.inj h; rfl
  | _ => contradiction

/-- An array of a class whose initialization has begun, with elements that may stand there. -/
theorem sound_allocateArray {d : Descriptor} (elements : Array Value) :
    Sound ctx (fun m => m.classes.Started d ∧
        (Descriptor.isPrimitive (Descriptor.component d) = false →
          ∀ v ∈ elements, m.moment.Fits (Descriptor.component d) v))
      (allocate (.array d elements)) fun r m => m.moment.HasType r d :=
  (sound_allocate (.array d elements)).pre fun _ _ h => ⟨fun _ => h.1, fun _ _ => h.2⟩

/-- The elements of an array are changed. Those that did not stand there before may stand there. -/
theorem sound_putElements (r : Ref) (d : Descriptor) (f : Array Value → Array Value) :
    Sound ctx (fun m => m.moment.HasType r d ∧ (m.Coherent .arrays →
        Descriptor.isPrimitive (Descriptor.component d) = false → ∀ vs, ∀ w ∈ f vs,
          w ∈ vs ∨ m.moment.Fits (Descriptor.component d) w))
      (modifyObject r fun o => { o with elements := f o.elements }) fun _ _ => True := by
  refine .pre (sound_modifyObject (fun _ => rfl) fun _ => rfl) fun m _ h hm o ho => ?_
  obtain ⟨⟨o', ho', rfl⟩, hf⟩ := h
  obtain rfl : o = o' := Option.some.inj (ho.symm.trans ho')
  intro harray hreference w hw
  rcases hf hm hreference o.elements w hw with hold | hfits
  · exact hm.now ho harray hreference w hold
  · exact hfits

/-- A value is put into an array where it may stand. -/
theorem sound_putElement (r : Ref) (d : Descriptor) (i : Nat) (v : Value) :
    Sound ctx (fun m => m.moment.HasType r d ∧
        (Descriptor.isPrimitive (Descriptor.component d) = false →
          m.moment.Fits (Descriptor.component d) v))
      (modifyObject r fun o => { o with elements := o.elements.setIfInBounds i v })
      fun _ _ => True := by
  refine (sound_putElements r d fun vs => vs.setIfInBounds i v).pre fun m _ h => ⟨h.1, ?_⟩
  intro _ hreference vs w hw
  rcases Array.mem_or_eq_of_mem_setIfInBounds hw with hw | rfl
  · exact .inl hw
  · exact .inr (h.2 hreference)

/-- What stands in an array after a part of it was overwritten. -/
theorem mem_of_mem_overwrite {i : Nat} {vs : List Value} {elements : Array Value} {w : Value}
    (h : w ∈ overwrite i vs elements) : w ∈ elements ∨ w ∈ vs := by
  unfold overwrite at h
  induction vs generalizing i elements with
  | nil => exact .inl h
  | cons v vs ih =>
      rw [List.foldl_cons] at h
      rcases ih h with hw | hw
      · rcases Array.mem_or_eq_of_mem_setIfInBounds hw with hw | rfl
        · exact .inl hw
        · exact .inr List.mem_cons_self
      · exact .inr (List.mem_cons_of_mem v hw)

@[grind ←] theorem safe_setInterned (t : Text) (v : Value) : Safe ctx (setInterned t v) :=
  safe_modify rfl rfl rfl rfl rfl rfl rfl rfl

theorem safe_setMirror (d : Descriptor) (r : Ref) :
    Safe ctx (modifyClass d fun c => { c with mirror := some r }) :=
  sound_modifyClass (fun _ => rfl) (fun _ => rfl) fun _ _ _ _ _ _ _ howner => .inl howner

/-- A computation that is run several times. What is stable of each result is true of all of them in
the end. -/
theorem sound_replicateOnto {P : Machine → Prop} {Q : Value → Machine → Prop} (hP : Stable P)
    (hQ : ∀ v, Stable (Q v)) {x : Exec Value} (hx : Sound ctx P x Q) (acc : Array Value) (n : Nat) :
    Sound ctx (fun m => P m ∧ ∀ v ∈ acc, Q v m) (replicateOnto x acc n) fun vs m =>
      ∀ v ∈ vs, Q v m := by
  have hacc : ∀ acc : Array Value, Stable fun m => P m ∧ ∀ v ∈ acc, Q v m := fun acc =>
    hP.and (stable_all fun v => stable_imp fun _ => hQ v)
  induction n generalizing acc with
  | zero => exact .pure fun _ _ h => h.2
  | succ n ih =>
      refine .bind (hacc acc) (hx.pre fun _ _ h => h.1) fun v => (ih _).pre fun m _ h => ?_
      obtain ⟨⟨hm, hold⟩, hv⟩ := h
      refine ⟨hm, fun w hw => ?_⟩
      rcases Array.mem_push.mp hw with hw | rfl
      · exact hold w hw
      · exact hv

/-- The object behind a reference, as it is found. -/
theorem sound_objectOf {P : Machine → Prop} (r : Option Ref) :
    Sound ctx P (objectOf r) fun o m => ∃ i : Nat, m.heap[i]? = some o := by
  cases r with
  | none => exact .throw rfl
  | some r => exact (sound_objectAt r).post fun _ _ _ h => ⟨_, h.2⟩

variable [SoundContext ctx]

theorem sound_newArrayOf (element : Descriptor) (values : List Value) :
    Sound ctx (fun m => Descriptor.isPrimitive element = false →
        ∀ v ∈ values, m.moment.Fits element v)
      (newArrayOf element values) fun r m => m.moment.HasType r (Descriptor.arrayOf element) := by
  have hstable : Stable fun m => Descriptor.isPrimitive element = false →
      ∀ v ∈ values, m.moment.Fits element v :=
    stable_imp fun _ => stable_all fun v => stable_imp fun _ => stable_fits element v
  refine .bind hstable (sound_classFor _) fun c => ?_
  have hallocate : Sound ctx (fun m => (Descriptor.isPrimitive element = false →
        ∀ v ∈ values, m.moment.Fits element v) ∧ c.descriptor = Descriptor.arrayOf element ∧
          c.Known m)
      (allocate (.array c.descriptor (values.map (Value.coerce element)).toArray))
      fun r m => m.moment.HasType r c.descriptor := by
    refine (sound_allocateArray _).pre fun m _ h => ?_
    obtain ⟨hvalues, hc, hknown⟩ := h
    refine ⟨hknown.started, fun hreference v hv => ?_⟩
    have hcomponent : Descriptor.component c.descriptor = element := by
      rw [hc]
      rfl
    rw [hcomponent] at hreference ⊢
    obtain ⟨w, hw, rfl⟩ := List.mem_map.mp (List.mem_toArray.mp hv)
    have hfits := hvalues hreference w hw
    rwa [hfits.coerce]
  refine (hallocate.keep (hstable.and ((stable_const _).and (stable_known c)))).post ?_
  exact fun r m _ h => h.1.2.1 ▸ h.2

/-- A class that is loaded to make an instance of it. -/
theorem sound_loadAndConstruct {P : Machine → Prop} (name descriptor : Text) (args : List Value) :
    Sound ctx P (do let c ← loadClass name; construct c descriptor args) fun r m =>
      m.moment.HasType r (Descriptor.ofInternal name) := by
  refine .seq (sound_loadClass name) fun c => ?_
  have hconstruct : Sound ctx (fun m => c.descriptor = Descriptor.ofInternal name ∧ c.Known m)
      (construct c descriptor args) fun r m => m.moment.HasType r c.descriptor :=
    (sound_construct c descriptor args).pre fun _ _ h => h.2
  refine (hconstruct.keep ((stable_const _).and (stable_known c))).post fun r m _ h => ?_
  exact h.1.1 ▸ h.2

theorem sound_newString {P : Machine → Prop} (t : Text) :
    Sound ctx P (newString t) fun r m => m.moment.HasType r Descriptor.string :=
  .seq ((sound_newArrayOf Descriptor.byte _).pre fun _ _ _ h => by contradiction) fun _ =>
    sound_loadAndConstruct _ _ _

@[grind ←] theorem safe_newString (t : Text) : Safe ctx (newString t) :=
  (sound_newString t).safe

@[grind ←] theorem safe_hostText (v : Value) : Safe ctx (hostText v) := by
  refine Safe.bind (safe_check _) fun r => ?_
  split
  · exact Safe.pure _
  · refine Safe.bind (safe_objectAt _) fun o => Safe.bind (safe_invoke _ _ _ _) fun result => ?_
    grind

@[grind ←] theorem safe_intern (v : Value) : Safe ctx (intern v) := by
  unfold intern
  grind

@[grind ←] theorem safe_internText (t : Text) : Safe ctx (internText t) := by
  unfold internText
  grind

@[grind ←] theorem safe_stringArray (ts : List Text) : Safe ctx (stringArray ts) := by
  refine SoundBy.seq (sound_mapM stable_true (fun r => stable_hasType r _) sound_newString)
    fun strings => ?_
  refine ((sound_newArrayOf _ _).pre fun m _ h _ v hv => ?_).post fun _ _ _ _ => trivial
  obtain ⟨r, hr, rfl⟩ := List.mem_map.mp hv
  exact (h r hr).fits

@[grind ←] theorem safe_classMirror (d : Descriptor) : Safe ctx (classMirror d) := by
  refine Safe.bind (safe_classAt d) fun c => ?_
  split
  case h_1 => exact Safe.pure _
  case h_2 =>
    refine SoundBy.seq (sound_loadClass _) fun mirrorClass => ?_
    refine .pre (P := mirrorClass.Known) ?_ fun m _ h => h.2
    refine Safe.then (stable_known mirrorClass) (safe_newString _) fun name => ?_
    refine .seq (sound_construct mirrorClass _ _) fun r => ?_
    refine .seq (Safe.sound (safe_updateObject rfl rfl rfl)) fun _ => ?_
    exact Safe.bind (safe_setMirror d r) fun _ => Safe.pure r

@[grind ←] theorem safe_mirroredClass (mirror : Option Ref) : Safe ctx (mirroredClass mirror) := by
  unfold mirroredClass
  grind

/-- Throwing a new exception promises anything. -/
theorem sound_throwNew {P : Machine → Prop} {Q : α → Machine → Prop} (className message : Text) :
    Sound ctx P (throwNew className message) Q := by
  have hraise : ∀ (c : RuntimeClass) (descriptor : Text) (args : List Value),
      Sound ctx c.Known (do
        let r ← construct c descriptor args
        throw (.thrown r)) Q := fun c descriptor args =>
    .seq (sound_construct c _ _) fun r => .throw rfl
  refine .seq (sound_loadClass className) fun c => ?_
  refine .pre (P := c.Known) ?_ fun m _ h => h.2
  split
  · exact hraise c _ _
  · split
    · exact hraise c _ _
    · exact Safe.then (stable_known c) (safe_newString message) fun s => hraise c _ _

@[grind ←] theorem safe_throwNew (className message : Text) :
    Safe ctx (throwNew className message : Exec α) :=
  sound_throwNew className message

omit [SoundContext ctx] in
/-- Throwing a new exception never gives a result. -/
theorem throwNew_ne_ok (className message : Text) (m : Machine) (a : α) (m' : Machine) :
    throwNew className message ctx m ≠ .ok a m' := by
  intro h
  obtain ⟨c, m₁, _, h⟩ := of_bind_ok h
  have hraise : ∀ (descriptor : Text) (args : List Value) (m₂ : Machine),
      (do let r ← construct c descriptor args; throw (.thrown r) : Exec α) ctx m₂ ≠ .ok a m' := by
    intro descriptor args m₂ h
    obtain ⟨r, m₃, _, h⟩ := of_bind_ok h
    contradiction
  split at h
  · exact hraise _ _ _ h
  · split at h
    · obtain ⟨_, m₂, _, h⟩ := of_bind_ok h
      exact hraise _ _ _ h
    · obtain ⟨s, m₂, _, h⟩ := of_bind_ok h
      obtain ⟨_, m₃, _, h⟩ := of_bind_ok h
      exact hraise _ _ _ h

/-- What would come after an exception does not matter. -/
theorem sound_throwNew_bind {β : Type} {P : Machine → Prop} {Q : α → Machine → Prop}
    (className message : Text) (f : β → Exec α) :
    Sound ctx P (throwNew className message >>= f) Q :=
  (sound_throwNew (Q := fun _ _ => True) className message).fails_bind
    (throwNew_ne_ok className message) f

theorem sound_build (d : Descriptor) (counts : List Nat) :
    Sound ctx (fun m => m.classes.Started d) (build d counts) fun r m => m.moment.HasType r d := by
  induction counts generalizing d with
  | nil => exact .throw rfl
  | cons n inner ih =>
      cases inner with
      | nil =>
          refine (sound_allocateArray _).pre fun m _ h => ⟨h, fun hreference v hv => ?_⟩
          rw [Value.default_of_reference hreference] at hv
          rw [(Array.mem_replicate.mp hv).2]
          exact .null
      | cons n' inner =>
          refine .seq ((sound_allocateArray _).pre fun m _ h => ⟨h, fun _ v hv => ?_⟩) fun r => ?_
          · rw [(Array.mem_replicate.mp hv).2]
            exact .null
          -- Until its components are made, the outer array is only known by its class.
          have hstable := stable_hasType r d
          refine .bind hstable (sound_classFor _) fun c => ?_
          have hparts : Sound ctx (fun m => c.descriptor = Descriptor.component d ∧ c.Known m)
              (do pure (.ref (← build c.descriptor (n' :: inner)))) fun v m =>
                m.moment.Fits (Descriptor.component d) v := by
            refine .bind ((stable_const _).and (stable_known c))
              ((ih c.descriptor).pre fun m _ h => h.2.started) fun part => ?_
            exact .pure fun m _ h => (h.1.1 ▸ h.2 : m.moment.HasType part _).fits
          have hknown : Stable fun m => c.descriptor = Descriptor.component d ∧ c.Known m :=
            (stable_const _).and (stable_known c)
          refine .bind (hstable.and hknown) ((sound_replicateOnto hknown (fun v => stable_fits _ v)
            hparts #[] n).pre fun m _ h => ⟨h.2, by simp⟩) fun parts => ?_
          refine .pre (P := fun m => m.moment.HasType r d ∧
            ∀ v ∈ parts, m.moment.Fits (Descriptor.component d) v) ?_ fun m _ h => ⟨h.1.1, h.2⟩
          have hall : Stable fun m => ∀ v ∈ parts, m.moment.Fits (Descriptor.component d) v :=
            stable_all fun v => stable_imp fun _ => stable_fits _ v
          refine .bind (hstable.and hall) ((sound_putElements r d fun _ => parts).pre fun m _ h =>
            ⟨h.1, fun _ _ _ w hw => .inr (h.2 w hw)⟩) fun _ => ?_
          exact .pure fun _ _ h => h.1.1

theorem sound_alloc (d : Descriptor) (counts : List Int32) :
    Sound ctx (fun m => m.classes.Started d) (alloc d counts) fun _ _ => True := by
  unfold alloc
  split
  · exact sound_throwNew _ _
  · exact (sound_build d _).post fun _ _ _ _ => trivial

theorem sound_newArray (c : RuntimeClass) (counts : List Int32) :
    Sound ctx c.Known (newArray c counts) fun _ _ => True := by
  unfold newArray
  split
  · exact .throw_bind rfl _
  · dsimp only
    split
    · exact .throw_bind rfl _
    · exact (sound_alloc c.descriptor counts).pre fun m _ h => h.started

@[grind ←] theorem safe_clone (r : Option Ref) : Safe ctx (clone r) := by
  have hcopy : Safe ctx (do allocate (← objectOf r)) := by
    refine SoundBy.seq (sound_objectOf r) fun o => ?_
    refine ((sound_allocate o).pre fun m hinv ⟨i, ho⟩ => ?_).post fun _ _ _ _ => trivial
    exact ⟨hinv.heap ho, fun hm => hm.now ho⟩
  unfold clone
  grind

/-- What may be stored is what may stand in the array. -/
theorem sound_checkStore {P : Machine → Prop} (component : Descriptor) (r : Option Ref) :
    Sound ctx P (checkStore component r) fun _ m =>
      m.moment.Fits component (r.elim .null .ref) := by
  cases r with
  | none => exact .pure fun _ _ _ => .null
  | some r =>
      refine .seq ((sound_objectAt r).post fun o m _ h => (⟨o, h.2, rfl⟩ :
        m.moment.HasType r o.type)) fun o => ?_
      refine Safe.then (stable_hasType r o.type) (safe_link _) fun _ => ?_
      refine .bind (stable_hasType r o.type) (sound_assignable _ _) fun res => ?_
      cases res with
      | false => exact sound_throwNew _ _
      | true =>
          refine .pure fun m _ h => ?_
          obtain ⟨⟨o', ho', htype⟩, hsub⟩ := h
          exact .ref ho' (htype.symm ▸ hsub rfl)

@[grind ←] theorem safe_popElement : Safe ctx popElement := by
  unfold popElement
  grind

@[grind ←] theorem safe_load : Safe ctx Arrays.load := by
  unfold Arrays.load
  grind

@[grind ←] theorem safe_store : Safe ctx Arrays.store := by
  refine Safe.bind (safe_onFrame FrameM.keeps_pop) fun value => ?_
  refine Safe.bind safe_popElement fun p => ?_
  refine SoundBy.seq ((sound_objectAt p.1).post fun o m _ h => (⟨o, h.2, rfl⟩ :
    m.moment.HasType p.1 o.type)) fun o => ?_
  dsimp only
  split
  case isTrue =>
    refine .seq (sound_check _) fun r => ?_
    refine .bind ((stable_hasType p.1 o.type).and (stable_const _)) (sound_checkStore _ r)
      fun _ => ?_
    refine (sound_putElement p.1 o.type p.2 _).pre fun m _ h => ⟨h.1.1, fun _ => ?_⟩
    obtain ⟨⟨_, hr⟩, hfits⟩ := h
    rw [← FrameM.asRef_eq_ok hr] at hfits
    rwa [hfits.coerce]
  case isFalse hprimitive =>
    refine (sound_putElement p.1 o.type p.2 _).pre fun m _ h => ⟨h, fun hreference => ?_⟩
    simp [hreference] at hprimitive

/-- Elements are stored one after the other, each after its check. -/
theorem sound_storeEach (dst : Ref) (d : Descriptor) (i : Nat) (vs : List Value) :
    Sound ctx (fun m => m.moment.HasType dst d) (storeEach (Descriptor.component d) dst i vs)
      fun _ _ => True := by
  induction vs generalizing i with
  | nil => exact .pure fun _ _ _ => trivial
  | cons v vs ih =>
      refine .seq (sound_check _) fun r => ?_
      refine .bind ((stable_hasType dst d).and (stable_const _)) (sound_checkStore _ r) fun _ => ?_
      refine .pre (P := fun m => m.moment.HasType dst d ∧
        m.moment.Fits (Descriptor.component d) v) ?_ fun m _ h => ⟨h.1.1, ?_⟩
      · have hput : Sound ctx (fun m => m.moment.HasType dst d ∧
            m.moment.Fits (Descriptor.component d) v)
            (modifyObject dst fun o => { o with elements := o.elements.setIfInBounds i v })
            fun _ _ => True :=
          (sound_putElement dst d i v).pre fun m _ h => ⟨h.1, fun _ => h.2⟩
        refine .bind ((stable_hasType dst d).and (stable_fits _ v)) hput fun _ => ?_
        exact (ih (i + 1)).pre fun _ _ h => h.1.1
      · rw [FrameM.asRef_eq_ok h.1.2]
        exact h.2

/-- What is copied without a check stood in an array of the same type. -/
@[grind ←] theorem safe_copy (src : Option Ref) (srcPos : Int32) (dst : Option Ref)
    (dstPos length : Int32) : Safe ctx (copy src srcPos dst dstPos length) := by
  unfold copy
  split
  case h_2 => exact safe_throwNew _ _
  case h_1 s d =>
    refine SoundBy.seq (sound_objectAt s) fun so => ?_
    refine .seq (sound_objectAt d) fun target => ?_
    dsimp only
    split
    · exact sound_throwNew_bind _ _ _
    case isFalse harrays =>
    split
    · exact sound_throwNew_bind _ _ _
    split
    · exact sound_throwNew_bind _ _ _
    split
    · exact (sound_storeEach d target.type _ _).pre fun m _ h => ⟨target, h.2, rfl⟩
    case isFalse hsame =>
      refine (sound_putElements d target.type _).pre fun m _ h => ⟨⟨target, h.2, rfl⟩, ?_⟩
      intro hm hreference vs w hw
      have harray : so.isArray = true := by
        cases ha : so.isArray <;> simp [ha] at harrays ⊢
      have htype : so.type = target.type := by
        simpa [hreference] using hsame
      rcases mem_of_mem_overwrite hw with hw | hw
      · exact .inl hw
      · have hmem : w ∈ so.elements := by
          rw [Array.toList_extract, List.extract_eq_take_drop] at hw
          exact Array.mem_toList_iff.mp (List.mem_of_mem_drop (List.mem_of_mem_take hw))
        have hfits := hm.now h.1.2 harray (htype ▸ hreference) w hmem
        exact .inr (htype ▸ hfits)

end ClassEngine
