import ClassEngine.Proofs.Engine.Requests

/-!
The moments of a run: the classes and objects that there are each time an instruction is about to be
executed, and at the other events of a history. Main results: an engine is coherent at every moment,
and so arrays hold what their component types allow.
-/

namespace ClassEngine

open Machine Exec Linking Allocation

section Requests

variable {α : Type} {a : Aspect} {ctx : Context} {m : Machine}

@[simp] theorem endOf_discard (x : Exec α) (ctx : Context) (m : Machine) :
    endOf (discard x ctx m) = endOf (x ctx m) := by
  change endOf ((x >>= fun _ => pure ()) ctx m) = _
  cases hrun : x ctx m with
  | ok _ _ => rw [bind_of_ok hrun]; rfl
  | error _ _ => rw [bind_of_error hrun]; rfl

theorem discard_of_ok {x : Exec α} {m' : Machine} {v : α} (h : x ctx m = .ok v m') :
    discard x ctx m = .ok () m' := by
  change (x >>= fun _ => pure ()) ctx m = _
  rw [bind_of_ok h]
  rfl

variable [SoundContext ctx]

/-- Whatever an array is made of, it does not change what is said of searches and accesses. -/
theorem newArrayOf_coherent (ha : a ≠ .arrays) (element : Descriptor) (values : List Value)
    (hinv : m.Inv ctx.host) (hm : m.Coherent a) :
    (endOf (newArrayOf element values ctx m)).Coherent a := by
  have hclass : Sound ctx (fun _ => True) (classFor (Descriptor.arrayOf element)) _ :=
    sound_classFor _
  have hend := hclass.coherent m hinv trivial hm
  unfold newArrayOf
  cases hrun : classFor (Descriptor.arrayOf element) ctx m with
  | ok c m' =>
      rw [hrun] at hend
      rw [bind_of_ok hrun]
      exact hend.push fun h => absurd h ha
  | error e m' =>
      rw [hrun] at hend
      rw [bind_of_error hrun]
      exact hend

/-- A request keeps the engine coherent. Only for arrays does it matter what the program around the
engine puts into them. -/
theorem perform_coherent (request : Request) (hinv : m.Inv ctx.host)
    (hfits : a = .arrays → request.Fits m) (hm : m.Coherent a) :
    (endOf (request.perform ctx m)).Coherent a := by
  have hupholds : Upholds .instruction ctx request.Fits request.perform _ := upholds_perform request
  by_cases ha : a = .arrays
  · exact hupholds.coherent m hinv (hfits ha) hm
  · cases request with
    | newArrayOf element values =>
        rw [Request.perform, endOf_discard]
        exact newArrayOf_coherent ha element values hinv hm
    | setElement object i v => exact hm.modify (fun _ => ⟨rfl, rfl⟩) fun h => absurd h ha
    | _ => exact hupholds.coherent m hinv trivial hm

end Requests

theorem runWithin_coherent {α : Type} {a : Aspect} {host : Host} {steps nesting : Nat} {x : Exec α}
    {m : Machine} (hx : (endOf (x (Session.context host steps nesting) m)).Coherent a) :
    (endOf (Session.runWithin host steps nesting x m)).Coherent a := by
  unfold Session.runWithin
  split
  case h_1 hrun =>
    rw [hrun] at hx
    exact hx
  case h_2 hrun =>
    rw [hrun] at hx
    exact hx.note _
  case h_3 hrun =>
    rw [hrun] at hx
    exact hx

/-- What a program around an engine does with it that asks for nothing but what `may` allows. -/
inductive Use (host : Host) (may : Request → Machine → Prop) (m : Machine) : Machine → Prop
  | ask {now : Host} (hnow : now.provider = host.provider) (request : Request) (hmay : may request m)
      {steps nesting : Nat}
      (hdone : ∀ m', Session.runWithin now steps nesting request.perform m ≠ .error .exhausted m') :
      Use host may m (endOf (Session.runWithin now steps nesting request.perform m))
  /-- Limits, natives and output are changed from outside. -/
  | adjust {m' : Machine} (hclasses : m'.classes = m.classes) (hheap : m'.heap = m.heap)
      (hframes : m'.frames = m.frames) (hhistory : m'.history = m.history)
      (hmoments : m'.moments = m.moments) (hbreakdowns : m'.breakdowns = m.breakdowns) :
      Use host may m m'

/-- An engine in the hands of such a program, between two requests. -/
def Used (host : Host) (may : Request → Machine → Prop) (m : Machine) : Prop :=
  ∃ m₀ : Machine, m₀.IsNew ∧ m₀.moments = .of [] ∧ Relation.ReflTransGen (Use host may) m₀ m

/-- An engine in the hands of such a program, between two requests or at the end of one, also of one
that was cut off somewhere on the way. -/
inductive Watched (host : Host) (may : Request → Machine → Prop) : Machine → Prop
  | idle {m : Machine} (hm : Used host may m) : Watched host may m
  | busy {m : Machine} {now : Host} (hm : Used host may m) (hnow : now.provider = host.provider)
      (request : Request) (hmay : may request m) (steps nesting : Nat) :
      Watched host may (endOf (Session.runWithin now steps nesting request.perform m))

/-- The moments that an engine has gone through, the present one with them. -/
def Machine.Passed (m : Machine) (s : Moment) : Prop :=
  s = m.moment ∨ s ∈ m.moments.val

theorem Machine.Coherent.passed {a : Aspect} {m : Machine} {s : Moment} (h : m.Coherent a)
    (hs : m.Passed s) : s.Coherent a := by
  rcases hs with rfl | hs
  · exact h.now
  · exact h.before s hs

section Coherence

variable {a : Aspect} {host : Host} {may : Request → Machine → Prop} {m m' : Machine}

theorem Use.transition (h : Use host may m m') : Transition host m m' := by
  cases h with
  | ask hnow request _ hdone => exact .ask hnow request hdone
  | adjust hclasses hheap hframes hhistory _ hbreakdowns =>
      exact .adjust hclasses hheap hframes hhistory hbreakdowns

theorem Used.reachable (h : Used host may m) : Reachable host m := by
  obtain ⟨m₀, hnew, _, huses⟩ := h
  exact ⟨m₀, hnew, Relation.ReflTransGen.mono (fun _ _ => Use.transition) _ _ huses⟩

theorem used_fresh (host : Host) (may : Request → Machine → Prop) :
    Used host may Session.fresh :=
  ⟨Session.fresh, ⟨rfl, rfl, rfl, rfl, rfl⟩, rfl, .refl⟩

/-- One more request that comes to its end. -/
theorem Used.ask {steps nesting : Nat} (h : Used host may m) (request : Request)
    (hmay : may request m)
    (hrun : Session.runWithin host steps nesting request.perform m = .ok () m') :
    Used host may m' := by
  obtain ⟨m₀, hnew, hmoments, huses⟩ := h
  have hdone : ∀ m'', Session.runWithin host steps nesting request.perform m ≠
      .error .exhausted m'' := by
    rw [hrun]
    exact nofun
  have huse := Use.ask rfl request hmay hdone
  rw [hrun] at huse
  exact ⟨m₀, hnew, hmoments, huses.tail huse⟩

theorem Machine.IsNew.coherent (h : m.IsNew) (hmoments : m.moments = .of []) : m.Coherent a where
  now := by
    cases a with
    | arrays =>
        intro i o ho
        simp [moment, h.heap] at ho
    | caches =>
        intro d c ref owner hc
        simp [moment, h.classes] at hc
    | accesses => exact fun _ _ ha => nomatch ha
  before s hs := by simp [hmoments] at hs

variable (hmay : ∀ request m, may request m → a = .arrays → request.Fits m)
include hmay

theorem Use.coherent (h : Use host may m m') (hinv : m.Inv host) (hm : m.Coherent a) :
    m'.Coherent a := by
  cases h with
  | ask hnow request hasked _ =>
      apply runWithin_coherent
      refine perform_coherent request ?_ (hmay request m hasked) hm
      rw [context_host]
      exact hinv.of_provider hnow
  | adjust hclasses hheap _ _ hmoments _ => exact hm.of_eq hclasses hheap hmoments

theorem Used.coherent (h : Used host may m) : m.Coherent a := by
  obtain ⟨m₀, hnew, hmoments, huses⟩ := h
  induction huses with
  | refl => exact hnew.coherent hmoments
  | tail huses huse ih =>
      have hused : Used host may _ := ⟨m₀, hnew, hmoments, huses⟩
      exact huse.coherent hmay hused.reachable.inv ih

/-- An engine is coherent at every moment of every run. -/
theorem Watched.coherent (h : Watched host may m) : m.Coherent a := by
  cases h with
  | idle hm => exact hm.coherent hmay
  | busy hm hnow request hasked steps nesting =>
      apply runWithin_coherent
      refine perform_coherent request ?_ (hmay request _ hasked) (hm.coherent hmay)
      rw [context_host]
      exact hm.reachable.inv.of_provider hnow

end Coherence

section Runs

variable {host : Host} {may may' : Request → Machine → Prop} {m : Machine}

theorem Used.mono (h : Used host may m) (hle : ∀ request m, may request m → may' request m) :
    Used host may' m := by
  obtain ⟨m₀, hnew, hmoments, huses⟩ := h
  refine ⟨m₀, hnew, hmoments, Relation.ReflTransGen.mono (fun m m' huse => ?_) _ _ huses⟩
  cases huse with
  | ask hnow request hmay hdone => exact .ask hnow request (hle request m hmay) hdone
  | adjust hclasses hheap hframes hhistory hmoments hbreakdowns =>
      exact .adjust hclasses hheap hframes hhistory hmoments hbreakdowns

theorem Watched.mono (h : Watched host may m) (hle : ∀ request m, may request m → may' request m) :
    Watched host may' m := by
  cases h with
  | idle hm => exact .idle (hm.mono hle)
  | busy hm hnow request hmay steps nesting =>
      exact .busy (hm.mono hle) hnow request (hle request _ hmay) steps nesting

variable {P : Machine → Prop} (hnew : ∀ {m : Machine}, m.IsNew → m.moments = .of [] → P m)
  (hsame : ∀ {m m' : Machine}, m'.classes = m.classes → m'.heap = m.heap →
    m'.moments = m.moments → P m → P m')
  (hnote : ∀ {m : Machine} (e : Event), P m → P (m.note e))
  (hperform : ∀ {now : Host} {steps nesting : Nat} {request : Request} {m : Machine},
    may request m → P m → P (endOf (request.perform (Session.context now steps nesting) m)))

include hnote hperform in
/-- What every request keeps is kept to its end, where what is thrown comes to the caller. -/
theorem runWithin_keeps {now : Host} {steps nesting : Nat} {request : Request}
    (hmay : may request m) (hm : P m) :
    P (endOf (Session.runWithin now steps nesting request.perform m)) := by
  have hend : P (endOf (request.perform (Session.context now steps nesting) m)) := hperform hmay hm
  unfold Session.runWithin
  split
  case h_1 hrun =>
    rw [hrun] at hend
    exact hend
  case h_2 hrun =>
    rw [hrun] at hend
    exact hnote _ hend
  case h_3 hrun =>
    rw [hrun] at hend
    exact hend

include hnew hsame hnote hperform

theorem Used.holds (h : Used host may m) : P m := by
  obtain ⟨m₀, hm₀, hmoments, huses⟩ := h
  induction huses with
  | refl => exact hnew hm₀ hmoments
  | tail _ huse ih =>
      cases huse with
      | ask _ request hmay _ => exact runWithin_keeps hnote hperform hmay ih
      | adjust hclasses hheap _ _ hkept _ => exact hsame hclasses hheap hkept ih

/-- What holds of a new engine and is kept by every request holds in every run. -/
theorem Watched.holds (h : Watched host may m) : P m := by
  cases h with
  | idle hm => exact hm.holds hnew hsame hnote hperform
  | busy hm _ request hmay _ _ =>
      exact runWithin_keeps hnote hperform hmay (hm.holds hnew hsame hnote hperform)

end Runs

/-- At every moment of every run, whatever code is run: each element of an array of references is
null, or refers to an object whose class is a subtype of the component type. -/
theorem arrays_hold_subtypes {host : Host} {m : Machine} (hm : Watched host Request.Fits m)
    {s : Moment} (hs : m.Passed s) {i : Nat} {array : Object} (hi : s.heap[i]? = some array)
    (harray : array.isArray = true)
    (hreference : Descriptor.isPrimitive (Descriptor.component array.type) = false)
    {v : Value} (hv : v ∈ array.elements) :
    v = .null ∨ ∃ r o, v = .ref r ∧ s.heap[r.number - 1]? = some o ∧
      s.classes.IsSubtype o.type (Descriptor.component array.type) := by
  have hcoherent : m.Coherent .arrays := hm.coherent fun _ _ hfits _ => hfits
  cases hcoherent.passed hs hi harray hreference v hv with
  | null => exact .inl rfl
  | ref ho hsub => exact .inr ⟨_, _, rfl, ho, hsub⟩

/-- A host with a root class that has no members. -/
def rootHost : Host where
  provider := some fun name =>
    if name = "java/lang/Object" then .ok ⟨0, 52, #[], ⟨0x21⟩, name, [], [], [], [], []⟩
    else .error "not found"
  currentTimeMillis := 0
  nanoTime := 0

/-- The root class is initialized. -/
def Machine.HasRoot (m : Machine) : Prop :=
  ∃ c, m.classes[Descriptor.object]? = some c ∧ c.state = .initialized

theorem ofInternal_object : Descriptor.ofInternal "java/lang/Object" = Descriptor.object := by
  decide +kernel

/-- The type of an array loads at once when the root class is there. -/
theorem classFor_array (host : Host) {m : Machine} (d : Descriptor) (hroot : m.HasRoot)
    (hd : m.classes[d]? = none) (harray : Descriptor.isArray d = true)
    (hdefine : define host d = .ok (.bare d)) (steps nesting : Nat) :
    ∃ c m', classFor d (Session.context host (steps + 2) (nesting + 2)) m = .ok c m' ∧
      c.descriptor = d ∧ c.state = .initialized ∧ m'.classes[d]? = some c ∧ m.ChangesClasses m' ∧
      ∀ k, k ≠ d → m'.classes[k]? = m.classes[k]? := by
  obtain ⟨root, hc, hstate⟩ := hroot
  have hother : ∀ k, k ≠ d → (m.classes.insert d (.bare d))[k]? = m.classes[k]? := fun k hk => by
    rw [Std.HashMap.getElem?_insert, if_neg (by simpa using hk.symm)]
  have hsuper : (m.classes.insert d (.bare d))[
      Descriptor.ofInternal (RuntimeClass.bare d).superName]? = some root := by
    have hname : (RuntimeClass.bare d).superName = "java/lang/Object" := if_pos harray
    rw [hname, ofInternal_object, hother, hc]
    rintro rfl
    contradiction
  obtain ⟨c, m', hrun, rfl, hrest, hc, hkept⟩ := classFor_quiet hd hdefine rfl
    Std.HashMap.getElem?_insert_self rfl ⟨nofun, rfl⟩ fun _ => ⟨root, hsuper, .inr hstate⟩
  have hentered : m.ChangesClasses (m.withClasses (m.classes.insert d (.bare d))) := rfl
  exact ⟨_, m', hrun, rfl, rfl, hc, hentered.trans hrest, fun k hk =>
    (hkept k hk).trans (hother k hk)⟩

/-- The first class of an engine, if no code is run for it, is there alone. -/
theorem classFor_first {host : Host} {d : Descriptor} {c : RuntimeClass} {file : ClassFile}
    (hdefine : define host d = .ok c) (hfile : c.file = some file) (hsuper : c.superName = [])
    (hquiet : c.IsQuiet) :
    ∃ c' m, classFor d (Session.context host 2 2) Session.fresh = .ok c' m ∧
      c' = { c with statics := some ⟨1⟩, superclass := none, state := .initialized } ∧
      m.classes[d]? = some c' ∧ (∀ k, k ≠ d → m.classes[k]? = none) ∧
      ({ Session.fresh with heap := m.heap } : Machine).ChangesClasses m := by
  have hnew := isNew_define hdefine
  obtain rfl := hnew.descriptor
  let t : ClassTable := (∅ : ClassTable).insert c.descriptor { c with statics := some ⟨1⟩ }
  have henter : enter c.descriptor c (Session.context host 2 2) Session.fresh =
      .ok () (Machine.withClasses
        { Session.fresh with heap := #[staticStorage c.descriptor file] } t) := by
    rw [enter_of_file hfile]
    rfl
  obtain ⟨c', m, hrun, rfl, hrest, hc, hother⟩ := classFor_quiet
    (by simp [Session.fresh]) hdefine henter Std.HashMap.getElem?_insert_self hnew.state
    ⟨hquiet.constants, hquiet.initializer⟩ (absurd hsuper)
  rw [if_pos hsuper] at hrun hc
  refine ⟨_, m, hrun, rfl, hc, fun k hk => ?_, ?_⟩
  · rw [hother k hk]
    change t[k]? = none
    rw [Std.HashMap.getElem?_insert, if_neg (by simpa using hk.symm), Std.HashMap.getElem?_empty]
  · rw [hrest]
    rfl

theorem used_of_first {host : Host} (may : Request → Machine → Prop) {name : Text} {d : Descriptor}
    {c : RuntimeClass} {file : ClassFile} (hname : Descriptor.ofInternal name = d)
    (hdefine : define host d = .ok c) (hfile : c.file = some file) (hsuper : c.superName = [])
    (hquiet : c.IsQuiet) (hmay : may (.loadClass name) Session.fresh) :
    ∃ m, Used host may m ∧
      m.classes[d]? = some { c with statics := some ⟨1⟩, superclass := none, state := .initialized } ∧
      (∀ k, k ≠ d → m.classes[k]? = none) ∧
      ({ Session.fresh with heap := m.heap } : Machine).ChangesClasses m := by
  obtain ⟨c', m, hrun, rfl, hc, hnone, hrest⟩ := classFor_first hdefine hfile hsuper hquiet
  have hload : Session.runWithin host 2 2 (Request.perform (.loadClass name)) Session.fresh =
      .ok () m := by
    rw [Session.runWithin, Request.perform, loadClass, hname, discard_of_ok hrun]
  exact ⟨m, (used_fresh host may).ask _ hmay hload, hc, hnone, hrest⟩

/-- These classes are initialized, and there are no others. -/
structure Machine.Holds (m : Machine) (types : List Descriptor) : Prop where
  initialized : ∀ d ∈ types, ∃ c, m.classes[d]? = some c ∧ c.state = .initialized
  others : ∀ d, d ∉ types → m.classes[d]? = none

theorem Machine.Holds.linked {m : Machine} {types : List Descriptor} {d : Descriptor}
    (h : m.Holds types) (hd : d ∈ types) : m.classes.Linked d := by
  obtain ⟨c, hc, hstate⟩ := h.initialized d hd
  exact ⟨c, hc, by rw [hstate]; trivial⟩

theorem holds_fresh : Session.fresh.Holds [] where
  initialized _ hd := by contradiction
  others _ _ := Std.HashMap.getElem?_empty

/-- One more class, for which no code is run and whose superclass is there. -/
theorem Used.load {host : Host} {may : Request → Machine → Prop} {m : Machine}
    {types : List Descriptor} {name : Text} {d : Descriptor} {c : RuntimeClass}
    (hm : Used host may m) (hholds : m.Holds types) (hname : Descriptor.ofInternal name = d)
    (hnew : d ∉ types) (hdefine : define host d = .ok c) (hquiet : c.IsQuiet)
    (hsuper : c.superName = [] ∨ Descriptor.ofInternal c.superName ∈ types)
    (hmay : may (.loadClass name) m) : ∃ m', Used host may m' ∧ m'.Holds (d :: types) := by
  have hd := hholds.others d hnew
  obtain ⟨c₁, m₁, henter, hclasses, hdefined, hstate, _⟩ :
      ∃ c₁ m₁, enter d c (Session.context host 2 2) m = .ok () m₁ ∧ _ := enter_ok hdefine hd
  have hc₁ : m₁.classes[d]? = some c₁ := by
    rw [hclasses, ClassTable.getElem?_insert, if_pos rfl]
  have hkept : ∀ k, k ≠ d → m₁.classes[k]? = m.classes[k]? := fun k hk => by
    rw [hclasses, ClassTable.getElem?_insert, if_neg hk.symm]
  have hquiet₁ : c₁.IsQuiet := by
    rw [hdefined]
    exact ⟨hquiet.constants, hquiet.initializer⟩
  have hsuper₁ : c.superName ≠ [] → m₁.classes.Ready (Descriptor.ofInternal c.superName) := by
    intro hne
    have hmem := hsuper.resolve_left hne
    obtain ⟨k, hk, hstate⟩ := hholds.initialized _ hmem
    exact ⟨k, by rw [hkept _ fun h => hnew (h ▸ hmem), hk], .inr hstate⟩
  obtain ⟨c', m', hrun, rfl, _, hc', hother⟩ :=
    classFor_quiet hd hdefine henter hc₁ hstate hquiet₁ hsuper₁
  have hload : Session.runWithin host 2 2 (Request.perform (.loadClass name)) m = .ok () m' := by
    rw [Session.runWithin, Request.perform, loadClass, hname, discard_of_ok hrun]
  refine ⟨m', hm.ask _ hmay hload, fun k hk => ?_, fun k hk => ?_⟩
  · by_cases hkd : k = d
    · exact ⟨_, hkd ▸ hc', rfl⟩
    · rw [hother k hkd, hkept k hkd]
      exact hholds.initialized k ((List.mem_cons.mp hk).resolve_left hkd)
  · rw [List.mem_cons, not_or] at hk
    rw [hother k hk.1, hkept k hk.1]
    exact hholds.others k hk.2

/-- A new array of arrays holds a reference to the array that was made for it. -/
theorem build_grid {m : Machine} (hroot : m.HasRoot) (hnone : m.classes[("[I" : Text)]? = none) :
    ∃ m', Arrays.build "[[I" [1, 1] (Session.context rootHost 9 9) m =
      .ok ⟨m.heap.size + 1⟩ m' ∧
      m'.heap[m.heap.size]? = some (.array "[[I" #[.ref ⟨m.heap.size + 2⟩]) := by
  let m₁ : Machine := { m with heap := m.heap.push (.array "[[I" #[.null]) }
  have hroot₁ : m₁.HasRoot := hroot
  obtain ⟨c, m₂, hclass, hc, _, _, hrest, _⟩ := classFor_array rootHost "[I" hroot₁ hnone rfl rfl 7 7
  have hallocate : allocate (.array "[[I" (Array.replicate 1 .null))
      (Session.context rootHost 9 9) m = .ok ⟨m.heap.size + 1⟩ m₁ := rfl
  have hcomponent : Descriptor.component "[[I" = "[I" := by decide +kernel
  unfold Arrays.build
  rw [bind_of_ok hallocate, hcomponent, bind_of_ok hclass, hc]
  refine ⟨_, rfl, ?_⟩
  have hheap₁ : m₁.heap = m.heap.push (.array "[[I" #[.null]) := rfl
  have hne : m.heap.size ≠ m.heap.size + 1 := by omega
  dsimp only
  rw [hrest.heap, hheap₁, Nat.add_sub_cancel, Array.getElem?_modify, if_pos rfl, Array.getElem?_push,
    Array.size_push, if_neg hne, Array.getElem?_push_size]
  rfl

theorem arrays_hold_subtypes_grid : ∃ (m : Machine) (i : Nat) (array o : Object) (r : Ref),
    Watched rootHost Request.Fits m ∧ m.heap[i]? = some array ∧ array.type = "[[I" ∧
      .ref r ∈ array.elements ∧ m.heap[r.number - 1]? = some o ∧
      m.classes.IsSubtype o.type (Descriptor.component array.type) := by
  have hname : Descriptor.ofInternal "java/lang/Object" = Descriptor.object := by decide +kernel
  have hdefine : define rootHost Descriptor.object = .ok _ := rfl
  obtain ⟨m, hused, hobject, hnone, _⟩ :=
    used_of_first Request.Fits hname hdefine rfl rfl ⟨by simp, rfl⟩ trivial
  have hroot : m.HasRoot := ⟨_, hobject, rfl⟩
  have hgrid := hnone "[[I" (by decide +kernel)
  obtain ⟨c, m₁, hclass, hc, _, _, _, hkept⟩ := classFor_array rootHost "[[I" hroot hgrid rfl rfl 7 7
  have hroot₁ : m₁.HasRoot := by
    rwa [HasRoot, hkept Descriptor.object (by decide +kernel)]
  have hrow : m₁.classes[("[I" : Text)]? = none := by
    rw [hkept _ (by decide +kernel), hnone _ (by decide +kernel)]
  obtain ⟨m₂, hbuild, harray⟩ := build_grid hroot₁ hrow
  have hrun : Session.runWithin rootHost 9 9 (Request.perform (.newArray "[[I" [1, 1])) m =
      .ok () m₂ := by
    have hload : loadClass "[[I" (Session.context rootHost 9 9) m = .ok c m₁ := hclass
    have hnew : Arrays.newArray c [1, 1] (Session.context rootHost 9 9) m₁ =
        .ok ⟨m₁.heap.size + 1⟩ m₂ := by
      rw [Arrays.newArray, RuntimeClass.isArray, hc]
      exact hbuild
    rw [Session.runWithin, Request.perform, bind_of_ok hload, discard_of_ok hnew]
  have hm := Watched.idle (hused.ask (.newArray "[[I" [1, 1]) trivial hrun)
  have hcell : Value.ref ⟨m₁.heap.size + 2⟩ ∈
      (Object.array "[[I" #[.ref ⟨m₁.heap.size + 2⟩]).elements := by simp [Object.array]
  rcases arrays_hold_subtypes hm (.inl rfl) harray rfl rfl hcell with h | ⟨r, o, hr, ho, hsub⟩
  · contradiction
  · exact ⟨m₂, _, _, o, r, hm, harray, rfl, hr ▸ hcell, ho, hsub⟩

end ClassEngine
