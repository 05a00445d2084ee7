import ClassEngine.Proofs.Engine.Requests

/-!
The life of a class, from its record in the table to the end of its initialization, in every run of
an engine. Main results: classes are initialized in order, and linking keeps the class table.
-/

namespace ClassEngine

open Machine Linking

variable {host : Host} {later earlier : List Event}

/-- Every event of a lawful history is as it may be. -/
theorem Lawful.event {event : Event} (h : Lawful host (later ++ event :: earlier)) :
    event.Lawful earlier ∧ ((∀ t, event ≠ .changed t) → (tableAfter earlier).Sound host []) := by
  induction later with
  | nil => exact ⟨h.1, h.2.1⟩
  | cons e later ih => exact ih h.2.2

/-- In every run, for every class: its state moves forward and by one step at a time; its initializer
is started at most once, and not before its superclass is being initialized; and its code is executed
and its static fields are touched only once its initialization has begun. -/
theorem classes_initialize_in_order {m : Machine} (hm : Observed host m) :
    tableAfter m.history.val = m.classes ∧
    ∀ later event earlier, m.history.val = later ++ event :: earlier →
      match event with
      | .changed t =>
          (∀ (d : Descriptor) (c : RuntimeClass), (tableAfter earlier)[d]? = some c →
            ∃ c', t[d]? = some c' ∧ (c'.state = c.state ∨ c.state.Next c'.state)) ∧
          ∀ (d : Descriptor) (c : RuntimeClass), t[d]? = some c →
            (tableAfter earlier)[d]? = none → c.state = .linking
      | .initializer d =>
          .initializer d ∉ earlier ∧ ∃ c, (tableAfter earlier)[d]? = some c ∧
            c.state = .initializing ∧ ∀ s, c.superclass = some s → (tableAfter earlier).Ready s
      | .executing d | .statics d => (tableAfter earlier).Started d
      | .unwound _ _ | .arrived _ _ | .abandoned _ _ => True := by
  refine ⟨hm.recorded.table, fun later event earlier hhistory => ?_⟩
  have hlawful := hm.recorded.lawful
  rw [hhistory] at hlawful
  have hevent := hlawful.event.1
  cases event with
  | changed t =>
      refine ⟨fun d c hc => ?_, fun d c hc hnone => hevent.fresh hc hnone⟩
      obtain ⟨c', hc', _, hstate⟩ := hevent.forward hc
      exact ⟨c', hc', hstate⟩
  | initializer d => exact hevent
  | executing d => exact hevent
  | statics d => exact hevent
  | unwound _ _ => trivial
  | arrived _ _ => trivial
  | abandoned _ _ => trivial

/-- A class whose initializer does nothing. -/
def idleClass (name superName : Text) : ClassFile where
  minor := 0
  major := 52
  pool := #[]
  flags := ⟨0x21⟩
  name := name
  superName := superName
  interfaces := []
  fields := []
  methods := [⟨"<clinit>", "()V", ⟨8⟩, some ⟨0, 0, #[0xB1], [], []⟩, []⟩]
  sourceFile := []

/-- A host with a root class, and with two classes that are each the superclass of the other. -/
def ringHost : Host where
  provider := some fun name =>
    if name = "Root" then .ok (idleClass "Root" [])
    else if name = "Hen" then .ok (idleClass "Hen" "Egg")
    else if name = "Egg" then .ok (idleClass "Egg" "Hen")
    else .error "not found"
  currentTimeMillis := 0
  nanoTime := 0

/-- An engine that was asked for the root class. -/
def rootLoaded : Machine :=
  endOf (Session.runWithin ringHost 9 9 (Request.perform (.loadClass "Root")) Session.fresh)

theorem classes_initialize_in_order_root : Observed ringHost rootLoaded ∧
    tableAfter rootLoaded.history.val = rootLoaded.classes ∧
    ¬∃ later d earlier, rootLoaded.history.val = later ++ .initializer d :: earlier ∧
      .initializer d ∈ earlier := by
  have hm : Observed ringHost rootLoaded :=
    .busy (reachable_fresh ringHost) rfl (.loadClass "Root") 9 9
  obtain ⟨htable, hevents⟩ := classes_initialize_in_order hm
  refine ⟨hm, htable, ?_⟩
  rintro ⟨later, d, earlier, hhistory, hbefore⟩
  exact (hevents later (.initializer d) earlier hhistory).1 hbefore

/-- A class table between two requests, or at a moment of a run at which something else happens than
that the table is changed. -/
def ClassTable.AtRest (host : Host) (t : ClassTable) : Prop :=
  (∃ m, Reachable host m ∧ m.classes = t) ∨
    ∃ m later event earlier, Observed host m ∧ m.history.val = later ++ event :: earlier ∧
      (∀ t', event ≠ .changed t') ∧ tableAfter earlier = t

theorem ClassTable.AtRest.sound {t : ClassTable} (h : t.AtRest host) : t.Sound host [] := by
  rcases h with ⟨m, hm, rfl⟩ | ⟨m, later, event, earlier, hm, hhistory, hevent, rfl⟩
  · exact hm.inv.table
  · have hlawful := hm.recorded.lawful
    rw [hhistory] at hlawful
    exact hlawful.event.2 hevent

/-- A class that could not be linked never can be. -/
theorem Lawful.failed {d : Descriptor} {c : RuntimeClass} {e : Raise}
    (h : Lawful host (later ++ earlier)) (hc : (tableAfter earlier)[d]? = some c)
    (hstate : c.state = .failed (some e)) :
    ∃ c', (tableAfter (later ++ earlier))[d]? = some c' ∧ c'.state = .failed (some e) := by
  induction later with
  | nil => exact ⟨c, hc, hstate⟩
  | cons event later ih =>
      obtain ⟨c₁, hc₁, hstate₁⟩ := ih h.2.2
      cases event with
      | changed t =>
          obtain ⟨c', hc', _, hsame | hnext⟩ := h.1.forward hc₁
          · exact ⟨c', hc', hsame.trans hstate₁⟩
          · rw [hstate₁] at hnext
            contradiction
      | _ => exact ⟨c₁, hc₁, hstate₁⟩

/-- Asking for a class that could not be linked gives the same reason each time, and nothing else
comes of it. -/
theorem request_failed {ctx : Context} {m : Machine} {d : Descriptor} {c : RuntimeClass} {e : Raise}
    (hc : m.classes[d]? = some c) (hstate : c.state = .failed (some e)) (hfuel : 0 < ctx.fuel) :
    link d ctx m = .error e (m.breakDown e) ∧ classFor d ctx m = .error e (m.breakDown e) := by
  have hlink : link d ctx m = .error e (m.breakDown e) := by
    obtain ⟨fuel, hfuel⟩ := Nat.exists_eq_succ_of_ne_zero (Nat.ne_of_gt hfuel)
    rw [link_eq, hfuel, linkWithin_registered hc, hstate]
  exact ⟨hlink, Exec.bind_of_error hlink⟩

/-- Linking says that there is a circularity exactly if there is one. -/
theorem link_circularity_iff {ctx : Context} {m : Machine} {names : Finset Text}
    (hsound : m.classes.Sound ctx.host []) (hserves : ctx.host.Serves names)
    (hfuel : names.card + 3 ≤ ctx.fuel) (d : Descriptor) :
    (∃ e m', link d ctx m = .error e m' ∧ e.IsCircularity) ↔ LeadsIntoCycle ctx.host d := by
  have hmeets : LinkMeets ctx.host [] d m (link d ctx m) := link_meets d m
  cases hrun : link d ctx m with
  | ok _ m' =>
      rw [hrun] at hmeets
      obtain ⟨htable, c, hc, hlinked⟩ := hmeets.2.2 hsound
      constructor
      · rintro ⟨e, m', h, _⟩
        contradiction
      · exact fun hcycle => absurd hcycle (htable.not_leadsIntoCycle (htable.linked hc hlinked))
  | error e m' =>
      rw [hrun] at hmeets
      have hne : e ≠ .exhausted := by
        rintro rfl
        exact link_terminates hserves hfuel hsound d hrun
      have hcause := (hmeets.2.2 hsound hne).2.circularity
      constructor
      · rintro ⟨e', m'', h, he'⟩
        obtain ⟨rfl, rfl⟩ := EStateM.Result.error.inj h
        exact hcause.mp he'
      · exact fun hcycle => ⟨e, m', rfl, hcause.mpr hcycle⟩

/-- In every run: no record is dropped or replaced; outside of linking no class is being linked, and
the superclasses of every linked class are a finite chain of linked classes; linking comes to an end,
and complains of a circularity exactly if there is one; and a class that could not be linked gives the
same reason ever after, and nothing else comes of asking for it. -/
theorem linking_keeps_class_table (host : Host) :
    (∀ m later t earlier, Observed host m → m.history.val = later ++ .changed t :: earlier →
      ∀ (d : Descriptor) (c : RuntimeClass), (tableAfter earlier)[d]? = some c →
        ∃ c', t[d]? = some c' ∧ c.SameClass c') ∧
    (∀ t : ClassTable, t.AtRest host → ∀ (d : Descriptor) (c : RuntimeClass), t[d]? = some c →
      c.descriptor = d ∧ c.state ≠ .linking ∧ (c.state.IsLinked → t.Chain d)) ∧
    (∀ (m : Machine) (ctx : Context) (names : Finset Text), m.classes.AtRest host →
      ctx.host.provider = host.provider → host.Serves names → names.card + 3 ≤ ctx.fuel →
      ∀ d : Descriptor, (∀ m', link d ctx m ≠ .error .exhausted m') ∧
        ((∃ e m', link d ctx m = .error e m' ∧ e.IsCircularity) ↔ LeadsIntoCycle host d) ∧
        ∀ e m' c, link d ctx m = .error e m' → m'.classes[d]? = some c →
          c.state = .failed (some e)) ∧
    ∀ m later earlier, Observed host m → m.history.val = later ++ earlier →
      ∀ (d : Descriptor) (c : RuntimeClass) (e : Raise), (tableAfter earlier)[d]? = some c →
        c.state = .failed (some e) → ∀ (k : Machine) (ctx : Context), k.classes = m.classes →
          0 < ctx.fuel → link d ctx k = .error e (k.breakDown e) ∧
            classFor d ctx k = .error e (k.breakDown e) ∧
            ∀ name, Descriptor.ofInternal name = d →
              loadClass name ctx k = .error e (k.breakDown e) := by
  refine ⟨?_, ?_, ?_, ?_⟩
  · intro m later t earlier hm hhistory d c hc
    have hlawful := hm.recorded.lawful
    rw [hhistory] at hlawful
    obtain ⟨c', hc', hsame, _⟩ := hlawful.event.1.forward hc
    exact ⟨c', hc', hsame⟩
  · intro t ht d c hc
    exact ⟨ht.sound.descriptor hc, ht.sound.not_linking hc, ht.sound.linked hc⟩
  · intro m ctx names hm hnow hserves hfuel d
    have hsound : m.classes.Sound ctx.host [] := hm.sound.of_provider hnow
    have hserves' : ctx.host.Serves names := by rwa [Host.Serves, hnow]
    refine ⟨fun m' => link_terminates hserves' hfuel hsound d, ?_, ?_⟩
    · rw [link_circularity_iff hsound hserves' hfuel, leadsIntoCycle_congr hnow]
    · intro e m' c hrun hc
      refine link_failed hsound hrun ?_ hc
      rintro rfl
      exact link_terminates hserves' hfuel hsound d hrun
  · intro m later earlier hm hhistory d c e hc hstate k ctx hk hfuel
    have hlawful := hm.recorded.lawful
    have htable := hm.recorded.table
    rw [hhistory] at hlawful htable
    obtain ⟨c', hc', hstate'⟩ := hlawful.failed hc hstate
    rw [htable, ← hk] at hc'
    obtain ⟨hlink, hclass⟩ := request_failed hc' hstate' hfuel
    refine ⟨hlink, hclass, fun name hname => ?_⟩
    rw [loadClass, hname]
    exact hclass

theorem ringHost_serves :
    ringHost.Serves {("Root" : Text), ("Hen" : Text), ("Egg" : Text)} := by
  intro provider name file hprovider hfile
  obtain rfl := Option.some.inj hprovider
  dsimp only at hfile
  split at hfile
  · simp [*]
  split at hfile
  · simp [*]
  split at hfile
  · simp [*]
  · contradiction

theorem ringHost_leadsIntoCycle : LeadsIntoCycle ringHost "LHen;" := by
  have hhen : Follows ringHost "LHen;" "LEgg;" := ⟨_, rfl, by decide +kernel, by decide +kernel⟩
  have hegg : Follows ringHost "LEgg;" "LHen;" := ⟨_, rfl, by decide +kernel, by decide +kernel⟩
  exact ⟨"LHen;", .refl, .tail (.single hhen) hegg⟩

theorem linking_keeps_class_table_ring :
    ∃ e m', link "LHen;" (Session.context ringHost 6 0) Session.fresh = .error e m' ∧
      e.IsCircularity := by
  have hrest : Session.fresh.classes.AtRest ringHost := .inl ⟨_, reachable_fresh ringHost, rfl⟩
  have hlink := (linking_keeps_class_table ringHost).2.2.1 Session.fresh
    (Session.context ringHost 6 0) _ hrest rfl ringHost_serves (by decide +kernel) "LHen;"
  exact hlink.2.1.mpr ringHost_leadsIntoCycle

end ClassEngine
