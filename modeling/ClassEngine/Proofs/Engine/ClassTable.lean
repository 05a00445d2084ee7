import Mathlib.Logic.Relation
import ClassEngine.Proofs.Engine.Evolution

/-!
What the class table says about superclasses. A record comes from the definition of its type; the
superclasses of a linked class form a finite chain that ends at a class without a superclass; and a
class whose superclasses lead into a cycle has failed for exactly that reason.
-/

namespace ClassEngine

open Linking

/-- Following the name of the superclass from one type leads to another. -/
def Follows (host : Host) (d s : Descriptor) : Prop :=
  ∃ c, define host d = .ok c ∧ c.superName ≠ [] ∧ s = Descriptor.ofInternal c.superName

/-- Following the names of superclasses from a type leads into a cycle. Each step on the way finds a
definition, so nothing else has gone wrong before. -/
def LeadsIntoCycle (host : Host) (d : Descriptor) : Prop :=
  ∃ k, Relation.ReflTransGen (Follows host) d k ∧ Relation.TransGen (Follows host) k k

/-- The guest object that a cause brings with it. -/
def Cause.object? : Cause → Option Ref
  | .thrown r _ => some r
  | .circularity | .underflow | .reason _ => none

/-- The guest object that a failure carries, itself or as its cause. -/
def Raise.object? : Raise → Option Ref
  | .thrown r => some r
  | .unresolved u => u.cause.bind Cause.object?
  | .malformed c => c.cause.bind Cause.object?
  | .failure _ | .panic _ | .exhausted => none

/-- The complaint about a class that is among its own superclasses. -/
def Raise.IsCircularity : Raise → Prop
  | .unresolved u => u.cause = some .circularity
  | _ => False

/-- Why a class cannot be linked: it is about a circularity exactly if there is one, and never about
a guest object. -/
structure Raise.IsLinkError (host : Host) (d : Descriptor) (e : Raise) : Prop where
  unresolved : ∃ u, e = .unresolved u
  circularity : e.IsCircularity ↔ LeadsIntoCycle host d
  bare : e.object? = none

theorem Raise.IsLinkError.ne_exhausted {host : Host} {d : Descriptor} {e : Raise}
    (h : e.IsLinkError host d) : e ≠ .exhausted := by
  obtain ⟨u, rfl⟩ := h.unresolved
  simp

theorem Follows.unique {host : Host} {d s s' : Descriptor} (h : Follows host d s)
    (h' : Follows host d s') : s = s' := by
  obtain ⟨c, hc, _, rfl⟩ := h
  obtain ⟨c', hc', _, rfl⟩ := h'
  obtain rfl : c = c' := Except.ok.inj (hc.symm.trans hc')
  rfl

/-- A type without a next one does not lead into a cycle. -/
theorem not_leadsIntoCycle {host : Host} {d : Descriptor} (h : ∀ s, ¬Follows host d s) :
    ¬LeadsIntoCycle host d := by
  rintro ⟨k, hreach, hcycle⟩
  rcases hreach.cases_head with rfl | ⟨s, hs, _⟩
  · obtain ⟨s, hs, _⟩ := Relation.TransGen.head'_iff.mp hcycle
    exact h s hs
  · exact h s hs

/-- Whether a type leads into a cycle is decided by the next one. -/
theorem Follows.leadsIntoCycle_iff {host : Host} {d s : Descriptor} (h : Follows host d s) :
    LeadsIntoCycle host d ↔ LeadsIntoCycle host s := by
  constructor
  · rintro ⟨k, hreach, hcycle⟩
    rcases hreach.cases_head with rfl | ⟨s', hs', hrest⟩
    · obtain ⟨s', hs', hback⟩ := Relation.TransGen.head'_iff.mp hcycle
      obtain rfl := h.unique hs'
      exact ⟨d, hback, hcycle⟩
    · obtain rfl := h.unique hs'
      exact ⟨k, hrest, hcycle⟩
  · rintro ⟨k, hreach, hcycle⟩
    exact ⟨k, .head h hreach, hcycle⟩

namespace RuntimeClass

/-- The methods of a record are those of its class. -/
def OwnsMethods (c : RuntimeClass) : Prop :=
  ∀ m ∈ c.methods, m.owner = c.descriptor

/-- A record that was made from a definition. -/
def DefinedBy (c c₀ : RuntimeClass) : Prop :=
  c = { c₀ with
    superclass := c.superclass
    statics := c.statics
    mirror := c.mirror
    resolved := c.resolved
    state := c.state }

/-- A record as a definition gives it. -/
structure IsNew (d : Descriptor) (c : RuntimeClass) : Prop where
  descriptor : c.descriptor = d
  ownsMethods : c.OwnsMethods
  superclass : c.superclass = none
  resolved : c.resolved = {}
  state : c.state = .linking

theorem isNew_bare (d : Descriptor) : IsNew d (bare d) :=
  ⟨rfl, fun _ h => by simp [bare] at h, rfl, rfl, rfl⟩

theorem mem_declare {α : Type} {same : α → α → Bool} {items : List α} {a b : α}
    (h : b ∈ declare same items a) : b ∈ items ∨ b = a := by
  rw [declare, List.mem_append, List.mem_filter, List.mem_singleton] at h
  exact h.imp_left And.left

theorem mem_foldl_declare {α : Type} {same : α → α → Bool} {as : List α} {items : List α} {b : α}
    (h : b ∈ as.foldl (declare same) items) : b ∈ items ∨ b ∈ as := by
  induction as generalizing items with
  | nil => exact .inl h
  | cons a as ih =>
      rcases ih h with h | h
      · exact (mem_declare h).imp_right fun hb => List.mem_cons.mpr (.inl hb)
      · exact .inr (List.mem_cons_of_mem a h)

theorem bindMethod_owner {d : Descriptor} {file : ClassFile} {info : MethodInfo} {m : Method}
    (h : bindMethod d file info = .ok m) : m.owner = d := by
  rw [bindMethod] at h
  split at h
  · obtain rfl := Except.ok.inj h
    rfl
  · contradiction

theorem bindMethod_signature {d : Descriptor} {file : ClassFile} {info : MethodInfo} {m : Method}
    (h : bindMethod d file info = .ok m) : Signature.parse m.descriptor = .ok m.signature := by
  rw [bindMethod] at h
  split at h
  · rename_i signature hparse
    obtain rfl := Except.ok.inj h
    exact hparse
  · contradiction

theorem mapM_cons_ok {ε α β : Type} {f : α → Except ε β} {a : α} {as : List α} {bs : List β}
    (h : (a :: as).mapM f = .ok bs) : ∃ b bs', f a = .ok b ∧ as.mapM f = .ok bs' ∧ bs = b :: bs' := by
  rw [List.mapM_cons] at h
  cases hfa : f a with
  | error e => simp [hfa, Bind.bind, Except.bind] at h
  | ok b =>
      cases htail : as.mapM f with
      | error e => simp [hfa, htail, Bind.bind, Except.bind] at h
      | ok bs' =>
          refine ⟨b, bs', rfl, rfl, ?_⟩
          simpa [hfa, htail, Bind.bind, Except.bind, Pure.pure, Except.pure] using h.symm

theorem mapM_ok_mem {ε α β : Type} {f : α → Except ε β} {as : List α} {bs : List β}
    (h : as.mapM f = .ok bs) {b : β} (hb : b ∈ bs) : ∃ a ∈ as, f a = .ok b := by
  induction as generalizing bs with
  | nil =>
      obtain rfl : [] = bs := Except.ok.inj h
      contradiction
  | cons a as ih =>
      obtain ⟨b', bs', hfa, htail, rfl⟩ := mapM_cons_ok h
      rcases List.mem_cons.mp hb with rfl | hb
      · exact ⟨a, List.mem_cons_self, hfa⟩
      · obtain ⟨a', ha', hfa'⟩ := ih htail hb
        exact ⟨a', List.mem_cons_of_mem a ha', hfa'⟩

theorem mapM_ok_length {ε α β : Type} {f : α → Except ε β} {as : List α} {bs : List β}
    (h : as.mapM f = .ok bs) : bs.length = as.length := by
  induction as generalizing bs with
  | nil =>
      obtain rfl : [] = bs := Except.ok.inj h
      rfl
  | cons a as ih =>
      obtain ⟨b, bs', -, htail, rfl⟩ := mapM_cons_ok h
      exact congrArg Nat.succ (ih htail)

/-- What a record is made of that comes from a file. -/
theorem ofFile_eq_ok {d : Descriptor} {file : ClassFile} {c : RuntimeClass}
    (h : ofFile d file = .ok c) :
    ∃ (fields : List Field) (methods : List Method),
      file.methods.mapM (bindMethod d file) = .ok methods ∧
      c = { bare d with
        superName := file.superName
        interfaces := file.interfaces
        flags := file.flags
        file := some file
        fields := fields.foldl (declare fun a b => a.name == b.name) []
        methods := methods.foldl (declare Method.same) [] } := by
  rw [ofFile] at h
  cases hfields : file.fields.mapM (checkField d) with
  | error e => simp [hfields, Bind.bind, Except.bind] at h
  | ok fields =>
      cases hmethods : file.methods.mapM (bindMethod d file) with
      | error e => simp [hfields, hmethods, Bind.bind, Except.bind] at h
      | ok methods =>
          rw [hfields, hmethods] at h
          exact ⟨fields, methods, rfl, (Except.ok.inj h).symm⟩

/-- The methods of a record are those of its file. -/
theorem mem_methods_ofFile {d : Descriptor} {file : ClassFile} {c : RuntimeClass}
    (h : ofFile d file = .ok c) {m : Method} (hm : m ∈ c.methods) :
    ∃ info, bindMethod d file info = .ok m := by
  obtain ⟨fields, methods, hmethods, rfl⟩ := ofFile_eq_ok h
  rcases mem_foldl_declare hm with hm | hm
  · contradiction
  · obtain ⟨info, _, hinfo⟩ := mapM_ok_mem hmethods hm
    exact ⟨info, hinfo⟩

theorem isNew_ofFile {d : Descriptor} {file : ClassFile} {c : RuntimeClass}
    (h : ofFile d file = .ok c) : IsNew d c := by
  have howns : ∀ m ∈ c.methods, m.owner = d := by
    intro m hm
    obtain ⟨info, hinfo⟩ := mem_methods_ofFile h hm
    exact bindMethod_owner hinfo
  obtain ⟨fields, methods, _, rfl⟩ := ofFile_eq_ok h
  exact ⟨rfl, howns, rfl, rfl, rfl⟩

end RuntimeClass

/-- A definition is bare, or comes from a file that the provider serves. -/
theorem define_eq_ok {host : Host} {d : Descriptor} {c : RuntimeClass}
    (h : define host d = .ok c) :
    c = .bare d ∨ ∃ provider file, host.provider = some provider ∧
      provider (Descriptor.className d) = .ok file ∧ RuntimeClass.ofFile d file = .ok c := by
  rw [define] at h
  split at h
  · exact .inl (Except.ok.inj h).symm
  split at h
  · split at h
    · contradiction
    · exact .inl (Except.ok.inj h).symm
  split at h
  case isFalse => contradiction
  rw [defineInstance] at h
  dsimp only at h
  split at h
  · contradiction
  case h_2 provider hprovider =>
  split at h
  · contradiction
  case h_2 file hserved =>
  split at h
  · contradiction
  split at h
  · contradiction
  case h_2 hfile =>
    obtain rfl := Except.ok.inj h
    exact .inr ⟨provider, file, hprovider, hserved, hfile⟩

/-- A definition is a fresh record of the type that it was looked up for. -/
theorem isNew_define {host : Host} {d : Descriptor} {c : RuntimeClass} (h : define host d = .ok c) :
    RuntimeClass.IsNew d c := by
  rcases define_eq_ok h with rfl | ⟨_, file, _, _, hfile⟩
  · exact RuntimeClass.isNew_bare d
  · exact RuntimeClass.isNew_ofFile hfile

theorem define_name {host : Host} {d : Descriptor} {c : RuntimeClass} (h : define host d = .ok c) :
    c.name = Descriptor.className d := by
  rcases define_eq_ok h with rfl | ⟨_, file, _, _, hfile⟩
  · rfl
  · obtain ⟨_, _, _, rfl⟩ := RuntimeClass.ofFile_eq_ok hfile
    rfl

/-- Static storage comes with the record in the table only. -/
theorem define_statics {host : Host} {d : Descriptor} {c : RuntimeClass}
    (h : define host d = .ok c) : c.statics = none := by
  rcases define_eq_ok h with rfl | ⟨_, file, _, _, hfile⟩
  · rfl
  · obtain ⟨_, _, _, rfl⟩ := RuntimeClass.ofFile_eq_ok hfile
    rfl

/-- A file is the one that is served for the name of its class. -/
theorem define_file {host : Host} {d : Descriptor} {c : RuntimeClass} {file : ClassFile}
    (h : define host d = .ok c) (hfile : c.file = some file) :
    c.superName = file.superName ∧
      ∃ provider, host.provider = some provider ∧ provider c.name = .ok file := by
  have hname := define_name h
  rcases define_eq_ok h with rfl | ⟨provider, served, hprovider, hserved, hread⟩
  · contradiction
  · obtain ⟨_, _, _, rfl⟩ := RuntimeClass.ofFile_eq_ok hread
    obtain rfl := Option.some.inj hfile
    exact ⟨rfl, provider, hprovider, hname ▸ hserved⟩

/-- The signature of a method is what its descriptor stands for. -/
theorem signature_define {host : Host} {d : Descriptor} {c : RuntimeClass} {m : Method}
    (h : define host d = .ok c) (hm : m ∈ c.methods) :
    Signature.parse m.descriptor = .ok m.signature := by
  rcases define_eq_ok h with rfl | ⟨_, file, _, _, hfile⟩
  · contradiction
  · obtain ⟨info, hinfo⟩ := RuntimeClass.mem_methods_ofFile hfile hm
    exact RuntimeClass.bindMethod_signature hinfo

theorem RuntimeClass.DefinedBy.descriptor {c c₀ : RuntimeClass} (h : c.DefinedBy c₀) :
    c.descriptor = c₀.descriptor := by
  rw [h]

theorem RuntimeClass.DefinedBy.superName {c c₀ : RuntimeClass} (h : c.DefinedBy c₀) :
    c.superName = c₀.superName := by
  rw [h]

theorem RuntimeClass.DefinedBy.ownsMethods {c c₀ : RuntimeClass} (h : c.DefinedBy c₀)
    (hc₀ : c₀.OwnsMethods) : c.OwnsMethods := by
  rw [h]
  exact hc₀

theorem RuntimeClass.DefinedBy.of_keeps {c c' c₀ : RuntimeClass} (h : c.DefinedBy c₀)
    (hkeeps : c.Keeps c') : c'.DefinedBy c₀ := by
  rw [DefinedBy] at *
  rw [Keeps] at hkeeps
  rw [hkeeps, h]

namespace ClassTable

/-- The superclasses of a class: all linked, one after the other, up to a class without any. That
there is a derivation says that they are finitely many and that none comes twice. -/
inductive Chain (t : ClassTable) : Descriptor → Prop
  | root {d : Descriptor} {c : RuntimeClass} (hc : t[d]? = some c) (hstate : c.state.IsLinked)
      (hname : c.superName = []) (hsuper : c.superclass = none) : Chain t d
  | up {d : Descriptor} {c : RuntimeClass} (hc : t[d]? = some c) (hstate : c.state.IsLinked)
      (hname : c.superName ≠ []) (hsuper : c.superclass = some (Descriptor.ofInternal c.superName))
      (hrest : Chain t (Descriptor.ofInternal c.superName)) : Chain t d

theorem Chain.linked {t : ClassTable} {d : Descriptor} (h : t.Chain d) : t.Linked d := by
  cases h with
  | root hc hstate _ _ => exact ⟨_, hc, hstate⟩
  | up hc hstate _ _ _ => exact ⟨_, hc, hstate⟩

/-- The superclass of a linked class is linked. -/
theorem Chain.super {t : ClassTable} {d s : Descriptor} {c : RuntimeClass} (h : t.Chain d)
    (hc : t[d]? = some c) (hs : c.superclass = some s) : t.Linked s := by
  cases h with
  | root hc' _ _ hsuper =>
      obtain rfl := Option.some.inj (hc.symm.trans hc')
      rw [hsuper] at hs
      contradiction
  | up hc' _ _ hsuper hrest =>
      obtain rfl := Option.some.inj (hc.symm.trans hc')
      rw [hsuper] at hs
      exact Option.some.inj hs ▸ hrest.linked

/-- Every linked class of the one table is found again in the other. -/
def Persists (t t' : ClassTable) : Prop :=
  ∀ ⦃d : Descriptor⦄ ⦃c : RuntimeClass⦄, t[d]? = some c → c.state.IsLinked →
    ∃ c', t'[d]? = some c' ∧ c.Keeps c' ∧ c'.state.IsLinked

theorem Evolves.persists {t t' : ClassTable} (h : t.Evolves t') : t.Persists t' := by
  intro d c hc hlinked
  obtain ⟨c', hc', hbecame⟩ := h hc
  exact ⟨c', hc', hbecame.keeps, hbecame.state.isLinked hlinked⟩

/-- A chain is found again in a table that continues this one. -/
theorem Chain.persists {t t' : ClassTable} (h : t.Persists t') {d : Descriptor} (hd : t.Chain d) :
    t'.Chain d := by
  induction hd with
  | root hc hstate hname hsuper =>
      obtain ⟨c', hc', hkeeps, hlinked⟩ := h hc hstate
      exact .root hc' hlinked (hkeeps.superName.trans hname) (hkeeps.superclass.trans hsuper)
  | up hc hstate hname hsuper _ ih =>
      obtain ⟨c', hc', hkeeps, hlinked⟩ := h hc hstate
      have hname' := hkeeps.superName
      refine .up hc' hlinked (hname' ▸ hname) ?_ (hname' ▸ ih)
      rw [hkeeps.superclass, hsuper, hname']

/-- What is true of a class table. While classes are being linked, `path` lists those on the way,
innermost first. -/
structure Sound (host : Host) (path : List Descriptor) (t : ClassTable) : Prop where
  defined : ∀ {d c}, t[d]? = some c → ∃ c₀, define host d = .ok c₀ ∧ c.DefinedBy c₀
  linking : ∀ {d c}, t[d]? = some c → c.state = .linking → d ∈ path
  linked : ∀ {d c}, t[d]? = some c → c.state.IsLinked → t.Chain d
  failed : ∀ {d c} {e : Raise}, t[d]? = some c → c.state = .failed (some e) → e.IsLinkError host d

variable {host : Host} {path : List Descriptor} {t t' : ClassTable} {d : Descriptor}

theorem Sound.descriptor (h : t.Sound host path) {d : Descriptor} {c : RuntimeClass}
    (hc : t[d]? = some c) : c.descriptor = d := by
  obtain ⟨c₀, hc₀, hdefined⟩ := h.defined hc
  rw [hdefined.descriptor, (isNew_define hc₀).descriptor]

theorem Sound.ownsMethods (h : t.Sound host path) {d : Descriptor} {c : RuntimeClass}
    (hc : t[d]? = some c) : c.OwnsMethods := by
  obtain ⟨c₀, hc₀, hdefined⟩ := h.defined hc
  exact hdefined.ownsMethods (isNew_define hc₀).ownsMethods

theorem Sound.signature (h : t.Sound host path) {d : Descriptor} {c : RuntimeClass} {m : Method}
    (hc : t[d]? = some c) (hm : m ∈ c.methods) : Signature.parse m.descriptor = .ok m.signature := by
  obtain ⟨c₀, hc₀, hdefined⟩ := h.defined hc
  rw [hdefined] at hm
  exact signature_define hc₀ hm

/-- The record of a type has its internal name. -/
theorem Sound.name (h : t.Sound host path) {d : Descriptor} {c : RuntimeClass}
    (hc : t[d]? = some c) : c.name = Descriptor.className d := by
  obtain ⟨c₀, hc₀, hdefined⟩ := h.defined hc
  rw [← define_name hc₀, hdefined]

/-- The superclass of a linked class is the one that its definition names. -/
theorem Sound.superclass (h : t.Sound host path) {d : Descriptor} {c c₀ : RuntimeClass}
    (hc : t[d]? = some c) (hlinked : c.state.IsLinked) (hc₀ : define host d = .ok c₀) :
    c.superclass =
      if c₀.superName = [] then none else some (Descriptor.ofInternal c₀.superName) := by
  obtain ⟨c₁, hc₁, hdefined⟩ := h.defined hc
  obtain rfl := Except.ok.inj (hc₀.symm.trans hc₁)
  rw [← hdefined.superName]
  cases h.linked hc hlinked with
  | root hc' _ hname hsuper =>
      obtain rfl := Option.some.inj (hc.symm.trans hc')
      rw [hsuper, if_pos hname]
  | up hc' _ hname hsuper _ =>
      obtain rfl := Option.some.inj (hc.symm.trans hc')
      rw [hsuper, if_neg hname]

/-- Classes of one name that come from files come from the same, and so have the same superclass. -/
theorem Sound.superclass_eq (h : t.Sound host path) {d d' : Descriptor} {c c' : RuntimeClass}
    (hc : t[d]? = some c) (hc' : t[d']? = some c') (hlinked : c.state.IsLinked)
    (hlinked' : c'.state.IsLinked) (hname : c.name = c'.name) (hfile : c.file.isSome = true)
    (hfile' : c'.file.isSome = true) : c.superclass = c'.superclass := by
  obtain ⟨file, hfile⟩ := Option.isSome_iff_exists.mp hfile
  obtain ⟨file', hfile'⟩ := Option.isSome_iff_exists.mp hfile'
  obtain ⟨c₀, hc₀, hdefined⟩ := h.defined hc
  obtain ⟨c₁, hc₁, hdefined'⟩ := h.defined hc'
  have hname₀ : c.name = c₀.name := by rw [hdefined]
  have hname₁ : c'.name = c₁.name := by rw [hdefined']
  obtain ⟨hsuper, provider, hprovider, hserved⟩ :=
    define_file hc₀ (hfile ▸ (congrArg RuntimeClass.file hdefined).symm)
  obtain ⟨hsuper', provider', hprovider', hserved'⟩ :=
    define_file hc₁ (hfile' ▸ (congrArg RuntimeClass.file hdefined').symm)
  obtain rfl := Option.some.inj (hprovider.symm.trans hprovider')
  rw [← hname₀, hname, hname₁, hserved'] at hserved
  obtain rfl := Except.ok.inj hserved
  rw [h.superclass hc hlinked hc₀, h.superclass hc' hlinked' hc₁, hsuper, hsuper']

/-- Outside of linking no class is being linked. -/
theorem Sound.not_linking (h : t.Sound host []) {d : Descriptor} {c : RuntimeClass}
    (hc : t[d]? = some c) : c.state ≠ .linking :=
  fun hstate => List.not_mem_nil (h.linking hc hstate)

/-- A linked class does not lead into a cycle: its chain would have to go on for ever. -/
theorem Sound.not_leadsIntoCycle (h : t.Sound host path) {d : Descriptor} (hd : t.Chain d) :
    ¬LeadsIntoCycle host d := by
  induction hd with
  | @root d c hc _ hname _ =>
      obtain ⟨c₀, hc₀, hdefined⟩ := h.defined hc
      apply ClassEngine.not_leadsIntoCycle
      rintro s ⟨c₁, hc₁, hne, _⟩
      obtain rfl : c₀ = c₁ := Except.ok.inj (hc₀.symm.trans hc₁)
      exact hne (hdefined.superName.symm.trans hname)
  | @up d c hc _ hname _ _ ih =>
      obtain ⟨c₀, hc₀, hdefined⟩ := h.defined hc
      have hfollows : Follows host d (Descriptor.ofInternal c.superName) :=
        ⟨c₀, hc₀, hdefined.superName ▸ hname, by rw [hdefined.superName]⟩
      rw [hfollows.leadsIntoCycle_iff]
      exact ih

/-- A table without classes. -/
theorem sound_empty (host : Host) : ClassTable.Sound host [] {} where
  defined h := by simp at h
  linking h := by simp at h
  linked h := by simp at h
  failed h := by simp at h

/-- A sound table stays sound when only linked classes move on. -/
theorem Sound.of_persists (h : t.Sound host path) (hpersists : t.Persists t')
    (hold : ∀ {d : Descriptor} {c' : RuntimeClass}, t'[d]? = some c' → ∃ c, t[d]? = some c ∧
      c.Keeps c' ∧ (c'.state = c.state ∨ c.state.IsLinked ∧ c'.state.IsLinked)) :
    t'.Sound host path where
  defined hc' := by
    obtain ⟨c, hc, hkeeps, _⟩ := hold hc'
    obtain ⟨c₀, hc₀, hdefined⟩ := h.defined hc
    exact ⟨c₀, hc₀, hdefined.of_keeps hkeeps⟩
  linking hc' hstate := by
    obtain ⟨c, hc, _, hsame | ⟨_, hlinked⟩⟩ := hold hc'
    · exact h.linking hc (hsame ▸ hstate)
    · rw [hstate] at hlinked
      exact hlinked.elim
  linked hc' hstate := by
    obtain ⟨c, hc, _, hsame | ⟨hlinked, _⟩⟩ := hold hc'
    · exact (h.linked hc (hsame ▸ hstate)).persists hpersists
    · exact (h.linked hc hlinked).persists hpersists
  failed hc' hstate := by
    obtain ⟨c, hc, _, hsame | ⟨_, hlinked⟩⟩ := hold hc'
    · exact h.failed hc (hsame ▸ hstate)
    · rw [hstate] at hlinked
      exact hlinked.elim

/-- A class is entered in the table and is on the way from then on. -/
theorem Sound.enter (h : t.Sound host path) {d : Descriptor} {c c₀ : RuntimeClass}
    (hd : t[d]? = none) (hc₀ : define host d = .ok c₀) (hdefined : c.DefinedBy c₀)
    (hstate : c.state = .linking) : ClassTable.Sound host (d :: path) (t.insert d c) where
  defined {k c'} hc' := by
    rw [getElem?_insert] at hc'
    split at hc'
    case isTrue hk =>
      obtain rfl := Option.some.inj hc'
      exact ⟨c₀, hk ▸ hc₀, hdefined⟩
    case isFalse => exact h.defined hc'
  linking {k c'} hc' hlinking := by
    rw [getElem?_insert] at hc'
    split at hc'
    case isTrue hk => exact hk ▸ List.mem_cons_self
    case isFalse => exact List.mem_cons_of_mem d (h.linking hc' hlinking)
  linked {k c'} hc' hlinked := by
    rw [getElem?_insert] at hc'
    split at hc'
    case isTrue hk =>
      obtain rfl := Option.some.inj hc'
      rw [hstate] at hlinked
      exact hlinked.elim
    case isFalse => exact (h.linked hc' hlinked).persists (evolves_insert hd c).persists
  failed {k c' e} hc' hfailed := by
    rw [getElem?_insert] at hc'
    split at hc'
    case isTrue hk =>
      obtain rfl := Option.some.inj hc'
      rw [hstate] at hfailed
      contradiction
    case isFalse => exact h.failed hc' hfailed

/-- A change of the record of a class that is not linked. -/
theorem persists_modify {d : Descriptor} {c : RuntimeClass} (hc : t[d]? = some c)
    (hstate : ¬c.state.IsLinked) (f : RuntimeClass → RuntimeClass) : t.Persists (t.modify d f) := by
  intro k c' hc' hlinked
  rw [getElem?_modify]
  by_cases hk : d = k
  · rw [← hk, hc] at hc'
    obtain rfl := Option.some.inj hc'
    exact absurd hlinked hstate
  · rw [if_neg hk]
    exact ⟨c', hc', rfl, hlinked⟩

/-- The class that was entered last leaves the way. -/
theorem Sound.leave (h : t.Sound host (d :: path)) {c : RuntimeClass}
    {f : RuntimeClass → RuntimeClass} (hc : t[d]? = some c) (hstate : c.state = .linking)
    (hdefined : ∀ c₀, c.DefinedBy c₀ → (f c).DefinedBy c₀) (hdone : (f c).state ≠ .linking)
    (hlinked : (f c).state.IsLinked → ClassTable.Chain (t.modify d f) d)
    (hfailed : ∀ e, (f c).state = .failed (some e) → e.IsLinkError host d) :
    ClassTable.Sound host path (t.modify d f) := by
  have hfc : (t.modify d f)[d]? = some (f c) := by rw [getElem?_modify, if_pos rfl, hc]; rfl
  have hother : ∀ {k}, d ≠ k → (t.modify d f)[k]? = t[k]? := by
    intro k hk
    exact getElem?_modify_of_ne (Ne.symm hk) f
  have hpersists := persists_modify hc (by rw [hstate]; exact id) f
  refine ⟨?_, ?_, ?_, ?_⟩
  · intro k c' hc'
    by_cases hk : d = k
    · subst hk
      obtain rfl := Option.some.inj (hfc.symm.trans hc')
      obtain ⟨c₀, hc₀, hd⟩ := h.defined hc
      exact ⟨c₀, hc₀, hdefined c₀ hd⟩
    · exact h.defined (hother hk ▸ hc')
  · intro k c' hc' hlinking
    by_cases hk : d = k
    · subst hk
      obtain rfl := Option.some.inj (hfc.symm.trans hc')
      exact absurd hlinking hdone
    · exact (List.mem_cons.mp (h.linking (hother hk ▸ hc') hlinking)).resolve_left (Ne.symm hk)
  · intro k c' hc' hstate'
    by_cases hk : d = k
    · subst hk
      obtain rfl := Option.some.inj (hfc.symm.trans hc')
      exact hlinked hstate'
    · exact (h.linked (hother hk ▸ hc') hstate').persists hpersists
  · intro k c' e hc' hstate'
    by_cases hk : d = k
    · subst hk
      obtain rfl := Option.some.inj (hfc.symm.trans hc')
      exact hfailed e hstate'
    · exact h.failed (hother hk ▸ hc') hstate'

end ClassTable

end ClassEngine
