import ClassEngine.Proofs.Engine.ArrayWrites
import ClassEngine.Proofs.Engine.FieldStorage
import ClassEngine.Proofs.Engine.Strings

/-!
The contents of canonical strings. When a string becomes the canonical one of a text it has the text as
its contents, and it keeps them unless its array is written to. But its own accessor hands that array out,
and so a program can write to it. Main results: `canonical_strings_keep_contents`, and
`canonical_string_is_overwritten`.
-/

namespace ClassEngine

open Machine Exec Allocation

/-- At the moment an instance of the class of strings keeps a text in an array of bytes. -/
structure Moment.IsString (s : Moment) (r a : Ref) (t : Text) : Prop where
  string : ∃ o, s.heap[r.number - 1]? = some o ∧ o.type = Descriptor.string ∧ o.storage = false ∧
    o.getField Library.stringName "value" = .ref a
  bytes : ∃ o, s.heap[a.number - 1]? = some o ∧ o.type = "[B" ∧ o.bytes = t

/-- At the moment something is about to be stored in the string, or to be written to its array. -/
def Moment.Alters (s : Moment) (r a : Ref) : Prop :=
  s.storedIn (r.number - 1) ⟨Library.stringName, "value"⟩ ≠ none ∨ s.WritesTo (a.number - 1)

section Keeping

variable {s s₀ : Moment} {between : List Moment} {r a : Ref} {t : Text}

/-- A string has the contents that it had if no moment in between alters it. -/
theorem Moment.IsString.of_chain (h : s₀.IsString r a t)
    (hslots : (s :: (between ++ [s₀])).IsChain fun later earlier => earlier.LeadsTo later)
    (helements : (s :: (between ++ [s₀])).IsChain fun later earlier =>
      HeapKeeps earlier.WritesTo earlier.heap later.heap)
    (hkept : ∀ e ∈ between ++ [s₀], ¬e.Alters r a) : s.IsString r a t := by
  obtain ⟨o₀, ho₀, htype₀, hinstance₀, hvalue⟩ := h.string
  obtain ⟨b₀, hb₀, hbytes₀, rfl⟩ := h.bytes
  obtain ⟨o, ho, hinstance, hslot⟩ := slot_of_chain hslots ho₀ hinstance₀
  obtain ⟨o', ho', htype, -⟩ := elements_of_chain helements ho₀
  obtain ⟨b, hb, hbtype, hcontents⟩ := elements_of_chain helements hb₀
  obtain rfl := Option.some.inj (ho.symm.trans ho')
  have hnothing : lastStored (between ++ [s₀]) (r.number - 1) ⟨Library.stringName, "value"⟩ = none :=
    List.findSome?_eq_none_iff.mpr fun e he => not_not.mp fun hne => hkept e he (.inl hne)
  have hsame : b.elements = b₀.elements :=
    hcontents ⟨.byte, hbytes₀⟩ fun e he hwrites => hkept e he (.inr hwrites)
  refine ⟨⟨o, ho, htype.trans htype₀, hinstance, ?_⟩, ⟨b, hb, hbtype.trans hbytes₀, ?_⟩⟩
  · rw [Object.getField, hslot, hnothing, Option.none_or]
    exact hvalue
  · rw [Object.bytes, hsame, Object.bytes]

end Keeping

section Making

variable (host : Host) (steps nesting : Nat) {m m' : Machine} {r a : Ref} {t : Text}

theorem Moment.IsString.machine (h : m.moment.IsString r a t) : m.IsString r a t := by
  obtain ⟨o, ho, htype, -, hvalue⟩ := h.string
  exact ⟨⟨o, ho, htype, hvalue⟩, h.bytes⟩

theorem Moment.IsString.of_heap {s s' : Moment} (h : s.IsString r a t) (hheap : s'.heap = s.heap) :
    s'.IsString r a t := by
  obtain ⟨hstring, hbytes⟩ := h
  rw [← hheap] at hstring hbytes
  exact ⟨hstring, hbytes⟩

/-- A string that is made for a text keeps it. -/
theorem internText_makes (hstrings : m.HasStrings)
    (hroom : ((depthOf m.frames + 2 : Nat) : Int) ≤ m.maxDepth) (hsmall : t.length < 2147483648)
    (hnone : m.interned[t]? = none) :
    ∃ r a heap m', internText t (Session.context host (steps + 18) (nesting + 3)) m = .ok (.ref r) m' ∧
      m'.interned[t]? = some (.ref r) ∧ m'.moment.IsString r a t ∧
      ({ m with heap, interned := m.interned.insert t (.ref r) } : Machine).Resembles m' := by
  obtain ⟨bytes, slots, m₁, hnew, rfl, hm₁⟩ := newString_runs host steps nesting t hstrings hroom hsmall
  have hheap : m₁.heap = addString (m.heap.push bytes) slots bytes.elements := hm₁.heap
  have hsize : (m.heap.push bytes).size = m.heap.size + 1 := Array.size_push bytes
  have hstring : m₁.heap[(m.heap.push bytes).size]? = _ := hheap ▸ addString_string
  have harray : m₁.heap[(m.heap.push bytes).size + 1]? = _ := hheap ▸ addString_bytes
  rw [hsize] at hstring harray
  have hsame := hm₁.withInterned (m.interned.insert bytes.bytes (.ref ⟨m.heap.size + 2⟩))
  have hintern := internText_of_newString hnone hnew
  rw [hm₁.interned] at hintern
  exact ⟨_, ⟨m.heap.size + 3⟩, _, _, hintern, Std.HashMap.getElem?_insert_self,
    ⟨⟨_, hstring, rfl, rfl, Object.getField_setField _ _ _ _⟩, ⟨_, harray, rfl, rfl⟩⟩, hsame⟩

/-- A string that is there becomes the canonical one of its contents, if there is none. -/
theorem intern_enters (hstrings : m.HasStrings)
    (hroom : ((depthOf m.frames + 1 : Nat) : Int) ≤ m.maxDepth) (h : m.moment.IsString r a t)
    (hnone : m.interned[t]? = none) :
    ∃ m', intern (.ref r) (Session.context host (steps + 3) (nesting + 2)) m = .ok (.ref r) m' ∧
      m'.interned[t]? = some (.ref r) ∧ m'.moment.IsString r a t := by
  let ctx := Session.context host (steps + 3) (nesting + 2)
  obtain ⟨m₁, hread, hm₁⟩ := hostText_of_isString host steps nesting hstrings hroom h.machine
  have hget : (get : Exec Machine) ctx m₁ = .ok m₁ m₁ := rfl
  have hnone₁ : m₁.interned[t]? = none := hm₁.interned ▸ hnone
  refine ⟨{ m₁ with interned := m₁.interned.insert t (.ref r) }, ?_,
    Std.HashMap.getElem?_insert_self, h.of_heap hm₁.heap⟩
  rw [intern, bind_of_ok hread, bind_of_ok hget, hnone₁]
  rfl

end Making

section Keeper

open Linking Resolution Interpreter

/-- A class of strings whose constructor keeps the array that it is given. -/
def keeperFile : ClassFile where
  minor := 0
  major := 52
  pool := #[.blank, .utf8 "java/lang/String", .link .classRef 1 0, .utf8 "value", .utf8 "[B",
    .link .nameAndType 3 4, .link .fieldref 2 5]
  flags := ⟨0x21⟩
  name := "java/lang/String"
  superName := []
  interfaces := []
  fields := [⟨"value", "[B", ⟨2⟩, 0⟩]
  methods := [⟨"<init>", "([B)V", ⟨1⟩, some ⟨2, 2, #[0x2A, 0x2B, 0xB5, 0, 6, 0xB1], [], []⟩, []⟩]
  sourceFile := []

/-- A host with a root class and this class of strings. -/
def keeperHost : Host where
  provider := some fun name =>
    if name = "java/lang/Object" then .ok objectFile
    else if name = "java/lang/String" then .ok keeperFile
    else .error "not found"
  currentTimeMillis := 0
  nanoTime := 0

def keeping : Method :=
  ⟨Descriptor.string, "java/lang/String", "<init>", "([B)V", ⟨1⟩,
    some ⟨2, 2, #[0x2A, 0x2B, 0xB5, 0, 6, 0xB1], [], []⟩, ⟨["[B"], "V", "([B)V"⟩, keeperFile⟩

/-- The record of the class once it is loaded. -/
def keeper : RuntimeClass :=
  { RuntimeClass.bare Descriptor.string with
    superName := []
    flags := ⟨0x21⟩
    file := some keeperFile
    fields := [⟨"value", "[B", ⟨2⟩, 0⟩]
    methods := [keeping]
    statics := some ⟨1⟩
    state := .initialized }

def valueOfString : MemberRef :=
  ⟨"java/lang/String", "value", "[B"⟩

/-- An activation of the constructor in which the instruction at an address comes next. -/
def keepingFrame (r a : Ref) (stack : List Value) (pc opPc : Int) : Frame :=
  ⟨keeping, 1, stack, #[.ref r, .ref a], pc, opPc⟩

variable {m : Machine} {r a : Ref}

/-- The last instruction of the constructor writes to no array. -/
theorem not_writesTo_keepingFrame (b : Ref) : ¬(keepingFrame r a [] 5 2).WritesTo b := by
  have hnative : keeping.isNative = false := by decide
  intro hwrites
  cases hwrites with
  | instruction _ _ _ hstack => exact absurd hstack nofun
  | native hyes _ => exact Bool.false_ne_true (hnative.symm.trans hyes)

/-- The constructor, with the moment before its last instruction. -/
theorem keeping_runs (hm : m.frames = [keepingFrame r a [] 0 0])
    (hc : m.classes[Descriptor.string]? = some keeper) :
    ∃ m' s, execute (Session.context keeperHost 9 8) m = .ok .null m' ∧
      m'.moments.val.head? = some s ∧ m'.heap = s.heap ∧
      s.heap = m.heap.modify (r.number - 1) (fun o => o.setField "java/lang/String" "value" (.ref a)) ∧
      s.access = none ∧ s.frames = [keepingFrame r a [] 5 2] := by
  let ctx := Session.context keeperHost 9 8
  let noted (m : Machine) (g : Frame) : Machine :=
    { m.note (.executing Descriptor.string) with frames := [g] }
  let m₁ : Machine := noted m (keepingFrame r a [.ref r] 1 0)
  let m₂ : Machine := noted m₁ (keepingFrame r a [.ref a, .ref r] 2 1)
  let m₃ : Machine := (noted m₂ (keepingFrame r a [] 5 2)).storingOwn keeper valueOfString r (.ref a)
  let m₄ : Machine := noted m₃ (keepingFrame r a [] 6 5)
  have hload₀ : Step.execute .aload0 = Step.load 0 := rfl
  have hload₁ : Step.execute .aload1 = Step.load 1 := rfl
  have hfirst : advance ctx m = .ok .next m₁ := advance_inFrame (p := 0) hm rfl rfl hload₀ rfl
  have hframes₁ : m₁.frames = [keepingFrame r a [.ref r] 1 0] := rfl
  have hsecond : advance ctx m₁ = .ok .next m₂ :=
    advance_inFrame (p := 1) hframes₁ rfl rfl hload₁ rfl
  have hframes₂ : m₂.frames = [keepingFrame r a [.ref a, .ref r] 2 1] := rfl
  have hbytes : Stands (keepingFrame r a [] 2 1).bytecode 2 [0xB5, 0, 6] :=
    stands_cons.mpr ⟨rfl, stands_cons.mpr ⟨rfl, stands_cons.mpr ⟨rfl, stands_nil⟩⟩⟩
  have hmember : (keepingFrame r a [] 2 1).method.file.memberRef 6 =
      .ok (valueOfString.owner, valueOfString.name, valueOfString.descriptor) := rfl
  have hc₂ : m₂.classes[Descriptor.ofInternal valueOfString.owner]? = some keeper := hc
  have hthird : advance ctx m₂ = .ok .next m₃ :=
    (advance_putField (i := 6) hframes₂ rfl hbytes rfl hmember hc₂ rfl rfl rfl
      Std.HashMap.getElem?_empty rfl).trans rfl
  have hframes₃ : m₃.frames = [keepingFrame r a [] 5 2] := rfl
  have hbyte : (keepingFrame r a [] 5 2).bytecode[5]? = some Opcode.returnVoid.byte := rfl
  have hreturn : advance ctx m₃ = .ok (.result .null) m₄ := advance_execute hframes₃ rfl hbyte rfl
  have hruns : Runs ctx 3 m m₃ := .step hfirst (.step hsecond (.step hthird (.refl _)))
  have hheap : m₃.heap = m.heap.modify (r.number - 1) fun o =>
      o.setField "java/lang/String" "value" (.ref a) := by
    rw [storingOwn_heap]
    dsimp only [m₂, m₁, noted, Machine.note, Machine.mark]
    rfl
  have hlast : m₄.heap = m₃.heap := by
    dsimp only [m₄, noted, Machine.note, Machine.mark]
  refine ⟨m₄, m₃.moment, execute_returns hruns (by decide) hreturn, ?_, hlast, hheap, rfl, rfl⟩
  exact congrArg List.head? (note_moments (.executing Descriptor.string) m₃)

/-- A string is made that keeps the array. -/
theorem construct_keeps (hc : m.classes[Descriptor.string]? = some keeper) (hframes : m.frames = [])
    (hprofiler : m.profiler = none) (hlimit : 1 ≤ m.maxDepth) (a : Ref) :
    ∃ slots m' s, construct keeper "([B)V" [.ref a] (Session.context keeperHost 9 9) m =
        .ok ⟨m.heap.size + 1⟩ m' ∧ m'.moments.val.head? = some s ∧ m'.heap = s.heap ∧
      s.heap = m.heap.push (({ Object.empty Descriptor.string with fields := slots }).setField
        "java/lang/String" "value" (.ref a)) ∧
      s.access = none ∧ s.frames = [keepingFrame ⟨m.heap.size + 1⟩ a [] 5 2] := by
  let ctx := Session.context keeperHost 9 9
  obtain ⟨records, hancestry, -⟩ : ∃ records, ancestry Descriptor.string ctx m = .ok records m ∧ _ :=
    ancestryWithin_of_ancestry (.root hc rfl) (by decide)
  obtain ⟨slots, hinstance⟩ := instanceOfChain_eq Descriptor.string records
  let r : Ref := ⟨m.heap.size + 1⟩
  let o : Object := { Object.empty Descriptor.string with fields := slots }
  let made : Machine := Machine.markAccess (.made r Descriptor.string) { m with heap := m.heap.push o }
  let entered : Machine := { made with frames := [keepingFrame r a [] 0 0] }
  have hnew : newObject keeper.descriptor ctx m = .ok r made := by
    rw [show keeper.descriptor = Descriptor.string from rfl, newObject_of_ancestry hancestry, hinstance]
  obtain ⟨m', s, hexecute, hs, hheap, hstored, haccess, hsframes⟩ : ∃ m' s,
      execute (Session.context keeperHost 9 8) entered = .ok .null m' ∧ _ := keeping_runs rfl hc
  have hcode : (keeping.code.elim 0 fun c => c.bytecode.size) ≠ 0 := by decide
  have hprofile : profile keeping (Session.context keeperHost 9 8) entered = .ok () entered :=
    profile_off hprofiler
  have hbody : runBody keeping #[.ref r, .ref a] (Session.context keeperHost 9 8)
      { made with frames := Frame.enter keeping #[.ref r, .ref a] made.frames :: made.frames } =
        .ok .null m' := by
    rw [show made.frames = [] from hframes]
    exact (runBody_of_code rfl hcode hprofile).trans hexecute
  have hroom : ((depthOf made.frames + 1 : Nat) : Int) ≤ made.maxDepth := by
    rw [show made.frames = [] from hframes]
    exact hlimit
  have hcall : invokeMethod keeping [.ref r, .ref a] ctx made =
      .ok .null { m' with frames := made.frames } :=
    invokeMethod_of_body rfl hroom rfl hbody
  have hmethod : keeper.declaredMethod? MemberRef.constructorName "([B)V" = some keeping := rfl
  refine ⟨slots, { m' with frames := made.frames }, s, ?_, hs, hheap, ?_, haccess, hsframes⟩
  · unfold construct
    rw [hmethod]
    exact (bind_of_ok hnew).trans (bind_of_ok hcall)
  · rw [hstored]
    exact modify_push m.heap o _

/-- A text is evaluated to a string that keeps the array of its bytes. -/
theorem internText_keeps (hc : m.classes[Descriptor.string]? = some keeper) (hroot : m.HasRoot)
    (hbytes : m.classes[("[B" : Text)]? = none) (hnone : m.interned[("A" : Text)]? = none)
    (hframes : m.frames = []) (hprofiler : m.profiler = none) (hlimit : 1 ≤ m.maxDepth) :
    ∃ r a m' s, internText "A" (Session.context keeperHost 9 9) m = .ok (.ref r) m' ∧
      m'.interned[("A" : Text)]? = some (.ref r) ∧ m'.moments.val.head? = some s ∧
      s.IsString r a "A" ∧ ¬s.Alters r a := by
  let ctx := Session.context keeperHost 9 9
  obtain ⟨k, m₁, hclass, hk, -, -, hrest, hkept⟩ :=
    classFor_array keeperHost "[B" hroot hbytes rfl rfl 7 7
  have hsame : m₁.frames = [] ∧ m₁.profiler = none ∧ m₁.maxDepth = m.maxDepth := by
    rw [hrest]
    exact ⟨hframes, hprofiler, rfl⟩
  let m₂ : Machine := { m₁ with heap := m₁.heap.push (byteArray k "A") }
  have hc₂ : m₂.classes[Descriptor.string]? = some keeper := (hkept _ (by decide)).trans hc
  have hload : loadClass "java/lang/String" ctx m₂ = .ok keeper m₂ := by
    rw [loadClass, ofInternal_string]
    exact classFor_initialized keeperHost 8 8 hc₂ rfl
  obtain ⟨slots, m₃, s, hconstruct, hs, -, hheap, haccess, hsframes⟩ :=
    construct_keeps hc₂ hsame.1 hsame.2.1 (hlimit.trans hsame.2.2.ge) ⟨m₁.heap.size + 1⟩
  have hmade : newString "A" ctx m = .ok ⟨m₂.heap.size + 1⟩ m₃ := by
    rw [newString, bind_of_ok (newArrayOf_bytes "A" hclass), bind_of_ok hload]
    exact hconstruct
  obtain ⟨o, ho, htype, hinstance, hvalue⟩ : ∃ o, s.heap[m₂.heap.size]? = some o ∧
      o.type = Descriptor.string ∧ o.storage = false ∧ o.getField Library.stringName "value" = _ :=
    ⟨_, hheap ▸ Array.getElem?_push_size, rfl, rfl, Object.getField_setField _ _ _ _⟩
  have harray : s.heap[m₁.heap.size]? = some (byteArray k "A") := by
    rw [hheap, Array.getElem?_push_lt (by simp [m₂])]
    simp [m₂]
  refine ⟨_, ⟨m₁.heap.size + 1⟩, _, s, internText_of_newString hnone hmade,
    Std.HashMap.getElem?_insert_self, hs, ⟨⟨o, ho, htype, hinstance, hvalue⟩,
      ⟨_, harray, hk, byteArray_bytes k "A"⟩⟩, ?_⟩
  rintro (hstored | ⟨-, f, b, hf, hwrites, -⟩)
  · rw [Moment.storedIn, haccess] at hstored
    contradiction
  · rw [hsframes] at hf
    obtain rfl := Option.some.inj hf
    exact not_writesTo_keepingFrame b hwrites

/-- The class of strings and the root class are loaded, and a text is evaluated. -/
theorem keeperHost_interns : ∃ (m : Machine) (s : Moment) (earlier : List Moment) (r a : Ref),
    Watched keeperHost (fun request _ => ¬request.SetsField ∧ ¬request.SetsElement) m ∧
    m.moments.val = s :: earlier ∧ m.interned[("A" : Text)]? = some (.ref r) ∧
    s.IsString r a "A" ∧ ¬s.Alters r a := by
  have hdefine : define keeperHost Descriptor.string =
      .ok { keeper with statics := none, state := .linking } := rfl
  have hquiet : RuntimeClass.IsQuiet { keeper with statics := none, state := .linking } := by
    refine ⟨fun file hfile => ?_, rfl⟩
    obtain rfl := Option.some.inj hfile
    simp [keeperFile]
  obtain ⟨m, hused, hc, hnone, hfresh⟩ := used_of_first
    (fun request _ => ¬request.SetsField ∧ ¬request.SetsElement) ofInternal_string hdefine rfl rfl hquiet
    ⟨not_false, not_false⟩
  let entered : Machine := Machine.withClasses
    { m with heap := m.heap.push (staticStorage Descriptor.object objectFile) }
    (m.classes.insert Descriptor.object { objectClass with statics := some ⟨m.heap.size + 1⟩ })
  have henter : enter Descriptor.object objectClass (Session.context keeperHost 9 9) m =
      .ok () entered := by
    rw [enter_of_file rfl]
    rfl
  have hobject : define keeperHost Descriptor.object = .ok objectClass := rfl
  obtain ⟨c, m₁, hclass, rfl, hrest, hroot, hother⟩ := classFor_quiet (hnone Descriptor.object (by decide))
    hobject henter Std.HashMap.getElem?_insert_self rfl
    ⟨objectClass_isQuiet.constants, objectClass_isQuiet.initializer⟩ (absurd rfl)
  have hkept : ∀ d, d ≠ Descriptor.object → m₁.classes[d]? = m.classes[d]? := fun d hd => by
    rw [hother d hd, withClasses_classes, ClassTable.getElem?_insert, if_neg hd.symm]
  have hload : Session.runWithin keeperHost 9 9 (Request.perform (.loadClass "java/lang/Object")) m =
      .ok () m₁ := by
    rw [Session.runWithin, Request.perform, loadClass, ofInternal_object, discard_of_ok hclass]
  have hsame : entered.interned = ∅ ∧ entered.frames = [] ∧ entered.profiler = none ∧
      entered.maxDepth = Session.defaultDepth := by
    change m.interned = ∅ ∧ m.frames = [] ∧ m.profiler = none ∧ m.maxDepth = _
    rw [hfresh]
    exact ⟨rfl, rfl, rfl, rfl⟩
  have hsame₁ : m₁.interned = ∅ ∧ m₁.frames = [] ∧ m₁.profiler = none ∧
      m₁.maxDepth = Session.defaultDepth := by
    rw [hrest]
    exact hsame
  obtain ⟨hinterned, hframes, hprofiler, hlimit⟩ := hsame₁
  obtain ⟨r, a, m₂, s, hrun, hentry, hs, hstring, hspared⟩ := internText_keeps
    ((hkept _ (by decide)).trans hc) ⟨_, hroot, rfl⟩ ((hkept _ (by decide)).trans (hnone _ (by decide)))
    (by rw [hinterned, Std.HashMap.getElem?_empty]) hframes hprofiler (by rw [hlimit]; decide)
  have hintern : Session.runWithin keeperHost 9 9 (Request.perform (.internText "A")) m₁ =
      .ok () m₂ := by
    rw [Session.runWithin, Request.perform, discard_of_ok hrun]
  obtain ⟨earlier, hearlier⟩ := List.head?_eq_some_iff.mp hs
  have hm₁ := hused.ask (.loadClass "java/lang/Object") ⟨not_false, not_false⟩ hload
  have hm₂ := hm₁.ask (.internText "A") ⟨not_false, not_false⟩ hintern
  exact ⟨m₂, s, earlier, r, a, .idle hm₂, hearlier, hentry, hstring, hspared⟩

end Keeper

section Scribbler

open Interpreter

/-- A class with a method that overwrites the first byte of a string, in the array that its accessor hands
out. -/
def scribbler : ClassSource :=
  Library.describe "Scribbler" Library.objectName Library.openClass [] [] [
    Library.method Library.publicStatic "scribble" ("(" ++ Library.stringType ++ ")V") 3 1 [
      .plain .aload0, .invoke .invokevirtual Library.stringName "getBytes" "()[B",
      .plain .iconst0, .u1 .bipush 88, .plain .bastore, .plain .returnVoid]]

def scribble : MethodSource :=
  scribbler.methods.get ⟨0, by decide⟩

theorem exists_scribble : ∃ method : Method, method.IsDescribedBy scribbler scribble := by
  have hstraight : ∀ m ∈ scribbler.methods, m.body.isStraight = true := by decide +kernel
  obtain ⟨c, hintact⟩ := ClassSource.exists_intact
    (ClassSource.build_succeeds fun m hm => ClassSource.addMethod_succeeds (hstraight m hm))
    (by decide +kernel) (by decide +kernel) (by decide +kernel)
  obtain ⟨method, -, hdescribed⟩ := hintact.built.declaredMethod?
    ⟨by decide +kernel, by decide +kernel, by decide +kernel⟩ (m := scribble) List.mem_cons_self
  exact ⟨method, hdescribed⟩

variable (host : Host) (steps nesting : Nat) {m : Machine} {r a : Ref} {t : Text} {method : Method}

/-- The first byte of a text is overwritten in its array. -/
theorem bytes_setFirst {o : Object} {b : UInt8} (ho : o.bytes = b :: t) (x : Int32) :
    { o with elements := o.elements.setIfInBounds 0 (.int x) : Object }.bytes =
      x.toUInt32.toUInt8 :: t := by
  obtain ⟨type, fields, ⟨vs⟩, payload, storage⟩ := o
  cases vs with
  | nil => exact absurd ho nofun
  | cons v vs => exact congrArg (_ :: ·) (List.cons.inj ho).2

/-- The string has other contents then. -/
theorem Moment.IsString.setFirst {s : Moment} {b : UInt8} (h : s.IsString r a (b :: t)) (x : Int32) :
    Moment.IsString { s with heap := s.heap.modify (a.number - 1) fun o => { o with
      elements := o.elements.setIfInBounds 0 (.int x) } } r a (x.toUInt32.toUInt8 :: t) := by
  obtain ⟨o, ho, htype, hinstance, hvalue⟩ := h.string
  obtain ⟨bytes, hbytes, hbytesType, hcontents⟩ := h.bytes
  have hne : a.number - 1 ≠ r.number - 1 := by
    intro hsame
    obtain rfl := Option.some.inj (ho.symm.trans (hsame ▸ hbytes))
    exact absurd (htype.symm.trans hbytesType) (by decide)
  let f (o : Object) : Object := { o with elements := o.elements.setIfInBounds 0 (.int x) }
  have hstring : (s.heap.modify (a.number - 1) f)[r.number - 1]? = some o := by
    rw [Array.getElem?_modify, if_neg hne, ho]
  have harray : (s.heap.modify (a.number - 1) f)[a.number - 1]? = some (f bytes) := by
    rw [Array.getElem?_modify, if_pos rfl, hbytes]
    rfl
  exact ⟨⟨o, hstring, htype, hinstance, hvalue⟩, ⟨_, harray, hbytesType, bytes_setFirst hcontents x⟩⟩

theorem scribble_runs (hdescribed : method.IsDescribedBy scribbler scribble) (hstrings : m.HasStrings)
    (hroom : ((depthOf m.frames + 2 : Nat) : Int) ≤ m.maxDepth) {b : UInt8}
    (h : m.moment.IsString r a (b :: t)) :
    ∃ heap m', invokeMethod method [.ref r] (Session.context host (steps + 6) (nesting + 3)) m =
        .ok .null m' ∧ ({ m with heap } : Machine).Resembles m' ∧ m'.moment.IsString r a (88 :: t) := by
  obtain ⟨o, ho, htype, hinstance, hvalue⟩ := h.string
  obtain ⟨bytes, hbytes, hbytesType, hcontents⟩ := h.bytes
  have hlocals : layoutLocals method [.ref r] = some #[.ref r] :=
    layoutLocals_described hdescribed rfl rfl rfl
  have hroom' : ((depthOf m.frames + 1 : Nat) : Int) ≤ m.maxDepth := by omega
  have hsize : (0 : Int32).toInt < bytes.elements.size := by
    have hlength := congrArg List.length hcontents
    simp only [Object.bytes, List.length_map, Array.length_toList, List.length_cons] at hlength
    rw [Int32.toInt_zero, hlength]
    omega
  let x : Int32 := (88 : UInt8).toInt8.toInt32.toInt8.toInt32
  let heap : Array Object := m.heap.modify (a.number - 1) fun o => { o with
    elements := o.elements.setIfInBounds 0 (.int x) }
  have haccessor : (Directive.invoke .invokevirtual Library.stringName "getBytes" "()[B").Does
      (Session.context host (steps + 6) (nesting + 2)) m method ⟨[.ref r], #[.ref r], m.heap⟩ .next
      ⟨[.ref a], #[.ref r], m.heap⟩ := by
    rw [← hvalue]
    exact does_getBytes host (steps + 3) nesting hstrings hroom ho htype hinstance
  obtain ⟨m', hrun, hm'⟩ : ∃ m', invokeMethod method [.ref r]
      (Session.context host (steps + 6) (nesting + 3)) m = .ok .null m' ∧
      ({ m with heap } : Machine).Resembles m' := by
    refine invokeMethod_of_lines (s := ⟨[], #[.ref r], heap⟩) hdescribed rfl (by decide) rfl rfl
      hlocals hroom' (Nat.le_add_left _ _) ?_
    refine .cons (Directive.does_load rfl rfl) (.cons haccessor ?_)
    refine .cons (Directive.does_constant rfl) (.cons (Directive.does_bipush 88) ?_)
    exact .cons (Directive.does_bastore hbytes hbytesType (by decide) hsize)
      (.last Directive.does_returnVoid)
  have hx : x.toUInt32.toUInt8 = 88 := by decide
  have hscribbled := h.setFirst x
  rw [hx] at hscribbled
  exact ⟨heap, m', hrun, hm', hscribbled.of_heap hm'.heap⟩

end Scribbler

/-- A heap with one string and the array of its bytes. -/
def letterHeap : Array Object :=
  #[({ Object.empty Descriptor.string with fields := [] }).setField Library.stringName "value" (.ref ⟨2⟩),
    .array "[B" #[.int 65]]

theorem isString_letterHeap {s : Moment} (hs : s.heap = letterHeap) : s.IsString ⟨1⟩ ⟨2⟩ "A" := by
  have hbytes : (Object.array "[B" #[.int 65]).bytes = "A" := by decide
  exact ⟨⟨_, by rw [hs]; rfl, rfl, rfl, rfl⟩, ⟨_, by rw [hs]; rfl, rfl, hbytes⟩⟩

end ClassEngine
