import ClassEngine.Engine.RuntimeClass

/-!
Counting method invocations. A method becomes hot when its count reaches the threshold, once
between two resets.
-/

namespace ClassEngine

/-- What is known of one method. -/
structure MethodProfile where
  method : Method
  count : Nat
  hot : Bool

/-- The counts of all methods that ran. -/
structure Profiler where
  threshold : Nat
  profiles : List MethodProfile
  /-- The sum of all counts. -/
  total : Nat
  hotCount : Nat

/-- What a profiler knows of all methods together. -/
structure ProfilerStats where
  methods : Nat
  hotMethods : Nat
  nativeMethods : Nat
  invocations : Nat

namespace Profiler

/-- A profiler that has seen nothing. -/
def start (threshold : Nat) : Profiler :=
  ⟨threshold, [], 0, 0⟩

/-- Counts one more run of a method among the profiles. -/
def count (m : Method) : List MethodProfile → List MethodProfile
  | [] => [⟨m, 1, false⟩]
  | p :: rest => if p.method.same m then { p with count := p.count + 1 } :: rest
    else p :: count m rest

/-- The profile of a method. -/
def find? (p : Profiler) (m : Method) : Option MethodProfile :=
  p.profiles.find? fun q => q.method.same m

/-- Whether a method reached the threshold. -/
def isHot (p : Profiler) (m : Method) : Bool :=
  (p.find? m).any MethodProfile.hot

/-- Marks a method as hot. -/
def heat (m : Method) (ps : List MethodProfile) : List MethodProfile :=
  ps.map fun q => if q.method.same m then { q with hot := true } else q

/-- Counts an invocation; tells whether it made the method hot. -/
def record (p : Profiler) (m : Method) : Bool × Profiler :=
  let counted := { p with profiles := count m p.profiles, total := p.total + 1 }
  match counted.find? m with
  | some q =>
    if !q.hot && p.threshold ≤ q.count then
      (true, { counted with profiles := heat m counted.profiles, hotCount := p.hotCount + 1 })
    else (false, counted)
  | none => (false, counted)

/-- The number of native methods among the profiles. -/
def nativeCount (p : Profiler) : Nat :=
  (p.profiles.filter fun q => q.method.isNative).length

/-- The numbers over all methods. -/
def stats (p : Profiler) : ProfilerStats where
  methods := p.profiles.length
  hotMethods := p.hotCount
  nativeMethods := p.nativeCount
  invocations := p.total

/-- More invocations come first, then the smaller method text. -/
def precedes (a b : MethodProfile) : Bool :=
  if a.count = b.count then Text.ble a.method.text b.method.text else b.count < a.count

/-- The first `n` profiles by decreasing count, or all when `n` is not positive. -/
def top (p : Profiler) (n : Int) : List MethodProfile :=
  let sorted := p.profiles.mergeSort precedes
  if 0 < n then sorted.take n.toNat else sorted

/-- Forgets all counts. -/
def reset (p : Profiler) : Profiler :=
  start p.threshold

end Profiler

end ClassEngine
