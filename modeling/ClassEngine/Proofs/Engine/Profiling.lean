import Mathlib.Algebra.Ring.Nat
import Mathlib.Data.List.Dedup
import Mathlib.Data.List.Induction
import Mathlib.Tactic.Common
import ClassEngine.Engine.Interpreter
import ClassEngine.Proofs.Text.Order

/-!
The profiler's books. After any calls a profiler is the account of the methods recorded since the
last reset: one profile for each of them, with the number of its records, and totals that agree with
the profiles. A record comes out as hot exactly when it is the one that reaches the threshold.
-/

namespace ClassEngine

namespace Method

/-- What tells a method from others. -/
def key (m : Method) : Text × Text × Descriptor :=
  (m.name, m.descriptor, m.owner)

theorem same_iff {a b : Method} : a.same b ↔ a.key = b.key := by
  simp [same, key, and_assoc]

theorem same_self (m : Method) : m.same m :=
  same_iff.mpr rfl

theorem same_comm {a b : Method} : a.same b ↔ b.same a := by
  rw [same_iff, same_iff, eq_comm]

/-- The same methods are the same as the same others. -/
theorem same_eq_of_same {a b : Method} (h : a.same b) : a.same = b.same := by
  funext c
  rw [Bool.eq_iff_iff, same_iff, same_iff, same_iff.mp h]

end Method

namespace Profiler

/-- A call that changes the counts. -/
inductive Call where
  | record (m : Method)
  | reset

/-- A profiler that goes through calls, with the methods whose records came out as hot since the
last reset, newest first. -/
abbrev Run := Profiler × List Method

/-- What one call does. -/
def step (r : Run) : Call → Run
  | .record m => ((r.1.record m).2, if (r.1.record m).1 then m :: r.2 else r.2)
  | .reset => (r.1.reset, [])

/-- What calls make of a profiler that has seen nothing. -/
def run (threshold : Nat) (calls : List Call) : Run :=
  calls.foldl step (start threshold, [])

/-- The methods that calls recorded since the last reset, one for each record, oldest first. -/
def sinceReset (calls : List Call) : List Method :=
  calls.foldl (fun ms call => match call with | .record m => ms ++ [m] | .reset => []) []

theorem sinceReset_record (calls : List Call) (m : Method) :
    sinceReset (calls ++ [.record m]) = sinceReset calls ++ [m] := by
  rw [sinceReset, List.foldl_append]
  rfl

theorem sinceReset_reset (calls : List Call) : sinceReset (calls ++ [.reset]) = [] := by
  rw [sinceReset, List.foldl_append]
  rfl

theorem record_mem_of_mem_sinceReset {calls : List Call} {m : Method} (h : m ∈ sinceReset calls) :
    .record m ∈ calls := by
  induction calls using List.reverseRecOn with
  | nil => exact absurd h List.not_mem_nil
  | append_singleton calls call ih =>
      cases call with
      | record m' =>
          rw [sinceReset_record, List.mem_append, List.mem_singleton] at h
          obtain h | rfl := h
          · exact List.mem_append_left _ (ih h)
          · exact List.mem_append_right _ List.mem_cons_self
      | reset =>
          rw [sinceReset_reset] at h
          exact absurd h List.not_mem_nil

theorem run_append (threshold : Nat) (calls : List Call) (call : Call) :
    run threshold (calls ++ [call]) = step (run threshold calls) call := by
  rw [run, List.foldl_append]
  rfl

/-! One method among others -/

/-- No method of the list is the same as another one. -/
def Apart (seen : List Method) : Prop :=
  seen.Pairwise fun a b => ¬a.same b

/-- The methods of a list, each at its first place only. -/
def firsts (ms : List Method) : List Method :=
  ms.foldl (fun seen m => if seen.any m.same then seen else seen ++ [m]) []

theorem firsts_append (ms : List Method) (m : Method) :
    firsts (ms ++ [m]) = if (firsts ms).any m.same then firsts ms else firsts ms ++ [m] := by
  rw [firsts, List.foldl_append]
  rfl

theorem apart_firsts (ms : List Method) : Apart (firsts ms) := by
  induction ms using List.reverseRecOn with
  | nil => exact .nil
  | append_singleton ms m ih =>
      rw [firsts_append]
      split
      case isTrue => exact ih
      case isFalse hnew =>
        refine List.pairwise_append.mpr ⟨ih, List.pairwise_singleton _ _, fun a ha b hb => ?_⟩
        obtain rfl := List.mem_singleton.mp hb
        exact fun hab => hnew (List.any_eq_true.mpr ⟨a, ha, Method.same_comm.mp hab⟩)

theorem mem_of_mem_firsts {ms : List Method} {m : Method} (h : m ∈ firsts ms) : m ∈ ms := by
  induction ms using List.reverseRecOn with
  | nil => exact h
  | append_singleton ms m' ih =>
      rw [firsts_append] at h
      split at h
      case isTrue => exact List.mem_append_left _ (ih h)
      case isFalse =>
        obtain h | h := List.mem_append.mp h
        · exact List.mem_append_left _ (ih h)
        · exact List.mem_append_right _ h

theorem exists_mem_firsts {ms : List Method} {m : Method} (h : m ∈ ms) :
    ∃ a ∈ firsts ms, m.same a := by
  induction ms using List.reverseRecOn with
  | nil => exact absurd h List.not_mem_nil
  | append_singleton ms m' ih =>
      rw [firsts_append]
      obtain h | h := List.mem_append.mp h
      · obtain ⟨a, ha, hsame⟩ := ih h
        refine ⟨a, ?_, hsame⟩
        split
        · exact ha
        · exact List.mem_append_left _ ha
      · obtain rfl := List.mem_singleton.mp h
        split
        case isTrue hseen => exact List.any_eq_true.mp hseen
        case isFalse => exact ⟨m, List.mem_append_right _ List.mem_cons_self, m.same_self⟩

/-- In a list of different methods one that is there stands between two parts without it. -/
theorem split_of_same {seen : List Method} (hapart : Apart seen) {m a : Method} (ha : a ∈ seen)
    (hsame : m.same a) :
    ∃ before after, seen = before ++ a :: after ∧
      (∀ b ∈ before, ¬m.same b) ∧ ∀ b ∈ after, ¬m.same b := by
  obtain ⟨before, after, rfl⟩ := List.append_of_mem ha
  rw [Method.same_eq_of_same hsame]
  obtain ⟨-, hafter, hbefore⟩ := List.pairwise_append.mp hapart
  exact ⟨before, after, rfl,
    fun b hb hab => hbefore b hb a List.mem_cons_self (Method.same_comm.mp hab),
    (List.pairwise_cons.mp hafter).1⟩

/-! One record -/

/-- The profile of a method that was recorded with the given ones. -/
def profileOf (threshold : Nat) (ms : List Method) (m : Method) : MethodProfile :=
  ⟨m, ms.countP m.same, threshold ≤ ms.countP m.same⟩

/-- The profiler that has seen records of the given methods. -/
def account (threshold : Nat) (ms : List Method) : Profiler where
  threshold := threshold
  profiles := (firsts ms).map (profileOf threshold ms)
  total := ms.length
  hotCount := (firsts ms).countP fun m => threshold ≤ ms.countP m.same

section Record

variable {m : Method} {before after : List MethodProfile} {q : MethodProfile}

theorem count_append (hbefore : ∀ p ∈ before, ¬m.same p.method) (ps : List MethodProfile) :
    count m (before ++ ps) = before ++ count m ps := by
  induction before with
  | nil => rfl
  | cons p before ih =>
      obtain ⟨hp, hrest⟩ := List.forall_mem_cons.mp hbefore
      rw [List.cons_append, count, if_neg (fun h => hp (Method.same_comm.mp h)), ih hrest]
      rfl

theorem heat_of_not_same {ps : List MethodProfile} (h : ∀ p ∈ ps, ¬m.same p.method) :
    heat m ps = ps := by
  rw [heat, List.map_congr_left, List.map_id']
  exact fun p hp => if_neg fun hsame => h p hp (Method.same_comm.mp hsame)

/-- What a record does to a profiler, told by the profile of the method once it is counted. -/
theorem record_of_counted {p : Profiler} (hcount : count m p.profiles = before ++ q :: after)
    (hbefore : ∀ b ∈ before, ¬m.same b.method) (hq : m.same q.method)
    (hafter : ∀ b ∈ after, ¬m.same b.method) :
    p.record m = if q.hot = false ∧ p.threshold ≤ q.count then
      (true, ⟨p.threshold, before ++ { q with hot := true } :: after, p.total + 1, p.hotCount + 1⟩)
    else (false, ⟨p.threshold, before ++ q :: after, p.total + 1, p.hotCount⟩) := by
  have hfind : (before ++ q :: after).find? (fun p => p.method.same m) = some q := by
    have hnone : before.find? (fun p => p.method.same m) = none :=
      List.find?_eq_none.mpr fun b hb hsame => hbefore b hb (Method.same_comm.mp hsame)
    rw [List.find?_append, hnone, Option.none_or]
    exact List.find?_cons_of_pos (Method.same_comm.mp hq)
  have hheat : heat m (before ++ q :: after) = before ++ { q with hot := true } :: after := by
    rw [heat, List.map_append, ← heat, heat_of_not_same hbefore, List.map_cons, ← heat,
      heat_of_not_same hafter, if_pos (Method.same_comm.mp hq)]
  simp only [record, find?, hcount, hfind, hheat, Bool.and_eq_true, Bool.not_eq_true',
    decide_eq_true_eq]

end Record

section Account

variable {threshold : Nat} {ms : List Method} {m : Method}

/-- The same methods were recorded as often. -/
theorem countP_same_eq_zero_iff : ms.countP m.same = 0 ↔ ∀ a ∈ firsts ms, ¬m.same a := by
  rw [List.countP_eq_zero]
  refine ⟨fun h a ha => h a (mem_of_mem_firsts ha), fun h a ha hsame => ?_⟩
  obtain ⟨b, hb, hab⟩ := exists_mem_firsts ha
  exact h b hb (Method.same_eq_of_same hsame ▸ hab)

theorem countP_append_of_same {a : Method} (h : m.same a) :
    (ms ++ [m]).countP a.same = ms.countP m.same + 1 := by
  rw [List.countP_append, ← Method.same_eq_of_same h, List.countP_singleton, if_pos m.same_self]

theorem countP_append_of_not_same {a : Method} (h : ¬m.same a) :
    (ms ++ [m]).countP a.same = ms.countP a.same := by
  rw [List.countP_append, List.countP_singleton, if_neg fun ha => h (Method.same_comm.mp ha),
    Nat.add_zero]

theorem map_profileOf_append {seen : List Method} (h : ∀ a ∈ seen, ¬m.same a) :
    seen.map (profileOf threshold (ms ++ [m])) = seen.map (profileOf threshold ms) := by
  refine List.map_congr_left fun a ha => ?_
  rw [profileOf, countP_append_of_not_same (h a ha), profileOf]

theorem not_same_profileOf {seen : List Method} (h : ∀ a ∈ seen, ¬m.same a) :
    ∀ p ∈ seen.map (profileOf threshold ms), ¬m.same p.method := by
  intro p hp
  obtain ⟨a, ha, rfl⟩ := List.mem_map.mp hp
  exact h a ha

/-- The recorded methods with one more record: the method has its place among them, and everything
but its own profile is as before. -/
theorem exists_place (hthreshold : 1 ≤ threshold) (ms : List Method) (m : Method) :
    ∃ before a after, firsts (ms ++ [m]) = before ++ a :: after ∧ m.same a ∧
      (∀ b ∈ before, ¬m.same b) ∧ (∀ b ∈ after, ¬m.same b) ∧
      count m (account threshold ms).profiles = before.map (profileOf threshold ms) ++
        ⟨a, ms.countP m.same + 1, threshold ≤ ms.countP m.same⟩ ::
          after.map (profileOf threshold ms) ∧
      (account threshold ms).hotCount =
        (before.countP fun b => threshold ≤ ms.countP b.same) +
          (after.countP fun b => threshold ≤ ms.countP b.same) +
          if threshold ≤ ms.countP m.same then 1 else 0 := by
  rw [firsts_append]
  by_cases hseen : (firsts ms).any m.same
  · obtain ⟨a, ha, hsame⟩ := List.any_eq_true.mp hseen
    obtain ⟨before, after, hfirsts, hbefore, hafter⟩ := split_of_same (apart_firsts ms) ha hsame
    refine ⟨before, a, after, by rw [if_pos hseen, hfirsts], hsame, hbefore, hafter, ?_, ?_⟩
    · rw [account, hfirsts, List.map_append, count_append (not_same_profileOf hbefore),
        List.map_cons, count]
      simp only [profileOf, ← Method.same_eq_of_same hsame, m.same_self, if_pos]
    · simp only [account, hfirsts, List.countP_append, List.countP_cons, decide_eq_true_eq,
        ← Method.same_eq_of_same hsame]
      omega
  · have hnew : ∀ a ∈ firsts ms, ¬m.same a := fun a ha hsame =>
      hseen (List.any_eq_true.mpr ⟨a, ha, hsame⟩)
    have hzero : ms.countP m.same = 0 := countP_same_eq_zero_iff.mpr hnew
    refine ⟨firsts ms, m, [], by rw [if_neg hseen], m.same_self, hnew,
      fun b hb => absurd hb List.not_mem_nil, ?_, ?_⟩
    · have hothers : ∀ p ∈ (firsts ms).map (profileOf threshold ms), ¬m.same p.method :=
        not_same_profileOf hnew
      have happend := count_append hothers []
      rw [List.append_nil] at happend
      rw [account, happend, count, hzero, decide_eq_false (by omega), List.map_nil]
    · rw [hzero, if_neg (by omega)]
      rfl

/-- A record is one more record in the account, and comes out as hot when it is the one that
reaches the threshold. -/
theorem account_record (hthreshold : 1 ≤ threshold) (ms : List Method) (m : Method) :
    (account threshold ms).record m =
      (decide (ms.countP m.same + 1 = threshold), account threshold (ms ++ [m])) := by
  obtain ⟨before, a, after, hfirsts, hsame, hbefore, hafter, hcount, hhot⟩ :=
    exists_place hthreshold ms m
  have hnext : account threshold (ms ++ [m]) =
      ⟨threshold, before.map (profileOf threshold ms) ++
          ⟨a, ms.countP m.same + 1, threshold ≤ ms.countP m.same + 1⟩ ::
            after.map (profileOf threshold ms), ms.length + 1,
        (before.countP fun b => threshold ≤ ms.countP b.same) +
          (after.countP fun b => threshold ≤ ms.countP b.same) +
          if threshold ≤ ms.countP m.same + 1 then 1 else 0⟩ := by
    have hothers : ∀ seen : List Method, (∀ b ∈ seen, ¬m.same b) →
        (seen.countP fun b => threshold ≤ (ms ++ [m]).countP b.same) =
          seen.countP fun b => threshold ≤ ms.countP b.same := fun seen h =>
      List.countP_congr fun b hb => by rw [countP_append_of_not_same (h b hb)]
    rw [account, hfirsts, List.map_append, List.map_cons, map_profileOf_append hbefore,
      map_profileOf_append hafter, List.countP_append, List.countP_cons, hothers before hbefore,
      hothers after hafter, profileOf, countP_append_of_same hsame, List.length_append,
      Nat.add_assoc]
    simp
  rw [record_of_counted hcount (not_same_profileOf hbefore) hsame (not_same_profileOf hafter), hhot,
    hnext]
  simp only [decide_eq_false_iff_not]
  change (if _ ∧ threshold ≤ _ then _ else _) = _
  -- the count was below, at or above the threshold before this record
  obtain hlt | heq | hgt := Nat.lt_trichotomy (ms.countP m.same + 1) threshold
  · have hbelow : ¬threshold ≤ ms.countP m.same + 1 := by omega
    have hbelow' : ¬threshold ≤ ms.countP m.same := by omega
    simp [account, hbelow, hbelow', Nat.ne_of_lt hlt]
  · have hbelow : ¬threshold ≤ ms.countP m.same := by omega
    simp [account, heq, hbelow]
  · have habove : threshold ≤ ms.countP m.same := by omega
    simp [account, Nat.ne_of_gt hgt, habove, Nat.le_succ_of_le habove]

/-- After any calls the profiler is the account of what was recorded since the last reset. -/
theorem run_eq_account (hthreshold : 1 ≤ threshold) (calls : List Call) :
    (run threshold calls).1 = account threshold (sinceReset calls) := by
  induction calls using List.reverseRecOn with
  | nil => rfl
  | append_singleton calls call ih =>
      rw [run_append]
      cases call with
      | record m => rw [step, ih, account_record hthreshold, sinceReset_record]
      | reset => rw [step, ih, sinceReset_reset]; rfl

/-- A method is among those that came out as hot once it reached the threshold, and only once. -/
theorem run_hot (hthreshold : 1 ≤ threshold) (calls : List Call) (m : Method) :
    (run threshold calls).2.countP m.same =
      if threshold ≤ (sinceReset calls).countP m.same then 1 else 0 := by
  induction calls using List.reverseRecOn with
  | nil => exact (if_neg (Nat.not_le_of_lt hthreshold)).symm
  | append_singleton calls call ih =>
      rw [run_append]
      cases call with
      | reset =>
          rw [sinceReset_reset]
          exact (if_neg (Nat.not_le_of_lt hthreshold)).symm
      | record m' =>
          rw [step, run_eq_account hthreshold, account_record hthreshold, sinceReset_record]
          simp only [decide_eq_true_eq]
          by_cases hsame : m'.same m
          · rw [countP_append_of_same hsame, ← Method.same_eq_of_same hsame]
            rw [← Method.same_eq_of_same hsame] at ih
            split
            case isTrue heq =>
              rw [List.countP_cons, if_pos m'.same_self, ih, if_neg (by omega), if_pos (by omega)]
            case isFalse hne =>
              rw [ih]
              by_cases hhot : threshold ≤ (sinceReset calls).countP m'.same
              · rw [if_pos hhot, if_pos (by omega)]
              · rw [if_neg hhot, if_neg (by omega)]
          · rw [countP_append_of_not_same hsame, ← ih]
            split
            · rw [List.countP_cons, if_neg fun h => hsame (Method.same_comm.mp h), Nat.add_zero]
            · rfl

/-! What is asked of a profiler -/

theorem find?_account (threshold : Nat) (ms : List Method) (m : Method) :
    (account threshold ms).find? m =
      ((firsts ms).find? fun a => a.same m).map (profileOf threshold ms) := by
  rw [find?, account, List.find?_map]
  rfl

/-- A method has a profile if it was recorded. -/
theorem find?_account_cases (threshold : Nat) (ms : List Method) (m : Method) :
    (ms.countP m.same = 0 ∧ (account threshold ms).find? m = none) ∨
      ∃ a, 0 < ms.countP m.same ∧ a.same = m.same ∧
        (account threshold ms).find? m = some (profileOf threshold ms a) := by
  rw [find?_account]
  cases hfind : (firsts ms).find? fun a => a.same m with
  | none =>
      refine .inl ⟨countP_same_eq_zero_iff.mpr fun a ha hsame => ?_, rfl⟩
      exact List.find?_eq_none.mp hfind a ha (Method.same_comm.mp hsame)
  | some a =>
      have hfound : a.same m := List.find?_some (p := fun a : Method => a.same m) hfind
      have hsame : m.same a := Method.same_comm.mp hfound
      refine .inr ⟨a, Nat.pos_of_ne_zero fun hzero => ?_, (Method.same_eq_of_same hsame).symm, rfl⟩
      exact countP_same_eq_zero_iff.mp hzero a (List.mem_of_find?_eq_some hfind) hsame

/-- There are as many profiles as there are different methods. -/
theorem length_firsts (ms : List Method) :
    (firsts ms).length = (ms.map Method.key).dedup.length := by
  have hnodup : ((firsts ms).map Method.key).Nodup :=
    List.pairwise_map.mpr ((apart_firsts ms).imp fun h heq => h (Method.same_iff.mpr heq))
  have hperm : ((firsts ms).map Method.key).Perm (ms.map Method.key).dedup := by
    refine (List.perm_ext_iff_of_nodup hnodup (List.nodup_dedup _)).mpr fun k => ?_
    rw [List.mem_dedup, List.mem_map, List.mem_map]
    constructor
    · rintro ⟨a, ha, rfl⟩
      exact ⟨a, mem_of_mem_firsts ha, rfl⟩
    · rintro ⟨a, ha, rfl⟩
      obtain ⟨b, hb, hsame⟩ := exists_mem_firsts ha
      exact ⟨b, hb, (Method.same_iff.mp hsame).symm⟩
  rw [← hperm.length_eq, List.length_map]

end Account

/-! The total of all records, which any profiler keeps -/

theorem sum_count (m : Method) (ps : List MethodProfile) :
    ((count m ps).map MethodProfile.count).sum = (ps.map MethodProfile.count).sum + 1 := by
  induction ps with
  | nil => rfl
  | cons p ps ih =>
      rw [count]
      split
      · simp only [List.map_cons, List.sum_cons]
        omega
      · rw [List.map_cons, List.sum_cons, ih, List.map_cons, List.sum_cons]
        omega

theorem map_count_heat (m : Method) (ps : List MethodProfile) :
    (heat m ps).map MethodProfile.count = ps.map MethodProfile.count := by
  rw [heat, List.map_map]
  refine List.map_congr_left fun p _ => ?_
  rw [Function.comp_apply]
  split <;> rfl

theorem total_record {p : Profiler} (h : p.total = (p.profiles.map MethodProfile.count).sum)
    (m : Method) :
    (p.record m).2.total = ((p.record m).2.profiles.map MethodProfile.count).sum := by
  rw [record]
  split
  · split
    · rw [map_count_heat, sum_count, ← h]
    · rw [sum_count, ← h]
  · rw [sum_count, ← h]

theorem run_total (threshold : Nat) (calls : List Call) :
    (run threshold calls).1.total =
      ((run threshold calls).1.profiles.map MethodProfile.count).sum := by
  induction calls using List.reverseRecOn with
  | nil => rfl
  | append_singleton calls call ih =>
      rw [run_append]
      cases call with
      | record m => exact total_record ih m
      | reset => rfl

/-! The order of profiles -/

/-- More records come first; of methods with as many records, the one with the smaller text. -/
def RanksAbove (a b : MethodProfile) : Prop :=
  b.count < a.count ∨ a.count = b.count ∧ Text.blt a.method.text b.method.text

theorem precedes_iff (a b : MethodProfile) :
    precedes a b ↔ b.count < a.count ∨ a.count = b.count ∧ Text.ble a.method.text b.method.text := by
  rw [precedes]
  split
  case isTrue heq =>
    rw [heq]
    simp
  case isFalse hne =>
    simp [hne]

theorem precedes_trans (a b c : MethodProfile) (hab : precedes a b) (hbc : precedes b c) :
    precedes a c := by
  rw [precedes_iff] at *
  obtain hab | ⟨hab, htext⟩ := hab
  · obtain hbc | ⟨hbc, -⟩ := hbc <;> exact .inl (by omega)
  · obtain hbc | ⟨hbc, htext'⟩ := hbc
    · exact .inl (by omega)
    · exact .inr ⟨hab.trans hbc, Text.ble_trans _ _ _ htext htext'⟩

theorem precedes_total (a b : MethodProfile) : (precedes a b || precedes b a) = true := by
  rw [Bool.or_eq_true, precedes_iff, precedes_iff]
  have htotal := Text.ble_total a.method.text b.method.text
  rw [Bool.or_eq_true] at htotal
  obtain hlt | heq | hgt := Nat.lt_trichotomy a.count b.count
  · exact .inr (.inl hlt)
  · exact htotal.imp (fun h => .inr ⟨heq, h⟩) fun h => .inr ⟨heq.symm, h⟩
  · exact .inl (.inl hgt)

theorem ranksAbove_asymm {a b : MethodProfile} (hab : RanksAbove a b) : ¬RanksAbove b a := by
  rintro (hba | ⟨heq, hba⟩)
  · obtain hab | ⟨heq, -⟩ := hab <;> omega
  · obtain hab | ⟨-, hab⟩ := hab
    · omega
    · exact Text.ne_of_blt hab (List.le_antisymm ((Text.ble_iff_le _ _).mp (Text.ble_of_blt hab))
        ((Text.ble_iff_le _ _).mp (Text.ble_of_blt hba)))

/-- Profiles of methods with different texts are sorted without ties. -/
theorem pairwise_mergeSort_precedes {ps : List MethodProfile}
    (h : (ps.map fun q => q.method.text).Nodup) :
    (ps.mergeSort precedes).Pairwise RanksAbove := by
  have hperm := List.mergeSort_perm ps precedes
  have htexts : (ps.mergeSort precedes).Pairwise fun a b => a.method.text ≠ b.method.text :=
    List.pairwise_map.mp ((hperm.map fun q : MethodProfile => q.method.text).nodup_iff.mpr h)
  refine (List.pairwise_mergeSort precedes_trans precedes_total ps).imp₂ (fun a b hab hne => ?_)
    htexts
  exact ((precedes_iff a b).mp hab).imp_right fun hab => ⟨hab.1, Text.blt_of_ble_of_ne hab.2 hne⟩

/-- So there is one order only. -/
theorem eq_mergeSort_precedes {ps order : List MethodProfile}
    (h : (ps.map fun q => q.method.text).Nodup) (hperm : order.Perm ps)
    (horder : order.Pairwise RanksAbove) : order = ps.mergeSort precedes :=
  List.Perm.eq_of_pairwise (fun _ _ _ _ hab hba => absurd hba (ranksAbove_asymm hab)) horder
    (pairwise_mergeSort_precedes h) (hperm.trans (List.mergeSort_perm ps precedes).symm)

end Profiler

namespace Interpreter

/-- A run of a method is a record; one that comes out as hot is reported. -/
theorem profile_on {method : Method} {ctx : Context} {m : Machine} {p : Profiler}
    (h : m.profiler = some p) :
    profile method ctx m = .ok () { m with
      profiler := some (p.record method).2
      becameHot := if (p.record method).1 then method.text :: m.becameHot else m.becameHot } := by
  change EStateM.Result.ok () _ = _
  dsimp only
  rw [h]

end Interpreter

namespace Profiler

/-- The books of a profiler over the methods `ms` that were recorded since the last reset, with the
methods that were reported as hot. -/
structure Accounts (threshold : Nat) (ms hot : List Method) (p : Profiler) : Prop where
  /-- A method has a profile if it was recorded, and its count is the number of its records. -/
  counted : ∀ m, ((p.find? m).elim 0 MethodProfile.count) = ms.countP m.same ∧
    ((p.find? m).isSome ↔ 0 < ms.countP m.same)
  isHot : ∀ m, p.isHot m ↔ threshold ≤ ms.countP m.same
  /-- The profiles are those of recorded methods, one for each. -/
  profiles : (∀ q ∈ p.profiles, q.method ∈ ms ∧ q = profileOf threshold ms q.method) ∧
    (p.profiles.map fun q => q.method.key).Nodup
  /-- The next record of a method comes out as hot if it is the one that reaches the threshold. -/
  becomesHot : ∀ m, (p.record m).1 ↔ ms.countP m.same + 1 = threshold
  /-- Only then a run of the method is reported. -/
  reports : ∀ m ctx (s : Machine), s.profiler = some p → Interpreter.profile m ctx s = .ok () { s with
    profiler := some (p.record m).2
    becameHot := if ms.countP m.same + 1 = threshold then m.text :: s.becameHot else s.becameHot }
  /-- Each method that reached the threshold was reported once. -/
  reported : ∀ m : Method, hot.countP m.same = if threshold ≤ ms.countP m.same then 1 else 0
  methods : p.stats.methods = (ms.map Method.key).dedup.length
  hotMethods : p.stats.hotMethods = p.profiles.countP MethodProfile.hot
  invocations : p.stats.invocations = (p.profiles.map MethodProfile.count).sum ∧
    p.stats.invocations = ms.length
  /-- The profiles have one order by decreasing count and then by text. Its first ones are listed. -/
  top : ∃ order, order.Perm p.profiles ∧ order.Pairwise RanksAbove ∧
    (∀ other : List MethodProfile, other.Perm p.profiles → other.Pairwise RanksAbove →
      other = order) ∧
    ∀ n, p.top n = if 0 < n then order.take n.toNat else order

/-- After any calls a profiler keeps the books of what was recorded since the last reset. -/
theorem invocations_are_accounted {threshold : Nat} (hthreshold : 1 ≤ threshold)
    (calls : List Call) (hdistinct : ∀ a b, .record a ∈ calls → .record b ∈ calls →
      a.text = b.text → a.same b) :
    Accounts threshold (sinceReset calls) (run threshold calls).2 (run threshold calls).1 := by
  have haccount := run_eq_account hthreshold calls
  have htotal := run_total threshold calls
  have hrecord := account_record hthreshold (sinceReset calls)
  rw [haccount] at htotal ⊢
  have hprofiles : (account threshold (sinceReset calls)).profiles =
      (firsts (sinceReset calls)).map (profileOf threshold (sinceReset calls)) := rfl
  have htexts : ((account threshold (sinceReset calls)).profiles.map
      fun q => q.method.text).Nodup := by
    rw [hprofiles, List.map_map]
    refine List.pairwise_map.mpr ((apart_firsts _).imp_of_mem fun ha hb hab heq => hab ?_)
    exact hdistinct _ _ (record_mem_of_mem_sinceReset (mem_of_mem_firsts ha))
      (record_mem_of_mem_sinceReset (mem_of_mem_firsts hb)) heq
  constructor
  case counted =>
    intro m
    obtain ⟨hzero, hfind⟩ | ⟨a, hpos, hsame, hfind⟩ :=
      find?_account_cases threshold (sinceReset calls) m
    · rw [hfind, hzero]
      exact ⟨rfl, by simp⟩
    · rw [hfind]
      exact ⟨by rw [← hsame]; rfl, fun _ => hpos, fun _ => rfl⟩
  case isHot =>
    intro m
    obtain ⟨hzero, hfind⟩ | ⟨a, hpos, hsame, hfind⟩ :=
      find?_account_cases threshold (sinceReset calls) m
    · rw [Profiler.isHot, hfind, hzero]
      exact ⟨fun h => absurd h Bool.false_ne_true, fun h => absurd h (by omega)⟩
    · rw [Profiler.isHot, hfind, ← hsame]
      exact decide_eq_true_iff
  case profiles =>
    refine ⟨fun q hq => ?_, ?_⟩
    · obtain ⟨a, ha, rfl⟩ := List.mem_map.mp hq
      exact ⟨mem_of_mem_firsts ha, rfl⟩
    · rw [hprofiles, List.map_map]
      exact List.pairwise_map.mpr
        ((apart_firsts _).imp fun hab heq => hab (Method.same_iff.mpr heq))
  case becomesHot =>
    intro m
    rw [hrecord]
    exact decide_eq_true_iff
  case reports =>
    intro m ctx s hs
    rw [Interpreter.profile_on hs, hrecord]
    simp only [decide_eq_true_eq]
  case reported => exact run_hot hthreshold calls
  case methods =>
    rw [← length_firsts, stats, hprofiles, List.length_map]
  case hotMethods =>
    rw [hprofiles, List.countP_map]
    rfl
  case invocations => exact ⟨htotal, rfl⟩
  case top =>
    exact ⟨_, List.mergeSort_perm _ precedes, pairwise_mergeSort_precedes htexts,
      fun other => eq_mergeSort_precedes htexts, fun n => rfl⟩

/-- A method without code. -/
def tested (name : Text) : Method :=
  ⟨"T", "T", name, "()V", ⟨0x400⟩, none, ⟨[], "V", "()V"⟩,
    ⟨0, 52, #[], ⟨0x421⟩, "T", [], [], [], [], []⟩⟩

/-- A record before a reset, and then records of two methods, one of which reaches the threshold. -/
theorem two_methods_are_accounted :
    Accounts 2 [tested "a", tested "b", tested "a"] [tested "a"]
      (run 2 [.record (tested "b"), .reset, .record (tested "a"), .record (tested "b"),
        .record (tested "a")]).1 := by
  refine invocations_are_accounted (by decide) [.record (tested "b"), .reset,
    .record (tested "a"), .record (tested "b"), .record (tested "a")] fun a b ha hb => ?_
  have hname : ∀ {m : Method}, Call.record m ∈ [Call.record (tested "b"), .reset,
      .record (tested "a"), .record (tested "b"), .record (tested "a")] →
      m = tested "a" ∨ m = tested "b" := by
    intro m hm
    simp only [List.mem_cons, List.not_mem_nil, Call.record.injEq, reduceCtorEq] at hm
    tauto
  obtain rfl | rfl := hname ha <;> obtain rfl | rfl := hname hb <;> decide

end Profiler

end ClassEngine
