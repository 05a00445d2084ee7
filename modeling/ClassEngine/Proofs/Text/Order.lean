import Mathlib.Tactic.Common
import ClassEngine.Text.Basic

/-!
The bytewise order of texts is the lexicographic order of lists. What is sorted by different names
is strictly sorted.
-/

namespace ClassEngine

namespace Text

theorem ble_iff_le (a b : Text) : ble a b ↔ a ≤ b := by
  induction a generalizing b with
  | nil => simp [ble]
  | cons x xs ih =>
      cases b with
      | nil => simp [ble]
      | cons y ys =>
          rw [List.cons_le_cons_iff, ble, ← ih]
          split
          case isTrue h => simp [h]
          split
          case isTrue hxy hyx => simp [hxy, (UInt8.ne_of_lt hyx).symm]
          case isFalse hxy hyx =>
            have heq : x = y := UInt8.le_antisymm (UInt8.not_lt.mp hyx) (UInt8.not_lt.mp hxy)
            simp [heq]

theorem ble_total (a b : Text) : (ble a b || ble b a) = true := by
  rw [Bool.or_eq_true, ble_iff_le, ble_iff_le]
  exact List.le_total a b

theorem ble_trans (a b c : Text) (hab : ble a b) (hbc : ble b c) : ble a c := by
  rw [ble_iff_le] at *
  exact List.le_trans hab hbc

theorem blt_iff_lt {a b : Text} : blt a b ↔ a < b := by
  rw [blt, Bool.not_eq_true', ← Bool.not_eq_true, ble_iff_le]
  exact List.not_le

theorem blt_of_ble_of_ne {a b : Text} (h : ble a b) (hne : a ≠ b) : blt a b := by
  rw [blt, Bool.not_eq_true', ← Bool.not_eq_true]
  intro hba
  rw [ble_iff_le] at h hba
  exact hne (List.le_antisymm h hba)

theorem ble_of_blt {a b : Text} (h : blt a b) : ble a b := by
  have htotal := ble_total a b
  rw [blt, Bool.not_eq_true'] at h
  rwa [h, Bool.or_false] at htotal

theorem ne_of_blt {a b : Text} (h : blt a b) : a ≠ b := by
  rintro rfl
  have hself := ble_total a a
  rw [blt, Bool.not_eq_true'] at h
  rw [h, Bool.or_self] at hself
  cases hself

section Sorting

variable {α : Type} (name : α → Text)

theorem pairwise_mergeSort_ble (values : List α) :
    (values.mergeSort fun a b => ble (name a) (name b)).Pairwise fun a b => ble (name a) (name b) :=
  List.pairwise_mergeSort (fun a b c => ble_trans (name a) (name b) (name c))
    (fun a b => ble_total (name a) (name b)) values

/-- Values with different names are strictly sorted by them. -/
theorem pairwise_mergeSort_blt {values : List α} (h : (values.map name).Nodup) :
    (values.mergeSort fun a b => ble (name a) (name b)).Pairwise fun a b => blt (name a) (name b) := by
  have hperm := List.mergeSort_perm values fun a b => ble (name a) (name b)
  have hnodup := (hperm.map name).nodup_iff.mpr h
  exact (pairwise_mergeSort_ble name values).imp₂ (fun _ _ => blt_of_ble_of_ne)
    (List.pairwise_map.mp hnodup)

theorem mergeSort_of_blt {values : List α}
    (h : values.Pairwise fun a b => blt (name a) (name b)) :
    (values.mergeSort fun a b => ble (name a) (name b)) = values :=
  List.mergeSort_of_pairwise (h.imp ble_of_blt)

end Sorting

end Text

end ClassEngine
