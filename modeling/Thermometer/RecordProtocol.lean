import Mathlib.Computability.RegularExpressions
import Thermometer.AccessRecord

namespace Thermometer.RecordProtocol

open scoped Computability
open RegularExpression Lib.Tables AccessRecord Trace

def residency : RegularExpression RecordType := char .missInsert * (char .hit).star

/-- What a branch writes from one moment outside the BTB to the next. -/
def period : RegularExpression RecordType := char RecordType.missOnly + residency * char RecordType.evict

def absence : RegularExpression RecordType := period.star

/-- The lines that residencies write, one after the other, the last of them perhaps still going on. -/
def protocol : RegularExpression RecordType := absence * (1 + residency)

/-- The last mark that says whether the branch entered or left. -/
def lastPlacement (w : List RecordType) : Option RecordType :=
  (w.filter (fun m => m = .missInsert ∨ m = .evict)).getLast?

/-- A line that follows the protocol, mark by mark, and whether its branch is in the BTB at the end. -/
inductive Follows : List RecordType → Bool → Prop
  | nil : Follows [] false
  | missOnly {w} : Follows w false → Follows (w ++ [.missOnly]) false
  | missInsert {w} : Follows w false → Follows (w ++ [.missInsert]) true
  | hit {w} : Follows w true → Follows (w ++ [.hit]) true
  | evict {w} : Follows w true → Follows (w ++ [.evict]) false

variable {w v : List RecordType} {b : Bool}

theorem star_append {P : RegularExpression RecordType} (hw : w ∈ P.star.matches') (hv : v ∈ P.matches') :
    w ++ v ∈ P.star.matches' := by
  have hle : P.matches'∗ * P.matches' ≤ P.matches'∗ := kstar_mul_le_kstar
  exact hle (Language.append_mem_mul hw hv)

theorem residency_append (hw : w ∈ residency.matches') : w ++ [.hit] ∈ residency.matches' := by
  obtain ⟨x, hx, y, hy, rfl⟩ := Language.mem_mul.mp hw
  rw [List.append_assoc]
  exact Language.append_mem_mul hx (star_append hy rfl)

theorem residency_start : [RecordType.missInsert] ∈ residency.matches' :=
  Language.append_mem_mul (a := [RecordType.missInsert]) (b := []) rfl (Language.nil_mem_kstar _)

theorem Follows.split (h : Follows w b) :
    (b = false → w ∈ absence.matches') ∧
      (b = true → ∃ x ∈ absence.matches', ∃ y ∈ residency.matches', x ++ y = w) := by
  induction h with
  | nil => exact ⟨fun _ => Language.nil_mem_kstar _, nofun⟩
  | missOnly _ ih => exact ⟨fun _ => star_append (ih.1 rfl) (.inl rfl), nofun⟩
  | @missInsert w _ ih =>
      refine ⟨nofun, fun _ => ?_⟩
      exact ⟨w, ih.1 rfl, _, residency_start, rfl⟩
  | hit _ ih =>
      refine ⟨nofun, fun _ => ?_⟩
      obtain ⟨x, hx, y, hy, rfl⟩ := ih.2 rfl
      exact ⟨x, hx, _, residency_append hy, (List.append_assoc x y _).symm⟩
  | evict _ ih =>
      refine ⟨fun _ => ?_, nofun⟩
      obtain ⟨x, hx, y, hy, rfl⟩ := ih.2 rfl
      rw [List.append_assoc]
      exact star_append hx (.inr (Language.append_mem_mul hy rfl))

theorem Follows.mem_protocol (h : Follows w b) : w ∈ protocol.matches' := by
  cases b with
  | false =>
      have hw := Language.append_mem_mul (h.split.1 rfl) (b := []) (m := (1 + residency).matches') (.inl rfl)
      rwa [List.append_nil] at hw
  | true =>
      obtain ⟨x, hx, y, hy, rfl⟩ := h.split.2 rfl
      exact Language.append_mem_mul hx (.inr hy)

theorem Follows.lastPlacement_iff (h : Follows w b) : lastPlacement w = some .missInsert ↔ b = true := by
  induction h with
  | nil => simp [lastPlacement]
  | missOnly _ ih => simpa [lastPlacement] using ih
  | missInsert _ _ => simp [lastPlacement]
  | hit _ ih => simpa [lastPlacement] using ih
  | evict _ _ => simp [lastPlacement]

theorem Follows.of_prefix (h : Follows w b) (hv : v <+: w) : ∃ c, Follows v c := by
  induction h with
  | nil => exact ⟨false, List.prefix_nil.mp hv ▸ .nil⟩
  | missOnly h ih =>
      rcases List.prefix_concat_iff.mp hv with rfl | hv
      · exact ⟨false, .missOnly h⟩
      · exact ih hv
  | missInsert h ih =>
      rcases List.prefix_concat_iff.mp hv with rfl | hv
      · exact ⟨true, .missInsert h⟩
      · exact ih hv
  | hit h ih =>
      rcases List.prefix_concat_iff.mp hv with rfl | hv
      · exact ⟨true, .hit h⟩
      · exact ih hv
  | evict h ih =>
      rcases List.prefix_concat_iff.mp hv with rfl | hv
      · exact ⟨false, .evict h⟩
      · exact ih hv

/-- The line of a branch, empty for a branch without one. -/
def marks (r : Record) (ip : Nat) : List RecordType := ((r.branchRecord.lookup ip).map RecordEntry.record).getD []

theorem marks_access (r : Record) (ip target : Nat) (ty : BranchType) (hit insertOnMiss : Bool) (j : Nat) :
    marks (access r ip target ty hit insertOnMiss) j =
      if j = ip then marks r ip ++ [mark hit insertOnMiss] else marks r j := by
  simp only [marks, access, lookup_modify]
  by_cases hj : j = ip
  · subst hj
    rw [if_pos rfl, if_pos rfl]
    by_cases hm : j ∈ r.branchRecord
    · obtain ⟨e, he⟩ := (mem_iff_lookup _ _).mp hm
      simp [hm, he, RecordEntry.push]
    · simp [hm, AList.lookup_eq_none.mpr hm, RecordEntry.push]
  · rw [if_neg hj, if_neg hj]
    split_ifs with hm
    · rfl
    · rw [AList.lookup_insert_ne hj]

theorem marks_evict {r r' : Record} {ip : Nat} (h : evict r ip = some r') (j : Nat) :
    marks r' j = if j = ip then marks r ip ++ [.evict] else marks r j := by
  rw [evict] at h
  split_ifs at h with hm
  rw [Option.some.injEq] at h
  subst h
  simp only [marks, lookup_modify]
  split_ifs with hj
  · obtain ⟨e, he⟩ := (mem_iff_lookup _ _).mp hm
    simp [he, RecordEntry.push]
  · rfl

example : [.missOnly, .missInsert, .hit, .evict, .missInsert] ∈ protocol.matches' := by decide +kernel

example : ¬([.missInsert, .missOnly] ∈ protocol.matches') := by decide +kernel

end Thermometer.RecordProtocol
