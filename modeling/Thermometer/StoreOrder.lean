import Mathlib.Data.List.GetD
import Thermometer.LoadStoreQueue

namespace Thermometer.StoreOrder

open LoadStoreQueue

/-- A store operand, as an entry of the store queue gives it. -/
structure Store where
  instrId : Nat
  virtualAddress : Nat
  dataIndex : Fin numInstrDestinations
  deriving DecidableEq

def Store.empty : Store := ⟨0, 0, LsqEntry.empty.dataIndex⟩

def Earlier (x y : Store) : Prop := x.instrId < y.instrId ∨ x.instrId = y.instrId ∧ x.dataIndex < y.dataIndex

def storesOf (n : Nat) (x : Instr) : List Store :=
  ((List.finRange numInstrDestinations).filter (fun i => x.destinationMemory i ≠ 0)).map
    (fun i => ⟨n, x.destinationMemory i, i⟩)

def storesFrom (n : Nat) : List Instr → List Store
  | [] => []
  | x :: xs => storesOf n x ++ storesFrom (n + 1) xs

def storeAt (program : List Instr) (n : Nat) (d : Fin numInstrDestinations) : Store :=
  ⟨n, (program.getD n ⟨fun _ => 0, fun _ => 0⟩).destinationMemory d, d⟩

section Stores

variable {x y : Store} {n m : Nat} {z : Instr} {xs ys program : List Instr} {d : Fin numInstrDestinations}

theorem mem_storesOf : x ∈ storesOf n z ↔
    x.instrId = n ∧ x.virtualAddress = z.destinationMemory x.dataIndex ∧ x.virtualAddress ≠ 0 := by
  rw [storesOf, List.mem_map]
  constructor
  · rintro ⟨i, hi, rfl⟩
    exact ⟨rfl, rfl, of_decide_eq_true (List.mem_filter.mp hi).2⟩
  · rintro ⟨rfl, hx, hne⟩
    refine ⟨x.dataIndex, List.mem_filter.mpr ⟨List.mem_finRange _, decide_eq_true (hx ▸ hne)⟩, ?_⟩
    rw [← hx]

theorem storesFrom_append : storesFrom n (xs ++ ys) = storesFrom n xs ++ storesFrom (n + xs.length) ys := by
  induction xs generalizing n with
  | nil => rfl
  | cons z xs ih =>
      have hn : n + 1 + xs.length = n + (xs.length + 1) := by omega
      rw [List.cons_append, storesFrom, ih, storesFrom, List.append_assoc, List.length_cons, hn]

theorem instrId_of_mem (hx : x ∈ storesFrom n xs) : n ≤ x.instrId ∧ x.instrId < n + xs.length := by
  induction xs generalizing n with
  | nil => cases hx
  | cons z xs ih =>
      rw [List.length_cons]
      rcases List.mem_append.mp hx with hx | hx
      · rw [(mem_storesOf.mp hx).1]
        omega
      · have hrest := ih hx
        omega

theorem storesOf_pairwise : (storesOf n z).Pairwise Earlier := by
  apply List.pairwise_map.mpr
  exact ((List.pairwise_lt_finRange _).filter _).imp (fun hlt => .inr ⟨rfl, hlt⟩)

theorem storesFrom_pairwise : (storesFrom n xs).Pairwise Earlier := by
  induction xs generalizing n with
  | nil => exact List.Pairwise.nil
  | cons z xs ih =>
      refine List.pairwise_append.mpr ⟨storesOf_pairwise, ih, fun x hx y hy => .inl ?_⟩
      rw [(mem_storesOf.mp hx).1]
      exact (instrId_of_mem hy).1

theorem storesFrom_nodup : (storesFrom n xs).Nodup := by
  apply storesFrom_pairwise.imp
  rintro x y (hlt | ⟨-, hlt⟩) rfl
  · exact lt_irrefl _ hlt
  · exact lt_irrefl _ hlt

theorem storeAt_append (hn : n < program.length) : storeAt (program ++ xs) n d = storeAt program n d := by
  rw [storeAt, storeAt, List.getD_append _ _ _ _ hn]

theorem mem_stores : x ∈ storesFrom 0 program ↔
    x = storeAt program x.instrId x.dataIndex ∧ x.virtualAddress ≠ 0 := by
  induction program using List.reverseRecOn with
  | nil =>
      refine iff_of_false List.not_mem_nil ?_
      rintro ⟨hx, hne⟩
      rw [hx] at hne
      exact hne rfl
  | append_singleton program z ih =>
      rw [storesFrom_append, List.mem_append, Nat.zero_add, storesFrom, storesFrom, List.append_nil]
      rcases Nat.lt_trichotomy x.instrId program.length with hlt | heq | hgt
      · rw [ih, storeAt_append hlt, or_iff_left]
        intro hx
        exact absurd (mem_storesOf.mp hx).1 hlt.ne
      · have hlast : storeAt (program ++ [z]) x.instrId x.dataIndex =
            ⟨x.instrId, z.destinationMemory x.dataIndex, x.dataIndex⟩ := by
          rw [storeAt, heq, List.getD_eq_getElem?_getD, List.getElem?_concat_length]
          rfl
        rw [hlast, mem_storesOf, and_iff_right heq, or_iff_right]
        · refine and_congr_left' ⟨fun hx => ?_, fun hx => congrArg Store.virtualAddress hx⟩
          rw [← hx]
        · intro hx
          have hbound := (instrId_of_mem hx).2
          omega
      · have hout : storeAt (program ++ [z]) x.instrId x.dataIndex = ⟨x.instrId, 0, x.dataIndex⟩ := by
          rw [storeAt, List.getD_eq_default]
          rw [List.length_append, List.length_singleton]
          exact hgt
        refine iff_of_false ?_ ?_
        · rintro (hx | hx)
          · have hbound := (instrId_of_mem hx).2
            omega
          · exact absurd (mem_storesOf.mp hx).1 hgt.ne'
        · rintro ⟨hx, hne⟩
          rw [hout] at hx
          rw [hx] at hne
          exact hne rfl

theorem storeAt_mem : storeAt program n d ∈ storesFrom 0 program ↔ (storeAt program n d).virtualAddress ≠ 0 :=
  mem_stores.trans (and_iff_right rfl)

end Stores

end Thermometer.StoreOrder
