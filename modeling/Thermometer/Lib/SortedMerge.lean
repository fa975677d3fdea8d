import Mathlib.Order.Lattice
import Mathlib.Data.List.Sort

namespace Thermometer.Lib.SortedMerge

variable {α : Type} [LinearOrder α]

def insertBefore (d : α) (ds : List α) (rest : List α → List α) : List α → List α
  | [] => d :: ds
  | s :: ss =>
      if d < s then d :: rest (s :: ss)
      else if s = d then insertBefore d ds rest ss
      else s :: insertBefore d ds rest ss

def merge : List α → List α → List α
  | [], src => src
  | d :: ds, src => insertBefore d ds (merge ds) src

@[simp] theorem merge_nil_left (src : List α) : merge [] src = src := rfl

@[simp] theorem merge_nil_right (dest : List α) : merge dest [] = dest := by
  cases dest <;> rfl

theorem mem_insertBefore {d x : α} {ds : List α} {rest : List α → List α}
    (hrest : ∀ src, x ∈ rest src ↔ x ∈ ds ∨ x ∈ src) (src : List α) :
    x ∈ insertBefore d ds rest src ↔ x = d ∨ x ∈ ds ∨ x ∈ src := by
  induction src with
  | nil => simp [insertBefore]
  | cons s ss ih =>
      simp only [insertBefore]
      split_ifs with hlt heq
      · rw [List.mem_cons, hrest]
      · rw [ih, List.mem_cons, heq]
        tauto
      · rw [List.mem_cons, ih, List.mem_cons]
        tauto

@[simp] theorem mem_merge {x : α} (dest src : List α) : x ∈ merge dest src ↔ x ∈ dest ∨ x ∈ src := by
  induction dest generalizing src with
  | nil => simp
  | cons d ds ih =>
      rw [merge, mem_insertBefore ih, List.mem_cons]
      tauto

theorem merge_cons_cons (d s : α) (ds ss : List α) : merge (d :: ds) (s :: ss) =
    if d < s then d :: merge ds (s :: ss) else if s = d then merge (d :: ds) ss else s :: merge (d :: ds) ss := rfl

/-- The list goes on strictly increasing. -/
abbrev Increasing (l : List α) : Prop := l.Pairwise (fun a b => a < b)

theorem Increasing.merge {dest src : List α} (hd : Increasing dest) (hs : Increasing src) : Increasing (merge dest src) := by
  induction dest generalizing src with
  | nil => exact hs
  | cons d ds ih =>
      obtain ⟨hfirst, hds⟩ := List.pairwise_cons.mp hd
      induction src with
      | nil => exact hd
      | cons s ss ihs =>
          obtain ⟨hnext, hss⟩ := List.pairwise_cons.mp hs
          rw [merge_cons_cons]
          split_ifs with hlt heq
          · apply List.pairwise_cons.mpr
            refine ⟨fun x hx => ?_, ih hds hs⟩
            rcases (mem_merge _ _).mp hx with hx | hx
            · exact hfirst x hx
            · rcases List.mem_cons.mp hx with rfl | hx
              · exact hlt
              · exact hlt.trans (hnext x hx)
          · exact ihs hss
          · have hsd : s < d := lt_of_le_of_ne (not_lt.mp hlt) heq
            apply List.pairwise_cons.mpr
            refine ⟨fun x hx => ?_, ihs hss⟩
            rcases (mem_merge _ _).mp hx with hx | hx
            · rcases List.mem_cons.mp hx with rfl | hx
              · exact hsd
              · exact hsd.trans (hfirst x hx)
            · exact hnext x hx

theorem merge_eq_self {dest src : List α} (hd : Increasing dest) (hs : Increasing src) (h : src ⊆ dest) :
    merge dest src = dest := by
  apply (hd.merge hs).eq_of_mem_iff hd
  intro x
  rw [mem_merge]
  exact or_iff_left_of_imp (fun hx => h hx)

section Fold

variable {dest : List α} {srcs srcs' : List (List α)}

theorem mem_foldl_merge {x : α} : x ∈ srcs.foldl merge dest ↔ x ∈ dest ∨ ∃ src ∈ srcs, x ∈ src := by
  induction srcs generalizing dest with
  | nil => simp
  | cons src srcs ih =>
      rw [List.foldl_cons, ih, mem_merge]
      simp only [List.mem_cons, exists_eq_or_imp]
      exact or_assoc

theorem increasing_foldl_merge (hd : Increasing dest) (hs : ∀ src ∈ srcs, Increasing src) :
    Increasing (srcs.foldl merge dest) := by
  induction srcs generalizing dest with
  | nil => exact hd
  | cons src srcs ih =>
      rw [List.foldl_cons]
      apply ih (hd.merge (hs src List.mem_cons_self))
      intro src' hmem
      exact hs src' (List.mem_cons_of_mem src hmem)

theorem foldl_merge_congr (hd : Increasing dest) (hs : ∀ src ∈ srcs, Increasing src) (hs' : ∀ src ∈ srcs', Increasing src)
    (h : ∀ src, src ∈ srcs ↔ src ∈ srcs') : srcs.foldl merge dest = srcs'.foldl merge dest := by
  apply (increasing_foldl_merge hd hs).eq_of_mem_iff (increasing_foldl_merge hd hs')
  intro x
  rw [mem_foldl_merge, mem_foldl_merge]
  apply or_congr_right
  constructor
  · rintro ⟨src, hsrc, hx⟩
    exact ⟨src, (h src).mp hsrc, hx⟩
  · rintro ⟨src, hsrc, hx⟩
    exact ⟨src, (h src).mpr hsrc, hx⟩

end Fold

end Thermometer.Lib.SortedMerge
