import Mathlib.Data.List.Perm.Basic

namespace Thermometer.Lib.ListSort

variable {α : Type}

def mergeFrom (comp : α → α → Bool) (l : α) (ls : List α) (rest : List α → List α) : List α → List α
  | [] => l :: ls
  | r :: rs => if comp r l = true then r :: mergeFrom comp l ls rest rs else l :: rest (r :: rs)

def merge (comp : α → α → Bool) : List α → List α → List α
  | [], right => right
  | l :: ls, right => mergeFrom comp l ls (merge comp ls) right

def carry (comp : α → α → Bool) (run : List α) : List (List α) → List (List α)
  | [] => [run]
  | [] :: bins => run :: bins
  | (x :: xs) :: bins => [] :: carry comp (merge comp (x :: xs) run) bins

def sort (comp : α → α → Bool) (xs : List α) : List α :=
  (xs.foldl (fun bins x => carry comp [x] bins) []).foldl (fun run bin => merge comp bin run) []

variable {comp : α → α → Bool}

theorem mergeFrom_perm {l : α} {ls : List α} {rest : List α → List α} (hrest : ∀ right, (rest right).Perm (ls ++ right))
    (right : List α) : (mergeFrom comp l ls rest right).Perm (l :: ls ++ right) := by
  induction right with
  | nil => simp [mergeFrom]
  | cons r rs ih =>
      simp only [mergeFrom]
      split_ifs
      · exact (ih.cons r).trans List.perm_middle.symm
      · exact (hrest (r :: rs)).cons l

theorem merge_perm (left right : List α) : (merge comp left right).Perm (left ++ right) := by
  induction left generalizing right with
  | nil => exact List.Perm.refl right
  | cons l ls ih => exact mergeFrom_perm ih right

theorem carry_perm (run : List α) (bins : List (List α)) : (carry comp run bins).flatten.Perm (run ++ bins.flatten) := by
  induction bins generalizing run with
  | nil => simp [carry]
  | cons bin bins ih =>
      cases bin with
      | nil => simp [carry]
      | cons x xs =>
          simp only [carry, List.flatten_cons, List.nil_append]
          apply (ih _).trans
          rw [← List.append_assoc]
          apply List.Perm.append_right
          exact (merge_perm (x :: xs) run).trans List.perm_append_comm

theorem foldl_carry_perm (xs : List α) (bins : List (List α)) :
    (xs.foldl (fun bins x => carry comp [x] bins) bins).flatten.Perm (xs ++ bins.flatten) := by
  induction xs generalizing bins with
  | nil => exact List.Perm.refl _
  | cons x xs ih =>
      rw [List.foldl_cons]
      apply (ih _).trans
      apply ((carry_perm [x] bins).append_left xs).trans
      exact List.perm_middle

theorem foldl_merge_perm (run : List α) (bins : List (List α)) :
    (bins.foldl (fun run bin => merge comp bin run) run).Perm (run ++ bins.flatten) := by
  induction bins generalizing run with
  | nil => simp
  | cons bin bins ih =>
      rw [List.foldl_cons, List.flatten_cons, ← List.append_assoc]
      apply (ih _).trans
      apply List.Perm.append_right
      exact (merge_perm bin run).trans List.perm_append_comm

inductive Merged (comp : α → α → Bool) : List α → Prop
  | nil : Merged comp []
  | single (x : α) : Merged comp [x]
  | merge {left right : List α} (hl : Merged comp left) (hr : Merged comp right) : Merged comp (merge comp left right)

theorem carry_merged {run : List α} {bins : List (List α)} (hrun : Merged comp run) (hbins : ∀ bin ∈ bins, Merged comp bin) :
    ∀ bin ∈ carry comp run bins, Merged comp bin := by
  induction bins generalizing run with
  | nil =>
      intro bin hbin
      rw [carry, List.mem_singleton] at hbin
      exact hbin ▸ hrun
  | cons first bins ih =>
      have hrest : ∀ bin ∈ bins, Merged comp bin := fun bin hbin => hbins bin (List.mem_cons_of_mem first hbin)
      cases first with
      | nil =>
          intro bin hbin
          rcases List.mem_cons.mp hbin with rfl | hbin
          · exact hrun
          · exact hrest bin hbin
      | cons x xs =>
          intro bin hbin
          rcases List.mem_cons.mp hbin with rfl | hbin
          · exact .nil
          · exact ih (.merge (hbins (x :: xs) List.mem_cons_self) hrun) hrest bin hbin

theorem foldl_carry_merged (xs : List α) {bins : List (List α)} (hbins : ∀ bin ∈ bins, Merged comp bin) :
    ∀ bin ∈ xs.foldl (fun bins x => carry comp [x] bins) bins, Merged comp bin := by
  induction xs generalizing bins with
  | nil => exact hbins
  | cons x xs ih => exact ih (carry_merged (.single x) hbins)

theorem foldl_merge_merged {run : List α} {bins : List (List α)} (hrun : Merged comp run)
    (hbins : ∀ bin ∈ bins, Merged comp bin) : Merged comp (bins.foldl (fun run bin => merge comp bin run) run) := by
  induction bins generalizing run with
  | nil => exact hrun
  | cons bin bins ih =>
      exact ih (.merge (hbins bin List.mem_cons_self) hrun) (fun b hb => hbins b (List.mem_cons_of_mem bin hb))

theorem sort_merged (xs : List α) : Merged comp (sort comp xs) :=
  foldl_merge_merged .nil (foldl_carry_merged xs (fun _ hbin => absurd hbin List.not_mem_nil))

section Pairwise

variable {before : α → α → Prop} (htrans : ∀ x y z, before x y → before y z → before x z)
  (hfirst : ∀ x y, comp y x = true → before y x) (hlast : ∀ x y, comp y x = false → before x y)

include htrans hfirst hlast

theorem mergeFrom_pairwise {l : α} {ls : List α} {rest : List α → List α}
    (hperm : ∀ right, (rest right).Perm (ls ++ right))
    (hrest : ∀ right, right.Pairwise before → (rest right).Pairwise before) (hleft : (l :: ls).Pairwise before)
    {right : List α} (hright : right.Pairwise before) : (mergeFrom comp l ls rest right).Pairwise before := by
  induction right with
  | nil => exact hleft
  | cons r rs ih =>
      have hl := List.pairwise_cons.mp hleft
      have hr := List.pairwise_cons.mp hright
      simp only [mergeFrom]
      split_ifs with hcomp
      · refine List.pairwise_cons.mpr ⟨fun x hx => ?_, ih hr.2⟩
        rcases List.mem_append.mp ((mergeFrom_perm hperm rs).mem_iff.mp hx) with hx | hx
        · rcases List.mem_cons.mp hx with rfl | hx
          · exact hfirst _ r hcomp
          · exact htrans r l x (hfirst l r hcomp) (hl.1 x hx)
        · exact hr.1 x hx
      · rw [Bool.not_eq_true] at hcomp
        refine List.pairwise_cons.mpr ⟨fun x hx => ?_, hrest (r :: rs) hright⟩
        rcases List.mem_append.mp ((hperm (r :: rs)).mem_iff.mp hx) with hx | hx
        · exact hl.1 x hx
        · rcases List.mem_cons.mp hx with rfl | hx
          · exact hlast l _ hcomp
          · exact htrans l r x (hlast l r hcomp) (hr.1 x hx)

theorem merge_pairwise {left right : List α} (hleft : left.Pairwise before) (hright : right.Pairwise before) :
    (merge comp left right).Pairwise before := by
  induction left generalizing right with
  | nil => exact hright
  | cons l ls ih =>
      exact mergeFrom_pairwise htrans hfirst hlast (merge_perm ls) (fun _ h => ih (List.pairwise_cons.mp hleft).2 h)
        hleft hright

theorem Merged.pairwise {xs : List α} (h : Merged comp xs) : xs.Pairwise before := by
  induction h with
  | nil => exact List.Pairwise.nil
  | single x => exact List.pairwise_singleton before x
  | merge _ _ ihl ihr => exact merge_pairwise htrans hfirst hlast ihl ihr

end Pairwise

theorem sort_perm (xs : List α) : (sort comp xs).Perm xs := by
  have hcarry : (xs.foldl (fun bins x => carry comp [x] bins) []).flatten.Perm _ := foldl_carry_perm xs []
  rw [List.flatten_nil, List.append_nil] at hcarry
  exact (foldl_merge_perm [] _).trans hcarry

end Thermometer.Lib.ListSort
