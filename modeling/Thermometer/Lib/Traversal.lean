import Mathlib.Data.List.FinRange
import Mathlib.Order.Basic

namespace Thermometer.Lib.Traversal

variable {α : Type} [Preorder α] {done rest : List α} {c d : α}

theorem not_mem_of_lt (h : (d :: rest).Pairwise (fun c d => c < d)) (hc : c < d) : c ∉ d :: rest := by
  intro hin
  rcases List.mem_cons.mp hin with rfl | hin
  · exact lt_irrefl _ hc
  · exact lt_asymm hc ((List.pairwise_cons.mp h).1 c hin)

section Split

/-- What has been visited and what is left of a traversal of all elements in their order. -/
structure Split (done rest : List α) : Prop where
  sorted : rest.Pairwise (fun c d => c < d)
  all : ∀ c, c ∈ done ∨ c ∈ rest
  disjoint : ∀ c ∈ rest, c ∉ done

theorem split_finRange (n : Nat) : Split [] (List.finRange n) :=
  ⟨List.pairwise_lt_finRange n, fun c => .inr (List.mem_finRange c), fun _ _ => List.not_mem_nil⟩

theorem Split.before (h : Split done (d :: rest)) (hc : c < d) : c ∈ done :=
  (h.all c).resolve_right (not_mem_of_lt h.sorted hc)

theorem Split.fresh (h : Split done (d :: rest)) : d ∉ done := h.disjoint d List.mem_cons_self

theorem Split.next (h : Split done (d :: rest)) : Split (d :: done) rest := by
  obtain ⟨hfirst, hsorted⟩ := List.pairwise_cons.mp h.sorted
  refine ⟨hsorted, fun c => ?_, fun c hc hin => ?_⟩
  · rcases h.all c with hd | hr
    · exact .inl (List.mem_cons_of_mem _ hd)
    · rcases List.mem_cons.mp hr with rfl | hr
      · exact .inl List.mem_cons_self
      · exact .inr hr
  · rcases List.mem_cons.mp hin with rfl | hin
    · exact lt_irrefl _ (hfirst c hc)
    · exact h.disjoint c (List.mem_cons_of_mem _ hc) hin

theorem Split.mem (h : Split done []) (c : α) : c ∈ done := (h.all c).resolve_right List.not_mem_nil

end Split

section Tried

variable {needed did did' : α → Prop} {go go' : Prop}

def Tried (needed did : α → Prop) (rest : List α) (go : Prop) : Prop := ∀ c, needed c → did c ∨ c ∈ rest ∨ ¬go

theorem Tried.before (h : Tried needed did (d :: rest) go) (hsorted : (d :: rest).Pairwise (fun c d => c < d)) (hgo : go)
    (hc : c < d) (hn : needed c) : did c := by
  rcases h c hn with hd | hr | hstop
  · exact hd
  · exact absurd hr (not_mem_of_lt hsorted hc)
  · exact absurd hgo hstop

omit [Preorder α] in
theorem Tried.next (h : Tried needed did (d :: rest) go) (hgo : go) (hd : did' d) (hmono : ∀ c, did c → did' c) :
    Tried needed did' rest go' := by
  intro c hn
  rcases h c hn with hc | hr | hstop
  · exact .inl (hmono c hc)
  · rcases List.mem_cons.mp hr with rfl | hr
    · exact .inl hd
    · exact .inr (.inl hr)
  · exact absurd hgo hstop

omit [Preorder α] in
theorem Tried.skip (h : Tried needed did (d :: rest) go) (hd : needed d → did d ∨ ¬go) : Tried needed did rest go := by
  intro c hn
  rcases h c hn with hc | hr | hstop
  · exact .inl hc
  · rcases List.mem_cons.mp hr with rfl | hr
    · exact (hd hn).imp_right .inr
    · exact .inr (.inl hr)
  · exact .inr (.inr hstop)

end Tried

end Thermometer.Lib.Traversal
