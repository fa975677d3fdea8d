import Thermometer.Lib.Cursors
import Thermometer.Packets

namespace Thermometer.PacketMerge

open Lib.Cursors Lib.SortedMerge Packets

variable {α : Type} [LinearOrder α]

/-- The loop with its two iterators. Each turn moves one of them on. -/
def mergeLoop (dest src : Cursor α) : Cursor α × Cursor α :=
  match _hs : src.after, _hd : dest.after with
  | s :: _, d :: _ =>
    if d < s then mergeLoop dest.next src
    else if s = d then mergeLoop dest src.next
    else mergeLoop (dest.insert [s]) src.next
  | _, _ => (dest, src)
termination_by src.after.length + dest.after.length
decreasing_by
  all_goals simp_all [after_next ‹src.after = _›, after_next ‹dest.after = _›]

/-- The two lists afterwards. -/
def packetDepMerge (dest src : List α) : List α × List α :=
  if src = [] then (dest, src)
  else if dest = [] then (src, src)
  else
    let (d, s) := mergeLoop (.start dest) (.start src)
    ((d.insert s.after).list, s.list)

variable {dest src : List α} {d s : Cursor α}

theorem mergeLoop_src (d s : Cursor α) : (mergeLoop d s).2.list = s.list := by
  fun_induction mergeLoop d s with
  | case1 d s x rest y rest' hs hd hlt ih => exact ih
  | case2 d s rest y rest' hd hs hlt ih => exact ih.trans (list_next s)
  | case3 d s x rest y rest' hs hd hlt heq ih => exact ih.trans (list_next s)
  | case4 d s => rfl

theorem mergeLoop_dest (d s : Cursor α) :
    ((mergeLoop d s).1.insert (mergeLoop d s).2.after).list = d.before.reverse ++ merge d.after s.after := by
  fun_induction mergeLoop d s with
  | case1 d s x rest y rest' hs hd hlt ih =>
      rw [ih, before_next hd, after_next hd, hd, hs, merge_cons_cons, if_pos hlt]
      exact List.append_assoc _ _ _
  | case2 d s rest y rest' hd hs hlt ih =>
      rw [ih, after_next hs, hd, hs, merge_cons_cons, if_neg hlt, if_pos rfl]
  | case3 d s x rest y rest' hs hd hlt heq ih =>
      rw [ih, before_insert, after_insert, after_next hs, hd, hs, merge_cons_cons, if_neg hlt, if_neg heq]
      exact List.append_assoc _ _ _
  | case4 d s hend =>
      rw [list_insert]
      congr 1
      cases hs : s.after with
      | nil =>
          rw [merge_nil_right]
          rfl
      | cons x rest =>
          cases hd : d.after with
          | nil => exact List.append_nil _
          | cons y rest' => exact absurd hd (hend x rest y rest' hs)

theorem packetDepMerge_eq (dest src : List α) : packetDepMerge dest src = (merge dest src, src) := by
  rw [packetDepMerge]
  split_ifs with hsrc hdest
  · rw [hsrc, merge_nil_right]
  · rw [hdest, merge_nil_left]
  · exact Prod.ext (mergeLoop_dest _ _) (mergeLoop_src _ _)

def mergeAll (dest : List α) (srcs : List (List α)) : List α := srcs.foldl (fun dest src => (packetDepMerge dest src).1) dest

theorem mergeAll_eq (dest : List α) (srcs : List (List α)) : mergeAll dest srcs = srcs.foldl merge dest := by
  have hstep : (fun dest src : List α => (packetDepMerge dest src).1) = merge := by
    funext dest src
    rw [packetDepMerge_eq]
  rw [mergeAll, hstep]

/-- The list of an entry that the first request has made and into which the others have been merged. -/
def arrived : List (List α) → List α
  | [] => []
  | first :: rest => mergeAll first rest

theorem arrived_eq (requests : List (List α)) : arrived requests = requests.foldl merge [] := by
  cases requests with
  | nil => rfl
  | cons first rest => exact mergeAll_eq first rest

theorem arrived_perm {requests requests' : List (List α)} (h : ∀ l ∈ requests, Increasing l) (hp : requests.Perm requests') :
    arrived requests = arrived requests' := by
  rw [arrived_eq, arrived_eq]
  apply foldl_merge_congr .nil h
  · intro l hl
    exact h l (hp.mem_iff.mpr hl)
  · intro l
    exact hp.mem_iff

theorem arrived_again {requests : List (List α)} (h : ∀ l ∈ requests, Increasing l) (hsrc : src ∈ requests) :
    arrived (requests ++ [src]) = arrived requests := by
  have hmem : ∀ l, l ∈ requests ++ [src] ↔ l ∈ requests := by
    intro l
    rw [List.mem_append, List.mem_singleton]
    exact or_iff_left_of_imp (fun hl => hl ▸ hsrc)
  rw [arrived_eq, arrived_eq]
  apply foldl_merge_congr .nil ?_ h hmem
  intro l hl
  exact h l ((hmem l).mp hl)

/-- A merge is a union of sets, so that it makes no difference in which order the requests come and whether one of them
comes again. -/
theorem packetDepMerge_union (hd : Increasing dest) (hs : Increasing src) :
    (Increasing (packetDepMerge dest src).1 ∧ (∀ x, x ∈ (packetDepMerge dest src).1 ↔ x ∈ dest ∨ x ∈ src) ∧
      (packetDepMerge dest src).2 = src) ∧
    (packetDepMerge (packetDepMerge dest src).1 src).1 = (packetDepMerge dest src).1 ∧
    ∀ requests : List (List α), (∀ l ∈ requests, Increasing l) →
      (∀ requests', requests.Perm requests' → arrived requests = arrived requests') ∧
      ∀ l ∈ requests, arrived (requests ++ [l]) = arrived requests := by
  have hboth := hd.merge hs
  rw [packetDepMerge_eq, packetDepMerge_eq]
  refine ⟨⟨hboth, fun x => mem_merge dest src, rfl⟩, ?_, fun requests h => ⟨fun _ hp => arrived_perm h hp, fun _ hl =>
    arrived_again h hl⟩⟩
  apply merge_eq_self hboth hs
  intro x hx
  exact (mem_merge dest src).mpr (.inr hx)

theorem packetDepMerge_union_two : Increasing [1, 4] ∧ Increasing [2, 4, 7] ∧
    (Increasing (packetDepMerge [1, 4] [2, 4, 7]).1 ∧
      (∀ x, x ∈ (packetDepMerge [1, 4] [2, 4, 7]).1 ↔ x ∈ [1, 4] ∨ x ∈ [2, 4, 7]) ∧
      (packetDepMerge [1, 4] [2, 4, 7]).2 = [2, 4, 7]) ∧
    (packetDepMerge (packetDepMerge [1, 4] [2, 4, 7]).1 [2, 4, 7]).1 = (packetDepMerge [1, 4] [2, 4, 7]).1 ∧
    ∀ requests : List (List Nat), (∀ l ∈ requests, Increasing l) →
      (∀ requests', requests.Perm requests' → arrived requests = arrived requests') ∧
      ∀ l ∈ requests, arrived (requests ++ [l]) = arrived requests :=
  ⟨by decide, by decide, packetDepMerge_union (by decide) (by decide)⟩

/-- What `CACHE::add_rq` does to the entry that it finds. -/
theorem mergeRead_eq {R : Type} [LinearOrder R] (packet found : Packet R) : mergeRead packet found =
    { found with
      lqIndexDependOnMe := (packetDepMerge found.lqIndexDependOnMe packet.lqIndexDependOnMe).1
      sqIndexDependOnMe := (packetDepMerge found.sqIndexDependOnMe packet.sqIndexDependOnMe).1
      instrDependOnMe := (packetDepMerge found.instrDependOnMe packet.instrDependOnMe).1
      toReturn := (packetDepMerge found.toReturn packet.toReturn).1 } := by
  simp only [packetDepMerge_eq]
  rfl

end Thermometer.PacketMerge
