import Mathlib.Data.List.TakeWhile
import Thermometer.ReuseRecord

namespace Thermometer.ReuseTracking

open Trace Lib.Tables ReuseRecord

/-- The part of a history that a branch takes part in: the accesses of its set
from its own first one on. -/
def seenBy (index : Nat → Nat) (ip : Nat) (l : List Nat) : List Nat :=
  (ofSet index (index ip) l).dropWhile (fun j => j != ip)

/-- The recorder after the accesses `l`: the views hold the branches of their
sets, and each branch accessed has an entry that saw its part of the history. -/
structure Tracks (r : ReuseDistance) (l : List Nat) : Prop where
  recording : r.recordReuseDistance = true
  view : ∀ set ip, ip ∈ r.btbViewBranchRecord set ↔ maskIndex r.totalSets ip = set ∧ ip ∈ l
  absent : ∀ ip, ip ∉ l → r.sortedBranchRecord.lookup ip = none
  entry : ∀ ip ∈ l, ∃ target ty, r.sortedBranchRecord.lookup ip =
    some ((seenBy (maskIndex r.totalSets) ip l).foldl ReuseEntry.access (.new ip target ty))

variable {index : Nat → Nat} {ip a : Nat} {l : List Nat} {r : ReuseDistance}

theorem seenBy_split (index : Nat → Nat) (ip : Nat) (before after : List Nat) :
    seenBy index ip (before ++ ip :: after) = seenBy index ip before ++ ip :: ofSet index (index ip) after := by
  rw [seenBy, ofSet_append, ofSet_cons_self, List.dropWhile_append, seenBy]
  cases hfront : (ofSet index (index ip) before).dropWhile (fun j => j != ip) with
  | nil => rw [List.isEmpty_nil, if_pos rfl, List.dropWhile_cons_of_neg (by simp), List.nil_append]
  | cons b front => rw [List.isEmpty_cons, if_neg (by simp)]

theorem count_seenBy (index : Nat → Nat) (ip : Nat) (l : List Nat) : (seenBy index ip l).count ip = l.count ip := by
  rw [seenBy, ← count_ofSet index ip l]
  induction ofSet index (index ip) l with
  | nil => rfl
  | cons b l ih =>
      by_cases hb : b = ip
      · rw [List.dropWhile_cons_of_neg (by simpa using hb)]
      · rw [List.dropWhile_cons_of_pos (by simpa using hb), ih, List.count_cons_of_ne hb]

theorem seenBy_of_notMem (h : ip ∉ l) : seenBy index ip l = [] := by
  rw [seenBy, List.dropWhile_eq_nil_iff]
  intro j hj
  rw [bne_iff_ne]
  rintro rfl
  exact h (mem_ofSet.mp hj).2

theorem seenBy_concat (h : ip ∈ l ∨ ip = a) : seenBy index ip (l ++ [a]) =
    if index ip = index a then seenBy index ip l ++ [a] else seenBy index ip l := by
  by_cases hset : index a = index ip
  · rw [if_pos hset.symm, seenBy, ofSet_concat, if_pos hset, List.dropWhile_append, seenBy]
    cases hfront : (ofSet index (index ip) l).dropWhile (fun j => j != ip) with
    | cons b front => rw [List.isEmpty_cons, if_neg (by simp)]
    | nil =>
        have hno : ip ∉ l := by
          intro hmem
          have hne := List.dropWhile_eq_nil_iff.mp hfront ip (mem_ofSet.mpr ⟨rfl, hmem⟩)
          rw [bne_self_eq_false] at hne
          cases hne
        rw [List.isEmpty_nil, if_pos rfl, List.nil_append, h.resolve_left hno, List.dropWhile_cons_of_neg (by simp)]
  · rw [if_neg (fun h => hset h.symm), seenBy, ofSet_concat, if_neg hset, seenBy]

theorem tracks_new (sets : Nat) : Tracks (.new sets true) [] := by
  refine ⟨rfl, fun set ip => ?_, fun ip _ => rfl, fun ip hip => by cases hip⟩
  exact iff_of_false (AList.notMem_empty _) (fun h => List.not_mem_nil h.2)

theorem Tracks.lookup_step (h : Tracks r l) (x : Taken) (j : Nat) :
    (r.step x).sortedBranchRecord.lookup j =
      let found := (insertNew r.sortedBranchRecord x.ip (.new x.ip x.target x.branchType)).lookup j
      if maskIndex r.totalSets j = maskIndex r.totalSets x.ip ∧ (j = x.ip ∨ j ∈ l) then
        found.map (fun e => e.access x.ip) else found := by
  have hview : ∀ i, i ∈ (insertNew (r.btbViewBranchRecord (maskIndex r.totalSets x.ip)) x.ip ()).keys ↔
      maskIndex r.totalSets i = maskIndex r.totalSets x.ip ∧ (i = x.ip ∨ i ∈ l) := by
    intro i
    rw [← AList.mem_keys, mem_insertNew, h.view]
    constructor
    · rintro (rfl | ⟨hset, hi⟩)
      · exact ⟨rfl, .inl rfl⟩
      · exact ⟨hset, .inr hi⟩
    · rintro ⟨hset, rfl | hi⟩
      · exact .inl rfl
      · exact .inr ⟨hset, hi⟩
  rw [ReuseDistance.step, ReuseDistance.access, if_pos h.recording]
  have hperm := x.viewOrder.perm (insertNew (r.btbViewBranchRecord (maskIndex r.totalSets x.ip)) x.ip ()).keys
  have hwalk := lookup_walk (t := insertNew r.sortedBranchRecord x.ip (.new x.ip x.target x.branchType)) x.ip
    (hperm.nodup_iff.mpr (AList.keys_nodup _)) (by
      intro i hi
      rw [mem_insertNew]
      rcases ((hview i).mp (hperm.mem_iff.mp hi)).2 with hi | hi
      · exact .inl hi
      · obtain ⟨target, ty, hentry⟩ := h.entry i hi
        exact .inr ((mem_iff_lookup _ i).mpr ⟨_, hentry⟩)) j
  rw [hwalk]
  simp only [hperm.mem_iff, hview]

theorem Tracks.step (h : Tracks r l) (x : Taken) : Tracks (r.step x) (l ++ [x.ip]) ∧ (r.step x).totalSets = r.totalSets := by
  have hsets : (r.step x).totalSets = r.totalSets := by
    rw [ReuseDistance.step, ReuseDistance.access, if_pos h.recording]
  have hmem : ∀ j, j ∈ l ++ [x.ip] ↔ j = x.ip ∨ j ∈ l := by
    intro j
    rw [List.mem_append, List.mem_singleton, or_comm]
  refine ⟨⟨?_, ?_, ?_, ?_⟩, hsets⟩
  · rw [ReuseDistance.step, ReuseDistance.access, if_pos h.recording]
    exact h.recording
  · intro set j
    rw [hsets, hmem, ReuseDistance.step, ReuseDistance.access, if_pos h.recording]
    change j ∈ Function.update r.btbViewBranchRecord _ _ set ↔ _
    by_cases hset : set = maskIndex r.totalSets x.ip
    · rw [hset, Function.update_self, mem_insertNew, h.view]
      constructor
      · rintro (rfl | ⟨hj, hl⟩)
        · exact ⟨rfl, .inl rfl⟩
        · exact ⟨hj, .inr hl⟩
      · rintro ⟨hj, rfl | hl⟩
        · exact .inl rfl
        · exact .inr ⟨hj, hl⟩
    · rw [Function.update_of_ne hset, h.view]
      refine and_congr_right (fun hj => ?_)
      have hne : j ≠ x.ip := by
        rintro rfl
        exact hset hj.symm
      rw [or_iff_right hne]
  · intro j hj
    rw [hmem, not_or] at hj
    rw [h.lookup_step x, if_neg (fun hc => hc.2.elim hj.1 hj.2)]
    have hno : j ∉ insertNew r.sortedBranchRecord x.ip (.new x.ip x.target x.branchType) := by
      rw [mem_insertNew, not_or]
      exact ⟨hj.1, AList.lookup_eq_none.mp (h.absent j hj.2)⟩
    exact AList.lookup_eq_none.mpr hno
  · intro j hj
    rw [hmem] at hj
    have hfound : ∃ target ty, (insertNew r.sortedBranchRecord x.ip (.new x.ip x.target x.branchType)).lookup j =
        some ((seenBy (maskIndex r.totalSets) j l).foldl ReuseEntry.access (.new j target ty)) := by
      by_cases hl : j ∈ l
      · obtain ⟨target, ty, hentry⟩ := h.entry j hl
        refine ⟨target, ty, ?_⟩
        by_cases hx : x.ip ∈ r.sortedBranchRecord
        · rw [insertNew, if_pos hx, hentry]
        · have hne : j ≠ x.ip := by
            rintro rfl
            exact hx ((mem_iff_lookup _ _).mpr ⟨_, hentry⟩)
          rw [lookup_insertNew_of_notMem hx, if_neg hne, hentry]
      · obtain rfl := hj.resolve_right hl
        refine ⟨x.target, x.branchType, ?_⟩
        rw [lookup_insertNew_of_notMem (AList.lookup_eq_none.mp (h.absent _ hl)), if_pos rfl, seenBy_of_notMem hl]
        rfl
    obtain ⟨target, ty, hentry⟩ := hfound
    refine ⟨target, ty, ?_⟩
    rw [h.lookup_step x, hsets, seenBy_concat hj.symm]
    by_cases hset : maskIndex r.totalSets j = maskIndex r.totalSets x.ip
    · rw [if_pos ⟨hset, hj⟩, if_pos hset, hentry, List.foldl_append]
      rfl
    · rw [if_neg (fun hc => hset hc.1), if_neg hset, hentry]

theorem tracks_run (sets : Nat) (xs : List Taken) :
    Tracks (xs.foldl ReuseDistance.step (.new sets true)) (xs.map Taken.ip) ∧
      (xs.foldl ReuseDistance.step (.new sets true)).totalSets = sets := by
  induction xs using List.reverseRecOn with
  | nil => exact ⟨tracks_new sets, rfl⟩
  | append_singleton xs x ih =>
      obtain ⟨htracks, hsets⟩ := ih
      obtain ⟨hnext, hsame⟩ := htracks.step x
      rw [List.foldl_append, List.map_append]
      exact ⟨hnext, hsame.trans hsets⟩

theorem Tracks.recorded_of_mem (h : Tracks r l) (hip : ip ∈ l) : ∃ target ty, r.recorded ip =
    ((seenBy (maskIndex r.totalSets) ip l).foldl ReuseEntry.access (.new ip target ty)).reuseDistanceRecord := by
  obtain ⟨target, ty, hentry⟩ := h.entry ip hip
  exact ⟨target, ty, by rw [ReuseDistance.recorded, hentry]⟩

theorem Tracks.length_recorded (h : Tracks r l) (ip : Nat) : (r.recorded ip).length = l.count ip := by
  by_cases hip : ip ∈ l
  · obtain ⟨target, ty, hrecorded⟩ := h.recorded_of_mem hip
    obtain ⟨values, hlength, hrecord⟩ :=
      accesses_record (.new ip target ty) (seenBy (maskIndex r.totalSets) ip l)
    rw [hrecorded, hrecord]
    exact hlength.trans (count_seenBy _ ip l)
  · rw [ReuseDistance.recorded, h.absent ip hip, List.count_eq_zero_of_not_mem hip]
    rfl

/-- The value recorded for an access counts the branches of its set since the
one before. -/
theorem Tracks.recorded_again {before since after : List Nat} (hip : ip ∉ since)
    (h : Tracks r (before ++ ip :: (since ++ ip :: after))) :
    (r.recorded ip)[before.count ip + 1]? =
      some (ofSet (maskIndex r.totalSets) (maskIndex r.totalSets ip) since).toFinset.card := by
  obtain ⟨target, ty, hrecorded⟩ := h.recorded_of_mem (List.mem_append_right _ List.mem_cons_self)
  obtain ⟨first, hfirst, hbefore⟩ :=
    accesses_record (.new ip target ty) (seenBy (maskIndex r.totalSets) ip before)
  have hip₁ := accesses_ip (.new ip target ty) (seenBy (maskIndex r.totalSets) ip before)
  generalize hstart : (seenBy (maskIndex r.totalSets) ip before).foldl ReuseEntry.access (.new ip target ty) = e at hbefore hip₁
  change e.ip = ip at hip₁
  have hno : e.ip ∉ ofSet (maskIndex r.totalSets) (maskIndex r.totalSets ip) since := by
    rw [hip₁]
    exact fun hmem => hip (mem_ofSet.mp hmem).2
  have hagain := accesses_again hno
  rw [hip₁] at hagain
  obtain ⟨values, -, hrest⟩ := accesses_record
    ((ip :: ofSet (maskIndex r.totalSets) (maskIndex r.totalSets ip) since ++ [ip]).foldl ReuseEntry.access e)
    (ofSet (maskIndex r.totalSets) (maskIndex r.totalSets ip) after)
  have hseen : seenBy (maskIndex r.totalSets) ip (before ++ ip :: (since ++ ip :: after)) =
      seenBy (maskIndex r.totalSets) ip before ++
        ((ip :: ofSet (maskIndex r.totalSets) (maskIndex r.totalSets ip) since ++ [ip]) ++
          ofSet (maskIndex r.totalSets) (maskIndex r.totalSets ip) after) := by
    rw [seenBy_split, ofSet_append, ofSet_cons_self]
    simp
  have hlength : e.reuseDistanceRecord.length = before.count ip := by
    rw [hbefore]
    exact hfirst.trans (count_seenBy _ ip before)
  rw [hrecorded, hseen, List.foldl_append, hstart, List.foldl_append, hrest, hagain, List.append_assoc,
    List.getElem?_append_right (by omega), hlength, Nat.add_sub_cancel_left]
  rfl

end Thermometer.ReuseTracking
