import Mathlib.Data.Finset.Card
import Mathlib.Logic.Function.Basic
import Thermometer.Lib.Tables
import Thermometer.Trace

namespace Thermometer.ReuseRecord

open Trace Lib.Tables

structure ReuseEntry where
  ip : Nat
  target : Nat
  branchType : BranchType
  distanceSet : Finset Nat
  reuseDistanceRecord : List Nat

def ReuseEntry.none : ReuseEntry := ⟨0, 0, .conditional, ∅, []⟩

def ReuseEntry.new (ip target : Nat) (branchType : BranchType) : ReuseEntry := ⟨ip, target, branchType, ∅, []⟩

def ReuseEntry.access (e : ReuseEntry) (accessIp : Nat) : ReuseEntry :=
  if accessIp = e.ip then
    { e with reuseDistanceRecord := e.reuseDistanceRecord ++ [e.distanceSet.card], distanceSet := ∅ }
  else { e with distanceSet := insert accessIp e.distanceSet }

/-- Of an unordered set only the keys matter, and the order of a walk over it. -/
structure ReuseDistance where
  totalSets : Nat
  sortedBranchRecord : Table ReuseEntry
  btbViewBranchRecord : Nat → Table Unit
  recordReuseDistance : Bool

def ReuseDistance.new (sets : Nat) (recordReuseDistance : Bool) : ReuseDistance :=
  ⟨sets, ∅, fun _ => ∅, recordReuseDistance⟩

def accessAt (accessIp : Nat) (t : Table ReuseEntry) (ip : Nat) : Table ReuseEntry :=
  modify (insertNew t ip .none) ip (fun e => e.access accessIp)

def ReuseDistance.access (o : IterOrder) (r : ReuseDistance) (accessIp target : Nat) (branchType : BranchType) :
    ReuseDistance :=
  if r.recordReuseDistance then
    let set := maskIndex r.totalSets accessIp
    let view := insertNew (r.btbViewBranchRecord set) accessIp ()
    let entries := insertNew r.sortedBranchRecord accessIp (.new accessIp target branchType)
    { r with
      btbViewBranchRecord := Function.update r.btbViewBranchRecord set view
      sortedBranchRecord := (o.order view.keys).foldl (accessAt accessIp) entries }
  else r

/-- A taken branch, with the orders in which the containers are walked for it. -/
structure Taken where
  ip : Nat
  target : Nat
  branchType : BranchType
  viewOrder : IterOrder
  levelOrder : Nat → IterOrder

def ReuseDistance.step (r : ReuseDistance) (x : Taken) : ReuseDistance :=
  r.access x.viewOrder x.ip x.target x.branchType

def ofSet (index : Nat → Nat) (set : Nat) (l : List Nat) : List Nat := l.filter (fun j => index j == set)

/-- What a run recorded for a branch. -/
def ReuseDistance.recorded (r : ReuseDistance) (ip : Nat) : List Nat :=
  match r.sortedBranchRecord.lookup ip with
  | some e => e.reuseDistanceRecord
  | none => []

variable {e : ReuseEntry} {ip accessIp : Nat} {t : Table ReuseEntry} {index : Nat → Nat} {set : Nat} {l : List Nat}

theorem mem_ofSet : ip ∈ ofSet index set l ↔ index ip = set ∧ ip ∈ l := by
  rw [ofSet, List.mem_filter, beq_iff_eq, and_comm]

theorem ofSet_concat (index : Nat → Nat) (set : Nat) (l : List Nat) (a : Nat) :
    ofSet index set (l ++ [a]) = if index a = set then ofSet index set l ++ [a] else ofSet index set l := by
  rw [ofSet, List.filter_append]
  by_cases ha : index a = set
  · rw [if_pos ha, List.filter_cons_of_pos (by simpa using ha)]
    rfl
  · rw [if_neg ha, List.filter_cons_of_neg (by simpa using ha)]
    exact List.append_nil _

theorem ofSet_append (index : Nat → Nat) (set : Nat) (l l' : List Nat) :
    ofSet index set (l ++ l') = ofSet index set l ++ ofSet index set l' := List.filter_append _ _

theorem ofSet_cons_self (index : Nat → Nat) (ip : Nat) (l : List Nat) :
    ofSet index (index ip) (ip :: l) = ip :: ofSet index (index ip) l := List.filter_cons_of_pos (beq_self_eq_true _)

theorem count_ofSet (index : Nat → Nat) (ip : Nat) (l : List Nat) : (ofSet index (index ip) l).count ip = l.count ip :=
  List.count_filter (beq_self_eq_true _)

theorem access_ip (e : ReuseEntry) (accessIp : Nat) : (e.access accessIp).ip = e.ip := by
  rw [ReuseEntry.access]
  split_ifs <;> rfl

theorem accesses_ip (e : ReuseEntry) (l : List Nat) : (l.foldl ReuseEntry.access e).ip = e.ip := by
  induction l generalizing e with
  | nil => rfl
  | cons a l ih => exact (ih _).trans (access_ip e a)

theorem accesses_record (e : ReuseEntry) (l : List Nat) : ∃ values, values.length = l.count e.ip ∧
    (l.foldl ReuseEntry.access e).reuseDistanceRecord = e.reuseDistanceRecord ++ values := by
  induction l generalizing e with
  | nil => exact ⟨[], rfl, (List.append_nil _).symm⟩
  | cons a l ih =>
      obtain ⟨values, hlength, hrecord⟩ := ih (e.access a)
      rw [access_ip] at hlength
      rw [List.foldl_cons, hrecord, ReuseEntry.access]
      by_cases ha : a = e.ip
      · refine ⟨e.distanceSet.card :: values, ?_, ?_⟩
        · rw [ha, List.count_cons_self, List.length_cons, hlength]
        · rw [if_pos ha, List.append_assoc]
          rfl
      · refine ⟨values, ?_, ?_⟩
        · rw [List.count_cons_of_ne ha, hlength]
        · rw [if_neg ha]

theorem accesses_others (hl : e.ip ∉ l) : (l.foldl ReuseEntry.access e).distanceSet = e.distanceSet ∪ l.toFinset ∧
    (l.foldl ReuseEntry.access e).reuseDistanceRecord = e.reuseDistanceRecord := by
  induction l generalizing e with
  | nil => exact ⟨(Finset.union_empty _).symm, rfl⟩
  | cons a l ih =>
      have ha : a ≠ e.ip := fun h => hl (h ▸ List.mem_cons_self)
      have hother : e.access a = { e with distanceSet := insert a e.distanceSet } := if_neg ha
      have hrest := ih (e := e.access a) (by
        rw [access_ip]
        exact fun h => hl (List.mem_cons_of_mem a h))
      rw [List.foldl_cons, hrest.1, hrest.2, hother, List.toFinset_cons]
      refine ⟨?_, rfl⟩
      ext j
      simp only [Finset.mem_union, Finset.mem_insert]
      tauto

theorem accesses_again (hl : e.ip ∉ l) : ((e.ip :: l ++ [e.ip]).foldl ReuseEntry.access e).reuseDistanceRecord =
    e.reuseDistanceRecord ++ [e.distanceSet.card, l.toFinset.card] := by
  have hself : e.access e.ip =
      { e with reuseDistanceRecord := e.reuseDistanceRecord ++ [e.distanceSet.card], distanceSet := ∅ } := if_pos rfl
  have hbetween := accesses_others (e := e.access e.ip) (l := l) (by
    rw [access_ip]
    exact hl)
  have hip : (l.foldl ReuseEntry.access (e.access e.ip)).ip = e.ip := (accesses_ip _ l).trans (access_ip e e.ip)
  rw [List.foldl_append, List.foldl_cons, List.foldl_cons, List.foldl_nil]
  generalize hlast : l.foldl ReuseEntry.access (e.access e.ip) = last at hbetween hip
  rw [hself] at hbetween
  rw [ReuseEntry.access, if_pos hip.symm]
  change last.reuseDistanceRecord ++ [last.distanceSet.card] = _
  rw [hbetween.1, hbetween.2, Finset.empty_union, List.append_assoc]
  rfl

theorem lookup_accessAt (accessIp : Nat) (t : Table ReuseEntry) {ip : Nat} (hip : ip ∈ t) (j : Nat) :
    (accessAt accessIp t ip).lookup j =
      if j = ip then (t.lookup j).map (fun e => e.access accessIp) else t.lookup j := by
  rw [accessAt, insertNew, if_pos hip, lookup_modify]
  by_cases hj : j = ip
  · rw [if_pos hj, if_pos hj, hj]
  · rw [if_neg hj, if_neg hj]

theorem lookup_walk (accessIp : Nat) (hl : l.Nodup) (hall : ∀ j ∈ l, j ∈ t) (j : Nat) :
    (l.foldl (accessAt accessIp) t).lookup j =
      if j ∈ l then (t.lookup j).map (fun e => e.access accessIp) else t.lookup j := by
  induction l generalizing t with
  | nil => exact (if_neg List.not_mem_nil).symm
  | cons k l ih =>
      obtain ⟨hk, hnodup⟩ := List.nodup_cons.mp hl
      have hin : k ∈ t := hall k List.mem_cons_self
      have hstep := lookup_accessAt accessIp t hin
      have hall' : ∀ i ∈ l, i ∈ accessAt accessIp t k := by
        intro i hi
        obtain ⟨e, he⟩ := (mem_iff_lookup t i).mp (hall i (List.mem_cons_of_mem k hi))
        have hne : i ≠ k := by
          rintro rfl
          exact hk hi
        apply (mem_iff_lookup _ i).mpr
        exact ⟨e, by rw [hstep, if_neg hne, he]⟩
      rw [List.foldl_cons, ih hnodup hall', hstep]
      by_cases hj : j = k
      · subst hj
        rw [if_neg hk, if_pos rfl, if_pos List.mem_cons_self]
      · simp only [List.mem_cons, hj, false_or, if_false]

end Thermometer.ReuseRecord
