import Thermometer.Lib.Tables
import Thermometer.Trace

namespace Thermometer.AccessRecord

open Trace Lib.Tables

inductive RecordType
  | hit
  | missOnly
  | missInsert
  | evict
  deriving DecidableEq, Repr

def RecordType.code : RecordType → Nat
  | .hit => 0
  | .missOnly => 1
  | .missInsert => 2
  | .evict => 3

inductive BtbType
  | normal
  | conditional
  | unconditional
  | predecoder
  | nano
  | mili
  | l1
  | l2
  deriving DecidableEq, Repr

structure RecordEntry where
  ip : Nat
  target : Nat
  branchType : BranchType
  record : List RecordType
  deriving DecidableEq, Repr

structure Record where
  branchRecord : Table RecordEntry
  btbType : BtbType

def Record.empty (btbType : BtbType) : Record := ⟨∅, btbType⟩

def mark (hit insertOnMiss : Bool) : RecordType :=
  if hit then .hit else if insertOnMiss then .missInsert else .missOnly

def RecordEntry.push (e : RecordEntry) (m : RecordType) : RecordEntry := { e with record := e.record ++ [m] }

def access (r : Record) (ip target : Nat) (ty : BranchType) (hit insertOnMiss : Bool) : Record :=
  let table := if ip ∈ r.branchRecord then r.branchRecord
    else r.branchRecord.insert ip ⟨ip, target, ty, []⟩
  { r with branchRecord := modify table ip (fun e => e.push (mark hit insertOnMiss)) }

/-- A branch that leaves must have a record: `none` is the failed assertion. -/
def evict (r : Record) (ip : Nat) : Option Record :=
  if ip ∈ r.branchRecord then
    some { r with branchRecord := modify r.branchRecord ip (fun e => e.push .evict) }
  else none

theorem mem_access (r : Record) (ip target : Nat) (ty : BranchType) (hit insertOnMiss : Bool) (j : Nat) :
    j ∈ (access r ip target ty hit insertOnMiss).branchRecord ↔ j = ip ∨ j ∈ r.branchRecord := by
  simp only [access, mem_modify]
  split_ifs with h
  · constructor
    · exact .inr
    · rintro (rfl | hj)
      · exact h
      · exact hj
  · rw [AList.mem_insert]

theorem evict_eq_some {r : Record} {ip : Nat} (h : ip ∈ r.branchRecord) :
    ∃ r', evict r ip = some r' ∧ r'.btbType = r.btbType ∧ ∀ j, j ∈ r'.branchRecord ↔ j ∈ r.branchRecord :=
  ⟨_, if_pos h, rfl, fun _ => mem_modify _ _ _ _⟩

structure Started (r : Record) : Prop where
  key : ∀ ip e, r.branchRecord.lookup ip = some e → e.ip = ip
  access : ∀ ip e, r.branchRecord.lookup ip = some e → ∃ m ms, e.record = m :: ms ∧ m ≠ .evict

theorem started_empty (btbType : BtbType) : Started (.empty btbType) :=
  ⟨fun ip e h => by simp [Record.empty] at h, fun ip e h => by simp [Record.empty] at h⟩

theorem push_started {e : RecordEntry} {a : RecordType} {ms : List RecordType} (m : RecordType)
    (h : e.record = a :: ms) : (e.push m).record = a :: (ms ++ [m]) := by
  rw [RecordEntry.push, h]
  rfl

theorem access_started {r : Record} (h : Started r) (ip target : Nat) (ty : BranchType) (hit insertOnMiss : Bool) :
    Started (access r ip target ty hit insertOnMiss) := by
  have hne : mark hit insertOnMiss ≠ .evict := by cases hit <;> cases insertOnMiss <;> simp [mark]
  have hlook : ∀ j e, (access r ip target ty hit insertOnMiss).branchRecord.lookup j = some e →
      r.branchRecord.lookup j = some e ∨
        j = ip ∧ e = RecordEntry.push ⟨ip, target, ty, []⟩ (mark hit insertOnMiss) ∨
        j = ip ∧ ∃ d, r.branchRecord.lookup ip = some d ∧ e = d.push (mark hit insertOnMiss) := by
    intro j e he
    simp only [access, lookup_modify] at he
    by_cases hj : j = ip
    · rw [if_pos hj] at he
      split_ifs at he with hm
      · obtain ⟨d, hd, rfl⟩ := Option.map_eq_some_iff.mp he
        exact .inr (.inr ⟨hj, d, hd, rfl⟩)
      · rw [AList.lookup_insert, Option.map_some, Option.some.injEq] at he
        exact .inr (.inl ⟨hj, he.symm⟩)
    · rw [if_neg hj] at he
      split_ifs at he with hm
      · exact .inl he
      · rw [AList.lookup_insert_ne hj] at he
        exact .inl he
  constructor
  · intro j e he
    rcases hlook j e he with he | ⟨rfl, rfl⟩ | ⟨rfl, d, hd, rfl⟩
    · exact h.key j e he
    · rfl
    · exact h.key j d hd
  · intro j e he
    rcases hlook j e he with he | ⟨rfl, rfl⟩ | ⟨rfl, d, hd, rfl⟩
    · exact h.access j e he
    · exact ⟨_, [], rfl, hne⟩
    · obtain ⟨a, ms, hrec, ha⟩ := h.access j d hd
      exact ⟨a, _, push_started _ hrec, ha⟩

theorem evict_started {r r' : Record} {ip : Nat} (h : Started r) (he : evict r ip = some r') : Started r' := by
  rw [evict] at he
  split_ifs at he with hm
  rw [Option.some.injEq] at he
  subst he
  have hlook : ∀ j e, (modify r.branchRecord ip (fun e => e.push .evict)).lookup j = some e →
      r.branchRecord.lookup j = some e ∨ ∃ d, r.branchRecord.lookup j = some d ∧ e = d.push .evict := by
    intro j e he
    rw [lookup_modify] at he
    split_ifs at he with hj
    · subst hj
      obtain ⟨d, hd, rfl⟩ := Option.map_eq_some_iff.mp he
      exact .inr ⟨d, hd, rfl⟩
    · exact .inl he
  constructor
  · intro j e he
    rcases hlook j e he with he | ⟨d, hd, rfl⟩
    · exact h.key j e he
    · exact h.key j d hd
  · intro j e he
    rcases hlook j e he with he | ⟨d, hd, rfl⟩
    · exact h.access j e he
    · obtain ⟨a, ms, hrec, ha⟩ := h.access j d hd
      exact ⟨a, _, push_started _ hrec, ha⟩

end Thermometer.AccessRecord
