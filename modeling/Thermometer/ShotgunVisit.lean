import Thermometer.ShotgunFront
import Thermometer.ShotgunBasic

namespace Thermometer.ShotgunVisit

open Trace Lib.Tables Lib.Cells Lib.Runs ShotgunFootprint ShotgunFront ShotgunBasic
open BasicBtb (Entry)

variable {T : Type} [Wraps T Entry]

theorem findEntry_some {b : Slots T} {ip : Nat} {p : Nat × Nat} (h : findEntry b ip = some p) :
    ∃ a, Store.get b p = some a ∧ (Wraps.base a).ipTag = ip := by
  obtain ⟨way, hway, rfl⟩ := Option.map_eq_some_iff.mp h
  obtain ⟨hlt, htag, -⟩ := List.findIdx?_eq_some_iff_getElem.mp hway
  exact ⟨(b.btb (setIndex b.sets ip))[way], List.getElem?_eq_getElem hlt, of_decide_eq_true htag⟩

theorem get_allocate (b : Slots T) (ip branchTarget : Nat) :
    Store.get (allocate b ip branchTarget) (replEntry b ip) = (Store.get b (replEntry b ip)).map (fun a =>
      Wraps.mapBase (fun e : Entry => { e with lru := b.lruCounter }) (Wraps.mapBase (newBranch ip branchTarget) a)) := by
  let filled := Store.modify b (replEntry b ip) (Wraps.mapBase (newBranch ip branchTarget))
  have hstamp : Store.get (allocate b ip branchTarget) (replEntry b ip) = (Store.get filled (replEntry b ip)).map
      (Wraps.mapBase (fun e : Entry => { e with lru := b.lruCounter })) :=
    Store.get_modify_self filled (replEntry b ip) _
  rw [hstamp, Store.get_modify_self, Option.map_map]
  rfl

/-- How a call enters the region of an unconditional branch: the U-BTB it leaves to
`update_current`, with the slot and the type it passes on. -/
structure Visit where
  unconditional : Ubtb
  slot : Option (Nat × Nat)
  branchType : BranchType

def visitUnconditional (u : Ubtb) (ip branchTarget : Nat) (taken : Bool) (ty : BranchType) : Option Visit :=
  match findEntry u ip with
  | none =>
      if branchTarget ≠ 0 ∧ taken then some ⟨allocate u ip branchTarget, some (replEntry u ip), ty⟩ else none
  | some p => some ⟨updateExisting u p branchTarget taken, some p, ty⟩

def visit (s : State) : Call → Option Visit
  | .update ip branchTarget taken ty =>
      if ty = .indirect || ty = .indirectCall then none
      else if ty = .conditional then none
      else if ty = .ret then
        some ⟨s.front.unconditional, findEntry s.front.unconditional (SideTables.peekRas s.side), .ret⟩
      else visitUnconditional s.front.unconditional ip branchTarget taken ty
  | _ => none

theorem visitUnconditional_branchType {u : Ubtb} {ip target : Nat} {taken : Bool} {ty : BranchType} {v : Visit}
    (h : visitUnconditional u ip target taken ty = some v) : v.branchType = ty := by
  rw [visitUnconditional] at h
  split at h
  · split_ifs at h
    exact (Option.some.inj h) ▸ rfl
  · exact (Option.some.inj h) ▸ rfl

theorem visit_branchType {s : State} {ip target : Nat} {taken : Bool} {ty : BranchType} {v : Visit}
    (h : visit s (.update ip target taken ty) = some v) : v.branchType = ty := by
  rw [visit] at h
  split_ifs at h with _ _ hret
  · rw [← Option.some.inj h, hret]
  · exact visitUnconditional_branchType h

theorem visitUnconditional_tag {u : Ubtb} {ip target : Nat} {taken : Bool} {ty : BranchType} {v : Visit} {p : Nat × Nat}
    {e : FootprintEntry Entry} (h : visitUnconditional u ip target taken ty = some v) (hp : v.slot = some p)
    (he : Store.get v.unconditional p = some e) : e.base.ipTag = ip := by
  rw [visitUnconditional] at h
  split at h
  · split_ifs at h
    rw [← Option.some.inj h] at hp he
    obtain rfl : replEntry u ip = p := Option.some.inj hp
    obtain ⟨a, -, rfl⟩ := Option.map_eq_some_iff.mp ((get_allocate u ip target).symm.trans he)
    rfl
  · rename_i q hq
    rw [← Option.some.inj h] at hp he
    obtain rfl : q = p := Option.some.inj hp
    obtain ⟨a, ha, rfl⟩ := Option.map_eq_some_iff.mp ((Store.get_modify_self _ _ _).symm.trans he)
    obtain ⟨b, hb, htag⟩ := findEntry_some hq
    rw [ha, Option.some.injEq] at hb
    subst hb
    rw [← htag]
    show (outcome target taken a.base).ipTag = a.base.ipTag
    rw [outcome]
    split_ifs <;> rfl

def recorded (s : State) : Call → Option Entry
  | .update ip branchTarget taken .conditional =>
      match findEntry s.conditional ip with
      | none =>
          if branchTarget ≠ 0 ∧ taken then
            Store.get (allocate s.conditional ip branchTarget) (replEntry s.conditional ip)
          else none
      | some p => Store.get (updateExisting s.conditional p branchTarget taken) p
  | _ => none

def SameFootprints (u v : Ubtb) : Prop := ∀ p side, footprintAt v p side = footprintAt u p side

theorem updateLru_same (u : Ubtb) (p : Nat × Nat) : SameFootprints u (updateLru u p) :=
  fun q side => footprintAt_modify_base u p q _ side

theorem updateExisting_same (u : Ubtb) (p : Nat × Nat) (branchTarget : Nat) (taken : Bool) :
    SameFootprints u (updateExisting u p branchTarget taken) :=
  fun q side => footprintAt_modify_base u p q _ side

theorem allocate_same (u : Ubtb) (ip branchTarget : Nat) : SameFootprints u (allocate u ip branchTarget) := by
  intro q side
  exact (updateLru_same _ (replEntry u ip) q side).trans (footprintAt_modify_base u (replEntry u ip) q _ side)

inductive FrontStep (o : IterOrder) (s : State) (c : Call) : Front Ubtb (Nat × Nat) → Prop
  | quiet (u : Ubtb) : visit s c = none → recorded s c = none → SameFootprints s.front.unconditional u →
      FrontStep o s c { s.front with unconditional := u }
  | record (a : Entry) : visit s c = none → recorded s c = some a → FrontStep o s c (addFootprint s.front a)
  | visit (v : Visit) : visit s c = some v → recorded s c = none →
      FrontStep o s c (updateCurrent o { s.front with unconditional := v.unconditional } v.slot v.branchType)

variable {o : IterOrder} {s t : State} {c : Call}

theorem FrontStep.unchanged (hv : ShotgunVisit.visit s c = none) (hr : recorded s c = none) : FrontStep o s c s.front :=
  .quiet s.front.unconditional hv hr (fun _ _ => rfl)

theorem btbPrediction_front (o : IterOrder) (s : State) (ip : Nat) (ty : BranchType) :
    FrontStep o s (.predict ip ty) (btbPrediction s ip ty).1.front := by
  rw [btbPrediction]
  split
  · exact .unchanged rfl rfl
  · simp only
    split_ifs
    · split <;> exact .unchanged rfl rfl
    · split
      · exact .unchanged rfl rfl
      · exact .quiet _ rfl rfl (updateLru_same _ _)

theorem prefetchBtb_front {ip target : Nat} {ty : BranchType} {taken toStreamBuffer : Bool}
    (h : prefetchBtb s ip target ty taken toStreamBuffer = some t) : t.front = s.front := by
  rw [prefetchBtb] at h
  by_cases hty : ty = .conditional
  · rw [if_pos hty, prefetchConditional] at h
    split at h
    · split_ifs at h
      · obtain ⟨b, -, rfl⟩ := Option.map_eq_some_iff.mp h
        rfl
      · exact (Option.some.inj h) ▸ rfl
      · exact (Option.some.inj h) ▸ rfl
    · exact (Option.some.inj h) ▸ rfl
  · rw [if_neg hty] at h
    exact (Option.some.inj h) ▸ rfl

theorem record_front (s : State) (p : Nat × Nat) :
    (record s p).front = match Store.get s.conditional p with
      | none => s.front
      | some a => addFootprint s.front a := by
  rw [record]
  cases Store.get s.conditional p <;> rfl

theorem updateConditional_front (o : IterOrder) (s : State) (side : SideTables.Tables) (ip target : Nat) (taken : Bool) :
    FrontStep o s (.update ip target taken .conditional)
      (updateConditional { s with side := side } ip target taken).front := by
  have hstep : ∀ r : Option Entry, recorded s (.update ip target taken .conditional) = r →
      FrontStep o s (.update ip target taken .conditional)
        (match r with
          | none => s.front
          | some a => addFootprint s.front a) := by
    intro r hr
    cases r with
    | none => exact .unchanged rfl hr
    | some a => exact .record a rfl hr
  simp only [updateConditional]
  split
  · rename_i hfind
    split_ifs with hok
    · rw [record_front]
      exact hstep _ (by simp only [recorded, hfind, if_pos hok])
    · exact hstep none (by simp only [recorded, hfind, if_neg hok])
  · rename_i p hfind
    rw [record_front]
    exact hstep _ (by simp only [recorded, hfind])

theorem updateUnconditional_front (o : IterOrder) (s : State) {ip target : Nat} {taken : Bool} {ty : BranchType}
    (hv : visit s (.update ip target taken ty) = visitUnconditional s.front.unconditional ip target taken ty)
    (hr : recorded s (.update ip target taken ty) = none) :
    FrontStep o s (.update ip target taken ty) (updateUnconditional o s ip target taken ty).front := by
  simp only [updateUnconditional]
  rw [visitUnconditional] at hv
  split
  · rename_i hfind
    rw [hfind] at hv
    simp only at hv
    split_ifs at hv ⊢
    · exact .visit _ hv hr
    · exact .unchanged hv hr
  · rename_i p hfind
    rw [hfind] at hv
    exact .visit _ hv hr

theorem updateReturn_front (o : IterOrder) (s : State) (ip target : Nat) (taken : Bool) :
    FrontStep o s (.update ip target taken .ret) (updateReturn o s target).front := by
  simp only [updateReturn, SideTables.recalibrate_snd]
  exact FrontStep.visit ⟨s.front.unconditional, findEntry s.front.unconditional (SideTables.peekRas s.side), .ret⟩ rfl rfl

theorem step_front (h : step s (o, c) = some t) : FrontStep o s c t.front := by
  cases c with
  | predict ip ty =>
      rw [← Option.some.inj h]
      exact btbPrediction_front o s ip ty
  | prefetch ip target ty taken toStreamBuffer =>
      rw [prefetchBtb_front h]
      exact .unchanged rfl rfl
  | update ip target taken ty =>
      rw [← Option.some.inj h]
      cases ty with
      | indirect => exact .unchanged rfl rfl
      | indirectCall => exact .unchanged rfl rfl
      | conditional => exact updateConditional_front o s _ ip target taken
      | ret => exact updateReturn_front o s ip target taken
      | notBranch => exact updateUnconditional_front o s rfl rfl
      | directJump => exact updateUnconditional_front o s rfl rfl
      | directCall => exact updateUnconditional_front o s rfl rfl
      | other => exact updateUnconditional_front o s rfl rfl

end Thermometer.ShotgunVisit
