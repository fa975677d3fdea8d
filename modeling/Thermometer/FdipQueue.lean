import Mathlib.Data.List.MinMax
import Mathlib.Logic.Function.Iterate
import Thermometer.FdipShotgun
import Thermometer.Lib.Runs

namespace Thermometer.FdipQueue

open Trace Lib.Tables
open ShotgunFootprint (logBlockSize)
open FdipShotgun (Instr Cycle Resolved)

/-- The queue holds the ip and the id of the branches that the run-ahead has passed. -/
structure Fdip where
  branchRecord : Table Instr
  ftq : List (Nat × Nat)
  runaheadInstrUniqueId : Nat
  runaheadIp : Nat

def Fdip.initial : Fdip := ⟨∅, [], 0, 0⟩

def offset (pt : Bool) : Nat := if pt then 1 else 4

def branchOperate (f : Fdip) (ip : Nat) (ty : BranchType) (predictedTarget : Nat) (predictedTaken alwaysTaken : Bool)
    (realTarget : Nat) : Fdip :=
  { f with branchRecord := f.branchRecord.insert ip (.new ty predictedTarget (predictedTaken || alwaysTaken) realTarget) }

/-- The instruction at `runahead_ip` is passed, and `target` is the next one. -/
def pass (f : Fdip) (target : Nat) : Fdip :=
  { f with
    ftq := if (f.branchRecord.lookup f.runaheadIp).isSome then f.ftq ++ [(f.runaheadIp, f.runaheadInstrUniqueId)] else f.ftq
    runaheadIp := target
    runaheadInstrUniqueId := f.runaheadInstrUniqueId + 1 }

inductive Turn
  | asserts
  | returns (f : Fdip)
  | again (f : Fdip) (prefetch : Nat)

def goOn (pt : Bool) (e : Cycle) (prefetch : Nat) (f : Fdip) : Turn :=
  let target := (f.runaheadIp + offset pt) % 2 ^ 64
  if f.runaheadIp >>> logBlockSize ≠ target >>> logBlockSize then
    if e.accept prefetch then .again (pass f target) (prefetch + 1) else .returns f
  else .again (pass f target) prefetch

def turn (pt : Bool) (e : Cycle) (prefetch : Nat) (f : Fdip) : Turn :=
  match f.branchRecord.lookup f.runaheadIp with
  | none => goOn pt e prefetch f
  | some i =>
      if i.btbMiss then goOn pt e prefetch f
      else if i.predictTaken then
        if i.predictTarget = 0 then .asserts
        else if e.accept prefetch then .returns (pass f i.predictTarget) else .returns f
      else goOn pt e prefetch f

inductive Outcome
  | outOfFuel
  | asserts
  | returns (f : Fdip)

/-- Every turn needs an instruction of the IFETCH buffer that is not behind the run-ahead. -/
def loop (pqSize : Nat) (pt : Bool) (e : Cycle) : Nat → Nat → Fdip → Outcome
  | 0, _, _ => .outOfFuel
  | fuel + 1, prefetch, f =>
      if prefetch < pqSize then
        if e.ifetchIds.any (fun id => f.runaheadInstrUniqueId ≤ id) then
          match turn pt e prefetch f with
          | .asserts => .asserts
          | .returns g => .returns g
          | .again g prefetch => loop pqSize pt e fuel prefetch g
        else .returns f
      else .returns f

def enoughFuel (e : Cycle) (f : Fdip) : Nat := e.ifetchIds.foldr max 0 + 2 - f.runaheadInstrUniqueId

def cycleOperate (pqSize : Nat) (pt : Bool) (e : Cycle) (f : Fdip) : Outcome := loop pqSize pt e (enoughFuel e f + 1) 0 f

def resetFtq (pt : Bool) (f : Fdip) (instr : Resolved) : Fdip :=
  { f with
    runaheadInstrUniqueId := instr.instrId + 1
    runaheadIp := if instr.branchTarget = 0 then (instr.ip + offset pt) % 2 ^ 64 else instr.branchTarget }

/-- The prefetcher after a branch is resolved, and the `pfc_finished` of its instruction. -/
def resolvedBranch (pt : Bool) (f : Fdip) (instr : Resolved) (decodeStage : Bool) : Fdip × Bool :=
  if decodeStage then
    match f.ftq.findIdx? (fun a => a = (instr.ip, instr.instrId)) with
    | some i => (resetFtq pt { f with ftq := f.ftq.take i } instr, true)
    | none => (f, instr.pfcFinished)
  else if instr.pfcFinished then (f, true)
  else
    match f.ftq with
    | [] => (resetFtq pt f instr, false)
    | first :: rest =>
        if instr.ip ≠ first.1 ∨ instr.branchMispredictedAll then (resetFtq pt { f with ftq := [] } instr, false)
        else ({ f with ftq := rest }, false)

/-- The calls of the core. -/
inductive Call
  | branchOperate (ip : Nat) (ty : BranchType) (predictedTarget : Nat) (predictedTaken alwaysTaken : Bool)
      (realTarget : Nat)
  | cycleOperate (e : Cycle) (pt : Bool)
  | resolvedBranch (instr : Resolved) (decodeStage pt : Bool)

/-- `none` when a call does not return. -/
def step (pqSize : Nat) (f : Fdip) : Call → Option Fdip
  | .branchOperate ip ty predictedTarget predictedTaken alwaysTaken realTarget =>
      some (branchOperate f ip ty predictedTarget predictedTaken alwaysTaken realTarget)
  | .cycleOperate e pt =>
      match cycleOperate pqSize pt e f with
      | .returns g => some g
      | _ => none
  | .resolvedBranch instr decodeStage pt => some (resolvedBranch pt f instr decodeStage).1

def next (pt : Bool) (record : Table Instr) (a : Nat) : Nat :=
  match record.lookup a with
  | none => (a + offset pt) % 2 ^ 64
  | some i => if !i.btbMiss && i.predictTaken then i.predictTarget else (a + offset pt) % 2 ^ 64

/-- The branches met in `n` steps on that path from address `a`, numbered from `id`. -/
def met (pt : Bool) (record : Table Instr) (a id n : Nat) : List (Nat × Nat) :=
  ((List.range n).map (fun k => ((next pt record)^[k] a, id + k))).filter (fun b => (record.lookup b.1).isSome)

structure Ahead (pt : Bool) (n : Nat) (f g : Fdip) : Prop where
  record : g.branchRecord = f.branchRecord
  id : g.runaheadInstrUniqueId = f.runaheadInstrUniqueId + n
  ip : g.runaheadIp = (next pt f.branchRecord)^[n] f.runaheadIp
  ftq : g.ftq = f.ftq ++ met pt f.branchRecord f.runaheadIp f.runaheadInstrUniqueId n

section Ahead

variable {pqSize n m prefetch fuel a id : Nat} {pt : Bool} {e : Cycle} {f g h : Fdip} {record : Table Instr}

theorem met_add (pt : Bool) (record : Table Instr) (a id n m : Nat) :
    met pt record a id (n + m) = met pt record a id n ++ met pt record ((next pt record)^[n] a) (id + n) m := by
  rw [met, met, met, List.range_add, List.map_append, List.filter_append, List.map_map]
  congr 2
  apply List.map_congr_left
  intro k _
  rw [Function.comp_apply, Nat.add_assoc, ← Function.iterate_add_apply, Nat.add_comm k n]

theorem Ahead.refl (pt : Bool) (f : Fdip) : Ahead pt 0 f f :=
  ⟨rfl, rfl, rfl, (List.append_nil f.ftq).symm⟩

theorem Ahead.trans (hfg : Ahead pt n f g) (hgh : Ahead pt m g h) : Ahead pt (n + m) f h := by
  refine ⟨hgh.record.trans hfg.record, ?_, ?_, ?_⟩
  · rw [hgh.id, hfg.id, Nat.add_assoc]
  · rw [hgh.ip, hfg.record, hfg.ip, ← Function.iterate_add_apply, Nat.add_comm]
  · rw [hgh.ftq, hfg.ftq, hfg.record, hfg.ip, hfg.id, met_add, List.append_assoc]

theorem pass_ahead {target : Nat} (h : next pt f.branchRecord f.runaheadIp = target) : Ahead pt 1 f (pass f target) := by
  refine ⟨rfl, rfl, h.symm, ?_⟩
  simp only [pass, met, List.range_one, List.map_singleton, Function.iterate_zero, id_eq, Nat.add_zero]
  split_ifs with hsome
  · simp [hsome]
  · simp [hsome]

/-- What a turn of the loop does. It passes one instruction, or is refused a prefetch. -/
def Turn.Passes (pt : Bool) (e : Cycle) (f : Fdip) : Turn → Prop
  | .asserts => False
  | .returns g => Ahead pt 1 f g ∨ Ahead pt 0 f g ∧ ∃ k, e.accept k = false
  | .again g _ => Ahead pt 1 f g

def Targeted (record : Table Instr) : Prop :=
  ∀ ip i, record.lookup ip = some i → i.btbMiss = false → i.predictTaken = true → i.predictTarget ≠ 0

theorem goOn_passes (h : next pt f.branchRecord f.runaheadIp = (f.runaheadIp + offset pt) % 2 ^ 64) :
    (goOn pt e prefetch f).Passes pt e f := by
  simp only [goOn]
  split_ifs with hblock haccept
  · exact pass_ahead h
  · exact .inr ⟨.refl pt f, prefetch, Bool.eq_false_iff.mpr haccept⟩
  · exact pass_ahead h

theorem turn_passes (hf : Targeted f.branchRecord) : (turn pt e prefetch f).Passes pt e f := by
  rw [turn]
  cases hlook : f.branchRecord.lookup f.runaheadIp with
  | none => exact goOn_passes (by rw [next, hlook])
  | some i =>
      dsimp only
      split_ifs with hmiss htaken htarget haccept
      · exact goOn_passes (by simp [next, hlook, hmiss])
      · exact hf _ i hlook (Bool.eq_false_iff.mpr hmiss) htaken htarget
      · exact .inl (pass_ahead (by simp [next, hlook, hmiss, htaken]))
      · exact .inr ⟨.refl pt f, prefetch, Bool.eq_false_iff.mpr haccept⟩
      · exact goOn_passes (by simp [next, hlook, htaken])

/-- Where the loop of a cycle ends, and why it has passed nothing if it has not. -/
structure Ends (pt : Bool) (e : Cycle) (room : Prop) (f g : Fdip) : Prop where
  ahead : ∃ n, Ahead pt n f g
  near : g.runaheadInstrUniqueId = f.runaheadInstrUniqueId ∨ ∃ id ∈ e.ifetchIds, g.runaheadInstrUniqueId ≤ id + 1
  stays : g.runaheadInstrUniqueId = f.runaheadInstrUniqueId →
    ¬room ∨ (∃ k, e.accept k = false) ∨ ∀ id ∈ e.ifetchIds, id < f.runaheadInstrUniqueId

variable {room room' : Prop}

theorem Ends.of_refused (hahead : Ahead pt 0 f g)
    (h : ∃ k, e.accept k = false) : Ends pt e room f g :=
  ⟨⟨0, hahead⟩, .inl hahead.id, fun _ => .inr (.inl h)⟩

theorem Ends.of_passed (hid : e.ifetchIds.any (fun id => f.runaheadInstrUniqueId ≤ id) = true) (hahead : Ahead pt 1 f g)
    (h' : Ends pt e room' g h) : Ends pt e room f h := by
  obtain ⟨id, hmem, hle⟩ := List.any_eq_true.mp hid
  have hle := of_decide_eq_true hle
  obtain ⟨m, hm⟩ := h'.ahead
  have hall := hahead.trans hm
  refine ⟨⟨1 + m, hall⟩, ?_, ?_⟩
  · rcases h'.near with heq | hnear
    · refine .inr ⟨id, hmem, ?_⟩
      rw [heq, hahead.id]
      omega
    · exact .inr hnear
  · intro heq
    have := hall.id
    omega

theorem Ends.refl (pt : Bool) (e : Cycle) (f : Fdip) (h : ¬room ∨ ∀ id ∈ e.ifetchIds, id < f.runaheadInstrUniqueId) :
    Ends pt e room f f :=
  ⟨⟨0, .refl pt f⟩, .inl rfl, fun _ => h.imp id .inr⟩

/-- A cycle returns: the ids of the IFETCH buffer bound the number of its turns. -/
theorem loop_returns (hf : Targeted f.branchRecord) (prefetch : Nat)
    (hfuel : ∀ id ∈ e.ifetchIds, id + 1 < f.runaheadInstrUniqueId + fuel) (hpos : 0 < fuel) :
    ∃ g, (∀ k, loop pqSize pt e (fuel + k) prefetch f = .returns g) ∧ Ends pt e (prefetch < pqSize) f g := by
  induction fuel generalizing prefetch f with
  | zero => exact absurd hpos (Nat.lt_irrefl 0)
  | succ fuel ih =>
      have hsucc : ∀ k, fuel + 1 + k = (fuel + k) + 1 := fun k => by omega
      simp only [hsucc, loop]
      split_ifs with hroom hid
      · have hturn : (turn pt e prefetch f).Passes pt e f := turn_passes hf
        cases hr : turn pt e prefetch f with
        | asserts =>
            rw [hr] at hturn
            exact hturn.elim
        | returns g =>
            rw [hr] at hturn
            refine ⟨g, fun _ => rfl, ?_⟩
            rcases hturn with hahead | ⟨hahead, hrefused⟩
            · exact .of_passed hid hahead (.refl pt e g (.inl not_false))
            · exact .of_refused hahead hrefused
        | again g prefetch' =>
            rw [hr] at hturn
            have hahead : Ahead pt 1 f g := hturn
            obtain ⟨id, hmem, hle⟩ := List.any_eq_true.mp hid
            have hle := of_decide_eq_true hle
            have hlt := hfuel id hmem
            have hfuel' : ∀ id ∈ e.ifetchIds, id + 1 < g.runaheadInstrUniqueId + fuel := by
              intro id hid
              have := hfuel id hid
              rw [hahead.id]
              omega
            obtain ⟨h, hloop, hends⟩ := ih (by rw [hahead.record]; exact hf) prefetch' hfuel' (by omega)
            exact ⟨h, hloop, .of_passed hid hahead hends⟩
      · refine ⟨f, fun _ => rfl, .refl pt e f (.inr ?_)⟩
        intro id hmem
        have := List.any_eq_false.mp (Bool.eq_false_iff.mpr hid) id hmem
        exact Nat.lt_of_not_le (fun hle => this (decide_eq_true hle))
      · exact ⟨f, fun _ => rfl, .refl pt e f (.inl hroom)⟩

theorem lt_enoughFuel (e : Cycle) (f : Fdip) : ∀ id ∈ e.ifetchIds, id + 1 < f.runaheadInstrUniqueId + enoughFuel e f := by
  intro id hid
  have hle : id ≤ e.ifetchIds.foldr max 0 := List.le_max_of_le' 0 hid (Nat.le_refl id)
  rw [enoughFuel]
  omega

theorem cycleOperate_returns (pqSize : Nat) (pt : Bool) (e : Cycle) (hf : Targeted f.branchRecord) :
    ∃ g, cycleOperate pqSize pt e f = .returns g ∧ (∀ k, loop pqSize pt e (enoughFuel e f + 1 + k) 0 f = .returns g) ∧
      Ends pt e (0 < pqSize) f g := by
  have hfuel : ∀ id ∈ e.ifetchIds, id + 1 < f.runaheadInstrUniqueId + (enoughFuel e f + 1) := by
    intro id hid
    exact Nat.lt_succ_of_lt (lt_enoughFuel e f id hid)
  obtain ⟨g, hloop, hends⟩ := loop_returns hf 0 hfuel (Nat.succ_pos _)
  exact ⟨g, hloop 0, hloop, hends⟩

/-- The ids in the queue ascend to the one that comes next. -/
structure Ordered (f : Fdip) : Prop where
  increasing : f.ftq.Pairwise (fun a b => a.2 < b.2)
  below : ∀ a ∈ f.ftq, a.2 < f.runaheadInstrUniqueId

structure Inv (f : Fdip) : Prop where
  targeted : Targeted f.branchRecord
  ordered : Ordered f

theorem met_increasing (pt : Bool) (record : Table Instr) (a id n : Nat) :
    (met pt record a id n).Pairwise (fun b c => b.2 < c.2) := by
  apply List.Pairwise.filter
  rw [List.pairwise_map]
  exact List.pairwise_lt_range.imp (fun hlt => Nat.add_lt_add_left hlt id)

theorem mem_met {b : Nat × Nat} (h : b ∈ met pt record a id n) : id ≤ b.2 ∧ b.2 < id + n := by
  obtain ⟨k, hk, rfl⟩ := List.mem_map.mp (List.mem_filter.mp h).1
  exact ⟨Nat.le_add_right id k, Nat.add_lt_add_left (List.mem_range.mp hk) id⟩

theorem Ahead.ordered (h : Ahead pt n f g) (hf : Ordered f) : Ordered g := by
  constructor
  · rw [h.ftq, List.pairwise_append]
    refine ⟨hf.increasing, met_increasing pt _ _ _ n, ?_⟩
    intro a ha b hb
    exact Nat.lt_of_lt_of_le (hf.below a ha) (mem_met hb).1
  · intro b hb
    rw [h.ftq] at hb
    rw [h.id]
    rcases List.mem_append.mp hb with hb | hb
    · exact Nat.lt_add_right n (hf.below b hb)
    · exact (mem_met hb).2

theorem new_targeted (ty : BranchType) (predictedTarget : Nat) (predictedTaken : Bool) (realTarget : Nat)
    (hmiss : (Instr.new ty predictedTarget predictedTaken realTarget).btbMiss = false)
    (htaken : (Instr.new ty predictedTarget predictedTaken realTarget).predictTaken = true) :
    (Instr.new ty predictedTarget predictedTaken realTarget).predictTarget ≠ 0 := by
  intro hzero
  change predictedTaken = true at htaken
  change predictedTarget = 0 at hzero
  subst htaken hzero
  simp [Instr.new] at hmiss

theorem branchOperate_inv (hf : Inv f) (ip : Nat) (ty : BranchType) (predictedTarget : Nat) (predictedTaken alwaysTaken : Bool)
    (realTarget : Nat) : Inv (branchOperate f ip ty predictedTarget predictedTaken alwaysTaken realTarget) := by
  refine ⟨?_, hf.ordered.increasing, hf.ordered.below⟩
  intro j i hlook
  rw [branchOperate, lookup_insert] at hlook
  split_ifs at hlook
  · rw [Option.some.injEq] at hlook
    subst hlook
    exact new_targeted ty predictedTarget _ realTarget
  · exact hf.targeted j i hlook

theorem resetFtq_inv (hf : Targeted f.branchRecord) {ftq : List (Nat × Nat)} {instr : Resolved}
    (hinc : ftq.Pairwise (fun a b => a.2 < b.2)) (hbelow : ∀ a ∈ ftq, a.2 < instr.instrId) :
    Inv (resetFtq pt { f with ftq := ftq } instr) :=
  ⟨hf, hinc, fun a ha => Nat.lt_succ_of_lt (hbelow a ha)⟩

theorem resolvedBranch_inv (hf : Inv f) (instr : Resolved) (decodeStage : Bool) :
    Inv (resolvedBranch pt f instr decodeStage).1 := by
  obtain ⟨htargeted, hinc, hbelow⟩ := hf
  simp only [resolvedBranch]
  split_ifs with hdecode hpfc
  · cases hfind : f.ftq.findIdx? (fun a => a = (instr.ip, instr.instrId)) with
    | none => exact ⟨htargeted, hinc, hbelow⟩
    | some i =>
        -- what stays in the queue stands before the branch itself
        obtain ⟨hlt, hmatch, -⟩ := List.findIdx?_eq_some_iff_getElem.mp hfind
        have hmatch : f.ftq[i] = (instr.ip, instr.instrId) := of_decide_eq_true hmatch
        apply resetFtq_inv htargeted (hinc.sublist (List.take_sublist i f.ftq))
        intro a ha
        obtain ⟨k, hk, rfl⟩ := List.mem_take_iff_getElem.mp ha
        have := List.pairwise_iff_getElem.mp hinc k i (by omega) hlt (by omega)
        rwa [hmatch] at this
  · exact ⟨htargeted, hinc, hbelow⟩
  · cases hftq : f.ftq with
    | nil =>
        have hempty : Inv (resetFtq pt { f with ftq := [] } instr) :=
          resetFtq_inv htargeted List.Pairwise.nil (fun a ha => absurd ha List.not_mem_nil)
        rw [← hftq] at hempty
        exact hempty
    | cons first rest =>
        dsimp only
        split_ifs
        · exact resetFtq_inv htargeted List.Pairwise.nil (fun a ha => absurd ha List.not_mem_nil)
        · rw [hftq] at hinc hbelow
          exact ⟨htargeted, (List.pairwise_cons.mp hinc).2, fun a ha => hbelow a (List.mem_cons_of_mem _ ha)⟩

theorem step_inv (pqSize : Nat) (c : Call) (hf : Inv f) : ∃ g, step pqSize f c = some g ∧ Inv g := by
  cases c with
  | branchOperate ip ty predictedTarget predictedTaken alwaysTaken realTarget =>
      exact ⟨_, rfl, branchOperate_inv hf ip ty predictedTarget predictedTaken alwaysTaken realTarget⟩
  | cycleOperate e pt =>
      obtain ⟨g, hg, -, hends⟩ := cycleOperate_returns pqSize pt e hf.targeted
      obtain ⟨n, hahead⟩ := hends.ahead
      refine ⟨g, by rw [step, hg], ?_, hahead.ordered hf.ordered⟩
      rw [hahead.record]
      exact hf.targeted
  | resolvedBranch instr decodeStage pt => exact ⟨_, rfl, resolvedBranch_inv hf instr decodeStage⟩

theorem initial_inv : Inv Fdip.initial :=
  ⟨fun ip i hlook => absurd hlook (by simp [Fdip.initial]), List.Pairwise.nil, fun a ha => absurd ha List.not_mem_nil⟩

theorem run_inv {cs : List Call} (h : Lib.Runs.run (step pqSize) .initial cs = some f) : Inv f := by
  refine Lib.Runs.run_preserves (I := Inv) ?_ initial_inv h
  intro f g c _ hf hg
  obtain ⟨g', hg', hinv⟩ := step_inv pqSize c hf
  obtain rfl : g = g' := Option.some.inj (hg.symm.trans hg')
  exact hinv

/-- Whatever is called, the queue stays ordered, and every cycle returns with the run-ahead at most
one instruction past the IFETCH buffer. -/
theorem runAhead_invariant (pqSize : Nat) (cs : List Call) :
    ∃ f, Lib.Runs.run (step pqSize) .initial cs = some f ∧ Ordered f ∧
      ∀ pt e, ∃ g, (∀ k, loop pqSize pt e (enoughFuel e f + 1 + k) 0 f = .returns g) ∧
        (g.runaheadInstrUniqueId = f.runaheadInstrUniqueId ∨
          ∃ id ∈ e.ifetchIds, g.runaheadInstrUniqueId ≤ id + 1) := by
  obtain ⟨f, hf, hinv⟩ : ∃ f, Lib.Runs.run (step pqSize) .initial cs = some f ∧ Inv f :=
    Lib.Runs.run_total (fun f c _ hf => step_inv pqSize c hf) initial_inv
  refine ⟨f, hf, hinv.ordered, ?_⟩
  intro pt e
  obtain ⟨g, -, hloop, hends⟩ := cycleOperate_returns pqSize pt e hinv.targeted
  exact ⟨g, hloop, hends.near⟩

end Ahead

end Thermometer.FdipQueue
