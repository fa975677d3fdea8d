import Thermometer.MultiLevelReach
import Thermometer.Lib.Runs
import Thermometer.StreamBuffer
import Thermometer.SideTables

namespace Thermometer.MultiLevelDriver

open Trace Lib.Tables Lib.Runs MultiLevelBtb MultiLevelCascade MultiLevelReach
open BTBType (toBTB)

structure Hooks (L : Type) where
  updateTimestamp : List L → List L
  findBtbEntryForRecord : List L → Nat → Nat → BranchType → List L

def Hooks.plain {L : Type} : Hooks L := ⟨id, fun m _ _ _ => m⟩

structure State (L : Type) where
  multiLevelBtb : List L
  side : SideTables.Tables
  stream : StreamBuffer.Buffer

def initializeBtb {L : Type} (m : List L) : State L := ⟨m, .initial, .empty 32⟩

variable {Ω E L : Type} [BTBEntryType E] [BTBType Ω E L]

def btbPrediction (hooks : Hooks L) (s : State L) (ip : Nat) (ty : BranchType) :
    State L × (Nat × Bool) × Option Nat :=
  match SideTables.predict s.side ip ty with
  | (side, some r) => ({ s with side := side }, r, none)
  | (side, none) =>
      let s := { s with side := side, multiLevelBtb := hooks.updateTimestamp s.multiLevelBtb }
      match findBtbEntry s.multiLevelBtb ip with
      | (none, latency) => (s, (StreamBuffer.streamBufferPredict s.stream ip, true), some latency)
      | (some e, latency) => (s, (e.target, e.alwaysTaken), some latency)

def allocate (ω : Nat → Ω) (s : State L) (ip branchTarget : Nat) (ty : BranchType) : Option (State L) :=
  (MultiLevelBtb.insert ω s.multiLevelBtb ip branchTarget ty 0 none).map
    (fun r => { s with multiLevelBtb := r.1 })

def updateExisting (ω : Nat → Ω) (s : State L) (ip branchTarget : Nat) (taken : Bool) : Option (State L) :=
  if taken then
    (MultiLevelBtb.update ω (writeEntry s.multiLevelBtb ip (fun e => { e with target := branchTarget })) ip).map
      (fun m => { s with multiLevelBtb := m })
  else
    some { s with multiLevelBtb := writeEntry s.multiLevelBtb ip (fun e => { e with alwaysTaken := false }) }

def record (hooks : Hooks L) (s : State L) (ip branchTarget : Nat) (ty : BranchType) : State L :=
  { s with multiLevelBtb := hooks.findBtbEntryForRecord s.multiLevelBtb ip branchTarget ty }

def updateBtb (hooks : Hooks L) (ω : Nat → Ω) (s : State L) (ip branchTarget : Nat) (taken : Bool) (ty : BranchType) :
    Option (State L) :=
  let s := { s with side := SideTables.update s.side ip branchTarget taken ty }
  if ty.usesBtb then
    match (findBtbEntry s.multiLevelBtb ip).1 with
    | none =>
        let s := { s with stream := (StreamBuffer.streamBufferUpdate s.stream ip).1 }
        if branchTarget ≠ 0 ∧ taken then allocate ω (record hooks s ip branchTarget ty) ip branchTarget ty
        else some s
    | some _ =>
        let s := if taken then record hooks s ip branchTarget ty else s
        updateExisting ω s ip branchTarget taken
  else some s

/-- A prefetch that hits updates the levels too, but is not recorded. -/
def prefetchBtb (ω : Nat → Ω) (s : State L) (ip branchTarget : Nat) (ty : BranchType) (taken toStreamBuffer : Bool) :
    Option (State L) :=
  if ty.usesBtb then
    match (findBtbEntry s.multiLevelBtb ip).1 with
    | none =>
        if branchTarget ≠ 0 ∧ taken then
          if toStreamBuffer then
            (StreamBuffer.prefetch s.stream ip branchTarget).map (fun b => { s with stream := b })
          else allocate ω s ip branchTarget ty
        else some s
    | some _ => updateExisting ω s ip branchTarget taken
  else some s

/-- A call comes with what each level takes from outside. -/
def step (hooks : Hooks L) (s : State L) : (Nat → Ω) × Call → Option (State L)
  | (_, .predict ip ty) => some (btbPrediction hooks s ip ty).1
  | (ω, .update ip target taken ty) => updateBtb hooks ω s ip target taken ty
  | (ω, .prefetch ip target ty taken toStreamBuffer) => prefetchBtb ω s ip target ty taken toStreamBuffer

def SameTables (m m' : List L) : Prop := ∀ i : Nat, (m'[i]?).map (toBTB : L → BTB E) = (m[i]?).map toBTB

/-- The hierarchies that the operations lead to from an empty one. -/
inductive Reach : List L → Prop
  | start {m : List L} : (∀ l ∈ m, ∀ set, (toBTB l).btb set = ∅) → Reach m
  | insert {m m' : List L} {ω : Nat → Ω} {ip target : Nat} {ty : BranchType} {b : Bool} : Reach m → Absent m ip →
      MultiLevelBtb.insert ω m ip target ty 0 none = some (m', b) → Reach m'
  | update {m m' : List L} {ω : Nat → Ω} {ip : Nat} : Reach m → MultiLevelBtb.update ω m ip = some m' → Reach m'
  | write {m : List L} (ip : Nat) (f : BTBEntry → BTBEntry) : Reach m → Reach (writeEntry m ip f)
  | hook {m m' : List L} : Reach m → SameTables m m' → Reach m'

variable {m m' : List L} {ip : Nat}

theorem SameTables.lookAt (h : SameTables m m') : lookAt m' = lookAt m := by
  funext i j
  have hi := h i
  cases hm : m[i]? with
  | none =>
      rw [hm, Option.map_none, Option.map_eq_none_iff] at hi
      rw [MultiLevelCascade.lookAt, hi, MultiLevelCascade.lookAt, hm]
  | some l =>
      rw [hm, Option.map_some] at hi
      obtain ⟨l', hl', heq⟩ := Option.map_eq_some_iff.mp hi
      rw [lookAt_of_getElem? hl', lookAt_of_getElem? hm, look, look, heq]

theorem lookAt_write [LawfulBTBType L] (m : List L) (ip : Nat) (f : BTBEntry → BTBEntry) (i j : Nat) :
    MultiLevelCascade.lookAt (writeEntry m ip f) i j =
      if j = ip ∧ levelOf m ip = some i then (MultiLevelCascade.lookAt m i j).map f
      else MultiLevelCascade.lookAt m i j := by
  rw [writeEntry]
  cases hlev : levelOf m ip with
  | none => rw [if_neg (by simp)]
  | some k =>
      obtain ⟨l, e, hl, he, -⟩ := levelOf_eq_some hlev
      dsimp only
      rw [lookAt_modify hl, look_write]
      by_cases hik : i = k
      · subst hik
        rw [Function.update_self, lookAt_of_getElem? hl]
        by_cases hj : j = ip
        · subst hj
          rw [Function.update_self, if_pos ⟨rfl, rfl⟩]
        · rw [Function.update_of_ne hj, if_neg (fun h => hj h.1)]
      · rw [Function.update_of_ne hik, if_neg (fun h => hik (Option.some.inj h.2).symm)]

theorem levelOf_write [LawfulBTBType L] (m : List L) (ip : Nat) (f : BTBEntry → BTBEntry) (j : Nat) :
    levelOf (writeEntry m ip f) j = levelOf m j := by
  apply levelOf_congr
  intro k
  rw [lookAt_write]
  split_ifs
  · exact Option.map_eq_none_iff
  · exact Iff.rfl

theorem write_exclusive [LawfulBTBType L] (hex : Exclusive m) (ip : Nat) (f : BTBEntry → BTBEntry) :
    Exclusive (writeEntry m ip f) := by
  have hwas : ∀ i j d, MultiLevelCascade.lookAt (writeEntry m ip f) i j = some d →
      ∃ d', MultiLevelCascade.lookAt m i j = some d' := by
    intro i j d hd
    rw [lookAt_write] at hd
    split_ifs at hd
    · obtain ⟨d', hd', -⟩ := Option.map_eq_some_iff.mp hd
      exact ⟨d', hd'⟩
    · exact ⟨d, hd⟩
  intro j i k d e hd he
  obtain ⟨d', hd'⟩ := hwas i j d hd
  obtain ⟨e', he'⟩ := hwas k j e he
  exact hex j i k d' e' hd' he'

theorem empty_exclusive (h : ∀ l ∈ m, ∀ set, (toBTB l).btb set = ∅) : Exclusive m := by
  intro j i k d e hd he
  obtain ⟨l, hl, hlook⟩ := getElem?_of_lookAt hd
  rw [look, BTB.look, BTB.findBtbEntry, BTB.tableOf, h l (List.mem_of_getElem? hl), AList.lookup_empty, Option.map_none] at hlook
  cases hlook

theorem Reach.exclusive [LawfulBTBType L] (h : Reach m) : Exclusive m := by
  induction h with
  | start hempty => exact empty_exclusive hempty
  | insert _ hno hins ih => exact insert_exclusive ih hno hins
  | update _ hup ih => exact update_exclusive ih hup
  | write ip f _ ih => exact write_exclusive ih ip f
  | hook _ hsame ih => exact ih.congr hsame.lookAt

structure Hooks.Lawful (hooks : Hooks L) : Prop where
  timestamp : ∀ m, SameTables m (hooks.updateTimestamp m)
  record : ∀ m ip target ty, SameTables m (hooks.findBtbEntryForRecord m ip target ty)

omit [BTBEntryType E] in
theorem Hooks.plain_lawful : (Hooks.plain (L := L)).Lawful := ⟨fun _ _ => rfl, fun _ _ _ _ _ => rfl⟩

theorem findBtbEntry_eq_none : (findBtbEntry m ip).1 = none ↔ Absent m ip := by
  have hsome := isSome_findBtbEntry m ip
  rw [← Option.not_isSome_iff_eq_none, hsome, Resident, Absent]
  push Not
  constructor
  · intro h i
    cases he : MultiLevelCascade.lookAt m i ip with
    | none => rfl
    | some e => exact absurd he (h i e)
  · intro h i e he
    rw [h i] at he
    cases he

/-- What one call about a branch does to the entries of the hierarchy. -/
inductive Effect (ω : Nat → Ω) (m : List L) (ip : Nat) : List L → Prop
  | same {m' : List L} : SameTables m m' → Effect ω m ip m'
  | insert {m₁ m' : List L} {target : Nat} {ty : BranchType} {b : Bool} : SameTables m m₁ → Absent m₁ ip →
      MultiLevelBtb.insert ω m₁ ip target ty 0 none = some (m', b) → Effect ω m ip m'
  | taken {m₁ m' : List L} {target : Nat} : SameTables m m₁ →
      MultiLevelBtb.update ω (writeEntry m₁ ip (fun e => { e with target := target })) ip = some m' → Effect ω m ip m'
  | notTaken {m₁ : List L} : SameTables m m₁ →
      Effect ω m ip (writeEntry m₁ ip (fun e => { e with alwaysTaken := false }))

variable {hooks : Hooks L} {s s' : State L} {ω : Nat → Ω} {target : Nat} {taken : Bool} {ty : BranchType}

omit [BTBEntryType E] in
theorem SameTables.refl (m : List L) : SameTables m m := fun _ => rfl

theorem allocate_effect (hm : SameTables m s.multiLevelBtb) (hno : Absent m ip)
    (h : allocate ω s ip target ty = some s') : Effect ω m ip s'.multiLevelBtb := by
  obtain ⟨⟨m', b⟩, hins, rfl⟩ := Option.map_eq_some_iff.mp h
  apply Effect.insert hm _ hins
  intro i
  rw [hm.lookAt]
  exact hno i

theorem updateExisting_effect (hm : SameTables m s.multiLevelBtb)
    (h : updateExisting ω s ip target taken = some s') : Effect ω m ip s'.multiLevelBtb := by
  rw [updateExisting] at h
  split_ifs at h
  · obtain ⟨m', hup, rfl⟩ := Option.map_eq_some_iff.mp h
    exact .taken hm hup
  · rw [Option.some.injEq] at h
    exact h ▸ .notTaken hm

theorem updateBtb_effect (hh : hooks.Lawful) (h : updateBtb hooks ω s ip target taken ty = some s') :
    Effect ω s.multiLevelBtb ip s'.multiLevelBtb := by
  simp only [updateBtb] at h
  have hrec := hh.record s.multiLevelBtb ip target ty
  by_cases hty : ty.usesBtb = true
  · rw [if_pos hty] at h
    cases hf : (findBtbEntry s.multiLevelBtb ip).1 with
    | none =>
        rw [hf] at h
        dsimp only at h
        split_ifs at h
        · exact allocate_effect hrec (findBtbEntry_eq_none.mp hf) h
        · rw [Option.some.injEq] at h
          exact h ▸ .same (.refl _)
    | some e =>
        rw [hf] at h
        dsimp only at h
        split_ifs at h
        · exact updateExisting_effect hrec h
        · let t : State L := { s with side := SideTables.update s.side ip target taken ty }
          exact updateExisting_effect (s := t) (.refl _) h
  · rw [if_neg hty, Option.some.injEq] at h
    exact h ▸ .same (.refl _)

theorem prefetchBtb_effect {toStreamBuffer : Bool} (h : prefetchBtb ω s ip target ty taken toStreamBuffer = some s') :
    Effect ω s.multiLevelBtb ip s'.multiLevelBtb := by
  rw [prefetchBtb] at h
  by_cases hty : ty.usesBtb = true
  · rw [if_pos hty] at h
    cases hf : (findBtbEntry s.multiLevelBtb ip).1 with
    | none =>
        rw [hf] at h
        dsimp only at h
        split_ifs at h
        · obtain ⟨b, -, rfl⟩ := Option.map_eq_some_iff.mp h
          exact .same (.refl _)
        · exact allocate_effect (.refl _) (findBtbEntry_eq_none.mp hf) h
        · rw [Option.some.injEq] at h
          exact h ▸ .same (.refl _)
    | some e =>
        rw [hf] at h
        exact updateExisting_effect (.refl _) h
  · rw [if_neg hty, Option.some.injEq] at h
    exact h ▸ .same (.refl _)

theorem btbPrediction_same (hh : hooks.Lawful) (s : State L) (ip : Nat) (ty : BranchType) :
    SameTables s.multiLevelBtb (btbPrediction hooks s ip ty).1.multiLevelBtb := by
  rw [btbPrediction]
  split
  · exact .refl _
  · dsimp only
    split <;> exact hh.timestamp _

theorem step_effect {c : (Nat → Ω) × Call} (hh : hooks.Lawful) (h : step hooks s c = some s') :
    Effect c.1 s.multiLevelBtb c.2.ip s'.multiLevelBtb := by
  obtain ⟨ω, c⟩ := c
  cases c with
  | predict ip ty =>
      rw [step, Option.some.injEq] at h
      exact h ▸ .same (btbPrediction_same hh s ip ty)
  | update ip target taken ty => exact updateBtb_effect hh h
  | prefetch ip target ty taken toStreamBuffer => exact prefetchBtb_effect h

theorem Effect.reach (h : Effect ω m ip m') (hr : Reach m) : Reach m' := by
  cases h with
  | same hm => exact .hook hr hm
  | insert hm hno hins => exact .insert (.hook hr hm) hno hins
  | taken hm hup => exact .update (.write ip _ (.hook hr hm)) hup
  | notTaken hm => exact .write ip _ (.hook hr hm)

theorem run_reach {cs : List ((Nat → Ω) × Call)} (hh : hooks.Lawful) (hr : Reach s.multiLevelBtb)
    (h : run (step hooks) s cs = some s') : Reach s'.multiLevelBtb :=
  run_preserves (I := fun s => Reach s.multiLevelBtb) (fun _ _ _ _ hr hs => (step_effect hh hs).reach hr) hr h

end Thermometer.MultiLevelDriver
