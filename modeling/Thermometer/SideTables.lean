import Thermometer.Trace

namespace Thermometer.SideTables

open Trace

def indirectSize : Nat := 4096

def rasSize : Nat := 32

def callInstrSizeTrackers : Nat := 1024

/-- The return address stack, the indirect target cache and the call size
trackers. Every BTB module declares the same ones beside its own BTB. -/
structure Tables where
  indirect : Nat → Nat
  conditionalHistory : Nat
  ras : Nat → Nat
  rasIndex : Nat
  callInstrSizes : Nat → Nat

def Tables.initial : Tables := ⟨fun _ => 0, 0, fun _ => 0, 0, fun _ => 4⟩

def absAddrDist (addr1 addr2 : Nat) : Nat := if addr2 < addr1 then addr1 - addr2 else addr2 - addr1

def indirectHash (t : Tables) (ip : Nat) : Nat :=
  ((ip >>> 2) ^^^ t.conditionalHistory) &&& (indirectSize - 1)

def pushRas (size : Nat) (t : Tables) (ip : Nat) : Tables :=
  let index := if t.rasIndex + 1 = size then 0 else t.rasIndex + 1
  { t with rasIndex := index, ras := Function.update t.ras index ip }

def peekRas (t : Tables) : Nat := t.ras t.rasIndex

def popRas (size : Nat) (t : Tables) : Tables × Nat :=
  ({ t with
      ras := Function.update t.ras t.rasIndex 0
      rasIndex := if t.rasIndex = 0 then size - 1 else t.rasIndex - 1 },
    t.ras t.rasIndex)

def callSizeTrackerHash (ip : Nat) : Nat := ip &&& (callInstrSizeTrackers - 1)

def getCallSize (t : Tables) (ip : Nat) : Nat := t.callInstrSizes (callSizeTrackerHash ip)

/-- The part of `btb_prediction` before the BTB is consulted. The result is
`none` for the branches the BTB has to answer. -/
def predict (t : Tables) (ip : Nat) (ty : BranchType) : Tables × Option (Nat × Bool) :=
  let alwaysTaken : Bool := ty ≠ .conditional
  let t := if ty.isCall then pushRas rasSize t ip else t
  if ty = .ret then
    let target := peekRas t
    (t, some ((target + getCallSize t target) % 2 ^ 64, alwaysTaken))
  else if ty = .indirect || ty = .indirectCall then
    (t, some (t.indirect (indirectHash t ip), alwaysTaken))
  else (t, none)

/-- The part of `update_btb` that does not touch the BTB. -/
def update (t : Tables) (ip branchTarget : Nat) (taken : Bool) (ty : BranchType) : Tables :=
  let t := if ty = .indirect || ty = .indirectCall then
      { t with indirect := Function.update t.indirect (indirectHash t ip) branchTarget }
    else t
  let t := if ty = .conditional then
      { t with conditionalHistory := (t.conditionalHistory <<< 1) % 2 ^ 64 ||| (if taken then 1 else 0) }
    else t
  if ty = .ret then
    let (t, callIp) := popRas rasSize t
    let estimated := absAddrDist callIp branchTarget
    if estimated ≤ 10 then
      { t with callInstrSizes := Function.update t.callInstrSizes (callSizeTrackerHash callIp) estimated }
    else t
  else t

/-- The part of `btb_prediction` before the BTB is consulted, in a module with a stack of its own size. -/
def predictWith (size : Nat) (t : Tables) (ip : Nat) (ty : BranchType) : Tables × Option (Nat × Bool) :=
  let alwaysTaken : Bool := ty ≠ .conditional
  let t := if ty.isCall then pushRas size t ip else t
  if ty = .ret then
    let target := peekRas t
    (t, some ((target + getCallSize t target) % 2 ^ 64, alwaysTaken))
  else if ty = .indirect || ty = .indirectCall then
    (t, some (t.indirect (indirectHash t ip), alwaysTaken))
  else (t, none)

def storeIndirect (t : Tables) (ip branchTarget : Nat) : Tables :=
  { t with indirect := Function.update t.indirect (indirectHash t ip) branchTarget }

def shiftHistory (t : Tables) (taken : Bool) : Tables :=
  { t with conditionalHistory := (t.conditionalHistory <<< 1) % 2 ^ 64 ||| (if taken then 1 else 0) }

/-- A return pops its call and recalibrates the size of the call instruction. -/
def recalibrate (size : Nat) (t : Tables) (branchTarget : Nat) : Tables × Nat :=
  let (t, callIp) := popRas size t
  let estimated := absAddrDist callIp branchTarget
  if estimated ≤ 10 then
    ({ t with callInstrSizes := Function.update t.callInstrSizes (callSizeTrackerHash callIp) estimated }, callIp)
  else (t, callIp)

/-- The part of `update_btb` that does not touch the BTB, in a module with a stack of its own size. -/
def updateWith (size : Nat) (t : Tables) (ip branchTarget : Nat) (taken : Bool) (ty : BranchType) : Tables :=
  if ty = .indirect || ty = .indirectCall then storeIndirect t ip branchTarget
  else if ty = .conditional then shiftHistory t taken
  else if ty = .ret then (recalibrate size t branchTarget).1 else t

theorem predict_eq (t : Tables) (ip : Nat) (ty : BranchType) : predict t ip ty = predictWith rasSize t ip ty := rfl

/-- The modules that treat the branch types in one place each do to these tables
what the others do in a row. -/
theorem update_eq (t : Tables) (ip branchTarget : Nat) (taken : Bool) (ty : BranchType) :
    update t ip branchTarget taken ty = updateWith rasSize t ip branchTarget taken ty := by
  cases ty with
  | ret => simp [update, updateWith, recalibrate, apply_ite Prod.fst]
  | notBranch => rfl
  | directJump => rfl
  | indirect => rfl
  | conditional => rfl
  | directCall => rfl
  | indirectCall => rfl
  | other => rfl

theorem recalibrate_snd (size : Nat) (t : Tables) (branchTarget : Nat) :
    (recalibrate size t branchTarget).2 = peekRas t := by
  simp only [recalibrate]
  split_ifs <;> rfl

theorem predict_none_iff (t : Tables) (ip : Nat) (ty : BranchType) :
    (predict t ip ty).2 = none ↔ ty.usesBtb = true := by
  cases ty <;> simp [predict, BranchType.usesBtb]

end Thermometer.SideTables
