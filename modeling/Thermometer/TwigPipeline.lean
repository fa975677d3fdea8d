import Thermometer.RobProgress
import Thermometer.TwigProfile

namespace Thermometer.TwigPipeline

open Trace Lib.Tables Lib.Rings Lib.Runs TwigProfile RobShape RobProgress

/-- The fields of an instruction that the profile reads, and those that the reorder buffer reads. -/
structure Instr where
  instrId : Nat
  ip : Nat
  isBranch : Bool
  branchType : BranchType
  branchTarget : Nat
  registers : ReorderBuffer.Instr
  typed : branchType ≠ .notBranch → isBranch = true

def Instr.empty : Instr := ⟨0, 0, false, .notBranch, 0, ⟨false, fun _ => 0, []⟩, fun h => absurd rfl h⟩

structure Sizes where
  ifetch : Nat
  decode : Nat
  dispatch : Nat
  rob : Nat

/-- `robInstr` holds the fields that the entries of `rob` leave out. `entered` is history:
the instructions that came into the first buffer. -/
structure State where
  sizes : Sizes
  ifetchBuffer : List Instr
  decodeBuffer : List Instr
  dispatchBuffer : List Instr
  rob : ReorderBuffer.State
  robInstr : Nat → Instr
  instrUniqueId : Nat
  twigRecord : TwigRecord
  entered : List Instr

def State.initial (sizes : Sizes) (generateTwigTrace : Bool) : State :=
  ⟨sizes, [], [], [], .initial sizes.rob, fun _ => .empty, 0, .init generateTwigTrace, []⟩

/-- A branch is looked up in the BTB and logged before it comes into the buffer. -/
def initInstruction (s : State) (archInstr : Instr) (predictedBranchTarget cycle : Nat) : Option State :=
  if s.ifetchBuffer.length < s.sizes.ifetch then
    let i := { archInstr with instrId := s.instrUniqueId }
    let record :=
      if i.isBranch then
        s.twigRecord.lookup i.instrId i.ip i.branchTarget predictedBranchTarget i.branchType cycle
      else some s.twigRecord
    record.map (fun r =>
      { s with
        ifetchBuffer := s.ifetchBuffer ++ [i]
        instrUniqueId := s.instrUniqueId + 1
        twigRecord := r
        entered := s.entered ++ [i] })
  else some s

def fetchInstruction (s : State) : State :=
  match s.ifetchBuffer with
  | [] => s
  | i :: rest =>
      if s.decodeBuffer.length < s.sizes.decode then
        { s with ifetchBuffer := rest, decodeBuffer := s.decodeBuffer ++ [i] }
      else s

def decodeInstruction (s : State) (cycle : Nat) : Option State :=
  match s.decodeBuffer with
  | [] => some s
  | i :: rest =>
      if s.dispatchBuffer.length < s.sizes.dispatch then
        let record :=
          if i.branchType = .directJump ∨ i.branchType = .directCall then
            s.twigRecord.update i.instrId i.ip i.branchTarget i.branchType cycle
          else some s.twigRecord
        record.map (fun r =>
          { s with decodeBuffer := rest, dispatchBuffer := s.dispatchBuffer ++ [i], twigRecord := r })
      else some s

def dispatchInstruction (s : State) : State :=
  match s.dispatchBuffer with
  | [] => s
  | i :: rest =>
      if s.rob.occupancy < s.rob.size then
        { s with
          dispatchBuffer := rest
          rob := ReorderBuffer.dispatchInstruction s.rob i.registers
          robInstr := Function.update s.robInstr s.rob.tail i }
      else s

/-- The source does this on two paths, for instructions with and without memory operands. -/
def completeExecution (s : State) (i cycle : Nat) : Option State :=
  if (s.rob.entry i).executed = .inflight then do
    let rob ← ReorderBuffer.completeExecution s.rob i
    let instr := s.robInstr i
    let r ← if instr.branchType = .conditional then
        s.twigRecord.update instr.instrId instr.ip instr.branchTarget instr.branchType cycle
      else some s.twigRecord
    some { s with rob := rob, twigRecord := r }
  else some s

def retireRob (s : State) : State :=
  if (s.rob.entry s.rob.head).executed = .completed then
    { s with rob := ReorderBuffer.retireRob s.rob, robInstr := Function.update s.robInstr s.rob.head .empty }
  else s

/-- The turns of the pipeline. The caches, the delays and the widths only decide which turn
comes when, and the BTB and the branch predictor only what is predicted. -/
inductive Event
  | read (archInstr : Instr) (predictedBranchTarget cycle : Nat)
  | fetch
  | decode (cycle : Nat)
  | dispatch
  | schedule (a : Nat)
  | execute
  | scheduleMemory (a : Nat)
  | complete (a cycle : Nat)
  | retire

/-- `none` is a failed assertion. -/
def step (s : State) : Event → Option State
  | .read i predictedBranchTarget cycle => initInstruction s i predictedBranchTarget cycle
  | .fetch => some (fetchInstruction s)
  | .decode cycle => decodeInstruction s cycle
  | .dispatch => some (dispatchInstruction s)
  | .schedule a => (ReorderBuffer.step s.rob (.schedule a)).map (fun rob => { s with rob := rob })
  | .execute => some { s with rob := ReorderBuffer.executeInstruction s.rob }
  | .scheduleMemory a => (ReorderBuffer.step s.rob (.scheduleMemory a)).map (fun rob => { s with rob := rob })
  | .complete a cycle => if a < s.rob.occupancy then completeExecution s (s.rob.slot a) cycle else some s
  | .retire => some (retireRob s)

def Instr.Profiled (i : Instr) : Prop := TwigProfile.Profiled i.branchTarget i.branchType

instance (i : Instr) : Decidable i.Profiled := inferInstanceAs (Decidable (TwigProfile.Profiled _ _))

def Instr.shown (i : Instr) : Nat × Option String × Nat × Nat :=
  (i.instrId, getBranchTypeName i.branchType, i.ip, i.branchTarget)

/-- Each profiled instruction that has entered is looked up once, in the order of entering.
Each update has its lookup before it, with the same branch, and is the only one. -/
structure WellPaired (s : State) : Prop where
  numbered : s.entered.map Instr.instrId = List.range s.entered.length
  lookups : (lookups s.twigRecord.outputTrace).map (fun l => (l.1, some l.2.branchTypeName, l.2.ip, l.2.target)) =
    (s.entered.filter (fun i => i.Profiled)).map Instr.shown
  updates : Paired s.twigRecord.outputTrace

end Thermometer.TwigPipeline
