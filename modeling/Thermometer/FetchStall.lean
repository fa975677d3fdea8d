import Thermometer.Lib.Runs
import Thermometer.ReorderBuffer
import Thermometer.Trace

namespace Thermometer.FetchStall

open Lib.Runs Trace

open ReorderBuffer (Stage)

/-- The sizes of the pipeline's buffers and the knobs of the command line. -/
structure Config where
  fetchWidth : Nat
  ifetchSize : Nat
  decodeSize : Nat
  dispatchSize : Nat
  robSize : Nat
  branchMispredictPenalty : Nat
  perfectBpu : Bool
  perfectBp : Bool
  perfectBtb : Bool

structure Prediction where
  target : Nat
  alwaysTaken : Bool
  latency : Nat
  taken : Bool

/-- An instruction as it is read from the trace, with what is predicted for it. -/
structure Input where
  isBranch : Bool
  branchType : BranchType
  branchTaken : Bool
  branchTarget : Nat
  prediction : Prediction

structure Instr where
  instrId : Nat
  isBranch : Bool
  branchType : BranchType
  branchMispredicted : Nat
  executed : Stage

def Instr.direct (x : Instr) : Prop := x.branchType = .directJump ∨ x.branchType = .directCall

instance (x : Instr) : Decidable x.direct := inferInstanceAs (Decidable (_ ∨ _))

/-- `stalledBy` is the branch for which the fetch was stalled last. `resolved` and `resumed` are history: branches with the
cycle in which they were resolved, and with the cycle in which the fetch they had stalled was resumed. -/
structure State where
  currentCoreCycle : Nat
  warmupComplete : Bool
  fetchStall : Bool
  fetchResumeCycle : Nat
  instrsToReadThisCycle : Nat
  instrUniqueId : Nat
  ifetchBuffer : List Instr
  decodeBuffer : List Instr
  dispatchBuffer : List Instr
  rob : List Instr
  stalledBy : Nat
  resolved : List (Nat × Nat)
  resumed : List (Nat × Nat)

def State.initial : State where
  currentCoreCycle := 0
  warmupComplete := false
  fetchStall := false
  fetchResumeCycle := 0
  instrsToReadThisCycle := 0
  instrUniqueId := 0
  ifetchBuffer := []
  decodeBuffer := []
  dispatchBuffer := []
  rob := []
  stalledBy := 0
  resolved := []
  resumed := []

def branchPrediction (c : Config) (x : Input) : Bool :=
  if c.perfectBpu ∨ c.perfectBp then x.branchTaken else x.prediction.taken

def predictedBranchTarget (c : Config) (x : Input) : Nat :=
  let target :=
    if c.perfectBpu then x.branchTarget
    else if c.perfectBp then x.prediction.target
    else if c.perfectBtb ∧ x.prediction.taken = x.branchTaken then x.branchTarget
    else x.prediction.target
  if branchPrediction c x = false ∧ x.prediction.alwaysTaken = false then 0 else target

def Mispredicted (c : Config) (x : Input) : Prop := x.isBranch = true ∧ predictedBranchTarget c x ≠ x.branchTarget

instance (c : Config) (x : Input) : Decidable (Mispredicted c x) := inferInstanceAs (Decidable (_ ∧ _))

def branchMispredicted (c : Config) (s : State) (x : Input) : Nat :=
  if x.isBranch = true ∧ s.warmupComplete = true then
    if Mispredicted c x then c.branchMispredictPenalty else x.prediction.latency
  else 0

def instrsToRead (c : Config) (s : State) (x : Input) : Nat :=
  let n :=
    if s.instrsToReadThisCycle = 0 then min c.fetchWidth (c.ifetchSize - s.ifetchBuffer.length) else s.instrsToReadThisCycle
  if Mispredicted c x then
    if s.warmupComplete then 0 else n - 1
  else if x.isBranch = true ∧ x.branchTaken = true then 0
  else n - 1

def initInstruction (c : Config) (s : State) (x : Input) : State :=
  let stalls := Mispredicted c x ∧ s.warmupComplete = true
  let instr : Instr :=
    { instrId := s.instrUniqueId
      isBranch := x.isBranch
      branchType := x.branchType
      branchMispredicted := branchMispredicted c s x
      executed := .idle }
  { s with
    fetchStall := if stalls then true else s.fetchStall
    instrsToReadThisCycle := instrsToRead c s x
    instrUniqueId := s.instrUniqueId + 1
    ifetchBuffer := s.ifetchBuffer ++ [instr]
    stalledBy := if stalls then s.instrUniqueId else s.stalledBy }

def readTrace (c : Config) (s : State) (x : Input) : State :=
  if s.instrsToReadThisCycle = 0 ∧ (c.ifetchSize ≤ s.ifetchBuffer.length ∨ s.fetchStall = true) then s
  else initInstruction c s x

def resumeFetch (s : State) : State :=
  if s.fetchStall = true ∧ s.fetchResumeCycle ≤ s.currentCoreCycle ∧ s.fetchResumeCycle ≠ 0 then
    { s with
      fetchStall := false
      fetchResumeCycle := 0
      resumed := s.resumed ++ [(s.stalledBy, s.currentCoreCycle)] }
  else s

/-- `ready` is how many of the instructions at the front have been translated and fetched. -/
def fetchInstruction (c : Config) (s : State) (ready : Nat) : State :=
  let s := resumeFetch s
  let n := min ready (min c.fetchWidth (c.decodeSize - s.decodeBuffer.length))
  { s with
    decodeBuffer := s.decodeBuffer ++ s.ifetchBuffer.take n
    ifetchBuffer := s.ifetchBuffer.drop n }

def decoded (x : Instr) : Instr := if x.direct then { x with branchMispredicted := 0 } else x

def decodeInstruction (c : Config) (s : State) : State :=
  match s.decodeBuffer with
  | [] => s
  | x :: rest =>
    if s.dispatchBuffer.length < c.dispatchSize then
      { s with
        fetchResumeCycle :=
          if x.branchMispredicted ≠ 0 ∧ x.direct then s.currentCoreCycle + c.branchMispredictPenalty else s.fetchResumeCycle
        decodeBuffer := rest
        dispatchBuffer := s.dispatchBuffer ++ [decoded x]
        resolved := if x.isBranch = true ∧ x.direct then s.resolved ++ [(x.instrId, s.currentCoreCycle)] else s.resolved }
    else s

def dispatchInstruction (c : Config) (s : State) : State :=
  match s.dispatchBuffer with
  | [] => s
  | x :: rest => if s.rob.length < c.robSize then { s with dispatchBuffer := rest, rob := s.rob ++ [x] } else s

def executeInstruction (s : State) (a : Nat) : State :=
  match s.rob[a]? with
  | none => s
  | some x => if x.executed = .idle then { s with rob := s.rob.set a { x with executed := .inflight } } else s

def completeExecution (c : Config) (s : State) (a : Nat) : State :=
  match s.rob[a]? with
  | none => s
  | some x =>
    if x.executed = .inflight then
      { s with
        fetchResumeCycle :=
          if x.branchMispredicted ≠ 0 then s.currentCoreCycle + c.branchMispredictPenalty else s.fetchResumeCycle
        rob := s.rob.set a { x with executed := .completed }
        resolved := if x.isBranch = true ∧ ¬x.direct then s.resolved ++ [(x.instrId, s.currentCoreCycle)] else s.resolved }
    else s

def retireRob (s : State) : State :=
  match s.rob with
  | [] => s
  | x :: rest => if x.executed = .completed then { s with rob := rest } else s

/-- The turns of the pipeline's stages. Latencies, widths and dependencies only decide which turn comes when. -/
inductive Event
  | cycle
  | finishWarmup
  | retire
  | complete (a : Nat)
  | execute (a : Nat)
  | dispatch
  | decode
  | fetch (ready : Nat)
  | read (x : Input)

def step (c : Config) (s : State) : Event → Option State
  | .cycle => some { s with currentCoreCycle := s.currentCoreCycle + 1 }
  | .finishWarmup => some { s with warmupComplete := true }
  | .retire => some (retireRob s)
  | .complete a => some (completeExecution c s a)
  | .execute a => some (executeInstruction s a)
  | .dispatch => some (dispatchInstruction c s)
  | .decode => some (decodeInstruction c s)
  | .fetch ready => some (fetchInstruction c s ready)
  | .read x => some (readTrace c s x)

end Thermometer.FetchStall
