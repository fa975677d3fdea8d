import Thermometer.TageHistory

namespace Thermometer.TageTables

open Trace TageHistory

def nbankLow : Nat := 10
def nbankHigh : Nat := 20
def logb : Nat := 13
def hystShift : Nat := 2
def ctrWidth : Nat := 3
def altWidth : Nat := 5
def sizeUseAlt : Nat := 16
def bornTick : Int := 1024

/-- An entry of a tagged table, `gentry`. -/
structure GEntry where
  ctr : Int
  tag : Nat
  u : Nat
  deriving DecidableEq, Repr

structure BEntry where
  hyst : Nat
  pred : Nat
  deriving DecidableEq, Repr

/-- The tables for short and for long histories are two arrays that the tables share bank by bank. -/
structure Tables where
  low : Nat → GEntry
  high : Nat → GEntry
  btable : Nat → BEntry
  useAltOnNa : Nat → Int
  tick : Int

def initial : Tables := ⟨fun _ => ⟨0, 0, 0⟩, fun _ => ⟨0, 0, 0⟩, fun _ => ⟨1, 0⟩, fun _ => 0, 0⟩

def noskip (i : Nat) : Bool :=
  if i = 4 ∨ i = nhist - 2 ∨ i = 8 ∨ i = nhist - 6 then false
  else (i - 1) &&& 1 ≠ 0 || (9 ≤ i && i < 23)

def sizeTable (i : Nat) : Nat := (if i < born then nbankLow else nbankHigh) * (1 <<< logg)

def Tables.entries (t : Tables) (i : Nat) : Nat → GEntry := if i < born then t.low else t.high

/-- `gtable[i][j]`: there is no table 0, and `none` is an access outside of the array. -/
def Tables.read (t : Tables) (i j : Nat) : Option GEntry :=
  if 1 ≤ i ∧ i ≤ nhist ∧ j < sizeTable i then some (t.entries i j) else none

def Tables.put (t : Tables) (i j : Nat) (e : GEntry) : Tables :=
  if i < born then { t with low := Function.update t.low j e }
  else { t with high := Function.update t.high j e }

def Tables.modify (t : Tables) (i j : Nat) (f : GEntry → GEntry) : Option Tables :=
  (t.read i j).map (fun e => t.put i j (f e))

def Tables.readBim (t : Tables) (bi : Nat) : Option Nat :=
  if bi < 1 <<< logb then some ((t.btable bi).pred <<< 1 + (t.btable (bi >>> hystShift)).hyst) else none

def ctrupdate (ctr : Int) (taken : Bool) (nbits : Nat) : Int :=
  if taken then if ctr < 2 ^ (nbits - 1) - 1 then ctr + 1 else ctr
  else if ctr > -2 ^ (nbits - 1) then ctr - 1 else ctr

def confidence (ctr : Int) : Nat := (2 * ctr + 1).natAbs

/-- `F`: the path history mixed with the number of the table. -/
def mixPath (hist size bank : Nat) : Nat :=
  let a := hist &&& (1 <<< size - 1)
  let a1 := a &&& (1 <<< logg - 1)
  let a2 := a >>> logg
  let a2 := if bank < logg then ((a2 <<< bank) &&& (1 <<< logg - 1)) + (a2 >>> (logg - bank)) else a2
  let a := a1 ^^^ a2
  if bank < logg then ((a <<< bank) &&& (1 <<< logg - 1)) + (a >>> (logg - bank)) else a

def gindex (L : Lengths) (s : Histories) (pc bank : Nat) : Nat :=
  let pc := pc % 2 ^ 32
  let size := if L.m bank > phistWidth then phistWidth else L.m bank
  let index := pc ^^^ (pc >>> (((logg : Int) - bank).natAbs + 1)) ^^^
    (s.chI bank).comp ^^^ mixPath s.phist size bank
  index &&& (1 <<< logg - 1)

def gtag (s : Histories) (pc bank : Nat) : Nat :=
  let tag := (pc % 2 ^ 32) ^^^ (s.chT 0 bank).comp ^^^ ((s.chT 1 bank).comp <<< 1)
  tag &&& (1 <<< tagWidth bank - 1)

def gtagAt (s : Histories) (pc i : Nat) : Nat := gtag s pc (if i % 2 = 1 then i else i - 1)

def gindexAt (L : Lengths) (s : Histories) (pc i : Nat) : Nat :=
  if i % 2 = 1 then gindex L s pc i else gindex L s pc (i - 1) ^^^ (gtag s pc (i - 1) &&& (1 <<< logg - 1))

/-- The tables that take part get banks one after the other, from `T` on. -/
def interleave (nbank : Nat) : List Nat → Nat → (Nat → Nat) → Nat → Nat
  | [], _, gi => gi
  | i :: is, t, gi =>
      if noskip i then interleave nbank is ((t + 1) % nbank) (Function.update gi i (gi i + t <<< logg))
      else interleave nbank is t gi

def longTables : List Nat := List.range' born (nhist - born + 1)
def shortTables : List Nat := List.range' 1 (born - 1)

/-- `mask i` stands for `(1 << m[i]) - 1`, which C++ does not define where `m[i]` is 32 or more. -/
def indices (mask : Nat → Nat) (L : Lengths) (s : Histories) (pc : Nat) : Nat → Nat :=
  let gi := interleave nbankHigh longTables ((pc ^^^ (s.phist &&& mask born)) % nbankHigh) (gindexAt L s pc)
  interleave nbankLow shortTables ((pc ^^^ (s.phist &&& mask 1)) % nbankLow) gi

/-- The longest table up to `i` with a matching tag, 0 if there is none. -/
def findBank (t : Tables) (gi tags : Nat → Nat) : Nat → Option Nat
  | 0 => some 0
  | i + 1 =>
      if noskip (i + 1) then
        (t.read (i + 1) (gi (i + 1))).bind
          (fun e => if e.tag = tags (i + 1) then some (i + 1) else findBank t gi tags i)
      else findBank t gi tags i

structure Lookup where
  gi : Nat → Nat
  tags : Nat → Nat
  bi : Nat
  bim : Nat
  hitBank : Nat
  altBank : Nat
  longestMatchPred : Bool
  altTaken : Bool
  altConf : Bool
  tagePred : Bool
  highConf : Bool
  medConf : Bool
  lowConf : Bool

def indUseAlt (hitBank : Nat) (altConf : Bool) : Nat :=
    (((hitBank - 1) / 8) <<< 1 + altConf.toNat) % (sizeUseAlt - 1)

/-- `getbim` after no tagged entry has matched. -/
def baseLookup (gi tags : Nat → Nat) (bi bim : Nat) (pred : Bool) : Lookup where
  gi := gi
  tags := tags
  bi := bi
  bim := bim
  hitBank := 0
  altBank := 0
  longestMatchPred := pred
  altTaken := pred
  altConf := bim == 0 || bim == 3
  tagePred := pred
  highConf := bim == 0 || bim == 3
  medConf := false
  lowConf := !(bim == 0 || bim == 3)

def tagePredict (mask : Nat → Nat) (L : Lengths) (s : Histories) (t : Tables) (pc : Nat) : Option Lookup := do
  let gi := indices mask L s pc
  let tags := gtagAt s pc
  let bi := (pc ^^^ (pc >>> 2)) &&& (1 <<< logb - 1)
  let bim ← t.readBim bi
  let base := baseLookup gi tags bi bim ((t.btable bi).pred > 0)
  let hitBank ← findBank t gi tags nhist
  let altBank ← findBank t gi tags (hitBank - 1)
  if hitBank = 0 then some base
  else
    let hit ← t.read hitBank (gi hitBank)
    let longest := decide (hit.ctr ≥ 0)
    let (altTaken, altConf) ←
      if altBank = 0 then some (base.altTaken, base.altConf)
      else (t.read altBank (gi altBank)).map (fun e => (decide (e.ctr ≥ 0), decide (confidence e.ctr > 1)))
    let useAlt := decide (t.useAltOnNa (indUseAlt hitBank altConf) ≥ 0)
    some { base with
      hitBank := hitBank
      altBank := altBank
      longestMatchPred := longest
      altTaken := altTaken
      altConf := altConf
      tagePred := if !useAlt || confidence hit.ctr > 1 then longest else altTaken
      highConf := confidence hit.ctr ≥ 1 <<< ctrWidth - 1
      medConf := confidence hit.ctr == 5
      lowConf := confidence hit.ctr == 1 }

/-- What the random numbers of one update are. -/
structure Draws where
  keep : Nat
  depth : Nat
  pair : Nat

inductive Attempt
  | allocated
  | weakened
  | useful
  | skipped
  deriving DecidableEq

def attempt (t : Tables) (k : Lookup) (resolveDir : Bool) (i : Nat) : Option (Tables × Attempt) :=
  if noskip i then
    (t.read i (k.gi i)).bind (fun e =>
      if e.u = 0 then
        if confidence e.ctr ≤ 3 then
          (t.modify i (k.gi i)
            (fun e => { e with tag := k.tags i, ctr := if resolveDir then 0 else -1 })).map
            (·, .allocated)
        else
          (t.modify i (k.gi i)
            (fun e => { e with ctr := if e.ctr > 0 then e.ctr - 1 else e.ctr + 1 })).map (·, .weakened)
      else some (t, .useful))
  else some (t, .skipped)

structure Balance where
  penalty : Nat
  na : Nat

def Balance.count (b : Balance) : Attempt → Balance
  | .allocated => { b with na := b.na + 1 }
  | .useful => { b with penalty := b.penalty + 1 }
  | .weakened | .skipped => b

/-- The loop over `I`, in pairs of tables of one length; `left` is `T`. `none` is also a loop that
does not end. -/
def allocateLoop (k : Lookup) (resolveDir : Bool) : Nat → Nat → Int → Balance → Tables →
    Option (Tables × Balance)
  | 0, _, _, _, _ => none
  | fuel + 1, I, left, b, t =>
      if I < nhist then do
        let (t, first) ← attempt t k resolveDir (I + 1)
        let b := b.count first
        if first = .allocated then
          if left ≤ 0 then some (t, b) else allocateLoop k resolveDir fuel (I + 4) (left - 1) b t
        else
          let (t, second) ← attempt t k resolveDir ((I ^^^ 1) + 1)
          let b := b.count second
          if second = .allocated then
            if left ≤ 0 then some (t, b) else allocateLoop k resolveDir fuel (I + 4) (left - 1) b t
          else allocateLoop k resolveDir fuel (I + 2) left b t
      else some (t, b)

def halveUseful (t : Tables) : Tables :=
  let halve (entries : Nat → GEntry) (size j : Nat) : GEntry :=
    if j < size then { entries j with u := (entries j).u >>> 1 } else entries j
  { t with low := halve t.low (sizeTable 1), high := halve t.high (sizeTable born) }

def updateTick (t : Tables) (b : Balance) : Tables :=
  let tick := t.tick + ((b.penalty : Int) - 2 * b.na)
  let tick := if tick < 0 then 0 else tick
  if tick ≥ bornTick then { halveUseful t with tick := 0 } else { t with tick := tick }

def firstDepth (k : Lookup) (d : Draws) : Nat :=
  let a := if d.depth &&& 127 < 32 then 2 else 1
  (((k.hitBank + 2 * a - 1) &&& 0xffe) ^^^ (d.pair &&& 1))

def allocateEntries (t : Tables) (k : Lookup) (resolveDir : Bool) (d : Draws) : Option Tables :=
  (allocateLoop k resolveDir nhist (firstDepth k d) 1 ⟨0, 0⟩ t).map (fun r => updateTick r.1 r.2)

/-- Whether the longest match may be a new entry decides which counter learns and whether an entry
is taken. -/
def updateUseAlt (t : Tables) (k : Lookup) (resolveDir : Bool) : Option (Tables × Bool) :=
  let alloc := k.tagePred != resolveDir && decide (k.hitBank < nhist)
  if 0 < k.hitBank then
    (t.read k.hitBank (k.gi k.hitBank)).map (fun e =>
      if confidence e.ctr ≤ 1 then
        let ind := indUseAlt k.hitBank k.altConf
        let ctr := ctrupdate (t.useAltOnNa ind) (k.altTaken == resolveDir) altWidth
        (if k.longestMatchPred ≠ k.altTaken then
            { t with useAltOnNa := Function.update t.useAltOnNa ind ctr }
          else t,
          if k.longestMatchPred = resolveDir then false else alloc)
      else (t, alloc))
  else some (t, alloc)

def baseupdate (t : Tables) (k : Lookup) (taken : Bool) : Tables :=
  let inter := if taken then if k.bim < 3 then k.bim + 1 else k.bim else if 0 < k.bim then k.bim - 1 else k.bim
  let btable := Function.update t.btable k.bi { t.btable k.bi with pred := inter >>> 1 }
  let j := k.bi >>> hystShift
  { t with btable := Function.update btable j { btable j with hyst := inter &&& 1 } }

/-- A new entry that was wrong lets the entry behind it learn too. -/
def updateBehind (t : Tables) (k : Lookup) (resolveDir : Bool) : Option Tables :=
  (t.read k.hitBank (k.gi k.hitBank)).bind (fun e =>
    if confidence e.ctr = 1 ∧ k.longestMatchPred ≠ resolveDir then
      if 0 < k.altBank then
        t.modify k.altBank (k.gi k.altBank) (fun e => { e with ctr := ctrupdate e.ctr resolveDir ctrWidth })
      else some (baseupdate t k resolveDir)
    else some t)

def updateHit (t : Tables) (k : Lookup) (resolveDir : Bool) : Option Tables :=
  t.modify k.hitBank (k.gi k.hitBank) (fun e =>
    let ctr := ctrupdate e.ctr resolveDir ctrWidth
    -- a change of sign
    { e with ctr := ctr, u := if confidence ctr = 1 then 0 else e.u })

/-- The entry is not needed where a shorter one with full confidence says the same. -/
def dropUseful (t : Tables) (k : Lookup) (resolveDir : Bool) : Option Tables :=
  if k.altTaken = resolveDir ∧ 0 < k.altBank then
    (t.read k.altBank (k.gi k.altBank)).bind (fun a =>
      if confidence a.ctr = 7 then
        t.modify k.hitBank (k.gi k.hitBank) (fun e =>
          if e.u = 1 ∧ k.longestMatchPred = resolveDir then { e with u := 0 } else e)
      else some t)
  else some t

def updateCounters (t : Tables) (k : Lookup) (resolveDir : Bool) : Option Tables :=
  if 0 < k.hitBank then do
    let t ← updateBehind t k resolveDir
    let t ← updateHit t k resolveDir
    dropUseful t k resolveDir
  else some (baseupdate t k resolveDir)

/-- There is no check here that there was a match at all. -/
def markUseful (t : Tables) (k : Lookup) (resolveDir : Bool) : Option Tables :=
  if k.longestMatchPred ≠ k.altTaken ∧ k.longestMatchPred = resolveDir then
    t.modify k.hitBank (k.gi k.hitBank) (fun e => if e.u < 1 then { e with u := e.u + 1 } else e)
  else some t

/-- One branch, with the prediction that the corrector and the loop predictor make of that of the
tables. -/
structure Event where
  branch : TageHistory.Branch
  predTaken : Bool
  draws : Draws

def updateTables (t : Tables) (k : Lookup) (ev : Event) : Option Tables := do
  let resolveDir := ev.branch.taken
  let (t, alloc) ← updateUseAlt t k resolveDir
  let alloc := if ev.predTaken = resolveDir ∧ ev.draws.keep &&& 31 ≠ 0 then false else alloc
  let t ← (if alloc then allocateEntries t k resolveDir ev.draws else some t : Option Tables)
  let t ← updateCounters t k resolveDir
  markUseful t k resolveDir

structure State where
  hist : Histories
  tables : Tables

def start (L : Lengths) : State := ⟨reinit L, initial⟩

/-- The core updates the predictor for a branch right after it has asked for its prediction. -/
def step (mask : Nat → Nat) (L : Lengths) (s : State) (ev : Event) : Option State := do
  let k ← tagePredict mask L s.hist s.tables ev.branch.pc
  let t ← updateTables s.tables k ev
  some ⟨historyUpdate s.hist ev.branch, t⟩

end Thermometer.TageTables
