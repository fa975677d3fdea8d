import Mathlib.Algebra.Ring.Nat
import Mathlib.Logic.Function.Basic

namespace Thermometer.VmemModel

def vmemRandFactor : UInt64 := 91827349653

def vmemReserveCapacity : Nat := 1048576

/-- The maps of each core, from its virtual pages and from the tags of each level of its page table. -/
structure VirtualMemory where
  numCpus : Nat
  pageSize : Nat
  numPpages : Nat
  ppageFreeList : List Nat
  vpageToPpageMap : Nat → Nat → Option Nat
  ptLevels : Nat
  pageTable : Nat → Nat → Nat → Option Nat
  randState : UInt64

section Construct

def vmemRand (r : UInt64) : UInt64 :=
  let r := r + vmemRandFactor
  let r := r ^^^ (r <<< 13)
  let r := r ^^^ (r >>> 7)
  let r := r ^^^ (r <<< 11)
  r ^^^ (r >>> 1)

def initialRand (seed : UInt64) : UInt64 :=
  if seed + vmemRandFactor = 0 then vmemRandFactor <<< 1 else seed + vmemRandFactor

/-- The page size is kept in 32 bits, and the power of two that it is compared with is an `int`. -/
def accepted (capacity pgSize : Nat) : Bool :=
  capacity % (pgSize % 2 ^ 32) == 0 && pgSize == 2 ^ Nat.log2 pgSize && decide (Nat.log2 pgSize < 31) && decide (1024 ≤ pgSize)

def numReservePpages (pgSize : Nat) : Nat :=
  if vmemReserveCapacity < pgSize then 1 else vmemReserveCapacity / pgSize

def swapPpages (l : List Nat) (i j : Nat) : List Nat := (l.toArray.swapIfInBounds i j).toList

def shuffleStep (n : Nat) (x : UInt64 × List Nat) (i : Nat) : UInt64 × List Nat :=
  let r := vmemRand x.1
  (r, swapPpages x.2 i (r.toNat % n))

def shuffle (n : Nat) (r : UInt64) (l : List Nat) : UInt64 × List Nat := (List.range n).foldl (shuffleStep n) (r, l)

/-- `none` when the constructor exits, or takes a page from an empty list. -/
def construct (numCpus capacity pgSize levels : Nat) (seed : UInt64) : Option VirtualMemory :=
  let numPpages := capacity / pgSize
  let reserve := numReservePpages pgSize
  if accepted capacity pgSize = true ∧ reserve ≤ numPpages then
    let shuffled := shuffle (numPpages - reserve) (initialRand seed) ((List.range numPpages).drop reserve)
    some {
      numCpus := numCpus
      pageSize := pgSize
      numPpages := numPpages
      ppageFreeList := shuffled.2
      vpageToPpageMap := fun _ _ => none
      ptLevels := levels
      pageTable := fun _ _ _ => none
      randState := shuffled.1 }
  else none

end Construct

namespace VirtualMemory

variable (m : VirtualMemory)

def lg2PageSize : Nat := Nat.log2 m.pageSize

/-- `none` when no page is left, where the program exits. -/
def getNextFreePpage : Option (Nat × VirtualMemory) :=
  match m.ppageFreeList with
  | [] => none
  | ppage :: rest => some (ppage, { m with ppageFreeList := rest })

def vpageOf (vaddr : Nat) : Nat := vaddr >>> m.lg2PageSize

def voffsetOf (vaddr : Nat) : Nat := vaddr &&& (2 ^ m.lg2PageSize - 1)

def vaToPa (cpu vaddr : Nat) : Option (Nat × VirtualMemory) :=
  let vpage := m.vpageOf vaddr
  match m.vpageToPpageMap cpu vpage with
  | some ppage => some ((ppage <<< m.lg2PageSize) + m.voffsetOf vaddr, m)
  | none =>
      m.getNextFreePpage.map (fun next =>
        ((next.1 <<< m.lg2PageSize) + m.voffsetOf vaddr,
          { next.2 with
            vpageToPpageMap := Function.update m.vpageToPpageMap cpu
              (Function.update (m.vpageToPpageMap cpu) vpage (some next.1)) }))

def ptLookupTag (vaddr level : Nat) : Nat := m.vpageOf vaddr >>> (9 + 9 * (m.ptLevels - 1 - level))

def pteOffset (vaddr : Nat) : Nat := m.vpageOf vaddr &&& 511

def getPtePa (cpu vaddr level : Nat) : Option (Nat × VirtualMemory) :=
  let tag := m.ptLookupTag vaddr level
  match m.pageTable cpu level tag with
  | some ppage => some ((ppage <<< m.lg2PageSize) + m.pteOffset vaddr * 8, m)
  | none =>
      m.getNextFreePpage.map (fun next =>
        ((next.1 <<< m.lg2PageSize) + m.pteOffset vaddr * 8,
          { next.2 with
            pageTable := Function.update m.pageTable cpu (Function.update (m.pageTable cpu) level
              (Function.update (m.pageTable cpu level) tag (some next.1))) }))

end VirtualMemory

inductive Call
  | vaToPa (cpu vaddr : Nat)
  | getPtePa (cpu vaddr level : Nat)
  deriving DecidableEq, Repr

/-- `none` is not a call of the code, or finds no page left. -/
def answer (m : VirtualMemory) : Call → Option (Nat × VirtualMemory)
  | .vaToPa cpu vaddr => if cpu < m.numCpus then m.vaToPa cpu vaddr else none
  | .getPtePa cpu vaddr level => if cpu < m.numCpus ∧ level < m.ptLevels then m.getPtePa cpu vaddr level else none

/-- A memory with the answers that it has given. -/
structure Session where
  memory : VirtualMemory
  answers : List (Call × Nat)

def step (s : Session) (call : Call) : Option Session :=
  (answer s.memory call).map (fun a => ⟨a.2, s.answers ++ [(call, a.1)]⟩)

end Thermometer.VmemModel
