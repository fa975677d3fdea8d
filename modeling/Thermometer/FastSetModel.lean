import Thermometer.Lib.Fields
import Thermometer.Lib.SortedArrays

namespace Thermometer.FastSetModel

open Lib.Fields Lib.SortedArrays

abbrev maxSize : Nat := 512

abbrev smallSize : Nat := 13

abbrev smallerSize : Nat := 6

/-- The values of a small set and the bits of a large one are in the same memory. -/
structure FastSet where
  data : BitVec maxSize
  card : Nat

/-- A new set. What its memory holds is left open. -/
def FastSet.new (data : BitVec maxSize) : FastSet := ⟨data, 0⟩

section Memory

variable (data : BitVec maxSize)

def value (i : Nat) : Nat := (field data 16 i).toNat

def setValue (i x : Nat) : BitVec maxSize := setField data i (BitVec.ofNat 16 x)

def word (i : Nat) : BitVec 64 := field data 64 i

def setbit (x : Nat) : BitVec maxSize := setField data (x >>> 6) (word data (x >>> 6) ||| 1#64 <<< (x &&& 63))

def getbit (x : Nat) : Bool := (word data (x >>> 6) >>> (x &&& 63)) &&& 1#64 != 0#64

/-- The values from `i` on, as many as `n`, one place further, the last one first. -/
def shiftUp (i : Nat) : Nat → BitVec maxSize → BitVec maxSize
  | 0, data => data
  | n + 1, data => shiftUp i n (setValue data (i + n + 1) (value data (i + n)))

end Memory

def insertSmall (s : FastSet) (x : Nat) : FastSet :=
  match place (value s.data) x s.card 0 with
  | none => s
  | some i => ⟨setValue (shiftUp i (s.card - i) s.data) i x, s.card + 1⟩

def searchSmall (s : FastSet) (x : Nat) : Bool :=
  if s.card = 0 then false
  else if s.card < smallerSize then linearSearch (value s.data) x s.card 0
  else binarySearch (value s.data) x s.card 0 (s.card - 1) ((s.card - 1) / 2)

def smalltobit (s : FastSet) : FastSet :=
  let tmp := (List.range s.card).map (value s.data)
  { s with data := tmp.foldl setbit 0 }

def insert (s : FastSet) (x : Nat) : FastSet :=
  if s.card = 0 then ⟨setValue s.data 0 x, 1⟩
  else if s.card < smallSize then
    let s := insertSmall s x
    if s.card = smallSize then smalltobit s else s
  else { s with data := setbit s.data x }

def search (s : FastSet) (x : Nat) : Bool :=
  if s.card = 0 then false
  else if s.card = 1 then value s.data 0 == x
  else if s.card < smallSize then searchSmall s x
  else getbit s.data x

/-- An array, and how many values have been written to it from its start. -/
structure Output where
  count : Nat
  v : Nat → Nat

def Output.write (out : Output) (x : Nat) : Output := ⟨out.count + 1, Function.update out.v out.count x⟩

/-- The bits of the word that begins at `i`, from bit `j` on. -/
def scanWord (data : BitVec maxSize) (n i : Nat) : Nat → Nat → Output → Output
  | 0, _, out => out
  | left + 1, j, out =>
    if i + j < n then scanWord data n i left (j + 1) (if getbit data (i + j) then out.write (i + j) else out) else out

/-- The words from the one that begins at `i` on. A turn goes 64 bits ahead, so `n` turns are enough. -/
def scanWords (data : BitVec maxSize) (n : Nat) : Nat → Nat → Output → Output
  | 0, _, out => out
  | turns + 1, i, out =>
    if i < n then scanWords data n turns (i + 64) (if word data (i / 64) ≠ 0#64 then scanWord data n i 64 0 out else out)
    else out

def expand (s : FastSet) (v : Nat → Nat) (n : Nat) : Output :=
  if s.card = 0 then ⟨0, v⟩
  else if s.card < smallSize then (List.range s.card).foldl (fun out i => out.write (value s.data i)) ⟨0, v⟩
  else scanWords s.data n n 0 ⟨0, v⟩

end Thermometer.FastSetModel
