import Thermometer.LoadStoreQueue

namespace Thermometer.LsqInvariant

open Lib.Rings Lib.Windows LoadStoreQueue

open ReorderBuffer (Stage numInstrSources)

def instrAt (s : State) (n : Nat) : Instr := s.program.getD n ⟨fun _ => 0, fun _ => 0⟩

def Finished (s : State) (n : Nat) (o : Operand) : Prop := ∃ d ∈ s.done, d.instrId = n ∧ d.operand = o

instance (s : State) (n : Nat) (o : Operand) : Decidable (Finished s n o) :=
  inferInstanceAs (Decidable (∃ d ∈ s.done, d.instrId = n ∧ d.operand = o))

def unfinished (s : State) (n : Nat) : Finset Operand := {o ∈ (instrAt s n).operands | ¬Finished s n o}

def Used (s : State) (q : Nat) : Prop := (s.lq q).virtualAddress ≠ 0

instance (s : State) (q : Nat) : Decidable (Used s q) := inferInstanceAs (Decidable (_ ≠ _))

def WritesTo (s : State) (k address : Nat) : Prop := (s.rob.entry k).stores address = true

/-- What an entry knows of its instruction. -/
structure Basic (s : State) : Prop where
  shape : Shape s.rob .empty
  numbered : Numbered s.rob RobEntry.instrId s.program.length
  source : ∀ {i}, Live s.rob i → (s.rob.entry i).sourceMemory = (instrAt s (s.rob.entry i).instrId).sourceMemory
  destination : ∀ {i}, Live s.rob i → ∀ d,
    (s.rob.entry i).destinationMemory d = (instrAt s (s.rob.entry i).instrId).destinationMemory d ∨
      (s.rob.entry i).destinationMemory d = 0 ∧ (s.rob.entry i).executed = .completed
  memory : ∀ {i}, Live s.rob i →
    ((s.rob.entry i).isMemory = false ↔ (instrAt s (s.rob.entry i).instrId).operands = ∅)
  num : ∀ {i}, Live s.rob i → (s.rob.entry i).numMemOps = (unfinished s (s.rob.entry i).instrId).card
  completed : ∀ {i}, (s.rob.entry i).executed = .completed → (s.rob.entry i).numMemOps = 0

structure History (s : State) : Prop where
  nodup : (s.done.map (fun d => (d.instrId, d.operand))).Nodup
  bound : ∀ d ∈ s.done, d.instrId < s.program.length
  address : ∀ d ∈ s.done, d.address = (instrAt s d.instrId).address d.operand
  released : ∀ d ∈ s.done, d.releasedBy = d.producerId.map (fun p => (p, d.address))
  retired : ∀ n, n + s.rob.occupancy < s.program.length → ∀ o ∈ (instrAt s n).operands, Finished s n o

/-- The load queue, while the load in slot `adding` is on its way into it, and while the store
`late`, given by its instruction and its address, releases its loads. -/
structure Loads (adding : Option Nat) (late : Option (Nat × Nat)) (s : State) : Prop where
  slot : ∀ {q}, Used s q → q < s.lqSize
  live : ∀ {q}, Used s q → Live s.rob (s.lq q).robIndex
  id : ∀ {q}, Used s q → (s.lq q).instrId = (s.rob.entry (s.lq q).robIndex).instrId
  index : ∀ {q}, Used s q → (s.rob.entry (s.lq q).robIndex).lqIndex (s.lq q).dataIndex = some q
  added : ∀ {q}, Used s q → (s.rob.entry (s.lq q).robIndex).sourceAdded (s.lq q).dataIndex = true
  address : ∀ {q}, Used s q → (s.lq q).virtualAddress = (s.rob.entry (s.lq q).robIndex).sourceMemory (s.lq q).dataIndex
  waiting : ∀ {q}, Used s q → ¬Finished s (s.lq q).instrId (.inl (s.lq q).dataIndex)
  back : ∀ {i j}, Live s.rob i → (s.rob.entry i).sourceAdded j = true → ¬Finished s (s.rob.entry i).instrId (.inl j) →
    ∃ q, (s.rob.entry i).lqIndex j = some q ∧ Used s q ∧ (s.lq q).robIndex = i ∧ (s.lq q).dataIndex = j
  unadded : ∀ {i j}, Live s.rob i → (s.rob.entry i).sourceAdded j = false → ¬Finished s (s.rob.entry i).instrId (.inl j)
  free : ∀ {q}, ¬Used s q → s.lq q = .empty
  occupancy : s.lqOccupancy = ((Finset.range s.lqSize).filter (Used s)).card
  nodup : s.loadsToReturn.Nodup
  returning : ∀ {q}, q ∈ s.loadsToReturn ↔ Used s q ∧ (s.lq q).producerId = none ∧ adding ≠ some q
  youngest : ∀ {q k}, Used s q → Older s.rob k (s.lq q).robIndex → WritesTo s k (s.lq q).virtualAddress →
    ∃ l, (l = k ∨ Older s.rob k l) ∧ Older s.rob l (s.lq q).robIndex ∧ WritesTo s l (s.lq q).virtualAddress ∧
      (s.lq q).producerId = some (s.rob.entry l).instrId
  producer : ∀ {q n}, Used s q → (s.lq q).producerId = some n →
    ∃ k, Older s.rob k (s.lq q).robIndex ∧ (s.rob.entry k).instrId = n ∧ (s.rob.entry k).isProducer = true ∧
      (s.lq q).robIndex ∈ (s.rob.entry k).memoryInstrsDependOnMe
  pending : ∀ {q n}, Used s q → (s.lq q).producerId = some n → adding ≠ some q → late ≠ some (n, (s.lq q).virtualAddress) →
    ∃ d, (instrAt s n).destinationMemory d = (s.lq q).virtualAddress ∧ ¬Finished s n (.inr d)
  depend : ∀ {i k}, i ∈ (s.rob.entry k).memoryInstrsDependOnMe → Older s.rob k i

def Before (e f : LsqEntry) : Prop := e.instrId < f.instrId ∨ e.instrId = f.instrId ∧ e.dataIndex < f.dataIndex

/-- The store queue, from which those stores of the instruction at the head that `gone` lists
have been taken. -/
structure Stores (gone : List (Fin numInstrDestinations)) (s : State) : Prop where
  shape : Shape s.sq .empty
  live : ∀ {q}, Live s.sq q → Live s.rob (s.sq.entry q).robIndex
  id : ∀ {q}, Live s.sq q → (s.sq.entry q).instrId = (s.rob.entry (s.sq.entry q).robIndex).instrId
  index : ∀ {q}, Live s.sq q → (s.rob.entry (s.sq.entry q).robIndex).sqIndex (s.sq.entry q).dataIndex = some q
  nonzero : ∀ {q}, Live s.sq q → (s.sq.entry q).virtualAddress ≠ 0
  address : ∀ {q}, Live s.sq q →
    (s.sq.entry q).virtualAddress = (instrAt s (s.sq.entry q).instrId).destinationMemory (s.sq.entry q).dataIndex
  back : ∀ {i d q}, Live s.rob i → (s.rob.entry i).sqIndex d = some q → ¬(i = s.rob.head ∧ d ∈ gone) →
    Live s.sq q ∧ (s.sq.entry q).robIndex = i ∧ (s.sq.entry q).dataIndex = d
  added : ∀ {i d}, Live s.rob i → ((s.rob.entry i).destinationAdded d = true ↔ (s.rob.entry i).sqIndex d ≠ none)
  fetched : ∀ {q}, Live s.sq q →
    ((s.sq.entry q).fetched = true ↔ Finished s (s.sq.entry q).instrId (.inr (s.sq.entry q).dataIndex))
  unadded : ∀ {i d}, Live s.rob i → (s.rob.entry i).destinationAdded d = false →
    ¬Finished s (s.rob.entry i).instrId (.inr d)
  order : ∀ {a b}, a < b → b < s.sq.occupancy → Before (s.sq.entry (s.sq.slot a)) (s.sq.entry (s.sq.slot b))
  sorted : s.sta.Pairwise (fun m n => m ≤ n)
  numbered : ∀ n ∈ s.sta, n < s.program.length
  first : ∀ n ∈ s.sta, ∀ {q}, Live s.sq q → (s.sq.entry q).instrId ≤ n
  before : ∀ {i c d}, Live s.rob i → (s.rob.entry i).destinationAdded d = true → c < d →
    (s.rob.entry i).destinationMemory c ≠ 0 → (s.rob.entry i).destinationAdded c = true
  nodup : s.storesToExecute.Nodup
  executing : ∀ {q}, q ∈ s.storesToExecute ↔ Live s.sq q ∧ (s.sq.entry q).fetched = false

structure Inv (s : State) : Prop where
  basic : Basic s
  history : History s
  loads : Loads none none s
  stores : Stores [] s

variable {s u : State} {i k q n : Nat} {o : Operand} {d : Done}

theorem stores_iff {e : RobEntry} {address : Nat} :
    e.stores address = true ↔ ∃ d, e.destinationMemory d ≠ 0 ∧ e.destinationMemory d = address := by
  simp [RobEntry.stores]

theorem mem_operands {x : Instr} : o ∈ x.operands ↔ x.address o ≠ 0 := by
  rw [Instr.operands, Finset.mem_filter, and_iff_right (Finset.mem_univ o)]

theorem mem_unfinished : o ∈ unfinished s n ↔ (instrAt s n).address o ≠ 0 ∧ ¬Finished s n o := by
  rw [unfinished, Finset.mem_filter, mem_operands]

theorem finished_append (hd : u.done = s.done ++ [d]) :
    Finished u n o ↔ Finished s n o ∨ d.instrId = n ∧ d.operand = o := by
  rw [Finished, hd]
  constructor
  · rintro ⟨c, hc, hno⟩
    rcases List.mem_append.mp hc with hc | hc
    · exact .inl ⟨c, hc, hno⟩
    · exact .inr (List.mem_singleton.mp hc ▸ hno)
  · rintro (⟨c, hc, hno⟩ | hno)
    · exact ⟨c, List.mem_append_left _ hc, hno⟩
    · exact ⟨d, List.mem_append_right _ (List.mem_singleton_self d), hno⟩

theorem card_unfinished_append (hd : u.done = s.done ++ [d]) (hp : u.program = s.program)
    (hnew : ¬Finished s d.instrId d.operand) (hop : (instrAt s d.instrId).address d.operand ≠ 0) :
    (unfinished s n).card = (unfinished u n).card + if d.instrId = n then 1 else 0 := by
  have hat : ∀ n, instrAt u n = instrAt s n := by
    intro n
    rw [instrAt, instrAt, hp]
  by_cases hn : d.instrId = n
  · subst hn
    have hmem : d.operand ∈ unfinished s d.instrId := mem_unfinished.mpr ⟨hop, hnew⟩
    have herase : unfinished u d.instrId = (unfinished s d.instrId).erase d.operand := by
      ext o
      rw [Finset.mem_erase, mem_unfinished, mem_unfinished, hat, finished_append hd, not_or]
      constructor
      · rintro ⟨ho, hf, hne⟩
        exact ⟨fun he => hne ⟨rfl, he.symm⟩, ho, hf⟩
      · rintro ⟨hne, ho, hf⟩
        exact ⟨ho, hf, fun he => hne he.2.symm⟩
    rw [herase, if_pos rfl, Finset.card_erase_add_one hmem]
  · rw [if_neg hn, Nat.add_zero]
    congr 1
    ext o
    rw [mem_unfinished, mem_unfinished, hat, finished_append hd, or_iff_left (fun h => hn h.1)]

theorem live_of_entry (h : Basic s) (hi : s.rob.entry i ≠ .empty) : Live s.rob i := by
  by_contra hl
  exact hi (h.shape.blank i hl)

theorem instrAt_append {x : Instr} (hp : u.program = s.program ++ [x]) (hn : n < s.program.length) :
    instrAt u n = instrAt s n := by
  rw [instrAt, instrAt, hp, List.getD_eq_getElem?_getD, List.getD_eq_getElem?_getD, List.getElem?_append_left hn]

theorem instrAt_last {x : Instr} (hp : u.program = s.program ++ [x]) : instrAt u s.program.length = x := by
  rw [instrAt, hp, List.getD_eq_getElem?_getD, List.getElem?_concat_length]
  rfl

end Thermometer.LsqInvariant
