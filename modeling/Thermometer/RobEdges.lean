import Thermometer.RobShape

namespace Thermometer.RobEdges

open Lib.Rings ReorderBuffer RobShape

def Recorded (s : State) (k i : Nat) (j : Fin numInstrSources) : Prop := i ∈ (s.entry k).registersIndexDependOnMe j

instance (s : State) (k i : Nat) (j : Fin numInstrSources) : Decidable (Recorded s k i j) :=
  inferInstanceAs (Decidable (_ ∈ _))

def Begun (cur : Option Nat) (s : State) (i : Nat) : Prop := (s.entry i).scheduled ≠ .idle ∨ cur = some i

/-- What is recorded at a producer is what its consumer has seen of it. -/
structure Edges (cur : Option Nat) (s : State) : Prop where
  older : ∀ {k i j}, Recorded s k i j → Older s k i
  checked : ∀ {k i j}, Recorded s k i j → (s.entry i).regRawChecked j = true
  listed : ∀ {k i j}, Recorded s k i j → i ∈ (s.entry k).registersInstrsDependOnMe
  producer : ∀ {k i j}, Recorded s k i j → (s.entry k).regRawProducer = true
  begun : ∀ {k i j}, Recorded s k i j → Begun cur s i
  unique : ∀ {k l i j}, Recorded s k i j → Recorded s l i j → k = l
  fresh : ∀ {i}, ¬Begun cur s i → ∀ j, (s.entry i).regRawChecked j = false

/-- The sources of `i` whose recorded producer has not completed. -/
def waits (s : State) (i : Nat) : Finset (Fin numInstrSources) :=
  {j | ∃ k < s.size, Recorded s k i j ∧ (s.entry k).executed ≠ .completed}

structure Counts (cur : Option Nat) (due : List (Nat × Fin numInstrSources)) (s : State) : Prop where
  count : ∀ i, (s.entry i).numRegDependent = (waits s i).card + due.countP (fun p => p.1 = i)
  due : ∀ p ∈ due, (s.entry p.1).scheduled ≠ .idle
  ready : ∀ i, Begun cur s i → ((s.entry i).regReady = true ↔ (s.entry i).numRegDependent = 0)
  done : ∀ i, (s.entry i).executed ≠ .idle → (s.entry i).scheduled ≠ .idle ∧ (s.entry i).numRegDependent = 0

/-- The part of an entry that only dispatch, scheduling and retirement write. -/
structure Links where
  instrId : Nat
  isMemory : Bool
  sourceRegisters : Fin numInstrSources → Nat
  destinationRegisters : List Nat
  regRawProducer : Bool
  regRawChecked : Fin numInstrSources → Bool
  registersInstrsDependOnMe : Finset Nat
  registersIndexDependOnMe : Fin numInstrSources → Finset Nat

def linksOf (e : RobEntry) : Links where
  instrId := e.instrId
  isMemory := e.isMemory
  sourceRegisters := e.sourceRegisters
  destinationRegisters := e.destinationRegisters
  regRawProducer := e.regRawProducer
  regRawChecked := e.regRawChecked
  registersInstrsDependOnMe := e.registersInstrsDependOnMe
  registersIndexDependOnMe := e.registersIndexDependOnMe

structure Frame (s u : State) : Prop extends Same s u where
  links : ∀ i, linksOf (u.entry i) = linksOf (s.entry i)

variable {s u v : State} {i j k : Nat} {source : Fin numInstrSources} {cur cur' : Option Nat}
  {due : List (Nat × Fin numInstrSources)} {f : RobEntry → RobEntry}

theorem Frame.refl (s : State) : Frame s s := ⟨.refl s, fun _ => rfl⟩

theorem Frame.trans (h : Frame s u) (h' : Frame u v) : Frame s v :=
  ⟨h.toSame.trans h'.toSame, fun i => (h'.links i).trans (h.links i)⟩

theorem frame_modifyEntry (hi : Live s i) (hf : linksOf (f (s.entry i)) = linksOf (s.entry i)) :
    Frame s (s.modifyEntry i f) := by
  refine ⟨same_modifyEntry hi (congrArg Links.instrId hf), fun j => ?_⟩
  rw [entry_modifyEntry]
  split_ifs with h
  · rw [h, hf]
  · rfl

theorem Frame.memory (h : Frame s u) (i : Nat) : (u.entry i).isMemory = (s.entry i).isMemory :=
  congrArg Links.isMemory (h.links i)

theorem Frame.checked (h : Frame s u) (i : Nat) : (u.entry i).regRawChecked = (s.entry i).regRawChecked :=
  congrArg Links.regRawChecked (h.links i)

theorem Frame.listed (h : Frame s u) (i : Nat) :
    (u.entry i).registersInstrsDependOnMe = (s.entry i).registersInstrsDependOnMe :=
  congrArg Links.registersInstrsDependOnMe (h.links i)

theorem Frame.index (h : Frame s u) (i : Nat) :
    (u.entry i).registersIndexDependOnMe = (s.entry i).registersIndexDependOnMe :=
  congrArg Links.registersIndexDependOnMe (h.links i)

theorem Frame.recorded (h : Frame s u) : Recorded u k i source ↔ Recorded s k i source := by
  rw [Recorded, Recorded, h.index]

theorem Frame.edges (h : Frame s u) (hbegun : ∀ i, Begun cur s i → Begun cur' u i) (he : Edges cur s) : Edges cur' u := by
  constructor
  · intro k i j hr
    exact h.older.mpr (he.older (h.recorded.mp hr))
  · intro k i j hr
    rw [h.checked]
    exact he.checked (h.recorded.mp hr)
  · intro k i j hr
    rw [h.listed]
    exact he.listed (h.recorded.mp hr)
  · intro k i j hr
    exact (congrArg Links.regRawProducer (h.links k)).trans (he.producer (h.recorded.mp hr))
  · intro k i j hr
    exact hbegun i (he.begun (h.recorded.mp hr))
  · intro k l i j hk hl
    exact he.unique (h.recorded.mp hk) (h.recorded.mp hl)
  · intro i hi j
    rw [h.checked]
    exact he.fresh (fun hb => hi (hbegun i hb)) j

theorem mem_waits : source ∈ waits s i ↔ ∃ k < s.size, Recorded s k i source ∧ (s.entry k).executed ≠ .completed := by
  rw [waits, Finset.mem_filter, and_iff_right (Finset.mem_univ source)]

theorem Frame.waits (h : Frame s u) (hdone : ∀ k, (u.entry k).executed = .completed ↔ (s.entry k).executed = .completed)
    (i : Nat) : waits u i = waits s i := by
  ext j
  simp only [mem_waits, h.size, h.recorded, ne_eq, hdone]

theorem live_of_scheduled (hs : Shape s) (h : (s.entry i).scheduled ≠ .idle) : Live s i := by
  by_contra hi
  rw [hs.blank i hi] at h
  exact h rfl

theorem Edges.waits_eq_empty (he : Edges cur s) (h : ¬Begun cur s i) : waits s i = ∅ := by
  apply Finset.eq_empty_of_forall_notMem
  intro j hj
  obtain ⟨k, -, hr, -⟩ := mem_waits.mp hj
  exact h (he.begun hr)

end Thermometer.RobEdges
