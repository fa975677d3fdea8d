import Thermometer.LsqInvariant

namespace Thermometer.LsqFrame

open Lib.Rings Lib.Windows LoadStoreQueue LsqInvariant

open ReorderBuffer (Stage numInstrSources)

/-- The part of an entry that neither the counting of its operands nor its progress changes. -/
structure Text where
  instrId : Nat
  isMemory : Bool
  sourceMemory : Fin numInstrSources → Nat
  destinationMemory : Fin numInstrDestinations → Nat
  sourceAdded : Fin numInstrSources → Bool
  destinationAdded : Fin numInstrDestinations → Bool
  lqIndex : Fin numInstrSources → Option Nat
  sqIndex : Fin numInstrDestinations → Option Nat
  isProducer : Bool
  memoryInstrsDependOnMe : Finset Nat

def textOf (e : RobEntry) : Text where
  instrId := e.instrId
  isMemory := e.isMemory
  sourceMemory := e.sourceMemory
  destinationMemory := e.destinationMemory
  sourceAdded := e.sourceAdded
  destinationAdded := e.destinationAdded
  lqIndex := e.lqIndex
  sqIndex := e.sqIndex
  isProducer := e.isProducer
  memoryInstrsDependOnMe := e.memoryInstrsDependOnMe

/-- Nothing has come or gone. -/
structure Same (s u : State) : Prop where
  size : u.rob.size = s.rob.size
  head : u.rob.head = s.rob.head
  tail : u.rob.tail = s.rob.tail
  occupancy : u.rob.occupancy = s.rob.occupancy
  program : u.program = s.program
  blank : ∀ i, ¬Live s.rob i → u.rob.entry i = s.rob.entry i
  id : ∀ i, (u.rob.entry i).instrId = (s.rob.entry i).instrId
  memory : ∀ i, (u.rob.entry i).isMemory = (s.rob.entry i).isMemory
  source : ∀ i, (u.rob.entry i).sourceMemory = (s.rob.entry i).sourceMemory

structure Kept (s u : State) : Prop extends Same s u where
  destination : ∀ i, (u.rob.entry i).destinationMemory = (s.rob.entry i).destinationMemory

structure Fixed (s u : State) : Prop extends Kept s u where
  sourceAdded : ∀ i, (u.rob.entry i).sourceAdded = (s.rob.entry i).sourceAdded
  destinationAdded : ∀ i, (u.rob.entry i).destinationAdded = (s.rob.entry i).destinationAdded
  lqIndex : ∀ i, (u.rob.entry i).lqIndex = (s.rob.entry i).lqIndex
  sqIndex : ∀ i, (u.rob.entry i).sqIndex = (s.rob.entry i).sqIndex
  isProducer : ∀ i, (u.rob.entry i).isProducer = (s.rob.entry i).isProducer
  depend : ∀ i, (u.rob.entry i).memoryInstrsDependOnMe = (s.rob.entry i).memoryInstrsDependOnMe

variable {s u v : State} {i k n a : Nat} {f : RobEntry → RobEntry} {adding : Option Nat} {late : Option (Nat × Nat)}
  {gone : List (Fin numInstrDestinations)}

theorem same_modifyRob (hi : Live s.rob i) (hid : (f (s.rob.entry i)).instrId = (s.rob.entry i).instrId)
    (hmemory : (f (s.rob.entry i)).isMemory = (s.rob.entry i).isMemory)
    (hsource : (f (s.rob.entry i)).sourceMemory = (s.rob.entry i).sourceMemory) : Same s (s.modifyRob i f) := by
  refine ⟨rfl, rfl, rfl, rfl, rfl, fun j hj => ?_, modify_keeps _ hid, modify_keeps _ hmemory, modify_keeps _ hsource⟩
  apply modify_of_ne
  rintro rfl
  exact hj hi

theorem kept_modifyRob (hi : Live s.rob i) (hid : (f (s.rob.entry i)).instrId = (s.rob.entry i).instrId)
    (hmemory : (f (s.rob.entry i)).isMemory = (s.rob.entry i).isMemory)
    (hsource : (f (s.rob.entry i)).sourceMemory = (s.rob.entry i).sourceMemory)
    (hdestination : (f (s.rob.entry i)).destinationMemory = (s.rob.entry i).destinationMemory) :
    Kept s (s.modifyRob i f) :=
  ⟨same_modifyRob hi hid hmemory hsource, modify_keeps _ hdestination⟩

theorem fixed_modifyRob (hi : Live s.rob i) (hf : textOf (f (s.rob.entry i)) = textOf (s.rob.entry i)) :
    Fixed s (s.modifyRob i f) :=
  ⟨kept_modifyRob hi (congrArg Text.instrId hf) (congrArg Text.isMemory hf) (congrArg Text.sourceMemory hf)
      (congrArg Text.destinationMemory hf),
    modify_keeps _ (congrArg Text.sourceAdded hf), modify_keeps _ (congrArg Text.destinationAdded hf),
    modify_keeps _ (congrArg Text.lqIndex hf), modify_keeps _ (congrArg Text.sqIndex hf),
    modify_keeps _ (congrArg Text.isProducer hf), modify_keeps _ (congrArg Text.memoryInstrsDependOnMe hf)⟩

theorem kept_of_rob (hrob : u.rob = s.rob) (hprogram : u.program = s.program) : Kept s u := by
  refine ⟨⟨?_, ?_, ?_, ?_, hprogram, fun i _ => ?_, fun i => ?_, fun i => ?_, fun i => ?_⟩, fun i => ?_⟩ <;> rw [hrob]

theorem fixed_of_rob (hrob : u.rob = s.rob) (hprogram : u.program = s.program) : Fixed s u := by
  refine ⟨kept_of_rob hrob hprogram, fun i => ?_, fun i => ?_, fun i => ?_, fun i => ?_, fun i => ?_, fun i => ?_⟩ <;>
    rw [hrob]

theorem Same.slot (h : Same s u) (a : Nat) : u.rob.slot a = s.rob.slot a := by
  rw [Window.slot, Window.slot, h.size, h.head]

theorem Same.live (h : Same s u) : Live u.rob i ↔ Live s.rob i := by
  simp only [Live, h.occupancy, h.slot]

theorem Same.older (h : Same s u) : Older u.rob k i ↔ Older s.rob k i := by
  simp only [Older, h.occupancy, h.slot]

theorem Same.trans (h : Same s u) (h' : Same u v) : Same s v := by
  refine ⟨h'.size.trans h.size, h'.head.trans h.head, h'.tail.trans h.tail, h'.occupancy.trans h.occupancy,
    h'.program.trans h.program, fun i hi => ?_, fun i => (h'.id i).trans (h.id i),
    fun i => (h'.memory i).trans (h.memory i), fun i => (h'.source i).trans (h.source i)⟩
  exact (h'.blank i (fun hl => hi (h.live.mp hl))).trans (h.blank i hi)

theorem Kept.trans (h : Kept s u) (h' : Kept u v) : Kept s v :=
  ⟨h.toSame.trans h'.toSame, fun i => (h'.destination i).trans (h.destination i)⟩

theorem Fixed.trans (h : Fixed s u) (h' : Fixed u v) : Fixed s v :=
  ⟨h.toKept.trans h'.toKept, fun i => (h'.sourceAdded i).trans (h.sourceAdded i),
    fun i => (h'.destinationAdded i).trans (h.destinationAdded i), fun i => (h'.lqIndex i).trans (h.lqIndex i),
    fun i => (h'.sqIndex i).trans (h.sqIndex i), fun i => (h'.isProducer i).trans (h.isProducer i),
    fun i => (h'.depend i).trans (h.depend i)⟩

theorem Same.shape (h : Same s u) (hs : Shape s.rob .empty) : Shape u.rob .empty := by
  constructor
  · rw [h.head, h.size]
    exact hs.head_lt
  · rw [h.occupancy, h.size]
    exact hs.occupancy_le
  · rw [h.tail, h.occupancy, h.slot]
    exact hs.tail_eq
  · intro i hi
    have hi : ¬Live s.rob i := fun hl => hi (h.live.mpr hl)
    rw [h.blank i hi]
    exact hs.blank i hi

theorem Kept.writesTo (h : Kept s u) : WritesTo u k a ↔ WritesTo s k a := by
  rw [WritesTo, WritesTo, RobEntry.stores, RobEntry.stores, h.destination]

theorem Same.instrAt (h : Same s u) (n : Nat) : instrAt u n = instrAt s n := by
  rw [LsqInvariant.instrAt, LsqInvariant.instrAt, h.program]

theorem Same.numbered (h : Same s u) (hs : Numbered s.rob RobEntry.instrId s.program.length) :
    Numbered u.rob RobEntry.instrId u.program.length := by
  intro a ha
  rw [h.occupancy] at ha
  rw [h.slot, h.id, h.occupancy, h.program]
  exact hs a ha

theorem Same.unfinished (h : Same s u) (hdone : u.done = s.done) (n : Nat) :
    LsqInvariant.unfinished u n = LsqInvariant.unfinished s n := by
  ext o
  rw [mem_unfinished, mem_unfinished, h.instrAt, Finished, hdone, Finished]

theorem Same.basic (h : Same s u) (hs : Basic s)
    (hcleared : ∀ i d, (u.rob.entry i).destinationMemory d = (s.rob.entry i).destinationMemory d ∨
      (u.rob.entry i).destinationMemory d = 0 ∧ (u.rob.entry i).executed = .completed)
    (hdestination : ∀ i, (s.rob.entry i).executed = .completed → (u.rob.entry i).executed = .completed)
    (hnum : ∀ i, Live s.rob i → (u.rob.entry i).numMemOps = (LsqInvariant.unfinished u (s.rob.entry i).instrId).card)
    (hcompleted : ∀ i, (u.rob.entry i).executed = .completed → (u.rob.entry i).numMemOps = 0) : Basic u := by
  refine ⟨h.shape hs.shape, h.numbered hs.numbered, fun {i} hi => ?_, fun {i} hi d => ?_, fun {i} hi => ?_, fun {i} hi => ?_,
    fun {i} => hcompleted i⟩
  · rw [h.source, h.id, h.instrAt]
    exact hs.source (h.live.mp hi)
  · rw [h.id, h.instrAt]
    rcases hcleared i d with hd | hd
    · rw [hd]
      exact (hs.destination (h.live.mp hi) d).imp_right (fun hd => ⟨hd.1, hdestination i hd.2⟩)
    · exact .inr hd
  · rw [h.memory, h.id, h.instrAt]
    exact hs.memory (h.live.mp hi)
  · rw [h.id]
    exact hnum i (h.live.mp hi)

structure SameStore (e f : LsqEntry) : Prop where
  instrId : e.instrId = f.instrId
  robIndex : e.robIndex = f.robIndex
  dataIndex : e.dataIndex = f.dataIndex
  address : e.virtualAddress = f.virtualAddress

theorem SameStore.of_eq {e f : LsqEntry} (h : e = f) : SameStore e f := by
  subst h
  exact ⟨rfl, rfl, rfl, rfl⟩

/-- What the store queue says of the instructions stays true of the stores that stay in it. -/
theorem Same.stores_of_stay {gone' : List (Fin numInstrDestinations)} (h : Same s u) (hs : Stores gone s)
    (hstay : ∀ {q}, Live u.sq q → Live s.sq q ∧ SameStore (u.sq.entry q) (s.sq.entry q))
    (hcleared : ∀ i d, (u.rob.entry i).destinationMemory d ≠ 0 → (s.rob.entry i).destinationMemory d ≠ 0)
    (hadded : ∀ i, (u.rob.entry i).destinationAdded = (s.rob.entry i).destinationAdded)
    (hindex : ∀ i, (u.rob.entry i).sqIndex = (s.rob.entry i).sqIndex) (hsta : u.sta = s.sta)
    (hshape : Shape u.sq .empty)
    (hback : ∀ {i d q}, Live u.rob i → (u.rob.entry i).sqIndex d = some q → ¬(i = u.rob.head ∧ d ∈ gone') →
      Live u.sq q ∧ (u.sq.entry q).robIndex = i ∧ (u.sq.entry q).dataIndex = d)
    (hfetched : ∀ {q}, Live u.sq q →
      ((u.sq.entry q).fetched = true ↔ Finished u (s.sq.entry q).instrId (.inr (s.sq.entry q).dataIndex)))
    (hunadded : ∀ {i d}, Live u.rob i → (u.rob.entry i).destinationAdded d = false →
      ¬Finished u (u.rob.entry i).instrId (.inr d))
    (horder : ∀ {a b}, a < b → b < u.sq.occupancy → Before (u.sq.entry (u.sq.slot a)) (u.sq.entry (u.sq.slot b)))
    (hnodup : u.storesToExecute.Nodup)
    (hexecuting : ∀ {q}, q ∈ u.storesToExecute ↔ Live u.sq q ∧ (u.sq.entry q).fetched = false) : Stores gone' u := by
  refine ⟨hshape, fun {q} hq => ?_, fun {q} hq => ?_, fun {q} hq => ?_, fun {q} hq => ?_, fun {q} hq => ?_, hback,
    fun {i d} hi => ?_, fun {q} hq => ?_, hunadded, horder, ?_, ?_, fun n hn {q} hq => ?_, fun {i c d} hi hd hcd hc => ?_,
    hnodup, hexecuting⟩
  · obtain ⟨hq, hsame⟩ := hstay hq
    rw [hsame.robIndex]
    exact h.live.mpr (hs.live hq)
  · obtain ⟨hq, hsame⟩ := hstay hq
    rw [hsame.instrId, hsame.robIndex, h.id]
    exact hs.id hq
  · obtain ⟨hq, hsame⟩ := hstay hq
    rw [hsame.robIndex, hsame.dataIndex, hindex]
    exact hs.index hq
  · obtain ⟨hq, hsame⟩ := hstay hq
    rw [hsame.address]
    exact hs.nonzero hq
  · obtain ⟨hq, hsame⟩ := hstay hq
    rw [hsame.address, hsame.instrId, hsame.dataIndex, h.instrAt]
    exact hs.address hq
  · rw [hadded, hindex]
    exact hs.added (h.live.mp hi)
  · obtain ⟨-, hsame⟩ := hstay hq
    rw [hsame.instrId, hsame.dataIndex]
    exact hfetched hq
  · rw [hsta]
    exact hs.sorted
  · rw [hsta, h.program]
    exact hs.numbered
  · obtain ⟨hq, hsame⟩ := hstay hq
    rw [hsta] at hn
    rw [hsame.instrId]
    exact hs.first n hn hq
  · rw [hadded] at hd ⊢
    exact hs.before (h.live.mp hi) hd hcd (hcleared i c hc)

theorem Same.stores (h : Same s u) (hs : Stores gone s)
    (hcleared : ∀ i d, (u.rob.entry i).destinationMemory d ≠ 0 → (s.rob.entry i).destinationMemory d ≠ 0)
    (hadded : ∀ i, (u.rob.entry i).destinationAdded = (s.rob.entry i).destinationAdded)
    (hindex : ∀ i, (u.rob.entry i).sqIndex = (s.rob.entry i).sqIndex) (hsq : u.sq = s.sq) (hsta : u.sta = s.sta)
    (hexec : u.storesToExecute = s.storesToExecute) (hfin : ∀ n d, Finished u n (.inr d) ↔ Finished s n (.inr d)) :
    Stores gone u := by
  have hstay : ∀ {q}, Live u.sq q → Live s.sq q ∧ SameStore (u.sq.entry q) (s.sq.entry q) := by
    intro q hq
    rw [hsq] at hq ⊢
    exact ⟨hq, .of_eq rfl⟩
  refine h.stores_of_stay hs hstay hcleared hadded hindex hsta ?_ (fun {i d q} hi hq hg => ?_) (fun {q} hq => ?_)
    (fun {i d} hi hd => ?_) (fun {a b} hab hb => ?_) ?_ (fun {q} => ?_)
  · rw [hsq]
    exact hs.shape
  · rw [hindex] at hq
    rw [h.head] at hg
    rw [hsq]
    exact hs.back (h.live.mp hi) hq hg
  · rw [hsq] at hq ⊢
    rw [hfin]
    exact hs.fetched hq
  · rw [hadded] at hd
    rw [h.id, hfin]
    exact hs.unadded (h.live.mp hi) hd
  · rw [hsq] at hb ⊢
    exact hs.order hab hb
  · rw [hexec]
    exact hs.nodup
  · rw [hexec, hsq]
    exact hs.executing

theorem Same.history (h : Same s u) (hs : History s) (hdone : u.done = s.done) : History u := by
  refine ⟨?_, ?_, ?_, ?_, fun n hn o ho => ?_⟩
  · rw [hdone]
    exact hs.nodup
  · rw [hdone, h.program]
    exact hs.bound
  · intro d hd
    rw [hdone] at hd
    rw [h.instrAt]
    exact hs.address d hd
  · rw [hdone]
    exact hs.released
  · rw [h.occupancy, h.program] at hn
    rw [h.instrAt] at ho
    rw [Finished, hdone]
    exact hs.retired n hn o ho

theorem Same.history_append {d : Done} (h : Same s u) (hs : History s) (hdone : u.done = s.done ++ [d])
    (hnew : ¬Finished s d.instrId d.operand) (hbound : d.instrId < s.program.length)
    (haddress : d.address = (LsqInvariant.instrAt s d.instrId).address d.operand)
    (hreleased : d.releasedBy = d.producerId.map (fun p => (p, d.address))) : History u := by
  refine ⟨?_, ?_, ?_, ?_, fun n hn o ho => ?_⟩
  · rw [hdone, List.map_append, List.map_singleton]
    refine List.nodup_append.mpr ⟨hs.nodup, List.nodup_singleton _, ?_⟩
    intro x hx y hy heq
    obtain ⟨c, hc, rfl⟩ := List.mem_map.mp hx
    rw [List.mem_singleton.mp hy, Prod.mk.injEq] at heq
    exact hnew ⟨c, hc, heq⟩
  · intro c hc
    rw [hdone] at hc
    rw [h.program]
    rcases List.mem_append.mp hc with hc | hc
    · exact hs.bound c hc
    · exact List.mem_singleton.mp hc ▸ hbound
  · intro c hc
    rw [hdone] at hc
    rw [h.instrAt]
    rcases List.mem_append.mp hc with hc | hc
    · exact hs.address c hc
    · exact List.mem_singleton.mp hc ▸ haddress
  · intro c hc
    rw [hdone] at hc
    rcases List.mem_append.mp hc with hc | hc
    · exact hs.released c hc
    · exact List.mem_singleton.mp hc ▸ hreleased
  · rw [h.occupancy, h.program] at hn
    rw [h.instrAt] at ho
    rw [finished_append hdone]
    exact .inl (hs.retired n hn o ho)

/-- What the load queue says of the instructions stays true of the slots that stay in use. -/
theorem Same.loads_of_stay {adding' : Option Nat} {late' : Option (Nat × Nat)} (h : Same s u) (hs : Loads adding late s)
    (hstay : ∀ {q}, Used u q → Used s q ∧ u.lq q = s.lq q) (hsize : u.lqSize = s.lqSize)
    (hwrites : ∀ {k a}, WritesTo u k a → WritesTo s k a)
    (hstill : ∀ {k l a}, l = k ∨ Older s.rob k l → WritesTo u k a → WritesTo s l a → WritesTo u l a)
    (hadded : ∀ i, (u.rob.entry i).sourceAdded = (s.rob.entry i).sourceAdded)
    (hindex : ∀ i, (u.rob.entry i).lqIndex = (s.rob.entry i).lqIndex)
    (hproducer : ∀ i, (u.rob.entry i).isProducer = (s.rob.entry i).isProducer)
    (hdepend : ∀ i, (u.rob.entry i).memoryInstrsDependOnMe = (s.rob.entry i).memoryInstrsDependOnMe)
    (hwaiting : ∀ {q}, Used u q → ¬Finished u (s.lq q).instrId (.inl (s.lq q).dataIndex))
    (hback : ∀ {i j}, Live u.rob i → (u.rob.entry i).sourceAdded j = true → ¬Finished u (u.rob.entry i).instrId (.inl j) →
      ∃ q, (u.rob.entry i).lqIndex j = some q ∧ Used u q ∧ (u.lq q).robIndex = i ∧ (u.lq q).dataIndex = j)
    (hunadded : ∀ {i j}, Live u.rob i → (u.rob.entry i).sourceAdded j = false →
      ¬Finished u (u.rob.entry i).instrId (.inl j))
    (hfree : ∀ {q}, ¬Used u q → u.lq q = .empty)
    (hocc : u.lqOccupancy = ((Finset.range u.lqSize).filter (Used u)).card) (hnodup : u.loadsToReturn.Nodup)
    (hreturning : ∀ {q}, q ∈ u.loadsToReturn ↔ Used u q ∧ (u.lq q).producerId = none ∧ adding' ≠ some q)
    (hpending : ∀ {q n}, Used u q → (s.lq q).producerId = some n → adding' ≠ some q →
      late' ≠ some (n, (s.lq q).virtualAddress) →
      ∃ d, (LsqInvariant.instrAt s n).destinationMemory d = (s.lq q).virtualAddress ∧ ¬Finished u n (.inr d)) :
    Loads adding' late' u := by
  refine ⟨fun {q} hq => ?_, fun {q} hq => ?_, fun {q} hq => ?_, fun {q} hq => ?_, fun {q} hq => ?_, fun {q} hq => ?_,
    fun {q} hq => ?_, hback, hunadded, hfree, hocc, hnodup, hreturning, fun {q k} hq hk hw => ?_, fun {q n} hq hp => ?_,
    fun {q n} hq hp ha hl => ?_, fun {i k} hi => ?_⟩
  · rw [hsize]
    exact hs.slot (hstay hq).1
  · obtain ⟨hq, hlq⟩ := hstay hq
    rw [hlq]
    exact h.live.mpr (hs.live hq)
  · obtain ⟨hq, hlq⟩ := hstay hq
    rw [hlq, h.id]
    exact hs.id hq
  · obtain ⟨hq, hlq⟩ := hstay hq
    rw [hlq, hindex]
    exact hs.index hq
  · obtain ⟨hq, hlq⟩ := hstay hq
    rw [hlq, hadded]
    exact hs.added hq
  · obtain ⟨hq, hlq⟩ := hstay hq
    rw [hlq, h.source]
    exact hs.address hq
  · rw [(hstay hq).2]
    exact hwaiting hq
  · obtain ⟨hq, hlq⟩ := hstay hq
    rw [hlq] at hk hw ⊢
    obtain ⟨l, hl, hold, hwl, hp⟩ := hs.youngest hq (h.older.mp hk) (hwrites hw)
    refine ⟨l, hl.imp_right h.older.mpr, h.older.mpr hold, hstill hl hw hwl, ?_⟩
    rw [h.id]
    exact hp
  · obtain ⟨hq, hlq⟩ := hstay hq
    rw [hlq] at hp ⊢
    obtain ⟨k, hold, hid, hprod, hin⟩ := hs.producer hq hp
    refine ⟨k, h.older.mpr hold, ?_, ?_, ?_⟩
    · rw [h.id]
      exact hid
    · rw [hproducer]
      exact hprod
    · rw [hdepend]
      exact hin
  · have hlq := (hstay hq).2
    rw [hlq] at hp hl ⊢
    rw [h.instrAt]
    exact hpending hq hp ha hl
  · rw [hdepend] at hi
    exact h.older.mpr (hs.depend hi)

/-- The load queue while its slots keep what they hold. -/
theorem Same.loads {late' : Option (Nat × Nat)} (h : Same s u) (hs : Loads adding late s)
    (hwrites : ∀ {k a}, WritesTo u k a → WritesTo s k a)
    (hstill : ∀ {k l a}, l = k ∨ Older s.rob k l → WritesTo u k a → WritesTo s l a → WritesTo u l a)
    (hadded : ∀ i, (u.rob.entry i).sourceAdded = (s.rob.entry i).sourceAdded)
    (hindex : ∀ i, (u.rob.entry i).lqIndex = (s.rob.entry i).lqIndex)
    (hproducer : ∀ i, (u.rob.entry i).isProducer = (s.rob.entry i).isProducer)
    (hdepend : ∀ i, (u.rob.entry i).memoryInstrsDependOnMe = (s.rob.entry i).memoryInstrsDependOnMe) (hlq : u.lq = s.lq)
    (hsize : u.lqSize = s.lqSize) (hocc : u.lqOccupancy = s.lqOccupancy) (hreturn : u.loadsToReturn = s.loadsToReturn)
    (hfin : ∀ n j, Finished u n (.inl j) ↔ Finished s n (.inl j))
    (hpending : ∀ {q n}, Used s q → (s.lq q).producerId = some n → adding ≠ some q →
      late' ≠ some (n, (s.lq q).virtualAddress) →
      ∃ d, (LsqInvariant.instrAt s n).destinationMemory d = (s.lq q).virtualAddress ∧ ¬Finished u n (.inr d)) :
    Loads adding late' u := by
  have hused : ∀ {q}, Used u q ↔ Used s q := by
    intro q
    rw [Used, Used, hlq]
  have hstay : ∀ {q}, Used u q → Used s q ∧ u.lq q = s.lq q := fun {q} hq => ⟨hused.mp hq, congrFun hlq q⟩
  refine h.loads_of_stay hs hstay hsize hwrites hstill hadded hindex hproducer hdepend (fun {q} hq => ?_)
    (fun {i j} hi ha hf => ?_) (fun {i j} hi ha => ?_) (fun {q} hq => ?_) ?_ ?_ (fun {q} => ?_)
    (fun hq => hpending (hused.mp hq))
  · rw [hfin]
    exact hs.waiting (hused.mp hq)
  · rw [hadded] at ha
    rw [h.id, hfin] at hf
    obtain ⟨q, hq, hu, hrest⟩ := hs.back (h.live.mp hi) ha hf
    refine ⟨q, ?_, hused.mpr hu, ?_⟩
    · rw [hindex]
      exact hq
    · rw [hlq]
      exact hrest
  · rw [hadded] at ha
    rw [h.id, hfin]
    exact hs.unadded (h.live.mp hi) ha
  · rw [hlq]
    exact hs.free (fun hu => hq (hused.mpr hu))
  · rw [hocc, hsize, hs.occupancy]
    congr 1
    ext q
    rw [Finset.mem_filter, Finset.mem_filter, hused]
  · rw [hreturn]
    exact hs.nodup
  · rw [hreturn, hlq, hused]
    exact hs.returning

theorem Kept.basic (h : Kept s u) (hs : Basic s)
    (hdestination : ∀ i, (s.rob.entry i).executed = .completed → (u.rob.entry i).executed = .completed)
    (hnum : ∀ i, Live s.rob i → (u.rob.entry i).numMemOps = (LsqInvariant.unfinished u (s.rob.entry i).instrId).card)
    (hcompleted : ∀ i, (u.rob.entry i).executed = .completed → (u.rob.entry i).numMemOps = 0) : Basic u :=
  h.toSame.basic hs (fun i _ => .inl (by rw [h.destination])) hdestination hnum hcompleted

theorem Kept.stores (h : Kept s u) (hs : Stores gone s)
    (hadded : ∀ i, (u.rob.entry i).destinationAdded = (s.rob.entry i).destinationAdded)
    (hindex : ∀ i, (u.rob.entry i).sqIndex = (s.rob.entry i).sqIndex) (hsq : u.sq = s.sq) (hsta : u.sta = s.sta)
    (hexec : u.storesToExecute = s.storesToExecute) (hfin : ∀ n d, Finished u n (.inr d) ↔ Finished s n (.inr d)) :
    Stores gone u :=
  h.toSame.stores hs (fun i _ hd => by rwa [h.destination] at hd) hadded hindex hsq hsta hexec hfin

theorem Kept.loads {late' : Option (Nat × Nat)} (h : Kept s u) (hs : Loads adding late s)
    (hadded : ∀ i, (u.rob.entry i).sourceAdded = (s.rob.entry i).sourceAdded)
    (hindex : ∀ i, (u.rob.entry i).lqIndex = (s.rob.entry i).lqIndex)
    (hproducer : ∀ i, (u.rob.entry i).isProducer = (s.rob.entry i).isProducer)
    (hdepend : ∀ i, (u.rob.entry i).memoryInstrsDependOnMe = (s.rob.entry i).memoryInstrsDependOnMe) (hlq : u.lq = s.lq)
    (hsize : u.lqSize = s.lqSize) (hocc : u.lqOccupancy = s.lqOccupancy) (hreturn : u.loadsToReturn = s.loadsToReturn)
    (hfin : ∀ n j, Finished u n (.inl j) ↔ Finished s n (.inl j))
    (hpending : ∀ {q n}, Used s q → (s.lq q).producerId = some n → adding ≠ some q →
      late' ≠ some (n, (s.lq q).virtualAddress) →
      ∃ d, (LsqInvariant.instrAt s n).destinationMemory d = (s.lq q).virtualAddress ∧ ¬Finished u n (.inr d)) :
    Loads adding late' u :=
  h.toSame.loads hs h.writesTo.mp (fun _ _ => h.writesTo.mpr) hadded hindex hproducer hdepend hlq hsize hocc hreturn hfin
    hpending

theorem Fixed.stores (h : Fixed s u) (hs : Stores gone s) (hsq : u.sq = s.sq) (hsta : u.sta = s.sta)
    (hexec : u.storesToExecute = s.storesToExecute) (hfin : ∀ n d, Finished u n (.inr d) ↔ Finished s n (.inr d)) :
    Stores gone u :=
  h.toKept.stores hs h.destinationAdded h.sqIndex hsq hsta hexec hfin

theorem Fixed.loads {late' : Option (Nat × Nat)} (h : Fixed s u) (hs : Loads adding late s) (hlq : u.lq = s.lq)
    (hsize : u.lqSize = s.lqSize) (hocc : u.lqOccupancy = s.lqOccupancy) (hreturn : u.loadsToReturn = s.loadsToReturn)
    (hfin : ∀ n j, Finished u n (.inl j) ↔ Finished s n (.inl j))
    (hpending : ∀ {q n}, Used s q → (s.lq q).producerId = some n → adding ≠ some q →
      late' ≠ some (n, (s.lq q).virtualAddress) →
      ∃ d, (LsqInvariant.instrAt s n).destinationMemory d = (s.lq q).virtualAddress ∧ ¬Finished u n (.inr d)) :
    Loads adding late' u :=
  h.toKept.loads hs h.sourceAdded h.lqIndex h.isProducer h.depend hlq hsize hocc hreturn hfin hpending

end Thermometer.LsqFrame
