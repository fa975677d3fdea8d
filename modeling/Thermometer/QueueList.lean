import Thermometer.QueueDelay

namespace Thermometer.QueueList

open Lib.Partition Lib.Runs QueueBuffer QueueDelay

/-- The members of a delay queue in their order, each with its remaining delay, and how many of
them are released. -/
structure Pending (α : Type) where
  items : List (α × Int)
  size : Nat
  latency : Nat
  ready : Nat

variable {α : Type}

def Pending.initial (size latency : Nat) : Pending α := ⟨[], size, latency, 0⟩

def Pending.occupancy (q : Pending α) : Nat := q.items.length

def Pending.full (q : Pending α) : Bool := q.items.length == q.size

def Pending.hasReady (q : Pending α) : Bool := q.ready != 0

def Pending.entries (q : Pending α) : List α := q.items.map Prod.fst

def Pending.front? (q : Pending α) : Option α := q.entries.head?

def Pending.pushWith (q : Pending α) (item : α) (delay : Int) : Pending α :=
  { q with items := q.items ++ [(item, delay)] }

def Pending.pushBack (q : Pending α) (item : α) : Pending α := q.pushWith item q.latency

def Pending.pushBackReady (q : Pending α) (item : α) : Pending α := q.pushWith item 0

def Pending.popFront (q : Pending α) : Pending α := { q with items := q.items.tail, ready := q.ready - 1 }

def Pending.modify (q : Pending α) (i : Nat) (f : α → α) : Pending α :=
  { q with items := q.items.modify i (Prod.map f id) }

def isDue (items : List (α × Int)) (i : Nat) : Bool := (items[i]?).all (fun x => decide (x.2 ≤ 0))

def Pending.operate (q : Pending α) : Pending α :=
  let items := q.items.map (fun x => (x.1, x.2 - 1))
  { q with items := items, ready := partitionPoint (isDue items) 0 items.length }

def member (q : DelayQueue α) (n : Nat) : α × Int := (q.buf.get n, q.delays.get n)

def pending (q : DelayQueue α) : Pending α where
  items := (List.range' q.buf.head q.buf.occupancy).map (member q)
  size := q.buf.size
  latency := q.latency
  ready := q.endReady - q.buf.head

section Refinement

variable {q : DelayQueue α} {item : α} {delay : Int} {n i : Nat}

theorem occupancy_pending : (pending q).occupancy = q.buf.occupancy := by
  simp [pending, Pending.occupancy]

theorem full_pending : (pending q).full = q.buf.full := by
  simp [pending, Pending.full, CircularBuffer.full]

theorem hasReady_pending (h : q.buf.head ≤ q.endReady) : (pending q).hasReady = q.hasReady := by
  rw [Bool.eq_iff_iff, Pending.hasReady, DelayQueue.hasReady, bne_iff_ne, bne_iff_ne]
  simp only [pending]
  omega

theorem pending_pushWith (hfull : q.buf.full = false) :
    pending (q.put item delay hfull) = (pending q).pushWith item delay := by
  have hhead := q.buf.head_le
  have hnew : (q.put item delay hfull).buf.occupancy = q.buf.occupancy + 1 := by
    simp only [DelayQueue.put, CircularBuffer.occupancy, put_head, put_tail]
    omega
  have hend : q.buf.head + q.buf.occupancy = q.buf.tail := Nat.add_sub_cancel' hhead
  have hlast : member (q.put item delay hfull) q.buf.tail = (item, delay) := by
    have hdelay : (q.put item delay hfull).delays.get q.buf.tail = delay := by
      rw [← q.tail_eq]
      exact put_get_tail (delays_full hfull)
    exact Prod.ext (put_get_tail hfull) hdelay
  have hkeep : ∀ n ∈ List.range' q.buf.head q.buf.occupancy, member (q.put item delay hfull) n = member q n := by
    intro n hn
    rw [List.mem_range'_1] at hn
    apply Prod.ext
    · exact put_get hfull hn.1 (hend ▸ hn.2)
    · exact put_get (delays_full hfull) (q.head_eq ▸ hn.1) (q.tail_eq ▸ hend ▸ hn.2)
  have hitems : (List.range' q.buf.head (q.buf.occupancy + 1)).map (member (q.put item delay hfull)) =
      (List.range' q.buf.head q.buf.occupancy).map (member q) ++ [(item, delay)] := by
    rw [List.range'_1_concat, List.map_append, List.map_congr_left hkeep, hend]
    simp only [List.map_cons, List.map_nil, hlast]
  simp only [pending, Pending.pushWith, hnew]
  simp only [DelayQueue.put, put_size, put_head]
  exact congrArg (fun items => Pending.mk items _ _ _) hitems

theorem pending_popFront (hempty : q.buf.empty = false) : pending (q.drop hempty) = (pending q).popFront := by
  have hpos := remaining hempty
  have hcount : q.buf.occupancy = (q.buf.tail - (q.buf.head + 1)) + 1 := by
    simp only [CircularBuffer.occupancy]
    omega
  have hitems : (List.range' (q.buf.head + 1) (q.buf.tail - (q.buf.head + 1))).map (member (q.drop hempty)) =
      ((List.range' q.buf.head q.buf.occupancy).map (member q)).tail := by
    rw [hcount, List.range'_succ]
    rfl
  simp only [pending, Pending.popFront, ← hitems]
  simp only [DelayQueue.drop, drop_size, drop_head, drop_tail, CircularBuffer.occupancy]
  exact congrArg (Pending.mk _ _ _) (Nat.sub_sub _ _ _).symm

theorem pending_modify {f : α → α} (hi : i < q.buf.occupancy) :
    pending (q.modify f (q.buf.head + i)) = (pending q).modify i f := by
  have htail := q.buf.tail_le
  have hlt : q.buf.head + i < q.buf.tail := Nat.add_lt_of_lt_sub' hi
  have hitems : (List.range' q.buf.head q.buf.occupancy).map (member (q.modify f (q.buf.head + i))) =
      ((List.range' q.buf.head q.buf.occupancy).map (member q)).modify i (Prod.map f id) := by
    apply List.ext_getElem
    · simp
    · intro j hj hj'
      rw [List.length_map, List.length_range'] at hj
      have hlt' : q.buf.head + j < q.buf.tail := Nat.add_lt_of_lt_sub' hj
      simp only [List.getElem_map, List.getElem_range', List.getElem_modify, Nat.one_mul]
      by_cases hij : i = j
      · subst hij
        rw [if_pos rfl]
        exact Prod.ext modify_get rfl
      · rw [if_neg hij]
        refine Prod.ext (modify_get_of_ne ?_) rfl
        rcases Nat.lt_or_gt_of_ne hij with h | h
        · exact slot_ne (by omega) (by omega)
        · exact (slot_ne (by omega) (by omega)).symm
  exact congrArg (fun items => Pending.mk items _ _ _) hitems

theorem search_shift {p : Nat → Bool} (start : Nat) (fuel first len : Nat) :
    search p fuel (start + first) len = start + search (fun i => p (start + i)) fuel first len := by
  induction fuel generalizing first len with
  | zero => rfl
  | succ fuel ih =>
      simp only [search, ← Nat.add_assoc]
      split_ifs
      · rfl
      · rw [← ih]
        simp only [← Nat.add_assoc]
      · exact ih first (len / 2)

theorem search_congr {p r : Nat → Bool} {fuel first len : Nat} (h : ∀ i, first ≤ i → i < first + len → p i = r i) :
    search p fuel first len = search r fuel first len := by
  induction fuel generalizing first len with
  | zero => rfl
  | succ fuel ih =>
      simp only [search]
      by_cases hlen : len = 0
      · rw [if_pos hlen, if_pos hlen]
      rw [if_neg hlen, if_neg hlen, h (first + len / 2) (Nat.le_add_right _ _) (by omega),
        ih (fun i hge hlt => h i (by omega) (by omega)), ih (fun i hge hlt => h i hge (by omega))]

theorem isDue_pending (h : i < q.buf.occupancy) :
    isDue (pending q).items i = decide (q.delays.get (q.buf.head + i) ≤ 0) := by
  simp [isDue, pending, member, h]

theorem pending_operate : pending q.operate = (pending q).operate := by
  have hhead := q.buf.head_le
  have hitems : (pending q.operate).items = (pending q).items.map (fun x => (x.1, x.2 - 1)) := by
    simp only [pending, List.map_map]
    apply List.map_congr_left
    intro n hn
    simp only [List.mem_range'_1, DelayQueue.operate, CircularBuffer.occupancy] at hn
    exact Prod.ext rfl (countDown_get hn.1 (by omega))
  have hlen : ((pending q).items.map (fun x => (x.1, x.2 - 1))).length = q.buf.tail - q.buf.head := by
    simp [pending, CircularBuffer.occupancy]
  have hready : q.operate.endReady - q.buf.head =
      partitionPoint (isDue ((pending q).items.map (fun x => (x.1, x.2 - 1)))) 0 (q.buf.tail - q.buf.head) := by
    rw [operate_endReady, ← hitems, partitionPoint, partitionPoint, Nat.sub_zero]
    have hshift := search_shift (p := fun n => decide ((countDown q.delays).get n ≤ 0)) q.buf.head
      (q.buf.tail - q.buf.head) 0 (q.buf.tail - q.buf.head)
    rw [Nat.add_zero] at hshift
    rw [hshift, Nat.add_sub_cancel_left]
    apply search_congr
    intro i _ hi
    rw [isDue_pending (q := q.operate) (by rw [Nat.zero_add] at hi; exact hi)]
    rfl
  simp only [Pending.operate, ← hitems] at hlen hready ⊢
  rw [hlen, ← hready]
  rfl

theorem entries_pending : (pending q).entries = (List.range' q.buf.head q.buf.occupancy).map q.buf.get := by
  simp only [Pending.entries, pending, List.map_map]
  rfl

theorem front_pending (h : q.buf.empty = false) : (pending q).front? = some q.buf.front := by
  have hcount : q.buf.occupancy = (q.buf.occupancy - 1) + 1 := by
    have hne : q.buf.occupancy ≠ 0 := beq_eq_false_iff_ne.mp h
    omega
  rw [Pending.front?, entries_pending, hcount]
  rfl

end Refinement

inductive Use (α : Type)
  | pushBack (item : α)
  | pushBackReady (item : α)
  | popFront
  | operate
  | modify (i : Nat) (f : α → α)

/-- `none` is a failed assertion, or an access that the callers guard: `pop_front` by `has_ready`,
a write by the members there are. -/
def useQueue (q : DelayQueue α) : Use α → Option (DelayQueue α)
  | .pushBack item => q.pushBack item
  | .pushBackReady item => q.pushBackReady item
  | .popFront => if q.hasReady then q.popFront else none
  | .operate => some q.operate
  | .modify i f => if i < q.buf.occupancy then some (q.modify f (q.buf.head + i)) else none

def usePending (q : Pending α) : Use α → Option (Pending α)
  | .pushBack item => if q.full then none else some (q.pushBack item)
  | .pushBackReady item => if q.full then none else some (q.pushBackReady item)
  | .popFront => if q.hasReady then some q.popFront else none
  | .operate => some q.operate
  | .modify i f => if i < q.occupancy then some (q.modify i f) else none

structure Within (q : DelayQueue α) : Prop where
  ge : q.buf.head ≤ q.endReady
  le : q.endReady ≤ q.buf.tail

section Uses

variable {q r : DelayQueue α} {item : α} {delay : Int} {u : Use α}

theorem Within.nonempty (h : Within q) (hready : q.hasReady = true) : q.buf.empty = false := by
  have hne : q.buf.head ≠ q.endReady := bne_iff_ne.mp hready
  have hge := h.ge
  have hle := h.le
  rw [CircularBuffer.empty, CircularBuffer.occupancy, beq_eq_false_iff_ne]
  omega

theorem pushWith_list : (q.pushWith item delay).map pending =
    if (pending q).full then none else some ((pending q).pushWith item delay) := by
  rw [full_pending, DelayQueue.pushWith]
  by_cases hfull : q.buf.full = false
  · rw [dif_pos hfull, hfull, Option.map_some, pending_pushWith hfull]
    rfl
  · rw [dif_neg hfull, Bool.not_eq_false] at *
    rw [if_pos hfull]
    rfl

theorem useQueue_list (h : Within q) (u : Use α) : (useQueue q u).map pending = usePending (pending q) u := by
  cases u with
  | pushBack item => exact pushWith_list
  | pushBackReady item => exact pushWith_list
  | popFront =>
      simp only [useQueue, usePending, hasReady_pending h.ge]
      by_cases hready : q.hasReady = true
      · have hempty := h.nonempty hready
        rw [if_pos hready, if_pos hready, DelayQueue.popFront, dif_pos hempty, Option.map_some, pending_popFront]
      · rw [if_neg hready, if_neg hready]
        rfl
  | operate => exact congrArg some pending_operate
  | modify i f =>
      simp only [useQueue, usePending, occupancy_pending]
      by_cases hi : i < q.buf.occupancy
      · rw [if_pos hi, if_pos hi, Option.map_some, pending_modify hi]
      · rw [if_neg hi, if_neg hi]
        rfl

theorem Within.put (h : Within q) (hfull : q.buf.full = false) : Within (q.put item delay hfull) :=
  ⟨h.ge, Nat.le_succ_of_le h.le⟩

theorem Within.use (h : Within q) (huse : useQueue q u = some r) : Within r := by
  cases u with
  | pushBack item | pushBackReady item =>
      simp only [useQueue, DelayQueue.pushBack, DelayQueue.pushBackReady, DelayQueue.pushWith] at huse
      split_ifs at huse with hfull
      cases huse
      exact h.put hfull
  | popFront =>
      simp only [useQueue] at huse
      split_ifs at huse with hready
      rw [DelayQueue.popFront, dif_pos (h.nonempty hready)] at huse
      cases huse
      exact ⟨Nat.succ_le_of_lt (Nat.lt_of_le_of_ne h.ge (bne_iff_ne.mp hready)), h.le⟩
  | operate =>
      cases huse
      constructor
      · exact Nat.le_add_right _ _
      · rw [operate_endReady]
        exact partitionPoint_le q.buf.head_le
  | modify i f =>
      simp only [useQueue] at huse
      split_ifs at huse
      cases huse
      exact ⟨h.ge, h.le⟩

end Uses

/-- Whatever is done with a delay queue, it is the list of its members: both fail at the same use,
and where they do not they answer alike. -/
theorem queue_is_list [Inhabited α] (size latency : Nat) (us : List (Use α)) :
    (run useQueue (.initial size latency) us).map pending = run usePending (.initial size latency) us ∧
    ∀ q, run useQueue (.initial size latency) us = some q →
      (pending q).occupancy = q.buf.occupancy ∧ (pending q).full = q.buf.full ∧ (pending q).hasReady = q.hasReady ∧
      (pending q).entries = (List.range' q.buf.head q.buf.occupancy).map q.buf.get ∧
      (q.buf.empty = false → (pending q).front? = some q.buf.front) := by
  have hinit : Within (.initial (α := α) size latency) := ⟨le_rfl, le_rfl⟩
  have hkeep : ∀ (q : DelayQueue α) u r, Within q → useQueue q u = some r → Within r := fun _ _ _ => Within.use
  refine ⟨run_map_of hkeep (fun _ u h => useQueue_list h u) hinit us, fun q hq => ?_⟩
  have hwithin : Within q := run_preserves (fun _ _ _ _ => Within.use) hinit hq
  exact ⟨occupancy_pending, full_pending, hasReady_pending hwithin.ge, entries_pending, front_pending⟩

end Thermometer.QueueList
