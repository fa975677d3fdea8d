import Thermometer.Lib.Partition
import Thermometer.Lib.Runs
import Thermometer.QueueBuffer

namespace Thermometer.QueueDelay

open Lib.Partition Lib.Runs QueueBuffer

/-- `endReady` is a position of `buf`: the one after the members that are released. -/
structure DelayQueue (α : Type) where
  buf : CircularBuffer α
  delays : CircularBuffer Int
  latency : Nat
  endReady : Nat
  size_eq : delays.size = buf.size
  head_eq : delays.head = buf.head
  tail_eq : delays.tail = buf.tail

variable {α : Type}

def DelayQueue.initial [Inhabited α] (size latency : Nat) : DelayQueue α :=
  ⟨.initial size, .initial size, latency, 0, rfl, rfl, rfl⟩

def DelayQueue.hasReady (q : DelayQueue α) : Bool := q.buf.head != q.endReady

theorem delays_full {q : DelayQueue α} (h : q.buf.full = false) : q.delays.full = false := by
  simpa only [CircularBuffer.full, CircularBuffer.occupancy, q.size_eq, q.head_eq, q.tail_eq] using h

theorem delays_empty {q : DelayQueue α} (h : q.buf.empty = false) : q.delays.empty = false := by
  simpa only [CircularBuffer.empty, CircularBuffer.occupancy, q.head_eq, q.tail_eq] using h

def DelayQueue.put (q : DelayQueue α) (item : α) (delay : Int) (h : q.buf.full = false) : DelayQueue α where
  buf := q.buf.put item h
  delays := q.delays.put delay (delays_full h)
  latency := q.latency
  endReady := q.endReady
  size_eq := q.size_eq
  head_eq := q.head_eq
  tail_eq := congrArg (· + 1) q.tail_eq

def DelayQueue.pushWith (q : DelayQueue α) (item : α) (delay : Int) : Option (DelayQueue α) :=
  if h : q.buf.full = false then some (q.put item delay h) else none

/-- `none` is a failed assertion of the buffer. -/
def DelayQueue.pushBack (q : DelayQueue α) (item : α) : Option (DelayQueue α) := q.pushWith item q.latency

def DelayQueue.pushBackReady (q : DelayQueue α) (item : α) : Option (DelayQueue α) := q.pushWith item 0

def DelayQueue.drop (q : DelayQueue α) (h : q.buf.empty = false) : DelayQueue α where
  buf := q.buf.drop h
  delays := q.delays.drop (delays_empty h)
  latency := q.latency
  endReady := q.endReady
  size_eq := q.size_eq
  head_eq := congrArg (· + 1) q.head_eq
  tail_eq := q.tail_eq

def DelayQueue.popFront (q : DelayQueue α) : Option (DelayQueue α) :=
  if h : q.buf.empty = false then some (q.drop h) else none

def countDown (delays : CircularBuffer Int) : CircularBuffer Int := delays.forEach (fun x => x - 1)

def delayIt (delays : CircularBuffer Int) : Nat :=
  partitionPoint (fun n => decide (delays.get n ≤ 0)) delays.head delays.tail

def DelayQueue.operate (q : DelayQueue α) : DelayQueue α :=
  { q with
    delays := countDown q.delays
    endReady := q.buf.head + (delayIt (countDown q.delays) - (countDown q.delays).head)
    size_eq := forEach_size.trans q.size_eq
    head_eq := forEach_head.trans q.head_eq
    tail_eq := forEach_tail.trans q.tail_eq }

def DelayQueue.modify (q : DelayQueue α) (f : α → α) (n : Nat) : DelayQueue α := { q with buf := q.buf.modify f n }

/-- A member, with the number of `operate` calls before it was pushed. -/
structure Ticket (α : Type) where
  item : α
  pushedAt : Nat
  delayed : Bool
  deriving Inhabited

def Ticket.delay (x : Ticket α) (latency : Nat) : Int := if x.delayed = true then latency else 0

structure Traffic (α : Type) where
  queue : DelayQueue (Ticket α)
  operates : Nat

def Traffic.initial [Inhabited α] (size latency : Nat) : Traffic α := ⟨.initial size latency, 0⟩

inductive Call (α : Type)
  | pushBack (item : α)
  | pushBackReady (item : α)
  | operate
  | popFront

/-- `pop_front` is guarded by `has_ready`. -/
def step (s : Traffic α) : Call α → Option (Traffic α)
  | .pushBack item => (s.queue.pushBack ⟨item, s.operates, true⟩).map (fun q => ⟨q, s.operates⟩)
  | .pushBackReady item => (s.queue.pushBackReady ⟨item, s.operates, false⟩).map (fun q => ⟨q, s.operates⟩)
  | .operate => some ⟨s.queue.operate, s.operates + 1⟩
  | .popFront => if s.queue.hasReady then s.queue.popFront.map (fun q => ⟨q, s.operates⟩) else none

/-- `end_ready` is the first member whose remaining delay is positive. -/
def Accurate (q : DelayQueue α) : Prop :=
  FirstWithout (fun n => decide (q.delays.get n ≤ 0)) q.buf.head q.buf.tail q.endReady

/-- A member pushed with `push_back` is not released before `latency` calls of `operate`. -/
def Timely (s : Traffic α) : Prop :=
  s.queue.hasReady = true → s.queue.buf.front.delayed = true → s.queue.buf.front.pushedAt + s.queue.latency ≤ s.operates

def due (q : DelayQueue α) (n : Nat) : Bool := decide (q.delays.get n ≤ 1)

/-- Halving the queue towards the first member that is not due, one only meets members that are
not due from there on. -/
def Searchable (q : DelayQueue α) : Prop :=
  let first := firstWithout (due q) q.buf.head q.buf.tail
  ∀ m ∈ midpoints first (q.buf.tail - q.buf.head) q.buf.head (q.buf.tail - q.buf.head), first ≤ m → due q m = false

instance (q : DelayQueue α) : Decidable (Searchable q) := by
  unfold Searchable
  infer_instance

section Operate

variable {q : DelayQueue α} {n : Nat}

theorem countDown_get (hge : q.buf.head ≤ n) (hlt : n < q.buf.tail) :
    (countDown q.delays).get n = q.delays.get n - 1 := by
  apply forEach_get
  · exact q.head_eq ▸ hge
  · exact q.tail_eq ▸ hlt

theorem countDown_le (hge : q.buf.head ≤ n) (hlt : n < q.buf.tail) :
    decide ((countDown q.delays).get n ≤ 0) = due q n := by
  rw [countDown_get hge hlt, due, decide_eq_decide]
  omega

theorem operate_endReady : q.operate.endReady =
    partitionPoint (fun n => decide ((countDown q.delays).get n ≤ 0)) q.buf.head q.buf.tail := by
  have hhead : (countDown q.delays).head = q.buf.head := forEach_head.trans q.head_eq
  have htail : (countDown q.delays).tail = q.buf.tail := forEach_tail.trans q.tail_eq
  simp only [DelayQueue.operate, delayIt, hhead, htail]
  exact Nat.add_sub_cancel' partitionPoint_ge

theorem accurate_operate_iff : Accurate q.operate ↔ Searchable q := by
  have hfirst := firstWithout_spec (p := due q) q.buf.head_le
  have hcount := hfirst.congr (fun i hge hlt => (countDown_le hge hlt).symm)
  have hlooked : Searchable q ↔ partitionPoint (fun n => decide ((countDown q.delays).get n ≤ 0)) q.buf.head q.buf.tail =
      firstWithout (due q) q.buf.head q.buf.tail := by
    rw [partitionPoint_eq_iff hcount]
    have hbound : ∀ m ∈ midpoints (firstWithout (due q) q.buf.head q.buf.tail) (q.buf.tail - q.buf.head) q.buf.head
        (q.buf.tail - q.buf.head), decide ((countDown q.delays).get m ≤ 0) = due q m := by
      intro m hm
      have hlt := midpoints_lt hm
      exact countDown_le hlt.1 (by omega)
    constructor
    · intro h m hm hle
      rw [hbound m hm]
      exact h m hm hle
    · intro h m hm hle
      rw [← hbound m hm]
      exact h m hm hle
  rw [hlooked, ← operate_endReady]
  constructor
  · intro h
    exact FirstWithout.unique h hcount
  · intro h
    rw [Accurate, h]
    exact hcount

end Operate

section Invariants

variable {s t : Traffic α}

structure Ledger (s : Traffic α) : Prop where
  count : ∀ n, s.queue.buf.head ≤ n → n < s.queue.buf.tail →
    s.queue.delays.get n + s.operates =
      (s.queue.buf.get n).delay s.queue.latency + (s.queue.buf.get n).pushedAt
  past : ∀ n, s.queue.buf.head ≤ n → n < s.queue.buf.tail → (s.queue.buf.get n).pushedAt ≤ s.operates

structure Released (s : Traffic α) : Prop where
  ge : s.queue.buf.head ≤ s.queue.endReady
  le : s.queue.endReady ≤ s.queue.buf.tail
  waited : ∀ n, s.queue.buf.head ≤ n → n < s.queue.endReady → s.queue.delays.get n ≤ 0

theorem timely_of_released (hl : Ledger s) (hr : Released s) : Timely s := by
  intro hready hdelayed
  have hlt : s.queue.buf.head < s.queue.endReady := Nat.lt_of_le_of_ne hr.ge (bne_iff_ne.mp hready)
  have hcount := hl.count s.queue.buf.head le_rfl (hlt.trans_le hr.le)
  have hfront : (s.queue.buf.get s.queue.buf.head).delayed = true := hdelayed
  rw [Ticket.delay, if_pos hfront] at hcount
  have hwaited := hr.waited s.queue.buf.head le_rfl hlt
  have hle : ((s.queue.buf.get s.queue.buf.head).pushedAt : Int) + s.queue.latency ≤ s.operates := by omega
  exact_mod_cast hle

section Push

variable {item : Ticket α} {delay : Int} {q : DelayQueue (Ticket α)}

theorem pushWith_some (h : s.queue.pushWith item delay = some q) :
    ∃ hfull : s.queue.buf.full = false, q = s.queue.put item delay hfull := by
  rw [DelayQueue.pushWith] at h
  by_cases hfull : s.queue.buf.full = false
  · rw [dif_pos hfull, Option.some.injEq] at h
    exact ⟨hfull, h.symm⟩
  · rw [dif_neg hfull] at h
    cases h

theorem put_delays_get (hfull : s.queue.buf.full = false) {n : Nat} (hge : s.queue.buf.head ≤ n)
    (hlt : n < s.queue.buf.tail) : (s.queue.put item delay hfull).delays.get n = s.queue.delays.get n := by
  apply put_get (delays_full hfull)
  · exact s.queue.head_eq ▸ hge
  · exact s.queue.tail_eq ▸ hlt

theorem put_delays_tail (hfull : s.queue.buf.full = false) :
    (s.queue.put item delay hfull).delays.get s.queue.buf.tail = delay := by
  rw [← s.queue.tail_eq]
  exact put_get_tail (delays_full hfull)

theorem Ledger.push (h : Ledger s) (hq : s.queue.pushWith item delay = some q)
    (hdelay : delay = item.delay s.queue.latency) (hnow : item.pushedAt = s.operates) :
    Ledger ⟨q, s.operates⟩ := by
  obtain ⟨hfull, rfl⟩ := pushWith_some hq
  refine ⟨fun n hge hlt => ?_, fun n hge hlt => ?_⟩
  · rcases Nat.lt_succ_iff_lt_or_eq.mp hlt with hlt | rfl
    · have hcount := h.count n hge hlt
      rw [put_delays_get hfull hge hlt]
      simpa only [DelayQueue.put, put_get hfull hge hlt] using hcount
    · rw [put_delays_tail hfull]
      simp only [DelayQueue.put, put_get_tail]
      rw [hdelay, hnow]
  · rcases Nat.lt_succ_iff_lt_or_eq.mp hlt with hlt | rfl
    · simpa only [DelayQueue.put, put_get hfull hge hlt] using h.past n hge hlt
    · simp only [DelayQueue.put, put_get_tail]
      exact hnow.le

theorem Released.push (h : Released s) (hq : s.queue.pushWith item delay = some q) : Released ⟨q, s.operates⟩ := by
  obtain ⟨hfull, rfl⟩ := pushWith_some hq
  refine ⟨h.ge, Nat.le_succ_of_le h.le, fun n hge hlt => ?_⟩
  have hend : n < s.queue.endReady := hlt
  rw [put_delays_get hfull hge (hend.trans_le h.le)]
  exact h.waited n hge hend

end Push

section Pop

variable {q : DelayQueue (Ticket α)}

theorem popFront_some (h : s.queue.popFront = some q) :
    ∃ hempty : s.queue.buf.empty = false, q = s.queue.drop hempty := by
  rw [DelayQueue.popFront] at h
  by_cases hempty : s.queue.buf.empty = false
  · rw [dif_pos hempty, Option.some.injEq] at h
    exact ⟨hempty, h.symm⟩
  · rw [dif_neg hempty] at h
    cases h

theorem Ledger.pop (h : Ledger s) (hq : s.queue.popFront = some q) : Ledger ⟨q, s.operates⟩ := by
  obtain ⟨hempty, rfl⟩ := popFront_some hq
  exact ⟨fun n hge hlt => h.count n (Nat.le_of_succ_le hge) hlt, fun n hge hlt => h.past n (Nat.le_of_succ_le hge) hlt⟩

theorem Released.pop (h : Released s) (hready : s.queue.hasReady = true) (hq : s.queue.popFront = some q) :
    Released ⟨q, s.operates⟩ := by
  obtain ⟨hempty, rfl⟩ := popFront_some hq
  refine ⟨?_, h.le, fun n hge hlt => h.waited n (Nat.le_of_succ_le hge) hlt⟩
  exact Nat.succ_le_of_lt (Nat.lt_of_le_of_ne h.ge (bne_iff_ne.mp hready))

end Pop

theorem Ledger.operate (h : Ledger s) : Ledger ⟨s.queue.operate, s.operates + 1⟩ := by
  refine ⟨fun n hge hlt => ?_, fun n hge hlt => Nat.le_succ_of_le (h.past n hge hlt)⟩
  have hcount := h.count n hge hlt
  have hget : s.queue.operate.delays.get n = s.queue.delays.get n - 1 := countDown_get hge hlt
  calc s.queue.operate.delays.get n + ((s.operates + 1 : Nat) : Int)
      = s.queue.delays.get n + s.operates := by omega
    _ = (s.queue.buf.get n).delay s.queue.latency + (s.queue.buf.get n).pushedAt := hcount

theorem Released.operate (h : Accurate s.queue.operate) : Released ⟨s.queue.operate, s.operates + 1⟩ :=
  ⟨h.ge, h.le, fun n hge hlt => of_decide_eq_true (h.before n hge hlt)⟩

theorem ledger_step {c : Call α} (h : Ledger s) (hstep : step s c = some t) : Ledger t := by
  cases c with
  | pushBack item =>
      obtain ⟨q, hq, rfl⟩ := Option.map_eq_some_iff.mp hstep
      exact h.push hq rfl rfl
  | pushBackReady item =>
      obtain ⟨q, hq, rfl⟩ := Option.map_eq_some_iff.mp hstep
      exact h.push hq rfl rfl
  | operate =>
      cases hstep
      exact h.operate
  | popFront =>
      simp only [step, Option.ite_none_right_eq_some] at hstep
      obtain ⟨q, hq, rfl⟩ := Option.map_eq_some_iff.mp hstep.2
      exact h.pop hq

theorem released_step {c : Call α} (h : Released s) (hc : c = .operate → Searchable s.queue)
    (hstep : step s c = some t) : Released t := by
  cases c with
  | pushBack item =>
      obtain ⟨q, hq, rfl⟩ := Option.map_eq_some_iff.mp hstep
      exact h.push hq
  | pushBackReady item =>
      obtain ⟨q, hq, rfl⟩ := Option.map_eq_some_iff.mp hstep
      exact h.push hq
  | operate =>
      cases hstep
      exact Released.operate (accurate_operate_iff.mpr (hc rfl))
  | popFront =>
      simp only [step, Option.ite_none_right_eq_some] at hstep
      obtain ⟨q, hq, rfl⟩ := Option.map_eq_some_iff.mp hstep.2
      exact h.pop hstep.1 hq

def Sorted (s : Traffic α) : Prop :=
  ∀ n m, s.queue.buf.head ≤ n → n ≤ m → m < s.queue.buf.tail → s.queue.delays.get n ≤ s.queue.delays.get m

theorem searchable_of_sorted (h : Sorted s) : Searchable s.queue := by
  apply midpoints_of_partitioned
  · intro i j hge hle hlt hdue
    have hsorted := h i j hge hle hlt
    simp only [due, decide_eq_true_eq] at hdue ⊢
    omega
  · exact firstWithout_spec s.queue.buf.head_le

theorem Sorted.push {item : Ticket α} {delay : Int} {q : DelayQueue (Ticket α)} (h : Sorted s)
    (hq : s.queue.pushWith item delay = some q)
    (hmax : ∀ n, s.queue.buf.head ≤ n → n < s.queue.buf.tail → s.queue.delays.get n ≤ delay) :
    Sorted ⟨q, s.operates⟩ := by
  obtain ⟨hfull, rfl⟩ := pushWith_some hq
  intro n m hge hle hlt
  rcases Nat.lt_succ_iff_lt_or_eq.mp hlt with hlt | rfl
  · rw [put_delays_get hfull hge (hle.trans_lt hlt), put_delays_get hfull (hge.trans hle) hlt]
    exact h n m hge hle hlt
  · rw [put_delays_tail hfull]
    rcases Nat.eq_or_lt_of_le hle with rfl | hn
    · exact (put_delays_tail hfull).le
    · rw [put_delays_get hfull hge hn]
      exact hmax n hge hn

theorem Ledger.le_latency (h : Ledger s) {n : Nat} (hge : s.queue.buf.head ≤ n) (hlt : n < s.queue.buf.tail) :
    s.queue.delays.get n ≤ s.queue.latency := by
  have hcount := h.count n hge hlt
  have hpast := h.past n hge hlt
  have hdelay : (s.queue.buf.get n).delay s.queue.latency ≤ s.queue.latency := by
    simp only [Ticket.delay]
    split_ifs <;> omega
  omega

/-- A member that is ready at once only joins members that are. -/
def JoinsReady (s : Traffic α) (c : Call α) : Prop :=
  ∀ item, c = .pushBackReady item → ∀ n, s.queue.buf.head ≤ n → n < s.queue.buf.tail → s.queue.delays.get n ≤ 0

theorem sorted_step {c : Call α} (hl : Ledger s) (h : Sorted s) (hc : JoinsReady s c) (hstep : step s c = some t) :
    Sorted t := by
  cases c with
  | pushBack item =>
      obtain ⟨q, hq, rfl⟩ := Option.map_eq_some_iff.mp hstep
      exact h.push hq (fun n hge hlt => hl.le_latency hge hlt)
  | pushBackReady item =>
      obtain ⟨q, hq, rfl⟩ := Option.map_eq_some_iff.mp hstep
      exact h.push hq (hc item rfl)
  | operate =>
      cases hstep
      intro n m hge hle hlt
      have hn : s.queue.operate.delays.get n = s.queue.delays.get n - 1 := countDown_get hge (hle.trans_lt hlt)
      have hm : s.queue.operate.delays.get m = s.queue.delays.get m - 1 := countDown_get (hge.trans hle) hlt
      have hsorted := h n m hge hle hlt
      simp only [hn, hm]
      omega
  | popFront =>
      simp only [step, Option.ite_none_right_eq_some] at hstep
      obtain ⟨q, hq, rfl⟩ := Option.map_eq_some_iff.mp hstep.2
      obtain ⟨hempty, rfl⟩ := popFront_some hq
      intro n m hge hle hlt
      exact h n m (Nat.le_of_succ_le hge) hle hlt

theorem initial_ledger [Inhabited α] (size latency : Nat) : Ledger (.initial (α := α) size latency) :=
  ⟨fun n _ hlt => absurd hlt (Nat.not_lt_zero n), fun n _ hlt => absurd hlt (Nat.not_lt_zero n)⟩

theorem initial_released [Inhabited α] (size latency : Nat) : Released (.initial (α := α) size latency) :=
  ⟨le_rfl, le_rfl, fun n _ hlt => absurd hlt (Nat.not_lt_zero n)⟩

end Invariants

variable [Inhabited α] {size latency : Nat} {calls : List (Call α)} {s : Traffic α}

theorem ledger_run (h : run step (.initial size latency) calls = some s) : Ledger s :=
  run_preserves (fun _ _ _ _ => ledger_step) (initial_ledger size latency) h

theorem timely_run (hcalls : EveryStep step (.initial size latency) (fun _ s c => c = .operate → Searchable s.queue) calls)
    (h : run step (.initial size latency) calls = some s) : Timely s :=
  timely_of_released (ledger_run h)
    (hcalls.preserves (fun _ _ _ hr hc hstep => released_step hr hc hstep) (initial_released size latency) h)

/-- Traffic that keeps the two kinds apart, as that of the caches, is never searched wrongly. -/
theorem searchable_run (hcalls : EveryStep step (.initial size latency) (fun _ => JoinsReady) calls)
    (h : run step (.initial size latency) calls = some s) : Searchable s.queue := by
  have hboth : Ledger s ∧ Sorted s := by
    apply hcalls.preserves (I := fun s => Ledger s ∧ Sorted s) _ _ h
    · intro s t c hs hc hstep
      exact ⟨ledger_step hs.1 hstep, sorted_step hs.1 hs.2 hc hstep⟩
    · exact ⟨initial_ledger size latency, fun n m _ _ hlt => absurd hlt (Nat.not_lt_zero m)⟩
  exact searchable_of_sorted hboth.2

/-- A delay queue releases nothing early exactly when no `operate` is misled by members that are
due behind one that is not. -/
theorem releases_nothing_early_iff (size latency : Nat) (calls : List (Call α)) :
    (EveryStep step (.initial size latency) (fun _ s c => c = .operate → Accurate s.queue.operate) calls ∧
      ∀ pre post s, calls = pre ++ post → run step (.initial size latency) pre = some s → Timely s) ↔
    EveryStep step (.initial size latency) (fun _ s c => c = .operate → Searchable s.queue) calls := by
  constructor
  · intro h
    refine h.1.imp (fun pre c post s _ _ hc hop => ?_)
    exact accurate_operate_iff.mp (hc hop)
  · intro h
    refine ⟨?_, fun pre post s heq hs => ?_⟩
    · refine h.imp (fun pre c post s _ _ hc hop => ?_)
      exact accurate_operate_iff.mpr (hc hop)
    · rw [heq] at h
      exact timely_run h.of_append hs

/-- A member that waits and one that does not, as fetch leaves them to decode. -/
def mixed : List (Call Nat) := [.pushBack 0, .pushBackReady 1]

theorem released_early : ¬(EveryStep step (.initial 2 2) (fun _ s c => c = .operate → Accurate s.queue.operate)
      (mixed ++ [.operate]) ∧
    ∀ pre post s, mixed ++ [.operate] = pre ++ post → run step (.initial 2 2) pre = some s → Timely s) := by
  rintro ⟨-, h⟩
  have hrun : (run step (.initial 2 2) (mixed ++ [.operate])).any (fun s => s.queue.hasReady && s.queue.buf.front.delayed &&
      decide (s.operates < s.queue.buf.front.pushedAt + s.queue.latency)) = true := by decide +kernel
  obtain ⟨s, hs, hearly⟩ := (Option.any_eq_true _ _).mp hrun
  simp only [Bool.and_eq_true, decide_eq_true_eq] at hearly
  exact absurd (h _ [] s (List.append_nil _).symm hs hearly.1.1 hearly.1.2) (Nat.not_le.mpr hearly.2)

end Thermometer.QueueDelay
