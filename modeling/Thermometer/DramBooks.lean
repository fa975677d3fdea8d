import Thermometer.DramModel
import Thermometer.Lib.Pairing
import Thermometer.Lib.Tally

namespace Thermometer.DramBooks

open Lib Pairing Tally Packets DramModel

variable {R : Type}

structure Slot where
  kind : Kind
  channel : Nat
  index : Nat
  deriving DecidableEq

def entryAt (s : Controller R) (x : Slot) : Request R := (s.queue x.kind x.channel).entry x.index

def placed (config : Config) (e : Request R) : Option Place :=
  if e.scheduled then some (placeOf config e.address) else none

def served (p : Place) (b : BankRequest) : Option Slot :=
  if b.working then some ⟨if b.isWrite then .write else .read, p.channel, b.requestIndex.toNat⟩ else none

def isScheduled (e : Request R) : Bool := e.scheduled

def isValid (e : Request R) : Bool := e.address != 0

/-- The scheduled requests and the working banks are paired, and the counters count. -/
structure Booked (config : Config) (s : Controller R) : Prop where
  paired : Paired (fun x => placed config (entryAt s x)) (fun p => served p (s.bank p))
  flagged : ∀ p, (s.bank p).working = true → 0 ≤ (s.bank p).requestIndex ∧ (s.bank p).isRead = !(s.bank p).isWrite
  address : ∀ x, (entryAt s x).scheduled = true → (entryAt s x).address ≠ 0
  inside : ∀ x, (entryAt s x).address ≠ 0 →
    x.index < (s.queue x.kind x.channel).size ∧ dramGetChannel config (entryAt s x).address = x.channel
  counted : ∀ k c, s.scheduled k c = tally isScheduled (s.queue k c).size (s.queue k c).entry
  occupied : ∀ k c, (s.queue k c).occupancy = tally isValid (s.queue k c).size (s.queue k c).entry

section Change

variable {config : Config} {s s' : Controller R} {x : Slot} {e : Request R} {p : Place} {b : BankRequest}

theorem placed_some : placed config e = some p ↔ e.scheduled = true ∧ placeOf config e.address = p := by
  simp [placed]

theorem placed_none : placed config e = none ↔ e.scheduled = false := by
  simp [placed]

theorem served_none : served p b = none ↔ b.working = false := by
  simp [served]

/-- A request of a queue changes, and with it a bank. -/
structure Changed (s s' : Controller R) (x : Slot) (e : Request R) (p : Place) (b : BankRequest) : Prop where
  entry : entryAt s' = Function.update (entryAt s) x e
  bank : s'.bank = Function.update s.bank p b
  size : ∀ k c, (s'.queue k c).size = (s.queue k c).size
  scheduled : ∀ k c, s'.scheduled k c + (if k = x.kind ∧ c = x.channel ∧ (entryAt s x).scheduled = true then 1 else 0) =
    s.scheduled k c + if k = x.kind ∧ c = x.channel ∧ e.scheduled = true then 1 else 0
  occupancy : ∀ k c, (s'.queue k c).occupancy +
    (if k = x.kind ∧ c = x.channel ∧ (entryAt s x).address ≠ 0 then 1 else 0) =
    (s.queue k c).occupancy + if k = x.kind ∧ c = x.channel ∧ e.address ≠ 0 then 1 else 0

theorem Changed.placed (h : Changed s s' x e p b) : (fun y => placed config (entryAt s' y)) =
    Function.update (fun y => placed config (entryAt s y)) x (placed config e) := by
  funext y
  rw [h.entry]
  by_cases hy : y = x
  · subst hy
    simp only [Function.update_self]
  · simp only [Function.update_of_ne hy]

theorem Changed.served (h : Changed s s' x e p b) : (fun q => served q (s'.bank q)) =
    Function.update (fun q => served q (s.bank q)) p (served p b) := by
  funext q
  rw [h.bank]
  by_cases hq : q = p
  · subst hq
    simp only [Function.update_self]
  · simp only [Function.update_of_ne hq]

theorem Changed.entries (h : Changed s s' x e p b) (k : Kind) (c : Nat) : (s'.queue k c).entry =
    if k = x.kind ∧ c = x.channel then Function.update (s.queue k c).entry x.index e else (s.queue k c).entry := by
  funext i
  have hentry : (s'.queue k c).entry i = Function.update (entryAt s) x e ⟨k, c, i⟩ := congrFun h.entry ⟨k, c, i⟩
  rw [hentry]
  by_cases hkc : k = x.kind ∧ c = x.channel
  · obtain ⟨rfl, rfl⟩ := hkc
    rw [if_pos ⟨rfl, rfl⟩]
    by_cases hi : i = x.index
    · subst hi
      exact (Function.update_self x e (entryAt s)).trans (Function.update_self x.index e (s.queue x.kind x.channel).entry).symm
    · rw [Function.update_of_ne hi, Function.update_of_ne]
      · rfl
      · exact fun hx => hi (congrArg Slot.index hx)
  · rw [if_neg hkc, Function.update_of_ne]
    · rfl
    · exact fun hx => hkc ⟨congrArg Slot.kind hx, congrArg Slot.channel hx⟩

theorem Changed.tally (h : Changed s s' x e p b) {f : Request R → Bool} {k : Kind} {c n m : Nat}
    (hx : x.index < (s.queue x.kind x.channel).size) (hn : n = tally f (s.queue k c).size (s.queue k c).entry)
    (hm : m + (if k = x.kind ∧ c = x.channel ∧ f (entryAt s x) = true then 1 else 0) =
      n + if k = x.kind ∧ c = x.channel ∧ f e = true then 1 else 0) :
    m = tally f (s'.queue k c).size (s'.queue k c).entry := by
  rw [h.size, h.entries]
  by_cases hkc : k = x.kind ∧ c = x.channel
  · obtain ⟨rfl, rfl⟩ := hkc
    have hcount := tally_update (p := f) (f := (s.queue x.kind x.channel).entry) (x := e) hx
    simp only [true_and, entryAt] at hm
    rw [if_pos ⟨rfl, rfl⟩]
    omega
  · have hno : ∀ q : Prop, ¬(k = x.kind ∧ c = x.channel ∧ q) := fun q hq => hkc ⟨hq.1, hq.2.1⟩
    rw [if_neg (hno _), if_neg (hno _)] at hm
    rw [if_neg hkc]
    omega

theorem Booked.changed (h : Booked config s) (hc : Changed s s' x e p b)
    (hx : x.index < (s.queue x.kind x.channel).size)
    (hpaired : Paired (Function.update (fun y => placed config (entryAt s y)) x (placed config e))
      (Function.update (fun q => served q (s.bank q)) p (served p b)))
    (hflag : b.working = true → 0 ≤ b.requestIndex ∧ b.isRead = !b.isWrite)
    (haddr : e.scheduled = true → e.address ≠ 0)
    (hchannel : e.address ≠ 0 → dramGetChannel config e.address = x.channel) : Booked config s' := by
  refine ⟨?_, fun q => ?_, fun y => ?_, fun y => ?_, fun k c => ?_, fun k c => ?_⟩
  · rw [hc.placed, hc.served]
    exact hpaired
  · rw [hc.bank]
    by_cases hq : q = p
    · subst hq
      rw [Function.update_self]
      exact hflag
    · rw [Function.update_of_ne hq]
      exact h.flagged q
  · rw [hc.entry]
    by_cases hy : y = x
    · subst hy
      rw [Function.update_self]
      exact haddr
    · rw [Function.update_of_ne hy]
      exact h.address y
  · rw [hc.entry, hc.size]
    by_cases hy : y = x
    · subst hy
      rw [Function.update_self]
      exact fun hne => ⟨hx, hchannel hne⟩
    · rw [Function.update_of_ne hy]
      exact h.inside y
  · exact hc.tally hx (h.counted k c) (hc.scheduled k c)
  · refine hc.tally hx (h.occupied k c) ?_
    simpa only [isValid, bne_iff_ne] using hc.occupancy k c

theorem Booked.unchanged (h : Booked config s) (hentry : entryAt s' = entryAt s)
    (hbank : ∀ q, (s'.bank q).working = (s.bank q).working ∧ (s'.bank q).requestIndex = (s.bank q).requestIndex ∧
      (s'.bank q).isWrite = (s.bank q).isWrite ∧ (s'.bank q).isRead = (s.bank q).isRead)
    (hsize : ∀ k c, (s'.queue k c).size = (s.queue k c).size) (hscheduled : s'.scheduled = s.scheduled)
    (hoccupancy : ∀ k c, (s'.queue k c).occupancy = (s.queue k c).occupancy) : Booked config s' := by
  have hqueue : ∀ k c, (s'.queue k c).entry = (s.queue k c).entry := by
    intro k c
    funext i
    exact congrFun hentry ⟨k, c, i⟩
  have hserved : (fun q => served q (s'.bank q)) = fun q => served q (s.bank q) := by
    funext q
    obtain ⟨hworking, hindex, hwrite, -⟩ := hbank q
    simp only [served, hworking, hindex, hwrite]
  refine ⟨?_, fun q => ?_, ?_, fun x => ?_, fun k c => ?_, fun k c => ?_⟩
  · rw [hentry, hserved]
    exact h.paired
  · obtain ⟨hworking, hindex, hwrite, hread⟩ := hbank q
    rw [hworking, hindex, hwrite, hread]
    exact h.flagged q
  · rw [hentry]
    exact h.address
  · rw [hentry, hsize]
    exact h.inside x
  · rw [hscheduled, hsize, hqueue]
    exact h.counted k c
  · rw [hoccupancy, hsize, hqueue]
    exact h.occupied k c

theorem initial_booked (config : Config) : Booked config (Controller.initial R config) := by
  refine ⟨paired_none, fun p hp => ?_, fun x hx => ?_, fun x hx => ?_, fun k c => ?_, fun k c => ?_⟩
  · cases hp
  · cases hx
  · exact absurd rfl hx
  · exact (tally_eq_zero fun _ _ => rfl).symm
  · exact (tally_eq_zero fun _ _ => rfl).symm

end Change

section Queues

variable {q : PacketQueue R} {f : Request R → Bool} {i m : Nat}

theorem earliest_cases (q : PacketQueue R) (f : Request R → Bool) : q.earliest f = (none, maxCycle) ∨
    ∃ i, i < q.size ∧ f (q.entry i) = true ∧ q.earliest f = (some i, (q.entry i).eventCycle) := by
  have hfold : ∀ (l : List Nat) (best : Option Nat × Nat), (∀ i ∈ l, i < q.size) →
      (best = (none, maxCycle) ∨ ∃ i, i < q.size ∧ f (q.entry i) = true ∧ best = (some i, (q.entry i).eventCycle)) →
      let last := l.foldl (fun best i =>
        if f (q.entry i) && decide ((q.entry i).eventCycle < best.2) then (some i, (q.entry i).eventCycle) else best) best
      last = (none, maxCycle) ∨ ∃ i, i < q.size ∧ f (q.entry i) = true ∧ last = (some i, (q.entry i).eventCycle) := by
    intro l
    induction l with
    | nil => exact fun best _ hbest => hbest
    | cons i l ih =>
        intro best hl hbest
        rw [List.foldl_cons]
        apply ih _ (fun j hj => hl j (List.mem_cons_of_mem i hj))
        by_cases hi : (f (q.entry i) && decide ((q.entry i).eventCycle < best.2)) = true
        · rw [if_pos hi]
          exact .inr ⟨i, hl i List.mem_cons_self, (Bool.and_eq_true_iff.mp hi).1, rfl⟩
        · rw [if_neg hi]
          exact hbest
  exact hfold _ _ (fun i hi => List.mem_range.mp hi) (.inl rfl)

theorem earliest_some (h : (q.earliest f).1 = some i) : i < q.size ∧ f (q.entry i) = true := by
  rcases earliest_cases q f with hnone | ⟨j, hj, hf, hsome⟩
  · rw [hnone] at h
    cases h
  · rw [hsome, Option.some.injEq] at h
    exact h ▸ ⟨hj, hf⟩

/-- The next request to process is none, or a scheduled one. -/
def NextScheduled (q : PacketQueue R) : Prop :=
  q.nextProcessIndex = q.size ∨ q.nextProcessIndex < q.size ∧ (q.entry q.nextProcessIndex).scheduled = true

theorem updateProcessCycle_next (q : PacketQueue R) : NextScheduled q.updateProcessCycle := by
  rcases earliest_cases q (fun e => e.scheduled) with hnone | ⟨j, hj, hf, hsome⟩
  · left
    simp only [PacketQueue.updateProcessCycle, hnone, Option.getD_none]
  · right
    simp only [PacketQueue.updateProcessCycle, hsome, Option.getD_some]
    exact ⟨hj, hf⟩

@[simp] theorem updateScheduleCycle_entry (q : PacketQueue R) : q.updateScheduleCycle.entry = q.entry := rfl

@[simp] theorem updateScheduleCycle_size (q : PacketQueue R) : q.updateScheduleCycle.size = q.size := rfl

@[simp] theorem updateScheduleCycle_occupancy (q : PacketQueue R) : q.updateScheduleCycle.occupancy = q.occupancy := rfl

@[simp] theorem updateProcessCycle_entry (q : PacketQueue R) : q.updateProcessCycle.entry = q.entry := rfl

@[simp] theorem updateProcessCycle_size (q : PacketQueue R) : q.updateProcessCycle.size = q.size := rfl

@[simp] theorem updateProcessCycle_occupancy (q : PacketQueue R) : q.updateProcessCycle.occupancy = q.occupancy := rfl

end Queues

end Thermometer.DramBooks
