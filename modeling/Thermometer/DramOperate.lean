import Thermometer.DramBooks

namespace Thermometer.DramOperate

open Lib Pairing Tally Packets DramModel DramModel.Controller DramBooks

variable {R : Type}

def Served (mode : Nat → Kind) (s : Controller R) : Prop := ∀ x, (entryAt s x).scheduled = true → x.kind = mode x.channel

/-- The next request to process is one, unless no cycle has been set for it. -/
def Ready (q : PacketQueue R) : Prop := NextScheduled q ∨ q.nextProcessCycle = maxCycle

structure Sound (config : Config) (mode : Nat → Kind) (s : Controller R) : Prop where
  booked : Booked config s
  served : Served mode s
  ready : ∀ k c, Ready (s.queue k c)

section Set

variable {config : Config} {s s' : Controller R} {mode : Nat → Kind} {k : Kind} {c i : Nat} {q : PacketQueue R}
  {e : Request R} {p : Place} {b : BankRequest}

theorem setQueue_queue (s : Controller R) (k k' : Kind) (c c' : Nat) (q : PacketQueue R) :
    (s.setQueue k c q).queue k' c' = if k' = k ∧ c' = c then q else s.queue k' c' := by
  simp only [setQueue]
  by_cases hk : k' = k
  · subst hk
    by_cases hc : c' = c
    · subst hc
      simp
    · simp [hc]
  · simp [hk]

theorem updateScheduled_scheduled (s : Controller R) (k k' : Kind) (c c' : Nat) (f : Nat → Nat) :
    (s.updateScheduled k c f).scheduled k' c' = if k' = k ∧ c' = c then f (s.scheduled k c) else s.scheduled k' c' := by
  simp only [updateScheduled]
  by_cases hk : k' = k
  · subst hk
    by_cases hc : c' = c
    · subst hc
      simp
    · simp [hc]
  · simp [hk]

/-- One queue is set to what it was but for one request. -/
theorem changed_set (hqueue : s'.queue = (s.setQueue k c q).queue)
    (hentry : q.entry = Function.update (s.queue k c).entry i e)
    (hsize : q.size = (s.queue k c).size)
    (hoccupancy : q.occupancy + (if ((s.queue k c).entry i).address ≠ 0 then 1 else 0) =
      (s.queue k c).occupancy + if e.address ≠ 0 then 1 else 0)
    (hbank : s'.bank = Function.update s.bank p b)
    (hscheduled : ∀ k' c', s'.scheduled k' c' +
      (if k' = k ∧ c' = c ∧ ((s.queue k c).entry i).scheduled = true then 1 else 0) =
      s.scheduled k' c' + if k' = k ∧ c' = c ∧ e.scheduled = true then 1 else 0) :
    Changed s s' ⟨k, c, i⟩ e p b := by
  refine ⟨?_, hbank, fun k' c' => ?_, hscheduled, fun k' c' => ?_⟩
  · funext x
    obtain ⟨k', c', j⟩ := x
    simp only [entryAt, hqueue, setQueue_queue]
    by_cases hkc : k' = k ∧ c' = c
    · obtain ⟨rfl, rfl⟩ := hkc
      rw [if_pos ⟨rfl, rfl⟩, hentry]
      by_cases hj : j = i
      · subst hj
        rw [Function.update_self]
        exact (Function.update_self (Slot.mk k' c' j) e (entryAt s)).symm
      · rw [Function.update_of_ne hj, Function.update_of_ne]
        · rfl
        · exact fun hx => hj (congrArg Slot.index hx)
    · rw [if_neg hkc, Function.update_of_ne]
      · rfl
      · exact fun hx => hkc ⟨congrArg Slot.kind hx, congrArg Slot.channel hx⟩
  · rw [hqueue, setQueue_queue]
    by_cases hkc : k' = k ∧ c' = c
    · obtain ⟨rfl, rfl⟩ := hkc
      rw [if_pos ⟨rfl, rfl⟩]
      exact hsize
    · rw [if_neg hkc]
  · rw [hqueue, setQueue_queue]
    by_cases hkc : k' = k ∧ c' = c
    · obtain ⟨rfl, rfl⟩ := hkc
      simpa only [entryAt, and_self, true_and, if_true] using hoccupancy
    · have hno : ∀ r : Prop, ¬(k' = k ∧ c' = c ∧ r) := fun r hr => hkc ⟨hr.1, hr.2.1⟩
      rw [if_neg hkc, if_neg (hno _), if_neg (hno _)]

theorem served_changed {x : Slot} (h : Served mode s) (hc : Changed s s' x e p b)
    (hx : e.scheduled = true → x.kind = mode x.channel) : Served mode s' := by
  intro y hy
  rw [hc.entry] at hy
  by_cases hyx : y = x
  · subst hyx
    rw [Function.update_self] at hy
    exact hx hy
  · rw [Function.update_of_ne hyx] at hy
    exact h y hy

theorem ready_set (h : ∀ k c, Ready (s.queue k c)) (hqueue : s'.queue = (s.setQueue k c q).queue) (hq : Ready q) (k' : Kind)
    (c' : Nat) : Ready (s'.queue k' c') := by
  rw [hqueue, setQueue_queue]
  by_cases hkc : k' = k ∧ c' = c
  · rw [if_pos hkc]
    exact hq
  · rw [if_neg hkc]
    exact h k' c'

end Set

section Start

variable {config : Config} {clock : Clock} {s s' : Controller R} {mode : Nat → Kind} {k : Kind} {c i : Nat} {hit : Bool}

theorem canStart_iff {e : Request R} : s.canStart config e = true ↔
    e.scheduled = false ∧ e.address ≠ 0 ∧ (s.bank (placeOf config e.address)).working = false := by
  simp [canStart, and_assoc]

theorem start_sound (h : Sound config mode s) (hmode : k = mode c) (hi : i < (s.queue k c).size)
    (hcan : s.canStart config ((s.queue k c).entry i) = true) : Sound config mode (s.start config clock k c i hit) := by
  obtain ⟨hunscheduled, haddr, hfree⟩ := canStart_iff.mp hcan
  have hchannel : dramGetChannel config ((s.queue k c).entry i).address = c := (h.booked.inside ⟨k, c, i⟩ haddr).2
  have hchanged : Changed s (s.start config clock k c i hit) ⟨k, c, i⟩
      { (s.queue k c).entry i with scheduled := true, eventCycle := availableAt config clock ((s.queue k c).entry i) hit }
      (placeOf config ((s.queue k c).entry i).address)
      (startBank config k ((s.queue k c).entry i) i (availableAt config clock ((s.queue k c).entry i) hit) hit
        (s.bank (placeOf config ((s.queue k c).entry i).address))) := by
    refine changed_set rfl rfl rfl ?_ rfl fun k' c' => ?_
    · rfl
    · change ((s.updateScheduled k (dramGetChannel config ((s.queue k c).entry i).address) (· + 1)).scheduled k' c') + _ = _
      rw [hchannel, updateScheduled_scheduled, hunscheduled]
      by_cases hkc : k' = k ∧ c' = c
      · obtain ⟨rfl, rfl⟩ := hkc
        simp
      · have hno : ∀ r : Prop, ¬(k' = k ∧ c' = c ∧ r) := fun r hr => hkc ⟨hr.1, hr.2.1⟩
        rw [if_neg hkc, if_neg (hno _), if_neg (hno _)]
  refine ⟨h.booked.changed hchanged hi ?_ ?_ ?_ ?_, served_changed h.served hchanged fun _ => hmode,
    ready_set h.ready rfl (.inl (updateProcessCycle_next _))⟩
  · have hplace : (⟨if k == .write then .write else .read, (placeOf config ((s.queue k c).entry i).address).channel, i⟩ : Slot) =
        ⟨k, c, i⟩ := by
      cases k <;> exact congrArg (fun d => Slot.mk _ d i) hchannel
    have hnone : placed config (entryAt s ⟨k, c, i⟩) = none := placed_none.mpr hunscheduled
    have hassign := h.booked.paired.assign (a := ⟨k, c, i⟩) (b := placeOf config ((s.queue k c).entry i).address)
      hnone (served_none.mpr hfree)
    rw [← hplace] at hassign ⊢
    exact hassign
  · intro _
    refine ⟨Int.natCast_nonneg i, ?_⟩
    cases k <;> rfl
  · exact fun _ => haddr
  · exact fun _ => hchannel

theorem schedule_writeMode : (s.schedule config clock k c).writeMode = s.writeMode := by
  simp only [schedule]
  split
  · rfl
  · split <;> rfl

theorem schedule_sound (h : Sound config mode s) (hmode : k = mode c) : Sound config mode (s.schedule config clock k c) := by
  simp only [schedule]
  cases hhit : ((s.queue k c).earliest (s.hitsOpenRow config)).1 with
  | some i =>
      obtain ⟨hi, hopen⟩ := earliest_some hhit
      exact start_sound h hmode hi (Bool.and_eq_true_iff.mp hopen).1
  | none =>
      cases hcan : ((s.queue k c).earliest (s.canStart config)).1 with
      | some i =>
          obtain ⟨hi, hstart⟩ := earliest_some hcan
          exact start_sound h hmode hi hstart
      | none => exact h

end Start

section Finish

variable {config : Config} {clock : Clock} {s s' : Controller R} {mode : Nat → Kind} {k : Kind} {c i : Nat} {e : Request R}
  {p : Place} {b : BankRequest}

/-- A scheduled request and its bank. -/
structure AtBank (config : Config) (s : Controller R) (k : Kind) (c i : Nat) (p : Place) : Prop where
  place : placeOf config ((s.queue k c).entry i).address = p
  address : ((s.queue k c).entry i).address ≠ 0
  inside : i < (s.queue k c).size
  channel : p.channel = c
  working : (s.bank p).working = true
  requestIndex : (s.bank p).requestIndex = i
  isWrite : (s.bank p).isWrite = (k == .write)
  isRead : (s.bank p).isRead = (k == .read)

theorem Booked.atBank (h : Booked config s) (hs : ((s.queue k c).entry i).scheduled = true) :
    AtBank config s k c i (placeOf config ((s.queue k c).entry i).address) := by
  have haddr := h.address ⟨k, c, i⟩ hs
  obtain ⟨hi, hchannel⟩ := h.inside ⟨k, c, i⟩ haddr
  have hserved := (h.paired ⟨k, c, i⟩ _).mp (placed_some.mpr ⟨hs, rfl⟩)
  simp only [DramBooks.served, Option.ite_none_right_eq_some, Option.some.injEq, Slot.mk.injEq] at hserved
  obtain ⟨hworking, hkind, -, hindex⟩ := hserved
  obtain ⟨hnonneg, hread⟩ := h.flagged _ hworking
  have hwrite : (s.bank (placeOf config ((s.queue k c).entry i).address)).isWrite = (k == .write) := by
    cases hw : (s.bank (placeOf config ((s.queue k c).entry i).address)).isWrite with
    | true =>
        have hk : Kind.write = k := by
          simpa only [entryAt, hw, if_true] using hkind
        rw [← hk]
        rfl
    | false =>
        have hk : Kind.read = k := by
          simpa only [entryAt, hw, Bool.false_eq_true, if_false] using hkind
        rw [← hk]
        rfl
  refine ⟨rfl, haddr, hi, hchannel, hworking, ?_, hwrite, ?_⟩
  · exact (Int.toNat_of_nonneg hnonneg).symm.trans (congrArg Int.ofNat hindex)
  · refine hread.trans ?_
    change (!(s.bank (placeOf config ((s.queue k c).entry i).address)).isWrite) = _
    rw [hwrite]
    cases k <;> rfl

theorem released_booked (h : Booked config s) (hs : ((s.queue k c).entry i).scheduled = true)
    (hc : Changed s s' ⟨k, c, i⟩ e (placeOf config ((s.queue k c).entry i).address) b) (he : e.scheduled = false)
    (hb : b.working = false) (haddr : e.address ≠ 0 → e.address = ((s.queue k c).entry i).address) : Booked config s' := by
  have hat := Booked.atBank h hs
  have hplaced : placed config (entryAt s ⟨k, c, i⟩) = some (placeOf config ((s.queue k c).entry i).address) :=
    placed_some.mpr ⟨hs, rfl⟩
  refine h.changed hc hat.inside ?_ (fun hw => ?_) (fun hsch => ?_) (fun hne => ?_)
  · rw [placed_none.mpr he, served_none.mpr hb]
    exact h.paired.release (a := ⟨k, c, i⟩) hplaced
  · rw [hb] at hw
    cases hw
  · rw [he] at hsch
    cases hsch
  · rw [haddr hne]
    exact (h.inside ⟨k, c, i⟩ hat.address).2

theorem counter_pos (h : Booked config s) (hs : ((s.queue k c).entry i).scheduled = true) : 0 < s.scheduled k c := by
  rw [h.counted]
  exact tally_pos (Booked.atBank h hs).inside hs

theorem occupancy_pos (h : Booked config s) (hs : ((s.queue k c).entry i).scheduled = true) :
    0 < (s.queue k c).occupancy := by
  rw [h.occupied]
  have hat := Booked.atBank h hs
  exact tally_pos hat.inside (bne_iff_ne.mpr hat.address)

theorem uncounted (h : Booked config s) (hs : ((s.queue k c).entry i).scheduled = true) (k' : Kind) (c' : Nat) :
    (s.updateScheduled k c (· - 1)).scheduled k' c' +
      (if k' = k ∧ c' = c ∧ ((s.queue k c).entry i).scheduled = true then 1 else 0) = s.scheduled k' c' := by
  have hpos := counter_pos h hs
  rw [updateScheduled_scheduled, hs]
  by_cases hkc : k' = k ∧ c' = c
  · obtain ⟨rfl, rfl⟩ := hkc
    simp only [and_self, if_true]
    omega
  · have hno : ∀ r : Prop, ¬(k' = k ∧ c' = c ∧ r) := fun r hr => hkc ⟨hr.1, hr.2.1⟩
    rw [if_neg hkc, if_neg (hno _)]
    rfl

@[simp] theorem answer_queue (s : Controller R) (k : Kind) (packet : Packet R) : (s.answer k packet).queue = s.queue := by
  simp only [answer]
  split_ifs <;> rfl

@[simp] theorem answer_bank (s : Controller R) (k : Kind) (packet : Packet R) : (s.answer k packet).bank = s.bank := by
  simp only [answer]
  split_ifs <;> rfl

@[simp] theorem answer_scheduled (s : Controller R) (k : Kind) (packet : Packet R) :
    (s.answer k packet).scheduled = s.scheduled := by
  simp only [answer]
  split_ifs <;> rfl

@[simp] theorem answer_writeMode (s : Controller R) (k : Kind) (packet : Packet R) :
    (s.answer k packet).writeMode = s.writeMode := by
  simp only [answer]
  split_ifs <;> rfl

theorem transfer_sound (h : Sound config mode s) (hs : ((s.queue k c).entry i).scheduled = true) {q : PacketQueue R}
    (hq : (s.queue k c).removeQueue i = some q) : Sound config mode (s.transfer config clock k c i q) := by
  simp only [PacketQueue.removeQueue, Option.ite_none_left_eq_some, Option.some.injEq] at hq
  obtain ⟨-, hq⟩ := hq
  have hat := Booked.atBank h.booked hs
  have hoccupied := occupancy_pos h.booked hs
  have hqueue : (s.transfer config clock k c i q).queue = (s.setQueue k c q.updateProcessCycle).queue := by
    simp only [transfer, setQueue, updateScheduled, updateBank, setDbus, answer_queue]
  have hchanged : Changed s (s.transfer config clock k c i q) ⟨k, c, i⟩ ({} : Request R)
      (placeOf config ((s.queue k c).entry i).address)
      (freeBank (s.bank (placeOf config ((s.queue k c).entry i).address))) := by
    refine changed_set hqueue ?_ ?_ ?_ ?_ fun k' c' => ?_
    · exact hq ▸ rfl
    · exact hq ▸ rfl
    · have hless : q.updateProcessCycle.occupancy = (s.queue k c).occupancy - 1 := hq ▸ rfl
      rw [hless, if_pos hat.address, if_neg (not_not.mpr rfl)]
      omega
    · simp only [transfer, setQueue, updateScheduled, updateBank, setDbus, answer_bank]
    · have hcount := uncounted h.booked hs k' c'
      have hscheduled : (s.transfer config clock k c i q).scheduled = (s.updateScheduled k c (· - 1)).scheduled := by
        simp only [transfer, setQueue, updateScheduled, updateBank, setDbus, answer_scheduled, hat.channel]
      rw [hscheduled, hcount, if_neg (fun hno => Bool.false_ne_true hno.2.2)]
      rfl
  exact ⟨released_booked h.booked hs hchanged rfl rfl (fun hne => absurd rfl hne),
    served_changed h.served hchanged (fun hno => absurd hno Bool.false_ne_true),
    ready_set h.ready hqueue (.inl (updateProcessCycle_next q))⟩

theorem process_sound (h : Sound config mode s) (hi : (s.queue k c).nextProcessIndex < (s.queue k c).size)
    (hs : ((s.queue k c).entry (s.queue k c).nextProcessIndex).scheduled = true) :
    ∃ s', s.process config clock k c = some s' ∧ Sound config mode s' ∧ s'.writeMode = s.writeMode := by
  have hat := Booked.atBank h.booked hs
  simp only [process, if_neg (Nat.ne_of_lt hi), hat.requestIndex, ne_eq, not_true_eq_false, if_false]
  by_cases hdone : (s.bank (placeOf config ((s.queue k c).entry (s.queue k c).nextProcessIndex).address)).cycleAvailable ≤
      clock.cycle ((s.queue k c).entry (s.queue k c).nextProcessIndex).cpu
  swap
  · rw [if_neg hdone]
    exact ⟨s, rfl, h, rfl⟩
  rw [if_pos hdone]
  by_cases hbus : s.dbusCycleAvailable (placeOf config ((s.queue k c).entry (s.queue k c).nextProcessIndex).address).channel ≤
      clock.cycle ((s.queue k c).entry (s.queue k c).nextProcessIndex).cpu
  · have hoccupied := occupancy_pos h.booked hs
    have hnonempty : ¬((s.queue k c).occupancy = 0 ∧ (s.queue k c).head = (s.queue k c).tail) :=
      fun hempty => Nat.ne_of_gt hoccupied hempty.1
    rw [if_pos hbus]
    cases hq : (s.queue k c).removeQueue (s.queue k c).nextProcessIndex with
    | none =>
        rw [PacketQueue.removeQueue, if_neg hnonempty] at hq
        cases hq
    | some q =>
        refine ⟨_, rfl, transfer_sound h hs hq, ?_⟩
        simp only [transfer, setQueue, updateScheduled, updateBank, setDbus, answer_writeMode]
  · rw [if_neg hbus]
    refine ⟨_, rfl, ⟨h.booked.unchanged rfl (fun p => ?_) (fun _ _ => rfl) rfl (fun _ _ => rfl), h.served, h.ready⟩, rfl⟩
    by_cases hp : p = placeOf config ((s.queue k c).entry (s.queue k c).nextProcessIndex).address
    · subst hp
      simp only [updateBank, Function.update_self, and_self]
    · simp only [updateBank, Function.update_of_ne hp, and_self]

theorem isNext_iff {index cycle : Nat} : s.isNext clock k c index cycle = true ↔
    s.mode c = k ∧ index < (s.queue k c).size ∧ cycle ≤ clock.cycle ((s.queue k c).entry index).cpu := by
  simp [isNext, and_assoc]

theorem processNext_sound (h : Sound config mode s) :
    ∃ s', s.processNext config clock k c = some s' ∧ Sound config mode s' ∧ s'.writeMode = s.writeMode := by
  simp only [processNext]
  by_cases hnext : s.isNext clock k c (s.queue k c).nextProcessIndex (s.queue k c).nextProcessCycle = true
  · rw [if_pos hnext]
    obtain ⟨-, hi, hcycle⟩ := isNext_iff.mp hnext
    rcases h.ready k c with (hnone | ⟨-, hs⟩) | hmax
    · exact absurd hnone (Nat.ne_of_lt hi)
    · exact process_sound h hi hs
    · -- no core has reached the cycle that stands for none
      rw [hmax] at hcycle
      exact absurd hcycle (Nat.not_le_of_lt (clock.lt_max _))
  · rw [if_neg hnext]
    exact ⟨s, rfl, h, rfl⟩

end Finish

end Thermometer.DramOperate
