import Thermometer.DramReset

namespace Thermometer.DramConsistent

open Lib Pairing Tally Runs Packets DramModel DramModel.Controller DramBooks DramOperate DramReset

variable {R : Type}

section Steps

variable {config : Config} (clock : Clock) {s s' : Controller R} {k : Kind} {c : Nat} {packet : Packet R}

theorem sound_of_writeMode (h : Sound config s.mode s') (hmode : s'.writeMode = s.writeMode) : Sound config s'.mode s' := by
  have heq : s'.mode = s.mode := by
    funext d
    simp only [mode, hmode]
  exact heq ▸ h

theorem scheduleNext_sound (h : Sound config s.mode s) :
    Sound config (s.scheduleNext config clock k c).mode (s.scheduleNext config clock k c) := by
  simp only [scheduleNext]
  by_cases hnext : s.isNext clock k c (s.queue k c).nextScheduleIndex (s.queue k c).nextScheduleCycle = true
  · rw [if_pos hnext]
    exact sound_of_writeMode (schedule_sound h (isNext_iff.mp hnext).1.symm) schedule_writeMode
  · rw [if_neg hnext]
    exact h

theorem serve_sound (h : Sound config s.mode s) (k : Kind) :
    ∃ s', (s.scheduleNext config clock k c).processNext config clock k c = some s' ∧ Sound config s'.mode s' := by
  obtain ⟨s', hs', hsound, hmode⟩ := processNext_sound (scheduleNext_sound clock h)
  exact ⟨s', hs', sound_of_writeMode hsound hmode⟩

theorem operateChannel_sound (h : Sound config s.mode s) :
    ∃ s', s.operateChannel config clock c = some s' ∧ Sound config s'.mode s' := by
  obtain ⟨s₁, h₁, hsound₁⟩ := switchMode_sound clock (c := c) h
  obtain ⟨s₂, h₂, hsound₂⟩ := serve_sound clock hsound₁ .write
  obtain ⟨s₃, h₃, hsound₃⟩ := serve_sound clock hsound₂ .read
  refine ⟨s₃, ?_, hsound₃⟩
  rw [operateChannel, h₁, Option.bind_some, h₂, Option.bind_some, h₃]

theorem operate_sound (h : Sound config s.mode s) : ∃ s', s.operate config clock = some s' ∧ Sound config s'.mode s' :=
  run_total (I := fun s => Sound config s.mode s) (fun _ _ _ hs => operateChannel_sound clock hs) h

theorem cycles_sound {q : PacketQueue R} (h : Sound config s.mode s) (hentry : q.entry = (s.queue k c).entry)
    (hsize : q.size = (s.queue k c).size) (hoccupancy : q.occupancy = (s.queue k c).occupancy) (hq : Ready q) :
    Sound config s.mode (s.setQueue k c q) := by
  have hsame : entryAt (s.setQueue k c q) = entryAt s := by
    funext x
    simp only [entryAt, setQueue_queue]
    by_cases hx : x.kind = k ∧ x.channel = c
    · rw [if_pos hx, hentry, hx.1, hx.2]
    · rw [if_neg hx]
  refine ⟨h.booked.unchanged hsame (fun _ => ⟨rfl, rfl, rfl, rfl⟩) (fun k' c' => ?_) rfl (fun k' c' => ?_), ?_,
    ready_set h.ready rfl hq⟩
  · rw [setQueue_queue]
    by_cases hkc : k' = k ∧ c' = c
    · rw [if_pos hkc, hsize, hkc.1, hkc.2]
    · rw [if_neg hkc]
  · rw [setQueue_queue]
    by_cases hkc : k' = k ∧ c' = c
    · rw [if_pos hkc, hoccupancy, hkc.1, hkc.2]
    · rw [if_neg hkc]
  · rw [Served, hsame]
    exact h.served

/-- A packet joins an entry that is empty. -/
theorem insert_sound (h : Sound config s.mode s) (haddr : packet.address ≠ 0)
    (hchannel : dramGetChannel config packet.address = c) :
    Sound config s.mode (s.setQueue k c ((s.queue k c).insert packet).updateScheduleCycle) := by
  cases hfind : (List.range (s.queue k c).size).find? (fun i => ((s.queue k c).entry i).address == 0) with
  | none =>
      simp only [PacketQueue.insert, hfind]
      exact cycles_sound h rfl rfl rfl (h.ready k c)
  | some i =>
      have hi := List.mem_range.mp (List.mem_of_find?_eq_some hfind)
      have hempty : ((s.queue k c).entry i).address = 0 := by
        simpa only [beq_iff_eq] using List.find?_some hfind
      have hunscheduled : ((s.queue k c).entry i).scheduled = false :=
        Bool.eq_false_iff.mpr fun hs => h.booked.address ⟨k, c, i⟩ hs hempty
      simp only [PacketQueue.insert, hfind]
      have hchanged : Changed s (s.setQueue k c (PacketQueue.updateScheduleCycle
          { (s.queue k c).modify i (fun _ => { packet with }) with occupancy := (s.queue k c).occupancy + 1 }))
          ⟨k, c, i⟩ { packet with } ⟨0, 0, 0⟩ (s.bank ⟨0, 0, 0⟩) := by
        refine changed_set rfl rfl rfl ?_ (Function.update_eq_self _ _).symm fun k' c' => ?_
        · rw [if_neg (not_not.mpr hempty), if_pos haddr]
          rfl
        · rw [hunscheduled]
          rfl
      refine ⟨h.booked.changed hchanged hi ?_ (h.booked.flagged _) (fun hno => absurd hno Bool.false_ne_true) (fun _ => hchannel),
        served_changed h.served hchanged (fun hno => absurd hno Bool.false_ne_true), ready_set h.ready rfl ?_⟩
      · have hnone : placed config ({ packet with } : Request R) = placed config (entryAt s ⟨k, c, i⟩) :=
          (placed_none.mpr rfl).trans (placed_none.mpr hunscheduled).symm
        rw [hnone, Function.update_eq_self, Function.update_eq_self]
        exact h.booked.paired
      · refine (h.ready k c).imp_left (Or.imp_right fun hnext => ⟨hnext.1, ?_⟩)
        have hne : (s.queue k c).nextProcessIndex ≠ i := by
          intro heq
          rw [heq, hunscheduled] at hnext
          cases hnext.2
        exact (congrArg Request.scheduled (Function.update_of_ne hne _ _)).trans hnext.2

theorem add_sound (h : Sound config s.mode s) (haddr : packet.address ≠ 0) :
    Sound config s.mode (s.addRq config packet).1 ∧ Sound config s.mode (s.addWq config packet).1 := by
  have hreturn : ∀ packet : Packet R, Sound config s.mode (s.returnData packet) := fun _ =>
    ⟨h.booked.unchanged rfl (fun _ => ⟨rfl, rfl, rfl, rfl⟩) (fun _ _ => rfl) rfl (fun _ _ => rfl), h.served, h.ready⟩
  constructor
  · simp only [addRq]
    by_cases hwarm : s.warm = true
    · rw [if_pos hwarm]
      cases (s.queue .write (dramGetChannel config packet.address)).checkDramQueue packet with
      | some i => exact hreturn _
      | none =>
          cases (s.queue .read (dramGetChannel config packet.address)).checkDramQueue packet with
          | some i => exact h
          | none => exact insert_sound h haddr rfl
    · rw [if_neg hwarm]
      exact hreturn packet
  · simp only [addWq]
    by_cases hwarm : s.warm = true
    · rw [if_pos hwarm]
      cases (s.queue .write (dramGetChannel config packet.address)).checkDramQueue packet with
      | some i => exact h
      | none => exact insert_sound h haddr rfl
    · rw [if_neg hwarm]
      exact h

theorem add_mode (packet : Packet R) :
    (s.addRq config packet).1.writeMode = s.writeMode ∧ (s.addWq config packet).1.writeMode = s.writeMode := by
  constructor
  · simp only [addRq]
    split_ifs
    · cases (s.queue .write (dramGetChannel config packet.address)).checkDramQueue packet with
      | some i => rfl
      | none => cases (s.queue .read (dramGetChannel config packet.address)).checkDramQueue packet <;> rfl
    · rfl
  · simp only [addWq]
    split_ifs
    · cases (s.queue .write (dramGetChannel config packet.address)).checkDramQueue packet <;> rfl
    · rfl

theorem step_sound {e : Event R} (h : Sound config s.mode s) :
    ∃ s', step config s e = some s' ∧ Sound config s'.mode s' := by
  cases e with
  | addRq packet haddr => exact ⟨_, rfl, sound_of_writeMode (add_sound h haddr).1 (add_mode packet).1⟩
  | addWq packet haddr => exact ⟨_, rfl, sound_of_writeMode (add_sound h haddr).2 (add_mode packet).2⟩
  | operate clock => exact operate_sound clock h
  | warmUp =>
      exact ⟨_, rfl, h.booked.unchanged rfl (fun _ => ⟨rfl, rfl, rfl, rfl⟩) (fun _ _ => rfl) rfl (fun _ _ => rfl), h.served,
        h.ready⟩

theorem initial_sound (config : Config) :
    Sound config (Controller.initial R config).mode (Controller.initial R config) :=
  ⟨initial_booked config, fun _ hx => absurd hx Bool.false_ne_true, fun _ _ => .inr rfl⟩

end Steps

def ScheduledAt (config : Config) (s : Controller R) (p : Place) (k : Kind) (i : Nat) : Prop :=
  i < (s.queue k p.channel).size ∧ ((s.queue k p.channel).entry i).scheduled = true ∧
    placeOf config ((s.queue k p.channel).entry i).address = p

/-- The four parts of the bookkeeping agree. -/
structure Consistent (config : Config) (s : Controller R) (next : PacketQueue R → Prop) : Prop where
  working : ∀ p, (s.bank p).working = true →
    ∃ i : Nat, (s.bank p).requestIndex = i ∧ ∀ k j, ScheduledAt config s p k j ↔ k = s.mode p.channel ∧ j = i
  scheduled : ∀ k c i, i < (s.queue k c).size → ((s.queue k c).entry i).scheduled = true →
    ∃ p, p.channel = c ∧ ScheduledAt config s p k i ∧ (s.bank p).working = true
  served : ∀ k c i, i < (s.queue k c).size → ((s.queue k c).entry i).scheduled = true → k = s.mode c
  counted : ∀ k c, s.scheduled k c = tally isScheduled (s.queue k c).size (s.queue k c).entry
  next : ∀ k c, next (s.queue k c)

theorem Sound.consistent {config : Config} {s : Controller R} (h : Sound config s.mode s) : Consistent config s Ready := by
  refine ⟨fun p hp => ?_, fun k c i hi hs => ?_, fun k c i _ hs => h.served ⟨k, c, i⟩ hs, h.booked.counted, h.ready⟩
  · have hserved : DramBooks.served p (s.bank p) =
        some ⟨if (s.bank p).isWrite then .write else .read, p.channel, (s.bank p).requestIndex.toNat⟩ := if_pos hp
    obtain ⟨hs, hplace⟩ := placed_some.mp ((h.booked.paired _ p).mpr hserved)
    have hkind := h.served _ hs
    refine ⟨(s.bank p).requestIndex.toNat, (Int.toNat_of_nonneg (h.booked.flagged p hp).1).symm, fun k j => ?_⟩
    rw [← hkind]
    constructor
    · rintro ⟨-, hj, hjplace⟩
      have hplaced : placed config (entryAt s ⟨k, p.channel, j⟩) = some p := placed_some.mpr ⟨hj, hjplace⟩
      have hsame := h.booked.paired.unique (placed_some.mpr ⟨hs, hplace⟩) hplaced
      exact ⟨congrArg Slot.kind hsame.symm, congrArg Slot.index hsame.symm⟩
    · rintro ⟨rfl, rfl⟩
      exact ⟨(h.booked.inside _ (h.booked.address _ hs)).1, hs, hplace⟩
  · have hat := Booked.atBank h.booked hs
    have hchannel : (placeOf config ((s.queue k c).entry i).address).channel = c := hat.channel
    refine ⟨_, hchannel, ?_, hat.working⟩
    rw [ScheduledAt, hchannel]
    exact ⟨hi, hs, rfl⟩

/-- Whatever arrives and whenever the controller operates, no assertion fails and the bookkeeping agrees. -/
theorem bookkeeping_agrees (config : Config) (events : List (Event R)) :
    ∃ s, run (step config) (Controller.initial R config) events = some s ∧ Consistent config s Ready := by
  have hrun : ∃ s, run (step config) (Controller.initial R config) events = some s ∧ Sound config s.mode s :=
    run_total (I := fun s => Sound config s.mode s) (fun _ _ _ hi => step_sound hi) (initial_sound config)
  obtain ⟨s, hs, hsound⟩ := hrun
  exact ⟨s, hs, Sound.consistent hsound⟩

/-- One channel of eight banks, with two places in each queue. -/
def oneChannel : Config where
  channels := 1
  ranks := 1
  banks := 8
  columns := 128
  rows := 65536
  size := fun _ => 2
  tRP := 50
  tRCD := 50
  tCAS := 50
  dbusReturnTime := 10
  dbusTurnAroundTime := 30

/-- The first request after the warmup. -/
def firstRead : List (Event Nat) :=
  [.warmUp, .addRq { address := 5, fullAddr := 320, cpu := 0, eventCycle := 100, toReturn := [0] } (Nat.succ_ne_zero 4)]

theorem next_unscheduled : ¬∀ s, run (step oneChannel) (Controller.initial Nat oneChannel) firstRead = some s →
    Consistent oneChannel s NextScheduled := by
  intro h
  have hrun : (run (step oneChannel) (Controller.initial Nat oneChannel) firstRead).any (fun s =>
      (s.queue .read 0).nextProcessIndex == 0 && (s.queue .read 0).size == 2 &&
        !((s.queue .read 0).entry 0).scheduled) = true := by
    decide +kernel
  obtain ⟨s, hs, hfacts⟩ := (Option.any_eq_true _ _).mp hrun
  simp only [Bool.and_eq_true, beq_iff_eq, Bool.not_eq_true'] at hfacts
  obtain ⟨⟨hindex, hsize⟩, hunscheduled⟩ := hfacts
  rcases (h s hs).next .read 0 with hnone | ⟨-, hscheduled⟩
  · rw [hindex, hsize] at hnone
    cases hnone
  · rw [hindex, hunscheduled] at hscheduled
    cases hscheduled

end Thermometer.DramConsistent
