import Thermometer.DramOperate
import Thermometer.Lib.Runs

namespace Thermometer.DramReset

open Lib Pairing Tally Runs Packets DramModel DramModel.Controller DramBooks DramOperate

variable {R : Type}

section Reset

variable {config : Config} (clock : Clock) {s s' : Controller R} {mode : Nat → Kind} {k : Kind} {c i : Nat}

/-- The requests with the indices of `l` are taken back from a queue. -/
structure TakenBack (config : Config) (k : Kind) (c : Nat) (l : List Nat) (s s' : Controller R) : Prop where
  booked : Booked config s'
  kept : ∀ x, (entryAt s' x).scheduled = true →
    (entryAt s x).scheduled = true ∧ ¬(x.kind = k ∧ x.channel = c ∧ x.index ∈ l)
  size : ∀ k c, (s'.queue k c).size = (s.queue k c).size
  other : ∀ k' c', c' ≠ c → s'.queue k' c' = s.queue k' c'
  writeMode : s'.writeMode = s.writeMode

theorem slot_eq {x : Slot} (hk : x.kind = k) (hc : x.channel = c) (hi : x.index = i) : x = ⟨k, c, i⟩ := by
  subst hk hc hi
  rfl

theorem uncount_atBank (h : Booked config s) (hs : ((s.queue k c).entry i).scheduled = true) :
    s.uncount c (s.bank (placeOf config ((s.queue k c).entry i).address)) = s.updateScheduled k c (· - 1) := by
  have hat := Booked.atBank h hs
  simp only [uncount, hat.isWrite, hat.isRead]
  cases k <;> rfl

theorem resetEntry_takenBack (h : Booked config s) : TakenBack config k c [i] s (s.resetEntry config clock k c i) := by
  by_cases hs : ((s.queue k c).entry i).scheduled = true
  · have heq : s.resetEntry config clock k c i =
        ((s.updateScheduled k c (· - 1)).updateBank (placeOf config ((s.queue k c).entry i).address)
          (resetBank config clock ((s.queue k c).entry i))).setQueue k c
          ((s.queue k c).modify i (fun e => { e with scheduled := false, eventCycle := clock.cycle e.cpu })) := by
      simp only [resetEntry, if_pos hs, uncount_atBank h hs]
    have hchanged : Changed s (s.resetEntry config clock k c i) ⟨k, c, i⟩
        { (s.queue k c).entry i with scheduled := false, eventCycle := clock.cycle ((s.queue k c).entry i).cpu }
        (placeOf config ((s.queue k c).entry i).address)
        (resetBank config clock ((s.queue k c).entry i) (s.bank (placeOf config ((s.queue k c).entry i).address))) := by
      rw [heq]
      refine changed_set rfl rfl rfl rfl rfl fun k' c' => ?_
      have hcount := uncounted h hs k' c'
      change (s.updateScheduled k c (· - 1)).scheduled k' c' + _ = _
      rw [hcount, if_neg (fun hno => Bool.false_ne_true hno.2.2)]
      rfl
    refine ⟨released_booked h hs hchanged rfl rfl (fun _ => rfl), fun x hx => ?_, hchanged.size, fun k' c' hc => ?_, ?_⟩
    · rw [hchanged.entry] at hx
      by_cases hxi : x = ⟨k, c, i⟩
      · subst hxi
        rw [Function.update_self] at hx
        cases hx
      · rw [Function.update_of_ne hxi] at hx
        exact ⟨hx, fun hslot => hxi (slot_eq hslot.1 hslot.2.1 (List.mem_singleton.mp hslot.2.2))⟩
    · rw [heq, setQueue_queue, if_neg (fun hkc => hc hkc.2)]
      rfl
    · rw [heq]
      rfl
  · have heq : s.resetEntry config clock k c i = s := by
      simp only [resetEntry, if_neg hs]
    rw [heq]
    refine ⟨h, fun x hx => ⟨hx, fun hslot => hs ?_⟩, fun _ _ => rfl, fun _ _ _ => rfl, rfl⟩
    rw [slot_eq hslot.1 hslot.2.1 (List.mem_singleton.mp hslot.2.2)] at hx
    exact hx

theorem resetEntries_takenBack (l : List Nat) (h : Booked config s) :
    TakenBack config k c l s (l.foldl (fun s i => s.resetEntry config clock k c i) s) := by
  induction l generalizing s with
  | nil => exact ⟨h, fun x hx => ⟨hx, fun hno => List.not_mem_nil hno.2.2⟩, fun _ _ => rfl, fun _ _ _ => rfl, rfl⟩
  | cons i l ih =>
      have hfirst := resetEntry_takenBack clock (k := k) (c := c) (i := i) h
      have hrest := ih hfirst.booked
      rw [List.foldl_cons]
      refine ⟨hrest.booked, fun x hx => ?_, fun k' c' => (hrest.size k' c').trans (hfirst.size k' c'),
        fun k' c' hc => (hrest.other k' c' hc).trans (hfirst.other k' c' hc), hrest.writeMode.trans hfirst.writeMode⟩
      obtain ⟨hmiddle, hlater⟩ := hrest.kept x hx
      obtain ⟨hbefore, hnow⟩ := hfirst.kept x hmiddle
      refine ⟨hbefore, fun hslot => ?_⟩
      rcases List.mem_cons.mp hslot.2.2 with hindex | hindex
      · exact hnow ⟨hslot.1, hslot.2.1, List.mem_singleton.mpr hindex⟩
      · exact hlater ⟨hslot.1, hslot.2.1, hindex⟩

theorem updateCycles_queue (s : Controller R) (c : Nat) (k' : Kind) (c' : Nat) : (s.updateCycles c).queue k' c' =
    if c' = c then (s.queue k' c').updateScheduleCycle.updateProcessCycle else s.queue k' c' := by
  simp only [updateCycles, setQueue_queue]
  by_cases hc : c' = c
  · subst hc
    cases k' <;> simp
  · simp [hc]

theorem updateCycles_booked (h : Booked config s) : Booked config (s.updateCycles c) := by
  refine h.unchanged ?_ (fun _ => ⟨rfl, rfl, rfl, rfl⟩) (fun k' c' => ?_) rfl (fun k' c' => ?_)
  · funext x
    rw [entryAt, updateCycles_queue]
    split_ifs <;> rfl
  · rw [updateCycles_queue]
    split_ifs <;> rfl
  · rw [updateCycles_queue]
    split_ifs <;> rfl

theorem updateCycles_entryAt (s : Controller R) (c : Nat) (x : Slot) : entryAt (s.updateCycles c) x = entryAt s x := by
  rw [entryAt, updateCycles_queue]
  split_ifs <;> rfl

/-- Once its queue is reset a channel may serve the other one. -/
theorem resetRemainRequests_sound (h : Sound config mode s) (hk : mode c = k) (k' : Kind) :
    ∃ s', s.resetRemainRequests config clock k c = some s' ∧ Sound config (Function.update mode c k') s' ∧
      s'.writeMode = s.writeMode := by
  have htaken := resetEntries_takenBack clock (k := k) (c := c) (List.range (s.queue k c).size) h.booked
  have hbooked := updateCycles_booked (c := c) htaken.booked
  have hnone : ∀ x : Slot, x.channel = c → (entryAt (updateCycles
      ((List.range (s.queue k c).size).foldl (fun s i => s.resetEntry config clock k c i) s) c) x).scheduled = false := by
    intro x hx
    rw [updateCycles_entryAt, Bool.eq_false_iff]
    intro hs
    obtain ⟨hbefore, hout⟩ := htaken.kept x hs
    have hkind : x.kind = k := (h.served x hbefore).trans (hx ▸ hk)
    refine hout ⟨hkind, hx, List.mem_range.mpr ?_⟩
    have hin := (h.booked.inside x (h.booked.address x hbefore)).1
    rw [hkind, hx] at hin
    exact hin
  have hzero : (updateCycles ((List.range (s.queue k c).size).foldl (fun s i => s.resetEntry config clock k c i) s) c).scheduled
      k c = 0 := by
    rw [hbooked.counted]
    exact tally_eq_zero fun i _ => hnone ⟨k, c, i⟩ rfl
  refine ⟨_, ?_, ⟨hbooked, fun x hx => ?_, fun l d => ?_⟩, htaken.writeMode⟩
  · simp only [resetRemainRequests]
    rw [if_neg (not_not.mpr hzero)]
  · by_cases hc : x.channel = c
    · rw [hnone x hc] at hx
      cases hx
    · rw [Function.update_of_ne hc]
      rw [updateCycles_entryAt] at hx
      exact h.served x (htaken.kept x hx).1
  · rw [updateCycles_queue]
    by_cases hd : d = c
    · rw [if_pos hd]
      exact .inl (updateProcessCycle_next _)
    · rw [if_neg hd, htaken.other l d hd]
      exact h.ready l d

theorem mode_setWriteMode (s s' : Controller R) (b : Bool) (hmode : s'.writeMode = (s.setWriteMode c b).writeMode) :
    s'.mode = Function.update s.mode c (if b then .write else .read) := by
  funext d
  simp only [mode, hmode, setWriteMode]
  by_cases hd : d = c
  · subst hd
    simp only [Function.update_self]
  · simp only [Function.update_of_ne hd]
    rfl

theorem switch_sound (h : Sound config s.mode s) {b : Bool} (hk : s.mode c = k) :
    ∃ s', ((s.setWriteMode c b).resetRemainRequests config clock k c).map (fun s => s.turnAround config c) = some s' ∧
      Sound config s'.mode s' := by
  have hset : Sound config s.mode (s.setWriteMode c b) :=
    ⟨h.booked.unchanged rfl (fun _ => ⟨rfl, rfl, rfl, rfl⟩) (fun _ _ => rfl) rfl (fun _ _ => rfl), h.served, h.ready⟩
  obtain ⟨reset, hreset, hsound, hmode⟩ :=
    resetRemainRequests_sound clock hset hk (if b then .write else .read)
  refine ⟨reset.turnAround config c, by rw [hreset, Option.map_some], ?_⟩
  have heq : (reset.turnAround config c).mode = Function.update s.mode c (if b then .write else .read) :=
    mode_setWriteMode s _ b hmode
  rw [heq]
  exact ⟨hsound.booked.unchanged rfl (fun _ => ⟨rfl, rfl, rfl, rfl⟩) (fun _ _ => rfl) rfl (fun _ _ => rfl), hsound.served,
    hsound.ready⟩

theorem switchMode_sound (h : Sound config s.mode s) :
    ∃ s', s.switchMode config clock c = some s' ∧ Sound config s'.mode s' := by
  simp only [switchMode]
  split_ifs with hwrite hread
  · refine switch_sound clock h ?_
    simp only [mode, hwrite.1]
    rfl
  · refine switch_sound clock h ?_
    simp only [mode, hread.1]
    rfl
  · exact ⟨s, rfl, h⟩

end Reset

end Thermometer.DramReset
