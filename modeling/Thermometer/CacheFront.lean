import Thermometer.CacheMoves

namespace Thermometer.CacheFront

open Lib Runs Packets CacheModel CacheMshr CacheBlocks CacheMoves

variable {P R : Type}

def Before (x y : Packet R) : Prop := y.returned = .completed → x.returned = .completed ∧ x.eventCycle ≤ y.eventCycle

/-- The completed entries are a prefix, sorted by their cycle. -/
def ReturnedFirst (mshr : List (Packet R)) : Prop :=
  ∃ returned waiting, mshr = returned ++ waiting ∧ (∀ e ∈ returned, e.returned = .completed) ∧
    (∀ e ∈ waiting, e.returned ≠ .completed) ∧ returned.Pairwise (fun x y => x.eventCycle ≤ y.eventCycle)

/-- The fill of an entry is due. -/
def Ready (now : Nat) (e : Packet R) : Prop := e.returned = .completed ∧ e.eventCycle ≤ now

/-- `handle_fill` does not wait: it looks for room for `e` in the blocks. -/
def Fills (c : Cache P R) (out : Outside) (now : Nat) (e : Packet R) : Prop :=
  let way := c.findVictim e (c.getSet e.address)
  c.handleFill out now =
    (c.filllikeMiss out now (c.getSet e.address) way e (some (c.filledEntry out way e))).map (Round.andThen Cache.spendWrite)

section Order

variable {mshr : List (Packet R)} {x y z e f : Packet R} {i : Nat}

theorem Before.trans (h : Before x y) (h' : Before y z) : Before x z := by
  intro hz
  obtain ⟨hy, hyz⟩ := h' hz
  obtain ⟨hx, hxy⟩ := h hy
  exact ⟨hx, hxy.trans hyz⟩

theorem before_of_comp (h : minFillIndex y x = true) : Before y x := by
  intro hx
  simp only [minFillIndex, hx, bne_self_eq_false, Bool.false_or, Bool.and_eq_true, beq_iff_eq, decide_eq_true_iff] at h
  exact ⟨h.1, h.2.le⟩

theorem before_of_not_comp (h : minFillIndex y x = false) : Before x y := by
  intro hy
  simp only [minFillIndex, hy, beq_self_eq_true, Bool.true_and, Bool.or_eq_false_iff, bne_eq_false_iff_eq,
    decide_eq_false_iff_not, not_lt] at h
  exact h

theorem merged_before (h : ListSort.Merged minFillIndex mshr) : mshr.Pairwise Before := by
  apply ListSort.Merged.pairwise _ _ _ h
  · exact fun x y z hxy hyz => hxy.trans hyz
  · exact fun x y => before_of_comp
  · exact fun x y => before_of_not_comp

theorem returnedFirst_iff : ReturnedFirst mshr ↔ mshr.Pairwise Before := by
  constructor
  · rintro ⟨returned, waiting, rfl, hdone, hwait, hsorted⟩
    refine List.pairwise_append.mpr ⟨?_, ?_, fun x _ y hy hret => absurd hret (hwait y hy)⟩
    · exact hsorted.imp_of_mem (fun hx _ hle _ => ⟨hdone _ hx, hle⟩)
    · exact List.pairwise_of_forall_mem_list (fun _ _ y hy hret => absurd hret (hwait y hy))
  · intro h
    induction mshr with
    | nil => exact ⟨[], [], rfl, by simp, by simp, .nil⟩
    | cons e mshr ih =>
        obtain ⟨hfirst, hrest⟩ := List.pairwise_cons.mp h
        by_cases he : e.returned = .completed
        · obtain ⟨returned, waiting, rfl, hdone, hwait, hsorted⟩ := ih hrest
          refine ⟨e :: returned, waiting, rfl, ?_, hwait, List.pairwise_cons.mpr ⟨fun x hx => ?_, hsorted⟩⟩
          · exact List.forall_mem_cons.mpr ⟨he, hdone⟩
          · exact (hfirst x (List.mem_append_left _ hx) (hdone x hx)).2
        · refine ⟨[], e :: mshr, rfl, by simp, List.forall_mem_cons.mpr ⟨he, fun x hx hret => ?_⟩, .nil⟩
          exact he (hfirst x hx hret).1

theorem set_before (h : mshr.Pairwise Before) (hi : mshr[i]? = some e) (hret : f.returned = .completed ↔ e.returned = .completed)
    (hcycle : f.returned = .completed → f.eventCycle = e.eventCycle) : (mshr.set i f).Pairwise Before := by
  obtain ⟨hlt, rfl⟩ := List.getElem?_eq_some_iff.mp hi
  rw [List.pairwise_iff_getElem] at h ⊢
  intro j k hj hk hjk
  rw [List.length_set] at hj hk
  have hold := h j k hj hk hjk
  rw [List.getElem_set, List.getElem_set]
  split_ifs with hij hik hik
  · omega
  · subst hij
    intro hret'
    obtain ⟨he, hle⟩ := hold hret'
    exact ⟨hret.mpr he, (hcycle (hret.mpr he)).le.trans hle⟩
  · subst hik
    intro hf
    obtain ⟨he, hle⟩ := hold (hret.mp hf)
    exact ⟨he, hle.trans (hcycle hf).ge⟩
  · exact hold

end Order

structure InOrder (c : Cache P R) : Prop where
  before : c.mshr.Pairwise Before
  valid : ∀ e ∈ c.mshr, e.returned = .completed → isValid e = true

section Front

variable {c : Cache P R} {out : Outside} {now : Nat} {e : Packet R}

theorem initial_inOrder (config : Config P R) (policyState : P) : InOrder (.initial config policyState) := by
  have hnone : ∀ e ∈ (Cache.initial config policyState).mshr, e.returned ≠ .completed := by
    intro e he
    rw [List.eq_of_mem_replicate he]
    exact Returned.noConfusion
  refine ⟨?_, fun e he hret => absurd hret (hnone e he)⟩
  exact List.pairwise_of_forall_mem_list (fun _ _ y hy hret => absurd hret (hnone y hy))

theorem front_ready (h : c.mshr.Pairwise Before) (he : e ∈ c.mshr) (hready : Ready now e) :
    ∃ front, c.mshr.head? = some front ∧ Ready now front ∧ front.eventCycle ≤ e.eventCycle := by
  cases hmshr : c.mshr with
  | nil =>
      rw [hmshr] at he
      cases he
  | cons front rest =>
      rw [hmshr] at he h
      rcases List.mem_cons.mp he with rfl | he
      · exact ⟨e, rfl, hready, le_rfl⟩
      · obtain ⟨hret, hle⟩ := (List.pairwise_cons.mp h).1 e he hready.1
        exact ⟨front, rfl, ⟨hret, hle.trans hready.2⟩, hle⟩

theorem fills_front (hwrites : c.writesAvailable ≠ 0) (hfront : c.mshr.head? = some e) (hready : Ready now e) :
    Fills c out now e := by
  have hdue : ¬(e.returned ≠ .completed ∨ now < e.eventCycle) := by
    rintro (hret | hlt)
    · exact hret hready.1
    · exact absurd hready.2 (not_le.mpr hlt)
  simp only [Fills, Cache.handleFill, if_neg hwrites, hfront, if_neg hdue]

end Front

section Keeps

variable {c c' : Cache P R} {packet : Packet R} {e : Cycle} {now a : Nat} {warm : Bool}

theorem InOrder.of_mshr (h : InOrder c) (heq : c'.mshr = c.mshr) : InOrder c' := by
  refine ⟨?_, ?_⟩
  · rw [heq]
    exact h.before
  · rw [heq]
    exact h.valid

theorem sort_inOrder {mshr : List (Packet R)} (heq : c'.mshr = ListSort.sort minFillIndex mshr)
    (hvalid : ∀ e ∈ mshr, e.returned = .completed → isValid e = true) : InOrder c' := by
  refine ⟨?_, fun e he => hvalid e ?_⟩
  · rw [heq]
    exact merged_before (ListSort.sort_merged mshr)
  · rw [heq] at he
    exact (ListSort.sort_perm mshr).mem_iff.mp he

theorem returnData_inOrder (h : InOrder c) (hs : c.returnData warm now packet = some c') : InOrder c' := by
  obtain ⟨i, hi, rfl⟩ := Option.map_eq_some_iff.mp hs
  obtain ⟨e, hget, hkey, -⟩ := findMshr_some hi
  refine sort_inOrder rfl fun f hf hret => ?_
  rw [Keyed.modify_eq_set hget] at hf
  rcases List.mem_or_eq_of_mem_set hf with hf | rfl
  · exact h.valid f hf hret
  · exact bne_iff_ne.mpr (address?_iff.mp hkey).1

theorem release_inOrder (h : InOrder c) : InOrder (c.releaseMshr a) := by
  cases hfind : c.findMshr a with
  | none => exact h.of_mshr (by simp only [Cache.releaseMshr, hfind])
  | some i =>
      have heq : (c.releaseMshr a).mshr = ListSort.sort minFillIndex (c.mshr.set i {}) := by
        simp only [Cache.releaseMshr, hfind]
      refine sort_inOrder heq fun f hf hret => ?_
      rcases List.mem_or_eq_of_mem_set hf with hf | rfl
      · exact h.valid f hf hret
      · cases hret

theorem set_inOrder {i : Nat} {d f : Packet R} (h : InOrder c) (hi : c.mshr[i]? = some d)
    (heq : c'.mshr = c.mshr.set i f) (hret : f.returned = .completed ↔ d.returned = .completed)
    (hcycle : f.returned = .completed → f.eventCycle = d.eventCycle)
    (hvalid : f.returned = .completed → isValid f = true) : InOrder c' := by
  refine ⟨?_, fun x hx => ?_⟩
  · rw [heq]
    exact set_before h.before hi hret hcycle
  · rw [heq] at hx
    rcases List.mem_or_eq_of_mem_set hx with hx | rfl
    · exact h.valid x hx
    · exact hvalid

theorem allocated_inOrder (h : InOrder c) : InOrder (c.allocated now packet) := by
  simp only [Cache.allocated]
  split_ifs
  · cases hfind : c.mshr.findIdx? (fun p => !isValid p) with
    | none => exact h.of_mshr (by simp only [Cache.allocateMshr, hfind])
    | some i =>
        obtain ⟨hlt, hfree, -⟩ := List.findIdx?_eq_some_iff_getElem.mp hfind
        have heq : (c.allocateMshr now packet).mshr =
            c.mshr.set i { packet with returned := .inflight, cycleEnqueued := now } := by
          simp only [Cache.allocateMshr, hfind]
        refine set_inOrder h (List.getElem?_eq_getElem hlt) heq ?_ ?_ ?_
        · refine iff_of_false Returned.noConfusion fun hret => ?_
          rw [h.valid _ (List.getElem_mem hlt) hret] at hfree
          cases hfree
        · intro hret
          cases hret
        · intro hret
          cases hret
  · exact h

variable [LinearOrder R]

theorem mergeMshr_inOrder {i : Nat} (h : InOrder c) (hi : c.findMshr packet.address = some i) :
    InOrder (c.mergeMshr i packet) := by
  obtain ⟨e, hget, hkey, -⟩ := findMshr_some hi
  have haddr := address?_iff.mp hkey
  refine set_inOrder h hget (Keyed.modify_eq_set hget _) ?_ ?_ ?_
  · rw [mergeMiss_returned]
  · exact fun _ => mergeMiss_eventCycle packet e
  · exact fun _ => bne_iff_ne.mpr ((mergeMiss_address haddr.2.symm).symm ▸ haddr.1)

theorem inOrder_kept : Kept (InOrder (P := P) (R := R)) where
  frame h hf := h.of_mshr hf.mshr
  readHit h _ _ := h.of_mshr rfl
  writeHit h _ _ := h.of_mshr rfl
  fill h := h.of_mshr install_mshr
  returned := returnData_inOrder
  allocated := allocated_inOrder
  merged := mergeMshr_inOrder
  released := release_inOrder

end Keeps

section Main

variable [LinearOrder R]

/-- In every state of a run the completed entries are a sorted prefix of the MSHR. So an entry that is due
has one at the front that was due no later, which `handle_fill` takes up while there is bandwidth. -/
theorem front_is_next {config : Config P R} {policyState : P} {calls : List (Call R)} {c : Cache P R}
    (h : run step (.initial config policyState) calls = some c) :
    ReturnedFirst c.mshr ∧ ∀ now, ∀ e ∈ c.mshr, Ready now e →
      ∃ front, c.mshr.head? = some front ∧ Ready now front ∧ front.eventCycle ≤ e.eventCycle ∧
        (c.writesAvailable ≠ 0 → ∀ out, Fills c out now front) := by
  have hbefore := (run_kept inOrder_kept (initial_inOrder config policyState) h).before
  refine ⟨returnedFirst_iff.mpr hbefore, fun now e he hready => ?_⟩
  obtain ⟨front, hfront, hdue, hle⟩ := front_ready hbefore he hready
  exact ⟨front, hfront, hdue, hle, fun hwrites out => fills_front hwrites hfront hdue⟩

def blockSeven : Packet Nat := { blockFive .load [1] with address := 7, fullAddr := 448 }

def answeredLate : List (Call Nat) :=
  [.addRq quiet (blockFive .load [1]), .addRq quiet blockSeven] ++ operate small quiet 0 ++ operate small quiet 0 ++
    operate small quiet 0 ++ [.returnData quiet { blockSeven with toReturn := [0] }, .beginWrites]

theorem front_is_next_late : ∃ c front, run step (.initial small ()) answeredLate = some c ∧ ReturnedFirst c.mshr ∧
    c.mshr.head? = some front ∧ front.address = 7 ∧ Fills c quiet.out 0 front := by
  have hrun : (run step (.initial small ()) answeredLate).any (fun c => c.writesAvailable == 1 &&
      c.mshr.any (fun e => e.returned == .completed && e.eventCycle == 0) &&
      c.mshr.head?.any (fun e => e.address == 7)) = true := by decide +kernel
  obtain ⟨c, hc, hfacts⟩ := (Option.any_eq_true _ _).mp hrun
  simp only [Bool.and_eq_true, beq_iff_eq, List.any_eq_true, Option.any_eq_true] at hfacts
  obtain ⟨⟨hwrites, e, he, hret, hcycle⟩, front, hfront, haddr⟩ := hfacts
  obtain ⟨hfirst, hnext⟩ := front_is_next hc
  obtain ⟨front', hfront', -, -, hfills⟩ := hnext 0 e he ⟨hret, hcycle.le⟩
  rw [hfront, Option.some.injEq] at hfront'
  subst hfront'
  exact ⟨c, front, hc, hfirst, hfront, haddr, hfills (by omega) quiet.out⟩

end Main

end Thermometer.CacheFront
