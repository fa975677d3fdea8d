import Thermometer.CacheFill
import Thermometer.CacheSystem

namespace Thermometer.CacheWriteback

open Lib Runs Packets QueueList CacheModel CacheMshr CacheSystem CacheFill

variable {P R : Type}

structure Still (c c' : Cache P R) : Prop where
  config : c'.config = c.config
  block : c'.block = c.block
  policyState : c'.policyState = c.policyState
  wq : c'.wq = c.wq

def KeepsDirty (c c' : Cache P R) : Prop :=
  ∀ set way, (c.block set way).dirty = true → StaysDirty (c.block set way) (c'.block set way)

section Caches

variable {c c' c'' : Cache P R} {packet : Packet R} {set way : Nat}

theorem Still.refl (c : Cache P R) : Still c c := ⟨rfl, rfl, rfl, rfl⟩

theorem Still.trans (h : Still c c') (h' : Still c' c'') : Still c c'' :=
  ⟨h'.config.trans h.config, h'.block.trans h.block, h'.policyState.trans h.policyState, h'.wq.trans h.wq⟩

theorem keepsDirty_of_block (h : c'.block = c.block) : KeepsDirty c c' := by
  intro set way hdirty
  rw [h]
  exact .refl hdirty

theorem KeepsDirty.trans (h : KeepsDirty c c') (h' : KeepsDirty c' c'') : KeepsDirty c c'' :=
  fun set way hdirty => (h set way hdirty).trans (h' set way (h set way hdirty).dirty)

theorem hit_keepsDirty (f : Block → Block) (hf : ∀ b : Block, b.dirty = true → StaysDirty b (f b)) (c : Cache P R)
    (packet : Packet R) (set way fullAddr : Nat) :
    KeepsDirty c ((c.updateReplacementState packet set way fullAddr true).updateBlock set way f) := by
  intro s w hdirty
  have hseen := updateReplacementState_staysDirty c packet set way fullAddr true hdirty
  refine hseen.trans ?_
  by_cases hself : s = set ∧ w = way
  · obtain ⟨rfl, rfl⟩ := hself
    have hblock : ((c.updateReplacementState packet s w fullAddr true).updateBlock s w f).block s w =
        f ((c.updateReplacementState packet s w fullAddr true).block s w) := by
      simp only [Cache.updateBlock, Function.update_self]
    rw [hblock]
    exact hf _ hseen.dirty
  · rw [updateBlock_other _ f hself]
    exact .refl hseen.dirty

theorem still_return {warm : Bool} {now : Nat} (h : c.returnData warm now packet = some c') : Still c c' := by
  obtain ⟨mshr, rfl⟩ := returnData_eq h
  exact ⟨rfl, rfl, rfl, rfl⟩

theorem still_release (c : Cache P R) (address : Nat) : Still c (c.releaseMshr address) := by
  obtain ⟨mshr, h⟩ := releaseMshr_eq c address
  exact h ▸ ⟨rfl, rfl, rfl, rfl⟩

theorem still_allocated (c : Cache P R) (now : Nat) (packet : Packet R) : Still c (c.allocated now packet) := by
  obtain ⟨mshr, h⟩ := allocated_eq c now packet
  exact h ▸ ⟨rfl, rfl, rfl, rfl⟩

variable [LinearOrder R]

theorem still_addRq {warm : Bool} {joined : Added P R} (h : c.addRq warm packet = some joined) : Still c joined.cache := by
  simp only [Cache.addRq, Option.ite_none_left_eq_some] at h
  cases hwq : c.foundWq packet <;> rw [hwq] at h <;> cases h.2 <;> exact ⟨rfl, rfl, rfl, rfl⟩

theorem still_addPq {warm : Bool} {joined : Added P R} (h : c.addPq warm packet = some joined) : Still c joined.cache := by
  simp only [Cache.addPq, Option.ite_none_left_eq_some] at h
  cases hwq : c.foundWq packet <;> rw [hwq] at h <;> cases h.2 <;> exact ⟨rfl, rfl, rfl, rfl⟩

theorem still_prefetchLine {warm : Bool} {now ip baseAddr pfAddr metadata : Nat} {level : Int} {joined : Added P R}
    (h : c.prefetchLine warm now ip baseAddr pfAddr level metadata = some joined) : Still c joined.cache := by
  simp only [Cache.prefetchLine] at h
  split_ifs at h
  · exact still_addPq h
  · cases h
    exact .refl c

theorem still_vaTranslatePrefetches {warm : Bool} {fullAddr : Nat} {joined : Added P R}
    (h : c.vaTranslatePrefetches warm fullAddr = some joined) : Still c joined.cache := by
  simp only [Cache.vaTranslatePrefetches] at h
  split_ifs at h
  · cases hfront : c.vapq.front? with
    | none =>
        rw [hfront] at h
        cases h
        exact .refl c
    | some front =>
        rw [hfront] at h
        obtain ⟨b, hb, rfl⟩ := Option.map_eq_some_iff.mp h
        exact (still_addPq hb).trans ⟨rfl, rfl, rfl, rfl⟩
  · cases h
    exact .refl c

inductive Quiet (c : Cache P R) : Round P R → Prop
  | idle : Quiet c .idle
  | done (c' : Cache P R) (answers : List (R × Packet R)) (h : KeepsDirty c c') : Quiet c (.done c' answers)
  | sent (c' : Cache P R) (packet : Packet R) (asPrefetch : Bool) (h : KeepsDirty c c') : Quiet c (.sent c' packet asPrefetch)
  | walked (c' : Cache P R) (packet : Packet R) (h : KeepsDirty c c') : Quiet c (.walked c' packet)

omit [LinearOrder R] in
theorem Quiet.andThen {f : Cache P R → Cache P R} {round : Round P R} (hf : ∀ c, (f c).block = c.block) (h : Quiet c round) :
    Quiet c (round.andThen f) := by
  have hkeeps : ∀ c', KeepsDirty c c' → KeepsDirty c (f c') := fun c' h => h.trans (keepsDirty_of_block (hf c'))
  cases h with
  | idle => exact .idle
  | done c' answers h => exact .done _ _ (hkeeps c' h)
  | sent c' packet asPrefetch h => exact .sent _ _ _ (hkeeps c' h)
  | walked c' packet h => exact .walked _ _ (hkeeps c' h)

theorem readlikeMiss_quiet (c : Cache P R) (out : Outside) (now : Nat) (packet : Packet R) :
    Quiet c (c.readlikeMiss out now packet) := by
  cases readlikeMiss_cases c out now packet with
  | merged i hi heq => exact heq ▸ .done _ _ (keepsDirty_of_block rfl)
  | blocked _ _ heq => exact heq ▸ .idle
  | sent _ _ _ heq => exact heq ▸ .sent _ _ _ (keepsDirty_of_block (still_allocated c now packet).block)
  | walked _ _ _ heq => exact heq ▸ .walked _ _ (keepsDirty_of_block (still_allocated c now packet).block)

theorem readlike_quiet (c : Cache P R) (out : Outside) (now : Nat) (packet : Packet R) : Quiet c (c.readlike out now packet) := by
  simp only [Cache.readlike]
  split_ifs
  · exact .done _ _ (hit_keepsDirty (fun b => { b with prefetch := false, used := true })
      (fun b h => ⟨rfl, h, rfl, rfl, rfl⟩) c _ _ _ _)
  · exact readlikeMiss_quiet c out now packet

theorem handleRead_quiet (c : Cache P R) (out : Outside) (now : Nat) : Quiet c (c.handleRead out now) := by
  simp only [Cache.handleRead]
  split_ifs
  · exact .idle
  · cases due c.rq now with
    | none => exact .idle
    | some packet => exact (readlike_quiet c out now packet).andThen (fun _ => rfl)

theorem handlePrefetch_quiet (c : Cache P R) (out : Outside) (now : Nat) : Quiet c (c.handlePrefetch out now) := by
  simp only [Cache.handlePrefetch]
  split_ifs
  · exact .idle
  · cases due c.pq now with
    | none => exact .idle
    | some packet => exact (readlike_quiet c out now packet).andThen (fun _ => rfl)

end Caches

section System

variable [LinearOrder R] {t : Topology R} {s s' : State P R} {r l u : R} {a : Answers} {c : Cache P R} {packet : Packet R}
  {round : Round P R}

theorem reply_still (t : Topology R) (s : State P R) (answer : R × Packet R) (u : R) :
    Still (s.cache u) ((reply t s answer).cache u) := by
  rw [reply]
  split_ifs
  · cases hreturn : (s.cache answer.1).returnData s.warm s.now answer.2 with
    | none => exact .refl _
    | some c =>
        simp only
        by_cases hu : u = answer.1
        · rw [hu, set_cache_self]
          exact still_return hreturn
        · rw [set_cache_of_ne s c hu]
          exact .refl _
  · exact .refl _

theorem deliver_still (t : Topology R) (s : State P R) (answers : List (R × Packet R)) (u : R) :
    Still (s.cache u) ((deliver t s answers).cache u) := by
  induction answers generalizing s with
  | nil => exact .refl _
  | cons answer answers ih => exact (reply_still t s answer u).trans (ih (reply t s answer))

theorem addBelow_still {asPrefetch : Bool} {joined : Added P R} (h : addBelow s l packet asPrefetch = some joined) :
    Still (s.cache l) joined.cache := by
  rw [addBelow] at h
  split_ifs at h
  · exact still_addPq h
  · exact still_addRq h

theorem set_still (h : Still (s.cache r) c) (u : R) : Still (s.cache u) ((s.set r c).cache u) := by
  by_cases hu : u = r
  · rw [hu, set_cache_self]
    exact h
  · rw [set_cache_of_ne s c hu]
    exact .refl _

theorem send_still {asPrefetch : Bool} (h : send t s r packet asPrefetch a = some s') (u : R) :
    Still (s.cache u) (s'.cache u) := by
  rw [send] at h
  cases hlower : t.lower r with
  | some l =>
      rw [hlower] at h
      obtain ⟨joined, hjoined, rfl⟩ := Option.map_eq_some_iff.mp h
      exact (set_still (addBelow_still hjoined) u).trans (deliver_still t _ _ u)
  | none =>
      rw [hlower] at h
      cases ha : a.memory with
      | refused =>
          simp only [ha, Option.some.injEq] at h
          exact h ▸ .refl _
      | forwarded data =>
          simp only [ha, Option.some.injEq] at h
          exact h ▸ deliver_still t s _ u
      | accepted =>
          simp only [ha, Option.some.injEq] at h
          exact h ▸ .refl _

theorem release_still (t : Topology R) (s : State P R) (r : R) (entry : Option (Packet R)) (u : R) :
    Still (s.cache u) ((release t s r entry).cache u) := by
  cases entry with
  | none => exact .refl _
  | some e => exact (deliver_still t s (replies e) u).trans (set_still (still_release _ e.address) u)

theorem added_still {result : Option (Added P R)} (hresult : ∀ joined, result = some joined → Still (s.cache r) joined.cache)
    (h : added t s r result = some s') (u : R) : Still (s.cache u) (s'.cache u) := by
  obtain ⟨joined, hjoined, rfl⟩ := Option.map_eq_some_iff.mp h
  exact (set_still (hresult joined hjoined) u).trans (deliver_still t _ _ u)

theorem set_keepsDirty (h : KeepsDirty (s.cache r) c) (u : R) : KeepsDirty (s.cache u) ((s.set r c).cache u) := by
  by_cases hu : u = r
  · rw [hu, set_cache_self]
    exact h
  · rw [set_cache_of_ne s c hu]
    exact keepsDirty_of_block rfl

theorem perform_quiet (hround : Quiet (s.cache r) round) (h : perform t s r a round = some s') (u : R) :
    KeepsDirty (s.cache u) (s'.cache u) := by
  cases hround with
  | idle => exact Option.some.inj h ▸ keepsDirty_of_block rfl
  | done c' answers hc =>
      exact Option.some.inj h ▸ (set_keepsDirty hc u).trans (keepsDirty_of_block (deliver_still t _ answers u).block)
  | sent c' packet asPrefetch hc => exact (set_keepsDirty hc u).trans (keepsDirty_of_block (send_still h u).block)
  | walked c' packet hc =>
      exact Option.some.inj h ▸ (set_keepsDirty hc u).trans (keepsDirty_of_block (reply_still t _ (r, packet) u).block)

theorem writeBelow_block {writeback : Option (Packet R)} (h : writeBelow t s r writeback a = some s') (u : R) :
    (s'.cache u).block = (s.cache u).block := by
  cases writeback with
  | none => exact Option.some.inj h ▸ rfl
  | some packet =>
      rw [writeBelow] at h
      cases hlower : t.lower r with
      | none =>
          simp only [hlower] at h
          split_ifs at h
          exact Option.some.inj h ▸ rfl
      | some l =>
          simp only [hlower] at h
          split_ifs at h
          rw [← Option.some.inj h]
          by_cases hu : u = l
          · rw [hu, set_cache_self]
            rfl
          · rw [set_cache_of_ne s _ hu]

theorem perform_filled_other {writeback entry : Option (Packet R)} (h : perform t s r a (.filled c writeback entry) = some s')
    (hu : u ≠ r) : (s'.cache u).block = (s.cache u).block := by
  rw [perform] at h
  cases hwrite : writeBelow t s r writeback a with
  | none =>
      rw [hwrite] at h
      exact Option.some.inj h ▸ rfl
  | some s₁ =>
      rw [hwrite] at h
      rw [← Option.some.inj h, (release_still t _ r entry u).block, set_cache_of_ne s₁ c hu]
      exact writeBelow_block hwrite u

end System

/-- The packet that a round of `handle_fill` or `handle_writeback` tries to fill in. -/
def attempt (s : State P R) : Event R → Option (R × Packet R × Answers)
  | .handleFill r a =>
      if (s.cache r).writesAvailable = 0 then none
      else (s.cache r).mshr.head?.bind (fun entry =>
        if entry.returned ≠ .completed ∨ s.now < entry.eventCycle then none else some (r, entry, a))
  | .handleWriteback r a =>
      if (s.cache r).writesAvailable = 0 then none
      else (due (s.cache r).wq s.now).bind (fun packet =>
        if (s.cache r).getWay packet.address ((s.cache r).getSet packet.address) < (s.cache r).config.numWay ∨
          (s.cache r).config.cacheType = .l1d then none else some (r, packet, a))
  | _ => none

/-- `filllike_miss` for the packet, with any statistics in the two caches. -/
def fillOf (s : State P R) (stats : R → Stats) (r l : R) (packet : Packet R) (a : Answers) : Fill P R :=
  let set := (s.cache r).getSet packet.address
  filllikeMiss ⟨s.cache r, stats r⟩ (some ⟨s.cache l, stats l⟩) s.warm s.now a.metadata set
    ((s.cache r).findVictim packet set) packet

/-- The step is that fill. One that is refused leaves everything as it is, the packet at the front of its queue too. -/
inductive Agrees (s s' : State P R) (r l : R) (fill : Fill P R) : Prop
  | refused (h : fill.success = false) (hs : s' = s)
  | filled (h : fill.success = true) (hblock : (s'.cache r).block = fill.upper.cache.block)
      (hpolicy : (s'.cache r).policyState = fill.upper.cache.policyState) (lower : Level P R)
      (hlower : fill.lower = some lower) (hwq : (s'.cache l).wq = lower.cache.wq)

section Attempts

variable [LinearOrder R] {t : Topology R} {s s' : State P R} {r l u : R} {a : Answers} {packet : Packet R} {e : Event R}
  {round : Round P R} {f : Cache P R → Cache P R}

theorem perform_filled (hne : l ≠ r) {c : Cache P R} {writeback : Option (Packet R)} {entry : Option (Packet R)}
    {s₁ : State P R} (hs : perform t s r a (.filled c writeback entry) = some s')
    (hwrite : writeBelow t s r writeback a = some s₁) :
    (s'.cache r).block = c.block ∧ (s'.cache r).policyState = c.policyState ∧ (s'.cache l).wq = (s₁.cache l).wq := by
  rw [perform, hwrite] at hs
  have hr := release_still t (s₁.set r c) r entry r
  have hlow := release_still t (s₁.set r c) r entry l
  rw [Option.some.inj hs, set_cache_self] at hr
  rw [Option.some.inj hs, set_cache_of_ne s₁ _ hne] at hlow
  exact ⟨hr.block, hr.policyState, hlow.wq⟩

theorem perform_agrees (hf : ∀ c : Cache P R, (f c).block = c.block ∧ (f c).policyState = c.policyState)
    (hl : t.lower r = some l) (hhas : (s.cache r).config.hasLower = true) {set way metadata : Nat} {entry : Option (Packet R)}
    (hround : (s.cache r).filllikeMiss (outside t s r a) s.now set way packet entry = some round)
    (hs : perform t s r a (round.andThen f) = some s') (stats : R → Stats) :
    Agrees s s' r l
      (filllikeMiss ⟨s.cache r, stats r⟩ (some ⟨s.cache l, stats l⟩) s.warm s.now metadata set way packet) := by
  have hne : l ≠ r := fun heq => t.lower_ne r (heq ▸ hl)
  have hfull : (outside t s r a).writeFull = (s.cache l).wq.full := by simp only [outside, hl]
  have hdirty : (s.cache r).evictingDirty set way =
      (!(way == (s.cache r).config.numWay) && ((s.cache r).block set way).dirty) := by
    rw [Cache.evictingDirty, hhas, Bool.and_true]
    rfl
  have hfilled : ∀ (writeback : Option (Packet R)) (s₁ : State P R),
      perform t s r a (.filled (f ((s.cache r).install set way packet)) writeback entry) = some s' →
      writeBelow t s r writeback a = some s₁ →
      (s'.cache r).block = ((s.cache r).install set way packet).block ∧
        (s'.cache r).policyState = ((s.cache r).install set way packet).policyState ∧ (s'.cache l).wq = (s₁.cache l).wq := by
    intro writeback s₁ hperform hwrite
    obtain ⟨hblock, hpolicy, hwq⟩ := perform_filled hne hperform hwrite
    exact ⟨hblock.trans (hf _).1, hpolicy.trans (hf _).2, hwq⟩
  simp only [Cache.filllikeMiss, Option.ite_none_left_eq_some] at hround
  obtain ⟨-, hround⟩ := hround
  simp only [filllikeMiss]
  rw [hdirty, hfull] at hround
  by_cases hevict : (!(way == (s.cache r).config.numWay) && ((s.cache r).block set way).dirty) = true
  · simp only [hevict, Bool.true_and, if_true] at hround ⊢
    by_cases hroom : (s.cache l).wq.occupancy = (s.cache l).wq.size
    · have hqueue : (s.cache l).wq.full = true := beq_iff_eq.mpr hroom
      rw [if_pos hqueue, Option.some.injEq] at hround
      rw [if_pos hroom]
      rw [← hround] at hs
      exact .refused rfl (Option.some.inj hs).symm
    · have hqueue : ¬(s.cache l).wq.full = true := fun h => hroom (beq_iff_eq.mp h)
      rw [if_neg hqueue, Option.some.injEq] at hround
      rw [if_neg hroom]
      rw [← hround] at hs
      have hadd := addWq_cache ⟨s.cache l, stats l⟩ s.warm
        ((s.cache r).writebackPacket s.now packet ((s.cache r).block set way))
      by_cases hresult : (Level.addWq ⟨s.cache l, stats l⟩ s.warm
        ((s.cache r).writebackPacket s.now packet ((s.cache r).block set way))).2 = -2
      · rw [if_pos hresult]
        refine .refused rfl ?_
        have hwrite : writeBelow t s r (some ((s.cache r).writebackPacket s.now packet ((s.cache r).block set way))) a = none := by
          simp only [writeBelow, hl]
          rw [if_pos (hadd.2.symm.trans hresult)]
        rw [Round.andThen, perform, hwrite] at hs
        exact (Option.some.inj hs).symm
      · rw [if_neg hresult]
        have hwrite : writeBelow t s r (some ((s.cache r).writebackPacket s.now packet ((s.cache r).block set way))) a =
            some (s.set l ((s.cache l).addWq s.warm
              ((s.cache r).writebackPacket s.now packet ((s.cache r).block set way))).1) := by
          simp only [writeBelow, hl]
          rw [if_neg (fun h => hresult (hadd.2.trans h))]
        obtain ⟨hblock, hpolicy, hwq⟩ := hfilled _ _ hs hwrite
        refine .filled rfl hblock hpolicy _ rfl ?_
        rw [hwq, set_cache_self, hadd.1]
  · rw [Bool.not_eq_true] at hevict
    simp only [hevict, Bool.false_and, Bool.false_eq_true, if_false, Option.some.injEq] at hround ⊢
    rw [← hround] at hs
    obtain ⟨hblock, hpolicy, hwq⟩ := hfilled none s hs rfl
    exact .filled rfl hblock hpolicy _ rfl hwq

theorem attempt_agrees (hattempt : attempt s e = some (r, packet, a)) (hs : step t s e = some s') (hl : t.lower r = some l)
    (hhas : (s.cache r).config.hasLower = true) (stats : R → Stats) : Agrees s s' r l (fillOf s stats r l packet a) := by
  cases e with
  | handleFill r' a' =>
      simp only [attempt] at hattempt
      split_ifs at hattempt with hwrites
      obtain ⟨entry, hentry, hattempt⟩ := Option.bind_eq_some_iff.mp hattempt
      split_ifs at hattempt with hdue
      cases hattempt
      obtain ⟨round, hround, hs⟩ := Option.bind_eq_some_iff.mp hs
      simp only [Cache.handleFill, if_neg hwrites, hentry, if_neg hdue] at hround
      obtain ⟨filled, hfilled, rfl⟩ := Option.map_eq_some_iff.mp hround
      exact perform_agrees (f := Cache.spendWrite) (fun _ => ⟨rfl, rfl⟩) hl hhas hfilled hs stats
  | handleWriteback r' a' =>
      simp only [attempt] at hattempt
      split_ifs at hattempt with hwrites
      obtain ⟨p, hp, hattempt⟩ := Option.bind_eq_some_iff.mp hattempt
      split_ifs at hattempt with hmiss
      cases hattempt
      rw [not_or] at hmiss
      obtain ⟨round, hround, hs⟩ := Option.bind_eq_some_iff.mp hs
      simp only [Cache.handleWriteback, if_neg hwrites, hp, if_neg hmiss.1, if_neg hmiss.2] at hround
      obtain ⟨filled, hfilled, rfl⟩ := Option.map_eq_some_iff.mp hround
      exact perform_agrees (f := Cache.popWq) (fun _ => ⟨rfl, rfl⟩) hl hhas hfilled hs stats
  | _ => cases hattempt

theorem handleFill_keepsDirty (hs : step t s (.handleFill r a) = some s')
    (hother : ∀ packet, attempt s (.handleFill r a) = some (r, packet, a) → u ≠ r) :
    KeepsDirty (s.cache u) (s'.cache u) := by
  obtain ⟨round, hround, hs⟩ := Option.bind_eq_some_iff.mp hs
  rcases handleFill_cases hround with rfl | ⟨front, writeback, hfront, hret, rfl, -⟩
  · exact Option.some.inj hs ▸ keepsDirty_of_block rfl
  · apply keepsDirty_of_block
    refine perform_filled_other hs (hother front ?_)
    simp only [Cache.handleFill] at hround
    by_cases hwrites : (s.cache r).writesAvailable = 0
    · rw [if_pos hwrites] at hround
      cases hround
    simp only [if_neg hwrites, hfront] at hround
    by_cases hdue : front.returned ≠ .completed ∨ s.now < front.eventCycle
    · rw [if_pos hdue] at hround
      cases hround
    simp only [attempt, if_neg hwrites, hfront, Option.bind_some, if_neg hdue]

theorem handleWriteback_keepsDirty (hs : step t s (.handleWriteback r a) = some s')
    (hother : ∀ packet, attempt s (.handleWriteback r a) = some (r, packet, a) → u ≠ r) :
    KeepsDirty (s.cache u) (s'.cache u) := by
  obtain ⟨round, hround, hs⟩ := Option.bind_eq_some_iff.mp hs
  simp only [Cache.handleWriteback] at hround
  by_cases hwrites : (s.cache r).writesAvailable = 0
  · rw [if_pos hwrites, Option.some.injEq] at hround
    exact perform_quiet (hround ▸ .idle) hs u
  rw [if_neg hwrites] at hround
  cases hdue : due (s.cache r).wq s.now with
  | none =>
      rw [hdue, Option.some.injEq] at hround
      exact perform_quiet (hround ▸ .idle) hs u
  | some packet =>
      simp only [hdue] at hround
      obtain ⟨taken, htaken, rfl⟩ := Option.map_eq_some_iff.mp hround
      split_ifs at htaken with hway htype
      · refine perform_quiet (Option.some.inj htaken ▸ Quiet.andThen (f := Cache.popWq) (fun _ => rfl) (.done _ _ ?_)) hs u
        exact hit_keepsDirty (fun b => { b with dirty := true }) (fun b _ => ⟨rfl, rfl, rfl, rfl, rfl⟩) _ _ _ _ _
      · exact perform_quiet (Option.some.inj htaken ▸ (readlikeMiss_quiet _ _ _ packet).andThen (f := Cache.popWq) (fun _ => rfl)) hs u
      · have hattempt : attempt s (.handleWriteback r a) = some (r, packet, a) := by
          simp only [attempt, if_neg hwrites, hdue, Option.bind_some, if_neg (not_or.mpr ⟨hway, htype⟩)]
        rcases filllikeMiss_cases htaken with rfl | ⟨writeback, rfl, -, -⟩
        · exact Option.some.inj hs ▸ keepsDirty_of_block rfl
        · exact keepsDirty_of_block (perform_filled_other hs (hother packet hattempt))

/-- A step that is no fill of `u` overwrites no dirty block there. -/
theorem step_keepsDirty (hs : step t s e = some s') (hother : ∀ packet a, attempt s e ≠ some (u, packet, a)) :
    KeepsDirty (s.cache u) (s'.cache u) := by
  have hset : ∀ r c, (c : Cache P R).block = (s.cache r).block → some (s.set r c) = some s' →
      KeepsDirty (s.cache u) (s'.cache u) := by
    intro r c hc heq
    exact Option.some.inj heq ▸ set_keepsDirty (keepsDirty_of_block hc) u
  cases e with
  | addRq r packet =>
      simp only [step, Option.ite_none_right_eq_some] at hs
      exact keepsDirty_of_block (added_still (fun _ h => still_addRq h) hs.2 u).block
  | addWq r packet =>
      simp only [step, Option.ite_none_right_eq_some] at hs
      exact hset r ((s.cache r).addWq s.warm packet).1 rfl hs.2
  | addPq r packet =>
      simp only [step, Option.ite_none_right_eq_some] at hs
      exact keepsDirty_of_block (added_still (fun _ h => still_addPq h) hs.2 u).block
  | prefetchLine r ip baseAddr pfAddr level metadata =>
      exact keepsDirty_of_block (added_still (fun _ h => still_prefetchLine h) hs u).block
  | vaPrefetchLine r ip pfAddr level metadata =>
      obtain ⟨c, hc, rfl⟩ := Option.map_eq_some_iff.mp hs
      exact set_keepsDirty (keepsDirty_of_block (CacheMoves.vaPrefetchLine_frame hc).block) u
  | beginWrites r => exact hset r (s.cache r).beginWrites rfl hs
  | handleFill r a => exact handleFill_keepsDirty hs (fun packet h heq => hother packet a (heq ▸ h))
  | handleWriteback r a => exact handleWriteback_keepsDirty hs (fun packet h heq => hother packet a (heq ▸ h))
  | endWrites r => exact hset r (s.cache r).endWrites rfl hs
  | beginReads r => exact hset r (s.cache r).beginReads rfl hs
  | handleRead r a => exact perform_quiet (handleRead_quiet _ _ _) hs u
  | vaTranslatePrefetches r fullAddr =>
      exact keepsDirty_of_block (added_still (fun _ h => still_vaTranslatePrefetches h) hs u).block
  | handlePrefetch r a => exact perform_quiet (handlePrefetch_quiet _ _ _) hs u
  | endReads r => exact hset r (s.cache r).endReads rfl hs
  | memoryReply i data =>
      obtain ⟨packet, -, rfl⟩ := Option.map_eq_some_iff.mp hs
      exact keepsDirty_of_block (deliver_still t _ _ u).block
  | tick => exact Option.some.inj hs ▸ keepsDirty_of_block rfl
  | warmUp => exact Option.some.inj hs ▸ keepsDirty_of_block rfl

/-- In every state and for every victim and packet a fill and its writeback happen both or not at all. In every step of
a system of caches, a cache above another one overwrites a dirty block only when that one has taken it, and a round
whose fill is refused changes nothing, so that it is tried again. -/
theorem fill_atomic :
    (∀ (upper : Level P R) (lower : Option (Level P R)) (warm : Bool) (now metadata set way : Nat) (packet : Packet R),
      Atomic upper lower set way packet (filllikeMiss upper lower warm now metadata set way packet)) ∧
    ∀ (t : Topology R) (s s' : State P R) (e : Event R) (u l : R), step t s e = some s' → t.lower u = some l →
      (s.cache u).config.hasLower = true →
      (∀ packet a, attempt s e = some (u, packet, a) → ∀ stats, Agrees s s' u l (fillOf s stats u l packet a)) ∧
      ∀ set way, ((s.cache u).block set way).dirty = true →
        StaysDirty ((s.cache u).block set way) ((s'.cache u).block set way) ∨
          WrittenBack (s.cache l) (s'.cache l) ((s.cache u).block set way) := by
  refine ⟨filllikeMiss_atomic, fun t s s' e u l hs hl hhas => ⟨fun packet a h => attempt_agrees h hs hl hhas, ?_⟩⟩
  intro set way hdirty
  by_cases hattempt : ∃ packet a, attempt s e = some (u, packet, a)
  · obtain ⟨packet, a, hattempt⟩ := hattempt
    have hzero : Nonempty Stats := ⟨⟨fun _ _ => 0, fun _ _ => 0, 0, 0, 0, 0, 0, 0, 0⟩⟩
    obtain ⟨stats⟩ := hzero
    have hatomic := filllikeMiss_atomic ⟨s.cache u, stats⟩ (some ⟨s.cache l, stats⟩) s.warm s.now a.metadata
      ((s.cache u).getSet packet.address) ((s.cache u).findVictim packet ((s.cache u).getSet packet.address)) packet
    cases attempt_agrees hattempt hs hl hhas (fun _ => stats) with
    | refused _ hsame =>
        rw [hsame]
        exact .inl (.refl hdirty)
    | filled hsuccess hblock _ lower hlower hwq =>
        rcases hatomic.overwritten set way hdirty with hstays | ⟨-, rfl, rfl, hway⟩
        · exact .inl (hblock ▸ hstays)
        · obtain ⟨lower', hlower', packet', htype, haddress, hfull, htaken⟩ :=
            hatomic.written hsuccess hway hdirty _ rfl
          obtain rfl : lower' = lower := Option.some.inj (hlower'.symm.trans hlower)
          exact .inr ⟨packet', htype, haddress, hfull, hwq ▸ htaken⟩
  · exact .inl (step_keepsDirty hs (fun packet a h => hattempt ⟨packet, a, h⟩) set way hdirty)

end Attempts

section Main

theorem below_ne (r : Nat) : (if r = 1 then some 0 else none) ≠ some r := by
  intro h
  rw [Option.ite_none_right_eq_some, Option.some.injEq] at h
  obtain ⟨rfl, hzero⟩ := h
  cases hzero

/-- A second level over the last one. -/
def overLast : Topology Nat where
  isCache := fun r => decide (r < 2)
  cacheType := fun r => if r = 1 then .l2c else .llc
  lower := fun r => if r = 1 then some 0 else none
  lower_ne := below_ne
  lower_not_l1d := by
    intro r l h
    rw [Option.ite_none_right_eq_some, Option.some.injEq] at h
    rw [← h.2]
    decide

def oneBlock (r : Nat) : Config Unit Nat where
  self := r
  cacheType := overLast.cacheType r
  fillLevel := if r = 1 then 2 else 4
  numSet := 1
  numWay := 1
  wqSize := 2
  rqSize := 2
  pqSize := 2
  mshrSize := 2
  hitLatency := 1
  fillLatency := 1
  maxRead := 2
  maxWrite := 2
  policy := lruPolicy Nat 1

def noAnswer : Answers := ⟨.accepted, false, false, false, 0, 0⟩

def writebackOf (address : Nat) : Event Nat :=
  .addWq 1 { fillLevel := 2, type := .writeback, cpu := 0, address := address, fullAddr := 64 * address, eventCycle := 0 }

def oneDirty : State Unit Nat :=
  let s := State.initial overLast oneBlock (fun _ => ())
  s.set 1 { s.cache 1 with block := fun _ _ => { valid := true, dirty := true, address := 2, fullAddr := 128 } }

/-- Another block is written back to it, takes the place of the dirty one, and that one goes down. -/
theorem fill_atomic_writeback : ∃ s s',
    run (step overLast) oneDirty [writebackOf 3, .endWrites 1, .beginWrites 1] = some s ∧
      step overLast s (.handleWriteback 1 noAnswer) = some s' ∧ ((s.cache 1).block 0 0).address = 2 ∧
      ((s'.cache 1).block 0 0).address = 3 ∧ WrittenBack (s.cache 0) (s'.cache 0) ((s.cache 1).block 0 0) := by
  have hrun : (run (step overLast) oneDirty [writebackOf 3, .endWrites 1, .beginWrites 1]).any (fun s =>
      (s.cache 1).config.hasLower && ((s.cache 1).block 0 0).dirty && ((s.cache 1).block 0 0).address == 2 &&
        (step overLast s (.handleWriteback 1 noAnswer)).any (fun s' => ((s'.cache 1).block 0 0).address == 3)) = true := by
    decide +kernel
  obtain ⟨s, hs, hfacts⟩ := (Option.any_eq_true _ _).mp hrun
  simp only [Bool.and_eq_true, beq_iff_eq] at hfacts
  obtain ⟨⟨⟨hhas, hdirty⟩, hold⟩, hstep⟩ := hfacts
  obtain ⟨s', hs', hnew⟩ := (Option.any_eq_true _ _).mp hstep
  rw [beq_iff_eq] at hnew
  refine ⟨s, s', hs, hs', hold, hnew, ?_⟩
  rcases (fill_atomic.2 overLast s s' _ 1 0 hs' rfl hhas).2 0 0 hdirty with hstays | hwritten
  · have hsame := hstays.address
    rw [hold, hnew] at hsame
    cases hsame
  · exact hwritten

end Main

end Thermometer.CacheWriteback
