import Thermometer.CacheSystem

namespace Thermometer.CacheRoom

open Lib Runs Packets QueueList CacheModel CacheMshr CacheSystem

variable {P R : Type} [LinearOrder R]

omit [LinearOrder R] in
def misses (c : Cache P R) (packet : Packet R) : Bool :=
  !decide (c.getWay packet.address (c.getSet packet.address) < c.config.numWay)

/-- The cache, the request and the outside of a step that is a call of `readlike_miss`. -/
def missOf (s : State P R) : Event R → Option (R × Packet R × Answers)
  | .handleRead r a =>
      if (s.cache r).readsAvailable = 0 then none
      else ((due (s.cache r).rq s.now).filter (misses (s.cache r))).map (fun packet => (r, packet, a))
  | .handlePrefetch r a =>
      if (s.cache r).readsAvailable = 0 then none
      else ((due (s.cache r).pq s.now).filter (misses (s.cache r))).map (fun packet => (r, packet, a))
  | .handleWriteback r a =>
      if (s.cache r).writesAvailable = 0 ∨ (s.cache r).config.cacheType ≠ .l1d then none
      else ((due (s.cache r).wq s.now).filter (misses (s.cache r))).map (fun packet => (r, packet, a))
  | _ => none

def refusedBelow (s : State P R) (l : R) (c : Cache P R) (packet : Packet R) : Bool :=
  (addBelow s l (c.lowerPacket packet) (c.lowerPrefetch packet)).any (fun added => added.result == -2)

/-- A miss that is not taken leaves the state as it is, and one that is taken is not refused below. -/
structure Retried (t : Topology R) (s : State P R) (e : Event R) (r l : R) (packet : Packet R) (a : Answers) : Prop where
  taken : ∀ c below asPrefetch, (s.cache r).readlikeMiss (outside t s r a) s.now packet = .sent c below asPrefetch →
    (entry c packet.address).any (fun e => e.returned == .inflight) = true → refusedBelow s l (s.cache r) packet = false
  refused : (s.cache r).config.cacheType ≠ .stlb → (s.cache r).findMshr packet.address = none →
    refusedBelow s l (s.cache r) packet = true →
    (s.cache r).readlikeMiss (outside t s r a) s.now packet = .idle ∧ step t s e = some s

def LosesNoMiss (t : Topology R) (s : State P R) (e : Event R) : Prop :=
  ∀ r packet a l, missOf s e = some (r, packet, a) → t.lower r = some l → Retried t s e r l packet a

def Crowded (c : Cache P R) (packet : Packet R) : Prop :=
  packet.address ≠ 0 ∧ c.foundWq packet = none ∧ c.rq.entries.findIdx? (eqAddr packet.address) = none ∧ c.rq.full = true

/-- A demand that needs an entry of its own, above the last level, does not meet a crowded level. -/
def DemandsFit (t : Topology R) (s : State P R) (e : Event R) : Prop :=
  ∀ r packet a l, missOf s e = some (r, packet, a) → t.lower r = some l →
    (s.cache r).findMshr packet.address = none → (s.cache r).mshrFull = false → packet.type ≠ .prefetch →
    (s.cache r).config.cacheType ≠ .llc → (s.cache r).config.cacheType ≠ .stlb → ¬Crowded (s.cache l) packet

section Enqueue

variable {s : State P R} {c : Cache P R} {l : R} {packet below : Packet R} {warm : Bool} {q : Pending (Packet R)}
  {found : Packet R → Bool} {merge : Packet R → Packet R}

omit [LinearOrder R] in
theorem enqueue_refused : (enqueue warm q packet found merge).2 = -2 ↔ q.entries.findIdx? found = none ∧ q.full = true := by
  simp only [enqueue]
  cases q.entries.findIdx? found with
  | some i => simp
  | none =>
      by_cases hfull : q.full = true
      · simp [hfull]
      · simp [hfull]

theorem addRq_refused : (c.addRq warm below).any (fun added => added.result == -2) = true ↔ Crowded c below := by
  simp only [Cache.addRq, Crowded]
  by_cases haddr : below.address = 0
  · simp [haddr]
  · rw [if_neg haddr]
    cases c.foundWq below with
    | some found => simp
    | none => simp [enqueue_refused, haddr]

theorem addPq_refused (h : (c.addPq warm below).any (fun added => added.result == -2) = true) : c.pq.full = true := by
  simp only [Cache.addPq] at h
  by_cases haddr : below.address = 0
  · simp [haddr] at h
  · rw [if_neg haddr] at h
    cases hwq : c.foundWq below with
    | some found => simp [hwq] at h
    | none =>
        simp only [hwq, Option.any_some, beq_iff_eq, enqueue_refused] at h
        exact h.2

omit [LinearOrder R] in
theorem crowded_lower {lower : Cache P R} : Crowded lower (c.lowerPacket packet) ↔ Crowded lower packet := Iff.rfl

end Enqueue

variable {t : Topology R} {s : State P R} {e : Event R} {r l : R} {packet : Packet R} {a : Answers}

omit [LinearOrder R] in
theorem misses_due {r' : R} {a' : Answers} {q : Pending (Packet R)}
    (h : ((due q s.now).filter (misses (s.cache r'))).map (fun p => (r', p, a')) = some (r, packet, a)) :
    r' = r ∧ a' = a ∧ due q s.now = some packet ∧
      ¬(s.cache r').getWay packet.address ((s.cache r').getSet packet.address) < (s.cache r').config.numWay := by
  obtain ⟨p, hp, heq⟩ := Option.map_eq_some_iff.mp h
  rw [Option.filter_eq_some_iff] at hp
  rw [Prod.mk.injEq, Prod.mk.injEq] at heq
  obtain ⟨hr, rfl, ha⟩ := heq
  exact ⟨hr, ha, hp.1, by simpa [misses] using hp.2⟩

theorem step_of_idle (h : missOf s e = some (r, packet, a))
    (hidle : (s.cache r).readlikeMiss (outside t s r a) s.now packet = .idle) : step t s e = some s := by
  cases e with
  | handleRead r' a' =>
      simp only [missOf, Option.ite_none_left_eq_some] at h
      obtain ⟨rfl, rfl, hdue, hway⟩ := misses_due h.2
      simp only [step, Cache.handleRead, if_neg h.1, hdue, Cache.readlike, if_neg hway, hidle]
      rfl
  | handlePrefetch r' a' =>
      simp only [missOf, Option.ite_none_left_eq_some] at h
      obtain ⟨rfl, rfl, hdue, hway⟩ := misses_due h.2
      simp only [step, Cache.handlePrefetch, if_neg h.1, hdue, Cache.readlike, if_neg hway, hidle]
      rfl
  | handleWriteback r' a' =>
      simp only [missOf, Option.ite_none_left_eq_some, not_or, not_not] at h
      obtain ⟨rfl, rfl, hdue, hway⟩ := misses_due h.2
      simp only [step, Cache.handleWriteback, if_neg h.1.1, hdue, if_neg hway, if_pos h.1.2, hidle]
      rfl
  | _ => cases h

omit [LinearOrder R] in
theorem outside_lower (h : t.lower r = some l) : (outside t s r a).readFull = (s.cache l).rq.full ∧
    (outside t s r a).prefetchFull = (s.cache l).pq.full := by
  have heq : outside t s r a =
      ⟨(s.cache l).rq.full, (s.cache l).pq.full, (s.cache l).wq.full, a.ppage, a.metadata⟩ := by
    simp only [outside, h]
  rw [heq]
  exact ⟨rfl, rfl⟩

theorem retried_of_fits (hmiss : missOf s e = some (r, packet, a)) (hl : t.lower r = some l)
    (h : DemandsFit t s e) : Retried t s e r l packet a := by
  obtain ⟨hread, hprefetch⟩ := outside_lower (s := s) (a := a) hl
  have hrefused : (s.cache r).config.cacheType ≠ .stlb → (s.cache r).findMshr packet.address = none →
      refusedBelow s l (s.cache r) packet = true → (s.cache r).readlikeMiss (outside t s r a) s.now packet = .idle := by
    intro htype hno hrefused
    have hblocked : Blocked (s.cache r) (outside t s r a) packet := by
      by_cases hfull : (s.cache r).mshrFull = true
      · exact .inl hfull
      simp only [refusedBelow, addBelow] at hrefused
      by_cases hpf : (s.cache r).lowerPrefetch packet = true
      · rw [if_pos hpf] at hrefused
        simp only [Cache.lowerPrefetch, Bool.and_eq_true, beq_iff_eq, bne_iff_ne] at hpf
        exact .inr (.inr ⟨hpf.2, hpf.1, hprefetch.trans (addPq_refused hrefused)⟩)
      · rw [if_neg hpf, addRq_refused, crowded_lower] at hrefused
        by_cases hllc : (s.cache r).config.cacheType = .llc
        · exact .inr (.inl ⟨hllc, hread.trans hrefused.2.2.2⟩)
        · have hdemand : packet.type ≠ .prefetch := by
            intro hp
            apply hpf
            simp [Cache.lowerPrefetch, hp, hllc]
          exact absurd hrefused (h r packet a l hmiss hl hno (Bool.eq_false_iff.mpr hfull) hdemand hllc htype)
    cases readlikeMiss_cases (s.cache r) (outside t s r a) s.now packet with
    | merged i hi heq =>
        rw [hno] at hi
        cases hi
    | blocked _ _ heq => exact heq
    | sent _ hfree _ heq => exact absurd hblocked hfree
    | walked _ hfree _ heq => exact absurd hblocked hfree
  refine ⟨fun c below asPrefetch hsent _ => ?_, fun htype hno href => ?_⟩
  · rw [Bool.eq_false_iff]
    intro href
    cases readlikeMiss_cases (s.cache r) (outside t s r a) s.now packet with
    | merged i hi heq =>
        rw [heq] at hsent
        cases hsent
    | blocked _ _ heq =>
        rw [heq] at hsent
        cases hsent
    | sent hno _ htype heq =>
        rw [hrefused htype hno href] at hsent
        cases hsent
    | walked _ _ _ heq =>
        rw [heq] at hsent
        cases hsent
  · have hidle := hrefused htype hno href
    exact ⟨hidle, step_of_idle hmiss hidle⟩

theorem losesNoMiss_iff : LosesNoMiss t s e ↔ DemandsFit t s e := by
  constructor
  · intro h r packet a l hmiss hl hno hfull hdemand hllc hstlb hcrowded
    have hpf : (s.cache r).lowerPrefetch packet = false := by
      simp [Cache.lowerPrefetch, hdemand]
    have hrefused : refusedBelow s l (s.cache r) packet = true := by
      simp only [refusedBelow, addBelow, hpf, Bool.false_eq_true, if_false]
      exact addRq_refused.mpr (crowded_lower.mpr hcrowded)
    have hidle := ((h r packet a l hmiss hl).refused hstlb hno hrefused).1
    cases readlikeMiss_cases (s.cache r) (outside t s r a) s.now packet with
    | merged i hi heq =>
        rw [hno] at hi
        cases hi
    | blocked _ hblocked _ =>
        rcases hblocked with h | h | h
        · rw [hfull] at h
          cases h
        · exact hllc h.1
        · exact hdemand h.2.1
    | sent _ _ _ heq =>
        rw [heq] at hidle
        cases hidle
    | walked _ _ htype _ => exact hstlb htype
  · intro h r packet a l hmiss hl
    exact retried_of_fits hmiss hl h

/-- No miss is lost to a full lower queue exactly in the runs in which no demand meets a crowded level. -/
theorem no_miss_lost_iff (t : Topology R) (config : R → Config P R) (policyState : R → P) (events : List (Event R)) :
    EveryStep (step t) (.initial t config policyState) (fun _ => LosesNoMiss t) events ↔
      EveryStep (step t) (.initial t config policyState) (fun _ => DemandsFit t) events :=
  everyStep_congr (fun _ _ _ _ _ _ => losesNoMiss_iff)

/-- A first-level data cache over a second level. -/
def twoLevels : Topology Nat where
  isCache := fun r => decide (r < 2)
  cacheType := fun r => if r = 1 then .l1d else .l2c
  lower := fun r => if r = 1 then some 0 else none
  lower_ne := by
    intro r h
    split_ifs at h with hr
    rw [hr] at h
    cases h
  lower_not_l1d := by
    intro r l h
    rw [Option.ite_none_right_eq_some, Option.some.injEq] at h
    rw [← h.2]
    decide

/-- The second level has one place in its read queue. -/
def narrow (r : Nat) : Config Unit Nat where
  self := r
  cacheType := twoLevels.cacheType r
  fillLevel := if r = 1 then 1 else 2
  numSet := 2
  numWay := 2
  wqSize := 2
  rqSize := if r = 1 then 2 else 1
  pqSize := 2
  mshrSize := 2
  hitLatency := 1
  fillLatency := 1
  maxRead := 2
  maxWrite := 2
  policy := lruPolicy Nat 2

def idleOutside : Answers := ⟨.accepted, false, false, false, 0, 0⟩

def loadOf (address : Nat) : Event Nat :=
  .addRq 1 { fillLevel := 1, cpu := 0, address := address, fullAddr := 64 * address, eventCycle := 0, toReturn := [2] }

/-- Two loads arrive, and are read in the next cycle; the first takes the place below. -/
def twoLoads : List (Event Nat) :=
  [loadOf 5, loadOf 6, .endReads 1, .tick, .beginReads 1, .handleRead 1 idleOutside]

theorem miss_lost : ¬EveryStep (step twoLevels) (.initial twoLevels narrow (fun _ => ())) (fun _ => LosesNoMiss twoLevels)
    (twoLoads ++ [.handleRead 1 idleOutside]) := by
  intro h
  have hrun : (run (step twoLevels) (.initial twoLevels narrow (fun _ => ())) twoLoads).any (fun s =>
      (missOf s (.handleRead 1 idleOutside)).any (fun m => m.1 == 1 && m.2.1.address == 6 &&
        ((s.cache 1).findMshr 6).isNone && !(s.cache 1).mshrFull && m.2.1.type != .prefetch &&
        (s.cache 1).config.cacheType == .l1d && ((s.cache 0).foundWq m.2.1).isNone &&
        ((s.cache 0).rq.entries.findIdx? (eqAddr m.2.1.address)).isNone && (s.cache 0).rq.full)) = true := by
    decide +kernel
  obtain ⟨s, hs, hmiss⟩ := (Option.any_eq_true _ _).mp hrun
  obtain ⟨⟨r, packet, a⟩, hm, hfacts⟩ := (Option.any_eq_true _ _).mp hmiss
  simp only [Bool.and_eq_true, beq_iff_eq, bne_iff_ne, Option.isNone_iff_eq_none, Bool.not_eq_true'] at hfacts
  obtain ⟨⟨⟨⟨⟨⟨⟨⟨hr, haddr⟩, hno⟩, hfull⟩, hdemand⟩, htype⟩, hwq⟩, hrq⟩, hrqfull⟩ := hfacts
  subst hr
  have hfits := losesNoMiss_iff.mp (h.last hs) 1 packet a 0 hm rfl (haddr ▸ hno) hfull hdemand
    (by rw [htype]; decide) (by rw [htype]; decide)
  exact hfits ⟨by rw [haddr]; decide, hwq, hrq, hrqfull⟩

end Thermometer.CacheRoom
