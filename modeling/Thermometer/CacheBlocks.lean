import Thermometer.CacheMshr
import Thermometer.Lib.Runs

namespace Thermometer.CacheBlocks

open Lib Runs Packets QueueList CacheModel CacheMshr

variable {P R : Type}

def resident (c : Cache P R) (set way : Nat) : Option Nat :=
  if (c.block set way).valid then some (c.block set way).address else none

/-- No set holds an address in two ways. -/
def DistinctBlocks (c : Cache P R) : Prop :=
  ∀ set v w a, v < c.config.numWay → w < c.config.numWay → resident c set v = some a → resident c set w = some a → v = w

structure SameBlocks (c c' : Cache P R) : Prop where
  config : c'.config = c.config
  resident : ∀ set way, resident c' set way = resident c set way

structure Installed (c c' : Cache P R) (set way address : Nat) : Prop where
  config : c'.config = c.config
  self : resident c' set way = some address
  other : ∀ v, v ≠ way → resident c' set v = resident c set v
  sets : ∀ s, s ≠ set → ∀ v, resident c' s v = resident c s v

section Blocks

variable {c c' d : Cache P R} {set way address : Nat} {packet : Packet R} {f : Block → Block} {hit : Bool}

theorem SameBlocks.refl (c : Cache P R) : SameBlocks c c := ⟨rfl, fun _ _ => rfl⟩

theorem SameBlocks.trans (h : SameBlocks c c') (h' : SameBlocks c' d) : SameBlocks c d :=
  ⟨h'.config.trans h.config, fun set way => (h'.resident set way).trans (h.resident set way)⟩

theorem Installed.trans (h : Installed c c' set way address) (h' : SameBlocks c' d) : Installed c d set way address :=
  ⟨h'.config.trans h.config, (h'.resident set way).trans h.self, fun v hv => (h'.resident set v).trans (h.other v hv),
    fun s hs v => (h'.resident s v).trans (h.sets s hs v)⟩

theorem SameBlocks.distinct (h : SameBlocks c c') : DistinctBlocks c' ↔ DistinctBlocks c := by
  simp only [DistinctBlocks, h.config, h.resident]

theorem Installed.distinct_iff (h : Installed c c' set way address) (hd : DistinctBlocks c) (hway : way < c.config.numWay) :
    DistinctBlocks c' ↔ ∀ v, v < c.config.numWay → v ≠ way → resident c set v ≠ some address := by
  constructor
  · intro h' v hv hne hres
    exact hne (h' set v way address (h.config ▸ hv) (h.config ▸ hway) ((h.other v hne).trans hres) h.self)
  · intro hfresh s v w a hv hw hav haw
    rw [h.config] at hv hw
    by_cases hs : s = set
    · subst hs
      by_cases hvw : v = way
      · by_cases hww : w = way
        · exact hvw.trans hww.symm
        · rw [hvw, h.self] at hav
          rw [h.other w hww, ← hav] at haw
          exact absurd haw (hfresh w hw hww)
      · rw [h.other v hvw] at hav
        by_cases hww : w = way
        · rw [hww, h.self] at haw
          rw [← haw] at hav
          exact absurd hav (hfresh v hv hvw)
        · rw [h.other w hww] at haw
          exact hd s v w a hv hw hav haw
    · rw [h.sets s hs] at hav haw
      exact hd s v w a hv hw hav haw

theorem sameBlocks_update (c : Cache P R) (packet : Packet R) (set way fullAddr : Nat) (hit : Bool) :
    SameBlocks c (c.updateReplacementState packet set way fullAddr hit) := by
  refine ⟨rfl, fun s v => ?_⟩
  by_cases hs : s = set
  · subst hs
    simp only [resident, Cache.updateReplacementState, Function.update_self]
  · simp only [resident, Cache.updateReplacementState, Function.update_of_ne hs]

theorem sameBlocks_updateBlock (hvalid : ∀ b, (f b).valid = b.valid) (haddr : ∀ b, (f b).address = b.address) :
    SameBlocks c (c.updateBlock set way f) := by
  refine ⟨rfl, fun s v => ?_⟩
  by_cases hs : s = set
  · subst hs
    by_cases hv : v = way
    · subst hv
      simp only [resident, Cache.updateBlock, Function.update_self, hvalid, haddr]
    · simp only [resident, Cache.updateBlock, Function.update_self, Function.update_of_ne hv]
  · simp only [resident, Cache.updateBlock, Function.update_of_ne hs]

theorem installed_install (h : way ≠ c.config.numWay) : Installed c (c.install set way packet) set way packet.address := by
  have hblock : Installed c (c.updateBlock set way (c.fillBlock packet)) set way packet.address := by
    refine ⟨rfl, ?_, fun v hv => ?_, fun s hs v => ?_⟩
    · simp only [resident, Cache.updateBlock, Function.update_self]
      rfl
    · simp only [resident, Cache.updateBlock, Function.update_self, Function.update_of_ne hv]
    · simp only [resident, Cache.updateBlock, Function.update_of_ne hs]
  rw [Cache.install, if_neg h]
  exact hblock.trans (sameBlocks_update _ _ _ _ _ _)

theorem sameBlocks_bypass (h : way = c.config.numWay) : SameBlocks c (c.install set way packet) := by
  rw [Cache.install, if_pos h]
  exact sameBlocks_update _ _ _ _ _ _

theorem sameBlocks_mshr (c : Cache P R) (mshr : List (Packet R)) : SameBlocks c { c with mshr := mshr } :=
  ⟨rfl, fun _ _ => rfl⟩

theorem sameBlocks_allocated (now : Nat) : SameBlocks c (c.allocated now packet) := by
  obtain ⟨mshr, h⟩ := allocated_eq c now packet
  exact h ▸ sameBlocks_mshr c mshr

theorem sameBlocks_release (address : Nat) : SameBlocks c (c.releaseMshr address) := by
  obtain ⟨mshr, h⟩ := releaseMshr_eq c address
  exact h ▸ sameBlocks_mshr c mshr

theorem sameBlocks_return {warm : Bool} {now : Nat} (h : c.returnData warm now packet = some c') : SameBlocks c c' := by
  obtain ⟨mshr, rfl⟩ := returnData_eq h
  exact sameBlocks_mshr c mshr

theorem getWay_absent (h : ¬c.getWay address set < c.config.numWay) {v : Nat} (hv : v < c.config.numWay) :
    resident c set v ≠ some address := by
  intro hres
  apply h
  simp only [Cache.getWay]
  cases hfind : (List.range c.config.numWay).find?
      (fun way => (c.block set way).valid && (c.block set way).address == address) with
  | none =>
      rw [List.find?_eq_none] at hfind
      have hno := hfind v (List.mem_range.mpr hv)
      simp only [resident, Option.ite_none_right_eq_some, Option.some.injEq] at hres
      simp [hres.1, hres.2] at hno
  | some w => exact List.mem_range.mp (List.mem_of_find?_eq_some hfind)

end Blocks

def Filled (c c' : Cache P R) (packet : Packet R) : Prop :=
  let set := c.getSet packet.address
  let way := c.findVictim packet set
  (way = c.config.numWay ∧ SameBlocks c c') ∨ (way ≠ c.config.numWay ∧ Installed c c' set way packet.address)

theorem filled_install {c c' : Cache P R} {packet : Packet R}
    (h : SameBlocks (c.install (c.getSet packet.address) (c.findVictim packet (c.getSet packet.address)) packet) c') :
    Filled c c' packet := by
  by_cases hway : c.findVictim packet (c.getSet packet.address) = c.config.numWay
  · exact .inl ⟨hway, (sameBlocks_bypass hway).trans h⟩
  · exact .inr ⟨hway, (installed_install hway).trans h⟩

section Rounds

variable [LinearOrder R] {c : Cache P R} {out : Outside} {now : Nat} {packet : Packet R} {round : Round P R}

inductive Accessed (c : Cache P R) : Round P R → Prop
  | idle : Accessed c .idle
  | done (c' : Cache P R) (answers : List (R × Packet R)) (h : SameBlocks c c') : Accessed c (.done c' answers)
  | sent (c' : Cache P R) (packet : Packet R) (asPrefetch : Bool) (h : SameBlocks c c') :
      Accessed c (.sent c' packet asPrefetch)
  | walked (c' : Cache P R) (packet : Packet R) (h : SameBlocks c c') : Accessed c (.walked c' packet)

omit [LinearOrder R] in
theorem Accessed.andThen {f : Cache P R → Cache P R} (hf : ∀ c, SameBlocks c (f c)) (h : Accessed c round) :
    Accessed c (round.andThen f) := by
  cases h with
  | idle => exact .idle
  | done c' answers h => exact .done _ _ (h.trans (hf c'))
  | sent c' packet asPrefetch h => exact .sent _ _ _ (h.trans (hf c'))
  | walked c' packet h => exact .walked _ _ (h.trans (hf c'))

theorem readlikeMiss_accessed (c : Cache P R) (out : Outside) (now : Nat) (packet : Packet R) :
    Accessed c (c.readlikeMiss out now packet) := by
  cases readlikeMiss_cases c out now packet with
  | merged i hi heq => exact heq ▸ .done _ _ ⟨rfl, fun _ _ => rfl⟩
  | blocked _ _ heq => exact heq ▸ .idle
  | sent _ _ _ heq => exact heq ▸ .sent _ _ _ (sameBlocks_allocated now)
  | walked _ _ _ heq => exact heq ▸ .walked _ _ (sameBlocks_allocated now)

theorem readlike_accessed (c : Cache P R) (out : Outside) (now : Nat) (packet : Packet R) :
    Accessed c (c.readlike out now packet) := by
  simp only [Cache.readlike]
  by_cases hway : c.getWay packet.address (c.getSet packet.address) < c.config.numWay
  · rw [if_pos hway]
    exact .done _ _ ((sameBlocks_update _ _ _ _ _ _).trans (sameBlocks_updateBlock (fun _ => rfl) (fun _ => rfl)))
  · rw [if_neg hway]
    exact readlikeMiss_accessed c out now packet

theorem handleRead_accessed (c : Cache P R) (out : Outside) (now : Nat) : Accessed c (c.handleRead out now) := by
  simp only [Cache.handleRead]
  by_cases hreads : c.readsAvailable = 0
  · rw [if_pos hreads]
    exact .idle
  rw [if_neg hreads]
  cases due c.rq now with
  | none => exact .idle
  | some packet => exact (readlike_accessed c out now packet).andThen (fun _ => ⟨rfl, fun _ _ => rfl⟩)

theorem handlePrefetch_accessed (c : Cache P R) (out : Outside) (now : Nat) : Accessed c (c.handlePrefetch out now) := by
  simp only [Cache.handlePrefetch]
  by_cases hreads : c.readsAvailable = 0
  · rw [if_pos hreads]
    exact .idle
  rw [if_neg hreads]
  cases due c.pq now with
  | none => exact .idle
  | some packet => exact (readlike_accessed c out now packet).andThen (fun _ => ⟨rfl, fun _ _ => rfl⟩)

theorem handleWriteback_cases (h : c.handleWriteback out now = some round) :
    Accessed c round ∨ ∃ packet c' writeback, round = .filled c' writeback none ∧
      Filled c c' packet ∧ ∀ v, v < c.config.numWay → resident c (c.getSet packet.address) v ≠ some packet.address := by
  simp only [Cache.handleWriteback] at h
  by_cases hwrites : c.writesAvailable = 0
  · rw [if_pos hwrites, Option.some.injEq] at h
    exact .inl (h ▸ .idle)
  rw [if_neg hwrites] at h
  cases hdue : due c.wq now with
  | none =>
      rw [hdue, Option.some.injEq] at h
      exact .inl (h ▸ .idle)
  | some packet =>
      simp only [hdue] at h
      have hpop : ∀ c : Cache P R, SameBlocks c c.popWq := fun c => ⟨rfl, fun _ _ => rfl⟩
      by_cases hway : c.getWay packet.address (c.getSet packet.address) < c.config.numWay
      · rw [if_pos hway, Option.map_some, Option.some.injEq] at h
        refine .inl (h ▸ Accessed.andThen hpop (.done _ _ ?_))
        exact (sameBlocks_update _ _ _ _ _ _).trans (sameBlocks_updateBlock (fun _ => rfl) (fun _ => rfl))
      rw [if_neg hway] at h
      by_cases htype : c.config.cacheType = .l1d
      · rw [if_pos htype, Option.map_some, Option.some.injEq] at h
        exact .inl (h ▸ (readlikeMiss_accessed c out now packet).andThen hpop)
      rw [if_neg htype, Option.map_eq_some_iff] at h
      obtain ⟨filled, hfilled, rfl⟩ := h
      rcases filllikeMiss_cases hfilled with rfl | ⟨writeback, rfl, -, -⟩
      · exact .inl .idle
      exact .inr ⟨packet, _, writeback, rfl, filled_install (hpop _), fun v hv => getWay_absent hway hv⟩

end Rounds

/-- What a cache is told from outside while it operates: also whether a block that it writes back is taken. -/
structure Cycle where
  out : Outside
  now : Nat
  warm : Bool
  accepted : Bool

inductive Call (R : Type)
  | addRq (e : Cycle) (packet : Packet R)
  | addWq (e : Cycle) (packet : Packet R)
  | addPq (e : Cycle) (packet : Packet R)
  | vaPrefetchLine (ip pfAddr : Nat) (pfFillLevel : Int) (prefetchMetadata : Nat)
  | returnData (e : Cycle) (packet : Packet R)
  | beginWrites
  | handleFill (e : Cycle)
  | handleWriteback (e : Cycle)
  | endWrites
  | beginReads
  | handleRead (e : Cycle)
  | vaTranslatePrefetches (e : Cycle) (fullAddr : Nat)
  | handlePrefetch (e : Cycle)
  | endReads

/-- One call of `operate`: each loop has as many rounds as the bandwidth allows. -/
def operate (config : Config P R) (e : Cycle) (fullAddr : Nat) : List (Call R) :=
  .beginWrites :: List.replicate config.maxWrite (.handleFill e) ++ List.replicate config.maxWrite (.handleWriteback e) ++
    [.endWrites, .beginReads] ++ List.replicate config.maxRead (.handleRead e) ++ [.vaTranslatePrefetches e fullAddr] ++
    List.replicate config.maxRead (.handlePrefetch e) ++ [.endReads]

section Run

variable [LinearOrder R]

def selfReplies (e : Cycle) (c : Cache P R) : List (R × Packet R) → Option (Cache P R)
  | [] => some c
  | (r, packet) :: rest =>
      if r = c.config.self then (c.returnData e.warm e.now packet).bind (fun c => selfReplies e c rest)
      else selfReplies e c rest

def added (e : Cycle) (result : Option (Added P R)) : Option (Cache P R) :=
  result.bind (fun a => selfReplies e a.cache a.replies)

/-- What is sent below is answered by a call of its own. -/
def after (e : Cycle) (c : Cache P R) : Round P R → Option (Cache P R)
  | .idle => some c
  | .done c' answers => selfReplies e c' answers
  | .sent c' _ _ => some c'
  | .walked c' packet => c'.returnData e.warm e.now packet
  | .filled c' writeback entry =>
      if writeback.isSome = true ∧ e.accepted = false then some c
      else match entry with
        | none => some c'
        | some answered => (selfReplies e c' (replies answered)).map (fun c => c.releaseMshr answered.address)

/-- `none` is a failed assertion. -/
def step (c : Cache P R) : Call R → Option (Cache P R)
  | .addRq e packet => added e (c.addRq e.warm packet)
  | .addWq e packet => some (c.addWq e.warm packet).1
  | .addPq e packet => added e (c.addPq e.warm packet)
  | .vaPrefetchLine ip pfAddr level metadata => c.vaPrefetchLine ip pfAddr level metadata
  | .returnData e packet => c.returnData e.warm e.now packet
  | .beginWrites => some c.beginWrites
  | .handleFill e => (c.handleFill e.out e.now).bind (after e c)
  | .handleWriteback e => (c.handleWriteback e.out e.now).bind (after e c)
  | .endWrites => some c.endWrites
  | .beginReads => some c.beginReads
  | .handleRead e => after e c (c.handleRead e.out e.now)
  | .vaTranslatePrefetches e fullAddr => added e (c.vaTranslatePrefetches e.warm fullAddr)
  | .handlePrefetch e => after e c (c.handlePrefetch e.out e.now)
  | .endReads => some c.endReads

/-- A fill that goes through finds its address in no way but the victim. -/
def FillsFresh (c : Cache P R) : Call R → Prop
  | .handleFill e => ∀ c' front filled writeback answered, step c (.handleFill e) = some c' → c.mshr.head? = some front →
      c.handleFill e.out e.now = some (.filled filled writeback (some answered)) →
      (writeback.isSome = true → e.accepted = true) →
      ∀ v, v < c.config.numWay → v ≠ c.findVictim front (c.getSet front.address) →
        resident c (c.getSet front.address) v ≠ some front.address
  | _ => True

variable {c c' : Cache P R} {e : Cycle} {round : Round P R} {call : Call R}

theorem selfReplies_same {answers : List (R × Packet R)} (h : selfReplies e c answers = some c') : SameBlocks c c' := by
  induction answers generalizing c with
  | nil => exact Option.some.inj h ▸ .refl c
  | cons answer rest ih =>
      simp only [selfReplies] at h
      split_ifs at h with hself
      · obtain ⟨d, hd, h⟩ := Option.bind_eq_some_iff.mp h
        exact (sameBlocks_return hd).trans (ih h)
      · exact ih h

theorem added_same {result : Option (Added P R)} (hresult : ∀ a ∈ result, SameBlocks c a.cache)
    (h : added e result = some c') : SameBlocks c c' := by
  obtain ⟨a, ha, h⟩ := Option.bind_eq_some_iff.mp h
  exact (hresult a ha).trans (selfReplies_same h)

theorem accessed_same (hround : Accessed c round) (h : after e c round = some c') : SameBlocks c c' := by
  cases hround with
  | idle => exact Option.some.inj h ▸ .refl c
  | done d answers hd => exact hd.trans (selfReplies_same h)
  | sent d packet asPrefetch hd => exact Option.some.inj h ▸ hd
  | walked d packet hd => exact hd.trans (sameBlocks_return h)

theorem addRq_same {warm : Bool} {packet : Packet R} : ∀ a ∈ c.addRq warm packet, SameBlocks c a.cache := by
  intro a ha
  simp only [Cache.addRq, Option.mem_def, Option.ite_none_left_eq_some] at ha
  cases hwq : c.foundWq packet <;> rw [hwq] at ha <;> cases ha.2 <;> exact ⟨rfl, fun _ _ => rfl⟩

theorem addPq_same {warm : Bool} {packet : Packet R} : ∀ a ∈ c.addPq warm packet, SameBlocks c a.cache := by
  intro a ha
  simp only [Cache.addPq, Option.mem_def, Option.ite_none_left_eq_some] at ha
  cases hwq : c.foundWq packet <;> rw [hwq] at ha <;> cases ha.2 <;> exact ⟨rfl, fun _ _ => rfl⟩

theorem vaTranslatePrefetches_same {warm : Bool} {fullAddr : Nat} :
    ∀ a ∈ c.vaTranslatePrefetches warm fullAddr, SameBlocks c a.cache := by
  intro a ha
  simp only [Cache.vaTranslatePrefetches, Option.mem_def] at ha
  split_ifs at ha
  · cases hfront : c.vapq.front? with
    | none =>
        rw [hfront] at ha
        cases ha
        exact .refl c
    | some front =>
        rw [hfront] at ha
        obtain ⟨b, hb, rfl⟩ := Option.map_eq_some_iff.mp ha
        exact (addPq_same b hb).trans ⟨rfl, fun _ _ => rfl⟩
  · cases ha
    exact .refl c

omit [LinearOrder R] in
theorem vaPrefetchLine_same {ip pfAddr metadata : Nat} {level : Int}
    (h : c.vaPrefetchLine ip pfAddr level metadata = some c') : SameBlocks c c' := by
  simp only [Cache.vaPrefetchLine] at h
  split_ifs at h <;> cases h <;> exact ⟨rfl, fun _ _ => rfl⟩

def Fresh (c : Cache P R) (packet : Packet R) : Prop :=
  ∀ v, v < c.config.numWay → v ≠ c.findVictim packet (c.getSet packet.address) →
    resident c (c.getSet packet.address) v ≠ some packet.address

/-- What a call does to the blocks: nothing, or it fills in a packet, which for a write is fresh. -/
inductive Effect (c c' : Cache P R) (call : Call R) : Prop
  | same (h : SameBlocks c c') (hfresh : FillsFresh c call)
  | filled (packet : Packet R) (h : Filled c c' packet) (hfresh : FillsFresh c call ↔ Fresh c packet)

theorem fill_effect (h : step c (.handleFill e) = some c') : Effect c c' (.handleFill e) := by
  have hstep := h
  obtain ⟨round, hround, h⟩ := Option.bind_eq_some_iff.mp h
  rcases handleFill_cases hround with rfl | ⟨front, writeback, hfront, -, rfl, -⟩
  · refine .same (Option.some.inj h ▸ .refl c) ?_
    intro _ _ _ _ _ _ _ hfilled
    rw [hround] at hfilled
    cases hfilled
  · simp only [after] at h
    by_cases hrefused : writeback.isSome = true ∧ e.accepted = false
    · rw [if_pos hrefused] at h
      refine .same (Option.some.inj h ▸ .refl c) ?_
      intro _ _ _ _ _ _ _ hfilled haccepted
      rw [hround] at hfilled
      cases hfilled
      rw [haccepted hrefused.1] at hrefused
      cases hrefused.2
    · rw [if_neg hrefused] at h
      obtain ⟨d, hd, rfl⟩ := Option.map_eq_some_iff.mp h
      have hspend : ∀ d : Cache P R, SameBlocks d d.spendWrite := fun d => ⟨rfl, fun _ _ => rfl⟩
      refine .filled front (filled_install ?_) ⟨fun hfresh => ?_, fun hfresh => ?_⟩
      · exact (hspend _).trans ((selfReplies_same hd).trans (sameBlocks_release _))
      · refine hfresh _ front _ writeback _ hstep hfront hround ?_
        intro hwb
        rw [← Bool.not_eq_false]
        exact fun hno => hrefused ⟨hwb, hno⟩
      · intro _ front' _ _ _ _ hfront' _ _
        rw [hfront, Option.some.injEq] at hfront'
        exact hfront' ▸ hfresh

theorem writeback_effect (h : step c (.handleWriteback e) = some c') : Effect c c' (.handleWriteback e) := by
  obtain ⟨round, hround, h⟩ := Option.bind_eq_some_iff.mp h
  rcases handleWriteback_cases hround with hsame | ⟨packet, d, writeback, rfl, hfilled, habsent⟩
  · exact .same (accessed_same hsame h) True.intro
  · simp only [after] at h
    by_cases hrefused : writeback.isSome = true ∧ e.accepted = false
    · rw [if_pos hrefused] at h
      exact .same (Option.some.inj h ▸ .refl c) True.intro
    · rw [if_neg hrefused] at h
      exact .filled packet (Option.some.inj h ▸ hfilled) (iff_of_true True.intro (fun v hv _ => habsent v hv))

theorem step_effect (h : step c call = some c') : Effect c c' call := by
  cases call with
  | addRq e packet => exact .same (added_same addRq_same h) True.intro
  | addWq e packet => exact .same (Option.some.inj h ▸ ⟨rfl, fun _ _ => rfl⟩) True.intro
  | addPq e packet => exact .same (added_same addPq_same h) True.intro
  | vaPrefetchLine ip pfAddr level metadata => exact .same (vaPrefetchLine_same h) True.intro
  | returnData e packet => exact .same (sameBlocks_return h) True.intro
  | beginWrites => exact .same (Option.some.inj h ▸ ⟨rfl, fun _ _ => rfl⟩) True.intro
  | handleFill e => exact fill_effect h
  | handleWriteback e => exact writeback_effect h
  | endWrites => exact .same (Option.some.inj h ▸ ⟨rfl, fun _ _ => rfl⟩) True.intro
  | beginReads => exact .same (Option.some.inj h ▸ ⟨rfl, fun _ _ => rfl⟩) True.intro
  | handleRead e => exact .same (accessed_same (handleRead_accessed c e.out e.now) h) True.intro
  | vaTranslatePrefetches e fullAddr => exact .same (added_same vaTranslatePrefetches_same h) True.intro
  | handlePrefetch e => exact .same (accessed_same (handlePrefetch_accessed c e.out e.now) h) True.intro
  | endReads => exact .same (Option.some.inj h ▸ ⟨rfl, fun _ _ => rfl⟩) True.intro

end Run

section Lru

variable [LinearOrder R] {c c' : Cache Unit R} {packet : Packet R} {call : Call R}

def UsesLru (c : Cache Unit R) : Prop := c.config.policy = lruPolicy R c.config.numWay

omit [LinearOrder R] in
theorem victim_lt (h : UsesLru c) {set : Nat} (hway : c.findVictim packet set ≠ c.config.numWay) :
    c.findVictim packet set < c.config.numWay := by
  have hvictim : c.findVictim packet set = lruVictim c.config.numWay (c.block set) := by
    rw [Cache.findVictim, h]
    rfl
  rw [hvictim] at hway ⊢
  by_cases hpos : 0 < c.config.numWay
  · exact lruVictim_lt hpos _
  · obtain hzero : c.config.numWay = 0 := by omega
    rw [hzero] at hway
    exact absurd rfl hway

omit [LinearOrder R] in
theorem Filled.distinct_iff (h : Filled c c' packet) (hlru : UsesLru c) (hd : DistinctBlocks c) :
    DistinctBlocks c' ↔ Fresh c packet := by
  rcases h with ⟨hway, hsame⟩ | ⟨hway, hinst⟩
  · have hzero : c.config.numWay = 0 := by
      by_contra hne
      have hlt := lruVictim_lt (Nat.pos_of_ne_zero hne) (c.block (c.getSet packet.address))
      have hvictim : c.findVictim packet (c.getSet packet.address) =
          lruVictim c.config.numWay (c.block (c.getSet packet.address)) := by
        rw [Cache.findVictim, hlru]
        rfl
      omega
    rw [hsame.distinct, iff_true_left hd]
    intro v hv
    omega
  · exact hinst.distinct_iff hd (victim_lt hlru hway)

theorem step_config (h : step c call = some c') : c'.config = c.config := by
  cases step_effect h with
  | same hsame _ => exact hsame.config
  | filled packet hfilled _ => exact hfilled.elim (fun h => h.2.config) (fun h => h.2.config)

theorem step_lru (h : UsesLru c) (hstep : step c call = some c') : UsesLru c' := by
  rw [UsesLru, step_config hstep]
  exact h

theorem distinct_step (hlru : UsesLru c) (hd : DistinctBlocks c) (hstep : step c call = some c') :
    DistinctBlocks c' ↔ FillsFresh c call := by
  cases step_effect hstep with
  | same hsame hfresh => exact iff_of_true (hsame.distinct.mpr hd) hfresh
  | filled packet hfilled hfresh => exact (hfilled.distinct_iff hlru hd).trans hfresh.symm

/-- A cache with LRU replacement, and nothing in it. -/
def emptyCache (config : Config Unit R) : Cache Unit R :=
  .initial { config with policy := lruPolicy R config.numWay } ()

omit [LinearOrder R] in
theorem emptyCache_lru (config : Config Unit R) : UsesLru (emptyCache config) := rfl

omit [LinearOrder R] in
theorem emptyCache_distinct (config : Config Unit R) : DistinctBlocks (emptyCache config) := by
  intro set v w a _ _ hv
  cases hv

/-- No set holds an address twice in any state of a run exactly when no fill of the run brings one again. -/
theorem no_duplicates_iff (config : Config Unit R) (calls : List (Call R)) :
    (∀ pre post c, calls = pre ++ post → run step (emptyCache config) pre = some c → DistinctBlocks c) ↔
      EveryStep step (emptyCache config) (fun _ => FillsFresh) calls := by
  have hlru : ∀ pre c, run step (emptyCache config) pre = some c → UsesLru c :=
    fun pre c h => run_preserves (I := UsesLru) (fun _ _ _ _ hi hs => step_lru hi hs) (emptyCache_lru config) h
  constructor
  · intro h pre call post c heq hc
    cases hstep : step c call with
    | some c' =>
        have hc' : run step (emptyCache config) (pre ++ [call]) = some c' := by
          rw [run_append, hc, Option.bind_some, run_cons, hstep, Option.bind_some, run_nil]
        have hafter := h (pre ++ [call]) post c' (by rw [heq, List.append_assoc]; rfl) hc'
        exact (distinct_step (hlru pre c hc) (h pre (call :: post) c heq hc) hstep).mp hafter
    | none =>
        cases call with
        | handleFill e =>
            intro c' _ _ _ _ hsome
            rw [hstep] at hsome
            cases hsome
        | _ => exact True.intro
  · intro h pre post c heq hc
    rw [heq] at h
    have hboth : UsesLru c ∧ DistinctBlocks c := by
      apply h.of_append.preserves (I := fun c => UsesLru c ∧ DistinctBlocks c) _ _ hc
      · intro c c' call hi hfresh hstep
        exact ⟨step_lru hi.1 hstep, (distinct_step hi.1 hi.2 hstep).mpr hfresh⟩
      · exact ⟨emptyCache_lru config, emptyCache_distinct config⟩
    exact hboth.2

/-- A second-level cache of two ways. -/
def small : Config Unit Nat where
  self := 0
  cacheType := .l2c
  fillLevel := 2
  numSet := 2
  numWay := 2
  wqSize := 2
  rqSize := 2
  pqSize := 2
  mshrSize := 2
  hitLatency := 1
  fillLatency := 1
  maxRead := 1
  maxWrite := 1
  policy := lruPolicy Nat 2

def quiet : Cycle := ⟨⟨false, false, false, 0, 0⟩, 0, false, true⟩

def blockFive (type : RequestType) (toReturn : List Nat) : Packet Nat :=
  { fillLevel := 1, type := type, cpu := 0, address := 5, fullAddr := 320, eventCycle := 0, toReturn := toReturn }

/-- A read misses; while it is in flight the block comes back from above; then the reply comes. -/
def missThenWriteback : List (Call Nat) :=
  [.addRq quiet (blockFive .load [1])] ++ operate small quiet 0 ++ operate small quiet 0 ++
    [.addWq quiet (blockFive .writeback [])] ++ operate small quiet 0 ++ operate small quiet 0 ++
    [.returnData quiet (blockFive .load [0])] ++ operate small quiet 0

theorem block_twice : ¬∀ pre post c, missThenWriteback = pre ++ post → run step (emptyCache small) pre = some c →
    DistinctBlocks c := by
  intro h
  have hrun : (run step (emptyCache small) missThenWriteback).any (fun c =>
      c.config.numWay == 2 && resident c 1 0 == some 5 && resident c 1 1 == some 5) = true := by decide +kernel
  obtain ⟨c, hc, hfacts⟩ := (Option.any_eq_true _ _).mp hrun
  simp only [Bool.and_eq_true, beq_iff_eq] at hfacts
  obtain ⟨⟨hways, hzero⟩, hone⟩ := hfacts
  have hsame := h missThenWriteback [] c (List.append_nil _).symm hc 1 0 1 5 (by omega) (by omega) hzero hone
  exact absurd hsame (by decide)

end Lru

end Thermometer.CacheBlocks
