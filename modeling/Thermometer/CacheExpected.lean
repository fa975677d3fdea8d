import Thermometer.CacheMatched

namespace Thermometer.CacheExpected

open Lib Runs Keyed Packets QueueList CacheModel CacheMshr CacheSystem CacheRoom CacheTokens CacheReplies CacheMatched

variable {P R : Type} [LinearOrder R]

/-- The prefetch that a step finds in its cache. -/
def hitOf (s : State P R) : Event R → Option (R × Packet R)
  | .handlePrefetch r _ =>
      if (s.cache r).readsAvailable = 0 then none
      else ((due (s.cache r).pq s.now).filter (fun p => !misses (s.cache r) p)).map (fun packet => (r, packet))
  | _ => none

/-- The virtual prefetch that a step translates. -/
def translatedOf (s : State P R) : Event R → Option (R × Packet R)
  | .vaTranslatePrefetches r fullAddr =>
      if (s.cache r).pq.full = false ∧ (s.cache r).vapq.hasReady = true then
        (s.cache r).vapq.front?.map (fun front =>
          (r, { front with fullAddr := fullAddr, address := fullAddr >>> (s.cache r).config.logBlockSize }))
      else none
  | _ => none

/-- A prefetch that its own cache waits for neither hits nor meets a queued write, and a page walk
is for a translation that its cache keeps. -/
structure Expected (t : Topology R) (config : R → Config P R) (s : State P R) (e : Event R) : Prop where
  hit : ∀ r p, hitOf s e = some (r, p) → t.isCache r = true → r ∉ p.toReturn
  forward : ∀ r p, translatedOf s e = some (r, p) → t.isCache r = true → (s.cache r).foundWq p = none
  walk : ∀ r p a, missOf s e = some (r, p, a) → t.cacheType r = .stlb → (s.cache r).findMshr p.address = none →
    (s.cache r).mshrFull = false → t.isCache r = true → p.fillLevel ≤ (config r).fillLevel

section Rounds

variable {t : Topology R} {config : R → Config P R} {s s' : State P R} {c c' : Cache P R} {r : R} {p : Packet R}
  {pop : Cache P R → Cache P R} {a : Answers} {out : Outside} {set way now : Nat} {round : Round P R}

theorem hit_sound (h : Sound t config none s) (ht : Takes t pop (s.cache r) p)
    (habove : ∀ u ∈ p.toReturn, t.isCache u = true → t.lower u = some r)
    (hs : perform t s r a (((s.cache r).readlikeHit set way p).andThen pop) = some s') : Sound t config none s' := by
  simp only [Cache.readlikeHit, Round.andThen, perform, Option.some.injEq] at hs
  subst hs
  apply Delivered.sound (s := s.set r (pop _))
  apply deliver_delivered
  · exact taken_sound h ht ⟨rfl, rfl, rfl, rfl, List.Subset.refl _, List.Subset.refl _⟩ rfl rfl
  · refine taken_inHand h ht ?_ ?_ ?_ habove ?_ ?_ <;> rfl

theorem readlike_sound (h : Sound t config none s) (hp : Asked t r p) (ht : Takes t pop (s.cache r) p)
    (hhit : misses (s.cache r) p = false → ∀ u ∈ p.toReturn, t.isCache u = true → t.lower u = some r)
    (hwalk : misses (s.cache r) p = true → t.cacheType r = .stlb → (s.cache r).findMshr p.address = none →
      (s.cache r).mshrFull = false → t.isCache r = true → p.fillLevel ≤ (config r).fillLevel)
    (hs : perform t s r a (((s.cache r).readlike out now p).andThen pop) = some s') : Sound t config none s' := by
  simp only [Cache.readlike] at hs
  by_cases hway : (s.cache r).getWay p.address ((s.cache r).getSet p.address) < (s.cache r).config.numWay
  · rw [if_pos hway] at hs
    exact hit_sound h ht (hhit (by simpa [misses] using hway)) hs
  · rw [if_neg hway] at hs
    exact miss_sound h hp ht (hwalk (by simpa [misses] using hway)) hs

omit [LinearOrder R] in
theorem due_mem {q : Pending (Packet R)} (h : due q now = some p) : p ∈ q.entries := by
  obtain ⟨rest, heq⟩ := due_some h
  exact heq ▸ List.mem_cons_self

theorem handleRead_sound (h : Sound t config none s) (he : Expected t config s (.handleRead r a))
    (hs : step t s (.handleRead r a) = some s') : Sound t config none s' := by
  simp only [step, Cache.handleRead] at hs
  by_cases hreads : (s.cache r).readsAvailable = 0
  · rw [if_pos hreads] at hs
    exact Option.some.inj hs ▸ h
  rw [if_neg hreads] at hs
  cases hdue : due (s.cache r).rq s.now with
  | none =>
      rw [hdue] at hs
      exact Option.some.inj hs ▸ h
  | some p =>
      simp only [hdue] at hs
      obtain ⟨haddr, habove⟩ := (h.caches r).rq p (due_mem hdue)
      apply readlike_sound h ⟨haddr, fun u hu hcache => .inr (habove u hu hcache)⟩ (takes_popRq hdue) (fun _ => habove) _ hs
      intro hmiss
      refine he.walk r p a ?_
      simp only [missOf, if_neg hreads, hdue, Option.filter_some, if_pos hmiss, Option.map_some]

theorem handlePrefetch_sound (h : Sound t config none s) (he : Expected t config s (.handlePrefetch r a))
    (hs : step t s (.handlePrefetch r a) = some s') : Sound t config none s' := by
  simp only [step, Cache.handlePrefetch] at hs
  by_cases hreads : (s.cache r).readsAvailable = 0
  · rw [if_pos hreads] at hs
    exact Option.some.inj hs ▸ h
  rw [if_neg hreads] at hs
  cases hdue : due (s.cache r).pq s.now with
  | none =>
      rw [hdue] at hs
      exact Option.some.inj hs ▸ h
  | some p =>
      simp only [hdue] at hs
      obtain ⟨haddr, hreturn⟩ := (h.caches r).pq p (due_mem hdue)
      apply readlike_sound h ⟨haddr, hreturn⟩ (takes_popPq hdue) _ _ hs
      · intro hhit u hu hcache
        refine (hreturn u hu hcache).resolve_left fun hur => ?_
        subst hur
        refine he.hit u p ?_ hcache hu
        simp only [hitOf, if_neg hreads, hdue, Option.filter_some, hhit, Bool.not_false, if_true, Option.map_some]
      · intro hmiss
        refine he.walk r p a ?_
        simp only [missOf, if_neg hreads, hdue, Option.filter_some, if_pos hmiss, Option.map_some]

theorem filled_sound {writeback entry : Option (Packet R)} (h : Sound t config none s) (ha : Alike (s.cache r) c)
    (hentry : ∀ answer ∈ entry, ∃ e ∈ (s.cache r).mshr, e.returned = .completed ∧ answer.address = e.address ∧
      answer.toReturn ⊆ e.toReturn)
    (hs : perform t s r a (.filled c writeback entry) = some s') : Sound t config none s' := by
  simp only [perform] at hs
  cases hbelow : writeBelow t s r writeback a with
  | none =>
      rw [hbelow] at hs
      exact Option.some.inj hs ▸ h
  | some below =>
      rw [hbelow] at hs
      obtain ⟨hsound, hsame⟩ := writeBelow_sound h hbelow
      have hset : Sound t config none (below.set r c) := alike_sound hsound (hsame ▸ ha)
      rw [← Option.some.inj hs]
      cases entry with
      | none => exact hset
      | some answer =>
          obtain ⟨e, he, hret, haddr, hreturn⟩ := hentry answer rfl
          refine release_sound hset ?_ hret haddr hreturn
          rw [set_cache_self, ha.mshr]
          exact he

theorem handleFill_sound (h : Sound t config none s) (hs : step t s (.handleFill r a) = some s') :
    Sound t config none s' := by
  obtain ⟨round, hround, hs⟩ := Option.bind_eq_some_iff.mp hs
  rcases handleFill_cases hround with rfl | ⟨front, writeback, hfront, hret, rfl, -⟩
  · exact Option.some.inj hs ▸ h
  · refine filled_sound h (alike_install Cache.spendWrite fun _ => ⟨rfl, rfl, rfl, rfl, List.Subset.refl _, List.Subset.refl _⟩)
      ?_ hs
    intro answer hanswer
    rw [Option.mem_some_iff] at hanswer
    subst hanswer
    refine ⟨front, List.mem_of_head? hfront, hret, rfl, ?_⟩
    simp only [Cache.filledEntry]
    split_ifs
    · exact List.nil_subset _
    · exact List.Subset.refl _

omit [LinearOrder R] in
theorem popWq_alike (ha : Alike c c') : Alike c c'.popWq := by
  refine ⟨ha.config, ha.mshr, ha.rq, ha.pq, ha.vapq, ?_⟩
  simp only [Cache.popWq, entries_popFront]
  exact List.Subset.trans (List.tail_sublist _).subset ha.wq

theorem handleWriteback_sound (h : Sound t config none s) (he : Expected t config s (.handleWriteback r a))
    (hs : step t s (.handleWriteback r a) = some s') : Sound t config none s' := by
  simp only [step, Cache.handleWriteback] at hs
  by_cases hwrites : (s.cache r).writesAvailable = 0
  · rw [if_pos hwrites] at hs
    exact Option.some.inj hs ▸ h
  rw [if_neg hwrites] at hs
  cases hdue : due (s.cache r).wq s.now with
  | none =>
      rw [hdue] at hs
      exact Option.some.inj hs ▸ h
  | some p =>
      simp only [hdue] at hs
      by_cases hway : (s.cache r).getWay p.address ((s.cache r).getSet p.address) < (s.cache r).config.numWay
      · rw [if_pos hway] at hs
        refine Option.some.inj hs ▸ alike_sound h (popWq_alike ?_)
        exact ⟨rfl, rfl, rfl, rfl, List.Subset.refl _, List.Subset.refl _⟩
      rw [if_neg hway] at hs
      by_cases htype : (s.cache r).config.cacheType = .l1d
      · rw [if_pos htype] at hs
        obtain ⟨haddr, hbus⟩ := (h.caches r).wq htype p (due_mem hdue)
        have hasked : Asked t r p := by
          refine ⟨haddr, fun u hu hcache => ?_⟩
          rw [hbus u hu] at hcache
          cases hcache
        refine miss_sound h hasked (takes_popWq hbus) (he.walk r p a ?_) hs
        have hmiss : misses (s.cache r) p = true := by
          simpa [misses] using hway
        simp only [missOf, hwrites, htype, hdue, Option.filter_some, if_pos hmiss, Option.map_some]
        simp
      rw [if_neg htype] at hs
      obtain ⟨round, hround, hs⟩ := Option.bind_eq_some_iff.mp hs
      obtain ⟨filled, hfilled, rfl⟩ := Option.map_eq_some_iff.mp hround
      rcases filllikeMiss_cases hfilled with rfl | ⟨writeback, rfl, -, -⟩
      · exact Option.some.inj hs ▸ h
      · refine filled_sound h (alike_install Cache.popWq fun c => popWq_alike ?_) (fun answer hanswer => by cases hanswer) hs
        exact ⟨rfl, rfl, rfl, rfl, List.Subset.refl _, List.Subset.refl _⟩

end Rounds

section Calls

variable {t : Topology R} {config : R → Config P R} {s s' : State P R} {c c' : Cache P R} {r : R} {q : Packet R}

theorem joined_sound {joined : Added P R} (h : Sound t config none s) (haddr : q.address ≠ 0)
    (hadd : AddCases (s.cache r) s.warm q joined) (hself : ∀ u ∈ q.toReturn, t.isCache u = true → u = r)
    (hread : joined.cache.rq = (s.cache r).rq ∨ ∀ u ∈ q.toReturn, t.isCache u = false) :
    Sound t config none (s.set r joined.cache) := by
  refine h.set ((h.caches r).enqueued haddr hadd (hread.imp_right fun hbus u hu hcache => ?_)
    (fun u hu hcache => .inl (hself u hu hcache))) (fun _ _ _ _ _ => le_rfl) (fun b => .inr fun hflight => ?_)
    (fun u b hcache hl => .inl ?_)
  · rw [hbus u hu] at hcache
    cases hcache
  · rw [completedIn, entry, added_mshr hadd]
    exact hflight
  · have hle : owed none r joined.cache u b ≤ owed none r (s.cache r) u b + if holds u b q then 1 else 0 := owed_added_le hadd
    have hno : ¬holds u b q = true := by
      intro hold
      have hur := hself u (holds_iff.mp hold).2 hcache
      exact t.lower_ne r (hur ▸ hl)
    rw [if_neg hno] at hle
    exact hle

theorem replies_inHand {warm : Bool} {joined : Added P R} (hadd : AddCases c warm q joined)
    (hbus : ∀ u ∈ q.toReturn, t.isCache u = false) :
    InHand t none s joined.replies := by
  have hno : ∀ data, InHand t none s (replies { q with data := data }) := by
    intro data x hx hcache
    obtain ⟨u, hu, rfl⟩ := List.mem_map.mp hx
    have hcache : t.isCache u = true := hcache
    rw [hbus u hu] at hcache
    cases hcache
  cases hadd with
  | forwarded data _ hreplies => exact hreplies ▸ hno data
  | read _ hreplies =>
      rw [hreplies]
      exact fun x hx => by cases hx
  | prefetched _ hreplies =>
      rw [hreplies]
      exact fun x hx => by cases hx

theorem addPq_rq {warm : Bool} {joined : Added P R} (h : c.addPq warm q = some joined) : joined.cache.rq = c.rq := by
  simp only [Cache.addPq, Option.ite_none_left_eq_some] at h
  cases hwq : c.foundWq q <;> rw [hwq] at h <;> cases h.2 <;> rfl

theorem added_sound {result : Option (Added P R)} (h : Sound t config none s)
    (hresult : ∀ joined ∈ result, q.address ≠ 0 ∧ AddCases (s.cache r) s.warm q joined)
    (hbus : ∀ u ∈ q.toReturn, t.isCache u = false) (hs : added t s r result = some s') : Sound t config none s' := by
  obtain ⟨joined, hjoined, rfl⟩ := Option.map_eq_some_iff.mp hs
  obtain ⟨haddr, hadd⟩ := hresult joined hjoined
  have hself : ∀ u ∈ q.toReturn, t.isCache u = true → u = r := by
    intro u hu hcache
    rw [hbus u hu] at hcache
    cases hcache
  exact (deliver_delivered (joined_sound h haddr hadd hself (.inr hbus)) (replies_inHand hadd hbus)).sound

theorem unchanged_sound (h : Sound t config none s) :
    Sound t config none (deliver t (s.set r (s.cache r)) []) := by
  have hsame : s.set r (s.cache r) = s := by
    rw [State.set, Function.update_eq_self]
  rw [hsame]
  exact h

theorem prefetchLine_sound {ip baseAddr pfAddr metadata : Nat} {level : Int} (h : Sound t config none s)
    (hs : step t s (.prefetchLine r ip baseAddr pfAddr level metadata) = some s') : Sound t config none s' := by
  simp only [step, Cache.prefetchLine] at hs
  by_cases hroom : (s.cache r).pq.full = false ∧
      baseAddr >>> (s.cache r).config.logPageSize = pfAddr >>> (s.cache r).config.logPageSize
  · rw [if_pos hroom] at hs
    exact added_sound h (fun joined hjoined => addPq_cases hjoined) (fun u hu => by cases hu) hs
  · rw [if_neg hroom] at hs
    exact Option.some.inj hs ▸ unchanged_sound h

theorem vaPrefetchLine_sound {ip pfAddr metadata : Nat} {level : Int} (h : Sound t config none s)
    (hs : step t s (.vaPrefetchLine r ip pfAddr level metadata) = some s') : Sound t config none s' := by
  obtain ⟨c, hc, rfl⟩ := Option.map_eq_some_iff.mp hs
  simp only [Cache.vaPrefetchLine, Option.ite_none_left_eq_some] at hc
  have hsame : Sound t config none (s.set r (s.cache r)) := unchanged_sound h
  obtain ⟨-, hc⟩ := hc
  split_ifs at hc
  · exact Option.some.inj hc ▸ hsame
  · exact Option.some.inj hc ▸ hsame
  · rw [← Option.some.inj hc]
    have hsound := h.caches r
    refine h.set ⟨hsound.config, hsound.distinct, hsound.rq, hsound.pq, hsound.mshr, fun p hp => ?_, hsound.wq⟩
      (fun _ _ _ _ _ => le_rfl) (fun _ => .inr id) (fun _ _ _ _ => .inl le_rfl)
    simp only [Pending.entries, Pending.pushBack, Pending.pushWith, List.map_append, List.mem_append] at hp
    rcases hp with hp | hp
    · exact hsound.vapq p hp
    · rw [List.map_singleton, List.mem_singleton] at hp
      subst hp
      intro u hu
      have hself : (s.cache r).config.self = r := congrArg Config.self hsound.config
      exact (List.mem_singleton.mp hu).trans hself

theorem vaTranslatePrefetches_sound {fullAddr : Nat} (h : Sound t config none s)
    (he : Expected t config s (.vaTranslatePrefetches r fullAddr))
    (hs : step t s (.vaTranslatePrefetches r fullAddr) = some s') : Sound t config none s' := by
  simp only [step, Cache.vaTranslatePrefetches] at hs
  by_cases hready : (s.cache r).pq.full = false ∧ (s.cache r).vapq.hasReady = true
  swap
  · rw [if_neg hready] at hs
    exact Option.some.inj hs ▸ unchanged_sound h
  rw [if_pos hready] at hs
  cases hfront : (s.cache r).vapq.front? with
  | none =>
      rw [hfront] at hs
      exact Option.some.inj hs ▸ unchanged_sound h
  | some front =>
      simp only [hfront, added, Option.map_map, Option.map_eq_some_iff] at hs
      obtain ⟨joined, hjoined, rfl⟩ := hs
      obtain ⟨haddr, hadd⟩ := addPq_cases hjoined
      have hself : ∀ u ∈ front.toReturn, u = r := (h.caches r).vapq front (List.mem_of_head? hfront)
      have htranslated : translatedOf s (.vaTranslatePrefetches r fullAddr) =
          some (r, { front with fullAddr := fullAddr, address := fullAddr >>> (s.cache r).config.logBlockSize }) := by
        simp only [translatedOf, if_pos hready, hfront, Option.map_some]
      have hpop : Alike ((s.set r joined.cache).cache r) { joined.cache with vapq := joined.cache.vapq.popFront } := by
        rw [set_cache_self]
        refine ⟨rfl, rfl, rfl, rfl, ?_, List.Subset.refl _⟩
        rw [entries_popFront]
        exact (List.tail_sublist _).subset
      have hlast := alike_sound (joined_sound h haddr hadd (fun u hu _ => hself u hu) (.inl (addPq_rq hjoined))) hpop
      rw [set_set] at hlast
      refine (deliver_delivered hlast ?_).sound
      by_cases hcache : t.isCache r = true
      · have hwq := he.forward _ _ htranslated hcache
        simp only [Cache.addPq, if_neg haddr, hwq, Option.some.injEq] at hjoined
        rw [← hjoined]
        exact fun x hx => by cases hx
      · have hbus : ∀ u ∈ front.toReturn, t.isCache u = false := by
          intro u hu
          rw [hself u hu]
          exact Bool.eq_false_iff.mpr hcache
        have hand : ∀ s : State P R, InHand t none s joined.replies := fun _ => replies_inHand hadd hbus
        exact hand _

end Calls

section Run

variable {t : Topology R} {config : R → Config P R} {policyState : R → P} {s s' : State P R} {r : R} {q : Packet R}

theorem addWq_sound (h : Sound t config none s) (hs : step t s (.addWq r q) = some s') : Sound t config none s' := by
  simp only [step, Option.ite_none_right_eq_some] at hs
  obtain ⟨houter, hs⟩ := hs
  have hsound := h.caches r
  rw [← Option.some.inj hs]
  refine h.set ⟨hsound.config, hsound.distinct, hsound.rq, hsound.pq, hsound.mshr, hsound.vapq, fun htype p hp => ?_⟩
    (fun _ _ _ _ _ => le_rfl) (fun _ => .inr id) (fun _ _ _ _ => .inl le_rfl)
  rcases mem_enqueue hp with hp | hp | ⟨e, he, -, hp⟩
  · exact hsound.wq htype p hp
  · exact hp ▸ houter
  · exact hp ▸ hsound.wq htype e he

theorem memoryReply_sound {i data : Nat} (h : Sound t config none s) (hs : step t s (.memoryReply i data) = some s') :
    Sound t config none s' := by
  obtain ⟨packet, hi, rfl⟩ := Option.map_eq_some_iff.mp hs
  obtain ⟨hlt, hget⟩ := List.getElem?_eq_some_iff.mp hi
  have hperm : (packet :: s.memory.eraseIdx i).Perm s.memory := hget ▸ List.getElem_cons_eraseIdx_perm hlt
  have hless : ∀ u b, t.lower u = none → t.isCache u = true →
      tokens t none { s with memory := s.memory.eraseIdx i } u b + (if holds u b packet then 1 else 0) = tokens t none s u b := by
    intro u b hl hu
    rw [tokens_memory hu hl, tokens_memory hu hl, ← hperm.countP_eq, List.countP_cons]
  have hsame : ∀ u b l, t.lower u = some l → t.isCache u = true →
      tokens t none { s with memory := s.memory.eraseIdx i } u b = tokens t none s u b := by
    intro u b l hl hu
    rw [tokens_below hu hl, tokens_below hu hl]
  have herased : Sound t config none { s with memory := s.memory.eraseIdx i } := by
    refine ⟨h.caches, fun p hp => h.memory p (List.mem_of_mem_eraseIdx hp), fun u b => ?_, h.matched⟩
    obtain ⟨hone, hflight⟩ := h.balanced u b
    by_cases hu : t.isCache u = true
    · cases hl : t.lower u with
      | none =>
          have heq := hless u b hl hu
          exact ⟨by omega, fun hne => hflight (by omega)⟩
      | some l =>
          rw [hsame u b l hl hu]
          exact ⟨hone, hflight⟩
    · rw [tokens_bus hu]
      exact ⟨Nat.zero_le _, fun hne => absurd rfl hne⟩
  refine (deliver_delivered herased ?_).sound
  intro x hx hcache
  obtain ⟨u, hu, rfl⟩ := List.mem_map.mp hx
  have hcache : t.isCache u = true := hcache
  have hl := h.memory packet (List.mem_of_getElem? hi) u hu hcache
  have heq := hless u packet.address hl hcache
  obtain ⟨hone, hflight⟩ := h.balanced u packet.address
  have hholds : holds u packet.address packet = true := holds_iff.mpr ⟨rfl, hu⟩
  rw [if_pos hholds] at heq
  show (∃ e, entry (s.cache u) packet.address = some e) ∧
    tokens t none { s with memory := s.memory.eraseIdx i } u packet.address = 0
  exact ⟨completedIn_some (hflight (by omega)), by omega⟩

theorem step_sound {e : Event R} (h : Sound t config none s) (he : Expected t config s e) (hs : step t s e = some s') :
    Sound t config none s' := by
  have hoperate : ∀ q : Pending (Packet R), q.operate.entries = q.entries := fun q => entries_operate q
  cases e with
  | addRq r packet =>
      simp only [step, Option.ite_none_right_eq_some] at hs
      exact added_sound h (fun joined hjoined => addRq_cases hjoined) hs.1.2 hs.2
  | addWq r packet => exact addWq_sound h hs
  | addPq r packet =>
      simp only [step, Option.ite_none_right_eq_some] at hs
      exact added_sound h (fun joined hjoined => addPq_cases hjoined) hs.1.2 hs.2
  | prefetchLine r ip baseAddr pfAddr level metadata => exact prefetchLine_sound h hs
  | vaPrefetchLine r ip pfAddr level metadata => exact vaPrefetchLine_sound h hs
  | beginWrites r =>
      exact Option.some.inj hs ▸ alike_sound h ⟨rfl, rfl, rfl, rfl, List.Subset.refl _, List.Subset.refl _⟩
  | handleFill r a => exact handleFill_sound h hs
  | handleWriteback r a => exact handleWriteback_sound h he hs
  | endWrites r =>
      refine Option.some.inj hs ▸ alike_sound h ⟨rfl, rfl, rfl, rfl, List.Subset.refl _, ?_⟩
      exact fun p hp => (hoperate (s.cache r).wq) ▸ hp
  | beginReads r =>
      exact Option.some.inj hs ▸ alike_sound h ⟨rfl, rfl, rfl, rfl, List.Subset.refl _, List.Subset.refl _⟩
  | handleRead r a => exact handleRead_sound h he hs
  | vaTranslatePrefetches r fullAddr => exact vaTranslatePrefetches_sound h he hs
  | handlePrefetch r a => exact handlePrefetch_sound h he hs
  | endReads r =>
      refine Option.some.inj hs ▸ alike_sound h ⟨rfl, rfl, hoperate _, hoperate _, ?_, List.Subset.refl _⟩
      exact fun p hp => (hoperate (s.cache r).vapq) ▸ hp
  | memoryReply i data => exact memoryReply_sound h hs
  | tick => exact Option.some.inj hs ▸ ⟨h.caches, h.memory, h.balanced, h.matched⟩
  | warmUp => exact Option.some.inj hs ▸ ⟨h.caches, h.memory, h.balanced, h.matched⟩

theorem initial_sound (t : Topology R) (config : R → Config P R) (policyState : R → P) :
    Sound t config none (.initial t config policyState) := by
  have hempty : ∀ r, ∀ e ∈ ((State.initial t config policyState).cache r).mshr, e = {} :=
    fun r e he => List.eq_of_mem_replicate he
  have hblank : ∀ r, ∀ p : Packet R → Bool, p {} = false → ((State.initial t config policyState).cache r).mshr.countP p = 0 := by
    intro r p hp
    rw [List.countP_eq_zero]
    intro e he
    rw [hempty r e he, hp]
    exact Bool.false_ne_true
  refine ⟨fun r => ⟨rfl, ?_, ?_, ?_, fun e he => ?_, ?_, ?_⟩, fun p hp => (by cases hp), fun u b => ?_, rfl⟩
  · have hnone : ((State.initial t config policyState).cache r).mshr.filterMap address? = [] := by
      rw [List.filterMap_eq_nil_iff]
      intro e he
      rw [hempty r e he]
      rfl
    rw [DistinctMshr, Distinct, hnone]
    exact List.nodup_nil
  · exact fun p hp => by cases hp
  · exact fun p hp => by cases hp
  · rw [hempty r e he]
    exact ⟨fun _ => rfl, fun u hu => by cases hu⟩
  · exact fun p hp => by cases hp
  · exact fun _ p hp => by cases hp
  · have hzero : tokens t none (State.initial t config policyState) u b = 0 := by
      by_cases hu : t.isCache u = true
      · cases hl : t.lower u with
        | none =>
            rw [tokens_memory hu hl]
            rfl
        | some l =>
            rw [tokens_below hu hl]
            simp only [owed]
            rw [hblank l _ (by simp [holds])]
            rfl
      · exact tokens_bus hu
    rw [hzero]
    exact ⟨Nat.zero_le _, fun hne => absurd rfl hne⟩

/-- In a run in which no cache answers itself, and no page walk is for a translation that is not kept,
every reply finds its entry. -/
theorem replies_find_entries (t : Topology R) (config : R → Config P R) (policyState : R → P) (events : List (Event R))
    (h : EveryStep (step t) (.initial t config policyState) (fun _ => Expected t config) events) :
    ∀ pre post s, events = pre ++ post → run (step t) (.initial t config policyState) pre = some s → s.unmatched = [] := by
  intro pre post s heq hs
  subst heq
  have hsound := h.of_append.preserves (I := Sound t config none) (fun _ _ _ hi he hstep => step_sound hi he hstep)
    (initial_sound t config policyState) hs
  exact hsound.matched

def loadAnswered : List (Event Nat) :=
  [loadOf 5, .endReads 1, .tick, .beginReads 1, .handleRead 1 idleOutside, .endReads 0, .tick, .beginReads 0,
    .handleRead 0 idleOutside, .memoryReply 0 7, .tick, .beginWrites 0, .handleFill 0 idleOutside]

theorem load_finds_entry :
    (run (step twoLevels) (.initial twoLevels narrow (fun _ => ())) loadAnswered).any
      (fun s => completedIn (s.cache 1) 5 == some true && (s.cache 0).mshr.all (fun e => e.address == 0)) = true ∧
    ∀ pre post s, loadAnswered = pre ++ post →
      run (step twoLevels) (.initial twoLevels narrow (fun _ => ())) pre = some s → s.unmatched = [] := by
  refine ⟨by decide +kernel, replies_find_entries twoLevels narrow (fun _ => ()) loadAnswered ?_⟩
  intro pre e post s heq _
  have hmem : e ∈ loadAnswered := by
    rw [heq]
    exact List.mem_append_right pre List.mem_cons_self
  have hnone : hitOf s e = none ∧ translatedOf s e = none := by
    simp only [loadAnswered, loadOf, List.mem_cons, List.not_mem_nil, or_false] at hmem
    rcases hmem with rfl | rfl | rfl | rfl | rfl | rfl | rfl | rfl | rfl | rfl | rfl | rfl | rfl <;> exact ⟨rfl, rfl⟩
  refine ⟨fun r p h => ?_, fun r p h => ?_, fun r p a _ hstlb => ?_⟩
  · rw [hnone.1] at h
    cases h
  · rw [hnone.2] at h
    cases h
  · simp only [twoLevels] at hstlb
    split_ifs at hstlb

def cycleOf (fullAddr : Nat) : List (Event Nat) :=
  [.beginWrites 1, .handleFill 1 idleOutside, .handleWriteback 1 idleOutside, .endWrites 1, .beginReads 1,
    .handleRead 1 idleOutside, .vaTranslatePrefetches 1 fullAddr, .handlePrefetch 1 idleOutside, .endReads 1, .tick]

/-- A virtual prefetch is two cycles old when a store to its block arrives. -/
def prefetchMeetsStore : List (Event Nat) :=
  [.vaPrefetchLine 1 16 20800 1 0] ++ cycleOf 1229120 ++ cycleOf 1229120 ++
    [.addWq 1 { fillLevel := 1, type := .rfo, cpu := 0, address := 19205, fullAddr := 1229120, eventCycle := 0 }] ++
    cycleOf 1229120

theorem reply_without_entry : ¬∀ pre post s, prefetchMeetsStore = pre ++ post →
    run (step twoLevels) (.initial twoLevels narrow (fun _ => ())) pre = some s → s.unmatched = [] := by
  intro h
  have hrun : (run (step twoLevels) (.initial twoLevels narrow (fun _ => ())) prefetchMeetsStore).any
      (fun s => s.unmatched.length == 1) = true := by decide +kernel
  obtain ⟨s, hs, hlen⟩ := (Option.any_eq_true _ _).mp hrun
  rw [beq_iff_eq, h prefetchMeetsStore [] s (List.append_nil _).symm hs] at hlen
  cases hlen

end Run

end Thermometer.CacheExpected
