import Thermometer.CacheReplies

namespace Thermometer.CacheMatched

open Lib Runs Keyed Packets QueueList CacheModel CacheMshr CacheSystem CacheRoom CacheTokens CacheReplies

variable {P R : Type} [LinearOrder R]

section Sets

variable {t : Topology R} {config : R → Config P R} {answering : Option (R × Nat)} {s s' : State P R} {c c' : Cache P R}
  {r u : R} {a : Nat} {p : Packet R} {pop : Cache P R → Cache P R}

theorem tokens_set_self (h : t.lower u ≠ some r) : tokens t answering (s.set r c) u a = tokens t answering s u a := by
  by_cases hu : t.isCache u = true
  · cases hl : t.lower u with
    | none => rw [tokens_memory hu hl, tokens_memory hu hl, set_memory]
    | some l =>
        rw [tokens_below hu hl, tokens_below hu hl, set_cache_of_ne]
        exact fun hlr => h (hl.trans (congrArg some hlr))
  · rw [tokens_bus hu, tokens_bus hu]

theorem alike_sound (h : Sound t config answering s) (ha : Alike (s.cache r) c') :
    Sound t config answering (s.set r c') := by
  refine h.set ((h.caches r).alike ha) (fun _ _ _ _ _ => le_rfl) (fun a => .inr fun hflight => ?_)
    (fun u a _ _ => .inl ha.owed.le)
  rw [completedIn, ha.entry]
  exact hflight

theorem tokens_settled (h : Sound t config answering s) (hne : completedIn (s.cache u) a ≠ some false) :
    tokens t answering s u a = 0 := by
  by_contra htokens
  exact hne ((h.balanced u a).2 htokens)

theorem taken_inHand (h : Sound t config none s) (ht : Takes t pop (s.cache r) p)
    (hrq : c.rq = (s.cache r).rq) (hpq : c.pq = (s.cache r).pq) (hmshr : c.mshr = (s.cache r).mshr)
    (habove : ∀ u ∈ p.toReturn, t.isCache u = true → t.lower u = some r) {q : Packet R} (haddr : q.address = p.address)
    (hreturn : q.toReturn = p.toReturn) : InHand t none (s.set r (pop c)) (replies q) := by
  intro x hx hcache
  obtain ⟨u, hu, rfl⟩ := List.mem_map.mp hx
  rw [hreturn] at hu
  have hcache : t.isCache u = true := hcache
  have hl := habove u hu hcache
  have hne : u ≠ r := by
    intro hur
    exact t.lower_ne r (hur ▸ hl)
  have howed := ht.owed none r c u p.address hrq hpq hcache
  rw [if_pos (holds_iff.mpr ⟨rfl, hu⟩)] at howed
  have hsame : owed none r c u p.address = tokens t none s u p.address := by
    rw [tokens_below hcache hl]
    simp only [owed, hrq, hpq, hmshr]
  obtain ⟨hone, hflight⟩ := h.balanced u p.address
  show (∃ e, entry ((s.set r (pop c)).cache u) q.address = some e) ∧ tokens t none (s.set r (pop c)) u q.address = 0
  rw [haddr]
  constructor
  · rw [set_cache_of_ne s _ hne]
    exact completedIn_some (hflight (by omega))
  · rw [tokens_below hcache hl, set_cache_self]
    omega

theorem taken_sound (h : Sound t config none s) (ht : Takes t pop (s.cache r) p) (ha : Alike (s.cache r) c)
    (hrq : c.rq = (s.cache r).rq) (hpq : c.pq = (s.cache r).pq) : Sound t config none (s.set r (pop c)) := by
  refine h.set (((h.caches r).alike ha).taken ht) (fun _ _ _ _ _ => le_rfl) (fun a => .inr fun hflight => ?_)
    (fun u a hcache _ => .inl ?_)
  · rw [completedIn, entry, ht.mshr, ha.mshr]
    exact hflight
  · have howed := ht.owed none r c u a hrq hpq hcache
    rw [ha.owed] at howed
    omega

end Sets

section Misses

variable {t : Topology R} {config : R → Config P R} {s s' : State P R} {c c' : Cache P R} {r : R} {p : Packet R}
  {pop : Cache P R → Cache P R} {out : Outside} {a : Answers} {i now : Nat}

/-- The packet of a miss: it is for an address, and buses, caches above or the cache itself wait for it. -/
structure Asked (t : Topology R) (r : R) (p : Packet R) : Prop where
  address : p.address ≠ 0
  toReturn : ∀ u ∈ p.toReturn, t.isCache u = true → u = r ∨ t.lower u = some r

theorem merged_cacheSound (h : CacheSound t config r c) (hp : Asked t r p) (hi : c.findMshr p.address = some i) :
    CacheSound t config r (c.mergeMshr i p) := by
  obtain ⟨e, hget, hkey, -⟩ := findMshr_some hi
  have he := address?_iff.mp hkey
  refine ⟨h.config, (merge_entry h.distinct hi).1, h.rq, h.pq, fun d hd => ?_, h.vapq, h.wq⟩
  rcases mem_modify hget hd with hd | rfl
  · exact h.mshr d hd
  · refine ⟨fun hzero => ?_, fun u hu hcache => ?_⟩
    · rw [mergeMiss_address he.2.symm] at hzero
      exact absurd hzero he.1
    · rcases mem_mergeMiss hu with hu | hu
      · exact (h.mshr e (List.mem_of_getElem? hget)).2 u hu hcache
      · exact hp.toReturn u hu hcache

omit [LinearOrder R] in
theorem allocated_cacheSound (h : CacheSound t config r c) (hp : Asked t r p) (hno : c.findMshr p.address = none)
    (hfull : c.mshrFull = false) : CacheSound t config r (c.allocated now p) := by
  simp only [Cache.allocated]
  by_cases hlevel : p.fillLevel ≤ c.config.fillLevel
  · rw [if_pos hlevel]
    obtain ⟨i, e, hfind, hi, -⟩ := exists_free hfull
    have heq : c.allocateMshr now p = { c with mshr := c.mshr.set i { p with returned := .inflight, cycleEnqueued := now } } := by
      simp only [Cache.allocateMshr, hfind]
    have hd := (allocate_entry h.distinct hfull hp.address (findMshr_none.mp hno) now).1
    rw [heq] at hd ⊢
    refine ⟨h.config, hd, h.rq, h.pq, fun d hmem => ?_, h.vapq, h.wq⟩
    rcases List.mem_or_eq_of_mem_set hmem with hmem | rfl
    · exact h.mshr d hmem
    · exact ⟨fun hzero => absurd hzero hp.address, hp.toReturn⟩
  · rw [if_neg hlevel]
    exact h

theorem merged_sound (h : Sound t config none s) (hp : Asked t r p) (ht : Takes t pop (s.cache r) p)
    (hi : (s.cache r).findMshr p.address = some i) : Sound t config none (s.set r (pop ((s.cache r).mergeMshr i p))) := by
  refine h.set ((merged_cacheSound (h.caches r) hp hi).taken ht) (fun _ _ _ _ _ => le_rfl) (fun b => .inr fun hflight => ?_)
    (fun u b hcache _ => .inl ?_)
  · rw [completedIn, entry, ht.mshr]
    change (entry ((s.cache r).mergeMshr i p) b).map _ = _
    rw [(merge_entry (h.caches r).distinct hi).2 b]
    by_cases hb : b = p.address
    · rw [if_pos hb, Option.map_map]
      simpa only [completedIn, Function.comp_def, mergeMiss_returned] using hflight
    · rw [if_neg hb]
      exact hflight
  · have htaken := ht.owed none r ((s.cache r).mergeMshr i p) u b rfl rfl hcache
    have hmerge : owed none r ((s.cache r).mergeMshr i p) u b ≤ owed none r (s.cache r) u b + if holds u b p then 1 else 0 :=
      owed_merge_le hi
    omega

structure Allocated (t : Topology R) (config : R → Config P R) (s : State P R) (r : R) (p : Packet R) : Prop where
  sound : Sound t config none s
  zero : tokens t none s r p.address = 0
  flight : p.fillLevel ≤ (config r).fillLevel → completedIn (s.cache r) p.address = some false

theorem allocated_sound (h : Sound t config none s) (hp : Asked t r p) (ht : Takes t pop (s.cache r) p)
    (hno : (s.cache r).findMshr p.address = none) (hfull : (s.cache r).mshrFull = false) :
    Allocated t config (s.set r (pop ((s.cache r).allocated now p))) r p := by
  have hsettled : tokens t none s r p.address = 0 := by
    apply tokens_settled h
    rw [completedIn, findMshr_none.mp hno]
    intro hnone
    cases hnone
  have hentry := allocate_entry (h.caches r).distinct hfull hp.address (findMshr_none.mp hno) now
  refine ⟨?_, (tokens_set_self (t.lower_ne r)).trans hsettled, fun hlevel => ?_⟩
  · obtain ⟨mshr, heq⟩ := allocated_eq (s.cache r) now p
    refine h.set ((allocated_cacheSound (h.caches r) hp hno hfull).taken ht) (fun _ _ _ _ _ => le_rfl) (fun b => ?_)
      (fun u b hcache _ => .inl ?_)
    · by_cases hb : b = p.address
      · exact .inl (hb ▸ hsettled)
      · refine .inr fun hflight => ?_
        rw [completedIn, entry, ht.mshr]
        change (entry ((s.cache r).allocated now p) b).map _ = _
        simp only [Cache.allocated]
        by_cases hlevel : p.fillLevel ≤ (s.cache r).config.fillLevel
        · rw [if_pos hlevel, hentry.2 b, if_neg hb]
          exact hflight
        · rw [if_neg hlevel]
          exact hflight
    · have htaken := ht.owed none r ((s.cache r).allocated now p) u b (by rw [heq]) (by rw [heq]) hcache
      have halloc : owed none r ((s.cache r).allocated now p) u b ≤
          owed none r (s.cache r) u b + if holds u b p then 1 else 0 := owed_allocated_le hfull
      omega
  · have hlevel' : p.fillLevel ≤ (s.cache r).config.fillLevel := by
      rw [(h.caches r).config]
      exact hlevel
    rw [set_cache_self, completedIn, entry, ht.mshr]
    change (entry ((s.cache r).allocated now p) p.address).map _ = _
    rw [Cache.allocated, if_pos hlevel', hentry.2, if_pos rfl]
    rfl

/-- A miss of a packet that is taken from its queue. -/
theorem miss_sound (h : Sound t config none s) (hp : Asked t r p) (ht : Takes t pop (s.cache r) p)
    (hwalk : t.cacheType r = .stlb → (s.cache r).findMshr p.address = none → (s.cache r).mshrFull = false →
      t.isCache r = true → p.fillLevel ≤ (config r).fillLevel)
    (hs : perform t s r a (((s.cache r).readlikeMiss out now p).andThen pop) = some s') : Sound t config none s' := by
  have hconfig : (s.cache r).config = t.config config r := (h.caches r).config
  cases readlikeMiss_cases (s.cache r) out now p with
  | merged i hi heq =>
      rw [heq] at hs
      exact Option.some.inj hs ▸ merged_sound h hp ht hi
  | blocked _ _ heq =>
      rw [heq] at hs
      exact Option.some.inj hs ▸ h
  | sent hno hfree _ heq =>
      have hfull : (s.cache r).mshrFull = false := Bool.eq_false_iff.mpr fun hfull => hfree (.inl hfull)
      have hnew : Allocated t config (s.set r (pop ((s.cache r).allocated now p))) r p := allocated_sound h hp ht hno hfull
      rw [heq] at hs
      refine send_sound hnew.sound ?_ hs
      intro u hu
      simp only [Cache.lowerPacket] at hu
      by_cases hlevel : p.fillLevel ≤ (s.cache r).config.fillLevel
      · rw [if_pos hlevel, List.mem_singleton, hconfig] at hu
        rw [hconfig] at hlevel
        exact ⟨hu, hnew.flight hlevel, hnew.zero⟩
      · rw [if_neg hlevel] at hu
        cases hu
  | walked hno hfree htype heq =>
      have hfull : (s.cache r).mshrFull = false := Bool.eq_false_iff.mpr fun hfull => hfree (.inl hfull)
      have hnew : Allocated t config (s.set r (pop ((s.cache r).allocated now p))) r p := allocated_sound h hp ht hno hfull
      have hstlb : t.cacheType r = .stlb := by
        rw [hconfig] at htype
        exact htype
      rw [heq] at hs
      refine Option.some.inj hs ▸ (reply_delivered hnew.sound ?_).sound
      intro x hx hcache
      rw [List.mem_singleton.mp hx] at hcache ⊢
      exact ⟨completedIn_some (hnew.flight (hwalk hstlb hno hfull hcache)), hnew.zero⟩

end Misses

section Fills

variable {t : Topology R} {config : R → Config P R} {s s' : State P R} {c c' : Cache P R} {r u l : R} {e answer : Packet R}
  {a : Answers} {writeback : Option (Packet R)} {b address : Nat}

theorem live_none (l : R) (e : Packet R) : live none l e = true := by
  simp [live]

theorem owed_answering_le (x : Option (R × Nat)) : owed x l c u b ≤ owed none l c u b := by
  have hcount : c.mshr.countP (fun e => holds u b e && live x l e) ≤ c.mshr.countP (fun e => holds u b e && live none l e) := by
    apply List.countP_mono_left
    intro e _ hold
    rw [Bool.and_eq_true] at hold ⊢
    exact ⟨hold.1, live_none l e⟩
  simp only [owed]
  omega

theorem tokens_answering_le (x : Option (R × Nat)) : tokens t x s u b ≤ tokens t none s u b := by
  by_cases hu : t.isCache u = true
  · cases hl : t.lower u with
    | none => rw [tokens_memory hu hl, tokens_memory hu hl]
    | some l =>
        rw [tokens_below hu hl, tokens_below hu hl]
        exact owed_answering_le x
  · rw [tokens_bus hu, tokens_bus hu]

theorem answering_sound (h : Sound t config none s) (x : Option (R × Nat)) : Sound t config x s := by
  refine ⟨h.caches, h.memory, fun u b => ?_, h.matched⟩
  have hle : tokens t x s u b ≤ tokens t none s u b := tokens_answering_le x
  obtain ⟨hone, hflight⟩ := h.balanced u b
  exact ⟨hle.trans hone, fun hne => hflight (by omega)⟩

theorem owed_answering (he : e ∈ c.mshr) (hu : u ∈ e.toReturn) :
    owed (some (l, e.address)) l c u e.address + 1 ≤ owed none l c u e.address := by
  have hcount : c.mshr.countP (fun d => holds u e.address d && live (some (l, e.address)) l d) + 1 ≤
      c.mshr.countP (fun d => holds u e.address d && live none l d) := by
    have hno : ∀ d ∈ c.mshr, ¬(holds u e.address d && live (some (l, e.address)) l d) = true := by
      intro d _ hold
      rw [Bool.and_eq_true] at hold
      simp [live, (holds_iff.mp hold.1).1] at hold
    rw [List.countP_eq_zero.mpr hno, Nat.zero_add, Nat.one_le_iff_ne_zero, ← Nat.pos_iff_ne_zero, List.countP_pos_iff]
    exact ⟨e, he, Bool.and_eq_true_iff.mpr ⟨holds_iff.mpr ⟨rfl, hu⟩, live_none l e⟩⟩
  simp only [owed]
  omega

omit [LinearOrder R] in
theorem entry_of_mem (hd : DistinctMshr c) (he : e ∈ c.mshr) (hne : e.address ≠ 0) : entry c e.address = some e :=
  (lookup_iff hd).mpr ⟨he, address?_iff.mpr ⟨hne, rfl⟩⟩

omit [LinearOrder R] in
theorem mem_release (he : e ∈ (c.releaseMshr address).mshr) : e ∈ c.mshr ∨ e = {} := by
  simp only [Cache.releaseMshr] at he
  cases hfind : c.findMshr address with
  | none =>
      simp only [hfind] at he
      exact .inl he
  | some i =>
      simp only [hfind] at he
      exact List.mem_or_eq_of_mem_set ((ListSort.sort_perm _).mem_iff.mp he)

/-- An entry that has returned answers all that wait for it, and is freed. -/
theorem release_sound (h : Sound t config none s) (he : e ∈ (s.cache r).mshr) (hret : e.returned = .completed)
    (haddr : answer.address = e.address) (hreturn : answer.toReturn ⊆ e.toReturn) :
    Sound t config none (release t s r (some answer)) := by
  have hsettled : tokens t none s r e.address = 0 := by
    apply tokens_settled h
    intro hflight
    obtain ⟨d, hd⟩ := completedIn_some hflight
    have hne : e.address ≠ 0 := (entry_address hd).2 ▸ (entry_address hd).1
    rw [completedIn, entry_of_mem (h.caches r).distinct he hne, Option.map_some, hret] at hflight
    cases hflight
  have hand : InHand t (some (r, e.address)) s (replies answer) := by
    intro x hx hcache
    obtain ⟨u, hu, rfl⟩ := List.mem_map.mp hx
    have hcache : t.isCache u = true := hcache
    have hu := hreturn hu
    obtain ⟨hzero, habove⟩ := (h.caches r).mshr e he
    have hne : e.address ≠ 0 := by
      intro hno
      rw [hzero hno] at hu
      cases hu
    show (∃ d, entry (s.cache u) answer.address = some d) ∧ tokens t (some (r, e.address)) s u answer.address = 0
    rw [haddr]
    rcases habove u hu hcache with rfl | hl
    · refine ⟨⟨e, entry_of_mem (h.caches u).distinct he hne⟩, ?_⟩
      have hle : tokens t (some (u, e.address)) s u e.address ≤ tokens t none s u e.address := tokens_answering_le _
      omega
    · have hless : owed (some (r, e.address)) r (s.cache r) u e.address + 1 ≤ owed none r (s.cache r) u e.address :=
        owed_answering he hu
      obtain ⟨hone, hflight⟩ := h.balanced u e.address
      rw [tokens_below hcache hl] at hone hflight ⊢
      exact ⟨completedIn_some (hflight (by omega)), by omega⟩
  have hlast := deliver_delivered (answering_sound h (some (r, e.address))) hand
  have hsound := hlast.sound.caches r
  obtain ⟨mshr, heq⟩ := releaseMshr_eq ((deliver t s (replies answer)).cache r) answer.address
  obtain ⟨hd, hentry⟩ := @release_entry _ _ ((deliver t s (replies answer)).cache r) answer.address hsound.distinct
  have hcache : CacheSound t config r (((deliver t s (replies answer)).cache r).releaseMshr answer.address) := by
    refine ⟨?_, hd, ?_, ?_, fun d hmem => ?_, ?_, ?_⟩
    · rw [heq]
      exact hsound.config
    · rw [heq]
      exact hsound.rq
    · rw [heq]
      exact hsound.pq
    · rcases mem_release hmem with hmem | rfl
      · exact hsound.mshr d hmem
      · exact ⟨fun _ => rfl, fun u hu => by cases hu⟩
    · rw [heq]
      exact hsound.vapq
    · rw [heq]
      exact hsound.wq
  refine hlast.sound.set hcache (fun l c u b hl => ?_) (fun b => ?_) (fun u b _ _ => .inl ?_)
  · have hlive : ∀ d : Packet R, live (some (r, e.address)) l d = true := by
      intro d
      simp only [live, decide_eq_true_eq, ne_eq, Option.some.injEq, Prod.mk.injEq, not_and]
      exact fun hrl => absurd hrl.symm hl
    simp only [owed, live_none, hlive]
    exact le_rfl
  · by_cases hb : b = answer.address
    · rw [hb, haddr, hlast.tokens]
      have hle : tokens t (some (r, e.address)) s r e.address ≤ tokens t none s r e.address := tokens_answering_le _
      exact .inl (by omega)
    · refine .inr fun hflight => ?_
      rw [completedIn, hentry b, if_neg hb]
      exact hflight
  · rw [haddr]
    exact owed_release_le hsound.distinct (fun d hmem => (hsound.mshr d hmem).1) b

theorem writeBelow_sound (h : Sound t config none s) (hs : writeBelow t s r writeback a = some s') :
    Sound t config none s' ∧ s'.cache r = s.cache r := by
  cases writeback with
  | none => exact Option.some.inj hs ▸ ⟨h, rfl⟩
  | some packet =>
      cases hl : t.lower r with
      | none =>
          simp only [writeBelow, hl, Option.ite_none_left_eq_some] at hs
          exact Option.some.inj hs.2 ▸ ⟨h, rfl⟩
      | some l =>
          simp only [writeBelow, hl, Option.ite_none_left_eq_some] at hs
          obtain ⟨-, hs⟩ := hs
          have hne : r ≠ l := by
            intro hrl
            exact t.lower_ne r (hl.trans (congrArg some hrl.symm))
          have hsound := h.caches l
          have hcache : CacheSound t config l ((s.cache l).addWq s.warm packet).1 := by
            refine ⟨hsound.config, hsound.distinct, hsound.rq, hsound.pq, hsound.mshr, hsound.vapq, fun htype => ?_⟩
            have htype : t.cacheType l = .l1d := by
              have hconfig : (s.cache l).config.cacheType = t.cacheType l := congrArg Config.cacheType hsound.config
              exact hconfig.symm.trans htype
            exact absurd htype (t.lower_not_l1d r l hl)
          rw [← Option.some.inj hs]
          exact ⟨h.set hcache (fun _ _ _ _ _ => le_rfl) (fun _ => .inr id) (fun _ _ _ _ => .inl le_rfl),
            set_cache_of_ne s _ hne⟩

end Fills

end Thermometer.CacheMatched
