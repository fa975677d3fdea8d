import Thermometer.CacheRoom
import Thermometer.CacheTokens

namespace Thermometer.CacheReplies

open Lib Runs Keyed Packets QueueList CacheModel CacheMshr CacheSystem CacheTokens

variable {P R : Type} [LinearOrder R]

def tokens (t : Topology R) (answering : Option (R × Nat)) (s : State P R) (u : R) (a : Nat) : Nat :=
  if t.isCache u then
    match t.lower u with
    | some l => owed answering l (s.cache l) u a
    | none => s.memory.countP (holds u a)
  else 0

omit [LinearOrder R] in
def completedIn (c : Cache P R) (a : Nat) : Option Bool := (entry c a).map (fun e => e.returned == .completed)

def Balanced (t : Topology R) (answering : Option (R × Nat)) (s : State P R) : Prop :=
  ∀ u a, tokens t answering s u a ≤ 1 ∧ (tokens t answering s u a ≠ 0 → completedIn (s.cache u) a = some false)

/-- Who waits for the packets of a cache: buses, the caches above it and, after a virtual prefetch,
the cache itself. -/
structure CacheSound (t : Topology R) (config : R → Config P R) (r : R) (c : Cache P R) : Prop where
  config : c.config = t.config config r
  distinct : DistinctMshr c
  rq : ∀ p ∈ c.rq.entries, p.address ≠ 0 ∧ ∀ u ∈ p.toReturn, t.isCache u = true → t.lower u = some r
  pq : ∀ p ∈ c.pq.entries, p.address ≠ 0 ∧ ∀ u ∈ p.toReturn, t.isCache u = true → u = r ∨ t.lower u = some r
  mshr : ∀ e ∈ c.mshr, (e.address = 0 → e.toReturn = []) ∧
    ∀ u ∈ e.toReturn, t.isCache u = true → u = r ∨ t.lower u = some r
  vapq : ∀ p ∈ c.vapq.entries, ∀ u ∈ p.toReturn, u = r
  wq : c.config.cacheType = .l1d → ∀ p ∈ c.wq.entries, Outer t p

structure Sound (t : Topology R) (config : R → Config P R) (answering : Option (R × Nat)) (s : State P R) : Prop where
  caches : ∀ r, CacheSound t config r (s.cache r)
  memory : ∀ p ∈ s.memory, ∀ u ∈ p.toReturn, t.isCache u = true → t.lower u = none
  balanced : Balanced t answering s
  matched : s.unmatched = []

def InHand (t : Topology R) (answering : Option (R × Nat)) (s : State P R) (answers : List (R × Packet R)) : Prop :=
  ∀ x ∈ answers, t.isCache x.1 = true →
    (∃ e, entry (s.cache x.1) x.2.address = some e) ∧ tokens t answering s x.1 x.2.address = 0

section Set

variable {t : Topology R} {config : R → Config P R} {answering answering' : Option (R × Nat)} {s : State P R}
  {c c' : Cache P R} {r u l : R} {a : Nat}

omit [LinearOrder R] in
theorem completedIn_some {b : Bool} (h : completedIn c a = some b) : ∃ e, entry c a = some e := by
  obtain ⟨e, he, -⟩ := Option.map_eq_some_iff.mp h
  exact ⟨e, he⟩

theorem tokens_below (hu : t.isCache u = true) (hl : t.lower u = some l) :
    tokens t answering s u a = owed answering l (s.cache l) u a := by
  simp only [tokens, hu, if_true, hl]

theorem tokens_memory (hu : t.isCache u = true) (hl : t.lower u = none) :
    tokens t answering s u a = s.memory.countP (holds u a) := by
  simp only [tokens, hu, if_true, hl]

theorem tokens_bus (hu : ¬t.isCache u = true) : tokens t answering s u a = 0 := by
  simp only [tokens, if_neg hu]

/-- One cache changes: it owes no more, or one reply that is waited for; and what it waits for it
keeps waiting for, unless nobody owes it. -/
theorem Balanced.set (h : Balanced t answering s)
    (hother : ∀ l c u a, l ≠ r → owed answering' l c u a ≤ owed answering (P := P) l c u a)
    (hstatus : ∀ a, tokens t answering s r a = 0 ∨
      (completedIn (s.cache r) a = some false → completedIn c' a = some false))
    (howed : ∀ u a, t.isCache u = true → t.lower u = some r →
      owed answering' r c' u a ≤ owed answering r (s.cache r) u a ∨
        owed answering' r c' u a ≤ 1 ∧ completedIn (s.cache u) a = some false) :
    Balanced t answering' (s.set r c') := by
  have hkeep : ∀ u a, tokens t answering s u a ≠ 0 → completedIn ((s.set r c').cache u) a = some false := by
    intro u a hne
    have hbefore := (h u a).2 hne
    by_cases hur : u = r
    · subst hur
      rw [set_cache_self]
      exact ((hstatus a).resolve_left hne) hbefore
    · rw [set_cache_of_ne s c' hur]
      exact hbefore
  intro u a
  by_cases hu : t.isCache u = true
  · cases hl : t.lower u with
    | none =>
        have heq : tokens t answering' (s.set r c') u a = tokens t answering s u a := by
          rw [tokens_memory hu hl, tokens_memory hu hl, set_memory]
        rw [heq]
        exact ⟨(h u a).1, hkeep u a⟩
    | some l =>
        have hbefore := h u a
        rw [tokens_below hu hl] at hbefore
        rw [tokens_below hu hl]
        by_cases hlr : l = r
        · subst hlr
          have hne : u ≠ l := by
            intro hul
            exact t.lower_ne l (hul ▸ hl)
          rw [set_cache_self, set_cache_of_ne s c' hne]
          rcases howed u a hu hl with hle | ⟨hone, hflight⟩
          · exact ⟨hle.trans hbefore.1, fun hpos => hbefore.2 (by omega)⟩
          · exact ⟨hone, fun _ => hflight⟩
        · rw [set_cache_of_ne s c' hlr]
          have hle := hother l (s.cache l) u a hlr
          refine ⟨hle.trans hbefore.1, fun hpos => hkeep u a ?_⟩
          rw [tokens_below hu hl]
          omega
  · rw [tokens_bus hu]
    exact ⟨Nat.zero_le _, fun hne => absurd rfl hne⟩

theorem Sound.set (h : Sound t config answering s) (hc : CacheSound t config r c')
    (hother : ∀ l c u a, l ≠ r → owed answering' l c u a ≤ owed answering (P := P) l c u a)
    (hstatus : ∀ a, tokens t answering s r a = 0 ∨
      (completedIn (s.cache r) a = some false → completedIn c' a = some false))
    (howed : ∀ u a, t.isCache u = true → t.lower u = some r →
      owed answering' r c' u a ≤ owed answering r (s.cache r) u a ∨
        owed answering' r c' u a ≤ 1 ∧ completedIn (s.cache u) a = some false) :
    Sound t config answering' (s.set r c') := by
  refine ⟨fun v => ?_, h.memory, h.balanced.set hother hstatus howed, h.matched⟩
  by_cases hv : v = r
  · subst hv
    rw [set_cache_self]
    exact hc
  · rw [set_cache_of_ne s c' hv]
    exact h.caches v

end Set

section Deliver

variable {t : Topology R} {config : R → Config P R} {answering : Option (R × Nat)} {s s' : State P R} {r : R}

structure Delivered (t : Topology R) (config : R → Config P R) (answering : Option (R × Nat)) (s s' : State P R) : Prop where
  sound : Sound t config answering s'
  tokens : ∀ u a, tokens t answering s' u a = tokens t answering s u a
  entries : ∀ u a, (∃ e, entry (s.cache u) a = some e) → ∃ e, entry (s'.cache u) a = some e

omit [LinearOrder R] in
theorem CacheSound.returned {c c' : Cache P R} {warm : Bool} {now : Nat} {p : Packet R} (h : CacheSound t config r c)
    (hc : c.returnData warm now p = some c') : CacheSound t config r c' := by
  obtain ⟨hd, -, -⟩ := returnData_entry h.distinct hc
  obtain ⟨i, hi, rfl⟩ := Option.map_eq_some_iff.mp hc
  obtain ⟨e, hget, -, -⟩ := findMshr_some hi
  refine ⟨h.config, hd, h.rq, h.pq, fun d hmem => ?_, h.vapq, h.wq⟩
  have hmem := (ListSort.sort_perm _).mem_iff.mp hmem
  rcases mem_modify hget hmem with hmem | rfl
  · exact h.mshr d hmem
  · exact h.mshr e (List.mem_of_getElem? hget)

theorem reply_delivered (h : Sound t config answering s) {x : R × Packet R} (hx : InHand t answering s [x]) :
    Delivered t config answering s (reply t s x) := by
  by_cases hcache : t.isCache x.1 = true
  · obtain ⟨⟨e, he⟩, hzero⟩ := hx x (List.mem_singleton_self x) hcache
    cases hret : (s.cache x.1).returnData s.warm s.now x.2 with
    | none =>
        rw [returnData_none.mp hret] at he
        cases he
    | some c =>
        have heq : reply t s x = s.set x.1 c := by
          simp only [reply, hcache, if_true, hret]
        have hsound := (h.caches x.1).returned hret
        obtain ⟨-, -, hentry⟩ := returnData_entry (h.caches x.1).distinct hret
        rw [heq]
        refine ⟨h.set hsound (fun _ _ _ _ _ => le_rfl) (fun a => ?_) (fun u a _ _ => .inl (owed_return hret).le), ?_, ?_⟩
        · by_cases ha : a = x.2.address
          · exact .inl (ha ▸ hzero)
          · refine .inr fun hflight => ?_
            rw [completedIn, hentry a, if_neg ha]
            exact hflight
        · intro u a
          by_cases hu : t.isCache u = true
          · cases hl : t.lower u with
            | none => rw [tokens_memory hu hl, tokens_memory hu hl, set_memory]
            | some l =>
                rw [tokens_below hu hl, tokens_below hu hl]
                by_cases hlx : l = x.1
                · subst hlx
                  rw [set_cache_self, owed_return hret]
                · rw [set_cache_of_ne s c hlx]
          · rw [tokens_bus hu, tokens_bus hu]
        · rintro u a ⟨d, hd⟩
          by_cases hu : u = x.1
          · subst hu
            rw [set_cache_self, hentry a]
            by_cases ha : a = x.2.address
            · exact ⟨_, (if_pos ha).trans (congrArg _ hd)⟩
            · exact ⟨d, (if_neg ha).trans hd⟩
          · rw [set_cache_of_ne s c hu]
            exact ⟨d, hd⟩
  · have heq : reply t s x = s := by
      simp only [reply, if_neg hcache]
    rw [heq]
    exact ⟨h, fun _ _ => rfl, fun _ _ h => h⟩

theorem deliver_delivered (h : Sound t config answering s) {answers : List (R × Packet R)}
    (hand : InHand t answering s answers) : Delivered t config answering s (deliver t s answers) := by
  induction answers generalizing s with
  | nil => exact ⟨h, fun _ _ => rfl, fun _ _ h => h⟩
  | cons x rest ih =>
      have hfirst := reply_delivered h (fun y hy => hand y (List.mem_singleton.mp hy ▸ List.mem_cons_self))
      have hrest : InHand t answering (reply t s x) rest := by
        intro y hy hcache
        obtain ⟨hentry, hzero⟩ := hand y (List.mem_cons_of_mem x hy) hcache
        exact ⟨hfirst.entries _ _ hentry, (hfirst.tokens _ _).trans hzero⟩
      have hlast := ih hfirst.sound hrest
      exact ⟨hlast.sound, fun u a => (hlast.tokens u a).trans (hfirst.tokens u a),
        fun u a he => hlast.entries u a (hfirst.entries u a he)⟩

end Deliver

section Take

variable {t : Topology R} {config : R → Config P R} {answering : Option (R × Nat)} {c c' d : Cache P R} {r u l : R}
  {a now : Nat} {p : Packet R} {pop : Cache P R → Cache P R}

omit [LinearOrder R] in
/-- A change of the blocks, of the bandwidth, or of a queue of writes or virtual prefetches that loses packets. -/
structure Alike (c c' : Cache P R) : Prop where
  config : c'.config = c.config
  mshr : c'.mshr = c.mshr
  rq : c'.rq.entries = c.rq.entries
  pq : c'.pq.entries = c.pq.entries
  vapq : c'.vapq.entries ⊆ c.vapq.entries
  wq : c'.wq.entries ⊆ c.wq.entries

omit [LinearOrder R] in
theorem CacheSound.alike (h : CacheSound t config r c) (ha : Alike c c') : CacheSound t config r c' := by
  refine ⟨ha.config.trans h.config, ?_, ?_, ?_, ?_, ?_, ?_⟩
  · rw [DistinctMshr, ha.mshr]
    exact h.distinct
  · rw [ha.rq]
    exact h.rq
  · rw [ha.pq]
    exact h.pq
  · rw [ha.mshr]
    exact h.mshr
  · exact fun p hp => h.vapq p (ha.vapq hp)
  · intro htype p hp
    exact h.wq (ha.config ▸ htype) p (ha.wq hp)

theorem Alike.owed (h : Alike c c') : owed answering l c' u a = owed answering l c u a := by
  simp only [CacheTokens.owed, h.mshr, h.rq, h.pq]

omit [LinearOrder R] in
theorem Alike.entry (h : Alike c c') (a : Nat) : entry c' a = entry c a := by
  rw [CacheMshr.entry, CacheMshr.entry, h.mshr]

omit [LinearOrder R] in
theorem alike_install {set way : Nat} (f : Cache P R → Cache P R) (hf : ∀ c, Alike c (f c)) :
    Alike c (f (c.install set way p)) := by
  have hinst : Alike c (c.install set way p) := by
    simp only [Cache.install, Cache.updateReplacementState]
    split_ifs <;> exact ⟨rfl, rfl, rfl, rfl, List.Subset.refl _, List.Subset.refl _⟩
  have hlast := hf (c.install set way p)
  exact ⟨hlast.config.trans hinst.config, hlast.mshr.trans hinst.mshr, hlast.rq.trans hinst.rq, hlast.pq.trans hinst.pq,
    List.Subset.trans hlast.vapq hinst.vapq, List.Subset.trans hlast.wq hinst.wq⟩

/-- `pop` takes the packet, and the replies that it owes, from a queue of the cache. -/
structure Takes (t : Topology R) (pop : Cache P R → Cache P R) (c : Cache P R) (p : Packet R) : Prop where
  config : ∀ c', (pop c').config = c'.config
  mshr : ∀ c', (pop c').mshr = c'.mshr
  vapq : ∀ c', (pop c').vapq = c'.vapq
  rq : ∀ c', (pop c').rq.entries ⊆ c'.rq.entries
  pq : ∀ c', (pop c').pq.entries ⊆ c'.pq.entries
  wq : ∀ c', (pop c').wq.entries ⊆ c'.wq.entries
  owed : ∀ answering l c' u a, c'.rq = c.rq → c'.pq = c.pq → t.isCache u = true →
    owed answering l (pop c') u a + (if holds u a p then 1 else 0) ≤ owed answering l c' u a

theorem CacheSound.taken (h : CacheSound t config r c') (ht : Takes t pop c p) : CacheSound t config r (pop c') := by
  refine ⟨(ht.config c').trans h.config, ?_, fun q hq => h.rq q (ht.rq c' hq), fun q hq => h.pq q (ht.pq c' hq), ?_, ?_, ?_⟩
  · rw [DistinctMshr, ht.mshr]
    exact h.distinct
  · rw [ht.mshr]
    exact h.mshr
  · rw [ht.vapq]
    exact h.vapq
  · intro htype q hq
    exact h.wq (ht.config c' ▸ htype) q (ht.wq c' hq)

theorem takes_popRq (h : due c.rq now = some p) : Takes t Cache.popRq c p := by
  refine ⟨fun _ => rfl, fun _ => rfl, fun _ => rfl, fun c' => ?_, fun _ => List.Subset.refl _, fun _ => List.Subset.refl _,
    fun answering l c' u a hrq _ _ => ?_⟩
  · simp only [Cache.popRq, entries_popFront]
    exact (List.tail_sublist _).subset
  · obtain ⟨rest, hentries⟩ := due_some h
    simp only [CacheTokens.owed, Cache.popRq, entries_popFront, hrq, hentries, List.tail_cons, List.countP_cons]
    omega

theorem takes_popPq (h : due c.pq now = some p) : Takes t Cache.popPq c p := by
  refine ⟨fun _ => rfl, fun _ => rfl, fun _ => rfl, fun _ => List.Subset.refl _, fun c' => ?_, fun _ => List.Subset.refl _,
    fun answering l c' u a _ hpq _ => ?_⟩
  · simp only [Cache.popPq, entries_popFront]
    exact (List.tail_sublist _).subset
  · obtain ⟨rest, hentries⟩ := due_some h
    simp only [CacheTokens.owed, Cache.popPq, entries_popFront, hpq, hentries, List.tail_cons, List.countP_cons]
    omega

theorem takes_popWq (h : ∀ u ∈ p.toReturn, t.isCache u = false) : Takes t (Cache.popWq (P := P)) c p := by
  refine ⟨fun _ => rfl, fun _ => rfl, fun _ => rfl, fun _ => List.Subset.refl _, fun _ => List.Subset.refl _, fun c' => ?_,
    fun answering l c' u a _ _ hu => ?_⟩
  · simp only [Cache.popWq, entries_popFront]
    exact (List.tail_sublist _).subset
  · have hno : ¬holds u a p = true := by
      intro hold
      rw [h u (holds_iff.mp hold).2] at hu
      cases hu
    rw [if_neg hno]
    exact le_rfl

end Take

section Send

variable {t : Topology R} {config : R → Config P R} {s s' : State P R} {r l : R} {q : Packet R} {asPrefetch : Bool}
  {a : Answers}

def Awaited (t : Topology R) (s : State P R) (r : R) (q : Packet R) : Prop :=
  ∀ u ∈ q.toReturn, u = r ∧ completedIn (s.cache r) q.address = some false ∧ tokens t none s r q.address = 0

theorem Awaited.inHand (h : Awaited t s r q) (data : Nat) : InHand t none s (replies { q with data := data }) := by
  intro x hx _
  obtain ⟨u, hu, rfl⟩ := List.mem_map.mp hx
  obtain ⟨rfl, hflight, hzero⟩ := h u hu
  exact ⟨completedIn_some hflight, hzero⟩

theorem Awaited.owed (h : Awaited t s r q) {n m : Nat} {u : R} {b : Nat}
    (hn : n ≤ m + if holds u b q then 1 else 0) (hm : m = tokens t none s u b) :
    n ≤ m ∨ n ≤ 1 ∧ completedIn (s.cache u) b = some false := by
  by_cases hold : holds u b q = true
  · rw [if_pos hold] at hn
    obtain ⟨rfl, hmem⟩ := holds_iff.mp hold
    obtain ⟨rfl, hflight, hzero⟩ := h u hmem
    exact .inr ⟨by omega, hflight⟩
  · rw [if_neg hold] at hn
    exact .inl hn

/-- What joining a queue does: an answer from the write queue, or a place in the read or the prefetch queue. -/
inductive AddCases (c : Cache P R) (warm : Bool) (q : Packet R) (added : Added P R) : Prop
  | forwarded (data : Nat) (hcache : added.cache = c) (hreplies : added.replies = replies { q with data := data })
  | read (hcache : added.cache = { c with rq := (enqueue warm c.rq q (eqAddr q.address) (mergeRead q)).1 })
      (hreplies : added.replies = [])
  | prefetched (hcache : added.cache = { c with pq := (enqueue warm c.pq q (eqAddr q.address) (mergePrefetch q)).1 })
      (hreplies : added.replies = [])

theorem addRq_cases {c : Cache P R} {warm : Bool} {added : Added P R} (h : c.addRq warm q = some added) :
    q.address ≠ 0 ∧ AddCases c warm q added := by
  simp only [Cache.addRq, Option.ite_none_left_eq_some] at h
  refine ⟨h.1, ?_⟩
  cases hwq : c.foundWq q with
  | some found =>
      rw [hwq] at h
      cases h.2
      exact .forwarded found.data rfl rfl
  | none =>
      rw [hwq] at h
      cases h.2
      exact .read rfl rfl

theorem addPq_cases {c : Cache P R} {warm : Bool} {added : Added P R} (h : c.addPq warm q = some added) :
    q.address ≠ 0 ∧ AddCases c warm q added := by
  simp only [Cache.addPq, Option.ite_none_left_eq_some] at h
  refine ⟨h.1, ?_⟩
  cases hwq : c.foundWq q with
  | some found =>
      rw [hwq] at h
      cases h.2
      exact .forwarded found.data rfl rfl
  | none =>
      rw [hwq] at h
      cases h.2
      exact .prefetched rfl rfl

theorem addBelow_cases {added : Added P R} (h : addBelow s l q asPrefetch = some added) :
    q.address ≠ 0 ∧ AddCases (s.cache l) s.warm q added := by
  simp only [addBelow] at h
  by_cases hpf : asPrefetch = true
  · rw [if_pos hpf] at h
    exact addPq_cases h
  · rw [if_neg hpf] at h
    exact addRq_cases h

/-- A packet of which all that wait are buses, caches above or, among the prefetches, the cache itself joins
a queue of the cache. -/
theorem CacheSound.enqueued {c : Cache P R} {warm : Bool} {added : Added P R} (h : CacheSound t config r c)
    (hq : q.address ≠ 0) (hadd : AddCases c warm q added)
    (hread : added.cache.rq = c.rq ∨ ∀ u ∈ q.toReturn, t.isCache u = true → t.lower u = some r)
    (hprefetch : ∀ u ∈ q.toReturn, t.isCache u = true → u = r ∨ t.lower u = some r) :
    CacheSound t config r added.cache := by
  cases hadd with
  | forwarded data hcache _ => exact hcache ▸ h
  | read hcache _ =>
      have hrq : ∀ p ∈ added.cache.rq.entries, p.address ≠ 0 ∧ ∀ u ∈ p.toReturn, t.isCache u = true → t.lower u = some r := by
        intro p hp
        rcases hread with hsame | hread
        · exact h.rq p (hsame ▸ hp)
        rw [hcache] at hp
        rcases mem_enqueue hp with hp | rfl | ⟨e, he, hfound, rfl⟩
        · exact h.rq p hp
        · exact ⟨hq, hread⟩
        · refine ⟨(h.rq e he).1, fun u hu hcache => ?_⟩
          rcases (SortedMerge.mem_merge _ _).mp hu with hu | hu
          · exact (h.rq e he).2 u hu hcache
          · exact hread u hu hcache
      rw [hcache] at hrq ⊢
      exact ⟨h.config, h.distinct, hrq, h.pq, h.mshr, h.vapq, h.wq⟩
  | prefetched hcache _ =>
      rw [hcache]
      refine ⟨h.config, h.distinct, h.rq, fun p hp => ?_, h.mshr, h.vapq, h.wq⟩
      rcases mem_enqueue hp with hp | rfl | ⟨e, he, hfound, rfl⟩
      · exact h.pq p hp
      · exact ⟨hq, hprefetch⟩
      · refine ⟨(h.pq e he).1, fun u hu hcache => ?_⟩
        rcases (SortedMerge.mem_merge _ _).mp hu with hu | hu
        · exact (h.pq e he).2 u hu hcache
        · exact hprefetch u hu hcache

theorem owed_added_le {answering : Option (R × Nat)} {c : Cache P R} {warm : Bool} {added : Added P R} {u : R} {b : Nat}
    (hadd : AddCases c warm q added) :
    owed answering l added.cache u b ≤ owed answering l c u b + if holds u b q then 1 else 0 := by
  cases hadd with
  | forwarded data hcache _ =>
      rw [hcache]
      exact Nat.le_add_right _ _
  | read hcache _ =>
      have hcount : (enqueue warm c.rq q (eqAddr q.address) (mergeRead q)).1.entries.countP (holds u b) ≤
          c.rq.entries.countP (holds u b) + if holds u b q then 1 else 0 :=
        countP_enqueue_le fun e he hold => (holds_mergeRead (eqAddr_iff.mp he).2).mp hold
      rw [hcache]
      simp only [CacheTokens.owed]
      omega
  | prefetched hcache _ =>
      have hcount : (enqueue warm c.pq q (eqAddr q.address) (mergePrefetch q)).1.entries.countP (holds u b) ≤
          c.pq.entries.countP (holds u b) + if holds u b q then 1 else 0 :=
        countP_enqueue_le fun e he hold => (holds_mergePrefetch (eqAddr_iff.mp he).2).mp hold
      rw [hcache]
      simp only [CacheTokens.owed]
      omega

theorem added_mshr {c : Cache P R} {warm : Bool} {added : Added P R} (hadd : AddCases c warm q added) :
    added.cache.mshr = c.mshr := by
  cases hadd with
  | forwarded data hcache _ => rw [hcache]
  | read hcache _ => rw [hcache]
  | prefetched hcache _ => rw [hcache]

theorem send_sound (h : Sound t config none s) (hq : Awaited t s r q) (hs : send t s r q asPrefetch a = some s') :
    Sound t config none s' := by
  cases hl : t.lower r with
  | some l =>
      simp only [send, hl] at hs
      obtain ⟨added, hadded, rfl⟩ := Option.map_eq_some_iff.mp hs
      obtain ⟨haddr, hadd⟩ := addBelow_cases hadded
      have habove : ∀ u ∈ q.toReturn, t.isCache u = true → t.lower u = some l := by
        intro u hu _
        exact (hq u hu).1 ▸ hl
      have hset : Sound t config none (s.set l added.cache) := by
        apply h.set ((h.caches l).enqueued haddr hadd (.inr habove) (fun u hu hc => .inr (habove u hu hc)))
          (fun _ _ _ _ _ => le_rfl)
        · intro b
          refine .inr fun hflight => ?_
          rw [completedIn, entry, added_mshr hadd]
          exact hflight
        · intro u b hu hlower
          exact hq.owed (owed_added_le hadd) (tokens_below hu hlower).symm
      cases hadd with
      | forwarded data hcache hreplies =>
          rw [hcache, hreplies]
          rw [hcache] at hset
          have hsame : s.set l (s.cache l) = s := by
            rw [State.set, Function.update_eq_self]
          rw [hsame]
          exact (deliver_delivered h (hq.inHand data)).sound
      | read _ hreplies =>
          rw [hreplies]
          exact hset
      | prefetched _ hreplies =>
          rw [hreplies]
          exact hset
  | none =>
      simp only [send, hl] at hs
      cases hm : a.memory with
      | refused =>
          rw [hm] at hs
          exact Option.some.inj hs ▸ h
      | forwarded data =>
          rw [hm] at hs
          exact Option.some.inj hs ▸ (deliver_delivered h (hq.inHand data)).sound
      | accepted =>
          rw [hm] at hs
          rw [← Option.some.inj hs]
          refine ⟨h.caches, fun p hp => ?_, fun u b => ?_, h.matched⟩
          · rcases List.mem_append.mp hp with hp | hp
            · exact h.memory p hp
            · rw [List.mem_singleton.mp hp]
              intro u hu _
              exact (hq u hu).1 ▸ hl
          · by_cases hu : t.isCache u = true
            · have hbefore := h.balanced u b
              cases hlower : t.lower u with
              | some l' =>
                  rw [tokens_below hu hlower] at hbefore ⊢
                  exact hbefore
              | none =>
                  have hcount : tokens t none { s with memory := s.memory ++ [q] } u b ≤
                      tokens t none s u b + if holds u b q then 1 else 0 := by
                    rw [tokens_memory hu hlower, tokens_memory hu hlower, List.countP_append, List.countP_singleton]
                  rcases hq.owed hcount rfl with hle | ⟨hone, hflight⟩
                  · exact ⟨hle.trans hbefore.1, fun hne => hbefore.2 (by omega)⟩
                  · exact ⟨hone, fun _ => hflight⟩
            · rw [tokens_bus hu]
              exact ⟨Nat.zero_le _, fun hne => absurd rfl hne⟩

end Send

end Thermometer.CacheReplies
