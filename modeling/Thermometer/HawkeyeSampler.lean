import Thermometer.HawkeyeTraining
import Thermometer.Lib.Ranks

namespace Thermometer.HawkeyeSampler

open Lib.Tables Lib.Runs Lib.Ranks HawkeyeOptgen HawkeyeReplacement HawkeyeTraining

structure Within (g : OptGen) : Prop where
  length : g.livenessHistory.length = optgenVectorSize
  room : ∀ q, g.liveness q ≤ g.cacheSize

/-- Where the loops of `should_cache` stop. -/
def stop (g : OptGen) (currQuanta lastQuanta : Nat) : Nat :=
  (lastQuanta + (g.quanta currQuanta lastQuanta).length) % g.livenessHistory.length

variable {g : OptGen} {curr last : Nat}

theorem init_within (size : Nat) : Within (.init size) := by
  refine ⟨List.length_replicate, fun q => ?_⟩
  rw [OptGen.liveness, OptGen.init, List.getD_eq_getElem?_getD, List.getElem?_replicate]
  split_ifs <;> exact Nat.zero_le _

theorem quanta_distance (h : g.livenessHistory.length = optgenVectorSize) (hcurr : curr < optgenVectorSize)
    (hlast : last < optgenVectorSize) : ∃ d < optgenVectorSize, (last + d) % optgenVectorSize = curr ∧
      g.quanta curr last = (List.range' last d).map (fun i => i % optgenVectorSize) := by
  have hpos : 0 < optgenVectorSize := by decide
  have hsum : (last + (curr + optgenVectorSize - last) % optgenVectorSize) % optgenVectorSize = curr := by
    rw [Nat.add_mod_mod, Nat.add_sub_cancel' (by omega), Nat.add_mod_right, Nat.mod_eq_of_lt hcurr]
  refine ⟨_, Nat.mod_lt _ hpos, hsum, ?_⟩
  have hq := quanta_eq h (Nat.mod_lt (curr + optgenVectorSize - last) hpos) last
  rwa [hsum, Nat.mod_eq_of_lt hlast] at hq

theorem stop_eq (h : Within g) (hcurr : curr < optgenVectorSize) (hlast : last < optgenVectorSize) :
    stop g curr last = curr := by
  obtain ⟨d, -, hsum, hq⟩ := quanta_distance h.length hcurr hlast
  rw [stop, hq, List.length_map, List.length_range', h.length, hsum]

theorem quanta_nodup (h : Within g) (hcurr : curr < optgenVectorSize) (hlast : last < optgenVectorSize) :
    (g.quanta curr last).Nodup := by
  obtain ⟨d, hd, -, hq⟩ := quanta_distance h.length hcurr hlast
  rw [hq]
  apply List.Nodup.map_on _ List.nodup_range'
  intro x hx y hy heq
  have hx := List.mem_range'_1.mp hx
  have hy := List.mem_range'_1.mp hy
  have hsize : optgenVectorSize = 128 := rfl
  rw [hsize] at heq hd
  omega

theorem set_within {g' : OptGen} (h : Within g) (hlive : g'.livenessHistory = g.livenessHistory.set curr 0)
    (hsize : g'.cacheSize = g.cacheSize) : Within g' := by
  refine ⟨by rw [hlive, List.length_set, h.length], fun q => ?_⟩
  rw [OptGen.liveness, hlive, hsize, List.getD_eq_getElem?_getD, List.getElem?_set]
  split_ifs
  · exact Nat.zero_le _
  · exact Nat.zero_le _
  · rw [← List.getD_eq_getElem?_getD]
    exact h.room q

theorem addAccess_within (h : Within g) (curr : Nat) : Within (g.addAccess curr) := set_within h rfl rfl

theorem addPrefetch_within (h : Within g) (curr : Nat) : Within (g.addPrefetch curr) := set_within h rfl rfl

/-- A reuse is accepted only if each quantum on its way has room, and it takes
one place in each. -/
theorem shouldCache_within (h : Within g) (hcurr : curr < optgenVectorSize) (hlast : last < optgenVectorSize) :
    Within (g.shouldCache curr last).2 := by
  refine ⟨(length_shouldCache g curr last).trans h.length, ?_⟩
  intro q
  rw [OptGen.shouldCache]
  by_cases hcache : g.isCache curr last = true
  · rw [if_pos hcache]
    change List.getD _ q 0 ≤ g.cacheSize
    by_cases hq : q < optgenVectorSize
    · rw [getD_bump _ _ (h.length ▸ hq)]
      by_cases hmem : q ∈ g.quanta curr last
      · rw [List.count_eq_one_of_mem (quanta_nodup h hcurr hlast) hmem]
        have hroom := (List.all_eq_true.mp hcache) q hmem
        exact of_decide_eq_true hroom
      · rw [List.count_eq_zero_of_not_mem hmem]
        exact h.room q
    · rw [List.getD_eq_getElem?_getD, List.getElem?_eq_none (by rw [length_bump, h.length]; omega)]
      exact Nat.zero_le _
  · rw [if_neg hcache]
    exact h.room q

structure Invariant (s : State) : Prop where
  ranked : ∀ k, Ranked AddrInfo.lru (s.addrHistory k)
  full : ∀ k, size (s.addrHistory k) ≤ samplerWays
  optgen : ∀ set, Within (s.persetOptgen set)
  rrpv : ∀ set way, s.rrpv set way ≤ maxRRPV

variable {s u : State} {c : Access} {e : AddrInfo} {t : Table AddrInfo} {n : Nat}

theorem initial_invariant : Invariant initReplacementState :=
  ⟨fun _ => ranked_empty, fun _ => Nat.zero_le _, fun _ => init_within _, fun _ _ => le_rfl⟩

theorem updateLru_eq (hn : n < samplerWays) (t : Table AddrInfo) :
    updateLru t n = some (mapValues (fun e => if e.lru < n then { e with lru := e.lru + 1 } else e) t) := by
  apply if_pos
  rw [List.all_eq_true]
  rintro ⟨k, e⟩ -
  rw [decide_eq_true_eq]
  intro hlt
  change e.lru < n at hlt
  change e.lru + 1 < samplerWays
  omega

theorem lru_aged (n : Nat) (e : AddrInfo) : AddrInfo.lru (if e.lru < n then { e with lru := e.lru + 1 } else e) =
    if e.lru < n then e.lru + 1 else e.lru := by
  split_ifs <;> rfl

theorem replaceElement_eq (h : Ranked AddrInfo.lru t) (hfull : size t = samplerWays) : ∃ tag e, t.lookup tag = some e ∧
    e.lru = samplerWays - 1 ∧ replaceElement t = t.erase tag := by
  obtain ⟨k, v, hk, hv⟩ := h.exists_rank (n := samplerWays - 1) (by rw [hfull]; decide)
  cases hfind : (iterate .ascending t).find? (fun e => e.2.lru = samplerWays - 1) with
  | none =>
      have hno := List.find?_eq_none.mp hfind (k, v) ((mem_iterate _ t k v).mpr hk)
      exact absurd (decide_eq_true hv) hno
  | some a =>
      have hmem := (mem_iterate _ t a.1 a.2).mp (List.mem_of_find?_eq_some hfind)
      have hage : a.2.lru = samplerWays - 1 := by simpa using List.find?_some hfind
      refine ⟨a.1, a.2, hmem, hage, ?_⟩
      rw [replaceElement, hfind]
      rfl

theorem replaceElement_ranked (h : Ranked AddrInfo.lru t) (hfull : size t = samplerWays) :
    Ranked AddrInfo.lru (replaceElement t) ∧ size (replaceElement t) + 1 = size t := by
  obtain ⟨tag, e, he, hage, heq⟩ := replaceElement_eq h hfull
  rw [heq]
  refine ⟨h.erase he ?_, size_erase_of_mem ((mem_iff_lookup t tag).mpr ⟨e, he⟩)⟩
  rw [hage, hfull]
  rfl

/-- What `sample` leaves to be stamped: once the line has rank 0 the set of the
sampler is ranked again. -/
structure Sampled (s : State) (c : Access) (u : State) : Prop where
  rrpv : u.rrpv = s.rrpv
  others : ∀ k, k ≠ c.samplerSet → u.addrHistory k = s.addrHistory k
  optgen : ∀ set, Within (u.persetOptgen set)
  stamped : ∀ f : AddrInfo → AddrInfo, (∀ e, (f e).lru = 0) →
    Ranked AddrInfo.lru (modify (u.addrHistory c.samplerSet) c.samplerTag f) ∧
      size (modify (u.addrHistory c.samplerSet) c.samplerTag f) ≤ samplerWays

theorem currQuanta_lt (s : State) (set : Nat) : s.currQuanta set < optgenVectorSize := Nat.mod_lt _ (by decide)

theorem setOptgen_within {o : Nat → OptGen} (h : ∀ set, Within (o set)) (hg : Within g) (set : Nat) :
    ∀ set', Within (Function.update o set g set') := by
  intro set'
  by_cases hset : set' = set
  · rw [hset, Function.update_self]
    exact hg
  · rw [Function.update_of_ne hset]
    exact h set'

theorem hit_stamped (h : Invariant s) (he : s.entry c = some e) {f f' : AddrInfo → AddrInfo} (hf : ∀ e, (f e).lru = 0) :
    let t := mapValues (fun d => if d.lru < e.lru then { d with lru := d.lru + 1 } else d) (s.addrHistory c.samplerSet)
    Ranked AddrInfo.lru (modify (modify t c.samplerTag f') c.samplerTag f) ∧
      size (modify (modify t c.samplerTag f') c.samplerTag f) ≤ samplerWays := by
  intro t
  have hage : ∀ j, j ≠ c.samplerTag → ((modify (modify t c.samplerTag f') c.samplerTag f).lookup j).map AddrInfo.lru =
      ((s.addrHistory c.samplerSet).lookup j).map (fun d => if d.lru < e.lru then d.lru + 1 else d.lru) := by
    intro j hj
    rw [lookup_modify, if_neg hj, lookup_modify, if_neg hj, lookup_mapValues, Option.map_map]
    congr 1
    funext d
    exact lru_aged e.lru d
  have hold : (s.addrHistory c.samplerSet).lookup c.samplerTag = some e := he
  have hnew : (modify (modify t c.samplerTag f') c.samplerTag f).lookup c.samplerTag =
      some (f (f' (if e.lru < e.lru then { e with lru := e.lru + 1 } else e))) := by
    rw [lookup_modify, if_pos rfl, lookup_modify, if_pos rfl, lookup_mapValues, hold]
    rfl
  obtain ⟨hranked, hsize⟩ := (h.ranked c.samplerSet).use hold hnew (hf _) hage
  exact ⟨hranked, hsize ▸ h.full c.samplerSet⟩

theorem lru_lt (h : Invariant s) (he : s.entry c = some e) : e.lru < samplerWays :=
  Nat.lt_of_lt_of_le ((h.ranked c.samplerSet).below c.samplerTag e he) (h.full c.samplerSet)

theorem train_rrpv (s : State) (e : AddrInfo) (positive : Bool) : (train s e positive).rrpv = s.rrpv := by
  cases hp : e.prefetched <;> cases positive <;> simp [train, hp]

theorem hit_sampled (h : Invariant s) (he : s.entry c = some e) {s₁ : State} (hrrpv : s₁.rrpv = s.rrpv)
    (hhist : s₁.addrHistory = s.addrHistory) (hoptgen : ∀ set, Within (s₁.persetOptgen set)) (hg : Within g)
    (f' : AddrInfo → AddrInfo) :
    ∃ u, (updateLru ((s₁.setOptgen c.set g).addrHistory c.samplerSet) e.lru).map (fun t =>
      (s₁.setOptgen c.set g).setHistory c.samplerSet (modify t c.samplerTag f')) = some u ∧ Sampled s c u := by
  change ∃ u, (updateLru (s₁.addrHistory c.samplerSet) e.lru).map _ = some u ∧ _
  rw [updateLru_eq (lru_lt h he), hhist]
  refine ⟨_, rfl, hrrpv, ?_, setOptgen_within hoptgen hg c.set, ?_⟩
  · intro k hk
    exact (Function.update_of_ne hk _ _).trans (congrFun hhist k)
  · intro f hf
    change Ranked AddrInfo.lru (modify (Function.update s₁.addrHistory c.samplerSet _ c.samplerSet) _ f) ∧
      size (modify (Function.update s₁.addrHistory c.samplerSet _ c.samplerSet) _ f) ≤ _
    rw [Function.update_self]
    exact hit_stamped h he hf

theorem demandHit_total (h : Invariant s) (he : s.entry c = some e) : ∃ u, demandHit s c e = some u ∧ Sampled s c u := by
  obtain ⟨-, hsame, hhist⟩ := train_same s e (s.kept c.set e)
  have hg := h.optgen c.set
  have hasked : Within (if optgenVectorSize < s.elapsed c.set e then s.persetOptgen c.set
      else ((s.persetOptgen c.set).shouldCache (s.currQuanta c.set) (e.lastQuanta % optgenVectorSize)).2) := by
    split_ifs
    · exact hg
    · exact shouldCache_within hg (currQuanta_lt s c.set) (Nat.mod_lt _ (by decide))
  have hbase : ∀ set, Within ((train s e (s.kept c.set e)).persetOptgen set) := by
    rw [hsame]
    exact h.optgen
  exact hit_sampled h he (train_rrpv s e _) hhist hbase (addAccess_within hasked (s.currQuanta c.set)) _

theorem prefetchHit_total (h : Invariant s) (he : s.entry c = some e) : ∃ u, prefetchHit s c e = some u ∧ Sampled s c u := by
  have hg := h.optgen c.set
  have hshould := shouldCache_within hg (currQuanta_lt s c.set) (Nat.mod_lt e.lastQuanta (by decide))
  let recent := (s.persetMytimer c.set + 2 ^ 64 - e.lastQuanta) % 2 ^ 64 < 5
  have hasked : Within (if recent
      then ((s.persetOptgen c.set).shouldCache (s.currQuanta c.set) (e.lastQuanta % optgenVectorSize)).2
      else s.persetOptgen c.set) := by
    split_ifs
    · exact hshould
    · exact hg
  have hmarked := addPrefetch_within hasked (s.currQuanta c.set)
  obtain ⟨-, hsame, hhist⟩ := train_same s e true
  simp only [prefetchHit]
  by_cases htrain : recent ∧ (s.persetOptgen c.set).isCache (s.currQuanta c.set) (e.lastQuanta % optgenVectorSize) = true
  · have hbase : ∀ set, Within ((train s e true).persetOptgen set) := by
      rw [hsame]
      exact h.optgen
    rw [if_pos htrain]
    exact hit_sampled h he (train_rrpv s e true) hhist hbase hmarked _
  · rw [if_neg htrain]
    exact hit_sampled h he rfl rfl h.optgen hmarked _

/-- A line that the sampler does not know takes the place of the oldest one in a
full set. -/
theorem firstAccess_total (h : Invariant s) (he : s.entry c = none) : ∃ u, firstAccess s c = some u ∧ Sampled s c u := by
  let t := if size (s.addrHistory c.samplerSet) = samplerWays then replaceElement (s.addrHistory c.samplerSet)
    else s.addrHistory c.samplerSet
  have hno : c.samplerTag ∉ s.addrHistory c.samplerSet := AList.lookup_eq_none.mp he
  have ht : Ranked AddrInfo.lru t ∧ size t < samplerWays ∧ c.samplerTag ∉ t := by
    have hfull := h.full c.samplerSet
    have hranked := h.ranked c.samplerSet
    by_cases hsize : size (s.addrHistory c.samplerSet) = samplerWays
    · obtain ⟨hr, hone⟩ := replaceElement_ranked hranked hsize
      obtain ⟨tag, d, -, -, heq⟩ := replaceElement_eq hranked hsize
      simp only [t, if_pos hsize]
      refine ⟨hr, by omega, ?_⟩
      rw [heq, AList.mem_erase]
      exact fun hc => hno hc.2
    · simp only [t, if_neg hsize]
      exact ⟨hranked, by omega, hno⟩
  obtain ⟨hranked, hroom, htag⟩ := ht
  have hlimit : size t ≤ samplerWays - 1 := by omega
  let g := s.persetOptgen c.set
  have hg : Within (if c.type = .prefetch then g.addPrefetch (s.currQuanta c.set) else g.addAccess (s.currQuanta c.set)) := by
    split_ifs
    · exact addPrefetch_within (h.optgen c.set) _
    · exact addAccess_within (h.optgen c.set) _
  simp only [firstAccess]
  rw [if_neg (Nat.not_le.mpr hroom), updateLru_eq (by decide)]
  refine ⟨_, rfl, rfl, ?_, setOptgen_within h.optgen hg c.set, ?_⟩
  · intro k hk
    exact Function.update_of_ne hk _ _
  · intro f hf
    change Ranked AddrInfo.lru (modify (Function.update s.addrHistory c.samplerSet _ c.samplerSet) _ f) ∧
      size (modify (Function.update s.addrHistory c.samplerSet _ c.samplerSet) _ f) ≤ _
    rw [Function.update_self]
    have hage : ∀ j, j ≠ c.samplerTag → ((modify (mapValues (fun d : AddrInfo =>
        if d.lru < samplerWays - 1 then { d with lru := d.lru + 1 } else d)
          (t.insert c.samplerTag ⟨0, 0, c.type = .prefetch, 0⟩)) c.samplerTag f).lookup j).map AddrInfo.lru =
        (t.lookup j).map (fun d => if d.lru < samplerWays - 1 then d.lru + 1 else d.lru) := by
      intro j hj
      rw [lookup_modify, if_neg hj, lookup_mapValues, lookup_insert, if_neg hj, Option.map_map]
      congr 1
      funext d
      exact lru_aged (samplerWays - 1) d
    obtain ⟨hr, hsize⟩ := hranked.fill hlimit htag (by
      rw [lookup_modify, if_pos rfl, lookup_mapValues, lookup_insert, if_pos rfl]
      rfl) (hf _) hage
    exact ⟨hr, (Nat.le_of_eq hsize).trans hroom⟩

theorem sample_total (h : Invariant s) (c : Access) : ∃ u, sample s c = some u ∧ Sampled s c u := by
  rw [sample]
  cases he : s.entry c with
  | none => exact firstAccess_total h he
  | some e =>
      by_cases hty : c.type ≠ .prefetch
      · simp only [if_pos hty]
        exact demandHit_total h he
      · simp only [if_neg hty]
        exact prefetchHit_total h he

theorem stampAccess_invariant (h : Invariant s) (hu : Sampled s c u) : Invariant (stampAccess u c) := by
  obtain ⟨hranked, hsize⟩ :=
    hu.stamped (fun e => { e with lastQuanta := u.persetMytimer c.set, pc := c.pc, lru := 0 }) (fun _ => rfl)
  have htable : ∀ k, k ≠ c.samplerSet → (stampAccess u c).addrHistory k = s.addrHistory k := by
    intro k hk
    exact (Function.update_of_ne hk _ _).trans (hu.others k hk)
  have hself : (stampAccess u c).addrHistory c.samplerSet = modify (u.addrHistory c.samplerSet) c.samplerTag
      (fun e => { e with lastQuanta := u.persetMytimer c.set, pc := c.pc, lru := 0 }) := Function.update_self _ _ _
  refine ⟨?_, ?_, hu.optgen, ?_⟩
  · intro k
    by_cases hk : k = c.samplerSet
    · rw [hk, hself]
      exact hranked
    · rw [htable k hk]
      exact h.ranked k
  · intro k
    by_cases hk : k = c.samplerSet
    · rw [hk, hself]
      exact hsize
    · rw [htable k hk]
      exact h.full k
  · change ∀ set way, u.rrpv set way ≤ maxRRPV
    rw [hu.rrpv]
    exact h.rrpv

theorem setRrpv_le (h : ∀ set way, s.rrpv set way ≤ maxRRPV) (set way : Nat) (hn : n ≤ maxRRPV) :
    ∀ set' way', (setRrpv s set way n).rrpv set' way' ≤ maxRRPV := by
  intro set' way'
  change Function.update s.rrpv set (Function.update (s.rrpv set) way n) set' way' ≤ _
  by_cases hset : set' = set
  · rw [hset, Function.update_self]
    by_cases hway : way' = way
    · rw [hway, Function.update_self]
      exact hn
    · rw [Function.update_of_ne hway]
      exact h set way'
  · rw [Function.update_of_ne hset]
    exact h set' way'

theorem age_le (h : ∀ set way, s.rrpv set way ≤ maxRRPV) (set : Nat) : ∀ set' way', (age s set).rrpv set' way' ≤ maxRRPV := by
  intro set' way'
  rw [age]
  split_ifs
  · exact h set' way'
  · change Function.update s.rrpv set _ set' way' ≤ _
    by_cases hset : set' = set
    · rw [hset, Function.update_self]
      have hle := h set way'
      split_ifs <;> omega
    · rw [Function.update_of_ne hset]
      exact h set' way'

theorem placeLine_le (h : ∀ set way, s.rrpv set way ≤ maxRRPV) (c : Access) :
    ∀ set way, (placeLine s c).rrpv set way ≤ maxRRPV := by
  rw [placeLine]
  generalize hs₁ : ({ s with signatures := Function.update s.signatures c.set (Function.update (s.signatures c.set) c.way c.pc) } :
    State) = s₁
  have h₁ : ∀ set way, s₁.rrpv set way ≤ maxRRPV := by
    rw [← hs₁]
    exact h
  have hzero := setRrpv_le h₁ c.set c.way (Nat.zero_le maxRRPV)
  simp only
  generalize (if c.type = .prefetch then s.prefetchPredictor else s.demandPredictor).getPrediction c.pc = friendly
  cases friendly with
  | false => exact setRrpv_le h₁ c.set c.way le_rfl
  | true =>
      cases c.hit with
      | true => exact setRrpv_le hzero c.set c.way (Nat.zero_le _)
      | false => exact setRrpv_le (age_le hzero c.set) c.set c.way (Nat.zero_le _)

theorem placeLine_invariant (h : Invariant s) (c : Access) : Invariant (placeLine s c) := by
  obtain ⟨-, hoptgen, hhist, -⟩ := placeLine_same s c
  refine ⟨?_, ?_, ?_, placeLine_le h.rrpv c⟩
  · rw [hhist]
    exact h.ranked
  · rw [hhist]
    exact h.full
  · rw [hoptgen]
    exact h.optgen

theorem step_invariant (h : Invariant s) (c : Access) : ∃ u, updateReplacementState s c = some u ∧ Invariant u := by
  have h₁ : Invariant (setPrefetched s c) := ⟨h.ranked, h.full, h.optgen, h.rrpv⟩
  rw [updateReplacementState]
  by_cases hwriteback : c.type = .writeback
  · simp only [if_pos hwriteback]
    exact ⟨_, rfl, h₁⟩
  · simp only [if_neg hwriteback]
    by_cases hsampled : sampledSet c.set = true
    · obtain ⟨u, hu, hsample⟩ := sample_total h₁ c
      rw [if_pos hsampled, hu]
      exact ⟨_, rfl, placeLine_invariant (stampAccess_invariant h₁ hsample) c⟩
    · rw [if_neg hsampled]
      exact ⟨_, rfl, placeLine_invariant h₁ c⟩

theorem Within.le (h : Within g) : ∀ n ∈ g.livenessHistory, n ≤ g.cacheSize := by
  intro n hn
  obtain ⟨q, hq⟩ := List.mem_iff_getElem?.mp hn
  have hroom := h.room q
  rwa [OptGen.liveness, List.getD_eq_getElem?_getD, hq] at hroom

theorem samplerSet_lt (c : Access) : c.samplerSet < sampledCacheSize / samplerWays := by
  have hlt : c.line % sampledCacheSize < sampledCacheSize := Nat.mod_lt _ (by decide)
  have hsize : sampledCacheSize = 2800 := rfl
  have hways : samplerWays = 8 := rfl
  rw [Access.samplerSet, hways]
  omega

/-- No assertion fails in any run of calls, and in each state reached: the ranks
of a sampler set are the numbers below its size, a full set has one line to lose,
and the occupancies, the rrpv values and the places where the walks stop are
within their bounds. -/
theorem sampler_invariants (cs : List Access) : ∃ s, run updateReplacementState initReplacementState cs = some s ∧
    (∀ k, (ranks AddrInfo.lru (s.addrHistory k)).Perm (List.range (size (s.addrHistory k))) ∧
      size (s.addrHistory k) ≤ samplerWays) ∧
    (∀ k, size (s.addrHistory k) = samplerWays → ∃ tag e, (s.addrHistory k).lookup tag = some e ∧
      e.lru = samplerWays - 1 ∧ replaceElement (s.addrHistory k) = (s.addrHistory k).erase tag) ∧
    (∀ set, ∀ n ∈ (s.persetOptgen set).livenessHistory, n ≤ (s.persetOptgen set).cacheSize) ∧
    (∀ set way, s.rrpv set way ≤ maxRRPV) ∧
    ∀ c : Access, c.samplerSet < sampledCacheSize / samplerWays ∧ ∀ e, s.entry c = some e →
      stop (s.persetOptgen c.set) (s.currQuanta c.set) (e.lastQuanta % optgenVectorSize) = s.currQuanta c.set := by
  obtain ⟨s, hrun, hs⟩ := run_total (I := Invariant) (fun s c _ hs => step_invariant (c := c) hs) initial_invariant
  refine ⟨s, hrun, fun k => ⟨(hs.ranked k).perm, hs.full k⟩, fun k hfull => replaceElement_eq (hs.ranked k) hfull,
    fun set => (hs.optgen set).le, hs.rrpv, fun c => ⟨samplerSet_lt c, fun e _ => ?_⟩⟩
  exact stop_eq (hs.optgen c.set) (currQuanta_lt s c.set) (Nat.mod_lt _ (by decide))

end Thermometer.HawkeyeSampler
