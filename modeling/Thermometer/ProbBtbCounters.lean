import Mathlib.Data.Rat.Floor
import Thermometer.ProbBtbVictim

namespace Thermometer.ProbBtbCounters

open Trace Lib.Tables Lib.Doubles Lib.Runs ProbBtb ProbBtbVictim

/-- A branch whose counters a call updates. -/
structure Access where
  ip : Nat
  branchType : BranchType
  taken : Bool

def resident (config : Config) (s : State) (ip : Nat) : Bool := ((s.btb (getSetIndex config ip)).lookup ip).isSome

def accessed (config : Config) (s : State) (x : Input) : Option Access :=
  match x.call with
  | .predict _ _ => none
  | .update ip target taken ty =>
      if ty.usesBtb = true ∧ (resident config s ip = true ∨ (target ≠ 0 ∧ taken = true)) then some ⟨ip, ty, taken⟩ else none
  | .prefetch ip target ty taken toStreamBuffer =>
      if ty.usesBtb = true ∧ (resident config s ip = true ∨ (target ≠ 0 ∧ taken = true ∧ toStreamBuffer = false)) then
        some ⟨ip, ty, taken⟩
      else none

/-- No change of a taken counter so far has wrapped around, and without probabilities the counters are bounded. -/
structure Sound (config : Config) (s : State) : Prop where
  fits : ∀ e ∈ s.events, e.Fits
  bounded : config.calculateProbability = false → ∀ k c, s.branchRecord.lookup k = some c → c.taken ≤ config.counterUpperBound

/-- Every state that a run reaches is sound. -/
def CountersSound (config : Config) (inputs : List Input) : Prop :=
  ∀ pre post s, inputs = pre ++ post → run (step config) .initial pre = some s → Sound config s

def CountsUp (config : Config) (record : Table Taken) (a : Access) : Prop :=
  config.calculateProbability = true → a.taken = true →
    ∀ c, record.lookup a.ip = some c → c.branchType = a.branchType → c.taken + 1 < 2 ^ 64

def LowersWell (config : Config) (o : IterOrder) (record : Table Taken) (t : Table Entry) (ip : Nat) : Prop :=
  lowers config = true → ip ∉ t → config.totalWays ≤ size t → ∀ v, Chosen config record o t v →
    ∀ k ∈ t, k ≠ v → ∀ c, record.lookup k = some c → ⌊takenProbability config record v⌋₊ ≤ c.taken

def Safe (config : Config) (s : State) (x : Input) : Prop := ∀ a, accessed config s x = some a →
  CountsUp config s.branchRecord a ∧ LowersWell config x.order s.branchRecord (s.btb (getSetIndex config a.ip)) a.ip

structure Good (config : Config) (s : State) : Prop where
  sized : ∀ set, size (s.btb set) ≤ config.totalWays
  near : ∀ set k e, (s.btb set).lookup k = some e → e.rrpv ≤ srripDistantInterval
  stream : StreamBuffer.Bounded s.stream

section Evicts

variable {config : Config} {o : IterOrder} {s u : State} {set ip v : Nat} {p : ℚ}

theorem decrease_taken {c : Taken} (hle : ⌊p⌋₊ ≤ c.taken) (hlt : c.taken < 2 ^ 64) : (c.decrease p).taken = c.taken - ⌊p⌋₊ := by
  change (c.taken + 2 ^ 64 - ⌊p⌋₊ % 2 ^ 64) % 2 ^ 64 = _
  omega

/-- The counters of the given branches go down, each from what it was. -/
theorem lowerAll_eq {l : List Nat} (hl : l.Nodup) (p : ℚ) (s : State) : ∃ record new,
    l.foldl (lowerOne p) s = { s with branchRecord := record, events := s.events ++ new } ∧
    (∀ k, record.lookup k = if k ∈ l then (s.branchRecord.lookup k).map (fun c => c.decrease p) else s.branchRecord.lookup k) ∧
    ∀ e, e ∈ new ↔ ∃ k ∈ l, ∃ c, s.branchRecord.lookup k = some c ∧ e = .decrease ⌊p⌋₊ c.taken := by
  induction l generalizing s with
  | nil =>
      refine ⟨s.branchRecord, [], ?_, fun k => ?_, fun e => ?_⟩
      · rw [List.append_nil]
        rfl
      · rw [if_neg List.not_mem_nil]
      · simp
  | cons a l ih =>
      rw [List.nodup_cons] at hl
      obtain ⟨record, new, hfold, hlookup, hnew⟩ := ih hl.2 (lowerOne p s a)
      rw [List.foldl_cons, hfold]
      cases ha : s.branchRecord.lookup a with
      | none =>
          have hsame : lowerOne p s a = s := by rw [lowerOne, ha]
          rw [hsame] at hlookup hnew ⊢
          refine ⟨record, new, rfl, fun k => ?_, fun e => ?_⟩
          · rw [hlookup]
            by_cases hk : k = a
            · rw [if_neg (hk ▸ hl.1), if_pos (hk ▸ List.mem_cons_self), hk, ha]
              rfl
            · simp only [List.mem_cons, hk, false_or]
          · rw [hnew]
            simp [ha]
      | some c =>
          have hsame : lowerOne p s a = { s with
              branchRecord := s.branchRecord.insert a (c.decrease p)
              events := s.events ++ [.decrease ⌊p⌋₊ c.taken] } := by
            rw [lowerOne, ha]
          have hother : ∀ k ∈ l, (s.branchRecord.insert a (c.decrease p)).lookup k = s.branchRecord.lookup k :=
            fun k hk => AList.lookup_insert_ne (fun heq => hl.1 (heq ▸ hk))
          rw [hsame] at hlookup hnew ⊢
          refine ⟨record, .decrease ⌊p⌋₊ c.taken :: new, ?_, fun k => ?_, fun e => ?_⟩
          · rw [List.append_assoc, List.singleton_append]
          · rw [hlookup]
            by_cases hk : k = a
            · rw [if_neg (hk ▸ hl.1), if_pos (hk ▸ List.mem_cons_self), hk, ha, AList.lookup_insert, Option.map_some]
            · simp only [List.mem_cons, hk, false_or, AList.lookup_insert_ne hk]
          · rw [List.mem_cons, hnew]
            constructor
            · rintro (rfl | ⟨k, hk, d, hd, rfl⟩)
              · exact ⟨a, List.mem_cons_self, c, ha, rfl⟩
              · exact ⟨k, List.mem_cons_of_mem a hk, d, hother k hk ▸ hd, rfl⟩
            · rintro ⟨k, hk, d, hd, rfl⟩
              rcases List.mem_cons.mp hk with rfl | hk
              · rw [ha, Option.some.injEq] at hd
                exact .inl (by rw [hd])
              · exact .inr ⟨k, hk, d, (hother k hk).trans hd, rfl⟩

/-- What the eviction of `v` from a set does. -/
structure Evicted (config : Config) (s : State) (set v : Nat) (u : State) : Prop where
  others : ∀ i, i ≠ set → u.btb i = s.btb i
  size : size (u.btb set) + 1 = size (s.btb set)
  mem : ∀ k, k ∈ u.btb set → k ∈ s.btb set
  near : ∀ k e, (u.btb set).lookup k = some e → e.rrpv ≤ srripDistantInterval
  stream : u.stream = s.stream
  record : ∀ k c, u.branchRecord.lookup k = some c → ∃ d, s.branchRecord.lookup k = some d ∧ (c = d ∨ c = d.clear ∨
    (lowers config = true ∧ k ∈ s.btb set ∧ k ≠ v ∧ c = d.decrease (takenProbability config s.branchRecord v)))
  kept : ∀ k, k ∉ s.btb set → u.branchRecord.lookup k = s.branchRecord.lookup k
  events : ∃ new, u.events = s.events ++ new ∧ ∀ e, e ∈ new ↔ lowers config = true ∧ ∃ k ∈ s.btb set, k ≠ v ∧
    ∃ c, s.branchRecord.lookup k = some c ∧ e = .decrease ⌊takenProbability config s.branchRecord v⌋₊ c.taken

def victimCleared (config : Config) (s : State) (v : Nat) : State :=
  if config.clearWhenEvict = true then { s with branchRecord := modify s.branchRecord v Taken.clear } else s

theorem victimCleared_fields : (victimCleared config s v).btb = s.btb ∧ (victimCleared config s v).stream = s.stream ∧
    (victimCleared config s v).events = s.events := by
  rw [victimCleared]
  split_ifs
  · exact ⟨rfl, rfl, rfl⟩
  · exact ⟨rfl, rfl, rfl⟩

theorem victimCleared_other {k : Nat} (hk : k ≠ v) :
    (victimCleared config s v).branchRecord.lookup k = s.branchRecord.lookup k := by
  rw [victimCleared]
  split_ifs
  · rw [lookup_modify, if_neg hk]
  · rfl

theorem victimCleared_self {c : Taken} (hc : (victimCleared config s v).branchRecord.lookup v = some c) :
    ∃ d, s.branchRecord.lookup v = some d ∧ (c = d ∨ c = d.clear) := by
  rw [victimCleared] at hc
  split_ifs at hc
  · rw [lookup_modify, if_pos rfl] at hc
    obtain ⟨d, hd, rfl⟩ := Option.map_eq_some_iff.mp hc
    exact ⟨d, hd, .inr rfl⟩
  · exact ⟨c, hc, .inl rfl⟩

theorem lowerRest_eq (config : Config) (o : IterOrder) (t : Table Entry) (p : ℚ) (s : State) : ∃ record new,
    (if lowers config = true then (iterate o t).foldl (fun s entry => lowerOne p s entry.1) s else s) =
      { s with branchRecord := record, events := s.events ++ new } ∧
    (∀ k, record.lookup k = if lowers config = true ∧ k ∈ t then (s.branchRecord.lookup k).map (fun c => c.decrease p)
      else s.branchRecord.lookup k) ∧
    ∀ e, e ∈ new ↔ lowers config = true ∧ ∃ k ∈ t, ∃ c, s.branchRecord.lookup k = some c ∧ e = .decrease ⌊p⌋₊ c.taken := by
  by_cases hlowers : lowers config = true
  · obtain ⟨record, new, hfold, hrecord, hnew⟩ := lowerAll_eq (nodup_iterate_keys o t) p s
    simp only [mem_iterate_keys] at hrecord hnew
    rw [List.foldl_map] at hfold
    refine ⟨record, new, ?_, fun k => ?_, fun e => ?_⟩
    · rw [if_pos hlowers]
      exact hfold
    · rw [hrecord]
      simp only [hlowers, true_and]
    · rw [hnew]
      simp only [hlowers, true_and]
  · refine ⟨s.branchRecord, [], ?_, fun k => ?_, fun e => ?_⟩
    · rw [if_neg hlowers, List.append_nil]
    · rw [if_neg (fun h => hlowers h.1)]
    · simp only [List.not_mem_nil, hlowers, Bool.false_eq_true, false_and]

theorem evictFrom_eq (hgood : Good config s) (hfull : config.totalWays ≤ size (s.btb set)) :
    ∃ v u, evictFrom config o s set = some u ∧ Chosen config s.branchRecord o (s.btb set) v ∧ Evicted config s set v u := by
  have hsize : size (s.btb set) ≠ 0 := (config.ways_pos.trans_le hfull).ne'
  obtain ⟨v, t, hevict, hchosen, haged⟩ := evict_chosen config s.branchRecord o hsize (hgood.near set)
  have hmem : ∀ k, k ∈ t.erase v ↔ k ≠ v ∧ k ∈ s.btb set := by
    intro k
    rw [AList.mem_erase, haged.mem]
  obtain ⟨hbtb, hstream, hevents⟩ := @victimCleared_fields config s v
  obtain ⟨record, new, hlowered, hrecord, hnew⟩ := lowerRest_eq config o (t.erase v)
    (takenProbability config s.branchRecord v) ((victimCleared config s v).withSet set (t.erase v))
  have hself : ((victimCleared config s v).withSet set (t.erase v)).btb set = t.erase v := Function.update_self ..
  have hrun : evictFrom config o s set = some { (victimCleared config s v).withSet set (t.erase v) with
      branchRecord := record, events := (victimCleared config s v).events ++ new } := by
    simp only [evictFrom, hevict, Option.bind_eq_bind, Option.bind_some]
    exact congrArg some hlowered
  refine ⟨v, _, hrun, hchosen, fun i hi => ?_, ?_, fun k hk => ?_, fun k e he => ?_, hstream, fun k c hc => ?_, fun k hk => ?_,
    new, congrArg (· ++ new) hevents, fun e => ?_⟩
  · exact (Function.update_of_ne hi ..).trans (congrFun hbtb i)
  · rw [hself, size_erase_of_mem ((haged.mem v).mpr hchosen.1), haged.size]
  · rw [hself, hmem] at hk
    exact hk.2
  · rw [hself, lookup_erase] at he
    split_ifs at he
    exact haged.near k e he
  · change record.lookup k = some c at hc
    rw [hrecord] at hc
    split_ifs at hc with hin
    · obtain ⟨hkv, hk⟩ := (hmem k).mp hin.2
      obtain ⟨d, hd, rfl⟩ := Option.map_eq_some_iff.mp hc
      exact ⟨d, (victimCleared_other hkv).symm.trans hd, .inr (.inr ⟨hin.1, hk, hkv, rfl⟩)⟩
    · by_cases hkv : k = v
      · subst hkv
        obtain ⟨d, hd, h⟩ := victimCleared_self hc
        exact ⟨d, hd, h.imp_right .inl⟩
      · exact ⟨c, (victimCleared_other hkv).symm.trans hc, .inl rfl⟩
  · show record.lookup k = _
    rw [hrecord, if_neg (fun h => hk ((hmem k).mp h.2).2)]
    exact victimCleared_other (fun heq => hk (heq ▸ hchosen.1))
  · rw [hnew]
    refine and_congr_right fun _ => ?_
    simp only [hmem]
    constructor
    · rintro ⟨k, ⟨hkv, hk⟩, c, hc, rfl⟩
      exact ⟨k, hk, hkv, c, (victimCleared_other hkv).symm.trans hc, rfl⟩
    · rintro ⟨k, hk, hkv, c, hc, rfl⟩
      exact ⟨k, ⟨hkv, hk⟩, c, (victimCleared_other hkv).trans hc, rfl⟩

end Evicts

section Calls

variable {config : Config} {o : IterOrder} {s u t : State} {set ip v target : Nat} {ty : BranchType} {x : Input}

structure Prepared (config : Config) (o : IterOrder) (s : State) (ip : Nat) (u : State) : Prop where
  self : u.branchRecord.lookup ip = s.branchRecord.lookup ip
  events : ∃ new, u.events = s.events ++ new ∧
    ((∀ e ∈ new, e.Fits) ↔ LowersWell config o s.branchRecord (s.btb (getSetIndex config ip)) ip)
  bounded : LowersWell config o s.branchRecord (s.btb (getSetIndex config ip)) ip → ∀ b < 2 ^ 64,
    (∀ k c, s.branchRecord.lookup k = some c → c.taken ≤ b) → ∀ k c, u.branchRecord.lookup k = some c → c.taken ≤ b

theorem Prepared.same (hquiet : LowersWell config o s.branchRecord (s.btb (getSetIndex config ip)) ip)
    (hrecord : u.branchRecord = s.branchRecord) (hevents : u.events = s.events) : Prepared config o s ip u := by
  refine ⟨by rw [hrecord], ⟨[], ?_, iff_of_true (fun e he => absurd he List.not_mem_nil) hquiet⟩, fun _ b _ h => ?_⟩
  · rw [hevents, List.append_nil]
  · rw [hrecord]
    exact h

theorem Prepared.congr {s' u' : State} (h : Prepared config o s ip u) (hbtb : s'.btb = s.btb)
    (hrecord : s'.branchRecord = s.branchRecord) (hevents : s'.events = s.events)
    (hrecord' : u'.branchRecord = u.branchRecord) (hevents' : u'.events = u.events) : Prepared config o s' ip u' := by
  refine ⟨?_, ?_, ?_⟩
  · rw [hrecord', hrecord]
    exact h.self
  · rw [hevents', hevents, hbtb, hrecord]
    exact h.events
  · rw [hrecord', hbtb, hrecord]
    exact h.bounded

theorem prepared_of_evicted (h : Evicted config s (getSetIndex config ip) v u)
    (hchosen : Chosen config s.branchRecord o (s.btb (getSetIndex config ip)) v) (habsent : ip ∉ s.btb (getSetIndex config ip))
    (hfull : config.totalWays ≤ size (s.btb (getSetIndex config ip))) : Prepared config o s ip u := by
  obtain ⟨new, hevents, hnew⟩ := h.events
  refine ⟨h.kept ip habsent, ⟨new, hevents, ?_⟩, fun hwell b hb hall k c hc => ?_⟩
  · constructor
    · intro hfits hlowers _ _ w hw k hk hne c hc
      obtain rfl := hw.unique hchosen
      exact hfits _ ((hnew _).mpr ⟨hlowers, k, hk, hne, c, hc, rfl⟩)
    · intro hwell e he
      obtain ⟨hlowers, k, hk, hne, c, hc, rfl⟩ := (hnew e).mp he
      exact hwell hlowers habsent hfull v hchosen k hk hne c hc
  · obtain ⟨d, hd, rfl | rfl | ⟨hlowers, hk, hne, rfl⟩⟩ := h.record k c hc
    · exact hall k c hd
    · exact Nat.zero_le b
    · have hle := hall k d hd
      rw [decrease_taken (hwell hlowers habsent hfull v hchosen k hk hne d hd) (hle.trans_lt hb)]
      exact (Nat.sub_le _ _).trans hle

theorem near_insertNew {table : Table Entry} (hnear : ∀ k e, table.lookup k = some e → e.rrpv ≤ srripDistantInterval)
    (ip target : Nat) (ty : BranchType) (k : Nat) (e : Entry) (he : (insertNew table ip (.new ip target ty)).lookup k = some e) :
    e.rrpv ≤ srripDistantInterval := by
  rw [insertNew] at he
  split_ifs at he
  · exact hnear k e he
  · rw [lookup_insert] at he
    split_ifs at he
    · rw [← Option.some.inj he]
      exact Nat.le_succ 2
    · exact hnear k e he

theorem size_insertNew_le (table : Table Entry) (ip : Nat) (e : Entry) : size (insertNew table ip e) ≤ size table + 1 := by
  rw [insertNew]
  split_ifs with h
  · exact Nat.le_succ _
  · exact (size_insert_of_notMem h e).le

theorem good_withSet (h : Good config s) {table : Table Entry} (hsize : size table ≤ config.totalWays)
    (hnear : ∀ k e, table.lookup k = some e → e.rrpv ≤ srripDistantInterval) : Good config (s.withSet set table) := by
  have hself : (s.withSet set table).btb set = table := Function.update_self ..
  have hother : ∀ i, i ≠ set → (s.withSet set table).btb i = s.btb i := fun i hi => Function.update_of_ne hi ..
  refine ⟨fun i => ?_, fun i => ?_, h.stream⟩
  · by_cases hi : i = set
    · rw [hi, hself]
      exact hsize
    · rw [hother i hi]
      exact h.sized i
  · by_cases hi : i = set
    · rw [hi, hself]
      exact hnear
    · rw [hother i hi]
      exact h.near i

theorem good_modify (h : Good config s) {f : Entry → Entry} (hf : ∀ e, e.rrpv ≤ srripDistantInterval →
    (f e).rrpv ≤ srripDistantInterval) (set ip : Nat) : Good config (s.withSet set (modify (s.btb set) ip f)) := by
  refine good_withSet h ((size_modify ..).trans_le (h.sized set)) (fun k e he => ?_)
  rw [lookup_modify] at he
  split_ifs at he
  · obtain ⟨d, hd, rfl⟩ := Option.map_eq_some_iff.mp he
    exact hf d (h.near set ip d hd)
  · exact h.near set k e he

theorem insert_prepared (hgood : Good config s) (habsent : ip ∉ s.btb (getSetIndex config ip)) (o : IterOrder) (target : Nat)
    (ty : BranchType) : ∃ u, insertToBtb config o s ip target ty = some u ∧ Good config u ∧ Prepared config o s ip u := by
  by_cases hfull : config.totalWays ≤ size (s.btb (getSetIndex config ip))
  · obtain ⟨v, u, hevict, hchosen, hu⟩ := evictFrom_eq (o := o) hgood hfull
    have hroom : size (u.btb (getSetIndex config ip)) < config.totalWays := by
      have hle := hgood.sized (getSetIndex config ip)
      have hsize := hu.size
      omega
    have hgoodU : Good config u := by
      refine ⟨fun i => ?_, fun i => ?_, hu.stream ▸ hgood.stream⟩
      · by_cases hi : i = getSetIndex config ip
        · rw [hi]
          exact hroom.le
        · rw [hu.others i hi]
          exact hgood.sized i
      · by_cases hi : i = getSetIndex config ip
        · rw [hi]
          exact hu.near
        · rw [hu.others i hi]
          exact hgood.near i
    refine ⟨u.withSet (getSetIndex config ip) (insertNew (u.btb (getSetIndex config ip)) ip (.new ip target ty)), ?_, ?_, ?_⟩
    · simp only [insertToBtb, if_pos hfull, hevict, Option.bind_eq_bind, Option.bind_some, if_pos hroom]
    · exact good_withSet hgoodU ((size_insertNew_le _ ip _).trans hroom) (near_insertNew (hgoodU.near _) ip target ty)
    · exact (prepared_of_evicted hu hchosen habsent hfull).congr rfl rfl rfl rfl rfl
  · refine ⟨s.withSet (getSetIndex config ip) (insertNew (s.btb (getSetIndex config ip)) ip (.new ip target ty)), ?_, ?_, ?_⟩
    · simp only [insertToBtb, if_neg hfull, Option.bind_eq_bind, Option.bind_some, if_pos (not_le.mp hfull)]
    · exact good_withSet hgood ((size_insertNew_le _ ip _).trans (not_le.mp hfull)) (near_insertNew (hgood.near _) ip target ty)
    · exact .same (fun _ _ h => absurd h hfull) rfl rfl

inductive Effect (config : Config) (s : State) (x : Input) (t : State) : Prop
  | quiet (hnone : accessed config s x = none) (hrecord : t.branchRecord = s.branchRecord) (hevents : t.events = s.events)
  | touch (a : Access) (ha : accessed config s x = some a) (u : State) (hu : Prepared config x.order s a.ip u)
      (ht : t = updateProbability config u a.ip a.branchType a.taken)

theorem updateProbability_good (h : Good config s) (ip : Nat) (ty : BranchType) (taken : Bool) :
    Good config (updateProbability config s ip ty taken) := ⟨h.sized, h.near, h.stream⟩

theorem find_absent (h : (s.btb (getSetIndex config ip)).lookup ip = none) : findBtbEntry config s ip = (s, none) := by
  have hsame : modify (s.btb (getSetIndex config ip)) ip (fun e => { e with rrpv := 0 }) = s.btb (getSetIndex config ip) := by
    unfold Lib.Tables.modify
    rw [h]
  rw [findBtbEntry, hsame, h, State.withSet, Function.update_eq_self]

theorem find_good (h : Good config s) (ip : Nat) : Good config (findBtbEntry config s ip).1 :=
  good_modify h (f := fun e => { e with rrpv := 0 }) (fun _ _ => Nat.zero_le _) _ ip

theorem find_eq (config : Config) (s : State) (ip : Nat) : findBtbEntry config s ip =
    ((findBtbEntry config s ip).1, (s.btb (getSetIndex config ip)).lookup ip) := rfl

theorem existing_effect {e : Entry} (hgood : Good config u) (hlookup : (s.btb (getSetIndex config ip)).lookup ip = some e)
    (hrecord : u.branchRecord = s.branchRecord) (hevents : u.events = s.events) {taken : Bool}
    (hx : accessed config s x = some ⟨ip, ty, taken⟩) : Good config (updateExisting config u ip target taken ty) ∧
      Effect config s x (updateExisting config u ip target taken ty) := by
  have hpresent : ip ∈ s.btb (getSetIndex config ip) := (mem_iff_lookup _ ip).mpr ⟨e, hlookup⟩
  constructor
  · refine updateProbability_good (good_modify hgood (fun e he => ?_) _ ip) ip ty taken
    split_ifs <;> exact he
  · exact .touch _ hx (u.withSet _ _) (.same (fun _ h => absurd hpresent h) hrecord hevents) rfl

theorem insert_effect (hgood : Good config u) (hbtb : u.btb = s.btb) (hrecord : u.branchRecord = s.branchRecord)
    (hevents : u.events = s.events) (hlookup : (s.btb (getSetIndex config ip)).lookup ip = none) {taken : Bool}
    (hx : accessed config s x = some ⟨ip, ty, taken⟩) (target : Nat) :
    ∃ t, (insertToBtb config x.order u ip target ty).map (fun s => updateProbability config s ip ty taken) = some t ∧
      Good config t ∧ Effect config s x t := by
  have habsent : ip ∉ u.btb (getSetIndex config ip) := by
    rw [hbtb]
    exact AList.lookup_eq_none.mp hlookup
  obtain ⟨w, hw, hgoodW, hprepared⟩ := insert_prepared hgood habsent x.order target ty
  refine ⟨_, by rw [hw, Option.map_some], updateProbability_good hgoodW ip ty taken, ?_⟩
  exact .touch _ hx w (hprepared.congr hbtb.symm hrecord.symm hevents.symm rfl rfl) rfl

theorem update_effect (hgood : Good config s) (o : IterOrder) (ip target : Nat) (taken : Bool) (ty : BranchType) :
    ∃ t, updateBtb config o s ip target taken ty = some t ∧ Good config t ∧
      Effect config s ⟨o, .update ip target taken ty⟩ t := by
  generalize hs₁ : ({ s with side := SideTables.update s.side ip target taken ty } : State) = s₁
  have hgood₁ : Good config s₁ := by
    rw [← hs₁]
    exact ⟨hgood.sized, hgood.near, hgood.stream⟩
  have hbtb : s₁.btb = s.btb := by rw [← hs₁]
  have hrecord : s₁.branchRecord = s.branchRecord := by rw [← hs₁]
  have hevents : s₁.events = s.events := by rw [← hs₁]
  simp only [updateBtb, hs₁]
  by_cases hty : ty.usesBtb = true
  · rw [if_pos hty]
    cases hlookup : (s.btb (getSetIndex config ip)).lookup ip with
    | none =>
        have habsent : resident config s ip = false := by rw [resident, hlookup]; rfl
        rw [find_absent (hbtb ▸ hlookup)]
        by_cases hinsert : target ≠ 0 ∧ taken = true
        · simp only [if_pos hinsert]
          have hpopped : Good config { s₁ with stream := (StreamBuffer.streamBufferUpdate s₁.stream ip).1 } :=
            ⟨hgood₁.sized, hgood₁.near, StreamBuffer.update_bounded hgood₁.stream ip⟩
          exact insert_effect (x := ⟨o, .update ip target taken ty⟩) hpopped hbtb hrecord hevents hlookup
            (if_pos ⟨hty, .inr hinsert⟩) target
        · simp only [if_neg hinsert]
          refine ⟨{ s₁ with stream := (StreamBuffer.streamBufferUpdate s₁.stream ip).1 }, rfl,
            ⟨hgood₁.sized, hgood₁.near, StreamBuffer.update_bounded hgood₁.stream ip⟩, .quiet ?_ hrecord hevents⟩
          refine if_neg (fun h => ?_)
          rw [habsent] at h
          exact hinsert (h.2.resolve_left Bool.false_ne_true)
    | some e =>
        have hpresent : resident config s ip = true := by rw [resident, hlookup]; rfl
        rw [find_eq, hbtb, hlookup]
        refine ⟨_, rfl, existing_effect (find_good hgood₁ ip) hlookup hrecord hevents ?_⟩
        exact if_pos ⟨hty, .inl hpresent⟩
  · rw [if_neg hty]
    exact ⟨s₁, rfl, hgood₁, .quiet (if_neg (fun h => hty h.1)) hrecord hevents⟩

theorem prefetch_effect (hgood : Good config s) (o : IterOrder) (ip target : Nat) (ty : BranchType)
    (taken toStreamBuffer : Bool) : ∃ t, prefetchBtb config o s ip target ty taken toStreamBuffer = some t ∧ Good config t ∧
      Effect config s ⟨o, .prefetch ip target ty taken toStreamBuffer⟩ t := by
  rw [prefetchBtb]
  by_cases hty : ty.usesBtb = true
  · rw [if_pos hty]
    cases hlookup : (s.btb (getSetIndex config ip)).lookup ip with
    | none =>
        have habsent : resident config s ip = false := by rw [resident, hlookup]; rfl
        rw [find_absent hlookup]
        by_cases hinsert : target ≠ 0 ∧ taken = true
        · simp only [if_pos hinsert]
          cases toStreamBuffer with
          | true =>
              obtain ⟨b, hb, hbounded⟩ := StreamBuffer.prefetch_bounded hgood.stream ip hinsert.1
              refine ⟨{ s with stream := b }, ?_, ⟨hgood.sized, hgood.near, hbounded⟩, .quiet ?_ rfl rfl⟩
              · rw [if_pos rfl, hb, Option.map_some]
              · refine if_neg (fun h => ?_)
                rw [habsent] at h
                exact Bool.false_ne_true (h.2.resolve_left Bool.false_ne_true).2.2.symm
          | false =>
              rw [if_neg Bool.false_ne_true]
              exact insert_effect (x := ⟨o, .prefetch ip target ty taken false⟩) hgood rfl rfl rfl hlookup
                (if_pos ⟨hty, .inr ⟨hinsert.1, hinsert.2, rfl⟩⟩) target
        · simp only [if_neg hinsert]
          refine ⟨s, rfl, hgood, .quiet (if_neg (fun h => ?_)) rfl rfl⟩
          rw [habsent] at h
          have htaken := h.2.resolve_left Bool.false_ne_true
          exact hinsert ⟨htaken.1, htaken.2.1⟩
    | some e =>
        have hpresent : resident config s ip = true := by rw [resident, hlookup]; rfl
        rw [find_eq, hlookup]
        refine ⟨_, rfl, existing_effect (find_good hgood ip) hlookup rfl rfl ?_⟩
        exact if_pos ⟨hty, .inl hpresent⟩
  · rw [if_neg hty]
    exact ⟨s, rfl, hgood, .quiet (if_neg (fun h => hty h.1)) rfl rfl⟩

theorem step_effect (hgood : Good config s) (x : Input) : ∃ t, step config s x = some t ∧ Good config t ∧ Effect config s x t := by
  obtain ⟨o, call⟩ := x
  cases call with
  | predict ip ty =>
      refine ⟨_, rfl, ?_⟩
      rw [btbPrediction]
      rcases SideTables.predict s.side ip ty with ⟨side, r⟩
      cases r with
      | some r => exact ⟨⟨hgood.sized, hgood.near, hgood.stream⟩, .quiet rfl rfl rfl⟩
      | none =>
          have hside : Good config { s with side := side } := ⟨hgood.sized, hgood.near, hgood.stream⟩
          have hfind := find_good hside ip
          simp only
          rw [find_eq]
          cases ({ s with side := side } : State).btb (getSetIndex config ip) |>.lookup ip with
          | none => exact ⟨hfind, .quiet rfl rfl rfl⟩
          | some e => exact ⟨hfind, .quiet rfl rfl rfl⟩
  | update ip target taken ty => exact update_effect hgood o ip target taken ty
  | prefetch ip target ty taken toStreamBuffer => exact prefetch_effect hgood o ip target ty taken toStreamBuffer

theorem initial_good (config : Config) : Good config .initial := by
  refine ⟨fun _ => Nat.zero_le _, fun _ _ _ he => ?_, StreamBuffer.bounded_empty (by decide)⟩
  cases he

theorem run_good {inputs : List Input} (h : run (step config) .initial inputs = some s) : Good config s := by
  refine run_preserves (fun s t x _ hs ht => ?_) (initial_good config) h
  obtain ⟨u, hu, hgood, -⟩ := step_effect hs x
  rw [hu, Option.some.injEq] at ht
  exact ht ▸ hgood

end Calls

section Updates

variable {config : Config} {o : IterOrder} {s u t : State} {x : Input}

def counters (record : Table Taken) (ip : Nat) (ty : BranchType) : Taken := (record.lookup ip).getD ⟨0, 0, ty⟩

theorem updateProbability_eq (config : Config) (u : State) (a : Access) :
    updateProbability config u a.ip a.branchType a.taken = { u with
      branchRecord := u.branchRecord.insert a.ip
        ((counters u.branchRecord a.ip a.branchType).update config a.branchType a.taken).1
      events := u.events ++ ((counters u.branchRecord a.ip a.branchType).update config a.branchType a.taken).2 } := rfl

theorem retype_fits (c : Taken) (ty : BranchType) :
    (c.retype ty).taken + 1 < 2 ^ 64 ↔ (c.branchType = ty → c.taken + 1 < 2 ^ 64) := by
  rw [Taken.retype]
  by_cases hty : c.branchType = ty
  · rw [if_neg (not_not.mpr hty.symm)]
    exact ⟨fun h _ => h, fun h => h hty⟩
  · rw [if_pos (Ne.symm hty)]
    exact iff_of_true (Nat.one_lt_two_pow' 63) (fun h => absurd h hty)

theorem update_fits (config : Config) (c : Taken) (ty : BranchType) (taken : Bool) :
    (∀ e ∈ (c.update config ty taken).2, e.Fits) ↔
      (config.calculateProbability = true → taken = true → c.branchType = ty → c.taken + 1 < 2 ^ 64) := by
  rw [Taken.update]
  have hone : (∀ e ∈ (c.retype ty).increment.2, e.Fits) ↔ (c.retype ty).taken + 1 < 2 ^ 64 := by
    simp only [Taken.increment, List.mem_singleton, forall_eq, Event.Fits]
  cases taken with
  | false => simp
  | true =>
      cases config.calculateProbability with
      | true =>
          simp only [if_true, true_imp_iff]
          rw [hone]
          exact retype_fits c ty
      | false =>
          refine iff_of_true ?_ (fun h => absurd h Bool.false_ne_true)
          simp only [if_true, Bool.false_eq_true, if_false]
          split_ifs with hlt
          · have hbound := config.bound_lt
            exact hone.mpr (by omega)
          · exact fun e he => absurd he List.not_mem_nil

theorem update_bounded (hcalc : config.calculateProbability = false) {c : Taken} (hle : c.taken ≤ config.counterUpperBound)
    (ty : BranchType) (taken : Bool) : (c.update config ty taken).1.taken ≤ config.counterUpperBound := by
  have hretype : (c.retype ty).taken ≤ config.counterUpperBound := by
    rw [Taken.retype]
    split_ifs
    · exact Nat.zero_le _
    · exact hle
  rw [Taken.update, hcalc]
  cases taken with
  | false => exact hretype
  | true =>
      simp only [if_true, Bool.false_eq_true, if_false]
      split_ifs with hlt
      · exact (Nat.mod_le _ _).trans hlt
      · exact hretype

theorem countsUp_iff {a : Access} (hself : u.branchRecord.lookup a.ip = s.branchRecord.lookup a.ip) :
    (∀ e ∈ ((counters u.branchRecord a.ip a.branchType).update config a.branchType a.taken).2, e.Fits) ↔
      CountsUp config s.branchRecord a := by
  rw [update_fits, counters, hself]
  cases hlookup : s.branchRecord.lookup a.ip with
  | none =>
      refine iff_of_true (fun _ _ _ => ?_) (fun _ _ c hc => ?_)
      · rw [Option.getD_none]
        exact Nat.one_lt_two_pow' 63
      · rw [hlookup] at hc
        cases hc
  | some c =>
      rw [Option.getD_some]
      constructor
      · intro h hcalc htaken d hd
        rw [hlookup, Option.some.injEq] at hd
        exact hd ▸ h hcalc htaken
      · exact fun h hcalc htaken => h hcalc htaken c hlookup

theorem Effect.sound (h : Effect config s x t) (hsafe : Safe config s x) (hs : Sound config s) : Sound config t := by
  cases h with
  | quiet hnone hrecord hevents =>
      refine ⟨?_, ?_⟩
      · rw [hevents]
        exact hs.fits
      · rw [hrecord]
        exact hs.bounded
  | touch a ha u hu ht =>
      obtain ⟨hcounts, hlowers⟩ := hsafe a ha
      obtain ⟨new, hevents, hnew⟩ := hu.events
      rw [ht, updateProbability_eq]
      refine ⟨fun e he => ?_, fun hcalc k c hc => ?_⟩
      · simp only [hevents] at he
        rcases List.mem_append.mp he with he | he
        · rcases List.mem_append.mp he with he | he
          · exact hs.fits e he
          · exact hnew.mpr hlowers e he
        · exact (countsUp_iff hu.self).mpr hcounts e he
      · have hbound : ∀ k c, u.branchRecord.lookup k = some c → c.taken ≤ config.counterUpperBound :=
          hu.bounded hlowers _ config.bound_lt (hs.bounded hcalc)
        rw [lookup_insert] at hc
        split_ifs at hc
        · rw [← Option.some.inj hc]
          apply update_bounded hcalc
          rw [counters]
          cases hlookup : u.branchRecord.lookup a.ip with
          | none => exact Nat.zero_le _
          | some d => exact hbound a.ip d hlookup
        · exact hbound k c hc

theorem Effect.safe (h : Effect config s x t) (hfits : ∀ e ∈ t.events, e.Fits) : Safe config s x := by
  intro b hb
  cases h with
  | quiet hnone _ _ =>
      rw [hnone] at hb
      cases hb
  | touch a ha u hu ht =>
      rw [ha, Option.some.injEq] at hb
      subst hb
      obtain ⟨new, hevents, hnew⟩ := hu.events
      rw [ht, updateProbability_eq] at hfits
      simp only [hevents] at hfits
      constructor
      · exact (countsUp_iff hu.self).mp (fun e he => hfits e (List.mem_append_right _ he))
      · exact hnew.mp (fun e he => hfits e (List.mem_append_left _ (List.mem_append_right _ he)))

end Updates

section Main

variable {config : Config} {s : State} {inputs : List Input}

theorem initial_sound (config : Config) : Sound config .initial := by
  refine ⟨fun _ he => absurd he List.not_mem_nil, fun _ _ _ hc => ?_⟩
  cases hc

theorem run_sound (h : EveryStep (step config) .initial (fun _ => Safe config) inputs)
    (hrun : run (step config) .initial inputs = some s) : Sound config s := by
  refine (h.preserves (I := fun s => Good config s ∧ Sound config s) (fun s t x hs hx ht => ?_)
    ⟨initial_good config, initial_sound config⟩ hrun).2
  obtain ⟨u, hu, hgood, heffect⟩ := step_effect hs.1 x
  rw [hu, Option.some.injEq] at ht
  exact ht ▸ ⟨hgood, heffect.sound hx hs.2⟩

theorem countersSound_iff : CountersSound config inputs ↔ EveryStep (step config) .initial (fun _ => Safe config) inputs := by
  constructor
  · intro h pre x post s heq hs
    obtain ⟨t, ht, -, heffect⟩ := step_effect (run_good hs) x
    refine heffect.safe (h (pre ++ [x]) post t ?_ ?_).fits
    · rw [heq, List.append_assoc, List.singleton_append]
    · rw [run_append, hs, Option.bind_some, run_single]
      exact ht
  · rintro h pre post s rfl hs
    exact run_sound h.of_append hs

end Main

end Thermometer.ProbBtbCounters
