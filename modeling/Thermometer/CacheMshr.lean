import Thermometer.CacheModel
import Thermometer.Lib.Keyed

namespace Thermometer.CacheMshr

open Lib Keyed Packets CacheModel

variable {P R : Type}

def address? (p : Packet R) : Option Nat := if isValid p then some p.address else none

def entry (c : Cache P R) (address : Nat) : Option (Packet R) := lookup address? address c.mshr

/-- No address has two entries. -/
def DistinctMshr (c : Cache P R) : Prop := Distinct address? c.mshr

section Lookup

variable {c : Cache P R} {p e : Packet R} {a i : Nat}

theorem address?_iff : address? p = some a ↔ p.address ≠ 0 ∧ p.address = a := by
  simp [address?, isValid]

theorem eqAddr_eq : eqAddr a p = decide (address? p = some a) := by
  rw [Bool.eq_iff_iff, eqAddr_iff, decide_eq_true_iff, address?_iff]

theorem entry_eq (a : Nat) : entry c a = c.mshr.find? (eqAddr a) := by
  have hpred : (fun p : Packet R => decide (address? p = some a)) = eqAddr a := by
    funext p
    exact eqAddr_eq.symm
  rw [entry, lookup, hpred]

theorem entry_address (h : entry c a = some e) : e.address ≠ 0 ∧ e.address = a := address?_iff.mp (lookup_some h).2

theorem findMshr_none : c.findMshr a = none ↔ entry c a = none := by
  rw [entry_eq, Cache.findMshr, List.findIdx?_eq_none_iff, List.find?_eq_none]
  simp

theorem findMshr_some (h : c.findMshr a = some i) : ∃ e, c.mshr[i]? = some e ∧ address? e = some a ∧ entry c a = some e := by
  rw [Cache.findMshr, List.findIdx?_eq_some_iff_getElem] at h
  obtain ⟨hi, he, hbefore⟩ := h
  refine ⟨c.mshr[i], List.getElem?_eq_getElem hi, ?_, ?_⟩
  · rw [eqAddr_eq, decide_eq_true_iff] at he
    exact he
  · rw [entry_eq, List.find?_eq_some_iff_getElem]
    refine ⟨he, i, hi, rfl, fun j hj => ?_⟩
    simpa using hbefore j hj

theorem findMshr_of_entry (h : entry c a = some e) : ∃ i, c.findMshr a = some i := by
  cases hfind : c.findMshr a with
  | none =>
      rw [findMshr_none.mp hfind] at h
      cases h
  | some i => exact ⟨i, rfl⟩

theorem exists_free (h : c.mshrFull = false) :
    ∃ i e, c.mshr.findIdx? (fun p => !isValid p) = some i ∧ c.mshr[i]? = some e ∧ address? e = none := by
  have hany : ∃ p ∈ c.mshr, isValid p = false := by
    simpa [Cache.mshrFull] using h
  obtain ⟨p, hp, hvalid⟩ := hany
  cases hfind : c.mshr.findIdx? (fun p => !isValid p) with
  | none =>
      rw [List.findIdx?_eq_none_iff] at hfind
      have hp := hfind p hp
      simp [hvalid] at hp
  | some i =>
      obtain ⟨hi, he, -⟩ := List.findIdx?_eq_some_iff_getElem.mp hfind
      refine ⟨i, c.mshr[i], rfl, List.getElem?_eq_getElem hi, ?_⟩
      simpa [address?] using he

end Lookup

section Effects

variable {c c' : Cache P R} {p e : Packet R} {f : Packet R → Packet R} {a b i now : Nat} {warm : Bool}

theorem modify_distinct (hd : DistinctMshr c) (h : c.findMshr a = some i) (hf : ∀ e, e.address = a → (f e).address = a) :
    Distinct address? (c.mshr.modify i f) := by
  obtain ⟨e, hi, hkey, -⟩ := findMshr_some h
  rw [modify_eq_set hi f]
  apply set_distinct hd hi
  intro k hk
  rw [address?_iff, hf e (address?_iff.mp hkey).2] at hk
  exact .inl (hk.2 ▸ hkey)

theorem modify_lookup (hd : DistinctMshr c) (h : c.findMshr a = some i) (hf : ∀ e, e.address = a → (f e).address = a)
    (b : Nat) : lookup address? b (c.mshr.modify i f) = if b = a then (entry c b).map f else entry c b := by
  obtain ⟨e, hi, hkey, hentry⟩ := findMshr_some h
  have he := address?_iff.mp hkey
  have hfe : address? (f e) = some a := address?_iff.mpr ⟨hf e he.2 ▸ he.2 ▸ he.1, hf e he.2⟩
  rw [modify_eq_set hi f, lookup_set hd hi, hfe, hkey]
  · by_cases hb : b = a
    · subst hb
      rw [if_pos rfl, if_pos rfl, hentry]
      rfl
    · rw [if_neg (fun h => hb (Option.some.inj h).symm), if_neg (fun h => hb (Option.some.inj h).symm), if_neg hb]
      rfl
  · intro k hk
    exact .inl (hkey.trans (hfe.symm.trans hk))

theorem returnData_entry (hd : DistinctMshr c) (h : c.returnData warm now p = some c') :
    DistinctMshr c' ∧ (∃ e, entry c p.address = some e) ∧
      ∀ b, entry c' b = if b = p.address then (entry c b).map (c.completed warm now p) else entry c b := by
  obtain ⟨i, hi, rfl⟩ := Option.map_eq_some_iff.mp h
  have hf : ∀ e : Packet R, e.address = p.address → (c.completed warm now p e).address = p.address := fun _ he => he
  have hmod := modify_distinct hd hi hf
  have hperm := @ListSort.sort_perm _ minFillIndex (c.mshr.modify i (c.completed warm now p))
  refine ⟨hmod.perm hperm.symm, ?_, fun b => ?_⟩
  · obtain ⟨e, -, -, he⟩ := findMshr_some hi
    exact ⟨e, he⟩
  · exact (lookup_perm hmod hperm.symm).trans (modify_lookup hd hi hf b)

theorem returnData_none : c.returnData warm now p = none ↔ entry c p.address = none := by
  rw [Cache.returnData, Option.map_eq_none_iff, findMshr_none]

theorem allocate_entry (hd : DistinctMshr c) (hfull : c.mshrFull = false) (hp : p.address ≠ 0)
    (hno : entry c p.address = none) (now : Nat) :
    DistinctMshr (c.allocateMshr now p) ∧ ∀ b, entry (c.allocateMshr now p) b =
      if b = p.address then some { p with returned := .inflight, cycleEnqueued := now } else entry c b := by
  obtain ⟨i, e, hfind, hi, hfree⟩ := exists_free hfull
  have hkey : address? ({ p with returned := .inflight, cycleEnqueued := now } : Packet R) = some p.address :=
    address?_iff.mpr ⟨hp, rfl⟩
  have hnew : ∀ k, address? ({ p with returned := .inflight, cycleEnqueued := now } : Packet R) = some k →
      address? e = some k ∨ lookup address? k c.mshr = none := by
    intro k hk
    rw [hkey, Option.some.injEq] at hk
    exact .inr (hk ▸ hno)
  have heq : (c.allocateMshr now p).mshr = c.mshr.set i { p with returned := .inflight, cycleEnqueued := now } := by
    simp only [Cache.allocateMshr, hfind]
  simp only [DistinctMshr, entry, heq]
  refine ⟨set_distinct hd hi hnew, fun b => ?_⟩
  rw [lookup_set hd hi hnew, hkey, hfree]
  by_cases hb : b = p.address
  · rw [hb, if_pos rfl, if_pos rfl]
  · rw [if_neg (fun h => hb (Option.some.inj h).symm), if_neg hb]
    rfl

theorem release_entry (hd : DistinctMshr c) :
    DistinctMshr (c.releaseMshr a) ∧ ∀ b, entry (c.releaseMshr a) b = if b = a then none else entry c b := by
  cases hfind : c.findMshr a with
  | none =>
      simp only [Cache.releaseMshr, hfind]
      refine ⟨hd, fun b => ?_⟩
      by_cases hb : b = a
      · rw [if_pos hb, hb]
        exact findMshr_none.mp hfind
      · rw [if_neg hb]
  | some i =>
      obtain ⟨e, hi, hkey, hentry⟩ := findMshr_some hfind
      have hempty : address? ({} : Packet R) = none := rfl
      have hnew : ∀ k, address? ({} : Packet R) = some k → address? e = some k ∨ lookup address? k c.mshr = none := by
        intro k hk
        cases hk
      have hset := set_distinct hd hi hnew
      have hperm := @ListSort.sort_perm _ minFillIndex (c.mshr.set i ({} : Packet R))
      have heq : (c.releaseMshr a).mshr = ListSort.sort minFillIndex (c.mshr.set i {}) := by
        simp only [Cache.releaseMshr, hfind]
      simp only [DistinctMshr, entry, heq]
      refine ⟨hset.perm hperm.symm, fun b => ?_⟩
      rw [lookup_perm hset hperm.symm, lookup_set hd hi hnew, hempty, hkey]
      by_cases hb : b = a
      · rw [hb, if_pos rfl, if_pos rfl]
        rfl
      · rw [if_neg hb, if_neg (fun h => hb (Option.some.inj h).symm)]
        rfl

variable [LinearOrder R]

theorem merge_entry_self (h : c.findMshr p.address = some i) (he : entry c p.address = some e) :
    entry (c.mergeMshr i p) p.address = some (mergeMiss p e) := by
  obtain ⟨d, hi, hkey, hd⟩ := findMshr_some h
  rw [he, Option.some.injEq] at hd
  subst hd
  have hp := address?_iff.mp hkey
  have hf : address? (mergeMiss p e) = some p.address :=
    address?_iff.mpr ⟨(mergeMiss_address hp.2.symm).symm ▸ hp.1, (mergeMiss_address hp.2.symm).trans hp.2⟩
  refine lookup_modify_first ?_ hi hf
  have hpred : (fun q : Packet R => decide (address? q = some p.address)) = eqAddr p.address := by
    funext q
    exact eqAddr_eq.symm
  rw [hpred]
  exact h

theorem merge_entry (hd : DistinctMshr c) (h : c.findMshr p.address = some i) :
    DistinctMshr (c.mergeMshr i p) ∧ ∀ b, entry (c.mergeMshr i p) b =
      if b = p.address then (entry c b).map (mergeMiss p) else entry c b := by
  have hf : ∀ e : Packet R, e.address = p.address → (mergeMiss p e).address = p.address :=
    fun e he => (mergeMiss_address he.symm).trans he
  exact ⟨modify_distinct hd h hf, modify_lookup hd h hf⟩

end Effects

section Rounds

variable {c : Cache P R} {out : Outside} {now set way : Nat} {packet : Packet R} {round : Round P R}

theorem filllikeMiss_cases {e : Option (Packet R)} (h : c.filllikeMiss out now set way packet e = some round) :
    round = .idle ∨ ∃ writeback, round = .filled (c.install set way packet) writeback e ∧
      (packet.type = .writeback → way ≠ c.config.numWay) ∧
      (∀ w ∈ writeback, w = c.writebackPacket now packet (c.block set way)) := by
  simp only [Cache.filllikeMiss] at h
  by_cases hbypass : packet.type = .writeback ∧ way = c.config.numWay
  · rw [if_pos hbypass] at h
    cases h
  rw [if_neg hbypass] at h
  by_cases hroom : (c.evictingDirty set way && out.writeFull) = true
  · rw [if_pos hroom, Option.some.injEq] at h
    exact .inl h.symm
  · rw [if_neg hroom, Option.some.injEq] at h
    refine .inr ⟨_, h.symm, fun htype hway => hbypass ⟨htype, hway⟩, ?_⟩
    intro w hw
    by_cases hdirty : c.evictingDirty set way = true
    · rw [if_pos hdirty, Option.mem_some_iff] at hw
      exact hw.symm
    · rw [if_neg hdirty] at hw
      cases hw

theorem handleFill_cases (h : c.handleFill out now = some round) :
    round = .idle ∨ ∃ front writeback, c.mshr.head? = some front ∧ front.returned = .completed ∧
      round = .filled
        (c.install (c.getSet front.address) (c.findVictim front (c.getSet front.address)) front).spendWrite writeback
        (some (c.filledEntry out (c.findVictim front (c.getSet front.address)) front)) ∧
      ∀ w ∈ writeback, w.toReturn = [] := by
  simp only [Cache.handleFill] at h
  by_cases hwrites : c.writesAvailable = 0
  · rw [if_pos hwrites, Option.some.injEq] at h
    exact .inl h.symm
  rw [if_neg hwrites] at h
  cases hfront : c.mshr.head? with
  | none =>
      rw [hfront, Option.some.injEq] at h
      exact .inl h.symm
  | some front =>
      simp only [hfront] at h
      by_cases hret : front.returned ≠ .completed ∨ now < front.eventCycle
      · rw [if_pos hret, Option.some.injEq] at h
        exact .inl h.symm
      rw [if_neg hret, Option.map_eq_some_iff] at h
      obtain ⟨filled, hfilled, rfl⟩ := h
      rw [not_or, not_not] at hret
      rcases filllikeMiss_cases hfilled with rfl | ⟨writeback, rfl, -, hwb⟩
      · exact .inl rfl
      · refine .inr ⟨front, writeback, rfl, hret.1, rfl, ?_⟩
        intro w hw
        rw [hwb w hw]
        rfl

variable [LinearOrder R]

def Blocked (c : Cache P R) (out : Outside) (packet : Packet R) : Prop :=
  c.mshrFull = true ∨ c.config.cacheType = .llc ∧ out.readFull = true ∨
    c.config.cacheType ≠ .llc ∧ packet.type = .prefetch ∧ out.prefetchFull = true

/-- What `readlike_miss` does. -/
inductive MissCases (c : Cache P R) (out : Outside) (now : Nat) (packet : Packet R) : Prop
  | merged (i : Nat) (hi : c.findMshr packet.address = some i)
      (heq : c.readlikeMiss out now packet = .done (c.mergeMshr i packet) [])
  | blocked (hno : c.findMshr packet.address = none) (hblocked : Blocked c out packet)
      (heq : c.readlikeMiss out now packet = .idle)
  | sent (hno : c.findMshr packet.address = none) (hfree : ¬Blocked c out packet) (htype : c.config.cacheType ≠ .stlb)
      (heq : c.readlikeMiss out now packet =
        .sent (c.allocated now packet) (c.lowerPacket packet) (c.lowerPrefetch packet))
  | walked (hno : c.findMshr packet.address = none) (hfree : ¬Blocked c out packet) (htype : c.config.cacheType = .stlb)
      (heq : c.readlikeMiss out now packet =
        .walked (c.allocated now packet) { packet with data := out.ppage, eventCycle := now })

theorem readlikeMiss_cases (c : Cache P R) (out : Outside) (now : Nat) (packet : Packet R) : MissCases c out now packet := by
  cases hfind : c.findMshr packet.address with
  | some i => exact .merged i hfind (by simp only [Cache.readlikeMiss, hfind])
  | none =>
      by_cases hfull : c.mshrFull = true
      · exact .blocked hfind (.inl hfull) (by simp only [Cache.readlikeMiss, hfind, if_pos hfull])
      by_cases hread : c.config.cacheType = .llc ∧ out.readFull = true
      · exact .blocked hfind (.inr (.inl hread)) (by simp only [Cache.readlikeMiss, hfind, if_neg hfull, if_pos hread])
      by_cases hprefetch : c.config.cacheType ≠ .llc ∧ packet.type = .prefetch ∧ out.prefetchFull = true
      · refine .blocked hfind (.inr (.inr hprefetch)) ?_
        simp only [Cache.readlikeMiss, hfind, if_neg hfull, if_neg hread, if_pos hprefetch]
      have hfree : ¬Blocked c out packet := by
        rintro (h | h | h)
        · exact hfull h
        · exact hread h
        · exact hprefetch h
      by_cases htype : c.config.cacheType = .stlb
      · refine .walked hfind hfree htype ?_
        simp only [Cache.readlikeMiss, hfind, if_neg hfull, if_neg hread, if_neg hprefetch, if_neg (not_not.mpr htype)]
      · refine .sent hfind hfree htype ?_
        simp only [Cache.readlikeMiss, hfind, if_neg hfull, if_neg hread, if_neg hprefetch, if_pos htype]

theorem readlikeMiss_merges {i : Nat} (h : c.findMshr packet.address = some i) :
    c.readlikeMiss out now packet = .done (c.mergeMshr i packet) [] := by
  simp only [Cache.readlikeMiss, h]

omit [LinearOrder R] in
theorem allocated_eq (c : Cache P R) (now : Nat) (packet : Packet R) :
    ∃ mshr, c.allocated now packet = { c with mshr := mshr } := by
  simp only [Cache.allocated, Cache.allocateMshr]
  split_ifs
  · cases c.mshr.findIdx? (fun p => !isValid p) with
    | none => exact ⟨c.mshr, rfl⟩
    | some i => exact ⟨_, rfl⟩
  · exact ⟨c.mshr, rfl⟩

omit [LinearOrder R] in
theorem releaseMshr_eq (c : Cache P R) (address : Nat) : ∃ mshr, c.releaseMshr address = { c with mshr := mshr } := by
  simp only [Cache.releaseMshr]
  cases c.findMshr address with
  | none => exact ⟨c.mshr, rfl⟩
  | some i => exact ⟨_, rfl⟩

omit [LinearOrder R] in
theorem returnData_eq {c' : Cache P R} {warm : Bool} (h : c.returnData warm now packet = some c') :
    ∃ mshr, c' = { c with mshr := mshr } := by
  obtain ⟨i, -, rfl⟩ := Option.map_eq_some_iff.mp h
  exact ⟨_, rfl⟩

omit [LinearOrder R] in
@[simp] theorem allocated_config : (c.allocated now packet).config = c.config := by
  obtain ⟨mshr, h⟩ := allocated_eq c now packet
  rw [h]

omit [LinearOrder R] in
@[simp] theorem install_mshr : (c.install set way packet).mshr = c.mshr := by
  simp only [Cache.install, Cache.updateReplacementState]
  split_ifs <;> rfl

end Rounds

end Thermometer.CacheMshr
