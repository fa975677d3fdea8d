import Thermometer.CacheSystem

namespace Thermometer.CacheTokens

open Lib Keyed Packets QueueList CacheModel CacheMshr CacheSystem

variable {P R : Type}

section Lists

variable {E : Type} {l : List E} {e x : E} {i : Nat} {f : E → E} {p : E → Bool} {b : Bool}

theorem countP_modify_le (h : l[i]? = some e) (hp : p (f e) = true → p e = true ∨ b = true) :
    (l.modify i f).countP p ≤ l.countP p + if b then 1 else 0 := by
  obtain ⟨rest, hl, hset⟩ := set_perm h
  rw [modify_eq_set h, hl.countP_eq, (hset (f e)).countP_eq, List.countP_cons, List.countP_cons]
  by_cases hfe : p (f e) = true
  · rw [if_pos hfe]
    rcases hp hfe with he | hb
    · rw [if_pos he]
      omega
    · rw [if_pos hb]
      omega
  · rw [if_neg hfe]
    omega

theorem countP_modify_eq (h : l[i]? = some e) (hp : p (f e) = p e) : (l.modify i f).countP p = l.countP p := by
  obtain ⟨rest, hl, hset⟩ := set_perm h
  rw [modify_eq_set h, hl.countP_eq, (hset (f e)).countP_eq, List.countP_cons, List.countP_cons, hp]

theorem countP_set_le (h : l[i]? = some e) (hp : p x = true → b = true) :
    (l.set i x).countP p ≤ l.countP p + if b then 1 else 0 := by
  obtain ⟨rest, hl, hset⟩ := set_perm h
  rw [hl.countP_eq, (hset x).countP_eq, List.countP_cons, List.countP_cons]
  by_cases hx : p x = true
  · rw [if_pos hx, if_pos (hp hx)]
    omega
  · rw [if_neg hx]
    omega

theorem mem_modify (h : l[i]? = some e) (hx : x ∈ l.modify i f) : x ∈ l ∨ x = f e := by
  obtain ⟨rest, hl, hset⟩ := set_perm h
  rw [modify_eq_set h, (hset (f e)).mem_iff, List.mem_cons] at hx
  rcases hx with rfl | hx
  · exact .inr rfl
  · exact .inl (hl.mem_iff.mpr (List.mem_cons_of_mem e hx))

theorem findIdx?_found {l : List E} (h : l.findIdx? p = some i) : ∃ e, l[i]? = some e ∧ p e = true ∧ e ∈ l := by
  obtain ⟨hi, he, -⟩ := List.findIdx?_eq_some_iff_getElem.mp h
  exact ⟨l[i], List.getElem?_eq_getElem hi, he, List.getElem_mem hi⟩

theorem entries_modify (q : Pending E) (i : Nat) (f : E → E) : (q.modify i f).entries = q.entries.modify i f := by
  apply List.ext_getElem?
  intro j
  simp only [Pending.entries, Pending.modify, List.getElem?_map, List.getElem?_modify]
  by_cases hij : i = j
  · simp [hij, Option.map_map, Function.comp_def]
  · simp [hij]

theorem entries_popFront (q : Pending E) : q.popFront.entries = q.entries.tail := by
  simp [Pending.entries, Pending.popFront, List.map_tail]

theorem entries_operate (q : Pending E) : q.operate.entries = q.entries := by
  simp [Pending.entries, Pending.operate, Function.comp_def]

end Lists

section Queues

variable {warm : Bool} {q : Pending (Packet R)} {packet p : Packet R} {found : Packet R → Bool}
  {merge : Packet R → Packet R} {now : Nat}

theorem entries_push : (push warm q packet).entries = q.entries ++ [packet] := by
  simp only [push]
  split_ifs <;> simp [Pending.entries, Pending.pushBack, Pending.pushBackReady, Pending.pushWith]

theorem mem_enqueue (h : p ∈ (enqueue warm q packet found merge).1.entries) :
    p ∈ q.entries ∨ p = packet ∨ ∃ e ∈ q.entries, found e = true ∧ p = merge e := by
  simp only [enqueue] at h
  cases hfind : q.entries.findIdx? found with
  | some i =>
      simp only [hfind, entries_modify] at h
      obtain ⟨e, hi, he, hmem⟩ := findIdx?_found hfind
      rcases mem_modify hi h with h | h
      · exact .inl h
      · exact .inr (.inr ⟨e, hmem, he, h⟩)
  | none =>
      simp only [hfind] at h
      by_cases hfull : q.full = true
      · rw [if_pos hfull] at h
        exact .inl h
      · rw [if_neg hfull, entries_push, List.mem_append, List.mem_singleton] at h
        exact h.imp_right .inl

theorem countP_enqueue_le {t : Packet R → Bool}
    (hmerge : ∀ e, found e = true → t (merge e) = true → t e = true ∨ t packet = true) :
    (enqueue warm q packet found merge).1.entries.countP t ≤ q.entries.countP t + if t packet then 1 else 0 := by
  simp only [enqueue]
  cases hfind : q.entries.findIdx? found with
  | some i =>
      obtain ⟨e, hi, he, -⟩ := findIdx?_found hfind
      simp only [entries_modify]
      exact countP_modify_le hi (hmerge e he)
  | none =>
      by_cases hfull : q.full = true
      · simp only [if_pos hfull]
        exact Nat.le_add_right _ _
      · simp only [if_neg hfull, entries_push, List.countP_append, List.countP_singleton]
        exact le_rfl

theorem due_some (h : due q now = some p) : ∃ rest, q.entries = p :: rest := by
  simp only [due, Option.ite_none_right_eq_some, Option.filter_eq_some_iff] at h
  have hhead : q.entries.head? = some p := h.2.1
  rw [List.head?_eq_some_iff] at hhead
  exact hhead

end Queues

variable [LinearOrder R]

def holds (u : R) (address : Nat) (p : Packet R) : Bool := decide (p.address = address) && decide (u ∈ p.toReturn)

def live (answering : Option (R × Nat)) (l : R) (e : Packet R) : Bool := decide (answering ≠ some (l, e.address))

def owed (answering : Option (R × Nat)) (l : R) (c : Cache P R) (u : R) (address : Nat) : Nat :=
  c.rq.entries.countP (holds u address) + c.pq.entries.countP (holds u address) +
    c.mshr.countP (fun e => holds u address e && live answering l e)

section Owed

variable {answering : Option (R × Nat)} {l u : R} {c c' : Cache P R} {a now i : Nat} {p packet e : Packet R} {warm : Bool}

theorem holds_iff : holds u a p = true ↔ p.address = a ∧ u ∈ p.toReturn := by
  simp [holds]

theorem holds_mergeRead (he : e.address = p.address) :
    holds u a (mergeRead p e) = true ↔ holds u a e = true ∨ holds u a p = true := by
  simp only [holds_iff, mergeRead, SortedMerge.mem_merge, he]
  tauto

theorem holds_mergePrefetch (he : e.address = p.address) :
    holds u a (mergePrefetch p e) = true ↔ holds u a e = true ∨ holds u a p = true := by
  simp only [holds_iff, mergePrefetch, SortedMerge.mem_merge, he]
  tauto

theorem mem_mergeMiss (h : u ∈ (mergeMiss p e).toReturn) : u ∈ e.toReturn ∨ u ∈ p.toReturn := by
  simp only [mergeMiss] at h
  split_ifs at h
  · exact .inr h
  · exact (SortedMerge.mem_merge _ _).mp h

theorem holds_mergeMiss (he : e.address = p.address) (h : holds u a (mergeMiss p e) = true) :
    holds u a e = true ∨ holds u a p = true := by
  rw [holds_iff, mergeMiss_address he.symm] at h
  rcases mem_mergeMiss h.2 with hu | hu
  · exact .inl (holds_iff.mpr ⟨h.1, hu⟩)
  · exact .inr (holds_iff.mpr ⟨he ▸ h.1, hu⟩)

theorem owed_merge_le (h : c.findMshr packet.address = some i) :
    owed answering l (c.mergeMshr i packet) u a ≤ owed answering l c u a + if holds u a packet then 1 else 0 := by
  obtain ⟨e, hi, hkey, -⟩ := findMshr_some h
  have he : e.address = packet.address := (address?_iff.mp hkey).2
  have hcount : (c.mshr.modify i (mergeMiss packet)).countP (fun e => holds u a e && live answering l e) ≤
      c.mshr.countP (fun e => holds u a e && live answering l e) + if holds u a packet then 1 else 0 := by
    apply countP_modify_le hi
    intro hm
    rw [Bool.and_eq_true] at hm
    rcases holds_mergeMiss he hm.1 with hold | hold
    · have hlive : live answering l e = true := by
        simpa only [live, mergeMiss_address he.symm] using hm.2
      exact .inl (Bool.and_eq_true_iff.mpr ⟨hold, hlive⟩)
    · exact .inr hold
  simp only [owed, Cache.mergeMshr]
  omega

theorem owed_allocated_le (hfull : c.mshrFull = false) :
    owed answering l (c.allocated now packet) u a ≤ owed answering l c u a + if holds u a packet then 1 else 0 := by
  obtain ⟨i, e, hfind, hi, -⟩ := exists_free hfull
  simp only [Cache.allocated, Cache.allocateMshr, hfind]
  by_cases hlevel : packet.fillLevel ≤ c.config.fillLevel
  · rw [if_pos hlevel]
    have hcount : (c.mshr.set i { packet with returned := .inflight, cycleEnqueued := now }).countP
        (fun e => holds u a e && live answering l e) ≤
        c.mshr.countP (fun e => holds u a e && live answering l e) + if holds u a packet then 1 else 0 := by
      apply countP_set_le hi
      intro hx
      exact (Bool.and_eq_true_iff.mp hx).1
    simp only [owed]
    omega
  · rw [if_neg hlevel]
    exact Nat.le_add_right _ _

theorem owed_return (h : c.returnData warm now packet = some c') : owed answering l c' u a = owed answering l c u a := by
  obtain ⟨i, hi, rfl⟩ := Option.map_eq_some_iff.mp h
  obtain ⟨e, hi, -, -⟩ := findMshr_some hi
  simp only [owed, (ListSort.sort_perm _).countP_eq]
  rw [countP_modify_eq hi]
  rfl

/-- The entry that was being answered is gone. -/
theorem owed_release_le (hd : DistinctMshr c) (hfree : ∀ e ∈ c.mshr, e.address = 0 → e.toReturn = []) (b : Nat) :
    owed none l (c.releaseMshr a) u b ≤ owed (some (l, a)) l c u b := by
  have hlive : ∀ e : Packet R, e.address ≠ a → live (some (l, a)) l e = true := by
    intro e he
    simp only [live, decide_eq_true_eq, ne_eq, Option.some.injEq, Prod.mk.injEq, true_and]
    exact fun h => he h.symm
  have hcount : (c.releaseMshr a).mshr.countP (fun e => holds u b e && live none l e) ≤
      c.mshr.countP (fun e => holds u b e && live (some (l, a)) l e) := by
    cases hfind : c.findMshr a with
    | none =>
        simp only [Cache.releaseMshr, hfind]
        apply List.countP_mono_left
        intro e he hold
        rw [Bool.and_eq_true] at hold ⊢
        refine ⟨hold.1, hlive e fun hea => ?_⟩
        by_cases hzero : e.address = 0
        · have hu := (holds_iff.mp hold.1).2
          rw [hfree e he hzero] at hu
          cases hu
        · exact lookup_none.mp (findMshr_none.mp hfind) e he (address?_iff.mpr ⟨hzero, hea⟩)
    | some i =>
        obtain ⟨e, hi, hkey, -⟩ := findMshr_some hfind
        obtain ⟨rest, hl, hset⟩ := set_perm hi
        have heq : (c.releaseMshr a).mshr = ListSort.sort minFillIndex (c.mshr.set i {}) := by
          simp only [Cache.releaseMshr, hfind]
        have hblank : (holds u b ({} : Packet R) && live none l ({} : Packet R)) = false := by
          simp [holds]
        have hrest : rest.countP (fun e => holds u b e && live none l e) ≤
            rest.countP (fun e => holds u b e && live (some (l, a)) l e) := by
          apply List.countP_mono_left
          intro x hx hold
          rw [Bool.and_eq_true] at hold ⊢
          refine ⟨hold.1, hlive x fun hxa => ?_⟩
          have hne : x.address ≠ 0 := by
            rw [hxa, ← (address?_iff.mp hkey).2]
            exact (address?_iff.mp hkey).1
          exact (distinct_cons.mp (hd.perm hl)).1 a hkey x hx (address?_iff.mpr ⟨hne, hxa⟩)
        have hfirst : List.countP (fun e => holds u b e && live none l e) ({} :: rest) =
            rest.countP (fun e => holds u b e && live none l e) :=
          List.countP_cons_of_neg (Bool.eq_false_iff.mp hblank)
        rw [heq, (ListSort.sort_perm _).countP_eq, (hset {}).countP_eq, hl.countP_eq, hfirst, List.countP_cons]
        omega
  have hframe : (c.releaseMshr a).rq = c.rq ∧ (c.releaseMshr a).pq = c.pq := by
    obtain ⟨mshr, h⟩ := releaseMshr_eq c a
    rw [h]
    exact ⟨rfl, rfl⟩
  simp only [owed, hframe.1, hframe.2]
  omega

end Owed

end Thermometer.CacheTokens
