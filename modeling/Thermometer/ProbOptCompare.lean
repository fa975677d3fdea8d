import Mathlib.Algebra.Order.Monoid.Unbundled.WithTop
import Thermometer.OptFuture
import Thermometer.ReuseHits

namespace Thermometer.ProbOptCompare

open Trace Lib.Tables OptBtb

variable {T : Type}

structure Opt (T : Type) where
  futureAccesses : Future
  futurePrefetches : Future
  currentBtb : Nat → Table T
  totalSets : Nat
  totalWays : Nat
  timestamp : Nat

def Opt.set (t : Opt T) (ip : Nat) : Nat := maskIndex t.totalSets ip

def Opt.withLast (t : Opt T) (lastTimestamp : Nat) : OptBtb.Opt T :=
  ⟨t.futureAccesses, t.futurePrefetches, t.currentBtb, t.totalSets, t.totalWays, lastTimestamp, t.timestamp⟩

def Opt.time (t : Opt T) : Nat := if t.timestamp = 0 then 2 ^ 64 - 1 else t.timestamp - 1

def nextAccess (t : Opt T) (set ip : Nat) : Option Nat := upperBound (t.futureAccesses.times set ip) t.time

/-- What stands for the next use of a branch that is not used again. -/
def Opt.sentinel (t : Opt T) : Nat := (t.time + 1) % 2 ^ 64

/-- The search among the prefetches is the one of `opt_btb`, which does not look at the last time. -/
def prefetchCandidate (o : IterOrder) (t : Opt T) (set : Nat) : Option (Nat × Nat) :=
  OptBtb.prefetchCandidate o (t.withLast 0) set

def demandStep (t : Opt T) (set : Nat) (candidate : Nat × Nat) (ip : Nat) : Nat × Nat :=
  match nextAccess t set ip with
  | none => (t.sentinel, ip)
  | some c => if candidate.1 < c then (c, ip) else candidate

def demandCandidate (o : IterOrder) (t : Opt T) (set ip current : Nat) : Nat × Nat :=
  (iterate o (t.currentBtb set)).foldl (fun candidate entry => demandStep t set candidate entry.1) (current, ip)

/-- 0 if no branch can or need be evicted. -/
def makeEvictDecision (o : IterOrder) (t : Opt T) (insertIp : Nat) : Nat :=
  let set := t.set insertIp
  if t.totalWays ≤ size (t.currentBtb set) then
    match nextAccess t set insertIp with
    | none => 0
    | some current =>
        match prefetchCandidate o t set with
        | some candidate => candidate.2
        | none =>
            let candidate := demandCandidate o t set insertIp current
            if candidate.2 = insertIp then 0 else candidate.2
  else 0

def optVictim (o : IterOrder) (t : OptBtb.Opt T) (ip : Nat) : Nat :=
  if size (t.currentBtb (t.set ip)) = t.totalWays then (chooseVictim o t ip).getD 0 else 0

def nextUse (t : Opt T) (set ip : Nat) : WithTop Nat := nextAccess t set ip

/-- The decision is that of Belady's algorithm with a bypass. -/
structure Belady (o : IterOrder) (t : Opt T) (ip : Nat) : Prop where
  zero : makeEvictDecision o t ip = 0 ↔ ∀ y ∈ t.currentBtb (t.set ip), nextUse t (t.set ip) y < nextUse t (t.set ip) ip
  furthest : makeEvictDecision o t ip ≠ 0 → makeEvictDecision o t ip ∈ t.currentBtb (t.set ip) ∧
    ∀ y ∈ t.currentBtb (t.set ip), nextUse t (t.set ip) y ≤ nextUse t (t.set ip) (makeEvictDecision o t ip)

/-- It is the decision of `opt_btb` on the same contents, with a last time that bounds the record. -/
def Alike (o : IterOrder) (t : Opt T) (ip : Nat) : Prop :=
  ∀ n last, t.totalSets = 2 ^ n → (∀ y, ∀ c ∈ t.futureAccesses.times (t.set ip) y, c ≤ last) →
    makeEvictDecision o t ip = optVictim o (t.withLast last) ip

/-- Every resident is used again, and the furthest of these uses is not that of the incoming branch. -/
def AllUsed (t : Opt T) (ip : Nat) : Prop :=
  (∀ y ∈ t.currentBtb (t.set ip), nextUse t (t.set ip) y ≠ ⊤) ∧
    ((∃ y ∈ t.currentBtb (t.set ip), nextUse t (t.set ip) y = nextUse t (t.set ip) ip) →
      ∃ y ∈ t.currentBtb (t.set ip), nextUse t (t.set ip) ip < nextUse t (t.set ip) y)

/-- After the last resident that is not used again, the loop meets none that is used later than at once. -/
def LastUnused (o : IterOrder) (t : Opt T) (ip : Nat) : Prop :=
  ∃ before x after, (iterate o (t.currentBtb (t.set ip))).map Prod.fst = before ++ x :: after ∧
    nextUse t (t.set ip) x = ⊤ ∧ ∀ y ∈ after, nextUse t (t.set ip) y ≤ t.sentinel

/-- When the decision is right. -/
def DecidesRight (o : IterOrder) (t : Opt T) (ip : Nat) : Prop :=
  if t.totalWays ≤ size (t.currentBtb (t.set ip)) then AllUsed t ip ∨ LastUnused o t ip
  else ∀ y ∈ t.currentBtb (t.set ip), nextUse t (t.set ip) y < nextUse t (t.set ip) ip

section Search

/-- The common loop of the two searches, with what stands for the next use of a branch that has none. -/
def search (next : Nat → Option Nat) (never : Nat) (candidate : Nat × Nat) (ip : Nat) : Nat × Nat :=
  match next ip with
  | none => (never, ip)
  | some c => if candidate.1 < c then (c, ip) else candidate

variable {next : Nat → Option Nat} {never never' : Nat} {l before after : List Nat} {start : Nat × Nat} {x : Nat}

theorem search_used (hused : ∀ y ∈ l, next y ≠ none) (start : Nat × Nat) :
    let found := l.foldl (search next never) start
    (found = start ∧ ∀ y ∈ l, ∀ c ∈ next y, c ≤ start.1) ∨
      (found.2 ∈ l ∧ next found.2 = some found.1 ∧ start.1 < found.1 ∧ ∀ y ∈ l, ∀ c ∈ next y, c ≤ found.1) := by
  induction l generalizing start with
  | nil => exact .inl ⟨rfl, fun y hy => absurd hy List.not_mem_nil⟩
  | cons a l ih =>
      obtain ⟨d, hd⟩ := Option.ne_none_iff_exists'.mp (hused a List.mem_cons_self)
      have hrest := ih (fun y hy => hused y (List.mem_cons_of_mem a hy))
      have hbound : ∀ b, d ≤ b → (∀ y ∈ l, ∀ c ∈ next y, c ≤ b) → ∀ y ∈ a :: l, ∀ c ∈ next y, c ≤ b := by
        intro b hb hall y hy c hc
        rcases List.mem_cons.mp hy with rfl | hy
        · rw [hd, Option.mem_some_iff] at hc
          exact hc ▸ hb
        · exact hall y hy c hc
      rw [List.foldl_cons, search, hd]
      by_cases hlt : start.1 < d
      · simp only [if_pos hlt]
        rcases hrest (d, a) with ⟨heq, hall⟩ | ⟨hmem, hnext, hmore, hall⟩
        · rw [heq]
          exact .inr ⟨List.mem_cons_self, hd, hlt, hbound d le_rfl hall⟩
        · exact .inr ⟨List.mem_cons_of_mem a hmem, hnext, hlt.trans hmore, hbound _ hmore.le hall⟩
      · simp only [if_neg hlt]
        rcases hrest start with ⟨heq, hall⟩ | ⟨hmem, hnext, hmore, hall⟩
        · exact .inl ⟨heq, hbound _ (not_lt.mp hlt) hall⟩
        · exact .inr ⟨List.mem_cons_of_mem a hmem, hnext, hmore, hbound _ ((not_lt.mp hlt).trans hmore.le) hall⟩

theorem search_congr (hused : ∀ y ∈ l, next y ≠ none) (start : Nat × Nat) :
    l.foldl (search next never) start = l.foldl (search next never') start := by
  induction l generalizing start with
  | nil => rfl
  | cons a l ih =>
      obtain ⟨d, hd⟩ := Option.ne_none_iff_exists'.mp (hused a List.mem_cons_self)
      rw [List.foldl_cons, List.foldl_cons, ih (fun y hy => hused y (List.mem_cons_of_mem a hy))]
      simp only [search, hd]

theorem search_split (hx : next x = none) (before after : List Nat) (start : Nat × Nat) :
    (before ++ x :: after).foldl (search next never) start = after.foldl (search next never) (never, x) := by
  rw [List.foldl_append, List.foldl_cons, search, hx]

theorem search_last (hx : next x = none) (hafter : ∀ y ∈ after, ∃ c, next y = some c ∧ c ≤ never) (start : Nat × Nat) :
    ((before ++ x :: after).foldl (search next never) start).2 = x := by
  rw [search_split hx]
  have hused : ∀ y ∈ after, next y ≠ none := by
    intro y hy
    obtain ⟨c, hc, -⟩ := hafter y hy
    rw [hc]
    exact Option.some_ne_none c
  rcases search_used hused (never, x) with ⟨heq, -⟩ | ⟨hmem, hnext, hlt, -⟩
  · rw [heq]
  · obtain ⟨c, hc, hle⟩ := hafter _ hmem
    rw [hc, Option.some.injEq] at hnext
    rw [hnext] at hle
    exact absurd hlt (not_lt.mpr hle)

theorem exists_last_unused (h : ∃ y ∈ l, next y = none) :
    ∃ before x after, l = before ++ x :: after ∧ next x = none ∧ ∀ y ∈ after, next y ≠ none := by
  induction l with
  | nil =>
      obtain ⟨y, hy, -⟩ := h
      cases hy
  | cons a l ih =>
      by_cases hl : ∃ y ∈ l, next y = none
      · obtain ⟨before, x, after, rfl, hx, hafter⟩ := ih hl
        exact ⟨a :: before, x, after, rfl, hx, hafter⟩
      · obtain ⟨y, hy, hnone⟩ := h
        rcases List.mem_cons.mp hy with rfl | hy
        · exact ⟨[], y, l, rfl, hnone, fun z hz hz' => hl ⟨z, hz, hz'⟩⟩
        · exact absurd ⟨y, hy, hnone⟩ hl

end Search

section Decision

variable {o : IterOrder} {t : Opt T} {set ip current last : Nat}

def residents (o : IterOrder) (t : Opt T) (set : Nat) : List Nat := (iterate o (t.currentBtb set)).map Prod.fst

theorem mem_residents {y : Nat} : y ∈ residents o t set ↔ y ∈ t.currentBtb set := mem_iterate_keys o _ y

theorem demandCandidate_eq (o : IterOrder) (t : Opt T) (set ip current : Nat) :
    demandCandidate o t set ip current = (residents o t set).foldl (search (nextAccess t set) t.sentinel) (current, ip) := by
  rw [residents, List.foldl_map]
  rfl

theorem opt_demandCandidate_eq (o : IterOrder) (t : Opt T) (set ip current last : Nat) :
    OptBtb.demandCandidate o (t.withLast last) set ip current =
      (residents o t set).foldl (search (nextAccess t set) (last + 1)) (current, ip) := by
  rw [residents, List.foldl_map]
  rfl

theorem nextUse_eq_top {y : Nat} : nextUse t set y = ⊤ ↔ nextAccess t set y = none := Iff.rfl

theorem nextUse_eq_coe {y c : Nat} : nextUse t set y = (c : WithTop Nat) ↔ nextAccess t set y = some c := Iff.rfl

theorem decision_room (h : ¬t.totalWays ≤ size (t.currentBtb (t.set ip))) : makeEvictDecision o t ip = 0 := by
  simp only [makeEvictDecision, if_neg h]

theorem decision_full (h : t.totalWays ≤ size (t.currentBtb (t.set ip))) (hcurrent : nextAccess t (t.set ip) ip = some current)
    (hprefetch : ∀ y, t.futurePrefetches.times (t.set ip) y = ∅) :
    makeEvictDecision o t ip =
      if (demandCandidate o t (t.set ip) ip current).2 = ip then 0 else (demandCandidate o t (t.set ip) ip current).2 := by
  have hnone : prefetchCandidate o t (t.set ip) = none := OptFuture.prefetchCandidate_none hprefetch
  simp only [makeEvictDecision, if_pos h, hcurrent, hnone]

theorem belady_of_victim {x : Nat} (hzero : 0 ∉ t.currentBtb (t.set ip)) (hdecision : makeEvictDecision o t ip = x)
    (hx : x ∈ t.currentBtb (t.set ip)) (hmax : ∀ y ∈ t.currentBtb (t.set ip), nextUse t (t.set ip) y ≤ nextUse t (t.set ip) x)
    (hlater : ¬nextUse t (t.set ip) x < nextUse t (t.set ip) ip) : Belady o t ip := by
  refine ⟨?_, fun _ => ?_⟩
  · rw [hdecision]
    refine iff_of_false (fun h => hzero (h ▸ hx)) (fun hall => hlater (hall x hx))
  · rw [hdecision]
    exact ⟨hx, hmax⟩

theorem search_allUsed (ip : Nat) (hused : ∀ y ∈ t.currentBtb set, nextUse t set y ≠ ⊤) (current : Nat) :
    ((demandCandidate o t set ip current).2 = ip ∧ ∀ y ∈ t.currentBtb set, nextUse t set y ≤ current) ∨
      ((demandCandidate o t set ip current).2 ∈ t.currentBtb set ∧
        (current : WithTop Nat) < nextUse t set (demandCandidate o t set ip current).2 ∧
        ∀ y ∈ t.currentBtb set, nextUse t set y ≤ nextUse t set (demandCandidate o t set ip current).2) := by
  have hle : ∀ {y c : Nat}, y ∈ t.currentBtb set → (∀ d ∈ nextAccess t set y, d ≤ c) → nextUse t set y ≤ (c : WithTop Nat) := by
    intro y c hy hall
    obtain ⟨d, hd⟩ := Option.ne_none_iff_exists'.mp (hused y hy)
    rw [nextUse_eq_coe.mpr hd]
    exact WithTop.coe_le_coe.mpr (hall d hd)
  have hmem : ∀ y ∈ residents o t set, nextAccess t set y ≠ none := fun y hy => hused y (mem_residents.mp hy)
  rw [demandCandidate_eq]
  rcases search_used hmem (current, ip) with ⟨heq, hall⟩ | ⟨hfound, hnext, hlt, hall⟩
  · rw [heq]
    exact .inl ⟨rfl, fun y hy => hle hy (hall y (mem_residents.mpr hy))⟩
  · refine .inr ⟨mem_residents.mp hfound, ?_, fun y hy => ?_⟩
    · rw [nextUse_eq_coe.mpr hnext]
      exact WithTop.coe_lt_coe.mpr hlt
    · rw [nextUse_eq_coe.mpr hnext]
      exact hle hy (hall y (mem_residents.mpr hy))

theorem search_lastUnused (h : LastUnused o t ip) (current : Nat) : ∃ x ∈ t.currentBtb (t.set ip), nextUse t (t.set ip) x = ⊤ ∧
    (demandCandidate o t (t.set ip) ip current).2 = x ∧
    ∀ last, (∀ y, ∀ c ∈ t.futureAccesses.times (t.set ip) y, c ≤ last) →
      (OptBtb.demandCandidate o (t.withLast last) (t.set ip) ip current).2 = x := by
  obtain ⟨before, x, after, hsplit, hx, hafter⟩ := h
  have hmem : x ∈ residents o t (t.set ip) := by
    rw [residents, hsplit]
    exact List.mem_append_right _ List.mem_cons_self
  have hused : ∀ y ∈ after, ∃ c, nextAccess t (t.set ip) y = some c ∧ c ≤ t.sentinel := by
    intro y hy
    obtain ⟨c, hc⟩ := WithTop.ne_top_iff_exists.mp (ne_top_of_le_ne_top (WithTop.coe_ne_top) (hafter y hy))
    refine ⟨c, nextUse_eq_coe.mp hc.symm, ?_⟩
    have hle := hafter y hy
    rw [← hc] at hle
    exact WithTop.coe_le_coe.mp hle
  refine ⟨x, mem_residents.mp hmem, hx, ?_, fun last hlast => ?_⟩
  · rw [demandCandidate_eq, residents, hsplit]
    exact search_last hx hused _
  · rw [opt_demandCandidate_eq, residents, hsplit]
    apply search_last hx
    intro y hy
    obtain ⟨c, hc, -⟩ := hused y hy
    exact ⟨c, hc, (hlast y c (OptFuture.upperBound_eq_some hc).1).trans (Nat.le_succ last)⟩

end Decision

section Main

variable {o : IterOrder} {t : Opt T} {ip current : Nat}

theorem belady_of_condition (hcurrent : nextAccess t (t.set ip) ip = some current)
    (hprefetch : ∀ y, t.futurePrefetches.times (t.set ip) y = ∅) (habsent : ip ∉ t.currentBtb (t.set ip))
    (hzero : 0 ∉ t.currentBtb (t.set ip)) (h : DecidesRight o t ip) : Belady o t ip := by
  have hip : nextUse t (t.set ip) ip = current := nextUse_eq_coe.mpr hcurrent
  rw [DecidesRight] at h
  split_ifs at h with hfull
  · have hdecision := decision_full (o := o) hfull hcurrent hprefetch
    rcases h with ⟨hused, htie⟩ | hlast
    · rcases search_allUsed (o := o) ip hused current with ⟨heq, hall⟩ | ⟨hmem, hlt, hmax⟩
      · rw [if_pos heq] at hdecision
        refine ⟨iff_of_true hdecision fun y hy => ?_, fun hne => absurd hdecision hne⟩
        rw [hip]
        refine lt_of_le_of_ne (hall y hy) fun heq => ?_
        obtain ⟨z, hz, hlt⟩ := htie ⟨y, hy, heq.trans hip.symm⟩
        rw [hip] at hlt
        exact absurd hlt (not_lt.mpr (hall z hz))
      · rw [if_neg (ne_of_mem_of_not_mem hmem habsent)] at hdecision
        refine belady_of_victim hzero hdecision hmem hmax ?_
        rw [hip]
        exact not_lt.mpr hlt.le
    · obtain ⟨x, hx, htop, hfound, -⟩ := search_lastUnused hlast current
      rw [hfound, if_neg (ne_of_mem_of_not_mem hx habsent)] at hdecision
      refine belady_of_victim hzero hdecision hx (fun y _ => ?_) ?_
      · rw [htop]
        exact le_top
      · rw [htop]
        exact not_top_lt
  · exact ⟨iff_of_true (decision_room hfull) h, fun hne => absurd (decision_room hfull) hne⟩

theorem condition_of_belady (hcurrent : nextAccess t (t.set ip) ip = some current)
    (hprefetch : ∀ y, t.futurePrefetches.times (t.set ip) y = ∅) (habsent : ip ∉ t.currentBtb (t.set ip))
    (hzero : 0 ∉ t.currentBtb (t.set ip)) (h : Belady o t ip) : DecidesRight o t ip := by
  have hip : nextUse t (t.set ip) ip = current := nextUse_eq_coe.mpr hcurrent
  rw [DecidesRight]
  split_ifs with hfull
  · have hdecision := decision_full (o := o) hfull hcurrent hprefetch
    by_cases hused : ∀ y ∈ t.currentBtb (t.set ip), nextUse t (t.set ip) y ≠ ⊤
    · refine .inl ⟨hused, ?_⟩
      rintro ⟨y, hy, htie⟩
      rcases search_allUsed (o := o) ip hused current with ⟨heq, -⟩ | ⟨hmem, hlt, -⟩
      · rw [if_pos heq] at hdecision
        exact absurd htie (h.zero.mp hdecision y hy).ne
      · exact ⟨_, hmem, hip ▸ hlt⟩
    · push Not at hused
      obtain ⟨y, hy, hnone⟩ := hused
      obtain ⟨before, x, after, hsplit, hx, hafter⟩ := exists_last_unused ⟨y, mem_residents.mpr hy, nextUse_eq_top.mp hnone⟩
      have hresident : ∀ z ∈ x :: after, z ∈ t.currentBtb (t.set ip) := by
        intro z hz
        rw [← mem_residents (o := o), hsplit]
        exact List.mem_append_right _ hz
      rw [demandCandidate_eq, hsplit, search_split hx] at hdecision
      rcases search_used hafter (t.sentinel, x) with ⟨-, hall⟩ | ⟨hmem, hnext, -, -⟩
      · refine .inr ⟨before, x, after, hsplit, nextUse_eq_top.mpr hx, fun z hz => ?_⟩
        obtain ⟨c, hc⟩ := Option.ne_none_iff_exists'.mp (hafter z hz)
        rw [nextUse_eq_coe.mpr hc]
        exact WithTop.coe_le_coe.mpr (hall z hz c hc)
      · have hfound := hresident _ (List.mem_cons_of_mem x hmem)
        rw [if_neg (ne_of_mem_of_not_mem hfound habsent)] at hdecision
        have hmax := (h.furthest (hdecision ▸ ne_of_mem_of_not_mem hfound hzero)).2 x (hresident x List.mem_cons_self)
        rw [hdecision, nextUse_eq_top.mpr hx, nextUse_eq_coe.mpr hnext, top_le_iff] at hmax
        exact absurd hmax WithTop.coe_ne_top
  · exact h.zero.mp (decision_room hfull)

theorem alike_of_condition (hcurrent : nextAccess t (t.set ip) ip = some current)
    (hprefetch : ∀ y, t.futurePrefetches.times (t.set ip) y = ∅) (hsize : size (t.currentBtb (t.set ip)) ≤ t.totalWays)
    (h : DecidesRight o t ip) : Alike o t ip := by
  intro n last hsets hlast
  have hset : (t.withLast last).set ip = t.set ip := by
    rw [Opt.set, hsets, ReuseHits.maskIndex_eq_setIndex, ← hsets]
    rfl
  rw [DecidesRight] at h
  have hvictim : optVictim o (t.withLast last) ip =
      if size (t.currentBtb (t.set ip)) = t.totalWays then (chooseVictim o (t.withLast last) ip).getD 0 else 0 := by
    rw [optVictim, hset]
    rfl
  rw [hvictim]
  split_ifs at h with hfull
  · have hchoice : (chooseVictim o (t.withLast last) ip).getD 0 =
        if (OptBtb.demandCandidate o (t.withLast last) (t.set ip) ip current).2 = ip then 0
        else (OptBtb.demandCandidate o (t.withLast last) (t.set ip) ip current).2 := by
      have hcurrent' : OptBtb.nextAccess (t.withLast last) (t.set ip) ip = some current := hcurrent
      have hnone : OptBtb.prefetchCandidate o (t.withLast last) (t.set ip) = none := OptFuture.prefetchCandidate_none hprefetch
      simp only [chooseVictim, hset, hcurrent', hnone]
      split_ifs <;> rfl
    rw [if_pos (le_antisymm hsize hfull), hchoice, decision_full hfull hcurrent hprefetch]
    rcases h with ⟨hused, -⟩ | hunused
    · have hmem : ∀ y ∈ residents o t (t.set ip), nextAccess t (t.set ip) y ≠ none := fun y hy => hused y (mem_residents.mp hy)
      rw [demandCandidate_eq, opt_demandCandidate_eq, search_congr hmem]
    · obtain ⟨x, -, -, hfound, hopt⟩ := search_lastUnused hunused current
      rw [hfound, hopt last hlast]
  · have hroom : size (t.currentBtb (t.set ip)) ≠ t.totalWays := fun heq => hfull heq.ge
    rw [decision_room hfull, if_neg hroom]

/-- The decision is that of Belady, and that of `opt_btb`, exactly when no resident that is used later than at once
comes after the last one that is not used again, and the incoming branch does not tie for the furthest use. -/
theorem decision_iff (hcurrent : nextAccess t (t.set ip) ip = some current)
    (hprefetch : ∀ y, t.futurePrefetches.times (t.set ip) y = ∅) (hsize : size (t.currentBtb (t.set ip)) ≤ t.totalWays)
    (habsent : ip ∉ t.currentBtb (t.set ip)) (hzero : 0 ∉ t.currentBtb (t.set ip)) :
    Belady o t ip ∧ Alike o t ip ↔ DecidesRight o t ip := by
  constructor
  · exact fun h => condition_of_belady hcurrent hprefetch habsent hzero h.1
  · exact fun h => ⟨belady_of_condition hcurrent hprefetch habsent hzero h, alike_of_condition hcurrent hprefetch hsize h⟩

/-- A full set of two ways, at time 4. Branch 4 is not used again, and 8 is used at 10. Branch 12, used at 6, comes in. -/
def full (residents : Table Unit) : Opt Unit where
  futureAccesses := fun _ => ((∅ : Table (Finset Nat)).insert 8 {10}).insert 12 {6}
  futurePrefetches := fun _ => ∅
  currentBtb := fun _ => residents
  totalSets := 1
  totalWays := 2
  timestamp := 5

def unusedLast : Opt Unit := full (((∅ : Table Unit).insert 4 ()).insert 8 ())

def unusedFirst : Opt Unit := full (((∅ : Table Unit).insert 8 ()).insert 4 ())

theorem decision_iff_last : Belady .stored unusedLast 12 ∧ Alike .stored unusedLast 12 := by
  have hcurrent : nextAccess unusedLast (unusedLast.set 12) 12 = some 6 := by decide
  refine (decision_iff hcurrent (fun _ => rfl) (by decide) (by decide) (by decide)).mpr ?_
  rw [DecidesRight, if_pos (by decide)]
  exact .inr ⟨[8], 4, [], rfl, rfl, fun y hy => absurd hy List.not_mem_nil⟩

/-- Branch 4 is met first, and given up for 8. -/
theorem unused_kept : ¬(Belady .stored unusedFirst 12 ∧ Alike .stored unusedFirst 12) := by
  rintro ⟨hbelady, -⟩
  have hdecision : makeEvictDecision .stored unusedFirst 12 = 8 := by decide
  have hmax := (hbelady.furthest (by rw [hdecision]; decide)).2 4 (by decide)
  rw [hdecision] at hmax
  exact absurd hmax (by decide)

end Main

end Thermometer.ProbOptCompare
