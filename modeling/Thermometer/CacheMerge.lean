import Thermometer.CacheMshr
import Thermometer.Lib.Runs

namespace Thermometer.CacheMerge

open Lib Runs SortedMerge Packets CacheModel CacheMshr

variable {P R : Type}

/-- A cache, and for each address the producers that were told to wait for it. -/
structure Watched (P R : Type) where
  cache : Cache P R
  waiting : Nat → List R

inductive Call (R : Type)
  | miss (out : Outside) (now : Nat) (packet : Packet R)
  | returned (warm : Bool) (now : Nat) (packet : Packet R)
  | fill (out : Outside) (now : Nat)

def watch (c : Cache P R) : Watched P R := ⟨c, fun a => ((entry c a).map (·.toReturn)).getD []⟩

def Watched.await (w : Watched P R) (c : Cache P R) (address : Nat) (toReturn : List R) : Watched P R :=
  ⟨c, Function.update w.waiting address (w.waiting address ++ toReturn)⟩

/-- An entry of the MSHR keeps what it and a merged request had. -/
structure Kept (packet before after : Packet R) : Prop where
  lqIndex : ∀ x, x ∈ before.lqIndexDependOnMe ∨ x ∈ packet.lqIndexDependOnMe → x ∈ after.lqIndexDependOnMe
  sqIndex : ∀ x, x ∈ before.sqIndexDependOnMe ∨ x ∈ packet.sqIndexDependOnMe → x ∈ after.sqIndexDependOnMe
  instr : ∀ x, x ∈ before.instrDependOnMe ∨ x ∈ packet.instrDependOnMe → x ∈ after.instrDependOnMe
  toReturn : ∀ x, x ∈ before.toReturn ∨ x ∈ packet.toReturn → x ∈ after.toReturn
  fillLevel : after.fillLevel = min before.fillLevel packet.fillLevel
  returned : before.returned = .completed →
    after.returned = .completed ∧ after.eventCycle = before.eventCycle ∧ after.data = before.data

/-- A demand brings along what the prefetch that it replaces had. -/
structure Covers (packet before : Packet R) : Prop where
  lqIndex : before.lqIndexDependOnMe ⊆ packet.lqIndexDependOnMe
  sqIndex : before.sqIndexDependOnMe ⊆ packet.sqIndexDependOnMe
  instr : before.instrDependOnMe ⊆ packet.instrDependOnMe
  toReturn : before.toReturn ⊆ packet.toReturn
  fillLevel : packet.fillLevel ≤ before.fillLevel
  data : before.returned = .completed → packet.data = before.data

def Replaces (packet before : Packet R) : Prop := before.type = .prefetch ∧ packet.type ≠ .prefetch

variable [LinearOrder R]

/-- Requests and replies of non-zero addresses, in any order; a miss that is not allocated here is
not waited for here. -/
def step (w : Watched P R) : Call R → Option (Watched P R)
  | .miss out now packet =>
      if packet.address = 0 then none
      else match w.cache.readlikeMiss out now packet with
        | .done c _ => some (w.await c packet.address packet.toReturn)
        | .sent c _ _ => some (w.await c packet.address (if packet.fillLevel ≤ c.config.fillLevel then packet.toReturn else []))
        | .walked c _ => some (w.await c packet.address (if packet.fillLevel ≤ c.config.fillLevel then packet.toReturn else []))
        | .idle => some w
        | .filled _ _ _ => some w
  | .returned warm now packet => (w.cache.returnData warm now packet).map (fun c => ⟨c, w.waiting⟩)
  | .fill out now =>
      match w.cache.handleFill out now with
      | none => none
      | some (.filled c _ (some entry)) =>
          some ⟨c.releaseMshr entry.address, Function.update w.waiting entry.address []⟩
      | some _ => some w

/-- The merge, if the step is one, loses nothing. -/
def Keeps (w : Watched P R) : Call R → Prop
  | .miss out now packet => ∀ before, entry w.cache packet.address = some before → ∃ c after,
      w.cache.readlikeMiss out now packet = .done c [] ∧ entry c packet.address = some after ∧ Kept packet before after
  | _ => True

/-- Where the step is a merge in which a demand replaces a prefetch, the demand covers it. -/
def MergesCovered (w : Watched P R) : Call R → Prop
  | .miss _ _ packet => ∀ before, entry w.cache packet.address = some before → Replaces packet before →
      Covers packet before
  | _ => True

/-- A fill that puts the block in place answers all who wait for it. -/
def AnswersAll (w : Watched P R) : Call R → Prop
  | .fill out now => ∀ front c writeback answered, w.cache.mshr.head? = some front →
      w.cache.handleFill out now = some (.filled c writeback (some answered)) →
      w.cache.findVictim front (w.cache.getSet front.address) ≠ w.cache.config.numWay →
      ∀ r ∈ w.waiting front.address, (r, answered) ∈ replies answered
  | _ => True

section Merge

variable {packet before : Packet R}

theorem kept_mergeMiss_iff : Kept packet before (mergeMiss packet before) ↔
    (Replaces packet before → Covers packet before) := by
  by_cases hrep : Replaces packet before
  · have heq : mergeMiss packet before = { packet with returned := before.returned, eventCycle := before.eventCycle } :=
      if_pos hrep
    rw [heq]
    constructor
    · intro h _
      refine ⟨fun x hx => h.lqIndex x (.inl hx), fun x hx => h.sqIndex x (.inl hx), fun x hx => h.instr x (.inl hx),
        fun x hx => h.toReturn x (.inl hx), ?_, fun hret => (h.returned hret).2.2⟩
      have hlevel := h.fillLevel
      simp only at hlevel
      omega
    · intro h
      have hcov := h hrep
      refine ⟨?_, ?_, ?_, ?_, ?_, fun hret => ⟨hret, rfl, hcov.data hret⟩⟩
      · rintro x (hx | hx)
        · exact hcov.lqIndex hx
        · exact hx
      · rintro x (hx | hx)
        · exact hcov.sqIndex hx
        · exact hx
      · rintro x (hx | hx)
        · exact hcov.instr hx
        · exact hx
      · rintro x (hx | hx)
        · exact hcov.toReturn hx
        · exact hx
      · exact (min_eq_right hcov.fillLevel).symm
  · have heq : mergeMiss packet before =
        { mergeRead packet before with fillLevel := min before.fillLevel packet.fillLevel } := if_neg hrep
    rw [heq]
    refine ⟨fun _ h => absurd h hrep, fun _ => ⟨?_, ?_, ?_, ?_, rfl, fun hret => ⟨hret, rfl, rfl⟩⟩⟩
    all_goals
      intro x hx
      exact (mem_merge _ _).mpr hx

theorem toReturn_kept (h : Replaces packet before → Covers packet before) {r : R}
    (hr : r ∈ before.toReturn ∨ r ∈ packet.toReturn) : r ∈ (mergeMiss packet before).toReturn :=
  (kept_mergeMiss_iff.mpr h).toReturn r hr

end Merge

section Step

variable {w w' : Watched P R} {out : Outside} {now : Nat} {packet : Packet R} {call : Call R}

theorem keeps_iff (w : Watched P R) (call : Call R) : Keeps w call ↔ MergesCovered w call := by
  cases call with
  | returned warm now packet => exact Iff.rfl
  | fill out now => exact Iff.rfl
  | miss out now packet =>
      constructor
      · intro h before hbefore
        obtain ⟨c, after, hround, hafter, hkept⟩ := h before hbefore
        obtain ⟨i, hi⟩ := findMshr_of_entry hbefore
        rw [readlikeMiss_merges hi, Round.done.injEq] at hround
        rw [← hround.1, merge_entry_self hi hbefore, Option.some.injEq] at hafter
        exact kept_mergeMiss_iff.mp (hafter ▸ hkept)
      · intro h before hbefore
        obtain ⟨i, hi⟩ := findMshr_of_entry hbefore
        refine ⟨_, _, readlikeMiss_merges hi, merge_entry_self hi hbefore, ?_⟩
        exact kept_mergeMiss_iff.mpr (h before hbefore)

structure Registered (w : Watched P R) : Prop where
  distinct : DistinctMshr w.cache
  waiting : ∀ a, ∀ r ∈ w.waiting a, ∃ e, entry w.cache a = some e ∧ r ∈ e.toReturn

omit [LinearOrder R] in
theorem watch_registered {c : Cache P R} (h : DistinctMshr c) : Registered (watch c) := by
  refine ⟨h, fun a r hr => ?_⟩
  cases he : entry c a with
  | none =>
      simp only [watch, he] at hr
      cases hr
  | some e =>
      simp only [watch, he] at hr
      exact ⟨e, he, hr⟩

omit [LinearOrder R] in
theorem Registered.await (h : Registered w) {c : Cache P R} {a : Nat} {toReturn : List R} (hd : DistinctMshr c)
    (hother : ∀ b, b ≠ a → entry c b = entry w.cache b)
    (hself : ∀ r, r ∈ w.waiting a ∨ r ∈ toReturn → ∃ e, entry c a = some e ∧ r ∈ e.toReturn) :
    Registered (w.await c a toReturn) := by
  refine ⟨hd, fun b r hr => ?_⟩
  by_cases hb : b = a
  · subst hb
    simp only [Watched.await, Function.update_self, List.mem_append] at hr
    exact hself r hr
  · simp only [Watched.await, Function.update_of_ne hb] at hr
    obtain ⟨e, he, hre⟩ := h.waiting b r hr
    exact ⟨e, (hother b hb).trans he, hre⟩

theorem Registered.merged (h : Registered w) (hcov : MergesCovered w (.miss out now packet)) {i : Nat}
    (hi : w.cache.findMshr packet.address = some i) :
    Registered (w.await (w.cache.mergeMshr i packet) packet.address packet.toReturn) := by
  obtain ⟨before, -, -, hbefore⟩ := findMshr_some hi
  obtain ⟨hd, hentry⟩ := merge_entry h.distinct hi
  apply h.await hd
  · intro b hb
    rw [hentry b, if_neg hb]
  · intro r hr
    refine ⟨mergeMiss packet before, by rw [hentry, if_pos rfl, hbefore]; rfl, ?_⟩
    apply toReturn_kept (hcov before hbefore)
    rcases hr with hr | hr
    · obtain ⟨e, he, hre⟩ := h.waiting packet.address r hr
      rw [hbefore, Option.some.injEq] at he
      exact .inl (he ▸ hre)
    · exact .inr hr

omit [LinearOrder R] in
theorem Registered.missed (h : Registered w) (hp : packet.address ≠ 0) (hno : entry w.cache packet.address = none)
    (hfree : ¬Blocked w.cache out packet) {c : Cache P R} (hc : c = w.cache.allocated now packet) :
    Registered (w.await c packet.address (if packet.fillLevel ≤ c.config.fillLevel then packet.toReturn else [])) := by
  have hfull : w.cache.mshrFull = false := Bool.eq_false_iff.mpr (fun h => hfree (.inl h))
  have hnobody : ∀ r, r ∉ w.waiting packet.address := by
    intro r hr
    obtain ⟨e, he, -⟩ := h.waiting packet.address r hr
    rw [hno] at he
    cases he
  subst hc
  rw [allocated_config]
  by_cases hlevel : packet.fillLevel ≤ w.cache.config.fillLevel
  · obtain ⟨hd, hentry⟩ := allocate_entry h.distinct hfull hp hno now
    rw [if_pos hlevel, Cache.allocated, if_pos hlevel]
    apply h.await hd
    · intro b hb
      rw [hentry b, if_neg hb]
    · intro r hr
      refine ⟨_, (hentry packet.address).trans (if_pos rfl), ?_⟩
      exact hr.resolve_left (hnobody r)
  · rw [if_neg hlevel, Cache.allocated, if_neg hlevel]
    apply h.await h.distinct (fun b _ => rfl)
    intro r hr
    rcases hr with hr | hr
    · exact absurd hr (hnobody r)
    · cases hr

theorem Registered.step (h : Registered w) (hcov : MergesCovered w call) (hstep : step w call = some w') : Registered w' := by
  cases call with
  | miss out now packet =>
      simp only [CacheMerge.step] at hstep
      by_cases hp : packet.address = 0
      · rw [if_pos hp] at hstep
        cases hstep
      rw [if_neg hp] at hstep
      cases readlikeMiss_cases (c := w.cache) out now packet with
      | merged i hi heq =>
          rw [heq] at hstep
          cases hstep
          exact h.merged hcov hi
      | blocked hno hblocked heq =>
          rw [heq] at hstep
          cases hstep
          exact h
      | sent hno hfree htype heq =>
          rw [heq] at hstep
          cases hstep
          exact h.missed hp (findMshr_none.mp hno) hfree rfl
      | walked hno hfree htype heq =>
          rw [heq] at hstep
          cases hstep
          exact h.missed hp (findMshr_none.mp hno) hfree rfl
  | returned warm now packet =>
      obtain ⟨c, hc, rfl⟩ := Option.map_eq_some_iff.mp hstep
      obtain ⟨hd, -, hentry⟩ := returnData_entry h.distinct hc
      refine ⟨hd, fun a r hr => ?_⟩
      obtain ⟨e, he, hre⟩ := h.waiting a r hr
      by_cases ha : a = packet.address
      · refine ⟨_, (hentry a).trans ((if_pos ha).trans (congrArg _ he)), hre⟩
      · exact ⟨e, (hentry a).trans ((if_neg ha).trans he), hre⟩
  | fill out now =>
      simp only [CacheMerge.step] at hstep
      cases hround : w.cache.handleFill out now with
      | none =>
          rw [hround] at hstep
          cases hstep
      | some round =>
          rw [hround] at hstep
          rcases handleFill_cases hround with rfl | ⟨front, writeback, hfront, -, rfl, -⟩
          · cases hstep
            exact h
          · cases hstep
            have hmshr : (w.cache.install (w.cache.getSet front.address)
                (w.cache.findVictim front (w.cache.getSet front.address)) front).mshr = w.cache.mshr := install_mshr
            have hd : DistinctMshr (w.cache.install (w.cache.getSet front.address)
                (w.cache.findVictim front (w.cache.getSet front.address)) front).spendWrite := by
              rw [DistinctMshr, Cache.spendWrite, hmshr]
              exact h.distinct
            obtain ⟨hd, hentry⟩ := release_entry (a := front.address) hd
            refine ⟨hd, fun a r hr => ?_⟩
            by_cases ha : a = front.address
            · rw [ha] at hr
              simp only [Cache.filledEntry, Function.update_self] at hr
              cases hr
            · simp only [Cache.filledEntry, Function.update_of_ne ha] at hr
              obtain ⟨e, he, hre⟩ := h.waiting a r hr
              refine ⟨e, (hentry a).trans ((if_neg ha).trans ?_), hre⟩
              rw [entry, Cache.spendWrite, hmshr]
              exact he

omit [LinearOrder R] in
theorem Registered.answers (h : Registered w) (call : Call R) : AnswersAll w call := by
  cases call with
  | miss out now packet => exact True.intro
  | returned warm now packet => exact True.intro
  | fill out now =>
      intro front c writeback answered hfront hround hway r hr
      rcases handleFill_cases hround with heq | ⟨front', writeback', hfront', -, heq, -⟩
      · cases heq
      · rw [hfront, Option.some.injEq] at hfront'
        subst hfront'
        cases heq
        obtain ⟨e, he, hre⟩ := h.waiting front.address r hr
        have hvalid := entry_address he
        have hsame : entry w.cache front.address = some front :=
          (Keyed.lookup_iff h.distinct).mpr ⟨List.mem_of_head? hfront, address?_iff.mpr ⟨hvalid.2 ▸ hvalid.1, rfl⟩⟩
        rw [he, Option.some.injEq] at hsame
        have hret : r ∈ (w.cache.filledEntry out (w.cache.findVictim front (w.cache.getSet front.address)) front).toReturn := by
          rw [Cache.filledEntry, if_neg hway]
          exact hsame ▸ hre
        exact List.mem_map_of_mem hret

end Step

/-- Merges lose no requester, and fills answer all of them, exactly in the runs in which every
demand that replaces a prefetch covers it. -/
theorem merges_lose_nothing_iff (c : Cache P R) (calls : List (Call R)) :
    (EveryStep step (watch c) (fun _ => Keeps) calls ∧
      (DistinctMshr c → EveryStep step (watch c) (fun _ => AnswersAll) calls)) ↔
    EveryStep step (watch c) (fun _ => MergesCovered) calls := by
  constructor
  · intro h
    exact h.1.imp (fun _ call _ w _ _ => (keeps_iff w call).mp)
  · intro h
    refine ⟨h.imp (fun _ call _ w _ _ => (keeps_iff w call).mpr), fun hd => ?_⟩
    intro pre call post w heq hw
    rw [heq] at h
    have hreg : Registered w := h.of_append.preserves (fun _ _ _ hi hc hstep => hi.step hc hstep) (watch_registered hd) hw
    exact hreg.answers call

/-- A second level with room for everything. -/
def secondLevel : Cache Unit Nat := Cache.initial
  { self := 0, cacheType := .l2c, fillLevel := 2, numSet := 2, numWay := 2, wqSize := 4, rqSize := 4, pqSize := 4,
    mshrSize := 4, hitLatency := 1, fillLatency := 1, maxRead := 1, maxWrite := 1, policy := lruPolicy Nat 2 } ()

def unloaded : Outside := ⟨false, false, false, 0, 0⟩

/-- A prefetch of the first-level data cache, then a demand of the instruction cache. -/
def dataPrefetch : Call Nat := .miss unloaded 0 { fillLevel := 1, type := .prefetch, cpu := 0, address := 5, toReturn := [1] }

def instrDemand : Call Nat := .miss unloaded 0 { fillLevel := 1, type := .load, cpu := 0, address := 5, toReturn := [2] }

theorem requester_lost : ¬(EveryStep step (watch secondLevel) (fun _ => Keeps) [dataPrefetch, instrDemand] ∧
    (DistinctMshr secondLevel → EveryStep step (watch secondLevel) (fun _ => AnswersAll) [dataPrefetch, instrDemand])) := by
  rintro ⟨hkeeps, -⟩
  have hfirst : (run step (watch secondLevel) [dataPrefetch]).any (fun w =>
      (entry w.cache 5).any (fun e => e.type == .prefetch && e.toReturn == [1])) = true := by decide +kernel
  obtain ⟨w, hw, hentry⟩ := (Option.any_eq_true _ _).mp hfirst
  obtain ⟨before, hbefore, htype⟩ := (Option.any_eq_true _ _).mp hentry
  rw [Bool.and_eq_true, beq_iff_eq, beq_iff_eq] at htype
  have hkept : Keeps w instrDemand := hkeeps [dataPrefetch] instrDemand [] w rfl hw
  have hcovers := (keeps_iff w instrDemand).mp hkept before hbefore ⟨htype.1, by decide⟩
  have hlost : 1 ∈ [2] := hcovers.toReturn (htype.2 ▸ List.mem_singleton_self 1)
  exact absurd hlost (by decide)

end Thermometer.CacheMerge
