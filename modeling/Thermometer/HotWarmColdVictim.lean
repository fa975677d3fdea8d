import Thermometer.HotWarmColdBtb

namespace Thermometer.HotWarmColdVictim

open Trace Lib.Tables Lib.Stamps Lib.Runs HotWarmColdBtb

variable {D : Type} {t : Table Entry} {o : IterOrder} {ip : Nat}

/-- What a run keeps: the build, the profile, and distinct stamps in every set. -/
structure Kept (h₀ h : HotWarmCold D) : Prop where
  flags : h.flags = h₀.flags
  sets : h.totalSets = h₀.totalSets
  ways : h.totalWays = h₀.totalWays
  boundary : h.categoryBoundary = h₀.categoryBoundary
  record : h.branchRecord = h₀.branchRecord
  stamped : ∀ i, Stamped Entry.lru (h.btb i)

variable {h h₀ h' : HotWarmCold D}

theorem updateLru_kept (hk : Kept h₀ h) {table : Table Entry} (hb : StampedBut Entry.lru table ip)
    (hs : updateLru o { h with btb := Function.update h.btb (h.set ip) table } ip = some h') : Kept h₀ h' := by
  rw [updateLru] at hs
  split_ifs at hs
  rw [Option.some.injEq] at hs
  subst hs
  refine ⟨hk.flags, hk.sets, hk.ways, hk.boundary, hk.record, fun i => ?_⟩
  have hset : HotWarmCold.set { h with btb := Function.update h.btb (h.set ip) table } ip = h.set ip := rfl
  simp only [HotWarmCold.modify, hset, Function.update_self, Function.update_idem]
  by_cases hi : i = h.set ip
  · subst hi
    rw [Function.update_self]
    exact hb.modify o (fun _ => rfl)
  · rw [Function.update_of_ne hi]
    exact hk.stamped i

theorem modify_kept (hk : Kept h₀ h) {f : Entry → Entry} (hs : updateLru o (h.modify (h.set ip) ip f) ip = some h') :
    Kept h₀ h' :=
  updateLru_kept hk ((hk.stamped _).modify_but ip f) hs

variable {env : Env D}

theorem replace_kept (hk : Kept h₀ h) {target victim : Nat} (hs : replace env h ip target victim = some h') :
    Kept h₀ h' := by
  rw [replace] at hs
  split_ifs at hs with hzero hself
  · rw [Option.some.injEq] at hs
    exact hs ▸ hk
  · have hset : HotWarmCold.set { h with btb := Function.update h.btb (h.set ip) ((h.btb (h.set ip)).erase victim) } ip =
        h.set ip := rfl
    simp only [emplace, hset, Function.update_self, Function.update_idem] at hs
    split_ifs at hs
    exact updateLru_kept hk (((hk.stamped _).erase victim).insert ip _) hs

theorem btbPrediction_btb (s : State D) (ip : Nat) (ty : BranchType) : (btbPrediction s ip ty).1.btb = s.btb := by
  rw [btbPrediction]
  split
  · rfl
  · split <;> rfl

theorem findLruMin_cases {V : Type} {lru : V → Nat} {l : List Nat} (hl : l ≠ []) (rand : Nat) (t : Table V) :
    (findLruMin lru rand t l ∈ l ∧ findLruMin lru rand t l ∉ t) ∨
      (findLruMin lru rand t l ∈ l ∧ ∃ e, t.lookup (findLruMin lru rand t l) = some e ∧
        ∀ j ∈ l, ∀ f, t.lookup j = some f → lru e ≤ lru f) := by
  have hlt : rand % l.length < l.length := Nat.mod_lt _ (List.length_pos_of_ne_nil hl)
  have hmem : l.getD (rand % l.length) 0 ∈ l := by
    rw [List.getD_eq_getElem?_getD, List.getElem?_eq_getElem hlt]
    exact List.getElem_mem hlt
  rw [findLruMin]
  by_cases hr : l.getD (rand % l.length) 0 ∈ t
  · right
    simp only [if_pos hr]
    cases hk : oldest lru t l with
    | none => exact absurd hr (oldest_eq_none hk _ hmem)
    | some k =>
        rw [if_pos hr]
        exact oldest_eq_some hk
  · left
    simp only [if_neg hr]
    exact ⟨hmem, hr⟩

variable [LinearOrder D] [Zero D] [One D]

theorem insert_kept (hk : Kept h₀ h) {target junk : Nat} (hs : HotWarmColdBtb.insert env h ip target junk = some h') :
    Kept h₀ h' := by
  rw [HotWarmColdBtb.insert] at hs
  split_ifs at hs with hmem hfull
  · rw [Option.bind_eq_some_iff] at hs
    obtain ⟨v, -, hs⟩ := hs
    exact replace_kept hk hs
  · exact updateLru_kept hk ((hk.stamped _).insert ip _) hs

theorem updateBtb_kept {s s' : State D} {target junk : Nat} {taken : Bool} {ty : BranchType} (hk : Kept h₀ s.btb)
    (hs : updateBtb env s ip target taken ty junk = some s') : Kept h₀ s'.btb := by
  simp only [updateBtb] at hs
  by_cases hty : ty.usesBtb = true
  · rw [if_pos hty] at hs
    cases hf : findBtbEntry s.btb ip with
    | none =>
        simp only [hf] at hs
        split_ifs at hs
        · obtain ⟨h', hins, rfl⟩ := Option.map_eq_some_iff.mp hs
          exact insert_kept hk hins
        · rw [Option.some.injEq] at hs
          exact hs ▸ hk
    | some e =>
        simp only [hf, Option.bind_eq_bind, Option.bind_eq_some_iff] at hs
        obtain ⟨d, -, h', hlru, hs⟩ := hs
        rw [Option.some.injEq] at hs
        exact hs ▸ modify_kept hk hlru
  · rw [if_neg hty, Option.some.injEq] at hs
    exact hs ▸ hk

theorem prefetchBtb_kept {s s' : State D} {target junk : Nat} {taken toStreamBuffer : Bool} {ty : BranchType}
    (hk : Kept h₀ s.btb) (hs : prefetchBtb env s ip target ty taken toStreamBuffer junk = some s') :
    Kept h₀ s'.btb := by
  simp only [prefetchBtb] at hs
  by_cases hty : ty.usesBtb = true
  · rw [if_pos hty] at hs
    cases hf : findBtbEntry s.btb ip with
    | none =>
        simp only [hf] at hs
        split_ifs at hs
        · obtain ⟨b, -, rfl⟩ := Option.map_eq_some_iff.mp hs
          exact hk
        · obtain ⟨h', hins, rfl⟩ := Option.map_eq_some_iff.mp hs
          exact insert_kept hk hins
        · rw [Option.some.injEq] at hs
          exact hs ▸ hk
    | some e =>
        simp only [hf, Option.bind_eq_bind, Option.bind_eq_some_iff] at hs
        obtain ⟨h', hlru, hs⟩ := hs
        rw [Option.some.injEq] at hs
        exact hs ▸ modify_kept hk hlru
  · rw [if_neg hty, Option.some.injEq] at hs
    exact hs ▸ hk

theorem step_kept {s s' : State D} {e : Env D × Nat × Call} (hk : Kept h₀ s.btb) (hs : step s e = some s') :
    Kept h₀ s'.btb := by
  obtain ⟨env, junk, c⟩ := e
  cases c with
  | predict ip ty =>
      rw [step, Option.some.injEq] at hs
      rw [← hs, btbPrediction_btb]
      exact hk
  | update ip target taken ty => exact updateBtb_kept hk hs
  | prefetch ip target ty taken toStreamBuffer => exact prefetchBtb_kept hk hs

theorem run_kept {s s' : State D} {es : List (Env D × Nat × Call)} (hk : Kept h₀ s.btb)
    (hs : run step s es = some s') : Kept h₀ s'.btb :=
  run_preserves (fun _ _ _ _ hk hs => step_kept hk hs) hk hs

end Thermometer.HotWarmColdVictim
