import Thermometer.LruLevel
import Thermometer.MultiLevelOptBtb
import Thermometer.MultiLevelHwcBtb

namespace Thermometer.MultiLevelHit

open Trace Lib.Tables Lib.Runs MultiLevelBtb MultiLevelCascade MultiLevelReach MultiLevelDriver
open MultiLevelBasicBtb (LRUBTB)
open MultiLevelOptBtb (OPTBTB)
open MultiLevelHwcBtb (HWCBTB LevelEnv)

section Levels

variable {Ω E L : Type} [BTBEntryType E] [BTBType Ω E L] [LawfulBTBType L] {m m' : List L} {ω : Nat → Ω} {i ip : Nat}
  {bypasses : Ω → L → Nat → Prop}

/-- An update of a branch above the lowest level keeps it if and only if the
lowest level takes it: the loop stops there in either case, since the branch is
still found in its own level, from which it is then removed. -/
theorem resident_update_iff
    (hspec : ∀ {ω : Ω} {l l' : L} {ip target ty v}, look l ip = none → BTBType.insert ω l ip target ty = some (l', v) →
      Insertion (bypasses ω l ip) (look l) (look l') ip (.new ip target ty) v)
    (hex : Exclusive m) (hlev : levelOf m ip = some i) (h : update ω m ip = some m') :
    Resident m' ip ↔ i = 0 ∨ ∀ l, m[0]? = some l → ¬bypasses (ω 0) l ip := by
  obtain ⟨i', e, hlev', he, hup⟩ := update_eq_some hex h
  obtain rfl : i = i' := Option.some.inj (hlev.symm.trans hlev')
  cases hup with
  | refreshed _ heq => exact iff_of_true ⟨0, e, by rw [heq, he]⟩ (.inl rfl)
  | promoted i m₁ hp =>
      have hlen := lt_length_of_lookAt he
      have hl : m[0]? = some m[0] := List.getElem?_eq_getElem (by omega)
      generalize m[0] = l at hl
      have hno : look l ip = none := by
        rw [← lookAt_of_getElem? hl]
        exact (levelOf_eq_some_iff.mp hlev).2 0 (Nat.succ_pos i)
      obtain ⟨-, l', v, hins, hfirst, hstop⟩ := insertFrom_promoted hl (Nat.succ_pos i) he hp.inserted
      have hins' := hspec hno hins
      have hiff := hins'.resident_iff hno
      have hres : Resident m' ip ↔ look l' ip ≠ none := by
        constructor
        · rintro ⟨k, d, hd⟩
          rcases Nat.lt_or_ge k (i + 1) with hk | hk
          · rw [hp.below k hk] at hd
            rcases Nat.eq_zero_or_pos k with rfl | hpos
            · rw [← hfirst, hd]
              exact Option.some_ne_none d
            · intro hnone
              cases hins' with
              | bypass _ _ =>
                  rw [hstop rfl, lookAt_set_of_ne (Nat.ne_of_gt hpos),
                    (levelOf_eq_some_iff.mp hlev).2 k hk] at hd
                  cases hd
              | fill hb _ => exact hiff.mpr hb hnone
              | evict w f hb _ _ _ => exact hiff.mpr hb hnone
          · exact absurd rfl ((hp.above k ip d hk).mp hd).1
        · intro hne
          obtain ⟨d, hd⟩ := Option.ne_none_iff_exists'.mp hne
          exact ⟨0, d, by rw [hp.below 0 (Nat.succ_pos i), hfirst, hd]⟩
      rw [hres, hiff]
      constructor
      · intro hb
        refine .inr (fun l₀ hl₀ => ?_)
        rw [hl, Option.some.injEq] at hl₀
        exact hl₀ ▸ hb
      · rintro (hzero | hb)
        · cases hzero
        · exact hb l hl

/-- In every reachable hierarchy, of a branch that level `i` holds. -/
def KeptUnlessBypassed (L : Type) [BTBType Ω E L] (bypasses : Ω → L → Nat → Prop) (i ip : Nat) : Prop :=
  ∀ (m m' : List L) (ω : Nat → Ω), Reach m → levelOf m ip = some i → update ω m ip = some m' →
    (Resident m' ip ↔ i = 0 ∨ ∀ l, m[0]? = some l → ¬bypasses (ω 0) l ip)

def KeptInRuns {Ω E L : Type} [BTBEntryType E] [BTBType Ω E L]
    (step : State L → (Nat → Ω) × Call → Option (State L)) (start : State L) (bypasses : Ω → L → Nat → Prop) : Prop :=
  ∀ (calls : List ((Nat → Ω) × Call)) (s : State L) (m' : List L) (ω : Nat → Ω) (i ip : Nat),
    run step start calls = some s → levelOf s.multiLevelBtb ip = some i → update ω s.multiLevelBtb ip = some m' →
      (Resident m' ip ↔ i = 0 ∨ ∀ l, s.multiLevelBtb[0]? = some l → ¬bypasses (ω 0) l ip)

theorem kept_in_runs {hooks : Hooks L} {start : State L}
    (hspec : ∀ {ω : Ω} {l l' : L} {ip target ty v}, look l ip = none → BTBType.insert ω l ip target ty = some (l', v) →
      Insertion (bypasses ω l ip) (look l) (look l') ip (.new ip target ty) v)
    (hh : hooks.Lawful) (hstart : Reach start.multiLevelBtb) : KeptInRuns (MultiLevelDriver.step hooks) start bypasses :=
  fun _ _ _ _ _ _ hrun hlev h => resident_update_iff hspec (run_reach hh hstart hrun).exclusive hlev h

end Levels

/-- So it is from the first call on in each of the three modules, however its levels are set up. -/
theorem modules_keep (D : Type) [LinearOrder D] [Zero D] :
    (∀ levelInfo, KeptInRuns MultiLevelBasicBtb.step (MultiLevelBasicBtb.initializeBtb levelInfo) (fun _ _ _ => False)) ∧
    (∀ levelInfo demandRecord counter, KeptInRuns MultiLevelOptBtb.step
      (MultiLevelOptBtb.initializeBtb levelInfo demandRecord counter) (fun o l ip => l.Bypasses o ip)) ∧
    ∀ flags (boundary : List D) half levelInfo, KeptInRuns MultiLevelHwcBtb.step
      (MultiLevelHwcBtb.initializeBtb flags boundary half levelInfo) (fun env l ip => l.Bypasses env ip) := by
  refine ⟨fun levelInfo => ?_, fun levelInfo demandRecord counter => ?_, fun flags boundary half levelInfo => ?_⟩
  · exact kept_in_runs LruLevel.insert_insertion Hooks.plain_lawful (MultiLevelBasicBtb.initializeBtb_reach levelInfo)
  · exact kept_in_runs MultiLevelOptBtb.insert_insertion MultiLevelOptBtb.hooks_lawful
      (MultiLevelOptBtb.initializeBtb_reach levelInfo demandRecord counter)
  · exact kept_in_runs MultiLevelHwcBtb.insert_insertion Hooks.plain_lawful
      (MultiLevelHwcBtb.initializeBtb_reach flags boundary half levelInfo)

/-- A hit loses the branch exactly when it comes from above the lowest level
and the lowest level does not want it, for each of the three kinds of levels. -/
theorem kept_unless_bypassed (D : Type) [LinearOrder D] [Zero D] (i ip : Nat) :
    KeptUnlessBypassed LRUBTB (fun _ _ _ => False) i ip ∧
    KeptUnlessBypassed OPTBTB (fun o l ip => l.Bypasses o ip) i ip ∧
    KeptUnlessBypassed (HWCBTB D) (fun env l ip => l.Bypasses env ip) i ip := by
  refine ⟨?_, ?_, ?_⟩
  · intro m m' ω hr hlev h
    exact resident_update_iff LruLevel.insert_insertion hr.exclusive hlev h
  · intro m m' ω hr hlev h
    exact resident_update_iff MultiLevelOptBtb.insert_insertion hr.exclusive hlev h
  · intro m m' ω hr hlev h
    exact resident_update_iff MultiLevelHwcBtb.insert_insertion hr.exclusive hlev h

/-- Two branches taking turns over two levels of one entry, up to the point
where the second one is found in the upper level for the last time. -/
def turns : List Call :=
  [.predict 8 .directJump, .update 8 80 true .directJump, .predict 4 .directJump, .update 4 40 true .directJump,
    .predict 8 .directJump, .update 8 80 true .directJump, .predict 4 .directJump]

theorem turns_run : ∃ m m' : List OPTBTB, Reach m ∧ levelOf m 4 = some 1 ∧
    update (fun _ => IterOrder.stored) m 4 = some m' ∧ Absent m' 4 := by
  let ω : Nat → IterOrder := fun _ => .stored
  let start := MultiLevelOptBtb.initializeBtb [(0, 1, 1, .nano), (1, 1, 1, .mili)] [(8, 0), (4, 1), (8, 2), (4, 3)] 0
  have hrun : ((run MultiLevelOptBtb.step start (turns.map (fun c => (ω, c)))).bind (fun s =>
      (update ω s.multiLevelBtb 4).map (fun m => (levelOf s.multiLevelBtb 4, levelOf m 4)))) =
      some (some 1, none) := by decide +kernel
  obtain ⟨s, hs, hup⟩ := Option.bind_eq_some_iff.mp hrun
  obtain ⟨m, hm, hlev⟩ := Option.map_eq_some_iff.mp hup
  obtain ⟨hlev, hgone⟩ := Prod.mk.inj hlev
  have hstart : Reach start.multiLevelBtb := MultiLevelOptBtb.initializeBtb_reach _ _ _
  exact ⟨s.multiLevelBtb, m, run_reach MultiLevelOptBtb.hooks_lawful hstart hs, hlev, hm, levelOf_eq_none.mp hgone⟩

theorem kept_unless_bypassed_turns : ∃ (m m' : List OPTBTB) (ω : Nat → IterOrder), Reach m ∧ levelOf m 4 = some 1 ∧
    (Resident m' 4 ↔ 1 = 0 ∨ ∀ l, m[0]? = some l → ¬l.Bypasses (ω 0) 4) := by
  obtain ⟨m, m', hr, hlev, hup, -⟩ := turns_run
  exact ⟨m, m', _, hr, hlev, (kept_unless_bypassed Nat 1 4).2.1 m m' _ hr hlev hup⟩

/-- A hit in the upper level that the lower level does not take. -/
theorem hit_loses : ¬∀ (m m' : List OPTBTB) (ω : Nat → IterOrder) (i ip : Nat), Reach m → levelOf m ip = some i →
    update ω m ip = some m' → Resident m' ip := by
  intro h
  obtain ⟨m, m', hr, hlev, hup, hgone⟩ := turns_run
  obtain ⟨k, e, he⟩ := h m m' _ 1 4 hr hlev hup
  rw [hgone k] at he
  cases he

end Thermometer.MultiLevelHit
