import Thermometer.AlwaysTaken
import Thermometer.MultiLevelDriver

namespace Thermometer.MultiLevelTaken

open Trace Lib.Tables Lib.Runs MultiLevelBtb MultiLevelCascade MultiLevelReach MultiLevelDriver AlwaysTaken
open BTBType (toBTB)

variable {Ω E L : Type} [BTBEntryType E] [BTBType Ω E L]

/-- The places of a branch are the levels. -/
def taken (hooks : Hooks L) : Module (State L) ((Nat → Ω) × Call) Nat where
  step := step hooks
  call := Prod.snd
  place s ip := levelOf s.multiLevelBtb ip
  reports s ip := (btbPrediction hooks s ip .conditional).2.1.2

variable {m m' : List L} {ω : Nat → Ω} {hooks : Hooks L} {s s' : State L} {ip j i : Nat} {d e : BTBEntry}

theorem findBtbEntry_of_levelOf (hlev : levelOf m ip = some i) (he : lookAt m i ip = some e) :
    (findBtbEntry m ip).1 = some e := by
  rw [levelOf] at hlev
  obtain ⟨l, hl, hlook⟩ := getElem?_of_lookAt he
  rw [findBtbEntry, List.find?_eq_bind_findIdx?_getElem?, hlev, Option.bind_some, hl]
  exact hlook

theorem SameTables.levelOf (h : SameTables m m') (j : Nat) : levelOf m' j = MultiLevelBtb.levelOf m j := by
  apply levelOf_congr
  intro k
  rw [h.lookAt]

theorem reports_eq (hh : hooks.Lawful) (hlev : levelOf s.multiLevelBtb ip = some i)
    (he : lookAt s.multiLevelBtb i ip = some e) : (taken hooks).reports s ip = e.alwaysTaken := by
  have hsame := hh.timestamp s.multiLevelBtb
  have hfound : (findBtbEntry (hooks.updateTimestamp s.multiLevelBtb) ip).1 = some e := by
    apply findBtbEntry_of_levelOf (i := i)
    · rw [SameTables.levelOf hsame, hlev]
    · rw [hsame.lookAt, he]
  change (btbPrediction hooks s ip .conditional).2.1.2 = e.alwaysTaken
  rw [btbPrediction]
  simp only [SideTables.predict, BranchType.isCall]
  rw [← Prod.mk.eta (p := findBtbEntry _ _)]
  simp [hfound]

theorem updateBtb_notTaken {target : Nat} {ty : BranchType} (hty : ty.usesBtb = true)
    (h : updateBtb hooks ω s ip target false ty = some s') :
    s'.multiLevelBtb = writeEntry s.multiLevelBtb ip (fun e => { e with alwaysTaken := false }) := by
  simp only [updateBtb, if_pos hty] at h
  cases hf : (findBtbEntry s.multiLevelBtb ip).1 with
  | none =>
      rw [hf] at h
      simp only [Bool.false_eq_true, and_false, if_false, Option.some.injEq] at h
      rw [← h, writeEntry, levelOf_eq_none.mpr (findBtbEntry_eq_none.mp hf)]
  | some e =>
      rw [hf] at h
      simp only [updateExisting, Bool.false_eq_true, if_false, Option.some.injEq] at h
      rw [← h]

theorem exists_lookAt_levelOf (h : levelOf m ip = some i) : ∃ e, lookAt m i ip = some e :=
  (levelOf_eq_some_iff.mp h).1

variable [LawfulBTBType L]

theorem update_keeps_entry (hex : Exclusive m) (h : MultiLevelBtb.update ω m ip = some m')
    (hd : lookAt m i j = some d) (he : lookAt m' i j = some e) : e = d := by
  obtain ⟨i', e', -, he', hup⟩ := update_eq_some hex h
  cases hup with
  | refreshed _ heq =>
      rw [heq, hd, Option.some.injEq] at he
      exact he.symm
  | promoted k m₁ hp =>
      rcases Nat.lt_or_ge i (k + 1) with hlt | hge
      · rw [hp.below i hlt] at he
        cases hp.cascade.origin i j e (Nat.zero_le i) hlt he with
        | stayed _ hstay =>
            rw [hd, Option.some.injEq] at hstay
            exact hstay.symm
        | placed hj _ =>
            subst hj
            exact absurd (hex j i (k + 1) d e' hd he') (Nat.ne_of_lt hlt)
        | moved a d' _ _ hai hd' _ => exact absurd (hex j a i d' d hd' hd) (Nat.ne_of_lt hai)
      · obtain ⟨-, hstay⟩ := (hp.above i j e hge).mp he
        rw [hd, Option.some.injEq] at hstay
        exact hstay.symm

theorem insert_keeps_entry {target : Nat} {ty : BranchType} {b : Bool} (hex : Exclusive m) (hno : Absent m ip)
    (h : MultiLevelBtb.insert ω m ip target ty 0 none = some (m', b))
    (hd : lookAt m i j = some d) (he : lookAt m' i j = some e) : e = d := by
  have hc := insert_cascade hex hno h
  cases hc.origin i j e (Nat.zero_le i) (lt_length_of_lookAt hd) he with
  | stayed _ hstay =>
      rw [hd, Option.some.injEq] at hstay
      exact hstay.symm
  | placed hj _ =>
      subst hj
      rw [hno i] at hd
      cases hd
  | moved a d' _ _ hai hd' _ => exact absurd (hex j a i d' d hd' hd) (Nat.ne_of_lt hai)

theorem write_flag {f : BTBEntry → BTBEntry} (hf : ∀ e, (f e).alwaysTaken = true → e.alwaysTaken = true)
    (hd : lookAt m i j = some d) (he : lookAt (writeEntry m ip f) i j = some e) (ht : e.alwaysTaken = true) :
    d.alwaysTaken = true := by
  rw [lookAt_write, hd] at he
  split_ifs at he
  · rw [Option.map_some, Option.some.injEq] at he
    exact hf d (he ▸ ht)
  · rw [Option.some.injEq] at he
    exact he ▸ ht

theorem effect_flag (hex : Exclusive m) (h : Effect ω m ip m') (hd : lookAt m i j = some d)
    (he : lookAt m' i j = some e) (ht : e.alwaysTaken = true) : d.alwaysTaken = true := by
  cases h with
  | same hm =>
      rw [hm.lookAt, hd, Option.some.injEq] at he
      exact he ▸ ht
  | insert hm hno hins =>
      rw [← hm.lookAt] at hd
      rw [← insert_keeps_entry (hex.congr hm.lookAt) hno hins hd he]
      exact ht
  | @taken m₁ _ target hm hup =>
      rw [← hm.lookAt] at hd
      have hwrite := write_exclusive (hex.congr hm.lookAt) ip (fun e => { e with target := target })
      cases hw : lookAt (writeEntry m₁ ip (fun e => { e with target := target })) i j with
      | none =>
          rw [lookAt_write, hd] at hw
          split_ifs at hw
          cases hw
      | some d' =>
          rw [update_keeps_entry hwrite hup hw he] at ht
          exact write_flag (f := fun e => { e with target := target }) (fun _ h => h) hd hw ht
  | notTaken hm =>
      rw [← hm.lookAt] at hd
      exact write_flag (fun _ h => by cases h) hd he ht

theorem sound (hh : hooks.Lawful) {m : List L} (hr : Reach m) (ip : Nat) :
    (taken hooks).Sound (MultiLevelDriver.initializeBtb m) ip := by
  apply Module.sound_of (I := fun s => Reach s.multiLevelBtb) hr
  · intro s c t hr hstep
    exact (step_effect hh hstep).reach hr
  · rintro s ⟨ω, c⟩ t i - hstep hc hp
    cases c with
    | predict ip' ty => cases hc
    | prefetch ip' target ty taken toStreamBuffer => cases hc
    | update ip' target taken ty =>
        obtain ⟨rfl, rfl, hty⟩ := hc
        have hm := updateBtb_notTaken hty hstep
        change levelOf t.multiLevelBtb ip' = some i at hp
        obtain ⟨e, he⟩ := exists_lookAt_levelOf hp
        rw [reports_eq hh hp he]
        rw [hm, levelOf_write] at hp
        rw [hm, lookAt_write, if_pos ⟨rfl, hp⟩] at he
        obtain ⟨d, -, rfl⟩ := Option.map_eq_some_iff.mp he
        rfl
  · intro s c t i hr hstep hp hp' ht
    obtain ⟨d, hd⟩ := exists_lookAt_levelOf hp
    obtain ⟨e, he⟩ := exists_lookAt_levelOf hp'
    rw [reports_eq hh hp' he] at ht
    rw [reports_eq hh hp hd]
    exact effect_flag hr.exclusive (step_effect hh hstep) hd he ht

end Thermometer.MultiLevelTaken
