import Thermometer.LruHierarchy

namespace Thermometer.LruBottom

open Trace Lib.Tables Lib.Stamps MultiLevelBtb MultiLevelCascade MultiLevelReach MultiLevelDriver MultiLevelBasicBtb
  LruLevel LruHierarchy

/-- The operations of a hierarchy that may move branches. -/
inductive Op
  | insert (ip target : Nat) (branchType : BranchType)
  | update (ip : Nat)

def Op.ip : Op → Nat
  | .insert ip _ _ | .update ip => ip

def Op.Ready (m : List LRUBTB) : Op → Prop
  | .insert ip _ _ => Absent m ip
  | .update ip => Resident m ip

def Op.apply (ω : Nat → IterOrder) (m : List LRUBTB) : Op → Option (List LRUBTB)
  | .insert ip target ty => (MultiLevelBtb.insert ω m ip target ty 0 none).map Prod.fst
  | .update ip => MultiLevelBtb.update ω m ip

/-- All branches but `ip` stay, except for one that the last level held. -/
def BottomOnly (m m' : List LRUBTB) (ip : Nat) : Prop :=
  ∃ lost : Option Nat, (∀ d, lost = some d → ∃ e, lookAt m (m.length - 1) d = some e) ∧
    ∀ j, j ≠ ip → Resident m j → Resident m' j ∨ lost = some j

/-- Follows a branch and then the oldest entry of each full set it meets, over
`n` levels. True if a set with room ends the way, and `atEnd` if the levels end.
An oldest entry with address 0 goes nowhere. -/
def settles (ω : Nat → IterOrder) (m : List LRUBTB) (atEnd : Bool) : (n i ip : Nat) → Bool
  | 0, _, _ => atEnd
  | n + 1, i, ip =>
      (m[i]?).all (fun b => size (b.tableOf ip) < b.totalWays ||
        (lruMin (ω i) b ip).all (fun w => w ≠ 0 && settles ω m atEnd n (i + 1) w))

/-- When the branches pushed out above the last level all find a place. -/
def Op.settles (ω : Nat → IterOrder) (m : List LRUBTB) : Op → Bool
  | .insert ip _ _ => LruBottom.settles ω m true (m.length - 1) 0 ip
  | .update ip =>
      match levelOf m ip with
      | none => true
      | some i => i = 0 || LruBottom.settles ω m false i 0 ip

def dropped (ω : Nat → IterOrder) (m : List LRUBTB) : (n i ip : Nat) → Option (Nat × Nat)
  | 0, _, _ => none
  | n + 1, i, ip =>
      (m[i]?).bind (fun b =>
        if size (b.tableOf ip) < b.totalWays then none
        else (lruMin (ω i) b ip).bind (fun w => if w = 0 ∨ n = 0 then some (i, w) else dropped ω m n (i + 1) w))

variable {ω : Nat → IterOrder} {m m' : List LRUBTB} {n i k ip j d target : Nat} {ty : BranchType} {b b' : LRUBTB} {r : Bool}

theorem settles_iff_dropped (hn : 0 < n) : settles ω m false n i ip = true ↔ dropped ω m n i ip = none := by
  induction n generalizing i ip with
  | zero => omega
  | succ n ih =>
      rw [settles, dropped]
      cases m[i]? with
      | none => simp
      | some b =>
          rw [Option.bind_some, Option.all_some]
          by_cases hroom : size (b.tableOf ip) < b.totalWays
          · simp [hroom]
          · rw [if_neg hroom, decide_eq_false hroom, Bool.false_or]
            cases lruMin (ω i) b ip with
            | none => simp
            | some w =>
                rw [Option.bind_some, Option.all_some]
                by_cases hw : w = 0
                · simp [hw]
                · cases n with
                  | zero => simp [settles]
                  | succ n =>
                      have hrest := @ih (i + 1) w (Nat.succ_pos n)
                      simp [hw, hrest]

theorem settles_iff_last : settles ω m true (n - 1) i ip = true ↔
    ∀ k d, dropped ω m n i ip = some (k, d) → k + 1 = i + n := by
  induction n generalizing i ip with
  | zero => simp [settles, dropped]
  | succ n ih =>
      rw [Nat.add_sub_cancel, dropped]
      cases n with
      | zero =>
          refine iff_of_true rfl ?_
          intro k d h
          obtain ⟨b, -, h⟩ := Option.bind_eq_some_iff.mp h
          split_ifs at h
          obtain ⟨w, -, h⟩ := Option.bind_eq_some_iff.mp h
          rw [if_pos (.inr rfl), Option.some.injEq, Prod.mk.injEq] at h
          omega
      | succ n =>
          rw [settles]
          cases m[i]? with
          | none => simp
          | some b =>
              rw [Option.bind_some, Option.all_some]
              by_cases hroom : size (b.tableOf ip) < b.totalWays
              · simp [hroom]
              · rw [if_neg hroom, decide_eq_false hroom, Bool.false_or]
                cases lruMin (ω i) b ip with
                | none => simp
                | some w =>
                    rw [Option.bind_some, Option.all_some]
                    by_cases hw : w = 0
                    · simp [hw]
                    · have hrest := @ih (i + 1) w
                      have hlen : i + 1 + (n + 1) = i + (n + 1 + 1) := by omega
                      rw [Nat.add_sub_cancel, hlen] at hrest
                      simp [hw, hrest]

theorem dropped_congr (h : ∀ k, i ≤ k → m'[k]? = m[k]?) : dropped ω m' n i ip = dropped ω m n i ip := by
  induction n generalizing i ip with
  | zero => rfl
  | succ n ih =>
      have hrest : ∀ w, dropped ω m' n (i + 1) w = dropped ω m n (i + 1) w :=
        fun w => ih (fun k hk => h k (Nat.le_of_succ_le hk))
      simp only [dropped, h i (Nat.le_refl i), hrest]

structure Loses (m m' : List LRUBTB) (lo hi ip : Nat) (drop : Option (Nat × Nat)) : Prop where
  kept : ∀ k j e, lo ≤ k → k < hi → j ≠ ip → lookAt m k j = some e →
    (∃ k' e', lo ≤ k' ∧ k' < hi ∧ lookAt m' k' j = some e') ∨ ∃ l, drop = some (l, j)
  lost : ∀ l d, drop = some (l, d) → lo ≤ l ∧ l < hi ∧ (∃ e, lookAt m l d = some e) ∧
    ∀ k, lo ≤ k → k < hi → lookAt m' k d = none

theorem insertFrom_first (hl : m[i]? = some b) (hno : look b ip = none)
    (h : insertFrom ω ip target ty (n + 1) i m = some (m', r)) : ∃ e, lookAt m' i ip = some e := by
  rw [insertFrom, hl] at h
  simp only [Option.bind_eq_some_iff] at h
  obtain ⟨⟨b', victim⟩, hins, h⟩ := h
  have hfirst : lookAt (m.set i b') i = look b' := lookAt_set_self hl b'
  obtain ⟨e, hplaced⟩ := insert_resident hno hins
  dsimp only at h
  split_ifs at h with hvictim hfound
  · obtain ⟨⟨m₂, r₂⟩, hrest, heq⟩ := Option.map_eq_some_iff.mp h
    obtain ⟨rfl, rfl⟩ := Prod.mk.inj heq
    exact ⟨_, by rw [lookAt_congr (insertFrom_below hrest (Nat.lt_succ_self i)), hfirst, hplaced]⟩
  · rw [Option.some.injEq, Prod.mk.injEq] at h
    exact ⟨_, by rw [← h.1, hfirst, hplaced]⟩
  · exact absurd ((isSome_findBtbEntry _ _).mpr ⟨i, _, by rw [hfirst, hplaced]⟩) hfound

section Steps

variable {w hi : Nat} {d : BTBEntry} {new : BTBEntry} (hex : ExclusiveOn m i hi) (hlt : i < hi) (hl : m[i]? = some b)

include hex hlt hl

theorem only_first {e : BTBEntry} (hd : look b w = some d) (hk : i ≤ k) (hkhi : k < hi) (he : lookAt m k w = some e) :
    k = i := by
  rw [← lookAt_of_getElem? hl] at hd
  exact (hex w i k d e (Nat.le_refl i) hlt hk hkhi hd he).symm

theorem Loses.stop (hw : w ≠ ip) (hd : look b w = some d)
    (hlook : look b' = Function.update (Function.update (look b) w none) ip (some new)) :
    Loses m (m.set i b') i hi ip (some (i, w)) := by
  have hmi : lookAt m i = look b := lookAt_of_getElem? hl
  constructor
  · intro k j e hk hkhi hj he
    by_cases hki : k = i
    · subst hki
      by_cases hjw : j = w
      · exact .inr ⟨k, by rw [hjw]⟩
      · refine .inl ⟨k, e, hk, hkhi, ?_⟩
        rw [lookAt_set_self hl, hlook, Function.update_of_ne hj, Function.update_of_ne hjw, ← hmi, he]
    · exact .inl ⟨k, e, hk, hkhi, by rw [lookAt_set_of_ne hki, he]⟩
  · intro l c heq
    rw [Option.some.injEq, Prod.mk.injEq] at heq
    obtain ⟨rfl, rfl⟩ := heq
    refine ⟨Nat.le_refl i, hlt, ⟨d, by rw [hmi, hd]⟩, ?_⟩
    intro k hk hkhi
    by_cases hki : k = i
    · rw [hki, lookAt_set_self hl, hlook, Function.update_of_ne hw, Function.update_self]
    · rw [lookAt_set_of_ne hki]
      cases he : lookAt m k w with
      | none => rfl
      | some e => exact absurd (only_first hex hlt hl hd hk hkhi he) hki

/-- The first level hands its oldest entry to a cascade below. -/
theorem Loses.pass {drop : Option (Nat × Nat)} (hno : ∀ k, i ≤ k → k < hi → lookAt m k ip = none) (hw : w ≠ ip)
    (hd : look b w = some d) (hlook : look b' = Function.update (Function.update (look b) w none) ip (some new))
    (hkeep : lookAt m' i = look b') (hplaced : ∃ e, lookAt m' (i + 1) w = some e) (hhi : i + 1 < hi)
    (h : Loses (m.set i b') m' (i + 1) hi w drop) : Loses m m' i hi ip drop := by
  have hmi : lookAt m i = look b := lookAt_of_getElem? hl
  have habove : ∀ k, i < k → lookAt (m.set i b') k = lookAt m k := by
    intro k hk
    exact lookAt_set_of_ne (Nat.ne_of_gt hk) b'
  constructor
  · intro k j e hk hkhi hj he
    by_cases hki : k = i
    · subst hki
      by_cases hjw : j = w
      · obtain ⟨e', he'⟩ := hplaced
        exact .inl ⟨k + 1, e', Nat.le_succ k, hhi, by rw [hjw, he']⟩
      · refine .inl ⟨k, e, hk, hkhi, ?_⟩
        rw [hkeep, hlook, Function.update_of_ne hj, Function.update_of_ne hjw, ← hmi, he]
    · have hik : i < k := by omega
      have hjw : j ≠ w := by
        rintro rfl
        exact hki (only_first hex hlt hl hd hk hkhi he)
      rcases h.kept k j e hik hkhi hjw (by rw [habove k hik, he]) with ⟨k', e', hk', hkhi', he'⟩ | hdrop
      · exact .inl ⟨k', e', by omega, hkhi', he'⟩
      · exact .inr hdrop
  · intro l c hdrop
    obtain ⟨hlo, hlhi, ⟨e, he⟩, hgone⟩ := h.lost l c hdrop
    rw [habove l hlo] at he
    refine ⟨by omega, hlhi, ⟨e, he⟩, ?_⟩
    intro k hk hkhi
    by_cases hki : k = i
    · subst hki
      rw [hkeep, hlook]
      have hcip : c ≠ ip := by
        rintro rfl
        rw [hno l (by omega) hlhi] at he
        cases he
      rw [Function.update_of_ne hcip]
      by_cases hcw : c = w
      · rw [hcw, Function.update_self]
      · rw [Function.update_of_ne hcw]
        cases hc : look b c with
        | none => rfl
        | some f =>
            have := only_first hex hlt hl hc (by omega) hlhi he
            omega
    · exact hgone k (by omega) hkhi

end Steps

theorem insertFrom_loses (hex : ExclusiveOn m i (i + n)) (hno : ∀ k, i ≤ k → k < i + n → lookAt m k ip = none)
    (hlen : i + n ≤ m.length) (h : insertFrom ω ip target ty n i m = some (m', r)) :
    Loses m m' i (i + n) ip (dropped ω m n i ip) := by
  induction n generalizing m m' i ip target ty r with
  | zero => exact ⟨fun k j e hk hkhi => by omega, fun l d hdrop => by cases hdrop⟩
  | succ n ih =>
      have hl : m[i]? = some m[i] := List.getElem?_eq_getElem (by omega)
      generalize m[i] = b at hl
      have hlt : i < i + (n + 1) := by omega
      have habsent : look b ip = none := by
        rw [← lookAt_of_getElem? hl]
        exact hno i (Nat.le_refl i) hlt
      rw [insertFrom, hl] at h
      simp only [Option.bind_eq_some_iff] at h
      obtain ⟨⟨b', victim⟩, hins, h⟩ := h
      obtain ⟨e, hplaced⟩ := insert_resident habsent hins
      have hfound : (findBtbEntry (m.set i b') ip).1.isSome = true :=
        (isSome_findBtbEntry _ _).mpr ⟨i, _, by rw [lookAt_set_self hl, hplaced]⟩
      rw [dropped, hl, Option.bind_some]
      rcases insert_cases habsent hins with ⟨hroom, rfl, hlook⟩ | ⟨hfull, w, d, hmin, hw, hd, rfl, hlook⟩
      · -- a set with room ends the cascade
        simp only [BTBEntry.none, ne_eq, not_true_eq_false, if_false, if_pos hfound, Option.some.injEq,
          Prod.mk.injEq] at h
        rw [if_pos hroom, ← h.1]
        refine ⟨?_, fun l d hdrop => by cases hdrop⟩
        intro k j e hk hkhi hj he
        refine .inl ⟨k, e, hk, hkhi, ?_⟩
        by_cases hki : k = i
        · rw [hki, lookAt_set_self hl, hlook, Function.update_of_ne hj, ← lookAt_of_getElem? hl, ← hki, he]
        · rw [lookAt_set_of_ne hki, he]
      · rw [if_neg (Nat.not_lt.mpr hfull), hmin, Option.bind_some]
        by_cases hw₀ : w = 0
        · -- address 0 reads as no victim
          have hzero : ¬(BTBEntry.new w d.target d.branchType).ipTag ≠ 0 := by simp [BTBEntry.new, hw₀]
          rw [if_neg hzero, if_pos hfound, Option.some.injEq, Prod.mk.injEq] at h
          rw [if_pos (.inl hw₀), ← h.1]
          exact .stop hex hlt hl hw hd hlook
        · have hvictim : (BTBEntry.new w d.target d.branchType).ipTag ≠ 0 := hw₀
          rw [if_pos hvictim] at h
          obtain ⟨⟨m₂, r₂⟩, hrest, heq⟩ := Option.map_eq_some_iff.mp h
          obtain ⟨rfl, rfl⟩ := Prod.mk.inj heq
          cases n with
          | zero =>
              rw [insertFrom, Option.some.injEq, Prod.mk.injEq] at hrest
              rw [if_pos (.inr rfl), ← hrest.1]
              exact .stop hex hlt hl hw hd hlook
          | succ n =>
              have hhi : i + (n + 1 + 1) = i + 1 + (n + 1) := by omega
              rw [hhi] at hex hno hlt ⊢
              have hwno : ∀ k, i + 1 ≤ k → k < i + 1 + (n + 1) → lookAt (m.set i b') k w = none :=
                hex.absent_below hlt hl hd
              have hlen' : i + 1 + (n + 1) ≤ (m.set i b').length := by
                rw [List.length_set]
                omega
              obtain ⟨c, hl'⟩ : ∃ c, (m.set i b')[i + 1]? = some c :=
                ⟨_, List.getElem?_eq_getElem (by omega)⟩
              have hno' : look c w = none := by
                rw [← lookAt_of_getElem? hl']
                exact hwno (i + 1) (Nat.le_refl _) (by omega)
              have hkeep : lookAt m₂ i = look b' := by
                rw [lookAt_congr (insertFrom_below hrest (Nat.lt_succ_self i)), lookAt_set_self hl]
              have hsame : dropped ω (m.set i b') (n + 1) (i + 1) w = dropped ω m (n + 1) (i + 1) w :=
                dropped_congr (fun k hk => List.getElem?_set_ne (by omega))
              rw [if_neg (by simp [hw₀]), ← hsame]
              exact .pass hex hlt hl hno hw hd hlook hkeep (insertFrom_first hl' hno' hrest) (by omega)
                (ih hex.below hwno hlen' hrest)

theorem insert_bottomOnly_iff (hex : Exclusive m) (hno : Absent m ip)
    (h : MultiLevelBtb.insert ω m ip target ty 0 none = some (m', r)) :
    BottomOnly m m' ip ↔ LruBottom.settles ω m true (m.length - 1) 0 ip = true := by
  have hl : Loses m m' 0 (0 + m.length) ip (dropped ω m m.length 0 ip) :=
    insertFrom_loses (hex.on 0 _) (fun k _ _ => hno k) (by omega) h
  have hc := insert_cascade hex hno h
  rw [Nat.zero_add] at hl
  rw [settles_iff_last, Nat.zero_add]
  constructor
  · rintro ⟨lost, hlast, hkept⟩ k d hdrop
    obtain ⟨-, hk, ⟨e, he⟩, hgone⟩ := hl.lost k d hdrop
    have hd : d ≠ ip := by
      rintro rfl
      rw [hno k] at he
      cases he
    rcases hkept d hd ⟨k, e, he⟩ with ⟨k', e', he'⟩ | hlost
    · have hk' := lt_length_of_lookAt he'
      rw [hc.length] at hk'
      rw [hgone k' (Nat.zero_le k') hk'] at he'
      cases he'
    · obtain ⟨f, hf⟩ := hlast d hlost
      have := hex d k (m.length - 1) e f he hf
      omega
  · intro hdrop
    refine ⟨(dropped ω m m.length 0 ip).map Prod.snd, ?_, ?_⟩
    · intro d hd
      obtain ⟨⟨k, d'⟩, hkd, rfl⟩ := Option.map_eq_some_iff.mp hd
      obtain ⟨-, -, he, -⟩ := hl.lost k d' hkd
      have hk := hdrop k d' hkd
      rwa [show m.length - 1 = k by omega]
    · rintro j hj ⟨k, e, he⟩
      rcases hl.kept k j e (Nat.zero_le k) (lt_length_of_lookAt he) hj he with ⟨k', e', -, -, he'⟩ | ⟨l, hlj⟩
      · exact .inl ⟨k', e', he'⟩
      · exact .inr (by rw [hlj]; rfl)

theorem update_bottomOnly_iff (hex : Exclusive m) (h : MultiLevelBtb.update ω m ip = some m')
    (hlev : levelOf m ip = some i) :
    BottomOnly m m' ip ↔ (i = 0 || LruBottom.settles ω m false i 0 ip) = true := by
  obtain ⟨i', e, hlev', he, hup⟩ := update_eq_some hex h
  obtain rfl : i = i' := Option.some.inj (hlev.symm.trans hlev')
  have hbelow : ∀ k, k < i → lookAt m k ip = none := (levelOf_eq_some_iff.mp hlev).2
  cases hup with
  | refreshed _ heq =>
      refine iff_of_true ⟨none, fun d hd => (by cases hd), ?_⟩ rfl
      rintro j - ⟨k, d, hd⟩
      exact .inl ⟨k, d, by rw [heq, hd]⟩
  | promoted i m₁ hp =>
      have hlen := lt_length_of_lookAt he
      have hl := insertFrom_loses (hex.on 0 _) (fun k _ hk => hbelow k (by omega)) (by omega) hp.inserted
      rw [Nat.zero_add] at hl
      rw [decide_eq_false (Nat.succ_ne_zero i), Bool.false_or, settles_iff_dropped (Nat.succ_pos i)]
      constructor
      · rintro ⟨lost, hlast, hkept⟩
        by_contra hdrop
        obtain ⟨⟨k, d⟩, hdrop⟩ := Option.ne_none_iff_exists'.mp hdrop
        obtain ⟨-, hk, ⟨f, hf⟩, hgone⟩ := hl.lost k d hdrop
        have hd : d ≠ ip := by
          rintro rfl
          rw [hbelow k hk] at hf
          cases hf
        rcases hkept d hd ⟨k, f, hf⟩ with ⟨k', f', hf'⟩ | hlost
        · rcases Nat.lt_or_ge k' (i + 1) with hlt | hge
          · rw [hp.below k' hlt, hgone k' (Nat.zero_le k') hlt] at hf'
            cases hf'
          · have := hex d k k' f f' hf ((hp.above k' d f' hge).mp hf').2
            omega
        · obtain ⟨g, hg⟩ := hlast d hlost
          have := hex d k (m.length - 1) f g hf hg
          omega
      · intro hdrop
        refine ⟨none, fun d hd => (by cases hd), ?_⟩
        rintro j hj ⟨k, d, hd⟩
        left
        rcases Nat.lt_or_ge k (i + 1) with hlt | hge
        · rcases hl.kept k j d (Nat.zero_le k) hlt hj hd with ⟨k', d', -, hk', hd'⟩ | ⟨l, hlj⟩
          · exact ⟨k', d', by rw [hp.below k' hk', hd']⟩
          · rw [hdrop] at hlj
            cases hlj
        · exact ⟨k, d, (hp.above k j d hge).mpr ⟨hj, hd⟩⟩

/-- The branches other than the operated one leave at the bottom only, exactly
when every branch pushed out of a level above the last one finds its place. -/
theorem bottomOnly_iff (hr : Reach m) {op : Op} (hready : op.Ready m) (h : op.apply ω m = some m') :
    BottomOnly m m' op.ip ↔ op.settles ω m = true := by
  cases op with
  | insert ip target ty =>
      obtain ⟨⟨m₁, r⟩, hins, rfl⟩ := Option.map_eq_some_iff.mp h
      exact insert_bottomOnly_iff hr.exclusive hready hins
  | update ip =>
      obtain ⟨i, hlev⟩ : ∃ i, levelOf m ip = some i := by
        obtain ⟨i, e, hlev, -⟩ := update_eq_some hr.exclusive h
        exact ⟨i, hlev⟩
      change BottomOnly m m' ip ↔ Op.settles ω m (.update ip) = true
      rw [Op.settles, hlev]
      exact update_bottomOnly_iff hr.exclusive h hlev

theorem promotion_run : ∃ m m' : List LRUBTB, Reach m ∧ Resident m 4 ∧
    MultiLevelBtb.update (fun _ => IterOrder.stored) m 4 = some m' ∧ levelOf m 4 = some 1 ∧ levelOf m 8 = some 0 ∧ Absent m' 8 := by
  let ω : Nat → IterOrder := fun _ => .stored
  let chain : Option (List LRUBTB × List LRUBTB × List LRUBTB) :=
    (MultiLevelBtb.insert ω (levels [(0, 1, 1), (1, 1, 1)]) 4 40 .directJump 0 none).bind (fun r =>
      (MultiLevelBtb.insert ω r.1 8 80 .directJump 0 none).bind (fun r' =>
        (MultiLevelBtb.update ω r'.1 4).map (fun m' => (r.1, r'.1, m'))))
  have hrun : chain.map (fun p => (levelOf p.1 8, levelOf p.2.1 4, levelOf p.2.1 8, levelOf p.2.2 8)) =
      some (none, some 1, some 0, none) := by decide +kernel
  obtain ⟨⟨m₁, m₂, m₃⟩, hchain, hlev⟩ := Option.map_eq_some_iff.mp hrun
  obtain ⟨⟨n₁, b₁⟩, h₁, hchain⟩ := Option.bind_eq_some_iff.mp hchain
  obtain ⟨⟨n₂, b₂⟩, h₂, hchain⟩ := Option.bind_eq_some_iff.mp hchain
  obtain ⟨n₃, h₃, heq⟩ := Option.map_eq_some_iff.mp hchain
  simp only [Prod.mk.injEq] at hlev heq
  obtain ⟨rfl, rfl, rfl⟩ := heq
  obtain ⟨hno, h4, h8, hgone⟩ := hlev
  have hstart : Reach (levels [(0, 1, 1), (1, 1, 1)]) :=
    MultiLevelBasicBtb.initializeBtb_reach [(0, 1, 1), (1, 1, 1)]
  have hempty : Absent (levels [(0, 1, 1), (1, 1, 1)]) 4 := levelOf_eq_none.mp (by decide +kernel)
  refine ⟨n₂, n₃, .insert (.insert hstart hempty h₁) (levelOf_eq_none.mp hno) h₂, ?_, h₃, h4, h8,
    levelOf_eq_none.mp hgone⟩
  obtain ⟨he, -⟩ := levelOf_eq_some_iff.mp h4
  exact ⟨1, he⟩

theorem bottomOnly_iff_promotion : ∃ (m m' : List LRUBTB) (ω : Nat → IterOrder), Reach m ∧ Resident m 4 ∧
    (BottomOnly m m' 4 ↔ Op.settles ω m (.update 4) = true) := by
  obtain ⟨m, m', hr, hres, hup, -⟩ := promotion_run
  have hready : Op.Ready m (.update 4) := hres
  exact ⟨m, m', _, hr, hres, bottomOnly_iff hr hready hup⟩

/-- Promoting a branch makes room in its level too late for what it pushes out. -/
theorem promotion_drops : ¬∀ (m m' : List LRUBTB) (ω : Nat → IterOrder) (op : Op), Reach m → op.Ready m →
    op.apply ω m = some m' → BottomOnly m m' op.ip := by
  intro h
  obtain ⟨m, m', hr, hres, hup, h4, h8, hgone⟩ := promotion_run
  obtain ⟨lost, hlast, hkept⟩ := h m m' _ (.update 4) hr hres hup
  obtain ⟨⟨e, he⟩, -⟩ := levelOf_eq_some_iff.mp h8
  rcases hkept 8 (by simp [Op.ip]) ⟨0, e, he⟩ with ⟨k, d, hd⟩ | hlost
  · rw [hgone k] at hd
    cases hd
  · obtain ⟨d, hd⟩ := hlast 8 hlost
    obtain ⟨⟨f, hf⟩, -⟩ := levelOf_eq_some_iff.mp h4
    have hlen := lt_length_of_lookAt hf
    have := hr.exclusive 8 0 (m.length - 1) e d he hd
    omega

end Thermometer.LruBottom
