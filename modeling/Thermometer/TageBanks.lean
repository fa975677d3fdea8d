import Thermometer.Lib.Rings
import Thermometer.Lib.Runs
import Thermometer.TageSafety

namespace Thermometer.TageBanks

open Trace Lib.Runs TageHistory TageTables TageSafety

section Update

variable {t t' t'' : Tables} {k : Lookup} {i j m n : Nat} {e : GEntry} {f : GEntry → GEntry} {r : Bool}
  {mask : Nat → Nat} {L : Lengths} {A B : List Nat}

def SameArray (a i : Nat) : Prop := a < born ↔ i < born

/-- The tables in `A`, all of longer histories than pair `m`, have each taken their entry, which no branch had found
useful; all other tags are as before. -/
structure Replaces (k : Lookup) (m : Nat) (t t' : Tables) (A : List Nat) : Prop where
  kept : ∀ i j, (∀ a ∈ A, ¬(SameArray a i ∧ k.gi a = j)) → (t'.entries i j).tag = (t.entries i j).tag
  useful : ∀ i j, (t'.entries i j).u = (t.entries i j).u
  fresh : ∀ a ∈ A, Live a ∧ m < (a + 1) / 2 ∧ (t.entries a (k.gi a)).u = 0

def KeepsTags (t t' : Tables) : Prop := ∀ i j, (t'.entries i j).tag = (t.entries i j).tag

theorem entries_put (t : Tables) (a l i j : Nat) (e : GEntry) [Decidable (SameArray a i ∧ l = j)] :
    (t.put a l e).entries i j = if SameArray a i ∧ l = j then e else t.entries i j := by
  have hup : ∀ g : Nat → GEntry, Function.update g l e j = if l = j then e else g j := by
    intro g
    by_cases hj : l = j
    · rw [if_pos hj, ← hj, Function.update_self]
    · rw [if_neg hj, Function.update_of_ne (Ne.symm hj)]
  simp only [Tables.put, Tables.entries, SameArray]
  by_cases ha : a < born <;> by_cases hi : i < born <;> simp [ha, hi, hup]

theorem entries_congr (h : SameArray i n) : t.entries i j = t.entries n j := by
  simp only [Tables.entries, SameArray] at h ⊢
  by_cases hi : i < born
  · rw [if_pos hi, if_pos (h.mp hi)]
  · rw [if_neg hi, if_neg (fun hn => hi (h.mpr hn))]

theorem put_part {α : Type} (g : GEntry → α) (h : g e = g (t.entries n m)) (i j : Nat) :
    g ((t.put n m e).entries i j) = g (t.entries i j) := by
  classical
  rw [entries_put]
  split_ifs with hplace
  · obtain ⟨harray, rfl⟩ := hplace
    rw [h, entries_congr harray]
  · rfl

theorem replaces_refl (k : Lookup) (m : Nat) (t : Tables) : Replaces k m t t [] :=
  ⟨fun _ _ _ => rfl, fun _ _ => rfl, fun _ ha => absurd ha List.not_mem_nil⟩

theorem Replaces.trans (h : Replaces k m t t' A) (h' : Replaces k m t' t'' B) :
    Replaces k m t t'' (A ++ B) := by
  refine ⟨?_, ?_, ?_⟩
  · intro i j hnot
    rw [h'.kept i j (fun a ha => hnot a (List.mem_append_right A ha)),
      h.kept i j (fun a ha => hnot a (List.mem_append_left B ha))]
  · intro i j
    rw [h'.useful, h.useful]
  · intro a ha
    rcases List.mem_append.mp ha with ha | ha
    · exact h.fresh a ha
    · obtain ⟨hlive, hlt, hu⟩ := h'.fresh a ha
      exact ⟨hlive, hlt, by rwa [← h.useful]⟩

/-- What one table does in the search for a place. -/
theorem attempt_spec (h : Sound t) (hk : LookupFits k) (hpos : 1 ≤ i) (hi : i ≤ nhist) (hm : m < (i + 1) / 2) (r : Bool) :
    ∃ t' a, attempt t k r i = some (t', a) ∧ Sound t' ∧
      Replaces k m t t' (if a = .allocated then [i] else []) := by
  classical
  rw [attempt]
  by_cases hpart : noskip i = true
  · have hlive : Live i := ⟨hpos, hi, hpart⟩
    have hfit := h.entries i (k.gi i)
    rw [if_pos hpart, read_eq hlive (hk.gi i hlive), Option.bind_some]
    by_cases hu : (t.entries i (k.gi i)).u = 0
    · rw [if_pos hu]
      by_cases hweak : confidence (t.entries i (k.gi i)).ctr ≤ 3
      · rw [if_pos hweak, modify_eq hlive (hk.gi i hlive), Option.map_some]
        have hnew : EntryFits ⟨if r then 0 else -1, k.tags i, (t.entries i (k.gi i)).u⟩ := by
          refine ⟨?_, ?_, hk.tags i, hfit.u⟩ <;> dsimp only <;> split_ifs <;> omega
        refine ⟨_, _, rfl, h.put hnew, ?_⟩
        rw [if_pos rfl]
        refine ⟨?_, ?_, ?_⟩
        · intro i' j' hnot
          rw [entries_put, if_neg (hnot i List.mem_cons_self)]
        · apply put_part GEntry.u
          rfl
        · intro a ha
          obtain rfl := List.mem_singleton.mp ha
          exact ⟨hlive, hm, hu⟩
      · rw [if_neg hweak, modify_eq hlive (hk.gi i hlive), Option.map_some]
        have hnew : EntryFits { t.entries i (k.gi i) with ctr :=
            if (t.entries i (k.gi i)).ctr > 0 then (t.entries i (k.gi i)).ctr - 1 else
              (t.entries i (k.gi i)).ctr + 1 } := by
          have hl := hfit.lower
          have hup := hfit.upper
          refine ⟨?_, ?_, hfit.tag, hfit.u⟩ <;> dsimp only <;> split_ifs <;> omega
        refine ⟨_, _, rfl, h.put hnew, ?_, ?_, fun a ha => absurd ha List.not_mem_nil⟩
        · intro i' j' _
          apply put_part GEntry.tag
          rfl
        · apply put_part GEntry.u
          rfl
    · rw [if_neg hu]
      exact ⟨t, .useful, rfl, h, replaces_refl k m t⟩
  · rw [if_neg hpart]
    exact ⟨t, .skipped, rfl, h, replaces_refl k m t⟩

theorem pair_half (i : Nat) : (i ^^^ 1) / 2 = i / 2 := by
  have hdiv := @Nat.xor_div_two_pow i 1 1
  rw [Nat.pow_one] at hdiv
  rw [hdiv]
  exact Nat.xor_zero _

/-- The search ends, takes at most one entry more than is left to take, and only in longer tables. -/
theorem allocateLoop_spec (hk : LookupFits k) (r : Bool) (fuel I left : Nat) (hm : m ≤ I / 2)
    (hfuel : nhist ≤ I + 2 * fuel) (b : Balance) (h : Sound t) :
    ∃ t' b' A, allocateLoop k r (fuel + 1) I left b t = some (t', b') ∧ Sound t' ∧ Replaces k m t t' A ∧
      A.length ≤ left + 1 := by
  induction fuel generalizing I left b t with
  | zero =>
      rw [allocateLoop, if_neg (by omega)]
      exact ⟨t, b, [], rfl, h, replaces_refl k m t, by simp⟩
  | succ fuel ih =>
      rw [allocateLoop]
      by_cases hI : I < nhist
      · have hpair := pair_half I
        have hpair' : (I ^^^ 1) < nhist := by
          simp only [nhist] at hI ⊢
          omega
        obtain ⟨t₁, a₁, hfirst, hsound₁, hrep₁⟩ := attempt_spec (m := m) h hk (Nat.succ_pos I) hI (by omega) r
        obtain ⟨t₂, a₂, hsecond, hsound₂, hrep₂⟩ :=
          attempt_spec (m := m) hsound₁ hk (Nat.succ_pos (I ^^^ 1)) hpair' (by omega) r
        rw [if_pos hI, hfirst]
        simp only [Option.bind_eq_bind, Option.bind_some]
        by_cases hone : a₁ = .allocated
        · rw [if_pos hone]
          rw [if_pos hone] at hrep₁
          cases left with
          | zero =>
              rw [if_pos (by omega)]
              exact ⟨t₁, _, [I + 1], rfl, hsound₁, hrep₁, by simp⟩
          | succ left =>
              obtain ⟨t', b', A, hloop, hsound, hrep, hlen⟩ :=
                ih (I + 4) left (by omega) (by omega) (b.count a₁) hsound₁
              refine ⟨t', b', [I + 1] ++ A, ?_, hsound, hrep₁.trans hrep, ?_⟩
              · rw [if_neg (by omega)]
                have hleft : ((left + 1 : Nat) : Int) - 1 = left := by omega
                rw [hleft]
                exact hloop
              · simp only [List.length_append, List.length_singleton]
                omega
        · rw [if_neg hone, hsecond]
          simp only [Option.bind_some]
          rw [if_neg hone] at hrep₁
          by_cases htwo : a₂ = .allocated
          · rw [if_pos htwo]
            rw [if_pos htwo] at hrep₂
            cases left with
            | zero =>
                rw [if_pos (by omega)]
                exact ⟨t₂, _, [] ++ [(I ^^^ 1) + 1], rfl, hsound₂, hrep₁.trans hrep₂, by simp⟩
            | succ left =>
                obtain ⟨t', b', A, hloop, hsound, hrep, hlen⟩ :=
                  ih (I + 4) left (by omega) (by omega) ((b.count a₁).count a₂) hsound₂
                refine ⟨t', b', ([] ++ [(I ^^^ 1) + 1]) ++ A, ?_, hsound, (hrep₁.trans hrep₂).trans hrep, ?_⟩
                · rw [if_neg (by omega)]
                  have hleft : ((left + 1 : Nat) : Int) - 1 = left := by omega
                  rw [hleft]
                  exact hloop
                · simp only [List.length_append, List.length_singleton, List.length_nil]
                  omega
          · rw [if_neg htwo]
            rw [if_neg htwo] at hrep₂
            obtain ⟨t', b', A, hloop, hsound, hrep, hlen⟩ :=
              ih (I + 2) left (by omega) (by omega) ((b.count a₁).count a₂) hsound₂
            exact ⟨t', b', ([] ++ []) ++ A, hloop, hsound, (hrep₁.trans hrep₂).trans hrep, hlen⟩
      · rw [if_neg hI]
        exact ⟨t, b, [], rfl, h, replaces_refl k m t, by simp⟩

theorem Sound.halveUseful (h : Sound t) : Sound (halveUseful t) ∧ KeepsTags t (halveUseful t) := by
  have hhalf : ∀ e : GEntry, EntryFits e → EntryFits { e with u := e.u >>> 1 } := by
    intro e he
    refine ⟨he.lower, he.upper, he.tag, ?_⟩
    have hu := he.u
    simp only [Nat.shiftRight_succ, Nat.shiftRight_zero]
    omega
  refine ⟨⟨?_, ?_, h.bimodal, h.useAlt, h.tick⟩, ?_⟩
  · intro j
    simp only [TageTables.halveUseful]
    split_ifs
    · exact hhalf _ (h.low j)
    · exact h.low j
  · intro j
    simp only [TageTables.halveUseful]
    split_ifs
    · exact hhalf _ (h.high j)
    · exact h.high j
  · intro i j
    simp only [TageTables.halveUseful, Tables.entries]
    by_cases hi : i < born
    · simp only [if_pos hi]
      split_ifs <;> rfl
    · simp only [if_neg hi]
      split_ifs <;> rfl

theorem Sound.updateTick (h : Sound t) (b : Balance) : Sound (updateTick t b) ∧
    KeepsTags t (updateTick t b) := by
  have hhalve := Sound.halveUseful h
  have htick : ∀ x : Int, 0 ≤ x → x < bornTick → ∀ t : Tables, Sound t → Sound { t with tick := x } :=
    fun x hx hlt t ht => ⟨ht.low, ht.high, ht.bimodal, ht.useAlt, hx, hlt⟩
  rw [TageTables.updateTick]
  by_cases hborn :
    (if t.tick + ((b.penalty : Int) - 2 * b.na) < 0 then 0 else t.tick +
    ((b.penalty : Int) - 2 * b.na)) ≥ bornTick
  · simp only [if_pos hborn]
    exact ⟨htick 0 (Int.le_refl 0) (by decide) _ hhalve.1, hhalve.2⟩
  · simp only [if_neg hborn]
    refine ⟨htick _ ?_ (Int.lt_of_not_ge hborn) t h, fun _ _ => rfl⟩
    split_ifs <;> omega

theorem hitBank_le_depth (hk : LookupFits k) (d : Draws) : (k.hitBank + 1) / 2 ≤ firstDepth k d / 2 := by
  have hle : k.hitBank ≤ nhist := by
    rcases hk.hit with h | h
    · rw [h]
      exact Nat.zero_le _
    · exact h.le
  have hbit : ∀ h < nhist + 1, ∀ a < 3, ∀ p < 2, 0 < a →
    (h + 1) / 2 ≤ (((h + 2 * a - 1) &&& 0xffe) ^^^ p) / 2 := by decide
  have hpair : d.pair &&& 1 < 2 := Nat.and_lt_two_pow d.pair (by decide : 1 < 2 ^ 1)
  rw [firstDepth]
  split_ifs
  · exact hbit k.hitBank (Nat.lt_succ_of_le hle) 2 (by decide) _ hpair (by decide)
  · exact hbit k.hitBank (Nat.lt_succ_of_le hle) 1 (by decide) _ hpair (by decide)

/-- At most two entries change hands, all of tables of longer histories than the one that matched. -/
structure Taken (k : Lookup) (t t' : Tables) (A : List Nat) : Prop where
  kept : ∀ i j, (∀ a ∈ A, ¬(SameArray a i ∧ k.gi a = j)) → (t'.entries i j).tag = (t.entries i j).tag
  fresh : ∀ a ∈ A, Live a ∧ (k.hitBank + 1) / 2 < (a + 1) / 2 ∧ (t.entries a (k.gi a)).u = 0
  length : A.length ≤ 2

theorem Taken.keep (h : Taken k t t' A) (hk : KeepsTags t' t'') : Taken k t t'' A :=
  ⟨fun i j hnot => (hk i j).trans (h.kept i j hnot), h.fresh, h.length⟩

theorem taken_none (k : Lookup) (h : KeepsTags t t') : Taken k t t' [] :=
  ⟨fun i j _ => h i j, fun _ ha => absurd ha List.not_mem_nil, Nat.zero_le 2⟩

theorem allocateEntries_spec (h : Sound t) (hk : LookupFits k) (r : Bool) (d : Draws) :
    ∃ t' A, allocateEntries t k r d = some t' ∧ Sound t' ∧ Taken k t t' A := by
  obtain ⟨t', b', A, hloop, hsound, hrep, hlen⟩ :=
    allocateLoop_spec hk r (nhist - 1) _ 1 (hitBank_le_depth hk d) (by simp only [nhist]; omega)
      ⟨0, 0⟩ h
  have htick := Sound.updateTick hsound b'
  refine ⟨updateTick t' b', A, ?_, htick.1, ?_⟩
  · have hsucc : nhist - 1 + 1 = nhist := rfl
    rw [hsucc, Int.natCast_one] at hloop
    rw [allocateEntries, hloop]
    rfl
  · exact Taken.keep ⟨hrep.kept, hrep.fresh, hlen⟩ htick.2

theorem updateUseAlt_spec (h : Sound t) (hk : LookupFits k) (r : Bool) :
    ∃ t' alloc, updateUseAlt t k r = some (t', alloc) ∧ Sound t' ∧ t'.low = t.low ∧ t'.high = t.high := by
  rw [updateUseAlt]
  by_cases hhit : 0 < k.hitBank
  · have hlive := hk.hit.resolve_left (Nat.ne_of_gt hhit)
    rw [if_pos hhit, read_eq hlive (hk.gi _ hlive), Option.map_some]
    by_cases hnew : confidence (t.entries k.hitBank (k.gi k.hitBank)).ctr ≤ 1
    · rw [if_pos hnew]
      refine ⟨_, _, rfl, ?_, ?_, ?_⟩
      · by_cases hdiff : k.longestMatchPred ≠ k.altTaken
        · rw [if_pos hdiff]
          refine ⟨h.low, h.high, h.bimodal, ?_, h.tick⟩
          intro j
          dsimp only
          by_cases hj : j = indUseAlt k.hitBank k.altConf
          · rw [hj, Function.update_self]
            exact ctrupdate_five (h.useAlt _).1 (h.useAlt _).2 _
          · rw [Function.update_of_ne hj]
            exact h.useAlt j
        · rw [if_neg hdiff]
          exact h
      · split_ifs <;> rfl
      · split_ifs <;> rfl
    · rw [if_neg hnew]
      exact ⟨_, _, rfl, h, rfl, rfl⟩
  · rw [if_neg hhit]
    exact ⟨_, _, rfl, h, rfl, rfl⟩

theorem Sound.baseupdate (h : Sound t) (hk : LookupFits k) (r : Bool) : Sound (baseupdate t k r) := by
  refine ⟨h.low, h.high, ?_, h.useAlt, h.tick⟩
  have hbim := hk.bim
  have hinter :
    (if r then if k.bim < 3 then k.bim + 1 else k.bim else if 0 < k.bim then k.bim - 1 else k.bim) ≤ 3 := by
    split_ifs <;> omega
  revert hinter
  simp only [TageTables.baseupdate]
  generalize
    (if r then if k.bim < 3 then k.bim + 1 else k.bim else if 0 < k.bim then k.bim - 1 else k.bim) =
    inter
  intro hinter
  have hpred : ∀ j, (Function.update t.btable k.bi { t.btable k.bi with pred := inter >>> 1 } j).hyst ≤ 1 ∧
      (Function.update t.btable k.bi { t.btable k.bi with pred := inter >>> 1 } j).pred ≤ 1 := by
    intro j
    by_cases hj : j = k.bi
    · rw [hj, Function.update_self]
      refine ⟨(h.bimodal k.bi).1, ?_⟩
      simp only [Nat.shiftRight_succ, Nat.shiftRight_zero]
      omega
    · rw [Function.update_of_ne hj]
      exact h.bimodal j
  intro j
  by_cases hj : j = k.bi >>> hystShift
  · rw [hj, Function.update_self]
    refine ⟨?_, (hpred _).2⟩
    have hand := Nat.and_lt_two_pow inter (by decide : 1 < 2 ^ 1)
    dsimp only
    omega
  · rw [Function.update_of_ne hj]
    exact hpred j

theorem updateBehind_spec (h : Sound t) (hk : LookupFits k) (hhit : Live k.hitBank) (r : Bool) :
    ∃ t', updateBehind t k r = some t' ∧ Sound t' ∧ KeepsTags t t' := by
  rw [updateBehind, read_eq hhit (hk.gi _ hhit), Option.bind_some]
  split_ifs with hnew halt
  · have hlive := hk.alt.resolve_left (Nat.ne_of_gt halt)
    have hfit := h.entries k.altBank (k.gi k.altBank)
    rw [modify_eq hlive (hk.gi _ hlive)]
    refine ⟨_, rfl, h.put ⟨?_, ?_, hfit.tag, hfit.u⟩, ?_⟩
    · exact (ctrupdate_three hfit.lower hfit.upper r).1
    · exact (ctrupdate_three hfit.lower hfit.upper r).2
    · apply put_part GEntry.tag
      rfl
  · exact ⟨_, rfl, Sound.baseupdate h hk r, fun _ _ => rfl⟩
  · exact ⟨t, rfl, h, fun _ _ => rfl⟩

theorem updateHit_spec (h : Sound t) (hk : LookupFits k) (hhit : Live k.hitBank) (r : Bool) :
    ∃ t', updateHit t k r = some t' ∧ Sound t' ∧ KeepsTags t t' := by
  have hfit := h.entries k.hitBank (k.gi k.hitBank)
  rw [updateHit, modify_eq hhit (hk.gi _ hhit)]
  refine ⟨_, rfl, h.put ⟨?_, ?_, hfit.tag, ?_⟩, ?_⟩
  · exact (ctrupdate_three hfit.lower hfit.upper r).1
  · exact (ctrupdate_three hfit.lower hfit.upper r).2
  · have hu := hfit.u
    dsimp only
    split_ifs <;> omega
  · apply put_part GEntry.tag
    rfl

theorem dropUseful_spec (h : Sound t) (hk : LookupFits k) (hhit : Live k.hitBank) (r : Bool) :
    ∃ t', dropUseful t k r = some t' ∧ Sound t' ∧ KeepsTags t t' := by
  rw [dropUseful]
  by_cases halt : k.altTaken = r ∧ 0 < k.altBank
  · have hlive := hk.alt.resolve_left (Nat.ne_of_gt halt.2)
    rw [if_pos halt, read_eq hlive (hk.gi _ hlive), Option.bind_some]
    split_ifs
    · have hfit := h.entries k.hitBank (k.gi k.hitBank)
      rw [modify_eq hhit (hk.gi _ hhit)]
      refine ⟨_, rfl, h.put ?_, ?_⟩
      · split_ifs
        · exact ⟨hfit.lower, hfit.upper, hfit.tag, Nat.zero_le 1⟩
        · exact hfit
      · apply put_part GEntry.tag
        split_ifs <;> rfl
    · exact ⟨t, rfl, h, fun _ _ => rfl⟩
  · rw [if_neg halt]
    exact ⟨t, rfl, h, fun _ _ => rfl⟩

theorem updateCounters_spec (h : Sound t) (hk : LookupFits k) (r : Bool) :
    ∃ t', updateCounters t k r = some t' ∧ Sound t' ∧ KeepsTags t t' := by
  rw [updateCounters]
  by_cases hhit : 0 < k.hitBank
  · have hlive := hk.hit.resolve_left (Nat.ne_of_gt hhit)
    obtain ⟨t₁, hbehind, hsound₁, hkeep₁⟩ := updateBehind_spec h hk hlive r
    obtain ⟨t₂, hupdate, hsound₂, hkeep₂⟩ := updateHit_spec hsound₁ hk hlive r
    obtain ⟨t₃, hdrop, hsound₃, hkeep₃⟩ := dropUseful_spec hsound₂ hk hlive r
    rw [if_pos hhit, hbehind]
    simp only [Option.bind_eq_bind, Option.bind_some, hupdate]
    exact ⟨t₃, hdrop, hsound₃, fun i j => (hkeep₃ i j).trans ((hkeep₂ i j).trans (hkeep₁ i j))⟩
  · rw [if_neg hhit]
    exact ⟨_, rfl, Sound.baseupdate h hk r, fun _ _ => rfl⟩

theorem markUseful_spec (h : Sound t) (hk : LookupFits k) (r : Bool) :
    ∃ t', markUseful t k r = some t' ∧ Sound t' ∧ KeepsTags t t' := by
  rw [markUseful]
  by_cases hmark : k.longestMatchPred ≠ k.altTaken ∧ k.longestMatchPred = r
  · have hlive := hk.hit.resolve_left (fun hzero => hmark.1 (hk.base hzero))
    have hfit := h.entries k.hitBank (k.gi k.hitBank)
    rw [if_pos hmark, modify_eq hlive (hk.gi _ hlive)]
    refine ⟨_, rfl, h.put ?_, ?_⟩
    · split_ifs with hu
      · refine ⟨hfit.lower, hfit.upper, hfit.tag, ?_⟩
        dsimp only
        omega
      · exact hfit
    · apply put_part GEntry.tag
      split_ifs <;> rfl
  · rw [if_neg hmark]
    exact ⟨t, rfl, h, fun _ _ => rfl⟩

theorem updateTables_spec (h : Sound t) (hk : LookupFits k) (ev : Event) :
    ∃ t' A, updateTables t k ev = some t' ∧ Sound t' ∧ Taken k t t' A := by
  obtain ⟨t₁, alloc, huse, hsound₁, hlow, hhigh⟩ := updateUseAlt_spec h hk ev.branch.taken
  have hentries : ∀ i j, t₁.entries i j = t.entries i j := by
    intro i j
    rw [Tables.entries, Tables.entries, hlow, hhigh]
  simp only [updateTables, huse, Option.bind_eq_bind, Option.bind_some]
  generalize (if ev.predTaken = ev.branch.taken ∧ ev.draws.keep &&& 31 ≠ 0 then false else alloc) = go
  have hmiddle : ∃ t₂ A,
    (if go = true then allocateEntries t₁ k ev.branch.taken ev.draws else some t₁) = some t₂ ∧
      Sound t₂ ∧ Taken k t t₂ A := by
    cases go with
    | false => exact ⟨t₁, [], rfl, hsound₁, taken_none k (fun i j => by rw [hentries])⟩
    | true =>
        obtain ⟨t₂, A, halloc, hsound₂, htaken⟩ := allocateEntries_spec hsound₁ hk ev.branch.taken ev.draws
        refine ⟨t₂, A, halloc, hsound₂, ?_, ?_, htaken.length⟩
        · intro i j hnot
          rw [htaken.kept i j hnot, hentries]
        · intro a ha
          rw [← hentries]
          exact htaken.fresh a ha
  obtain ⟨t₂, A, halloc, hsound₂, htaken⟩ := hmiddle
  obtain ⟨t₃, hcount, hsound₃, hkeep₃⟩ := updateCounters_spec hsound₂ hk ev.branch.taken
  obtain ⟨t₄, hmark, hsound₄, hkeep₄⟩ := markUseful_spec hsound₃ hk ev.branch.taken
  rw [halloc, Option.bind_some, hcount, Option.bind_some]
  exact ⟨t₄, A, hmark, hsound₄, (htaken.keep hkeep₃).keep hkeep₄⟩

end Update

section Runs

variable {mask : Nat → Nat} {L : Lengths} {s s' : State} {i j : Nat}

theorem place_inj_short : ∀ i ∈ shortTables, ∀ j ∈ shortTables, noskip i = true → noskip j = true →
    place shortTables i = place shortTables j → i = j := by decide

theorem place_inj_long : ∀ i ∈ longTables, ∀ j ∈ longTables, noskip i = true → noskip j = true →
    place longTables i = place longTables j → i = j := by decide +kernel

theorem place_lt_short : ∀ i ∈ shortTables, place shortTables i < nbankLow := by decide

theorem place_lt_long : ∀ i ∈ longTables, noskip i = true → place longTables i < nbankHigh := by decide +kernel

theorem bank_of_index {x y a b : Nat} (hx : x < 2 ^ logg) (hy : y < 2 ^ logg)
    (h : x + a <<< logg = y + b <<< logg) : a = b := by
  rw [Nat.shiftLeft_eq, Nat.shiftLeft_eq] at h
  have hdiv := congrArg (· / 2 ^ logg) h
  rwa [Nat.add_mul_div_right _ _ (Nat.two_pow_pos _), Nat.add_mul_div_right _ _ (Nat.two_pow_pos _),
    Nat.div_eq_of_lt hx,
    Nat.div_eq_of_lt hy, Nat.zero_add, Nat.zero_add] at hdiv

/-- Two tables that take part in a lookup never share an entry: there are no more tables than banks,
so one round gives each its own. -/
theorem indices_apart (mask : Nat → Nat) (L : Lengths) (s : Histories) (pc : Nat) (hi : Live i) (hj : Live j)
    (harray : SameArray i j) (h : indices mask L s pc i = indices mask L s pc j) : i = j := by
  obtain ⟨T, heq, rfl⟩ := indices_eq mask L s pc hi
  obtain ⟨T', heq', rfl⟩ := indices_eq mask L s pc hj
  rw [heq, heq'] at h
  have hbank := bank_of_index (gindexAt_lt L s pc i) (gindexAt_lt L s pc j) h
  rcases mem_tables hi with ⟨hlt, hmem, -⟩ | ⟨hle, hmem, -⟩
  · have hlt' := harray.mp hlt
    have hmem' : j ∈ shortTables :=
      (mem_tables hj).elim (fun h => h.2.1) (fun h => absurd hlt' (Nat.not_lt_of_ge h.1))
    simp only [if_pos hlt, if_pos hlt'] at hbank
    exact place_inj_short i hmem j hmem' hi.part hj.part
      (Lib.Rings.place_inj (place_lt_short i hmem) (place_lt_short j hmem') hbank)
  · have hnot := Nat.not_lt_of_ge hle
    have hnot' : ¬j < born := fun hlt => hnot (harray.mpr hlt)
    have hmem' : j ∈ longTables := (mem_tables hj).elim (fun h => absurd h.1 hnot') (fun h => h.2.1)
    simp only [if_neg hnot, if_neg hnot'] at hbank
    exact place_inj_long i hmem j hmem' hi.part hj.part
      (Lib.Rings.place_inj (place_lt_long i hmem hi.part) (place_lt_long j hmem' hj.part) hbank)

/-- What the predictor keeps over a run: widths, and the counters that index tables. -/
structure Good (s : State) : Prop where
  tables : Sound s.tables
  phist : s.hist.phist < 2 ^ phistWidth
  imli : s.hist.imliCount ≤ 255

theorem shiftLoop_imli (n t path : Nat) (h : Histories) : (shiftLoop n t path h).imliCount = h.imliCount := by
  induction n generalizing t path h with
  | zero => rfl
  | succ n ih => exact (ih _ _ _).trans rfl

theorem historyUpdate_imli {h : Histories} (hle : h.imliCount ≤ 255) (b : TageHistory.Branch) :
    (historyUpdate h b).imliCount ≤ 255 := by
  have heq : (historyUpdate h b).imliCount = (updateImli h b).imliCount := by
    simp only [historyUpdate, shiftLoop_imli, updateLocal]
    split_ifs <;> rfl
  rw [heq, updateImli]
  by_cases hcond : brtype b.opType &&& 1 ≠ 0
  · simp only [if_pos hcond]
    split_ifs <;> omega
  · rw [if_neg hcond]
    exact hle

theorem step_spec (mask : Nat → Nat) (L : Lengths) (h : Good s) (ev : Event) : ∃ k s' A,
    tagePredict mask L s.hist s.tables ev.branch.pc = some k ∧
    step mask L s ev = some s' ∧ Good s' ∧ Taken k s.tables s'.tables A ∧ LookupFits k ∧
    k.gi = indices mask L s.hist ev.branch.pc := by
  obtain ⟨k, hk, hfits, hgi, -⟩ := h.tables.tagePredict mask L s.hist ev.branch.pc
  obtain ⟨t, A, ht, hsound, htaken⟩ := updateTables_spec h.tables hfits ev
  refine ⟨k, ⟨historyUpdate s.hist ev.branch, t⟩, A, hk, ?_, ⟨hsound, ?_, ?_⟩, htaken, hfits, hgi⟩
  · simp only [step, hk, ht, Option.bind_eq_bind, Option.bind_some]
  · exact and_lt _ phistWidth
  · exact historyUpdate_imli h.imli ev.branch

theorem good_start (L : Lengths) : Good (start L) :=
  ⟨sound_initial, Nat.two_pow_pos phistWidth, Nat.zero_le 255⟩

theorem Good.run (h : Good s) (mask : Nat → Nat) (L : Lengths) (evs : List Event) :
    ∃ s', run (step mask L) s evs = some s' ∧ Good s' := by
  apply run_total (I := Good) _ h
  intro s ev _ hs
  obtain ⟨-, s', -, -, hstep, hgood, -⟩ := step_spec mask L hs ev
  exact ⟨s', hstep, hgood⟩

/-- Over any branches, whatever the corrector makes of the predictions and whatever the random
numbers are, the predictor never leaves its tables, and all that they hold keeps its width. -/
theorem banks_in_range (mask : Nat → Nat) (L : Lengths) (evs : List Event) :
    ∃ s, run (step mask L) (start L) evs = some s ∧ Good s :=
  (good_start L).run mask L evs

/-- How far back the branches lie that a table depends on. Table 0 is the bimodal one. -/
def looksBack (L : Lengths) (i : Nat) : Nat := if i = 0 then 0 else L.m i

/-- The lengths grow, as those that come from `pow` do. -/
structure Grows (L : Lengths) : Prop where
  pos : 0 < L.geometric 1
  strict : ∀ i j, 1 ≤ i → i < j → j ≤ nhist / 2 → L.geometric i < L.geometric j

theorem Grows.looksBack_lt {L : Lengths} (h : Grows L) (hj : Live j) (hlt : (i + 1) / 2 < (j + 1) / 2) :
    looksBack L i < looksBack L j := by
  have hle : (j + 1) / 2 ≤ nhist / 2 := by
    have hle := hj.le
    simp only [nhist] at hle ⊢
    omega
  rw [looksBack, looksBack, if_neg (Nat.ne_of_gt hj.pos), Lengths.m]
  split_ifs with hi
  · rcases Nat.lt_or_eq_of_le (show 1 ≤ (j + 1) / 2 by omega) with hone | hone
    · exact lt_trans h.pos (h.strict 1 _ (Nat.le_refl 1) hone hle)
    · rw [Lengths.m, ← hone]
      exact h.pos
  · exact h.strict _ _ (by omega) hlt hle

/-- A branch gives at most two entries away, each of a table that looks back further than the one
that matched and none that was found useful; the entry that matched stays, since no other table
reads it. -/
theorem run_taken (mask : Nat → Nat) (L : Lengths) (evs : List Event) (ev : Event) :
    ∃ s k s' A, run (step mask L) (start L) evs = some s ∧
      tagePredict mask L s.hist s.tables ev.branch.pc = some k ∧
      step mask L s ev = some s' ∧ Taken k s.tables s'.tables A ∧
      (Grows L → ∀ a ∈ A, looksBack L k.hitBank < looksBack L a) ∧
      (k.hitBank ≠ 0 → (s'.tables.entries k.hitBank (k.gi k.hitBank)).tag =
        (s.tables.entries k.hitBank (k.gi k.hitBank)).tag) := by
  obtain ⟨s, hrun, hgood⟩ := (good_start L).run mask L evs
  obtain ⟨k, s', A, hk, hstep, -, htaken, hfits, hgi⟩ := step_spec mask L hgood ev
  refine ⟨s, k, s', A, hrun, hk, hstep, htaken, ?_, ?_⟩
  · intro hgrows a ha
    obtain ⟨hlive, hlt, -⟩ := htaken.fresh a ha
    exact hgrows.looksBack_lt hlive hlt
  · intro hhit
    apply htaken.kept
    rintro a ha ⟨harray, hsame⟩
    obtain ⟨hlive, hlt, -⟩ := htaken.fresh a ha
    rw [hgi] at hsame
    have heq := indices_apart mask L s.hist ev.branch.pc hlive (hfits.hit.resolve_left hhit) harray hsame
    omega

def rounded : Lengths where
  geometric i := [0, 6, 9, 12, 18, 26, 37, 54, 78, 112, 161, 232, 335, 482, 695, 1002, 1444, 2081, 3000].getD i 0
  le_maxHist := by
    intro i
    rw [List.getD_eq_getElem?_getD]
    cases hi : ([0, 6, 9, 12, 18, 26, 37, 54, 78, 112, 161, 232, 335, 482, 695, 1002, 1444, 2081, 3000] : List Nat)[i]? with
    | none => exact Nat.zero_le _
    | some n =>
        have hall : ∀ n ∈ [0, 6, 9, 12, 18, 26, 37, 54, 78, 112, 161, 232, 335, 482, 695, 1002, 1444, 2081, 3000],
            n ≤ maxHist := by decide
        exact hall n (List.mem_of_getElem? hi)

def surprise (taken : Bool) : Event := ⟨⟨4096, .conditional, taken, 8192⟩, !taken, ⟨0, 0, 0⟩⟩

theorem run_taken_rounded : ∃ s k s' A,
    run (step (fun _ => 0) rounded) (start rounded) [surprise true, surprise false] = some s ∧
      step (fun _ => 0) rounded s (surprise true) = some s' ∧ Taken k s.tables s'.tables A ∧
      ∀ a ∈ A, looksBack rounded k.hitBank < looksBack rounded a := by
  obtain ⟨s, k, s', A, hrun, -, hstep, htaken, hback, -⟩ :=
    run_taken (fun _ => 0) rounded [surprise true, surprise false] (surprise true)
  have hstrict : ∀ j ≤ nhist / 2, ∀ i < j, 1 ≤ i → rounded.geometric i < rounded.geometric j := by decide
  exact ⟨s, k, s', A, hrun, hstep, htaken, hback ⟨by decide, fun i j hi hlt hle => hstrict j hle i hlt hi⟩⟩

end Runs

end Thermometer.TageBanks
