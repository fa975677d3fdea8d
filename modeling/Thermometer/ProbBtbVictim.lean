import Mathlib.Data.List.Induction
import Thermometer.ProbBtb

namespace Thermometer.ProbBtbVictim

open Trace Lib.Tables ProbBtb

def rrpvOf (t : Table Entry) (k : Nat) : Nat := ((t.lookup k).map Entry.rrpv).getD 0

def Before (config : Config) (record : Table Taken) (o : IterOrder) (t : Table Entry) (k j : Nat) : Prop :=
  let p := takenProbability config record
  match config.replaceType with
  | .prob => p k < p j ∨ (p k = p j ∧ (o.order t.keys).idxOf j < (o.order t.keys).idxOf k)
  | .probSrrip => p k < p j ∨ (p k = p j ∧ (rrpvOf t j < rrpvOf t k ∨ (rrpvOf t j = rrpvOf t k ∧ j < k)))
  | .srripProb => rrpvOf t j < rrpvOf t k ∨ (rrpvOf t j = rrpvOf t k ∧ (p k < p j ∨ (p k = p j ∧ k < j)))

def Chosen (config : Config) (record : Table Taken) (o : IterOrder) (t : Table Entry) (v : Nat) : Prop :=
  v ∈ t ∧ ∀ j ∈ t, j ≠ v → Before config record o t v j

structure Aged (t t' : Table Entry) : Prop where
  size : size t' = size t
  mem : ∀ k, k ∈ t' ↔ k ∈ t
  near : ∀ k e, t'.lookup k = some e → e.rrpv ≤ srripDistantInterval

section Order

variable {config : Config} {record : Table Taken} {o : IterOrder} {t : Table Entry} {k j v w : Nat}

theorem Before.asymm (h : Before config record o t k j) : ¬Before config record o t j k := by
  intro h'
  cases hmode : config.replaceType with
  | prob =>
      simp only [Before, hmode] at h h'
      rcases h with h | ⟨heq, h⟩
      · rcases h' with h' | ⟨heq', -⟩
        · exact lt_asymm h h'
        · exact h.ne heq'.symm
      · rcases h' with h' | ⟨-, h'⟩
        · exact h'.ne heq.symm
        · exact lt_asymm h h'
  | probSrrip =>
      simp only [Before, hmode] at h h'
      rcases h with h | ⟨heq, h⟩
      · rcases h' with h' | ⟨heq', -⟩
        · exact lt_asymm h h'
        · exact h.ne heq'.symm
      · rcases h' with h' | ⟨-, h'⟩
        · exact h'.ne heq.symm
        · omega
  | srripProb =>
      simp only [Before, hmode] at h h'
      rcases h with h | ⟨heq, h⟩
      · rcases h' with h' | ⟨heq', -⟩ <;> omega
      · rcases h' with h' | ⟨-, h'⟩
        · omega
        · rcases h with h | ⟨heq, h⟩
          · rcases h' with h' | ⟨heq', -⟩
            · exact lt_asymm h h'
            · exact h.ne heq'.symm
          · rcases h' with h' | ⟨-, h'⟩
            · exact h'.ne heq.symm
            · exact lt_asymm h h'

theorem Chosen.unique (h : Chosen config record o t v) (h' : Chosen config record o t w) : v = w := by
  by_contra hne
  exact (h.2 w h'.1 (Ne.symm hne)).asymm (h'.2 v h.1 hne)

theorem Chosen.le (h : Chosen config record o t v) (hmode : config.replaceType ≠ .srripProb) (hj : j ∈ t) :
    takenProbability config record v ≤ takenProbability config record j := by
  by_cases hne : j = v
  · rw [hne]
  · have hbefore := h.2 j hj hne
    cases hcase : config.replaceType with
    | prob =>
        simp only [Before, hcase] at hbefore
        exact hbefore.elim le_of_lt (fun h => h.1.le)
    | probSrrip =>
        simp only [Before, hcase] at hbefore
        exact hbefore.elim le_of_lt (fun h => h.1.le)
    | srripProb => exact absurd hcase hmode

theorem rrpvOf_eq {e : Entry} (h : t.lookup k = some e) : rrpvOf t k = e.rrpv := by
  rw [rrpvOf, h]
  rfl

theorem Aged.refl (h : ∀ k e, t.lookup k = some e → e.rrpv ≤ srripDistantInterval) : Aged t t :=
  ⟨rfl, fun _ => Iff.rfl, h⟩

end Order

section Scans

variable (config : Config) (record : Table Taken)

theorem probScan {l : List (Nat × Entry)} (hl : l ≠ []) : ∃ before a after, l = before ++ a :: after ∧
    l.foldl (probStep config record) (⊤, 0) = (↑(takenProbability config record a.1), a.1) ∧
    (∀ b ∈ before, takenProbability config record a.1 ≤ takenProbability config record b.1) ∧
    ∀ b ∈ after, takenProbability config record a.1 < takenProbability config record b.1 := by
  induction l using List.reverseRecOn with
  | nil => exact absurd rfl hl
  | append_singleton l c ih =>
      by_cases hnil : l = []
      · subst hnil
        refine ⟨[], c, [], rfl, ?_, fun b hb => absurd hb List.not_mem_nil, fun b hb => absurd hb List.not_mem_nil⟩
        rw [List.nil_append, List.foldl_cons, List.foldl_nil]
        have htop : ((takenProbability config record c.1 : ℚ) : WithTop ℚ) ≤ ⊤ := le_top
        simp only [probStep, if_pos htop]
      · obtain ⟨before, a, after, hsplit, hfold, hbefore, hafter⟩ := ih hnil
        rw [List.foldl_append, hfold, List.foldl_cons, List.foldl_nil]
        simp only [probStep, WithTop.coe_le_coe]
        by_cases hle : takenProbability config record c.1 ≤ takenProbability config record a.1
        · refine ⟨l, c, [], rfl, if_pos hle, fun b hb => ?_, fun b hb => absurd hb List.not_mem_nil⟩
          rw [hsplit] at hb
          rcases List.mem_append.mp hb with hb | hb
          · exact hle.trans (hbefore b hb)
          · rcases List.mem_cons.mp hb with rfl | hb
            · exact hle
            · exact hle.trans (hafter b hb).le
        · refine ⟨before, a, after ++ [c], ?_, if_neg hle, hbefore, fun b hb => ?_⟩
          · rw [hsplit, List.append_assoc, List.cons_append]
          · rcases List.mem_append.mp hb with hb | hb
            · exact hafter b hb
            · rw [List.mem_singleton.mp hb]
              exact not_le.mp hle

/-- That of `prob_srrip_evict` ends with all the entries of the least probability. -/
theorem probSrripScan {l : List (Nat × Entry)} (hl : l ≠ []) : ∃ m : ℚ,
    l.foldl (probSrripStep config record) (⊤, []) =
      (↑m, ((l.filter (fun a => takenProbability config record a.1 = m)).map (fun a => toLex (a.2.rrpv, a.1))).reverse) ∧
    (∃ a ∈ l, takenProbability config record a.1 = m) ∧ ∀ a ∈ l, m ≤ takenProbability config record a.1 := by
  induction l using List.reverseRecOn with
  | nil => exact absurd rfl hl
  | append_singleton l c ih =>
      by_cases hnil : l = []
      · subst hnil
        refine ⟨takenProbability config record c.1, ?_, ⟨c, List.mem_singleton_self c, rfl⟩, fun a ha => ?_⟩
        · simp [probSrripStep]
        · rw [List.mem_singleton.mp ha]
      · obtain ⟨m, hfold, hleast, hle⟩ := ih hnil
        rw [List.foldl_append, hfold, List.foldl_cons, List.foldl_nil]
        simp only [probSrripStep, WithTop.coe_lt_coe, List.filter_append, List.map_append, List.reverse_append]
        rcases lt_trichotomy (takenProbability config record c.1) m with hlt | heq | hgt
        · refine ⟨takenProbability config record c.1, ?_, ⟨c, by simp, rfl⟩, fun a ha => ?_⟩
          · have hnone : l.filter (fun a => takenProbability config record a.1 = takenProbability config record c.1) = [] := by
              rw [List.filter_eq_nil_iff]
              intro a ha
              rw [decide_eq_true_iff]
              exact (hlt.trans_le (hle a ha)).ne'
            rw [hnone]
            simp [hlt]
          · rcases List.mem_append.mp ha with ha | ha
            · exact hlt.le.trans (hle a ha)
            · rw [List.mem_singleton.mp ha]
        · refine ⟨m, ?_, ⟨c, by simp, heq⟩, fun a ha => ?_⟩
          · simp [heq]
          · rcases List.mem_append.mp ha with ha | ha
            · exact hle a ha
            · rw [List.mem_singleton.mp ha, heq]
        · obtain ⟨d, hd, hp⟩ := hleast
          refine ⟨m, ?_, ⟨d, List.mem_append_left _ hd, hp⟩, fun a ha => ?_⟩
          · simp [hgt.ne', not_lt.mpr hgt.le]
          · rcases List.mem_append.mp ha with ha | ha
            · exact hle a ha
            · rw [List.mem_singleton.mp ha]
              exact hgt.le

end Scans

section Evict

variable {config : Config} {record : Table Taken} {o : IterOrder} {t : Table Entry}

theorem iterate_ne_nil (hsize : size t ≠ 0) : iterate o t ≠ [] := mt (iterate_eq_nil o t).mp hsize

theorem mem_of_iterate {a : Nat × Entry} (ha : a ∈ iterate o t) : a.1 ∈ t :=
  (mem_iff_lookup t a.1).mpr ⟨a.2, (mem_iterate o t a.1 a.2).mp ha⟩

theorem exists_iterate {k : Nat} (hk : k ∈ t) : ∃ e, (k, e) ∈ iterate o t ∧ t.lookup k = some e := by
  obtain ⟨e, he⟩ := (mem_iff_lookup t k).mp hk
  exact ⟨e, (mem_iterate o t k e).mpr he, he⟩

theorem probEvict_chosen (hmode : config.replaceType = .prob) (hsize : size t ≠ 0) :
    Chosen config record o t (probEvict config record o t) := by
  obtain ⟨before, a, after, hsplit, hfold, hbefore, hafter⟩ :=
    probScan config record (iterate_ne_nil (o := o) hsize)
  have hkeys : o.order t.keys = before.map Prod.fst ++ a.1 :: after.map Prod.fst := by
    rw [← iterate_keys, hsplit, List.map_append, List.map_cons]
  have hnodup := (o.perm t.keys).nodup_iff.mpr t.keys_nodup
  rw [hkeys] at hnodup
  have hnew : a.1 ∉ before.map Prod.fst := by
    intro hmem
    exact (List.nodup_append.mp hnodup).2.2 _ hmem _ List.mem_cons_self rfl
  have hvictim : probEvict config record o t = a.1 := by rw [probEvict, hfold]
  rw [hvictim]
  refine ⟨mem_of_iterate (o := o) (hsplit ▸ List.mem_append_right _ List.mem_cons_self), fun j hj hne => ?_⟩
  obtain ⟨e, hmem, -⟩ := exists_iterate (o := o) hj
  simp only [Before, hmode]
  rw [hsplit] at hmem
  rcases List.mem_append.mp hmem with hmem | hmem
  · rcases (hbefore _ hmem).lt_or_eq with hlt | heq
    · exact .inl hlt
    · refine .inr ⟨heq, ?_⟩
      have hj' : j ∈ before.map Prod.fst := List.mem_map_of_mem (f := Prod.fst) hmem
      rw [hkeys, List.idxOf_append_of_mem hj', List.idxOf_append_of_notMem hnew]
      exact Nat.lt_add_right _ (List.idxOf_lt_length_of_mem hj')
  · rcases List.mem_cons.mp hmem with rfl | hmem
    · exact absurd rfl hne
    · exact .inl (hafter _ hmem)

theorem raise_aged (result : ℕ ×ₗ ℕ) {queue : List (ℕ ×ₗ ℕ)} (hresult : (ofLex result).1 ≤ srripDistantInterval)
    (hqueue : ∀ x ∈ queue, ∃ e, t.lookup (ofLex x).2 = some e ∧ e.rrpv ≤ (ofLex result).1)
    (hnodup : (queue.map (fun x => (ofLex x).2)).Nodup) (hnear : ∀ k e, t.lookup k = some e → e.rrpv ≤ srripDistantInterval) :
    Aged t (queue.foldl (fun t top => modify t (ofLex top).2
      (fun e => { e with rrpv := e.rrpv + (srripDistantInterval - (ofLex result).1) })) t) := by
  induction queue generalizing t with
  | nil => exact .refl hnear
  | cons x queue ih =>
      rw [List.map_cons, List.nodup_cons] at hnodup
      rw [List.foldl_cons]
      generalize hstep : modify t (ofLex x).2
        (fun e => { e with rrpv := e.rrpv + (srripDistantInterval - (ofLex result).1) }) = u
      have hlookup : ∀ k, u.lookup k = if k = (ofLex x).2 then (t.lookup (ofLex x).2).map
          (fun e => { e with rrpv := e.rrpv + (srripDistantInterval - (ofLex result).1) }) else t.lookup k := by
        intro k
        rw [← hstep, lookup_modify]
      have hrest := ih (t := u) (fun y hy => ?_) hnodup.2 (fun k e he => ?_)
      · refine ⟨?_, fun k => ?_, hrest.near⟩
        · rw [hrest.size, ← hstep, size_modify]
        · rw [hrest.mem, ← hstep, mem_modify]
      · have hne : (ofLex y).2 ≠ (ofLex x).2 := by
          intro heq
          exact hnodup.1 (heq ▸ List.mem_map_of_mem (f := fun x : ℕ ×ₗ ℕ => (ofLex x).2) hy)
        rw [hlookup, if_neg hne]
        exact hqueue y (List.mem_cons_of_mem x hy)
      · rw [hlookup] at he
        split_ifs at he with hk
        · obtain ⟨d, hd, hle⟩ := hqueue x List.mem_cons_self
          rw [hd, Option.map_some, Option.some.injEq] at he
          rw [← he]
          simp only
          omega
        · exact hnear k e he

theorem probSrripEvict_chosen (hmode : config.replaceType = .probSrrip) (hsize : size t ≠ 0)
    (hnear : ∀ k e, t.lookup k = some e → e.rrpv ≤ srripDistantInterval) :
    ∃ v t', probSrripEvict config record o t = some (v, t') ∧ Chosen config record o t v ∧ Aged t t' := by
  obtain ⟨m, hfold, ⟨d, hd, hp⟩, hle⟩ := probSrripScan config record (iterate_ne_nil (o := o) hsize)
  generalize hqueue : ((iterate o t).foldl (probSrripStep config record) (⊤, [])).2 = queue
  have hmem : ∀ x, x ∈ queue ↔ ∃ a ∈ iterate o t, takenProbability config record a.1 = m ∧ toLex (a.2.rrpv, a.1) = x := by
    intro x
    rw [← hqueue, hfold, List.mem_reverse, List.mem_map]
    simp only [List.mem_filter, decide_eq_true_iff, and_assoc]
  have hnodup : (queue.map (fun x => (ofLex x).2)).Nodup := by
    rw [← hqueue, hfold, List.map_reverse, List.nodup_reverse, List.map_map]
    exact (nodup_iterate_keys o t).sublist (List.Sublist.map _ List.filter_sublist)
  have hne : queue ≠ [] := List.ne_nil_of_mem ((hmem _).mpr ⟨d, hd, hp, rfl⟩)
  obtain ⟨result, hresult⟩ := Option.ne_none_iff_exists'.mp (mt List.max?_eq_none_iff.mp hne)
  obtain ⟨htop, hmax⟩ := List.max?_eq_some_iff.mp hresult
  obtain ⟨a, ha, hpa, rfl⟩ := (hmem result).mp htop
  have hlookup : t.lookup a.1 = some a.2 := (mem_iterate o t a.1 a.2).mp ha
  have hage : a.2.rrpv ≤ srripDistantInterval := hnear _ _ hlookup
  have hbounded : ∀ x ∈ queue, ∃ e, t.lookup (ofLex x).2 = some e ∧ e.rrpv ≤ a.2.rrpv := by
    intro x hx
    have hxle := hmax x hx
    obtain ⟨b, hb, -, rfl⟩ := (hmem x).mp hx
    refine ⟨b.2, (mem_iterate o t b.1 b.2).mp hb, ?_⟩
    rw [Prod.Lex.toLex_le_toLex] at hxle
    exact hxle.elim le_of_lt (fun h => h.1.le)
  refine ⟨a.1, _, ?_, ⟨mem_of_iterate ha, fun j hj hne => ?_⟩, raise_aged (toLex (a.2.rrpv, a.1)) hage hbounded hnodup hnear⟩
  · simp only [probSrripEvict, hqueue, hresult, Option.bind_eq_bind, Option.bind_some]
    exact if_pos hage
  · obtain ⟨e, hmemj, hlookupj⟩ := exists_iterate (o := o) hj
    simp only [Before, hmode, hpa]
    rcases (hle _ hmemj).lt_or_eq with hlt | heq
    · exact .inl hlt
    · refine .inr ⟨heq, ?_⟩
      have hxle := hmax _ ((hmem _).mpr ⟨(j, e), hmemj, heq.symm, rfl⟩)
      rw [Prod.Lex.toLex_le_toLex] at hxle
      rw [rrpvOf_eq hlookup, rrpvOf_eq hlookupj]
      exact hxle.imp_right (fun h => ⟨h.1, lt_of_le_of_ne h.2 hne⟩)

theorem lookup_updateRrpv (t : Table Entry) (k : Nat) : (updateRrpv t).lookup k =
    (t.lookup k).map (fun e => if e.rrpv < srripDistantInterval then { e with rrpv := e.rrpv + 1 } else e) :=
  lookup_mapValues _ t k

theorem any_entries {f : Entry → Bool} : t.entries.any (fun entry => f entry.2) = true ↔ ∃ k e, t.lookup k = some e ∧ f e = true := by
  rw [List.any_eq_true]
  constructor
  · rintro ⟨⟨k, e⟩, hmem, hf⟩
    exact ⟨k, e, AList.mem_lookup_iff.mpr hmem, hf⟩
  · rintro ⟨k, e, hlookup, hf⟩
    exact ⟨⟨k, e⟩, AList.mem_lookup_iff.mp hlookup, hf⟩

/-- The entries age alike until the most distant ones are distant. -/
theorem agingRounds_eq {n : Nat} (hnear : ∀ k e, t.lookup k = some e → e.rrpv ≤ srripDistantInterval)
    (hfuel : ∃ k e, t.lookup k = some e ∧ srripDistantInterval < e.rrpv + n) :
    ∃ m t', agingRounds n t = some t' ∧ size t' = size t ∧
      (∀ k, t'.lookup k = (t.lookup k).map (fun e => { e with rrpv := e.rrpv + m })) ∧
      (∀ k e, t.lookup k = some e → e.rrpv + m ≤ srripDistantInterval) ∧
      ∃ k e, t.lookup k = some e ∧ e.rrpv + m = srripDistantInterval := by
  induction n generalizing t with
  | zero =>
      obtain ⟨k, e, he, hlt⟩ := hfuel
      exact absurd (hnear k e he) (Nat.not_le.mpr hlt)
  | succ n ih =>
      rw [agingRounds]
      by_cases hdistant : t.entries.any (fun entry => entry.2.rrpv == srripDistantInterval) = true
      · obtain ⟨k, e, he, heq⟩ := (any_entries (f := fun e => e.rrpv == srripDistantInterval)).mp hdistant
        refine ⟨0, t, if_pos hdistant, rfl, fun j => ?_, hnear, k, e, he, beq_iff_eq.mp heq⟩
        exact (Option.map_id' (x := t.lookup j)).symm
      · have hyoung : ∀ k e, t.lookup k = some e → e.rrpv < srripDistantInterval := by
          intro k e he
          refine lt_of_le_of_ne (hnear k e he) (fun heq => hdistant ?_)
          exact (any_entries (f := fun e => e.rrpv == srripDistantInterval)).mpr ⟨k, e, he, beq_iff_eq.mpr heq⟩
        have hlookup : ∀ k, (updateRrpv t).lookup k = (t.lookup k).map (fun e => { e with rrpv := e.rrpv + 1 }) := by
          intro k
          rw [lookup_updateRrpv]
          cases he : t.lookup k with
          | none => rfl
          | some e => rw [Option.map_some, if_pos (hyoung k e he), Option.map_some]
        obtain ⟨k, e, he, hlt⟩ := hfuel
        obtain ⟨m, t', hrounds, hsame, hmap, hnear', j, d, hd, heq⟩ := ih (t := updateRrpv t)
          (fun j d hd => by
            rw [hlookup] at hd
            obtain ⟨c, hc, rfl⟩ := Option.map_eq_some_iff.mp hd
            exact hyoung j c hc)
          ⟨k, { e with rrpv := e.rrpv + 1 }, by rw [hlookup, he, Option.map_some], by simp only; omega⟩
        refine ⟨m + 1, t', ?_, hsame.trans (size_mapValues _ t), fun k => ?_, fun k e he => ?_, ?_⟩
        · rw [if_neg hdistant, hrounds]
        · rw [hmap, hlookup, Option.map_map]
          congr 1
          funext e
          simp only [Function.comp_apply]
          rw [Nat.add_assoc, Nat.add_comm 1 m]
        · have hle := hnear' k { e with rrpv := e.rrpv + 1 } (by rw [hlookup, he, Option.map_some])
          simp only at hle
          omega
        · rw [hlookup] at hd
          obtain ⟨c, hc, rfl⟩ := Option.map_eq_some_iff.mp hd
          refine ⟨j, c, hc, ?_⟩
          simp only at heq
          omega

theorem srripProbEvict_chosen (hmode : config.replaceType = .srripProb) (hsize : size t ≠ 0)
    (hnear : ∀ k e, t.lookup k = some e → e.rrpv ≤ srripDistantInterval) :
    ∃ v t', srripProbEvict config record t = some (v, t') ∧ Chosen config record o t v ∧ Aged t t' := by
  obtain ⟨⟨k, e⟩, hke⟩ := List.exists_mem_of_ne_nil _ (iterate_ne_nil (o := o) hsize)
  obtain ⟨m, aged, hrounds, hsame, hmap, hbound, j, d, hd, hdistant⟩ := agingRounds_eq (n := srripDistantInterval + 1) hnear
    ⟨k, e, (mem_iterate o t k e).mp hke, by omega⟩
  generalize hqueue : (aged.entries.filter (fun entry => entry.2.rrpv == srripDistantInterval)).map
      (fun entry => toLex (takenProbability config record entry.1, entry.1)) = queue
  have hmem : ∀ x, x ∈ queue ↔ ∃ k e, t.lookup k = some e ∧ e.rrpv + m = srripDistantInterval ∧
      toLex (takenProbability config record k, k) = x := by
    intro x
    rw [← hqueue, List.mem_map]
    constructor
    · rintro ⟨⟨k, e⟩, hmem, rfl⟩
      obtain ⟨hentry, hrrpv⟩ := List.mem_filter.mp hmem
      have hlookup := hmap k
      rw [AList.mem_lookup_iff.mpr hentry] at hlookup
      obtain ⟨c, hc, rfl⟩ := Option.map_eq_some_iff.mp hlookup.symm
      exact ⟨k, c, hc, beq_iff_eq.mp hrrpv, rfl⟩
    · rintro ⟨k, e, he, hrrpv, rfl⟩
      have hlookup := hmap k
      rw [he] at hlookup
      exact ⟨⟨k, { e with rrpv := e.rrpv + m }⟩,
        List.mem_filter.mpr ⟨AList.mem_lookup_iff.mp hlookup, beq_iff_eq.mpr hrrpv⟩, rfl⟩
  have hne : queue ≠ [] := List.ne_nil_of_mem ((hmem _).mpr ⟨j, d, hd, hdistant, rfl⟩)
  obtain ⟨top, htop⟩ := Option.ne_none_iff_exists'.mp (mt List.min?_eq_none_iff.mp hne)
  obtain ⟨htopMem, hmin⟩ := List.min?_eq_some_iff.mp htop
  obtain ⟨v, c, hc, hfar, rfl⟩ := (hmem top).mp htopMem
  refine ⟨v, aged, ?_, ⟨(mem_iff_lookup t v).mpr ⟨c, hc⟩, fun i hi hne => ?_⟩, hsame, fun k => ?_, fun k e he => ?_⟩
  · simp only [srripProbEvict, hrounds, Option.bind_eq_bind, Option.bind_some, hqueue, htop]
    rfl
  · obtain ⟨b, hb⟩ := (mem_iff_lookup t i).mp hi
    have hle := hbound i b hb
    simp only [Before, hmode]
    rw [rrpvOf_eq hb, rrpvOf_eq hc]
    rcases Nat.lt_or_ge b.rrpv c.rrpv with hlt | hge
    · exact .inl hlt
    · have heq : b.rrpv = c.rrpv := by omega
      have hxle := hmin _ ((hmem _).mpr ⟨i, b, hb, by omega, rfl⟩)
      rw [Prod.Lex.toLex_le_toLex] at hxle
      exact .inr ⟨heq, hxle.imp_right (fun h => ⟨h.1, lt_of_le_of_ne h.2 (Ne.symm hne)⟩)⟩
  · rw [mem_iff_lookup, mem_iff_lookup, hmap]
    simp
  · rw [hmap] at he
    obtain ⟨d, hd, rfl⟩ := Option.map_eq_some_iff.mp he
    exact hbound k d hd

theorem evict_chosen (config : Config) (record : Table Taken) (o : IterOrder) (hsize : size t ≠ 0)
    (hnear : ∀ k e, t.lookup k = some e → e.rrpv ≤ srripDistantInterval) :
    ∃ v t', evict config record o t = some (v, t') ∧ Chosen config record o t v ∧ Aged t t' := by
  cases hmode : config.replaceType with
  | prob =>
      refine ⟨_, t, ?_, probEvict_chosen hmode hsize, .refl hnear⟩
      simp only [evict, hmode]
  | probSrrip =>
      simp only [evict, hmode]
      exact probSrripEvict_chosen hmode hsize hnear
  | srripProb =>
      simp only [evict, hmode]
      exact srripProbEvict_chosen hmode hsize hnear

end Evict

end Thermometer.ProbBtbVictim
