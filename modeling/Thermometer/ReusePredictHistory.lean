import Thermometer.ReusePredict

namespace Thermometer.ReusePredictHistory

open Trace Lib.Tables Lib.Runs ReusePredict

/-- A branch is inserted into its set, or a taken one is accessed there. -/
structure Touch where
  ip : Nat
  inserted : Bool
  deriving DecidableEq

def resident (config : Config) (s : State) (ip : Nat) : Bool := ((s.btb (getSetIndex config ip)).lookup ip).isSome

/-- The branch that a step inserts or accesses. -/
def touched (config : Config) (s : State) (x : Input) : Option Touch :=
  match x.call with
  | .predict _ _ => none
  | .update ip target taken ty =>
      if ty.usesBtb = true ∧ taken = true then
        if resident config s ip then some ⟨ip, false⟩ else if target ≠ 0 then some ⟨ip, true⟩ else none
      else none
  | .prefetch ip target ty taken toStreamBuffer =>
      if ty.usesBtb = true ∧ taken = true then
        if resident config s ip then some ⟨ip, false⟩
        else if target ≠ 0 ∧ toStreamBuffer = false then some ⟨ip, true⟩ else none
      else none

def touches (config : Config) (inputs : List Input) : List Touch := emits (step config) (touched config) .initial inputs

def historyStep (config : Config) (ip : Nat) (h : Finset Nat × List Nat) (x : Touch) : Finset Nat × List Nat :=
  if x.ip = ip then (∅, min h.1.card (reuseDistanceUpperBound - 1) :: h.2)
  else if getSetIndex config x.ip = getSetIndex config ip then (insert x.ip h.1, h.2)
  else h

def history (config : Config) (ip : Nat) (life : List Touch) : Finset Nat × List Nat :=
  life.foldl (historyStep config ip) (∅, [])

/-- What the entry of `ip` has to hold after an access of it, when the touches so far are `past`: no branch in the set
of others, and the newest distances since the insertion, before the initial one. -/
def Recorded (config : Config) (past : List Touch) (ip : Nat) (e : Entry) : Prop :=
  ∃ before life, past = before ++ ⟨ip, true⟩ :: life ∧ ⟨ip, true⟩ ∉ life ∧ e.countReuseDistance = ∅ ∧
    e.reuseDistance = ((history config ip life).2 ++ [reuseDistanceUpperBound - 1]).take reuseDistanceLength

/-- The access of a resident branch. -/
def SelfAccess (config : Config) (s : State) (x : Input) (ip : Nat) : Prop := touched config s x = some ⟨ip, false⟩

/-- Every access of a resident branch is recorded. -/
def RecordsReuse (config : Config) (inputs : List Input) : Prop :=
  EveryStep (step config) .initial (fun pre s x => ∀ ip t, SelfAccess config s x ip → step config s x = some t →
    ∃ e, (t.btb (getSetIndex config ip)).lookup ip = some e ∧ Recorded config (touches config (pre ++ [x])) ip e) inputs

def met (config : Config) (ip : Nat) (life : List Touch) : Finset Nat :=
  ((life.map Touch.ip).filter (fun k => k ≠ ip ∧ getSetIndex config k = getSetIndex config ip)).toFinset

section Records

structure Kept where
  tag : Nat
  count : Finset Nat
  distances : List Nat

def kept (e : Entry) : Kept := ⟨e.ipTag, e.countReuseDistance, e.reuseDistance⟩

def records (s : State) (set ip : Nat) : Option Kept := ((s.btb set).lookup ip).map kept

def Kept.increase (ip : Nat) (k : Kept) : Kept :=
  if ip = k.tag then
    if reuseDistanceLength ≤ k.distances.length then
      ⟨k.tag, ∅, (if reuseDistanceUpperBound ≤ k.count.card then reuseDistanceUpperBound - 1 else k.count.card) ::
        k.distances.dropLast⟩
    else k
  else { k with count := insert ip k.count }

theorem kept_increase (ip : Nat) (e : Entry) : kept (e.increase ip) = (kept e).increase ip := by
  by_cases hip : ip = e.ipTag
  · by_cases hlen : reuseDistanceLength ≤ e.reuseDistance.length
    · simp only [Entry.increase, Entry.accessSelf, Kept.increase, kept, hip, hlen, if_true]
      rfl
    · simp only [Entry.increase, Entry.accessSelf, Kept.increase, kept, hip, hlen, if_true, if_false]
  · simp only [Entry.increase, Kept.increase, kept, hip, if_false]

variable {config : Config} {s s' : State} {set ip j target : Nat} {t : Table Entry} {f : Entry → Entry}

theorem records_withSet (s : State) (i : Nat) (t : Table Entry) (set ip : Nat) :
    records (s.withSet i t) set ip = if set = i then (t.lookup ip).map kept else records s set ip := by
  change ((Function.update s.btb i t set).lookup ip).map kept = _
  by_cases h : set = i
  · subst h
    rw [if_pos rfl, Function.update_self]
  · rw [if_neg h, Function.update_of_ne h]
    rfl

theorem lookup_modify_kept (hf : ∀ e, kept (f e) = kept e) (t : Table Entry) (k j : Nat) :
    ((modify t k f).lookup j).map kept = (t.lookup j).map kept := by
  rw [lookup_modify]
  split_ifs with h
  · rw [h, Option.map_map]
    exact congrArg (fun g => Option.map g _) (funext hf)
  · rfl

theorem records_modify (hf : ∀ e, kept (f e) = kept e) (s : State) (i k set ip : Nat) :
    records (s.withSet i (modify (s.btb i) k f)) set ip = records s set ip := by
  rw [records_withSet, lookup_modify_kept hf]
  split_ifs with h
  · rw [h]
    rfl
  · rfl

/-- What a touch leaves of the records: in its set the others count it, and an insertion starts anew. -/
structure Follows (config : Config) (s s' : State) (y : Touch) : Prop where
  other : ∀ set j, set ≠ getSetIndex config y.ip → records s' set j = records s set j
  self : ∀ j k, records s' (getSetIndex config y.ip) j = some k →
    (y.inserted = true ∧ j = y.ip ∧ k = ⟨j, ∅, [reuseDistanceUpperBound - 1]⟩) ∨
      (¬(y.inserted = true ∧ j = y.ip) ∧ ∃ l, records s (getSetIndex config y.ip) j = some l ∧ k = l.increase y.ip)

def Same (s s' : State) : Prop := ∀ set j, records s' set j = records s set j

theorem Follows.congr {u u' : State} {y : Touch} (h : Follows config s s' y) (hu : Same u s) (hu' : Same s' u') :
    Follows config u u' y := by
  refine ⟨fun set j hset => ?_, fun j k hk => ?_⟩
  · rw [hu', h.other set j hset, hu]
  · rw [hu'] at hk
    rw [← hu]
    exact h.self j k hk

theorem same_modify (hf : ∀ e, kept (f e) = kept e) (s : State) (i k : Nat) : Same s (s.withSet i (modify (s.btb i) k f)) :=
  fun set j => records_modify hf s i k set j

theorem find_same (config : Config) (s : State) (ip : Nat) : Same s (findBtbEntry config s ip).1 :=
  same_modify (f := fun e => { e with rrpv := 0 }) (fun _ => rfl) s _ ip

theorem access_follows (config : Config) (s : State) (ip : Nat) : Follows config s (access config s ip) ⟨ip, false⟩ := by
  refine ⟨fun set j hset => ?_, fun j k hk => .inr ⟨fun h => Bool.false_ne_true h.1, ?_⟩⟩
  · rw [access, records_withSet, if_neg hset]
  · rw [access, records_withSet, if_pos rfl, lookup_modify_kept (f := fun e => { e with rrpv := 0 }) (fun _ => rfl),
      lookup_mapValues, Option.map_map] at hk
    obtain ⟨e, he, rfl⟩ := Option.map_eq_some_iff.mp hk
    refine ⟨kept e, ?_, kept_increase ip e⟩
    rw [records, he]
    rfl

theorem srripRounds_kept {n : Nat} {t' : Table Entry} (h : srripRounds n t = some t') (j : Nat) :
    (t'.lookup j).map kept = (t.lookup j).map kept := by
  induction n generalizing t with
  | zero => cases h
  | succ n ih =>
      rw [srripRounds] at h
      split_ifs at h
      · rw [Option.some.inj h]
      · rw [ih h, lookup_mapValues, Option.map_map]
        rfl

theorem makeRoom_kept {o : IterOrder} {rand : Nat → Nat} {t' : Table Entry} (h : makeRoom config o rand t = some t') {j : Nat}
    {k : Kept} (hk : (t'.lookup j).map kept = some k) : (t.lookup j).map kept = some k := by
  rw [makeRoom] at h
  split_ifs at h
  · obtain ⟨victim, -, h⟩ := Option.bind_eq_some_iff.mp h
    obtain ⟨aged, haged, h⟩ := Option.bind_eq_some_iff.mp h
    rw [← Option.some.inj h, lookup_erase] at hk
    split_ifs at hk
    · cases hk
    · rw [srripRounds_kept haged] at hk
      exact hk
  · rw [Option.some.inj h]
    exact hk

theorem insert_follows {o : IterOrder} {rand : Nat → Nat} {ty : BranchType}
    (h : insertToBtb config o rand s ip target ty = some s') : Follows config s s' ⟨ip, true⟩ := by
  obtain ⟨t, ht, h⟩ := Option.bind_eq_some_iff.mp h
  rw [Option.ite_none_right_eq_some] at h
  rw [← Option.some.inj h.2]
  refine ⟨fun set j hset => ?_, fun j k hk => ?_⟩
  · rw [records_withSet, if_neg hset]
  · rw [records_withSet, if_pos rfl, lookup_insert] at hk
    split_ifs at hk with hj
    · exact .inl ⟨rfl, hj, hj ▸ (Option.some.inj hk).symm⟩
    · rw [lookup_mapValues, Option.map_map] at hk
      obtain ⟨e, he, rfl⟩ := Option.map_eq_some_iff.mp hk
      refine .inr ⟨fun h => hj h.2, kept e, ?_, kept_increase ip e⟩
      apply makeRoom_kept ht
      rw [he]
      rfl

theorem updateExisting_follows (config : Config) (s : State) (ip target : Nat) (ty : BranchType) :
    Follows config s (updateExisting config s ip target true ty) ⟨ip, false⟩ :=
  (access_follows config _ ip).congr (same_modify (f := fun e => { e with target := target }) (fun _ => rfl) s _ ip)
    (same_modify (f := fun e => { e with branchType := ty }) (fun _ => rfl) _ _ ip)

theorem updateExisting_same (config : Config) (s : State) (ip target : Nat) (ty : BranchType) :
    Same s (updateExisting config s ip target false ty) := by
  intro set j
  rw [updateExisting, if_neg Bool.false_ne_true]
  exact (records_modify (f := fun e => { e with branchType := ty }) (fun _ => rfl) _ _ ip set j).trans
    (records_modify (f := fun e => { e with alwaysTaken := false }) (fun _ => rfl) s _ ip set j)

inductive Effect (config : Config) (s : State) (x : Input) (s' : State) : Prop
  | quiet (hnone : touched config s x = none) (hsame : Same s s')
  | touch (y : Touch) (hy : touched config s x = some y) (h : Follows config s s' y)

theorem find_eq (config : Config) (s : State) (ip : Nat) : findBtbEntry config s ip =
    ((findBtbEntry config s ip).1, (s.btb (getSetIndex config ip)).lookup ip) := rfl

theorem existing_effect {u : State} {x : Input} {taken : Bool} {ty : BranchType} (hu : Same s u)
    (hx : touched config s x = if taken = true then some ⟨ip, false⟩ else none) :
    Effect config s x (updateExisting config u ip target taken ty) := by
  cases taken with
  | true => exact .touch ⟨ip, false⟩ hx ((updateExisting_follows config u ip target ty).congr hu (fun _ _ => rfl))
  | false => exact .quiet hx (fun set j => (updateExisting_same config u ip target ty set j).trans (hu set j))

theorem update_effect {o : IterOrder} {rand : Nat → Nat} {taken : Bool} {ty : BranchType}
    (h : updateBtb config o rand s ip target taken ty = some s') :
    Effect config s ⟨o, rand, .update ip target taken ty⟩ s' := by
  rw [updateBtb, find_eq] at h
  by_cases hty : ty.usesBtb = true
  · rw [if_pos hty] at h
    have hfind : Same s (findBtbEntry config { s with side := SideTables.update s.side ip target taken ty } ip).1 :=
      find_same config _ ip
    cases hlookup : (s.btb (getSetIndex config ip)).lookup ip with
    | none =>
        have habsent : resident config s ip = false := by rw [resident, hlookup]; rfl
        simp only [hlookup] at h
        by_cases hinsert : target ≠ 0 ∧ taken = true
        · rw [if_pos hinsert] at h
          refine .touch ⟨ip, true⟩ ?_ ((insert_follows h).congr hfind (fun _ _ => rfl))
          simp only [touched, hty, hinsert.2, habsent, and_self, if_true, Bool.false_eq_true, if_false, if_pos hinsert.1]
        · rw [if_neg hinsert] at h
          refine .quiet ?_ (Option.some.inj h ▸ hfind)
          simp only [touched, hty, habsent, true_and, Bool.false_eq_true, if_false]
          split_ifs with htaken htarget
          · exact absurd ⟨htarget, htaken⟩ hinsert
          · rfl
          · rfl
    | some e =>
        have hpresent : resident config s ip = true := by rw [resident, hlookup]; rfl
        simp only [hlookup] at h
        rw [← Option.some.inj h]
        apply existing_effect hfind
        simp only [touched, hty, hpresent, true_and, if_true]
  · rw [if_neg hty] at h
    refine .quiet ?_ (Option.some.inj h ▸ fun _ _ => rfl)
    simp only [touched, hty, Bool.false_eq_true, false_and, if_false]

theorem prefetch_effect {o : IterOrder} {rand : Nat → Nat} {taken toStreamBuffer : Bool} {ty : BranchType}
    (h : prefetchBtb config o rand s ip target ty taken toStreamBuffer = some s') :
    Effect config s ⟨o, rand, .prefetch ip target ty taken toStreamBuffer⟩ s' := by
  rw [prefetchBtb, find_eq] at h
  by_cases hty : ty.usesBtb = true
  · rw [if_pos hty] at h
    have hfind := find_same config s ip
    cases hlookup : (s.btb (getSetIndex config ip)).lookup ip with
    | none =>
        have habsent : resident config s ip = false := by rw [resident, hlookup]; rfl
        simp only [hlookup] at h
        by_cases hinsert : target ≠ 0 ∧ taken = true
        · rw [if_pos hinsert] at h
          cases toStreamBuffer with
          | true =>
              obtain ⟨stream, -, rfl⟩ := Option.map_eq_some_iff.mp h
              refine .quiet ?_ hfind
              simp only [touched, hty, hinsert.2, habsent, and_self, if_true, Bool.false_eq_true, if_false, and_false,
                Bool.true_eq_false]
          | false =>
              refine .touch ⟨ip, true⟩ ?_ ((insert_follows h).congr hfind (fun _ _ => rfl))
              simp only [touched, hty, hinsert.2, habsent, and_self, if_true, Bool.false_eq_true, if_false, and_true,
                if_pos hinsert.1]
        · rw [if_neg hinsert] at h
          refine .quiet ?_ (Option.some.inj h ▸ hfind)
          simp only [touched, hty, habsent, true_and, Bool.false_eq_true, if_false]
          split_ifs with htaken htarget
          · exact absurd ⟨htarget.1, htaken⟩ hinsert
          · rfl
          · rfl
    | some e =>
        have hpresent : resident config s ip = true := by rw [resident, hlookup]; rfl
        simp only [hlookup] at h
        rw [← Option.some.inj h]
        apply existing_effect hfind
        simp only [touched, hty, hpresent, true_and, if_true]
  · rw [if_neg hty] at h
    refine .quiet ?_ (Option.some.inj h ▸ fun _ _ => rfl)
    simp only [touched, hty, Bool.false_eq_true, false_and, if_false]

theorem step_effect {x : Input} (h : step config s x = some s') : Effect config s x s' := by
  obtain ⟨o, rand, call⟩ := x
  cases call with
  | predict ip ty =>
      refine .quiet rfl ?_
      rw [← Option.some.inj h, btbPrediction]
      rcases SideTables.predict s.side ip ty with ⟨side, r⟩
      cases r with
      | some r => exact fun _ _ => rfl
      | none =>
          have hfind : Same s (findBtbEntry config { s with side := side } ip).1 := find_same config _ ip
          simp only
          rw [find_eq]
          cases (s.btb (getSetIndex config ip)).lookup ip with
          | none => exact hfind
          | some e => exact hfind
  | update ip target taken ty => exact update_effect h
  | prefetch ip target ty taken toStreamBuffer => exact prefetch_effect h

end Records

/-- What is so of every entry: its set of others only grows, and its distances stay as they were. -/
structure Inv (config : Config) (s : State) (past : List Touch) : Prop where
  entry : ∀ set j k, records s set j = some k → getSetIndex config j = set ∧ k.tag = j ∧
    k.distances = [reuseDistanceUpperBound - 1] ∧
    ∃ before life, past = before ++ ⟨j, true⟩ :: life ∧ ⟨j, true⟩ ∉ life ∧ k.count = met config j life

section Run

variable {config : Config} {s s' t : State} {past life : List Touch} {x : Input} {y : Touch} {ip : Nat}

theorem met_concat (config : Config) (ip : Nat) (life : List Touch) (y : Touch) : met config ip (life ++ [y]) =
    if y.ip ≠ ip ∧ getSetIndex config y.ip = getSetIndex config ip then insert y.ip (met config ip life)
    else met config ip life := by
  rw [met, List.map_append, List.filter_append, List.toFinset_append]
  split_ifs with h
  · rw [List.map_singleton, List.filter_singleton, decide_eq_true h, Finset.union_comm]
    rfl
  · rw [List.map_singleton, List.filter_singleton, decide_eq_false h]
    exact Finset.union_empty _

theorem initial_inv (config : Config) : Inv config .initial [] := by
  refine ⟨fun set j k hk => ?_⟩
  cases hk

theorem Inv.step (h : Inv config s past) (hs : step config s x = some s') :
    Inv config s' (past ++ (touched config s x).toList) := by
  cases step_effect hs with
  | quiet hnone hsame =>
      rw [hnone, Option.toList_none, List.append_nil]
      exact ⟨fun set j k hk => h.entry set j k (hsame set j ▸ hk)⟩
  | touch y hy hfollows =>
      rw [hy, Option.toList_some]
      refine ⟨fun set j k hk => ?_⟩
      by_cases hset : set = getSetIndex config y.ip
      · subst hset
        rcases hfollows.self j k hk with ⟨hinserted, rfl, rfl⟩ | ⟨hother, l, hl, rfl⟩
        · refine ⟨rfl, rfl, rfl, past, [], ?_, List.not_mem_nil, rfl⟩
          rw [← hinserted]
        · obtain ⟨hindex, htag, hdistances, before, life, rfl, hnew, hcount⟩ := h.entry _ j l hl
          have hlater : (⟨j, true⟩ : Touch) ∉ life ++ [y] := by
            intro hmem
            rcases List.mem_append.mp hmem with hmem | hmem
            · exact hnew hmem
            · rw [← List.mem_singleton.mp hmem] at hother
              exact hother ⟨rfl, rfl⟩
          have hpast : before ++ ⟨j, true⟩ :: life ++ [y] = before ++ ⟨j, true⟩ :: (life ++ [y]) := by
            rw [List.append_assoc, List.cons_append]
          by_cases hip : y.ip = j
          · have hshort : ¬reuseDistanceLength ≤ l.distances.length := by
              rw [hdistances]
              decide
            have hkeep : l.increase y.ip = l := by
              rw [Kept.increase, if_pos (hip.trans htag.symm), if_neg hshort]
            rw [hkeep]
            refine ⟨hindex, htag, hdistances, before, life ++ [y], hpast, hlater, ?_⟩
            rw [met_concat, if_neg (fun h => h.1 hip)]
            exact hcount
          · have hmore : l.increase y.ip = { l with count := insert y.ip l.count } := by
              rw [Kept.increase, if_neg (fun heq => hip (heq.trans htag))]
            rw [hmore]
            refine ⟨hindex, htag, hdistances, before, life ++ [y], hpast, hlater, ?_⟩
            rw [met_concat, if_pos ⟨hip, hindex.symm⟩]
            exact congrArg (insert y.ip) hcount
      · rw [hfollows.other set j hset] at hk
        obtain ⟨hindex, htag, hdistances, before, life, rfl, hnew, hcount⟩ := h.entry set j k hk
        have hip : ¬(y.ip ≠ j ∧ getSetIndex config y.ip = getSetIndex config j) :=
          fun h => hset (hindex.symm.trans h.2.symm)
        refine ⟨hindex, htag, hdistances, before, life ++ [y], ?_, ?_, ?_⟩
        · rw [List.append_assoc, List.cons_append]
        · intro hmem
          rcases List.mem_append.mp hmem with hmem | hmem
          · exact hnew hmem
          · rw [← List.mem_singleton.mp hmem] at hset
            exact hset hindex.symm
        · rw [met_concat, if_neg hip]
          exact hcount

theorem run_inv {inputs : List Input} (h : run (ReusePredict.step config) .initial inputs = some s) :
    Inv config s (touches config inputs) :=
  emits_preserves (fun _ _ _ _ hi hs => hi.step hs) (initial_inv config) h

theorem selfAccess_total (h : SelfAccess config s x ip) : ∃ t, ReusePredict.step config s x = some t := by
  obtain ⟨o, rand, call⟩ := x
  cases call with
  | predict ip ty => exact ⟨_, rfl⟩
  | update j target taken ty =>
      simp only [SelfAccess, touched] at h
      split_ifs at h with htaken hresident
      · obtain ⟨e, he⟩ := Option.isSome_iff_exists.mp hresident
        simp only [ReusePredict.step, updateBtb, if_pos htaken.1]
        rw [find_eq]
        simp only [he]
        exact ⟨_, rfl⟩
      · cases h
  | prefetch j target ty taken toStreamBuffer =>
      simp only [SelfAccess, touched] at h
      split_ifs at h with htaken hresident
      · obtain ⟨e, he⟩ := Option.isSome_iff_exists.mp hresident
        simp only [ReusePredict.step, prefetchBtb, if_pos htaken.1]
        rw [find_eq]
        simp only [he]
        exact ⟨_, rfl⟩
      · cases h

theorem Recorded.two {e : Entry} (h : Recorded config (past ++ [⟨ip, false⟩]) ip e) :
    e.reuseDistance ≠ [reuseDistanceUpperBound - 1] := by
  obtain ⟨before, life, hpast, -, -, hdistances⟩ := h
  rcases List.eq_nil_or_concat life with rfl | ⟨rest, last, rfl⟩
  · have hlast := (List.append_inj' hpast rfl).2
    simp at hlast
  · rw [List.concat_eq_append, ← List.cons_append, ← List.append_assoc] at hpast
    have hlast := (List.append_inj' hpast rfl).2
    rw [List.cons.injEq] at hlast
    rw [hdistances, List.concat_eq_append, history, List.foldl_append, ← hlast.1, List.foldl_cons, List.foldl_nil, historyStep,
      if_pos rfl]
    intro hone
    have hlength := congrArg List.length hone
    simp [reuseDistanceLength] at hlength

/-- The accesses of a run are recorded exactly when there are none: the deque starts with one distance, and `access_self`
waits for it to be full. -/
theorem recordsReuse_iff (config : Config) (inputs : List Input) : RecordsReuse config inputs ↔
    EveryStep (ReusePredict.step config) .initial (fun _ s x => ∀ ip, ¬SelfAccess config s x ip) inputs := by
  constructor
  · intro h pre x post s heq hs ip hself
    obtain ⟨t, ht⟩ := selfAccess_total hself
    obtain ⟨e, he, hrecorded⟩ := h pre x post s heq hs ip t hself ht
    have hpast : touches config (pre ++ [x]) = touches config pre ++ [⟨ip, false⟩] := by
      rw [touches, emits_append hs, emits_cons ht, hself]
      rfl
    have hrun : run (ReusePredict.step config) .initial (pre ++ [x]) = some t := by
      rw [run_append, hs, Option.bind_some, run_cons, ht]
      rfl
    have hkept : records t (getSetIndex config ip) ip = some (kept e) := by
      rw [records, he]
      rfl
    obtain ⟨-, -, hdistances, -⟩ := (run_inv hrun).entry _ ip _ hkept
    exact (hpast ▸ hrecorded).two hdistances
  · intro h pre x post s heq hs ip t hself
    exact absurd hself (h pre x post s heq hs ip)

/-- A direct jump at 4, twice: it is inserted, and accessed with no branch in between. -/
def jumpTwice : List Input :=
  [⟨.stored, fun _ => 0, .update 4 16 true .directJump⟩, ⟨.stored, fun _ => 0, .update 4 16 true .directJump⟩]

def fourWays : Config := ⟨2048, 4, 2, .recent⟩

theorem access_unrecorded : ¬RecordsReuse fourWays jumpTwice := by
  intro h
  obtain ⟨e, he, hrecorded⟩ := h [⟨.stored, fun _ => 0, .update 4 16 true .directJump⟩] _ [] _ rfl rfl 4 _ rfl rfl
  rw [← Option.some.inj he] at hrecorded
  have htwo : ∀ past e, Recorded fourWays (past ++ [⟨4, false⟩]) 4 e → e.reuseDistance ≠ [7] := fun _ _ h => h.two
  exact htwo [⟨4, true⟩] _ hrecorded rfl

/-- What the entries are predicted to have, whatever their history is. -/
def constantPrediction (config : Config) (rand : Nat) : Nat :=
  match config.notFoundReturnMethod with
  | .random => rand % reuseDistanceUpperBound
  | .average => reuseDistanceUpperBound - 1
  | .recent => reuseDistanceUpperBound - 1

/-- In every state of a run the distances of each entry are the initial one alone, and so the prediction is constant. -/
theorem prediction_constant {inputs : List Input} (h : run (ReusePredict.step config) .initial inputs = some s) {set : Nat}
    {e : Entry} (he : (s.btb set).lookup ip = some e) (rand : Nat) :
    predictReuseDistance config rand e = constantPrediction config rand := by
  have hkept : records s set ip = some (kept e) := by
    rw [records, he]
    rfl
  obtain ⟨-, -, hdistances, -⟩ := (run_inv h).entry _ ip _ hkept
  have hone : e.reuseDistance = [reuseDistanceUpperBound - 1] := hdistances
  rw [predictReuseDistance, constantPrediction, hone]
  cases config.notFoundReturnMethod <;> rfl

end Run

end Thermometer.ReusePredictHistory
