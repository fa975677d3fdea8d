import Mathlib.Data.List.Perm.Basic
import Thermometer.ProbBtbCounters

namespace Thermometer.ProbBtbSpared

open Trace Lib.Tables Lib.Doubles Lib.Runs ProbBtb ProbBtbVictim ProbBtbCounters

/-- A resident that the mode may evict: with the ages first, one of the most distant. -/
def Eligible (config : Config) (t : Table Entry) (k : Nat) : Prop :=
  k ∈ t ∧ (config.replaceType = .srripProb → ∀ j ∈ t, rrpvOf t j ≤ rrpvOf t k)

/-- A set whose counters may go down. Without probabilities its least counter is that of an eligible resident. With
probabilities an eligible resident is not always taken, or a resident whose counter is used up goes first. -/
def SparedSet (config : Config) (o : IterOrder) (record : Table Taken) (t : Table Entry) : Prop :=
  if config.calculateProbability = false then
    ∃ w, Eligible config t w ∧ ∀ k ∈ t, k ∈ record → takenProbability config record w ≤ takenProbability config record k
  else (∃ w, Eligible config t w ∧ takenProbability config record w < 1) ∨
    ∀ k ∈ t, ∀ c, record.lookup k = some c → c.taken = 0 → Chosen config record o t k

/-- A branch that comes into a full set whose counters go down finds it spared. -/
def Spared (config : Config) (s : State) (x : Input) : Prop := ∀ a, accessed config s x = some a →
  lowers config = true → a.ip ∉ s.btb (getSetIndex config a.ip) →
    config.totalWays ≤ size (s.btb (getSetIndex config a.ip)) →
      SparedSet config x.order s.branchRecord (s.btb (getSetIndex config a.ip))

/-- No counter goes down, or the least one is evicted in every set. -/
def Spares (config : Config) : Prop := lowers config = false ∨
  (config.calculateProbability = false ∧ (config.replaceType ≠ .srripProb ∨ config.counterUpperBound = 0))

/-- No counter passes `2 ^ 64` by its increments alone, and none that goes down passes the `2 ^ 53` that a double holds. -/
def Few (config : Config) (inputs : List Input) : Prop :=
  if config.calculateProbability = true then inputs.length < 2 ^ 64
  else lowers config = true → config.counterUpperBound ≤ 2 ^ 53 ∨ inputs.length ≤ 2 ^ 53

/-- The sets and ways that the module is built with. -/
def shipped (config : Config) : Config := { config with totalSets := 2048, totalWays := 4, ways_pos := by decide }

section Sets

variable {config : Config} {o : IterOrder} {record : Table Taken} {t : Table Entry} {ip v w k : Nat}

theorem eligible_of_chosen (h : Chosen config record o t v) : Eligible config t v := by
  refine ⟨h.1, fun hmode j hj => ?_⟩
  by_cases hne : j = v
  · rw [hne]
  · have hbefore := h.2 j hj hne
    simp only [Before, hmode] at hbefore
    exact hbefore.elim le_of_lt (fun h => h.1.le)

theorem chosen_le (h : Chosen config record o t v) (hw : Eligible config t w) :
    takenProbability config record v ≤ takenProbability config record w := by
  by_cases hmode : config.replaceType = .srripProb
  · by_cases hne : w = v
    · rw [hne]
    · have hbefore := h.2 w hw.1 hne
      simp only [Before, hmode] at hbefore
      rcases hbefore with hlt | ⟨-, hle⟩
      · exact absurd (hw.2 hmode v h.1) (Nat.not_le.mpr hlt)
      · exact hle.elim le_of_lt (fun h => h.1.le)
  · exact h.le hmode hw.1

theorem toDouble_eq {n : Nat} (hn : n ≤ 2 ^ 53) : toDouble n = n := (representable_natCast hn (by decide)).roundTo_eq

theorem takenProbability_eq (hcalc : config.calculateProbability = false) {c : Taken} (hk : record.lookup k = some c)
    (hc : c.taken ≤ 2 ^ 53) : takenProbability config record k = c.taken := by
  rw [takenProbability, hk]
  simp only [Taken.takenProbability, if_pos hcalc]
  exact toDouble_eq hc

theorem toDouble_nonneg (n : Nat) : 0 ≤ toDouble n :=
  (roundTo_zero (R := ℚ) 53).symm.trans_le (roundTo_mono (by decide) le_rfl (Nat.cast_nonneg n))

theorem takenProbability_le_one (hcalc : config.calculateProbability = true) (record : Table Taken) (ip : Nat) :
    takenProbability config record ip ≤ 1 := by
  rw [takenProbability]
  cases record.lookup ip with
  | none => exact zero_le_one
  | some c =>
      have hone : Representable 53 (1 : ℚ) := ⟨1, 0, by decide, by simp⟩
      have htaken := toDouble_nonneg c.taken
      have hnotTaken := toDouble_nonneg c.notTaken
      have hrep : Representable 53 (toDouble c.taken) := representable_roundTo (by decide) (Nat.cast_nonneg c.taken)
      have hsum : toDouble c.taken ≤ roundTo 53 (toDouble c.taken + toDouble c.notTaken) :=
        le_roundTo (by decide) htaken hrep (le_add_of_nonneg_right hnotTaken)
      simp only [Taken.takenProbability, hcalc, Bool.true_eq_false, if_false]
      split_ifs
      · exact le_rfl
      · exact roundTo_le (by decide) (div_nonneg htaken (htaken.trans hsum)) hone (div_le_one_of_le₀ hsum (htaken.trans hsum))

/-- Counters are their own doubles: what goes down is spared by the least of them. -/
theorem least_spares_iff (hchosen : Chosen config record o t v) (hcalc : config.calculateProbability = false)
    (hdouble : ∀ k c, record.lookup k = some c → c.taken ≤ 2 ^ 53) :
    (∀ k ∈ t, k ≠ v → ∀ c, record.lookup k = some c → ⌊takenProbability config record v⌋₊ ≤ c.taken) ↔
      ∃ w, Eligible config t w ∧ ∀ k ∈ t, k ∈ record → takenProbability config record w ≤ takenProbability config record k := by
  have heq : ∀ k c, record.lookup k = some c → takenProbability config record k = c.taken :=
    fun k c hk => takenProbability_eq hcalc hk (hdouble k c hk)
  constructor
  · refine fun h => ⟨v, eligible_of_chosen hchosen, fun k hk hrecorded => ?_⟩
    obtain ⟨c, hc⟩ := (mem_iff_lookup record k).mp hrecorded
    by_cases hne : k = v
    · rw [hne]
    · have hle := h k hk hne c hc
      rw [heq k c hc]
      cases hv : record.lookup v with
      | none =>
          rw [takenProbability, hv]
          exact Nat.cast_nonneg c.taken
      | some d =>
          rw [heq v d hv, Nat.floor_natCast] at hle
          rw [heq v d hv]
          exact_mod_cast hle
  · rintro ⟨w, hw, hle⟩ k hk - c hc
    refine Nat.floor_le_of_le ?_
    rw [← heq k c hc]
    exact (chosen_le hchosen hw).trans (hle k hk ((mem_iff_lookup record k).mpr ⟨c, hc⟩))

/-- Of a probability only 1 takes anything away. -/
theorem probability_spares_iff (hchosen : Chosen config record o t v) (hcalc : config.calculateProbability = true) :
    (∀ k ∈ t, k ≠ v → ∀ c, record.lookup k = some c → ⌊takenProbability config record v⌋₊ ≤ c.taken) ↔
      (∃ w, Eligible config t w ∧ takenProbability config record w < 1) ∨
        ∀ k ∈ t, ∀ c, record.lookup k = some c → c.taken = 0 → Chosen config record o t k := by
  have hone := takenProbability_le_one hcalc record v
  constructor
  · intro h
    rcases hone.lt_or_eq with hlt | heq
    · exact .inl ⟨v, eligible_of_chosen hchosen, hlt⟩
    · refine .inr (fun k hk c hc hzero => ?_)
      by_cases hne : k = v
      · exact hne ▸ hchosen
      · have hle := h k hk hne c hc
        rw [heq, Nat.floor_one, hzero] at hle
        exact absurd hle (by decide)
  · rintro (⟨w, hw, hlt⟩ | hfirst) k hk hne c hc
    · rw [Nat.floor_eq_zero.mpr ((chosen_le hchosen hw).trans_lt hlt)]
      exact Nat.zero_le _
    · have hpos : c.taken ≠ 0 := fun hzero => hne ((hfirst k hk c hc hzero).unique hchosen)
      calc
        ⌊takenProbability config record v⌋₊ ≤ ⌊(1 : ℚ)⌋₊ := Nat.floor_mono hone
        _ = 1 := Nat.floor_one
        _ ≤ c.taken := Nat.one_le_iff_ne_zero.mpr hpos

/-- What goes down in a set does not wrap around exactly when the set is spared. -/
theorem lowersWell_iff (hchosen : Chosen config record o t v) (hlowers : lowers config = true) (habsent : ip ∉ t)
    (hfull : config.totalWays ≤ size t)
    (hdouble : config.calculateProbability = false → ∀ k c, record.lookup k = some c → c.taken ≤ 2 ^ 53) :
    LowersWell config o record t ip ↔ SparedSet config o record t := by
  have hwell : LowersWell config o record t ip ↔
      ∀ k ∈ t, k ≠ v → ∀ c, record.lookup k = some c → ⌊takenProbability config record v⌋₊ ≤ c.taken := by
    refine ⟨fun h => h hlowers habsent hfull v hchosen, fun h _ _ _ u hu => ?_⟩
    obtain rfl := hu.unique hchosen
    exact h
  rw [hwell, SparedSet]
  cases hcalc : config.calculateProbability with
  | false =>
      rw [if_pos rfl]
      exact least_spares_iff hchosen hcalc (hdouble hcalc)
  | true =>
      rw [if_neg (by decide)]
      exact probability_spares_iff hchosen hcalc

end Sets

section Runs

variable {config : Config} {s t : State} {x : Input} {inputs pre post : List Input} {n : Nat}

def Counted (n : Nat) (s : State) : Prop := ∀ k c, s.branchRecord.lookup k = some c → c.taken ≤ n

theorem update_taken_le (config : Config) (c : Taken) (ty : BranchType) (taken : Bool) :
    (c.update config ty taken).1.taken ≤ c.taken + 1 := by
  have hretype : (c.retype ty).taken ≤ c.taken := by
    rw [Taken.retype]
    split_ifs
    · exact Nat.zero_le _
    · exact le_rfl
  have hone : (c.retype ty).increment.1.taken ≤ c.taken + 1 := (Nat.mod_le _ _).trans (Nat.succ_le_succ hretype)
  rw [Taken.update]
  split_ifs
  · exact hone
  · exact hone
  · exact hretype.trans (Nat.le_succ _)
  · exact hretype.trans (Nat.le_succ _)

theorem counted_step (h : Effect config s x t) (hsafe : Safe config s x) (hn : n < 2 ^ 64) (hs : Counted n s) :
    Counted (n + 1) t := by
  cases h with
  | quiet _ hrecord _ =>
      intro k c hc
      rw [hrecord] at hc
      exact (hs k c hc).trans (Nat.le_succ n)
  | touch a ha u hu ht =>
      have hbound : Counted n u := hu.bounded (hsafe a ha).2 n hn hs
      intro k c hc
      rw [ht, updateProbability_eq, lookup_insert] at hc
      split_ifs at hc
      · rw [← Option.some.inj hc]
        refine (update_taken_le ..).trans (Nat.succ_le_succ ?_)
        rw [counters]
        cases hlookup : u.branchRecord.lookup a.ip with
        | none => exact Nat.zero_le n
        | some d => exact hbound a.ip d hlookup
      · exact (hbound k c hc).trans (Nat.le_succ n)

theorem run_counted (h : EveryStep (step config) .initial (fun _ => Safe config) inputs)
    (hrun : run (step config) .initial inputs = some s) (hlength : inputs.length < 2 ^ 64) : Counted inputs.length s := by
  induction inputs using List.reverseRecOn generalizing s with
  | nil =>
      rw [run_nil, Option.some.injEq] at hrun
      rw [← hrun]
      intro k c hc
      cases hc
  | append_singleton pre x ih =>
      obtain ⟨u, hu, hx⟩ := run_concat hrun
      obtain ⟨t, ht, -, heffect⟩ := step_effect (run_good hu) x
      rw [List.length_append, List.length_singleton] at hlength ⊢
      obtain rfl := Option.some.inj (hx.symm.trans ht)
      exact counted_step heffect (h.last hu) (by omega) (ih h.of_append hu (by omega))

theorem few_of_append (h : Few config (pre ++ post)) : Few config pre := by
  rw [Few, List.length_append] at h
  rw [Few]
  split_ifs at h ⊢
  · exact (Nat.le_add_right _ _).trans_lt h
  · exact fun hlowers => (h hlowers).imp_right (Nat.le_add_right _ _).trans

/-- In a run of so few calls a step is safe exactly when the set it takes a victim from is spared. -/
theorem safe_iff (hfew : Few config (pre ++ x :: post)) (hpre : EveryStep (step config) .initial (fun _ => Safe config) pre)
    (hs : run (step config) .initial pre = some s) : Safe config s x ↔ Spared config s x := by
  have hgood := run_good hs
  have hsound := run_sound hpre hs
  rw [Few, List.length_append, List.length_cons] at hfew
  have hcounts : ∀ a, CountsUp config s.branchRecord a := by
    intro a hcalc _ c hc _
    rw [if_pos hcalc] at hfew
    have hle := run_counted hpre hs (by omega) _ c hc
    omega
  have hdouble : lowers config = true → config.calculateProbability = false → Counted (2 ^ 53) s := by
    intro hlowers hcalc
    rw [if_neg (by rw [hcalc]; decide)] at hfew
    rcases hfew hlowers with hbound | hlength
    · exact fun k c hc => (hsound.bounded hcalc k c hc).trans hbound
    · exact fun k c hc => (run_counted hpre hs (by omega) k c hc).trans (by omega)
  have hset : ∀ a : Access, lowers config = true → a.ip ∉ s.btb (getSetIndex config a.ip) →
      config.totalWays ≤ size (s.btb (getSetIndex config a.ip)) →
      (LowersWell config x.order s.branchRecord (s.btb (getSetIndex config a.ip)) a.ip ↔
        SparedSet config x.order s.branchRecord (s.btb (getSetIndex config a.ip))) := by
    intro a hlowers habsent hfull
    obtain ⟨v, -, -, hchosen, -⟩ := evict_chosen config s.branchRecord x.order (config.ways_pos.trans_le hfull).ne'
      (hgood.near (getSetIndex config a.ip))
    exact lowersWell_iff hchosen hlowers habsent hfull (hdouble hlowers)
  constructor
  · intro h a ha hlowers habsent hfull
    exact (hset a hlowers habsent hfull).mp (h a ha).2
  · refine fun h a ha => ⟨hcounts a, fun hlowers habsent hfull => ?_⟩
    exact (hset a hlowers habsent hfull).mpr (h a ha hlowers habsent hfull) hlowers habsent hfull

theorem everyStep_safe (hfew : Few config inputs)
    (h : EveryStep (step config) .initial (fun _ s x => Sound config s → Spared config s x) inputs) :
    EveryStep (step config) .initial (fun _ => Safe config) inputs := by
  induction inputs using List.reverseRecOn with
  | nil =>
      intro pre x post s heq
      exact absurd heq.symm (List.append_ne_nil_of_right_ne_nil pre (List.cons_ne_nil x post))
  | append_singleton pre x ih =>
      have hpre := ih (few_of_append hfew) h.of_append
      refine hpre.concat (fun s hs => ?_)
      exact (safe_iff hfew hpre hs).mpr (h.last hs (run_sound hpre hs))

theorem run_spared_iff (hfew : Few config inputs) :
    CountersSound config inputs ↔ EveryStep (step config) .initial (fun _ => Spared config) inputs := by
  rw [countersSound_iff]
  constructor
  · intro h pre x post s heq hs
    subst heq
    exact (safe_iff hfew h.of_append hs).mp (h pre x post s rfl hs)
  · intro h
    exact everyStep_safe hfew (h.imp (fun _ _ _ _ _ _ hspared _ => hspared))

theorem Spares.spared (h : Spares config) (hgood : Good config s) (hsound : Sound config s) (x : Input) :
    Spared config s x := by
  intro a _ hlowers _ hfull
  obtain ⟨hcalc, hmode⟩ := h.resolve_left (by rw [hlowers]; decide)
  obtain ⟨v, -, -, hchosen, -⟩ := evict_chosen config s.branchRecord x.order (config.ways_pos.trans_le hfull).ne'
    (hgood.near (getSetIndex config a.ip))
  rw [SparedSet, if_pos hcalc]
  refine ⟨v, eligible_of_chosen hchosen, fun k hk hrecorded => ?_⟩
  rcases hmode with hmode | hbound
  · exact hchosen.le hmode hk
  · -- With the bound 0 no counter ever leaves 0.
    have hzero : ∀ j, takenProbability config s.branchRecord j = 0 := by
      intro j
      cases hj : s.branchRecord.lookup j with
      | none => rw [takenProbability, hj]
      | some c =>
          have htaken : c.taken = 0 := Nat.le_zero.mp (hbound ▸ hsound.bounded hcalc j c hj)
          rw [takenProbability_eq hcalc hj (htaken.trans_le (Nat.zero_le _)), htaken, Nat.cast_zero]
    rw [hzero, hzero]

theorem countersSound_of_spares (h : Spares config) (hfew : Few config inputs) : CountersSound config inputs := by
  rw [countersSound_iff]
  exact everyStep_safe hfew (fun _ x _ _ _ hs hsound => h.spared (run_good hs) hsound x)

end Runs

section Bounds

variable {config : Config} {s t u : State} {x : Input} {inputs : List Input} {b : Nat} {hb : b < 2 ^ 64} {set ip : Nat}

def withBound (config : Config) (b : Nat) (hb : b < 2 ^ 64) : Config := { config with counterUpperBound := b, bound_lt := hb }

def Fresh (config : Config) (s : State) (x : Input) : Prop :=
  ((accessed config s x).all fun a => (s.branchRecord.lookup a.ip).isNone) = true

instance : Decidable (Fresh config s x) := inferInstanceAs (Decidable (_ = true))

def freshStep (config : Config) (s : State) (x : Input) : Option State := if Fresh config s x then step config s x else none

instance : DecidablePred Event.Fits
  | .increment taken => inferInstanceAs (Decidable (taken + 1 < 2 ^ 64))
  | .decrease victimCounter taken => inferInstanceAs (Decidable (victimCounter ≤ taken))

def Same (config : Config) (b : Nat) : Prop := config.calculateProbability = true ∨ (0 < config.counterUpperBound ∧ 0 < b)

theorem updateProbability_congr (h : Same config b) (hnone : u.branchRecord.lookup ip = none) (ty : BranchType) (taken : Bool) :
    updateProbability (withBound config b hb) u ip ty taken = updateProbability config u ip ty taken := by
  have hupdate : (Taken.mk 0 0 ty).update (withBound config b hb) ty taken = (Taken.mk 0 0 ty).update config ty taken := by
    have hretype : (Taken.mk 0 0 ty).retype ty = ⟨0, 0, ty⟩ := if_neg (not_not.mpr rfl)
    cases taken with
    | false => rfl
    | true =>
        simp only [Taken.update, hretype, if_true, withBound]
        rcases h with hcalc | ⟨hbound, hb'⟩
        · rw [if_pos hcalc, if_pos hcalc]
        · rw [if_pos hbound, if_pos hb']
  simp only [updateProbability, hnone, Option.getD_none, hupdate]

theorem insertToBtb_congr (hlowers : lowers (withBound config b hb) = lowers config) (o : IterOrder) (s : State)
    (ip target : Nat) (ty : BranchType) :
    insertToBtb (withBound config b hb) o s ip target ty = insertToBtb config o s ip target ty := by
  have hevict : evictFrom (withBound config b hb) o s = evictFrom config o s := by
    funext set
    simp only [evictFrom, hlowers]
    rfl
  simp only [insertToBtb, hevict]
  rfl

theorem insert_congr (hgood : Good config s) (habsent : (s.btb (getSetIndex config ip)).lookup ip = none)
    (hsame : Same config b) (hlowers : lowers (withBound config b hb) = lowers config) (hnone : s.branchRecord.lookup ip = none)
    (o : IterOrder) (target : Nat) (ty : BranchType) (taken : Bool) :
    (insertToBtb (withBound config b hb) o s ip target ty).map (fun s => updateProbability (withBound config b hb) s ip ty taken) =
      (insertToBtb config o s ip target ty).map (fun s => updateProbability config s ip ty taken) := by
  obtain ⟨u, hu, -, hprepared⟩ := insert_prepared hgood (AList.lookup_eq_none.mp habsent) o target ty
  rw [insertToBtb_congr hlowers, hu, Option.map_some, Option.map_some]
  exact congrArg some (updateProbability_congr hsame (hprepared.self.trans hnone) ty taken)

theorem find_congr (s : State) (ip : Nat) : findBtbEntry (withBound config b hb) s ip = findBtbEntry config s ip := rfl

theorem existing_congr (hsame : Same config b) (hnone : u.branchRecord.lookup ip = none) (target : Nat) (ty : BranchType)
    (taken : Bool) : updateExisting (withBound config b hb) u ip target taken ty = updateExisting config u ip target taken ty := by
  unfold updateExisting
  exact updateProbability_congr hsame (by exact hnone) ty taken

theorem resident_of_lookup {e : Entry} (h : (s.btb (getSetIndex config ip)).lookup ip = some e) :
    resident config s ip = true := by
  rw [resident, h]
  rfl

theorem updateBtb_congr {target : Nat} {taken : Bool} {ty : BranchType} (hgood : Good config s) (hsame : Same config b)
    (hlowers : lowers (withBound config b hb) = lowers config)
    (hnew : ty.usesBtb = true → resident config s ip = true ∨ (target ≠ 0 ∧ taken = true) → s.branchRecord.lookup ip = none)
    (o : IterOrder) : updateBtb (withBound config b hb) o s ip target taken ty = updateBtb config o s ip target taken ty := by
  generalize hs₁ : ({ s with side := SideTables.update s.side ip target taken ty } : State) = s₁
  have hgood₁ : Good config s₁ := by
    rw [← hs₁]
    exact ⟨hgood.sized, hgood.near, hgood.stream⟩
  have hbtb : s₁.btb = s.btb := by rw [← hs₁]
  have hrecord : s₁.branchRecord = s.branchRecord := by rw [← hs₁]
  simp only [updateBtb, hs₁]
  by_cases hty : ty.usesBtb = true
  swap
  · rw [if_neg hty, if_neg hty]
  rw [if_pos hty, if_pos hty, find_congr]
  cases hlookup : (s.btb (getSetIndex config ip)).lookup ip with
  | none =>
      rw [find_absent (hbtb ▸ hlookup)]
      by_cases hinsert : target ≠ 0 ∧ taken = true
      · simp only [if_pos hinsert]
        exact insert_congr (s := { s₁ with stream := (StreamBuffer.streamBufferUpdate s₁.stream ip).1 })
          ⟨hgood₁.sized, hgood₁.near, StreamBuffer.update_bounded hgood₁.stream ip⟩ (hbtb ▸ hlookup) hsame hlowers
          (hrecord ▸ hnew hty (.inr hinsert)) o target ty taken
      · simp only [if_neg hinsert]
  | some e =>
      have hnone : s₁.branchRecord.lookup ip = none := hrecord ▸ hnew hty (.inl (resident_of_lookup hlookup))
      rw [find_eq, hbtb, hlookup]
      exact congrArg some (existing_congr (u := (findBtbEntry config s₁ ip).1) hsame hnone target ty taken)

theorem prefetchBtb_congr {target : Nat} {taken toStreamBuffer : Bool} {ty : BranchType} (hgood : Good config s)
    (hsame : Same config b) (hlowers : lowers (withBound config b hb) = lowers config)
    (hnew : ty.usesBtb = true → resident config s ip = true ∨ (target ≠ 0 ∧ taken = true ∧ toStreamBuffer = false) →
      s.branchRecord.lookup ip = none) (o : IterOrder) :
    prefetchBtb (withBound config b hb) o s ip target ty taken toStreamBuffer =
      prefetchBtb config o s ip target ty taken toStreamBuffer := by
  simp only [prefetchBtb]
  by_cases hty : ty.usesBtb = true
  swap
  · rw [if_neg hty, if_neg hty]
  rw [if_pos hty, if_pos hty, find_congr]
  cases hlookup : (s.btb (getSetIndex config ip)).lookup ip with
  | none =>
      rw [find_absent hlookup]
      by_cases hinsert : target ≠ 0 ∧ taken = true
      · simp only [if_pos hinsert]
        cases toStreamBuffer with
        | true => rfl
        | false =>
            rw [if_neg Bool.false_ne_true, if_neg Bool.false_ne_true]
            exact insert_congr hgood hlookup hsame hlowers (hnew hty (.inr ⟨hinsert.1, hinsert.2, rfl⟩)) o target ty taken
      · simp only [if_neg hinsert]
  | some e =>
      have hnone : s.branchRecord.lookup ip = none := hnew hty (.inl (resident_of_lookup hlookup))
      rw [find_eq, hlookup]
      exact congrArg some (existing_congr (u := (findBtbEntry config s ip).1) hsame hnone target ty taken)

theorem step_congr (hgood : Good config s) (hsame : Same config b) (hlowers : lowers (withBound config b hb) = lowers config)
    (hfresh : Fresh config s x) : step (withBound config b hb) s x = step config s x := by
  obtain ⟨o, call⟩ := x
  have hnone : ∀ a, accessed config s ⟨o, call⟩ = some a → s.branchRecord.lookup a.ip = none := by
    intro a ha
    rw [Fresh, ha, Option.all_some, Option.isNone_iff_eq_none] at hfresh
    exact hfresh
  cases call with
  | predict ip ty => rfl
  | update ip target taken ty =>
      exact updateBtb_congr hgood hsame hlowers (fun hty hmet => hnone ⟨ip, ty, taken⟩ (if_pos ⟨hty, hmet⟩)) o
  | prefetch ip target ty taken toStreamBuffer =>
      exact prefetchBtb_congr hgood hsame hlowers (fun hty hmet => hnone ⟨ip, ty, taken⟩ (if_pos ⟨hty, hmet⟩)) o

theorem run_congr (hgood : Good config s) (hsame : Same config b) (hlowers : lowers (withBound config b hb) = lowers config)
    (h : run (freshStep config) s inputs = some t) : run (step (withBound config b hb)) s inputs = some t := by
  induction inputs generalizing s with
  | nil => exact h
  | cons x inputs ih =>
      rw [run_cons, Option.bind_eq_some_iff] at h
      obtain ⟨u, hu, h⟩ := h
      rw [freshStep] at hu
      split_ifs at hu with hfresh
      obtain ⟨w, hw, hgoodW, -⟩ := step_effect hgood x
      obtain rfl := Option.some.inj (hu.symm.trans hw)
      rw [run_cons, step_congr hgood hsame hlowers hfresh, hu]
      exact ih hgoodW h

theorem not_countersSound (config : Config) {b : Nat} (hb : b < 2 ^ 64) (hsame : Same config b)
    (hlowers : lowers (withBound config b hb) = lowers config)
    (h : (run (freshStep config) .initial inputs).map (fun s => decide (∀ e ∈ s.events, e.Fits)) = some false) :
    ¬CountersSound (withBound config b hb) inputs := by
  obtain ⟨s, hs, hfits⟩ := Option.map_eq_some_iff.mp h
  intro hsound
  have hrun := run_congr (initial_good config) hsame hlowers hs
  exact (of_decide_eq_false hfits) (hsound inputs [] s (List.append_nil inputs).symm hrun).fits

end Bounds

section Main

/-- The newest first, as the hash map meets them, but 106500 in front of 4, with which it shares a bucket. -/
def meets : IterOrder :=
  ⟨fun l => l.filter (fun ip => decide (ip ∉ [4, 106500])) ++ l.filter (fun ip => !decide (ip ∉ [4, 106500])),
    fun l => List.filter_append_perm _ l⟩

def jump (ip : Nat) : Input := ⟨meets, .update ip 64 true .directJump⟩

/-- Jumps of one set, each taken once, with probability 1 however often they were taken. -/
def jumps : List Input := [4, 8196, 106500, 16388, 24580, 32772].map jump

/-- Once their counters are used up, three residents are near again when a sixth jump comes. -/
def returns : List Input := [4, 8196, 16388, 24580, 32772].map jump ++
  [8196, 16388, 24580].map (fun ip => ⟨meets, .predict ip .directJump⟩) ++ [jump 40964]

/-- Each configuration that does not spare has a run that wraps around. -/
theorem Spares.of_sound {config : Config}
    (h : ∀ inputs, Few (shipped config) inputs → CountersSound (shipped config) inputs) : Spares config := by
  by_contra hnot
  rw [Spares, not_or, Bool.not_eq_false] at hnot
  obtain ⟨hlowers, hcase⟩ := hnot
  obtain ⟨sets, ways, hways, mode, calculates, clear, bound, hbound, update⟩ := config
  have hsettings := hlowers
  simp only [lowers, Bool.and_eq_true, decide_eq_true_iff] at hsettings
  obtain ⟨⟨rfl, hfinite⟩, rfl⟩ := hsettings
  cases calculates with
  | true =>
      have hfew : Few (shipped ⟨sets, ways, hways, mode, true, true, bound, hbound, true⟩) jumps :=
        show jumps.length < 2 ^ 64 by decide
      refine not_countersSound ⟨2048, 4, by decide, mode, true, true, 10, by decide, true⟩ hbound (.inl rfl) hlowers ?_
        (h jumps hfew)
      cases mode <;> decide +kernel
  | false =>
      simp only [true_and, not_or, not_not] at hcase
      obtain ⟨rfl, hpos⟩ := hcase
      have hfew : Few (shipped ⟨sets, ways, hways, .srripProb, false, true, bound, hbound, true⟩) returns := by
        exact fun _ => .inr (show returns.length ≤ 2 ^ 53 by decide)
      refine not_countersSound ⟨2048, 4, by decide, .srripProb, false, true, 10, by decide, true⟩ hbound
        (.inr ⟨by decide, Nat.pos_of_ne_zero hpos⟩) hlowers ?_ (h returns hfew)
      decide +kernel

/-- No taken counter ever wraps around, and without probabilities they stay bounded, exactly when the sets that branches
come into are spared; and that is so in every run of the module as it is built exactly for the configurations that spare. -/
theorem counters_iff (config : Config) :
    (∀ inputs, Few config inputs → (CountersSound config inputs ↔
      EveryStep (step config) .initial (fun _ => Spared config) inputs)) ∧
      ((∀ inputs, Few (shipped config) inputs → CountersSound (shipped config) inputs) ↔ Spares config) :=
  ⟨fun _ hfew => run_spared_iff hfew, Spares.of_sound, fun h _ hfew => countersSound_of_spares h hfew⟩

def unconditional : Config := ⟨2048, 4, by decide, .prob, true, true, 10, by decide, true⟩

def counting : Config := { unconditional with calculateProbability := false }

theorem counters_iff_counting : CountersSound (shipped counting) jumps ∧
    ¬∀ inputs, Few (shipped unconditional) inputs → CountersSound (shipped unconditional) inputs := by
  constructor
  · exact (counters_iff counting).2.mpr (.inr ⟨rfl, .inl (by decide)⟩) jumps (fun _ => .inl (by decide))
  · rw [(counters_iff unconditional).2, Spares, not_or]
    exact ⟨by decide, fun h => absurd h.1 (by decide)⟩

/-- The jump 24580 evicts 4 and uses up the others, of which 32772 evicts one and lowers the other two again. -/
theorem jumps_wrap : ¬CountersSound unconditional jumps := by
  intro h
  have hrun : ((run (step unconditional) .initial jumps).map (fun s => s.events.drop 4)) = some [.decrease 1 1, .decrease 1 1,
      .decrease 1 1, .increment 0, .decrease 1 1, .decrease 1 0, .decrease 1 0, .increment 0] := by decide +kernel
  obtain ⟨s, hs, hevents⟩ := Option.map_eq_some_iff.mp hrun
  have hfits := (h jumps [] s (List.append_nil jumps).symm hs).fits (.decrease 1 0) (List.mem_of_mem_drop (i := 4) ?_)
  · exact Nat.not_succ_le_zero 0 hfits
  · rw [hevents]
    decide

end Main

end Thermometer.ProbBtbSpared
