import Mathlib.Algebra.Order.Field.Rat
import Thermometer.HotWarmColdVictim

namespace Thermometer.HotWarmColdCategory

open Trace Lib.Tables Lib.Stamps Lib.Runs HotWarmColdBtb HotWarmColdVictim

variable {D : Type} [LinearOrder D]

/-- The first boundary that is not below a ratio, or the hottest category. -/
def category (boundary : List D) (q : D) : Nat := boundary.findIdx (fun b => q ≤ b)

/-- The category in which the incoming branch competes, if it does. -/
def incoming (flags : Flags) (boundary : List D) (q : D) : Option Nat :=
  let i := category boundary q
  if flags.currHotter then
    if i + 1 = boundary.length then some (i + 1) else if i = boundary.length then none else some i
  else some i

/-- The profile gives every branch in question a ratio. -/
def Profiled [Zero D] [One D] (record : Table D) (q : Nat → D) (ip : Nat) : Prop :=
  record.lookup ip = some (q ip) ∧ 0 ≤ q ip ∧ q ip ≤ 1

/-- The victim lies in the lowest category that has a candidate. A resident one is
the oldest of its category, and the incoming branch is one only in its category. -/
def Coldest (flags : Flags) (boundary : List D) (q : Nat → D) (t : Table Entry) (ip victim : Nat) : Prop :=
  ∃ k, (∀ j ∈ t, k ≤ category boundary (q j)) ∧ (∀ m, incoming flags boundary (q ip) = some m → k ≤ m) ∧
    ((victim = ip ∧ incoming flags boundary (q ip) = some k) ∨
      ∃ e, t.lookup victim = some e ∧ category boundary (q victim) = k ∧
        ∀ j f, t.lookup j = some f → category boundary (q j) = k → j ≠ victim → e.lru < f.lru)

structure Filed (n : Nat) (c : Candidates) (P : Nat → Nat → Prop) : Prop where
  dontCare : c.dontCare = []
  length : c.categories.length = n
  mem : ∀ i, i < n → ∀ j, j ∈ c.categories.getD i [] ↔ P i j

theorem category_le (boundary : List D) (q : D) : category boundary q ≤ boundary.length := List.findIdx_le_length

theorem push_filed {n : Nat} (i ip : Nat) {c : Candidates} {P : Nat → Nat → Prop} (h : Filed n c P) :
    Filed n (c.push i ip) (fun k j => P k j ∨ k = i ∧ j = ip) := by
  refine ⟨h.dontCare, (List.length_modify _ _ _).trans h.length, fun k hk j => ?_⟩
  rw [← h.mem k hk j, Candidates.push, List.getD_eq_getElem?_getD, List.getD_eq_getElem?_getD, List.getElem?_modify]
  have hlt : k < c.categories.length := by rw [h.length]; exact hk
  rw [List.getElem?_eq_getElem hlt]
  by_cases hi : i = k
  · simp [hi]
  · simp [hi, Ne.symm hi]

variable [Zero D] [One D] {env : Env D} {h : HotWarmCold D} {q : Nat → D} {ip : Nat}

theorem ratio_eq (hq : Profiled h.branchRecord q ip) : getHitAccessRatio env h ip = q ip := by
  rw [getHitAccessRatio, hq.1, Option.getD_some]

theorem addToCandidate_resident (hq : Profiled h.branchRecord q ip) (c : Candidates) :
    addToCandidate env h false c ip = c.push (category h.categoryBoundary (q ip)) ip := by
  rw [addToCandidate, ratio_eq hq]
  simp only [if_neg (not_lt.mpr hq.2.1)]
  cases hf : h.categoryBoundary.findIdx? (fun b => q ip ≤ b) with
  | none =>
      rw [category, List.findIdx?_eq_none_iff_findIdx_eq.mp hf]
      simp
  | some i =>
      rw [category, (List.findIdx?_eq_some_iff_findIdx_eq.mp hf).2]
      simp

theorem addToCandidate_incoming (hq : Profiled h.branchRecord q ip) (c : Candidates) :
    addToCandidate env h h.flags.currHotter c ip =
      match incoming h.flags h.categoryBoundary (q ip) with
      | some i => c.push i ip
      | none => c := by
  rw [addToCandidate, ratio_eq hq, incoming]
  simp only [if_neg (not_lt.mpr hq.2.1)]
  cases hf : h.categoryBoundary.findIdx? (fun b => q ip ≤ b) with
  | none =>
      have hcat : category h.categoryBoundary (q ip) = h.categoryBoundary.length :=
        List.findIdx?_eq_none_iff_findIdx_eq.mp hf
      rw [hcat]
      cases h.flags.currHotter <;> simp
  | some i =>
      obtain ⟨hlt, hcat⟩ := List.findIdx?_eq_some_iff_findIdx_eq.mp hf
      have hcat : category h.categoryBoundary (q ip) = i := hcat
      rw [hcat]
      cases h.flags.currHotter with
      | false => simp
      | true =>
          by_cases hi : i + 1 = h.categoryBoundary.length
          · simp [hi]
          · simp [hi, Nat.ne_of_lt hlt]

theorem fold_filed (env : Env D) {n : Nat} {l : List (Nat × Entry)} (hl : ∀ a ∈ l, Profiled h.branchRecord q a.1)
    {c : Candidates}
    {P : Nat → Nat → Prop} (hc : Filed n c P) :
    Filed n (l.foldl (fun c entry => addToCandidate env h false c entry.1) c)
      (fun k j => P k j ∨ j ∈ l.map Prod.fst ∧ category h.categoryBoundary (q j) = k) := by
  induction l generalizing c P with
  | nil =>
      refine ⟨hc.dontCare, hc.length, fun i hi j => (hc.mem i hi j).trans ?_⟩
      simp
  | cons a l ih =>
      rw [List.foldl_cons, addToCandidate_resident (hl a List.mem_cons_self)]
      obtain ⟨hd, hlen, hmem⟩ := ih (fun b hb => hl b (List.mem_cons_of_mem a hb)) (push_filed _ _ hc)
      refine ⟨hd, hlen, fun i hi j => (hmem i hi j).trans ?_⟩
      rw [List.map_cons, List.mem_cons]
      constructor
      · rintro ((hp | ⟨rfl, rfl⟩) | ⟨hj, hcat⟩)
        · exact .inl hp
        · exact .inr ⟨.inl rfl, rfl⟩
        · exact .inr ⟨.inr hj, hcat⟩
      · rintro (hp | ⟨rfl | hj, hcat⟩)
        · exact .inl (.inl hp)
        · exact .inl (.inr ⟨hcat.symm, rfl⟩)
        · exact .inr ⟨hj, hcat⟩

def Candidate (h : HotWarmCold D) (q : Nat → D) (ip set k j : Nat) : Prop :=
  (j ∈ h.btb set ∧ category h.categoryBoundary (q j) = k) ∨
    (j = ip ∧ incoming h.flags h.categoryBoundary (q ip) = some k)

theorem candidates_filed (env : Env D) (hkeep : h.flags.considerKeep = true) {set : Nat}
    (hq : ∀ j, j = ip ∨ j ∈ h.btb set → Profiled h.branchRecord q j) :
    Filed (h.categoryBoundary.length + 1) (candidates env h ip set) (Candidate h q ip set) := by
  let c₀ : Candidates := ⟨List.replicate (h.categoryBoundary.length + 1) [], []⟩
  have hstart : Filed (h.categoryBoundary.length + 1) c₀ (fun _ _ => False) := by
    refine ⟨rfl, List.length_replicate, fun i hi j => ?_⟩
    simp [c₀, List.getD_eq_getElem?_getD, hi]
  have hres : ∀ a ∈ iterate env.order (h.btb set), Profiled h.branchRecord q a.1 := by
    intro a ha
    exact hq a.1 (.inr ((mem_iterate_keys env.order _ _).mp (List.mem_map_of_mem ha)))
  have hfold := fold_filed env hres hstart
  rw [candidates, if_pos hkeep, addToCandidate_incoming (hq ip (.inl rfl))]
  cases hin : incoming h.flags h.categoryBoundary (q ip) with
  | none =>
      refine ⟨hfold.dontCare, hfold.length, fun i hi j => (hfold.mem i hi j).trans ?_⟩
      rw [Candidate, hin, mem_iterate_keys, false_or]
      simp
  | some m =>
      have hpush := push_filed m ip hfold
      refine ⟨hpush.dontCare, hpush.length, fun i hi j => (hpush.mem i hi j).trans ?_⟩
      rw [Candidate, hin, mem_iterate_keys, false_or, Option.some.injEq]
      refine or_congr_right ?_
      rw [and_comm, eq_comm (a := m)]

/-- The builds that choose by age alone within a category. -/
structure PlainLru (flags : Flags) : Prop where
  lru : flags.useLru = true
  keep : flags.considerKeep = true
  warm : flags.considerWarmTaken = false
  hot : flags.considerHotTaken = false

omit [LinearOrder D] [Zero D] [One D] in
theorem chooseVictimOneCategory_plain (hf : PlainLru h.flags) (set i : Nat) (l : List Nat) :
    chooseVictimOneCategory env h set l (judgeConsiderTaken h i) = findLruMin Entry.lru env.rand (h.btb set) l := by
  have hjudge : judgeConsiderTaken h i = false := by simp [judgeConsiderTaken, hf.warm, hf.hot]
  rw [chooseVictimOneCategory, hjudge]
  simp [hf.lru]

/-- With a resident there is a lowest category, and its candidates are the final ones. -/
theorem chooseVictimGeneral_eq (env : Env D) (hf : PlainLru h.flags) {set : Nat}
    (hq : ∀ j, j = ip ∨ j ∈ h.btb set → Profiled h.branchRecord q j) (hne : ∃ j, j ∈ h.btb set) :
    ∃ k l, chooseVictimGeneral env h ip set = some (findLruMin Entry.lru env.rand (h.btb set) l) ∧ l ≠ [] ∧
      (∀ j, j ∈ l ↔ Candidate h q ip set k j) ∧ ∀ m j, Candidate h q ip set m j → k ≤ m := by
  have hfiled := candidates_filed env hf.keep hq
  have hle : ∀ m j, Candidate h q ip set m j → m < h.categoryBoundary.length + 1 := by
    intro m j hm
    rcases hm with ⟨-, rfl⟩ | ⟨-, hin⟩
    · exact Nat.lt_succ_of_le (category_le _ _)
    · have hcat := category_le h.categoryBoundary (q ip)
      rw [incoming] at hin
      split_ifs at hin with h₁ h₂ h₃
      all_goals
        rw [Option.some.injEq] at hin
        omega
  cases hfind : (candidates env h ip set).categories.findIdx? (fun l => l ≠ []) with
  | none =>
      obtain ⟨j, hj⟩ := hne
      have hmem := (hfiled.mem _ (hle _ j (.inl ⟨hj, rfl⟩)) j).mpr (.inl ⟨hj, rfl⟩)
      rw [List.findIdx?_eq_none_iff] at hfind
      have hlt : category h.categoryBoundary (q j) < (candidates env h ip set).categories.length := by
        rw [hfiled.length]
        exact hle _ j (.inl ⟨hj, rfl⟩)
      rw [List.getD_eq_getElem?_getD, List.getElem?_eq_getElem hlt, Option.getD_some] at hmem
      have hempty := hfind _ (List.getElem_mem hlt)
      simp only [ne_eq, decide_not, Bool.not_eq_false', decide_eq_true_eq] at hempty
      rw [hempty] at hmem
      cases hmem
  | some k =>
      rw [List.findIdx?_eq_some_iff_getElem] at hfind
      obtain ⟨hk, hcat, hbefore⟩ := hfind
      have hget : (candidates env h ip set).categories.getD k [] = (candidates env h ip set).categories[k] := by
        rw [List.getD_eq_getElem?_getD, List.getElem?_eq_getElem hk, Option.getD_some]
      refine ⟨k, (candidates env h ip set).categories[k], ?_, by simpa using hcat, ?_, ?_⟩
      · have hfind : (candidates env h ip set).categories.findIdx? (fun l => l ≠ []) = some k := by
          rw [List.findIdx?_eq_some_iff_getElem]
          exact ⟨hk, hcat, hbefore⟩
        rw [chooseVictimGeneral]
        simp only [hfind, hfiled.dontCare, List.all_nil, if_true, List.append_nil]
        rw [chooseVictimOneCategory_plain hf, hget]
      · intro j
        rw [← hget]
        exact hfiled.mem k (by rw [← hfiled.length]; exact hk) j
      · intro m j hm
        by_contra hlt
        have hmk : m < k := Nat.lt_of_not_le hlt
        have hmem := (hfiled.mem m (hle m j hm) j).mpr hm
        rw [List.getD_eq_getElem?_getD, List.getElem?_eq_getElem (Nat.lt_trans hmk hk), Option.getD_some] at hmem
        have hempty := hbefore m hmk
        simp only [ne_eq, decide_not, Bool.not_eq_true', decide_eq_false_iff_not, not_not] at hempty
        rw [hempty] at hmem
        cases hmem

theorem coldest_of_stamped (env : Env D) (hf : PlainLru h.flags) {set : Nat} (hs : Stamped Entry.lru (h.btb set))
    (hq : ∀ j, j = ip ∨ j ∈ h.btb set → Profiled h.branchRecord q j) (hne : ∃ j, j ∈ h.btb set) :
    ∃ v, chooseVictimGeneral env h ip set = some v ∧ Coldest h.flags h.categoryBoundary q (h.btb set) ip v := by
  obtain ⟨k, l, hv, hl, hmem, hmin⟩ := chooseVictimGeneral_eq env hf hq hne
  refine ⟨_, hv, k, fun j hj => hmin _ j (.inl ⟨hj, rfl⟩), fun m hm => hmin m ip (.inr ⟨rfl, hm⟩), ?_⟩
  rcases findLruMin_cases hl env.rand (h.btb set) with ⟨hin, hout⟩ | ⟨hin, e, he, hold⟩
  · rcases (hmem _).mp hin with ⟨hres, -⟩ | hip
    · exact absurd hres hout
    · exact .inl hip
  · rcases (hmem _).mp hin with ⟨-, hcat⟩ | hip
    · refine .inr ⟨e, he, hcat, fun j f hj hcj hne => ?_⟩
      have hle := hold j ((hmem j).mpr (.inl ⟨(mem_iff_lookup _ j).mpr ⟨f, hj⟩, hcj⟩)) f hj
      refine Nat.lt_of_le_of_ne hle (fun heq => hne ?_)
      exact (hs _ _ _ _ he hj heq).symm
    · exact .inl hip

/-- In every state a run reaches, a full set gives up a branch of its lowest category. -/
theorem chooseVictimGeneral_coldest {flags : Flags} (hf : PlainLru flags) {sets ways : Nat} (hw : 0 < ways)
    {hotLower coldUpper warmSplit : D} {record : Table D} {es : List (Env D × Nat × Call)} {s : State D}
    (hrun : run step (initializeBtb flags sets ways hotLower coldUpper warmSplit record) es = some s)
    (hfull : s.btb.totalWays ≤ size (s.btb.btb (s.btb.set ip)))
    (hq : ∀ j, j = ip ∨ j ∈ s.btb.btb (s.btb.set ip) → Profiled record q j) (env : Env D) :
    ∃ v, chooseVictimGeneral env s.btb ip (s.btb.set ip) = some v ∧
      Coldest flags s.btb.categoryBoundary q (s.btb.btb (s.btb.set ip)) ip v := by
  have hinit : Kept (initializeBtb flags sets ways hotLower coldUpper warmSplit record).btb
      (initializeBtb flags sets ways hotLower coldUpper warmSplit record).btb := by
    refine ⟨rfl, rfl, rfl, rfl, rfl, fun i j k e f he => ?_⟩
    rw [show (initializeBtb flags sets ways hotLower coldUpper warmSplit record).btb.btb i = ∅ from rfl,
      AList.lookup_empty] at he
    cases he
  have hk := run_kept hinit hrun
  have hflags : s.btb.flags = flags := hk.flags
  have hrecord : s.btb.branchRecord = record := hk.record
  have hways : s.btb.totalWays = ways := hk.ways
  have hne : ∃ j, j ∈ s.btb.btb (s.btb.set ip) := by
    rw [hways] at hfull
    obtain ⟨j, hj⟩ := List.exists_mem_of_length_pos (Nat.lt_of_lt_of_le hw hfull)
    exact ⟨j, AList.mem_keys.mpr hj⟩
  have h := coldest_of_stamped env (hflags ▸ hf) (hk.stamped _) (hrecord ▸ hq) hne
  rwa [hflags] at h

def keepCurrHotterLru : Flags := ⟨false, true, false, false, true, false, true⟩

def jumpRatio (ip : Nat) : ℚ := if ip = 4 then 1 / 4 else if ip = 8 then 1 / 3 else 9 / 10

def jumpRecord : Table ℚ := (((∅ : Table ℚ).insert 4 (jumpRatio 4)).insert 8 (jumpRatio 8)).insert 12 (jumpRatio 12)

def coldJumps : List (Env ℚ × Nat × Call) :=
  [4, 8, 4].map (fun ip => (⟨.stored, 0, jumpRatio, fun _ => false⟩, 0, .update ip 40 true .directJump))

theorem chooseVictimGeneral_coldest_jumps : ∃ s,
    run step (initializeBtb keepCurrHotterLru 1 2 (4 / 5) (1 / 2) (1 / 2) jumpRecord) coldJumps = some s ∧
      ∀ env : Env ℚ, ∃ v, chooseVictimGeneral env s.btb 12 (s.btb.set 12) = some v ∧
        Coldest keepCurrHotterLru s.btb.categoryBoundary jumpRatio (s.btb.btb (s.btb.set 12)) 12 v := by
  have hfacts : (run step (initializeBtb keepCurrHotterLru 1 2 (4 / 5) (1 / 2) (1 / 2) jumpRecord) coldJumps).map
      (fun s => (s.btb.totalSets, s.btb.totalWays, (s.btb.btb 0).keys)) = some (1, 2, [4, 8]) := by decide +kernel
  obtain ⟨s, hs, heq⟩ := Option.map_eq_some_iff.mp hfacts
  simp only [Prod.mk.injEq] at heq
  obtain ⟨hsets, hways, hkeys⟩ := heq
  have hset : s.btb.set 12 = 0 := by rw [HotWarmCold.set, hsets]; rfl
  have hprofile : ∀ j, j = 12 ∨ j ∈ s.btb.btb (s.btb.set 12) → Profiled jumpRecord jumpRatio j := by
    have hall : ∀ j ∈ [12, 4, 8], Profiled jumpRecord jumpRatio j := by
      unfold Profiled
      decide +kernel
    intro j hj
    rw [hset, AList.mem_keys, hkeys] at hj
    exact hall j (List.mem_cons.mpr hj)
  have hfull : s.btb.totalWays ≤ size (s.btb.btb (s.btb.set 12)) := by
    rw [hset, hways, size, hkeys]
    exact Nat.le_refl _
  exact ⟨s, hs, chooseVictimGeneral_coldest ⟨rfl, rfl, rfl, rfl⟩ (by decide) hs hfull hprofile⟩

end Thermometer.HotWarmColdCategory
