import Mathlib.Data.List.Find
import Mathlib.Data.List.Flatten
import Mathlib.Data.Nat.Bitwise
import Mathlib.Logic.Function.Basic

namespace Thermometer.LoopPredictor
def logl : Nat := 5
def widthNbIterLoop : Nat := 10
def loopTag : Nat := 10
def confLoop : Nat := 15

/-- An entry of the loop predictor, `lentry`. -/
structure LEntry where
  nbIter : Nat
  confid : Nat
  currentIter : Nat
  tag : Nat
  age : Nat
  dir : Bool
  deriving DecidableEq, Repr

def emptyEntry : LEntry := ⟨0, 0, 0, 0, 0, false⟩

def lindex (pc : Nat) : Nat := ((pc ^^^ (pc >>> 2)) &&& (1 <<< (logl - 2) - 1)) <<< 2

def lib (pc : Nat) : Nat := (pc >>> (logl - 2)) &&& (1 <<< (logl - 2) - 1)

def ltag (pc : Nat) : Nat :=
  let t := (pc >>> (logl - 2)) &&& (1 <<< (2 * loopTag) - 1)
  (t ^^^ (t >>> loopTag)) &&& (1 <<< loopTag - 1)

/-- The entry of way `i` of a branch. -/
def place (pc i : Nat) : Nat := (lindex pc ^^^ ((lib pc >>> i) <<< 2)) + i

structure Found where
  lhit : Option Nat
  lvalid : Bool
  predloop : Bool

def LEntry.trusted (e : LEntry) : Bool := e.confid == confLoop || e.confid * e.nbIter > 128

def LEntry.predict (e : LEntry) : Bool := if e.currentIter + 1 = e.nbIter then !e.dir else e.dir

def getloop (table : Nat → LEntry) (pc : Nat) : Found :=
  match (List.range 4).find? (fun i => (table (place pc i)).tag = ltag pc) with
  | none => ⟨none, false, false⟩
  | some i => ⟨some i, (table (place pc i)).trusted, (table (place pc i)).predict⟩

/-- One branch, with what the other predictors said of it and three random numbers. -/
structure Visit where
  pc : Nat
  taken : Bool
  tagePred : Bool
  mispredicted : Bool
  ageDraw : Nat
  wayDraw : Nat
  allocDraw : Nat

def LEntry.free (e : LEntry) : LEntry := { e with nbIter := 0, age := 0, confid := 0, currentIter := 0 }

/-- The counters of an entry whose loop has gone round once more. -/
def LEntry.count (e : LEntry) : LEntry :=
  let e := { e with currentIter := (e.currentIter + 1) &&& (1 <<< widthNbIterLoop - 1) }
  if e.currentIter > e.nbIter then { e with confid := 0, nbIter := 0 } else e

/-- A loop that is left: the same number of rounds as last time makes the entry more certain. -/
def LEntry.leave (e : LEntry) (taken : Bool) : LEntry :=
  let e :=
    if e.currentIter = e.nbIter then
      let e := { e with confid := if e.confid < confLoop then e.confid + 1 else e.confid }
      -- a count of 1 or 2 is not worth an entry
      if e.nbIter < 3 then { e with dir := taken, nbIter := 0, age := 0, confid := 0 } else e
    else if e.nbIter = 0 then { e with confid := 0, nbIter := e.currentIter }
    else { e with nbIter := 0, confid := 0 }
  { e with currentIter := 0 }

def LEntry.hit (e : LEntry) (f : Found) (v : Visit) : LEntry :=
  if f.lvalid && v.taken != f.predloop then e.free
  else
    let e :=
      if f.lvalid && (f.predloop != v.tagePred || v.ageDraw &&& 7 == 0) && decide (e.age < confLoop) then
        { e with age := e.age + 1 }
      else e
    let e := e.count
    if v.taken ≠ e.dir then e.leave v.taken else e

def LEntry.allocate (e : LEntry) (v : Visit) : LEntry :=
  if e.age = 0 then ⟨0, 0, 0, ltag v.pc, 7, !v.taken⟩ else { e with age := e.age - 1 }

/-- The loop over the ways ends after its first round, whether or not it finds a place. -/
def loopupdate (table : Nat → LEntry) (f : Found) (v : Visit) : Nat → LEntry :=
  match f.lhit with
  | some i => Function.update table (place v.pc i) ((table (place v.pc i)).hit f v)
  | none =>
      if v.mispredicted ∧ v.allocDraw &&& 3 = 0 then
        Function.update table (place v.pc (v.wayDraw &&& 3)) ((table (place v.pc (v.wayDraw &&& 3))).allocate v)
      else table

def step (table : Nat → LEntry) (v : Visit) : Nat → LEntry := loopupdate table (getloop table v.pc) v

/-- Beside the table, the outcomes of the branches that each entry has stood for since it was given
away, the newest first. -/
structure Traced where
  table : Nat → LEntry
  outcomes : Nat → List Bool

def Traced.step (s : Traced) (v : Visit) : Traced where
  table := LoopPredictor.step s.table v
  outcomes :=
    match (getloop s.table v.pc).lhit with
    | some i => Function.update s.outcomes (place v.pc i) (v.taken :: s.outcomes (place v.pc i))
    | none =>
        let j := place v.pc (v.wayDraw &&& 3)
        if v.mispredicted ∧ v.allocDraw &&& 3 = 0 ∧ (s.table j).age = 0 then
          Function.update s.outcomes j []
        else s.outcomes

def Traced.start : Traced := ⟨fun _ => emptyEntry, fun _ => []⟩

/-- A loop of `n` iterations, the newest first: it ended with one branch the other way. -/
def round (dir : Bool) (n : Nat) : List Bool := (!dir) :: List.replicate (n - 1) dir

/-- A counter of ten bits shows `c` after `m` iterations of a loop of `n`. Only from 1023 on it does not see
a round that is too long by 1024. -/
def Shows (n m c : Nat) : Prop := m = c ∨ (n = 1023 ∧ m % 1024 = c)

/-- `confid` whole rounds of `nbIter` iterations came right one after the other, and after them
`currentIter` iterations of the next; the round before ended the same way. -/
def Confirmed (e : LEntry) (h : List Bool) : Prop :=
  ∃ (m : Nat) (lengths : List Nat) (older : List Bool), Shows e.nbIter m e.currentIter ∧ lengths.length = e.confid ∧
    (∀ l ∈ lengths, Shows e.nbIter l e.nbIter) ∧
    h = List.replicate m e.dir ++ (lengths.map (round e.dir)).flatten ++ (!e.dir) :: older

/-- What an entry counts is what happened to it. Before the length of a round is known this is only
that the loop went on for so long. -/
structure Remembers (e : LEntry) (h : List Bool) : Prop where
  iter : e.nbIter < 1024
  current : e.currentIter < 1024
  confid : e.confid ≤ confLoop
  age : e.age ≤ confLoop
  unset : e.nbIter = 0 → e.confid = 0
  within : e.nbIter ≠ 0 → e.currentIter ≤ e.nbIter
  stays : ∃ older, h = List.replicate e.currentIter e.dir ++ older
  rounds : e.nbIter ≠ 0 → Confirmed e h

section Memory

variable {e : LEntry} {h l : List Bool} {f : Found} {v : Visit} {s : Traced} {n : Nat}

theorem remembers_free (e : LEntry) (hage : e.age ≤ confLoop) (h : List Bool) :
    Remembers { e with nbIter := 0, confid := 0, currentIter := 0 } h :=
  ⟨Nat.succ_pos 1023, Nat.succ_pos 1023, Nat.zero_le _, hage, fun _ => rfl, fun hne => absurd rfl hne,
    ⟨h, rfl⟩, fun hne => absurd rfl hne⟩

theorem wrap_eq (n : Nat) : n &&& (1 <<< widthNbIterLoop - 1) = n % 1024 := by
  have h := Nat.and_two_pow_sub_one_eq_mod n 10
  exact h

theorem Remembers.withAge (hrem : Remembers e h) (hn : n ≤ confLoop) : Remembers { e with age := n } h :=
  ⟨hrem.iter, hrem.current, hrem.confid, hn, hrem.unset, hrem.within, hrem.stays, hrem.rounds⟩

theorem Shows.succ {n m c : Nat} (h : Shows n m c) (hc : c ≤ n) (hn : n < 1024) : Shows n (m + 1) ((c + 1) % 1024) := by
  rw [Shows] at h ⊢
  omega

theorem stays_succ {dir : Bool} {c : Nat} (h : ∃ older, l = List.replicate c dir ++ older) :
    ∃ older, dir :: l = List.replicate ((c + 1) % 1024) dir ++ older := by
  obtain ⟨older, rfl⟩ := h
  have hle : (c + 1) % 1024 ≤ c + 1 := Nat.mod_le _ _
  refine ⟨List.replicate (c + 1 - (c + 1) % 1024) dir ++ older, ?_⟩
  rw [← List.append_assoc, List.replicate_append_replicate, Nat.add_sub_cancel' hle, List.replicate_succ, List.cons_append]

theorem Remembers.count (hrem : Remembers e h) : Remembers e.count (e.dir :: h) := by
  simp only [LEntry.count, wrap_eq]
  have hmod : (e.currentIter + 1) % 1024 < 1024 := Nat.mod_lt _ (by decide)
  split_ifs with hgt
  · exact ⟨Nat.succ_pos 1023, hmod, Nat.zero_le _, hrem.age, fun _ => rfl, fun hne => absurd rfl hne,
      stays_succ hrem.stays, fun hne => absurd rfl hne⟩
  · refine ⟨hrem.iter, hmod, hrem.confid, hrem.age, hrem.unset, fun _ => Nat.le_of_not_gt hgt, stays_succ hrem.stays, ?_⟩
    intro hne
    obtain ⟨m, lengths, older, hm, hlen, hall, heq⟩ := hrem.rounds hne
    refine ⟨m + 1, lengths, older, hm.succ (hrem.within hne) hrem.iter, hlen, hall, ?_⟩
    dsimp only
    rw [heq, List.replicate_succ, List.cons_append, List.cons_append]

theorem rounds_take (dir : Bool) (lengths : List Nat) (older : List Bool) (n : Nat) :
    ∃ older', (lengths.map (round dir)).flatten ++ (!dir) :: older =
      ((lengths.take n).map (round dir)).flatten ++ (!dir) :: older' := by
  induction lengths generalizing n with
  | nil => exact ⟨older, by rw [List.take_nil]⟩
  | cons l lengths ih =>
      cases n with
      | zero =>
          refine ⟨List.replicate (l - 1) dir ++ ((lengths.map (round dir)).flatten ++ (!dir) :: older), ?_⟩
          simp [round]
      | succ n =>
          obtain ⟨older', heq⟩ := ih n
          refine ⟨older', ?_⟩
          rw [List.take_succ_cons, List.map_cons, List.map_cons, List.flatten_cons, List.flatten_cons, List.append_assoc, heq,
            List.append_assoc]

theorem Confirmed.leave (hc : Confirmed e h) (hsame : (e.currentIter + 1) % 1024 = e.nbIter) (hle : e.currentIter ≤ e.nbIter)
    (hiter : e.nbIter < 1024) (n : Nat) (hn : n ≤ e.confid + 1) :
    Confirmed { e with confid := n, currentIter := 0 } ((!e.dir) :: h) := by
  obtain ⟨m, lengths, older, hm, hlen, hall, heq⟩ := hc
  obtain ⟨older', htake⟩ := rounds_take e.dir ((m + 1) :: lengths) older n
  have hround : ∀ l ∈ (m + 1) :: lengths, Shows e.nbIter l e.nbIter := by
    intro l hl
    rcases List.mem_cons.mp hl with rfl | hl
    · have hsucc := hm.succ hle hiter
      rwa [hsame] at hsucc
    · exact hall l hl
  refine ⟨0, ((m + 1) :: lengths).take n, older', .inl rfl, ?_, fun l hl => hround l (List.mem_of_mem_take hl), ?_⟩
  · rw [List.length_take, List.length_cons, hlen]
    exact Nat.min_eq_left hn
  · dsimp only
    rw [List.replicate_zero, List.nil_append, ← htake, heq, List.map_cons, List.flatten_cons, round, Nat.add_sub_cancel]
    simp only [List.append_assoc, List.cons_append]

theorem count_dir (e : LEntry) : e.count.dir = e.dir := by
  simp only [LEntry.count]
  split_ifs <;> rfl

theorem count_eq (hne : e.count.nbIter ≠ 0) : e.count =
    { e with currentIter := (e.currentIter + 1) % 1024 } := by
  simp only [LEntry.count, wrap_eq] at hne ⊢
  by_cases hgt : (e.currentIter + 1) % 1024 > e.nbIter
  · rw [if_pos hgt] at hne
    exact absurd rfl hne
  · rw [if_neg hgt]

theorem Remembers.leave (hrem : Remembers e h) : Remembers (e.count.leave (!e.dir)) ((!e.dir) :: h) := by
  have hcount := hrem.count
  simp only [LEntry.leave]
  by_cases hsame : e.count.currentIter = e.count.nbIter
  · simp only [if_pos hsame]
    by_cases hshort : e.count.nbIter < 3
    · simp only [if_pos hshort]
      exact ⟨Nat.succ_pos 1023, Nat.succ_pos 1023, Nat.zero_le _, Nat.zero_le _, fun _ => rfl, fun hne => absurd rfl hne,
        ⟨_, rfl⟩, fun hne => absurd rfl hne⟩
    · simp only [if_neg hshort]
      have heq : e.count = { e with currentIter := (e.currentIter + 1) % 1024 } := count_eq (by omega)
      refine ⟨hcount.iter, Nat.succ_pos 1023, ?_, hcount.age, ?_, fun _ => Nat.zero_le _, ⟨_, rfl⟩, ?_⟩
      · have hconfid := hcount.confid
        dsimp only
        split_ifs <;> omega
      · intro hzero
        dsimp only at hzero
        omega
      · intro hne
        rw [heq] at hsame hne ⊢
        exact (hrem.rounds hne).leave hsame (hrem.within hne) hrem.iter (if e.confid < confLoop then e.confid + 1 else e.confid)
          (by split_ifs <;> omega)
  · simp only [if_neg hsame]
    by_cases hfirst : e.count.nbIter = 0
    · simp only [if_pos hfirst]
      refine ⟨hcount.current, Nat.succ_pos 1023, Nat.zero_le _, hcount.age, fun _ => rfl, fun _ => Nat.zero_le _,
        ⟨_, rfl⟩, fun _ => ?_⟩
      refine ⟨0, [], h, .inl rfl, rfl, fun l hl => absurd hl List.not_mem_nil, ?_⟩
      simp [count_dir]
    · simp only [if_neg hfirst]
      exact ⟨Nat.succ_pos 1023, Nat.succ_pos 1023, Nat.zero_le _, hcount.age, fun _ => rfl, fun hne => absurd rfl hne,
        ⟨_, rfl⟩, fun hne => absurd rfl hne⟩

theorem Remembers.hit (hrem : Remembers e h) (f : Found) (v : Visit) : Remembers (e.hit f v)
    (v.taken :: h) := by
  rw [LEntry.hit]
  by_cases hwrong : (f.lvalid && v.taken != f.predloop) = true
  · rw [if_pos hwrong]
    exact (remembers_free { e with age := 0 } (Nat.zero_le _) (v.taken :: h))
  · rw [if_neg hwrong]
    have hkeep : ∀ e' : LEntry, Remembers e' h →
        Remembers (if v.taken ≠ e'.count.dir then e'.count.leave v.taken else e'.count) (v.taken :: h) := by
      intro e' he'
      by_cases hleave : v.taken = e'.dir
      · rw [if_neg (by rw [count_dir]; exact fun hne => hne hleave), hleave]
        exact he'.count
      · have htaken : v.taken = !e'.dir := by
          cases hv : v.taken <;> cases hd : e'.dir <;> simp_all
        rw [if_pos (by rw [count_dir]; exact hleave), htaken]
        exact he'.leave
    by_cases holder :
      (f.lvalid && (f.predloop != v.tagePred || v.ageDraw &&& 7 == 0) && decide (e.age < confLoop)) =
      true
    · simp only [if_pos holder]
      have hage : e.age < confLoop := of_decide_eq_true (Bool.and_eq_true_iff.mp holder).2
      exact hkeep _ (hrem.withAge (Nat.succ_le_of_lt hage))
    · simp only [if_neg holder]
      exact hkeep e hrem

theorem Traced.step_remembers (hs : ∀ j, Remembers (s.table j) (s.outcomes j)) (v : Visit) (j : Nat) :
    Remembers ((s.step v).table j) ((s.step v).outcomes j) := by
  simp only [Traced.step, LoopPredictor.step, loopupdate]
  cases hfound : (getloop s.table v.pc).lhit with
  | some i =>
      dsimp only
      by_cases hj : j = place v.pc i
      · rw [hj, Function.update_self, Function.update_self]
        exact (hs _).hit _ v
      · rw [Function.update_of_ne hj, Function.update_of_ne hj]
        exact hs j
  | none =>
      dsimp only
      by_cases halloc : v.mispredicted ∧ v.allocDraw &&& 3 = 0
      · rw [if_pos halloc]
        by_cases hj : j = place v.pc (v.wayDraw &&& 3)
        · rw [hj, Function.update_self, LEntry.allocate]
          by_cases hage : (s.table (place v.pc (v.wayDraw &&& 3))).age = 0
          · rw [if_pos hage, if_pos ⟨halloc.1, halloc.2, hage⟩, Function.update_self]
            exact ⟨Nat.succ_pos 1023, Nat.succ_pos 1023, Nat.zero_le _, (by decide : 7 ≤ confLoop), fun _ => rfl,
              fun hne => absurd rfl hne, ⟨_, rfl⟩, fun hne => absurd rfl hne⟩
          · rw [if_neg hage, if_neg (fun h => hage h.2.2)]
            have hage' := (hs (place v.pc (v.wayDraw &&& 3))).age
            exact (hs _).withAge (by omega)
        · rw [Function.update_of_ne hj]
          split_ifs
          · rw [Function.update_of_ne hj]
            exact hs j
          · exact hs j
      · rw [if_neg halloc, if_neg (fun h => halloc ⟨h.1, h.2.1⟩)]
        exact hs j

/-- In every state that branches lead to, what an entry counts is what happened: as many whole rounds as it
is certain of, each of as many iterations as its ten bits say, and since then as many as they say. -/
theorem run_remembers (vs : List Visit) (j : Nat) :
    Remembers ((vs.foldl Traced.step Traced.start).table j)
      ((vs.foldl Traced.step Traced.start).outcomes j) := by
  have hall : ∀ s : Traced, (∀ j, Remembers (s.table j) (s.outcomes j)) →
      ∀ j, Remembers ((vs.foldl Traced.step s).table j) ((vs.foldl Traced.step s).outcomes j) := by
    induction vs with
    | nil => exact fun s hs => hs
    | cons v vs ih => exact fun s hs => ih (s.step v) (Traced.step_remembers hs v)
  apply hall
  intro j
  exact remembers_free emptyEntry (Nat.zero_le _) []

end Memory

section Rounds

def meet (e : LEntry) (v : Visit) : LEntry := e.hit ⟨some 0, e.trusted, e.predict⟩ v

def meetAll (e : LEntry) (vs : List Visit) : LEntry := vs.foldl meet e

def Foretold : LEntry → List Visit → Prop
  | _, [] => True
  | e, v :: vs => e.predict = v.taken ∧ Foretold (meet e v) vs

/-- Whole rounds of a loop, in the order in which the branches come. -/
def Rounds (dir : Bool) (n : Nat) : Nat → List Visit → Prop
  | 0, vs => vs = []
  | k + 1, vs => ∃ stay last rest, vs = stay ++ last :: rest ∧ stay.map Visit.taken =
        List.replicate (n - 1) dir ∧
      last.taken = !dir ∧ Rounds dir n k rest

variable {e : LEntry} {v : Visit} {vs ws : List Visit} {n k c : Nat} {dir : Bool}

theorem meetAll_append (e : LEntry) (vs ws : List Visit) : meetAll e (vs ++ ws) =
    meetAll (meetAll e vs) ws := List.foldl_append

theorem foretold_append : Foretold e (vs ++ ws) ↔ Foretold e vs ∧ Foretold (meetAll e vs) ws := by
  induction vs generalizing e with
  | nil => exact ⟨fun h => ⟨trivial, h⟩, fun h => h.2⟩
  | cons v vs ih => simp only [List.cons_append, Foretold, ih, and_assoc]; rfl

/-- Apart from its age, an entry is what the count says. -/
def Same (e : LEntry) (n c cur : Nat) (dir : Bool) : Prop :=
  e.nbIter = n ∧ e.confid = c ∧ e.currentIter = cur ∧ e.dir = dir

theorem count_same {cur : Nat} (h : Same e n c cur dir) (hcur : cur + 1 ≤ n) (hn : n ≤ 1023) :
    Same e.count n c (cur + 1) dir := by
  obtain ⟨hiter, hconfid, hcurrent, hdir⟩ := h
  have hmod : (e.currentIter + 1) % 1024 = cur + 1 := by
    rw [hcurrent]
    exact Nat.mod_eq_of_lt (by omega)
  simp only [LEntry.count, wrap_eq, hmod]
  rw [if_neg (by omega)]
  exact ⟨hiter, hconfid, rfl, hdir⟩

theorem meet_foretold (h : e.predict = v.taken) : ∃ age, meet e v =
    if v.taken ≠ e.dir then ({ e with age := age } : LEntry).count.leave v.taken else
      ({ e with age := age } : LEntry).count := by
  have hright : (e.trusted && v.taken != e.predict) = false := by
    rw [h, bne_self_eq_false, Bool.and_false]
  simp only [meet, LEntry.hit, hright, Bool.false_eq_true, if_false]
  by_cases hold :
    (e.trusted && (e.predict != v.tagePred || v.ageDraw &&& 7 == 0) && decide (e.age < confLoop)) = true
  · simp only [if_pos hold, count_dir]
    exact ⟨e.age + 1, rfl⟩
  · simp only [if_neg hold, count_dir]
    exact ⟨e.age, rfl⟩

theorem stay_step {cur : Nat} (h : Same e n c cur dir) (hcur : cur + 1 < n) (hn : n ≤ 1023)
    (hv : v.taken = dir) :
    e.predict = v.taken ∧ Same (meet e v) n c (cur + 1) dir := by
  have hpredict : e.predict = v.taken := by
    obtain ⟨hiter, -, hcurrent, hdir⟩ := h
    rw [LEntry.predict, if_neg (by omega), hdir, hv]
  refine ⟨hpredict, ?_⟩
  obtain ⟨age, hmeet⟩ := meet_foretold hpredict
  rw [hmeet, if_neg (by rw [hv, h.2.2.2]; exact fun hne => hne rfl)]
  exact count_same (e := { e with age := age }) h (Nat.le_of_lt hcur) hn

theorem stay_all {cur m : Nat} (h : Same e n c cur dir) (hcur : cur + m + 1 ≤ n) (hn : n ≤ 1023)
    (hvs : vs.map Visit.taken = List.replicate m dir) : Foretold e vs ∧ Same (meetAll e vs) n c
      (cur + m) dir := by
  induction m generalizing e vs cur with
  | zero =>
      obtain rfl := List.map_eq_nil_iff.mp hvs
      exact ⟨trivial, h⟩
  | succ m ih =>
      cases vs with
      | nil => cases hvs
      | cons v vs =>
          rw [List.map_cons, List.replicate_succ, List.cons.injEq] at hvs
          obtain ⟨hpredict, hnext⟩ := stay_step h (by omega) hn hvs.1
          obtain ⟨hall, hsame⟩ := ih hnext (by omega) hvs.2
          refine ⟨⟨hpredict, hall⟩, ?_⟩
          rw [Nat.add_right_comm] at hsame
          exact hsame

theorem last_step (h : Same e n c (n - 1) dir) (hn : 3 ≤ n) (hle : n ≤ 1023) (hv : v.taken = !dir) :
    e.predict = v.taken ∧ Same (meet e v) n (if c < confLoop then c + 1 else c) 0 dir := by
  have hpredict : e.predict = v.taken := by
    obtain ⟨hiter, -, hcurrent, hdir⟩ := h
    rw [LEntry.predict, if_pos (by omega), hdir, hv]
  refine ⟨hpredict, ?_⟩
  obtain ⟨age, hmeet⟩ := meet_foretold hpredict
  have hleave : v.taken ≠ e.dir := by
    rw [hv, h.2.2.2]
    cases dir <;> decide
  rw [hmeet, if_pos hleave]
  have hcount := count_same (e := { e with age := age }) h (by omega) hle
  obtain ⟨hiter, hconfid, hcurrent, hdir⟩ := hcount
  simp only [LEntry.leave]
  rw [if_pos (by omega), if_neg (by omega)]
  refine ⟨hiter, ?_, rfl, hdir⟩
  dsimp only
  rw [hconfid]

theorem rounds_foretold (h : Same e n c 0 dir) (hn : 3 ≤ n) (hle : n ≤ 1023) (hc : c ≤ confLoop)
    (hvs : Rounds dir n k vs) :
    Foretold e vs ∧ Same (meetAll e vs) n (min confLoop (c + k)) 0 dir := by
  induction k generalizing e c vs with
  | zero =>
      obtain rfl : vs = [] := hvs
      rw [Nat.add_zero, Nat.min_eq_right hc]
      exact ⟨trivial, h⟩
  | succ k ih =>
      obtain ⟨stay, last, rest, rfl, hstay, hlast, hrest⟩ := hvs
      obtain ⟨hall, hsame⟩ := stay_all h (by omega) hle hstay
      rw [Nat.zero_add] at hsame
      obtain ⟨hpredict, hnext⟩ := last_step hsame hn hle hlast
      obtain ⟨htold, hend⟩ := ih hnext (by split_ifs <;> omega) hrest
      refine ⟨foretold_append.mpr ⟨hall, hpredict, htold⟩, ?_⟩
      rw [meetAll_append]
      have hmin : min confLoop ((if c < confLoop then c + 1 else c) + k) = min confLoop (c + (k + 1)) := by
        split_ifs <;> omega
      rw [hmin] at hend
      exact hend

theorem stay_first {cur m : Nat} (h : Same e 0 0 cur dir) (hcur : cur + m ≤ 1023)
    (hvs : vs.map Visit.taken = List.replicate m dir) :
    Same (meetAll e vs) 0 0 (cur + m) dir := by
  induction m generalizing e vs cur with
  | zero =>
      obtain rfl := List.map_eq_nil_iff.mp hvs
      exact h
  | succ m ih =>
      cases vs with
      | nil => cases hvs
      | cons v vs =>
          rw [List.map_cons, List.replicate_succ, List.cons.injEq] at hvs
          obtain ⟨hiter, hconfid, hcurrent, hdir⟩ := h
          have hpredict : e.predict = v.taken := by
            rw [LEntry.predict, if_neg (by omega), hdir, hvs.1]
          obtain ⟨age, hmeet⟩ := meet_foretold hpredict
          have hmod : (e.currentIter + 1) % 1024 = cur + 1 := by
            rw [hcurrent]
            exact Nat.mod_eq_of_lt (by omega)
          have hnext : Same (meet e v) 0 0 (cur + 1) dir := by
            rw [hmeet, if_neg (by rw [hvs.1, hdir]; exact fun hne => hne rfl)]
            simp only [LEntry.count, wrap_eq, hmod]
            rw [if_pos (by omega)]
            exact ⟨rfl, rfl, rfl, hdir⟩
          have hend := ih hnext (by omega) hvs.2
          rw [Nat.add_right_comm] at hend
          exact hend

theorem last_first (h : Same e 0 0 (n - 1) dir) (hn : 1 ≤ n) (hle : n ≤ 1023) (hv : v.taken = !dir) :
    Same (meet e v) n 0 0 dir := by
  obtain ⟨hiter, hconfid, hcurrent, hdir⟩ := h
  have htrust : e.trusted = false := by
    simp [LEntry.trusted, hconfid, hiter, confLoop]
  have hmod : (e.currentIter + 1) % 1024 = n := by
    rw [hcurrent, Nat.sub_add_cancel hn]
    exact Nat.mod_eq_of_lt (by omega)
  have hleave : v.taken ≠ e.count.dir := by
    rw [hv, count_dir, hdir]
    cases dir <;> decide
  simp only [meet, LEntry.hit, htrust, Bool.false_and, Bool.false_eq_true, if_false]
  rw [if_pos hleave]
  have hcount : e.count = { e with confid := 0, nbIter := 0, currentIter := n } := by
    simp only [LEntry.count, wrap_eq, hmod]
    rw [if_pos (by omega)]
  rw [hcount]
  simp only [LEntry.leave]
  rw [if_neg (by omega)]
  simp only [if_true]
  exact ⟨rfl, rfl, rfl, hdir⟩

/-- What the table answers for the branch at `pc`, beside what the branch did. -/
def answers (pc : Nat) : (Nat → LEntry) → List Visit → List (Bool × Bool)
  | _, [] => []
  | table, v :: vs =>
      if v.pc = pc then ((getloop table pc).predloop, v.taken) :: answers pc (step table v) vs
      else answers pc (step table v) vs

def entryAnswers : LEntry → List Visit → List (Bool × Bool)
  | _, [] => []
  | e, v :: vs => (e.predict, v.taken) :: entryAnswers (meet e v) vs

theorem foretold_iff : Foretold e vs ↔ ∀ a ∈ entryAnswers e vs, a.1 = a.2 := by
  induction vs generalizing e with
  | nil => exact ⟨fun _ a ha => absurd ha List.not_mem_nil, fun _ => trivial⟩
  | cons v vs ih => simp only [Foretold, entryAnswers, List.forall_mem_cons, ih]

theorem entryAnswers_append (e : LEntry) (vs ws : List Visit) :
    entryAnswers e (vs ++ ws) = entryAnswers e vs ++ entryAnswers (meetAll e vs) ws := by
  induction vs generalizing e with
  | nil => rfl
  | cons v vs ih =>
      simp only [List.cons_append, entryAnswers, ih]
      rfl

theorem length_entryAnswers (e : LEntry) (vs : List Visit) : (entryAnswers e vs).length = vs.length := by
  induction vs generalizing e with
  | nil => rfl
  | cons v vs ih => simp only [entryAnswers, List.length_cons, ih]

/-- A branch that shares no place with the one at `pc`. -/
def Elsewhere (pc : Nat) (v : Visit) : Prop := ∀ i < 4, ∀ i' < 4, place v.pc i ≠ place pc i'

theorem hit_tag (e : LEntry) (f : Found) (v : Visit) : (e.hit f v).tag = e.tag := by
  simp only [LEntry.hit, LEntry.free, LEntry.leave, LEntry.count]
  split_ifs <;> rfl

variable {table : Nat → LEntry} {pc i j : Nat}

theorem found_iff : (getloop table pc).lhit = (List.range 4).find?
    (fun i => (table (place pc i)).tag = ltag pc) := by
  rw [getloop]
  split <;> rename_i heq <;> exact heq.symm

theorem found_lt (h : (getloop table pc).lhit = some i) : i < 4 := by
  rw [found_iff] at h
  exact List.mem_range.mp (List.mem_of_find?_eq_some h)

theorem getloop_of_found (h : (getloop table pc).lhit = some i) :
    getloop table pc = ⟨some i, (table (place pc i)).trusted, (table (place pc i)).predict⟩ := by
  rw [found_iff] at h
  rw [getloop, h]

theorem step_same (h : (getloop table pc).lhit = some i) (hv : v.pc = pc) :
    step table v (place pc i) = meet (table (place pc i)) v ∧ (getloop (step table v) pc).lhit = some i := by
  have hloop := getloop_of_found h
  have hstep : step table v = Function.update table (place pc i) (meet (table (place pc i)) v) := by
    rw [step, hv, hloop, loopupdate, hv]
    rfl
  refine ⟨by rw [hstep, Function.update_self], ?_⟩
  rw [found_iff] at h ⊢
  rw [← h, hstep]
  congr 1
  funext i'
  have htag : (Function.update table (place pc i) (meet (table (place pc i)) v) (place pc i')).tag =
    (table (place pc i')).tag := by
    by_cases hplace : place pc i' = place pc i
    · rw [hplace, Function.update_self]
      exact hit_tag _ _ v
    · rw [Function.update_of_ne hplace]
  rw [htag]

theorem step_elsewhere (hv : Elsewhere pc v) {i' : Nat} (hi : i' < 4) : step table v (place pc i') =
    table (place pc i') := by
  rw [step, loopupdate]
  cases hfound : (getloop table v.pc).lhit with
  | some a =>
      dsimp only
      exact Function.update_of_ne (Ne.symm (hv a (found_lt hfound) i' hi)) _ _
  | none =>
      dsimp only
      split_ifs
      · have hway : v.wayDraw &&& 3 < 4 := Nat.and_lt_two_pow v.wayDraw (by decide : 3 < 2 ^ 2)
        exact Function.update_of_ne (Ne.symm (hv _ hway i' hi)) _ _
      · rfl

theorem found_elsewhere (hv : Elsewhere pc v) : (getloop (step table v) pc).lhit = (getloop table pc).lhit := by
  rw [found_iff, found_iff]
  apply List.find?_congr
  intro i' hi
  rw [step_elsewhere hv (List.mem_range.mp hi)]

theorem answers_eq (h : (getloop table pc).lhit = some i) (hvs : ∀ v ∈ vs, v.pc = pc ∨ Elsewhere pc v) :
    answers pc table vs = entryAnswers (table (place pc i)) (vs.filter (fun v => v.pc = pc)) := by
  induction vs generalizing table with
  | nil => rfl
  | cons v vs ih =>
      have htail : ∀ w ∈ vs, w.pc = pc ∨ Elsewhere pc w := fun w hw => hvs w (List.mem_cons_of_mem v hw)
      rw [answers]
      by_cases hv : v.pc = pc
      · obtain ⟨hmeet, hagain⟩ := step_same h hv
        rw [if_pos hv, ih hagain htail, hmeet, getloop_of_found h, List.filter_cons_of_pos (by simpa using hv)]
        rfl
      · have helse := (hvs v List.mem_cons_self).resolve_left hv
        rw [if_neg hv, ih ((found_elsewhere helse).trans h) htail, step_elsewhere helse (found_lt h),
          List.filter_cons_of_neg (by simpa using hv)]

/-- A loop of a constant number of iterations, among branches that share no place with it: once it
has been left for the first time, every branch of every later round is foretold. -/
theorem loop_learned (h : (getloop table pc).lhit = some i)
    (hnew : Same (table (place pc i)) 0 0 0 dir) (hn : 3 ≤ n) (hle : n ≤ 1023)
    (hvs : ∀ v ∈ vs, v.pc = pc ∨ Elsewhere pc v)
    (hrounds : Rounds dir n (k + 1) (vs.filter (fun v => v.pc = pc))) :
    ∀ a ∈ (answers pc table vs).drop n, a.1 = a.2 := by
  obtain ⟨stay, last, rest, heq, hstay, hlast, hrest⟩ := hrounds
  have hlen : (stay ++ [last]).length = n := by
    have hlength := congrArg List.length hstay
    rw [List.length_map, List.length_replicate] at hlength
    rw [List.length_append, hlength, List.length_singleton]
    omega
  have hfirst := stay_first hnew (by omega) hstay
  rw [Nat.zero_add] at hfirst
  have hlearned : Same (meetAll (table (place pc i)) (stay ++ [last])) n 0 0 dir := by
    rw [meetAll_append]
    exact last_first hfirst (by omega) hle hlast
  have hsplit : vs.filter (fun v => v.pc = pc) = (stay ++ [last]) ++ rest := by
    rw [heq, List.append_assoc, List.singleton_append]
  rw [answers_eq h hvs, hsplit, entryAnswers_append, List.drop_left' (by rw [length_entryAnswers, hlen])]
  exact foretold_iff.mp (rounds_foretold hlearned hn hle (Nat.zero_le _) hrest).1

def visitZero (taken : Bool) : Visit := ⟨0, taken, false, true, 0, 0, 0⟩

def threeRounds : List Visit :=
  [visitZero false, visitZero false, visitZero true, visitZero false, visitZero false, visitZero true,
    visitZero false, visitZero false, visitZero true]

/-- A loop of three iterations at address 0, three times. -/
theorem loop_learned_three : (answers 0 (fun _ => emptyEntry) threeRounds).length = 9 ∧
    ∀ a ∈ (answers 0 (fun _ => emptyEntry) threeRounds).drop 3, a.1 = a.2 :=
  ⟨by decide, loop_learned (i := 0) (k := 2) (by decide)
    (⟨rfl, rfl, rfl, rfl⟩ : Same emptyEntry 0 0 0 false) (Nat.le_refl 3) (by decide)
    (by intro v hv; left; revert v; decide)
    ⟨[visitZero false, visitZero false], visitZero true, _, rfl, rfl, rfl,
      [visitZero false, visitZero false], visitZero true, _, rfl, rfl, rfl,
      [visitZero false, visitZero false], visitZero true, _, rfl, rfl, rfl, rfl⟩⟩

end Rounds

end Thermometer.LoopPredictor
