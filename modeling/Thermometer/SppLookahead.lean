import Mathlib.Algebra.BigOperators.Group.List.Basic
import Mathlib.Algebra.BigOperators.Ring.List
import Mathlib.Algebra.Order.BigOperators.Group.List
import Thermometer.SppPrefetcher

namespace Thermometer.SppLookahead

open Lib.RecentSlots Lib.Runs SppPrefetcher

section Outcomes

variable {A B : Type} {overrun : Prop} {P : A → Prop} {Q : B → Prop}

/-- A step that succeeds with `P`, except that it may find the global register or its queues full if
`overrun`. -/
def Ends (overrun : Prop) (P : A → Prop) : Except Fault A → Prop
  | .ok a => P a
  | .error .ghrVictim => overrun
  | .error .queueOverrun => overrun
  | .error _ => False

theorem Ends.imp {P' : A → Prop} {x : Except Fault A} (hx : Ends overrun P x) (h : ∀ a, P a → P' a) :
    Ends overrun P' x := by
  cases x with
  | ok a => exact h a hx
  | error fault => cases fault <;> exact hx

theorem Ends.bind {x : Except Fault A} {f : A → Except Fault B} (hx : Ends overrun P x)
    (hf : ∀ a, P a → Ends overrun Q (f a)) : Ends overrun Q (x >>= f) := by
  cases x with
  | ok a => exact hf a hx
  | error fault => cases fault <;> exact hx

theorem Ends.map {x : Except Fault A} {f : A → B} (hx : Ends overrun P x) (hf : ∀ a, P a → Q (f a)) :
    Ends overrun Q (x.map f) := by
  cases x with
  | ok a => exact hf a hx
  | error fault => cases fault <;> exact hx

theorem ends_foldlM {f : B → A → Except Fault B} {l : List A} (hf : ∀ b, ∀ a ∈ l, Q b → Ends overrun Q (f b a))
    {b : B} (hb : Q b) : Ends overrun Q (l.foldlM f b) := by
  induction l generalizing b with
  | nil => exact hb
  | cons a l ih =>
      rw [List.foldlM_cons]
      exact (hf b a List.mem_cons_self hb).bind
        (fun b' hb' => ih (fun b a ha => hf b a (List.mem_cons_of_mem _ ha)) hb')

end Outcomes

section Counters

theorem least_none {f : Nat → Nat} {ws : List Nat} {v : Option Nat × Nat}
    (h : (ws.foldl (fun (v : Option Nat × Nat) w => if f w < v.2 then (some w, f w) else v) v).1 = none) :
    ∀ w ∈ ws, v.2 ≤ f w := by
  induction ws generalizing v with
  | nil => exact fun w hw => absurd hw List.not_mem_nil
  | cons a ws ih =>
      rw [List.foldl_cons] at h
      have hkept : ∀ (ws : List Nat) (v : Option Nat × Nat), v.1.isSome = true →
          (ws.foldl (fun (v : Option Nat × Nat) w => if f w < v.2 then (some w, f w) else v) v).1.isSome =
            true := by
        intro ws
        induction ws with
        | nil => exact fun v hv => hv
        | cons b ws ih =>
            intro v hv
            rw [List.foldl_cons]
            apply ih
            split_ifs
            · rfl
            · exact hv
      intro w hw
      by_cases ha : f a < v.2
      · rw [if_pos ha] at h
        have hsome := hkept ws (some a, f a) rfl
        rw [h] at hsome
        cases hsome
      · rw [if_neg ha] at h
        rcases List.mem_cons.mp hw with rfl | hw
        · exact Nat.le_of_not_lt ha
        · exact ih h w hw

def total (f : Nat → Nat) : Nat := ((List.range ptWay).map f).sum

theorem total_eq (f : Nat → Nat) : total f = f 0 + f 1 + f 2 + f 3 := by
  have hways : List.range ptWay = [0, 1, 2, 3] := rfl
  rw [total, hways]
  simp only [List.map_cons, List.map_nil, List.sum_cons, List.sum_nil]
  omega

/-- The first access of a signature counts for no delta, so they never all add up to it. -/
structure Counted (p : PatternSet) : Prop where
  deltas : total p.cDelta ≤ p.cSig - 1
  small : p.cSig ≤ cSigMax
  unused : p.cSig = 0 → ∀ w, p.delta w = 0

theorem counted_counted {p : PatternSet} (hdeltas : total p.cDelta ≤ p.cSig) (hsmall : p.cSig ≤ cSigMax) :
    Counted p.counted := by
  rw [PatternSet.counted]
  rw [total_eq] at hdeltas
  have hmax : cSigMax = 15 := rfl
  by_cases hfull : cSigMax < p.cSig + 1
  · rw [if_pos hfull]
    refine ⟨?_, ?_, ?_⟩
    · rw [total_eq]
      simp only [Nat.shiftRight_eq_div_pow, pow_one]
      omega
    · simp only [Nat.shiftRight_eq_div_pow, pow_one]
      omega
    · intro hcon
      simp only [Nat.shiftRight_eq_div_pow, pow_one] at hcon
      omega
  · rw [if_neg hfull]
    refine ⟨?_, Nat.le_of_not_lt hfull, fun hcon => absurd hcon (Nat.succ_ne_zero _)⟩
    rw [total_eq]
    exact hdeltas

theorem total_update (f : Nat → Nat) (w v : Nat) :
    total (Function.update f w v) + f w = total f + v ∨ total (Function.update f w v) = total f := by
  rw [total_eq, total_eq]
  simp only [Function.update_apply]
  split_ifs <;> subst_vars <;> omega

theorem Counted.updatePattern {p : PatternSet} (h : Counted p) {currDelta : Int} (hmoved : currDelta ≠ 0) :
    ∃ q, updatePattern p currDelta = .ok q ∧ Counted q := by
  have hdeltas := h.deltas
  rw [SppPrefetcher.updatePattern]
  cases hhit : search ptWay (fun w => p.delta w == currDelta) with
  | some w =>
      have hused : p.cSig ≠ 0 := by
        intro hzero
        obtain ⟨-, hkey, -⟩ := search_some hhit
        exact hmoved ((beq_iff_eq.mp hkey).symm.trans (h.unused hzero w))
      refine ⟨_, rfl, counted_counted ?_ h.small⟩
      dsimp only
      rcases total_update p.cDelta w (p.cDelta w + 1) with heq | heq <;> omega
  | none =>
      cases hvictim : victimWay p.cDelta with
      | none =>
          have hall := least_none hvictim
          have h0 := hall 0 (by decide)
          have h1 := hall 1 (by decide)
          have hsmall := h.small
          have hmax : cSigMax = 15 := rfl
          rw [total_eq] at hdeltas
          dsimp only at h0 h1
          omega
      | some w =>
          refine ⟨_, rfl, counted_counted ?_ h.small⟩
          dsimp only
          rcases total_update p.cDelta w 0 with heq | heq <;> omega

theorem sum_div_le (f : Nat → Nat) (n : Nat) (ws : List Nat) :
    (ws.map (fun w => f w / n)).sum ≤ (ws.map f).sum / n := by
  induction ws with
  | nil => exact Nat.zero_le _
  | cons w ws ih =>
      rw [List.map_cons, List.map_cons, List.sum_cons, List.sum_cons]
      exact (Nat.add_le_add_left ih _).trans (Nat.div_add_div_le_add_div)

theorem share_le {p : PatternSet} (h : Counted p) (a : Nat) :
    total (fun w => a * p.cDelta w / p.cSig) ≤ a * 14 / 15 := by
  apply (sum_div_le _ _ _).trans
  rw [List.sum_map_mul_left, Nat.le_div_iff_mul_le (Nat.succ_pos 14)]
  have hdeltas : (List.map p.cDelta (List.range ptWay)).sum ≤ p.cSig - 1 := h.deltas
  have hsmall : p.cSig ≤ 15 := h.small
  rcases Nat.eq_zero_or_pos p.cSig with hzero | hpos
  · rw [hzero, Nat.div_zero, Nat.zero_mul]
    exact Nat.zero_le _
  · apply Nat.le_of_mul_le_mul_right _ hpos
    calc a * (List.map p.cDelta (List.range ptWay)).sum / p.cSig * 15 * p.cSig
        = a * (List.map p.cDelta (List.range ptWay)).sum / p.cSig * p.cSig * 15 := Nat.mul_right_comm _ _ _
      _ ≤ a * (List.map p.cDelta (List.range ptWay)).sum * 15 :=
        Nat.mul_le_mul_right 15 (Nat.div_mul_le_self _ _)
      _ ≤ a * (p.cSig - 1) * 15 := Nat.mul_le_mul_right 15 (Nat.mul_le_mul_left a hdeltas)
      _ = a * ((p.cSig - 1) * 15) := Nat.mul_assoc _ _ _
      _ ≤ a * (14 * p.cSig) := Nat.mul_le_mul_left a (by omega)
      _ = a * 14 * p.cSig := (Nat.mul_assoc _ _ _).symm

theorem confidence_le {p : PatternSet} (h : Counted p) (accuracy conf depth : Nat) :
    total (pfConf p accuracy conf depth) ≤ if depth = 0 then 93 else accuracy * 14 / 15 * conf / 100 := by
  by_cases hdepth : depth = 0
  · have hconf : pfConf p accuracy conf depth = fun w => 100 * p.cDelta w / p.cSig := by
      funext w
      exact if_pos hdepth
    rw [if_pos hdepth, hconf]
    exact share_le h 100
  · have hconf : pfConf p accuracy conf depth = fun w => accuracy * p.cDelta w / p.cSig * conf / 100 := by
      funext w
      exact if_neg hdepth
    rw [if_neg hdepth, hconf]
    apply (sum_div_le _ _ _).trans
    rw [List.sum_map_mul_right]
    exact Nat.div_le_div_right (Nat.mul_le_mul_right conf (share_le h accuracy))

end Counters

section Reading

variable {p : PatternSet} {conf : Nat → Nat}

def fresh (p : PatternSet) (conf : Nat → Nat) (ws : List Nat) : List (Nat × Int) :=
  (ws.filter (fun w => pfThreshold ≤ conf w)).map (fun w => (conf w, p.delta w))

theorem le_of_mem_fresh {ws : List Nat} {entry : Nat × Int} (h : entry ∈ fresh p conf ws) :
    pfThreshold ≤ entry.1 := by
  obtain ⟨w, hw, rfl⟩ := List.mem_map.mp h
  exact of_decide_eq_true (List.mem_filter.mp hw).2

theorem le_sum_of_mem_fresh {ws : List Nat} {entry : Nat × Int} (h : entry ∈ fresh p conf ws) :
    entry.1 ≤ (ws.map conf).sum := by
  obtain ⟨w, hw, rfl⟩ := List.mem_map.mp h
  exact List.le_sum_of_mem (List.mem_map_of_mem (List.mem_filter.mp hw).1)

theorem fresh_paid (p : PatternSet) (conf : Nat → Nat) (ws : List Nat) : pfThreshold * (fresh p conf ws).length ≤ (ws.map conf).sum := by
  rw [fresh, List.length_map]
  induction ws with
  | nil => exact Nat.zero_le _
  | cons w ws ih =>
      rw [List.map_cons, List.sum_cons]
      by_cases hlow : conf w < pfThreshold
      · rw [List.filter_cons_of_neg (by simpa using hlow)]
        omega
      · rw [List.filter_cons_of_pos (by simpa using hlow), List.length_cons, Nat.mul_succ]
        omega

/-- The ways are read to the end, each new entry paid by its own confidence, or the queue is full
before. -/
theorem readWays (size : Nat) (p : PatternSet) (conf : Nat → Nat) (ws : List Nat) (r : Reading) :
    (∃ t, ws.foldlM (readWay size p conf) r = .ok t ∧ t.queue = r.queue ++ fresh p conf ws ∧
      t.queue.length ≤ max r.queue.length size ∧
      t.maxConf + pfThreshold * (fresh p conf ws).length ≤ max r.maxConf pfThreshold + (ws.map conf).sum ∧
      (fresh p conf ws ≠ [] ∨ pfThreshold ≤ r.maxConf → pfThreshold ≤ t.maxConf)) ∨
    ws.foldlM (readWay size p conf) r = .error .queueOverrun ∧
      size < r.queue.length + (fresh p conf ws).length := by
  induction ws generalizing r with
  | nil =>
      refine .inl ⟨r, rfl, (List.append_nil _).symm, le_max_left _ _, ?_,
        fun h => h.resolve_left (fun hcon => hcon rfl)⟩
      exact le_max_left _ _
  | cons w ws ih =>
      rw [List.foldlM_cons, readWay, List.map_cons, List.sum_cons]
      by_cases hlow : conf w < pfThreshold
      · have hsame : fresh p conf (w :: ws) = fresh p conf ws := by
          rw [fresh, List.filter_cons_of_neg (by simpa using hlow)]
          rfl
        rw [if_pos hlow, hsame]
        rcases ih r with ⟨t, ht, hqueue, hlen, hpaid, hmax⟩ | herror
        · exact .inl ⟨t, ht, hqueue, hlen, hpaid.trans (by omega), hmax⟩
        · exact .inr herror
      · have hnew : fresh p conf (w :: ws) = (conf w, p.delta w) :: fresh p conf ws := by
          rw [fresh, List.filter_cons_of_pos (by simpa using hlow)]
          rfl
        rw [if_neg hlow, hnew, List.length_cons]
        by_cases hfull : size ≤ r.queue.length
        · rw [if_pos hfull]
          exact .inr ⟨rfl, by omega⟩
        · rw [if_neg hfull]
          rcases ih ⟨r.queue ++ [(conf w, p.delta w)], if r.maxConf < conf w then some w else r.lookaheadWay,
              if r.maxConf < conf w then conf w else r.maxConf⟩ with
            ⟨t, ht, hqueue, hlen, hpaid, hmax⟩ | ⟨herror, hroom⟩
          · refine .inl ⟨t, ht, ?_, ?_, ?_, ?_⟩
            · rw [hqueue, List.append_assoc, List.singleton_append]
            · rw [List.length_append, List.length_singleton] at hlen
              omega
            · dsimp only at hpaid
              rw [Nat.mul_succ]
              split_ifs at hpaid <;> omega
            · intro _
              apply hmax
              right
              dsimp only
              split_ifs <;> omega
          · refine .inr ⟨herror, ?_⟩
            rw [List.length_append, List.length_singleton] at hroom
            omega

end Reading

section Rounds

variable {overrun : Prop} {c : Config} {ip addr : Nat} {l : Lookahead} {s t : Core}

def Low (overrun : Prop) (g : GlobalRegister) : Prop := overrun ∨ ∀ i, (g.entries i).confidence < 100

theorem Low.update {g : GlobalRegister} (h : Low overrun g) {x : GhrEntry} (hx : overrun ∨ x.confidence < 100)
    (i : Nat) : Low overrun { g with entries := Function.update g.entries i x } := by
  rcases h with hover | h
  · exact .inl hover
  · refine hx.imp_right (fun hx j => ?_)
    by_cases hj : j = i
    · subst hj
      simp only [Function.update_self]
      exact hx
    · simp only [Function.update_of_ne hj]
      exact h j

theorem updateEntry_ends {g : GlobalRegister} (h : Low overrun g) (pfSig : Nat) {pfConfidence : Nat}
    (hconf : overrun ∨ pfConfidence < 100) (pfOffset : Nat) (pfDelta : Int) :
    Ends overrun (fun g' => g'.globalAccuracy = g.globalAccuracy ∧ Low overrun g')
      (updateEntry g pfSig pfConfidence pfOffset pfDelta) := by
  rw [updateEntry]
  cases search maxGhrEntry (fun i => (g.entries i).valid && (g.entries i).offset == pfOffset) with
  | some i => exact ⟨rfl, h.update hconf i⟩
  | none =>
      dsimp only
      split
      · rename_i hvictim
        rcases h with hover | h
        · exact hover
        · have hmin := least_none (f := fun i => (g.entries i).confidence) hvictim 0 (by decide)
          exact absurd (h 0) (Nat.not_lt.mpr hmin)
      · exact ⟨rfl, h.update hconf _⟩

theorem check_low {g : GlobalRegister} (h : Low overrun g) (f : Nat → FilterEntry) (checkAddr : Nat)
    (request : FilterRequest) : Low overrun (check f g checkAddr request).2.2 := by
  cases request with
  | sppLlcPrefetch => exact h
  | sppL2cPrefetch =>
      simp only [check]
      split_ifs <;> exact h
  | l2cDemand =>
      simp only [check]
      split_ifs <;> exact h
  | l2cEvict =>
      simp only [check]
      split_ifs <;> exact h

theorem check_accuracy (f : Nat → FilterEntry) (g : GlobalRegister) (checkAddr : Nat)
    (request : FilterRequest) :
    (check f g checkAddr request).2.2.globalAccuracy = g.globalAccuracy := by
  cases request with
  | sppLlcPrefetch => rfl
  | sppL2cPrefetch =>
      simp only [check]
      split_ifs <;> rfl
  | l2cDemand =>
      simp only [check]
      split_ifs <;> rfl
  | l2cEvict =>
      simp only [check]
      split_ifs <;> rfl

theorem issued_accuracy (g : GlobalRegister) : g.issued.globalAccuracy = g.globalAccuracy := by
  rw [GlobalRegister.issued]
  split_ifs <;> rfl

theorem issued_low {g : GlobalRegister} (h : Low overrun g) : Low overrun g.issued := by
  rw [GlobalRegister.issued]
  split_ifs <;> exact h

structure Kept (overrun : Prop) (s t : Core) : Prop where
  patterns : t.patterns = s.patterns
  accuracy : t.ghr.globalAccuracy = s.ghr.globalAccuracy
  low : Low overrun t.ghr

theorem issue_ends (h : Kept overrun s t) (ip addr base sig : Nat) {entry : Nat × Int}
    (hentry : overrun ∨ entry.1 < 100) : Ends overrun (Kept overrun s) (issue ip addr base sig t entry) := by
  rw [issue]
  by_cases hlow : entry.1 < pfThreshold
  · rw [if_pos hlow]
    exact h
  · rw [if_neg hlow]
    dsimp only
    split_ifs
    · exact ⟨h.patterns, (issued_accuracy _).trans ((check_accuracy ..).trans h.accuracy),
        issued_low (check_low h.low ..)⟩
    · exact ⟨h.patterns, (check_accuracy ..).trans h.accuracy, check_low h.low ..⟩
    · exact ⟨h.patterns, (check_accuracy ..).trans h.accuracy, check_low h.low ..⟩
    · exact ⟨h.patterns, (check_accuracy ..).trans h.accuracy, check_low h.low ..⟩
    · apply Ends.map (updateEntry_ends h.low sig hentry _ entry.2)
      exact fun g hg => ⟨h.patterns, hg.1.trans h.accuracy, hg.2⟩

def budget (l : Lookahead) : Nat :=
  if l.depth = 0 then 93 else l.core.ghr.globalAccuracy * 14 / 15 * l.conf / 100

/-- A reading adds `new` to the queue, paid from the budget of the round. -/
structure Reads (c : Config) (l : Lookahead) (new : List (Nat × Int)) (r : Reading) : Prop where
  queue : r.queue = l.queue ++ new
  confidence : ∀ entry ∈ new, pfThreshold ≤ entry.1
  bounded : ∀ entry ∈ new, entry.1 ≤ budget l
  fits : r.queue.length ≤ max l.queue.length c.l2cMshrSize
  counted : new ≠ [] → (l.core.patterns (getHash l.sig % ptSet)).cSig ≠ 0
  confident : new ≠ [] → pfThreshold ≤ r.maxConf
  paid : new ≠ [] → r.maxConf + pfThreshold * new.length ≤ pfThreshold + budget l

theorem readPattern_ends (hcounted : ∀ set, Counted (l.core.patterns set))
    (hover : ∀ n, pfThreshold * n ≤ budget l → c.l2cMshrSize ≤ l.queue.length + (n - 1) → overrun) :
    Ends overrun (fun r => ∃ new, Reads c l new r) (readPattern c l) := by
  simp only [readPattern]
  obtain ⟨p, hp⟩ : ∃ p, l.core.patterns (getHash l.sig % ptSet) = p := ⟨_, rfl⟩
  have hset : Counted p := hp ▸ hcounted _
  rw [hp]
  by_cases hzero : p.cSig = 0
  · rw [if_pos hzero]
    by_cases hfull : c.l2cMshrSize ≤ l.queue.length
    · rw [if_pos hfull]
      exact hover 0 (Nat.zero_le _) hfull
    · rw [if_neg hfull]
      have hnone : ([] : List (Nat × Int)) ≠ [] → False := fun hcon => hcon rfl
      exact ⟨[], (List.append_nil _).symm, fun _ hentry => absurd hentry List.not_mem_nil,
        fun _ hentry => absurd hentry List.not_mem_nil, le_max_left _ _,
        fun hcon => (hnone hcon).elim, fun hcon => (hnone hcon).elim, fun hcon => (hnone hcon).elim⟩
  · rw [if_neg hzero]
    have hbudget := confidence_le hset l.core.ghr.globalAccuracy l.conf l.depth
    have hfresh := fresh_paid p (pfConf p l.core.ghr.globalAccuracy l.conf l.depth) (List.range ptWay)
    rcases readWays c.l2cMshrSize p (pfConf p l.core.ghr.globalAccuracy l.conf l.depth) (List.range ptWay)
        ⟨l.queue, none, 0⟩ with
      ⟨t, ht, hqueue, hlen, hpaid, hmax⟩ | ⟨herror, hroom⟩
    · rw [ht]
      rw [max_eq_right (Nat.zero_le _)] at hpaid
      exact ⟨_, hqueue, fun _ => le_of_mem_fresh,
        fun _ hentry => (le_sum_of_mem_fresh hentry).trans hbudget, hlen, fun _ => hp ▸ hzero,
        fun hnew => hmax (.inl hnew), fun _ => hpaid.trans (Nat.add_le_add_left hbudget _)⟩
    · rw [herror]
      exact hover _ (hfresh.trans hbudget) (by dsimp only at hroom; omega)

/-- A round adds `n` entries to the queue, all of them paid from its budget. -/
structure Added (overrun : Prop) (c : Config) (l : Lookahead) (n : Nat) (r : Lookahead × Bool) : Prop where
  kept : Kept overrun l.core r.1.core
  head : r.1.head = r.1.queue.length
  length : r.1.queue.length = l.queue.length + n
  fits : r.1.queue.length ≤ max l.queue.length c.l2cMshrSize
  again : r.2 = true → n ≠ 0
  deeper : n ≠ 0 → r.1.depth ≠ 0
  confident : n ≠ 0 → pfThreshold ≤ r.1.conf
  paid : n ≠ 0 → r.1.conf + pfThreshold * n ≤ pfThreshold + budget l

theorem lookaheadRound_ends (hcounted : ∀ set, Counted (l.core.patterns set)) (hhead : l.head = l.queue.length)
    (hlow : Low overrun l.core.ghr) (hbudget : overrun ∨ budget l < 100)
    (hover : ∀ n, pfThreshold * n ≤ budget l → c.l2cMshrSize ≤ l.queue.length + (n - 1) → overrun) :
    Ends overrun (fun r => ∃ n, Added overrun c l n r) (lookaheadRound c ip addr l) := by
  rw [lookaheadRound]
  apply Ends.bind (readPattern_ends hcounted hover)
  rintro r ⟨new, hreads⟩
  have hdrop : r.queue.drop l.head = new := by
    rw [hreads.queue, hhead, List.drop_left]
  have hgood : new.filter (fun entry => pfThreshold ≤ entry.1) = new :=
    List.filter_eq_self.mpr (fun entry hentry => decide_eq_true (hreads.confidence entry hentry))
  simp only [hdrop, hgood]
  apply Ends.bind (P := Kept overrun l.core)
  · apply ends_foldlM _ ⟨rfl, rfl, hlow⟩
    intro t entry hentry ht
    exact issue_ends ht ip addr l.base l.sig (hbudget.imp_right (hreads.bounded entry hentry).trans_lt)
  intro core hkept
  have hlen : r.queue.length = l.queue.length + new.length := by
    rw [hreads.queue, List.length_append]
  have hsome : new.length ≠ 0 → new ≠ [] := fun hn hnil => hn (List.length_eq_zero_iff.mpr hnil)
  refine ⟨new.length, hkept, ?_, hlen, hreads.fits, ?_, ?_, fun hn => hreads.confident (hsome hn),
    fun hn => hreads.paid (hsome hn)⟩
  · rw [hlen, hhead]
  · intro hagain hn
    rw [List.length_eq_zero_iff.mp hn] at hagain
    cases hagain
  · intro hn
    rw [if_pos ⟨hreads.counted (hsome hn), hreads.confident (hsome hn)⟩]
    exact Nat.succ_ne_zero _

/-- How many entries the rounds from here on add at most, while at most 103 in 100 prefetches count
as useful. -/
def worth (l : Lookahead) : Nat :=
  if l.depth = 0 then 28
  else if l.conf ≤ 50 then l.conf / 2 - 12
  else if l.conf ≤ 75 then (l.conf - 48) / 3 + 13
  else (l.conf - 72) / 4 + 22

structure Roomy (c : Config) (l : Lookahead) : Prop where
  accuracy : l.core.ghr.globalAccuracy ≤ 103
  conf : l.conf ≤ 100
  room : l.queue.length + worth l < c.l2cMshrSize

theorem Roomy.budget_le (h : Roomy c l) :
    l.depth = 0 ∧ budget l = 93 ∨ l.depth ≠ 0 ∧ budget l ≤ 96 * l.conf / 100 := by
  rw [budget]
  by_cases hdepth : l.depth = 0
  · exact .inl ⟨hdepth, if_pos hdepth⟩
  · rw [if_neg hdepth]
    have haccuracy := h.accuracy
    have hshare : l.core.ghr.globalAccuracy * 14 / 15 ≤ 96 := by omega
    exact .inr ⟨hdepth, Nat.div_le_div_right (Nat.mul_le_mul_right _ hshare)⟩

theorem Roomy.not_over (h : Roomy c l) {n : Nat} (hn : pfThreshold * n ≤ budget l) :
    ¬c.l2cMshrSize ≤ l.queue.length + (n - 1) := by
  have hroom := h.room
  have hconf := h.conf
  have hbudget := h.budget_le
  have hthreshold : pfThreshold = 25 := rfl
  rw [worth] at hroom
  rw [hthreshold] at hn
  split_ifs at hroom <;> omega

theorem Roomy.step (h : Roomy c l) {n : Nat} {r : Lookahead × Bool} (hadded : Added overrun c l n r)
    (hn : n ≠ 0) :
    Roomy c r.1 := by
  have hroom := h.room
  have hconf := h.conf
  have hbudget := h.budget_le
  have hpaid := hadded.paid hn
  have hconfident := hadded.confident hn
  have hdeeper := hadded.deeper hn
  have hlength := hadded.length
  have hthreshold : pfThreshold = 25 := rfl
  rw [hthreshold] at hpaid hconfident
  refine ⟨hadded.kept.accuracy ▸ h.accuracy, ?_, ?_⟩
  · omega
  · rw [worth] at hroom ⊢
    rw [if_neg hdeeper]
    split_ifs at hroom ⊢ <;> omega

theorem Roomy.budget_lt (h : Roomy c l) : budget l < 100 := by
  have hconf := h.conf
  have hbudget := h.budget_le
  omega

theorem lookahead_ends (fuel : Nat) (hcounted : ∀ set, Counted (l.core.patterns set))
    (hhead : l.head = l.queue.length)
    (hlow : Low overrun l.core.ghr) (hlen : l.queue.length ≤ c.l2cMshrSize)
    (hfuel : c.l2cMshrSize < l.queue.length + fuel) (hroomy : overrun ∨ Roomy c l) :
    Ends overrun (Kept overrun l.core) (lookahead c ip addr fuel l) := by
  induction fuel generalizing l with
  | zero => exact absurd hfuel (Nat.not_lt.mpr hlen)
  | succ fuel ih =>
      rw [lookahead]
      apply Ends.bind (lookaheadRound_ends hcounted hhead hlow (hroomy.imp_right (·.budget_lt))
        (fun n hn hfull => hroomy.resolve_right (fun hroomy => hroomy.not_over hn hfull)))
      rintro ⟨l', again⟩ ⟨n, hadded⟩
      have hkept := hadded.kept
      cases again with
      | false => exact hkept
      | true =>
          have hn := hadded.again rfl
          have hlength := hadded.length
          have hfits := hadded.fits
          rw [max_eq_right hlen] at hfits
          have hlast := ih (l := l') (fun set => hkept.patterns ▸ hcounted set) hadded.head hkept.low hfits
            (by dsimp only at hlength; omega) (hroomy.imp_right (fun hroomy => hroomy.step hadded hn))
          exact hlast.imp
            (fun t ht => ⟨ht.patterns.trans hkept.patterns, ht.accuracy.trans hkept.accuracy, ht.low⟩)

structure Tables (overrun : Prop) (s : Core) : Prop where
  counted : ∀ set, Counted (s.patterns set)
  low : Low overrun s.ghr

theorem start_ends (ip addr sig : Nat) (h : Tables overrun t)
    (hroomy : overrun ∨ t.ghr.globalAccuracy ≤ 103 ∧ 28 < c.l2cMshrSize) :
    Ends overrun (Tables overrun) (lookahead c ip addr (c.l2cMshrSize + 1) ⟨[], 0, 100, 0, sig, addr, t⟩) := by
  have hfuel : c.l2cMshrSize < 0 + (c.l2cMshrSize + 1) := by omega
  apply Ends.imp (P := Kept overrun t) ?_ (fun t' ht' => ⟨ht'.patterns ▸ h.counted, ht'.low⟩)
  apply lookahead_ends (l := ⟨[], 0, 100, 0, sig, addr, t⟩) _ h.counted rfl h.low (Nat.zero_le _) hfuel
  refine hroomy.imp_right (fun hroomy => ⟨hroomy.1, le_rfl, ?_⟩)
  have hroom : 0 + 28 < c.l2cMshrSize := by omega
  exact hroom

theorem prefetch_ends (h : Tables overrun s) (addr ip : Nat) {found : Found}
    (hmoved : found.lastSig ≠ 0 → found.delta ≠ 0)
    (hroomy : overrun ∨ s.ghr.globalAccuracy ≤ 103 ∧ 28 < c.l2cMshrSize) :
    Ends overrun (Tables overrun) (prefetch c s addr ip found) := by
  rw [← check_accuracy s.filter s.ghr addr .l2cDemand] at hroomy
  simp only [prefetch]
  have hstart : ∀ patterns : Nat → PatternSet, (∀ set, Counted (patterns set)) → _ :=
    fun patterns hpatterns => start_ends (c := c) (t := ⟨patterns, (check s.filter s.ghr addr .l2cDemand).2.1,
      (check s.filter s.ghr addr .l2cDemand).2.2, s.prefetched⟩) ip addr found.currSig
      ⟨hpatterns, check_low h.low ..⟩ hroomy
  by_cases hnone : found.lastSig = 0
  · rw [if_pos hnone]
    apply Ends.bind (P := fun patterns : Nat → PatternSet => ∀ set, Counted (patterns set)) _ hstart
    exact h.counted
  · rw [if_neg hnone]
    obtain ⟨q, hq, hcounted⟩ := (h.counted (getHash found.lastSig % ptSet)).updatePattern (hmoved hnone)
    rw [hq]
    apply Ends.bind (P := fun patterns : Nat → PatternSet => ∀ set, Counted (patterns set)) _ hstart
    intro set
    by_cases hset : set = getHash found.lastSig % ptSet
    · rw [hset, Function.update_self]
      exact hcounted
    · rw [Function.update_of_ne hset]
      exact h.counted set

end Rounds

section Runs

variable {s : State (Nat → SignatureEntry)} {c : Config} {overrun : Prop}

theorem readHistory_moved {pages pages' : List PageHistory} {g : GlobalRegister} {page pageOffset : Nat}
    {found : Found} (h : readHistory pages g page pageOffset = .ok (pages', found)) (hsig : found.lastSig ≠ 0) :
    found.delta ≠ 0 := by
  simp only [readHistory] at h
  split at h
  · split_ifs at h with hzero
    · obtain ⟨-, rfl⟩ := Prod.mk.inj (Except.ok.inj h)
      exact absurd rfl hsig
    · obtain ⟨-, rfl⟩ := Prod.mk.inj (Except.ok.inj h)
      exact hzero
  · obtain ⟨-, rfl⟩ := Prod.mk.inj (Except.ok.inj h)
    exact absurd rfl hsig

structure Sound (overrun : Prop) (s : State (Nat → SignatureEntry)) : Prop where
  table : ∃ pages, Follows s.table pages
  core : Tables overrun s.core

theorem sound_initial : Sound overrun .initial :=
  ⟨⟨[], refines_initial.table⟩, fun _ => ⟨(total_eq _).le, Nat.zero_le _, fun _ _ => rfl⟩,
    .inr (fun _ => Nat.succ_pos 99)⟩

/-- The assertions of the tables of signatures and patterns hold whatever the accuracy is, and the loop
ends at the latest with its queues. -/
theorem Sound.operate (h : Sound overrun s) (addr ip : Nat)
    (hroomy : overrun ∨ s.core.ghr.measured.globalAccuracy ≤ 103 ∧ 28 < c.l2cMshrSize) :
    Ends overrun (Sound overrun) (operate readAndUpdateSig c s addr ip) := by
  obtain ⟨pages, hpages⟩ := h.table
  obtain ⟨table, pages', found, hread, hhistory, hfollows⟩ :=
    hpages.read s.core.ghr.measured (addr >>> log2PageSize)
    ((addr >>> log2BlockSize) &&& 63)
  rw [operate_eq ip hread]
  have hcore : Tables overrun { s.core with ghr := s.core.ghr.measured } := ⟨h.core.counted, h.core.low⟩
  exact (prefetch_ends hcore addr ip (readHistory_moved hhistory) hroomy).map
    (fun core hcore => ⟨⟨pages', hfollows⟩, hcore⟩)

theorem Sound.step (h : Sound False s) (hsize : 28 < c.l2cMshrSize)
    (haccuracy : s.core.ghr.measured.globalAccuracy ≤ 103) (call : Call) :
    ∃ t, SppPrefetcher.step c s call = some t ∧ Sound False t := by
  cases call with
  | cacheFill evictedAddr => exact ⟨_, rfl, h.table, h.core.counted, check_low h.core.low ..⟩
  | operate addr ip =>
      have hends := h.operate addr ip (.inr ⟨haccuracy, hsize⟩)
      rw [SppPrefetcher.step, stepWith]
      cases hop : SppPrefetcher.operate readAndUpdateSig c s addr ip with
      | ok t =>
          rw [hop] at hends
          exact ⟨t, rfl, hends⟩
      | error fault =>
          rw [hop] at hends
          cases fault <;> exact hends.elim

/-- No access ever fails an assertion, writes behind its queues or looks ahead for ever, unless before
it more than 103 useful prefetches were counted for 100 issued ones. -/
theorem never_stops (c : Config) (hsize : 28 < c.l2cMshrSize) (calls : List Call) :
    (∃ s, run (step c) .initial calls = some s) ∨ ∃ pre post s, calls = pre ++ post ∧
      run (step c) .initial pre = some s ∧ 103 < s.core.ghr.measured.globalAccuracy := by
  have hall : ∀ s, Sound False s → (∃ t, run (step c) s calls = some t) ∨ ∃ pre post t, calls = pre ++ post ∧
      run (step c) s pre = some t ∧ 103 < t.core.ghr.measured.globalAccuracy := by
    induction calls with
    | nil => exact fun s _ => .inl ⟨s, rfl⟩
    | cons call calls ih =>
        intro s h
        by_cases haccuracy : 103 < s.core.ghr.measured.globalAccuracy
        · exact .inr ⟨[], call :: calls, s, rfl, rfl, haccuracy⟩
        · obtain ⟨t, ht, hsound⟩ := h.step hsize (Nat.le_of_not_lt haccuracy) call
          rcases ih t hsound with ⟨u, hu⟩ | ⟨pre, post, u, rfl, hu, hover⟩
          · exact .inl ⟨u, by rw [run_cons, ht]; exact hu⟩
          · exact .inr ⟨call :: pre, post, u, rfl, by rw [run_cons, ht]; exact hu, hover⟩
  exact hall _ sound_initial

def oneByOne : List Call := (List.range 18).map (fun i => .operate (4096 + 64 * i) 1)

theorem never_stops_oneByOne : ∃ s, run (step ⟨32⟩) .initial oneByOne = some s ∧
    (s.core.prefetched.filter (fun p => p.addr = 4096 + 64 * 17)).map Prefetch.pfAddr =
      [4096 + 64 * 18, 4096 + 64 * 19, 4096 + 64 * 20] := by
  have haccuracy : ∀ i ≤ 18, ((run (step ⟨32⟩) .initial (oneByOne.take i)).all fun s =>
      decide (s.core.ghr.measured.globalAccuracy ≤ 103)) = true := by decide +kernel
  rcases never_stops ⟨32⟩ (by decide) oneByOne with ⟨s, hs⟩ | ⟨pre, post, s, hsplit, hs, hover⟩
  · have hahead : (run (step ⟨32⟩) .initial oneByOne).map (fun s =>
        (s.core.prefetched.filter (fun p => p.addr = 4096 + 64 * 17)).map Prefetch.pfAddr) =
          some [4096 + 64 * 18, 4096 + 64 * 19, 4096 + 64 * 20] := by decide +kernel
    rw [hs] at hahead
    exact ⟨s, hs, Option.some.inj hahead⟩
  · have hlength : pre.length ≤ 18 := by
      have hle := congrArg List.length hsplit
      rw [List.length_append] at hle
      change 18 = _ at hle
      omega
    have hle := haccuracy pre.length hlength
    rw [hsplit, List.take_left', hs] at hle
    · exact absurd (of_decide_eq_true hle) (Nat.not_le.mpr hover)
    · rfl

end Runs

end Thermometer.SppLookahead
