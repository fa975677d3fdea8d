import Thermometer.BasicBtbLru

namespace Thermometer.BasicBtbFirst

open Trace BasicBtb BasicBtbLru Lib.Scan Lib.Runs Lib.Recency

structure Kept (index : Nat → Nat) (ways : Nat) (s : State) (r : Ref) : Prop where
  indexEq : s.index = index
  waysEq : s.ways = ways
  pos : 0 < ways
  bounded : StreamBuffer.Bounded s.stream
  rep : Rep s r

def Selects (s : State) (i : Nat) : Prop := (∀ e ∈ s.btb i, e.valid = true) ∨ Ready (s.btb i)

variable {index : Nat → Nat} {ways : Nat} {s t : State} {r : Ref} {c : Call}

theorem refStep_idle (h : Rep s r) (hip : c.ip ≠ 0) (hi : Idle s c) (ways : Nat) :
    refStep s.index ways r c = r := by
  have hmiss := findEntry_none h hip
  rcases hi with hty | ⟨hf, ha⟩
  · cases c with
    | predict ip ty =>
        have hty : ty.usesBtb = false := hty
        simp [refStep, hty]
    | update ip target taken ty =>
        have hty : ty.usesBtb = false := hty
        simp [refStep, hty]
    | prefetch ip target ty taken toStreamBuffer =>
        have hty : ty.usesBtb = false := hty
        simp [refStep, hty]
  · have hk := hmiss.mp hf
    cases c with
    | predict ip ty => exact if_neg (fun hc => hk hc.2)
    | update ip target taken ty =>
        have hk : ip ∉ keys (r (s.index ip)) := hk
        have ha : ty.usesBtb = true → target ≠ 0 → taken = false := by
          simpa [Call.allocates] using ha
        simp only [refStep, hk, if_false]
        split_ifs with hty hall
        · rw [ha hty hall.1] at hall
          exact absurd hall.2 (by simp)
        · rfl
        · rfl
    | prefetch ip target ty taken toStreamBuffer =>
        have hk : ip ∉ keys (r (s.index ip)) := hk
        have ha : ty.usesBtb = true → target ≠ 0 → taken = true → toStreamBuffer = true := by
          simpa [Call.allocates] using ha
        simp only [refStep, hk, if_false]
        split_ifs with hty hall
        · exact absurd (ha hty hall.1 hall.2.1) hall.2.2
        · rfl
        · rfl

theorem findEntry_updateLru {ip way : Nat} (hf : findEntry s ip = some way) :
    findEntry (updateLru s (s.set ip) way) ip = some way := by
  rw [findEntry, List.findIdx?_eq_some_iff_getElem] at hf ⊢
  obtain ⟨hlt, htag, hmin⟩ := hf
  have hset : (updateLru s (s.set ip) way).btb ((updateLru s (s.set ip) way).set ip) =
      (s.btb (s.set ip)).modify way (fun e => { e with lru := s.lruCounter }) := by
    rw [updateLru_btb]
    exact Function.update_self _ _ _
  simp only [hset, List.length_modify]
  refine ⟨hlt, ?_, ?_⟩
  · simpa [List.getElem_modify] using htag
  · intro j hj
    have := hmin j hj
    rw [List.getElem_modify, if_neg (by omega)]
    exact this

theorem hit_rep {way : Nat} (h : Rep s r) (hip : c.ip ≠ 0) (hty : c.branchType.usesBtb = true)
    (hf : findEntry s c.ip = some way) : Rep (hit s way c) (refStep s.index s.ways r c) := by
  have hk := mem_keys_of_findEntry h hip hf
  cases c with
  | predict ip ty =>
      rw [refStep, if_pos ⟨hty, hk⟩]
      exact updateLru_rep h hip hf
  | update ip target taken ty =>
      have hty : ty.usesBtb = true := hty
      have hk : ip ∈ keys (r (s.index ip)) := hk
      simp only [refStep]
      rw [if_pos hty, if_pos hk]
      exact updateExisting_rep h hip hf target taken
  | prefetch ip target ty taken toStreamBuffer =>
      have hty : ty.usesBtb = true := hty
      have hk : ip ∈ keys (r (s.index ip)) := hk
      simp only [refStep]
      rw [if_pos hty, if_pos hk]
      have hu := updateExisting_rep (updateLru_rep h hip hf) hip (findEntry_updateLru hf) target taken
      simp only [State.set, updateLru, State.modify, Function.update_self, Function.update_idem] at hu
      exact hu

theorem refStep_allocate (h : Rep s r) (hip : c.ip ≠ 0) (ha : c.allocates = true)
    (hf : findEntry s c.ip = none) :
    refStep s.index ways r c =
      Function.update r (s.set c.ip) (fill ways c.ip (c.branchTarget, true) (r (s.set c.ip))) := by
  have hk := (findEntry_none h hip).mp hf
  cases c with
  | predict ip ty => cases ha
  | update ip target taken ty =>
      obtain ⟨⟨hty, ht⟩, htk⟩ : (ty.usesBtb = true ∧ target ≠ 0) ∧ taken = true := by
        simpa [Call.allocates] using ha
      have hk : ip ∉ keys (r (s.index ip)) := hk
      simp only [refStep]
      rw [if_pos hty, if_neg hk, if_pos ⟨ht, htk⟩]
      rfl
  | prefetch ip target ty taken toStreamBuffer =>
      obtain ⟨⟨⟨hty, ht⟩, htk⟩, hs⟩ :
          ((ty.usesBtb = true ∧ target ≠ 0) ∧ taken = true) ∧ toStreamBuffer = false := by
        simpa [Call.allocates] using ha
      have hk : ip ∉ keys (r (s.index ip)) := hk
      simp only [refStep]
      rw [if_pos hty, if_neg hk, if_pos ⟨ht, htk, by simp [hs]⟩]
      rfl

theorem step_kept (h : Kept index ways s r) (hip : c.ip ≠ 0)
    (hsel : c.allocates = true → findEntry s c.ip = none → Selects s (s.set c.ip)) :
    ∃ t, step s c = some t ∧ Kept index ways t (refStep index ways r c) := by
  obtain ⟨t, ht, hb, hc⟩ := step_cases s c h.bounded
  have hts : t.index = index := ht.index.trans h.indexEq
  have htw : t.ways = ways := ht.ways.trans h.waysEq
  have htr := ht.rep h.rep
  have hset := ht.set c.ip
  have hfind := ht.findEntry c.ip
  rcases hc with ⟨hi, hs⟩ | ⟨way, hty, hf, hs⟩ | ⟨ha, hf, hs⟩
  · refine ⟨t, hs, hts, htw, h.pos, hb, ?_⟩
    rw [← h.indexEq, refStep_idle h.rep hip hi]
    exact htr
  · have hrep := hit_rep htr hip hty (hfind.trans hf)
    rw [hts, htw] at hrep
    refine ⟨_, hs, ?_, ?_, h.pos, ?_, hrep⟩
    · cases c <;> exact hts
    · cases c <;> exact htw
    · cases c <;> exact hb
  · have hst : Selects t (t.set c.ip) := by
      rw [hset, Selects, ht.btb]
      exact hsel ha hf
    have hrep := allocate_rep htr (by rw [htw]; exact h.pos) hip (hfind.trans hf) hst c.branchTarget
    rw [htw, ← refStep_allocate htr hip ha (hfind.trans hf), hts] at hrep
    exact ⟨_, hs, hts, htw, h.pos, hb, hrep⟩

def Follows (index : Nat → Nat) (ways : Nat) (s : State) (r : Ref) (cs : List Call) : Prop :=
  ∀ pre, pre <+: cs → ∃ t, run step s pre = some t ∧ Agrees t (pre.foldl (refStep index ways) r)

theorem follows_nil (h : Agrees s r) : Follows index ways s r [] := by
  intro pre hp
  rw [List.prefix_nil.mp hp]
  exact ⟨s, rfl, h⟩

theorem follows_cons {cs : List Call} (h : Agrees s r) (ht : step s c = some t) :
    Follows index ways s r (c :: cs) ↔ Follows index ways t (refStep index ways r c) cs := by
  constructor
  · intro hf pre hp
    obtain ⟨u, hu, ha⟩ := hf (c :: pre) ((List.prefix_cons_inj c).mpr hp)
    rw [run_cons, ht] at hu
    exact ⟨u, hu, ha⟩
  · intro hf pre hp
    cases pre with
    | nil => exact ⟨s, rfl, h⟩
    | cons d pre =>
        obtain ⟨rfl, hq⟩ := List.cons_prefix_cons.mp hp
        obtain ⟨u, hu, ha⟩ := hf pre hq
        exact ⟨u, by rw [run_cons, ht]; exact hu, ha⟩

def hitEntry (counter : Nat) : Call → Entry → Entry
  | .predict _ _, e => { e with lru := counter }
  | .update _ target taken _, e =>
      if taken then { e with target := target } else { e with alwaysTaken := false }
  | .prefetch _ target _ taken _, e =>
      if taken then { e with lru := counter, target := target }
      else { e with lru := counter, alwaysTaken := false }

theorem hitEntry_valid (counter : Nat) (c : Call) (e : Entry) : (hitEntry counter c e).valid = e.valid := by
  cases c with
  | predict ip ty => rfl
  | update ip target taken ty => cases taken <;> rfl
  | prefetch ip target ty taken toStreamBuffer => cases taken <;> rfl

theorem hitEntry_tag (counter : Nat) (c : Call) (e : Entry) : (hitEntry counter c e).ipTag = e.ipTag := by
  cases c with
  | predict ip ty => rfl
  | update ip target taken ty => cases taken <;> rfl
  | prefetch ip target ty taken toStreamBuffer => cases taken <;> rfl

theorem hitEntry_lru (counter : Nat) (hty : c.branchType.usesBtb = true) (e : Entry) :
    (hitEntry counter c e).lru = if c.refreshes then counter else e.lru := by
  cases c with
  | predict ip ty =>
      have hr : Call.refreshes (.predict ip ty) = true := hty
      rw [if_pos hr, hitEntry]
  | update ip target taken ty => cases taken <;> rfl
  | prefetch ip target ty taken toStreamBuffer =>
      have hr : Call.refreshes (.prefetch ip target ty taken toStreamBuffer) = true := hty
      rw [if_pos hr]
      cases taken <;> rfl

theorem hit_btb (s : State) (way : Nat) (c : Call) :
    (hit s way c).btb = Function.update s.btb (s.set c.ip)
      ((s.btb (s.set c.ip)).modify way (hitEntry s.lruCounter c)) := by
  cases c with
  | predict ip ty => rfl
  | update ip target taken ty => rfl
  | prefetch ip target ty taken toStreamBuffer =>
      simp only [hit, updateExisting, updateLru, State.modify, Function.update_self, Function.update_idem,
        List.modify_modify_eq]
      congr 2

theorem allocate_btb (s : State) (ip branchTarget : Nat) :
    (allocate s ip branchTarget).btb = Function.update s.btb (s.set ip)
      ((s.btb (s.set ip)).modify (getLruEntry s (s.set ip)) (fun _ => ⟨ip, branchTarget, true, s.lruCounter⟩)) := by
  simp only [allocate, updateLru_btb, State.modify, Function.update_self, Function.update_idem,
    List.modify_modify_eq]
  rfl

theorem step_btb (hb : StreamBuffer.Bounded s.stream) (ht : step s c = some t) :
    s.lruCounter ≤ t.lruCounter ∧
      (Idle s c ∧ t.btb = s.btb ∧ t.lruCounter = s.lruCounter ∨
        (∃ way, c.branchType.usesBtb = true ∧ findEntry s c.ip = some way ∧
          t.btb = Function.update s.btb (s.set c.ip)
            ((s.btb (s.set c.ip)).modify way (hitEntry s.lruCounter c))) ∨
        c.allocates = true ∧ findEntry s c.ip = none ∧ t.lruCounter = s.lruCounter + 1 ∧
          t.btb = Function.update s.btb (s.set c.ip) ((s.btb (s.set c.ip)).modify
            (getLruEntry s (s.set c.ip)) (fun _ => ⟨c.ip, c.branchTarget, true, s.lruCounter⟩))) := by
  obtain ⟨u, hu, -, hc⟩ := step_cases s c hb
  have hset := hu.set c.ip
  have hlru : getLruEntry u (u.set c.ip) = getLruEntry s (s.set c.ip) := by
    rw [hset, getLruEntry, getLruEntry, hu.ways]
    simp only [State.entry, hu.btb]
  rcases hc with ⟨hi, hs⟩ | ⟨way, hty, hf, hs⟩ | ⟨ha, hf, hs⟩
  all_goals
    rw [hs, Option.some.injEq] at ht
    subst ht
  · exact ⟨Nat.le_of_eq hu.lruCounter.symm, .inl ⟨hi, hu.btb, hu.lruCounter⟩⟩
  · refine ⟨?_, .inr (.inl ⟨way, hty, hf, ?_⟩)⟩
    · rw [← hu.lruCounter]
      cases c with
      | predict ip ty => exact Nat.le_succ _
      | update ip target taken ty => exact Nat.le_refl _
      | prefetch ip target ty taken toStreamBuffer => exact Nat.le_succ _
    · rw [hit_btb, hset, hu.btb, hu.lruCounter]
  · refine ⟨?_, .inr (.inr ⟨ha, hf, ?_, ?_⟩)⟩
    · rw [← hu.lruCounter]
      exact Nat.le_succ _
    · rw [← hu.lruCounter]
      rfl
    · rw [allocate_btb, hlru, hset, hu.btb, hu.lruCounter]

theorem ready_modify {es : List Entry} {f : Entry → Entry} (h : Ready es) (way : Nat)
    (hf : ∀ e ∈ es, (f e).valid = true → 0 < (f e).lru) : Ready (es.modify way f) := by
  intro e he hv
  rcases mem_modify he with he | ⟨d, hd, rfl⟩
  · exact h e he hv
  · exact hf d hd hv

theorem step_ready (hb : StreamBuffer.Bounded s.stream) (hc : 0 < s.lruCounter) (ht : step s c = some t)
    {i : Nat} (h : Ready (s.btb i)) : Ready (t.btb i) := by
  obtain ⟨-, hcase⟩ := step_btb hb ht
  rcases hcase with ⟨-, htb, -⟩ | ⟨way, hty, -, htb⟩ | ⟨-, -, -, htb⟩
  · rw [htb]
    exact h
  · rw [htb]
    by_cases hi : i = s.set c.ip
    · subst hi
      rw [Function.update_self]
      refine ready_modify h way (fun e he hv => ?_)
      rw [hitEntry_lru _ hty]
      rw [hitEntry_valid] at hv
      split_ifs
      · exact hc
      · exact h e he hv
    · rw [Function.update_of_ne hi]
      exact h
  · rw [htb]
    by_cases hi : i = s.set c.ip
    · subst hi
      rw [Function.update_self]
      exact ready_modify h _ (fun e _ _ => hc)
    · rw [Function.update_of_ne hi]
      exact h

structure Mature (s : State) : Prop where
  counter : 0 < s.lruCounter
  ready : ∀ i, Ready (s.btb i)

theorem mature_follows (h : Kept index ways s r) (hm : Mature s) {cs : List Call} (hip : ∀ c ∈ cs, c.ip ≠ 0) :
    Follows index ways s r cs := by
  induction cs generalizing s r with
  | nil => exact follows_nil h.rep.agrees
  | cons c cs ih =>
      obtain ⟨t, ht, hk⟩ := step_kept h (hip c List.mem_cons_self) (fun _ _ => .inr (hm.ready _))
      rw [follows_cons h.rep.agrees ht]
      have hb := h.bounded
      refine ih hk ⟨?_, fun i => step_ready hb hm.counter ht (hm.ready i)⟩
        (fun d hd => hip d (List.mem_cons_of_mem c hd))
      exact Nat.lt_of_lt_of_le hm.counter (step_btb hb ht).1

theorem oneWay_follows (h : Kept index 1 s r) {cs : List Call} (hip : ∀ c ∈ cs, c.ip ≠ 0) :
    Follows index 1 s r cs := by
  induction cs generalizing s r with
  | nil => exact follows_nil h.rep.agrees
  | cons c cs ih =>
      have hsel : Selects s (s.set c.ip) := by
        obtain ⟨e, he⟩ := List.length_eq_one_iff.mp ((h.rep.ways (s.set c.ip)).trans h.waysEq)
        cases hv : e.valid with
        | true => exact .inl (by rw [he]; simpa using hv)
        | false => exact .inr (by rw [he]; simp [Ready, hv])
      obtain ⟨t, ht, hk⟩ := step_kept h (hip c List.mem_cons_self) (fun _ _ => hsel)
      rw [follows_cons h.rep.agrees ht]
      exact ih hk (fun d hd => hip d (List.mem_cons_of_mem c hd))

structure Fresh (s : State) (ip₀ : Nat) : Prop where
  counter : 0 < s.lruCounter
  first : ∃ e, e.ipTag = ip₀ ∧ e.lru = 0 ∧
    s.btb (s.set ip₀) = e :: List.replicate (s.ways - 1) .invalid
  others : ∀ i, i ≠ s.set ip₀ → Ready (s.btb i)

def conflictAfter (index : Nat → Nat) (ip₀ : Nat) : List Call → Bool
  | [] => false
  | c :: cs =>
      if c.ip = ip₀ then !c.refreshes && conflictAfter index ip₀ cs
      else (c.allocates && index c.ip = index ip₀) || conflictAfter index ip₀ cs

/-- The first inserted branch is at risk until it is used again. -/
def conflict (index : Nat → Nat) : List Call → Bool
  | [] => false
  | c :: cs => if c.allocates then conflictAfter index c.ip cs else conflict index cs

theorem filter_invalid (n : Nat) : (List.replicate n Entry.invalid).filter Entry.valid = [] := by
  rw [List.filter_eq_nil_iff]
  intro a ha
  rw [List.eq_of_mem_replicate ha]
  simp [Entry.invalid, Entry.valid]

theorem getLruEntry_zero {i : Nat} (h : (s.entry i 0).lru = 0) : getLruEntry s i = 0 := by
  by_contra hne
  have hlt := lt_of_lt_firstMin (fun k => (s.entry i k).lru) (n := s.ways) (i := 0) (Nat.pos_of_ne_zero hne)
  simp only [h] at hlt
  exact Nat.not_lt_zero _ hlt

theorem fresh_findEntry {ip₀ ip : Nat} (h : Fresh s ip₀) (hip : ip ≠ 0) (hset : s.set ip = s.set ip₀) :
    findEntry s ip = if ip = ip₀ then some 0 else none := by
  obtain ⟨e, rfl, -, hes⟩ := h.first
  rw [findEntry, hset, hes, List.findIdx?_cons]
  have hrest : (List.replicate (s.ways - 1) Entry.invalid).findIdx? (fun e => e.ipTag = ip) = none := by
    rw [List.findIdx?_eq_none_iff]
    intro a ha
    rw [List.eq_of_mem_replicate ha]
    exact decide_eq_false hip.symm
  by_cases heq : ip = e.ipTag
  · rw [if_pos heq, if_pos (by simp [heq])]
  · rw [if_neg heq, if_neg (by simpa using Ne.symm heq), hrest]
    rfl

theorem fresh_of_set {ip₀ : Nat} (h : Fresh s ip₀) (hb : StreamBuffer.Bounded s.stream)
    (ht : step s c = some t) (hindex : t.index = s.index) (hways : t.ways = s.ways) {e : Entry}
    (htag : e.ipTag = ip₀) (hlru : e.lru = 0)
    (hbtb : t.btb (s.set ip₀) = e :: List.replicate (s.ways - 1) .invalid) : Fresh t ip₀ := by
  have hset : t.set ip₀ = s.set ip₀ := by rw [State.set, hindex, State.set]
  refine ⟨Nat.lt_of_lt_of_le h.counter (step_btb hb ht).1, ⟨e, htag, hlru, ?_⟩, fun i hi => ?_⟩
  · rw [hset, hbtb, hways]
  · rw [hset] at hi
    exact step_ready hb h.counter ht (h.others i hi)

theorem mature_of_fresh {ip₀ : Nat} (h : Fresh s ip₀) (hb : StreamBuffer.Bounded s.stream)
    (ht : step s c = some t) {e : Entry} (hlru : 0 < e.lru)
    (hbtb : t.btb (s.set ip₀) = e :: List.replicate (s.ways - 1) .invalid) : Mature t := by
  refine ⟨Nat.lt_of_lt_of_le h.counter (step_btb hb ht).1, fun i => ?_⟩
  by_cases hi : i = s.set ip₀
  · subst hi
    rw [hbtb]
    intro a ha hv
    rcases List.mem_cons.mp ha with rfl | ha
    · exact hlru
    · rw [List.eq_of_mem_replicate ha] at hv
      cases hv
  · exact step_ready hb h.counter ht (h.others i hi)

theorem not_agrees_of_single {i : Nat} {e : Entry} {n : Nat} {l : Lines (Nat × Bool)} {a : Nat × (Nat × Bool)}
    (hbtb : t.btb i = e :: List.replicate n .invalid) (hl : l.length = 1)
    (hr : r i = l ++ [a]) : ¬Agrees t r := by
  intro hag
  have hlen := (hag i).length_eq
  rw [hr, residents, List.length_map, List.length_append, hl, hbtb] at hlen
  have hle : ((e :: List.replicate n Entry.invalid).filter Entry.valid).length ≤ 1 := by
    cases hv : e.valid <;> simp [hv, filter_invalid]
  rw [List.length_singleton] at hlen
  omega

theorem fresh_length {ip₀ : Nat} (h : Kept index ways s r) (hf : Fresh s ip₀) (h₀ : ip₀ ≠ 0) :
    (r (s.set ip₀)).length = 1 := by
  obtain ⟨e, rfl, -, hes⟩ := hf.first
  have hv : e.valid = true := by simpa [Entry.valid] using h₀
  rw [(h.rep.rep _).length, hes, List.filter_cons_of_pos hv, filter_invalid]
  rfl

/-- The call meets the first branch itself. -/
theorem fresh_use {ip₀ : Nat} (h : Kept index ways s r) (hf : Fresh s ip₀) (hip : c.ip ≠ 0) (heq : c.ip = ip₀) :
    ∃ t, step s c = some t ∧ Kept index ways t (refStep index ways r c) ∧
      if c.refreshes then Mature t else Fresh t ip₀ := by
  subst heq
  have hfind := fresh_findEntry hf hip rfl
  rw [if_pos rfl] at hfind
  obtain ⟨t, ht, hk⟩ := step_kept h hip (fun _ hn => by rw [hfind] at hn; cases hn)
  have hindex := hk.indexEq.trans h.indexEq.symm
  have hways := hk.waysEq.trans h.waysEq.symm
  refine ⟨t, ht, hk, ?_⟩
  obtain ⟨e, htag, hlru, hes⟩ := hf.first
  rcases (step_btb h.bounded ht).2 with ⟨hi, htb, -⟩ | ⟨way, hty, hw, htb⟩ | ⟨-, hn, -⟩
  · have hty : c.branchType.usesBtb = false := by
      rcases hi with hty | ⟨hn, -⟩
      · exact hty
      · rw [hfind] at hn
        cases hn
    have hr : c.refreshes = false := by
      cases c with
      | predict ip ty => exact hty
      | update ip target taken ty => rfl
      | prefetch ip target ty taken toStreamBuffer => exact hty
    rw [hr, if_neg (by simp)]
    exact fresh_of_set hf h.bounded ht hindex hways htag hlru (by rw [htb, hes])
  · rw [hfind, Option.some.injEq] at hw
    subst hw
    have hbtb : t.btb (s.set c.ip) =
        hitEntry s.lruCounter c e :: List.replicate (s.ways - 1) .invalid := by
      rw [htb, Function.update_self, hes, List.modify_zero_cons]
    have hstamp := hitEntry_lru s.lruCounter hty e
    cases hr : c.refreshes with
    | true =>
        rw [hr, if_pos rfl] at hstamp
        exact mature_of_fresh hf h.bounded ht (by rw [hstamp]; exact hf.counter) hbtb
    | false =>
        rw [hr, if_neg (by simp), hlru] at hstamp
        exact fresh_of_set hf h.bounded ht hindex hways ((hitEntry_tag _ _ _).trans htag) hstamp hbtb
  · rw [hfind] at hn
    cases hn

theorem fresh_other {ip₀ : Nat} (h : Kept index ways s r) (hf : Fresh s ip₀) (hip : c.ip ≠ 0)
    (hne : c.ip ≠ ip₀) (hno : c.allocates = true → s.set c.ip ≠ s.set ip₀) :
    ∃ t, step s c = some t ∧ Kept index ways t (refStep index ways r c) ∧ Fresh t ip₀ := by
  obtain ⟨t, ht, hk⟩ := step_kept h hip (fun ha _ => .inr (hf.others _ (hno ha)))
  have hindex := hk.indexEq.trans h.indexEq.symm
  have hways := hk.waysEq.trans h.waysEq.symm
  refine ⟨t, ht, hk, ?_⟩
  obtain ⟨e, htag, hlru, hes⟩ := hf.first
  refine fresh_of_set hf h.bounded ht hindex hways htag hlru ?_
  rcases (step_btb h.bounded ht).2 with ⟨-, htb, -⟩ | ⟨way, -, hw, htb⟩ | ⟨ha, -, -, htb⟩
  · rw [htb, hes]
  · have hset : s.set ip₀ ≠ s.set c.ip := by
      intro hset
      rw [fresh_findEntry hf hip hset.symm, if_neg hne] at hw
      cases hw
    rw [htb, Function.update_of_ne hset, hes]
  · rw [htb, Function.update_of_ne (hno ha).symm, hes]

theorem fresh_conflict {ip₀ : Nat} (h : Kept index ways s r) (hf : Fresh s ip₀) (h₀ : ip₀ ≠ 0) (hw : 1 < ways)
    (hip : c.ip ≠ 0) (hne : c.ip ≠ ip₀) (ha : c.allocates = true) (hset : s.set c.ip = s.set ip₀)
    (ht : step s c = some t) : ¬Agrees t (refStep index ways r c) := by
  have hfind := fresh_findEntry hf hip hset
  rw [if_neg hne] at hfind
  have hlen := fresh_length h hf h₀
  obtain ⟨e, -, hlru, hes⟩ := hf.first
  have hzero : getLruEntry s (s.set c.ip) = 0 := by
    refine getLruEntry_zero ?_
    rw [State.entry, hset, hes]
    exact hlru
  have href : refStep index ways r c (s.set ip₀) = r (s.set ip₀) ++ [(c.ip, (c.branchTarget, true))] := by
    rw [← h.indexEq, refStep_allocate h.rep hip ha hfind, hset, Function.update_self, fill, if_pos (by omega)]
  rcases (step_btb h.bounded ht).2 with ⟨hi, -⟩ | ⟨way, -, hw, -⟩ | ⟨-, -, -, htb⟩
  · rcases hi with hty | ⟨-, hna⟩
    · rw [Call.usesBtb_of_allocates ha] at hty
      cases hty
    · rw [ha] at hna
      cases hna
  · rw [hfind] at hw
    cases hw
  · have hbtb : t.btb (s.set ip₀) = ⟨c.ip, c.branchTarget, true, s.lruCounter⟩ ::
        List.replicate (s.ways - 1) .invalid := by
      rw [htb, hzero, hset, Function.update_self, hes, List.modify_zero_cons]
    exact not_agrees_of_single hbtb hlen href

theorem fresh_follows {ip₀ : Nat} (h : Kept index ways s r) (hf : Fresh s ip₀) (h₀ : ip₀ ≠ 0)
    (hw : 1 < ways) {cs : List Call} (hip : ∀ c ∈ cs, c.ip ≠ 0) :
    Follows index ways s r cs ↔ conflictAfter index ip₀ cs = false := by
  induction cs generalizing s r with
  | nil => exact iff_of_true (follows_nil h.rep.agrees) rfl
  | cons c cs ih =>
      have hc := hip c List.mem_cons_self
      have hcs : ∀ d ∈ cs, d.ip ≠ 0 := fun d hd => hip d (List.mem_cons_of_mem c hd)
      rw [conflictAfter]
      by_cases heq : c.ip = ip₀
      · obtain ⟨t, ht, hk, hnext⟩ := fresh_use h hf hc heq
        rw [follows_cons h.rep.agrees ht, if_pos heq]
        cases hr : c.refreshes with
        | true =>
            rw [hr, if_pos rfl] at hnext
            exact iff_of_true (mature_follows hk hnext hcs) rfl
        | false =>
            rw [hr, if_neg (by simp)] at hnext
            rw [ih hk hnext hcs]
            simp
      · rw [if_neg heq]
        by_cases ha : c.allocates = true ∧ s.set c.ip = s.set ip₀
        · have hset : index c.ip = index ip₀ := by rw [← h.indexEq]; exact ha.2
          refine iff_of_false (fun hall => ?_) (by simp [ha.1, hset])
          obtain ⟨t, ht, hag⟩ := hall [c] (by simp)
          rw [run_cons, Option.bind_eq_some_iff] at ht
          obtain ⟨u, hu, ht⟩ := ht
          rw [run_nil, Option.some.injEq] at ht
          exact fresh_conflict h hf h₀ hw hc heq ha.1 ha.2 (ht ▸ hu) hag
        · have hno : c.allocates = true → s.set c.ip ≠ s.set ip₀ := fun hal hs => ha ⟨hal, hs⟩
          obtain ⟨t, ht, hk, hnext⟩ := fresh_other h hf hc heq hno
          rw [follows_cons h.rep.agrees ht, ih hk hnext hcs]
          have hset : (c.allocates && decide (index c.ip = index ip₀)) = false := by
            rw [← h.indexEq, Bool.and_eq_false_iff, decide_eq_false_iff_not]
            by_cases hal : c.allocates = true
            · exact .inr (hno hal)
            · exact .inl (Bool.eq_false_iff.mpr hal)
          rw [hset, Bool.false_or]

structure Blank (s : State) : Prop where
  counter : s.lruCounter = 0
  btb : ∀ i, s.btb i = List.replicate s.ways .invalid

theorem blank_findEntry (h : Blank s) {ip : Nat} (hip : ip ≠ 0) : findEntry s ip = none := by
  rw [findEntry, List.findIdx?_eq_none_iff, h.btb]
  intro a ha
  rw [List.eq_of_mem_replicate ha]
  exact decide_eq_false hip.symm

theorem blank_ready (h : Blank s) (i : Nat) : Ready (s.btb i) := by
  intro a ha hv
  rw [h.btb] at ha
  rw [List.eq_of_mem_replicate ha] at hv
  cases hv

theorem blank_step (h : Kept index ways s r) (hbl : Blank s) (hip : c.ip ≠ 0) :
    ∃ t, step s c = some t ∧ Kept index ways t (refStep index ways r c) ∧
      if c.allocates then Fresh t c.ip else Blank t := by
  have hfind := blank_findEntry hbl hip
  obtain ⟨t, ht, hk⟩ := step_kept h hip (fun _ _ => .inr (blank_ready hbl _))
  have hindex := hk.indexEq.trans h.indexEq.symm
  have hways := hk.waysEq.trans h.waysEq.symm
  refine ⟨t, ht, hk, ?_⟩
  rcases (step_btb h.bounded ht).2 with ⟨hi, htb, hctr⟩ | ⟨way, -, hw, -⟩ | ⟨ha, -, hctr, htb⟩
  · have hna : c.allocates = false := by
      rcases hi with hty | ⟨-, hna⟩
      · exact Bool.eq_false_iff.mpr (fun ha => by rw [Call.usesBtb_of_allocates ha] at hty; cases hty)
      · exact hna
    rw [hna, if_neg (by simp)]
    exact ⟨hctr.trans hbl.counter, fun i => by rw [htb, hbl.btb, hways]⟩
  · rw [hfind] at hw
    cases hw
  · rw [ha, if_pos rfl]
    have hset : t.set c.ip = s.set c.ip := by rw [State.set, hindex, State.set]
    have hpos : s.btb (s.set c.ip) = .invalid :: List.replicate (s.ways - 1) .invalid := by
      rw [hbl.btb, ← List.replicate_succ, Nat.sub_add_cancel (h.waysEq ▸ h.pos)]
    have hzero : getLruEntry s (s.set c.ip) = 0 := by
      refine getLruEntry_zero ?_
      rw [State.entry, hpos]
      rfl
    refine ⟨by omega, ⟨⟨c.ip, c.branchTarget, true, s.lruCounter⟩, rfl, hbl.counter, ?_⟩, fun i hi => ?_⟩
    · rw [hset, hways, htb, hzero, Function.update_self, hpos, List.modify_zero_cons]
    · rw [hset] at hi
      rw [htb, Function.update_of_ne hi]
      exact blank_ready hbl i

theorem blank_follows (h : Kept index ways s r) (hbl : Blank s) (hw : 1 < ways) {cs : List Call}
    (hip : ∀ c ∈ cs, c.ip ≠ 0) : Follows index ways s r cs ↔ conflict index cs = false := by
  induction cs generalizing s r with
  | nil => exact iff_of_true (follows_nil h.rep.agrees) rfl
  | cons c cs ih =>
      have hc := hip c List.mem_cons_self
      have hcs : ∀ d ∈ cs, d.ip ≠ 0 := fun d hd => hip d (List.mem_cons_of_mem c hd)
      obtain ⟨t, ht, hk, hnext⟩ := blank_step h hbl hc
      rw [follows_cons h.rep.agrees ht, conflict]
      cases ha : c.allocates with
      | true =>
          rw [ha, if_pos rfl] at hnext
          rw [if_pos rfl]
          exact fresh_follows hk hnext hc hw hcs
      | false =>
          rw [ha, if_neg (by simp)] at hnext
          rw [if_neg (by simp)]
          exact ih hk hnext hcs

theorem kept_initial (index : Nat → Nat) (hw : 0 < ways) : Kept index ways (.initial index ways) (fun _ => []) := by
  refine ⟨rfl, rfl, hw, StreamBuffer.bounded_empty (by decide), fun _ => List.length_replicate, fun i => ?_⟩
  refine ⟨⟨[], ?_, rfl⟩, List.nodup_nil, ?_, ?_⟩
  · rw [show (State.initial index ways).btb i = List.replicate ways .invalid from rfl, filter_invalid]
    exact byStamp_nil
  · intro e he hv
    rw [List.eq_of_mem_replicate he] at hv
    cases hv
  · intro e he _
    rw [List.eq_of_mem_replicate he]
    rfl

/-- The BTB is the reference cache through a run exactly when sets have one way
or the first inserted branch is used again before its set takes another. -/
theorem basicBtb_lru_iff {sets ways : Nat} (hw : 0 < ways) {cs : List Call} (hip : ∀ c ∈ cs, c.ip ≠ 0) :
    (∀ pre, pre <+: cs →
        ∃ t, run step (initializeBtb sets ways) pre = some t ∧ Agrees t (refRun (setIndex sets) ways pre)) ↔
      ways = 1 ∨ conflict (setIndex sets) cs = false := by
  have hk := kept_initial (setIndex sets) hw
  by_cases h1 : ways = 1
  · subst h1
    exact iff_of_true (oneWay_follows hk hip) (.inl rfl)
  · rw [or_iff_right h1]
    exact blank_follows hk ⟨rfl, fun _ => rfl⟩ (by omega) hip

theorem basicBtb_lru_iff_pair :
    (∀ pre, pre <+: [Call.update 4 40 true .directJump, .predict 4 .directJump, .update 8 80 true .directJump] →
        ∃ t, run step (initializeBtb 1 2) pre = some t ∧ Agrees t (refRun (setIndex 1) 2 pre)) ↔
      2 = 1 ∨ conflict (setIndex 1)
        [Call.update 4 40 true .directJump, .predict 4 .directJump, .update 8 80 true .directJump] = false :=
  basicBtb_lru_iff (by decide) (by decide)

/-- Two jumps into a set of two ways: the second is written over the first. -/
theorem basicBtb_evicts_beside_invalid :
    ¬∀ sets ways : Nat, 0 < sets → 0 < ways → ∀ cs : List Call, (∀ c ∈ cs, c.ip ≠ 0) →
      ∃ t, run step (initializeBtb sets ways) cs = some t ∧ Agrees t (refRun (setIndex sets) ways cs) := by
  intro hall
  obtain ⟨t, ht, hag⟩ := hall 1 2 (by decide) (by decide)
    [.update 4 40 true .directJump, .update 8 80 true .directJump] (by decide)
  have hlen := (hag 0).length_eq
  have hrun : (run step (initializeBtb 1 2)
      [.update 4 40 true .directJump, .update 8 80 true .directJump]).map
        (fun t => (residents t 0).length) = some 1 := by decide
  rw [ht, Option.map_some, Option.some.injEq] at hrun
  rw [hrun] at hlen
  exact absurd hlen (by decide)

end Thermometer.BasicBtbFirst
