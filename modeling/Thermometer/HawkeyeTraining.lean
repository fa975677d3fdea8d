import Thermometer.HawkeyeReplacement

namespace Thermometer.HawkeyeTraining

open Lib.Tables Lib.Runs HawkeyeOptgen HawkeyeReplacement

def Access.Demand (S : Nat) (c : Access) : Prop := c.set = S ∧ c.type ≠ .prefetch ∧ c.type ≠ .writeback

instance (S : Nat) (c : Access) : Decidable (Access.Demand S c) := inferInstanceAs (Decidable (_ ∧ _))

def Access.sameKey (c d : Access) : Bool := d.samplerSet = c.samplerSet ∧ d.samplerTag = c.samplerTag

/-- No two lines share their place in the sampler. -/
def NoAlias (cs : List Access) : Prop := ∀ c ∈ cs, ∀ d ∈ cs, Access.sameKey c d → d.line = c.line

def since (kind : Access → Bool) (cs : List Access) : Option Nat := (cs.reverse.findIdx? kind).map (fun i => i + 1)

def TrainsUp (s : State) (c : Access) : Prop :=
  ∃ e, s.entry c = some e ∧ e.prefetched = false ∧ s.kept c.set e = true

def quantum (cs : List Access) (d i : Nat) : Nat := (cs.length - d + i) % optgenVectorSize

/-- A positive training comes from a reuse inside the window, all of it with room. -/
def Sound (cs : List Access) (s : State) (c : Access) : Prop :=
  TrainsUp s c → ∃ d, since (fun b => b.line = c.line) cs = some d ∧ d < optgenVectorSize ∧
    ∀ i < d, (s.persetOptgen c.set).liveness (quantum cs d i) < (s.persetOptgen c.set).cacheSize

/-- A line that the sampler knows was last met inside the window, or the clock shows
that it was not, or what the clock takes for the reuse has no room. -/
def Told (cs : List Access) (s : State) (c : Access) : Prop :=
  ∀ d, s.entry c ≠ none → since (fun b => b.line = c.line) cs = some d →
    d < optgenVectorSize ∨ optgenVectorSize < d % timerSize ∨
      ∃ i < d % optgenVectorSize,
        (s.persetOptgen c.set).cacheSize ≤ (s.persetOptgen c.set).liveness (quantum cs d i)

variable {s u : State} {c : Access} {cs : List Access} {e : AddrInfo} {S d n : Nat} {t v : Table AddrInfo}

theorem since_append (kind : Access → Bool) (cs : List Access) (c : Access) :
    since kind (cs ++ [c]) = if kind c then some 1 else (since kind cs).map (fun d => d + 1) := by
  rw [since, List.reverse_append, List.reverse_singleton, List.singleton_append, List.findIdx?_cons, since]
  split_ifs with hc
  · rfl
  · simp [Option.map_map, Function.comp_def]

theorem since_le {kind : Access → Bool} (h : since kind cs = some d) : 0 < d ∧ d ≤ cs.length := by
  obtain ⟨i, hi, rfl⟩ := Option.map_eq_some_iff.mp h
  obtain ⟨hlt, -⟩ := List.findIdx?_eq_some_iff_getElem.mp hi
  rw [List.length_reverse] at hlt
  exact ⟨Nat.succ_pos i, hlt⟩

theorem since_congr {kind kind' : Access → Bool} (h : ∀ b ∈ cs, kind b = kind' b) : since kind cs = since kind' cs := by
  induction cs using List.reverseRecOn with
  | nil => rfl
  | append_singleton cs c ih =>
      rw [since_append, since_append, h c (by simp), ih (fun b hb => h b (List.mem_append_left _ hb))]

def Stamped (t u : Table AddrInfo) : Prop :=
  ∀ k e', u.lookup k = some e' → ∃ e, t.lookup k = some e ∧ e'.lastQuanta = e.lastQuanta ∧ e'.prefetched = e.prefetched

theorem stamped_refl (t : Table AddrInfo) : Stamped t t := fun _ e he => ⟨e, he, rfl, rfl⟩

theorem replaceElement_stamped (t : Table AddrInfo) : Stamped t (replaceElement t) := by
  intro k e he
  rw [replaceElement, lookup_erase] at he
  split_ifs at he
  exact ⟨e, he, rfl, rfl⟩

theorem updateLru_stamped (h : updateLru t n = some v) : Stamped t v := by
  rw [updateLru] at h
  split_ifs at h
  rw [Option.some.injEq] at h
  subst h
  intro k e he
  rw [lookup_mapValues] at he
  obtain ⟨e', he', rfl⟩ := Option.map_eq_some_iff.mp he
  refine ⟨e', he', ?_⟩
  split_ifs <;> exact ⟨rfl, rfl⟩

structure Effect (s : State) (c : Access) (u : State) : Prop where
  timer : u.persetMytimer c.set = (s.persetMytimer c.set + 1) % timerSize
  size : (u.persetOptgen c.set).livenessHistory.length = (s.persetOptgen c.set).livenessHistory.length
  own : ∀ b e, Access.sameKey c b → u.entry b = some e → e.prefetched = false ∧ e.lastQuanta = s.persetMytimer c.set
  others : ∀ b e', ¬Access.sameKey c b → u.entry b = some e' →
    ∃ e, s.entry b = some e ∧ e'.lastQuanta = e.lastQuanta ∧ e'.prefetched = e.prefetched

structure Sampled (s : State) (c : Access) (u : State) : Prop where
  timer : u.persetMytimer = s.persetMytimer
  size : (u.persetOptgen c.set).livenessHistory.length = (s.persetOptgen c.set).livenessHistory.length
  own : ∀ e, u.entry c = some e → e.prefetched = false
  others : ∀ b e', ¬Access.sameKey c b → u.entry b = some e' →
    ∃ e, s.entry b = some e ∧ e'.lastQuanta = e.lastQuanta ∧ e'.prefetched = e.prefetched

theorem length_addAccess (g : OptGen) (q : Nat) : (g.addAccess q).livenessHistory.length = g.livenessHistory.length :=
  List.length_set

theorem length_shouldCache (g : OptGen) (q p : Nat) :
    (g.shouldCache q p).2.livenessHistory.length = g.livenessHistory.length := by
  rw [OptGen.shouldCache]
  split_ifs
  · exact length_bump _ _
  · rfl

theorem train_same (s : State) (e : AddrInfo) (positive : Bool) :
    (train s e positive).persetMytimer = s.persetMytimer ∧ (train s e positive).persetOptgen = s.persetOptgen ∧
      (train s e positive).addrHistory = s.addrHistory := by
  cases hp : e.prefetched <;> cases positive <;> simp [train, hp]

theorem entry_setHistory (s : State) (k : Nat) (t : Table AddrInfo) (b : Access) :
    (s.setHistory k t).entry b = if b.samplerSet = k then t.lookup b.samplerTag else s.entry b := by
  rw [State.entry, State.setHistory]
  by_cases hb : b.samplerSet = k
  · simp [hb]
  · simp [hb, State.entry]

theorem others_of_stamped {w : State} (hw : w.addrHistory = s.addrHistory) {f : AddrInfo → AddrInfo}
    (h : ∀ k e', k ≠ c.samplerTag → v.lookup k = some e' →
      ∃ e, (s.addrHistory c.samplerSet).lookup k = some e ∧ e'.lastQuanta = e.lastQuanta ∧ e'.prefetched = e.prefetched)
    (b : Access) (e' : AddrInfo) (hb : ¬Access.sameKey c b)
    (he : (w.setHistory c.samplerSet (modify v c.samplerTag f)).entry b = some e') :
    ∃ e, s.entry b = some e ∧ e'.lastQuanta = e.lastQuanta ∧ e'.prefetched = e.prefetched := by
  rw [entry_setHistory] at he
  by_cases hset : b.samplerSet = c.samplerSet
  · have htag : b.samplerTag ≠ c.samplerTag := fun h => hb (by simp [Access.sameKey, hset, h])
    rw [if_pos hset, lookup_modify, if_neg htag] at he
    rw [State.entry, hset]
    exact h b.samplerTag e' htag he
  · rw [if_neg hset, State.entry, hw] at he
    exact ⟨e', he, rfl, rfl⟩

theorem demandHit_sampled (h : demandHit s c e = some u) : Sampled s c u := by
  obtain ⟨t, ht, rfl⟩ := Option.map_eq_some_iff.mp h
  obtain ⟨htimer, hoptgen, hhist⟩ := train_same s e (s.kept c.set e)
  constructor
  · exact htimer
  · simp only [State.setHistory, State.setOptgen, Function.update_self, length_addAccess]
    split_ifs
    · rfl
    · exact length_shouldCache _ _ _
  · intro e' he'
    rw [entry_setHistory, if_pos rfl, lookup_modify, if_pos rfl] at he'
    obtain ⟨e'', -, rfl⟩ := Option.map_eq_some_iff.mp he'
    rfl
  · apply others_of_stamped hhist
    intro k e' _ he'
    have hst := updateLru_stamped ht k e' he'
    rwa [State.setOptgen, hhist] at hst

theorem firstAccess_sampled (hty : c.type ≠ .prefetch) (h : firstAccess s c = some u) : Sampled s c u := by
  simp only [firstAccess, if_neg hty, decide_eq_false hty] at h
  generalize ht : (if size (s.addrHistory c.samplerSet) = samplerWays then replaceElement (s.addrHistory c.samplerSet)
    else s.addrHistory c.samplerSet) = t at h
  have hold : Stamped (s.addrHistory c.samplerSet) t := by
    subst ht
    split_ifs
    · exact replaceElement_stamped _
    · exact stamped_refl _
  by_cases hsize : samplerWays ≤ size t
  · rw [if_pos hsize] at h
    cases h
  · rw [if_neg hsize] at h
    obtain ⟨v, hv, rfl⟩ := Option.map_eq_some_iff.mp h
    have hst := updateLru_stamped hv
    constructor
    · rfl
    · simp only [State.setHistory, State.setOptgen, Function.update_self, length_addAccess]
    · intro e he
      rw [entry_setHistory, if_pos rfl] at he
      obtain ⟨e', he', -, hp⟩ := hst _ e he
      rw [AList.lookup_insert, Option.some.injEq] at he'
      rw [hp, ← he']
    · intro b e' hb he'
      rw [entry_setHistory] at he'
      by_cases hset : b.samplerSet = c.samplerSet
      · have htag : b.samplerTag ≠ c.samplerTag := fun h => hb (by simp [Access.sameKey, hset, h])
        rw [if_pos hset] at he'
        obtain ⟨e, he, hl, hp⟩ := hst _ e' he'
        rw [AList.lookup_insert_ne htag] at he
        obtain ⟨e'', he'', hl', hp'⟩ := hold _ e he
        rw [State.entry, hset]
        exact ⟨e'', he'', hl.trans hl', hp.trans hp'⟩
      · rw [if_neg hset] at he'
        exact ⟨e', he', rfl, rfl⟩

theorem placeLine_same (s : State) (c : Access) :
    (placeLine s c).persetMytimer = s.persetMytimer ∧ (placeLine s c).persetOptgen = s.persetOptgen ∧
      (placeLine s c).addrHistory = s.addrHistory ∧ (placeLine s c).demandPredictor = s.demandPredictor := by
  have hage : ∀ (w : State) (set : Nat), (age w set).persetMytimer = w.persetMytimer ∧
      (age w set).persetOptgen = w.persetOptgen ∧ (age w set).addrHistory = w.addrHistory ∧
        (age w set).demandPredictor = w.demandPredictor := by
    intro w set
    rw [age]
    split_ifs <;> exact ⟨rfl, rfl, rfl, rfl⟩
  simp only [placeLine]
  split_ifs
  · exact ⟨rfl, rfl, rfl, rfl⟩
  · exact hage _ _
  · exact ⟨rfl, rfl, rfl, rfl⟩
  · exact ⟨rfl, rfl, rfl, rfl⟩
  · exact hage _ _
  · exact ⟨rfl, rfl, rfl, rfl⟩

theorem stampAccess_timer (s : State) (c : Access) :
    (stampAccess s c).persetMytimer c.set = (s.persetMytimer c.set + 1) % timerSize :=
  Function.update_self _ _ _

theorem stampAccess_entry (s : State) (c b : Access) :
    (stampAccess s c).entry b = (s.setHistory c.samplerSet (modify (s.addrHistory c.samplerSet) c.samplerTag
      (fun e => { e with lastQuanta := s.persetMytimer c.set, pc := c.pc, lru := 0 }))).entry b := rfl

theorem sample_sampled (hty : c.type ≠ .prefetch) (h : sample s c = some u) : Sampled s c u := by
  rw [sample] at h
  cases he : s.entry c with
  | none =>
      rw [he] at h
      exact firstAccess_sampled hty h
  | some e =>
      simp only [he, if_pos hty] at h
      exact demandHit_sampled h

theorem demand_effect (hc : Access.Demand S c) (hS : sampledSet S = true)
    (h : updateReplacementState s c = some u) : Effect s c u := by
  obtain ⟨rfl, hprefetch, hwriteback⟩ := hc
  simp only [updateReplacementState, if_neg hwriteback, if_pos hS] at h
  obtain ⟨w, hw, rfl⟩ := Option.map_eq_some_iff.mp h
  have hsampled := sample_sampled hprefetch hw
  obtain ⟨htimer, hoptgen, hhist, -⟩ := placeLine_same (stampAccess w c) c
  have hentry : ∀ b, (placeLine (stampAccess w c) c).entry b = (stampAccess w c).entry b := by
    intro b
    rw [State.entry, hhist, State.entry]
  have hclock : w.persetMytimer c.set = s.persetMytimer c.set := congrFun hsampled.timer c.set
  constructor
  · rw [htimer, stampAccess_timer, hclock]
  · rw [hoptgen]
    exact hsampled.size
  · intro b e hb he
    simp only [Access.sameKey, decide_eq_true_iff] at hb
    rw [hentry, stampAccess_entry, entry_setHistory, if_pos hb.1, lookup_modify, if_pos hb.2] at he
    obtain ⟨e', he', rfl⟩ := Option.map_eq_some_iff.mp he
    exact ⟨hsampled.own e' he', hclock⟩
  · intro b e' hb he'
    rw [hentry, stampAccess_entry] at he'
    obtain ⟨e, he, hl, hp⟩ := others_of_stamped rfl (fun k e' _ he' => ⟨e', he', rfl, rfl⟩) b e' hb he'
    obtain ⟨e'', he'', hl', hp'⟩ := hsampled.others b e hb he
    exact ⟨e'', he'', hl.trans hl', hp.trans hp'⟩

/-- The demand predictor learns from a line that the sampler knows, and from nothing else. -/
theorem demand_predictor (hc : Access.Demand S c) (hS : sampledSet S = true)
    (h : updateReplacementState s c = some u) :
    u.demandPredictor = match s.entry c with
      | none => s.demandPredictor
      | some e =>
          if e.prefetched then s.demandPredictor
          else if s.kept c.set e then s.demandPredictor.increment e.pc else s.demandPredictor.decrement e.pc := by
  obtain ⟨rfl, hprefetch, hwriteback⟩ := hc
  simp only [updateReplacementState, if_neg hwriteback, if_pos hS] at h
  obtain ⟨w, hw, rfl⟩ := Option.map_eq_some_iff.mp h
  obtain ⟨-, -, -, hpredictor⟩ := placeLine_same (stampAccess w c) c
  have hsame : (setPrefetched s c).entry c = s.entry c := rfl
  rw [hpredictor, stampAccess, State.setHistory]
  rw [sample, hsame] at hw
  cases he : s.entry c with
  | none =>
      simp only [he, firstAccess] at hw
      split_ifs at hw <;> (obtain ⟨t, -, rfl⟩ := Option.map_eq_some_iff.mp hw; rfl)
  | some e =>
      simp only [he, if_pos hprefetch] at hw
      obtain ⟨t, -, rfl⟩ := Option.map_eq_some_iff.mp hw
      have hkept : (setPrefetched s c).kept c.set e = s.kept c.set e := rfl
      simp only [State.setHistory, State.setOptgen, hkept]
      cases hp : e.prefetched <;> cases s.kept c.set e <;> simp [train, hp, setPrefetched]

structure Synced (S : Nat) (cs : List Access) (s : State) : Prop where
  timer : s.persetMytimer S = cs.length % timerSize
  size : (s.persetOptgen S).livenessHistory.length = optgenVectorSize
  entries : ∀ b e, s.entry b = some e → e.prefetched = false ∧
    ∃ d, since (Access.sameKey b) cs = some d ∧ e.lastQuanta = (cs.length - d) % timerSize

theorem initial_synced (S : Nat) : Synced S [] initReplacementState :=
  ⟨rfl, List.length_replicate, fun _ _ h => by cases h⟩

theorem step_synced (hS : sampledSet S = true) (hs : Synced S cs s) (hc : Access.Demand S c)
    (h : updateReplacementState s c = some u) : Synced S (cs ++ [c]) u := by
  have heff := demand_effect hc hS h
  obtain ⟨rfl, -, -⟩ := hc
  constructor
  · rw [heff.timer, hs.timer, List.length_append, List.length_singleton, Nat.mod_add_mod]
  · rw [heff.size, hs.size]
  · intro b e he
    rw [since_append, List.length_append, List.length_singleton]
    by_cases hb : Access.sameKey c b = true
    · have hbc : Access.sameKey b c = true := by
        simp only [Access.sameKey, decide_eq_true_iff] at hb ⊢
        exact ⟨hb.1.symm, hb.2.symm⟩
      obtain ⟨hp, hl⟩ := heff.own b e hb he
      rw [if_pos hbc]
      refine ⟨hp, 1, rfl, ?_⟩
      rw [hl, hs.timer, Nat.add_sub_cancel]
    · have hbc : ¬Access.sameKey b c = true := by
        simp only [Access.sameKey, decide_eq_true_iff] at hb ⊢
        exact fun h => hb ⟨h.1.symm, h.2.symm⟩
      obtain ⟨e', he', hl, hp⟩ := heff.others b e hb he
      obtain ⟨hp', d, hd, hl'⟩ := hs.entries b e' he'
      rw [if_neg hbc, hd]
      refine ⟨hp.trans hp', d + 1, rfl, ?_⟩
      rw [hl, hl', Nat.add_sub_add_right]

theorem run_synced (hS : sampledSet S = true) (hcs : ∀ c ∈ cs, Access.Demand S c)
    (h : run updateReplacementState initReplacementState cs = some s) : Synced S cs s := by
  induction cs using List.reverseRecOn generalizing s with
  | nil =>
      rw [run_nil, Option.some.injEq] at h
      exact h ▸ initial_synced S
  | append_singleton cs c ih =>
      obtain ⟨w, hw, hu⟩ := run_concat h
      exact step_synced hS (ih (fun b hb => hcs b (List.mem_append_left _ hb)) hw) (hcs c (by simp)) hu

theorem clock_difference (hd : d ≤ n) :
    (if n % timerSize < (n - d) % timerSize then n % timerSize + timerSize else n % timerSize) - (n - d) % timerSize =
      d % timerSize := by
  by_cases h : n % timerSize < (n - d) % timerSize
  · rw [if_pos h]
    simp only [timerSize] at h ⊢
    omega
  · rw [if_neg h]
    simp only [timerSize] at h ⊢
    omega

theorem kept_iff (hs : Synced S cs s) (he : e.lastQuanta = (cs.length - d) % timerSize) (hd : d ≤ cs.length) :
    s.kept S e = true ↔ d % timerSize ≤ optgenVectorSize ∧ ∀ i < d % optgenVectorSize,
      (s.persetOptgen S).liveness (quantum cs d i) < (s.persetOptgen S).cacheSize := by
  have helapsed : s.elapsed S e = d % timerSize := by
    rw [State.elapsed, hs.timer, he]
    exact clock_difference hd
  have hcurr : s.currQuanta S = (cs.length - d + d % optgenVectorSize) % optgenVectorSize := by
    rw [State.currQuanta, hs.timer]
    simp only [timerSize, optgenVectorSize]
    omega
  have hlast : e.lastQuanta % optgenVectorSize = (cs.length - d) % optgenVectorSize := by
    rw [he]
    simp only [timerSize, optgenVectorSize]
    omega
  have hlt : d % optgenVectorSize < optgenVectorSize := Nat.mod_lt d (by decide)
  rw [State.kept, helapsed, hcurr, hlast, OptGen.isCache, quanta_eq hs.size hlt, Bool.and_eq_true, Bool.not_eq_true',
    decide_eq_false_iff_not, not_lt, List.all_eq_true]
  refine and_congr Iff.rfl ⟨fun h i hi => ?_, fun h q hq => ?_⟩
  · have hmem : quantum cs d i ∈ (List.range' (cs.length - d) (d % optgenVectorSize)).map (fun i => i % optgenVectorSize) :=
      List.mem_map_of_mem (List.mem_range'_1.mpr ⟨Nat.le_add_right _ i, Nat.add_lt_add_left hi _⟩)
    exact of_decide_eq_true (h _ hmem)
  · obtain ⟨r, hr, rfl⟩ := List.mem_map.mp hq
    obtain ⟨hle, hrt⟩ := List.mem_range'_1.mp hr
    have hi := h (r - (cs.length - d)) (by omega)
    rw [quantum, Nat.add_sub_cancel' hle] at hi
    exact decide_eq_true hi

theorem since_line (hno : NoAlias (cs ++ [c])) :
    since (fun b => b.line = c.line) cs = since (Access.sameKey c) cs := by
  apply since_congr
  intro b hb
  rw [Bool.eq_iff_iff, decide_eq_true_iff]
  constructor
  · intro h
    simp only [Access.sameKey, Access.samplerSet, Access.samplerTag, h, and_self, decide_true]
  · exact hno c (by simp) b (List.mem_append_left _ hb)

theorem sound_iff (hs : Synced S cs s) (hc : Access.Demand S c) (hno : NoAlias (cs ++ [c])) :
    Sound cs s c ↔ Told cs s c := by
  obtain ⟨rfl, -, -⟩ := hc
  rw [Sound, Told, since_line hno]
  cases he : s.entry c with
  | none =>
      constructor
      · intro _ d h
        exact absurd rfl h
      · rintro - ⟨e, h, -⟩
        rw [he] at h
        cases h
  | some e =>
      obtain ⟨hp, d, hd, hl⟩ := hs.entries c e he
      have hkept := kept_iff hs hl (since_le hd).2
      have htrain : TrainsUp s c ↔ s.kept c.set e = true := by
        constructor
        · rintro ⟨e', h, -, hk⟩
          rw [he, Option.some.injEq] at h
          exact h ▸ hk
        · intro hk
          exact ⟨e, he, hp, hk⟩
      rw [htrain, hkept, hd]
      constructor
      · intro h d' _ hd'
        rw [Option.some.injEq] at hd'
        subst hd'
        by_cases hle : d % timerSize ≤ optgenVectorSize
        · by_cases hall : ∀ i < d % optgenVectorSize,
              (s.persetOptgen c.set).liveness (quantum cs d i) < (s.persetOptgen c.set).cacheSize
          · obtain ⟨d', hd', hlt, -⟩ := h ⟨hle, hall⟩
            rw [Option.some.injEq] at hd'
            exact .inl (hd' ▸ hlt)
          · simp only [not_forall, not_lt] at hall
            obtain ⟨i, hi, hfull⟩ := hall
            exact .inr (.inr ⟨i, hi, hfull⟩)
        · exact .inr (.inl (not_le.mp hle))
      · rintro h ⟨hle, hall⟩
        rcases h d (by simp) rfl with hlt | hlt | ⟨i, hi, hfull⟩
        · rw [Nat.mod_eq_of_lt hlt] at hall
          exact ⟨d, rfl, hlt, hall⟩
        · exact absurd hle (not_le.mpr hlt)
        · exact absurd (hall i hi) (not_lt.mpr hfull)

/-- In a run of demands to a sampled set, every positive training comes from a reuse inside the
window exactly if no reuse of a whole window or more is taken for a shorter one with room. -/
theorem training_window_iff (hS : sampledSet S = true) (hcs : ∀ c ∈ cs, Access.Demand S c) (hno : NoAlias cs) :
    EveryStep updateReplacementState initReplacementState Sound cs ↔
      EveryStep updateReplacementState initReplacementState Told cs := by
  apply everyStep_congr
  intro pre c post s heq hs
  have hmem : ∀ b ∈ pre ++ [c], b ∈ cs := by
    intro b hb
    rw [heq]
    rcases List.mem_append.mp hb with hb | hb
    · exact List.mem_append_left _ hb
    · exact List.mem_append_right _ (List.mem_singleton.mp hb ▸ List.mem_cons_self)
  have hsync := run_synced hS (fun b hb => hcs b (hmem b (List.mem_append_left _ hb))) hs
  exact sound_iff hsync (hcs c (hmem c (by simp))) (fun b hb d hd => hno b (hmem b hb) d (hmem d hd))

/-- A demand to set zero. -/
def demandAt (paddr : Nat) : Access := ⟨0, 0, paddr, paddr, .load, true⟩

def oneWindow : List Access := demandAt 0 :: List.replicate 127 (demandAt 65536)

theorem noAlias_oneWindow : NoAlias (oneWindow ++ [demandAt 0]) := by
  have hmem : ∀ c ∈ oneWindow ++ [demandAt 0], c = demandAt 0 ∨ c = demandAt 65536 := by decide +kernel
  intro c hc d hd
  rcases hmem c hc with rfl | rfl <;> rcases hmem d hd with rfl | rfl <;> decide

theorem training_window_iff_oneWindow :
    EveryStep updateReplacementState initReplacementState Sound (oneWindow ++ [demandAt 0]) ↔
      EveryStep updateReplacementState initReplacementState Told (oneWindow ++ [demandAt 0]) :=
  training_window_iff (S := 0) (by decide) (by decide +kernel) noAlias_oneWindow

/-- After exactly one window the clock shows no time at all. -/
theorem whole_window_trains :
    NoAlias (oneWindow ++ [demandAt 0]) ∧ (∀ c ∈ oneWindow ++ [demandAt 0], Access.Demand 0 c) ∧
      ¬EveryStep updateReplacementState initReplacementState Sound (oneWindow ++ [demandAt 0]) := by
  refine ⟨noAlias_oneWindow, by decide +kernel, fun h => ?_⟩
  have hrun : (run updateReplacementState initReplacementState oneWindow).any (fun s =>
      (s.entry (demandAt 0)).any (fun e => !e.prefetched && s.kept 0 e)) = true := by decide +kernel
  obtain ⟨s, hs, hkept⟩ := (Option.any_eq_true _ _).mp hrun
  obtain ⟨e, he, hkept⟩ := (Option.any_eq_true _ _).mp hkept
  rw [Bool.and_eq_true, Bool.not_eq_true'] at hkept
  obtain ⟨d, hd, hlt, -⟩ := h oneWindow (demandAt 0) [] s rfl hs ⟨e, he, hkept.1, hkept.2⟩
  have hsince : since (fun b => b.line = (demandAt 0).line) oneWindow = some 128 := by decide +kernel
  rw [hsince, Option.some.injEq] at hd
  exact absurd hlt (by rw [← hd]; decide)

end Thermometer.HawkeyeTraining
