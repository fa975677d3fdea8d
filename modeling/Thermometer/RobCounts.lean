import Thermometer.RobEdges

namespace Thermometer.RobCounts

open Lib.Rings ReorderBuffer RobShape RobEdges

variable {s u : State} {i j k : Nat} {source : Fin numInstrSources} {cur cur' : Option Nat}
  {due due' : List (Nat × Fin numInstrSources)} {f : RobEntry → RobEntry}

theorem begun_of_ne (h : j ≠ i) (hcur : cur' = some j → cur = some j) :
    Begun cur' (s.modifyEntry i f) j → Begun cur s j := by
  rw [Begun, Begun, entry_of_ne h]
  exact Or.imp_right hcur

/-- A change to one entry that leaves its dependencies alone. -/
theorem counts_modifyEntry (hc : Counts cur due s) (hi : Live s i) (hf : linksOf (f (s.entry i)) = linksOf (s.entry i))
    (hcompleted : (f (s.entry i)).executed = .completed ↔ (s.entry i).executed = .completed)
    (hcount : (f (s.entry i)).numRegDependent + due.countP (fun p => p.1 = i)
      = (s.entry i).numRegDependent + due'.countP (fun p => p.1 = i))
    (hothers : ∀ x, x ≠ i → due'.countP (fun p => p.1 = x) = due.countP (fun p => p.1 = x))
    (hdue : ∀ p ∈ due', p ∈ due)
    (hscheduled : (s.entry i).scheduled ≠ .idle → (f (s.entry i)).scheduled ≠ .idle)
    (hcur : ∀ x, x ≠ i → cur' = some x → cur = some x)
    (hready : (f (s.entry i)).scheduled ≠ .idle ∨ cur' = some i →
      ((f (s.entry i)).regReady = true ↔ (f (s.entry i)).numRegDependent = 0))
    (hdone : (f (s.entry i)).executed ≠ .idle →
      (f (s.entry i)).scheduled ≠ .idle ∧ (f (s.entry i)).numRegDependent = 0) :
    Counts cur' due' (s.modifyEntry i f) := by
  have hframe : Frame s (s.modifyEntry i f) := frame_modifyEntry hi hf
  have hwaits : ∀ x, waits (s.modifyEntry i f) x = waits s x := by
    apply hframe.waits
    intro x
    by_cases hx : x = i
    · rw [hx, entry_self]
      exact hcompleted
    · rw [entry_of_ne hx]
  constructor
  · intro x
    have hold := hc.count x
    rw [hwaits]
    by_cases hx : x = i
    · subst hx
      rw [entry_self]
      omega
    · rw [entry_of_ne hx, hothers x hx]
      exact hold
  · intro p hp
    have hold := hc.due p (hdue p hp)
    by_cases hx : p.1 = i
    · rw [hx] at hold
      rw [hx, entry_self]
      exact hscheduled hold
    · rwa [entry_of_ne hx]
  · intro x hx
    by_cases he : x = i
    · subst he
      rw [Begun, entry_self] at hx
      rw [entry_self]
      exact hready hx
    · rw [entry_of_ne he]
      exact hc.ready x (begun_of_ne he (hcur x he) hx)
  · intro x
    by_cases he : x = i
    · subst he
      rw [entry_self]
      exact hdone
    · rw [entry_of_ne he]
      exact hc.done x

section Schedule

theorem Counts.of_idle (hc : Counts cur due s) (hidle : (s.entry i).scheduled = .idle) : (s.entry i).executed = .idle := by
  by_contra hne
  exact (hc.done i hne).1 hidle

theorem num_of_not_begun (he : Edges cur s) (hc : Counts cur [] s) (h : ¬Begun cur s i) :
    (s.entry i).numRegDependent = 0 := by
  rw [hc.count i, he.waits_eq_empty h]
  rfl

theorem not_begun (hidle : (s.entry i).scheduled = .idle) : ¬Begun none s i := by
  rintro (h | h)
  · exact h hidle
  · cases h

theorem start_edges (he : Edges none s) (hi : Live s i) :
    Edges (some i) (s.modifyEntry i (fun e => { e with regReady := true })) := by
  have hframe : Frame s (s.modifyEntry i (fun e => { e with regReady := true })) := frame_modifyEntry hi rfl
  refine hframe.edges (fun x hx => .inl ?_) he
  rcases hx with hx | hx
  · rw [entry_modifyEntry]
    split_ifs with h
    · exact h ▸ hx
    · exact hx
  · cases hx

theorem start_counts (he : Edges none s) (hc : Counts none [] s) (hi : Live s i) (hidle : (s.entry i).scheduled = .idle) :
    Counts (some i) [] (s.modifyEntry i (fun e => { e with regReady := true })) := by
  refine counts_modifyEntry hc hi rfl Iff.rfl rfl (fun _ _ => rfl) (fun p hp => hp) id ?_ ?_ (hc.done i)
  · intro x hx heq
    exact absurd (Option.some.inj heq).symm hx
  · intro _
    exact iff_of_true rfl (num_of_not_begun he hc (not_begun hidle))

theorem finish_edges {x : Stage} (he : Edges (some i) s) (hi : Live s i) (hx : x ≠ .idle) :
    Edges none (s.modifyEntry i (fun e => { e with scheduled := x })) := by
  have hframe : Frame s (s.modifyEntry i (fun e => { e with scheduled := x })) := frame_modifyEntry hi rfl
  refine hframe.edges (fun y hy => .inl ?_) he
  rw [entry_modifyEntry]
  split_ifs with h
  · exact hx
  · rcases hy with hy | hy
    · exact hy
    · exact absurd (Option.some.inj hy).symm h

theorem finish_counts {x : Stage} (hc : Counts (some i) [] s) (hi : Live s i) (hidle : (s.entry i).scheduled = .idle)
    (hx : x ≠ .idle) : Counts none [] (s.modifyEntry i (fun e => { e with scheduled := x })) := by
  refine counts_modifyEntry hc hi rfl Iff.rfl rfl (fun _ _ => rfl) (fun p hp => hp) (fun _ => hx) nofun ?_ ?_
  · intro _
    exact hc.ready i (.inr rfl)
  · intro hne
    exact absurd (Counts.of_idle hc hidle) hne

end Schedule

section Link

variable (hne : k ≠ i)

include hne

theorem link_entry_prior : (link s k i source).entry k =
    { s.entry k with
      registersInstrsDependOnMe := insert i (s.entry k).registersInstrsDependOnMe
      registersIndexDependOnMe :=
        Function.update (s.entry k).registersIndexDependOnMe source (insert i ((s.entry k).registersIndexDependOnMe source))
      regRawProducer := true } := by
  rw [link, entry_of_ne hne, entry_self]

theorem link_entry_current : (link s k i source).entry i =
    { s.entry i with
      regReady := false
      producerId := (s.entry k).instrId
      numRegDependent := (s.entry i).numRegDependent + 1
      regRawChecked := Function.update (s.entry i).regRawChecked source true } := by
  rw [link, entry_self, entry_of_ne hne.symm, entry_self]

omit hne in
theorem link_entry_of_ne (hk : j ≠ k) (hi : j ≠ i) : (link s k i source).entry j = s.entry j := by
  rw [link, entry_of_ne hi, entry_of_ne hk]

theorem link_recorded {a b : Nat} {c : Fin numInstrSources} :
    Recorded (link s k i source) a b c ↔ Recorded s a b c ∨ a = k ∧ b = i ∧ c = source := by
  by_cases ha : a = k
  · subst ha
    rw [Recorded, link_entry_prior hne]
    by_cases hc : c = source
    · subst hc
      simp [Recorded, or_comm]
    · simp [Recorded, hc]
  · by_cases hi : a = i
    · subst hi
      rw [Recorded, link_entry_current hne]
      simp [Recorded, ha]
    · rw [Recorded, link_entry_of_ne ha hi]
      simp [Recorded, ha]

omit hne in
theorem link_keeps {B : Type} (g : RobEntry → B)
    (hprior : ∀ e instrs index, g { e with
      registersInstrsDependOnMe := instrs, registersIndexDependOnMe := index, regRawProducer := true } = g e)
    (hcurrent : ∀ e producer n checked, g { e with
      regReady := false, producerId := producer, numRegDependent := n, regRawChecked := checked } = g e)
    (x : Nat) : g ((link s k i source).entry x) = g (s.entry x) := by
  rw [link]
  exact (entry_keeps g (hcurrent _ _ _ _) x).trans (entry_keeps g (hprior _ _ _) x)

omit hne in
theorem link_executed (x : Nat) : ((link s k i source).entry x).executed = (s.entry x).executed :=
  link_keeps RobEntry.executed (fun _ _ _ => rfl) (fun _ _ _ _ => rfl) x

omit hne in
theorem link_scheduled (x : Nat) : ((link s k i source).entry x).scheduled = (s.entry x).scheduled :=
  link_keeps RobEntry.scheduled (fun _ _ _ => rfl) (fun _ _ _ _ => rfl) x

omit hne in
theorem link_same (hk : Live s k) (hi : Live s i) : Same s (link s k i source) := by
  have hfirst := same_modifyEntry (f := fun e =>
    { e with
      registersInstrsDependOnMe := insert i e.registersInstrsDependOnMe
      registersIndexDependOnMe :=
        Function.update e.registersIndexDependOnMe source (insert i (e.registersIndexDependOnMe source))
      regRawProducer := true }) hk rfl
  rw [link]
  refine hfirst.trans (same_modifyEntry (hfirst.live.mpr hi) ?_)
  rfl

theorem link_waits (hks : k < s.size) (hpending : (s.entry k).executed ≠ .completed) (x : Nat) :
    waits (link s k i source) x = if x = i then insert source (waits s i) else waits s x := by
  have hsize : (link s k i source).size = s.size := rfl
  ext c
  simp only [mem_waits, hsize, link_recorded hne, link_executed]
  constructor
  · rintro ⟨a, ha, hr | ⟨rfl, rfl, rfl⟩, hx⟩
    · split_ifs with h
      · exact Finset.mem_insert_of_mem (mem_waits.mpr ⟨a, ha, h ▸ hr, hx⟩)
      · exact mem_waits.mpr ⟨a, ha, hr, hx⟩
    · rw [if_pos rfl]
      exact Finset.mem_insert_self _ _
  · intro h
    split_ifs at h with hxi
    · rcases Finset.mem_insert.mp h with rfl | h
      · exact ⟨k, hks, .inr ⟨rfl, hxi, rfl⟩, hpending⟩
      · obtain ⟨a, ha, hr, hx⟩ := mem_waits.mp h
        exact ⟨a, ha, .inl (hxi ▸ hr), hx⟩
    · obtain ⟨a, ha, hr, hx⟩ := mem_waits.mp h
      exact ⟨a, ha, .inl hr, hx⟩

theorem link_checked {x : Nat} {c : Fin numInstrSources} : ((link s k i source).entry x).regRawChecked c = true ↔
    (s.entry x).regRawChecked c = true ∨ x = i ∧ c = source := by
  by_cases hk : x = k
  · subst hk
    rw [link_entry_prior hne, or_iff_left (fun hc => hne hc.1)]
  · by_cases hi : x = i
    · subst hi
      rw [link_entry_current hne]
      change Function.update (s.entry x).regRawChecked source true c = true ↔ _
      by_cases hc : c = source
      · rw [hc, Function.update_self]
        exact iff_of_true rfl (.inr ⟨rfl, rfl⟩)
      · rw [Function.update_of_ne hc, or_iff_left (fun hc' => hc hc'.2)]
    · rw [link_entry_of_ne hk hi, or_iff_left (fun hc => hi hc.1)]

theorem link_listed {a b : Nat} : b ∈ ((link s k i source).entry a).registersInstrsDependOnMe ↔
    b ∈ (s.entry a).registersInstrsDependOnMe ∨ a = k ∧ b = i := by
  by_cases hk : a = k
  · subst hk
    rw [link_entry_prior hne]
    change b ∈ insert i (s.entry a).registersInstrsDependOnMe ↔ _
    rw [Finset.mem_insert, or_comm, and_iff_right rfl]
  · rw [or_iff_left (fun hc => hk hc.1)]
    by_cases hi : a = i
    · subst hi
      rw [link_entry_current hne]
    · rw [link_entry_of_ne hk hi]

theorem link_producer {a : Nat} : ((link s k i source).entry a).regRawProducer = true ↔
    (s.entry a).regRawProducer = true ∨ a = k := by
  by_cases hk : a = k
  · subst hk
    rw [link_entry_prior hne]
    exact iff_of_true rfl (.inr rfl)
  · rw [or_iff_left hk]
    by_cases hi : a = i
    · subst hi
      rw [link_entry_current hne]
    · rw [link_entry_of_ne hk hi]

omit hne in
theorem link_edges (hs : Shape s) (he : Edges (some i) s) (hold : Older s k i)
    (hunchecked : (s.entry i).regRawChecked source = false) : Edges (some i) (link s k i source) := by
  have hne : k ≠ i := hold.ne hs
  have hsame : Same s (link s k i source) := link_same hold.left hold.right
  have hbegun : ∀ x, Begun (some i) (link s k i source) x ↔ Begun (some i) s x := by
    intro x
    rw [Begun, Begun, link_scheduled]
  constructor
  · intro a b c hr
    rcases (link_recorded hne).mp hr with hr | ⟨rfl, rfl, -⟩
    · exact hsame.older.mpr (he.older hr)
    · exact hsame.older.mpr hold
  · intro a b c hr
    apply (link_checked hne).mpr
    rcases (link_recorded hne).mp hr with hr | ⟨-, hb, hc⟩
    · exact .inl (he.checked hr)
    · exact .inr ⟨hb, hc⟩
  · intro a b c hr
    apply (link_listed hne).mpr
    rcases (link_recorded hne).mp hr with hr | ⟨ha, hb, -⟩
    · exact .inl (he.listed hr)
    · exact .inr ⟨ha, hb⟩
  · intro a b c hr
    apply (link_producer hne).mpr
    rcases (link_recorded hne).mp hr with hr | ⟨ha, -, -⟩
    · exact .inl (he.producer hr)
    · exact .inr ha
  · intro a b c hr
    rcases (link_recorded hne).mp hr with hr | ⟨-, rfl, -⟩
    · exact (hbegun b).mpr (he.begun hr)
    · exact .inr rfl
  · intro a l b c ha hl
    have hold : ∀ d, Recorded s d i source → False := by
      intro d hd
      exact absurd (he.checked hd) (by rw [hunchecked]; nofun)
    rcases (link_recorded hne).mp ha with hra | ⟨hak, hbi, hcs⟩
    · rcases (link_recorded hne).mp hl with hrl | ⟨-, hbi, hcs⟩
      · exact he.unique hra hrl
      · rw [hbi, hcs] at hra
        exact (hold a hra).elim
    · rcases (link_recorded hne).mp hl with hrl | ⟨hlk, -, -⟩
      · rw [hbi, hcs] at hrl
        exact (hold l hrl).elim
      · exact hak.trans hlk.symm
  · intro x hx c
    have hxi : x ≠ i := fun h => hx (.inr (congrArg some h.symm))
    have hfresh := he.fresh (fun h => hx ((hbegun x).mpr h)) c
    by_cases hk : x = k
    · subst hk
      rw [link_entry_prior hne]
      exact hfresh
    · rwa [link_entry_of_ne hk hxi]

omit hne in
theorem link_counts (hs : Shape s) (he : Edges (some i) s) (hc : Counts (some i) [] s) (hold : Older s k i)
    (hidle : (s.entry i).scheduled = .idle) (hunchecked : (s.entry i).regRawChecked source = false)
    (hpending : (s.entry k).executed ≠ .completed) : Counts (some i) [] (link s k i source) := by
  have hne : k ≠ i := hold.ne hs
  have hwaits : ∀ x, waits (link s k i source) x = if x = i then insert source (waits s i) else waits s x :=
    link_waits hne (hold.left.lt hs) hpending
  have hnot : source ∉ waits s i := by
    intro hmem
    obtain ⟨a, -, hr, -⟩ := mem_waits.mp hmem
    exact absurd (he.checked hr) (by rw [hunchecked]; nofun)
  have hnum : ∀ x, x ≠ i → ((link s k i source).entry x).numRegDependent = (s.entry x).numRegDependent := by
    intro x hx
    by_cases hk : x = k
    · rw [hk, link_entry_prior hne]
    · rw [link_entry_of_ne hk hx]
  have hready : ∀ x, x ≠ i → ((link s k i source).entry x).regReady = (s.entry x).regReady := by
    intro x hx
    by_cases hk : x = k
    · rw [hk, link_entry_prior hne]
    · rw [link_entry_of_ne hk hx]
  constructor
  · intro x
    have hcount := hc.count x
    rw [hwaits]
    by_cases hx : x = i
    · subst hx
      rw [link_entry_current hne, if_pos rfl, Finset.card_insert_of_notMem hnot]
      show (s.entry x).numRegDependent + 1 = _
      rw [hcount]
      push_cast
      omega
    · rw [hnum x hx, if_neg hx]
      exact hcount
  · intro p hp
    cases hp
  · intro x hx
    by_cases hxi : x = i
    · subst hxi
      have hcount := hc.count x
      rw [link_entry_current hne]
      refine iff_of_false nofun ?_
      show (s.entry x).numRegDependent + 1 ≠ 0
      omega
    · rw [hnum x hxi, hready x hxi]
      apply hc.ready x
      rwa [Begun, link_scheduled] at hx
  · intro x hx
    rw [link_executed] at hx
    have hdone := hc.done x hx
    have hxi : x ≠ i := by
      rintro rfl
      exact hdone.1 hidle
    rw [link_scheduled, hnum x hxi]
    exact hdone

end Link

end Thermometer.RobCounts
