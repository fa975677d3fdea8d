import Thermometer.FetchStall

namespace Thermometer.FetchResume

open Lib.Runs Trace FetchStall

open ReorderBuffer (Stage)

def flight (s : State) : List Instr := s.rob ++ s.dispatchBuffer ++ s.decodeBuffer ++ s.ifetchBuffer

def Marked (x : Instr) : Prop := x.branchMispredicted ≠ 0 ∧ x.executed ≠ .completed

/-- Only the branch that has stalled the fetch is to resume it, and it has if the cycle is known. -/
structure Held (c : Config) (s : State) : Prop where
  owner : ∀ x ∈ flight s, Marked x → x.instrId = s.stalledBy
  resume : s.fetchResumeCycle ≠ 0 → (∀ x ∈ flight s, ¬Marked x) ∧
    ∃ r, (s.stalledBy, r) ∈ s.resolved ∧ r + c.branchMispredictPenalty ≤ s.fetchResumeCycle

/-- Where an instruction is and what it can still do. -/
structure Placed (s : State) : Prop where
  ids : ((flight s).map Instr.instrId).Nodup
  bound : ∀ x ∈ flight s, x.instrId < s.instrUniqueId
  plain : ∀ x ∈ flight s, x.isBranch = false → x.branchMispredicted = 0
  idle : ∀ x ∈ s.dispatchBuffer ++ s.decodeBuffer ++ s.ifetchBuffer, x.executed = .idle
  direct : ∀ x ∈ s.rob ++ s.dispatchBuffer, x.direct → x.branchMispredicted = 0
  resolvedBound : ∀ p ∈ s.resolved, p.1 < s.instrUniqueId
  undecoded : ∀ x ∈ s.decodeBuffer ++ s.ifetchBuffer, ∀ p ∈ s.resolved, p.1 ≠ x.instrId
  uncompleted : ∀ x ∈ s.rob ++ s.dispatchBuffer, ¬x.direct → x.executed ≠ .completed → ∀ p ∈ s.resolved, p.1 ≠ x.instrId
  once : (s.resolved.map Prod.fst).Nodup

structure Inv (c : Config) (s : State) : Prop where
  placed : Placed s
  reading : s.fetchStall = true → s.instrsToReadThisCycle = 0
  held : s.fetchStall = true → Held c s
  covered : ∀ p ∈ s.resumed, ∃ r, (p.1, r) ∈ s.resolved ∧ r + c.branchMispredictPenalty ≤ p.2

variable {c : Config} {s u : State} {x y : Instr} {a : Nat} {e : Event} {es : List Event}

theorem Held.mono (h : Held c s) (hby : u.stalledBy = s.stalledBy) (hresume : u.fetchResumeCycle = s.fetchResumeCycle)
    (hresolved : ∀ p ∈ s.resolved, p ∈ u.resolved)
    (hflight : ∀ y ∈ flight u, Marked y → ∃ x ∈ flight s, Marked x ∧ x.instrId = y.instrId) : Held c u := by
  constructor
  · intro y hy hm
    obtain ⟨x, hx, hxm, hid⟩ := hflight y hy hm
    rw [hby, ← hid]
    exact h.owner x hx hxm
  · intro hne
    rw [hresume] at hne ⊢
    obtain ⟨hnone, r, hr, hle⟩ := h.resume hne
    refine ⟨fun y hy hm => ?_, r, ?_, hle⟩
    · obtain ⟨x, hx, hxm, -⟩ := hflight y hy hm
      exact hnone x hx hxm
    · rw [hby]
      exact hresolved _ hr

theorem eq_of_instrId (hids : ((flight s).map Instr.instrId).Nodup) (hx : x ∈ flight s) (hy : y ∈ flight s)
    (h : x.instrId = y.instrId) : x = y :=
  List.inj_on_of_nodup_map hids hx hy h

theorem Held.resolve (h : Held c s) (hx : x ∈ flight s) (hm : Marked x) (hby : u.stalledBy = s.stalledBy)
    (hresume : u.fetchResumeCycle = s.currentCoreCycle + c.branchMispredictPenalty)
    (hresolved : (x.instrId, s.currentCoreCycle) ∈ u.resolved) (hids : ((flight u).map Instr.instrId).Nodup)
    (hy : y ∈ flight u) (hyid : y.instrId = x.instrId) (hym : ¬Marked y)
    (hflight : ∀ z ∈ flight u, Marked z → ∃ x ∈ flight s, Marked x ∧ x.instrId = z.instrId) : Held c u := by
  have hown := h.owner x hx hm
  have hall : ∀ z ∈ flight u, Marked z → z.instrId = s.stalledBy := by
    intro z hz hzm
    obtain ⟨w, hw, hwm, hid⟩ := hflight z hz hzm
    rw [← hid]
    exact h.owner w hw hwm
  refine ⟨fun z hz hzm => hby ▸ hall z hz hzm, fun _ => ⟨fun z hz hzm => ?_, s.currentCoreCycle, ?_, hresume.ge⟩⟩
  · have hzy : z = y := eq_of_instrId hids hz hy ((hall z hz hzm).trans (hown.symm.trans hyid.symm))
    exact hym (hzy ▸ hzm)
  · rw [hby, ← hown]
    exact hresolved

theorem covered_mono (h : ∀ p ∈ s.resumed, ∃ r, (p.1, r) ∈ s.resolved ∧ r + c.branchMispredictPenalty ≤ p.2)
    (hresumed : u.resumed = s.resumed) (hresolved : ∀ p ∈ s.resolved, p ∈ u.resolved) :
    ∀ p ∈ u.resumed, ∃ r, (p.1, r) ∈ u.resolved ∧ r + c.branchMispredictPenalty ≤ p.2 := by
  intro p hp
  rw [hresumed] at hp
  obtain ⟨r, hr, hle⟩ := h p hp
  exact ⟨r, hresolved _ hr, hle⟩

section Fetch

theorem resumeFetch_inv (h : Inv c s) : Inv c (resumeFetch s) := by
  rw [resumeFetch]
  by_cases hready : s.fetchStall = true ∧ s.fetchResumeCycle ≤ s.currentCoreCycle ∧ s.fetchResumeCycle ≠ 0
  · rw [if_pos hready]
    obtain ⟨hstall, hle, hne⟩ := hready
    have hp := h.placed
    refine ⟨⟨hp.ids, hp.bound, hp.plain, hp.idle, hp.direct, hp.resolvedBound, hp.undecoded, hp.uncompleted, hp.once⟩, nofun,
      nofun, fun p hp => ?_⟩
    rcases List.mem_append.mp hp with hp | hp
    · exact h.covered p hp
    · rw [List.mem_singleton.mp hp]
      obtain ⟨-, r, hr, hrle⟩ := (h.held hstall).resume hne
      exact ⟨r, hr, hrle.trans hle⟩
  · rw [if_neg hready]
    exact h

/-- The instructions move on, and nothing else happens. -/
theorem Inv.moved (h : Inv c s) (hflight : flight u = flight s) (hunique : u.instrUniqueId = s.instrUniqueId)
    (hidle : ∀ x ∈ u.dispatchBuffer ++ u.decodeBuffer ++ u.ifetchBuffer,
      x ∈ s.dispatchBuffer ++ s.decodeBuffer ++ s.ifetchBuffer)
    (hdecoded : ∀ x ∈ u.rob ++ u.dispatchBuffer, x ∈ s.rob ++ s.dispatchBuffer)
    (hundecoded : ∀ x ∈ u.decodeBuffer ++ u.ifetchBuffer, x ∈ s.decodeBuffer ++ s.ifetchBuffer)
    (hstall : u.fetchStall = s.fetchStall) (hreading : u.instrsToReadThisCycle = s.instrsToReadThisCycle)
    (hresume : u.fetchResumeCycle = s.fetchResumeCycle) (hby : u.stalledBy = s.stalledBy)
    (hresolved : u.resolved = s.resolved) (hresumed : u.resumed = s.resumed) : Inv c u := by
  have hp := h.placed
  have hmem : ∀ p ∈ s.resolved, p ∈ u.resolved := fun p hp => by rwa [hresolved]
  refine ⟨?_, fun hs => ?_, fun hs => ?_, covered_mono h.covered hresumed hmem⟩
  · constructor
    · rw [hflight]
      exact hp.ids
    · rw [hflight, hunique]
      exact hp.bound
    · rw [hflight]
      exact hp.plain
    · exact fun x hx => hp.idle x (hidle x hx)
    · exact fun x hx => hp.direct x (hdecoded x hx)
    · rw [hresolved, hunique]
      exact hp.resolvedBound
    · rw [hresolved]
      exact fun x hx => hp.undecoded x (hundecoded x hx)
    · rw [hresolved]
      exact fun x hx => hp.uncompleted x (hdecoded x hx)
    · rw [hresolved]
      exact hp.once
  · rw [hstall] at hs
    rw [hreading]
    exact h.reading hs
  · rw [hstall] at hs
    refine (h.held hs).mono hby hresume hmem (fun y hy hm => ?_)
    rw [hflight] at hy
    exact ⟨y, hy, hm, rfl⟩

theorem fetchInstruction_inv (h : Inv c s) (ready : Nat) : Inv c (fetchInstruction c s ready) := by
  have hsplit : ∀ (n : Nat) (l r : List Instr), l ++ r.take n ++ r.drop n = l ++ r := by
    intro n l r
    rw [List.append_assoc, List.take_append_drop]
  refine (resumeFetch_inv h).moved ?_ rfl (fun x hx => ?_) (fun x hx => hx) (fun x hx => ?_) rfl rfl rfl rfl rfl rfl
  · simp only [flight, fetchInstruction, List.append_assoc, List.take_append_drop]
  · simpa only [fetchInstruction, List.append_assoc, List.take_append_drop] using hx
  · simpa only [fetchInstruction, hsplit] using hx

theorem dispatchInstruction_inv (h : Inv c s) : Inv c (dispatchInstruction c s) := by
  rw [dispatchInstruction]
  cases hd : s.dispatchBuffer with
  | nil => exact h
  | cons x rest =>
      by_cases hroom : s.rob.length < c.robSize
      · refine h.moved ?_ ?_ ?_ ?_ ?_ ?_ ?_ ?_ ?_ ?_ ?_ <;> simp only [if_pos hroom]
        · simp only [flight, hd, List.append_assoc, List.cons_append, List.nil_append]
        · intro y hy
          rw [hd, List.cons_append, List.cons_append]
          exact List.mem_cons_of_mem x hy
        · intro y hy
          simpa only [hd, List.append_assoc, List.cons_append, List.nil_append] using hy
        · exact fun y hy => hy
      · simp only [if_neg hroom]
        exact h

end Fetch

section Decode

theorem decoded_instrId : (decoded x).instrId = x.instrId := by
  rw [decoded, apply_ite Instr.instrId, ite_self]

theorem decoded_executed : (decoded x).executed = x.executed := by
  rw [decoded, apply_ite Instr.executed, ite_self]

theorem decoded_direct : (decoded x).direct ↔ x.direct := by
  have htype : (decoded x).branchType = x.branchType := by
    rw [decoded, apply_ite Instr.branchType, ite_self]
  rw [Instr.direct, Instr.direct, htype]

theorem decoded_cleared (h : x.direct) : (decoded x).branchMispredicted = 0 := by
  rw [decoded, if_pos h]

theorem decoded_of_not_direct (h : ¬x.direct) : decoded x = x := if_neg h

theorem decoded_marked (h : Marked (decoded x)) : Marked x := by
  by_cases hd : x.direct
  · exact absurd (decoded_cleared hd) h.1
  · rwa [decoded_of_not_direct hd] at h

def passed (c : Config) (s : State) (x : Instr) (rest : List Instr) : State :=
  { s with
    fetchResumeCycle :=
      if x.branchMispredicted ≠ 0 ∧ x.direct then s.currentCoreCycle + c.branchMispredictPenalty else s.fetchResumeCycle
    decodeBuffer := rest
    dispatchBuffer := s.dispatchBuffer ++ [decoded x]
    resolved := if x.isBranch = true ∧ x.direct then s.resolved ++ [(x.instrId, s.currentCoreCycle)] else s.resolved }

variable {rest : List Instr}

theorem passed_resolved {p : Nat × Nat} : p ∈ (passed c s x rest).resolved ↔
    p ∈ s.resolved ∨ (x.isBranch = true ∧ x.direct) ∧ p = (x.instrId, s.currentCoreCycle) := by
  show p ∈ (if x.isBranch = true ∧ x.direct then s.resolved ++ [(x.instrId, s.currentCoreCycle)] else s.resolved) ↔ _
  by_cases hb : x.isBranch = true ∧ x.direct
  · rw [if_pos hb, List.mem_append, List.mem_singleton, and_iff_right hb]
  · rw [if_neg hb, or_iff_left (fun hc => hb hc.1)]

variable (hd : s.decodeBuffer = x :: rest)

include hd

theorem front_mem : x ∈ flight s := by
  simp only [flight, hd, List.mem_append, List.mem_cons, true_or, or_true]

theorem passed_ids : (flight (passed c s x rest)).map Instr.instrId = (flight s).map Instr.instrId := by
  simp only [flight, passed, hd, List.map_append, List.map_cons, decoded_instrId, List.append_assoc,
    List.cons_append, List.nil_append]

theorem passed_flight (hy : y ∈ flight (passed c s x rest)) : y = decoded x ∨ y ∈ flight s := by
  simp only [flight, passed, List.mem_append, List.mem_singleton] at hy
  simp only [flight, hd, List.mem_append, List.mem_cons]
  tauto

theorem passed_marked (hy : y ∈ flight (passed c s x rest)) (hm : Marked y) :
    ∃ x ∈ flight s, Marked x ∧ x.instrId = y.instrId := by
  rcases passed_flight hd hy with rfl | hy
  · exact ⟨x, front_mem hd, decoded_marked hm, decoded_instrId.symm⟩
  · exact ⟨y, hy, hm, rfl⟩

theorem front_not_mem (hp : Placed s) (hy : y ∈ s.rob ++ s.dispatchBuffer ∨ y ∈ rest ++ s.ifetchBuffer) :
    x.instrId ≠ y.instrId := by
  have hids := hp.ids
  have hsplit : flight s = (s.rob ++ s.dispatchBuffer) ++ x :: (rest ++ s.ifetchBuffer) := by
    simp only [flight, hd, List.append_assoc, List.cons_append]
  rw [hsplit, List.map_append, List.map_cons, List.nodup_middle, List.nodup_cons, List.mem_append, not_or] at hids
  intro he
  rw [he] at hids
  rcases hy with hy | hy
  · exact hids.1.1 (List.mem_map_of_mem hy)
  · exact hids.1.2 (List.mem_map_of_mem hy)

theorem passed_placed (hp : Placed s) : Placed (passed c s x rest) := by
  have hx : x ∈ s.decodeBuffer := hd ▸ List.mem_cons_self
  have hrest : ∀ y ∈ rest ++ s.ifetchBuffer, y ∈ s.decodeBuffer ++ s.ifetchBuffer := by
    intro y hy
    rw [hd]
    exact List.mem_cons_of_mem x hy
  have hnew : ∀ p ∈ s.resolved, p.1 ≠ x.instrId := hp.undecoded x (List.mem_append_left _ hx)
  have hdecoded : ∀ y ∈ (passed c s x rest).rob ++ (passed c s x rest).dispatchBuffer,
      y ∈ s.rob ++ s.dispatchBuffer ∨ y = decoded x := by
    intro y hy
    simp only [passed, List.mem_append, List.mem_singleton] at hy
    rw [List.mem_append, or_assoc]
    exact hy
  constructor
  · rw [passed_ids hd]
    exact hp.ids
  · intro y hy
    rcases passed_flight hd hy with rfl | hy
    · rw [decoded_instrId]
      exact hp.bound x (front_mem hd)
    · exact hp.bound y hy
  · intro y hy hb
    rcases passed_flight hd hy with rfl | hy
    · by_cases hdirect : x.direct
      · exact decoded_cleared hdirect
      · rw [decoded_of_not_direct hdirect] at hb ⊢
        exact hp.plain x (front_mem hd) hb
    · exact hp.plain y hy hb
  · intro y hy
    have hy : y = decoded x ∨ y ∈ s.dispatchBuffer ++ s.decodeBuffer ++ s.ifetchBuffer := by
      simp only [passed, List.mem_append, List.mem_singleton] at hy
      simp only [hd, List.mem_append, List.mem_cons]
      tauto
    rcases hy with rfl | hy
    · rw [decoded_executed]
      exact hp.idle x (List.mem_append_left _ (List.mem_append_right _ hx))
    · exact hp.idle y hy
  · intro y hy hdirect
    rcases hdecoded y hy with hy | rfl
    · exact hp.direct y hy hdirect
    · exact decoded_cleared (decoded_direct.mp hdirect)
  · intro p hpr
    rcases passed_resolved.mp hpr with hpr | ⟨-, rfl⟩
    · exact hp.resolvedBound p hpr
    · exact hp.bound x (front_mem hd)
  · intro y hy p hpr
    rcases passed_resolved.mp hpr with hpr | ⟨-, rfl⟩
    · exact hp.undecoded y (hrest y hy) p hpr
    · exact front_not_mem hd hp (.inr hy)
  · intro y hy hdirect hex p hpr
    rcases passed_resolved.mp hpr with hpr | ⟨hb, rfl⟩
    · rcases hdecoded y hy with hy | rfl
      · exact hp.uncompleted y hy hdirect hex p hpr
      · rw [decoded_instrId]
        exact hnew p hpr
    · rcases hdecoded y hy with hy | rfl
      · exact front_not_mem hd hp (.inl hy)
      · exact absurd (decoded_direct.mpr hb.2) hdirect
  · show (List.map Prod.fst (if _ then _ else _)).Nodup
    split_ifs with hb
    · rw [List.map_append, List.nodup_append]
      refine ⟨hp.once, List.nodup_singleton _, ?_⟩
      rintro n hn m hm rfl
      obtain ⟨p, hpr, rfl⟩ := List.mem_map.mp hn
      exact hnew p hpr (List.mem_singleton.mp hm)
    · exact hp.once

theorem passed_inv (h : Inv c s) : Inv c (passed c s x rest) := by
  have hp := h.placed
  have hpassed : Placed (passed c s x rest) := passed_placed hd hp
  have hmem : ∀ p ∈ s.resolved, p ∈ (passed c s x rest).resolved := fun p hp => passed_resolved.mpr (.inl hp)
  have hself : decoded x ∈ flight (passed c s x rest) := by
    simp only [flight, passed, List.mem_append, List.mem_singleton, true_or, or_true]
  have hidle : x.executed = .idle := by
    apply hp.idle
    rw [hd]
    simp only [List.mem_append, List.mem_cons, true_or, or_true]
  refine ⟨hpassed, h.reading, fun hs => ?_, covered_mono h.covered rfl hmem⟩
  have hheld := h.held hs
  by_cases hresume : x.branchMispredicted ≠ 0 ∧ x.direct
  · have hbranch : x.isBranch = true := by
      by_contra hb
      exact hresume.1 (hp.plain x (front_mem hd) (Bool.eq_false_iff.mpr hb))
    have hmarked : Marked x := ⟨hresume.1, by rw [hidle]; nofun⟩
    exact hheld.resolve (front_mem hd) hmarked rfl (if_pos hresume) (passed_resolved.mpr (.inr ⟨⟨hbranch, hresume.2⟩, rfl⟩))
      hpassed.ids hself decoded_instrId (fun hm => hm.1 (decoded_cleared hresume.2)) (fun z hz hm => passed_marked hd hz hm)
  · exact hheld.mono rfl (if_neg hresume) hmem (fun z hz hm => passed_marked hd hz hm)

end Decode

theorem decodeInstruction_inv (h : Inv c s) : Inv c (decodeInstruction c s) := by
  rw [decodeInstruction]
  cases hd : s.decodeBuffer with
  | nil => exact h
  | cons x rest =>
      by_cases hroom : s.dispatchBuffer.length < c.dispatchSize
      · simp only [if_pos hroom]
        exact passed_inv hd h
      · simp only [if_neg hroom]
        exact h

section Rob

variable (hx : s.rob[a]? = some x) (hid : y.instrId = x.instrId)

def replaced (s : State) (a : Nat) (y : Instr) : List Instr :=
  s.rob.set a y ++ s.dispatchBuffer ++ s.decodeBuffer ++ s.ifetchBuffer

include hx

theorem entry_mem : x ∈ s.rob ++ s.dispatchBuffer := List.mem_append_left _ (List.mem_of_getElem? hx)

theorem entry_flight : x ∈ flight s := List.mem_append_left _ (List.mem_append_left _ (entry_mem hx))

theorem replaced_self : y ∈ replaced s a y := by
  obtain ⟨ha, -⟩ := List.getElem?_eq_some_iff.mp hx
  exact List.mem_append_left _ (List.mem_append_left _ (List.mem_append_left _ (List.mem_set ha y)))

omit hx in
theorem replaced_mem {z : Instr} (hz : z ∈ replaced s a y) : z = y ∨ z ∈ flight s := by
  simp only [replaced, flight, List.mem_append, or_assoc] at hz ⊢
  rcases hz with hz | hz
  · rcases List.mem_or_eq_of_mem_set hz with hz | hz
    · exact .inr (.inl hz)
    · exact .inl hz
  · exact .inr (.inr hz)

omit hx in
theorem replaced_decoded {z : Instr} (hz : z ∈ s.rob.set a y ++ s.dispatchBuffer) :
    z = y ∨ z ∈ s.rob ++ s.dispatchBuffer := by
  rw [List.mem_append] at hz ⊢
  rcases hz with hz | hz
  · exact (List.mem_or_eq_of_mem_set hz).symm.imp_right .inl
  · exact .inr (.inr hz)

include hid in
theorem replaced_ids : (replaced s a y).map Instr.instrId = (flight s).map Instr.instrId := by
  have hget : (s.rob.map Instr.instrId)[a]? = some x.instrId := by
    rw [List.getElem?_map, hx]
    rfl
  obtain ⟨ha, hget⟩ := List.getElem?_eq_some_iff.mp hget
  have hset : (s.rob.map Instr.instrId).set a x.instrId = s.rob.map Instr.instrId := by
    rw [← hget]
    exact List.set_getElem_self ha
  simp only [replaced, flight, List.map_append, List.map_set, hid, hset]

end Rob

theorem executeInstruction_inv (h : Inv c s) (a : Nat) : Inv c (executeInstruction s a) := by
  rw [executeInstruction]
  cases hx : s.rob[a]? with
  | none => exact h
  | some x =>
      by_cases hidle : x.executed = .idle
      · simp only [if_pos hidle]
        have hp := h.placed
        have hnot : x.executed ≠ .completed := by rw [hidle]; nofun
        have hids : (replaced s a { x with executed := .inflight }).map Instr.instrId = (flight s).map Instr.instrId :=
          replaced_ids hx rfl
        refine ⟨⟨?_, fun z hz => ?_, fun z hz hb => ?_, hp.idle, fun z hz hdirect => ?_, hp.resolvedBound, hp.undecoded,
          fun z hz hdirect hex => ?_, hp.once⟩, h.reading, fun hs => ?_, h.covered⟩
        · exact hids ▸ hp.ids
        · rcases replaced_mem hz with rfl | hz
          · exact hp.bound x (entry_flight hx)
          · exact hp.bound z hz
        · rcases replaced_mem hz with rfl | hz
          · exact hp.plain x (entry_flight hx) hb
          · exact hp.plain z hz hb
        · rcases replaced_decoded hz with rfl | hz
          · exact hp.direct x (entry_mem hx) hdirect
          · exact hp.direct z hz hdirect
        · rcases replaced_decoded hz with rfl | hz
          · exact hp.uncompleted x (entry_mem hx) hdirect hnot
          · exact hp.uncompleted z hz hdirect hex
        · refine (h.held hs).mono rfl rfl (fun _ hp => hp) (fun z hz hm => ?_)
          rcases replaced_mem hz with rfl | hz
          · exact ⟨x, entry_flight hx, ⟨hm.1, hnot⟩, rfl⟩
          · exact ⟨z, hz, hm, rfl⟩
      · simp only [if_neg hidle]
        exact h

section Complete

def finished (c : Config) (s : State) (a : Nat) (x : Instr) : State :=
  { s with
    fetchResumeCycle :=
      if x.branchMispredicted ≠ 0 then s.currentCoreCycle + c.branchMispredictPenalty else s.fetchResumeCycle
    rob := s.rob.set a { x with executed := .completed }
    resolved := if x.isBranch = true ∧ ¬x.direct then s.resolved ++ [(x.instrId, s.currentCoreCycle)] else s.resolved }

theorem finished_resolved {p : Nat × Nat} : p ∈ (finished c s a x).resolved ↔
    p ∈ s.resolved ∨ (x.isBranch = true ∧ ¬x.direct) ∧ p = (x.instrId, s.currentCoreCycle) := by
  show p ∈ (if x.isBranch = true ∧ ¬x.direct then s.resolved ++ [(x.instrId, s.currentCoreCycle)] else s.resolved) ↔ _
  by_cases hb : x.isBranch = true ∧ ¬x.direct
  · rw [if_pos hb, List.mem_append, List.mem_singleton, and_iff_right hb]
  · rw [if_neg hb, or_iff_left (fun hc => hb hc.1)]

variable (hx : s.rob[a]? = some x) (hinflight : x.executed = .inflight)

include hx

theorem finished_ids : (flight (finished c s a x)).map Instr.instrId = (flight s).map Instr.instrId := replaced_ids hx rfl

theorem finished_ne (hp : Placed s) (hy : y ∈ flight (finished c s a x)) (hex : y.executed ≠ .completed) :
    x.instrId ≠ y.instrId := by
  intro he
  have hids : ((flight (finished c s a x)).map Instr.instrId).Nodup := by
    rw [finished_ids hx]
    exact hp.ids
  have heq : { x with executed := .completed } = y := eq_of_instrId hids (replaced_self hx) hy he
  exact hex (heq ▸ rfl)

omit hx in
theorem finished_marked (hy : y ∈ flight (finished c s a x)) (hm : Marked y) :
    ∃ x ∈ flight s, Marked x ∧ x.instrId = y.instrId := by
  rcases replaced_mem hy with rfl | hy
  · exact absurd rfl hm.2
  · exact ⟨y, hy, hm, rfl⟩

include hinflight

theorem finished_placed (hp : Placed s) : Placed (finished c s a x) := by
  have hnot : x.executed ≠ .completed := by rw [hinflight]; nofun
  constructor
  · rw [finished_ids hx]
    exact hp.ids
  · intro y hy
    rcases replaced_mem hy with rfl | hy
    · exact hp.bound x (entry_flight hx)
    · exact hp.bound y hy
  · intro y hy hb
    rcases replaced_mem hy with rfl | hy
    · exact hp.plain x (entry_flight hx) hb
    · exact hp.plain y hy hb
  · exact hp.idle
  · intro y hy hdirect
    rcases replaced_decoded hy with rfl | hy
    · exact hp.direct x (entry_mem hx) hdirect
    · exact hp.direct y hy hdirect
  · intro p hpr
    rcases finished_resolved.mp hpr with hpr | ⟨-, rfl⟩
    · exact hp.resolvedBound p hpr
    · exact hp.bound x (entry_flight hx)
  · intro y hy p hpr
    rcases finished_resolved.mp hpr with hpr | ⟨-, rfl⟩
    · exact hp.undecoded y hy p hpr
    · have hy : y ∈ s.decodeBuffer ++ s.ifetchBuffer := hy
      have hidle : y.executed = .idle := by
        apply hp.idle
        rw [List.append_assoc]
        exact List.mem_append_right _ hy
      refine finished_ne (c := c) hx hp ?_ (by rw [hidle]; nofun)
      show y ∈ s.rob.set a _ ++ s.dispatchBuffer ++ s.decodeBuffer ++ s.ifetchBuffer
      rw [List.append_assoc]
      exact List.mem_append_right _ hy
  · intro y hy hdirect hex p hpr
    rcases finished_resolved.mp hpr with hpr | ⟨-, rfl⟩
    · rcases replaced_decoded hy with rfl | hy
      · exact absurd rfl hex
      · exact hp.uncompleted y hy hdirect hex p hpr
    · exact finished_ne hx hp (List.mem_append_left _ (List.mem_append_left _ hy)) hex
  · show (List.map Prod.fst (if _ then _ else _)).Nodup
    split_ifs with hb
    · rw [List.map_append, List.nodup_append]
      refine ⟨hp.once, List.nodup_singleton _, ?_⟩
      rintro n hn m hm rfl
      obtain ⟨p, hpr, rfl⟩ := List.mem_map.mp hn
      exact hp.uncompleted x (entry_mem hx) hb.2 hnot p hpr (List.mem_singleton.mp hm)
    · exact hp.once

theorem finished_inv (h : Inv c s) : Inv c (finished c s a x) := by
  have hp := h.placed
  have hplaced : Placed (finished c s a x) := finished_placed hx hinflight hp
  have hmem : ∀ p ∈ s.resolved, p ∈ (finished c s a x).resolved := fun p hp => finished_resolved.mpr (.inl hp)
  refine ⟨hplaced, h.reading, fun hs => ?_, covered_mono h.covered rfl hmem⟩
  have hheld := h.held hs
  by_cases hresume : x.branchMispredicted ≠ 0
  · have hbranch : x.isBranch = true := by
      by_contra hb
      exact hresume (hp.plain x (entry_flight hx) (Bool.eq_false_iff.mpr hb))
    have hdirect : ¬x.direct := fun hd => hresume (hp.direct x (entry_mem hx) hd)
    have hmarked : Marked x := ⟨hresume, by rw [hinflight]; nofun⟩
    exact hheld.resolve (entry_flight hx) hmarked rfl (if_pos hresume) (finished_resolved.mpr (.inr ⟨⟨hbranch, hdirect⟩, rfl⟩))
      hplaced.ids (replaced_self hx) rfl (fun hm => hm.2 rfl) (fun z hz hm => finished_marked hz hm)
  · exact hheld.mono rfl (if_neg hresume) hmem (fun z hz hm => finished_marked hz hm)

end Complete

theorem completeExecution_inv (h : Inv c s) (a : Nat) : Inv c (completeExecution c s a) := by
  rw [completeExecution]
  cases hx : s.rob[a]? with
  | none => exact h
  | some x =>
      by_cases hinflight : x.executed = .inflight
      · simp only [if_pos hinflight]
        exact finished_inv hx hinflight h
      · simp only [if_neg hinflight]
        exact h

theorem retireRob_inv (h : Inv c s) : Inv c (retireRob s) := by
  rw [retireRob]
  cases hr : s.rob with
  | nil => exact h
  | cons x rest =>
      by_cases hcompleted : x.executed = .completed
      · simp only [if_pos hcompleted]
        have hp := h.placed
        have hflight : flight s = x :: flight { s with rob := rest } := by
          simp only [flight, hr, List.cons_append]
        have hold : ∀ y ∈ flight { s with rob := rest }, y ∈ flight s := by
          intro y hy
          rw [hflight]
          exact List.mem_cons_of_mem x hy
        have hdecoded : ∀ y ∈ rest ++ s.dispatchBuffer, y ∈ s.rob ++ s.dispatchBuffer := by
          intro y hy
          rw [hr]
          exact List.mem_cons_of_mem x hy
        refine ⟨⟨?_, fun y hy => hp.bound y (hold y hy), fun y hy => hp.plain y (hold y hy), hp.idle,
          fun y hy => hp.direct y (hdecoded y hy), hp.resolvedBound, hp.undecoded,
          fun y hy => hp.uncompleted y (hdecoded y hy), hp.once⟩, h.reading, fun hs => ?_, h.covered⟩
        · have hids := hp.ids
          rw [hflight, List.map_cons] at hids
          exact hids.of_cons
        · exact (h.held hs).mono rfl rfl (fun _ hp => hp) (fun y hy hm => ⟨y, hold y hy, hm, rfl⟩)
      · simp only [if_neg hcompleted]
        exact h

section Read

variable {x : Input}

def Blocked (c : Config) (s : State) : Prop :=
  s.instrsToReadThisCycle = 0 ∧ (c.ifetchSize ≤ s.ifetchBuffer.length ∨ s.fetchStall = true)

/-- When a branch stalls the fetch, no other one is still to resume it, or has and was not waited for. -/
def StallsAlone (c : Config) (s : State) (e : Event) : Prop := ∀ x, e = .read x → ¬Blocked c s → Mispredicted c x →
  s.warmupComplete = true → s.fetchResumeCycle = 0 ∧ ∀ y ∈ flight s, ¬Marked y

theorem readTrace_blocked (h : Blocked c s) (x : Input) : readTrace c s x = s := if_pos h

theorem readTrace_reads (h : ¬Blocked c s) (x : Input) : readTrace c s x = initInstruction c s x := if_neg h

theorem Inv.running (h : Inv c s) (hblocked : ¬Blocked c s) : s.fetchStall = false := by
  by_contra hs
  have hs := Bool.eq_true_of_not_eq_false hs
  exact hblocked ⟨h.reading hs, .inr hs⟩

theorem initInstruction_placed (hp : Placed s) : Placed (initInstruction c s x) := by
  have hflight : ∀ y ∈ flight (initInstruction c s x), y ∈ flight s ∨
      y = ⟨s.instrUniqueId, x.isBranch, x.branchType, branchMispredicted c s x, .idle⟩ := by
    intro y hy
    simp only [flight, initInstruction, List.mem_append, List.mem_singleton] at hy
    simp only [flight, List.mem_append]
    tauto
  have hnew : ∀ p ∈ s.resolved, p.1 ≠ s.instrUniqueId := fun p hpr => (hp.resolvedBound p hpr).ne
  constructor
  · have heq : flight (initInstruction c s x) =
        flight s ++ [⟨s.instrUniqueId, x.isBranch, x.branchType, branchMispredicted c s x, .idle⟩] := by
      simp only [flight, initInstruction, List.append_assoc]
    rw [heq, List.map_append, List.nodup_append]
    refine ⟨hp.ids, List.nodup_singleton _, ?_⟩
    rintro n hn m hm rfl
    obtain ⟨y, hy, rfl⟩ := List.mem_map.mp hn
    exact absurd (List.mem_singleton.mp hm) (hp.bound y hy).ne
  · intro y hy
    rcases hflight y hy with hy | rfl
    · exact Nat.lt_succ_of_lt (hp.bound y hy)
    · exact Nat.lt_succ_self _
  · intro y hy hb
    rcases hflight y hy with hy | rfl
    · exact hp.plain y hy hb
    · exact if_neg (fun hc => Bool.eq_false_iff.mp hb hc.1)
  · intro y hy
    simp only [initInstruction, ← List.append_assoc] at hy
    rcases List.mem_append.mp hy with hy | hy
    · exact hp.idle y hy
    · rw [List.mem_singleton.mp hy]
  · exact hp.direct
  · exact fun p hpr => Nat.lt_succ_of_lt (hp.resolvedBound p hpr)
  · intro y hy
    simp only [initInstruction, ← List.append_assoc] at hy
    rcases List.mem_append.mp hy with hy | hy
    · exact hp.undecoded y hy
    · rw [List.mem_singleton.mp hy]
      exact hnew
  · exact hp.uncompleted
  · exact hp.once

theorem readTrace_inv (h : Inv c s) (halone : StallsAlone c s (.read x)) : Inv c (readTrace c s x) := by
  by_cases hblocked : Blocked c s
  · rw [readTrace_blocked hblocked]
    exact h
  · rw [readTrace_reads hblocked]
    have hrunning := h.running hblocked
    refine ⟨initInstruction_placed h.placed, fun hs => ?_, fun hs => ?_, h.covered⟩
    all_goals
      have hstalls : Mispredicted c x ∧ s.warmupComplete = true := by
        by_contra hn
        have hfalse : s.fetchStall = true := (if_neg hn).symm.trans hs
        rw [hrunning] at hfalse
        cases hfalse
    · show instrsToRead c s x = 0
      simp only [instrsToRead, if_pos hstalls.1, if_pos hstalls.2]
    · obtain ⟨hresume, hnone⟩ := halone x rfl hblocked hstalls.1 hstalls.2
      refine ⟨fun y hy hm => ?_, fun hne => absurd hresume hne⟩
      have hby : (initInstruction c s x).stalledBy = s.instrUniqueId := if_pos hstalls
      rw [hby]
      simp only [flight, initInstruction, ← List.append_assoc] at hy
      rcases List.mem_append.mp hy with hy | hy
      · exact absurd hm (hnone y hy)
      · rw [List.mem_singleton.mp hy]

end Read

theorem initial_inv : Inv c .initial := by
  refine ⟨⟨List.nodup_nil, ?_, ?_, ?_, ?_, ?_, ?_, ?_, List.nodup_nil⟩, nofun, nofun, ?_⟩ <;>
    exact fun _ hx => absurd hx List.not_mem_nil

theorem step_inv (h : Inv c s) (halone : StallsAlone c s e) : ∃ u, step c s e = some u ∧ Inv c u := by
  cases e with
  | cycle =>
      exact ⟨_, rfl, h.moved rfl rfl (fun _ hx => hx) (fun _ hx => hx) (fun _ hx => hx) rfl rfl rfl rfl rfl rfl⟩
  | finishWarmup =>
      exact ⟨_, rfl, h.moved rfl rfl (fun _ hx => hx) (fun _ hx => hx) (fun _ hx => hx) rfl rfl rfl rfl rfl rfl⟩
  | retire => exact ⟨_, rfl, retireRob_inv h⟩
  | complete a => exact ⟨_, rfl, completeExecution_inv h a⟩
  | execute a => exact ⟨_, rfl, executeInstruction_inv h a⟩
  | dispatch => exact ⟨_, rfl, dispatchInstruction_inv h⟩
  | decode => exact ⟨_, rfl, decodeInstruction_inv h⟩
  | fetch ready => exact ⟨_, rfl, fetchInstruction_inv h ready⟩
  | read x => exact ⟨_, rfl, readTrace_inv h halone⟩

/-- A fetch is resumed no earlier than the penalty after the branch that had stalled it was resolved. -/
structure Covered (c : Config) (s : State) : Prop where
  resumed : ∀ p ∈ s.resumed, ∃ r, (p.1, r) ∈ s.resolved ∧ r + c.branchMispredictPenalty ≤ p.2
  once : (s.resolved.map Prod.fst).Nodup

theorem penalty_covered (h : EveryStep (step c) .initial (fun _ => StallsAlone c) es) :
    ∃ s, run (step c) .initial es = some s ∧ Covered c s := by
  obtain ⟨s, hs, hinv⟩ := h.total (fun s e hs => step_inv hs) initial_inv
  exact ⟨s, hs, hinv.covered, hinv.placed.once⟩

section Exact

def Unmarked (s : State) : Prop := s.fetchStall = false → s.fetchResumeCycle = 0 ∧ ∀ y ∈ flight s, ¬Marked y

theorem Unmarked.mono (h : Unmarked s) (hstall : u.fetchStall = s.fetchStall)
    (hresume : u.fetchResumeCycle = s.fetchResumeCycle)
    (hflight : ∀ y ∈ flight u, Marked y → ∃ x ∈ flight s, Marked x ∧ x.instrId = y.instrId) : Unmarked u := by
  intro hrunning
  obtain ⟨hzero, hnone⟩ := h (hstall.symm.trans hrunning)
  refine ⟨hresume.trans hzero, fun y hy hm => ?_⟩
  obtain ⟨x, hx, hxm, -⟩ := hflight y hy hm
  exact hnone x hx hxm

theorem fetchInstruction_unmarked (hinv : Inv c s) (h : Unmarked s) (ready : Nat) : Unmarked (fetchInstruction c s ready) := by
  have hresumed : Unmarked (resumeFetch s) := by
    rw [resumeFetch]
    by_cases hready : s.fetchStall = true ∧ s.fetchResumeCycle ≤ s.currentCoreCycle ∧ s.fetchResumeCycle ≠ 0
    · rw [if_pos hready]
      exact fun _ => ⟨rfl, ((hinv.held hready.1).resume hready.2.2).1⟩
    · rw [if_neg hready]
      exact h
  refine hresumed.mono rfl rfl (fun y hy hm => ⟨y, ?_, hm, rfl⟩)
  simpa only [flight, fetchInstruction, List.append_assoc, List.take_append_drop] using hy

theorem dispatchInstruction_unmarked (h : Unmarked s) : Unmarked (dispatchInstruction c s) := by
  rw [dispatchInstruction]
  cases hd : s.dispatchBuffer with
  | nil => exact h
  | cons x rest =>
      by_cases hroom : s.rob.length < c.robSize
      · simp only [if_pos hroom]
        refine h.mono rfl rfl (fun y hy hm => ⟨y, ?_, hm, rfl⟩)
        simpa only [flight, hd, List.append_assoc, List.cons_append, List.nil_append] using hy
      · simp only [if_neg hroom]
        exact h

theorem decodeInstruction_unmarked (hinv : Inv c s) (h : Unmarked s) : Unmarked (decodeInstruction c s) := by
  rw [decodeInstruction]
  cases hd : s.decodeBuffer with
  | nil => exact h
  | cons x rest =>
      by_cases hroom : s.dispatchBuffer.length < c.dispatchSize
      · simp only [if_pos hroom]
        show Unmarked (passed c s x rest)
        intro hrunning
        obtain ⟨hzero, hnone⟩ := h hrunning
        have hidle : x.executed = .idle := hinv.placed.idle x (by simp [hd])
        have hclear : ¬(x.branchMispredicted ≠ 0 ∧ x.direct) :=
          fun hresume => hnone x (front_mem hd) ⟨hresume.1, by rw [hidle]; nofun⟩
        refine ⟨(if_neg hclear).trans hzero, fun y hy hm => ?_⟩
        obtain ⟨z, hz, hzm, -⟩ := passed_marked hd hy hm
        exact hnone z hz hzm
      · simp only [if_neg hroom]
        exact h

theorem executeInstruction_unmarked (h : Unmarked s) (a : Nat) : Unmarked (executeInstruction s a) := by
  rw [executeInstruction]
  cases hx : s.rob[a]? with
  | none => exact h
  | some x =>
      by_cases hidle : x.executed = .idle
      · simp only [if_pos hidle]
        refine h.mono rfl rfl (fun y hy hm => ?_)
        rcases replaced_mem hy with rfl | hy
        · exact ⟨x, entry_flight hx, ⟨hm.1, by rw [hidle]; nofun⟩, rfl⟩
        · exact ⟨y, hy, hm, rfl⟩
      · simp only [if_neg hidle]
        exact h

theorem completeExecution_unmarked (h : Unmarked s) (a : Nat) : Unmarked (completeExecution c s a) := by
  rw [completeExecution]
  cases hx : s.rob[a]? with
  | none => exact h
  | some x =>
      by_cases hinflight : x.executed = .inflight
      · simp only [if_pos hinflight]
        show Unmarked (finished c s a x)
        intro hrunning
        obtain ⟨hzero, hnone⟩ := h hrunning
        have hclear : ¬x.branchMispredicted ≠ 0 :=
          fun hresume => hnone x (entry_flight hx) ⟨hresume, by rw [hinflight]; nofun⟩
        refine ⟨(if_neg hclear).trans hzero, fun y hy hm => ?_⟩
        obtain ⟨z, hz, hzm, -⟩ := finished_marked hy hm
        exact hnone z hz hzm
      · simp only [if_neg hinflight]
        exact h

theorem retireRob_unmarked (h : Unmarked s) : Unmarked (retireRob s) := by
  rw [retireRob]
  cases hr : s.rob with
  | nil => exact h
  | cons x rest =>
      by_cases hcompleted : x.executed = .completed
      · simp only [if_pos hcompleted]
        refine h.mono rfl rfl (fun y hy hm => ⟨y, ?_, hm, rfl⟩)
        simp only [flight, hr, List.cons_append]
        exact List.mem_cons_of_mem x hy
      · simp only [if_neg hcompleted]
        exact h

def LeavesNoMark (c : Config) (x : Input) : Prop := x.isBranch = true → ¬Mispredicted c x → x.prediction.latency = 0

theorem readTrace_unmarked {x : Input} (hinv : Inv c s) (h : Unmarked s) (hx : LeavesNoMark c x) : Unmarked (readTrace c s x) := by
  by_cases hblocked : Blocked c s
  · rw [readTrace_blocked hblocked]
    exact h
  · rw [readTrace_reads hblocked]
    obtain ⟨hzero, hnone⟩ := h (hinv.running hblocked)
    intro hrunning
    have hkept : ¬(Mispredicted c x ∧ s.warmupComplete = true) := fun hstalls =>
      Bool.false_ne_true (hrunning.symm.trans (if_pos hstalls))
    have hmark : branchMispredicted c s x = 0 := by
      rw [branchMispredicted]
      split_ifs with hwarm hwrong
      · exact absurd ⟨hwrong, hwarm.2⟩ hkept
      · exact hx hwarm.1 hwrong
      · rfl
    refine ⟨hzero, fun y hy hm => ?_⟩
    simp only [flight, initInstruction, ← List.append_assoc] at hy
    rcases List.mem_append.mp hy with hy | hy
    · exact hnone y hy hm
    · rw [List.mem_singleton.mp hy] at hm
      exact hm.1 hmark

/-- Without a latency for branches that are predicted right every resumption waits for the penalty. -/
theorem covered_of_latencies (h : ∀ x, Event.read x ∈ es → LeavesNoMark c x) :
    ∃ s, run (step c) .initial es = some s ∧ Covered c s := by
  have hinitial : Inv c .initial ∧ Unmarked .initial :=
    ⟨initial_inv, fun _ => ⟨rfl, fun _ hy => absurd hy List.not_mem_nil⟩⟩
  have hstep : ∀ s e, e ∈ es → Inv c s ∧ Unmarked s → ∃ u, step c s e = some u ∧ Inv c u ∧ Unmarked u := by
    rintro s e he ⟨hinv, hunmarked⟩
    obtain ⟨u, hu, hinvU⟩ := step_inv (e := e) hinv
      (fun x _ hblocked _ _ => hunmarked (hinv.running hblocked))
    refine ⟨u, hu, hinvU, ?_⟩
    cases e with
    | cycle => exact Option.some.inj hu ▸ hunmarked
    | finishWarmup => exact Option.some.inj hu ▸ hunmarked
    | retire => exact Option.some.inj hu ▸ retireRob_unmarked hunmarked
    | complete a => exact Option.some.inj hu ▸ completeExecution_unmarked hunmarked a
    | execute a => exact Option.some.inj hu ▸ executeInstruction_unmarked hunmarked a
    | dispatch => exact Option.some.inj hu ▸ dispatchInstruction_unmarked hunmarked
    | decode => exact Option.some.inj hu ▸ decodeInstruction_unmarked hinv hunmarked
    | fetch ready => exact Option.some.inj hu ▸ fetchInstruction_unmarked hinv hunmarked ready
    | read x => exact Option.some.inj hu ▸ readTrace_unmarked hinv hunmarked (h x he)
  obtain ⟨s, hs, hinv, -⟩ := run_total hstep hinitial
  exact ⟨s, hs, hinv.covered, hinv.placed.once⟩

end Exact

section Early

def small : Config where
  fetchWidth := 1
  ifetchSize := 16
  decodeSize := 16
  dispatchSize := 16
  robSize := 16
  branchMispredictPenalty := 2
  perfectBpu := false
  perfectBp := false
  perfectBtb := false

def plain : Input := ⟨false, .notBranch, false, 0, ⟨0, false, 0, false⟩⟩

/-- A jump whose target is known, though only to the second level. -/
def knownJump : Input := ⟨true, .directJump, true, 40, ⟨40, false, 1, true⟩⟩

/-- A taken branch that is predicted not to be taken. -/
def missedBranch : Input := ⟨true, .conditional, true, 80, ⟨80, false, 0, false⟩⟩

def waited : List Event := [.finishWarmup, .read missedBranch, .cycle, .fetch 1, .decode, .dispatch, .execute 0, .complete 0,
  .fetch 0, .cycle, .fetch 0, .cycle, .fetch 0]

theorem waited_alone : EveryStep (step small) .initial (fun _ => StallsAlone small) waited := by
  rintro pre _ post s heq hs x rfl - - -
  rcases pre with _ | ⟨d, _ | ⟨e, pre⟩⟩
  · cases heq
  · rw [waited, List.cons_append, List.cons.injEq] at heq
    rw [← heq.1] at hs
    have hs : { State.initial with warmupComplete := true } = s := Option.some.inj hs
    rw [← hs]
    exact ⟨rfl, fun y hy => absurd hy List.not_mem_nil⟩
  · rw [waited, List.cons_append, List.cons.injEq, List.cons_append, List.cons.injEq] at heq
    have hread : Event.read x ∈ pre ++ .read x :: post := List.mem_append_right _ List.mem_cons_self
    rw [← heq.2.2] at hread
    simp at hread

theorem penalty_covered_once : ∃ s, run (step small) .initial waited = some s ∧ Covered small s :=
  penalty_covered waited_alone

/-- One cycle of the core, in the order of its stages. -/
def cycleOf (x : Input) : List Event :=
  [.cycle, .retire, .complete 0, .execute 0, .dispatch, .decode, .fetch 1, .read x]

/-- The first instruction retires and the core is warm. Then a known jump is decoded, and three cycles later a
branch is missed. -/
def staleCycle : List Event :=
  (List.replicate 7 plain).flatMap cycleOf ++ .finishWarmup ::
    [knownJump, plain, plain, plain, plain, missedBranch, plain].flatMap cycleOf

/-- The cycle that the jump has left resumes the fetch before the missed branch is decoded. -/
theorem stale_cycle_resumes : ¬∃ s, run (step small) .initial staleCycle = some s ∧ Covered small s := by
  rintro ⟨s, hs, hcovered⟩
  have hfacts : (run (step small) .initial staleCycle).all (fun s => (12, 14) ∈ s.resumed ∧ s.resolved = [(7, 10)]) = true := by
    decide +kernel
  rw [hs, Option.all_some, decide_eq_true_eq] at hfacts
  obtain ⟨r, hr, -⟩ := hcovered.resumed _ hfacts.1
  rw [hfacts.2] at hr
  cases List.mem_singleton.mp hr

end Early

end Thermometer.FetchResume
