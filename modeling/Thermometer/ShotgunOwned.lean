import Thermometer.ShotgunVisit

namespace Thermometer.ShotgunOwned

open Trace Lib.Tables Lib.Cells Lib.Runs ShotgunFootprint ShotgunFront ShotgunBasic ShotgunVisit
open BasicBtb (Entry)

/-- The slot that an unconditional branch is allocated into. -/
def allocated (s : State) : Call → Option (Nat × Nat)
  | .update ip branchTarget taken ty =>
      if ty.usesBtb && ty != .conditional && (findEntry s.front.unconditional ip).isNone && branchTarget != 0 && taken then
        some (replEntry s.front.unconditional ip)
      else none
  | _ => none

def Holds (u : Ubtb) (p : Nat × Nat) (side : Bool) (a : Entry) : Prop :=
  ∃ footprint block l, footprintAt u p side = some footprint ∧ footprint.lookup block = some l ∧ a ∈ l

structure Records (s : State) (c : Call) (p : Nat × Nat) (side : Bool) (a : Entry) : Prop where
  access : recorded s c = some a
  current : s.front.shotgun.currentUnconditional = some p
  onSide : (s.front.shotgun.branchType != .ret) = side
  near : ∃ e, Store.get s.front.unconditional p = some e ∧
    inRange (BtbEntry.ipTag a >>> logBlockSize) (originalBlock side e) = true

def Owned (s₀ : State) (cs : List (IterOrder × Call)) (p : Nat × Nat) (side : Bool) (a : Entry) : Prop :=
  ∃ pre c post s t, cs = pre ++ c :: post ∧ run step s₀ pre = some s ∧ step s c = some t ∧ Records s c.2 p side a ∧
    EveryStep step t (fun _ u d => allocated u d.2 ≠ some p) post

/-- In every state that a run reaches the elements of the footprints belong to the
branches in their slots, and every call publishes such elements only. -/
def BelongToBranch (s₀ : State) (cs : List (IterOrder × Call)) : Prop :=
  ∀ pre post s, cs = pre ++ post → run step s₀ pre = some s →
    (∀ p side a, Holds s.front.unconditional p side a → Owned s₀ pre p side a) ∧
    ∀ c rest v p a, post = c :: rest → visit s c.2 = some v → v.slot = some p →
      Holds v.unconditional p (v.branchType != .ret) a → Owned s₀ (pre ++ [c]) p (v.branchType != .ret) a

/-- Every branch is allocated into a slot without recorded elements. -/
def AllocatesEmpty (s₀ : State) (cs : List (IterOrder × Call)) : Prop :=
  EveryStep step s₀ (fun _ s c => ∀ p, allocated s c.2 = some p → ∀ side a, ¬Holds s.front.unconditional p side a) cs

variable {s₀ s t : State} {o : IterOrder} {c : IterOrder × Call} {pre cs : List (IterOrder × Call)} {p : Nat × Nat}
  {side : Bool} {a : Entry}

theorem holds_congr {u v : Ubtb} (h : footprintAt v p side = footprintAt u p side) :
    Holds v p side a ↔ Holds u p side a := by
  simp only [Holds, h]

theorem SameFootprints.holds {u v : Ubtb} (h : SameFootprints u v) : Holds v p side a ↔ Holds u p side a :=
  holds_congr (h p side)

theorem holds_addFootprint {f : Front Ubtb (Nat × Nat)} {access : Entry}
    (h : Holds (addFootprint f access).unconditional p side a) :
    Holds f.unconditional p side a ∨
      a = access ∧ f.shotgun.currentUnconditional = some p ∧ (f.shotgun.branchType != .ret) = side ∧
        ∃ e, Store.get f.unconditional p = some e ∧
          inRange (BtbEntry.ipTag a >>> logBlockSize) (originalBlock side e) = true := by
  by_cases hp : f.shotgun.currentUnconditional = some p ∧ side = (f.shotgun.branchType != .ret)
  · obtain ⟨hp, rfl⟩ := hp
    obtain ⟨footprint, block, l, hf, hl, ha⟩ := h
    rw [addFootprint, hp, footprintAt, Store.get_modify_self, Option.map_map] at hf
    obtain ⟨e, he, rfl⟩ := Option.map_eq_some_iff.mp hf
    rcases mem_cacheAccess hl ha with ⟨hin, rfl⟩ | ⟨l', hl', ha⟩
    · exact .inr ⟨rfl, hp, rfl, e, he, hin⟩
    · refine .inl ⟨_, block, l', ?_, hl', ha⟩
      rw [footprintAt, he, Option.map_some]
  · exact .inl ((holds_congr ((addFootprint_attached f access).others p side hp)).mp h)

theorem footprintAt_updateCurrent (o : IterOrder) (f : Front Ubtb (Nat × Nat)) (entry : Option (Nat × Nat)) (ty : BranchType)
    (p : Nat × Nat) (side : Bool) :
    footprintAt (updateCurrent o f entry ty).unconditional p side =
      if entry = some p ∧ side = (ty != .ret) then (footprintAt f.unconditional p side).map (fun _ => ∅)
      else footprintAt f.unconditional p side := by
  cases entry with
  | none => rw [if_neg (by simp), updateCurrent_none]
  | some q =>
      cases he : Store.get f.unconditional q with
      | none =>
          have hkeep : (updateCurrent o f (some q) ty).unconditional = f.unconditional := by
            simp only [updateCurrent, he]
          rw [hkeep]
          split_ifs with hq
          · rw [Option.some.injEq] at hq
            rw [footprintAt, ← hq.1, he]
            rfl
          · rfl
      | some e =>
          rw [updateCurrent_some he]
          by_cases hq : p = q
          · subst hq
            rw [footprintAt, get_modify_of_some he, footprintAt, he]
            simp only [Option.map_some, true_and]
            split_ifs with hs
            · rw [hs, footprint_setFootprint_self]
            · rw [footprint_setFootprint_ne e _ hs]
          · rw [footprintAt, Store.get_modify_ne _ _ hq, if_neg (fun h => hq (Option.some.inj h.1).symm)]
            rfl

theorem holds_of_updateCurrent {f : Front Ubtb (Nat × Nat)} {entry : Option (Nat × Nat)} {ty : BranchType}
    (h : Holds (updateCurrent o f entry ty).unconditional p side a) : Holds f.unconditional p side a := by
  obtain ⟨footprint, block, l, hf, hl, ha⟩ := h
  rw [footprintAt_updateCurrent] at hf
  split_ifs at hf
  · obtain ⟨g, -, rfl⟩ := Option.map_eq_some_iff.mp hf
    rw [AList.lookup_empty] at hl
    cases hl
  · exact ⟨footprint, block, l, hf, hl, ha⟩

theorem visitUnconditional_same {u : Ubtb} {ip target : Nat} {taken : Bool} {ty : BranchType} {v : Visit}
    (h : visitUnconditional u ip target taken ty = some v) : SameFootprints u v.unconditional := by
  rw [visitUnconditional] at h
  split at h
  · split_ifs at h
    exact (Option.some.inj h) ▸ allocate_same u ip target
  · exact (Option.some.inj h) ▸ updateExisting_same u _ target taken

theorem visit_same {d : Call} {v : Visit} (h : visit s d = some v) :
    SameFootprints s.front.unconditional v.unconditional := by
  cases d with
  | predict ip ty => cases h
  | prefetch ip target ty taken toStreamBuffer => cases h
  | update ip target taken ty =>
      rw [visit] at h
      split_ifs at h
      · exact (Option.some.inj h) ▸ fun _ _ => rfl
      · exact visitUnconditional_same h

theorem visit_of_allocated {d : Call} (h : allocated s d = some p) :
    recorded s d = none ∧ ∃ v, visit s d = some v ∧ v.slot = some p ∧ (v.branchType != .ret) = true := by
  cases d with
  | predict ip ty => cases h
  | prefetch ip target ty taken toStreamBuffer => cases h
  | update ip target taken ty =>
      simp only [allocated] at h
      split_ifs at h with hok
      rw [Option.some.injEq] at h
      simp only [Bool.and_eq_true, bne_iff_ne, ne_eq, Option.isNone_iff_eq_none] at hok
      obtain ⟨⟨⟨⟨huses, hcond⟩, hfind⟩, htarget⟩, htaken⟩ := hok
      have hvisit : visitUnconditional s.front.unconditional ip target taken ty =
          some ⟨allocate s.front.unconditional ip target, some p, ty⟩ := by
        simp only [visitUnconditional, hfind]
        rw [if_pos ⟨htarget, htaken⟩, h]
      cases ty with
      | indirect => cases huses
      | indirectCall => cases huses
      | ret => cases huses
      | conditional => exact absurd rfl hcond
      | notBranch => exact ⟨rfl, _, hvisit, rfl, rfl⟩
      | directJump => exact ⟨rfl, _, hvisit, rfl, rfl⟩
      | directCall => exact ⟨rfl, _, hvisit, rfl, rfl⟩
      | other => exact ⟨rfl, _, hvisit, rfl, rfl⟩

theorem Owned.concat (h : Owned s₀ cs p side a) (hs : run step s₀ cs = some s) (hc : allocated s c.2 ≠ some p) :
    Owned s₀ (cs ++ [c]) p side a := by
  obtain ⟨pre, d, post, r, t, rfl, hr, ht, hrec, hpost⟩ := h
  refine ⟨pre, d, post ++ [c], r, t, by simp, hr, ht, hrec, hpost.concat ?_⟩
  intro u hu
  rw [run_append, hr, Option.bind_some, run_cons, ht, Option.bind_some, hu, Option.some.injEq] at hs
  exact hs ▸ hc

theorem not_owned_of_allocated (hs : run step s₀ cs = some s) (hc : allocated s c.2 = some p) :
    ¬Owned s₀ (cs ++ [c]) p side a := by
  rintro ⟨pre, d, post, r, t, heq, hr, ht, hrec, hpost⟩
  rcases List.eq_nil_or_concat post with rfl | ⟨rest, e, rfl⟩
  · obtain ⟨rfl, hd⟩ := List.append_inj' heq rfl
    rw [List.cons.injEq] at hd
    obtain ⟨rfl, -⟩ := hd
    rw [hs, Option.some.injEq] at hr
    subst hr
    have hnone := (visit_of_allocated hc).1
    rw [hrec.access] at hnone
    cases hnone
  · rw [List.concat_eq_append] at heq hpost
    rw [← List.cons_append, ← List.append_assoc] at heq
    obtain ⟨rfl, hd⟩ := List.append_inj' heq rfl
    rw [List.cons.injEq] at hd
    obtain ⟨rfl, -⟩ := hd
    rw [run_append, hr, Option.bind_some, run_cons, ht, Option.bind_some] at hs
    exact hpost.last hs hc

theorem owned_step (hs : run step s₀ cs = some s)
    (hI : ∀ p side a, Holds s.front.unconditional p side a → Owned s₀ cs p side a)
    (hempty : ∀ p, allocated s c.2 = some p → ∀ side a, ¬Holds s.front.unconditional p side a)
    (ht : step s c = some t) (h : Holds t.front.unconditional p side a) : Owned s₀ (cs ++ [c]) p side a := by
  have hkeep : Holds s.front.unconditional p side a → Owned s₀ (cs ++ [c]) p side a := by
    intro hold
    refine (hI p side a hold).concat hs ?_
    intro hc
    exact hempty p hc side a hold
  have hfront : FrontStep c.1 s c.2 t.front := step_front ht
  generalize hg : t.front = g at hfront h
  cases hfront with
  | quiet u _ _ hu => exact hkeep ((SameFootprints.holds hu).mp h)
  | record b hv hb =>
      rcases holds_addFootprint h with hold | ⟨rfl, hp, hside, hnear⟩
      · exact hkeep hold
      · refine ⟨cs, c, [], s, t, rfl, hs, ht, ⟨hb, hp, hside, hnear⟩, ?_⟩
        intro pre d post u heq
        exact absurd heq (by simp)
  | visit v hv _ => exact hkeep ((SameFootprints.holds (visit_same hv)).mp (holds_of_updateCurrent h))

theorem AllocatesEmpty.owned (h : AllocatesEmpty s₀ cs) (h₀ : ∀ p side a, ¬Holds s₀.front.unconditional p side a)
    (hs : run step s₀ cs = some s) : ∀ p side a, Holds s.front.unconditional p side a → Owned s₀ cs p side a := by
  induction cs using List.reverseRecOn generalizing s with
  | nil =>
      rw [run_nil, Option.some.injEq] at hs
      intro p side a hold
      exact absurd (hs ▸ hold) (h₀ p side a)
  | append_singleton cs c ih =>
      obtain ⟨r, hr, hc⟩ := run_concat hs
      intro p side a hold
      exact owned_step hr (ih (EveryStep.of_append h) hr) (EveryStep.last h hr) hc hold

theorem belongToBranch_of_allocatesEmpty (h₀ : ∀ p side a, ¬Holds s₀.front.unconditional p side a)
    (h : AllocatesEmpty s₀ cs) : BelongToBranch s₀ cs := by
  intro pre post s heq hs
  subst heq
  have howned := AllocatesEmpty.owned (EveryStep.of_append h) h₀ hs
  refine ⟨howned, ?_⟩
  intro c rest v p a hpost hv hslot hold
  have hold := (SameFootprints.holds (visit_same hv)).mp hold
  refine (howned p _ a hold).concat hs ?_
  intro hc
  subst hpost
  exact h pre c rest s rfl hs p hc _ a hold

theorem return_footprint_stays {d : Call} (o : IterOrder) (hc : allocated s d = some p)
    (hold : Holds s.front.unconditional p false a) :
    ∃ t, step s (o, d) = some t ∧ Holds t.front.unconditional p false a := by
  obtain ⟨-, v, hv, -, hside⟩ := visit_of_allocated hc
  have hold := (SameFootprints.holds (visit_same hv)).mpr hold
  cases d with
  | predict ip ty => cases hc
  | prefetch ip target ty taken toStreamBuffer => cases hc
  | update ip target taken ty =>
      have ht : step s (o, .update ip target taken ty) = some (updateBtb o s ip target taken ty) := rfl
      refine ⟨_, ht, ?_⟩
      have hfront : FrontStep o s _ _ := step_front ht
      generalize (updateBtb o s ip target taken ty).front = g at hfront
      cases hfront with
      | quiet u hnone _ _ =>
          rw [hnone] at hv
          cases hv
      | record b hnone _ =>
          rw [hnone] at hv
          cases hv
      | visit w hw _ =>
          rw [hw, Option.some.injEq] at hv
          subst hv
          refine (holds_congr ?_).mpr hold
          rw [footprintAt_updateCurrent, if_neg]
          rw [hside]
          exact fun h => absurd h.2 (by decide)

theorem allocatesEmpty_of_belongToBranch (h : BelongToBranch s₀ cs) : AllocatesEmpty s₀ cs := by
  intro pre c post s heq hs p hc side a hold
  cases hsd : side with
  | true =>
      obtain ⟨-, v, hv, hslot, hside⟩ := visit_of_allocated hc
      have hold : Holds v.unconditional p side a := (SameFootprints.holds (visit_same hv)).mpr hold
      rw [hsd, ← hside] at hold
      exact not_owned_of_allocated hs hc ((h pre (c :: post) s heq hs).2 c post v p a rfl hv hslot hold)
  | false =>
      obtain ⟨t, ht, hold⟩ := return_footprint_stays c.1 hc (hsd ▸ hold)
      have hrun : run step s₀ (pre ++ [c]) = some t := by
        rw [run_append, hs, Option.bind_some, run_cons, ht]
        rfl
      have heq' : cs = (pre ++ [c]) ++ post := by
        rw [heq, List.append_assoc]
        rfl
      exact not_owned_of_allocated hs hc ((h _ post t heq' hrun).1 p false a hold)

theorem initial_holds_nothing (conditionalSets conditionalWays unconditionalSets unconditionalWays : Nat) (p : Nat × Nat)
    (side : Bool) (a : Entry) :
    ¬Holds (State.initial conditionalSets conditionalWays unconditionalSets unconditionalWays).front.unconditional p side a := by
  rintro ⟨footprint, block, l, hf, hl, -⟩
  obtain ⟨e, he, rfl⟩ := Option.map_eq_some_iff.mp hf
  have hmem : e ∈ List.replicate unconditionalWays (FootprintEntry.new Entry.invalid) := List.mem_of_getElem? he
  rw [List.eq_of_mem_replicate hmem, footprint_new, AList.lookup_empty] at hl
  cases hl

/-- The footprints of the basic variant belong to the branches in their slots in exactly
those runs that only overwrite slots whose footprints are empty. -/
theorem footprints_belong_iff (cs : List (IterOrder × Call)) :
    BelongToBranch initializeBtb cs ↔ AllocatesEmpty initializeBtb cs :=
  ⟨allocatesEmpty_of_belongToBranch, belongToBranch_of_allocatesEmpty (initial_holds_nothing _ _ _ _)⟩

/-- A call, a conditional branch in its target region, and a call that takes its slot. -/
def slotTaken : List (IterOrder × Call) :=
  [Call.update 4096 8192 true .directCall, .update 8200 8300 true .conditional].map (fun c => (.stored, c))

/-- The second call publishes the branch that was recorded for the first. -/
theorem footprint_outlives_branch :
    ¬BelongToBranch initializeBtb (slotTaken ++ [(.stored, .update 9216 16384 true .directCall)]) := by
  have hrun : (run step initializeBtb slotTaken).any (fun s =>
      allocated s (.update 9216 16384 true .directCall) == some (1024, 0) &&
        (footprintAt s.front.unconditional (1024, 0) true).any (fun f =>
          (f.lookup 128).any (fun l => l == [⟨8200, 8300, true, 0⟩]))) = true := by decide +kernel
  obtain ⟨s, hs, hf⟩ := (Option.any_eq_true _ _).mp hrun
  simp only [Bool.and_eq_true, beq_iff_eq, Option.any_eq_true] at hf
  obtain ⟨hslot, footprint, hfoot, l, hl, hel⟩ := hf
  intro h
  refine allocatesEmpty_of_belongToBranch h slotTaken _ [] s rfl hs (1024, 0) hslot true ⟨8200, 8300, true, 0⟩ ?_
  exact ⟨footprint, 128, l, hfoot, hl, hel ▸ List.mem_singleton_self _⟩

end Thermometer.ShotgunOwned
