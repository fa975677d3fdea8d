import Thermometer.OptFuture
import Thermometer.ShotgunReturns

namespace Thermometer.ShotgunCurrent

open Trace Lib.Tables Lib.Cells Lib.Runs ShotgunFootprint ShotgunFront ShotgunReturns

/-- What a call does with the current entry: `update_current` chooses another one,
`add_footprint` records into it. -/
inductive Use (E : Type) where
  | nothing
  | choose (entry : Option Nat)
  | record (access : E)

section Variant

variable {E S C U : Type} [BtbEntry E] [Store U Nat (FootprintEntry E)]

def tagAt (u : U) (p : Nat) : Option Nat := (Store.get u p).map (fun e => BtbEntry.ipTag e.base)

def Named (u : U) : Prop := ∀ p tag, tagAt u p = some tag → tag = p

def Erases (v : Variant S C E U Nat) (s t : S) (p : Nat) : Prop :=
  tagAt (v.front s).unconditional p ≠ none ∧ tagAt (v.front t).unconditional p = none

def KeptSince (v : Variant S C E U Nat) (use : S → C → Use E) (s₀ : S) (cs : List C) (p : Nat) : Prop :=
  ∃ pre c post s t, cs = pre ++ c :: post ∧ run v.step s₀ pre = some s ∧ v.step s c = some t ∧ use s c = .choose (some p) ∧
    EveryStep v.step t (fun _ u d => (∀ entry, use u d ≠ .choose entry) ∧
      ∀ w, v.step u d = some w → ¬Erases v u w p) post

/-- At each call the current entry is none, or it is the resident of its ip and was
not erased since it was chosen. That is the entry the call records into. -/
def CurrentResident (v : Variant S C E U Nat) (use : S → C → Use E) (s₀ : S) (cs : List C) : Prop :=
  EveryStep v.step s₀ (fun pre s c =>
    (∀ p, (v.front s).shotgun.currentUnconditional = some p →
      tagAt (v.front s).unconditional p = some p ∧ KeptSince v use s₀ pre p) ∧
    ∀ a t, use s c = .record a → v.step s c = some t → v.front t = addFootprint (v.front s) a) cs

/-- What a call does to the U-BTB and the current entry, by its use of the entry. -/
inductive Move (o : IterOrder) (f : Front U Nat) : Use E → Front U Nat → Prop
  | nothing (u : U) : (∀ p, tagAt u p = tagAt f.unconditional p) → Move o f .nothing { f with unconditional := u }
  | record (a : E) : Move o f (.record a) (addFootprint f a)
  | choose (u : U) (entry : Option Nat) (ty : BranchType) : (Named f.unconditional → Named u) →
      (∀ p, entry = some p → tagAt u p ≠ none) → Move o f (.choose entry) (updateCurrent o { f with unconditional := u } entry ty)

theorem tagAt_modify (u : U) (p q : Nat) (g : FootprintEntry E → FootprintEntry E)
    (hg : ∀ e, BtbEntry.ipTag (g e).base = BtbEntry.ipTag e.base) : tagAt (Store.modify u p g) q = tagAt u q := by
  rw [tagAt, tagAt]
  by_cases hq : q = p
  · subst hq
    rw [Store.get_modify_self, Option.map_map]
    exact congrArg (fun h => (Store.get u q).map h) (funext hg)
  · rw [Store.get_modify_ne u _ hq]

theorem tagAt_addFootprint (f : Front U Nat) (access : E) (p : Nat) :
    tagAt (addFootprint f access).unconditional p = tagAt f.unconditional p := by
  rw [addFootprint]
  split
  · rfl
  · exact tagAt_modify _ _ _ _ (fun e => congrArg BtbEntry.ipTag (base_cacheAccess access _ e))

theorem addFootprint_shotgun (f : Front U Nat) (access : E) : (addFootprint f access).shotgun = f.shotgun :=
  (addFootprint_attached f access).shotgun

theorem tagAt_updateCurrent (o : IterOrder) (f : Front U Nat) (entry : Option Nat) (ty : BranchType) (p : Nat) :
    tagAt (updateCurrent o f entry ty).unconditional p = tagAt f.unconditional p := by
  cases entry with
  | none => rfl
  | some q =>
      cases he : Store.get f.unconditional q with
      | none => simp only [updateCurrent, he]
      | some e =>
          rw [updateCurrent_some he, tagAt, tagAt]
          by_cases hp : p = q
          · subst hp
            rw [get_modify_of_some he, he, Option.map_some, Option.map_some, base_setFootprint]
          · rw [Store.get_modify_ne _ _ hp]

variable {v : Variant S C E U Nat} {use : S → C → Use E} {s₀ s t : S} {c : C} {cs : List C}

theorem KeptSince.concat {p : Nat} (h : KeptSince v use s₀ cs p) (hs : run v.step s₀ cs = some s)
    (hc : ∀ entry, use s c ≠ .choose entry) (hkeep : ∀ t, v.step s c = some t → ¬Erases v s t p) :
    KeptSince v use s₀ (cs ++ [c]) p := by
  obtain ⟨pre, d, post, r, t, rfl, hr, ht, hchoose, hpost⟩ := h
  refine ⟨pre, d, post ++ [c], r, t, by simp, hr, ht, hchoose, hpost.concat ?_⟩
  intro u hu
  rw [run_append, hr, Option.bind_some, run_cons, ht, Option.bind_some, hu, Option.some.injEq] at hs
  subst hs
  exact ⟨hc, hkeep⟩

/-- The invariant of a run: what is resident has its name, and the current entry is resident. -/
structure Sound (v : Variant S C E U Nat) (use : S → C → Use E) (s₀ : S) (cs : List C) (s : S) : Prop where
  named : Named (v.front s).unconditional
  current : ∀ p, (v.front s).shotgun.currentUnconditional = some p →
    tagAt (v.front s).unconditional p = some p ∧ KeptSince v use s₀ cs p

theorem Sound.still (h : Sound v use s₀ cs s) (hs : run v.step s₀ cs = some s) (ht : v.step s c = some t)
    (hc : ∀ entry, use s c ≠ .choose entry) (hshotgun : (v.front t).shotgun = (v.front s).shotgun)
    (htag : ∀ p, tagAt (v.front t).unconditional p = tagAt (v.front s).unconditional p) :
    Sound v use s₀ (cs ++ [c]) t := by
  constructor
  · intro p tag hp
    exact h.named p tag ((htag p).symm.trans hp)
  · intro p hp
    rw [hshotgun] at hp
    obtain ⟨hres, hkept⟩ := h.current p hp
    refine ⟨(htag p).trans hres, hkept.concat hs hc ?_⟩
    intro w hw herase
    rw [ht, Option.some.injEq] at hw
    subst hw
    exact herase.1 ((htag p).symm.trans herase.2)

theorem Sound.step (hmove : ∀ s c t, v.step s c = some t → Move (v.order c) (v.front s) (use s c) (v.front t))
    (h : Sound v use s₀ cs s) (hs : run v.step s₀ cs = some s) (ht : v.step s c = some t) :
    Sound v use s₀ (cs ++ [c]) t := by
  have hm := hmove s c t ht
  generalize hu : use s c = w at hm
  generalize hg : v.front t = g at hm
  cases hm with
  | nothing u htag =>
      refine h.still hs ht ?_ ?_ ?_
      · intro entry
        rw [hu]
        simp
      · rw [hg]
      · rw [hg]
        exact htag
  | record a =>
      refine h.still hs ht ?_ ?_ ?_
      · intro entry
        rw [hu]
        simp
      · rw [hg, addFootprint_shotgun]
      · rw [hg]
        exact tagAt_addFootprint _ a
  | choose u entry ty hnamed hres =>
      have htag : ∀ p, tagAt (v.front t).unconditional p = tagAt u p := by
        intro p
        rw [hg, tagAt_updateCurrent]
      have hname : Named (v.front t).unconditional := by
        intro p tag hp
        exact hnamed h.named p tag ((htag p).symm.trans hp)
      refine ⟨hname, ?_⟩
      intro p hp
      rw [hg, updateCurrent_shotgun] at hp
      have hp : entry = some p := hp
      obtain ⟨tag, hsome⟩ := Option.ne_none_iff_exists'.mp (hres p hp)
      have hsome := (htag p).trans hsome
      refine ⟨hsome.trans (congrArg some (hname p tag hsome)), cs, c, [], s, t, rfl, hs, ht, hp ▸ hu, ?_⟩
      intro pre d post r heq
      exact absurd heq (by simp)

theorem Sound.run (hmove : ∀ s c t, v.step s c = some t → Move (v.order c) (v.front s) (use s c) (v.front t))
    (hname : Named (v.front s₀).unconditional) (hcurrent : (v.front s₀).shotgun.currentUnconditional = none)
    (hs : Lib.Runs.run v.step s₀ cs = some s) : Sound v use s₀ cs s := by
  induction cs using List.reverseRecOn generalizing s with
  | nil =>
      rw [run_nil, Option.some.injEq] at hs
      subst hs
      refine ⟨hname, ?_⟩
      intro p hp
      rw [hcurrent] at hp
      cases hp
  | append_singleton cs c ih =>
      obtain ⟨r, hr, hc⟩ := run_concat hs
      exact (ih hr).step hmove hr hc

theorem currentResident (hmove : ∀ s c t, v.step s c = some t → Move (v.order c) (v.front s) (use s c) (v.front t))
    (hname : Named (v.front s₀).unconditional) (hcurrent : (v.front s₀).shotgun.currentUnconditional = none) (cs : List C) :
    CurrentResident v use s₀ cs := by
  intro pre c post s _ hs
  refine ⟨(Sound.run hmove hname hcurrent hs).current, ?_⟩
  intro a t hu ht
  have hm := hmove s c t ht
  rw [hu] at hm
  generalize v.front t = g at hm
  cases hm
  rfl

end Variant

section Opt

open ShotgunOpt

def recordUse {T E : Type} (find : T → Option E) (b : T) : Use E :=
  match find b with
  | none => .nothing
  | some a => .record a

def optUseConditional (o : IterOrder) (b : RecordedOpt OptBtb.Entry) (ip branchTarget : Nat) (taken : Bool) :
    Use OptBtb.Entry :=
  match findEntry b ip with
  | none =>
      if branchTarget ≠ 0 ∧ taken then
        match allocate o b ip branchTarget .conditional with
        | some (b, true) => recordUse (fun b => OptBtb.findBtbEntry b.opt ip) b
        | _ => .nothing
      else .nothing
  | some _ =>
      recordUse (fun b => OptBtb.findBtbEntry b.opt ip)
        (recordHit (updateExisting b ip branchTarget taken) ip branchTarget taken .conditional)

def optUseUnconditional (o : IterOrder) (u : Ubtb) (ip branchTarget : Nat) (taken : Bool) (ty : BranchType) :
    Use OptBtb.Entry :=
  match findEntry u ip with
  | none =>
      if branchTarget ≠ 0 ∧ taken then
        match allocate o u ip branchTarget ty with
        | some (_, true) => .choose (some ip)
        | _ => .nothing
      else .nothing
  | some p => .choose (some p)

def optUse (o : IterOrder) (s : State) : Call → Use OptBtb.Entry
  | .update ip branchTarget taken ty =>
      if ty = .indirect || ty = .indirectCall then .nothing
      else if ty = .conditional then optUseConditional o s.conditional ip branchTarget taken
      else if ty = .ret then .choose (findEntry s.front.unconditional ip)
      else optUseUnconditional o s.front.unconditional ip branchTarget taken ty
  | _ => .nothing

variable {o : IterOrder} {u : Ubtb} {ip : Nat}

theorem opt_tagAt_findEntry (h : findEntry u ip ≠ none) : tagAt u ip ≠ none := by
  intro hnone
  apply h
  rw [findEntry, Option.map_eq_none_iff]
  exact Option.map_eq_none_iff.mp hnone

theorem opt_tagAt_updateExisting (u : Ubtb) (ip branchTarget : Nat) (taken : Bool) (p : Nat) :
    tagAt (updateExisting u ip branchTarget taken) p = tagAt u p := by
  refine tagAt_modify u ip p _ ?_
  intro e
  show (outcome branchTarget taken e.base).ipTag = e.base.ipTag
  rw [outcome]
  split_ifs <;> rfl

theorem opt_tagAt_recordHit (u : Ubtb) (ip branchTarget : Nat) (taken : Bool) (ty : BranchType) (p : Nat) :
    tagAt (recordHit u ip branchTarget taken ty) p = tagAt u p := by
  rw [recordHit]
  split_ifs <;> rfl

def Inserts (u w : Ubtb) (ip : Nat) : Prop :=
  Store.get w ip ≠ none ∧ ∀ p, p ≠ ip → Store.get w p = none ∨ Store.get w p = Store.get u p

theorem get_emplace (t : OptBtb.Opt (FootprintEntry OptBtb.Entry)) (r : AccessRecord.Record) (ip : Nat)
    (e : FootprintEntry OptBtb.Entry) (p : Nat) :
    Store.get (⟨t.emplace ip e, r⟩ : Ubtb) p = if p = ip then some e else Store.get (⟨t, r⟩ : Ubtb) p := by
  show ((t.emplace ip e).currentBtb (t.set p)).lookup p = if p = ip then some e else (t.currentBtb (t.set p)).lookup p
  by_cases hs : t.set p = t.set ip
  · simp [OptBtb.Opt.emplace, hs, lookup_insert]
  · have hp : p ≠ ip := fun hp => hs (congrArg t.set hp)
    simp [OptBtb.Opt.emplace, Function.update_of_ne hs, hp]

theorem get_erase (t : OptBtb.Opt (FootprintEntry OptBtb.Entry)) (r : AccessRecord.Record) (victim set p : Nat) :
    Store.get (⟨t.erase victim set, r⟩ : Ubtb) p = none ∨
      Store.get (⟨t.erase victim set, r⟩ : Ubtb) p = Store.get (⟨t, r⟩ : Ubtb) p := by
  show ((t.erase victim set).currentBtb (t.set p)).lookup p = none ∨
    ((t.erase victim set).currentBtb (t.set p)).lookup p = (t.currentBtb (t.set p)).lookup p
  by_cases hs : t.set p = set
  · by_cases hp : p = victim
    · exact .inl (by simp only [OptBtb.Opt.erase, hs, Function.update_self, lookup_erase, if_pos hp])
    · exact .inr (by simp only [OptBtb.Opt.erase, hs, Function.update_self, lookup_erase, if_neg hp])
  · exact .inr (by simp [OptBtb.Opt.erase, Function.update_of_ne hs])

theorem insertToBtb_inserts {w : Ubtb} (h : insertToBtb o u ip = some (w, true)) : Inserts u w ip := by
  have hempl : ∀ (t : OptBtb.Opt (FootprintEntry OptBtb.Entry)) (r : AccessRecord.Record) (e : FootprintEntry OptBtb.Entry),
      (∀ p, Store.get (⟨t, r⟩ : Ubtb) p = none ∨ Store.get (⟨t, r⟩ : Ubtb) p = Store.get u p) →
        Inserts u ⟨t.emplace ip e, r⟩ ip := by
    intro t r e hkeep
    constructor
    · rw [get_emplace, if_pos rfl]
      simp
    · intro p hp
      rw [get_emplace, if_neg hp]
      exact hkeep p
  rw [insertToBtb] at h
  split_ifs at h
  · split at h
    · cases h
    · obtain ⟨r, -, h⟩ := Option.bind_eq_some_iff.mp h
      rw [Option.some.injEq, Prod.mk.injEq] at h
      rw [← h.1]
      exact hempl _ r _ (get_erase _ r _ _)
  · rw [Option.some.injEq, Prod.mk.injEq] at h
    rw [← h.1]
    exact hempl _ _ _ (fun _ => .inr rfl)

theorem insertToBtb_bypass {w : Ubtb} (h : insertToBtb o u ip = some (w, false)) : w = u := by
  rw [insertToBtb] at h
  split_ifs at h
  · split at h
    · rw [Option.some.injEq, Prod.mk.injEq] at h
      exact h.1.symm
    · obtain ⟨r, -, h⟩ := Option.bind_eq_some_iff.mp h
      cases h
  · cases h

theorem Inserts.fill {w : Ubtb} (h : Inserts u w ip) (branchTarget : Nat) :
    (Named u → Named (ShotgunOpt.fill w ip branchTarget)) ∧ tagAt (ShotgunOpt.fill w ip branchTarget) ip ≠ none := by
  obtain ⟨e, he⟩ := Option.ne_none_iff_exists'.mp h.1
  have hfill : tagAt (ShotgunOpt.fill w ip branchTarget) ip = some ip := by
    rw [tagAt, ShotgunOpt.fill, get_modify_of_some he]
    rfl
  constructor
  · intro hnamed p tag hp
    by_cases hpi : p = ip
    · subst hpi
      exact (Option.some.inj (hfill.symm.trans hp)).symm
    · rw [tagAt, ShotgunOpt.fill, Store.get_modify_ne _ _ hpi] at hp
      rcases h.2 p hpi with hnone | hsame
      · rw [hnone] at hp
        cases hp
      · rw [hsame] at hp
        exact hnamed p tag hp
  · rw [hfill]
    simp

theorem allocate_named {w : Ubtb} {branchTarget : Nat} {ty : BranchType}
    (h : allocate o u ip branchTarget ty = some (w, true)) : (Named u → Named w) ∧ tagAt w ip ≠ none := by
  obtain ⟨⟨b, judge⟩, hb, h⟩ := Option.bind_eq_some_iff.mp h
  rw [Option.some.injEq, Prod.mk.injEq] at h
  obtain ⟨rfl, rfl⟩ := h
  have hins : Inserts u b ip := insertToBtb_inserts hb
  have hrecorded : Inserts u { b with accessRecord := AccessRecord.access b.accessRecord ip branchTarget ty false true } ip :=
    hins
  exact hrecorded.fill branchTarget

theorem allocate_bypass {w : Ubtb} {branchTarget : Nat} {ty : BranchType}
    (h : allocate o u ip branchTarget ty = some (w, false)) (p : Nat) : tagAt w p = tagAt u p := by
  obtain ⟨⟨b, judge⟩, hb, h⟩ := Option.bind_eq_some_iff.mp h
  rw [Option.some.injEq, Prod.mk.injEq] at h
  obtain ⟨rfl, rfl⟩ := h
  rw [insertToBtb_bypass hb]
  rfl

theorem opt_record_move (s : State) (ip : Nat) :
    Move o s.front (recordUse (fun b => OptBtb.findBtbEntry b.opt ip) s.conditional) (record s ip).front := by
  rw [recordUse, record]
  cases OptBtb.findBtbEntry s.conditional.opt ip with
  | none => exact .nothing s.front.unconditional (fun _ => rfl)
  | some a => exact .record a

theorem opt_updateConditional_move {s t : State} {target : Nat} {taken : Bool}
    (ht : updateConditional o s ip target taken = some t) :
    Move o s.front (optUseConditional o s.conditional ip target taken) t.front := by
  rw [updateConditional] at ht
  rw [optUseConditional]
  cases hfind : findEntry s.conditional ip with
  | none =>
      rw [hfind] at ht
      simp only at ht ⊢
      split_ifs at ht ⊢
      · obtain ⟨⟨b, judge⟩, hb, ht⟩ := Option.bind_eq_some_iff.mp ht
        rw [hb, ← Option.some.inj ht]
        cases judge with
        | false => exact .nothing s.front.unconditional (fun _ => rfl)
        | true =>
            exact opt_record_move
              { s with conditional := b, stream := (StreamBuffer.streamBufferUpdate s.stream ip).1 } ip
      · rw [← Option.some.inj ht]
        exact .nothing s.front.unconditional (fun _ => rfl)
  | some p =>
      rw [hfind] at ht
      rw [← Option.some.inj ht]
      exact opt_record_move
        { s with conditional := recordHit (updateExisting s.conditional ip target taken) ip target taken .conditional } ip

theorem opt_updateUnconditional_move {s t : State} {target : Nat} {taken : Bool} {ty : BranchType}
    (ht : updateUnconditional o s ip target taken ty = some t) :
    Move o s.front (optUseUnconditional o s.front.unconditional ip target taken ty) t.front := by
  rw [updateUnconditional] at ht
  rw [optUseUnconditional]
  cases hfind : findEntry s.front.unconditional ip with
  | none =>
      rw [hfind] at ht
      simp only at ht ⊢
      split_ifs at ht ⊢
      · obtain ⟨⟨b, judge⟩, hb, ht⟩ := Option.bind_eq_some_iff.mp ht
        rw [hb, ← Option.some.inj ht]
        cases judge with
        | false => exact .nothing b (allocate_bypass hb)
        | true =>
            obtain ⟨hnamed, hres⟩ := allocate_named hb
            exact .choose b (some ip) ty hnamed (fun p hp => Option.some.inj hp ▸ hres)
      · rw [← Option.some.inj ht]
        exact .nothing _ (fun _ => rfl)
  | some p =>
      rw [hfind] at ht
      rw [← Option.some.inj ht]
      have htag : ∀ q, tagAt (recordHit (updateExisting s.front.unconditional ip target taken) ip target taken ty) q =
          tagAt s.front.unconditional q := by
        intro q
        rw [opt_tagAt_recordHit, opt_tagAt_updateExisting]
      refine .choose _ (some p) ty (fun hnamed q tag hq => hnamed q tag ((htag q).symm.trans hq)) ?_
      intro q hq
      obtain rfl : p = q := Option.some.inj hq
      rw [htag]
      obtain ⟨e, -, rfl⟩ := Option.map_eq_some_iff.mp hfind
      exact opt_tagAt_findEntry (by rw [hfind]; simp)

theorem opt_move {D : Type} (s : State) (c : Drive D) (t : State) (ht : (optShotgun D).step s c = some t) :
    Move c.residentOrder s.front (optUse c.residentOrder s c.call) t.front := by
  have ht : step s (c.residentOrder, c.call) = some t := ht
  generalize c.call = call at ht
  cases call with
  | predict ip ty =>
      rw [← Option.some.inj ht, btbPrediction]
      split
      · exact .nothing _ (fun _ => rfl)
      · simp only
        split_ifs
        · split <;> exact .nothing _ (fun _ => rfl)
        · split <;> exact .nothing (tick s.front.unconditional) (fun _ => rfl)
  | prefetch ip target ty taken toStreamBuffer =>
      rw [opt_prefetch_front ht]
      exact .nothing _ (fun _ => rfl)
  | update ip target taken ty =>
      have ht : updateBtb c.residentOrder s ip target taken ty = some t := ht
      rw [updateBtb] at ht
      rw [optUse]
      split_ifs at ht ⊢
      · exact (Option.some.inj ht) ▸ .nothing _ (fun _ => rfl)
      · have hmove := opt_updateConditional_move ht
        exact hmove
      · rw [← Option.some.inj ht]
        refine Move.choose s.front.unconditional _ .ret id ?_
        intro p hp
        obtain ⟨e, -, rfl⟩ := Option.map_eq_some_iff.mp hp
        exact opt_tagAt_findEntry (by rw [hp]; simp)
      · exact opt_updateUnconditional_move ht

end Opt

section Hwc

open ShotgunHwc
open HotWarmColdBtb (Env Entry addToTakenHistory outcome)

variable {D : Type}

theorem hwc_tagAt_findEntry {u : Ubtb D} {ip p : Nat} (h : findEntry u ip = some p) : p = ip ∧ tagAt u p ≠ none := by
  obtain ⟨e, he, rfl⟩ := Option.map_eq_some_iff.mp h
  refine ⟨rfl, ?_⟩
  have he : Store.get u ip = some e := he
  rw [tagAt, he]
  simp

theorem hwc_tagAt_updateLru {order : IterOrder} {u w : Ubtb D} {ip : Nat} (h : updateLru order u ip = some w) (p : Nat) :
    tagAt w p = tagAt u p := by
  simp only [updateLru] at h
  split_ifs at h
  rw [← Option.some.inj h]
  exact tagAt_modify u ip p _ (fun _ => rfl)

theorem hwc_tagAt_outcome (u : Ubtb D) (ip branchTarget : Nat) (taken : Bool) (p : Nat) :
    tagAt (Store.modify u ip (Wraps.mapBase (outcome branchTarget taken))) p = tagAt u p := by
  refine tagAt_modify u ip p _ ?_
  intro e
  show (outcome branchTarget taken e.base).ipTag = e.base.ipTag
  rw [outcome]
  split_ifs <;> rfl

theorem hwc_tagAt_emplace (u : Ubtb D) (ip target p : Nat) :
    tagAt (emplace u ip target) p = if p = ip then some ip else tagAt u p := by
  have hget : Store.get (emplace u ip target) p =
      if p = ip then some (Wraps.wrap (Entry.new ip target)) else Store.get u p := by
    show ((emplace u ip target).btb (u.set p)).lookup p = if p = ip then _ else (u.btb (u.set p)).lookup p
    by_cases hs : u.set p = u.set ip
    · simp [emplace, hs, lookup_insert]
    · have hp : p ≠ ip := fun hp => hs (congrArg u.set hp)
      simp [emplace, Function.update_of_ne hs, hp]
  rw [tagAt, hget]
  split_ifs <;> rfl

theorem hwc_tagAt_erase (u : Ubtb D) (victim set p : Nat) :
    tagAt (erase u victim set) p = none ∨ tagAt (erase u victim set) p = tagAt u p := by
  have hget : Store.get (erase u victim set) p = none ∨ Store.get (erase u victim set) p = Store.get u p := by
    show ((erase u victim set).btb (u.set p)).lookup p = none ∨
      ((erase u victim set).btb (u.set p)).lookup p = (u.btb (u.set p)).lookup p
    by_cases hs : u.set p = set
    · by_cases hp : p = victim
      · exact .inl (by simp only [erase, hs, Function.update_self, lookup_erase, if_pos hp])
      · exact .inr (by simp only [erase, hs, Function.update_self, lookup_erase, if_neg hp])
    · exact .inr (by simp only [erase, Function.update_of_ne hs])
  simp only [tagAt]
  rcases hget with hnone | hsame
  · exact .inl (by rw [hnone, Option.map_none])
  · exact .inr (by rw [hsame])

variable [LinearOrder D] [One D]

theorem hwc_insert {env : Env D} {u w : Ubtb D} {ip target junk : Nat} (h : insert env u ip target junk = some w) :
    w = u ∨ (Named u → Named w) ∧ tagAt w ip ≠ none := by
  have hempl : ∀ b : Ubtb D, (∀ p, tagAt b p = none ∨ tagAt b p = tagAt u p) →
      updateLru env.order (emplace b ip target) ip = some w → (Named u → Named w) ∧ tagAt w ip ≠ none := by
    intro b hb hw
    constructor
    · intro hnamed p tag hp
      rw [hwc_tagAt_updateLru hw, hwc_tagAt_emplace] at hp
      split_ifs at hp with hpi
      · exact (Option.some.inj hp).symm.trans hpi.symm
      · rcases hb p with hnone | hsame
        · rw [hnone] at hp
          cases hp
        · exact hnamed p tag (hsame.symm.trans hp)
    · rw [hwc_tagAt_updateLru hw, hwc_tagAt_emplace, if_pos rfl]
      simp
  simp only [ShotgunHwc.insert] at h
  split_ifs at h
  · obtain ⟨victim, -, h⟩ := Option.bind_eq_some_iff.mp h
    simp only [replace] at h
    split_ifs at h
    · exact .inl (Option.some.inj h).symm
    · exact .inr (hempl _ (hwc_tagAt_erase u victim _) h)
  · exact .inr (hempl u (fun _ => .inr rfl) h)

def hwcUseConditional (env : Env D) (b : HotWarmCold D Entry) (ip branchTarget : Nat) (taken : Bool) (uninitialized : Nat) :
    Use Entry :=
  match findBtbEntry b ip with
  | none =>
      if branchTarget ≠ 0 ∧ taken then
        match insert env b ip branchTarget uninitialized with
        | none => .nothing
        | some b => recordUse (fun b => findBtbEntry b ip) b
      else .nothing
  | some e =>
      match (addToTakenHistory (outcome branchTarget taken e) taken).bind
          (fun e => updateLru env.order (Store.modify b ip (fun _ => e)) ip) with
      | none => .nothing
      | some b => recordUse (fun b => findBtbEntry b ip) b

def hwcUseUnconditional (env : Env D) (u : Ubtb D) (ip branchTarget : Nat) (taken : Bool) (uninitialized : Nat) : Use Entry :=
  match findEntry u ip with
  | none =>
      if branchTarget ≠ 0 ∧ taken then
        match (insert env u ip branchTarget uninitialized).bind (fun b => findEntry b ip) with
        | none => .nothing
        | some p => .choose (some p)
      else .nothing
  | some p => .choose (some p)

def hwcUse (env : Env D) (uninitialized : Nat) (s : State D) : Call → Use Entry
  | .update ip branchTarget taken ty =>
      if ty = .indirect || ty = .indirectCall then .nothing
      else if ty = .conditional then hwcUseConditional env s.conditional ip branchTarget taken uninitialized
      else if ty = .ret then .choose (findEntry s.front.unconditional ip)
      else hwcUseUnconditional env s.front.unconditional ip branchTarget taken uninitialized
  | _ => .nothing

variable {env : Env D} {s t : State D} {ip target junk : Nat} {taken : Bool}

omit [LinearOrder D] [One D] in
theorem hwc_record_move (o : IterOrder) (s : State D) (ip : Nat) :
    Move o s.front (recordUse (fun b => findBtbEntry b ip) s.conditional) (record s ip).front := by
  rw [recordUse, record]
  cases findBtbEntry s.conditional ip with
  | none => exact .nothing s.front.unconditional (fun _ => rfl)
  | some a => exact .record a

theorem hwc_updateConditional_move (ht : updateConditional env s ip target taken junk = some t) :
    Move env.order s.front (hwcUseConditional env s.conditional ip target taken junk) t.front := by
  rw [updateConditional] at ht
  rw [hwcUseConditional]
  cases hfind : findBtbEntry s.conditional ip with
  | none =>
      rw [hfind] at ht
      simp only at ht ⊢
      split_ifs at ht ⊢
      · obtain ⟨b, hb, ht⟩ := Option.bind_eq_some_iff.mp ht
        rw [hb, ← Option.some.inj ht]
        exact hwc_record_move env.order
          { s with conditional := b, stream := (StreamBuffer.streamBufferUpdate s.stream ip).1 } ip
      · rw [← Option.some.inj ht]
        exact .nothing s.front.unconditional (fun _ => rfl)
  | some e =>
      rw [hfind] at ht
      obtain ⟨e', he, ht⟩ := Option.bind_eq_some_iff.mp ht
      obtain ⟨b, hb, ht⟩ := Option.bind_eq_some_iff.mp ht
      simp only [he, Option.bind_some, hb]
      rw [← Option.some.inj ht]
      exact hwc_record_move env.order { s with conditional := b } ip

theorem hwc_updateUnconditional_move {ty : BranchType} (ht : updateUnconditional env s ip target taken ty junk = some t) :
    Move env.order s.front (hwcUseUnconditional env s.front.unconditional ip target taken junk) t.front := by
  rw [updateUnconditional] at ht
  rw [hwcUseUnconditional]
  cases hfind : findEntry s.front.unconditional ip with
  | none =>
      rw [hfind] at ht
      simp only at ht ⊢
      split_ifs at ht ⊢
      · obtain ⟨b, hb, ht⟩ := Option.bind_eq_some_iff.mp ht
        rw [hb, Option.bind_some]
        rcases hwc_insert hb with rfl | ⟨hnamed, hres⟩
        · rw [hfind] at ht ⊢
          rw [← Option.some.inj ht]
          exact .nothing s.front.unconditional (fun _ => rfl)
        · obtain ⟨tag, htag⟩ := Option.ne_none_iff_exists'.mp hres
          obtain ⟨e, he, -⟩ := Option.map_eq_some_iff.mp htag
          have hfound : findEntry b ip = some ip := Option.map_eq_some_iff.mpr ⟨e, he, rfl⟩
          rw [hfound] at ht ⊢
          rw [← Option.some.inj ht]
          exact .choose b (some ip) ty hnamed (fun p hp => Option.some.inj hp ▸ hres)
      · rw [← Option.some.inj ht]
        exact .nothing s.front.unconditional (fun _ => rfl)
  | some p =>
      rw [hfind] at ht
      obtain ⟨b, hb, ht⟩ := Option.bind_eq_some_iff.mp ht
      rw [← Option.some.inj ht]
      have htag : ∀ q, tagAt b q = tagAt s.front.unconditional q := by
        intro q
        rw [hwc_tagAt_updateLru hb, hwc_tagAt_outcome]
      refine .choose b (some p) ty (fun hnamed q tag hq => hnamed q tag ((htag q).symm.trans hq)) ?_
      intro q hq
      obtain rfl : p = q := Option.some.inj hq
      rw [htag]
      exact (hwc_tagAt_findEntry hfind).2

theorem hwc_move (s : State D) (c : Drive D) (t : State D) (ht : (hotWarmColdShotgun D).step s c = some t) :
    Move c.env.order s.front (hwcUse c.env c.uninitialized s c.call) t.front := by
  have ht : step s (c.env, c.uninitialized, c.call) = some t := ht
  generalize c.call = call at ht
  cases call with
  | predict ip ty =>
      rw [← Option.some.inj ht, hwc_predict_front]
      exact .nothing s.front.unconditional (fun _ => rfl)
  | prefetch ip target ty taken toStreamBuffer =>
      rw [hwc_prefetch_front ht]
      exact .nothing s.front.unconditional (fun _ => rfl)
  | update ip target taken ty =>
      have ht : updateBtb c.env s ip target taken ty c.uninitialized = some t := ht
      rw [updateBtb] at ht
      rw [hwcUse]
      split_ifs at ht ⊢
      · exact (Option.some.inj ht) ▸ .nothing s.front.unconditional (fun _ => rfl)
      · have hmove := hwc_updateConditional_move ht
        exact hmove
      · rw [← Option.some.inj ht]
        exact Move.choose s.front.unconditional _ .ret id (fun p hp => (hwc_tagAt_findEntry hp).2)
      · exact hwc_updateUnconditional_move ht

end Hwc

variable {D : Type} [LinearOrder D] [Zero D] [One D]

/-- In both variants that replace by profile the current entry outlives no eviction. -/
theorem current_resident (sets ways unconditionalSets unconditionalWays : Nat)
    (conditionalRecord unconditionalRecord : List (Nat × Nat)) (counter : Nat) (flags : HotWarmColdBtb.Flags)
    (hotLower coldUpper warmSplit : D) (conditionalRatios unconditionalRatios : Table D) (cs : List (Drive D)) :
    CurrentResident (optShotgun D) (fun s c => optUse c.residentOrder s c.call)
        (ShotgunOpt.State.initial sets ways unconditionalSets unconditionalWays conditionalRecord unconditionalRecord
          counter) cs ∧
      CurrentResident (hotWarmColdShotgun D) (fun s c => hwcUse c.env c.uninitialized s c.call)
        (ShotgunHwc.State.initial flags sets ways unconditionalSets unconditionalWays hotLower coldUpper warmSplit
          conditionalRatios unconditionalRatios) cs := by
  constructor
  · refine currentResident opt_move ?_ rfl cs
    intro p tag hp
    obtain ⟨e, he, -⟩ := Option.map_eq_some_iff.mp hp
    have hsame := OptFuture.readRecord_same (T := FootprintEntry OptBtb.Entry) none
      (.init unconditionalSets unconditionalWays) unconditionalRecord counter
    have he : OptBtb.findBtbEntry (OptBtb.readRecord _ unconditionalRecord none counter) p = some e := he
    rw [OptBtb.findBtbEntry, hsame.btb, OptBtb.Opt.init, AList.lookup_empty] at he
    cases he
  · refine currentResident hwc_move ?_ rfl cs
    intro p tag hp
    obtain ⟨e, he, -⟩ := Option.map_eq_some_iff.mp hp
    have he : AList.lookup p (∅ : Table (FootprintEntry HotWarmColdBtb.Entry)) = some e := he
    rw [AList.lookup_empty] at he
    cases he

end Thermometer.ShotgunCurrent
