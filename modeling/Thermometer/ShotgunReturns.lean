import Thermometer.ShotgunVisit
import Thermometer.ShotgunOpt
import Thermometer.ShotgunHwc

namespace Thermometer.ShotgunReturns

open Trace Lib.Tables Lib.Cells Lib.Runs ShotgunFootprint ShotgunFront

/-- One call into a BTB module, with what each variant takes from outside. -/
structure Drive (D : Type) where
  blockOrder : IterOrder
  residentOrder : IterOrder
  env : HotWarmColdBtb.Env D
  uninitialized : Nat
  call : Call

variable {D : Type}

def basicShotgun (D : Type) : Variant ShotgunBasic.State (Drive D) BasicBtb.Entry ShotgunBasic.Ubtb (Nat × Nat) where
  step s d := ShotgunBasic.step s (d.blockOrder, d.call)
  front := ShotgunBasic.State.front
  side := ShotgunBasic.State.side
  call := Drive.call
  order := Drive.blockOrder
  find := ShotgunBasic.findEntry
  conditional s ip := (ShotgunBasic.findEntry s.conditional ip).bind (Store.get s.conditional)

def optShotgun (D : Type) : Variant ShotgunOpt.State (Drive D) OptBtb.Entry ShotgunOpt.Ubtb Nat where
  step s d := ShotgunOpt.step s (d.residentOrder, d.call)
  front := ShotgunOpt.State.front
  side := ShotgunOpt.State.side
  call := Drive.call
  order := Drive.residentOrder
  find := ShotgunOpt.findEntry
  conditional s ip := OptBtb.findBtbEntry s.conditional.opt ip

def hotWarmColdShotgun (D : Type) [LinearOrder D] [One D] :
    Variant (ShotgunHwc.State D) (Drive D) HotWarmColdBtb.Entry (ShotgunHwc.Ubtb D) Nat where
  step s d := ShotgunHwc.step s (d.env, d.uninitialized, d.call)
  front := ShotgunHwc.State.front
  side := ShotgunHwc.State.side
  call := Drive.call
  order d := d.env.order
  find := ShotgunHwc.findEntry
  conditional s ip := ShotgunHwc.findBtbEntry s.conditional ip

section Basic

open ShotgunBasic ShotgunVisit

theorem basic_record_attached {f : Front Ubtb (Nat × Nat)} {s : State} (p : Nat × Nat) (h : s.front = f) :
    Attached f (record s p).front (Store.get s.conditional p).toList := by
  subst h
  rw [record]
  cases Store.get s.conditional p with
  | none => exact .refl _
  | some a => exact addFootprint_attached _ a

theorem record_conditional (s : State) (p : Nat × Nat) : (record s p).conditional = s.conditional := by
  rw [record]
  split <;> rfl

theorem updateLru_region (u : Ubtb) (p q : Nat × Nat) : returnRegion (updateLru u p) q = returnRegion u q := by
  have htag : ∀ e : BasicBtb.Entry, BtbEntry.ipTag { e with lru := u.lruCounter } = BtbEntry.ipTag e := fun _ => rfl
  exact returnRegion_modify_base u p q htag

theorem basic_predict_attached (s : State) (ip : Nat) (ty : BranchType) :
    Attached s.front (btbPrediction s ip ty).1.front [] := by
  rw [btbPrediction]
  split
  · exact .refl _
  · simp only
    split_ifs
    · split <;> exact .refl _
    · split
      · exact .refl _
      · exact attached_of_same (updateLru_same _ _) (updateLru_region _ _)

theorem findIdx?_modify_tags {l : List BasicBtb.Entry} {f : BasicBtb.Entry → BasicBtb.Entry} (hf : ∀ e, (f e).ipTag = e.ipTag)
    (way ip : Nat) : (l.modify way f).findIdx? (fun e => e.ipTag = ip) = l.findIdx? (fun e => e.ipTag = ip) := by
  have htags : (l.modify way f).map BasicBtb.Entry.ipTag = l.map BasicBtb.Entry.ipTag := by
    apply List.ext_getElem?
    intro i
    rw [List.getElem?_map, List.getElem?_map]
    by_cases hi : way = i
    · rw [hi, List.getElem?_modify_eq, Option.map_eq_map, Option.map_map]
      exact congrArg (fun g => Option.map g l[i]?) (funext hf)
    · rw [List.getElem?_modify_ne f l hi]
  have hkeys : ∀ l : List BasicBtb.Entry, l.findIdx? (fun e => e.ipTag = ip) =
      (l.map BasicBtb.Entry.ipTag).findIdx? (fun k => k = ip) := by
    intro l
    rw [List.findIdx?_map]
    rfl
  rw [hkeys, hkeys, htags]

theorem findEntry_modify {b : Slots BasicBtb.Entry} {f : BasicBtb.Entry → BasicBtb.Entry} (hf : ∀ e, (f e).ipTag = e.ipTag)
    (p : Nat × Nat) (ip : Nat) : findEntry (Store.modify b p f) ip = findEntry b ip := by
  have hslots : (Function.update b.btb p.1 ((b.btb p.1).modify p.2 f) (setIndex b.sets ip)).findIdx? (fun e => e.ipTag = ip) =
      (b.btb (setIndex b.sets ip)).findIdx? (fun e => e.ipTag = ip) := by
    by_cases hset : setIndex b.sets ip = p.1
    · rw [hset, Function.update_self]
      exact findIdx?_modify_tags hf p.2 ip
    · rw [Function.update_of_ne hset]
  exact congrArg (Option.map _) hslots

/-- The slot that a branch gets is where it is found afterwards. -/
theorem find_allocate {b : Slots BasicBtb.Entry} {ip : Nat} (h : findEntry b ip = none) (branchTarget : Nat) :
    (findEntry (allocate b ip branchTarget) ip).bind (Store.get (allocate b ip branchTarget)) =
      Store.get (allocate b ip branchTarget) (replEntry b ip) := by
  generalize hset : setIndex b.sets ip = set
  generalize hway : (replEntry b ip).2 = way
  have hrepl : replEntry b ip = (set, way) := Prod.ext hset hway
  have hnone : ∀ e ∈ b.btb set, e.ipTag ≠ ip := by
    intro e he
    have hfind := List.findIdx?_eq_none_iff.mp (Option.map_eq_none_iff.mp h)
    rw [hset] at hfind
    exact of_decide_eq_false (hfind e he)
  have hstamp : findEntry (allocate b ip branchTarget) ip =
      (((b.btb set).modify way (newBranch ip branchTarget)).findIdx? (fun e => e.ipTag = ip)).map (fun w => (set, w)) := by
    have htag : ∀ e : BasicBtb.Entry, ({ e with lru := b.lruCounter } : BasicBtb.Entry).ipTag = e.ipTag := fun _ => rfl
    have hfilled := findEntry_modify (b := Store.modify b (replEntry b ip) (newBranch ip branchTarget)) htag (replEntry b ip) ip
    refine Eq.trans hfilled ?_
    rw [hrepl]
    show ((Function.update b.btb set ((b.btb set).modify way (newBranch ip branchTarget)) (setIndex b.sets ip)).findIdx?
      (fun e => e.ipTag = ip)).map (fun w => (setIndex b.sets ip, w)) = _
    rw [hset, Function.update_self]
  by_cases hlt : way < (b.btb set).length
  · have hfound : ((b.btb set).modify way (newBranch ip branchTarget)).findIdx? (fun e => e.ipTag = ip) = some way := by
      rw [List.findIdx?_eq_some_iff_getElem]
      refine ⟨by rwa [List.length_modify], ?_, ?_⟩
      · rw [List.getElem_modify_eq]
        exact decide_eq_true rfl
      · intro j hj
        rw [List.getElem_modify_ne _ _ (Nat.ne_of_gt hj)]
        have hne := hnone _ (List.getElem_mem (lt_trans hj hlt))
        simpa using hne
    rw [hstamp, hfound, Option.map_some, Option.bind_some, hrepl]
  · have hover : (b.btb set)[way]? = none := List.getElem?_eq_none (Nat.le_of_not_lt hlt)
    have hget : Store.get b (replEntry b ip) = none := hrepl ▸ hover
    have hfound : ((b.btb set).modify way (newBranch ip branchTarget)).findIdx? (fun e => e.ipTag = ip) = none := by
      rw [List.modify_eq_self (Nat.le_of_not_lt hlt), List.findIdx?_eq_none_iff]
      exact fun e he => decide_eq_false (hnone e he)
    rw [hstamp, hfound, get_allocate, hget]
    rfl

theorem find_updateExisting {b : Slots BasicBtb.Entry} (p : Nat × Nat) (ip branchTarget : Nat) (taken : Bool) :
    findEntry (updateExisting b p branchTarget taken) ip = findEntry b ip := by
  apply findEntry_modify
  intro e
  show (outcome branchTarget taken e).ipTag = e.ipTag
  rw [outcome]
  split_ifs <;> rfl

theorem basic_updateConditional_attached {f : Front Ubtb (Nat × Nat)} {s : State} {ip target : Nat} {taken : Bool}
    (h : s.front = f) : Attached f (updateConditional s ip target taken).front
      ((findEntry (updateConditional s ip target taken).conditional ip).bind
        (Store.get (updateConditional s ip target taken).conditional)).toList := by
  rw [updateConditional]
  split
  · rename_i hfind
    simp only
    split_ifs
    · rw [record_conditional, find_allocate hfind]
      exact basic_record_attached _ h
    · rw [hfind]
      exact h ▸ .refl _
  · rename_i p hfind
    rw [record_conditional, find_updateExisting, hfind]
    exact basic_record_attached _ h

theorem basic_looksUp : (basicShotgun D).LooksUp (fun s _ => (basicShotgun D).callIp s) where
  ret := by
    intro s c ip target taken hc
    have hc : c.call = .update ip target taken .ret := hc
    refine ⟨updateReturn c.blockOrder s target, ?_, ?_⟩
    · show step s (c.blockOrder, c.call) = _
      rw [hc]
      rfl
    · show updateCurrent _ _ _ _ = _
      rw [SideTables.recalibrate_snd]
      rfl
  records := by
    intro s c t ip target taken hc ht
    have hc : c.call = .update ip target taken .conditional := hc
    have ht : step s (c.blockOrder, c.call) = some t := ht
    rw [hc] at ht
    obtain rfl := Option.some.inj ht
    exact basic_updateConditional_attached (by rfl)
  quiet := by
    intro s c t hq ht
    have hq : idle c.call = true := hq
    have ht : step s (c.blockOrder, c.call) = some t := ht
    show Attached s.front t.front []
    generalize c.call = call at ht hq
    cases call with
    | predict ip ty =>
        rw [← Option.some.inj ht]
        exact basic_predict_attached s ip ty
    | prefetch ip target ty taken toStreamBuffer =>
        rw [prefetchBtb_front ht]
        exact .refl _
    | update ip target taken ty =>
        rcases idle_update hq with rfl | rfl
        · exact (Option.some.inj ht) ▸ .refl _
        · exact (Option.some.inj ht) ▸ .refl _

end Basic

section Opt

open ShotgunOpt
open OptBtb (findBtbEntry)

theorem opt_record_attached {f : Front Ubtb Nat} {s : State} (ip : Nat) (h : s.front = f) :
    Attached f (record s ip).front (findBtbEntry (record s ip).conditional.opt ip).toList := by
  subst h
  rw [record]
  cases hfind : findBtbEntry s.conditional.opt ip with
  | none =>
      simp only [hfind]
      exact .refl _
  | some a =>
      simp only [hfind]
      exact addFootprint_attached _ a

theorem opt_predict_attached (s : State) (ip : Nat) (ty : BranchType) :
    Attached s.front (btbPrediction s ip ty).1.front [] := by
  rw [btbPrediction]
  split
  · exact .refl _
  · simp only
    split_ifs
    · split <;> exact .refl _
    · split <;> exact attached_of_same (fun _ _ => rfl) (fun _ => rfl)

theorem find_of_bypass {o : IterOrder} {b u : RecordedOpt OptBtb.Entry} {ip target : Nat} {ty : BranchType}
    (hfind : findEntry b ip = none) (h : allocate o b ip target ty = some (u, false)) : findBtbEntry u.opt ip = none := by
  obtain ⟨⟨v, judge⟩, hinsert, h⟩ := Option.bind_eq_some_iff.mp h
  obtain ⟨rfl, rfl⟩ := Prod.mk.inj (Option.some.inj h)
  have hsame : v.opt = b.opt := by
    rw [insertToBtb] at hinsert
    split_ifs at hinsert
    · split at hinsert
      · obtain ⟨rfl, -⟩ := Prod.mk.inj (Option.some.inj hinsert)
        rfl
      · obtain ⟨r, -, hinsert⟩ := Option.bind_eq_some_iff.mp hinsert
        exact absurd (Prod.mk.inj (Option.some.inj hinsert)).2 (by decide)
    · exact absurd (Prod.mk.inj (Option.some.inj hinsert)).2 (by decide)
  show findBtbEntry v.opt ip = none
  rw [hsame]
  exact Option.map_eq_none_iff.mp hfind

theorem opt_updateConditional_attached {o : IterOrder} {f : Front Ubtb Nat} {s t : State} {ip target : Nat} {taken : Bool}
    (h : s.front = f) (ht : updateConditional o s ip target taken = some t) :
    Attached f t.front (findBtbEntry t.conditional.opt ip).toList := by
  rw [updateConditional] at ht
  split at ht
  · rename_i hfind
    simp only at ht
    split_ifs at ht
    · obtain ⟨⟨b, judge⟩, hallocate, ht⟩ := Option.bind_eq_some_iff.mp ht
      rw [← Option.some.inj ht]
      cases judge with
      | false =>
          have hnone : findBtbEntry b.opt ip = none := find_of_bypass hfind hallocate
          simp only [Bool.false_eq_true, if_false, hnone]
          exact h ▸ .refl _
      | true => exact opt_record_attached ip h
    · rw [← Option.some.inj ht]
      have hnone : findBtbEntry s.conditional.opt ip = none := Option.map_eq_none_iff.mp hfind
      simp only [hnone]
      exact h ▸ .refl _
  · rw [← Option.some.inj ht]
    exact opt_record_attached ip h

theorem opt_prefetch_front {o : IterOrder} {s t : State} {ip target : Nat} {ty : BranchType} {taken toStreamBuffer : Bool}
    (h : prefetchBtb o s ip target ty taken toStreamBuffer = some t) : t.front = s.front := by
  rw [prefetchBtb] at h
  by_cases hty : ty = .conditional
  · rw [if_pos hty, prefetchConditional] at h
    split at h
    · split_ifs at h
      · obtain ⟨b, -, rfl⟩ := Option.map_eq_some_iff.mp h
        rfl
      · obtain ⟨b, -, h⟩ := Option.bind_eq_some_iff.mp h
        exact (Option.some.inj h) ▸ rfl
      · exact (Option.some.inj h) ▸ rfl
    · exact (Option.some.inj h) ▸ rfl
  · rw [if_neg hty] at h
    exact (Option.some.inj h) ▸ rfl

theorem opt_looksUp : (optShotgun D).LooksUp (fun _ ip => ip) where
  ret := by
    intro s c ip target taken hc
    have hc : c.call = .update ip target taken .ret := hc
    refine ⟨updateReturn c.residentOrder s ip target, ?_, rfl⟩
    show step s (c.residentOrder, c.call) = _
    rw [hc]
    rfl
  records := by
    intro s c t ip target taken hc ht
    have hc : c.call = .update ip target taken .conditional := hc
    have ht : step s (c.residentOrder, c.call) = some t := ht
    rw [hc] at ht
    have ht : updateConditional c.residentOrder { s with side := SideTables.shiftHistory s.side taken } ip target
        taken = some t := ht
    exact opt_updateConditional_attached (by rfl) ht
  quiet := by
    intro s c t hq ht
    have ht : step s (c.residentOrder, c.call) = some t := ht
    have hq : idle c.call = true := hq
    show Attached s.front t.front []
    generalize c.call = call at ht hq
    cases call with
    | predict ip ty =>
        rw [← Option.some.inj ht]
        exact opt_predict_attached s ip ty
    | prefetch ip target ty taken toStreamBuffer =>
        rw [opt_prefetch_front ht]
        exact .refl _
    | update ip target taken ty =>
        rcases idle_update hq with rfl | rfl
        · exact (Option.some.inj ht) ▸ .refl _
        · exact (Option.some.inj ht) ▸ .refl _

end Opt

section Hwc

open ShotgunHwc

theorem hwc_record_attached {f : Front (Ubtb D) Nat} {s : State D} (ip : Nat) (h : s.front = f) :
    Attached f (record s ip).front (findBtbEntry (record s ip).conditional ip).toList := by
  subst h
  rw [record]
  cases hfind : findBtbEntry s.conditional ip with
  | none =>
      simp only [hfind]
      exact .refl _
  | some a =>
      simp only [hfind]
      exact addFootprint_attached _ a

theorem hwc_predict_front (s : State D) (ip : Nat) (ty : BranchType) : (btbPrediction s ip ty).1.front = s.front := by
  rw [btbPrediction]
  split
  · rfl
  · simp only
    split_ifs
    · split <;> rfl
    · split <;> rfl

variable [LinearOrder D] [One D]

theorem hwc_updateConditional_attached {env : HotWarmColdBtb.Env D} {f : Front (Ubtb D) Nat} {s t : State D}
    {ip target junk : Nat} {taken : Bool} (h : s.front = f)
    (ht : updateConditional env s ip target taken junk = some t) :
    Attached f t.front (findBtbEntry t.conditional ip).toList := by
  rw [updateConditional] at ht
  split at ht
  · rename_i hfind
    simp only at ht
    split_ifs at ht
    · obtain ⟨b, -, ht⟩ := Option.bind_eq_some_iff.mp ht
      rw [← Option.some.inj ht]
      exact hwc_record_attached ip h
    · rw [← Option.some.inj ht]
      simp only [hfind]
      exact h ▸ .refl _
  · obtain ⟨e, -, ht⟩ := Option.bind_eq_some_iff.mp ht
    obtain ⟨b, -, ht⟩ := Option.bind_eq_some_iff.mp ht
    rw [← Option.some.inj ht]
    exact hwc_record_attached ip h

theorem hwc_prefetch_front {env : HotWarmColdBtb.Env D} {s t : State D} {ip target junk : Nat} {ty : BranchType}
    {taken toStreamBuffer : Bool} (h : prefetchBtb env s ip target ty taken toStreamBuffer junk = some t) :
    t.front = s.front := by
  rw [prefetchBtb] at h
  by_cases hty : ty = .conditional
  · rw [if_pos hty, prefetchConditional] at h
    split at h
    · split_ifs at h
      · obtain ⟨b, -, rfl⟩ := Option.map_eq_some_iff.mp h
        rfl
      · obtain ⟨b, -, rfl⟩ := Option.map_eq_some_iff.mp h
        rfl
      · exact (Option.some.inj h) ▸ rfl
    · obtain ⟨b, -, rfl⟩ := Option.map_eq_some_iff.mp h
      rfl
  · rw [if_neg hty] at h
    exact (Option.some.inj h) ▸ rfl

theorem hwc_looksUp : (hotWarmColdShotgun D).LooksUp (fun _ ip => ip) where
  ret := by
    intro s c ip target taken hc
    have hc : c.call = .update ip target taken .ret := hc
    refine ⟨updateReturn c.env.order s ip target, ?_, rfl⟩
    show step s (c.env, c.uninitialized, c.call) = _
    rw [hc]
    rfl
  records := by
    intro s c t ip target taken hc ht
    have hc : c.call = .update ip target taken .conditional := hc
    have ht : step s (c.env, c.uninitialized, c.call) = some t := ht
    rw [hc] at ht
    have ht : updateConditional c.env { s with side := SideTables.shiftHistory s.side taken } ip target taken
        c.uninitialized = some t := ht
    exact hwc_updateConditional_attached (by rfl) ht
  quiet := by
    intro s c t hq ht
    have ht : step s (c.env, c.uninitialized, c.call) = some t := ht
    have hq : idle c.call = true := hq
    show Attached s.front t.front []
    generalize c.call = call at ht hq
    cases call with
    | predict ip ty =>
        rw [← Option.some.inj ht, hwc_predict_front]
        exact .refl _
    | prefetch ip target ty taken toStreamBuffer =>
        rw [hwc_prefetch_front ht]
        exact .refl _
    | update ip target taken ty =>
        rcases idle_update hq with rfl | rfl
        · exact (Option.some.inj ht) ▸ .refl _
        · exact (Option.some.inj ht) ▸ .refl _

end Hwc

/-- A return that is its own call, as far as the U-BTB can tell: one ip, or neither resident. -/
def OwnCall {S U : Type} (v : Variant S (Drive D) E U Nat) (s₀ : S) (cs : List (Drive D)) : Prop :=
  EveryStep v.step s₀ (fun _ s c => ∀ ip target taken, v.call c = .update ip target taken .ret → v.callIp s ≠ 0 →
    ip = v.callIp s ∨ v.lookup s ip = none ∧ v.lookup s (v.callIp s) = none) cs

theorem findEntry_eq_iff {T V : Type} {find : T → Nat → Option V} {t : T} {i j : Nat} :
    (find t i).map (fun _ => i) = (find t j).map (fun _ => j) ↔
      i = j ∨ (find t i).map (fun _ => i) = none ∧ (find t j).map (fun _ => j) = none := by
  by_cases hij : i = j
  · subst hij
    simp
  · cases hi : find t i <;> cases hj : find t j <;> simp [hij]

theorem servesReturns_iff_ownCall {E S U V : Type} [BtbEntry E] [Store U Nat (FootprintEntry E)]
    {v : Variant S (Drive D) E U Nat} {find : U → Nat → Option V} (hv : v.LooksUp (fun _ ip => ip))
    (hfind : ∀ u ip, v.find u ip = (find u ip).map (fun _ => ip)) (s₀ : S) (cs : List (Drive D)) :
    ServesReturns v s₀ cs ↔ OwnCall v s₀ cs := by
  rw [hv.servesReturns_iff]
  refine everyStep_congr ?_
  intro pre c post s _ _
  have hiff : ∀ ip, v.lookup s ip = v.lookup s (v.callIp s) ↔
      ip = v.callIp s ∨ v.lookup s ip = none ∧ v.lookup s (v.callIp s) = none := by
    intro ip
    simp only [Variant.lookup, hfind]
    exact findEntry_eq_iff
  simp only [hiff]

variable [LinearOrder D] [Zero D] [One D]

/-- The basic variant always serves the call a return pops. The others do so for the
returns that are their own call. -/
theorem returns_serve_calls (cs : List (Drive D)) (conditionalRecord unconditionalRecord : List (Nat × Nat)) (counter : Nat)
    (flags : HotWarmColdBtb.Flags) (hotLower coldUpper warmSplit : D) (conditionalRatios unconditionalRatios : Table D) :
    (ServesReturns (basicShotgun D) ShotgunBasic.initializeBtb cs ∧
      ServesReturns (optShotgun D) (ShotgunOpt.initializeBtb conditionalRecord unconditionalRecord counter) cs ∧
      ServesReturns (hotWarmColdShotgun D)
        (ShotgunHwc.initializeBtb flags hotLower coldUpper warmSplit conditionalRatios unconditionalRatios) cs) ↔
    OwnCall (optShotgun D) (ShotgunOpt.initializeBtb conditionalRecord unconditionalRecord counter) cs ∧
      OwnCall (hotWarmColdShotgun D)
        (ShotgunHwc.initializeBtb flags hotLower coldUpper warmSplit conditionalRatios unconditionalRatios) cs := by
  have hbasic : ServesReturns (basicShotgun D) ShotgunBasic.initializeBtb cs := by
    rw [basic_looksUp.servesReturns_iff]
    exact fun _ _ _ _ _ _ _ _ _ _ _ => rfl
  rw [and_iff_right hbasic, servesReturns_iff_ownCall opt_looksUp (fun _ _ => rfl),
    servesReturns_iff_ownCall hwc_looksUp (fun _ _ => rfl)]

/-- A call to a function that returns at once. -/
def callAndReturn : List (Drive Nat) :=
  [Call.predict 4096 .directCall, .update 4096 8192 true .directCall, .predict 8196 .ret].map
    (fun c => ⟨.stored, .stored, ⟨.stored, 0, fun _ => 0, fun _ => true⟩, 0, c⟩)

def theReturn : Drive Nat :=
  ⟨.stored, .stored, ⟨.stored, 0, fun _ => 0, fun _ => true⟩, 0, .update 8196 4101 true .ret⟩

theorem not_servesReturns {E S U P : Type} [BtbEntry E] [Store U P (FootprintEntry E)] [DecidableEq P]
    {v : Variant S (Drive Nat) E U P} {key : S → Nat → Nat} (hv : v.LooksUp key) (hcall : v.call = Drive.call) {s₀ : S}
    (h : (run v.step s₀ callAndReturn).any (fun s =>
      v.callIp s == 4096 && v.lookup s (key s 8196) != v.lookup s 4096) = true) :
    ¬ServesReturns v s₀ (callAndReturn ++ [theReturn]) := by
  obtain ⟨s, hs, hf⟩ := (Option.any_eq_true _ _).mp h
  simp only [Bool.and_eq_true, beq_iff_eq, bne_iff_ne] at hf
  intro hserve
  have hlook := ((hv.servesReturns_iff _ _).mp hserve).last hs 8196 4101 true (by rw [hcall]; rfl)
    (by rw [hf.1]; decide)
  rw [hf.1] at hlook
  exact hf.2 hlook

def keepLru : HotWarmColdBtb.Flags := ⟨false, true, false, false, true, false, false⟩

/-- The call is resident when its return pops it, and only the basic variant finds it. -/
theorem returns_miss_their_calls :
    ¬ServesReturns (optShotgun Nat) (ShotgunOpt.initializeBtb [] [] 0) (callAndReturn ++ [theReturn]) ∧
      ¬ServesReturns (hotWarmColdShotgun Nat) (ShotgunHwc.initializeBtb keepLru 0 0 0 ∅ ∅)
        (callAndReturn ++ [theReturn]) :=
  ⟨not_servesReturns opt_looksUp rfl (by decide +kernel), not_servesReturns hwc_looksUp rfl (by decide +kernel)⟩

end Thermometer.ShotgunReturns
