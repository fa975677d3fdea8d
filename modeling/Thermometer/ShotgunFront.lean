import Thermometer.Lib.Runs
import Thermometer.ShotgunFootprint
import Thermometer.SideTables

namespace Thermometer.ShotgunFront

open Trace Lib.Tables Lib.Cells Lib.Runs ShotgunFootprint

variable {E U P : Type}

@[simp] theorem footprint_setFootprint_self (e : FootprintEntry E) (call : Bool) (footprint : Footprint E) :
    (e.setFootprint call footprint).footprint call = footprint := by
  cases call <;> rfl

theorem footprint_setFootprint_ne (e : FootprintEntry E) {call side : Bool} (footprint : Footprint E) (h : side ≠ call) :
    (e.setFootprint call footprint).footprint side = e.footprint side := by
  cases call <;> cases side <;> first | rfl | exact absurd rfl h

@[simp] theorem base_setFootprint (e : FootprintEntry E) (call : Bool) (footprint : Footprint E) :
    (e.setFootprint call footprint).base = e.base := by
  cases call <;> rfl

@[simp] theorem footprint_mapBase (e : FootprintEntry E) (f : E → E) (side : Bool) :
    (e.mapBase f).footprint side = e.footprint side := by
  cases side <;> rfl

@[simp] theorem footprint_new (base : E) (side : Bool) : (FootprintEntry.new base).footprint side = ∅ := by
  cases side <;> rfl

section Store

variable [Store U P (FootprintEntry E)]

def footprintAt (u : U) (p : P) (call : Bool) : Option (Footprint E) :=
  (Store.get u p).map (fun e => e.footprint call)

theorem footprintAt_modify_base (u : U) (p q : P) (f : E → E) (side : Bool) :
    footprintAt (Store.modify u p (Wraps.mapBase f)) q side = footprintAt u q side := by
  rw [footprintAt, footprintAt]
  by_cases hq : q = p
  · subst hq
    rw [Store.get_modify_self, Option.map_map]
    exact congrArg (fun g => (Store.get u q).map g) (funext (fun e => footprint_mapBase e f side))
  · rw [Store.get_modify_ne u _ hq]

end Store

variable [BtbEntry E]

theorem footprint_cacheAccess_ne (e : FootprintEntry E) (access : E) {call side : Bool} (h : side ≠ call) :
    (cacheAccess access call e).footprint side = e.footprint side := by
  simp only [cacheAccess]
  split_ifs
  · exact footprint_setFootprint_ne e _ h
  · rfl

theorem base_cacheAccess (access : E) (call : Bool) (e : FootprintEntry E) : (cacheAccess access call e).base = e.base := by
  simp only [cacheAccess]
  split_ifs
  · exact base_setFootprint e call _
  · rfl

theorem mem_cacheAccess {e : FootprintEntry E} {access a : E} {call : Bool} {block : Nat} {l : List E}
    (h : ((cacheAccess access call e).footprint call).lookup block = some l) (ha : a ∈ l) :
    inRange (BtbEntry.ipTag a >>> logBlockSize) (originalBlock call e) = true ∧ a = access ∨
      ∃ l', (e.footprint call).lookup block = some l' ∧ a ∈ l' := by
  simp only [cacheAccess] at h
  split_ifs at h with hin
  · rw [footprint_setFootprint_self, pushBack, lookup_insert] at h
    split_ifs at h with hb
    · rw [Option.some.injEq] at h
      subst h
      rcases List.mem_append.mp ha with ha | ha
      · cases hl : (e.footprint call).lookup (BtbEntry.ipTag access >>> logBlockSize) with
        | none => simp [hl] at ha
        | some l' => exact .inr ⟨l', hb ▸ hl, by simpa [hl] using ha⟩
      · rw [List.mem_singleton.mp ha]
        exact .inl ⟨hin, rfl⟩
    · exact .inr ⟨l, h, ha⟩
  · exact .inr ⟨l, h, ha⟩

theorem publish_ne (o : IterOrder) (footprint : Footprint E) {key k : Nat} (region : Regions) (h : k ≠ key) :
    publish o footprint key region k = region k := by
  rw [publish]
  induction iterate o footprint generalizing region with
  | nil => rfl
  | cons a l ih => rw [List.foldl_cons, ih, Function.update_of_ne h]

/-- What `cache_access` does to the footprint around a block. -/
def recordAccess (original : Nat) (footprint : Footprint E) (access : E) : Footprint E :=
  if inRange (BtbEntry.ipTag access >>> logBlockSize) original then
    pushBack footprint (BtbEntry.ipTag access >>> logBlockSize) access
  else footprint

theorem returnFootprint_cacheAccess (e : FootprintEntry E) (access : E) : (cacheAccess access false e).returnFootprint =
    recordAccess (BtbEntry.ipTag e.base >>> logBlockSize) e.returnFootprint access := by
  simp only [cacheAccess, recordAccess, originalBlock, Bool.false_eq_true, if_false]
  split_ifs
  · rfl
  · rfl

def inRegion (original block : Nat) (access : E) : Bool :=
  BtbEntry.ipTag access >>> logBlockSize == block && inRange block original

theorem lookup_recordAccess (original block : Nat) (footprint : Footprint E) (access : E) :
    ((recordAccess original footprint access).lookup block).getD [] =
      (footprint.lookup block).getD [] ++ if inRegion original block access then [access] else [] := by
  rw [recordAccess, inRegion]
  by_cases hblock : BtbEntry.ipTag access >>> logBlockSize = block
  · rw [hblock, beq_self_eq_true, Bool.true_and]
    split_ifs
    · rw [pushBack, AList.lookup_insert, Option.getD_some]
    · rw [List.append_nil]
  · rw [beq_false_of_ne hblock, Bool.false_and, if_neg Bool.false_ne_true, List.append_nil]
    split_ifs
    · rw [pushBack, AList.lookup_insert_ne (Ne.symm hblock)]
    · rfl

theorem lookup_recordAccesses (original block : Nat) (footprint : Footprint E) (accesses : List E) :
    ((accesses.foldl (recordAccess original) footprint).lookup block).getD [] =
      (footprint.lookup block).getD [] ++ accesses.filter (inRegion original block) := by
  induction accesses generalizing footprint with
  | nil => rw [List.foldl_nil, List.filter_nil, List.append_nil]
  | cons a accesses ih =>
      rw [List.foldl_cons, ih, lookup_recordAccess, List.filter_cons, List.append_assoc]
      split_ifs
      · rw [List.singleton_append]
      · rw [List.nil_append]

variable [Store U P (FootprintEntry E)]

def returnRegion (u : U) (p : P) : Option (Nat × Footprint E) :=
  (Store.get u p).map (fun e => (BtbEntry.ipTag e.base, e.returnFootprint))

theorem returnRegion_modify_base (u : U) (p q : P) {f : E → E} (hf : ∀ e, BtbEntry.ipTag (f e) = BtbEntry.ipTag e) :
    returnRegion (Store.modify u p (Wraps.mapBase f)) q = returnRegion u q := by
  rw [returnRegion, returnRegion]
  by_cases hq : q = p
  · subst hq
    rw [Store.get_modify_self, Option.map_map]
    exact congrArg (fun g => (Store.get u q).map g) (funext (fun e => Prod.ext (hf e.base) rfl))
  · rw [Store.get_modify_ne u _ hq]

variable {f g h : Front U P} {as bs : List E}

/-- Until the next unconditional branch, what is recorded goes to the current entry. The accesses are listed for the
entry of a call that has returned. -/
structure Attached (f g : Front U P) (as : List E) : Prop where
  shotgun : g.shotgun = f.shotgun
  regions : g.prefetchRegion = f.prefetchRegion
  others : ∀ p side, ¬(f.shotgun.currentUnconditional = some p ∧ side = (f.shotgun.branchType != .ret)) →
    footprintAt g.unconditional p side = footprintAt f.unconditional p side
  recorded : ∀ p r, f.shotgun = ⟨some p, .ret⟩ → returnRegion f.unconditional p = some r →
    returnRegion g.unconditional p = some (r.1, as.foldl (recordAccess (r.1 >>> logBlockSize)) r.2)

theorem Attached.refl (f : Front U P) : Attached f f [] := ⟨rfl, rfl, fun _ _ _ => rfl, fun _ _ _ hr => hr⟩

theorem Attached.trans (hf : Attached f g as) (hg : Attached g h bs) : Attached f h (as ++ bs) := by
  refine ⟨hg.shotgun.trans hf.shotgun, hg.regions.trans hf.regions, ?_, ?_⟩
  · intro p side hp
    exact (hg.others p side (by rw [hf.shotgun]; exact hp)).trans (hf.others p side hp)
  · intro p r hp hr
    rw [hg.recorded p _ (hf.shotgun.trans hp) (hf.recorded p r hp hr), List.foldl_append]

theorem attached_of_same {u : U} (hu : ∀ p side, footprintAt u p side = footprintAt f.unconditional p side)
    (hr : ∀ p, returnRegion u p = returnRegion f.unconditional p) : Attached f { f with unconditional := u } [] :=
  ⟨rfl, rfl, fun p side _ => hu p side, fun p _ _ h => (hr p).trans h⟩

variable {ty : BranchType}

@[simp] theorem updateCurrent_shotgun (o : IterOrder) (f : Front U P) (entry : Option P) (ty : BranchType) :
    (updateCurrent o f entry ty).shotgun = ⟨entry, ty⟩ := by
  simp only [updateCurrent]
  split
  · rfl
  · split <;> rfl

theorem updateCurrent_none (o : IterOrder) (f : Front U P) (ty : BranchType) :
    updateCurrent o f none ty = { f with shotgun := ⟨none, ty⟩ } := rfl

theorem updateCurrent_some {p : P} {e : FootprintEntry E} (he : Store.get f.unconditional p = some e) :
    updateCurrent o f (some p) ty =
      ⟨Store.modify f.unconditional p (fun _ => e.setFootprint (ty != .ret) ∅), ⟨some p, ty⟩,
        publish o (e.footprint (ty != .ret)) (prefetchKey (ty != .ret) e) f.prefetchRegion⟩ := by
  simp only [updateCurrent, he, operatePrefetch]

theorem addFootprint_attached (f : Front U P) (access : E) : Attached f (addFootprint f access) [access] := by
  rw [addFootprint]
  split
  · rename_i hnone
    refine ⟨rfl, rfl, fun _ _ _ => rfl, fun p r hp _ => ?_⟩
    rw [hp] at hnone
    cases hnone
  · rename_i p hp
    refine ⟨rfl, rfl, ?_, ?_⟩
    · intro q side hq
      rw [footprintAt, footprintAt]
      by_cases hqp : q = p
      · subst hqp
        have hside : side ≠ (f.shotgun.branchType != .ret) := fun hs => hq ⟨hp, hs⟩
        rw [Store.get_modify_self, Option.map_map]
        exact congrArg (fun g => (Store.get f.unconditional q).map g)
          (funext (fun e => footprint_cacheAccess_ne e access hside))
      · rw [Store.get_modify_ne _ _ hqp]
    · intro q r hq hr
      rw [hq, Option.some.injEq] at hp
      subst hp
      obtain ⟨e, he, rfl⟩ := Option.map_eq_some_iff.mp hr
      have hret : (f.shotgun.branchType != .ret) = false := by rw [hq]; rfl
      rw [returnRegion, hret, get_modify_of_some he, Option.map_some, base_cacheAccess, returnFootprint_cacheAccess]
      rfl

/-- The calls that move the pointer to the current entry. -/
def enters : Call → Bool
  | .update _ _ _ ty => ty != .indirect && ty != .indirectCall && ty != .conditional
  | _ => false

def idle : Call → Bool
  | .update _ _ _ ty => ty == .indirect || ty == .indirectCall
  | _ => true

theorem conditional_or_idle {c : Call} (h : enters c = false) :
    (∃ ip target taken, c = .update ip target taken .conditional) ∨ idle c = true := by
  cases c with
  | predict ip ty => exact .inr rfl
  | prefetch ip target ty taken toStreamBuffer => exact .inr rfl
  | update ip target taken ty =>
      cases ty with
      | conditional => exact .inl ⟨ip, target, taken, rfl⟩
      | indirect => exact .inr rfl
      | indirectCall => exact .inr rfl
      | _ => cases h

theorem idle_update {ip target : Nat} {taken : Bool} {ty : BranchType} (h : idle (.update ip target taken ty) = true) :
    ty = .indirect ∨ ty = .indirectCall := by
  cases ty <;> simp_all [idle]

/-- What the variants have in common, as a reader of their states sees it. -/
structure Variant (S C E U P : Type) where
  step : S → C → Option S
  front : S → Front U P
  side : S → SideTables.Tables
  call : C → Call
  order : C → IterOrder
  find : U → Nat → Option P
  conditional : S → Nat → Option E

variable {S C : Type} (v : Variant S C E U P)

/-- The call ip a return is about to pop, 0 on an empty stack. -/
def Variant.callIp (s : S) : Nat := SideTables.peekRas (v.side s)

def Variant.lookup (s : S) (ip : Nat) : Option P := v.find (v.front s).unconditional ip

/-- The entry that a conditional branch has after its update, if it has one. -/
def Variant.recorded (s : S) (c : C) : Option E :=
  match v.call c with
  | .update ip _ _ .conditional => (v.step s c).bind (fun t => v.conditional t ip)
  | _ => none

/-- A return makes the entry of its call the current one and publishes the return footprint of that entry. Up to the
next branch that enters a region, this footprint takes in every access within its range, and no other footprint changes. -/
structure Served (s : S) (c : C) (t : S) : Prop where
  current : (v.front t).shotgun = ⟨v.lookup s (v.callIp s), .ret⟩
  published : ∀ p e, v.lookup s (v.callIp s) = some p → Store.get (v.front s).unconditional p = some e →
    (v.front t).prefetchRegion = publish (v.order c) e.returnFootprint (BtbEntry.target e.base) (v.front s).prefetchRegion ∧
      Store.get (v.front t).unconditional p = some { e with returnFootprint := ∅ }
  attached : ∀ cs u, (∀ d ∈ cs, enters (v.call d) = false) → run v.step t cs = some u →
    ∀ p e, v.lookup s (v.callIp s) = some p → Store.get (v.front s).unconditional p = some e →
      ∃ footprint, footprintAt (v.front u).unconditional p false = some footprint ∧
        ∀ block, (footprint.lookup block).getD [] = (emits v.step v.recorded t cs).filter
          (inRegion (BtbEntry.ipTag e.base >>> logBlockSize) block)
  others : ∀ cs u, (∀ d ∈ cs, enters (v.call d) = false) → run v.step t cs = some u →
    ∀ p side, ¬(v.lookup s (v.callIp s) = some p ∧ side = false) →
      footprintAt (v.front u).unconditional p side = footprintAt (v.front t).unconditional p side

def ServesReturns (s₀ : S) (cs : List C) : Prop :=
  EveryStep v.step s₀ (fun _ s c => ∀ ip target taken t, v.call c = .update ip target taken .ret → v.callIp s ≠ 0 →
    v.step s c = some t → Served v s c t) cs

/-- What has to be known of a variant: its returns look `key` up, its conditional branches are recorded, and
the calls that enter no region leave the pointer where it is. -/
structure Variant.LooksUp (key : S → Nat → Nat) : Prop where
  ret : ∀ s c ip target taken, v.call c = .update ip target taken .ret →
    ∃ t, v.step s c = some t ∧ v.front t = updateCurrent (v.order c) (v.front s) (v.lookup s (key s ip)) .ret
  records : ∀ s c t ip target taken, v.call c = .update ip target taken .conditional → v.step s c = some t →
    Attached (v.front s) (v.front t) (v.conditional t ip).toList
  quiet : ∀ s c t, idle (v.call c) = true → v.step s c = some t → Attached (v.front s) (v.front t) []

variable {v} {key : S → Nat → Nat}

omit [BtbEntry E] [Store U P (FootprintEntry E)] in
theorem Variant.recorded_of_idle {c : C} (hc : idle (v.call c) = true) (s : S) : v.recorded s c = none := by
  rw [recorded]
  split
  · rename_i heq
    rw [heq] at hc
    cases hc
  · rfl

theorem Variant.LooksUp.attached (hv : v.LooksUp key) {s t : S} {c : C} (hc : enters (v.call c) = false)
    (ht : v.step s c = some t) : Attached (v.front s) (v.front t) (v.recorded s c).toList := by
  rcases conditional_or_idle hc with ⟨ip, target, taken, hcall⟩ | hidle
  · rw [recorded, hcall, ht]
    exact hv.records s c t ip target taken hcall ht
  · rw [recorded_of_idle hidle]
    exact hv.quiet s c t hidle ht

theorem Variant.LooksUp.run_attached (hv : v.LooksUp key) {s t : S} {cs : List C}
    (hcs : ∀ c ∈ cs, enters (v.call c) = false) (h : run v.step s cs = some t) :
    Attached (v.front s) (v.front t) (emits v.step v.recorded s cs) := by
  induction cs generalizing s with
  | nil =>
      rw [run_nil, Option.some.injEq] at h
      exact h ▸ .refl _
  | cons c cs ih =>
      rw [run_cons, Option.bind_eq_some_iff] at h
      obtain ⟨u, hu, h⟩ := h
      rw [emits_cons hu]
      exact (hv.attached (hcs c List.mem_cons_self) hu).trans (ih (fun d hd => hcs d (List.mem_cons_of_mem c hd)) h)

theorem Variant.LooksUp.served (hv : v.LooksUp key) {s t : S} {c : C} {ip target : Nat} {taken : Bool}
    (hc : v.call c = .update ip target taken .ret) (ht : v.step s c = some t)
    (heq : v.lookup s (key s ip) = v.lookup s (v.callIp s)) : Served v s c t := by
  obtain ⟨t', ht', hfront⟩ := hv.ret s c ip target taken hc
  rw [ht, Option.some.injEq] at ht'
  subst ht'
  rw [heq] at hfront
  have hshot : (v.front t).shotgun = ⟨v.lookup s (v.callIp s), .ret⟩ := by
    rw [hfront]
    exact updateCurrent_shotgun _ _ _ _
  have hempty : ∀ p e, v.lookup s (v.callIp s) = some p → Store.get (v.front s).unconditional p = some e →
      Store.get (v.front t).unconditional p = some { e with returnFootprint := ∅ } := by
    intro p e hp he
    rw [hfront, hp, updateCurrent_some he]
    exact get_modify_of_some he
  refine ⟨hshot, fun p e hp he => ⟨?_, hempty p e hp he⟩, ?_, ?_⟩
  · rw [hfront, hp, updateCurrent_some he]
    rfl
  · intro cs u hcs hu p e hp he
    have hregion : returnRegion (v.front t).unconditional p = some (BtbEntry.ipTag e.base, ∅) := by
      rw [returnRegion, hempty p e hp he]
      rfl
    obtain ⟨e', he', heq'⟩ := Option.map_eq_some_iff.mp
      ((hv.run_attached hcs hu).recorded p _ (hshot.trans (by rw [hp])) hregion)
    rw [Prod.mk.injEq] at heq'
    refine ⟨e'.returnFootprint, congrArg (Option.map _) he', fun block => ?_⟩
    rw [heq'.2, lookup_recordAccesses]
    rfl
  · intro cs u hcs hu p side hp
    refine (hv.run_attached hcs hu).others p side ?_
    rw [hshot]
    exact hp

theorem Variant.LooksUp.servesReturns_iff (hv : v.LooksUp key) (s₀ : S) (cs : List C) :
    ServesReturns v s₀ cs ↔ EveryStep v.step s₀ (fun _ s c => ∀ ip target taken,
      v.call c = .update ip target taken .ret → v.callIp s ≠ 0 → v.lookup s (key s ip) = v.lookup s (v.callIp s)) cs := by
  refine everyStep_congr ?_
  intro pre c post s _ _
  constructor
  · intro hserve ip target taken hc hpop
    obtain ⟨t, ht, hfront⟩ := hv.ret s c ip target taken hc
    have hcurrent := (hserve ip target taken t hc hpop ht).current
    rw [hfront, updateCurrent_shotgun] at hcurrent
    exact congrArg Shotgun.currentUnconditional hcurrent
  · intro hlook ip target taken t hc hpop ht
    exact hv.served hc ht (hlook ip target taken hc hpop)

end Thermometer.ShotgunFront
