import Thermometer.FdipShotgun
import Thermometer.ShotgunVisit

namespace Thermometer.ShotgunHandover

open Trace Lib.Tables Lib.Cells Lib.Runs ShotgunFootprint ShotgunFront ShotgunBasic ShotgunVisit FdipShotgun
open BasicBtb (Entry)

/-- The BTB and the prefetcher, which share the regions. -/
structure System where
  btb : ShotgunBasic.State
  fdip : Fdip

def System.initial : System := ⟨initializeBtb, .initial⟩

inductive Event
  | btb (o : IterOrder) (c : Call)
  | branch (ip : Nat) (ty : BranchType) (predictedTarget : Nat) (predictedTaken : Bool) (realTarget : Nat)
  | fetch (vAddr : Nat)
  | cycle (e : Cycle)
  | resolve (instr : Resolved) (decodeStage : Bool)

def predecode (s : ShotgunBasic.State) (a : PredecodeEntry) : Option ShotgunBasic.State :=
  prefetchBtb s a.ip a.target a.branchType a.taken true

def runCycle (c : Config) (s : System) (e : Cycle) : Option (ShotgunBasic.State × Outcome) :=
  let queue := predecoded c (tickDecodeQueue s.fdip.decodeQueue)
  (run predecode s.btb queue.1).map (fun b =>
    (b, cycleOperate c e { s.fdip with decodeQueue := queue.2 } b.front.prefetchRegion))

def withRegions (b : ShotgunBasic.State) (r : Regions) : ShotgunBasic.State :=
  { b with front := { b.front with prefetchRegion := r } }

def step (c : Config) (s : System) : Event → Option System
  | .btb o call => (ShotgunBasic.step s.btb (o, call)).map (fun b => { s with btb := b })
  | .branch ip ty predictedTarget predictedTaken realTarget =>
      some { s with fdip := branchOperate s.fdip ip ty predictedTarget predictedTaken realTarget }
  | .fetch vAddr => some { s with fdip := cacheOperate c s.fdip vAddr }
  | .cycle e => (runCycle c s e).map (fun x => ⟨withRegions x.1 x.2.regions, x.2.fdip⟩)
  | .resolve instr decodeStage => some { s with fdip := (resolvedBranchOperate c s.fdip instr decodeStage).1 }

def looked (c : Config) (s : System) (e : Cycle) : Option (Nat × List Nat) := (runCycle c s e).bind (fun x => x.2.looked)

def region (s : System) (key : Nat) : List Nat := s.btb.front.prefetchRegion key

structure Publishes (s : ShotgunBasic.State) (call : Call) (v : Visit) (e : FootprintEntry Entry) : Prop where
  visit : visit s call = some v
  entry : ∃ p, v.slot = some p ∧ Store.get v.unconditional p = some e
  nonempty : e.footprint (v.branchType != .ret) ≠ ∅

def publishedKey (v : Visit) (e : FootprintEntry Entry) : Nat := prefetchKey (v.branchType != .ret) e

def Touches (c : Config) (s : System) (key : Nat) : Event → Prop
  | .btb _ call => ∃ v e, Publishes s.btb call v e ∧ publishedKey v e = key
  | .cycle e => ∃ l, looked c s e = some (key, l)
  | _ => False

variable {c : Config} {s t : System} {k : Nat}

theorem publish_empty (o : IterOrder) {footprint : Footprint Entry} (h : footprint = ∅) (j : Nat) (r : Regions) :
    publish o footprint j r = r := by
  have hnil : iterate o footprint = [] := by
    rw [iterate_eq_nil, h]
    rfl
  rw [publish, hnil]
  rfl

theorem updateCurrent_region {o : IterOrder} {b : ShotgunBasic.State} {call : Call} {v : Visit} (hv : visit b call = some v)
    (h : ∀ e, Publishes b call v e → publishedKey v e ≠ k) :
    (updateCurrent o { b.front with unconditional := v.unconditional } v.slot v.branchType).prefetchRegion k =
      b.front.prefetchRegion k := by
  cases hp : v.slot with
  | none => rfl
  | some p =>
      cases he : Store.get v.unconditional p with
      | none => simp only [updateCurrent, he]
      | some e =>
          rw [updateCurrent_some he]
          by_cases hempty : e.footprint (v.branchType != .ret) = ∅
          · exact congrFun (publish_empty o hempty _ _) k
          · exact publish_ne o _ _ (Ne.symm (h e ⟨hv, ⟨p, hp, he⟩, hempty⟩))

theorem predecode_regions {b b' : ShotgunBasic.State} {as : List PredecodeEntry} (h : run predecode b as = some b') :
    b'.front.prefetchRegion = b.front.prefetchRegion := by
  refine run_preserves (I := fun x => x.front.prefetchRegion = b.front.prefetchRegion) ?_ rfl h
  intro x y a _ hx hy
  rw [prefetchBtb_front hy, hx]

theorem looked_region {e : Cycle} {l : List Nat} (h : looked c s e = some (k, l)) : l = region s k := by
  obtain ⟨⟨b, x⟩, hx, hl⟩ := Option.bind_eq_some_iff.mp h
  obtain ⟨b', hb, heq⟩ := Option.map_eq_some_iff.mp hx
  obtain ⟨rfl, rfl⟩ := Prod.mk.inj heq
  rw [((cycleOperate_reads c e _ _).taken k l hl).1, predecode_regions hb]
  rfl

/-- A region stays as it is until somebody publishes it anew or takes it. -/
theorem step_region {ev : Event} (hq : ¬Touches c s k ev) (h : step c s ev = some t) : region t k = region s k := by
  cases ev with
  | branch ip ty predictedTarget predictedTaken realTarget => exact (Option.some.inj h) ▸ rfl
  | fetch vAddr => exact (Option.some.inj h) ▸ rfl
  | resolve instr decodeStage => exact (Option.some.inj h) ▸ rfl
  | btb o call =>
      obtain ⟨b, hb, rfl⟩ := Option.map_eq_some_iff.mp h
      show b.front.prefetchRegion k = s.btb.front.prefetchRegion k
      have hfront : FrontStep o s.btb call b.front := step_front hb
      generalize b.front = g at hfront
      cases hfront with
      | quiet u _ _ _ => rfl
      | record a _ _ => rw [(addFootprint_attached s.btb.front a).regions]
      | visit v hv _ => exact updateCurrent_region hv (fun e he hk => hq ⟨v, e, he, hk⟩)
  | cycle e =>
      obtain ⟨⟨b, x⟩, hx, rfl⟩ := Option.map_eq_some_iff.mp h
      have hnone : ∀ l, x.looked ≠ some (k, l) := by
        intro l hl
        refine hq ⟨l, ?_⟩
        rw [looked, hx]
        exact hl
      obtain ⟨b', hb, heq⟩ := Option.map_eq_some_iff.mp hx
      obtain ⟨rfl, rfl⟩ := Prod.mk.inj heq
      have hreads := cycleOperate_reads c e { s.fdip with
        decodeQueue := (predecoded c (tickDecodeQueue s.fdip.decodeQueue)).2 } b'.front.prefetchRegion
      show (cycleOperate c e _ b'.front.prefetchRegion).regions k = region s k
      have hsame : b'.front.prefetchRegion k = region s k := congrFun (predecode_regions hb) k
      cases hl : (cycleOperate c e { s.fdip with
          decodeQueue := (predecoded c (tickDecodeQueue s.fdip.decodeQueue)).2 } b'.front.prefetchRegion).looked with
      | none => rw [hreads.idle hl, hsame]
      | some a =>
          obtain ⟨j, l⟩ := a
          have hk : k ≠ j := fun hk => hnone l (hk ▸ hl)
          rw [(hreads.taken j l hl).2, Function.update_of_ne hk, hsame]

theorem run_region {evs : List Event} (hq : EveryStep (step c) s (fun _ w ev => ¬Touches c w k ev) evs)
    (h : run (step c) s evs = some t) : region t k = region s k :=
  EveryStep.preserves (I := fun w => region w k = region s k)
    (fun _ _ _ hI hP hw => (step_region hP hw).trans hI) rfl hq h

theorem Publishes.tag {b : ShotgunBasic.State} {ip target : Nat} {taken : Bool} {ty : BranchType} {v : Visit}
    {e : FootprintEntry Entry} (h : Publishes b (.update ip target taken ty) v e) (hty : ty ≠ .ret) :
    BtbEntry.ipTag e.base = ip := by
  obtain ⟨p, hp, he⟩ := h.entry
  have hv := h.visit
  rw [ShotgunVisit.visit] at hv
  split_ifs at hv
  exact visitUnconditional_tag hv hp he

/-- In a run, a branch publishes a footprint, and later the run-ahead follows that
branch and looks its region up, with nobody touching that region in between. -/
structure Handover (c : Config) (s₀ : System) (evs : List Event) where
  before : List Event
  o : IterOrder
  ip : Nat
  target : Nat
  taken : Bool
  ty : BranchType
  between : List Event
  cycle : Cycle
  rest : List Event
  split : evs = before ++ .btb o (.update ip target taken ty) :: (between ++ .cycle cycle :: rest)
  s : System
  t : System
  u : System
  reached : run (step c) s₀ before = some s
  stepped : step c s (.btb o (.update ip target taken ty)) = some t
  passed : run (step c) t between = some u
  visit : Visit
  entry : FootprintEntry Entry
  published : Publishes s.btb (.update ip target taken ty) visit entry
  quiet : EveryStep (step c) t (fun _ w ev => ¬Touches c w ip ev) between
  found : List Nat
  looked : looked c u cycle = some (ip, found)

def Handover.key {s₀ : System} {evs : List Event} (h : Handover c s₀ evs) : Nat := publishedKey h.visit h.entry

/-- The list was put where it is looked up, and it is found there as it was put. -/
def HandsOver (c : Config) (s₀ : System) (evs : List Event) : Prop :=
  ∀ h : Handover c s₀ evs, h.key = h.ip ∧ h.found = region h.t h.key

/-- A return whose call jumps to the return itself. -/
def CallsReturn (c : Config) (s₀ : System) (evs : List Event) : Prop :=
  ∀ h : Handover c s₀ evs, h.ty = .ret → BtbEntry.target h.entry.base = h.ip

theorem Handover.key_of_ret {s₀ : System} {evs : List Event} (h : Handover c s₀ evs) (hty : h.ty = .ret) :
    h.key = BtbEntry.target h.entry.base := by
  rw [key, publishedKey, visit_branchType h.published.visit, hty]
  rfl

theorem Handover.key_of_call {s₀ : System} {evs : List Event} (h : Handover c s₀ evs) (hty : h.ty ≠ .ret) :
    h.key = h.ip := by
  rw [key, publishedKey, visit_branchType h.published.visit, bne_iff_ne.mpr hty]
  exact h.published.tag hty

/-- Calls and jumps hand their footprints over. A return does so only when it is the
target of the call it pops. -/
theorem handsOver_iff (c : Config) (evs : List Event) :
    HandsOver c .initial evs ↔ CallsReturn c .initial evs := by
  constructor
  · intro h x hty
    rw [← x.key_of_ret hty]
    exact (h x).1
  · intro h x
    have hkey : x.key = x.ip := by
      by_cases hty : x.ty = .ret
      · rw [x.key_of_ret hty]
        exact h x hty
      · exact x.key_of_call hty
    refine ⟨hkey, ?_⟩
    rw [looked_region x.looked, run_region x.quiet x.passed, hkey]

def plainConfig : Config := ⟨false, 0, 32⟩

/-- A function is called and returns, a branch behind the call is seen, and it is called again. -/
def calledTwice : List Event :=
  [.btb .stored (.predict 4096 .directCall), .btb .stored (.update 4096 8192 true .directCall),
    .btb .stored (.predict 8196 .ret), .branch 8196 .ret 4101 true 4101, .btb .stored (.update 8196 4101 true .ret),
    .btb .stored (.update 4104 4200 true .conditional), .btb .stored (.predict 4096 .directCall),
    .btb .stored (.update 4096 8192 true .directCall), .resolve ⟨4096, 1, 8192, false, false⟩ false,
    .btb .stored (.predict 8196 .ret)]

def secondReturn : Call := .update 8196 4101 true .ret

def freeCycle : Cycle := ⟨[10], fun _ => true⟩

/-- The return publishes under the target of its call, and the run-ahead finds nothing under the return. -/
theorem return_footprint_not_found :
    ¬HandsOver plainConfig .initial (calledTwice ++ .btb .stored secondReturn :: ([] ++ .cycle freeCycle :: [])) := by
  have hrun : (run (step plainConfig) .initial calledTwice).any (fun s =>
      (visit s.btb secondReturn).any (fun v => v.branchType == .ret && v.slot.any (fun p =>
        (Store.get v.unconditional p).any (fun e => size e.returnFootprint == 1 && e.base.target == 8192))) &&
      (step plainConfig s (.btb .stored secondReturn)).any (fun t =>
        looked plainConfig t freeCycle == some (8196, []))) = true := by decide +kernel
  obtain ⟨s, hs, hf⟩ := (Option.any_eq_true _ _).mp hrun
  simp only [Bool.and_eq_true, Option.any_eq_true, beq_iff_eq] at hf
  obtain ⟨⟨v, hv, hret, p, hp, e, he, hsize, htarget⟩, t, ht, hlooked⟩ := hf
  intro h
  have hne : e.footprint (v.branchType != .ret) ≠ ∅ := by
    rw [hret]
    intro hempty
    have hempty : e.returnFootprint = ∅ := hempty
    rw [hempty] at hsize
    cases hsize
  have hkey := (h ⟨calledTwice, .stored, 8196, 4101, true, .ret, [], freeCycle, [], rfl, s, t, t, hs, ht, rfl, v, e,
    ⟨hv, ⟨p, hp, he⟩, hne⟩, (by intro pre c post s heq; exact absurd heq (by simp)), [], hlooked⟩).1
  have hkey : publishedKey v e = 8196 := hkey
  rw [publishedKey, hret] at hkey
  have hkey : e.base.target = 8196 := hkey
  rw [htarget] at hkey
  cases hkey

end Thermometer.ShotgunHandover
