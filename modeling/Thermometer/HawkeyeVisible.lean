import Thermometer.HawkeyeBtb

namespace Thermometer.HawkeyeVisible

open Trace hiding setIndex
open Lib.Runs HawkeyeBtb
open HawkeyeReplacement hiding State

def KeepsAverse (r r' : HawkeyeReplacement.State) (set way : Nat) : Prop :=
  ∀ i j, ¬(i = set ∧ j = way) → r.rrpv i j = maxRRPV → r'.rrpv i j = maxRRPV

variable {r r' : HawkeyeReplacement.State} {c : Access} {set way : Nat}

theorem KeepsAverse.trans {r'' : HawkeyeReplacement.State} (h : KeepsAverse r r' set way) (h' : KeepsAverse r' r'' set way) :
    KeepsAverse r r'' set way := fun i j hij hmax => h' i j hij (h i j hij hmax)

theorem keepsAverse_of_eq (h : r'.rrpv = r.rrpv) : KeepsAverse r r' set way := by
  intro i j _ hmax
  rw [h]
  exact hmax

theorem setRrpv_averse (r : HawkeyeReplacement.State) (set way n : Nat) : KeepsAverse r (setRrpv r set way n) set way := by
  intro i j hij hmax
  change Function.update r.rrpv set (Function.update (r.rrpv set) way n) i j = _
  by_cases hi : i = set
  · subst hi
    have hj : j ≠ way := fun hj => hij ⟨rfl, hj⟩
    rw [Function.update_self, Function.update_of_ne hj]
    exact hmax
  · rw [Function.update_of_ne hi]
    exact hmax

theorem age_averse (r : HawkeyeReplacement.State) (set way : Nat) : KeepsAverse r (age r set) set way := by
  intro i j _ hmax
  rw [age]
  split_ifs
  · exact hmax
  · change Function.update r.rrpv set _ i j = _
    by_cases hi : i = set
    · subst hi
      have hno : ¬(j < basicBtbWays ∧ r.rrpv i j < maxRRPV - 1) := by
        rintro ⟨-, hlt⟩
        rw [hmax] at hlt
        exact absurd hlt (by decide)
      rw [Function.update_self, if_neg hno]
      exact hmax
    · rw [Function.update_of_ne hi]
      exact hmax

theorem placeLine_averse (r : HawkeyeReplacement.State) (c : Access) : KeepsAverse r (placeLine r c) c.set c.way := by
  rw [placeLine]
  generalize hr₁ : ({ r with signatures := Function.update r.signatures c.set (Function.update (r.signatures c.set) c.way c.pc) } :
    HawkeyeReplacement.State) = r₁
  have h₁ : KeepsAverse r r₁ c.set c.way := keepsAverse_of_eq (by rw [← hr₁])
  have hzero := h₁.trans (setRrpv_averse r₁ c.set c.way 0)
  simp only
  generalize (if c.type = .prefetch then r.prefetchPredictor else r.demandPredictor).getPrediction c.pc = friendly
  cases friendly with
  | false => exact h₁.trans (setRrpv_averse r₁ c.set c.way maxRRPV)
  | true =>
      cases c.hit with
      | true => exact hzero.trans (setRrpv_averse _ c.set c.way 0)
      | false => exact (hzero.trans (age_averse _ c.set c.way)).trans (setRrpv_averse _ c.set c.way 0)

theorem updateReplacementState_averse (hr : HawkeyeSampler.Invariant r) (h : updateReplacementState r c = some r') :
    KeepsAverse r r' c.set c.way := by
  have hr₁ : HawkeyeSampler.Invariant (setPrefetched r c) := ⟨hr.ranked, hr.full, hr.optgen, hr.rrpv⟩
  have hprefetched : KeepsAverse r (setPrefetched r c) c.set c.way := keepsAverse_of_eq rfl
  rw [updateReplacementState] at h
  by_cases hwriteback : c.type = .writeback
  · simp only [if_pos hwriteback, Option.some.injEq] at h
    exact h ▸ hprefetched
  · simp only [if_neg hwriteback] at h
    by_cases hsampled : sampledSet c.set = true
    · obtain ⟨u, hu, hsample⟩ := HawkeyeSampler.sample_total hr₁ c
      rw [if_pos hsampled, hu, Option.map_some, Option.some.injEq] at h
      have hstamp : KeepsAverse r (stampAccess u c) c.set c.way := keepsAverse_of_eq hsample.rrpv
      exact h ▸ hstamp.trans (placeLine_averse _ c)
    · rw [if_neg hsampled, Option.some.injEq] at h
      exact h ▸ hprefetched.trans (placeLine_averse _ c)

def storesTarget : Call → Bool
  | .predict _ _ => false
  | .update _ _ taken ty => ty.usesBtb && taken
  | .prefetch _ _ ty taken _ => ty.usesBtb && taken

/-- The way whose target a call writes. -/
def wrote (s : State) (c : Call) : Option Nat :=
  if storesTarget c then
    match findEntry s c.ip with
    | some way => some way
    | none => if c.allocates then (getVictimInSet s.replacement (setIndex c.ip)).map Prod.snd else none
  else none

def exchange (btb : Nat → Nat → Entry) (set way : Nat) (e : Entry) : Nat → Nat → Entry :=
  Function.update btb set (Function.update (btb set) way e)

/-- What a step can do to the ways. -/
inductive Effect (s : State) (c : Call) (s' : State) : Prop
  | idle : s'.btb = s.btb → s'.replacement = s.replacement → wrote s c = none → Effect s c s'
  | used (way : Nat) (e : Entry) : findEntry s c.ip = some way → s'.btb = exchange s.btb (setIndex c.ip) way e →
      e.ipTag = c.ip → (wrote s c = some way ∨ wrote s c = none ∧ e.target = (s.btb (setIndex c.ip) way).target) →
      KeepsAverse s.replacement s'.replacement (setIndex c.ip) way → Effect s c s'
  | filled (way : Nat) (e : Entry) : findEntry s c.ip = none → c.allocates = true → way < basicBtbWays →
      (s.replacement.rrpv (setIndex c.ip) way = maxRRPV ∧ (∀ j < way, s.replacement.rrpv (setIndex c.ip) j ≠ maxRRPV) ∨
        ∀ j < basicBtbWays, s.replacement.rrpv (setIndex c.ip) j ≠ maxRRPV) →
      s'.btb = exchange s.btb (setIndex c.ip) way e → e.target = c.branchTarget →
      e.ipTag = (if c.isPrefetch ∧ (s.btb (setIndex c.ip) way).ipTag = 0 then 0 else c.ip) → wrote s c = some way →
      KeepsAverse s.replacement s'.replacement (setIndex c.ip) way → Effect s c s'

variable {s s' : State} {ip branchTarget : Nat} {c : Call} {taken toStreamBuffer : Bool} {ty : BranchType}

theorem touchLine_total (s : State) (h : HawkeyeSampler.Invariant s.replacement) (ip way : Nat) (type : AccessType)
    (hit : Bool) :
    ∃ r', touchLine s ip way type hit = some { s with replacement := r' } ∧ HawkeyeSampler.Invariant r' ∧
      KeepsAverse s.replacement r' (setIndex ip) way := by
  obtain ⟨r', hr', hinv⟩ := HawkeyeSampler.step_invariant h ⟨setIndex ip, way, ip, ip, type, hit⟩
  refine ⟨r', ?_, hinv, updateReplacementState_averse h hr'⟩
  rw [touchLine, hr']
  rfl

structure Stepped (s : State) (c : Call) (s' : State) : Prop where
  effect : Effect s c s'
  replacement : HawkeyeSampler.Invariant s'.replacement
  stream : StreamBuffer.Bounded s'.stream

theorem fill_stepped (hr : HawkeyeSampler.Invariant s.replacement) (hfind : findEntry s c.ip = none)
    (halloc : c.allocates = true) (hstore : storesTarget c = true) {f : Entry → Entry}
    (hf : ∀ e, (f e).target = c.branchTarget ∧ (f e).ipTag = if c.isPrefetch ∧ e.ipTag = 0 then 0 else c.ip)
    (type : AccessType) (s₁ : State) (hbtb : s₁.btb = s.btb) (hrep : s₁.replacement = s.replacement)
    (hstream : StreamBuffer.Bounded s₁.stream) :
    ∃ s', (getVictimInSet s₁.replacement (setIndex c.ip)).bind (fun v =>
      touchLine (({ s₁ with replacement := v.1 } : State).modify (setIndex c.ip) v.2 f) c.ip v.2 type false) = some s' ∧
      Stepped s c s' := by
  obtain ⟨r', way, hget, hway, hinv, hsame, hvictim⟩ := getVictimInSet_total hr (setIndex c.ip)
  obtain ⟨r'', htouch, hinv', haverse⟩ := touchLine_total
    (({ s₁ with replacement := r' } : State).modify (setIndex c.ip) way f) hinv c.ip way type false
  have hwrote : wrote s c = some way := by
    simp only [wrote, if_pos hstore, hfind, if_pos halloc, hget]
    rfl
  obtain ⟨htarget, htag⟩ := hf (s.btb (setIndex c.ip) way)
  rw [hrep, hget]
  refine ⟨_, htouch, ?_, hinv', hstream⟩
  refine .filled way (f (s.btb (setIndex c.ip) way)) hfind halloc hway hvictim ?_ htarget htag hwrote
    ((keepsAverse_of_eq hsame).trans haverse)
  rw [← hbtb]
  rfl

theorem exchange_self (btb : Nat → Nat → Entry) (set way : Nat) : exchange btb set way (btb set way) = btb := by
  rw [exchange, Function.update_eq_self, Function.update_eq_self]

theorem used_stepped {r' : HawkeyeReplacement.State} (hfind : findEntry s c.ip = some way)
    (hstore : storesTarget c = taken) (hr' : HawkeyeSampler.Invariant r')
    (haverse : KeepsAverse s.replacement r' (setIndex c.ip) way) (s₁ : State) (hbtb : s₁.btb = s.btb)
    (hrep : s₁.replacement = r') (hstream : StreamBuffer.Bounded s₁.stream) (target : Nat) :
    Stepped s c (updateExisting s₁ c.ip way target taken) := by
  obtain ⟨-, htag⟩ := findEntry_eq_some hfind
  refine ⟨?_, hrep ▸ hr', hstream⟩
  have hwrote : wrote s c = if taken then some way else none := by
    rw [wrote, hstore, hfind]
  let e := s.btb (setIndex c.ip) way
  refine .used way (if taken then { e with target := target } else { e with alwaysTaken := false }) hfind ?_ ?_ ?_ ?_
  · change exchange s₁.btb (setIndex c.ip) way (if taken then { s₁.btb (setIndex c.ip) way with target := target }
      else { s₁.btb (setIndex c.ip) way with alwaysTaken := false }) = _
    rw [hbtb]
  · cases taken <;> exact htag
  · cases taken with
    | true => exact .inl hwrote
    | false => exact .inr ⟨hwrote, rfl⟩
  · exact hrep ▸ haverse

theorem wrote_eq_none (hfind : findEntry s c.ip = none) (halloc : c.allocates = false) : wrote s c = none := by
  simp [wrote, hfind, halloc]

theorem fillPrefetched_spec (ip branchTarget : Nat) (e : Entry) : (fillPrefetched ip branchTarget e).target = branchTarget ∧
    (fillPrefetched ip branchTarget e).ipTag = if e.ipTag = 0 then 0 else ip := by
  rw [fillPrefetched]
  by_cases he : e.ipTag = 0 <;> simp [he]

theorem predict_stepped (hr : HawkeyeSampler.Invariant s.replacement) (hb : StreamBuffer.Bounded s.stream) (ip : Nat)
    (ty : BranchType) : ∃ s', step s (.predict ip ty) = some s' ∧ Stepped s (.predict ip ty) s' := by
  have hwrote : wrote s (.predict ip ty) = none := rfl
  rw [step, btbPrediction]
  rcases SideTables.predict s.side ip ty with ⟨side, r⟩
  cases r with
  | some r => exact ⟨_, rfl, .idle rfl rfl hwrote, hr, hb⟩
  | none =>
      have hsame : findEntry { s with side := side } ip = findEntry s ip := rfl
      simp only [hsame]
      cases hfind : findEntry s ip with
      | none => exact ⟨_, rfl, .idle rfl rfl hwrote, hr, hb⟩
      | some way =>
          obtain ⟨r', htouch, hinv, haverse⟩ := touchLine_total { s with side := side } hr ip way .load true
          simp only [htouch]
          refine ⟨_, rfl, ?_, hinv, hb⟩
          exact .used way (s.btb (setIndex ip) way) hfind (exchange_self _ _ _).symm (findEntry_eq_some hfind).2
            (.inr ⟨hwrote, rfl⟩) haverse

theorem update_stepped (hr : HawkeyeSampler.Invariant s.replacement) (hb : StreamBuffer.Bounded s.stream)
    (ip target : Nat) (taken : Bool) (ty : BranchType) :
    ∃ s', step s (.update ip target taken ty) = some s' ∧ Stepped s (.update ip target taken ty) s' := by
  rw [step, updateBtb]
  by_cases hty : ty.usesBtb = true
  · have hsame : findEntry { s with side := SideTables.update s.side ip target taken ty } ip = findEntry s ip := rfl
    have hstore : storesTarget (.update ip target taken ty) = taken := by simp [storesTarget, hty]
    simp only [if_pos hty, hsame]
    cases hfind : findEntry s ip with
    | some way =>
        let s₁ : State := { s with side := SideTables.update s.side ip target taken ty }
        have hused := used_stepped hfind hstore hr (keepsAverse_of_eq rfl) s₁ rfl rfl hb target
        exact ⟨_, rfl, hused⟩
    | none =>
        have hb' := StreamBuffer.update_bounded hb ip
        by_cases halloc : target ≠ 0 ∧ taken = true
        · let s₁ : State := { s with
            side := SideTables.update s.side ip target taken ty
            stream := (StreamBuffer.streamBufferUpdate s.stream ip).1 }
          simp only [if_pos halloc]
          exact fill_stepped (c := .update ip target taken ty) (f := fun _ => ⟨ip, target, true⟩) hr hfind
            (Call.update_allocates_iff.mpr ⟨hty, halloc⟩) (hstore.trans halloc.2)
            (fun e => ⟨rfl, by simp [Call.isPrefetch, Call.ip]⟩) .load s₁ rfl rfl hb'
        · simp only [if_neg halloc]
          exact ⟨_, rfl, .idle rfl rfl (wrote_eq_none hfind (Call.update_idle halloc)), hr, hb'⟩
  · simp only [if_neg hty]
    refine ⟨_, rfl, .idle rfl rfl ?_, hr, hb⟩
    simp [wrote, storesTarget, hty]

theorem prefetch_stepped (hr : HawkeyeSampler.Invariant s.replacement) (hb : StreamBuffer.Bounded s.stream)
    (ip target : Nat) (ty : BranchType) (taken toStreamBuffer : Bool) :
    ∃ s', step s (.prefetch ip target ty taken toStreamBuffer) = some s' ∧
      Stepped s (.prefetch ip target ty taken toStreamBuffer) s' := by
  rw [step, prefetchBtb]
  by_cases hty : ty.usesBtb = true
  · have hstore : storesTarget (.prefetch ip target ty taken toStreamBuffer) = taken := by simp [storesTarget, hty]
    simp only [if_pos hty]
    cases hfind : findEntry s ip with
    | some way =>
        obtain ⟨r', htouch, hinv, haverse⟩ := touchLine_total s hr ip way .prefetch true
        simp only [htouch]
        let s₁ : State := { s with replacement := r' }
        have hused := used_stepped hfind hstore hinv haverse s₁ rfl rfl hb target
        exact ⟨_, rfl, hused⟩
    | none =>
        by_cases halloc : target ≠ 0 ∧ taken = true
        · simp only [if_pos halloc]
          by_cases hto : toStreamBuffer = true
          · obtain ⟨b, hpush, hb'⟩ := StreamBuffer.prefetch_bounded hb ip halloc.1
            simp only [if_pos hto, hpush]
            refine ⟨_, rfl, .idle rfl rfl (wrote_eq_none hfind ?_), hr, hb'⟩
            simp [Call.allocates, hto]
          · simp only [if_neg hto]
            refine fill_stepped (c := .prefetch ip target ty taken toStreamBuffer) (f := fillPrefetched ip target) hr hfind
              (Call.prefetch_allocates_iff.mpr ⟨hty, halloc, Bool.eq_false_iff.mpr hto⟩) (hstore.trans halloc.2)
              (fun e => ?_) .prefetch s rfl rfl hb
            obtain ⟨htarget, htag⟩ := fillPrefetched_spec ip target e
            exact ⟨htarget, by simp [htag, Call.isPrefetch, Call.ip]⟩
        · simp only [if_neg halloc]
          exact ⟨_, rfl, .idle rfl rfl (wrote_eq_none hfind (Call.prefetch_idle halloc)), hr, hb⟩
  · simp only [if_neg hty]
    refine ⟨_, rfl, .idle rfl rfl ?_, hr, hb⟩
    simp [wrote, storesTarget, hty]

theorem step_stepped (hr : HawkeyeSampler.Invariant s.replacement) (hb : StreamBuffer.Bounded s.stream) (c : Call) :
    ∃ s', step s c = some s' ∧ Stepped s c s' := by
  cases c with
  | predict ip ty => exact predict_stepped hr hb ip ty
  | update ip target taken ty => exact update_stepped hr hb ip target taken ty
  | prefetch ip target ty taken toStreamBuffer => exact prefetch_stepped hr hb ip target ty taken toStreamBuffer

/-! Which branch a stored target belongs to is not part of the state, so runs are
watched: beside each state stands the branch of the last call that wrote to a way. -/

abbrev Watched := State × (Nat → Nat → Nat)

def watch (w : Watched) (c : Call) : Option Watched :=
  (step w.1 c).map (fun s => (s, match wrote w.1 c with
    | some way => Function.update w.2 (setIndex c.ip) (Function.update (w.2 (setIndex c.ip)) way c.ip)
    | none => w.2))

def start : Watched := (initializeBtb, fun _ _ => 0)

/-- A way with a target has the tag of the branch whose target it is. -/
def Consistent (w : Watched) : Prop := ∀ set way, (w.1.btb set way).target ≠ 0 →
  (w.1.btb set way).ipTag ≠ 0 ∧ setIndex (w.1.btb set way).ipTag = set ∧ (w.1.btb set way).ipTag = w.2 set way

def Fills (s : State) (c : Call) : Prop := c.isPrefetch = true ∧ c.allocates = true ∧ findEntry s c.ip = none

def Visible (s : State) (c : Call) (s' : State) : Prop :=
  Fills s c → ∃ way, findEntry s' c.ip = some way ∧ (s'.btb (setIndex c.ip) way).target = c.branchTarget

def VictimUsed (s : State) (set : Nat) : Prop := ∀ way < basicBtbWays, s.replacement.rrpv set way = maxRRPV →
  (∀ j < way, s.replacement.rrpv set j ≠ maxRRPV) → (s.btb set way).ipTag ≠ 0

structure Sound (w : Watched) : Prop where
  replacement : HawkeyeSampler.Invariant w.1.replacement
  stream : StreamBuffer.Bounded w.1.stream
  unused : ∀ set, ∀ way < basicBtbWays, (w.1.btb set way).ipTag = 0 → w.1.replacement.rrpv set way = maxRRPV
  consistent : Consistent w

variable {w w' : Watched}

theorem sound_start : Sound start :=
  ⟨HawkeyeSampler.initial_invariant, StreamBuffer.bounded_empty (by decide), fun _ _ _ _ => rfl, fun _ _ h => absurd rfl h⟩

theorem exchange_eq (btb : Nat → Nat → Entry) (set way : Nat) (e : Entry) (i j : Nat) :
    exchange btb set way e i j = if i = set ∧ j = way then e else btb i j := by
  rw [exchange]
  by_cases hi : i = set
  · subst hi
    rw [Function.update_self]
    by_cases hj : j = way
    · rw [hj, Function.update_self, if_pos ⟨rfl, rfl⟩]
    · rw [Function.update_of_ne hj, if_neg (fun h => hj h.2)]
  · rw [Function.update_of_ne hi, if_neg (fun h => hi h.1)]

theorem owner_eq (o : Nat → Nat → Nat) (set way ip i j : Nat) :
    Function.update o set (Function.update (o set) way ip) i j = if i = set ∧ j = way then ip else o i j := by
  by_cases hi : i = set
  · subst hi
    rw [Function.update_self]
    by_cases hj : j = way
    · rw [hj, Function.update_self, if_pos ⟨rfl, rfl⟩]
    · rw [Function.update_of_ne hj, if_neg (fun h => hj h.2)]
  · rw [Function.update_of_ne hi, if_neg (fun h => hi h.1)]

/-- A way that was not in use is the victim only if the leftmost averse way is
not in use. -/
theorem used_of_victimUsed (h : Sound w) {set way : Nat} (hway : way < basicBtbWays) (hused : VictimUsed w.1 set)
    (hvictim : w.1.replacement.rrpv set way = maxRRPV ∧ (∀ j < way, w.1.replacement.rrpv set j ≠ maxRRPV) ∨
      ∀ j < basicBtbWays, w.1.replacement.rrpv set j ≠ maxRRPV) : (w.1.btb set way).ipTag ≠ 0 := by
  rcases hvictim with ⟨hmax, hleft⟩ | hno
  · exact hused way hway hmax hleft
  · exact fun hzero => hno way hway (h.unused set way hway hzero)

theorem exchange_sound (h : Sound w) (hc : c.ip ≠ 0) {e : Entry} (htag : e.ipTag = c.ip) {s' : State}
    (hs : Stepped w.1 c s') (hbtb : s'.btb = exchange w.1.btb (setIndex c.ip) way e)
    (haverse : KeepsAverse w.1.replacement s'.replacement (setIndex c.ip) way) {o : Nat → Nat → Nat}
    (ho : e.target ≠ 0 → o (setIndex c.ip) way = c.ip)
    (hrest : ∀ i j, ¬(i = setIndex c.ip ∧ j = way) → o i j = w.2 i j) : Sound (s', o) := by
  refine ⟨hs.replacement, hs.stream, ?_, ?_⟩
  · intro i j hj hzero
    rw [hbtb, exchange_eq] at hzero
    by_cases hij : i = setIndex c.ip ∧ j = way
    · rw [if_pos hij, htag] at hzero
      exact absurd hzero hc
    · rw [if_neg hij] at hzero
      exact haverse i j hij (h.unused i j hj hzero)
  · intro i j htarget
    rw [hbtb, exchange_eq] at htarget ⊢
    by_cases hij : i = setIndex c.ip ∧ j = way
    · rw [if_pos hij] at htarget ⊢
      obtain ⟨rfl, rfl⟩ := hij
      rw [htag]
      exact ⟨hc, rfl, (ho htarget).symm⟩
    · rw [if_neg hij] at htarget ⊢
      obtain ⟨hne, hset, hown⟩ := h.consistent i j htarget
      exact ⟨hne, hset, hown.trans (hrest i j hij).symm⟩

theorem storesTarget_of_allocates (h : c.allocates = true) : storesTarget c = true := by
  cases c with
  | predict ip ty => cases h
  | update ip target taken ty =>
      obtain ⟨hty, -, htaken⟩ := Call.update_allocates_iff.mp h
      simp [storesTarget, hty, htaken]
  | prefetch ip target ty taken toStreamBuffer =>
      obtain ⟨hty, ⟨-, htaken⟩, -⟩ := Call.prefetch_allocates_iff.mp h
      simp [storesTarget, hty, htaken]

theorem Stepped.filled {s' : State} (h : Stepped s c s') (hr : HawkeyeSampler.Invariant s.replacement)
    (hfind : findEntry s c.ip = none)
    (halloc : c.allocates = true) : ∃ way e, way < basicBtbWays ∧
      (s.replacement.rrpv (setIndex c.ip) way = maxRRPV ∧ (∀ j < way, s.replacement.rrpv (setIndex c.ip) j ≠ maxRRPV) ∨
        ∀ j < basicBtbWays, s.replacement.rrpv (setIndex c.ip) j ≠ maxRRPV) ∧
      s'.btb = exchange s.btb (setIndex c.ip) way e ∧ e.target = c.branchTarget ∧
      e.ipTag = (if c.isPrefetch ∧ (s.btb (setIndex c.ip) way).ipTag = 0 then 0 else c.ip) ∧ wrote s c = some way ∧
      KeepsAverse s.replacement s'.replacement (setIndex c.ip) way := by
  cases h.effect with
  | idle _ _ hwrote =>
      obtain ⟨r', way, hget, -⟩ := getVictimInSet_total hr (setIndex c.ip)
      simp [wrote, storesTarget_of_allocates halloc, hfind, halloc, hget] at hwrote
  | used way e hsome => cases hfind.symm.trans hsome
  | filled way e _ _ hway hvictim hbtb htarget htag hwrote haverse =>
      exact ⟨way, e, hway, hvictim, hbtb, htarget, htag, hwrote, haverse⟩

theorem findEntry_exchange {s' : State} {e : Entry} (hfind : findEntry s c.ip = none) (hway : way < basicBtbWays)
    (hbtb : s'.btb = exchange s.btb (setIndex c.ip) way e) (htag : e.ipTag = c.ip) : findEntry s' c.ip = some way := by
  apply findEntry_of_unique hway
  · rw [hbtb, exchange_eq, if_pos ⟨rfl, rfl⟩, htag]
  · intro j hj hne
    rw [hbtb, exchange_eq, if_neg (fun h => hne h.2)]
    exact findEntry_eq_none.mp hfind j hj

/-- A step of a sound run, unless it is a prefetch that takes an unused way. -/
theorem step_sound (h : Sound w) (hc : c.ip ≠ 0) (hfit : Fills w.1 c → VictimUsed w.1 (setIndex c.ip)) :
    ∃ w', watch w c = some w' ∧ Sound w' ∧ Visible w.1 c w'.1 := by
  obtain ⟨s', hs', hstepped⟩ := step_stepped h.replacement h.stream c
  rw [watch, hs']
  refine ⟨_, rfl, ?_⟩
  cases hstepped.effect with
  | idle hbtb hrep hwrote =>
      simp only [hwrote]
      refine ⟨⟨hstepped.replacement, hstepped.stream, ?_, ?_⟩, ?_⟩
      · simp only [hbtb, hrep]
        exact h.unused
      · simp only [Consistent, hbtb]
        exact h.consistent
      · rintro ⟨-, halloc, hfind⟩
        obtain ⟨way, e, -, -, -, -, -, hsome, -⟩ := hstepped.filled h.replacement hfind halloc
        cases hwrote.symm.trans hsome
  | used way e hfind hbtb htag htarget haverse =>
      refine ⟨?_, fun hfills => by cases hfills.2.2.symm.trans hfind⟩
      rcases htarget with hwrote | ⟨hwrote, hsame⟩
      · simp only [hwrote]
        apply exchange_sound h hc htag hstepped hbtb haverse
        · intro _
          rw [owner_eq, if_pos ⟨rfl, rfl⟩]
        · intro i j hij
          rw [owner_eq, if_neg hij]
      · simp only [hwrote]
        apply exchange_sound h hc htag hstepped hbtb haverse _ (fun i j _ => rfl)
        intro hne
        rw [hsame] at hne
        rw [← (h.consistent (setIndex c.ip) way hne).2.2]
        exact (findEntry_eq_some hfind).2
  | filled way e hfind halloc hway hvictim hbtb htarget htag hwrote haverse =>
      have hown : e.ipTag = c.ip := by
        rw [htag, if_neg]
        rintro ⟨hprefetch, hzero⟩
        exact used_of_victimUsed h hway (hfit ⟨hprefetch, halloc, hfind⟩) hvictim hzero
      simp only [hwrote]
      refine ⟨?_, ?_⟩
      · apply exchange_sound h hc hown hstepped hbtb haverse
        · intro _
          rw [owner_eq, if_pos ⟨rfl, rfl⟩]
        · intro i j hij
          rw [owner_eq, if_neg hij]
      · intro _
        refine ⟨way, findEntry_exchange hfind hway hbtb hown, ?_⟩
        rw [hbtb, exchange_eq, if_pos ⟨rfl, rfl⟩]
        exact htarget

theorem step_inconsistent (h : Sound w) (hfills : Fills w.1 c) (hunused : ¬VictimUsed w.1 (setIndex c.ip))
    (hw' : watch w c = some w') : ¬Consistent w' := by
  obtain ⟨hprefetch, halloc, hfind⟩ := hfills
  obtain ⟨s', hs', hstepped⟩ := step_stepped h.replacement h.stream c
  rw [watch, hs', Option.map_some, Option.some.injEq] at hw'
  obtain ⟨way, e, hway, hvictim, hbtb, htarget, htag, -, -⟩ := hstepped.filled h.replacement hfind halloc
  obtain ⟨j, hj, hmax, hleft, hzero⟩ : ∃ j < basicBtbWays, w.1.replacement.rrpv (setIndex c.ip) j = maxRRPV ∧
      (∀ i < j, w.1.replacement.rrpv (setIndex c.ip) i ≠ maxRRPV) ∧ (w.1.btb (setIndex c.ip) j).ipTag = 0 := by
    simpa [VictimUsed] using hunused
  have heq : way = j := by
    rcases hvictim with ⟨hmax', hleft'⟩ | hno
    · rcases Nat.lt_trichotomy way j with hlt | heq | hgt
      · exact absurd hmax' (hleft way hlt)
      · exact heq
      · exact absurd hmax (hleft' j hgt)
    · exact absurd hmax (hno j hj)
  subst heq
  intro hconsistent
  have hentry : w'.1.btb (setIndex c.ip) way = e := by
    rw [← hw', hbtb, exchange_eq, if_pos ⟨rfl, rfl⟩]
  have htag' := (hconsistent (setIndex c.ip) way (by
    rw [hentry, htarget]
    exact Call.branchTarget_of_allocates halloc)).1
  rw [hentry, htag, if_pos ⟨hprefetch, hzero⟩] at htag'
  exact htag' rfl

/-- A prefetch of the run that makes an entry finds the leftmost averse way in use. -/
def Fits (w : Watched) (c : Call) : Prop := Fills w.1 c → VictimUsed w.1 (setIndex c.ip)

theorem run_sound {cs : List Call} (hcs : ∀ c ∈ cs, c.ip ≠ 0) (h : EveryStep watch start (fun _ => Fits) cs)
    (hrun : run watch start cs = some w) : Sound w := by
  have hgood : EveryStep watch start (fun _ w c => c.ip ≠ 0 ∧ Fits w c) cs := by
    refine h.imp (fun pre c post w heq _ hc => ⟨hcs c ?_, hc⟩)
    rw [heq]
    exact List.mem_append_right _ List.mem_cons_self
  refine hgood.preserves ?_ sound_start hrun
  rintro w w' c hw ⟨hc, hfit⟩ hstep
  obtain ⟨w'', hw'', hsound, -⟩ := step_sound hw hc hfit
  obtain rfl := Option.some.inj (hstep.symm.trans hw'')
  exact hsound

/-- In every run: prefetches are visible and targets have the tags of their
branches exactly if no prefetch makes its entry in a set whose leftmost averse
way is unused. -/
theorem prefetch_visible_iff (cs : List Call) (hcs : ∀ c ∈ cs, c.ip ≠ 0) :
    EveryStep watch start (fun _ w c => ∃ w', watch w c = some w' ∧ Visible w.1 c w'.1 ∧ Consistent w') cs ↔
      EveryStep watch start (fun _ => Fits) cs := by
  constructor
  · intro h
    induction cs using List.reverseRecOn with
    | nil =>
        intro pre c post w heq
        simp at heq
    | append_singleton cs c ih =>
        have hcs' : ∀ d ∈ cs, d.ip ≠ 0 := fun d hd => hcs d (List.mem_append_left _ hd)
        have hold := ih hcs' h.of_append
        apply hold.concat
        intro w hrun hfills
        obtain ⟨w', hw', -, hconsistent⟩ := h.last hrun
        by_contra hunused
        exact step_inconsistent (run_sound hcs' hold hrun) hfills hunused hw' hconsistent
  · intro h
    refine h.imp ?_
    intro pre c post w heq hrun hfit
    have hmem : ∀ d ∈ pre ++ [c], d ∈ cs := by
      intro d hd
      rw [heq]
      rcases List.mem_append.mp hd with hd | hd
      · exact List.mem_append_left _ hd
      · rw [List.mem_singleton.mp hd]
        exact List.mem_append_right _ List.mem_cons_self
    have hpre : EveryStep watch start (fun _ => Fits) pre := by
      rw [heq] at h
      exact h.of_append
    have hsound := run_sound (fun d hd => hcs d (hmem d (List.mem_append_left _ hd))) hpre hrun
    obtain ⟨w', hw', hsound', hvisible⟩ :=
      step_sound hsound (hcs c (hmem c (List.mem_append_right _ (List.mem_singleton_self c)))) hfit
    exact ⟨w', hw', hvisible, hsound'.consistent⟩

/-- A branch that fills the leftmost way, and a prefetch into the same set. -/
theorem prefetch_visible_iff_two :
    EveryStep watch start (fun _ w c => ∃ w', watch w c = some w' ∧ Visible w.1 c w'.1 ∧ Consistent w')
        [.update 4 64 true .directJump, .prefetch 8196 128 .directJump true false] ↔
      EveryStep watch start (fun _ => Fits) [.update 4 64 true .directJump, .prefetch 8196 128 .directJump true false] :=
  prefetch_visible_iff _ (by decide)

/-- The first prefetch of a run is not found afterwards. -/
theorem prefetch_lost : ¬∀ cs : List Call, (∀ c ∈ cs, c.ip ≠ 0) →
    EveryStep watch start (fun _ w c => ∃ w', watch w c = some w' ∧ Visible w.1 c w'.1 ∧ Consistent w') cs := by
  intro h
  let c : Call := .prefetch 4 64 .directJump true false
  have hlost : (watch start c).map (fun w => findEntry w.1 4) = some none := by decide +kernel
  have hfills : Fills start.1 c := ⟨rfl, rfl, by decide +kernel⟩
  obtain ⟨w', hw', hvisible, -⟩ := h [c] (by decide) [] c [] start rfl rfl
  obtain ⟨way, hfind, -⟩ := hvisible hfills
  rw [hw', Option.map_some, Option.some.injEq] at hlost
  cases hlost.symm.trans hfind

end Thermometer.HawkeyeVisible
