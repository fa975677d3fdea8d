import Mathlib.Data.List.Nodup
import Thermometer.BasicBtb

namespace Thermometer.StreamFresh

open Lib.Runs StreamBuffer

inductive Call
  | prefetch (ip target : Nat)
  | predict (ip : Nat)
  | update (ip : Nat)
  deriving DecidableEq, Repr

def step (s : Buffer) : Call → Option Buffer
  | .prefetch ip target => prefetch s ip target
  | .predict _ => some s
  | .update ip => some (streamBufferUpdate s ip).1

def room (s : Buffer) : List (Nat × Nat) := if s.capacity ≤ s.buffer.length then s.buffer.tail else s.buffer

/-- A buffer beside the prefetches it holds, each with the number of its call. -/
structure Watched where
  buffer : Buffer
  held : List (Nat × Nat × Nat)
  clock : Nat

def hold (w : Watched) : Call → List (Nat × Nat × Nat)
  | .prefetch ip target =>
      (if w.buffer.capacity ≤ w.held.length then w.held.tail else w.held) ++ [(w.clock, ip, target)]
  | .predict _ => w.held
  | .update ip => w.held.eraseP (fun a => a.2.1 = ip)

def watch (w : Watched) (c : Call) : Option Watched :=
  (step w.buffer c).map (fun s => ⟨s, hold w c, w.clock + 1⟩)

def start (capacity : Nat) : Watched := ⟨.empty capacity, [], 0⟩

/-- What the watched prefetches are after the calls `cs`: those the buffer holds, in the order of their calls. -/
structure Tracks (cs : List Call) (w : Watched) : Prop where
  bounded : Bounded w.buffer
  same : w.held.map Prod.snd = w.buffer.buffer
  clock : w.clock = cs.length
  order : w.held.Pairwise (fun a b => a.1 < b.1)
  pushed : ∀ a ∈ w.held, cs[a.1]? = some (.prefetch a.2.1 a.2.2)

def Single (s : Buffer) : Prop := (s.buffer.map Prod.fst).Nodup

def AnswersLatest (cs : List Call) (w : Watched) (ip : Nat) : Prop :=
  (∀ a ∈ w.held, a.2.1 ≠ ip) ∧ streamBufferPredict w.buffer ip = 0 ∨
    ∃ a ∈ w.held, cs[a.1]? = some (.prefetch ip (streamBufferPredict w.buffer ip)) ∧
      ∀ b ∈ w.held, b.2.1 = ip → b.1 ≤ a.1

structure Fresh (cs : List Call) (c : Call) (w : Watched) : Prop where
  single : Single w.buffer
  latest : ∀ ip, AnswersLatest cs w ip
  updated : ∀ ip, c = .update ip → ∀ a ∈ w.buffer.buffer, a.1 ≠ ip

/-- A prefetch of a branch without an entry in the buffer. -/
def IsNew (s : Buffer) : Call → Prop
  | .prefetch ip _ => ∀ a ∈ room s, a.1 ≠ ip
  | .predict _ => True
  | .update _ => True

def Aimed (c : Call) : Prop := ∀ ip, c ≠ .prefetch ip 0

variable {s s' : Buffer} {w w' : Watched} {c : Call} {cs : List Call} {ip target : Nat}

def after (s : Buffer) : Call → List (Nat × Nat)
  | .prefetch ip target => room s ++ [(ip, target)]
  | .predict _ => s.buffer
  | .update ip => s.buffer.eraseP (fun a => a.1 = ip)

theorem prefetch_eq_some (h : prefetch s ip target = some s') : s' = { s with buffer := room s ++ [(ip, target)] } := by
  simp only [prefetch] at h
  by_cases hroom : (if s.capacity ≤ s.buffer.length then s.buffer.tail else s.buffer).length < s.capacity ∧ target ≠ 0
  · rw [if_pos hroom] at h
    exact (Option.some.inj h).symm
  · rw [if_neg hroom] at h
    cases h

theorem room_sublist (s : Buffer) : (room s).Sublist s.buffer := by
  rw [room]
  split_ifs
  · exact List.tail_sublist s.buffer
  · exact List.Sublist.refl s.buffer

theorem step_eq_some (h : step s c = some s') : s' = { s with buffer := after s c } := by
  cases c with
  | prefetch ip target => exact prefetch_eq_some h
  | predict ip => exact (Option.some.inj h).symm
  | update ip => exact (Option.some.inj h).symm

theorem step_total (h : Bounded s) (hc : Aimed c) : ∃ s', step s c = some s' ∧ Bounded s' := by
  cases c with
  | prefetch ip target =>
      apply prefetch_bounded h ip
      rintro rfl
      exact hc ip rfl
  | predict ip => exact ⟨s, rfl, h⟩
  | update ip => exact ⟨_, rfl, update_bounded h ip⟩

theorem hold_same (h : w.held.map Prod.snd = w.buffer.buffer) : (hold w c).map Prod.snd = after w.buffer c := by
  cases c with
  | prefetch ip target =>
      have hlength : w.held.length = w.buffer.buffer.length := by rw [← h, List.length_map]
      simp only [hold, after, room, hlength, List.map_append, List.map_cons, List.map_nil]
      congr 1
      split_ifs
      · rw [List.map_tail, h]
      · exact h
  | predict ip => exact h
  | update ip =>
      rw [hold, after, ← h, List.eraseP_map]
      rfl

theorem hold_split (w : Watched) (c : Call) : ∃ l, l.Sublist w.held ∧
    (hold w c = l ∨ ∃ ip target, c = .prefetch ip target ∧ hold w c = l ++ [(w.clock, ip, target)]) := by
  cases c with
  | prefetch ip target =>
      refine ⟨if w.buffer.capacity ≤ w.held.length then w.held.tail else w.held, ?_, .inr ⟨ip, target, rfl, rfl⟩⟩
      split_ifs
      · exact List.tail_sublist w.held
      · exact List.Sublist.refl w.held
  | predict ip => exact ⟨w.held, List.Sublist.refl w.held, .inl rfl⟩
  | update ip => exact ⟨_, List.eraseP_sublist, .inl rfl⟩

theorem tracks_start {capacity : Nat} (h : 0 < capacity) : Tracks [] (start capacity) :=
  ⟨bounded_empty h, rfl, rfl, List.Pairwise.nil, fun a ha => (by cases ha)⟩

theorem Tracks.lt_clock (h : Tracks cs w) {a : Nat × Nat × Nat} (ha : a ∈ w.held) : a.1 < w.clock := by
  rw [h.clock]
  obtain ⟨hlt, -⟩ := List.getElem?_eq_some_iff.mp (h.pushed a ha)
  exact hlt

theorem watch_tracks (h : Tracks cs w) (hc : Aimed c) : ∃ w', watch w c = some w' ∧ Tracks (cs ++ [c]) w' := by
  obtain ⟨s', hs', hb⟩ := step_total h.bounded hc
  have hbuffer : s'.buffer = after w.buffer c := by rw [step_eq_some hs']
  obtain ⟨l, hl, hhold⟩ := hold_split w c
  have hold' : ∀ a ∈ l, a.1 < w.clock ∧ (cs ++ [c])[a.1]? = some (.prefetch a.2.1 a.2.2) := by
    intro a ha
    have hmem := hl.subset ha
    have hlt := h.lt_clock hmem
    refine ⟨hlt, ?_⟩
    rw [List.getElem?_append_left (h.clock ▸ hlt)]
    exact h.pushed a hmem
  refine ⟨⟨s', hold w c, w.clock + 1⟩, by rw [watch, hs']; rfl, hb, (hold_same h.same).trans hbuffer.symm, ?_, ?_, ?_⟩
  · simp [h.clock]
  · rcases hhold with heq | ⟨ip, target, -, heq⟩
    · simp only [heq]
      exact h.order.sublist hl
    · simp only [heq]
      apply List.pairwise_append.mpr
      refine ⟨h.order.sublist hl, List.pairwise_singleton _ _, fun a ha b hb => ?_⟩
      rw [List.mem_singleton.mp hb]
      exact (hold' a ha).1
  · intro a ha
    rcases hhold with heq | ⟨ip, target, rfl, heq⟩
    · exact (hold' a (heq ▸ ha)).2
    · simp only [heq, List.mem_append, List.mem_singleton] at ha
      rcases ha with ha | rfl
      · exact (hold' a ha).2
      · simp [h.clock]

theorem Tracks.oldest (h : Tracks cs w) (ip : Nat) :
    (∀ a ∈ w.held, a.2.1 ≠ ip) ∧ streamBufferPredict w.buffer ip = 0 ∨
      ∃ a ∈ w.held, cs[a.1]? = some (.prefetch ip (streamBufferPredict w.buffer ip)) ∧
        ∀ b ∈ w.held, b.2.1 = ip → a.1 ≤ b.1 := by
  rw [streamBufferPredict, ← h.same, List.find?_map]
  cases hfind : w.held.find? ((fun a => decide (a.1 = ip)) ∘ Prod.snd) with
  | none =>
      left
      refine ⟨fun a ha => ?_, rfl⟩
      simpa using List.find?_eq_none.mp hfind a ha
  | some a =>
      right
      obtain ⟨hip, l, r, heq, hl⟩ := List.find?_eq_some_iff_append.mp hfind
      have hip' : a.2.1 = ip := by simpa using hip
      have hmem : a ∈ w.held := by
        rw [heq]
        exact List.mem_append_right l List.mem_cons_self
      refine ⟨a, hmem, ?_, fun b hb hbip => ?_⟩
      · rw [h.pushed a hmem, hip']
        rfl
      · have horder := h.order
        rw [heq] at hb horder
        rcases List.mem_append.mp hb with hb | hb
        · have hno := hl b hb
          simp [hbip] at hno
        · rcases List.mem_cons.mp hb with rfl | hb
          · exact Nat.le_refl _
          · exact Nat.le_of_lt ((List.pairwise_cons.mp (List.pairwise_append.mp horder).2.1).1 b hb)

theorem Tracks.latest (h : Tracks cs w) (hsingle : Single w.buffer) (ip : Nat) : AnswersLatest cs w ip := by
  rcases h.oldest ip with hnone | ⟨a, ha, hcall, -⟩
  · exact .inl hnone
  · refine .inr ⟨a, ha, hcall, fun b hb hbip => ?_⟩
    have haip : a.2.1 = ip := by
      have hpushed := h.pushed a ha
      rw [hcall] at hpushed
      injection hpushed with hpushed
      injection hpushed with hip
      exact hip.symm
    rw [Single, ← h.same, List.map_map] at hsingle
    have heq : b = a := List.inj_on_of_nodup_map hsingle hb ha (hbip.trans haip.symm)
    exact Nat.le_of_eq (congrArg Prod.fst heq)

theorem single_push {l : List (Nat × Nat)} (h : (l.map Prod.fst).Nodup) (ip target : Nat) :
    ((l ++ [(ip, target)]).map Prod.fst).Nodup ↔ ∀ a ∈ l, a.1 ≠ ip := by
  rw [List.map_append, List.nodup_append]
  constructor
  · rintro ⟨-, -, hdisjoint⟩ a ha
    exact hdisjoint a.1 (List.mem_map_of_mem ha) ip List.mem_cons_self
  · intro hno
    refine ⟨h, List.pairwise_singleton _ ip, fun a ha b hb => ?_⟩
    obtain ⟨x, hx, rfl⟩ := List.mem_map.mp ha
    rw [List.mem_singleton.mp hb]
    exact hno x hx

theorem step_single (h : Single s) (hs : step s c = some s') : Single s' ↔ IsNew s c := by
  rw [step_eq_some hs, Single]
  cases c with
  | prefetch ip target => exact single_push (h.sublist ((room_sublist s).map Prod.fst)) ip target
  | predict ip => exact iff_of_true h trivial
  | update ip => exact iff_of_true (h.sublist (List.eraseP_sublist.map Prod.fst)) trivial

theorem update_removes (h : Single s) (ip : Nat) : ∀ a ∈ (streamBufferUpdate s ip).1.buffer, a.1 ≠ ip := by
  intro a ha heq
  change a ∈ s.buffer.eraseP (fun a => a.1 = ip) at ha
  have hmem : a ∈ s.buffer := List.mem_of_mem_eraseP ha
  obtain ⟨b, l, r, -, hb, hsplit, herase⟩ := List.exists_of_eraseP (p := fun a => decide (a.1 = ip)) hmem (decide_eq_true heq)
  rw [herase] at ha
  rw [Single, hsplit, List.map_append, List.map_cons, List.nodup_middle, List.nodup_cons, ← List.map_append] at h
  apply h.1
  rw [of_decide_eq_true hb, ← heq]
  exact List.mem_map_of_mem ha

theorem watch_fresh (h : Tracks cs w) (hsingle : Single w.buffer) (hc : Aimed c) (hnew : IsNew w.buffer c) :
    ∃ w', watch w c = some w' ∧ Tracks (cs ++ [c]) w' ∧ Fresh (cs ++ [c]) c w' := by
  obtain ⟨w', hw', htracks⟩ := watch_tracks h hc
  obtain ⟨s', hs', heq⟩ := Option.map_eq_some_iff.mp hw'
  have hsingle' : Single w'.buffer := by
    rw [← heq]
    exact (step_single hsingle hs').mpr hnew
  refine ⟨w', hw', htracks, hsingle', htracks.latest hsingle', ?_⟩
  rintro ip rfl
  obtain rfl := Option.some.inj hs'
  rw [← heq]
  exact update_removes hsingle ip

theorem run_fresh {capacity : Nat} (hcapacity : 0 < capacity) (hcs : ∀ c ∈ cs, Aimed c)
    (h : EveryStep watch (start capacity) (fun _ w => IsNew w.buffer) cs) (hrun : run watch (start capacity) cs = some w) :
    Tracks cs w ∧ Single w.buffer := by
  induction cs using List.reverseRecOn generalizing w with
  | nil =>
      obtain rfl := Option.some.inj hrun
      exact ⟨tracks_start hcapacity, List.nodup_nil⟩
  | append_singleton cs c ih =>
      obtain ⟨u, hu, hstep⟩ := run_concat hrun
      have hcs' : ∀ d ∈ cs, Aimed d := fun d hd => hcs d (List.mem_append_left _ hd)
      obtain ⟨htracks, hsingle⟩ := ih hcs' h.of_append hu
      have hc : Aimed c := hcs c (List.mem_append_right _ (List.mem_singleton_self c))
      obtain ⟨w', hw', htracks', hfresh⟩ := watch_fresh htracks hsingle hc (h.last hu)
      obtain rfl := Option.some.inj (hstep.symm.trans hw')
      exact ⟨htracks', hfresh.single⟩

/-- In every run: the buffer is fresh after each call exactly if each prefetch
is of a branch without an entry. -/
theorem stream_fresh_iff (capacity : Nat) (cs : List Call) (hcapacity : 0 < capacity) (hcs : ∀ c ∈ cs, Aimed c) :
    EveryStep watch (start capacity) (fun pre w c => ∃ w', watch w c = some w' ∧ Fresh (pre ++ [c]) c w') cs ↔
      EveryStep watch (start capacity) (fun _ w => IsNew w.buffer) cs := by
  constructor
  · intro h
    induction cs using List.reverseRecOn with
    | nil =>
        intro pre c post w heq
        simp at heq
    | append_singleton cs c ih =>
        have hcs' : ∀ d ∈ cs, Aimed d := fun d hd => hcs d (List.mem_append_left _ hd)
        have hold := ih hcs' h.of_append
        apply hold.concat
        intro w hrun
        obtain ⟨htracks, hsingle⟩ := run_fresh hcapacity hcs' hold hrun
        obtain ⟨w', hw', hfresh⟩ := h.last hrun
        obtain ⟨s', hs', heq⟩ := Option.map_eq_some_iff.mp hw'
        apply (step_single hsingle hs').mp
        have hsingle' := hfresh.single
        rw [← heq] at hsingle'
        exact hsingle'
  · intro h
    refine h.imp ?_
    intro pre c post w heq hrun hnew
    have hmem : ∀ d ∈ pre ++ [c], d ∈ cs := by
      intro d hd
      rw [heq, List.append_cons]
      exact List.mem_append_left post hd
    have hpre : EveryStep watch (start capacity) (fun _ w => IsNew w.buffer) pre := by
      rw [heq] at h
      exact h.of_append
    obtain ⟨htracks, hsingle⟩ := run_fresh hcapacity (fun d hd => hcs d (hmem d (List.mem_append_left _ hd))) hpre hrun
    obtain ⟨w', hw', -, hfresh⟩ :=
      watch_fresh htracks hsingle (hcs c (hmem c (List.mem_append_right _ (List.mem_singleton_self c)))) hnew
    exact ⟨w', hw', hfresh⟩

/-- A branch goes through the buffer, comes back with another target and leaves. -/
theorem stream_fresh_iff_three :
    EveryStep watch (start 1) (fun pre w c => ∃ w', watch w c = some w' ∧ Fresh (pre ++ [c]) c w')
        [.prefetch 4 64, .predict 4, .prefetch 4 128, .update 4] ↔
      EveryStep watch (start 1) (fun _ w => IsNew w.buffer) [.prefetch 4 64, .predict 4, .prefetch 4 128, .update 4] := by
  apply stream_fresh_iff 1 _ (by decide)
  intro c hc ip heq
  subst heq
  simp at hc

/-! The calls a BTB module makes. -/

/-- The call of the stream buffer in one call of the module. -/
def issued (s : BasicBtb.State) : Trace.Call → List Call
  | .predict ip ty => if ty.usesBtb ∧ BasicBtb.findEntry s ip = none then [.predict ip] else []
  | .update ip _ _ ty => if ty.usesBtb ∧ BasicBtb.findEntry s ip = none then [.update ip] else []
  | .prefetch ip target ty taken toStreamBuffer =>
      if ty.usesBtb ∧ BasicBtb.findEntry s ip = none ∧ (target ≠ 0 ∧ taken) ∧ toStreamBuffer then [.prefetch ip target]
      else []

def issuedRun (s : BasicBtb.State) : List Trace.Call → List Call
  | [] => []
  | c :: cs => issued s c ++ ((BasicBtb.step s c).map (fun s' => issuedRun s' cs)).getD []

theorem issued_aimed (s : BasicBtb.State) (c : Trace.Call) : ∀ d ∈ issued s c, Aimed d := by
  rintro d hd ip rfl
  cases c with
  | predict ip ty =>
      rw [issued] at hd
      split_ifs at hd <;> simp at hd
  | update ip target taken ty =>
      rw [issued] at hd
      split_ifs at hd <;> simp at hd
  | prefetch ip target ty taken toStreamBuffer =>
      rw [issued] at hd
      split_ifs at hd with hcond
      · rw [List.mem_singleton, Call.prefetch.injEq] at hd
        exact hcond.2.2.1.1 hd.2.symm
      · cases hd

section Issued

variable {s s' : BasicBtb.State} {taken toStreamBuffer : Bool} {ty : Trace.BranchType}

theorem predict_issued (s : BasicBtb.State) (ip : Nat) (ty : Trace.BranchType) :
    run step s.stream (issued s (.predict ip ty)) = some (BasicBtb.btbPrediction s ip ty).1.stream := by
  have hidle : run step s.stream (issued s (.predict ip ty)) = some s.stream := by
    rw [issued]
    split_ifs <;> rfl
  rw [hidle, BasicBtb.btbPrediction]
  rcases SideTables.predict s.side ip ty with ⟨side, _ | r⟩
  · simp only
    cases BasicBtb.findEntry { s with side := side, timestamp := s.timestamp + 1 } ip <;> rfl
  · rfl

theorem update_issued (s : BasicBtb.State) (ip target : Nat) (taken : Bool) (ty : Trace.BranchType) :
    run step s.stream (issued s (.update ip target taken ty)) = some (BasicBtb.updateBtb s ip target taken ty).stream := by
  rw [issued, BasicBtb.updateBtb]
  by_cases hty : ty.usesBtb = true
  · simp only [if_pos hty]
    have hside : BasicBtb.findEntry { s with side := SideTables.update s.side ip target taken ty } ip =
        BasicBtb.findEntry s ip := rfl
    rw [hside]
    cases hfind : BasicBtb.findEntry s ip with
    | none =>
        rw [if_pos ⟨hty, rfl⟩]
        simp only
        split_ifs <;> rfl
    | some way =>
        rw [if_neg (by simp)]
        rfl
  · rw [if_neg (fun hcond => hty hcond.1)]
    simp only [if_neg hty]
    rfl

theorem prefetch_issued (h : BasicBtb.prefetchBtb s ip target ty taken toStreamBuffer = some s') :
    run step s.stream (issued s (.prefetch ip target ty taken toStreamBuffer)) = some s'.stream := by
  rw [BasicBtb.prefetchBtb] at h
  rw [issued]
  by_cases hty : ty.usesBtb = true
  · rw [if_pos hty] at h
    cases hfind : BasicBtb.findEntry s ip with
    | none =>
        rw [hfind] at h
        by_cases halloc : target ≠ 0 ∧ taken = true
        · simp only [if_pos halloc] at h
          cases toStreamBuffer with
          | true =>
              obtain ⟨b, hb, rfl⟩ := Option.map_eq_some_iff.mp h
              rw [if_pos ⟨hty, rfl, halloc, rfl⟩, run_cons]
              exact congrArg (Option.bind · _) hb
          | false =>
              obtain rfl := Option.some.inj h
              rw [if_neg (by simp)]
              rfl
        · simp only [if_neg halloc] at h
          obtain rfl := Option.some.inj h
          rw [if_neg (fun hcond => halloc hcond.2.2.1)]
          rfl
    | some way =>
        rw [hfind] at h
        obtain rfl := Option.some.inj h
        rw [if_neg (by simp)]
        rfl
  · rw [if_neg hty] at h
    obtain rfl := Option.some.inj h
    rw [if_neg (fun hcond => hty hcond.1)]
    rfl

theorem step_issued {c : Trace.Call} (h : BasicBtb.step s c = some s') : run step s.stream (issued s c) = some s'.stream := by
  cases c with
  | predict ip ty => exact Option.some.inj h ▸ predict_issued s ip ty
  | update ip target taken ty => exact Option.some.inj h ▸ update_issued s ip target taken ty
  | prefetch ip target ty taken toStreamBuffer => exact prefetch_issued h

/-- The buffer of a module's run is that of the calls it issues, whose prefetches have targets. -/
theorem issuedRun_spec {cs : List Trace.Call} (h : run BasicBtb.step s cs = some s') :
    run step s.stream (issuedRun s cs) = some s'.stream ∧ ∀ d ∈ issuedRun s cs, Aimed d := by
  induction cs generalizing s with
  | nil =>
      obtain rfl := Option.some.inj h
      exact ⟨rfl, fun d hd => (by cases hd)⟩
  | cons c cs ih =>
      rw [run_cons, Option.bind_eq_some_iff] at h
      obtain ⟨u, hu, h⟩ := h
      obtain ⟨hrun, haimed⟩ := ih h
      rw [issuedRun, hu, Option.map_some, Option.getD_some]
      refine ⟨?_, fun d hd => ?_⟩
      · rw [run_append, step_issued hu]
        exact hrun
      · rcases List.mem_append.mp hd with hd | hd
        · exact issued_aimed s c d hd
        · exact haimed d hd

end Issued

/-- A branch that the BTB does not hold is prefetched again with another target. -/
theorem prefetch_twice : ¬∀ cs : List Trace.Call, EveryStep watch (start 32)
    (fun pre w c => ∃ w', watch w c = some w' ∧ Fresh (pre ++ [c]) c w') (issuedRun (BasicBtb.initializeBtb 2048 4) cs) := by
  intro h
  have hissued : issuedRun (BasicBtb.initializeBtb 2048 4)
      [.prefetch 4 64 .conditional true true, .prefetch 4 128 .conditional true true] = [.prefetch 4 64, .prefetch 4 128] := by
    decide +kernel
  have hsecond := h [.prefetch 4 64 .conditional true true, .prefetch 4 128 .conditional true true]
  rw [hissued] at hsecond
  obtain ⟨w', hw', hfresh⟩ := hsecond [.prefetch 4 64] (.prefetch 4 128) [] ⟨⟨[(4, 64)], 32⟩, [(0, 4, 64)], 1⟩ rfl rfl
  obtain rfl := Option.some.inj hw'
  have hsingle : [4, 4].Nodup := hfresh.single
  simp at hsingle

end Thermometer.StreamFresh
