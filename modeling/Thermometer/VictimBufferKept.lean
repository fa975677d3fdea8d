import Thermometer.Lib.Fifo
import Thermometer.VictimBufferTaken

namespace Thermometer.VictimBufferKept

open Trace Lib.Runs Lib.Slots Lib.Fifo VictimBufferTaken
open BasicBtb (Entry findEntry updateLru getLruEntry)
open VictimBufferBtb (Found State lookup touch addToVictimBuffer victimBufferSize initializeBtb step)

def replaced (s : State) (c : Call) : Option Nat :=
  if c.allocates ∧ (lookup s c.ip).isNone then
    some (s.entry (s.set c.ip) (getLruEntry s.toState (s.set c.ip))).ipTag
  else none

/-- The places where a branch can be: a way of a set, or a position of the victim buffer. -/
inductive Slot
  | way (set w : Nat)
  | victim (i : Nat)

def tagAt (s : State) : Slot → Option Nat
  | .way set w => (tags (s.btb set))[w]?
  | .victim i => (tags s.victimBuffer)[i]?

def evicted (s : State) (cs : List Call) : List Nat := (emits step replaced s cs).filter (fun ip => ip ≠ 0)

def Leaves (s : State) (ip : Nat) (t : State) : Prop :=
  (findEntry s.toState ip).isSome ∧ findEntry t.toState ip = none

/-- What the victim buffer is for. A branch evicted from the main BTB is found until as many further
ones as the buffer has entries have been evicted. -/
structure KeepsVictims (s₀ : State) (cs : List Call) : Prop where
  once : ∀ pre post s, cs = pre ++ post → run step s₀ pre = some s →
    ∀ ip ≠ 0, ∀ p q, tagAt s p = some ip → tagAt s q = some ip → p = q
  found : ∀ pre c mid post s u t ip, cs = pre ++ c :: mid ++ post → run step s₀ pre = some s → step s c = some u →
    run step u mid = some t → ip ≠ 0 → Leaves s ip u → (evicted u mid).length < victimBufferSize →
      (lookup t ip).isSome

/-- A branch falls out of the full buffer only when the entries behind it and the way being
replaced hold branches too. -/
def Covered (s : State) (c : Call) : Prop :=
  ∀ tag, replaced s c = some tag → ∀ ip rest, tags s.victimBuffer = ip :: rest →
    victimBufferSize ≤ s.victimBuffer.length → ip ≠ 0 → 0 ∉ rest ∧ tag ≠ 0

variable {s t u : State} {c : Call} {cs : List Call} {ip tag target set : Nat} {es es' : List Entry} {e : Entry}

theorem lookup_isSome_iff : (lookup s ip).isSome ↔ ip ∈ tags (s.btb (s.set ip)) ∨ ip ∈ tags s.victimBuffer := by
  constructor
  · intro h
    obtain ⟨found, hfound⟩ := Option.isSome_iff_exists.mp h
    obtain ⟨e, ⟨htag, hmem⟩, -⟩ := lookup_eq_some hfound
    cases found with
    | btb way => exact .inl (mem_tags.mpr ⟨e, hmem, htag⟩)
    | victimBuffer i => exact .inr (mem_tags.mpr ⟨e, hmem, htag⟩)
  · intro h
    by_contra hno
    obtain ⟨hbtb, hbuffer⟩ := lookup_eq_none (Option.not_isSome_iff_eq_none.mp hno)
    rcases h with h | h
    · exact hbtb h
    · exact hbuffer h

structure Replaces (s : State) (ip tag : Nat) (t : State) : Prop where
  index : t.index = s.index
  btb : ∀ set, tags (t.btb set) =
    if set = s.set ip then (tags (s.btb set)).set (getLruEntry s.toState (s.set ip)) ip else tags (s.btb set)
  victimBuffer : tags t.victimBuffer = push victimBufferSize (tags s.victimBuffer) tag

theorem tags_addToVictimBuffer (h : addToVictimBuffer es e = some es') :
    tags es' = push victimBufferSize (tags es) e.ipTag := by
  have hlen : (tags es).length = es.length := List.length_map _
  rw [addToVictimBuffer] at h
  rw [push, hlen]
  split_ifs at h ⊢
  · rw [Option.some.injEq] at h
    rw [← h, tags, List.map_append, List.map_tail]
    rfl
  · rw [Option.some.injEq] at h
    rw [← h, tags, List.map_append]
    rfl

theorem allocate_replaces (h : VictimBufferBtb.allocate s ip target = some t) :
    Replaces s ip (s.entry (s.set ip) (getLruEntry s.toState (s.set ip))).ipTag t := by
  obtain ⟨buffer, hbuffer, rfl⟩ := Option.map_eq_some_iff.mp h
  exact ⟨rfl, tags_allocate s.toState ip target, tags_addToVictimBuffer hbuffer⟩

theorem replaced_of_allocates (hc : c.allocates = true) (hno : lookup s c.ip = none) :
    replaced s c = some (s.entry (s.set c.ip) (getLruEntry s.toState (s.set c.ip))).ipTag :=
  if_pos ⟨hc, Option.isNone_iff_eq_none.mpr hno⟩

theorem replaced_of_idle (hc : c.allocates = false) : replaced s c = none :=
  if_neg (fun h => Bool.false_ne_true (hc.symm.trans h.1))

theorem replaced_of_found {found : Found} (h : lookup s c.ip = some found) : replaced s c = none := by
  apply if_neg
  rw [h]
  exact fun hc => Bool.false_ne_true hc.2

def Turns (s : State) (c : Call) (t : State) : Prop :=
  match replaced s c with
  | none => Rewrites s t
  | some tag => Replaces s c.ip tag t

theorem Turns.of_none (h : replaced s c = none) (hr : Rewrites s t) : Turns s c t := by
  rw [Turns, h]
  exact hr

theorem Turns.of_allocate {q : State} (hq : SameTables s q) (hways : q.ways = s.ways) (hc : c.allocates = true)
    (hno : lookup s c.ip = none) (h : VictimBufferBtb.allocate q c.ip target = some t) : Turns s c t := by
  have hset : q.set c.ip = s.set c.ip := by rw [BasicBtb.State.set, BasicBtb.State.set, hq.index]
  have hentry : ∀ set w, q.entry set w = s.entry set w := by
    intro set w
    rw [BasicBtb.State.entry, BasicBtb.State.entry, hq.btb]
  have hway : getLruEntry q.toState (q.set c.ip) = getLruEntry s.toState (s.set c.ip) := by
    rw [getLruEntry, getLruEntry, hways, hset]
    congr 1
    funext w
    rw [hentry]
  have hrep := allocate_replaces h
  rw [Turns, replaced_of_allocates hc hno]
  refine ⟨hrep.index.trans hq.index, ?_, ?_⟩
  · intro set
    rw [hrep.btb, hway, hset, hq.btb]
  · rw [hrep.victimBuffer, hq.victimBuffer, hway, hset, hentry]

theorem step_turns (h : step s c = some t) : Turns s c t := by
  cases step_did h with
  | idle hc hr => exact .of_none (replaced_of_idle hc) hr
  | found hlook hr => exact .of_none (replaced_of_found hlook) hr
  | allocate hq hways hc hno hall => exact .of_allocate hq hways hc hno hall

theorem Turns.tags_victimBuffer (h : Turns s c t) :
    tags t.victimBuffer = (replaced s c).toList.foldl (push victimBufferSize) (tags s.victimBuffer) := by
  rw [Turns] at h
  cases hr : replaced s c with
  | none =>
      rw [hr] at h
      exact h.victimBuffer.tags_eq
  | some tag =>
      rw [hr] at h
      exact h.victimBuffer

theorem run_victimBuffer (h : run step s cs = some t) :
    tags t.victimBuffer = (emits step replaced s cs).foldl (push victimBufferSize) (tags s.victimBuffer) := by
  induction cs generalizing s with
  | nil =>
      rw [run_nil, Option.some.injEq] at h
      rw [h]
      rfl
  | cons c cs ih =>
      rw [run_cons, Option.bind_eq_some_iff] at h
      obtain ⟨u, hu, h⟩ := h
      rw [ih h, emits_cons hu, List.foldl_append, (step_turns hu).tags_victimBuffer]

theorem intact_of_run {ways : Nat} (h : run step (initializeBtb ways) cs = some s) : Intact s :=
  run_preserves (I := Intact) (fun _ _ _ _ hs hstep => (step_effect hstep).intact hs) (initializeBtb_intact ways) h

theorem once_of_intact (hs : Intact s) (hip : ip ≠ 0) {p q : Slot} (hp : tagAt s p = some ip) (hq : tagAt s q = some ip) :
    p = q := by
  cases p with
  | way set w =>
      have hmem : ip ∈ tags (s.btb set) := List.mem_of_getElem? hp
      cases q with
      | way set' w' =>
          obtain rfl : set = set' :=
            (hs.placed set ip hmem hip).symm.trans (hs.placed set' ip (List.mem_of_getElem? hq) hip)
          rw [hs.distinct set w w' ip hip hp hq]
      | victim i => exact absurd (hs.disjoint set ip hmem (List.mem_of_getElem? hq)) hip
  | victim i =>
      have hmem : ip ∈ tags s.victimBuffer := List.mem_of_getElem? hp
      cases q with
      | way set w => exact absurd (hs.disjoint set ip (List.mem_of_getElem? hq) hmem) hip
      | victim k => rw [hs.distinctBuffer i k ip hip hp hq]

theorem findEntry_isSome_iff {s : BasicBtb.State} : (findEntry s ip).isSome ↔ ip ∈ tags (s.btb (s.set ip)) := by
  rw [findEntry, List.findIdx?_isSome, List.any_eq_true, mem_tags]
  simp only [decide_eq_true_iff]

theorem Turns.index (h : Turns s c t) : t.index = s.index := by
  rw [Turns] at h
  cases hr : replaced s c with
  | none =>
      rw [hr] at h
      exact Rewrites.index h
  | some tag =>
      rw [hr] at h
      exact Replaces.index h

theorem replaced_eq_some (h : replaced s c = some tag) :
    lookup s c.ip = none ∧ tag = (tags (s.btb (s.set c.ip))).getD (getLruEntry s.toState (s.set c.ip)) 0 := by
  rw [replaced] at h
  split_ifs at h with hc
  rw [Option.some.injEq, tag_entry] at h
  exact ⟨Option.isNone_iff_eq_none.mp hc.2, h.symm⟩

/-- What `replaced` names is the branch that leaves the main BTB. -/
theorem replaced_iff_leaves (hs : Intact s) (h : step s c = some t) (hip : ip ≠ 0) :
    replaced s c = some ip ↔ Leaves s ip t := by
  have hturn := step_turns h
  have hindex := hturn.index
  have hleaves : Leaves s ip t ↔ ip ∈ tags (s.btb (s.set ip)) ∧ ip ∉ tags (t.btb (s.set ip)) := by
    rw [Leaves, findEntry_isSome_iff, ← Option.not_isSome_iff_eq_none, findEntry_isSome_iff, BasicBtb.State.set,
      BasicBtb.State.set, hindex]
  rw [hleaves]
  rw [Turns] at hturn
  cases hr : replaced s c with
  | none =>
      rw [hr] at hturn
      rw [(hturn.btb _).tags_eq]
      exact iff_of_false (by simp) (fun h => h.2 h.1)
  | some tag =>
      obtain ⟨hno, htag⟩ := replaced_eq_some hr
      rw [hr] at hturn
      rw [Option.some.injEq, hturn.btb, htag]
      constructor
      · intro heq
        have hmem : ip ∈ tags (s.btb (s.set c.ip)) := mem_of_mem_getD hip heq.symm
        have hset : s.set ip = s.set c.ip := hs.placed _ ip hmem hip
        rw [if_pos hset, hset]
        refine ⟨hmem, ?_⟩
        intro hnew
        rcases (hs.distinct _).mem_set hip hnew with rfl | ⟨-, hother⟩
        · exact (lookup_eq_none hno).1 hmem
        · exact hother heq.symm
      · rintro ⟨hold, hnew⟩
        split_ifs at hnew with hset
        · rw [hset] at hold
          obtain ⟨k, hk⟩ := List.getElem?_of_mem hold
          by_cases hkw : getLruEntry s.toState (s.set c.ip) = k
          · rw [List.getD_eq_getElem?_getD, hkw, hk, Option.getD_some]
          · refine absurd (List.mem_of_getElem? (i := k) ?_) hnew
            rw [hset, List.getElem?_set_ne hkw]
            exact hk
        · exact absurd hold hnew

section Kept

variable {ways : Nat} {pre mid : List Call} {l rest : List Nat}

theorem victimBufferSize_pos : 0 < victimBufferSize := by decide

theorem run_length (h : run step (initializeBtb ways) cs = some s) : (tags s.victimBuffer).length ≤ victimBufferSize := by
  obtain ⟨s', hs', hb⟩ := run_bounded ways cs
  rw [h, Option.some.injEq] at hs'
  rw [tags, List.length_map, hs']
  exact hb.victimBuffer

theorem exists_step (h : run step (initializeBtb ways) cs = some s) (c : Call) : ∃ t, step s c = some t := by
  obtain ⟨t, ht, -⟩ := run_bounded ways (cs ++ [c])
  obtain ⟨s', hs', hstep⟩ := run_concat ht
  rw [h, Option.some.injEq] at hs'
  exact ⟨t, hs' ▸ hstep⟩

theorem victimBuffer_after (hl : (tags s.victimBuffer).length ≤ victimBufferSize) (hc : step s c = some u)
    (hrep : replaced s c = some ip) (hmid : run step u mid = some t) :
    ∃ l, l.length < victimBufferSize ∧ tags t.victimBuffer =
      (l ++ ip :: emits step replaced u mid).drop (l.length + 1 + (emits step replaced u mid).length - victimBufferSize) := by
  have hu := (step_turns hc).tags_victimBuffer
  rw [hrep] at hu
  have hlen := push_length victimBufferSize_pos hl ip
  have hsnoc : ∃ l, tags u.victimBuffer = l ++ [ip] := ⟨_, hu⟩
  obtain ⟨l, hul⟩ := hsnoc
  have hll : (tags u.victimBuffer).length ≤ victimBufferSize := hu ▸ hlen
  refine ⟨l, ?_, ?_⟩
  · rw [hul, List.length_append] at hll
    exact hll
  · rw [run_victimBuffer hmid, foldl_push victimBufferSize_pos hll, hul, List.length_append, List.length_singleton,
      List.append_assoc, List.singleton_append]

theorem exists_split {xs : List Nat} {n : Nat} (h : n < xs.length) : ∃ r a r', xs = r ++ a :: r' ∧ r.length = n := by
  refine ⟨xs.take n, xs[n], xs.drop (n + 1), ?_, ?_⟩
  · rw [← List.drop_eq_getElem_cons h, List.take_append_drop]
  · rw [List.length_take]
    omega

theorem length_lt_of_covered (hcov : EveryStep step (initializeBtb ways) (fun _ => Covered) cs) {post : List Call}
    (hcs : cs = pre ++ c :: mid ++ post) (hs : run step (initializeBtb ways) pre = some s) (hc : step s c = some u)
    (hmid : run step u mid = some t) (hrep : replaced s c = some ip) (hip : ip ≠ 0)
    (hcount : (evicted u mid).length < victimBufferSize) :
    (emits step replaced u mid).length < victimBufferSize := by
  by_contra hge
  obtain ⟨r, tag, r', hr, hlen⟩ := exists_split (n := victimBufferSize - 1)
    (Nat.lt_of_lt_of_le (Nat.sub_lt victimBufferSize_pos Nat.one_pos) (Nat.not_lt.mp hge))
  obtain ⟨mid₁, c', mid₂, w, v, rfl, hw, hv, hrest, hr₁, hrep', hr₂⟩ := exists_of_emits hmid hr
  obtain ⟨l, hl, hbuffer⟩ := victimBuffer_after (run_length hs) hc hrep hw
  have hsize : r.length + 1 = victimBufferSize := by rw [hlen, Nat.sub_add_cancel victimBufferSize_pos]
  have hdrop : l.length + 1 + r.length - victimBufferSize = l.length := by omega
  rw [hr₁, hdrop, List.drop_left] at hbuffer
  have hrun : run step (initializeBtb ways) (pre ++ c :: mid₁) = some w := by
    rw [run_append, hs, Option.bind_some, run_cons, hc]
    exact hw
  have hfull : victimBufferSize ≤ w.victimBuffer.length := by
    have := congrArg List.length hbuffer
    rw [tags, List.length_map, List.length_cons] at this
    omega
  obtain ⟨hno, htag⟩ := hcov (pre ++ c :: mid₁) c' (mid₂ ++ post) w
    (by rw [hcs]; simp only [List.append_assoc, List.cons_append]) hrun tag hrep' ip r hbuffer hfull hip
  have hall : ∀ a ∈ r ++ [tag], decide (a ≠ 0) = true := by
    intro a ha
    rw [decide_eq_true_iff]
    rcases List.mem_append.mp ha with ha | ha
    · exact fun h => hno (h ▸ ha)
    · exact List.mem_singleton.mp ha ▸ htag
  rw [evicted, hr, List.append_cons, List.filter_append, List.filter_eq_self.mpr hall, List.length_append,
    List.length_append, List.length_singleton, hsize] at hcount
  omega

theorem found_of_covered (hcov : EveryStep step (initializeBtb ways) (fun _ => Covered) cs) {post : List Call}
    (hcs : cs = pre ++ c :: mid ++ post) (hs : run step (initializeBtb ways) pre = some s) (hc : step s c = some u)
    (hmid : run step u mid = some t) (hip : ip ≠ 0) (hleaves : Leaves s ip u)
    (hcount : (evicted u mid).length < victimBufferSize) : (lookup t ip).isSome := by
  have hrep := (replaced_iff_leaves (intact_of_run hs) hc hip).mpr hleaves
  have hlen := length_lt_of_covered hcov hcs hs hc hmid hrep hip hcount
  obtain ⟨l, hl, hbuffer⟩ := victimBuffer_after (run_length hs) hc hrep hmid
  rw [lookup_isSome_iff, hbuffer]
  right
  rw [List.drop_append_of_le_length (by omega)]
  exact List.mem_append_right _ List.mem_cons_self

theorem lookup_dropped (hs : Intact s) (hc : step s c = some t) (hrep : replaced s c = some tag)
    (hbuffer : tags s.victimBuffer = ip :: rest) (hfull : victimBufferSize ≤ (tags s.victimBuffer).length) (hip : ip ≠ 0) :
    lookup t ip = none := by
  have hturn := step_turns hc
  have hindex := hturn.index
  rw [Turns, hrep] at hturn
  obtain ⟨hno, htag⟩ := replaced_eq_some hrep
  have hmem : ip ∈ tags s.victimBuffer := hbuffer ▸ List.mem_cons_self
  rw [← Option.not_isSome_iff_eq_none, lookup_isSome_iff, not_or]
  constructor
  · rw [BasicBtb.State.set, hindex, hturn.btb]
    have hold : ∀ set, ip ∉ tags (s.btb set) := fun set h => hip (hs.disjoint set ip h hmem)
    split_ifs
    · intro h
      rcases List.mem_or_eq_of_mem_set h with h | rfl
      · exact hold _ h
      · exact (lookup_eq_none hno).2 hmem
    · exact hold _
  · rw [hturn.victimBuffer, push, if_pos hfull, hbuffer, List.tail_cons, List.mem_append, List.mem_singleton, not_or]
    constructor
    · intro h
      obtain ⟨k, hk⟩ := List.getElem?_of_mem h
      have hdistinct := hs.distinctBuffer
      rw [hbuffer] at hdistinct
      exact Nat.succ_ne_zero k (hdistinct (k + 1) 0 ip hip hk rfl)
    · intro h
      exact hip (hs.disjoint _ ip (mem_of_mem_getD hip (h.trans htag)) hmem)

theorem covered_of_keeps (h : KeepsVictims (initializeBtb ways) cs) {post : List Call} (hcs : cs = pre ++ c :: post)
    (hs : run step (initializeBtb ways) pre = some s) : Covered s c := by
  intro tag hrep ip rest hbuffer hfull hip
  obtain ⟨t, hc⟩ := exists_step hs c
  have hlen := run_length hs
  have hrun := run_victimBuffer hs
  rw [foldl_push victimBufferSize_pos (Nat.zero_le _), hbuffer] at hrun
  let l := (emits step replaced (initializeBtb ways) pre).take ((emits step replaced (initializeBtb ways) pre).length - victimBufferSize)
  have hsplit : emits step replaced (initializeBtb ways) pre = l ++ ip :: rest := by
    have htake := List.take_append_drop ((emits step replaced (initializeBtb ways) pre).length - victimBufferSize)
      (emits step replaced (initializeBtb ways) pre)
    have hnil : tags (initializeBtb ways).victimBuffer = [] := rfl
    rw [hnil, List.nil_append, List.length_nil, Nat.zero_add] at hrun
    rw [← hrun] at htake
    exact htake.symm
  obtain ⟨pre₁, c₁, mid, s₁, u₁, rfl, hs₁, hc₁, hmid, -, hrep₁, hrest⟩ := exists_of_emits hs hsplit
  by_contra hblank
  have hleaves := (replaced_iff_leaves (intact_of_run hs₁) hc₁ hip).mp hrep₁
  have hmid' : run step u₁ (mid ++ [c]) = some t := by
    rw [run_append, hmid, Option.bind_some, run_cons, hc]
    rfl
  have hone : emits step replaced s [c] = [tag] := by
    rw [emits_cons hc, hrep]
    rfl
  have hcount : (evicted u₁ (mid ++ [c])).length < victimBufferSize := by
    rw [hbuffer, List.length_cons] at hlen
    have hzero : ∃ a ∈ rest ++ [tag], ¬(decide (a ≠ 0)) = true := by
      refine ⟨0, ?_, by decide⟩
      rw [List.mem_append, List.mem_singleton]
      rw [not_and_or, not_not, not_not] at hblank
      exact hblank.imp id Eq.symm
    rw [evicted, emits_append hmid, hrest, hone]
    apply Nat.lt_of_lt_of_le (List.length_filter_lt_length_iff_exists.mpr hzero)
    rw [List.length_append, List.length_singleton]
    exact hlen
  have hfound := h.found pre₁ c₁ (mid ++ [c]) post s₁ u₁ t ip
    (by rw [hcs]; simp only [List.append_assoc, List.cons_append, List.nil_append]) hs₁ hc₁ hmid' hip hleaves hcount
  have hfull' : victimBufferSize ≤ (tags s.victimBuffer).length := by
    rw [tags, List.length_map]
    exact hfull
  rw [lookup_dropped (intact_of_run hs) hc hrep hbuffer hfull' hip] at hfound
  cases hfound

/-- A branch evicted from the main BTB is found until 128 further ones have been evicted, exactly if
no way without a branch is replaced while the branch waits to be dropped. -/
theorem victims_kept_iff (ways : Nat) (cs : List Call) :
    KeepsVictims (initializeBtb ways) cs ↔ EveryStep step (initializeBtb ways) (fun _ => Covered) cs := by
  constructor
  · intro h pre c post s hcs hs
    exact covered_of_keeps h hcs hs
  · intro hcov
    constructor
    · intro pre post s hcs hs ip hip p q
      exact once_of_intact (intact_of_run hs) hip
    · intro pre c mid post s u t ip hcs hs hc hmid hip hleaves hcount
      exact found_of_covered hcov hcs hs hc hmid hip hleaves hcount

/-- Branch 4 is evicted by the next branch of its set. Then ways of other sets are filled for the first time. -/
def filling (n : Nat) : List Call :=
  [4, 4 + 4 * 2048].map (fun ip => .update ip 40 true .directJump) ++
    (List.range n).map (fun k => .update (8 + 4 * k) 40 true .directJump)

theorem victim_lost : ¬KeepsVictims (initializeBtb 4) (filling 128) := by
  intro h
  let last : Call := .update (8 + 4 * 127) 40 true .directJump
  have hrun : (run step (initializeBtb 4) (filling 127)).any (fun s =>
      replaced s last = some 0 ∧ tags s.victimBuffer = 4 :: List.replicate 127 0) = true := by decide +kernel
  obtain ⟨s, hs, hlast⟩ := (Option.any_eq_true _ _).mp hrun
  obtain ⟨hrep, hbuffer⟩ := of_decide_eq_true hlast
  have hfull : victimBufferSize ≤ s.victimBuffer.length := by
    have hlen : (tags s.victimBuffer).length = s.victimBuffer.length := List.length_map _
    rw [← hlen, hbuffer, List.length_cons, List.length_replicate]
    exact Nat.le_refl _
  have hcalls : filling 128 = filling 127 ++ last :: [] := by
    rw [filling, List.range_succ, List.map_append, ← List.append_assoc]
    rfl
  have hcovered : Covered s last := covered_of_keeps h hcalls hs
  exact (hcovered 0 hrep 4 _ hbuffer hfull (by decide)).2 rfl

end Kept

end Thermometer.VictimBufferKept
