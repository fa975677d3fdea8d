import Thermometer.Lib.RecentSlots
import Thermometer.RripReplacement

namespace Thermometer.ShipReplacement

open Lib.RecentSlots Lib.Rereference Lib.Runs Packets

open RripReplacement (maxRRPV)

def shctPrime : Nat := 16381

def shctMax : Nat := 7

/-- `randSets` are the sets that the sampler watches, `samplerSet` of them. -/
structure Config where
  llcSet : Nat
  llcWay : Nat
  samplerSet : Nat
  randSets : Nat → Nat
  llcWay_pos : 0 < llcWay

structure SamplerClass where
  valid : Bool
  used : Bool
  tag : Nat
  ip : Nat
  lru : Nat

/-- `victims` is history: the ways that were to leave. -/
structure State where
  rrpv : Nat → Nat → Nat
  sampler : Nat → Nat → SamplerClass
  shct : Nat → Nat → Nat
  victims : List Nat

def State.initial : State :=
  ⟨fun _ _ => maxRRPV, fun _ w => ⟨false, false, 0, 0, w⟩, fun _ _ => 0, []⟩

def put (table : Nat → Nat → Nat) (i j r : Nat) : Nat → Nat → Nat :=
  Function.update table i (Function.update (table i) j r)

def isItSampled (c : Config) (set : Nat) : Option Nat := search c.samplerSet (fun i => c.randSets i == set)

def useWay (ways : Nat) (set : Nat → SamplerClass) (way : Nat) (x : SamplerClass) : Nat → SamplerClass :=
  let aged : Nat → SamplerClass := fun w =>
    if w < ways ∧ (set w).lru < (set way).lru then { set w with lru := (set w).lru + 1 } else set w
  Function.update aged way { x with lru := 0 }

/-- `none` is a write behind the end of the set. -/
def updateSampler (c : Config) (s : State) (cpu sIdx address ip : Nat) : Option State :=
  let set := s.sampler sIdx
  let tag := address / (64 * c.llcSet)
  let shct := s.shct cpu
  let filled (way : Nat) (table : Nat → Nat) (x : SamplerClass) : State :=
    { s with
      sampler := Function.update s.sampler sIdx (useWay c.llcWay set way x)
      shct := Function.update s.shct cpu table }
  match search c.llcWay (fun w => (set w).valid && (set w).tag == tag) with
  | some way =>
    let i := (set way).ip % shctPrime
    some (filled way
      (if 0 < shct i then Function.update shct i (shct i - 1) else shct) { set way with used := true })
  | none =>
    match search c.llcWay (fun w => !(set w).valid) with
    | some way => some (filled way shct { set way with valid := true, tag := tag, ip := ip, used := false })
    | none =>
      match search c.llcWay (fun w => (set w).lru == c.llcWay - 1) with
      | some way =>
        let i := (set way).ip % shctPrime
        some (filled way
          (if (set way).used = false ∧ shct i < shctMax then Function.update shct i (shct i + 1) else shct)
          { set way with tag := tag, ip := ip, used := false })
      | none => none

def findVictim (c : Config) (s : State) (set : Nat) : Option State :=
  (victim c.llcWay maxRRPV (maxRRPV + 1) (s.rrpv set)).map (fun v =>
    { s with rrpv := Function.update s.rrpv set v.2, victims := s.victims ++ [v.1] })

/-- Also `none` when the assertion that a writeback has no address fails. -/
def updateReplacementState (c : Config) (s : State) (cpu set way fullAddr ip : Nat)
    (type : RequestType) (hit : Bool) :
    Option State :=
  if type = .writeback then
    if ip ≠ 0 then none
    else if hit then some s
    else some { s with rrpv := put s.rrpv set way (maxRRPV - 1) }
  else
    ((isItSampled c set).elim (some s) (fun sIdx => updateSampler c s cpu sIdx fullAddr ip)).map (fun s =>
      { s with
        rrpv := put s.rrpv set way
          (if hit then 0 else if s.shct cpu (ip % shctPrime) = shctMax then maxRRPV else maxRRPV - 1) })

inductive Call
  | findVictim (set : Nat)
  | update (cpu set way fullAddr ip : Nat) (type : RequestType) (hit : Bool)

def step (c : Config) (s : State) : Call → Option State
  | .findVictim set => findVictim c s set
  | .update cpu set way fullAddr ip type hit => updateReplacementState c s cpu set way fullAddr ip type hit

/-- Writebacks come without an address. -/
def Call.proper : Call → Prop
  | .findVictim _ => True
  | .update _ _ _ _ ip type _ => type = .writeback → ip = 0

section Recent

/-- What is known of a line that has been seen: who brought it, and whether it has been used since. -/
structure Line where
  tag : Nat
  ip : Nat
  used : Bool

/-- The lines seen in a watched set, the one met last in front, with the counters of the core that
meets them. A line that is met again counts for the address that brought it, one that leaves without
that counts against it. -/
def meetLine (ways tag ip : Nat) (lines : List Line) (shct : Nat → Nat) : List Line × (Nat → Nat) :=
  match lines.find? (fun x => x.tag == tag) with
  | some x =>
    ({ x with used := true } :: lines.eraseP (fun x => x.tag == tag),
      Function.update shct (x.ip % shctPrime) (shct (x.ip % shctPrime) - 1))
  | none =>
    if lines.length < ways then (⟨tag, ip, false⟩ :: lines, shct)
    else
      (⟨tag, ip, false⟩ :: lines.dropLast,
        (lines.getLast?.filter (fun x => !x.used)).elim shct (fun x =>
          Function.update shct (x.ip % shctPrime) (min shctMax (shct (x.ip % shctPrime) + 1))))

/-- The predictor with lists of lines for its sampler. -/
structure Recent where
  rrpv : Nat → Nat → Nat
  lines : Nat → List Line
  shct : Nat → Nat → Nat
  victims : List Nat

def Recent.initial : Recent := ⟨fun _ _ => maxRRPV, fun _ => [], fun _ _ => 0, []⟩

def Recent.meet (c : Config) (s : Recent) (cpu sIdx address ip : Nat) : Recent :=
  let met := meetLine c.llcWay (address / (64 * c.llcSet)) ip (s.lines sIdx) (s.shct cpu)
  { s with lines := Function.update s.lines sIdx met.1, shct := Function.update s.shct cpu met.2 }

def Recent.step (c : Config) (s : Recent) : Call → Recent
  | .findVictim set =>
    (victim c.llcWay maxRRPV (maxRRPV + 1) (s.rrpv set)).elim s (fun v =>
      { s with rrpv := Function.update s.rrpv set v.2, victims := s.victims ++ [v.1] })
  | .update cpu set way fullAddr ip type hit =>
    if type = .writeback then if hit then s else { s with rrpv := put s.rrpv set way (maxRRPV - 1) }
    else
      let s := (isItSampled c set).elim s (fun sIdx => s.meet c cpu sIdx fullAddr ip)
      { s with
        rrpv := put s.rrpv set way
          (if hit then 0 else if s.shct cpu (ip % shctPrime) = shctMax then maxRRPV else maxRRPV - 1) }

end Recent

def content (x : SamplerClass) : Option Line := if x.valid then some ⟨x.tag, x.ip, x.used⟩ else none

/-- The ways of a watched set, with their numbers of use, hold `lines`. -/
def Follows (ways : Nat) (set : Nat → SamplerClass) (lines : List Line) : Prop :=
  Filled ways Line.tag (fun w => content (set w)) (fun w => (set w).lru) lines

section Sampler

variable {ways way tag ip : Nat} {set : Nat → SamplerClass} {lines : List Line} {shct : Nat → Nat}
  {x : SamplerClass}

theorem content_useWay (ways : Nat) (set : Nat → SamplerClass) (way : Nat) (x : SamplerClass) :
    (fun w => content (useWay ways set way x w)) =
      Function.update (fun w => content (set w)) way (content x) := by
  funext w
  rw [useWay]
  by_cases hw : w = way
  · subst hw
    rw [Function.update_self, Function.update_self]
    rfl
  · rw [Function.update_of_ne hw, Function.update_of_ne hw]
    dsimp only
    split_ifs <;> rfl

theorem lru_useWay (ways : Nat) (set : Nat → SamplerClass) (way : Nat) (x : SamplerClass) :
    (fun w => (useWay ways set way x w).lru) = promote ways (fun w => (set w).lru) way := by
  funext w
  rw [useWay, promote]
  by_cases hw : w = way
  · subst hw
    rw [Function.update_self, if_pos rfl]
  · rw [Function.update_of_ne hw, if_neg hw]
    dsimp only
    split_ifs <;> rfl

theorem follows_useWay (tag ip : Nat) (hx : content x = some ⟨tag, ip, x.used⟩)
    (h : Filled ways Line.tag (Function.update (fun w => content (set w)) way (some ⟨tag, ip, x.used⟩))
      (promote ways (fun w => (set w).lru) way) lines) : Follows ways (useWay ways set way x) lines := by
  rw [Follows, content_useWay, lru_useWay, hx]
  exact h

theorem hasKey_content (x : SamplerClass) (tag : Nat) :
    hasKey Line.tag tag (content x) = (x.valid && x.tag == tag) := by
  rw [content]
  cases x.valid <;> rfl

theorem isNone_content (x : SamplerClass) : (content x).isNone = !x.valid := by
  rw [content]
  cases x.valid <;> rfl

theorem of_content {line : Line} (h : content x = some line) :
    x.valid = true ∧ line = ⟨x.tag, x.ip, x.used⟩ := by
  rw [content] at h
  split_ifs at h with hvalid
  exact ⟨hvalid, (Option.some.inj h).symm⟩

end Sampler

section Lines

variable {ways tag ip : Nat} {lines : List Line} {shct : Nat → Nat} {x : Line}

theorem meetLine_hit (h : lines.find? (fun x => x.tag == tag) = some x) : meetLine ways tag ip lines shct =
    ({ x with used := true } :: lines.eraseP (fun x => x.tag == tag),
      Function.update shct (x.ip % shctPrime) (shct (x.ip % shctPrime) - 1)) := by
  rw [meetLine, h]

theorem meetLine_new (h : lines.find? (fun x => x.tag == tag) = none) (hroom : lines.length < ways) :
    meetLine ways tag ip lines shct = (⟨tag, ip, false⟩ :: lines, shct) := by
  rw [meetLine, h]
  exact if_pos hroom

theorem meetLine_full (h : lines.find? (fun x => x.tag == tag) = none) (hfull : lines.length = ways)
    (hlast : lines.getLast? = some x) : meetLine ways tag ip lines shct = (⟨tag, ip, false⟩ :: lines.dropLast,
      if x.used then shct
      else Function.update shct (x.ip % shctPrime) (min shctMax (shct (x.ip % shctPrime) + 1))) := by
  rw [meetLine, h]
  simp only [hfull, Nat.lt_irrefl, if_false, hlast]
  cases hused : x.used with
  | true =>
      simp only [Option.filter, hused, Bool.not_true, Bool.false_eq_true, if_false, Option.elim_none, if_true]
  | false =>
      simp only [Option.filter, hused, Bool.not_false, if_true, Option.elim_some, Bool.false_eq_true, if_false]

end Lines

/-- The predictor of the code and the one with lists say the same. -/
structure Refines (c : Config) (s : State) (r : Recent) : Prop where
  rrpv : s.rrpv = r.rrpv
  shct : s.shct = r.shct
  victims : s.victims = r.victims
  sampler : ∀ i, Follows c.llcWay (s.sampler i) (r.lines i)
  counters : ∀ cpu i, s.shct cpu i ≤ shctMax
  short : ∀ set way, s.rrpv set way ≤ maxRRPV

variable {c : Config} {s : State} {r : Recent}

theorem refines_initial (c : Config) : Refines c .initial .initial :=
  ⟨rfl, rfl, rfl, fun _ => filled_start c.llcWay Line.tag, fun _ _ => Nat.zero_le _, fun _ _ => le_rfl⟩

theorem Refines.filled (h : Refines c s r) {cpu sIdx address ip : Nat}
    {set : Nat → SamplerClass} {table : Nat → Nat}
    (hset : Follows c.llcWay set
      (meetLine c.llcWay (address / (64 * c.llcSet)) ip (r.lines sIdx) (r.shct cpu)).1)
    (htable : table = (meetLine c.llcWay (address / (64 * c.llcSet)) ip (r.lines sIdx) (r.shct cpu)).2)
    (hle : ∀ i, table i ≤ shctMax) :
    Refines c { s with sampler := Function.update s.sampler sIdx set, shct := Function.update s.shct cpu table }
      (r.meet c cpu sIdx address ip) := by
  refine ⟨h.rrpv, ?_, h.victims, ?_, ?_, h.short⟩
  · simp only [Recent.meet, ← htable, h.shct]
  · intro i
    by_cases hi : i = sIdx
    · subst hi
      simp only [Recent.meet, Function.update_self]
      exact hset
    · simp only [Recent.meet, Function.update_of_ne hi]
      exact h.sampler i
  · intro cpu' i
    by_cases hcpu : cpu' = cpu
    · subst hcpu
      simp only [Function.update_self]
      exact hle i
    · simp only [Function.update_of_ne hcpu]
      exact h.counters cpu' i

theorem update_le {table : Nat → Nat} {j v : Nat} (h : ∀ i, table i ≤ shctMax) (hv : v ≤ shctMax) (i : Nat) :
    Function.update table j v i ≤ shctMax := by
  by_cases hi : i = j
  · rw [hi, Function.update_self]
    exact hv
  · rw [Function.update_of_ne hi]
    exact h i

theorem Refines.updateSampler (h : Refines c s r) (cpu sIdx address ip : Nat) :
    ∃ t, updateSampler c s cpu sIdx address ip = some t ∧ Refines c t (r.meet c cpu sIdx address ip) := by
  have hfollows := h.sampler sIdx
  have hcounters := h.counters cpu
  have hshct : s.shct cpu = r.shct cpu := congrFun h.shct cpu
  rw [ShipReplacement.updateSampler]
  simp only [← hasKey_content, ← isNone_content]
  generalize htag : address / (64 * c.llcSet) = tag
  cases hhit : search c.llcWay (fun w => hasKey Line.tag tag (content (s.sampler sIdx w))) with
  | some way =>
      obtain ⟨x, hfind, hcontent, hnew⟩ :=
        hfollows.hit (v := ⟨tag, (s.sampler sIdx way).ip, true⟩) hhit rfl
      obtain ⟨hvalid, rfl⟩ := of_content hcontent
      have hkey := List.find?_some hfind
      rw [beq_iff_eq] at hkey
      dsimp only at hkey
      refine ⟨_, rfl, h.filled ?_ ?_ ?_⟩
      · rw [htag, meetLine_hit hfind, hkey]
        refine follows_useWay tag (s.sampler sIdx way).ip ?_ hnew
        rw [content, hvalid]
        rfl
      · rw [htag, meetLine_hit hfind, hshct]
        dsimp only
        split_ifs with hpos
        · rfl
        · have hzero : r.shct cpu ((s.sampler sIdx way).ip % shctPrime) = 0 := Nat.eq_zero_of_not_pos hpos
          rw [hzero, Nat.zero_sub, ← hzero, Function.update_eq_self]
      · intro i
        split_ifs
        · exact update_le hcounters ((Nat.sub_le _ _).trans (hcounters _)) i
        · exact hcounters i
  | none =>
      have hfind := hfollows.missing hhit
      cases hfree : search c.llcWay (fun w => (content (s.sampler sIdx w)).isNone) with
      | some way =>
          obtain ⟨hroom, hnew⟩ := hfollows.fill (v := ⟨tag, ip, false⟩) hhit hfree rfl
          refine ⟨_, rfl, h.filled ?_ ?_ hcounters⟩
          · rw [htag, meetLine_new hfind hroom]
            exact follows_useWay tag ip rfl hnew
          · rw [htag, meetLine_new hfind hroom]
            exact hshct
      | none =>
          obtain ⟨way, x, hold, hlen, hlast, hcontent, hnew⟩ :=
            hfollows.replace (v := ⟨tag, ip, false⟩) c.llcWay_pos hhit hfree rfl
          obtain ⟨hvalid, rfl⟩ := of_content hcontent
          simp only [hold]
          refine ⟨_, rfl, h.filled ?_ ?_ ?_⟩
          · rw [htag, meetLine_full hfind hlen hlast]
            refine follows_useWay tag ip ?_ hnew
            rw [content, hvalid]
            rfl
          · rw [htag, meetLine_full hfind hlen hlast, hshct]
            have hle := hcounters ((s.sampler sIdx way).ip % shctPrime)
            rw [hshct] at hle
            dsimp only
            cases hused : (s.sampler sIdx way).used with
            | true => rw [if_neg (fun hcon => Bool.false_ne_true hcon.1.symm), if_pos rfl]
            | false =>
                rw [if_neg Bool.false_ne_true]
                by_cases hlt : r.shct cpu ((s.sampler sIdx way).ip % shctPrime) < shctMax
                · rw [if_pos ⟨rfl, hlt⟩, min_eq_right (Nat.succ_le_of_lt hlt)]
                · have heq := Nat.le_antisymm hle (Nat.le_of_not_lt hlt)
                  rw [if_neg (fun hcon => hlt hcon.2), heq, min_eq_left (Nat.le_succ _), ← heq,
                    Function.update_eq_self]
          · intro i
            split_ifs with hcond
            · exact update_le hcounters (Nat.succ_le_of_lt hcond.2) i
            · exact hcounters i

theorem Refines.put (h : Refines c s r) {v : Nat} (hv : v ≤ maxRRPV) (set way : Nat) :
    Refines c { s with rrpv := put s.rrpv set way v } { r with rrpv := put r.rrpv set way v } := by
  refine ⟨by simp only [h.rrpv], h.shct, h.victims, h.sampler, h.counters, ?_⟩
  intro set' way'
  by_cases hset : set' = set
  · subst hset
    simp only [ShipReplacement.put, Function.update_self]
    by_cases hway : way' = way
    · rw [hway, Function.update_self]
      exact hv
    · rw [Function.update_of_ne hway]
      exact h.short set' way'
  · simp only [ShipReplacement.put, Function.update_of_ne hset]
    exact h.short set' way'

theorem Refines.findVictim (h : Refines c s r) (set : Nat) :
    ∃ t, findVictim c s set = some t ∧ Refines c t (r.step c (.findVictim set)) := by
  obtain ⟨i, v, hvictim, hchosen⟩ := victim_spec (fun j _ => h.short set j) c.llcWay_pos
    (by omega : maxRRPV < s.rrpv set 0 + (maxRRPV + 1))
  have hvictim' : victim c.llcWay maxRRPV (maxRRPV + 1) (r.rrpv set) = some (i, v) := h.rrpv ▸ hvictim
  rw [ShipReplacement.findVictim, hvictim]
  refine ⟨_, rfl, ?_⟩
  rw [Recent.step, hvictim']
  refine ⟨?_, h.shct, ?_, h.sampler, h.counters, ?_⟩
  · show Function.update s.rrpv set v = Function.update r.rrpv set v
    rw [h.rrpv]
  · show s.victims ++ [i] = r.victims ++ [i]
    rw [h.victims]
  · intro set' way
    by_cases hset : set' = set
    · subst hset
      simp only [Function.update_self]
      exact hchosen.le (h.short set') way
    · simp only [Function.update_of_ne hset]
      exact h.short set' way

theorem Refines.update (h : Refines c s r) {cpu set way fullAddr ip : Nat} {type : RequestType} {hit : Bool}
    (hproper : type = .writeback → ip = 0) :
    ∃ t, updateReplacementState c s cpu set way fullAddr ip type hit = some t ∧
      Refines c t (r.step c (.update cpu set way fullAddr ip type hit)) := by
  rw [updateReplacementState, Recent.step]
  by_cases htype : type = .writeback
  · rw [if_pos htype, if_pos htype, if_neg (not_not.mpr (hproper htype))]
    cases hit with
    | true => exact ⟨s, rfl, h⟩
    | false => exact ⟨_, rfl, h.put (Nat.sub_le _ _) set way⟩
  · rw [if_neg htype, if_neg htype]
    have hmet : ∃ t, (isItSampled c set).elim (some s)
      (fun sIdx => ShipReplacement.updateSampler c s cpu sIdx fullAddr ip) = some t ∧
        Refines c t ((isItSampled c set).elim r (fun sIdx => r.meet c cpu sIdx fullAddr ip)) := by
      cases isItSampled c set with
      | none => exact ⟨s, rfl, h⟩
      | some sIdx => exact h.updateSampler cpu sIdx fullAddr ip
    obtain ⟨t, ht, hr⟩ := hmet
    rw [ht, Option.map_some]
    refine ⟨_, rfl, ?_⟩
    simp only [← congrFun (congrFun hr.shct cpu) (ip % shctPrime)]
    refine hr.put ?_ set way
    split_ifs
    · exact Nat.zero_le _
    · exact le_rfl
    · exact Nat.sub_le _ _

/-- The sampler, of any number of ways, with its numbers of use is a list of the lines met last: over any
calls the code finds a way for every line and the same victims as the predictor that keeps such lists, and
its counters are the same. -/
theorem ship_refines (c : Config) (calls : List Call) (hcalls : ∀ call ∈ calls, call.proper) :
    ∃ s, run (step c) .initial calls = some s ∧ s.victims = (calls.foldl (Recent.step c) .initial).victims ∧
      s.rrpv = (calls.foldl (Recent.step c) .initial).rrpv ∧
        s.shct = (calls.foldl (Recent.step c) .initial).shct ∧
      ∀ i, Follows c.llcWay (s.sampler i) ((calls.foldl (Recent.step c) .initial).lines i) := by
  have hall : ∀ (s : State) (r : Recent), Refines c s r →
      ∃ t, run (step c) s calls = some t ∧ Refines c t (calls.foldl (Recent.step c) r) := by
    induction calls with
    | nil => exact fun s r h => ⟨s, rfl, h⟩
    | cons call calls ih =>
        intro s r h
        have hstep : ∃ t, step c s call = some t ∧ Refines c t (r.step c call) := by
          cases call with
          | findVictim set => exact h.findVictim set
          | update cpu set way fullAddr ip type hit => exact h.update (hcalls _ List.mem_cons_self)
        obtain ⟨t, ht, hr⟩ := hstep
        obtain ⟨u, hu, hr'⟩ := ih (fun d hd => hcalls d (List.mem_cons_of_mem call hd)) t (r.step c call) hr
        exact ⟨u, by rw [run_cons, ht]; exact hu, hr'⟩
  obtain ⟨s, hs, hr⟩ := hall .initial .initial (refines_initial c)
  exact ⟨s, hs, hr.victims, hr.rrpv, hr.shct, hr.sampler⟩

def smallShip : Config := ⟨2, 1, 1, fun _ => 0, Nat.one_pos⟩

def twoLines : List Call :=
  [.update 0 0 0 0 5 .load false, .update 0 0 0 128 7 .load false, .update 0 0 0 128 0 .writeback true,
    .findVictim 0]

/-- The line that address 5 brought leaves without a second use. -/
theorem ship_refines_two : ∃ s, run (step smallShip) .initial twoLines = some s ∧
    s.victims = (twoLines.foldl (Recent.step smallShip) .initial).victims ∧
    s.rrpv = (twoLines.foldl (Recent.step smallShip) .initial).rrpv ∧
    s.shct = (twoLines.foldl (Recent.step smallShip) .initial).shct ∧
    ∀ i, Follows smallShip.llcWay (s.sampler i) ((twoLines.foldl (Recent.step smallShip) .initial).lines i) :=
  ship_refines smallShip twoLines (by
    intro call hcall
    simp only [twoLines, List.mem_cons, List.not_mem_nil, or_false] at hcall
    rcases hcall with rfl | rfl | rfl | rfl
    · exact fun hwriteback => nomatch hwriteback
    · exact fun hwriteback => nomatch hwriteback
    · exact fun _ => rfl
    · exact trivial)

end Thermometer.ShipReplacement
