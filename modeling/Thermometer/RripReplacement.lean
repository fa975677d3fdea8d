import Thermometer.Lib.Saturation
import Thermometer.Lib.Rereference
import Thermometer.Lib.Runs
import Thermometer.Packets

namespace Thermometer.RripReplacement

open Lib.Counters Lib.Rereference Lib.Runs Packets

def maxRRPV : Nat := 3

def sdmSize : Nat := 32

def numPolicy : Nat := 2

def bipMax : Nat := 32

def pselMax : Nat := 1 <<< 10 - 1

def pselThrs : Nat := pselMax / 2

/-- `randSets` are the leader sets, chosen once at the start. -/
structure Config where
  llcWay : Nat
  randSets : Nat → Nat
  llcWay_pos : 0 < llcWay

structure State where
  rrpv : Nat → Nat → Nat
  bipCounter : Nat
  psel : Nat → Nat

def State.initial : State := ⟨fun _ _ => maxRRPV, 0, fun _ => 0⟩

def State.put (s : State) (set way r : Nat) : State :=
  { s with rrpv := Function.update s.rrpv set (Function.update (s.rrpv set) way r) }

/-- The loop without an end of `llc_find_victim`, that has more turns here than it ever takes. -/
def findVictim (c : Config) (s : State) (set : Nat) : Option (Nat × State) :=
  (victim c.llcWay maxRRPV (maxRRPV + 1) (s.rrpv set)).map (fun v =>
    (v.1, { s with rrpv := Function.update s.rrpv set v.2 }))

/-- The policy, 0 for BIP and 1 for SRRIP, that a set leads. -/
def isItLeader (c : Config) (cpu set : Nat) : Option Nat :=
  let start := cpu * numPolicy * sdmSize
  ((List.range' start (numPolicy * sdmSize)).find? (fun i => c.randSets i == set)).map
    (fun i => (i - start) / sdmSize)

def insertBip (s : State) (set way : Nat) : State :=
  let counter := if s.bipCounter + 1 = bipMax then 0 else s.bipCounter + 1
  { s.put set way (if counter = 0 then maxRRPV - 1 else maxRRPV) with bipCounter := counter }

def vote (s : State) (cpu : Nat) (srrip : Bool) : State :=
  { s with
    psel := Function.update s.psel cpu
      (if srrip then if s.psel cpu < pselMax then s.psel cpu + 1 else s.psel cpu
        else if 0 < s.psel cpu then s.psel cpu - 1 else s.psel cpu) }

/-- `none` is a failed assertion. -/
def updateReplacementState (c : Config) (s : State) (cpu set way : Nat) (type : RequestType)
    (hit : Bool) : Option State :=
  if type = .writeback then some (s.put set way (maxRRPV - 1))
  else if hit then some (s.put set way 0)
  else
    match isItLeader c cpu set with
    | none => some (if pselThrs < s.psel cpu then insertBip s set way else s.put set way (maxRRPV - 1))
    | some 0 => some (insertBip (vote s cpu false) set way)
    | some 1 => some ((vote s cpu true).put set way (maxRRPV - 1))
    | some _ => none

inductive Call
  | findVictim (set : Nat)
  | update (cpu set way : Nat) (type : RequestType) (hit : Bool)

def step (c : Config) (s : State) : Call → Option State
  | .findVictim set => (findVictim c s set).map Prod.snd
  | .update cpu set way type hit => updateReplacementState c s cpu set way type hit

/-- What a miss in a leader set of a core says, true against SRRIP. -/
def leaderMiss (c : Config) (cpu : Nat) : Call → Option Bool
  | .update cpu' set _ type hit =>
      if cpu' = cpu ∧ type ≠ .writeback ∧ hit = false then (isItLeader c cpu set).map (fun policy => policy == 1) else none
  | .findVictim _ => none

/-- Where the misses of a core's leader sets have moved its selector. -/
def selector (c : Config) (calls : List Call) (cpu : Nat) : Nat :=
  settle pselMax 0 (calls.filterMap (leaderMiss c cpu))

/-- Which policy a miss of a core is inserted by. -/
def byBip (c : Config) (before : List Call) (cpu set : Nat) : Bool :=
  match isItLeader c cpu set with
  | some policy => policy == 0
  | none => decide (pselThrs < selector c before cpu)

def insertsByBip (c : Config) (before : List Call) : Call → Bool
  | .update cpu set _ type hit => type != .writeback && !hit && byBip c before cpu set
  | .findVictim _ => false

/-- The number that a line gets. Of the lines that BIP inserts every 32nd is to stay for longer. -/
def inserted (c : Config) (before : List Call) (cpu set : Nat) (type : RequestType) (hit : Bool) : Nat :=
  if type = .writeback then maxRRPV - 1
  else if hit then 0
  else if byBip c before cpu set then
    if (count (insertsByBip c) before + 1) % bipMax = 0 then maxRRPV - 1 else maxRRPV
  else maxRRPV - 1

/-- A state that some calls have led to. -/
structure Sound (c : Config) (calls : List Call) (s : State) : Prop where
  rrpv : ∀ set way, s.rrpv set way ≤ maxRRPV
  psel : ∀ cpu, s.psel cpu = selector c calls cpu
  counter : s.bipCounter = count (insertsByBip c) calls % bipMax

variable {c : Config} {calls : List Call} {s : State} {cpu set way policy : Nat} {type : RequestType} {hit : Bool}

theorem sound_initial (c : Config) : Sound c [] .initial := ⟨fun _ _ => le_rfl, fun _ => rfl, rfl⟩

theorem put_rrpv (s : State) (set way r set' way' : Nat) :
    (s.put set way r).rrpv set' way' = if set' = set ∧ way' = way then r else s.rrpv set' way' := by
  by_cases hset : set' = set
  · subst hset
    simp only [State.put, Function.update_self, true_and]
    by_cases hway : way' = way
    · rw [hway, Function.update_self, if_pos rfl]
    · rw [Function.update_of_ne hway, if_neg hway]
  · simp only [State.put, Function.update_of_ne hset]
    rw [if_neg (fun h => hset h.1)]

theorem counter_next (k : Nat) :
    (if k % bipMax + 1 = bipMax then 0 else k % bipMax + 1) = (k + 1) % bipMax := by
  have hlt : k % bipMax < bipMax := Nat.mod_lt k (by decide)
  rw [← Nat.mod_add_mod]
  by_cases h : k % bipMax + 1 = bipMax
  · rw [if_pos h, h, Nat.mod_self]
  · rw [if_neg h, Nat.mod_eq_of_lt (Nat.lt_of_le_of_ne hlt h)]

theorem isItLeader_lt (h : isItLeader c cpu set = some policy) : policy < numPolicy := by
  obtain ⟨i, hfind, rfl⟩ := Option.map_eq_some_iff.mp h
  have hmem := List.mem_of_find?_eq_some hfind
  rw [List.mem_range'_1] at hmem
  simp only [numPolicy, sdmSize] at hmem ⊢
  omega

theorem selector_concat (c : Config) (calls : List Call) (call : Call) (cpu : Nat) : selector c (calls ++ [call]) cpu =
    match leaderMiss c cpu call with
    | none => selector c calls cpu
    | some srrip => bump pselMax (selector c calls cpu) srrip := by
  rw [selector, List.filterMap_append]
  cases hmiss : leaderMiss c cpu call with
  | none => rw [List.filterMap_cons_none hmiss, List.filterMap_nil, List.append_nil, selector]
  | some srrip => rw [List.filterMap_cons_some hmiss, List.filterMap_nil, settle_concat, selector]

theorem inserted_le (c : Config) (before : List Call) (cpu set : Nat) (type : RequestType) (hit : Bool) :
    inserted c before cpu set type hit ≤ maxRRPV := by
  rw [inserted]
  split_ifs <;> decide

/-- What an update does to the state: to one line, to the selector of its core and to the counter of BIP. -/
structure Updated (c : Config) (calls : List Call) (s : State) (cpu set way : Nat) (type : RequestType) (hit : Bool)
    (t : State) : Prop where
  rrpv : ∀ set' way', t.rrpv set' way' =
    if set' = set ∧ way' = way then inserted c calls cpu set type hit else s.rrpv set' way'
  psel : ∀ cpu', t.psel cpu' = selector c (calls ++ [.update cpu set way type hit]) cpu'
  counter : t.bipCounter = count (insertsByBip c) (calls ++ [.update cpu set way type hit]) % bipMax

theorem Updated.sound {t : State} (h : Updated c calls s cpu set way type hit t) (hs : Sound c calls s) :
    Sound c (calls ++ [.update cpu set way type hit]) t := by
  refine ⟨fun set' way' => ?_, h.psel, h.counter⟩
  rw [h.rrpv]
  split_ifs
  · exact inserted_le c calls cpu set type hit
  · exact hs.rrpv set' way'

theorem selector_of_quiet {call : Call} (h : leaderMiss c cpu call = none) :
    selector c (calls ++ [call]) cpu = selector c calls cpu := by
  rw [selector_concat, h]

theorem Sound.insertBip (h : Sound c calls s) (u : State) (hcounter : u.bipCounter = s.bipCounter) (set way : Nat) :
    insertBip u set way = { u.put set way (if (count (insertsByBip c) calls + 1) % bipMax = 0 then maxRRPV - 1 else maxRRPV) with
      bipCounter := (count (insertsByBip c) calls + 1) % bipMax } := by
  rw [RripReplacement.insertBip, hcounter, h.counter, counter_next]

theorem vote_psel (s : State) (cpu : Nat) (srrip : Bool) (cpu' : Nat) :
    (vote s cpu srrip).psel cpu' = if cpu' = cpu then bump pselMax (s.psel cpu') srrip else s.psel cpu' := by
  by_cases hcpu : cpu' = cpu
  · subst hcpu
    simp only [vote, Function.update_self, if_true, bump]
  · simp only [vote, Function.update_of_ne hcpu]
    rw [if_neg hcpu]

theorem Sound.updated_quiet (h : Sound c calls s) (hquiet : ∀ cpu', leaderMiss c cpu' (.update cpu set way type hit) = none)
    (hbip : insertsByBip c calls (.update cpu set way type hit) = false) :
    Updated c calls s cpu set way type hit (s.put set way (inserted c calls cpu set type hit)) := by
  refine ⟨put_rrpv s set way _, fun cpu' => ?_, ?_⟩
  · rw [selector_of_quiet (hquiet cpu')]
    exact h.psel cpu'
  · rw [count_concat, hbip, if_neg Bool.false_ne_true]
    exact h.counter

theorem leaderMiss_of_none (hleader : isItLeader c cpu set = none) (cpu' : Nat) :
    leaderMiss c cpu' (.update cpu set way type hit) = none := by
  rw [leaderMiss]
  split_ifs with h
  · rw [← h.1, hleader]
    rfl
  · rfl

theorem leaderMiss_of_some (htype : type ≠ .writeback) (hhit : hit = false) (hleader : isItLeader c cpu set = some policy)
    (cpu' : Nat) : leaderMiss c cpu' (.update cpu set way type hit) = if cpu' = cpu then some (policy == 1) else none := by
  rw [leaderMiss]
  by_cases hcpu : cpu' = cpu
  · rw [if_pos ⟨hcpu.symm, htype, hhit⟩, if_pos hcpu, hcpu, hleader]
    rfl
  · rw [if_neg (fun h => hcpu h.1.symm), if_neg hcpu]

theorem insertsByBip_of_miss (htype : type ≠ .writeback) (hhit : hit = false) :
    insertsByBip c calls (.update cpu set way type hit) = byBip c calls cpu set := by
  rw [insertsByBip, hhit, bne_iff_ne.mpr htype, Bool.not_false, Bool.true_and, Bool.true_and]

theorem inserted_of_miss (htype : type ≠ .writeback) (hhit : hit = false) : inserted c calls cpu set type hit =
    if byBip c calls cpu set then
      if (count (insertsByBip c) calls + 1) % bipMax = 0 then maxRRPV - 1 else maxRRPV
    else maxRRPV - 1 := by
  rw [inserted, if_neg htype, hhit, if_neg Bool.false_ne_true]

theorem Sound.updated_miss (h : Sound c calls s) (set way : Nat) (htype : type ≠ .writeback) (hhit : hit = false) {u : State}
    (hrrpv : u.rrpv = s.rrpv) (hcounter : u.bipCounter = s.bipCounter)
    (hpsel : ∀ cpu', u.psel cpu' = selector c (calls ++ [.update cpu set way type hit]) cpu') :
    Updated c calls s cpu set way type hit
      (if byBip c calls cpu set then RripReplacement.insertBip u set way else u.put set way (maxRRPV - 1)) := by
  have hput : ∀ r set' way', (u.put set way r).rrpv set' way' = if set' = set ∧ way' = way then r else s.rrpv set' way' := by
    intro r set' way'
    rw [put_rrpv, hrrpv]
  cases hbip : byBip c calls cpu set with
  | true =>
      rw [if_pos rfl, h.insertBip u hcounter]
      refine ⟨fun set' way' => ?_, hpsel, ?_⟩
      · rw [inserted_of_miss htype hhit, hbip, if_pos rfl]
        exact hput _ set' way'
      · rw [count_concat, insertsByBip_of_miss htype hhit, hbip, if_pos rfl]
  | false =>
      rw [if_neg Bool.false_ne_true]
      refine ⟨fun set' way' => ?_, hpsel, ?_⟩
      · rw [inserted_of_miss htype hhit, hbip, if_neg Bool.false_ne_true]
        exact hput _ set' way'
      · rw [count_concat, insertsByBip_of_miss htype hhit, hbip, if_neg Bool.false_ne_true]
        exact hcounter.trans h.counter

theorem Sound.vote_psel (h : Sound c calls s) (htype : type ≠ .writeback) (hhit : hit = false)
    (hleader : isItLeader c cpu set = some policy) (way cpu' : Nat) : (vote s cpu (policy == 1)).psel cpu' =
      selector c (calls ++ [.update cpu set way type hit]) cpu' := by
  rw [selector_concat, leaderMiss_of_some htype hhit hleader, RripReplacement.vote_psel, h.psel]
  split_ifs <;> rfl

theorem Sound.update (h : Sound c calls s) (cpu set way : Nat) (type : RequestType) (hit : Bool) :
    ∃ t, updateReplacementState c s cpu set way type hit = some t ∧ Updated c calls s cpu set way type hit t := by
  rw [updateReplacementState]
  by_cases htype : type = .writeback
  · refine ⟨_, if_pos htype, ?_⟩
    have hvalue : inserted c calls cpu set type hit = maxRRPV - 1 := if_pos htype
    rw [← hvalue]
    apply h.updated_quiet
    · exact fun cpu' => if_neg (fun h => h.2.1 htype)
    · rw [insertsByBip, htype]
      rfl
  rw [if_neg htype]
  by_cases hhit : hit = true
  · refine ⟨_, if_pos hhit, ?_⟩
    have hvalue : inserted c calls cpu set type hit = 0 := by rw [inserted, if_neg htype, if_pos hhit]
    rw [← hvalue]
    apply h.updated_quiet
    · exact fun cpu' => if_neg (fun h => Bool.false_ne_true (h.2.2.symm.trans hhit))
    · rw [insertsByBip, hhit, Bool.not_true, Bool.and_false, Bool.false_and]
  rw [if_neg hhit]
  have hmiss : hit = false := Bool.eq_false_of_not_eq_true hhit
  cases hleader : isItLeader c cpu set with
  | none =>
      have hbip : byBip c calls cpu set = decide (pselThrs < s.psel cpu) := by rw [byBip, hleader, h.psel]
      have hupdated := h.updated_miss set way htype hmiss rfl rfl (fun cpu' => by
        rw [selector_of_quiet (leaderMiss_of_none hleader cpu'), h.psel])
      rw [hbip] at hupdated
      simp only [decide_eq_true_eq] at hupdated
      exact ⟨_, rfl, hupdated⟩
  | some policy =>
      have hbip : byBip c calls cpu set = (policy == 0) := by rw [byBip, hleader]
      have hupdated := h.updated_miss set way (u := vote s cpu (policy == 1)) htype hmiss rfl rfl
        (h.vote_psel htype hmiss hleader way)
      rw [hbip] at hupdated
      have hlt := isItLeader_lt hleader
      match policy, hlt with
      | 0, _ => exact ⟨_, rfl, hupdated⟩
      | 1, _ => exact ⟨_, rfl, hupdated⟩

theorem Sound.findVictim (h : Sound c calls s) (set : Nat) : ∃ i t, findVictim c s set = some (i, t) ∧
    Chosen c.llcWay maxRRPV (s.rrpv set) i (t.rrpv set) ∧ (∀ set', set' ≠ set → t.rrpv set' = s.rrpv set') ∧
    Sound c (calls ++ [.findVictim set]) t := by
  have hspec : ∃ i r, victim c.llcWay maxRRPV (maxRRPV + 1) (s.rrpv set) = some (i, r) ∧
      Chosen c.llcWay maxRRPV (s.rrpv set) i r := victim_spec (fun j _ => h.rrpv set j) c.llcWay_pos (by omega)
  obtain ⟨i, r, hvictim, hchosen⟩ := hspec
  rw [RripReplacement.findVictim, hvictim]
  refine ⟨i, _, rfl, ?_, fun set' hne => Function.update_of_ne hne .., ?_, fun cpu => ?_, ?_⟩
  · simp only [Function.update_self]
    exact hchosen
  · intro set' way
    by_cases hset : set' = set
    · subst hset
      simp only [Function.update_self]
      exact hchosen.le (h.rrpv set') way
    · simp only [Function.update_of_ne hset]
      exact h.rrpv set' way
  · rw [selector_of_quiet rfl]
    exact h.psel cpu
  · rw [count_concat, insertsByBip, if_neg Bool.false_ne_true]
    exact h.counter

theorem Sound.step (h : Sound c calls s) (call : Call) :
    ∃ t, RripReplacement.step c s call = some t ∧ Sound c (calls ++ [call]) t := by
  cases call with
  | findVictim set =>
      obtain ⟨i, t, hfind, -, -, ht⟩ := h.findVictim set
      exact ⟨t, by rw [RripReplacement.step, hfind]; rfl, ht⟩
  | update cpu set way type hit =>
      obtain ⟨t, ht, hupdated⟩ := h.update cpu set way type hit
      exact ⟨t, ht, hupdated.sound h⟩

theorem run_sound (c : Config) (calls : List Call) : ∃ s, run (step c) .initial calls = some s ∧ Sound c calls s := by
  induction calls using List.reverseRecOn with
  | nil => exact ⟨_, rfl, sound_initial c⟩
  | append_singleton calls call ih =>
      obtain ⟨s, hs, hsound⟩ := ih
      obtain ⟨t, ht, hsound⟩ := hsound.step call
      refine ⟨t, ?_, hsound⟩
      rw [run_append, hs, Option.bind_some, run_single]
      exact ht

/-- After any calls, a core's selector is where the misses of its leader sets have moved it, an update gives its line the
number that the leaders or the selector say and changes no other, and the search for a victim ends with the first
line of the largest number, all lines of the set having grown alike. -/
theorem set_dueling (c : Config) (calls : List Call) :
    ∃ s, run (step c) .initial calls = some s ∧ (∀ cpu, s.psel cpu = selector c calls cpu) ∧
      (∀ cpu set way type hit, ∃ t, step c s (.update cpu set way type hit) = some t ∧ ∀ set' way', t.rrpv set' way' =
        if set' = set ∧ way' = way then inserted c calls cpu set type hit else s.rrpv set' way') ∧
      ∀ set, ∃ i t, findVictim c s set = some (i, t) ∧ Chosen c.llcWay maxRRPV (s.rrpv set) i (t.rrpv set) ∧
        ∀ set', set' ≠ set → t.rrpv set' = s.rrpv set' := by
  obtain ⟨s, hs, hsound⟩ := run_sound c calls
  refine ⟨s, hs, hsound.psel, fun cpu set way type hit => ?_, fun set => ?_⟩
  · obtain ⟨t, ht, hupdated⟩ := hsound.update cpu set way type hit
    exact ⟨t, ht, hupdated.rrpv⟩
  · obtain ⟨i, t, hfind, hchosen, hothers, -⟩ := hsound.findVictim set
    exact ⟨i, t, hfind, hchosen, hothers⟩

end Thermometer.RripReplacement
