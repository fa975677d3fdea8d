import Thermometer.CacheMoves
import Thermometer.Lib.Ageing

namespace Thermometer.CacheLru

open Lib Runs Ageing Packets CacheModel CacheBlocks CacheMoves

variable {R : Type}

/-- What happens to a set: a packet is filled in, or a read or a write finds the block of a way. -/
inductive Event (R : Type)
  | fill (packet : Packet R)
  | readHit (way : Nat) (packet : Packet R)
  | writeHit (way : Nat) (packet : Packet R)

def touch (numWay way : Nat) (packet : Packet R) (fullAddr : Nat) (hit : Bool) (blocks : Nat → Block) : Nat → Block :=
  fun w => { blocks w with
    lru := lruUpdate numWay way ⟨packet.cpu, fullAddr, packet.ip, packet.type, hit⟩ (fun w => (blocks w).lru) w }

/-- The packet in the block of a way, which keeps its `lru`. -/
def place (config : Config Unit R) (way : Nat) (packet : Packet R) (blocks : Nat → Block) : Nat → Block :=
  if way = config.numWay then blocks
  else Function.update blocks way { packet.toBlock with
    lru := (blocks way).lru
    dirty := packet.type == .writeback || (packet.type == .rfo && config.cacheType == .l1d) }

def change (way : Nat) (f : Block → Block) (blocks : Nat → Block) : Nat → Block := Function.update blocks way (f (blocks way))

/-- `none` is not a hit. -/
def step (config : Config Unit R) (blocks : Nat → Block) : Event R → Option (Nat → Block)
  | .fill packet =>
      let way := lruVictim config.numWay blocks
      some (touch config.numWay way packet packet.fullAddr false (place config way packet blocks))
  | .readHit way packet =>
      if way < config.numWay ∧ (blocks way).valid = true then
        some (change way (fun b => { b with prefetch := false, used := true })
          (touch config.numWay way packet (blocks way).fullAddr true blocks))
      else none
  | .writeHit way packet =>
      if way < config.numWay ∧ (blocks way).valid = true then
        some (change way (fun b => { b with dirty := true })
          (touch config.numWay way packet (blocks way).fullAddr true blocks))
      else none

/-- The way that an event makes the most recent one: that of a fill, or of a hit but by a writeback. -/
def promoted (config : Config Unit R) (blocks : Nat → Block) : Event R → Option Nat
  | .fill _ => some (lruVictim config.numWay blocks)
  | .readHit way packet => if packet.type = .writeback then none else some way
  | .writeHit way packet => if packet.type = .writeback then none else some way

/-- The promoting events of a run, by their ways. -/
def promotions (config : Config Unit R) (blocks : Nat → Block) (events : List (Event R)) : List Nat :=
  emits (step config) (promoted config) blocks events

/-- The replacement is true LRU in a set after the promotions `uses`. -/
structure TrueLru (config : Config Unit R) (blocks : Nat → Block) (uses : List Nat) : Prop where
  invalidFirst : (∃ w < config.numWay, (blocks w).valid = false) →
    lruVictim config.numWay blocks < config.numWay ∧ (blocks (lruVictim config.numWay blocks)).valid = false
  oldest : (∀ w < config.numWay, (blocks w).valid = true) → ∀ w < config.numWay, w ≠ lruVictim config.numWay blocks →
    since uses w < since uses (lruVictim config.numWay blocks)
  distinct : ∀ v < config.numWay, ∀ w < config.numWay, (blocks v).valid = true → (blocks w).valid = true →
    (blocks v).lru = (blocks w).lru → v = w
  notAbove : ∀ v < config.numWay, ∀ w < config.numWay, (blocks v).valid = true → (blocks w).valid = false →
    (blocks v).lru ≤ (blocks w).lru
  preserved : ∀ way packet w, (place config way packet blocks w).lru = (blocks w).lru

section Victim

variable {blocks : Nat → Block} {n : Nat}

def larger (blocks : Nat → Block) (l w : Nat) : Nat := if lruComparator (blocks l) (blocks w) then w else l

structure Largest (blocks : Nat → Block) (n l : Nat) : Prop where
  le : l ≤ n
  invalid : ∀ w ≤ n, (blocks w).valid = false → (blocks l).valid = false
  lru : (blocks l).valid = true → ∀ w ≤ n, (blocks w).lru ≤ (blocks l).lru

theorem Largest.succ {l : Nat} (h : Largest blocks n l) : Largest blocks (n + 1) (larger blocks l (n + 1)) := by
  have hcases : ∀ w, w ≤ n + 1 → w ≤ n ∨ w = n + 1 := fun w hw => Nat.le_succ_iff.mp hw
  by_cases hnew : (blocks (n + 1)).valid = true
  · have hkeep : ∀ w ≤ n + 1, (blocks w).valid = false → (blocks l).valid = false := by
      intro w hw hinvalid
      rcases hcases w hw with hw | rfl
      · exact h.invalid w hw hinvalid
      · rw [hnew] at hinvalid
        cases hinvalid
    simp only [larger, lruComparator, hnew, Bool.not_true, Bool.false_or, Bool.and_eq_true, decide_eq_true_iff]
    split_ifs with hlt
    · refine ⟨le_rfl, fun w hw hinvalid => ?_, fun _ w hw => ?_⟩
      · rw [hkeep w hw hinvalid] at hlt
        cases hlt.1
      · rcases hcases w hw with hw | rfl
        · exact (h.lru hlt.1 w hw).trans hlt.2.le
        · exact le_rfl
    · refine ⟨h.le.trans n.le_succ, hkeep, fun hvalid w hw => ?_⟩
      rcases hcases w hw with hw | rfl
      · exact h.lru hvalid w hw
      · exact not_lt.mp (fun hless => hlt ⟨hvalid, hless⟩)
  · rw [Bool.not_eq_true] at hnew
    have hlarger : larger blocks l (n + 1) = n + 1 := by simp [larger, lruComparator, hnew]
    rw [hlarger]
    refine ⟨le_rfl, fun _ _ _ => hnew, fun hvalid => ?_⟩
    rw [hnew] at hvalid
    cases hvalid

theorem scan_largest (blocks : Nat → Block) (n : Nat) : Largest blocks n ((List.range' 1 n).foldl (larger blocks) 0) := by
  induction n with
  | zero =>
      refine ⟨le_rfl, fun w hw hinvalid => ?_, fun _ w hw => ?_⟩
      · rw [Nat.le_zero.mp hw] at hinvalid
        exact hinvalid
      · rw [Nat.le_zero.mp hw]
        exact le_rfl
  | succ n ih =>
      rw [List.range'_concat, List.foldl_append, one_mul, Nat.add_comm 1 n]
      exact ih.succ

theorem lruVictim_largest (n : Nat) (blocks : Nat → Block) : Largest blocks (n - 1) (lruVictim n blocks) := scan_largest blocks (n - 1)

end Victim

/-- What is so of a set after the promotions `uses`. Before the first of them the fields may be at their
greatest value, from which the first fill takes them all to 0. -/
structure Inv (config : Config Unit R) (slack : Nat) (blocks : Nat → Block) (uses : List Nat) : Prop where
  valid : ∀ w < config.numWay, (blocks w).valid = true ↔ w ∈ uses
  aged : Aged config.numWay (2 ^ 32) slack (fun w => (blocks w).lru) uses ∨
    uses = [] ∧ slack = 1 ∧ ∀ w < config.numWay, (blocks w).lru = 2 ^ 32 - 1

section Steps

variable {config : Config Unit R} {slack : Nat} {blocks blocks' : Nat → Block} {uses : List Nat} {event : Event R}
  {n way x : Nat} {access : Access} {lru : Nat → Nat}

theorem lruUpdate_eq_use (hpromotes : ¬(access.hit = true ∧ access.type = .writeback))
    (hfit : ∀ w < n, w ≠ x → lru w ≤ lru x → lru w + 1 < 2 ^ 32) : lruUpdate n x access lru = use n lru x := by
  funext w
  rw [lruUpdate, if_neg hpromotes]
  by_cases hw : w = x
  · rw [hw, use_self, Function.update_self]
  · rw [use_of_ne hw, Function.update_of_ne hw]
    split_ifs with hle
    · exact Nat.mod_eq_of_lt (hfit w hle.1 hw hle.2)
    · rfl

theorem first_aged (hn : n < 2 ^ 32) (hx : x < n) (hpromotes : ¬(access.hit = true ∧ access.type = .writeback))
    (hlru : ∀ w < n, lru w = 2 ^ 32 - 1) : Aged n (2 ^ 32) 1 (lruUpdate n x access lru) [x] := by
  have hzero : ∀ w < n, lruUpdate n x access lru w = 0 := by
    intro w hw
    rw [lruUpdate, if_neg hpromotes]
    by_cases hwx : w = x
    · rw [hwx, Function.update_self]
    · rw [Function.update_of_ne hwx, hlru w hw, hlru x hx, if_pos ⟨hw, le_rfl⟩]
      omega
  have hcount : used n [x] = 1 := by
    have hconcat : used n ([] ++ [x]) = if x ∈ [] then used n [] else used n [] + 1 := used_concat hx
    rw [List.nil_append, if_neg List.not_mem_nil] at hconcat
    rw [hconcat]
    simp [used]
  refine ⟨fun a ha b hb hma hmb => ?_, fun a ha _ => ?_, 0, fun a ha _ => hzero a ha, ?_, ?_⟩
  · rw [List.mem_singleton.mp hma, List.mem_singleton.mp hmb]
    omega
  · rw [hzero a ha, hcount]
    exact Nat.one_pos
  · omega
  · omega

theorem Inv.promote {a : Access} (h : Inv config slack blocks uses) (hslack : slack ≤ 1) (hn : config.numWay < 2 ^ 32)
    (hx : x < config.numWay) (hpromotes : ¬(a.hit = true ∧ a.type = .writeback))
    (hlru : ∀ w, (blocks' w).lru = lruUpdate config.numWay x a (fun w => (blocks w).lru) w)
    (hvalid : ∀ w < config.numWay, (blocks' w).valid = true ↔ w = x ∨ (blocks w).valid = true) :
    Inv config slack blocks' (uses ++ [x]) := by
  have hfields : (fun w => (blocks' w).lru) = lruUpdate config.numWay x a (fun w => (blocks w).lru) := funext hlru
  refine ⟨fun w hw => ?_, .inl ?_⟩
  · rw [hvalid w hw, h.valid w hw, List.mem_append, List.mem_singleton]
    exact or_comm
  · rw [hfields]
    rcases h.aged with haged | ⟨rfl, rfl, hmax⟩
    · rw [lruUpdate_eq_use hpromotes (fun w hw hne hle => haged.age_lt hn hx hw hne hle)]
      by_cases hmem : x ∈ uses
      · exact haged.use_again hslack hn hx hmem
      · exact haged.use_new hslack hx hmem
    · exact first_aged hn hx hpromotes hmax

theorem inv_of_no_ways (hn : config.numWay = 0) (blocks : Nat → Block) (uses : List Nat) : Inv config slack blocks uses := by
  have hused : used config.numWay uses = 0 := by simp [used, hn]
  refine ⟨fun w hw => by omega, .inl ⟨fun a ha => by omega, fun a ha => by omega, 0, fun a ha => by omega, ?_, ?_⟩⟩
  · omega
  · omega

theorem place_lru (config : Config Unit R) (way : Nat) (packet : Packet R) (blocks : Nat → Block) (w : Nat) :
    (place config way packet blocks w).lru = (blocks w).lru := by
  rw [place]
  split_ifs
  · rfl
  · by_cases hw : w = way
    · rw [hw, Function.update_self]
    · rw [Function.update_of_ne hw]

theorem place_valid {packet : Packet R} (hway : way ≠ config.numWay) (w : Nat) :
    (place config way packet blocks w).valid = true ↔ w = way ∨ (blocks w).valid = true := by
  rw [place, if_neg hway]
  by_cases hw : w = way
  · rw [hw, Function.update_self]
    exact iff_of_true rfl (.inl rfl)
  · rw [Function.update_of_ne hw, or_iff_right hw]

theorem fill_inv {packet : Packet R} (h : Inv config slack blocks uses) (hslack : slack ≤ 1) (hn : config.numWay < 2 ^ 32)
    (hs : step config blocks (.fill packet) = some blocks') :
    Inv config slack blocks' (uses ++ [lruVictim config.numWay blocks]) := by
  rcases Nat.eq_zero_or_pos config.numWay with hzero | hpos
  · exact inv_of_no_ways hzero _ _
  have hlt := lruVictim_lt hpos blocks
  rw [step, Option.some.injEq] at hs
  subst hs
  have hmiss : ¬(false = true ∧ packet.type = .writeback) := fun hboth => Bool.false_ne_true hboth.1
  apply h.promote hslack hn hlt (a := ⟨packet.cpu, packet.fullAddr, packet.ip, packet.type, false⟩) hmiss
  · intro w
    have hold : (fun w => (place config (lruVictim config.numWay blocks) packet blocks w).lru) = fun w => (blocks w).lru :=
      funext (place_lru config _ packet blocks)
    simp only [touch, hold]
  · exact fun w _ => place_valid hlt.ne w

/-- What a hit leaves: the fields are updated, and the flags of one block. -/
theorem hit_inv {packet : Packet R} {fullAddr : Nat} {f : Block → Block} (h : Inv config slack blocks uses) (hslack : slack ≤ 1)
    (hn : config.numWay < 2 ^ 32) (hway : way < config.numWay) (hvalid : (blocks way).valid = true)
    (hflru : ∀ b, (f b).lru = b.lru) (hfvalid : ∀ b, (f b).valid = b.valid) :
    Inv config slack (change way f (touch config.numWay way packet fullAddr true blocks))
      (uses ++ (if packet.type = .writeback then none else some way).toList) := by
  have hlru : ∀ w, (change way f (touch config.numWay way packet fullAddr true blocks) w).lru =
      lruUpdate config.numWay way ⟨packet.cpu, fullAddr, packet.ip, packet.type, true⟩ (fun w => (blocks w).lru) w := by
    intro w
    rw [change]
    by_cases hw : w = way
    · rw [hw, Function.update_self, hflru]
      rfl
    · rw [Function.update_of_ne hw]
      rfl
  have hkeep : ∀ w, (change way f (touch config.numWay way packet fullAddr true blocks) w).valid = (blocks w).valid := by
    intro w
    rw [change]
    by_cases hw : w = way
    · rw [hw, Function.update_self, hfvalid]
      rfl
    · rw [Function.update_of_ne hw]
      rfl
  by_cases htype : packet.type = .writeback
  · have hsame : (fun w => (change way f (touch config.numWay way packet fullAddr true blocks) w).lru) =
        fun w => (blocks w).lru := by
      funext w
      rw [hlru w, lruUpdate, if_pos ⟨rfl, htype⟩]
    rw [if_pos htype, Option.toList_none, List.append_nil]
    refine ⟨fun w hw => ?_, ?_⟩
    · rw [hkeep]
      exact h.valid w hw
    · rw [hsame]
      simp only [hlru, lruUpdate, htype, and_self, if_true]
      exact h.aged
  · rw [if_neg htype, Option.toList_some]
    apply h.promote hslack hn hway (fun hboth => htype hboth.2) hlru
    intro w _
    rw [hkeep]
    constructor
    · exact .inr
    · rintro (rfl | hw)
      · exact hvalid
      · exact hw

theorem step_inv (h : Inv config slack blocks uses) (hslack : slack ≤ 1) (hn : config.numWay < 2 ^ 32)
    (hs : step config blocks event = some blocks') :
    Inv config slack blocks' (uses ++ (promoted config blocks event).toList) := by
  cases event with
  | fill packet => exact fill_inv h hslack hn hs
  | readHit way packet =>
      rw [step, Option.ite_none_right_eq_some, Option.some.injEq] at hs
      obtain ⟨⟨hway, hvalid⟩, rfl⟩ := hs
      exact hit_inv h hslack hn hway hvalid (fun _ => rfl) (fun _ => rfl)
  | writeHit way packet =>
      rw [step, Option.ite_none_right_eq_some, Option.some.injEq] at hs
      obtain ⟨⟨hway, hvalid⟩, rfl⟩ := hs
      exact hit_inv h hslack hn hway hvalid (fun _ => rfl) (fun _ => rfl)

theorem run_inv {events : List (Event R)} (h : Inv config slack blocks []) (hslack : slack ≤ 1) (hn : config.numWay < 2 ^ 32)
    (hrun : run (step config) blocks events = some blocks') :
    Inv config slack blocks' (promotions config blocks events) :=
  emits_preserves (fun _ _ _ _ hi hs => step_inv hi hslack hn hs) h hrun

theorem initial_inv {v : Nat} (hempty : ∀ w < config.numWay, (blocks w).valid = false ∧ (blocks w).lru = v)
    (hv : v + config.numWay ≤ 2 ^ 32 ∧ slack = 0 ∨ v = 2 ^ 32 - 1 ∧ slack = 1) : Inv config slack blocks [] := by
  refine ⟨fun w hw => ?_, ?_⟩
  · rw [(hempty w hw).1]
    exact iff_of_false Bool.false_ne_true List.not_mem_nil
  · rcases hv with ⟨hroom, rfl⟩ | ⟨rfl, rfl⟩
    · exact .inl (Aged.initial (fun w hw => (hempty w hw).2) hroom)
    · exact .inr ⟨rfl, rfl, fun w hw => (hempty w hw).2⟩

theorem Inv.lru_lt (h : Inv config slack blocks uses) {a b : Nat} (ha : a < config.numWay) (hb : b < config.numWay)
    (hvalid : (blocks a).valid = true) (hinvalid : (blocks b).valid = false) :
    (blocks a).lru < (blocks b).lru + slack := by
  have hma := (h.valid a ha).mp hvalid
  rcases h.aged with haged | ⟨rfl, -, -⟩
  · have hmb : b ∉ uses := by
      intro hmb
      rw [(h.valid b hb).mpr hmb] at hinvalid
      cases hinvalid
    obtain ⟨i, hrest, hi, -⟩ := haged.rest
    have hbelow := haged.below a ha hma
    have hbi := hrest b hb hmb
    omega
  · cases hma

theorem Inv.trueLru (h : Inv config slack blocks uses) (hslack : slack ≤ 1) : TrueLru config blocks uses := by
  have hlargest := lruVictim_largest config.numWay blocks
  have haged : (∃ w < config.numWay, (blocks w).valid = true) →
      Aged config.numWay (2 ^ 32) slack (fun w => (blocks w).lru) uses := by
    rintro ⟨w, hw, hvalid⟩
    refine h.aged.resolve_right fun hnone => ?_
    have hmem := (h.valid w hw).mp hvalid
    rw [hnone.1] at hmem
    cases hmem
  refine ⟨?_, ?_, ?_, ?_, ?_⟩
  · rintro ⟨w, hw, hinvalid⟩
    exact ⟨lruVictim_lt (by omega) blocks, hlargest.invalid w (by omega) hinvalid⟩
  · intro hall w hw hne
    have hlt : lruVictim config.numWay blocks < config.numWay := lruVictim_lt (by omega) blocks
    have haged := haged ⟨w, hw, hall w hw⟩
    have hmw := (h.valid w hw).mp (hall w hw)
    have hmv := (h.valid _ hlt).mp (hall _ hlt)
    have hle := hlargest.lru (hall _ hlt) w (by omega)
    refine (haged.order w hw _ hlt hmw hmv).mp (lt_of_le_of_ne hle fun heq => ?_)
    exact hne (haged.injective hw hlt hmw hmv heq)
  · intro v hv w hw hvv hvw heq
    exact (haged ⟨v, hv, hvv⟩).injective hv hw ((h.valid v hv).mp hvv) ((h.valid w hw).mp hvw) heq
  · intro v hv w hw hvv hvw
    have hlt := h.lru_lt hv hw hvv hvw
    omega
  · exact fun way packet w => place_lru config way packet blocks w

end Steps

/-- After every run of fills and hits on a set that starts empty, with `lru` fields at their greatest value or with
room for the ways above them, the replacement is true LRU. In the second case the fields of the valid ways are
below those of the others. -/
theorem true_lru {config : Config Unit R} {v : Nat} {blocks₀ blocks : Nat → Block} {events : List (Event R)}
    (hn : config.numWay < 2 ^ 32) (hv : v = 2 ^ 32 - 1 ∨ v + config.numWay ≤ 2 ^ 32)
    (hempty : ∀ w < config.numWay, (blocks₀ w).valid = false ∧ (blocks₀ w).lru = v)
    (h : run (step config) blocks₀ events = some blocks) :
    TrueLru config blocks (promotions config blocks₀ events) ∧
      (v + config.numWay ≤ 2 ^ 32 → ∀ a < config.numWay, ∀ b < config.numWay, (blocks a).valid = true →
        (blocks b).valid = false → (blocks a).lru < (blocks b).lru) := by
  by_cases hroom : v + config.numWay ≤ 2 ^ 32
  · have hinv := run_inv (initial_inv hempty (.inl ⟨hroom, rfl⟩)) (Nat.zero_le 1) hn h
    exact ⟨hinv.trueLru (Nat.zero_le 1), fun _ a ha b hb hvalid hinvalid => hinv.lru_lt ha hb hvalid hinvalid⟩
  · have hinv := run_inv (initial_inv hempty (.inr ⟨hv.resolve_right hroom, rfl⟩)) le_rfl hn h
    exact ⟨hinv.trueLru le_rfl, fun hle => absurd hle hroom⟩

/-- Two fills of a set of two ways, and a hit on the first of them. -/
def filledTwice : List (Event Nat) :=
  [.fill (blockFive .load []), .fill (blockFive .rfo []), .readHit 1 (blockFive .load [])]

theorem true_lru_twice : ∃ blocks, run (step small) (fun _ => {}) filledTwice = some blocks ∧
    TrueLru small blocks (promotions small (fun _ => {}) filledTwice) ∧ lruVictim 2 blocks = 0 :=
  ⟨_, rfl, (true_lru (by decide) (.inl rfl) (fun _ _ => ⟨rfl, rfl⟩) rfl).1, by decide⟩

/-- From the value that the fields start with, the first fill leaves no room between the valid way and the others. -/
theorem first_fill_level : ¬∀ (events : List (Event Nat)) (blocks : Nat → Block),
    run (step small) (fun _ => {}) events = some blocks → ∀ a < small.numWay, ∀ b < small.numWay,
      (blocks a).valid = true → (blocks b).valid = false → (blocks a).lru < (blocks b).lru := by
  intro h
  have hlt := h [.fill (blockFive .load [])] _ rfl 1 (by decide) 0 (by decide) (by decide) (by decide)
  exact absurd hlt (by decide)

def threeWays : Config Unit Nat := { small with numWay := 3, policy := lruPolicy Nat 3 }

/-- From one below it the field of a valid way wraps around, and after three fills two valid ways are level. -/
theorem wrapped_level : ¬∀ (events : List (Event Nat)) (blocks : Nat → Block),
    run (step threeWays) (fun _ => { lru := 2 ^ 32 - 2 }) events = some blocks →
      TrueLru threeWays blocks (promotions threeWays (fun _ => { lru := 2 ^ 32 - 2 }) events) := by
  intro h
  have hlru := h [.fill (blockFive .load []), .fill (blockFive .load []), .fill (blockFive .load [])] _ rfl
  exact absurd (hlru.distinct 1 (by decide) 2 (by decide) (by decide) (by decide) (by decide)) (by decide)

section Cache

/-- What the calls of a cache have done to a set is fills and hits. -/
def Reached (config : Config Unit R) (set : Nat) (c : Cache Unit R) : Prop :=
  c.config = config ∧ ∃ events, run (step config) (fun _ => {}) events = some (c.block set)

variable {config : Config Unit R} {c c' : Cache Unit R} {set way : Nat} {packet : Packet R} {f : Block → Block}

theorem Reached.same (h : Reached config set c) (hconfig : c'.config = c.config) (hblock : c'.block = c.block) :
    Reached config set c' := by
  refine ⟨hconfig.trans h.1, ?_⟩
  rw [hblock]
  exact h.2

theorem Reached.event (h : Reached config set c) {s : Nat} (hconfig : c'.config = c.config)
    (hother : ∀ s', s' ≠ s → c'.block s' = c.block s') {event : Event R}
    (hstep : step config (c.block s) event = some (c'.block s)) : Reached config set c' := by
  obtain ⟨hc, events, hrun⟩ := h
  by_cases hs : set = s
  · subst hs
    refine ⟨hconfig.trans hc, events ++ [event], ?_⟩
    rw [run_append, hrun, Option.bind_some, run_cons, hstep]
    rfl
  · refine ⟨hconfig.trans hc, events, ?_⟩
    rw [hother set hs]
    exact hrun

theorem update_block_self (hpolicy : c.config.policy = lruPolicy R c.config.numWay) {fullAddr : Nat} {hit : Bool} :
    (c.updateReplacementState packet set way fullAddr hit).block set =
      touch c.config.numWay way packet fullAddr hit (c.block set) := by
  simp only [Cache.updateReplacementState, hpolicy, Function.update_self]
  rfl

theorem update_block_other {fullAddr s : Nat} {hit : Bool} (h : s ≠ set) :
    (c.updateReplacementState packet set way fullAddr hit).block s = c.block s :=
  Function.update_of_ne h _ _

theorem fill_block (hpolicy : c.config.policy = lruPolicy R c.config.numWay) :
    step c.config (c.block set) (.fill packet) = some ((fill c set packet).block set) := by
  have hway : c.findVictim packet set = lruVictim c.config.numWay (c.block set) := by
    rw [Cache.findVictim, hpolicy]
    rfl
  have hplace : ((if c.findVictim packet set = c.config.numWay then c
      else c.updateBlock set (c.findVictim packet set) (c.fillBlock packet)).block set) =
      place c.config (c.findVictim packet set) packet (c.block set) := by
    rw [place]
    split_ifs
    · rfl
    · exact Function.update_self _ _ _
  rw [step, fill, Cache.install, update_block_self, hplace, hway]
  · split_ifs <;> rfl
  · split_ifs <;> exact hpolicy

theorem fill_other {s : Nat} (h : s ≠ set) : (fill c set packet).block s = c.block s := by
  rw [fill, Cache.install, update_block_other h]
  split_ifs
  · rfl
  · exact Function.update_of_ne h _ _

theorem hit_block (hpolicy : c.config.policy = lruPolicy R c.config.numWay) {fullAddr : Nat} :
    ((c.updateReplacementState packet set way fullAddr true).updateBlock set way f).block set =
      change way f (touch c.config.numWay way packet fullAddr true (c.block set)) := by
  simp only [Cache.updateBlock, Function.update_self, change, update_block_self hpolicy]

theorem hit_other {fullAddr s : Nat} (h : s ≠ set) :
    ((c.updateReplacementState packet set way fullAddr true).updateBlock set way f).block s = c.block s :=
  (Function.update_of_ne h _ _).trans (update_block_other h)

theorem readHit_block (hpolicy : c.config.policy = lruPolicy R c.config.numWay) (hway : way < c.config.numWay)
    (hvalid : (c.block set way).valid = true) :
    step c.config (c.block set) (.readHit way packet) = some ((readHit c set way packet).block set) := by
  rw [step, if_pos ⟨hway, hvalid⟩, readHit, hit_block hpolicy]

theorem writeHit_block (hpolicy : c.config.policy = lruPolicy R c.config.numWay) (hway : way < c.config.numWay)
    (hvalid : (c.block set way).valid = true) :
    step c.config (c.block set) (.writeHit way packet) = some ((writeHit c set way packet).block set) := by
  rw [step, if_pos ⟨hway, hvalid⟩, writeHit, hit_block hpolicy]

theorem Reached.policy (h : Reached config set c) (hpolicy : config.policy = lruPolicy R config.numWay) :
    c.config.policy = lruPolicy R c.config.numWay := by
  rw [h.1]
  exact hpolicy

variable [LinearOrder R]

theorem reached_kept (hpolicy : config.policy = lruPolicy R config.numWay) (set : Nat) : Kept (Reached config set) where
  frame h hframe := h.same hframe.config hframe.block
  readHit h hway hvalid :=
    h.event rfl (fun _ hs => hit_other hs) (h.1 ▸ readHit_block (h.policy hpolicy) hway hvalid)
  writeHit h hway hvalid :=
    h.event rfl (fun _ hs => hit_other hs) (h.1 ▸ writeHit_block (h.policy hpolicy) hway hvalid)
  fill h := by
    refine h.event ?_ (fun _ hs => fill_other hs) (h.1 ▸ fill_block (h.policy hpolicy))
    rw [fill, Cache.install]
    split_ifs <;> rfl
  returned h hs := by
    obtain ⟨mshr, rfl⟩ := CacheMshr.returnData_eq hs
    exact h.same rfl rfl
  allocated h := by
    obtain ⟨mshr, heq⟩ := CacheMshr.allocated_eq _ _ _
    rw [heq]
    exact h.same rfl rfl
  merged h _ := h.same rfl rfl
  released h := by
    obtain ⟨mshr, heq⟩ := CacheMshr.releaseMshr_eq _ _
    rw [heq]
    exact h.same rfl rfl

/-- In each set of a cache with the LRU policy the replacement is true LRU, whatever is called. -/
theorem cache_true_lru {config : Config Unit R} {calls : List (Call R)} {c : Cache Unit R} (hn : config.numWay < 2 ^ 32)
    (h : run CacheBlocks.step (emptyCache config) calls = some c) (set : Nat) :
    ∃ events, run (step c.config) (fun _ => {}) events = some (c.block set) ∧
      TrueLru c.config (c.block set) (promotions c.config (fun _ => {}) events) := by
  have hpolicy : (emptyCache config).config.policy = lruPolicy R (emptyCache config).config.numWay := rfl
  have hways : (emptyCache config).config.numWay < 2 ^ 32 := hn
  obtain ⟨hconfig, events, hrun⟩ := run_kept (reached_kept hpolicy set) ⟨rfl, [], rfl⟩ h
  rw [hconfig]
  exact ⟨events, hrun, (true_lru hways (.inl rfl) (fun _ _ => ⟨rfl, rfl⟩) hrun).1⟩

end Cache

end Thermometer.CacheLru
