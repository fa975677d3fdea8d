import Thermometer.CacheBlocks

namespace Thermometer.CacheMoves

open Lib Runs Packets CacheModel CacheMshr CacheBlocks

variable {P R : Type}

def readHit (c : Cache P R) (set way : Nat) (packet : Packet R) : Cache P R :=
  (c.updateReplacementState packet set way (c.block set way).fullAddr true).updateBlock set way
    (fun b => { b with prefetch := false, used := true })

def writeHit (c : Cache P R) (set way : Nat) (packet : Packet R) : Cache P R :=
  (c.updateReplacementState packet set way (c.block set way).fullAddr true).updateBlock set way
    (fun b => { b with dirty := true })

def fill (c : Cache P R) (set : Nat) (packet : Packet R) : Cache P R := c.install set (c.findVictim packet set) packet

structure Frame (c c' : Cache P R) : Prop where
  config : c'.config = c.config
  block : c'.block = c.block
  mshr : c'.mshr = c.mshr

/-- A property that each move of the blocks and of the MSHR keeps. -/
structure Kept [LinearOrder R] (I : Cache P R → Prop) : Prop where
  frame : ∀ {c c'}, I c → Frame c c' → I c'
  readHit : ∀ {c set way packet}, I c → way < c.config.numWay → (c.block set way).valid = true → I (readHit c set way packet)
  writeHit : ∀ {c set way packet}, I c → way < c.config.numWay → (c.block set way).valid = true → I (writeHit c set way packet)
  fill : ∀ {c set packet}, I c → I (fill c set packet)
  returned : ∀ {c c' warm now packet}, I c → c.returnData warm now packet = some c' → I c'
  allocated : ∀ {c now packet}, I c → I (c.allocated now packet)
  merged : ∀ {c i packet}, I c → c.findMshr packet.address = some i → I (c.mergeMshr i packet)
  released : ∀ {c a}, I c → I (c.releaseMshr a)

theorem getWay_valid {c : Cache P R} {address set : Nat} (h : c.getWay address set < c.config.numWay) :
    (c.block set (c.getWay address set)).valid = true := by
  simp only [Cache.getWay] at h ⊢
  cases hfind : (List.range c.config.numWay).find? (fun way => (c.block set way).valid && (c.block set way).address == address) with
  | none =>
      rw [hfind, Option.getD_none] at h
      exact absurd h (lt_irrefl _)
  | some way =>
      have hway := List.find?_some hfind
      rw [Bool.and_eq_true] at hway
      exact hway.1

def OfRound (I : Cache P R → Prop) : Round P R → Prop
  | .idle => True
  | .done c _ => I c
  | .sent c _ _ => I c
  | .walked c _ => I c
  | .filled c _ _ => I c

section Rounds

variable [LinearOrder R] {I : Cache P R → Prop} {c c' : Cache P R} {packet : Packet R} {e : Cycle} {round : Round P R}
  {out : Outside} {now : Nat}

theorem OfRound.andThen (hI : Kept I) {f : Cache P R → Cache P R} (hf : ∀ c, Frame c (f c)) (h : OfRound I round) :
    OfRound I (round.andThen f) := by
  cases round with
  | idle => exact True.intro
  | done c _ => exact hI.frame h (hf c)
  | sent c _ _ => exact hI.frame h (hf c)
  | walked c _ => exact hI.frame h (hf c)
  | filled c _ _ => exact hI.frame h (hf c)

theorem filllikeMiss_kept (hI : Kept I) {set : Nat} {entry : Option (Packet R)} (h : I c)
    (hround : c.filllikeMiss out now set (c.findVictim packet set) packet entry = some round) : OfRound I round := by
  rcases filllikeMiss_cases hround with rfl | ⟨writeback, rfl, -, -⟩
  · exact True.intro
  · exact hI.fill h

theorem handleFill_kept (hI : Kept I) (h : I c) (hround : c.handleFill out now = some round) : OfRound I round := by
  rcases handleFill_cases hround with rfl | ⟨front, writeback, -, -, rfl, -⟩
  · exact True.intro
  · exact hI.frame (hI.fill h) ⟨rfl, rfl, rfl⟩

theorem readlikeMiss_kept (hI : Kept I) (h : I c) (out : Outside) (now : Nat) (packet : Packet R) :
    OfRound I (c.readlikeMiss out now packet) := by
  cases readlikeMiss_cases c out now packet with
  | merged i hi heq => exact heq ▸ hI.merged h hi
  | blocked _ _ heq => exact heq ▸ True.intro
  | sent _ _ _ heq => exact heq ▸ hI.allocated h
  | walked _ _ _ heq => exact heq ▸ hI.allocated h

theorem readlike_kept (hI : Kept I) (h : I c) (out : Outside) (now : Nat) (packet : Packet R) :
    OfRound I (c.readlike out now packet) := by
  simp only [Cache.readlike]
  split_ifs with hway
  · exact hI.readHit h hway (getWay_valid hway)
  · exact readlikeMiss_kept hI h out now packet

theorem handleRead_kept (hI : Kept I) (h : I c) : OfRound I (c.handleRead out now) := by
  simp only [Cache.handleRead]
  split_ifs
  · exact True.intro
  · cases due c.rq now with
    | none => exact True.intro
    | some packet => exact (readlike_kept hI h out now packet).andThen hI (fun _ => ⟨rfl, rfl, rfl⟩)

theorem handlePrefetch_kept (hI : Kept I) (h : I c) : OfRound I (c.handlePrefetch out now) := by
  simp only [Cache.handlePrefetch]
  split_ifs
  · exact True.intro
  · cases due c.pq now with
    | none => exact True.intro
    | some packet => exact (readlike_kept hI h out now packet).andThen hI (fun _ => ⟨rfl, rfl, rfl⟩)

theorem handleWriteback_kept (hI : Kept I) (h : I c) (hround : c.handleWriteback out now = some round) : OfRound I round := by
  simp only [Cache.handleWriteback] at hround
  by_cases hwrites : c.writesAvailable = 0
  · rw [if_pos hwrites, Option.some.injEq] at hround
    exact hround ▸ True.intro
  rw [if_neg hwrites] at hround
  cases hdue : due c.wq now with
  | none =>
      rw [hdue, Option.some.injEq] at hround
      exact hround ▸ True.intro
  | some packet =>
      simp only [hdue] at hround
      obtain ⟨taken, htaken, rfl⟩ := Option.map_eq_some_iff.mp hround
      apply OfRound.andThen hI (f := Cache.popWq) (fun _ => ⟨rfl, rfl, rfl⟩)
      split_ifs at htaken with hway htype
      · exact Option.some.inj htaken ▸ hI.writeHit h hway (getWay_valid hway)
      · exact Option.some.inj htaken ▸ readlikeMiss_kept hI h out now packet
      · exact filllikeMiss_kept hI h htaken

end Rounds

section Calls

variable [LinearOrder R] {I : Cache P R → Prop} {c c' : Cache P R} {e : Cycle} {round : Round P R}

theorem selfReplies_kept (hI : Kept I) {answers : List (R × Packet R)} (h : I c) (hs : selfReplies e c answers = some c') :
    I c' := by
  induction answers generalizing c with
  | nil => exact Option.some.inj hs ▸ h
  | cons answer rest ih =>
      simp only [selfReplies] at hs
      split_ifs at hs with hself
      · obtain ⟨d, hd, hs⟩ := Option.bind_eq_some_iff.mp hs
        exact ih (hI.returned h hd) hs
      · exact ih h hs

theorem after_kept (hI : Kept I) (h : I c) (hround : OfRound I round) (hs : after e c round = some c') : I c' := by
  cases round with
  | idle => exact Option.some.inj hs ▸ h
  | done d answers => exact selfReplies_kept hI hround hs
  | sent d packet asPrefetch => exact Option.some.inj hs ▸ hround
  | walked d packet => exact hI.returned hround hs
  | filled d writeback entry =>
      simp only [after] at hs
      split_ifs at hs with hrefused
      · exact Option.some.inj hs ▸ h
      · cases entry with
        | none => exact Option.some.inj hs ▸ hround
        | some answered =>
            obtain ⟨d', hd', rfl⟩ := Option.map_eq_some_iff.mp hs
            exact hI.released (selfReplies_kept hI hround hd')

theorem added_kept (hI : Kept I) {result : Option (Added P R)} (h : I c) (hresult : ∀ a ∈ result, Frame c a.cache)
    (hs : added e result = some c') : I c' := by
  obtain ⟨a, ha, hs⟩ := Option.bind_eq_some_iff.mp hs
  exact selfReplies_kept hI (hI.frame h (hresult a ha)) hs

theorem addRq_frame {warm : Bool} {packet : Packet R} : ∀ a ∈ c.addRq warm packet, Frame c a.cache := by
  intro a ha
  simp only [Cache.addRq, Option.mem_def, Option.ite_none_left_eq_some] at ha
  cases hwq : c.foundWq packet <;> rw [hwq] at ha <;> cases ha.2 <;> exact ⟨rfl, rfl, rfl⟩

theorem addPq_frame {warm : Bool} {packet : Packet R} : ∀ a ∈ c.addPq warm packet, Frame c a.cache := by
  intro a ha
  simp only [Cache.addPq, Option.mem_def, Option.ite_none_left_eq_some] at ha
  cases hwq : c.foundWq packet <;> rw [hwq] at ha <;> cases ha.2 <;> exact ⟨rfl, rfl, rfl⟩

theorem vaTranslatePrefetches_frame {warm : Bool} {fullAddr : Nat} :
    ∀ a ∈ c.vaTranslatePrefetches warm fullAddr, Frame c a.cache := by
  intro a ha
  simp only [Cache.vaTranslatePrefetches, Option.mem_def] at ha
  split_ifs at ha
  · cases hfront : c.vapq.front? with
    | none =>
        rw [hfront] at ha
        cases ha
        exact ⟨rfl, rfl, rfl⟩
    | some front =>
        rw [hfront] at ha
        obtain ⟨b, hb, rfl⟩ := Option.map_eq_some_iff.mp ha
        have hframe := addPq_frame b hb
        exact ⟨hframe.config, hframe.block, hframe.mshr⟩
  · cases ha
    exact ⟨rfl, rfl, rfl⟩

omit [LinearOrder R] in
theorem vaPrefetchLine_frame {ip pfAddr metadata : Nat} {level : Int}
    (h : c.vaPrefetchLine ip pfAddr level metadata = some c') : Frame c c' := by
  simp only [Cache.vaPrefetchLine] at h
  split_ifs at h <;> cases h <;> exact ⟨rfl, rfl, rfl⟩

theorem step_kept (hI : Kept I) {call : Call R} (h : I c) (hs : step c call = some c') : I c' := by
  cases call with
  | addRq e packet => exact added_kept hI h addRq_frame hs
  | addWq e packet => exact Option.some.inj hs ▸ hI.frame h ⟨rfl, rfl, rfl⟩
  | addPq e packet => exact added_kept hI h addPq_frame hs
  | vaPrefetchLine ip pfAddr level metadata => exact hI.frame h (vaPrefetchLine_frame hs)
  | returnData e packet => exact hI.returned h hs
  | beginWrites => exact Option.some.inj hs ▸ hI.frame h ⟨rfl, rfl, rfl⟩
  | handleFill e =>
      obtain ⟨round, hround, hs⟩ := Option.bind_eq_some_iff.mp hs
      exact after_kept hI h (handleFill_kept hI h hround) hs
  | handleWriteback e =>
      obtain ⟨round, hround, hs⟩ := Option.bind_eq_some_iff.mp hs
      exact after_kept hI h (handleWriteback_kept hI h hround) hs
  | endWrites => exact Option.some.inj hs ▸ hI.frame h ⟨rfl, rfl, rfl⟩
  | beginReads => exact Option.some.inj hs ▸ hI.frame h ⟨rfl, rfl, rfl⟩
  | handleRead e => exact after_kept hI h (handleRead_kept hI h) hs
  | vaTranslatePrefetches e fullAddr => exact added_kept hI h vaTranslatePrefetches_frame hs
  | handlePrefetch e => exact after_kept hI h (handlePrefetch_kept hI h) hs
  | endReads => exact Option.some.inj hs ▸ hI.frame h ⟨rfl, rfl, rfl⟩

theorem run_kept (hI : Kept I) {calls : List (Call R)} (h : I c) (hrun : run step c calls = some c') : I c' :=
  run_preserves (fun _ _ _ _ hi hs => step_kept hI hi hs) h hrun

end Calls

end Thermometer.CacheMoves
