import Thermometer.CacheMoves
import Thermometer.CacheTokens

namespace Thermometer.CacheFill

open Packets QueueList CacheModel

variable {P R : Type}

/-- The statistics that a fill and the write queue below it count. -/
structure Stats where
  simMiss : Nat → RequestType → Nat
  simAccess : Nat → RequestType → Nat
  pfUseless : Nat
  pfFill : Nat
  totalMissLatency : Nat
  wqAccess : Nat
  wqMerged : Nat
  wqFull : Nat
  wqToCache : Nat

def count (stat : Nat → RequestType → Nat) (cpu : Nat) (type : RequestType) : Nat → RequestType → Nat :=
  Function.update stat cpu (Function.update (stat cpu) type (stat cpu type + 1))

structure Level (P R : Type) where
  cache : Cache P R
  stats : Stats

/-- What `filllike_miss` leaves of the two levels and of the packet it handles, and whether it succeeds. -/
structure Fill (P R : Type) where
  upper : Level P R
  lower : Option (Level P R)
  packet : Packet R
  success : Bool

def Level.incrementWqFull (l : Level P R) : Level P R := { l with stats := { l.stats with wqFull := l.stats.wqFull + 1 } }

def Level.addWq (l : Level P R) (warm : Bool) (packet : Packet R) : Level P R × Int :=
  let stats := { l.stats with wqAccess := l.stats.wqAccess + 1 }
  match l.cache.wq.entries.findIdx? (l.cache.matchesWq packet) with
  | some _ => ({ l with stats := { stats with wqMerged := stats.wqMerged + 1 } }, 1)
  | none =>
      if l.cache.wq.full then ({ l with stats := { stats with wqFull := stats.wqFull + 1 } }, -2)
      else
        ({ cache := { l.cache with wq := push warm l.cache.wq packet }
           stats := { stats with wqToCache := stats.wqToCache + 1, wqAccess := stats.wqAccess + 1 } }, -1)

/-- The part of `filllike_miss` after the writeback. A packet that bypasses leaves the blocks alone. -/
def Level.replace (l : Level P R) (warm : Bool) (now set way : Nat) (packet : Packet R) : Level P R :=
  let b := l.cache.block set way
  let bypass : Bool := way == l.cache.config.numWay
  { cache := l.cache.install set way packet
    stats := { l.stats with
      pfUseless := if !bypass && b.prefetch && !b.used then l.stats.pfUseless + 1 else l.stats.pfUseless
      pfFill := if !bypass && packet.type == .prefetch then l.stats.pfFill + 1 else l.stats.pfFill
      totalMissLatency :=
        if warm && packet.cycleEnqueued != 0 then l.stats.totalMissLatency + (now - packet.cycleEnqueued)
        else l.stats.totalMissLatency
      simMiss := count l.stats.simMiss packet.cpu packet.type
      simAccess := count l.stats.simAccess packet.cpu packet.type } }

def prefetched (config : Config P R) (metadata : Nat) (packet : Packet R) : Packet R :=
  { packet with
    pfMetadata := if config.cacheType = .l2c ∨ config.cacheType = .llc then metadata else packet.pfMetadata }

/-- The assertions are left out: where one fails the program ends, and what holds of every fill holds of those that pass.
`lower` is the cache below, if there is one. -/
def filllikeMiss (upper : Level P R) (lower : Option (Level P R)) (warm : Bool) (now metadata set way : Nat)
    (packet : Packet R) : Fill P R :=
  let b := upper.cache.block set way
  let bypass : Bool := way == upper.cache.config.numWay
  let filled (lower : Option (Level P R)) : Fill P R :=
    ⟨upper.replace warm now set way packet, lower, prefetched upper.cache.config metadata packet, true⟩
  match lower with
  | none => filled none
  | some l =>
      if !bypass && b.dirty then
        if l.cache.wq.occupancy = l.cache.wq.size then ⟨upper, some l.incrementWqFull, packet, false⟩
        else
          let result := l.addWq warm (upper.cache.writebackPacket now packet b)
          if result.2 = -2 then ⟨upper, some result.1, packet, false⟩ else filled (some result.1)
      else filled (some l)

/-- The packet is in the queue, or has been merged into one that is there. -/
inductive Taken (same : Packet R → Bool) (packet : Packet R) (q q' : Pending (Packet R)) : Prop
  | accepted (h : q'.entries = q.entries ++ [packet])
  | merged (found : Packet R) (hfound : found ∈ q.entries) (hsame : same found = true) (h : q' = q)

/-- The write queue of a cache has taken the block from above. -/
def WrittenBack (c c' : Cache P R) (b : Block) : Prop :=
  ∃ packet : Packet R, packet.type = .writeback ∧ packet.address = b.address ∧ packet.fullAddr = b.fullAddr ∧
    Taken (c.matchesWq packet) packet c.wq c'.wq

/-- A dirty block that is not overwritten. -/
structure StaysDirty (b b' : Block) : Prop where
  valid : b'.valid = b.valid
  dirty : b'.dirty = true
  address : b'.address = b.address
  fullAddr : b'.fullAddr = b.fullAddr
  data : b'.data = b.data

/-- A fill that is refused changes nothing but two counts below. -/
structure Refused (upper : Level P R) (lower : Option (Level P R)) (packet : Packet R) (r : Fill P R) : Prop where
  upper : r.upper = upper
  packet : r.packet = packet
  lower : ∃ l l', lower = some l ∧ r.lower = some l' ∧ l'.cache = l.cache ∧
    l'.stats = { l.stats with wqFull := l'.stats.wqFull, wqAccess := l'.stats.wqAccess }

/-- The fill and its writeback happen both or not at all. -/
structure Atomic (upper : Level P R) (lower : Option (Level P R)) (set way : Nat) (packet : Packet R) (r : Fill P R) :
    Prop where
  refused : r.success = false → Refused upper lower packet r
  written : r.success = true → way ≠ upper.cache.config.numWay → (upper.cache.block set way).dirty = true →
    ∀ l, lower = some l → ∃ l', r.lower = some l' ∧ WrittenBack l.cache l'.cache (upper.cache.block set way)
  overwritten : ∀ s w, (upper.cache.block s w).dirty = true →
    StaysDirty (upper.cache.block s w) (r.upper.cache.block s w) ∨
      (r.success = true ∧ s = set ∧ w = way ∧ way ≠ upper.cache.config.numWay)

section Fills

variable {c : Cache P R} {l upper : Level P R} {lower : Option (Level P R)} {warm : Bool} {packet : Packet R}
  {now metadata set way : Nat}

theorem StaysDirty.refl {b : Block} (h : b.dirty = true) : StaysDirty b b := ⟨rfl, h, rfl, rfl, rfl⟩

theorem StaysDirty.trans {b b' b'' : Block} (h : StaysDirty b b') (h' : StaysDirty b' b'') : StaysDirty b b'' :=
  ⟨h'.valid.trans h.valid, h'.dirty, h'.address.trans h.address, h'.fullAddr.trans h.fullAddr, h'.data.trans h.data⟩

theorem addWq_cache (l : Level P R) (warm : Bool) (packet : Packet R) :
    (l.addWq warm packet).1.cache = (l.cache.addWq warm packet).1 ∧ (l.addWq warm packet).2 = (l.cache.addWq warm packet).2 := by
  simp only [Level.addWq, Cache.addWq, enqueue]
  cases l.cache.wq.entries.findIdx? (l.cache.matchesWq packet) with
  | some i =>
      have hsame : l.cache.wq.modify i id = l.cache.wq := by
        simp only [Pending.modify, Prod.map_id, List.modify_id]
      simp only [hsame, and_self]
  | none =>
      by_cases hfull : l.cache.wq.full = true
      · simp only [hfull, if_true, and_self]
      · simp only [hfull, Bool.false_eq_true, if_false, and_self]

theorem addWq_taken (hresult : (c.addWq warm packet).2 ≠ -2) :
    Taken (c.matchesWq packet) packet c.wq (c.addWq warm packet).1.wq := by
  simp only [Cache.addWq, enqueue] at hresult ⊢
  cases hfind : c.wq.entries.findIdx? (c.matchesWq packet) with
  | some i =>
      obtain ⟨found, -, hsame, hmem⟩ := CacheTokens.findIdx?_found hfind
      refine .merged found hmem hsame ?_
      simp only [Pending.modify, Prod.map_id, List.modify_id]
  | none =>
      rw [hfind] at hresult
      by_cases hfull : c.wq.full = true
      · simp [hfull] at hresult
      · simp only [hfull, Bool.false_eq_true, if_false]
        exact .accepted CacheTokens.entries_push

theorem addWq_refused (h : (l.addWq warm packet).2 = -2) : (l.addWq warm packet).1 = { l with
    stats := { l.stats with wqAccess := l.stats.wqAccess + 1, wqFull := l.stats.wqFull + 1 } } := by
  simp only [Level.addWq] at h ⊢
  cases hfind : l.cache.wq.entries.findIdx? (l.cache.matchesWq packet) with
  | some i => simp [hfind] at h
  | none =>
      simp only [hfind] at h ⊢
      by_cases hfull : l.cache.wq.full = true
      · simp only [hfull, if_true]
      · simp [hfull] at h

theorem updateReplacementState_staysDirty (c : Cache P R) (packet : Packet R) (set way fullAddr : Nat) (hit : Bool) {s w : Nat}
    (h : (c.block s w).dirty = true) :
    StaysDirty (c.block s w) ((c.updateReplacementState packet set way fullAddr hit).block s w) := by
  by_cases hs : s = set
  · subst hs
    simp only [Cache.updateReplacementState, Function.update_self]
    exact ⟨rfl, h, rfl, rfl, rfl⟩
  · simp only [Cache.updateReplacementState, Function.update_of_ne hs]
    exact .refl h

theorem updateBlock_other (c : Cache P R) (f : Block → Block) {s w : Nat} (h : ¬(s = set ∧ w = way)) :
    (c.updateBlock set way f).block s w = c.block s w := by
  by_cases hs : s = set
  · subst hs
    have hw : w ≠ way := fun hw => h ⟨rfl, hw⟩
    simp only [Cache.updateBlock, Function.update_self, Function.update_of_ne hw]
  · simp only [Cache.updateBlock, Function.update_of_ne hs]

theorem install_staysDirty (c : Cache P R) (packet : Packet R) {s w : Nat} (h : (c.block s w).dirty = true)
    (hother : ¬(s = set ∧ w = way ∧ way ≠ c.config.numWay)) :
    StaysDirty (c.block s w) ((c.install set way packet).block s w) := by
  rw [Cache.install]
  split_ifs with hway
  · exact updateReplacementState_staysDirty c packet set way packet.fullAddr false h
  · have hsame : (c.updateBlock set way (c.fillBlock packet)).block s w = c.block s w :=
      updateBlock_other c _ (fun heq => hother ⟨heq.1, heq.2, hway⟩)
    rw [← hsame] at h ⊢
    exact updateReplacementState_staysDirty _ packet set way packet.fullAddr false h

/-- For every state of the two caches, victim and packet. -/
theorem filllikeMiss_atomic (upper : Level P R) (lower : Option (Level P R)) (warm : Bool) (now metadata set way : Nat)
    (packet : Packet R) : Atomic upper lower set way packet (filllikeMiss upper lower warm now metadata set way packet) := by
  have hfilled : ∀ lower' : Option (Level P R), ((way ≠ upper.cache.config.numWay → (upper.cache.block set way).dirty = true →
      ∀ l, lower = some l → ∃ l', lower' = some l' ∧ WrittenBack l.cache l'.cache (upper.cache.block set way))) →
      Atomic upper lower set way packet
        ⟨upper.replace warm now set way packet, lower', prefetched upper.cache.config metadata packet, true⟩ := by
    intro lower' hwritten
    refine ⟨fun h => ?_, fun _ => hwritten, fun s w h => ?_⟩
    · cases h
    · by_cases hself : s = set ∧ w = way ∧ way ≠ upper.cache.config.numWay
      · exact .inr ⟨rfl, hself⟩
      · exact .inl (install_staysDirty upper.cache packet h hself)
  have hkept : ∀ l l' : Level P R, lower = some l → l'.cache = l.cache →
      l'.stats = { l.stats with wqFull := l'.stats.wqFull, wqAccess := l'.stats.wqAccess } →
      Atomic upper lower set way packet ⟨upper, some l', packet, false⟩ := by
    intro l l' hlower hcache hstats
    refine ⟨fun _ => ⟨rfl, rfl, l, l', hlower, rfl, hcache, hstats⟩, fun h => ?_, fun s w h => .inl (.refl h)⟩
    cases h
  cases lower with
  | none => exact hfilled none (fun _ _ l hl => by cases hl)
  | some l =>
      simp only [filllikeMiss]
      by_cases hdirty : (!(way == upper.cache.config.numWay) && (upper.cache.block set way).dirty) = true
      · rw [if_pos hdirty]
        by_cases hfull : l.cache.wq.occupancy = l.cache.wq.size
        · rw [if_pos hfull]
          exact hkept l _ rfl rfl rfl
        · rw [if_neg hfull]
          by_cases hresult : (l.addWq warm (upper.cache.writebackPacket now packet (upper.cache.block set way))).2 = -2
          · rw [if_pos hresult, addWq_refused hresult]
            exact hkept l _ rfl rfl rfl
          · rw [if_neg hresult]
            apply hfilled
            rintro - - l' ⟨⟩
            have hcache := addWq_cache l warm (upper.cache.writebackPacket now packet (upper.cache.block set way))
            rw [hcache.2] at hresult
            refine ⟨_, rfl, upper.cache.writebackPacket now packet (upper.cache.block set way), rfl, rfl, rfl, ?_⟩
            rw [hcache.1]
            exact addWq_taken hresult
      · rw [if_neg hdirty]
        apply hfilled
        intro hway hblock
        refine absurd ?_ hdirty
        rw [hblock, Bool.and_true, Bool.not_eq_true', beq_eq_false_iff_ne]
        exact hway

end Fills

end Thermometer.CacheFill
