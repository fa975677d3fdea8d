import Thermometer.LruLevel
import Thermometer.MultiLevelTaken
import Thermometer.VictimBufferTaken

namespace Thermometer.AlwaysTakenSound

open Trace Lib.Tables Lib.Runs MultiLevelDriver AlwaysTaken
open MultiLevelBasicBtb (LRUBTB btbLevelInfo)

/-- The module of LRU levels. -/
def multiLevelBasicBtb : Module (State LRUBTB) ((Nat → IterOrder) × Call) Nat := MultiLevelTaken.taken .plain

/-- The module with a victim buffer. -/
def victimBufferBtb : Module VictimBufferBtb.State Call VictimBufferTaken.Place := VictimBufferTaken.taken

/-- Both modules report the flag truly for as long as the entry of the branch is
not moved. Tag 0 is the mark of a free way in the victim buffer module. -/
theorem alwaysTaken_sound :
    (∀ levelInfo ip, multiLevelBasicBtb.Sound (MultiLevelBasicBtb.initializeBtb levelInfo) ip) ∧
      ∀ ways ip, ip ≠ 0 → victimBufferBtb.Sound (VictimBufferBtb.initializeBtb ways) ip := by
  constructor
  · intro levelInfo ip
    apply MultiLevelTaken.sound Hooks.plain_lawful
    apply Reach.start
    intro b hb set
    obtain ⟨a, -, rfl⟩ := List.mem_map.mp hb
    rfl
  · intro ways ip hip
    exact VictimBufferTaken.sound ways hip

theorem alwaysTaken_sound_call : multiLevelBasicBtb.Sound (MultiLevelBasicBtb.initializeBtb btbLevelInfo) 4 ∧
    victimBufferBtb.Sound (VictimBufferBtb.initializeBtb 4) 4 :=
  ⟨alwaysTaken_sound.1 btbLevelInfo 4, alwaysTaken_sound.2 4 4 (by decide)⟩

def replaced (ip ip' : Nat) : List Call :=
  [.update ip 40 true .conditional, .update ip 40 false .conditional, .update ip' 40 true .conditional]

theorem notTaken_replaced (ip ip' : Nat) : ∃ c ∈ replaced ip ip', notTaken ip c :=
  ⟨.update ip 40 false .conditional, by simp [replaced], rfl, rfl, rfl⟩

/-- A move rebuilds the entry from the address, the target and the type, so it
forgets the outcome: down a level, or into the victim buffer. -/
theorem moved_forgets :
    (¬∀ levelInfo ip, multiLevelBasicBtb.anywhere.Sound (MultiLevelBasicBtb.initializeBtb levelInfo) ip) ∧
      ¬∀ ways ip, ip ≠ 0 → victimBufferBtb.anywhere.Sound (VictimBufferBtb.initializeBtb ways) ip := by
  constructor
  · intro h
    have hrun : (run (within multiLevelBasicBtb.anywhere.step
        (fun u => multiLevelBasicBtb.anywhere.place u 4 = some ())) (MultiLevelBasicBtb.initializeBtb btbLevelInfo)
        ((replaced 4 68).map (Prod.mk (fun _ => .stored)))).any (fun t => multiLevelBasicBtb.anywhere.reports t 4) =
        true := by
      decide +kernel
    refine Module.not_sound_of_run hrun ?_ (h btbLevelInfo 4)
    obtain ⟨c, hc, hno⟩ := notTaken_replaced 4 68
    exact ⟨_, List.mem_map_of_mem hc, hno⟩
  · intro h
    have hrun : (run (within victimBufferBtb.anywhere.step
        (fun u => victimBufferBtb.anywhere.place u 4 = some ())) (VictimBufferBtb.initializeBtb 4)
        (replaced 4 8196)).any (fun t => victimBufferBtb.anywhere.reports t 4) = true := by
      decide +kernel
    exact Module.not_sound_of_run hrun (notTaken_replaced 4 8196) (h 4 4 (by decide))

end Thermometer.AlwaysTakenSound
