import Thermometer.RobScan

namespace Thermometer.RobQueue

open Lib.Rings ReorderBuffer RobShape RobEdges RobCounts RobScan

def Placed (s : State) (i : Nat) : Prop :=
  (s.entry i).isMemory = false ∧ (s.entry i).scheduled ≠ .idle ∧ (s.entry i).numRegDependent = 0

instance (s : State) (i : Nat) : Decidable (Placed s i) := inferInstanceAs (Decidable (_ ∧ _ ∧ _))

def timesPlaced (s : State) (instrId : Nat) : Nat := s.placed.countP (fun p => p.1 = instrId)

structure Ledger (s : State) : Prop where
  queue : ∃ q, Holds s.size s.readyToExecute q ∧ q.Nodup ∧ ∀ i, i ∈ q ↔ Placed s i ∧ (s.entry i).executed = .idle
  times : ∀ i, Live s i → timesPlaced s (s.entry i).instrId = if Placed s i then 1 else 0
  fresh : ∀ n, s.instrUniqueId ≤ n → timesPlaced s n = 0
  ready : ∀ p ∈ s.placed, p.2 = 0
  retired : ∀ e ∈ s.retired,
    e.instrId + s.occupancy < s.instrUniqueId ∧ timesPlaced s e.instrId = if e.isMemory then 0 else 1

variable {s t u : State} {i x : Nat} {cur : Option Nat} {due : List (Nat × Fin numInstrSources)}

theorem Placed.live (hs : Shape s) (h : Placed s i) : Live s i := live_of_scheduled hs h.2.1

theorem ledger_keep (h : Ledger s) (hsame : Same s u) (hring : u.readyToExecute = s.readyToExecute)
    (hplaced : u.placed = s.placed) (hretired : u.retired = s.retired) (hP : ∀ x, Placed u x ↔ Placed s x)
    (hidle : ∀ x, Placed s x → ((u.entry x).executed = .idle ↔ (s.entry x).executed = .idle)) : Ledger u := by
  have htimes : ∀ n, timesPlaced u n = timesPlaced s n := by
    intro n
    rw [timesPlaced, timesPlaced, hplaced]
  obtain ⟨q, hq, hnodup, hmem⟩ := h.queue
  refine ⟨⟨q, ?_, hnodup, fun x => ?_⟩, fun x hx => ?_, fun n hn => ?_, ?_, fun e he => ?_⟩
  · rw [hsame.size, hring]
    exact hq
  · rw [hmem, hP]
    exact and_congr_right (fun hp => (hidle x hp).symm)
  · rw [htimes, hsame.ids, h.times x (hsame.live.mp hx)]
    simp only [hP]
  · rw [hsame.unique] at hn
    rw [htimes]
    exact h.fresh n hn
  · rw [hplaced]
    exact h.ready
  · rw [hretired] at he
    rw [hsame.occupancy, hsame.unique, htimes]
    exact h.retired e he

theorem room (hs : Shape s) {q : List Nat} (hbound : ∀ x ∈ q, x < s.size) (hnodup : q.Nodup) (hi : Live s i) (hni : i ∉ q) :
    q.length < s.size := by
  have hsub : i :: q ⊆ List.range s.size := by
    intro x hx
    rw [List.mem_range]
    rcases List.mem_cons.mp hx with rfl | hx
    · exact hi.lt hs
    · exact hbound x hx
  have hle := (List.Nodup.cons hni hnodup).subperm hsub |>.length_le
  rwa [List.length_cons, List.length_range] at hle

theorem pushReady_ledger (hs : Shape s) (h : Ledger s) (hsame : Same s t) (hring : t.readyToExecute = s.readyToExecute)
    (hplaced : t.placed = s.placed) (hretired : t.retired = s.retired) (hi : Live s i) (hnot : ¬Placed s i)
    (hP : ∀ x, Placed t x ↔ Placed s x ∨ x = i)
    (hidle : ∀ x, (t.entry x).executed = (s.entry x).executed) (hwaiting : (s.entry i).executed = .idle) :
    ∃ r p, pushReady t i = some { t with readyToExecute := r, placed := p } ∧
      Ledger { t with readyToExecute := r, placed := p } := by
  obtain ⟨q, hq, hnodup, hmem⟩ := h.queue
  have hni : i ∉ q := fun hin => hnot ((hmem i).mp hin).1
  obtain ⟨r, hpush, hr⟩ := push_holds hq (room hs hq.bound hnodup hi hni) (hi.lt hs)
  rw [← hring, ← hsame.size] at hpush
  have hnum : (t.entry i).numRegDependent = 0 := ((hP i).mpr (.inr rfl)).2.2
  have hfirst : timesPlaced s (s.entry i).instrId = 0 := (h.times i hi).trans (if_neg hnot)
  have htimes : ∀ n, timesPlaced { t with readyToExecute := r, placed := t.placed ++ [((t.entry i).instrId, 0)] } n
      = timesPlaced s n + if (s.entry i).instrId = n then 1 else 0 := by
    intro n
    show (t.placed ++ [((t.entry i).instrId, 0)]).countP _ = _
    rw [List.countP_append, hplaced, hsame.ids, List.countP_singleton]
    simp only [timesPlaced, decide_eq_true_eq]
  refine ⟨r, t.placed ++ [((t.entry i).instrId, 0)], ?_, ⟨q ++ [i], ?_, ?_, fun x => ?_⟩, fun x hx => ?_, fun n hn => ?_, ?_,
    fun e he => ?_⟩
  · rw [pushReady, hpush, hnum]
    rfl
  · show Holds t.size r (q ++ [i])
    rw [hsame.size]
    exact hr
  · exact List.nodup_append.mpr ⟨hnodup, List.nodup_singleton i, fun a ha b hb heq => hni (by
      rwa [heq, List.mem_singleton.mp hb] at ha)⟩
  · show x ∈ q ++ [i] ↔ Placed t x ∧ (t.entry x).executed = .idle
    rw [List.mem_append, List.mem_singleton, hmem, hP, hidle]
    constructor
    · rintro (⟨hp, hx⟩ | rfl)
      · exact ⟨.inl hp, hx⟩
      · exact ⟨.inr rfl, hwaiting⟩
    · rintro ⟨hp | rfl, hx⟩
      · exact .inl ⟨hp, hx⟩
      · exact .inr rfl
  · have hx : Live s x := hsame.live.mp hx
    rw [htimes]
    show timesPlaced s (t.entry x).instrId + (if (s.entry i).instrId = (t.entry x).instrId then 1 else 0)
      = if Placed t x then 1 else 0
    rw [hsame.ids]
    by_cases hxi : x = i
    · subst hxi
      rw [hfirst, if_pos rfl, if_pos ((hP x).mpr (.inr rfl))]
    · rw [if_neg (fun heq => hxi (live_of_ids hs hx hi heq.symm)), h.times x hx]
      simp only [hP, hxi, or_false, Nat.add_zero]
  · have hn : s.instrUniqueId ≤ n := hsame.unique ▸ hn
    have hid : (s.entry i).instrId ≠ n := by
      obtain ⟨a, ha, rfl⟩ := hi
      have hids := hs.ids a ha
      omega
    rw [htimes, h.fresh n hn, if_neg hid]
  · intro p hp
    rcases List.mem_append.mp hp with hp | hp
    · exact h.ready p (hplaced ▸ hp)
    · rw [List.mem_singleton.mp hp]
  · obtain ⟨hlt, hcount⟩ := h.retired e (hretired ▸ he)
    have hid : (s.entry i).instrId ≠ e.instrId := by
      obtain ⟨a, ha, rfl⟩ := hi
      have hids := hs.ids a ha
      omega
    refine ⟨?_, ?_⟩
    · show e.instrId + t.occupancy < t.instrUniqueId
      rw [hsame.occupancy, hsame.unique]
      exact hlt
    · rw [htimes, if_neg hid, hcount, Nat.add_zero]

structure Inv (due : List (Nat × Fin numInstrSources)) (s : State) : Prop where
  shape : Shape s
  edges : Edges none s
  counts : Counts none due s
  ledger : Ledger s

theorem inv_queue {r : Ring} {p : List (Nat × Int)} (hs : Shape t) (he : Edges none t) (hc : Counts none due t)
    (hl : Ledger { t with readyToExecute := r, placed := p }) : Inv due { t with readyToExecute := r, placed := p } :=
  ⟨⟨hs.head_lt, hs.occupancy_le, hs.tail_eq, hs.blank, hs.ids⟩,
    ⟨he.older, he.checked, he.listed, he.producer, he.begun, he.unique, he.fresh⟩,
    ⟨hc.count, hc.due, hc.ready, hc.done⟩, hl⟩

end Thermometer.RobQueue
