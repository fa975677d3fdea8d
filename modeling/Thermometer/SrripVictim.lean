import Mathlib.Order.Lattice
import Mathlib.Order.Nat
import Thermometer.SrripBtb

namespace Thermometer.SrripVictim

open Trace Lib.Runs SrripBtb

def maxRrpv (entries : List Entry) : Nat := (entries.map Entry.rrpv).foldr max 0

def raise (n : Nat) (entries : List Entry) : List Entry := entries.map (fun e => e.withRrpv (e.rrpv + n))

def leftmost (entries : List Entry) : Option Nat := entries.findIdx? (fun e => e.rrpv = maxRrpv entries)

/-- What the operations keep of one set. While a way is free, no valid one is
distant, so the ways age only when all of them are taken. -/
structure Sound (ways : Nat) (entries : List Entry) : Prop where
  length : entries.length = ways
  bounded : ∀ e ∈ entries, e.rrpv ≤ distantInterval
  free : ∀ e ∈ entries, e.valid = false → e.rrpv = distantInterval
  filling : (∃ e ∈ entries, e.valid = false) → ∀ e ∈ entries, e.valid = true → e.rrpv < distantInterval

variable {entries : List Entry} {ways way n : Nat}

theorem maxRrpv_cons (e : Entry) (entries : List Entry) : maxRrpv (e :: entries) = max e.rrpv (maxRrpv entries) := rfl

theorem le_maxRrpv {e : Entry} (h : e ∈ entries) : e.rrpv ≤ maxRrpv entries := by
  induction entries with
  | nil => cases h
  | cons d entries ih =>
      rw [maxRrpv_cons]
      rcases List.mem_cons.mp h with rfl | h
      · exact le_max_left _ _
      · exact le_trans (ih h) (le_max_right _ _)

theorem exists_maxRrpv (h : entries ≠ []) : ∃ e ∈ entries, e.rrpv = maxRrpv entries := by
  induction entries with
  | nil => exact absurd rfl h
  | cons d entries ih =>
      rw [maxRrpv_cons]
      rcases le_total (maxRrpv entries) d.rrpv with hle | hle
      · exact ⟨d, List.mem_cons_self, (max_eq_left hle).symm⟩
      · by_cases hnil : entries = []
        · subst hnil
          exact ⟨d, List.mem_cons_self, (max_eq_left (Nat.zero_le _)).symm⟩
        · obtain ⟨e, he, heq⟩ := ih hnil
          exact ⟨e, List.mem_cons_of_mem d he, heq.trans (max_eq_right hle).symm⟩

theorem maxRrpv_le (h : ∀ e ∈ entries, e.rrpv ≤ n) : maxRrpv entries ≤ n := by
  induction entries with
  | nil => exact Nat.zero_le n
  | cons d entries ih =>
      rw [maxRrpv_cons]
      exact max_le (h d List.mem_cons_self) (ih (fun e he => h e (List.mem_cons_of_mem d he)))

theorem maxRrpv_raise (h : entries ≠ []) (n : Nat) : maxRrpv (raise n entries) = maxRrpv entries + n := by
  apply Nat.le_antisymm
  · apply maxRrpv_le
    intro e he
    obtain ⟨d, hd, rfl⟩ := List.mem_map.mp he
    exact Nat.add_le_add_right (le_maxRrpv hd) n
  · obtain ⟨e, he, heq⟩ := exists_maxRrpv h
    rw [← heq]
    exact le_maxRrpv (List.mem_map_of_mem (f := fun e : Entry => e.withRrpv (e.rrpv + n)) he)

theorem raise_raise (m n : Nat) (entries : List Entry) : raise n (raise m entries) = raise (m + n) entries := by
  rw [raise, raise, List.map_map]
  apply List.map_congr_left
  intro e _
  exact congrArg e.withRrpv (Nat.add_assoc _ _ _)

theorem raise_zero (entries : List Entry) : raise 0 entries = entries := List.map_id _

theorem leftmost_raise (h : entries ≠ []) (n : Nat) : leftmost (raise n entries) = leftmost entries := by
  have hsame : (fun e : Entry => decide (e.rrpv = maxRrpv entries + n)) ∘ (fun e : Entry => e.withRrpv (e.rrpv + n)) =
      fun e : Entry => decide (e.rrpv = maxRrpv entries) := by
    funext e
    simp [Entry.withRrpv]
  rw [leftmost, maxRrpv_raise h, raise, List.findIdx?_map, hsame]
  rfl

theorem exists_leftmost (h : entries ≠ []) : ∃ way, leftmost entries = some way := by
  obtain ⟨e, he, heq⟩ := exists_maxRrpv h
  exact ⟨_, List.findIdx?_eq_some_of_exists ⟨e, he, by simpa using heq⟩⟩

theorem leftmost_spec (h : leftmost entries = some way) : ∃ e, entries[way]? = some e ∧ e.rrpv = maxRrpv entries ∧
    ∀ j d, j < way → entries[j]? = some d → d.rrpv < maxRrpv entries := by
  obtain ⟨hlt, hmax, hleft⟩ := List.findIdx?_eq_some_iff_getElem.mp h
  refine ⟨entries[way], List.getElem?_eq_getElem hlt, by simpa using hmax, ?_⟩
  intro j d hj hd
  obtain ⟨hjlt, rfl⟩ := List.getElem?_eq_some_iff.mp hd
  have hne := hleft j hj
  rw [Bool.not_eq_true, decide_eq_false_iff_not] at hne
  exact lt_of_le_of_ne (le_maxRrpv (List.getElem_mem hjlt)) hne

/-- The rounds of the search: one for each step that the greatest rrpv is short of
the distant interval. -/
theorem searchRounds_eq (hne : entries ≠ []) (hmax : maxRrpv entries + n = distantInterval) (m : Nat) :
    searchRounds (n + 1 + m) entries = (leftmost entries).map (fun way =>
      (way, (raise n entries).modify way (fun e => e.withRrpv longInterval))) := by
  induction n generalizing entries with
  | zero =>
      obtain ⟨way, hway⟩ := exists_leftmost hne
      have hfind : entries.findIdx? (fun e => e.rrpv = distantInterval) = some way := by
        rw [← hmax]
        exact hway
      rw [Nat.zero_add, Nat.add_comm, searchRounds, hfind, hway, raise_zero]
      rfl
  | succ n ih =>
      have hnone : entries.findIdx? (fun e => e.rrpv = distantInterval) = none := by
        rw [List.findIdx?_eq_none_iff]
        intro e he
        have hle := le_maxRrpv he
        rw [decide_eq_false_iff_not]
        omega
      have hraised : entries.map (fun e => e.withRrpv ((e.rrpv + 1) % 2 ^ 64)) = raise 1 entries := by
        apply List.map_congr_left
        intro e he
        have hle := le_maxRrpv he
        have hdistant : distantInterval = 3 := rfl
        rw [Nat.mod_eq_of_lt (by omega)]
      have hne' : raise 1 entries ≠ [] := by
        rw [raise, ne_eq, List.map_eq_nil_iff]
        exact hne
      have hmax' : maxRrpv (raise 1 entries) + n = distantInterval := by
        rw [maxRrpv_raise hne]
        omega
      have hfuel : n + 1 + 1 + m = n + 1 + m + 1 := by omega
      rw [hfuel, searchRounds, hnone]
      simp only [hraised]
      rw [ih hne' hmax', leftmost_raise hne, raise_raise, Nat.add_comm 1 n]

theorem getSrripEntry_eq (hne : entries ≠ []) (hle : ∀ e ∈ entries, e.rrpv ≤ distantInterval) :
    getSrripEntry entries = (leftmost entries).map (fun way =>
      (way, (raise (distantInterval - maxRrpv entries) entries).modify way (fun e => e.withRrpv longInterval))) := by
  have hmax := maxRrpv_le hle
  have hdistant : distantInterval = 3 := rfl
  have hfuel : 2 ^ 64 = distantInterval - maxRrpv entries + 1 + (2 ^ 64 - (distantInterval - maxRrpv entries + 1)) := by omega
  rw [getSrripEntry, hfuel]
  exact searchRounds_eq hne (by omega) _

theorem Sound.ne_nil (h : Sound ways entries) (hways : 0 < ways) : entries ≠ [] := by
  rintro rfl
  rw [← h.length] at hways
  exact Nat.lt_irrefl 0 hways

/-- A free way is distant, so it keeps the ways from aging, and it is found
before any valid way can be. -/
theorem Sound.victim_free (h : Sound ways entries) {e : Entry} (hway : leftmost entries = some way)
    (he : entries[way]? = some e) (hfree : ∃ d ∈ entries, d.valid = false) :
    e.valid = false ∧ maxRrpv entries = distantInterval := by
  obtain ⟨d, hd, hinvalid⟩ := hfree
  have hmax : maxRrpv entries = distantInterval := by
    apply Nat.le_antisymm (maxRrpv_le h.bounded)
    rw [← h.free d hd hinvalid]
    exact le_maxRrpv hd
  refine ⟨?_, hmax⟩
  obtain ⟨e', he', heq, -⟩ := leftmost_spec hway
  obtain rfl : e' = e := Option.some.inj (he'.symm.trans he)
  cases hvalid : e'.valid with
  | false => rfl
  | true =>
      have hlt := h.filling ⟨d, hd, hinvalid⟩ e' (List.mem_of_getElem? he) hvalid
      omega

theorem sound_initial (ways : Nat) : Sound ways (List.replicate ways .invalid) := by
  refine ⟨List.length_replicate, ?_, ?_, ?_⟩
  · intro e he
    rw [List.eq_of_mem_replicate he]
    exact le_rfl
  · intro e he _
    rw [List.eq_of_mem_replicate he]
    rfl
  · rintro - e he hvalid
    rw [List.eq_of_mem_replicate he] at hvalid
    cases hvalid

theorem mem_modify {f : Entry → Entry} {e : Entry} (h : e ∈ entries.modify way f) :
    (∃ d ∈ entries, entries[way]? = some d ∧ e = f d) ∨ ∃ j, j ≠ way ∧ entries[j]? = some e := by
  obtain ⟨j, hj⟩ := List.mem_iff_getElem?.mp h
  rw [List.getElem?_modify] at hj
  obtain ⟨d, hd, rfl⟩ := Option.map_eq_some_iff.mp hj
  by_cases hway : way = j
  · exact .inl ⟨d, List.mem_of_getElem? hd, hway ▸ hd, if_pos hway⟩
  · exact .inr ⟨j, fun heq => hway heq.symm, by rw [hd, if_neg hway]⟩

theorem Sound.modify (h : Sound ways entries) {f : Entry → Entry}
    (hf : ∀ e, entries[way]? = some e → (f e).valid = true ∧ (f e).rrpv < distantInterval) :
    Sound ways (entries.modify way f) := by
  have hkept : ∀ e, e ∈ entries.modify way f → e.valid = false → e ∈ entries := by
    intro e he hinvalid
    rcases mem_modify he with ⟨d, -, hd, rfl⟩ | ⟨j, -, hj⟩
    · rw [(hf d hd).1] at hinvalid
      cases hinvalid
    · exact List.mem_of_getElem? hj
  refine ⟨(List.length_modify ..).trans h.length, ?_, ?_, ?_⟩
  · intro e he
    rcases mem_modify he with ⟨d, -, hd, rfl⟩ | ⟨j, -, hj⟩
    · exact Nat.le_of_lt (hf d hd).2
    · exact h.bounded e (List.mem_of_getElem? hj)
  · intro e he hinvalid
    exact h.free e (hkept e he hinvalid) hinvalid
  · rintro ⟨d, hd, hinvalid⟩ e he hvalid
    rcases mem_modify he with ⟨c, -, hc, rfl⟩ | ⟨j, -, hj⟩
    · exact (hf c hc).2
    · exact h.filling ⟨d, hkept d hd hinvalid, hinvalid⟩ e (List.mem_of_getElem? hj) hvalid

theorem Sound.raise (h : Sound ways entries) : Sound ways (raise (distantInterval - maxRrpv entries) entries) := by
  by_cases hfree : ∃ d ∈ entries, d.valid = false
  · obtain ⟨d, hd, hinvalid⟩ := hfree
    have hmax : distantInterval ≤ maxRrpv entries := by
      rw [← h.free d hd hinvalid]
      exact le_maxRrpv hd
    rw [Nat.sub_eq_zero_of_le hmax, raise_zero]
    exact h
  · have hvalid : ∀ e ∈ SrripVictim.raise (distantInterval - maxRrpv entries) entries, e.valid ≠ false := by
      intro e he hinvalid
      obtain ⟨d, hd, rfl⟩ := List.mem_map.mp he
      exact hfree ⟨d, hd, hinvalid⟩
    refine ⟨(List.length_map _).trans h.length, ?_, ?_, ?_⟩
    · intro e he
      obtain ⟨d, hd, rfl⟩ := List.mem_map.mp he
      have hle := le_maxRrpv hd
      have hmax := maxRrpv_le h.bounded
      change d.rrpv + _ ≤ _
      omega
    · exact fun e he hinvalid => absurd hinvalid (hvalid e he)
    · rintro ⟨d, hd, hinvalid⟩
      exact absurd hinvalid (hvalid d hd)

structure Invariant (ways : Nat) (s : State) : Prop where
  sound : ∀ set, Sound ways (s.btb set)
  bounded : StreamBuffer.Bounded s.stream

theorem invariant_initial (sets ways : Nat) : Invariant ways (initializeBtb sets ways) :=
  ⟨fun _ => sound_initial ways, StreamBuffer.bounded_empty (by decide)⟩

theorem reReference_spec (branchTarget : Nat) (taken : Bool) (e : Entry) :
    (reReference branchTarget taken e).ipTag = e.ipTag ∧ (reReference branchTarget taken e).rrpv = 0 := by
  cases taken <;> exact ⟨rfl, rfl⟩

variable {s s' : State} {ip : Nat} {c : Call}

theorem Touched.sound (h : ∀ set, Sound ways (s.btb set)) (hways : 0 < ways) (hip : ip ≠ 0) (ht : Touched s ip s') :
    ∀ set, Sound ways (s'.btb set) := by
  have hupdate : ∀ entries, s'.btb = Function.update s.btb (s.setIndex ip) entries → Sound ways entries →
      ∀ set, Sound ways (s'.btb set) := by
    intro entries hbtb hentries set
    rw [hbtb]
    by_cases hset : set = s.setIndex ip
    · rw [hset, Function.update_self]
      exact hentries
    · rw [Function.update_of_ne hset]
      exact h set
  have hold := h (s.setIndex ip)
  cases ht with
  | kept hbtb =>
      rw [hbtb]
      exact h
  | allocated hget hbtb =>
      apply hupdate _ hbtb
      rw [getSrripEntry_eq (hold.ne_nil hways) hold.bounded] at hget
      obtain ⟨way, -, heq⟩ := Option.map_eq_some_iff.mp hget
      obtain ⟨rfl, rfl⟩ := Prod.mk.inj heq
      rw [List.modify_modify_eq]
      have hlong : longInterval < distantInterval := by decide
      refine hold.raise.modify (fun e _ => ⟨?_, hlong⟩)
      simpa [Entry.valid] using hip
  | used hfind hbtb =>
      apply hupdate _ hbtb
      apply hold.modify
      intro e he
      obtain ⟨hlt, htag, -⟩ := List.findIdx?_eq_some_iff_getElem.mp hfind
      rw [List.getElem?_eq_getElem hlt, Option.some.injEq] at he
      rw [he, decide_eq_true_eq] at htag
      obtain ⟨hsame, hzero⟩ := reReference_spec _ _ e
      have hdistant : 0 < distantInterval := by decide
      refine ⟨?_, by rw [hzero]; exact hdistant⟩
      simpa [Entry.valid, hsame, htag] using hip

theorem step_invariant (h : Invariant ways s) (hways : 0 < ways) (hc : c.ip ≠ 0) :
    ∃ s', step s c = some s' ∧ Invariant ways s' := by
  have hget : ∀ set, ∃ r, getSrripEntry (s.btb set) = some r := by
    intro set
    have hset := h.sound set
    obtain ⟨way, hway⟩ := exists_leftmost (hset.ne_nil hways)
    rw [getSrripEntry_eq (hset.ne_nil hways) hset.bounded, hway]
    exact ⟨_, rfl⟩
  obtain ⟨s', hs', hb⟩ := step_total c h.bounded hget
  exact ⟨s', hs', Touched.sound h.sound hways hc (step_touched hs'), hb⟩

/-- In every set of every reachable state: the search ends, with the leftmost way
of maximal rrpv after aging all ways by what the maximum lacks, and it does not
end on a valid branch while a way is free. -/
theorem srrip_victim (sets ways : Nat) (hways : 0 < ways) (cs : List Call) (hcs : ∀ c ∈ cs, c.ip ≠ 0) :
    ∃ s, run step (initializeBtb sets ways) cs = some s ∧ ∀ set,
      (∀ e ∈ s.btb set, e.rrpv ≤ 3) ∧
      ∃ way e, (s.btb set)[way]? = some e ∧ e.rrpv = maxRrpv (s.btb set) ∧
        (∀ j d, j < way → (s.btb set)[j]? = some d → d.rrpv < maxRrpv (s.btb set)) ∧
        getSrripEntry (s.btb set) =
          some (way, (raise (3 - maxRrpv (s.btb set)) (s.btb set)).modify way (fun e => e.withRrpv 2)) ∧
        ((∃ d ∈ s.btb set, d.valid = false) → e.valid = false) := by
  obtain ⟨s, hrun, hs⟩ := run_total (I := Invariant ways)
    (fun s c hc hs => step_invariant hs hways (hcs c hc)) (invariant_initial sets ways)
  refine ⟨s, hrun, ?_⟩
  intro set
  have hset := hs.sound set
  obtain ⟨way, hway⟩ := exists_leftmost (hset.ne_nil hways)
  obtain ⟨e, he, hmax, hleft⟩ := leftmost_spec hway
  refine ⟨hset.bounded, way, e, he, hmax, hleft, ?_, fun hfree => (hset.victim_free hway he hfree).1⟩
  rw [getSrripEntry_eq (hset.ne_nil hways) hset.bounded, hway]
  rfl

/-- Three branches for two ways, the second one used again before the third comes. -/
theorem srrip_victim_two : ∃ s, run step (initializeBtb 1 2)
    [.update 4 64 true .conditional, .update 8 64 true .conditional, .update 8 64 true .conditional,
      .prefetch 12 64 .conditional true false] = some s ∧
    ∀ set, ∃ (way : Nat) (e : Entry), (s.btb set)[way]? = some e ∧ e.rrpv = maxRrpv (s.btb set) := by
  obtain ⟨s, hrun, hs⟩ := srrip_victim 1 2 (by decide)
    [.update 4 64 true .conditional, .update 8 64 true .conditional, .update 8 64 true .conditional,
      .prefetch 12 64 .conditional true false] (by decide)
  refine ⟨s, hrun, fun set => ?_⟩
  obtain ⟨-, way, e, he, hmax, -⟩ := hs set
  exact ⟨way, e, he, hmax⟩

end Thermometer.SrripVictim
