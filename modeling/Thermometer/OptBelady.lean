import Thermometer.Lib.Paging
import Thermometer.OptStep

namespace Thermometer.OptBelady

open Trace Lib.Tables Lib.Runs Lib.Paging OptBtb OptFuture OptStep

/-- What a branch asks of the BTB: a not taken one never takes a way. -/
def request (b : Branch) : Option Nat := if b.taken then some b.ip else none

def requests (bs : List Branch) : List (Option Nat) := bs.map request

def missed (s : State) (b : Branch) : Bool := b.taken && (findBtbEntry s.opt b.ip).isNone

/-- The branches of a trace one after the other, counting the misses. -/
def replay (s : State) : List (IterOrder × Branch) → Option (State × Nat)
  | [] => some (s, 0)
  | (o, b) :: es => do
      let m := if missed s b then 1 else 0
      let u ← run step s (b.calls.map (fun c => (o, c)))
      let (v, n) ← replay u es
      some (v, m + n)

/-- The BTB knows the trace `l` and is about to see its branch `k`. -/
structure Replaying (sets ways : Nat) (l : List (Option Nat)) (k : Nat) (s : State) : Prop where
  sound : Sound s
  setsEq : s.opt.totalSets = sets
  waysEq : s.opt.totalWays = ways
  time : s.opt.timestamp = k
  future : ∀ i ip c, c ∈ s.opt.futureAccesses.times i ip ↔ i = setIndex sets ip ∧ l[c]? = some (some ip)
  last : ∀ ip c, l[c]? = some (some ip) → c ≤ s.opt.lastTimestamp
  noPrefetch : ∀ i ip, s.opt.futurePrefetches.times i ip = ∅
  placed : Placed (setIndex sets) (residents s.opt)
  card : ∀ i, (residents s.opt i).card ≤ ways

variable {sets ways k : Nat} {l : List (Option Nat)} {s : State}

theorem mem_take_drop {y n : Nat} :
    some y ∈ (l.drop k).take n ↔ ∃ c, k ≤ c ∧ c < k + n ∧ l[c]? = some (some y) := by
  rw [List.mem_iff_getElem?]
  constructor
  · rintro ⟨j, hj⟩
    rw [List.getElem?_take] at hj
    split_ifs at hj with hlt
    rw [List.getElem?_drop] at hj
    exact ⟨k + j, by omega, by omega, hj⟩
  · rintro ⟨c, hk, hc, hl⟩
    refine ⟨c - k, ?_⟩
    rw [List.getElem?_take, if_pos (by omega), List.getElem?_drop, show k + (c - k) = c by omega, hl]

structure Ticked (sets : Nat) (l : List (Option Nat)) (k : Nat) (t : Opt OptBtb.Entry) : Prop where
  time : t.time = k
  future : ∀ i ip c, c ∈ t.futureAccesses.times i ip ↔ i = setIndex sets ip ∧ l[c]? = some (some ip)
  last : ∀ ip c, l[c]? = some (some ip) → c ≤ t.lastTimestamp

variable {t : Opt OptBtb.Entry}

theorem Ticked.nextAccess_some (h : Ticked sets l k t) {i ip c : Nat} (hc : nextAccess t i ip = some c) :
    k < c ∧ l[c]? = some (some ip) ∧ ∀ d, k < d → l[d]? = some (some ip) → c ≤ d := by
  obtain ⟨hmem, hlt, hmin⟩ := upperBound_eq_some hc
  rw [h.time] at hlt hmin
  obtain ⟨hi, hl⟩ := (h.future i ip c).mp hmem
  exact ⟨hlt, hl, fun d hd hl => hmin d ((h.future i ip d).mpr ⟨hi, hl⟩) hd⟩

theorem Ticked.nextAccess_none (h : Ticked sets l k t) {ip d : Nat}
    (hc : nextAccess t (setIndex sets ip) ip = none) (hl : l[d]? = some (some ip)) : d ≤ k := by
  have := upperBound_eq_none hc d ((h.future _ ip d).mpr ⟨rfl, hl⟩)
  rwa [h.time] at this

theorem Ticked.ended (h : Ticked sets l k t) : Ended t := fun _ ip c hc => h.last ip c (h.nextAccess_some hc).2.1

theorem Ticked.sooner (h : Ticked sets l k t) {i y z : Nat} (hz : setIndex sets z = i)
    (hrank : rank t i y ≤ rank t i z) : Sooner (l.drop (k + 1)) y z := by
  intro n hn
  obtain ⟨c, hkc, hcn, hlc⟩ := mem_take_drop.mp hn
  cases hnz : nextAccess t i z with
  | none =>
      rw [← hz] at hnz
      have := h.nextAccess_none hnz hlc
      omega
  | some cz =>
      obtain ⟨-, hlz, hmin⟩ := h.nextAccess_some hnz
      have hczc := hmin c (by omega) hlc
      have hlast := h.last z cz hlz
      have hrz : rank t i z = cz := by rw [rank, hnz]; rfl
      cases hny : nextAccess t i y with
      | none =>
          have hry : rank t i y = t.lastTimestamp + 1 := by rw [rank, hny]; rfl
          omega
      | some cy =>
          have hry : rank t i y = cy := by rw [rank, hny]; rfl
          obtain ⟨hky, hly, -⟩ := h.nextAccess_some hny
          exact mem_take_drop.mpr ⟨cy, by omega, by omega, hly⟩

/-- Whatever an insertion does with a branch that is not resident, it is Belady's choice. -/
theorem Ticked.furthest (h : Ticked sets l k t) (hsets : t.totalSets = sets) (hways : t.totalWays = ways)
    (hpre : ∀ i ip, t.futurePrefetches.times i ip = ∅) (hplaced : Placed (setIndex sets) (residents t))
    (hcard : ∀ i, (residents t i).card ≤ ways) {o : IterOrder} {ip : Nat} {D : Finset Nat}
    (hmiss : ip ∉ residents t (setIndex sets ip)) (hD : Placement o t ip D) :
    Furthest ways (l.drop (k + 1)) ip (residents t (setIndex sets ip)) D 1 := by
  have hset : t.set ip = setIndex sets ip := by rw [Opt.set, hsets]
  have hsooner : ∀ z, z ∈ insert ip (residents t (setIndex sets ip)) → (chooseVictim o t ip).getD ip = z →
      ∀ y ∈ insert ip (residents t (setIndex sets ip)), Sooner (l.drop (k + 1)) y z := by
    intro z hz hv y hy
    have hin : setIndex sets z = setIndex sets ip := by
      rcases Finset.mem_insert.mp hz with rfl | hz
      · rfl
      · exact hplaced _ z hz
    have hmem : y = ip ∨ y ∈ t.currentBtb (t.set ip) := by
      rcases Finset.mem_insert.mp hy with rfl | hy
      · exact .inl rfl
      · exact .inr (hset ▸ (mem_dom _ _).mp hy)
    have hrank := chooseVictim_rank (o := o) h.ended (hpre _) hmem
    rw [hv, hset] at hrank
    exact h.sooner hin hrank
  cases hD with
  | bypass hfull hv =>
      rw [hset] at hfull ⊢
      have hself := Finset.mem_insert_self ip (residents t (setIndex sets ip))
      have hdrop := Furthest.drop ip hmiss (hfull.trans hways) hself (hsooner ip hself (by rw [hv]; rfl))
      rwa [Finset.erase_insert hmiss] at hdrop
  | fill hfull =>
      rw [hset] at hfull ⊢
      exact .fill hmiss (Nat.lt_of_le_of_ne (hcard _) (hways ▸ hfull))
  | replace v hfull hv =>
      rw [hset] at hfull ⊢
      have hmem : v ∈ residents t (setIndex sets ip) := hset ▸ (mem_dom _ _).mpr (chooseVictim_mem hv)
      have hne : v ≠ ip := by
        rintro rfl
        exact hmiss hmem
      have hz : v ∈ insert ip (residents t (setIndex sets ip)) := Finset.mem_insert_of_mem hmem
      have hdrop := Furthest.drop v hmiss (hfull.trans hways) hz (hsooner v hz (by rw [hv]; rfl))
      rwa [Finset.erase_insert_of_ne hne.symm] at hdrop

theorem opt_time {t : Opt OptBtb.Entry} (h : t.timestamp = k + 1) : t.time = k := by
  rw [Opt.time, h, if_neg (by omega), Nat.add_sub_cancel]

theorem Replaying.next {u : State} (h : Replaying sets ways l k s) (hsound : Sound u)
    (hsame : SameFuture { s.opt with timestamp := k + 1 } u.opt) (hplaced : Placed (setIndex sets) (residents u.opt))
    (hcard : ∀ i, (residents u.opt i).card ≤ ways) : Replaying sets ways l (k + 1) u := by
  refine ⟨hsound, hsame.sets.trans h.setsEq, hsame.ways.trans h.waysEq, hsame.time, ?_, ?_, ?_, hplaced, hcard⟩
  · intro i ip c
    rw [hsame.accesses]
    exact h.future i ip c
  · intro ip c hl
    rw [hsame.last]
    exact h.last ip c hl
  · intro i ip
    rw [hsame.prefetches]
    exact h.noPrefetch i ip

theorem Replaying.stay {u : State} (h : Replaying sets ways l k s) (hsound : Sound u)
    (hsame : SameFuture { s.opt with timestamp := k + 1 } u.opt) (hres : residents u.opt = residents s.opt) :
    Replaying sets ways l (k + 1) u :=
  h.next hsound hsame (hres ▸ h.placed) (hres ▸ h.card)

theorem card_update {r : Nat → Finset Nat} {i : Nat} {D : Finset Nat} (h : ∀ j, (r j).card ≤ ways) (hD : D.card ≤ ways)
    (j : Nat) : (Function.update r i D j).card ≤ ways := by
  by_cases hj : j = i
  · rw [hj, Function.update_self]
    exact hD
  · rw [Function.update_of_ne hj]
    exact h j

/-- A branch is served as Belady serves its request. -/
theorem branch_step (h : Replaying sets ways l k s) (o : IterOrder) {b : Branch} (hb : b.WellFormed)
    (hty : b.branchType.usesBtb = true) :
    ∃ u, run step s (b.calls.map (fun c => (o, c))) = some u ∧ Replaying sets ways l (k + 1) u ∧
      match request b with
      | none => missed s b = false ∧ residents u.opt = residents s.opt
      | some ip => ∃ D, Furthest ways (l.drop (k + 1)) ip (residents s.opt (setIndex sets ip)) D
          (if missed s b then 1 else 0) ∧
          residents u.opt = Function.update (residents s.opt) (setIndex sets ip) D := by
  obtain ⟨hopt, -⟩ := btbPrediction_opt s b.ip b.branchType
  rw [hty, if_pos rfl, h.time] at hopt
  obtain ⟨u, hu, hsound, hsame, hplaced, hkept⟩ := updateBtb_served
    (btbPrediction_sound h.sound b.ip b.branchType) o b.ip b.branchTarget b.taken b.branchType
  rw [hopt] at hsame hplaced hkept
  have hrun : run step s (b.calls.map (fun c => (o, c))) = some u := by
    simp only [Branch.calls, List.map_cons, List.map_nil, run_cons, run_nil, step, Option.bind_some, hu]
  have htick : Ticked sets l k { s.opt with timestamp := k + 1 } := ⟨opt_time rfl, h.future, h.last⟩
  have hset : Opt.set { s.opt with timestamp := k + 1 } b.ip = setIndex sets b.ip := by
    rw [Opt.set, h.setsEq]
  refine ⟨u, hrun, ?_⟩
  cases ht : b.taken with
  | false =>
      have hres := hkept (fun ha => by rw [ht] at ha; exact absurd ha.2.2.2 (by simp))
      rw [request, ht, if_neg (by simp)]
      exact ⟨h.stay hsound hsame hres, by rw [missed, ht]; rfl, hres⟩
  | true =>
      rw [request, ht, if_pos rfl]
      cases hf : findBtbEntry s.opt b.ip with
      | some e =>
          have hfu : findBtbEntry { s.opt with timestamp := k + 1 } b.ip = some e := hf
          have hres := hkept (fun ha => by rw [hfu] at ha; exact absurd ha.2.1 (by simp))
          have hmem : b.ip ∈ residents s.opt (setIndex sets b.ip) := by
            by_contra hc
            rw [← hset] at hc
            have hn : findBtbEntry s.opt b.ip = none := findBtbEntry_eq_none.mpr hc
            rw [hf] at hn
            cases hn
          refine ⟨h.stay hsound hsame hres, residents s.opt (setIndex sets b.ip), ?_, ?_⟩
          · rw [missed, hf, ht, if_neg (by simp)]
            exact .hit hmem
          · rw [Function.update_eq_self]
            exact hres
      | none =>
          have hfu : findBtbEntry { s.opt with timestamp := k + 1 } b.ip = none := hf
          obtain ⟨D, hD, hres⟩ := hplaced ⟨hty, hfu, hb.taken_iff.mp ht, ht⟩
          have hmem : b.ip ∉ residents s.opt (setIndex sets b.ip) := by
            rw [← hset]
            exact findBtbEntry_eq_none.mp hfu
          have hfur := htick.furthest h.setsEq h.waysEq h.noPrefetch h.placed h.card hmem hD
          rw [hset] at hres
          refine ⟨h.next hsound hsame ?_ ?_, D, ?_, hres⟩
          · rw [hres]
            exact h.placed.update hfur.subset
          · rw [hres]
            exact card_update h.card (hfur.card_le (h.card _))
          · rw [missed, hf, ht, if_pos (by simp)]
            exact hfur

theorem replay_furthest (h : Replaying sets ways l k s) (es : List (IterOrder × Branch))
    (hes : ∀ e ∈ es, e.2.WellFormed ∧ e.2.branchType.usesBtb = true)
    (hl : l.drop k = requests (es.map Prod.snd)) :
    ∃ u m, replay s es = some (u, m) ∧ Run (Furthest ways) (setIndex sets) (residents s.opt) (l.drop k) m := by
  induction es generalizing s k with
  | nil => exact ⟨s, 0, rfl, by rw [hl]; exact .nil _⟩
  | cons e es ih =>
      obtain ⟨o, b⟩ := e
      obtain ⟨hb, hty⟩ := hes (o, b) List.mem_cons_self
      obtain ⟨u, hu, hk, hserve⟩ := branch_step h o hb hty
      have htail : l.drop (k + 1) = requests (es.map Prod.snd) := by
        rw [← List.drop_drop, hl]
        rfl
      obtain ⟨v, m, hv, hrun⟩ := ih hk (fun e he => hes e (List.mem_cons_of_mem _ he)) htail
      have hcons : l.drop k = request b :: l.drop (k + 1) := by
        rw [hl, htail]
        rfl
      refine ⟨v, (if missed s b then 1 else 0) + m, by simp [replay, hu, hv], ?_⟩
      rw [hcons]
      cases hr : request b with
      | none =>
          rw [hr] at hserve
          obtain ⟨hm, hres⟩ := hserve
          rw [hm, if_neg (by simp), Nat.zero_add]
          rw [hres] at hrun
          exact .skip hrun
      | some ip =>
          rw [hr] at hserve
          obtain ⟨D, hD, hres⟩ := hserve
          rw [hres] at hrun
          exact .request hD hrun

theorem replaying_initial (sets : Nat) {ways : Nat} (bs : List Branch)
    (hty : ∀ b ∈ bs, b.branchType.usesBtb = true) (counter : Nat) :
    Replaying sets ways (requests bs) 0 (initializeBtb sets ways (demandRecord 0 bs) none counter) := by
  have hsame := readRecord_same none (Opt.init (T := OptBtb.Entry) sets ways) (demandRecord 0 bs) counter
  have hrec : ∀ ip c, (ip, c) ∈ demandRecord 0 bs ↔ (requests bs)[c]? = some (some ip) := by
    intro ip c
    rw [mem_demandRecord, List.filter_eq_self.mpr hty, and_iff_right (Nat.zero_le c), Nat.sub_zero, requests,
      List.getElem?_map]
    cases hb : bs[c]? with
    | none => simp
    | some b => cases ht : b.taken <;> simp [request, ht]
  have hempty : residents (initializeBtb sets ways (demandRecord 0 bs) none counter).opt = fun _ => ∅ := by
    funext i
    rw [residents, initializeBtb, hsame.btb]
    rfl
  refine ⟨initial_sound _ _ _ _ _, hsame.sets, hsame.ways, hsame.time, ?_, ?_, ?_, ?_, ?_⟩
  · intro i ip c
    rw [← hrec]
    exact mem_times_readRecord sets ways _ counter i ip c
  · intro ip c hc
    exact le_last_demandRecord ((hrec ip c).mpr hc) counter
  · intro i ip
    rw [initializeBtb, readRecord_prefetches]
    rfl
  · intro i y hy
    rw [hempty] at hy
    cases hy
  · intro i
    rw [hempty]
    exact Nat.zero_le _

/-- Replaying a trace from its own record, the OPT BTB misses no more often than
any policy with the same sets and ways. -/
theorem replay_optimal {sets : Nat} (hsets : 0 < sets) (ways : Nat) (es : List (IterOrder × Branch))
    (hes : ∀ e ∈ es, e.2.WellFormed ∧ e.2.branchType.usesBtb = true) (counter : Nat) :
    ∃ s m, replay (initializeBtb sets ways (demandRecord 0 (es.map Prod.snd)) none counter) es = some (s, m) ∧
      ∀ n, Run (Serve ways) (setIndex sets) (fun _ => ∅) (requests (es.map Prod.snd)) n → m ≤ n := by
  have hty : ∀ b ∈ es.map Prod.snd, b.branchType.usesBtb = true := by
    intro b hb
    obtain ⟨e, he, rfl⟩ := List.mem_map.mp hb
    exact (hes e he).2
  have hinit := @replaying_initial sets ways _ hty counter
  obtain ⟨s, m, hrep, hrun⟩ := replay_furthest hinit es hes rfl
  refine ⟨s, m, hrep, fun n hn => ?_⟩
  have hempty : residents (initializeBtb sets ways (demandRecord 0 (es.map Prod.snd)) none counter).opt =
      fun _ => ∅ := by
    funext i
    rw [residents, initializeBtb, (readRecord_same none (Opt.init (T := OptBtb.Entry) sets ways) _ counter).btb]
    rfl
  rw [hempty, List.drop_zero] at hrun
  exact furthest_optimal (fun ip => Finset.mem_range.mpr (setIndex_lt hsets ip)) hrun hn

theorem replay_optimal_jumps :
    ∃ s m, replay (initializeBtb 1 1 (demandRecord 0 [⟨4, 40, true, .directJump⟩, ⟨8, 80, true, .directJump⟩]) none 0)
        [(.stored, ⟨4, 40, true, .directJump⟩), (.stored, ⟨8, 80, true, .directJump⟩)] = some (s, m) ∧
      ∀ n, Run (Serve 1) (setIndex 1) (fun _ => ∅)
        (requests [⟨4, 40, true, .directJump⟩, ⟨8, 80, true, .directJump⟩]) n → m ≤ n := by
  refine replay_optimal (by decide) 1
    [(.stored, ⟨4, 40, true, .directJump⟩), (.stored, ⟨8, 80, true, .directJump⟩)] ?_ 0
  intro e he
  rcases List.mem_cons.mp he with rfl | he
  · exact ⟨⟨by decide, by decide⟩, by decide⟩
  · rw [List.mem_singleton.mp he]
    exact ⟨⟨by decide, by decide⟩, by decide⟩

end Thermometer.OptBelady
