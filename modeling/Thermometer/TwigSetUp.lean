import Thermometer.OptFuture

namespace Thermometer.TwigSetUp

open Trace Lib.Tables AccessRecord OptBtb OptFuture

/-- For each branch, the branches Twig prefetches with it and their targets. -/
abbrev Match := Table (List (Nat × Nat))

structure TwigPrefetcher where
  prefetchRecord : Match
  useTwig : Bool

def allEntries : List Nat → List (Nat × Nat)
  | pc :: target :: rest => (pc, target) :: allEntries rest
  | _ => []

/-- A line of the footprint: a branch, the number of its entries, and these.
`none` is a failed assertion. -/
def parseLine : List Nat → Option (Nat × List (Nat × Nat))
  | functionStart :: entryCount :: rest =>
      if 2 * entryCount = rest.length then some (functionStart, allEntries rest) else none
  | _ => none

def readFootprint : List (List Nat) → Match → Option Match
  | [], t => some t
  | parsed :: lines, t => (parseLine parsed).bind (fun line => readFootprint lines (t.insert line.1 line.2))

def init (footprint : List (List Nat)) (useTwigPrefetcher : Bool) : Option (TwigPrefetcher × Option Match) :=
  if useTwigPrefetcher then (readFootprint footprint ∅).map (fun t => (⟨t, true⟩, some t))
  else some (⟨∅, false⟩, none)

/-- What the set-up in `main` fills in. -/
structure Core where
  twigPrefetchMatch : Option Match
  twigPrefetcher : TwigPrefetcher
  btb : State

def Core.new (sets ways : Nat) : Core := ⟨none, ⟨∅, false⟩, ⟨.init sets ways, .empty .normal, .initial, .empty 32⟩⟩

def initializeBtb (sets ways : Nat) (record : List (Nat × Nat)) (counter : Nat) (c : Core) : Core :=
  { c with btb := OptBtb.initializeBtb sets ways record c.twigPrefetchMatch counter }

def initializeCore (footprint : List (List Nat)) (useTwigPrefetcher : Bool) (c : Core) : Option Core :=
  (init footprint useTwigPrefetcher).map (fun r => { c with twigPrefetcher := r.1, twigPrefetchMatch := r.2 })

/-- `main` initialises the BTB first. -/
def setUp (sets ways : Nat) (record : List (Nat × Nat)) (counter : Nat) (footprint : List (List Nat))
    (useTwigPrefetcher : Bool) : Option Core :=
  initializeCore footprint useTwigPrefetcher (initializeBtb sets ways record counter (.new sets ways))

/-- The prefetch times of a branch are those of the recorded branches that prefetch it. -/
def Reaches (t : Opt Entry) (record : List (Nat × Nat)) (m : Match) : Prop :=
  ∀ set ip time, time ∈ t.futurePrefetches.times set ip ↔
    set = t.set ip ∧ ∃ trigger entries target, (trigger, time) ∈ record ∧ m.lookup trigger = some entries ∧
      (ip, target) ∈ entries

variable {T : Type} {t : Opt T} {m : Match} {record : List (Nat × Nat)} {sets ways counter set ip time : Nat}
  {footprint : List (List Nat)} {c : Core}

theorem mem_foldl_addToFuture (sets time : Nat) (entries : List (Nat × Nat)) (f : Future) (set ip c : Nat) :
    c ∈ (entries.foldl (fun f a => addToFuture sets a.1 time f) f).times set ip ↔
      c ∈ f.times set ip ∨ set = setIndex sets ip ∧ c = time ∧ ∃ target, (ip, target) ∈ entries := by
  induction entries generalizing f with
  | nil => simp
  | cons a entries ih =>
      rw [List.foldl_cons, ih, mem_times_add]
      constructor
      · rintro ((h | ⟨hset, heq⟩) | ⟨hset, hc, target, hmem⟩)
        · exact .inl h
        · rw [Prod.mk.injEq] at heq
          refine .inr ⟨hset, heq.2, a.2, ?_⟩
          rw [heq.1]
          exact List.mem_cons_self
        · exact .inr ⟨hset, hc, target, List.mem_cons_of_mem a hmem⟩
      · rintro (h | ⟨hset, hc, target, hmem⟩)
        · exact .inl (.inl h)
        · rcases List.mem_cons.mp hmem with rfl | hmem
          · exact .inl (.inr ⟨hset, by rw [hc]⟩)
          · exact .inr ⟨hset, hc, target, hmem⟩

theorem mem_times_readLine (t : Opt T) (m : Match) (line : Nat × Nat) (set ip c : Nat) :
    c ∈ (readLine (some m) t line).futurePrefetches.times set ip ↔
      c ∈ t.futurePrefetches.times set ip ∨ set = setIndex t.totalSets ip ∧ c = line.2 ∧
        ∃ entries target, m.lookup line.1 = some entries ∧ (ip, target) ∈ entries := by
  rw [readLine, Option.bind_some]
  cases hm : m.lookup line.1 with
  | none => simp
  | some entries =>
      dsimp only
      rw [mem_foldl_addToFuture]
      simp

theorem mem_times_foldl_readLine (t : Opt T) (m : Match) (record : List (Nat × Nat)) (set ip c : Nat) :
    c ∈ (record.foldl (readLine (some m)) t).futurePrefetches.times set ip ↔
      c ∈ t.futurePrefetches.times set ip ∨ set = setIndex t.totalSets ip ∧
        ∃ trigger entries target, (trigger, c) ∈ record ∧ m.lookup trigger = some entries ∧ (ip, target) ∈ entries := by
  induction record generalizing t with
  | nil => simp
  | cons line record ih =>
      rw [List.foldl_cons, ih, mem_times_readLine, (readLine_same (some m) t line).sets]
      constructor
      · rintro ((h | ⟨hset, rfl, entries, target, hm, hmem⟩) | ⟨hset, trigger, entries, target, hrec, hm, hmem⟩)
        · exact .inl h
        · exact .inr ⟨hset, line.1, entries, target, List.mem_cons_self, hm, hmem⟩
        · exact .inr ⟨hset, trigger, entries, target, List.mem_cons_of_mem line hrec, hm, hmem⟩
      · rintro (h | ⟨hset, trigger, entries, target, hrec, hm, hmem⟩)
        · exact .inl (.inl h)
        · rcases List.mem_cons.mp hrec with rfl | hrec
          · exact .inl (.inr ⟨hset, rfl, entries, target, hm, hmem⟩)
          · exact .inr ⟨hset, trigger, entries, target, hrec, hm, hmem⟩

theorem readRecord_reaches (sets ways : Nat) (record : List (Nat × Nat)) (m : Match) (counter : Nat) :
    Reaches (readRecord (.init sets ways) record (some m) counter) record m := by
  intro set ip time
  have hsame := readRecord_same (some m) (Opt.init (T := Entry) sets ways) record counter
  refine (mem_times_foldl_readLine (Opt.init (T := Entry) sets ways) m record set ip time).trans ?_
  rw [Opt.set, hsame.sets, Opt.init, times_empty]
  exact or_iff_right (Finset.notMem_empty time)

/-- With the other order of the two initialisers the prefetches would be there. -/
theorem swapped_reaches (c c' : Core) (h : initializeCore footprint true c = some c') :
    ∃ m, (initializeBtb sets ways record counter c').twigPrefetchMatch = some m ∧
      Reaches (initializeBtb sets ways record counter c').btb.opt record m := by
  obtain ⟨r, hr, rfl⟩ := Option.map_eq_some_iff.mp h
  rw [init, if_pos rfl] at hr
  obtain ⟨m, -, rfl⟩ := Option.map_eq_some_iff.mp hr
  exact ⟨m, rfl, readRecord_reaches sets ways record m counter⟩

theorem setUp_eq_some (h : setUp sets ways record counter footprint true = some c) :
    ∃ m, readFootprint footprint ∅ = some m ∧ c.twigPrefetchMatch = some m ∧
      c.btb.opt = readRecord (.init sets ways) record none counter := by
  obtain ⟨r, hr, rfl⟩ := Option.map_eq_some_iff.mp h
  rw [init, if_pos rfl] at hr
  obtain ⟨m, hm, rfl⟩ := Option.map_eq_some_iff.mp hr
  exact ⟨m, hm, rfl, rfl⟩

/-- The match table comes too late: OPT knows the prefetches exactly when there are none. -/
theorem setUp_reaches_iff (sets ways : Nat) (record : List (Nat × Nat)) (counter : Nat) (footprint : List (List Nat))
    (c : Core) (m : Match) (h : setUp sets ways record counter footprint true = some c)
    (hm : c.twigPrefetchMatch = some m) :
    Reaches c.btb.opt record m ↔
      ∀ ip time entries, (ip, time) ∈ record → m.lookup ip = some entries → entries = [] := by
  obtain ⟨m', -, hm', hopt⟩ := setUp_eq_some h
  obtain rfl : m' = m := Option.some.inj (hm'.symm.trans hm)
  have hnone : ∀ set ip time, time ∉ c.btb.opt.futurePrefetches.times set ip := by
    intro set ip time
    rw [hopt, readRecord_prefetches, Opt.init, times_empty]
    exact Finset.notMem_empty time
  constructor
  · intro hr ip time entries hrec hlook
    cases entries with
    | nil => rfl
    | cons a entries =>
        have hmem := (hr (c.btb.opt.set a.1) a.1 time).mpr
          ⟨rfl, ip, a :: entries, a.2, hrec, hlook, List.mem_cons_self⟩
        exact absurd hmem (hnone _ _ _)
  · intro hempty set ip time
    constructor
    · intro hmem
      exact absurd hmem (hnone _ _ _)
    · rintro ⟨-, trigger, entries, target, hrec, hlook, hmem⟩
      rw [hempty trigger time entries hrec hlook] at hmem
      cases hmem

theorem setUp_reaches_iff_untriggered : ∃ c m, setUp 1 1 [(4, 0)] 0 [[8, 1, 4, 40]] true = some c ∧
    c.twigPrefetchMatch = some m ∧ Reaches c.btb.opt [(4, 0)] m := by
  refine ⟨_, _, rfl, rfl, (setUp_reaches_iff 1 1 [(4, 0)] 0 [[8, 1, 4, 40]] _ _ rfl rfl).mpr ?_⟩
  intro ip time entries hrec hlook
  obtain ⟨rfl, rfl⟩ := Prod.mk.inj (List.mem_singleton.mp hrec)
  cases hlook

/-- Branch 4 prefetches 8 and comes at time 0, but OPT does not hear of it. -/
theorem setUp_loses : ∃ c m, setUp 1 1 [(4, 0)] 0 [[4, 1, 8, 80]] true = some c ∧
    c.twigPrefetchMatch = some m ∧ ¬Reaches c.btb.opt [(4, 0)] m := by
  refine ⟨_, _, rfl, rfl, ?_⟩
  intro hr
  have hmem := (hr 0 8 0).mpr ⟨rfl, 4, [(8, 80)], 80, List.mem_cons_self, rfl, List.mem_cons_self⟩
  exact absurd hmem (Finset.notMem_empty 0)

end Thermometer.TwigSetUp
