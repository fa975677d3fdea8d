import Mathlib.Algebra.Order.Ring.Nat
import Thermometer.Lib.RecentSlots
import Thermometer.Lib.Runs

namespace Thermometer.SppPrefetcher

open Lib.RecentSlots Lib.Runs

def stWay : Nat := 256

def stTagMask : Nat := 2 ^ 16 - 1

def sigShift : Nat := 3

def sigMask : Nat := 2 ^ 12 - 1

def sigDeltaBit : Nat := 7

def ptSet : Nat := 512

def ptWay : Nat := 4

def cSigMax : Nat := 15

def quotientBit : Nat := 10

def remainderBit : Nat := 6

def fillThreshold : Nat := 90

def pfThreshold : Nat := 25

def globalCounterMax : Nat := 1023

def maxGhrEntry : Nat := 8

def log2BlockSize : Nat := 6

def log2PageSize : Nat := 12

/-- `~(BLOCK_SIZE - 1)` and `~(PAGE_SIZE - 1)`: both sizes are unsigned constants of 32 bits. -/
def blockMask : Nat := 2 ^ 32 - 64

def pageMask : Nat := 2 ^ 32 - 4096

structure Config where
  l2cMshrSize : Nat

inductive Fault
  | signatureVictim
  | signatureLru
  | patternVictim
  | ghrVictim
  | queueOverrun
  | endless
  deriving DecidableEq, Repr

def getHash (key : Nat) : Nat :=
  let key := (key + key <<< 12) % 2 ^ 64
  let key := key ^^^ key >>> 22
  let key := (key + key <<< 4) % 2 ^ 64
  let key := key ^^^ key >>> 9
  let key := (key + key <<< 10) % 2 ^ 64
  let key := key ^^^ key >>> 2
  let key := (key + key <<< 7) % 2 ^ 64
  let key := key ^^^ key >>> 12
  (key >>> 3) * 2654435761 % 2 ^ 64

def sigDelta (delta : Int) : Nat :=
  if delta < 0 then (-delta).toNat + 1 <<< (sigDeltaBit - 1) else delta.toNat

def nextSig (sig : Nat) (delta : Int) : Nat := ((sig <<< sigShift) ^^^ sigDelta delta) &&& sigMask

/-- An address `delta` blocks from `base`, as a word of 64 bits. -/
def moveBy (base : Nat) (delta : Int) : Nat := (((base : Int) + delta * 64) % ((2 ^ 64 : Nat) : Int)).toNat

structure GhrEntry where
  valid : Bool
  sig : Nat
  confidence : Nat
  offset : Nat
  delta : Int

structure GlobalRegister where
  pfUseful : Nat
  pfIssued : Nat
  globalAccuracy : Nat
  entries : Nat → GhrEntry

def GlobalRegister.initial : GlobalRegister := ⟨0, 0, 0, fun _ => ⟨false, 0, 0, 0, 0⟩⟩

def GlobalRegister.measured (g : GlobalRegister) : GlobalRegister :=
  { g with globalAccuracy := if g.pfIssued ≠ 0 then 100 * g.pfUseful / g.pfIssued else 0 }

def GlobalRegister.issued (g : GlobalRegister) : GlobalRegister :=
  if globalCounterMax < g.pfIssued + 1 then
    { g with pfIssued := (g.pfIssued + 1) >>> 1, pfUseful := g.pfUseful >>> 1 }
  else { g with pfIssued := g.pfIssued + 1 }

def checkEntry (g : GlobalRegister) (pageOffset : Nat) : Option Nat :=
  ((List.range maxGhrEntry).foldl (fun (m : Option Nat × Nat) i =>
    if (g.entries i).offset = pageOffset ∧ m.2 < (g.entries i).confidence then
      (some i, (g.entries i).confidence)
    else m) (none, 0)).1

def updateEntry (g : GlobalRegister) (pfSig pfConfidence pfOffset : Nat) (pfDelta : Int) :
    Except Fault GlobalRegister :=
  match search maxGhrEntry (fun i => (g.entries i).valid && (g.entries i).offset == pfOffset) with
  | some i =>
    .ok { g with
      entries := Function.update g.entries i
        { g.entries i with sig := pfSig, confidence := pfConfidence, delta := pfDelta } }
  | none =>
    let victim := ((List.range maxGhrEntry).foldl (fun (v : Option Nat × Nat) i =>
      if (g.entries i).confidence < v.2 then (some i, (g.entries i).confidence) else v) (none, 100)).1
    match victim with
    | none => .error .ghrVictim
    | some way =>
      .ok { g with entries := Function.update g.entries way ⟨true, pfSig, pfConfidence, pfOffset, pfDelta⟩ }

structure SignatureEntry where
  valid : Bool
  tag : Nat
  lastOffset : Nat
  sig : Nat
  lru : Nat

structure Found where
  lastSig : Nat
  currSig : Nat
  delta : Int
  deriving DecidableEq

/-- The signature that a page starts with, of a prefetch that left another page for this block of it. -/
def bootSig (g : GlobalRegister) (pageOffset : Nat) : Nat :=
  match checkEntry g pageOffset with
  | none => 0
  | some i => nextSig (g.entries i).sig (g.entries i).delta

def promoteWay (st : Nat → SignatureEntry) (way : Nat) (x : SignatureEntry) :
    Except Fault (Nat → SignatureEntry) :=
  if (List.range stWay).any (fun w => (st w).lru < (st way).lru && stWay ≤ (st w).lru + 1) then
    .error .signatureLru
  else
    let aged : Nat → SignatureEntry := fun w =>
      if w < stWay ∧ (st w).lru < (st way).lru then { st w with lru := (st w).lru + 1 } else st w
    .ok (Function.update aged way { x with lru := 0 })

def readAndUpdateSig (st : Nat → SignatureEntry) (g : GlobalRegister) (page pageOffset : Nat) :
    Except Fault ((Nat → SignatureEntry) × Found) :=
  let partialPage := page &&& stTagMask
  let boot := bootSig g pageOffset
  match search stWay (fun w => (st w).valid && (st w).tag == partialPage) with
  | some w =>
    let x := st w
    let delta : Int := (pageOffset : Int) - x.lastOffset
    if delta = 0 then (promoteWay st w x).map (fun t => (t, ⟨0, 0, 0⟩))
    else
      let sig := nextSig x.sig delta
      (promoteWay st w { x with sig := sig, lastOffset := pageOffset }).map (fun t => (t, ⟨x.sig, sig, delta⟩))
  | none =>
    match search stWay (fun w => !(st w).valid) with
    | some w =>
      (promoteWay st w
        { st w with valid := true, tag := partialPage, sig := boot, lastOffset := pageOffset }).map
        (fun t => (t, ⟨0, boot, 0⟩))
    | none =>
      match search stWay (fun w => (st w).lru == stWay - 1) with
      | some w =>
        (promoteWay st w { st w with tag := partialPage, sig := boot, lastOffset := pageOffset }).map
          (fun t => (t, ⟨0, boot, 0⟩))
      | none => .error .signatureVictim

structure PatternSet where
  delta : Nat → Int
  cDelta : Nat → Nat
  cSig : Nat

def PatternSet.counted (p : PatternSet) : PatternSet :=
  if cSigMax < p.cSig + 1 then { p with cDelta := fun w => p.cDelta w >>> 1, cSig := (p.cSig + 1) >>> 1 }
  else { p with cSig := p.cSig + 1 }

def victimWay (cDelta : Nat → Nat) : Option Nat :=
  ((List.range ptWay).foldl (fun (v : Option Nat × Nat) w => if cDelta w < v.2 then (some w, cDelta w) else v)
    (none, cSigMax)).1

def updatePattern (p : PatternSet) (currDelta : Int) : Except Fault PatternSet :=
  match search ptWay (fun w => p.delta w == currDelta) with
  | some w => .ok { p with cDelta := Function.update p.cDelta w (p.cDelta w + 1) }.counted
  | none =>
    match victimWay p.cDelta with
    | none => .error .patternVictim
    | some w =>
      .ok
        { p with
          delta := Function.update p.delta w currDelta
          cDelta := Function.update p.cDelta w 0 }.counted

structure FilterEntry where
  remainderTag : Nat
  valid : Bool
  useful : Bool

inductive FilterRequest
  | sppL2cPrefetch
  | sppLlcPrefetch
  | l2cDemand
  | l2cEvict

def quotientOf (checkAddr : Nat) : Nat :=
  (getHash (checkAddr >>> log2BlockSize) >>> remainderBit) &&& (1 <<< quotientBit - 1)

def remainderOf (checkAddr : Nat) : Nat := getHash (checkAddr >>> log2BlockSize) % 1 <<< remainderBit

def check (f : Nat → FilterEntry) (g : GlobalRegister) (checkAddr : Nat) (request : FilterRequest) :
    Bool × (Nat → FilterEntry) × GlobalRegister :=
  let quotient := quotientOf checkAddr
  let remainder := remainderOf checkAddr
  let x := f quotient
  match request with
  | .sppL2cPrefetch =>
    if (x.valid || x.useful) && x.remainderTag == remainder then (false, f, g)
    else (true, Function.update f quotient ⟨remainder, true, false⟩, g)
  | .sppLlcPrefetch => (!((x.valid || x.useful) && x.remainderTag == remainder), f, g)
  | .l2cDemand =>
    if x.remainderTag == remainder && !x.useful then
      (true, Function.update f quotient { x with useful := true },
        if x.valid then { g with pfUseful := g.pfUseful + 1 } else g)
    else (true, f, g)
  | .l2cEvict =>
    (true, Function.update f quotient ⟨0, false, false⟩,
      if x.valid && !x.useful && g.pfUseful != 0 then { g with pfUseful := g.pfUseful - 1 } else g)

inductive FillLevel
  | l2
  | llc
  deriving DecidableEq, Repr

structure Prefetch where
  ip : Nat
  addr : Nat
  pfAddr : Nat
  level : FillLevel

/-- All but the signature table. `prefetched` is history. -/
structure Core where
  patterns : Nat → PatternSet
  filter : Nat → FilterEntry
  ghr : GlobalRegister
  prefetched : List Prefetch

def Core.initial : Core := ⟨fun _ => ⟨fun _ => 0, fun _ => 0, 0⟩, fun _ => ⟨0, false, false⟩, .initial, []⟩

def pfConf (p : PatternSet) (accuracy conf depth w : Nat) : Nat :=
  if depth = 0 then 100 * p.cDelta w / p.cSig else accuracy * p.cDelta w / p.cSig * conf / 100

structure Reading where
  queue : List (Nat × Int)
  lookaheadWay : Option Nat
  maxConf : Nat

def readWay (size : Nat) (p : PatternSet) (conf : Nat → Nat) (r : Reading) (w : Nat) : Except Fault Reading :=
  if conf w < pfThreshold then .ok r
  else if size ≤ r.queue.length then .error .queueOverrun
  else
    .ok
      { queue := r.queue ++ [(conf w, p.delta w)]
        lookaheadWay := if r.maxConf < conf w then some w else r.lookaheadWay
        maxConf := if r.maxConf < conf w then conf w else r.maxConf }

/-- The state of the loop that looks ahead. -/
structure Lookahead where
  queue : List (Nat × Int)
  head : Nat
  conf : Nat
  depth : Nat
  sig : Nat
  base : Nat
  core : Core

def readPattern (c : Config) (l : Lookahead) : Except Fault Reading :=
  let p := l.core.patterns (getHash l.sig % ptSet)
  if p.cSig = 0 then
    if c.l2cMshrSize ≤ l.queue.length then .error .queueOverrun else .ok ⟨l.queue, none, l.conf⟩
  else
    (List.range ptWay).foldlM
      (readWay c.l2cMshrSize p (pfConf p l.core.ghr.globalAccuracy l.conf l.depth)) ⟨l.queue, none, 0⟩

/-- What the inner loop does with one entry of the queue. -/
def issue (ip addr base sig : Nat) (s : Core) (entry : Nat × Int) : Except Fault Core :=
  if entry.1 < pfThreshold then .ok s
  else
    let pfAddr := moveBy (base &&& blockMask) entry.2
    if addr &&& pageMask = pfAddr &&& pageMask then
      let checked :=
        check s.filter s.ghr pfAddr (if fillThreshold ≤ entry.1 then .sppL2cPrefetch else .sppLlcPrefetch)
      if checked.1 then
        .ok
          { s with
            filter := checked.2.1
            ghr := if fillThreshold ≤ entry.1 then checked.2.2.issued else checked.2.2
            prefetched := s.prefetched ++ [⟨ip, addr, pfAddr, if fillThreshold ≤ entry.1 then .l2 else .llc⟩] }
      else .ok { s with filter := checked.2.1, ghr := checked.2.2 }
    else
      (updateEntry s.ghr sig entry.1 ((pfAddr >>> log2BlockSize) &&& 63) entry.2).map
        (fun g => { s with ghr := g })

/-- One round of the loop, and whether there is another. -/
def lookaheadRound (c : Config) (ip addr : Nat) (l : Lookahead) : Except Fault (Lookahead × Bool) := do
  let p := l.core.patterns (getHash l.sig % ptSet)
  let r ← readPattern c l
  let fresh := r.queue.drop l.head
  let core ← fresh.foldlM (issue ip addr l.base l.sig) l.core
  let good := fresh.filter (fun entry => pfThreshold ≤ entry.1)
  return (
    { queue := r.queue
      head := l.head + good.length
      conf := r.maxConf
      depth := if p.cSig ≠ 0 ∧ pfThreshold ≤ r.maxConf then l.depth + 1 else l.depth
      sig := r.lookaheadWay.elim l.sig (fun w => nextSig l.sig (p.delta w))
      base := r.lookaheadWay.elim l.base (fun w => moveBy l.base (p.delta w))
      core := core },
    !good.isEmpty)

def lookahead (c : Config) (ip addr : Nat) : Nat → Lookahead → Except Fault Core
  | 0, _ => .error .endless
  | fuel + 1, l => do
    let (l, again) ← lookaheadRound c ip addr l
    if again then lookahead c ip addr fuel l else return l.core

/-- What follows the signature table. The queue ends the loop at the latest. -/
def prefetch (c : Config) (s : Core) (addr ip : Nat) (found : Found) : Except Fault Core := do
  let checked := check s.filter s.ghr addr .l2cDemand
  let set := getHash found.lastSig % ptSet
  let patterns ←
    if found.lastSig = 0 then pure s.patterns
    else (updatePattern (s.patterns set) found.delta).map (Function.update s.patterns set)
  lookahead c ip addr (c.l2cMshrSize + 1)
    ⟨[], 0, 100, 0, found.currSig, addr,
      { s with patterns := patterns, filter := checked.2.1, ghr := checked.2.2 }⟩

/-- The prefetcher over any table of signatures. -/
structure State (T : Type) where
  table : T
  core : Core

def operate {T : Type} (read : T → GlobalRegister → Nat → Nat → Except Fault (T × Found)) (c : Config)
    (s : State T) (addr ip : Nat) : Except Fault (State T) := do
  let core := { s.core with ghr := s.core.ghr.measured }
  let (table, found) ← read s.table core.ghr (addr >>> log2PageSize) ((addr >>> log2BlockSize) &&& 63)
  let core ← prefetch c core addr ip found
  return ⟨table, core⟩

def cacheFill {T : Type} (s : State T) (evictedAddr : Nat) : State T :=
  let checked := check s.core.filter s.core.ghr evictedAddr .l2cEvict
  { s with core := { s.core with filter := checked.2.1, ghr := checked.2.2 } }

inductive Call
  | operate (addr ip : Nat)
  | cacheFill (evictedAddr : Nat)

def stepWith {T : Type} (read : T → GlobalRegister → Nat → Nat → Except Fault (T × Found)) (c : Config)
    (s : State T) : Call → Except Fault (State T)
  | .operate addr ip => operate read c s addr ip
  | .cacheFill evictedAddr => .ok (cacheFill s evictedAddr)

/-- One call of the prefetcher. -/
def step (c : Config) (s : State (Nat → SignatureEntry)) (call : Call) :
    Option (State (Nat → SignatureEntry)) :=
  (stepWith readAndUpdateSig c s call).toOption

def State.initial : State (Nat → SignatureEntry) := ⟨fun w => ⟨false, 0, 0, 0, w⟩, .initial⟩

/-- A page of the last 256 with all blocks of it that were accessed since it came in, the last one
apart. -/
structure PageHistory where
  tag : Nat
  start : Nat
  last : Nat
  before : List Nat

/-- The signature that the moves between the blocks of a page make of `start`. -/
def sigOf (start : Nat) : Nat → List Nat → Nat
  | _, [] => start
  | last, block :: before => nextSig (sigOf start block before) ((last : Int) - block)

def PageHistory.sig (h : PageHistory) : Nat := sigOf h.start h.last h.before

def PageHistory.opened (tag boot pageOffset : Nat) : PageHistory := ⟨tag, boot, pageOffset, []⟩

def PageHistory.moved (h : PageHistory) (pageOffset : Nat) : PageHistory :=
  { h with last := pageOffset, before := h.last :: h.before }

/-- The table that remembers whole histories, the page accessed last in front. -/
def readHistory (pages : List PageHistory) (g : GlobalRegister) (page pageOffset : Nat) :
    Except Fault (List PageHistory × Found) :=
  let partialPage := page &&& stTagMask
  match pages.find? (fun h => h.tag == partialPage) with
  | some h =>
    let others := pages.eraseP (fun h => h.tag == partialPage)
    if (pageOffset : Int) - h.last = 0 then .ok (h :: others, ⟨0, 0, 0⟩)
    else .ok (h.moved pageOffset :: others, ⟨h.sig, (h.moved pageOffset).sig, (pageOffset : Int) - h.last⟩)
  | none =>
    .ok ((.opened partialPage (bootSig g pageOffset) pageOffset :: pages).take stWay,
      ⟨0, bootSig g pageOffset, 0⟩)

def historyStep (c : Config) (s : State (List PageHistory)) (call : Call) : Option (State (List PageHistory)) :=
  (stepWith readHistory c s call).toOption

section Signatures

variable {st t : Nat → SignatureEntry} {pages : List PageHistory} {way : Nat} {x : SignatureEntry}

/-- What the table keeps of a page. -/
structure Line where
  tag : Nat
  lastOffset : Nat
  sig : Nat

def content (x : SignatureEntry) : Option Line := if x.valid then some ⟨x.tag, x.lastOffset, x.sig⟩ else none

def PageHistory.line (h : PageHistory) : Line := ⟨h.tag, h.last, h.sig⟩

def Follows (st : Nat → SignatureEntry) (pages : List PageHistory) : Prop :=
  Filled stWay Line.tag (fun w => content (st w)) (fun w => (st w).lru) (pages.map PageHistory.line)

theorem hasKey_content (x : SignatureEntry) (tag : Nat) :
    hasKey Line.tag tag (content x) = (x.valid && x.tag == tag) := by
  rw [content]
  cases x.valid <;> rfl

theorem isNone_content (x : SignatureEntry) : (content x).isNone = !x.valid := by
  rw [content]
  cases x.valid <;> rfl

theorem of_content {line : Line} (h : content x = some line) :
    x.valid = true ∧ line = ⟨x.tag, x.lastOffset, x.sig⟩ := by
  rw [content] at h
  split_ifs at h with hvalid
  exact ⟨hvalid, (Option.some.inj h).symm⟩

theorem find_line (pages : List PageHistory) (tag : Nat) :
    (pages.map PageHistory.line).find? (fun a => a.tag == tag) =
      (pages.find? (fun h => h.tag == tag)).map PageHistory.line :=
  List.find?_map ..

theorem erase_line (pages : List PageHistory) (tag : Nat) :
    (pages.map PageHistory.line).eraseP (fun a => a.tag == tag) =
      (pages.eraseP (fun h => h.tag == tag)).map PageHistory.line :=
  List.eraseP_map ..

theorem Follows.promoteWay (h : Follows st pages) (hway : way < stWay) (x : SignatureEntry) :
    ∃ t, promoteWay st way x = .ok t ∧
      (fun w => content (t w)) = Function.update (fun w => content (st w)) way (content x) ∧
      (fun w => (t w).lru) = promote stWay (fun w => (st w).lru) way := by
  have hnone :
      ¬(List.range stWay).any (fun w => (st w).lru < (st way).lru && stWay ≤ (st w).lru + 1) = true := by
    intro hany
    obtain ⟨w, hw, hcond⟩ := List.any_eq_true.mp hany
    have hrank : (st way).lru < stWay := h.holds.rank_lt hway
    rw [Bool.and_eq_true, decide_eq_true_eq, decide_eq_true_eq] at hcond
    omega
  rw [SppPrefetcher.promoteWay, if_neg hnone]
  refine ⟨_, rfl, ?_, ?_⟩
  · funext w
    by_cases hw : w = way
    · subst hw
      rw [Function.update_self, Function.update_self]
      rfl
    · rw [Function.update_of_ne hw, Function.update_of_ne hw]
      dsimp only
      split_ifs <;> rfl
  · funext w
    rw [promote]
    by_cases hw : w = way
    · subst hw
      rw [Function.update_self, if_pos rfl]
    · rw [Function.update_of_ne hw, if_neg hw]
      dsimp only
      split_ifs <;> rfl

theorem Follows.use (h : Follows st pages) (hway : way < stWay) {line : Line} (pages' : List PageHistory)
    (hx : content x = some line)
    (hnew : Filled stWay Line.tag (Function.update (fun w => content (st w)) way (some line))
      (promote stWay (fun w => (st w).lru) way) (pages'.map PageHistory.line)) :
    ∃ t, SppPrefetcher.promoteWay st way x = .ok t ∧ Follows t pages' := by
  obtain ⟨t, ht, hcontent, hlru⟩ := h.promoteWay hway x
  refine ⟨t, ht, ?_⟩
  rw [Follows, hcontent, hlru, hx]
  exact hnew

theorem Follows.found {tag : Nat} (h : Follows st pages)
    (hhit : search stWay (fun w => hasKey Line.tag tag (content (st w))) = some way) :
    ∃ p, pages.find? (fun h => h.tag == tag) = some p ∧
      p.line = ⟨(st way).tag, (st way).lastOffset, (st way).sig⟩ := by
  obtain ⟨line, hfind, hcontent, -⟩ := Filled.hit (v := ⟨tag, 0, 0⟩) h hhit rfl
  rw [find_line, Option.map_eq_some_iff] at hfind
  obtain ⟨p, hp, hline⟩ := hfind
  exact ⟨p, hp, hline.trans (of_content hcontent).2⟩

theorem Follows.hit {tag : Nat} {p : PageHistory} (h : Follows st pages)
    (hhit : search stWay (fun w => hasKey Line.tag tag (content (st w))) = some way) (hp : p.tag = tag) :
    Filled stWay Line.tag (Function.update (fun w => content (st w)) way (some p.line))
      (promote stWay (fun w => (st w).lru) way)
      ((p :: pages.eraseP (fun h => h.tag == tag)).map PageHistory.line) := by
  obtain ⟨-, -, -, hnew⟩ := Filled.hit (v := p.line) h hhit hp
  rw [erase_line] at hnew
  exact hnew

theorem Follows.missing {tag : Nat} (h : Follows st pages)
    (hmiss : search stWay (fun w => hasKey Line.tag tag (content (st w))) = none) :
    pages.find? (fun h => h.tag == tag) = none := by
  have hnone := Filled.missing h hmiss
  rw [find_line, Option.map_eq_none_iff] at hnone
  exact hnone

theorem ways_pos : 0 < stWay := Nat.succ_pos 255

theorem Follows.read (h : Follows st pages) (g : GlobalRegister) (page pageOffset : Nat) :
    ∃ t pages' found, readAndUpdateSig st g page pageOffset = .ok (t, found) ∧
      readHistory pages g page pageOffset = .ok (pages', found) ∧ Follows t pages' := by
  unfold readAndUpdateSig readHistory
  simp only [← hasKey_content, ← isNone_content]
  generalize page &&& stTagMask = tag
  cases hhit : search stWay (fun w => hasKey Line.tag tag (content (st w))) with
  | some w =>
      obtain ⟨hlt, hkey, -⟩ := search_some hhit
      rw [hasKey_content, Bool.and_eq_true, beq_iff_eq] at hkey
      obtain ⟨hvalid, htag⟩ := hkey
      obtain ⟨p, hp, hline⟩ := h.found hhit
      rw [hp]
      have hlast : p.last = (st w).lastOffset := congrArg Line.lastOffset hline
      have hsig : p.sig = (st w).sig := congrArg Line.sig hline
      dsimp only
      rw [hlast]
      by_cases hzero : (pageOffset : Int) - (st w).lastOffset = 0
      · rw [if_pos hzero, if_pos hzero]
        have hcontent : content (st w) = some p.line := by
          rw [content, if_pos hvalid, hline]
        obtain ⟨t, ht, hfollows⟩ :=
          h.use hlt _ hcontent (h.hit hhit (p := p) ((congrArg Line.tag hline).trans htag))
        rw [ht]
        exact ⟨t, _, _, rfl, rfl, hfollows⟩
      · rw [if_neg hzero, if_neg hzero]
        have hmoved :
            (p.moved pageOffset).sig = nextSig (st w).sig ((pageOffset : Int) - (st w).lastOffset) := by
          rw [← hsig, ← hlast]
          rfl
        have hcontent : content { st w with
            sig := nextSig (st w).sig ((pageOffset : Int) - (st w).lastOffset), lastOffset := pageOffset } =
            some (p.moved pageOffset).line := by
          rw [content, if_pos hvalid, PageHistory.line, hmoved]
          exact congrArg (fun tag => some (Line.mk tag pageOffset _)) (congrArg Line.tag hline).symm
        obtain ⟨t, ht, hfollows⟩ := h.use hlt _ hcontent
          (h.hit hhit (p := p.moved pageOffset) ((congrArg Line.tag hline).trans htag))
        rw [ht, hsig, hmoved]
        exact ⟨t, _, _, rfl, rfl, hfollows⟩
  | none =>
      rw [h.missing hhit]
      generalize bootSig g pageOffset = boot
      cases hfree : search stWay (fun w => (content (st w)).isNone) with
      | some w =>
          obtain ⟨hroom, hnew⟩ :=
            Filled.fill (v := (PageHistory.opened tag boot pageOffset).line) h hhit hfree rfl
          obtain ⟨hlt, -, -⟩ := search_some hfree
          rw [List.length_map] at hroom
          have htake : (PageHistory.opened tag boot pageOffset :: pages).take stWay =
              PageHistory.opened tag boot pageOffset :: pages := List.take_of_length_le hroom
          obtain ⟨t, ht, hfollows⟩ := h.use hlt (.opened tag boot pageOffset :: pages)
            (x := ⟨true, tag, pageOffset, boot, (st w).lru⟩) rfl hnew
          dsimp only
          rw [ht, htake]
          exact ⟨t, _, _, rfl, rfl, hfollows⟩
      | none =>
          obtain ⟨w, line, hold, hlen, -, hcontent, hnew⟩ :=
            Filled.replace (v := (PageHistory.opened tag boot pageOffset).line) h ways_pos hhit hfree rfl
          obtain ⟨hlt, -, -⟩ := search_some hold
          rw [List.length_map] at hlen
          have htake : (PageHistory.opened tag boot pageOffset :: pages).take stWay =
              PageHistory.opened tag boot pageOffset :: pages.dropLast := by
            rw [List.take_cons ways_pos, List.dropLast_eq_take, hlen]
          rw [← List.map_dropLast] at hnew
          have hx : content ⟨(st w).valid, tag, pageOffset, boot, (st w).lru⟩ =
              some (PageHistory.opened tag boot pageOffset).line :=
            if_pos (of_content hcontent).1
          obtain ⟨t, ht, hfollows⟩ := h.use hlt (.opened tag boot pageOffset :: pages.dropLast) hx hnew
          simp only [hold]
          rw [ht, htake]
          exact ⟨t, _, _, rfl, rfl, hfollows⟩

theorem nextSig_mod (sig : Nat) (delta : Int) (k : Nat) : nextSig sig delta % 2 ^ (k + sigShift) =
    (((sig % 2 ^ k) <<< sigShift) ^^^ (sigDelta delta % 2 ^ (k + sigShift))) &&&
      (sigMask % 2 ^ (k + sigShift)) := by
  have hshift : (sig <<< sigShift) % 2 ^ (k + sigShift) = (sig % 2 ^ k) <<< sigShift := by
    rw [Nat.shiftLeft_eq, Nat.shiftLeft_eq, Nat.pow_add, Nat.mul_mod_mul_right]
  rw [nextSig, Nat.and_mod_two_pow, Nat.xor_mod_two_pow, hshift]

theorem nextSig_lt (sig : Nat) (delta : Int) : nextSig sig delta < 2 ^ 12 :=
  Nat.lt_succ_of_le Nat.and_le_right

theorem sigOf_recent (start last : Nat) {before : List Nat} (h : 4 ≤ before.length) :
    sigOf start last before = sigOf 0 last (before.take 4) := by
  obtain ⟨b₁, b₂, b₃, b₄, rest, rfl⟩ : ∃ b₁ b₂ b₃ b₄ rest, before = b₁ :: b₂ :: b₃ :: b₄ :: rest := by
    match before, h with
    | b₁ :: b₂ :: b₃ :: b₄ :: rest, _ => exact ⟨b₁, b₂, b₃, b₄, rest, rfl⟩
  have hstep : ∀ {k s s'} (delta : Int), s % 2 ^ k = s' % 2 ^ k →
      nextSig s delta % 2 ^ (k + 3) = nextSig s' delta % 2 ^ (k + 3) := by
    intro k s s' delta heq
    rw [show k + 3 = k + sigShift from rfl, nextSig_mod, nextSig_mod, heq]
  have hfirst : sigOf start b₄ rest % 2 ^ 0 = sigOf 0 b₄ [] % 2 ^ 0 := by
    rw [Nat.pow_zero, Nat.mod_one, Nat.mod_one]
  have hall := hstep ((last : Int) - b₁) (hstep ((b₁ : Int) - b₂) (hstep ((b₂ : Int) - b₃)
    (hstep ((b₃ : Int) - b₄) hfirst)))
  rw [Nat.mod_eq_of_lt (nextSig_lt _ _), Nat.mod_eq_of_lt (nextSig_lt _ _)] at hall
  exact hall

theorem ok_bind {A B : Type} (a : A) (f : A → Except Fault B) : (Except.ok a >>= f) = f a := rfl

theorem bind_pure {A B : Type} (x : Except Fault A) (g : A → B) : (x >>= fun a => pure (g a)) = x.map g := by
  cases x with
  | ok a => rfl
  | error fault => rfl

theorem operate_eq {T : Type} {read : T → GlobalRegister → Nat → Nat → Except Fault (T × Found)} {c : Config}
    {s : State T} {addr : Nat} (ip : Nat) {table : T} {found : Found}
    (h : read s.table s.core.ghr.measured (addr >>> log2PageSize) ((addr >>> log2BlockSize) &&& 63) =
      .ok (table, found)) : operate read c s addr ip =
      (prefetch c { s.core with ghr := s.core.ghr.measured } addr ip found).map (State.mk table) := by
  simp only [operate, h, ok_bind]
  exact bind_pure _ _

/-- The prefetcher of the code and the one with whole histories say the same. -/
structure Refines (s : State (Nat → SignatureEntry)) (r : State (List PageHistory)) : Prop where
  table : Follows s.table r.table
  core : s.core = r.core

theorem Refines.step {s : State (Nat → SignatureEntry)} {r : State (List PageHistory)}
    (h : Refines s r) (c : Config)
    (call : Call) : step c s call = none ∧ historyStep c r call = none ∨
      ∃ t u, SppPrefetcher.step c s call = some t ∧ historyStep c r call = some u ∧ Refines t u := by
  cases call with
  | cacheFill evictedAddr =>
      have hcore := h.core
      refine .inr ⟨_, _, rfl, rfl, h.table, ?_⟩
      simp only [cacheFill, hcore]
  | operate addr ip =>
      obtain ⟨t, pages', found, hread, hhistory, hfollows⟩ :=
        h.table.read s.core.ghr.measured (addr >>> log2PageSize)
        ((addr >>> log2BlockSize) &&& 63)
      have hcode := operate_eq ip (c := c) hread
      rw [h.core] at hhistory
      have hlists := operate_eq ip (c := c) hhistory
      rw [SppPrefetcher.step, historyStep, stepWith, stepWith, hcode, hlists, h.core]
      cases prefetch c { r.core with ghr := r.core.ghr.measured } addr ip found with
      | ok core => exact .inr ⟨_, _, rfl, rfl, hfollows, rfl⟩
      | error fault => exact .inl ⟨rfl, rfl⟩

theorem refines_initial : Refines .initial ⟨[], .initial⟩ := ⟨filled_start stWay Line.tag, rfl⟩

/-- The table of 256 numbered ways is a list of the pages accessed last with all that was accessed of
them: over any calls the prefetches are those of the prefetcher with such a list, and what the table
keeps of each page on it in 12 bits are its last four moves. -/
theorem signatures_refine (c : Config) (calls : List Call) :
    (run (step c) .initial calls).map State.core = (run (historyStep c) ⟨[], .initial⟩ calls).map State.core ∧
      ∀ s ∈ run (step c) .initial calls, ∃ r ∈ run (historyStep c) ⟨[], .initial⟩ calls, Follows s.table r.table ∧
        ∀ h ∈ r.table, ∃ w < stWay, content (s.table w) = some ⟨h.tag, h.last, h.sig⟩ ∧
          (4 ≤ h.before.length → (s.table w).sig = sigOf 0 h.last (h.before.take 4)) := by
  have hall : ∀ s r, Refines s r → run (step c) s calls = none ∧ run (historyStep c) r calls = none ∨
      ∃ t u, run (step c) s calls = some t ∧ run (historyStep c) r calls = some u ∧ Refines t u := by
    induction calls with
    | nil => exact fun s r h => .inr ⟨s, r, rfl, rfl, h⟩
    | cons call calls ih =>
        intro s r h
        rw [run_cons, run_cons]
        rcases h.step c call with ⟨hs, hr⟩ | ⟨t, u, hs, hr, htu⟩
        · rw [hs, hr]
          exact .inl ⟨rfl, rfl⟩
        · rw [hs, hr]
          exact ih t u htu
  rcases hall _ _ refines_initial with ⟨hs, hr⟩ | ⟨t, u, hs, hr, htu⟩
  · rw [hs, hr]
    exact ⟨rfl, fun s hs => nomatch hs⟩
  · rw [hs, hr]
    refine ⟨congrArg some htu.core, ?_⟩
    intro s hs
    obtain rfl := Option.mem_some_iff.mp hs
    refine ⟨u, rfl, htu.table, fun h hh => ?_⟩
    obtain ⟨w, hw, hcontent⟩ := htu.table.slot (List.mem_map_of_mem (f := PageHistory.line) hh)
    refine ⟨w, hw, hcontent, fun hlen => ?_⟩
    have hsig : h.sig = (t.table w).sig := congrArg Line.sig (of_content hcontent).2
    rw [← hsig]
    exact sigOf_recent h.start h.last hlen

end Signatures

end Thermometer.SppPrefetcher
