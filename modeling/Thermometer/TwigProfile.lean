import Thermometer.Lib.Tables
import Thermometer.Trace

namespace Thermometer.TwigProfile

open Trace Lib.Tables

inductive BtbOperation
  | lookup
  | update
  deriving DecidableEq, Repr

structure BranchEntry where
  ip : Nat
  target : Nat
  branchType : BranchType
  missType : Nat
  deriving DecidableEq, Repr

/-- 1 is a miss, 2 a wrong target and 0 a hit. -/
def BranchEntry.new (ip target predictedTarget : Nat) (ty : BranchType) : BranchEntry :=
  ⟨ip, target, ty, if predictedTarget = 0 then 1 else if predictedTarget ≠ target then 2 else 0⟩

def BranchEntry.getMissOrHit (e : BranchEntry) : Nat := if e.missType = 0 then 0 else 1

/-- `none` is the failed assertion. -/
def getBranchTypeName : BranchType → Option String
  | .directJump => some "CF_BR"
  | .conditional => some "CF_CBR"
  | .directCall => some "CF_CALL"
  | _ => none

/-- One line of the trace, behind its `BTB-Lookup` or `BTB-Update`. -/
structure Line where
  operation : BtbOperation
  cycleCount : Nat
  branchTypeName : String
  ip : Nat
  target : Nat
  miss : Nat
  deriving DecidableEq, Repr

/-- In `outputTrace` each line stands with the number of the instruction it was written for. -/
structure TwigRecord where
  lookupHistory : Table BranchEntry
  outputTrace : List (Nat × Line)
  gen : Bool

def TwigRecord.init (generateTwigTrace : Bool) : TwigRecord := ⟨∅, [], generateTwigTrace⟩

def BranchEntry.writeLog (e : BranchEntry) (operation : BtbOperation) (cycleCount : Nat) : Option Line :=
  (getBranchTypeName e.branchType).map (fun name =>
    match operation with
    | .lookup => ⟨.lookup, cycleCount, name, e.ip, e.target, e.missType⟩
    | .update => ⟨.update, cycleCount, name, e.ip, e.target, e.getMissOrHit⟩)

def filterBranch (ty : BranchType) : Bool := ty = .directJump || ty = .conditional || ty = .directCall

def TwigRecord.lookup (r : TwigRecord) (instrId ip target predictedTarget : Nat) (ty : BranchType) (cycleCount : Nat) :
    Option TwigRecord :=
  if r.gen = false then some r
  else if target = 0 || !filterBranch ty then some r
  else
    let newBranch := BranchEntry.new ip target predictedTarget ty
    (newBranch.writeLog .lookup cycleCount).map (fun line =>
      { r with
        outputTrace := r.outputTrace ++ [(instrId, line)]
        lookupHistory := insertNew r.lookupHistory instrId newBranch })

/-- `none` is a failed assertion. -/
def TwigRecord.update (r : TwigRecord) (instrId ip target : Nat) (ty : BranchType) (cycleCount : Nat) : Option TwigRecord :=
  if r.gen = false then some r
  else if target = 0 || !filterBranch ty then some r
  else
    match r.lookupHistory.lookup instrId with
    | none => none
    | some it =>
        if ip = it.ip then
          (it.writeLog .update cycleCount).map (fun line =>
            { r with
              outputTrace := r.outputTrace ++ [(instrId, line)]
              lookupHistory := r.lookupHistory.erase instrId })
        else none

def shown (l : Nat × Line) : Nat × String × Nat × Nat := (l.1, l.2.branchTypeName, l.2.ip, l.2.target)

def lookups (trace : List (Nat × Line)) : List (Nat × Line) := trace.filter (fun l => l.2.operation = .lookup)

def updates (trace : List (Nat × Line)) : List (Nat × Line) := trace.filter (fun l => l.2.operation = .update)

/-- Every update has its lookup before it, with the same branch, and is the only one. -/
structure Paired (trace : List (Nat × Line)) : Prop where
  once : ((updates trace).map Prod.fst).Nodup
  preceded : ∀ pre l post, trace = pre ++ l :: post → l.2.operation = .update →
    ∃ m ∈ pre, m.2.operation = .lookup ∧ shown m = shown l

/-- What the history holds has been looked up and not yet updated. `bound` is the number
of the next instruction. -/
structure Books (r : TwigRecord) (bound : Nat) : Prop where
  paired : Paired r.outputTrace
  recent : ∀ l ∈ r.outputTrace, l.1 < bound
  looked : ∀ n e, r.lookupHistory.lookup n = some e → ∃ m ∈ r.outputTrace, ∃ cycleCount,
    m.1 = n ∧ e.writeLog .lookup cycleCount = some m.2
  pending : ∀ n ∈ r.lookupHistory, n ∉ (updates r.outputTrace).map Prod.fst

def Profiled (target : Nat) (ty : BranchType) : Prop := target ≠ 0 ∧ filterBranch ty = true

instance (target : Nat) (ty : BranchType) : Decidable (Profiled target ty) := inferInstanceAs (Decidable (_ ∧ _))

variable {r : TwigRecord} {n bound ip target predicted cycle : Nat} {ty : BranchType} {e : BranchEntry} {line : Line}
  {trace : List (Nat × Line)}

theorem skips_iff : (target = 0 || !filterBranch ty) = true ↔ ¬Profiled target ty := by
  rw [Profiled, Bool.or_eq_true, decide_eq_true_eq, Bool.not_eq_true', not_and_or, not_not, Bool.not_eq_true]

theorem exists_name (h : filterBranch ty = true) : ∃ name, getBranchTypeName ty = some name := by
  cases ty with
  | directJump | conditional | directCall => exact ⟨_, rfl⟩
  | notBranch | indirect | indirectCall | ret | other => cases h

theorem writeLog_operation {operation : BtbOperation} (h : e.writeLog operation cycle = some line) :
    line.operation = operation := by
  obtain ⟨name, -, rfl⟩ := Option.map_eq_some_iff.mp h
  cases operation <;> rfl

theorem exists_writeLog (h : filterBranch e.branchType = true) (operation : BtbOperation) (cycle : Nat) :
    ∃ line, e.writeLog operation cycle = some line := by
  obtain ⟨name, hname⟩ := exists_name h
  exact ⟨_, Option.map_eq_some_iff.mpr ⟨name, hname, rfl⟩⟩

theorem shown_eq {k : Line} {operation operation' : BtbOperation} {c d : Nat} (h : e.writeLog operation c = some line)
    (h' : e.writeLog operation' d = some k) : shown (n, line) = shown (n, k) := by
  obtain ⟨name, hname, rfl⟩ := Option.map_eq_some_iff.mp h
  obtain ⟨name', hname', rfl⟩ := Option.map_eq_some_iff.mp h'
  obtain rfl : name = name' := Option.some.inj (hname.symm.trans hname')
  cases operation <;> cases operation' <;> rfl

theorem updates_concat (trace : List (Nat × Line)) (n : Nat) (line : Line) :
    updates (trace ++ [(n, line)]) = updates trace ++ if line.operation = .update then [(n, line)] else [] := by
  rw [updates, List.filter_append, updates]
  congr 1
  by_cases h : line.operation = .update <;> simp [h]

theorem lookups_concat (trace : List (Nat × Line)) (n : Nat) (line : Line) :
    lookups (trace ++ [(n, line)]) = lookups trace ++ if line.operation = .lookup then [(n, line)] else [] := by
  rw [lookups, List.filter_append, lookups]
  congr 1
  by_cases h : line.operation = .lookup <;> simp [h]

theorem Paired.concat (h : Paired trace)
    (hnew : line.operation = .update → n ∉ (updates trace).map Prod.fst ∧
      ∃ m ∈ trace, m.2.operation = .lookup ∧ shown m = shown (n, line)) : Paired (trace ++ [(n, line)]) := by
  constructor
  · rw [updates_concat]
    split_ifs with hop
    · rw [List.map_append]
      refine List.nodup_append.mpr ⟨h.once, List.nodup_singleton n, ?_⟩
      intro a ha b hb
      obtain rfl : b = n := List.mem_singleton.mp hb
      rintro rfl
      exact (hnew hop).1 ha
    · rw [List.append_nil]
      exact h.once
  · intro pre l post heq hop
    rcases List.eq_nil_or_concat post with rfl | ⟨rest, x, rfl⟩
    · obtain ⟨rfl, hl⟩ := List.append_inj' heq rfl
      obtain rfl : (n, line) = l := (List.cons.inj hl).1
      exact (hnew hop).2
    · rw [List.concat_eq_append, ← List.cons_append, ← List.append_assoc] at heq
      exact h.preceded pre l rest (List.append_inj' heq rfl).1 hop

theorem Books.mono (h : Books r bound) : Books r (bound + 1) :=
  ⟨h.paired, fun l hl => (h.recent l hl).trans (Nat.lt_succ_self bound), h.looked, h.pending⟩

theorem lookup_skip (h : ¬Profiled target ty) (n ip predicted cycle : Nat) :
    r.lookup n ip target predicted ty cycle = some r := by
  rw [TwigRecord.lookup, if_pos (skips_iff.mpr h), ite_self]

theorem update_skip (h : ¬Profiled target ty) (n ip cycle : Nat) : r.update n ip target ty cycle = some r := by
  rw [TwigRecord.update, if_pos (skips_iff.mpr h), ite_self]

def looking (r : TwigRecord) (n : Nat) (e : BranchEntry) (line : Line) : TwigRecord :=
  { r with outputTrace := r.outputTrace ++ [(n, line)], lookupHistory := insertNew r.lookupHistory n e }

def updating (r : TwigRecord) (n : Nat) (line : Line) : TwigRecord :=
  { r with outputTrace := r.outputTrace ++ [(n, line)], lookupHistory := r.lookupHistory.erase n }

theorem Books.fresh (h : Books r bound) : bound ∉ r.lookupHistory := by
  intro hmem
  obtain ⟨e, he⟩ := (mem_iff_lookup _ _).mp hmem
  obtain ⟨m, hm, _, rfl, _⟩ := h.looked bound e he
  exact absurd (h.recent m hm) (Nat.lt_irrefl _)

theorem looking_books (h : Books r bound) (hwrite : e.writeLog .lookup cycle = some line) :
    Books (looking r bound e line) (bound + 1) := by
  have hop : line.operation = .lookup := writeLog_operation hwrite
  have hno : line.operation ≠ .update := by simp [hop]
  have hupdates : updates (looking r bound e line).outputTrace = updates r.outputTrace := by
    rw [looking, updates_concat, if_neg hno, List.append_nil]
  refine ⟨h.paired.concat (fun hu => absurd hu hno), ?_, ?_, ?_⟩
  · intro l hl
    rcases List.mem_append.mp hl with hl | hl
    · exact (h.recent l hl).trans (Nat.lt_succ_self bound)
    · rw [List.mem_singleton.mp hl]
      exact Nat.lt_succ_self bound
  · intro n d hd
    rw [looking, lookup_insertNew_of_notMem h.fresh] at hd
    split_ifs at hd with hn
    · rw [← Option.some.inj hd, hn]
      exact ⟨_, List.mem_append_right _ (List.mem_singleton_self _), cycle, rfl, hwrite⟩
    · obtain ⟨m, hm, hline⟩ := h.looked n d hd
      exact ⟨m, List.mem_append_left _ hm, hline⟩
  · intro n hn
    rw [hupdates]
    rcases (mem_insertNew _ _ _ _).mp hn with rfl | hn
    · intro hmem
      obtain ⟨l, hl, hid⟩ := List.mem_map.mp hmem
      exact absurd hid (h.recent l (List.mem_of_mem_filter hl)).ne
    · exact h.pending n hn

theorem updating_books (h : Books r bound) (he : r.lookupHistory.lookup n = some e)
    (hwrite : e.writeLog .update cycle = some line) : Books (updating r n line) bound := by
  obtain ⟨m, hm, c, rfl, hline⟩ := h.looked n e he
  have hnot : m.1 ∉ (updates r.outputTrace).map Prod.fst := h.pending m.1 ((mem_iff_lookup _ _).mpr ⟨e, he⟩)
  refine ⟨h.paired.concat (fun _ => ⟨hnot, m, hm, writeLog_operation hline, shown_eq hline hwrite⟩), ?_, ?_, ?_⟩
  · intro l hl
    rcases List.mem_append.mp hl with hl | hl
    · exact h.recent l hl
    · rw [List.mem_singleton.mp hl]
      exact h.recent m hm
  · intro k d hd
    rw [updating, lookup_erase] at hd
    split_ifs at hd
    obtain ⟨m', hm', hline'⟩ := h.looked k d hd
    exact ⟨m', List.mem_append_left _ hm', hline'⟩
  · intro k hk
    obtain ⟨hne, hk⟩ := AList.mem_erase.mp hk
    rw [updating, updates_concat, if_pos (writeLog_operation hwrite), List.map_append, List.mem_append, not_or]
    exact ⟨h.pending k hk, fun hmem => hne (List.mem_singleton.mp hmem)⟩

theorem lookup_profiled (hgen : r.gen = true) (hp : Profiled target ty) (n ip predicted cycle : Nat) :
    ∃ line, (BranchEntry.new ip target predicted ty).writeLog .lookup cycle = some line ∧
      r.lookup n ip target predicted ty cycle = some (looking r n (.new ip target predicted ty) line) := by
  obtain ⟨line, hwrite⟩ := exists_writeLog (e := .new ip target predicted ty) hp.2 .lookup cycle
  refine ⟨line, hwrite, ?_⟩
  rw [TwigRecord.lookup, if_neg (by simp [hgen]), if_neg (fun hs => skips_iff.mp hs hp)]
  exact Option.map_eq_some_iff.mpr ⟨line, hwrite, rfl⟩

theorem update_profiled (hgen : r.gen = true) (hp : Profiled target ty) (he : r.lookupHistory.lookup n = some e)
    (hip : e.ip = ip) (hty : e.branchType = ty) (cycle : Nat) :
    ∃ line, e.writeLog .update cycle = some line ∧ r.update n ip target ty cycle = some (updating r n line) := by
  obtain ⟨line, hwrite⟩ := exists_writeLog (hty ▸ hp.2) .update cycle
  refine ⟨line, hwrite, ?_⟩
  rw [TwigRecord.update, if_neg (by simp [hgen]), if_neg (fun hs => skips_iff.mp hs hp), he]
  simp only
  rw [if_pos hip.symm, hwrite]
  rfl

end Thermometer.TwigProfile
