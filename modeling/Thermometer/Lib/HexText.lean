import Mathlib.Data.Nat.Digits.Defs

namespace Thermometer.Lib.HexText

def digitValue (c : Char) : Option Nat :=
  if '0' ≤ c ∧ c ≤ '9' then some (c.toNat - '0'.toNat)
  else if 'a' ≤ c ∧ c ≤ 'f' then some (c.toNat - 'a'.toNat + 10)
  else if 'A' ≤ c ∧ c ≤ 'F' then some (c.toNat - 'A'.toNat + 10)
  else none

def isHexDigit (c : Char) : Bool := (digitValue c).isSome

def hexText (n : Nat) : List Char := if n = 0 then ['0'] else (Nat.digits 16 n).reverse.map Nat.digitChar

def hexValue (cs : List Char) : Nat := cs.foldl (fun n c => 16 * n + (digitValue c).getD 0) 0

def isSpace (c : Char) : Bool := c = ' ' || c = '\t' || c = '\n' || c = '\r'

def readHex (cs : List Char) : Option (Nat × List Char) :=
  let cs := cs.dropWhile isSpace
  let digits := cs.takeWhile isHexDigit
  if digits = [] then none else some (hexValue digits, cs.dropWhile isHexDigit)

def readChar (cs : List Char) : Option (Char × List Char) :=
  match cs.dropWhile isSpace with
  | [] => none
  | c :: cs => some (c, cs)

/-- The lines of a text, the last one with or without its line end. -/
def lines : List Char → List (List Char)
  | [] => []
  | c :: cs =>
      if c = '\n' then [] :: lines cs
      else match lines cs with
        | [] => [[c]]
        | l :: ls => (c :: l) :: ls

theorem digitValue_digitChar {d : Nat} (h : d < 16) : digitValue (Nat.digitChar d) = some d := by
  have hall : ∀ e < 16, digitValue (Nat.digitChar e) = some e := by decide
  exact hall d h

theorem isHexDigit_digitChar {d : Nat} (h : d < 16) : isHexDigit (Nat.digitChar d) = true := by
  rw [isHexDigit, digitValue_digitChar h]
  rfl

theorem hexText_ne_nil (n : Nat) : hexText n ≠ [] := by
  rw [hexText]
  split_ifs with h
  · simp
  · rw [Ne, List.map_eq_nil_iff, List.reverse_eq_nil_iff]
    exact Nat.digits_ne_nil_iff_ne_zero.mpr h

theorem isHexDigit_of_mem {n : Nat} {c : Char} (h : c ∈ hexText n) : isHexDigit c = true := by
  rw [hexText] at h
  split_ifs at h
  · rw [List.mem_singleton.mp h]
    decide
  · obtain ⟨d, hd, rfl⟩ := List.mem_map.mp h
    exact isHexDigit_digitChar (Nat.digits_lt_base (by decide) (List.mem_reverse.mp hd))

theorem not_space_of_isHexDigit {c : Char} (h : isHexDigit c = true) : isSpace c = false := by
  by_contra hc
  rw [Bool.not_eq_false] at hc
  simp only [isSpace, Bool.or_eq_true, decide_eq_true_eq] at hc
  rcases hc with ((rfl | rfl) | rfl) | rfl
  all_goals exact absurd h (by decide)

theorem hexValue_digits (l : List Nat) (hl : ∀ d ∈ l, d < 16) :
    hexValue (l.reverse.map Nat.digitChar) = Nat.ofDigits 16 l := by
  induction l with
  | nil => rfl
  | cons d l ih =>
      have hd := digitValue_digitChar (hl d List.mem_cons_self)
      have hrest := ih (fun e he => hl e (List.mem_cons_of_mem d he))
      rw [hexValue] at hrest ⊢
      rw [List.reverse_cons, List.map_append, List.foldl_append, hrest, Nat.ofDigits_cons]
      simp only [List.map_cons, List.map_nil, List.foldl_cons, List.foldl_nil, hd, Option.getD_some]
      exact Nat.add_comm _ _

theorem hexValue_hexText (n : Nat) : hexValue (hexText n) = n := by
  rw [hexText]
  split_ifs with h
  · rw [h]
    decide
  · rw [hexValue_digits _ (fun d hd => Nat.digits_lt_base (by decide) hd), Nat.ofDigits_digits]

theorem readHex_hexText (n : Nat) {rest : List Char} (h : ∀ c ∈ rest.head?, isHexDigit c = false) :
    readHex (hexText n ++ rest) = some (n, rest) := by
  have hspace : (hexText n ++ rest).dropWhile isSpace = hexText n ++ rest := by
    cases ht : hexText n with
    | nil => exact absurd ht (hexText_ne_nil n)
    | cons c cs =>
        have hc : isHexDigit c = true := isHexDigit_of_mem (n := n) (by rw [ht]; exact List.mem_cons_self)
        rw [List.cons_append, List.dropWhile_cons_of_neg (by rw [not_space_of_isHexDigit hc]; simp)]
  have hrest : rest.takeWhile isHexDigit = [] ∧ rest.dropWhile isHexDigit = rest := by
    cases rest with
    | nil => exact ⟨rfl, rfl⟩
    | cons c cs =>
        have hc := h c rfl
        exact ⟨List.takeWhile_cons_of_neg (by simp [hc]), List.dropWhile_cons_of_neg (by simp [hc])⟩
  have htake : (hexText n ++ rest).takeWhile isHexDigit = hexText n := by
    rw [List.takeWhile_append_of_pos (fun c hc => isHexDigit_of_mem hc), hrest.1, List.append_nil]
  have hdrop : (hexText n ++ rest).dropWhile isHexDigit = rest := by
    rw [List.dropWhile_append_of_pos (fun c hc => isHexDigit_of_mem hc), hrest.2]
  simp only [readHex, hspace, htake, hdrop, hexValue_hexText, if_neg (hexText_ne_nil n)]

theorem readChar_of_not_space {c : Char} (h : isSpace c = false) (cs : List Char) : readChar (c :: cs) = some (c, cs) := by
  rw [readChar, List.dropWhile_cons_of_neg (by simp [h])]

theorem lines_append {l : List Char} (h : '\n' ∉ l) (cs : List Char) : lines (l ++ '\n' :: cs) = l :: lines cs := by
  induction l with
  | nil => rfl
  | cons c l ih =>
      rw [List.mem_cons, not_or] at h
      rw [List.cons_append, lines, if_neg (Ne.symm h.1), ih h.2]

theorem newline_notMem_hexText (n : Nat) : '\n' ∉ hexText n := by
  intro h
  exact absurd (isHexDigit_of_mem h) (by decide)

end Thermometer.Lib.HexText
