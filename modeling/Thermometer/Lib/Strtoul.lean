import Thermometer.Lib.HexText

namespace Thermometer.Lib.Strtoul

open HexText

def isspace (c : Char) : Bool := c = ' ' || (9 ≤ c.toNat && c.toNat ≤ 13)

def sign : List Char → Bool × List Char
  | '+' :: cs => (false, cs)
  | '-' :: cs => (true, cs)
  | cs => (false, cs)

def skipPrefix : List Char → List Char
  | '0' :: x :: c :: cs => if (x = 'x' ∨ x = 'X') ∧ isHexDigit c = true then c :: cs else '0' :: x :: c :: cs
  | cs => cs

/-- `strtoul` to the base 16, with the rest of the text; `none` is that no number begins the text. A number that is
too large is the largest, whatever its sign. -/
def strtoul (cs : List Char) : Option (Nat × List Char) :=
  let (negative, cs) := sign (cs.dropWhile isspace)
  let cs := skipPrefix cs
  let digits := cs.takeWhile isHexDigit
  if digits = [] then none
  else
    let n := hexValue digits
    some (if 2 ^ 64 ≤ n then 2 ^ 64 - 1 else if negative then (2 ^ 64 - n) % 2 ^ 64 else n, cs.dropWhile isHexDigit)

variable {cs rest : List Char} {n : Nat}

theorem length_sign (cs : List Char) : (sign cs).2.length ≤ cs.length := by
  fun_cases sign cs with
  | case1 cs => exact Nat.le_succ _
  | case2 cs => exact Nat.le_succ _
  | case3 cs => exact le_rfl

theorem length_skipPrefix (cs : List Char) : (skipPrefix cs).length ≤ cs.length := by
  fun_cases skipPrefix cs with
  | case1 x c cs h => exact (Nat.le_succ _).trans (Nat.le_succ _)
  | case2 x c cs h => exact le_rfl
  | case3 cs => exact le_rfl

theorem length_of_strtoul (h : strtoul cs = some (n, rest)) : rest.length < cs.length := by
  have hspace : (cs.dropWhile isspace).length ≤ cs.length := (List.dropWhile_sublist _).length_le
  have hsign := length_sign (cs.dropWhile isspace)
  have hprefix := length_skipPrefix (sign (cs.dropWhile isspace)).2
  simp only [strtoul, Option.ite_none_left_eq_some] at h
  obtain ⟨hdigits, hrest⟩ := h
  have hsplit := congrArg List.length
    (List.takeWhile_append_dropWhile (p := isHexDigit) (l := skipPrefix (sign (cs.dropWhile isspace)).2))
  have hpos := List.length_pos_iff.mpr hdigits
  rw [List.length_append] at hsplit
  rw [← (Prod.mk.inj (Option.some.inj hrest)).2]
  omega

theorem lt_of_strtoul (h : strtoul cs = some (n, rest)) : n < 2 ^ 64 := by
  simp only [strtoul, Option.ite_none_left_eq_some] at h
  rw [← (Prod.mk.inj (Option.some.inj h.2)).1]
  split_ifs
  · decide
  · exact Nat.mod_lt _ (by decide)
  · omega

end Thermometer.Lib.Strtoul
