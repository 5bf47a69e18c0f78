import Mathlib.Data.List.Infix
import Mathlib.Data.List.TakeWhile

/-! Strings and files as the C library reads them.

A string is the list of its characters before the NUL, and a file the list of its characters.
Where a function of the library returns a place in a string, it returns here what stands from
there on. A string put together from tokens and delimiters comes apart again by `strtok`
(`strtok_token`), digits are read back by `atoi` (`atoi_digits`), and short lines by `fgets`
(`readLines_lines`). -/
namespace NetStack.CString

/-- The string in a buffer. -/
def ofBuffer (buf : List Char) : List Char := buf.takeWhile (· ≠ '\x00')

/-- `strstr`. -/
def strstr (haystack needle : List Char) : Option (List Char) := haystack.tails.find? fun rest => needle <+: rest

/-- `strtok`: the next token, and what is left to the call after. -/
def strtok (s delims : List Char) : Option (List Char × List Char) :=
  match s.dropWhile (· ∈ delims) with
  | [] => none
  | c :: t => some ((c :: t).takeWhile (· ∉ delims), ((c :: t).dropWhile (· ∉ delims)).drop 1)

/-- `isspace`. -/
def isSpace (c : Char) : Bool := c ∈ [' ', '\t', '\n', '\x0b', '\x0c', '\r']

/-- The number that digits stand for. -/
def decimal (digits : List Char) : Nat := digits.foldl (fun n c => 10 * n + (c.toNat - 48)) 0

/-- `atoi`, of a number that fits. -/
def atoi (s : List Char) : Int :=
  match s.dropWhile isSpace with
  | '-' :: t => -decimal (t.takeWhile Char.isDigit)
  | '+' :: t => decimal (t.takeWhile Char.isDigit)
  | t => decimal (t.takeWhile Char.isDigit)

/-- Up to `n` characters of a file, no further than the end of a line, and the rest. -/
def fgetsUpto : Nat → List Char → List Char × List Char
  | 0, file => ([], file)
  | _ + 1, [] => ([], [])
  | n + 1, c :: file =>
    if c = '\n' then ([c], file) else (c :: (fgetsUpto n file).1, (fgetsUpto n file).2)

/-- `fgets`, with a buffer of `size` characters. -/
def fgets (size : Nat) (file : List Char) : Option (List Char × List Char) :=
  if file = [] then none else some (fgetsUpto (size - 1) file)

theorem length_fgetsUpto (n : Nat) (file : List Char) : (fgetsUpto n file).2.length ≤ file.length := by
  induction n, file using fgetsUpto.induct with
  | case1 => rw [fgetsUpto]
  | case2 => rw [fgetsUpto]
  | case3 n file =>
    rw [fgetsUpto, if_pos rfl]
    exact Nat.le_succ _
  | case4 n c file hc ih =>
    rw [fgetsUpto, if_neg hc]
    exact Nat.le_succ_of_le ih

theorem length_fgets {size : Nat} {file line rest : List Char} (hsize : 1 < size)
    (h : fgets size file = some (line, rest)) : rest.length < file.length := by
  obtain ⟨n, rfl⟩ : ∃ n, size = n + 2 := ⟨size - 2, by omega⟩
  cases file with
  | nil => simp [fgets] at h
  | cons c file =>
    have hrest : (fgetsUpto (n + 1) (c :: file)).2 = rest := by
      rw [fgets, if_neg (List.cons_ne_nil c file)] at h
      exact congrArg Prod.snd (Option.some.inj h)
    have hle := length_fgetsUpto n file
    rw [← hrest, fgetsUpto, List.length_cons]
    split
    · exact Nat.lt_succ_self _
    · exact Nat.lt_succ_of_le hle

/-- What one call of `fgets` after the other reads of a file, until there is no more. -/
def readLines {size : Nat} (hsize : 1 < size) (file : List Char) : List (List Char) :=
  match _h : fgets size file with
  | none => []
  | some (line, rest) => line :: readLines hsize rest
termination_by file.length
decreasing_by exact length_fgets hsize _h

variable {s t token tail delims digits : List Char} {p : Char → Bool}

/-! ### Tokens -/

theorem takeWhile_stop (h : ∀ c ∈ t.head?, p c = false) : t.takeWhile p = [] := by
  cases t with
  | nil => rfl
  | cons c t => rw [List.takeWhile_cons, h c rfl, if_neg Bool.false_ne_true]

theorem dropWhile_stop (h : ∀ c ∈ t.head?, p c = false) : t.dropWhile p = t := by
  cases t with
  | nil => rfl
  | cons c t => rw [List.dropWhile_cons, h c rfl, if_neg Bool.false_ne_true]

theorem takeWhile_before (hs : ∀ c ∈ s, p c = true) (ht : ∀ c ∈ t.head?, p c = false) :
    (s ++ t).takeWhile p = s := by
  rw [List.takeWhile_append_of_pos hs, takeWhile_stop ht, List.append_nil]

theorem dropWhile_before (hs : ∀ c ∈ s, p c = true) (ht : ∀ c ∈ t.head?, p c = false) :
    (s ++ t).dropWhile p = t := by
  rw [List.dropWhile_append_of_pos hs, dropWhile_stop ht]

/-- A token between delimiters. -/
theorem strtok_token (hs : ∀ c ∈ s, c ∈ delims) (hne : token ≠ []) (htoken : ∀ c ∈ token, c ∉ delims)
    (htail : ∀ c ∈ tail.head?, c ∈ delims) :
    strtok (s ++ (token ++ tail)) delims = some (token, tail.drop 1) := by
  have hdrop : (s ++ (token ++ tail)).dropWhile (· ∈ delims) = token ++ tail := by
    refine dropWhile_before (fun c hc => decide_eq_true (hs c hc)) fun c hc => decide_eq_false ?_
    rw [List.head?_append_of_ne_nil _ hne] at hc
    exact htoken c (List.mem_of_mem_head? hc)
  have hin : ∀ c ∈ token, decide (c ∉ delims) = true := fun c hc => decide_eq_true (htoken c hc)
  have hout : ∀ c ∈ tail.head?, decide (c ∉ delims) = false :=
    fun c hc => decide_eq_false (not_not.mpr (htail c hc))
  have htake := takeWhile_before hin hout
  have hrest := dropWhile_before hin hout
  obtain ⟨c, token, rfl⟩ := List.exists_cons_of_ne_nil hne
  rw [List.cons_append] at hdrop htake hrest
  rw [strtok, List.cons_append, hdrop]
  show some ((c :: (token ++ tail)).takeWhile _, ((c :: (token ++ tail)).dropWhile _).drop 1) = _
  rw [htake, hrest]

/-! ### Numbers -/

/-- Digits are read up to what follows them. -/
theorem atoi_digits (hne : digits ≠ []) (hdigits : ∀ c ∈ digits, c.isDigit = true)
    (htail : ∀ c ∈ tail.head?, c.isDigit = false) : atoi (digits ++ tail) = decimal digits := by
  have htake : (digits ++ tail).takeWhile Char.isDigit = digits := takeWhile_before hdigits htail
  obtain ⟨c, digits, rfl⟩ := List.exists_cons_of_ne_nil hne
  have hc := hdigits c List.mem_cons_self
  have hspace : isSpace c = false := by
    refine decide_eq_false fun hmem => ?_
    simp only [List.mem_cons, List.not_mem_nil, or_false] at hmem
    rcases hmem with rfl | rfl | rfl | rfl | rfl | rfl <;> exact absurd hc (by decide)
  have hdrop : (c :: (digits ++ tail)).dropWhile isSpace = c :: (digits ++ tail) := by
    rw [List.dropWhile_cons, hspace, if_neg Bool.false_ne_true]
  rw [List.cons_append] at htake ⊢
  rw [atoi, hdrop]
  split
  · next heq =>
    cases heq
    exact absurd hc (by decide)
  · next heq =>
    cases heq
    exact absurd hc (by decide)
  · rw [htake]

/-! ### Searching -/

theorem strstr_isSome : (strstr s t).isSome = true ↔ t <:+: s := by
  rw [strstr, List.find?_isSome, List.infix_iff_prefix_suffix]
  constructor
  · intro h
    obtain ⟨u, hu, ht⟩ := h
    exact ⟨u, of_decide_eq_true ht, (List.mem_tails u s).mp hu⟩
  · intro h
    obtain ⟨u, ht, hu⟩ := h
    exact ⟨u, (List.mem_tails u s).mpr hu, decide_eq_true ht⟩

/-- What is found does not reach over a character that is not in it. -/
theorem infix_around {c : Char} (hne : t ≠ []) (hc : c ∉ t) :
    t <:+: s ++ c :: tail ↔ t <:+: s ∨ t <:+: tail := by
  rw [List.infix_append_iff, List.infix_cons_iff]
  have hhead : ∀ u, u ≠ [] → c ∉ u → ¬u <+: c :: tail := by
    intro u hu hcu hpre
    obtain ⟨d, u, rfl⟩ := List.exists_cons_of_ne_nil hu
    obtain ⟨rfl, -⟩ := List.cons_prefix_cons.mp hpre
    exact hcu List.mem_cons_self
  constructor
  · intro hyp
    rcases hyp with h | (h | h) | ⟨u, v, rfl, hu, hv⟩
    · exact .inl h
    · exact absurd h (hhead t hne hc)
    · exact .inr h
    · by_cases hempty : v = []
      · rw [hempty, List.append_nil]
        exact .inl hu.isInfix
      · exact absurd hv (hhead v hempty fun hmem => hc (List.mem_append_right u hmem))
  · intro hyp
    rcases hyp with h | h
    · exact .inl h
    · exact .inr (.inl (.inr h))

/-! ### Lines -/

/-- A line and more is read line by line. -/
theorem fgetsUpto_append {n : Nat} (hs : '\n' ∉ s) (hn : s.length ≤ n) :
    fgetsUpto n (s ++ t) = (s ++ (fgetsUpto (n - s.length) t).1, (fgetsUpto (n - s.length) t).2) := by
  induction s generalizing n with
  | nil => rfl
  | cons c s ih =>
    obtain ⟨hc, hs⟩ := not_or.mp (mt List.mem_cons.mpr hs)
    rw [List.length_cons] at hn
    obtain ⟨n, rfl⟩ : ∃ m, n = m + 1 := ⟨n - 1, by omega⟩
    rw [List.cons_append, fgetsUpto, if_neg (Ne.symm hc), ih hs (by omega), List.length_cons,
      Nat.add_sub_add_right, List.cons_append]

theorem readLines_cons {size : Nat} (hsize : 1 < size) (hs : '\n' ∉ s) (hlen : s.length + 1 < size)
    (t : List Char) : readLines hsize (s ++ '\n' :: t) = (s ++ ['\n']) :: readLines hsize t := by
  have hfgets : fgets size (s ++ '\n' :: t) = some (s ++ ['\n'], t) := by
    obtain ⟨n, hn⟩ : ∃ n, size - 1 - s.length = n + 1 := ⟨size - s.length - 2, by omega⟩
    rw [fgets, if_neg (by simp), fgetsUpto_append hs (by omega), hn, fgetsUpto, if_pos rfl]
  rw [readLines]
  split
  · next heq => rw [heq] at hfgets; cases hfgets
  · next line rest heq =>
    rw [heq] at hfgets
    cases hfgets
    rfl

theorem readLines_nil {size : Nat} (hsize : 1 < size) : readLines hsize [] = [] := by
  rw [readLines]
  split
  · rfl
  · next heq => exact absurd heq (by simp [fgets])

theorem readLines_last {size : Nat} (hsize : 1 < size) (hs : '\n' ∉ s) (hlen : s.length < size) :
    readLines hsize s = if s = [] then [] else [s] := by
  split
  · next hempty => rw [hempty, readLines_nil]
  · next hne =>
    have hfgets : fgets size s = some (s, []) := by
      have happend : fgetsUpto (size - 1) (s ++ []) = _ := fgetsUpto_append hs (by omega)
      rw [List.append_nil] at happend
      rw [fgets, if_neg hne, happend]
      cases size - 1 - s.length with
      | zero => rw [fgetsUpto, List.append_nil]
      | succ => rw [fgetsUpto, List.append_nil]
    rw [readLines]
    split
    · next heq => rw [heq] at hfgets; cases hfgets
    · next line rest heq =>
      rw [heq] at hfgets
      cases hfgets
      rw [readLines_nil]

/-- Lines, the last of them perhaps without an end, are read back. -/
theorem readLines_lines {size : Nat} (hsize : 1 < size) {lines : List (List Char)}
    (hlines : ∀ line ∈ lines, '\n' ∉ line ∧ line.length + 1 < size) (hs : '\n' ∉ s) (hlen : s.length < size) :
    readLines hsize (lines.flatMap (· ++ ['\n']) ++ s) =
      lines.map (· ++ ['\n']) ++ if s = [] then [] else [s] := by
  induction lines with
  | nil => exact readLines_last hsize hs hlen
  | cons line lines ih =>
    obtain ⟨⟨hline, hfit⟩, hlines⟩ := List.forall_mem_cons.mp hlines
    rw [List.flatMap_cons, List.append_assoc, List.append_assoc, List.singleton_append,
      readLines_cons hsize hline hfit, ih hlines, List.map_cons, List.cons_append]

end NetStack.CString
