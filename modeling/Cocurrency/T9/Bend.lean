/-
# Letter combinations in Bend (`bend-lang/t9_combinations.bend`)

Three functions over a list of `Digits`: recursion that builds the words from the right,
backtracking that builds them from the left, and nested continuations.  `+` on strings is read as
concatenation.

All three list the words over the letters of the digits (`combRec_eq`, `btAux_eq`,
`combinationsCps_eq`), except that `combinations_rec` lists nothing at all for no digits, where the
other two list the empty word.  So they agree with each other, and with Python's function, exactly
on the lists that are not empty (`combinations_agree_iff`).
-/
import Cocurrency.T9.Combinations

namespace T9.Bend

/-- `type Digits`. -/
inductive Digits where
  | D2 | D3 | D4 | D5 | D6 | D7 | D8 | D9
  deriving DecidableEq, Repr

open Digits

/-- `letters`. -/
def letters : Digits → List Str
  | D2 => [['a'], ['b'], ['c']]
  | D3 => [['d'], ['e'], ['f']]
  | D4 => [['g'], ['h'], ['i']]
  | D5 => [['j'], ['k'], ['l']]
  | D6 => [['m'], ['n'], ['o']]
  | D7 => [['p'], ['q'], ['r'], ['s']]
  | D8 => [['t'], ['u'], ['v']]
  | D9 => [['w'], ['x'], ['y'], ['z']]

/-- `append`. -/
def append : List Str → List Str → List Str
  | [], ys => ys
  | x :: xs, ys => x :: append xs ys

/-- `map_prepend`. -/
def mapPrepend (p : Str) : List Str → List Str
  | [] => []
  | x :: xs => (p ++ x) :: mapPrepend p xs

/-- `combine_many`. -/
def combineMany : List Str → List Str → List Str
  | [], _ => []
  | p :: prefixes, suffixes => append (mapPrepend p suffixes) (combineMany prefixes suffixes)

/-- `comb_rec`. -/
def combRec : List Digits → List Str
  | [] => [[]]
  | d :: ds => combineMany (letters d) (combRec ds)

/-- `combinations_rec`. -/
def combinationsRec : List Digits → List Str
  | [] => []
  | d :: ds => combineMany (letters d) (combRec ds)

mutual

/-- `bt_aux`. -/
def btAux : List Digits → Str → List Str
  | [], path => [path]
  | d :: ds, path => expandLetters (letters d) ds path
  termination_by ds => (ds.length, 0)

/-- `expand_letters`. -/
def expandLetters : List Str → List Digits → Str → List Str
  | [], _, _ => []
  | l :: ls, remaining, path =>
      let rest := btAux remaining (path ++ l)
      append rest (expandLetters ls remaining path)
  termination_by ls remaining => (remaining.length, ls.length + 1)

end

/-- `combinations_backtrack`. -/
def combinationsBacktrack (digits : List Digits) : List Str := btAux digits []

/-- `combine_cps`. -/
def combineCps {ρ : Type} : List Str → List Str → (List Str → ρ) → ρ
  | [], _, cont => cont []
  | p :: prefixes, suffixes, cont =>
      combineCps prefixes suffixes fun rest => cont (append (mapPrepend p suffixes) rest)

/-- `combinations_cps`. -/
def combinationsCps {ρ : Type} : List Digits → (List Str → ρ) → ρ
  | [], cont => cont [[]]
  | d :: ds, cont => combinationsCps ds fun suffixes => combineCps (letters d) suffixes cont

/-! ## What they list -/

/-- The character of a digit. -/
def digit : Digits → Char
  | D2 => '2'
  | D3 => '3'
  | D4 => '4'
  | D5 => '5'
  | D6 => '6'
  | D7 => '7'
  | D8 => '8'
  | D9 => '9'

/-- The two keypads agree. -/
theorem letters_eq (d : Digits) : letters d = (keyLetters (digit d)).map fun a => [a] := by
  cases d <;> rfl

/-- Every digit is a key. -/
theorem keyMap_digit (d : Digits) : keyMap (digit d) ≠ none := by
  cases d <;> exact Option.some_ne_none _

@[simp] theorem append_eq (xs ys : List Str) : append xs ys = xs ++ ys := by
  induction xs with
  | nil => rfl
  | cons x xs ih =>
      unfold append
      rw [ih]
      rfl

@[simp] theorem mapPrepend_eq (p : Str) (xs : List Str) : mapPrepend p xs = xs.map (p ++ ·) := by
  induction xs with
  | nil => rfl
  | cons x xs ih =>
      unfold mapPrepend
      rw [ih]
      rfl

/-- `combine_many` pairs each prefix with each suffix. -/
theorem combineMany_eq (prefixes suffixes : List Str) :
    combineMany prefixes suffixes = prefixes.flatMap fun p => suffixes.map (p ++ ·) := by
  induction prefixes with
  | nil => rfl
  | cons p prefixes ih =>
      unfold combineMany
      rw [append_eq, mapPrepend_eq, ih]
      rfl

/-- The words of the digits. -/
def wordsOf (ds : List Digits) : List Str := words (ds.map fun d => keyLetters (digit d))

theorem wordsOf_cons (d : Digits) (ds : List Digits) :
    wordsOf (d :: ds) = (letters d).flatMap fun p => (wordsOf ds).map (p ++ ·) := by
  rw [letters_eq, List.flatMap_map]
  rfl

/-- **From the right.** -/
theorem combRec_eq (ds : List Digits) : combRec ds = wordsOf ds := by
  induction ds with
  | nil => rfl
  | cons d ds ih =>
      unfold combRec
      rw [ih, combineMany_eq, wordsOf_cons]

/-- `expand_letters` once `bt_aux` is known on the remaining digits. -/
theorem expandLetters_eq {remaining : List Digits} {ws : List Str}
    (h : ∀ path, btAux remaining path = ws.map (path ++ ·)) (ls : List Str) (path : Str) :
    expandLetters ls remaining path =
      (ls.flatMap fun p => ws.map (p ++ ·)).map (path ++ ·) := by
  induction ls with
  | nil =>
      unfold expandLetters
      rfl
  | cons l ls ih =>
      unfold expandLetters
      rw [append_eq, h, ih, List.flatMap_cons, List.map_append, List.map_map]
      simp [Function.comp_def]

/-- **From the left.** -/
theorem btAux_eq (ds : List Digits) (path : Str) :
    btAux ds path = (wordsOf ds).map (path ++ ·) := by
  induction ds generalizing path with
  | nil =>
      unfold btAux
      simp [wordsOf]
  | cons d ds ih =>
      unfold btAux
      rw [expandLetters_eq ih, wordsOf_cons]

/-- `combine_cps` gives its continuation what `combine_many` returns. -/
theorem combineCps_eq {ρ : Type} (prefixes suffixes : List Str) (cont : List Str → ρ) :
    combineCps prefixes suffixes cont = cont (combineMany prefixes suffixes) := by
  induction prefixes generalizing cont with
  | nil => rfl
  | cons p prefixes ih =>
      unfold combineCps
      rw [ih]
      rfl

/-- **Through continuations.**  For every continuation, not only the identity. -/
theorem combinationsCps_eq {ρ : Type} (ds : List Digits) (cont : List Str → ρ) :
    combinationsCps ds cont = cont (wordsOf ds) := by
  induction ds generalizing cont with
  | nil => rfl
  | cons d ds ih =>
      unfold combinationsCps
      rw [ih, combineCps_eq, combineMany_eq, wordsOf_cons]

/-- With a digit to start from, `combinations_rec` is `comb_rec`. -/
theorem combinationsRec_of_ne_nil {ds : List Digits} (h : ds ≠ []) :
    combinationsRec ds = wordsOf ds := by
  obtain ⟨d, ds, rfl⟩ := List.exists_cons_of_ne_nil h
  exact combRec_eq (d :: ds)

/-- Python's function on the corresponding string. -/
theorem letterCombinationsRecursive_digits {ds : List Digits} (h : ds ≠ []) :
    letterCombinationsRecursive (ds.map digit) = .ok (wordsOf ds) := by
  obtain ⟨hrec, -⟩ := letterCombinations_eq (ds.map digit) (by simp [h])
  rw [hrec]
  unfold wordsOf
  rw [← Function.comp_def keyLetters digit, ← List.map_map]
  refine wordsOf_keys fun c hc => ?_
  obtain ⟨d, -, rfl⟩ := List.mem_map.mp hc
  exact keyMap_digit d

/-- What the three functions are expected to have in common with each other and with Python. -/
def Agree (ds : List Digits) : Prop :=
  combinationsRec ds = combinationsBacktrack ds ∧
    combinationsBacktrack ds = combinationsCps ds id ∧
    letterCombinationsRecursive (ds.map digit) = .ok (combinationsRec ds)

/-- **The three agree, with Python too, exactly on the lists that are not empty.** -/
theorem combinations_agree_iff (ds : List Digits) : Agree ds ↔ ds ≠ [] := by
  unfold Agree combinationsBacktrack
  rw [btAux_eq, combinationsCps_eq]
  constructor
  · rintro ⟨h, -⟩ rfl
    cases h
  · intro h
    rw [combinationsRec_of_ne_nil h, letterCombinationsRecursive_digits h]
    simp

/-- With no digits, `combinations_rec` lists nothing and `combinations_backtrack` one word. -/
theorem not_agree_nil : ¬Agree [] := by
  rintro ⟨h, -⟩
  unfold combinationsRec combinationsBacktrack btAux at h
  cases h

end T9.Bend
