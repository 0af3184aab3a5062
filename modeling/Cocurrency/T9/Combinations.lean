/-
# Letter combinations of a phone number (`python/t9_combinations.py`)

Five functions that list the words a digit string can stand for: by recursion over a growing
prefix, by backtracking over one mutable path, by nested generators, by continuations that extend
lists, and by a chain of closures built from the right end.

What they list are the words over the letters of the digits (`wordsOf`): each of the five is
reduced to it (`combine_eq`, `backtrack_eq`, `toList_gen`, `cps_eq`, `chain_eq`), and so they agree
on every string, on the error that they raise too (`letterCombinations_agree`).  Over digits of the
keypad the list is the sorted product of the letter sets (`letterCombinationsRecursive_sorted`).
-/
import Mathlib.Data.List.Basic
import Mathlib.Tactic.SplitIfs
import Cocurrency.Lib.Words

namespace T9

/-- A string: its characters. -/
abbrev Str := List Char

/-- What the functions raise. -/
inductive Error where
  | keyError (key : Char)
  | indexError
  deriving DecidableEq, Repr

/-! ## The keypad -/

/-- `KEY_MAP`. -/
def keyMap : Char → Option Str
  | '2' => some ['a', 'b', 'c']
  | '3' => some ['d', 'e', 'f']
  | '4' => some ['g', 'h', 'i']
  | '5' => some ['j', 'k', 'l']
  | '6' => some ['m', 'n', 'o']
  | '7' => some ['p', 'q', 'r', 's']
  | '8' => some ['t', 'u', 'v']
  | '9' => some ['w', 'x', 'y', 'z']
  | _ => none

/-- `KEY_MAP[d]`. -/
def lookup (d : Char) : Except Error Str :=
  match keyMap d with
  | some letters => .ok letters
  | none => .error (.keyError d)

/-! ## The five functions -/

/-- `_combine`. -/
def combine : Str → Str → Except Error (List Str)
  | pre, [] => .ok [pre]
  | pre, d :: remaining => do
      let letters ← lookup d
      letters.foldlM (fun results letter => do
        let more ← combine (pre ++ [letter]) remaining
        return results ++ more) []

/-- `letter_combinations_recursive`. -/
def letterCombinationsRecursive (digits : Str) : Except Error (List Str) :=
  if digits = [] then .ok [] else combine [] digits

/-- The variables that `backtrack` changes. -/
structure Search where
  path : Str
  results : List Str

/-- `backtrack`. -/
def backtrack (digits : Str) (idx : ℕ) (s : Search) : Except Error Search :=
  if idx = digits.length then .ok { s with results := s.results ++ [s.path] }
  else
    match hd : digits[idx]? with
    | none => .error .indexError
    | some d => do
        let letters ← lookup d
        letters.foldlM (fun s letter => do
          let s ← backtrack digits (idx + 1) { s with path := s.path ++ [letter] }
          return { s with path := s.path.dropLast }) s
  termination_by digits.length - idx
  decreasing_by
    have hlt := (List.getElem?_eq_some_iff.mp hd).1
    omega

/-- `letter_combinations_backtrack`. -/
def letterCombinationsBacktrack (digits : Str) : Except Error (List Str) :=
  if digits = [] then .ok []
  else do
    let s ← backtrack digits 0 ⟨[], []⟩
    return s.results

/-- A generator that is being run: it returns, raises an error, or yields and goes on. -/
inductive Gen (α : Type) where
  | returns
  | raises (e : Error)
  | yields (value : α) (next : Gen α)

namespace Gen

variable {α : Type}

/-- `yield from g`, and then `next`. -/
def yieldFrom : Gen α → Gen α → Gen α
  | returns, next => next
  | raises e, _ => raises e
  | yields value g, next => yields value (g.yieldFrom next)

/-- `list(g)`. -/
def toList : Gen α → Except Error (List α)
  | returns => .ok []
  | raises e => .error e
  | yields value g => do
      let values ← g.toList
      return value :: values

end Gen

/-- `_gen`. -/
def gen : Str → Str → Gen Str
  | pre, [] => .yields pre .returns
  | pre, d :: remaining =>
      match lookup d with
      | .error e => .raises e
      | .ok letters =>
          letters.foldr (fun letter next => (gen (pre ++ [letter]) remaining).yieldFrom next)
            .returns

/-- `letter_combinations_generator`. -/
def letterCombinationsGenerator (digits : Str) : Except Error (List Str) :=
  if digits = [] then .ok [] else (gen [] digits).toList

/-- The lists that have been made, in the order in which they have been made. -/
abbrev Heap := List (List Str)

/-- `lambda combs: xs.extend(combs)`, with the place of `xs` in the heap. -/
def extend (xs : ℕ) (combs : List Str) (heap : Heap) : Except Error Heap :=
  .ok (heap.modify xs (· ++ combs))

/-- `cps`.  Its local function `inner` is never called. -/
def cps : Str → Str → (List Str → Heap → Except Error Heap) → Heap → Except Error Heap
  | pre, [], cont, heap => cont [pre] heap
  | pre, d :: remaining, cont, heap => do
      let allResults := heap.length
      let letters ← lookup d
      let heap ← letters.foldlM
        (fun heap letter => cps (pre ++ [letter]) remaining (extend allResults) heap) (heap ++ [[]])
      cont (heap.getD allResults []) heap

/-- `letter_combinations_cps`. -/
def letterCombinationsCps (digits : Str) : Except Error (List Str) :=
  if digits = [] then .ok []
  else do
    let heap ← cps [] digits (extend 0) [[]]
    return heap.getD 0 []

/-- A continuation of the chain: what it does to `results`. -/
abbrev Cont := Str → List Str → Except Error (List Str)

/-- `final_cont`. -/
def finalCont : Cont := fun combination results => .ok (results ++ [combination])

/-- `level_cont` of `make_level`. -/
def makeLevel (d : Char) (nextCont : Cont) : Cont := fun pre results => do
  let letters ← lookup d
  letters.foldlM (fun results letter => nextCont (pre ++ [letter]) results) results

/-- The chain of continuations. -/
def chain (digits : Str) : Cont := digits.reverse.foldl (fun cont d => makeLevel d cont) finalCont

/-- `letter_combinations_cps_chain`. -/
def letterCombinationsCpsChain (digits : Str) : Except Error (List Str) :=
  if digits = [] then .ok [] else chain digits [] []

/-! ## The words over the letters of the digits -/

/-- The letters of each of the digits. -/
def letterSets (digits : Str) : Except Error (List Str) := digits.mapM lookup

/-- What the five functions list. -/
def wordsOf (digits : Str) : Except Error (List Str) := (letterSets digits).map words

@[simp] theorem wordsOf_nil : wordsOf [] = .ok [[]] := rfl

/-- The first digit is looked up first. -/
theorem wordsOf_cons (d : Char) (ds : Str) :
    wordsOf (d :: ds) = do
      let letters ← lookup d
      let ws ← wordsOf ds
      return letters.flatMap fun letter => ws.map (letter :: ·) := by
  unfold wordsOf letterSets
  rw [List.mapM_cons]
  cases lookup d with
  | error e => rfl
  | ok letters => cases List.mapM lookup ds <;> rfl

/-- A digit has letters or is not a key. -/
theorem lookup_cases (d : Char) :
    (∃ letters, lookup d = .ok letters ∧ letters ≠ []) ∨ lookup d = .error (.keyError d) := by
  unfold lookup keyMap
  split
  · rename_i letters hk
    left
    refine ⟨letters, rfl, ?_⟩
    split at hk <;> cases hk <;> simp
  · right
    rfl

/-- **The loop over the letters of a digit.**  If its body does for each letter what the words
over the remaining digits say, or raises what they raise, the loop does so too. -/
theorem lookup_loop {σ : Type} {ds : Str} {f : σ → Char → Except Error σ}
    (g : List Str → σ → Char → σ) (h : ∀ s a, f s a = (wordsOf ds).map fun ws => g ws s a)
    (d : Char) (s : σ) :
    (do let letters ← lookup d; letters.foldlM f s) =
      (do let letters ← lookup d; let ws ← wordsOf ds; return letters.foldl (g ws) s) := by
  obtain ⟨letters, hd, hne⟩ | hd := lookup_cases d
  · rw [hd]
    cases hw : wordsOf ds with
    | error e =>
        refine foldlM_error hne (fun s a => ?_) s
        rw [h, hw]
        rfl
    | ok ws =>
        refine foldlM_ok (fun s a => ?_) letters s
        rw [h, hw]
        rfl
  · rw [hd]
    rfl

/-- **Recursion.**  The words are those of the remaining digits, after the prefix. -/
theorem combine_eq (ds pre : Str) :
    combine pre ds = (wordsOf ds).map fun ws => ws.map (pre ++ ·) := by
  induction ds generalizing pre with
  | nil => simp [combine, Except.map]
  | cons d ds ih =>
      have hbody : ∀ (results : List Str) (letter : Char),
          (do let more ← combine (pre ++ [letter]) ds; return results ++ more) =
            (wordsOf ds).map fun ws => results ++ ws.map (pre ++ [letter] ++ ·) := by
        intro results letter
        rw [ih]
        cases wordsOf ds <;> rfl
      unfold combine
      rw [lookup_loop _ hbody, wordsOf_cons]
      simp only [foldl_append_words]
      cases lookup d <;> cases wordsOf ds <;> rfl

/-- **Backtracking.**  A call adds the words that begin with the path, and leaves the path as it
was. -/
theorem backtrack_eq (digits : Str) (idx : ℕ) (hidx : idx ≤ digits.length) (s : Search) :
    backtrack digits idx s =
      (wordsOf (digits.drop idx)).map fun ws =>
        { s with results := s.results ++ ws.map (s.path ++ ·) } := by
  induction hn : digits.length - idx generalizing idx s with
  | zero =>
      have hend : idx = digits.length := by omega
      unfold backtrack
      rw [if_pos hend, hend, List.drop_length]
      simp [Except.map]
  | succ n ih =>
      have hlt : idx < digits.length := by omega
      have hbody : ∀ (s : Search) (letter : Char),
          (do
            let s' ← backtrack digits (idx + 1) { s with path := s.path ++ [letter] }
            return ({ s' with path := s'.path.dropLast } : Search)) =
          (wordsOf (digits.drop (idx + 1))).map fun ws =>
            { s with results := s.results ++ ws.map (s.path ++ [letter] ++ ·) } := by
        intro s letter
        rw [ih (idx + 1) hlt _ (by omega)]
        cases wordsOf (digits.drop (idx + 1)) with
        | error e => rfl
        | ok ws => simp [Except.map, bind, Except.bind, pure, Except.pure]
      have hfold : ∀ (ws : List Str) (letters : Str),
          letters.foldl (fun (s : Search) letter =>
            { s with results := s.results ++ ws.map (s.path ++ [letter] ++ ·) }) s =
          { s with results := s.results ++
              (letters.flatMap fun a => ws.map (a :: ·)).map (s.path ++ ·) } := by
        intro ws letters
        rw [← foldl_append_words]
        induction letters generalizing s with
        | nil => rfl
        | cons a letters ih => exact ih _
      unfold backtrack
      rw [if_neg (by omega), List.drop_eq_getElem_cons hlt, wordsOf_cons]
      split
      · rename_i hnone
        rw [List.getElem?_eq_none_iff] at hnone
        omega
      · rename_i d hd
        obtain ⟨-, rfl⟩ := List.getElem?_eq_some_iff.mp hd
        rw [lookup_loop _ hbody]
        simp only [hfold]
        cases lookup digits[idx] <;> cases wordsOf (digits.drop (idx + 1)) <;> rfl

/-- `yield from` collects what the first generator yields before what follows. -/
theorem toList_yieldFrom {α : Type} (g next : Gen α) :
    (g.yieldFrom next).toList =
      (do let values ← g.toList; let more ← next.toList; return values ++ more) := by
  induction g with
  | returns =>
      simp only [Gen.yieldFrom, Gen.toList]
      cases next.toList <;> rfl
  | raises e => rfl
  | yields value g ih =>
      simp only [Gen.yieldFrom, Gen.toList]
      rw [ih]
      cases g.toList <;> cases next.toList <;> rfl

/-- A loop of `yield from` collects what its generators yield, in order. -/
theorem toList_foldr_yieldFrom {α : Type} (f : Char → Gen α) (letters : Str) (start : List α) :
    (do
      let values ← (letters.foldr (fun letter next => (f letter).yieldFrom next) .returns).toList
      return start ++ values) =
    letters.foldlM (fun results letter => do
      let values ← (f letter).toList
      return results ++ values) start := by
  induction letters generalizing start with
  | nil => exact congrArg Except.ok (List.append_nil start)
  | cons letter letters ih =>
      rw [List.foldr_cons, List.foldlM_cons, toList_yieldFrom]
      cases (f letter).toList with
      | error e => rfl
      | ok values =>
          refine Eq.trans ?_ (ih (start ++ values))
          cases (letters.foldr (fun letter next => (f letter).yieldFrom next) .returns).toList with
          | error e => rfl
          | ok more => exact congrArg Except.ok (List.append_assoc start values more).symm

/-- **Generators.**  A generator yields the words of the remaining digits, after the prefix. -/
theorem toList_gen (ds pre : Str) :
    (gen pre ds).toList = (wordsOf ds).map fun ws => ws.map (pre ++ ·) := by
  induction ds generalizing pre with
  | nil => simp [gen, Gen.toList, Except.map, bind, Except.bind, pure, Except.pure]
  | cons d ds ih =>
      have hbody : ∀ (results : List Str) (letter : Char),
          (do let values ← (gen (pre ++ [letter]) ds).toList; return results ++ values) =
            (wordsOf ds).map fun ws => results ++ ws.map (pre ++ [letter] ++ ·) := by
        intro results letter
        rw [ih]
        cases wordsOf ds <;> rfl
      have hloop := lookup_loop _ hbody d []
      rw [wordsOf_cons]
      unfold gen
      cases hd : lookup d with
      | error e => rfl
      | ok letters =>
          rw [hd] at hloop
          have hfold := toList_foldr_yieldFrom (fun letter => gen (pre ++ [letter]) ds) letters []
          simp only [List.nil_append] at hfold
          refine (bind_pure _).symm.trans (hfold.trans (hloop.trans ?_))
          simp only [foldl_append_words]
          cases wordsOf ds <;> rfl

/-- `extend` on the list after the first ones. -/
theorem modify_length (heap junk : Heap) (found : List Str) (f : List Str → List Str) :
    (heap ++ found :: junk).modify heap.length f = heap ++ f found :: junk := by
  induction heap with
  | nil => rfl
  | cons xs heap ih => simp [ih]

/-- The loop of `cps` over the letters: the list of this level, which stands after `heap`, is
extended by the words of each letter. -/
theorem cps_loop {ds pre : Str} {ws : List Str} {junk : Char → Heap} (heap : Heap)
    (h : ∀ letter cont heap, cps (pre ++ [letter]) ds cont heap =
      cont (ws.map (pre ++ [letter] ++ ·)) (heap ++ junk letter))
    (letters : Str) (found : List Str) (made : Heap) :
    letters.foldlM (fun heap' letter => cps (pre ++ [letter]) ds (extend heap.length) heap')
        (heap ++ found :: made) =
      .ok (heap ++
        letters.foldl (fun found a => found ++ ws.map (pre ++ [a] ++ ·)) found ::
          (made ++ letters.flatMap junk)) := by
  induction letters generalizing found made with
  | nil =>
      rw [List.flatMap_nil, List.append_nil]
      rfl
  | cons letter letters ih =>
      rw [List.foldlM_cons, h]
      unfold extend
      rw [List.append_assoc, List.cons_append, modify_length]
      refine (ih _ _).trans ?_
      rw [List.flatMap_cons, List.append_assoc]
      rfl

/-- **Continuations that extend lists.**  A call gives its continuation the words of the remaining
digits, after the prefix; the lists that it has made on the way stand at the end of the heap. -/
theorem cps_eq (ds pre : Str) :
    ∃ junk, ∀ cont heap, cps pre ds cont heap =
      (do let ws ← wordsOf ds; cont (ws.map (pre ++ ·)) (heap ++ junk)) := by
  induction ds generalizing pre with
  | nil => exact ⟨[], by simp [cps, bind, Except.bind]⟩
  | cons d ds ih =>
      choose junk hjunk using ih
      rw [wordsOf_cons]
      obtain ⟨letters, hd, hne⟩ | hd := lookup_cases d
      · cases hw : wordsOf ds with
        | error e =>
            refine ⟨[], fun cont heap => ?_⟩
            have hloop : letters.foldlM (fun heap' letter =>
                cps (pre ++ [letter]) ds (extend heap.length) heap') (heap ++ [[]]) = .error e := by
              refine foldlM_error hne (fun heap' letter => ?_) _
              rw [hjunk, hw]
              rfl
            unfold cps
            rw [hd]
            simp only [bind, Except.bind] at hloop ⊢
            rw [hloop]
        | ok ws =>
            refine ⟨(letters.flatMap fun a => ws.map (a :: ·)).map (pre ++ ·) ::
              letters.flatMap (fun letter => junk (pre ++ [letter])), fun cont heap => ?_⟩
            have hbody : ∀ letter cont heap, cps (pre ++ [letter]) ds cont heap =
                cont (ws.map (pre ++ [letter] ++ ·)) (heap ++ junk (pre ++ [letter])) := by
              intro letter cont heap
              rw [hjunk, hw]
              rfl
            have hloop := cps_loop heap hbody letters [] []
            rw [foldl_append_words] at hloop
            unfold cps
            rw [hd]
            simp only [bind, Except.bind] at hloop ⊢
            rw [hloop]
            simp [pure, Except.pure]
      · refine ⟨[], fun cont heap => ?_⟩
        unfold cps
        rw [hd]
        rfl

/-- **A chain of closures.**  The chain adds the words of the digits, after the prefix. -/
theorem chain_eq (ds pre : Str) (results : List Str) :
    chain ds pre results = (wordsOf ds).map fun ws => results ++ ws.map (pre ++ ·) := by
  induction ds generalizing pre results with
  | nil => simp [chain, finalCont, Except.map]
  | cons d ds ih =>
      have hchain : chain (d :: ds) = makeLevel d (chain ds) := by
        unfold chain
        rw [List.reverse_cons, List.foldl_append]
        rfl
      rw [hchain, wordsOf_cons]
      unfold makeLevel
      rw [lookup_loop _ fun results letter => ih (pre ++ [letter]) results]
      simp only [foldl_append_words]
      cases lookup d <;> cases wordsOf ds <;> rfl

/-! ## The five agree -/

/-- The keys are the digits from 2 to 9. -/
theorem keyMap_eq_none_iff (d : Char) : keyMap d = none ↔ ¬('2' ≤ d ∧ d ≤ '9') := by
  constructor
  · intro h hd
    have hcode : d.toNat = 50 ∨ d.toNat = 51 ∨ d.toNat = 52 ∨ d.toNat = 53 ∨ d.toNat = 54 ∨
        d.toNat = 55 ∨ d.toNat = 56 ∨ d.toNat = 57 := by
      have h2 : '2'.toNat ≤ d.toNat := hd.1
      have h9 : d.toNat ≤ '9'.toNat := hd.2
      simp only [Char.reduceToNat] at h2 h9
      omega
    rw [← Char.ofNat_toNat d] at h
    rcases hcode with hc | hc | hc | hc | hc | hc | hc | hc <;> rw [hc] at h <;> cases h
  · intro h
    unfold keyMap
    split
    case h_9 => rfl
    all_goals exact absurd (by decide) h

/-- The words of some digits raise the first digit that is not a key. -/
theorem wordsOf_cases (ds : Str) :
    (∃ ws, wordsOf ds = .ok ws ∧ ∀ d ∈ ds, keyMap d ≠ none) ∨
      ∃ d ∈ ds, keyMap d = none ∧ wordsOf ds = .error (.keyError d) := by
  induction ds with
  | nil => exact .inl ⟨_, rfl, List.forall_mem_nil _⟩
  | cons d ds ih =>
      rw [wordsOf_cons]
      unfold lookup
      cases hd : keyMap d with
      | none => exact .inr ⟨d, List.mem_cons_self, hd, rfl⟩
      | some letters =>
          obtain ⟨ws, hws, hkeys⟩ | ⟨e, he, hkey, hws⟩ := ih
          · left
            rw [hws]
            refine ⟨_, rfl, List.forall_mem_cons.mpr ⟨?_, hkeys⟩⟩
            simp [hd]
          · right
            rw [hws]
            exact ⟨e, List.mem_cons_of_mem _ he, hkey, rfl⟩

/-- The five functions as the words of the digits. -/
theorem letterCombinations_eq (digits : Str) (h : digits ≠ []) :
    letterCombinationsRecursive digits = wordsOf digits ∧
      letterCombinationsBacktrack digits = wordsOf digits ∧
      letterCombinationsGenerator digits = wordsOf digits ∧
      letterCombinationsCps digits = wordsOf digits ∧
      letterCombinationsCpsChain digits = wordsOf digits := by
  unfold letterCombinationsRecursive letterCombinationsBacktrack letterCombinationsGenerator
    letterCombinationsCps letterCombinationsCpsChain
  rw [if_neg h, if_neg h, if_neg h, if_neg h, if_neg h]
  obtain ⟨junk, hjunk⟩ := cps_eq digits []
  rw [combine_eq, backtrack_eq _ _ (Nat.zero_le _), toList_gen, hjunk, chain_eq, List.drop_zero]
  cases wordsOf digits with
  | error e => exact ⟨rfl, rfl, rfl, rfl, rfl⟩
  | ok ws => simp [Except.map, bind, Except.bind, pure, Except.pure, extend]

/-- **The five algorithms agree**: they return the same list or raise the same `KeyError`, and they
raise if and only if there is a digit outside 2 to 9. -/
theorem letterCombinations_agree (digits : Str) :
    (letterCombinationsBacktrack digits = letterCombinationsRecursive digits ∧
      letterCombinationsGenerator digits = letterCombinationsRecursive digits ∧
      letterCombinationsCps digits = letterCombinationsRecursive digits ∧
      letterCombinationsCpsChain digits = letterCombinationsRecursive digits) ∧
    ((∃ out, letterCombinationsRecursive digits = .ok out) ∨
      ∃ d, letterCombinationsRecursive digits = .error (.keyError d)) ∧
    ((∃ e, letterCombinationsRecursive digits = .error e) ↔
      digits ≠ [] ∧ ∃ d ∈ digits, ¬('2' ≤ d ∧ d ≤ '9')) := by
  by_cases h : digits = []
  · subst h
    refine ⟨⟨rfl, rfl, rfl, rfl⟩, .inl ⟨[], rfl⟩, ?_⟩
    constructor
    · rintro ⟨e, he⟩
      cases he
    · rintro ⟨hne, -⟩
      exact absurd rfl hne
  · obtain ⟨hrec, hback, hgen, hcps, hchain⟩ := letterCombinations_eq digits h
    rw [hrec, hback, hgen, hcps, hchain]
    refine ⟨⟨rfl, rfl, rfl, rfl⟩, ?_⟩
    obtain ⟨ws, hws, hkeys⟩ | ⟨d, hd, hkey, hws⟩ := wordsOf_cases digits
    · rw [hws]
      refine ⟨.inl ⟨ws, rfl⟩, ?_⟩
      constructor
      · rintro ⟨e, he⟩
        cases he
      · rintro ⟨-, d, hd, hout⟩
        exact absurd ((keyMap_eq_none_iff d).mpr hout) (hkeys d hd)
    · rw [hws]
      refine ⟨.inr ⟨d, rfl⟩, ?_⟩
      constructor
      · intro _
        exact ⟨h, d, hd, (keyMap_eq_none_iff d).mp hkey⟩
      · intro _
        exact ⟨_, rfl⟩

/-! ## The sorted product -/

/-- The letters of a key. -/
def keyLetters (d : Char) : Str := (keyMap d).getD []

/-- The letters of a key are in increasing order. -/
theorem pairwise_keyLetters (d : Char) : (keyLetters d).Pairwise (· < ·) := by
  unfold keyLetters keyMap
  split <;> simp

/-- Over keys, the words are the product of the letter sets. -/
theorem wordsOf_keys {ds : Str} (h : ∀ d ∈ ds, keyMap d ≠ none) :
    wordsOf ds = .ok (words (ds.map keyLetters)) := by
  induction ds with
  | nil => rfl
  | cons d ds ih =>
      obtain ⟨hd, hds⟩ := List.forall_mem_cons.mp h
      obtain ⟨letters, hl⟩ := Option.ne_none_iff_exists'.mp hd
      rw [wordsOf_cons, ih hds, List.map_cons, words_cons]
      unfold lookup keyLetters
      rw [hl]
      rfl

/-- **The output is the sorted product.**  It is strictly increasing in lexicographic order, it has
exactly the words that take each letter from the key of its digit, and as many as the product of
the sizes of the keys. -/
theorem letterCombinationsRecursive_sorted (digits : Str) (hne : digits ≠ [])
    (hkeys : ∀ d ∈ digits, '2' ≤ d ∧ d ≤ '9') :
    ∃ out, letterCombinationsRecursive digits = .ok out ∧
      out.Pairwise (· < ·) ∧
      (∀ w : Str, w ∈ out ↔ w.length = digits.length ∧
        ∀ i (hw : i < w.length) (hd : i < digits.length), w[i] ∈ keyLetters digits[i]) ∧
      out.length = (digits.map fun d => (keyLetters d).length).prod := by
  have hwords : wordsOf digits = .ok (words (digits.map keyLetters)) := by
    refine wordsOf_keys fun d hd hnone => ?_
    exact (keyMap_eq_none_iff d).mp hnone (hkeys d hd)
  obtain ⟨hrec, -⟩ := letterCombinations_eq digits hne
  refine ⟨_, hrec.trans hwords, ?_, fun w => ?_, ?_⟩
  · refine pairwise_words fun l hl => ?_
    obtain ⟨d, -, rfl⟩ := List.mem_map.mp hl
    exact pairwise_keyLetters d
  · rw [mem_words, List.forall₂_iff_get]
    simp
  · rw [length_words, List.map_map]
    rfl

/-- On two digits. -/
theorem letterCombinationsRecursive_sorted_23 :
    ∃ out, letterCombinationsRecursive ['2', '3'] = .ok out ∧ out.Pairwise (· < ·) ∧
      out.length = 9 := by
  obtain ⟨out, hout, hlt, -, hlen⟩ :=
    letterCombinationsRecursive_sorted ['2', '3'] (by decide) (by simp)
  exact ⟨out, hout, hlt, hlen⟩

end T9
