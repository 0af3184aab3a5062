/-
# Tower of Hanoi (`haskell/continuation_cps/ContMonadHanoi.hs`)

The list of moves in direct style, in the `Cont` monad (Mathlib's) and with explicit continuations,
and the puzzle itself: pegs with disks, and moves that may be refused.

* `hanoiCont_eq`, `hanoiExplicitCPS_eq` : every continuation is given the list of moves of
  `hanoiDirect`;
* `play_hanoiDirect` : no move of it is refused, whatever else stands on the pegs, and it carries
  the tower over;
* `hanoi_correct` : all of this for the top disks of a legal configuration.
-/
import Mathlib.Control.Monad.Cont
import Mathlib.Algebra.Ring.Nat
import Mathlib.Order.Lattice

namespace Cps

/-- A move: from which peg, and to which. -/
abbrev Move := Char × Char

/-- `hanoiDirect`. -/
def hanoiDirect : ℕ → Char → Char → Char → List Move
  | 0, _, _, _ => []
  | n + 1, src, dst, aux =>
      hanoiDirect n src aux dst ++ [(src, dst)] ++ hanoiDirect n aux dst src

/-- `hanoiCont`. -/
def hanoiCont {ρ : Type} : ℕ → Char → Char → Char → Cont ρ (List Move)
  | 0, _, _, _ => return []
  | n + 1, src, dst, aux => do
      let left ← hanoiCont n src aux dst
      let mid := [(src, dst)]
      let right ← hanoiCont n aux dst src
      return left ++ mid ++ right

/-- `hanoiExplicitCPS`. -/
def hanoiExplicitCPS {ρ : Type} : ℕ → Char → Char → Char → (List Move → ρ) → ρ
  | 0, _, _, _, k => k []
  | n + 1, src, dst, aux, k =>
      hanoiExplicitCPS n src aux dst fun left =>
        let mid := [(src, dst)]
        hanoiExplicitCPS n aux dst src fun right => k (left ++ mid ++ right)

/-! ## Continuations -/

/-- The `Cont` monad gives its continuation the list of moves. -/
theorem hanoiCont_eq {ρ : Type} (n : ℕ) (src dst aux : Char) (k : List Move → ρ) :
    ContT.run (hanoiCont n src dst aux) k = k (hanoiDirect n src dst aux) := by
  induction n generalizing src dst aux k with
  | zero => rfl
  | succ n ih =>
      unfold hanoiCont hanoiDirect
      rw [ContT.run_bind, ih, ContT.run_bind, ih]
      rfl

/-- So does the explicit version. -/
theorem hanoiExplicitCPS_eq {ρ : Type} (n : ℕ) (src dst aux : Char) (k : List Move → ρ) :
    hanoiExplicitCPS n src dst aux k = k (hanoiDirect n src dst aux) := by
  induction n generalizing src dst aux k with
  | zero => rfl
  | succ n ih =>
      unfold hanoiExplicitCPS hanoiDirect
      rw [ih, ih]

theorem length_hanoiDirect (n : ℕ) (src dst aux : Char) :
    (hanoiDirect n src dst aux).length = 2 ^ n - 1 := by
  induction n generalizing src dst aux with
  | zero => rfl
  | succ n ih =>
      unfold hanoiDirect
      have hpos : 0 < 2 ^ n := Nat.two_pow_pos n
      rw [List.length_append, List.length_append, ih, ih, List.length_singleton, pow_succ]
      omega

/-! ## The puzzle -/

variable {δ : Type*}

/-- What stands on the pegs, from top to bottom. -/
abbrev Pegs (δ : Type*) := Char → List δ

/-- The configuration after a tower has been carried from one peg to another. -/
def carried (pegs : Pegs δ) (src dst : Char) (tower below : List δ) : Pegs δ :=
  Function.update (Function.update pegs src below) dst (tower ++ pegs dst)

theorem carried_src (pegs : Pegs δ) {src dst : Char} (h : src ≠ dst) (tower below : List δ) :
    carried pegs src dst tower below src = below := by
  unfold carried
  rw [Function.update_of_ne h, Function.update_self]

theorem carried_dst (pegs : Pegs δ) (src dst : Char) (tower below : List δ) :
    carried pegs src dst tower below dst = tower ++ pegs dst := Function.update_self _ _ _

theorem carried_other (pegs : Pegs δ) {src dst peg : Char} (hs : peg ≠ src) (hd : peg ≠ dst)
    (tower below : List δ) : carried pegs src dst tower below peg = pegs peg := by
  unfold carried
  rw [Function.update_of_ne hd, Function.update_of_ne hs]

/-- By way of a third peg, which is then as it was. -/
theorem carried_thrice {src dst aux : Char} (hsd : src ≠ dst) (hsa : src ≠ aux) (hda : dst ≠ aux)
    (pegs : Pegs δ) (small below : List δ) (disk : δ) :
    carried (carried (carried pegs src aux small (disk :: below)) src dst [disk] below) aux dst
        small (pegs aux) =
      carried pegs src dst (small ++ [disk]) below := by
  funext peg
  by_cases hd : peg = dst
  · subst hd
    rw [carried_dst, carried_dst, carried_dst, carried_other _ hsd.symm hda, List.append_assoc]
  by_cases hs : peg = src
  · subst hs
    rw [carried_other _ hsa hsd, carried_src _ hsd, carried_src _ hsd]
  by_cases ha : peg = aux
  · subst ha
    rw [carried_src _ hda.symm, carried_other _ hs hd]
  · rw [carried_other _ ha hd, carried_other _ hs hd, carried_other _ hs ha, carried_other _ hs hd]

section Play

variable [LinearOrder δ]

/-- A disk is put on an empty peg or on a larger disk. -/
def put (disk : δ) (peg : Char) (pegs : Pegs δ) : Option (Pegs δ) :=
  match pegs peg with
  | [] => some (Function.update pegs peg [disk])
  | top :: below =>
      if disk < top then some (Function.update pegs peg (disk :: top :: below)) else none

/-- A move is refused if there is no disk to take, or a smaller one to put it on. -/
def move (m : Move) (pegs : Pegs δ) : Option (Pegs δ) :=
  match pegs m.1 with
  | [] => none
  | disk :: below => put disk m.2 (Function.update pegs m.1 below)

/-- The moves in order; `none` if one is refused. -/
def play : List Move → Pegs δ → Option (Pegs δ)
  | [], pegs => some pegs
  | m :: moves, pegs => (move m pegs).bind (play moves)

theorem play_append (moves more : List Move) (pegs : Pegs δ) :
    play (moves ++ more) pegs = (play moves pegs).bind (play more) := by
  induction moves generalizing pegs with
  | nil => rfl
  | cons m moves ih =>
      rw [List.cons_append, play, play, Option.bind_assoc]
      congr 1
      funext pegs'
      exact ih pegs'

theorem play_singleton (m : Move) (pegs : Pegs δ) : play [m] pegs = move m pegs :=
  Option.bind_fun_some (move m pegs)

/-- A disk goes where everything is larger. -/
theorem put_eq {disk : δ} {peg : Char} {pegs : Pegs δ} (h : ∀ d ∈ pegs peg, disk < d) :
    put disk peg pegs = some (Function.update pegs peg (disk :: pegs peg)) := by
  unfold put
  split
  · rename_i hp
    rw [hp]
  · rename_i top below hp
    rw [hp] at h ⊢
    rw [if_pos (h top List.mem_cons_self)]

theorem move_eq {disk : δ} {src dst : Char} {below : List δ} {pegs : Pegs δ} (hne : src ≠ dst)
    (hsrc : pegs src = disk :: below) (h : ∀ d ∈ pegs dst, disk < d) :
    move (src, dst) pegs =
      some (Function.update (Function.update pegs src below) dst (disk :: pegs dst)) := by
  have hdst : Function.update pegs src below dst = pegs dst := Function.update_of_ne hne.symm _ _
  unfold move
  rw [hsrc]
  refine (put_eq ?_).trans ?_
  · rwa [hdst]
  · rw [hdst]

/-- Every disk of the tower is smaller than every one of the others. -/
def Smaller (tower others : List δ) : Prop := ∀ d ∈ tower, ∀ e ∈ others, d < e

/-- A disk under the tower is one more that it is smaller than. -/
theorem Smaller.cons {small others : List δ} {disk : δ} (hlast : ∀ d ∈ small, d < disk)
    (h : Smaller small others) : Smaller small (disk :: others) := by
  intro d hd e he
  rcases List.mem_cons.mp he with rfl | he
  · exact hlast d hd
  · exact h d hd e he

/-- The disks above the lowest one. -/
theorem Smaller.above {small others : List δ} {disk : δ} (h : Smaller (small ++ [disk]) others) :
    Smaller small others :=
  fun d hd => h d (List.mem_append_left _ hd)

/-- **The tower is carried over.**  The induction is for all pegs and everything on them: the disks
above the lowest one go to `aux`, where they stand on larger ones, and from there to `dst`. -/
theorem play_hanoiDirect (n : ℕ) {src dst aux : Char} (hsd : src ≠ dst) (hsa : src ≠ aux)
    (hda : dst ≠ aux) {pegs : Pegs δ} {tower below : List δ} (hn : tower.length = n)
    (hsrc : pegs src = tower ++ below) (htower : tower.Pairwise (· < ·))
    (hbelow : Smaller tower below) (hdst : Smaller tower (pegs dst))
    (haux : Smaller tower (pegs aux)) :
    play (hanoiDirect n src dst aux) pegs = some (carried pegs src dst tower below) := by
  induction n generalizing src dst aux pegs tower below with
  | zero =>
      obtain rfl := List.length_eq_zero_iff.mp hn
      unfold hanoiDirect play carried
      rw [← List.nil_append below, ← hsrc, Function.update_eq_self, List.nil_append,
        Function.update_eq_self]
  | succ n ih =>
      obtain rfl | ⟨small, disk, rfl⟩ := List.eq_nil_or_concat tower
      · cases hn
      rw [List.concat_eq_append] at *
      rw [List.pairwise_append] at htower
      obtain ⟨hpair, -, hlast⟩ := htower
      have hlen : small.length = n := by simpa using hn
      have hdisk : disk ∈ small ++ [disk] := List.mem_append_right _ (List.mem_singleton_self _)
      have hless : ∀ d ∈ small, d < disk := fun d hd => hlast d hd disk (List.mem_singleton_self _)
      -- the smaller disks go out of the way
      have hfirst := ih hsa hsd hda.symm hlen (by simp [hsrc]) hpair
        (Smaller.cons hless hbelow.above) haux.above hdst.above
      -- the lowest one goes to its place
      generalize hmoved : carried pegs src aux small (disk :: below) = moved at hfirst
      have hmid : move (src, dst) moved = some (carried moved src dst [disk] below) := by
        rw [← hmoved]
        refine move_eq hsd (carried_src pegs hsa _ _) ?_
        rw [carried_other pegs hsd.symm hda]
        exact hdst disk hdisk
      -- and the smaller ones follow it
      have hthird : play (hanoiDirect n aux dst src) (carried moved src dst [disk] below) =
          some (carried (carried moved src dst [disk] below) aux dst small (pegs aux)) := by
        rw [← hmoved]
        refine ih hda.symm hsa.symm hsd.symm hlen ?_ hpair haux.above ?_ ?_
        · rw [carried_other _ hsa.symm hda.symm, carried_dst]
        · rw [carried_dst, carried_other _ hsd.symm hda]
          exact Smaller.cons hless hdst.above
        · rw [carried_src _ hsd]
          exact hbelow.above
      unfold hanoiDirect
      rw [play_append, play_append, hfirst, Option.bind_some, play_singleton, hmid,
        Option.bind_some, hthird, ← hmoved, carried_thrice hsd hsa hda]

/-- **Tower of Hanoi.**  From a legal configuration in which the top `n` disks of `src` are smaller
than every other disk, no move of `hanoiDirect` is refused, and they end with these disks on top of
`dst`, in order, and everything else as it was; there are `2 ^ n - 1` of them.  Every continuation
is given these moves by both other versions. -/
theorem hanoi_correct {ρ : Type} (n : ℕ) {src dst aux : Char} (hsd : src ≠ dst) (hsa : src ≠ aux)
    (hda : dst ≠ aux) (pegs : Pegs δ)
    (hlegal : ∀ peg ∈ [src, dst, aux], (pegs peg).Pairwise (· < ·))
    (hn : n ≤ (pegs src).length)
    (hsmall : Smaller ((pegs src).take n) ((pegs src).drop n ++ pegs dst ++ pegs aux))
    (k : List Move → ρ) :
    play (hanoiDirect n src dst aux) pegs =
        some (carried pegs src dst ((pegs src).take n) ((pegs src).drop n)) ∧
      (hanoiDirect n src dst aux).length = 2 ^ n - 1 ∧
      hanoiExplicitCPS n src dst aux k = k (hanoiDirect n src dst aux) ∧
      ContT.run (hanoiCont n src dst aux) k = k (hanoiDirect n src dst aux) := by
  refine ⟨?_, length_hanoiDirect n src dst aux, hanoiExplicitCPS_eq n src dst aux k,
    hanoiCont_eq n src dst aux k⟩
  apply play_hanoiDirect n hsd hsa hda
  · rw [List.length_take, Nat.min_eq_left hn]
  · exact (List.take_append_drop n (pegs src)).symm
  · exact (hlegal src List.mem_cons_self).take
  · intro d hd e he
    exact hsmall d hd e (by simp [he])
  · intro d hd e he
    exact hsmall d hd e (by simp [he])
  · intro d hd e he
    exact hsmall d hd e (by simp [he])

/-- Two disks of three, onto a peg that is not empty. -/
theorem hanoi_correct_two :
    ∃ pegs, play (hanoiDirect 2 'A' 'C' 'B') (fun peg =>
      if peg = 'A' then [1, 2, 5] else if peg = 'C' then [4] else [3]) = some pegs ∧
      pegs 'C' = [1, 2, 4] := by
  have h := (hanoi_correct 2 (by decide : 'A' ≠ 'C') (by decide : 'A' ≠ 'B')
    (by decide : 'C' ≠ 'B')
    (fun peg => if peg = 'A' then [1, 2, 5] else if peg = 'C' then [4] else [3])
    (by simp) (by simp) (by simp [Smaller]) id).1
  exact ⟨_, h, rfl⟩

end Play

end Cps
