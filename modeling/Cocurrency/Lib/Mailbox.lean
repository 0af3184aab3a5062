/-
# Mailboxes with selective receive

A process takes the first message that one of the clauses of its `receive` matches, and leaves
the others where they are.

* `Mailbox.select` : what a `receive` takes, and what it leaves;
* `Mailbox.select_eq_none_iff` : when it takes nothing;
* `Mailbox.exists_of_select` : where the message was, and that none before it matches;
* `Mailbox.filterMap_of_front` : the messages of one kind stay in order.
-/
import Mathlib.Data.List.Basic

namespace Mailbox

variable {μ β : Type*}

/-- The first message that the clauses match, as they match it, and the messages left. -/
def select (clauses : μ → Option β) : List μ → Option (β × List μ)
  | [] => none
  | m :: ms =>
      match clauses m with
      | some b => some (b, ms)
      | none =>
          match select clauses ms with
          | some (b, rest) => some (b, m :: rest)
          | none => none

theorem select_eq_none_iff {clauses : μ → Option β} {ms : List μ} :
    select clauses ms = none ↔ ∀ m ∈ ms, clauses m = none := by
  induction ms with
  | nil => simp [select]
  | cons m ms ih =>
      rw [List.forall_mem_cons, ← ih, select]
      cases clauses m with
      | some b => simp
      | none =>
          cases select clauses ms with
          | none => simp
          | some r => simp

theorem exists_of_select {clauses : μ → Option β} {ms rest : List μ} {b : β}
    (h : select clauses ms = some (b, rest)) :
    ∃ front m back, ms = front ++ m :: back ∧ rest = front ++ back ∧ clauses m = some b ∧
      ∀ x ∈ front, clauses x = none := by
  induction ms generalizing rest with
  | nil => cases h
  | cons m ms ih =>
      rw [select] at h
      cases hm : clauses m with
      | some b' =>
          rw [hm] at h
          cases h
          exact ⟨[], m, ms, rfl, rfl, hm, List.forall_mem_nil _⟩
      | none =>
          rw [hm] at h
          dsimp only at h
          split at h
          · next b' rest' hrest =>
            cases h
            obtain ⟨front, x, back, hms, rfl, hx, hfront⟩ := ih hrest
            exact ⟨m :: front, x, back, by rw [hms]; rfl, rfl, hx,
              List.forall_mem_cons.mpr ⟨hm, hfront⟩⟩
          · cases h

/-- A message taken out of the mailbox, and the order of the messages of one kind: none of that
kind is overtaken. -/
theorem filterMap_of_front {γ : Type*} (kind : μ → Option γ) {front back : List μ} {m : μ}
    (h : kind m = none ∨ ∀ x ∈ front, kind x = none) :
    (front ++ m :: back).filterMap kind =
      (kind m).toList ++ (front ++ back).filterMap kind := by
  rw [List.filterMap_append, List.filterMap_append]
  cases hm : kind m with
  | none => simp [hm]
  | some c =>
      have hfront : front.filterMap kind = [] := by
        refine List.filterMap_eq_nil_iff.mpr (h.resolve_left ?_)
        rw [hm]
        exact Option.some_ne_none c
      rw [hfront]
      simp [hm]

end Mailbox
