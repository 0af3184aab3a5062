/-
# Where the entries of a read set come from

An entry of `read_set` is made by `read_tvar`; only the `except` block of `_or_else` replaces the
set, by a copy that `_or_else` has made of it before (`Body.RestoresCopies`).

* `Body.current_exec` : the read set of a body that runs alone records the TVars as they are;
* `run_accessed` : in every run, the entries record accesses of the attempt;
* `run_lastAccessed` : without `_or_else` they record the last one to each TVar.
-/
import Cocurrency.Stm.Attempt

namespace Stm

variable {θ ι V R P : Type}

/-! ## Bodies that restore copies only -/

namespace Body

/-- The sets that the body restores are copies it has made, or in `copied`. -/
def RestoresCopies : Body ι V R → (Dict ι (V × ℕ) → Dict ι V → Prop) → Prop
  | done _, _ => True
  | raise _, _ => True
  | readTvar _ k, copied => ∀ v, (k v).RestoresCopies copied
  | writeTvar _ _ k, copied => k.RestoresCopies copied
  | retryFlag k, copied => k.RestoresCopies copied
  | shouldRetry k, copied => ∀ b, (k b).RestoresCopies copied
  | copySets k, copied =>
      ∀ reads writes, (k reads writes).RestoresCopies fun r w =>
        (r = reads ∧ w = writes) ∨ copied r w
  | restoreSets reads writes k, copied => copied reads writes ∧ k.RestoresCopies copied

/-- More may be copied. -/
theorem RestoresCopies.mono {b : Body ι V R} {copied copied' : Dict ι (V × ℕ) → Dict ι V → Prop}
    (hb : b.RestoresCopies copied) (hmono : ∀ r w, copied r w → copied' r w) :
    b.RestoresCopies copied' := by
  induction b generalizing copied copied' with
  | done r => trivial
  | raise e => trivial
  | readTvar tid k ih => exact fun v => ih v (hb v) hmono
  | writeTvar tid value k ih => exact ih hb hmono
  | retryFlag k ih => exact ih hb hmono
  | shouldRetry k ih => exact fun b => ih b (hb b) hmono
  | copySets k ih =>
      intro reads writes
      apply ih reads writes (hb reads writes)
      intro r w hcopied
      exact hcopied.imp_right (hmono r w)
  | restoreSets reads writes k ih => exact ⟨hmono _ _ hb.1, ih hb.2 hmono⟩

/-- A handler that restores copies, too. -/
theorem RestoresCopies.tryExcept {b : Body ι V R} {handler : Exn → Body ι V R}
    {copied : Dict ι (V × ℕ) → Dict ι V → Prop} (hb : b.RestoresCopies copied)
    (hhandler : ∀ e, (handler e).RestoresCopies copied) :
    (b.tryExcept handler).RestoresCopies copied := by
  induction b generalizing copied with
  | done r => trivial
  | raise e => exact hhandler e
  | readTvar tid k ih => exact fun v => ih v (hb v) hhandler
  | writeTvar tid value k ih => exact ih hb hhandler
  | retryFlag k ih => exact ih hb hhandler
  | shouldRetry k ih => exact fun b => ih b (hb b) hhandler
  | copySets k ih =>
      intro reads writes
      apply ih reads writes (hb reads writes)
      intro e
      exact (hhandler e).mono fun r w hcopied => Or.inr hcopied
  | restoreSets reads writes k ih => exact ⟨hb.1, ih hb.2 hhandler⟩

/-- `_or_else` restores the copies that it has made. -/
theorem RestoresCopies.orElse {first second : Body ι V R}
    {copied : Dict ι (V × ℕ) → Dict ι V → Prop} (hfirst : first.RestoresCopies copied)
    (hsecond : second.RestoresCopies copied) : (orElse first second).RestoresCopies copied := by
  intro originalRetry reads writes
  apply (hfirst.mono fun r w hcopied => Or.inr hcopied).tryExcept
  intro e
  split_ifs
  · exact ⟨Or.inl ⟨rfl, rfl⟩, hsecond.mono fun r w hcopied => Or.inr hcopied⟩
  · trivial

/-- A body that copies no sets has none to restore. -/
theorem Plain.restoresCopies {b : Body ι V R} (hb : b.Plain)
    (copied : Dict ι (V × ℕ) → Dict ι V → Prop) : b.RestoresCopies copied := by
  induction b with
  | done r => trivial
  | raise e => trivial
  | readTvar tid k ih => exact fun v => ih v (hb v)
  | writeTvar tid value k ih => exact ih hb
  | retryFlag k ih => exact ih hb
  | shouldRetry k ih => exact fun b => ih b (hb b)
  | copySets k ih => exact hb.elim
  | restoreSets reads writes k ih => exact hb.elim

end Body

/-! ## Alone -/

variable [DecidableEq ι]

/-- The entries record the TVars as they are in `store`. -/
def Current (store : ι → TVar V) (reads : Dict ι (V × ℕ)) : Prop :=
  ∀ tid v ver, reads.get tid = some (v, ver) → store tid = ⟨v, ver⟩

/-- What is read now is current. -/
theorem current_readTvar {store : ι → TVar V} {txn : Transaction ι V} {tid : ι}
    (htxn : Current store txn.readSet) :
    Current store (txn.readTvar tid (store tid)).2.readSet := by
  cases hw : txn.writeSet.get tid with
  | some value =>
      rw [Transaction.readTvar, hw]
      exact htxn
  | none =>
      rw [Transaction.readTvar_of_not_written _ hw]
      intro t v ver hget
      by_cases ht : t = tid
      · subst ht
        rw [Dict.get_set_self] at hget
        cases hget
        rfl
      · rw [Dict.get_set_of_ne _ _ ht] at hget
        exact htxn t v ver hget

/-- The read set of a body that runs alone records the TVars as they are. -/
theorem Body.current_exec {store : ι → TVar V} {b : Body ι V R}
    {copied : Dict ι (V × ℕ) → Dict ι V → Prop} (hb : b.RestoresCopies copied)
    (hcopied : ∀ r w, copied r w → Current store r) (n : ℕ) {txn : Transaction ι V}
    (htxn : Current store txn.readSet) :
    Current store (b.exec (fun _ => store) n txn).txn.readSet := by
  induction b generalizing copied n txn with
  | done r => exact htxn
  | raise e => exact htxn
  | readTvar tid k ih =>
      cases hw : txn.writeSet.get tid with
      | some value =>
          rw [exec_readTvar_of_written _ k n hw]
          exact ih value (hb value) hcopied n htxn
      | none =>
          rw [exec_readTvar_of_not_written _ k n hw]
          exact ih _ (hb _) hcopied (n + 1) (current_readTvar htxn)
  | writeTvar tid value k ih => exact ih hb hcopied n htxn
  | retryFlag k ih => exact ih hb hcopied n htxn
  | shouldRetry k ih => exact ih _ (hb _) hcopied n htxn
  | copySets k ih =>
      apply ih _ _ (hb _ _) _ n htxn
      intro r w hr
      rcases hr with ⟨rfl, rfl⟩ | hr
      · exact htxn
      · exact hcopied r w hr
  | restoreSets reads writes k ih => exact ih hb.2 hcopied n (hcopied _ _ hb.1)

/-! ## The read set of a phase -/

/-- The read set of the attempt under way; empty if there is none. -/
def Phase.readSet : Phase ι V R P → Dict ι (V × ℕ)
  | .body _ _ txn | .validate _ txn _ _ | .acquire _ txn _ | .validateLocked _ txn _ _
  | .commitValidate _ txn _ _ | .commitWrite _ txn _ _ => txn.readSet
  | .idle | .release _ _ => Dict.empty

omit [DecidableEq ι] in
/-- What holds of the read set in every phase. -/
theorem PhaseTxn.readSet {B : P → List (ι × TVar V) → Body ι V R → Transaction ι V → Prop}
    {T : P → R → List (ι × TVar V) → Transaction ι V → Prop} {rs : List (ι × TVar V)}
    {ph : Phase ι V R P} (h : PhaseTxn B T rs ph) (Q : Dict ι (V × ℕ) → Prop)
    (hbody : ∀ p cur txn, B p rs cur txn → Q txn.readSet)
    (htxn : ∀ p r txn, T p r rs txn → Q txn.readSet) (hempty : Q Dict.empty) : Q ph.readSet := by
  cases ph with
  | body p cur txn => exact hbody p cur txn h
  | idle | release p out => exact hempty
  | validate p txn r todo | acquire p txn r | validateLocked p txn r todo
  | commitValidate p txn r todo | commitWrite p txn r todo => exact htxn p r txn h

/-! ## Entries are accesses -/

/-- The entries record accesses in `rs`. -/
def Accessed (rs : List (ι × TVar V)) (reads : Dict ι (V × ℕ)) : Prop :=
  ∀ tid v ver, reads.get tid = some (v, ver) → (tid, ⟨v, ver⟩) ∈ rs

/-- Nothing has been accessed. -/
theorem accessed_empty (rs : List (ι × TVar V)) : Accessed rs Dict.empty := by
  intro tid v ver hget
  cases hget

/-- More reads. -/
theorem Accessed.append {rs : List (ι × TVar V)} {reads : Dict ι (V × ℕ)}
    (h : Accessed rs reads) (rs' : List (ι × TVar V)) : Accessed (rs ++ rs') reads :=
  fun tid v ver hget => List.mem_append_left rs' (h tid v ver hget)

/-- A read more. -/
theorem Accessed.readTvar {rs : List (ι × TVar V)} {txn : Transaction ι V} {tid : ι}
    (tvar : TVar V) (hw : txn.writeSet.get tid = none) (h : Accessed rs txn.readSet) :
    Accessed (rs ++ [(tid, tvar)]) (txn.readTvar tid tvar).2.readSet := by
  rw [Transaction.readTvar_of_not_written _ hw]
  intro t v ver hget
  by_cases ht : t = tid
  · subst ht
    rw [Dict.get_set_self] at hget
    cases hget
    exact List.mem_append_right _ List.mem_cons_self
  · rw [Dict.get_set_of_ne _ _ ht] at hget
    exact List.mem_append_left _ (h t v ver hget)

/-- The read set records accesses of the attempt, and so do the copies that the rest of the body
may restore. -/
def BodyAccessed (rs : List (ι × TVar V)) (cur : Body ι V R) (txn : Transaction ι V) : Prop :=
  Accessed rs txn.readSet ∧ ∃ copied, cur.RestoresCopies copied ∧ ∀ r w, copied r w → Accessed rs r

variable {prog : P → Body ι V R}

/-- Each step keeps the read set within the reads. -/
theorem attemptRule_accessed (hcopies : ∀ p, (prog p).RestoresCopies fun _ _ => False) :
    AttemptRule prog (fun _ => BodyAccessed) fun _ _ rs txn => Accessed rs txn.readSet where
  start := fun p => ⟨accessed_empty _, _, hcopies p, fun _ _ h => h.elim⟩
  op := by
    rintro p rs cur txn cur' txn' hop ⟨hreads, copied, hcur, hcopied⟩
    cases hop with
    | written _ => exact ⟨hreads, copied, hcur _, hcopied⟩
    | writeTvar | retryFlag => exact ⟨hreads, copied, hcur, hcopied⟩
    | shouldRetry => exact ⟨hreads, copied, hcur _, hcopied⟩
    | copySets =>
        refine ⟨hreads, _, hcur _ _, ?_⟩
        rintro r w (⟨rfl, rfl⟩ | hr)
        · exact hreads
        · exact hcopied r w hr
    | restoreSets => exact ⟨hcopied _ _ hcur.1, copied, hcur.2, hcopied⟩
  done := fun _ h => h.1

/-- In every run, the entries of a read set record accesses of the attempt. -/
theorem run_accessed [DecidableEq θ] (hcopies : ∀ p, (prog p).RestoresCopies fun _ _ => False)
    {ok : State θ ι V R P → Action θ P → Prop} {s₀ s : State θ ι V R P}
    {h : List (Event θ ι V R P)} (hr : Run (step prog) ok s₀ h s)
    (hidle : ∀ i, s₀.phase i = .idle) (i : θ) :
    Accessed (attemptReads i h) (s.phase i).readSet := by
  have hphase := (attemptRule_accessed hcopies).run ?_ hr hidle i
  · exact hphase.readSet (Accessed (attemptReads i h)) (fun _ _ _ hB => hB.1) (fun _ _ _ hT => hT)
      (accessed_empty _)
  · rintro p rs tid k txn tvar hw ⟨hreads, copied, hcur, hcopied⟩
    refine ⟨hreads.readTvar tvar hw, copied, hcur _, ?_⟩
    intro r w hr
    exact (hcopied r w hr).append _

/-! ## Entries are last accesses -/

/-- The entries record the last accesses in `rs`. -/
def LastAccessed (rs : List (ι × TVar V)) (reads : Dict ι (V × ℕ)) : Prop :=
  ∀ tid, reads.get tid = (rs.reverse.lookup tid).map fun tvar => (tvar.value, tvar.version)

/-- A read more, which is the last of its TVar. -/
theorem LastAccessed.readTvar {rs : List (ι × TVar V)} {txn : Transaction ι V} {tid : ι}
    (tvar : TVar V) (hw : txn.writeSet.get tid = none) (h : LastAccessed rs txn.readSet) :
    LastAccessed (rs ++ [(tid, tvar)]) (txn.readTvar tid tvar).2.readSet := by
  rw [Transaction.readTvar_of_not_written _ hw]
  intro t
  rw [List.reverse_append, List.reverse_singleton, List.singleton_append,
    EntryList.lookup_cons_eq_ite]
  by_cases ht : t = tid
  · subst ht
    rw [if_pos rfl, Dict.get_set_self]
    rfl
  · rw [if_neg ht, Dict.get_set_of_ne _ _ ht]
    exact h t

/-- Each step keeps the read set at the last reads. -/
theorem attemptRule_lastAccessed (hplain : ∀ p, (prog p).Plain) :
    AttemptRule prog (fun _ rs cur txn => cur.Plain ∧ LastAccessed rs txn.readSet)
      fun _ _ rs txn => LastAccessed rs txn.readSet where
  start := fun p => ⟨hplain p, fun _ => rfl⟩
  op := by
    rintro p rs cur txn cur' txn' hop ⟨hcur, hreads⟩
    cases hop with
    | written _ | shouldRetry => exact ⟨hcur _, hreads⟩
    | writeTvar | retryFlag => exact ⟨hcur, hreads⟩
    | copySets | restoreSets => exact hcur.elim
  done := fun _ h => h.2

/-- If bodies do not use `_or_else`, the entries of a read set record the last access of the attempt
to their TVars. -/
theorem run_lastAccessed [DecidableEq θ] (hplain : ∀ p, (prog p).Plain)
    {ok : State θ ι V R P → Action θ P → Prop} {s₀ s : State θ ι V R P}
    {h : List (Event θ ι V R P)} (hr : Run (step prog) ok s₀ h s)
    (hidle : ∀ i, s₀.phase i = .idle) {i : θ} {tid : ι} {v : V} {ver : ℕ}
    (hget : (s.phase i).readSet.get tid = some (v, ver)) :
    (attemptReads i h).reverse.lookup tid = some ⟨v, ver⟩ := by
  have hlast : ∀ reads, LastAccessed (attemptReads i h) reads → reads.get tid = some (v, ver) →
      (attemptReads i h).reverse.lookup tid = some ⟨v, ver⟩ := by
    intro reads hreads hget
    rw [hreads tid, Option.map_eq_some_iff] at hget
    obtain ⟨tvar, hlookup, hentry⟩ := hget
    cases hentry
    exact hlookup
  have hphase := (attemptRule_lastAccessed hplain).run ?_ hr hidle i
  · exact hphase.readSet
      (fun reads => reads.get tid = some (v, ver) →
        (attemptReads i h).reverse.lookup tid = some ⟨v, ver⟩)
      (fun _ _ _ hB => hlast _ hB.2) (fun _ _ _ hT => hlast _ hT) (fun hnone => by cases hnone) hget
  · rintro p rs t k txn tvar hw ⟨hcur, hreads⟩
    exact ⟨hcur _, hreads.readTvar tvar hw⟩

end Stm
