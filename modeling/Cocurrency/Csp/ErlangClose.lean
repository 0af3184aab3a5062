/-
# Closing the channel process (`erlang/csp/channel_demo.erl`)

`{close, _}` replaces the buffer by the atom `closed`: what was in it is lost, and neither a `send`
nor a `recv` can be handled from then on.  So all is well as long as the process takes neither
after a `close`.  Whether it does depends on what arrives, in which order, and on nothing
else: a `send` that arrives after a `close` is taken before it if a `recv` waits for it
(`ClosesLast`, `survives_iff`).
-/
import Cocurrency.Csp.ErlangChannel
import Mathlib.Data.List.Induction

namespace Csp

namespace Erlang

variable {π α : Type*} {s s' : Channel π α} {e : Event π α} {h : List (Event π α)}
  {ms ms' : List (Msg π α)} {m : Msg π α}

/-! ## What arrives before and after a close -/

/-- What arrives before the first `close`. -/
def early (ms : List (Msg π α)) : List (Msg π α) := ms.takeWhile fun m => !m.isClose

/-- The first `close` and what arrives after it. -/
def late (ms : List (Msg π α)) : List (Msg π α) := ms.dropWhile fun m => !m.isClose

/-- The number of `send`s. -/
def numSends (ms : List (Msg π α)) : ℕ := (sentValues ms).length

/-- The number of `recv`s. -/
def numRecvs (ms : List (Msg π α)) : ℕ := (receivers ms).length

/-- Either no `close` arrives; or so few `send`s that some `recv` ahead of the `close` waits for
ever; or only such `send`s arrive after the `close` as answer a `recv` ahead of it. -/
def ClosesLast (ms : List (Msg π α)) : Prop :=
  late ms = [] ∨ numSends ms < numRecvs (early ms) ∨
    numRecvs (late ms) = 0 ∧ numSends ms ≤ max (numRecvs (early ms)) (numSends (early ms))

instance (ms : List (Msg π α)) : Decidable (ClosesLast ms) :=
  haveI : Decidable (late ms = []) := decidable_of_iff _ List.isEmpty_iff
  inferInstanceAs (Decidable (_ ∨ _))

/-- The sends of two pieces. -/
@[simp] theorem numSends_append (ms ms' : List (Msg π α)) :
    numSends (ms ++ ms') = numSends ms + numSends ms' := by
  rw [numSends, sentValues_append, List.length_append]
  rfl

/-- The receives of two pieces. -/
@[simp] theorem numRecvs_append (ms ms' : List (Msg π α)) :
    numRecvs (ms ++ ms') = numRecvs ms + numRecvs ms' := by
  rw [numRecvs, receivers_append, List.length_append]
  rfl

/-- The sends, one message at a time. -/
theorem numSends_cons (m : Msg π α) (ms : List (Msg π α)) :
    numSends (m :: ms) = numSends [m] + numSends ms :=
  numSends_append [m] ms

/-- The receives, one message at a time. -/
theorem numRecvs_cons (m : Msg π α) (ms : List (Msg π α)) :
    numRecvs (m :: ms) = numRecvs [m] + numRecvs ms :=
  numRecvs_append [m] ms

/-- What is early and what is late make up the whole. -/
theorem early_append_late (ms : List (Msg π α)) : early ms ++ late ms = ms :=
  List.takeWhile_append_dropWhile

/-- The sends, early and late. -/
theorem numSends_eq (ms : List (Msg π α)) :
    numSends ms = numSends (early ms) + numSends (late ms) := by
  rw [← numSends_append, early_append_late]

/-- The receives, early and late. -/
theorem numRecvs_eq (ms : List (Msg π α)) :
    numRecvs ms = numRecvs (early ms) + numRecvs (late ms) := by
  rw [← numRecvs_append, early_append_late]

/-- Once something is late, all that follows is. -/
theorem early_late_append (ms' : List (Msg π α)) (hlate : late ms ≠ []) :
    early (ms ++ ms') = early ms ∧ late (ms ++ ms') = late ms ++ ms' := by
  have hback : late (ms ++ ms') = late ms ++ ms' := by
    rw [late, List.dropWhile_append, if_neg (by rw [List.isEmpty_iff]; exact hlate)]
    rfl
  refine ⟨(List.append_left_inj (late (ms ++ ms'))).mp ?_, hback⟩
  rw [early_append_late, hback, ← List.append_assoc, early_append_late]

/-- Until something is late, it depends on what follows. -/
theorem early_late_append_of_nil (ms' : List (Msg π α)) (hlate : late ms = []) :
    early (ms ++ ms') = ms ++ early ms' ∧ late (ms ++ ms') = late ms' := by
  have hback : late (ms ++ ms') = late ms' := by
    rw [late, List.dropWhile_append, if_pos (by rw [List.isEmpty_iff]; exact hlate)]
    rfl
  refine ⟨(List.append_left_inj (late (ms ++ ms'))).mp ?_, hback⟩
  rw [early_append_late, hback, List.append_assoc, early_append_late]

/-- What arrives later does not mend it. -/
theorem ClosesLast.of_append (h : ClosesLast (ms ++ ms')) : ClosesLast ms := by
  by_cases hlate : late ms = []
  · exact Or.inl hlate
  · obtain ⟨hearly, hback⟩ := early_late_append ms' hlate
    rw [ClosesLast, hearly, hback, numSends_append, numRecvs_append] at h
    right
    rcases h with hnil | hlt | ⟨hrecvs, hle⟩
    · exact absurd (List.append_eq_nil_iff.mp hnil).1 hlate
    · exact Or.inl (Nat.lt_of_le_of_lt (Nat.le_add_right _ _) hlt)
    · exact Or.inr ⟨Nat.eq_zero_of_add_eq_zero_right hrecvs,
        Nat.le_trans (Nat.le_add_right _ _) hle⟩

/-! ## Where the close is -/

/-- As long as no `close` has been taken: the first `close` is in the mailbox, with all that has
arrived after it, but for `send`s that answer a `recv`; these are taken when there is no other
`send` ahead of the `close`, and leave the buffer empty. -/
structure Pending (ms mailbox : List (Msg π α)) (buffer : List α) : Prop where
  late_nil : late mailbox = [] ↔ late ms = []
  recvs_late : numRecvs (late mailbox) = numRecvs (late ms)
  sends_le : numSends (late mailbox) ≤ numSends (late ms)
  ahead : numSends (late ms) ≤ numSends (late mailbox) ∨ numSends (early mailbox) = 0 ∧ buffer = []

variable {mailbox : List (Msg π α)} {buffer : List α}

/-- A message more. -/
theorem Pending.arrive (hp : Pending ms mailbox buffer) (m : Msg π α) :
    Pending (ms ++ [m]) (mailbox ++ [m]) buffer := by
  by_cases hlate : late ms = []
  · rcases early_late_append_of_nil [m] hlate with ⟨-, hms⟩
    rcases early_late_append_of_nil [m] (hp.late_nil.mpr hlate) with ⟨-, hmailbox⟩
    rw [← hmailbox] at hms
    exact ⟨by rw [hms], by rw [hms], Nat.le_of_eq (by rw [hms]),
      Or.inl (Nat.le_of_eq (by rw [hms]))⟩
  · have hlate' : late mailbox ≠ [] := fun h => hlate (hp.late_nil.mp h)
    obtain ⟨-, hms⟩ := early_late_append [m] hlate
    obtain ⟨hearly, hmailbox⟩ := early_late_append [m] hlate'
    have hrecvs := hp.recvs_late
    have hle := hp.sends_le
    have hsends := hp.ahead
    constructor
    · rw [hms, hmailbox]
      exact iff_of_false (List.append_ne_nil_of_left_ne_nil hlate' _)
        (List.append_ne_nil_of_left_ne_nil hlate _)
    · rw [hms, hmailbox, numRecvs_append, numRecvs_append, hrecvs]
    · rw [hms, hmailbox, numSends_append, numSends_append]
      exact Nat.add_le_add_right hle _
    · rw [hms, hmailbox, hearly, numSends_append, numSends_append]
      exact hsends.imp_left fun h => Nat.add_le_add_right h _

/-- A request at the front of the mailbox is ahead of the `close`. -/
theorem early_late_cons (rest : List (Msg π α)) (hm : m.isClose = false) :
    early (m :: rest) = m :: early rest ∧ late (m :: rest) = late rest := by
  constructor
  · exact List.takeWhile_cons_of_pos (by rw [hm]; rfl)
  · exact List.dropWhile_cons_of_pos (by rw [hm]; rfl)

/-- The outer `receive` takes a request. -/
theorem Pending.tail {rest : List (Msg π α)} {buffer' : List α}
    (hp : Pending ms (m :: rest) buffer) (hm : m.isClose = false)
    (hbuffer : numSends [m] = 1 ∨ buffer ≠ [] ∨ buffer' = []) : Pending ms rest buffer' := by
  obtain ⟨hearly, hlate⟩ := early_late_cons rest hm
  have hsends := hp.ahead
  rw [hearly, hlate, numSends_cons] at hsends
  refine ⟨by rw [← hlate]; exact hp.late_nil, by rw [← hlate]; exact hp.recvs_late,
    by rw [← hlate]; exact hp.sends_le, hsends.imp_right ?_⟩
  rintro ⟨hzero, hnil⟩
  refine ⟨Nat.eq_zero_of_add_eq_zero_left hzero, ?_⟩
  rcases hbuffer with hone | hne | hnil'
  · rw [hone] at hzero
    omega
  · exact absurd hnil hne
  · exact hnil'

/-- No message is a send. -/
theorem numSends_eq_zero (h : ∀ m ∈ ms, m.send? = none) : numSends ms = 0 := by
  rw [numSends, sentValues, List.filterMap_eq_nil_iff.mpr h]
  rfl

/-- The inner `receive` takes a `send`, from behind the `close` only if there is none ahead of
it. -/
theorem Pending.passed {front back : List (Msg π α)} {value : α} {sender : π}
    (hp : Pending ms (front ++ .send value sender :: back) [])
    (hfront : ∀ m ∈ front, m.send? = none) : Pending ms (front ++ back) [] := by
  by_cases hlate : late front = []
  · -- the `send` is ahead of the `close`
    obtain ⟨hearly, hback⟩ := early_late_append_of_nil (.send value sender :: back) hlate
    obtain ⟨-, hback'⟩ := early_late_append_of_nil back hlate
    obtain ⟨hcons, htail⟩ := early_late_cons (m := .send value sender) back rfl
    have hsame : late (front ++ back) = late (front ++ .send value sender :: back) := by
      rw [hback, hback', htail]
    refine ⟨by rw [hsame]; exact hp.late_nil, by rw [hsame]; exact hp.recvs_late,
      by rw [hsame]; exact hp.sends_le, Or.inl ?_⟩
    rw [hsame]
    refine hp.ahead.resolve_right fun h => ?_
    have hzero := h.1
    rw [hearly, hcons, numSends_append, numSends_cons] at hzero
    have hone : numSends [(Msg.send value sender : Msg π α)] = 1 := rfl
    omega
  · obtain ⟨-, hback⟩ := early_late_append (.send value sender :: back) hlate
    obtain ⟨hearly', hback'⟩ := early_late_append back hlate
    have hnil := hp.late_nil
    have hrecvs := hp.recvs_late
    have hle := hp.sends_le
    have hzero : numSends (early front) = 0 :=
      numSends_eq_zero fun m hm => hfront m ((List.takeWhile_prefix _).subset hm)
    rw [hback] at hnil hrecvs hle
    rw [numRecvs_append, numRecvs_cons] at hrecvs
    rw [numSends_append, numSends_cons] at hle
    have hnone : numRecvs [(Msg.send value sender : Msg π α)] = 0 := rfl
    constructor
    · rw [hback', ← hnil]
      exact iff_of_false (List.append_ne_nil_of_left_ne_nil hlate _)
        (List.append_ne_nil_of_left_ne_nil hlate _)
    · rw [hback', numRecvs_append]
      omega
    · rw [hback', numSends_append]
      omega
    · rw [hearly']
      exact Or.inr ⟨hzero, rfl⟩

/-- What has been taken before the `close`: the requests ahead of it, and the `send`s that answer
one of these. -/
structure Closed (ms taken : List (Msg π α)) : Prop where
  late_ne : late ms ≠ []
  recvs_taken : numRecvs taken = numRecvs (early ms)
  sends_taken : numSends taken = max (numRecvs (early ms)) (numSends (early ms))

/-- Where the process is, and what that says about the messages that have arrived. -/
def Placed (ms taken mailbox : List (Msg π α)) : Place π α → Prop
  | .loop (.values vs) => Pending ms mailbox vs
  | .inner _ => Pending ms mailbox []
  | .loop .closed => Closed ms taken
  | .crashed _ => ¬ ClosesLast ms

/-- The sends are taken or in the mailbox. -/
theorem Books.numSends_eq (hb : Books h s) :
    numSends (arrivals h) = numSends (taken h) + numSends s.mailbox := by
  rw [numSends, sentValues, hb.sends, ← List.filterMap_append, ← numSends_append]
  rfl

/-- The receives are taken or in the mailbox. -/
theorem Books.numRecvs_eq (hb : Books h s) :
    numRecvs (arrivals h) = numRecvs (taken h) + numRecvs s.mailbox := by
  rw [numRecvs, hb.recvs, ← receivers_append, ← numRecvs_append]
  rfl

/-- When the `close` is at the front of the mailbox, the process takes it. -/
theorem Pending.close (hp : Pending (arrivals h) s.mailbox buffer) (hb : Books h s)
    (hplace : s.place = .loop (.values buffer)) {pid : π} {rest : List (Msg π α)}
    (hmailbox : s.mailbox = .close pid :: rest) : Closed (arrivals h) (taken h) := by
  have hearly : early s.mailbox = [] := by rw [hmailbox]; rfl
  have hlate : late s.mailbox = s.mailbox := by
    have hsplit := early_append_late s.mailbox
    rw [hearly] at hsplit
    exact hsplit
  have hne : late (arrivals h) ≠ [] := fun hnil => by
    rw [← hp.late_nil, hlate, hmailbox] at hnil
    cases hnil
  have hrecvs := hp.recvs_late
  have hle := hp.sends_le
  have hahead := hp.ahead
  have hanswers := hb.answers
  rw [hplace] at hanswers
  have hanswered : ((replies h).filterMap answer).length = numRecvs (taken h) := by
    rw [numRecvs, ← hanswers.1, List.length_map]
  have hsent : ((replies h).filterMap answer).length + buffer.length = numSends (taken h) := by
    rw [numSends, ← hanswers.2, List.length_append, List.length_map]
  have hsends_all := hb.numSends_eq
  have hrecvs_all := hb.numRecvs_eq
  have hsends_ms := numSends_eq (arrivals h)
  have hrecvs_ms := numRecvs_eq (arrivals h)
  rw [hlate] at hrecvs hle hahead
  refine ⟨hne, by omega, ?_⟩
  rcases hahead with hahead | ⟨-, rfl⟩
  · -- all of the `send`s that were taken are ahead of the `close`
    omega
  · rw [List.length_nil] at hsent
    omega

/-- What arrives later leaves a `close` that has been taken where it was. -/
theorem Closed.arrive {taken : List (Msg π α)} (hc : Closed ms taken) (m : Msg π α) :
    Closed (ms ++ [m]) taken := by
  obtain ⟨hearly, hlate⟩ := early_late_append [m] hc.late_ne
  refine ⟨?_, by rw [hearly]; exact hc.recvs_taken, by rw [hearly]; exact hc.sends_taken⟩
  rw [hlate]
  exact List.append_ne_nil_of_left_ne_nil hc.late_ne _

/-- A request that comes to its turn after the `close` has been taken. -/
theorem Closed.not_closesLast (hc : Closed (arrivals h) (taken h)) (hb : Books h s)
    {rest : List (Msg π α)} (hmailbox : s.mailbox = m :: rest)
    (hm : 0 < numSends [m] + numRecvs [m]) : ¬ ClosesLast (arrivals h) := by
  have hrecvs := hc.recvs_taken
  have hsends := hc.sends_taken
  have hsends_all := hb.numSends_eq
  have hrecvs_all := hb.numRecvs_eq
  have hsends_ms := numSends_eq (arrivals h)
  have hrecvs_ms := numRecvs_eq (arrivals h)
  rw [hmailbox, numSends_cons] at hsends_all
  rw [hmailbox, numRecvs_cons] at hrecvs_all
  rintro (hnil | hlt | ⟨hnone, hle⟩)
  · exact hc.late_ne hnil
  · omega
  · omega

/-- **The step lemma**: where the process is, after a message has arrived or been taken. -/
theorem placed_effect (hb : Books h s) (hp : Placed (arrivals h) (taken h) s.mailbox s.place)
    (heffect : Effect s e s') :
    Placed (arrivals (h ++ [e])) (taken (h ++ [e])) s'.mailbox s'.place := by
  rw [arrivals_snoc, taken_snoc]
  cases heffect with
  | arrived m =>
      show Placed (arrivals h ++ [m]) (taken h ++ []) (s.mailbox ++ [m]) s.place
      rw [List.append_nil]
      cases hplace : s.place with
      | loop buffer =>
          rw [hplace] at hp
          cases buffer with
          | values vs => exact hp.arrive m
          | closed => exact hp.arrive m
      | inner pid =>
          rw [hplace] at hp
          exact hp.arrive m
      | crashed why =>
          rw [hplace] at hp
          exact fun hlast => hp hlast.of_append
  | buffered vs value pid rest hplace hmailbox =>
      rw [hplace, hmailbox] at hp
      show Pending (arrivals h ++ []) rest (vs ++ [value])
      rw [List.append_nil]
      exact hp.tail rfl (Or.inl rfl)
  | answered value vs pid rest hplace hmailbox =>
      rw [hplace, hmailbox] at hp
      show Pending (arrivals h ++ []) rest vs
      rw [List.append_nil]
      exact hp.tail rfl (Or.inr (Or.inl (List.cons_ne_nil _ _)))
  | waits pid rest hplace hmailbox =>
      rw [hplace, hmailbox] at hp
      show Pending (arrivals h ++ []) rest []
      rw [List.append_nil]
      exact hp.tail rfl (Or.inr (Or.inr rfl))
  | passed pid value sender front back hplace hmailbox hfront =>
      rw [hplace, hmailbox] at hp
      show Pending (arrivals h ++ []) (front ++ back) []
      rw [List.append_nil]
      exact hp.passed hfront
  | closed buffer pid rest hplace hmailbox =>
      rw [hplace] at hp
      have hclosed : Closed (arrivals h) (taken h) := by
        cases buffer with
        | values vs => exact hp.close hb hplace hmailbox
        | closed => exact hp
      show Closed (arrivals h ++ []) (taken h ++ [.close pid])
      rw [List.append_nil]
      refine ⟨hclosed.late_ne, ?_, ?_⟩
      · rw [numRecvs_append]
        exact hclosed.recvs_taken
      · rw [numSends_append]
        exact hclosed.sends_taken
  | badarg value pid rest hplace hmailbox =>
      rw [hplace] at hp
      show ¬ ClosesLast (arrivals h ++ [])
      rw [List.append_nil]
      exact hp.not_closesLast hb hmailbox (Nat.succ_pos _)
  | caseClause pid rest hplace hmailbox =>
      rw [hplace] at hp
      show ¬ ClosesLast (arrivals h ++ [])
      rw [List.append_nil]
      exact hp.not_closesLast hb hmailbox (Nat.succ_pos _)

/-- Where the process is, in every run. -/
theorem run_placed (hr : Run step anyStep start h s) :
    Placed (arrivals h) (taken h) s.mailbox s.place := by
  induction hr with
  | nil => exact ⟨Iff.rfl, rfl, Nat.le_refl _, Or.inl (Nat.le_refl _)⟩
  | snoc hr _ hs ih => exact placed_effect (run_books hr) ih (effect_step hs)

/-! ## When the channel survives -/

/-- The process has not been terminated by an error; the `recv` requests that it has taken have been
answered with the values accepted, in order, as far as there are any; and if it has been
terminated, then no request is without an acknowledgement or an answer. -/
structure Survives (h : List (Event π α)) (s : Channel π α) : Prop where
  alive : s.place.Alive
  delivered : (replies h).filterMap answer = (receivers (taken h)).zip (sentValues (taken h))
  none_left : ¬ s.place.Alive → (replies h).filterMap acked = senders (arrivals h) ∧
    ((replies h).filterMap answer).map Prod.fst = receivers (arrivals h)

/-- Messages can arrive at any time. -/
theorem exists_run_arrivals (ms : List (Msg π α)) : ∃ (h : List (Event π α)) (s : Channel π α),
    Run step anyStep start h s ∧ arrivals h = ms := by
  induction ms using List.reverseRecOn with
  | nil => exact ⟨[], start, .nil, rfl⟩
  | append_singleton ms m ih =>
      obtain ⟨h, s, hr, harrivals⟩ := ih
      refine ⟨h ++ [.arrived m], { s with mailbox := s.mailbox ++ [m] },
        hr.snoc (a := .arrive m) trivial rfl, ?_⟩
      rw [arrivals_snoc, harrivals]
      rfl

/-- The process takes messages, and none arrives. -/
def Takes (_ : Channel π α) (a : Action π α) : Prop := a = .take

/-- Taking a message leaves less in the mailbox. -/
theorem lowers_of_takes {a : Action π α} (htakes : Takes s a) (hs : step s a = some (e, s')) :
    e.arrival = none ∧ s'.mailbox.length < s.mailbox.length := by
  rw [htakes] at hs
  have hone : ∀ {m : Msg π α} {rest}, s.mailbox = m :: rest → rest.length < s.mailbox.length := by
    intro m rest hmailbox
    rw [hmailbox, List.length_cons]
    omega
  have harrived : ∀ m, e ≠ .arrived m := by
    rintro m rfl
    unfold step at hs
    dsimp only at hs
    split at hs <;> first | (split at hs <;> cases hs) | cases hs
  cases effect_step hs with
  | arrived m => exact absurd rfl (harrived m)
  | buffered _ _ _ _ _ hmailbox | answered _ _ _ _ _ hmailbox | waits _ _ _ hmailbox
  | closed _ _ _ _ hmailbox | badarg _ _ _ _ hmailbox | caseClause _ _ _ hmailbox =>
      exact ⟨rfl, hone hmailbox⟩
  | passed pid value sender front back _ hmailbox _ =>
      refine ⟨rfl, ?_⟩
      rw [hmailbox, List.length_append, List.length_append, List.length_cons]
      omega

/-- The messages that have arrived can be taken until there is none left that can. -/
theorem exists_run_waits (ms : List (Msg π α)) : ∃ (h : List (Event π α)) (s : Channel π α),
    Run step anyStep start h s ∧ arrivals h = ms ∧ step s .take = none := by
  obtain ⟨h, s, hr, harrivals⟩ := exists_run_arrivals ms
  have hstuck : ∃ h' s', Run step Takes s h' s' ∧ ∀ a, Takes s' a → step s' a = none :=
    Run.exists_stuck (fun _ => True) (fun s => s.mailbox.length)
      (fun s a e s' _ htakes hs => ⟨trivial, (lowers_of_takes htakes hs).2⟩) trivial
  obtain ⟨h', s', hr', hend⟩ := hstuck
  have hnone : arrivals h' = [] := by
    refine Run.invariant (fun h _ => arrivals h = []) rfl ?_ hr'
    intro h s a e s' hnil htakes hs
    rw [arrivals_snoc, hnil, (lowers_of_takes htakes hs).1]
    rfl
  refine ⟨h ++ h', s', hr.trans (hr'.strengthen fun _ _ _ _ _ _ _ _ => trivial), ?_,
    hend _ rfl⟩
  rw [arrivals, List.filterMap_append, ← arrivals, ← arrivals, harrivals, hnone, List.append_nil]

/-- When the process, not terminated, can take nothing more, what has arrived says why. -/
theorem closesLast_of_waits (hb : Books h s)
    (hp : Placed (arrivals h) (taken h) s.mailbox s.place) (halive : s.place.Alive)
    (hwaits : step s .take = none) : ClosesLast (arrivals h) := by
  have hsends := hb.numSends_eq
  have hrecvs := hb.numRecvs_eq
  have hanswers := hb.answers
  have hcases := select_of_waits hwaits halive
  cases hplace : s.place with
  | loop buffer =>
      rw [hplace] at hp
      have hempty : s.mailbox = [] := by
        rcases hcases with hempty | ⟨pid, hinner, -⟩
        · exact hempty
        · rw [hplace] at hinner
          cases hinner
      cases buffer with
      | values vs =>
          refine Or.inl (hp.late_nil.mp ?_)
          rw [hempty]
          rfl
      | closed =>
          have hrecvs_ms := numRecvs_eq (arrivals h)
          have hrecvs_taken := hp.recvs_taken
          have hsends_taken := hp.sends_taken
          rw [hempty] at hsends hrecvs
          have hzero : numSends ([] : List (Msg π α)) = 0 ∧ numRecvs ([] : List (Msg π α)) = 0 :=
            ⟨rfl, rfl⟩
          exact Or.inr (Or.inr ⟨by omega, by omega⟩)
  | inner pid =>
      -- the process waits for a `send`: more `recv`s than `send`s are ahead of the `close`
      rw [hplace] at hp hanswers
      have hzero : numSends s.mailbox = 0 := by
        rcases hcases with hempty | ⟨-, -, hnone⟩
        · rw [hempty]
          rfl
        · rw [numSends, sentValues, hnone]
          rfl
      have hanswered : ((replies h).filterMap answer).length + 1 = numRecvs (taken h) := by
        rw [numRecvs, ← hanswers.1, List.length_append, List.length_map]
        rfl
      have hsent : ((replies h).filterMap answer).length = numSends (taken h) := by
        rw [numSends, ← hanswers.2, List.length_map]
      have hlate := hp.recvs_late
      have hrecvs_ms := numRecvs_eq (arrivals h)
      have hrecvs_mailbox := numRecvs_eq s.mailbox
      exact Or.inr (Or.inl (by omega))
  | crashed why =>
      rw [hplace] at halive
      exact halive.elim

/-- **Closing the channel.**  For every sequence of messages: the channel survives all runs in which
these are the messages that arrive, whenever they do and however far the process has got, if and
only if the process has no `send` and no `recv` to take after a `close`. -/
theorem survives_iff (ms : List (Msg π α)) :
    (∀ h s, Run step anyStep start h s → arrivals h = ms → Survives h s) ↔ ClosesLast ms := by
  constructor
  · intro hall
    obtain ⟨h, s, hr, harrivals, hwaits⟩ := exists_run_waits ms
    have hsurvives := hall h s hr harrivals
    rw [← harrivals]
    exact closesLast_of_waits (run_books hr) (run_placed hr) hsurvives.alive hwaits
  · rintro hlast h s hr rfl
    have hplaced := run_placed hr
    have halive : s.place.Alive := by
      cases hplace : s.place with
      | loop | inner => trivial
      | crashed why =>
          rw [hplace] at hplaced
          exact absurd hlast hplaced
    exact ⟨halive, (run_books hr).answers.eq_zip halive, fun hdead => absurd halive hdead⟩

/-- A value is accepted and the channel closed; the `recv` that follows does not get the value, and
terminates the process. -/
theorem not_survives : ¬ ∀ (ms : List (Msg ℕ ℕ)) h s, Run step anyStep start h s →
    arrivals h = ms → Survives h s := by
  intro hall
  have hr := run_of_replay (step (π := ℕ) (α := ℕ)) (s := start)
    [.arrive (.send 5 1), .arrive (.close 1), .arrive (.recv 2), .take, .take, .take] rfl
  exact (hall [.send 5 1, .close 1, .recv 2] _ _ hr rfl).alive

/-- With the `close` last, or a `send` that answers an earlier `recv` after it, all is well. -/
example : ClosesLast [.send 5 1, .recv 2, .close 1] ∧
    ClosesLast [.recv 2, .close (1 : ℕ), .send 5 1] ∧
    ¬ ClosesLast [.close (1 : ℕ), .send 5 1] := by
  decide

end Erlang

end Csp
