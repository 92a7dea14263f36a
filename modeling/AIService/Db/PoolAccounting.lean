import AIService.Db.ConnectionPool
import Mathlib.Data.List.Perm.Basic
import Mathlib.Data.List.Count
import Mathlib.Data.List.Nodup
import Mathlib.Order.Nat

/-!
# Slots and connections of the pool

Every slot counted by `allocated` is an idle connection, a lease or a checkout in
progress, and every connection has one holder (`Inv`).  The invariant is kept by each
critical section and by the unlocked work between two of them; `pool_accounting`
reads the accounting off it for every run.
-/

namespace AIService.Db

/-! ## Who holds a connection, and which call holds a slot -/

/-- Every connection known to the pool or to a borrower, once for each holder. -/
def World.held (w : World) : List ConnectionId :=
  w.state.idle ++ w.leases.map Prod.snd ++ w.checkouts.filterMap (·.phase.connection)

/-- The number of checkouts in progress for call `b`. -/
def World.inProgress (w : World) (b : Borrower) : Nat :=
  (w.checkouts.map Checkout.borrower).count b

/-- Call `b` failed after it was granted a slot, and gave the slot back. -/
def Obs.returnsSlot (b : Borrower) : Obs → Bool
  | .slotReturned b' _ => b' == b
  | _ => false

/-- Call `b` ended with a lease. -/
def Obs.leasesTo (b : Borrower) : Obs → Bool
  | .leased b' _ => b' == b
  | _ => false

/-- How often phase `p` holds `c`. -/
def Phase.holds (p : Phase) (c : ConnectionId) : Nat := if p.connection = some c then 1 else 0

theorem count_held_checkout (b : Borrower) (p : Phase) (rest : List Checkout)
    (c : ConnectionId) :
    ((⟨b, p⟩ :: rest).filterMap (·.phase.connection)).count c =
      p.holds c + (rest.filterMap (·.phase.connection)).count c := by
  cases held : p.connection with
  | none => simp [held, Phase.holds]
  | some d =>
      by_cases same : d = c
      · subst same
        simp [held, Phase.holds, Nat.add_comm]
      · simp [held, Phase.holds, same]

theorem World.count_held (w : World) (c : ConnectionId) :
    w.held.count c = w.state.idle.count c + (w.leases.map Prod.snd).count c +
      (w.checkouts.filterMap (·.phase.connection)).count c := by
  rw [World.held, List.count_append, List.count_append]

/-- A connector call keeps the connection it was about, drops it, or trades it for
the fresh one. -/
theorem Phase.next_holds {fresh : ConnectionId} {p next : Phase} {outcome : Outcome}
    (step : p.next fresh outcome = some next) (c : ConnectionId) :
    next.holds c ≤ p.holds c ∨ (c = fresh ∧ next.holds c = 1) := by
  cases p <;> cases outcome <;>
    simp only [Phase.next, Option.some.injEq, reduceCtorEq] at step <;> subst step <;>
    simp only [Phase.holds, Phase.connection, Option.some.injEq, reduceCtorEq, ↓reduceIte,
      Nat.le_refl, true_or] <;>
    split <;> simp_all

/-! ## The invariant -/

/-- What holds of the pool and its callers after every step, `tr` being shown so far. -/
structure Inv (w : World) (tr : List Obs) : Prop where
  slots : w.state.allocated = w.state.idle.length + w.leases.length + w.checkouts.length
  bounded : w.state.allocated ≤ w.state.target
  inRange : w.state.target < sizeLimit
  exclusive : ∀ c, w.held.count c ≤ 1
  fresh : ∀ c, w.nextConnection ≤ c → w.held.count c = 0
  unpublished : w.state.initialized = false →
    w.state.target = 0 ∧ w.state.idle = [] ∧ w.leases = [] ∧ w.checkouts = []
  drained : w.state.stopping = true → w.state.idle = []
  ledger : ∀ b, tr.count (.granted b) =
    tr.countP (Obs.returnsSlot b) + tr.countP (Obs.leasesTo b) + w.inProgress b
  calls : ∀ b, tr.count (.granted b) + w.waiting.count b ≤
    if b < w.nextBorrower then 1 else 0

theorem Inv.initial : Inv {} [] where
  slots := rfl
  bounded := Nat.le_refl 0
  inRange := sizeLimit_pos
  exclusive := by simp [World.held]
  fresh := by simp [World.held]
  unpublished := fun _ => ⟨rfl, rfl, rfl, rfl⟩
  drained := fun _ => rfl
  ledger := by simp [World.inProgress]
  calls := by simp

/-- An observation that neither grants nor ends a checkout leaves the ledger alone. -/
theorem Inv.observe {w : World} {tr : List Obs} {o : Obs} (inv : Inv w tr)
    (grants : ∀ b, o ≠ .granted b) (returns : ∀ b, o.returnsSlot b = false)
    (leases : ∀ b, o.leasesTo b = false) : Inv w (tr ++ [o]) := by
  have count (b : Borrower) : (tr ++ [o]).count (.granted b) = tr.count (.granted b) := by
    simp [List.count_append, grants b]
  refine { inv with ledger := fun b => ?_, calls := fun b => ?_ }
  · rw [count, inv.ledger b]
    simp [List.countP_append, returns b, leases b]
  · rw [count]
    exact inv.calls b

/-- A call that was refused leaves no trace in the accounting. -/
theorem Inv.refuse {w : World} {tr : List Obs} {b : Borrower} {e : DbError} (inv : Inv w tr) :
    Inv w (tr ++ [.refused b e]) :=
  inv.observe (fun _ => by simp) (fun _ => rfl) (fun _ => rfl)

/-- What the end of the first critical section does to the shared state: an idle
connection moves to the borrower, or one more slot is counted. -/
theorem State.checkout_spec {s s' : State} {p : Phase} (available : s.available = true)
    (inRange : s.target < sizeLimit) (taken : s.checkout = .ok (s', p)) :
    s.stopping = false ∧ s'.stopping = false ∧ s'.initialized = s.initialized ∧
      s'.target = s.target ∧ (s.allocated ≤ s.target → s'.allocated ≤ s.target) ∧
      s'.allocated + s.idle.length = s.allocated + s'.idle.length + 1 ∧
      ∀ c, s'.idle.count c + p.holds c = s.idle.count c := by
  unfold State.checkout at taken
  by_cases stopping : s.stopping = true
  · rw [if_pos stopping] at taken
    cases taken
  rw [if_neg stopping] at taken
  have running : s.stopping = false := by simpa using stopping
  cases idle : s.idle with
  | nil =>
      rw [idle] at taken
      cases taken
      have room : s.allocated < s.target := by
        simpa [State.available, stopping, idle] using available
      have counted : sizeAdd s.allocated 1 = s.allocated + 1 := sizeAdd_eq (by omega)
      refine ⟨running, running, rfl, rfl, fun _ => ?_, ?_, fun c => ?_⟩
      · simp only [counted]
        omega
      · simp only [counted, List.length_nil]
      · simp [Phase.holds, Phase.connection]
  | cons d rest =>
      rw [idle] at taken
      cases taken
      refine ⟨running, running, rfl, rfl, id, ?_, fun c => ?_⟩
      · simp only [List.length_cons]
        omega
      · simp [Phase.holds, Phase.connection, List.count_cons]

/-- Taking a slot for a call that has none yet keeps the invariant. -/
theorem Inv.admitBorrower {w : World} {tr : List Obs} {b : Borrower} (inv : Inv w tr)
    (available : w.state.available = true) (started : b < w.nextBorrower)
    (single : tr.count (.granted b) + w.waiting.count b = 0) :
    Inv (w.admitBorrower b).1 (tr ++ (w.admitBorrower b).2) := by
  unfold World.admitBorrower
  cases taken : w.state.checkout with
  | error e => exact inv.refuse
  | ok result =>
      obtain ⟨s', p⟩ := result
      obtain ⟨-, running, init, target, bounded, length, count⟩ :=
        State.checkout_spec available inv.inRange taken
      have slots := inv.slots
      have held (c : ConnectionId) : (World.held { w with
          state := s', checkouts := ⟨b, p⟩ :: w.checkouts }).count c = w.held.count c := by
        simp only [World.count_held, count_held_checkout]
        have := count c
        omega
      refine ⟨?_, ?_, ?_, fun c => (held c).symm ▸ inv.exclusive c,
        fun c old => (held c).trans (inv.fresh c old), fun uninit => ?_,
        fun stopping => ?_, fun b' => ?_, fun b' => ?_⟩
      · simp only [List.length_cons]
        omega
      · simpa only [target] using bounded inv.bounded
      · simpa only [target] using inv.inRange
      · -- A pool that was never published has no slot to give.
        obtain ⟨noTarget, idle, -, -⟩ := inv.unpublished (init ▸ uninit)
        have stillBounded := bounded inv.bounded
        simp only [idle, List.length_nil] at length
        omega
      · simp only [running, Bool.false_eq_true] at stopping
      · have before := inv.ledger b'
        simp only [World.inProgress] at before
        by_cases same : b = b' <;>
          simp [World.inProgress, List.count_append, List.countP_append, Obs.returnsSlot,
            Obs.leasesTo, same] <;>
          omega
      · by_cases same : b = b'
        · subst same
          simp only [List.count_append, List.count_singleton_self, if_pos started]
          omega
        · simpa [List.count_append, same] using inv.calls b'

/-! ## One lemma for each kind of step -/

theorem Inv.call {w : World} {tr : List Obs} (inv : Inv w tr) :
    Inv w.call.1 (tr ++ w.call.2) := by
  have never := inv.calls w.nextBorrower
  rw [if_neg (Nat.lt_irrefl _)] at never
  have started : Inv { w with nextBorrower := w.nextBorrower + 1 } tr :=
    { inv with calls := fun b => (inv.calls b).trans (by
        by_cases early : b < w.nextBorrower
        · rw [if_pos early, if_pos (Nat.lt_succ_of_lt early)]
        · rw [if_neg early]
          exact Nat.zero_le _) }
  unfold World.call
  dsimp only
  split
  · exact started.refuse
  split
  · rename_i available
    exact started.admitBorrower available (Nat.lt_succ_self _) (by simpa using never)
  · rw [List.append_nil]
    refine { started with calls := fun b => ?_ }
    by_cases same : w.nextBorrower = b
    · subst same
      simp only [List.count_cons_self, if_pos (Nat.lt_succ_self _)]
      omega
    · simpa [same] using started.calls b

theorem Inv.wake {w : World} {tr : List Obs} {b : Borrower} {waiting : List Borrower}
    (inv : Inv w tr) (timedOut : Bool) (chosen : w.waiting.Perm (b :: waiting)) :
    Inv ({ w with waiting := waiting }.wake b timedOut).1
      (tr ++ ({ w with waiting := waiting }.wake b timedOut).2) := by
  have calls (b' : Borrower) : tr.count (.granted b') + waiting.count b' +
      (if b = b' then 1 else 0) ≤ if b' < w.nextBorrower then 1 else 0 := by
    have before := inv.calls b'
    rw [chosen.count_eq, List.count_cons] at before
    simpa [Nat.add_assoc] using before
  have single := calls b
  rw [if_pos rfl] at single
  have started : b < w.nextBorrower := by
    by_contra none
    rw [if_neg none] at single
    omega
  have woken : Inv { w with waiting := waiting } tr :=
    { inv with calls := fun b' => Nat.le_of_add_right_le (calls b') }
  unfold World.wake
  dsimp only
  split
  · rename_i available
    rw [if_pos started] at single
    exact woken.admitBorrower available started (by dsimp only; omega)
  split
  · exact woken.refuse
  · rw [List.append_nil]
    refine { inv with calls := fun b' => ?_ }
    have before := inv.calls b'
    rwa [chosen.count_eq] at before

/-- An unlocked connector call changes no counter and gives no connection a second
holder. -/
theorem Inv.advance {w : World} {tr : List Obs} {b : Borrower} {phase next : Phase}
    {checkouts : List Checkout} {outcome : Outcome} (inv : Inv w tr)
    (chosen : w.checkouts.Perm (⟨b, phase⟩ :: checkouts))
    (moved : phase.next w.nextConnection outcome = some next) :
    Inv { w with checkouts := ⟨b, next⟩ :: checkouts,
                 nextConnection := w.nextConnection + 1 } tr := by
  have length := chosen.length_eq
  have before (c : ConnectionId) : w.held.count c = w.state.idle.count c +
      (w.leases.map Prod.snd).count c +
      (phase.holds c + (checkouts.filterMap (·.phase.connection)).count c) := by
    rw [World.count_held, (chosen.filterMap _).count_eq, count_held_checkout]
  have held (c : ConnectionId) : (World.held { w with
      checkouts := ⟨b, next⟩ :: checkouts,
      nextConnection := w.nextConnection + 1 }).count c ≤ w.held.count c ∨
      (c = w.nextConnection ∧ (World.held { w with
        checkouts := ⟨b, next⟩ :: checkouts,
        nextConnection := w.nextConnection + 1 }).count c = 1) := by
    have same := before c
    rw [World.count_held, count_held_checkout]
    rcases Phase.next_holds moved c with less | ⟨rfl, one⟩
    · left
      dsimp only
      omega
    · right
      have unused := inv.fresh _ (Nat.le_refl w.nextConnection)
      exact ⟨rfl, by dsimp only; omega⟩
  refine { inv with
    slots := inv.slots.trans ?_, exclusive := fun c => ?_, fresh := fun c old => ?_,
    unpublished := fun uninit => ?_, ledger := fun b' => ?_ }
  · simp only [length, List.length_cons]
  · rcases held c with less | ⟨-, one⟩
    · exact less.trans (inv.exclusive c)
    · exact one.le
  · dsimp only at old
    rcases held c with less | ⟨rfl, -⟩
    · exact Nat.le_zero.mp (less.trans (inv.fresh c (Nat.le_of_succ_le old)).le)
    · exact (Nat.not_succ_le_self _ old).elim
  · obtain ⟨-, -, -, empty⟩ := inv.unpublished uninit
    rw [empty] at length
    cases length
  · have before := inv.ledger b'
    simpa only [World.inProgress, (chosen.map Checkout.borrower).count_eq, List.map_cons]
      using before

theorem Inv.lease {w : World} {tr : List Obs} {b : Borrower} {c : ConnectionId}
    {checkouts : List Checkout} (inv : Inv w tr)
    (chosen : w.checkouts.Perm (⟨b, .healthy c⟩ :: checkouts)) :
    Inv { w with checkouts := checkouts, leases := (b, c) :: w.leases }
      (tr ++ [.leased b c]) := by
  have length := chosen.length_eq
  have slots := inv.slots
  have held (d : ConnectionId) : (World.held { w with
      checkouts := checkouts, leases := (b, c) :: w.leases }).count d = w.held.count d := by
    rw [World.count_held, World.count_held, (chosen.filterMap _).count_eq,
      count_held_checkout]
    simp only [Phase.holds, Phase.connection, Option.some.injEq, List.map_cons,
      List.count_cons, beq_iff_eq]
    omega
  refine { inv with
    slots := ?_, exclusive := fun d => (held d).symm ▸ inv.exclusive d,
    fresh := fun d old => (held d).trans (inv.fresh d old), unpublished := fun uninit => ?_,
    ledger := fun b' => ?_, calls := fun b' => ?_ }
  · simp only [List.length_cons] at length ⊢
    omega
  · obtain ⟨-, -, -, empty⟩ := inv.unpublished uninit
    rw [empty] at length
    cases length
  · have before := inv.ledger b'
    rw [World.inProgress, (chosen.map Checkout.borrower).count_eq] at before
    by_cases same : b = b' <;>
      simp [World.inProgress, List.count_append, List.countP_append, Obs.returnsSlot,
        Obs.leasesTo, same] at before ⊢ <;>
      omega
  · simpa [List.count_append] using inv.calls b'

theorem Inv.giveBack {w : World} {tr : List Obs} {b : Borrower} {held : Option ConnectionId}
    {error : DbError} {checkouts : List Checkout} (inv : Inv w tr)
    (chosen : w.checkouts.Perm (⟨b, .failed held error⟩ :: checkouts)) :
    Inv { w with state := w.state.giveBack, checkouts := checkouts }
      (tr ++ [.slotReturned b error]) := by
  have length := chosen.length_eq
  have slots := inv.slots
  have bounded := inv.bounded
  have inRange := inv.inRange
  rw [List.length_cons] at length
  have returned : sizeSub w.state.allocated 1 = w.state.allocated - 1 :=
    sizeSub_eq (by omega)
  have fewer (d : ConnectionId) : (World.held { w with
      state := w.state.giveBack, checkouts := checkouts }).count d ≤ w.held.count d := by
    rw [World.count_held, World.count_held, (chosen.filterMap _).count_eq,
      count_held_checkout]
    simp only [State.giveBack]
    omega
  refine { inv with
    slots := ?_, bounded := ?_, exclusive := fun d => (fewer d).trans (inv.exclusive d),
    fresh := fun d old => Nat.le_zero.mp ((fewer d).trans (inv.fresh d old).le),
    unpublished := fun uninit => ?_, ledger := fun b' => ?_, calls := fun b' => ?_ }
  · simp only [State.giveBack, returned]
    omega
  · simp only [State.giveBack, returned]
    omega
  · obtain ⟨-, -, -, empty⟩ := inv.unpublished uninit
    rw [empty] at length
    cases length
  · have before := inv.ledger b'
    rw [World.inProgress, (chosen.map Checkout.borrower).count_eq] at before
    by_cases same : b = b' <;>
      simp [World.inProgress, List.count_append, List.countP_append, Obs.returnsSlot,
        Obs.leasesTo, same] at before ⊢ <;>
      omega
  · simpa [List.count_append] using inv.calls b'

theorem Inv.release {w : World} {tr : List Obs} {b : Borrower} {c : ConnectionId}
    {leases : List (Borrower × ConnectionId)} (inv : Inv w tr)
    (chosen : w.leases.Perm ((b, c) :: leases)) :
    Inv { w with state := w.state.release c, leases := leases } (tr ++ [.released b c]) := by
  have length := chosen.length_eq
  have slots := inv.slots
  have bounded := inv.bounded
  have inRange := inv.inRange
  rw [List.length_cons] at length
  have returned : sizeSub w.state.allocated 1 = w.state.allocated - 1 :=
    sizeSub_eq (by omega)
  have before (d : ConnectionId) : w.held.count d = w.state.idle.count d +
      ((leases.map Prod.snd).count d + [c].count d) +
      (w.checkouts.filterMap (·.phase.connection)).count d := by
    rw [World.count_held, (chosen.map Prod.snd).count_eq]
    simp [List.count_cons]
  have fewer (d : ConnectionId) : (World.held { w with
      state := w.state.release c, leases := leases }).count d ≤ w.held.count d := by
    rw [World.count_held, before]
    unfold State.release
    split
    · dsimp only
      omega
    · simp only [List.count_append]
      omega
  have quiet : Inv w (tr ++ [.released b c]) :=
    inv.observe (fun _ => by simp) (fun _ => rfl) (fun _ => rfl)
  have unpublished (uninit : w.state.initialized = false) : False := by
    obtain ⟨-, -, empty, -⟩ := inv.unpublished uninit
    rw [empty] at length
    cases length
  unfold State.release at fewer ⊢
  by_cases stopping : w.state.stopping = true
  · rw [if_pos stopping] at fewer ⊢
    refine { quiet with
      slots := ?_, bounded := ?_, exclusive := fun d => (fewer d).trans (inv.exclusive d),
      fresh := fun d old => Nat.le_zero.mp ((fewer d).trans (inv.fresh d old).le),
      unpublished := fun uninit => (unpublished uninit).elim }
    · simp only [returned]
      omega
    · simp only [returned]
      omega
  · rw [if_neg stopping] at fewer ⊢
    refine { quiet with
      slots := ?_, exclusive := fun d => (fewer d).trans (inv.exclusive d),
      fresh := fun d old => Nat.le_zero.mp ((fewer d).trans (inv.fresh d old).le),
      unpublished := fun uninit => (unpublished uninit).elim,
      drained := fun stopped => (stopping stopped).elim }
    simp only [List.length_append, List.length_singleton]
    omega

theorem Inv.stop {w : World} {tr : List Obs} (inv : Inv w tr) :
    Inv { w with state := w.state.stop } (tr ++ [.stopped]) := by
  have slots := inv.slots
  have bounded := inv.bounded
  have inRange := inv.inRange
  have retired : sizeSub w.state.allocated w.state.idle.length =
      w.state.allocated - w.state.idle.length := sizeSub_eq (by omega)
  have fewer (d : ConnectionId) : (World.held { w with state := w.state.stop }).count d ≤
      w.held.count d := by
    rw [World.count_held, World.count_held]
    simp only [State.stop, List.count_nil]
    omega
  have quiet : Inv w (tr ++ [.stopped]) :=
    inv.observe (fun _ => by simp) (fun _ => rfl) (fun _ => rfl)
  refine { quiet with
    slots := ?_, bounded := ?_, exclusive := fun d => (fewer d).trans (inv.exclusive d),
    fresh := fun d old => Nat.le_zero.mp ((fewer d).trans (inv.fresh d old).le),
    unpublished := fun uninit => ?_, drained := fun _ => rfl }
  · simp only [State.stop, retired, List.length_nil]
    omega
  · simp only [State.stop, retired]
    omega
  · obtain ⟨noTarget, -, leases, checkouts⟩ := inv.unpublished uninit
    exact ⟨noTarget, rfl, leases, checkouts⟩

/-- The shared state after `init` is the old one, or a pool published whole. -/
theorem State.init_spec {s s' : State} {poolSize : UInt64} {ready : Option (List ConnectionId)}
    (published : s.init poolSize ready = .ok s') :
    s' = s ∨ (s.initialized = false ∧ s.stopping = false ∧ ∃ built, ready = some built ∧
      s' = { s with idle := built, target := poolSize.toNat, allocated := poolSize.toNat,
                    initialized := true }) := by
  unfold State.init at published
  split at published
  · cases published
    exact Or.inl rfl
  split at published
  · cases published
  rename_i uninit running
  cases ready with
  | none => cases published
  | some built =>
      cases published
      simp only [Bool.or_eq_true, not_or, Bool.not_eq_true] at running
      exact Or.inr ⟨by simpa using uninit, running.1, built, rfl, rfl⟩

theorem Inv.init {w : World} {tr : List Obs} (poolSize : UInt64) (failsAt : Option Nat)
    (inv : Inv w tr) :
    Inv (w.init poolSize failsAt).1 (tr ++ (w.init poolSize failsAt).2) := by
  unfold World.init
  dsimp only
  generalize builtObjects poolSize failsAt = built
  have named : Inv { w with nextConnection := w.nextConnection + built } tr :=
    { inv with fresh := fun c old => inv.fresh c (Nat.le_of_add_right_le old) }
  have quiet (o : Obs) (silent : o = .initialized ∨ ∃ e, o = .initFailed e) :
      Inv { w with nextConnection := w.nextConnection + built } (tr ++ [o]) := by
    rcases silent with rfl | ⟨e, rfl⟩ <;>
      exact named.observe (fun _ => by simp) (fun _ => rfl) (fun _ => rfl)
  split
  · exact quiet _ (Or.inr ⟨_, rfl⟩)
  rename_i s published
  rcases State.init_spec published with rfl | ⟨uninit, running, ready, whole, rfl⟩
  · exact quiet _ (Or.inl rfl)
  by_cases complete : built = poolSize.toNat
  · rw [if_pos complete] at whole
    cases whole
    obtain ⟨-, idle, leases, checkouts⟩ := inv.unpublished uninit
    have held (c : ConnectionId) (state : State)
        (isIdle : state.idle = List.range' w.nextConnection poolSize.toNat) :
        (World.held { w with
          nextConnection := w.nextConnection + built, state := state }).count c =
        (List.range' w.nextConnection poolSize.toNat).count c := by
      simp [World.count_held, leases, checkouts, isIdle]
    refine { quiet _ (Or.inl rfl) with
      slots := ?_, bounded := Nat.le_refl _, inRange := toNat_lt_sizeLimit poolSize,
      exclusive := fun c => ?_, fresh := fun c old => ?_,
      unpublished := fun impossible => by simp at impossible,
      drained := fun stopping => ?_ }
    · simp [leases, checkouts]
    · rw [held c _ rfl]
      exact List.nodup_iff_count_le_one.mp (List.nodup_range' ..) c
    · rw [held c _ rfl, List.count_eq_zero, List.mem_range'_1]
      rintro ⟨-, below⟩
      exact Nat.not_lt.mpr old (complete ▸ below)
    · rw [running] at stopping
      cases stopping
  · rw [if_neg complete] at whole
    cases whole

/-! ## Whole runs -/

theorem Inv.step {w w' : World} {tr out : List Obs} (inv : Inv w tr) (step : Step w out w') :
    Inv w' (tr ++ out) := by
  cases step with
  | init poolSize failsAt => exact inv.init poolSize failsAt
  | call => exact inv.call
  | wake timedOut chosen => exact inv.wake timedOut chosen
  | advance outcome chosen moved =>
      rw [List.append_nil]
      exact inv.advance chosen moved
  | lease chosen => exact inv.lease chosen
  | giveBack chosen => exact inv.giveBack chosen
  | release chosen => exact inv.release chosen
  | stop => exact inv.stop

theorem Inv.of_run {w : World} {tr : List Obs} (run : Run Step {} tr w) : Inv w tr :=
  run.invariant Inv.initial Inv.step

/-- A failing `init` publishes nothing. -/
theorem World.init_failed {w : World} {poolSize : UInt64} {failsAt : Option Nat} {e : DbError}
    (failed : (w.init poolSize failsAt).2 = [.initFailed e]) :
    (w.init poolSize failsAt).1.state = w.state ∧ w.state.initialized = false := by
  unfold World.init at failed ⊢
  dsimp only at failed ⊢
  split at failed
  · rename_i e' raised
    refine ⟨rfl, ?_⟩
    unfold State.init at raised
    split at raised
    · cases raised
    · rename_i uninit
      simpa using uninit
  · cases failed

/-- Nothing resets `stopping`. -/
theorem Step.stopping {w w' : World} {out : List Obs} (step : Step w out w')
    (stopping : w.state.stopping = true) : w'.state.stopping = true := by
  cases step with
  | init poolSize failsAt =>
      unfold World.init
      dsimp only
      split
      · exact stopping
      · rename_i published
        rcases State.init_spec published with rfl | ⟨-, running, -⟩
        · exact stopping
        · rw [running] at stopping
          cases stopping
  | call => simp [World.call, stopping]
  | wake => simp [World.wake, World.admitBorrower, State.available, State.checkout, stopping]
  | advance | lease => exact stopping
  | giveBack => exact stopping
  | release => simp [State.release, stopping]
  | stop => rfl

theorem Run.stopping {w w' : World} {tr : List Obs} (run : Run Step w tr w')
    (stopping : w.state.stopping = true) : w'.state.stopping = true :=
  run.invariant (I := fun s _ => s.state.stopping = true) stopping fun still step =>
    step.stopping still

/-- In every run of the pool: `allocated` counts the idle connections, the leases and the
checkouts in progress and stays within `target`, far below the range of `size_t`; no
connection has two holders; a call that was granted a slot ends at most once, with a lease
or by giving the slot back; an `init` that fails leaves an uninitialized pool without
connections; and from the moment the pool is stopping nothing is idle, so `allocated` is
zero when the last lease and the last checkout have ended. -/
theorem pool_accounting {w : World} {tr : List Obs} (run : Run Step {} tr w) :
    (w.state.allocated = w.state.idle.length + w.leases.length + w.checkouts.length ∧
      w.state.allocated ≤ w.state.target ∧ w.state.target < sizeLimit) ∧
    w.held.Nodup ∧
    (∀ b, tr.countP (Obs.returnsSlot b) + tr.countP (Obs.leasesTo b) + w.inProgress b =
      tr.count (.granted b) ∧ tr.count (.granted b) ≤ 1) ∧
    (∀ poolSize failsAt e, (w.init poolSize failsAt).2 = [.initFailed e] →
      (w.init poolSize failsAt).1.state.initialized = false ∧
      (w.init poolSize failsAt).1.state.idle = []) ∧
    (w.state.stopping = true → ∀ tr' w', Run Step w tr' w' → w'.state.idle = [] ∧
      (w'.leases = [] → w'.checkouts = [] → w'.state.allocated = 0)) := by
  have inv := Inv.of_run run
  refine ⟨⟨inv.slots, inv.bounded, inv.inRange⟩,
    List.nodup_iff_count_le_one.mpr inv.exclusive, fun b => ⟨(inv.ledger b).symm, ?_⟩,
    fun poolSize failsAt e failed => ?_, fun stopping tr' w' later => ?_⟩
  · have calls := inv.calls b
    split at calls <;> omega
  · obtain ⟨unchanged, uninit⟩ := World.init_failed failed
    rw [unchanged]
    exact ⟨uninit, (inv.unpublished uninit).2.1⟩
  · have invLater := Inv.of_run (run.trans later)
    have idle := invLater.drained (Run.stopping later stopping)
    refine ⟨idle, fun leases checkouts => ?_⟩
    rw [invLater.slots, idle, leases, checkouts]
    rfl

/-- A lease that outlives its pool gives its slot back on release. -/
theorem pool_accounting_late_release :
    ∃ w, Run Step {} [.initialized, .granted 0, .leased 0 0, .stopped, .released 0 0] w ∧
      w.state.stopping = true ∧ w.state.allocated = 0 := by
  have published : Run Step {} [.initialized]
      ⟨⟨[0], 1, 1, true, false⟩, [], [], [], 0, 1⟩ := .single (.init 1 none)
  have granted : Run Step {} [.initialized, .granted 0]
      ⟨⟨[], 1, 1, true, false⟩, [], [⟨0, .pinging 0⟩], [], 1, 1⟩ := .tail published .call
  have checked : Run Step {} [.initialized, .granted 0]
      ⟨⟨[], 1, 1, true, false⟩, [], [⟨0, .healthy 0⟩], [], 1, 2⟩ :=
    .tail granted (.advance .succeeds (.refl _) rfl)
  have leased : Run Step {} [.initialized, .granted 0, .leased 0 0]
      ⟨⟨[], 1, 1, true, false⟩, [], [], [(0, 0)], 1, 2⟩ := .tail checked (.lease (.refl _))
  have stopped : Run Step {} [.initialized, .granted 0, .leased 0 0, .stopped]
      ⟨⟨[], 1, 1, true, true⟩, [], [], [(0, 0)], 1, 2⟩ := .tail leased .stop
  have released : Run Step {}
      [.initialized, .granted 0, .leased 0 0, .stopped, .released 0 0]
      ⟨⟨[], 1, 0, true, true⟩, [], [], [], 1, 2⟩ := .tail stopped (.release (.refl _))
  exact ⟨_, released, rfl, ((pool_accounting released).2.2.2.2 rfl _ _ .refl).2 rfl rfl⟩

end AIService.Db
