import Mathlib.Data.List.Nodup
import Soteria.Foundation.Threads

/-
  Threads that read a shared state in two turns, compute
  what to write and write it in a third.

  Nothing keeps a thread from writing between the reads and
  the write of another. If every write leaves the others with
  what they would read again, the threads that have written
  could have run one after the other.

  Key definitions include:
    * `Threads.Update`, `Threads.Update.run`
    * `Threads.Updater`, `Threads.Updater.next`
    * `Threads.Updater.Fresh`, `Threads.LeavesFresh`
    * `Threads.serial_of_fresh`
-/

------------------------------------------------------------
-- Updates
------------------------------------------------------------

namespace Threads

variable {σ α β γ : Type}

/- What a thread reads, computes and writes. -/
structure Update (σ α β γ : Type) where
  readFirst : σ → Option α
  readSecond : σ → Option β
  compute : α → β → Option γ
  write : γ → σ → Option σ

/- The update with nothing in between, if it succeeds. -/
def Update.run (u : Update σ α β γ) (s : σ) : Option σ :=
  match u.readFirst s, u.readSecond s with
  | some a, some b =>
      (u.compute a b).bind fun c => u.write c s
  | _, _ => none

/- Where a thread is, and whether it has written. -/
inductive Turn (α γ : Type) where
  | first
  | second (a : α)
  | writing (c : γ)
  | ended (written : Bool)

structure Updater (σ α β γ : Type) where
  update : Update σ α β γ
  turn : Turn α γ

namespace Updater

/- The thread with its update, at another turn. -/
def moveTo (t : Updater σ α β γ) (turn : Turn α γ) :
    Updater σ α β γ :=
  { t with turn := turn }

/- The thread's next turn; where one fails it ends. -/
def next (s : σ) (t : Updater σ α β γ) :
    σ × Updater σ α β γ :=
  match t.turn with
  | .first =>
      match t.update.readFirst s with
      | none => (s, t.moveTo (.ended false))
      | some a => (s, t.moveTo (.second a))
  | .second a =>
      match t.update.readSecond s with
      | none => (s, t.moveTo (.ended false))
      | some b =>
          match t.update.compute a b with
          | none => (s, t.moveTo (.ended false))
          | some c => (s, t.moveTo (.writing c))
  | .writing c =>
      match t.update.write c s with
      | none => (s, t.moveTo (.ended false))
      | some s' => (s', t.moveTo (.ended true))
  | .ended _ => (s, t)

/-
  Reading again, the thread would compute the same. Between
  its reads this is about whatever it will read second.
-/
def Fresh (s : σ) (t : Updater σ α β γ) : Prop :=
  match t.turn with
  | .second a =>
      ∃ a', t.update.readFirst s = some a' ∧
        ∀ b, t.update.readSecond s = some b →
          t.update.compute a b = t.update.compute a' b
  | .writing c =>
      ∃ a b,
        t.update.readFirst s = some a ∧
          t.update.readSecond s = some b ∧
            t.update.compute a b = some c
  | _ => True

@[simp] theorem moveTo_turn
    (t : Updater σ α β γ)
    (turn : Turn α γ) :
    (t.moveTo turn).turn = turn := rfl

@[simp] theorem moveTo_update
    (t : Updater σ α β γ)
    (turn : Turn α γ) :
    (t.moveTo turn).update = t.update := rfl

/-
  A turn leaves the state and does not write, or the thread
  was about to write and has.
-/
theorem next_cases (s : σ) (t : Updater σ α β γ) :
    (∃ turn, t.next s = (s, t.moveTo turn) ∧
        (turn = .ended true ↔ t.turn = .ended true) ∧
          (t.Fresh s → (t.moveTo turn).Fresh s)) ∨
      ∃ c s', t.turn = .writing c ∧
        t.update.write c s = some s' ∧
          t.next s = (s', t.moveTo (.ended true)) := by
  rcases t with ⟨u, turn⟩
  cases turn with
  | first =>
      left
      cases hRead : u.readFirst s with
      | none =>
          exact ⟨.ended false, by simp [next, hRead], by simp,
            fun _ => trivial⟩
      | some a =>
          exact ⟨.second a, by simp [next, hRead], by simp,
            fun _ => ⟨a, hRead, fun _ _ => rfl⟩⟩
  | second a =>
      left
      cases hRead : u.readSecond s with
      | none =>
          exact ⟨.ended false, by simp [next, hRead], by simp,
            fun _ => trivial⟩
      | some b =>
          cases hCompute : u.compute a b with
          | none =>
              exact ⟨.ended false,
                by simp [next, hRead, hCompute], by simp,
                fun _ => trivial⟩
          | some c =>
              refine ⟨.writing c,
                by simp [next, hRead, hCompute], by simp, ?_⟩
              rintro ⟨a', hFirst, hSame⟩
              exact ⟨a', b, hFirst, hRead,
                (hSame b hRead).symm.trans hCompute⟩
  | writing c =>
      cases hWrite : u.write c s with
      | none =>
          left
          exact ⟨.ended false, by simp [next, hWrite], by simp,
            fun _ => trivial⟩
      | some s' =>
          right
          exact ⟨c, s', rfl, hWrite, by simp [next, hWrite]⟩
  | ended written =>
      left
      exact ⟨.ended written, rfl, Iff.rfl, fun _ => trivial⟩

@[simp] theorem next_update (s : σ) (t : Updater σ α β γ) :
    (t.next s).2.update = t.update := by
  rcases next_cases s t with
    ⟨turn, hNext, _⟩ | ⟨c, s', _, _, hNext⟩
  · rw [hNext]
    rfl
  · rw [hNext]
    rfl

/- A thread that writes what it has read ran its update. -/
theorem Fresh.run
    {s s' : σ}
    {t : Updater σ α β γ}
    {c : γ}
    (hFresh : t.Fresh s)
    (hTurn : t.turn = .writing c)
    (hWrite : t.update.write c s = some s') :
    t.update.run s = some s' := by
  unfold Fresh at hFresh
  rw [hTurn] at hFresh
  rcases hFresh with ⟨a, b, hFirst, hSecond, hCompute⟩
  simp only [Update.run, hFirst, hSecond, hCompute,
    Option.bind_some, hWrite]

end Updater

end Threads

------------------------------------------------------------
-- Serial Runs
------------------------------------------------------------

namespace Threads

variable {σ α β γ : Type}

abbrev Updaters (σ α β γ : Type) :=
  Pool σ (Updater σ α β γ)

/- A thread about to write will leave the others fresh. -/
def LeavesFresh (p : Updaters σ α β γ) (i : Nat) : Prop :=
  ∀ c s',
    (p.threads i).turn = .writing c →
      (p.threads i).update.write c p.shared = some s' →
        ∀ j, j ≠ i → (p.threads j).Fresh s'

/- Updates one after the other. -/
def runInOrder (updates : Nat → Update σ α β γ) :
    List Nat → σ → Option σ
| [], s => some s
| i :: rest, s => (updates i).run s >>= runInOrder updates rest

theorem runInOrder_concat
    (updates : Nat → Update σ α β γ)
    (order : List Nat)
    (i : Nat)
    (s : σ) :
    runInOrder updates (order ++ [i]) s =
      (runInOrder updates order s) >>= (updates i).run := by
  induction order generalizing s with
  | nil =>
      show (updates i).run s >>= some = (updates i).run s
      cases (updates i).run s <;> rfl
  | cons j rest ih =>
      show (updates j).run s >>= _ = _
      cases hRun : (updates j).run s with
      | none => simp [runInOrder, hRun]
      | some s' =>
          simp only [runInOrder, hRun, Option.bind_eq_bind,
            Option.bind_some]
          exact ih s'

/-
  The threads that have written are those of an order in
  which their updates lead to the state.
-/
def SerialIn
    (updates : Nat → Update σ α β γ)
    (start : σ)
    (p : Updaters σ α β γ)
    (order : List Nat) : Prop :=
  order.Nodup ∧
    (∀ i, i ∈ order ↔ (p.threads i).turn = .ended true) ∧
      runInOrder updates order start = some p.shared

/- What a run keeps: an order, and fresh threads. -/
def Serial
    (updates : Nat → Update σ α β γ)
    (start : σ)
    (p : Updaters σ α β γ) : Prop :=
  (∃ order, SerialIn updates start p order) ∧
    ∀ i, (p.threads i).update = updates i ∧
      (p.threads i).Fresh p.shared

theorem serial_advance
    {updates : Nat → Update σ α β γ}
    {start : σ}
    {p : Updaters σ α β γ}
    {i : Nat}
    (hSerial : Serial updates start p)
    (hLeaves : LeavesFresh p i) :
    Serial updates start (p.advance Updater.next i) := by
  rcases hSerial with
    ⟨⟨order, hNodup, hWritten, hRun⟩, hThreads⟩
  have hOther :
      ∀ j, j ≠ i →
        (p.advance Updater.next i).threads j =
          p.threads j :=
    fun j hNe => Pool.advance_of_ne p hNe
  have hUpdates :
      ∀ j, ((p.advance Updater.next i).threads j).update =
        updates j := by
    intro j
    by_cases hSelf : j = i
    · subst hSelf
      rw [Pool.advance_self, Updater.next_update]
      exact (hThreads j).1
    · rw [hOther j hSelf]
      exact (hThreads j).1
  have hEach :
      ∀ s,
        (p.advance Updater.next i).shared = s →
          ((p.advance Updater.next i).threads i).Fresh s →
            (∀ j, j ≠ i → (p.threads j).Fresh s) →
              ∀ j,
                ((p.advance Updater.next i).threads
                    j).update = updates j ∧
                  ((p.advance Updater.next i).threads j).Fresh
                    (p.advance Updater.next i).shared := by
    intro s hShared hOwn hOthers j
    refine ⟨hUpdates j, ?_⟩
    rw [hShared]
    by_cases hSelf : j = i
    · subst hSelf
      exact hOwn
    · rw [hOther j hSelf]
      exact hOthers j hSelf
  rcases Updater.next_cases p.shared (p.threads i) with
    ⟨turn, hNext, hSame, hKeeps⟩ |
      ⟨c, s', hTurn, hWrite, hNext⟩
  · have hShared :
        (p.advance Updater.next i).shared = p.shared := by
      rw [Pool.advance_shared, hNext]
    refine ⟨⟨order, hNodup, fun j => ?_, ?_⟩,
      hEach p.shared hShared ?_ fun j _ => (hThreads j).2⟩
    · by_cases hSelf : j = i
      · subst hSelf
        rw [Pool.advance_self, hNext, hWritten]
        exact hSame.symm
      · rw [hOther j hSelf]
        exact hWritten j
    · rw [hShared]
      exact hRun
    · rw [Pool.advance_self, hNext]
      exact hKeeps (hThreads i).2
  · have hShared :
        (p.advance Updater.next i).shared = s' := by
      rw [Pool.advance_shared, hNext]
    have hNew : i ∉ order := by
      rw [hWritten, hTurn]
      simp
    refine ⟨⟨order ++ [i], ?_, fun j => ?_, ?_⟩,
      hEach s' hShared ?_ (hLeaves c s' hTurn hWrite)⟩
    · rw [← List.concat_eq_append]
      exact (List.nodup_concat order i).mpr ⟨hNew, hNodup⟩
    · by_cases hSelf : j = i
      · subst hSelf
        rw [Pool.advance_self, hNext]
        simp
      · rw [hOther j hSelf, ← hWritten j]
        simp [hSelf]
    · have hOwn := (hThreads i).2.run hTurn hWrite
      rw [(hThreads i).1] at hOwn
      rw [runInOrder_concat, hRun, hShared]
      exact hOwn
    · rw [Pool.advance_self, hNext]
      trivial

/-
  In every run whose writes leave the other threads fresh,
  those that have written could have run one by one.
-/
theorem serial_of_fresh
    {updates : Nat → Update σ α β γ}
    {start : Updaters σ α β γ}
    {schedule : List Nat}
    (hUpdates : ∀ i, (start.threads i).update = updates i)
    (hTurns : ∀ i, (start.threads i).turn = .first ∨
      (start.threads i).turn = .ended false)
    (hLeaves :
      Transition.Along (Pool.advance Updater.next)
        LeavesFresh start schedule) :
    ∃ order,
      SerialIn updates start.shared
        (schedule.foldl (Pool.advance Updater.next) start)
        order := by
  have hStart : Serial updates start.shared start := by
    refine ⟨⟨[], List.nodup_nil, fun i => ?_, rfl⟩,
      fun i => ⟨hUpdates i, ?_⟩⟩
    · rcases hTurns i with hTurn | hTurn
      · simp [hTurn]
      · simp [hTurn]
    · unfold Updater.Fresh
      rcases hTurns i with hTurn | hTurn
      · rw [hTurn]
        trivial
      · rw [hTurn]
        trivial
  have hEnd :
      Serial updates start.shared
        (schedule.foldl (Pool.advance Updater.next) start) :=
    Transition.Along.final
      (fun _ _ hBefore hStep => serial_advance hBefore hStep)
      hStart hLeaves
  exact hEnd.1

/- A thread that has ended stays as it is. -/
theorem ended_of_schedule
    {p : Updaters σ α β γ}
    {i : Nat}
    {written : Bool}
    (hEnded : (p.threads i).turn = .ended written)
    (schedule : List Nat) :
    ((schedule.foldl (Pool.advance Updater.next) p).threads
      i).turn = .ended written := by
  induction schedule generalizing p with
  | nil => exact hEnded
  | cons j rest ih =>
      refine ih ?_
      by_cases hSelf : i = j
      · subst hSelf
        rw [Pool.advance_self, Updater.next, hEnded]
        exact hEnded
      · rw [Pool.advance_of_ne p hSelf]
        exact hEnded

/-
  A thread that writes what it computed before the update of
  another leaves only its own.
-/
theorem stale_write
    {p : Updaters σ α β γ}
    {i j : Nat}
    (hNe : i ≠ j)
    {a a' : α}
    {b b' : β}
    {c c' : γ}
    {s s' : σ}
    (hTurn : (p.threads i).turn = .first)
    (hOther : (p.threads j).turn = .first)
    (hReads :
      (p.threads i).update.readFirst p.shared = some a ∧
        (p.threads i).update.readSecond p.shared = some b ∧
          (p.threads i).update.compute a b = some c)
    (hOtherReads :
      (p.threads j).update.readFirst p.shared = some a' ∧
        (p.threads j).update.readSecond p.shared = some b' ∧
          (p.threads j).update.compute a' b' = some c')
    (hOtherWrite :
      (p.threads j).update.write c' p.shared = some s)
    (hWrite : (p.threads i).update.write c s = some s') :
    ([i, i, j, j, j, i].foldl (Pool.advance Updater.next)
        p).shared = s' ∧
      (([i, i, j, j, j, i].foldl (Pool.advance Updater.next)
          p).threads i).turn = .ended true ∧
        (([i, i, j, j, j, i].foldl
            (Pool.advance Updater.next) p).threads
          j).turn = .ended true := by
  simp [Pool.advance, Updater.next, Updater.moveTo, hNe,
    hNe.symm, hTurn, hOther, hReads, hOtherReads, hOtherWrite,
    hWrite]

/- The thread has not started, or it has ended. -/
def Updater.Idle (t : Updater σ α β γ) : Prop :=
  t.turn = .first ∨ ∃ written, t.turn = .ended written

theorem Updater.Idle.fresh
    {t : Updater σ α β γ}
    (hIdle : t.Idle)
    (s : σ) :
    t.Fresh s := by
  unfold Updater.Fresh
  rcases hIdle with hTurn | ⟨written, hTurn⟩
  · rw [hTurn]
    trivial
  · rw [hTurn]
    trivial

/- Three turns are enough for a thread to end. -/
theorem ended_after_turns
    {p : Updaters σ α β γ}
    {i : Nat}
    (hTurn : (p.threads i).turn = .first) :
    (([i, i, i].foldl (Pool.advance Updater.next) p).threads
      i).Idle := by
  refine Or.inr ?_
  cases hFirst : (p.threads i).update.readFirst p.shared with
  | none =>
      refine ⟨false, ?_⟩
      simp [Pool.advance, Updater.next, Updater.moveTo, hTurn,
        hFirst]
  | some a =>
      cases hSecond :
          (p.threads i).update.readSecond p.shared with
      | none =>
          refine ⟨false, ?_⟩
          simp [Pool.advance, Updater.next, Updater.moveTo,
            hTurn, hFirst, hSecond]
      | some b =>
          cases hCompute : (p.threads i).update.compute a b with
          | none =>
              refine ⟨false, ?_⟩
              simp [Pool.advance, Updater.next, Updater.moveTo,
                hTurn, hFirst, hSecond, hCompute]
          | some c =>
              cases hWrite :
                  (p.threads i).update.write c p.shared with
              | none =>
                  refine ⟨false, ?_⟩
                  simp [Pool.advance, Updater.next,
                    Updater.moveTo, hTurn, hFirst, hSecond,
                    hCompute, hWrite]
              | some s =>
                  refine ⟨true, ?_⟩
                  simp [Pool.advance, Updater.next,
                    Updater.moveTo, hTurn, hFirst, hSecond,
                    hCompute, hWrite]

/- A thread that runs alone leaves the others fresh. -/
theorem leavesFresh_alone
    {p : Updaters σ α β γ}
    {i : Nat}
    (hOthers : ∀ j, j ≠ i → (p.threads j).Idle) :
    Transition.Along (Pool.advance Updater.next) LeavesFresh p
      [i, i, i] := by
  have hLeaves :
      ∀ q : Updaters σ α β γ,
        (∀ j, j ≠ i → q.threads j = p.threads j) →
          LeavesFresh q i := by
    intro q hSame c s' _ _ j hNe
    rw [hSame j hNe]
    exact (hOthers j hNe).fresh s'
  refine ⟨hLeaves p fun j _ => rfl, ?_, ?_, trivial⟩
  · exact hLeaves _ fun j hNe => Pool.advance_of_ne p hNe
  · refine hLeaves _ fun j hNe => ?_
    rw [Pool.advance_of_ne _ hNe, Pool.advance_of_ne p hNe]

/- Two threads that run one after the other do, too. -/
theorem leavesFresh_one_by_one
    {p : Updaters σ α β γ}
    {i j : Nat}
    (hTurn : (p.threads i).turn = .first)
    (hOthers : ∀ k, (p.threads k).Idle) :
    Transition.Along (Pool.advance Updater.next) LeavesFresh p
      ([i, i, i] ++ [j, j, j]) := by
  rcases leavesFresh_alone (p := p) (i := i)
      fun k _ => hOthers k with
    ⟨hOne, hTwo, hThree, -⟩
  refine ⟨hOne, hTwo, hThree, ?_⟩
  refine leavesFresh_alone fun k hOther => ?_
  by_cases hSelf : k = i
  · subst hSelf
    exact ended_after_turns hTurn
  · rw [Pool.advance_of_ne _ hSelf, Pool.advance_of_ne _ hSelf,
      Pool.advance_of_ne _ hSelf]
    exact hOthers k

end Threads
