import WebTSan.Execution
import Mathlib.Logic.Function.Basic
import Mathlib.Logic.Relation
import Mathlib.Order.WellFounded

/-!
# Locks that are taken in an order

Threads run programs that take locks, each for the extent of a scope. A lock has at most one owner,
and a thread that comes to a lock with an owner waits. If there is a rank of locks such that every
program takes a lock only while all locks that it holds are of smaller rank, then no thread ever
comes to a lock that it holds, no threads wait for each other in a circle, and, if ranks do not grow
for ever, some thread can go on as long as not all threads are done.

## Main definitions

* `WebTSan.LockProgram`, `WebTSan.LockStack`, `WebTSan.LockState.exec`, `WebTSan.LockRun`.
* `WebTSan.LockProgram.Ordered`: a program takes its locks in the order of a rank.
* `WebTSan.LockState.WaitsFor`: a thread waits for a lock that another one holds.
* `WebTSan.LockState.Disciplined`: the invariant.

## Main results

* `WebTSan.LockState.Disciplined.exec`, `WebTSan.LockRun.disciplined`: every step keeps the
  invariant, so that it holds in every state of a run.
* `WebTSan.LockState.Disciplined.owner_ne`, `WebTSan.LockState.Disciplined.not_transGen_waitsFor`.
* `WebTSan.LockState.Disciplined.exists_exec`: some thread can go on.
-/

namespace WebTSan

variable {T L α : Type*}

/-- A program, of which only the locks are seen. -/
inductive LockProgram (L : Type*)
  | skip
  | seq (p q : LockProgram L)
  /-- Go on with one of the programs. -/
  | branch (f : ℕ → LockProgram L)
  /-- Hold a lock for the extent of a program. -/
  | lock (l : L) (p : LockProgram L)

/-- What a thread has still to do: run a program, or leave the scope of a lock. -/
inductive LockFrame (L : Type*)
  | run (p : LockProgram L)
  | unlock (l : L)

/-- All that a thread has still to do, the next thing first. -/
abbrev LockStack (L : Type*) := List (LockFrame L)

namespace LockProgram

/-- Go on with one of two programs. -/
def choice (p q : LockProgram L) : LockProgram L := .branch fun n ↦ if n = 0 then p else q

/-- Started with the locks in `held`, the program takes every lock while all locks that it holds are
of smaller rank. -/
def Ordered [LT α] (rank : L → α) : LockProgram L → (held : List L) → Prop
  | .skip, _ => True
  | .seq p q, held => p.Ordered rank held ∧ q.Ordered rank held
  | .branch f, held => ∀ n, (f n).Ordered rank held
  | .lock l p, held => (∀ h ∈ held, rank h < rank l) ∧ p.Ordered rank (l :: held)

section Ordered

variable [LT α] {rank : L → α} {p q : LockProgram L} {held held' : List L}

@[simp] theorem ordered_skip : (skip : LockProgram L).Ordered rank held := trivial

@[simp] theorem ordered_seq :
    (seq p q).Ordered rank held ↔ p.Ordered rank held ∧ q.Ordered rank held := Iff.rfl

@[simp] theorem ordered_branch {f : ℕ → LockProgram L} :
    (branch f).Ordered rank held ↔ ∀ n, (f n).Ordered rank held := Iff.rfl

@[simp] theorem ordered_lock {l : L} : (lock l p).Ordered rank held ↔
    (∀ h ∈ held, rank h < rank l) ∧ p.Ordered rank (l :: held) := Iff.rfl

@[simp] theorem ordered_choice :
    (choice p q).Ordered rank held ↔ p.Ordered rank held ∧ q.Ordered rank held := by
  constructor
  · exact fun h ↦ ⟨h 0, h 1⟩
  · rintro ⟨hp, hq⟩ n
    cases n with
    | zero => exact hp
    | succ n => exact hq

theorem ordered_ite {c : Prop} [Decidable c] : (if c then p else q).Ordered rank held ↔
    (c → p.Ordered rank held) ∧ (¬c → q.Ordered rank held) := by
  split_ifs with h <;> simp [h]

/-- A program that is ordered under some locks is so under fewer of them. -/
theorem Ordered.mono (h : p.Ordered rank held) (hsub : held' ⊆ held) : p.Ordered rank held' := by
  induction p generalizing held held' with
  | skip => trivial
  | seq p q ihp ihq => exact ⟨ihp h.1 hsub, ihq h.2 hsub⟩
  | branch f ih => exact fun n ↦ ih n (h n) hsub
  | lock l p ih => exact ⟨fun l' hl' ↦ h.1 l' (hsub hl'), ih h.2 (List.cons_subset_cons l hsub)⟩

end Ordered

end LockProgram

namespace LockStack

/-- The locks in whose scopes a thread is, the innermost one first. -/
def held : LockStack L → List L
  | [] => []
  | .run _ :: k => held k
  | .unlock l :: k => l :: held k

/-- All that a thread has still to do takes locks in the order of the rank. -/
def Ordered [LT α] (rank : L → α) : LockStack L → Prop
  | [] => True
  | .run p :: k => p.Ordered rank (held k) ∧ Ordered rank k
  | .unlock l :: k => (∀ h ∈ held k, rank h < rank l) ∧ Ordered rank k

end LockStack

/-- What every thread has still to do, and who holds each lock. -/
structure LockState (T L : Type*) where
  threads : T → LockStack L
  owner : L → Option T

namespace LockState

section Definitions

/-- Every thread is about to run its program. -/
def initial (program : T → LockProgram L) : LockState T L :=
  { threads := fun t ↦ [.run (program t)]
    owner := fun _ ↦ none }

variable (s : LockState T L)

/-- The next thing that a thread has to do is to take a lock. -/
def Tries (t : T) (l : L) : Prop := ∃ p k, s.threads t = .run (.lock l p) :: k

/-- A thread has come to a lock that `u` holds. -/
def WaitsFor (t u : T) : Prop := ∃ l, s.Tries t l ∧ s.owner l = some u

/-- The owner of a lock is the thread in whose scope it is, and all threads have still to take locks
in the order of the rank. -/
structure Disciplined [LT α] (rank : L → α) : Prop where
  owner_iff (l : L) (t : T) : s.owner l = some t ↔ l ∈ (s.threads t).held
  ordered (t : T) : (s.threads t).Ordered rank

def setOwner [DecidableEq L] (l : L) (o : Option T) : LockState T L :=
  { s with owner := Function.update s.owner l o }

/-- A thread has come to `k`. -/
def advance [DecidableEq T] (t : T) (k : LockStack L) : LockState T L :=
  { s with threads := Function.update s.threads t k }

/-- Thread `o.1` makes a step, and takes the branch `o.2` if it comes to one. A thread that is done
makes no step, and neither does one that comes to a lock with an owner, even if it is itself. -/
def exec [DecidableEq T] [DecidableEq L] (s : LockState T L) (o : T × ℕ) :
    Option (LockState T L) :=
  match s.threads o.1 with
  | [] => none
  | .run .skip :: k => some (s.advance o.1 k)
  | .run (.seq p q) :: k => some (s.advance o.1 (.run p :: .run q :: k))
  | .run (.branch f) :: k => some (s.advance o.1 (.run (f o.2) :: k))
  | .run (.lock l p) :: k =>
    if s.owner l = none then
      some ((s.advance o.1 (.run p :: .unlock l :: k)).setOwner l (some o.1))
    else none
  | .unlock l :: k => some ((s.advance o.1 k).setOwner l none)

end Definitions

end LockState

open Relation

namespace LockStack

variable [Preorder α] {rank : L → α} {p : LockProgram L} {k : LockStack L} {l : L}

@[simp] theorem held_nil : held ([] : LockStack L) = [] := rfl

@[simp] theorem held_run : held (.run p :: k) = held k := rfl

@[simp] theorem held_unlock : held (.unlock l :: k) = l :: held k := rfl

theorem Ordered.notMem_held (h : Ordered rank (.unlock l :: k)) : l ∉ held k := fun hl ↦
  lt_irrefl _ (h.1 l hl)

end LockStack

namespace LockState

variable {s s' : LockState T L} {t u : T} {l l' : L} {k : LockStack L} {p : LockProgram L}

theorem Tries.unique (h : s.Tries t l) (h' : s.Tries t l') : l = l' := by
  obtain ⟨p, k, hk⟩ := h
  obtain ⟨p', k', hk'⟩ := h'
  cases hk.symm.trans hk'
  rfl

namespace Disciplined

variable [Preorder α] {rank : L → α}

/-- In the first state, no lock has an owner. -/
theorem initial {program : T → LockProgram L} (h : ∀ t, (program t).Ordered rank []) :
    (LockState.initial program).Disciplined rank where
  owner_iff _ _ := iff_of_false nofun nofun
  ordered t := ⟨h t, trivial⟩

/-- A thread comes to a lock only while all locks that it holds are of smaller rank. -/
theorem rank_lt (h : s.Disciplined rank) (ht : s.Tries t l) (howner : s.owner l' = some t) :
    rank l' < rank l := by
  obtain ⟨p, k, hk⟩ := ht
  have hordered := h.ordered t
  have hheld := (h.owner_iff l' t).mp howner
  rw [hk] at hordered hheld
  exact hordered.1.1 l' hheld

/-- No thread comes to a lock that it holds. -/
theorem owner_ne (h : s.Disciplined rank) (ht : s.Tries t l) : s.owner l ≠ some t := fun howner ↦
  lt_irrefl _ (h.rank_lt ht howner)

/-- The ranks of the locks that threads wait for grow from each thread to the one it waits for. -/
theorem rank_lt_of_transGen (h : s.Disciplined rank) (hw : TransGen s.WaitsFor t u)
    (ht : s.Tries t l) (hu : s.Tries u l') : rank l < rank l' := by
  induction hw generalizing l' with
  | single hw =>
    obtain ⟨l₁, ht₁, howner⟩ := hw
    rw [ht.unique ht₁]
    exact h.rank_lt hu howner
  | tail _ hw ih =>
    obtain ⟨l₁, ht₁, howner⟩ := hw
    exact (ih ht₁).trans (h.rank_lt hu howner)

/-- No threads wait for each other in a circle. -/
theorem not_transGen_waitsFor (h : s.Disciplined rank) (t : T) : ¬TransGen s.WaitsFor t t := by
  intro hw
  obtain ⟨u, ⟨l, ht, -⟩, -⟩ := TransGen.head'_iff.mp hw
  exact lt_irrefl _ (h.rank_lt_of_transGen hw ht ht)

end Disciplined

@[simp] theorem setOwner_self [DecidableEq L] {o : Option T} : (s.setOwner l o).owner l = o :=
  Function.update_self ..

@[simp] theorem setOwner_of_ne [DecidableEq L] (h : l' ≠ l) {o : Option T} :
    (s.setOwner l o).owner l' = s.owner l' := Function.update_of_ne h ..

section Steps

variable [DecidableEq T]

@[simp] theorem advance_owner : (s.advance t k).owner = s.owner := rfl

/-- One thread goes on, and enters or leaves scopes, but no other one does. -/
theorem Disciplined.update [Preorder α] {rank : L → α} (h : s.Disciplined rank)
    (hthreads : s'.threads = Function.update s.threads t k) (hk : k.Ordered rank)
    (hown : ∀ l, s'.owner l = some t ↔ l ∈ k.held)
    (hothers : ∀ l u, u ≠ t → (s'.owner l = some u ↔ s.owner l = some u)) :
    s'.Disciplined rank where
  owner_iff l u := by
    rw [hthreads]
    by_cases hu : u = t
    · subst hu
      rw [Function.update_self]
      exact hown l
    · rw [Function.update_of_ne hu, hothers l u hu]
      exact h.owner_iff l u
  ordered u := by
    rw [hthreads]
    by_cases hu : u = t
    · subst hu
      rwa [Function.update_self]
    · rw [Function.update_of_ne hu]
      exact h.ordered u

/-- A step that enters and leaves no scope. -/
theorem Disciplined.advance [Preorder α] {rank : L → α} (h : s.Disciplined rank)
    (hheld : k.held = (s.threads t).held) (hk : k.Ordered rank) :
    (s.advance t k).Disciplined rank :=
  h.update rfl hk (fun l ↦ hheld ▸ h.owner_iff l t) fun _ _ _ ↦ Iff.rfl

variable [DecidableEq L]

/-- A thread that is not done and does not wait can go on. -/
theorem exec_isSome (hk : s.threads t ≠ []) (hfree : ∀ l, s.Tries t l → s.owner l = none) (n : ℕ) :
    (s.exec (t, n)).isSome = true := by
  unfold exec
  dsimp only
  split
  case h_1 hnil => exact absurd hnil hk
  case h_5 l p k hlock =>
    rw [if_pos (hfree l ⟨p, k, hlock⟩)]
    rfl
  all_goals rfl

namespace Disciplined

variable [Preorder α] {rank : L → α}

/-- A step that takes a free lock. -/
theorem take (h : s.Disciplined rank) (hthread : s.threads t = .run (.lock l p) :: k)
    (hfree : s.owner l = none) :
    ((s.advance t (.run p :: .unlock l :: k)).setOwner l (some t)).Disciplined rank := by
  have hordered := h.ordered t
  rw [hthread] at hordered
  refine h.update rfl ⟨hordered.1.2, hordered.1.1, hordered.2⟩ (fun l' ↦ ?_) fun l' u hu ↦ ?_
  · by_cases hl : l' = l
    · subst hl
      exact iff_of_true setOwner_self List.mem_cons_self
    · have hold := h.owner_iff l' t
      rw [hthread] at hold
      rw [setOwner_of_ne hl]
      simpa [hl] using hold
  · by_cases hl : l' = l
    · subst hl
      rw [setOwner_self, hfree]
      exact iff_of_false (fun heq ↦ hu (Option.some.inj heq).symm) nofun
    · rw [setOwner_of_ne hl]
      rfl

/-- A step that leaves the scope of a lock. -/
theorem release (h : s.Disciplined rank) (hthread : s.threads t = .unlock l :: k) :
    ((s.advance t k).setOwner l none).Disciplined rank := by
  have hordered := h.ordered t
  have howner : s.owner l = some t := (h.owner_iff l t).mpr (by simp [hthread])
  rw [hthread] at hordered
  refine h.update rfl hordered.2 (fun l' ↦ ?_) fun l' u hu ↦ ?_
  · by_cases hl : l' = l
    · subst hl
      rw [setOwner_self]
      exact iff_of_false nofun hordered.notMem_held
    · have hold := h.owner_iff l' t
      rw [hthread] at hold
      rw [setOwner_of_ne hl]
      simpa [hl] using hold
  · by_cases hl : l' = l
    · subst hl
      rw [setOwner_self, howner]
      exact iff_of_false nofun fun heq ↦ hu (Option.some.inj heq).symm
    · rw [setOwner_of_ne hl]
      rfl

/-- Every step keeps the invariant. -/
theorem exec {o : T × ℕ} (h : s.Disciplined rank) (ho : s.exec o = some s') :
    s'.Disciplined rank := by
  have hordered := h.ordered o.1
  unfold LockState.exec at ho
  split at ho
  case h_1 => cases ho
  case h_2 k hk =>
    obtain rfl := Option.some.inj ho
    rw [hk] at hordered
    exact h.advance (by rw [hk]; rfl) hordered.2
  case h_3 p q k hk =>
    obtain rfl := Option.some.inj ho
    rw [hk] at hordered
    exact h.advance (by rw [hk]; rfl) ⟨hordered.1.1, hordered.1.2, hordered.2⟩
  case h_4 f k hk =>
    obtain rfl := Option.some.inj ho
    rw [hk] at hordered
    exact h.advance (by rw [hk]; rfl) ⟨hordered.1 o.2, hordered.2⟩
  case h_5 l p k hk =>
    obtain ⟨hfree, hs⟩ := Option.ite_none_right_eq_some.mp ho
    obtain rfl := Option.some.inj hs
    exact h.take hk hfree
  case h_6 l k hk =>
    obtain rfl := Option.some.inj ho
    exact h.release hk

/-- As long as a thread is not done, it or one that it waits for, at once or through others, can go
on. -/
theorem exists_exec [WellFoundedGT α] (h : s.Disciplined rank) (ht : s.threads t ≠ []) :
    ∃ u, ReflTransGen s.WaitsFor t u ∧ ∀ n, (s.exec (u, n)).isSome = true := by
  by_cases hfree : ∀ l, s.Tries t l → s.owner l = none
  · exact ⟨t, .refl, exec_isSome ht hfree⟩
  push Not at hfree
  obtain ⟨l, htries, howner⟩ := hfree
  clear ht
  -- The lock that the owner waits for is of larger rank.
  induction ha : rank l using WellFoundedGT.induction generalizing t l with
  | ind a ih =>
    obtain ⟨u, hu⟩ := Option.ne_none_iff_exists'.mp howner
    have hwaits : s.WaitsFor t u := ⟨l, htries, hu⟩
    by_cases hfree : ∀ l', s.Tries u l' → s.owner l' = none
    · have hne : s.threads u ≠ [] := fun hnil ↦ by
        have hheld := (h.owner_iff l u).mp hu
        rw [hnil] at hheld
        cases hheld
      exact ⟨u, .single hwaits, exec_isSome hne hfree⟩
    · push Not at hfree
      obtain ⟨l', htries', howner'⟩ := hfree
      have hlt : a < rank l' := ha ▸ h.rank_lt htries' hu
      obtain ⟨v, hv, hexec⟩ := ih (rank l') hlt l' htries' howner' rfl
      exact ⟨v, .head hwaits hv, hexec⟩

end Disciplined

end Steps

end LockState

/-- Threads that run programs, from the first state on. -/
abbrev LockRun [DecidableEq T] [DecidableEq L] (program : T → LockProgram L) :=
  Execution LockState.exec (LockState.initial program)

/-- The invariant holds in every state of a run. -/
theorem LockRun.disciplined [DecidableEq T] [DecidableEq L] [Preorder α] {rank : L → α}
    {program : T → LockProgram L} (r : LockRun program) (h : ∀ t, (program t).Ordered rank [])
    {k : ℕ} (hk : k ≤ r.ops.length) : (r.state k).Disciplined rank :=
  r.invariant_of_step (P := fun s ↦ s.Disciplined rank) (.initial h)
    (fun ho hs ↦ hs.exec (r.step ho)) hk

end WebTSan
