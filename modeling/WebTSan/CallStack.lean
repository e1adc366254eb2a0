import WebTSan.Execution
import Mathlib.Data.List.Pairwise
import Mathlib.Order.Nat
import Mathlib.Tactic.Common

/-!
# Calls that let other code in

Threads make calls, and a call takes its steps one after the other. At some steps a call lets other
code of its thread in, which makes calls of its own, so that every thread has a stack of calls. Some
steps may end their call early. The steps of all threads are interleaved, together with events of an
environment, and act on a shared state.

## Main definitions

* `WebTSan.CallMachine`, `WebTSan.Invocation`, `WebTSan.CallState`, `WebTSan.CallEvent`,
  `WebTSan.CallRun`.
* `WebTSan.CallRun.StartsAt`, `Performs`, `Completes`, `ThrowsAt`.

## Main results

* `WebTSan.CallRun.frames_spec`: a call on the stack has taken the steps that are not left.
* `WebTSan.CallRun.Completes.performs`, `WebTSan.CallRun.Performs.mem_of_steps_eq`: the steps that a
  call has taken.
* `WebTSan.CallRun.state_of_wholeCall`: a thread that is left alone runs a call.
* `WebTSan.CallRun.Waiting.of_isOpen`: where the calls of a thread are that is at work elsewhere.
-/

namespace WebTSan

/-- Calls of the kinds `κ`, made of the steps `τ`, by the threads `ι`, on the states `σ` that are
shared with events `ε` of an environment. -/
structure CallMachine (ι κ τ σ ε : Type*) where
  steps : ι → κ → List τ
  /-- Whether a step can be taken. -/
  passes : κ → τ → Bool
  /-- Whether a step can end the call early. -/
  throws : τ → Bool
  /-- Whether other code of the thread may run before the step is taken. -/
  reenters : τ → Bool
  run : σ → ι → τ → σ
  env : σ → ε → Option σ
  /-- The thread that is at work in an event of the environment. -/
  actor : ε → Option ι

/-- A call. Calls are numbered in the order in which they start. -/
structure Invocation (ι κ : Type*) where
  id : ℕ
  tid : ι
  kind : κ

/-- The shared state, the calls that have started, with the steps left of each, and how many calls
have started. -/
structure CallState (ι κ τ σ : Type*) where
  shared : σ
  frames : ι → List (Invocation ι κ × List τ)
  begun : ℕ

/-- A thread starts a call, takes the next step of its innermost call, or leaves it early, or
something else happens. -/
inductive CallEvent (ι κ ε : Type*)
  | call (tid : ι) (kind : κ)
  | step (tid : ι)
  | throw (tid : ι)
  | env (event : ε)

variable {ι κ τ σ ε : Type*} [DecidableEq ι]

/-- The state before any call. -/
def CallState.initial (shared : σ) : CallState ι κ τ σ where
  shared := shared
  frames _ := []
  begun := 0

/-- Put a call back on the stack; a finished one is forgotten. -/
def resume (c : Invocation ι κ) (todo : List τ) (rest : List (Invocation ι κ × List τ)) :
    List (Invocation ι κ × List τ) :=
  match todo with
  | [] => rest
  | _ => (c, todo) :: rest

namespace CallMachine

variable (m : CallMachine ι κ τ σ ε)

/-- The thread runs code of its own: it is in no call, or its innermost call lets it in. -/
def isOpen (s : CallState ι κ τ σ) (tid : ι) : Bool :=
  match s.frames tid with
  | [] => true
  | (_, []) :: _ => false
  | (_, st :: _) :: _ => m.reenters st

/-- The state after an event, if it can happen. -/
def exec (s : CallState ι κ τ σ) : CallEvent ι κ ε → Option (CallState ι κ τ σ)
  | .call tid kind =>
    if m.isOpen s tid then
      some { s with
        frames := Function.update s.frames tid
          (resume { id := s.begun, tid := tid, kind := kind } (m.steps tid kind) (s.frames tid))
        begun := s.begun + 1 }
    else none
  | .step tid =>
    match s.frames tid with
    | (c, st :: todo) :: rest =>
      if m.passes c.kind st then
        some { s with
          shared := m.run s.shared tid st
          frames := Function.update s.frames tid (resume c todo rest) }
      else none
    | _ => none
  | .throw tid =>
    match s.frames tid with
    | (_, st :: _) :: rest =>
      if m.throws st then some { s with frames := Function.update s.frames tid rest } else none
    | _ => none
  | .env event =>
    if (m.actor event).all fun tid ↦ m.isOpen s tid then
      (m.env s.shared event).map fun shared ↦ { s with shared := shared }
    else none

end CallMachine

/-- An interleaving of the calls of all threads and the events of the environment. -/
abbrev CallRun (m : CallMachine ι κ τ σ ε) (shared : σ) :=
  Execution m.exec (CallState.initial shared)

omit [DecidableEq ι] in
theorem mem_resume {c : Invocation ι κ} {todo : List τ} {rest : List (Invocation ι κ × List τ)}
    {f : Invocation ι κ × List τ} :
    f ∈ resume c todo rest ↔ f = (c, todo) ∧ todo ≠ [] ∨ f ∈ rest := by
  cases todo <;> simp [resume]

section Exec

variable {m : CallMachine ι κ τ σ ε} {s s' : CallState ι κ τ σ}

theorem exec_call {t : ι} {kind : κ} (h : m.exec s (.call t kind) = some s') :
    m.isOpen s t = true ∧ s' = { s with
      frames := Function.update s.frames t
        (resume { id := s.begun, tid := t, kind := kind } (m.steps t kind) (s.frames t))
      begun := s.begun + 1 } := by
  dsimp only [CallMachine.exec] at h
  split_ifs at h with ho
  exact ⟨ho, (Option.some.inj h).symm⟩

theorem exec_step {t : ι} (h : m.exec s (.step t) = some s') :
    ∃ c st todo rest, s.frames t = (c, st :: todo) :: rest ∧ m.passes c.kind st = true ∧
      s' = { s with
        shared := m.run s.shared t st
        frames := Function.update s.frames t (resume c todo rest) } := by
  dsimp only [CallMachine.exec] at h
  split at h
  · next c st todo rest hf =>
    split_ifs at h with hp
    exact ⟨c, st, todo, rest, hf, hp, (Option.some.inj h).symm⟩
  · cases h

theorem exec_throw {t : ι} (h : m.exec s (.throw t) = some s') :
    ∃ c st todo rest, s.frames t = (c, st :: todo) :: rest ∧ m.throws st = true ∧
      s' = { s with frames := Function.update s.frames t rest } := by
  dsimp only [CallMachine.exec] at h
  split at h
  · next c st todo rest hf =>
    split_ifs at h with ht
    exact ⟨c, st, todo, rest, hf, ht, (Option.some.inj h).symm⟩
  · cases h

theorem exec_env {event : ε} (h : m.exec s (.env event) = some s') :
    (∀ t, m.actor event = some t → m.isOpen s t = true) ∧
      ∃ shared, m.env s.shared event = some shared ∧ s' = { s with shared := shared } := by
  dsimp only [CallMachine.exec] at h
  split_ifs at h with ho
  obtain ⟨shared, hs, rfl⟩ := Option.map_eq_some_iff.mp h
  refine ⟨fun t ht ↦ ?_, shared, hs, rfl⟩
  rw [ht] at ho
  exact ho

/-- What an event does to the stack of a thread. -/
theorem exec_frames {ev : CallEvent ι κ ε} (h : m.exec s ev = some s') (t : ι) :
    (∃ kind, ev = .call t kind ∧ m.isOpen s t = true ∧ s'.frames t =
      resume { id := s.begun, tid := t, kind := kind } (m.steps t kind) (s.frames t)) ∨
    (∃ c st todo rest, ev = .step t ∧ s.frames t = (c, st :: todo) :: rest ∧
      s'.frames t = resume c todo rest) ∨
    (∃ c st todo rest, ev = .throw t ∧ s.frames t = (c, st :: todo) :: rest ∧
      m.throws st = true ∧ s'.frames t = rest) ∨
    s'.frames t = s.frames t := by
  cases ev with
  | call u kind =>
    obtain ⟨ho, rfl⟩ := exec_call h
    by_cases hu : t = u
    · subst hu
      exact .inl ⟨kind, rfl, ho, Function.update_self ..⟩
    · exact .inr (.inr (.inr (Function.update_of_ne hu ..)))
  | step u =>
    obtain ⟨c, st, todo, rest, hf, -, rfl⟩ := exec_step h
    by_cases hu : t = u
    · subst hu
      exact .inr (.inl ⟨c, st, todo, rest, rfl, hf, Function.update_self ..⟩)
    · exact .inr (.inr (.inr (Function.update_of_ne hu ..)))
  | throw u =>
    obtain ⟨c, st, todo, rest, hf, ht, rfl⟩ := exec_throw h
    by_cases hu : t = u
    · subst hu
      exact .inr (.inr (.inl ⟨c, st, todo, rest, rfl, hf, ht, Function.update_self ..⟩))
    · exact .inr (.inr (.inr (Function.update_of_ne hu ..)))
  | env event =>
    obtain ⟨-, shared, -, rfl⟩ := exec_env h
    exact .inr (.inr (.inr rfl))

theorem exec_begun {ev : CallEvent ι κ ε} (h : m.exec s ev = some s') : s.begun ≤ s'.begun := by
  cases ev with
  | call u kind =>
    obtain ⟨-, rfl⟩ := exec_call h
    exact Nat.le_succ _
  | step u =>
    obtain ⟨_, _, _, _, -, -, rfl⟩ := exec_step h
    exact le_rfl
  | throw u =>
    obtain ⟨_, _, _, _, -, -, rfl⟩ := exec_throw h
    exact le_rfl
  | env event =>
    obtain ⟨-, _, -, rfl⟩ := exec_env h
    exact le_rfl

/-- A thread that is left alone takes the steps of its only call one after the other. -/
theorem execAll_replicate_step {t : ι} {c : Invocation ι κ} {done todo : List τ}
    (hf : s.frames t = resume c (done ++ todo) []) (hp : ∀ st ∈ done, m.passes c.kind st = true) :
    execAll m.exec s (List.replicate done.length (.step t)) = some { s with
      shared := done.foldl (fun d st ↦ m.run d t st) s.shared
      frames := Function.update s.frames t (resume c todo []) } := by
  induction done generalizing s with
  | nil =>
    rw [List.nil_append] at hf
    rw [← hf, Function.update_eq_self]
    rfl
  | cons st done ih =>
    have hf' : s.frames t = (c, st :: (done ++ todo)) :: [] := hf
    have hstep : m.exec s (.step t) = some { s with
        shared := m.run s.shared t st
        frames := Function.update s.frames t (resume c (done ++ todo) []) } := by
      rw [CallMachine.exec, hf']
      dsimp only
      rw [if_pos (hp st List.mem_cons_self)]
    rw [List.length_cons, List.replicate_succ, execAll, hstep, Option.bind_some,
      ih (Function.update_self ..) fun st' hst' ↦ hp st' (List.mem_cons_of_mem _ hst')]
    simp only [Function.update_idem, List.foldl_cons]

/-- A thread that is left alone starts a call and takes the first steps of it. -/
theorem execAll_call {t : ι} {kind : κ} {done todo : List τ} (hf : s.frames t = [])
    (hsteps : m.steps t kind = done ++ todo) (hp : ∀ st ∈ done, m.passes kind st = true) :
    execAll m.exec s (.call t kind :: List.replicate done.length (.step t)) = some { s with
      shared := done.foldl (fun d st ↦ m.run d t st) s.shared
      frames := Function.update s.frames t
        (resume { id := s.begun, tid := t, kind := kind } todo [])
      begun := s.begun + 1 } := by
  have hopen : m.isOpen s t = true := by rw [CallMachine.isOpen, hf]
  rw [execAll, CallMachine.exec, if_pos hopen, Option.bind_some, hsteps, hf,
    execAll_replicate_step (c := { id := s.begun, tid := t, kind := kind })
      (Function.update_self ..) hp]
  simp only [Function.update_idem]

/-- A thread that is left alone runs a call. -/
theorem execAll_whole_call {t : ι} {kind : κ} (hf : s.frames t = [])
    (hp : ∀ st ∈ m.steps t kind, m.passes kind st = true) :
    execAll m.exec s (.call t kind :: List.replicate (m.steps t kind).length (.step t)) =
      some { s with
        shared := (m.steps t kind).foldl (fun d st ↦ m.run d t st) s.shared
        begun := s.begun + 1 } := by
  rw [execAll_call hf (List.append_nil _).symm hp, resume, ← hf, Function.update_eq_self]

end Exec

namespace CallRun

variable {m : CallMachine ι κ τ σ ε} {d : σ}

/-- The call `c` starts at position `a`. -/
def StartsAt (e : CallRun m d) (c : Invocation ι κ) (a : ℕ) : Prop :=
  e.ops[a]? = some (.call c.tid c.kind) ∧ (e.state a).begun = c.id

/-- At position `k` the call `c` takes its step `st`, and the steps `todo` are left. -/
def Takes (e : CallRun m d) (c : Invocation ι κ) (st : τ) (todo : List τ) (k : ℕ) : Prop :=
  e.ops[k]? = some (.step c.tid) ∧ ∃ rest, (e.state k).frames c.tid = (c, st :: todo) :: rest

/-- At position `k` the call `c` takes its step `st`. -/
def Performs (e : CallRun m d) (c : Invocation ι κ) (st : τ) (k : ℕ) : Prop :=
  ∃ todo, e.Takes c st todo k

/-- At position `k` the call `c` takes its last step. -/
def Completes (e : CallRun m d) (c : Invocation ι κ) (k : ℕ) : Prop := ∃ st, e.Takes c st [] k

/-- At position `k` the call `c` ends at its step `st`, before the steps `todo`. -/
def ThrowsAt (e : CallRun m d) (c : Invocation ι κ) (st : τ) (todo : List τ) (k : ℕ) : Prop :=
  e.ops[k]? = some (.throw c.tid) ∧ ∃ rest, (e.state k).frames c.tid = (c, st :: todo) :: rest

variable {e : CallRun m d} {c : Invocation ι κ} {st : τ} {todo : List τ} {k : ℕ}

theorem begun_mono {k l : ℕ} (hkl : k ≤ l) (hl : l ≤ e.ops.length) :
    (e.state k).begun ≤ (e.state l).begun :=
  e.le_of_step (fun s ↦ s.begun) hkl hl fun _ _ ho ↦ exec_begun (e.step ho)

theorem StartsAt.lt_length {a : ℕ} (h : e.StartsAt c a) : a < e.ops.length :=
  (List.getElem?_eq_some_iff.mp h.1).1

theorem Takes.lt_length (h : e.Takes c st todo k) : k < e.ops.length :=
  (List.getElem?_eq_some_iff.mp h.1).1

theorem Takes.mem (h : e.Takes c st todo k) : (c, st :: todo) ∈ (e.state k).frames c.tid := by
  obtain ⟨-, rest, hf⟩ := h
  rw [hf]
  exact List.mem_cons_self

theorem ThrowsAt.mem (h : e.ThrowsAt c st todo k) :
    (c, st :: todo) ∈ (e.state k).frames c.tid := by
  obtain ⟨-, rest, hf⟩ := h
  rw [hf]
  exact List.mem_cons_self

theorem ThrowsAt.throws (h : e.ThrowsAt c st todo k) : m.throws st = true := by
  obtain ⟨c', st', todo', rest', hf, ht, -⟩ := exec_throw (e.step h.1)
  obtain ⟨-, rest, hf'⟩ := h
  obtain ⟨hc, -⟩ := List.cons.inj (hf.symm.trans hf')
  obtain ⟨-, hlist⟩ := Prod.mk.inj hc
  rwa [← (List.cons.inj hlist).1]

/-- The effect of a step. -/
theorem Takes.state_succ (h : e.Takes c st todo k) : ∃ rest,
    (e.state k).frames c.tid = (c, st :: todo) :: rest ∧ e.state (k + 1) = { e.state k with
      shared := m.run (e.state k).shared c.tid st
      frames := Function.update (e.state k).frames c.tid (resume c todo rest) } := by
  obtain ⟨c', st', todo', rest, hf, -, hs⟩ := exec_step (e.step h.1)
  obtain ⟨-, rest', hf'⟩ := h
  obtain ⟨hc, rfl⟩ := List.cons.inj (hf.symm.trans hf')
  obtain ⟨rfl, hlist⟩ := Prod.mk.inj hc
  obtain ⟨rfl, rfl⟩ := List.cons.inj hlist
  exact ⟨rest, hf, hs⟩

/-! ### The calls on the stacks -/

/-- The calls on a stack have started, are of its thread, have steps left, and are different. -/
structure Sound (s : CallState ι κ τ σ) : Prop where
  id_lt {t : ι} {f : Invocation ι κ × List τ} : f ∈ s.frames t → f.1.id < s.begun
  tid_eq {t : ι} {f : Invocation ι κ × List τ} : f ∈ s.frames t → f.1.tid = t
  ne_nil {t : ι} {f : Invocation ι κ × List τ} : f ∈ s.frames t → f.2 ≠ []
  pairwise (t : ι) : (s.frames t).Pairwise fun f g ↦ f.1.id ≠ g.1.id

omit [DecidableEq ι] in
/-- Putting the innermost call back keeps the calls of a stack different. -/
theorem Sound.resume_step {s : CallState ι κ τ σ} (h : Sound s) {t : ι}
    {rest : List (Invocation ι κ × List τ)} (hf : s.frames t = (c, st :: todo) :: rest) :
    (resume c todo rest).Pairwise fun f g ↦ f.1.id ≠ g.1.id := by
  have hp := h.pairwise t
  rw [hf, List.pairwise_cons] at hp
  cases todo with
  | nil => exact hp.2
  | cons st' todo' => exact List.pairwise_cons.mpr hp

theorem Sound.step {s s' : CallState ι κ τ σ} {ev : CallEvent ι κ ε} (hs : Sound s)
    (h : m.exec s ev = some s') : Sound s' := by
  have hbegun := exec_begun h
  -- every call on a stack was there before, with the same or more steps, or has just started
  have hmem {t : ι} {f : Invocation ι κ × List τ} (hf : f ∈ s'.frames t) :
      (f.2 ≠ [] ∧ ∃ g ∈ s.frames t, g.1 = f.1) ∨
        (f.1.id = s.begun ∧ f.1.tid = t ∧ f.2 ≠ [] ∧ s.begun < s'.begun) := by
    rcases exec_frames h t with ⟨kind, rfl, -, hft⟩ | ⟨c, st, todo, rest, -, hold, hft⟩ |
      ⟨c, st, todo, rest, -, hold, -, hft⟩ | hft
    · rw [hft, mem_resume] at hf
      rcases hf with ⟨rfl, hne⟩ | hf
      · obtain ⟨-, rfl⟩ := exec_call h
        exact .inr ⟨rfl, rfl, hne, Nat.lt_succ_self _⟩
      · exact .inl ⟨hs.ne_nil hf, f, hf, rfl⟩
    · rw [hft, mem_resume] at hf
      rcases hf with ⟨rfl, hne⟩ | hf
      · exact .inl ⟨hne, (c, st :: todo), hold ▸ List.mem_cons_self, rfl⟩
      · have hf' : f ∈ s.frames t := hold ▸ List.mem_cons_of_mem _ hf
        exact .inl ⟨hs.ne_nil hf', f, hf', rfl⟩
    · rw [hft] at hf
      have hf' : f ∈ s.frames t := hold ▸ List.mem_cons_of_mem _ hf
      exact .inl ⟨hs.ne_nil hf', f, hf', rfl⟩
    · rw [hft] at hf
      exact .inl ⟨hs.ne_nil hf, f, hf, rfl⟩
  refine ⟨fun {t f} hf ↦ ?_, fun {t f} hf ↦ ?_, fun {t f} hf ↦ ?_, fun t ↦ ?_⟩
  · rcases hmem hf with ⟨-, g, hg, hgf⟩ | ⟨hid, -, -, hlt⟩
    · exact hgf ▸ (hs.id_lt hg).trans_le hbegun
    · exact hid ▸ hlt
  · rcases hmem hf with ⟨-, g, hg, hgf⟩ | ⟨-, htid, -, -⟩
    · exact hgf ▸ hs.tid_eq hg
    · exact htid
  · rcases hmem hf with ⟨hne, -⟩ | ⟨-, -, hne, -⟩ <;> exact hne
  · rcases exec_frames h t with ⟨kind, -, -, hft⟩ | ⟨c, st, todo, rest, -, hold, hft⟩ |
      ⟨c, st, todo, rest, -, hold, -, hft⟩ | hft <;> rw [hft]
    · have hne (f : Invocation ι κ × List τ) (hf : f ∈ s.frames t) : s.begun ≠ f.1.id :=
        (hs.id_lt hf).ne'
      unfold resume
      split
      · exact hs.pairwise t
      · exact List.pairwise_cons.mpr ⟨hne, hs.pairwise t⟩
    · exact hs.resume_step hold
    · have hp := hs.pairwise t
      rw [hold, List.pairwise_cons] at hp
      exact hp.2
    · exact hs.pairwise t

theorem sound (e : CallRun m d) {k : ℕ} (hk : k ≤ e.ops.length) : Sound (e.state k) :=
  e.invariant_of_step (P := Sound) ⟨nofun, nofun, nofun, fun _ ↦ List.Pairwise.nil⟩
    (fun ho hs ↦ hs.step (e.step ho)) hk

namespace StartsAt

variable {a : ℕ}

theorem frames_succ (h : e.StartsAt c a) : (e.state (a + 1)).frames c.tid =
    resume c (m.steps c.tid c.kind) ((e.state a).frames c.tid) := by
  obtain ⟨-, hs⟩ := exec_call (e.step h.1)
  rw [hs, h.2]
  exact Function.update_self ..

theorem begun_succ (h : e.StartsAt c a) : (e.state (a + 1)).begun = c.id + 1 := by
  obtain ⟨-, hs⟩ := exec_call (e.step h.1)
  rw [hs, ← h.2]

/-- A call starts once. -/
theorem unique {a' : ℕ} (h : e.StartsAt c a) (h' : e.StartsAt c a') : a = a' := by
  have hlt {a a' : ℕ} (h : e.StartsAt c a) (h' : e.StartsAt c a') : ¬a < a' := by
    intro haa'
    have hle := e.begun_mono haa' h'.lt_length.le
    rw [h.begun_succ, h'.2] at hle
    exact absurd hle (Nat.not_succ_le_self _)
  exact le_antisymm (not_lt.mp (hlt h' h)) (not_lt.mp (hlt h h'))

/-- Right after its start a call has all of its steps left. -/
theorem eq_steps (h : e.StartsAt c a) (hmem : (c, todo) ∈ (e.state (a + 1)).frames c.tid) :
    todo = m.steps c.tid c.kind := by
  rw [h.frames_succ, mem_resume] at hmem
  rcases hmem with ⟨hc, -⟩ | hold
  · exact (Prod.mk.inj hc).2
  · have hlt := (e.sound h.lt_length.le).id_lt hold
    rw [h.2] at hlt
    exact absurd hlt (lt_irrefl _)

end StartsAt

/-- A call on the stack is there since its start, and has taken the steps that are not left. -/
theorem frames_spec (hk : k ≤ e.ops.length) {t : ι} (h : (c, todo) ∈ (e.state k).frames t) :
    ∃ a < k, e.StartsAt c a ∧ ∀ l, a < l → l ≤ k → ∃ pre, (c, pre ++ todo) ∈ (e.state l).frames t ∧
      ∀ st ∈ pre, ∃ i, l ≤ i ∧ i < k ∧ e.Performs c st i := by
  induction k generalizing todo with
  | zero =>
    rw [e.state_zero] at h
    cases h
  | succ k ih =>
    have hk' := Nat.le_of_succ_le hk
    have ho := List.getElem?_eq_getElem hk
    -- what was on the stack before with the steps `done ++ todo`, of which `done` are taken now
    have hold (done : List τ) (hmem : (c, done ++ todo) ∈ (e.state k).frames t)
        (hdone : ∀ st ∈ done, e.Performs c st k) :
        ∃ a < k + 1, e.StartsAt c a ∧ ∀ l, a < l → l ≤ k + 1 →
          ∃ pre, (c, pre ++ todo) ∈ (e.state l).frames t ∧
            ∀ st ∈ pre, ∃ i, l ≤ i ∧ i < k + 1 ∧ e.Performs c st i := by
      obtain ⟨a, ha, hstart, hbefore⟩ := ih hk' hmem
      refine ⟨a, Nat.lt_succ_of_lt ha, hstart, fun l hl hl' ↦ ?_⟩
      rcases Nat.le_succ_iff.mp hl' with hl' | rfl
      · obtain ⟨pre, hpre, htaken⟩ := hbefore l hl hl'
        refine ⟨pre ++ done, by rwa [List.append_assoc], fun st hst ↦ ?_⟩
        rcases List.mem_append.mp hst with hst | hst
        · obtain ⟨i, hli, hik, hi⟩ := htaken st hst
          exact ⟨i, hli, Nat.lt_succ_of_lt hik, hi⟩
        · exact ⟨k, hl', Nat.lt_succ_self k, hdone st hst⟩
      · exact ⟨[], h, nofun⟩
    rcases exec_frames (e.step ho) t with ⟨kind, hev, -, hft⟩ |
      ⟨c', st, todo', rest, hev, hf, hft⟩ | ⟨c', st, todo', rest, -, hf, -, hft⟩ | hft
    · rw [hft, mem_resume] at h
      rcases h with ⟨hc, hne⟩ | h
      · obtain ⟨rfl, rfl⟩ := Prod.mk.inj hc
        refine ⟨k, Nat.lt_succ_self k, ⟨ho.trans (congrArg some hev), rfl⟩, fun l hl hl' ↦ ?_⟩
        obtain rfl : l = k + 1 := le_antisymm hl' hl
        refine ⟨[], ?_, nofun⟩
        rw [hft]
        exact mem_resume.mpr (.inl ⟨rfl, hne⟩)
      · exact hold [] h nofun
    · rw [hft, mem_resume] at h
      rcases h with ⟨hc, -⟩ | h
      · obtain ⟨rfl, rfl⟩ := Prod.mk.inj hc
        have hmem : (c, [st] ++ todo) ∈ (e.state k).frames t := hf ▸ List.mem_cons_self
        obtain rfl := (e.sound hk').tid_eq hmem
        refine hold [st] hmem fun st' hst' ↦ ?_
        obtain rfl := List.mem_singleton.mp hst'
        exact ⟨todo, ho.trans (congrArg some hev), rest, hf⟩
      · exact hold [] (hf ▸ List.mem_cons_of_mem _ h) nofun
    · rw [hft] at h
      exact hold [] (hf ▸ List.mem_cons_of_mem _ h) nofun
    · rw [hft] at h
      exact hold [] h nofun

/-- The steps of a call are those that it has taken and those that are left. -/
theorem exists_steps_eq (hk : k ≤ e.ops.length) (h : (c, todo) ∈ (e.state k).frames c.tid) :
    ∃ a pre, e.StartsAt c a ∧ m.steps c.tid c.kind = pre ++ todo ∧
      ∀ st ∈ pre, ∃ i, a < i ∧ i < k ∧ e.Performs c st i := by
  obtain ⟨a, ha, hstart, hbefore⟩ := frames_spec hk h
  obtain ⟨pre, hpre, htaken⟩ := hbefore (a + 1) (Nat.lt_succ_self a) ha
  exact ⟨a, pre, hstart, (hstart.eq_steps hpre).symm, fun st hst ↦ htaken st hst⟩

/-- The innermost call of a stack is not on the rest of it. -/
theorem notMem_rest (hk : k ≤ e.ops.length) {t : ι} {rest : List (Invocation ι κ × List τ)}
    (hf : (e.state k).frames t = (c, todo) :: rest) {todo' : List τ} : (c, todo') ∉ rest := by
  intro hrest
  have hp := (e.sound hk).pairwise t
  rw [hf, List.pairwise_cons] at hp
  exact hp.1 _ hrest rfl

/-- A step that a call has taken is none of those that are left. -/
theorem Takes.exists_suffix {j : ℕ} {todo' : List τ} (h : e.Takes c st todo' j) (hjk : j < k)
    (hk : k ≤ e.ops.length) (hmem : (c, todo) ∈ (e.state k).frames c.tid) :
    ∃ pre, todo' = pre ++ todo := by
  obtain ⟨a, ha, hstart, hbefore⟩ := frames_spec hk hmem
  obtain ⟨a', ha', hstart', -⟩ := frames_spec h.lt_length.le h.mem
  obtain rfl := hstart.unique hstart'
  obtain ⟨pre, hpre, -⟩ := hbefore (j + 1) (Nat.lt_succ_of_lt ha') hjk
  obtain ⟨rest, hf, hs⟩ := h.state_succ
  rw [hs] at hpre
  replace hpre : (c, pre ++ todo) ∈ resume c todo' rest := by
    simpa only [Function.update_self] using hpre
  rcases mem_resume.mp hpre with ⟨hc, -⟩ | hrest
  · exact ⟨pre, (Prod.mk.inj hc).2.symm⟩
  · exact absurd hrest (notMem_rest h.lt_length.le hf)

/-- The steps that a call has taken come before those that are left. -/
theorem Performs.mem_of_steps_eq {pre : List τ} {j : ℕ} (h : e.Performs c st j) (hjk : j < k)
    (hk : k ≤ e.ops.length) (hmem : (c, todo) ∈ (e.state k).frames c.tid)
    (hsteps : m.steps c.tid c.kind = pre ++ todo) : st ∈ pre := by
  obtain ⟨todo', h⟩ := h
  obtain ⟨pre', rfl⟩ := h.exists_suffix hjk hk hmem
  obtain ⟨-, pre'', -, hsteps', -⟩ := exists_steps_eq h.lt_length.le h.mem
  have hlist : pre = pre'' ++ st :: pre' := by
    refine (List.append_left_inj todo).mp ?_
    rw [← hsteps, hsteps']
    simp
  rw [hlist]
  exact List.mem_append_right _ List.mem_cons_self

theorem Performs.mem_steps (h : e.Performs c st k) : st ∈ m.steps c.tid c.kind := by
  obtain ⟨todo, h⟩ := h
  obtain ⟨-, pre, -, hsteps, -⟩ := exists_steps_eq h.lt_length.le h.mem
  rw [hsteps]
  exact List.mem_append_right _ List.mem_cons_self

/-- A call takes its steps after its start. -/
theorem Performs.lt (h : e.Performs c st k) {a : ℕ} (ha : e.StartsAt c a) : a < k := by
  obtain ⟨todo, h⟩ := h
  obtain ⟨a', ha', hstart, -⟩ := frames_spec h.lt_length.le h.mem
  rwa [ha.unique hstart]

/-- A completed call takes no step later on. -/
theorem Completes.performs_le (h : e.Completes c k) {j : ℕ} (hj : e.Performs c st j) : j ≤ k := by
  obtain ⟨st', h⟩ := h
  obtain ⟨todo, hj⟩ := hj
  by_contra hkj
  obtain ⟨pre, hpre⟩ := h.exists_suffix (not_le.mp hkj) hj.lt_length.le hj.mem
  exact absurd hpre (by simp)

/-- A call is on its stack from its start to its completion. -/
theorem Completes.mem_frames (h : e.Completes c k) {a x : ℕ} (ha : e.StartsAt c a) (hax : a < x)
    (hxk : x ≤ k) : ∃ st todo, (c, st :: todo) ∈ (e.state x).frames c.tid := by
  obtain ⟨st', h⟩ := h
  obtain ⟨a', -, hstart, hbefore⟩ := frames_spec h.lt_length.le h.mem
  obtain rfl := ha.unique hstart
  obtain ⟨pre, hpre, -⟩ := hbefore x hax hxk
  cases pre with
  | nil => exact ⟨st', [], hpre⟩
  | cons st pre => exact ⟨st, pre ++ [st'], hpre⟩

/-- A call that is about to take a step has taken every part of its steps before that step. -/
theorem performs_of_mem {body tail : List τ} {st' : τ} (hk : k ≤ e.ops.length)
    (hmem : (c, st :: todo) ∈ (e.state k).frames c.tid)
    (hsteps : m.steps c.tid c.kind = body ++ tail) (hst : st ∉ body) (hst' : st' ∈ body) :
    ∃ a i, e.StartsAt c a ∧ a < i ∧ i < k ∧ e.Performs c st' i := by
  obtain ⟨a, pre, hstart, hsteps', htaken⟩ := exists_steps_eq hk hmem
  rcases List.append_eq_append_iff.mp (hsteps.symm.trans hsteps') with ⟨pre', rfl, -⟩ |
    ⟨body', hbody, htail⟩
  · obtain ⟨i, hai, hik, hi⟩ := htaken st' (List.mem_append_left _ hst')
    exact ⟨a, i, hstart, hai, hik, hi⟩
  · cases body' with
    | nil =>
      rw [List.append_nil] at hbody
      obtain ⟨i, hai, hik, hi⟩ := htaken st' (hbody ▸ hst')
      exact ⟨a, i, hstart, hai, hik, hi⟩
    | cons st'' body' =>
      obtain ⟨rfl, -⟩ := List.cons.inj htail
      exact absurd (hbody ▸ List.mem_append_right _ List.mem_cons_self) hst

/-- A call that is about to take a step has taken no part of its steps behind that step. -/
theorem Performs.mem_body {body tail : List τ} {st' : τ} {j : ℕ} (h : e.Performs c st' j)
    (hjk : j < k) (hk : k ≤ e.ops.length) (hmem : (c, st :: todo) ∈ (e.state k).frames c.tid)
    (hsteps : m.steps c.tid c.kind = body ++ tail) (hst : st ∉ tail) : st' ∈ body := by
  obtain ⟨-, pre, -, hsteps', -⟩ := exists_steps_eq hk hmem
  have hpre := h.mem_of_steps_eq hjk hk hmem hsteps'
  rcases List.append_eq_append_iff.mp (hsteps.symm.trans hsteps') with ⟨pre', -, htail⟩ |
    ⟨body', rfl, -⟩
  · exact absurd (htail ▸ List.mem_append_right _ List.mem_cons_self) hst
  · exact List.mem_append_left _ hpre

/-- A completed call has taken all of its steps since its start. -/
theorem Completes.performs (h : e.Completes c k) {a : ℕ} (ha : e.StartsAt c a)
    (hst : st ∈ m.steps c.tid c.kind) : ∃ i, a < i ∧ i ≤ k ∧ e.Performs c st i := by
  obtain ⟨st', h⟩ := h
  obtain ⟨a', pre, hstart, hsteps, htaken⟩ := exists_steps_eq h.lt_length.le h.mem
  obtain rfl := ha.unique hstart
  rw [hsteps] at hst
  rcases List.mem_append.mp hst with hst | hst
  · obtain ⟨i, hai, hik, hi⟩ := htaken st hst
    exact ⟨i, hai, hik.le, hi⟩
  · obtain rfl := List.mem_singleton.mp hst
    obtain ⟨a', ha', hstart', -⟩ := frames_spec h.lt_length.le h.mem
    obtain rfl := ha.unique hstart'
    exact ⟨k, ha', le_rfl, [], h⟩

/-! ### Calls within calls -/

omit [DecidableEq ι] in
/-- All calls of a stack but the innermost one are at a step that lets code in. -/
def Waiting (m : CallMachine ι κ τ σ ε) (s : CallState ι κ τ σ) : Prop :=
  ∀ t, ∀ f ∈ (s.frames t).tail, ∃ st todo, f.2 = st :: todo ∧ m.reenters st = true

omit [DecidableEq ι] in
/-- If a thread is at work outside of its calls, all of them are at a step that lets code in. -/
theorem Waiting.of_isOpen {s : CallState ι κ τ σ} (h : Waiting m s) {t : ι}
    (ho : m.isOpen s t = true) {f : Invocation ι κ × List τ} (hf : f ∈ s.frames t) :
    ∃ st todo, f.2 = st :: todo ∧ m.reenters st = true := by
  cases hframes : s.frames t with
  | nil => rw [hframes] at hf; cases hf
  | cons g rest =>
    rw [hframes] at hf
    rcases List.mem_cons.mp hf with rfl | hf
    · obtain ⟨c, todo⟩ := f
      rw [CallMachine.isOpen, hframes] at ho
      cases todo with
      | nil => cases ho
      | cons st todo => exact ⟨st, todo, rfl, ho⟩
    · exact h t f (by rwa [hframes])

theorem Waiting.step {s s' : CallState ι κ τ σ} {ev : CallEvent ι κ ε} (hs : Waiting m s)
    (h : m.exec s ev = some s') : Waiting m s' := by
  intro t f hf
  rcases exec_frames h t with ⟨kind, -, ho, hft⟩ | ⟨c, st, todo, rest, -, hold, hft⟩ |
    ⟨c, st, todo, rest, -, hold, -, hft⟩ | hft <;> rw [hft] at hf
  · unfold resume at hf
    split at hf
    · exact hs t f hf
    · exact hs.of_isOpen ho hf
  · refine hs t f ?_
    rw [hold, List.tail_cons]
    unfold resume at hf
    split at hf
    · exact List.mem_of_mem_tail hf
    · exact hf
  · refine hs t f ?_
    rw [hold, List.tail_cons]
    exact List.mem_of_mem_tail hf
  · exact hs t f hf

theorem waiting (e : CallRun m d) {k : ℕ} (hk : k ≤ e.ops.length) : Waiting m (e.state k) :=
  e.invariant_of_step (P := Waiting m) (fun _ _ hf ↦ by cases hf)
    (fun ho hs ↦ hs.step (e.step ho)) hk

/-! ### A thread that is left alone -/

section Alone

variable {t : ι} {kind : κ} {a : ℕ}

/-- The events of a call that nothing interrupts. -/
def wholeCall (m : CallMachine ι κ τ σ ε) (t : ι) (kind : κ) : List (CallEvent ι κ ε) :=
  .call t kind :: List.replicate (m.steps t kind).length (.step t)

omit [DecidableEq ι] in
theorem length_wholeCall : (wholeCall m t kind).length = (m.steps t kind).length + 1 := by
  rw [wholeCall, List.length_cons, List.length_replicate]

/-- The state after a call that nothing interrupts. -/
theorem state_of_wholeCall (hops : wholeCall m t kind <+: e.ops.drop a)
    (hf : (e.state a).frames t = []) (hp : ∀ st ∈ m.steps t kind, m.passes kind st = true) :
    e.state (a + (m.steps t kind).length + 1) = { e.state a with
      shared := (m.steps t kind).foldl (fun d st ↦ m.run d t st) (e.state a).shared
      begun := (e.state a).begun + 1 } := by
  have hstate := e.state_add_length hops (execAll_whole_call hf hp)
  rwa [length_wholeCall] at hstate

theorem startsAt_of_wholeCall (hops : wholeCall m t kind <+: e.ops.drop a) :
    e.StartsAt ⟨(e.state a).begun, t, kind⟩ a := by
  obtain ⟨rest, hrest⟩ := hops
  refine ⟨?_, rfl⟩
  rw [← Nat.add_zero a, ← List.getElem?_drop, ← hrest]
  rfl

theorem completes_of_wholeCall (hops : wholeCall m t kind <+: e.ops.drop a)
    (hf : (e.state a).frames t = []) (hp : ∀ st ∈ m.steps t kind, m.passes kind st = true)
    (hne : m.steps t kind ≠ []) :
    e.Completes ⟨(e.state a).begun, t, kind⟩ (a + (m.steps t kind).length) := by
  obtain ⟨body, last, hsteps⟩ := (List.eq_nil_or_concat _).resolve_left hne
  rw [List.concat_eq_append] at hsteps
  have hlen : (m.steps t kind).length = body.length + 1 := by rw [hsteps]; simp
  obtain ⟨rest, hrest⟩ := hops
  -- the state before the last step
  have hbody : .call t kind :: List.replicate body.length (.step t) <+: e.ops.drop a := by
    refine ⟨.step t :: rest, ?_⟩
    rw [← hrest, wholeCall, hlen, List.replicate_succ']
    simp
  have hstate := e.state_add_length hbody
    (execAll_call hf hsteps fun st hst ↦ hp st (hsteps ▸ List.mem_append_left _ hst))
  rw [List.length_cons, List.length_replicate, ← hlen] at hstate
  refine ⟨last, ?_, [], ?_⟩
  · rw [← List.getElem?_drop, ← hrest, wholeCall, hlen, List.replicate_succ']
    simp
  · rw [hstate]
    exact Function.update_self ..

end Alone

end CallRun

end WebTSan
