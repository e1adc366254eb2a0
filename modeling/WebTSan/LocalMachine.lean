import Mathlib.Tactic.Common

/-!
# Machines whose letters are local

The state of a machine is looked at through a view of things, such as variables. Every letter
touches some of the things: it changes no others, and what it does to them and which output it gives
depends on them alone. Two letters that touch nothing in common are independent.

Two words have the same order of letters at every thing if their restrictions to the letters that
touch it are equal. Such words lead to states with the same view, and every letter gives the same
output in both of them. The first letter of one word occurs in the other one after letters that are
independent of it, and moves to the front.

## Main definitions

* `WebTSan.LocalMachine`, `WebTSan.LocalMachine.Independent`.
* `WebTSan.LocalMachine.outputs`: the letters of a word with their outputs.

## Main results

* `WebTSan.LocalMachine.step_comm`: independent letters commute.
* `WebTSan.LocalMachine.outputs_filter_eq`: words with the same order at every thing.
-/

namespace WebTSan

/-- A machine that reads letters, with the things that they touch. The laws hold for some of the
states and letters. -/
structure LocalMachine (σ α ι ν β : Type*) where
  step : σ → α → σ
  out : σ → α → β
  view : σ → ι → ν
  /-- Whether a letter touches a thing. -/
  touchedBy : ι → α → Bool
  State : σ → Prop
  Letter : α → Prop
  exists_touchedBy {a} : Letter a → ∃ x, touchedBy x a = true
  state_step {s a} : State s → Letter a → State (step s a)
  /-- A letter changes what it touches only. -/
  view_step {s a x} : State s → Letter a → touchedBy x a = false → view (step s a) x = view s x
  /-- A letter depends on what it touches only. -/
  step_congr {s s' a} : State s → State s' → Letter a →
    (∀ x, touchedBy x a = true → view s x = view s' x) →
    out s a = out s' a ∧ ∀ x, touchedBy x a = true → view (step s a) x = view (step s' a) x

namespace LocalMachine

variable {σ α ι ν β : Type*} (m : LocalMachine σ α ι ν β)

/-- The letters touch nothing in common. -/
def Independent (a b : α) : Prop := ∀ x, m.touchedBy x a = true → m.touchedBy x b = false

/-- Two states with the same view. -/
structure Same (s s' : σ) : Prop where
  left : m.State s
  right : m.State s'
  view (x : ι) : m.view s x = m.view s' x

/-- The letters of a word, each with its output. -/
def outputs (s : σ) : List α → List (α × β)
  | [] => []
  | a :: w => (a, m.out s a) :: outputs (m.step s a) w

variable {m} {s s' : σ} {a b : α} {w w' : List α}

theorem Independent.symm (h : m.Independent a b) : m.Independent b a := by
  intro x hb
  by_contra ha
  rw [Bool.not_eq_false] at ha
  exact absurd (hb.symm.trans (h x ha)) (by decide)

namespace Same

theorem refl (h : m.State s) : m.Same s s := ⟨h, h, fun _ ↦ rfl⟩

theorem symm (h : m.Same s s') : m.Same s' s := ⟨h.right, h.left, fun x ↦ (h.view x).symm⟩

theorem trans {s'' : σ} (h : m.Same s s') (h' : m.Same s' s'') : m.Same s s'' :=
  ⟨h.left, h'.right, fun x ↦ (h.view x).trans (h'.view x)⟩

theorem out_eq (h : m.Same s s') (ha : m.Letter a) : m.out s a = m.out s' a :=
  (m.step_congr h.left h.right ha fun x _ ↦ h.view x).1

theorem step (h : m.Same s s') (ha : m.Letter a) : m.Same (m.step s a) (m.step s' a) where
  left := m.state_step h.left ha
  right := m.state_step h.right ha
  view x := by
    cases hx : m.touchedBy x a with
    | true => exact (m.step_congr h.left h.right ha fun y _ ↦ h.view y).2 x hx
    | false => rw [m.view_step h.left ha hx, m.view_step h.right ha hx, h.view x]

theorem foldl (h : m.Same s s') (hw : ∀ a ∈ w, m.Letter a) :
    m.Same (w.foldl m.step s) (w.foldl m.step s') := by
  induction w generalizing s s' with
  | nil => exact h
  | cons a w ih =>
    exact ih (h.step (hw a List.mem_cons_self)) fun b hb ↦ hw b (List.mem_cons_of_mem a hb)

theorem outputs_eq (h : m.Same s s') (hw : ∀ a ∈ w, m.Letter a) :
    m.outputs s w = m.outputs s' w := by
  induction w generalizing s s' with
  | nil => rfl
  | cons a w ih =>
    have ha := hw a List.mem_cons_self
    rw [outputs, outputs, h.out_eq ha,
      ih (h.step ha) fun b hb ↦ hw b (List.mem_cons_of_mem a hb)]

end Same

theorem outputs_append (s : σ) (w w' : List α) :
    m.outputs s (w ++ w') = m.outputs s w ++ m.outputs (w.foldl m.step s) w' := by
  induction w generalizing s with
  | nil => rfl
  | cons a w ih => rw [List.cons_append, outputs, outputs, ih, List.cons_append, List.foldl_cons]

theorem outputs_filter_eq_nil {x : ι} (h : ∀ a ∈ w, m.touchedBy x a = false) :
    (m.outputs s w).filter (fun p ↦ m.touchedBy x p.1) = [] := by
  induction w generalizing s with
  | nil => rfl
  | cons a w ih =>
    rw [outputs, List.filter_cons_of_neg (by simp [h a List.mem_cons_self])]
    exact ih fun b hb ↦ h b (List.mem_cons_of_mem a hb)

/-! ### Commuting letters -/

/-- A letter does not see an independent letter before it. -/
theorem out_step (hs : m.State s) (ha : m.Letter a) (hb : m.Letter b) (h : m.Independent a b) :
    m.out (m.step s a) b = m.out s b := by
  refine (m.step_congr (m.state_step hs ha) hs hb fun x hx ↦ ?_).1
  exact m.view_step hs ha (h.symm x hx)

/-- Independent letters commute. -/
theorem step_comm (hs : m.State s) (ha : m.Letter a) (hb : m.Letter b) (h : m.Independent a b) :
    m.Same (m.step (m.step s a) b) (m.step (m.step s b) a) where
  left := m.state_step (m.state_step hs ha) hb
  right := m.state_step (m.state_step hs hb) ha
  view x := by
    have hsa := m.state_step hs ha
    have hsb := m.state_step hs hb
    cases hax : m.touchedBy x a with
    | true =>
      have hcongr := m.step_congr hs hsb ha fun y hy ↦ (m.view_step hs hb (h y hy)).symm
      rw [m.view_step hsa hb (h x hax)]
      exact hcongr.2 x hax
    | false =>
      rw [m.view_step hsb ha hax]
      cases hbx : m.touchedBy x b with
      | true =>
        have hcongr := m.step_congr hsa hs hb fun y hy ↦ m.view_step hs ha (h.symm y hy)
        exact hcongr.2 x hbx
      | false => rw [m.view_step hsa hb hbx, m.view_step hs ha hax, m.view_step hs hb hbx]

/-- A letter moves to the front of a word of letters that are independent of it. -/
theorem move_front (hs : m.State s) (ha : m.Letter a) (hw : ∀ b ∈ w, m.Letter b)
    (h : ∀ b ∈ w, m.Independent a b) :
    m.out (w.foldl m.step s) a = m.out s a ∧ m.outputs s w = m.outputs (m.step s a) w ∧
      m.Same (m.step (w.foldl m.step s) a) (w.foldl m.step (m.step s a)) := by
  induction w generalizing s with
  | nil => exact ⟨rfl, rfl, .refl (m.state_step hs ha)⟩
  | cons b w ih =>
    have hb := hw b List.mem_cons_self
    have hw' := fun c hc ↦ hw c (List.mem_cons_of_mem b hc)
    have hind := h b List.mem_cons_self
    have hcomm := step_comm hs hb ha hind.symm
    obtain ⟨hout, houtputs, hsame⟩ :=
      ih (m.state_step hs hb) hw' fun c hc ↦ h c (List.mem_cons_of_mem b hc)
    refine ⟨hout.trans (out_step hs hb ha hind.symm), ?_, hsame.trans (hcomm.foldl hw')⟩
    rw [outputs, outputs, out_step hs ha hb hind, houtputs, hcomm.outputs_eq hw']

/-! ### Words with the same order at every thing -/

/-- The first letter of a word occurs in every word with the same order, after letters that are
independent of it. -/
theorem exists_eq_append_cons (ha : m.Letter a)
    (h : ∀ x, (a :: w).filter (m.touchedBy x) = w'.filter (m.touchedBy x)) :
    ∃ v v', w' = v ++ a :: v' ∧ (∀ b ∈ v, m.Independent a b) ∧
      ∀ x, w.filter (m.touchedBy x) = (v ++ v').filter (m.touchedBy x) := by
  obtain ⟨x, hx⟩ := m.exists_touchedBy ha
  have hmem : a ∈ w'.filter (m.touchedBy x) := by
    rw [← h x]
    exact List.mem_filter.mpr ⟨List.mem_cons_self, hx⟩
  obtain ⟨v, v', rfl, hv⟩ := List.eq_append_cons_of_mem (List.mem_filter.mp hmem).1
  -- the letters before the first `a` do not touch what `a` touches
  have hnil {x : ι} (hx : m.touchedBy x a = true) : v.filter (m.touchedBy x) = [] := by
    have hfilter := h x
    rw [List.filter_cons_of_pos hx, List.filter_append] at hfilter
    cases hvx : v.filter (m.touchedBy x) with
    | nil => rfl
    | cons c u =>
      rw [hvx, List.cons_append] at hfilter
      obtain rfl := (List.cons.inj hfilter).1
      have hav : a ∈ v.filter (m.touchedBy x) := hvx ▸ List.mem_cons_self
      exact absurd (List.mem_filter.mp hav).1 hv
  refine ⟨v, v', rfl, fun b hb x hx ↦ ?_, fun x ↦ ?_⟩
  · have hbx := List.filter_eq_nil_iff.mp (hnil hx) b hb
    rwa [Bool.not_eq_true] at hbx
  · have hfilter := h x
    rw [List.filter_append] at hfilter ⊢
    cases hx : m.touchedBy x a with
    | true =>
      rw [List.filter_cons_of_pos hx, List.filter_cons_of_pos hx, hnil hx] at hfilter
      rw [hnil hx]
      exact (List.cons.inj hfilter).2
    | false =>
      have hneg : ¬m.touchedBy x a = true := by simp [hx]
      rwa [List.filter_cons_of_neg hneg, List.filter_cons_of_neg hneg] at hfilter

/-- Words with the same order of letters at every thing lead to the same view, and every letter
gives the same output in both. -/
theorem outputs_filter_eq (hs : m.State s) (hw : ∀ a ∈ w, m.Letter a)
    (hw' : ∀ a ∈ w', m.Letter a)
    (h : ∀ x, w.filter (m.touchedBy x) = w'.filter (m.touchedBy x)) :
    m.Same (w.foldl m.step s) (w'.foldl m.step s) ∧
      ∀ x, (m.outputs s w).filter (fun p ↦ m.touchedBy x p.1) =
        (m.outputs s w').filter fun p ↦ m.touchedBy x p.1 := by
  induction w generalizing s w' with
  | nil =>
    obtain rfl : w' = [] := by
      refine List.eq_nil_iff_forall_not_mem.mpr fun a ha ↦ ?_
      obtain ⟨x, hx⟩ := m.exists_touchedBy (hw' a ha)
      have hmem := List.mem_filter.mpr ⟨ha, hx⟩
      rw [← h x] at hmem
      cases hmem
    exact ⟨.refl hs, fun _ ↦ rfl⟩
  | cons a w ih =>
    have ha := hw a List.mem_cons_self
    obtain ⟨v, v', rfl, hind, hfilter⟩ := exists_eq_append_cons ha h
    have hv : ∀ b ∈ v, m.Letter b := fun b hb ↦ hw' b (List.mem_append_left _ hb)
    have hv' : ∀ b ∈ v', m.Letter b := fun b hb ↦
      hw' b (List.mem_append_right v (List.mem_cons_of_mem a hb))
    have hvv' : ∀ b ∈ v ++ v', m.Letter b := fun b hb ↦ (List.mem_append.mp hb).elim (hv b) (hv' b)
    obtain ⟨hsame, houtputs⟩ :=
      ih (m.state_step hs ha) (fun b hb ↦ hw b (List.mem_cons_of_mem a hb)) hvv' hfilter
    obtain ⟨hout, hfront, hmoved⟩ := move_front hs ha hv hind
    constructor
    · rw [List.foldl_append] at hsame ⊢
      exact hsame.trans (hmoved.foldl hv').symm
    · intro x
      have hx := houtputs x
      rw [outputs_append, List.filter_append] at hx ⊢
      rw [outputs, outputs, hmoved.outputs_eq hv', hout, hfront]
      cases hax : m.touchedBy x a with
      | true =>
        have hnil := outputs_filter_eq_nil (s := m.step s a) fun b hb ↦ hind b hb x hax
        rw [hnil, List.nil_append] at hx ⊢
        simp only [List.filter_cons, hax, ↓reduceIte, hx]
      | false =>
        simp only [List.filter_cons, hax, Bool.false_eq_true, ↓reduceIte, hx]

end LocalMachine

end WebTSan
