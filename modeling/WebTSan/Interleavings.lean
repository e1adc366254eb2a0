import WebTSan.LocalMachine
import WebTSan.Messages

/-!
# Independent operations

Acquiring, releasing, receiving a message and accessing memory are local: such an operation of a
thread touches the thread, the address or the edge that it names, and the bytes that it accesses,
and nothing else. So the detector is a local machine, and `WebTSan.LocalMachine` gives what does not
depend on the schedule: two runs that order the operations alike at every thread, address, edge and
byte end with the same clocks, edges and cells, and find the same races.

The length of a shadow is fixed by the access that creates it. The order of the accesses to one
buffer is therefore only free if its shadow already exists, or if they pass the same length.

## Main definitions

* `WebTSan.Resource`, `WebTSan.Op.touchedBy`, `WebTSan.Op.Independent`.
* `WebTSan.Detector.SameLengths`: the accesses to a buffer agree on the length of its shadow.
* `WebTSan.Detector.localMachine`: the detector as a local machine.
* `WebTSan.Detector.verdicts`: the operations of a run with what they find.

## Main results

* `WebTSan.Run.interleaving_independent`.
-/

namespace WebTSan

/-- A thing that local operations touch. -/
inductive Resource
  | thread (tid : Tid)
  | sync (addr : ℕ)
  | edge (id : ℕ)
  | byte (backingStore offset : ℕ)
deriving DecidableEq

/-- What the detector knows about a resource. -/
inductive Content
  | clock (clk : VClock)
  | entry (clk : Option VClock)
  | cells (cells : Fin kShadowCellsPerByte → ShadowCell)

namespace Op

/-- The operations whose order may be free. -/
def isLocal : Op → Bool
  | .acquire .. | .release .. | .mutexPostLock .. | .mutexReadLock .. | .mutexUnlock ..
  | .happensAfter .. | .memoryAccess .. => true
  | _ => false

/-- Whether a resource is touched by a local operation. -/
def touchedBy : Resource → Op → Bool
  | .thread u, .acquire t _ | .thread u, .release t _ | .thread u, .mutexPostLock t _
  | .thread u, .mutexReadLock t _ | .thread u, .mutexUnlock t _ | .thread u, .happensAfter t _
  | .thread u, .memoryAccess _ _ _ _ t _ => u = t
  | .sync a, .acquire _ b | .sync a, .release _ b | .sync a, .mutexPostLock _ b
  | .sync a, .mutexReadLock _ b | .sync a, .mutexUnlock _ b => a = b
  | .edge id, .happensAfter _ id' => id = id'
  | .byte bs b, .memoryAccess bs' _ offset size _ _ => bs = bs' ∧ offset ≤ b ∧ b < offset + size
  | _, _ => false

/-- Two local operations of different threads without an address, edge or byte in common. -/
def Independent (o o' : Op) : Prop := ∀ x, touchedBy x o = true → touchedBy x o' = false

/-- The buffer of an access, with the length that is passed. -/
def accessed : Op → Option (ℕ × ℕ)
  | .memoryAccess backingStore sabByteLength _ _ _ _ => some (backingStore, sabByteLength)
  | _ => none

/-- The state after a call that returns. -/
def next (s : Detector) (o : Op) : Detector := (o.exec s).getD s

/-- Whether a call finds a race. -/
def finds (s : Detector) (o : Op) : Bool := (o.found s).isSome

theorem exec_of_isLocal (s : Detector) {o : Op} (ho : o.isLocal = true) :
    o.exec s = some (o.next s) := by
  cases o <;> first | rfl | cases ho

theorem exists_touchedBy {o : Op} (ho : o.isLocal = true) : ∃ x, touchedBy x o = true := by
  cases o with
  | acquire t | release t | mutexPostLock t | mutexReadLock t | mutexUnlock t | happensAfter t =>
    exact ⟨.thread t, by simp [touchedBy]⟩
  | memoryAccess bs len off size t w => exact ⟨.thread t, by simp [touchedBy]⟩
  | _ => cases ho

/-- Exchanging independent neighbours keeps the order at every resource. -/
theorem Independent.filter_comm {o o' : Op} (h : o.Independent o') (v w : List Op) (x : Resource) :
    (v ++ o :: o' :: w).filter (touchedBy x) = (v ++ o' :: o :: w).filter (touchedBy x) := by
  rw [List.filter_append, List.filter_append]
  cases hx : touchedBy x o with
  | true => simp [hx, h x hx]
  | false => simp [List.filter_cons, hx]

section Independent

variable {t u : Tid} (ht : t ≠ u)
include ht

theorem independent_release_acquire {a b : ℕ} (hab : a ≠ b) :
    (Op.release t a).Independent (.acquire u b) := by
  intro x hx
  cases x with
  | thread v =>
    simp only [touchedBy, decide_eq_true_eq] at hx
    simp [touchedBy, hx, ht]
  | sync c =>
    simp only [touchedBy, decide_eq_true_eq] at hx
    simp [touchedBy, hx, hab]
  | _ => cases hx

theorem independent_release_memoryAccess (a bs len off size : ℕ) (w : Bool) :
    (Op.release t a).Independent (.memoryAccess bs len off size u w) := by
  intro x hx
  cases x with
  | thread v =>
    simp only [touchedBy, decide_eq_true_eq] at hx
    simp [touchedBy, hx, ht]
  | _ => first | rfl | cases hx

theorem independent_memoryAccess {bs off size bs' off' size' : ℕ} (len len' : ℕ) (w w' : Bool)
    (hdisjoint : bs ≠ bs' ∨ off + size ≤ off' ∨ off' + size' ≤ off) :
    (Op.memoryAccess bs len off size t w).Independent
      (.memoryAccess bs' len' off' size' u w') := by
  intro x hx
  cases x with
  | thread v =>
    simp only [touchedBy, decide_eq_true_eq] at hx
    simp [touchedBy, hx, ht]
  | byte c b =>
    simp only [touchedBy, decide_eq_true_eq, decide_eq_false_iff_not] at hx ⊢
    omega
  | _ => cases hx

end Independent

end Op

namespace Detector

/-- The content of a resource. -/
def content (s : Detector) : Resource → Content
  | .thread t => .clock (s.threadClocks t)
  | .sync a => .entry (s.syncClocks a)
  | .edge id => .entry (s.hbEdges id)
  | .byte bs b => .cells (s.cellAt bs b)

/-- Two accesses of the list to one buffer find its shadow, or pass the same length. -/
def SameLengths (s : Detector) (ops : List Op) : Prop :=
  ∀ o ∈ ops, ∀ o' ∈ ops, ∀ bs len len',
    o.accessed = some (bs, len) → o'.accessed = some (bs, len') →
    (s.shadowBuffers bs).isSome = true ∨ len = len'

variable {s s' : Detector} {o : Op}

/-! ### Operations are local -/

theorem threadClocks_next (he : s.enabled = true) (ho : o.isLocal = true) (t : Tid) :
    (o.next s).threadClocks t = s.nextClock o (.thread t) :=
  exec_clockOf he (Op.exec_of_isLocal s ho) (.thread t)

/-- The cells after an access are those that `RecordAccess` leaves. -/
theorem cellAt_memoryAccess (he : s.enabled = true) (bs len off size : ℕ) (t : Tid) (w : Bool)
    (bs' b : ℕ) (c : Fin kShadowCellsPerByte) :
    (s.memoryAccess bs len off size t w).2.cellAt bs' b c =
      if bs' = bs then ((s.shadowOf bs len).recordAccess off size t w (s.threadClocks t)).2.cell b c
      else s.cellAt bs' b c := by
  obtain ⟨o, _, _, _, _, hs, ho⟩ := s.memoryAccess_eq he bs len off size t w
  rw [hs]
  by_cases hbs : bs' = bs
  · subst hbs
    rw [if_pos rfl, cellAt]
    dsimp only
    rw [Function.update_self]
    rcases ho with ⟨rfl, hnone, rfl⟩ | rfl
    · rw [shadowOf, hnone, Option.getD_none, ShadowBuffer.recordAccess_of_le (Nat.zero_le _)]
      rfl
    · rfl
  · rw [if_neg hbs]
    exact cellAt_of_eq (Function.update_of_ne hbs ..) b c

/-- The other resources are left alone. -/
theorem content_next_of_not_touchedBy (he : s.enabled = true) (ho : o.isLocal = true) {x : Resource}
    (hx : Op.touchedBy x o = false) : (o.next s).content x = s.content x := by
  have hexec := Op.exec_of_isLocal s ho
  cases x with
  | thread t =>
    simp only [content, threadClocks_next he ho]
    cases o with
    | memoryAccess => simp [nextClock, ticks, sources]
    | acquire | release | mutexPostLock | mutexReadLock | mutexUnlock | happensAfter =>
      simp only [Op.touchedBy, decide_eq_false_iff_not] at hx
      simp [nextClock, ticks, sources, hx]
    | _ => cases ho
  | sync a =>
    simp only [content, Op.exec_syncClocks he hexec]
    cases o with
    | release | mutexUnlock =>
      simp only [Op.touchedBy, decide_eq_false_iff_not] at hx
      simp [Op.erases, Op.releases, Ne.symm hx]
    | acquire | mutexPostLock | mutexReadLock | happensAfter | memoryAccess =>
      simp [Op.erases, Op.releases]
    | _ => cases ho
  | edge id =>
    by_cases hdeliver : ∃ u id', o = .happensAfter u id'
    · obtain ⟨u, id', rfl⟩ := hdeliver
      simp only [Op.touchedBy, decide_eq_false_iff_not] at hx
      have hedge := hbEdges_happensAfter he u id' id
      rw [if_neg fun h ↦ hx h.1] at hedge
      exact congrArg Content.entry hedge
    · push Not at hdeliver
      have hsend : o.sendsMessage = false := by
        cases o with
        | happensBefore => cases ho
        | _ => rfl
      rw [content, content, (Op.exec_edges he hexec hsend hdeliver).1]
  | byte bs b =>
    simp only [content]
    cases o with
    | memoryAccess bs' len off size t w =>
      simp only [Op.touchedBy, decide_eq_false_iff_not] at hx
      refine congrArg Content.cells (funext fun c ↦ ?_)
      refine (cellAt_memoryAccess he bs' len off size t w bs b c).trans ?_
      split_ifs with hbs
      · subst hbs
        rw [ShadowBuffer.recordAccess_cell_of_not_mem fun hb ↦ hx ⟨rfl, hb⟩, shadowOf_cell]
      · rfl
    | acquire | release | mutexPostLock | mutexReadLock | mutexUnlock | happensAfter =>
      have hbuffers := Op.exec_shadowBuffers_of_not_memory hexec rfl
      exact congrArg Content.cells (funext fun c ↦ cellAt_of_eq (congrFun hbuffers bs) b c)
    | _ => cases ho

/-- What a local operation does to the resources that it touches, and what it finds, depends on
their content only. -/
theorem content_next_congr (he : s.enabled = true) (he' : s'.enabled = true)
    (ho : o.isLocal = true)
    (hlen : ∀ bs len, o.accessed = some (bs, len) →
      (s.shadowOf bs len).byteLength = (s'.shadowOf bs len).byteLength)
    (h : ∀ x, Op.touchedBy x o = true → s.content x = s'.content x) :
    o.finds s = o.finds s' ∧
      ∀ x, Op.touchedBy x o = true → (o.next s).content x = (o.next s').content x := by
  have hexec := Op.exec_of_isLocal s ho
  have hexec' := Op.exec_of_isLocal s' ho
  cases o with
  | acquire t a | mutexPostLock t a | mutexReadLock t a | release t a | mutexUnlock t a =>
    have hthread := Content.clock.inj (h (.thread t) (by simp [Op.touchedBy]))
    have hsync := Content.entry.inj (h (.sync a) (by simp [Op.touchedBy]))
    refine ⟨rfl, fun x hx ↦ ?_⟩
    cases x with
    | thread u =>
      simp only [Op.touchedBy, decide_eq_true_eq] at hx
      subst hx
      simp only [content, threadClocks_next he ho, threadClocks_next he' ho]
      simp [nextClock, ticks, sources, clockOf, hthread, hsync]
    | sync b =>
      simp only [Op.touchedBy, decide_eq_true_eq] at hx
      subst hx
      simp only [content, Op.exec_syncClocks he hexec, Op.exec_syncClocks he' hexec']
      simp [Op.erases, Op.releases, hthread, hsync]
    | _ => cases hx
  | happensAfter t id =>
    have hthread := Content.clock.inj (h (.thread t) (by simp [Op.touchedBy]))
    have hedge := Content.entry.inj (h (.edge id) (by simp [Op.touchedBy]))
    refine ⟨rfl, fun x hx ↦ ?_⟩
    cases x with
    | thread u =>
      simp only [Op.touchedBy, decide_eq_true_eq] at hx
      subst hx
      simp only [content, threadClocks_next he ho, threadClocks_next he' ho]
      by_cases hid : id = 0
      · simp [nextClock, ticks, sources, hid, hthread]
      · simp [nextClock, ticks, sources, clockOf, hid, hthread, hedge]
    | edge id' =>
      simp only [Op.touchedBy, decide_eq_true_eq] at hx
      subst hx
      refine congrArg Content.entry ?_
      exact (hbEdges_happensAfter he t id' id').trans
        (hedge ▸ (hbEdges_happensAfter he' t id' id').symm)
    | _ => cases hx
  | memoryAccess bs len off size t w =>
    have hthread := Content.clock.inj (h (.thread t) (by simp [Op.touchedBy]))
    have hcells (b : ℕ) (c : Fin kShadowCellsPerByte) (hb : off ≤ b) (hb' : b < off + size) :
        (s.shadowOf bs len).cell b c = (s'.shadowOf bs len).cell b c := by
      have hbyte := Content.cells.inj (h (.byte bs b) (by simp [Op.touchedBy, hb, hb']))
      rw [shadowOf_cell, shadowOf_cell, congrFun hbyte c]
    obtain ⟨hfound, hafter⟩ := @ShadowBuffer.recordAccess_congr (s.shadowOf bs len) off size t w
      (s.threadClocks t) (s'.shadowOf bs len) (hlen bs len rfl) hcells
    rw [hthread] at hfound hafter
    refine ⟨?_, fun x hx ↦ ?_⟩
    · simp only [Op.finds, Op.found, memoryAccess_found _ he, memoryAccess_found _ he', hthread]
      exact hfound
    cases x with
    | thread u =>
      simp only [content, threadClocks_next he ho, threadClocks_next he' ho]
      simp only [Op.touchedBy, decide_eq_true_eq] at hx
      subst hx
      simp [nextClock, ticks, sources, hthread]
    | byte bs' b =>
      simp only [Op.touchedBy, decide_eq_true_eq] at hx
      obtain ⟨rfl, hb, hb'⟩ := hx
      refine congrArg Content.cells (funext fun c ↦ ?_)
      have hs := cellAt_memoryAccess he bs' len off size t w bs' b c
      have hs' := cellAt_memoryAccess he' bs' len off size t w bs' b c
      rw [if_pos rfl, hthread] at hs
      rw [if_pos rfl] at hs'
      exact hs.trans ((hafter b c hb hb').trans hs'.symm)
    | _ => cases hx
  | _ => cases ho

/-! ### The detector as a local machine -/

/-- The length of the shadow that an access finds or creates stays the same. -/
theorem byteLength_shadowOf_next (he : s.enabled = true) (ho : o.isLocal = true) {bs len : ℕ}
    (hlen : ∀ len', o.accessed = some (bs, len') →
      (s.shadowOf bs len').byteLength = (s.shadowOf bs len).byteLength) :
    ((o.next s).shadowOf bs len).byteLength = (s.shadowOf bs len).byteLength := by
  have hexec := Op.exec_of_isLocal s ho
  have hsame (h : (o.next s).shadowBuffers bs = s.shadowBuffers bs) :
      ((o.next s).shadowOf bs len).byteLength = (s.shadowOf bs len).byteLength := by
    rw [shadowOf, h, ← shadowOf]
  by_cases hmem : ∃ bs' len' off size t w, o = .memoryAccess bs' len' off size t w
  · obtain ⟨bs', len', off, size, t, w, rfl⟩ := hmem
    obtain ⟨shadow, _, _, _, _, hs, hshadow⟩ := s.memoryAccess_eq he bs' len' off size t w
    have hnext : (Op.memoryAccess bs' len' off size t w).next s =
        (s.memoryAccess bs' len' off size t w).2 := rfl
    by_cases hbs : bs = bs'
    · subst hbs
      rcases hshadow with ⟨rfl, hnone, -⟩ | rfl
      · refine hsame ?_
        rw [hnext, hs, hnone]
        exact Function.update_self ..
      · rw [hnext, hs, shadowOf]
        dsimp only
        rw [Function.update_self, Option.getD_some, ShadowBuffer.recordAccess_byteLength]
        exact hlen len' rfl
    · refine hsame ?_
      rw [hnext, hs]
      exact Function.update_of_ne hbs ..
  · have hother : o.concernsMemory = false := by
      cases o with
      | memoryAccess bs' len' off size t w => exact absurd ⟨bs', len', off, size, t, w, rfl⟩ hmem
      | removeShadow | clearShadow => cases ho
      | _ => rfl
    exact hsame (congrFun (Op.exec_shadowBuffers_of_not_memory hexec hother) bs)

/-- The detector, with the local operations of a list, which agree on the lengths of shadows. -/
def localMachine (ops : List Op) (length : ℕ → ℕ) :
    LocalMachine Detector Op Resource Content Bool where
  step s o := o.next s
  out s o := o.finds s
  view := content
  touchedBy := Op.touchedBy
  State s := s.enabled = true ∧ ∀ o ∈ ops, ∀ bs len, o.accessed = some (bs, len) →
    (s.shadowOf bs len).byteLength = length bs
  Letter o := o ∈ ops ∧ o.isLocal = true
  exists_touchedBy ho := Op.exists_touchedBy ho.2
  state_step {s o} hs ho := by
    refine ⟨(Op.exec_enabled (Op.exec_of_isLocal s ho.2)).trans hs.1, fun o' ho' bs len hacc ↦ ?_⟩
    rw [byteLength_shadowOf_next hs.1 ho.2 fun len' hacc' ↦ ?_, hs.2 o' ho' bs len hacc]
    rw [hs.2 o ho.1 bs len' hacc', hs.2 o' ho' bs len hacc]
  view_step hs ho hx := content_next_of_not_touchedBy hs.1 ho.2 hx
  step_congr {s s' o} hs hs' ho h := by
    refine content_next_congr hs.1 hs'.1 ho.2 (fun bs len hacc ↦ ?_) h
    rw [hs.2 o ho.1 bs len hacc, hs'.2 o ho.1 bs len hacc]

/-- The operations of a list, each with what it finds. -/
def verdicts (s : Detector) : List Op → List (Op × Bool)
  | [] => []
  | o :: ops => (o, o.finds s) :: verdicts (o.next s) ops

/-- Two states with the same clocks, edges and cells. -/
structure Agrees (s s' : Detector) : Prop where
  threadClocks : s.threadClocks = s'.threadClocks
  syncClocks : s.syncClocks = s'.syncClocks
  hbEdges : s.hbEdges = s'.hbEdges
  cellAt : s.cellAt = s'.cellAt

theorem Agrees.of_content (h : ∀ x, s.content x = s'.content x) : s.Agrees s' where
  threadClocks := funext fun t ↦ Content.clock.inj (h (.thread t))
  syncClocks := funext fun a ↦ Content.entry.inj (h (.sync a))
  hbEdges := funext fun id ↦ Content.entry.inj (h (.edge id))
  cellAt := funext fun bs ↦ funext fun b ↦ Content.cells.inj (h (.byte bs b))

theorem verdicts_eq_outputs (ops : List Op) (length : ℕ → ℕ) (s : Detector) (w : List Op) :
    s.verdicts w = (localMachine ops length).outputs s w := by
  induction w generalizing s with
  | nil => rfl
  | cons o w ih =>
    rw [verdicts, LocalMachine.outputs, ih]
    rfl

theorem execAll_of_isLocal {w : List Op} (hw : ∀ o ∈ w, o.isLocal = true) (s : Detector) :
    execAll Op.exec s w = some (w.foldl (fun s o ↦ o.next s) s) := by
  induction w generalizing s with
  | nil => rfl
  | cons o w ih =>
    rw [execAll, Op.exec_of_isLocal s (hw o List.mem_cons_self)]
    exact ih (fun o' ho' ↦ hw o' (List.mem_cons_of_mem o ho')) (o.next s)

/-- Operations that pass the same lengths are those of a local machine. -/
theorem SameLengths.exists_localMachine {ops : List Op} (h : s.SameLengths ops)
    (he : s.enabled = true) : ∃ length, (localMachine ops length).State s := by
  classical
  let length (bs : ℕ) : ℕ :=
    if hbs : ∃ len, ∃ o ∈ ops, o.accessed = some (bs, len) then
      (s.shadowOf bs hbs.choose).byteLength
    else 0
  refine ⟨length, he, fun o ho bs len hacc ↦ ?_⟩
  have hbs : ∃ len, ∃ o ∈ ops, o.accessed = some (bs, len) := ⟨len, o, ho, hacc⟩
  have hlength : length bs = (s.shadowOf bs hbs.choose).byteLength := dif_pos hbs
  obtain ⟨o', ho', hacc'⟩ := hbs.choose_spec
  rw [hlength]
  rcases h o ho o' ho' bs len hbs.choose hacc hacc' with hsome | hsame
  · obtain ⟨shadow, hshadow⟩ := Option.isSome_iff_exists.mp hsome
    rw [shadowOf, shadowOf, hshadow, Option.getD_some, Option.getD_some]
  · rw [← hsame]

end Detector

namespace Run

/-- Verdicts do not depend on the interleaving of independent operations. In every state of a run,
two independent operations give the same clocks, edges and cells in either order, and find the same
races. Two sequences of local operations that order them alike at every thread, address, edge and
byte give the same state, and every operation of a thread finds the same. In both cases the accesses
to one buffer find its shadow, or pass the same length. -/
theorem interleaving_independent (r : Run) {k : ℕ} (hk : k ≤ r.ops.length) :
    (∀ {o o' : Op}, o.isLocal = true → o'.isLocal = true → o.Independent o' →
      (r.state k).SameLengths [o, o'] → ∃ s₁ s₂ s₁₂ s₂₁, o.exec (r.state k) = some s₁ ∧
        o'.exec s₁ = some s₁₂ ∧ o'.exec (r.state k) = some s₂ ∧ o.exec s₂ = some s₂₁ ∧
        s₁₂.Agrees s₂₁ ∧ o.finds (r.state k) = o.finds s₂ ∧ o'.finds s₁ = o'.finds (r.state k)) ∧
    ∀ {w w' : List Op}, (∀ o ∈ w, o.isLocal = true) → (∀ o ∈ w', o.isLocal = true) →
      (r.state k).SameLengths w →
      (∀ x, w.filter (Op.touchedBy x) = w'.filter (Op.touchedBy x)) →
      ∃ s₁ s₂, execAll Op.exec (r.state k) w = some s₁ ∧
        execAll Op.exec (r.state k) w' = some s₂ ∧ s₁.Agrees s₂ ∧
        ∀ t, ((r.state k).verdicts w).filter (fun v ↦ Op.touchedBy (.thread t) v.1) =
          ((r.state k).verdicts w').filter fun v ↦ Op.touchedBy (.thread t) v.1 := by
  have he := r.enabled hk
  constructor
  · intro o o' ho ho' hind hlen
    obtain ⟨length, hs⟩ := hlen.exists_localMachine he
    have hletter : (Detector.localMachine [o, o'] length).Letter o :=
      ⟨List.mem_cons_self, ho⟩
    have hletter' : (Detector.localMachine [o, o'] length).Letter o' :=
      ⟨List.mem_cons_of_mem o List.mem_cons_self, ho'⟩
    have hcomm := LocalMachine.step_comm hs hletter hletter' hind
    exact ⟨_, _, _, _, Op.exec_of_isLocal _ ho, Op.exec_of_isLocal _ ho', Op.exec_of_isLocal _ ho',
      Op.exec_of_isLocal _ ho, .of_content hcomm.view,
      (LocalMachine.out_step hs hletter' hletter (LocalMachine.Independent.symm hind)).symm,
      LocalMachine.out_step hs hletter hletter' hind⟩
  · intro w w' hw hw' hlen hfilter
    obtain ⟨length, hs⟩ := hlen.exists_localMachine he
    have hmem (o : Op) (ho : o ∈ w') : o ∈ w := by
      obtain ⟨x, hx⟩ := Op.exists_touchedBy (hw' o ho)
      have hmem' : o ∈ w.filter (Op.touchedBy x) := hfilter x ▸ List.mem_filter.mpr ⟨ho, hx⟩
      exact (List.mem_filter.mp hmem').1
    obtain ⟨hsame, houtputs⟩ := LocalMachine.outputs_filter_eq hs (fun o ho ↦ ⟨ho, hw o ho⟩)
      (fun o ho ↦ ⟨hmem o ho, hw' o ho⟩) hfilter
    refine ⟨_, _, Detector.execAll_of_isLocal hw _, Detector.execAll_of_isLocal hw' _,
      .of_content hsame.view, fun t ↦ ?_⟩
    rw [Detector.verdicts_eq_outputs w length, Detector.verdicts_eq_outputs w length]
    exact houtputs (.thread t)

/-- Two threads that know nothing of each other. -/
def twoThreads : Run := .ofOps [.threadCreate uint32Max, .threadCreate uint32Max] (by decide)

/-- Thread 0 writes to the first half of a buffer and releases an address. Then thread 1 writes to
the second half and to the first one. -/
def schedule : List Op :=
  [.memoryAccess 7 16 0 8 0 true, .release 0 500, .memoryAccess 7 16 8 8 1 true,
    .memoryAccess 7 16 0 8 1 true]

/-- The same operations, interleaved in another way. -/
def otherSchedule : List Op :=
  [.memoryAccess 7 16 8 8 1 true, .memoryAccess 7 16 0 8 0 true, .memoryAccess 7 16 0 8 1 true,
    .release 0 500]

theorem schedule_independent :
    (∃ s₁ s₂, execAll Op.exec (twoThreads.state 2) schedule = some s₁ ∧
      execAll Op.exec (twoThreads.state 2) otherSchedule = some s₂ ∧ s₁.Agrees s₂) ∧
    ∃ s₁ s₂ s₁₂ s₂₁, (Op.release 0 500).exec (twoThreads.state 2) = some s₁ ∧
      (Op.acquire 1 600).exec s₁ = some s₁₂ ∧
      (Op.acquire 1 600).exec (twoThreads.state 2) = some s₂ ∧
      (Op.release 0 500).exec s₂ = some s₂₁ ∧ s₁₂.Agrees s₂₁ := by
  have ht : (0 : Tid) ≠ 1 := by decide
  obtain ⟨hpair, hall⟩ := interleaving_independent twoThreads (k := 2) le_rfl
  constructor
  · have hhalves :
        (Op.memoryAccess 7 16 0 8 0 true).Independent (.memoryAccess 7 16 8 8 1 true) :=
      Op.independent_memoryAccess ht 16 16 true true (.inr (.inl le_rfl))
    have hfilter (x : Resource) :
        schedule.filter (Op.touchedBy x) = otherSchedule.filter (Op.touchedBy x) :=
      ((Op.independent_release_memoryAccess ht 500 7 16 8 8 true).filter_comm
          [.memoryAccess 7 16 0 8 0 true] [.memoryAccess 7 16 0 8 1 true] x).trans <|
        (hhalves.filter_comm [] [.release 0 500, .memoryAccess 7 16 0 8 1 true] x).trans <|
          (Op.independent_release_memoryAccess ht 500 7 16 0 8 true).filter_comm
            [.memoryAccess 7 16 8 8 1 true, .memoryAccess 7 16 0 8 0 true] [] x
    have hall16 : ∀ o ∈ schedule, (o.accessed.all fun p ↦ p.2 = 16) = true := by decide
    have hlen : (twoThreads.state 2).SameLengths schedule := by
      intro o ho o' ho' bs len len' hacc hacc'
      have h := hall16 o ho
      have h' := hall16 o' ho'
      rw [hacc, Option.all_some, decide_eq_true_eq] at h
      rw [hacc', Option.all_some, decide_eq_true_eq] at h'
      exact .inr (h.trans h'.symm)
    obtain ⟨s₁, s₂, h₁, h₂, hagrees, -⟩ := hall (by decide) (by decide) hlen hfilter
    exact ⟨s₁, s₂, h₁, h₂, hagrees⟩
  · have hnone : ∀ o ∈ [Op.release 0 500, .acquire 1 600], o.accessed = none := by decide
    have hlen : (twoThreads.state 2).SameLengths [.release 0 500, .acquire 1 600] := by
      intro o ho o' _ bs len _ hacc _
      rw [hnone o ho] at hacc
      cases hacc
    obtain ⟨s₁, s₂, s₁₂, s₂₁, h₁, h₁₂, h₂, h₂₁, hagrees, -⟩ :=
      hpair rfl rfl (Op.independent_release_acquire ht (by decide)) hlen
    exact ⟨s₁, s₂, s₁₂, s₂₁, h₁, h₁₂, h₂, h₂₁, hagrees⟩

/-- A buffer without a shadow whose length is only known to one of two accesses: the other one is
tracked or not, depending on their order. So is the race that a third access finds. -/
theorem exists_order_dependent :
    ∃ o o' o'' : Op, o.isLocal = true ∧ o'.isLocal = true ∧ o''.isLocal = true ∧
      o.Independent o' ∧
      (∃ s s', execAll Op.exec (twoThreads.state 2) [o, o'] = some s ∧
        execAll Op.exec (twoThreads.state 2) [o', o] = some s' ∧ s.cellAt 7 0 ≠ s'.cellAt 7 0) ∧
      (∀ x, [o, o', o''].filter (Op.touchedBy x) = [o', o, o''].filter (Op.touchedBy x)) ∧
      (((twoThreads.state 2).verdicts [o, o', o'']).filter fun v ↦
          Op.touchedBy (.thread 1) v.1) ≠
        ((twoThreads.state 2).verdicts [o', o, o'']).filter fun v ↦
          Op.touchedBy (.thread 1) v.1 := by
  have hind : (Op.memoryAccess 7 0 0 8 0 true).Independent (.memoryAccess 7 16 8 8 1 true) :=
    Op.independent_memoryAccess (by decide) 0 16 true true (.inr (.inl le_rfl))
  refine ⟨.memoryAccess 7 0 0 8 0 true, .memoryAccess 7 16 8 8 1 true,
    .memoryAccess 7 16 0 8 1 true, rfl, rfl, rfl, hind, ⟨_, _, rfl, rfl, fun h ↦ ?_⟩,
    hind.filter_comm [] _, by decide⟩
  exact absurd (congrFun h ⟨0, by decide⟩) (by decide)

end Run

end WebTSan
