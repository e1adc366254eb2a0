import WebTSan.Atomics
import WebTSan.Clocks

/-!
# Reads-from and happens-before for atomic operations

An operation that reads from another one is ordered after it for the detector if the release of the
writer comes before the acquire of the reader. The instrumentation does not guarantee this. A
builtin calls its hook before it accesses the memory, so that the reader may acquire, then the
writer releases and writes, and then the reader reads. Code generated for wasm calls the hook after
the access, so that the reader may read and acquire between the write and the release.

## Main definitions

* `WebTSan.AtomicRun.NoWrap`, `WebTSan.Detector.Ahead`.
* `WebTSan.AtomicRun.Ordered`: the release of one operation comes before the acquire of another.

## Main results

* `WebTSan.AtomicRun.clock_le_of_ordered`, `WebTSan.AtomicRun.ordered_of_clock_le`.
* `WebTSan.AtomicRun.js_readsFrom_iff`, `WebTSan.AtomicRun.wasm_readsFrom_iff`.
-/

namespace WebTSan

/-- The own counter of `t` is ahead of what other threads and sync addresses have of it. -/
structure Detector.Ahead (s : Detector) (t : Tid) : Prop where
  thread {u : Tid} : u ≠ t → s.threadClocks u t < s.threadClocks t t
  sync (addr : ℕ) : s.clockOf (.sync addr) t < s.threadClocks t t

namespace AtomicRun

variable {α : Type} {I : Instrumentation α} {d : Detector} {mem : ℕ → ℕ} {e : AtomicRun I d mem}
  {A B : Operation α}

/-- No clock component reaches `2 ^ 64`. -/
def NoWrap (e : AtomicRun I d mem) : Prop :=
  ∀ k < e.ops.length, ∀ t, (e.state k).detector.threadClocks t t + 1 < 2 ^ 64

instance (e : AtomicRun I d mem) : Decidable e.NoWrap :=
  inferInstanceAs (Decidable (∀ k < e.ops.length, ∀ _, _ < 2 ^ 64))

/-- The operation `A` releases before the operation `B` acquires. -/
def Ordered (e : AtomicRun I d mem) (A B : Operation α) : Prop :=
  ∃ i j, i < j ∧ e.Performs A .release i ∧ e.Performs B .acquire j

/-- The detector takes part in a step with an acquire, with a release, or in a way that leaves all
clocks alone. -/
theorem step_detector {k : ℕ} (hk : k < e.ops.length) :
    (∃ o, e.Performs o .acquire k ∧
      (e.state (k + 1)).detector = (e.state k).detector.acquire o.tid o.addr) ∨
    (∃ o, e.Performs o .release k ∧
      (e.state (k + 1)).detector = (e.state k).detector.release o.tid o.addr) ∨
    (e.state (k + 1)).detector = (e.state k).detector ∨
    ∃ bs len off size t w, e.ops[k] = .access bs len off size t w ∧
      (e.state (k + 1)).detector = ((e.state k).detector.memoryAccess bs len off size t w).2 := by
  have ho := List.getElem?_eq_getElem hk
  cases hev : e.ops[k] with
  | start t op a =>
    obtain ⟨-, hs⟩ := exec_start (e.step (hev ▸ ho))
    exact .inr (.inr (.inl (by rw [hs])))
  | access bs len off size t w =>
    have hs := e.state_succ (hev ▸ ho) rfl
    exact .inr (.inr (.inr ⟨bs, len, off, size, t, w, rfl, by rw [hs]⟩))
  | micro t =>
    obtain ⟨o, m, todo, hp, hs⟩ := exec_micro (e.step (hev ▸ ho))
    obtain ⟨rfl, -⟩ := e.pending_spec hk.le hp
    have hperforms : e.Performs o m k := ⟨hev ▸ ho, todo, hp⟩
    cases m with
    | acquire => exact .inl ⟨o, hperforms, by rw [hs]; rfl⟩
    | release => exact .inr (.inl ⟨o, hperforms, by rw [hs]; rfl⟩)
    | access =>
      refine .inr (.inr (.inl ?_))
      rw [hs]
      dsimp only [Micro.exec]
      split <;> rfl

theorem enabled (he : d.enabled = true) {k : ℕ} (hk : k ≤ e.ops.length) :
    (e.state k).detector.enabled = true := by
  refine e.invariant_of_step (P := fun s ↦ s.detector.enabled = true) he (fun {j _} ho hs ↦ ?_) hk
  rw [← hs]
  rcases e.step_detector (List.getElem?_eq_some_iff.mp ho).1 with ⟨o, -, h⟩ | ⟨o, -, h⟩ | h |
    ⟨bs, len, off, size, t, w, -, h⟩ <;> rw [h]
  · exact Op.exec_enabled (o := .acquire o.tid o.addr) rfl
  · exact Op.exec_enabled (o := .release o.tid o.addr) rfl
  · exact Op.exec_enabled (o := .memoryAccess bs len off size t w) rfl

/-- What a step does to the clocks. -/
theorem step_clockOf (he : d.enabled = true) {k : ℕ} (hk : k < e.ops.length) :
    (∃ o, e.Performs o .acquire k ∧ ∀ p, (e.state (k + 1)).detector.clockOf p =
      if p = .thread o.tid then
        (e.state k).detector.clockOf p ⊔ (e.state k).detector.clockOf (.sync o.addr)
      else (e.state k).detector.clockOf p) ∨
    (∃ o, e.Performs o .release k ∧ ∀ p, (e.state (k + 1)).detector.clockOf p =
      if p = .thread o.tid then ((e.state k).detector.clockOf p).increment o.tid
      else if p = .sync o.addr then
        (e.state k).detector.clockOf p ⊔ (e.state k).detector.clockOf (.thread o.tid)
      else (e.state k).detector.clockOf p) ∨
    ∀ p, (e.state (k + 1)).detector.clockOf p = (e.state k).detector.clockOf p := by
  have hen := e.enabled he hk.le
  rcases e.step_detector hk with ⟨o, ho, h⟩ | ⟨o, ho, h⟩ | h | ⟨bs, len, off, size, t, w, -, h⟩
  · refine .inl ⟨o, ho, fun p ↦ ?_⟩
    rw [h, Detector.clockOf_acquire hen]
  · refine .inr (.inl ⟨o, ho, fun p ↦ ?_⟩)
    rw [h, Detector.clockOf_release hen]
  · exact .inr (.inr fun p ↦ by rw [h])
  · obtain ⟨_, _, _, _, _, hs, -⟩ :=
      (e.state k).detector.memoryAccess_eq hen bs len off size t w
    refine .inr (.inr fun p ↦ ?_)
    rw [h, hs]
    cases p <;> rfl

/-! ### Clocks of a run -/

theorem clockOf_le_succ (he : d.enabled = true) (hw : e.NoWrap) {k : ℕ} (hk : k < e.ops.length)
    (p : Place) : (e.state k).detector.clockOf p ≤ (e.state (k + 1)).detector.clockOf p := by
  rcases e.step_clockOf he hk with ⟨o, -, h⟩ | ⟨o, -, h⟩ | h <;> rw [h p]
  · split_ifs
    · exact le_sup_left
    · exact le_rfl
  · split_ifs with hp hp'
    · subst hp
      intro t
      by_cases ht : t = o.tid
      · subst ht
        rw [VClock.increment_self, Detector.clockOf_thread, bump_of_lt (hw k hk o.tid)]
        exact Nat.le_succ _
      · rw [VClock.increment_of_ne _ ht]
    · exact le_sup_left
    · exact le_rfl

/-- Clocks grow along a run. -/
theorem clockOf_mono (he : d.enabled = true) (hw : e.NoWrap) {k l : ℕ} (hkl : k ≤ l)
    (hl : l ≤ e.ops.length) (p : Place) :
    (e.state k).detector.clockOf p ≤ (e.state l).detector.clockOf p :=
  e.le_of_step (fun s ↦ s.detector.clockOf p) hkl hl
    fun _ hml _ ↦ e.clockOf_le_succ he hw (hml.trans_le hl) p

/-- A release puts the clock of its thread into the location. -/
theorem Performs.release_le (he : d.enabled = true) {i : ℕ} (h : e.Performs A .release i) :
    (e.state i).detector.threadClocks A.tid ≤
      (e.state (i + 1)).detector.clockOf (.sync A.addr) := by
  obtain ⟨todo, -, hs⟩ := h.state_succ
  have hdet : (e.state (i + 1)).detector = (e.state i).detector.release A.tid A.addr := by
    rw [hs]
    rfl
  rw [hdet]
  exact Detector.le_release (e.enabled he h.lt_length.le) A.tid A.addr

/-- An acquire takes the clock of its location over into the thread. -/
theorem Performs.le_acquire (he : d.enabled = true) {j : ℕ} (h : e.Performs B .acquire j) :
    (e.state j).detector.clockOf (.sync B.addr) ≤
      (e.state (j + 1)).detector.threadClocks B.tid := by
  obtain ⟨todo, -, hs⟩ := h.state_succ
  have hdet : (e.state (j + 1)).detector = (e.state j).detector.acquire B.tid B.addr := by
    rw [hs]
    rfl
  rw [hdet]
  exact Detector.le_acquire (e.enabled he h.lt_length.le) B.tid B.addr

theorem ReadsFrom.addr_eq {r : ℕ} (h : e.ReadsFrom B A r) : A.addr = B.addr :=
  (e.writer_spec h.1.lt_length.le h.2.2).1

/-- If the writer is of the same thread, or releases before the reader acquires, the clock of the
reader at its completion covers the clock of the writer at its start. -/
theorem clock_le_of_ordered (he : d.enabled = true) (hw : e.NoWrap) {a r c : ℕ}
    (ha : e.StartsAt A a) (hr : e.ReadsFrom B A r) (hc : e.Completes B c)
    (h : A.tid = B.tid ∨ e.Ordered A B) :
    (e.state a).detector.threadClocks A.tid ≤ (e.state (c + 1)).detector.threadClocks B.tid := by
  rcases h with htid | ⟨i, j, hij, hi, hj⟩
  · obtain ⟨-, -, w, hwr, hacc⟩ := e.writer_spec hr.1.lt_length.le hr.2.2
    have hac : a ≤ c + 1 := by
      have haw := ha.lt hacc
      have hrc := hr.1.le hc
      omega
    rw [htid]
    exact e.clockOf_mono he hw hac hc.lt_length (.thread B.tid)
  · calc (e.state a).detector.threadClocks A.tid
        ≤ (e.state i).detector.threadClocks A.tid :=
          e.clockOf_mono he hw (ha.lt hi).le hi.lt_length.le (.thread A.tid)
      _ ≤ (e.state (i + 1)).detector.clockOf (.sync A.addr) := hi.release_le he
      _ ≤ (e.state j).detector.clockOf (.sync A.addr) :=
          e.clockOf_mono he hw hij hj.lt_length.le _
      _ = (e.state j).detector.clockOf (.sync B.addr) := by rw [hr.addr_eq]
      _ ≤ (e.state (j + 1)).detector.threadClocks B.tid := hj.le_acquire he
      _ ≤ (e.state (c + 1)).detector.threadClocks B.tid :=
          e.clockOf_mono he hw (Nat.succ_le_succ (hj.le hc)) hc.lt_length (.thread B.tid)

/-- A plain access of the reader after its completion does not report an access that the writer
made before its start: a reported epoch of the writer is a later one. -/
theorem lt_epoch_of_found (he : d.enabled = true) (hw : e.NoWrap) {a c x y : ℕ}
    (ha : e.StartsAt A a)
    (hle : (e.state a).detector.threadClocks A.tid ≤ (e.state (c + 1)).detector.threadClocks B.tid)
    (hx : x < a) (hcy : c < y) {bs len off size : ℕ} {w : Bool}
    (hy : e.ops[y]? = some (.access bs len off size B.tid w)) {report : RaceReport}
    (hf : Op.found (e.state y).detector (.memoryAccess bs len off size B.tid w) = some report)
    (htid : report.tid1 = A.tid) :
    (e.state x).detector.threadClocks A.tid A.tid < report.epoch1 := by
  have hlen := (List.getElem?_eq_some_iff.mp hy).1
  obtain ⟨b, cell, -, -, hraces, rfl⟩ :=
    Detector.exists_of_memoryAccess_found (e.enabled he hlen.le) hf
  have hlt := (ShadowCell.races_iff.mp hraces).2.2.2
  calc (e.state x).detector.threadClocks A.tid A.tid
      ≤ (e.state a).detector.threadClocks A.tid A.tid :=
        e.clockOf_mono he hw hx.le ha.lt_length.le (.thread A.tid) A.tid
    _ ≤ (e.state (c + 1)).detector.threadClocks B.tid A.tid := hle A.tid
    _ ≤ (e.state y).detector.threadClocks B.tid A.tid :=
        e.clockOf_mono he hw hcy hlen.le (.thread B.tid) A.tid
    _ < _ := by
        rw [← htid]
        exact hlt

/-! ### Without the order -/

/-- A thread that is ahead at the start of a run stays ahead. -/
theorem ahead (he : d.enabled = true) (hw : e.NoWrap) {t : Tid} (h : d.Ahead t) {k : ℕ}
    (hk : k ≤ e.ops.length) : (e.state k).detector.Ahead t := by
  refine e.invariant_of_step (P := fun s ↦ s.detector.Ahead t) h (fun {k _} ho hs ↦ ?_) hk
  have hlen := (List.getElem?_eq_some_iff.mp ho).1
  have hthread (u : Tid) : (e.state (k + 1)).detector.threadClocks u t =
      (e.state (k + 1)).detector.clockOf (.thread u) t := rfl
  rcases e.step_clockOf he hlen with ⟨o, -, hclock⟩ | ⟨o, -, hclock⟩ | hclock
  · -- An acquire brings nothing about `t` that `t` does not know.
    have hown : (e.state (k + 1)).detector.threadClocks t t =
        (e.state k).detector.threadClocks t t := by
      rw [hthread, hclock]
      split_ifs
      · exact sup_eq_left.mpr (hs.sync o.addr).le
      · rfl
    refine ⟨fun {u} hu ↦ ?_, fun addr ↦ ?_⟩ <;> rw [hown]
    · rw [hthread, hclock]
      split_ifs
      · exact sup_lt_iff.mpr ⟨hs.thread hu, hs.sync o.addr⟩
      · exact hs.thread hu
    · rw [hclock, if_neg (by simp)]
      exact hs.sync addr
  · by_cases ht : o.tid = t
    · -- A release of `t` publishes its counter and ticks.
      subst ht
      have hown : (e.state (k + 1)).detector.threadClocks o.tid o.tid =
          (e.state k).detector.threadClocks o.tid o.tid + 1 := by
        rw [hthread, hclock, if_pos rfl, VClock.increment_self]
        exact bump_of_lt (hw k hlen o.tid)
      refine ⟨fun {u} hu ↦ ?_, fun addr ↦ ?_⟩ <;> rw [hown]
      · rw [hthread, hclock, if_neg (by simpa using hu), if_neg (by simp)]
        exact Nat.lt_succ_of_lt (hs.thread hu)
      · rw [hclock, if_neg (by simp)]
        split_ifs
        · exact sup_lt_iff.mpr ⟨Nat.lt_succ_of_lt (hs.sync addr), Nat.lt_succ_self _⟩
        · exact Nat.lt_succ_of_lt (hs.sync addr)
    · have hown : (e.state (k + 1)).detector.threadClocks t t =
          (e.state k).detector.threadClocks t t := by
        rw [hthread, hclock, if_neg (by simpa using Ne.symm ht), if_neg (by simp)]
        rfl
      refine ⟨fun {u} hu ↦ ?_, fun addr ↦ ?_⟩ <;> rw [hown]
      · rw [hthread, hclock]
        simp only [reduceCtorEq, ↓reduceIte]
        split_ifs
        · rw [VClock.increment_of_ne _ (Ne.symm ht)]
          exact hs.thread hu
        · exact hs.thread hu
      · rw [hclock, if_neg (by simp)]
        split_ifs
        · exact sup_lt_iff.mpr ⟨hs.sync addr, hs.thread ht⟩
        · exact hs.sync addr
  · refine ⟨fun {u} hu ↦ ?_, fun addr ↦ ?_⟩ <;> rw [hthread t, hclock]
    · rw [hthread u, hclock]
      exact hs.thread hu
    · rw [hclock]
      exact hs.sync addr

/-- A thread has one operation at a time. -/
theorem Performs.eq_of_pending {o o' : Operation α} {m : Micro} {k : ℕ} {todo : List Micro}
    (h : e.Performs o m k) (hp : (e.state k).pending o.tid = some (o', todo)) :
    o = o' ∧ todo.head? = some m := by
  obtain ⟨todo', hp'⟩ := h.2
  obtain ⟨rfl, rfl⟩ := Prod.mk.inj (Option.some.inj (hp'.symm.trans hp))
  exact ⟨rfl, rfl⟩

/-- The own counter of a writer stays what it was at the start until the writer releases. -/
theorem own_clock_eq (he : d.enabled = true) (hw : e.NoWrap) (hahead : d.Ahead A.tid) {a k : ℕ}
    (ha : e.StartsAt A a) (hrel : .release ∈ I.steps A.op) (hak : a < k) (hk : k ≤ e.ops.length)
    (hno : ∀ i < k, ¬e.Performs A .release i) :
    (∃ todo, (e.state k).pending A.tid = some (A, todo) ∧ .release ∈ todo) ∧
      (e.state k).detector.threadClocks A.tid A.tid =
        (e.state a).detector.threadClocks A.tid A.tid := by
  refine e.invariant_from (P := fun s ↦ (∃ todo, s.pending A.tid = some (A, todo) ∧
    .release ∈ todo) ∧ s.detector.threadClocks A.tid A.tid =
      (e.state a).detector.threadClocks A.tid A.tid) hak hk ?_ fun {j _} _ hjk ho ih ↦ ?_
  · rw [ha.state_succ]
    exact ⟨⟨_, Function.update_self .., hrel⟩, rfl⟩
  obtain ⟨⟨todo, hp, hmem⟩, hclock⟩ := ih
  have hj : j < e.ops.length := hjk.trans_le hk
  have hnot := hno j hjk
  constructor
  · rcases exec_pending (e.step ho) A.tid with
      ⟨_, _, -, hnone, -⟩ | ⟨o, m, todo', hev, hp', h⟩ | h
    · rw [hp] at hnone
      cases hnone
    · obtain ⟨rfl, rfl⟩ := Prod.mk.inj (Option.some.inj (hp.symm.trans hp'))
      have hm : m ≠ .release := by
        rintro rfl
        exact hnot ⟨hev ▸ ho, todo', hp'⟩
      have hmem' : .release ∈ todo' := (List.mem_cons.mp hmem).resolve_left hm.symm
      exact ⟨todo', h.trans (leftover_eq_some_iff.mpr
        ⟨rfl, rfl, List.ne_nil_of_mem hmem'⟩), hmem'⟩
    · exact ⟨todo, h.trans hp, hmem⟩
  · rw [← hclock]
    have hsync := (e.ahead he hw hahead hj.le).sync
    have hthread : (e.state (j + 1)).detector.threadClocks A.tid A.tid =
        (e.state (j + 1)).detector.clockOf (.thread A.tid) A.tid := rfl
    rw [hthread]
    rcases e.step_clockOf he hj with ⟨o, -, h⟩ | ⟨o, hperforms, h⟩ | h <;> rw [h]
    · split_ifs
      · exact sup_eq_left.mpr (hsync o.addr).le
      · rfl
    · have htid : A.tid ≠ o.tid := by
        intro htid
        obtain ⟨rfl, -⟩ := hperforms.eq_of_pending (htid ▸ hp)
        exact hnot hperforms
      rw [if_neg (by simpa using htid), if_neg (by simp)]
      rfl
    · rfl

/-- A thread learns about another one only by an acquire. -/
theorem clock_succ_of_not_acquire (he : d.enabled = true) {t : Tid} (ht : t ≠ B.tid) {k : ℕ}
    (hk : k < e.ops.length) {todo : List Micro}
    (hp : (e.state k).pending B.tid = some (B, todo)) (hno : ¬e.Performs B .acquire k) :
    (e.state (k + 1)).detector.threadClocks B.tid t =
      (e.state k).detector.threadClocks B.tid t := by
  have hthread : (e.state (k + 1)).detector.threadClocks B.tid t =
      (e.state (k + 1)).detector.clockOf (.thread B.tid) t := rfl
  rw [hthread]
  rcases e.step_clockOf he hk with ⟨o, hperforms, h⟩ | ⟨o, -, h⟩ | h <;> rw [h]
  · have htid : B.tid ≠ o.tid := by
      intro htid
      obtain ⟨rfl, -⟩ := hperforms.eq_of_pending (htid ▸ hp)
      exact hno hperforms
    rw [if_neg (by simpa using htid)]
    rfl
  · simp only [reduceCtorEq, ↓reduceIte]
    split_ifs with htid
    · exact VClock.increment_of_ne _ (Place.thread.inj htid ▸ ht)
    · rfl
  · rfl

/-- After its acquire a reader learns nothing more until it completes. -/
theorem clock_eq_of_acquired (he : d.enabled = true) {t : Tid} (ht : t ≠ B.tid) {j c : ℕ}
    (hj : e.Performs B .acquire j) (hc : e.Completes B c) :
    (e.state (c + 1)).detector.threadClocks B.tid t =
      (e.state (j + 1)).detector.threadClocks B.tid t := by
  rcases (hj.le hc).eq_or_lt with rfl | hjc
  · rfl
  obtain ⟨last, hlast⟩ := hc.2
  obtain ⟨-, a, ha, hstart, hbefore⟩ := e.pending_spec hc.lt_length.le hlast
  have haj := hstart.lt hj
  -- The acquire is not among the steps that are left.
  have hleft : (∃ todo, (e.state c).pending B.tid = some (B, todo) ∧ .acquire ∉ todo) ∧
      (e.state c).detector.threadClocks B.tid t =
        (e.state (j + 1)).detector.threadClocks B.tid t := by
    refine e.invariant_from (P := fun s ↦ (∃ todo, s.pending B.tid = some (B, todo) ∧
      .acquire ∉ todo) ∧ s.detector.threadClocks B.tid t =
        (e.state (j + 1)).detector.threadClocks B.tid t) hjc hc.lt_length.le ?_
      fun {k _} hjk hkc ho ih ↦ ?_
    · obtain ⟨todo, hp, hs⟩ := hj.state_succ
      obtain ⟨pre, hpre, -⟩ := hbefore (j + 1) (Nat.lt_succ_of_lt haj) hjc
      have hpending : (e.state (j + 1)).pending B.tid = leftover B todo := by
        rw [hs]
        exact Function.update_self ..
      obtain ⟨-, rfl, -⟩ := leftover_eq_some_iff.mp (hpending.symm.trans hpre)
      exact ⟨⟨_, hpre, hj.notMem hp⟩, rfl⟩
    · obtain ⟨⟨todo, hp, hmem⟩, hclock⟩ := ih
      have hno : ¬e.Performs B .acquire k := fun h ↦
        hmem (List.mem_of_mem_head? (h.eq_of_pending hp).2)
      refine ⟨?_, (clock_succ_of_not_acquire he ht (hkc.trans hc.lt_length) hp hno).trans hclock⟩
      obtain ⟨pre, hpre, -⟩ := hbefore (k + 1) (Nat.lt_succ_of_lt (haj.trans hjk)) hkc
      rcases exec_pending (e.step ho) B.tid with
        ⟨_, _, -, hnone, -⟩ | ⟨o, m, todo', -, hp', h⟩ | h
      · rw [hp] at hnone
        cases hnone
      · obtain ⟨rfl, rfl⟩ := Prod.mk.inj (Option.some.inj (hp.symm.trans hp'))
        obtain ⟨-, rfl, -⟩ := leftover_eq_some_iff.mp (h.symm.trans hpre)
        exact ⟨_, hpre, fun h ↦ hmem (List.mem_cons_of_mem _ h)⟩
      · exact ⟨todo, h.trans hp, hmem⟩
  obtain ⟨⟨todo, hp, hmem⟩, hclock⟩ := hleft
  have hno : ¬e.Performs B .acquire c := fun h ↦
    hmem (List.mem_of_mem_head? (h.eq_of_pending hp).2)
  exact (clock_succ_of_not_acquire he ht hc.lt_length hp hno).trans hclock

/-- If the clock of the reader covers the clock of a writer that is ahead, the writer released
before the reader acquired. -/
theorem ordered_of_clock_le (he : d.enabled = true) (hw : e.NoWrap) (hahead : d.Ahead A.tid)
    {a r c : ℕ} (ha : e.StartsAt A a) (hr : e.ReadsFrom B A r) (hc : e.Completes B c)
    (hne : A.tid ≠ B.tid)
    (hle : (e.state a).detector.threadClocks A.tid ≤
      (e.state (c + 1)).detector.threadClocks B.tid) : e.Ordered A B := by
  obtain ⟨-, ⟨_, _, hwritten⟩, -⟩ := e.writer_spec hr.1.lt_length.le hr.2.2
  have hrel := I.release_mem hwritten
  obtain ⟨j, hj⟩ := hc.performs (I.acquire_mem hr.2.1)
  by_contra hord
  have hno (i : ℕ) (hi : i < j + 1) : ¬e.Performs A .release i := by
    intro h
    rcases Nat.lt_succ_iff_lt_or_eq.mp hi with hij | rfl
    · exact hord ⟨i, j, hij, h, hj⟩
    · have hev := h.1.symm.trans hj.1
      exact hne (Event.micro.inj (Option.some.inj hev))
  have hown : (e.state (j + 1)).detector.threadClocks A.tid A.tid ≤
      (e.state a).detector.threadClocks A.tid A.tid := by
    rcases le_or_gt (j + 1) a with hja | haj
    · exact e.clockOf_mono he hw hja ha.lt_length.le (.thread A.tid) A.tid
    · exact (own_clock_eq he hw hahead ha hrel haj hj.lt_length hno).2.le
  have hlt : (e.state (j + 1)).detector.threadClocks B.tid A.tid <
      (e.state (j + 1)).detector.threadClocks A.tid A.tid :=
    (e.ahead he hw hahead hj.lt_length).thread hne.symm
  have hcover := hle A.tid
  rw [clock_eq_of_acquired he hne hj hc] at hcover
  exact absurd (hlt.trans_le hown) (not_lt_of_ge hcover)

/-! ### The two languages -/

/-- What the instrumentation promises of an operation `A` that starts at `a` and of an operation `B`
that completes at `c`: the clock of `B` covers the one of `A`, and plain accesses of the thread of
`A` before and of the thread of `B` after the operations are not reported with each other. -/
structure Covers (e : AtomicRun I d mem) (A B : Operation α) (a c : ℕ) : Prop where
  clock_le :
    (e.state a).detector.threadClocks A.tid ≤ (e.state (c + 1)).detector.threadClocks B.tid
  lt_epoch {x y bs len off size bs' len' off' size' : ℕ} {w w' : Bool} {report : RaceReport} :
    x < a → e.ops[x]? = some (.access bs' len' off' size' A.tid w') →
    c < y → e.ops[y]? = some (.access bs len off size B.tid w) →
    Op.found (e.state y).detector (.memoryAccess bs len off size B.tid w) = some report →
    report.tid1 = A.tid → (e.state x).detector.threadClocks A.tid A.tid < report.epoch1

theorem covers_iff (he : d.enabled = true) (hw : e.NoWrap) {a r c : ℕ} (ha : e.StartsAt A a)
    (hr : e.ReadsFrom B A r) (hc : e.Completes B c) :
    (A.tid = B.tid ∨ e.Ordered A B → e.Covers A B a c) ∧
      (d.Ahead A.tid → e.Covers A B a c → A.tid = B.tid ∨ e.Ordered A B) := by
  refine ⟨fun h ↦ ?_, fun hahead hcovers ↦ ?_⟩
  · have hle := clock_le_of_ordered he hw ha hr hc h
    exact ⟨hle, fun hx _ hy hop hf htid ↦ lt_epoch_of_found he hw ha hle hx hy hop hf htid⟩
  · by_cases hne : A.tid = B.tid
    · exact .inl hne
    · exact .inr (ordered_of_clock_le he hw hahead ha hr hc hne hcovers.clock_le)

/-- In the run an operation reads from another one that is not ordered before it, and plain
accesses of the two threads before and after the operations are reported as a race. -/
def ReportsOrdered (e : AtomicRun I d mem) : Prop :=
  ∃ (A B : Operation α) (a r c : ℕ), e.StartsAt A a ∧ e.ReadsFrom B A r ∧ e.Completes B c ∧
    ¬(e.state a).detector.threadClocks A.tid ≤ (e.state (c + 1)).detector.threadClocks B.tid ∧
    ∃ x < a, ∃ y > c, ∃ bs len off size,
      e.ops[x]? = some (.access bs len off size A.tid true) ∧
      e.ops[y]? = some (.access bs len off size B.tid true) ∧
      (Op.found (e.state y).detector (.memoryAccess bs len off size B.tid true)).map
          (fun report ↦ (report.tid1, report.epoch1)) =
        some (A.tid, (e.state x).detector.threadClocks A.tid A.tid)

/-- The detector after the creation of two threads. -/
def twoThreads : Detector := (Detector.initial.occupy 0 uint32Max).occupy 1 uint32Max

/-- An operation of `Atomics` that reads from another one is ordered after it if they are of one
thread, or the release hook of the writer runs before the acquire hook of the reader. For a writer
whose thread is ahead at the start of the run it is ordered after it only then. -/
theorem js_readsFrom_iff {d : Detector} {mem : ℕ → ℕ} (e : AtomicRun Instrumentation.js d mem)
    (he : d.enabled = true) (hw : e.NoWrap) {A B : Operation JsAtomic} {a r c : ℕ}
    (ha : e.StartsAt A a) (hr : e.ReadsFrom B A r) (hc : e.Completes B c) :
    (A.tid = B.tid ∨ e.Ordered A B → e.Covers A B a c) ∧
      (d.Ahead A.tid → e.Covers A B a c → A.tid = B.tid ∨ e.Ordered A B) :=
  covers_iff he hw ha hr hc

/-- Thread `0` writes some data and then stores a flag. Thread `1` loads the flag afterwards and
writes the same data. -/
def jsHandover : AtomicRun Instrumentation.js twoThreads 0 :=
  .ofOps [.access 1000 64 8 1 0 true, .start 0 (.store 1) 500, .micro 0, .micro 0,
    .start 1 .load 500, .micro 1, .micro 1, .access 1000 64 8 1 1 true] rfl

theorem jsHandover_covers :
    jsHandover.Covers { id := 0, tid := 0, op := .store 1, addr := 500 }
      { id := 1, tid := 1, op := .load, addr := 500 } 1 6 :=
  (js_readsFrom_iff jsHandover rfl (by decide +kernel) ⟨rfl, rfl⟩ ⟨⟨rfl, [], rfl⟩, rfl, rfl⟩
    (r := 6) ⟨rfl, .access, rfl⟩).1 (.inr ⟨2, 5, by decide, ⟨rfl, _, rfl⟩, rfl, _, rfl⟩)

/-- The reader acquires, then the writer releases and writes, and then the reader reads. -/
def jsWindow : AtomicRun Instrumentation.js twoThreads 0 :=
  .ofOps [.access 1000 64 8 1 0 true, .start 0 (.store 1) 500, .start 1 .load 500, .micro 1,
    .micro 0, .micro 0, .micro 1, .access 1000 64 8 1 1 true] rfl

/-- In the window between hook and access of the reader the order is lost. -/
theorem exists_js_reportsOrdered :
    ∃ e : AtomicRun Instrumentation.js twoThreads 0, e.NoWrap ∧ e.ReportsOrdered := by
  refine ⟨jsWindow, by decide +kernel, { id := 0, tid := 0, op := .store 1, addr := 500 },
    { id := 1, tid := 1, op := .load, addr := 500 }, 1, 6, 6, ⟨rfl, rfl⟩,
    ⟨⟨rfl, [], rfl⟩, rfl, rfl⟩, ⟨rfl, .access, rfl⟩, fun h ↦ ?_, 0, by decide, 7, by decide,
    1000, 64, 8, 1, rfl, rfl, by decide +kernel⟩
  exact absurd (h 0) (by decide +kernel)

/-- An atomic instruction that reads from another one is ordered after it if they are of one thread,
or the release in the trace call of the writer runs before the acquire in the one of the reader. For
a writer whose thread is ahead at the start of the run it is ordered after it only then. -/
theorem wasm_readsFrom_iff {d : Detector} {mem : ℕ → ℕ} (e : AtomicRun Instrumentation.wasm d mem)
    (he : d.enabled = true) (hw : e.NoWrap) {A B : Operation WasmAtomic} {a r c : ℕ}
    (ha : e.StartsAt A a) (hr : e.ReadsFrom B A r) (hc : e.Completes B c) :
    (A.tid = B.tid ∨ e.Ordered A B → e.Covers A B a c) ∧
      (d.Ahead A.tid → e.Covers A B a c → A.tid = B.tid ∨ e.Ordered A B) :=
  covers_iff he hw ha hr hc

/-- Thread `0` writes some data and then stores a flag. Thread `1` loads the flag after the store
has been traced, and writes the same data. -/
def wasmHandover : AtomicRun Instrumentation.wasm twoThreads 0 :=
  .ofOps [.access 1000 64 8 1 0 true, .start 0 (.store 1) 500, .micro 0, .micro 0, .micro 0,
    .start 1 .load 500, .micro 1, .micro 1, .access 1000 64 8 1 1 true] rfl

theorem wasmHandover_covers :
    wasmHandover.Covers { id := 0, tid := 0, op := .store 1, addr := 500 }
      { id := 1, tid := 1, op := .load, addr := 500 } 1 7 :=
  (wasm_readsFrom_iff wasmHandover rfl (by decide +kernel) ⟨rfl, rfl⟩ ⟨⟨rfl, _, rfl⟩, rfl, rfl⟩
    (r := 6) ⟨rfl, .acquire, rfl⟩).1 (.inr ⟨4, 7, by decide, ⟨rfl, _, rfl⟩, rfl, _, rfl⟩)

/-- The reader reads and acquires between the store of the writer and its trace call. -/
def wasmWindow : AtomicRun Instrumentation.wasm twoThreads 0 :=
  .ofOps [.access 1000 64 8 1 0 true, .start 0 (.store 1) 500, .micro 0, .start 1 .load 500,
    .micro 1, .micro 1, .access 1000 64 8 1 1 true, .micro 0, .micro 0] rfl

/-- In the window between access and trace call of the writer the order is lost. -/
theorem exists_wasm_reportsOrdered :
    ∃ e : AtomicRun Instrumentation.wasm twoThreads 0, e.NoWrap ∧ e.ReportsOrdered := by
  refine ⟨wasmWindow, by decide +kernel, { id := 0, tid := 0, op := .store 1, addr := 500 },
    { id := 1, tid := 1, op := .load, addr := 500 }, 1, 4, 5, ⟨rfl, rfl⟩,
    ⟨⟨rfl, _, rfl⟩, rfl, rfl⟩, ⟨rfl, .acquire, rfl⟩, fun h ↦ ?_, 0, by decide, 6, by decide,
    1000, 64, 8, 1, rfl, rfl, by decide +kernel⟩
  exact absurd (h 0) (by decide +kernel)

end AtomicRun

end WebTSan
