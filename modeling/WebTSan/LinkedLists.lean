import Mathlib.Algebra.Order.BigOperators.Group.List
import Mathlib.Algebra.Order.Ring.Nat
import Mathlib.Data.List.AList
import Mathlib.Data.List.Basic
import Mathlib.Logic.Function.Basic
import Mathlib.Logic.Relation

/-!
# Doubly linked lists in a heap

Nodes lie in a heap. Each has data and two links, and a link may be null. A node is followed only if
it is allocated, so an operation on a node that is not has no result. Several lists share the heap:
they have no nodes in common, and a node on no list has null links. Appending a node to a list,
bypassing one, and handing a whole list over to an empty place keep this.

## Main definitions

* `WebTSan.HeapNode`, `WebTSan.NodeHeap`, `WebTSan.NodeLinks`: the heap and its links.
* `WebTSan.Linked`: the nodes of a list are linked to each other.
* `WebTSan.LinkedLists`: the lists of a heap.
* `WebTSan.Ends`, `WebTSan.endsOf`: the first and the last node of a list.

## Main results

* `WebTSan.LinkedLists.exists_split`: what the links of a node on a list are.
* `WebTSan.LinkedLists.pushBack`, `WebTSan.LinkedLists.unlink`, `WebTSan.LinkedLists.move`.
* `WebTSan.LinkedLists.mem_iff_follows`: the nodes of a list are those that its links lead to.
-/

namespace WebTSan

/-- A node of a doubly linked list. -/
structure HeapNode (α δ : Type*) where
  data : δ
  prev : Option α
  next : Option α

/-- The nodes that are allocated. -/
abbrev NodeHeap (α δ : Type*) := α → Option (HeapNode α δ)

/-- The previous and the next node of the nodes that are allocated. -/
abbrev NodeLinks (α : Type*) := α → Option (Option α × Option α)

/-- The first and the last node of a list. -/
structure Ends (α : Type*) where
  head : α
  tail : α
deriving DecidableEq

variable {α δ κ : Type*}

/-! ### Nodes -/

namespace NodeHeap

variable (h : NodeHeap α δ) {a : α}

def links : NodeLinks α := Option.map (fun x ↦ (x.prev, x.next)) ∘ h

def data : α → Option δ := Option.map HeapNode.data ∘ h

/-- Some nodes are freed, and the others keep their data. -/
def Frees (h' : NodeHeap α δ) (D : α → Prop) : Prop :=
  ∀ a d, h'.data a = some d ↔ h.data a = some d ∧ ¬D a

variable {h} in
theorem Frees.trans {h' h'' : NodeHeap α δ} {D D' : α → Prop} (hD : h.Frees h' D)
    (hD' : h'.Frees h'' D') : h.Frees h'' fun a ↦ D a ∨ D' a := fun a d ↦ by
  rw [hD' a d, hD a d, not_or, and_assoc]

variable {h} in
theorem Frees.congr {h' : NodeHeap α δ} {D D' : α → Prop} (hD : h.Frees h' D)
    (hiff : ∀ a d, h.data a = some d → (D a ↔ D' a)) : h.Frees h' D' := fun a d ↦
  (hD a d).trans (and_congr_right fun ha ↦ not_congr (hiff a d ha))

variable {h} in
theorem Frees.data_eq {h' : NodeHeap α δ} {D : α → Prop} (hD : h.Frees h' D) (ha : ¬D a) :
    h'.data a = h.data a :=
  Option.ext fun d ↦ (hD a d).trans (and_iff_left ha)

variable {h} in
theorem Frees.data_eq_none {h' : NodeHeap α δ} {D : α → Prop} (hD : h.Frees h' D) (ha : D a) :
    h'.data a = none :=
  Option.eq_none_iff_forall_ne_some.mpr fun d hd ↦ ((hD a d).mp hd).2 ha

variable {h} in
theorem links_of_eq {x : HeapNode α δ} (ha : h a = some x) : h.links a = some (x.prev, x.next) := by
  rw [links, Function.comp_apply, ha]
  rfl

variable {h} in
theorem data_of_eq {x : HeapNode α δ} (ha : h a = some x) : h.data a = some x.data := by
  rw [data, Function.comp_apply, ha]
  rfl

variable {h} in
theorem exists_of_links {l : Option α × Option α} (ha : h.links a = some l) :
    ∃ d, h a = some ⟨d, l.1, l.2⟩ := by
  obtain ⟨⟨d, prev, next⟩, hx, rfl⟩ := Option.map_eq_some_iff.mp ha
  exact ⟨d, hx⟩

variable [DecidableEq α] (a : α)

def setPrev (prev : Option α) : Option (NodeHeap α δ) :=
  (h a).map fun x ↦ Function.update h a (some { x with prev := prev })

def setNext (next : Option α) : Option (NodeHeap α δ) :=
  (h a).map fun x ↦ Function.update h a (some { x with next := next })

def setData (data : δ) : Option (NodeHeap α δ) :=
  (h a).map fun x ↦ Function.update h a (some { x with data := data })

variable {h a}

@[simp] theorem links_update (x : Option (HeapNode α δ)) : links (Function.update h a x) =
    Function.update h.links a (x.map fun x ↦ (x.prev, x.next)) :=
  Function.comp_update ..

@[simp] theorem data_update (x : Option (HeapNode α δ)) :
    data (Function.update h a x) = Function.update h.data a (x.map HeapNode.data) :=
  Function.comp_update ..

theorem frees_of_data_eq {h' : NodeHeap α δ} (hdata : h'.data = Function.update h.data a none) :
    h.Frees h' (· = a) := fun b d ↦ by
  rw [hdata]
  by_cases hb : b = a
  · subst hb
    simp
  · simp [hb]

theorem exists_setPrev {l : Option α × Option α} (ha : h.links a = some l) (prev : Option α) :
    ∃ h', h.setPrev a prev = some h' ∧
      h'.links = Function.update h.links a (some (prev, l.2)) ∧ h'.data = h.data := by
  obtain ⟨d, hx⟩ := exists_of_links ha
  refine ⟨_, by rw [setPrev, hx]; rfl, links_update _, (data_update _).trans ?_⟩
  exact Function.update_eq_self_iff.mpr (by rw [data, Function.comp_apply, hx]; rfl)

theorem exists_setNext {l : Option α × Option α} (ha : h.links a = some l) (next : Option α) :
    ∃ h', h.setNext a next = some h' ∧
      h'.links = Function.update h.links a (some (l.1, next)) ∧ h'.data = h.data := by
  obtain ⟨d, hx⟩ := exists_of_links ha
  refine ⟨_, by rw [setNext, hx]; rfl, links_update _, (data_update _).trans ?_⟩
  exact Function.update_eq_self_iff.mpr (by rw [data, Function.comp_apply, hx]; rfl)

theorem exists_setData {d : δ} (ha : h.data a = some d) (d' : δ) :
    ∃ h', h.setData a d' = some h' ∧ h'.links = h.links ∧
      h'.data = Function.update h.data a (some d') := by
  obtain ⟨x, hx, rfl⟩ := Option.map_eq_some_iff.mp ha
  refine ⟨_, by rw [setData, hx]; rfl, (links_update _).trans ?_, data_update _⟩
  exact Function.update_eq_self_iff.mpr (by rw [links, Function.comp_apply, hx]; rfl)

end NodeHeap

/-! ### Nodes that are linked to each other -/

/-- The nodes of a list are linked to each other, the first one back to `before` and the last one on
to `after`. -/
def Linked (L : NodeLinks α) : (before : Option α) → List α → (after : Option α) → Prop
  | _, [], _ => True
  | before, a :: l, after => L a = some (before, l.head?.or after) ∧ Linked L (some a) l after

variable {L L' : NodeLinks α} {a : α} {l l₁ l₂ : List α} {before after : Option α}

theorem Linked.congr (hl : Linked L before l after) (h : ∀ a ∈ l, L' a = L a) :
    Linked L' before l after := by
  induction l generalizing before with
  | nil => trivial
  | cons a l ih =>
    exact ⟨(h a List.mem_cons_self).trans hl.1,
      ih hl.2 fun b hb ↦ h b (List.mem_cons_of_mem a hb)⟩

theorem linked_append : Linked L before (l₁ ++ l₂) after ↔
    Linked L before l₁ (l₂.head?.or after) ∧ Linked L (l₁.getLast?.or before) l₂ after := by
  induction l₁ generalizing before with
  | nil => simp [Linked]
  | cons a l₁ ih =>
    have hlast : (a :: l₁).getLast?.or before = l₁.getLast?.or (some a) := by
      cases l₁ <;> simp [List.getLast?_cons]
    rw [List.cons_append, Linked, Linked, ih, List.head?_append, Option.or_assoc, hlast, and_assoc]

/-- The links around a node between two others. -/
theorem Linked.split (h : Linked L none (l₁ ++ a :: l₂) none) :
    Linked L none l₁ (some a) ∧ L a = some (l₁.getLast?, l₂.head?) ∧
      Linked L (some a) l₂ none := by
  obtain ⟨h₁, ha, h₂⟩ := linked_append.mp h
  exact ⟨h₁, by simpa using ha, h₂⟩

/-- The next link of a node leads to another one. -/
def NodeLinks.Next (L : NodeLinks α) (a b : α) : Prop := ∃ prev, L a = some (prev, some b)

theorem Linked.follows {b : α} (h : Linked L before l after) (hhead : l.head? = some a)
    (hb : b ∈ l) : Relation.ReflTransGen L.Next a b := by
  induction l generalizing before a with
  | nil => cases hb
  | cons c l ih =>
    obtain rfl : c = a := by simpa using hhead
    rcases List.mem_cons.mp hb with rfl | hb
    · exact .refl
    cases l with
    | nil => cases hb
    | cons d l => exact .head ⟨before, h.1⟩ (ih h.2 rfl hb)

/-! ### The ends of a list -/

/-- The ends of a list, if it is not empty. -/
def endsOf : List α → Option (Ends α)
  | [] => none
  | a :: l => some ⟨a, (a :: l).getLast (List.cons_ne_nil a l)⟩

theorem endsOf_eq_some {e : Ends α} :
    endsOf l = some e ↔ l.head? = some e.head ∧ l.getLast? = some e.tail := by
  cases l with
  | nil => simp [endsOf]
  | cons a l =>
    rw [endsOf, List.head?_cons, List.getLast?_eq_some_getLast (List.cons_ne_nil a l)]
    cases e
    simp

theorem endsOf_eq_none : endsOf l = none ↔ l = [] := by
  cases l <;> simp [endsOf]

theorem endsOf_concat (l : List α) (a : α) :
    endsOf (l ++ [a]) = some ((endsOf l).elim ⟨a, a⟩ fun e ↦ { e with tail := a }) := by
  cases l with
  | nil => rfl
  | cons b l => simp [endsOf]

theorem endsOf_remove_inner {t m : α} {e : Ends α} (hlast : l₁.getLast? = some t)
    (hhead : l₂.head? = some m) (he : endsOf (l₁ ++ a :: l₂) = some e) :
    endsOf (l₁ ++ l₂) = some e := by
  obtain ⟨l₁, rfl⟩ := List.getLast?_eq_some_iff.mp hlast
  obtain ⟨l₂, rfl⟩ := List.head?_eq_some_iff.mp hhead
  rw [endsOf_eq_some] at he ⊢
  simpa [List.getLast?_append, List.getLast?_cons] using he

theorem endsOf_remove_last {t : α} {e : Ends α} (hlast : l₁.getLast? = some t)
    (he : endsOf (l₁ ++ [a]) = some e) : a = e.tail ∧ endsOf l₁ = some { e with tail := t } := by
  obtain ⟨l₁, rfl⟩ := List.getLast?_eq_some_iff.mp hlast
  rw [endsOf_eq_some] at he ⊢
  refine ⟨by simpa using he.2, ?_, by simp⟩
  simpa [List.head?_append] using he.1

theorem endsOf_remove_first {m : α} {e : Ends α} (hhead : l₂.head? = some m)
    (he : endsOf (a :: l₂) = some e) : a = e.head ∧ endsOf l₂ = some { e with head := m } := by
  obtain ⟨l₂, rfl⟩ := List.head?_eq_some_iff.mp hhead
  rw [endsOf_eq_some] at he ⊢
  refine ⟨by simpa using he.1, by simp, ?_⟩
  simpa [List.getLast?_cons] using he.2

section Maps

variable [DecidableEq κ] {lists : κ → List α} {m : AList fun _ : κ ↦ Ends α} {k : κ}

/-- A map of the ends of all lists that are not empty, when a list changes and is not empty. -/
theorem lookup_insert_endsOf (h : ∀ k, m.lookup k = endsOf (lists k)) {e : Ends α}
    (he : endsOf l = some e) (k' : κ) :
    (m.insert k e).lookup k' = endsOf (Function.update lists k l k') := by
  by_cases hk : k' = k
  · subst hk
    rw [AList.lookup_insert, Function.update_self, he]
  · rw [AList.lookup_insert_ne hk, Function.update_of_ne hk, h]

theorem lookup_erase_endsOf (h : ∀ k, m.lookup k = endsOf (lists k)) (k' : κ) :
    (m.erase k).lookup k' = endsOf (Function.update lists k [] k') := by
  by_cases hk : k' = k
  · subst hk
    rw [AList.lookup_erase, Function.update_self]
    rfl
  · rw [AList.lookup_erase_ne hk, Function.update_of_ne hk, h]

theorem lookup_endsOf_of_eq (h : ∀ k, m.lookup k = endsOf (lists k))
    (he : endsOf l = endsOf (lists k)) (k' : κ) :
    m.lookup k' = endsOf (Function.update lists k l k') := by
  by_cases hk : k' = k
  · subst hk
    rw [Function.update_self, he, h]
  · rw [Function.update_of_ne hk, h]

/-- The lists whose ends are in a map are not longer than some number. -/
theorem exists_length_le (h : ∀ k, m.lookup k = endsOf (lists k)) :
    ∃ n, ∀ k, (lists k).length ≤ n := by
  refine ⟨(m.keys.map fun k ↦ (lists k).length).sum, fun k ↦ ?_⟩
  by_cases hk : k ∈ m
  · exact List.single_le_sum (fun _ _ ↦ Nat.zero_le _) _
      (List.mem_map_of_mem (AList.mem_keys.mp hk))
  · have hnone := (h k).symm.trans (AList.lookup_eq_none.mpr hk)
    simp [endsOf_eq_none.mp hnone]

end Maps

/-! ### Several lists in one heap -/

/-- The lists at some places have no nodes in common, their nodes are linked to each other, and
nodes on no list have null links. -/
structure LinkedLists (L : NodeLinks α) (lists : κ → List α) : Prop where
  linked (p : κ) : Linked L none (lists p) none
  nodup (p : κ) : (lists p).Nodup
  disjoint {p q : κ} {a : α} (hp : a ∈ lists p) (hq : a ∈ lists q) : p = q
  detached {a : α} {l : Option α × Option α} (ha : L a = some l) (hnot : ∀ p, a ∉ lists p) :
    l = (none, none)

namespace LinkedLists

variable {lists : κ → List α} {p q : κ}

/-- Where a node is on its list, and what its links are. -/
theorem exists_split (h : LinkedLists L lists) (ha : a ∈ lists p) :
    ∃ l₁ l₂, lists p = l₁ ++ a :: l₂ ∧ L a = some (l₁.getLast?, l₂.head?) := by
  obtain ⟨l₁, l₂, hl⟩ := List.append_of_mem ha
  exact ⟨l₁, l₂, hl, (hl ▸ h.linked p).split.2.1⟩

/-- A node on no list may be allocated, changed or freed. -/
theorem congr (h : LinkedLists L lists) (hnot : ∀ p, a ∉ lists p) (hL : ∀ b ≠ a, L' b = L b)
    (ha : L' a = none ∨ L' a = some (none, none)) : LinkedLists L' lists where
  linked p := (h.linked p).congr fun b hb ↦ hL b fun hba ↦ hnot p (hba ▸ hb)
  nodup := h.nodup
  disjoint := h.disjoint
  detached {b l} hb hbnot := by
    by_cases hba : b = a
    · subst hba
      rcases ha with ha | ha
      · cases ha.symm.trans hb
      · exact (Option.some.inj (ha.symm.trans hb)).symm
    · exact h.detached ((hL b hba).symm.trans hb) hbnot

/-- The nodes of a list are those that its links lead to from its first one. -/
theorem mem_iff_follows {b : α} (h : LinkedLists L lists)
    (hhead : (lists p).head? = some a) : b ∈ lists p ↔ Relation.ReflTransGen L.Next a b := by
  refine ⟨(h.linked p).follows hhead, fun hab ↦ ?_⟩
  induction hab with
  | refl => exact List.mem_of_head? hhead
  | tail _ hnext ih =>
    obtain ⟨l₁, l₂, hl, hlinks⟩ := h.exists_split ih
    obtain ⟨prev, hprev⟩ := hnext
    obtain ⟨-, hhead⟩ := Prod.mk.inj (Option.some.inj (hlinks.symm.trans hprev))
    rw [hl]
    exact List.mem_append_right _ (List.mem_cons_of_mem _ (List.mem_of_head? hhead))

/-- A list is handed over to a place without one. -/
theorem move [DecidableEq κ] (h : LinkedLists L lists) (hpq : p ≠ q) (hq : lists q = []) :
    LinkedLists L (Function.update (Function.update lists p []) q (lists p)) := by
  have heq (r : κ) : Function.update (Function.update lists p []) q (lists p) r =
      if r = q then lists p else if r = p then [] else lists r := by
    by_cases hrq : r = q <;> by_cases hrp : r = p <;> simp [Function.update_apply, hrq, hrp]
  have hmem {r : κ} {b : α} :
      b ∈ Function.update (Function.update lists p []) q (lists p) r ↔
        (r = q ∧ b ∈ lists p) ∨ r ≠ p ∧ b ∈ lists r := by
    rw [heq]
    split_ifs with hrq hrp
    · subst hrq
      simp [hq]
    · subst hrp
      simp [hpq]
    · simp [hrq, hrp]
  refine ⟨fun r ↦ ?_, fun r ↦ ?_, fun {r r' b} hbr hbr' ↦ ?_, fun {b l} hb hbnot ↦ ?_⟩
  · rw [heq]
    split_ifs
    · exact h.linked p
    · trivial
    · exact h.linked r
  · rw [heq]
    split_ifs
    · exact h.nodup p
    · exact List.nodup_nil
    · exact h.nodup r
  · rcases hmem.mp hbr with ⟨hr, hb⟩ | ⟨hrp, hb⟩ <;>
      rcases hmem.mp hbr' with ⟨hr', hb'⟩ | ⟨hrp', hb'⟩
    · rw [hr, hr']
    · exact absurd (h.disjoint hb' hb) hrp'
    · exact absurd (h.disjoint hb hb') hrp
    · exact h.disjoint hb hb'
  · refine h.detached hb fun r hbr ↦ ?_
    by_cases hrp : r = p
    · subst hrp
      exact hbnot q (hmem.mpr (.inl ⟨rfl, hbr⟩))
    · exact hbnot r (hmem.mpr (.inr ⟨hrp, hbr⟩))

end LinkedLists

/-! ### Changing the links -/

variable [DecidableEq α]

/-- The links that lead past a node between two others. -/
def NodeLinks.bypass (L : NodeLinks α) (prev next : Option α) : NodeLinks α := fun a ↦
  (L a).map fun l ↦ (if next = some a then prev else l.1, if prev = some a then next else l.2)

theorem NodeLinks.bypass_of_ne {prev next : Option α} (hprev : prev ≠ some a)
    (hnext : next ≠ some a) : L.bypass prev next a = L a := by
  simp [bypass, hprev, hnext]

theorem Linked.bypass (h : Linked L none (l₁ ++ a :: l₂) none) (hnodup : (l₁ ++ a :: l₂).Nodup) :
    Linked (L.bypass l₁.getLast? l₂.head?) none (l₁ ++ l₂) none := by
  obtain ⟨h₁, -, h₂⟩ := h.split
  obtain ⟨hnodup₁, hnodup₂, hdisj⟩ := List.nodup_append.mp hnodup
  refine linked_append.mpr ⟨?_, ?_⟩
  · rcases List.eq_nil_or_concat l₁ with rfl | ⟨l, t, rfl⟩
    · trivial
    -- only the last node of the first part changes
    rw [List.concat_eq_append] at *
    obtain ⟨hl, ht, -⟩ := linked_append.mp h₁
    have hfirst {b : α} (hb : b ∈ l ++ [t]) : l₂.head? ≠ some b := fun hhead ↦
      hdisj b hb b (List.mem_cons_of_mem a (List.mem_of_head? hhead)) rfl
    refine linked_append.mpr ⟨hl.congr fun b hb ↦ ?_, ?_, trivial⟩
    · refine NodeLinks.bypass_of_ne ?_ (hfirst (List.mem_append_left _ hb))
      rintro hlast
      obtain rfl : t = b := by simpa using hlast
      exact (List.nodup_append.mp hnodup₁).2.2 t hb t (List.mem_singleton_self t) rfl
    · rw [NodeLinks.bypass, ht]
      simp [hfirst (b := t) (by simp)]
  · cases l₂ with
    | nil => trivial
    | cons m l =>
      -- only the first node of the second part changes
      have hlast {b : α} (hb : b ∈ m :: l) : l₁.getLast? ≠ some b := fun hlast ↦
        hdisj b (List.mem_of_getLast? hlast) b (List.mem_cons_of_mem a hb) rfl
      refine ⟨?_, h₂.2.congr fun b hb ↦ ?_⟩
      · rw [NodeLinks.bypass, h₂.1]
        simp [hlast (b := m) List.mem_cons_self]
      · refine NodeLinks.bypass_of_ne (hlast (List.mem_cons_of_mem m hb)) ?_
        rintro hhead
        obtain rfl : m = b := by simpa using hhead
        exact (List.nodup_cons.mp (List.nodup_cons.mp hnodup₂).2).1 hb

/-- The links with a node behind the last one of a list. -/
def NodeLinks.pushBack (L : NodeLinks α) (a : α) : (tail : Option α) → NodeLinks α
  | none => L
  | some t => Function.update (Function.update L t ((L t).map fun l ↦ (l.1, some a))) a
      (some (some t, none))

theorem Linked.pushBack (h : Linked L none l none) (hnodup : l.Nodup) (hnot : a ∉ l)
    (ha : L a = some (none, none)) : Linked (L.pushBack a l.getLast?) none (l ++ [a]) none := by
  rcases List.eq_nil_or_concat l with rfl | ⟨l, t, rfl⟩
  · exact ⟨ha, trivial⟩
  rw [List.concat_eq_append] at *
  obtain ⟨hl, ht, -⟩ := linked_append.mp h
  have hta : t ≠ a := fun hta ↦ hnot (hta ▸ List.mem_append_right _ (List.mem_singleton_self t))
  have hlast : (l ++ [t]).getLast? = some t := List.getLast?_concat
  rw [hlast]
  refine linked_append.mpr ⟨linked_append.mpr ⟨hl.congr fun b hb ↦ ?_, ?_, trivial⟩, ?_, trivial⟩
  · have hbt : b ≠ t := fun hbt ↦
      (List.nodup_append.mp hnodup).2.2 b hb t (List.mem_singleton_self t) hbt
    have hba : b ≠ a := fun hba ↦ hnot (hba ▸ List.mem_append_left _ hb)
    simp [NodeLinks.pushBack, hbt, hba]
  · simp [NodeLinks.pushBack, hta, ht]
  · simp [NodeLinks.pushBack]

theorem filter_ne_of_nodup (h : (l₁ ++ a :: l₂).Nodup) :
    (l₁ ++ a :: l₂).filter (· ≠ a) = l₁ ++ l₂ := by
  obtain ⟨-, h₂, hdisj⟩ := List.nodup_append.mp h
  have hl₁ : l₁.filter (· ≠ a) = l₁ := List.filter_eq_self.mpr fun b hb ↦ by
    simpa using hdisj b hb a List.mem_cons_self
  have hl₂ : l₂.filter (· ≠ a) = l₂ := List.filter_eq_self.mpr fun b hb ↦ by
    simpa using ne_of_mem_of_not_mem hb (List.nodup_cons.mp h₂).1
  rw [List.filter_append, List.filter_cons_of_neg (by simp), hl₁, hl₂]

namespace LinkedLists

variable {lists : κ → List α} {p q : κ}

/-- The writes that lead past a node of a list. -/
theorem exists_bypass {h : NodeHeap α δ} (hlists : LinkedLists h.links lists) (ha : a ∈ lists p)
    {prev next : Option α} (hlinks : h.links a = some (prev, next)) :
    ∃ h₁ h₂, (prev.elim (some h) fun t ↦ h.setNext t next) = some h₁ ∧
      (next.elim (some h₁) fun m ↦ h₁.setPrev m prev) = some h₂ ∧
      h₂.links a = some (prev, next) ∧ (∀ b ≠ a, h₂.links b = h.links.bypass prev next b) ∧
      h₂.data = h.data := by
  obtain ⟨l₁, l₂, hl, hsplit⟩ := hlists.exists_split ha
  obtain ⟨rfl, rfl⟩ := Prod.mk.inj (Option.some.inj (hsplit.symm.trans hlinks))
  have hmem {b : α} (hb : b ∈ l₁ ++ a :: l₂) : ∃ l, h.links b = some l := by
    obtain ⟨_, _, -, hb⟩ := hlists.exists_split (hl ▸ hb)
    exact ⟨_, hb⟩
  obtain ⟨-, hnodup, hdisj⟩ := List.nodup_append.mp (hl ▸ hlists.nodup p)
  -- the first write
  obtain ⟨h₁, hfirst, hlinks₁, hdata₁⟩ : ∃ h₁,
      (l₁.getLast?.elim (some h) fun t ↦ h.setNext t l₂.head?) = some h₁ ∧
        (∀ b, h₁.links b = (h.links b).map fun l ↦
          (l.1, if l₁.getLast? = some b then l₂.head? else l.2)) ∧ h₁.data = h.data := by
    cases hlast : l₁.getLast? with
    | none => exact ⟨h, rfl, fun b ↦ by simp, rfl⟩
    | some t =>
      obtain ⟨l, ht⟩ := hmem (List.mem_append_left _ (List.mem_of_getLast? hlast))
      obtain ⟨h₁, hset, hlinks₁, hdata₁⟩ := NodeHeap.exists_setNext ht l₂.head?
      refine ⟨h₁, hset, fun b ↦ ?_, hdata₁⟩
      rw [hlinks₁]
      by_cases hb : b = t
      · subst hb
        simp [ht]
      · simp [hb, Ne.symm hb]
  -- the second write
  obtain ⟨h₂, hsecond, hlinks₂, hdata₂⟩ : ∃ h₂,
      (l₂.head?.elim (some h₁) fun m ↦ h₁.setPrev m l₁.getLast?) = some h₂ ∧
        (∀ b, h₂.links b = (h₁.links b).map fun l ↦
          (if l₂.head? = some b then l₁.getLast? else l.1, l.2)) ∧ h₂.data = h₁.data := by
    cases hhead : l₂.head? with
    | none => exact ⟨h₁, rfl, fun b ↦ by simp, rfl⟩
    | some m =>
      obtain ⟨l, hm⟩ := hmem
        (List.mem_append_right _ (List.mem_cons_of_mem a (List.mem_of_head? hhead)))
      have hm₁ := (hlinks₁ m).trans (congrArg _ hm)
      obtain ⟨h₂, hset, hlinks₂, hdata₂⟩ := NodeHeap.exists_setPrev hm₁ l₁.getLast?
      refine ⟨h₂, hset, fun b ↦ ?_, hdata₂⟩
      rw [hlinks₂]
      by_cases hb : b = m
      · subst hb
        simp [hm₁]
      · simp [hb, Ne.symm hb]
  refine ⟨h₁, h₂, hfirst, hsecond, ?_, fun b _ ↦ ?_, hdata₂.trans hdata₁⟩
  · have hlast : l₁.getLast? ≠ some a := fun hlast ↦
      hdisj a (List.mem_of_getLast? hlast) a List.mem_cons_self rfl
    have hhead : l₂.head? ≠ some a := fun hhead ↦
      (List.nodup_cons.mp hnodup).1 (List.mem_of_head? hhead)
    rw [hlinks₂, hlinks₁, hlinks]
    simp [hlast, hhead]
  · rw [hlinks₂, hlinks₁, Option.map_map]
    rfl

/-- The writes that append a node on no list to one, in either order. -/
theorem exists_linkBack {h : NodeHeap α δ} (hlists : LinkedLists h.links lists)
    (hnot : ∀ p, a ∉ lists p) (ha : h.links a = some (none, none)) {t : α}
    (hlast : (lists p).getLast? = some t) :
    (∃ h₁ h₂, h.setNext t (some a) = some h₁ ∧ h₁.setPrev a (some t) = some h₂ ∧
      h₂.links = h.links.pushBack a (lists p).getLast? ∧ h₂.data = h.data) ∧
    ∃ h₁ h₂, h.setPrev a (some t) = some h₁ ∧ h₁.setNext t (some a) = some h₂ ∧
      h₂.links = h.links.pushBack a (lists p).getLast? ∧ h₂.data = h.data := by
  have hmem := List.mem_of_getLast? hlast
  have hta : t ≠ a := ne_of_mem_of_not_mem hmem (hnot p)
  obtain ⟨l₁, l₂, -, ht⟩ := hlists.exists_split hmem
  rw [hlast]
  constructor
  · obtain ⟨h₁, hset₁, hlinks₁, hdata₁⟩ := NodeHeap.exists_setNext ht (some a)
    have ha₁ : h₁.links a = some (none, none) := by rw [hlinks₁, Function.update_of_ne hta.symm, ha]
    obtain ⟨h₂, hset₂, hlinks₂, hdata₂⟩ := NodeHeap.exists_setPrev ha₁ (some t)
    refine ⟨h₁, h₂, hset₁, hset₂, ?_, hdata₂.trans hdata₁⟩
    rw [hlinks₂, hlinks₁, NodeLinks.pushBack, ht]
    rfl
  · obtain ⟨h₁, hset₁, hlinks₁, hdata₁⟩ := NodeHeap.exists_setPrev ha (some t)
    have ht₁ : h₁.links t = some (l₁.getLast?, l₂.head?) := by
      rw [hlinks₁, Function.update_of_ne hta, ht]
    obtain ⟨h₂, hset₂, hlinks₂, hdata₂⟩ := NodeHeap.exists_setNext ht₁ (some a)
    refine ⟨h₁, h₂, hset₁, hset₂, ?_, hdata₂.trans hdata₁⟩
    rw [hlinks₂, hlinks₁, NodeLinks.pushBack, ht, Function.update_comm hta.symm]
    rfl

variable [DecidableEq κ]

/-- A node on no list is appended to one. -/
theorem pushBack (h : LinkedLists L lists) (hnot : ∀ p, a ∉ lists p) (ha : L a = some (none, none))
    (p : κ) : LinkedLists (L.pushBack a (lists p).getLast?)
      (Function.update lists p (lists p ++ [a])) := by
  have hother {b : α} (hba : b ≠ a) (hb : b ∉ lists p) :
      L.pushBack a (lists p).getLast? b = L b := by
    cases hlast : (lists p).getLast? with
    | none => rfl
    | some t =>
      have hbt : b ≠ t := fun hbt ↦ hb (hbt ▸ List.mem_of_getLast? hlast)
      simp [NodeLinks.pushBack, hbt, hba]
  have hmem {q : κ} {b : α} : b ∈ Function.update lists p (lists p ++ [a]) q ↔
      b ∈ lists q ∨ b = a ∧ q = p := by
    by_cases hq : q = p
    · subst hq
      simp
    · simp [hq]
  refine ⟨fun q ↦ ?_, fun q ↦ ?_, fun {q r b} hbq hbr ↦ ?_, fun {b l} hb hbnot ↦ ?_⟩
  · by_cases hq : q = p
    · subst hq
      rw [Function.update_self]
      exact (h.linked q).pushBack (h.nodup q) (hnot q) ha
    · rw [Function.update_of_ne hq]
      refine (h.linked q).congr fun b hb ↦ hother (fun hba ↦ hnot q (hba ▸ hb)) fun hbp ↦ ?_
      exact hq (h.disjoint hb hbp)
  · by_cases hq : q = p
    · subst hq
      rw [Function.update_self]
      exact List.nodup_append.mpr ⟨h.nodup q, by simp, fun b hb c hc hbc ↦
        hnot q (List.mem_singleton.mp hc ▸ hbc ▸ hb)⟩
    · rw [Function.update_of_ne hq]
      exact h.nodup q
  · rcases hmem.mp hbq with hmq | ⟨hba, hq⟩ <;> rcases hmem.mp hbr with hmr | ⟨hba', hr⟩
    · exact h.disjoint hmq hmr
    · exact absurd (hba' ▸ hmq) (hnot q)
    · exact absurd (hba ▸ hmr) (hnot r)
    · rw [hq, hr]
  · have hba : b ≠ a := fun hba ↦ hbnot p (hmem.mpr (.inr ⟨hba, rfl⟩))
    have hbnot' (q : κ) : b ∉ lists q := fun hbq ↦ hbnot q (hmem.mpr (.inl hbq))
    exact h.detached ((hother hba (hbnot' p)).symm.trans hb) hbnot'

/-- A node is taken from its list, and detached or freed. -/
theorem unlink (h : LinkedLists L lists) (ha : a ∈ lists p) {prev next : Option α}
    (hlinks : L a = some (prev, next)) (hL : ∀ b ≠ a, L' b = L.bypass prev next b)
    (ha' : L' a = none ∨ L' a = some (none, none)) :
    LinkedLists L' (Function.update lists p ((lists p).filter (· ≠ a))) := by
  obtain ⟨l₁, l₂, hl, hsplit⟩ := h.exists_split ha
  obtain ⟨rfl, rfl⟩ := Prod.mk.inj (Option.some.inj (hsplit.symm.trans hlinks))
  have hnodup := hl ▸ h.nodup p
  have hfilter := filter_ne_of_nodup hnodup
  have hother {b : α} (hb : b ∉ lists p) : L' b = L b := by
    have hmem {c : α} (hc : c ∈ l₁ ++ a :: l₂) : b ≠ c := fun hbc ↦ hb (hl ▸ hbc ▸ hc)
    rw [hL b (hmem (by simp))]
    refine NodeLinks.bypass_of_ne (fun hlast ↦ ?_) fun hhead ↦ ?_
    · exact hmem (List.mem_append_left _ (List.mem_of_getLast? hlast)) rfl
    · exact hmem (List.mem_append_right _ (List.mem_cons_of_mem a (List.mem_of_head? hhead))) rfl
  have hsub (q : κ) :
      (Function.update lists p ((lists p).filter (· ≠ a)) q).Sublist (lists q) := by
    by_cases hq : q = p
    · subst hq
      rw [Function.update_self]
      exact List.filter_sublist
    · rw [Function.update_of_ne hq]
  refine ⟨fun q ↦ ?_, fun q ↦ (hsub q).nodup (h.nodup q), fun hq hr ↦
    h.disjoint ((hsub _).subset hq) ((hsub _).subset hr), fun {b l} hb hbnot ↦ ?_⟩
  · by_cases hq : q = p
    · subst hq
      rw [Function.update_self, hl, hfilter]
      refine ((hl ▸ h.linked q).bypass hnodup).congr fun b hb ↦ hL b fun hba ↦ ?_
      have := hfilter ▸ hb
      simp [hba] at this
    · rw [Function.update_of_ne hq]
      exact (h.linked q).congr fun b hb ↦ hother fun hbp ↦ hq (h.disjoint hb hbp)
  · by_cases hba : b = a
    · subst hba
      rcases ha' with ha' | ha'
      · cases ha'.symm.trans hb
      · exact (Option.some.inj (ha'.symm.trans hb)).symm
    · have hbnot' (q : κ) : b ∉ lists q := fun hbq ↦ by
        refine hbnot q ?_
        by_cases hq : q = p
        · subst hq
          simpa [hba] using hbq
        · rwa [Function.update_of_ne hq]
      exact h.detached ((hother (hbnot' p)).symm.trans hb) hbnot'

end LinkedLists

end WebTSan
