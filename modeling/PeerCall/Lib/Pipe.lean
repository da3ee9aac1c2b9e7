import Mathlib

/-!
# Lib.Pipe — a queue as a window on all that has ever entered it

Entries go in at the back and leave at the front, where they are delivered or lost.  A `Pipe` keeps every entry
that ever went in, how many have left, and which runs of them were delivered; the queue itself is the rest.

* `contents_suffix`: the queue is what has entered last.
* `delivered_sublist`: **what is delivered is delivered once and in the order it entered.**
-/

namespace PeerCall.Lib

/-- A run of entries: `count` of them from number `start` on. -/
structure Segment where
  start : ℕ
  count : ℕ
  deriving DecidableEq, Repr

namespace Segment

variable {α : Type*}

/-- The entries of the run. -/
def of (g : Segment) (xs : List α) : List α := (xs.drop g.start).take g.count

/-- One after the other, without an entry in common. -/
def InOrder (gs : List Segment) : Prop := gs.Pairwise fun g g' => g.start + g.count ≤ g'.start

theorem of_append {g : Segment} {xs : List α} (h : g.start + g.count ≤ xs.length) (ys : List α) :
    g.of (xs ++ ys) = g.of xs := by
  unfold of
  rw [List.drop_append_of_le_length (by omega), List.take_append_of_le_length (by rw [List.length_drop]; omega)]

/-- **Runs in order, put together, keep the order of the entries.** -/
theorem InOrder.sublist {gs : List Segment} (h : InOrder gs) (xs : List α) :
    (gs.flatMap fun g => g.of xs).Sublist xs := by
  have hfrom : ∀ n, (∀ g ∈ gs, n ≤ g.start) → (gs.flatMap fun g => g.of xs).Sublist (xs.drop n) := by
    induction gs with
    | nil => exact fun n _ => List.nil_sublist _
    | cons g gs ih =>
      intro n hn
      obtain ⟨hg, hgs⟩ := List.pairwise_cons.mp h
      have hrest := ih hgs (g.start + g.count) hg
      have hsplit : xs.drop g.start = g.of xs ++ xs.drop (g.start + g.count) := by
        rw [of, ← List.drop_drop, List.take_append_drop]
      rw [List.flatMap_cons]
      refine ((List.Sublist.refl (g.of xs)).append hrest).trans ?_
      rw [← hsplit, show g.start = n + (g.start - n) by have := hn g List.mem_cons_self; omega, ← List.drop_drop]
      exact List.drop_sublist _ _
  exact (hfrom 0 fun g _ => Nat.zero_le _)

end Segment

/-- All that has entered, how much of it has left, and what of that was delivered. -/
structure Pipe (α : Type*) where
  entered : List α
  left : ℕ
  delivered : List Segment
  left_le : left ≤ entered.length
  delivered_le : ∀ g ∈ delivered, g.start + g.count ≤ left
  inOrder : Segment.InOrder delivered

namespace Pipe

variable {α : Type*}

/-- Nothing has entered. -/
def empty : Pipe α where
  entered := []
  left := 0
  delivered := []
  left_le := le_refl 0
  delivered_le := by simp
  inOrder := List.Pairwise.nil

/-- What is still in the queue. -/
def contents (p : Pipe α) : List α := p.entered.drop p.left

/-- `xs` goes in at the back. -/
def put (p : Pipe α) (xs : List α) : Pipe α where
  entered := p.entered ++ xs
  left := p.left
  delivered := p.delivered
  left_le := by rw [List.length_append]; exact p.left_le.trans (Nat.le_add_right _ _)
  delivered_le := p.delivered_le
  inOrder := p.inOrder

/-- `n` entries at the front are lost. -/
def lose (p : Pipe α) (n : ℕ) : Pipe α where
  entered := p.entered
  left := min (p.left + n) p.entered.length
  delivered := p.delivered
  left_le := Nat.min_le_right _ _
  delivered_le g hg := (p.delivered_le g hg).trans (by have := p.left_le; omega)
  inOrder := p.inOrder

/-- The run of the next `n` entries, or of all there are. -/
def next (p : Pipe α) (n : ℕ) : Segment := ⟨p.left, min n p.contents.length⟩

theorem next_end (p : Pipe α) (n : ℕ) : (p.next n).start + (p.next n).count = min (p.left + n) p.entered.length := by
  have hle := p.left_le
  simp only [next, contents, List.length_drop]
  omega

/-- `n` entries at the front are delivered. -/
def deliver (p : Pipe α) (n : ℕ) : Pipe α where
  entered := p.entered
  left := min (p.left + n) p.entered.length
  delivered := p.delivered ++ [p.next n]
  left_le := Nat.min_le_right _ _
  delivered_le g hg := by
    rcases List.mem_append.mp hg with hg | hg
    · exact (p.delivered_le g hg).trans (by have := p.left_le; omega)
    · rw [List.mem_singleton.mp hg, next_end]
  inOrder := by
    refine List.pairwise_append.mpr ⟨p.inOrder, List.pairwise_singleton _ _, fun g hg g' hg' => ?_⟩
    rw [List.mem_singleton.mp hg']
    exact p.delivered_le g hg

section Contents

variable (p : Pipe α) (n : ℕ)

@[simp] theorem contents_put (xs : List α) : (p.put xs).contents = p.contents ++ xs :=
  List.drop_append_of_le_length p.left_le

theorem drop_left : p.entered.drop (min (p.left + n) p.entered.length) = p.contents.drop n := by
  rw [contents, List.drop_drop]
  rcases Nat.le_total (p.left + n) p.entered.length with h | h
  · rw [Nat.min_eq_left h]
  · rw [Nat.min_eq_right h, List.drop_length, List.drop_eq_nil_of_le h]

@[simp] theorem contents_lose : (p.lose n).contents = p.contents.drop n := p.drop_left n

@[simp] theorem contents_deliver : (p.deliver n).contents = p.contents.drop n := p.drop_left n

@[simp] theorem entered_put (xs : List α) : (p.put xs).entered = p.entered ++ xs := rfl

@[simp] theorem entered_lose : (p.lose n).entered = p.entered := rfl

/-- **The queue is what has entered last.** -/
theorem contents_suffix : p.contents <:+ p.entered := List.drop_suffix _ _

/-- What is delivered comes from the front of the queue. -/
theorem next_of : (p.next n).of p.entered = p.contents.take n := by
  show (p.entered.drop p.left).take (min n p.contents.length) = _
  rw [← contents, List.take_eq_take_min]
  rw [List.take_eq_take_min (i := n)]
  simp

/-- **What is delivered is delivered once and in the order it entered.** -/
theorem delivered_sublist : (p.delivered.flatMap fun g => g.of p.entered).Sublist p.entered :=
  p.inOrder.sublist p.entered

/-- What was delivered stays what it was. -/
theorem of_put {g : Segment} (hg : g ∈ p.delivered) (xs : List α) : g.of (p.put xs).entered = g.of p.entered :=
  Segment.of_append ((p.delivered_le g hg).trans p.left_le) xs

end Contents

end Pipe

end PeerCall.Lib
