import Mathlib.Data.List.Flatten
import Mathlib.Data.List.Infix
import Mathlib.Tactic.Common

/-!
# Outbox — handing on what has accumulated

Items accumulate and are handed on in batches.  A hand-on sends everything that waits; the batch may
or may not be received, and the items may or may not be cleared, neither with regard to the other.
The batches that were cleared and the items that wait are all the items (`accounted`).  A batch that
is cleared but not received is lost, and one that is received but not cleared is sent again:
`delivered_next_iff` says that these are the two ways to deliver an item other than once.
-/

namespace CleanWeb
namespace Lib

/-- The items that wait, the batches that were received, and those that were cleared, each with
whether it was received; all in order. -/
structure Outbox (α : Type) where
  waiting : List α
  received : List (List α)
  cleared : List (Bool × List α)

namespace Outbox

variable {α : Type}

inductive Event (α : Type) where
  | add (a : α)
  | handOn (received cleared : Bool)

/-- The item that an event adds. -/
def Event.added : Event α → Option α
  | .add a => some a
  | .handOn _ _ => none

def empty : Outbox α :=
  ⟨[], [], []⟩

def next (o : Outbox α) : Event α → Outbox α
  | .add a => { o with waiting := o.waiting ++ [a] }
  | .handOn received cleared =>
      { waiting := if cleared then [] else o.waiting
        received := if received then o.received ++ [o.waiting] else o.received
        cleared := if cleared then o.cleared ++ [(received, o.waiting)] else o.cleared }

def run (es : List (Event α)) : Outbox α :=
  es.foldl next empty

/-- The items that were ever added. -/
def items (es : List (Event α)) : List α :=
  es.filterMap Event.added

theorem run_append_singleton (es : List (Event α)) (e : Event α) :
    run (es ++ [e]) = (run es).next e := by
  simp [run]

theorem items_append_singleton (es : List (Event α)) (e : Event α) :
    items (es ++ [e]) = items es ++ e.added.toList := by
  cases h : e.added with
  | none => simp [items, h]
  | some a => simp [items, h]

/-! ## Every run -/

/-- The cleared batches and what waits are everything that was added. -/
theorem accounted (es : List (Event α)) :
    ((run es).cleared.map Prod.snd).flatten ++ (run es).waiting = items es := by
  induction es using List.reverseRecOn with
  | nil =>
      rfl
  | append_singleton es e ih =>
      rw [run_append_singleton, items_append_singleton, ← ih]
      cases e with
      | add a =>
          exact (List.append_assoc _ _ _).symm
      | handOn received cleared =>
          cases cleared with
          | true => simp [next, Event.added]
          | false => simp [next, Event.added]

/-- What waits is the end of what was added. -/
theorem waiting_suffix (es : List (Event α)) : (run es).waiting <:+ items es :=
  ⟨_, accounted es⟩

/-- A batch that was received was a stretch of what was added. -/
theorem received_infix (es : List (Event α)) : ∀ b ∈ (run es).received, b <:+: items es := by
  induction es using List.reverseRecOn with
  | nil =>
      intro b hb
      simp [run, empty] at hb
  | append_singleton es e ih =>
      -- A stretch of what was added stays one when more is added.
      have hlonger : items es <+: items (es ++ [e]) := by
        rw [items_append_singleton]
        exact List.prefix_append _ _
      have hold : ∀ b ∈ (run es).received, b <:+: items (es ++ [e]) := by
        intro b hb
        exact (ih b hb).trans hlonger.isInfix
      intro b hb
      rw [run_append_singleton] at hb
      cases e with
      | add a =>
          exact hold b hb
      | handOn received cleared =>
          cases received with
          | false =>
              exact hold b hb
          | true =>
              rcases List.mem_append.1 hb with hb | hb
              · exact hold b hb
              · rw [List.mem_singleton.1 hb]
                exact (waiting_suffix es).isInfix.trans hlonger.isInfix

/-- The batches that were cleared and received are among those received. -/
theorem cleared_sublist_received (es : List (Event α)) :
    (((run es).cleared.filter Prod.fst).map Prod.snd).Sublist (run es).received := by
  induction es using List.reverseRecOn with
  | nil =>
      exact List.Sublist.refl _
  | append_singleton es e ih =>
      rw [run_append_singleton]
      cases e with
      | add a =>
          exact ih
      | handOn received cleared =>
          cases received with
          | true =>
              cases cleared with
              | true => simpa [next] using ih
              | false => simpa [next] using ih.trans (List.sublist_append_left _ _)
          | false =>
              cases cleared with
              | true => simpa [next] using ih
              | false => simpa [next] using ih

/-! ## Once each -/

/-- Every item was received once or waits. -/
def Delivered (es : List (Event α)) : Prop :=
  (run es).received.flatten ++ (run es).waiting = items es

/-- What waits is cleared exactly if it is received. -/
def Balanced (o : Outbox α) : Event α → Prop
  | .add _ => True
  | .handOn received cleared => o.waiting = [] ∨ received = cleared

theorem delivered_nil : Delivered ([] : List (Event α)) := rfl

theorem delivered_next_iff {es : List (Event α)} (h : Delivered es) (e : Event α) :
    Delivered (es ++ [e]) ↔ Balanced (run es) e := by
  have hitems : items es = (run es).received.flatten ++ (run es).waiting := h.symm
  rw [Delivered, run_append_singleton, items_append_singleton, hitems]
  cases e with
  | add a =>
      exact iff_of_true (List.append_assoc _ _ _).symm trivial
  | handOn received cleared =>
      cases received with
      | true =>
          cases cleared with
          | true => simp [next, Event.added, Balanced]
          | false => simp [next, Event.added, Balanced]
      | false =>
          cases cleared with
          | true => simp [next, Event.added, Balanced]
          | false => simp [next, Event.added, Balanced]

end Outbox
end Lib
end CleanWeb
