import Mathlib.Data.List.Basic

/-!
# Transducers

A transducer answers every item of a stream with an item, and carries a state
along.  `feed` runs it.  A stream may come in batches, with the state kept
from one batch to the next (`feed_append`, `feedBatches_eq`).

A decoder inverts an encoder when it undoes one step of it and moves its own
state the same way (`Inverts`).  Then it undoes the whole stream, from any
common state and however the stream is cut (`Inverts.feed`).
-/

namespace VulkanCompute.Lib

variable {σ α β : Type*}

/-- Run a transducer over a list of items. -/
def feed (step : σ → α → σ × β) : σ → List α → σ × List β
  | s, [] => (s, [])
  | s, a :: as =>
    let (s', b) := step s a
    let (s'', bs) := feed step s' as
    (s'', b :: bs)

@[simp] theorem feed_nil (step : σ → α → σ × β) (s : σ) :
    feed step s [] = (s, []) := rfl

@[simp] theorem feed_cons (step : σ → α → σ × β) (s : σ) (a : α)
    (as : List α) :
    feed step s (a :: as) =
      ((feed step (step s a).1 as).1,
        (step s a).2 :: (feed step (step s a).1 as).2) := rfl

theorem length_feed (step : σ → α → σ × β) (s : σ) (as : List α) :
    (feed step s as).2.length = as.length := by
  induction as generalizing s with
  | nil => rfl
  | cons a as ih => rw [feed_cons, List.length_cons, List.length_cons, ih]

theorem feed_append (step : σ → α → σ × β) (s : σ) (as as' : List α) :
    feed step s (as ++ as') =
      ((feed step (feed step s as).1 as').1,
        (feed step s as).2 ++ (feed step (feed step s as).1 as').2) := by
  induction as generalizing s with
  | nil => rfl
  | cons a as ih =>
    rw [List.cons_append, feed_cons, ih]
    rfl

/-- What comes later does not change the answers. -/
theorem feed_prefix (step : σ → α → σ × β) (s : σ) {as as' : List α}
    (h : as <+: as') : (feed step s as).2 <+: (feed step s as').2 := by
  obtain ⟨rest, rfl⟩ := h
  rw [feed_append]
  exact List.prefix_append _ _

/-- Run a transducer over batches, one after the other. -/
def feedBatches (step : σ → α → σ × β) : σ → List (List α) → σ × List β
  | s, [] => (s, [])
  | s, as :: batches =>
    let (s', bs) := feed step s as
    let (s'', rest) := feedBatches step s' batches
    (s'', bs ++ rest)

/-- The cuts between the batches do not show. -/
theorem feedBatches_eq (step : σ → α → σ × β) (s : σ)
    (batches : List (List α)) :
    feedBatches step s batches = feed step s batches.flatten := by
  induction batches generalizing s with
  | nil => rfl
  | cons as batches ih =>
    rw [List.flatten_cons, feed_append, ← ih]
    rfl

/-- The decoder undoes one step of the encoder. -/
def Inverts (decode : σ → β → σ × α) (encode : σ → α → σ × β) : Prop :=
  ∀ s a, decode s (encode s a).2 = ((encode s a).1, a)

/-- And so it undoes every stream. -/
theorem Inverts.feed {decode : σ → β → σ × α} {encode : σ → α → σ × β}
    (h : Inverts decode encode) (s : σ) (as : List α) :
    Lib.feed decode s (Lib.feed encode s as).2 =
      ((Lib.feed encode s as).1, as) := by
  induction as generalizing s with
  | nil => rfl
  | cons a as ih =>
    rw [feed_cons, feed_cons, h s a, ih]

end VulkanCompute.Lib
