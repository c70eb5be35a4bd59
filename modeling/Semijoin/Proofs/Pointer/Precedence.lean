import Semijoin.Pointer

/-!
# Which of two places comes first

The order of pointers is the preorder of documents: a value comes before the values in it, members
come in the order of their keys, and elements in the order of their positions. So of two places
the second is inside the first, or they part at some segment that is the smaller one in the first.
-/

namespace Semijoin

namespace Segment

/-- Keys are ranked by code point. -/
theorem order_key_eq_lt_iff {a b : String} : order (.key a) (.key b) = .lt ↔ a < b :=
  compareOfLessAndEq_eq_lt

/-- Positions are ranked as numbers. -/
theorem order_index_eq_lt_iff {i j : Nat} : order (.index i) (.index j) = .lt ↔ i < j :=
  Nat.compare_eq_lt

/-- Only equal segments have the same rank. -/
theorem order_eq_eq_iff {a b : Segment} : order a b = .eq ↔ a = b := by
  cases a with
  | key a =>
    cases b with
    | key b =>
      rw [Segment.key.injEq]
      exact Std.compare_eq_iff_eq
    | index j => exact ⟨nofun, nofun⟩
  | index i =>
    cases b with
    | key b => exact ⟨nofun, nofun⟩
    | index j =>
      rw [Segment.index.injEq]
      exact Std.compare_eq_iff_eq

/-- Of two segments only one has the smaller rank. -/
theorem order_asymm {a b : Segment} (h : order a b = .lt) : order b a ≠ .lt := by
  cases a with
  | key a =>
    cases b with
    | key b =>
      rw [order_key_eq_lt_iff] at h
      exact fun h' => String.lt_asymm h (order_key_eq_lt_iff.mp h')
    | index j => exact nofun
  | index i =>
    cases b with
    | key b => cases h
    | index j =>
      rw [order_index_eq_lt_iff] at h
      exact fun h' => Nat.lt_asymm h (order_index_eq_lt_iff.mp h')

end Segment

namespace Pointer

/-- A place comes before another one in preorder. -/
def Before (p q : Pointer) : Prop := order p q = .lt

/-- The whole document comes before everything in it. -/
theorem root_before (segment : Segment) (q : Pointer) : Before [] (segment :: q) := rfl

/-- Nothing comes before the whole document. -/
theorem not_before_root (p : Pointer) : ¬ Before p [] := by
  cases p <;> exact nofun

/-- Two places in a value compare by their first segments, and further in if these are equal. -/
theorem before_cons_iff {a b : Segment} {p q : Pointer} :
    Before (a :: p) (b :: q) ↔ a.order b = .lt ∨ a = b ∧ Before p q := by
  unfold Before order
  rw [List.compareLex_cons_cons, Ordering.then_eq_lt, Segment.order_eq_eq_iff]

/-- Places compare in the same way from further outside. -/
theorem Before.under {p q : Pointer} (h : Before p q) (base : Pointer) :
    Before (base ++ p) (base ++ q) := by
  induction base with
  | nil => exact h
  | cons segment rest ih => exact before_cons_iff.mpr (.inr ⟨rfl, ih⟩)

/-- A place comes before every place inside it. -/
theorem before_append (p : Pointer) {inner : Pointer} (hinner : inner ≠ []) :
    Before p (p ++ inner) := by
  obtain ⟨segment, rest, rfl⟩ := List.exists_cons_of_ne_nil hinner
  simpa using (root_before segment rest).under p

/-- Of two places only one comes before the other. -/
theorem Before.asymm {p q : Pointer} (h : Before p q) : ¬ Before q p := by
  induction p generalizing q with
  | nil => exact not_before_root q
  | cons a p ih =>
    cases q with
    | nil => exact absurd h (not_before_root _)
    | cons b q =>
      rw [before_cons_iff] at h ⊢
      rintro (hlt | ⟨rfl, hbefore⟩)
      · rcases h with hlt' | ⟨rfl, -⟩
        · exact Segment.order_asymm hlt hlt'
        · exact Segment.order_asymm hlt hlt
      · rcases h with hlt | ⟨-, h⟩
        · exact Segment.order_asymm hlt hlt
        · exact ih h hbefore

/-- A place that comes before another one is not the other one. -/
theorem Before.ne {p q : Pointer} (h : Before p q) : p ≠ q := by
  rintro rfl
  exact h.asymm h

/-- A place that comes before another one leads to it or parts from it at a smaller segment. -/
theorem Before.prefix_or_parts {p q : Pointer} (h : Before p q) :
    p <+: q ∨ ∃ common a b rest inner, p = common ++ a :: rest ∧ q = common ++ b :: inner ∧
      a.order b = .lt := by
  induction p generalizing q with
  | nil => exact .inl List.nil_prefix
  | cons a p ih =>
    cases q with
    | nil => exact absurd h (not_before_root _)
    | cons b q =>
      rcases before_cons_iff.mp h with hlt | ⟨rfl, hbefore⟩
      · exact .inr ⟨[], a, b, p, q, rfl, rfl, hlt⟩
      · rcases ih hbefore with hprefix | ⟨common, c, d, rest, inner, rfl, rfl, hlt⟩
        · exact .inl (List.cons_prefix_cons.mpr ⟨rfl, hprefix⟩)
        · exact .inr ⟨a :: common, c, d, rest, inner, rfl, rfl, hlt⟩

end Pointer

end Semijoin
