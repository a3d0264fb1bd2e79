import Nylon.Core.SourceTable
import Mathlib.Data.Prod.Lex
import Mathlib.Order.WithBot

/-!
Feasibility distances as an order. Inside a window of sequence numbers the
distances of a source are ranked by recency and then by metric; a smaller rank
is better. A source table entry is the smallest rank the node has announced, an
update is feasible if its rank is smaller than that, and no event but garbage
collection lets an entry grow. `LocalStep` says what one event does to the
feasibility distances and to the selected routes of a node.
-/

namespace Nylon.Network

open State Netip Lib Nylon.Core

/-- Recency first, newer is smaller; then the metric. -/
abbrev Rank := ℕᵒᵈ ×ₗ ℕ

def rank (base : UInt16) (d : FD) : Rank :=
  toLex (OrderDual.toDual (seqnoOffset base d.seqno), d.metric.toNat)

theorem rank_lt_iff {base : UInt16} {d d' : FD} : rank base d < rank base d' ↔
      seqnoOffset base d'.seqno < seqnoOffset base d.seqno ∨
        d.seqno = d'.seqno ∧ d.metric < d'.metric := by
  unfold rank
  rw [Prod.Lex.toLex_lt_toLex]
  simp only [OrderDual.toDual_lt_toDual, OrderDual.toDual_inj, seqnoOffset_inj]
  rw [UInt32.lt_iff_toNat_lt]

theorem rank_le_of_metric {base : UInt16} {d d' : FD} (hseqno : d.seqno = d'.seqno)
    (hmetric : d.metric ≤ d'.metric) : rank base d ≤ rank base d' := by
  rw [← not_lt, rank_lt_iff, hseqno]
  rintro (h | ⟨_, h⟩)
  · exact absurd h (lt_irrefl _)
  · exact absurd h (not_lt_of_ge hmetric)

/-- The rank of a source table entry; a source without an entry is unbounded. -/
def entryRank (base : UInt16) (entry : Option FD) : WithTop Rank :=
  entry.elim ⊤ fun d => (rank base d : WithTop Rank)

/-- Maintaining a feasibility distance takes the minimum. -/
theorem entryRank_maintainFD {base : UInt16} {entry : Option FD} {d : FD}
    (hentry : ∀ e ∈ entry, InWindow base e.seqno) (hd : InWindow base d.seqno) :
    entryRank base (some (maintainFD entry d)) = min (entryRank base entry) (rank base d) := by
  cases entry with
  | none => simp [entryRank, maintainFD]
  | some e =>
    have he := hentry e rfl
    simp only [entryRank, Option.elim_some, ← WithTop.coe_min, WithTop.coe_inj]
    simp only [maintainFD, seqnoLt_iff_offset he hd]
    split
    · next hnewer =>
      exact (min_eq_right (rank_lt_iff.mpr (Or.inl hnewer)).le).symm
    · next holder =>
      split
      · next hbetter =>
        have heq : rank base {e with metric := d.metric} = rank base d := by
          simp [rank, hbetter.1]
        rw [heq]
        exact (min_eq_right (rank_lt_iff.mpr (Or.inr ⟨hbetter.1.symm, hbetter.2⟩)).le).symm
      · next hworse =>
        refine (min_eq_left ?_).symm
        rw [← not_lt, rank_lt_iff]
        rintro (h | ⟨h, h'⟩)
        · exact holder h
        · exact hworse ⟨h.symm, h'⟩

variable (base : Source → UInt16)

/-- The feasibility distance of a node for a source. -/
def feasDist (s : RouterState) (src : Source) : WithTop Rank :=
  entryRank (base src) (s.sources.lookup src)

def routeRank (r : PubRoute) : Rank := rank (base r.toSource) r.toFD

/-- All entries of a source table lie in the window of their source. -/
def SourcesWithin (s : RouterState) : Prop :=
  ∀ src d, s.sources.lookup src = some d → InWindow (base src) d.seqno

def Within (r : PubRoute) : Prop := InWindow (base r.toSource) r.seqno

instance (r : PubRoute) : Decidable (Within base r) :=
  inferInstanceAs (Decidable (InWindow _ _))

variable {base}

/-- A feasible finite route ranks below the feasibility distance. -/
theorem routeRank_lt_feasDist {s : RouterState} {r : PubRoute}
    (hsources : SourcesWithin base s) (hr : Within base r)
    (hfeasible : checkFeasibility s r = true) (hfinite : r.metric ≠ INF) :
    (routeRank base r : WithTop Rank) < feasDist base s r.toSource := by
  unfold feasDist entryRank
  cases hentry : s.sources.lookup r.toSource with
  | none => exact WithTop.coe_lt_top _
  | some d =>
    have hd := hsources _ d hentry
    simp only [checkFeasibility, hentry, Bool.or_eq_true, Bool.and_eq_true,
      beq_iff_eq, decide_eq_true_eq, hfinite, or_false,
      seqnoLt_iff_offset hd hr] at hfeasible
    simp only [Option.elim_some, WithTop.coe_lt_coe, routeRank]
    rw [rank_lt_iff]
    exact hfeasible.imp_right fun h => ⟨h.1.symm, h.2⟩

variable (base)

/-- What one event does to the feasibility distances and the routes of a node.
A finite selected route is one of before, and the distance has at most fallen to
its own rank; or it is an own advertisement; or it comes from a stored route
that ranked strictly below the distance, and still ranks no higher. -/
structure LocalStep (s s' : RouterState) (updates : List PubRoute) : Prop where
  decreasing : ∀ src, feasDist base s' src ≤ feasDist base s src
  announced : ∀ u ∈ updates, u.metric ≠ INF → feasDist base s' u.toSource ≤ routeRank base u
  selected : ∀ p r, s'.routes.lookup p = some r → r.metric ≠ INF →
    (∃ r₀, s.routes.lookup p = some r₀ ∧ r₀.toPubRoute = r.toPubRoute ∧ r₀.nh = r.nh ∧
      min (feasDist base s r.toSource) (routeRank base r.toPubRoute) ≤
        feasDist base s' r.toSource) ∨
    (∃ adv, s.advertised.lookup p = some adv ∧ r.nodeId = s.id ∧ r.nh = adv.nodeId) ∨
    (∃ st, Stored s r.nh p st ∧ st.metric ≠ INF ∧ r.toSource = st.toSource ∧
      r.seqno = st.seqno ∧ st.metric ≤ r.metric ∧
      (routeRank base st.toPubRoute : WithTop Rank) < feasDist base s r.toSource ∧
      (routeRank base st.toPubRoute : WithTop Rank) ≤ feasDist base s' r.toSource)

end Nylon.Network
