import Mathlib.Tactic.Common
import Scrutiny.Path

/-!
The order of paths is a linear one of their components, so paths that it does not tell apart are
the same.
-/

namespace Scrutiny

/-! ## 1. Components -/

instance : Ord Component := ⟨Component.order⟩

theorem Component.order_eq_compareLex :
    Component.order = compareLex (compareOn rank) (compareOn text) := rfl

instance : Std.TransOrd Component := by
  change Std.TransCmp Component.order
  rw [Component.order_eq_compareLex]
  infer_instance

-- Components of one rank differ in their names only.
instance : Std.LawfulEqOrd Component where
  compare_self := by
    intro component
    change Component.order component component = .eq
    simp [Component.order]
  eq_of_compare := by
    intro a b h
    obtain ⟨hrank, htext⟩ := Ordering.then_eq_eq.mp (show Component.order a b = .eq from h)
    have hrank' : a.rank = b.rank := Std.LawfulEqOrd.eq_of_compare hrank
    have htext' : a.text = b.text := Std.LawfulEqOrd.eq_of_compare htext
    cases a <;> cases b <;> simp_all [Component.rank, Component.text]

/-! ## 2. Paths -/

namespace Path

theorem orderComponents_eq_compare (as bs : List Component) :
    orderComponents as bs = compare as bs := by
  induction as generalizing bs with
  | nil => cases bs <;> rfl
  | cons a as ih =>
    cases bs with
    | nil => rfl
    | cons b bs =>
      rw [orderComponents, ih]
      change _ = List.compareLex compare (a :: as) (b :: bs)
      rw [List.compareLex_cons_cons]
      rfl

instance : Ord Path := ⟨order⟩

theorem compare_eq_compareOn : (compare : Path → Path → Ordering) = compareOn components := by
  funext p q
  exact orderComponents_eq_compare _ _

instance : Std.TransOrd Path := by
  rw [Std.TransOrd, compare_eq_compareOn]
  infer_instance

theorem same_self (p : Path) : p.same p = true :=
  beq_self_eq_true p.components

theorem same_comm (p q : Path) : p.same q = q.same p := by
  rw [same, same, BEq.comm]

theorem same_trans {p q r : Path} (hpq : p.same q = true) (hqr : q.same r = true) :
    p.same r = true := by
  rw [same, beq_iff_eq] at *
  exact hpq.trans hqr

theorem same_congr_right {p q : Path} (h : p.same q = true) (r : Path) :
    r.same p = r.same q := by
  rw [same, beq_iff_eq] at h
  rw [same, same, h]

theorem order_eq_eq {p q : Path} : p.order q = .eq ↔ p.same q = true := by
  rw [order, orderComponents_eq_compare, same, beq_iff_eq]
  exact Std.LawfulEqCmp.compare_eq_iff_eq

theorem le_trans {p q r : Path} (hpq : p.le q = true) (hqr : q.le r = true) : p.le r = true :=
  Std.TransOrd.isLE_trans (a := p) (b := q) (c := r) hpq hqr

theorem le_total (p q : Path) : (p.le q || q.le p) = true := by
  have hswap : p.order q = (q.order p).swap := Std.OrientedOrd.eq_swap (a := p) (b := q)
  rw [le, le, hswap]
  cases q.order p <;> rfl

-- Different paths of which one comes first.
theorem order_eq_lt_of_le {p q : Path} (hle : p.le q = true) (hsame : p.same q = false) :
    p.order q = .lt := by
  have hne : p.order q ≠ .eq := by
    rw [ne_eq, order_eq_eq, hsame]
    exact Bool.false_ne_true
  rw [le] at hle
  cases horder : p.order q with
  | lt => rfl
  | eq => exact absurd horder hne
  | gt => simp [horder] at hle

-- Paths that are in order and no two the same are in order strictly.
theorem pairwise_mergeSort_le {paths : List Path}
    (h : paths.Pairwise fun p q => p.same q = false) :
    (paths.mergeSort le).Pairwise fun p q => p.order q = .lt := by
  have hsorted : (paths.mergeSort le).Pairwise fun p q => p.le q = true :=
    @List.pairwise_mergeSort Path le (fun _ _ _ => Path.le_trans) Path.le_total paths
  have hsymm : ∀ {p q : Path}, p.same q = false → q.same p = false :=
    fun {p q} hsame => by rwa [same_comm]
  have hapart : (paths.mergeSort le).Pairwise fun p q => p.same q = false :=
    h.perm (List.mergeSort_perm paths le).symm hsymm
  exact hsorted.imp₂ (fun _ _ => order_eq_lt_of_le) hapart

theorem eq_of_pairwise_order {paths others : List Path}
    (hpaths : paths.Pairwise fun p q => p.order q = .lt)
    (hothers : others.Pairwise fun p q => p.order q = .lt)
    (h : ∀ path, path ∈ paths ↔ path ∈ others) : paths = others := by
  have hne : ∀ {p q : Path}, p.order q = .lt → p ≠ q := by
    rintro p _ horder rfl
    rw [order_eq_eq.mpr (same_self p)] at horder
    exact nomatch horder
  have hperm : paths.Perm others :=
    (List.perm_ext_iff_of_nodup (hpaths.imp hne) (hothers.imp hne)).mpr h
  refine List.Perm.eq_of_pairwise (fun p q _ _ hpq hqp => ?_) hpaths hothers hperm
  have hswap : p.order q = (q.order p).swap := Std.OrientedOrd.eq_swap (a := p) (b := q)
  rw [hpq, hqp] at hswap
  exact nomatch hswap

end Path

end Scrutiny
