import Mathlib.Data.List.Basic
import Mathlib.Order.Lattice
import Mathlib.Order.Nat

/-!
# Rankings

A ranking sorts values by their ranks, larger ranks first. Since the sort is stable, it leaves those
of one rank in the order in which they stood (`filter_mergeSort`); so whatever order they stood in
decides between equals (`pairwise_mergeSort_of_pairwise`).
-/

namespace RepoSurvey.Ranking

variable {α β : Type} [LinearOrder β]

theorem rank_trans (μ : α → β) (a b c : α) (hab : decide (μ b ≤ μ a) = true)
    (hbc : decide (μ c ≤ μ b) = true) : decide (μ c ≤ μ a) = true := by
  rw [decide_eq_true_eq] at hab hbc ⊢
  exact hbc.trans hab

theorem rank_total (μ : α → β) (a b : α) :
    (decide (μ b ≤ μ a) || decide (μ a ≤ μ b)) = true := by
  rw [Bool.or_eq_true, decide_eq_true_eq, decide_eq_true_eq]
  exact le_total (μ b) (μ a)

/-- A ranking leaves those of one rank in order. -/
theorem filter_mergeSort (μ : α → β) (l : List α) (m : β) :
    (l.mergeSort fun a b ↦ μ b ≤ μ a).filter (fun a ↦ μ a = m) = l.filter fun a ↦ μ a = m := by
  have hequal : (l.filter fun a ↦ μ a = m).Pairwise fun a b ↦ decide (μ b ≤ μ a) = true := by
    refine List.pairwise_of_forall_mem_list fun a ha b hb ↦ ?_
    have ha := of_decide_eq_true (List.mem_filter.1 ha).2
    have hb := of_decide_eq_true (List.mem_filter.1 hb).2
    rw [decide_eq_true_eq, ha, hb]
  have hsub := List.sublist_mergeSort (rank_trans μ) (rank_total μ) hequal List.filter_sublist
  have hkept := hsub.filter fun a ↦ decide (μ a = m)
  simp only [List.filter_filter, Bool.and_self] at hkept
  have hperm := (List.mergeSort_perm l fun a b ↦ μ b ≤ μ a).filter fun a ↦ decide (μ a = m)
  exact (hkept.eq_of_length hperm.length_eq.symm).symm

/-- A ranking puts higher ranks first and leaves those of one rank in order. -/
theorem pairwise_mergeSort_of_pairwise (μ : α → β) {R : α → α → Prop} {l : List α}
    (h : l.Pairwise R) :
    (l.mergeSort fun a b ↦ μ b ≤ μ a).Pairwise fun a b ↦ μ b < μ a ∨ μ a = μ b ∧ R a b := by
  have hranked := List.pairwise_mergeSort (rank_trans μ) (rank_total μ) l
  rw [List.pairwise_iff_forall_sublist] at h hranked ⊢
  intro a b hab
  have hle : μ b ≤ μ a := of_decide_eq_true (hranked hab)
  rcases hle.lt_or_eq with hlt | heq
  · exact Or.inl hlt
  · have hpair := hab.filter fun c ↦ decide (μ c = μ a)
    rw [filter_mergeSort, List.filter_cons_of_pos (by simp),
      List.filter_cons_of_pos (by simpa using heq), List.filter_nil] at hpair
    exact Or.inr ⟨heq.symm, h (hpair.trans List.filter_sublist)⟩

/-- Values that stand beside their ranks are ranked as they are alone. -/
theorem mergeSort_map_rank (μ : α → β) (l : List α) :
    (l.map fun a ↦ (a, μ a)).mergeSort (fun a b ↦ b.2 ≤ a.2) =
      (l.mergeSort fun a b ↦ μ b ≤ μ a).map fun a ↦ (a, μ a) := by
  symm
  apply List.map_mergeSort
  intro a _ b _
  rfl

/-- In a list that is ordered by a relation, a value stands behind as many others as are to go ahead
of it. -/
theorem idxOf_eq_length_filter [DecidableEq α] {r : α → α → Prop} [DecidableRel r]
    (hasymm : ∀ a b, r a b → ¬r b a) {l : List α} (h : l.Pairwise r) {a : α} (ha : a ∈ l) :
    l.idxOf a = (l.filter fun b ↦ r b a).length := by
  obtain ⟨ahead, behind, rfl⟩ := List.append_of_mem ha
  obtain ⟨-, hrest, hcross⟩ := List.pairwise_append.1 h
  have hirrefl : ¬r a a := fun haa ↦ hasymm a a haa haa
  have hahead : ∀ b ∈ ahead, r b a := fun b hb ↦ hcross b hb a List.mem_cons_self
  have hbehind : ∀ b ∈ a :: behind, ¬r b a := by
    intro b hb
    rcases List.mem_cons.1 hb with rfl | hb
    · exact hirrefl
    · exact hasymm a b ((List.pairwise_cons.1 hrest).1 b hb)
  have hnot : a ∉ ahead := fun hmem ↦ hirrefl (hahead a hmem)
  rw [List.idxOf_append_of_notMem hnot, List.idxOf_cons_self, Nat.add_zero, List.filter_append,
    List.filter_eq_self.2 fun b hb ↦ decide_eq_true (hahead b hb),
    List.filter_eq_nil_iff.2 fun b hb ↦ by simpa using hbehind b hb, List.append_nil]

end RepoSurvey.Ranking
