import Mathlib.Data.List.Basic
import StoragePolicy.Registry.Static

/-!
# Sorting is stable

Lists are put in ascending order of a number, and items of one number keep their order. So what has
been put in order is determined by what there is of each number. That makes it easy to say what
comes of sorting twice: lists that are sorted one by one, put together and sorted again give what is
got by putting them together and sorting once.

## Theorems

* `filter_inOrder`: The items of one number keep their order.
* `eq_of_filter_eq`: Sorted lists are determined by their items of each number.
* `inOrder_flatMap`: Sorting the parts before the whole changes nothing.
* `inOrder_append_cons`: An item that is taken away leaves all others in their places.
-/

namespace StoragePolicy

namespace Registry

variable {α β : Type} (order : α → Nat)

theorem order_trans (a b c : α) (hab : decide (order a ≤ order b) = true)
    (hbc : decide (order b ≤ order c) = true) : decide (order a ≤ order c) = true := by
  simp only [decide_eq_true_eq] at hab hbc ⊢
  omega

theorem order_total (a b : α) :
    (decide (order a ≤ order b) || decide (order b ≤ order a)) = true := by
  simp only [Bool.or_eq_true, decide_eq_true_eq]
  omega

theorem perm_inOrder (items : List α) : (inOrder order items).Perm items := List.mergeSort_perm _ _

theorem pairwise_inOrder (items : List α) :
    (inOrder order items).Pairwise fun a b => order a ≤ order b := by
  refine (List.pairwise_mergeSort (order_trans order) (order_total order) items).imp ?_
  intro a b hab
  simpa using hab

theorem inOrder_of_pairwise (items : List α) (h : items.Pairwise fun a b => order a ≤ order b) :
    inOrder order items = items := by
  refine List.mergeSort_of_pairwise (h.imp ?_)
  intro a b hab
  simpa using hab

theorem map_inOrder (f : β → α) (items : List β) :
    (inOrder (fun b => order (f b)) items).map f = inOrder order (items.map f) :=
  List.map_mergeSort fun _ _ _ _ => rfl

/-- The items of one number keep their order. -/
theorem filter_inOrder (items : List α) (n : Nat) :
    (inOrder order items).filter (fun a => order a = n) = items.filter fun a => order a = n := by
  have hequal : (items.filter fun a => order a = n).Pairwise fun a b => order a ≤ order b := by
    refine List.pairwise_of_forall_mem_list fun a ha b hb => ?_
    have hn : order a = n ∧ order b = n := by
      simpa using And.intro (List.mem_filter.mp ha).2 (List.mem_filter.mp hb).2
    omega
  have hsublist : (items.filter fun a => order a = n).Sublist (inOrder order items) := by
    refine List.sublist_mergeSort (order_trans order) (order_total order) (hequal.imp ?_)
      List.filter_sublist
    intro a b hab
    simpa using hab
  -- Both sides are as long, so that nothing stands between the items on the left.
  have hfiltered := hsublist.filter fun a => order a = n
  rw [List.filter_filter] at hfiltered
  simp only [Bool.and_self] at hfiltered
  refine (hfiltered.eq_of_length ?_).symm
  exact ((perm_inOrder order items).filter _).length_eq.symm

theorem mem_iff_of_filter_eq (xs ys : List α)
    (h : ∀ n, xs.filter (fun a => order a = n) = ys.filter fun a => order a = n) (a : α) :
    a ∈ xs ↔ a ∈ ys := by
  have hiff : a ∈ xs.filter (fun b => order b = order a) ↔
      a ∈ ys.filter fun b => order b = order a := by rw [h]
  simpa using hiff

/-- Sorted lists are determined by their items of each number. -/
theorem eq_of_filter_eq (xs ys : List α) (hxs : xs.Pairwise fun a b => order a ≤ order b)
    (hys : ys.Pairwise fun a b => order a ≤ order b)
    (h : ∀ n, xs.filter (fun a => order a = n) = ys.filter fun a => order a = n) : xs = ys := by
  have hmem := mem_iff_of_filter_eq order xs ys h
  induction xs generalizing ys with
  | nil =>
    cases ys with
    | nil => rfl
    | cons y ys => exact absurd ((hmem y).mpr List.mem_cons_self) List.not_mem_nil
  | cons x xs ih =>
    cases ys with
    | nil => exact absurd ((hmem x).mp List.mem_cons_self) List.not_mem_nil
    | cons y ys =>
      rw [List.pairwise_cons] at hxs hys
      -- Each head has the least number of its list, and both lists have the same items.
      have hle : order y ≤ order x := by
        rcases List.mem_cons.mp ((hmem x).mp List.mem_cons_self) with heq | htail
        · exact Nat.le_of_eq (congrArg order heq.symm)
        · exact hys.1 x htail
      have hge : order x ≤ order y := by
        rcases List.mem_cons.mp ((hmem y).mpr List.mem_cons_self) with heq | htail
        · exact Nat.le_of_eq (congrArg order heq.symm)
        · exact hxs.1 y htail
      have hhead : x = y := by
        have hfirst := h (order x)
        rw [List.filter_cons_of_pos (by simp),
          List.filter_cons_of_pos (by simpa using Nat.le_antisymm hle hge),
          List.cons.injEq] at hfirst
        exact hfirst.1
      subst hhead
      have hrest : ∀ n, xs.filter (fun a => order a = n) = ys.filter fun a => order a = n := by
        intro n
        have hn := h n
        by_cases hx : order x = n
        · rw [List.filter_cons_of_pos (by simpa using hx),
            List.filter_cons_of_pos (by simpa using hx), List.cons.injEq] at hn
          exact hn.2
        · rwa [List.filter_cons_of_neg (by simpa using hx),
            List.filter_cons_of_neg (by simpa using hx)] at hn
      exact congrArg (List.cons x)
        (ih ys hxs.2 hys.2 hrest (mem_iff_of_filter_eq order xs ys hrest))

/-- Sorting the parts before the whole changes nothing. -/
theorem inOrder_flatMap (part : β → List α) (keys : List β) :
    inOrder order (keys.flatMap fun key => inOrder order (part key)) =
      inOrder order (keys.flatMap part) := by
  refine eq_of_filter_eq order _ _ (pairwise_inOrder order _) (pairwise_inOrder order _) fun n => ?_
  rw [filter_inOrder, filter_inOrder, List.filter_flatMap, List.filter_flatMap]
  simp only [filter_inOrder]

/-- To put items in order and to leave some out is to leave them out and to put the rest in
    order. -/
theorem filter_inOrder_comm (p : α → Bool) (items : List α) :
    (inOrder order items).filter p = inOrder order (items.filter p) := by
  have hcomm : ∀ (q : α → Bool) (items : List α),
      (items.filter p).filter q = (items.filter q).filter p := by
    intro q items
    rw [List.filter_filter, List.filter_filter]
    simp only [Bool.and_comm]
  refine eq_of_filter_eq order _ _ ((pairwise_inOrder order _).filter _) (pairwise_inOrder order _)
    fun n => ?_
  rw [filter_inOrder, hcomm, filter_inOrder, hcomm]

/-- An item that is taken away leaves all others in their places. -/
theorem inOrder_append_cons (before after : List α) (a : α) :
    ∃ first last, inOrder order (before ++ a :: after) = first ++ a :: last ∧
      inOrder order (before ++ after) = first ++ last := by
  -- The item may stand there several times, so this one is marked.
  let marked : List (α × Bool) :=
    before.map (fun b => (b, false)) ++ (a, true) :: after.map fun b => (b, false)
  have hfst : (inOrder (fun b => order b.1) marked).map Prod.fst =
      inOrder order (before ++ a :: after) := by
    rw [map_inOrder]
    simp [marked, Function.comp_def]
  have hrest : ((inOrder (fun b => order b.1) marked).filter fun b => !b.2).map Prod.fst =
      inOrder order (before ++ after) := by
    rw [filter_inOrder_comm, map_inOrder]
    simp [marked, List.filter_map, Function.comp_def, List.filter_true]
  have honly : (inOrder (fun b => order b.1) marked).filter Prod.snd = [(a, true)] := by
    rw [filter_inOrder_comm]
    simp [marked, List.filter_map, Function.comp_def, List.filter_false, inOrder]
  have hmem : (a, true) ∈ inOrder (fun b => order b.1) marked := by
    rw [(perm_inOrder _ marked).mem_iff]
    simp [marked]
  rcases List.append_of_mem hmem with ⟨first, last, hsplit⟩
  rw [hsplit] at hfst hrest honly
  have hunmarked : ∀ b ∈ first ++ last, b.2 = false := by
    have hlength := congrArg List.length honly
    simp only [List.filter_append, List.filter_cons_of_pos, List.length_append, List.length_cons,
      List.length_nil] at hlength
    have hnone : (first ++ last).filter Prod.snd = [] := by
      refine List.eq_nil_of_length_eq_zero ?_
      rw [List.filter_append, List.length_append]
      omega
    simpa using List.filter_eq_nil_iff.mp hnone
  refine ⟨first.map Prod.fst, last.map Prod.fst, ?_, ?_⟩
  · rw [← hfst, List.map_append, List.map_cons]
  · rw [← hrest, List.filter_append, List.filter_cons_of_neg (by simp), ← List.filter_append,
      List.filter_eq_self.mpr fun b hb => by simpa using hunmarked b hb, List.map_append]

end Registry

end StoragePolicy
