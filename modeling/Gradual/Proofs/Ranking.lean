import Gradual.Ranking

/-!
# Ranking keeps the members

Whatever the comparison says, and also where it is no order, a ranked list has the members of the
list, each as often as before. Runs only cut a list, insertions and merges only move members, and
every run takes a member at least, so that none is left when the rounds are over.

Main statement: `sort_perm`.
-/

namespace Gradual.Ranking

variable {α : Type} (before : α → α → Bool)

/-! ## Insertions -/

/-- Insertion adds the element and loses none. -/
theorem insertByHalving_perm (m : α) (xs : List α) :
    (insertByHalving before m xs).Perm (m :: xs) := by
  fun_induction insertByHalving before m xs with
  | case1 xs hdrop =>
    have hlength : xs.length ≤ xs.length / 2 := List.drop_eq_nil_iff.1 hdrop
    have hnil : xs = [] := List.length_eq_zero_iff.1 (by omega)
    rw [hnil]
  | case2 xs x after hdrop _ ih =>
    have hxs : xs.take (xs.length / 2) ++ x :: after = xs := by rw [← hdrop, List.take_append_drop]
    have hmoved := ih.append_right (x :: after)
    rw [List.cons_append, hxs] at hmoved
    exact hmoved
  | case3 xs x after hdrop _ ih =>
    have hxs : xs.take (xs.length / 2) ++ x :: after = xs := by rw [← hdrop, List.take_append_drop]
    calc (xs.take (xs.length / 2) ++ x :: insertByHalving before m after).Perm
          (xs.take (xs.length / 2) ++ x :: m :: after) := (ih.cons x).append_left _
      _ = (xs.take (xs.length / 2) ++ [x]) ++ m :: after := by rw [List.append_assoc]; rfl
      List.Perm _ (m :: ((xs.take (xs.length / 2) ++ [x]) ++ after)) := List.perm_middle
      _ = m :: xs := by rw [List.append_assoc, List.singleton_append, hxs]

/-- Inserting members one after the other adds them, wherever each of them goes. -/
theorem foldl_insert_perm {insert : α → List α → List α} (h : ∀ m xs, (insert m xs).Perm (m :: xs))
    (ms run : List α) :
    (ms.foldl (fun run m => insert m run) run).Perm (run ++ ms) := by
  induction ms generalizing run with
  | nil =>
    rw [List.append_nil]
    exact .refl _
  | cons m ms ih =>
    have hstep := (h m run).append_right ms
    exact (ih _).trans (hstep.trans List.perm_middle.symm)

/-! ## Runs -/

/-- A chain is the beginning of the list, and the rest follows it. -/
theorem chain_append (keep : α → α → Bool) (last : α) (xs : List α) :
    (chain keep last xs).1 ++ (chain keep last xs).2 = xs := by
  induction xs generalizing last with
  | nil => rfl
  | cons x xs ih =>
    unfold chain
    split
    · exact congrArg (List.cons x) (ih x)
    · rfl

/-- The first run takes elements of the list and leaves the others; it may turn them around. -/
theorem headRun_perm (xs : List α) : ((headRun before xs).1 ++ (headRun before xs).2).Perm xs := by
  cases xs with
  | nil => exact .refl _
  | cons x xs =>
    have hfalling := chain_append before x xs
    rw [headRun]
    split
    · dsimp only
      rw [List.cons_append, chain_append]
    · rename_i falling rest _ hchain
      rw [hchain] at hfalling
      have hturned := (x :: falling).reverse_perm.append_right rest
      rw [List.cons_append, hfalling] at hturned
      exact hturned

/-- The first run of a list that is not empty is not empty. -/
theorem headRun_ne_nil {xs : List α} (h : xs ≠ []) : (headRun before xs).1 ≠ [] := by
  cases xs with
  | nil => exact absurd rfl h
  | cons x xs =>
    rw [headRun]
    split
    · exact List.cons_ne_nil _ _
    · simp

/-- A run that is filled up to a least length takes elements of the list and leaves the others. -/
theorem nextRun_perm (least : Nat) (xs : List α) :
    ((nextRun before least xs).1 ++ (nextRun before least xs).2).Perm xs := by
  unfold nextRun
  dsimp only
  refine ((foldl_insert_perm (insertByHalving_perm before) _ _).append_right _).trans ?_
  rw [List.append_assoc, List.take_append_drop]
  exact headRun_perm before xs

/-- Every run takes a member at least. -/
theorem length_nextRun_lt (least : Nat) {xs : List α} (h : xs ≠ []) :
    (nextRun before least xs).2.length < xs.length := by
  have hhead := (headRun_perm before xs).length_eq
  have hpos := List.length_pos_iff.2 (headRun_ne_nil before h)
  have hdrop : (nextRun before least xs).2.length ≤ (headRun before xs).2.length := by
    unfold nextRun
    rw [List.length_drop]
    omega
  rw [List.length_append] at hhead
  omega

/-! ## Merges -/

namespace Merging

variable (side : Side) (overtakes : α → α → Bool)

/-- Taking from the short run moves elements and loses none. -/
theorem finish_takeShort_perm (n : Nat) (m : Merging α) : (m.takeShort n).finish.Perm m.finish := by
  unfold takeShort
  split
  · exact .refl _
  · unfold finish
    rw [List.reverse_append, List.reverse_reverse]
    simp only [List.append_assoc]
    refine List.Perm.append_left _ ?_
    -- What was taken moves back over the longer run to the rest of the shorter one.
    refine (List.perm_append_comm_assoc _ _ _).trans ?_
    rw [List.take_append_drop]

/-- Taking from the long run does not change what the merging ends with. -/
theorem finish_takeLong (n : Nat) (m : Merging α) : (m.takeLong n).finish = m.finish := by
  unfold takeLong
  split
  · rfl
  · unfold finish
    rw [List.reverse_append, List.reverse_reverse, List.append_assoc m.merged.reverse,
      List.take_append_drop]

/-- A sweep moves elements and loses none. -/
theorem finish_sweep_perm (m : Merging α) : (m.sweep side overtakes).1.finish.Perm m.finish := by
  cases side with
  | front =>
    refine (finish_takeShort_perm 1 _).trans ?_
    rw [finish_takeLong, finish_takeLong]
    exact finish_takeShort_perm _ m
  | back =>
    show ((Merging.takeLong 1 _).finish).Perm m.finish
    rw [finish_takeLong]
    refine (finish_takeShort_perm _ _).trans ((finish_takeShort_perm 1 _).trans ?_)
    rw [finish_takeLong]

theorem finish_run_perm (rounds : Nat) (pace : Pace) (patience : Nat) (m : Merging α) :
    (run side overtakes rounds pace patience m).1.finish.Perm m.finish := by
  induction rounds generalizing pace patience m with
  | zero => exact .refl _
  | succ rounds ih =>
    unfold run
    split
    · exact .refl _
    · cases pace with
      | single short long =>
        dsimp only
        split
        · refine (ih _ _ _).trans ?_
          rw [finish_takeLong]
        · exact (ih _ _ _).trans (finish_takeShort_perm 1 m)
      | stretches =>
        have hsweep := finish_sweep_perm side overtakes m
        dsimp only
        split
        · exact hsweep
        · split
          · exact (ih _ _ _).trans hsweep
          · exact (ih _ _ _).trans hsweep

end Merging

/-- Merging from one side moves elements and loses none. -/
theorem mergeFrom_perm (side : Side) (overtakes : α → α → Bool) (patience : Nat)
    (short long : List α) :
    (mergeFrom side overtakes patience short long).1.Perm (long ++ short) := by
  refine (Merging.finish_run_perm side overtakes _ _ _ _).trans ?_
  show ((long.take 1).reverse ++ long.drop 1 ++ short).Perm (long ++ short)
  have hfirst := ((long.take 1).reverse_perm.append_right (long.drop 1)).append_right short
  rw [List.take_append_drop] at hfirst
  exact hfirst

/-- Merging two runs moves elements and loses none. -/
theorem merge_perm (patience : Nat) (xs ys : List α) :
    (merge before patience xs ys).1.Perm (xs ++ ys) := by
  unfold merge
  dsimp only
  split
  · exact .refl _
  · generalize leading .front _ xs = head
    generalize ys.length - _ = kept
    have hmiddle : ∀ {r : List α}, r.Perm (xs.drop head ++ ys.take kept) →
        (xs.take head ++ r ++ ys.drop kept).Perm (xs ++ ys) := by
      intro r hr
      refine ((hr.append_left _).append_right _).trans ?_
      rw [← List.append_assoc, List.take_append_drop, List.append_assoc, List.take_append_drop]
    split
    · exact hmiddle ((mergeFrom_perm .front before patience _ _).trans List.perm_append_comm)
    · refine hmiddle ?_
      refine (List.reverse_perm _).trans ((mergeFrom_perm .back _ patience _ _).trans ?_)
      exact (List.reverse_perm _).append (List.reverse_perm _)

/-! ## Piles -/

namespace Pile

/-- Fusing two runs of a pile moves elements and loses none. -/
theorem flatten_fuse_perm (p : Pile α) : (p.fuse before).runs.flatten.Perm p.runs.flatten := by
  -- The pile lists the last run first, so a merge also exchanges two neighbours.
  have hswap : ∀ (x y : List α) (patience : Nat) (rest : List α),
      ((merge before patience x y).1 ++ rest).Perm (y ++ (x ++ rest)) := by
    intro x y patience rest
    rw [← List.append_assoc]
    exact ((merge_perm before patience x y).trans List.perm_append_comm).append_right rest
  unfold fuse
  split
  · rename_i z y x rest hruns
    split
    · rw [hruns]
      simp only [List.flatten_cons]
      exact (hswap x y _ _).append_left z
    · rw [hruns]
      simp only [List.flatten_cons]
      exact hswap y z _ _
  · rename_i z y hruns
    rw [hruns]
    simp only [List.flatten_cons]
    exact hswap y z _ _
  · exact .refl _

theorem flatten_fuseWhile_perm (goesOn : Pile α → Bool) (n : Nat) (p : Pile α) :
    (fuseWhile before goesOn n p).runs.flatten.Perm p.runs.flatten := by
  induction n generalizing p with
  | zero => exact .refl _
  | succ n ih =>
    unfold fuseWhile
    split
    · exact (ih _).trans (flatten_fuse_perm before p)
    · exact .refl _

end Pile

/-- All members come onto the pile if there are rounds enough. -/
theorem flatten_pileUp_perm (least rounds : Nat) (xs : List α) (p : Pile α)
    (h : xs.length ≤ rounds) :
    (pileUp before least rounds xs p).runs.flatten.Perm (xs ++ p.runs.flatten) := by
  induction rounds generalizing xs p with
  | zero =>
    have hnil : xs = [] := List.length_eq_zero_iff.1 (by omega)
    rw [hnil]
    exact .refl _
  | succ rounds ih =>
    cases xs with
    | nil => exact .refl _
    | cons x xs =>
      have hshorter := length_nextRun_lt before least (List.cons_ne_nil x xs)
      have hpushed : ((p.push before (nextRun before least (x :: xs)).1).runs.flatten).Perm
          ((nextRun before least (x :: xs)).1 ++ p.runs.flatten) :=
            Pile.flatten_fuseWhile_perm before _ _ _
      refine (ih _ _ (by omega)).trans ((hpushed.append_left _).trans ?_)
      rw [← List.append_assoc]
      exact (List.perm_append_comm.trans (nextRun_perm before least (x :: xs))).append_right _

/-- **Ranking keeps the members.** A ranked list has the members of the list, each as often as
before. -/
theorem sort_perm (xs : List α) : (sort before xs).Perm xs := by
  refine (Pile.flatten_fuseWhile_perm before _ _ _).trans ?_
  refine (flatten_pileUp_perm before _ _ xs _ (Nat.le_refl _)).trans ?_
  rw [List.flatten_nil, List.append_nil]

end Gradual.Ranking
