import Mathlib.Data.Char
import Mathlib.Data.List.Lex
import RequireInjection.Proofs.FileTree.Places
import RequireInjection.Proofs.Utf8.Order

namespace RequireInjection.FileTree

variable {t : FileTree} {l f g : Location} {m n : Text}

section Names

theorem nameLe_iff : nameLe m n ↔ ¬ n < m := by
  fun_induction nameLe m n with
  | case1 n => simp
  | case2 c cs => simp
  | case3 cs c ds ih => rw [ih, List.cons_lt_cons_self]
  | case4 c cs d ds differ =>
    have decided : d < c ↔ ¬ c < d := by
      constructor
      · intro lower
        exact lt_asymm lower
      · intro higher
        exact lt_of_le_of_ne (not_lt.mp higher) (Ne.symm differ)
    rw [List.cons_lt_cons_iff, decided, decide_eq_true_eq]
    simp [Ne.symm differ, Char.lt_def]

theorem namesIn_sorted (t : FileTree) (l : Location) :
    (t.namesIn l).Pairwise fun m n => Utf8.encode m < Utf8.encode n := by
  have trans : ∀ a b c : Text, nameLe a b → nameLe b c → nameLe a c := by
    simp only [nameLe_iff, not_lt]
    exact fun a b c => le_trans
  have total : ∀ a b : Text, nameLe a b || nameLe b a := by
    intro a b
    simpa only [Bool.or_eq_true, nameLe_iff, not_lt] using le_total a b
  have sorted : (t.namesIn l).Pairwise fun m n => nameLe m n :=
    List.pairwise_mergeSort trans total _
  refine (sorted.and (t.nodup_namesIn l)).imp ?_
  rintro m n ⟨ordered, differ⟩
  exact Utf8.encode_lt_encode (lt_of_le_of_ne (not_lt.mp (nameLe_iff.mp ordered)) differ)

end Names

section Files

variable {c : List UInt8} {x : Item} {depth : Nat}

theorem mem_namesIn_of_item? (here : t.item? (l ++ [n]) = some x) : n ∈ t.namesIn l := by
  rw [item?, if_neg (by simp)] at here
  exact mem_namesIn.mpr (List.mem_map.mpr ⟨_, Entries.mem_of_get? here, rfl⟩)

theorem length_le_depth (member : l ∈ t.items.keys) : l.length ≤ t.depth := by
  have above : ∀ (ks : List Location) (d : Nat),
      d ≤ ks.foldl (fun d k => max d k.length) d ∧
        ∀ k ∈ ks, k.length ≤ ks.foldl (fun d k => max d k.length) d := by
    intro ks
    induction ks with
    | nil => simp
    | cons k ks ih =>
      intro d
      obtain ⟨start, others⟩ := ih (max d k.length)
      rw [List.foldl_cons]
      refine ⟨by omega, ?_⟩
      intro j member
      rcases List.mem_cons.mp member with rfl | later
      · omega
      · exact others j later
  exact (above t.items.keys 0).2 l member

theorem file_of_mem_filesFrom (member : f ∈ t.filesFrom depth l) :
    ∃ c, t.item? (l ++ f) = some (.file c) := by
  induction depth generalizing l f with
  | zero => simp [filesFrom] at member
  | succ depth ih =>
    obtain ⟨name, -, here⟩ := List.mem_flatMap.mp member
    split at here
    · rename_i c file
      obtain rfl := List.mem_singleton.mp here
      exact ⟨c, file⟩
    · obtain ⟨below, deeper, rfl⟩ := List.mem_map.mp here
      obtain ⟨c, file⟩ := ih deeper
      exact ⟨c, by rwa [List.append_assoc] at file⟩
    · simp at here

theorem mem_filesFrom_of_file (proper : f ≠ []) (deep : f.length ≤ depth)
    (file : t.item? (l ++ f) = some (.file c)) : f ∈ t.filesFrom depth l := by
  induction depth generalizing l f with
  | zero => exact absurd (List.length_eq_zero_iff.mp (by omega)) proper
  | succ depth ih =>
    cases f with
    | nil => exact absurd rfl proper
    | cons n rest =>
      rw [filesFrom, List.mem_flatMap]
      cases rest with
      | nil => exact ⟨n, mem_namesIn_of_item? file, by rw [file]; simp⟩
      | cons m rest =>
        have whole : l ++ n :: m :: rest = (l ++ [n]) ++ m :: rest := by simp
        rw [whole] at file
        have above : t.item? (l ++ [n]) = some .directory := item?_above (by simp) file
        have below := ih (by simp) (by simpa using deep) file
        exact ⟨n, mem_namesIn_of_item? above, by rw [above]; simpa using below⟩

theorem mem_filesBelow {path : Text} (found : t.find path = .ok (.item l .directory)) :
    f ∈ t.filesBelow path ↔ f ≠ [] ∧ ∃ c, t.item? (l ++ f) = some (.file c) := by
  rw [filesBelow, found]
  constructor
  · intro member
    exact ⟨(named_filesFrom member).2, file_of_mem_filesFrom member⟩
  · rintro ⟨proper, c, file⟩
    refine mem_filesFrom_of_file proper ?_ file
    have some_name : l ++ f ≠ [] := by simp [proper]
    rw [item?, if_neg some_name] at file
    have within := length_le_depth (List.mem_map.mpr ⟨_, Entries.mem_of_get? file, rfl⟩)
    rw [List.length_append] at within
    omega

theorem filesFrom_sorted (depth : Nat) (l : Location) :
    (t.filesFrom depth l).Pairwise fun f g => f.map Utf8.encode < g.map Utf8.encode := by
  induction depth generalizing l with
  | zero => exact List.Pairwise.nil
  | succ depth ih =>
    rw [filesFrom, List.pairwise_flatMap]
    constructor
    · intro name _
      split
      · exact List.pairwise_singleton _ _
      · rw [List.pairwise_map]
        refine (ih _).imp ?_
        intro f g before
        exact List.cons_lt_cons_iff.mpr (Or.inr ⟨rfl, before⟩)
      · exact List.Pairwise.nil
    · -- what lies at different names is told apart by these
      refine (t.namesIn_sorted l).imp ?_
      intro m n before f here g there
      obtain ⟨_, rfl⟩ := List.head?_eq_some_iff.mp (head_listed here)
      obtain ⟨_, rfl⟩ := List.head?_eq_some_iff.mp (head_listed there)
      exact List.cons_lt_cons_iff.mpr (Or.inl before)

end Files

end RequireInjection.FileTree
