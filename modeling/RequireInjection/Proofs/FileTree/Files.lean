import Mathlib.Data.List.Nodup
import RequireInjection.FileTree
import RequireInjection.Proofs.FilePath.Names

namespace RequireInjection
namespace FileTree

variable {t : FileTree} {l : Location} {n : Text}

theorem nameIn_eq_some {k : Location} :
    (match k.getLast? with
      | some m => if k.dropLast = l then some m else none
      | none => none) = some n ↔ k = l ++ [n] := by
  constructor
  · intro here
    cases last : k.getLast? with
    | none => simp [last] at here
    | some m =>
      obtain ⟨above, rfl⟩ := List.getLast?_eq_some_iff.mp last
      simp only [last, List.dropLast_concat] at here
      split at here
      · rename_i same
        cases here
        rw [same]
      · cases here
  · rintro rfl
    simp

theorem mem_namesIn : n ∈ t.namesIn l ↔ l ++ [n] ∈ t.items.keys := by
  rw [namesIn, List.mem_mergeSort, List.mem_filterMap]
  constructor
  · rintro ⟨k, member, here⟩
    obtain rfl := nameIn_eq_some.mp here
    exact member
  · intro member
    exact ⟨l ++ [n], member, nameIn_eq_some.mpr rfl⟩

theorem nodup_namesIn (t : FileTree) (l : Location) : (t.namesIn l).Nodup := by
  rw [namesIn, (List.mergeSort_perm _ _).nodup_iff]
  refine t.distinct.filterMap fun k k' m here here' => ?_
  -- a location in the directory is determined by its last name
  exact (nameIn_eq_some.mp here).trans (nameIn_eq_some.mp here').symm

theorem isName_of_mem_namesIn (member : n ∈ t.namesIn l) : IsName n :=
  t.named _ (mem_namesIn.mp member) n (by simp)

theorem named_filesFrom {depth : Nat} {f : Location} (member : f ∈ t.filesFrom depth l) :
    Named f ∧ f ≠ [] := by
  induction depth generalizing l f with
  | zero => simp [filesFrom] at member
  | succ depth ih =>
    obtain ⟨name, among, here⟩ := List.mem_flatMap.mp member
    have proper := isName_of_mem_namesIn among
    split at here
    · obtain rfl := List.mem_singleton.mp here
      exact ⟨by simpa [Named] using proper, by simp⟩
    · obtain ⟨below, deeper, rfl⟩ := List.mem_map.mp here
      refine ⟨fun m hm => ?_, by simp⟩
      rcases List.mem_cons.mp hm with rfl | later
      · exact proper
      · exact (ih deeper).1 m later
    · simp at here

theorem head_listed {depth : Nat} {f : Location} (member : f ∈ match t.item? (l ++ [n]) with
      | some (.file _) => [[n]]
      | some .directory => (filesFrom t depth (l ++ [n])).map (n :: ·)
      | _ => []) : f.head? = some n := by
  split at member
  · rw [List.mem_singleton.mp member]
    rfl
  · obtain ⟨below, -, rfl⟩ := List.mem_map.mp member
    rfl
  · simp at member

theorem nodup_filesFrom (depth : Nat) (l : Location) : (t.filesFrom depth l).Nodup := by
  induction depth generalizing l with
  | zero => simp [filesFrom]
  | succ depth ih =>
    rw [filesFrom, List.nodup_flatMap]
    constructor
    · intro name _
      split
      · simp
      · exact (ih _).map fun a b same => (List.cons.inj same).2
      · simp
    · -- what lies at different names begins with different names
      refine (t.nodup_namesIn l).imp fun {a b} differ => ?_
      intro f here there
      have := (head_listed here).symm.trans (head_listed there)
      exact differ (Option.some.inj this)

theorem named_filesBelow {path : Text} {f : Location} (member : f ∈ t.filesBelow path) :
    Named f ∧ f ≠ [] := by
  unfold filesBelow at member
  split at member
  · exact named_filesFrom member
  · simp at member

theorem nodup_filesBelow (t : FileTree) (path : Text) : (t.filesBelow path).Nodup := by
  unfold filesBelow
  split
  · exact nodup_filesFrom _ _
  · exact List.nodup_nil

end FileTree
end RequireInjection
