import Mathlib.Data.List.Infix
import RequireInjection.Proofs.FileTree.Files

/-!
Places of paths. Where no symbolic links are, a path leads to the location that its parts give, as
long as there are directories on the way to it. So whether a path can be read, written or made a
directory depends only on what is at the locations along it.
-/
namespace RequireInjection

theorem Entries.mem_of_get? {κ α : Type} [DecidableEq κ] {es : Entries κ α} {k : κ} {v : α}
    (h : es.get? k = some v) : (k, v) ∈ es := by
  obtain ⟨e, found, rfl⟩ := Option.map_eq_some_iff.mp h
  have same : e.1 = k := by simpa using List.find?_some found
  exact same ▸ List.mem_of_find?_eq_some found

def Item.isLink : Item → Bool
  | .link _ => true
  | _ => false

namespace FileTree

variable {t : FileTree} {l k : Location} {n part path : Text} {parts rest front : List Text}
  {x : Item} {c : List UInt8}

def content? (t : FileTree) (l : Location) : Option (List UInt8) :=
  match t.item? l with
  | some (.file c) => some c
  | _ => none

theorem content?_eq_some : t.content? l = some c ↔ t.item? l = some (.file c) := by
  unfold content?
  split
  · rename_i here
    simp [here]
  · rename_i other
    constructor
    · intro h
      cases h
    · exact fun h => absurd h (other c)

def Unlinked (t : FileTree) : Prop := ∀ l target, t.item? l ≠ some (.link target)

theorem unlinked_of_isLink (plain : ∀ e ∈ t.items, e.2.isLink = false) : t.Unlinked := by
  intro l target here
  unfold item? at here
  split at here
  · cases here
  · cases plain _ (Entries.mem_of_get? here)

theorem item?_parent (h : t.item? (l ++ [n]) = some x) : t.item? l = some .directory := by
  have key : l ++ [n] ∈ t.items.keys := by
    rw [item?, if_neg (by simp)] at h
    exact List.mem_map.mpr ⟨_, Entries.mem_of_get? h, rfl⟩
  unfold item?
  split
  · rfl
  · rename_i proper
    exact (t.closed l n key).resolve_left proper

theorem item?_above {m : Location} (proper : m ≠ []) (here : t.item? (l ++ m) = some x) :
    t.item? l = some .directory := by
  induction m using List.reverseRecOn generalizing x with
  | nil => exact absurd rfl proper
  | append_singleton m n ih =>
    rw [← List.append_assoc] at here
    have parent := item?_parent here
    by_cases direct : m = []
    · simpa [direct] using parent
    · exact ih direct parent

theorem item?_dropLast (h : t.item? l = some .directory) :
    t.item? l.dropLast = some .directory := by
  rcases List.eq_nil_or_concat l with rfl | ⟨above, n, rfl⟩
  · exact h
  · rw [List.concat_eq_append, List.dropLast_concat]
    rw [List.concat_eq_append] at h
    exact item?_parent h

theorem isName_of_item? (h : t.item? (l ++ [n]) = some x) : IsName n := by
  rw [item?, if_neg (by simp)] at h
  exact t.named _ (List.mem_map.mpr ⟨_, Entries.mem_of_get? h, rfl⟩) n (by simp)

theorem item?_origin (t : FileTree) (path : Text) : t.item? (t.origin path) = some .directory := by
  unfold origin
  split
  · rfl
  · unfold item?
    split
    · rfl
    · exact t.homed.resolve_left ‹_›

structure Sets (t : FileTree) (l : Location) (x : Item) (t' : FileTree) : Prop where
  home : t'.home = t.home
  item : ∀ k, t'.item? k = if k = l then some x else t.item? k

theorem sets_put (admitted : t.Admits l n x) : t.Sets (l ++ [n]) x (t.put l n x) := by
  unfold put
  rw [dif_pos admitted]
  refine ⟨rfl, fun k => ?_⟩
  unfold item?
  by_cases root : k = []
  · simp [root]
  · simp only [root, if_false, Entries.get?_put]
    by_cases same : k = l ++ [n]
    · simp [same]
    · rw [if_neg same, if_neg (Ne.symm same)]

section Places

def descend (l : Location) (part : Text) : Location :=
  if part.isEmpty || part = FilePath.dot then l
  else if part = FilePath.dotDot then l.dropLast
  else l ++ [part]

def place (l : Location) (parts : List Text) : Location := parts.foldl descend l

/-- The location that a path stands for. -/
def placeOf (t : FileTree) (path : Text) : Location := place (t.origin path) (FilePath.names path)

theorem descend_name (named : part ≠ [] ∧ part ≠ FilePath.dot ∧ part ≠ FilePath.dotDot)
    (l : Location) : descend l part = l ++ [part] := by
  simp [descend, named]

theorem descend_of_isName (named : IsName n) (l : Location) : descend l n = l ++ [n] :=
  descend_name ⟨named.1, named.2.1, named.2.2.1⟩ l

theorem descend_dotDot (l : Location) : descend l FilePath.dotDot = l.dropLast := by
  simp [descend, FilePath.dot, FilePath.dotDot]

theorem descend_of_idle (idle : (!part.isEmpty && part != FilePath.dot) = false) (l : Location) :
    descend l part = l := by
  have : part = [] ∨ part = FilePath.dot := by
    rcases Bool.and_eq_false_iff.mp idle with empty | dotted
    · exact Or.inl (by simpa using empty)
    · exact Or.inr (by simpa using dotted)
  unfold descend
  rw [if_pos (by simpa using this)]

theorem place_concat (l : Location) (front : List Text) (part : Text) :
    place l (front ++ [part]) = descend (place l front) part :=
  List.foldl_concat descend l part front

theorem place_append_named {m : Location} (named : Named m) (l : Location) :
    place l m = l ++ m := by
  induction m generalizing l with
  | nil => simp [place]
  | cons n m ih =>
    have later := ih (fun k member => named k (by simp [member])) (l ++ [n])
    simp only [place, List.foldl_cons] at later ⊢
    rw [descend_of_isName (named n (by simp)), later]
    simp

theorem place_append (l : Location) (front back : List Text) :
    place l (front ++ back) = place (place l front) back := List.foldl_append

/-- A property of the locations on the way along the parts of a path. -/
def Along (p : Location → Prop) (l : Location) (parts : List Text) : Prop :=
  ∀ above ∈ parts.inits, p (place l above)

instance (p : Location → Prop) [DecidablePred p] (l : Location) (parts : List Text) :
    Decidable (Along p l parts) := inferInstanceAs (Decidable (∀ above ∈ parts.inits, _))

def Passes (t : FileTree) : Location → List Text → Prop :=
  Along fun k => t.item? k = some .directory

def Clear (t : FileTree) : Location → List Text → Prop :=
  Along fun k => ∀ x, t.item? k = some x → x = .directory

variable {p q : Location → Prop}

theorem along_nil : Along p l [] ↔ p l := by simp [Along, place]

theorem along_cons : Along p l (part :: rest) ↔ p l ∧ Along p (descend l part) rest := by
  simp [Along, place, -List.mem_inits]

theorem Along.start (along : Along p l parts) : p l := along [] (by simp)

theorem Along.end (along : Along p l parts) : p (place l parts) := along parts (by simp)

theorem along_concat :
    Along p l (front ++ [part]) ↔ Along p l front ∧ p (place l (front ++ [part])) := by
  simp only [Along, List.mem_inits, List.prefix_concat_iff]
  constructor
  · exact fun along => ⟨fun above h => along above (Or.inr h), along _ (Or.inl rfl)⟩
  · rintro ⟨along, final⟩ above (rfl | h)
    · exact final
    · exact along above h

theorem along_of_dropLast (above : Along p l parts.dropLast) (final : p (place l parts)) :
    Along p l parts := by
  rcases List.eq_nil_or_concat parts with rfl | ⟨front, part, rfl⟩
  · exact above
  · rw [List.concat_eq_append] at above final ⊢
    rw [List.dropLast_concat] at above
    exact along_concat.mpr ⟨above, final⟩

theorem Along.dropLast (along : Along p l parts) : Along p l parts.dropLast := fun above h =>
  along above (List.mem_inits _ _ |>.mpr
    (((List.mem_inits _ _).mp h).trans (List.dropLast_prefix parts)))

theorem Along.mono (along : Along p l parts) (weaker : ∀ k, p k → q k) : Along q l parts :=
  fun above h => weaker _ (along above h)

theorem along_filter (parts : List Text) (l : Location) :
    Along p l (parts.filter fun s => !s.isEmpty && s != FilePath.dot) ↔ Along p l parts := by
  induction parts generalizing l with
  | nil => simp
  | cons part rest ih =>
    by_cases idle : (!part.isEmpty && part != FilePath.dot) = false
    · rw [List.filter_cons_of_neg (by simp [idle]), ih, along_cons, descend_of_idle idle]
      exact ⟨fun along => ⟨along.start, along⟩, And.right⟩
    · rw [List.filter_cons_of_pos (by simpa using idle), along_cons, along_cons, ih]

theorem place_filter (parts : List Text) (l : Location) :
    place l (parts.filter fun s => !s.isEmpty && s != FilePath.dot) = place l parts := by
  induction parts generalizing l with
  | nil => rfl
  | cons part rest ih =>
    by_cases idle : (!part.isEmpty && part != FilePath.dot) = false
    · rw [List.filter_cons_of_neg (by simp [idle]), ih]
      simp only [place, List.foldl_cons, descend_of_idle idle]
    · rw [List.filter_cons_of_pos (by simpa using idle)]
      exact ih _

end Places

section Walks

variable {behind : Location → List Text → Except FileFault Target} {target : Target}

theorem walkParts_idle (idle : (!part.isEmpty && part != FilePath.dot) = false) :
    t.walkParts behind l (part :: rest) = t.walkParts behind l rest := by
  have : (part.isEmpty || decide (part = FilePath.dot)) = true := by
    rcases Bool.and_eq_false_iff.mp idle with empty | dotted
    · simpa using Or.inl (by simpa using empty)
    · simpa using Or.inr (by simpa using dotted)
  rw [walkParts, if_pos this]

theorem walkParts_dotDot :
    t.walkParts behind l (FilePath.dotDot :: rest) = t.walkParts behind l.dropLast rest := by
  rw [walkParts, if_neg (by decide), if_pos rfl]

theorem walkParts_name (named : part ≠ [] ∧ part ≠ FilePath.dot ∧ part ≠ FilePath.dotDot) :
    t.walkParts behind l (part :: rest) =
      match t.item? (l ++ [part]) with
      | none =>
        if rest.all (·.isEmpty) then .ok (.vacant l part (!rest.isEmpty)) else .error .notFound
      | some .directory => t.walkParts behind (l ++ [part]) rest
      | some (.file c) =>
        if rest.isEmpty then .ok (.item (l ++ [part]) (.file c)) else .error .notDirectory
      | some (.link target) =>
        behind (if FilePath.isAbsolute target then [] else l)
          (FilePath.segments target ++ rest) := by
  rw [walkParts]
  exact (if_neg (by simp [named.1, named.2.1])).trans (if_neg named.2.2)

theorem part_cases (part : Text) : (!part.isEmpty && part != FilePath.dot) = false ∨
    part = FilePath.dotDot ∨ part ≠ [] ∧ part ≠ FilePath.dot ∧ part ≠ FilePath.dotDot := by
  by_cases empty : part = []
  · simp [empty]
  · by_cases dotted : part = FilePath.dot
    · simp [dotted]
    · by_cases upward : part = FilePath.dotDot
      · exact Or.inr (Or.inl upward)
      · exact Or.inr (Or.inr ⟨empty, dotted, upward⟩)

theorem walkParts_append (passes : t.Passes l parts) (rest : List Text) :
    t.walkParts behind l (parts ++ rest) = t.walkParts behind (place l parts) rest := by
  induction parts generalizing l with
  | nil => rfl
  | cons part more ih =>
    have later := ih (along_cons.mp passes).2
    rw [List.cons_append]
    simp only [place, List.foldl_cons] at later ⊢
    rcases part_cases part with idle | rfl | named
    · rw [walkParts_idle idle, ← later, descend_of_idle idle]
    · rw [walkParts_dotDot, ← later, descend_dotDot]
    · have directory := (along_cons.mp passes).2.start
      rw [descend_name named] at directory later ⊢
      rw [walkParts_name named, directory, ← later]

theorem walkParts_clear (here : t.item? l = some .directory) (clear : t.Clear l parts) :
    t.Passes l parts ∧ t.walkParts behind l parts = .ok (.item (place l parts) .directory) ∨
      ¬ t.Passes l parts ∧ (t.walkParts behind l parts = .error .notFound ∨
        ∃ k n slash, t.walkParts behind l parts = .ok (.vacant k n slash)) := by
  by_cases passes : t.Passes l parts
  · have whole : t.walkParts behind l (parts ++ []) = .ok (.item (place l parts) .directory) :=
      walkParts_append passes []
    rw [List.append_nil] at whole
    exact Or.inl ⟨passes, whole⟩
  · refine Or.inr ⟨passes, ?_⟩
    induction parts generalizing l with
    | nil => exact absurd (along_nil.mpr here) passes
    | cons part rest ih =>
      have later := (along_cons.mp clear).2
      have missing : ¬ t.Passes (descend l part) rest := fun h => passes (along_cons.mpr ⟨here, h⟩)
      -- What is missing is missing behind this part, since the directory here is there.
      rcases part_cases part with idle | rfl | named
      · rw [walkParts_idle idle]
        rw [descend_of_idle idle] at later missing
        exact ih here later missing
      · rw [walkParts_dotDot]
        rw [descend_dotDot] at later missing
        exact ih (item?_dropLast here) later missing
      · rw [walkParts_name named]
        rw [descend_name named] at later missing
        cases below : t.item? (l ++ [part]) with
        | none =>
          simp only
          split
          · exact Or.inr ⟨_, _, _, rfl⟩
          · exact Or.inl rfl
        | some x =>
          obtain rfl := later.start x below
          exact ih below later missing

theorem walkParts_file (unlinked : t.Unlinked) (here : t.item? l = some .directory)
    (found : t.walkParts behind l parts = .ok (.item k (.file c))) :
    ∃ front n, parts = front ++ [n] ∧ IsName n ∧ t.Passes l front ∧ k = place l front ++ [n] ∧
      t.item? k = some (.file c) := by
  induction parts generalizing l with
  | nil => cases found
  | cons part rest ih =>
    -- the walk goes on from where the first part leads
    have onward (there : t.item? (descend l part) = some .directory)
        (found : t.walkParts behind (descend l part) rest = .ok (.item k (.file c))) :
        ∃ front n, part :: rest = front ++ [n] ∧ IsName n ∧ t.Passes l front ∧
          k = place l front ++ [n] ∧ t.item? k = some (.file c) := by
      obtain ⟨front, n, rfl, named, passes, at_place, file⟩ := ih there found
      exact ⟨part :: front, n, rfl, named, along_cons.mpr ⟨here, passes⟩, at_place, file⟩
    rcases part_cases part with idle | rfl | named
    · rw [walkParts_idle idle] at found
      rw [descend_of_idle idle] at onward
      exact onward here found
    · rw [walkParts_dotDot] at found
      rw [descend_dotDot] at onward
      exact onward (item?_dropLast here) found
    · rw [walkParts_name named] at found
      rw [descend_name named] at onward
      cases below : t.item? (l ++ [part]) with
      | none =>
        simp only [below] at found
        split at found <;> cases found
      | some x =>
        cases x with
        | directory =>
          simp only [below] at found
          exact onward below found
        | file b =>
          simp only [below] at found
          split at found
          · rename_i final
            obtain ⟨rfl, rfl⟩ : l ++ [part] = k ∧ b = c := by simpa using found
            obtain rfl : rest = [] := by simpa using final
            exact ⟨[], part, rfl, isName_of_item? below, along_nil.mpr here, rfl, below⟩
          · cases found
        | link target => exact absurd below (unlinked _ _)

end Walks

end FileTree
end RequireInjection
