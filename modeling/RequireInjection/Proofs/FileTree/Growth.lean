import RequireInjection.Proofs.FileTree.Operations
import RequireInjection.Proofs.Job.Conduct

namespace RequireInjection.FileTree

variable {t t' t'' : FileTree} {l p : Location} {n path : Text} {x : Item} {c : List UInt8}
  {parts : List Text} {outputs : List Location}

/-- One tree comes from another by making directories and by changing files at the outputs. -/
structure Grows (outputs : List Location) (t t' : FileTree) : Prop where
  home : t'.home = t.home
  directories : ∀ l, t.item? l = some .directory → t'.item? l = some .directory
  files : ∀ l, l ∉ outputs → t'.content? l = t.content? l
  links : t.Unlinked → t'.Unlinked
  places : ∀ l ∈ outputs, t'.item? l = some .directory → t.item? l = some .directory

theorem Grows.refl (outputs : List Location) (t : FileTree) : Grows outputs t t :=
  ⟨rfl, fun _ h => h, fun _ _ => rfl, fun h => h, fun _ _ h => h⟩

theorem Grows.trans (first : Grows outputs t t') (second : Grows outputs t' t'') :
    Grows outputs t t'' where
  home := second.home.trans first.home
  directories l h := second.directories l (first.directories l h)
  files l h := (second.files l h).trans (first.files l h)
  links h := second.links (first.links h)
  places l h there := first.places l h (second.places l h there)

theorem Grows.origin (grows : Grows outputs t t') (path : Text) :
    t'.origin path = t.origin path := by
  rw [FileTree.origin, FileTree.origin, grows.home]

theorem Grows.placeOf (grows : Grows outputs t t') (path : Text) :
    t'.placeOf path = t.placeOf path := by
  rw [FileTree.placeOf, FileTree.placeOf, grows.origin]

theorem Grows.passes (grows : Grows outputs t t') (passes : t.Passes l parts) :
    t'.Passes l parts := passes.mono grows.directories

theorem Grows.reaches (grows : Grows outputs t t') (reaches : t.Reaches path) :
    t'.Reaches path := by
  rw [Reaches, grows.origin]
  exact grows.passes reaches

/-- Neither is there a file on the way nor is an output to be there. -/
def Open (t : FileTree) (outputs : List Location) : Location → List Text → Prop :=
  Along fun l => l ∉ outputs ∧ t.content? l = none

instance (t : FileTree) (outputs : List Location) (l : Location) (parts : List Text) :
    Decidable (t.Open outputs l parts) := inferInstanceAs (Decidable (Along _ _ _))

theorem Grows.clear (grows : Grows outputs t t') (unlinked : t.Unlinked)
    (way : t.Open outputs l parts) : t'.Clear l parts := by
  refine way.mono fun k ⟨apart, free⟩ x here => ?_
  cases x with
  | directory => rfl
  | file c =>
    rw [← grows.files k apart, content?_eq_some.mpr here] at free
    cases free
  | link target => exact absurd here (grows.links unlinked k target)

theorem content?_eq_none_of_item? (h : t.item? l = none) : t.content? l = none := by
  rw [content?, h]

theorem Sets.content? (sets : t.Sets l x t') {k : Location} (other : k ≠ l) :
    t'.content? k = t.content? k := by
  rw [FileTree.content?, FileTree.content?, sets.item, if_neg other]

theorem Sets.unlinked (sets : t.Sets l x t') (plain : ∀ target, x ≠ .link target)
    (unlinked : t.Unlinked) : t'.Unlinked := by
  intro k target here
  rw [sets.item] at here
  split at here
  · exact plain target (Option.some.inj here)
  · exact unlinked k target here

theorem Sets.grows_directory (sets : t.Sets l .directory t') (free : t.item? l = none)
    (apart : l ∉ outputs) : Grows outputs t t' ∧ ∀ k, t'.content? k = t.content? k := by
  have contents (k : Location) : t'.content? k = t.content? k := by
    by_cases same : k = l
    · rw [same, content?_eq_none_of_item? free, FileTree.content?, sets.item, if_pos rfl]
    · exact sets.content? same
  refine ⟨⟨sets.home, fun k there => ?_, fun k _ => contents k, sets.unlinked (by simp),
    fun k output there => ?_⟩, contents⟩
  · rw [sets.item]
    split
    · rfl
    · exact there
  · rwa [sets.item, if_neg fun same : k = l => apart (same ▸ output)] at there

theorem Sets.grows_file (sets : t.Sets l (.file c) t') (free : t.item? l ≠ some .directory)
    (output : l ∈ outputs) : Grows outputs t t' := by
  refine ⟨sets.home, fun k there => ?_, fun k apart => ?_, sets.unlinked (by simp),
    fun k _ there => ?_⟩
  · rwa [sets.item, if_neg fun same : k = l => free (same ▸ there)]
  · exact sets.content? fun same => apart (same ▸ output)
  · rw [sets.item] at there
    split at there
    · cases there
    · exact there

/-- The conduct of the job whose output is at a place: it leaves all other files as they are, and
the others do so with its output. -/
def storing (outputs : List Location) (p : Location) : Conduct FileTree where
  others t t' := Grows outputs t t' ∧ t'.content? p = t.content? p
  own t t' := Grows outputs t t' ∧ ∀ l, l ≠ p → t'.content? l = t.content? l
  still t := ⟨.refl outputs t, rfl⟩
  onward first second := ⟨first.1.trans second.1, second.2.trans first.2⟩

section Reading

def text? (t : FileTree) (path : Text) : Option Text :=
  (t.read path).toOption.bind fun c => (Utf8.decode c).toOption

theorem reaches_of_item? (ends : FilePath.EndsIn path n)
    (forward : FilePath.dotDot ∉ FilePath.names path) (here : t.item? (t.placeOf path) = some x) :
    t.Reaches path := by
  have named : Named (FilePath.names path) := fun m member =>
    FilePath.isName_of_mem_names member fun upward => forward (upward ▸ member)
  rw [placeOf, place_append_named named] at here
  intro above inside
  have first : above <+: (FilePath.names path).dropLast := (List.mem_inits _ _).mp inside
  obtain ⟨rest, whole⟩ := first
  have split : FilePath.names path = above ++ (rest ++ [n]) := by
    rw [← List.append_assoc, whole]
    exact ends.names_eq
  rw [place_append_named fun m member => named m (by simp [split, member])]
  rw [split, ← List.append_assoc] at here
  exact item?_above (by simp) here

section Same

variable (grows : Grows outputs t t') (unlinked : t.Unlinked)
  (same : t'.content? (t.placeOf path) = t.content? (t.placeOf path))
include grows unlinked same

theorem Grows.read_of_start (reads : t.read path = .ok c) : t'.read path = .ok c := by
  obtain ⟨n, ends, reaches, file⟩ := (read_eq_ok_iff unlinked).mp reads
  refine (read_eq_ok_iff (grows.links unlinked)).mpr ⟨n, ends, grows.reaches reaches, ?_⟩
  rw [grows.placeOf, ← content?_eq_some, same, content?_eq_some]
  exact file

theorem Grows.content?_of_read (reads : t'.read path = .ok c) :
    t.content? (t.placeOf path) = some c := by
  obtain ⟨n, -, -, file⟩ := (read_eq_ok_iff (grows.links unlinked)).mp reads
  rw [grows.placeOf, ← content?_eq_some, same] at file
  exact file

theorem Grows.read_iff (forward : FilePath.dotDot ∉ FilePath.names path) :
    t'.read path = .ok c ↔ t.read path = .ok c := by
  constructor
  · intro reads
    obtain ⟨n, ends, -, -⟩ := (read_eq_ok_iff (grows.links unlinked)).mp reads
    have here := content?_eq_some.mp (grows.content?_of_read unlinked same reads)
    exact (read_eq_ok_iff unlinked).mpr ⟨n, ends, reaches_of_item? ends forward here, here⟩
  · exact grows.read_of_start unlinked same

end Same

theorem toOption_eq_some {ε α : Type} {e : Except ε α} {a : α} :
    e.toOption = some a ↔ e = .ok a := by
  cases e <;> simp [Except.toOption]

theorem text?_eq_some {text : Text} : t.text? path = some text ↔
    ∃ c, t.read path = .ok c ∧ Utf8.decode c = .ok text := by
  rw [text?, Option.bind_eq_some_iff]
  simp only [toOption_eq_some]

def Foreign (outputs : List Location) (p l : Location) : Prop := l ∈ outputs ∧ l ≠ p

instance (outputs : List Location) (p l : Location) : Decidable (Foreign outputs p l) :=
  inferInstanceAs (Decidable (_ ∧ _))

theorem content?_of_others (since : (storing outputs p).others t t') (own : ¬ Foreign outputs p l) :
    t'.content? l = t.content? l := by
  by_cases output : l ∈ outputs
  · obtain rfl : l = p := by_contra fun other => own ⟨output, other⟩
    exact since.2
  · exact since.1.files l output

/-- What the module at a path can give to a run that starts with a tree: a text that the tree holds
at that place. It gives what is readable at the start, and nothing else unless the path goes
upward. -/
structure Gives (outputs : List Location) (p : Location) (t : FileTree) (path : Text)
    (source : Option Text) : Prop where
  start : ∀ text, t.text? path = some text → source = some text
  only : ¬ Foreign outputs p (t.placeOf path) → ∀ text, source = some text →
    ∃ c, t.content? (t.placeOf path) = some c ∧ Utf8.decode c = .ok text
  forward : ¬ Foreign outputs p (t.placeOf path) → FilePath.dotDot ∉ FilePath.names path →
    source = t.text? path

theorem gives_of_others (since : (storing outputs p).others t t') (unlinked : t.Unlinked)
    (free : Foreign outputs p (t.placeOf path) → t.content? (t.placeOf path) = none) :
    Gives outputs p t path (t'.text? path) where
  start text given := by
    obtain ⟨c, reads, decoded⟩ := text?_eq_some.mp given
    have own : ¬ Foreign outputs p (t.placeOf path) := by
      intro foreign
      obtain ⟨-, -, -, file⟩ := (read_eq_ok_iff unlinked).mp reads
      rw [← content?_eq_some, free foreign] at file
      cases file
    exact text?_eq_some.mpr
      ⟨c, since.1.read_of_start unlinked (content?_of_others since own) reads, decoded⟩
  only own text given := by
    obtain ⟨c, reads, decoded⟩ := text?_eq_some.mp given
    exact ⟨c, since.1.content?_of_read unlinked (content?_of_others since own) reads, decoded⟩
  forward own forward := by
    refine Option.ext fun text => ?_
    rw [text?_eq_some, text?_eq_some]
    refine exists_congr fun c => and_congr_left fun _ => ?_
    exact since.1.read_iff unlinked (content?_of_others since own) forward

end Reading
end RequireInjection.FileTree
