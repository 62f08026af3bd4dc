import RequireInjection.Proofs.FileTree.Places

namespace RequireInjection.FileTree

variable {t : FileTree} {n path : Text} {c : List UInt8}

def Reaches (t : FileTree) (path : Text) : Prop :=
  t.Passes (t.origin path) (FilePath.names path).dropLast

theorem along_parent {p : Location → Prop} {parent : Text}
    (upper : FilePath.parent? path = some parent) :
    Along p (t.origin parent) (FilePath.names parent) ↔
      Along p (t.origin path) (FilePath.names path).dropLast := by
  obtain ⟨names, start, -⟩ := FilePath.names_of_parent upper
  rw [names, origin, origin, start]

theorem follow_eq (t : FileTree) (path : Text) : t.follow path =
    t.walkParts (t.walkLinks 39) (t.origin path) (FilePath.segments path) := rfl

theorem find_eq_follow (proper : path ≠ []) : t.find path = t.follow path := by
  rw [find, if_neg (by simpa using proper)]

theorem follow_clear (clear : t.Clear (t.origin path) (FilePath.names path)) :
    t.Passes (t.origin path) (FilePath.names path) ∧
        t.follow path = .ok (.item (t.placeOf path) .directory) ∨
      ¬ t.Passes (t.origin path) (FilePath.names path) ∧ (t.follow path = .error .notFound ∨
        ∃ k n slash, t.follow path = .ok (.vacant k n slash)) := by
  rw [follow_eq, Passes, placeOf, FilePath.names, along_filter, place_filter]
  exact walkParts_clear (t.item?_origin path) ((along_filter _ _).mp clear)

theorem isDirectory_of_passes (proper : path ≠ [])
    (passes : t.Passes (t.origin path) (FilePath.names path)) : t.isDirectory path = true := by
  have clear : t.Clear (t.origin path) (FilePath.names path) :=
    passes.mono fun k here x there => Option.some.inj (there.symm.trans here)
  obtain ⟨-, found⟩ := (follow_clear clear).resolve_right fun h => h.1 passes
  rw [isDirectory, find_eq_follow proper, found]

theorem placeOf_endsIn (t : FileTree) (ends : FilePath.EndsIn path n) :
    t.placeOf path = place (t.origin path) (FilePath.names path).dropLast ++ [n] := by
  conv_lhs => rw [placeOf, ends.names_eq]
  rw [place_concat, descend_of_isName ends.1]

theorem find_endsIn (ends : FilePath.EndsIn path n) (reaches : t.Reaches path) : t.find path =
    match t.item? (t.placeOf path) with
    | none => .ok (.vacant (t.placeOf path).dropLast n false)
    | some .directory => .ok (.item (t.placeOf path) .directory)
    | some (.file c) => .ok (.item (t.placeOf path) (.file c))
    | some (.link target) => t.walkLinks 39
        (if FilePath.isAbsolute target then [] else (t.placeOf path).dropLast)
        (FilePath.segments target) := by
  obtain ⟨front, parts, above⟩ := ends.dropLast_names
  have at_place := t.placeOf_endsIn ends
  have named := ends.1
  rw [find_eq_follow ends.ne_nil, follow_eq, parts]
  rw [Reaches, Passes, above, along_filter] at reaches
  rw [above, place_filter] at at_place
  rw [walkParts_append reaches, walkParts_name ⟨named.1, named.2.1, named.2.2.1⟩, at_place,
    List.dropLast_concat]
  cases t.item? (place (t.origin path) front ++ [n]) with
  | none => rfl
  | some x => cases x <;> simp [walkParts]

theorem read_eq_ok_iff (unlinked : t.Unlinked) : t.read path = .ok c ↔
    ∃ n, FilePath.EndsIn path n ∧ t.Reaches path ∧ t.item? (t.placeOf path) = some (.file c) := by
  constructor
  · intro reads
    unfold read at reads
    split at reads
    · rename_i k b found
      cases reads
      unfold find at found
      split at found
      · cases found
      · obtain ⟨front, n, parts, named, passes, at_place, file⟩ :=
          walkParts_file unlinked (t.item?_origin path) found
        have ends : FilePath.EndsIn path n := ⟨named, front, parts⟩
        obtain ⟨front', parts', above⟩ := ends.dropLast_names
        obtain rfl : front' = front := List.append_cancel_right (parts'.symm.trans parts)
        refine ⟨n, ends, ?_, ?_⟩
        · rw [Reaches, Passes, above, along_filter]
          exact passes
        · rw [t.placeOf_endsIn ends, above, place_filter, ← at_place]
          exact file
    all_goals cases reads
  · rintro ⟨n, ends, reaches, file⟩
    rw [read, find_endsIn ends reaches, file]

theorem write_eq_ok (ends : FilePath.EndsIn path n) (reaches : t.Reaches path)
    (free : ∀ x, t.item? (t.placeOf path) = some x → ∃ b, x = .file b) (c : List UInt8) :
    ∃ t', t.write path c = .ok t' ∧ t.Sets (t.placeOf path) (.file c) t' := by
  have at_place := t.placeOf_endsIn ends
  have admitted : t.Admits (t.placeOf path).dropLast n (.file c) := by
    rw [at_place, List.dropLast_concat]
    refine ⟨reaches _ (by simp), ends.1, fun there => ?_⟩
    obtain ⟨b, other⟩ := free .directory (by rw [at_place, item?, if_neg (by simp), there])
    cases other
  have sets := sets_put admitted
  have whole : (t.placeOf path).dropLast ++ [n] = t.placeOf path := by
    rw [at_place, List.dropLast_concat]
  have last : (t.placeOf path).getLastD [] = n := by rw [at_place]; simp
  rw [whole] at sets
  refine ⟨_, ?_, sets⟩
  rw [write, find_endsIn ends reaches]
  cases here : t.item? (t.placeOf path) with
  | none => rfl
  | some x =>
    obtain ⟨b, rfl⟩ := free x here
    simp only [last]

theorem passes_of_no_fileName (last : FilePath.fileName? path = none) (reaches : t.Reaches path) :
    t.Passes (t.origin path) (FilePath.names path) := by
  rcases List.eq_nil_or_concat (FilePath.names path) with nothing | ⟨front, n, whole⟩
  · rw [nothing]
    exact along_nil.mpr (t.item?_origin path)
  · rw [List.concat_eq_append] at whole
    obtain rfl : n = FilePath.dotDot := by
      rw [FilePath.fileName?, whole, List.getLast?_concat] at last
      simpa using last
    rw [Reaches, whole, List.dropLast_concat] at reaches
    rw [whole, Passes, along_concat, place_concat, descend_dotDot]
    exact ⟨reaches, item?_dropLast (reaches _ (by simp))⟩

/-- How making a directory can end where nothing but directories is in the way. -/
inductive Making (t : FileTree) (path : Text) : Except FileFault FileTree → Prop where
  | there (passes : t.Passes (t.origin path) (FilePath.names path)) :
      Making t path (.error .occupied)
  | missing (unreached : ¬ t.Reaches path) : Making t path (.error .notFound)
  | made {t' : FileTree} (reaches : t.Reaches path) (free : t.item? (t.placeOf path) = none)
      (sets : t.Sets (t.placeOf path) .directory t') : Making t path (.ok t')

theorem makeDirectory_of_no_fileName (last : FilePath.fileName? path = none) :
    t.makeDirectory path = match t.find path with
      | .ok (.item _ _) => .error .occupied
      | .ok (.vacant _ _ _) => .error .notFound
      | .error f => .error f := by
  rw [makeDirectory, last]
  cases FilePath.parent? path <;> rfl

theorem making_of_no_fileName (last : FilePath.fileName? path = none) (proper : path ≠ [])
    (clear : t.Clear (t.origin path) (FilePath.names path)) :
    t.Making path (t.makeDirectory path) := by
  rw [makeDirectory_of_no_fileName last, find_eq_follow proper]
  rcases follow_clear clear with ⟨passes, found⟩ | ⟨blocked, missing⟩
  · rw [found]
    exact .there passes
  · have unreached := mt (passes_of_no_fileName last) blocked
    rcases missing with missing | ⟨k, n, slash, missing⟩ <;> rw [missing] <;>
      exact .missing unreached

theorem making_of_fileName {name : Text} (last : FilePath.fileName? path = some name)
    (clear : t.Clear (t.origin path) (FilePath.names path)) :
    t.Making path (t.makeDirectory path) := by
  obtain ⟨above, whole⟩ := List.getLast?_eq_some_iff.mp (FilePath.fileName_eq_some.mp last).1
  cases upper : FilePath.parent? path with
  | none => simp [FilePath.names_of_parent_none upper] at whole
  | some parent =>
    obtain ⟨names, start, -⟩ := FilePath.names_of_parent upper
    have named := FilePath.isName_of_fileName last
    have at_place : t.placeOf path = t.placeOf parent ++ [name] := by
      rw [placeOf, placeOf, origin, origin, names, start, whole, List.dropLast_concat, place_concat,
        descend_of_isName named]
    rw [makeDirectory, upper, last]
    rcases follow_clear ((along_parent upper).mpr clear.dropLast) with
      ⟨passes, found⟩ | ⟨blocked, missing⟩
    · have reaches : t.Reaches path := (along_parent upper).mp passes
      simp only [found, ← at_place]
      cases here : t.item? (t.placeOf path) with
      | some x =>
        obtain rfl := clear.end x here
        exact .there (along_of_dropLast reaches here)
      | none =>
        refine .made reaches here ?_
        rw [at_place] at here ⊢
        refine sets_put ⟨passes.end, named, fun there => ?_⟩
        rw [item?, if_neg (by simp), there] at here
    · have unreached : ¬ t.Reaches path := fun reaches => blocked ((along_parent upper).mpr reaches)
      rcases missing with missing | ⟨k, n, slash, missing⟩ <;> simp only [missing] <;>
        exact .missing unreached

theorem making (proper : path ≠ []) (clear : t.Clear (t.origin path) (FilePath.names path)) :
    t.Making path (t.makeDirectory path) := by
  cases last : FilePath.fileName? path with
  | none => exact making_of_no_fileName last proper clear
  | some name => exact making_of_fileName last clear

end RequireInjection.FileTree
