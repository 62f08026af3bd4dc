import RequireInjection.Entries
import RequireInjection.FilePath

/-!
File trees: a directory with all that lies below it. Items are kept by their location, the names on
the way from the root; every item but the root lies in a directory. A path leads to an item by way
of symbolic links, from the root or from the working directory on.
-/
namespace RequireInjection

abbrev Location := List Text

inductive Item where
  | directory
  | file (content : List UInt8)
  | link (target : Text)
  deriving DecidableEq, Repr

def IsName (n : Text) : Prop := n ≠ [] ∧ n ≠ FilePath.dot ∧ n ≠ FilePath.dotDot ∧ '/' ∉ n

instance (n : Text) : Decidable (IsName n) := inferInstanceAs (Decidable (_ ∧ _ ∧ _ ∧ _))

structure FileTree where
  items : Entries Location Item
  home : Location
  distinct : items.keys.Nodup
  named : ∀ l ∈ items.keys, ∀ n ∈ l, IsName n
  closed : ∀ l n, l ++ [n] ∈ items.keys → l = [] ∨ items.get? l = some .directory
  homed : home = [] ∨ items.get? home = some .directory

inductive FileFault where
  | notFound | notDirectory | isDirectory | occupied | tooManyLinks | notText
  | other (message : Text)
  deriving DecidableEq, Repr

def FileFault.message : FileFault → Text
  | notFound => "No such file or directory (os error 2)"
  | occupied => "File exists (os error 17)"
  | notDirectory => "Not a directory (os error 20)"
  | isDirectory => "Is a directory (os error 21)"
  | tooManyLinks => "Too many levels of symbolic links (os error 40)"
  | notText => "stream did not contain valid UTF-8"
  | other message => message

namespace FileTree

def empty : FileTree where
  items := [(["work".toList], .directory)]
  home := ["work".toList]
  distinct := by decide
  named := by decide
  closed := by
    intro l n member
    have whole : l ++ [n] = ["work".toList] := by simpa [Entries.keys] using member
    cases l with
    | nil => exact .inl rfl
    | cons m ms => simp at whole
  homed := .inr (by decide)

def item? (t : FileTree) (l : Location) : Option Item :=
  if l = [] then some .directory else t.items.get? l

/-- Whether an item may be put at a name in a directory: it must not take the place of a directory
unless it is one. -/
def Admits (t : FileTree) (l : Location) (n : Text) (x : Item) : Prop :=
  t.item? l = some .directory ∧ IsName n ∧
    (t.items.get? (l ++ [n]) = some .directory → x = .directory)

instance (t : FileTree) (l : Location) (n : Text) (x : Item) : Decidable (t.Admits l n x) :=
  inferInstanceAs (Decidable (_ ∧ _ ∧ _))

/-- The tree with an item put at a name in a directory; the same tree if it is not admitted. -/
def put (t : FileTree) (l : Location) (n : Text) (x : Item) : FileTree :=
  if h : t.Admits l n x then
    { items := t.items.put (l ++ [n]) x
      home := t.home
      distinct := Entries.nodup_keys_put t.distinct _ _
      named := by
        intro k hk m hm
        rw [Entries.keys_put] at hk
        by_cases old : k ∈ t.items.keys
        · exact t.named k old m hm
        · have : k = l ++ [n] := by
            split at hk
            · exact absurd hk old
            · simpa [old] using hk
          subst this
          rcases List.mem_append.1 hm with hm | hm
          · have := h.1
            unfold item? at this
            split at this
            · simp_all
            · have hl : l ∈ t.items.keys := by
                unfold Entries.get? at this
                obtain ⟨e, he, _⟩ := Option.map_eq_some_iff.1 this
                have := List.find?_some he
                exact List.mem_map.2 ⟨e, List.mem_of_find?_eq_some he, by simpa using this⟩
              exact t.named l hl m hm
          · simp only [List.mem_singleton] at hm
            exact hm ▸ h.2.1
      closed := by
        intro k m hk
        rw [Entries.keys_put] at hk
        have parent : k = [] ∨ t.items.get? k = some .directory := by
          by_cases old : k ++ [m] ∈ t.items.keys
          · exact t.closed k m old
          · have same : k ++ [m] = l ++ [n] := by
              split at hk
              · exact absurd hk old
              · simpa [old] using hk
            obtain ⟨rfl, _⟩ := List.append_inj' same rfl
            have := h.1
            unfold item? at this
            split at this
            · exact .inl ‹_›
            · exact .inr this
        rcases parent with rfl | parent
        · exact .inl rfl
        · right
          rw [Entries.get?_put]
          split
          · rename_i same
            rw [h.2.2 (same ▸ parent)]
          · exact parent
      homed := by
        rcases t.homed with outermost | directory
        · exact .inl outermost
        · right
          rw [Entries.get?_put]
          split
          · rename_i same
            rw [h.2.2 (same ▸ directory)]
          · exact directory }
  else t

inductive Target where
  | item (l : Location) (x : Item)
  /-- The flag says that a slash follows the name. -/
  | vacant (l : Location) (name : Text) (slash : Bool)
  deriving DecidableEq, Repr

/-- Follows the parts of a path from a directory on; above the root lies the root. Parts behind a
link are left to the function given. -/
def walkParts (t : FileTree) (behindLink : Location → List Text → Except FileFault Target) :
    Location → List Text → Except FileFault Target
  | l, [] => .ok (.item l .directory)
  | l, part :: rest =>
    if part.isEmpty || part = FilePath.dot then walkParts t behindLink l rest
    else if part = FilePath.dotDot then walkParts t behindLink l.dropLast rest
    else
      match t.item? (l ++ [part]) with
      | none =>
        if rest.all (·.isEmpty) then .ok (.vacant l part (!rest.isEmpty)) else .error .notFound
      | some .directory => walkParts t behindLink (l ++ [part]) rest
      | some (.file c) =>
        if rest.isEmpty then .ok (.item (l ++ [part]) (.file c)) else .error .notDirectory
      | some (.link target) =>
        behindLink (if FilePath.isAbsolute target then [] else l) (FilePath.segments target ++ rest)

def walkLinks (t : FileTree) : Nat → Location → List Text → Except FileFault Target
  | 0 => t.walkParts fun _ _ => .error .tooManyLinks
  | n + 1 => t.walkParts (t.walkLinks n)

def linkLimit : Nat := 40

def origin (t : FileTree) (path : Text) : Location := if FilePath.isAbsolute path then [] else t.home

def follow (t : FileTree) (path : Text) : Except FileFault Target :=
  t.walkLinks linkLimit (t.origin path) (FilePath.segments path)

def find (t : FileTree) (path : Text) : Except FileFault Target :=
  if path.isEmpty then .error .notFound else t.follow path

def has (t : FileTree) (path : Text) : Bool :=
  match t.find path with
  | .ok (.item _ _) => true
  | _ => false

def isDirectory (t : FileTree) (path : Text) : Bool :=
  match t.find path with
  | .ok (.item _ .directory) => true
  | _ => false

def read (t : FileTree) (path : Text) : Except FileFault (List UInt8) :=
  match t.find path with
  | .ok (.item _ (.file c)) => .ok c
  | .ok (.item _ _) => .error .isDirectory
  | .ok (.vacant _ _ _) => .error .notFound
  | .error f => .error f

def write (t : FileTree) (path : Text) (content : List UInt8) : Except FileFault FileTree :=
  match t.find path with
  | .ok (.item l (.file _)) => .ok (t.put l.dropLast (l.getLastD []) (.file content))
  | .ok (.item _ _) => .error .isDirectory
  | .ok (.vacant l name slash) =>
    if slash then .error .isDirectory else .ok (t.put l name (.file content))
  | .error f => .error f

/-- Makes a single directory. Even a link that leads nowhere is in its way. -/
def makeDirectory (t : FileTree) (path : Text) : Except FileFault FileTree :=
  match FilePath.parent? path, FilePath.fileName? path with
  | some parent, some name =>
    match t.follow parent with
    | .ok (.item l .directory) =>
      if (t.item? (l ++ [name])).isSome then .error .occupied else .ok (t.put l name .directory)
    | .ok (.item _ _) => .error .notDirectory
    | .ok (.vacant _ _ _) => .error .notFound
    | .error f => .error f
  | _, _ =>
    match t.find path with
    | .ok (.item _ _) => .error .occupied
    | .ok (.vacant _ _ _) => .error .notFound
    | .error f => .error f

def nameLe : Text → Text → Bool
  | [], _ => true
  | _ :: _, [] => false
  | a :: as, b :: bs => if a = b then nameLe as bs else a.val < b.val

def namesIn (t : FileTree) (l : Location) : List Text :=
  (t.items.keys.filterMap fun k =>
    match k.getLast? with
    | some n => if k.dropLast = l then some n else none
    | none => none).mergeSort nameLe

def depth (t : FileTree) : Nat := t.items.keys.foldl (fun d k => max d k.length) 0

/-- The files below a directory, by their names from there on: names in order, and what lies in a
directory in the place of its name. Links are not followed. -/
def filesFrom (t : FileTree) : Nat → Location → List Location
  | 0, _ => []
  | n + 1, l =>
    (t.namesIn l).flatMap fun name =>
      match t.item? (l ++ [name]) with
      | some (.file _) => [[name]]
      | some .directory => (filesFrom t n (l ++ [name])).map (name :: ·)
      | _ => []

def filesBelow (t : FileTree) (path : Text) : List Location :=
  match t.find path with
  | .ok (.item l .directory) => t.filesFrom (t.depth + 1) l
  | _ => []

def add (t : FileTree) (l : Location) (x : Item) : FileTree :=
  let rec go (t : FileTree) (above : Location) : Location → FileTree
    | [] => t
    | [name] => t.put above name x
    | name :: rest =>
      let t := if (t.item? (above ++ [name])).isSome then t else t.put above name .directory
      go t (above ++ [name]) rest
  go t [] l

def ofList (items : List (Location × Item)) : FileTree :=
  items.foldl (fun t e => t.add (t.home ++ e.1) e.2) empty

/-- Files below the working directory that another tree lacks or has with other content, by their
names from there on. -/
def changedFrom (before t : FileTree) : List (Location × List UInt8) :=
  t.items.filterMap fun (l, x) =>
    match x with
    | .file c =>
      if before.item? l = some x then none
      else if t.home.isPrefixOf l then some (l.drop t.home.length, c) else none
    | _ => none

end FileTree
end RequireInjection
