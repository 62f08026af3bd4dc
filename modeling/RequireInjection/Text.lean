/-!
Texts are lists of characters measured in bytes: every offset in this library
counts the bytes of the UTF-8 form. A text can be cut at an offset exactly when
the offset lies between two of its characters.
-/
namespace RequireInjection

abbrev Text := List Char

instance : Coe String Text := ⟨String.toList⟩

namespace Text

def size : Text → Nat
  | [] => 0
  | c :: cs => c.utf8Size + size cs

@[simp] theorem size_nil : size [] = 0 := rfl

@[simp] theorem size_cons (c : Char) (t : Text) : size (c :: t) = c.utf8Size + size t := rfl

@[simp] theorem size_append (s t : Text) : size (s ++ t) = size s + size t := by
  induction s with
  | nil => simp
  | cons c cs ih => simp [ih, Nat.add_assoc]

theorem size_eq_zero {t : Text} : size t = 0 ↔ t = [] := by
  cases t with
  | nil => simp
  | cons c cs => have := c.utf8Size_pos; simp; omega

/-- The two parts of a text before and after a byte offset, if a character starts or the text
ends there. -/
def splitAt? : Text → Nat → Option (Text × Text)
  | t, 0 => some ([], t)
  | [], _ + 1 => none
  | c :: cs, n + 1 =>
    if c.utf8Size ≤ n + 1 then
      (splitAt? cs (n + 1 - c.utf8Size)).map fun (pre, post) => (c :: pre, post)
    else none

theorem splitAt?_zero (t : Text) : splitAt? t 0 = some ([], t) := by
  cases t <;> rfl

theorem splitAt?_size (pre post : Text) :
    splitAt? (pre ++ post) (size pre) = some (pre, post) := by
  induction pre with
  | nil => exact splitAt?_zero post
  | cons c cs ih =>
    have hc := c.utf8Size_pos
    obtain ⟨n, hn⟩ : ∃ n, c.utf8Size + size cs = n + 1 := ⟨c.utf8Size + size cs - 1, by omega⟩
    have rest : n + 1 - c.utf8Size = size cs := by omega
    simp only [List.cons_append, size_cons, hn, splitAt?]
    rw [if_pos (by omega), rest, ih]
    rfl

theorem eq_append_of_splitAt? {t pre post : Text} {n : Nat}
    (h : splitAt? t n = some (pre, post)) : t = pre ++ post ∧ size pre = n := by
  induction t generalizing n pre with
  | nil =>
    cases n with
    | zero => simp [splitAt?] at h; obtain ⟨rfl, rfl⟩ := h; simp
    | succ n => simp [splitAt?] at h
  | cons c cs ih =>
    cases n with
    | zero => simp [splitAt?] at h; obtain ⟨rfl, rfl⟩ := h; simp
    | succ n =>
      simp only [splitAt?] at h
      split at h
      · rename_i small
        obtain ⟨⟨p, q⟩, hpq, heq⟩ := Option.map_eq_some_iff.1 h
        simp only [Prod.mk.injEq] at heq
        obtain ⟨rfl, rfl⟩ := heq
        obtain ⟨rfl, hsize⟩ := ih hpq
        exact ⟨rfl, by simp; omega⟩
      · simp at h

def IsBoundary (t : Text) (n : Nat) : Prop := (t.splitAt? n).isSome

instance (t : Text) (n : Nat) : Decidable (IsBoundary t n) :=
  inferInstanceAs (Decidable (_ = _))

theorem isBoundary_iff {t : Text} {n : Nat} :
    IsBoundary t n ↔ ∃ pre post, t = pre ++ post ∧ size pre = n := by
  constructor
  · intro h
    obtain ⟨⟨pre, post⟩, hs⟩ := Option.isSome_iff_exists.1 h
    exact ⟨pre, post, eq_append_of_splitAt? hs⟩
  · rintro ⟨pre, post, rfl, rfl⟩
    simp [IsBoundary, splitAt?_size]

/-- The bytes from one offset up to another; empty if either is no boundary. -/
def slice (t : Text) (start stop : Nat) : Text :=
  match t.splitAt? start with
  | none => []
  | some (_, rest) =>
    match rest.splitAt? (stop - start) with
    | none => []
    | some (mid, _) => mid

theorem slice_append (pre mid post : Text) :
    slice (pre ++ (mid ++ post)) (size pre) (size pre + size mid) = mid := by
  simp only [slice, splitAt?_size]
  rw [Nat.add_sub_cancel_left, splitAt?_size]

def place (t : Text) (offset : Nat) : Nat × Nat := go 1 0 t offset
where
  go (line column : Nat) : Text → Nat → Nat × Nat
    | _, 0 => (line, column)
    | [], _ + 1 => (line, column)
    | c :: cs, n + 1 =>
      if c = '\n' then go (line + 1) 0 cs n
      else if c.utf8Size ≤ n + 1 then go line (column + c.utf8Size) cs (n + 1 - c.utf8Size)
      else (line, column + (n + 1))

def stripPrefix? : Text → Text → Option Text
  | [], t => some t
  | _ :: _, [] => none
  | p :: ps, c :: cs => if p = c then stripPrefix? ps cs else none

theorem stripPrefix?_append (p t : Text) : stripPrefix? p (p ++ t) = some t := by
  induction p with
  | nil => cases t <;> rfl
  | cons c cs ih => simp [stripPrefix?, ih]

theorem eq_append_of_stripPrefix? {p t rest : Text} (h : stripPrefix? p t = some rest) :
    t = p ++ rest := by
  induction p generalizing t with
  | nil => cases t <;> simp_all [stripPrefix?]
  | cons c cs ih =>
    cases t with
    | nil => simp [stripPrefix?] at h
    | cons d ds =>
      simp only [stripPrefix?] at h
      split at h
      · rename_i heq
        rw [heq, ih h]
        rfl
      · simp at h

def startsWith (t p : Text) : Bool := (stripPrefix? p t).isSome

def includes (t sub : Text) : Bool :=
  match t with
  | [] => sub.isEmpty
  | c :: cs => startsWith (c :: cs) sub || includes cs sub

def splitBy (isSeparator : Char → Bool) : Text → List Text
  | [] => [[]]
  | c :: cs =>
    if isSeparator c then [] :: splitBy isSeparator cs
    else match splitBy isSeparator cs with
      | [] => [[c]]
      | part :: parts => (c :: part) :: parts

def splitOnce (separator : Char) : Text → Option (Text × Text)
  | [] => none
  | c :: cs =>
    if c = separator then some ([], cs)
    else (splitOnce separator cs).map fun (before, after) => (c :: before, after)

def join (separator : Text) : List Text → Text
  | [] => []
  | [t] => t
  | t :: ts => t ++ separator ++ join separator ts

def ofNat (n : Nat) : Text := Nat.toDigits 10 n

def ofInt : Int → Text
  | .ofNat n => ofNat n
  | .negSucc n => '-' :: ofNat (n + 1)

end Text
end RequireInjection
