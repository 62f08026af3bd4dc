import RequireInjection.Proofs.CallPattern.Pieces
import RequireInjection.Proofs.Edit.Splice

/-!
What a scan finds, said without the scan. From the place reached the next match is the one that
begins first, and the search goes on where it ends; the scan's calls are the matches chosen in this
way. Where the start of a match determines it, no other list of matches is.
-/
namespace RequireInjection
namespace CallPattern

/-- From a place on, the matches in order that begin as early as one can behind the one before. -/
inductive Leftmost (IsMatch : Match → Prop) : Nat → List Match → Prop where
  | none {place : Nat} (absent : ∀ m, IsMatch m → m.start < place) : Leftmost IsMatch place []
  | next {place : Nat} {m : Match} {ms : List Match} (found : IsMatch m) (behind : place ≤ m.start)
      (first : ∀ m', IsMatch m' → place ≤ m'.start → m.start ≤ m'.start)
      (rest : Leftmost IsMatch m.stop ms) : Leftmost IsMatch place (m :: ms)

def Finds (p : CallPattern) (source : Text) (m : Match) : Prop :=
  ∃ before after, source = before ++ after ∧ m.start = before.size ∧
    p.argumentAt? after = some m.argument

theorem Leftmost.from_earlier {IsMatch : Match → Prop} {place earlier : Nat} {ms : List Match}
    (h : Leftmost IsMatch place ms) (before : earlier ≤ place)
    (between : ∀ m, IsMatch m → earlier ≤ m.start → place ≤ m.start) :
    Leftmost IsMatch earlier ms := by
  cases h with
  | none absent =>
    refine .none fun m hm => ?_
    have := between m hm
    have := absent m hm
    omega
  | next found behind first rest =>
    exact .next found (by omega) (fun m hm ahead => first m hm (between m hm ahead)) rest

theorem Leftmost.congr {P Q : Match → Prop} (same : ∀ m, P m ↔ Q m) {place : Nat}
    {ms : List Match} : Leftmost P place ms ↔ Leftmost Q place ms := by
  have equal : P = Q := funext fun m => propext (same m)
  rw [equal]

theorem Leftmost.unique {IsMatch : Match → Prop}
    (determined : ∀ m m', IsMatch m → IsMatch m' → m.start = m'.start → m = m') {place : Nat}
    {ms ms' : List Match} (h : Leftmost IsMatch place ms) (h' : Leftmost IsMatch place ms') :
    ms = ms' := by
  induction h generalizing ms' with
  | none absent =>
    cases h' with
    | none _ => rfl
    | next found behind _ _ =>
      have := absent _ found
      omega
  | next found behind first rest ih =>
    cases h' with
    | none absent =>
      have := absent _ found
      omega
    | next found' behind' first' rest' =>
      have start_le := first _ found' behind'
      have le_start := first' _ found behind
      have same := determined _ _ found found' (by omega)
      subst same
      rw [ih rest']

theorem Leftmost.is_match {IsMatch : Match → Prop} {place : Nat} {ms : List Match}
    (h : Leftmost IsMatch place ms) : ∀ m ∈ ms, IsMatch m := by
  induction h with
  | none absent => simp
  | next found behind first rest ih => simpa using ⟨found, ih⟩

theorem Leftmost.behind {IsMatch : Match → Prop} {place : Nat} {ms : List Match}
    (h : Leftmost IsMatch place ms) : ∀ m ∈ ms, place ≤ m.start := by
  induction h with
  | none absent => simp
  | next found behind first rest ih =>
    intro m member
    rcases List.mem_cons.mp member with rfl | later
    · exact behind
    · have := ih m later
      simp only [Match.stop] at this
      omega

theorem Leftmost.apart {IsMatch : Match → Prop} {place : Nat} {ms : List Match}
    (h : Leftmost IsMatch place ms) {m m' : Match} (member : m ∈ ms) (member' : m' ∈ ms)
    (earlier : m.start < m'.start) : m.stop ≤ m'.start := by
  induction h with
  | none absent => cases member
  | next found behind first rest ih =>
    rcases List.mem_cons.mp member with rfl | later
    · rcases List.mem_cons.mp member' with rfl | later'
      · omega
      · exact rest.behind m' later'
    · rcases List.mem_cons.mp member' with rfl | later'
      · have := rest.behind m later
        simp only [Match.stop] at this
        omega
      · exact ih later later'

theorem Leftmost.mem_of_clear {IsMatch : Match → Prop}
    (determined : ∀ m m', IsMatch m → IsMatch m' → m.start = m'.start → m = m') {place : Nat}
    {ms : List Match} (h : Leftmost IsMatch place ms) {m : Match} (found : IsMatch m)
    (behind : place ≤ m.start) (clear : ∀ m' ∈ ms, m'.start < m.start → m'.stop ≤ m.start) :
    m ∈ ms := by
  induction h with
  | none absent =>
    have := absent m found
    omega
  | @next place m' ms found' behind' first rest ih =>
    have start_le := first m found behind
    by_cases same : m.start = m'.start
    · rw [determined m m' found found' same]
      exact List.mem_cons_self
    · have reached := clear m' List.mem_cons_self (by omega)
      exact List.mem_cons_of_mem _
        (ih reached fun m'' member => clear m'' (List.mem_cons_of_mem _ member))

theorem argumentAt?_nil (p : CallPattern) : p.argumentAt? [] = none := by
  rfl

theorem Finds.determined {p : CallPattern} {source : Text} {m m' : Match} (h : p.Finds source m)
    (h' : p.Finds source m') (same : m.start = m'.start) : m = m' := by
  obtain ⟨before, after, whole, hstart, found⟩ := h
  obtain ⟨before', after', whole', hstart', found'⟩ := h'
  have rests : after = after' :=
    Text.append_inj_size (whole.symm.trans whole') (by rw [← hstart, ← hstart', same])
  subst rests
  have arguments : m.argument = m'.argument := by
    rw [found] at found'
    exact Option.some.inj found'
  cases m
  cases m'
  simp_all

theorem Finds.source_eq {p : CallPattern} {source : Text} {m : Match} (h : p.Finds source m) :
    ∃ before after, source = before ++ (m.text ++ after) ∧ m.start = before.size := by
  obtain ⟨before, rest, whole, hstart, found⟩ := h
  obtain ⟨after, hrest⟩ := argumentAt_begins found
  exact ⟨before, after, by rw [whole, hrest, Match.text], hstart⟩

theorem Finds.slice_text {p : CallPattern} {source : Text} {m : Match} (h : p.Finds source m) :
    source.slice m.start m.stop = m.text := by
  obtain ⟨before, after, whole, hstart⟩ := h.source_eq
  rw [whole, Match.stop, hstart]
  exact Text.slice_append before m.text after

theorem Finds.slice_argument {p : CallPattern} {source : Text} {m : Match}
    (h : p.Finds source m) :
    source.slice (m.start + Piece.opening.size) (m.stop - 1) = m.argument := by
  obtain ⟨before, after, whole, hstart⟩ := h.source_eq
  have cut : source = (before ++ Piece.opening) ++ (m.argument ++ ([')'] ++ after)) := by
    rw [whole, Match.text, Piece.text]
    simp only [List.append_assoc]
  have closing : Text.size [')'] = 1 := rfl
  have stop : m.stop - 1 = Text.size (before ++ Piece.opening) + m.argument.size := by
    simp only [Match.stop, Match.text, Piece.text, Text.size_append, closing, hstart]
    omega
  rw [stop, hstart, ← Text.size_append, cut, Text.slice_append]

theorem Finds.behind {p : CallPattern} {done rest : Text} {m : Match}
    (h : p.Finds (done ++ rest) m) (reached : done.size ≤ m.start) :
    ∃ gap after, rest = gap ++ after ∧ m.start = done.size + gap.size ∧
      p.argumentAt? after = some m.argument := by
  obtain ⟨before, after, whole, hstart, found⟩ := h
  have boundary : Text.IsBoundary (done ++ rest) m.start :=
    Text.isBoundary_iff.mpr ⟨before, after, whole, hstart.symm⟩
  obtain ⟨gap, after', hrest, hgap⟩ := Text.cut_behind boundary reached
  have same : after = after' := by
    have halves : before ++ after = (done ++ gap) ++ after' := by
      rw [← whole, hrest, List.append_assoc]
    exact Text.append_inj_size halves (by rw [← hstart, hgap, Text.size_append])
  exact ⟨gap, after', hrest, hgap, same ▸ found⟩

/-- What is scanned while a call is being skipped yields nothing, and behind it the scan yields the
leftmost matches. -/
theorem scan_leftmost (p : CallPattern) (done rest : Text) (skip : Nat) :
    Leftmost (p.Finds (done ++ rest)) (done.size + Text.size (rest.take skip))
      (matchesFrom (done.size + Text.size (rest.take skip)) (p.scan skip rest)) := by
  induction rest generalizing done skip with
  | nil =>
    simp only [scan, matchesFrom]
    refine .none fun m hm => Nat.lt_of_not_le fun reached => ?_
    simp only [List.take_nil, Text.size_nil, Nat.add_zero] at reached
    obtain ⟨gap, after, whole, _, found⟩ := hm.behind reached
    obtain ⟨rfl, rfl⟩ : gap = [] ∧ after = [] := by simpa using whole.symm
    simp [argumentAt?_nil] at found
  | cons c cs ih =>
    have step : done ++ c :: cs = (done ++ [c]) ++ cs := by simp
    cases skip with
    | succ n =>
      -- the character belongs to a call that has been found
      have later := ih (done ++ [c]) n
      have place : Text.size (done ++ [c]) + Text.size (cs.take n) =
          done.size + Text.size ((c :: cs).take (n + 1)) := by
        simp
        omega
      rw [step, ← place]
      exact later
    | zero =>
      simp only [List.take_zero, Text.size_nil, Nat.add_zero, scan]
      cases found : p.argumentAt? (c :: cs) with
      | some a =>
        obtain ⟨rest, whole⟩ := argumentAt_begins found
        obtain ⟨d, ds, hcall⟩ : ∃ d ds, (Piece.call a).text = d :: ds := ⟨_, _, rfl⟩
        have later := ih (done ++ [c]) ((Piece.call a).text.length - 1)
        have place : Text.size (done ++ [c]) +
            Text.size (cs.take ((Piece.call a).text.length - 1)) =
              done.size + (Piece.call a).text.size := by
          rw [hcall, List.cons_append, List.cons.injEq] at whole
          rw [hcall, whole.1, whole.2]
          simp
          omega
        rw [place, ← step] at later
        exact .next ⟨done, c :: cs, rfl, rfl, found⟩ (Nat.le_refl _) (fun _ _ ahead => ahead) later
      | none =>
        -- no match begins here, so the first one from here on is the first behind the character
        have later := ih (done ++ [c]) 0
        simp only [List.take_zero, Text.size_nil, Nat.add_zero, Text.size_append, Text.size_cons]
          at later
        rw [← step] at later
        refine later.from_earlier (by omega) fun m hm reached => ?_
        obtain ⟨gap, after, whole, hstart, here⟩ := hm.behind reached
        cases gap with
        | nil =>
          rw [List.nil_append] at whole
          rw [← whole, found] at here
          cases here
        | cons d ds =>
          obtain ⟨rfl, -⟩ : c = d ∧ cs = ds ++ after := by simpa using whole
          simp only [Text.size_cons] at hstart
          omega

theorem calls_leftmost (p : CallPattern) (source : Text) :
    Leftmost (p.Finds source) 0 (p.calls source) := by
  have whole := p.scan_leftmost [] source 0
  simpa [calls, pieces] using whole

theorem leftmost_iff (p : CallPattern) (source : Text) (ms : List Match) :
    Leftmost (p.Finds source) 0 ms ↔ ms = p.calls source := by
  constructor
  · intro h
    exact h.unique (fun _ _ => Finds.determined) (p.calls_leftmost source)
  · rintro rfl
    exact p.calls_leftmost source

end CallPattern
end RequireInjection
