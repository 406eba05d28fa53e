/-!
# Text between quotes and between parentheses

In quoted text a backslash stands before every quote of the text, and the text does not end with a
backslash, which would hide the closing quote. In nested text no part from the start closes more than
it opens.
-/
namespace RoutePattern.EnclosedText

def escape (quote : Char) (literal : List Char) : List Char :=
  literal.flatMap fun c => if c = quote then ['\x5c', c] else [c]

@[simp] theorem escape_nil (quote : Char) : escape quote [] = [] := rfl

@[simp] theorem escape_append (quote : Char) (cs ds : List Char) :
    escape quote (cs ++ ds) = escape quote cs ++ escape quote ds := List.flatMap_append

theorem escape_cons_quote (quote : Char) (cs : List Char) :
    escape quote (quote :: cs) = '\x5c' :: quote :: escape quote cs := by simp [escape]

theorem escape_cons_of_ne {quote c : Char} (h : c ≠ quote) (cs : List Char) :
    escape quote (c :: cs) = c :: escape quote cs := by simp [escape, h]

/-- A literal that goes on after a backslash does not go on with a bare quote. -/
theorem head?_escape_ne {quote c : Char} {cs : List Char} (hq : quote ≠ '\x5c')
    (hl : (c :: cs).getLast? ≠ some '\x5c') (hc : c = '\x5c') (rest : List Char) :
    (escape quote cs ++ quote :: rest).head? ≠ some quote := by
  cases cs with
  | nil => exact absurd (by simp [hc]) hl
  | cons d ds =>
    by_cases hd : d = quote
    · subst hd; simpa [escape_cons_quote] using Ne.symm hq
    · simpa [escape_cons_of_ne hd] using hd

/-- The text is a quoted literal up to its closing quote, and a rest. -/
structure Closes (quote : Char) (literal rest cs : List Char) : Prop where
  split : cs = escape quote literal ++ quote :: rest
  last : literal.getLast? ≠ some '\x5c'

theorem Closes.nil (quote : Char) (rest : List Char) : Closes quote [] rest (quote :: rest) :=
  ⟨rfl, by simp⟩

theorem Closes.cons_quote {quote : Char} {literal rest cs : List Char} (hq : quote ≠ '\x5c')
    (h : Closes quote literal rest cs) :
    Closes quote (quote :: literal) rest ('\x5c' :: quote :: cs) := by
  refine ⟨by rw [h.split, escape_cons_quote]; rfl, ?_⟩
  have hl := h.last
  cases literal with
  | nil => simpa using hq
  | cons c cs => simpa using hl

theorem Closes.cons_of_ne {quote c : Char} {literal rest cs : List Char} (hc : c ≠ quote)
    (hn : c = '\x5c' → cs.head? ≠ some quote) (h : Closes quote literal rest cs) :
    Closes quote (c :: literal) rest (c :: cs) := by
  refine ⟨by rw [h.split, escape_cons_of_ne hc]; rfl, ?_⟩
  have hl := h.last
  cases literal with
  | nil =>
    intro he
    have hh : cs.head? = some quote := by simp [h.split]
    exact hn (by simpa using he) hh
  | cons d ds => simpa using hl

/-- How a quoted literal starts: with its closing quote, with an escaped quote, or with any other character. -/
theorem Closes.cases {quote : Char} {literal rest cs : List Char} (hq : quote ≠ '\x5c')
    (h : Closes quote literal rest cs) :
    (literal = [] ∧ cs = quote :: rest) ∨
    (∃ inner more, literal = quote :: inner ∧ cs = '\x5c' :: quote :: more ∧ Closes quote inner rest more) ∨
    ∃ x inner more, literal = x :: inner ∧ cs = x :: more ∧ x ≠ quote ∧
      (x = '\x5c' → more.head? ≠ some quote) ∧ Closes quote inner rest more := by
  cases literal with
  | nil => exact .inl ⟨rfl, h.split⟩
  | cons x inner =>
    have hlast : inner.getLast? ≠ some '\x5c' := by
      intro hl
      refine h.last ?_
      rw [List.getLast?_cons, hl]
      rfl
    have hs := h.split
    by_cases hx : x = quote
    · subst hx
      rw [escape_cons_quote] at hs
      exact .inr (.inl ⟨inner, _, rfl, hs, rfl, hlast⟩)
    · rw [escape_cons_of_ne hx] at hs
      exact .inr (.inr ⟨x, inner, _, rfl, hs, hx, fun hb => head?_escape_ne hq h.last hb rest, rfl, hlast⟩)

/-- A text closes at one place only. -/
theorem Closes.unique {quote : Char} {literal literal' rest rest' cs : List Char} (hq : quote ≠ '\x5c')
    (h : Closes quote literal rest cs) (h' : Closes quote literal' rest' cs) : rest = rest' := by
  induction literal generalizing literal' cs with
  | nil =>
    obtain rfl : cs = quote :: rest := h.split
    rcases h'.cases hq with ⟨-, he⟩ | ⟨_, _, -, he, -⟩ | ⟨x, _, _, -, he, hx, -⟩
    · exact (List.cons.inj he).2
    · exact absurd (List.cons.inj he).1 hq
    · exact absurd (List.cons.inj he).1.symm hx
  | cons y literal ih =>
    rcases h.cases hq with ⟨hn, -⟩ | ⟨inner, more, hl, rfl, hc⟩ | ⟨x, inner, more, hl, rfl, hx, hb, hc⟩
    · cases hn
    · obtain ⟨rfl, rfl⟩ := List.cons.inj hl
      rcases h'.cases hq with ⟨-, he⟩ | ⟨_, _, -, he, hc'⟩ | ⟨x, _, _, -, he, -, hb', -⟩
      · exact absurd (List.cons.inj he).1.symm hq
      · obtain rfl := (List.cons.inj (List.cons.inj he).2).2
        exact ih hc hc'
      · obtain ⟨rfl, rfl⟩ := List.cons.inj he
        exact absurd rfl (hb' rfl)
    · obtain ⟨rfl, rfl⟩ := List.cons.inj hl
      rcases h'.cases hq with ⟨-, he⟩ | ⟨_, _, -, he, -⟩ | ⟨z, _, _, -, he, -, -, hc'⟩
      · exact absurd (List.cons.inj he).1 hx
      · obtain ⟨rfl, rfl⟩ := List.cons.inj he
        exact absurd rfl (hb rfl)
      · obtain ⟨rfl, rfl⟩ := List.cons.inj he
        exact ih hc hc'

/-- How many more delimiters are opened than closed. -/
def depth (opener closer : Char) (cs : List Char) : Int := cs.count opener - cs.count closer

/-- Nested text inside as many open delimiters as given: none of its parts from the start closes all. -/
def Inside (opener closer : Char) (d : Int) (cs : List Char) : Prop :=
  ∀ part, part <+: cs → 1 ≤ d + depth opener closer part

structure Balanced (opener closer : Char) (cs : List Char) : Prop where
  settled : depth opener closer cs = 0
  inside : ∀ part, part <+: cs → 0 ≤ depth opener closer part

section
variable {opener closer : Char} {d : Int} {x : Char} {cs : List Char}

@[simp] theorem depth_nil : depth opener closer [] = 0 := by simp [depth]

theorem depth_append (cs ds : List Char) :
    depth opener closer (cs ++ ds) = depth opener closer cs + depth opener closer ds := by
  simp only [depth, List.count_append]
  omega

theorem depth_cons : depth opener closer (x :: cs) = depth opener closer [x] + depth opener closer cs :=
  depth_append [x] cs

theorem depth_closer (h : opener ≠ closer) : depth opener closer [closer] = -1 := by
  simp [depth, Ne.symm h]

theorem depth_opener (h : opener ≠ closer) : depth opener closer [opener] = 1 := by simp [depth, h]

theorem depth_other (ho : x ≠ opener) (hc : x ≠ closer) : depth opener closer [x] = 0 := by
  simp [depth, ho, hc]

theorem inside_cons : Inside opener closer d (x :: cs) ↔
    1 ≤ d ∧ Inside opener closer (d + depth opener closer [x]) cs := by
  constructor
  · intro h
    refine ⟨by simpa using h [] (List.nil_prefix), ?_⟩
    intro part hp
    have := h (x :: part) (List.cons_prefix_cons.2 ⟨rfl, hp⟩)
    rw [depth_cons] at this
    omega
  · rintro ⟨hd, h⟩ part hp
    cases part with
    | nil => simpa using hd
    | cons y part =>
      obtain ⟨rfl, hp'⟩ := List.cons_prefix_cons.1 hp
      have := h part hp'
      rw [depth_cons]
      omega

theorem Inside.nil (h : 1 ≤ d) : Inside opener closer d [] := by
  intro part hp
  rw [List.prefix_nil.1 hp]
  simpa using h

theorem balanced_iff : Balanced opener closer cs ↔
    Inside opener closer 1 cs ∧ 1 + depth opener closer cs = 1 := by
  constructor
  · intro h
    refine ⟨fun part hp => ?_, by rw [h.settled]; rfl⟩
    have := h.inside part hp
    omega
  · rintro ⟨hi, hd⟩
    refine ⟨by omega, fun part hp => ?_⟩
    have := hi part hp
    omega

/-- Text inside open delimiters closes the last of them somewhere, or none of its parts does. -/
theorem closes_or_inside (cs : List Char) (h : opener ≠ closer) (hd : 1 ≤ d) :
    (∃ body rest, cs = body ++ closer :: rest ∧ Inside opener closer d body ∧
      d + depth opener closer body = 1) ∨ Inside opener closer d cs := by
  induction cs generalizing d with
  | nil => exact .inr (.nil hd)
  | cons x cs ih =>
    by_cases hx : x = closer ∧ d = 1
    · obtain ⟨rfl, rfl⟩ := hx
      exact .inl ⟨[], cs, rfl, .nil hd, by simp⟩
    · have hd' : 1 ≤ d + depth opener closer [x] := by
        by_cases hc : x = closer
        · have : d ≠ 1 := fun h1 => hx ⟨hc, h1⟩
          rw [hc, depth_closer h]; omega
        · by_cases ho : x = opener
          · rw [ho, depth_opener h]; omega
          · rw [depth_other ho hc]; omega
      rcases ih hd' with ⟨body, rest, rfl, hi, hb⟩ | hi
      · refine .inl ⟨x :: body, rest, rfl, inside_cons.2 ⟨hd, hi⟩, ?_⟩
        rw [depth_cons]; omega
      · exact .inr (inside_cons.2 ⟨hd, hi⟩)

end
end RoutePattern.EnclosedText
