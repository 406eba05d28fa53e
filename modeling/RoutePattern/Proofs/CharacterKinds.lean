import RoutePattern.ModeTokens

/-!
# What classification tells of a character

A mark is classified by its own lexeme and by nothing else. The other lexemes of single characters stand
for whitespace, digits, capitals, starts of identifiers and literal text, and no character has two.
-/
namespace RoutePattern.CodePoint

/-- The code point that a text starts with. -/
def ofHead (cs : List Char) : CodePoint := cs.head?.elim .eof .char

/-- Every text starts with a longest run in a class, which may be empty. -/
theorem exists_run (member : CodePoint → Bool) (he : member .eof = false) (text : List Char) :
    ∃ run rest, text = run ++ rest ∧ (∀ x ∈ run, member (.char x) = true) ∧ member (.ofHead rest) = false := by
  induction text with
  | nil => exact ⟨[], [], rfl, by simp, he⟩
  | cons x text ih =>
    by_cases hx : member (.char x) = true
    · obtain ⟨run, rest, rfl, hr, hn⟩ := ih
      exact ⟨x :: run, rest, rfl, List.forall_mem_cons.2 ⟨hx, hr⟩, hn⟩
    · exact ⟨[], x :: text, rfl, by simp, Bool.eq_false_iff.2 hx⟩

/-- A text that starts with a run in a class starts with a member of it. -/
theorem member_ofHead {member : CodePoint → Bool} {run : List Char} (hn : run ≠ [])
    (hr : ∀ x ∈ run, member (.char x) = true) (rest : List Char) : member (.ofHead (run ++ rest)) = true := by
  obtain ⟨x, xs, rfl⟩ := List.exists_cons_of_ne_nil hn
  exact hr x (by simp)

/-- The characters that have a lexeme of their own. -/
def marks : List Char :=
  ['/', '\x5c', ':', ',', '-', '*', '\x60', '\x27', '\x22', '(', ')', '\x7b', '\x7d', '[', ']']

/-- The lexemes that stand for more than one character. -/
def classes : List Lexeme := [.whitespace, .digit, .invalid, .upper, .identifier, .literal, .endOfInput]

section
variable {x : Char} {l : Lexeme} {p : Char → Bool}

theorem mem_marks (h : Lexeme.ofMark? x = some l) : x ∈ marks := by
  unfold Lexeme.ofMark? at h
  split at h
  all_goals first | decide | cases h

theorem not_mem_classes (h : Lexeme.ofMark? x = some l) : l ∉ classes := by
  unfold Lexeme.ofMark? at h
  split at h
  all_goals cases h; try decide

/-- What holds of all marks can be tested. -/
theorem of_mark (hp : marks.all p = true) (h : Lexeme.ofMark? x = some l) : p x = true :=
  List.all_eq_true.1 hp x (mem_marks h)

theorem of_blank (hp : [' ', '\t', '\n', '\r'].all p = true) (h : AsciiTrait.blank x = true) : p x = true := by
  refine List.all_eq_true.1 hp x ?_
  simpa [AsciiTrait.blank, or_assoc] using h

theorem toNat_lt_of_blank (h : AsciiTrait.blank x = true) : x.toNat < 128 :=
  of_decide_eq_true (of_blank (p := fun y => decide (y.toNat < 128)) (by decide) h)

theorem isWhitespace_char (x : Char) : (char x).isWhitespace = AsciiTrait.blank x := by
  simp only [isWhitespace, satisfies, char?, Option.any_some, AsciiTrait.holds]
  split
  · rfl
  · rename_i h
    exact (Bool.eq_false_iff.2 fun hb => h (toNat_lt_of_blank hb)).symm

/-- The lexemes of single characters, in the order in which they are tried. -/
theorem classify_cases (x : Char) :
    (AsciiTrait.blank x = true ∧ (char x).classify = .whitespace) ∨
    (∃ l, Lexeme.ofMark? x = some l ∧ (char x).classify = l) ∨
    (x.isDigit = true ∧ (char x).classify = .digit) ∨
    ((char x).isLiteral = false ∧ (char x).classify = .invalid) ∨
    ((char x).isUpper = true ∧ (char x).classify = .upper) ∨
    ((char x).isIdentifierStart = true ∧ (char x).isUpper = false ∧ (char x).classify = .identifier) ∨
    (char x).classify = .literal := by
  unfold classify
  dsimp only
  rw [isWhitespace_char]
  split
  · rename_i hb; exact .inl ⟨hb, rfl⟩
  · split
    · rename_i m hm; exact .inr (.inl ⟨m, hm, rfl⟩)
    · split
      · rename_i hd; exact .inr (.inr (.inl ⟨hd, rfl⟩))
      · split
        · rename_i hv
          have hvalid : (char x).isValid = false := by simpa using hv
          simp [isLiteral, hvalid]
        · split
          · rename_i hu; simp [hu]
          · split
            · rename_i hu hi; simp [hi, hu]
            · split
              · simp
              · rename_i hl; simp [hl]

theorem eq_of_mark {y : Char} (h : Lexeme.ofMark? x = some l) (hy : Lexeme.ofMark? y = some l) : x = y := by
  unfold Lexeme.ofMark? at h hy
  split at h
  all_goals cases h
  all_goals
    split at hy
    all_goals first | rfl | cases hy

/-- A lexeme that is not for a class of characters is the lexeme of a mark. -/
theorem mark_of_classify (h : (char x).classify = l) (hl : l ∉ classes) : Lexeme.ofMark? x = some l := by
  subst h
  rcases classify_cases x with ⟨-, hc⟩ | ⟨m, hm, hc⟩ | ⟨-, hc⟩ | ⟨-, hc⟩ | ⟨-, hc⟩ | ⟨-, -, hc⟩ | hc
  case inr.inl => rw [hm, hc]
  all_goals exact absurd (hc ▸ by decide) hl

theorem classify_ne_endOfInput (x : Char) : (char x).classify ≠ .endOfInput := by
  intro he
  rcases classify_cases x with ⟨-, hc⟩ | ⟨m, hm, hc⟩ | ⟨-, hc⟩ | ⟨-, hc⟩ | ⟨-, hc⟩ | ⟨-, -, hc⟩ | hc
  case inr.inl => exact not_mem_classes hm (by rw [← hc, he]; decide)
  all_goals rw [he] at hc; cases hc

theorem isLiteral_of_invalid (h : (char x).classify = .invalid) : (char x).isLiteral = false := by
  rcases classify_cases x with ⟨-, hc⟩ | ⟨m, hm, hc⟩ | ⟨-, hc⟩ | ⟨hl, -⟩ | ⟨-, hc⟩ | ⟨-, -, hc⟩ | hc
  case inr.inr.inr.inl => exact hl
  case inr.inl => exact absurd (by rw [← hc, h]; decide) (not_mem_classes hm)
  all_goals rw [h] at hc; cases hc

theorem toNat_of_isUpper (h : (char x).isUpper = true) : 65 ≤ x.toNat ∧ x.toNat < 91 := by
  simp only [isUpper, satisfies, char?, Option.any_some, AsciiTrait.holds] at h
  split at h
  · have hx : 'A'.val ≤ x.val ∧ x.val ≤ 'Z'.val := of_decide_eq_true h
    exact ⟨UInt32.le_iff_toNat_le.1 hx.1, Nat.lt_succ_of_le (UInt32.le_iff_toNat_le.1 hx.2)⟩
  · cases h

theorem classify_of_isUpper (h : (char x).isUpper = true) : (char x).classify = .upper := by
  have hall : ∀ n < 91, 65 ≤ n → (char (Char.ofNat n)).classify = .upper := by decide
  obtain ⟨hge, hlt⟩ := toNat_of_isUpper h
  have hx := hall x.toNat hlt hge
  rwa [Char.ofNat_toNat] at hx

theorem utf8Size_of_isUpper (h : (char x).isUpper = true) : x.utf8Size = 1 := by
  obtain ⟨-, hlt⟩ := toNat_of_isUpper h
  rw [Char.utf8Size_eq_one_iff, UInt32.le_iff_toNat_le]
  exact Nat.le_of_lt (Nat.lt_trans hlt (by decide))

/-- What no mark and no whitespace is in leaves the later tests to decide. -/
theorem classify_of_class (h : p x = true) (hm : marks.all (!p ·) = true)
    (hb : [' ', '\t', '\n', '\r'].all (!p ·) = true) :
    AsciiTrait.blank x = false ∧ Lexeme.ofMark? x = none := by
  constructor
  · refine Bool.eq_false_iff.2 fun hx => ?_
    have := of_blank hb hx
    simp [h] at this
  · cases hx : Lexeme.ofMark? x with
    | none => rfl
    | some l =>
      have := of_mark hm hx
      simp [h] at this

theorem classify_digit_iff : (char x).classify = .digit ↔ x.isDigit = true := by
  constructor
  · intro h
    rcases classify_cases x with ⟨-, hc⟩ | ⟨m, hm, hc⟩ | ⟨hd, -⟩ | ⟨-, hc⟩ | ⟨-, hc⟩ | ⟨-, -, hc⟩ | hc
    case inr.inr.inl => exact hd
    case inr.inl => exact absurd (by rw [← hc, h]; decide) (not_mem_classes hm)
    all_goals rw [h] at hc; cases hc
  · intro h
    obtain ⟨hb, hm⟩ := classify_of_class h (by decide) (by decide)
    simp [classify, isWhitespace_char, hb, hm, AsciiTrait.holds, h]

theorem isUpper_of_blank (h : AsciiTrait.blank x = true) : (char x).isUpper = false := by
  have := of_blank (p := fun y => !(char y).isUpper) (by decide) h
  simpa using this

/-- The marks that are tokens of a path. -/
theorem classify_of_path {x : Char} (hx : x ∈ ['/', ':', '\x7b']) :
    (char x).classify ∈ [.slash, .colon, .leftBrace] ∧ AsciiTrait.blank x = false ∧ (char x).isUpper = false := by
  simp only [List.mem_cons, List.not_mem_nil, or_false] at hx
  rcases hx with rfl | rfl | rfl <;> decide

theorem isValid_of_isIdentifierStart (h : (char x).isIdentifierStart = true) : (char x).isValid = true := by
  have h0 : x ≠ '\x00' := by rintro rfl; revert h; decide
  have hm : x ≠ byteOrderMark := by rintro rfl; revert h; decide +kernel
  have hr : x ≠ '\uFFFD' := by rintro rfl; revert h; decide +kernel
  simp [isValid, char?, h0, hm, hr]

/-- What holds of the ten digits can be tested. -/
theorem of_digit (hp : ['0', '1', '2', '3', '4', '5', '6', '7', '8', '9'].all p = true) (h : x.isDigit = true) :
    p x = true := by
  have hall : ∀ n < 58, 48 ≤ n → Char.ofNat n ∈ ['0', '1', '2', '3', '4', '5', '6', '7', '8', '9'] := by decide
  simp only [Char.isDigit, Bool.and_eq_true, decide_eq_true_eq, UInt32.le_iff_toNat_le] at h
  have hx := hall x.toNat (Nat.lt_succ_of_le h.2) h.1
  rw [Char.ofNat_toNat] at hx
  exact List.all_eq_true.1 hp x hx

theorem isIdentifierStart_of_digit (h : x.isDigit = true) : (char x).isIdentifierStart = false := by
  have := of_digit (p := fun y => !(char y).isIdentifierStart) (by decide) h
  simpa using this

theorem not_digit_of_isIdentifierStart (h : (char x).isIdentifierStart = true) : x.isDigit = false := by
  refine Bool.eq_false_iff.2 fun hd => ?_
  rw [isIdentifierStart_of_digit hd] at h
  cases h

theorem classify_identifier_iff :
    (char x).classify = .identifier ↔ (char x).isIdentifierStart = true ∧ (char x).isUpper = false := by
  constructor
  · intro h
    rcases classify_cases x with ⟨-, hc⟩ | ⟨m, hm, hc⟩ | ⟨-, hc⟩ | ⟨-, hc⟩ | ⟨-, hc⟩ | ⟨hi, hu, -⟩ | hc
    case inr.inr.inr.inr.inr.inl => exact ⟨hi, hu⟩
    case inr.inl => exact absurd (by rw [← hc, h]; decide) (not_mem_classes hm)
    all_goals rw [h] at hc; cases hc
  · rintro ⟨hi, hu⟩
    obtain ⟨hb, hm⟩ := classify_of_class (p := fun y => (char y).isIdentifierStart) hi (by decide) (by decide)
    simp [classify, isWhitespace_char, hb, hm, AsciiTrait.holds, not_digit_of_isIdentifierStart hi,
      isValid_of_isIdentifierStart hi, hu, hi]

theorem continuesSegment_iff (hx : x ≠ '\x00') : (char x).continuesSegment = true ↔
    AsciiTrait.blank x = false ∧ x ≠ '/' ∧ x ≠ '\x7b' := by
  by_cases hlt : x.toNat < 128
  · simp only [continuesSegment, isSegment, satisfies, char?, is, AsciiTrait.holds, hlt, Option.any_some]
    cases AsciiTrait.blank x <;> simp [hx]
  · have hb : AsciiTrait.blank x = false := Bool.eq_false_iff.2 fun hb => hlt (toNat_lt_of_blank hb)
    have hs : x ≠ '/' := by rintro rfl; exact hlt (by decide)
    have hl : x ≠ '\x7b' := by rintro rfl; exact hlt (by decide)
    simp [continuesSegment, isSegment, satisfies, char?, is, hlt, hb, hs, hl]

end
end RoutePattern.CodePoint
