import Mathlib.Algebra.Group.Nat.Defs
import RoutePattern.TokenSequences
import RoutePattern.Proofs.CharacterKinds

/-!
# Text with a visible form

What quoted text cannot show it escapes, so that all of its characters can be seen. The other words of a token and
the numbers of its position can be seen as well, and none of them breaks a line.
-/
namespace RoutePattern

/-- Every character of the text can be seen. -/
def Visible (text : String) : Prop := text.toList.all QuotedText.isPrintable = true

instance (text : String) : Decidable (Visible text) := inferInstanceAs (Decidable (_ = true))

section
variable {first second text : String}

theorem visible_iff : Visible text ↔ ∀ c ∈ text.toList, QuotedText.isPrintable c = true := List.all_eq_true

theorem Visible.append (hf : Visible first) (hs : Visible second) : Visible (first ++ second) := by
  unfold Visible
  rw [String.toList_append, List.all_append, hf, hs]
  rfl

/-- The text does not break its line. -/
def OneLine (text : String) : Prop := '\n' ∉ text.toList

instance (text : String) : Decidable (OneLine text) := inferInstanceAs (Decidable (¬ _))

theorem OneLine.append (hf : OneLine first) (hs : OneLine second) : OneLine (first ++ second) := by
  unfold OneLine
  rw [String.toList_append, List.mem_append]
  exact not_or.2 ⟨hf, hs⟩

theorem Visible.oneLine (h : Visible text) : OneLine text := fun hm => by
  cases visible_iff.1 h _ hm

end

namespace QuotedText

theorem isPrintable_hexDigit : ∀ n < 16, isPrintable (hexDigit n) = true := by decide

theorem exists_of_mem_hexDigits {digits n : Nat} {c : Char} (h : c ∈ hexDigits digits n) :
    ∃ d < 16, c = hexDigit d := by
  induction digits generalizing n with
  | zero => cases h
  | succ digits ih =>
    rcases List.mem_append.1 h with h | h
    · exact ih h
    · exact ⟨n % 16, Nat.mod_lt n (by decide), List.mem_singleton.1 h⟩

theorem isPrintable_of_mem_hexDigits {digits n : Nat} {c : Char} (h : c ∈ hexDigits digits n) :
    isPrintable c = true := by
  obtain ⟨d, hd, rfl⟩ := exists_of_mem_hexDigits h
  exact isPrintable_hexDigit d hd

theorem isPrintable_escapeLetter {c letter : Char} (h : escapeLetter? c = some letter) :
    isPrintable letter = true := by
  unfold escapeLetter? at h
  split at h <;> cases h <;> decide

/-- The table says which characters are printable besides the space. -/
def escapeBy (table : Char → Bool) (c : Char) : List Char :=
  match escapeLetter? c with
  | some letter => ['\x5c', letter]
  | none =>
    if c = ' ' || table c then [c]
    else if c < ' ' || c = '\x7f' then '\x5c' :: 'x' :: hexDigits 2 c.toNat
    else if c.toNat < 0x10000 then '\x5c' :: 'u' :: hexDigits 4 c.toNat
    else '\x5c' :: 'U' :: hexDigits 8 c.toNat

def quoteBy (table : Char → Bool) (s : String) : String :=
  String.ofList ('\x22' :: s.toList.flatMap (escapeBy table) ++ ['\x22'])

/-- How many hexadecimal digits stand behind a letter. -/
def digits? : Char → Option Nat
  | 'x' => some 2 | 'u' => some 4 | 'U' => some 8
  | _ => none

/-- What a character is written as: an escape letter, itself, or its number. -/
inductive Written (table : Char → Bool) (c : Char) : List Char → Prop where
  | letter {x} (h : escapeLetter? c = some x) : Written table c ['\x5c', x]
  | plain (hl : escapeLetter? c = none) (h : c = ' ' ∨ table c = true) : Written table c [c]
  | number {x digits} (h : digits? x = some digits) (hc : c.toNat < 16 ^ digits) :
    Written table c ('\x5c' :: x :: hexDigits digits c.toNat)

section
variable {table : Char → Bool} {c x : Char} {digits : Nat}

theorem ne_of_escapeLetter (h : escapeLetter? c = none) : c ≠ '\x22' ∧ c ≠ '\x5c' := by
  constructor
  · rintro rfl
    cases h
  · rintro rfl
    cases h

theorem written_escapeBy (table : Char → Bool) (c : Char) : Written table c (escapeBy table c) := by
  have hlt : c.toNat < 16 ^ 8 := by
    have := c.valid
    simp only [UInt32.isValidChar, Nat.isValidChar] at this
    simp only [Char.toNat]
    omega
  unfold escapeBy
  split
  · rename_i x hx
    exact .letter hx
  · rename_i hx
    split
    · rename_i hc
      exact .plain hx (by simpa using hc)
    · split
      · rename_i hc
        refine .number rfl ?_
        simp only [Bool.or_eq_true, decide_eq_true_eq] at hc
        rcases hc with hc | rfl
        · exact Nat.lt_trans hc (by decide)
        · decide
      · split
        · rename_i hc
          exact .number rfl hc
        · exact .number rfl hlt

/-- The table of the general categories is one such table. -/
theorem escape_eq_escapeBy (c : Char) : escape c = escapeBy isPrintable c := by
  unfold escape escapeBy
  cases escapeLetter? c with
  | some letter => rfl
  | none =>
    by_cases hp : isPrintable c = true
    · simp [hp]
    · have hs : c ≠ ' ' := fun hc => hp (hc ▸ by decide)
      have hnumber : c.toNat < 0x80 ↔ c < ' ' ∨ c = '\x7f' := by
        have hlt : c < ' ' ↔ c.toNat < 0x20 := Iff.rfl
        have heq : c = '\x7f' ↔ c.toNat = 0x7F := ⟨fun hc => hc ▸ rfl, fun hc => Char.toNat_inj.1 hc⟩
        have hwide : c.toNat < 128 → ¬ (0x20 ≤ c.toNat ∧ c.toNat ≠ 0x7F) := fun hn hc =>
          hp (by simp [isPrintable, hn, hc])
        rw [hlt, heq]
        omega
      simp [hp, hs, hnumber]

theorem quote_eq_quoteBy : quote = quoteBy isPrintable := by
  funext s
  rw [quote, quoteBy, funext escape_eq_escapeBy]

/-- What a character is written as can be seen, or the table has it. -/
theorem Written.mem {text : List Char} (h : Written table c text) (hx : x ∈ text) :
    isPrintable x = true ∨ table x = true := by
  cases h with
  | @letter y hl =>
    rcases List.mem_cons.1 hx with rfl | hx
    · exact .inl (by decide)
    · exact .inl (List.mem_singleton.1 hx ▸ isPrintable_escapeLetter hl)
  | plain _ hp =>
    rw [List.mem_singleton.1 hx]
    rcases hp with rfl | hp
    · exact .inl (by decide)
    · exact .inr hp
  | @number y digits hd _ =>
    rcases List.mem_cons.1 hx with rfl | hx
    · exact .inl (by decide)
    · rcases List.mem_cons.1 hx with rfl | hx
      · unfold digits? at hd
        split at hd
        · exact .inl (by decide)
        · exact .inl (by decide)
        · exact .inl (by decide)
        · cases hd
      · exact .inl (isPrintable_of_mem_hexDigits hx)

theorem toList_quoteBy (table : Char → Bool) (s : String) :
    (quoteBy table s).toList = '\x22' :: (s.toList.flatMap (escapeBy table) ++ ['\x22']) := by
  rw [quoteBy, String.toList_ofList]
  rfl

theorem mem_quoteBy {s : String} (h : x ∈ (quoteBy table s).toList) : isPrintable x = true ∨ table x = true := by
  rw [toList_quoteBy, List.mem_cons, List.mem_append, List.mem_flatMap, List.mem_singleton] at h
  rcases h with rfl | ⟨c, -, hx⟩ | rfl
  · exact .inl (by decide)
  · exact (written_escapeBy table c).mem hx
  · exact .inl (by decide)

theorem visible_quote (text : String) : Visible (quote text) := by
  refine visible_iff.2 fun c hc => ?_
  rw [quote_eq_quoteBy] at hc
  exact or_self_iff.1 (mem_quoteBy hc)

end
end QuotedText

theorem visible_number (n : Nat) : Visible (toString n) := by
  refine visible_iff.2 fun c hc => ?_
  have hd : c.isDigit = true := Nat.isDigit_of_mem_toDigits (by decide) (by decide) (Nat.toList_repr ▸ hc)
  exact CodePoint.of_digit (by decide) hd

theorem Position.visible_text (p : Position) : Visible p.text := by
  unfold text
  split
  · decide
  · split
    · exact .append (by decide) (visible_number p.column)
    · have hbyte {front : String} (hf : Visible front) :
          Visible (front ++ toString " (byte " ++ toString p.offset ++ toString ")") :=
        .append (.append (hf.append (by decide)) (visible_number p.offset)) (by decide)
      split
      · exact hbyte (.append (by decide) (visible_number p.column))
      · exact hbyte (.append (.append (visible_number p.line) (by decide)) (visible_number p.column))

theorem Lexeme.visible_name (l : Lexeme) : Visible l.name := by
  cases l <;> decide

/-- A token is written on one line. -/
theorem Token.visible_text (t : Token) : Visible t.text := by
  have hname : Visible t.lexeme.name := t.lexeme.visible_name
  have hstart : Visible t.start.text := t.start.visible_text
  unfold text
  split
  · have hfront : Visible ("token (" ++ t.lexeme.name) := .append (by decide) hname
    split
    · exact .append (hfront.append (by decide)) hstart
    · exact hfront.append (by decide)
  · have hquote : Visible ("token " ++ QuotedText.quote t.literal) := .append (by decide) (QuotedText.visible_quote _)
    exact .append (.append (.append (hquote.append (by decide)) hname) (by decide)) hstart

end RoutePattern
