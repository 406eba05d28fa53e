import RoutePattern.Proofs.TableLayout

/-!
# Quoted text is read back

Whatever the table of printable characters, quoted text tells where it ends and what was quoted. What the table does
not call printable is not in it, and so a token is written without a break when controls and separators are not
printable.
-/
namespace RoutePattern

/-- The characters of the categories Zs, Zl and Zp. -/
def separators : List Char :=
  [' ', '\u00a0', '\u1680', '\u2000', '\u2001', '\u2002', '\u2003', '\u2004', '\u2005', '\u2006', '\u2007', '\u2008',
   '\u2009', '\u200a', '\u2028', '\u2029', '\u202f', '\u205f', '\u3000']

/-- A control character, or a separator other than the space. All line breaks are among them. -/
def Breaks (c : Char) : Prop := CodePoint.isControl c = true ∨ c ∈ separators ∧ c ≠ ' '

def Unbroken (text : String) : Prop := ∀ c ∈ text.toList, ¬ Breaks c

namespace QuotedText

theorem isPrintable_of_control {c : Char} (h : CodePoint.isControl c = true) : isPrintable c = false := by
  simp only [CodePoint.isControl, Bool.or_eq_true, Bool.and_eq_true, decide_eq_true_eq] at h
  unfold isPrintable
  split
  · simp only [Bool.and_eq_false_iff, decide_eq_false_iff_not]
    omega
  · have hrange : (0x80, 0xA0) ∈ unprintableRanges := List.mem_cons_self
    have hhas : unprintableRanges.has c = true := List.any_eq_true.2 ⟨_, hrange, by simp; omega⟩
    rw [hhas]
    rfl

theorem all_separators : separators.all (fun c => c = ' ' || !isPrintable c) = true := by decide +kernel

theorem not_breaks_of_printable {c : Char} (h : isPrintable c = true) : ¬ Breaks c := by
  rintro (hc | ⟨hs, hn⟩)
  · cases (isPrintable_of_control hc).symm.trans h
  · have hc := List.all_eq_true.1 all_separators c hs
    simp [hn, h] at hc

end QuotedText

theorem Visible.unbroken {text : String} (h : Visible text) : Unbroken text := fun c hc =>
  QuotedText.not_breaks_of_printable (visible_iff.1 h c hc)

namespace QuotedText

section
variable {table : Char → Bool} {c x : Char} {digits : Nat}

/-- The character that a letter stands for behind a backslash. -/
def unescapeLetter? : Char → Option Char
  | '\x22' => some '\x22' | '\x5c' => some '\x5c'
  | 'a' => some '\x07' | 'b' => some '\x08' | 'f' => some '\x0c' | 'v' => some '\x0b'
  | 'n' => some '\n' | 'r' => some '\r' | 't' => some '\t'
  | _ => none

def digitValue (d : Char) : Nat := if d.toNat < 0x3A then d.toNat - 0x30 else d.toNat - 0x57

/-- The number with these hexadecimal digits. -/
def number (digits : List Char) : Nat := digits.foldl (fun n d => 16 * n + digitValue d) 0

/-- Reads escapes and other characters up to the quote at the end. -/
def unescape : List Char → Option (List Char)
  | [] => none
  | ['\x22'] => some []
  | '\x22' :: _ :: _ => none
  | ['\x5c'] => none
  | '\x5c' :: letter :: rest =>
    match unescapeLetter? letter, digits? letter with
    | some c, _ => (unescape rest).map (c :: ·)
    | none, some digits => (unescape (rest.drop digits)).map (Char.ofNat (number (rest.take digits)) :: ·)
    | none, none => none
  | c :: rest => (unescape rest).map (c :: ·)
termination_by text => text.length
decreasing_by all_goals simp only [List.length_drop, List.length_cons]; omega

def unquote (text : String) : Option String :=
  match text.toList with
  | '\x22' :: rest => (unescape rest).map String.ofList
  | _ => none

theorem length_hexDigits (digits n : Nat) : (hexDigits digits n).length = digits := by
  induction digits generalizing n with
  | zero => rfl
  | succ digits ih => rw [hexDigits, List.length_append, ih, List.length_singleton]

theorem digitValue_hexDigit : ∀ n < 16, digitValue (hexDigit n) = n := by decide

theorem number_hexDigits {n : Nat} (h : n < 16 ^ digits) : number (hexDigits digits n) = n := by
  induction digits generalizing n with
  | zero => exact (Nat.lt_one_iff.1 h).symm
  | succ digits ih =>
    have hq : n / 16 < 16 ^ digits := Nat.div_lt_of_lt_mul (by rwa [Nat.mul_comm, ← Nat.pow_succ])
    have hr : digitValue (hexDigit (n % 16)) = n % 16 := digitValue_hexDigit _ (Nat.mod_lt n (by decide))
    calc number (hexDigits (digits + 1) n)
        = 16 * number (hexDigits digits (n / 16)) + digitValue (hexDigit (n % 16)) := by
          rw [hexDigits, number, List.foldl_append]
          rfl
      _ = 16 * (n / 16) + n % 16 := by rw [ih hq, hr]
      _ = n := Nat.div_add_mod n 16

theorem unescapeLetter_of_escapeLetter (h : escapeLetter? c = some x) : unescapeLetter? x = some c := by
  unfold escapeLetter? at h
  split at h <;> cases h <;> rfl

theorem unescapeLetter_of_digits (h : digits? x = some digits) : unescapeLetter? x = none := by
  unfold digits? at h
  split at h <;> cases h <;> rfl

/-- What a character is written as is read back as the character. -/
theorem Written.unescape {text : List Char} (h : Written table c text) (rest : List Char) :
    unescape (text ++ rest) = (QuotedText.unescape rest).map (c :: ·) := by
  cases h with
  | @letter x h =>
    show QuotedText.unescape ('\x5c' :: x :: rest) = _
    rw [QuotedText.unescape, unescapeLetter_of_escapeLetter h]
  | plain hl =>
    obtain ⟨hq, hb⟩ := ne_of_escapeLetter hl
    show QuotedText.unescape (c :: rest) = _
    rw [QuotedText.unescape] <;> simp [hq, hb]
  | @number x digits h hc =>
    have htake : (hexDigits digits c.toNat ++ rest).take digits = hexDigits digits c.toNat :=
      List.take_left' (length_hexDigits ..)
    have hdrop : (hexDigits digits c.toNat ++ rest).drop digits = rest := List.drop_left' (length_hexDigits ..)
    show QuotedText.unescape ('\x5c' :: x :: (hexDigits digits c.toNat ++ rest)) = _
    rw [QuotedText.unescape, unescapeLetter_of_digits h, h]
    dsimp only
    rw [htake, hdrop, number_hexDigits hc, Char.ofNat_toNat]

theorem unescape_escapes (table : Char → Bool) (cs : List Char) :
    unescape (cs.flatMap (escapeBy table) ++ ['\x22']) = some cs := by
  induction cs with
  | nil => rw [List.flatMap_nil, List.nil_append, unescape]
  | cons c cs ih =>
    rw [List.flatMap_cons, List.append_assoc, (written_escapeBy table c).unescape, ih]
    rfl

theorem unquote_quoteBy (table : Char → Bool) (s : String) : unquote (quoteBy table s) = some s := by
  simp only [unquote, toList_quoteBy, unescape_escapes, Option.map_some, String.ofList_toList]

/-- Quotes stand behind backslashes only, where a backslash takes the next character with it. -/
inductive Shielded : List Char → Prop where
  | nil : Shielded []
  | pair {x text} (h : Shielded text) : Shielded ('\x5c' :: x :: text)
  | other {x text} (hq : x ≠ '\x22') (hb : x ≠ '\x5c') (h : Shielded text) : Shielded (x :: text)

theorem Shielded.append {first second : List Char} (hf : Shielded first) (hs : Shielded second) :
    Shielded (first ++ second) := by
  induction hf with
  | nil => exact hs
  | pair _ ih => exact .pair ih
  | other hq hb _ ih => exact .other hq hb ih

theorem shielded_of_forall {text : List Char} (h : ∀ x ∈ text, x ≠ '\x22' ∧ x ≠ '\x5c') : Shielded text := by
  induction text with
  | nil => exact .nil
  | cons x text ih =>
    obtain ⟨hx, ht⟩ := List.forall_mem_cons.1 h
    exact .other hx.1 hx.2 (ih ht)

theorem hexDigit_ne : ∀ n < 16, hexDigit n ≠ '\x22' ∧ hexDigit n ≠ '\x5c' := by decide

theorem Written.shielded {text : List Char} (h : Written table c text) : Shielded text := by
  cases h with
  | letter => exact .pair .nil
  | plain hl =>
    obtain ⟨hq, hb⟩ := ne_of_escapeLetter hl
    exact .other hq hb .nil
  | number =>
    refine .pair (shielded_of_forall fun x hx => ?_)
    obtain ⟨d, hd, rfl⟩ := exists_of_mem_hexDigits hx
    exact hexDigit_ne d hd

theorem shielded_escapes (table : Char → Bool) (cs : List Char) : Shielded (cs.flatMap (escapeBy table)) := by
  induction cs with
  | nil => exact .nil
  | cons c cs ih => exact (written_escapeBy table c).shielded.append ih

theorem unbroken_quoteBy (h : ∀ c, Breaks c → table c = false) (s : String) : Unbroken (quoteBy table s) := by
  intro x hx hb
  rcases mem_quoteBy hx with hp | hp
  · exact not_breaks_of_printable hp hb
  · cases (h x hb).symm.trans hp

/-- What quoting by a table keeps of a text, and what it puts around and into it. -/
structure Faithful (table : Char → Bool) : Prop where
  unquotes : ∀ s, unquote (quoteBy table s) = some s
  injective : ∀ s other t, quoteBy table s = quoteBy other t → s = t
  enclosed : ∀ s, ∃ body, (quoteBy table s).toList = '\x22' :: (body ++ ['\x22']) ∧ Shielded body
  unbroken : (∀ c, Breaks c → table c = false) → ∀ s, Unbroken (quoteBy table s)

theorem faithful (table : Char → Bool) : Faithful table where
  unquotes := unquote_quoteBy table
  injective s other t h := Option.some.inj <| by rw [← unquote_quoteBy table s, h, unquote_quoteBy]
  enclosed s := ⟨_, toList_quoteBy table s, shielded_escapes table s.toList⟩
  unbroken := unbroken_quoteBy

/-- Quoted text is read back under every table. By the general categories no token breaks its row of a trace. -/
theorem quote_faithful : (∀ table, Faithful table) ∧ quote = quoteBy isPrintable ∧
    (∀ c, Breaks c → isPrintable c = false) ∧ (∀ token : Token, Unbroken token.text) ∧
    ∀ w pattern step, OneLine pattern → ∃ line, TraceTable.row w pattern step = line ++ "\n" ∧ OneLine line := by
  refine ⟨faithful, quote_eq_quoteBy, fun c hc => ?_, fun t => t.visible_text.unbroken, fun w pattern step hp => ?_⟩
  · exact Bool.eq_false_iff.2 fun hp => not_breaks_of_printable hp hc
  · have hrow := (List.cons.inj (TraceTable.block_eq w pattern step)).1
    exact ⟨TraceTable.rowLine w pattern step, hrow, TraceTable.oneLine_rowLine hp w step⟩

end
end QuotedText
end RoutePattern
