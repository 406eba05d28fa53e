import RoutePattern.TextExtraction
import RoutePattern.Proofs.CursorStates
import RoutePattern.Proofs.EnclosedText

/-!
# What is taken from a text

A run takes the longest part in its class, quoted text ends at the first quote that is not escaped, and
nested text at the delimiter that balances the opening one. Where the text has no such end, the failure
is what ends the text, or else that the construct is not closed.
-/
namespace RoutePattern.Cursor
open EnclosedText

section
variable {s : SourceText} {before after rest body literal : List Char} {x : Char} {c : Cursor}

theorem pattern_slice {c d : Cursor} (h : c.pattern = d.pattern) (first last : Nat) :
    c.slice first last = d.slice first last := by
  simp [slice, h]

/-- The text from one character up to the one the cursor stands on. -/
theorem On.since {mid : List Char} (h : On s (before ++ mid) x after c) :
    c.since (s.place before) = String.ofList mid := by
  have ht : s.text = before ++ (mid ++ x :: after) := by simp [h.sourceText]
  have hle : s.place (before ++ mid) ≤ s.bytes.length := s.place_le_length h.sourceText
  simp only [Cursor.since, slice, h.offset, h.pattern, hle, if_true, s.text_between ht]

theorem since_fail (c : Cursor) (e : Failure) (first : Nat) : (c.fail e).since first = c.since first := by
  simp [since, slice, (c.fail_same e).1, (c.fail_same e).2.2.1]

/-- The text from one character on, where the cursor has read up to the end. -/
theorem Spent.since (h : Spent s c) (hr : s.text = before ++ after) :
    c.since (s.place before) = String.ofList (after ++ Utf8.wellFormedPart s.rest) := by
  have hl : (s.bytes.drop (s.place before)).length ≤ s.bytes.length - s.place before := by simp
  rw [Cursor.since, slice, h.offset, h.pattern, if_pos (Nat.le_refl _), List.take_of_length_le hl, Utf8.text,
    s.drop_place hr, Utf8.wellFormedPart_encode_append]

theorem since_offset (c : Cursor) : c.since c.offset = "" := by
  have he : Utf8.wellFormedPart [] = [] := Utf8.wellFormedPart_of_none Utf8.first?_nil
  simp [Cursor.since, slice, Utf8.text, he]

theorem since_look (c : Cursor) (first : Nat) : c.look.since first = c.since first := by
  simp [since, slice, c.look_same.1, c.look_same.2.2.1]

section
variable {xs done : List Char} {member narrow : CodePoint → Bool}

theorem look_skipWhile (member : CodePoint → Bool) (c : Cursor) :
    c.look.skipWhile member = c.skipWhile member := by
  rw [skipWhile, look_look, ← skipWhile]

/-- A class is left where the text goes on with something else. -/
theorem OnLast.skipWhile (h : OnLast s done (xs ++ rest) c) (hx : ∀ y ∈ xs, member (.char y) = true)
    (hr : member (.ofHead rest) = false) :
    ∃ c', OnLast s (done ++ xs) rest c' ∧ c.skipWhile member = c'.look := by
  induction xs generalizing done c with
  | nil =>
    have ha : c.look.ahead = .ofHead rest := h.behind.ahead_look
    refine ⟨c, by simpa using h, ?_⟩
    rw [Cursor.skipWhile]
    simp [ha, hr]
  | cons y ys ih =>
    have ha : c.look.ahead = .char y := h.behind.ahead_look
    have hb : Behind s done (y :: (ys ++ rest)) c.look := h.behind.look (by simp)
    have hy : member (.char y) = true := hx y (by simp)
    have hs : c.skipWhile member = c.look.advance.skipWhile member := by
      conv => lhs; rw [Cursor.skipWhile]
      simp [ha, hy, hb.more]
    obtain ⟨c', hc, he⟩ := ih hb.advance.onLast fun z hz => hx z (by simp [hz])
    exact ⟨c', by simpa using hc, hs.trans he⟩

/-- A narrower class in front does not matter. -/
theorem OnLast.skipWhile_twice (hn : ∀ p, narrow p = true → member p = true)
    (h : OnLast s done (xs ++ rest) c) (hx : ∀ y ∈ xs, member (.char y) = true)
    (hr : member (.ofHead rest) = false) :
    ∃ c', OnLast s (done ++ xs) rest c' ∧ (c.skipWhile narrow).skipWhile member = c'.look := by
  let inner := fun y => narrow (.char y)
  have hsplit : xs = xs.takeWhile inner ++ xs.dropWhile inner := List.takeWhile_append_dropWhile.symm
  have hstop : narrow (.ofHead (xs.dropWhile inner ++ rest)) = false := by
    cases hd : xs.dropWhile inner with
    | nil =>
      refine Bool.eq_false_iff.2 fun ht => ?_
      have := hn _ ht
      rw [List.nil_append, hr] at this
      cases this
    | cons y ys =>
      have hy : ¬ inner y = true := by
        have := List.head_dropWhile_not inner (l := xs) (by simp [hd])
        simpa [hd] using this
      simpa [CodePoint.ofHead, inner] using hy
  rw [hsplit, List.append_assoc] at h
  obtain ⟨d, hb, hd⟩ := h.skipWhile (List.all_eq_true.1 (List.all_takeWhile (p := inner))) hstop
  obtain ⟨c', hc, he⟩ := hb.skipWhile (fun y hy => hx y (List.dropWhile_subset inner hy)) hr
  refine ⟨c', by rw [hsplit, ← List.append_assoc]; exact hc, ?_⟩
  rw [hd, look_skipWhile, he]

theorem On.run_text (h : On s before x after c) {c' : Cursor}
    (hc : OnLast s (before ++ x :: xs) rest c') :
    c'.look.slice c.offset c'.look.readOffset = String.ofList (x :: xs) := by
  rw [pattern_slice c'.look_same.1, c'.look_same.2.2.2, h.offset]
  exact hc.behind.slice (by simp)

theorem On.run_class (h : On s before x (xs ++ rest) c) (hx : ∀ y ∈ xs, member (.char y) = true)
    (hr : member (.ofHead rest) = false) :
    ∃ c', OnLast s (before ++ x :: xs) rest c' ∧ c.run [member] = (String.ofList (x :: xs), c'.look) := by
  obtain ⟨c', hc, he⟩ := h.onLast.skipWhile hx hr
  have hc : OnLast s (before ++ x :: xs) rest c' := by simpa using hc
  refine ⟨c', hc, ?_⟩
  simp only [run, List.foldl_cons, List.foldl_nil, he, h.run_text hc]

theorem On.run_classes (hn : ∀ p, narrow p = true → member p = true) (h : On s before x (xs ++ rest) c)
    (hx : ∀ y ∈ xs, member (.char y) = true) (hr : member (.ofHead rest) = false) :
    ∃ c', OnLast s (before ++ x :: xs) rest c' ∧
      c.run [narrow, member] = (String.ofList (x :: xs), c'.look) := by
  obtain ⟨c', hc, he⟩ := h.onLast.skipWhile_twice hn hx hr
  have hc : OnLast s (before ++ x :: xs) rest c' := by simpa using hc
  refine ⟨c', hc, ?_⟩
  simp only [run, List.foldl_cons, List.foldl_nil, he, h.run_text hc]

end

section
variable {opener closer : Char}

theorem On.rawLoop (h : On s before x after c) (hs : x :: after = body ++ closer :: rest)
    (hb : closer ∉ body) : On s (before ++ body) closer rest (c.rawLoop closer) := by
  induction body generalizing before x after c with
  | nil =>
    obtain ⟨rfl, rfl⟩ := List.cons.inj hs
    rw [Cursor.rawLoop]
    simpa [h.currentChar, CodePoint.is] using h
  | cons y ys ih =>
    obtain ⟨rfl, rfl⟩ := List.cons.inj hs
    have hx : x ≠ closer := fun he => hb (by simp [he])
    rw [Cursor.rawLoop]
    obtain ⟨z, zs, hz, ha⟩ := h.advance_cons (by simp)
    have hr := ih ha hz.symm fun hm => hb (by simp [hm])
    simpa [h.more, h.currentChar, CodePoint.is, hx] using hr

theorem On.rawLoop_spent (h : On s before x after c) (hn : closer ∉ x :: after) :
    Spent s (c.rawLoop closer) := by
  induction after generalizing before x c with
  | nil =>
    have hx : x ≠ closer := fun he => hn (by simp [he])
    have ha : Spent s c.advance := h.advance_spent
    rw [Cursor.rawLoop]
    simp only [h.more, h.currentChar, CodePoint.is, CodePoint.char.injEq, hx, decide_false, Bool.not_false,
      Bool.and_self, dite_true]
    rw [Cursor.rawLoop]
    simpa [ha.more] using ha
  | cons y ys ih =>
    have hx : x ≠ closer := fun he => hn (by simp [he])
    have hr := ih h.advance fun hm => hn (List.mem_cons_of_mem x hm)
    rw [Cursor.rawLoop]
    simpa [h.more, h.currentChar, CodePoint.is, hx] using hr

theorem On.raw (h : On s before opener (body ++ closer :: rest) c) (hb : closer ∉ body) :
    ∃ c', On s (before ++ opener :: body) closer rest c' ∧
      c.raw opener closer = (String.ofList body, c') := by
  have ht : c.take [opener] = c.advance := h.take (by simp)
  obtain ⟨y, ys, hy, ha⟩ := h.advance_cons (by simp)
  have hl : On s (before ++ [opener] ++ body) closer rest (c.advance.rawLoop closer) :=
    ha.rawLoop hy.symm hb
  refine ⟨c.advance.rawLoop closer, by simpa using hl, ?_⟩
  simp [Cursor.raw, ht, hl.currentChar, CodePoint.is, ha.offset, hl.since]

/-- Text that is never closed is read to the end. -/
theorem On.raw_open (h : On s before opener after c) (hn : closer ∉ after) :
    ∃ c', Spent s c' ∧ c.raw opener closer = (s.unclosed after, c'.unterminated opener c'.current) := by
  have ht : c.take [opener] = c.advance := h.take (by simp)
  have hraw {c' : Cursor} (hl : c.advance.rawLoop closer = c') (hc : Spent s c') :
      c.raw opener closer = (c'.since c.advance.offset, c'.unterminated opener c'.current) := by
    simp [Cursor.raw, ht, hl, hc.current, CodePoint.is, Cursor.unterminated, since_fail]
  rcases h.advance_cases with ⟨y, ys, rfl, ha⟩ | ⟨rfl, ha⟩
  · have hl : Spent s (c.advance.rawLoop closer) := ha.rawLoop_spent hn
    refine ⟨_, hl, ?_⟩
    rw [hraw rfl hl, ha.offset, hl.since ha.sourceText, SourceText.unclosed, if_neg (List.cons_ne_nil y ys)]
  · have hl : c.advance.rawLoop closer = c.advance := by
      rw [Cursor.rawLoop]
      simp [ha.more]
    exact ⟨_, ha, by rw [hraw hl ha, since_offset]; rfl⟩

end

section
variable {opener quote : Char} {done sofar : List Char} {copy : Option String} {first : Nat}

theorem isEscaped_char (x : Char) (ahead : CodePoint) (quote : Char) :
    (CodePoint.char x).isEscaped ahead [quote] = true ↔ x = '\x5c' ∧ ahead = .char quote := by
  cases ahead <;> simp [CodePoint.isEscaped, CodePoint.is, CodePoint.isAny, CodePoint.char?]

theorem text_char (x : Char) : (CodePoint.char x).text = String.ofList [x] := String.singleton_eq_ofList

/-- The copy holds what is read of the literal, or there is none and nothing was escaped yet. -/
def Copied (copy : Option String) (done sofar : List Char) : Prop :=
  copy = none ∧ done = sofar ∨ copy = some (String.ofList sofar)

theorem Copied.getD_eq (hk : Copied copy done sofar) {text : String} (ht : text = String.ofList done) :
    copy.getD text = String.ofList sofar := by
  rcases hk with ⟨rfl, rfl⟩ | rfl
  · exact ht
  · rfl

theorem Copied.step (hk : Copied copy done sofar) (x : Char) :
    Copied (copy.map (· ++ (CodePoint.char x).text)) (done ++ [x]) (sofar ++ [x]) := by
  rcases hk with ⟨rfl, rfl⟩ | rfl
  · exact .inl ⟨rfl, rfl⟩
  · refine .inr ?_
    rw [Option.map_some, text_char, ← String.ofList_append]

theorem On.quotedLoop_escape (h : On s before '\x5c' (quote :: after) c) (first : Nat)
    (copy : Option String) : ∃ d, On s (before ++ ['\x5c']) quote after d ∧
      c.quotedLoop quote [] first copy =
        d.advance.quotedLoop quote [] first (some (copy.getD (c.since first) ++ (CodePoint.char quote).text)) := by
  have hl : On s before '\x5c' (quote :: after) c.look := h.look (by simp)
  have ht : c.look.take ['\x5c'] = c.look.advance := hl.take (by simp)
  have ha : c.look.ahead = .char quote := h.ahead_look
  refine ⟨c.look.advance, hl.advance, ?_⟩
  rw [Cursor.quotedLoop]
  simp [h.more, h.currentChar, ha, isEscaped_char, ht, hl.advance.currentChar, since_look]

theorem On.quotedLoop_close (hq : quote ≠ '\x5c') (h : On s before quote after c) (first : Nat)
    (copy : Option String) :
    c.quotedLoop quote [] first copy = (copy.getD (c.since first), c.look) := by
  have hn : (CodePoint.char quote).isEscaped c.look.ahead [quote] = false :=
    Bool.eq_false_iff.2 fun he => hq ((isEscaped_char ..).1 he).1
  have hn' : (CodePoint.char quote).isEscaped c.look.ahead [] = false := by
    cases c.look.ahead <;> simp [CodePoint.isEscaped, CodePoint.isAny, CodePoint.char?]
  rw [Cursor.quotedLoop]
  simp [h.more, h.currentChar, hn, hn', CodePoint.is, since_look]

theorem On.quotedLoop_step (h : On s before x after c) (hx : x ≠ quote)
    (hn : x = '\x5c' → after.head? ≠ some quote) (first : Nat) (copy : Option String) :
    c.quotedLoop quote [] first copy =
      c.look.advance.quotedLoop quote [] first (copy.map (· ++ (CodePoint.char x).text)) := by
  have he : (CodePoint.char x).isEscaped c.look.ahead [quote] = false := by
    refine Bool.eq_false_iff.2 fun he => ?_
    obtain ⟨hb, ha⟩ := (isEscaped_char ..).1 he
    rw [h.ahead_look] at ha
    cases after with
    | nil => simp [CodePoint.ofHead] at ha
    | cons y ys => exact hn hb (by simpa [CodePoint.ofHead] using ha)
  have he' : (CodePoint.char x).isEscaped c.look.ahead [] = false := by
    cases c.look.ahead <;> simp [CodePoint.isEscaped, CodePoint.isAny, CodePoint.char?]
  conv => lhs; rw [Cursor.quotedLoop]
  simp [h.more, h.currentChar, he, he', CodePoint.is, hx]

/-- The loop gives the rest of a literal and stops on its closing quote. -/
theorem On.quotedLoop {pre : List Char} (hq : quote ≠ '\x5c') (h : On s (pre ++ done) x after c)
    (hc : Closes quote literal rest (x :: after)) (hk : Copied copy done sofar) :
    ∃ c', On s (pre ++ done ++ escape quote literal) quote rest c' ∧
      c.quotedLoop quote [] (s.place pre) copy = (String.ofList (sofar ++ literal), c'.look) := by
  induction literal generalizing done x after c copy sofar with
  | nil =>
    obtain ⟨rfl, rfl⟩ := List.cons.inj hc.split
    refine ⟨c, by simpa using h, ?_⟩
    rw [h.quotedLoop_close hq, hk.getD_eq h.since, List.append_nil]
  | cons y literal ih =>
    rcases hc.cases hq with ⟨hn, -⟩ | ⟨inner, more, hl, hs, hmore⟩ | ⟨z, inner, more, hl, hs, hx, hb, hmore⟩
    · cases hn
    · obtain ⟨rfl, rfl⟩ := List.cons.inj hl
      obtain ⟨rfl, rfl⟩ := List.cons.inj hs
      obtain ⟨d, hd, he⟩ := h.quotedLoop_escape (s.place pre) copy
      obtain ⟨z, zs, rfl, ha⟩ := hd.advance_cons (by simp [hmore.split])
      have ha : On s (pre ++ (done ++ ['\x5c', y])) z zs d.advance := by simpa using ha
      have hk' : Copied (some (copy.getD (c.since (s.place pre)) ++ (CodePoint.char y).text))
          (done ++ ['\x5c', y]) (sofar ++ [y]) := by
        rw [hk.getD_eq h.since, text_char, ← String.ofList_append]
        exact .inr rfl
      obtain ⟨c', hc', hr⟩ := ih ha hmore hk'
      refine ⟨c', by simpa [escape_cons_quote] using hc', ?_⟩
      rw [he, hr, ← List.append_cons]
    · obtain ⟨rfl, rfl⟩ := List.cons.inj hl
      obtain ⟨rfl, rfl⟩ := List.cons.inj hs
      have he := h.quotedLoop_step hx hb (s.place pre) copy
      have hne : after ≠ [] := by simp [hmore.split]
      have hlook := h.look fun hn => absurd hn hne
      obtain ⟨w, ws, rfl, ha⟩ := hlook.advance_cons hne
      have ha : On s (pre ++ (done ++ [x])) w ws c.look.advance := by simpa using ha
      obtain ⟨c', hc', hr⟩ := ih ha hmore (hk.step x)
      refine ⟨c', by simpa [escape_cons_of_ne hx] using hc', ?_⟩
      rw [he, hr, ← List.append_cons]

theorem Spent.quotedLoop (h : Spent s c) (quote : Char) (first : Nat) (copy : Option String) :
    c.quotedLoop quote [] first copy = (copy.getD (c.since first), c.unterminated quote c.current) := by
  rw [Cursor.quotedLoop]
  simp [h.more, Cursor.unterminated, since_fail]

/-- A literal that is not closed: what can be read, or the text that is read with its escapes resolved. -/
inductive LeftOpen (s : SourceText) (quote : Char) (done : List Char) (literal : String) : Prop where
  | plain (hl : literal = s.unclosed done)
  | unescaped {cs} (hl : literal = String.ofList cs) (hc : escape quote cs = done)

theorem Copied.leftOpen {pre : List Char} (hk : Copied copy done sofar) (he : escape quote sofar = done)
    (hn : done ≠ []) (hc : Spent s c) (ht : s.text = pre ++ done) :
    LeftOpen s quote done (copy.getD (c.since (s.place pre))) := by
  rcases hk with ⟨rfl, rfl⟩ | rfl
  · exact .plain ((hc.since ht).trans (if_neg hn).symm)
  · exact .unescaped rfl he

/-- A literal whose closing quote is missing is read to the end. -/
theorem On.quotedLoop_open {pre : List Char} (hq : quote ≠ '\x5c') (h : On s (pre ++ done) x after c)
    (hn : ∀ literal rest, ¬ Closes quote literal rest (x :: after)) (hk : Copied copy done sofar)
    (he : escape quote sofar = done) : ∃ c' literal, Spent s c' ∧ LeftOpen s quote (done ++ x :: after) literal ∧
      c.quotedLoop quote [] (s.place pre) copy = (literal, c'.unterminated quote c'.current) := by
  induction hl : after.length using Nat.strongRecOn generalizing done sofar x after c copy with
  | ind n ih =>
    have hx : x ≠ quote := by rintro rfl; exact hn _ _ (Closes.nil x after)
    by_cases hb : x = '\x5c' ∧ after.head? = some quote
    · obtain ⟨rfl, hh⟩ := hb
      obtain ⟨after, rfl⟩ := List.head?_eq_some_iff.1 hh
      obtain ⟨d, hd, hloop⟩ := h.quotedLoop_escape (s.place pre) copy
      have hk' : Copied (some (copy.getD (c.since (s.place pre)) ++ (CodePoint.char quote).text))
          (done ++ ['\x5c', quote]) (sofar ++ [quote]) := by
        rw [hk.getD_eq h.since, text_char, ← String.ofList_append]
        exact .inr rfl
      have he' : escape quote (sofar ++ [quote]) = done ++ ['\x5c', quote] := by
        rw [escape_append, he, escape_cons_quote, escape_nil]
      rw [hloop]
      rcases hd.advance_cases with ⟨y, ys, rfl, ha⟩ | ⟨rfl, ha⟩
      · have ha : On s (pre ++ (done ++ ['\x5c', quote])) y ys d.advance := by simpa using ha
        obtain ⟨c', literal, hc, hopen, hr⟩ :=
          ih ys.length (by simp at hl; omega) ha (fun _ _ hc => hn _ _ (hc.cons_quote hq)) hk' he' rfl
        exact ⟨c', literal, hc, by simpa using hopen, hr⟩
      · have ht : s.text = pre ++ (done ++ ['\x5c', quote]) := by simp [h.sourceText]
        exact ⟨d.advance, _, ha, hk'.leftOpen he' (by simp) ha ht, ha.quotedLoop quote _ _⟩
    · have hb : x = '\x5c' → after.head? ≠ some quote := fun h1 h2 => hb ⟨h1, h2⟩
      have he' : escape quote (sofar ++ [x]) = done ++ [x] := by
        rw [escape_append, he, escape_cons_of_ne hx, escape_nil]
      rw [h.quotedLoop_step hx hb]
      cases after with
      | nil =>
        have ha : Spent s c.look.advance := h.advance_look_spent
        have ht : s.text = pre ++ (done ++ [x]) := by simp [h.sourceText]
        exact ⟨c.look.advance, _, ha, (hk.step x).leftOpen he' (by simp) ha ht, ha.quotedLoop quote _ _⟩
      | cons y ys =>
        have ha : On s (pre ++ (done ++ [x])) y ys c.look.advance := by simpa using (h.look (by simp)).advance
        obtain ⟨c', literal, hc, hopen, hr⟩ :=
          ih ys.length (by simp at hl; omega) ha (fun _ _ hc => hn _ _ (hc.cons_of_ne hx hb)) (hk.step x) he' rfl
        exact ⟨c', literal, hc, by simpa using hopen, hr⟩

theorem On.quoted (hq : quote ≠ '\x5c') (h : On s before opener after c)
    (hc : Closes quote literal rest after) :
    ∃ c', On s (before ++ opener :: escape quote literal) quote rest c' ∧
      c.quoted opener quote [] = (String.ofList literal, c'.look) := by
  have ht : c.take [opener] = c.advance := h.take (by simp)
  obtain ⟨y, ys, rfl, ha⟩ := h.advance_cons (by simp [hc.split])
  have hb : On s (before ++ [opener] ++ []) y ys c.advance := by simpa using ha
  obtain ⟨c', hc', he⟩ := hb.quotedLoop hq hc (.inl ⟨rfl, rfl⟩)
  refine ⟨c', by simpa using hc', ?_⟩
  simp [Cursor.quoted, ht, ha.offset, he]

theorem On.quoted_open (hq : quote ≠ '\x5c') (h : On s before opener after c)
    (hn : ∀ literal rest, ¬ Closes quote literal rest after) :
    ∃ c' literal, Spent s c' ∧ LeftOpen s quote after literal ∧
      c.quoted opener quote [] = (literal, c'.unterminated quote c'.current) := by
  have ht : c.take [opener] = c.advance := h.take (by simp)
  rcases h.advance_cases with ⟨y, ys, rfl, ha⟩ | ⟨rfl, ha⟩
  · have hb : On s (before ++ [opener] ++ []) y ys c.advance := by simpa using ha
    obtain ⟨c', literal, hc, hopen, hr⟩ := hb.quotedLoop_open hq hn (.inl ⟨rfl, rfl⟩) rfl
    exact ⟨c', literal, hc, hopen, by simpa [Cursor.quoted, ht, ha.offset] using hr⟩
  · refine ⟨c.advance, "", ha, .plain rfl, ?_⟩
    simp only [Cursor.quoted, ht, ha.quotedLoop, Option.getD_none, since_offset]

end

section
variable {opener closer : Char} {d : Int}

theorem On.balancedLoop_close (h : On s before closer after c) (opener : Char) (first : Nat) :
    c.balancedLoop opener closer first 1 = (c.since first, c) := by
  rw [Cursor.balancedLoop]
  simp [h.more, h.currentChar, CodePoint.is]

theorem On.balancedLoop_step (ho : opener ≠ closer) (h : On s before x after c)
    (hx : ¬ (x = closer ∧ d = 1)) (first : Nat) :
    c.balancedLoop opener closer first d =
      c.advance.balancedLoop opener closer first (d + depth opener closer [x]) := by
  conv => lhs; rw [Cursor.balancedLoop]
  by_cases hc : x = closer
  · have hd : ¬ d - 1 = 0 := fun hd => hx ⟨hc, by omega⟩
    have hm : d + -1 = d - 1 := rfl
    simp [h.more, h.currentChar, CodePoint.is, hc, hd, depth_closer ho, hm]
  · by_cases hp : x = opener
    · subst hp
      simp [h.more, h.currentChar, CodePoint.is, hc, depth_opener ho]
    · simp [h.more, h.currentChar, CodePoint.is, hc, hp, depth_other hp hc]

theorem On.balancedLoop {pre done : List Char} (ho : opener ≠ closer) (h : On s (pre ++ done) x after c)
    (hs : x :: after = body ++ closer :: rest) (hi : Inside opener closer d body)
    (hb : d + depth opener closer body = 1) :
    ∃ c', On s (pre ++ done ++ body) closer rest c' ∧
      c.balancedLoop opener closer (s.place pre) d = (String.ofList (done ++ body), c') := by
  induction body generalizing done x after c d with
  | nil =>
    obtain ⟨rfl, rfl⟩ := List.cons.inj hs
    obtain rfl : d = 1 := by simpa using hb
    exact ⟨c, by simpa using h, by rw [h.balancedLoop_close, h.since, List.append_nil]⟩
  | cons y ys ih =>
    obtain ⟨rfl, rfl⟩ := List.cons.inj hs
    obtain ⟨-, hi⟩ := inside_cons.1 hi
    rw [depth_cons, ← Int.add_assoc] at hb
    have hx : ¬ (x = closer ∧ d = 1) := by
      rintro ⟨rfl, rfl⟩
      have := hi [] List.nil_prefix
      rw [depth_closer ho] at this
      simp at this
    obtain ⟨z, zs, hz, ha⟩ := h.advance_cons (by simp)
    have ha : On s (pre ++ (done ++ [x])) z zs c.advance := by simpa using ha
    obtain ⟨c', hc, he⟩ := ih ha hz.symm hi hb
    refine ⟨c', by simpa using hc, ?_⟩
    rw [h.balancedLoop_step ho hx, he, ← List.append_cons]

theorem Spent.balancedLoop (h : Spent s c) (opener closer : Char) (first : Nat) (d : Int) :
    c.balancedLoop opener closer first d =
      (c.since first, c.unbalanced opener closer c.current d) := by
  rw [Cursor.balancedLoop]
  simp only [h.more, Bool.false_eq_true, dite_false]
  rw [Cursor.unbalanced, since_fail]

theorem On.balancedLoop_open (ho : opener ≠ closer) (h : On s before x after c)
    (hi : Inside opener closer d (x :: after)) (first : Nat) :
    ∃ c', Spent s c' ∧ c.balancedLoop opener closer first d =
      (c'.since first, c'.unbalanced opener closer c'.current (d + depth opener closer (x :: after))) := by
  induction after generalizing before x c d with
  | nil =>
    have hx : ¬ (x = closer ∧ d = 1) := by
      rintro ⟨rfl, rfl⟩
      have := hi [x] List.prefix_rfl
      rw [depth_closer ho] at this
      omega
    rw [h.balancedLoop_step ho hx]
    exact ⟨c.advance, h.advance_spent, h.advance_spent.balancedLoop ..⟩
  | cons y ys ih =>
    have hx : ¬ (x = closer ∧ d = 1) := by
      rintro ⟨rfl, rfl⟩
      have := hi [x] (List.cons_prefix_cons.2 ⟨rfl, List.nil_prefix⟩)
      rw [depth_closer ho] at this
      omega
    have hd : d + depth opener closer (x :: y :: ys) =
        d + depth opener closer [x] + depth opener closer (y :: ys) := by
      rw [Int.add_assoc, ← depth_cons]
    rw [h.balancedLoop_step ho hx, hd]
    exact ih h.advance (inside_cons.1 hi).2

theorem On.balanced (ho : opener ≠ closer) (h : On s before opener (body ++ closer :: rest) c)
    (hb : Balanced opener closer body) :
    ∃ c', On s (before ++ opener :: body) closer rest c' ∧
      c.balanced opener closer = (String.ofList body, c') := by
  have ht : c.take [opener] = c.advance := h.take (by simp)
  obtain ⟨hi, hd⟩ := balanced_iff.1 hb
  obtain ⟨y, ys, hy, ha⟩ := h.advance_cons (by simp)
  have hn : On s (before ++ [opener] ++ []) y ys c.advance := by simpa using ha
  obtain ⟨c', hc, he⟩ := hn.balancedLoop ho hy.symm hi hd
  refine ⟨c', by simpa using hc, ?_⟩
  simp [Cursor.balanced, ht, ha.offset, he]

/-- Nested text that is never closed is read to the end. -/
theorem On.balanced_open (ho : opener ≠ closer) (h : On s before opener after c) (hi : Inside opener closer 1 after) :
    ∃ c', Spent s c' ∧ c.balanced opener closer =
      (s.unclosed after, c'.unbalanced opener closer c'.current (1 + depth opener closer after)) := by
  have ht : c.take [opener] = c.advance := h.take (by simp)
  rcases h.advance_cases with ⟨y, ys, rfl, ha⟩ | ⟨rfl, ha⟩
  · obtain ⟨c', hc, he⟩ := ha.balancedLoop_open ho hi (s.place (before ++ [opener]))
    refine ⟨c', hc, ?_⟩
    simp only [Cursor.balanced, ht, ha.offset, he]
    rw [hc.since ha.sourceText, SourceText.unclosed, if_neg (List.cons_ne_nil y ys)]
  · refine ⟨c.advance, ha, ?_⟩
    simp only [Cursor.balanced, ht, ha.balancedLoop, since_offset, depth_nil]
    rfl

end

end
end RoutePattern.Cursor
