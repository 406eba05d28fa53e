import RoutePattern.Proofs.ScanRuns

/-!
# Illegal input

What cannot be read as legal characters one by one has a first place in the bytes. A scan of such a pattern
fails there, or in front of it with text that is unexpected or ambiguous.
-/
namespace RoutePattern
open Utf8 (encode size first?)

/-- Text without a NUL, and with a byte order marker only in front. -/
def Admitted (text : List Char) : Prop := '\x00' ∉ text ∧ CodePoint.byteOrderMark ∉ text.tail

/-- The first place of a pattern that is not legal, as the failure that is reported there. -/
inductive IllegalAt (pattern : List UInt8) : Failure → Prop where
  | encoding {before rest} (hp : pattern = encode before ++ rest) (hb : Admitted before) (hr : rest ≠ [])
      (hf : first? rest = none) : IllegalAt pattern (.illegalEncoding (size before))
  | nul {before rest} (hp : pattern = encode before ++ rest) (hb : Admitted before)
      (hf : first? rest = some '\x00') : IllegalAt pattern (.illegalNul (size before))
  | marker {before rest} (hp : pattern = encode before ++ rest) (hb : Admitted before) (hn : before ≠ [])
      (hf : first? rest = some CodePoint.byteOrderMark) : IllegalAt pattern (.illegalMarker (size before))

namespace Failure

def isIllegal : Failure → Bool
  | illegalEncoding _ | illegalNul _ | illegalMarker _ => true
  | _ => false

/-- The failures of text that can be read but not understood. -/
def isLexical : Failure → Bool
  | unexpected .. | ambiguous .. => true
  | _ => false

end Failure

/-- No character can be read that may stand behind the text. -/
def Stuck (text : List Char) (rest : List UInt8) : Prop :=
  ∀ c, first? rest = some c → ¬ Admitted (text ++ [c])

section
variable {text more : List Char} {rest rest' : List UInt8}

theorem Admitted.of_append (h : Admitted (text ++ more)) : Admitted text := by
  refine ⟨fun hm => h.1 (List.mem_append_left _ hm), fun hm => h.2 ?_⟩
  cases text with
  | nil => cases hm
  | cons c text => exact List.mem_append_left _ hm

theorem not_admitted_nul (text : List Char) : ¬ Admitted (text ++ ['\x00']) := fun h => h.1 (by simp)

theorem not_admitted_marker (hn : text ≠ []) : ¬ Admitted (text ++ [CodePoint.byteOrderMark]) := by
  intro h
  refine h.2 ?_
  rw [List.tail_append_of_ne_nil hn]
  exact List.mem_append_right _ (by simp)

theorem Stuck.of_none (hf : first? rest = none) : Stuck text rest := by
  intro c hc
  rw [hf] at hc
  cases hc

theorem Stuck.of_some {c : Char} (hf : first? rest = some c) (h : ¬ Admitted (text ++ [c])) : Stuck text rest := by
  intro d hd
  obtain rfl : c = d := Option.some.inj (hf.symm.trans hd)
  exact h

theorem Stuck.not_admitted {c : Char} (h : Stuck text rest) (hr : rest = encode (c :: more) ++ rest') :
    ¬ Admitted (text ++ c :: more) := by
  intro ha
  rw [List.append_cons] at ha
  refine h c ?_ ha.of_append
  rw [hr, Utf8.first?_encode_cons]

/-- Reading goes as far as possible in one way only. -/
theorem Stuck.unique {text' : List Char} (h : encode text ++ rest = encode text' ++ rest')
    (ha : Admitted text) (ha' : Admitted text') (hs : Stuck text rest) (hs' : Stuck text' rest') :
    text = text' ∧ rest = rest' := by
  rcases Utf8.encode_append_eq h with ⟨more, rfl, hr⟩ | ⟨more, rfl, hr⟩
  · cases more with
    | nil => exact ⟨(List.append_nil _).symm, hr⟩
    | cons c more => exact absurd ha' (hs.not_admitted hr)
  · cases more with
    | nil => exact ⟨List.append_nil _, hr.symm⟩
    | cons c more => exact absurd ha (hs'.not_admitted hr)

end

namespace SourceText

section
variable (s : SourceText) {e : Failure}

theorem admitted : Admitted (s.lead ++ s.text) := by
  have hnul : '\x00' ∉ s.text := fun hm => (s.legal _ hm).1 rfl
  have hmark : CodePoint.byteOrderMark ∉ s.text := fun hm => (s.legal _ hm).2 rfl
  have hne : '\x00' ≠ CodePoint.byteOrderMark := by decide
  cases hl : s.marked with
  | true => exact ⟨by simp [lead, hl, hnul, hne], by simpa [lead, hl] using hmark⟩
  | false => exact ⟨by simpa [lead, hl] using hnul, fun hm => hmark (List.mem_of_mem_tail (by simpa [lead, hl] using hm))⟩

/-- What can be read where the text ends is a NUL, or a byte order marker that is not first. -/
theorem first?_rest {c : Char} (hc : first? s.rest = some c) :
    c = '\x00' ∨ c = CodePoint.byteOrderMark ∧ s.lead ++ s.text ≠ [] := by
  have hp : String.utf8EncodeChar c <+: s.rest := Utf8.first?_eq_some_iff.1 hc
  by_cases hnul : c = '\x00'
  · exact .inl hnul
  · have hmark : c = CodePoint.byteOrderMark :=
      Decidable.byContradiction fun hm => s.barred c ⟨hnul, hm⟩ hp
    refine .inr ⟨hmark, fun hempty => ?_⟩
    obtain ⟨hlead, htext⟩ := List.append_eq_nil_iff.1 hempty
    cases hm : s.marked with
    | true => simp [lead, hm] at hlead
    | false => exact s.unmarked hm htext (hmark ▸ hp)

theorem stuck : Stuck (s.lead ++ s.text) s.rest := by
  intro c hc
  rcases s.first?_rest hc with rfl | ⟨rfl, hn⟩
  · exact not_admitted_nul _
  · exact not_admitted_marker hn

theorem rest_ne_nil {c : Char} (hf : first? s.rest = some c) : s.rest ≠ [] := by
  intro hr
  rw [hr, Utf8.first?_nil] at hf
  cases hf

theorem obstacle_of_illegalAt (h : IllegalAt s.bytes e) : s.obstacle = some e := by
  have hunique {before : List Char} {rest : List UInt8} (hp : s.bytes = encode before ++ rest)
      (hb : Admitted before) (hs : Stuck before rest) : s.lead ++ s.text = before ∧ s.rest = rest :=
    s.stuck.unique hp s.admitted hb hs
  cases h with
  | encoding hp hb hr hf =>
    obtain ⟨rfl, rfl⟩ := hunique hp hb (.of_none hf)
    simp [obstacle, hr, hf, place]
  | nul hp hb hf =>
    obtain ⟨rfl, rfl⟩ := hunique hp hb (.of_some hf (not_admitted_nul _))
    simp [obstacle, s.rest_ne_nil hf, hf, place]
  | marker hp hb hn hf =>
    obtain ⟨rfl, rfl⟩ := hunique hp hb (.of_some hf (not_admitted_marker hn))
    have hne : CodePoint.byteOrderMark ≠ '\x00' := by decide
    simp [obstacle, s.rest_ne_nil hf, hf, place, hne]

theorem illegalAt_of_obstacle (h : s.obstacle = some e) : IllegalAt s.bytes e := by
  unfold obstacle at h
  split at h
  · cases h
  · rename_i hr
    cases hf : first? s.rest with
    | none =>
      rw [hf] at h
      cases h
      exact .encoding rfl s.admitted hr hf
    | some c =>
      rw [hf] at h
      rcases s.first?_rest hf with rfl | ⟨rfl, hn⟩
      · cases h
        exact .nul rfl s.admitted hf
      · cases h
        exact .marker rfl s.admitted hn hf

/-- The first illegal place is where the text ends. -/
theorem illegalAt_iff : IllegalAt s.bytes e ↔ s.obstacle = some e :=
  ⟨s.obstacle_of_illegalAt, s.illegalAt_of_obstacle⟩

theorem offset_obstacle (h : s.obstacle = some e) : e.offset = s.place s.text := by
  unfold obstacle at h
  split at h
  · cases h
  · cases h
    split
    · rfl
    · split <;> rfl

theorem place_lt {before after : List Char} {x : Char} (h : s.text = before ++ x :: after) :
    s.place before < s.place s.text := by
  have := x.utf8Size_pos
  rw [h, place_append, Utf8.size_cons]
  omega

end

section
variable {s : SourceText} {e : Failure}

theorem isIllegal_obstacle (h : s.obstacle = some e) : e.isIllegal = true := by
  cases s.illegalAt_of_obstacle h <;> rfl

/-- In front of what ends the text, failures are of text that can be read. -/
theorem Flaw.eq_or_lexical {f : Failure} (h : s.Flaw f) (he : s.obstacle = some e) :
    f = e ∨ f.isLexical = true ∧ f.offset < e.offset := by
  have hbefore {before after : List Char} {x : Char} (ht : s.text = before ++ x :: after) :
      s.place before < e.offset := by
    rw [s.offset_obstacle he]
    exact s.place_lt ht
  cases h with
  | obstacle hf => exact .inl (Option.some.inj (hf.symm.trans he))
  | unreadable ht | unclosed ht | undecided ht => exact .inr ⟨rfl, hbefore ht⟩
  | unclosedEnd ho | unterminated ho | unbalanced ho => cases ho.symm.trans he

theorem Flaw.not_illegal {f : Failure} (h : s.Flaw f) (ho : s.obstacle = none) : f.isIllegal = false := by
  cases h with
  | obstacle hf => cases ho.symm.trans hf
  | _ => rfl

end
end SourceText

/-- Illegal input is never accepted, and no legal input is called illegal. -/
theorem scan_illegal_input (pattern : List UInt8) :
    (∀ e, IllegalAt pattern e →
      ∃ f, scan pattern = .error f ∧ (f = e ∨ f.isLexical = true ∧ f.offset < e.offset)) ∧
    ((∀ e, ¬ IllegalAt pattern e) → ∀ f, scan pattern = .error f → f.isIllegal = false) := by
  obtain ⟨s, rfl⟩ := SourceText.exists_bytes pattern
  simp only [s.illegalAt_iff]
  rcases scan_cases s with ⟨ks, -, -, ho, hscan⟩ | ⟨f, hscan, hflaw⟩
  · refine ⟨fun e he => ?_, fun _ f hf => ?_⟩
    · cases ho.symm.trans he
    · cases hscan.symm.trans hf
  · refine ⟨fun e he => ⟨f, hscan, hflaw.eq_or_lexical he⟩, fun hn g hg => ?_⟩
    obtain rfl : f = g := Except.error.inj (hscan.symm.trans hg)
    exact hflaw.not_illegal (Option.eq_none_iff_forall_ne_some.2 hn)

theorem scan_illegal_input_nul : ∃ f,
    scan (encode "/a\x00('".toList) = .error f ∧ (f = .illegalNul 2 ∨ f.isLexical = true ∧ f.offset < 2) := by
  have hillegal : IllegalAt (encode "/a\x00('".toList) (.illegalNul (size ['/', 'a'])) :=
    @IllegalAt.nul _ ['/', 'a'] (encode "\x00('".toList) rfl ⟨by decide, by decide⟩ (by decide +kernel)
  exact (scan_illegal_input _).1 _ hillegal

end RoutePattern
