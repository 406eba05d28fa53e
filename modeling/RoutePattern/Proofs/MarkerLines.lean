import RoutePattern.OffsetMarkers
import RoutePattern.Proofs.EncodedText

/-!
# Which character a marker line marks

A line has one place for each character of its text. The character that holds the byte is marked, the first one
with a mark of its own, and an offset past the end is shown in the last place.
-/
namespace RoutePattern
open Utf8 (size)

namespace Marker

/-- The line that marks what stands behind some text. -/
def lineAt (m : Marker) (here : Char) : List Char → List Char → List Char
  | [], [] => []
  | [], _ :: after => here :: List.replicate after.length m.line
  | _ :: before, [] => List.replicate before.length m.line ++ [m.overflow]
  | _ :: before, _ :: after => List.replicate (before.length + 1) m.line ++ m.mark :: List.replicate after.length m.line

section
variable {m : Marker} {x : Char} {before after : List Char} {offset : Nat}

/-- The rest of a line behind a character that is not marked is the line for what stands behind the character. -/
theorem drawFrom_cons {here : Char} (ht : after ≠ []) (h : x.utf8Size ≤ offset) :
    m.drawFrom here (x :: after) offset = m.line :: m.drawFrom m.mark after (offset - x.utf8Size) := by
  obtain ⟨y, ys, rfl⟩ := List.exists_cons_of_ne_nil ht
  rw [drawFrom, if_neg (Nat.not_lt.2 h)]
  exact (List.cons_ne_nil y ys).elim

/-- Every byte of a character marks it. -/
theorem drawFrom_of_lt (here : Char) (hl : size before ≤ offset) (hr : offset < size before + x.utf8Size) :
    m.drawFrom here (before ++ x :: after) offset = m.lineAt here before (x :: after) := by
  induction before generalizing here offset with
  | nil =>
    have hx : offset < x.utf8Size := by simpa using hr
    cases after <;> simp [drawFrom, lineAt, hx]
  | cons y before ih =>
    rw [Utf8.size_cons] at hl hr
    rw [List.cons_append, drawFrom_cons (by simp) (by omega), ih m.mark (by omega) (by omega)]
    cases before <;> rfl

/-- Past the end the last place is marked. -/
theorem drawFrom_of_le (here : Char) (h : size before ≤ offset) :
    m.drawFrom here before offset = m.lineAt here before [] := by
  induction before generalizing here offset with
  | nil => rfl
  | cons y before ih =>
    rw [Utf8.size_cons] at h
    by_cases hb : before = []
    · subst hb
      have hy : ¬ offset < y.utf8Size := by omega
      simp [drawFrom, lineAt, hy]
    · rw [drawFrom_cons hb (by omega), ih m.mark (by omega)]
      obtain ⟨z, zs, rfl⟩ := List.exists_cons_of_ne_nil hb
      rfl

theorem drawFrom_size (here : Char) :
    m.drawFrom here (before ++ after) (size before) = m.lineAt here before after := by
  cases after with
  | nil =>
    rw [List.append_nil]
    exact drawFrom_of_le here (Nat.le_refl _)
  | cons x after => exact drawFrom_of_lt here (Nat.le_refl _) (Nat.lt_add_of_pos_right x.utf8Size_pos)

theorem length_drawFrom (here : Char) (cs : List Char) (offset : Nat) :
    (m.drawFrom here cs offset).length = cs.length := by
  induction cs generalizing here offset with
  | nil => rfl
  | cons c cs ih =>
    cases cs with
    | nil => rfl
    | cons d ds =>
      rw [drawFrom]
      · split
        · simp
        · simp [ih]
      · exact List.cons_ne_nil d ds

theorem mem_drawFrom {here x : Char} {cs : List Char} {offset : Nat} (h : x ∈ m.drawFrom here cs offset) :
    x = here ∨ x ∈ [m.mark, m.line, m.overflow] := by
  induction cs generalizing here offset with
  | nil => cases h
  | cons c cs ih =>
    cases cs with
    | nil =>
      rw [drawFrom, List.mem_singleton] at h
      split at h
      · exact .inl h
      · exact .inr (by simp [h])
    | cons d ds =>
      rw [drawFrom] at h
      · split at h
        · rcases List.mem_cons.1 h with rfl | h
          · exact .inl rfl
          · exact .inr (by simp [List.eq_of_mem_replicate h])
        · rcases List.mem_cons.1 h with rfl | h
          · exact .inr (by simp)
          · rcases ih h with rfl | h
            · exact .inr (by simp)
            · exact .inr h
      · exact List.cons_ne_nil d ds

theorem length_draw (m : Marker) (pattern : String) (offset : Nat) :
    (m.draw pattern offset).length = pattern.length := by
  rw [draw, String.length_ofList, length_drawFrom, String.length_toList]

end

/-- The bytes of the character at the index contain the offset. -/
def HoldsByte (cs : List Char) (offset index : Nat) : Prop :=
  size (cs.take index) ≤ offset ∧ offset < size (cs.take (index + 1))

/-- How many characters are passed on the way to the offset. The last one never is. -/
def markedIndex : List Char → Nat → Nat
  | [], _ | [_], _ => 0
  | c :: d :: rest, offset => if offset < c.utf8Size then 0 else markedIndex (d :: rest) (offset - c.utf8Size) + 1

/-- A line with one place for each character of a pattern, and a mark for the offset at the index. -/
structure Marks (m : Marker) (pattern : String) (offset index : Nat) (line : String) : Prop where
  length : line.length = pattern.length
  bound : index < pattern.length
  inside : offset < pattern.utf8ByteSize → (∀ i, HoldsByte pattern.toList offset i ↔ i = index) ∧
    line.toList[index]? = some (if index = 0 then m.left else m.mark)
  outside : pattern.utf8ByteSize ≤ offset → index + 1 = pattern.length ∧ line.toList[index]? = some m.overflow
  others : ∀ i < pattern.length, i ≠ index → line.toList[i]? = some m.line

section
variable {m : Marker} {x here : Char} {cs before after : List Char} {offset offset' index i : Nat}

theorem markedIndex_cons (hn : cs ≠ []) (h : x.utf8Size ≤ offset) :
    markedIndex (x :: cs) offset = markedIndex cs (offset - x.utf8Size) + 1 := by
  obtain ⟨y, ys, rfl⟩ := List.exists_cons_of_ne_nil hn
  rw [markedIndex, if_neg (Nat.not_lt.2 h)]

theorem markedIndex_lt (hn : cs ≠ []) (offset : Nat) : markedIndex cs offset < cs.length := by
  fun_induction markedIndex cs offset with
  | case1 => exact absurd rfl hn
  | case2 => exact Nat.one_pos
  | case3 => exact Nat.succ_pos _
  | case4 c d rest offset _ ih => exact Nat.succ_lt_succ (ih (List.cons_ne_nil d rest))

/-- A later offset is never marked further in front. -/
theorem markedIndex_mono (h : offset ≤ offset') : markedIndex cs offset ≤ markedIndex cs offset' := by
  fun_induction markedIndex cs offset generalizing offset' with
  | case1 => exact Nat.zero_le _
  | case2 => exact Nat.zero_le _
  | case3 => exact Nat.zero_le _
  | case4 c d rest offset hc ih =>
    rw [markedIndex_cons (List.cons_ne_nil d rest) (by omega)]
    exact Nat.succ_le_succ (ih (by omega))

theorem markedIndex_of_lt (hl : size before ≤ offset) (hr : offset < size before + x.utf8Size) :
    markedIndex (before ++ x :: after) offset = before.length := by
  induction before generalizing offset with
  | nil =>
    have hx : offset < x.utf8Size := by simpa using hr
    cases after <;> simp [markedIndex, hx]
  | cons y before ih =>
    rw [Utf8.size_cons] at hl hr
    rw [List.cons_append, markedIndex_cons (by simp) (by omega), ih (by omega) (by omega), List.length_cons]

theorem markedIndex_of_le (hn : cs ≠ []) (h : size cs ≤ offset) : markedIndex cs offset + 1 = cs.length := by
  induction cs generalizing offset with
  | nil => exact absurd rfl hn
  | cons x cs ih =>
    rw [Utf8.size_cons] at h
    by_cases hc : cs = []
    · rw [hc]
      rfl
    · rw [markedIndex_cons hc (by omega), ih hc (by omega), List.length_cons]

/-- Every byte of a text is one of a character. -/
theorem exists_holder (h : offset < size cs) :
    ∃ before x after, cs = before ++ x :: after ∧ size before ≤ offset ∧ offset < size before + x.utf8Size := by
  rcases Utf8.exists_cut (Nat.le_of_lt h) with ⟨before, after, rfl, rfl⟩ | ⟨before, x, after, rfl, hl, hr⟩
  · cases after with
    | nil => simp at h
    | cons x after => exact ⟨before, x, after, rfl, Nat.le_refl _, Nat.lt_add_of_pos_right x.utf8Size_pos⟩
  · exact ⟨before, x, after, rfl, Nat.le_of_lt hl, hr⟩

theorem holdsByte_length (hl : size before ≤ offset) (hr : offset < size before + x.utf8Size) :
    HoldsByte (before ++ x :: after) offset before.length := by
  have ht : (before ++ x :: after).take (before.length + 1) = before ++ [x] := by
    rw [List.append_cons]
    exact List.take_left' (by simp)
  rw [HoldsByte, List.take_left, ht]
  exact ⟨hl, by simpa using hr⟩

theorem HoldsByte.unique (hi : HoldsByte cs offset i) (hj : HoldsByte cs offset index) : i = index := by
  have hlt {i j : Nat} (hi : HoldsByte cs offset i) (hj : HoldsByte cs offset j) : i < j + 1 := by
    -- The characters up to and with the second index end behind the offset, and those before the first do not.
    refine Nat.lt_of_not_le fun hle => ?_
    have hsize : size (cs.take (j + 1)) ≤ size (cs.take i) := by
      obtain ⟨more, hm⟩ : cs.take (j + 1) <+: cs.take i := List.take_prefix_take_left hle
      rw [← hm, Utf8.size_append]
      exact Nat.le_add_right _ _
    have := hi.1
    have := hj.2
    omega
  have := hlt hi hj
  have := hlt hj hi
  omega

/-- A mark between two parts of a plain line. -/
theorem plain_set (plain mark : Char) (front back : Nat) :
    List.replicate front plain ++ mark :: List.replicate back plain =
      (List.replicate (front + (back + 1)) plain).set front mark := by
  rw [← List.replicate_append_replicate, List.set_append_right _ _ (by simp)]
  simp [List.replicate_succ]

/-- A line is plain but for one character. -/
theorem drawFrom_eq_set (m : Marker) (here : Char) (hn : cs ≠ []) (offset : Nat) :
    m.drawFrom here cs offset = (List.replicate cs.length m.line).set (markedIndex cs offset)
      (if size cs ≤ offset then m.overflow else if markedIndex cs offset = 0 then here else m.mark) := by
  by_cases h : size cs ≤ offset
  · have hi := markedIndex_of_le hn h
    obtain ⟨y, before, rfl⟩ := List.exists_cons_of_ne_nil hn
    rw [List.length_cons, Nat.succ_inj] at hi
    rw [if_pos h, hi, drawFrom_of_le here h]
    exact plain_set m.line m.overflow before.length 0
  · obtain ⟨before, x, after, rfl, hl, hr⟩ := exists_holder (Nat.lt_of_not_le h)
    rw [if_neg h, markedIndex_of_lt hl hr, drawFrom_of_lt here hl hr, List.length_append, List.length_cons]
    cases before with
    | nil => exact plain_set m.line here 0 after.length
    | cons y before => exact plain_set m.line m.mark (before.length + 1) after.length

theorem toList_draw (m : Marker) {pattern : String} (h : pattern ≠ "") (offset : Nat) :
    (m.draw pattern offset).toList = (List.replicate pattern.length m.line).set (markedIndex pattern.toList offset)
      (if pattern.utf8ByteSize ≤ offset then m.overflow
        else if markedIndex pattern.toList offset = 0 then m.left else m.mark) := by
  have hn : pattern.toList ≠ [] := mt String.toList_eq_nil_iff.1 h
  rw [draw, String.toList_ofList, drawFrom_eq_set m m.left hn, Utf8.size_toList, String.length_toList]

theorem marks_draw (m : Marker) {pattern : String} (h : pattern ≠ "") (offset : Nat) :
    Marks m pattern offset (markedIndex pattern.toList offset) (m.draw pattern offset) := by
  have hn : pattern.toList ≠ [] := mt String.toList_eq_nil_iff.1 h
  have hlt : markedIndex pattern.toList offset < pattern.length := markedIndex_lt hn offset
  have hmarked (x : Char) : ((List.replicate pattern.length m.line).set (markedIndex pattern.toList offset) x)[
      markedIndex pattern.toList offset]? = some x := List.getElem?_set_self (by simpa using hlt)
  refine ⟨length_draw m pattern offset, hlt, fun hin => ⟨fun i => ?_, ?_⟩, fun hout => ⟨?_, ?_⟩, fun i hi hne => ?_⟩
  · obtain ⟨before, x, after, hs, hl, hr⟩ := exists_holder (Utf8.size_toList pattern ▸ hin)
    rw [hs, markedIndex_of_lt hl hr]
    exact ⟨fun hi => hi.unique (holdsByte_length hl hr), fun hi => hi ▸ holdsByte_length hl hr⟩
  · rw [toList_draw m h, hmarked, if_neg (Nat.not_le.2 hin)]
  · exact markedIndex_of_le hn (Utf8.size_toList pattern ▸ hout)
  · rw [toList_draw m h, hmarked, if_pos hout]
  · rw [toList_draw m h, List.getElem?_set_ne (Ne.symm hne), List.getElem?_replicate, if_pos hi]

/-- A line marks the character that holds the offset, or the last one past the end, and later offsets no earlier. -/
theorem draw_marks (m : Marker) {pattern : String} (h : pattern ≠ "") :
    (∀ offset, Marks m pattern offset (markedIndex pattern.toList offset) (m.draw pattern offset)) ∧
      ∀ offset offset', offset ≤ offset' → markedIndex pattern.toList offset ≤ markedIndex pattern.toList offset' :=
  ⟨marks_draw m h, fun _ _ => markedIndex_mono⟩

/-- The last byte of a character and an offset behind all bytes. -/
theorem draw_marks_multibyte : ("À☃a" : String) ≠ "" ∧ (edgeBelow.draw "À☃a" 4).toList[1]? = some '┴' ∧
    (edgeBelow.draw "À☃a" 6).toList[2]? = some '╜' := by
  have hn : ("À☃a" : String) ≠ "" := by decide
  obtain ⟨hmarks, -⟩ := draw_marks edgeBelow hn
  exact ⟨hn, ((hmarks 4).inside (by decide)).2, ((hmarks 6).outside (by decide)).2⟩

end
end Marker
end RoutePattern
