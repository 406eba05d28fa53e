import RoutePattern.Utf8Decoding

/-!
# Encoded text

The bytes of a list of characters, and what reading gives back: the first character of an encoding, no
character where no encoding starts, and the whole text where nothing can be read after it.
-/
namespace RoutePattern.Utf8

def encode (cs : List Char) : List UInt8 := cs.flatMap String.utf8EncodeChar

/-- How many bytes a text takes. -/
def size (cs : List Char) : Nat := (encode cs).length

@[simp] theorem encode_nil : encode [] = [] := rfl

@[simp] theorem encode_cons (c : Char) (cs : List Char) :
    encode (c :: cs) = String.utf8EncodeChar c ++ encode cs := rfl

@[simp] theorem encode_append (cs ds : List Char) : encode (cs ++ ds) = encode cs ++ encode ds :=
  List.flatMap_append

@[simp] theorem size_nil : size [] = 0 := rfl

@[simp] theorem size_cons (c : Char) (cs : List Char) : size (c :: cs) = c.utf8Size + size cs := by
  simp [size]

@[simp] theorem size_append (cs ds : List Char) : size (cs ++ ds) = size cs + size ds := by
  simp [size]

@[simp] theorem length_encode (cs : List Char) : (encode cs).length = size cs := rfl

@[simp] theorem size_eq_zero {cs : List Char} : size cs = 0 ↔ cs = [] := by
  cases cs with
  | nil => simp
  | cons c cs => have := c.utf8Size_pos; simp; omega

theorem size_toList (text : String) : size text.toList = text.utf8ByteSize := by
  rw [← String.size_toByteArray, ← String.utf8Encode_toList]
  exact List.size_toByteArray.symm

theorem length_le_size (cs : List Char) : cs.length ≤ size cs := by
  induction cs with
  | nil => exact Nat.le_refl 0
  | cons c cs ih =>
    have := c.utf8Size_pos
    simp only [List.length_cons, size_cons]
    omega

theorem first?_encodeChar_append (c : Char) (bytes : List UInt8) :
    first? (String.utf8EncodeChar c ++ bytes) = some c := by
  have hw : (String.utf8EncodeChar c ++ bytes).take 4 =
      String.utf8EncodeChar c ++ bytes.take (4 - c.utf8Size) := by
    rw [List.take_append, List.take_of_length_le (by simpa using c.utf8Size_le_four)]
    simp
  rw [first?, hw, List.toByteArray_append]
  exact ByteArray.utf8DecodeChar?_utf8EncodeChar_append

theorem first?_encode_cons (c : Char) (cs : List Char) (bytes : List UInt8) :
    first? (encode (c :: cs) ++ bytes) = some c := by
  rw [encode_cons, List.append_assoc]
  exact first?_encodeChar_append c _

theorem isPrefix_of_first? {bytes : List UInt8} {c : Char} (h : first? bytes = some c) :
    String.utf8EncodeChar c <+: bytes := by
  obtain ⟨tail, ht⟩ := ByteArray.exists_of_utf8DecodeChar?_eq_some h
  have hp : String.utf8EncodeChar c <+: bytes.take 4 := by
    refine ⟨tail.data.toList, List.toByteArray_inj.1 ?_⟩
    have hl : tail.data.toList.toByteArray = tail := ByteArray.ext (by simp)
    rw [List.toByteArray_append, ht, hl]
  exact hp.trans (List.take_prefix 4 bytes)

theorem first?_eq_some_iff {bytes : List UInt8} {c : Char} :
    first? bytes = some c ↔ String.utf8EncodeChar c <+: bytes := by
  constructor
  · exact isPrefix_of_first?
  · rintro ⟨tail, rfl⟩
    exact first?_encodeChar_append c tail

/-- Two characters never start at one place. -/
theorem eq_of_isPrefix {bytes : List UInt8} {c d : Char} (hc : String.utf8EncodeChar c <+: bytes)
    (hd : String.utf8EncodeChar d <+: bytes) : c = d :=
  Option.some.inj ((first?_eq_some_iff.2 hc).symm.trans (first?_eq_some_iff.2 hd))

/-- Two ways to read bytes as text and a rest differ in how far they go. -/
theorem encode_append_eq {cs ds : List Char} {bytes bytes' : List UInt8}
    (h : encode cs ++ bytes = encode ds ++ bytes') :
    (∃ more, ds = cs ++ more ∧ bytes = encode more ++ bytes') ∨
      ∃ more, cs = ds ++ more ∧ bytes' = encode more ++ bytes := by
  induction cs generalizing ds with
  | nil => exact .inl ⟨ds, rfl, h⟩
  | cons c cs ih =>
    cases ds with
    | nil => exact .inr ⟨c :: cs, rfl, h.symm⟩
    | cons d ds =>
      rw [encode_cons, encode_cons, List.append_assoc, List.append_assoc] at h
      obtain rfl : c = d := by
        refine eq_of_isPrefix (List.prefix_append _ (encode cs ++ bytes)) ?_
        rw [h]
        exact List.prefix_append _ _
      rcases ih (List.append_cancel_left h) with ⟨more, rfl, hb⟩ | ⟨more, rfl, hb⟩
      · exact .inl ⟨more, rfl, hb⟩
      · exact .inr ⟨more, rfl, hb⟩

/-- What stands behind some text in an encoding is an encoding too. -/
theorem exists_encode_append {cs ds : List Char} {bytes : List UInt8} (h : encode cs ++ bytes = encode ds) :
    ∃ more, ds = cs ++ more ∧ bytes = encode more := by
  rcases encode_append_eq (h.trans (List.append_nil _).symm) with ⟨more, hd, hb⟩ | ⟨more, hd, hb⟩
  · exact ⟨more, hd, hb.trans (List.append_nil _)⟩
  · obtain ⟨hmore, hbytes⟩ := List.append_eq_nil_iff.1 hb.symm
    have hnil : more = [] := size_eq_zero.1 (congrArg List.length hmore)
    exact ⟨[], by rw [hd, hnil, List.append_nil, List.append_nil], hbytes⟩

/-- Every number of bytes of a text is between two of its characters or inside one. -/
theorem exists_cut {cs : List Char} {n : Nat} (h : n ≤ size cs) : (∃ part more, cs = part ++ more ∧ n = size part) ∨
    ∃ part x more, cs = part ++ x :: more ∧ size part < n ∧ n < size part + x.utf8Size := by
  induction cs generalizing n with
  | nil => exact .inl ⟨[], [], rfl, Nat.le_zero.1 h⟩
  | cons c cs ih =>
    by_cases hn : n = 0
    · exact .inl ⟨[], c :: cs, rfl, hn⟩
    · by_cases hc : n < c.utf8Size
      · exact .inr ⟨[], c, cs, rfl, Nat.pos_of_ne_zero hn, by simpa using hc⟩
      · obtain ⟨m, rfl⟩ := Nat.exists_eq_add_of_le (Nat.le_of_not_lt hc)
        have hm : m ≤ size cs := by
          rw [size_cons] at h
          omega
        rcases ih hm with ⟨part, more, rfl, rfl⟩ | ⟨part, x, more, rfl, hl, hr⟩
        · exact .inl ⟨c :: part, more, rfl, (size_cons c part).symm⟩
        · refine .inr ⟨c :: part, x, more, rfl, ?_, ?_⟩ <;>
            rw [size_cons] <;> omega

/-- A part of a character is no character. -/
theorem first?_take_encodeChar {c : Char} {n : Nat} (h : n < c.utf8Size) :
    first? ((String.utf8EncodeChar c).take n) = none := by
  refine Option.eq_none_iff_forall_ne_some.2 fun d hd => ?_
  have hp : String.utf8EncodeChar d <+: (String.utf8EncodeChar c).take n := first?_eq_some_iff.1 hd
  obtain rfl : c = d := eq_of_isPrefix List.prefix_rfl (hp.trans (List.take_prefix n _))
  have hl := hp.length_le
  rw [List.length_take, String.length_utf8EncodeChar] at hl
  omega

theorem wellFormedPart_of_none {bytes : List UInt8} (h : first? bytes = none) : wellFormedPart bytes = [] := by
  rw [wellFormedPart]
  split
  · rfl
  · rename_i c hc; rw [h] at hc; cases hc

theorem wellFormedPart_of_some {bytes : List UInt8} {c : Char} (h : first? bytes = some c) :
    wellFormedPart bytes = c :: wellFormedPart (bytes.drop c.utf8Size) := by
  rw [wellFormedPart]
  split
  · rename_i hc; rw [h] at hc; cases hc
  · rename_i d hd
    obtain rfl : c = d := Option.some.inj (h.symm.trans hd)
    rfl

theorem head?_wellFormedPart (bytes : List UInt8) : (wellFormedPart bytes).head? = first? bytes := by
  cases h : first? bytes with
  | none => rw [wellFormedPart_of_none h]; rfl
  | some c => rw [wellFormedPart_of_some h]; rfl

theorem wellFormedPart_encode_append (cs : List Char) (bytes : List UInt8) :
    wellFormedPart (encode cs ++ bytes) = cs ++ wellFormedPart bytes := by
  induction cs with
  | nil => rfl
  | cons c cs ih =>
    have ht : (encode (c :: cs) ++ bytes).drop c.utf8Size = encode cs ++ bytes := by
      rw [encode_cons, List.append_assoc]
      exact List.drop_left' (by simp)
    rw [wellFormedPart_of_some (first?_encode_cons c cs bytes), ht, ih]
    rfl

theorem wellFormedPart_encode (cs : List Char) : wellFormedPart (encode cs) = cs := by
  have h := wellFormedPart_encode_append cs []
  rwa [List.append_nil, wellFormedPart_of_none first?_nil, List.append_nil] at h

theorem text_encode (cs : List Char) : text (encode cs) = String.ofList cs := by
  rw [text, wellFormedPart_encode]

end RoutePattern.Utf8
