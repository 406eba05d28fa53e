import Mathlib.Data.List.Forall2
import RoutePattern.TokenInterchange

/-!
# The forms of a value in JSON

A lexeme, a position or a token may be written in several forms, of which the writers produce one. A value
that is read is the one value that it is a form of, and what is no form of a value is refused.
-/
namespace RoutePattern

namespace JsonValue

/-- Values for the named fields of a record: each once in an object, among members with other names and in any
order, or all in the order of the fields. -/
inductive Gives (names : List String) (values : List JsonValue) : JsonValue → Prop where
  | object {members} (h : (members.filter fun m => decide (m.1 ∈ names)).Perm (names.zip values)) :
      Gives names values (.object members)
  | array : Gives names values (.array values)

section
variable {names : List String} {values items : List JsonValue} {members : List (String × JsonValue)}
  {name : String} {value v : JsonValue}

theorem member?_eq_some_iff : member? name members = some value ↔
    members.filter (fun m => m.1 == name) = [(name, value)] := by
  unfold member?
  constructor
  · intro h
    split at h
    · rename_i m hm
      have hname : m.1 = name := by
        have : m ∈ members.filter (fun m => m.1 == name) := hm ▸ List.mem_singleton_self m
        simpa using (List.mem_filter.1 this).2
      rw [hm, ← hname, ← Option.some.inj h]
    · cases h
  · intro h
    rw [h]

theorem filter_named (members : List (String × JsonValue)) (name : String) (names : List String) :
    (members.filter fun m => decide (m.1 ∈ name :: names)).filter (fun m => m.1 == name) =
      members.filter fun m => m.1 == name := by
  rw [List.filter_filter]
  refine List.filter_congr fun m _ => ?_
  by_cases hm : m.1 = name <;> simp [hm]

/-- The members of the first field, and those of the other fields. -/
theorem filter_cons_perm (hn : name ∉ names) : (members.filter fun m => decide (m.1 ∈ name :: names)).Perm
    (members.filter (fun m => m.1 == name) ++ members.filter fun m => decide (m.1 ∈ names)) := by
  have hrest : (members.filter fun m => decide (m.1 ∈ name :: names)).filter (fun m => !(m.1 == name)) =
      members.filter fun m => decide (m.1 ∈ names) := by
    rw [List.filter_filter]
    refine List.filter_congr fun m _ => ?_
    by_cases hm : m.1 = name
    · simp [hm, hn]
    · simp [hm]
  have h := List.filter_append_perm (fun m => m.1 == name) (members.filter fun m => decide (m.1 ∈ name :: names))
  rw [filter_named, hrest] at h
  exact h.symm

/-- The members that give the values of a record are found by the names of the fields. -/
theorem perm_zip_iff (hn : names.Nodup) (hl : names.length = values.length) :
    (members.filter fun m => decide (m.1 ∈ names)).Perm (names.zip values) ↔
      List.Forall₂ (fun name value => member? name members = some value) names values := by
  induction names generalizing values with
  | nil =>
    obtain rfl : values = [] := List.length_eq_zero_iff.1 hl.symm
    simp
  | cons name names ih =>
    obtain ⟨value, values, rfl⟩ := List.exists_cons_of_length_eq_add_one hl.symm
    obtain ⟨hm, hn⟩ := List.nodup_cons.1 hn
    have hnames := ih hn (Nat.succ.inj hl)
    rw [List.forall₂_cons, member?_eq_some_iff, List.zip_cons_cons]
    have hcons := @filter_cons_perm names members name hm
    constructor
    · intro h
      have hother : (names.zip values).filter (fun m => m.1 == name) = [] := by
        refine List.filter_eq_nil_iff.2 fun m hmem he => hm ?_
        rw [← beq_iff_eq.1 he]
        exact (List.of_mem_zip hmem).1
      have hfirst := h.filter fun m => m.1 == name
      rw [filter_named, List.filter_cons_of_pos (by simp), hother, List.perm_singleton] at hfirst
      rw [hfirst] at hcons
      exact ⟨hfirst, hnames.1 (hcons.symm.trans h).cons_inv⟩
    · rintro ⟨hfirst, hrest⟩
      rw [hfirst] at hcons
      exact hcons.trans ((hnames.2 hrest).cons _)

theorem gives_of_members (hn : names.Nodup)
    (h : List.Forall₂ (fun name value => member? name members = some value) names values) :
    Gives names values (.object members) := .object ((perm_zip_iff hn h.length_eq).2 h)

theorem word?_eq_some_iff {n : Nat} : v.word? = some n ↔ v = .ofNat n ∧ n < UInt64.size := by
  constructor
  · intro h
    unfold word? at h
    split at h
    · rename_i m
      split at h
      · rename_i hm
        simp only [Bool.and_eq_true, decide_eq_true_eq] at hm
        obtain rfl := Option.some.inj h
        exact ⟨congrArg JsonValue.integer (Int.toNat_of_nonneg hm.1).symm, hm.2⟩
      · cases h
    · cases h
  · rintro ⟨rfl, hn⟩
    simp [ofNat, word?, hn]

theorem string?_eq_some_iff {s : String} : v.string? = some s ↔ v = .string s := by
  cases v <;> simp [string?]

end
end JsonValue

namespace Lexeme

inductive Form (l : Lexeme) : JsonValue → Prop where
  | name : Form l (.string l.name)
  | tag : Form l (.object [(l.name, .null)])

theorem ofName?_eq_some_iff {s : String} {l : Lexeme} : ofName? s = some l ↔ s = l.name := by
  constructor
  · intro h
    have := List.find?_some h
    exact (beq_iff_eq.1 this).symm
  · rintro rfl
    cases l <;> rfl

theorem form_iff {v : JsonValue} {l : Lexeme} : ofJson? v = some l ↔ l.Form v := by
  constructor
  · intro h
    unfold ofJson? at h
    split at h
    · obtain rfl := ofName?_eq_some_iff.1 h
      exact .name
    · obtain rfl := ofName?_eq_some_iff.1 h
      exact .tag
    · cases h
  · rintro (_ | _)
    · exact ofName?_eq_some_iff.2 rfl
    · exact ofName?_eq_some_iff.2 rfl

end Lexeme

namespace Position

def InRange (p : Position) : Prop := p.line < UInt64.size ∧ p.column < UInt64.size ∧ p.offset < UInt64.size

structure Form (p : Position) (v : JsonValue) : Prop where
  gives : v.Gives ["line", "column", "offset"] [.ofNat p.line, .ofNat p.column, .ofNat p.offset]
  inRange : p.InRange

section
variable {v : JsonValue} {p : Position}

theorem ofJson?_eq_some_iff : ofJson? v = some p ↔ ∃ line column offset,
    v.Gives ["line", "column", "offset"] [line, column, offset] ∧ ofFields? line column offset = some p := by
  constructor
  · intro h
    unfold ofJson? at h
    split at h
    · simp only [Option.bind_eq_bind, Option.bind_eq_some_iff] at h
      obtain ⟨line, hl, column, hc, offset, ho, h⟩ := h
      exact ⟨line, column, offset, JsonValue.gives_of_members (by decide) (.cons hl (.cons hc (.cons ho .nil))), h⟩
    · exact ⟨_, _, _, .array, h⟩
    · cases h
  · rintro ⟨line, column, offset, hv, h⟩
    cases hv with
    | object hm =>
      obtain ⟨hl, hc, ho⟩ : _ ∧ _ ∧ _ := by simpa using (JsonValue.perm_zip_iff (by decide) rfl).1 hm
      simpa [ofJson?, hl, hc, ho] using h
    | array => exact h

theorem form_iff : ofJson? v = some p ↔ p.Form v := by
  rw [ofJson?_eq_some_iff]
  obtain ⟨l, c, o⟩ := p
  simp only [ofFields?, Option.bind_eq_bind, Option.bind_eq_some_iff, JsonValue.word?_eq_some_iff]
  constructor
  · rintro ⟨_, _, _, hv, _, ⟨rfl, hl⟩, _, ⟨rfl, hc⟩, _, ⟨rfl, ho⟩, ⟨⟩⟩
    exact ⟨hv, hl, hc, ho⟩
  · rintro ⟨hv, hl, hc, ho⟩
    exact ⟨_, _, _, hv, l, ⟨rfl, hl⟩, c, ⟨rfl, hc⟩, o, ⟨rfl, ho⟩, rfl⟩

end
end Position

namespace Token

def InRange (t : Token) : Prop := t.start.InRange ∧ t.stop.InRange

inductive Form (t : Token) (v : JsonValue) : Prop where
  | record {lexeme start stop}
      (hv : v.Gives ["lexeme", "literal", "begin", "end"] [lexeme, .string t.literal, start, stop])
      (hl : t.lexeme.Form lexeme) (hb : t.start.Form start) (he : t.stop.Form stop)

section
variable {v : JsonValue} {t : Token}

theorem ofJson?_eq_some_iff : ofJson? v = some t ↔ ∃ lexeme literal start stop,
    v.Gives ["lexeme", "literal", "begin", "end"] [lexeme, literal, start, stop] ∧
      ofFields? lexeme literal start stop = some t := by
  constructor
  · intro h
    unfold ofJson? at h
    split at h
    · simp only [Option.bind_eq_bind, Option.bind_eq_some_iff] at h
      obtain ⟨lexeme, hl, literal, ht, start, hb, stop, he, h⟩ := h
      exact ⟨lexeme, literal, start, stop,
        JsonValue.gives_of_members (by decide) (.cons hl (.cons ht (.cons hb (.cons he .nil)))), h⟩
    · exact ⟨_, _, _, _, .array, h⟩
    · cases h
  · rintro ⟨lexeme, literal, start, stop, hv, h⟩
    cases hv with
    | object hm =>
      obtain ⟨hl, ht, hb, he⟩ : _ ∧ _ ∧ _ ∧ _ := by simpa using (JsonValue.perm_zip_iff (by decide) rfl).1 hm
      simpa [ofJson?, hl, ht, hb, he] using h
    | array => exact h

theorem form_iff : ofJson? v = some t ↔ t.Form v := by
  rw [ofJson?_eq_some_iff]
  obtain ⟨l, text, b, e⟩ := t
  simp only [ofFields?, Option.bind_eq_bind, Option.bind_eq_some_iff, JsonValue.string?_eq_some_iff, Lexeme.form_iff,
    Position.form_iff]
  constructor
  · rintro ⟨_, _, _, _, hv, _, hl, _, rfl, _, hb, _, he, ⟨⟩⟩
    exact ⟨hv, hl, hb, he⟩
  · rintro ⟨hv, hl, hb, he⟩
    exact ⟨_, _, _, _, hv, l, hl, text, rfl, b, hb, e, he, rfl⟩

end
end Token
namespace JsonValue

/-- An array of forms of the items. -/
inductive ListForm {α : Type} (Form : α → JsonValue → Prop) (as : List α) : JsonValue → Prop where
  | array {items} (h : List.Forall₂ Form as items) : ListForm Form as (.array items)

section
variable {α : Type} {item? : JsonValue → Option α} {Form : α → JsonValue → Prop} {items : List JsonValue} {as : List α}
  {v : JsonValue}

theorem mapM_eq_some_iff (h : ∀ v a, item? v = some a ↔ Form a v) :
    items.mapM item? = some as ↔ List.Forall₂ Form as items := by
  induction items generalizing as with
  | nil => cases as <;> simp
  | cons item items ih =>
    simp only [List.mapM_cons, Option.bind_eq_bind, Option.bind_eq_some_iff, h, ih]
    constructor
    · rintro ⟨a, ha, as, has, ⟨⟩⟩
      exact .cons ha has
    · rintro (_ | ⟨ha, has⟩)
      exact ⟨_, ha, _, has, rfl⟩

theorem listOf?_eq_some_iff (h : ∀ v a, item? v = some a ↔ Form a v) :
    listOf? item? v = some as ↔ ListForm Form as v := by
  constructor
  · intro hv
    unfold listOf? at hv
    split at hv
    · exact .array ((mapM_eq_some_iff h).1 hv)
    · cases hv
  · rintro ⟨hv⟩
    exact (mapM_eq_some_iff h).2 hv

/-- A list is refused with any of its items. -/
theorem listOf?_eq_none {item : JsonValue} (hm : item ∈ items) (h : item? item = none) :
    listOf? item? (.array items) = none := by
  show items.mapM item? = none
  induction items with
  | nil => cases hm
  | cons first items ih =>
    rw [List.mapM_cons]
    rcases List.mem_cons.1 hm with rfl | hm
    · rw [h]
      rfl
    · rw [ih hm]
      cases item? first <;> rfl

end
end JsonValue

/-- What is read is what the value is a form of, and so nothing is lost on the way. -/
structure RoundTrip {α : Type} (write : α → JsonValue) (read? : JsonValue → Option α) (InRange : α → Prop)
    (Form : α → JsonValue → Prop) : Prop where
  reads : ∀ v a, read? v = some a ↔ Form a v
  bounded : ∀ v a, read? v = some a → InRange a
  trip : ∀ a, InRange a → read? (write a) = some a
  again : ∀ v a, read? v = some a → read? (write a) = some a

/-- A record is refused if one of its fields is missing or not as it has to be. -/
structure Strict {α : Type} (fields : List (String × (JsonValue → Prop))) (read? : JsonValue → Option α) : Prop where
  member : ∀ members, ∀ field ∈ fields, (∀ value, (field.1, value) ∈ members → ¬ field.2 value) →
    read? (.object members) = none
  item : ∀ items, ¬ List.Forall₂ (fun field item => field.2 item) fields items → read? (.array items) = none
  other : ∀ v, (∀ members, v ≠ .object members) → (∀ items, v ≠ .array items) → read? v = none

section
variable {α : Type} {write : α → JsonValue} {read? : JsonValue → Option α} {InRange : α → Prop}
  {Form : α → JsonValue → Prop} {fields : List (String × (JsonValue → Prop))}

theorem RoundTrip.of_forms (hr : ∀ v a, read? v = some a ↔ Form a v) (hf : ∀ v a, Form a v → InRange a)
    (hw : ∀ a, InRange a → Form a (write a)) : RoundTrip write read? InRange Form where
  reads := hr
  bounded v a h := hf v a ((hr v a).1 h)
  trip a ha := (hr _ _).2 (hw a ha)
  again v a h := (hr _ _).2 (hw a (hf v a ((hr v a).1 h)))

theorem RoundTrip.list (h : RoundTrip write read? InRange Form) :
    RoundTrip (fun as => .array (as.map write)) (JsonValue.listOf? read?) (fun as => ∀ a ∈ as, InRange a)
      (JsonValue.ListForm Form) := by
  refine .of_forms (fun v as => JsonValue.listOf?_eq_some_iff h.reads) (fun v as hv => ?_) fun as ha => .array ?_
  · obtain ⟨hv⟩ := hv
    induction hv with
    | nil => exact fun a ha => nomatch ha
    | cons ha _ ih => exact List.forall_mem_cons.2 ⟨h.bounded _ _ ((h.reads _ _).2 ha), ih⟩
  · induction as with
    | nil => exact .nil
    | cons a as ih =>
      obtain ⟨ha, has⟩ := List.forall_mem_cons.1 ha
      exact .cons ((h.reads _ _).1 (h.trip a ha)) (ih has)

theorem exists_mem_zip {values : List JsonValue} {field : String × (JsonValue → Prop)} (hm : field ∈ fields)
    (h : List.Forall₂ (fun field value => field.2 value) fields values) :
    ∃ value, (field.1, value) ∈ (fields.map Prod.fst).zip values ∧ field.2 value := by
  induction h with
  | nil => cases hm
  | @cons first value _ _ hv _ ih =>
    rcases List.mem_cons.1 hm with rfl | hm
    · exact ⟨value, by simp, hv⟩
    · obtain ⟨value, hz, hv⟩ := ih hm
      exact ⟨value, List.mem_cons_of_mem _ hz, hv⟩

/-- A reader is strict if the values of its record are those that it reads. -/
theorem Strict.of_gives (h : ∀ v a, read? v = some a → ∃ values, v.Gives (fields.map Prod.fst) values ∧
    List.Forall₂ (fun field value => field.2 value) fields values) : Strict fields read? := by
  have hnone {v : JsonValue} (hv : ∀ values, v.Gives (fields.map Prod.fst) values →
      ¬ List.Forall₂ (fun field value => field.2 value) fields values) : read? v = none := by
    refine Option.eq_none_iff_forall_ne_some.2 fun a ha => ?_
    obtain ⟨values, hg, hf⟩ := h v a ha
    exact hv values hg hf
  refine ⟨fun members field hm hn => hnone fun values hg hf => ?_, fun items hn => hnone fun values hg hf => ?_,
    fun v ho ha => hnone fun values hg _ => ?_⟩
  · obtain ⟨hp⟩ := hg
    obtain ⟨value, hz, hv⟩ := exists_mem_zip hm hf
    exact hn value (List.mem_of_mem_filter (hp.mem_iff.2 hz)) hv
  · cases hg
    exact hn hf
  · cases hg with
    | object => exact ho _ rfl
    | array => exact ha _ rfl

end

namespace Lexeme

theorem roundTrip : RoundTrip toJson ofJson? (fun _ => True) Form :=
  .of_forms (fun _ _ => form_iff) (fun _ _ _ => trivial) fun _ _ => .name

end Lexeme

namespace Position

/-- What the fields of a position take: plain numbers in range. -/
def fields : List (String × (JsonValue → Prop)) :=
  ["line", "column", "offset"].map fun name => (name, fun v => ∃ n < UInt64.size, v = .ofNat n)

theorem roundTrip : RoundTrip toJson ofJson? InRange Form :=
  .of_forms (fun _ _ => form_iff) (fun _ _ h => h.inRange) fun _ hp => ⟨.object (.refl _), hp⟩

theorem strict : Strict fields ofJson? := by
  refine .of_gives fun v p h => ?_
  obtain ⟨hv, hl, hc, ho⟩ := form_iff.1 h
  exact ⟨_, hv, .cons ⟨_, hl, rfl⟩ (.cons ⟨_, hc, rfl⟩ (.cons ⟨_, ho, rfl⟩ .nil))⟩

end Position

namespace Token

/-- What the fields of a token take. -/
def fields : List (String × (JsonValue → Prop)) :=
  [("lexeme", fun v => ∃ l, Lexeme.ofJson? v = some l), ("literal", fun v => ∃ s, v = .string s),
   ("begin", fun v => ∃ p, Position.ofJson? v = some p), ("end", fun v => ∃ p, Position.ofJson? v = some p)]

theorem roundTrip : RoundTrip toJson ofJson? InRange Form := by
  refine .of_forms (fun _ _ => form_iff) (fun v t h => ?_) fun t ht => ?_
  · obtain ⟨-, -, hb, he⟩ := h
    exact ⟨hb.inRange, he.inRange⟩
  · have hform {p : Position} (hp : p.InRange) : p.Form p.toJson := Position.form_iff.1 (Position.roundTrip.trip p hp)
    exact ⟨.object (.refl _), .name, hform ht.1, hform ht.2⟩

theorem strict : Strict fields ofJson? := by
  refine .of_gives fun v t h => ?_
  obtain ⟨hv, hl, hb, he⟩ := form_iff.1 h
  exact ⟨_, hv, .cons ⟨_, Lexeme.form_iff.2 hl⟩ (.cons ⟨_, rfl⟩ (.cons ⟨_, Position.form_iff.2 hb⟩
    (.cons ⟨_, Position.form_iff.2 he⟩ .nil)))⟩

end Token

/-- All that is written is read back, in each of its forms, and what is no form of a value is refused. -/
theorem interchange_round_trip :
    RoundTrip Lexeme.toJson Lexeme.ofJson? (fun _ => True) Lexeme.Form ∧
    RoundTrip JsonValue.ofLexemes JsonValue.lexemes? (fun ls => ∀ l ∈ ls, True) (JsonValue.ListForm Lexeme.Form) ∧
    RoundTrip Position.toJson Position.ofJson? Position.InRange Position.Form ∧
    RoundTrip Token.toJson Token.ofJson? Token.InRange Token.Form ∧
    RoundTrip JsonValue.ofTokens JsonValue.tokens? (fun ts => ∀ t ∈ ts, t.InRange) (JsonValue.ListForm Token.Form) ∧
    Strict Position.fields Position.ofJson? ∧ Strict Token.fields Token.ofJson? ∧
    ∀ items, ∀ item ∈ items, (Lexeme.ofJson? item = none → JsonValue.lexemes? (.array items) = none) ∧
      (Token.ofJson? item = none → JsonValue.tokens? (.array items) = none) :=
  ⟨Lexeme.roundTrip, Lexeme.roundTrip.list, Position.roundTrip, Token.roundTrip, Token.roundTrip.list, Position.strict,
    Token.strict, fun _ _ hm => ⟨JsonValue.listOf?_eq_none hm, JsonValue.listOf?_eq_none hm⟩⟩

example : JsonValue.tokens? (.array [.array [.object [("STRING", .null)], .string "a",
    .array [.ofNat 1, .ofNat 2, .ofNat 3],
    .object [("offset", .ofNat 6), ("note", .null), ("line", .ofNat 1), ("column", .ofNat 5)]]]) =
      some [⟨.string, "a", ⟨1, 2, 3⟩, ⟨1, 5, 6⟩⟩] := by decide +kernel

end RoutePattern
