import Ladybug.Json.ArrayText

/-!
# Where a value ends

`nextJson` against the grammar: behind an object, an array or a string it finds the end as soon as
one more byte is there, and in the middle of one it finds nothing.
-/

namespace Ladybug.JsonScan

open Markup List

/-- The bytes of numbers and of `true`, `false` and `null`. -/
def isLiteral (c : UInt8) : Bool :=
  (ascii "+-.0123456789Eaeflnrstu").contains c

def commaJoin : List Bytes → Bytes
  | [] => []
  | [item] => item
  | item :: items => item ++ comma :: commaJoin items

def spaced (before text after : Bytes) : Bytes := before ++ (text ++ after)

def colon : UInt8 := 0x3a

/-- A member of an object, with the white space around its key and its value. -/
structure MemberText where
  key : Bytes
  value : Bytes
  spaces : Bytes × Bytes × Bytes × Bytes

def MemberText.text (m : MemberText) : Bytes :=
  spaced m.spaces.1 (quote :: m.key) m.spaces.2.1 ++
    colon :: spaced m.spaces.2.2.1 m.value m.spaces.2.2.2

structure MemberText.Spaced (m : MemberText) : Prop where
  beforeKey : m.spaces.1.all isSpace = true
  afterKey : m.spaces.2.1.all isSpace = true
  beforeValue : m.spaces.2.2.1.all isSpace = true
  afterValue : m.spaces.2.2.2.all isSpace = true

/-- The values of JSON; strings may hold any escapes. -/
inductive JsonText : Bytes → Prop
  | literal {text : Bytes} : text ≠ [] → text.all isLiteral = true → JsonText text
  | string {body : Bytes} : StringEnd body → JsonText (quote :: body)
  | blank {opening closing : UInt8} {space : Bytes} : (opening = openBrace ∧ closing = closeBrace) ∨
        (opening = openBracket ∧ closing = closeBracket) →
      space.all isSpace = true → JsonText (opening :: (space ++ [closing]))
  | object {members : List MemberText} : members ≠ [] →
      (∀ m ∈ members, m.Spaced ∧ StringEnd m.key) → (∀ m ∈ members, JsonText m.value) →
      JsonText (openBrace :: (commaJoin (members.map MemberText.text) ++ [closeBrace]))
  | array {items : List (Bytes × Bytes × Bytes)} : items ≠ [] →
      (∀ i ∈ items, i.1.all isSpace = true ∧ i.2.2.all isSpace = true) →
      (∀ i ∈ items, JsonText i.2.1) →
      JsonText (openBracket ::
        (commaJoin (items.map fun i => spaced i.1 i.2.1 i.2.2) ++ [closeBracket]))

/-- Objects, arrays and strings. -/
def Enclosed (text : Bytes) : Prop :=
  ∃ c rest, text = c :: rest ∧ (c = openBrace ∨ c = openBracket ∨ c = quote)

variable {a b : Bytes}

theorem Balanced.append (ha : Balanced a) (hb : Balanced b) : Balanced (a ++ b) := by
  induction ha with
  | nil => exact hb
  | plain hc _ ih => exact .plain hc ih
  | string hbody _ ih =>
    rw [cons_append, append_assoc]
    exact .string hbody ih
  | object hinner _ _ ih =>
    rw [cons_append, append_assoc, cons_append]
    exact .object hinner ih
  | array hinner _ _ ih =>
    rw [cons_append, append_assoc, cons_append]
    exact .array hinner ih

theorem balanced_of_plain (h : ∀ c ∈ a, isPlain c = true) : Balanced a := by
  induction a with
  | nil => exact .nil
  | cons c a ih =>
    exact .plain (h c mem_cons_self) (ih fun d hd => h d (mem_cons_of_mem c hd))

theorem plain_of_space {c : UInt8} (h : isSpace c = true) : isPlain c = true := by
  by_contra hplain
  unfold isPlain isOpen isClose at hplain
  simp only [Bool.and_eq_true, Bool.not_eq_true', Bool.or_eq_false_iff, beq_eq_false_iff_ne,
    bne_iff_ne] at hplain
  have hbyte : c = openBrace ∨ c = openBracket ∨ c = closeBrace ∨ c = closeBracket ∨ c = quote := by
    tauto
  rcases hbyte with rfl | rfl | rfl | rfl | rfl
  all_goals exact absurd h (by decide)

theorem balanced_of_space (h : a.all isSpace = true) : Balanced a :=
  balanced_of_plain fun c hc => plain_of_space (all_eq_true.mp h c hc)

theorem Balanced.spaced {before after : Bytes} (hbefore : before.all isSpace = true)
    (h : Balanced a) (hafter : after.all isSpace = true) : Balanced (spaced before a after) :=
  (balanced_of_space hbefore).append (h.append (balanced_of_space hafter))

theorem Balanced.commaJoin {items : List Bytes} (h : ∀ i ∈ items, Balanced i) :
    Balanced (commaJoin items) := by
  induction items using commaJoin.induct with
  | case1 => exact .nil
  | case2 item => exact h item mem_cons_self
  | case3 item items hsome ih =>
    rw [JsonScan.commaJoin.eq_3 _ _ hsome]
    apply (h item mem_cons_self).append
    exact .plain (by decide) (ih fun i hi => h i (mem_cons_of_mem item hi))

theorem balanced_members {members : List MemberText}
    (h : ∀ m ∈ members, m.Spaced ∧ StringEnd m.key) (hvalues : ∀ m ∈ members, Balanced m.value) :
    Balanced (commaJoin (members.map MemberText.text)) := by
  apply Balanced.commaJoin
  intro i hi
  obtain ⟨m, hm, rfl⟩ := mem_map.mp hi
  obtain ⟨hspaces, hkey⟩ := h m hm
  have hstring := Balanced.string hkey .nil
  rw [append_nil] at hstring
  apply (hstring.spaced hspaces.beforeKey hspaces.afterKey).append
  exact .plain (by decide) ((hvalues m hm).spaced hspaces.beforeValue hspaces.afterValue)

theorem balanced_items {items : List (Bytes × Bytes × Bytes)}
    (h : ∀ i ∈ items, i.1.all isSpace = true ∧ i.2.2.all isSpace = true)
    (hvalues : ∀ i ∈ items, Balanced i.2.1) :
    Balanced (commaJoin (items.map fun i => spaced i.1 i.2.1 i.2.2)) := by
  apply Balanced.commaJoin
  intro i hi
  obtain ⟨item, hitem, rfl⟩ := mem_map.mp hi
  exact (hvalues item hitem).spaced (h item hitem).1 (h item hitem).2

theorem JsonText.balanced {v : Bytes} (h : JsonText v) : Balanced v := by
  induction h with
  | literal _ hall =>
    have hplain : ∀ c ∈ ascii "+-.0123456789Eaeflnrstu", isPlain c = true := by decide +kernel
    exact balanced_of_plain fun c hc =>
      hplain c (contains_iff_mem.mp (all_eq_true.mp hall c hc))
  | @string body hbody =>
    have hstring := Balanced.string hbody .nil
    rwa [append_nil] at hstring
  | blank hbrackets hspace =>
    rcases hbrackets with ⟨rfl, rfl⟩ | ⟨rfl, rfl⟩
    · exact .object (balanced_of_space hspace) .nil
    · exact .array (balanced_of_space hspace) .nil
  | object _ hmembers _ ih => exact .object (balanced_members hmembers ih) .nil
  | array _ hitems _ ih => exact .array (balanced_items hitems ih) .nil

theorem nextJsonDefault_enclosed {v : Bytes} (h : JsonText v) (henclosed : Enclosed v)
    (s : Bytes) : nextJsonDefault .outside 0 (v ++ s) = v.length := by
  have hgroup : ∀ {opening closing : UInt8} {inner : Bytes}, Balanced inner →
      (opening = openBrace ∧ closing = closeBrace) ∨
        (opening = openBracket ∧ closing = closeBracket) →
      nextJsonDefault .outside 0 (opening :: (inner ++ [closing]) ++ s) =
        (opening :: (inner ++ [closing])).length := by
    intro opening closing inner hinner hbrackets
    rw [cons_append, append_assoc, singleton_append, length_cons, length_append, length_singleton]
    rcases hbrackets with ⟨rfl, rfl⟩ | ⟨rfl, rfl⟩
    · exact nextJsonDefault_group (by decide) (by decide) (by decide) hinner s
    · exact nextJsonDefault_group (by decide) (by decide) (by decide) hinner s
  cases h with
  | literal _ hall =>
    obtain ⟨c, rest, rfl, hc⟩ := henclosed
    have hliteral := all_eq_true.mp hall c mem_cons_self
    rcases hc with rfl | rfl | rfl
    all_goals exact absurd hliteral (by decide)
  | string hbody =>
    rw [cons_append, nextJsonDefault_quote, nextJsonDefault_string hbody, if_pos rfl, length_cons]
    omega
  | blank hbrackets hspace => exact hgroup (balanced_of_space hspace) hbrackets
  | object _ hmembers hvalues =>
    exact hgroup (balanced_members hmembers fun m hm => (hvalues m hm).balanced) (.inl ⟨rfl, rfl⟩)
  | array _ hitems hvalues =>
    exact hgroup (balanced_items hitems fun i hi => (hvalues i hi).balanced) (.inr ⟨rfl, rfl⟩)

/-- Up to the end that it finds, the scanner does not look at what follows. -/
theorem nextJsonDefault_prefix {mode : Mode} {parents : Nat} {p rest : Bytes}
    (h : p.length ≤ nextJsonDefault mode parents (p ++ rest)) :
    nextJsonDefault mode parents p = p.length := by
  induction p generalizing mode parents with
  | nil => cases mode <;> rfl
  | cons c p ih =>
    rw [cons_append, length_cons] at h
    cases mode with
    | outside =>
      unfold nextJsonDefault at h ⊢
      split_ifs at h ⊢
      all_goals grind
    | inString =>
      unfold nextJsonDefault at h ⊢
      split_ifs at h ⊢
      all_goals grind
    | escaped =>
      unfold nextJsonDefault at h ⊢
      grind

theorem nextJson_enclosed {text : Bytes} (h : Enclosed text) : nextJson text =
    if nextJsonDefault .outside 0 text = text.length then none
    else some (nextJsonDefault .outside 0 text) := by
  obtain ⟨c, rest, rfl, hc⟩ := h
  have hopens : (isOpen c || c == quote) = true := by
    rcases hc with rfl | rfl | rfl <;> decide
  unfold nextJson
  simp only [hopens, if_true]

/-- A value is found as soon as one byte follows it, and never before its end. -/
theorem nextJson_exact {v : Bytes} (h : JsonText v) (henclosed : Enclosed v) :
    (∀ s, s ≠ [] → nextJson (v ++ s) = some v.length) ∧
      ∀ p, p ≠ [] → p <+: v → nextJson p = none := by
  obtain ⟨c, rest, rfl, hc⟩ := henclosed
  constructor
  · intro s hs
    have hpos := length_pos_iff.mpr hs
    have hend := nextJsonDefault_enclosed h ⟨c, rest, rfl, hc⟩ s
    rw [nextJson_enclosed ⟨c, rest ++ s, cons_append, hc⟩, hend, length_append, if_neg (by omega)]
  · intro p hp hprefix
    obtain ⟨back, hback⟩ := hprefix
    obtain ⟨d, p, rfl⟩ := exists_cons_of_ne_nil hp
    obtain ⟨rfl, -⟩ := List.cons.inj hback
    have hend := nextJsonDefault_enclosed h ⟨d, rest, rfl, hc⟩ []
    rw [append_nil, ← hback] at hend
    have hshort : nextJsonDefault .outside 0 (d :: p) = (d :: p).length := by
      apply nextJsonDefault_prefix
      rw [hend, length_append]
      omega
    rw [nextJson_enclosed ⟨d, p, rfl, hc⟩, hshort, if_pos rfl]

/-- A bracket and an escaped quote in a string do not end the array around them. -/
theorem nextJson_exact_nested :
    nextJson (ascii "[\"]\\\"\"] ") = some 7 ∧ nextJson (ascii "[\"]\\") = none := by
  have hstring : StringEnd (ascii "]\\\"\"") :=
    .char (by decide) (by decide) (.escape .close)
  have htext := @JsonText.array [([], quote :: ascii "]\\\"\"", [])] (by decide) (by decide)
    fun i hi => by
      rw [mem_singleton.mp hi]
      exact .string hstring
  have hends := nextJson_exact htext ⟨openBracket, _, rfl, .inr (.inl rfl)⟩
  exact ⟨hends.1 [0x20] (by decide), hends.2 (ascii "[\"]\\") (by decide) (by decide)⟩

end Ladybug.JsonScan
