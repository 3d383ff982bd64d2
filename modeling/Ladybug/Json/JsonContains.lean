import Ladybug.Base.Bytes
import Mathlib.Data.List.Nodup
import Mathlib.Data.List.Perm.Subperm

/-!
# Containment of documents (`json_contains.cpp`)

A needle is contained in a haystack where a node of the haystack embeds it: an array embeds the elements
in any order, an object the members under their keys.  What the parser's library calls equal needs no
such search.
-/

namespace Ladybug.JsonContains

open List

/-! ## 1. Documents -/

/-- A parsed document; the scalars are compared as they are. -/
inductive Json (S : Type) where
  | scalar (s : S)
  | arr (elements : List (Json S))
  | obj (members : List (Bytes × Json S))

section

variable {S : Type}

theorem sizeOf_element {elements : List (Json S)} {v : Json S} (h : v ∈ elements) :
    sizeOf v < sizeOf (Json.arr elements) := by
  have hlt := sizeOf_lt_of_mem h
  rw [Json.arr.sizeOf_spec]
  omega

theorem sizeOf_member {members : List (Bytes × Json S)} {m : Bytes × Json S} (h : m ∈ members) :
    sizeOf m.2 < sizeOf (Json.obj members) := by
  have hlt := sizeOf_lt_of_mem h
  obtain ⟨key, v⟩ := m
  rw [Prod.mk.sizeOf_spec] at hlt
  rw [Json.obj.sizeOf_spec]
  show sizeOf v < _
  omega

@[elab_as_elim]
theorem Json.children_induction {P : Json S → Prop} (scalar : ∀ s, P (.scalar s))
    (arr : ∀ elements, (∀ v ∈ elements, P v) → P (.arr elements))
    (obj : ∀ members, (∀ m ∈ members, P m.2) → P (.obj members)) (v : Json S) : P v :=
  match v with
  | .scalar s => scalar s
  | .arr elements => arr elements fun w _ => Json.children_induction scalar arr obj w
  | .obj members => obj members fun m _ => Json.children_induction scalar arr obj m.2
termination_by sizeOf v
decreasing_by
  · exact sizeOf_element ‹_›
  · exact sizeOf_member ‹_›

def getn (members : List (Bytes × Json S)) (key : Bytes) : Option (Json S) :=
  (members.find? fun m => m.1 == key).map (·.2)

inductive DistinctKeys : Json S → Prop
  | scalar (s : S) : DistinctKeys (.scalar s)
  | arr {elements : List (Json S)} : (∀ v ∈ elements, DistinctKeys v) → DistinctKeys (.arr elements)
  | obj {members : List (Bytes × Json S)} : (members.map (·.1)).Nodup →
      (∀ m ∈ members, DistinctKeys m.2) → DistinctKeys (.obj members)

/-- Structural equality up to the order of the members. -/
inductive Same : Json S → Json S → Prop
  | scalar (s : S) : Same (.scalar s) (.scalar s)
  | arr {ls rs : List (Json S)} : List.Forall₂ Same ls rs → Same (.arr ls) (.arr rs)
  | obj {ls ms rs : List (Bytes × Json S)} : ls.Perm ms → ms.map (·.1) = rs.map (·.1) →
      List.Forall₂ Same (ms.map (·.2)) (rs.map (·.2)) → Same (.obj ls) (.obj rs)

end

/-! ## 2. The functions -/

section

variable {S : Type} (equals : Json S → Json S → Bool)

mutual

def jsonFuzzyEquals : (haystack needle : Json S) → Bool
  | haystack, .scalar s => equals haystack (.scalar s)
  | haystack, .arr needles =>
    equals haystack (.arr needles) ||
      match haystack with
      | .arr children => jsonArrayFuzzyEquals children needles
      | _ => false
  | haystack, .obj needles =>
    equals haystack (.obj needles) ||
      match haystack with
      | .obj members => jsonObjectFuzzyEquals members needles
      | _ => false

def jsonArrayFuzzyEquals (haystack : List (Json S)) : (needle : List (Json S)) → Bool
  | [] => true
  | needleChild :: needle =>
    (haystack.any fun haystackChild => jsonFuzzyEquals haystackChild needleChild) &&
      jsonArrayFuzzyEquals haystack needle

def jsonObjectFuzzyEquals (haystack : List (Bytes × Json S)) : (needle : List (Bytes × Json S)) → Bool
  | [] => true
  | (key, needleChild) :: needle =>
    match getn haystack key with
    | none => false
    | some haystackChild =>
      jsonFuzzyEquals haystackChild needleChild && jsonObjectFuzzyEquals haystack needle

end

mutual

def jsonContains : (haystack needle : Json S) → Bool
  | .scalar s, needle => jsonFuzzyEquals equals (.scalar s) needle
  | .arr elements, needle =>
    jsonFuzzyEquals equals (.arr elements) needle || jsonArrayContains elements needle
  | .obj members, needle =>
    jsonFuzzyEquals equals (.obj members) needle || jsonObjectContains members needle

def jsonArrayContains : (haystackArray : List (Json S)) → (needle : Json S) → Bool
  | [], _ => false
  | childHaystack :: rest, needle =>
    jsonContains childHaystack needle || jsonArrayContains rest needle

def jsonObjectContains : (haystackObject : List (Bytes × Json S)) → (needle : Json S) → Bool
  | [], _ => false
  | (_, childHaystack) :: rest, needle =>
    jsonContains childHaystack needle || jsonObjectContains rest needle

end

end

/-! ## 3. Embeddings -/

section

variable {S : Type} {equals : Json S → Json S → Bool}

/-- What the parser's library promises about its equality. -/
def IsStructural (equals : Json S → Json S → Bool) : Prop :=
  ∀ a b, DistinctKeys a → DistinctKeys b → (equals a b = true ↔ Same a b)

theorem DistinctKeys.elements {elements : List (Json S)} (h : DistinctKeys (.arr elements)) :
    ∀ v ∈ elements, DistinctKeys v := by
  cases h with
  | arr helements => exact helements

theorem DistinctKeys.keys {members : List (Bytes × Json S)} (h : DistinctKeys (.obj members)) :
    (members.map (·.1)).Nodup := by
  cases h with
  | obj hkeys _ => exact hkeys

theorem DistinctKeys.members {members : List (Bytes × Json S)} (h : DistinctKeys (.obj members)) :
    ∀ m ∈ members, DistinctKeys m.2 := by
  cases h with
  | obj _ hmembers => exact hmembers

theorem getn_mem {members : List (Bytes × Json S)} {key : Bytes} {v : Json S}
    (h : getn members key = some v) : (key, v) ∈ members := by
  obtain ⟨m, hfind, hv⟩ := Option.map_eq_some_iff.mp h
  have hkey : m.1 = key := beq_iff_eq.mp (@List.find?_some _ (fun m : Bytes × Json S ↦ m.1 == key) _ _ hfind)
  have hm := mem_of_find?_eq_some hfind
  rw [← hkey, ← hv]
  exact hm

theorem getn_of_mem {members : List (Bytes × Json S)} (hkeys : (members.map (·.1)).Nodup)
    {m : Bytes × Json S} (hm : m ∈ members) : getn members m.1 = some m.2 := by
  cases hget : getn members m.1 with
  | none =>
    have hnone := List.find?_eq_none.mp (Option.map_eq_none_iff.mp hget) m hm
    exact absurd (beq_self_eq_true m.1) hnone
  | some v =>
    have hsame := inj_on_of_nodup_map hkeys (getn_mem hget) hm rfl
    rw [← hsame]

theorem jsonArrayFuzzyEquals_iff (haystack needle : List (Json S)) :
    jsonArrayFuzzyEquals equals haystack needle = true ↔
      ∀ n ∈ needle, ∃ c ∈ haystack, jsonFuzzyEquals equals c n = true := by
  induction needle with
  | nil => simp [jsonArrayFuzzyEquals]
  | cons n needle ih =>
    unfold jsonArrayFuzzyEquals
    rw [Bool.and_eq_true, ih, any_eq_true, forall_mem_cons]

theorem jsonObjectFuzzyEquals_iff (haystack needle : List (Bytes × Json S)) :
    jsonObjectFuzzyEquals equals haystack needle = true ↔
      ∀ n ∈ needle, ∃ c, getn haystack n.1 = some c ∧ jsonFuzzyEquals equals c n.2 = true := by
  induction needle with
  | nil => simp [jsonObjectFuzzyEquals]
  | cons n needle ih =>
    obtain ⟨key, child⟩ := n
    unfold jsonObjectFuzzyEquals
    rw [forall_mem_cons]
    cases getn haystack key with
    | none => simp
    | some c => simp only [Bool.and_eq_true, ih, Option.some.injEq, exists_eq_left']

theorem jsonFuzzyEquals_of_equals {h n : Json S} (heq : equals h n = true) :
    jsonFuzzyEquals equals h n = true := by
  cases n with
  | scalar s => exact heq
  | arr | obj => unfold jsonFuzzyEquals; rw [heq, Bool.true_or]

variable {R : Json S → Json S → Prop}

theorem exists_of_forall₂ {ls rs : List (Json S)} (h : Forall₂ R ls rs) {r : Json S}
    (hr : r ∈ rs) : ∃ l ∈ ls, R l r := by
  induction h with
  | nil => cases hr
  | cons hhead _ ih =>
    cases hr with
    | head => exact ⟨_, mem_cons_self, hhead⟩
    | tail _ hr =>
      obtain ⟨l, hl, hrel⟩ := ih hr
      exact ⟨l, mem_cons_of_mem _ hl, hrel⟩

theorem exists_member {ls rs : List (Bytes × Json S)} (hkeys : ls.map (·.1) = rs.map (·.1))
    (h : Forall₂ R (ls.map (·.2)) (rs.map (·.2))) {r : Bytes × Json S} (hr : r ∈ rs) :
    ∃ l ∈ ls, l.1 = r.1 ∧ R l.2 r.2 := by
  induction rs generalizing ls with
  | nil => cases hr
  | cons r' rs ih =>
    cases ls with
    | nil => cases hkeys
    | cons l ls =>
      obtain ⟨hkey, hkeys⟩ := List.cons.inj hkeys
      cases h with
      | cons hhead hrest =>
        cases hr with
        | head => exact ⟨l, mem_cons_self, hkey, hhead⟩
        | tail _ hr =>
          obtain ⟨l', hl', hrel⟩ := ih hkeys hrest hr
          exact ⟨l', mem_cons_of_mem _ hl', hrel⟩

/-! ## 4. What embeds a needle -/

variable (hequals : IsStructural equals)

include hequals

theorem fuzzy_scalar {h : Json S} (hh : DistinctKeys h) (s : S) :
    jsonFuzzyEquals equals h (.scalar s) = true ↔ h = .scalar s := by
  unfold jsonFuzzyEquals
  rw [hequals h (.scalar s) hh (.scalar s)]
  constructor
  · intro hsame
    cases hsame
    rfl
  · rintro rfl
    exact .scalar s

theorem fuzzy_arr {h : Json S} (hh : DistinctKeys h) {needle : List (Json S)}
    (hn : DistinctKeys (.arr needle)) : jsonFuzzyEquals equals h (.arr needle) = true ↔
      ∃ haystack, h = .arr haystack ∧
        ∀ n ∈ needle, ∃ c ∈ haystack, jsonFuzzyEquals equals c n = true := by
  constructor
  · intro hfuzzy
    by_cases hstrict : equals h (.arr needle) = true
    · -- equal elements embed each other
      have hsame := (hequals h _ hh hn).mp hstrict
      cases hsame with
      | @arr ls _ hpairs =>
        refine ⟨ls, rfl, fun n hneedle => ?_⟩
        obtain ⟨c, hc, hcn⟩ := exists_of_forall₂ hpairs hneedle
        exact ⟨c, hc, jsonFuzzyEquals_of_equals
          ((hequals c n (hh.elements c hc) (hn.elements n hneedle)).mpr hcn)⟩
    · unfold jsonFuzzyEquals at hfuzzy
      rw [Bool.eq_false_iff.mpr hstrict, Bool.false_or] at hfuzzy
      cases h with
      | scalar | obj => cases hfuzzy
      | arr haystack => exact ⟨haystack, rfl, (jsonArrayFuzzyEquals_iff haystack needle).mp hfuzzy⟩
  · rintro ⟨haystack, rfl, hall⟩
    unfold jsonFuzzyEquals
    rw [Bool.or_eq_true]
    exact .inr ((jsonArrayFuzzyEquals_iff haystack needle).mpr hall)

theorem fuzzy_obj {h : Json S} (hh : DistinctKeys h) {needle : List (Bytes × Json S)}
    (hn : DistinctKeys (.obj needle)) : jsonFuzzyEquals equals h (.obj needle) = true ↔
      ∃ haystack, h = .obj haystack ∧
        ∀ n ∈ needle, ∃ c, getn haystack n.1 = some c ∧ jsonFuzzyEquals equals c n.2 = true := by
  constructor
  · intro hfuzzy
    by_cases hstrict : equals h (.obj needle) = true
    · have hsame := (hequals h _ hh hn).mp hstrict
      cases hsame with
      | @obj ls ms _ hperm hkeys hpairs =>
        refine ⟨ls, rfl, fun n hneedle => ?_⟩
        obtain ⟨m, hm, hkey, hmn⟩ := exists_member hkeys hpairs hneedle
        have hl := hperm.mem_iff.mpr hm
        refine ⟨m.2, ?_, ?_⟩
        · rw [← hkey]
          exact getn_of_mem hh.keys hl
        · exact jsonFuzzyEquals_of_equals
            ((hequals m.2 n.2 (hh.members m hl) (hn.members n hneedle)).mpr hmn)
    · unfold jsonFuzzyEquals at hfuzzy
      rw [Bool.eq_false_iff.mpr hstrict, Bool.false_or] at hfuzzy
      cases h with
      | scalar | arr => cases hfuzzy
      | obj haystack => exact ⟨haystack, rfl, (jsonObjectFuzzyEquals_iff haystack needle).mp hfuzzy⟩
  · rintro ⟨haystack, rfl, hall⟩
    unfold jsonFuzzyEquals
    rw [Bool.or_eq_true]
    exact .inr ((jsonObjectFuzzyEquals_iff haystack needle).mpr hall)

theorem jsonFuzzyEquals_refl (a : Json S) (ha : DistinctKeys a) : jsonFuzzyEquals equals a a = true := by
  induction a using Json.children_induction with
  | scalar s => exact (fuzzy_scalar hequals ha s).mpr rfl
  | arr elements ih =>
    apply (fuzzy_arr hequals ha ha).mpr
    exact ⟨elements, rfl, fun n hn => ⟨n, hn, ih n hn (ha.elements n hn)⟩⟩
  | obj members ih =>
    apply (fuzzy_obj hequals ha ha).mpr
    exact ⟨members, rfl, fun n hn => ⟨n.2, getn_of_mem ha.keys hn, ih n hn (ha.members n hn)⟩⟩

theorem jsonFuzzyEquals_trans {a b c : Json S} (ha : DistinctKeys a) (hb : DistinctKeys b)
    (hc : DistinctKeys c) (hab : jsonFuzzyEquals equals a b = true)
    (hbc : jsonFuzzyEquals equals b c = true) : jsonFuzzyEquals equals a c = true := by
  induction c using Json.children_induction generalizing a b with
  | scalar s =>
    rw [(fuzzy_scalar hequals hb s).mp hbc] at hab
    exact hab
  | arr needle ih =>
    obtain ⟨middle, rfl, hmiddle⟩ := (fuzzy_arr hequals hb hc).mp hbc
    obtain ⟨haystack, rfl, hhaystack⟩ := (fuzzy_arr hequals ha hb).mp hab
    apply (fuzzy_arr hequals ha hc).mpr
    refine ⟨haystack, rfl, fun n hn => ?_⟩
    obtain ⟨m, hm, hmn⟩ := hmiddle n hn
    obtain ⟨h, hh, hhm⟩ := hhaystack m hm
    exact ⟨h, hh, ih n hn (ha.elements h hh) (hb.elements m hm) (hc.elements n hn) hhm hmn⟩
  | obj needle ih =>
    obtain ⟨middle, rfl, hmiddle⟩ := (fuzzy_obj hequals hb hc).mp hbc
    obtain ⟨haystack, rfl, hhaystack⟩ := (fuzzy_obj hequals ha hb).mp hab
    apply (fuzzy_obj hequals ha hc).mpr
    refine ⟨haystack, rfl, fun n hn => ?_⟩
    obtain ⟨m, hgetm, hmn⟩ := hmiddle n hn
    have hm := getn_mem hgetm
    obtain ⟨h, hgeth, hhm⟩ := hhaystack (n.1, m) hm
    have hh := getn_mem hgeth
    exact ⟨h, hgeth, ih n hn (ha.members _ hh) (hb.members _ hm) (hc.members n hn) hhm hmn⟩

end

/-! ## 5. Containment -/

section

variable {S : Type} {equals : Json S → Json S → Bool}

/-- A document or one of the documents nested in it. -/
inductive Node : Json S → Json S → Prop
  | self (v : Json S) : Node v v
  | element {d v : Json S} {elements : List (Json S)} : v ∈ elements → Node d v →
      Node d (.arr elements)
  | member {d : Json S} {m : Bytes × Json S} {members : List (Bytes × Json S)} : m ∈ members →
      Node d m.2 → Node d (.obj members)

theorem DistinctKeys.node {d v : Json S} (h : Node d v) (hv : DistinctKeys v) : DistinctKeys d := by
  induction h with
  | self => exact hv
  | element hmem _ ih => exact ih (hv.elements _ hmem)
  | member hmem _ ih => exact ih (hv.members _ hmem)

theorem Node.trans {c d v : Json S} (hc : Node c d) (hd : Node d v) : Node c v := by
  induction hd with
  | self => exact hc
  | element hmem _ ih => exact .element hmem ih
  | member hmem _ ih => exact .member hmem ih

mutual

theorem jsonContains_iff (v needle : Json S) :
    jsonContains equals v needle = true ↔ ∃ d, Node d v ∧ jsonFuzzyEquals equals d needle = true := by
  cases v with
  | scalar s =>
    constructor
    · exact fun h => ⟨_, .self _, h⟩
    · rintro ⟨d, hd, h⟩
      cases hd
      exact h
  | arr elements =>
    unfold jsonContains
    rw [Bool.or_eq_true, jsonArrayContains_iff elements needle]
    constructor
    · rintro (h | ⟨w, hw, d, hd, h⟩)
      · exact ⟨_, .self _, h⟩
      · exact ⟨d, .element hw hd, h⟩
    · rintro ⟨d, hd, h⟩
      cases hd with
      | self => exact .inl h
      | element hw hd => exact .inr ⟨_, hw, d, hd, h⟩
  | obj members =>
    unfold jsonContains
    rw [Bool.or_eq_true, jsonObjectContains_iff members needle]
    constructor
    · rintro (h | ⟨m, hm, d, hd, h⟩)
      · exact ⟨_, .self _, h⟩
      · exact ⟨d, .member hm hd, h⟩
    · rintro ⟨d, hd, h⟩
      cases hd with
      | self => exact .inl h
      | member hm hd => exact .inr ⟨_, hm, d, hd, h⟩

theorem jsonArrayContains_iff (elements : List (Json S)) (needle : Json S) :
    jsonArrayContains equals elements needle = true ↔
      ∃ w ∈ elements, ∃ d, Node d w ∧ jsonFuzzyEquals equals d needle = true := by
  cases elements with
  | nil => simp [jsonArrayContains]
  | cons v rest =>
    unfold jsonArrayContains
    rw [Bool.or_eq_true, jsonContains_iff v needle, jsonArrayContains_iff rest needle,
      exists_mem_cons_iff]

theorem jsonObjectContains_iff (members : List (Bytes × Json S)) (needle : Json S) :
    jsonObjectContains equals members needle = true ↔
      ∃ m ∈ members, ∃ d, Node d m.2 ∧ jsonFuzzyEquals equals d needle = true := by
  cases members with
  | nil => simp [jsonObjectContains]
  | cons m rest =>
    obtain ⟨key, v⟩ := m
    unfold jsonObjectContains
    rw [Bool.or_eq_true, jsonContains_iff v needle, jsonObjectContains_iff rest needle,
      exists_mem_cons_iff]

end

theorem exists_node (hequals : IsStructural equals) {a b d : Json S} (ha : DistinctKeys a)
    (hb : DistinctKeys b) (hab : jsonFuzzyEquals equals a b = true) (hd : Node d b) :
    ∃ e, Node e a ∧ jsonFuzzyEquals equals e d = true := by
  induction hd generalizing a with
  | self => exact ⟨a, .self a, hab⟩
  | element hmem _ ih =>
    obtain ⟨haystack, rfl, hall⟩ := (fuzzy_arr hequals ha hb).mp hab
    obtain ⟨c, hc, hcn⟩ := hall _ hmem
    obtain ⟨e, he, hed⟩ := ih (ha.elements c hc) (hb.elements _ hmem) hcn
    exact ⟨e, .element hc he, hed⟩
  | member hmem _ ih =>
    obtain ⟨haystack, rfl, hall⟩ := (fuzzy_obj hequals ha hb).mp hab
    obtain ⟨c, hget, hcn⟩ := hall _ hmem
    have hc := getn_mem hget
    obtain ⟨e, he, hed⟩ := ih (ha.members _ hc) (hb.members _ hmem) hcn
    exact ⟨e, .member hc he, hed⟩

/-- Containment and embedding are preorders on the documents without duplicate keys. -/
theorem json_contains_preorder (hequals : IsStructural equals) :
    (∀ a, DistinctKeys a → jsonContains equals a a = true ∧ jsonFuzzyEquals equals a a = true) ∧
    ∀ a b c, DistinctKeys a → DistinctKeys b → DistinctKeys c →
      (jsonContains equals a b = true → jsonContains equals b c = true →
        jsonContains equals a c = true) ∧
      (jsonFuzzyEquals equals a b = true → jsonFuzzyEquals equals b c = true →
        jsonFuzzyEquals equals a c = true) := by
  constructor
  · intro a ha
    have hrefl := jsonFuzzyEquals_refl hequals a ha
    exact ⟨(jsonContains_iff a a).mpr ⟨a, .self a, hrefl⟩, hrefl⟩
  · intro a b c ha hb hc
    refine ⟨?_, jsonFuzzyEquals_trans hequals ha hb hc⟩
    intro hab hbc
    obtain ⟨d, hd, hdb⟩ := (jsonContains_iff a b).mp hab
    obtain ⟨e, he, hec⟩ := (jsonContains_iff b c).mp hbc
    have hdKeys := ha.node hd
    obtain ⟨f, hf, hfe⟩ := exists_node hequals hdKeys hb hdb he
    apply (jsonContains_iff a c).mpr
    exact ⟨f, hf.trans hd, jsonFuzzyEquals_trans hequals (hdKeys.node hf) (hb.node he) hc hfe hec⟩

end

/-! ## 6. An equality -/

section

variable {S : Type} [DecidableEq S]

mutual

/-- Members are as many, and are looked up under their keys. -/
def sameTree : Json S → Json S → Bool
  | .scalar a, .scalar b => a = b
  | .arr ls, .arr rs => sameElements ls rs
  | .obj ls, .obj rs => decide (ls.length = rs.length) && sameMembers ls rs
  | _, _ => false

def sameElements : List (Json S) → List (Json S) → Bool
  | [], [] => true
  | l :: ls, r :: rs => sameTree l r && sameElements ls rs
  | _, _ => false

def sameMembers (ls : List (Bytes × Json S)) : List (Bytes × Json S) → Bool
  | [] => true
  | (key, r) :: rs =>
    match getn ls key with
    | none => false
    | some l => sameTree l r && sameMembers ls rs

end

theorem sameElements_iff (ls rs : List (Json S)) :
    sameElements ls rs = true ↔ Forall₂ (fun l r => sameTree l r = true) ls rs := by
  induction ls generalizing rs with
  | nil => cases rs <;> simp [sameElements]
  | cons l ls ih =>
    cases rs with
    | nil => simp [sameElements]
    | cons r rs =>
      unfold sameElements
      rw [Bool.and_eq_true, ih, forall₂_cons]

theorem sameMembers_iff (ls rs : List (Bytes × Json S)) : sameMembers ls rs = true ↔
    ∀ r ∈ rs, ∃ l, getn ls r.1 = some l ∧ sameTree l r.2 = true := by
  induction rs with
  | nil => simp [sameMembers]
  | cons r rs ih =>
    obtain ⟨key, v⟩ := r
    unfold sameMembers
    rw [forall_mem_cons]
    cases getn ls key with
    | none => simp
    | some l => simp only [Bool.and_eq_true, ih, Option.some.injEq, exists_eq_left']

omit [DecidableEq S] in
theorem forall₂_congr_mem {R R' : Json S → Json S → Prop} {ls rs : List (Json S)}
    (h : ∀ l ∈ ls, ∀ r ∈ rs, (R l r ↔ R' l r)) : Forall₂ R ls rs ↔ Forall₂ R' ls rs := by
  induction ls generalizing rs with
  | nil => cases rs <;> simp
  | cons l ls ih =>
    cases rs with
    | nil => simp
    | cons r rs =>
      rw [forall₂_cons, forall₂_cons, h l mem_cons_self r mem_cons_self,
        ih fun l hl r hr => h l (mem_cons_of_mem _ hl) r (mem_cons_of_mem _ hr)]

theorem sameTree_structural : IsStructural (sameTree : Json S → Json S → Bool) := by
  intro a b ha hb
  induction b using Json.children_induction generalizing a with
  | scalar s =>
    cases a with
    | scalar s' =>
      unfold sameTree
      rw [decide_eq_true_iff]
      constructor
      · rintro rfl
        exact .scalar s'
      · intro h
        cases h
        rfl
    | arr | obj => exact Iff.intro (fun h => by cases h) (fun h => by cases h)
  | arr rs ih =>
    cases a with
    | scalar | obj => exact Iff.intro (fun h => by cases h) (fun h => by cases h)
    | arr ls =>
      unfold sameTree
      rw [sameElements_iff, forall₂_congr_mem fun l hl r hr =>
        ih r hr l (ha.elements l hl) (hb.elements r hr)]
      constructor
      · exact .arr
      · intro h
        cases h with
        | arr hpairs => exact hpairs
  | obj rs ih =>
    cases a with
    | scalar | arr => exact Iff.intro (fun h => by cases h) (fun h => by cases h)
    | obj ls =>
      unfold sameTree
      rw [Bool.and_eq_true, decide_eq_true_iff, sameMembers_iff]
      constructor
      · rintro ⟨hlength, hall⟩
        -- the members in the order of the right side
        have hfound : ∀ r ∈ rs, (r.1, (getn ls r.1).getD r.2) ∈ ls ∧
            Same ((getn ls r.1).getD r.2) r.2 := by
          intro r hr
          obtain ⟨l, hget, hsame⟩ := hall r hr
          rw [hget]
          have hl := getn_mem hget
          exact ⟨hl, (ih r hr l (ha.members _ hl) (hb.members r hr)).mp hsame⟩
        have hkeys : (rs.map fun r => (r.1, (getn ls r.1).getD r.2)).map (·.1) = rs.map (·.1) := by
          rw [map_map]
          rfl
        have hnodup : (rs.map fun r => (r.1, (getn ls r.1).getD r.2)).Nodup := by
          apply List.Nodup.of_map (·.1)
          rw [hkeys]
          exact hb.keys
        have hsubset : (rs.map fun r => (r.1, (getn ls r.1).getD r.2)) ⊆ ls := by
          intro m hm
          obtain ⟨r, hr, rfl⟩ := mem_map.mp hm
          exact (hfound r hr).1
        have hperm := (subperm_of_subset hnodup hsubset).perm_of_length_le
          (by rw [length_map, hlength])
        refine .obj hperm.symm hkeys ?_
        rw [map_map, forall₂_map_left_iff, forall₂_map_right_iff, forall₂_same]
        exact fun r hr => (hfound r hr).2
      · intro h
        cases h with
        | @obj _ ms _ hperm hkeys hpairs =>
          have hlength := congrArg List.length hkeys
          rw [length_map, length_map, ← hperm.length_eq] at hlength
          refine ⟨hlength, fun r hr => ?_⟩
          obtain ⟨m, hm, hkey, hsame⟩ := exists_member hkeys hpairs hr
          have hl := hperm.mem_iff.mpr hm
          refine ⟨m.2, hkey ▸ getn_of_mem ha.keys hl, ?_⟩
          exact (ih r hr m.2 (ha.members m hl) (hb.members r hr)).mpr hsame

end

theorem DistinctKeys.single {v : Json Nat} (h : DistinctKeys v) : DistinctKeys (.arr [v]) := by
  apply DistinctKeys.arr
  intro w hw
  rw [mem_singleton.mp hw]
  exact h

theorem json_contains_preorder_nested :
    jsonContains sameTree (.arr [.arr [.arr [.scalar 3]]]) (.arr [.arr [.scalar 3]]) = true ∧
    jsonContains sameTree (.arr [.arr [.scalar 3]]) (.scalar 3) = true ∧
    jsonContains sameTree (.arr [.arr [.arr [.scalar 3]]]) (.scalar 3) = true := by
  have hb : DistinctKeys (.arr [.arr [.scalar 3]]) := (DistinctKeys.scalar 3).single.single
  have hab : jsonContains sameTree (.arr [.arr [.arr [.scalar 3]]]) (.arr [.arr [.scalar 3]]) = true := by
    decide
  have hbc : jsonContains sameTree (.arr [.arr [.scalar 3]]) (.scalar 3) = true := by decide
  exact ⟨hab, hbc, ((json_contains_preorder sameTree_structural).2 _ _ _ hb.single hb
    (.scalar 3)).1 hab hbc⟩

end Ladybug.JsonContains
