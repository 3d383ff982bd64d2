import Ladybug.Base.Bytes
import Mathlib.Data.List.Nodup

/-!
# Conditions and the precedence of their operators

A condition is a tree in which each level of operators binds tighter than the level above it.  Its text
determines the tree.  Where conditions are joined as texts by the tightest operator, the tree of the
joined text is not always their conjunction.
-/

namespace Ladybug

open List

inductive CondToken (A : Type) where
  | atom (a : A)
  | neg
  | left
  | right
  | op (n : Nat)
  deriving DecidableEq

/-- The conditions of a level; level `n + 1` has operator `n`, and level 0 the negation.  What is in
parentheses is of the top level. -/
inductive Condition (A : Type) (top : Nat) : Nat → Type where
  | atom (a : A) : Condition A top 0
  | neg (e : Condition A top 0) : Condition A top 0
  | paren (e : Condition A top top) : Condition A top 0
  | single {n : Nat} (e : Condition A top n) : Condition A top (n + 1)
  | op {n : Nat} (e : Condition A top n) (rest : Condition A top (n + 1)) : Condition A top (n + 1)

namespace Condition

variable {A B V : Type} {top n : Nat}

def tokens : {n : Nat} → Condition A top n → List (CondToken A)
  | _, .atom a => [.atom a]
  | _, .neg e => .neg :: e.tokens
  | _, .paren e => .left :: (e.tokens ++ [.right])
  | _, .single e => e.tokens
  | _, @Condition.op _ _ n e rest => e.tokens ++ .op n :: rest.tokens

def atoms : {n : Nat} → Condition A top n → List A
  | _, .atom a => [a]
  | _, .neg e => e.atoms
  | _, .paren e => e.atoms
  | _, .single e => e.atoms
  | _, .op e rest => e.atoms ++ rest.atoms

def eval (neg : V → V) (op : Nat → V → V → V) (value : A → V) : {n : Nat} → Condition A top n → V
  | _, .atom a => value a
  | _, .neg e => neg (e.eval neg op value)
  | _, .paren e => e.eval neg op value
  | _, .single e => e.eval neg op value
  | _, @Condition.op _ _ n e rest => op n (e.eval neg op value) (rest.eval neg op value)

/-- What follows a condition of the level does not go on with one of its operators. -/
def Ends (n : Nat) (rest : List (CondToken A)) : Prop :=
  ∀ k tail, rest = CondToken.op k :: tail → n ≤ k

theorem Ends.mono {rest : List (CondToken A)} (h : Ends (n + 1) rest) : Ends n rest :=
  fun k tail hrest => Nat.le_of_succ_le (h k tail hrest)

theorem ends_op (n : Nat) (rest : List (CondToken A)) : Ends n (.op n :: rest) := by
  intro k tail hrest
  cases hrest
  exact Nat.le_refl n

theorem ends_right (n : Nat) (rest : List (CondToken A)) : Ends n (.right :: rest) := by
  intro k tail hrest
  cases hrest

variable {e e' : Condition A top n} {r p : Condition A top (n + 1)} {v w : A → Bool}

theorem tokens_append {rest rest' : List (CondToken A)} (hrest : Ends n rest)
    (hrest' : Ends n rest') (h : e.tokens ++ rest = e'.tokens ++ rest') :
    e = e' ∧ rest = rest' := by
  induction e generalizing rest rest' with
  | atom a =>
    cases e' with
    | atom b =>
      cases h
      exact ⟨rfl, rfl⟩
    | neg | paren => cases h
  | neg e ih =>
    cases e' with
    | atom | paren => cases h
    | neg f =>
      obtain ⟨hsame, hrests⟩ := ih hrest hrest' (List.cons.inj h).2
      exact ⟨congrArg _ hsame, hrests⟩
  | paren e ih =>
    cases e' with
    | atom | neg => cases h
    | paren f =>
      have htail : e.tokens ++ ([.right] ++ rest) = f.tokens ++ ([.right] ++ rest') := by
        rw [← append_assoc, ← append_assoc]
        exact (List.cons.inj h).2
      obtain ⟨hsame, hrests⟩ := ih (ends_right top rest) (ends_right top rest') htail
      exact ⟨congrArg _ hsame, (List.cons.inj hrests).2⟩
  | @single n e ih =>
    cases e' with
    | single f =>
      obtain ⟨hsame, hrests⟩ := ih hrest.mono hrest'.mono h
      exact ⟨congrArg _ hsame, hrests⟩
    | op f tail =>
      have htail : e.tokens ++ rest = f.tokens ++ (.op n :: tail.tokens ++ rest') :=
        h.trans (append_assoc _ _ _)
      obtain ⟨_, hrests⟩ := ih hrest.mono (ends_op n _) htail
      exact absurd (hrest n _ hrests) (Nat.not_succ_le_self n)
  | @op n e tail ihe ihtail =>
    cases e' with
    | single f =>
      have htail : e.tokens ++ (.op n :: tail.tokens ++ rest) = f.tokens ++ rest' :=
        (append_assoc _ _ _).symm.trans h
      obtain ⟨_, hrests⟩ := ihe (ends_op n _) hrest'.mono htail
      exact absurd (hrest' n _ hrests.symm) (Nat.not_succ_le_self n)
    | op f tail' =>
      have htail : e.tokens ++ (.op n :: tail.tokens ++ rest) =
          f.tokens ++ (.op n :: tail'.tokens ++ rest') :=
        ((append_assoc _ _ _).symm.trans h).trans (append_assoc _ _ _)
      obtain ⟨hsame, hrests⟩ := ihe (ends_op n _) (ends_op n _) htail
      obtain ⟨hsame', hrests'⟩ := ihtail hrest hrest' (List.cons.inj hrests).2
      rw [hsame, hsame']
      exact ⟨rfl, hrests'⟩

theorem tokens_injective (h : e.tokens = e'.tokens) : e = e' := by
  have hnil : Ends n ([] : List (CondToken A)) := by
    intro k tail hrest
    cases hrest
  apply (tokens_append hnil hnil _).1
  rw [h]

def atomOf : CondToken A → Option A
  | .atom a => some a
  | _ => none

theorem filterMap_tokens (e : Condition A top n) : e.tokens.filterMap atomOf = e.atoms := by
  induction e with
  | atom a => rfl
  | neg e ih | single e ih => exact ih
  | paren e ih =>
    show (e.tokens ++ [CondToken.right]).filterMap atomOf = e.atoms
    rw [filterMap_append, ih]
    exact append_nil _
  | @op n e rest ih ihrest =>
    show (e.tokens ++ .op n :: rest.tokens).filterMap atomOf = e.atoms ++ rest.atoms
    rw [filterMap_append, ih, ← ihrest]
    rfl

/-- An operand of the tightest operator as a condition of a level. -/
def lift (e : Condition A top 0) : (n : Nat) → Condition A top n
  | 0 => e
  | n + 1 => .single (e.lift n)

/-- Each atom replaced by an operand, where every atom has one. -/
def replace {E : Type} (f : A → Except E (Condition B top 0)) :
    {n : Nat} → Condition A top n → Except E (Condition B top n)
  | _, .atom a => f a
  | _, .neg e => (e.replace f).map .neg
  | _, .paren e => (e.replace f).map .paren
  | _, .single e => (e.replace f).map .single
  | _, .op e rest => do
      let e ← e.replace f
      let rest ← rest.replace f
      .ok (.op e rest)

/-- The condition that two texts are when operator 0 stands between them: it takes the nearest operands
of the tightest level. -/
def joined : {n : Nat} → Condition A top (n + 1) → Condition A top (n + 1) → Condition A top (n + 1)
  | 0, .single e, r => .op e r
  | 0, .op e rest, r => .op e (joined rest r)
  | _ + 1, .single e, .single f => .single (joined e f)
  | _ + 1, .single e, .op f rest => .op (joined e f) rest
  | _ + 1, .op e rest, r => .op e (joined rest r)

/-- Nothing but operands of operator 0, outside of parentheses. -/
def tight : {n : Nat} → Condition A top (n + 1) → Bool
  | 0, _ => true
  | _ + 1, .single e => e.tight
  | _ + 1, .op _ _ => false

theorem op_tokens (e : Condition A top n) (rest : Condition A top (n + 1)) :
    (Condition.op e rest).tokens = e.tokens ++ .op n :: rest.tokens := rfl

theorem joined_tokens (l r : Condition A top (n + 1)) :
    (joined l r).tokens = l.tokens ++ .op 0 :: r.tokens := by
  fun_induction joined l r with
  | case1 e r => rfl
  | case2 e rest r ih => rw [op_tokens, ih, op_tokens, append_assoc, cons_append]
  | case3 n e f ih => exact ih
  | case4 n e f rest ih =>
    show (joined e f).tokens ++ _ = e.tokens ++ .op 0 :: (f.tokens ++ _)
    rw [ih, append_assoc, cons_append]
  | case5 n e rest r ih => rw [op_tokens, ih, op_tokens, append_assoc, cons_append]

theorem joined_atoms (l r : Condition A top (n + 1)) : (joined l r).atoms = l.atoms ++ r.atoms := by
  fun_induction joined l r with
  | case1 e r => rfl
  | case2 e rest r ih =>
    show e.atoms ++ (joined rest r).atoms = e.atoms ++ rest.atoms ++ r.atoms
    rw [ih, append_assoc]
  | case3 n e f ih => exact ih
  | case4 n e f rest ih =>
    show (joined e f).atoms ++ rest.atoms = e.atoms ++ (f.atoms ++ rest.atoms)
    rw [ih, append_assoc]
  | case5 n e rest r ih =>
    show e.atoms ++ (joined rest r).atoms = e.atoms ++ rest.atoms ++ r.atoms
    rw [ih, append_assoc]

theorem joined_tight (l r : Condition A top (n + 1)) : (joined l r).tight = (l.tight && r.tight) := by
  fun_induction joined l r with
  | case1 e r => rfl
  | case2 e rest r ih => rfl
  | case3 n e f ih => exact ih
  | case4 n e f rest ih => exact (Bool.and_false _).symm
  | case5 n e rest r ih => rfl

theorem joined_eval {neg : V → V} {op : Nat → V → V → V} {value : A → V}
    (hassoc : ∀ a b c, op 0 (op 0 a b) c = op 0 a (op 0 b c)) {l : Condition A top (n + 1)}
    (hl : l.tight = true) (hr : r.tight = true) :
    (joined l r).eval neg op value = op 0 (l.eval neg op value) (r.eval neg op value) := by
  fun_induction joined l r with
  | case1 e r => rfl
  | case2 e rest r ih =>
    show op 0 (e.eval neg op value) ((joined rest r).eval neg op value) =
      op 0 (op 0 (e.eval neg op value) (rest.eval neg op value)) (r.eval neg op value)
    rw [ih rfl rfl, hassoc]
  | case3 n e f ih => exact ih hl hr
  | case4 n e f rest ih => cases hr
  | case5 n e rest r ih => cases hl

def joinAll (first : Condition A top (n + 1)) : List (Condition A top (n + 1)) → Condition A top (n + 1)
  | [] => first
  | next :: rest => joined first (joinAll next rest)

/-- The texts with operator 0 between them. -/
def joinTokens (first : List (CondToken A)) : List (List (CondToken A)) → List (CondToken A)
  | [] => first
  | next :: rest => first ++ .op 0 :: joinTokens next rest

section

variable (first : Condition A top (n + 1)) (rest : List (Condition A top (n + 1)))

include first rest

theorem joinAll_tokens :
    (joinAll first rest).tokens = joinTokens first.tokens (rest.map tokens) := by
  induction rest generalizing first with
  | nil => rfl
  | cons next rest ih =>
    show (joined first (joinAll next rest)).tokens = _
    rw [joined_tokens, ih]
    rfl

theorem joinAll_tight : (joinAll first rest).tight = ((first :: rest).all tight) := by
  induction rest generalizing first with
  | nil => exact (Bool.and_true _).symm
  | cons next rest ih =>
    show (joined first (joinAll next rest)).tight = _
    rw [joined_tight, ih]
    rfl

theorem joinAll_atoms : (joinAll first rest).atoms = (first :: rest).flatMap atoms := by
  induction rest generalizing first with
  | nil => exact (append_nil _).symm
  | cons next rest ih =>
    show (joined first (joinAll next rest)).atoms = _
    rw [joined_atoms, ih]
    rfl

end

/-- True, false or unknown. -/
abbrev Truth := Option Bool

def Truth.not (a : Truth) : Truth := a.map Bool.not

def Truth.and : Truth → Truth → Truth
  | some false, _ => some false
  | _, some false => some false
  | some true, some true => some true
  | _, _ => none

def Truth.or (a b : Truth) : Truth := (a.not.and b.not).not

def Truth.xor (a b : Truth) : Truth := a.bind fun x => b.map (Bool.xor x)

/-- The operators from the tightest one on: conjunction, exclusive disjunction, disjunction. -/
def Truth.op : Nat → Truth → Truth → Truth
  | 0 => Truth.and
  | 1 => Truth.xor
  | _ => Truth.or

theorem Truth.and_assoc (a b c : Truth) : (a.and b).and c = a.and (b.and c) := by
  rcases a with _ | _ | _ <;> rcases b with _ | _ | _ <;> rcases c with _ | _ | _ <;> rfl

theorem Truth.and_eq_true {a b : Truth} : a.and b = some true ↔ a = some true ∧ b = some true := by
  rcases a with _ | _ | _ <;> rcases b with _ | _ | _ <;> decide

def truth (value : A → Truth) (e : Condition A top n) : Truth := e.eval Truth.not Truth.op value

def Accepts (value : A → Truth) (e : Condition A top n) : Prop := e.truth value = some true

theorem accepts_joinAll (value : A → Truth) {first : Condition A top (n + 1)}
    {rest : List (Condition A top (n + 1))} (htight : (first :: rest).all tight = true) :
    (joinAll first rest).Accepts value ↔ ∀ e ∈ first :: rest, e.Accepts value := by
  induction rest generalizing first with
  | nil => exact forall_mem_singleton.symm
  | cons next rest ih =>
    rw [all_cons, Bool.and_eq_true] at htight
    have hrest := joinAll_tight next rest
    rw [htight.2] at hrest
    rw [forall_mem_cons, ← ih htight.2]
    show (joined first (joinAll next rest)).truth value = some true ↔ _
    unfold truth
    rw [joined_eval Truth.and_assoc htight.1 hrest]
    exact Truth.and_eq_true

theorem lift_truth (value : A → Truth) (e : Condition A top 0) (n : Nat) :
    (e.lift n).truth value = e.truth value := by
  induction n with
  | zero => rfl
  | succ n ih => exact ih

theorem lift_tight (e : Condition A top 0) (n : Nat) : (e.lift (n + 1)).tight = true := by
  induction n with
  | zero => rfl
  | succ n ih => exact ih

section

variable {E : Type} {f : A → Except E (Condition B top 0)}

theorem map_eq_ok {α β : Type} {x : Except E α} {g : α → β} {b : β} (h : x.map g = .ok b) :
    ∃ a, x = .ok a ∧ g a = b := by
  cases x with
  | error error => cases h
  | ok a => exact ⟨a, rfl, Except.ok.inj h⟩

variable {e : Condition A top n} {c : Condition B top (n + 1)}

theorem replace_op {rest : Condition A top (n + 1)} (h : (Condition.op e rest).replace f = .ok c) :
    ∃ e' rest', e.replace f = .ok e' ∧ rest.replace f = .ok rest' ∧ c = .op e' rest' := by
  obtain ⟨e', he, h⟩ := bind_eq_ok.mp h
  obtain ⟨rest', hrest, h⟩ := bind_eq_ok.mp h
  exact ⟨e', rest', he, hrest, (Except.ok.inj h).symm⟩

theorem replace_truth {value : B → Truth} {value' : A → Truth}
    (hf : ∀ a c, f a = .ok c → c.truth value = value' a) {c : Condition B top n}
    (h : e.replace f = .ok c) : c.truth value = e.truth value' := by
  induction e with
  | atom a => exact hf a c h
  | neg e ih =>
    obtain ⟨c, hc, rfl⟩ := map_eq_ok h
    exact congrArg Truth.not (ih hc)
  | paren e ih | single e ih =>
    obtain ⟨c, hc, rfl⟩ := map_eq_ok h
    exact ih hc
  | @op n e rest ih ihrest =>
    obtain ⟨c, c', hc, hc', rfl⟩ := replace_op h
    exact congrArg₂ (Truth.op n) (ih hc) (ihrest hc')

theorem replace_tight {e : Condition A top (n + 1)} (h : e.replace f = .ok c) :
    c.tight = e.tight := by
  induction n with
  | zero => rfl
  | succ n ih =>
    cases e with
    | single e =>
      obtain ⟨c, hc, rfl⟩ := map_eq_ok h
      exact ih hc
    | op e rest =>
      obtain ⟨c, c', _, _, rfl⟩ := replace_op h
      rfl

end

/-- The operators on two truth values. -/
def boolOp : Nat → Bool → Bool → Bool
  | 0 => Bool.and
  | 1 => Bool.xor
  | _ => Bool.or

def holds (value : A → Bool) (e : Condition A top n) : Bool := e.eval Bool.not boolOp value

theorem op_some (k : Nat) (a b : Bool) : Truth.op k (some a) (some b) = some (boolOp k a b) := by
  rcases k with _ | _ | k <;> cases a <;> cases b <;> rfl

theorem truth_of_holds (value : A → Bool) (e : Condition A top n) :
    e.truth (fun a => some (value a)) = some (e.holds value) := by
  induction e with
  | atom a => rfl
  | neg e ih =>
    show Truth.not (e.truth fun a => some (value a)) = some (!e.holds value)
    rw [ih]
    rfl
  | paren e ih | single e ih => exact ih
  | @op n e rest ih ihrest =>
    show Truth.op n (e.truth fun a => some (value a)) (rest.truth fun a => some (value a)) =
      some (boolOp n (e.holds value) (rest.holds value))
    rw [ih, ihrest, op_some]

theorem holds_congr (h : ∀ a ∈ e.atoms, v a = w a) : e.holds v = e.holds w := by
  induction e with
  | atom a => exact h a mem_cons_self
  | neg e ih => exact congrArg Bool.not (ih h)
  | paren e ih | single e ih => exact ih h
  | @op n e rest ih ihrest =>
    have hleft := ih fun a ha => h a (mem_append_left _ ha)
    have hright := ihrest fun a ha => h a (mem_append_right _ ha)
    show boolOp n (e.holds v) (rest.holds v) = boolOp n (e.holds w) (rest.holds w)
    rw [hleft, hright]

open Classical in
/-- The values of the first assignment at the atoms of a condition, and of the second elsewhere. -/
noncomputable def assign (e : Condition A top n) (v w : A → Bool) (a : A) : Bool :=
  if a ∈ e.atoms then v a else w a

theorem holds_assign (e : Condition A top n) (v w : A → Bool) : e.holds (assign e v w) = e.holds v :=
  holds_congr fun _ ha => if_pos ha

theorem holds_assign_other {m : Nat} {f : Condition A top m} (hdisjoint : e.atoms.Disjoint f.atoms)
    (v w : A → Bool) : f.holds (assign e v w) = f.holds w :=
  holds_congr fun _ ha => if_neg fun hmem => hdisjoint hmem ha

theorem assign_outside {a : A} (ha : a ∉ e.atoms) : assign e v w a = w a := if_neg ha

theorem exists_holds (e : Condition A top n) (hatoms : e.atoms.Nodup) (b : Bool) :
    ∃ v : A → Bool, e.holds v = b := by
  induction e generalizing b with
  | atom a => exact ⟨fun _ => b, rfl⟩
  | neg e ih =>
    obtain ⟨v, hv⟩ := ih hatoms !b
    refine ⟨v, ?_⟩
    show (!e.holds v) = b
    rw [hv, Bool.not_not]
  | paren e ih | single e ih => exact ih hatoms b
  | @op n e rest ih ihrest =>
    obtain ⟨hleft, hright, hdisjoint⟩ := nodup_append'.mp hatoms
    obtain ⟨v, hv⟩ := ih hleft b
    obtain ⟨w, hw⟩ := ihrest hright (if n = 1 then false else b)
    refine ⟨assign e v w, ?_⟩
    show boolOp n (e.holds (assign e v w)) (rest.holds (assign e v w)) = b
    rw [holds_assign, holds_assign_other hdisjoint, hv, hw]
    rcases n with _ | _ | n <;> cases b <;> rfl

/-- A condition that is not tight holds with whatever is joined behind it, for some values of its own
atoms. -/
theorem joined_holds_of_loose (hp : p.tight = false) (hatoms : p.atoms.Nodup)
    (hdisjoint : p.atoms.Disjoint r.atoms) (w : A → Bool) :
    ∃ v : A → Bool, (∀ a, a ∉ p.atoms → v a = w a) ∧ (joined p r).holds v = true := by
  fun_induction joined p r with
  | case1 e r => cases hp
  | case2 e rest r ih => cases hp
  | case3 n e f ih => exact ih hp hatoms hdisjoint
  | case4 n e f rest ih =>
    obtain ⟨v, hv, htrue⟩ := ih hp hatoms fun _ ha hb => hdisjoint ha (mem_append_left _ hb)
    refine ⟨v, hv, ?_⟩
    show boolOp (n + 1) ((joined e f).holds v) (rest.holds v) = true
    cases n with
    -- operands of operator 0 alone are tight
    | zero => cases hp
    | succ n =>
      rw [htrue]
      rfl
  | case5 n e rest r ih =>
    obtain ⟨hleft, _, hrest⟩ := nodup_append'.mp hatoms
    have hbehind : e.atoms.Disjoint (joined rest r).atoms := by
      rw [joined_atoms]
      exact disjoint_append_right.mpr ⟨hrest, fun _ ha hb => hdisjoint (mem_append_left _ ha) hb⟩
    obtain ⟨u, hu⟩ := exists_holds e hleft (if n = 0 then !(joined rest r).holds w else true)
    refine ⟨assign e u w, ?_, ?_⟩
    · exact fun a ha => assign_outside fun hmem => ha (mem_append_left _ hmem)
    · show boolOp (n + 1) (e.holds (assign e u w)) ((joined rest r).holds (assign e u w)) = true
      rw [holds_assign, holds_assign_other hbehind, hu]
      cases n with
      | zero =>
        cases (joined rest r).holds w <;> rfl
      | succ n => rfl

/-- A tight condition is not required by the text in which a condition that is not tight is joined
behind it. -/
theorem joined_holds_before_loose (hp : p.tight = true) (hr : r.tight = false)
    (hpatoms : p.atoms.Nodup) (hratoms : r.atoms.Nodup) (hdisjoint : p.atoms.Disjoint r.atoms) :
    ∃ v : A → Bool, p.holds v = false ∧ (joined p r).holds v = true := by
  fun_induction joined p r with
  | case1 e r => cases hr
  | case2 e rest r ih => cases hr
  | case3 n e f ih => exact ih hp hr hpatoms hratoms hdisjoint
  | case4 n e f rest ih =>
    obtain ⟨_, hright, _⟩ := nodup_append'.mp hratoms
    obtain ⟨v, hv⟩ := exists_holds e hpatoms false
    obtain ⟨w, hw⟩ := exists_holds rest hright true
    have hother : e.atoms.Disjoint rest.atoms :=
      fun _ ha hb => hdisjoint ha (mem_append_right _ hb)
    refine ⟨assign e v w, (holds_assign e v w).trans hv, ?_⟩
    show boolOp (n + 1) ((joined e f).holds (assign e v w)) (rest.holds (assign e v w)) = true
    rw [holds_assign_other hother, hw]
    cases n with
    | zero =>
      have hjoined : (joined e f).holds (assign e v w) =
          (e.holds (assign e v w) && f.holds (assign e v w)) :=
        joined_eval (fun a b c => Bool.and_assoc a b c) rfl rfl
      rw [hjoined, holds_assign, hv]
      rfl
    | succ n => exact Bool.or_true _
  | case5 n e rest r ih => cases hp

/-- Conditions of distinct atoms, one of which is not tight: the joined text holds somewhere where not all
of them do. -/
theorem exists_mismatch {first : Condition A top (n + 1)} {rest : List (Condition A top (n + 1))}
    (hrest : rest ≠ []) (hatoms : ((first :: rest).flatMap atoms).Nodup)
    (hloose : (first :: rest).all tight = false) :
    ∃ v : A → Bool, (joinAll first rest).holds v = true ∧ ∃ e ∈ first :: rest, e.holds v = false := by
  cases rest with
  | nil => exact absurd rfl hrest
  | cons next rest =>
    obtain ⟨hfirst, hothers, hdisjoint⟩ := nodup_append'.mp hatoms
    have hjoined := joinAll_atoms next rest
    have hdisjoint' : first.atoms.Disjoint (joinAll next rest).atoms := by
      rw [hjoined]
      exact hdisjoint
    have hnext : next.atoms.Nodup := (nodup_append'.mp hothers).1
    by_cases htight : first.tight = true
    · have hbehind : (joinAll next rest).tight = false := by
        rw [joinAll_tight]
        rw [all_cons, htight, Bool.true_and] at hloose
        exact hloose
      have hratoms : (joinAll next rest).atoms.Nodup := by
        rw [hjoined]
        exact hothers
      obtain ⟨v, hfalse, htrue⟩ :=
        joined_holds_before_loose htight hbehind hfirst hratoms hdisjoint'
      exact ⟨v, htrue, first, mem_cons_self, hfalse⟩
    · obtain ⟨w, hw⟩ := exists_holds next hnext false
      obtain ⟨v, hv, htrue⟩ :=
        joined_holds_of_loose (Bool.eq_false_iff.mpr htight) hfirst hdisjoint' w
      refine ⟨v, htrue, next, mem_cons_of_mem _ mem_cons_self, ?_⟩
      rw [← hw]
      apply holds_congr
      intro a ha
      apply hv
      intro hmem
      exact hdisjoint hmem (mem_append_left _ ha)

theorem joinAll_iff {first : Condition A top (n + 1)} {rest : List (Condition A top (n + 1))}
    (hatoms : ((first :: rest).flatMap atoms).Nodup) :
    (∀ value, (joinAll first rest).Accepts value ↔ ∀ e ∈ first :: rest, e.Accepts value) ↔
      rest = [] ∨ (first :: rest).all tight = true := by
  constructor
  · intro hsame
    by_contra hnot
    rw [not_or, Bool.not_eq_true] at hnot
    obtain ⟨v, htrue, e, he, hfalse⟩ := exists_mismatch hnot.1 hatoms hnot.2
    have hall := (hsame fun a => some (v a)).mp (by
      unfold Accepts
      rw [truth_of_holds, htrue])
    have haccepts := hall e he
    unfold Accepts at haccepts
    rw [truth_of_holds, hfalse] at haccepts
    cases haccepts
  · rintro (rfl | htight) value
    · exact forall_mem_singleton.symm
    · exact accepts_joinAll value htight

end Condition

end Ladybug
