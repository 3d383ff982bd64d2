import Mathlib.Order.WellFounded
import Mathlib.Data.Finset.Card

/-!
# Propagating minima from a frontier

In a round every node of the frontier offers its colour to its open successors; a successor with a
larger colour takes it and is in the next frontier.  The relaxations of a round may be executed in
any order, and each of them sees what the others have written; in a race it may also have loaded
the colour it offers at any earlier moment of the round.  The rounds go on until the frontier is
empty or a bound is reached.
-/

namespace Ladybug

open Relation List Function Finset

variable {V : Type} [DecidableEq V]

/-- One relaxation, on the colours and the nodes that have taken a new one. -/
def relax (isOpen : V → Bool) (s : (V → Nat) × List V) (e : V × V) : (V → Nat) × List V :=
  if isOpen e.2 = true ∧ s.1 e.1 < s.1 e.2 then (update s.1 e.2 (s.1 e.1), e.2 :: s.2)
  else s

/-- One relaxation with a colour loaded earlier. -/
def offer (isOpen : V → Bool) (loaded : Nat) (v : V) (s : (V → Nat) × List V) :
    (V → Nat) × List V :=
  if isOpen v = true ∧ loaded < s.1 v then (update s.1 v loaded, v :: s.2) else s

/-- The relaxations of a round in the order in which they write.  `past` are the colours before
each of the earlier writes, the latest first; `age` says which of them a relaxation has loaded its
colour from, and past their end it is the present ones. -/
def race (isOpen : V → Bool) :
    List (Nat × V × V) → List (V → Nat) → (V → Nat) × List V → (V → Nat) × List V
  | [], _, s => s
  | (age, u, v) :: es, past, s =>
    race isOpen es (s.1 :: past) (offer isOpen ((past.getD age s.1) u) v s)

def roundEdges (scan : V → List V) (active : List V) : List (V × V) :=
  active.flatMap fun u => (scan u).map fun v => (u, v)

/-- At most `bound` rounds, the first of them being round `k`. -/
def rounds (round : Nat → (V → Nat) → List V → (V → Nat) × List V) :
    Nat → Nat → (V → Nat) → List V → V → Nat
  | 0, _, c, _ => c
  | bound + 1, k, c, active =>
    if active.isEmpty then c
    else rounds round bound (k + 1) (round k c active).1 (round k c active).2

/-- At most `bound` rounds of `step`, the first of them being round `k`; `order` is the order of
execution. -/
def propagate (order : Nat → List (V × V) → List (V × V)) (nodes : List V)
    (step : (V → Nat) × List V → V × V → (V → Nat) × List V) (scan : V → List V) :
    Nat → Nat → (V → Nat) → List V → V → Nat
  | 0, _, c, _ => c
  | bound + 1, k, c, active =>
    if active.isEmpty then c
    else
      let s := (order k (roundEdges scan active)).foldl step (c, [])
      propagate order nodes step scan bound (k + 1) s.1 (nodes.filter fun v => v ∈ s.2)

/-- A colour can pass from `u` to `v`. -/
def Passes (isOpen : V → Bool) (scan : V → List V) (u v : V) : Prop :=
  v ∈ scan u ∧ isOpen v = true

/-- `v` has the colour that some node of the frontier had when the round began. -/
def Sent (isOpen : V → Bool) (scan : V → List V) (c : V → Nat) (active : List V) (c' : V → Nat)
    (v : V) : Prop :=
  ∃ a ∈ active, ReflTransGen (Passes isOpen scan) a v ∧ c' v = c a

/-- From the colours `c` and the frontier `active` to the colours `c'` and the frontier `next`. -/
structure Round (nodes : List V) (isOpen : V → Bool) (scan : V → List V) (c : V → Nat)
    (active : List V) (c' : V → Nat) (next : List V) : Prop where
  le : ∀ v, c' v ≤ c v
  colour : ∀ v, c' v = c v ∨ Sent isOpen scan c active c' v
  frontier : ∀ v ∈ next, Sent isOpen scan c active c' v
  kept : ∀ v ∈ nodes, v ∉ next → c' v = c v
  offered : ∀ u ∈ active, ∀ v, Passes isOpen scan u v → c' v ≤ c u

section

variable {isOpen : V → Bool} {scan : V → List V} {c : V → Nat} {active : List V}
  {es : List (Nat × V × V)} {past : List (V → Nat)} {s : (V → Nat) × List V} {u v : V} {p : V → Nat}

omit [DecidableEq V] in
theorem mem_roundEdges : (u, v) ∈ roundEdges scan active ↔ u ∈ active ∧ v ∈ scan u := by
  unfold roundEdges
  rw [mem_flatMap]
  constructor
  · rintro ⟨w, hw, hmem⟩
    obtain ⟨x, hx, heq⟩ := mem_map.mp hmem
    cases heq
    exact ⟨hw, hx⟩
  · rintro ⟨hu, hv⟩
    exact ⟨u, hu, mem_map.mpr ⟨v, hv, rfl⟩⟩

theorem offer_le (loaded : Nat) (v x : V) : (offer isOpen loaded v s).1 x ≤ s.1 x := by
  unfold offer
  split
  next h =>
    simp only [update_apply]
    split
    next hx =>
      rw [hx]
      exact h.2.le
    · exact le_rfl
  · exact le_rfl

theorem offer_self_le {loaded : Nat} (hv : isOpen v = true) :
    (offer isOpen loaded v s).1 v ≤ loaded := by
  unfold offer
  by_cases h : isOpen v = true ∧ loaded < s.1 v
  · rw [if_pos h]
    exact (update_self v loaded s.1).le
  · rw [if_neg h]
    exact not_lt.mp fun hlt => h ⟨hv, hlt⟩

theorem race_le (es : List (Nat × V × V)) (past : List (V → Nat)) (s : (V → Nat) × List V)
    (x : V) : (race isOpen es past s).1 x ≤ s.1 x := by
  induction es generalizing past s with
  | nil => exact le_rfl
  | cons e es ih => exact (ih _ _).trans (offer_le _ e.2.2 x)

theorem race_kept {x : V} (hx : x ∉ (race isOpen es past s).2) :
    (race isOpen es past s).1 x = s.1 x ∧ x ∉ s.2 := by
  induction es generalizing past s with
  | nil => exact ⟨rfl, hx⟩
  | cons e es ih =>
    obtain ⟨hkept, hout⟩ := ih hx
    show (race isOpen es (s.1 :: past) (offer isOpen _ e.2.2 s)).1 x = s.1 x ∧ _
    rw [hkept]
    unfold offer at hout ⊢
    split at hout
    next h =>
      rw [if_pos h]
      rw [List.mem_cons, not_or] at hout
      exact ⟨update_of_ne hout.1 _ _, hout.2⟩
    next h =>
      rw [if_neg h]
      exact ⟨rfl, hout⟩

omit [DecidableEq V] in
theorem getD_of_all {P : (V → Nat) → Prop} (hpast : ∀ p ∈ past, P p) (hnow : P c) (age : Nat) :
    P (past.getD age c) := by
  rw [getD_eq_getElem?_getD]
  cases hp : past[age]? with
  | none => exact hnow
  | some p => exact hpast p (List.mem_of_getElem? hp)

theorem race_offered {age : Nat} (hpast : ∀ p ∈ past, ∀ x, p x ≤ c x) (hnow : ∀ x, s.1 x ≤ c x)
    (he : (age, u, v) ∈ es) (hv : isOpen v = true) : (race isOpen es past s).1 v ≤ c u := by
  induction es generalizing past s with
  | nil => cases he
  | cons e es ih =>
    have hpast' : ∀ p ∈ s.1 :: past, ∀ x, p x ≤ c x := forall_mem_cons.mpr ⟨hnow, hpast⟩
    rcases mem_cons.mp he with rfl | hin
    · refine (race_le es _ _ v).trans ((offer_self_le hv).trans ?_)
      exact getD_of_all hpast hnow age u
    · exact ih hpast' (fun x => (offer_le _ e.2.2 x).trans (hnow x)) hin

/-- The colours at some moment of a round. -/
def Underway (isOpen : V → Bool) (scan : V → List V) (c : V → Nat) (active : List V)
    (p : V → Nat) : Prop :=
  ∀ v, p v = c v ∨ Sent isOpen scan c active p v

omit [DecidableEq V] in
theorem Underway.sent (h : Underway isOpen scan c active p) (hv : v ∈ active) :
    Sent isOpen scan c active p v :=
  (h v).elim (fun hsame => ⟨v, hv, .refl, hsame⟩) id

theorem Underway.offer (h : Underway isOpen scan c active s.1)
    (hnext : ∀ v ∈ s.2, Sent isOpen scan c active s.1 v) (hp : Underway isOpen scan c active p)
    (hu : u ∈ active) (hv : v ∈ scan u) :
    Underway isOpen scan c active (offer isOpen (p u) v s).1 ∧
      ∀ x ∈ (offer isOpen (p u) v s).2, Sent isOpen scan c active (offer isOpen (p u) v s).1 x := by
  unfold Ladybug.offer
  by_cases hlt : isOpen v = true ∧ p u < s.1 v
  · rw [if_pos hlt]
    obtain ⟨a, ha, hreach, hval⟩ := hp.sent hu
    -- `v` takes the colour that `u` had, and with it its sender
    have hnew : Sent isOpen scan c active (update s.1 v (p u)) v :=
      ⟨a, ha, hreach.tail ⟨hv, hlt.1⟩, by rw [update_self, hval]⟩
    have hkept : ∀ x, x ≠ v → Sent isOpen scan c active s.1 x →
        Sent isOpen scan c active (update s.1 v (p u)) x := by
      rintro x hx ⟨b, hb, hreach', hval'⟩
      exact ⟨b, hb, hreach', by rw [update_of_ne hx, hval']⟩
    constructor
    · intro x
      by_cases hxv : x = v
      · rw [hxv]
        exact .inr hnew
      · have hsame : update s.1 v (p u) x = s.1 x := update_of_ne hxv _ _
        exact (h x).imp hsame.trans (hkept x hxv)
    · intro x hx
      by_cases hxv : x = v
      · rw [hxv]
        exact hnew
      · exact hkept x hxv (hnext x ((mem_cons.mp hx).resolve_left hxv))
  · rw [if_neg hlt]
    exact ⟨h, hnext⟩

theorem Underway.race (hes : ∀ age u v, (age, u, v) ∈ es → u ∈ active ∧ v ∈ scan u)
    (hpast : ∀ p ∈ past, Underway isOpen scan c active p) (h : Underway isOpen scan c active s.1)
    (hnext : ∀ v ∈ s.2, Sent isOpen scan c active s.1 v) :
    Underway isOpen scan c active (race isOpen es past s).1 ∧
      ∀ v ∈ (race isOpen es past s).2, Sent isOpen scan c active (race isOpen es past s).1 v := by
  induction es generalizing past s with
  | nil => exact ⟨h, hnext⟩
  | cons e es ih =>
    obtain ⟨age, u, v⟩ := e
    obtain ⟨hu, hv⟩ := hes age u v mem_cons_self
    obtain ⟨h', hnext'⟩ := h.offer hnext (getD_of_all hpast h age) hu hv
    exact ih (fun age' a b hab => hes age' a b (mem_cons_of_mem _ hab))
      (forall_mem_cons.mpr ⟨h, hpast⟩) h' hnext'

theorem Round.of_race (nodes : List V) (hes : (es.map Prod.snd).Perm (roundEdges scan active)) :
    Round nodes isOpen scan c active (race isOpen es [] (c, [])).1
      (nodes.filter fun v => v ∈ (race isOpen es [] (c, [])).2) := by
  have hmem : ∀ u v, (∃ age, (age, u, v) ∈ es) ↔ u ∈ active ∧ v ∈ scan u := by
    intro u v
    rw [← mem_roundEdges, ← hes.mem_iff, List.mem_map]
    exact ⟨fun ⟨age, h⟩ => ⟨_, h, rfl⟩, fun ⟨e, h, he⟩ => ⟨e.1, he ▸ h⟩⟩
  obtain ⟨hcolour, hsent⟩ := Underway.race (s := (c, []))
    (fun age u v h => (hmem u v).mp ⟨age, h⟩) (fun _ h => absurd h not_mem_nil) (fun _ => .inl rfl)
    (fun _ h => absurd h not_mem_nil)
  refine ⟨race_le es [] (c, []), hcolour, ?_, ?_, ?_⟩
  · intro v hv
    exact hsent v (of_decide_eq_true (mem_filter.mp hv).2)
  · intro v hv hout
    have hkept : v ∉ (race isOpen es [] (c, [])).2 := fun hin =>
      hout (mem_filter.mpr ⟨hv, decide_eq_true hin⟩)
    exact (race_kept hkept).1
  · intro u hu v hpass
    obtain ⟨age, he⟩ := (hmem u v).mpr ⟨hu, hpass.1⟩
    exact race_offered (fun _ h => absurd h not_mem_nil) (fun _ => le_rfl) he hpass.2

theorem foldl_relax_eq_race {n : Nat} (edges : List (V × V)) (past : List (V → Nat))
    (s : (V → Nat) × List V) (hn : past.length + edges.length ≤ n) :
    edges.foldl (relax isOpen) s = race isOpen (edges.map fun e => (n, e)) past s := by
  induction edges generalizing past s with
  | nil => rfl
  | cons e edges ih =>
    rw [length_cons] at hn
    have hpresent : past.getD n s.1 = s.1 := by
      rw [getD_eq_getElem?_getD, getElem?_eq_none (by omega)]
      rfl
    have hstep : offer isOpen ((past.getD n s.1) e.1) e.2 s = relax isOpen s e := by
      rw [hpresent]
      rfl
    show _ = race isOpen (edges.map fun e => (n, e)) (s.1 :: past)
      (offer isOpen ((past.getD n s.1) e.1) e.2 s)
    rw [hstep]
    exact ih (s.1 :: past) _ (by rw [length_cons]; omega)

theorem Round.of_foldl (nodes : List V) {edges : List (V × V)}
    (hes : edges.Perm (roundEdges scan active)) :
    Round nodes isOpen scan c active (edges.foldl (relax isOpen) (c, [])).1
      (nodes.filter fun v => v ∈ (edges.foldl (relax isOpen) (c, [])).2) := by
  rw [foldl_relax_eq_race edges [] (c, []) (n := edges.length) (by simp)]
  apply Round.of_race
  rw [List.map_map]
  exact (List.Perm.of_eq (List.map_id edges)).trans hes

end

section

variable {isOpen : V → Bool} {scan : V → List V} {c₀ c : V → Nat} {S : V → Prop}

/-- `v` has the colour some source `s` that reaches it began with. -/
def FromSource (isOpen : V → Bool) (scan : V → List V) (c₀ : V → Nat) (S : V → Prop) (c : V → Nat)
    (v : V) : Prop :=
  ∃ s, S s ∧ ReflTransGen (Passes isOpen scan) s v ∧ c v = c₀ s

/-- Between two rounds, when the colours were `c₀` and the frontier `S` before the first one. -/
structure Spread (nodes : List V) (isOpen : V → Bool) (scan : V → List V) (c₀ : V → Nat)
    (S : V → Prop) (c : V → Nat) (active : List V) : Prop where
  le : ∀ v, c v ≤ c₀ v
  frontier : ∀ v ∈ active, FromSource isOpen scan c₀ S c v
  colour : ∀ v, c v = c₀ v ∨ FromSource isOpen scan c₀ S c v
  idle : ∀ u ∈ nodes, u ∉ active → (c u = c₀ u ∧ ¬ S u) ∨ ∀ v, Passes isOpen scan u v → c v ≤ c u

omit [DecidableEq V] in
theorem Spread.start {nodes active : List V} (isOpen : V → Bool) (scan : V → List V)
    (c₀ : V → Nat) (hactive : ∀ v ∈ active, S v) (hall : ∀ v ∈ nodes, S v → v ∈ active) :
    Spread nodes isOpen scan c₀ S c₀ active where
  le := fun _ => le_rfl
  frontier := fun v hv => ⟨v, hactive v hv, .refl, rfl⟩
  colour := fun _ => .inl rfl
  idle := fun u hu hout => .inl ⟨rfl, fun hS => hout (hall u hu hS)⟩

variable {nodes active next : List V} {c' : V → Nat} {v : V}

omit [DecidableEq V] in
theorem Sent.fromSource (h : Spread nodes isOpen scan c₀ S c active)
    (hv : Sent isOpen scan c active c' v) : FromSource isOpen scan c₀ S c' v := by
  obtain ⟨a, ha, hreach, hval⟩ := hv
  obtain ⟨s, hs, hto, hval'⟩ := h.frontier a ha
  exact ⟨s, hs, hto.trans hreach, hval.trans hval'⟩

omit [DecidableEq V] in
theorem Spread.round (h : Spread nodes isOpen scan c₀ S c active)
    (hround : Round nodes isOpen scan c active c' next) :
    Spread nodes isOpen scan c₀ S c' next := by
  refine ⟨fun v => (hround.le v).trans (h.le v), fun v hv => (hround.frontier v hv).fromSource h,
    ?_, ?_⟩
  · intro v
    rcases hround.colour v with hsame | hsent
    · rcases h.colour v with hown | ⟨s, hs, hreach, hval⟩
      · exact .inl (hsame.trans hown)
      · exact .inr ⟨s, hs, hreach, hsame.trans hval⟩
    · exact .inr (hsent.fromSource h)
  · intro u hu hout
    rw [hround.kept u hu hout]
    by_cases hua : u ∈ active
    · -- a node of the frontier has relaxed all its successors
      exact .inr (hround.offered u hua)
    · rcases h.idle u hu hua with huntouched | hdone
      · exact .inl huntouched
      · exact .inr fun v hv => (hround.le v).trans (hdone v hv)

def Relaxes (nodes : List V) (isOpen : V → Bool) (scan : V → List V)
    (round : Nat → (V → Nat) → List V → (V → Nat) × List V) : Prop :=
  ∀ k c active, Round nodes isOpen scan c active (round k c active).1 (round k c active).2

variable {round : Nat → (V → Nat) → List V → (V → Nat) × List V}

omit [DecidableEq V] in
theorem Spread.rounds_colour (hrounds : Relaxes nodes isOpen scan round) (bound k : Nat)
    (h : Spread nodes isOpen scan c₀ S c active) (v : V) :
    rounds round bound k c active v = c₀ v ∨
      FromSource isOpen scan c₀ S (rounds round bound k c active) v := by
  induction bound generalizing k c active with
  | zero => exact h.colour v
  | succ bound ih =>
    unfold rounds
    split
    · exact h.colour v
    · exact ih (k + 1) (h.round (hrounds k c active))

omit [DecidableEq V] in
theorem rounds_le (hrounds : Relaxes nodes isOpen scan round) (bound k : Nat) (c : V → Nat)
    (active : List V) (v : V) : rounds round bound k c active v ≤ c v := by
  induction bound generalizing k c active with
  | zero => exact le_rfl
  | succ bound ih =>
    unfold rounds
    split
    · exact le_rfl
    · exact (ih (k + 1) _ _).trans ((hrounds k c active).le v)

omit [DecidableEq V] in
theorem rounds_succ_le (hrounds : Relaxes nodes isOpen scan round) (bound k : Nat) (c : V → Nat)
    (active : List V) (v : V) :
    rounds round (bound + 1) k c active v ≤ rounds round bound k c active v := by
  induction bound generalizing k c active with
  | zero => exact rounds_le hrounds 1 k c active v
  | succ bound ih =>
    rw [rounds.eq_def (round) (bound + 1 + 1), rounds.eq_def (round) (bound + 1)]
    simp only
    split
    · exact le_rfl
    · exact ih (k + 1) _ _

/-- A source that reaches `v` began with a smaller colour than `v` has. -/
def Unsettled (isOpen : V → Bool) (scan : V → List V) (c₀ : V → Nat) (S : V → Prop) (c : V → Nat)
    (v : V) : Prop :=
  ∃ s, S s ∧ ReflTransGen (Passes isOpen scan) s v ∧ c₀ s < c v

theorem Spread.exists_active (h : Spread nodes isOpen scan c₀ S c active)
    (hclosed : ∀ u v, u ∈ nodes → Passes isOpen scan u v → v ∈ nodes) (hS : ∀ s, S s → s ∈ nodes)
    (hfree : ∀ s a, S s → ReflTransGen (Passes isOpen scan) s a → ¬ S a → c₀ s < c₀ a)
    (hv : Unsettled isOpen scan c₀ S c v) :
    ∃ a b, a ∈ active ∧ b ∈ nodes ∧ Passes isOpen scan a b ∧ Unsettled isOpen scan c₀ S c b ∧
      ∀ c', c' b ≤ c a → ¬ Unsettled isOpen scan c₀ S c' b := by
  classical
  -- the source with the smallest colour among those that reach `v`
  obtain ⟨s, ⟨hs, hreach⟩, hmin⟩ : ∃ s, (S s ∧ ReflTransGen (Passes isOpen scan) s v) ∧
      ∀ s', S s' → ReflTransGen (Passes isOpen scan) s' v → c₀ s ≤ c₀ s' := by
    obtain ⟨s₁, hs₁, hreach₁, -⟩ := hv
    obtain ⟨s, hs, hmin⟩ := (measure c₀).wf.has_min
      {s | S s ∧ ReflTransGen (Passes isOpen scan) s v} ⟨s₁, hs₁, hreach₁⟩
    exact ⟨s, hs, fun s' hs' hreach' => not_lt.mp (hmin s' ⟨hs', hreach'⟩)⟩
  have hlt : c₀ s < c v := by
    obtain ⟨s₁, hs₁, hreach₁, hlt₁⟩ := hv
    exact (hmin s₁ hs₁ hreach₁).trans_lt hlt₁
  -- on the path from `s` to `v`, the first step at which the colours fall behind
  have hstep : ∀ x, ReflTransGen (Passes isOpen scan) s x → c₀ s < c x → ∃ a b,
      ReflTransGen (Passes isOpen scan) s a ∧ Passes isOpen scan a b ∧
      ReflTransGen (Passes isOpen scan) b x ∧ c a ≤ c₀ s ∧ c₀ s < c b := by
    intro x hx
    induction hx with
    | refl => exact fun hlt => absurd (h.le s) (not_le.mpr hlt)
    | tail hpath hpass ih =>
      rename_i y z
      intro hlt
      by_cases hy : c₀ s < c y
      · obtain ⟨a, b, hsa, hab, hbx, hle, hlt'⟩ := ih hy
        exact ⟨a, b, hsa, hab, hbx.tail hpass, hle, hlt'⟩
      · exact ⟨y, z, hpath, hpass, .refl, not_lt.mp hy, hlt⟩
  obtain ⟨a, b, hsa, hab, hbv, hle, hltb⟩ := hstep v hreach hlt
  have hnode : ∀ x, ReflTransGen (Passes isOpen scan) s x → x ∈ nodes := by
    intro x hx
    induction hx with
    | refl => exact hS s hs
    | tail _ hpass ih => exact hclosed _ _ ih hpass
  refine ⟨a, b, ?_, hnode b (hsa.tail hab), hab, ⟨s, hs, hsa.tail hab, hltb⟩, ?_⟩
  · by_contra hout
    rcases h.idle a (hnode a hsa) hout with ⟨hsame, hnot⟩ | hdone
    · have hbig := hfree s a hs hsa hnot
      rw [hsame] at hle
      exact absurd hle (not_le.mpr hbig)
    · exact absurd (hdone b hab) (not_le.mpr (hle.trans_lt hltb))
  · rintro c' hc' ⟨s', hs', hreach', hlt'⟩
    have hs'v := hmin s' hs' (hreach'.trans hbv)
    exact absurd (hlt'.trans_le (hc'.trans hle)) (not_lt.mpr hs'v)

omit [DecidableEq V] in
theorem Spread.rounds_settle (hrounds : Relaxes nodes isOpen scan round)
    (hclosed : ∀ u v, u ∈ nodes → Passes isOpen scan u v → v ∈ nodes) (hS : ∀ s, S s → s ∈ nodes)
    (hfree : ∀ s a, S s → ReflTransGen (Passes isOpen scan) s a → ¬ S a → c₀ s < c₀ a)
    {bound : Nat} (hbound : nodes.length ≤ bound) (k : Nat)
    (h : Spread nodes isOpen scan c₀ S c active) (v : V) :
    ¬ Unsettled isOpen scan c₀ S (rounds round bound k c active) v := by
  classical
  let unsettled : (V → Nat) → Finset V := fun c =>
    nodes.toFinset.filter fun v => Unsettled isOpen scan c₀ S c v
  have hinNodes : ∀ (c : V → Nat) x, Unsettled isOpen scan c₀ S c x → x ∈ nodes := by
    rintro c x ⟨s, hs, hreach, -⟩
    induction hreach with
    | refl => exact hS s hs
    | tail _ hpass ih => exact hclosed _ _ ih hpass
  have hnone : ∀ c, (unsettled c).card = 0 → ∀ x, ¬ Unsettled isOpen scan c₀ S c x := by
    intro c hcard x hx
    rw [card_eq_zero] at hcard
    have hmem : x ∈ unsettled c :=
      Finset.mem_filter.mpr ⟨mem_toFinset.mpr (hinNodes c x hx), hx⟩
    rw [hcard] at hmem
    exact absurd hmem (notMem_empty x)
  have hrun : ∀ bound k c active, Spread nodes isOpen scan c₀ S c active →
      (unsettled c).card ≤ bound → ∀ x, ¬ Unsettled isOpen scan c₀ S
        (rounds round bound k c active) x := by
    intro bound
    induction bound with
    | zero =>
      intro k c active _ hcard
      exact hnone c (Nat.le_zero.mp hcard)
    | succ bound ih =>
      intro k c active hspread hcard
      unfold rounds
      by_cases hempty : active.isEmpty = true
      · rw [if_pos hempty]
        intro x hx
        obtain ⟨a, b, ha, -⟩ := hspread.exists_active hclosed hS hfree hx
        rw [List.isEmpty_iff.mp hempty] at ha
        exact not_mem_nil ha
      · rw [if_neg hempty]
        have hround := hrounds k c active
        refine ih (k + 1) _ _ (hspread.round hround) ?_
        have hsub : unsettled (round k c active).1 ⊆ unsettled c := by
          intro x hx
          obtain ⟨hin, s, hs, hreach, hlt⟩ := Finset.mem_filter.mp hx
          exact Finset.mem_filter.mpr ⟨hin, s, hs, hreach, hlt.trans_le (hround.le x)⟩
        rcases Nat.eq_zero_or_pos (unsettled c).card with hzero | hpos
        · have hle := card_le_card hsub
          omega
        · -- at least one node is settled by the round
          obtain ⟨x, hx⟩ := card_pos.mp hpos
          obtain ⟨a, b, ha, hb, hab, hunsettled, hsettles⟩ :=
            hspread.exists_active hclosed hS hfree (Finset.mem_filter.mp hx).2
          have hgone := hsettles _ (hround.offered a ha b hab)
          have hlt : (unsettled (round k c active).1).card < (unsettled c).card := by
            apply card_lt_card
            rw [ssubset_iff_of_subset hsub]
            refine ⟨b, Finset.mem_filter.mpr ⟨mem_toFinset.mpr hb, hunsettled⟩, ?_⟩
            exact fun hin => hgone (Finset.mem_filter.mp hin).2
          omega
  apply hrun bound k c active h
  calc (unsettled c).card ≤ nodes.toFinset.card := card_filter_le _ _
    _ ≤ nodes.length := toFinset_card_le nodes
    _ ≤ bound := hbound

variable {order : Nat → List (V × V) → List (V × V)}

def relaxRound (order : Nat → List (V × V) → List (V × V)) (nodes : List V) (isOpen : V → Bool)
    (scan : V → List V) (k : Nat) (c : V → Nat) (active : List V) : (V → Nat) × List V :=
  let s := (order k (roundEdges scan active)).foldl (relax isOpen) (c, [])
  (s.1, nodes.filter fun v => v ∈ s.2)

theorem propagate_eq_rounds (bound k : Nat) (c : V → Nat) (active : List V) :
    propagate order nodes (relax isOpen) scan bound k c active =
      rounds (relaxRound order nodes isOpen scan) bound k c active := by
  induction bound generalizing k c active with
  | zero => rfl
  | succ bound ih =>
    unfold propagate rounds
    split
    · rfl
    · exact ih (k + 1) _ _

section

variable (horder : ∀ k es, (order k es).Perm es)

include horder

theorem relaxRound_relaxes : Relaxes nodes isOpen scan (relaxRound order nodes isOpen scan) :=
  fun k _ _ => Round.of_foldl nodes (horder k _)

theorem Spread.propagate_colour (bound k : Nat) (h : Spread nodes isOpen scan c₀ S c active)
    (v : V) :
    propagate order nodes (relax isOpen) scan bound k c active v = c₀ v ∨
      FromSource isOpen scan c₀ S (propagate order nodes (relax isOpen) scan bound k c active) v := by
  rw [propagate_eq_rounds]
  exact h.rounds_colour (relaxRound_relaxes horder) bound k v

theorem Spread.propagate_le (bound k : Nat) (h : Spread nodes isOpen scan c₀ S c active) (v : V) :
    propagate order nodes (relax isOpen) scan bound k c active v ≤ c₀ v := by
  rw [propagate_eq_rounds]
  exact (rounds_le (relaxRound_relaxes horder) bound k c active v).trans (h.le v)

theorem Spread.propagate_settles (hclosed : ∀ u v, u ∈ nodes → Passes isOpen scan u v → v ∈ nodes)
    (hS : ∀ s, S s → s ∈ nodes)
    (hfree : ∀ s a, S s → ReflTransGen (Passes isOpen scan) s a → ¬ S a → c₀ s < c₀ a) {bound : Nat}
    (hbound : nodes.length ≤ bound) (k : Nat) (h : Spread nodes isOpen scan c₀ S c active) (v : V) :
    ¬ Unsettled isOpen scan c₀ S (propagate order nodes (relax isOpen) scan bound k c active) v := by
  rw [propagate_eq_rounds]
  exact h.rounds_settle (relaxRound_relaxes horder) hclosed hS hfree hbound k v

end

end

end Ladybug
