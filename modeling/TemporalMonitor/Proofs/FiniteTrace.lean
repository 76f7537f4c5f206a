import TemporalMonitor.Proofs.Fragment
import TemporalMonitor.Proofs.RunOutcome
import TemporalMonitor.Proofs.ThreeValued

/-!
# Monitoring decides finite-trace satisfaction

The classical meaning of a formula over a finite, non-empty sequence of valuations
(`Formula.HoldsOn`), with a strong `next`: at the last position it is false. Monitoring a trace to
its end decides it (`Formula.finalValue_eq_holdsOn`), for the formulas described in `Fragment` and
states that observe the variables of the formula.

A run may end open, and what is open counts as false. So the three-valued meaning of a formula has
to be right on one side only: below an even number of negations it is `yes` exactly when the formula
holds, below an odd number it is `no` exactly when the formula fails (`Truth.Tells`). Negation
exchanges the two sides, every other operator keeps them, and a `next` at the last position, which
is open although it fails, is right on the even side.
-/

namespace TemporalMonitor

universe u

namespace Truth

/-- The truth value tells about `P` on one side: on the even side it is `yes` exactly when `P`
holds, on the odd side it is `no` exactly when `P` fails. -/
def Tells (even : Bool) (t : Truth) (P : Prop) : Prop :=
  t = ofBool even ↔ (P ↔ even = true)

theorem tells_true {t : Truth} {P : Prop} : Tells true t P ↔ (t = yes ↔ P) := by
  simp [Tells, ofBool]

theorem tells_false {t : Truth} {P : Prop} : Tells false t P ↔ (t = no ↔ ¬P) := by
  simp [Tells, ofBool]

/-- A settled value that is right tells on both sides. -/
theorem tells_ofBool {even b : Bool} {P : Prop} (h : P ↔ b = true) : Tells even (ofBool b) P := by
  rw [Tells, h]
  cases even <;> cases b <;> decide

theorem not_eq_ofBool_iff {t : Truth} {b : Bool} : t.not = ofBool b ↔ t = ofBool !b := by
  cases t <;> cases b <;> decide

theorem inf_eq_no_iff {a b : Truth} : a ⊓ b = no ↔ a = no ∨ b = no := by
  cases a <;> cases b <;> decide

theorem sup_eq_yes_iff {a b : Truth} : a ⊔ b = yes ↔ a = yes ∨ b = yes := by
  cases a <;> cases b <;> decide

namespace Tells

variable {even : Bool} {a b : Truth} {P Q : Prop}

theorem not (h : Tells (!even) a P) : Tells even a.not ¬P := by
  rw [Tells, not_eq_ofBool_iff]
  refine Iff.trans h ?_
  cases even <;> simp

theorem inf (ha : Tells even a P) (hb : Tells even b Q) : Tells even (a ⊓ b) (P ∧ Q) := by
  cases even with
  | true =>
    rw [tells_true] at ha hb ⊢
    exact inf_eq_top_iff.trans (and_congr ha hb)
  | false =>
    rw [tells_false] at ha hb ⊢
    rw [inf_eq_no_iff, ha, hb, Classical.not_and_iff_not_or_not]

theorem sup (ha : Tells even a P) (hb : Tells even b Q) : Tells even (a ⊔ b) (P ∨ Q) := by
  cases even with
  | true =>
    rw [tells_true] at ha hb ⊢
    rw [sup_eq_yes_iff, ha, hb]
  | false =>
    rw [tells_false] at ha hb ⊢
    rw [not_or]
    exact sup_eq_bot_iff.trans (and_congr ha hb)

/-- Over all places below `n`: the join tells whether one of them has the property. -/
theorem sup_range {n : Nat} {t : Nat → Truth} {R : Nat → Prop}
    (h : ∀ i < n, Tells even (t i) (R i)) :
    Tells even ((Finset.range n).sup t) (∃ i < n, R i) := by
  induction n with
  | zero => cases even <;> simp [Tells, ofBool, ← bot_eq_no, ← top_eq_yes]
  | succ n ih =>
    rw [Finset.range_add_one, Finset.sup_insert, sup_comm, propext Nat.exists_lt_succ_right]
    exact (ih fun i hi ↦ h i (Nat.lt_succ_of_lt hi)).sup (h n (Nat.lt_succ_self n))

/-- Over all places below `n`: the meet tells whether all of them have the property. -/
theorem inf_range {n : Nat} {t : Nat → Truth} {R : Nat → Prop}
    (h : ∀ i < n, Tells even (t i) (R i)) :
    Tells even ((Finset.range n).inf t) (∀ i < n, R i) := by
  induction n with
  | zero => cases even <;> simp [Tells, ofBool, ← bot_eq_no, ← top_eq_yes]
  | succ n ih =>
    rw [Finset.range_add_one, Finset.inf_insert, inf_comm, propext Nat.forall_lt_succ_right]
    exact (ih fun i hi ↦ h i (Nat.lt_succ_of_lt hi)).inf (h n (Nat.lt_succ_self n))

end Tells

end Truth

/-! ### Satisfaction by finite traces -/

/-- The valuation of a state that observes all that matters. -/
def valuation {α : Type u} (s : α → Option Bool) : α → Bool := fun a ↦ (s a).getD false

namespace Formula

variable {α : Type u}

/-- Satisfaction of a formula at the first position of a finite sequence of valuations. A later
position is the first one of the suffix that starts there. -/
def HoldsOn : Formula α → List (α → Bool) → Prop
  | const b, _ => b = true
  | var a, w => (w.head?.any fun v ↦ v a) = true
  | neg f, w => ¬f.HoldsOn w
  | conj f g, w => f.HoldsOn w ∧ g.HoldsOn w
  | disj f g, w => f.HoldsOn w ∨ g.HoldsOn w
  | next f, w => w.tail ≠ [] ∧ f.HoldsOn w.tail
  | eventually f, w => ∃ i < w.length, f.HoldsOn (w.drop i)
  | always f, w => ∀ i < w.length, f.HoldsOn (w.drop i)
  | strongUntil f g, w =>
    ∃ i < w.length, g.HoldsOn (w.drop i) ∧ ∀ j < i, f.HoldsOn (w.drop j)

/-- Satisfaction by finite traces can be computed. -/
instance decidableHoldsOn : (f : Formula α) → (w : List (α → Bool)) → Decidable (f.HoldsOn w)
  | const b, _ => inferInstanceAs (Decidable (b = true))
  | var a, w => inferInstanceAs (Decidable ((w.head?.any fun v ↦ v a) = true))
  | neg f, w =>
    have := f.decidableHoldsOn w
    inferInstanceAs (Decidable ¬f.HoldsOn w)
  | conj f g, w =>
    have := f.decidableHoldsOn w
    have := g.decidableHoldsOn w
    inferInstanceAs (Decidable (f.HoldsOn w ∧ g.HoldsOn w))
  | disj f g, w =>
    have := f.decidableHoldsOn w
    have := g.decidableHoldsOn w
    inferInstanceAs (Decidable (f.HoldsOn w ∨ g.HoldsOn w))
  | next f, w =>
    have := f.decidableHoldsOn w.tail
    decidable_of_iff (w.tail.isEmpty = false ∧ f.HoldsOn w.tail) (by simp [HoldsOn])
  | eventually f, w =>
    have := fun i ↦ f.decidableHoldsOn (w.drop i)
    inferInstanceAs (Decidable (∃ i < w.length, f.HoldsOn (w.drop i)))
  | always f, w =>
    have := fun i ↦ f.decidableHoldsOn (w.drop i)
    inferInstanceAs (Decidable (∀ i < w.length, f.HoldsOn (w.drop i)))
  | strongUntil f g, w =>
    have := fun i ↦ f.decidableHoldsOn (w.drop i)
    have := fun i ↦ g.decidableHoldsOn (w.drop i)
    inferInstanceAs (Decidable
      (∃ i < w.length, g.HoldsOn (w.drop i) ∧ ∀ j < i, f.HoldsOn (w.drop j)))

theorem holdsOn_strongUntil_cons {f g : Formula α} {v : α → Bool} {w : List (α → Bool)} :
    (strongUntil f g).HoldsOn (v :: w) ↔
      g.HoldsOn (v :: w) ∨ f.HoldsOn (v :: w) ∧ (strongUntil f g).HoldsOn w := by
  rw [HoldsOn, List.length_cons, Nat.exists_lt_succ_left]
  refine or_congr (and_iff_left fun j hj ↦ absurd hj (Nat.not_lt_zero j)) ?_
  rw [HoldsOn, ← exists_and_left]
  refine exists_congr fun i ↦ ?_
  rw [Nat.forall_lt_succ_left]
  constructor
  · rintro ⟨hi, hg, hf, hbefore⟩
    exact ⟨hf, hi, hg, hbefore⟩
  · rintro ⟨hf, hi, hg, hbefore⟩
    exact ⟨hi, hg, hf, hbefore⟩

theorem reading_holdsOn (w : List (α → Bool)) : Reading Not fun f : Formula α ↦ f.HoldsOn w where
  compl_boundOf b := by cases b <;> simp [boundOf_eq_prop]
  neg _ := rfl
  conj _ _ := rfl
  disj _ _ := rfl

theorem holdsOn_of_isPropositional {f : Formula α} (hf : f.isPropositional = true)
    (v : α → Bool) (w : List (α → Bool)) : f.HoldsOn (v :: w) ↔ f.truthAt v = true := by
  have h := eq_boundOf_truthAt (reading_holdsOn (v :: w)) hf
    (fun b ↦ (boundOf_eq_prop b).symm) fun a _ ↦ (boundOf_eq_prop (v a)).symm
  rw [h, boundOf_eq_prop]

/-! ### The three-valued meaning tells on one side -/

/-- A single state that observes the variables of a propositional formula settles its value. -/
theorem value_of_isPropositional {f : Formula α} (hf : f.isPropositional = true)
    {s : α → Option Bool} (hs : ∀ a ∈ f.vars, (s a).isSome = true) (last : Bool) :
    f.value last [s] = Truth.ofBool (f.truthAt (valuation s)) := by
  refine eq_boundOf_truthAt (reading_pending last [s]) hf (fun b ↦ rfl) fun a ha ↦ ?_
  obtain ⟨b, hb⟩ := Option.isSome_iff_exists.1 (hs a ha)
  rw [pending_cons, value, List.findSome?_cons, valuation, hb]
  rfl

/-- A `strongUntil` of propositional formulas is settled at the end of the trace at the latest, so
it tells on both sides. -/
theorem tells_value_strongUntil {f g : Formula α} (hf : f.isPropositional = true)
    (hg : g.isPropositional = true) (even : Bool) {w : List (α → Option Bool)} (hw : w ≠ [])
    (hobs : ∀ s ∈ w, ∀ a ∈ (strongUntil f g).vars, (s a).isSome = true) :
    Truth.Tells even ((strongUntil f g).value true w)
      ((strongUntil f g).HoldsOn (w.map valuation)) := by
  induction w with
  | nil => exact absurd rfl hw
  | cons s w ih =>
    obtain ⟨hsf, hsg⟩ := List.forall_mem_append.1 (hobs s List.mem_cons_self)
    rw [value_strongUntil_cons, value_of_isPropositional hg hsg, value_of_isPropositional hf hsf,
      List.map_cons, propext holdsOn_strongUntil_cons, propext (holdsOn_of_isPropositional hf _ _),
      propext (holdsOn_of_isPropositional hg _ _)]
    -- decided as true here; decided as false here; left to the states that follow
    cases g.truthAt (valuation s) with
    | true => exact Truth.tells_ofBool (iff_of_true (Or.inl rfl) rfl)
    | false =>
      rw [Bool.false_eq_true, false_or]
      cases f.truthAt (valuation s) with
      | false =>
        show Truth.Tells even (if (w.isEmpty || true) = true then Truth.ofBool false else _) _
        rw [Bool.or_true, if_pos rfl]
        exact Truth.tells_ofBool (iff_of_false (fun h ↦ Bool.false_ne_true h.1) Bool.false_ne_true)
      | true =>
        rw [eq_self, true_and]
        cases w with
        | nil =>
          refine Truth.tells_ofBool (iff_of_false ?_ Bool.false_ne_true)
          rintro ⟨i, hi, -⟩
          exact Nat.not_lt_zero i hi
        | cons t w =>
          exact ih (List.cons_ne_nil t w) fun r hr ↦ hobs r (List.mem_cons_of_mem s hr)

/-- **The meaning of a run is right on one side**: as `yes` below an even number of negations, as
`no` below an odd one. -/
theorem tells_value {f : Formula α} (hf : f.hasStateUntils = true) {even : Bool}
    (hn : f.nextsBelow even = true) {w : List (α → Option Bool)} (hw : w ≠ [])
    (hobs : ∀ s ∈ w, ∀ a ∈ f.vars, (s a).isSome = true) :
    Truth.Tells even (f.value true w) (f.HoldsOn (w.map valuation)) := by
  induction f generalizing even w with
  | const b => exact Truth.tells_ofBool Iff.rfl
  | var a =>
    obtain ⟨s, w, rfl⟩ := List.exists_cons_of_ne_nil hw
    obtain ⟨b, hb⟩ :=
      Option.isSome_iff_exists.1 (hobs s List.mem_cons_self a (List.mem_singleton_self a))
    rw [value, List.findSome?_cons, hb]
    refine Truth.tells_ofBool ?_
    show (s a).getD false = true ↔ b = true
    rw [hb, Option.getD_some]
  | neg f ih => exact (ih hf hn hw hobs).not
  | conj f g ihf ihg =>
    rw [hasStateUntils, Bool.and_eq_true] at hf
    rw [nextsBelow, Bool.and_eq_true] at hn
    have hsplit := fun s hs ↦ List.forall_mem_append.1 (hobs s hs)
    exact (ihf hf.1 hn.1 hw fun s hs ↦ (hsplit s hs).1).inf
      (ihg hf.2 hn.2 hw fun s hs ↦ (hsplit s hs).2)
  | disj f g ihf ihg =>
    rw [hasStateUntils, Bool.and_eq_true] at hf
    rw [nextsBelow, Bool.and_eq_true] at hn
    have hsplit := fun s hs ↦ List.forall_mem_append.1 (hobs s hs)
    exact (ihf hf.1 hn.1 hw fun s hs ↦ (hsplit s hs).1).sup
      (ihg hf.2 hn.2 hw fun s hs ↦ (hsplit s hs).2)
  | next f ih =>
    rw [nextsBelow, Bool.and_eq_true] at hn
    obtain ⟨rfl, hn⟩ := hn
    obtain ⟨s, w, rfl⟩ := List.exists_cons_of_ne_nil hw
    rw [value_next_cons]
    cases w with
    | nil =>
      -- open, although it fails: right on the even side only
      rw [Truth.tells_true]
      exact iff_of_false (fun h ↦ by cases h) fun h ↦ h.1 rfl
    | cons t w =>
      rw [HoldsOn, List.map_cons, List.tail_cons, List.map_cons,
        and_iff_right (List.cons_ne_nil _ _)]
      exact ih hf hn (List.cons_ne_nil t w) fun r hr ↦ hobs r (List.mem_cons_of_mem s hr)
  | eventually f ih =>
    -- the trace is complete, so the suffixes are all that counts
    show Truth.Tells even (((Finset.range w.length).sup fun i ↦ f.value true (w.drop i)) ⊔ ⊥) _
    rw [sup_bot_eq, HoldsOn, List.length_map]
    refine Truth.Tells.sup_range fun i hi ↦ ?_
    rw [← List.map_drop]
    exact ih hf hn (fun h ↦ Nat.not_le.2 hi (List.drop_eq_nil_iff.1 h))
      fun s hs ↦ hobs s (List.mem_of_mem_drop hs)
  | always f ih =>
    show Truth.Tells even (((Finset.range w.length).inf fun i ↦ f.value true (w.drop i)) ⊓ ⊤) _
    rw [inf_top_eq, HoldsOn, List.length_map]
    refine Truth.Tells.inf_range fun i hi ↦ ?_
    rw [← List.map_drop]
    exact ih hf hn (fun h ↦ Nat.not_le.2 hi (List.drop_eq_nil_iff.1 h))
      fun s hs ↦ hobs s (List.mem_of_mem_drop hs)
  | strongUntil f g _ _ =>
    rw [hasStateUntils, Bool.and_eq_true] at hf
    exact tells_value_strongUntil hf.1 hf.2 even hw hobs

end Formula

/-- The final value of a property is true exactly when its run ends with `yes`. -/
theorem Progression.finalValue_eq_true_iff {α : Type u} (p : Progression α) :
    p.finalValue = true ↔ p.truth = .yes := by
  rcases p with b | r
  · cases b <;> simp [finalValue, verdict?, truth, Truth.ofBool]
  · simp [finalValue, verdict?, truth]

/-- The final value of a property is its truth value at the first position of the trace. -/
theorem Formula.finalValue_eq_holdsOn {f : Formula Nat} (hf : f.hasStateUntils = true)
    (hn : f.nextsBelow true = true) {states : List State} (hne : states ≠ [])
    (hobs : ∀ s ∈ states, ∀ a ∈ f.vars, (s.value a).isSome = true) :
    f.finalValue states = true ↔ f.HoldsOn (states.map fun s ↦ valuation s.value) := by
  have hne' : states.map State.value ≠ [] := fun h ↦ hne (List.map_eq_nil_iff.1 h)
  have hobs' : ∀ r ∈ states.map State.value, ∀ a ∈ f.vars, (r a).isSome = true := by
    intro r hr
    obtain ⟨s, hs, rfl⟩ := List.mem_map.1 hr
    exact hobs s hs
  have htells := Truth.tells_true.1 (tells_value hf hn hne' hobs')
  rw [List.map_map] at htells
  rw [finalValue, Progression.finalValue_eq_true_iff, truth_run, pending, if_neg hne']
  exact htells

/-- **Monitoring decides finite-trace satisfaction.** Over a non-empty trace whose states observe
the variables of the formula, the run with this formula as its only guarantee ends with the truth
value of the formula at the first position. -/
theorem experiment_outcome_eq_holdsOn {ε : Type} {f : Formula Nat} (hf : f.hasStateUntils = true)
    (hn : f.nextsBelow true = true) {states : List State} (hne : states ≠ [])
    (hobs : ∀ s ∈ states, ∀ a ∈ f.vars, (s.value a).isSome = true) :
    ((Source.ofStates states : Source ε).experiment (.ofFormulas [] [f])).outcome =
      .ok (.verified [decide (f.HoldsOn (states.map fun s ↦ valuation s.value))]) := by
  have hvalue : f.finalValue states =
      decide (f.HoldsOn (states.map fun s ↦ valuation s.value)) := by
    rw [Bool.eq_iff_iff, decide_eq_true_iff]
    exact f.finalValue_eq_holdsOn hf hn hne hobs
  have houtcome : outcomeOf [] [f] states = .verified [f.finalValue states] := by
    rw [outcomeOf, if_neg]
    · rfl
    · rintro (h | ⟨g, hg, -⟩)
      · exact hne h
      · exact absurd hg List.not_mem_nil
  rw [Source.experiment, Run.outcome_ofSource true [] [f] rfl, ← hvalue]
  exact congrArg Except.ok houtcome

/-- Each request is to be followed, from the next state on, by a wait that ends with an answer; here
the trace ends with the answer. -/
theorem experiment_outcome_eq_holdsOn_request :
    let f : Formula Nat := .always (.disj (.neg (.var 0)) (.next (.strongUntil (.var 1) (.var 2))))
    let states : List State :=
      [[some true, some false, some false], [some false, some true, some false],
        [some false, some false, some true]]
    f.hasStateUntils = true ∧ f.nextsBelow true = true ∧ states ≠ [] ∧
      (∀ s ∈ states, ∀ a ∈ f.vars, (s.value a).isSome = true) ∧
      f.HoldsOn (states.map fun s ↦ valuation s.value) ∧
      ((Source.ofStates states : Source Empty).experiment (.ofFormulas [] [f])).outcome =
        .ok (.verified [decide (f.HoldsOn (states.map fun s ↦ valuation s.value))]) := by
  intro f states
  have hobs : ∀ s ∈ states, ∀ a ∈ f.vars, (s.value a).isSome = true := by decide
  have hne : states ≠ [] := List.cons_ne_nil _ _
  exact ⟨rfl, rfl, hne, hobs, by decide, experiment_outcome_eq_holdsOn rfl rfl hne hobs⟩

end TemporalMonitor
