import Mathlib.Data.Set.Function
import TemporalMonitor.Proofs.Building
import TemporalMonitor.Proofs.OnDemand
import TemporalMonitor.Proofs.Residual
import TemporalMonitor.Trace.Printer

/-!
# Progression commutes with renaming

A step compares formulas: joining residuals looks for equal operands and for operands that occur in
each other, and unrolling asks whether an operand has changed. A renaming that confuses two
variables may confuse two formulas, and then a residual is pruned that was not before. One that is
injective on the variables at hand preserves and reflects all these comparisons
(`Formula.injOn_map`), so the step on the renamed formula is the renamed step
(`Formula.progress_map`), and so is a whole run.

Properties are monitored over positions and printed over names. Reading a position as its name is
such a renaming, because a signature has no name twice; hence the residual that is printed is the
one to which the formula of the file progresses, over the table of names and values that the state
stands for (`Signature.Mirrors`).
-/

namespace TemporalMonitor

variable {α β : Type}

/-- The progression with its variables renamed. -/
def Progression.map (g : α → β) : Progression α → Progression β
  | verdict b => verdict b
  | residual f => residual (f.map g)

/-- All variables of the formula are in the set. -/
def Formula.Over (S : Set α) (f : Formula α) : Prop := ∀ a ∈ f.vars, a ∈ S

theorem hereditary_over [DecidableEq α] (S : Set α) : Hereditary (Formula.Over S) where
  const _ := fun _ ha ↦ absurd ha List.not_mem_nil
  neg := Iff.rfl
  conj := List.forall_mem_append
  disj := List.forall_mem_append
  next := id
  eventually := id
  always := id

section Injective

variable {g : α → β} {S : Set α}

/-! ### Comparisons -/

/-- **A renaming that is injective on variables is injective on the formulas over them.** -/
theorem Formula.injOn_map (hg : Set.InjOn g S) : Set.InjOn (Formula.map g) {f | f.Over S} := by
  intro f hf f' hf' h
  induction f generalizing f' with
  | const b =>
    cases f' with
    | const b' => exact congrArg const (Formula.const.inj h)
    | _ => cases h
  | var a =>
    cases f' with
    | var a' =>
      exact congrArg var
        (hg (hf a (List.mem_singleton_self a)) (hf' a' (List.mem_singleton_self a'))
          (Formula.var.inj h))
    | _ => cases h
  | neg f ih =>
    cases f' with
    | neg f' => exact congrArg neg (ih hf hf' (Formula.neg.inj h))
    | _ => cases h
  | next f ih =>
    cases f' with
    | next f' => exact congrArg next (ih hf hf' (Formula.next.inj h))
    | _ => cases h
  | eventually f ih =>
    cases f' with
    | eventually f' => exact congrArg eventually (ih hf hf' (Formula.eventually.inj h))
    | _ => cases h
  | always f ih =>
    cases f' with
    | always f' => exact congrArg always (ih hf hf' (Formula.always.inj h))
    | _ => cases h
  | conj f₁ f₂ ih₁ ih₂ =>
    cases f' with
    | conj f₁' f₂' =>
      obtain ⟨hf₁, hf₂⟩ := List.forall_mem_append.1 hf
      obtain ⟨hf₁', hf₂'⟩ := List.forall_mem_append.1 hf'
      obtain ⟨h₁, h₂⟩ := Formula.conj.inj h
      exact congrArg₂ conj (ih₁ hf₁ hf₁' h₁) (ih₂ hf₂ hf₂' h₂)
    | _ => cases h
  | disj f₁ f₂ ih₁ ih₂ =>
    cases f' with
    | disj f₁' f₂' =>
      obtain ⟨hf₁, hf₂⟩ := List.forall_mem_append.1 hf
      obtain ⟨hf₁', hf₂'⟩ := List.forall_mem_append.1 hf'
      obtain ⟨h₁, h₂⟩ := Formula.disj.inj h
      exact congrArg₂ disj (ih₁ hf₁ hf₁' h₁) (ih₂ hf₂ hf₂' h₂)
    | _ => cases h
  | strongUntil f₁ f₂ ih₁ ih₂ =>
    cases f' with
    | strongUntil f₁' f₂' =>
      obtain ⟨hf₁, hf₂⟩ := List.forall_mem_append.1 hf
      obtain ⟨hf₁', hf₂'⟩ := List.forall_mem_append.1 hf'
      obtain ⟨h₁, h₂⟩ := Formula.strongUntil.inj h
      exact congrArg₂ strongUntil (ih₁ hf₁ hf₁' h₁) (ih₂ hf₂ hf₂' h₂)
    | _ => cases h

variable [DecidableEq α] [DecidableEq β]

theorem Formula.decide_map_eq (hg : Set.InjOn g S) {f f' : Formula α} (hf : f.Over S)
    (hf' : f'.Over S) : decide (f.map g = f'.map g) = decide (f = f') :=
  decide_eq_decide.2 ((injOn_map hg).eq_iff hf hf')

namespace Connective

theorem hasOperand_map (hg : Set.InjOn g S) (c : Connective) {compound f : Formula α}
    (hcompound : compound.Over S) (hf : f.Over S) :
    c.hasOperand (compound.map g) (f.map g) = c.hasOperand compound f := by
  cases c with
  | conj =>
    cases compound with
    | conj l r =>
      obtain ⟨hl, hr⟩ := List.forall_mem_append.1 hcompound
      exact congrArg₂ or (Formula.decide_map_eq hg hl hf) (Formula.decide_map_eq hg hr hf)
    | _ => rfl
  | disj =>
    cases compound with
    | disj l r =>
      obtain ⟨hl, hr⟩ := List.forall_mem_append.1 hcompound
      exact congrArg₂ or (Formula.decide_map_eq hg hl hf) (Formula.decide_map_eq hg hr hf)
    | _ => rfl

omit [DecidableEq α] [DecidableEq β] in
theorem map_apply (g : α → β) (c : Connective) (l r : Formula α) :
    (c.apply l r).map g = c.apply (l.map g) (r.map g) := by
  cases c <;> rfl

/-- Joining renamed residuals prunes them exactly where the residuals themselves are pruned. -/
theorem join_map (hg : Set.InjOn g S) (c : Connective) {l r : Formula α} (hl : l.Over S)
    (hr : r.Over S) : c.join (l.map g) (r.map g) = (c.join l r).map g := by
  simp only [join, prune, hasOperand_map hg _ hl hr, hasOperand_map hg _ hr hl,
    Formula.decide_map_eq hg hl hr]
  split_ifs
  · rfl
  · rfl
  · exact (map_apply g c l r).symm

end Connective

/-! ### One step -/

namespace Progression

omit [DecidableEq α] [DecidableEq β] in
theorem negate_map (g : α → β) (p : Progression α) : (p.map g).negate = p.negate.map g := by
  cases p <;> rfl

theorem combine_map (hg : Set.InjOn g S) (c : Connective) {p q : Progression α}
    (hp : p.toFormula.Over S) (hq : q.toFormula.Over S) :
    combine c (p.map g) (q.map g) = (combine c p q).map g := by
  cases p with
  | verdict b =>
    simp only [map, combine]
    split_ifs <;> rfl
  | residual l =>
    cases q with
    | verdict b =>
      simp only [map, combine]
      split_ifs <;> rfl
    | residual r => exact congrArg residual (c.join_map hg hp hq)

theorem unroll_map (hg : Set.InjOn g S) (c : Connective) {whole sub : Formula α}
    (hwhole : whole.Over S) (hsub : sub.Over S) (final : Bool) {p : Progression α}
    (hp : p.toFormula.Over S) :
    unroll c (whole.map g) (sub.map g) final (p.map g) = (unroll c whole sub final p).map g := by
  cases p with
  | verdict b =>
    simp only [map, unroll]
    split_ifs <;> rfl
  | residual r =>
    have hiff : r.map g = sub.map g ↔ r = sub := (Formula.injOn_map hg).eq_iff hp hsub
    simp only [map, unroll, hiff]
    split_ifs
    · rfl
    · exact congrArg residual (c.join_map hg hp hwhole)

end Progression

namespace Formula

variable {obs : α → Option Bool} {obs' : β → Option Bool}

theorem untilOutcome_map (g : α → β) (whole : Formula α) (final : Bool)
    (right left : Progression α) :
    untilOutcome (whole.map g) final (right.map g) (left.map g) =
      (untilOutcome whole final right left).map g := by
  rcases right with (_ | _) | r <;> rcases left with (_ | _) | l <;> cases final <;> rfl

/-- **A step on the renamed formula is the renamed step.** -/
theorem progress_map (hg : Set.InjOn g S) (hobs : ∀ a ∈ S, obs' (g a) = obs a) (final : Bool)
    {f : Formula α} (hf : f.Over S) :
    (f.map g).progress obs' final = (f.progress obs final).map g := by
  -- what is left of an operand is over the same variables as the operand
  have hleft : ∀ {f : Formula α}, f.Over S → (f.progress obs final).toFormula.Over S :=
    fun hf ↦ (hereditary_over S).progress obs final hf
  induction f with
  | const b => rfl
  | var a =>
    rw [map, progress, progress, hobs a (hf a (List.mem_singleton_self a))]
    cases obs a <;> rfl
  | neg f ih => rw [map, progress, progress, ih hf, Progression.negate_map]
  | conj f h ihf ihh =>
    obtain ⟨hf, hh⟩ := List.forall_mem_append.1 hf
    rw [map, progress, progress, ihf hf, ihh hh, Progression.combine_map hg .conj (hleft hf)
      (hleft hh)]
  | disj f h ihf ihh =>
    obtain ⟨hf, hh⟩ := List.forall_mem_append.1 hf
    rw [map, progress, progress, ihf hf, ihh hh, Progression.combine_map hg .disj (hleft hf)
      (hleft hh)]
  | next f _ => rfl
  | eventually f ih =>
    rw [map, progress, progress, ih hf]
    have hsub : f.Over S := hf
    exact Progression.unroll_map hg .disj hf hsub final (hleft hsub)
  | always f ih =>
    rw [map, progress, progress, ih hf]
    have hsub : f.Over S := hf
    exact Progression.unroll_map hg .conj hf hsub final (hleft hsub)
  | strongUntil f h ihf ihh =>
    obtain ⟨hf, hh⟩ := List.forall_mem_append.1 hf
    rw [map, progress_strongUntil, progress_strongUntil, ihf hf, ihh hh]
    exact untilOutcome_map g (strongUntil f h) final _ _

/-- **A run on the renamed formula is the renamed run.** -/
theorem run_map (hg : Set.InjOn g S) (final : Bool) {w : List (α → Option Bool)}
    {w' : List (β → Option Bool)}
    (hw : List.Forall₂ (fun obs obs' ↦ ∀ a ∈ S, obs' (g a) = obs a) w w') {f : Formula α}
    (hf : f.Over S) : (f.map g).run final w' = (f.run final w).map g := by
  induction hw generalizing f with
  | nil => rfl
  | @cons obs obs' w w' hobs hw ih =>
    have hempty : w'.isEmpty = w.isEmpty := by cases hw <;> rfl
    have hleft : (f.progress obs (final && w.isEmpty)).toFormula.Over S :=
      (hereditary_over S).progress obs _ hf
    rw [run, run, hempty, progress_map hg hobs _ hf]
    cases hp : f.progress obs (final && w.isEmpty) with
    | verdict b => rfl
    | residual r =>
      rw [hp] at hleft
      exact ih hleft

end Formula

end Injective

/-! ### Tables that do not change -/

section Steady

variable {α τ ε : Type}

/-- The table answers with the observations, and stays what it is. -/
def Lookup.Steady (lookup : Lookup α τ ε) (t : τ) (obs : α → Option Bool) : Prop :=
  ∀ a, lookup.ask a t = (.ok (obs a), t)

variable {lookup : Lookup α τ ε} {t : τ} {obs : α → Option Bool}

theorem Lookup.Steady.tableAfter_eq (h : lookup.Steady t obs) (as : List α) :
    lookup.tableAfter as t = t := by
  induction as with
  | nil => rfl
  | cons a as ih => rwa [tableAfter, List.foldl_cons, h a]

theorem Lookup.Steady.replies_eq (h : lookup.Steady t obs) (as : List α) :
    lookup.replies as t = as.map fun a ↦ (a, .ok (obs a)) := by
  induction as with
  | nil => rfl
  | cons a as ih => rw [replies, h a, ih, List.map_cons]

/-- **On a table that does not change, evaluation on demand is progression.** -/
theorem Formula.evaluate_of_steady [DecidableEq α] (h : lookup.Steady t obs) (final : Bool)
    (f : Formula α) : (f.evaluate (.ok t) lookup final).1 = .ok (f.progress obs final) := by
  have hmeets : Evaluation.Meets (.ok t) lookup (f.evaluateIn (.ok t) lookup final) _ _ :=
    meets_evaluateIn final f
  rcases hrun : f.evaluate (.ok t) lookup final with ⟨e | p, s⟩
  · -- neither the provider nor the table fails
    obtain ⟨-, as, a, hs, -⟩ := hmeets.error .none hrun
    cases hs with
    | provider failed => cases failed
    | reply fresh provided replied failed =>
      cases provided
      rw [h.tableAfter_eq, h a] at failed
      cases failed
  · obtain ⟨-, as, hs, hobs⟩ := hmeets.ok .none hrun
    have hagrees : s.Agrees obs := by
      intro a v hav
      have hmem : (a, Except.ok v) ∈ lookup.replies ([] ++ as).eraseDups t := by
        rw [hs.replies_eq rfl]
        exact List.mem_map.2 ⟨(a, v), List.mem_reverse.2 hav, rfl⟩
      rw [h.replies_eq] at hmem
      obtain ⟨_, -, heq⟩ := List.mem_map.1 hmem
      cases heq
      rfl
    exact congrArg Except.ok (hobs obs hagrees).2

theorem State.steady_lookups (s : State) : State.lookups.Steady s s.value :=
  fun _ ↦ rfl

end Steady

/-! ### Positions and names -/

namespace Signature

/-- The value that a state gives to a name. -/
def observe (sig : Signature) (s : State) (name : String) : Option Bool :=
  (sig.idxOf? name).bind s.value

/-- The names of a signature with the values that a state observes, as a table. -/
def bindings {ε : Type} (sig : Signature) (s : State) : Bindings ε :=
  (sig.zip s).filterMap fun (name, v) ↦ v.map fun b ↦ (name, .value b)

variable {ε : Type} {sig : Signature}

theorem lookup_bindings (hsig : sig.Nodup) (s : State) (name : String) :
    (sig.bindings s : Bindings ε).lookup name = (sig.observe s name).map .value := by
  induction sig generalizing s with
  | nil => rfl
  | cons n sig ih =>
    obtain ⟨hn, hsig⟩ := List.nodup_cons.1 hsig
    cases s with
    | nil =>
      have hvalue : ∀ i, State.value [] i = none := fun _ ↦ rfl
      simp [bindings, observe, hvalue]
    | cons v s =>
      have hrest := ih hsig s
      by_cases hname : n = name
      · subst hname
        -- a name that is not observed is not found further on either
        have hnone : observe sig s n = none := by
          rw [observe, List.idxOf?_eq_none_iff.2 hn, Option.bind_none]
        have hobserve : observe (n :: sig) (v :: s) n = v := by
          rw [observe, List.idxOf?_cons, beq_self_eq_true]
          rfl
        rw [hobserve]
        cases v with
        | none => rwa [hnone] at hrest
        | some b => exact List.lookup_cons_self
      · have hobserve : observe (n :: sig) (v :: s) name = observe sig s name := by
          rw [observe, List.idxOf?_cons, beq_false_of_ne hname, observe]
          cases sig.idxOf? name <;> rfl
        rw [hobserve, ← hrest]
        cases v with
        | none => rfl
        | some b =>
          show List.lookup name ((n, .value b) :: (bindings sig s : Bindings ε)) = _
          rw [List.lookup_cons, beq_false_of_ne (Ne.symm hname)]

/-- The table answers with what the state observes. -/
theorem steady_bindings (hsig : sig.Nodup) (exhausted : ε) (s : State) :
    (Bindings.lookups exhausted).Steady (sig.bindings s) (sig.observe s) := by
  intro name
  have hlookup := sig.lookup_bindings (ε := ε) hsig s name
  show Bindings.ask exhausted name (sig.bindings s) = _
  cases hobserve : sig.observe s name with
  | none =>
    rw [hobserve] at hlookup
    simp only [Bindings.ask, hlookup, Option.map_none]
  | some b =>
    rw [hobserve] at hlookup
    simp only [Bindings.ask, hlookup, Option.map_some]

/-- Reading positions as names is injective, where there are names. -/
theorem injOn_name? (hsig : sig.Nodup) : Set.InjOn sig.name? {i | i < sig.length} :=
  fun _ hi _ _ h ↦ (List.getElem?_inj hi hsig).1 h

/-- A state says the same about a position and about its name. -/
theorem observe_name? (hsig : sig.Nodup) (s : State) {i : Nat} (hi : i < sig.length) :
    (sig.name? i).bind (sig.observe s) = s.value i := by
  have hname : sig.name? i = some sig[i] := List.getElem?_eq_getElem hi
  rw [hname, Option.bind_some, observe, idxOf?_of_name? hsig hname, Option.bind_some]

/-- An indexed formula is renamed back to the formula it stems from. -/
theorem Reads.mapM_name {g : Formula Nat} {f : Formula String} (h : sig.Reads g f) :
    g.mapM sig.name = .ok f := by
  induction g generalizing f with
  | const b =>
    cases f with
    | const b' => exact congrArg (fun b ↦ Except.ok (Formula.const b)) (Formula.const.inj h)
    | _ => cases h
  | var i =>
    cases f with
    | var a =>
      rw [Formula.mapM, name, Formula.var.inj h]
      rfl
    | _ => cases h
  | neg g ih =>
    cases f with
    | neg f =>
      rw [Formula.mapM, ih (Formula.neg.inj h)]
      rfl
    | _ => cases h
  | next g ih =>
    cases f with
    | next f =>
      rw [Formula.mapM, ih (Formula.next.inj h)]
      rfl
    | _ => cases h
  | eventually g ih =>
    cases f with
    | eventually f =>
      rw [Formula.mapM, ih (Formula.eventually.inj h)]
      rfl
    | _ => cases h
  | always g ih =>
    cases f with
    | always f =>
      rw [Formula.mapM, ih (Formula.always.inj h)]
      rfl
    | _ => cases h
  | conj g₁ g₂ ih₁ ih₂ =>
    cases f with
    | conj f₁ f₂ =>
      rw [Formula.mapM, ih₁ (Formula.conj.inj h).1, ih₂ (Formula.conj.inj h).2]
      rfl
    | _ => cases h
  | disj g₁ g₂ ih₁ ih₂ =>
    cases f with
    | disj f₁ f₂ =>
      rw [Formula.mapM, ih₁ (Formula.disj.inj h).1, ih₂ (Formula.disj.inj h).2]
      rfl
    | _ => cases h
  | strongUntil g₁ g₂ ih₁ ih₂ =>
    cases f with
    | strongUntil f₁ f₂ =>
      rw [Formula.mapM, ih₁ (Formula.strongUntil.inj h).1, ih₂ (Formula.strongUntil.inj h).2]
      rfl
    | _ => cases h

/-- What becomes of an indexed formula through states is read as what becomes of the formula through
the observations that the states stand for. -/
theorem Reads.map_run (hsig : sig.Nodup) {g : Formula Nat} {f : Formula String}
    (h : sig.Reads g f) (final : Bool) (states : List State) :
    (g.run final (states.map State.value)).map sig.name? =
      (f.run final (states.map sig.observe)).map some := by
  -- both are the run of one formula, over positions read as names or as nothing
  let w : List (Option String → Option Bool) := states.map fun s name? ↦ name?.bind (sig.observe s)
  have hpositions : List.Forall₂ (fun (obs : Nat → Option Bool) obs' ↦
      ∀ i ∈ {i | i < sig.length}, obs' (sig.name? i) = obs i) (states.map State.value) w := by
    rw [List.forall₂_map_left_iff, List.forall₂_map_right_iff, List.forall₂_same]
    exact fun s _ i hi ↦ observe_name? hsig s hi
  have hnames : List.Forall₂ (fun (obs : String → Option Bool) obs' ↦
      ∀ name ∈ Set.univ, obs' (some name) = obs name) (states.map sig.observe) w := by
    rw [List.forall₂_map_left_iff, List.forall₂_map_right_iff, List.forall₂_same]
    exact fun s _ name _ ↦ rfl
  calc (g.run final (states.map State.value)).map sig.name?
      = (g.map sig.name?).run final w :=
        (Formula.run_map (injOn_name? hsig) final hpositions fun _ hi ↦ h.lt_length hi).symm
    _ = (f.map some).run final w := by rw [h]
    _ = (f.run final (states.map sig.observe)).map some :=
        Formula.run_map (Option.some_injective String).injOn final hnames fun _ _ ↦ trivial

end Signature

/-- A progression that is read as another one is renamed to it. -/
theorem Progression.named_of_map_eq {sig : Signature} {p : Progression Nat} {q : Progression String}
    (h : p.map sig.name? = q.map some) : p.named sig = .ok q := by
  cases p with
  | verdict b =>
    cases q with
    | verdict b' => exact congrArg (fun b ↦ Except.ok (verdict b)) (Progression.verdict.inj h)
    | residual f => cases h
  | residual g =>
    cases q with
    | verdict b => cases h
    | residual f =>
      have hreads : sig.Reads g f := Progression.residual.inj h
      rw [named, hreads.mapM_name]
      rfl

theorem Formula.run_singleton [DecidableEq α] (final : Bool) (obs : α → Option Bool)
    (f : Formula α) : f.run final [obs] = f.progress obs final := by
  rw [run, List.isEmpty_nil, Bool.and_true]
  cases f.progress obs final <;> rfl

/-- The formula `g` over positions does on states what the formula `f` does on names. -/
structure Signature.Mirrors (sig : Signature) (f : Formula String) (g : Formula Nat) : Prop where
  /-- One step of `g` on a state, renamed, is one step of `f` on the table of names and values. -/
  step : ∀ {ε : Type} (exhausted : ε) (s : State) (final : Bool), ∃ p q,
    (g.evaluate (.ok s) State.lookups final).1 = .ok p ∧
      (f.evaluate (.ok (sig.bindings s)) (Bindings.lookups exhausted) final).1 = .ok q ∧
      p.named sig = .ok q
  /-- A run of `g` through states, renamed, is the run of `f` through their observations. -/
  run : ∀ (states : List State) (final : Bool),
    (g.run final (states.map State.value)).named sig = .ok (f.run final (states.map sig.observe))

/-- **Monitoring over positions is monitoring over names**, for indexed formulas. -/
theorem Signature.Reads.mirrors {sig : Signature} (hsig : sig.Nodup) {g : Formula Nat}
    {f : Formula String} (h : sig.Reads g f) : sig.Mirrors f g where
  step exhausted s final := by
    have hrun := h.map_run hsig final [s]
    simp only [List.map_singleton, Formula.run_singleton] at hrun
    exact ⟨_, _, g.evaluate_of_steady s.steady_lookups final,
      f.evaluate_of_steady (steady_bindings hsig exhausted s) final,
      Progression.named_of_map_eq hrun⟩
  run states final := Progression.named_of_map_eq (h.map_run hsig final states)

/-- **Progression commutes with injective renaming.** A step on a renamed formula gives the same
verdict or the renamed residual, whenever no two variables of the formula get one name. So the
properties of a file, which are monitored over positions, do there what the formulas of the file do
over names. -/
theorem Formula.progress_commutes_with_renaming :
    (∀ {α β : Type} [DecidableEq α] [DecidableEq β] (f : Formula α) (g : α → β),
      Set.InjOn g {a | a ∈ f.vars} → ∀ (obs : α → Option Bool) (obs' : β → Option Bool),
        (∀ a ∈ f.vars, obs' (g a) = obs a) → ∀ final,
          (f.map g).progress obs' final = (f.progress obs final).map g) ∧
    ∀ {t : FileTree} {path : Path} {selection : Selection} {m : MonitoredProperties},
      Properties.load t path selection = .ok m →
        ∃ p assumes guarantees, Properties.readFile t path = .ok p ∧
          m.oracle = .ofFormulas assumes guarantees ∧
          List.Forall₂ m.catalogue.signature.Mirrors p.assumes assumes ∧
          List.Forall₂ (fun name g ↦ ∃ property ∈ p.guarantees, property.name = name ∧
            m.catalogue.signature.Mirrors property.formula g) m.catalogue.monitored guarantees := by
  constructor
  · intro α β _ _ f g hg obs obs' hobs final
    exact progress_map hg hobs final fun _ ha ↦ ha
  · intro t path selection m hload
    obtain ⟨p, hread, hbuild⟩ := Properties.load_eq_ok_iff.1 hload
    obtain ⟨-, guarantees, hguarantees, rfl⟩ := Properties.build_eq_ok_iff.1 hbuild
    refine ⟨p, p.indexedAssumes, guarantees, hread, rfl, ?_, ?_⟩
    · exact p.reads_indexedAssumes.imp fun _ _ hreads ↦ hreads.mirrors p.nodup_signature
    · refine hguarantees.imp fun name g hlookup ↦ ?_
      obtain ⟨property, hmem, hname, hreads⟩ := Properties.exists_reads_of_lookup hlookup
      exact ⟨property, hmem, hname, hreads.mirrors p.nodup_signature⟩

/-- Three variables of which only two occur, renamed such that the one that does not occur collides
with one that does; and a file whose signature starts with the variable of its guarantee, not with
that of its assume. The first residual is pruned by absorption. -/
theorem Formula.progress_commutes_with_renaming_absorbed :
    let f : Formula Nat := .disj (.next (.var 0)) (.conj (.next (.var 4)) (.next (.var 0)))
    let g : Nat → Nat := fun i ↦ i % 3
    let properties := "[[\x7b\"var\":\"a\"\x7d],[[\"p\",\x7b\"always\":\x7b\"next\":" ++
      "\x7b\"var\":\"b\"\x7d\x7d\x7d]]]"
    let tree : FileTree := ⟨[(["p.json"], .file (Text.Utf8.ofString properties))]⟩
    let m : MonitoredProperties :=
      ⟨.ofFormulas [.var 1] [.always (.next (.var 0))], ⟨["b", "a"], ["p"], ["p"]⟩⟩
    Set.InjOn g {a | a ∈ f.vars} ∧ g 1 = g 4 ∧
      (f.map g).progress (fun _ ↦ none) false = .residual (.var 0) ∧
      Properties.load tree "p.json" .all = .ok m ∧
      ∃ p, Properties.readFile tree "p.json" = .ok p ∧
        ∃ property ∈ p.guarantees, property.name = "p" ∧
          m.catalogue.signature.Mirrors property.formula (.always (.next (.var 0))) := by
  intro f g properties tree m
  obtain ⟨hstep, hmirrors⟩ := progress_commutes_with_renaming
  have hg : Set.InjOn g {a | a ∈ f.vars} := by
    have hpairs : ∀ a ∈ f.vars, ∀ b ∈ f.vars, g a = g b → a = b := by decide
    exact fun a ha b hb ↦ hpairs a ha b hb
  have hload : Properties.load tree "p.json" .all = .ok m := by decide +kernel
  obtain ⟨p, assumes, guarantees, hread, horacle, -, hguarantees⟩ := hmirrors hload
  obtain rfl : guarantees = [.always (.next (.var 0))] := by
    have hmap := congrArg Oracle.guarantees horacle
    exact (List.map_injective_iff.2 (fun _ _ ↦ Progression.residual.inj) hmap).symm
  cases hguarantees with
  | cons hproperty =>
    exact ⟨hg, rfl, (hstep f g hg (fun _ ↦ none) (fun _ ↦ none) (fun _ _ ↦ rfl) false).trans
      (by decide), hload, p, hread, hproperty⟩

end TemporalMonitor
