import Mathlib.Data.List.Infix
import Mathlib.Data.List.Nodup
import TemporalMonitor.Progression.Lookup

/-!
# Sessions of an evaluation on demand

What a session looks like in the course of an evaluation, and how it changes from one part of the
evaluation to the next.

* `Lookup.replies` is what a table answers to variables asked in a row, whatever it does in between.
* `Session.Met` describes the session after visits of some variables without failure,
  `Session.FailedAt` the session after the visit that failed. Both say all there is to a session: a
  variable is passed to the table at its first visit, and its answer is kept for later ones.
* `Evaluation.Meets` is the contract of a part of an evaluation: which visits it adds to those made
  before, and what it returns, under all observations that agree with the answers received. Parts
  compose (`Meets.pure`, `Meets.bind`), and asking for a variable is one visit (`meets_value`).
-/

namespace TemporalMonitor

variable {α τ ε : Type}

namespace Lookup

/-- The answers of a table to variables that are asked in a row. -/
def replies (lookup : Lookup α τ ε) : List α → τ → List (α × Except ε (Option Bool))
  | [], _ => []
  | a :: as, t => (a, (lookup.ask a t).1) :: lookup.replies as (lookup.ask a t).2

/-- The table after variables were asked in a row. -/
def tableAfter (lookup : Lookup α τ ε) (as : List α) (t : τ) : τ :=
  as.foldl (fun t a ↦ (lookup.ask a t).2) t

theorem replies_concat (lookup : Lookup α τ ε) (as : List α) (a : α) (t : τ) :
    lookup.replies (as ++ [a]) t =
      lookup.replies as t ++ [(a, (lookup.ask a (lookup.tableAfter as t)).1)] := by
  induction as generalizing t with
  | nil => rfl
  | cons b as ih => exact congrArg (List.cons _) (ih _)

theorem tableAfter_concat (lookup : Lookup α τ ε) (as : List α) (a : α) (t : τ) :
    lookup.tableAfter (as ++ [a]) t = (lookup.ask a (lookup.tableAfter as t)).2 := by
  rw [tableAfter, List.foldl_append]
  rfl

theorem map_fst_replies (lookup : Lookup α τ ε) (as : List α) (t : τ) :
    (lookup.replies as t).map Prod.fst = as := by
  induction as generalizing t with
  | nil => rfl
  | cons a as ih => exact congrArg (List.cons a) (ih _)

/-- The variables asked can be read off from their replies, also where these are answers kept. -/
theorem eq_of_replies (lookup : Lookup α τ ε) {as : List α} {t : τ}
    {answers : List (α × Option Bool)}
    (h : lookup.replies as t = answers.reverse.map (Prod.map id .ok)) :
    as = (answers.map Prod.fst).reverse := by
  have hkeys := congrArg (List.map Prod.fst) h
  rw [lookup.map_fst_replies, List.map_map] at hkeys
  exact hkeys.trans List.map_reverse

end Lookup

/-- Observations that agree with the answers received. -/
def Session.Agrees (s : Session α τ) (obs : α → Option Bool) : Prop :=
  ∀ a v, (a, v) ∈ s.answers → obs a = v

theorem Session.Agrees.of_suffix {s s' : Session α τ} {obs : α → Option Bool}
    (h : s'.Agrees obs) (hs : s.answers <:+ s'.answers) : s.Agrees obs :=
  fun a v hav ↦ h a v (hs.subset hav)

variable [DecidableEq α]

/-! ### First occurrences -/

theorem eraseDups_concat (as : List α) (a : α) :
    (as ++ [a]).eraseDups = if a ∈ as then as.eraseDups else as.eraseDups ++ [a] := by
  rw [List.eraseDups_append]
  split_ifs with h
  · simp [List.removeAll, h]
  · simp [List.removeAll, h, List.eraseDups_cons]

theorem nodup_eraseDups (as : List α) : as.eraseDups.Nodup := by
  induction as using List.reverseRecOn with
  | nil => exact List.nodup_nil
  | append_singleton as a ih =>
    rw [eraseDups_concat]
    split_ifs with h
    · exact ih
    · refine List.nodup_append.2 ⟨ih, List.pairwise_singleton _ a, ?_⟩
      rintro b hb c hc rfl
      obtain rfl := List.mem_singleton.1 hc
      exact h (List.mem_eraseDups.1 hb)

theorem eraseDups_isPrefix {as bs : List α} (h : as <+: bs) : as.eraseDups <+: bs.eraseDups := by
  obtain ⟨cs, rfl⟩ := h
  rw [List.eraseDups_append]
  exact List.prefix_append _ _

namespace Session

/-- The session after the given visits, none of which failed. -/
inductive Met (provider : Except ε τ) (lookup : Lookup α τ ε) : List α → Session α τ → Prop
  /-- Before the first visit the session is untouched. -/
  | none : Met provider lookup [] {}
  /-- From the first visit on there is a table, which was asked for each variable once. -/
  | some {as : List α} {t : τ} {answers : List (α × Option Bool)} (visited : as ≠ [])
      (provided : provider = .ok t)
      (replied : lookup.replies as.eraseDups t = answers.reverse.map (Prod.map id .ok)) :
      Met provider lookup as
        ⟨some (lookup.tableAfter as.eraseDups t), 1, as.eraseDups, answers⟩

/-- The session after the given visits and one more, of the variable `a`, which failed with `e`. -/
inductive FailedAt (provider : Except ε τ) (lookup : Lookup α τ ε) :
    List α → α → ε → Session α τ → Prop
  /-- The provider failed at the first visit, and there was no table to ask. -/
  | provider {a : α} {e : ε} (failed : provider = .error e) :
      FailedAt provider lookup [] a e ⟨none, 1, [], []⟩
  /-- The table failed to answer, and the answer is not kept. -/
  | reply {as : List α} {a : α} {e : ε} {t : τ} {answers : List (α × Option Bool)}
      (fresh : a ∉ as) (provided : provider = .ok t)
      (replied : lookup.replies as.eraseDups t = answers.reverse.map (Prod.map id .ok))
      (failed : (lookup.ask a (lookup.tableAfter as.eraseDups t)).1 = .error e) :
      FailedAt provider lookup as a e
        ⟨some (lookup.tableAfter (as.eraseDups ++ [a]) t), 1, as.eraseDups ++ [a], answers⟩

variable {provider : Except ε τ} {lookup : Lookup α τ ε}

/-- The answers are those to the variables visited. -/
theorem Met.mem_iff {as : List α} {s : Session α τ} (h : Met provider lookup as s) {a : α} :
    a ∈ as ↔ ∃ v, (a, v) ∈ s.answers := by
  cases h with
  | none => simp
  | some visited provided replied =>
    rename_i t answers
    rw [← List.mem_eraseDups, lookup.eq_of_replies replied]
    simp

/-- A variable that was visited before changes nothing. -/
theorem Met.revisit {as : List α} {s : Session α τ} (h : Met provider lookup as s) {a : α}
    (ha : a ∈ as) : Met provider lookup (as ++ [a]) s := by
  cases h with
  | none => cases ha
  | some visited provided replied =>
    have heq : (as ++ [a]).eraseDups = as.eraseDups := by rw [eraseDups_concat, if_pos ha]
    rw [← heq] at replied ⊢
    exact .some (List.append_ne_nil_of_left_ne_nil visited [a]) provided replied

theorem Met.replies_eq {as : List α} {s : Session α τ} (h : Met provider lookup as s) {t : τ}
    (ht : provider = .ok t) :
    lookup.replies as.eraseDups t = s.answers.reverse.map (Prod.map id .ok) := by
  cases h with
  | none => rfl
  | some visited provided replied =>
    obtain rfl := Except.ok.inj (provided.symm.trans ht)
    exact replied

theorem Met.asked_eq {as : List α} {s : Session α τ} (h : Met provider lookup as s) :
    s.asked = as.eraseDups := by
  cases h <;> rfl

theorem Met.requests_eq {as : List α} {s : Session α τ} (h : Met provider lookup as s) :
    s.requests = if as = [] then 0 else 1 := by
  cases h with
  | none => rfl
  | some visited provided replied => rw [if_neg visited]

/-- Each variable has been answered once, so some observations agree with all the answers. -/
theorem exists_agrees_of_replies {as : List α} {t : τ} {answers : List (α × Option Bool)}
    (h : lookup.replies as.eraseDups t = answers.reverse.map (Prod.map id .ok)) :
    ∃ obs : α → Option Bool, ∀ a v, (a, v) ∈ answers → obs a = v := by
  have hnodup : (answers.map Prod.fst).Nodup := by
    rw [← List.nodup_reverse, ← lookup.eq_of_replies h]
    exact nodup_eraseDups as
  classical
  refine ⟨fun a ↦ if h : ∃ v, (a, v) ∈ answers then h.choose else none, fun a v hav ↦ ?_⟩
  have hexists : ∃ v, (a, v) ∈ answers := ⟨v, hav⟩
  have hpair := List.inj_on_of_nodup_map hnodup hexists.choose_spec hav rfl
  exact (dif_pos hexists).trans (Prod.mk.inj hpair).2

theorem Met.exists_agrees {as : List α} {s : Session α τ} (h : Met provider lookup as s) :
    ∃ obs, s.Agrees obs := by
  cases h with
  | none => exact ⟨fun _ ↦ .none, fun a v hav ↦ absurd hav List.not_mem_nil⟩
  | some visited provided replied => exact exists_agrees_of_replies replied

/-- Without a table there can only be sessions that are untouched. -/
theorem Met.eq_of_error {as : List α} {s : Session α τ} (h : Met provider lookup as s) {e : ε}
    (he : provider = .error e) : as = [] ∧ s = {} := by
  cases h with
  | none => exact ⟨rfl, rfl⟩
  | some visited provided replied => cases provided.symm.trans he

end Session

namespace Evaluation

variable {β γ : Type}

/-! ### Parts of an evaluation -/

theorem run_bind_of_ok {σ : Type} {m : ExceptT ε (StateM σ) β} {k : β → ExceptT ε (StateM σ) γ}
    {s s' : σ} {b : β} (h : m.run.run s = (.ok b, s')) :
    (m >>= k).run.run s = (k b).run.run s' := by
  rw [ExceptT.run_bind, StateT.run_bind, h]
  rfl

theorem run_bind_of_error {σ : Type} {m : ExceptT ε (StateM σ) β}
    {k : β → ExceptT ε (StateM σ) γ} {s s' : σ} {e : ε} (h : m.run.run s = (.error e, s')) :
    (m >>= k).run.run s = (.error e, s') := by
  rw [ExceptT.run_bind, StateT.run_bind, h]
  rfl

/-- A part of an evaluation meets the variables `vars obs`, in this order, and returns `val obs`,
whichever observations `obs` agree with the answers received, its own included. When it fails, it
does so at one of these visits. -/
structure Meets (provider : Except ε τ) (lookup : Lookup α τ ε) (m : Evaluation α τ ε β)
    (vars : (α → Option Bool) → List α) (val : (α → Option Bool) → β) : Prop where
  /-- Without failure all the visits are made. -/
  ok : ∀ {as s b s'}, Session.Met provider lookup as s → m.run.run s = (.ok b, s') →
    s.answers <:+ s'.answers ∧ ∃ as', Session.Met provider lookup (as ++ as') s' ∧
      ∀ obs, s'.Agrees obs → as' = vars obs ∧ b = val obs
  /-- With a failure the visits are made up to the one that fails. -/
  error : ∀ {as s e s'}, Session.Met provider lookup as s → m.run.run s = (.error e, s') →
    s.answers <:+ s'.answers ∧ ∃ as' a, Session.FailedAt provider lookup (as ++ as') a e s' ∧
      ∀ obs, s'.Agrees obs → as' ++ [a] <+: vars obs

variable {provider : Except ε τ} {lookup : Lookup α τ ε}

theorem Meets.pure (b : β) :
    Meets provider lookup (Pure.pure b) (fun _ ↦ []) (fun _ ↦ b) where
  ok := by
    rintro as s b' s' hs ⟨⟩
    exact ⟨List.suffix_rfl, [], by rwa [List.append_nil], fun _ _ ↦ ⟨rfl, rfl⟩⟩
  error := by
    rintro as s e s' hs ⟨⟩

theorem Meets.bind {m : Evaluation α τ ε β} {vars : (α → Option Bool) → List α}
    {val : (α → Option Bool) → β} (hm : Meets provider lookup m vars val)
    {k : β → Evaluation α τ ε γ} {w : β → (α → Option Bool) → List α}
    {y : β → (α → Option Bool) → γ} (hk : ∀ b, Meets provider lookup (k b) (w b) (y b)) :
    Meets provider lookup (m >>= k) (fun obs ↦ vars obs ++ w (val obs) obs)
      (fun obs ↦ y (val obs) obs) where
  ok := by
    intro as s c s' hs hrun
    rcases hm_run : m.run.run s with ⟨e | b, s₁⟩
    · rw [run_bind_of_error hm_run] at hrun
      cases hrun
    · rw [run_bind_of_ok hm_run] at hrun
      obtain ⟨hsuffix, as₁, hs₁, hobs₁⟩ := hm.ok hs hm_run
      obtain ⟨hsuffix', as₂, hs₂, hobs₂⟩ := (hk b).ok hs₁ hrun
      refine ⟨hsuffix.trans hsuffix', as₁ ++ as₂, by rwa [← List.append_assoc], fun obs hobs ↦ ?_⟩
      obtain ⟨rfl, rfl⟩ := hobs₁ obs (hobs.of_suffix hsuffix')
      obtain ⟨rfl, rfl⟩ := hobs₂ obs hobs
      exact ⟨rfl, rfl⟩
  error := by
    intro as s e s' hs hrun
    rcases hm_run : m.run.run s with ⟨e₁ | b, s₁⟩
    · rw [run_bind_of_error hm_run] at hrun
      cases hrun
      obtain ⟨hsuffix, as₁, a, hs₁, hobs₁⟩ := hm.error hs hm_run
      exact ⟨hsuffix, as₁, a, hs₁, fun obs hobs ↦
        (hobs₁ obs hobs).trans (List.prefix_append _ _)⟩
    · rw [run_bind_of_ok hm_run] at hrun
      obtain ⟨hsuffix, as₁, hs₁, hobs₁⟩ := hm.ok hs hm_run
      obtain ⟨hsuffix', as₂, a, hs₂, hobs₂⟩ := (hk b).error hs₁ hrun
      refine ⟨hsuffix.trans hsuffix', as₁ ++ as₂, a, by rwa [← List.append_assoc],
        fun obs hobs ↦ ?_⟩
      obtain ⟨rfl, rfl⟩ := hobs₁ obs (hobs.of_suffix hsuffix')
      rw [List.append_assoc, List.prefix_append_right_inj]
      exact hobs₂ obs hobs

theorem Meets.congr {m : Evaluation α τ ε β} {vars vars' : (α → Option Bool) → List α}
    {val val' : (α → Option Bool) → β} (hm : Meets provider lookup m vars val)
    (hvars : ∀ obs, vars obs = vars' obs) (hval : ∀ obs, val obs = val' obs) :
    Meets provider lookup m vars' val' := by
  obtain rfl := funext hvars
  obtain rfl := funext hval
  exact hm

/-- A part whose value is passed on through a function. -/
theorem Meets.map {m : Evaluation α τ ε β} {vars : (α → Option Bool) → List α}
    {val : (α → Option Bool) → β} (hm : Meets provider lookup m vars val) (g : β → γ) :
    Meets provider lookup (do return g (← m)) vars (fun obs ↦ g (val obs)) :=
  (hm.bind fun b ↦ Meets.pure (g b)).congr (fun _ ↦ List.append_nil _) fun _ ↦ rfl

/-! ### Asking for a variable -/

omit [DecidableEq α] in
theorem run_get (s : Session α τ) :
    (get : Evaluation α τ ε (Session α τ)).run.run s = (.ok s, s) :=
  rfl

theorem run_value_of_some {a : α} {v : Option Bool} {s : Session α τ}
    (h : s.answers.lookup a = some v) :
    (value provider lookup a).run.run s = (.ok v, s) := by
  rw [value, run_bind_of_ok (run_get s), h]
  rfl

theorem run_value_of_none {a : α} {s : Session α τ} (h : s.answers.lookup a = none) :
    (value provider lookup a).run.run s =
      (table provider >>= fun t ↦ consult lookup t a : Evaluation α τ ε _).run.run s := by
  rw [value, run_bind_of_ok (run_get s), h]

omit [DecidableEq α] in
theorem run_table_of_some {t : τ} {s : Session α τ} (h : s.table = some t) :
    (table provider : Evaluation α τ ε τ).run.run s = (.ok t, s) := by
  unfold table
  rw [run_bind_of_ok (run_get s), h]
  rfl

omit [DecidableEq α] in
theorem run_table_of_none {s : Session α τ} (h : s.table = none) :
    (table provider : Evaluation α τ ε τ).run.run s =
      (provider, { s with requests := s.requests + 1 }) := by
  obtain ⟨table, requests, asked, answers⟩ := s
  obtain rfl : table = none := h
  cases provider <;> rfl

omit [DecidableEq α] in
theorem run_consult {t : τ} {a : α} {s : Session α τ} :
    (consult lookup t a).run.run s =
      ((lookup.ask a t).1, { s with
        table := some (lookup.ask a t).2
        asked := s.asked ++ [a]
        answers := ((lookup.ask a t).1.toOption.map fun v ↦ (a, v)).toList ++ s.answers }) := by
  rcases h : lookup.ask a t with ⟨e | v, t'⟩ <;> (rw [consult, h]; rfl)

/-- A variable is known if it was visited, and not otherwise. -/
theorem lookup_answers_cases {as : List α} {s : Session α τ}
    (hs : Session.Met provider lookup as s) (a : α) :
    (a ∈ as ∧ ∃ v, s.answers.lookup a = some v ∧ (a, v) ∈ s.answers) ∨
      (a ∉ as ∧ s.answers.lookup a = none) := by
  rw [hs.mem_iff]
  cases h : s.answers.lookup a with
  | some v =>
    obtain ⟨l₁, l₂, hsplit, -⟩ := List.lookup_eq_some_iff.1 h
    have hmem : (a, v) ∈ s.answers := by
      rw [hsplit]
      exact List.mem_append_cons_self
    exact Or.inl ⟨⟨v, hmem⟩, v, rfl, hmem⟩
  | none =>
    refine Or.inr ⟨?_, rfl⟩
    rintro ⟨v, hmem⟩
    exact bne_iff_ne.1 (List.lookup_eq_none_iff.1 h (a, v) hmem) rfl

/-- The visit of a new variable asks the table, which is provided first if need be. -/
theorem run_value_of_ok {as : List α} {s : Session α τ} (hs : Session.Met provider lookup as s)
    {a : α} (ha : s.answers.lookup a = none) {t : τ} (ht : provider = .ok t) :
    (value provider lookup a).run.run s =
      ((lookup.ask a (lookup.tableAfter as.eraseDups t)).1,
        { table := some (lookup.tableAfter (as.eraseDups ++ [a]) t)
          requests := 1
          asked := as.eraseDups ++ [a]
          answers := ((lookup.ask a (lookup.tableAfter as.eraseDups t)).1.toOption.map
            fun v ↦ (a, v)).toList ++ s.answers }) := by
  rw [run_value_of_none ha, lookup.tableAfter_concat]
  cases hs with
  | none =>
    have htable :
        (table provider : Evaluation α τ ε τ).run.run {} = (.ok t, { requests := 1 }) := by
      rw [run_table_of_none rfl, ht]
    rw [run_bind_of_ok htable, run_consult]
    rfl
  | some visited provided replied =>
    obtain rfl := Except.ok.inj (provided.symm.trans ht)
    rw [run_bind_of_ok (run_table_of_some rfl), run_consult]

/-- The first visit fails if the provider does. -/
theorem run_value_of_error (a : α) {e : ε} (he : provider = .error e) :
    (value provider lookup a).run.run {} = (.error e, { requests := 1 }) := by
  have htable :
      (table provider : Evaluation α τ ε τ).run.run {} = (.error e, { requests := 1 }) := by
    rw [run_table_of_none rfl, he]
  rw [run_value_of_none rfl, run_bind_of_error htable]

/-- Asking for a variable is one visit, whether it was visited before or not. -/
theorem meets_value (a : α) :
    Meets provider lookup (value provider lookup a) (fun _ ↦ [a]) (fun obs ↦ obs a) where
  ok := by
    intro as s v s' hs hrun
    rcases lookup_answers_cases hs a with ⟨ha, v', hlookup, hmem⟩ | ⟨ha, hlookup⟩
    · rw [run_value_of_some hlookup] at hrun
      cases hrun
      exact ⟨List.suffix_rfl, [a], hs.revisit ha, fun obs hobs ↦ ⟨rfl, (hobs a v hmem).symm⟩⟩
    · rcases hp : provider with e | t
      · obtain ⟨rfl, rfl⟩ := hs.eq_of_error hp
        rw [run_value_of_error a hp] at hrun
        cases hrun
      · rw [run_value_of_ok hs hlookup hp] at hrun
        obtain ⟨hreply, rfl⟩ := Prod.mk.inj hrun
        rw [← hp, hreply]
        have hdups : (as ++ [a]).eraseDups = as.eraseDups ++ [a] := by
          rw [eraseDups_concat, if_neg ha]
        have hmet : Session.Met provider lookup (as ++ [a])
            ⟨some (lookup.tableAfter (as ++ [a]).eraseDups t), 1, (as ++ [a]).eraseDups,
              (a, v) :: s.answers⟩ := by
          refine .some (List.concat_ne_nil a as) hp ?_
          rw [hdups, lookup.replies_concat, hs.replies_eq hp, hreply, List.reverse_cons,
            List.map_append]
          rfl
        rw [hdups] at hmet
        exact ⟨List.suffix_cons _ _, [a], hmet,
          fun obs hobs ↦ ⟨rfl, (hobs a v List.mem_cons_self).symm⟩⟩
  error := by
    intro as s e s' hs hrun
    rcases lookup_answers_cases hs a with ⟨ha, v', hlookup, hmem⟩ | ⟨ha, hlookup⟩
    · rw [run_value_of_some hlookup] at hrun
      cases hrun
    · rcases hp : provider with e' | t
      · obtain ⟨rfl, rfl⟩ := hs.eq_of_error hp
        rw [run_value_of_error a hp] at hrun
        obtain ⟨he, rfl⟩ := Prod.mk.inj hrun
        cases he
        exact ⟨List.suffix_rfl, [], a, .provider rfl, fun _ _ ↦ List.prefix_rfl⟩
      · rw [run_value_of_ok hs hlookup hp] at hrun
        obtain ⟨hreply, rfl⟩ := Prod.mk.inj hrun
        rw [← hp, hreply]
        have hfailed := Session.FailedAt.reply ha hp (hs.replies_eq hp) hreply
        exact ⟨List.suffix_rfl, [], a, by rwa [List.append_nil], fun _ _ ↦ List.prefix_rfl⟩

end Evaluation

end TemporalMonitor
