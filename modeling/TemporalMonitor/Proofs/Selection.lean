import TemporalMonitor.Proofs.Building
import TemporalMonitor.Proofs.RunOutcome
import TemporalMonitor.Trace.File

/-!
# The verdict on a guarantee does not depend on the selection

Two runs over one trace, one with all guarantees of a file and one with some of them, in any order
and as often as one likes. The runs may stop at different states and read different parts of the
trace; yet they agree on whether the trace counts, and on every guarantee that both of them check
(`Outcome.Restricts`).

Neither half of the argument looks at the runs. The file alone decides about the signature, the
assumes and the formula behind a name (`build_eq_ok_iff`), so both runs read the same states; and
the outcome is given by the final value of each property on its own (`Run.outcome_ofSource`).
-/

namespace TemporalMonitor

/-- The outcome for the guarantees `names` is what the outcome for the guarantees `whole` says about
them: both runs do not count, or both do and agree on every name. -/
inductive Outcome.Restricts (names whole : List String) : Outcome → Outcome → Prop
  | incomplete : Restricts names whole .incomplete .incomplete
  | verified {values wholeValues : List Bool} :
      values.length = names.length → wholeValues.length = whole.length →
      (∀ {j : Nat} {name : String}, names[j]? = some name → ∃ (k : Nat) (b : Bool),
        whole[k]? = some name ∧ wholeValues[k]? = some b ∧ values[j]? = some b) →
      Restricts names whole (.verified values) (.verified wholeValues)

/-- Formulas that are found by name, and their values: a name stands for the same value wherever it
is listed. -/
theorem exists_value_of_lookup {found : String → Option (Formula Nat)} {names whole : List String}
    {formulas wholeFormulas : List (Formula Nat)}
    (h : List.Forall₂ (fun name f ↦ found name = some f) names formulas)
    (hwhole : List.Forall₂ (fun name f ↦ found name = some f) whole wholeFormulas)
    (hsubset : ∀ name ∈ names, name ∈ whole) (value : Formula Nat → Bool) {j : Nat} {name : String}
    (hj : names[j]? = some name) :
    ∃ (k : Nat) (b : Bool), whole[k]? = some name ∧ (wholeFormulas.map value)[k]? = some b ∧
      (formulas.map value)[j]? = some b := by
  obtain ⟨hlength, hfound⟩ := List.forall₂_iff_get.1 h
  obtain ⟨hlength', hfound'⟩ := List.forall₂_iff_get.1 hwhole
  obtain ⟨hlt, rfl⟩ := List.getElem?_eq_some_iff.1 hj
  obtain ⟨k, hk, hname⟩ := List.getElem_of_mem (hsubset _ (List.getElem_mem hlt))
  have hj' : j < formulas.length := hlength ▸ hlt
  have hk' : k < wholeFormulas.length := hlength' ▸ hk
  have heq : wholeFormulas[k] = formulas[j] := by
    have h₁ : found names[j] = some formulas[j] := hfound j hlt hj'
    have h₂ : found whole[k] = some wholeFormulas[k] := hfound' k hk hk'
    rw [hname, h₁] at h₂
    exact (Option.some.inj h₂).symm
  refine ⟨k, value formulas[j], ?_, ?_, ?_⟩
  · rw [List.getElem?_eq_getElem hk, hname]
  · rw [List.getElem?_map, List.getElem?_eq_getElem hk', heq, Option.map_some]
  · rw [List.getElem?_map, List.getElem?_eq_getElem hj', Option.map_some]

/-- Outcomes over the same states and under the same assumes. -/
theorem outcomeOf_restricts {found : String → Option (Formula Nat)} {names whole : List String}
    {formulas wholeFormulas : List (Formula Nat)}
    (h : List.Forall₂ (fun name f ↦ found name = some f) names formulas)
    (hwhole : List.Forall₂ (fun name f ↦ found name = some f) whole wholeFormulas)
    (hsubset : ∀ name ∈ names, name ∈ whole) (assumes : List (Formula Nat))
    (states : List State) :
    (outcomeOf assumes formulas states).Restricts names whole
      (outcomeOf assumes wholeFormulas states) := by
  rw [outcomeOf, outcomeOf]
  split_ifs
  · exact .incomplete
  · refine .verified ?_ ?_ fun hj ↦ exists_value_of_lookup h hwhole hsubset _ hj
    · rw [List.length_map, h.length_eq]
    · rw [List.length_map, hwhole.length_eq]

namespace Properties

/-- Names of guarantees can be selected. -/
theorem exists_forall₂_lookup (p : Properties) {names : List String}
    (h : ∀ name ∈ names, name ∈ p.names) : ∃ formulas,
      List.Forall₂ (fun name f ↦ p.indexedGuarantees.lookup name = some f) names formulas := by
  induction names with
  | nil => exact ⟨[], .nil⟩
  | cons name names ih =>
    obtain ⟨hname, hnames⟩ := List.forall_mem_cons.1 h
    obtain ⟨formulas, hformulas⟩ := ih hnames
    rw [← p.map_fst_indexedGuarantees] at hname
    obtain ⟨f, hf⟩ := exists_lookup_of_mem hname
    exact ⟨f :: formulas, .cons hf hformulas⟩

/-- **The verdict on a guarantee does not depend on what else is selected.** A file that loads also
loads with all its guarantees and with any list of their names, with the same signature and the same
assumes; and over every trace that is read to its end, whether or not runs may stop early, the
outcome for the list is what the outcome for all guarantees says about its names. -/
theorem load_named_restricts_all {t : FileTree} {path : Path} {selection : Selection}
    {m : MonitoredProperties} (hload : load t path selection = .ok m) {names : List String}
    (hnames : ∀ name ∈ names, name ∈ m.catalogue.guarantees) :
    ∃ chosen all, load t path (.named names) = .ok chosen ∧ load t path .all = .ok all ∧
      chosen.catalogue.monitored = names ∧
      all.catalogue.monitored = m.catalogue.guarantees ∧ m.catalogue.guarantees.Nodup ∧
      chosen.catalogue.signature = all.catalogue.signature ∧
      chosen.oracle.assumes = all.oracle.assumes ∧
      ∀ (tree : FileTree) (trace : Path),
        (TraceFile.source tree all.catalogue.signature trace).failure = none → ∀ early : Bool,
          ∃ outcome whole,
            (Run.ofSource early chosen.oracle
              (TraceFile.source tree chosen.catalogue.signature trace)).outcome = .ok outcome ∧
            (Run.ofSource early all.oracle
              (TraceFile.source tree all.catalogue.signature trace)).outcome = .ok whole ∧
            outcome.Restricts names all.catalogue.monitored whole := by
  obtain ⟨p, hread, hbuild⟩ := load_eq_ok_iff.1 hload
  obtain ⟨hnodup, _, _, rfl⟩ := build_eq_ok_iff.1 hbuild
  obtain ⟨formulas, hformulas⟩ := p.exists_forall₂_lookup hnames
  obtain ⟨wholeFormulas, hwhole⟩ := p.exists_forall₂_lookup fun _ hname ↦ hname
  refine ⟨⟨.ofFormulas p.indexedAssumes formulas, ⟨p.signature, p.names, names⟩⟩,
    ⟨.ofFormulas p.indexedAssumes wholeFormulas, ⟨p.signature, p.names, p.names⟩⟩,
    load_eq_ok_iff.2 ⟨p, hread, build_eq_ok_iff.2 ⟨hnodup, formulas, hformulas, rfl⟩⟩,
    load_eq_ok_iff.2 ⟨p, hread, build_eq_ok_iff.2 ⟨hnodup, wholeFormulas, hwhole, rfl⟩⟩,
    rfl, rfl, hnodup, rfl, rfl, ?_⟩
  intro tree trace hfailure early
  exact ⟨_, _, Run.outcome_ofSource early _ _ hfailure, Run.outcome_ofSource early _ _ hfailure,
    outcomeOf_restricts hformulas hwhole hnames p.indexedAssumes _⟩

/-- A file with two guarantees, the second of which is selected twice, and a trace that settles the
second one at its first state and the first one only at its end. -/
theorem load_named_restricts_all_twice :
    let properties := "[[],[[\"p\",\x7b\"always\":\x7b\"var\":\"a\"\x7d\x7d]," ++
      "[\"q\",\x7b\"var\":\"b\"\x7d]]]"
    let tree : FileTree := ⟨[(["p.json"], .file (Text.Utf8.ofString properties)),
      (["t.csv"], .file (Text.Utf8.ofString "b,a\n0,1\n1,1\n"))]⟩
    let all : MonitoredProperties :=
      ⟨.ofFormulas [] [.always (.var 0), .var 1], ⟨["a", "b"], ["p", "q"], ["p", "q"]⟩⟩
    load tree "p.json" .all = .ok all ∧
      (TraceFile.source tree all.catalogue.signature "t.csv").failure = none ∧
      ∃ chosen outcome whole, load tree "p.json" (.named ["q", "p", "q"]) = .ok chosen ∧
        ((TraceFile.source tree chosen.catalogue.signature "t.csv").experiment
          chosen.oracle).outcome = .ok outcome ∧
        ((TraceFile.source tree all.catalogue.signature "t.csv").experiment
          all.oracle).outcome = .ok whole ∧
        outcome.Restricts ["q", "p", "q"] all.catalogue.monitored whole := by
  intro properties tree all
  have hload : load tree "p.json" .all = .ok all := by decide +kernel
  have hfailure : (TraceFile.source tree all.catalogue.signature "t.csv").failure = none := by
    decide +kernel
  obtain ⟨chosen, all', hchosen, hall, -, -, -, -, -, htrace⟩ :=
    load_named_restricts_all hload (show ∀ name ∈ ["q", "p", "q"], name ∈ ["p", "q"] by decide)
  obtain rfl : all = all' := Except.ok.inj (hload.symm.trans hall)
  obtain ⟨outcome, whole, houtcome, hwhole, hrestricts⟩ := htrace tree "t.csv" hfailure true
  exact ⟨hload, hfailure, chosen, outcome, whole, hchosen, houtcome, hwhole, hrestricts⟩

end Properties

end TemporalMonitor
