import Scriptlet.Proofs.EarlierOutput
import Scriptlet.Proofs.PiecewiseRun

/-!
# The runs of a session

A source that is rejected, by the scan or by the parser, is reported and leaves the machine alone; one
that is accepted is run and reported if it fails. So a session goes on behind a rejected source as if
that had never been entered. A run writes behind what was written before and changes none of it.
-/

namespace Scriptlet

/-- A source without scan errors and without syntax errors. -/
def Accepted (source : String) : Prop :=
  (scan source).errors = [] ∧ (parse (scan source).tokens).errors = []

instance : DecidablePred Accepted := fun _ => inferInstanceAs (Decidable (_ ∧ _))

/-- What keeps a source from being run: all errors of its scan, then all errors of parsing it. -/
def staticErrors (source : String) : List Diagnostic :=
  (scan source).errors.map ScanError.diagnostic ++
    (parse (scan source).tokens).errors.map SyntaxError.diagnostic

/-- A source that was run, with the machine before, what was found, and the machine after. -/
structure Run where
  source : String
  before : Machine
  found : Diagnostics
  after : Machine

namespace Run

/-- The bytes that a run added to what was written before. -/
def output (r : Run) : ByteArray :=
  r.after.sink.written.extract r.before.sink.written.size r.after.sink.written.size

/-- A rejected source is reported with all of its errors and changes nothing; an accepted one is
reported with one runtime error if it fails. -/
structure Reported (r : Run) : Prop where
  rejected : ¬ Accepted r.source → r.found.all = staticErrors r.source ∧ r.after = r.before
  accepted : Accepted r.source →
    r.found.all = [] ∨ ∃ e : RuntimeError, r.found.all = [e.diagnostic]
  hadError_iff : r.found.hadError ↔ ¬ Accepted r.source
  exclusive : ¬ (r.found.hadError ∧ r.found.hadRuntimeError)

end Run

section staticErrors
variable {source : String}

lemma staticErrors_eq_nil_iff : staticErrors source = [] ↔ Accepted source := by
  rw [staticErrors, List.append_eq_nil_iff, List.map_eq_nil_iff, List.map_eq_nil_iff, Accepted]

lemma isStatic_of_mem_staticErrors {d : Diagnostic} (h : d ∈ staticErrors source) :
    d.isStatic = true ∧ d.isRuntime = false := by
  rcases List.mem_append.mp h with h | h <;>
  · obtain ⟨e, -, rfl⟩ := List.mem_map.mp h
    exact ⟨rfl, rfl⟩

lemma hadError_staticErrors (h : ¬ Accepted source) :
    (Diagnostics.mk (staticErrors source)).hadError = true := by
  obtain ⟨d, ds, hds⟩ := List.exists_cons_of_ne_nil (mt staticErrors_eq_nil_iff.mp h)
  have hd : d ∈ staticErrors source := hds ▸ List.mem_cons_self
  exact List.any_eq_true.mpr ⟨d, hd, (isStatic_of_mem_staticErrors hd).1⟩

lemma hadRuntimeError_staticErrors :
    (Diagnostics.mk (staticErrors source)).hadRuntimeError = false := by
  refine List.any_eq_false.mpr (fun d hd => ?_)
  rw [(isStatic_of_mem_staticErrors hd).2]
  exact Bool.false_ne_true

end staticErrors

namespace Machine

/-- Runs sources one after the other; no answer when one of them does not end. -/
def runAll (rounds : Nat) (m : Machine) : List String → Option (List Run × Machine)
  | [] => some ([], m)
  | source :: rest => do
    let (found, m') ← m.run rounds source
    let (runs, last) ← runAll rounds m' rest
    return (⟨source, m, found, m'⟩ :: runs, last)

variable {rounds : Nat} {m m' last : Machine} {source : String} {sources : List String}
  {found : Diagnostics} {runs : List Run}

lemma run_of_rejected (h : ¬ Accepted source) :
    m.run rounds source = some (⟨staticErrors source⟩, m) := by
  have hne : ¬ (staticErrors source).isEmpty := by
    rw [List.isEmpty_iff, staticErrors_eq_nil_iff]
    exact h
  exact if_neg hne

lemma found_of_accepted (h : Accepted source) (hrun : m.run rounds source = some (found, m')) :
    found.all = [] ∨ ∃ e : RuntimeError, found.all = [e.diagnostic] := by
  rw [run_of_clean h.1 h.2, Option.map_eq_some_iff] at hrun
  obtain ⟨⟨error, m''⟩, -, heq⟩ := hrun
  cases heq
  cases error with
  | none => exact Or.inl rfl
  | some e => exact Or.inr ⟨e, rfl⟩

lemma run_reported (h : m.run rounds source = some (found, m')) :
    Run.Reported ⟨source, m, found, m'⟩ := by
  by_cases hsource : Accepted source
  · have hfound := found_of_accepted hsource h
    have hstatic : found.hadError = false := by
      unfold Diagnostics.hadError
      obtain hnone | ⟨e, he⟩ := hfound
      · rw [hnone]
        rfl
      · rw [he]
        rfl
    refine ⟨fun hnot => absurd hsource hnot, fun _ => hfound, ?_, ?_⟩
    · rw [hstatic]
      exact iff_of_false Bool.false_ne_true (not_not_intro hsource)
    · rw [hstatic]
      exact fun hboth => Bool.false_ne_true hboth.1
  · rw [run_of_rejected hsource] at h
    cases h
    refine ⟨fun _ => ⟨rfl, rfl⟩, fun hyes => absurd hyes hsource, ?_, ?_⟩
    · exact iff_of_true (hadError_staticErrors hsource) hsource
    · rw [hadRuntimeError_staticErrors]
      exact fun hboth => Bool.false_ne_true hboth.2

lemma runAll_cons (h : m.runAll rounds (source :: sources) = some (runs, last)) :
    ∃ found m' more, m.run rounds source = some (found, m') ∧
      m'.runAll rounds sources = some (more, last) ∧ runs = ⟨source, m, found, m'⟩ :: more := by
  rw [runAll] at h
  obtain ⟨⟨found, m'⟩, hrun, h⟩ := Option.bind_eq_some_iff.mp h
  obtain ⟨⟨more, last'⟩, hmore, h⟩ := Option.bind_eq_some_iff.mp h
  cases h
  exact ⟨found, m', more, hrun, hmore, rfl⟩

lemma runAll_reported (h : m.runAll rounds sources = some (runs, last)) :
    runs.map Run.source = sources ∧ ∀ r ∈ runs, r.Reported := by
  induction sources generalizing m runs with
  | nil =>
    cases h
    exact ⟨rfl, fun r hr => by cases hr⟩
  | cons source sources ih =>
    obtain ⟨found, m', more, hrun, hmore, rfl⟩ := runAll_cons h
    obtain ⟨hsources, hreported⟩ := ih hmore
    exact ⟨congrArg (source :: ·) hsources,
      List.forall_mem_cons.mpr ⟨run_reported hrun, hreported⟩⟩

lemma runAll_filter (rounds : Nat) (m : Machine) (sources : List String) :
    m.runAll rounds (sources.filter Accepted) = (m.runAll rounds sources).map
      (fun (runs, last) => (runs.filter (fun r => Accepted r.source), last)) := by
  induction sources generalizing m with
  | nil => rfl
  | cons source sources ih =>
    by_cases hsource : Accepted source
    · rw [List.filter_cons_of_pos (by simpa using hsource), runAll, runAll]
      cases m.run rounds source with
      | none => rfl
      | some answer =>
        obtain ⟨found, m'⟩ := answer
        simp only [Option.bind_eq_bind, Option.bind_some, ih]
        cases m'.runAll rounds sources with
        | none => rfl
        | some answer => simp [hsource]
    · rw [List.filter_cons_of_neg (by simpa using hsource), ih, runAll, run_of_rejected hsource]
      simp only [Option.bind_eq_bind, Option.bind_some]
      cases m.runAll rounds sources with
      | none => rfl
      | some answer => simp [hsource]

/-- The machine with other bytes on its sink. -/
def showing (written : ByteArray) (m : Machine) : Machine :=
  { m with sink := { m.sink with written } }

lemma room_run (hroom : m.sink.room = none) (h : m.run rounds source = some (found, m')) :
    m'.sink.room = none := by
  by_cases hsource : Accepted source
  · rw [run_of_clean hsource.1 hsource.2, Option.map_eq_some_iff] at h
    obtain ⟨⟨error, m''⟩, hrun, heq⟩ := h
    cases heq
    obtain ⟨-, output, hsink, -⟩ :=
      truncated_execAll rounds (parse (scan source).tokens).statements m hroom
    unfold interpret at hrun
    split at hrun <;> rename_i hexec <;> cases hrun <;>
    · rw [hexec] at hsink
      exact (congrArg Sink.room hsink).trans hroom
  · rw [run_of_rejected hsource] at h
    cases h
    exact hroom

theorem run_showing (h : m.run rounds source = some (found, m')) (written : ByteArray) :
    (m.showing written).run rounds source =
      some (found, m'.showing (written ++ Run.output ⟨source, m, found, m'⟩)) := by
  -- both machines are the one with an empty sink behind other bytes
  have hbehind (bytes : ByteArray) : m.showing bytes = (m.showing .empty).behind bytes := by
    unfold showing behind
    rw [ByteArray.append_empty]
  have hself : m.showing m.sink.written = m := rfl
  rw [← hself, hbehind, run_behind, Option.map_eq_some_iff] at h
  obtain ⟨⟨found', base⟩, hbase, heq⟩ := h
  cases heq
  have houtput : Run.output ⟨source, m, found, base.behind m.sink.written⟩ = base.sink.written :=
    ByteArray.extract_append_eq_right rfl ByteArray.size_append
  rw [houtput, hbehind, run_behind, hbase]
  rfl

end Machine
end Scriptlet
